import Cld.Controller.Indexes
import Cld.Framework.Spans

/-!
# The fragments partition the outstanding work

What the length controller is for: it is a ledger of the bytes `0, …, size - 2` which are
still to be fetched, each free or charged to one worker.  `ledger` reads this abstract view
off the fragment list, and `Partition` is the invariant under which the view is sound: the
fragments are disjoint and lie in `[0, size - 1)`, and no worker is charged with an empty one.

* `Partition.add_spec`: `add` is `Ledger.assign` of the range that `next` has answered.
* `Partition.progress_spec`: `afterRead` and `workerStopped` are `Ledger.advance` or
  `Ledger.release` below the offset of the worker, whatever the offset is compared with the
  end of its fragment.
* `Partition.remain_eq`: `remain()` is the number of outstanding bytes.

The last byte of the file, `size - 1`, belongs to no fragment: the constructor stores the
inclusive end of the HTTP range, and every test against it treats it as exclusive.
-/

namespace Cld

open Framework

/-- The bytes of a fragment, `[begin, end)`. -/
def Fragment.interval (f : Fragment) : Set ℤ := Set.Ico f.begin f.end_

/-- A fragment as a span with an owner. -/
def Fragment.span (f : Fragment) : Span WorkerPtr := ⟨f.begin, f.end_, f.worker⟩

namespace LengthController

/-- The union of the fragments. -/
def union (c : LengthController) : Set ℤ := {k | ∃ n ∈ c.lengthMonitor, k ∈ n.val.interval}

/-- The bytes of the fragment of a worker. -/
def own (c : LengthController) (w : WorkerPtr) : Set ℤ :=
  {k | ∃ n ∈ c.lengthMonitor, n.val.worker = some w ∧ k ∈ n.val.interval}

/-- The spans of a list of nodes. -/
def spansOf (nodes : List Node) : List (Span WorkerPtr) := nodes.map fun n => n.val.span

def spans (c : LengthController) : List (Span WorkerPtr) := spansOf c.lengthMonitor

/-- The abstract view of the controller. -/
def ledger (c : LengthController) : Ledger ℤ WorkerPtr := Span.ledgerOf c.spans

structure Partition (size : ℤ) (c : LengthController) : Prop where
  packed : Span.Packed c.spans
  within : ∀ n ∈ c.lengthMonitor, 0 ≤ n.val.begin ∧ n.val.end_ ≤ size - 1
  busy : ∀ n ∈ c.lengthMonitor, n.val.worker ≠ none → n.val.begin < n.val.end_
  /-- Only a file of one byte has an empty fragment. -/
  proper : 2 ≤ size → ∀ n ∈ c.lengthMonitor, n.val.begin < n.val.end_

variable {c c' : LengthController} {size o : ℤ} {w : WorkerPtr} {node : NodePtr}

lemma partition_create {size : ℤ} (hsize : 1 ≤ size) (min : ℤ) (node : NodePtr) :
    (create size min node).Partition size where
  packed := ⟨List.pairwise_singleton _ _, fun i hi => by
    obtain rfl := List.mem_singleton.1 hi
    show (0 : ℤ) ≤ size - 1
    omega⟩
  within n hn := by
    obtain rfl := List.mem_singleton.1 hn
    exact ⟨le_refl (0 : ℤ), le_refl (size - 1)⟩
  busy n hn hw := by
    obtain rfl := List.mem_singleton.1 hn
    exact absurd rfl hw
  proper h2 n hn := by
    obtain rfl := List.mem_singleton.1 hn
    show (0 : ℤ) < size - 1
    omega

/-! ## The abstract view -/

lemma outstanding_ledger (c : LengthController) : c.ledger.outstanding = c.union := by
  rw [ledger, Span.outstanding_ledgerOf]
  ext k
  simp only [spans, spansOf, List.mem_map, Set.mem_ofPred_eq, union]
  constructor
  · rintro ⟨-, ⟨n, hn, rfl⟩, hk⟩
    exact ⟨n, hn, hk⟩
  · rintro ⟨n, hn, hk⟩
    exact ⟨n.val.span, ⟨n, hn, rfl⟩, hk⟩

lemma Partition.charged_ledger (h : c.Partition size) (w : WorkerPtr) :
    c.ledger.charged w = c.own w := by
  ext k
  have hiff := h.packed.ledgerOf_eq_some (k := k) (o := some w)
  constructor
  · intro hk
    obtain ⟨i, hi, hki, hw⟩ := hiff.1 hk
    obtain ⟨n, hn, rfl⟩ := List.mem_map.1 hi
    exact ⟨n, hn, hw, hki⟩
  · rintro ⟨n, hn, hw, hk⟩
    exact hiff.2 ⟨n.val.span, List.mem_map.2 ⟨n, hn, rfl⟩, hk, hw⟩

/-- Fragments of a partition do not overlap. -/
lemma Partition.pairwise (h : c.Partition size) :
    c.lengthMonitor.Pairwise fun m n => Disjoint m.val.interval n.val.interval := by
  have hdisj := h.packed.disjoint
  rw [spans, spansOf, List.pairwise_map] at hdisj
  exact hdisj

lemma Partition.union_subset (h : c.Partition size) : c.union ⊆ Set.Ico 0 (size - 1) := by
  rintro k ⟨n, hn, hk⟩
  obtain ⟨hbegin, hend⟩ := h.within n hn
  have hk' : n.val.begin ≤ k ∧ k < n.val.end_ := hk
  exact ⟨by omega, by omega⟩

/-- **`remain()` counts** the outstanding bytes. -/
lemma Partition.remain_eq (h : c.Partition size) : c.remain = (c.union.ncard : ℤ) := by
  rw [← outstanding_ledger, ledger, h.packed.ncard_outstanding, Span.total, spans, spansOf,
    List.map_map]
  rfl

/-! ## Reordering and replacing -/

lemma spansOf_perm {nodes nodes' : List Node} (hperm : nodes.Perm nodes') :
    (spansOf nodes).Perm (spansOf nodes') :=
  hperm.map _

/-- The ledger of a controller whose nodes are known up to their order. -/
lemma ledger_eq {nodes : List Node} (hperm : c.lengthMonitor.Perm nodes)
    (hpacked : Span.Packed (spansOf nodes)) : c.ledger = Span.ledgerOf (spansOf nodes) :=
  (hpacked.ledgerOf_perm (spansOf_perm hperm.symm)).symm

lemma Partition.packed_of_perm {nodes : List Node} (h : c.Partition size)
    (hperm : c.lengthMonitor.Perm nodes) : Span.Packed (spansOf nodes) :=
  h.packed.perm (spansOf_perm hperm)

lemma Partition.perm (h : c.Partition size) (hperm : c'.lengthMonitor.Perm c.lengthMonitor) :
    c'.Partition size where
  packed := h.packed_of_perm hperm.symm
  within n hn := h.within n (hperm.mem_iff.1 hn)
  busy n hn := h.busy n (hperm.mem_iff.1 hn)
  proper h2 n hn := h.proper h2 n (hperm.mem_iff.1 hn)

lemma Partition.sort (h : c.Partition size) : c.sort.Partition size := h.perm c.sort_perm

lemma union_perm (hperm : c'.lengthMonitor.Perm c.lengthMonitor) : c'.union = c.union := by
  ext k
  simp only [union, Set.mem_ofPred_eq, hperm.mem_iff]

/-- A partition is kept by replacing some of its nodes, if the new ones are proper fragments
in the file and the spans stay packed. -/
lemma Partition.of_perm {old new rest : List Node} (h : c.Partition size)
    (hold : c.lengthMonitor.Perm (old ++ rest)) (hnew : c'.lengthMonitor.Perm (new ++ rest))
    (hpacked : Span.Packed (spansOf (new ++ rest)))
    (hfit : ∀ n ∈ new, 0 ≤ n.val.begin ∧ n.val.begin < n.val.end_ ∧ n.val.end_ ≤ size - 1) :
    c'.Partition size := by
  have hcases : ∀ n ∈ c'.lengthMonitor, n ∈ new ∨ n ∈ c.lengthMonitor := by
    intro n hn
    rcases List.mem_append.1 (hnew.mem_iff.1 hn) with hn | hn
    · exact Or.inl hn
    · exact Or.inr (hold.mem_iff.2 (List.mem_append_right _ hn))
  refine ⟨hpacked.perm (spansOf_perm hnew.symm), fun n hn => ?_, fun n hn hw => ?_,
    fun h2 n hn => ?_⟩
  · rcases hcases n hn with hn | hn
    · obtain ⟨hbegin, -, hend⟩ := hfit n hn
      exact ⟨hbegin, hend⟩
    · exact h.within n hn
  · rcases hcases n hn with hn | hn
    · exact (hfit n hn).2.1
    · exact h.busy n hn hw
  · rcases hcases n hn with hn | hn
    · exact (hfit n hn).2.1
    · exact h.proper h2 n hn

/-! ## `add` -/

/-- Halving rounds towards zero. -/
lemma half_bounds (a : ℤ) :
    (0 ≤ a → 2 * a.tdiv 2 ≤ a ∧ a ≤ 2 * a.tdiv 2 + 1) ∧ (a ≤ 0 → a.tdiv 2 ≤ 0) := by
  constructor
  · intro hpos
    rw [Int.tdiv_eq_ediv_of_nonneg hpos]
    omega
  · intro hneg
    have hhalf : 0 ≤ (-a).tdiv 2 := Int.tdiv_nonneg (by omega) (by decide)
    rw [Int.neg_tdiv] at hhalf
    omega

/-- Half of a number above a bound that is not negative. -/
lemma tdiv_two_bounds {a min : ℤ} (hmin : 0 ≤ min) (h : min < a.tdiv 2) :
    0 < a.tdiv 2 ∧ a.tdiv 2 < a := by
  obtain ⟨hpos, hneg⟩ := half_bounds a
  rcases le_total 0 a with ha | ha
  · have hle := (hpos ha).2
    have hge := (hpos ha).1
    omega
  · have hle := hneg ha
    omega

/-- **`add` keeps the partition**, and charges the worker with the range that `next` has
answered. -/
lemma Partition.add_spec {n : Node} (h : c.Partition size) (hmin : 0 ≤ c.min)
    (hadd : Added c w node c') (hback : c.back = some n)
    (hrange : (c.rangeOf n.val).2 - (c.rangeOf n.val).1 ≠ 0) :
    c'.Partition size ∧
      c'.ledger = c.ledger.assign w (Set.Ico (c.rangeOf n.val).1 (c.rangeOf n.val).2) ∧
      Set.Ico (c.rangeOf n.val).1 (c.rangeOf n.val).2 ⊆ n.val.interval := by
  obtain ⟨hbegin, hend⟩ := h.within n (mem_of_back hback)
  cases hadd with
  | take p f hback' hfree hfinder hmin' hrep =>
    obtain rfl : n = ⟨p, f⟩ := Option.some.inj (hback.symm.trans hback')
    rw [rangeOf_free hfree] at hrange ⊢
    obtain ⟨rest, hold, hnew⟩ := hrep
    have hpacked : Span.Packed (f.span :: spansOf rest) := h.packed_of_perm hold
    have hle : f.begin ≤ f.end_ := (Span.packed_cons.1 hpacked).1
    have hlt : f.begin < f.end_ := lt_of_le_of_ne hle fun heq => hrange (sub_eq_zero.2 heq.symm)
    have hpacked' : Span.Packed (Span.mk f.begin f.end_ (some w) :: spansOf rest) :=
      hpacked.shrink (Set.Subset.refl _) hle
    refine ⟨h.of_perm hold hnew hpacked' ?_, ?_, Set.Subset.refl _⟩
    · intro m hm
      obtain rfl := List.mem_singleton.1 hm
      exact ⟨hbegin, hlt, hend⟩
    · rw [ledger_eq hnew hpacked', ledger_eq hold hpacked]
      exact Span.ledgerOf_take
  | split p f hback' hbusy hmid hfinder hmin' hrep =>
    obtain rfl : n = ⟨p, f⟩ := Option.some.inj (hback.symm.trans hback')
    rw [rangeOf_split hbusy hmid]
    obtain ⟨rest, hold, hnew⟩ := hrep
    obtain ⟨hpos, hlt⟩ := tdiv_two_bounds hmin hmid
    have hlo : f.begin < f.begin + (f.end_ - f.begin).tdiv 2 := by omega
    have hhi : f.begin + (f.end_ - f.begin).tdiv 2 < f.end_ := by omega
    have hpacked : Span.Packed (f.span :: spansOf rest) := h.packed_of_perm hold
    have hpacked' := hpacked.split (x := f.worker) (y := some w) hlo.le hhi.le
    refine ⟨h.of_perm hold hnew hpacked' ?_, ?_, fun k hk => ⟨hlo.le.trans hk.1, hk.2⟩⟩
    · intro m hm
      rcases List.mem_cons.1 hm with rfl | hm
      · exact ⟨hbegin.trans hlo.le, hhi, hend⟩
      · obtain rfl := List.mem_singleton.1 hm
        exact ⟨hbegin, hlo, hhi.le.trans hend⟩
    · rw [ledger_eq hnew hpacked', ledger_eq hold hpacked]
      exact Span.ledgerOf_split hlo.le hhi.le

/-! ## `afterRead` and `workerStopped` -/

/-- A fragment loses its front, whoever has what is left. -/
lemma Partition.raise {p : NodePtr} {fb fe : ℤ} {owner owner' : Option WorkerPtr}
    {rest : List Node} (h : c.Partition size)
    (hold : c.lengthMonitor.Perm (⟨p, fb, fe, owner⟩ :: rest))
    (hnew : c'.lengthMonitor.Perm (⟨p, o, fe, owner'⟩ :: rest)) (hbo : fb ≤ o) (hlt : o < fe) :
    c'.Partition size ∧ Span.Packed (⟨o, fe, owner'⟩ :: spansOf rest) := by
  obtain ⟨hbegin, hend⟩ := h.within _ (hold.mem_iff.2 List.mem_cons_self)
  have hpacked : Span.Packed (⟨fb, fe, owner⟩ :: spansOf rest) := h.packed_of_perm hold
  have hpacked' : Span.Packed (⟨o, fe, owner'⟩ :: spansOf rest) :=
    hpacked.shrink (Span.points_subset hbo le_rfl) hlt.le
  refine ⟨@Partition.of_perm c c' size [_] [_] rest h hold hnew hpacked' ?_, hpacked'⟩
  intro m hm
  obtain rfl := List.mem_singleton.1 hm
  exact ⟨hbegin.trans hbo, hlt, hend⟩

/-- **`afterRead` and `workerStopped` keep the partition**, and strike out of the fragment of
the worker what lies below its offset. -/
lemma Partition.progress_spec (h : c.Partition size) (hidx : c.Indexed)
    (hprog : Progress c w o c')
    (ho : ∀ n ∈ c.lengthMonitor, n.val.worker = some w → n.val.begin ≤ o) :
    c'.Partition size ∧ (c'.ledger = c.ledger.advance w (Set.Iio o) ∨
      c'.ledger = c.ledger.release w (Set.Iio o)) := by
  -- the other fragments are not those of `w`
  have hothers : ∀ {p : NodePtr} {f : Fragment} {rest : List Node},
      c.lengthMonitor.Perm (⟨p, f⟩ :: rest) → f.worker = some w →
        ∀ i ∈ spansOf rest, i.owner ≠ some w := by
    intro p f rest hold hf i hi
    obtain ⟨n, hn, rfl⟩ := List.mem_map.1 hi
    exact (Indexes.perm hidx hold).worker_ne_of_mem hf hn
  cases hprog with
  | advance p f hf hlt hrep hfinder hmin =>
    obtain ⟨rest, hold, hnew⟩ := hrep
    obtain ⟨fb, fe, fw⟩ := f
    obtain rfl : fw = some w := hf
    have hbo : fb ≤ o := ho _ (hold.mem_iff.2 List.mem_cons_self) rfl
    have hpacked : Span.Packed (⟨fb, fe, some w⟩ :: spansOf rest) := h.packed_of_perm hold
    obtain ⟨hpartition, hpacked'⟩ := h.raise hold hnew hbo hlt
    refine ⟨hpartition, Or.inl ?_⟩
    rw [ledger_eq hnew hpacked', ledger_eq hold hpacked]
    exact hpacked.ledgerOf_raise (hothers hold rfl) hbo
  | drop p f hf hle hrep hfinder hmin =>
    obtain ⟨rest, hold, hnew⟩ := hrep
    obtain ⟨fb, fe, fw⟩ := f
    obtain rfl : fw = some w := hf
    have hpacked : Span.Packed (⟨fb, fe, some w⟩ :: spansOf rest) := h.packed_of_perm hold
    refine ⟨h.of_perm hold hnew hpacked.tail fun m hm => absurd hm List.not_mem_nil,
      Or.inl ?_⟩
    rw [ledger_eq hnew hpacked.tail, ledger_eq hold hpacked]
    exact hpacked.ledgerOf_drop (hothers hold rfl) hle
  | free p f hf hlt hrep hfinder hmin =>
    obtain ⟨rest, hold, hnew⟩ := hrep
    obtain ⟨fb, fe, fw⟩ := f
    obtain rfl : fw = some w := hf
    have hbo : fb ≤ o := ho _ (hold.mem_iff.2 List.mem_cons_self) rfl
    have hpacked : Span.Packed (⟨fb, fe, some w⟩ :: spansOf rest) := h.packed_of_perm hold
    obtain ⟨hpartition, hpacked'⟩ := h.raise hold hnew hbo hlt
    refine ⟨hpartition, Or.inr ?_⟩
    rw [ledger_eq hnew hpacked', ledger_eq hold hpacked]
    exact hpacked.ledgerOf_free (hothers hold rfl) hbo

/-- The union after `afterRead` or `workerStopped`. -/
lemma Partition.union_progress (h : c.Partition size) (hidx : c.Indexed)
    (hprog : Progress c w o c')
    (ho : ∀ n ∈ c.lengthMonitor, n.val.worker = some w → n.val.begin ≤ o) :
    c'.union = c.union \ (c.own w ∩ Set.Iio o) := by
  obtain ⟨-, hledger | hledger⟩ := h.progress_spec hidx hprog ho
  · rw [← outstanding_ledger, hledger, Ledger.outstanding_advance, h.charged_ledger,
      outstanding_ledger]
  · rw [← outstanding_ledger, hledger, Ledger.outstanding_release, h.charged_ledger,
      outstanding_ledger]

/-- The union after `add`. -/
lemma Partition.union_added {n : Node} (h : c.Partition size) (hmin : 0 ≤ c.min)
    (hadd : Added c w node c') (hback : c.back = some n)
    (hrange : (c.rangeOf n.val).2 - (c.rangeOf n.val).1 ≠ 0) : c'.union = c.union := by
  obtain ⟨-, hledger, hsub⟩ := h.add_spec hmin hadd hback hrange
  have hout : Set.Ico (c.rangeOf n.val).1 (c.rangeOf n.val).2 ⊆ c.ledger.outstanding := by
    rw [outstanding_ledger]
    exact fun k hk => ⟨n, mem_of_back hback, hsub hk⟩
  rw [← outstanding_ledger, hledger, Ledger.outstanding_assign hout, outstanding_ledger]

end LengthController

end Cld
