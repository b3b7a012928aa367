import Cld.Controller.Client
import Cld.Framework.Sorting

/-!
# What `next` chooses

`next` looks at one fragment, the one at the back of the sorted list.  By the key of the sort
that is the last of the fragments with the largest `splitLength` (`back_eq_some_iff`).

* A free fragment there is handed out whole, and one that is being fetched is split if its half
  is longer than `min`.  In both cases the `add` that follows charges the new worker with
  exactly the range that was answered (`records_of_next`).
* If it is being fetched and too short to be split, `next` gives up.  The fragments in front of
  it are no longer than its half, but a free one among them could be handed out all the same:
  `picksWork_iff`.

Neither needs a fragment to have a positive length, so that the results hold for every size.
-/

namespace Cld

open Framework

namespace Fragment

/-- Nobody fetches the fragment, and something is left of it. -/
def Abandoned (f : Fragment) : Prop := f.worker = none ∧ f.begin < f.end_

/-- Half of the length. -/
def half (f : Fragment) : ℤ := (f.end_ - f.begin).tdiv 2

lemma splitLength_free {f : Fragment} (h : f.worker = none) :
    f.splitLength = f.end_ - f.begin := if_pos h

lemma splitLength_busy {f : Fragment} (h : f.worker ≠ none) : f.splitLength = f.half := if_neg h

lemma half_bounds (f : Fragment) :
    (0 ≤ f.end_ - f.begin → 2 * f.half ≤ f.end_ - f.begin ∧ f.end_ - f.begin ≤ 2 * f.half + 1) ∧
      (f.end_ - f.begin ≤ 0 → f.half ≤ 0) :=
  LengthController.half_bounds (f.end_ - f.begin)

end Fragment

namespace LengthController

variable {c c' : LengthController} {n : Node} {b e : ℤ} {w : WorkerPtr} {node : NodePtr}

/-- **The fragment at the back** of the sorted list. -/
lemma back_eq_some_iff :
    c.back = some n ↔ Foremost (fun n : Node => n.val.splitLength) c.lengthMonitor n :=
  getLast?_insertionSort

/-! ## The range that is recorded -/

lemma Indexed.deref_iff (h : c.Indexed) {p : NodePtr} {f : Fragment} :
    c.deref p = some f ↔ ⟨p, f⟩ ∈ c.lengthMonitor := by
  constructor
  · intro hderef
    obtain ⟨n, hfind, rfl⟩ := Option.map_eq_some_iff.1 hderef
    have hmem := List.mem_of_find?_eq_some hfind
    have haddr : n.addr = p := by simpa using List.find?_some hfind
    rw [← haddr]
    exact hmem
  · exact h.deref_eq

/-- A replaced node concerns no other address. -/
lemma Indexed.deref_of_replaces (h : c.Indexed) (h' : c'.Indexed) {old new : List Node}
    (hrep : c.Replaces c' old new) {p : NodePtr} (hold : ∀ n ∈ old, n.addr ≠ p)
    (hnew : ∀ n ∈ new, n.addr ≠ p) : c'.deref p = c.deref p := by
  obtain ⟨rest, hc, hc'⟩ := hrep
  refine Option.ext fun f => ?_
  rw [h.deref_iff, h'.deref_iff, hc.mem_iff, hc'.mem_iff]
  have hold' : ⟨p, f⟩ ∉ old := fun hmem => hold _ hmem rfl
  have hnew' : ⟨p, f⟩ ∉ new := fun hmem => hnew _ hmem rfl
  simp [hold', hnew']

/-- `c'` charges the worker with `[b, e]`, and at most one other fragment of `c` has changed:
it ends at `b`. -/
structure Records (c c' : LengthController) (w : WorkerPtr) (b e : ℤ) : Prop where
  charged : ∃ p, c'.nodeFinder.lookup w = some p ∧ c'.deref p = some ⟨b, e, some w⟩
  others : ∃ q, (∀ r, c'.nodeFinder.lookup w ≠ some r → r ≠ q → c'.deref r = c.deref r) ∧
    (c'.nodeFinder.lookup w = some q ∨
      ∃ f, c.deref q = some f ∧ c'.deref q = some { f with end_ := b })

/-- **`add` records the range of the fragment at the back.** -/
lemma records_of_added (hidx : c.Indexed) (hadd : Added c w node c')
    (hw : c.nodeFinder.lookup w = none) (hnode : node ∉ c.addresses) (hback : c.back = some n) :
    Records c c' w (c.rangeOf n.val).1 (c.rangeOf n.val).2 := by
  have hidx' : c'.Indexed := hidx.added hadd hw hnode
  cases hadd with
  | take p f hback' hfree hfinder hmin hrep =>
    obtain rfl : n = ⟨p, f⟩ := Option.some.inj (hback.symm.trans hback')
    have hlookup : c'.nodeFinder.lookup w = some p := by
      rw [hfinder, AList.lookup_insert]
    rw [rangeOf_free hfree]
    refine ⟨⟨p, hlookup, ?_⟩, p, ?_, Or.inl hlookup⟩
    · apply hidx'.deref_eq
      obtain ⟨rest, -, hnew⟩ := hrep
      exact hnew.mem_iff.2 List.mem_cons_self
    · intro r hr hrp
      have hne : ∀ {g : Fragment}, ∀ m ∈ [(⟨p, g⟩ : Node)], m.addr ≠ r := by
        intro g m hm
        rw [List.mem_singleton.1 hm]
        exact hrp.symm
      exact hidx.deref_of_replaces hidx' hrep hne hne
  | split p f hback' hbusy hmid hfinder hmin hrep =>
    obtain rfl : n = ⟨p, f⟩ := Option.some.inj (hback.symm.trans hback')
    have hlookup : c'.nodeFinder.lookup w = some node := by
      rw [hfinder, AList.lookup_insert]
    have hold : c.deref p = some f := hidx.deref_eq (mem_of_back hback)
    have hnew : ∀ m ∈ [(⟨node, f.begin + (f.end_ - f.begin).tdiv 2, f.end_, some w⟩ : Node),
        ⟨p, { f with end_ := f.begin + (f.end_ - f.begin).tdiv 2 }⟩],
        c'.deref m.addr = some m.val := by
      obtain ⟨rest, -, hperm⟩ := hrep
      exact fun m hm => hidx'.deref_eq (hperm.mem_iff.2 (List.mem_append_left rest hm))
    rw [rangeOf_split hbusy hmid]
    refine ⟨⟨node, hlookup, hnew _ List.mem_cons_self⟩, p, ?_, Or.inr ⟨f, hold, ?_⟩⟩
    · intro r hr hrp
      have hnr : node ≠ r := fun heq => hr (heq ▸ hlookup)
      refine hidx.deref_of_replaces hidx' hrep ?_ ?_
      · intro m hm
        rw [List.mem_singleton.1 hm]
        exact hrp.symm
      · intro m hm
        rcases List.mem_pair.1 hm with rfl | rfl
        · exact hnr
        · exact hrp.symm
    · exact hnew _ (List.mem_cons_of_mem _ List.mem_cons_self)

/-- Sorting leaves every fragment where it is. -/
lemma Indexed.deref_sort (h : c.Indexed) (p : NodePtr) : c.sort.deref p = c.deref p := by
  refine Option.ext fun f => ?_
  rw [h.deref_iff, h.sort.deref_iff, c.sort_perm.mem_iff]

/-- **The range `next` answers is the range `add` records.** -/
lemma records_of_next (hidx : c.Indexed) (hnext : c.next = .ok ((b, e), c')) (hne : e - b ≠ 0)
    (hw : c.nodeFinder.lookup w = none) (hnode : node ∉ c.addresses) :
    ∃ c'', c'.add w node = .ok c'' ∧ Records c c'' w b e := by
  obtain ⟨n, hback, hrange, rfl⟩ := next_cases hnext
  have hb : b = (c.rangeOf n.val).1 := congrArg Prod.fst hrange
  have he : e = (c.rangeOf n.val).2 := congrArg Prod.snd hrange
  obtain ⟨c'', hadd⟩ := exists_add hback (by rwa [← hb, ← he]) w node
  have hnode' : node ∉ c.sort.addresses := fun hmem =>
    hnode ((c.sort_perm.map Node.addr).mem_iff.1 hmem)
  have hrec := records_of_added hidx.sort (add_cases hadd) hw hnode'
    ((back_sort c).trans hback)
  refine ⟨c'', hadd, ?_⟩
  rw [hb, he]
  obtain ⟨hcharged, q, hothers, hq⟩ := hrec
  refine ⟨hcharged, q, ?_, ?_⟩
  · intro r hr hrq
    rw [hothers r hr hrq, hidx.deref_sort]
  · rwa [hidx.deref_sort] at hq

/-! ## The work that is picked up -/

/-- Whenever a fragment is abandoned, `next` answers a range that is not empty; and it answers
an empty one only if no fragment is abandoned and none has a half longer than `min`. -/
def PicksWork (c : LengthController) : Prop :=
  ((∃ n ∈ c.lengthMonitor, n.val.Abandoned) →
    ∃ b e c', c.next = .ok ((b, e), c') ∧ b < e) ∧
  ∀ b e c', c.next = .ok ((b, e), c') → ¬ b < e →
    ∀ n ∈ c.lengthMonitor, ¬ n.val.Abandoned ∧ ¬ c.min < n.val.half

/-- The fragment can be handed out, whole or in part. -/
def Available (c : LengthController) (f : Fragment) : Prop := f.worker = none ∨ c.min < f.half

/-- An available fragment at the back is the work `next` answers, if there is any. -/
lemma rangeOf_available {f : Fragment} (hmin : 0 ≤ c.min) (h : c.Available f) :
    (c.rangeOf f).1 < (c.rangeOf f).2 ↔ 0 < f.splitLength := by
  by_cases hfree : f.worker = none
  · rw [rangeOf_free hfree, Fragment.splitLength_free hfree]
    exact sub_pos.symm
  · have hmid : c.min < f.half := h.resolve_left hfree
    have hbounds := tdiv_two_bounds hmin hmid
    rw [rangeOf_split hfree hmid, Fragment.splitLength_busy hfree]
    show f.begin + f.half < f.end_ ↔ 0 < f.half
    change 0 < f.half ∧ f.half < f.end_ - f.begin at hbounds
    omega

/-- An empty range is answered for a fragment that is too short to be split. -/
lemma rangeOf_unavailable {f : Fragment} (h : ¬ c.Available f) : c.rangeOf f = (0, 0) := by
  obtain ⟨hbusy, hmid⟩ := not_or.1 h
  have hmid' : ¬ (f.end_ - f.begin).tdiv 2 > c.min := hmid
  rw [rangeOf, if_pos hbusy, if_neg hmid']

/-- The key is at least the half, where there is one. -/
lemma half_le_splitLength {f : Fragment} (h : 0 < f.half) : f.half ≤ f.splitLength := by
  have hhalf := f.half_bounds
  by_cases hfree : f.worker = none
  · rw [Fragment.splitLength_free hfree]
    omega
  · rw [Fragment.splitLength_busy hfree]

/-- A fragment with work for a new worker has a positive key. -/
lemma splitLength_pos {f : Fragment} (hmin : 0 ≤ c.min) (h : f.Abandoned ∨ c.min < f.half) :
    0 < f.splitLength := by
  rcases h with habandoned | hlong
  · rw [Fragment.splitLength_free habandoned.1]
    exact sub_pos.2 habandoned.2
  · have hpos : 0 < f.half := hmin.trans_lt hlong
    exact hpos.trans_le (half_le_splitLength hpos)

/-- **When `next` finds the work.**  An abandoned fragment is picked up, unless the fragment at
the back is being fetched and too short to be split. -/
lemma picksWork_iff (hmin : 0 ≤ c.min) :
    c.PicksWork ↔ ((∃ n ∈ c.lengthMonitor, n.val.Abandoned) →
      ∃ n, Foremost (fun n : Node => n.val.splitLength) c.lengthMonitor n ∧
        c.Available n.val) := by
  constructor
  · rintro ⟨hpicks, -⟩ hsome
    obtain ⟨b, e, c', hnext, hlt⟩ := hpicks hsome
    obtain ⟨n, hback, hrange, -⟩ := next_cases hnext
    refine ⟨n, back_eq_some_iff.1 hback, ?_⟩
    by_contra hun
    rw [rangeOf_unavailable hun] at hrange
    obtain ⟨rfl, rfl⟩ := Prod.mk.inj hrange
    exact lt_irrefl _ hlt
  · intro havail
    constructor
    · intro hsome
      obtain ⟨n, hn, hav⟩ := havail hsome
      obtain ⟨m, hm, habandoned⟩ := hsome
      have hle : m.val.splitLength ≤ n.val.splitLength := hn.le hm
      have hpos := splitLength_pos hmin (Or.inl habandoned)
      exact ⟨_, _, _, next_eq_of_back (back_eq_some_iff.2 hn),
        (rangeOf_available hmin hav).2 (by omega)⟩
    · intro b e c' hnext hempty m hm
      obtain ⟨n, hback, hrange, -⟩ := next_cases hnext
      have hn := back_eq_some_iff.1 hback
      have hle : m.val.splitLength ≤ n.val.splitLength := hn.le hm
      have hb : b = (c.rangeOf n.val).1 := congrArg Prod.fst hrange
      have he : e = (c.rangeOf n.val).2 := congrArg Prod.snd hrange
      by_cases hav : c.Available n.val
      · -- the back has nothing to hand out, so no fragment has
        have hzero : ¬ 0 < n.val.splitLength := by
          rw [← rangeOf_available hmin hav, ← hb, ← he]
          exact hempty
        have hnone : ¬ (m.val.Abandoned ∨ c.min < m.val.half) := fun h => by
          have hpos := splitLength_pos hmin h
          omega
        exact not_or.1 hnone
      · -- nothing is abandoned, and every half is at most that of the back
        have hnone : ¬ ∃ n ∈ c.lengthMonitor, n.val.Abandoned := by
          intro hsome
          obtain ⟨n', hn', hav'⟩ := havail hsome
          obtain rfl : n = n' := Option.some.inj (hback.symm.trans (back_eq_some_iff.2 hn'))
          exact hav hav'
        obtain ⟨hbusy, hshort⟩ := not_or.1 hav
        rw [Fragment.splitLength_busy hbusy] at hle
        refine ⟨fun h => hnone ⟨m, hm, h⟩, fun hlong => ?_⟩
        have hhalf := half_le_splitLength (hmin.trans_lt hlong)
        omega

end LengthController

namespace Client

open LengthController

variable {size min : ℤ} {node : NodePtr} {ops : List Op} {s : Client}

lemma min_of_run (hrun : Transition.run step (create size min node) ops = some s) :
    s.controller.min = min := by
  have hboth : s.Linked ∧ s.controller.min = min :=
    Transition.run_invariant (P := fun s : Client => s.Linked ∧ s.controller.min = min)
      (fun t op t' ht hstep =>
        ⟨ht.1.step hstep, (step_cases ht.1.indexed hstep).min_eq.trans ht.2⟩)
      ⟨linked_create size min node, rfl⟩ hrun
  exact hboth.2

/-- **Idle connections pick up abandoned work**, in a reachable state, if and only if nothing is
abandoned or the last of the fragments with the largest split length is free, or long enough to
be split. -/
theorem picks_work_iff (hmin : 0 ≤ min)
    (hrun : Transition.run step (create size min node) ops = some s) :
    s.controller.PicksWork ↔ ((∃ n ∈ s.controller.lengthMonitor, n.val.Abandoned) →
      ∃ n, Foremost (fun n : Node => n.val.splitLength) s.controller.lengthMonitor n ∧
        s.controller.Available n.val) := by
  apply picksWork_iff
  rw [min_of_run hrun]
  exact hmin

/-- A file of 101 bytes and a `min` of 10.  Two workers share the file; the second one stops
with five bytes left when twenty are left to the first. -/
def shadowed : List Op :=
  [.next, .add 1 1, .next, .add 2 1, .workerStopped 2 95, .afterRead 1 30]

/-- When the first worker has come further, its half is the shorter one, and the rest of the second
is picked up. -/
theorem picks_work_abandoned : ∃ s,
    Transition.run step (create 101 10 0) (shadowed.take 5 ++ [.afterRead 1 42]) = some s ∧
      (∃ n ∈ s.controller.lengthMonitor, n.val.Abandoned) ∧ s.controller.PicksWork := by
  have hrun : Transition.run step (create 101 10 0) (shadowed.take 5 ++ [.afterRead 1 42]) =
    some _ := rfl
  refine ⟨_, hrun, ⟨⟨1, 95, 100, none⟩, by decide, by decide, by decide⟩, ?_⟩
  refine (picks_work_iff (by decide) hrun).2 fun _ => ?_
  exact ⟨⟨1, 95, 100, none⟩, back_eq_some_iff.1 (by decide), Or.inl rfl⟩

/-- **The short rest is shadowed**: the half of the first fragment is larger than the five bytes
that are free, and not larger than `min`, so that `next` answers the empty range. -/
theorem shadows_abandoned_work : ∃ s,
    Transition.run step (create 101 10 0) shadowed = some s ∧ ¬ s.controller.PicksWork := by
  refine ⟨_, rfl, ?_⟩
  rintro ⟨hpicks, -⟩
  obtain ⟨b, e, c', hnext, hlt⟩ := hpicks ⟨⟨1, 95, 100, none⟩, by decide, by decide, by decide⟩
  obtain ⟨⟨rfl, rfl⟩, -⟩ := Prod.mk.inj (Except.ok.inj hnext)
  exact absurd hlt (by decide)

end Client

end Cld
