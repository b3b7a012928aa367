import Cld.Controller.Choice

/-!
# Where the file is split

`add` splits a fragment that is being fetched in its middle, if half of it is longer than `min`.
Each split looks at the rest of one fragment only, whose begin has moved with the progress of
its worker and whose end an earlier split may have set.  Still the split points of a whole run
keep more than `min` apart, because no fragment ever reaches across one (`Clear`): an end stays
where a split has put it, a begin only grows, and a new split is more than `min` away from both
ends of the fragment it cuts.

`Spread` is a list of such points, and `Spread.length_lt` bounds how many of them there is
room for.
-/

namespace Cld

open Framework LengthController

/-! ## Points that keep their distance -/

/-- The points are more than `min` apart from each other, and from both ends of `[lo, hi]`. -/
structure Spread (min lo hi : ℤ) (points : List ℤ) : Prop where
  apart : points.Pairwise fun p q => min < |p - q|
  low : ∀ p ∈ points, lo + min < p
  high : ∀ p ∈ points, p + min < hi

namespace Spread

variable {min lo hi : ℤ} {points : List ℤ}

lemma perm {points' : List ℤ} (h : Spread min lo hi points) (hperm : points.Perm points') :
    Spread min lo hi points' where
  apart := by
    refine (hperm.pairwise_iff ?_).1 h.apart
    intro p q hpq
    rwa [abs_sub_comm]
  low p hp := h.low p (hperm.mem_iff.2 hp)
  high p hp := h.high p (hperm.mem_iff.2 hp)

/-- In ascending order, the points behind the first one keep their distance from it. -/
lemma tail {p : ℤ} (h : Spread min lo hi (p :: points)) (hle : ∀ q ∈ points, p ≤ q) :
    Spread min p hi points where
  apart := (List.pairwise_cons.1 h.apart).2
  low q hq := by
    have hdist := (List.pairwise_cons.1 h.apart).1 q hq
    have hpq := hle q hq
    rw [abs_sub_comm, abs_of_nonneg (by omega)] at hdist
    omega
  high q hq := h.high q (List.mem_cons_of_mem p hq)

lemma length_lt_of_sorted (h : Spread min lo hi points) (hsorted : points.Pairwise (· ≤ ·))
    (hne : points ≠ []) : (points.length + 1) * min < hi - lo := by
  induction points generalizing lo with
  | nil => exact absurd rfl hne
  | cons p points ih =>
    obtain ⟨hle, hrest⟩ := List.pairwise_cons.1 hsorted
    have hlow := h.low p List.mem_cons_self
    have hhigh := h.high p List.mem_cons_self
    by_cases hnil : points = []
    · subst hnil
      simp only [List.length_singleton, Nat.cast_one]
      omega
    · have hlt := ih (h.tail hle) hrest hnil
      rw [List.length_cons, Nat.cast_succ, add_mul, one_mul]
      omega

/-- **There is room for so many points only.** -/
lemma length_lt (h : Spread min lo hi points) (hne : points ≠ []) :
    (points.length + 1) * min < hi - lo := by
  have hperm : (points.insertionSort (· ≤ ·)).Perm points := List.perm_insertionSort _ _
  have hne' : points.insertionSort (· ≤ ·) ≠ [] := by
    intro hnil
    rw [hnil] at hperm
    exact hne hperm.nil_eq.symm
  have hlt := (h.perm hperm.symm).length_lt_of_sorted (List.pairwise_insertionSort _ _) hne'
  rwa [hperm.length_eq] at hlt

end Spread

/-! ## The split points of a run -/

/-- Where `add` splits the fragment at the back, if it is being fetched. -/
def LengthController.splitPoint (c : LengthController) : Option ℤ :=
  match c.back with
  | none => none
  | some n => if n.val.worker ≠ none then some (n.val.begin + n.val.half) else none

namespace Client

/-- The split point of an operation. -/
def Op.splitPoint (c : LengthController) : Op → Option ℤ
  | .next => none
  | .add _ _ => c.splitPoint
  | .afterRead _ _ => none
  | .workerStopped _ _ => none

/-- The split points of a run, in their order. -/
def splitPoints : Client → List Op → List ℤ
  | _, [] => []
  | s, op :: ops =>
    (op.splitPoint s.controller).toList ++ ((s.step op).map fun s' => splitPoints s' ops).getD []

/-- The fragment lies in the file and reaches across none of the points. -/
structure Clear (size : ℤ) (points : List ℤ) (f : Fragment) : Prop where
  begin_nonneg : 0 ≤ f.begin
  end_le : f.end_ ≤ size - 1
  apart : ∀ p ∈ points, f.end_ ≤ p ∨ p ≤ f.begin

lemma Clear.snoc {size p : ℤ} {points : List ℤ} {f : Fragment} (h : Clear size points f)
    (hp : f.end_ ≤ p ∨ p ≤ f.begin) : Clear size (points ++ [p]) f where
  begin_nonneg := h.begin_nonneg
  end_le := h.end_le
  apart q hq := by
    rcases List.mem_append.1 hq with hq | hq
    · exact h.apart q hq
    · rwa [List.mem_singleton.1 hq]

/-- The invariant of a run that has split at these points. -/
structure Splits (size min : ℤ) (s : Client) (points : List ℤ) : Prop where
  linked : s.Linked
  min_eq : s.controller.min = min
  sized : 1 ≤ size → s.Inv size
  clear : ∀ n ∈ s.controller.lengthMonitor, Clear size points n.val
  spread : Spread min 0 (size - 1) points

variable {size min : ℤ} {node : NodePtr} {s s' : Client} {op : Op} {points : List ℤ}

lemma splits_create (size : ℤ) (hmin : 1 ≤ min) (node : NodePtr) :
    Splits size min (create size min node) [] where
  linked := linked_create size min node
  min_eq := rfl
  sized hsize := inv_create hsize (by omega) node
  clear n hn := by
    rw [List.mem_singleton.1 hn]
    exact ⟨le_rfl, le_rfl, by simp⟩
  spread := ⟨.nil, by simp, by simp⟩

/-- Progress keeps the fragments clear of the points. -/
lemma clear_of_progress {c c' : LengthController} {w : WorkerPtr} {o : ℤ}
    (hclear : ∀ n ∈ c.lengthMonitor, Clear size points n.val) (hprog : Progress c w o c')
    (hbegin : ∀ n ∈ c.lengthMonitor, n.val.worker = some w → n.val.begin ≤ o) :
    ∀ n ∈ c'.lengthMonitor, Clear size points n.val := by
  have hmoved : ∀ {p : NodePtr} {f : Fragment} {x : Option WorkerPtr},
      ⟨p, f⟩ ∈ c.lengthMonitor → f.worker = some w → Clear size points ⟨o, f.end_, x⟩ := by
    intro p f x hmem hf
    have hle : f.begin ≤ o := hbegin _ hmem hf
    have hold := hclear _ hmem
    exact ⟨hold.begin_nonneg.trans hle, hold.end_le, fun q hq =>
      (hold.apart q hq).imp_right fun hqb => hqb.trans hle⟩
  cases hprog with
  | advance p f hf hlt hrep hfinder hmin =>
    obtain ⟨rest, hold, hnew⟩ := hrep
    intro n hn
    rcases List.mem_cons.1 (hnew.mem_iff.1 hn) with rfl | hn
    · exact hmoved (hold.mem_iff.2 List.mem_cons_self) hf
    · exact hclear n (hold.mem_iff.2 (List.mem_cons_of_mem _ hn))
  | drop p f hf hle hrep hfinder hmin =>
    obtain ⟨rest, hold, hnew⟩ := hrep
    exact fun n hn => hclear n (hold.mem_iff.2 (List.mem_cons_of_mem _ (hnew.mem_iff.1 hn)))
  | free p f hf hlt hrep hfinder hmin =>
    obtain ⟨rest, hold, hnew⟩ := hrep
    intro n hn
    rcases List.mem_cons.1 (hnew.mem_iff.1 hn) with rfl | hn
    · exact hmoved (hold.mem_iff.2 List.mem_cons_self) hf
    · exact hclear n (hold.mem_iff.2 (List.mem_cons_of_mem _ hn))

/-- **A split keeps its distance** from the ends of its fragment, hence from all earlier
splits. -/
lemma Clear.spread {f : Fragment} (hclear : Clear size points f)
    (hspread : Spread min 0 (size - 1) points) (hlow : f.begin + min < f.begin + f.half)
    (hhigh : f.begin + f.half + min < f.end_) :
    Spread min 0 (size - 1) (points ++ [f.begin + f.half]) := by
  have hbegin := hclear.begin_nonneg
  have hend := hclear.end_le
  refine ⟨?_, ?_, ?_⟩
  · rw [List.pairwise_append]
    refine ⟨hspread.apart, List.pairwise_singleton _ _, ?_⟩
    intro p hp q hq
    obtain rfl := List.mem_singleton.1 hq
    rw [lt_abs]
    rcases hclear.apart p hp with hp | hp
    · left
      omega
    · right
      omega
  · intro p hp
    rcases List.mem_append.1 hp with hp | hp
    · exact hspread.low p hp
    · rw [List.mem_singleton.1 hp]
      omega
  · intro p hp
    rcases List.mem_append.1 hp with hp | hp
    · exact hspread.high p hp
    · rw [List.mem_singleton.1 hp]
      omega

/-- A fragment longer than twice `min` has room on both sides of its middle. -/
lemma middle_bounds {f : Fragment} (hmin : 1 ≤ min) (hmid : min < f.half) :
    f.begin + min < f.begin + f.half ∧ f.begin + f.half + min < f.end_ := by
  have hpos : 0 ≤ f.end_ - f.begin := by
    by_contra hneg
    have := f.half_bounds.2 (by omega)
    omega
  have hhalf := f.half_bounds.1 hpos
  omega

/-- A fragment does not reach across a point inside another one. -/
lemma apart_of_disjoint {f g : Fragment} {p : ℤ} (h : Disjoint f.interval g.interval)
    (hp : f.begin < p ∧ p < f.end_) : g.end_ ≤ p ∨ p ≤ g.begin := by
  by_contra hacross
  rw [not_or, not_le, not_le] at hacross
  have hf : p ∈ f.interval := ⟨hp.1.le, hp.2⟩
  have hg : p ∈ g.interval := ⟨hacross.2.le, hacross.1⟩
  exact Set.disjoint_left.1 h hf hg

/-- **A split** keeps the invariant, and adds its point. -/
lemma Splits.clear_of_split {p : NodePtr} {f : Fragment} {c : LengthController} {new : List Node}
    (h : Splits size min s points) (hmin : 1 ≤ min) (hmem : ⟨p, f⟩ ∈ s.controller.lengthMonitor)
    (hmid : min < f.half) (hrep : s.controller.Replaces c [⟨p, f⟩] new)
    (hnew : ∀ n ∈ new, (n.val.begin = f.begin ∧ n.val.end_ = f.begin + f.half) ∨
      (n.val.begin = f.begin + f.half ∧ n.val.end_ = f.end_)) :
    ∀ n ∈ c.lengthMonitor, Clear size (points ++ [f.begin + f.half]) n.val := by
  have hf : Clear size points f := h.clear _ hmem
  have hbegin := hf.begin_nonneg
  have hend := hf.end_le
  obtain ⟨hlow, hhigh⟩ := middle_bounds hmin hmid
  obtain ⟨rest, hold, hperm⟩ := hrep
  intro n hn
  rcases List.mem_append.1 (hperm.mem_iff.1 hn) with hn | hn
  · -- one of the two halves
    rcases hnew n hn with ⟨hb, he⟩ | ⟨hb, he⟩
    · refine Clear.snoc ⟨by omega, by omega, fun q hq => ?_⟩ (by omega)
      have := hf.apart q hq
      omega
    · refine Clear.snoc ⟨by omega, by omega, fun q hq => ?_⟩ (by omega)
      have := hf.apart q hq
      omega
  · -- another fragment, which is disjoint from the one that is split
    have hn' : n ∈ s.controller.lengthMonitor := hold.mem_iff.2 (List.mem_append_right _ hn)
    refine (h.clear n hn').snoc ?_
    have hpairwise := (h.sized (by omega)).partition.pairwise
    have hsymm : ∀ {m n : Node}, Disjoint m.val.interval n.val.interval →
        Disjoint n.val.interval m.val.interval := fun hd => hd.symm
    have hdisjoint : Disjoint f.interval n.val.interval :=
      (List.pairwise_cons.1 ((hold.pairwise_iff hsymm).1 hpairwise)).1 n hn
    exact apart_of_disjoint hdisjoint (by omega)

/-- **One operation.** -/
lemma Splits.step (hmin : 1 ≤ min) (h : Splits size min s points)
    (hstep : s.step op = some s') :
    Splits size min s' (points ++ (op.splitPoint s.controller).toList) := by
  have hstepped := step_cases h.linked.indexed hstep
  have hlinked := h.linked.stepped hstepped
  have hmin' : s'.controller.min = min := hstepped.min_eq.trans h.min_eq
  have hsized : 1 ≤ size → s'.Inv size := fun hsize => ((h.sized hsize).step hstep).1
  cases hstepped with
  | next n hback =>
    rw [Op.splitPoint, Option.toList_none, List.append_nil]
    refine ⟨hlinked, hmin', hsized, fun m hm => ?_, h.spread⟩
    exact h.clear m (s.controller.sort_perm.mem_iff.1 hm)
  | add w node range c hgranted hrange hw hnode hadd =>
    rw [Op.splitPoint]
    cases hadd with
    | take p f hback hfree hfinder hminc hrep =>
      have hnone : s.controller.splitPoint = none := by
        simp [splitPoint, hback, hfree]
      rw [hnone, Option.toList_none, List.append_nil]
      refine ⟨hlinked, hmin', hsized, fun m hm => ?_, h.spread⟩
      have hf : Clear size points f := h.clear _ (mem_of_back hback)
      obtain ⟨rest, hold, hnew⟩ := hrep
      rcases List.mem_cons.1 (hnew.mem_iff.1 hm) with rfl | hm
      · exact ⟨hf.begin_nonneg, hf.end_le, hf.apart⟩
      · exact h.clear m (hold.mem_iff.2 (List.mem_cons_of_mem _ hm))
    | split p f hback hbusy hmid hfinder hminc hrep =>
      have hsome : s.controller.splitPoint = some (f.begin + f.half) := by
        simp [splitPoint, hback, hbusy]
      have hmid' : min < f.half := by
        rw [← h.min_eq]
        exact hmid
      have hmem := mem_of_back hback
      obtain ⟨hlow, hhigh⟩ := middle_bounds hmin hmid'
      rw [hsome, Option.toList_some]
      refine ⟨hlinked, hmin', hsized, ?_, (h.clear _ hmem).spread h.spread hlow hhigh⟩
      refine h.clear_of_split hmin hmem hmid' hrep fun n hn => ?_
      rcases List.mem_pair.1 hn with rfl | rfl
      · exact Or.inr ⟨rfl, rfl⟩
      · exact Or.inl ⟨rfl, rfl⟩
  | progress op w o c hop ho hprog =>
    have hnone : op.splitPoint s.controller = none := by
      rcases hop with rfl | rfl <;> rfl
    rw [hnone, Option.toList_none, List.append_nil]
    exact ⟨hlinked, hmin', hsized,
      clear_of_progress h.clear hprog (h.linked.begin_le ho), h.spread⟩
  | unknown w o ho hw =>
    rw [Op.splitPoint, Option.toList_none, List.append_nil]
    exact ⟨hlinked, hmin', hsized, h.clear, h.spread⟩

/-- **A run** that begins with earlier splits. -/
lemma Splits.run (hmin : 1 ≤ min) {ops : List Op} (h : Splits size min s points)
    (hrun : Transition.run Client.step s ops = some s') :
    Splits size min s' (points ++ splitPoints s ops) := by
  induction ops generalizing s points with
  | nil =>
    obtain rfl : s = s' := by simpa using hrun
    rwa [splitPoints, List.append_nil]
  | cons op ops ih =>
    obtain ⟨s₁, hstep, hrest⟩ := (Transition.run_cons_iff _).1 hrun
    have hmore := ih (h.step hmin hstep) hrest
    rw [splitPoints, hstep, Option.map_some, Option.getD_some, ← List.append_assoc]
    exact hmore

/-- **Splitting never shatters the file.**  The split points of a run are more than `min` apart
from each other, from 0 and from `size - 1`; hence a run with `n ≥ 1` splits needs a file of
more than `(n + 1) * min` bytes. -/
theorem splits_keep_apart (hmin : 1 ≤ min) {ops : List Op}
    (hrun : Transition.run step (create size min node) ops = some s) :
    ((splitPoints (create size min node) ops).Pairwise fun p q => min < |p - q|) ∧
      (∀ p ∈ splitPoints (create size min node) ops, 0 + min < p ∧ p + min < size - 1) ∧
      (splitPoints (create size min node) ops ≠ [] →
        ((splitPoints (create size min node) ops).length + 1) * min < size) := by
  have hsplits := (splits_create size hmin node).run hmin hrun
  rw [List.nil_append] at hsplits
  have hspread := hsplits.spread
  refine ⟨hspread.apart, fun p hp => ⟨hspread.low p hp, hspread.high p hp⟩, fun hne => ?_⟩
  have hlt := hspread.length_lt hne
  omega

/-- Two splits of a file of 101 bytes, the second after the first worker has made progress. -/
theorem splits_keep_apart_twice :
    splitPoints (create 101 10 0) [.next, .add 1 1, .next, .add 2 1, .afterRead 1 10, .next,
      .add 3 2] = [50, 75] ∧ (2 + 1) * 10 < (101 : ℤ) := by
  have hpoints : splitPoints (create 101 10 0) [.next, .add 1 1, .next, .add 2 1,
      .afterRead 1 10, .next, .add 3 2] = [50, 75] := rfl
  have hrun : Transition.run step (create 101 10 0) [.next, .add 1 1, .next, .add 2 1,
      .afterRead 1 10, .next, .add 3 2] = some _ := rfl
  have hlt := (splits_keep_apart (by decide) hrun).2.2
  rw [hpoints] at hlt
  exact ⟨hpoints, hlt (by simp)⟩

end Client

end Cld
