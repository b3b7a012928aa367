import Cld.Controller.Partition

/-!
# How many workers can still be added

Each `add` takes a free fragment or splits one in two.  A fragment can be split as long as both of
its halves are longer than `min`, so that its length bounds how often.

* `shares` is that bound, with one share more for a fragment that is free.
* `shares_added`: an `add` uses up a share.
* `shares_progress`: what workers do never brings in a share, but for a worker that leaves its
  fragment unfinished.
-/

namespace Cld

/-- How often a fragment of this length can be split, at most. -/
def splitsOf (min length : ℤ) : ℕ := (length / (min + 1) - 1).toNat

/-- The workers that a fragment can still be given. -/
def Fragment.shares (min : ℤ) (f : Fragment) : ℕ :=
  (if f.worker = none then 1 else 0) + splitsOf min (f.end_ - f.begin)

lemma splitsOf_mono {min a b : ℤ} (hmin : 0 ≤ min) (hab : a ≤ b) :
    splitsOf min a ≤ splitsOf min b := by
  have hdiv : a / (min + 1) ≤ b / (min + 1) := Int.ediv_le_ediv (by omega) hab
  unfold splitsOf
  omega

/-- **A split** leaves room for one split less. -/
lemma splitsOf_split {min a b : ℤ} (hmin : 0 ≤ min) (ha : min < a) (hb : min < b) :
    splitsOf min a + splitsOf min b + 1 ≤ splitsOf min (a + b) := by
  have hunit : 0 < min + 1 := by omega
  have hfirst : 1 ≤ a / (min + 1) := (Int.le_ediv_iff_mul_le hunit).2 (by omega)
  have hsecond : 1 ≤ b / (min + 1) := (Int.le_ediv_iff_mul_le hunit).2 (by omega)
  have hsum : a / (min + 1) + b / (min + 1) ≤ (a + b) / (min + 1) := by
    rw [Int.le_ediv_iff_mul_le hunit, Int.add_mul]
    exact Int.add_le_add (Int.ediv_mul_le a hunit.ne') (Int.ediv_mul_le b hunit.ne')
  unfold splitsOf
  omega

namespace LengthController

variable {c c' : LengthController} {w : WorkerPtr} {node : NodePtr} {o : ℤ}

/-- The fragments that no worker fetches. -/
def free (c : LengthController) : ℕ :=
  c.lengthMonitor.countP fun n => n.val.worker = none

/-- **The workers that can still be added.** -/
def shares (c : LengthController) : ℕ :=
  (c.lengthMonitor.map fun n => n.val.shares c.min).sum

lemma Replaces.free {old new : List Node} (h : c.Replaces c' old new) :
    c'.free + old.countP (fun n => n.val.worker = none) =
      c.free + new.countP (fun n => n.val.worker = none) := by
  obtain ⟨rest, hold, hnew⟩ := h
  unfold LengthController.free
  rw [hold.countP_eq, hnew.countP_eq, List.countP_append, List.countP_append]
  omega

lemma Replaces.shares {old new : List Node} (h : c.Replaces c' old new) (hmin : c'.min = c.min) :
    c'.shares + (old.map fun n => n.val.shares c.min).sum =
      c.shares + (new.map fun n => n.val.shares c.min).sum := by
  obtain ⟨rest, hold, hnew⟩ := h
  unfold LengthController.shares
  rw [hmin, (hold.map _).sum_eq, (hnew.map _).sum_eq, List.map_append, List.map_append,
    List.sum_append, List.sum_append]
  omega

lemma shares_sort (c : LengthController) : c.sort.shares = c.shares :=
  (c.sort_perm.map _).sum_eq

/-- The two halves of a fragment. -/
lemma halves_bounds {min a : ℤ} (hmin : 0 ≤ min) (h : min < a.tdiv 2) :
    min < a - a.tdiv 2 ∧ a = (a - a.tdiv 2) + a.tdiv 2 := by
  obtain ⟨hpos, hneg⟩ := half_bounds a
  rcases le_total 0 a with ha | ha
  · have hle := (hpos ha).1
    omega
  · have hle := hneg ha
    omega

/-- **An `add` uses up a share.** -/
lemma shares_added (hmin : 0 ≤ c.min) (hadd : Added c w node c') : c'.shares + 1 ≤ c.shares := by
  cases hadd with
  | take p f hback hfree hfinder hsame hrep =>
    have hsum := hrep.shares hsame
    simp only [List.map_cons, List.map_nil, List.sum_cons, List.sum_nil, Fragment.shares, hfree,
      if_true, reduceCtorEq, if_false] at hsum
    omega
  | split p f hback hbusy hmid hfinder hsame hrep =>
    have hsum := hrep.shares hsame
    simp only [List.map_cons, List.map_nil, List.sum_cons, List.sum_nil, Fragment.shares,
      if_neg hbusy, reduceCtorEq, if_false] at hsum
    obtain ⟨hsecond, hlength⟩ := halves_bounds hmin hmid
    have hsplit := splitsOf_split hmin hsecond hmid
    rw [← hlength] at hsplit
    have hback' : f.end_ - (f.begin + (f.end_ - f.begin).tdiv 2) =
        (f.end_ - f.begin) - (f.end_ - f.begin).tdiv 2 := by ring
    have hfront : f.begin + (f.end_ - f.begin).tdiv 2 - f.begin = (f.end_ - f.begin).tdiv 2 := by
      ring
    rw [hback', hfront] at hsum
    omega

/-- **What a worker does** brings in a share only if it leaves its fragment. -/
lemma shares_progress (hmin : 0 ≤ c.min) (hprog : Progress c w o c')
    (hbegin : ∀ n ∈ c.lengthMonitor, n.val.worker = some w → n.val.begin ≤ o) :
    c'.shares ≤ c.shares + (c'.free - c.free) := by
  have hle : ∀ {p : NodePtr} {f : Fragment} {new : List Node}, f.worker = some w →
      c.Replaces c' [⟨p, f⟩] new →
        splitsOf c.min (f.end_ - o) ≤ splitsOf c.min (f.end_ - f.begin) := by
    intro p f new hf hrep
    obtain ⟨rest, hold, -⟩ := hrep
    have hmem : ⟨p, f⟩ ∈ c.lengthMonitor := hold.mem_iff.2 List.mem_cons_self
    exact splitsOf_mono hmin (by have := hbegin _ hmem hf; simp only at this; omega)
  cases hprog with
  | advance p f hf hlt hrep hfinder hsame =>
    have hsum := hrep.shares hsame
    have hless := hle hf hrep
    simp only [List.map_cons, List.map_nil, List.sum_cons, List.sum_nil, Fragment.shares, hf,
      reduceCtorEq, if_false] at hsum
    omega
  | drop p f hf hend hrep hfinder hsame =>
    have hsum := hrep.shares hsame
    simp only [List.map_cons, List.map_nil, List.sum_cons, List.sum_nil] at hsum
    omega
  | free p f hf hlt hrep hfinder hsame =>
    have hsum := hrep.shares hsame
    have hcount := hrep.free
    have hless := hle hf hrep
    simp only [List.map_cons, List.map_nil, List.sum_cons, List.sum_nil, Fragment.shares, hf,
      reduceCtorEq, if_false, if_true] at hsum
    simp only [List.countP_cons, List.countP_nil, hf, reduceCtorEq, decide_false, decide_true,
      if_true, Bool.false_eq_true, if_false] at hcount
    omega

end LengthController

end Cld
