import Mathlib
import Cld.Framework.Ledger

/-!
# Ledgers kept as lists of spans

A list of half-open integer intervals, each with an owner, is the concrete form of a ledger
over `ℤ`: a position is outstanding if it lies in a span, and charged to the owner of that
span.  `ledgerOf` reads the ledger off the list.

The list is `Packed` if its spans do not overlap.  A packed list gives the same ledger in any
order (`Packed.ledgerOf_perm`), and the moves of the ledger are edits of one span:

* `ledgerOf_take` and `ledgerOf_split`: giving a span, or its upper part, to a new owner is
  `Ledger.assign`;
* `Packed.ledgerOf_raise` and `Packed.ledgerOf_drop`: raising the lower end of a span, or
  deleting the span, is `Ledger.advance`;
* `Packed.ledgerOf_free`: raising the lower end and clearing the owner is `Ledger.release`.

`Packed.ncard_outstanding` counts: the lengths of the spans add up to the number of
outstanding positions.
-/

namespace Framework

universe u

/-- A half-open interval of positions, free or owned. -/
structure Span (W : Type u) where
  lo : ℤ
  hi : ℤ
  owner : Option W

namespace Span

variable {W : Type u} {i j : Span W} {l l' : List (Span W)} {k : ℤ}

/-- The positions of a span. -/
def points (i : Span W) : Set ℤ := Set.Ico i.lo i.hi

instance (i : Span W) (k : ℤ) : Decidable (k ∈ i.points) :=
  inferInstanceAs (Decidable (i.lo ≤ k ∧ k < i.hi))

lemma mem_points : k ∈ i.points ↔ i.lo ≤ k ∧ k < i.hi := Iff.rfl

lemma points_subset (hlo : i.lo ≤ j.lo) (hhi : j.hi ≤ i.hi) : j.points ⊆ i.points := by
  intro k hk
  rw [mem_points] at hk ⊢
  omega

/-- The ledger of a list of spans. -/
def ledgerOf (l : List (Span W)) : Ledger ℤ W := fun k =>
  (l.find? fun i => k ∈ i.points).map Span.owner

lemma ledgerOf_cons (i : Span W) (l : List (Span W)) (k : ℤ) :
    ledgerOf (i :: l) k = if k ∈ i.points then some i.owner else ledgerOf l k := by
  unfold ledgerOf
  rw [List.find?_cons]
  by_cases hk : k ∈ i.points <;> simp [hk]

lemma ledgerOf_eq_none : ledgerOf l k = none ↔ ∀ i ∈ l, k ∉ i.points := by
  unfold ledgerOf
  simp

lemma exists_of_ledgerOf {o : Option W} (h : ledgerOf l k = some o) :
    ∃ i ∈ l, k ∈ i.points ∧ i.owner = o := by
  obtain ⟨i, hi, ho⟩ := Option.map_eq_some_iff.1 h
  exact ⟨i, List.mem_of_find?_eq_some hi, by simpa using List.find?_some hi, ho⟩

/-- **The outstanding positions** are those of the spans. -/
lemma outstanding_ledgerOf (l : List (Span W)) :
    (ledgerOf l).outstanding = {k | ∃ i ∈ l, k ∈ i.points} := by
  ext k
  have hout : k ∈ (ledgerOf l).outstanding ↔ ¬ ledgerOf l k = none := Iff.rfl
  rw [hout, ledgerOf_eq_none, Set.mem_ofPred_eq]
  push Not
  rfl

/-! ## Packed lists -/

/-- The spans are proper and do not overlap. -/
structure Packed (l : List (Span W)) : Prop where
  disjoint : l.Pairwise fun i j => Disjoint i.points j.points
  le : ∀ i ∈ l, i.lo ≤ i.hi

lemma packed_cons : Packed (i :: l) ↔
    i.lo ≤ i.hi ∧ (∀ j ∈ l, Disjoint i.points j.points) ∧ Packed l := by
  constructor
  · rintro ⟨hdisj, hle⟩
    rw [List.pairwise_cons] at hdisj
    exact ⟨hle i List.mem_cons_self, hdisj.1, hdisj.2,
      fun j hj => hle j (List.mem_cons_of_mem i hj)⟩
  · rintro ⟨hi, hdisj, hl⟩
    refine ⟨List.pairwise_cons.2 ⟨hdisj, hl.disjoint⟩, fun j hj => ?_⟩
    rcases List.mem_cons.1 hj with rfl | hj
    · exact hi
    · exact hl.le j hj

namespace Packed

lemma perm (h : Packed l) (hperm : l.Perm l') : Packed l' where
  disjoint := (hperm.pairwise_iff fun hij => hij.symm).1 h.disjoint
  le i hi := h.le i (hperm.mem_iff.2 hi)

/-- Two spans that share a position are the same. -/
lemma eq_of_mem_points (h : Packed l) (hi : i ∈ l) (hj : j ∈ l) (hki : k ∈ i.points)
    (hkj : k ∈ j.points) : i = j := by
  by_contra hne
  have : Std.Symm fun i j : Span W => Disjoint i.points j.points := ⟨fun _ _ hij => hij.symm⟩
  have hdisj : Disjoint i.points j.points := h.disjoint.forall hi hj hne
  exact Set.disjoint_left.1 hdisj hki hkj

lemma ledgerOf_eq_some (h : Packed l) {o : Option W} :
    ledgerOf l k = some o ↔ ∃ i ∈ l, k ∈ i.points ∧ i.owner = o := by
  refine ⟨exists_of_ledgerOf, ?_⟩
  rintro ⟨i, hi, hk, ho⟩
  cases hval : ledgerOf l k with
  | none => exact absurd hk (ledgerOf_eq_none.1 hval i hi)
  | some o' =>
    obtain ⟨j, hj, hkj, ho'⟩ := exists_of_ledgerOf hval
    rw [← ho', ← ho, h.eq_of_mem_points hi hj hk hkj]

/-- The ledger does not depend on the order of the list. -/
lemma ledgerOf_perm (h : Packed l) (hperm : l.Perm l') : ledgerOf l = ledgerOf l' := by
  funext k
  refine Option.ext fun o => ?_
  rw [h.ledgerOf_eq_some, (h.perm hperm).ledgerOf_eq_some]
  constructor
  · rintro ⟨i, hi, hk⟩
    exact ⟨i, hperm.mem_iff.1 hi, hk⟩
  · rintro ⟨i, hi, hk⟩
    exact ⟨i, hperm.mem_iff.2 hi, hk⟩

/-- A span may be replaced by a part of it. -/
lemma shrink (h : Packed (i :: l)) (hsub : j.points ⊆ i.points) (hj : j.lo ≤ j.hi) :
    Packed (j :: l) := by
  obtain ⟨-, hdisj, hl⟩ := packed_cons.1 h
  exact packed_cons.2 ⟨hj, fun m hm => (hdisj m hm).mono_left hsub, hl⟩

lemma tail (h : Packed (i :: l)) : Packed l := (packed_cons.1 h).2.2

/-- A span may be cut in two. -/
lemma split {a m b : ℤ} {o x y : Option W} (h : Packed (⟨a, b, o⟩ :: l)) (ham : a ≤ m)
    (hmb : m ≤ b) : Packed (⟨m, b, y⟩ :: ⟨a, m, x⟩ :: l) := by
  have hlow : Packed (⟨a, m, x⟩ :: l) := h.shrink (points_subset le_rfl hmb) ham
  have hup : Packed (⟨m, b, y⟩ :: l) := h.shrink (points_subset ham le_rfl) hmb
  obtain ⟨-, hdisj, -⟩ := packed_cons.1 hup
  refine packed_cons.2 ⟨hmb, fun j hj => ?_, hlow⟩
  rcases List.mem_cons.1 hj with rfl | hj
  · rw [Set.disjoint_left]
    intro k hk hk'
    rw [mem_points] at hk hk'
    exact absurd hk'.2 (not_lt.2 hk.1)
  · exact hdisj j hj

end Packed

/-! ## Edits of one span -/

section Edits

variable {a b m o : ℤ} {w : W} {x : Option W}

/-- A span gets a new owner. -/
lemma ledgerOf_take : ledgerOf (⟨a, b, some w⟩ :: l) =
    (ledgerOf (⟨a, b, x⟩ :: l)).assign w (Set.Ico a b) := by
  funext k
  have hset : k ∈ Set.Ico a b ↔ k ∈ Span.points ⟨a, b, x⟩ := Iff.rfl
  have hpts : k ∈ Span.points ⟨a, b, some w⟩ ↔ k ∈ Span.points ⟨a, b, x⟩ := Iff.rfl
  by_cases hk : k ∈ Span.points ⟨a, b, x⟩
  · simp [Ledger.assign, ledgerOf_cons, hset, hpts, hk]
  · simp [Ledger.assign, ledgerOf_cons, hset, hpts, hk]

/-- The upper part of a span gets a new owner. -/
lemma ledgerOf_split (ham : a ≤ m) (hmb : m ≤ b) :
    ledgerOf (⟨m, b, some w⟩ :: ⟨a, m, x⟩ :: l) =
      (ledgerOf (⟨a, b, x⟩ :: l)).assign w (Set.Ico m b) := by
  funext k
  have hpart : k ∈ Span.points ⟨a, b, x⟩ ↔
      k ∈ Span.points ⟨m, b, some w⟩ ∨ k ∈ Span.points ⟨a, m, x⟩ := by
    simp only [mem_points]
    omega
  have hset : k ∈ Set.Ico m b ↔ k ∈ Span.points ⟨m, b, some w⟩ := Iff.rfl
  by_cases hup : k ∈ Span.points ⟨m, b, some w⟩
  · simp [Ledger.assign, ledgerOf_cons, hset, hup]
  · by_cases hlow : k ∈ Span.points ⟨a, m, x⟩ <;>
      simp [Ledger.assign, ledgerOf_cons, hset, hup, hpart, hlow]

namespace Packed

/-- The positions of the first span lie in no other. -/
lemma ledgerOf_tail (h : Packed (i :: l)) (hk : k ∈ i.points) : ledgerOf l k = none := by
  obtain ⟨-, hdisj, -⟩ := packed_cons.1 h
  exact ledgerOf_eq_none.2 fun j hj hkj => Set.disjoint_left.1 (hdisj j hj) hk hkj

/-- An owner no span has is charged with nothing. -/
lemma ledgerOf_ne (hl : ∀ i ∈ l, i.owner ≠ some w) : ledgerOf l k ≠ some (some w) := by
  intro hval
  obtain ⟨i, hi, -, ho⟩ := exists_of_ledgerOf hval
  exact hl i hi ho

/-- The lower end of a span is raised. -/
lemma ledgerOf_raise (h : Packed (⟨a, b, some w⟩ :: l)) (hl : ∀ i ∈ l, i.owner ≠ some w)
    (hao : a ≤ o) : ledgerOf (⟨o, b, some w⟩ :: l) =
      (ledgerOf (⟨a, b, some w⟩ :: l)).advance w (Set.Iio o) := by
  funext k
  have hset : k ∈ Set.Iio o ↔ k < o := Iff.rfl
  have hraise : k ∈ Span.points ⟨o, b, some w⟩ ↔
      k ∈ Span.points ⟨a, b, some w⟩ ∧ ¬ k < o := by
    simp only [mem_points]
    omega
  by_cases hk : k ∈ Span.points ⟨a, b, some w⟩
  · have htail := h.ledgerOf_tail hk
    by_cases hko : k < o <;> simp [Ledger.advance, ledgerOf_cons, hraise, hset, hk, hko, htail]
  · have hne : ledgerOf l k ≠ some (some w) := ledgerOf_ne hl
    simp [Ledger.advance, ledgerOf_cons, hraise, hk, hne]

/-- A span that lies below `o` is deleted. -/
lemma ledgerOf_drop (h : Packed (⟨a, b, some w⟩ :: l)) (hl : ∀ i ∈ l, i.owner ≠ some w)
    (hbo : b ≤ o) :
    ledgerOf l = (ledgerOf (⟨a, b, some w⟩ :: l)).advance w (Set.Iio o) := by
  funext k
  have hset : k ∈ Set.Iio o ↔ k < o := Iff.rfl
  by_cases hk : k ∈ Span.points ⟨a, b, some w⟩
  · have htail := h.ledgerOf_tail hk
    have hko : k < o := lt_of_lt_of_le (mem_points.1 hk).2 hbo
    simp [Ledger.advance, ledgerOf_cons, hset, hk, hko, htail]
  · have hne : ledgerOf l k ≠ some (some w) := ledgerOf_ne hl
    simp [Ledger.advance, ledgerOf_cons, hk, hne]

/-- The lower end of a span is raised and its owner cleared. -/
lemma ledgerOf_free (h : Packed (⟨a, b, some w⟩ :: l)) (hl : ∀ i ∈ l, i.owner ≠ some w)
    (hao : a ≤ o) : ledgerOf (⟨o, b, none⟩ :: l) =
      (ledgerOf (⟨a, b, some w⟩ :: l)).release w (Set.Iio o) := by
  funext k
  have hset : k ∈ Set.Iio o ↔ k < o := Iff.rfl
  have hraise : k ∈ Span.points (⟨o, b, none⟩ : Span W) ↔
      k ∈ Span.points ⟨a, b, some w⟩ ∧ ¬ k < o := by
    simp only [mem_points]
    omega
  by_cases hk : k ∈ Span.points ⟨a, b, some w⟩
  · have htail := h.ledgerOf_tail hk
    by_cases hko : k < o <;> simp [Ledger.release, ledgerOf_cons, hraise, hset, hk, hko, htail]
  · have hne : ledgerOf l k ≠ some (some w) := ledgerOf_ne hl
    simp [Ledger.release, ledgerOf_cons, hraise, hk, hne]

end Packed

end Edits

/-! ## Counting -/

/-- The sum of the lengths. -/
def total (l : List (Span W)) : ℤ := (l.map fun i => i.hi - i.lo).sum

lemma ncard_points (h : i.lo ≤ i.hi) : (i.points.ncard : ℤ) = i.hi - i.lo := by
  have hfin : i.points = ↑(Finset.Ico i.lo i.hi) := by
    rw [Finset.coe_Ico]
    rfl
  rw [hfin, Set.ncard_coe_finset, Int.card_Ico, Int.toNat_of_nonneg (by omega)]

lemma outstanding_cons (i : Span W) (l : List (Span W)) :
    (ledgerOf (i :: l)).outstanding = i.points ∪ (ledgerOf l).outstanding := by
  rw [outstanding_ledgerOf, outstanding_ledgerOf]
  ext k
  simp

lemma outstanding_nil : (ledgerOf ([] : List (Span W))).outstanding = ∅ := by
  rw [outstanding_ledgerOf]
  ext k
  simp

lemma finite_outstanding (l : List (Span W)) : (ledgerOf l).outstanding.Finite := by
  induction l with
  | nil =>
    rw [outstanding_nil]
    exact Set.finite_empty
  | cons i l ih =>
    rw [outstanding_cons]
    exact (Set.finite_Ico i.lo i.hi).union ih

/-- **The lengths add up** to the number of outstanding positions. -/
lemma Packed.ncard_outstanding (h : Packed l) :
    ((ledgerOf l).outstanding.ncard : ℤ) = total l := by
  induction l with
  | nil =>
    rw [outstanding_nil, Set.ncard_empty]
    rfl
  | cons i l ih =>
    obtain ⟨hi, hdisj, hl⟩ := packed_cons.1 h
    have hsep : Disjoint i.points (ledgerOf l).outstanding := by
      rw [Set.disjoint_left]
      intro k hk hout
      exact hout (h.ledgerOf_tail hk)
    rw [outstanding_cons,
      Set.ncard_union_eq hsep (Set.finite_Ico i.lo i.hi) (finite_outstanding l)]
    push_cast
    rw [ncard_points hi, ih hl]
    rfl

end Span

end Framework
