import Mathlib.Data.Set.Lattice

/-!
# Ledgers of outstanding work

What a work distributor is for, without its data structure.  A ledger says of every position
whether it is still outstanding, and which worker is charged with it; an outstanding position
nobody is charged with is free.  Since it is a function of the position, no position is
outstanding twice.

There are three moves.

* `assign w S` charges `w` with a set of outstanding positions.
* `advance w D` strikes out the positions of `w` that lie in `D`.
* `release w D` does the same and frees the other positions of `w`.

`outstanding_assign`, `outstanding_advance` and `outstanding_release` say what each does to
the outstanding positions, and `Covers` is the invariant behind every completeness argument:
if only positions that are done are struck out, every position of the job stays outstanding
or is done.
-/

namespace Framework

universe u v

/-- Each position is struck out (`none`), free (`some none`) or charged to a worker. -/
abbrev Ledger (α : Type u) (W : Type v) := α → Option (Option W)

namespace Ledger

variable {α : Type u} {W : Type v}

/-- The positions that are not struck out. -/
def outstanding (L : Ledger α W) : Set α := {k | L k ≠ none}

/-- The positions a worker is charged with. -/
def charged (L : Ledger α W) (w : W) : Set α := {k | L k = some (some w)}

open Classical in
/-- Charge `w` with the positions of `S`. -/
noncomputable def assign (L : Ledger α W) (w : W) (S : Set α) : Ledger α W := fun k =>
  if k ∈ S then some (some w) else L k

open Classical in
/-- Strike out the positions of `w` that lie in `D`. -/
noncomputable def advance (L : Ledger α W) (w : W) (D : Set α) : Ledger α W := fun k =>
  if L k = some (some w) ∧ k ∈ D then none else L k

open Classical in
/-- Strike out the positions of `w` that lie in `D` and free its other positions. -/
noncomputable def release (L : Ledger α W) (w : W) (D : Set α) : Ledger α W := fun k =>
  if L k = some (some w) then (if k ∈ D then none else some none) else L k

/-! ## The outstanding positions after a move -/

lemma outstanding_assign {L : Ledger α W} {w : W} {S : Set α} (hS : S ⊆ L.outstanding) :
    (L.assign w S).outstanding = L.outstanding := by
  ext k
  by_cases hk : k ∈ S
  · have hout : L k ≠ none := hS hk
    simp [outstanding, assign, hk, hout]
  · simp [outstanding, assign, hk]

lemma outstanding_advance (L : Ledger α W) (w : W) (D : Set α) :
    (L.advance w D).outstanding = L.outstanding \ (L.charged w ∩ D) := by
  ext k
  by_cases hk : L k = some (some w) ∧ k ∈ D
  · simp [outstanding, advance, charged, hk]
  · have hk' : k ∉ L.charged w ∩ D := hk
    have hval : L.advance w D k = L k := if_neg hk
    simp only [outstanding, Set.mem_ofPred_eq, Set.mem_sdiff, hval]
    exact ⟨fun h => ⟨h, hk'⟩, fun h => h.1⟩

lemma outstanding_release (L : Ledger α W) (w : W) (D : Set α) :
    (L.release w D).outstanding = L.outstanding \ (L.charged w ∩ D) := by
  ext k
  by_cases hk : L k = some (some w)
  · by_cases hD : k ∈ D <;> simp [outstanding, release, charged, hk, hD]
  · have hval : L.release w D k = L k := if_neg hk
    have hk' : k ∉ L.charged w ∩ D := fun h => hk h.1
    simp only [outstanding, Set.mem_ofPred_eq, Set.mem_sdiff, hval]
    exact ⟨fun h => ⟨h, hk'⟩, fun h => h.1⟩

/-! ## Coverage -/

/-- Every position of the job is outstanding or done. -/
def Covers (L : Ledger α W) (job done : Set α) : Prop := job ⊆ L.outstanding ∪ done

/-- **Coverage is kept** by every change of the ledger that strikes out only positions which
are done afterwards, while what was done stays done. -/
lemma Covers.mono {L L' : Ledger α W} {job done done' : Set α} (h : L.Covers job done)
    (hdone : done ⊆ done') (hstruck : L.outstanding ⊆ L'.outstanding ∪ done') :
    L'.Covers job done' := by
  intro k hk
  rcases h hk with hout | hd
  · exact hstruck hout
  · exact Or.inr (hdone hd)

/-- Once nothing is outstanding, the job is done. -/
lemma Covers.complete {L : Ledger α W} {job done : Set α} (h : L.Covers job done)
    (hnone : L.outstanding = ∅) : job ⊆ done := by
  intro k hk
  rcases h hk with hout | hd
  · rw [hnone] at hout
    exact absurd hout (Set.notMem_empty k)
  · exact hd

end Ledger

end Framework
