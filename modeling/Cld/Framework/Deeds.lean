import Mathlib.Data.List.Basic

/-!
# Acquiring and releasing

A component that opens things and closes them again leaves a trace of deeds behind: what it has
acquired and what it has released, in order.  `settle` goes through such a trace and keeps what is
held.  It fails at the release of something that is not held, because it was never acquired or has
been released already, so that a trace which settles to `held` has released everything it acquired
exactly once, but for `held`, and nothing else.

A value may be acquired again after its release, as the numbers of descriptors are.
-/

namespace Framework

universe u

/-- One thing a component does to the resources of type `α`. -/
inductive Deed (α : Type u)
  | acquire (a : α)
  | release (a : α)
  deriving DecidableEq, Repr

variable {α : Type u} [DecidableEq α] {held : List α} {a : α} {deeds : List (Deed α)}

/-- What is held after the deeds; `none` as soon as something is released that is not held. -/
def settle (held : List α) : List (Deed α) → Option (List α)
  | [] => some held
  | .acquire a :: deeds => settle (a :: held) deeds
  | .release a :: deeds => if a ∈ held then settle (held.erase a) deeds else none

@[simp] lemma settle_nil (held : List α) : settle held [] = some held := rfl

@[simp] lemma settle_acquire (held : List α) (a : α) (deeds : List (Deed α)) :
    settle held (.acquire a :: deeds) = settle (a :: held) deeds := rfl

/-- What has just been acquired can be released. -/
lemma settle_release (hmem : a ∈ held) :
    settle held (.release a :: deeds) = settle (held.erase a) deeds := if_pos hmem

lemma settle_release_foreign (hmem : a ∉ held) : settle held (.release a :: deeds) = none :=
  if_neg hmem

/-- Two traces, one after the other. -/
lemma settle_append (held : List α) (deeds more : List (Deed α)) :
    settle held (deeds ++ more) = (settle held deeds).bind fun held' => settle held' more := by
  induction deeds generalizing held with
  | nil => rfl
  | cons deed deeds ih =>
    cases deed with
    | acquire a => exact ih (a :: held)
    | release a =>
      by_cases hmem : a ∈ held
      · rw [List.cons_append, settle_release hmem, settle_release hmem, ih]
      · rw [List.cons_append, settle_release_foreign hmem, settle_release_foreign hmem]
        rfl

end Framework
