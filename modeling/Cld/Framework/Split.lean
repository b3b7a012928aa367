import Mathlib.Data.List.Basic
import Mathlib.Data.List.TakeWhile

/-!
# Cutting a list at a separator

The reading side of text protocols: `cut` finds the first occurrence of a separator, `pieces`
cuts at every occurrence, from the left.  The separator is a non-empty list, written as its
first element and the rest.

What is written comes back if the first element of the separator occurs nowhere in the pieces:
`cut_append` for one separator, `pieces_flatMap` for any number of terminated pieces.

A run of a class needs no separator: it ends where the class does, in one way only
(`append_inj_of_runs`).
-/

namespace Framework

universe u

namespace Split

variable {α : Type u} [DecidableEq α] (x : α) (xs : List α)

/-- What stands before and after the first occurrence of the separator. -/
def cut : List α → Option (List α × List α)
  | [] => none
  | a :: as =>
    if (x :: xs).isPrefixOf (a :: as) then some ([], as.drop xs.length)
    else (cut as).map fun halves => (a :: halves.1, halves.2)

/-- The separator is not counted in either half. -/
lemma length_of_cut {s front back : List α} (h : cut x xs s = some (front, back)) :
    back.length < s.length := by
  induction s generalizing front with
  | nil => cases h
  | cons a as ih =>
    rw [cut] at h
    split_ifs at h with hsep
    · obtain ⟨-, rfl⟩ := Prod.mk.inj (Option.some.inj h)
      simp only [List.length_drop, List.length_cons]
      omega
    · obtain ⟨⟨front', back'⟩, hcut, heq⟩ := Option.map_eq_some_iff.1 h
      obtain ⟨-, rfl⟩ := Prod.mk.inj heq
      have := ih hcut
      rw [List.length_cons]
      omega

/-- Cut at every occurrence of the separator. -/
def pieces (s : List α) : List (List α) :=
  match _h : cut x xs s with
  | none => [s]
  | some (front, back) => front :: pieces back
termination_by s.length
decreasing_by exact length_of_cut x xs _h

variable {x xs}

lemma pieces_of_none {s : List α} (h : cut x xs s = none) : pieces x xs s = [s] := by
  rw [pieces]
  split
  · rfl
  · next hsome => exact absurd (h.symm.trans hsome) (by simp)

lemma pieces_of_some {s front back : List α} (h : cut x xs s = some (front, back)) :
    pieces x xs s = front :: pieces x xs back := by
  rw [pieces]
  split
  · next hnone => exact absurd (hnone.symm.trans h) (by simp)
  · next f b hsome =>
    obtain ⟨rfl, rfl⟩ : f = front ∧ b = back := by simpa using hsome.symm.trans h
    rfl

lemma cut_eq_none {s : List α} (hs : x ∉ s) : cut x xs s = none := by
  induction s with
  | nil => rfl
  | cons a as ih =>
    obtain ⟨hne, has⟩ := List.ne_and_not_mem_of_not_mem_cons hs
    simp [cut, hne, ih has]

/-- **The first separator.** -/
lemma cut_append {front : List α} (hfront : x ∉ front) (back : List α) :
    cut x xs (front ++ (x :: xs) ++ back) = some (front, back) := by
  induction front with
  | nil => simp [cut]
  | cons a as ih =>
    obtain ⟨hne, has⟩ := List.ne_and_not_mem_of_not_mem_cons hfront
    rw [List.cons_append, List.cons_append, cut, ih has]
    simp [hne]

/-- **Terminated pieces come back**, and after them what follows the last separator. -/
lemma pieces_flatMap {lines : List (List α)} {last : List α} (hlines : ∀ l ∈ lines, x ∉ l)
    (hlast : x ∉ last) :
    pieces x xs (lines.flatMap (· ++ (x :: xs)) ++ last) = lines ++ [last] := by
  induction lines with
  | nil => exact pieces_of_none (cut_eq_none hlast)
  | cons l ls ih =>
    have hl : x ∉ l := hlines l List.mem_cons_self
    have hls := ih fun l' hl' => hlines l' (List.mem_cons_of_mem l hl')
    rw [List.flatMap_cons, List.append_assoc, pieces_of_some (cut_append hl _), hls,
      List.cons_append]

lemma pieces_ne_nil (s : List α) : pieces x xs s ≠ [] := by
  cases h : cut x xs s with
  | none => simp [pieces_of_none h]
  | some halves => simp [pieces_of_some h]

/-! ## Separators of one element -/

/-- The last piece is ended by nothing. -/
lemma pieces_of_not_mem {s : List α} (hs : x ∉ s) : pieces x [] s = [s] :=
  pieces_of_none (cut_eq_none hs)

lemma pieces_cons_of_not_mem {front : List α} (hfront : x ∉ front) (back : List α) :
    pieces x [] (front ++ x :: back) = front :: pieces x [] back := by
  have hcut : cut x [] (front ++ [x] ++ back) = some (front, back) := cut_append hfront back
  rw [List.append_assoc, List.singleton_append] at hcut
  exact pieces_of_some hcut

/-- A separator anywhere cuts the pieces in two. -/
lemma pieces_append_cons (front back : List α) :
    pieces x [] (front ++ x :: back) = pieces x [] front ++ pieces x [] back := by
  induction hn : front.length using Nat.strongRecOn generalizing front with
  | ind n ih =>
    by_cases hmem : x ∈ front
    · obtain ⟨first, rest, rfl, hfirst⟩ := List.eq_append_cons_of_mem hmem
      have hlen : rest.length < n := by
        simp only [List.length_append, List.length_cons] at hn
        omega
      rw [List.append_assoc, List.cons_append, pieces_cons_of_not_mem hfirst,
        ih rest.length hlen rest rfl, pieces_cons_of_not_mem hfirst, List.cons_append]
    · rw [pieces_cons_of_not_mem hmem, pieces_of_not_mem hmem, List.singleton_append]

/-- Every piece but the last takes its separator with it. -/
lemma length_pieces_le (s : List α) : (pieces x [] s).length ≤ s.length + 1 := by
  induction hn : s.length using Nat.strongRecOn generalizing s with
  | ind n ih =>
    by_cases hmem : x ∈ s
    · obtain ⟨front, back, rfl, hfront⟩ := List.eq_append_cons_of_mem hmem
      rw [List.length_append, List.length_cons] at hn
      have hback := ih back.length (by omega) back rfl
      rw [pieces_cons_of_not_mem hfront, List.length_cons]
      omega
    · rw [pieces_of_not_mem hmem, List.length_singleton]
      omega

/-- The first piece begins as the list does. -/
lemma exists_pieces_cons {a : α} (ha : a ≠ x) (s : List α) :
    ∃ first rest, pieces x [] (a :: s) = (a :: first) :: rest := by
  by_cases hmem : x ∈ s
  · obtain ⟨first, rest, rfl, hfirst⟩ := List.eq_append_cons_of_mem hmem
    have hmore : x ∉ a :: first := fun h => (List.mem_cons.1 h).elim (fun h => ha h.symm) hfirst
    exact ⟨first, pieces x [] rest, pieces_cons_of_not_mem hmore rest⟩
  · have hmore : x ∉ a :: s := fun h => (List.mem_cons.1 h).elim (fun h => ha h.symm) hmem
    exact ⟨s, [], pieces_of_not_mem hmore⟩

end Split

/-! ## Where a class ends -/

section Class

variable {α : Type u} {p q : α → Bool} {front front' back back' : List α}

/-- A run of one class, which is not empty, ends a run of another. -/
lemma head_of_run (hne : front ≠ []) (hfront : ∀ a ∈ front, p a = true)
    (hq : ∀ a, p a = true → q a = false) : ∀ a ∈ (front ++ back).head?, q a = false := by
  obtain ⟨b, front, rfl⟩ := List.exists_cons_of_ne_nil hne
  intro a ha
  obtain rfl := Option.some.inj ha
  exact hq b (hfront b List.mem_cons_self)

/-- What is left behind a run does not go on with it. -/
lemma head_dropWhile (p : α → Bool) (s : List α) : ∀ a ∈ (s.dropWhile p).head?, p a = false := by
  intro a ha
  have hnot := List.head?_dropWhile_not p s
  rw [Option.mem_def.1 ha] at hnot
  simpa using hnot

/-- Every list begins with a run, which may be empty. -/
lemma exists_run (p : α → Bool) (s : List α) : ∃ front back, s = front ++ back ∧
    (∀ a ∈ front, p a = true) ∧ ∀ a ∈ back.head?, p a = false :=
  ⟨s.takeWhile p, s.dropWhile p, List.takeWhile_append_dropWhile.symm,
    fun _ ha => List.mem_takeWhile_imp ha, head_dropWhile p s⟩

/-- The longest run of a class is what stands before the first other element. -/
lemma takeWhile_of_run (hfront : ∀ a ∈ front, p a = true)
    (hback : ∀ a ∈ back.head?, p a = false) : (front ++ back).takeWhile p = front := by
  have hnone : back.takeWhile p = [] := by
    cases back with
    | nil => rfl
    | cons a back => rw [List.takeWhile_cons_of_neg (by simp [hback a rfl])]
  rw [List.takeWhile_append_of_pos hfront, hnone, List.append_nil]

/-- **A list is cut in one way only** where a run of the class ends. -/
lemma append_inj_of_runs (hfront : ∀ a ∈ front, p a = true)
    (hfront' : ∀ a ∈ front', p a = true) (hback : ∀ a ∈ back.head?, p a = false)
    (hback' : ∀ a ∈ back'.head?, p a = false) (h : front ++ back = front' ++ back') :
    front = front' ∧ back = back' := by
  have hsame : front = front' := by
    rw [← takeWhile_of_run hfront hback, h, takeWhile_of_run hfront' hback']
  subst hsame
  exact ⟨rfl, List.append_cancel_left h⟩

end Class

end Framework
