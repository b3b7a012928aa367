import Mathlib.Data.List.Sort

/-!
# The back of a stable sort

Sorting by an integer key keeps the order of elements with equal keys, so that the element at
the back of the sorted list is the *last* of those whose key is largest.  `Foremost` says this
of the list as it was before the sort.
-/

namespace Framework

universe u

variable {α : Type u} (key : α → ℤ)

/-- `a` is the last element of `l` whose key is largest. -/
def Foremost (l : List α) (a : α) : Prop :=
  ∃ front rest, l = front ++ a :: rest ∧ (∀ b ∈ front, key b ≤ key a) ∧ ∀ b ∈ rest, key b < key a

variable {key}

lemma Foremost.mem {l : List α} {a : α} (h : Foremost key l a) : a ∈ l := by
  obtain ⟨front, rest, rfl, -, -⟩ := h
  exact List.mem_append_right front List.mem_cons_self

lemma Foremost.le {l : List α} {a b : α} (h : Foremost key l a) (hb : b ∈ l) :
    key b ≤ key a := by
  obtain ⟨front, rest, rfl, hfront, hrest⟩ := h
  rcases List.mem_append.1 hb with hb | hb
  · exact hfront b hb
  · rcases List.mem_cons.1 hb with rfl | hb
    · exact le_rfl
    · exact (hrest b hb).le

/-- An element goes to the back if its key is larger than all others. -/
lemma getLast?_orderedInsert (a : α) (l : List α) :
    (l.orderedInsert (fun b c => ¬ key c < key b) a).getLast? =
      if ∀ b ∈ l, key b < key a then some a else l.getLast? := by
  induction l with
  | nil => simp
  | cons b l ih =>
    rw [List.orderedInsert_cons]
    by_cases hba : key b < key a
    · rw [if_neg (not_not.2 hba), List.getLast?_cons, ih]
      by_cases hall : ∀ c ∈ l, key c < key a
      · have hmore : ∀ c ∈ b :: l, key c < key a := List.forall_mem_cons.2 ⟨hba, hall⟩
        rw [if_pos hall, if_pos hmore, Option.getD_some]
      · have hmore : ¬ ∀ c ∈ b :: l, key c < key a := fun h => hall (List.forall_mem_cons.1 h).2
        have hne : l ≠ [] := by
          rintro rfl
          exact hall (by simp)
        obtain ⟨c, hc⟩ := Option.ne_none_iff_exists'.1 (mt List.getLast?_eq_none_iff.1 hne)
        rw [if_neg hall, if_neg hmore, List.getLast?_cons, hc]
    · simp [hba, List.getLast?_cons]

/-- **The back of the sorted list.** -/
lemma getLast?_insertionSort {l : List α} {a : α} :
    (l.insertionSort fun b c => ¬ key c < key b).getLast? = some a ↔ Foremost key l a := by
  induction l generalizing a with
  | nil =>
    simp only [List.insertionSort_nil, List.getLast?_nil, reduceCtorEq, false_iff]
    exact fun h => List.not_mem_nil h.mem
  | cons b l ih =>
    have hmem : (∀ c ∈ l.insertionSort fun b c => ¬ key c < key b, key c < key b) ↔
        ∀ c ∈ l, key c < key b := by
      simp only [List.mem_insertionSort]
    rw [List.insertionSort_cons, getLast?_orderedInsert]
    by_cases hall : ∀ c ∈ l, key c < key b
    · rw [if_pos (hmem.2 hall)]
      constructor
      · intro heq
        obtain rfl := Option.some.inj heq
        exact ⟨[], l, rfl, by simp, hall⟩
      · rintro ⟨front, rest, heq, hfront, -⟩
        cases front with
        | nil => rw [(List.cons.inj heq).1]
        | cons d front =>
          obtain ⟨rfl, rfl⟩ := List.cons.inj heq
          have hlt := hall a (List.mem_append_right front List.mem_cons_self)
          have hle := hfront b List.mem_cons_self
          omega
    · rw [if_neg (mt hmem.1 hall), ih]
      constructor
      · intro h
        obtain ⟨c, hc, hcb⟩ : ∃ c ∈ l, key b ≤ key c := by simpa using hall
        have hba : key b ≤ key a := hcb.trans (h.le hc)
        obtain ⟨front, rest, rfl, hfront, hrest⟩ := h
        refine ⟨b :: front, rest, rfl, ?_, hrest⟩
        intro d hd
        rcases List.mem_cons.1 hd with rfl | hd
        · exact hba
        · exact hfront d hd
      · rintro ⟨front, rest, heq, hfront, hrest⟩
        cases front with
        | nil =>
          obtain ⟨rfl, rfl⟩ := List.cons.inj heq
          exact absurd hrest hall
        | cons d front =>
          obtain ⟨rfl, rfl⟩ := List.cons.inj heq
          exact ⟨front, rest, rfl, fun c hc => hfront c (List.mem_cons_of_mem b hc), hrest⟩

end Framework
