import Mathlib.Data.List.Basic

/-!
# Sorted association lists

The ordered associative container of a systems language, as a list of entries in key order.
The order is a Boolean comparison `lt` on keys.  It decides where a new entry is put, hence
the order in which the entries are visited; looking a key up depends on key equality alone,
so the lookup laws hold of every list, sorted or not.

* `assign` is `m[k] = v`: it overwrites.
* `insertNew` is `m.insert({k, v})`: an entry that is there already wins.
-/

namespace Framework

universe u v

/-- The entries of an ordered map, in key order. -/
abbrev SortedMap (κ : Type u) (ν : Type v) := List (κ × ν)

namespace SortedMap

variable {κ : Type u} {ν : Type v} [DecidableEq κ] (lt : κ → κ → Bool)

/-- The value stored under a key. -/
def find (m : SortedMap κ ν) (k : κ) : Option ν :=
  match m with
  | [] => none
  | (k', v') :: rest => if k = k' then some v' else find rest k

/-- Store `v` under `k`, replacing what was stored there. -/
def assign (k : κ) (v : ν) : SortedMap κ ν → SortedMap κ ν
  | [] => [(k, v)]
  | (k', v') :: rest =>
    if k = k' then (k, v) :: rest
    else if lt k k' then (k, v) :: (k', v') :: rest
    else (k', v') :: assign k v rest

/-- Store `v` under `k` unless something is stored there. -/
def insertNew (k : κ) (v : ν) (m : SortedMap κ ν) : SortedMap κ ν :=
  if (m.find k).isSome then m else m.assign lt k v

@[simp] lemma find_nil (k : κ) : find ([] : SortedMap κ ν) k = none := rfl

lemma find_cons (k k' : κ) (v' : ν) (rest : SortedMap κ ν) :
    SortedMap.find ((k', v') :: rest) k = if k = k' then some v' else rest.find k := rfl

/-- **Lookup after assignment.** -/
@[simp] lemma find_assign (m : SortedMap κ ν) (k q : κ) (v : ν) :
    (m.assign lt k v).find q = if q = k then some v else m.find q := by
  induction m with
  | nil => rfl
  | cons e rest ih =>
    obtain ⟨k', v'⟩ := e
    by_cases hk : k = k'
    · subst hk
      by_cases hq : q = k <;> simp [assign, find_cons, hq]
    · by_cases hlt : lt k k' = true
      · simp [assign, hk, hlt, find_cons]
      · by_cases hq : q = k
        · subst hq
          simp [assign, hk, hlt, find_cons, ih]
        · simp [assign, hk, hlt, find_cons, ih, hq]

/-- Lookup after an insertion that does not overwrite. -/
@[simp] lemma find_insertNew (m : SortedMap κ ν) (k q : κ) (v : ν) :
    (m.insertNew lt k v).find q = if q = k then some ((m.find k).getD v) else m.find q := by
  unfold insertNew
  cases hfind : m.find k with
  | none => simp
  | some v' =>
    by_cases hq : q = k
    · subst hq
      simp [hfind]
    · simp [hq]

/-! ## The entries -/

lemma mem_of_find {m : SortedMap κ ν} {k : κ} {v : ν} (h : m.find k = some v) : (k, v) ∈ m := by
  induction m with
  | nil => cases h
  | cons e rest ih =>
    obtain ⟨k', v'⟩ := e
    rw [find_cons] at h
    split_ifs at h with hk
    · obtain rfl := Option.some.inj h
      rw [hk]
      exact List.mem_cons_self
    · exact List.mem_cons_of_mem _ (ih h)

lemma find_eq_none {m : SortedMap κ ν} {k : κ} (h : m.find k = none) : ∀ e ∈ m, e.1 ≠ k := by
  induction m with
  | nil => simp
  | cons e rest ih =>
    obtain ⟨k', v'⟩ := e
    rw [find_cons] at h
    split_ifs at h with hk
    intro e he
    rcases List.mem_cons.1 he with rfl | hrest
    · exact fun heq => hk heq.symm
    · exact ih h e hrest

lemma find_eq_none_iff {m : SortedMap κ ν} {k : κ} : m.find k = none ↔ ∀ e ∈ m, e.1 ≠ k := by
  constructor
  · exact find_eq_none
  · intro hne
    rw [Option.eq_none_iff_forall_ne_some]
    intro v hv
    exact hne _ (mem_of_find hv) rfl

/-- A lookup read off the entries. -/
lemma find_eq_of_entries {m : SortedMap κ ν} {k : κ} {o : Option ν}
    (hall : ∀ e ∈ m, e.1 = k → o = some e.2) (hsome : o ≠ none → ∃ e ∈ m, e.1 = k) :
    m.find k = o := by
  cases hfind : m.find k with
  | some v => rw [hall _ (mem_of_find hfind) rfl]
  | none =>
    by_contra hne
    obtain ⟨e, he, hk⟩ := hsome (Ne.symm hne)
    exact find_eq_none hfind e he hk

/-- Lookup after the assignment of one entry after the other: the last one wins. -/
lemma find_foldl_assign (extras m : SortedMap κ ν) (k : κ) :
    SortedMap.find (extras.foldl (fun m e => m.assign lt e.1 e.2) m) k =
      (SortedMap.find extras.reverse k).or (m.find k) := by
  have happend : ∀ l : SortedMap κ ν, ∀ e : κ × ν, SortedMap.find (l ++ [e]) k =
      (SortedMap.find l k).or (if k = e.1 then some e.2 else none) := by
    intro l e
    induction l with
    | nil =>
      obtain ⟨k', v'⟩ := e
      simp [find_cons]
    | cons e' l ih =>
      obtain ⟨k', v'⟩ := e'
      rw [List.cons_append, find_cons, find_cons, ih]
      split_ifs <;> simp
  induction extras generalizing m with
  | nil => simp
  | cons e extras ih =>
    rw [List.foldl_cons, ih, List.reverse_cons, happend, find_assign, Option.or_assoc]
    split_ifs <;> simp

/-- An assignment adds one entry at most. -/
lemma mem_assign {m : SortedMap κ ν} {k : κ} {v : ν} {e : κ × ν} (h : e ∈ m.assign lt k v) :
    e = (k, v) ∨ e ∈ m := by
  induction m with
  | nil => exact Or.inl (List.mem_singleton.1 h)
  | cons e' rest ih =>
    obtain ⟨k', v'⟩ := e'
    rw [assign] at h
    split_ifs at h with hk hlt
    · rcases List.mem_cons.1 h with rfl | hrest
      · exact Or.inl rfl
      · exact Or.inr (List.mem_cons_of_mem _ hrest)
    · rcases List.mem_cons.1 h with rfl | hrest
      · exact Or.inl rfl
      · exact Or.inr hrest
    · rcases List.mem_cons.1 h with rfl | hrest
      · exact Or.inr List.mem_cons_self
      · exact (ih hrest).imp_right (List.mem_cons_of_mem _)

lemma mem_insertNew {m : SortedMap κ ν} {k : κ} {v : ν} {e : κ × ν}
    (h : e ∈ m.insertNew lt k v) : e = (k, v) ∨ e ∈ m := by
  unfold insertNew at h
  split_ifs at h
  · exact Or.inr h
  · exact mem_assign lt h

/-- Assigning twice is assigning the last value. -/
lemma assign_assign (m : SortedMap κ ν) (k : κ) (v v' : ν) :
    (m.assign lt k v).assign lt k v' = m.assign lt k v' := by
  induction m with
  | nil => simp [assign]
  | cons e rest ih =>
    obtain ⟨k', w⟩ := e
    by_cases hk : k = k'
    · simp [assign, hk]
    · by_cases hlt : lt k k' = true
      · simp [assign, hk, hlt]
      · simp [assign, hk, hlt, ih]

end SortedMap

end Framework
