import Cld.Model.Download

/-!
# The slots

Facts about the vector of workers, for the two ways in which the loop changes it: a worker is
stored back under its address (`putWorker`), or a slot is overwritten (`List.set`).

As long as no two slots hold the same address, `workerAt` is membership (`workerAt_iff`).
`offsets` is the file offset of every held worker, as a function of its address.
-/

namespace Cld.Download

variable {workers : List (Option Held)} {p q : WorkerPtr} {w obj : Worker} {i : ℕ} {h : Held}

lemma mem_pointers : p ∈ pointers workers ↔ ∃ w, some ⟨p, w⟩ ∈ workers := by
  simp only [pointers, List.mem_filterMap]
  constructor
  · rintro ⟨slot, hslot, hp⟩
    obtain ⟨h, rfl, rfl⟩ := Option.map_eq_some_iff.1 hp
    exact ⟨h.obj, hslot⟩
  · rintro ⟨w, hw⟩
    exact ⟨some ⟨p, w⟩, hw, rfl⟩

lemma pointers_cons (slot : Option Held) (workers : List (Option Held)) :
    pointers (slot :: workers) = (slot.map Held.ptr).toList ++ pointers workers := by
  cases slot <;> rfl

/-- **Looking a worker up** finds the one that is held under the address. -/
lemma workerAt_iff (hdistinct : (pointers workers).Nodup) :
    workerAt workers p = some w ↔ some ⟨p, w⟩ ∈ workers := by
  induction workers with
  | nil => simp [workerAt]
  | cons slot workers ih =>
    cases slot with
    | none =>
      have hcons : workerAt (none :: workers) p = workerAt workers p := rfl
      rw [hcons, ih hdistinct]
      simp
    | some h =>
      rw [pointers_cons] at hdistinct
      obtain ⟨hnew, hrest⟩ := List.nodup_cons.1 hdistinct
      by_cases hp : h.ptr = p
      · have hcons : workerAt (some h :: workers) p = some h.obj := by
          simp [workerAt, hp]
        rw [hcons]
        constructor
        · intro hw
          obtain rfl : h.obj = w := Option.some.inj hw
          rw [← hp]
          exact List.mem_cons_self
        · intro hmem
          rcases List.mem_cons.1 hmem with heq | hmem
          · rw [← Option.some.inj heq]
          · exact absurd (mem_pointers.2 ⟨w, hp ▸ hmem⟩) hnew
      · have hcons : workerAt (some h :: workers) p = workerAt workers p := by
          simp [workerAt, hp]
        have hne : (⟨p, w⟩ : Held) ≠ h := fun heq => hp (heq ▸ rfl)
        rw [hcons, ih hrest]
        simp [hne]

lemma workerAt_isSome (hdistinct : (pointers workers).Nodup) (hp : p ∈ pointers workers) :
    ∃ w, workerAt workers p = some w := by
  obtain ⟨w, hw⟩ := mem_pointers.1 hp
  exact ⟨w, (workerAt_iff hdistinct).2 hw⟩

/-! ## Storing a worker back -/

@[simp] lemma pointers_putWorker (workers : List (Option Held)) (p : WorkerPtr) (w : Worker) :
    pointers (putWorker workers p w) = pointers workers := by
  induction workers with
  | nil => rfl
  | cons slot workers ih =>
    have hcons : putWorker (slot :: workers) p w =
        (slot.map fun h => if h.ptr = p then { h with obj := w } else h) ::
          putWorker workers p w := rfl
    rw [hcons, pointers_cons, pointers_cons, ih]
    cases slot with
    | none => rfl
    | some h => by_cases hp : h.ptr = p <;> simp [hp]

@[simp] lemma length_putWorker (workers : List (Option Held)) (p : WorkerPtr) (w : Worker) :
    (putWorker workers p w).length = workers.length := List.length_map _

lemma mem_putWorker (hh : some h ∈ putWorker workers p w) :
    (h.ptr = p ∧ h.obj = w) ∨ (h.ptr ≠ p ∧ some h ∈ workers) := by
  obtain ⟨slot, hslot, hval⟩ := List.mem_map.1 hh
  cases slot with
  | none => cases hval
  | some h' =>
    obtain rfl : (if h'.ptr = p then { h' with obj := w } else h') = h := Option.some.inj hval
    by_cases hp : h'.ptr = p
    · exact Or.inl (by simp [hp])
    · rw [if_neg hp]
      exact Or.inr ⟨hp, hslot⟩

lemma mem_putWorker_of_ne (hh : some h ∈ workers) (hp : h.ptr ≠ p) :
    some h ∈ putWorker workers p w :=
  List.mem_map.2 ⟨some h, hh, by simp [hp]⟩

lemma mem_putWorker_self (hp : p ∈ pointers workers) : some ⟨p, w⟩ ∈ putWorker workers p w := by
  obtain ⟨obj, hobj⟩ := mem_pointers.1 hp
  exact List.mem_map.2 ⟨some ⟨p, obj⟩, hobj, by simp⟩

lemma workerAt_putWorker_self (hdistinct : (pointers workers).Nodup)
    (hp : p ∈ pointers workers) : workerAt (putWorker workers p w) p = some w :=
  (workerAt_iff (by rwa [pointers_putWorker])).2 (mem_putWorker_self hp)

lemma workerAt_putWorker_of_ne (hdistinct : (pointers workers).Nodup) (hq : q ≠ p) :
    workerAt (putWorker workers p w) q = workerAt workers q := by
  refine Option.ext fun obj => ?_
  rw [workerAt_iff (by rwa [pointers_putWorker]), workerAt_iff hdistinct]
  constructor
  · intro hmem
    rcases mem_putWorker hmem with ⟨heq, -⟩ | ⟨-, hmem⟩
    · exact absurd heq hq
    · exact hmem
  · exact fun hmem => mem_putWorker_of_ne hmem hq

/-! ## Overwriting a slot -/

lemma mem_set_none (hh : some h ∈ workers.set i none) : some h ∈ workers := by
  rcases List.mem_or_eq_of_mem_set hh with hh | hh
  · exact hh
  · cases hh

lemma mem_set_some {h' : Held} (hh : some h' ∈ workers.set i (some h)) :
    h' = h ∨ some h' ∈ workers.set i none := by
  by_cases hi : i < workers.length
  · obtain ⟨j, hj, hval⟩ := List.mem_iff_getElem.1 hh
    rw [List.getElem_set] at hval
    split_ifs at hval with hij
    · exact Or.inl (Option.some.inj hval).symm
    · refine Or.inr (List.mem_iff_getElem.2 ⟨j, by simpa using hj, ?_⟩)
      rw [List.getElem_set, if_neg hij]
      exact hval
  · rw [List.set_eq_of_length_le (not_lt.1 hi)] at hh
    rw [List.set_eq_of_length_le (not_lt.1 hi)]
    exact Or.inr hh

lemma pointers_set_none (workers : List (Option Held)) (i : ℕ) :
    (pointers (workers.set i none)).Sublist (pointers workers) := by
  induction workers generalizing i with
  | nil => exact List.Sublist.refl _
  | cons slot workers ih =>
    cases i with
    | zero =>
      rw [List.set_cons_zero, pointers_cons, pointers_cons]
      exact List.sublist_append_right _ _
    | succ i =>
      rw [List.set_cons_succ, pointers_cons, pointers_cons]
      exact (List.Sublist.refl _).append (ih i)

lemma pointers_set_some (hi : i < workers.length) :
    (pointers (workers.set i (some h))).Perm (h.ptr :: pointers (workers.set i none)) := by
  induction workers generalizing i with
  | nil => exact absurd hi (Nat.not_lt_zero i)
  | cons slot workers ih =>
    cases i with
    | zero => exact List.Perm.refl _
    | succ i =>
      rw [List.set_cons_succ, List.set_cons_succ, pointers_cons, pointers_cons]
      have hi' : i < workers.length := Nat.lt_of_succ_lt_succ hi
      exact ((ih hi').append_left _).trans List.perm_middle

/-- A slot that holds a worker, taken apart. -/
lemma pointers_perm_of_slot (hslot : workers[i]? = some (some h)) :
    (pointers workers).Perm (h.ptr :: pointers (workers.set i none)) := by
  obtain ⟨hi, hval⟩ := List.getElem?_eq_some_iff.1 hslot
  have hset : workers.set i (some h) = workers := by
    rw [← hval]
    exact List.set_getElem_self hi
  have hperm := pointers_set_some (h := h) hi
  rwa [hset] at hperm

lemma notMem_pointers_set_none (hdistinct : (pointers workers).Nodup)
    (hslot : workers[i]? = some (some h)) : h.ptr ∉ pointers (workers.set i none) :=
  (List.nodup_cons.1 ((pointers_perm_of_slot hslot).nodup_iff.1 hdistinct)).1

lemma mem_pointers_set_none (hslot : workers[i]? = some (some h)) (hp : p ∈ pointers workers)
    (hne : p ≠ h.ptr) : p ∈ pointers (workers.set i none) := by
  rcases List.mem_cons.1 ((pointers_perm_of_slot hslot).mem_iff.1 hp) with heq | hmem
  · exact absurd heq hne
  · exact hmem

lemma set_none_of_slot (hslot : workers[i]? = some none) : workers.set i none = workers := by
  obtain ⟨hi, hval⟩ := List.getElem?_eq_some_iff.1 hslot
  rw [← hval]
  exact List.set_getElem_self hi

lemma workerAt_set_none (hdistinct : (pointers workers).Nodup)
    (hp : p ∈ pointers (workers.set i none)) :
    workerAt (workers.set i none) p = workerAt workers p := by
  obtain ⟨w, hw⟩ := mem_pointers.1 hp
  have hdistinct' := (pointers_set_none workers i).nodup hdistinct
  rw [(workerAt_iff hdistinct').2 hw, (workerAt_iff hdistinct).2 (mem_set_none hw)]

/-! ## The offsets of the workers -/

/-- The file offset of each held worker. -/
def offsets (workers : List (Option Held)) (p : WorkerPtr) : ℤ :=
  ((workerAt workers p).map Worker.getOffset).getD 0

lemma offsets_eq (hw : workerAt workers p = some w) : offsets workers p = w.fileOffset := by
  rw [offsets, hw]
  rfl

lemma offsets_putWorker (hdistinct : (pointers workers).Nodup) (hp : p ∈ pointers workers) :
    offsets (putWorker workers p w) = Function.update (offsets workers) p w.fileOffset := by
  funext q
  by_cases hq : q = p
  · subst hq
    rw [Function.update_self, offsets_eq (workerAt_putWorker_self hdistinct hp)]
  · rw [Function.update_of_ne hq, offsets, offsets, workerAt_putWorker_of_ne hdistinct hq]

lemma offsets_set_none (hdistinct : (pointers workers).Nodup)
    (hp : p ∈ pointers (workers.set i none)) :
    offsets (workers.set i none) p = offsets workers p := by
  rw [offsets, offsets, workerAt_set_none hdistinct hp]

lemma offsets_set_some (hdistinct : (pointers (workers.set i none)).Nodup)
    (hi : i < workers.length) (hh : h.ptr ∉ pointers (workers.set i none))
    (hp : p ∈ h.ptr :: pointers (workers.set i none)) :
    offsets (workers.set i (some h)) p =
      Function.update (offsets (workers.set i none)) h.ptr h.obj.fileOffset p := by
  have hperm := pointers_set_some (h := h) hi
  have hdistinct' : (pointers (workers.set i (some h))).Nodup :=
    hperm.nodup_iff.2 (List.nodup_cons.2 ⟨hh, hdistinct⟩)
  have hself : some h ∈ workers.set i (some h) :=
    List.mem_iff_getElem.2 ⟨i, by simpa using hi, by simp⟩
  rcases List.mem_cons.1 hp with rfl | hp
  · rw [Function.update_self, offsets_eq ((workerAt_iff hdistinct').2 hself)]
  · have hne : p ≠ h.ptr := fun heq => hh (heq ▸ hp)
    obtain ⟨w, hw⟩ := mem_pointers.1 (hperm.mem_iff.2 (List.mem_cons_of_mem _ hp))
    have hw' : some ⟨p, w⟩ ∈ workers.set i none := by
      rcases mem_set_some hw with heq | hmem
      · exact absurd (congrArg Held.ptr heq) hne
      · exact hmem
    rw [Function.update_of_ne hne, offsets_eq ((workerAt_iff hdistinct').2 hw),
      offsets_eq ((workerAt_iff hdistinct).2 hw')]

end Cld.Download
