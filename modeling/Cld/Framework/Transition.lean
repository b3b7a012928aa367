import Mathlib.Data.List.Basic
import Mathlib.Tactic.Linarith

/-!
# Runs of a labelled transition function

A system is a partial step function `step : σ → ℓ → Option σ`: from a state, a label (the
choices of the environment) determines the next state, or is refused.  This module is the
vocabulary of its runs, over arbitrary state and label types.

* `run step s ls` takes the labels `ls` one after the other; `run_cons_iff` and
  `run_append_iff` take a run apart.
* `run_invariant` is the induction every safety result of the development goes through: what
  each step preserves holds at the end of every run.
* `run_simulation` lifts a simulation of single steps to runs.
* `Always good s ls` says that every step of the run is `good`, a condition on the state
  *before* the step and on the label.  `run_invariant_of_always` is the same induction when
  only good steps preserve the invariant.
* `Sometime good s ls` is its dual, and `run_ratchet` the induction for a fact that some
  step establishes and no step destroys.
* `total cost s ls` adds up what the steps of a run cost.  `total_le` bounds it by a potential that
  every good step raises by what it costs, `total_le_total` by a reserve and what is brought in on
  the way.  `shown view s ls` lists what they show.
* `run_map` is about a system that carries a record along: without the record, its runs are
  those of the system it records.
-/

namespace Framework

universe u v

namespace Transition

variable {σ : Type u} {ℓ : Type v} (step : σ → ℓ → Option σ)

/-! ## Runs -/

/-- The state reached by taking the labels in order; `none` as soon as one is refused. -/
def run : σ → List ℓ → Option σ
  | s, [] => some s
  | s, l :: ls => (step s l).bind fun s' => run s' ls

@[simp] lemma run_nil (s : σ) : run step s [] = some s := rfl

lemma run_cons_iff {s t : σ} {l : ℓ} {ls : List ℓ} :
    run step s (l :: ls) = some t ↔ ∃ s', step s l = some s' ∧ run step s' ls = some t := by
  simp [run, Option.bind_eq_some_iff]

lemma run_append_iff {s t : σ} {ls ms : List ℓ} :
    run step s (ls ++ ms) = some t ↔
      ∃ s', run step s ls = some s' ∧ run step s' ms = some t := by
  induction ls generalizing s with
  | nil => simp
  | cons l ls ih =>
    rw [List.cons_append, run_cons_iff]
    constructor
    · rintro ⟨s₁, hl, hrest⟩
      obtain ⟨s₂, hls, hms⟩ := ih.1 hrest
      exact ⟨s₂, (run_cons_iff step).2 ⟨s₁, hl, hls⟩, hms⟩
    · rintro ⟨s₂, hls, hms⟩
      obtain ⟨s₁, hl, hrest⟩ := (run_cons_iff step).1 hls
      exact ⟨s₁, hl, ih.2 ⟨s₂, hrest, hms⟩⟩

variable {step}

lemma run_single {s t : σ} {l : ℓ} (h : step s l = some t) : run step s [l] = some t :=
  (run_cons_iff step).2 ⟨t, h, rfl⟩

/-- A system that refuses no label runs along all of them. -/
lemma exists_run (hstep : ∀ s l, ∃ s', step s l = some s') (s : σ) (ls : List ℓ) :
    ∃ t, run step s ls = some t := by
  induction ls generalizing s with
  | nil => exact ⟨s, rfl⟩
  | cons l ls ih =>
    obtain ⟨s', hl⟩ := hstep s l
    obtain ⟨t, hrest⟩ := ih s'
    exact ⟨t, (run_cons_iff step).2 ⟨s', hl, hrest⟩⟩

/-- **Simulation.**  If every step is answered by some run of a second system, from related
states to related states, then so is every run. -/
lemma run_simulation {τ : Type*} {m : Type*} {step' : τ → m → Option τ} {R : σ → τ → Prop}
    (hstep : ∀ s t l s', R s t → step s l = some s' →
      ∃ ms t', run step' t ms = some t' ∧ R s' t')
    {s s' : σ} {t : τ} {ls : List ℓ} (hR : R s t) (hrun : run step s ls = some s') :
    ∃ ms t', run step' t ms = some t' ∧ R s' t' := by
  induction ls generalizing s t with
  | nil =>
    obtain rfl : s = s' := by simpa using hrun
    exact ⟨[], t, rfl, hR⟩
  | cons l ls ih =>
    obtain ⟨s₁, hl, hrest⟩ := (run_cons_iff step).1 hrun
    obtain ⟨ms, t₁, hms, hR₁⟩ := hstep s t l s₁ hR hl
    obtain ⟨ms', t', hms', hR'⟩ := ih hR₁ hrest
    exact ⟨ms ++ ms', t', (run_append_iff step').2 ⟨t₁, hms, hms'⟩, hR'⟩

/-- The same when every label of the second system answers one of the first. -/
lemma run_simulation_of_labels {τ : Type*} {m : Type*} {step' : τ → m → Option τ}
    {R : σ → τ → Prop} {L : ℓ → m → Prop}
    (hstep : ∀ s t l s', R s t → step s l = some s' →
      ∃ ms t', run step' t ms = some t' ∧ R s' t' ∧ ∀ m ∈ ms, L l m)
    {s s' : σ} {t : τ} {ls : List ℓ} (hR : R s t) (hrun : run step s ls = some s') :
    ∃ ms t', run step' t ms = some t' ∧ R s' t' ∧ ∀ m ∈ ms, ∃ l ∈ ls, L l m := by
  induction ls generalizing s t with
  | nil =>
    obtain rfl : s = s' := by simpa using hrun
    exact ⟨[], t, rfl, hR, fun m hm => absurd hm List.not_mem_nil⟩
  | cons l ls ih =>
    obtain ⟨s₁, hl, hrest⟩ := (run_cons_iff step).1 hrun
    obtain ⟨ms, t₁, hms, hR₁, hL⟩ := hstep s t l s₁ hR hl
    obtain ⟨ms', t', hms', hR', hL'⟩ := ih hR₁ hrest
    refine ⟨ms ++ ms', t', (run_append_iff step').2 ⟨t₁, hms, hms'⟩, hR', fun m hm => ?_⟩
    rcases List.mem_append.1 hm with hm | hm
    · exact ⟨l, List.mem_cons_self, hL m hm⟩
    · obtain ⟨l', hl', hLm⟩ := hL' m hm
      exact ⟨l', List.mem_cons_of_mem l hl', hLm⟩

/-- **Records.**  A system whose steps are those of `step` on a part of its state has the runs of
`step` there. -/
lemma run_map {τ : Type*} {step' : τ → ℓ → Option τ} {part : τ → σ} {ls : List ℓ}
    (hstep : ∀ t, ∀ l ∈ ls, (step' t l).map part = step (part t) l) (t : τ) :
    (run step' t ls).map part = run step (part t) ls := by
  induction ls generalizing t with
  | nil => rfl
  | cons l ls ih =>
    have hrest := ih fun t m hm => hstep t m (List.mem_cons_of_mem l hm)
    rw [run, run, ← hstep t l List.mem_cons_self]
    cases step' t l with
    | none => rfl
    | some t' => exact hrest t'

/-! ## Conditions on the steps of a run -/

/-- Every step of the run from `s` along `ls` meets `good`. -/
def Always (step : σ → ℓ → Option σ) (good : σ → ℓ → Prop) : σ → List ℓ → Prop
  | _, [] => True
  | s, l :: ls => good s l ∧ ∀ s', step s l = some s' → Always step good s' ls

/-- Some step of the run from `s` along `ls` meets `good`. -/
def Sometime (step : σ → ℓ → Option σ) (good : σ → ℓ → Prop) : σ → List ℓ → Prop
  | _, [] => False
  | s, l :: ls => good s l ∨ ∃ s', step s l = some s' ∧ Sometime step good s' ls

instance decidableAlways (good : σ → ℓ → Prop) [∀ s l, Decidable (good s l)] :
    ∀ s ls, Decidable (Always step good s ls)
  | _, [] => .isTrue trivial
  | s, l :: ls =>
    match h : step s l with
    | none => decidable_of_iff (good s l) (by simp [Always, h])
    | some s' =>
      have := decidableAlways good s' ls
      decidable_of_iff (good s l ∧ Always step good s' ls) (by simp [Always, h])

variable {good : σ → ℓ → Prop}

/-- **Invariants of restricted runs.**  What every good step preserves holds at the end of
every run all of whose steps are good. -/
lemma run_invariant_of_always {P : σ → Prop}
    (hstep : ∀ s l s', P s → good s l → step s l = some s' → P s')
    {s t : σ} {ls : List ℓ} (hs : P s) (hgood : Always step good s ls)
    (hrun : run step s ls = some t) : P t := by
  induction ls generalizing s with
  | nil =>
    obtain rfl : s = t := by simpa using hrun
    exact hs
  | cons l ls ih =>
    obtain ⟨s', hl, hrest⟩ := (run_cons_iff step).1 hrun
    exact ih (hstep s l s' hs hgood.1 hl) (hgood.2 s' hl) hrest

/-- What the good steps have beside, in the states that they can reach. -/
lemma always_of_invariant {P : σ → Prop} {good' : σ → ℓ → Prop}
    (hstep : ∀ s l s', P s → good s l → step s l = some s' → P s')
    (himp : ∀ s l, P s → good s l → good' s l) {s : σ} {ls : List ℓ} (hs : P s)
    (h : Always step good s ls) : Always step good' s ls := by
  induction ls generalizing s with
  | nil => exact trivial
  | cons l ls ih =>
    exact ⟨himp s l hs h.1, fun s' hl => ih (hstep s l s' hs h.1 hl) (h.2 s' hl)⟩

/-- The first steps of a run, and the others. -/
lemma always_append {s t : σ} {ls ms : List ℓ} (h : Always step good s (ls ++ ms))
    (hrun : run step s ls = some t) : Always step good s ls ∧ Always step good t ms := by
  induction ls generalizing s with
  | nil =>
    obtain rfl : s = t := by simpa using hrun
    exact ⟨trivial, h⟩
  | cons l ls ih =>
    obtain ⟨s', hl, hrest⟩ := (run_cons_iff step).1 hrun
    obtain ⟨hfirst, hothers⟩ := ih (h.2 s' hl) hrest
    refine ⟨⟨h.1, fun s₁ hs₁ => ?_⟩, hothers⟩
    obtain rfl : s' = s₁ := Option.some.inj (hl.symm.trans hs₁)
    exact hfirst

/-- One more step. -/
lemma always_concat {s t : σ} {ls : List ℓ} {l : ℓ} (h : Always step good s ls)
    (hrun : run step s ls = some t) (hl : good t l) : Always step good s (ls ++ [l]) := by
  induction ls generalizing s with
  | nil =>
    obtain rfl : s = t := by simpa using hrun
    exact ⟨hl, fun _ _ => trivial⟩
  | cons l' ls ih =>
    obtain ⟨s', hl', hrest⟩ := (run_cons_iff step).1 hrun
    refine ⟨h.1, fun s₁ hs₁ => ?_⟩
    obtain rfl : s' = s₁ := Option.some.inj (hl'.symm.trans hs₁)
    exact ih (h.2 s' hl') hrest

lemma run_concat {s t u : σ} {ls : List ℓ} {l : ℓ} (hrun : run step s ls = some t)
    (hl : step t l = some u) : run step s (ls ++ [l]) = some u :=
  (run_append_iff step).2 ⟨t, hrun, run_single hl⟩

/-- What a good step says about its label holds of all labels of a run. -/
lemma forall_of_always {ok : ℓ → Prop} (himp : ∀ s l, good s l → ok l) {s t : σ} {ls : List ℓ}
    (h : Always step good s ls) (hrun : run step s ls = some t) : ∀ l ∈ ls, ok l := by
  induction ls generalizing s with
  | nil => exact fun l hl => absurd hl List.not_mem_nil
  | cons l ls ih =>
    obtain ⟨s', hl, hrest⟩ := (run_cons_iff step).1 hrun
    exact List.forall_mem_cons.2 ⟨himp s l h.1, ih (h.2 s' hl) hrest⟩

/-- A condition on the labels alone. -/
lemma always_of_forall {ok : ℓ → Prop} {ls : List ℓ} (h : ∀ l ∈ ls, ok l) (s : σ) :
    Always step (fun _ l => ok l) s ls := by
  induction ls generalizing s with
  | nil => exact trivial
  | cons l ls ih =>
    obtain ⟨hl, hrest⟩ := List.forall_mem_cons.1 h
    exact ⟨hl, fun s' _ => ih hrest s'⟩

/-- **Invariants.**  What every step preserves holds at the end of every run. -/
lemma run_invariant {P : σ → Prop} (hstep : ∀ s l s', P s → step s l = some s' → P s')
    {s t : σ} {ls : List ℓ} (hs : P s) (hrun : run step s ls = some t) : P t := by
  have hgood : Always step (fun _ _ => True) s ls := always_of_forall (fun _ _ => trivial) s
  exact run_invariant_of_always (fun s l s' hs _ => hstep s l s' hs) hs hgood hrun

/-- **Ratchets.**  A fact `Q` that holds at the end of a run, but not at its start, was
established by one of its steps; if only steps meeting `good` establish it, the run has such
a step.  Conversely a fact that good steps establish and no step destroys holds at the end.
`P` is an invariant the two arguments may use, and `ok` a condition on the labels. -/
lemma run_ratchet {P Q : σ → Prop} {ok : ℓ → Prop}
    (hP : ∀ s l s', P s → step s l = some s' → P s')
    (hQ : ∀ s l s', P s → ok l → step s l = some s' → (Q s' ↔ Q s ∨ good s l))
    {s t : σ} {ls : List ℓ} (hs : P s) (hok : ∀ l ∈ ls, ok l) (hrun : run step s ls = some t) :
    Q t ↔ Q s ∨ Sometime step good s ls := by
  induction ls generalizing s with
  | nil =>
    obtain rfl : s = t := by simpa using hrun
    simp [Sometime]
  | cons l ls ih =>
    obtain ⟨s', hl, hrest⟩ := (run_cons_iff step).1 hrun
    have hsome : Sometime step good s (l :: ls) ↔ good s l ∨ Sometime step good s' ls := by
      simp [Sometime, hl]
    have hok' : ∀ l' ∈ ls, ok l' := fun l' hl' => hok l' (List.mem_cons_of_mem l hl')
    rw [ih (hP s l s' hs hl) hok' hrest, hQ s l s' hs (hok l List.mem_cons_self) hl, hsome,
      or_assoc]

/-! ## What a run costs -/

/-- The sum of what the steps of the run from `s` along `ls` cost. -/
def total (step : σ → ℓ → Option σ) (cost : σ → ℓ → ℕ) : σ → List ℓ → ℕ
  | _, [] => 0
  | s, l :: ls => cost s l + (step s l).elim 0 fun s' => total step cost s' ls

/-- **Potentials.**  If every good step raises `Φ` by `price` times what it costs, a run of good
steps costs no more than it raises `Φ`.  `P` is an invariant the argument may use. -/
lemma total_le {P : σ → Prop} {cost : σ → ℓ → ℕ} {Φ : σ → ℤ} {price : ℤ}
    (hP : ∀ s l s', P s → good s l → step s l = some s' → P s')
    (hΦ : ∀ s l s', P s → good s l → step s l = some s' → Φ s + price * cost s l ≤ Φ s')
    {s t : σ} {ls : List ℓ} (hs : P s) (hgood : Always step good s ls)
    (hrun : run step s ls = some t) : Φ s + price * total step cost s ls ≤ Φ t := by
  induction ls generalizing s with
  | nil =>
    obtain rfl : s = t := by simpa using hrun
    simp [total]
  | cons l ls ih =>
    obtain ⟨s', hl, hrest⟩ := (run_cons_iff step).1 hrun
    have hfirst := hΦ s l s' hs hgood.1 hl
    have hothers := ih (hP s l s' hs hgood.1 hl) (hgood.2 s' hl) hrest
    rw [total, hl, Option.elim_some]
    push_cast
    linarith

/-- **Reserves.**  If no step spends more than its reserve falls by and what the step brings in, a
run spends no more than the reserve it starts with and what it brings in. -/
lemma total_le_total {P : σ → Prop} {cost gain : σ → ℓ → ℕ} {reserve : σ → ℕ}
    (hP : ∀ s l s', P s → step s l = some s' → P s')
    (hreserve : ∀ s l s', P s → step s l = some s' →
      reserve s' + cost s l ≤ reserve s + gain s l)
    {s t : σ} {ls : List ℓ} (hs : P s) (hrun : run step s ls = some t) :
    reserve t + total step cost s ls ≤ reserve s + total step gain s ls := by
  induction ls generalizing s with
  | nil =>
    obtain rfl : s = t := by simpa using hrun
    simp [total]
  | cons l ls ih =>
    obtain ⟨s', hl, hrest⟩ := (run_cons_iff step).1 hrun
    have hfirst := hreserve s l s' hs hl
    have hothers := ih (hP s l s' hs hl) hrest
    rw [total, total, hl, Option.elim_some, Option.elim_some]
    omega

/-! ## What a run shows -/

/-- What the steps of the run from `s` along `ls` show, one after the other. -/
def shown {α : Type*} (step : σ → ℓ → Option σ) (view : σ → ℓ → Option α) : σ → List ℓ → List α
  | _, [] => []
  | s, l :: ls => (view s l).toList ++ (step s l).elim [] fun s' => shown step view s' ls

lemma shown_cons {α : Type*} {view : σ → ℓ → Option α} {s s' : σ} {l : ℓ} {ls : List ℓ}
    (hl : step s l = some s') :
    shown step view s (l :: ls) = (view s l).toList ++ shown step view s' ls := by
  rw [shown, hl, Option.elim_some]

/-- **Records** show what `step` shows on the part of the state that it works on. -/
lemma shown_map {τ α : Type*} {step' : τ → ℓ → Option τ} {part : τ → σ} {view : σ → ℓ → Option α}
    {view' : τ → ℓ → Option α} {ls : List ℓ}
    (hstep : ∀ t, ∀ l ∈ ls, (step' t l).map part = step (part t) l)
    (hview : ∀ t, ∀ l ∈ ls, view' t l = view (part t) l) (t : τ) :
    shown step' view' t ls = shown step view (part t) ls := by
  induction ls generalizing t with
  | nil => rfl
  | cons l ls ih =>
    have hrest := ih (fun t m hm => hstep t m (List.mem_cons_of_mem l hm))
      fun t m hm => hview t m (List.mem_cons_of_mem l hm)
    rw [shown, shown, hview t l List.mem_cons_self, ← hstep t l List.mem_cons_self]
    cases step' t l with
    | none => rfl
    | some t' => exact congrArg _ (hrest t')

/-- **What a run takes** and what it leaves are what there was. -/
lemma shown_taken {α β : Type*} {view : σ → ℓ → Option α} (take : α → List β) (left : σ → List β)
    (hstep : ∀ s l s', step s l = some s' → (view s l).toList.flatMap take ++ left s' = left s)
    {s t : σ} {ls : List ℓ} (hrun : run step s ls = some t) :
    (shown step view s ls).flatMap take ++ left t = left s := by
  induction ls generalizing s with
  | nil =>
    obtain rfl : s = t := by simpa using hrun
    rfl
  | cons l ls ih =>
    obtain ⟨s', hl, hrest⟩ := (run_cons_iff step).1 hrun
    rw [shown_cons hl, List.flatMap_append, List.append_assoc, ih hrest, hstep s l s' hl]

/-- **What a run gives** is put behind what there was. -/
lemma shown_given {α β : Type*} {view : σ → ℓ → Option α} (give : α → List β) (had : σ → List β)
    (hstep : ∀ s l s', step s l = some s' → had s' = had s ++ (view s l).toList.flatMap give)
    {s t : σ} {ls : List ℓ} (hrun : run step s ls = some t) :
    had t = had s ++ (shown step view s ls).flatMap give := by
  induction ls generalizing s with
  | nil =>
    obtain rfl : s = t := by simpa using hrun
    exact (List.append_nil _).symm
  | cons l ls ih =>
    obtain ⟨s', hl, hrest⟩ := (run_cons_iff step).1 hrun
    rw [shown_cons hl, List.flatMap_append, ← List.append_assoc, ← hstep s l s' hl, ih hrest]

end Transition

end Framework
