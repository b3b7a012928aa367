import Cld.Download.Invariant

/-!
# Workers and file over the steps of the loop

What a round of the loop can do to the workers and to the file, seen from one worker.

* `Changed`: either one worker has handled an event, and the file is what its call of
  `process` has left; or the file is as it was, and every worker is an old one or a new one.
* `Inv.forall_workers` lifts a property of single workers to all workers of a reachable state,
  if new workers and stopped workers have it and the calls of `process` that return keep it.
-/

namespace Cld.Download

open Framework LengthController

variable {cfg : Config} {s s' : Download} {label : Label} {rest : List (WorkerPtr × EpollEvents)}
  {p : WorkerPtr} {w w₁ : Worker} {env : Env} {outcome : Outcome} {file : File} {i : ℕ}
  {workers : List (Option Held)} {c c' : LengthController} {size : ℤ}

/-! ## What a step does to workers and file -/

inductive Changed (s : Download) (label : Label) (s' : Download) : Prop
  | event (p : WorkerPtr) (event : EpollEvents) (rest : List (WorkerPtr × EpollEvents))
      (env : Env) (w : Worker) (outcome : Outcome) (w₁ : Worker)
      (hpc : s.pc = .dispatch ((p, event) :: rest)) (hlabel : label = .process env)
      (hfind : s.find p = some w) (hmem : some ⟨p, w⟩ ∈ s.workers) (hwf : w.WF)
      (hstream : w.stream ≠ none)
      (hprocess : w.process s.file event env = (outcome, w₁, s'.file))
      (hhandled : Handled s rest p w env outcome w₁ s'.file s')
  | round (hfile : s'.file = s.file) (hpc : ∀ e rest, s.pc ≠ .dispatch (e :: rest))
      (hworkers : ∀ h, some h ∈ s'.workers → some h ∈ s.workers ∨
        ∃ stream request o, h.obj = Worker.create stream request o)

lemma Handled.file_eq (h : Handled s rest p w env outcome w₁ file s') : s'.file = file := by
  cases h with
  | _ => rfl

/-- The worker of an event afterwards. -/
lemma Handled.worker (h : Handled s rest p w env outcome w₁ file s') (hwf : w₁.WF) :
    ∃ w₂, s'.workers = putWorker s.workers p w₂ ∧ w₂.fileOffset = w₁.fileOffset ∧
      ((∃ n, outcome = .returned n ∧ w₂ = w₁) ∨ w₂.state = .stopped) := by
  have hstopped : ∀ {w₂ : Worker} {fault : Option Fault}, w₁.forceStop env = (w₂, fault) →
      w₂.fileOffset = w₁.fileOffset ∧ w₂.state = .stopped := by
    intro w₂ fault hstop
    obtain ⟨-, hstate, hoffset, -⟩ := Worker.forceStop_spec hwf hstop
    exact ⟨hoffset, hstate⟩
  cases h with
  | unread n ho hstate => exact ⟨w₁, rfl, rfl, Or.inl ⟨n, ho, rfl⟩⟩
  | read n c ho hstate hprog hfinder => exact ⟨w₁, rfl, rfl, Or.inl ⟨n, ho, rfl⟩⟩
  | full n c w₂ fault ho hstate hprog hfinder hstop =>
    exact ⟨w₂, rfl, (hstopped hstop).1, Or.inr (hstopped hstop).2⟩
  | caught e c w₂ ho hstate hstop hrel =>
    exact ⟨w₂, rfl, (hstopped hstop).1, Or.inr (hstopped hstop).2⟩
  | lost e c w₂ ho hstate hstop hrel =>
    exact ⟨w₂, rfl, (hstopped hstop).1, Or.inr (hstopped hstop).2⟩
  | torn e w₂ fault ho hstop =>
    exact ⟨w₂, rfl, (hstopped hstop).1, Or.inr (hstopped hstop).2⟩

lemma Visited.changed {slot : Option Held} {choice : SlotChoice}
    (h : Visited s i slot choice s') : s'.file = s.file ∧
      ∀ h', some h' ∈ s'.workers → some h' ∈ s.workers ∨
        ∃ stream request o, h'.obj = Worker.create stream request o := by
  cases h with
  | kept h' hslot hlive => exact ⟨rfl, fun h' hh' => Or.inl hh'⟩
  | stuck c hclean hnil => exact ⟨rfl, fun h' hh' => Or.inl (mem_set_none hh')⟩
  | idle c n hclean hback hrange => exact ⟨rfl, fun h' hh' => Or.inl (mem_set_none hh')⟩
  | refused c n e hclean hback hrange => exact ⟨rfl, fun h' hh' => Or.inl (mem_set_none hh')⟩
  | assigned c c' n stream hclean hback hrange hconnection hptr hnode hadd =>
    refine ⟨rfl, fun h' hh' => ?_⟩
    rcases mem_set_some hh' with rfl | hh'
    · exact Or.inr ⟨_, _, _, rfl⟩
    · exact Or.inl (mem_set_none hh')

lemma Inv.changed (h : s.Inv cfg) (hstep : s.step label = some s') : Changed s label s' := by
  have hne : ∀ {pc : Pc}, s.pc = pc → (∀ e rest, pc ≠ .dispatch (e :: rest)) →
      ∀ e rest, s.pc ≠ .dispatch (e :: rest) := by
    intro pc hpc hother e rest
    rw [hpc]
    exact hother e rest
  cases step_cases hstep with
  | passed i choice hpc hslot =>
    exact .round rfl (hne hpc (by simp)) fun h' hh' => Or.inl hh'
  | visited i slot choice s' hpc hslot hvisit =>
    obtain ⟨hfile, hworkers⟩ := (visit_cases h.core.indexed hvisit).changed
    exact .round hfile (hne hpc (by simp)) hworkers
  | waited events hpc hreportable =>
    exact .round rfl (hne hpc (by simp)) fun h' hh' => Or.inl hh'
  | handled p event rest env s' hpc hhandle =>
    obtain ⟨w, outcome, w₁, file, hfind, hmem, hwf, hstream, hprocess, hhandled⟩ :=
      h.exists_handled hpc hhandle
    have hfile := hhandled.file_eq
    subst hfile
    exact .event p event rest env w outcome w₁ hpc rfl hfind hmem hwf hstream hprocess hhandled
  | ticked now hpc =>
    obtain ⟨time, lastTime, pc, htick, -⟩ := s.tick_cases now
    rw [htick]
    exact .round rfl (hne hpc (by simp)) fun h' hh' => Or.inl hh'

/-- **Properties of single workers.** -/
lemma Inv.forall_workers {P : Worker → Prop} (h : s.Inv cfg) (hstep : s.step label = some s')
    (hcreate : ∀ stream request o, P (Worker.create stream request o))
    (hstopped : ∀ w, w.state = .stopped → P w)
    (hprocess : ∀ p event rest env w n w₁ file, s.pc = .dispatch ((p, event) :: rest) →
      label = .process env → some ⟨p, w⟩ ∈ s.workers → w.WF → w.stream ≠ none →
      w.process s.file event env = (.returned n, w₁, file) → P w → P w₁)
    (hall : ∀ h, some h ∈ s.workers → P h.obj) : ∀ h, some h ∈ s'.workers → P h.obj := by
  intro h' hh'
  cases h.changed hstep with
  | round hfile hpc hworkers =>
    rcases hworkers h' hh' with hold | ⟨stream, request, o, hnew⟩
    · exact hall h' hold
    · rw [hnew]
      exact hcreate stream request o
  | event p event rest env w outcome w₁ hpc hlabel hfind hmem hwf hstream hcall hhandled =>
    have hwf₁ := (Worker.process_spec hwf hstream hcall).wf
    obtain ⟨w₂, hworkers, -, hw₂⟩ := hhandled.worker hwf₁
    rw [hworkers] at hh'
    rcases mem_putWorker hh' with ⟨-, hobj⟩ | ⟨-, hold⟩
    · rw [hobj]
      rcases hw₂ with ⟨n, rfl, rfl⟩ | hstop
      · exact hprocess p event rest env w n w₂ s'.file hpc hlabel hmem hwf hstream hcall
          (hall _ hmem)
      · exact hstopped w₂ hstop
    · exact hall h' hold

/-- The steps in which the only worker, on this connection, sends its request, receives the head
of its response, and receives what is available of the body. -/
def singleFetch (stream : Stream) : List Label :=
  [.slot ⟨1, 1, .ok stream⟩, .slot ⟨2, 2, .error .systemError⟩,
    .wait [(1, { epollout := true })], .process { send := .accepts 1000 }, .clock 1,
    .wait [(1, { epollin := true })], .process {}, .clock 2,
    .wait [(1, { epollin := true })], .process {}, .clock 3]

end Cld.Download
