import Cld.Download.Invariant

/-!
# The requests of the workers

What the workers of a download send: the request the function was called with, and nothing in
it changed but the `Range` header.  The local `req` keeps the range of the last worker that was
created, so that a new range overwrites it; each worker serialises it in its constructor and
never touches the bytes again.
-/

namespace Cld

open Framework

/-- A second range overwrites the first. -/
lemma Request.set_set (r : Request) (header : String) (v v' : Bytes) :
    (r.set header v).set header v' = r.set header v' := by
  simp only [Request.set, SortedMap.assign_assign]

namespace Worker

variable {w w' : Worker} {event : EpollEvents} {env : Env} {file file' : File} {once : Bool}
  {o : Option Outcome}

lemma connecting_requestData (hrun : w.connecting event env = (w', o)) :
    w'.requestData = w.requestData := by
  cases connecting_cases hrun <;> rfl

lemma sending_requestData (hrun : w.sending event env = (w', o)) :
    w'.requestData = w.requestData := by
  cases sending_cases hrun <;> rfl

lemma receiving_requestData (hrun : w.receiving event = (w', o, once)) :
    w'.requestData = w.requestData := by
  cases receiving_cases hrun with
  | skipped hskip => rfl
  | undefined hstate hstream => rfl
  | kept stream data last rest o hstate hstream hread => rfl
  | complete stream data rest w' o hstate hstream hread henter =>
    cases enterBody_cases henter <;> rfl

lemma receivingBody_requestData {count : ℕ}
    (hrun : w.receivingBody file event once env = (w', file', count, o)) :
    w'.requestData = w.requestData := by
  cases receivingBody_cases hrun <;> rfl

lemma stopping_requestData (hrun : w.stopping env = (w', o)) :
    w'.requestData = w.requestData := by
  cases stopping_cases hrun <;> rfl

lemma forceStop_requestData {fault : Option Fault} (hrun : w.forceStop env = (w', fault)) :
    w'.requestData = w.requestData := by
  cases forceStop_cases hrun <;> rfl

/-- **A worker never changes its request.** -/
lemma process_requestData {outcome : Outcome}
    (hprocess : w.process file event env = (outcome, w', file')) :
    w'.requestData = w.requestData :=
  @process_keeps w w' file file' event env outcome (fun v => v.requestData = w.requestData)
    (fun hrun hv => (connecting_requestData hrun).trans hv)
    (fun hrun hv => (sending_requestData hrun).trans hv)
    (fun hrun hv => (receiving_requestData hrun).trans hv)
    (fun hrun hv => (receivingBody_requestData hrun).trans hv)
    (fun hrun hv => (stopping_requestData hrun).trans hv) hprocess rfl

end Worker

namespace Download

variable {cfg : Config} {s s' : Download} {label : Label}

/-- The request for some range. -/
def RangeOf (cfg : Config) (r : Request) : Prop :=
  ∃ begin end_, r = cfg.request.set "Range" (rangeValue begin end_)

/-- The requests of a state are those of its ranges. -/
structure Asks (cfg : Config) (s : Download) : Prop where
  req : s.req = cfg.request ∨ RangeOf cfg s.req
  workers : ∀ h, some h ∈ s.workers → ∃ r, RangeOf cfg r ∧ h.obj.requestData = r.request

lemma asks_init (cfg : Config) (node : NodePtr) (now : ℤ) : (init cfg node now).Asks cfg where
  req := Or.inl rfl
  workers _ hh := by cases List.eq_of_mem_replicate hh

lemma Asks.rangeRequest_eq (h : s.Asks cfg) (range : ℤ × ℤ) :
    s.rangeRequest range = cfg.request.set "Range" (rangeValue range.1 range.2) := by
  unfold Download.rangeRequest
  rcases h.req with hreq | ⟨begin, end_, hreq⟩
  · rw [hreq]
  · rw [hreq, Request.set_set]

lemma Asks.rangeRequest (h : s.Asks cfg) (range : ℤ × ℤ) : RangeOf cfg (s.rangeRequest range) :=
  ⟨range.1, range.2, h.rangeRequest_eq range⟩

lemma Asks.visited {i : ℕ} {slot : Option Held} {choice : SlotChoice} (h : s.Asks cfg)
    (hvisited : Visited s i slot choice s') : s'.Asks cfg := by
  have hcleared : ∀ h', some h' ∈ s.workers.set i none →
      ∃ r, RangeOf cfg r ∧ h'.obj.requestData = r.request :=
    fun h' hh' => h.workers h' (mem_set_none hh')
  cases hvisited with
  | kept => exact ⟨h.req, h.workers⟩
  | stuck => exact ⟨h.req, hcleared⟩
  | idle => exact ⟨h.req, hcleared⟩
  | refused => exact ⟨Or.inr (h.rangeRequest _), hcleared⟩
  | assigned =>
    refine ⟨Or.inr (h.rangeRequest _), fun h' hh' => ?_⟩
    rcases mem_set_some hh' with rfl | hold
    · exact ⟨_, h.rangeRequest _, rfl⟩
    · exact hcleared h' hold

/-- Handling an event leaves every worker its request. -/
lemma exists_of_handled {rest : List (WorkerPtr × EpollEvents)} {p : WorkerPtr} {w w₁ : Worker}
    {env : Env} {event : EpollEvents} {outcome : Outcome} {file file' : File}
    (hmem : some ⟨p, w⟩ ∈ s.workers)
    (hprocess : w.process file event env = (outcome, w₁, file'))
    (hhandled : Handled s rest p w env outcome w₁ file' s') {h' : Held}
    (hh' : some h' ∈ s'.workers) :
    ∃ h, some h ∈ s.workers ∧ h'.obj.requestData = h.obj.requestData := by
  have hkept := Worker.process_requestData hprocess
  have hput : ∀ v : Worker, v.requestData = w₁.requestData →
      some h' ∈ putWorker s.workers p v →
        ∃ h, some h ∈ s.workers ∧ h'.obj.requestData = h.obj.requestData := by
    intro v hv hh'
    rcases mem_putWorker hh' with ⟨-, rfl⟩ | ⟨-, hold⟩
    · exact ⟨_, hmem, hv.trans hkept⟩
    · exact ⟨h', hold, rfl⟩
  cases hhandled with
  | unread => exact hput w₁ rfl hh'
  | read => exact hput w₁ rfl hh'
  | full n c w₂ fault ho hstate hprog hfinder hstop =>
    exact hput w₂ (Worker.forceStop_requestData hstop) hh'
  | caught e c w₂ ho hstate hstop => exact hput w₂ (Worker.forceStop_requestData hstop) hh'
  | lost e c w₂ ho hstate hstop => exact hput w₂ (Worker.forceStop_requestData hstop) hh'
  | torn e w₂ fault ho hstop => exact hput w₂ (Worker.forceStop_requestData hstop) hh'

lemma Asks.handled {rest : List (WorkerPtr × EpollEvents)} {p : WorkerPtr} {w w₁ : Worker}
    {env : Env} {event : EpollEvents} {outcome : Outcome} {file file' : File} (h : s.Asks cfg)
    (hmem : some ⟨p, w⟩ ∈ s.workers)
    (hprocess : w.process file event env = (outcome, w₁, file'))
    (hhandled : Handled s rest p w env outcome w₁ file' s') : s'.Asks cfg := by
  have hreq : s'.req = s.req := by
    cases hhandled <;> rfl
  refine ⟨hreq ▸ h.req, fun h' hh' => ?_⟩
  obtain ⟨h₀, hh₀, hsame⟩ := exists_of_handled hmem hprocess hhandled hh'
  obtain ⟨r, hr, hdata⟩ := h.workers h₀ hh₀
  exact ⟨r, hr, hsame.trans hdata⟩

lemma Asks.step (h : s.Asks cfg) (hinv : s.Inv cfg) (hstep : s.step label = some s') :
    s'.Asks cfg := by
  cases step_cases hstep with
  | passed => exact ⟨h.req, h.workers⟩
  | visited i slot choice s' hpc hslot hvisit =>
    exact h.visited (visit_cases hinv.core.indexed hvisit)
  | waited => exact ⟨h.req, h.workers⟩
  | handled p event rest env s' hpc hhandle =>
    obtain ⟨w, outcome, w₁, file, -, hmem, -, -, hprocess, hhandled⟩ :=
      hinv.exists_handled hpc hhandle
    exact h.handled hmem hprocess hhandled
  | ticked now hpc =>
    obtain ⟨time, lastTime, pc, htick, -⟩ := s.tick_cases now
    rw [htick]
    exact ⟨h.req, h.workers⟩

/-- **Every worker of a download asks for a range of the resource**, and for nothing else. -/
lemma asks_run {node : NodePtr} {now : ℤ} {labels : List Label}
    (hrun : Transition.run Download.step (init cfg node now) labels = some s) : s.Asks cfg := by
  have hboth : s.Inv cfg ∧ s.Asks cfg :=
    Transition.run_invariant (P := fun s => s.Inv cfg ∧ s.Asks cfg)
      (fun _ _ _ hs hstep => ⟨hs.1.step hstep, hs.2.step hs.1 hstep⟩)
      ⟨inv_init cfg node now, asks_init cfg node now⟩ hrun
  exact hboth.2

end Download

end Cld
