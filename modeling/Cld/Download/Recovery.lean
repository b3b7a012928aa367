import Cld.Download.Invariant

/-!
# What a failing worker does to the loop

When `process` throws, the handler force-stops the worker and tells the controller.
`Recovered` is what should be left: the worker is stopped, what its fragment still lacks is
free, no other worker and no other fragment has changed, and the loop goes on.

It is not what always happens.  The code behind the handler still acts on the flag
`is_receiving_body`, taken before the call: for a worker that was receiving its body it calls
`afterRead`, which does not find the worker the handler has just released, and the exception
leaves the loop.  A handler that throws itself is the other way to fail.
`recovers_iff` is the exact condition, in terms of the worker before the call and of the
answers of the system.
-/

namespace Cld

open Framework

namespace Worker

variable {w w' : Worker} {event : EpollEvents} {env : Env} {outcome : Option Outcome}

/-- The worker has stopped by itself when `process` throws: it had stopped before, or its
connection fails. -/
def GivesUp (w : Worker) (event : EpollEvents) (env : Env) : Prop :=
  w.state = .stopped ∨
    (w.state = .connecting ∧ (event.epollout ∨ event.epollin) ∧
      (env.connect = .failed ∨ (env.connect = .done ∧ env.modConnected = false)))

lemma connecting_stopped_iff (h : w.WF) (hrun : w.connecting event env = (w', outcome)) :
    w'.state = .stopped ↔ w.GivesUp event env := by
  cases connecting_cases hrun with
  | skipped hskip =>
    exact ⟨Or.inl, fun hgives => hgives.resolve_right fun hc => hskip ⟨hc.1, hc.2.1⟩⟩
  | undefined hstate hstream => exact absurd hstream (h.stream (by simp [hstate]))
  | again hstate hstream hconnect => simp [GivesUp, hstate, hconnect]
  | failed hstate hevent hstream hconnect =>
    exact iff_of_true rfl (Or.inr ⟨hstate, hevent, hconnect⟩)
  | done hstate hevent hstream hconnect hmod => simp [GivesUp, hstate, hconnect, hmod]

/-- Sending does not stop a worker. -/
lemma sending_live (hlive : w.state ≠ .stopped) (hrun : w.sending event env = (w', outcome)) :
    w'.state ≠ .stopped := by
  cases sending_cases hrun with
  | skipped hskip => exact hlive
  | undefined hstate hstream => exact hlive
  | again hstate hstream hsend => exact hlive
  | threw e hstate hstream hsend => exact hlive
  | partly stream n hstate hstream hsend hrest => exact hlive
  | refused stream n hstate hstream hsend hall hmod => exact hlive
  | done stream n hstate hevent hstream hsend hall hmod => exact nofun

/-- Receiving the head does not stop a worker. -/
lemma receiving_live {once : Bool} (hlive : w.state ≠ .stopped)
    (hrun : w.receiving event = (w', outcome, once)) : w'.state ≠ .stopped := by
  cases receiving_cases hrun with
  | skipped hskip => exact hlive
  | undefined hstate hstream => exact hlive
  | kept stream data last rest o hstate hstream hread => exact hlive
  | complete stream data rest w' o hstate hstream hread henter =>
    cases enterBody_cases henter with
    | diverges hparse => exact hlive
    | invalid e hparse => exact hlive
    | unsupported response e hparse hbuffer => exact hlive
    | entered response buffer hparse hbuffer => exact nofun

lemma BeforeBody.stopped_iff {once : Bool} (h : w.WF)
    (hrun : BeforeBody w event env w' outcome once) :
    w'.state = .stopped ↔ w.GivesUp event env := by
  have hsends : ∀ {v v' : Worker} {o : Option Outcome}, v.WF → v.sending event env = (v', o) →
      (v'.state = .stopped ↔ v.state = .stopped) := fun hv hsending =>
    ⟨fun h' => by_contra fun hlive => sending_live hlive hsending h',
      (sending_spec hv hsending).1.stopped⟩
  cases hrun with
  | connecting hrun => exact connecting_stopped_iff h hrun
  | sending hconnecting hrun =>
    obtain ⟨hquiet, -⟩ := connecting_spec h hconnecting
    rw [hsends hquiet.wf hrun]
    exact connecting_stopped_iff h hconnecting
  | receiving hconnecting hsending hrun =>
    obtain ⟨hquiet, -⟩ := connecting_spec h hconnecting
    obtain ⟨hquiet', -⟩ := sending_spec hquiet.wf hsending
    rw [← connecting_stopped_iff h hconnecting, ← hsends hquiet.wf hsending]
    exact ⟨fun h' => by_contra fun hlive => receiving_live hlive hrun h',
      (receiving_spec hquiet'.wf hrun).1.stopped⟩

/-- A body loop that does not run does not stop a worker either. -/
lemma FromBody.stopped_iff {file file' : File} {once : Bool} {o : Outcome}
    (honce : w.state = .receivingBody → once = true)
    (hrun : FromBody w file event once env o w' file') :
    w'.state = .stopped ↔ w.state = .stopped := by
  obtain ⟨_, hstopping, -, -⟩ := hrun.of_skip honce
  rw [(stopping_keeps hstopping).2]

/-- **When a worker stops by itself**, in a call that does not begin in `ReceivingBody`. -/
lemma process_stopped_iff {file file' : File} {o : Outcome} (h : w.WF)
    (hstate : w.state ≠ .receivingBody)
    (hprocess : w.process file event env = (o, w', file')) :
    w'.state = .stopped ↔ w.GivesUp event env := by
  rcases process_cases hprocess with ⟨once, hbefore, -⟩ | ⟨w₁, once, hbefore, hfrom⟩
  · exact hbefore.stopped_iff h
  · rw [← hbefore.stopped_iff h]
    refine hfrom.stopped_iff fun hbody => ?_
    by_contra hfalse
    exact hstate ((hbefore.quiet h).2.2 (Bool.not_eq_true _ ▸ hfalse) hbody)

end Worker

namespace Download

variable {cfg : Config} {node : NodePtr} {now : ℤ} {labels : List Label} {s s' : Download}
  {p : WorkerPtr} {rest : List (WorkerPtr × EpollEvents)} {event : EpollEvents} {env : Env}
  {w w₁ : Worker} {file : File} {e : Exn}

/-- **What a failure should leave**: the loop goes on with the other events, the worker is
stopped and has been released, and the other workers are as they were.  `Released` says that
what the fragment of the worker still lacks is free, and that the other fragments are as they
were. -/
structure Recovered (s : Download) (p : WorkerPtr) (rest : List (WorkerPtr × EpollEvents))
    (s' : Download) : Prop where
  pc : s'.pc = .dispatch rest
  stopped : ∃ w, s'.find p = some w ∧ w.state = .stopped ∧
    LengthController.Released s.controller p w.getOffset s'.controller
  others : ∀ q, q ≠ p → s'.find q = s.find q
  pointers : pointers s'.workers = Download.pointers s.workers

/-- **A failing worker leaves the loop running exactly if** it was not receiving its body, and
the handler can stop it or it has stopped by itself. -/
theorem recovers_iff (hrun : Transition.run step (init cfg node now) labels = some s)
    (hpc : s.pc = .dispatch ((p, event) :: rest)) (hfind : s.find p = some w)
    (hthrow : w.process s.file event env = (.threw e, w₁, file))
    (hstep : s.step (.process env) = some s') :
    Recovered s p rest s' ↔ w.state ≠ .receivingBody ∧
      (w.GivesUp event env ∨ (env.forceDel = true ∧ env.forceClose = true)) := by
  have hinv : s.Inv cfg := Inv.run hrun
  have hhandle : s.handle rest p event env = some s' := by
    unfold step at hstep
    rwa [hpc] at hstep
  obtain ⟨w', outcome, w₁', file', hfind', hmem, hwf, hstream, hprocess, hhandled⟩ :=
    hinv.exists_handled hpc hhandle
  obtain rfl : w' = w := Option.some.inj (hfind'.symm.trans hfind)
  obtain ⟨rfl, rfl, rfl⟩ : Outcome.threw e = outcome ∧ w₁ = w₁' ∧ file = file' := by
    simpa using hthrow.symm.trans hprocess
  have hproc := Worker.process_spec hwf hstream hthrow
  cases hhandled with
  | unread n ho hstate => cases ho
  | read n c ho hstate hprog hfinder => cases ho
  | full n c w₂ fault ho hstate hprog hfinder hstop => cases ho
  | lost e' c w₂ ho hstate hstop hrel =>
    exact ⟨fun hrec => (nomatch hrec.pc), fun hcond => absurd hstate hcond.1⟩
  | torn e' w₂ fault ho hstop =>
    refine ⟨fun hrec => (nomatch hrec.pc), fun hcond => ?_⟩
    obtain ⟨hstate, hcalls⟩ := hcond
    obtain ⟨-, -, -, -, hok⟩ := Worker.forceStop_spec hproc.wf hstop
    have hnone : some fault = none := hok.2 fun hne =>
      hcalls.resolve_left fun hgives =>
        hne ((Worker.process_stopped_iff hwf hstate hthrow).2 hgives)
    cases hnone
  | caught e' c w₂ ho hstate hstop hrel =>
    obtain ⟨-, hstopped, -, -, hok⟩ := Worker.forceStop_spec hproc.wf hstop
    have hdistinct := hinv.core.distinct
    have hp : p ∈ Download.pointers s.workers := mem_pointers.2 ⟨w', hmem⟩
    refine ⟨fun _ => ⟨hstate, ?_⟩, fun _ => ⟨rfl, ⟨w₂, ?_, hstopped, hrel⟩, fun q hq => ?_, ?_⟩⟩
    · by_cases hself : w₁.state = .stopped
      · exact Or.inl ((Worker.process_stopped_iff hwf hstate hthrow).1 hself)
      · exact Or.inr (hok.1 rfl hself)
    · exact workerAt_putWorker_self hdistinct hp
    · exact workerAt_putWorker_of_ne hdistinct hq
    · exact pointers_putWorker _ _ _

/-- A worker that fails while it sends its request is replaced. -/
theorem recovers_from_sending : ∃ s s' rest,
    Transition.run step (init ⟨100, 1, [], [], [], []⟩ 0 0)
        [.slot ⟨1, 1, .ok ⟨[], []⟩⟩, .slot ⟨2, 2, .ok ⟨[], []⟩⟩,
          .wait [(1, { epollout := true })]] = some s ∧
      s.step (.process { send := .threw .systemError }) = some s' ∧ Recovered s 1 rest s' := by
  have hrun : Transition.run step (init ⟨100, 1, [], [], [], []⟩ 0 0)
      [.slot ⟨1, 1, .ok ⟨[], []⟩⟩, .slot ⟨2, 2, .ok ⟨[], []⟩⟩,
        .wait [(1, { epollout := true })]] = some _ := rfl
  refine ⟨_, _, [], hrun, rfl, (recovers_iff (p := 1) (e := .systemError) hrun rfl rfl rfl
    (show step _ (.process { send := .threw .systemError }) = some _ from rfl)).2 ?_⟩
  exact ⟨by decide, Or.inr ⟨rfl, rfl⟩⟩

/-- A connection that is reset behind the response head. -/
def resetBehindHead : Stream where
  inbound := (bytes "HTTP/1.1 206 Partial Content\r\n\r\n").map (.byte · false) ++
    [.fail .systemError]

/-- **A connection reset in the body aborts the download.**  The worker has sent its request
and received the head in its first event; in the second, the read of the body throws, and
`std::out_of_range` leaves the loop. -/
theorem reset_in_body_aborts : ∃ s s' w w₁ file,
    Transition.run step (init ⟨100, 1, [], [], [], []⟩ 0 0)
        [.slot ⟨1, 1, .ok resetBehindHead⟩, .slot ⟨2, 2, .ok ⟨[], []⟩⟩,
          .wait [(1, { epollin := true, epollout := true })], .process { send := .accepts 1000 },
          .clock 1, .wait [(1, { epollin := true })]] = some s ∧
      s.pc = .dispatch [(1, { epollin := true })] ∧ s.find 1 = some w ∧
      w.process s.file { epollin := true } {} = (.threw .systemError, w₁, file) ∧
      s.step (.process {}) = some s' ∧ s'.pc = .failed (.thrown .outOfRange) ∧
      ¬ Recovered s 1 [] s' := by
  have hkey : (Transition.run step (init ⟨100, 1, [], [], [], []⟩ 0 0)
      [.slot ⟨1, 1, .ok resetBehindHead⟩, .slot ⟨2, 2, .ok ⟨[], []⟩⟩,
        .wait [(1, { epollin := true, epollout := true })], .process { send := .accepts 1000 },
        .clock 1, .wait [(1, { epollin := true })]]).map (fun s =>
        (s.pc, (s.find 1).map fun w => (w.process s.file { epollin := true } {}).1,
          (s.step (.process {})).map Download.pc)) =
      some (.dispatch [(1, { epollin := true })], some (.threw .systemError),
        some (.failed (.thrown .outOfRange))) := by decide +kernel
  obtain ⟨s, hrun, hval⟩ := Option.map_eq_some_iff.1 hkey
  simp only [Prod.mk.injEq] at hval
  obtain ⟨hpc, hprocess, hstep⟩ := hval
  obtain ⟨w, hfind, houtcome⟩ := Option.map_eq_some_iff.1 hprocess
  obtain ⟨s', hs', hpc'⟩ := Option.map_eq_some_iff.1 hstep
  refine ⟨s, s', w, _, _, hrun, hpc, hfind, Prod.ext houtcome rfl, hs', hpc', fun hrec => ?_⟩
  rw [hrec.pc] at hpc'
  cases hpc'

end Download

end Cld
