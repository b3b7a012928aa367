import Cld.Worker.Process

/-!
# The life of a worker

A worker goes from `Connecting` over `Sending`, `Receiving` and `ReceivingBody` to `Stopped`, and
its descriptor is registered with epoll on the way.

* `WorkerState.stage` numbers the states in this order.
* `Onward` is what every block of `process` up to the body keeps: the stage does not fall, and the
  registration stays.  A block that ends the call leaves the worker alive.
* `Watched` says that the registration lasts exactly as long as the worker is alive.  The blocks
  before the last one break it, by setting `Stopped`, and the last one mends it
  (`process_watched`); so does `forceStop` (`forceStop_watched`).

All this is on the condition that `epoll_ctl` and `shutdown` succeed, `Env.Orderly`.
-/

namespace Cld

/-- The order in which a worker goes through its states. -/
def WorkerState.stage : WorkerState → ℕ
  | .connecting => 0
  | .sending => 1
  | .receiving => 2
  | .receivingBody => 3
  | .stopped => 4

lemma WorkerState.stage_le (state : WorkerState) : state.stage ≤ WorkerState.stopped.stage := by
  cases state <;> decide

/-- `epoll_ctl` succeeds on registered descriptors, and `shutdown` succeeds or reports
`ENOTCONN`.  The stream may still throw, and so may `close`. -/
structure Env.Orderly (env : Env) : Prop where
  modConnected : env.modConnected = true
  modSent : env.modSent = true
  del : env.del = true
  forceDel : env.forceDel = true
  shutdown : env.shutdown = true

namespace Worker

/-- The descriptor is registered exactly while the worker has not stopped. -/
def Watched (w : Worker) : Prop := w.interest ≠ none ↔ w.state ≠ .stopped

/-- The worker has moved forward, and stays registered. -/
structure Onward (w w' : Worker) : Prop where
  stage : w.state.stage ≤ w'.state.stage
  interest : w.interest ≠ none → w'.interest ≠ none

lemma Onward.refl (w : Worker) : Onward w w := ⟨le_rfl, id⟩

lemma Onward.trans {w w' w'' : Worker} (h : Onward w w') (h' : Onward w' w'') : Onward w w'' :=
  ⟨h.stage.trans h'.stage, fun hw => h'.interest (h.interest hw)⟩

lemma watched_create (stream : Stream) (request : Request) (fileOffset : ℤ) :
    (create stream request fileOffset).Watched :=
  iff_of_true (Option.some_ne_none _) WorkerState.noConfusion

variable {w w' : Worker} {event : EpollEvents} {env : Env} {outcome : Outcome}
  {o : Option Outcome} {once : Bool} {file file' : File}

/-- A worker that is alive and registered. -/
lemma Onward.watched (h : Onward w w') (hinterest : w.interest ≠ none)
    (hlive : w'.state ≠ .stopped) : w'.Watched := iff_of_true (h.interest hinterest) hlive

/-! ## The blocks -/

lemma connecting_onward (hrun : w.connecting event env = (w', o)) :
    Onward w w' ∧ (o ≠ none → w'.state ≠ .stopped) := by
  have hstage : w.state = .connecting → ∀ state : WorkerState, w.state.stage ≤ state.stage := by
    intro hstate state
    rw [hstate]
    exact Nat.zero_le _
  cases connecting_cases hrun with
  | skipped hskip => exact ⟨.refl w, fun ho => absurd rfl ho⟩
  | undefined hstate hstream => exact ⟨.refl w, fun _ => by simp [hstate]⟩
  | again hstate hstream hconnect => exact ⟨.refl w, fun _ => by simp [hstate]⟩
  | failed hstate hevent hstream hconnect =>
    exact ⟨⟨hstage hstate _, id⟩, fun ho => absurd rfl ho⟩
  | done hstate hevent hstream hconnect hmod =>
    exact ⟨⟨hstage hstate _, fun _ => Option.some_ne_none _⟩, fun ho => absurd rfl ho⟩

lemma sending_onward (hrun : w.sending event env = (w', o)) :
    Onward w w' ∧ (o ≠ none → w'.state ≠ .stopped) := by
  have hlive : w.state = .sending → w.state ≠ .stopped := by simp_all
  cases sending_cases hrun with
  | skipped hskip => exact ⟨.refl w, fun ho => absurd rfl ho⟩
  | undefined hstate hstream => exact ⟨.refl w, fun _ => hlive hstate⟩
  | again hstate hstream hsend => exact ⟨.refl w, fun _ => hlive hstate⟩
  | threw e hstate hstream hsend => exact ⟨.refl w, fun _ => hlive hstate⟩
  | partly stream n hstate hstream hsend hrest => exact ⟨⟨le_rfl, id⟩, fun ho => absurd rfl ho⟩
  | refused stream n hstate hstream hsend hall hmod => exact ⟨⟨le_rfl, id⟩, fun _ => hlive hstate⟩
  | done stream n hstate hevent hstream hsend hall hmod =>
    refine ⟨⟨?_, fun _ => Option.some_ne_none _⟩, fun ho => absurd rfl ho⟩
    rw [hstate]
    exact Nat.le_succ 1

lemma enterBody_onward {stream : Stream} {data : Bytes} {rest : Inbound}
    (hstate : w.state = .receiving) (hrun : w.enterBody stream data rest = (w', o)) :
    Onward w w' ∧ w'.state ≠ .stopped := by
  have hlive : w.state ≠ .stopped := by simp [hstate]
  cases enterBody_cases hrun with
  | diverges hparse => exact ⟨⟨le_rfl, id⟩, hlive⟩
  | invalid e hparse => exact ⟨⟨le_rfl, id⟩, hlive⟩
  | unsupported response e hparse hbuffer => exact ⟨⟨le_rfl, id⟩, hlive⟩
  | entered response buffer hparse hbuffer =>
    refine ⟨⟨?_, id⟩, WorkerState.noConfusion⟩
    rw [hstate]
    exact Nat.le_succ 2

lemma receiving_onward (hrun : w.receiving event = (w', o, once)) :
    Onward w w' ∧ (o ≠ none → w'.state ≠ .stopped) := by
  cases receiving_cases hrun with
  | skipped hskip => exact ⟨.refl w, fun ho => absurd rfl ho⟩
  | undefined hstate hstream => exact ⟨.refl w, fun _ => by simp [hstate]⟩
  | kept stream data last rest o hstate hstream hread =>
    exact ⟨⟨le_rfl, id⟩, fun _ => by simp [keepHead, hstate]⟩
  | complete stream data rest w' o hstate hstream hread henter =>
    obtain ⟨honward, hlive⟩ := enterBody_onward hstate henter
    exact ⟨honward, fun _ => hlive⟩

lemma receivingBody_onward {count : ℕ}
    (hrun : w.receivingBody file event once env = (w', file', count, o)) :
    Onward w w' ∧ (o ≠ none → w'.state ≠ .stopped) := by
  cases receivingBody_cases hrun with
  | skipped hskip => exact ⟨.refl w, fun ho => absurd rfl ho⟩
  | undefined hstate hnone => exact ⟨.refl w, fun _ => by simp [hstate]⟩
  | ended stream buffer s exit hlooped hexit =>
    exact ⟨⟨le_rfl, id⟩, fun _ => by simp [bodyLeft, hlooped.state]⟩
  | idle stream buffer s hlooped => exact ⟨⟨le_rfl, id⟩, fun ho => absurd rfl ho⟩
  | finished stream buffer s hlooped =>
    exact ⟨⟨w.state.stage_le, id⟩, fun ho => absurd rfl ho⟩

/-- The last block takes a stopped worker off the epoll instance, and leaves a live one alone. -/
lemma stopping_watched (horderly : env.Orderly) (hstream : w.stream ≠ none)
    (hinterest : w.interest ≠ none) (hrun : w.stopping env = (w', o)) : w'.Watched := by
  cases stopping_cases hrun with
  | skipped hlive => exact iff_of_true hinterest hlive
  | undefined hstate hnone => exact absurd hnone hstream
  | refused hstate _ hdel =>
    rw [horderly.del] at hdel
    cases hdel
  | unclosed hstate _ hdel hclose => exact iff_of_false (fun h => h rfl) fun h => h hstate
  | closed hstate _ hdel hclose => exact iff_of_false (fun h => h rfl) fun h => h hstate

/-! ## The call -/

lemma BeforeBody.onward (hrun : BeforeBody w event env w' o once) :
    Onward w w' ∧ (o ≠ none → w'.state ≠ .stopped) := by
  cases hrun with
  | connecting hrun => exact connecting_onward hrun
  | sending hfirst hrun =>
    obtain ⟨honward, hlive⟩ := sending_onward hrun
    exact ⟨(connecting_onward hfirst).1.trans honward, hlive⟩
  | receiving hfirst hsecond hrun =>
    obtain ⟨honward, hlive⟩ := receiving_onward hrun
    exact ⟨((connecting_onward hfirst).1.trans (sending_onward hsecond).1).trans honward, hlive⟩

/-- **One call of `process`** moves a worker forward, and takes it off the epoll instance if and
only if it stops it. -/
lemma process_watched (h : w.WF) (horderly : env.Orderly) (hinterest : w.interest ≠ none)
    (hprocess : w.process file event env = (outcome, w', file')) :
    w.state.stage ≤ w'.state.stage ∧ w'.Watched := by
  rcases process_cases hprocess with ⟨once, hbefore, -⟩ | ⟨w₁, once, hbefore, hfrom⟩
  · obtain ⟨honward, hlive⟩ := hbefore.onward
    exact ⟨honward.stage, honward.watched hinterest (hlive (Option.some_ne_none _))⟩
  · obtain ⟨honward, -⟩ := hbefore.onward
    obtain ⟨hquiet, -⟩ := hbefore.quiet h
    cases hfrom with
    | body hrun =>
      obtain ⟨hbody, hlive⟩ := receivingBody_onward hrun
      have hboth := honward.trans hbody
      exact ⟨hboth.stage, hboth.watched hinterest (hlive (Option.some_ne_none _))⟩
    | stopping hbody hrun ho =>
      obtain ⟨-, -, -, -, hkeeps, -⟩ := receivingBody_spec hquiet.wf hbody
      have hboth := honward.trans (receivingBody_onward hbody).1
      have hstream := hkeeps (hquiet.stream (h.interest hinterest))
      refine ⟨?_, stopping_watched horderly hstream (hboth.interest hinterest) hrun⟩
      rw [(stopping_keeps hrun).2]
      exact hboth.stage

/-- **`forceStop`**, of a worker in any state. -/
lemma forceStop_watched {fault : Option Fault} (h : w.WF) (horderly : env.Orderly)
    (hwatched : w.Watched) (hrun : w.forceStop env = (w', fault)) :
    w.state.stage ≤ w'.state.stage ∧ w'.Watched := by
  obtain ⟨-, hstopped, -⟩ := forceStop_spec h hrun
  refine ⟨?_, ?_⟩
  · rw [hstopped]
    exact w.state.stage_le
  · cases forceStop_cases hrun with
    | skipped hstate => exact hwatched
    | undefined hlive hstream => exact absurd hstream (h.stream hlive)
    | refused hlive hstream hdel =>
      rw [horderly.forceDel] at hdel
      cases hdel
    | unclosed hlive hstream hdel hclose => exact iff_of_false (fun h => h rfl) fun h => h rfl
    | closed hlive hstream hdel hclose => exact iff_of_false (fun h => h rfl) fun h => h rfl

end Worker

end Cld
