import Cld.Body.Fetch
import Cld.Model.Single

/-!
# What the single connection downloads

`SingleConnectionDownload` is one worker that lives as `Transfer` says, with a clock around it.

* `Stepped` lists what a round of the loop does, and `Inv` is its invariant: the worker of an event
  that is still to be handled has not stopped.  So no null pointer is ever followed.
* `simulates`: the rounds of the loop are answered by calls of `process` in the system `Transfer`,
  in the same order, and by nothing else.
* `file_is_body`: what a run leaves in the file, read off the life of the worker.  Nothing but the
  bytes of the body is written, in order and from 0 on; the function returns only when all of them
  are there and the body has ended, or when the connection was refused.
-/

namespace Cld.Single

open Framework

variable {s s' : Single} {label : SingleLabel} {labels : List SingleLabel} {request : Request}
  {stream : Stream} {now : ℤ}

/-! ## Rounds of the loop -/

/-- What a step of the loop can do. -/
inductive Stepped (s : Single) : SingleLabel → Single → Prop
  | waited (events : List EpollEvents) (hpc : s.pc = .wait) (hreportable : s.Reportable events) :
      Stepped s (.wait events) { s with pc := .dispatch events }
  | returned (event : EpollEvents) (rest : List EpollEvents) (env : Env) (count : ℕ) (w : Worker)
      (file : File) (hpc : s.pc = .dispatch (event :: rest))
      (hprocess : s.worker.process s.file event env = (.returned count, w, file)) :
      Stepped s (.process env) { s with
        worker := w
        file := file
        lastDownloaded := s.lastDownloaded + count
        pc := .dispatch rest }
  | failed (event : EpollEvents) (rest : List EpollEvents) (env : Env) (outcome : Outcome)
      (fault : Fault) (w : Worker) (file : File) (hpc : s.pc = .dispatch (event :: rest))
      (hprocess : s.worker.process s.file event env = (outcome, w, file))
      (hfault : (∃ e, outcome = .threw e ∧ fault = .thrown e) ∨
        (outcome = .undefined ∧ fault = .undefined)) :
      Stepped s (.process env) { s with worker := w, file := file, pc := .failed fault }
  | left (now : ℤ) (hpc : s.pc = .dispatch []) (hstate : s.worker.state = .stopped) :
      Stepped s (.clock now) { s with pc := .done }
  | ticked (now : ℤ) (hpc : s.pc = .dispatch []) (hstate : s.worker.state ≠ .stopped) :
      Stepped s (.clock now) (s.tick now)

/-- **The inversion of `step`.** -/
lemma step_cases (hstep : s.step label = some s') : Stepped s label s' := by
  unfold step at hstep
  split at hstep
  · next events hpc =>
    split_ifs at hstep with hreportable
    obtain rfl := Option.some.inj hstep
    exact .waited events hpc hreportable
  · next event rest env hpc =>
    unfold handle at hstep
    rcases hprocess : s.worker.process s.file event env with ⟨outcome, w, file⟩
    rw [hprocess] at hstep
    cases outcome with
    | returned count =>
      obtain rfl := Option.some.inj hstep
      exact .returned event rest env count w file hpc hprocess
    | threw e =>
      obtain rfl := Option.some.inj hstep
      exact .failed event rest env _ _ w file hpc hprocess (Or.inl ⟨e, rfl, rfl⟩)
    | undefined =>
      obtain rfl := Option.some.inj hstep
      exact .failed event rest env _ _ w file hpc hprocess (Or.inr ⟨rfl, rfl⟩)
    | diverges => cases hstep
  · next now hpc =>
    split_ifs at hstep with hstate
    · obtain rfl := Option.some.inj hstep
      exact .left now hpc hstate
    · obtain rfl := Option.some.inj hstep
      exact .ticked now hpc hstate
  · cases hstep

/-- A progress line changes neither the worker nor the file. -/
lemma tick_keeps (s : Single) (now : ℤ) : (s.tick now).worker = s.worker ∧
    (s.tick now).file = s.file ∧ (s.tick now).pc = .wait := by
  unfold tick
  split_ifs
  · exact ⟨rfl, rfl, rfl⟩
  · exact ⟨rfl, rfl, rfl⟩

/-- The invariant of the loop. -/
structure Inv (s : Single) : Prop where
  wf : s.worker.WF
  live : s.pc = .wait → s.worker.state ≠ .stopped
  pending : ∀ events, s.pc = .dispatch events →
    events.length ≤ 1 ∧ (events ≠ [] → s.worker.state ≠ .stopped)
  left : s.pc = .done → s.worker.state = .stopped
  defined : s.pc ≠ .failed .undefined

lemma inv_init (request : Request) (stream : Stream) (now : ℤ) :
    (init request stream now).Inv where
  wf := Worker.wf_create stream request 0
  live _ := WorkerState.noConfusion
  pending events hpc := by cases hpc
  left hpc := by cases hpc
  defined := SinglePc.noConfusion

/-- The call of `process` for a pending event. -/
lemma Inv.processed (h : s.Inv) {event : EpollEvents} {rest : List EpollEvents} {env : Env}
    {outcome : Outcome} {w : Worker} {file : File} (hpc : s.pc = .dispatch (event :: rest))
    (hprocess : s.worker.process s.file event env = (outcome, w, file)) :
    s.worker.state ≠ .stopped ∧ rest = [] ∧
      Worker.Processed s.worker s.file outcome w file := by
  obtain ⟨hone, hlive⟩ := h.pending _ hpc
  have hlive' := hlive (List.cons_ne_nil event rest)
  rw [List.length_cons] at hone
  exact ⟨hlive', List.eq_nil_of_length_eq_zero (by omega),
    Worker.process_spec h.wf (h.wf.stream hlive') hprocess⟩

lemma Inv.step (h : s.Inv) (hstep : s.step label = some s') : s'.Inv := by
  cases step_cases hstep with
  | waited events hpc hreportable =>
    refine ⟨h.wf, fun hw => SinglePc.noConfusion hw, fun events' hpc' => ?_,
      fun hd => SinglePc.noConfusion hd,
      SinglePc.noConfusion⟩
    obtain rfl : events = events' := SinglePc.dispatch.inj hpc'
    exact ⟨hreportable.1, fun _ => h.live hpc⟩
  | returned event rest env count w file hpc hprocess =>
    obtain ⟨-, rfl, hproc⟩ := h.processed hpc hprocess
    refine ⟨hproc.wf, fun hw => SinglePc.noConfusion hw, fun events hpc' => ?_,
      fun hd => SinglePc.noConfusion hd,
      SinglePc.noConfusion⟩
    obtain rfl : [] = events := SinglePc.dispatch.inj hpc'
    exact ⟨Nat.zero_le 1, fun hne => absurd rfl hne⟩
  | failed event rest env outcome fault w file hpc hprocess hfault =>
    obtain ⟨-, -, hproc⟩ := h.processed hpc hprocess
    refine ⟨hproc.wf, fun hw => SinglePc.noConfusion hw, fun _ hd => SinglePc.noConfusion hd,
      fun hd => SinglePc.noConfusion hd, ?_⟩
    rcases hfault with ⟨e, -, rfl⟩ | ⟨rfl, -⟩
    · simp
    · exact absurd rfl hproc.defined
  | left now hpc hstate =>
    exact ⟨h.wf, fun hw => SinglePc.noConfusion hw, fun _ hd => SinglePc.noConfusion hd,
      fun _ => hstate,
      SinglePc.noConfusion⟩
  | ticked now hpc hstate =>
    obtain ⟨hworker, -, hpc'⟩ := s.tick_keeps now
    constructor
    · rw [hworker]
      exact h.wf
    · rw [hworker]
      exact fun _ => hstate
    · intro events hd
      rw [hpc'] at hd
      cases hd
    · intro hd
      rw [hpc'] at hd
      cases hd
    · rw [hpc']
      exact SinglePc.noConfusion

lemma Inv.run (hrun : Transition.run Single.step (init request stream now) labels = some s) :
    s.Inv :=
  Transition.run_invariant (fun _ _ _ h hstep => Inv.step h hstep) (inv_init request stream now)
    hrun

/-! ## The life of the worker -/

/-- The loop and the life of its worker, side by side. -/
structure Follows (s : Single) (t : Transfer) : Prop where
  inv : s.Inv
  worker : t.worker = s.worker
  file : t.file = s.file
  halted : t.halted = true ↔ ∃ fault, s.pc = .failed fault

lemma follows_init (request : Request) (stream : Stream) (now : ℤ) :
    Follows (init request stream now)
      { worker := Worker.create stream request 0, file := fun _ => none } where
  inv := inv_init request stream now
  worker := rfl
  file := rfl
  halted := by
    constructor
    · exact fun h => Bool.noConfusion h
    · rintro ⟨fault, hpc⟩
      cases hpc

/-- The call of `process` that a step makes. -/
def calls (s : Single) (label : SingleLabel) : List (EpollEvents × Env) :=
  match s.pc, label with
  | .dispatch (event :: _), .process env => [(event, env)]
  | _, _ => []

/-- **A step of the loop** is a call in the life of the worker, or nothing to it. -/
lemma Follows.step {t : Transfer} (h : Follows s t) (hstep : s.step label = some s') :
    ∃ t', Transition.run Transfer.step t (s.calls label) = some t' ∧ Follows s' t' := by
  have hinv := h.inv.step hstep
  have hgoes : ∀ {pc : SinglePc}, s.pc = pc → (∀ fault, pc ≠ .failed fault) → t.halted = false :=
    fun hpc hne => Bool.eq_false_iff.2 fun htrue => by
      obtain ⟨fault, hfailed⟩ := h.halted.1 htrue
      exact hne fault (hpc.symm.trans hfailed)
  cases step_cases hstep with
  | waited events hpc hreportable =>
    have hcalls : s.calls (.wait events) = [] := by simp [calls, hpc]
    refine ⟨t, by rw [hcalls]; rfl, hinv, h.worker, h.file, ?_⟩
    simp [hgoes hpc fun _ => SinglePc.noConfusion]
  | returned event rest env count w file hpc hprocess =>
    have hcalls : s.calls (.process env) = [(event, env)] := by simp [calls, hpc]
    obtain ⟨hlive, -, -⟩ := h.inv.processed hpc hprocess
    have hhalted := hgoes hpc fun _ => SinglePc.noConfusion
    refine ⟨{ worker := w, file := file }, ?_, hinv, rfl, rfl, by simp⟩
    rw [hcalls]
    refine Transition.run_single ?_
    rw [Transfer.step, if_neg (by simp [hhalted, h.worker, hlive]), h.worker, h.file, hprocess]
  | failed event rest env outcome fault w file hpc hprocess hfault =>
    have hcalls : s.calls (.process env) = [(event, env)] := by simp [calls, hpc]
    obtain ⟨hlive, -, -⟩ := h.inv.processed hpc hprocess
    have hhalted := hgoes hpc fun _ => SinglePc.noConfusion
    refine ⟨{ worker := w, file := file, halted := true }, ?_, hinv, rfl, rfl, by simp⟩
    rw [hcalls]
    refine Transition.run_single ?_
    rw [Transfer.step, if_neg (by simp [hhalted, h.worker, hlive]), h.worker, h.file, hprocess]
    rcases hfault with ⟨e, rfl, -⟩ | ⟨rfl, -⟩
    · rfl
    · rfl
  | left now hpc hstate =>
    have hcalls : s.calls (.clock now) = [] := by simp [calls, hpc]
    refine ⟨t, by rw [hcalls]; rfl, hinv, h.worker, h.file, ?_⟩
    simp [hgoes hpc fun _ => SinglePc.noConfusion]
  | ticked now hpc hstate =>
    have hcalls : s.calls (.clock now) = [] := by simp [calls, hpc]
    obtain ⟨hworker, hfile, hpc'⟩ := s.tick_keeps now
    refine ⟨t, by rw [hcalls]; rfl, hinv, h.worker.trans hworker.symm, h.file.trans hfile.symm, ?_⟩
    simp [hgoes hpc fun _ => SinglePc.noConfusion, hpc']

/-- What answers a step is the call it makes. -/
lemma of_mem_calls {call : EpollEvents × Env} (h : call ∈ s.calls label) :
    label = .process call.2 := by
  unfold calls at h
  split at h
  · rw [List.mem_singleton.1 h]
  · exact absurd h List.not_mem_nil

/-- **The life of the worker** in a run of the loop. -/
lemma simulates (hrun : Transition.run step (init request stream now) labels = some s) :
    ∃ life t, Transition.run Transfer.step
        { worker := Worker.create stream request 0, file := fun _ => none } life = some t ∧
      Follows s t ∧ ∀ call ∈ life, .process call.2 ∈ labels := by
  have hstep : ∀ s t label s', Follows s t → step s label = some s' →
      ∃ life t', Transition.run Transfer.step t life = some t' ∧ Follows s' t' ∧
        ∀ call ∈ life, label = SingleLabel.process call.2 := by
    intro s t label s' h hstep
    obtain ⟨t', hlife, h'⟩ := h.step hstep
    exact ⟨_, t', hlife, h', fun call hcall => of_mem_calls hcall⟩
  obtain ⟨life, t, hlife, hfollows, hlabels⟩ :=
    Transition.run_simulation_of_labels hstep (follows_init request stream now) hrun
  refine ⟨life, t, hlife, hfollows, fun call hcall => ?_⟩
  obtain ⟨label, hmem, rfl⟩ := hlabels call hcall
  exact hmem

/-! ## The file -/

/-- In some call of the run the connection was refused, or `epoll_ctl` failed for it. -/
def Refused (labels : List SingleLabel) : Prop :=
  ∃ env, .process env ∈ labels ∧ (env.connect = .failed ∨ env.modConnected = false)

/-- What has been fetched at the end of a run, from the life of the worker. -/
lemma fetched (hwrites : ∀ env, .process env ∈ labels → Unshort env.fileWrites)
    (hrun : Transition.run step (init request stream now) labels = some s) :
    s.Inv ∧ (∃ bs, bs <+: delivered stream.inbound ∧ s.worker.fileOffset = bs.length ∧
        s.file = File.write (fun _ => none) 0 bs) ∧
      (s.pc = .done → (Refused labels ∧ s.file = fun _ => none) ∨
        (s.file = File.write (fun _ => none) 0 (delivered stream.inbound) ∧
          ∃ buffer rest, arrival stream.inbound = some (buffer, rest) ∧
            Arrived buffer.kind rest)) := by
  obtain ⟨life, t, hlife, hfollows, hlabels⟩ := simulates hrun
  have hfetching := (Transfer.fetching_create stream request 0 (fun _ => none)
    (Refused labels)).run (fun call hcall => hwrites _ (hlabels call hcall))
    (fun call hcall hrefuses => ⟨call.2, hlabels call hcall, hrefuses⟩) hlife
  obtain ⟨⟨bs, hbs, hoffset, hfile⟩, hstopped⟩ := hfetching.fetched
  rw [hfollows.worker] at hoffset hstopped
  rw [hfollows.file] at hfile hstopped
  rw [zero_add] at hoffset
  exact ⟨hfollows.inv, ⟨bs, hbs, hoffset, hfile⟩, fun hdone => hstopped (hfollows.inv.left hdone)⟩

/-- **The single connection writes the body and nothing else.**  In every run in which no write is
short, and whatever else the peer and the system do, the file holds the first bytes of the body,
from 0 on and up to the offset of the worker, and no null pointer is followed.  When the function
returns, the connection was refused and the file is empty, or all that the buffer hands on of the
body is there and the body has ended (`Arrived`): its announced bytes have come, or the peer has
closed, or the decoder of a chunked body, of which nothing is handed on, has taken a size for 0. -/
theorem file_is_body (hwrites : ∀ env, .process env ∈ labels → Unshort env.fileWrites)
    (hrun : Transition.run step (init request stream now) labels = some s) :
    s.pc ≠ .failed .undefined ∧
      (∃ bs, bs <+: delivered stream.inbound ∧ s.worker.fileOffset = bs.length ∧
        s.file = File.write (fun _ => none) 0 bs) ∧
      (s.pc = .done → (Refused labels ∧ s.file = fun _ => none) ∨
        (s.file = File.write (fun _ => none) 0 (delivered stream.inbound) ∧
          ∃ buffer rest, arrival stream.inbound = some (buffer, rest) ∧
            Arrived buffer.kind rest)) := by
  obtain ⟨hinv, hprefix, hdone⟩ := fetched hwrites hrun
  exact ⟨hinv.defined, hprefix, hdone⟩

/-- The rounds in which a worker sends its request and receives what is there. -/
def fetchAll : List SingleLabel :=
  [.wait [{ epollout := true }], .process { send := .accepts 1000 }, .clock 1,
    .wait [{ epollin := true }], .process {}, .clock 2,
    .wait [{ epollin := true }], .process {}, .clock 3]

/-- A server that answers with two bytes and closes. -/
def closingServer : Stream where
  inbound := (bytes "HTTP/1.1 200 OK\r\n\r\n").map (.byte · false) ++
    [.byte 65 false, .byte 66 false, .eof]

/-- Both bytes are in the file when the function returns. -/
theorem file_is_body_closed : ∃ s,
    Transition.run step (init ⟨[], [], [], []⟩ closingServer 0) fetchAll = some s ∧
      s.pc = .done ∧ s.file = File.write (fun _ => none) 0 [65, 66] := by
  have hkey : (Transition.run step (init ⟨[], [], [], []⟩ closingServer 0) fetchAll).map
      (fun s => (decide (s.pc = .done), s.file 0)) = some (true, some 65) := by decide +kernel
  obtain ⟨s, hrun, hval⟩ := Option.map_eq_some_iff.1 hkey
  simp only [Prod.mk.injEq, decide_eq_true_eq] at hval
  have hwrites : ∀ env, .process env ∈ fetchAll → Unshort env.fileWrites := by
    intro env henv
    simp only [fetchAll, List.mem_cons, reduceCtorEq, false_or, SingleLabel.process.injEq,
      List.not_mem_nil, or_false] at henv
    rcases henv with rfl | rfl | rfl <;> decide
  have hbody : delivered closingServer.inbound = [65, 66] := by decide +kernel
  obtain ⟨-, -, hdone⟩ := file_is_body hwrites hrun
  refine ⟨s, hrun, hval.1, ?_⟩
  rcases hdone hval.1 with ⟨-, hempty⟩ | ⟨hfile, -⟩
  · have hzero := hval.2
    rw [hempty] at hzero
    cases hzero
  · rw [hfile, hbody]

end Cld.Single
