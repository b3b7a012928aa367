import Cld.Controller.Indexes
import Cld.Download.Slots
import Cld.Worker.Process

/-!
# What a step of the loop can do

The inversion of `Download.step`: inductive relations list the ways a round of the loop can
go, with everything later proofs need to know about each, so that none of them unfolds `step`,
`visit` or `handle`.

* `Visited` is one round of the assignment pass: the slot is kept, or it is cleaned and
  `next` is asked, after which a worker is created or not.
* `Handled` is the handling of one event: whether `process` returned or threw, whether the
  worker was receiving a body before, what the controller was told, and whether the handler
  could stop the worker.
* `Stepped` is the step as a whole: which of the rounds it is.

`visit_cases` and `handle_cases` derive the first two for a controller whose indexes agree;
`step_cases` needs nothing.
-/

namespace Cld.Download

open LengthController

/-! ## The assignment pass -/

/-- `c'` is the controller after the clean-up of a slot that is empty then. -/
inductive Cleaned (c : LengthController) (slot : Option Held) (c' : LengthController) : Prop
  | empty (hslot : slot = none) (hc : c' = c)
  | stopped (h : Held) (hslot : slot = some h) (hstate : h.obj.state = .stopped)
      (hrel : Released c h.ptr h.obj.fileOffset c')
      (hval : c.workerStopped h.ptr h.obj.fileOffset = .ok c')

lemma Cleaned.min_eq {c c' : LengthController} {slot : Option Held} (h : Cleaned c slot c') :
    c'.min = c.min := by
  cases h with
  | empty hslot hc => rw [hc]
  | stopped h hslot hstate hrel => exact hrel.min_eq

lemma clean_cases {c : LengthController} (hidx : c.Indexed) (slot : Option Held) :
    (∃ h, slot = some h ∧ h.obj.state ≠ .stopped ∧ clean c slot = .ok (c, some h)) ∨
      ∃ c', Cleaned c slot c' ∧ clean c slot = .ok (c', none) := by
  cases slot with
  | none => exact Or.inr ⟨c, .empty rfl rfl, rfl⟩
  | some h =>
    by_cases hstate : h.obj.state = .stopped
    · obtain ⟨c', hval, hrel⟩ := hidx.exists_released h.ptr h.obj.getOffset
      exact Or.inr ⟨c', .stopped h rfl hstate hrel hval, by simp [clean, hstate, hval]⟩
    · exact Or.inl ⟨h, rfl, hstate, by simp [clean, hstate]⟩

/-- The request for a range. -/
def rangeRequest (s : Download) (range : ℤ × ℤ) : Request :=
  s.req.set "Range" (rangeValue range.1 range.2)

/-- One round of the pass over the slots. -/
inductive Visited (s : Download) (i : ℕ) (slot : Option Held) (choice : SlotChoice) :
    Download → Prop
  /-- The slot holds a worker that has not stopped. -/
  | kept (h : Held) (hslot : slot = some h) (hlive : h.obj.state ≠ .stopped) :
      Visited s i slot choice { s with pc := .slot (i + 1) }
  /-- `next` is asked of an empty list. -/
  | stuck (c : LengthController) (hclean : Cleaned s.controller slot c)
      (hnil : c.lengthMonitor = []) :
      Visited s i slot choice
        { s with controller := c, workers := s.workers.set i none, pc := .failed .undefined }
  /-- There is nothing to do. -/
  | idle (c : LengthController) (n : Node) (hclean : Cleaned s.controller slot c)
      (hback : c.back = some n) (hrange : (c.rangeOf n.val).2 - (c.rangeOf n.val).1 = 0) :
      Visited s i slot choice
        { s with controller := c.sort, workers := s.workers.set i none, pc := .slot (i + 1) }
  /-- The worker cannot be created. -/
  | refused (c : LengthController) (n : Node) (e : Exn) (hclean : Cleaned s.controller slot c)
      (hback : c.back = some n) (hrange : (c.rangeOf n.val).2 - (c.rangeOf n.val).1 ≠ 0) :
      Visited s i slot choice
        { s with
          controller := c.sort
          workers := s.workers.set i none
          req := s.rangeRequest (c.rangeOf n.val)
          pc := .failed (.thrown e) }
  /-- A new worker takes the range. -/
  | assigned (c c' : LengthController) (n : Node) (stream : Stream)
      (hclean : Cleaned s.controller slot c) (hback : c.back = some n)
      (hrange : (c.rangeOf n.val).2 - (c.rangeOf n.val).1 ≠ 0)
      (hconnection : choice.connection = .ok stream)
      (hptr : choice.ptr ∉ pointers (s.workers.set i none))
      (hnode : choice.node ∉ c.sort.addresses)
      (hadd : Added c.sort choice.ptr choice.node c')
      (hval : c.sort.add choice.ptr choice.node = .ok c') :
      Visited s i slot choice
        { s with
          controller := c'
          workers := s.workers.set i (some ⟨choice.ptr,
            Worker.create stream (s.rangeRequest (c.rangeOf n.val)) (c.rangeOf n.val).1⟩)
          req := s.rangeRequest (c.rangeOf n.val)
          pc := .slot (i + 1) }

/-- **The inversion of `visit`.** -/
lemma visit_cases {s s' : Download} {i : ℕ} {slot : Option Held} {choice : SlotChoice}
    (hidx : s.controller.Indexed) (hvisit : s.visit i slot choice = some s') :
    Visited s i slot choice s' := by
  unfold visit at hvisit
  rcases clean_cases hidx slot with ⟨h, hslot, hlive, hval⟩ | ⟨c, hclean, hval⟩
  · rw [hval] at hvisit
    obtain rfl := Option.some.inj hvisit
    exact .kept h hslot hlive
  · rw [hval] at hvisit
    simp only at hvisit
    by_cases hnil : c.lengthMonitor = []
    · cases hnext : c.next with
      | error fault =>
        obtain rfl : fault = .undefined := next_undefined hnext
        rw [hnext] at hvisit
        obtain rfl := Option.some.inj hvisit
        exact .stuck c hclean hnil
      | ok answer =>
        obtain ⟨n, hback, -⟩ := next_cases hnext
        have hmem := mem_of_back hback
        rw [hnil] at hmem
        exact absurd hmem List.not_mem_nil
    · obtain ⟨n, hback⟩ := exists_back hnil
      rw [next_eq_of_back hback] at hvisit
      simp only at hvisit
      by_cases hrange : (c.rangeOf n.val).2 - (c.rangeOf n.val).1 ≠ 0
      · rw [if_pos hrange] at hvisit
        unfold assignWorker at hvisit
        cases hconnection : choice.connection with
        | error e =>
          rw [hconnection] at hvisit
          obtain rfl := Option.some.inj hvisit
          exact .refused c n e hclean hback hrange
        | ok stream =>
          rw [hconnection] at hvisit
          simp only [List.set_set] at hvisit
          split_ifs at hvisit with hfresh
          obtain ⟨hptr, hnode⟩ := not_or.1 hfresh
          obtain ⟨c', hadd⟩ := exists_add hback hrange choice.ptr choice.node
          rw [hadd] at hvisit
          obtain rfl := Option.some.inj hvisit
          exact .assigned c c' n stream hclean hback hrange hconnection hptr hnode
            (add_cases hadd) hadd
      · rw [if_neg hrange] at hvisit
        obtain rfl := Option.some.inj hvisit
        exact .idle c n hclean hback (not_not.1 hrange)

/-! ## Events -/

/-- The state after an event: the file, the worker and the controller are new. -/
def after (s : Download) (file : File) (p : WorkerPtr) (w : Worker) (c : LengthController)
    (pc : Pc) : Download :=
  { s with file := file, workers := putWorker s.workers p w, controller := c, pc := pc }

/-- The handling of an event of the worker `w` at `p`, for which `process` has ended with
`outcome`, the worker `w₁` and the file `file`. -/
inductive Handled (s : Download) (rest : List (WorkerPtr × EpollEvents)) (p : WorkerPtr)
    (w : Worker) (env : Env) (outcome : Outcome) (w₁ : Worker) (file : File) :
    Download → Prop
  /-- `process` has returned, and was not called to receive a body. -/
  | unread (n : ℕ) (ho : outcome = .returned n) (hstate : w.state ≠ .receivingBody) :
      Handled s rest p w env outcome w₁ file (s.after file p w₁ s.controller (.dispatch rest))
  /-- The controller has been told, and lets the worker go on. -/
  | read (n : ℕ) (c : LengthController) (ho : outcome = .returned n)
      (hstate : w.state = .receivingBody) (hprog : Progress s.controller p w₁.fileOffset c)
      (hfinder : c.nodeFinder = s.controller.nodeFinder)
      (hval : s.controller.afterRead p w₁.fileOffset = .ok (true, c)) :
      Handled s rest p w env outcome w₁ file (s.after file p w₁ c (.dispatch rest))
  /-- The controller has been told, and the worker is stopped; if that fails, the exception
  leaves the loop. -/
  | full (n : ℕ) (c : LengthController) (w₂ : Worker) (fault : Option Fault)
      (ho : outcome = .returned n) (hstate : w.state = .receivingBody)
      (hprog : Progress s.controller p w₁.fileOffset c)
      (hfinder : c.nodeFinder = s.controller.nodeFinder.erase p)
      (hstop : w₁.forceStop env = (w₂, fault))
      (hval : s.controller.afterRead p w₁.fileOffset = .ok (false, c)) :
      Handled s rest p w env outcome w₁ file
        (s.after file p w₂ c (fault.elim (.dispatch rest) .failed))
  /-- The handler has caught an exception. -/
  | caught (e : Exn) (c : LengthController) (w₂ : Worker) (ho : outcome = .threw e)
      (hstate : w.state ≠ .receivingBody) (hstop : w₁.forceStop env = (w₂, none))
      (hrel : Released s.controller p w₂.fileOffset c)
      (hval : s.controller.workerStopped p w₂.fileOffset = .ok c) :
      Handled s rest p w env outcome w₁ file (s.after file p w₂ c (.dispatch rest))
  /-- The handler has caught an exception, and `afterRead` does not find the worker. -/
  | lost (e : Exn) (c : LengthController) (w₂ : Worker) (ho : outcome = .threw e)
      (hstate : w.state = .receivingBody) (hstop : w₁.forceStop env = (w₂, none))
      (hrel : Released s.controller p w₂.fileOffset c)
      (hval : s.controller.workerStopped p w₂.fileOffset = .ok c) :
      Handled s rest p w env outcome w₁ file
        (s.after file p w₂ c (.failed (.thrown .outOfRange)))
  /-- The handler has thrown itself. -/
  | torn (e : Exn) (w₂ : Worker) (fault : Fault) (ho : outcome = .threw e)
      (hstop : w₁.forceStop env = (w₂, some fault)) :
      Handled s rest p w env outcome w₁ file (s.after file p w₂ s.controller (.failed fault))

/-- **The inversion of `handle`**, for a worker that has its stream, and that the finder knows
if it is receiving a body. -/
lemma handle_cases {s s' : Download} {rest : List (WorkerPtr × EpollEvents)} {p : WorkerPtr}
    {event : EpollEvents} {env : Env} {w : Worker} (hidx : s.controller.Indexed)
    (hfind : s.find p = some w) (hwf : w.WF) (hstream : w.stream ≠ none)
    (hknown : w.state = .receivingBody → s.controller.nodeFinder.lookup p ≠ none)
    (hhandle : s.handle rest p event env = some s') :
    ∃ outcome w₁ file, w.process s.file event env = (outcome, w₁, file) ∧
      Handled s rest p w env outcome w₁ file s' := by
  rcases hprocess : w.process s.file event env with ⟨outcome, w₁, file⟩
  refine ⟨outcome, w₁, file, rfl, ?_⟩
  have hspec := Worker.process_spec hwf hstream hprocess
  unfold handle at hhandle
  rw [hfind] at hhandle
  simp only [hprocess] at hhandle
  cases outcome with
  | diverges => cases hhandle
  | undefined => exact absurd rfl hspec.defined
  | returned n =>
    simp only [afterProcess] at hhandle
    by_cases hstate : w.state = .receivingBody
    · obtain ⟨q, hq⟩ := Option.ne_none_iff_exists'.1 (hknown hstate)
      obtain ⟨f, b, c, -, -, hval, -, hprog, hfinder⟩ := hidx.afterRead_cases hq w₁.getOffset
      cases b with
      | true =>
        simp only [hstate, decide_true, if_true, reportRead, hval] at hhandle
        obtain rfl := Option.some.inj hhandle
        exact .read n c rfl hstate hprog hfinder hval
      | false =>
        rcases hstop : w₁.forceStop env with ⟨w₂, fault⟩
        simp only [hstate, decide_true, if_true, reportRead, hval, hstop] at hhandle
        cases fault with
        | none =>
          obtain rfl := Option.some.inj hhandle
          exact .full n c w₂ none rfl hstate hprog hfinder hstop hval
        | some fault =>
          obtain rfl := Option.some.inj hhandle
          exact .full n c w₂ (some fault) rfl hstate hprog hfinder hstop hval
    · simp only [hstate, decide_false, Bool.false_eq_true, if_false] at hhandle
      obtain rfl := Option.some.inj hhandle
      exact .unread n rfl hstate
  | threw e =>
    rcases hstop : w₁.forceStop env with ⟨w₂, fault⟩
    cases fault with
    | some fault =>
      simp only [handleThrow, hstop] at hhandle
      obtain rfl := Option.some.inj hhandle
      exact .torn e w₂ fault rfl hstop
    | none =>
      obtain ⟨c, hval, hrel⟩ := hidx.exists_released p w₂.getOffset
      simp only [handleThrow, hstop, hval, afterProcess] at hhandle
      by_cases hstate : w.state = .receivingBody
      · have hread := afterRead_unknown hrel.lookup w₂.getOffset
        simp only [hstate, decide_true, if_true, reportRead, hread] at hhandle
        obtain rfl := Option.some.inj hhandle
        exact .lost e c w₂ rfl hstate hstop hrel hval
      · simp only [hstate, decide_false, Bool.false_eq_true, if_false] at hhandle
        obtain rfl := Option.some.inj hhandle
        exact .caught e c w₂ rfl hstate hstop hrel hval

/-! ## The end of a round -/

/-- The clock decides whether slots are assigned before the next wait, `finished` whether the
loop is left. -/
lemma tick_cases (s : Download) (now : ℤ) : ∃ time lastTime pc,
    s.tick now = { s with time := time, lastTime := lastTime, pc := pc } ∧
      ((∃ fault, s.controller.finished = .error fault ∧ pc = .failed fault) ∨
        (s.controller.finished = .ok true ∧ pc = .done) ∨
        (s.controller.finished = .ok false ∧ (pc = .slot 0 ∨ pc = .wait))) := by
  -- the state in which `finished` is asked
  obtain ⟨lastTime, hprinted⟩ : ∃ lastTime,
      (if now - s.lastTime ≥ 250 then { s with time := now, lastTime := now }
        else { s with time := now }) = { s with time := now, lastTime := lastTime } := by
    split_ifs
    · exact ⟨now, rfl⟩
    · exact ⟨s.lastTime, rfl⟩
  unfold tick
  simp only [hprinted]
  cases hfin : s.controller.finished with
  | error fault => exact ⟨now, lastTime, _, rfl, Or.inl ⟨fault, rfl, rfl⟩⟩
  | ok b =>
    cases b with
    | true => exact ⟨now, lastTime, _, rfl, Or.inr (Or.inl ⟨rfl, rfl⟩)⟩
    | false =>
      refine ⟨now, lastTime, _, rfl, Or.inr (Or.inr ⟨rfl, ?_⟩)⟩
      split_ifs
      · exact Or.inl rfl
      · exact Or.inr rfl

/-! ## The step -/

/-- Which round of the loop a step is. -/
inductive Stepped (s : Download) : Label → Download → Prop
  /-- The pass is over. -/
  | passed (i : ℕ) (choice : SlotChoice) (hpc : s.pc = .slot i) (hslot : s.workers[i]? = none) :
      Stepped s (.slot choice) { s with pc := .wait }
  | visited (i : ℕ) (slot : Option Held) (choice : SlotChoice) (s' : Download)
      (hpc : s.pc = .slot i) (hslot : s.workers[i]? = some slot)
      (hvisit : s.visit i slot choice = some s') : Stepped s (.slot choice) s'
  | waited (events : List (WorkerPtr × EpollEvents)) (hpc : s.pc = .wait)
      (hreportable : s.Reportable events) :
      Stepped s (.wait events) { s with pc := .dispatch events }
  | handled (p : WorkerPtr) (event : EpollEvents) (rest : List (WorkerPtr × EpollEvents))
      (env : Env) (s' : Download) (hpc : s.pc = .dispatch ((p, event) :: rest))
      (hhandle : s.handle rest p event env = some s') : Stepped s (.process env) s'
  | ticked (now : ℤ) (hpc : s.pc = .dispatch []) : Stepped s (.clock now) (s.tick now)

/-- **The inversion of `step`.** -/
lemma step_cases {s s' : Download} {label : Label} (hstep : s.step label = some s') :
    Stepped s label s' := by
  unfold step at hstep
  split at hstep
  · next i choice hpc =>
    split at hstep
    · next hslot =>
      obtain rfl := Option.some.inj hstep
      exact .passed i choice hpc hslot
    · next slot hslot => exact .visited i slot choice s' hpc hslot hstep
  · next events hpc =>
    split_ifs at hstep with hreportable
    obtain rfl := Option.some.inj hstep
    exact .waited events hpc hreportable
  · next p event rest env hpc => exact .handled p event rest env s' hpc hstep
  · next now hpc =>
    obtain rfl := Option.some.inj hstep
    exact .ticked now hpc
  · cases hstep

end Cld.Download
