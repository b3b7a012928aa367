import Cld.Framework.Transition
import Cld.Model.LengthController
import Cld.Model.Worker

/-!
# `MultiConnectionDownload`

The loop of `cld.cpp` as a transition function.  A state is the function's local state with a
program counter, and one step is one round of one of its inner loops:

* `slot i`: the assignment pass looks at `workers[i]`, cleans it if its worker has stopped,
  and asks the controller for work if it is empty;
* `wait`: `EpollWait` fills the event array;
* `dispatch events`: the next event is handled, from `process` to the call of `afterRead`;
  when there is none left, the clock is read, progress is printed, and `finished()` decides.

The label of a step holds the choices of the environment: where the allocator puts a worker or
a node, what the new connection will deliver, which events epoll reports, the answers of the
system during `process`, the reading of the clock (in milliseconds).  A label that does not fit
the program counter, or a choice the system cannot make (an address in use, an event for a
descriptor that is not registered or was not asked for), is refused.

A worker is held by its slot, together with its address.  The controller and the events refer
to workers by address; following an address no slot holds is undefined.
-/

namespace Cld

open Framework

/-- A worker object and its address. -/
structure Held where
  ptr : WorkerPtr
  obj : Worker

/-- Where in the loop the function is. -/
inductive Pc
  | slot (i : ℕ)
  | wait
  /-- These events are still to be handled. -/
  | dispatch (events : List (WorkerPtr × EpollEvents))
  /-- `finished()` returned true and the loop was left. -/
  | done
  /-- The function was left by an exception, or a step was undefined. -/
  | failed (fault : Fault)
  deriving DecidableEq

/-- The arguments that the loop uses. -/
structure Config where
  size : ℤ
  connectionNumber : ℕ
  request : Request

/-- The choices for one slot of the assignment pass. -/
structure SlotChoice where
  /-- Where a new worker is allocated. -/
  ptr : WorkerPtr
  /-- Where a new list node is allocated. -/
  node : NodePtr
  /-- The new connection, or the exception of the worker's constructor. -/
  connection : Except Exn Stream

inductive Label
  | slot (choice : SlotChoice)
  | wait (events : List (WorkerPtr × EpollEvents))
  | process (env : Env)
  | clock (now : ℤ)

structure Download where
  pc : Pc
  workers : List (Option Held)
  controller : LengthController
  req : Request
  file : File
  time : ℤ
  lastTime : ℤ

namespace Download

/-- The state before the loop, for a clock that reads `now`. -/
def init (cfg : Config) (node : NodePtr) (now : ℤ) : Download where
  pc := .slot 0
  workers := List.replicate cfg.connectionNumber none
  controller := LengthController.create cfg.size (128 * 1024) node
  req := cfg.request
  file := fun _ => none
  time := now
  lastTime := now

/-! ## Finding workers -/

/-- The worker that lives at an address. -/
def workerAt (workers : List (Option Held)) (p : WorkerPtr) : Option Worker :=
  workers.findSome? fun slot =>
    match slot with
    | some h => if h.ptr = p then some h.obj else none
    | none => none

def find (s : Download) (p : WorkerPtr) : Option Worker := workerAt s.workers p

/-- Store a worker back. -/
def putWorker (workers : List (Option Held)) (p : WorkerPtr) (w : Worker) :
    List (Option Held) :=
  workers.map fun slot => slot.map fun h => if h.ptr = p then { h with obj := w } else h

def update (s : Download) (p : WorkerPtr) (w : Worker) : Download :=
  { s with workers := putWorker s.workers p w }

/-- The addresses of the workers the slots hold. -/
def pointers (workers : List (Option Held)) : List WorkerPtr :=
  workers.filterMap fun slot => slot.map Held.ptr

/-! ## The assignment pass -/

/-- `if (worker != nullptr && worker->getState() == Worker::State::Stopped)`: release the
worker in the controller and reset the slot. -/
def clean (c : LengthController) (slot : Option Held) :
    Except Fault (LengthController × Option Held) :=
  match slot with
  | none => .ok (c, none)
  | some h =>
    if h.obj.state = .stopped then
      match c.workerStopped h.ptr h.obj.getOffset with
      | .error fault => .error fault
      | .ok c => .ok (c, none)
    else .ok (c, some h)

/-- Create a worker for the range `[begin, end_]` and enter it in the controller. -/
def assignWorker (s : Download) (i : ℕ) (range : ℤ × ℤ) (choice : SlotChoice) :
    Option Download :=
  let req := s.req.set "Range" (rangeValue range.1 range.2)
  let s := { s with req := req }
  match choice.connection with
  | .error e => some { s with pc := .failed (.thrown e) }
  | .ok stream =>
    if choice.ptr ∈ pointers s.workers ∨ choice.node ∈ s.controller.addresses then none
    else
      let worker : Held := ⟨choice.ptr, Worker.create stream req range.1⟩
      let s := { s with workers := s.workers.set i (some worker) }
      match s.controller.add choice.ptr choice.node with
      | .error fault => some { s with pc := .failed fault }
      | .ok c => some { s with controller := c, pc := .slot (i + 1) }

/-- One round of the range-`for` over the slots. -/
def visit (s : Download) (i : ℕ) (slot : Option Held) (choice : SlotChoice) :
    Option Download :=
  match clean s.controller slot with
  | .error fault => some { s with pc := .failed fault }
  | .ok (c, some _) => some { s with controller := c, pc := .slot (i + 1) }
  | .ok (c, none) =>
    let s := { s with controller := c, workers := s.workers.set i none }
    match s.controller.next with
    | .error fault => some { s with pc := .failed fault }
    | .ok (range, c) =>
      let s := { s with controller := c }
      if range.2 - range.1 ≠ 0 then s.assignWorker i range choice
      else some { s with pc := .slot (i + 1) }

/-! ## Events -/

/-- Whether epoll may report these events for a worker. -/
def mayReport (event : EpollEvents) (w : Worker) : Bool :=
  match w.interest with
  | none => false
  | some interest =>
    (!event.epollin || interest.epollin) && (!event.epollout || interest.epollout)

/-- The events epoll may report: of registered workers, each at most once, and only what they
are registered for. -/
def Reportable (s : Download) (events : List (WorkerPtr × EpollEvents)) : Prop :=
  (events.map Prod.fst).Nodup ∧ ∀ e ∈ events, (s.find e.1).any (mayReport e.2) = true

instance (s : Download) (events : List (WorkerPtr × EpollEvents)) :
    Decidable (s.Reportable events) :=
  inferInstanceAs (Decidable (_ ∧ _))

/-- The `catch` block around `process`. -/
def handleThrow (s : Download) (p : WorkerPtr) (w : Worker) (env : Env) :
    Worker × Except Fault LengthController :=
  match w.forceStop env with
  | (w, some fault) => (w, .error fault)
  | (w, none) => (w, s.controller.workerStopped p w.getOffset)

/-- `if (is_receiving_body)`: tell the controller, and stop the worker if it says so. -/
def reportRead (c : LengthController) (p : WorkerPtr) (w : Worker) (env : Env) :
    Worker × LengthController × Option Fault :=
  match c.afterRead p w.getOffset with
  | .error fault => (w, c, some fault)
  | .ok (true, c) => (w, c, none)
  | .ok (false, c) =>
    let (w, fault) := w.forceStop env
    (w, c, fault)

/-- What follows `process` for one event, once it has not left the loop. -/
def afterProcess (s : Download) (rest : List (WorkerPtr × EpollEvents)) (p : WorkerPtr)
    (w : Worker) (c : LengthController) (isReceivingBody : Bool) (env : Env) : Download :=
  if isReceivingBody then
    match reportRead c p w env with
    | (w, c, some fault) => { s.update p w with controller := c, pc := .failed fault }
    | (w, c, none) => { s.update p w with controller := c, pc := .dispatch rest }
  else { s.update p w with controller := c, pc := .dispatch rest }

/-- Handle one event. -/
def handle (s : Download) (rest : List (WorkerPtr × EpollEvents)) (p : WorkerPtr)
    (event : EpollEvents) (env : Env) : Option Download :=
  match s.find p with
  | none => some { s with pc := .failed .undefined }
  | some worker =>
    let isReceivingBody := decide (worker.state = .receivingBody)
    match worker.process s.file event env with
    | (.diverges, _, _) => none
    | (.undefined, w, file) =>
      some { ({ s with file := file }).update p w with pc := .failed .undefined }
    | (.returned _, w, file) =>
      let s := { s with file := file }
      some (s.afterProcess rest p w s.controller isReceivingBody env)
    | (.threw _, w, file) =>
      let s := { s with file := file }
      match s.handleThrow p w env with
      | (w, .error fault) => some { s.update p w with pc := .failed fault }
      | (w, .ok c) => some (s.afterProcess rest p w c isReceivingBody env)

/-! ## The end of a round -/

/-- Read the clock, print, and leave the loop if the controller is finished. -/
def tick (s : Download) (now : ℤ) : Download :=
  let s := { s with time := now }
  let s := if s.time - s.lastTime ≥ 250 then { s with lastTime := s.time } else s
  match s.controller.finished with
  | .error fault => { s with pc := .failed fault }
  | .ok true => { s with pc := .done }
  | .ok false => { s with pc := if s.time = s.lastTime then .slot 0 else .wait }

/-- **One step of the loop.** -/
def step (s : Download) (label : Label) : Option Download :=
  match s.pc, label with
  | .slot i, .slot choice =>
    match s.workers[i]? with
    | none => some { s with pc := .wait }
    | some slot => s.visit i slot choice
  | .wait, .wait events =>
    if s.Reportable events then some { s with pc := .dispatch events } else none
  | .dispatch ((p, event) :: rest), .process env => s.handle rest p event env
  | .dispatch [], .clock now => some (s.tick now)
  | _, _ => none

end Download

end Cld
