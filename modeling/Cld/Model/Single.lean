import Cld.Model.Download

/-!
# `SingleConnectionDownload`

The loop of `cld.cpp` for a resource whose size is not known: one worker, from offset 0, without
a controller.  A step is one round of one of its inner loops, as in `MultiConnectionDownload`;
the differences are these.

* No handler stands around `process`: an exception leaves the function.
* What `process` returns is added to `last_downloaded`, which each progress line reports and
  resets.
* The loop is left once the worker has stopped, before the clock is read.

`reports` are the progress lines so far, the last one first: the bytes since the line before and
the milliseconds these took, of which the line shows the quotient.
-/

namespace Cld

open Framework

/-- Where in the loop the function is. -/
inductive SinglePc
  | wait
  /-- These events of the worker are still to be handled. -/
  | dispatch (events : List EpollEvents)
  /-- The worker has stopped, and the function has returned. -/
  | done
  /-- The function was left by an exception, or a step was undefined. -/
  | failed (fault : Fault)
  deriving DecidableEq

inductive SingleLabel
  | wait (events : List EpollEvents)
  | process (env : Env)
  | clock (now : ℤ)

structure Single where
  pc : SinglePc
  worker : Worker
  file : File
  lastDownloaded : ℕ
  lastTime : ℤ
  reports : List (ℕ × ℤ)

namespace Single

/-- The state before the loop, once the worker has been created. -/
def init (request : Request) (stream : Stream) (now : ℤ) : Single where
  pc := .wait
  worker := Worker.create stream request 0
  file := fun _ => none
  lastDownloaded := 0
  lastTime := now
  reports := []

/-- The events of one `EpollWait`: only one descriptor is registered. -/
def Reportable (s : Single) (events : List EpollEvents) : Prop :=
  events.length ≤ 1 ∧ ∀ event ∈ events, Download.mayReport event s.worker = true

instance (s : Single) (events : List EpollEvents) : Decidable (s.Reportable events) :=
  inferInstanceAs (Decidable (_ ∧ _))

/-- Handle one event. -/
def handle (s : Single) (rest : List EpollEvents) (event : EpollEvents) (env : Env) :
    Option Single :=
  match s.worker.process s.file event env with
  | (.diverges, _, _) => none
  | (.undefined, w, file) => some { s with worker := w, file := file, pc := .failed .undefined }
  | (.threw e, w, file) => some { s with worker := w, file := file, pc := .failed (.thrown e) }
  | (.returned count, w, file) =>
    some { s with
      worker := w
      file := file
      lastDownloaded := s.lastDownloaded + count
      pc := .dispatch rest }

/-- Read the clock, and print a progress line if it is time. -/
def tick (s : Single) (now : ℤ) : Single :=
  if now - s.lastTime ≥ 250 then
    { s with
      reports := (s.lastDownloaded, now - s.lastTime) :: s.reports
      lastTime := now
      lastDownloaded := 0
      pc := .wait }
  else { s with pc := .wait }

/-- **One step of the loop.** -/
def step (s : Single) (label : SingleLabel) : Option Single :=
  match s.pc, label with
  | .wait, .wait events =>
    if s.Reportable events then some { s with pc := .dispatch events } else none
  | .dispatch (event :: rest), .process env => s.handle rest event env
  | .dispatch [], .clock now =>
    if s.worker.state = .stopped then some { s with pc := .done } else some (s.tick now)
  | _, _ => none

/-- `1000 * last_downloaded / …count()`, the bytes for each second, of type `std::size_t`. -/
def speed (report : ℕ × ℤ) : ℤ := (1000 * report.1 % 2 ^ 64 : ℕ) / report.2

end Single

end Cld
