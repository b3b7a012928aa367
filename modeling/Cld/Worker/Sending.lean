import Mathlib.Data.List.TakeDrop
import Cld.Worker.Process

/-!
# Sending the request

The request goes out through two loops.  A worker spreads it over its calls of `process`, as the
descriptor becomes writable; `http::WriteRequest`, which the redirect loop uses, writes to a
blocking stream until nothing is left.

* `Outgoing` is the invariant of the first: what the stream has accepted is a prefix of the
  request, `request_data_sent` is its length, and the state says whether it is all of it.
* `Accepted` is what comes of the second: how much is sent, and whether it returns, follows from
  the answers of the stream.

A worker counts the bytes before it registers for the answer.  If that `epoll_ctl` fails it is in
`Sending` with nothing left to send, which is the one exception.
-/

namespace Cld

/-! ## The blocking sender -/

/-- How far `WriteRequest` has come. -/
inductive WriteOutcome
  | returned
  /-- A `StreamException::kAgain` leaves it. -/
  | again
  | threw (e : Exn)
  /-- The stream has not answered the next write. -/
  | running
  deriving DecidableEq, Repr

/-- How many bytes the stream would take, up to the first write that throws. -/
def accepts : List SendResult → ℕ
  | .accepts n :: results => n + accepts results
  | _ => 0

/-- What `WriteRequest` has sent of `data`. -/
structure Accepted (data : Bytes) (results : List SendResult) (sent : Bytes)
    (outcome : WriteOutcome) : Prop where
  /-- Every byte that the stream takes, in their order. -/
  taken : sent = data.take (accepts results)
  /-- It returns when everything has been accepted, and not before. -/
  returned : outcome = .returned ↔ sent = data
  /-- It does return if the stream takes everything. -/
  returns : outcome = .returned ↔ data.length ≤ accepts results

/-- One write appends what it accepts. -/
lemma take_append_accepted (data : Bytes) (written n : ℕ) :
    data.take written ++ (data.drop written).take (min n (data.drop written).length) =
      data.take (written + min n (data.drop written).length) :=
  (List.take_add).symm

namespace Worker

/-- The calls of `process` one after the other, whatever each of them ends with. -/
def processAll (w : Worker) (file : File) : List (EpollEvents × Env) → Worker × File
  | [] => (w, file)
  | call :: calls =>
    processAll (w.process file call.1 call.2).2.1 (w.process file call.1 call.2).2.2 calls

/-- What a worker has sent of `data`; `refused` when the `epoll_ctl` after the last byte may have
failed. -/
structure Outgoing (data : Bytes) (refused : Prop) (w : Worker) : Prop where
  requestData : w.requestData = data
  accepted : ∀ s ∈ w.stream, s.sent = data.take w.requestDataSent
  bound : w.requestDataSent ≤ data.length
  connecting : w.state = .connecting → w.requestDataSent = 0
  sending : w.state = .sending → w.requestDataSent < data.length ∨ refused
  receiving : w.state = .receiving ∨ w.state = .receivingBody → w.requestDataSent = data.length
  /-- A worker is not stopped halfway. -/
  stopped : w.state = .stopped → w.requestDataSent = 0 ∨ w.requestDataSent = data.length

variable {data : Bytes} {refused : Prop} {w w' : Worker} {event : EpollEvents} {env : Env}
  {o : Option Outcome}

lemma Outgoing.mono {refused' : Prop} (h : w.Outgoing data refused) (himp : refused → refused') :
    w.Outgoing data refused' :=
  { h with sending := fun hstate => (h.sending hstate).imp_right himp }

/-- **One write** appends what it accepts. -/
lemma Outgoing.wroteRequest (h : w.Outgoing data refused) {stream : Stream}
    (hstream : w.stream = some stream) (n : ℕ) :
    (∀ s ∈ (w.wroteRequest stream n).stream,
      s.sent = data.take (w.wroteRequest stream n).requestDataSent) ∧
      (w.wroteRequest stream n).requestDataSent ≤ data.length := by
  have hsent : stream.sent = data.take w.requestDataSent := h.accepted stream hstream
  have hbound := h.bound
  simp only [Worker.wroteRequest, h.requestData]
  constructor
  · intro s hs
    obtain rfl := Option.mem_some_iff.1 hs
    exact hsent ▸ take_append_accepted data w.requestDataSent n
  · rw [List.length_drop]
    omega

/-- What is received does not touch what has been sent. -/
lemma Outgoing.received (h : w.Outgoing data refused)
    (hreceives : w.state = .receiving ∨ w.state = .receivingBody)
    (hdata : w'.requestData = w.requestData) (hcount : w'.requestDataSent = w.requestDataSent)
    (hsent : ∀ s' ∈ w'.stream, ∃ s ∈ w.stream, s'.sent = s.sent)
    (hstate : w'.state ≠ .connecting ∧ w'.state ≠ .sending) : w'.Outgoing data refused where
  requestData := hdata.trans h.requestData
  accepted s' hs' := by
    obtain ⟨s, hs, heq⟩ := hsent s' hs'
    rw [heq, hcount]
    exact h.accepted s hs
  bound := hcount ▸ h.bound
  connecting hconnecting := absurd hconnecting hstate.1
  sending hsending := absurd hsending hstate.2
  receiving _ := hcount.trans (h.receiving hreceives)
  stopped _ := Or.inr (hcount.trans (h.receiving hreceives))

end Worker

end Cld
