import Cld.Model.HttpBuffer
import Cld.Model.Request

/-!
# Workers

`cld::Worker`: one connection, its request, the state machine `process` drives over it, and
the file it writes to.

`process` is a chain of `if`s through which one call may fall from `Connecting` to
`ReceivingBody`.  Each `if` is a function here (`connecting`, `sending`, `receiving`,
`receivingBody`, `stopping`): it returns the worker, and an `Outcome` when `process` returns or
throws there instead of falling through.

What the environment answers during one call is an `Env`: the outcome of `continueConnect`, of
`stream->write`, of the `epoll_ctl`, `shutdown` and `close` calls, and of the writes to the
file in their order.  What the stream delivers is the stream's own `inbound` sequence, which
lasts over the calls.

The file is the function that maps an offset to the byte last written there, so that the
`lseek` and `write` of the body loop are one update of it.  A `lseek` that fails throws like
the `write` after it and is not distinguished from it.
-/

namespace Cld

/-! ## The environment of one call -/

/-- The epoll event bits `process` tests. -/
structure EpollEvents where
  epollin : Bool := false
  epollout : Bool := false
  deriving DecidableEq, Repr

/-- `stream->continueConnect()`: done, to be continued, or an exception. -/
inductive ConnectResult
  | done
  | again
  | failed
  deriving DecidableEq, Repr

/-- `stream->write(buf, n)`: it accepts up to this many bytes, or throws. -/
inductive SendResult
  | accepts (n : ℕ)
  | again
  | threw (e : Exn)
  deriving DecidableEq, Repr

/-- How many bytes a write with this answer takes, if it is offered as many. -/
def SendResult.taken : SendResult → ℕ
  | .accepts n => n
  | .again => 0
  | .threw _ => 0

/-- `wrapper::LSeek` and `wrapper::Write(file, buf, n)`: all `n` bytes, only the first few, or
an exception. -/
inductive FileWrite
  | all
  | short (count : ℕ)
  | threw
  deriving DecidableEq, Repr

/-- How many of `count` bytes a write takes; `none` when it throws. -/
def FileWrite.written (count : ℕ) : FileWrite → Option ℕ
  | .all => some count
  | .short n => some (min n count)
  | .threw => none

/-- The answers of the system during one call of `process` and the `forceStop` that may follow
it.  A flag is `true` when its system call succeeds. -/
structure Env where
  connect : ConnectResult := .done
  modConnected : Bool := true
  send : SendResult := .accepts 0
  modSent : Bool := true
  /-- The outcomes of the writes to the file; after them, every write is complete. -/
  fileWrites : List FileWrite := []
  del : Bool := true
  shutdown : Bool := true
  close : Bool := true
  forceDel : Bool := true
  forceClose : Bool := true

/-! ## The file -/

/-- What has been written at each offset. -/
abbrev File := ℤ → Option Byte

/-- Write `bs` at `offset`. -/
def File.write (file : File) (offset : ℤ) (bs : Bytes) : File := fun k =>
  if offset ≤ k ∧ k < offset + bs.length then bs[(k - offset).toNat]? else file k

/-! ## Workers -/

inductive WorkerState
  | connecting
  | sending
  | receiving
  | receivingBody
  | stopped
  deriving DecidableEq, Repr

def kBufferSize : ℕ := 1024 * 1024

structure Worker where
  state : WorkerState
  stream : Option Stream
  requestData : Bytes
  requestDataSent : ℕ := 0
  responseData : Bytes := []
  lastChar : Byte := 0
  buffer : Option Buffer := none
  fileOffset : ℤ
  /-- The events the descriptor is registered for in the epoll instance. -/
  interest : Option EpollEvents

/-- How `process` ends. -/
inductive Outcome
  | returned (fileReadCount : ℕ)
  | threw (e : Exn)
  | undefined
  /-- The constructor of the `Response` does not return. -/
  | diverges
  deriving DecidableEq, Repr

namespace Worker

def getOffset (w : Worker) : ℤ := w.fileOffset

/-- The constructor, once `CreateStream` and `EpollControl` have succeeded. -/
def create (stream : Stream) (request : Request) (fileOffset : ℤ) : Worker where
  state := .connecting
  stream := some stream
  requestData := request.request
  fileOffset := fileOffset
  interest := some { epollin := true, epollout := true }

/-- `if (state == State::Connecting)`.  An `epoll_ctl` that fails is caught like a failed
connection. -/
def connecting (w : Worker) (event : EpollEvents) (env : Env) : Worker × Option Outcome :=
  if w.state = .connecting ∧ (event.epollout ∨ event.epollin) then
    match w.stream with
    | none => (w, some .undefined)
    | some _ =>
      match env.connect with
      | .again => ({ w with state := .connecting }, some (.returned 0))
      | .failed => ({ w with state := .stopped }, none)
      | .done =>
        if env.modConnected then
          ({ w with state := .sending, interest := some { epollout := true } }, none)
        else ({ w with state := .stopped }, none)
  else (w, none)

/-- `if (state == State::Sending)`. -/
def sending (w : Worker) (event : EpollEvents) (env : Env) : Worker × Option Outcome :=
  if w.state = .sending ∧ event.epollout then
    match w.stream with
    | none => (w, some .undefined)
    | some stream =>
      match env.send with
      | .again => (w, some (.returned 0))
      | .threw e => (w, some (.threw e))
      | .accepts n =>
        let unsent := w.requestData.drop w.requestDataSent
        let res := min n unsent.length
        let w := { w with
          stream := some { stream with sent := stream.sent ++ unsent.take res }
          requestDataSent := w.requestDataSent + res }
        if w.requestDataSent = w.requestData.length then
          if env.modSent then
            ({ w with state := .receiving, interest := some { epollin := true } }, none)
          else (w, some (.threw .systemError))
        else (w, none)
  else (w, none)

/-- What `process` does with a complete head: construct the `Response`, which appends a NUL to
the bytes, and create the buffer.  A head is complete only behind a LF, which is `last_char`. -/
def enterBody (w : Worker) (stream : Stream) (data : Bytes) (rest : Inbound) :
    Worker × Option Outcome :=
  let w := { w with
    responseData := data ++ [0]
    lastChar := LF
    stream := some { stream with inbound := rest } }
  match Response.parse data with
  | none => (w, some .diverges)
  | some (.error e) => (w, some (.threw e))
  | some (.ok response) =>
    match CreateBuffer response with
    | .error e => (w, some (.threw e))
    | .ok buffer => ({ w with buffer := some buffer, state := .receivingBody }, none)

/-- What the worker keeps of a head that is not complete. -/
def keepHead (w : Worker) (stream : Stream) (data : Bytes) (last : Byte) (rest : Inbound) :
    Worker :=
  { w with
    responseData := data
    lastChar := last
    stream := some { stream with inbound := rest } }

/-- `if (state == State::Receiving)`; the flag is `recieved_once`. -/
def receiving (w : Worker) (event : EpollEvents) : Worker × Option Outcome × Bool :=
  if w.state = .receiving ∧ event.epollin then
    match w.stream with
    | none => (w, some .undefined, false)
    | some stream =>
      match readHead w.responseData w.lastChar stream.inbound with
      | .complete data rest =>
        let (w, outcome) := w.enterBody stream data rest
        (w, outcome, true)
      | .noLf data last rest =>
        (w.keepHead stream data last rest, some (.threw noLfException), false)
      | .again data last rest => (w.keepHead stream data last rest, some (.returned 0), false)
      | .ended data last rest => (w.keepHead stream data last rest, none, false)
      | .threw e data last rest => (w.keepHead stream data last rest, some (.threw e), false)
  else (w, none, false)

/-! ## The body loop -/

/-- How the `do … while (written_to_file != 0)` loop is left. -/
inductive BodyExit
  | again
  | threw (e : Exn)
  /-- `buffer->finished()`. -/
  | finished
  /-- The last write wrote nothing. -/
  | idle
  deriving DecidableEq, Repr

/-- What the loop works on. -/
structure BodyState where
  buffer : Buffer
  inbound : Inbound
  file : File
  fileOffset : ℤ
  fileReadCount : ℕ := 0

end Worker

/-! ### A read of a buffer makes progress

What the termination of the body loop rests on: valid bytes were just taken off the stream. -/

lemma FileWrite.written_le {r : FileWrite} {count n : ℕ} (h : r.written count = some n) :
    n ≤ count := by
  cases r with
  | all => exact (Option.some.inj h).ge
  | short k => exact (Option.some.inj h) ▸ min_le_right k count
  | threw => cases h

lemma Buffer.fill_length {b b' : Buffer} {n : ℕ} {items rest : Inbound}
    {note : ℕ → BufferKind} (h : b.fill n items note = (.ok, b', rest)) :
    rest.length + b'.end_ = items.length := by
  unfold fill at h
  split at h
  · next bs rest' hread =>
    obtain ⟨-, -, hsum, -⟩ := Inbound.read_ok hread
    simp only [Prod.mk.injEq, true_and] at h
    obtain ⟨rfl, rfl⟩ := h
    exact hsum
  · simp at h
  · simp at h

lemma Buffer.readChunkData_end {S : ℕ} {b b' : Buffer} {chunkRemain : ℤ}
    {items rest : Inbound} (h : b.readChunkData S chunkRemain items = (.ok, b', rest)) :
    b'.end_ = 0 := by
  unfold readChunkData at h
  split at h
  · split at h
    · simp only [Prod.mk.injEq, true_and] at h
      rw [← h.1]
    · next hne => exact absurd h (by intro hr; exact hne _ _ hr)
  · simp only [Prod.mk.injEq, true_and] at h
    rw [← h.1]

/-- **`ChunkedBuffer::read` never leaves valid bytes**: its last statement resets `end_`. -/
lemma Buffer.readChunked_end {S : ℕ} {b b' : Buffer} {chunkRemain : ℤ}
    {items rest : Inbound} (h : b.readChunked S chunkRemain items = (.ok, b', rest)) :
    b'.end_ = 0 := by
  unfold readChunked at h
  split at h
  · rcases hhead : readChunkHead chunkRemain items with ⟨outcome, chunkRemain', rest'⟩
    rw [hhead] at h
    cases outcome with
    | ok => exact readChunkData_end h
    | again => simp at h
    | threw e => simp at h
  · exact readChunkData_end h

lemma Buffer.read_length {S : ℕ} {b b' : Buffer} {items rest : Inbound}
    (h : b.read S items = (.ok, b', rest)) (hend : b'.end_ ≠ 0) :
    rest.length < items.length := by
  unfold read at h
  split at h
  · have := fill_length h
    omega
  · have := fill_length h
    omega
  · exact absurd (readChunked_end h) hend

namespace Worker

/-- The body loop. -/
def bodyLoop (S : ℕ) (s : BodyState) (writes : List FileWrite) : BodyState × BodyExit :=
  match _hread : s.buffer.read S s.inbound with
  | (.again, buffer, inbound) => ({ s with buffer := buffer, inbound := inbound }, .again)
  | (.threw e, buffer, inbound) => ({ s with buffer := buffer, inbound := inbound }, .threw e)
  | (.ok, buffer, inbound) =>
    match _hwritten : (writes.head?.getD .all).written buffer.validCount with
    | none => ({ s with buffer := buffer, inbound := inbound }, .threw .systemError)
    | some written =>
      let s' : BodyState :=
        { buffer := buffer
          inbound := inbound
          file := s.file.write s.fileOffset (buffer.data.take written)
          fileOffset := s.fileOffset + written
          fileReadCount := s.fileReadCount + written }
      if buffer.finished then (s', .finished)
      else if _hmore : written ≠ 0 then bodyLoop S s' writes.tail
      else (s', .idle)
termination_by s.inbound.length
decreasing_by
  have hle : written ≤ buffer.end_ := FileWrite.written_le _hwritten
  exact Buffer.read_length _hread (by omega)

/-- `if (state == State::ReceivingBody && !recieved_once)`. -/
def receivingBody (w : Worker) (file : File) (event : EpollEvents) (recievedOnce : Bool)
    (env : Env) : Worker × File × ℕ × Option Outcome :=
  if w.state = .receivingBody ∧ recievedOnce = false ∧ event.epollin then
    match w.stream, w.buffer with
    | some stream, some buffer =>
      let (s, exit) := bodyLoop kBufferSize
        { buffer := buffer, inbound := stream.inbound, file := file, fileOffset := w.fileOffset }
        env.fileWrites
      let w := { w with
        stream := some { stream with inbound := s.inbound }
        buffer := some s.buffer
        fileOffset := s.fileOffset }
      match exit with
      | .again => (w, s.file, s.fileReadCount, some (.returned s.fileReadCount))
      | .threw e => (w, s.file, s.fileReadCount, some (.threw e))
      | .finished => ({ w with state := .stopped }, s.file, s.fileReadCount, none)
      | .idle => (w, s.file, s.fileReadCount, none)
    | _, _ => (w, file, 0, some .undefined)
  else (w, file, 0, none)

/-- `if (state == State::Stopped)` at the end of `process`. -/
def stopping (w : Worker) (env : Env) : Worker × Option Outcome :=
  if w.state = .stopped then
    match w.stream with
    | none => (w, some .undefined)
    | some _ =>
      if env.del then
        if env.shutdown ∧ env.close then
          ({ w with interest := none, buffer := none, stream := none }, none)
        else ({ w with interest := none }, some (.threw .systemError))
      else (w, some (.threw .systemError))
  else (w, none)

/-- `Worker::process(event)`. -/
def process (w : Worker) (file : File) (event : EpollEvents) (env : Env) :
    Outcome × Worker × File :=
  match w.connecting event env with
  | (w, some outcome) => (outcome, w, file)
  | (w, none) =>
    match w.sending event env with
    | (w, some outcome) => (outcome, w, file)
    | (w, none) =>
      match w.receiving event with
      | (w, some outcome, _) => (outcome, w, file)
      | (w, none, recievedOnce) =>
        match w.receivingBody file event recievedOnce env with
        | (w, file, _, some outcome) => (outcome, w, file)
        | (w, file, fileReadCount, none) =>
          match w.stopping env with
          | (w, some outcome) => (outcome, w, file)
          | (w, none) => (.returned fileReadCount, w, file)

/-- `Worker::forceStop()`, with the exception it throws if a system call fails.  `close` of an
`SslStream` writes to the connection (`SSL_shutdown`).  As for every write, it is assumed that the
process outlives the `SIGPIPE` with which the system answers if the peer has reset it: the program
leaves that signal as it is, and what ends the process there is outside the model. -/
def forceStop (w : Worker) (env : Env) : Worker × Option Fault :=
  if w.state ≠ .stopped then
    let w := { w with state := .stopped }
    match w.stream with
    | none => (w, some .undefined)
    | some _ =>
      if env.forceDel then
        if env.forceClose then
          ({ w with interest := none, buffer := none, stream := none }, none)
        else ({ w with interest := none }, some (.thrown .systemError))
      else (w, some (.thrown .systemError))
  else (w, none)

end Worker

end Cld
