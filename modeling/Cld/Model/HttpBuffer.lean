import Cld.Model.Response

/-!
# Body buffers

`http::Buffer` and its three implementations.  A buffer is what its `read` last put at the
front of the array (`data`), the position of `end_` in it, and the state of the
implementation.  `validCount` is the distance of `end_` from the front, and `valid` the bytes a
caller may take.  `Buffer.read` is the virtual call, for an array of `S` bytes.

A `read` that throws keeps what it has done so far: the stream has moved on and the state of
the implementation may have changed, but a chunk head that was partly collected lives in a
local string and is gone.
-/

namespace Cld

/-- The implementations of `Buffer`, with their private state. -/
inductive BufferKind
  | noLength (finished : Bool)
  | fixLength (remain : ℕ)
  /-- `-1` asks for the next chunk head. -/
  | chunked (chunkRemain : ℤ)
  deriving DecidableEq, Repr

structure Buffer where
  kind : BufferKind
  data : Bytes := []
  end_ : ℕ := 0
  deriving DecidableEq, Repr

/-- How a `read` of a buffer ends. -/
inductive ReadOutcome
  | ok
  | again
  | threw (e : Exn)
  deriving DecidableEq, Repr

namespace Buffer

def validCount (b : Buffer) : ℕ := b.end_

/-- The bytes between the front of the array and `end_`. -/
def valid (b : Buffer) : Bytes := b.data.take b.end_

def finished (b : Buffer) : Bool :=
  match b.kind with
  | .noLength finished => finished
  | .fixLength remain => remain == 0
  | .chunked chunkRemain => chunkRemain == 0

/-- A read of the stream into the array that sets `end_` behind what it returned; the
implementation takes note of the count. -/
def fill (b : Buffer) (n : ℕ) (items : Inbound) (note : ℕ → BufferKind) :
    ReadOutcome × Buffer × Inbound :=
  match items.read n with
  | (.ok bs, rest) => (.ok, { kind := note bs.length, data := bs, end_ := bs.length }, rest)
  | (.again, rest) => (.again, b, rest)
  | (.threw e, rest) => (.threw e, b, rest)

/-- `NoLengthBuffer::read`. -/
def readNoLength (S : ℕ) (b : Buffer) (finished : Bool) (items : Inbound) :
    ReadOutcome × Buffer × Inbound :=
  b.fill S items fun count => .noLength (finished || count == 0)

/-- `FixLengthBuffer::read`. -/
def readFixLength (S : ℕ) (b : Buffer) (remain : ℕ) (items : Inbound) :
    ReadOutcome × Buffer × Inbound :=
  b.fill (min remain S) items fun count => .fixLength (remain - count)

/-- How the collection of a chunk head ends: with the head, or as a read of the stream does. -/
inductive HeadLine
  | line (head : Bytes)
  | again
  | threw (e : Exn)
  deriving DecidableEq

def chunkError : Exn := .runtimeError "Chunk error"

/-- The loop that collects a chunk head, up to a CR or the end of the stream. -/
def collectHead (head : Bytes) : Inbound → HeadLine × Inbound
  | [] => (.again, [])
  | .again :: rest => (.again, rest)
  | .fail e :: rest => (.threw e, rest)
  | .eof :: rest => (.line head, .eof :: rest)
  | .byte c _ :: rest =>
    if head ≠ [] ∧ c = CR then (.line head, rest)
    else if isBlank c then
      if head = [] then collectHead head rest else (.threw chunkError, rest)
    else collectHead (head ++ [c]) rest

/-- Read a chunk head with its LF and extract the chunk size. -/
def readChunkHead (chunkRemain : ℤ) (items : Inbound) : ReadOutcome × ℤ × Inbound :=
  match collectHead [] items with
  | (.again, rest) => (.again, chunkRemain, rest)
  | (.threw e, rest) => (.threw e, chunkRemain, rest)
  | (.line head, rest) =>
    match rest.read 1 with
    | (.again, rest) => (.again, chunkRemain, rest)
    | (.threw e, rest) => (.threw e, chunkRemain, rest)
    | (.ok bs, rest) =>
      if bs = [LF] then (.ok, extractLongLong 16 chunkRemain head, rest)
      else (.threw chunkError, chunkRemain, rest)

/-- The second half of `ChunkedBuffer::read`: read chunk data if there is any, and reset
`end_`, which the last statement does on every path. -/
def readChunkData (S : ℕ) (b : Buffer) (chunkRemain : ℤ) (items : Inbound) :
    ReadOutcome × Buffer × Inbound :=
  if 0 < chunkRemain then
    match b.fill (min chunkRemain.toNat S) items fun count =>
        .chunked (if chunkRemain - count = 0 then -1 else chunkRemain - count) with
    | (.ok, b, rest) => (.ok, { b with end_ := 0 }, rest)
    | r => r
  else (.ok, { b with end_ := 0 }, items)

/-- `ChunkedBuffer::read`. -/
def readChunked (S : ℕ) (b : Buffer) (chunkRemain : ℤ) (items : Inbound) :
    ReadOutcome × Buffer × Inbound :=
  if chunkRemain = -1 then
    match readChunkHead chunkRemain items with
    | (.ok, chunkRemain, rest) =>
      readChunkData S { b with kind := .chunked chunkRemain } chunkRemain rest
    | (r, _, rest) => (r, b, rest)
  else readChunkData S b chunkRemain items

/-- `buffer->read(stream)`. -/
def read (S : ℕ) (b : Buffer) (items : Inbound) : ReadOutcome × Buffer × Inbound :=
  match b.kind with
  | .noLength finished => readNoLength S b finished items
  | .fixLength remain => readFixLength S b remain items
  | .chunked chunkRemain => readChunked S b chunkRemain items

end Buffer

/-- `http::CreateBuffer`. -/
def CreateBuffer (response : Response) : Except Exn Buffer :=
  if response.get "Transfer-Encoding" = bytes "chunked" then
    .ok { kind := .chunked (-1) }
  else if response.get "Connection" = bytes "keep-alive" then
    match extractSize (response.get "Content-Length") with
    | some length => .ok { kind := .fixLength length }
    | none => .error (.runtimeError "Failed to get content length")
  else .ok { kind := .noLength false }

end Cld
