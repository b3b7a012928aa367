import Cld.Model.Transport

/-!
# Reading and writing

`read` and `write` of `TcpStream` and of `SslStream`, and the calls that they make.

A socket is what its future `::read`s will meet, and what it answers to its future `::write`s: the
bytes and the end of the stream as in `Inbound`, and beside them the `errno` of a call that fails.
`EINTR` may come before any byte, also in the middle of a segment; a read that has already taken
bytes then returns those.  A socket that has nothing left does not block, and reports `EAGAIN`.

A `TlsSession` is the same for `SSL_read` and `SSL_write`, whose sizes are of type `int`; what they
do with 2³¹ bytes or more is left out (`StreamCall.Sized`).  The library deals with signals itself.
Once a session has ended, with the return value 0 or with an error that says so, every later read
meets the end again.

`Connection` is what the rest of the program sees of a stream.
-/

namespace Cld

/-! ## The system -/

/-- What a `::read` meets next. -/
inductive SocketItem
  /-- A byte; `brk` when the segment ends after it. -/
  | byte (b : Byte) (brk : Bool)
  | eof
  /-- `EINTR` -/
  | interrupted
  /-- `EAGAIN` or `EWOULDBLOCK` -/
  | wouldBlock
  /-- Any other `errno`. -/
  | failed
  deriving DecidableEq, Repr

/-- What the next `::write` answers: how many bytes it takes at most, or -1 and `errno`. -/
inductive SocketWrite
  | accepts (n : ℕ)
  | interrupted
  | wouldBlock
  | failed
  deriving DecidableEq, Repr

structure Socket where
  inbound : List SocketItem
  writes : List SocketWrite
  sent : Bytes := []
  deriving DecidableEq, Repr

/-- The answer of `::read`. -/
inductive SysRead
  | count (bs : Bytes)
  | interrupted
  | wouldBlock
  | failed
  deriving DecidableEq, Repr

/-- The bytes in front, up to `n` of them. -/
def socketRun : ℕ → List SocketItem → Bytes × List SocketItem
  | 0, items => ([], items)
  | n + 1, .byte b brk :: rest =>
    if brk then ([b], rest) else (b :: (socketRun n rest).1, (socketRun n rest).2)
  | _ + 1, items => ([], items)

/-- `::read(fd, buf, n)`. -/
def sysRead (n : ℕ) (items : List SocketItem) : SysRead × List SocketItem :=
  if n = 0 then (.count [], items)
  else
    match items with
    | [] => (.wouldBlock, [])
    | .wouldBlock :: rest => (.wouldBlock, rest)
    | .interrupted :: rest => (.interrupted, rest)
    | .failed :: rest => (.failed, rest)
    | .eof :: rest => (.count [], .eof :: rest)
    | .byte b brk :: rest =>
      (.count (socketRun n (.byte b brk :: rest)).1, (socketRun n (.byte b brk :: rest)).2)

lemma sysRead_interrupted {n : ℕ} {items rest : List SocketItem}
    (h : sysRead n items = (.interrupted, rest)) : n ≠ 0 ∧ items = .interrupted :: rest := by
  unfold sysRead at h
  split_ifs at h with hn
  · cases h
  · split at h <;> cases h
    exact ⟨hn, rfl⟩

lemma length_socketRun (n : ℕ) (items : List SocketItem) :
    (socketRun n items).2.length + (socketRun n items).1.length = items.length := by
  induction n generalizing items with
  | zero => rfl
  | succ n ih =>
    cases items with
    | nil => rfl
    | cons item rest =>
      cases item with
      | byte b brk =>
        by_cases hbrk : brk = true
        · simp [socketRun, hbrk]
        · have hrest := ih rest
          simp only [socketRun, hbrk, Bool.false_eq_true, if_false, List.length_cons]
          omega
      | eof => rfl
      | interrupted => rfl
      | wouldBlock => rfl
      | failed => rfl

lemma sysRead_count {n : ℕ} {items rest : List SocketItem} {bs : Bytes}
    (h : sysRead n items = (.count bs, rest)) : rest.length + bs.length = items.length := by
  unfold sysRead at h
  split_ifs at h
  · cases h
    rfl
  · split at h <;> cases h
    · rfl
    · exact length_socketRun _ _

/-! ## The stream -/

/-- A use of a stream. -/
inductive StreamCall
  | read (size : ℕ)
  | write (data : Bytes)
  deriving DecidableEq, Repr

/-- It is about a byte at least, and about no more than fit an `int`. -/
def StreamCall.Sized : StreamCall → Prop
  | .read size => 0 < size ∧ size < 2 ^ 31
  | .write data => 0 < data.length ∧ data.length < 2 ^ 31

instance : DecidablePred StreamCall.Sized
  | .read _ => inferInstanceAs (Decidable (_ ∧ _))
  | .write _ => inferInstanceAs (Decidable (_ ∧ _))

/-- What it comes to. -/
inductive StreamAnswer
  | read (r : ReadResult)
  | write (r : SendResult)
  deriving DecidableEq, Repr

namespace TcpStream

/-- `while (true)` around `::read`. -/
def readLoop (n : ℕ) (items : List SocketItem) : ReadResult × List SocketItem :=
  match _h : sysRead n items with
  | (.interrupted, rest) => readLoop n rest
  | (.wouldBlock, rest) => (.again, rest)
  | (.failed, rest) => (.threw .systemError, rest)
  | (.count bs, rest) => (.ok bs, rest)
termination_by items.length
decreasing_by
  rw [(sysRead_interrupted _h).2]
  exact Nat.lt_succ_self _

/-- `read(buf, size)`. -/
def read (s : TcpStream) (size : ℕ) (items : List SocketItem) : ReadResult × List SocketItem :=
  if s.fd = -1 then (.threw (.runtimeError "Read from closed stream"), items)
  else readLoop size items

/-- `while (true)` around `::write`. -/
def writeLoop (data : Bytes) : List SocketWrite → SendResult × List SocketWrite
  | [] => (.again, [])
  | .interrupted :: rest => writeLoop data rest
  | .wouldBlock :: rest => (.again, rest)
  | .failed :: rest => (.threw .systemError, rest)
  | .accepts n :: rest => (.accepts (min n data.length), rest)

/-- `write(buf, size)`. -/
def write (s : TcpStream) (data : Bytes) (writes : List SocketWrite) :
    SendResult × List SocketWrite :=
  if s.fd = -1 then (.threw (.runtimeError "Read from closed stream"), writes)
  else writeLoop data writes

/-- One use of the stream. -/
def call (s : TcpStream) (socket : Socket) : StreamCall → StreamAnswer × Socket
  | .read size =>
    (.read (s.read size socket.inbound).1,
      { socket with inbound := (s.read size socket.inbound).2 })
  | .write data =>
    (.write (s.write data socket.writes).1,
      { socket with
        writes := (s.write data socket.writes).2
        sent := socket.sent ++ data.take (s.write data socket.writes).1.taken })

end TcpStream

/-! ## TLS -/

/-- `SSL_get_error` after a negative return value. -/
inductive SslError
  | none
  | zeroReturn
  | wantRead
  | wantWrite
  | other
  deriving DecidableEq, Repr

/-- `SSL_ERROR_NONE` and `SSL_ERROR_ZERO_RETURN`, which the stream takes for the end. -/
def SslError.ends : SslError → Bool
  | .none => true
  | .zeroReturn => true
  | _ => false

/-- What an `SSL_read` meets next. -/
inductive TlsItem
  /-- A byte; `brk` when the record ends after it. -/
  | byte (b : Byte) (brk : Bool)
  /-- 0. -/
  | closed
  | error (err : SslError)
  deriving DecidableEq, Repr

/-- What the next `SSL_write` answers: how many bytes it takes at most, or a negative number. -/
inductive TlsWrite
  | accepts (n : ℕ)
  | error (err : SslError)
  deriving DecidableEq, Repr

structure TlsSession where
  inbound : List TlsItem
  writes : List TlsWrite
  sent : Bytes := []
  deriving DecidableEq, Repr

/-- The bytes in front, up to `n` of them. -/
def tlsRun : ℕ → List TlsItem → Bytes × List TlsItem
  | 0, items => ([], items)
  | n + 1, .byte b brk :: rest =>
    if brk then ([b], rest) else (b :: (tlsRun n rest).1, (tlsRun n rest).2)
  | _ + 1, items => ([], items)

/-- `SSL_read(ssl, buf, n)`: the bytes, or the error.  A read of no bytes too waits for a record. -/
def sslRead (n : ℕ) : List TlsItem → Except SslError Bytes × List TlsItem
  | [] => (.error .wantRead, [])
  | .closed :: rest => (.ok [], .closed :: rest)
  | .error err :: rest => (.error err, if err.ends then .error err :: rest else rest)
  | .byte b brk :: rest =>
    (.ok (tlsRun n (.byte b brk :: rest)).1, (tlsRun n (.byte b brk :: rest)).2)

namespace SslStream

/-- `read(buf, size)`: every branch of the loop leaves it. -/
def read (size : ℕ) (items : List TlsItem) : ReadResult × List TlsItem :=
  match sslRead size items with
  | (.ok bs, rest) => (.ok bs, rest)
  | (.error .none, rest) => (.ok [], rest)
  | (.error .zeroReturn, rest) => (.ok [], rest)
  | (.error .wantRead, rest) => (.again, rest)
  | (.error .wantWrite, rest) => (.again, rest)
  | (.error .other, rest) => (.threw (.runtimeError "SSL error"), rest)

/-- `write(buf, size)`. -/
def write (data : Bytes) : List TlsWrite → SendResult × List TlsWrite
  | [] => (.again, [])
  | .accepts n :: rest => (.accepts (min n data.length), rest)
  | .error .none :: rest => (.accepts 0, rest)
  | .error .zeroReturn :: rest => (.accepts 0, rest)
  | .error .wantRead :: rest => (.again, rest)
  | .error .wantWrite :: rest => (.again, rest)
  | .error .other :: rest => (.threw (.runtimeError "SSL error"), rest)

/-- One use of the stream. -/
def call (session : TlsSession) : StreamCall → StreamAnswer × TlsSession
  | .read size =>
    (.read (read size session.inbound).1,
      { session with inbound := (read size session.inbound).2 })
  | .write data =>
    (.write (write data session.writes).1,
      { session with
        writes := (write data session.writes).2
        sent := session.sent ++ data.take (write data session.writes).1.taken })

end SslStream

/-! ## What the program sees -/

/-- A stream, and what it will answer to writes. -/
structure Connection where
  stream : Stream
  results : List SendResult

namespace Connection

/-- One use of the stream. -/
def call (c : Connection) : StreamCall → StreamAnswer × Connection
  | .read size =>
    (.read (c.stream.inbound.read size).1,
      { c with stream := { c.stream with inbound := (c.stream.inbound.read size).2 } })
  | .write data =>
    match c.results with
    | [] => (.write .again, c)
    | .accepts n :: results =>
      (.write (.accepts (min n data.length)),
        { stream := { c.stream with sent := c.stream.sent ++ data.take (min n data.length) }
          results := results })
    | r :: results => (.write r, { c with results := results })

end Connection

end Cld
