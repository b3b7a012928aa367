import Cld.Model.Basic

/-!
# Streams

The inbound half of a `transport::Stream` is the sequence of what its future reads will meet.
A read of `n` bytes returns the next bytes, at most `n` of them and at least one if any is
there; where it stops short is the environment's choice, marked on the last byte of each
segment.  Between two bytes a non-blocking stream may report `kAgain`, at any place the peer
may close it or break it, and an exhausted sequence is a peer that is silent: the read reports
`kAgain`, and a blocking one never returns.

`TcpStream::read` retries on `EINTR` internally, as the TLS library does, and answers a read of no
bytes at once.  This is assumed of every stream: over TLS such a read reports `kAgain` until a
record is there, so that `SslStream` is a stream as described here for reads of a byte or more
(`SslStream.tls_connection`).

`payload` is the byte stream itself, without its segmentation.
-/

namespace Cld

/-- What a read meets next. -/
inductive Incoming
  /-- A byte; `brk` when the segment ends after it, so that a longer read returns there. -/
  | byte (b : Byte) (brk : Bool)
  /-- The non-blocking stream has nothing yet: `StreamException::kAgain`. -/
  | again
  /-- The peer closed the connection: every later read returns 0. -/
  | eof
  /-- The read throws. -/
  | fail (e : Exn)
  deriving DecidableEq, Repr

/-- The inbound half of a stream. -/
abbrev Inbound := List Incoming

/-- The answer of `stream.read`. -/
inductive ReadResult
  /-- It returned these bytes; none at the end of the stream. -/
  | ok (bs : Bytes)
  | again
  | threw (e : Exn)
  deriving DecidableEq, Repr

/-- The bytes a read of up to `n` bytes returns when the next item is a byte. -/
def takeRun : ℕ → Inbound → Bytes × Inbound
  | 0, items => ([], items)
  | n + 1, .byte b brk :: rest =>
    if brk then ([b], rest) else (b :: (takeRun n rest).1, (takeRun n rest).2)
  | _ + 1, items => ([], items)

/-- `stream.read(buf, n)`. -/
def Inbound.read (n : ℕ) (items : Inbound) : ReadResult × Inbound :=
  if n = 0 then (.ok [], items)
  else
    match items with
    | [] => (.again, [])
    | .again :: rest => (.again, rest)
    | .fail e :: rest => (.threw e, rest)
    | .eof :: rest => (.ok [], .eof :: rest)
    | .byte b brk :: rest =>
      (.ok (takeRun n (.byte b brk :: rest)).1, (takeRun n (.byte b brk :: rest)).2)

/-- The bytes the peer sends before it closes. -/
def payload : Inbound → Bytes
  | [] => []
  | .byte b _ :: rest => b :: payload rest
  | .again :: rest => payload rest
  | .fail _ :: rest => payload rest
  | .eof :: _ => []

/-- A connected stream: what will be read from it, and the bytes it has accepted. -/
structure Stream where
  inbound : Inbound
  sent : Bytes := []

/-! ## What one read does -/

@[simp] lemma payload_nil : payload [] = [] := rfl
@[simp] lemma payload_byte (b : Byte) (brk : Bool) (rest : Inbound) :
    payload (.byte b brk :: rest) = b :: payload rest := rfl
@[simp] lemma payload_again (rest : Inbound) : payload (.again :: rest) = payload rest := rfl
@[simp] lemma payload_fail (e : Exn) (rest : Inbound) :
    payload (.fail e :: rest) = payload rest := rfl
@[simp] lemma payload_eof (rest : Inbound) : payload (.eof :: rest) = [] := rfl

/-- A run of bytes is taken off the front of the payload. -/
lemma takeRun_spec (n : ℕ) (items : Inbound) :
    payload items = (takeRun n items).1 ++ payload (takeRun n items).2 ∧
      (takeRun n items).1.length ≤ n ∧
      (takeRun n items).2.length + (takeRun n items).1.length = items.length := by
  induction n generalizing items with
  | zero => simp [takeRun]
  | succ n ih =>
    match items with
    | .byte b brk :: rest =>
      obtain ⟨hpay, hlen, hsum⟩ := ih rest
      by_cases hbrk : brk = true
      · simp [takeRun, hbrk]
      · refine ⟨?_, ?_, ?_⟩
        · simp [takeRun, hbrk, ← hpay]
        · simpa [takeRun, hbrk] using hlen
        · simp only [takeRun, hbrk, List.length_cons]
          simp only [Bool.false_eq_true, if_false, List.length_cons]
          omega
    | [] => simp [takeRun]
    | .again :: rest => simp [takeRun]
    | .eof :: rest => simp [takeRun]
    | .fail e :: rest => simp [takeRun]

lemma takeRun_ne_nil {n : ℕ} (hn : n ≠ 0) (b : Byte) (brk : Bool) (rest : Inbound) :
    (takeRun n (.byte b brk :: rest)).1 ≠ [] := by
  obtain ⟨m, rfl⟩ := Nat.exists_eq_succ_of_ne_zero hn
  by_cases hbrk : brk = true <;> simp [takeRun, hbrk]

/-- **The specification of a read that returns.**  The bytes it returns are the next ones of
the payload, at most as many as asked for; and if it returns none although some were asked
for, the peer has closed. -/
lemma Inbound.read_ok {n : ℕ} {items items' : Inbound} {bs : Bytes}
    (h : Inbound.read n items = (.ok bs, items')) :
    payload items = bs ++ payload items' ∧ bs.length ≤ n ∧
      items'.length + bs.length = items.length ∧
      (n ≠ 0 → bs = [] → ∃ rest, items = .eof :: rest ∧ items' = items) := by
  by_cases hn : n = 0
  · simp only [read, hn, if_true, Prod.mk.injEq, ReadResult.ok.injEq] at h
    obtain ⟨rfl, rfl⟩ := h
    simp [hn]
  · match items with
    | [] => simp [read, hn] at h
    | .again :: rest => simp [read, hn] at h
    | .fail e :: rest => simp [read, hn] at h
    | .eof :: rest =>
      simp only [read, hn, if_false, Prod.mk.injEq, ReadResult.ok.injEq] at h
      obtain ⟨rfl, rfl⟩ := h
      simp
    | .byte b brk :: rest =>
      simp only [read, hn, if_false, Prod.mk.injEq, ReadResult.ok.injEq] at h
      obtain ⟨rfl, rfl⟩ := h
      obtain ⟨hpay, hlen, hsum⟩ := takeRun_spec n (.byte b brk :: rest)
      exact ⟨hpay, hlen, hsum, fun _ hnil => absurd hnil (takeRun_ne_nil hn b brk rest)⟩

/-- A read that reports `kAgain` or throws takes no byte. -/
lemma Inbound.payload_of_read {n : ℕ} {items items' : Inbound} {r : ReadResult}
    (h : Inbound.read n items = (r, items')) (hr : ∀ bs, r ≠ .ok bs) :
    payload items' = payload items := by
  by_cases hn : n = 0
  · simp only [read, hn, if_true, Prod.mk.injEq] at h
    exact absurd h.1.symm (hr [])
  · match items with
    | [] =>
      simp only [read, hn, if_false, Prod.mk.injEq] at h
      rw [← h.2]
    | .again :: rest =>
      simp only [read, hn, if_false, Prod.mk.injEq] at h
      rw [← h.2, payload_again]
    | .fail e :: rest =>
      simp only [read, hn, if_false, Prod.mk.injEq] at h
      rw [← h.2, payload_fail]
    | .eof :: rest =>
      simp only [read, hn, if_false, Prod.mk.injEq] at h
      exact absurd h.1.symm (hr _)
    | .byte b brk :: rest =>
      simp only [read, hn, if_false, Prod.mk.injEq] at h
      exact absurd h.1.symm (hr _)

/-- A read of one byte returns the next one, whatever the segmentation. -/
@[simp] lemma Inbound.read_one_byte (b : Byte) (brk : Bool) (rest : Inbound) :
    Inbound.read 1 (.byte b brk :: rest) = (.ok [b], rest) := by
  by_cases hbrk : brk = true <;> simp [read, takeRun, hbrk]

end Cld
