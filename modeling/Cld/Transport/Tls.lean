import Cld.Transport.Interrupts

/-!
# Reading and writing over TLS

An `SslStream` too is a `Connection` for the rest of the program: `decrypted` and `granted` are what
it reads and what its writes come to, and `tls_connection` is about every sequence of uses.  `http`
and `https` differ in what there is to read, and in nothing that can be done with it, as long as
each use is about a byte at least: a read of none waits for a record here.
-/

namespace Cld

open Framework

/-- What the program reads from a session. -/
def decrypted : List TlsItem → Inbound
  | [] => []
  | .byte b brk :: rest => .byte b brk :: decrypted rest
  | .closed :: rest => .eof :: decrypted rest
  | .error .none :: rest => .eof :: decrypted rest
  | .error .zeroReturn :: rest => .eof :: decrypted rest
  | .error .wantRead :: rest => .again :: decrypted rest
  | .error .wantWrite :: rest => .again :: decrypted rest
  | .error .other :: rest => .fail (.runtimeError "SSL error") :: decrypted rest

/-- What a session answers to the writes of the program. -/
def granted : List TlsWrite → List SendResult
  | [] => []
  | .accepts n :: rest => .accepts n :: granted rest
  | .error .none :: rest => .accepts 0 :: granted rest
  | .error .zeroReturn :: rest => .accepts 0 :: granted rest
  | .error .wantRead :: rest => .again :: granted rest
  | .error .wantWrite :: rest => .again :: granted rest
  | .error .other :: rest => .threw (.runtimeError "SSL error") :: granted rest

/-- What the program sees of a session. -/
def TlsSession.connection (session : TlsSession) : Connection where
  stream := { inbound := decrypted session.inbound, sent := session.sent }
  results := granted session.writes

lemma tlsRun_decrypted (n : ℕ) (items : List TlsItem) :
    takeRun n (decrypted items) = ((tlsRun n items).1, decrypted (tlsRun n items).2) := by
  induction n generalizing items with
  | zero => rfl
  | succ n ih =>
    cases items with
    | nil => rfl
    | cons item rest =>
      cases item with
      | closed => rfl
      | error err => cases err <;> rfl
      | byte b brk =>
        by_cases hbrk : brk = true
        · simp [takeRun, tlsRun, decrypted, hbrk]
        · simp [takeRun, tlsRun, decrypted, hbrk, ih rest]

namespace SslStream

lemma read_decrypted {n : ℕ} (hn : n ≠ 0) (items : List TlsItem) :
    Inbound.read n (decrypted items) = ((read n items).1, decrypted (read n items).2) := by
  cases items with
  | nil => simp [Inbound.read, read, sslRead, hn, decrypted]
  | cons item rest =>
    cases item with
    | closed => simp [Inbound.read, read, sslRead, hn, decrypted]
    | error err =>
      cases err <;> simp [Inbound.read, read, sslRead, hn, decrypted, SslError.ends]
    | byte b brk =>
      have hrun := tlsRun_decrypted n (.byte b brk :: rest)
      rw [decrypted] at hrun ⊢
      simp only [Inbound.read, read, sslRead, hn, if_false, hrun]

/-- **One use of an `SslStream`.** -/
lemma call_connection (session : TlsSession) {use : StreamCall} (hsized : use.Sized) :
    session.connection.call use = ((call session use).1, (call session use).2.connection) := by
  rcases session with ⟨inbound, writes, sent⟩
  cases use with
  | read size =>
    have hread := read_decrypted hsized.1.ne' inbound
    simp only [Connection.call, call, TlsSession.connection, hread]
  | write data =>
    cases writes with
    | nil => simp [Connection.call, call, write, TlsSession.connection, granted, SendResult.taken]
    | cons answer writes =>
      cases answer with
      | accepts n =>
        simp [Connection.call, call, write, TlsSession.connection, granted, SendResult.taken]
      | error err =>
        cases err <;>
          simp [Connection.call, call, write, TlsSession.connection, granted, SendResult.taken]

def step (session : TlsSession) (use : StreamCall) : Option TlsSession :=
  some (call session use).2

/-- The uses of a stream one after the other, and what they come to. -/
def dialogue (session : TlsSession) (uses : List StreamCall) : List (StreamCall × StreamAnswer) :=
  Transition.shown step (fun session use => some (use, (call session use).1)) session uses

end SslStream

end Cld
