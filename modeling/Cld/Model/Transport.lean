import Cld.Framework.Deeds
import Cld.Model.Worker

/-!
# Connecting

The constructors `TcpStream(address, blocking)` and `SslStream(address, blocking)`, which try the
addresses of the list one after the other until one of them works.

Neither constructor sets `fd`, and that of `SslStream` does not set `ctx`, so that the members have
some value when `connect` begins.  The handler of a failed attempt closes what the members hold.
`fd` is an integer, with `-1` for no descriptor; the pointer `ctx` is `none` when it is null, and
of `ssl` only matters whether it is null.

What the system and the TLS library answer for one address is an `Attempt`.  Beside the members,
`connect` returns its deeds, the descriptors and contexts it opens and closes, and `false` if an
exception leaves it, which only `wrapper::Close` in a handler can throw.  A call of `close` counts
as a deed whether it succeeds or not.
-/

namespace Cld

open Framework

/-- What is opened and has to be closed. -/
inductive Resource
  | socket (fd : ℤ)
  | context (ctx : ℕ)
  deriving DecidableEq, Repr

/-- The answers for one address.  A flag is `true` when its call succeeds. -/
structure Attempt where
  /-- `wrapper::Socket`: the new descriptor, or an exception. -/
  socket : Option ℕ
  getFlags : Bool := true
  setFlags : Bool := true
  /-- `::connect`, which may also be in progress. -/
  connect : Bool := true
  /-- `wrapper::Close` in the handler. -/
  close : Bool := true

/-- The answers for one address, with those of the TLS library. -/
structure TlsAttempt extends Attempt where
  method : Bool := true
  /-- `SSL_CTX_new`: the new context, or a null pointer. -/
  newContext : Option ℕ := none
  newSsl : Bool := true
  /-- `SSL_connect`. -/
  handshake : ConnectResult := .done

/-- The calls before the handshake: `fcntl`, if the descriptor shall not block, and `::connect`. -/
def Attempt.reaches (a : Attempt) (blocking : Bool) : Bool :=
  (blocking || (a.getFlags && a.setFlags)) && a.connect

/-- The loop over the addresses.  `attempt` is the `try` block, and says whether it gets to its
`break`; `recover` is the handler, and says whether it gets to its `continue`. -/
def connectLoop {σ α : Type} (attempt recover : σ → α → σ × List (Deed Resource) × Bool) (s : σ) :
    List α → σ × List (Deed Resource) × Bool
  | [] => (s, [], true)
  | a :: address =>
    match attempt s a with
    | (s, opened, true) => (s, opened, true)
    | (s, opened, false) =>
      match recover s a with
      | (s, closed, false) => (s, opened ++ closed, false)
      | (s, closed, true) =>
        let (s, deeds, returned) := connectLoop attempt recover s address
        (s, opened ++ closed ++ deeds, returned)

/-! ## `TcpStream` -/

structure TcpStream where
  fd : ℤ

namespace TcpStream

/-- The `try` block. -/
def attempt (blocking : Bool) (s : TcpStream) (a : Attempt) :
    TcpStream × List (Deed Resource) × Bool :=
  match a.socket with
  | none => (s, [], false)
  | some fd => ({ fd := fd }, [.acquire (.socket fd)], a.reaches blocking)

/-- The handler. -/
def recover (s : TcpStream) (a : Attempt) : TcpStream × List (Deed Resource) × Bool :=
  if s.fd ≠ -1 then
    if a.close then ({ fd := -1 }, [.release (.socket s.fd)], true)
    else (s, [.release (.socket s.fd)], false)
  else (s, [], true)

def connect (s : TcpStream) (address : List Attempt) (blocking : Bool) :
    TcpStream × List (Deed Resource) × Bool :=
  connectLoop (attempt blocking) recover s address

/-- The constructor, in memory where `fd` has this value. -/
def create (fd : ℤ) (address : List Attempt) (blocking : Bool) :
    TcpStream × List (Deed Resource) × Bool :=
  connect { fd := fd } address blocking

end TcpStream

/-! ## `SslStream` -/

structure SslStream where
  connected : Bool
  ctx : Option ℕ
  /-- Whether `ssl` is not null. -/
  ssl : Bool
  fd : ℤ

namespace SslStream

/-- The rest of `continueConnect`, from `SSL_connect` on. -/
def handshake (s : SslStream) (a : TlsAttempt) : SslStream × ConnectResult :=
  match a.handshake with
  | .done => ({ s with connected := true }, .done)
  | .again => (s, .again)
  | .failed => (s, .failed)

/-- `continueConnect()`. -/
def continueConnect (s : SslStream) (a : TlsAttempt) :
    SslStream × List (Deed Resource) × ConnectResult :=
  if s.connected then (s, [], .done)
  else if s.ssl then ((s.handshake a).1, [], (s.handshake a).2)
  else if a.method then
    match a.newContext with
    | none => ({ s with ctx := none }, [], .failed)
    | some ctx =>
      let s := { s with ctx := some ctx }
      if a.newSsl then
        let s := { s with ssl := true }
        ((s.handshake a).1, [.acquire (.context ctx)], (s.handshake a).2)
      else (s, [.acquire (.context ctx)], .failed)
  else (s, [], .failed)

/-- The `try` block. -/
def attempt (blocking : Bool) (s : SslStream) (a : TlsAttempt) :
    SslStream × List (Deed Resource) × Bool :=
  match a.socket with
  | none => (s, [], false)
  | some fd =>
    let s := { s with fd := fd }
    if a.reaches blocking then
      if blocking then
        match s.continueConnect a with
        | (s, deeds, .failed) => (s, .acquire (.socket fd) :: deeds, false)
        | (s, deeds, .done) => (s, .acquire (.socket fd) :: deeds, true)
        | (s, deeds, .again) => (s, .acquire (.socket fd) :: deeds, true)
      else (s, [.acquire (.socket fd)], true)
    else (s, [.acquire (.socket fd)], false)

/-- `close()`, which is the handler. -/
def close (s : SslStream) (a : TlsAttempt) : SslStream × List (Deed Resource) × Bool :=
  let freed := s.ctx.toList.map fun ctx => .release (.context ctx)
  let s := { s with ssl := false, ctx := none }
  if s.fd ≠ -1 then
    if a.close then ({ s with fd := -1 }, freed ++ [.release (.socket s.fd)], true)
    else (s, freed ++ [.release (.socket s.fd)], false)
  else (s, freed, true)

def connect (s : SslStream) (address : List TlsAttempt) (blocking : Bool) :
    SslStream × List (Deed Resource) × Bool :=
  connectLoop (attempt blocking) close s address

/-- The constructor, in memory where `fd` and `ctx` have these values. -/
def create (fd : ℤ) (ctx : Option ℕ) (address : List TlsAttempt) (blocking : Bool) :
    SslStream × List (Deed Resource) × Bool :=
  connect { connected := false, ctx := ctx, ssl := false, fd := fd } address blocking

end SslStream

end Cld
