import Cld.Framework.Deeds
import Cld.Model.Redirect

/-!
# Addresses

Where the redirect loop and the downloads connect to: `AddressInfo`, which owns a list made by
`getaddrinfo`, and `CreateStream`, which chooses the transport.

`Cld` has one object `address_info` for the whole of the loop.  Each round makes a temporary one for
the current URL and moves it there.  The move assignment takes the pointer of the temporary without
looking at its own, and the destructor of the temporary then finds a null pointer.

`Addressing.step` is a round with its lookup; the rest of it is `Redirection.step`.  The deeds are
the lists made and freed.
-/

namespace Cld

open Framework

/-- `Url::node()`. -/
def Url.node (url : Url) : Bytes := url.host

/-- `Url::service()`. -/
def Url.service (url : Url) : Bytes := if url.port = [] then url.scheme else url.port

/-- The class of a stream. -/
inductive StreamKind
  | tcp
  | ssl
  deriving DecidableEq, Repr

/-- The choice in `transport::CreateStream`. -/
def CreateStream (scheme : Bytes) : Except Exn StreamKind :=
  if scheme = bytes "http" then .ok .tcp
  else if scheme = bytes "https" then .ok .ssl
  else .error (.logicError "Unsupported scheme")

/-- A list of addresses: where it is, and what `getaddrinfo` was asked for. -/
structure AddressList where
  ptr : ℕ
  node : Bytes
  service : Bytes
  deriving DecidableEq, Repr

structure AddressInfo where
  ai : Option AddressList := none

namespace AddressInfo

/-- `AddressInfo(url)`, with what `wrapper::GetAddressInfo` makes of it. -/
def create (url : Url) (lookup : Except Exn ℕ) :
    Except Exn (AddressInfo × List (Deed AddressList)) :=
  match lookup with
  | .error e => .error e
  | .ok ptr =>
    let list : AddressList := { ptr := ptr, node := url.node, service := url.service }
    .ok ({ ai := some list }, [.acquire list])

/-- `operator=(AddressInfo &&other)`: both objects after it. -/
def moveAssign (_this other : AddressInfo) : AddressInfo × AddressInfo :=
  ({ ai := other.ai }, { ai := none })

/-- `~AddressInfo()`. -/
def destroy (this : AddressInfo) : List (Deed AddressList) :=
  match this.ai with
  | some list => [.release list]
  | none => []

end AddressInfo

/-- What the system answers in a round. -/
structure Round where
  lookup : Except Exn ℕ
  contact : Contact

structure Addressing where
  loop : Redirection
  addressInfo : AddressInfo := {}
  deeds : List (Deed AddressList) := []

namespace Addressing

/-- **One round of the loop.** -/
def step (s : Addressing) (round : Round) : Option Addressing :=
  match AddressInfo.create s.loop.url round.lookup with
  | .error e => (s.loop.step (.failed e)).map fun loop => { s with loop := loop }
  | .ok (temporary, made) =>
    let (addressInfo, temporary) := s.addressInfo.moveAssign temporary
    let contact :=
      match CreateStream s.loop.url.scheme with
      | .error e => .failed e
      | .ok _ => round.contact
    (s.loop.step contact).map fun loop =>
      { loop := loop
        addressInfo := addressInfo
        deeds := s.deeds ++ made ++ temporary.destroy }

end Addressing

end Cld
