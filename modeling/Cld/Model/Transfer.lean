import Cld.Model.Socket

/-!
# `ReadN` and `WriteN`

The two loops of `wrapper.cpp` that move a given number of bytes over a descriptor.

When `ReadN` throws, its caller's buffer has been filled in part, and when `WriteN` does, some bytes
have been sent; neither says how many.
-/

namespace Cld

/-- What a call of `ReadN` comes to: the buffer as far as it has been filled. -/
inductive CountRead
  | returned (value : ℕ) (buf : Bytes) (unread : List SocketItem)
  /-- `std::system_error`. -/
  | threw (buf : Bytes) (unread : List SocketItem)
  deriving DecidableEq, Repr

/-- `while (left > 0)`, and the `return` behind it. -/
def readNLoop (count left : ℕ) (buf : Bytes) (items : List SocketItem) : CountRead :=
  if left > 0 then
    match _h : sysRead left items with
    | (.interrupted, rest) => readNLoop count left buf rest
    | (.wouldBlock, rest) => .threw buf rest
    | (.failed, rest) => .threw buf rest
    | (.count bs, rest) =>
      if _hbs : bs.length = 0 then .returned (count - left) buf rest
      else readNLoop count (left - bs.length) (buf ++ bs) rest
  else .returned (count - left) buf items
termination_by items.length
decreasing_by
  · rw [(sysRead_interrupted _h).2]
    exact Nat.lt_succ_self _
  · have hlength := sysRead_count _h
    omega

/-- `wrapper::ReadN`. -/
def ReadN (count : ℕ) (items : List SocketItem) : CountRead := readNLoop count count [] items

/-- What a call of `WriteN` comes to: what has been sent. -/
inductive CountWrite
  | returned (sent : Bytes) (unused : List SocketWrite)
  /-- `std::system_error`. -/
  | threw (sent : Bytes) (unused : List SocketWrite)
  deriving DecidableEq, Repr

/-- `while (left > 0)`.  A `::write` that takes nothing is an error. -/
def writeNLoop (sent unsent : Bytes) (writes : List SocketWrite) : CountWrite :=
  if unsent.length > 0 then
    match writes with
    | [] => .threw sent []
    | .interrupted :: writes => writeNLoop sent unsent writes
    | .wouldBlock :: writes => .threw sent writes
    | .failed :: writes => .threw sent writes
    | .accepts n :: writes =>
      let written := min n unsent.length
      if written = 0 then .threw sent writes
      else writeNLoop (sent ++ unsent.take written) (unsent.drop written) writes
  else .returned sent writes
termination_by structural writes

/-- `wrapper::WriteN`. -/
def WriteN (data : Bytes) (writes : List SocketWrite) : CountWrite := writeNLoop [] data writes

end Cld
