import Mathlib.Data.List.AList
import Mathlib.Data.List.Sort
import Cld.Model.Basic

/-!
# The length controller

`LengthController` keeps the parts of the file that are still to be fetched, in a
`std::list<Fragment>`, and a `std::map` from workers to pointers into that list.

The list nodes have addresses, which sorting keeps and which the map stores, so that a
dangling pointer is visible as an address that no node has; following it is undefined.  A new
node lives at an address the allocator chooses, any one that no node of the list occupies.
`std::list::sort` is stable, as `insertionSort` is, and `std::list::remove(v)` deletes every
node whose value equals `v`.

A `const Worker *` is an address too.  The offset of the worker it points to, which
`afterRead` and `workerStopped` read through the pointer, is an argument.
-/

namespace Cld

/-- The address of a `Worker`. -/
abbrev WorkerPtr := ℕ

/-- The address of a node of the fragment list. -/
abbrev NodePtr := ℕ

structure Fragment where
  begin : ℤ
  end_ : ℤ
  worker : Option WorkerPtr
  deriving DecidableEq, Repr

namespace Fragment

/-- Half of the length for a fragment that is being fetched, all of it for a free one; C++
division truncates. -/
def splitLength (f : Fragment) : ℤ :=
  if f.worker = none then f.end_ - f.begin else (f.end_ - f.begin).tdiv 2

/-- `operator<`. -/
def lt (f g : Fragment) : Prop := f.splitLength < g.splitLength

instance (f g : Fragment) : Decidable (f.lt g) := inferInstanceAs (Decidable (_ < _))

end Fragment

/-- A node of the list. -/
structure Node where
  addr : NodePtr
  val : Fragment
  deriving DecidableEq, Repr

structure LengthController where
  min : ℤ
  lengthMonitor : List Node
  nodeFinder : AList fun _ : WorkerPtr => NodePtr

namespace LengthController

/-- The constructor; the only node lives at `node`.  For a size of -2⁶³ the difference overflows an
`off_t`. -/
def create (size min : ℤ) (node : NodePtr) : LengthController where
  min := min
  lengthMonitor := [⟨node, 0, size - 1, none⟩]
  nodeFinder := ∅

/-! ## The list -/

/-- The addresses in use. -/
def addresses (c : LengthController) : List NodePtr := c.lengthMonitor.map Node.addr

/-- `*p`. -/
def deref (c : LengthController) (p : NodePtr) : Option Fragment :=
  (c.lengthMonitor.find? fun n => n.addr = p).map Node.val

/-- Store through a pointer. -/
def assign (c : LengthController) (p : NodePtr) (f : Fragment) : LengthController :=
  { c with lengthMonitor :=
      c.lengthMonitor.map fun n => if n.addr = p then { n with val := f } else n }

/-- `length_monitor.sort()`. -/
def sort (c : LengthController) : LengthController :=
  { c with lengthMonitor := c.lengthMonitor.insertionSort fun m n => ¬ n.val.lt m.val }

/-- `length_monitor.remove(f)`. -/
def remove (c : LengthController) (f : Fragment) : LengthController :=
  { c with lengthMonitor := c.lengthMonitor.filter fun n => n.val ≠ f }

/-! ## The operations -/

/-- `next()`; it sorts the list. -/
def next (c : LengthController) : Except Fault ((ℤ × ℤ) × LengthController) :=
  let c := c.sort
  match c.lengthMonitor.getLast? with
  | none => .error .undefined
  | some n =>
    let f := n.val
    if f.worker ≠ none then
      if (f.end_ - f.begin).tdiv 2 > c.min then
        .ok ((f.begin + (f.end_ - f.begin).tdiv 2, f.end_), c)
      else .ok ((0, 0), c)
    else .ok ((f.begin, f.end_), c)

/-- `add(worker)`; a node it adds lives at `node`. -/
def add (c : LengthController) (worker : WorkerPtr) (node : NodePtr) :
    Except Fault LengthController :=
  let c := c.sort
  match c.lengthMonitor.getLast? with
  | none => .error .undefined
  | some n =>
    let f := n.val
    if f.worker ≠ none then
      if (f.end_ - f.begin).tdiv 2 > c.min then
        let mid := f.begin + (f.end_ - f.begin).tdiv 2
        .ok { c with
          lengthMonitor := c.lengthMonitor.dropLast ++
            [{ n with val := { f with end_ := mid } }, ⟨node, mid, f.end_, some worker⟩]
          nodeFinder := c.nodeFinder.insert worker node }
      else .error (.thrown (.runtimeError "Add work unexpectedly"))
    else
      .ok { c with
        lengthMonitor := c.lengthMonitor.dropLast ++
          [{ n with val := { f with worker := some worker } }]
        nodeFinder := c.nodeFinder.insert worker n.addr }

/-- `afterRead(worker)`; `true` tells the caller to go on. -/
def afterRead (c : LengthController) (worker : WorkerPtr) (offset : ℤ) :
    Except Fault (Bool × LengthController) :=
  match c.nodeFinder.lookup worker with
  | none => .error (.thrown .outOfRange)
  | some p =>
    match c.deref p with
    | none => .error .undefined
    | some f =>
      let f := { f with begin := offset }
      let c := c.assign p f
      if f.end_ ≤ f.begin then
        .ok (false, { c.remove f with nodeFinder := c.nodeFinder.erase worker })
      else .ok (true, c)

/-- `workerStopped(worker)`; that the worker is unknown is caught. -/
def workerStopped (c : LengthController) (worker : WorkerPtr) (offset : ℤ) :
    Except Fault LengthController :=
  match c.nodeFinder.lookup worker with
  | none => .ok c
  | some p =>
    match c.deref p with
    | none => .error .undefined
    | some f =>
      let f := { f with begin := offset }
      let c := c.assign p f
      if f.end_ ≤ f.begin then
        .ok { c.remove f with nodeFinder := c.nodeFinder.erase worker }
      else
        .ok { c.assign p { f with worker := none } with
          nodeFinder := c.nodeFinder.erase worker }

def finished (c : LengthController) : Except Fault Bool :=
  if c.lengthMonitor.isEmpty then
    if c.nodeFinder.entries.isEmpty then .ok true
    else .error (.thrown (.runtimeError "Bad bound in length controller"))
  else .ok false

def workerNumber (c : LengthController) : ℕ := c.nodeFinder.entries.length

def remain (c : LengthController) : ℤ :=
  (c.lengthMonitor.map fun n => n.val.end_ - n.val.begin).sum

end LengthController

end Cld
