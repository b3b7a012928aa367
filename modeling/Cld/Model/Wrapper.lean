import Cld.Model.Basic

/-!
# Reading a line from a descriptor

`wrapper::Readline(fd, buf, max)`, which reads byte after byte until it has stored a LF, the file
has ended, or one place is left in the buffer, and puts a NUL behind what it has stored.

The descriptor is the list of what its next reads answer.  Where the list ends, the next read has
not answered yet.  What the call has written, from `buf` to `p`, is the text so far.  `i` starts at
1 and stays below `2 ^ 64` with `max`, so that neither `--i` nor `++i` wraps.
-/

namespace Cld

/-- The answer of `read(fd, &c, 1)`. -/
inductive FdRead
  | byte (c : Byte)
  /-- 0. -/
  | eof
  /-- -1, with `errno == EINTR`. -/
  | interrupted
  /-- -1, with any other `errno`. -/
  | failed
  deriving DecidableEq, Repr

/-- What a call of `Readline` comes to. -/
inductive LineRead
  /-- It has returned `value`, and the buffer starts with `buf`. -/
  | returned (value : ℕ) (buf : Bytes) (unread : List FdRead)
  /-- `std::system_error`. -/
  | threw
  /-- A read has not answered. -/
  | waits
  deriving DecidableEq, Repr

/-- `for (; i < max && !finished; ++i)`, and the two statements behind it. -/
def readlineLoop (max i : ℕ) (buf : Bytes) (finished : Bool) (answers : List FdRead) : LineRead :=
  if i < max ∧ finished = false then
    match answers with
    | [] => .waits
    | .byte c :: answers => readlineLoop max (i + 1) (buf ++ [c]) (finished || c == LF) answers
    | .eof :: answers => .returned (i - 1) (buf ++ [0]) answers
    | .interrupted :: answers => readlineLoop max (i - 1 + 1) buf finished answers
    | .failed :: _ => .threw
  else .returned i (buf ++ [0]) answers
termination_by structural answers

/-- `wrapper::Readline`. -/
def Readline (max : ℕ) (answers : List FdRead) : LineRead := readlineLoop max 1 [] false answers

end Cld
