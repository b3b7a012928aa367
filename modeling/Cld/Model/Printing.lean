import Cld.Model.Download

/-!
# The progress lines of `MultiConnectionDownload`

What the loop of `cld.cpp` prints between reading the clock and asking `finished()`, as a record
that is carried along with the loop: `lastRemain` is its variable `last_remain`, and `lines` are the
lines that have been printed, the last one first.
-/

namespace Cld

open Framework

structure ProgressLine where
  connections : ℕ
  remain : ℤ
  /-- `last_remain - remain`. -/
  fetched : ℤ
  /-- `time - last_time`, in milliseconds. -/
  elapsed : ℤ

/-- `static_cast<std::size_t>(1000 * (last_remain - remain) / …count())`. -/
def ProgressLine.speed (line : ProgressLine) : ℤ :=
  (1000 * line.fetched).tdiv line.elapsed % 2 ^ 64

structure Printing where
  loop : Download
  lastRemain : ℤ
  lines : List ProgressLine

namespace Printing

def init (cfg : Config) (node : NodePtr) (now : ℤ) : Printing where
  loop := Download.init cfg node now
  lastRemain := cfg.size
  lines := []

/-- Print if it is time. -/
def print (t : Printing) (time : ℤ) : Printing :=
  if time - t.loop.lastTime ≥ 250 then
    let remain := t.loop.controller.remain
    { t with
      lastRemain := remain
      lines := ⟨t.loop.controller.workerNumber, remain, t.lastRemain - remain,
        time - t.loop.lastTime⟩ :: t.lines }
  else t

/-- **One step of the loop**, with what it prints. -/
def step (t : Printing) (label : Label) : Option Printing :=
  match t.loop.step label with
  | none => none
  | some loop =>
    match t.loop.pc, label with
    | .dispatch [], .clock time => some { t.print time with loop := loop }
    | _, _ => some { t with loop := loop }

end Printing

end Cld
