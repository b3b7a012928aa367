import Cld.Model.Wrapper
import Mathlib.Data.List.TakeDrop

/-!
# What `Readline` counts

`Readline` stores the next line, or as much of it as fits, and returns a number that should be that
of the bytes stored.

* `arriving` is what the descriptor delivers, and `ending` how that ends: `EINTR` shows in neither.
* `LineExit` lists the ways out of the loop.  The invariant is that `i` is one ahead of the bytes
  stored, none of which is a LF.
* The loop leaves that surplus in the value, unless it is left from within, at the end of the file.
-/

namespace Cld

/-! ## What is due -/

/-- The bytes up to the end of the file, or to an error. -/
def arriving : List FdRead → Bytes
  | [] => []
  | .byte c :: answers => c :: arriving answers
  | .eof :: _ => []
  | .interrupted :: answers => arriving answers
  | .failed :: _ => []

/-- What ends them; `none` when the descriptor falls silent. -/
def ending : List FdRead → Option FdRead
  | [] => none
  | .byte _ :: answers => ending answers
  | .interrupted :: answers => ending answers
  | answer :: _ => some answer

/-- A text up to its first LF, which is included. -/
def upToLF : Bytes → Bytes
  | [] => []
  | c :: text => if c = LF then [c] else c :: upToLF text

/-- There is something to return: a whole line, as much as fits, or the rest of the file. -/
def LineDue (max : ℕ) (answers : List FdRead) : Prop :=
  LF ∈ (arriving answers).take (max - 1) ∨ max - 1 ≤ (arriving answers).length ∨
    ending answers = some .eof

/-- **`Readline` counts what it stores**: the next line, of which at most `max - 1` bytes. -/
def CountsStored (max : ℕ) (answers : List FdRead) : Prop :=
  LineDue max answers → ∃ stored unread,
    Readline max answers = .returned stored.length (stored ++ [0]) unread ∧
      stored.length ≤ max - 1 ∧ stored = (upToLF (arriving answers)).take (max - 1)

/-- Neither a LF nor the `max - 1`st byte comes before the end of the file. -/
def EndsShort (max : ℕ) (answers : List FdRead) : Prop :=
  LF ∉ (arriving answers).take (max - 1) ∧ (arriving answers).length < max - 1

instance (max : ℕ) (answers : List FdRead) : Decidable (EndsShort max answers) :=
  inferInstanceAs (Decidable (_ ∧ _))

variable {max : ℕ} {answers : List FdRead} {buf front text : Bytes}

lemma upToLF_of_notMem (htext : LF ∉ text) : upToLF text = text := by
  induction text with
  | nil => rfl
  | cons c text ih =>
    obtain ⟨hc, htext'⟩ := List.ne_and_not_mem_of_not_mem_cons htext
    rw [upToLF, if_neg (Ne.symm hc), ih htext']

lemma upToLF_append (hfront : LF ∉ front) (text : Bytes) :
    upToLF (front ++ text) = front ++ upToLF text := by
  induction front with
  | nil => rfl
  | cons c front ih =>
    obtain ⟨hc, hfront'⟩ := List.ne_and_not_mem_of_not_mem_cons hfront
    rw [List.cons_append, upToLF, if_neg (Ne.symm hc), ih hfront', List.cons_append]

/-! ## The ways out -/

/-- What the call can come to, when `text` arrives and ends so. -/
inductive LineExit (max : ℕ) (text : Bytes) (ending : Option FdRead) : LineRead → Prop
  /-- A LF is stored. -/
  | line {front : Bytes} {unread : List FdRead} (room : front.length + 1 < max)
      (lf : LF ∉ front) (text_eq : text = front ++ LF :: arriving unread) :
      LineExit max text ending (.returned (front.length + 2) (front ++ [LF] ++ [0]) unread)
  /-- One place is left. -/
  | full {stored : Bytes} {unread : List FdRead} (room : stored.length = max - 1)
      (lf : LF ∉ stored) (text_eq : text = stored ++ arriving unread) :
      LineExit max text ending (.returned (stored.length + 1) (stored ++ [0]) unread)
  /-- The file has ended. -/
  | ended {unread : List FdRead} (room : text.length < max - 1) (lf : LF ∉ text)
      (ending_eq : ending = some .eof) :
      LineExit max text ending (.returned text.length (text ++ [0]) unread)
  | threw (room : text.length < max - 1) (lf : LF ∉ text) (ending_eq : ending = some .failed) :
      LineExit max text ending .threw
  | waits (room : text.length < max - 1) (lf : LF ∉ text) (ending_eq : ending = none) :
      LineExit max text ending .waits

/-- Nothing more is read once a LF is stored. -/
lemma readlineLoop_finished (max i : ℕ) (buf : Bytes) (answers : List FdRead) :
    readlineLoop max i buf true answers = .returned i (buf ++ [0]) answers := by
  rw [readlineLoop.eq_def, if_neg fun h => Bool.noConfusion h.2]

/-- Nothing more is read once one place is left. -/
lemma exit_of_full (hroom : buf.length ≤ max - 1) (hlf : LF ∉ buf)
    (hfull : ¬ buf.length + 1 < max) (answers : List FdRead) (ending : Option FdRead) :
    LineExit max (buf ++ arriving answers) ending
      (readlineLoop max (buf.length + 1) buf false answers) := by
  rw [readlineLoop.eq_def, if_neg fun h => hfull h.1]
  exact .full (by omega) hlf rfl

/-- **The loop**, from the test at its head on.  What is stored counts as having arrived, and the
induction is on what the reads still answer. -/
lemma readlineLoop_exit (hroom : buf.length ≤ max - 1) (hlf : LF ∉ buf) :
    LineExit max (buf ++ arriving answers) (ending answers)
      (readlineLoop max (buf.length + 1) buf false answers) := by
  induction answers generalizing buf with
  | nil =>
    by_cases hmax : buf.length + 1 < max
    · rw [readlineLoop.eq_def, if_pos ⟨hmax, rfl⟩, arriving, List.append_nil]
      exact .waits (by omega) hlf rfl
    · exact exit_of_full hroom hlf hmax [] (ending [])
  | cons answer answers ih =>
    by_cases hmax : buf.length + 1 < max
    swap
    · exact exit_of_full hroom hlf hmax (answer :: answers) (ending (answer :: answers))
    rw [readlineLoop.eq_def, if_pos ⟨hmax, rfl⟩]
    cases answer with
    | byte c =>
      by_cases hc : c = LF
      · subst hc
        show LineExit max _ _ (readlineLoop max (buf.length + 2) (buf ++ [LF]) true answers)
        rw [readlineLoop_finished]
        exact .line hmax hlf rfl
      · have hroom' : (buf ++ [c]).length ≤ max - 1 := by
          rw [List.length_append, List.length_singleton]
          omega
        have hlf' : LF ∉ buf ++ [c] := by
          simp only [List.mem_append, List.mem_singleton, not_or]
          exact ⟨hlf, Ne.symm hc⟩
        have hexit := ih hroom' hlf'
        rw [List.append_assoc, List.length_append, List.length_singleton] at hexit
        have hmore : (false || c == LF) = false := by simpa using hc
        simp only [hmore]
        exact hexit
    | eof =>
      rw [arriving, List.append_nil]
      exact .ended (by omega) hlf rfl
    | interrupted => exact ih hroom hlf
    | failed =>
      rw [arriving, List.append_nil]
      exact .threw (by omega) hlf rfl

/-- **What a call comes to.** -/
lemma readline_exit (max : ℕ) (answers : List FdRead) :
    LineExit max (arriving answers) (ending answers) (Readline max answers) :=
  readlineLoop_exit (Nat.zero_le _) List.not_mem_nil

/-! ## The value -/

lemma EndsShort.notMem (h : EndsShort max answers) : LF ∉ arriving answers := by
  have hlf := h.1
  rwa [List.take_of_length_le h.2.le] at hlf

/-- Then only the end of the file is there to be noticed. -/
lemma LineDue.eof (hdue : LineDue max answers) (h : EndsShort max answers) :
    ending answers = some .eof := by
  rcases hdue with hmem | hlength | heof
  · exact absurd hmem h.1
  · exact absurd h.2 (Nat.not_lt.2 hlength)
  · exact heof

/-- Otherwise there is something to return. -/
lemma lineDue_of_not_endsShort (h : ¬ EndsShort max answers) : LineDue max answers := by
  rcases not_and_or.1 h with hlf | hlength
  · exact Or.inl (not_not.1 hlf)
  · exact Or.inr (Or.inl (Nat.not_lt.1 hlength))

/-- **What `Readline` returns.**  It stores what is due, and counts one more than that unless the
file ends first. -/
lemma readline_returns (hdue : LineDue max answers) : ∃ stored unread,
    stored = (upToLF (arriving answers)).take (max - 1) ∧ stored.length ≤ max - 1 ∧
      Readline max answers = .returned
        (if EndsShort max answers then stored.length else stored.length + 1)
        (stored ++ [0]) unread := by
  have hexit := readline_exit max answers
  generalize Readline max answers = outcome at hexit
  cases hexit with
  | @line front unread room lf text_eq =>
    have hlength : (front ++ [LF]).length ≤ max - 1 := by
      rw [List.length_append, List.length_singleton]
      omega
    have hlong : ¬ EndsShort max answers := by
      intro hshort
      exact hshort.notMem (text_eq ▸ List.mem_append_right front List.mem_cons_self)
    have hstored : front ++ [LF] = (upToLF (arriving answers)).take (max - 1) := by
      rw [text_eq, upToLF_append lf, upToLF, if_pos rfl, List.take_of_length_le hlength]
    simp only [if_neg hlong]
    exact ⟨front ++ [LF], unread, hstored, hlength, by simp⟩
  | @full stored unread room lf text_eq =>
    have hlong : ¬ EndsShort max answers := by
      intro hshort
      have hlength := hshort.2
      rw [text_eq, List.length_append] at hlength
      omega
    have hstored : stored = (upToLF (arriving answers)).take (max - 1) := by
      rw [text_eq, upToLF_append lf, ← room, List.take_left]
    simp only [if_neg hlong]
    exact ⟨stored, unread, hstored, room.le, rfl⟩
  | @ended unread room lf ending_eq =>
    have hshort : EndsShort max answers := ⟨mt List.mem_of_mem_take lf, room⟩
    have hstored : arriving answers = (upToLF (arriving answers)).take (max - 1) := by
      rw [upToLF_of_notMem lf, List.take_of_length_le room.le]
    simp only [if_pos hshort]
    exact ⟨arriving answers, unread, hstored, room.le, rfl⟩
  | threw room lf ending_eq =>
    exact absurd (hdue.eof ⟨mt List.mem_of_mem_take lf, room⟩) (by simp [ending_eq])
  | waits room lf ending_eq =>
    exact absurd (hdue.eof ⟨mt List.mem_of_mem_take lf, room⟩) (by simp [ending_eq])

/-- **When `Readline` counts what it stores**: where the file ends before a LF is stored and before
the buffer is full.  The other two exits count the NUL. -/
theorem readline_counts_iff (max : ℕ) (answers : List FdRead) :
    CountsStored max answers ↔ EndsShort max answers := by
  constructor
  · intro hcounts
    by_contra hlong
    have hdue := lineDue_of_not_endsShort hlong
    obtain ⟨stored, unread, -, -, hreturns⟩ := readline_returns hdue
    obtain ⟨stored', unread', hcounted, -⟩ := hcounts hdue
    rw [hreturns, if_neg hlong] at hcounted
    injection hcounted with hvalue hbuf
    rw [List.append_cancel_right hbuf] at hvalue
    omega
  · intro hshort hdue
    obtain ⟨stored, unread, hstored, hlength, hreturns⟩ := readline_returns hdue
    rw [if_pos hshort] at hreturns
    exact ⟨stored, unread, hreturns, hlength, hstored⟩

/-- Two bytes are stored and three are counted, at the end of a line and in a full buffer. -/
theorem line_counted_with_nul :
    Readline 10 [.byte 97, .interrupted, .byte LF] = .returned 3 [97, LF, 0] [] ∧
      Readline 3 [.byte 97, .byte 98, .eof] = .returned 3 [97, 98, 0] [.eof] ∧
      Readline 10 [.byte 97, .byte 98, .eof] = .returned 2 [97, 98, 0] [] ∧
      ¬ CountsStored 10 [.byte 97, .interrupted, .byte LF] := by
  refine ⟨rfl, rfl, rfl, ?_⟩
  intro hcounts
  obtain ⟨stored, unread, hreturned, -⟩ := hcounts (Or.inl (by decide))
  have hresult : Readline 10 [.byte 97, .interrupted, .byte LF] = .returned 3 [97, LF, 0] [] := rfl
  rw [hresult] at hreturned
  injection hreturned with hvalue hbuf
  have hlength := congrArg List.length hbuf
  rw [List.length_append, ← hvalue] at hlength
  exact absurd hlength (by decide)

end Cld
