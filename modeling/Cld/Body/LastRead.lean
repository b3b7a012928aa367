import Cld.Body.ChunkHead
import Cld.Body.Pieces

/-!
# The last read of a body

A TLS stream keeps what it has decrypted and not delivered, and epoll reports only the socket.  A
caller that wants to be called again must therefore read until the stream has nothing left.
`Buffer.lastRead` and `Worker.lastOfLoop` are the last read of the stream that a buffer and the
body loop attempt, and `ReadResult.Exhausted` is what it should report.

* `PieceRead` is one read of a body in pieces.  The loop goes on to the next piece unless a write
  takes nothing (`loopLeaves_iff_stalls`).
* A chunked body is read once in a call, since no byte of it is ever valid
  (`loopLeaves_iff_chunk`).

`loopLeaves_iff` puts this together.
-/

namespace Cld

variable {S n : ℕ} {items rest : Inbound} {bs head : Bytes}

/-- Nothing is left to be read, at the moment or for ever. -/
def ReadResult.Exhausted : ReadResult → Prop
  | .again => True
  | .ok bs => bs = []
  | .threw _ => False

/-! ## The buffers -/

namespace Buffer

/-- The last read of the loop that collects a chunk head. -/
def lastOfCollect (head : Bytes) : Inbound → ReadResult
  | [] => .again
  | .again :: _ => .again
  | .fail e :: _ => .threw e
  | .eof :: _ => .ok []
  | .byte c _ :: rest =>
    if head ≠ [] ∧ c = CR then .ok [c]
    else if isBlank c then
      if head = [] then lastOfCollect head rest else .ok [c]
    else lastOfCollect (head ++ [c]) rest

/-- The last read of a chunk head: of its LF, if the loop leaves a line. -/
def lastOfChunkHead (items : Inbound) : ReadResult :=
  match collectHead [] items with
  | (.line _, rest) => (rest.read 1).1
  | (.again, _) => lastOfCollect [] items
  | (.threw _, _) => lastOfCollect [] items

/-- The read of chunk data, if there is one. -/
def lastOfChunkData (S : ℕ) (chunkRemain : ℤ) (items : Inbound) : Option ReadResult :=
  if 0 < chunkRemain then some (items.read (min chunkRemain.toNat S)).1 else none

/-- The last read in `ChunkedBuffer::read`. -/
def lastOfChunked (S : ℕ) (chunkRemain : ℤ) (items : Inbound) : Option ReadResult :=
  if chunkRemain = -1 then
    match readChunkHead chunkRemain items with
    | (.ok, chunkRemain, rest) =>
      (lastOfChunkData S chunkRemain rest).or (some (lastOfChunkHead items))
    | (.again, _, _) => some (lastOfChunkHead items)
    | (.threw _, _, _) => some (lastOfChunkHead items)
  else lastOfChunkData S chunkRemain items

/-- The last read of the stream in `buffer->read(stream)`. -/
def lastRead (S : ℕ) (b : Buffer) (items : Inbound) : Option ReadResult :=
  match b.kind with
  | .noLength _ => some (items.read S).1
  | .fixLength remain => some (items.read (min remain S)).1
  | .chunked chunkRemain => lastOfChunked S chunkRemain items

end Buffer

/-- The last read of the stream in the body loop. -/
def Worker.lastOfLoop (S : ℕ) (s : Worker.BodyState) (writes : List FileWrite) :
    Option ReadResult :=
  match _hread : s.buffer.read S s.inbound with
  | (.again, _, _) => s.buffer.lastRead S s.inbound
  | (.threw _, _, _) => s.buffer.lastRead S s.inbound
  | (.ok, buffer, inbound) =>
    match _hwritten : (writes.head?.getD .all).written buffer.validCount with
    | none => s.buffer.lastRead S s.inbound
    | some written =>
      if buffer.finished then s.buffer.lastRead S s.inbound
      else if _hmore : written ≠ 0 then
        (lastOfLoop S (s.wrote buffer inbound written) writes.tail).or
          (s.buffer.lastRead S s.inbound)
      else s.buffer.lastRead S s.inbound
termination_by s.inbound.length
decreasing_by
  have hle : written ≤ buffer.end_ := FileWrite.written_le _hwritten
  exact Buffer.read_length _hread (by omega)

/-! ### A read that reports `kAgain` -/

namespace Buffer

variable {b b' : Buffer} {r : ReadOutcome}

lemma lastOfCollect_again (h : collectHead head items = (.again, rest)) :
    lastOfCollect head items = .again := by
  induction items generalizing head with
  | nil => rfl
  | cons item items ih =>
    rcases item with ⟨c, brk⟩ | _ | _ | e
    · rw [collectHead] at h
      rw [lastOfCollect]
      split_ifs at h ⊢
      · simp at h
      · exact ih h
      · simp at h
      · exact ih h
    · rfl
    · simp [collectHead] at h
    · simp [collectHead] at h

lemma lastOfChunkHead_again {count left : ℤ}
    (h : readChunkHead count items = (.again, left, rest)) :
    lastOfChunkHead items = .again := by
  unfold readChunkHead at h
  unfold lastOfChunkHead
  rcases hcollect : collectHead [] items with ⟨line | _ | e, rest'⟩
  · rw [hcollect] at h
    simp only at h ⊢
    rcases hread : rest'.read 1 with ⟨bs | _ | e, rest''⟩
    · rw [hread] at h
      simp only at h
      split_ifs at h <;> simp at h
    · rfl
    · rw [hread] at h
      simp at h
  · exact lastOfCollect_again hcollect
  · rw [hcollect] at h
    simp at h

lemma lastOfChunkData_again {count : ℤ}
    (h : readChunkData S b count items = (.again, b', rest)) :
    lastOfChunkData S count items = some .again := by
  unfold readChunkData at h
  unfold lastOfChunkData
  split_ifs at h ⊢
  · unfold fill at h
    rcases hread : items.read (min count.toNat S) with ⟨bs | _ | e, rest'⟩
    · rw [hread] at h
      simp at h
    · rfl
    · rw [hread] at h
      simp at h
  · simp at h

/-- **The last read of a call that reports `kAgain`** is the one that did. -/
lemma lastRead_again (h : b.read S items = (.again, b', rest)) :
    b.lastRead S items = some .again := by
  have hfill : ∀ {n : ℕ} {note : ℕ → BufferKind}, b.fill n items note = (.again, b', rest) →
      some (items.read n).1 = some .again := by
    intro n note hfill
    obtain ⟨-, res, hread, hres⟩ := fill_not_ok hfill (by decide)
    unfold fill at hfill
    rw [hread] at hfill ⊢
    cases res with
    | ok bs => exact absurd rfl (hres bs)
    | again => rfl
    | threw e => simp at hfill
  unfold read at h
  unfold lastRead
  cases hkind : b.kind with
  | noLength finished =>
    rw [hkind] at h
    exact hfill h
  | fixLength remain =>
    rw [hkind] at h
    exact hfill h
  | chunked chunkRemain =>
    rw [hkind] at h
    simp only [readChunked] at h
    simp only [lastOfChunked]
    split_ifs at h ⊢
    · rcases hhead : readChunkHead chunkRemain items with ⟨_ | _ | e, count, rest'⟩
      · rw [hhead] at h
        simp only at h ⊢
        rw [lastOfChunkData_again h]
        rfl
      · exact congrArg some (lastOfChunkHead_again hhead)
      · rw [hhead] at h
        simp at h
    · exact lastOfChunkData_again h

end Buffer

/-! ## One piece -/

/-- What one read of a body in pieces has done; it ends the body, or the piece is a whole one. -/
structure PieceRead (S : ℕ) (b : Buffer) (items : Inbound) (b' : Buffer) (rest : Inbound)
    (bs : Bytes) : Prop where
  valid : b'.validCount = bs.length
  last : b.lastRead S items = some (.ok bs)
  kind : b'.finished = false → b'.kind = b.kind.behind bs.length
  unfinished : b'.finished = false → b.kind.Unfinished bs.length
  whole : b'.finished = false → items.read S = (.ok bs, rest)
  finished : b'.finished = true → bs ≠ [] → ∀ bs' rest', items.read S = (.ok bs', rest') →
    ¬ b.kind.Unfinished bs'.length
  nil : bs = [] → available items = [] ∨ ∀ count, ¬ b.kind.Unfinished count

lemma pieceRead_noLength {b b' : Buffer} {finished : Bool} (hS : S ≠ 0)
    (hkind : b.kind = .noLength finished) (h : b.read S items = (.ok, b', rest)) :
    ∃ bs, PieceRead S b items b' rest bs := by
  unfold Buffer.read at h
  rw [hkind] at h
  obtain ⟨bs, hread, rfl⟩ := Buffer.fill_ok h
  have hlast : b.lastRead S items = some (.ok bs) := by
    unfold Buffer.lastRead
    rw [hkind, hread]
  have hopen : (finished || bs.length == 0) = false → finished = false := fun hfin =>
    (Bool.or_eq_false_iff.1 hfin).1
  refine ⟨bs, rfl, hlast, fun hfin => ?_, fun hfin => ?_, fun _ => hread, ?_, fun hnil => Or.inl ?_⟩
  · have hfin' : (finished || bs.length == 0) = false := hfin
    rw [hkind, hfin', ← hopen hfin]
    rfl
  · rw [hkind]
    exact hopen hfin
  · intro hfin hne bs' rest' _ hunfinished
    rw [hkind] at hunfinished
    have hfin' : (finished || bs.length == 0) = true := hfin
    have hclosed : finished = false := hunfinished
    rw [hclosed, Bool.false_or, beq_iff_eq] at hfin'
    exact hne (List.eq_nil_of_length_eq_zero hfin')
  · exact available_of_read hS hread fun bs' hbs => (ReadResult.ok.inj hbs).symm.trans hnil

lemma pieceRead_fixLength {b b' : Buffer} {remain : ℕ} (hS : S ≠ 0)
    (hkind : b.kind = .fixLength remain) (h : b.read S items = (.ok, b', rest)) :
    ∃ bs, PieceRead S b items b' rest bs := by
  unfold Buffer.read at h
  rw [hkind] at h
  obtain ⟨bs, hread, rfl⟩ := Buffer.fill_ok h
  have hlast : b.lastRead S items = some (.ok bs) := by
    unfold Buffer.lastRead
    rw [hkind]
    exact congrArg (some ·.1) hread
  have hless : (remain - bs.length == 0) = false → bs.length < remain := fun hfin => by
    have hne := beq_eq_false_iff_ne.1 hfin
    omega
  refine ⟨bs, rfl, hlast, fun _ => ?_, fun hfin => ?_, fun hfin => ?_, ?_, fun hnil => ?_⟩
  · rw [hkind]
    rfl
  · rw [hkind]
    exact hless hfin
  · exact read_of_unfilled hread (hless hfin) hS
  · intro hfin hne bs' rest' hread' hunfinished
    rw [hkind] at hunfinished
    have hlt : bs'.length < remain := hunfinished
    have hfin' : (remain - bs.length == 0) = true := hfin
    rw [beq_iff_eq] at hfin'
    have hle := length_le_of_read hread hread' (min_le_right remain S)
    omega
  · by_cases hzero : remain = 0
    · right
      intro count hunfinished
      rw [hkind, hzero] at hunfinished
      exact absurd hunfinished (Nat.not_lt_zero count)
    · left
      have hn : min remain S ≠ 0 := by omega
      exact available_of_read hn hread fun bs' hbs => (ReadResult.ok.inj hbs).symm.trans hnil

/-- A read that delivers nothing stalls nothing. -/
lemma PieceRead.not_stalls_of_nil {b b' : Buffer} {writes : List FileWrite}
    (h : PieceRead S b items b' rest []) : ¬ Stalls S b.kind items writes := by
  rcases h.nil rfl with hnone | hnever
  · exact not_stalls_of_available hnone
  · rintro ⟨i, -, hopen, -⟩
    exact hnever _ hopen

/-- Nor does one that ends the body. -/
lemma PieceRead.not_stalls_of_finished {b b' : Buffer} {writes : List FileWrite} (hS : S ≠ 0)
    (h : PieceRead S b items b' rest bs) (hfin : b'.finished = true) :
    ¬ Stalls S b.kind items writes := by
  by_cases hne : bs = []
  · subst hne
    exact h.not_stalls_of_nil
  · rintro ⟨i, hi, hopen, -⟩
    rcases hread : items.read S with ⟨bs' | _ | e, rest'⟩
    · by_cases hnil : bs' = []
      · have hbytes := available_of_read hS hread fun bs'' hbs =>
          (ReadResult.ok.inj hbs).symm.trans hnil
        rw [pieces_of_available hbytes] at hi
        exact absurd hi (Nat.not_lt_zero i)
      · rw [pieces_of_read hread hnil, List.take_succ_cons, List.flatten_cons,
          List.length_append] at hopen
        exact h.finished hfin hne bs' rest' hread (hopen.mono (Nat.le_add_right _ _))
    · have hbytes := available_of_read hS hread nofun
      rw [pieces_of_available hbytes] at hi
      exact absurd hi (Nat.not_lt_zero i)
    · have hbytes := available_of_read hS hread nofun
      rw [pieces_of_available hbytes] at hi
      exact absurd hi (Nat.not_lt_zero i)

/-! ## The loop -/

namespace Worker

section Loop

variable {s : BodyState} {writes : List FileWrite} {buffer : Buffer} {inbound : Inbound}

lemma lastOfLoop_again (h : s.buffer.read S s.inbound = (.again, buffer, inbound)) :
    lastOfLoop S s writes = some .again := by
  rw [lastOfLoop]
  split
  · exact Buffer.lastRead_again h
  · simp_all
  · simp_all

/-- One round of the loop that writes. -/
lemma lastOfLoop_write {written : ℕ} (h : s.buffer.read S s.inbound = (.ok, buffer, inbound))
    (hwrite : (writes.head?.getD .all).written buffer.validCount = some written) :
    lastOfLoop S s writes =
      if buffer.finished then s.buffer.lastRead S s.inbound
      else if written ≠ 0 then
        (lastOfLoop S (s.wrote buffer inbound written) writes.tail).or
          (s.buffer.lastRead S s.inbound)
      else s.buffer.lastRead S s.inbound := by
  rw [lastOfLoop]
  split
  · simp_all
  · simp_all
  · next b i hread =>
    obtain ⟨rfl, rfl⟩ : buffer = b ∧ inbound = i := by simpa using h.symm.trans hread
    split
    · simp_all
    · next n hn =>
      obtain rfl : written = n := Option.some.inj (hwrite.symm.trans hn)
      simp only [dite_eq_ite]

/-- A loop that `kAgain` ends has exhausted the stream. -/
lemma lastOfLoop_of_again (hexit : (bodyLoop S s writes).2 = .again) :
    lastOfLoop S s writes = some .again := by
  induction s, writes using bodyLoop.induct S with
  | case1 s writes buffer inbound h => exact lastOfLoop_again h
  | case2 s writes e buffer inbound h =>
    rw [bodyLoop_threw h] at hexit
    simp at hexit
  | case3 s writes buffer inbound h hwrite =>
    rw [bodyLoop_noWrite h hwrite] at hexit
    simp at hexit
  | case4 s writes buffer inbound h written hwrite hfin =>
    rw [bodyLoop_write h hwrite, if_pos hfin] at hexit
    simp at hexit
  | case5 s writes buffer inbound h written hwrite s' hfin hmore ih =>
    rw [bodyLoop_write h hwrite, if_neg hfin, if_pos hmore] at hexit
    rw [lastOfLoop_write h hwrite, if_neg hfin, if_pos hmore]
    have hlast : lastOfLoop S (s.wrote buffer inbound written) writes.tail = some .again := ih hexit
    rw [hlast]
    rfl
  | case6 s writes buffer inbound h written hwrite hfin hmore =>
    rw [bodyLoop_write h hwrite, if_neg hfin, if_neg hmore] at hexit
    simp at hexit

/-- The loop leaves bytes behind: it goes on no longer, and its last read delivered some. -/
def LoopLeaves (S : ℕ) (s : BodyState) (writes : List FileWrite) : Prop :=
  (bodyLoop S s writes).2 = .idle ∧ ∃ r ∈ lastOfLoop S s writes, ¬ r.Exhausted

/-- A body in pieces stays one. -/
lemma pieceRead_of_read (hS : S ≠ 0) (hplain : ∀ count, s.buffer.kind ≠ .chunked count)
    (h : s.buffer.read S s.inbound = (.ok, buffer, inbound)) :
    ∃ bs, PieceRead S s.buffer s.inbound buffer inbound bs := by
  cases hkind : s.buffer.kind with
  | noLength finished => exact pieceRead_noLength hS hkind h
  | fixLength remain => exact pieceRead_fixLength hS hkind h
  | chunked count => exact absurd hkind (hplain count)

lemma behind_plain {kind : BufferKind} (hplain : ∀ count, kind ≠ .chunked count) (n : ℕ) :
    ∀ count, kind.behind n ≠ .chunked count := by
  cases kind with
  | noLength finished => exact nofun
  | fixLength remain => exact nofun
  | chunked count => exact absurd rfl (hplain count)

/-- A read that is not answered stalls nothing. -/
lemma not_stalls_of_not_ok {r : ReadOutcome} (hS : S ≠ 0)
    (hplain : ∀ count, s.buffer.kind ≠ .chunked count)
    (h : s.buffer.read S s.inbound = (r, buffer, inbound)) (hr : r ≠ .ok) :
    ¬ Stalls S s.buffer.kind s.inbound writes := by
  have hnone := Buffer.available_of_not_ok hS h hr
  intro hstalls
  cases hkind : s.buffer.kind with
  | noLength finished =>
    rw [hkind] at hnone
    exact not_stalls_of_available hnone hstalls
  | fixLength remain =>
    rw [hkind] at hnone
    rcases List.take_eq_nil_iff.1 hnone with hzero | hbytes
    · obtain ⟨i, -, hopen, -⟩ := hstalls
      rw [hkind, hzero] at hopen
      exact absurd hopen (Nat.not_lt_zero _)
    · exact not_stalls_of_available hbytes hstalls
  | chunked count => exact absurd hkind (hplain count)

/-- A write that throws comes before the one that stalls. -/
lemma not_stalls_of_threw {kind : BufferKind} {items : Inbound}
    (h : writes.head? = some .threw) : ¬ Stalls S kind items writes := by
  rw [List.head?_eq_getElem?] at h
  rintro ⟨i, -, -, hzero, hbefore⟩
  cases i with
  | zero =>
    rw [h] at hzero
    cases hzero
  | succ i => exact hbefore 0 (Nat.succ_pos i) h

lemma head_of_written_none {count : ℕ} (h : (writes.head?.getD .all).written count = none) :
    writes.head? = some .threw := by
  rcases writes with _ | ⟨_ | k | _, writes⟩
  · cases h
  · cases h
  · cases h
  · rfl

lemma head_of_written_zero {count : ℕ} (hpos : count ≠ 0)
    (h : (writes.head?.getD .all).written count = some 0) : writes.head? = some (.short 0) := by
  rcases writes with _ | ⟨_ | k | _, writes⟩
  · exact absurd (Option.some.inj h) hpos
  · exact absurd (Option.some.inj h) hpos
  · have hmin : min k count = 0 := Option.some.inj h
    have hk : k = 0 := by omega
    rw [hk]
    rfl
  · cases h

/-- A body in pieces is read in every round. -/
lemma exists_lastOfLoop (S : ℕ) (writes : List FileWrite)
    (hplain : ∀ count, s.buffer.kind ≠ .chunked count) :
    ∃ r, lastOfLoop S s writes = some r := by
  have hread : ∃ r, s.buffer.lastRead S s.inbound = some r := by
    unfold Buffer.lastRead
    cases hkind : s.buffer.kind with
    | noLength finished => exact ⟨_, rfl⟩
    | fixLength remain => exact ⟨_, rfl⟩
    | chunked count => exact absurd hkind (hplain count)
  obtain ⟨r, hr⟩ := hread
  rw [lastOfLoop]
  split
  · exact ⟨r, hr⟩
  · exact ⟨r, hr⟩
  · split
    · exact ⟨r, hr⟩
    · split_ifs
      · exact ⟨r, hr⟩
      · rw [hr]
        cases lastOfLoop S (s.wrote _ _ _) writes.tail with
        | none => exact ⟨r, rfl⟩
        | some r' => exact ⟨r', rfl⟩
      · exact ⟨r, hr⟩

/-- A write that takes something neither stalls nor throws. -/
lemma head_of_written_pos {count written : ℕ} (hmore : written ≠ 0)
    (h : (writes.head?.getD .all).written count = some written) :
    writes.head? ≠ some (.short 0) ∧ writes.head? ≠ some .threw := by
  constructor
  · intro hhead
    rw [hhead] at h
    exact hmore ((Option.some.inj h).symm.trans (Nat.zero_min _))
  · intro hhead
    rw [hhead] at h
    cases h

lemma not_loopLeaves_of_exit (h : (bodyLoop S s writes).2 ≠ .idle) : ¬ LoopLeaves S s writes :=
  fun hleaves => h hleaves.1

/-- A round that writes leaves it to the next ones. -/
lemma loopLeaves_of_more {written : ℕ} (h : s.buffer.read S s.inbound = (.ok, buffer, inbound))
    (hwrite : (writes.head?.getD .all).written buffer.validCount = some written)
    (hfin : ¬ buffer.finished) (hmore : written ≠ 0)
    (hplain : ∀ count, (s.wrote buffer inbound written).buffer.kind ≠ .chunked count) :
    LoopLeaves S s writes ↔ LoopLeaves S (s.wrote buffer inbound written) writes.tail := by
  obtain ⟨r, hr⟩ := exists_lastOfLoop S writes.tail hplain
  unfold LoopLeaves
  rw [bodyLoop_write h hwrite, lastOfLoop_write h hwrite, if_neg hfin, if_neg hfin, if_pos hmore,
    if_pos hmore, hr]
  rfl

/-- **A body in pieces**: the loop leaves bytes behind where a write stalls it. -/
lemma loopLeaves_iff_stalls (hS : S ≠ 0) (hplain : ∀ count, s.buffer.kind ≠ .chunked count) :
    LoopLeaves S s writes ↔ Stalls S s.buffer.kind s.inbound writes := by
  induction s, writes using bodyLoop.induct S with
  | case1 s writes buffer inbound h =>
    refine iff_of_false (not_loopLeaves_of_exit ?_) (not_stalls_of_not_ok hS hplain h (by decide))
    rw [bodyLoop_again h]
    exact BodyExit.noConfusion
  | case2 s writes e buffer inbound h =>
    refine iff_of_false (not_loopLeaves_of_exit ?_) (not_stalls_of_not_ok hS hplain h (by simp))
    rw [bodyLoop_threw h]
    exact BodyExit.noConfusion
  | case3 s writes buffer inbound h hwrite =>
    refine iff_of_false (not_loopLeaves_of_exit ?_)
      (not_stalls_of_threw (head_of_written_none hwrite))
    rw [bodyLoop_noWrite h hwrite]
    exact BodyExit.noConfusion
  | case4 s writes buffer inbound h written hwrite hfin =>
    obtain ⟨bs, hpiece⟩ := pieceRead_of_read hS hplain h
    refine iff_of_false (not_loopLeaves_of_exit ?_) (hpiece.not_stalls_of_finished hS hfin)
    rw [bodyLoop_write h hwrite, if_pos hfin]
    exact BodyExit.noConfusion
  | case5 s writes buffer inbound h written hwrite s' hfin hmore ih =>
    have hfin' : buffer.finished = false := Bool.not_eq_true _ ▸ hfin
    obtain ⟨bs, hpiece⟩ := pieceRead_of_read hS hplain h
    have hne : bs ≠ [] := by
      rintro rfl
      have hle := FileWrite.written_le hwrite
      rw [hpiece.valid] at hle
      exact hmore (Nat.le_zero.1 hle)
    have hkind : s'.buffer.kind = s.buffer.kind.behind bs.length := hpiece.kind hfin'
    have hplain' : ∀ count, s'.buffer.kind ≠ .chunked count := by
      rw [hkind]
      exact behind_plain hplain bs.length
    obtain ⟨hzero, hthrew⟩ := head_of_written_pos hmore hwrite
    rw [loopLeaves_of_more h hwrite hfin hmore hplain', stalls_of_read (hpiece.whole hfin') hne,
      ← hkind]
    simp only [hzero, hthrew, and_false, false_or, ne_eq, not_false_eq_true, true_and]
    exact ih hplain'
  | case6 s writes buffer inbound h written hwrite hfin hmore =>
    have hfin' : buffer.finished = false := Bool.not_eq_true _ ▸ hfin
    obtain ⟨bs, hpiece⟩ := pieceRead_of_read hS hplain h
    obtain rfl : written = 0 := not_not.1 hmore
    unfold LoopLeaves
    rw [bodyLoop_write h hwrite, lastOfLoop_write h hwrite, if_neg hfin, if_neg hfin, if_neg hmore,
      if_neg hmore, hpiece.last]
    by_cases hne : bs = []
    · subst hne
      refine iff_of_false ?_ (hpiece.not_stalls_of_nil)
      rintro ⟨-, r, hr, hleft⟩
      obtain rfl := Option.mem_some_iff.1 hr
      exact hleft rfl
    · have hcount : buffer.validCount ≠ 0 := by
        rw [hpiece.valid]
        exact fun hlen => hne (List.eq_nil_of_length_eq_zero hlen)
      rw [stalls_of_read (hpiece.whole hfin') hne]
      refine iff_of_true ⟨rfl, _, Option.mem_some_self _, hne⟩ (Or.inl ⟨?_, ?_⟩)
      · exact hpiece.unfinished hfin'
      · exact head_of_written_zero hcount hwrite

/-! ### Chunked bodies -/

/-- Chunk data are there, at the place of the buffer or behind the size line that comes next; or
that line has a negative size. -/
def LeavesChunk (chunkRemain : ℤ) (items : Inbound) : Prop :=
  (0 < chunkRemain ∧ available items ≠ []) ∨
    chunkRemain = -1 ∧ ∃ line rest, HeaderLine items line rest ∧
      (extractLongLong 16 (-1) line < 0 ∨
        0 < extractLongLong 16 (-1) line ∧ available rest ≠ [])

/-- A read of the buffer that returns, does not finish it, and delivered bytes at last. -/
def ReadLeaves (S : ℕ) (b : Buffer) (items : Inbound) : Prop :=
  ∃ b' rest, b.read S items = (.ok, b', rest) ∧ b'.finished = false ∧
    ∃ r ∈ b.lastRead S items, ¬ r.Exhausted

variable {b : Buffer} {count : ℤ}

/-- Chunk data that are there are taken. -/
lemma chunkData_leaves_iff (b : Buffer) (items : Inbound) (count : ℤ) (hS : S ≠ 0) :
    (∃ b' rest, Buffer.readChunkData S b count items = (.ok, b', rest) ∧ b'.finished = false ∧
        ∃ r ∈ Buffer.lastOfChunkData S count items, ¬ r.Exhausted) ↔
      0 < count ∧ available items ≠ [] := by
  unfold Buffer.readChunkData Buffer.lastOfChunkData Buffer.fill
  by_cases hpos : 0 < count
  · have hn : min count.toNat S ≠ 0 := by omega
    rw [if_pos hpos, if_pos hpos]
    rcases hread : items.read (min count.toNat S) with ⟨bs | _ | e, rest⟩
    · have hbytes : available items = [] ↔ bs = [] := by
        constructor
        · intro hnone
          have hview := view_available hread
          rw [hnone] at hview
          exact (List.append_eq_nil_iff.1 hview.symm).1
        · intro hnil
          exact available_of_read hn hread fun bs' hbs => (ReadResult.ok.inj hbs).symm.trans hnil
      constructor
      · rintro ⟨b', rest', -, -, r, hr, hleft⟩
        obtain rfl := Option.mem_some_iff.1 hr
        exact ⟨hpos, mt hbytes.1 hleft⟩
      · rintro ⟨-, hsome⟩
        refine ⟨_, _, rfl, ?_, _, Option.mem_some_self _, mt hbytes.2 hsome⟩
        simp only [Buffer.finished, beq_eq_false_iff_ne]
        split_ifs with hdone
        · decide
        · exact hdone
    · have hnone := available_of_read hn hread fun _ h => ReadResult.noConfusion h
      exact iff_of_false (by simp) fun h => h.2 hnone
    · have hnone := available_of_read hn hread fun _ h => ReadResult.noConfusion h
      exact iff_of_false (by simp) fun h => h.2 hnone
  · rw [if_neg hpos, if_neg hpos]
    exact iff_of_false (by simp) fun h => hpos h.1

/-- Behind a size line the chunk data are there, or the size is negative and the LF of the line was
the last byte read. -/
lemma sizeLine_leaves_iff (b : Buffer) (rest : Inbound) (size : ℤ) (hS : S ≠ 0) :
    (∃ b' rest', Buffer.readChunkData S { b with kind := .chunked size } size rest =
          (.ok, b', rest') ∧ b'.finished = false ∧
        ∃ r ∈ (Buffer.lastOfChunkData S size rest).or (some (.ok [LF])), ¬ r.Exhausted) ↔
      size < 0 ∨ 0 < size ∧ available rest ≠ [] := by
  rcases lt_trichotomy size 0 with hless | rfl | hpos
  · have hnone : Buffer.lastOfChunkData S size rest = none := if_neg (by omega)
    rw [Buffer.readChunkData_of_nonpos hless.le, hnone]
    refine iff_of_true ⟨_, _, rfl, ?_, _, Option.mem_some_self _, ?_⟩ (Or.inl hless)
    · exact beq_eq_false_iff_ne.2 hless.ne
    · exact List.cons_ne_nil LF []
  · rw [Buffer.readChunkData_of_nonpos le_rfl]
    refine iff_of_false ?_ (by simp)
    rintro ⟨b', rest', hread, hfin, -⟩
    obtain ⟨-, rfl, -⟩ := Prod.mk.inj hread |>.imp id Prod.mk.inj
    cases hfin
  · have hdata := chunkData_leaves_iff { b with kind := .chunked size } rest size hS
    have hsome : Buffer.lastOfChunkData S size rest =
        some (rest.read (min size.toNat S)).1 := if_pos hpos
    rw [hsome] at hdata ⊢
    rw [or_iff_right hpos.not_gt]
    exact hdata

/-- **One read of a chunked body.** -/
lemma readLeaves_iff (hS : S ≠ 0) (hkind : b.kind = .chunked count) :
    ReadLeaves S b items ↔ LeavesChunk count items := by
  unfold ReadLeaves LeavesChunk Buffer.read Buffer.lastRead
  rw [hkind]
  simp only [Buffer.readChunked, Buffer.lastOfChunked]
  by_cases hminus : count = -1
  swap
  · simp only [hminus, false_and, or_false]
    exact chunkData_leaves_iff _ _ _ hS
  subst hminus
  have hneg : ¬ (0 : ℤ) < -1 := by decide
  simp only [if_true, hneg, false_and, false_or, true_and]
  by_cases hline : ∃ line rest, HeaderLine items line rest
  · obtain ⟨line, rest, hline⟩ := hline
    have hunique : (∃ line rest, HeaderLine items line rest ∧
        (extractLongLong 16 (-1) line < 0 ∨
          0 < extractLongLong 16 (-1) line ∧ available rest ≠ [])) ↔
        (extractLongLong 16 (-1) line < 0 ∨
          0 < extractLongLong 16 (-1) line ∧ available rest ≠ []) := by
      constructor
      · rintro ⟨line', rest', hline', h⟩
        obtain ⟨rfl, rfl⟩ := hline.unique hline'
        exact h
      · exact fun h => ⟨line, rest, hline, h⟩
    have hhead : Buffer.readChunkHead (-1) items = (.ok, extractLongLong 16 (-1) line, rest) :=
      readChunkHead_ok_iff.2 ⟨line, hline, rfl⟩
    have hlast : Buffer.lastOfChunkHead items = .ok [LF] := by
      obtain ⟨brk, hcollect⟩ := hline.collectHead
      simp only [Buffer.lastOfChunkHead, hcollect, Inbound.read_one_byte]
    rw [hunique]
    simp only [hhead, hlast]
    exact sizeLine_leaves_iff b rest _ hS
  · have hmissing : ¬ ∃ line rest, HeaderLine items line rest ∧
        (extractLongLong 16 (-1) line < 0 ∨
          0 < extractLongLong 16 (-1) line ∧ available rest ≠ []) := by
      rintro ⟨line, rest, h, -⟩
      exact hline ⟨line, rest, h⟩
    refine iff_of_false ?_ hmissing
    rintro ⟨b', rest', hread, -⟩
    rcases hhead : Buffer.readChunkHead (-1) items with ⟨_ | _ | e, count, rest⟩
    · obtain ⟨line, h, -⟩ := readChunkHead_ok_iff.1 hhead
      exact hline ⟨line, rest, h⟩
    · rw [hhead] at hread
      simp at hread
    · rw [hhead] at hread
      simp at hread

/-- **A chunked body**: one read, behind which nothing is written. -/
lemma loopLeaves_iff_chunk (hS : S ≠ 0) (hkind : s.buffer.kind = .chunked count) :
    LoopLeaves S s writes ↔ writes.head? ≠ some .threw ∧ LeavesChunk count s.inbound := by
  rw [← readLeaves_iff hS hkind]
  unfold LoopLeaves ReadLeaves
  rcases hread : s.buffer.read S s.inbound with ⟨_ | _ | e, buffer, inbound⟩
  · have hend : buffer.validCount = 0 := Buffer.valid_of_chunked ⟨count, hkind⟩ hread
    cases hwrite : (writes.head?.getD .all).written buffer.validCount with
    | none =>
      rw [bodyLoop_noWrite hread hwrite]
      exact iff_of_false (by simp) fun h => h.1 (head_of_written_none hwrite)
    | some written =>
      have hzero : written = 0 := by
        have hle := FileWrite.written_le hwrite
        omega
      subst hzero
      have hthrew : writes.head? ≠ some .threw := by
        intro hhead
        rw [hhead] at hwrite
        cases hwrite
      rw [bodyLoop_write hread hwrite, lastOfLoop_write hread hwrite]
      cases hfin : buffer.finished with
      | true =>
        refine iff_of_false (by simp) ?_
        rintro ⟨-, b', rest, hb, hopen, -⟩
        obtain ⟨-, rfl, -⟩ := Prod.mk.inj hb |>.imp id Prod.mk.inj
        rw [hfin] at hopen
        cases hopen
      | false =>
        simp only [Bool.false_eq_true, if_false, ne_eq, not_true, true_and]
        constructor
        · intro h
          exact ⟨hthrew, buffer, inbound, rfl, hfin, h⟩
        · rintro ⟨-, b', rest, -, -, h⟩
          exact h
  · rw [bodyLoop_again hread]
    refine iff_of_false (by simp) ?_
    rintro ⟨-, b', rest, hb, -⟩
    cases hb
  · rw [bodyLoop_threw hread]
    refine iff_of_false (by simp) ?_
    rintro ⟨-, b', rest, hb, -⟩
    cases hb

/-- What is left behind of a body of any kind. -/
def LeavesBody (S : ℕ) (kind : BufferKind) (items : Inbound) (writes : List FileWrite) : Prop :=
  Stalls S kind items writes ∨
    ∃ chunkRemain, kind = .chunked chunkRemain ∧ writes.head? ≠ some .threw ∧
      LeavesChunk chunkRemain items

/-- **When the loop leaves bytes behind.** -/
lemma loopLeaves_iff (hS : S ≠ 0) :
    LoopLeaves S s writes ↔ LeavesBody S s.buffer.kind s.inbound writes := by
  unfold LeavesBody
  cases hkind : s.buffer.kind with
  | chunked count =>
    have hnever : ¬ Stalls S (.chunked count) s.inbound writes := by
      rintro ⟨i, -, hopen, -⟩
      exact hopen
    rw [loopLeaves_iff_chunk hS hkind, or_iff_right hnever]
    constructor
    · exact fun h => ⟨count, rfl, h⟩
    · rintro ⟨count', heq, h⟩
      obtain rfl := BufferKind.chunked.inj heq
      exact h
  | noLength finished =>
    rw [loopLeaves_iff_stalls hS (by simp [hkind]), hkind]
    simp
  | fixLength remain =>
    rw [loopLeaves_iff_stalls hS (by simp [hkind]), hkind]
    simp

end Loop

end Worker

end Cld
