import Cld.Body.Loop
import Cld.Model.Numerals

/-!
# Size lines

What the decoder takes as the size line of a chunk.

* `HeaderLine` is what the loop of the header accepts, whatever the line says: blanks before it
  are skipped, a CR may only be its first character, and CR LF ends it.  `collectHead_iff` is
  the loop against this description.
* `SizeLine line n` is a line that names the size `n`.  The CR LF that ends the data of the
  chunk before may stand in front of it, since the decoder leaves it to the next header.
* `Accepts` is what the decoder promises at a header: it throws, or takes a size line and goes
  on with exactly its size.

The line is handed to a formatted extraction whose result nobody tests, so that the promise
depends on what the peer sends: a line that is no number counts as size 0, a sign and a `0x`
are read, what follows the digits is ignored, and a size from 2⁶³ on is clamped.
-/

namespace Cld

variable {items rest front : Inbound} {head line text : Bytes} {n : ℕ}

/-- The loop of the header accepts `line` and has read up to `rest`. -/
structure HeaderLine (items : Inbound) (line : Bytes) (rest : Inbound) : Prop where
  reads : ∃ front blanks, items = front ++ rest ∧ AlwaysReady front ∧
    payload front = blanks ++ line ++ [CR, LF] ∧ ∀ c ∈ blanks, isBlank c = true
  ne : line ≠ []
  unblank : ∀ c ∈ line, isBlank c = false
  cr : CR ∉ line.tail

/-- The line is the size `n` of a chunk, in hex digits, which an extension may follow; the CR LF
of the chunk before may precede them. -/
def SizeLine (line : Bytes) (n : ℕ) : Prop :=
  ∃ lead digits ext, line = lead ++ (digits ++ ext) ∧ (lead = [] ∨ lead = [CR, LF]) ∧
    Numeral 16 digits n ∧ (∀ c ∈ ext.head?, c = 59) ∧ LF ∉ ext

/-- **Only a real size line is accepted** by a read at a chunk header. -/
structure Accepts (S : ℕ) (b : Buffer) (items : Inbound) : Prop where
  /-- The read throws and leaves the buffer alone, or goes on behind a size line with its size
  as the count. -/
  line : (∃ r rest, b.read S items = (r, b, rest) ∧ r ≠ .ok) ∨
    ∃ line n rest, HeaderLine items line rest ∧ SizeLine line n ∧
      b.read S items = Buffer.readChunkData S { b with kind := .chunked n } n rest
  finished : ∀ r b' rest, b.read S items = (r, b', rest) → b'.finished = true →
    ∃ line rest, HeaderLine items line rest ∧ SizeLine line 0
  count : ∀ r b' rest, b.read S items = (r, b', rest) →
    ∃ count, b'.kind = .chunked count ∧ -1 ≤ count

/-! ## The loop of the header -/

/-- Inside the line nothing but its CR ends the loop. -/
lemma collectHead_text (rest : Inbound) (hready : AlwaysReady front)
    (hpay : payload front = text ++ [CR])
    (hblank : ∀ c ∈ text, isBlank c = false) (hcr : CR ∉ text) (hhead : head ≠ []) :
    Buffer.collectHead head (front ++ rest) = (.line (head ++ text), rest) := by
  induction text generalizing head front with
  | nil =>
    obtain ⟨brk, front', rfl, hready', hpay'⟩ := hready.uncons hpay
    obtain rfl := hready'.eq_nil hpay'
    rw [List.singleton_append, Buffer.collectHead, if_pos ⟨hhead, rfl⟩, List.append_nil]
  | cons c text ih =>
    obtain ⟨brk, front', rfl, hready', hpay'⟩ := hready.uncons hpay
    obtain ⟨hc, hblank'⟩ := List.forall_mem_cons.1 hblank
    obtain ⟨hne, hcr'⟩ := not_or.1 (mt List.mem_cons.2 hcr)
    have hpush : ¬ (head ≠ [] ∧ c = CR) := fun h => hne h.2.symm
    rw [List.cons_append, Buffer.collectHead, if_neg hpush, if_neg (by simp [hc]),
      ih hready' hpay' hblank' hcr' (by simp), List.append_assoc]
    rfl

/-- The blanks before the line are skipped. -/
lemma collectHead_blanks {blanks : Bytes} (rest : Inbound) (hready : AlwaysReady front)
    (hpay : payload front = blanks ++ text) (hblanks : ∀ c ∈ blanks, isBlank c = true) :
    ∃ front', AlwaysReady front' ∧ payload front' = text ∧
      Buffer.collectHead [] (front ++ rest) = Buffer.collectHead [] (front' ++ rest) := by
  induction blanks generalizing front with
  | nil => exact ⟨front, hready, hpay, rfl⟩
  | cons c blanks ih =>
    obtain ⟨brk, front', rfl, hready', hpay'⟩ := hready.uncons hpay
    obtain ⟨hc, hblanks'⟩ := List.forall_mem_cons.1 hblanks
    obtain ⟨front'', hready'', hpay'', hcollect⟩ := ih hready' hpay' hblanks'
    refine ⟨front'', hready'', hpay'', ?_⟩
    rw [List.cons_append, Buffer.collectHead, if_neg (by simp), if_pos hc, if_pos rfl, hcollect]

/-- **Completeness of the loop.** -/
lemma HeaderLine.collectHead (h : HeaderLine items line rest) :
    ∃ brk, Buffer.collectHead [] items = (.line line, .byte LF brk :: rest) := by
  obtain ⟨front, blanks, rfl, hready, hpay, hblanks⟩ := h.reads
  rw [List.append_assoc] at hpay
  obtain ⟨front₁, hready₁, hpay₁, hcollect⟩ :=
    collectHead_blanks rest hready hpay hblanks
  obtain ⟨c, text, rfl⟩ := List.exists_cons_of_ne_nil h.ne
  obtain ⟨hc, htext⟩ := List.forall_mem_cons.1 h.unblank
  obtain ⟨brk, front₂, rfl, hready₂, hpay₂⟩ := hready₁.uncons hpay₁
  -- the LF behind the CR is left to the second read
  obtain ⟨front₃, lf, rfl, hready₃, hready₄, hpay₃, hpay₄⟩ :=
    hready₂.split (s := text ++ [CR]) (t := [LF]) (by simpa using hpay₂)
  obtain ⟨brk', more, rfl, hready₅, hpay₅⟩ := hready₄.uncons hpay₄
  obtain rfl := hready₅.eq_nil hpay₅
  refine ⟨brk', ?_⟩
  have hloop := collectHead_text (.byte LF brk' :: rest) hready₃ hpay₃ htext h.cr
    (List.cons_ne_nil c [])
  rw [hcollect, List.cons_append, Buffer.collectHead, if_neg (by simp), if_neg (by simp [hc]),
    List.append_assoc]
  exact hloop

/-- Inside the line the loop is left at a CR, or at the end of the stream. -/
lemma exists_of_collectHead_text (hhead : head ≠ [])
    (h : Buffer.collectHead head items = (.line line, rest)) (heof : rest.head? ≠ some .eof) :
    ∃ front text, items = front ++ rest ∧ AlwaysReady front ∧ payload front = text ++ [CR] ∧
      line = head ++ text ∧ (∀ c ∈ text, isBlank c = false) ∧ CR ∉ text := by
  induction items generalizing head with
  | nil => simp [Buffer.collectHead] at h
  | cons item items ih =>
    rcases item with ⟨c, brk⟩ | _ | _ | e
    · rw [Buffer.collectHead] at h
      by_cases hcr : c = CR
      · rw [if_pos ⟨hhead, hcr⟩] at h
        obtain ⟨rfl, rfl⟩ : head = line ∧ items = rest := by simpa using h
        refine ⟨[.byte c brk], [], rfl, ?_, ?_, (List.append_nil _).symm, ?_, List.not_mem_nil⟩
        · exact AlwaysReady.cons (List.forall_mem_nil _) c brk
        · rw [hcr]
          rfl
        · exact List.forall_mem_nil _
      · rw [if_neg fun hif => hcr hif.2] at h
        split_ifs at h with hblank
        · simp at h
        · obtain ⟨front, text, rfl, hready, hpay, rfl, hunblank, hnot⟩ := ih (by simp) h
          refine ⟨.byte c brk :: front, c :: text, rfl, hready.cons c brk, ?_, ?_, ?_, ?_⟩
          · rw [payload_byte, hpay]
            rfl
          · simp
          · exact List.forall_mem_cons.2 ⟨Bool.not_eq_true _ ▸ hblank, hunblank⟩
          · simp [Ne.symm hcr, hnot]
    · simp [Buffer.collectHead] at h
    · obtain ⟨-, rfl⟩ : head = line ∧ .eof :: items = rest := by simpa [Buffer.collectHead] using h
      exact absurd rfl heof
    · simp [Buffer.collectHead] at h

/-- **Soundness of the loop**, unless the end of the stream has left it. -/
lemma headerLine_of_collectHead {brk : Bool}
    (h : Buffer.collectHead [] items = (.line line, .byte LF brk :: rest)) :
    HeaderLine items line rest := by
  induction items with
  | nil => simp [Buffer.collectHead] at h
  | cons item items ih =>
    rcases item with ⟨c, brk'⟩ | _ | _ | e
    · rw [Buffer.collectHead, if_neg (by simp)] at h
      by_cases hblank : isBlank c = true
      · rw [if_pos hblank, if_pos rfl] at h
        have hline := ih h
        obtain ⟨front, blanks, rfl, hready, hpay, hblanks⟩ := hline.reads
        refine ⟨⟨.byte c brk' :: front, c :: blanks, rfl, hready.cons c brk', ?_, ?_⟩, hline.ne,
          hline.unblank, hline.cr⟩
        · rw [payload_byte, hpay]
          rfl
        · exact List.forall_mem_cons.2 ⟨hblank, hblanks⟩
      · rw [if_neg hblank] at h
        obtain ⟨front, text, rfl, hready, hpay, rfl, hunblank, hcr⟩ :=
          exists_of_collectHead_text (by simp) h (by simp)
        have hlf : AlwaysReady [.byte LF brk] := AlwaysReady.cons (List.forall_mem_nil _) LF brk
        refine ⟨⟨.byte c brk' :: (front ++ [.byte LF brk]), [], by simp, ?_, ?_, ?_⟩, by simp, ?_,
          hcr⟩
        · exact AlwaysReady.cons (List.forall_mem_append.2 ⟨hready, hlf⟩) c brk'
        · rw [payload_byte, hready.payload_append, hpay]
          simp
        · exact List.forall_mem_nil _
        · exact List.forall_mem_cons.2 ⟨Bool.not_eq_true _ ▸ hblank, hunblank⟩
    · simp [Buffer.collectHead] at h
    · simp [Buffer.collectHead] at h
    · simp [Buffer.collectHead] at h

/-- **The header as a whole**: it goes on behind a line of the loop, with what the extraction
makes of it. -/
lemma readChunkHead_ok_iff {chunkRemain count : ℤ} :
    Buffer.readChunkHead chunkRemain items = (.ok, count, rest) ↔
      ∃ line, HeaderLine items line rest ∧ count = extractLongLong 16 chunkRemain line := by
  constructor
  · intro h
    unfold Buffer.readChunkHead at h
    rcases hcollect : Buffer.collectHead [] items with ⟨result, rest'⟩
    rw [hcollect] at h
    cases result with
    | again => simp at h
    | threw e => simp at h
    | line line =>
      simp only at h
      rcases hread : Inbound.read 1 rest' with ⟨answer, rest''⟩
      rw [hread] at h
      cases answer with
      | again => simp at h
      | threw e => simp at h
      | ok bs =>
        simp only at h
        by_cases hlf : bs = [LF]
        swap
        · simp [hlf] at h
        rw [if_pos hlf] at h
        obtain ⟨rfl, rfl⟩ : extractLongLong 16 chunkRemain line = count ∧ rest'' = rest := by
          simpa using h
        obtain ⟨brk, rfl⟩ : ∃ brk, rest' = .byte LF brk :: rest'' := by
          rcases rest' with _ | ⟨⟨b, brk⟩ | _ | _ | e, rest'⟩
          · simp [Inbound.read] at hread
          · rw [Inbound.read_one_byte] at hread
            simp_all
          · simp [Inbound.read] at hread
          · simp [Inbound.read, hlf] at hread
          · simp [Inbound.read] at hread
        exact ⟨line, headerLine_of_collectHead hcollect, rfl⟩
  · rintro ⟨line, hline, rfl⟩
    obtain ⟨brk, hcollect⟩ := hline.collectHead
    simp [Buffer.readChunkHead, hcollect]

/-- The line and what follows it are determined. -/
lemma HeaderLine.unique {line' : Bytes} {rest' : Inbound} (h : HeaderLine items line rest)
    (h' : HeaderLine items line' rest') : line = line' ∧ rest = rest' := by
  obtain ⟨brk, hcollect⟩ := h.collectHead
  obtain ⟨brk', hcollect'⟩ := h'.collectHead
  rw [hcollect] at hcollect'
  simp only [Prod.mk.injEq, Buffer.HeadLine.line.injEq, List.cons.injEq] at hcollect'
  exact ⟨hcollect'.1, hcollect'.2.2⟩

/-! ## The size -/

/-- **The size that is extracted** from a real size line; it is clamped to 63 bits. -/
lemma SizeLine.extract (h : SizeLine line n) (old : ℤ) :
    extractLongLong 16 old line = if n < 2 ^ 63 then (n : ℤ) else 2 ^ 63 - 1 := by
  obtain ⟨lead, digits, ext, rfl, hlead, hdigits, hext, -⟩ := h
  have hskip : extractLongLong 16 old (lead ++ (digits ++ ext)) =
      extractLongLong 16 old (digits ++ ext) := by
    rcases hlead with rfl | rfl
    · rfl
    · rfl
  rw [hskip]
  apply extractLongLong_numeral hdigits
  intro c hc
  obtain rfl := hext c hc
  decide

/-! ## The read as a whole -/

namespace Buffer

variable {S : ℕ} {b b' : Buffer} {r : ReadOutcome} {count : ℤ}

/-- A read at a chunk header that does not throw there. -/
lemma read_of_headerLine (hkind : b.kind = .chunked (-1)) (h : HeaderLine items line rest) :
    b.read S items = readChunkData S { b with kind := .chunked (extractLongLong 16 (-1) line) }
      (extractLongLong 16 (-1) line) rest := by
  have hhead : readChunkHead (-1) items = (.ok, extractLongLong 16 (-1) line, rest) :=
    readChunkHead_ok_iff.2 ⟨line, h, rfl⟩
  unfold read
  rw [hkind]
  simp only [readChunked, if_true, hhead]

/-- One that does. -/
lemma read_of_not_headerLine (hkind : b.kind = .chunked (-1))
    (h : ¬ ∃ line rest, HeaderLine items line rest) :
    ∃ r rest, b.read S items = (r, b, rest) ∧ r ≠ .ok := by
  rcases hhead : readChunkHead (-1) items with ⟨r, count, rest⟩
  have hr : r ≠ .ok := by
    rintro rfl
    obtain ⟨line, hline, -⟩ := readChunkHead_ok_iff.1 hhead
    exact h ⟨line, rest, hline⟩
  refine ⟨r, rest, ?_, hr⟩
  unfold read
  rw [hkind]
  simp only [readChunked, if_true, hhead]

/-- No data is read for a count that is not positive. -/
lemma readChunkData_of_nonpos (hcount : count ≤ 0) :
    readChunkData S b count items = (.ok, { b with end_ := 0 }, items) :=
  if_neg (not_lt.2 hcount)

/-- What a read of chunk data leaves behind. -/
lemma readChunkData_of_pos (hcount : 0 < count)
    (h : readChunkData S { b with kind := .chunked count } count items = (r, b', rest)) :
    (r = .ok ∧ ∃ bs : Bytes, (bs.length : ℤ) ≤ count ∧ b' =
        ⟨.chunked (if count - bs.length = 0 then -1 else count - bs.length), bs, 0⟩) ∨
      r ≠ .ok ∧ b' = { b with kind := .chunked count } := by
  unfold readChunkData at h
  rw [if_pos hcount] at h
  rcases hfill : fill { b with kind := .chunked count } (min count.toNat S) items (fun n =>
    .chunked (if count - n = 0 then -1 else count - n)) with ⟨outcome, b₁, rest₁⟩
  rw [hfill] at h
  by_cases houtcome : outcome = .ok
  · subst houtcome
    obtain ⟨bs, hread, rfl⟩ := fill_ok hfill
    have hle : bs.length ≤ min count.toNat S := (Inbound.read_ok hread).2.1
    simp only [Prod.mk.injEq] at h
    obtain ⟨rfl, rfl, -⟩ := h
    exact Or.inl ⟨rfl, bs, by omega, rfl⟩
  · obtain ⟨rfl, -⟩ := fill_not_ok hfill houtcome
    right
    cases outcome with
    | ok => exact absurd rfl houtcome
    | again =>
      simp only [Prod.mk.injEq] at h
      obtain ⟨rfl, rfl, -⟩ := h
      exact ⟨houtcome, rfl⟩
    | threw e =>
      simp only [Prod.mk.injEq] at h
      obtain ⟨rfl, rfl, -⟩ := h
      exact ⟨houtcome, rfl⟩

/-- **The count can be told from what the read leaves behind.** -/
lemma readChunkData_inj {m n : ℤ} (hm : 0 < m) (hn : 0 < n)
    (h : readChunkData S { b with kind := .chunked m } m items =
      readChunkData S { b with kind := .chunked n } n items) : m = n := by
  rcases hleft : readChunkData S { b with kind := .chunked m } m items with ⟨r, b', rest⟩
  rw [hleft] at h
  rcases readChunkData_of_pos hm hleft with ⟨rfl, bs, hle, rfl⟩ | ⟨hr, rfl⟩
  · rcases readChunkData_of_pos hn h.symm with ⟨-, bs', hle', heq⟩ | ⟨hr, -⟩
    · simp only [Buffer.mk.injEq, BufferKind.chunked.injEq, and_true] at heq
      obtain ⟨hcount, rfl⟩ := heq
      split_ifs at hcount <;> omega
    · exact absurd rfl hr
  · rcases readChunkData_of_pos hn h.symm with ⟨rfl, -⟩ | ⟨-, heq⟩
    · exact absurd rfl hr
    · simpa using heq

end Buffer

/-! ## What is accepted -/

section Accepts

variable {S : ℕ} {b : Buffer}

/-- Behind a real size line that fits, the promise is kept. -/
lemma accepts_of_sizeLine (hkind : b.kind = .chunked (-1)) (hline : HeaderLine items line rest)
    (hsize : SizeLine line n) (hfits : n < 2 ^ 63) : Accepts S b items := by
  have hread : b.read S items =
      Buffer.readChunkData S { b with kind := .chunked n } n rest := by
    rw [Buffer.read_of_headerLine hkind hline, hsize.extract, if_pos hfits]
  have hleft : ∀ {r b' rest'}, b.read S items = (r, b', rest') →
      (n = 0 ∧ b'.kind = .chunked 0) ∨
        ∃ count : ℤ, b'.kind = .chunked count ∧ count ≠ 0 ∧ -1 ≤ count := by
    intro r b' rest' h
    rw [hread] at h
    by_cases hzero : n = 0
    · rw [hzero, Buffer.readChunkData_of_nonpos (by simp)] at h
      simp only [Prod.mk.injEq] at h
      obtain ⟨-, rfl, -⟩ := h
      exact Or.inl ⟨hzero, rfl⟩
    · have hpos : (0 : ℤ) < n := by omega
      right
      rcases Buffer.readChunkData_of_pos hpos h with ⟨-, bs, hle, rfl⟩ | ⟨-, rfl⟩
      · refine ⟨_, rfl, ?_, ?_⟩
        · split_ifs <;> omega
        · split_ifs <;> omega
      · exact ⟨n, rfl, by omega, by omega⟩
  refine ⟨Or.inr ⟨line, n, rest, hline, hsize, hread⟩, ?_, ?_⟩
  · intro r b' rest' h hfin
    rcases hleft h with ⟨rfl, -⟩ | ⟨count, hcount, hne, -⟩
    · exact ⟨line, rest, hline, hsize⟩
    · rw [Buffer.finished, hcount] at hfin
      exact absurd (beq_iff_eq.1 hfin) hne
  · intro r b' rest' h
    rcases hleft h with ⟨-, hcount⟩ | ⟨count, hcount, -, hle⟩
    · exact ⟨0, hcount, by decide⟩
    · exact ⟨count, hcount, hle⟩

/-- When the header throws, it is kept too. -/
lemma accepts_of_not_headerLine (hkind : b.kind = .chunked (-1))
    (h : ¬ ∃ line rest, HeaderLine items line rest) : Accepts S b items := by
  obtain ⟨r, rest, hread, hr⟩ := Buffer.read_of_not_headerLine (S := S) hkind h
  refine ⟨Or.inl ⟨r, rest, hread, hr⟩, ?_, ?_⟩
  · intro r' b' rest' h' hfin
    rw [hread] at h'
    obtain ⟨-, rfl, -⟩ := Prod.mk.inj h' |>.imp id Prod.mk.inj
    rw [Buffer.finished, hkind] at hfin
    cases hfin
  · intro r' b' rest' h'
    rw [hread] at h'
    obtain ⟨-, rfl, -⟩ := Prod.mk.inj h' |>.imp id Prod.mk.inj
    exact ⟨-1, hkind, le_rfl⟩

/-- **The promise is broken by every other line** that the loop accepts. -/
lemma sizeLine_of_accepts (hkind : b.kind = .chunked (-1)) (h : Accepts S b items)
    (hline : HeaderLine items line rest) : ∃ n < 2 ^ 63, SizeLine line n := by
  have hread := Buffer.read_of_headerLine (S := S) hkind hline
  rcases h.line with ⟨r, rest', hthrew, hr⟩ | ⟨line', n, rest', hline', hsize, hgoes⟩
  · -- the count has been stored before the data are read
    exfalso
    rw [hthrew] at hread
    by_cases hpos : 0 < extractLongLong 16 (-1) line
    · rcases Buffer.readChunkData_of_pos hpos hread.symm with ⟨hok, -⟩ | ⟨-, heq⟩
      · exact hr hok
      · rw [heq] at hkind
        obtain hminus := BufferKind.chunked.inj hkind
        omega
    · rw [Buffer.readChunkData_of_nonpos (not_lt.1 hpos)] at hread
      exact hr (Prod.mk.inj hread).1
  · obtain ⟨rfl, rfl⟩ := hline.unique hline'
    refine ⟨n, ?_, hsize⟩
    by_contra hlarge
    rw [hgoes, hsize.extract, if_neg hlarge] at hread
    have hclamped := Buffer.readChunkData_inj (by omega) (by decide) hread
    omega

/-- **Only a real chunk-size line is accepted** if and only if the line that the loop accepts, if
there is one, is a size line and its size is below 2⁶³. -/
theorem accepts_iff (hkind : b.kind = .chunked (-1)) : Accepts S b items ↔
    ∀ line rest, HeaderLine items line rest → ∃ n < 2 ^ 63, SizeLine line n := by
  constructor
  · intro h line rest hline
    exact sizeLine_of_accepts hkind h hline
  · intro h
    by_cases hline : ∃ line rest, HeaderLine items line rest
    · obtain ⟨line, rest, hline⟩ := hline
      obtain ⟨n, hfits, hsize⟩ := h line rest hline
      exact accepts_of_sizeLine hkind hline hsize hfits
    · exact accepts_of_not_headerLine hkind hline

/-- A chunk of five bytes, with an extension. -/
theorem accepts_five : Accepts kBufferSize { kind := .chunked (-1) }
    ((bytes "5;q\r\nhello").map (.byte · false)) := by
  refine (accepts_iff rfl).2 ?_
  intro line rest hline
  obtain ⟨brk, hcollect⟩ := hline.collectHead
  have hfive : Buffer.collectHead [] ((bytes "5;q\r\nhello").map (.byte · false)) =
      (.line (bytes "5;q"), (bytes "\nhello").map (.byte · false)) := by
    decide +kernel
  rw [hfive] at hcollect
  obtain rfl := Buffer.HeadLine.line.inj (Prod.mk.inj hcollect).1
  refine ⟨5, by decide, [], bytes "5", bytes ";q", rfl, Or.inl rfl, ?_, ?_, by decide⟩
  · exact ⟨by decide, by decide +kernel, by decide⟩
  · rintro c ⟨⟩
    rfl

/-- A size line starts with a digit, or with the CR of the chunk before. -/
lemma SizeLine.first (h : SizeLine line n) :
    ∀ c ∈ line.head?, (digitValue 16 c).isSome = true ∨ c = CR := by
  obtain ⟨lead, digits, ext, rfl, hlead, hdigits, -, -⟩ := h
  intro c hc
  rcases hlead with rfl | rfl
  · obtain ⟨d, digits', rfl⟩ := List.exists_cons_of_ne_nil hdigits.ne
    obtain rfl := Option.some.inj hc
    exact Or.inl (hdigits.digits d List.mem_cons_self)
  · exact Or.inr (Option.some.inj hc).symm

/-- **A line without a number ends the body**, and a negative one stays as the count, with which
no later read gets on. -/
theorem accepts_no_number :
    (Buffer.read kBufferSize { kind := .chunked (-1) } ((bytes "xyz\r\n").map (.byte · false)) =
        (.ok, { kind := .chunked 0 }, []) ∧
      ¬ Accepts kBufferSize { kind := .chunked (-1) } ((bytes "xyz\r\n").map (.byte · false))) ∧
    Buffer.read kBufferSize { kind := .chunked (-1) } ((bytes "-5\r\n").map (.byte · false)) =
        (.ok, { kind := .chunked (-5) }, []) ∧
      ¬ Accepts kBufferSize { kind := .chunked (-1) }
        ((bytes "-5\r\n").map (.byte · false)) := by
  have hxyz : Buffer.read kBufferSize { kind := .chunked (-1) }
      ((bytes "xyz\r\n").map (.byte · false)) = (.ok, { kind := .chunked 0 }, []) := by
    decide +kernel
  have hminus : Buffer.read kBufferSize { kind := .chunked (-1) }
      ((bytes "-5\r\n").map (.byte · false)) = (.ok, { kind := .chunked (-5) }, []) := by
    decide +kernel
  refine ⟨⟨hxyz, ?_⟩, hminus, ?_⟩
  · intro h
    obtain ⟨line, rest, hline, hsize⟩ := h.finished _ _ _ hxyz rfl
    obtain ⟨brk, hcollect⟩ := hline.collectHead
    have hline' : Buffer.collectHead [] ((bytes "xyz\r\n").map (.byte · false)) =
        (.line (bytes "xyz"), [.byte LF false]) := by
      decide +kernel
    rw [hline'] at hcollect
    obtain rfl := Buffer.HeadLine.line.inj (Prod.mk.inj hcollect).1
    have hfirst := SizeLine.first hsize 120 rfl
    exact absurd hfirst (by decide)
  · intro h
    obtain ⟨count, hkind, hle⟩ := h.count _ _ _ hminus
    obtain rfl := BufferKind.chunked.inj hkind
    exact absurd hle (by decide)

end Accepts

end Cld
