import Cld.Model.Worker

/-!
# Chunked bodies

The HTTP/1.1 chunked coding, as a server writes it, and what a caller gets who reads a
`ChunkedBuffer` until it is `finished()`.

`Decodes` is what the buffer is for: the valid bytes of the calls, one after the other, are
the chunks, and the last call is the one that meets the zero-size chunk, so that its final
line is what the stream still holds.  `ChunkedBuffer::read` falls short of it for every body
that has a byte: its last statement, meant for a chunk head that is not complete, resets
`end_` on every path, and the caller never sees what was read.
-/

namespace Cld

/-- The size line of a chunk. -/
def chunkSizeLine (n : ℕ) : Bytes :=
  (Nat.toDigits 16 n).map (fun c => UInt8.ofNat c.toNat) ++ [CR, LF]

/-- The chunked coding of a list of chunks. -/
def encodeChunks (chunks : List Bytes) : Bytes :=
  chunks.flatMap (fun chunk => chunkSizeLine chunk.length ++ chunk ++ [CR, LF]) ++
    chunkSizeLine 0 ++ [CR, LF]

/-- The stream always has its next byte available. -/
def AlwaysReady (items : Inbound) : Prop := ∀ item ∈ items, ∃ b brk, item = .byte b brk

/-- A stream that is ready delivers the bytes of its payload. -/
lemma AlwaysReady.uncons {items : Inbound} {c : Byte} {cs : Bytes} (hready : AlwaysReady items)
    (hpay : payload items = c :: cs) : ∃ brk items', items = .byte c brk :: items' ∧
      AlwaysReady items' ∧ payload items' = cs := by
  cases items with
  | nil => cases hpay
  | cons item items' =>
    obtain ⟨b, brk, rfl⟩ := hready item List.mem_cons_self
    rw [payload_byte] at hpay
    obtain ⟨rfl, hcs⟩ := List.cons.inj hpay
    exact ⟨brk, items', rfl, fun i hi => hready i (List.mem_cons_of_mem _ hi), hcs⟩

lemma AlwaysReady.cons {items : Inbound} (hready : AlwaysReady items) (c : Byte) (brk : Bool) :
    AlwaysReady (.byte c brk :: items) :=
  List.forall_mem_cons.2 ⟨⟨c, brk, rfl⟩, hready⟩

lemma AlwaysReady.payload_append {front : Inbound} (hready : AlwaysReady front)
    (items : Inbound) : payload (front ++ items) = payload front ++ payload items := by
  induction front with
  | nil => rfl
  | cons item front ih =>
    obtain ⟨⟨b, brk, rfl⟩, hready'⟩ := List.forall_mem_cons.1 hready
    rw [List.cons_append, payload_byte, payload_byte, ih hready', List.cons_append]

/-- Where the payload is cut, the stream can be cut. -/
lemma AlwaysReady.split {items : Inbound} {s t : Bytes} (hready : AlwaysReady items)
    (hpay : payload items = s ++ t) : ∃ front back, items = front ++ back ∧
      AlwaysReady front ∧ AlwaysReady back ∧ payload front = s ∧ payload back = t := by
  induction s generalizing items with
  | nil => exact ⟨[], items, rfl, List.forall_mem_nil _, hready, rfl, hpay⟩
  | cons c s ih =>
    obtain ⟨brk, items', rfl, hready', hpay'⟩ := hready.uncons hpay
    obtain ⟨front, back, rfl, hfront, hback, rfl, rfl⟩ := ih hready' hpay'
    exact ⟨.byte c brk :: front, back, rfl, hfront.cons c brk, hback, rfl, rfl⟩

/-- Nothing else is on such a stream. -/
lemma AlwaysReady.eq_nil {items : Inbound} (hready : AlwaysReady items)
    (hpay : payload items = []) : items = [] := by
  cases items with
  | nil => rfl
  | cons item items =>
    obtain ⟨b, brk, rfl⟩ := hready item List.mem_cons_self
    cases hpay

namespace Buffer

/-- Call `read` until `finished()`, at most so many times: the valid bytes after each call, and
the rest of the stream. -/
def readToEnd (S : ℕ) : ℕ → Buffer → Inbound → Option (Bytes × Inbound)
  | 0, _, _ => none
  | calls + 1, b, items =>
    match b.read S items with
    | (.ok, b', rest) =>
      if b'.finished then some (b'.valid, rest)
      else (readToEnd S calls b' rest).map fun r => (b'.valid ++ r.1, r.2)
    | _ => none

/-- A fresh `ChunkedBuffer` decodes `items`, which begin with the coding of the chunks: what it
hands out are the chunks, and it is finished at the zero-size chunk and not before. -/
def Decodes (S : ℕ) (chunks : List Bytes) (items : Inbound) (tail : Bytes) : Prop :=
  ∃ calls rest, readToEnd S calls { kind := .chunked (-1) } items = some (chunks.flatten, rest) ∧
    payload rest = [CR, LF] ++ tail

variable {S : ℕ} {b b' : Buffer} {items rest : Inbound} {outcome : ReadOutcome}

/-! ## What a chunked buffer hands out -/

lemma readChunkData_kind {chunkRemain : ℤ} (hkind : ∃ r, b.kind = .chunked r)
    (h : b.readChunkData S chunkRemain items = (outcome, b', rest)) :
    ∃ r, b'.kind = .chunked r := by
  unfold readChunkData at h
  split at h
  · unfold fill at h
    rcases hread : items.read (min chunkRemain.toNat S) with ⟨r, rest'⟩
    rw [hread] at h
    cases r with
    | ok bs =>
      simp only [Prod.mk.injEq] at h
      rw [← h.2.1]
      exact ⟨_, rfl⟩
    | again =>
      simp only [Prod.mk.injEq] at h
      rwa [← h.2.1]
    | threw e =>
      simp only [Prod.mk.injEq] at h
      rwa [← h.2.1]
  · simp only [Prod.mk.injEq] at h
    rw [← h.2.1]
    exact hkind

/-- A chunked buffer stays one. -/
lemma read_kind_of_chunked (hkind : ∃ r, b.kind = .chunked r)
    (h : b.read S items = (outcome, b', rest)) : ∃ r, b'.kind = .chunked r := by
  obtain ⟨r, hr⟩ := hkind
  unfold read at h
  rw [hr] at h
  simp only [readChunked] at h
  split at h
  · rcases hhead : readChunkHead r items with ⟨outcome', r', rest'⟩
    rw [hhead] at h
    cases outcome' with
    | ok => exact readChunkData_kind ⟨r', rfl⟩ h
    | again =>
      simp only [Prod.mk.injEq] at h
      exact ⟨r, h.2.1 ▸ hr⟩
    | threw e =>
      simp only [Prod.mk.injEq] at h
      exact ⟨r, h.2.1 ▸ hr⟩
  · exact readChunkData_kind ⟨r, hr⟩ h

/-- It has no valid bytes after a call that returns. -/
lemma valid_of_chunked (hkind : ∃ r, b.kind = .chunked r)
    (h : b.read S items = (.ok, b', rest)) : b'.end_ = 0 := by
  obtain ⟨r, hr⟩ := hkind
  unfold read at h
  rw [hr] at h
  exact readChunked_end h

/-- **A caller who reads until `finished()` gets nothing.** -/
lemma readToEnd_of_chunked {calls : ℕ} {out : Bytes} (hkind : ∃ r, b.kind = .chunked r)
    (h : readToEnd S calls b items = some (out, rest)) : out = [] := by
  induction calls generalizing b items out rest with
  | zero => cases h
  | succ calls ih =>
    rcases hread : b.read S items with ⟨outcome, b', rest'⟩
    simp only [readToEnd, hread] at h
    cases outcome with
    | again => cases h
    | threw e => cases h
    | ok =>
      have hvalid : b'.valid = [] := by
        rw [valid, valid_of_chunked hkind hread, List.take_zero]
      simp only [hvalid] at h
      split_ifs at h with hfin
      · exact (Prod.mk.inj (Option.some.inj h)).1.symm
      · obtain ⟨r, hr, hout⟩ := Option.map_eq_some_iff.1 h
        have hnil : r.1 = [] := ih (read_kind_of_chunked hkind hread) hr
        rw [hnil] at hout
        exact (Prod.mk.inj hout).1.symm

/-! ## The empty body -/

/-- With no chunk at all, the first call meets the zero-size chunk. -/
lemma decodes_nil {tail : Bytes} (hready : AlwaysReady items)
    (hpay : payload items = encodeChunks [] ++ tail) : Decodes S [] items tail := by
  have hpay' : payload items = 48 :: CR :: LF :: ([CR, LF] ++ tail) := hpay
  obtain ⟨brk₀, items₁, rfl, hready₁, hpay₁⟩ := hready.uncons hpay'
  obtain ⟨brk₁, items₂, rfl, hready₂, hpay₂⟩ := hready₁.uncons hpay₁
  obtain ⟨brk₂, items₃, rfl, -, hpay₃⟩ := hready₂.uncons hpay₂
  refine ⟨1, items₃, ?_, hpay₃⟩
  have hline : collectHead [] (.byte 48 brk₀ :: .byte CR brk₁ :: .byte LF brk₂ :: items₃) =
      (.line [48], .byte LF brk₂ :: items₃) := by
    simp [collectHead, CR, isBlank]
  have hhead : readChunkHead (-1) (.byte 48 brk₀ :: .byte CR brk₁ :: .byte LF brk₂ :: items₃) =
      (.ok, 0, items₃) := by
    have hsize : extractLongLong 16 (-1) [48] = 0 := by decide
    simp [readChunkHead, hline, hsize]
  have hread : read S { kind := .chunked (-1) }
      (.byte 48 brk₀ :: .byte CR brk₁ :: .byte LF brk₂ :: items₃) =
      (.ok, { kind := .chunked 0 }, items₃) := by
    simp [read, readChunked, hhead, readChunkData]
  simp [readToEnd, hread, finished, valid]

/-- **Chunked decoding undoes chunked encoding for the empty body, and for no other**, whatever
the buffer size, the chunks and the segmentation of the stream. -/
theorem decodes_iff {chunks : List Bytes} {tail : Bytes} (hchunks : ∀ chunk ∈ chunks, chunk ≠ [])
    (hready : AlwaysReady items) (hpay : payload items = encodeChunks chunks ++ tail) :
    Decodes S chunks items tail ↔ chunks = [] := by
  constructor
  · rintro ⟨calls, rest, hread, -⟩
    have hflat : chunks.flatten = [] := readToEnd_of_chunked ⟨-1, rfl⟩ hread
    refine List.eq_nil_iff_forall_not_mem.2 fun chunk hmem => hchunks chunk hmem ?_
    exact List.flatten_eq_nil_iff.1 hflat chunk hmem
  · rintro rfl
    exact decodes_nil hready hpay

/-- The coding of the empty body, byte by byte. -/
theorem decodes_empty_body : Decodes 4096 []
    [.byte 48 true, .byte CR true, .byte LF true, .byte CR true, .byte LF true] [] := by
  refine (decodes_iff (by decide) ?_ rfl).2 rfl
  intro item hitem
  simp only [List.mem_cons, List.not_mem_nil, or_false] at hitem
  rcases hitem with rfl | rfl | rfl | rfl | rfl <;> exact ⟨_, _, rfl⟩

/-- One chunk with one byte is lost. -/
theorem loses_one_byte : ¬ Decodes 4096 [[65]]
    ((encodeChunks [[65]]).map fun b => .byte b false) [] := by
  rintro ⟨calls, rest, hread, -⟩
  have hnil : [[(65 : Byte)]].flatten = [] := readToEnd_of_chunked ⟨-1, rfl⟩ hread
  cases hnil

end Buffer

end Cld
