import Cld.Body.ChunkHead
import Cld.Body.Length

/-!
# The decoder, byte by byte

`ChunkedBuffer::read`, called again and again on one stream, as what it does with the bytes.

* `DecodeEvent` is what can be seen of it from outside: the sizes it reads, the bytes it takes as
  chunk data and the point at which it is finished, each with the number of bytes still to
  come.  `Buffer.decode` logs them over any number of calls.
* `Decoding` is where the decoder stands between two bytes, and `Decoding.events` the log of a
  machine that takes one byte at a time.  It forgets the collected part of a header when the
  stream is suspended there, because a call keeps it in a local string.
* `logs_of_lt`: the calls log what the machine logs, whatever the segmentation of the
  stream and the size of the array.
-/

namespace Cld

/-- What can be seen of the decoder; `left` counts the bytes of the stream behind it. -/
inductive DecodeEvent
  /-- A chunk size has been extracted. -/
  | size (value : ℤ)
  /-- A byte has been read as chunk data. -/
  | data (b : Byte) (left : ℕ)
  /-- `finished()` has become true. -/
  | finished (left : ℕ)
  deriving DecidableEq

/-- Bytes of chunk data, the last of which has `left` bytes behind it. -/
def dataEvents (left : ℕ) : Bytes → List DecodeEvent
  | [] => []
  | b :: bs => .data b (left + bs.length) :: dataEvents left bs

namespace Buffer

/-- What the second half of a read logs. -/
def readDataEvents (S : ℕ) (chunkRemain : ℤ) (items : Inbound) : List DecodeEvent :=
  if 0 < chunkRemain then
    match items.read (min chunkRemain.toNat S) with
    | (.ok bs, rest) => dataEvents (payload rest).length bs
    | _ => []
  else []

/-- What a read of a chunked buffer logs. -/
def readEvents (S : ℕ) (chunkRemain : ℤ) (items : Inbound) : List DecodeEvent :=
  if chunkRemain = -1 then
    match readChunkHead chunkRemain items with
    | (.ok, chunkRemain, rest) => .size chunkRemain :: readDataEvents S chunkRemain rest
    | _ => []
  else readDataEvents S chunkRemain items

/-- So many calls of `read` on a chunked buffer, up to the one that finishes it or throws: after
a suspension the buffer is read again. -/
def decode (S : ℕ) : ℕ → Buffer → Inbound → List DecodeEvent
  | 0, _, _ => []
  | count + 1, b, items =>
    match b.kind with
    | .chunked chunkRemain =>
      readEvents S chunkRemain items ++
        match b.read S items with
        | (.ok, b', rest) =>
          if b'.finished then [.finished (payload rest).length] else decode S count b' rest
        | (.again, b', rest) => decode S count b' rest
        | (.threw _, _, _) => []
    | _ => []

end Buffer

/-! ## The machine -/

/-- Where the decoder stands. -/
inductive Decoding
  /-- In a header, of which this has been collected. -/
  | head (collected : Bytes)
  /-- Behind the CR of a header. -/
  | headLf (collected : Bytes)
  /-- In a chunk of which so many bytes are to come. -/
  | data (remain : ℕ)

namespace Decoding

/-- The log of the machine. -/
def events : Decoding → Inbound → List DecodeEvent
  | _, [] => []
  | _, .eof :: _ => []
  | _, .fail _ :: _ => []
  | .head _, .again :: rest => events (.head []) rest
  | .headLf _, .again :: rest => events (.head []) rest
  | .data remain, .again :: rest => events (.data remain) rest
  | .head collected, .byte c _ :: rest =>
    if collected ≠ [] ∧ c = CR then events (.headLf collected) rest
    else if isBlank c then
      if collected = [] then events (.head []) rest else []
    else events (.head (collected ++ [c])) rest
  | .headLf collected, .byte c _ :: rest =>
    if c = LF then
      let value := extractLongLong 16 (-1) collected
      .size value ::
        if 0 < value then events (.data value.toNat) rest
        else if value = 0 then [.finished (payload rest).length]
        else if value = -1 then events (.head []) rest
        else []
    else []
  | .data remain, .byte c _ :: rest =>
    .data c (payload rest).length ::
      if remain ≤ 1 then events (.head []) rest else events (.data (remain - 1)) rest

end Decoding

/-! ## One call -/

variable {S : ℕ} {items rest : Inbound} {collected line : Bytes}

lemma Steadfast.tail {item : Incoming} (h : Steadfast (item :: items)) : Steadfast items :=
  fun i hi => h i (List.mem_cons_of_mem item hi)

lemma Steadfast.suffix (h : Steadfast items) (hsuffix : rest <:+ items) : Steadfast rest :=
  fun i hi => h i (hsuffix.mem hi)

/-- The loop of the header, as steps of the machine. -/
lemma events_of_collectHead (hitems : Steadfast items) {result : Buffer.HeadLine}
    (h : Buffer.collectHead collected items = (result, rest)) : rest <:+ items ∧
      (∀ line, result = .line line → rest.length < items.length ∧
        Decoding.events (.head collected) items = Decoding.events (.headLf line) rest) ∧
      (result = .again → (items = [] ∨ rest.length < items.length) ∧
        Decoding.events (.head collected) items = Decoding.events (.head []) rest) ∧
      ∀ e, result = .threw e → Decoding.events (.head collected) items = [] := by
  induction items generalizing collected with
  | nil =>
    obtain ⟨rfl, rfl⟩ := Prod.mk.inj h
    exact ⟨List.suffix_rfl, by simp, fun _ => ⟨Or.inl rfl, rfl⟩, by simp⟩
  | cons item items ih =>
    have hitems' := hitems.tail
    rcases hitems item List.mem_cons_self with rfl | ⟨c, brk, rfl⟩
    · obtain ⟨rfl, rfl⟩ := Prod.mk.inj h
      exact ⟨List.suffix_cons _ _, by simp, fun _ => ⟨Or.inr (Nat.lt_succ_self _), rfl⟩, by simp⟩
    · rw [Buffer.collectHead] at h
      rw [Decoding.events]
      by_cases hcr : collected ≠ [] ∧ c = CR
      · rw [if_pos hcr] at h
        obtain ⟨rfl, rfl⟩ := Prod.mk.inj h
        rw [if_pos hcr]
        refine ⟨List.suffix_cons _ _, ?_, by simp, by simp⟩
        intro line hline
        obtain rfl := Buffer.HeadLine.line.inj hline
        exact ⟨Nat.lt_succ_self _, rfl⟩
      · rw [if_neg hcr] at h
        rw [if_neg hcr]
        have hstep : ∀ {collected' : Bytes},
            Buffer.collectHead collected' items = (result, rest) → rest <:+ .byte c brk :: items ∧
            (∀ line, result = .line line → rest.length < (Incoming.byte c brk :: items).length ∧
              Decoding.events (.head collected') items = Decoding.events (.headLf line) rest) ∧
            (result = .again →
              (Incoming.byte c brk :: items = [] ∨
                rest.length < (Incoming.byte c brk :: items).length) ∧
              Decoding.events (.head collected') items = Decoding.events (.head []) rest) ∧
            ∀ e, result = .threw e → Decoding.events (.head collected') items = [] := by
          intro collected' h'
          obtain ⟨hsuffix, hline, hagain, hthrew⟩ := ih hitems' h'
          refine ⟨hsuffix.trans (List.suffix_cons _ _), ?_, ?_, hthrew⟩
          · intro line hres
            exact ⟨Nat.lt_succ_of_lt (hline line hres).1, (hline line hres).2⟩
          · intro hres
            exact ⟨Or.inr (Nat.lt_succ_of_le hsuffix.length_le), (hagain hres).2⟩
        by_cases hblank : isBlank c = true
        · rw [if_pos hblank] at h
          rw [if_pos hblank]
          by_cases hempty : collected = []
          · subst hempty
            rw [if_pos rfl] at h
            rw [if_pos rfl]
            exact hstep h
          · rw [if_neg hempty] at h
            obtain ⟨rfl, rfl⟩ := Prod.mk.inj h
            rw [if_neg hempty]
            exact ⟨List.suffix_cons _ _, by simp, by simp, by simp⟩
        · rw [if_neg hblank] at h
          rw [if_neg hblank]
          exact hstep h

/-- Chunk data, up to where a read stops short. -/
lemma events_of_takeRun {remain : ℕ} (count : ℕ) (hremain : remain ≠ 0) (hcount : count ≤ remain) :
    Decoding.events (.data remain) items =
      dataEvents (payload (takeRun count items).2).length (takeRun count items).1 ++
        Decoding.events (if (takeRun count items).1.length < remain
          then .data (remain - (takeRun count items).1.length) else .head [])
          (takeRun count items).2 := by
  induction count generalizing remain items with
  | zero => simp [takeRun, dataEvents, Nat.pos_of_ne_zero hremain]
  | succ count ih =>
    rcases items with _ | ⟨⟨c, brk⟩ | _ | _ | e, items⟩
    · simp [takeRun, dataEvents, Nat.pos_of_ne_zero hremain]
    · rw [Decoding.events]
      cases brk with
      | true =>
        by_cases hone : remain ≤ 1
        · simp [takeRun, dataEvents, hone, Nat.not_lt.2 hone]
        · simp [takeRun, dataEvents, hone, Nat.lt_of_not_le hone]
      | false =>
        obtain ⟨hpay, hlength, -⟩ := takeRun_spec count items
        have hleft : (payload items).length =
            (payload (takeRun count items).2).length + (takeRun count items).1.length := by
          rw [hpay, List.length_append, Nat.add_comm]
        have htake : takeRun (count + 1) (.byte c false :: items) =
            (c :: (takeRun count items).1, (takeRun count items).2) := rfl
        rw [htake, hleft]
        by_cases hone : remain ≤ 1
        · obtain rfl : count = 0 := by omega
          simp [takeRun, dataEvents, hone, Nat.not_lt.2 hone]
        · have hih := @ih items (remain - 1) (by omega) (by omega)
          rw [if_neg hone, hih]
          have hsub : remain - 1 - (takeRun count items).1.length =
              remain - ((takeRun count items).1.length + 1) := by omega
          have hlt : (takeRun count items).1.length < remain - 1 ↔
              (takeRun count items).1.length + 1 < remain := by omega
          simp only [dataEvents, List.cons_append, List.length_cons, hsub, hlt]
    all_goals simp [takeRun, dataEvents, Nat.pos_of_ne_zero hremain]

/-- What the machine does with a size. -/
def Decoding.behindSize (value : ℤ) (rest : Inbound) : List DecodeEvent :=
  if 0 < value then Decoding.events (.data value.toNat) rest
  else if value = 0 then [.finished (payload rest).length]
  else if value = -1 then Decoding.events (.head []) rest
  else []

/-- The header of a chunk as a whole. -/
lemma events_of_readChunkHead (hitems : Steadfast items) {r : ReadOutcome} {value : ℤ}
    (h : Buffer.readChunkHead (-1) items = (r, value, rest)) : rest <:+ items ∧
      (r = .ok → rest.length < items.length ∧
        Decoding.events (.head []) items = .size value :: Decoding.behindSize value rest) ∧
      (r = .again → (items = [] ∨ rest.length < items.length) ∧
        Decoding.events (.head []) items = Decoding.events (.head []) rest) ∧
      ∀ e, r = .threw e → Decoding.events (.head []) items = [] := by
  unfold Buffer.readChunkHead at h
  rcases hcollect : Buffer.collectHead [] items with ⟨result, rest₁⟩
  obtain ⟨hsuffix, hline, hagain, hthrew⟩ := events_of_collectHead hitems hcollect
  rw [hcollect] at h
  cases result with
  | again =>
    simp only [Prod.mk.injEq] at h
    obtain ⟨rfl, -, rfl⟩ := h
    exact ⟨hsuffix, by simp, fun _ => hagain rfl, by simp⟩
  | threw e =>
    simp only [Prod.mk.injEq] at h
    obtain ⟨rfl, -, rfl⟩ := h
    exact ⟨hsuffix, by simp, by simp, fun _ _ => hthrew e rfl⟩
  | line line =>
    obtain ⟨hshort, hevents⟩ := hline line rfl
    rw [hevents]
    simp only at h
    rcases rest₁ with _ | ⟨item, rest₁⟩
    · simp only [Inbound.read, one_ne_zero, if_false, Prod.mk.injEq] at h
      obtain ⟨rfl, -, rfl⟩ := h
      exact ⟨hsuffix, by simp, fun _ => ⟨Or.inr hshort, rfl⟩, by simp⟩
    · have hshorter : rest₁.length < items.length := Nat.lt_of_succ_lt hshort
      have hsuffix' : rest₁ <:+ items := (List.suffix_cons item rest₁).trans hsuffix
      rcases hitems.suffix hsuffix item List.mem_cons_self with rfl | ⟨c, brk, rfl⟩
      · simp only [Inbound.read, one_ne_zero, if_false, Prod.mk.injEq] at h
        obtain ⟨rfl, -, rfl⟩ := h
        exact ⟨hsuffix', by simp, fun _ => ⟨Or.inr hshorter, rfl⟩, by simp⟩
      · simp only [Inbound.read_one_byte, List.cons.injEq, and_true] at h
        rw [Decoding.events]
        by_cases hlf : c = LF
        · rw [if_pos hlf, Prod.mk.injEq, Prod.mk.injEq] at h
          obtain ⟨rfl, rfl, rfl⟩ := h
          rw [if_pos hlf]
          exact ⟨hsuffix', fun _ => ⟨hshorter, rfl⟩, by simp, by simp⟩
        · rw [if_neg hlf, Prod.mk.injEq, Prod.mk.injEq] at h
          obtain ⟨rfl, -, rfl⟩ := h
          rw [if_neg hlf]
          exact ⟨hsuffix', by simp, by simp, fun _ _ => rfl⟩

/-- The data of a chunk, as far as one call takes them. -/
lemma events_of_readChunkData (hS : S ≠ 0) (hitems : Steadfast items) {b b' : Buffer} {count : ℤ}
    {r : ReadOutcome} (hkind : b.kind = .chunked count) (hcount : 0 < count)
    (h : b.readChunkData S count items = (r, b', rest)) :
    rest <:+ items ∧ (items = [] ∨ rest.length < items.length) ∧ (∀ e, r ≠ .threw e) ∧
      ∃ state, (state = .head [] ∧ b'.kind = .chunked (-1) ∨
          ∃ left : ℤ, 0 < left ∧ state = .data left.toNat ∧ b'.kind = .chunked left) ∧
        Decoding.events (.data count.toNat) items =
          Buffer.readDataEvents S count items ++ Decoding.events state rest := by
  have hasks : min count.toNat S ≠ 0 := by omega
  unfold Buffer.readChunkData Buffer.fill at h
  unfold Buffer.readDataEvents
  rw [if_pos hcount] at h ⊢
  rcases items with _ | ⟨item, items⟩
  · simp only [Inbound.read, if_neg hasks, Prod.mk.injEq] at h ⊢
    obtain ⟨rfl, rfl, rfl⟩ := h
    exact ⟨List.suffix_rfl, Or.inl trivial, by simp, _, Or.inr ⟨count, hcount, rfl, hkind⟩, rfl⟩
  · rcases hitems item List.mem_cons_self with rfl | ⟨c, brk, rfl⟩
    · simp only [Inbound.read, if_neg hasks, Prod.mk.injEq] at h ⊢
      obtain ⟨rfl, rfl, rfl⟩ := h
      exact ⟨List.suffix_cons _ _, Or.inr (Nat.lt_succ_self _), by simp, _,
        Or.inr ⟨count, hcount, rfl, hkind⟩, rfl⟩
    · have hevents := @events_of_takeRun (.byte c brk :: items) _ (min count.toNat S)
        (by omega : count.toNat ≠ 0) (min_le_left _ _)
      have hne := takeRun_ne_nil hasks c brk items
      obtain ⟨-, hle, hsum⟩ := takeRun_spec (min count.toNat S) (.byte c brk :: items)
      have hsuffix := Buffer.takeRun_suffix (min count.toNat S) (.byte c brk :: items)
      simp only [Inbound.read, if_neg hasks] at h ⊢
      generalize takeRun (min count.toNat S) (.byte c brk :: items) = run at *
      obtain ⟨bs, rest₁⟩ := run
      simp only [Prod.mk.injEq] at h hevents hne hle hsum hsuffix ⊢
      obtain ⟨rfl, rfl, rfl⟩ := h
      have hpos : 0 < bs.length := List.length_pos_iff.2 hne
      refine ⟨hsuffix, Or.inr (by omega), by simp, _, ?_, hevents⟩
      by_cases hmore : bs.length < count.toNat
      · right
        refine ⟨count - bs.length, by omega, ?_, ?_⟩
        · rw [if_pos hmore]
          congr 1
          omega
        · rw [if_neg (by omega)]
      · left
        rw [if_neg hmore, if_pos (by omega)]
        exact ⟨rfl, rfl⟩

/-! ## Any number of calls -/

section Calls

variable {b b' : Buffer} {calls : ℕ} {count : ℤ}

lemma finished_of_chunked (hkind : b.kind = .chunked count) : b.finished = (count == 0) := by
  rw [Buffer.finished, hkind]

lemma read_of_chunked (hkind : b.kind = .chunked count) :
    b.read S items = b.readChunked S count items := by
  rw [Buffer.read, hkind]

/-- One call that does not throw. -/
lemma decode_step {r : ReadOutcome} (hkind : b.kind = .chunked count)
    (hread : b.read S items = (r, b', rest)) (hr : ∀ e, r ≠ .threw e)
    (hfin : b'.finished = false) : b.decode S (calls + 1) items =
      Buffer.readEvents S count items ++ b'.decode S calls rest := by
  rw [Buffer.decode, hkind]
  simp only [hread]
  cases r with
  | ok => simp only [hfin, Bool.false_eq_true, if_false]
  | again => rfl
  | threw e => exact absurd rfl (hr e)

/-- On a stream that has nothing more, no call logs anything. -/
lemma decode_nil (hS : S ≠ 0) (hkind : b.kind = .chunked count) (hcount : count = -1 ∨ 0 < count) :
    b.decode S calls [] = [] := by
  induction calls with
  | zero => rfl
  | succ calls ih =>
    have hread : b.read S [] = (.again, b, []) ∧ Buffer.readEvents S count [] = [] := by
      rw [read_of_chunked hkind]
      rcases hcount with rfl | hpos
      · exact ⟨rfl, rfl⟩
      · have hne : count ≠ -1 := by omega
        have hasks : min count.toNat S ≠ 0 := by omega
        simp [Buffer.readChunked, Buffer.readEvents, hne, Buffer.readChunkData,
          Buffer.readDataEvents, Buffer.fill, Inbound.read, hpos, hasks]
    have hfin : b.finished = false := by
      rw [finished_of_chunked hkind, beq_eq_false_iff_ne]
      omega
    rw [decode_step hkind hread.1 (by simp) hfin, hread.2, ih, List.append_nil]

/-- With a negative count that asks for no header, the decoder is stuck. -/
lemma decode_of_neg (hkind : b.kind = .chunked count) (hcount : count < -1) :
    b.decode S calls items = [] := by
  induction calls generalizing b with
  | zero => rfl
  | succ calls ih =>
    have hne : count ≠ -1 := by omega
    have hpos : ¬ 0 < count := by omega
    have hread : b.read S items = (.ok, { b with end_ := 0 }, items) := by
      rw [read_of_chunked hkind]
      simp [Buffer.readChunked, hne, Buffer.readChunkData, hpos]
    have hfin : Buffer.finished { b with end_ := 0 } = false := by
      have hzero : (count == 0) = false := by
        rw [beq_eq_false_iff_ne]
        omega
      exact (finished_of_chunked hkind).trans hzero
    have hstuck : Buffer.decode S calls { b with end_ := 0 } items = [] := ih hkind
    rw [decode_step hkind hread (by simp) hfin, hstuck]
    simp [Buffer.readEvents, Buffer.readDataEvents, hne, hpos]

/-- The calls log what the machine logs, at a header and in a chunk. -/
def Logs (S calls : ℕ) (items : Inbound) : Prop :=
  ∀ b : Buffer,
    (b.kind = .chunked (-1) → b.decode S calls items = Decoding.events (.head []) items) ∧
      ∀ count : ℤ, 0 < count → b.kind = .chunked count →
        b.decode S calls items = Decoding.events (.data count.toNat) items

lemma logs_nil (hS : S ≠ 0) : Logs S calls [] := fun _ =>
  ⟨fun hkind => decode_nil hS hkind (Or.inl rfl),
    fun _ hpos hkind => decode_nil hS hkind (Or.inr hpos)⟩

/-- A call leaves less of the stream, or there is nothing left. -/
lemma eq_nil_or_shorter (hsuffix : rest <:+ items)
    (h : items = [] ∨ rest.length < items.length) : rest = [] ∨ rest.length < items.length := by
  apply h.imp_left
  rintro rfl
  exact List.suffix_nil.1 hsuffix

/-- The data that one call takes, and the calls behind it. -/
lemma Logs.behind_data (hS : S ≠ 0) (hitems : Steadfast items)
    (hlogs : ∀ rest, rest <:+ items → rest = [] ∨ rest.length < items.length → Logs S calls rest)
    (hkind : b.kind = .chunked count) (hcount : 0 < count) {r : ReadOutcome}
    (hread : b.readChunkData S count items = (r, b', rest)) :
    (∀ e, r ≠ .threw e) ∧ b'.finished = false ∧
      Buffer.readDataEvents S count items ++ b'.decode S calls rest =
        Decoding.events (.data count.toNat) items := by
  obtain ⟨hsuffix, hshort, hr, state, hstate, hevents⟩ :=
    events_of_readChunkData hS hitems hkind hcount hread
  obtain ⟨hhead, hdata⟩ := hlogs rest hsuffix (eq_nil_or_shorter hsuffix hshort) b'
  rw [hevents]
  rcases hstate with ⟨rfl, hkind'⟩ | ⟨left, hleft, rfl, hkind'⟩
  · refine ⟨hr, ?_, by rw [hhead hkind']⟩
    rw [finished_of_chunked hkind']
    rfl
  · refine ⟨hr, ?_, by rw [hdata left hleft hkind']⟩
    rw [finished_of_chunked hkind', beq_eq_false_iff_ne]
    exact hleft.ne'

/-- The call that has read a size, and the calls behind it. -/
lemma Logs.behind_size (hS : S ≠ 0) (hrest : Steadfast rest)
    (hlogs : ∀ rest', rest' <:+ rest → Logs S calls rest') {value : ℤ}
    (hkind : b.kind = .chunked (-1))
    (hhead : Buffer.readChunkHead (-1) items = (.ok, value, rest)) :
    b.decode S (calls + 1) items = .size value :: Decoding.behindSize value rest := by
  have hlog : Buffer.readEvents S (-1) items =
      .size value :: Buffer.readDataEvents S value rest := by
    simp only [Buffer.readEvents, if_true, hhead]
  have hread : b.read S items =
      Buffer.readChunkData S { b with kind := .chunked value } value rest := by
    rw [read_of_chunked hkind, Buffer.readChunked, if_pos rfl]
    simp only [hhead]
  rw [Decoding.behindSize]
  by_cases hpos : 0 < value
  · rcases hdata : Buffer.readChunkData S { b with kind := .chunked value } value rest with
      ⟨r, b', rest'⟩
    obtain ⟨hr, hfin, hdata'⟩ := Logs.behind_data hS hrest (fun rest' hsuffix _ =>
      hlogs rest' hsuffix) rfl hpos hdata
    rw [decode_step hkind (hread.trans hdata) hr hfin, hlog, if_pos hpos, ← hdata',
      List.cons_append]
  · -- a size that is not positive reads no data
    have hnone : Buffer.readDataEvents S value rest = [] := if_neg hpos
    have hback : b.read S items = (.ok, ⟨.chunked value, b.data, 0⟩, rest) := by
      rw [hread, Buffer.readChunkData_of_nonpos (not_lt.1 hpos)]
    rw [if_neg hpos]
    by_cases hzero : value = 0
    · rw [Buffer.decode, hkind]
      simp only [hback, hlog, hzero, if_true]
      rfl
    · have hfin : Buffer.finished ⟨.chunked value, b.data, 0⟩ = false := by
        rw [finished_of_chunked rfl, beq_eq_false_iff_ne]
        exact hzero
      rw [decode_step hkind hback (by simp) hfin, hlog, hnone, if_neg hzero]
      by_cases hminus : value = -1
      · have hnext := (hlogs rest List.suffix_rfl ⟨.chunked value, b.data, 0⟩).1 (by rw [hminus])
        rw [hnext, if_pos hminus]
        rfl
      · rw [decode_of_neg rfl (by omega), if_neg hminus]
        rfl

/-- A call at a header, and the calls behind it. -/
lemma Logs.at_head (hS : S ≠ 0) (hitems : Steadfast items)
    (hlogs : ∀ rest, rest <:+ items → rest = [] ∨ rest.length < items.length → Logs S calls rest)
    (hkind : b.kind = .chunked (-1)) :
    b.decode S (calls + 1) items = Decoding.events (.head []) items := by
  rcases hhead : Buffer.readChunkHead (-1) items with ⟨r, value, rest⟩
  obtain ⟨hsuffix, hok, hagain, hthrew⟩ := events_of_readChunkHead hitems hhead
  cases r with
  | ok =>
    obtain ⟨hshort, hevents⟩ := hok rfl
    rw [hevents]
    apply Logs.behind_size hS (hitems.suffix hsuffix) _ hkind hhead
    intro rest' hsuffix'
    exact hlogs rest' (hsuffix'.trans hsuffix) (Or.inr (hsuffix'.length_le.trans_lt hshort))
  | again =>
    obtain ⟨hshort, hevents⟩ := hagain rfl
    have hread : b.read S items = (.again, b, rest) := by
      rw [read_of_chunked hkind, Buffer.readChunked, if_pos rfl]
      simp only [hhead]
    have hlog : Buffer.readEvents S (-1) items = [] := by
      simp only [Buffer.readEvents, if_true, hhead]
    have hfin : b.finished = false := by
      rw [finished_of_chunked hkind]
      rfl
    rw [decode_step hkind hread (by simp) hfin, hlog, hevents, List.nil_append]
    exact (hlogs rest hsuffix (eq_nil_or_shorter hsuffix hshort) b).1 hkind
  | threw e =>
    have hread : b.read S items = (.threw e, b, rest) := by
      rw [read_of_chunked hkind, Buffer.readChunked, if_pos rfl]
      simp only [hhead]
    have hlog : Buffer.readEvents S (-1) items = [] := by
      simp only [Buffer.readEvents, if_true, hhead]
    rw [Buffer.decode, hkind]
    simp only [hread, hlog, hthrew e rfl]
    rfl

/-- **The calls log what the machine logs.** -/
lemma logs_of_lt (hS : S ≠ 0) (hitems : Steadfast items) (hcalls : items.length < calls) :
    Logs S calls items := by
  induction hN : items.length using Nat.strongRecOn generalizing items calls with
  | ind N ih =>
    obtain ⟨calls, rfl⟩ := Nat.exists_eq_succ_of_ne_zero (by omega : calls ≠ 0)
    have hlogs : ∀ rest, rest <:+ items → rest = [] ∨ rest.length < items.length →
        Logs S calls rest := by
      rintro rest hsuffix (rfl | hlt)
      · exact logs_nil hS
      · exact ih _ (hN ▸ hlt) (hitems.suffix hsuffix) (by omega) rfl
    intro b
    constructor
    · intro hkind
      exact Logs.at_head hS hitems hlogs hkind
    · intro count hcount hkind
      have hne : count ≠ -1 := by omega
      rcases hdata : b.readChunkData S count items with ⟨r, b', rest⟩
      obtain ⟨hr, hfin, hevents⟩ := Logs.behind_data hS hitems hlogs hkind hcount hdata
      have hread : b.read S items = (r, b', rest) := by
        rw [read_of_chunked hkind, Buffer.readChunked, if_neg hne, hdata]
      rw [decode_step hkind hread hr hfin, Buffer.readEvents, if_neg hne, hevents]

end Calls

end Cld
