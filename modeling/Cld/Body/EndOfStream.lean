import Cld.Body.Loop

/-!
# The end of the stream

A read of a stream that asks for bytes and returns 0 has met its end.  The program reads a
stream at six places, and nothing but this count tells it that the peer has closed.

* `EndPlace` names the places, `EndSeen` says at which of them a call of `process` meets the end,
  and what becomes of the file write that follows there.
* `Noticed` is what the call owes: it throws, or the worker stops.

The reader of the head tests the count behind its last CR only, and leaves its loop like a
reader that has nothing to read; so do the two buffers that count down the bytes to come: they
keep their count, the loop writes nothing, and `process` returns.  At the other places the end
is an error, or it is the end of the body.
-/

namespace Cld

/-- Where a call of `process` reads from its stream. -/
inductive EndPlace
  /-- `while (stream->read(p, 1) == 1)`. -/
  | head
  /-- The nested read of the LF that ends the head. -/
  | headLf
  /-- `NoLengthBuffer::read`. -/
  | noLength
  /-- `FixLengthBuffer::read`, and the write that follows. -/
  | fixLength (write : FileWrite)
  /-- Either read of a chunk header. -/
  | chunkHead
  /-- The read of chunk data, and the write that follows. -/
  | chunkData (write : FileWrite)
  deriving DecidableEq

/-- The places where the end cannot pass: the LF of the head, a body without length and a chunk
header; elsewhere the write that follows, of no bytes, has to throw. -/
def EndPlace.Guarded : EndPlace → Prop
  | .head => False
  | .headLf => True
  | .noLength => True
  | .fixLength write => write = .threw
  | .chunkHead => True
  | .chunkData write => write = .threw

/-- The reader of the head meets the end. -/
inductive HeadEnd : Byte → Inbound → EndPlace → Prop
  | head (last : Byte) (rest : Inbound) : HeadEnd last (.eof :: rest) .head
  | headLf (brk : Bool) (rest : Inbound) : HeadEnd LF (.byte CR brk :: .eof :: rest) .headLf
  | push {last c : Byte} {brk : Bool} {rest : Inbound} {place : EndPlace}
      (hpush : ¬ (last = LF ∧ c = CR)) (h : HeadEnd c rest place) :
      HeadEnd last (.byte c brk :: rest) place

/-- A read of the buffer meets the end; `write` is the outcome of the write behind it. -/
inductive BufferEnd (S : ℕ) (b : Buffer) (items : Inbound) (write : FileWrite) : EndPlace → Prop
  | noLength {finished : Bool} {rest : Inbound} (hkind : b.kind = .noLength finished)
      (hread : items.read S = (.ok [], rest)) : BufferEnd S b items write .noLength
  | fixLength {remain : ℕ} {rest : Inbound} (hkind : b.kind = .fixLength remain)
      (hasks : remain ≠ 0) (hread : items.read (min remain S) = (.ok [], rest)) :
      BufferEnd S b items write (.fixLength write)
  | chunkHead {head : Bytes} {rest : Inbound} (hkind : b.kind = .chunked (-1))
      (hread : Buffer.collectHead [] items = (.line head, .eof :: rest)) :
      BufferEnd S b items write .chunkHead
  | chunkData {count : ℤ} {rest : Inbound} (hkind : b.kind = .chunked count) (hcount : 0 < count)
      (hread : items.read (min count.toNat S) = (.ok [], rest)) :
      BufferEnd S b items write (.chunkData write)
  | chunkBehindHead {count : ℤ} {rest rest' : Inbound} (hkind : b.kind = .chunked (-1))
      (hhead : Buffer.readChunkHead (-1) items = (.ok, count, rest)) (hcount : 0 < count)
      (hread : rest.read (min count.toNat S) = (.ok [], rest')) :
      BufferEnd S b items write (.chunkData write)

/-- The body loop meets the end, in its first round or in a later one. -/
inductive LoopEnd (S : ℕ) : Worker.BodyState → List FileWrite → EndPlace → Prop
  | here {s : Worker.BodyState} {writes : List FileWrite} {place : EndPlace}
      (h : BufferEnd S s.buffer s.inbound (writes.head?.getD .all) place) : LoopEnd S s writes place
  | later {s : Worker.BodyState} {writes : List FileWrite} {place : EndPlace} {buffer : Buffer}
      {inbound : Inbound} {written : ℕ} (hread : s.buffer.read S s.inbound = (.ok, buffer, inbound))
      (hwrite : (writes.head?.getD .all).written buffer.validCount = some written)
      (hfin : buffer.finished = false) (hmore : written ≠ 0)
      (h : LoopEnd S (s.wrote buffer inbound written) writes.tail place) : LoopEnd S s writes place

/-- During a call of `process`, a read of the stream returns 0. -/
inductive EndSeen (w : Worker) (file : File) (event : EpollEvents) (env : Env) :
    EndPlace → Prop
  | receiving {stream : Stream} {place : EndPlace} (hstate : w.state = .receiving)
      (hevent : event.epollin = true) (hstream : w.stream = some stream)
      (h : HeadEnd w.lastChar stream.inbound place) : EndSeen w file event env place
  | receivingBody {stream : Stream} {buffer : Buffer} {place : EndPlace}
      (hstate : w.state = .receivingBody) (hevent : event.epollin = true)
      (hstream : w.stream = some stream) (hbuffer : w.buffer = some buffer)
      (h : LoopEnd kBufferSize (w.bodyState stream buffer file) env.fileWrites place) :
      EndSeen w file event env place

/-- The call throws, or it returns and the worker has stopped. -/
def Noticed (outcome : Outcome) (w : Worker) : Prop :=
  (∃ e, outcome = .threw e) ∨ (∃ n, outcome = .returned n) ∧ w.state = .stopped

variable {S : ℕ} {b b' : Buffer} {items rest : Inbound} {last : Byte} {data : Bytes}
  {write : FileWrite} {place : EndPlace}

/-! ## The head -/

/-- The loop of the head at its end. -/
lemma HeadEnd.readHead (h : HeadEnd last items place) (data : Bytes) :
    (place = .head ∧ ∃ data' last' rest, readHead data last items = .ended data' last' rest) ∨
      place = .headLf ∧ ∃ data' last' rest, readHead data last items = .noLf data' last' rest := by
  induction h generalizing data with
  | head last rest => exact Or.inl ⟨rfl, _, _, _, rfl⟩
  | headLf brk rest => exact Or.inr ⟨rfl, _, _, _, rfl⟩
  | @push last c brk rest place hpush h ih =>
    rw [Cld.readHead, if_neg hpush]
    exact ih (data ++ [c])

/-! ## The buffers -/

/-- What a read that meets the end comes to. -/
lemma BufferEnd.read (h : BufferEnd S b items write place) :
    (place = .noLength ∧ ∃ b' rest, b.read S items = (.ok, b', rest) ∧ b'.finished = true) ∨
      (place = .chunkHead ∧ ∃ e b' rest, b.read S items = (.threw e, b', rest)) ∨
      (place = .fixLength write ∨ place = .chunkData write) ∧
        ∃ b' rest, b.read S items = (.ok, b', rest) ∧ b'.finished = false ∧ b'.end_ = 0 := by
  have hdata : ∀ {count : ℤ} {items rest : Inbound}, 0 < count →
      items.read (min count.toNat S) = (.ok [], rest) →
      Buffer.readChunkData S { b with kind := .chunked count } count items =
        (.ok, ⟨.chunked count, [], 0⟩, rest) := by
    intro count items rest hcount hread
    unfold Buffer.readChunkData Buffer.fill
    rw [if_pos hcount, hread]
    simp [hcount.ne']
  cases h with
  | @noLength finished rest hkind hread =>
    refine Or.inl ⟨rfl, ⟨.noLength (finished || true), [], 0⟩, rest, ?_, ?_⟩
    · unfold Buffer.read
      rw [hkind]
      simp only [Buffer.readNoLength, Buffer.fill, hread]
      rfl
    · simp [Buffer.finished]
  | @fixLength remain rest hkind hasks hread =>
    refine Or.inr (Or.inr ⟨Or.inl rfl, ⟨.fixLength remain, [], 0⟩, rest, ?_, ?_, rfl⟩)
    · unfold Buffer.read
      rw [hkind]
      simp only [Buffer.readFixLength, Buffer.fill, hread]
      rfl
    · simpa [Buffer.finished] using hasks
  | @chunkHead head rest hkind hread =>
    refine Or.inr (Or.inl ⟨rfl, Buffer.chunkError, b, .eof :: rest, ?_⟩)
    unfold Buffer.read
    rw [hkind]
    simp [Buffer.readChunked, Buffer.readChunkHead, hread, Inbound.read]
  | @chunkData count rest hkind hcount hread =>
    refine Or.inr (Or.inr ⟨Or.inr rfl, ⟨.chunked count, [], 0⟩, rest, ?_, ?_, rfl⟩)
    · have hne : count ≠ -1 := by omega
      have hb : b = { b with kind := .chunked count } := by
        rw [← hkind]
      unfold Buffer.read
      rw [hkind]
      simp only [Buffer.readChunked, if_neg hne]
      rw [← hdata hcount hread, ← hb]
    · simpa [Buffer.finished] using hcount.ne'
  | @chunkBehindHead count rest rest' hkind hhead hcount hread =>
    refine Or.inr (Or.inr ⟨Or.inr rfl, ⟨.chunked count, [], 0⟩, rest', ?_, ?_, rfl⟩)
    · unfold Buffer.read
      rw [hkind]
      simp only [Buffer.readChunked, if_true, hhead]
      exact hdata hcount hread
    · simpa [Buffer.finished] using hcount.ne'

/-! ## The loop -/

lemma guarded_of_counting (hplace : place = .fixLength write ∨ place = .chunkData write) :
    place.Guarded ↔ write = .threw := by
  rcases hplace with rfl | rfl
  · exact Iff.rfl
  · exact Iff.rfl

/-- **How the loop is left** when it meets the end: with an exception or a finished buffer at the
guarded places, and otherwise as if there were nothing to read. -/
lemma LoopEnd.exit {s : Worker.BodyState} {writes : List FileWrite} (h : LoopEnd S s writes place) :
    (place.Guarded → (∃ e, (Worker.bodyLoop S s writes).2 = .threw e) ∨
      (Worker.bodyLoop S s writes).2 = .finished) ∧
    (¬ place.Guarded → (Worker.bodyLoop S s writes).2 = .idle) := by
  induction h with
  | @here s writes place h =>
    rcases h.read with ⟨rfl, b', rest, hread, hfin⟩ | ⟨rfl, e, b', rest, hread⟩ |
      ⟨hplace, b', rest, hread, hfin, hend⟩
    · refine ⟨fun _ => ?_, fun hopen => absurd trivial hopen⟩
      cases hwrite : (writes.head?.getD .all).written b'.validCount with
      | none =>
        rw [Worker.bodyLoop_noWrite hread hwrite]
        exact Or.inl ⟨_, rfl⟩
      | some written =>
        rw [Worker.bodyLoop_write hread hwrite, if_pos hfin]
        exact Or.inr rfl
    · refine ⟨fun _ => ?_, fun hopen => absurd trivial hopen⟩
      rw [Worker.bodyLoop_threw hread]
      exact Or.inl ⟨e, rfl⟩
    · rw [guarded_of_counting hplace]
      constructor
      · intro hthrew
        have hwrite : (writes.head?.getD .all).written b'.validCount = none := by
          rw [hthrew]
          rfl
        rw [Worker.bodyLoop_noWrite hread hwrite]
        exact Or.inl ⟨_, rfl⟩
      · intro hopen
        -- a write of no bytes writes none
        have hwrite : (writes.head?.getD .all).written b'.validCount = some 0 := by
          rw [Buffer.validCount, hend]
          cases hw : writes.head?.getD .all with
          | all => rfl
          | short n => exact congrArg some (Nat.min_zero n)
          | threw => exact absurd hw hopen
        rw [Worker.bodyLoop_write hread hwrite, if_neg (by simp [hfin]), if_neg (by simp)]
  | @later s writes place buffer inbound written hread hwrite hfin hmore h ih =>
    rw [Worker.bodyLoop_write hread hwrite, if_neg (by simp [hfin]), if_pos hmore]
    exact ih

/-! ## The call -/

section Call

variable {w w' : Worker} {file file' : File} {event : EpollEvents} {env : Env}
  {outcome : Outcome}

/-- In `Receiving` the call throws, or it returns as if nothing had been read. -/
lemma noticed_of_receiving {stream : Stream} (hstate : w.state = .receiving)
    (hevent : event.epollin = true) (hstream : w.stream = some stream)
    (h : HeadEnd w.lastChar stream.inbound place)
    (hprocess : w.process file event env = (outcome, w', file')) :
    Noticed outcome w' ↔ place.Guarded := by
  have hconnecting : w.connecting event env = (w, none) :=
    Worker.connecting_of_ne (by simp [hstate])
  have hsending : w.sending event env = (w, none) := Worker.sending_of_ne (by simp [hstate])
  unfold Worker.process at hprocess
  simp only [hconnecting, hsending] at hprocess
  rcases h.readHead w.responseData with ⟨rfl, data, last, rest, hread⟩ |
    ⟨rfl, data, last, rest, hread⟩
  · have hreceiving : w.receiving event = (w.keepHead stream data last rest, none, false) := by
      unfold Worker.receiving
      rw [if_pos ⟨hstate, hevent⟩, hstream]
      simp only [hread]
    have hkept : (w.keepHead stream data last rest).state = .receiving := hstate
    have hbody : (w.keepHead stream data last rest).receivingBody file event false env =
        (w.keepHead stream data last rest, file, 0, none) := by
      refine if_neg fun hif => ?_
      rw [hkept] at hif
      exact absurd hif.1 (by decide)
    have hstop : (w.keepHead stream data last rest).stopping env =
        (w.keepHead stream data last rest, none) := by
      refine if_neg fun hif => ?_
      rw [hkept] at hif
      exact absurd hif (by decide)
    simp only [hreceiving, hbody, hstop] at hprocess
    obtain ⟨rfl, rfl, rfl⟩ := hprocess
    refine iff_of_false ?_ id
    rintro (⟨e, he⟩ | ⟨-, hstopped⟩)
    · cases he
    · rw [hkept] at hstopped
      cases hstopped
  · have hreceiving : w.receiving event =
        (w.keepHead stream data last rest, some (.threw noLfException), false) := by
      unfold Worker.receiving
      rw [if_pos ⟨hstate, hevent⟩, hstream]
      simp only [hread]
    simp only [hreceiving] at hprocess
    obtain ⟨rfl, rfl, rfl⟩ := hprocess
    exact iff_of_true (Or.inl ⟨_, rfl⟩) trivial

/-- Closing a connection returns or throws. -/
lemma stopping_of_stopped {o : Option Outcome} (hstream : w.stream ≠ none)
    (hstate : w.state = .stopped) (hrun : w.stopping env = (w', o)) :
    (o = none ∨ ∃ e, o = some (.threw e)) ∧ w'.state = .stopped := by
  refine ⟨?_, (Worker.stopping_keeps hrun).2.trans hstate⟩
  cases Worker.stopping_cases hrun with
  | skipped hlive => exact Or.inl rfl
  | undefined _ hnone => exact absurd hnone hstream
  | refused _ hsome hdel => exact Or.inr ⟨_, rfl⟩
  | unclosed _ hsome hdel hclose => exact Or.inr ⟨_, rfl⟩
  | closed _ hsome hdel hclose => exact Or.inl rfl

/-- In `ReceivingBody` the loop decides. -/
lemma noticed_of_receivingBody {stream : Stream} {buffer : Buffer}
    (hstate : w.state = .receivingBody) (hevent : event.epollin = true)
    (hstream : w.stream = some stream) (hbuffer : w.buffer = some buffer)
    (h : LoopEnd kBufferSize (w.bodyState stream buffer file) env.fileWrites place)
    (hprocess : w.process file event env = (outcome, w', file')) :
    Noticed outcome w' ↔ place.Guarded := by
  rcases hloop : Worker.bodyLoop kBufferSize (w.bodyState stream buffer file) env.fileWrites with
    ⟨s, exit⟩
  obtain ⟨hguarded, hopen⟩ := h.exit
  rw [hloop] at hguarded hopen
  obtain ⟨hleft, hfinished⟩ :=
    Worker.process_of_bodyLoop hstate hstream hbuffer hevent hloop
  by_cases hplace : place.Guarded
  · refine iff_of_true ?_ hplace
    rcases hguarded hplace with ⟨e, rfl⟩ | rfl
    · rw [hleft (by simp)] at hprocess
      exact Or.inl ⟨e, (Prod.mk.inj hprocess).1.symm⟩
    · obtain ⟨v, o, hstop, hcall⟩ := hfinished rfl
      obtain ⟨ho, hstopped⟩ := stopping_of_stopped (Option.some_ne_none _) rfl hstop
      rw [hcall] at hprocess
      obtain ⟨rfl, rfl, rfl⟩ := hprocess
      rcases ho with rfl | ⟨e, rfl⟩
      · exact Or.inr ⟨⟨_, rfl⟩, hstopped⟩
      · exact Or.inl ⟨e, rfl⟩
  · refine iff_of_false ?_ hplace
    obtain rfl := hopen hplace
    rw [hleft (by simp)] at hprocess
    obtain ⟨rfl, rfl, rfl⟩ := hprocess
    rintro (⟨e, he⟩ | ⟨-, hstopped⟩)
    · cases he
    · have hbody : (w.bodyLeft stream s).state = .receivingBody := hstate
      rw [hbody] at hstopped
      cases hstopped

/-- **The end of the stream is noticed** where it is guarded, and nowhere else: a worker that
waits for its head, for the rest of a body of known length or for chunk data goes on waiting. -/
theorem end_noticed_iff (hseen : EndSeen w file event env place)
    (hprocess : w.process file event env = (outcome, w', file')) :
    Noticed outcome w' ↔ place.Guarded := by
  cases hseen with
  | receiving hstate hevent hstream h =>
    exact noticed_of_receiving hstate hevent hstream h hprocess
  | receivingBody hstate hevent hstream hbuffer h =>
    exact noticed_of_receivingBody hstate hevent hstream hbuffer h hprocess

/-- A worker whose peer has closed the connection. -/
def abandoned (state : WorkerState) (buffer : Option Buffer) : Worker where
  state := state
  stream := some { inbound := [.eof] }
  requestData := []
  buffer := buffer
  fileOffset := 0
  interest := some { epollin := true }

/-- A body without length ends with its stream. -/
theorem end_noticed_noLength : ∃ outcome w' file',
    (abandoned .receivingBody (some { kind := .noLength false })).process (fun _ => none)
        { epollin := true } {} = (outcome, w', file') ∧ Noticed outcome w' := by
  rcases hprocess : (abandoned .receivingBody (some { kind := .noLength false })).process
    (fun _ => none) { epollin := true } {} with ⟨outcome, w', file'⟩
  have hread : Inbound.read kBufferSize [.eof] = (.ok [], [.eof]) := by
    decide
  have hseen : EndSeen (abandoned .receivingBody (some { kind := .noLength false }))
      (fun _ => none) { epollin := true } {} .noLength :=
    .receivingBody rfl rfl rfl rfl (.here (.noLength rfl hread))
  exact ⟨outcome, w', file', rfl, (end_noticed_iff hseen hprocess).2 trivial⟩

/-- **A worker that waits for its head does not notice**: it stays registered for input. -/
theorem end_unnoticed : EndSeen (abandoned .receiving none) (fun _ => none) { epollin := true } {}
      .head ∧
    ∃ w' file', (abandoned .receiving none).process (fun _ => none) { epollin := true } {} =
        (.returned 0, w', file') ∧
      w'.state = .receiving ∧ w'.interest = some { epollin := true } ∧
      ¬ Noticed (.returned 0) w' := by
  refine ⟨.receiving rfl rfl rfl (.head 0 []), ?_⟩
  refine ⟨abandoned .receiving none, fun _ => none, rfl, rfl, rfl, ?_⟩
  rintro (⟨e, he⟩ | ⟨-, hstopped⟩)
  · cases he
  · cases hstopped

end Call

end Cld
