import Cld.Body.Chunked
import Cld.Worker.Process

/-!
# What the body loop makes of a body

The loop reads a buffer, writes what it holds, and reads again.  When no write is short, that
is a copy: what it writes is what the buffer hands out, in order.

* `received kind wire` is everything a buffer of this kind hands out of a body: all of it
  (`NoLengthBuffer`), its first `remain` bytes (`FixLengthBuffer`), or nothing
  (`ChunkedBuffer`, which resets `end_` at the end of every read).
* `Buffer.read_received`: one read takes its valid bytes off the front of that.  The body may
  be looked at as a whole (`payload`) or up to the next interruption (`available`), hence the
  parameter `view`.
* `bodyLoop_received` follows the whole body through a call of the loop, `bodyLoop_available`
  says how far the call gets.
* `process_of_receivingBody` is the call of `process` around it.
-/

namespace Cld

/-- What a buffer hands out of the body `wire`, all told. -/
def received (kind : BufferKind) (wire : Bytes) : Bytes :=
  match kind with
  | .noLength _ => wire
  | .fixLength remain => wire.take remain
  | .chunked _ => []

/-- The bytes that can be read before the stream reports `kAgain`, ends or fails. -/
def available : Inbound → Bytes
  | .byte b _ :: rest => b :: available rest
  | _ => []

/-- The buffer has not met the end of its stream.  Only `NoLengthBuffer` remembers it. -/
def BufferKind.Open (kind : BufferKind) : Prop := kind ≠ .noLength true

lemma isPrefix_received (kind : BufferKind) (wire : Bytes) : received kind wire <+: wire := by
  cases kind with
  | noLength finished => exact List.prefix_rfl
  | fixLength remain => exact List.take_prefix remain wire
  | chunked chunkRemain => exact List.nil_prefix

@[simp] lemma received_nil (kind : BufferKind) : received kind [] = [] :=
  List.prefix_nil.1 (isPrefix_received kind [])

/-- A fresh buffer has not met the end of its stream. -/
lemma open_of_create {response : Response} {buffer : Buffer}
    (h : CreateBuffer response = .ok buffer) : buffer.kind.Open := by
  unfold CreateBuffer at h
  split at h
  · obtain rfl := Except.ok.inj h
    exact nofun
  · split at h
    · split at h
      · obtain rfl := Except.ok.inj h
        exact nofun
      · cases h
    · obtain rfl := Except.ok.inj h
      exact nofun

/-! ## Reads of a stream -/

/-- A look at a stream from whose front the reads take what they return. -/
def View (view : Inbound → Bytes) : Prop :=
  ∀ {n : ℕ} {items rest : Inbound} {bs : Bytes}, items.read n = (.ok bs, rest) →
    view items = bs ++ view rest

lemma view_payload : View payload := fun h => (Inbound.read_ok h).1

lemma available_takeRun (n : ℕ) (items : Inbound) :
    available items = (takeRun n items).1 ++ available (takeRun n items).2 := by
  induction n generalizing items with
  | zero => rfl
  | succ n ih =>
    match items with
    | [] => rfl
    | .again :: rest => rfl
    | .eof :: rest => rfl
    | .fail e :: rest => rfl
    | .byte b brk :: rest =>
      cases brk with
      | true => rfl
      | false => exact congrArg (b :: ·) (ih rest)

lemma view_available : View available := by
  intro n items rest bs h
  by_cases hn : n = 0
  · simp only [Inbound.read, hn, if_true, Prod.mk.injEq, ReadResult.ok.injEq] at h
    obtain ⟨rfl, rfl⟩ := h
    rfl
  · rcases items with _ | ⟨⟨b, brk⟩ | _ | _ | e, items⟩
    · simp [Inbound.read, hn] at h
    · simp only [Inbound.read, hn, if_false, Prod.mk.injEq, ReadResult.ok.injEq] at h
      obtain ⟨rfl, rfl⟩ := h
      exact available_takeRun n _
    all_goals simp [Inbound.read, hn] at h
    -- the end of the input is what is left
    obtain ⟨rfl, rfl⟩ := h
    rfl

/-- A read of some bytes that returns none finds nothing available. -/
lemma available_of_read {n : ℕ} {items rest : Inbound} {r : ReadResult} (hn : n ≠ 0)
    (h : items.read n = (r, rest)) (hr : ∀ bs, r = .ok bs → bs = []) : available items = [] := by
  match items with
  | [] => rfl
  | .again :: items => rfl
  | .fail e :: items => rfl
  | .eof :: items => rfl
  | .byte b brk :: items =>
    simp only [Inbound.read, hn, if_false, Prod.mk.injEq] at h
    exact absurd (hr _ h.1.symm) (takeRun_ne_nil hn b brk items)

/-! ## Reads of a buffer -/

namespace Buffer

variable {S : ℕ} {b b' : Buffer} {items rest : Inbound} {r : ReadOutcome}
  {view : Inbound → Bytes}

lemma fill_ok {n : ℕ} {note : ℕ → BufferKind} (h : b.fill n items note = (.ok, b', rest)) :
    ∃ bs, items.read n = (.ok bs, rest) ∧ b' = ⟨note bs.length, bs, bs.length⟩ := by
  unfold fill at h
  rcases hread : items.read n with ⟨res, rest'⟩
  rw [hread] at h
  cases res with
  | ok bs =>
    simp only [Prod.mk.injEq, true_and] at h
    obtain ⟨rfl, rfl⟩ := h
    exact ⟨bs, rfl, rfl⟩
  | again => simp at h
  | threw e => simp at h

lemma fill_not_ok {n : ℕ} {note : ℕ → BufferKind} (h : b.fill n items note = (r, b', rest))
    (hr : r ≠ .ok) : b' = b ∧ ∃ res, items.read n = (res, rest) ∧ ∀ bs, res ≠ .ok bs := by
  unfold fill at h
  rcases hread : items.read n with ⟨res, rest'⟩
  rw [hread] at h
  cases res with
  | ok bs =>
    simp only [Prod.mk.injEq] at h
    exact absurd h.1.symm hr
  | again =>
    simp only [Prod.mk.injEq] at h
    obtain ⟨-, rfl, rfl⟩ := h
    exact ⟨rfl, .again, rfl, nofun⟩
  | threw e =>
    simp only [Prod.mk.injEq] at h
    obtain ⟨-, rfl, rfl⟩ := h
    exact ⟨rfl, .threw e, rfl, nofun⟩

/-- The three implementations. -/
lemma read_cases (h : b.read S items = (r, b', rest)) :
    (∃ finished, b.kind = .noLength finished ∧
        b.fill S items (fun count => .noLength (finished || count == 0)) = (r, b', rest)) ∨
      (∃ remain, b.kind = .fixLength remain ∧
        b.fill (min remain S) items (fun count => .fixLength (remain - count)) = (r, b', rest)) ∨
      ∃ chunkRemain, b.kind = .chunked chunkRemain := by
  unfold read at h
  cases hkind : b.kind with
  | noLength finished =>
    rw [hkind] at h
    exact Or.inl ⟨finished, rfl, h⟩
  | fixLength remain =>
    rw [hkind] at h
    exact Or.inr (Or.inl ⟨remain, rfl, h⟩)
  | chunked chunkRemain => exact Or.inr (Or.inr ⟨chunkRemain, rfl⟩)

/-- **One read** takes its valid bytes off the front of what is to come. -/
lemma read_received (hview : View view) (h : b.read S items = (.ok, b', rest)) :
    received b.kind (view items) = b'.valid ++ received b'.kind (view rest) := by
  rcases read_cases h with ⟨finished, hkind, hfill⟩ | ⟨remain, hkind, hfill⟩ | hkind
  · obtain ⟨bs, hread, rfl⟩ := fill_ok hfill
    rw [hkind, hview hread, valid, List.take_length]
    rfl
  · obtain ⟨bs, hread, rfl⟩ := fill_ok hfill
    have hle : bs.length ≤ remain := (Inbound.read_ok hread).2.1.trans (min_le_left _ _)
    rw [hkind, hview hread, valid, List.take_length]
    simp only [received]
    rw [List.take_append, List.take_of_length_le hle]
  · have hvalid : b'.valid = [] := by
      rw [valid, valid_of_chunked hkind h, List.take_zero]
    obtain ⟨chunkRemain, hr⟩ := hkind
    obtain ⟨chunkRemain', hr'⟩ := read_kind_of_chunked ⟨chunkRemain, hr⟩ h
    rw [hvalid, hr, hr']
    rfl

/-- A read that reports `kAgain` or throws takes nothing. -/
lemma read_kept (h : b.read S items = (r, b', rest)) (hr : r ≠ .ok) :
    received b.kind (payload items) = received b'.kind (payload rest) := by
  rcases read_cases h with ⟨finished, hkind, hfill⟩ | ⟨remain, hkind, hfill⟩ | hkind
  · obtain ⟨rfl, res, hread, hres⟩ := fill_not_ok hfill hr
    rw [Inbound.payload_of_read hread hres]
  · obtain ⟨rfl, res, hread, hres⟩ := fill_not_ok hfill hr
    rw [Inbound.payload_of_read hread hres]
  · obtain ⟨chunkRemain, hr⟩ := hkind
    obtain ⟨chunkRemain', hr'⟩ := read_kind_of_chunked ⟨chunkRemain, hr⟩ h
    rw [hr, hr']
    rfl

/-- When a read takes nothing although the buffer asks for something, nothing is available. -/
lemma available_of_not_ok (hS : S ≠ 0) (h : b.read S items = (r, b', rest)) (hr : r ≠ .ok) :
    received b.kind (available items) = [] := by
  rcases read_cases h with ⟨finished, hkind, hfill⟩ | ⟨remain, hkind, hfill⟩ | hkind
  · obtain ⟨-, res, hread, hres⟩ := fill_not_ok hfill hr
    rw [available_of_read hS hread fun bs hbs => absurd hbs (hres bs), received_nil]
  · obtain ⟨-, res, hread, hres⟩ := fill_not_ok hfill hr
    by_cases hzero : remain = 0
    · rw [hkind, hzero]
      rfl
    · have hn : min remain S ≠ 0 := by omega
      rw [available_of_read hn hread fun bs hbs => absurd hbs (hres bs), received_nil]
  · obtain ⟨chunkRemain, hr⟩ := hkind
    rw [hr]
    rfl

/-- A read that leaves no valid byte. -/
lemma available_of_empty (hS : S ≠ 0) (h : b.read S items = (.ok, b', rest)) (hend : b'.end_ = 0) :
    received b.kind (available items) = [] := by
  rcases read_cases h with ⟨finished, hkind, hfill⟩ | ⟨remain, hkind, hfill⟩ | hkind
  · obtain ⟨bs, hread, rfl⟩ := fill_ok hfill
    obtain rfl : bs = [] := List.eq_nil_of_length_eq_zero hend
    rw [available_of_read hS hread fun bs hbs => (ReadResult.ok.inj hbs).symm, received_nil]
  · obtain ⟨bs, hread, rfl⟩ := fill_ok hfill
    obtain rfl : bs = [] := List.eq_nil_of_length_eq_zero hend
    by_cases hzero : remain = 0
    · rw [hkind, hzero]
      rfl
    · have hn : min remain S ≠ 0 := by omega
      rw [available_of_read hn hread fun bs hbs => (ReadResult.ok.inj hbs).symm, received_nil]
  · obtain ⟨chunkRemain, hr⟩ := hkind
    rw [hr]
    rfl

/-- **When a buffer is finished**, it has handed out everything. -/
lemma received_of_finished (hS : S ≠ 0) (hopen : b.kind.Open)
    (h : b.read S items = (.ok, b', rest)) (hfin : b'.finished = true) :
    received b'.kind (payload rest) = [] ∧ received b'.kind (available rest) = [] := by
  rcases read_cases h with ⟨finished, hkind, hfill⟩ | ⟨remain, hkind, hfill⟩ | hkind
  · obtain ⟨bs, hread, rfl⟩ := fill_ok hfill
    cases finished with
    | true => exact absurd hkind hopen
    | false =>
      -- only the end of the stream finishes it
      have hnil : bs = [] := List.eq_nil_of_length_eq_zero (beq_iff_eq.1 hfin)
      obtain ⟨tail, rfl, rfl⟩ := (Inbound.read_ok hread).2.2.2 hS hnil
      exact ⟨rfl, rfl⟩
  · obtain ⟨bs, hread, rfl⟩ := fill_ok hfill
    have hzero : remain - bs.length = 0 := beq_iff_eq.1 hfin
    simp only [received, hzero, List.take_zero, and_self]
  · obtain ⟨chunkRemain, hr⟩ := read_kind_of_chunked hkind h
    rw [hr]
    exact ⟨rfl, rfl⟩

/-- A buffer that is not finished has not met the end of its stream. -/
lemma open_of_read (hopen : b.kind.Open) (h : b.read S items = (r, b', rest))
    (hfin : r = .ok → b'.finished = false) : b'.kind.Open := by
  by_cases hr : r = .ok
  · intro hkind
    have hfalse := hfin hr
    rw [finished, hkind] at hfalse
    cases hfalse
  · rcases read_cases h with ⟨finished, hkind, hfill⟩ | ⟨remain, hkind, hfill⟩ | hkind
    · obtain ⟨rfl, -⟩ := fill_not_ok hfill hr
      exact hopen
    · obtain ⟨rfl, -⟩ := fill_not_ok hfill hr
      exact hopen
    · obtain ⟨chunkRemain, hkind'⟩ := read_kind_of_chunked hkind h
      rw [BufferKind.Open, hkind']
      intro hclosed
      cases hclosed

end Buffer

/-! ## The loop -/

/-- No write of the list is short: each takes everything or throws. -/
def Unshort (writes : List FileWrite) : Prop := ∀ r ∈ writes, r = .all ∨ r = .threw

/-- Every write of the list takes everything. -/
def Complete (writes : List FileWrite) : Prop := ∀ r ∈ writes, r = .all

instance (writes : List FileWrite) : Decidable (Unshort writes) :=
  inferInstanceAs (Decidable (∀ r ∈ writes, r = .all ∨ r = .threw))

instance (writes : List FileWrite) : Decidable (Complete writes) :=
  inferInstanceAs (Decidable (∀ r ∈ writes, r = .all))

lemma Complete.unshort {writes : List FileWrite} (h : Complete writes) : Unshort writes :=
  fun r hr => Or.inl (h r hr)

namespace Worker

section Loop

variable {S : ℕ} {s : BodyState} {writes : List FileWrite} {count written : ℕ}

lemma written_of_unshort (h : Unshort writes)
    (hwritten : (writes.head?.getD .all).written count = some written) : written = count := by
  cases writes with
  | nil => exact (Option.some.inj hwritten).symm
  | cons r writes =>
    rcases h r List.mem_cons_self with rfl | rfl
    · exact (Option.some.inj hwritten).symm
    · cases hwritten

lemma written_of_complete (h : Complete writes) :
    (writes.head?.getD .all).written count = some count := by
  cases writes with
  | nil => rfl
  | cons r writes =>
    rw [List.head?_cons, Option.getD_some, h r List.mem_cons_self]
    rfl

/-- **The whole body through one run of the loop**: what is written is the next of what the
buffer hands out, and unless an exception has lost it the rest is still to come. -/
lemma bodyLoop_received (S : ℕ) (s : BodyState) (writes : List FileWrite)
    (hwrites : Unshort writes) : ∃ bs more,
      received s.buffer.kind (payload s.inbound) = bs ++ more ∧
      (bodyLoop S s writes).1.file = s.file.write s.fileOffset bs ∧
      (bodyLoop S s writes).1.fileOffset = s.fileOffset + bs.length ∧
      ((∀ e, (bodyLoop S s writes).2 ≠ .threw e) →
        more = received (bodyLoop S s writes).1.buffer.kind
          (payload (bodyLoop S s writes).1.inbound)) := by
  induction s, writes using bodyLoop.induct S with
  | case1 s writes buffer inbound h =>
    rw [bodyLoop_again h]
    exact ⟨[], _, rfl, by simp, by simp, fun _ => Buffer.read_kept h (by decide)⟩
  | case2 s writes e buffer inbound h =>
    rw [bodyLoop_threw h]
    exact ⟨[], _, rfl, by simp, by simp, fun hne => absurd rfl (hne e)⟩
  | case3 s writes buffer inbound h hwrite =>
    rw [bodyLoop_noWrite h hwrite]
    exact ⟨[], _, rfl, by simp, by simp, fun hne => absurd rfl (hne _)⟩
  | case4 s writes buffer inbound h written hwrite hfin =>
    obtain rfl := written_of_unshort hwrites hwrite
    have hlen : buffer.valid.length = buffer.validCount := BodyState.length_take h hwrite
    rw [bodyLoop_write h hwrite, if_pos hfin]
    exact ⟨buffer.valid, _, Buffer.read_received view_payload h, rfl, by rw [hlen]; rfl,
      fun _ => rfl⟩
  | case5 s writes buffer inbound h written hwrite s' hfin hmore ih =>
    obtain rfl := written_of_unshort hwrites hwrite
    have hlen : buffer.valid.length = buffer.validCount := BodyState.length_take h hwrite
    obtain ⟨bs, more, hrest, hfile, hoffset, hmore'⟩ :=
      ih fun r hr => hwrites r (List.mem_of_mem_tail hr)
    rw [bodyLoop_write h hwrite, if_neg hfin, if_pos hmore]
    obtain ⟨hfile', hoffset'⟩ := BodyState.wrote_append hlen hfile hoffset
    refine ⟨buffer.valid ++ bs, more, ?_, hfile', hoffset', hmore'⟩
    rw [Buffer.read_received view_payload h, List.append_assoc, ← hrest]
  | case6 s writes buffer inbound h written hwrite hfin hmore =>
    obtain rfl := written_of_unshort hwrites hwrite
    have hlen : buffer.valid.length = buffer.validCount := BodyState.length_take h hwrite
    rw [bodyLoop_write h hwrite, if_neg hfin, if_neg hmore]
    exact ⟨buffer.valid, _, Buffer.read_received view_payload h, rfl, by rw [hlen]; rfl,
      fun _ => rfl⟩

/-- **How far one run of the loop gets**: it writes what is available. -/
lemma bodyLoop_available (hS : S ≠ 0) (s : BodyState) (writes : List FileWrite)
    (hwrites : Complete writes) (hopen : s.buffer.kind.Open) :
    (bodyLoop S s writes).1.file =
        s.file.write s.fileOffset (received s.buffer.kind (available s.inbound)) ∧
      (bodyLoop S s writes).1.fileOffset =
        s.fileOffset + (received s.buffer.kind (available s.inbound)).length := by
  induction s, writes using bodyLoop.induct S with
  | case1 s writes buffer inbound h =>
    rw [bodyLoop_again h, Buffer.available_of_not_ok hS h (by decide)]
    simp
  | case2 s writes e buffer inbound h =>
    rw [bodyLoop_threw h, Buffer.available_of_not_ok hS h (by simp)]
    simp
  | case3 s writes buffer inbound h hwrite =>
    rw [written_of_complete hwrites] at hwrite
    cases hwrite
  | case4 s writes buffer inbound h written hwrite hfin =>
    obtain rfl := written_of_unshort hwrites.unshort hwrite
    have hlen : buffer.valid.length = buffer.validCount := BodyState.length_take h hwrite
    rw [bodyLoop_write h hwrite, if_pos hfin, Buffer.read_received view_available h,
      (Buffer.received_of_finished hS hopen h hfin).2, List.append_nil, hlen]
    exact ⟨rfl, rfl⟩
  | case5 s writes buffer inbound h written hwrite s' hfin hmore ih =>
    obtain rfl := written_of_unshort hwrites.unshort hwrite
    have hlen : buffer.valid.length = buffer.validCount := BodyState.length_take h hwrite
    have hopen' : buffer.kind.Open :=
      Buffer.open_of_read hopen h fun _ => Bool.not_eq_true _ ▸ hfin
    obtain ⟨hfile, hoffset⟩ := ih (fun r hr => hwrites r (List.mem_of_mem_tail hr)) hopen'
    rw [bodyLoop_write h hwrite, if_neg hfin, if_pos hmore,
      Buffer.read_received view_available h]
    exact BodyState.wrote_append hlen hfile hoffset
  | case6 s writes buffer inbound h written hwrite hfin hmore =>
    obtain rfl := written_of_unshort hwrites.unshort hwrite
    have hend : buffer.validCount = 0 := not_not.1 hmore
    rw [bodyLoop_write h hwrite, if_neg hfin, if_neg hmore, Buffer.available_of_empty hS h hend,
      File.write_nil]
    simp [BodyState.wrote, hend]

/-- A run that ends with the buffer finished has received the whole body. -/
lemma bodyLoop_finished (hS : S ≠ 0) (s : BodyState) (writes : List FileWrite)
    (hopen : s.buffer.kind.Open) (hexit : (bodyLoop S s writes).2 = .finished) :
    received (bodyLoop S s writes).1.buffer.kind (payload (bodyLoop S s writes).1.inbound) =
      [] := by
  induction s, writes using bodyLoop.induct S with
  | case1 s writes buffer inbound h =>
    rw [bodyLoop_again h] at hexit
    cases hexit
  | case2 s writes e buffer inbound h =>
    rw [bodyLoop_threw h] at hexit
    cases hexit
  | case3 s writes buffer inbound h hwrite =>
    rw [bodyLoop_noWrite h hwrite] at hexit
    cases hexit
  | case4 s writes buffer inbound h written hwrite hfin =>
    rw [bodyLoop_write h hwrite, if_pos hfin]
    exact (Buffer.received_of_finished hS hopen h hfin).1
  | case5 s writes buffer inbound h written hwrite s' hfin hmore ih =>
    rw [bodyLoop_write h hwrite, if_neg hfin, if_pos hmore] at hexit ⊢
    exact ih (Buffer.open_of_read hopen h fun _ => Bool.not_eq_true _ ▸ hfin) hexit
  | case6 s writes buffer inbound h written hwrite hfin hmore =>
    rw [bodyLoop_write h hwrite, if_neg hfin, if_neg hmore] at hexit
    cases hexit

/-- A run that the worker survives leaves its buffer open. -/
lemma bodyLoop_open (s : BodyState) (writes : List FileWrite) (hopen : s.buffer.kind.Open)
    (hexit : (bodyLoop S s writes).2 = .again ∨ (bodyLoop S s writes).2 = .idle) :
    (bodyLoop S s writes).1.buffer.kind.Open := by
  induction s, writes using bodyLoop.induct S with
  | case1 s writes buffer inbound h =>
    rw [bodyLoop_again h]
    exact Buffer.open_of_read hopen h (by simp)
  | case2 s writes e buffer inbound h =>
    rw [bodyLoop_threw h] at hexit
    simp at hexit
  | case3 s writes buffer inbound h hwrite =>
    rw [bodyLoop_noWrite h hwrite] at hexit
    simp at hexit
  | case4 s writes buffer inbound h written hwrite hfin =>
    rw [bodyLoop_write h hwrite, if_pos hfin] at hexit
    simp at hexit
  | case5 s writes buffer inbound h written hwrite s' hfin hmore ih =>
    rw [bodyLoop_write h hwrite, if_neg hfin, if_pos hmore] at hexit ⊢
    exact ih (Buffer.open_of_read hopen h fun _ => Bool.not_eq_true _ ▸ hfin) hexit
  | case6 s writes buffer inbound h written hwrite hfin hmore =>
    rw [bodyLoop_write h hwrite, if_neg hfin, if_neg hmore]
    exact Buffer.open_of_read hopen h fun _ => Bool.not_eq_true _ ▸ hfin

end Loop

/-! ## The call around it -/

section Call

variable {w w' : Worker} {stream : Stream} {buffer : Buffer} {file file' : File}
  {event : EpollEvents} {env : Env} {outcome : Outcome}

/-- **A call that runs the loop.**  Only a finished buffer stops the worker. -/
lemma process_of_bodyLoop {s : BodyState} {exit : BodyExit} (hstate : w.state = .receivingBody)
    (hstream : w.stream = some stream) (hbuffer : w.buffer = some buffer)
    (hevent : event.epollin = true)
    (hloop : bodyLoop kBufferSize (w.bodyState stream buffer file) env.fileWrites = (s, exit)) :
    (exit ≠ .finished → w.process file event env =
      (exit.answer s.fileReadCount, w.bodyLeft stream s, s.file)) ∧
    (exit = .finished → ∃ v o,
      Worker.stopping { w.bodyLeft stream s with state := .stopped } env = (v, o) ∧
        w.process file event env = (o.getD (.returned s.fileReadCount), v, s.file)) := by
  have hconnecting : w.connecting event env = (w, none) := connecting_of_ne (by simp [hstate])
  have hsending : w.sending event env = (w, none) := sending_of_ne (by simp [hstate])
  have hreceiving : w.receiving event = (w, none, false) := receiving_of_ne (by simp [hstate])
  have hlive : (w.bodyLeft stream s).state ≠ .stopped := by
    show w.state ≠ .stopped
    rw [hstate]
    decide
  have hstop : (w.bodyLeft stream s).stopping env = (w.bodyLeft stream s, none) := if_neg hlive
  have hbody : w.receivingBody file event false env =
      (if exit = .finished then { w.bodyLeft stream s with state := .stopped }
        else w.bodyLeft stream s, s.file, s.fileReadCount,
        if exit = .finished ∨ exit = .idle then none else some (exit.answer s.fileReadCount)) := by
    rw [bodyState] at hloop
    unfold receivingBody
    rw [if_pos ⟨hstate, rfl, hevent⟩, hstream, hbuffer]
    simp only [hloop]
    cases exit <;> rfl
  unfold process
  simp only [hconnecting, hsending, hreceiving, hbody]
  constructor
  · intro hexit
    cases exit with
    | again => rfl
    | threw e => rfl
    | finished => exact absurd rfl hexit
    | idle =>
      simp only [reduceCtorEq, if_false, or_true, if_true, hstop]
      rfl
  · rintro rfl
    rcases hstopping : Worker.stopping { w.bodyLeft stream s with state := .stopped } env with
      ⟨v, o⟩
    refine ⟨v, o, rfl, ?_⟩
    simp only [if_true, true_or, hstopping]
    cases o <;> rfl

/-- **One call in `ReceivingBody`** either runs the loop once, or, without `EPOLLIN`, does
nothing. -/
lemma process_of_receivingBody (hstate : w.state = .receivingBody)
    (hstream : w.stream = some stream) (hbuffer : w.buffer = some buffer)
    (hprocess : w.process file event env = (outcome, w', file')) :
    (event.epollin = false ∧ outcome = .returned 0 ∧ w' = w ∧ file' = file) ∨
      (event.epollin = true ∧ ∃ s exit,
        bodyLoop kBufferSize (w.bodyState stream buffer file) env.fileWrites = (s, exit) ∧
        file' = s.file ∧ w'.fileOffset = s.fileOffset ∧
        ((exit = .finished ∧ w'.state = .stopped) ∨
          (exit ≠ .finished ∧ w'.state = .receivingBody ∧ w'.buffer = some s.buffer ∧
            w'.stream = some { stream with inbound := s.inbound } ∧
            ∀ n, outcome = .returned n → exit = .again ∨ exit = .idle))) := by
  cases hevent : event.epollin with
  | false =>
    left
    have hconnecting : w.connecting event env = (w, none) := connecting_of_ne (by simp [hstate])
    have hsending : w.sending event env = (w, none) := sending_of_ne (by simp [hstate])
    have hreceiving : w.receiving event = (w, none, false) := receiving_of_ne (by simp [hstate])
    have hskip : w.receivingBody file event false env = (w, file, 0, none) := by
      simp [receivingBody, hevent]
    have hlive : w.state ≠ .stopped := by
      rw [hstate]
      decide
    have hstop : w.stopping env = (w, none) := if_neg hlive
    unfold process at hprocess
    simp only [hconnecting, hsending, hreceiving, hskip, hstop] at hprocess
    obtain ⟨rfl, rfl, rfl⟩ := hprocess
    exact ⟨rfl, rfl, rfl, rfl⟩
  | true =>
    right
    rcases hloop : bodyLoop kBufferSize (w.bodyState stream buffer file) env.fileWrites with
      ⟨s, exit⟩
    obtain ⟨hopen, hfinished⟩ := process_of_bodyLoop hstate hstream hbuffer hevent hloop
    refine ⟨rfl, s, exit, rfl, ?_⟩
    by_cases hexit : exit = .finished
    · obtain ⟨v, o, hstop, hcall⟩ := hfinished hexit
      obtain ⟨hoffset, hstate'⟩ := stopping_keeps hstop
      rw [hcall] at hprocess
      obtain ⟨-, rfl, rfl⟩ := hprocess
      exact ⟨rfl, hoffset, Or.inl ⟨hexit, hstate'⟩⟩
    · rw [hopen hexit] at hprocess
      obtain ⟨rfl, rfl, rfl⟩ := hprocess
      refine ⟨rfl, rfl, Or.inr ⟨hexit, hstate, rfl, rfl, ?_⟩⟩
      intro n hn
      cases exit with
      | again => exact Or.inl rfl
      | threw e => cases hn
      | finished => exact absurd rfl hexit
      | idle => exact Or.inr rfl

end Call

end Worker

end Cld
