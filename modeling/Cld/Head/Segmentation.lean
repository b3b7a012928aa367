import Cld.Worker.Process

/-!
# The head over many calls

A worker collects the head of its response over any number of calls of `process`, each ended
by a `kAgain`; `ReadToResponse` collects it in one go.  Both should make the same of the same
bytes.

* `resumeHead` is what the calls come to, as one recursion over the stream: the byte loop,
  taken up after each `kAgain` with what the worker has kept.
* `Receives` is the calls themselves, with `EPOLLIN`, until the worker leaves `Receiving` or
  fails; `Receives.headEnd` and `exists_receives` connect the two.
* `HeadsAgree` compares a worker with `ReadToResponse`.

They agree until the first CR that follows a LF (`resumeHead_strip`).  There the byte loop
reads the next byte in a second place, and `last_char` is still the LF.  A suspension in
that place forgets that the CR has been seen: the LF that comes next is taken for a byte like
any other.  `uncut` says when no harm is done, and `heads_agree_iff` that it says so exactly.
-/

namespace Cld

/-! ## Reading on after a suspension -/

/-- The byte loop, taken up again after every `kAgain`. -/
def resumeHead (data : Bytes) (last : Byte) : Inbound → HeadRead
  | [] => .again data last []
  | .again :: rest => resumeHead data last rest
  | .fail e :: rest => .threw e data last rest
  | .eof :: rest => .ended data last (.eof :: rest)
  | .byte c _ :: rest =>
    if last = LF ∧ c = CR then
      match rest with
      | [] => .again (data ++ [c]) last []
      -- the worker comes back to the outer loop, with `last_char` at the LF
      | .again :: rest => resumeHead (data ++ [c]) last rest
      | .fail e :: rest => .threw e (data ++ [c]) last rest
      | .eof :: rest => .noLf (data ++ [c]) last (.eof :: rest)
      | .byte d _ :: rest =>
        if d = LF then .complete (data ++ [c] ++ [LF]) rest else .noLf (data ++ [c]) last rest
    else resumeHead (data ++ [c]) c rest

/-- The stream without its suspensions, as a blocking reader sees it. -/
def Inbound.steady (items : Inbound) : Inbound := items.filter (· ≠ .again)

namespace HeadRead

/-- What the stream still holds. -/
def rest : HeadRead → Inbound
  | .complete _ rest => rest
  | .noLf _ _ rest => rest
  | .again _ _ rest => rest
  | .ended _ _ rest => rest
  | .threw _ _ _ rest => rest

/-- The reader has not come to an end, and is called again. -/
def pending : HeadRead → Bool
  | .again _ _ _ => true
  | .ended _ _ _ => true
  | _ => false

/-- The same, of the stream without its suspensions. -/
def strip : HeadRead → HeadRead
  | .complete data rest => .complete data rest.steady
  | .noLf data last rest => .noLf data last rest.steady
  | .again data last rest => .again data last rest.steady
  | .ended data last rest => .ended data last rest.steady
  | .threw e data last rest => .threw e data last rest.steady

end HeadRead

namespace Inbound

@[simp] lemma steady_nil : steady [] = [] := rfl
@[simp] lemma steady_again (rest : Inbound) : steady (.again :: rest) = steady rest := rfl
@[simp] lemma steady_byte (b : Byte) (brk : Bool) (rest : Inbound) :
    steady (.byte b brk :: rest) = .byte b brk :: steady rest := rfl
@[simp] lemma steady_eof (rest : Inbound) : steady (.eof :: rest) = .eof :: steady rest := rfl
@[simp] lemma steady_fail (e : Exn) (rest : Inbound) :
    steady (.fail e :: rest) = .fail e :: steady rest := rfl

/-- Suspensions carry no bytes. -/
lemma payload_steady (items : Inbound) : payload (steady items) = payload items := by
  induction items with
  | nil => rfl
  | cons item items ih =>
    cases item with
    | byte b brk => exact congrArg (b :: ·) ih
    | again => exact ih
    | eof => rfl
    | fail e => exact ih

end Inbound

section Reader

variable {data : Bytes} {last : Byte} {items rest : Inbound}

/-! ### One byte -/

lemma readHead_byte {c : Byte} (brk : Bool) (h : ¬ (last = LF ∧ c = CR)) :
    readHead data last (.byte c brk :: rest) = readHead (data ++ [c]) c rest := if_neg h

lemma resumeHead_byte {c : Byte} (brk : Bool) (h : ¬ (last = LF ∧ c = CR)) :
    resumeHead data last (.byte c brk :: rest) = resumeHead (data ++ [c]) c rest := by
  rw [resumeHead.eq_def]
  exact if_neg h

/-- The byte behind the final CR. -/
lemma readHead_cr (data : Bytes) (brk brk' : Bool) (d : Byte) (rest : Inbound) :
    readHead data LF (.byte CR brk :: .byte d brk' :: rest) =
      if d = LF then .complete (data ++ [CR] ++ [LF]) rest
      else .noLf (data ++ [CR]) LF rest := by
  simp [readHead]

lemma resumeHead_cr (data : Bytes) (brk brk' : Bool) (d : Byte) (rest : Inbound) :
    resumeHead data LF (.byte CR brk :: .byte d brk' :: rest) =
      if d = LF then .complete (data ++ [CR] ++ [LF]) rest
      else .noLf (data ++ [CR]) LF rest := rfl

/-! ### One call -/

/-- The byte loop reports `kAgain` behind what it has read, or on an exhausted stream. -/
lemma length_of_again {d : Bytes} {l : Byte} (h : readHead data last items = .again d l rest) :
    rest.length < items.length ∨ items = [] := by
  induction items generalizing data last with
  | nil => exact Or.inr rfl
  | cons item items ih =>
    left
    cases item with
    | again =>
      obtain ⟨-, -, rfl⟩ := HeadRead.again.inj h
      exact Nat.lt_succ_self _
    | eof => cases h
    | fail e => cases h
    | byte c brk =>
      by_cases hif : last = LF ∧ c = CR
      · obtain ⟨rfl, rfl⟩ := hif
        match items with
        | [] =>
          obtain ⟨-, -, rfl⟩ := HeadRead.again.inj h
          exact Nat.lt_succ_self _
        | .again :: items =>
          obtain ⟨-, -, rfl⟩ := HeadRead.again.inj h
          simp only [List.length_cons]
          omega
        | .eof :: items => cases h
        | .fail e :: items => cases h
        | .byte d brk :: items =>
          rw [readHead_cr] at h
          split at h <;> cases h
      · rw [readHead_byte brk hif] at h
        rcases ih h with hlt | rfl
        · exact hlt.trans (Nat.lt_succ_self _)
        · obtain ⟨-, -, rfl⟩ := HeadRead.again.inj h
          exact Nat.lt_succ_self _

/-- A read that returns 0 leaves the end of the stream where it is. -/
lemma eof_of_ended {d : Bytes} {l : Byte} (h : readHead data last items = .ended d l rest) :
    ∃ tail, rest = .eof :: tail := by
  induction items generalizing data last with
  | nil => cases h
  | cons item items ih =>
    cases item with
    | again => cases h
    | fail e => cases h
    | eof =>
      obtain ⟨-, -, rfl⟩ := HeadRead.ended.inj h
      exact ⟨items, rfl⟩
    | byte c brk =>
      by_cases hif : last = LF ∧ c = CR
      · obtain ⟨rfl, rfl⟩ := hif
        match items with
        | [] => cases h
        | .again :: items => cases h
        | .eof :: items => cases h
        | .fail e :: items => cases h
        | .byte d brk :: items =>
          rw [readHead_cr] at h
          split at h <;> cases h
      · rw [readHead_byte brk hif] at h
        exact ih h

/-- **One call**, and what the later ones make of it. -/
lemma resumeHead_eq (data : Bytes) (last : Byte) (items : Inbound) :
    resumeHead data last items =
      match readHead data last items with
      | .again d l rest => resumeHead d l rest
      | r => r := by
  induction items generalizing data last with
  | nil => rfl
  | cons item items ih =>
    cases item with
    | again => rfl
    | eof => rfl
    | fail e => rfl
    | byte c brk =>
      by_cases hif : last = LF ∧ c = CR
      · obtain ⟨rfl, rfl⟩ := hif
        match items with
        | [] => rfl
        | .again :: items => rfl
        | .eof :: items => rfl
        | .fail e :: items => rfl
        | .byte d brk' :: items =>
          rw [readHead_cr, resumeHead_cr]
          by_cases hd : d = LF
          · rw [if_pos hd]
          · rw [if_neg hd]
      · rw [readHead_byte brk hif, resumeHead_byte brk hif]
        exact ih _ _

end Reader

/-! ## The calls of `process` -/

/-- How `process` ends when it constructs the `Response` from these bytes, and the buffer. -/
def headOutcome (data : Bytes) : Outcome :=
  match Response.parse data with
  | none => .diverges
  | some (.error e) => .threw e
  | some (.ok response) =>
    match CreateBuffer response with
    | .error e => .threw e
    | .ok _ => .returned 0

namespace Worker

/-- `process` is called with `EPOLLIN` until it does not return in `Receiving`; it then ends
with this outcome and this worker. -/
inductive Receives : Worker → Outcome → Worker → Prop
  | ends {w w' : Worker} {file file' : File} {event : EpollEvents} {env : Env}
      {outcome : Outcome} (hevent : event.epollin = true)
      (hcall : w.process file event env = (outcome, w', file'))
      (hend : (∀ n, outcome ≠ .returned n) ∨ w'.state ≠ .receiving) : Receives w outcome w'
  | resumes {w w₁ w' : Worker} {file file₁ : File} {event : EpollEvents} {env : Env} {n : ℕ}
      {outcome : Outcome} (hevent : event.epollin = true)
      (hcall : w.process file event env = (.returned n, w₁, file₁))
      (hstate : w₁.state = .receiving) (hrest : Receives w₁ outcome w') : Receives w outcome w'

/-- The `Response` has been constructed from `data`, with `unread` left in the stream. -/
structure Built (data : Bytes) (unread : Inbound) (outcome : Outcome) (w : Worker) : Prop where
  bytes : w.responseData = data ++ [0]
  inbound : ∃ sent, w.stream = some ⟨unread, sent⟩
  outcome : outcome = headOutcome data
  buffer : ∀ response buffer, Response.parse data = some (.ok response) →
    CreateBuffer response = .ok buffer → w.state = .receivingBody ∧ w.buffer = some buffer

/-- What the worker comes to when the byte loop ends in this way. -/
def HeadEnd (outcome : Outcome) (w : Worker) : HeadRead → Prop
  | .complete data rest => Built data rest outcome w
  | .noLf _ _ rest => outcome = .threw noLfException ∧ ∃ sent, w.stream = some ⟨rest, sent⟩
  | .threw e _ _ rest => outcome = .threw e ∧ ∃ sent, w.stream = some ⟨rest, sent⟩
  | .again _ _ _ => False
  | .ended _ _ _ => False

section Calls

variable {w w' : Worker} {file file' : File} {event : EpollEvents} {env : Env}
  {outcome : Outcome} {stream : Stream}

lemma enterBody_built (w : Worker) (stream : Stream) (data : Bytes) (rest : Inbound) :
    Built data rest ((w.enterBody stream data rest).2.getD (.returned 0))
      (w.enterBody stream data rest).1 := by
  rcases hrun : w.enterBody stream data rest with ⟨w', o⟩
  cases enterBody_cases hrun with
  | diverges hparse =>
    refine ⟨rfl, ⟨_, rfl⟩, ?_, fun response buffer hr => ?_⟩
    · simp [headOutcome, hparse]
    · rw [hparse] at hr
      cases hr
  | invalid e hparse =>
    refine ⟨rfl, ⟨_, rfl⟩, ?_, fun response buffer hr => ?_⟩
    · simp [headOutcome, hparse]
    · rw [hparse] at hr
      cases hr
  | unsupported response e hparse hbuffer =>
    refine ⟨rfl, ⟨_, rfl⟩, ?_, fun response' buffer hr hb => ?_⟩
    · simp [headOutcome, hparse, hbuffer]
    · obtain rfl : response = response' := by simpa [hparse] using hr
      rw [hbuffer] at hb
      cases hb
  | entered response buffer hparse hbuffer =>
    refine ⟨rfl, ⟨_, rfl⟩, ?_, fun response' buffer' hr hb => ?_⟩
    · simp [headOutcome, hparse, hbuffer]
    · obtain rfl : response = response' := by simpa [hparse] using hr
      rw [hbuffer] at hb
      exact ⟨rfl, congrArg some (Except.ok.inj hb)⟩

/-- When `process` returns from there, the buffer is there. -/
lemma Built.exists_buffer {data : Bytes} {unread : Inbound} {n : ℕ}
    (h : Built data unread (.returned n) w) : ∃ response buffer,
      Response.parse data = some (.ok response) ∧ CreateBuffer response = .ok buffer ∧
      w.state = .receivingBody ∧ w.buffer = some buffer := by
  have houtcome := h.outcome
  unfold headOutcome at houtcome
  split at houtcome
  · cases houtcome
  · cases houtcome
  · next response hparse =>
    split at houtcome
    · cases houtcome
    · next buffer hbuffer =>
      obtain ⟨hstate, hsome⟩ := h.buffer response buffer hparse hbuffer
      exact ⟨response, buffer, hparse, hbuffer, hstate, hsome⟩

lemma Built.state {data : Bytes} {unread : Inbound} {n : ℕ}
    (h : Built data unread (.returned n) w) : w.state = .receivingBody := by
  obtain ⟨-, -, -, -, hstate, -⟩ := h.exists_buffer
  exact hstate

lemma enterBody_none (w : Worker) (stream : Stream) (data : Bytes) (rest : Inbound)
    (h : (w.enterBody stream data rest).2 = none) :
    (w.enterBody stream data rest).1.state = .receivingBody := by
  have hbuilt := enterBody_built w stream data rest
  rw [h] at hbuilt
  exact hbuilt.state

/-- **One call in `Receiving`.** -/
lemma process_of_receiving (hstate : w.state = .receiving) (hstream : w.stream = some stream)
    (hevent : event.epollin = true) :
    w.process file event env =
      match readHead w.responseData w.lastChar stream.inbound with
      | .complete data rest =>
        ((w.enterBody stream data rest).2.getD (.returned 0),
          (w.enterBody stream data rest).1, file)
      | .noLf data last rest => (.threw noLfException, w.keepHead stream data last rest, file)
      | .again data last rest => (.returned 0, w.keepHead stream data last rest, file)
      | .ended data last rest => (.returned 0, w.keepHead stream data last rest, file)
      | .threw e data last rest => (.threw e, w.keepHead stream data last rest, file) := by
  have hconnecting : w.connecting event env = (w, none) := connecting_of_ne (by simp [hstate])
  have hsending : w.sending event env = (w, none) := sending_of_ne (by simp [hstate])
  -- behind the head nothing happens in this call
  have hpass : ∀ (v : Worker) (once : Bool), (v.state = .receivingBody → once = true) →
      v.state ≠ .stopped →
      v.receivingBody file event once env = (v, file, 0, none) ∧ v.stopping env = (v, none) := by
    intro v once honce hlive
    refine ⟨if_neg fun hif => ?_, if_neg hlive⟩
    exact absurd ((honce hif.1).symm.trans hif.2.1) (by decide)
  unfold process
  simp only [hconnecting, hsending]
  unfold receiving
  rw [if_pos ⟨hstate, hevent⟩, hstream]
  simp only
  cases readHead w.responseData w.lastChar stream.inbound with
  | noLf data last rest => rfl
  | again data last rest => rfl
  | threw e data last rest => rfl
  | ended data last rest =>
    have hkeep : (w.keepHead stream data last rest).state = .receiving := hstate
    obtain ⟨hbody, hstop⟩ := hpass (w.keepHead stream data last rest) false
      (fun hb => absurd (hkeep.symm.trans hb) (by decide)) (by rw [hkeep]; decide)
    simp only [hbody, hstop]
  | complete data rest =>
    rcases henter : w.enterBody stream data rest with ⟨v, o⟩
    cases o with
    | some o => simp only [henter, Option.getD_some]
    | none =>
      have hv : v.state = .receivingBody := by
        have hnone := enterBody_none w stream data rest
        rw [henter] at hnone
        exact hnone rfl
      obtain ⟨hbody, hstop⟩ := hpass v true (fun _ => rfl) (by rw [hv]; decide)
      simp only [henter, hbody, hstop, Option.getD_none]

/-- **Every way the calls come to an end** is the one the reader predicts. -/
lemma Receives.headEnd (h : Receives w outcome w') (hstate : w.state = .receiving)
    (hstream : w.stream = some stream) :
    HeadEnd outcome w' (resumeHead w.responseData w.lastChar stream.inbound) := by
  induction h generalizing stream with
  | ends hevent hcall hend =>
    rw [process_of_receiving hstate hstream hevent] at hcall
    rw [resumeHead_eq]
    cases hread : readHead _ _ stream.inbound with
    | complete data rest =>
      rw [hread] at hcall
      obtain ⟨rfl, rfl, -⟩ := hcall
      exact enterBody_built _ _ _ _
    | noLf data last rest =>
      rw [hread] at hcall
      obtain ⟨rfl, rfl, -⟩ := hcall
      exact ⟨rfl, _, rfl⟩
    | threw e data last rest =>
      rw [hread] at hcall
      obtain ⟨rfl, rfl, -⟩ := hcall
      exact ⟨rfl, _, rfl⟩
    | again data last rest =>
      rw [hread] at hcall
      obtain ⟨rfl, rfl, -⟩ := hcall
      exact absurd hstate (hend.resolve_left fun hne => hne 0 rfl)
    | ended data last rest =>
      rw [hread] at hcall
      obtain ⟨rfl, rfl, -⟩ := hcall
      exact absurd hstate (hend.resolve_left fun hne => hne 0 rfl)
  | @resumes v _ _ _ _ _ _ _ _ hevent hcall hstate₁ hrest ih =>
    rw [process_of_receiving hstate hstream hevent] at hcall
    rw [resumeHead_eq]
    cases hread : readHead _ _ stream.inbound with
    | complete data rest =>
      rw [hread] at hcall
      simp only [Prod.mk.injEq] at hcall
      obtain ⟨ho, rfl, -⟩ := hcall
      have hbuilt := enterBody_built v stream data rest
      rw [ho] at hbuilt
      exact absurd (hstate₁.symm.trans hbuilt.state) (by decide)
    | noLf data last rest =>
      rw [hread] at hcall
      cases hcall
    | threw e data last rest =>
      rw [hread] at hcall
      cases hcall
    | again data last rest =>
      rw [hread] at hcall
      obtain ⟨-, rfl, -⟩ := hcall
      exact ih hstate rfl
    | ended data last rest =>
      rw [hread] at hcall
      obtain ⟨-, rfl, -⟩ := hcall
      obtain ⟨tail, rfl⟩ := eof_of_ended hread
      exact ih hstate rfl

/-- **The calls come to an end** when the reader does. -/
lemma exists_receives (hstate : w.state = .receiving) (hstream : w.stream = some stream)
    (hend : (resumeHead w.responseData w.lastChar stream.inbound).pending = false) :
    ∃ outcome w', Receives w outcome w' := by
  induction hlen : stream.inbound.length using Nat.strong_induction_on
    generalizing w stream with
  | _ n ih =>
    have hcall : w.process (fun _ => none) { epollin := true } {} = _ :=
      process_of_receiving hstate hstream rfl
    rw [resumeHead_eq] at hend
    cases hread : readHead w.responseData w.lastChar stream.inbound with
    | complete data rest =>
      rw [hread] at hcall
      have hbuilt := enterBody_built w stream data rest
      refine ⟨_, _, .ends rfl hcall (or_iff_not_imp_right.2 fun hstill n hn => hstill ?_)⟩
      rw [hn] at hbuilt
      rw [hbuilt.state]
      decide
    | noLf data last rest =>
      rw [hread] at hcall
      exact ⟨_, _, .ends rfl hcall (Or.inl nofun)⟩
    | threw e data last rest =>
      rw [hread] at hcall
      exact ⟨_, _, .ends rfl hcall (Or.inl nofun)⟩
    | again data last rest =>
      rw [hread] at hcall hend
      have hlt : rest.length < stream.inbound.length := by
        refine (length_of_again hread).resolve_right fun hnil => ?_
        rw [hnil] at hread
        obtain ⟨-, -, rfl⟩ := HeadRead.again.inj hread
        cases hend
      have hkeep : (w.keepHead stream data last rest).state = .receiving := hstate
      obtain ⟨outcome, w', hrest⟩ := ih rest.length (hlen ▸ hlt) hkeep rfl hend rfl
      exact ⟨outcome, w', .resumes rfl hcall hstate hrest⟩
    | ended data last rest =>
      rw [hread] at hend
      cases hend

end Calls

end Worker

/-! ## Against the blocking reader -/

/-- What follows the first CR behind a LF. -/
def afterCr (last : Byte) : Inbound → Option Inbound
  | .again :: rest => afterCr last rest
  | .byte c _ :: rest => if last = LF ∧ c = CR then some rest else afterCr c rest
  | _ => none

/-- Somewhere a CR behind a LF is followed, with no suspension between, by anything else than a
LF; or the stream itself throws that exception. -/
def bareCr (last : Byte) : Inbound → Bool
  | [] => false
  | .again :: rest => bareCr last rest
  | .fail e :: _ => e = noLfException
  | .eof :: _ => false
  | .byte c _ :: rest =>
    if last = LF ∧ c = CR then
      match rest with
      | [] => false
      | .again :: rest => bareCr last rest
      | .fail e :: _ => e = noLfException
      | .eof :: _ => true
      | .byte d _ :: _ => d ≠ LF
    else bareCr c rest

/-- **No harm is done.**  The stream is not suspended behind the first CR that follows a LF.
Or it is, but what comes next is nothing, or a failure of the stream; or it is a byte other
than the LF, and the reader meets a bare CR further on. -/
def uncut (items : Inbound) : Bool :=
  match afterCr 0 items with
  | some (.again :: rest) =>
    match Inbound.steady rest with
    | [] => true
    | .fail _ :: _ => true
    | .byte c _ :: _ => c ≠ LF && bareCr LF rest
    | _ => false
  | _ => true

/-- **The worker agrees with `ReadToResponse`** about `items`: the calls come to an end with the
response built from the same bytes and the same bytes unread, and they fail for a CR without
LF when it does. -/
structure HeadsAgree (w : Worker) (items : Inbound) : Prop where
  response : ∀ data unread, ReadToResponse items = .response data unread →
    (∃ outcome w', w.Receives outcome w') ∧ ∀ outcome w', w.Receives outcome w' →
      ∃ rest, Worker.Built data rest outcome w' ∧ rest.steady = unread
  noLf : ReadToResponse items = .threw noLfException →
    (∃ outcome w', w.Receives outcome w') ∧ ∀ outcome w', w.Receives outcome w' →
      outcome = .threw noLfException

section Reader

variable {data : Bytes} {last : Byte} {items rest : Inbound}

/-- Until the first CR behind a LF, and beyond it if the stream is not suspended there, the
suspensions make no difference. -/
lemma resumeHead_strip (h : ∀ rest, afterCr last items ≠ some (.again :: rest)) :
    (resumeHead data last items).strip = readHead data last items.steady := by
  induction items generalizing data last with
  | nil => rfl
  | cons item items ih =>
    cases item with
    | again => exact ih h
    | eof => rfl
    | fail e => rfl
    | byte c brk =>
      rw [Inbound.steady_byte]
      by_cases hif : last = LF ∧ c = CR
      · obtain ⟨rfl, rfl⟩ := hif
        match items with
        | [] => rfl
        | .again :: items => exact absurd rfl (h items)
        | .eof :: items => rfl
        | .fail e :: items => rfl
        | .byte d brk' :: items =>
          rw [Inbound.steady_byte, readHead_cr, resumeHead_cr]
          by_cases hd : d = LF
          · rw [if_pos hd, if_pos hd]
            rfl
          · rw [if_neg hd, if_neg hd]
            rfl
      · rw [readHead_byte brk hif, resumeHead_byte brk hif]
        refine ih fun rest hrest => h rest ?_
        rw [← hrest]
        exact if_neg hif

/-- At a suspension behind that CR, the two readers part. -/
lemma of_cut (data : Bytes) (h : afterCr last items = some (.again :: rest)) :
    ∃ head brk, readHead data last items.steady = readHead head LF (.byte CR brk :: rest.steady) ∧
      resumeHead data last items = resumeHead (head ++ [CR]) LF rest := by
  induction items generalizing data last with
  | nil => cases h
  | cons item items ih =>
    cases item with
    | again => exact ih _ h
    | eof => cases h
    | fail e => cases h
    | byte c brk =>
      by_cases hif : last = LF ∧ c = CR
      · rw [afterCr, if_pos hif] at h
        obtain ⟨rfl, rfl⟩ := hif
        obtain rfl := Option.some.inj h
        exact ⟨data, brk, rfl, rfl⟩
      · rw [afterCr, if_neg hif] at h
        rw [Inbound.steady_byte, readHead_byte brk hif, resumeHead_byte brk hif]
        exact ih _ h

/-- When the reader comes to an end, it has taken something off the stream. -/
lemma length_of_ended (h : (resumeHead data last items).pending = false) :
    (resumeHead data last items).rest.steady.length < items.steady.length := by
  induction data, last, items using resumeHead.induct with
  | case1 data last => cases h
  | case2 data last rest ih => exact ih h
  | case3 data last e rest => exact Nat.lt_succ_self _
  | case4 data last rest => cases h
  | case5 data last c brk hif =>
    obtain ⟨rfl, rfl⟩ := hif
    cases h
  | case6 data last c brk hif rest ih =>
    obtain ⟨rfl, rfl⟩ := hif
    exact (ih h).trans (Nat.lt_succ_self _)
  | case7 data last c brk hif e rest =>
    obtain ⟨rfl, rfl⟩ := hif
    exact Nat.lt_succ_of_lt (Nat.lt_succ_self _)
  | case8 data last c brk hif rest =>
    obtain ⟨rfl, rfl⟩ := hif
    exact Nat.lt_succ_self _
  | case9 data last c brk hif brk' rest =>
    obtain ⟨rfl, rfl⟩ := hif
    exact Nat.lt_succ_of_lt (Nat.lt_succ_self _)
  | case10 data last c brk hif d brk' rest hd =>
    obtain ⟨rfl, rfl⟩ := hif
    rw [resumeHead_cr, if_neg hd]
    exact Nat.lt_succ_of_lt (Nat.lt_succ_self _)
  | case11 data last c brk rest hif ih =>
    rw [resumeHead_byte brk hif] at h ⊢
    exact (ih h).trans (Nat.lt_succ_self _)

/-- The reader fails for a CR without LF. -/
def HeadRead.Bare : HeadRead → Prop
  | .noLf _ _ _ => True
  | .threw e _ _ _ => e = noLfException
  | _ => False

/-- A bare CR in the stream is what makes it fail. -/
lemma bareCr_iff : bareCr last items = true ↔ (resumeHead data last items).Bare := by
  induction data, last, items using resumeHead.induct with
  | case1 data last => exact ⟨nofun, nofun⟩
  | case2 data last rest ih => exact ih
  | case3 data last e rest => exact decide_eq_true_iff
  | case4 data last rest => exact ⟨nofun, nofun⟩
  | case5 data last c brk hif =>
    obtain ⟨rfl, rfl⟩ := hif
    exact ⟨nofun, nofun⟩
  | case6 data last c brk hif rest ih =>
    obtain ⟨rfl, rfl⟩ := hif
    exact ih
  | case7 data last c brk hif e rest =>
    obtain ⟨rfl, rfl⟩ := hif
    exact decide_eq_true_iff
  | case8 data last c brk hif rest =>
    obtain ⟨rfl, rfl⟩ := hif
    exact ⟨fun _ => trivial, fun _ => rfl⟩
  | case9 data last c brk hif brk' rest =>
    obtain ⟨rfl, rfl⟩ := hif
    exact ⟨nofun, nofun⟩
  | case10 data last c brk hif d brk' rest hd =>
    obtain ⟨rfl, rfl⟩ := hif
    rw [resumeHead_cr, if_neg hd]
    exact ⟨fun _ => trivial, fun _ => decide_eq_true hd⟩
  | case11 data last c brk rest hif ih =>
    rw [resumeHead_byte brk hif, bareCr.eq_def]
    simp only [if_neg hif]
    exact ih

/-- The reader passes over suspensions. -/
lemma exists_of_steady {item : Incoming} {tail : Inbound} (h : items.steady = item :: tail) :
    ∃ rest, Inbound.steady rest = tail ∧
      ∀ data last, resumeHead data last items = resumeHead data last (item :: rest) := by
  induction items with
  | nil => cases h
  | cons first items ih =>
    cases first with
    | again => exact ih h
    | eof =>
      obtain ⟨rfl, rfl⟩ := List.cons.inj h
      exact ⟨items, rfl, fun _ _ => rfl⟩
    | fail e =>
      obtain ⟨rfl, rfl⟩ := List.cons.inj h
      exact ⟨items, rfl, fun _ _ => rfl⟩
    | byte c brk =>
      obtain ⟨rfl, rfl⟩ := List.cons.inj h
      exact ⟨items, rfl, fun _ _ => rfl⟩

lemma resumeHead_of_steady_nil (h : items.steady = []) :
    resumeHead data last items = .again data last [] := by
  induction items with
  | nil => rfl
  | cons first items ih =>
    cases first with
    | again => exact ih h
    | _ => cases h

lemma again_notMem_steady (items : Inbound) : Incoming.again ∉ items.steady := fun hmem =>
  of_decide_eq_true (List.mem_filter.1 hmem).2 rfl

/-! ### What `ReadToResponse` makes of the reader -/

lemma readToResponse_eq_response {unread : Inbound} :
    ReadToResponse items = .response data unread ↔
      readHead [] 0 items.steady = .complete data unread := by
  unfold ReadToResponse
  rw [← Inbound.steady]
  cases readHead [] 0 items.steady with
  | complete d rest => simp
  | noLf d l rest => simp
  | again d l rest => simp
  | ended d l rest => simp
  | threw e d l rest => simp

/-- **A head that the worker completes** is the one that `ReadToResponse` finds, if no
suspension does harm. -/
lemma readToResponse_of_uncut (huncut : uncut items = true)
    (h : resumeHead [] 0 items = .complete data rest) :
    ReadToResponse items = .response data rest.steady := by
  by_cases hcut : ∀ rest, afterCr 0 items ≠ some (.again :: rest)
  · rw [readToResponse_eq_response, ← resumeHead_strip hcut, h]
    rfl
  · -- behind a suspended CR the worker does not complete the head
    obtain ⟨tail, hafter⟩ := not_forall_not.1 hcut
    obtain ⟨head, brk, -, hresumed⟩ := of_cut [] hafter
    rw [hresumed] at h
    unfold uncut at huncut
    simp only [hafter] at huncut
    split at huncut
    · next hnil =>
      rw [resumeHead_of_steady_nil hnil] at h
      cases h
    · next e tail' hfail =>
      obtain ⟨rest', -, hrest⟩ := exists_of_steady hfail
      rw [hrest] at h
      cases h
    · next c brk' tail' hbyte =>
      have hbare : (resumeHead (head ++ [CR]) LF tail).Bare :=
        bareCr_iff.1 (Bool.and_eq_true_iff.1 huncut).2
      rw [h] at hbare
      exact hbare.elim
    · cases huncut

lemma readToResponse_eq_noLf :
    ReadToResponse items = .threw noLfException ↔ (readHead [] 0 items.steady).Bare := by
  unfold ReadToResponse
  rw [← Inbound.steady]
  cases readHead [] 0 items.steady with
  | complete d rest => simp [HeadRead.Bare]
  | noLf d l rest => simp [HeadRead.Bare]
  | again d l rest => simp [HeadRead.Bare]
  | ended d l rest => simp [HeadRead.Bare, noLfException]
  | threw e d l rest => simp [HeadRead.Bare]

end Reader

/-! ### Failures of the constructor -/

lemma parseHeaderString_error {line : Bytes} {e : Exn} (h : ParseHeaderString line = .error e) :
    e = .runtimeError "Invalid header" := by
  unfold ParseHeaderString at h
  split at h
  · cases h
  · exact (Except.error.inj h).symm

lemma headerLoop_error {fuel : ℕ} {ss : Response.LineStream} {line : Bytes} {headers : StringMap}
    {e : Exn} (h : Response.headerLoop fuel ss line headers = some (.error e)) :
    e = .runtimeError "Invalid header" := by
  induction fuel generalizing ss line headers with
  | zero => cases h
  | succ fuel ih =>
    unfold Response.headerLoop at h
    rcases Response.getline ss line with ⟨line', ss'⟩
    simp only at h
    split at h
    · cases h
    · split at h
      · next e' herror =>
        obtain rfl := Except.error.inj (Option.some.inj h)
        exact parseHeaderString_error herror
      · exact ih h

/-- The constructor of `Response` and `CreateBuffer` have exceptions of their own. -/
lemma headOutcome_ne (data : Bytes) : headOutcome data ≠ .threw noLfException := by
  intro h
  unfold headOutcome at h
  split at h
  · cases h
  · next e hparse =>
    obtain rfl := Outcome.threw.inj h
    unfold Response.parse at hparse
    simp only at hparse
    split at hparse
    · exact absurd (Except.error.inj (Option.some.inj hparse)) (by decide)
    · split at hparse
      · cases hparse
      · next hloop =>
        obtain rfl := Except.error.inj (Option.some.inj hparse)
        exact absurd (headerLoop_error hloop) (by decide)
      · cases hparse
  · next response hparse =>
    split at h
    · next e hbuffer =>
      obtain rfl := Outcome.threw.inj h
      unfold CreateBuffer at hbuffer
      split at hbuffer
      · cases hbuffer
      · split at hbuffer
        · split at hbuffer
          · cases hbuffer
          · exact absurd (Except.error.inj hbuffer) (by decide)
        · cases hbuffer
    · cases h

namespace Worker

variable {w w' : Worker} {items : Inbound} {outcome : Outcome} {r : HeadRead}

lemma HeadEnd.pending (h : HeadEnd outcome w r) : r.pending = false := by
  cases r with
  | again d l rest => exact h.elim
  | ended d l rest => exact h.elim
  | _ => rfl

lemma HeadEnd.inbound (h : HeadEnd outcome w r) : ∃ sent, w.stream = some ⟨r.rest, sent⟩ := by
  cases r with
  | again d l rest => exact h.elim
  | ended d l rest => exact h.elim
  | complete d rest => exact h.inbound
  | noLf d l rest => exact h.2
  | threw e d l rest => exact h.2

/-- The worker fails for a CR without LF when the reader does. -/
lemma HeadEnd.bare_iff (h : HeadEnd outcome w r) : outcome = .threw noLfException ↔ r.Bare := by
  cases r with
  | again d l rest => exact h.elim
  | ended d l rest => exact h.elim
  | complete d rest => exact ⟨fun ho => headOutcome_ne d (h.outcome.symm.trans ho), nofun⟩
  | noLf d l rest => exact ⟨fun _ => trivial, fun _ => h.1⟩
  | threw e d l rest => rw [h.1, Outcome.threw.injEq, HeadRead.Bare]

end Worker

section Agreement

variable {w : Worker} {items rest : Inbound} {sent : Bytes}

/-- Agreement, in terms of the reader that resumes. -/
lemma heads_agree_of (hstate : w.state = .receiving) (hdata : w.responseData = [])
    (hlast : w.lastChar = 0) (hstream : w.stream = some ⟨items, sent⟩)
    (hresponse : ∀ data unread, ReadToResponse items = .response data unread →
      ∃ rest, resumeHead [] 0 items = .complete data rest ∧ rest.steady = unread)
    (hnoLf : ReadToResponse items = .threw noLfException → (resumeHead [] 0 items).Bare) :
    HeadsAgree w items := by
  have hresume : resumeHead w.responseData w.lastChar items = resumeHead [] 0 items := by
    rw [hdata, hlast]
  have hends : (resumeHead [] 0 items).pending = false → ∃ outcome w', w.Receives outcome w' :=
    fun h => Worker.exists_receives hstate hstream (by rw [hresume]; exact h)
  have hend : ∀ outcome w', w.Receives outcome w' →
      Worker.HeadEnd outcome w' (resumeHead [] 0 items) := by
    intro outcome w' hrun
    rw [← hresume]
    exact hrun.headEnd hstate hstream
  constructor
  · intro data unread hread
    obtain ⟨rest, hcomplete, hrest⟩ := hresponse data unread hread
    refine ⟨hends (by rw [hcomplete]; rfl), fun outcome w' hrun => ⟨rest, ?_, hrest⟩⟩
    have hbuilt := hend outcome w' hrun
    rwa [hcomplete] at hbuilt
  · intro hread
    have hbare := hnoLf hread
    refine ⟨hends ?_, fun outcome w' hrun => (hend outcome w' hrun).bare_iff.2 hbare⟩
    cases hr : resumeHead [] 0 items with
    | again d l rest => exact (hr ▸ hbare).elim
    | ended d l rest => exact (hr ▸ hbare).elim
    | _ => rfl

/-- Without a harmful suspension the worker agrees. -/
lemma heads_agree_of_uncut (hstate : w.state = .receiving) (hdata : w.responseData = [])
    (hlast : w.lastChar = 0) (hstream : w.stream = some ⟨items, sent⟩)
    (huncut : uncut items = true) : HeadsAgree w items := by
  by_cases hcut : ∀ rest, afterCr 0 items ≠ some (.again :: rest)
  · -- both readers do the same
    have hstrip : (resumeHead [] 0 items).strip = readHead [] 0 items.steady :=
      resumeHead_strip hcut
    refine heads_agree_of hstate hdata hlast hstream (fun data unread hread => ?_) fun hread => ?_
    · rw [readToResponse_eq_response, ← hstrip] at hread
      cases hr : resumeHead [] 0 items with
      | complete d rest =>
        rw [hr] at hread
        obtain ⟨rfl, hrest⟩ := HeadRead.complete.inj hread
        exact ⟨rest, rfl, hrest⟩
      | _ =>
        rw [hr] at hread
        cases hread
    · rw [readToResponse_eq_noLf, ← hstrip] at hread
      cases hr : resumeHead [] 0 items with
      | _ =>
        rw [hr] at hread
        exact hread
  · -- the blocking reader does not complete the head
    obtain ⟨rest, hafter⟩ := not_forall_not.1 hcut
    obtain ⟨head, brk, hblocking, hresumed⟩ := of_cut [] hafter
    have hneither : (∀ data unread, ReadToResponse items ≠ .response data unread) ∧
        (ReadToResponse items = .threw noLfException → (resumeHead [] 0 items).Bare) := by
      unfold uncut at huncut
      simp only [hafter] at huncut
      simp only [ne_eq, readToResponse_eq_response, readToResponse_eq_noLf, hblocking]
      split at huncut
      · next hnil =>
        rw [hnil]
        exact ⟨nofun, nofun⟩
      · next e tail hfail =>
        obtain ⟨rest', -, hrest⟩ := exists_of_steady hfail
        rw [hfail, hresumed, hrest]
        exact ⟨nofun, id⟩
      · next c brk' tail hbyte =>
        obtain ⟨hne, hbare⟩ := Bool.and_eq_true_iff.1 huncut
        rw [hbyte, hresumed, readHead_cr, if_neg (of_decide_eq_true hne)]
        exact ⟨nofun, fun _ => bareCr_iff.1 hbare⟩
      · cases huncut
    exact heads_agree_of hstate hdata hlast hstream
      (fun data unread hread => absurd hread (hneither.1 data unread)) hneither.2

/-- A harmful suspension makes it go on where the blocking reader stops. -/
lemma not_heads_agree_of_cut (hstate : w.state = .receiving) (hdata : w.responseData = [])
    (hlast : w.lastChar = 0) (hstream : w.stream = some ⟨items, sent⟩)
    (hcut : uncut items = false) : ¬ HeadsAgree w items := by
  intro hagree
  have hend : ∀ outcome w', w.Receives outcome w' →
      Worker.HeadEnd outcome w' (resumeHead [] 0 items) := by
    intro outcome w' hrun
    have h := hrun.headEnd hstate hstream
    rwa [hdata, hlast] at h
  unfold uncut at hcut
  split at hcut
  · next rest hafter =>
    obtain ⟨head, brk, hblocking, hresumed⟩ := of_cut [] hafter
    have hfails : (readHead [] 0 items.steady).Bare → (resumeHead [] 0 items).Bare := by
      intro hbare
      obtain ⟨⟨outcome, w', hrun⟩, hall⟩ := hagree.noLf (readToResponse_eq_noLf.2 hbare)
      exact (hend outcome w' hrun).bare_iff.1 (hall outcome w' hrun)
    cases hsteady : Inbound.steady rest with
    | nil =>
      rw [hsteady] at hcut
      cases hcut
    | cons item tail =>
      obtain ⟨rest', hrest', hskip⟩ := exists_of_steady hsteady
      rw [hsteady] at hcut hblocking
      cases item with
      | again =>
        have hmem := again_notMem_steady rest
        rw [hsteady] at hmem
        exact hmem List.mem_cons_self
      | fail e => cases hcut
      | eof =>
        rw [hblocking, hresumed, hskip] at hfails
        exact hfails trivial
      | byte c brk' =>
        rw [readHead_cr] at hblocking
        by_cases hc : c = LF
        · -- the head ends here, and the worker reads on
          subst hc
          rw [if_pos rfl] at hblocking
          obtain ⟨⟨outcome, w', hrun⟩, hall⟩ :=
            hagree.response _ _ (readToResponse_eq_response.2 hblocking)
          obtain ⟨unread, hbuilt, hunread⟩ := hall outcome w' hrun
          obtain ⟨sent₁, hinbound⟩ := hbuilt.inbound
          obtain ⟨sent₂, hinbound'⟩ := (hend outcome w' hrun).inbound
          have hpending := (hend outcome w' hrun).pending
          rw [hresumed, hskip, resumeHead_byte brk' (by decide)] at hinbound' hpending
          obtain ⟨rfl, -⟩ := Stream.mk.inj (Option.some.inj (hinbound.symm.trans hinbound'))
          have hlt := length_of_ended hpending
          rw [hrest', ← hunread] at hlt
          exact absurd hlt (lt_irrefl _)
        · rw [if_neg hc] at hblocking
          rw [hblocking, hresumed, ← bareCr_iff] at hfails
          simp [hc, hfails trivial] at hcut
  · cases hcut

/-- **The worker agrees with the blocking reader exactly if** no suspension does harm. -/
theorem heads_agree_iff (hstate : w.state = .receiving) (hdata : w.responseData = [])
    (hlast : w.lastChar = 0) (hstream : w.stream = some ⟨items, sent⟩) :
    HeadsAgree w items ↔ uncut items = true := by
  refine ⟨fun hagree => ?_, heads_agree_of_uncut hstate hdata hlast hstream⟩
  by_contra hcut
  exact not_heads_agree_of_cut hstate hdata hlast hstream (Bool.not_eq_true _ ▸ hcut) hagree

/-- A worker that waits for its response. -/
def awaiting (items : Inbound) : Worker :=
  { Worker.create ⟨items, []⟩ ⟨[], [], [], []⟩ 0 with state := .receiving }

/-- A suspension between the two line ends does no harm. -/
theorem heads_agree_between_lines :
    HeadsAgree (awaiting ((bytes "HTTP/1.1 200 OK\r\n").map (.byte · false) ++ .again ::
        (bytes "\r\nbody").map (.byte · false)))
      ((bytes "HTTP/1.1 200 OK\r\n").map (.byte · false) ++ .again ::
        (bytes "\r\nbody").map (.byte · false)) :=
  (heads_agree_iff rfl rfl rfl rfl).2 (by decide +kernel)

/-- A suspension inside the last CR LF makes the worker miss the end of the head. -/
theorem misses_head_end :
    ¬ HeadsAgree (awaiting ((bytes "HTTP/1.1 200 OK\r\n\r").map (.byte · false) ++ .again ::
        (bytes "\nbody").map (.byte · false)))
      ((bytes "HTTP/1.1 200 OK\r\n\r").map (.byte · false) ++ .again ::
        (bytes "\nbody").map (.byte · false)) :=
  not_heads_agree_of_cut rfl rfl rfl rfl (by decide +kernel)

end Agreement

end Cld
