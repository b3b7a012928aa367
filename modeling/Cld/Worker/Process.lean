import Cld.Worker.Blocks

/-!
# What one call of `process` can do

The facts about `Worker::process` which the download loop relies on, whatever the system
answers.

* `WF` is the invariant of a worker: a live one has a stream, one that receives a body has a
  buffer, and one that is registered with epoll has a stream.  It is what keeps `process` and
  `forceStop` from following a null pointer.
* The blocks before the body are `Quiet`: they leave the file offset alone, do not wake a
  stopped worker, and do nothing to one that receives a body.
* The body loop only ever writes at the current offset and advances it by as much
  (`bodyLoop_wrote`), so that one call writes a contiguous run of bytes.

`process_keeps` is the rule of the blocks, what each of them keeps the call keeps.  `process_spec`
puts the facts above together, `forceStop_spec` is its companion.
-/

namespace Cld

/-! ## Writing to the file -/

namespace File

variable (file : File) (o : ℤ)

lemma write_of_mem {k : ℤ} {bs : Bytes} (hk : o ≤ k ∧ k < o + bs.length) :
    file.write o bs k = bs[(k - o).toNat]? := if_pos hk

/-- A write leaves the rest of the file alone. -/
lemma write_of_notMem {k : ℤ} {bs : Bytes} (hk : ¬ (o ≤ k ∧ k < o + bs.length)) :
    file.write o bs k = file k := if_neg hk

@[simp] lemma write_nil : file.write o [] = file := by
  funext k
  refine write_of_notMem file o ?_
  simp only [List.length_nil]
  omega

/-- Two writes, the second where the first has ended, are one. -/
lemma write_append (as bs : Bytes) :
    (file.write o as).write (o + as.length) bs = file.write o (as ++ bs) := by
  funext k
  by_cases hb : o + as.length ≤ k ∧ k < o + as.length + bs.length
  · have hab : o ≤ k ∧ k < o + (as ++ bs).length := by
      rw [List.length_append]
      push_cast
      omega
    have hidx : as.length ≤ (k - o).toNat := by omega
    rw [write_of_mem _ _ hb, write_of_mem _ _ hab, List.getElem?_append_right hidx]
    congr 1
    omega
  · rw [write_of_notMem _ _ hb]
    by_cases ha : o ≤ k ∧ k < o + as.length
    · have hab : o ≤ k ∧ k < o + (as ++ bs).length := by
        rw [List.length_append]
        push_cast
        omega
      have hidx : (k - o).toNat < as.length := by omega
      rw [write_of_mem _ _ ha, write_of_mem _ _ hab, List.getElem?_append_left hidx]
    · have hab : ¬ (o ≤ k ∧ k < o + (as ++ bs).length) := by
        rw [List.length_append]
        push_cast
        omega
      rw [write_of_notMem _ _ ha, write_of_notMem _ _ hab]

/-- Every offset of the run is written. -/
lemma write_ne_none {k : ℤ} {bs : Bytes} (hk : o ≤ k ∧ k < o + bs.length) :
    file.write o bs k ≠ none := by
  have hidx : (k - o).toNat < bs.length := by omega
  rw [write_of_mem _ _ hk, List.getElem?_eq_getElem hidx]
  exact Option.some_ne_none _

/-- What is written once stays written. -/
lemma write_ne_none_of_ne_none {k : ℤ} (bs : Bytes) (h : file k ≠ none) :
    file.write o bs k ≠ none := by
  by_cases hk : o ≤ k ∧ k < o + bs.length
  · exact write_ne_none file o hk
  · rw [write_of_notMem file o hk]
    exact h

end File

/-! ## The body loop -/

lemma Buffer.read_valid {S : ℕ} {b b' : Buffer} {items rest : Inbound}
    (h : b.read S items = (.ok, b', rest)) : b'.end_ ≤ b'.data.length := by
  have hfill : ∀ {n : ℕ} {note : ℕ → BufferKind}, b.fill n items note = (.ok, b', rest) →
      b'.end_ ≤ b'.data.length := by
    intro n note hfill
    unfold fill at hfill
    split at hfill
    · simp only [Prod.mk.injEq, true_and] at hfill
      rw [← hfill.1]
    · simp at hfill
    · simp at hfill
  unfold read at h
  split at h
  · exact hfill h
  · exact hfill h
  · rw [readChunked_end h]
    exact Nat.zero_le _

namespace Worker

/-- The loop state after one write. -/
def BodyState.wrote (s : BodyState) (buffer : Buffer) (inbound : Inbound) (written : ℕ) :
    BodyState where
  buffer := buffer
  inbound := inbound
  file := s.file.write s.fileOffset (buffer.data.take written)
  fileOffset := s.fileOffset + written
  fileReadCount := s.fileReadCount + written

section BodyLoop

variable {S : ℕ} {s : BodyState} {writes : List FileWrite} {buffer : Buffer} {inbound : Inbound}

lemma bodyLoop_again (h : s.buffer.read S s.inbound = (.again, buffer, inbound)) :
    bodyLoop S s writes = ({ s with buffer := buffer, inbound := inbound }, .again) := by
  rw [bodyLoop]
  split <;> simp_all

lemma bodyLoop_threw {e : Exn} (h : s.buffer.read S s.inbound = (.threw e, buffer, inbound)) :
    bodyLoop S s writes = ({ s with buffer := buffer, inbound := inbound }, .threw e) := by
  rw [bodyLoop]
  split <;> simp_all

lemma bodyLoop_noWrite (h : s.buffer.read S s.inbound = (.ok, buffer, inbound))
    (hwrite : (writes.head?.getD .all).written buffer.validCount = none) :
    bodyLoop S s writes =
      ({ s with buffer := buffer, inbound := inbound }, .threw .systemError) := by
  rw [bodyLoop]
  split
  · simp_all
  · simp_all
  · next b i hread =>
    obtain ⟨rfl, rfl⟩ : buffer = b ∧ inbound = i := by simpa using h.symm.trans hread
    split <;> simp_all

/-- One round of the loop that writes. -/
lemma bodyLoop_write {written : ℕ} (h : s.buffer.read S s.inbound = (.ok, buffer, inbound))
    (hwrite : (writes.head?.getD .all).written buffer.validCount = some written) :
    bodyLoop S s writes =
      if buffer.finished then (s.wrote buffer inbound written, .finished)
      else if written ≠ 0 then bodyLoop S (s.wrote buffer inbound written) writes.tail
      else (s.wrote buffer inbound written, .idle) := by
  rw [bodyLoop]
  split
  · simp_all
  · simp_all
  · next b i hread =>
    obtain ⟨rfl, rfl⟩ : buffer = b ∧ inbound = i := by simpa using h.symm.trans hread
    split
    · simp_all
    · next n hn =>
      obtain rfl : written = n := Option.some.inj (hwrite.symm.trans hn)
      simp only [BodyState.wrote, dite_eq_ite]

lemma BodyState.length_take {written : ℕ}
    (h : s.buffer.read S s.inbound = (.ok, buffer, inbound))
    (hwrite : (writes.head?.getD .all).written buffer.validCount = some written) :
    (buffer.data.take written).length = written := by
  have hvalid : buffer.end_ ≤ buffer.data.length := Buffer.read_valid h
  have hle : written ≤ buffer.end_ := FileWrite.written_le hwrite
  rw [List.length_take]
  omega

/-- A write, and what the rest of the loop writes, are one. -/
lemma BodyState.wrote_append {s' : BodyState} {written : ℕ} {bs : Bytes}
    (hlen : (buffer.data.take written).length = written)
    (hfile : s'.file = (s.wrote buffer inbound written).file.write
      (s.wrote buffer inbound written).fileOffset bs)
    (hoffset : s'.fileOffset = (s.wrote buffer inbound written).fileOffset + bs.length) :
    s'.file = s.file.write s.fileOffset (buffer.data.take written ++ bs) ∧
      s'.fileOffset = s.fileOffset + (buffer.data.take written ++ bs).length := by
  constructor
  · rw [← File.write_append, hlen]
    exact hfile
  · rw [List.length_append, hlen]
    push_cast
    rw [← add_assoc]
    exact hoffset

/-- **The loop writes one run of bytes**, beginning at the offset it starts from and ending at
the offset it leaves. -/
lemma bodyLoop_wrote (S : ℕ) (s : BodyState) (writes : List FileWrite) :
    ∃ bs, (bodyLoop S s writes).1.file = s.file.write s.fileOffset bs ∧
      (bodyLoop S s writes).1.fileOffset = s.fileOffset + bs.length := by
  induction s, writes using bodyLoop.induct S with
  | case1 s writes buffer inbound h =>
    refine ⟨[], ?_, ?_⟩ <;> rw [bodyLoop_again h] <;> simp
  | case2 s writes e buffer inbound h =>
    refine ⟨[], ?_, ?_⟩ <;> rw [bodyLoop_threw h] <;> simp
  | case3 s writes buffer inbound h hwrite =>
    refine ⟨[], ?_, ?_⟩ <;> rw [bodyLoop_noWrite h hwrite] <;> simp
  | case4 s writes buffer inbound h written hwrite hfin =>
    have hlen := BodyState.length_take h hwrite
    rw [bodyLoop_write h hwrite, if_pos hfin]
    exact ⟨buffer.data.take written, rfl, by rw [hlen]; rfl⟩
  | case5 s writes buffer inbound h written hwrite s' hfin hmore ih =>
    have hlen := BodyState.length_take h hwrite
    rw [bodyLoop_write h hwrite, if_neg hfin, if_pos hmore]
    obtain ⟨bs, hfile, hoffset⟩ := ih
    exact ⟨_, BodyState.wrote_append hlen hfile hoffset⟩
  | case6 s writes buffer inbound h written hwrite hfin hmore =>
    have hlen := BodyState.length_take h hwrite
    rw [bodyLoop_write h hwrite, if_neg hfin, if_neg hmore]
    exact ⟨buffer.data.take written, rfl, by rw [hlen]; rfl⟩

end BodyLoop

/-! ## The invariant of a worker -/

structure WF (w : Worker) : Prop where
  stream : w.state ≠ .stopped → w.stream ≠ none
  buffer : w.state = .receivingBody → w.buffer ≠ none
  interest : w.interest ≠ none → w.stream ≠ none

/-- Of a stopped worker, only its registration matters. -/
lemma WF.of_stopped {w : Worker} (hstate : w.state = .stopped)
    (hinterest : w.interest ≠ none → w.stream ≠ none) : w.WF where
  stream hlive := absurd hstate hlive
  buffer hbody := absurd (hstate.symm.trans hbody) nofun
  interest := hinterest

lemma wf_create (stream : Stream) (request : Request) (fileOffset : ℤ) :
    (create stream request fileOffset).WF where
  stream _ := Option.some_ne_none stream
  buffer h := by cases h
  interest _ := Option.some_ne_none stream

/-- What the blocks before the body have in common. -/
structure Quiet (w w' : Worker) : Prop where
  wf : w'.WF
  fileOffset : w'.fileOffset = w.fileOffset
  stopped : w.state = .stopped → w'.state = .stopped
  stream : w.stream ≠ none → w'.stream ≠ none
  body : w.state = .receivingBody → w' = w

lemma Quiet.refl {w : Worker} (h : w.WF) : Quiet w w := ⟨h, rfl, id, id, fun _ => rfl⟩

lemma Quiet.trans {w w' w'' : Worker} (h : Quiet w w') (h' : Quiet w' w'') : Quiet w w'' where
  wf := h'.wf
  fileOffset := h'.fileOffset.trans h.fileOffset
  stopped hw := h'.stopped (h.stopped hw)
  stream hw := h'.stream (h.stream hw)
  body hw := by
    obtain rfl : w' = w := h.body hw
    exact h'.body hw

section Blocks

variable {w w' : Worker} {event : EpollEvents} {env : Env} {outcome : Option Outcome}

/-- A change of the fields the invariant does not mention, in a live worker that does not
receive a body. -/
lemma Quiet.of_live (hstopped : w.state ≠ .stopped) (hbody : w.state ≠ .receivingBody)
    (hoffset : w'.fileOffset = w.fileOffset) (hstream : w'.stream ≠ none)
    (hbuffer : w'.state = .receivingBody → w'.buffer ≠ none) : Quiet w w' where
  wf := ⟨fun _ => hstream, hbuffer, fun _ => hstream⟩
  fileOffset := hoffset
  stopped hw := absurd hw hstopped
  stream _ := hstream
  body hw := absurd hw hbody

lemma connecting_spec (h : w.WF) (hrun : w.connecting event env = (w', outcome)) :
    Quiet w w' ∧ outcome ≠ some .undefined ∧
      (w'.state = .receivingBody → w.state = .receivingBody) := by
  have hlive : w.state = .connecting → w.state ≠ .stopped := by simp_all
  have hbody : w.state = .connecting → w.state ≠ .receivingBody := by simp_all
  cases connecting_cases hrun with
  | skipped hskip => exact ⟨.refl h, nofun, id⟩
  | undefined hstate hstream => exact absurd hstream (h.stream (hlive hstate))
  | again hstate hstream hconnect => exact ⟨.refl h, nofun, id⟩
  | failed hstate hevent hstream hconnect =>
    exact ⟨.of_live (hlive hstate) (hbody hstate) rfl hstream nofun, nofun, nofun⟩
  | done hstate hevent hstream hconnect hmod =>
    exact ⟨.of_live (hlive hstate) (hbody hstate) rfl hstream nofun, nofun, nofun⟩

lemma sending_spec (h : w.WF) (hrun : w.sending event env = (w', outcome)) :
    Quiet w w' ∧ outcome ≠ some .undefined ∧
      (w'.state = .receivingBody → w.state = .receivingBody) := by
  have hlive : w.state = .sending → w.state ≠ .stopped := by simp_all
  have hbody : w.state = .sending → w.state ≠ .receivingBody := by simp_all
  -- a write of the request
  have hwrote : ∀ stream n, w.state = .sending → Quiet w (w.wroteRequest stream n) :=
    fun stream n hstate => .of_live (hlive hstate) (hbody hstate) rfl (Option.some_ne_none _)
      fun hb => absurd hb (hbody hstate)
  cases sending_cases hrun with
  | skipped hskip => exact ⟨.refl h, nofun, id⟩
  | undefined hstate hstream => exact absurd hstream (h.stream (hlive hstate))
  | again hstate hstream hsend => exact ⟨.refl h, nofun, id⟩
  | threw e hstate hstream hsend => exact ⟨.refl h, nofun, id⟩
  | partly stream n hstate hstream hsend hrest => exact ⟨hwrote stream n hstate, nofun, id⟩
  | refused stream n hstate hstream hsend hall hmod => exact ⟨hwrote stream n hstate, nofun, id⟩
  | done stream n hstate hevent hstream hsend hall hmod =>
    exact ⟨.of_live (hlive hstate) (hbody hstate) rfl (Option.some_ne_none _) nofun, nofun, nofun⟩

lemma enterBody_spec {stream : Stream} {data : Bytes} {rest : Inbound}
    (hstate : w.state = .receiving) (hrun : w.enterBody stream data rest = (w', outcome)) :
    Quiet w w' ∧ outcome ≠ some .undefined := by
  have hlive : w.state ≠ .stopped := by simp [hstate]
  have hbody : w.state ≠ .receivingBody := by simp [hstate]
  have htook : Quiet w (w.tookHead stream data rest) :=
    .of_live hlive hbody rfl (Option.some_ne_none _) fun hb => absurd hb hbody
  cases enterBody_cases hrun with
  | diverges hparse => exact ⟨htook, nofun⟩
  | invalid e hparse => exact ⟨htook, nofun⟩
  | unsupported response e hparse hbuffer => exact ⟨htook, nofun⟩
  | entered response buffer hparse hbuffer =>
    exact ⟨.of_live hlive hbody rfl (Option.some_ne_none _) fun _ => Option.some_ne_none _, nofun⟩

/-- The head may be completed here; the flag then keeps the body loop from running in the
same call. -/
lemma receiving_spec {once : Bool} (h : w.WF)
    (hrun : w.receiving event = (w', outcome, once)) :
    Quiet w w' ∧ outcome ≠ some .undefined ∧
      (once = false → w'.state = .receivingBody → w.state = .receivingBody) := by
  have hlive : w.state = .receiving → w.state ≠ .stopped := by simp_all
  have hbody : w.state = .receiving → w.state ≠ .receivingBody := by simp_all
  cases receiving_cases hrun with
  | skipped hskip => exact ⟨.refl h, nofun, fun _ => id⟩
  | undefined hstate hstream => exact absurd hstream (h.stream (hlive hstate))
  | kept stream data last rest o hstate hstream hread =>
    exact ⟨.of_live (hlive hstate) (hbody hstate) rfl (Option.some_ne_none _)
      fun hb => absurd hb (hbody hstate), hread.defined, fun _ hb => hb⟩
  | complete stream data rest w' o hstate hstream hread henter =>
    obtain ⟨hquiet, hdef⟩ := enterBody_spec hstate henter
    exact ⟨hquiet, hdef, nofun⟩

lemma receivingBody_spec {file file' : File} {once : Bool} {count : ℕ} (h : w.WF)
    (hrun : w.receivingBody file event once env = (w', file', count, outcome)) :
    w'.WF ∧ outcome ≠ some .undefined ∧
      (∃ bs, file' = file.write w.fileOffset bs ∧ w'.fileOffset = w.fileOffset + bs.length) ∧
      (w.state = .stopped → w'.state = .stopped) ∧ (w.stream ≠ none → w'.stream ≠ none) ∧
      ((w.state = .receivingBody → once = true) →
        w'.fileOffset = w.fileOffset ∧ file' = file) := by
  -- what the loop leaves, in `ReceivingBody` or `Stopped`
  have hleft : ∀ {stream buffer s exit} (state : WorkerState),
      Looped w file event once env stream buffer s exit →
      ({ w.bodyLeft stream s with state := state } : Worker).WF ∧
        (∃ bs, s.file = file.write w.fileOffset bs ∧ s.fileOffset = w.fileOffset + bs.length) ∧
        w.state ≠ .stopped ∧ ¬ (w.state = .receivingBody → once = true) := by
    intro stream buffer s exit state hlooped
    obtain ⟨bs, hfile, hoffset⟩ :=
      bodyLoop_wrote kBufferSize (w.bodyState stream buffer file) env.fileWrites
    rw [hlooped.loop] at hfile hoffset
    refine ⟨⟨fun _ => Option.some_ne_none _, fun _ => Option.some_ne_none _,
      fun _ => Option.some_ne_none _⟩, ⟨bs, hfile, hoffset⟩, by simp [hlooped.state], ?_⟩
    simp [hlooped.state, hlooped.once]
  cases receivingBody_cases hrun with
  | skipped hskip => exact ⟨h, nofun, ⟨[], by simp, by simp⟩, id, id, fun _ => ⟨rfl, rfl⟩⟩
  | undefined hstate hnone =>
    have hlive : w.state ≠ .stopped := by simp [hstate]
    exact absurd hnone (not_or.2 ⟨h.stream hlive, h.buffer hstate⟩)
  | ended stream buffer s exit hlooped hexit =>
    obtain ⟨hwf, hwrote, hlive, honce⟩ := hleft w.state hlooped
    refine ⟨hwf, ?_, hwrote, fun hs => absurd hs hlive, fun _ => Option.some_ne_none _,
      fun himp => absurd himp honce⟩
    cases exit <;> exact nofun
  | idle stream buffer s hlooped =>
    obtain ⟨hwf, hwrote, hlive, honce⟩ := hleft w.state hlooped
    exact ⟨hwf, nofun, hwrote, fun hs => absurd hs hlive, fun _ => Option.some_ne_none _,
      fun himp => absurd himp honce⟩
  | finished stream buffer s hlooped =>
    obtain ⟨hwf, hwrote, hlive, honce⟩ := hleft .stopped hlooped
    exact ⟨hwf, nofun, hwrote, fun hs => absurd hs hlive, fun _ => Option.some_ne_none _,
      fun himp => absurd himp honce⟩

/-- Closing the connection of a stopped worker keeps it where it is. -/
lemma stopping_keeps (hrun : w.stopping env = (w', outcome)) :
    w'.fileOffset = w.fileOffset ∧ w'.state = w.state := by
  cases stopping_cases hrun with
  | skipped hlive => exact ⟨rfl, rfl⟩
  | undefined hstate hstream => exact ⟨rfl, rfl⟩
  | refused hstate hstream hdel => exact ⟨rfl, rfl⟩
  | unclosed hstate hstream hdel hclose => exact ⟨rfl, rfl⟩
  | closed hstate hstream hdel hclose => exact ⟨rfl, rfl⟩

lemma stopping_spec (h : w.WF) (hstream : w.stream ≠ none)
    (hrun : w.stopping env = (w', outcome)) : w'.WF ∧ outcome ≠ some .undefined := by
  cases stopping_cases hrun with
  | skipped hlive => exact ⟨h, nofun⟩
  | undefined hstate hnone => exact absurd hnone hstream
  | refused hstate _ hdel => exact ⟨h, nofun⟩
  | unclosed hstate _ hdel hclose => exact ⟨.of_stopped hstate fun hi => absurd rfl hi, nofun⟩
  | closed hstate _ hdel hclose => exact ⟨.of_stopped hstate fun hi => absurd rfl hi, nofun⟩

end Blocks

/-! ## The chain of blocks -/

/-- The blocks before the body: the worker they leave, the outcome if `process` ends there, and
`recieved_once`. -/
inductive BeforeBody (w : Worker) (event : EpollEvents) (env : Env) :
    Worker → Option Outcome → Bool → Prop
  | connecting {w' : Worker} {o : Outcome} (hrun : w.connecting event env = (w', some o)) :
      BeforeBody w event env w' (some o) false
  | sending {w₁ w' : Worker} {o : Outcome} (hconnecting : w.connecting event env = (w₁, none))
      (hrun : w₁.sending event env = (w', some o)) : BeforeBody w event env w' (some o) false
  | receiving {w₁ w₂ w' : Worker} {o : Option Outcome} {once : Bool}
      (hconnecting : w.connecting event env = (w₁, none))
      (hsending : w₁.sending event env = (w₂, none))
      (hrun : w₂.receiving event = (w', o, once)) : BeforeBody w event env w' o once

/-- The body and what follows it. -/
inductive FromBody (w : Worker) (file : File) (event : EpollEvents) (once : Bool) (env : Env) :
    Outcome → Worker → File → Prop
  | body {w' : Worker} {file' : File} {count : ℕ} {o : Outcome}
      (hrun : w.receivingBody file event once env = (w', file', count, some o)) :
      FromBody w file event once env o w' file'
  | stopping {w₁ w' : Worker} {file' : File} {count : ℕ} {o : Option Outcome}
      {outcome : Outcome} (hbody : w.receivingBody file event once env = (w₁, file', count, none))
      (hrun : w₁.stopping env = (w', o)) (ho : outcome = o.getD (.returned count)) :
      FromBody w file event once env outcome w' file'

section Chain

variable {w w' : Worker} {file file' : File} {event : EpollEvents} {env : Env}
  {outcome : Outcome} {o : Option Outcome} {once : Bool}

/-- **The inversion of `process`.** -/
lemma process_cases (hprocess : w.process file event env = (outcome, w', file')) :
    (∃ once, BeforeBody w event env w' (some outcome) once ∧ file' = file) ∨
      ∃ w₁ once, BeforeBody w event env w₁ none once ∧
        FromBody w₁ file event once env outcome w' file' := by
  unfold process at hprocess
  rcases hconnecting : w.connecting event env with ⟨w₁, o₁⟩
  rw [hconnecting] at hprocess
  cases o₁ with
  | some o₁ =>
    obtain ⟨rfl, rfl, rfl⟩ := hprocess
    exact Or.inl ⟨_, .connecting hconnecting, rfl⟩
  | none =>
  simp only at hprocess
  rcases hsending : w₁.sending event env with ⟨w₂, o₂⟩
  rw [hsending] at hprocess
  cases o₂ with
  | some o₂ =>
    obtain ⟨rfl, rfl, rfl⟩ := hprocess
    exact Or.inl ⟨_, .sending hconnecting hsending, rfl⟩
  | none =>
  simp only at hprocess
  rcases hreceiving : w₂.receiving event with ⟨w₃, o₃, once⟩
  rw [hreceiving] at hprocess
  cases o₃ with
  | some o₃ =>
    obtain ⟨rfl, rfl, rfl⟩ := hprocess
    exact Or.inl ⟨_, .receiving hconnecting hsending hreceiving, rfl⟩
  | none =>
  refine Or.inr ⟨w₃, once, .receiving hconnecting hsending hreceiving, ?_⟩
  simp only at hprocess
  rcases hbody : w₃.receivingBody file event once env with ⟨w₄, file₄, count, o₄⟩
  rw [hbody] at hprocess
  cases o₄ with
  | some o₄ =>
    obtain ⟨rfl, rfl, rfl⟩ := hprocess
    exact .body hbody
  | none =>
  simp only at hprocess
  rcases hstopping : w₄.stopping env with ⟨w₅, o₅⟩
  rw [hstopping] at hprocess
  cases o₅ with
  | some o₅ =>
    obtain ⟨rfl, rfl, rfl⟩ := hprocess
    exact .stopping hbody hstopping rfl
  | none =>
    obtain ⟨rfl, rfl, rfl⟩ := hprocess
    exact .stopping hbody hstopping rfl

/-- **The rule of the blocks.**  What every block keeps, the call keeps. -/
lemma process_keeps {P : Worker → Prop}
    (hconnecting : ∀ {v v' o}, v.connecting event env = (v', o) → P v → P v')
    (hsending : ∀ {v v' o}, v.sending event env = (v', o) → P v → P v')
    (hreceiving : ∀ {v v' o once}, v.receiving event = (v', o, once) → P v → P v')
    (hbody : ∀ {v v' file' count o once},
      v.receivingBody file event once env = (v', file', count, o) → P v → P v')
    (hstopping : ∀ {v v' o}, v.stopping env = (v', o) → P v → P v')
    (hprocess : w.process file event env = (outcome, w', file')) (h : P w) : P w' := by
  have hbefore : ∀ {v o once}, BeforeBody w event env v o once → P v := by
    intro v o once hrun
    cases hrun with
    | connecting hrun => exact hconnecting hrun h
    | sending hfirst hrun => exact hsending hrun (hconnecting hfirst h)
    | receiving hfirst hsecond hrun =>
      exact hreceiving hrun (hsending hsecond (hconnecting hfirst h))
  rcases process_cases hprocess with ⟨once, hrun, -⟩ | ⟨w₁, once, hrun, hfrom⟩
  · exact hbefore hrun
  · cases hfrom with
    | body hended => exact hbody hended (hbefore hrun)
    | stopping hended hlast ho => exact hstopping hlast (hbody hended (hbefore hrun))

/-- A call that has just received the head, or is elsewhere, does not enter the body loop. -/
lemma FromBody.of_skip (honce : w.state = .receivingBody → once = true)
    (hrun : FromBody w file event once env outcome w' file') :
    ∃ o, w.stopping env = (w', o) ∧ outcome = o.getD (.returned 0) ∧ file' = file := by
  have hskip : w.receivingBody file event once env = (w, file, 0, none) := by
    refine if_neg fun hif => ?_
    exact absurd ((honce hif.1).symm.trans hif.2.1) (by decide)
  cases hrun with
  | body hrun =>
    rw [hskip] at hrun
    cases hrun
  | stopping hbody hrun ho =>
    rw [hskip] at hbody
    obtain ⟨rfl, rfl, rfl, -⟩ := hbody
    exact ⟨_, hrun, ho, rfl⟩

/-- A call that begins elsewhere and receives a body has completed the head. -/
lemma BeforeBody.quiet (h : w.WF) (hrun : BeforeBody w event env w' o once) :
    Quiet w w' ∧ o ≠ some .undefined ∧
      (once = false → w'.state = .receivingBody → w.state = .receivingBody) := by
  cases hrun with
  | connecting hrun =>
    obtain ⟨hquiet, hdef, hstate⟩ := connecting_spec h hrun
    exact ⟨hquiet, hdef, fun _ => hstate⟩
  | sending hconnecting hrun =>
    obtain ⟨hquiet₁, -, hstate₁⟩ := connecting_spec h hconnecting
    obtain ⟨hquiet₂, hdef, hstate₂⟩ := sending_spec hquiet₁.wf hrun
    exact ⟨hquiet₁.trans hquiet₂, hdef, fun _ hb => hstate₁ (hstate₂ hb)⟩
  | receiving hconnecting hsending hrun =>
    obtain ⟨hquiet₁, -, hstate₁⟩ := connecting_spec h hconnecting
    obtain ⟨hquiet₂, -, hstate₂⟩ := sending_spec hquiet₁.wf hsending
    obtain ⟨hquiet₃, hdef, hstate₃⟩ := receiving_spec hquiet₂.wf hrun
    exact ⟨(hquiet₁.trans hquiet₂).trans hquiet₃, hdef, fun hf hb =>
      hstate₁ (hstate₂ (hstate₃ hf hb))⟩

end Chain

/-! ## The whole call -/

/-- What one call of `process` on `w` has done when it ends with `w'`. -/
structure Processed (w : Worker) (file : File) (outcome : Outcome) (w' : Worker)
    (file' : File) : Prop where
  wf : w'.WF
  defined : outcome ≠ .undefined
  wrote : ∃ bs, file' = file.write w.fileOffset bs ∧ w'.fileOffset = w.fileOffset + bs.length
  /-- A call that begins in a state other than `ReceivingBody` leaves the offset and the file
  alone, even if it ends there. -/
  idle : w.state ≠ .receivingBody → w'.fileOffset = w.fileOffset ∧ file' = file
  stopped : w.state = .stopped → w'.state = .stopped

variable {w w' : Worker} {file file' : File} {event : EpollEvents} {env : Env}
  {outcome : Outcome}

lemma Quiet.processed (h : Quiet w w') (hdef : outcome ≠ .undefined) :
    Processed w file outcome w' file where
  wf := h.wf
  defined := hdef
  wrote := ⟨[], by simp, by simp [h.fileOffset]⟩
  idle _ := ⟨h.fileOffset, rfl⟩
  stopped := h.stopped

/-- The body, for a worker that still has its stream. -/
lemma FromBody.spec {once : Bool} (h : w.WF) (hstream : w.stream ≠ none)
    (hrun : FromBody w file event once env outcome w' file') :
    w'.WF ∧ outcome ≠ .undefined ∧
      (∃ bs, file' = file.write w.fileOffset bs ∧ w'.fileOffset = w.fileOffset + bs.length) ∧
      (w.state = .stopped → w'.state = .stopped) ∧
      ((w.state = .receivingBody → once = true) →
        w'.fileOffset = w.fileOffset ∧ file' = file) := by
  cases hrun with
  | body hrun =>
    obtain ⟨hwf, hdef, hwrote, hstopped, -, hidle⟩ := receivingBody_spec h hrun
    exact ⟨hwf, fun ho => hdef (congrArg some ho), hwrote, hstopped, hidle⟩
  | @stopping w₁ _ _ count o _ hbody hrun ho =>
    obtain ⟨hwf₁, -, hwrote, hstopped, hstream₁, hidle⟩ := receivingBody_spec h hbody
    obtain ⟨hwf, hdef⟩ := stopping_spec hwf₁ (hstream₁ hstream) hrun
    obtain ⟨hoffset, hstate⟩ := stopping_keeps hrun
    rw [hoffset, hstate]
    refine ⟨hwf, ?_, hwrote, hstopped, hidle⟩
    rw [ho]
    cases o with
    | none => exact nofun
    | some o => exact fun ho => hdef (congrArg some ho)

/-- **One call of `process`** by a worker that still has its stream. -/
lemma process_spec (h : w.WF) (hstream : w.stream ≠ none)
    (hprocess : w.process file event env = (outcome, w', file')) :
    Processed w file outcome w' file' := by
  rcases process_cases hprocess with ⟨once, hbefore, rfl⟩ | ⟨w₁, once, hbefore, hfrom⟩
  · obtain ⟨hquiet, hdef, -⟩ := hbefore.quiet h
    exact hquiet.processed fun ho => hdef (congrArg some ho)
  · obtain ⟨hquiet, -, hstate⟩ := hbefore.quiet h
    obtain ⟨hwf, hdef, hwrote, hstopped, hidle⟩ := hfrom.spec hquiet.wf (hquiet.stream hstream)
    rw [hquiet.fileOffset] at hwrote hidle
    refine ⟨hwf, hdef, hwrote, fun hne => hidle fun hbody => ?_, fun hs =>
      hstopped (hquiet.stopped hs)⟩
    by_contra hfalse
    exact hne (hstate (Bool.not_eq_true _ ▸ hfalse) hbody)

lemma Processed.fileOffset_le (h : Processed w file outcome w' file') :
    w.fileOffset ≤ w'.fileOffset := by
  obtain ⟨bs, -, hoffset⟩ := h.wrote
  omega

/-- **`forceStop`** stops the worker and leaves its offset alone; of a live worker it can only
fail in a system call. -/
lemma forceStop_spec {fault : Option Fault} (h : w.WF)
    (hrun : w.forceStop env = (w', fault)) :
    w'.WF ∧ w'.state = .stopped ∧ w'.fileOffset = w.fileOffset ∧
      fault ≠ some .undefined ∧
      (fault = none ↔ (w.state ≠ .stopped → env.forceDel = true ∧ env.forceClose = true)) := by
  cases forceStop_cases hrun with
  | skipped hstate => exact ⟨h, hstate, rfl, nofun, by simp [hstate]⟩
  | undefined hlive hstream => exact absurd hstream (h.stream hlive)
  | refused hlive hstream hdel =>
    exact ⟨.of_stopped rfl fun _ => hstream, rfl, rfl, nofun, by simp [hlive, hdel]⟩
  | unclosed hlive hstream hdel hclose =>
    exact ⟨.of_stopped rfl fun hi => absurd rfl hi, rfl, rfl, nofun, by simp [hlive, hclose]⟩
  | closed hlive hstream hdel hclose =>
    exact ⟨.of_stopped rfl fun hi => absurd rfl hi, rfl, rfl, nofun,
      by simp [hlive, hdel, hclose]⟩

end Worker

end Cld
