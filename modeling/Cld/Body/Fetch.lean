import Cld.Body.Length
import Cld.Body.Transfer
import Cld.Download.Recovery
import Cld.Head.Entry

/-!
# A worker, from its connection to its file

The whole life of a worker on one connection: it connects, sends its request, receives the head and
then the body, over any number of calls of `process`.

* `arrival` is what the head on a connection leads to, the buffer and the stream behind the head,
  and `delivered` are the bytes a worker hands on to the file, all told.
* `Arrived` says that the body has come to its end: the announced bytes are there, or the peer has
  closed, or the decoder of a chunked body is finished.
* `Fetching` is the invariant of a life.  `Fetching.run`: the file holds the first bytes of
  `delivered` up to the offset of the worker, and a worker that stops has written them all unless
  its connection was refused.
-/

namespace Cld

open Framework

/-! ## What a connection holds -/

/-- The buffer that the head on a connection leads to, and the stream behind the head. -/
def arrival (items : Inbound) : Option (Buffer × Inbound) :=
  match resumeHead [] 0 items with
  | .complete data rest =>
    match Response.parse data with
    | some (.ok response) =>
      match CreateBuffer response with
      | .ok buffer => some (buffer, rest)
      | .error _ => none
    | _ => none
  | _ => none

/-- The bytes that a worker on this connection hands on to the file. -/
def delivered (items : Inbound) : Bytes :=
  match arrival items with
  | some (buffer, rest) => received buffer.kind (payload rest)
  | none => []

/-- The body behind the head has come to its end.  That of a chunked body is where the decoder has
taken a size for 0, which a suspension inside a size line can bring about too early. -/
def Arrived (kind : BufferKind) (rest : Inbound) : Prop :=
  match kind with
  | .noLength _ => .eof ∈ rest
  | .fixLength n => n ≤ (payload rest).length
  | .chunked _ =>
    ∃ count, (Buffer.calls kBufferSize count { kind := kind } rest).2.1.finished = true

/-- One more call of `read`. -/
lemma Buffer.calls_succ (S count : ℕ) (b : Buffer) (items : Inbound) :
    (calls S (count + 1) b items).2 =
      ((calls S count b items).2.1.read S (calls S count b items).2.2).2 := by
  induction count generalizing b items with
  | zero =>
    rcases hread : b.read S items with ⟨_ | _ | e, b', rest⟩ <;> simp only [calls, hread]
  | succ count ih =>
    rw [calls, calls]
    rcases b.read S items with ⟨_ | _ | e, b', rest⟩
    · exact ih b' rest
    · exact ih b' rest
    · exact ih b' rest

lemma fresh_of_create {response : Response} {buffer : Buffer}
    (h : CreateBuffer response = .ok buffer) : buffer = { kind := buffer.kind } := by
  unfold CreateBuffer at h
  split at h
  · rw [← Except.ok.inj h]
  · split at h
    · split at h
      · rw [← Except.ok.inj h]
      · cases h
    · rw [← Except.ok.inj h]

lemma arrival_eq {items rest : Inbound} {data : Bytes} {response : Response} {buffer : Buffer}
    (hread : resumeHead [] 0 items = .complete data rest)
    (hparse : Response.parse data = some (.ok response))
    (hcreate : CreateBuffer response = .ok buffer) : arrival items = some (buffer, rest) := by
  simp only [arrival, hread, hparse, hcreate]

lemma delivered_eq {items rest : Inbound} {buffer : Buffer}
    (h : arrival items = some (buffer, rest)) :
    delivered items = received buffer.kind (payload rest) := by
  simp only [delivered, h]

/-- Reads take items off the front. -/
lemma Inbound.read_suffix {n : ℕ} {items rest : Inbound} {r : ReadResult}
    (h : Inbound.read n items = (r, rest)) : rest <:+ items := by
  by_cases hn : n = 0
  · simp only [read, hn, if_true, Prod.mk.injEq] at h
    rw [← h.2]
  · rcases items with _ | ⟨⟨b, brk⟩ | _ | _ | e, items⟩
    · simp only [read, hn, if_false, Prod.mk.injEq] at h
      rw [← h.2]
    · exact (Buffer.suffix_of_read hn (Or.inr ⟨b, brk, rfl⟩) h).trans (List.suffix_cons _ _)
    · exact (Buffer.suffix_of_read hn (Or.inl rfl) h).trans (List.suffix_cons _ _)
    · simp only [read, hn, if_false, Prod.mk.injEq] at h
      rw [← h.2]
    · simp only [read, hn, if_false, Prod.mk.injEq] at h
      rw [← h.2]
      exact List.suffix_cons _ _

/-! ## What one run of the body loop leaves of the frame -/

namespace Worker

section Loop

variable {S : ℕ} {s : BodyState} {writes : List FileWrite}

/-- **A body of announced length**: what has been written and what remains add up. -/
lemma bodyLoop_fixLength {n : ℕ} (hkind : s.buffer.kind = .fixLength n)
    (hwrites : Unshort writes) : ∃ m, (bodyLoop S s writes).1.buffer.kind = .fixLength m ∧
      ((∀ e, (bodyLoop S s writes).2 ≠ .threw e) →
        (bodyLoop S s writes).1.fileOffset + m = s.fileOffset + n) ∧
      ((bodyLoop S s writes).2 = .finished → m = 0) := by
  -- one read of the buffer
  have hread : ∀ {s : BodyState} {n : ℕ} {buffer inbound r}, s.buffer.kind = .fixLength n →
      s.buffer.read S s.inbound = (r, buffer, inbound) →
      (r = .ok ∧ buffer.validCount ≤ n ∧ buffer.kind = .fixLength (n - buffer.validCount)) ∨
        (r ≠ .ok ∧ buffer.kind = .fixLength n) := by
    intro s n buffer inbound r hkind h
    rcases Buffer.read_cases h with ⟨_, hk, -⟩ | ⟨remain, hk, hfill⟩ | ⟨_, hk⟩
    · rw [hkind] at hk
      cases hk
    · obtain rfl : n = remain := BufferKind.fixLength.inj (hkind.symm.trans hk)
      by_cases hr : r = .ok
      · subst hr
        obtain ⟨bs, hread, rfl⟩ := Buffer.fill_ok hfill
        exact Or.inl ⟨rfl, (Inbound.read_ok hread).2.1.trans (min_le_left _ _), rfl⟩
      · obtain ⟨rfl, -⟩ := Buffer.fill_not_ok hfill hr
        exact Or.inr ⟨hr, hk⟩
    · rw [hkind] at hk
      cases hk
  revert n
  induction s, writes using bodyLoop.induct S with
  | case1 s writes buffer inbound h =>
    intro n hkind
    rw [bodyLoop_again h]
    have hkept := (hread hkind h).resolve_left fun hok => ReadOutcome.noConfusion hok.1
    exact ⟨n, hkept.2, fun _ => rfl, fun he => BodyExit.noConfusion he⟩
  | case2 s writes e buffer inbound h =>
    intro n hkind
    rw [bodyLoop_threw h]
    have hkept := (hread hkind h).resolve_left fun hok => ReadOutcome.noConfusion hok.1
    exact ⟨n, hkept.2, fun hne => absurd rfl (hne e), fun he => BodyExit.noConfusion he⟩
  | case3 s writes buffer inbound h hwrite =>
    intro n hkind
    rw [bodyLoop_noWrite h hwrite]
    obtain ⟨-, -, hleft⟩ := (hread hkind h).resolve_right fun hno => hno.1 rfl
    exact ⟨_, hleft, fun hne => absurd rfl (hne _), fun he => BodyExit.noConfusion he⟩
  | case4 s writes buffer inbound h written hwrite hfin =>
    intro n hkind
    obtain rfl := written_of_unshort hwrites hwrite
    obtain ⟨-, hle, hleft⟩ := (hread hkind h).resolve_right fun hno => hno.1 rfl
    rw [bodyLoop_write h hwrite, if_pos hfin]
    refine ⟨_, hleft, fun _ => ?_, fun _ => ?_⟩
    · simp only [BodyState.wrote]
      omega
    · rw [Buffer.finished, hleft] at hfin
      exact beq_iff_eq.1 hfin
  | case5 s writes buffer inbound h written hwrite s' hfin hmore ih =>
    intro n hkind
    obtain rfl := written_of_unshort hwrites hwrite
    obtain ⟨-, hle, hleft⟩ := (hread hkind h).resolve_right fun hno => hno.1 rfl
    obtain ⟨m, hm, hsum, hzero⟩ := ih (fun r hr => hwrites r (List.mem_of_mem_tail hr)) hleft
    rw [bodyLoop_write h hwrite, if_neg hfin, if_pos hmore]
    refine ⟨m, hm, fun hne => ?_, hzero⟩
    have hsum' : _ = s.fileOffset + buffer.validCount + ((n - buffer.validCount : ℕ) : ℤ) :=
      hsum hne
    refine hsum'.trans ?_
    omega
  | case6 s writes buffer inbound h written hwrite hfin hmore =>
    intro n hkind
    obtain rfl := written_of_unshort hwrites hwrite
    obtain ⟨-, hle, hleft⟩ := (hread hkind h).resolve_right fun hno => hno.1 rfl
    rw [bodyLoop_write h hwrite, if_neg hfin, if_neg hmore]
    refine ⟨_, hleft, fun _ => ?_, fun he => BodyExit.noConfusion he⟩
    simp only [BodyState.wrote]
    omega

/-- **A body of unknown length** goes on until the peer closes. -/
lemma bodyLoop_noLength (writes : List FileWrite) (hS : S ≠ 0)
    (hkind : s.buffer.kind = .noLength false) :
    (bodyLoop S s writes).1.inbound <:+ s.inbound ∧
      ((bodyLoop S s writes).2 = .finished → .eof ∈ s.inbound) ∧
      ((bodyLoop S s writes).2 = .again ∨ (bodyLoop S s writes).2 = .idle →
        (bodyLoop S s writes).1.buffer.kind = .noLength false) := by
  -- one read of the buffer
  have hread : ∀ {s : BodyState} {buffer inbound r}, s.buffer.kind = .noLength false →
      s.buffer.read S s.inbound = (r, buffer, inbound) → inbound <:+ s.inbound ∧
        (buffer.kind = .noLength false ∨ (buffer.kind = .noLength true ∧ .eof ∈ s.inbound)) := by
    intro s buffer inbound r hkind h
    rcases Buffer.read_cases h with ⟨finished, hk, hfill⟩ | ⟨_, hk, -⟩ | ⟨_, hk⟩
    · obtain rfl : false = finished := BufferKind.noLength.inj (hkind.symm.trans hk)
      by_cases hr : r = .ok
      · subst hr
        obtain ⟨bs, hread, rfl⟩ := Buffer.fill_ok hfill
        refine ⟨Inbound.read_suffix hread, ?_⟩
        by_cases hnil : bs = []
        · obtain ⟨tail, htail, -⟩ := (Inbound.read_ok hread).2.2.2 hS hnil
          rw [htail]
          exact Or.inr ⟨by rw [hnil]; rfl, List.mem_cons_self⟩
        · left
          simp [hnil]
      · obtain ⟨rfl, res, hread, -⟩ := Buffer.fill_not_ok hfill hr
        exact ⟨Inbound.read_suffix hread, Or.inl hk⟩
    · rw [hkind] at hk
      cases hk
    · rw [hkind] at hk
      cases hk
  have hfresh : BufferKind.noLength false ≠ .noLength true := by simp
  have hlost : ∀ (exit : BodyExit) {P : Prop}, ¬ (exit = .again ∨ exit = .idle) →
      exit = .again ∨ exit = .idle → P := fun _ _ hnot hexit => absurd hexit hnot
  have hopen : ∀ {b : Buffer}, ¬ b.finished = true → b.kind ≠ .noLength true := by
    intro b hfin hb
    rw [Buffer.finished, hb] at hfin
    exact hfin rfl
  induction s, writes using bodyLoop.induct S with
  | case1 s writes buffer inbound h =>
    obtain ⟨hsuffix, -⟩ := hread hkind h
    rw [bodyLoop_again h]
    have hstill := Buffer.open_of_read (by rw [hkind]; exact hfresh) h (by simp)
    exact ⟨hsuffix, fun he => BodyExit.noConfusion he, fun _ =>
      (hread hkind h).2.resolve_right fun hc => hstill hc.1⟩
  | case2 s writes e buffer inbound h =>
    rw [bodyLoop_threw h]
    exact ⟨(hread hkind h).1, fun he => BodyExit.noConfusion he, hlost _ (by simp)⟩
  | case3 s writes buffer inbound h hwrite =>
    rw [bodyLoop_noWrite h hwrite]
    exact ⟨(hread hkind h).1, fun he => BodyExit.noConfusion he, hlost _ (by simp)⟩
  | case4 s writes buffer inbound h written hwrite hfin =>
    obtain ⟨hsuffix, hclosed⟩ := hread hkind h
    rw [bodyLoop_write h hwrite, if_pos hfin]
    refine ⟨hsuffix, fun _ => ?_, hlost _ (by simp)⟩
    rcases hclosed with hfalse | ⟨-, heof⟩
    · rw [Buffer.finished, hfalse] at hfin
      cases hfin
    · exact heof
  | case5 s writes buffer inbound h written hwrite s' hfin hmore ih =>
    obtain ⟨hsuffix, hclosed⟩ := hread hkind h
    have hleft := hclosed.resolve_right fun hc => hopen hfin hc.1
    obtain ⟨hrest, hend, hstill⟩ := ih hleft
    rw [bodyLoop_write h hwrite, if_neg hfin, if_pos hmore]
    exact ⟨hrest.trans hsuffix, fun hexit => hsuffix.subset (hend hexit), hstill⟩
  | case6 s writes buffer inbound h written hwrite hfin hmore =>
    obtain ⟨hsuffix, hclosed⟩ := hread hkind h
    rw [bodyLoop_write h hwrite, if_neg hfin, if_neg hmore]
    exact ⟨hsuffix, fun he => BodyExit.noConfusion he, fun _ =>
      hclosed.resolve_right fun hc => hopen hfin hc.1⟩

/-- **A chunked body** is read once, behind which nothing is written. -/
lemma bodyLoop_chunked (writes : List FileWrite) (hkind : ∃ r, s.buffer.kind = .chunked r) :
    ((bodyLoop S s writes).1.buffer, (bodyLoop S s writes).1.inbound) =
        (s.buffer.read S s.inbound).2 ∧
      ((bodyLoop S s writes).2 = .finished →
        (bodyLoop S s writes).1.buffer.finished = true) := by
  rcases hread : s.buffer.read S s.inbound with ⟨r, buffer, inbound⟩
  cases r with
  | again =>
    rw [bodyLoop_again hread]
    exact ⟨rfl, fun he => BodyExit.noConfusion he⟩
  | threw e =>
    rw [bodyLoop_threw hread]
    exact ⟨rfl, fun he => BodyExit.noConfusion he⟩
  | ok =>
    have hend : buffer.validCount = 0 := Buffer.valid_of_chunked hkind hread
    cases hwrite : (writes.head?.getD .all).written buffer.validCount with
    | none =>
      rw [bodyLoop_noWrite hread hwrite]
      exact ⟨rfl, fun he => BodyExit.noConfusion he⟩
    | some written =>
      have hzero : written = 0 :=
        Nat.le_zero.1 ((FileWrite.written_le hwrite).trans_eq hend)
      rw [bodyLoop_write hread hwrite]
      by_cases hfin : buffer.finished = true
      · rw [if_pos hfin]
        exact ⟨rfl, fun _ => hfin⟩
      · rw [if_neg hfin, if_neg (not_not.2 hzero)]
        exact ⟨rfl, fun he => BodyExit.noConfusion he⟩

end Loop

end Worker

/-! ## The invariant of a life -/

namespace Transfer

variable {items rest : Inbound} {o : ℤ} {file : File} {refused : Prop} {t t' : Transfer}
  {label : EpollEvents × Env} {kind : BufferKind} {done todo : Bytes}

/-- In this call the connection may be refused, or `epoll_ctl` fails for it. -/
def Refuses (label : EpollEvents × Env) : Prop :=
  label.2.connect = .failed ∨ label.2.modConnected = false

/-- How far the buffer has come in the frame of the body. -/
structure Framed (kind : BufferKind) (rest : Inbound) (o : ℤ) (t : Transfer) : Prop where
  fixLength : ∀ n, kind = .fixLength n → ∃ buffer m, t.worker.buffer = some buffer ∧
    buffer.kind = .fixLength m ∧ t.worker.fileOffset + m = o + n
  noLength : ∀ finished, kind = .noLength finished → ∃ buffer stream,
    t.worker.buffer = some buffer ∧ t.worker.stream = some stream ∧
      buffer.kind = .noLength false ∧ stream.inbound <:+ rest
  chunked : ∀ r, kind = .chunked r → ∃ count buffer stream, t.worker.buffer = some buffer ∧
    t.worker.stream = some stream ∧ (∃ r', buffer.kind = .chunked r') ∧
      (Buffer.calls kBufferSize count { kind := kind } rest).2 = (buffer, stream.inbound)

/-- Where the life of a worker stands that was created at `o`. -/
inductive Fetching (items : Inbound) (o : ℤ) (file : File) (refused : Prop) (t : Transfer) : Prop
  /-- It has ended before the body, by a refusal or an exception. -/
  | ended (hended : t.halted = true ∨ t.worker.state = .stopped)
      (hoffset : t.worker.fileOffset = o) (hfile : t.file = file)
      (hrefused : t.worker.state = .stopped → refused)
  | awaiting (hawaits : t.worker.Awaits (resumeHead [] 0 items)) (hwf : t.worker.WF)
      (hoffset : t.worker.fileOffset = o) (hfile : t.file = file)
  | receiving (buffer : Buffer) (rest : Inbound) (done todo : Bytes)
      (harrival : arrival items = some (buffer, rest)) (hsplit : delivered items = done ++ todo)
      (hcopied : Copied o file t done todo)
      (hframed : t.halted = false → t.worker.state ≠ .stopped → Framed buffer.kind rest o t)
      (harrived : t.worker.state = .stopped → Arrived buffer.kind rest)

/-- A new worker. -/
lemma fetching_create (stream : Stream) (request : Request) (o : ℤ) (file : File)
    (refused : Prop) : Fetching stream.inbound o file refused
      { worker := Worker.create stream request o, file := file } :=
  .awaiting ⟨WorkerState.noConfusion, WorkerState.noConfusion, stream, rfl, rfl⟩
    (Worker.wf_create stream request o) rfl rfl

/-- What one call does to the worker and the file. -/
lemma step_cases (hstep : t.step label = some t') :
    t.halted = false ∧ t.worker.state ≠ .stopped ∧ ∃ outcome,
      t.worker.process t.file label.1 label.2 = (outcome, t'.worker, t'.file) ∧
        (t'.halted = false ↔ ∃ n, outcome = .returned n) := by
  unfold step at hstep
  split_ifs at hstep with hdone
  obtain ⟨hhalted, hlive⟩ := not_or.1 hdone
  refine ⟨Bool.not_eq_true _ ▸ hhalted, hlive, ?_⟩
  rcases hprocess : t.worker.process t.file label.1 label.2 with ⟨outcome, w, file'⟩
  rw [hprocess] at hstep
  cases outcome with
  | returned n =>
    obtain rfl := Option.some.inj hstep
    exact ⟨_, rfl, iff_of_true rfl ⟨n, rfl⟩⟩
  | _ =>
    obtain rfl := Option.some.inj hstep
    exact ⟨_, rfl, iff_of_false (fun h => Bool.noConfusion h) fun ⟨n, hn⟩ => by cases hn⟩

/-- A call by a worker that waits for its head. -/
lemma Fetching.of_awaiting (hawaits : t.worker.Awaits (resumeHead [] 0 items))
    (hwf : t.worker.WF) (hoffset : t.worker.fileOffset = o) (hfile : t.file = file)
    (hrefuse : Refuses label → refused) (hstep : t.step label = some t') :
    Fetching items o file refused t' := by
  obtain ⟨hhalted, hlive, outcome, hprocess, hreturned⟩ := step_cases hstep
  have hproc := Worker.process_spec hwf (hwf.stream hlive) hprocess
  obtain ⟨hoffset', hfile'⟩ := hproc.idle hawaits.head
  rw [hoffset] at hoffset'
  rw [hfile] at hfile'
  have hrefused : t'.worker.state = .stopped → refused := by
    intro hstop
    have hgives := (Worker.process_stopped_iff hwf hawaits.head hprocess).1 hstop
    exact hrefuse ((hgives.resolve_left hlive).2.2.imp_right And.right)
  by_cases hhalted' : t'.halted = true
  · exact .ended (Or.inl hhalted') hoffset' hfile' hrefused
  · obtain ⟨n, rfl⟩ := hreturned.1 (Bool.not_eq_true _ ▸ hhalted')
    rcases Worker.process_awaits hawaits hprocess with hstop | hawaits' | hentered
    · exact .ended (Or.inr hstop) hoffset' hfile' hrefused
    · exact .awaiting hawaits' hproc.wf hoffset' hfile'
    · obtain ⟨data, rest, response, buffer, sent, hread, hparse, hcreate, hbuffer, hstream⟩ :=
        hentered.response
      have harrival := arrival_eq hread hparse hcreate
      have hstopped : t'.worker.state ≠ .stopped := by
        rw [hentered.state]
        exact WorkerState.noConfusion
      have hcopied : Copied o file t' [] (received buffer.kind (payload rest)) :=
        ⟨by simp [hfile'], by simp [hoffset'], fun hstop => absurd hstop hstopped, fun _ _ =>
          ⟨hentered.state, buffer, _, hbuffer, hstream, open_of_create hcreate, rfl⟩⟩
      refine .receiving buffer rest [] _ harrival (delivered_eq harrival) hcopied (fun _ _ => ?_)
        fun hstop => absurd hstop hstopped
      refine ⟨fun m hkind => ⟨buffer, m, hbuffer, hkind, by rw [hoffset']⟩,
        fun finished hkind => ⟨buffer, _, hbuffer, hstream, ?_, List.suffix_rfl⟩,
        fun r hkind => ⟨0, buffer, _, hbuffer, hstream, ⟨r, hkind⟩, ?_⟩⟩
      · cases finished with
        | false => exact hkind
        | true => exact absurd hkind (open_of_create hcreate)
      · rw [← fresh_of_create hcreate]
        rfl

/-- What one call does to a worker that receives its body. -/
inductive BodyCall (label : EpollEvents × Env) (t t' : Transfer) : Prop
  | kept (hworker : t'.worker = t.worker)
  | looped (stream : Stream) (buffer : Buffer) (s : Worker.BodyState) (exit : Worker.BodyExit)
      (hstream : t.worker.stream = some stream) (hbuffer : t.worker.buffer = some buffer)
      (hloop : Worker.bodyLoop kBufferSize (t.worker.bodyState stream buffer t.file)
        label.2.fileWrites = (s, exit))
      (hoffset : t'.worker.fileOffset = s.fileOffset)
      (hstopped : t'.worker.state = .stopped → exit = .finished)
      (hgoes : t'.halted = false → t'.worker.state ≠ .stopped →
        (exit = .again ∨ exit = .idle) ∧ t'.worker.buffer = some s.buffer ∧
          t'.worker.stream = some { stream with inbound := s.inbound })

lemma Copied.bodyCall (h : Copied o file t done todo) (hstep : t.step label = some t') :
    BodyCall label t t' := by
  obtain ⟨hhalted, hlive, outcome, hprocess, hreturned⟩ := step_cases hstep
  obtain ⟨hstate, buffer, stream, hbuffer, hstream, hopen, htodo⟩ := h.running hhalted hlive
  rcases Worker.process_of_receivingBody hstate hstream hbuffer hprocess with
    ⟨-, -, hw, hf⟩ | ⟨-, s, exit, hloop, hfile, hoffset, hexit⟩
  · exact .kept hw
  · refine .looped stream buffer s exit hstream hbuffer hloop hoffset (fun hstop => ?_)
      fun hrun hlive' => ?_
    · rcases hexit with ⟨hexit, -⟩ | ⟨-, hbody, -⟩
      · exact hexit
      · rw [hbody] at hstop
        cases hstop
    · rcases hexit with ⟨-, hstop⟩ | ⟨-, -, hbuffer', hstream', hpass⟩
      · exact absurd hstop hlive'
      · obtain ⟨n, hn⟩ := hreturned.1 hrun
        exact ⟨hpass n hn, hbuffer', hstream'⟩

/-- **A call that goes on** keeps the frame. -/
lemma Framed.kept (h : Framed kind rest o t) (hwrites : Unshort label.2.fileWrites)
    (hcall : BodyCall label t t') (hrun : t'.halted = false) (hlive : t'.worker.state ≠ .stopped) :
    Framed kind rest o t' := by
  cases hcall with
  | kept hworker =>
    obtain ⟨hfix, hno, hchunked⟩ := h
    rw [← hworker] at hfix hno hchunked
    exact ⟨hfix, hno, hchunked⟩
  | looped stream buffer s exit hstream hbuffer hloop hoffset hstopped hgoes =>
    obtain ⟨hexit, hbuffer', hstream'⟩ := hgoes hrun hlive
    constructor
    · intro n hkind
      obtain ⟨b, m, hb, hbkind, hsum⟩ := h.fixLength n hkind
      obtain rfl : buffer = b := Option.some.inj (hbuffer.symm.trans hb)
      obtain ⟨m', hm', hleft, -⟩ := Worker.bodyLoop_fixLength (S := kBufferSize)
        (s := t.worker.bodyState stream buffer t.file) hbkind hwrites
      rw [hloop] at hm' hleft
      have hno : ∀ e, exit ≠ .threw e := by
        rintro e rfl
        exact hexit.elim Worker.BodyExit.noConfusion Worker.BodyExit.noConfusion
      refine ⟨s.buffer, m', hbuffer', hm', ?_⟩
      rw [hoffset, hleft hno]
      exact hsum
    · intro finished hkind
      obtain ⟨b, st, hb, hst, hbkind, hsuffix⟩ := h.noLength finished hkind
      obtain rfl : buffer = b := Option.some.inj (hbuffer.symm.trans hb)
      obtain rfl : stream = st := Option.some.inj (hstream.symm.trans hst)
      obtain ⟨hmore, -, hstill⟩ := Worker.bodyLoop_noLength label.2.fileWrites
        (s := t.worker.bodyState stream buffer t.file) (by decide : kBufferSize ≠ 0) hbkind
      rw [hloop] at hmore hstill
      exact ⟨s.buffer, _, hbuffer', hstream', hstill hexit, hmore.trans hsuffix⟩
    · intro r hkind
      obtain ⟨count, b, st, hb, hst, hbkind, hcalls⟩ := h.chunked r hkind
      obtain rfl : buffer = b := Option.some.inj (hbuffer.symm.trans hb)
      obtain rfl : stream = st := Option.some.inj (hstream.symm.trans hst)
      obtain ⟨hone, -⟩ := Worker.bodyLoop_chunked (S := kBufferSize)
        (s := t.worker.bodyState stream buffer t.file) label.2.fileWrites hbkind
      rw [hloop] at hone
      refine ⟨count + 1, s.buffer, _, hbuffer', hstream', ?_, ?_⟩
      · exact Buffer.read_kind_of_chunked hbkind (congrArg (Prod.mk _) hone.symm)
      · rw [Buffer.calls_succ, hcalls]
        exact hone.symm

/-- **A call behind which the worker has stopped** has come to the end of the body. -/
lemma Framed.arrived (h : Framed kind rest o t) (hcopied : Copied o file t done todo)
    (hdelivered : received kind (payload rest) = done ++ todo)
    (hwrites : Unshort label.2.fileWrites) (hstep : t.step label = some t')
    (hstop : t'.worker.state = .stopped) : Arrived kind rest := by
  obtain ⟨hhalted, hlive, -⟩ := step_cases hstep
  obtain ⟨-, b₀, st₀, hb₀, hst₀, -, htodo⟩ := hcopied.running hhalted hlive
  cases hcopied.bodyCall hstep with
  | kept hworker => exact absurd (hworker ▸ hstop) hlive
  | looped stream buffer s exit hstream hbuffer hloop hoffset hstopped hgoes =>
    obtain rfl := hstopped hstop
    obtain rfl : buffer = b₀ := Option.some.inj (hbuffer.symm.trans hb₀)
    obtain rfl : stream = st₀ := Option.some.inj (hstream.symm.trans hst₀)
    cases kind with
    | noLength finished =>
      obtain ⟨b, st, hb, hst, hbkind, hsuffix⟩ := h.noLength finished rfl
      obtain rfl : buffer = b := Option.some.inj (hbuffer.symm.trans hb)
      obtain rfl : stream = st := Option.some.inj (hstream.symm.trans hst)
      obtain ⟨-, hend, -⟩ := Worker.bodyLoop_noLength label.2.fileWrites
        (s := t.worker.bodyState stream buffer t.file) (by decide : kBufferSize ≠ 0) hbkind
      rw [hloop] at hend
      exact hsuffix.subset (hend rfl)
    | fixLength n =>
      obtain ⟨b, m, hb, hbkind, hsum⟩ := h.fixLength n rfl
      obtain rfl : buffer = b := Option.some.inj (hbuffer.symm.trans hb)
      obtain ⟨m', -, hleft, hzero⟩ := Worker.bodyLoop_fixLength (S := kBufferSize)
        (s := t.worker.bodyState stream buffer t.file) hbkind hwrites
      obtain ⟨bs, more, hrest, -, hmoved, -⟩ := Worker.bodyLoop_received kBufferSize
        (t.worker.bodyState stream buffer t.file) label.2.fileWrites hwrites
      rw [hloop] at hleft hzero hmoved
      obtain rfl := hzero rfl
      have hall : s.fileOffset + (0 : ℕ) = t.worker.fileOffset + m :=
        hleft fun _ => Worker.BodyExit.noConfusion
      have hmoved' : s.fileOffset = t.worker.fileOffset + bs.length := hmoved
      -- all that was announced has been taken off the stream
      have hlen : n ≤ (received (.fixLength n) (payload rest)).length := by
        have hoffset' := hcopied.offset
        have htodo' : todo = bs ++ more := htodo.trans hrest
        rw [hdelivered, htodo', List.length_append, List.length_append]
        omega
      exact hlen.trans (isPrefix_received (.fixLength n) (payload rest)).length_le
    | chunked r =>
      obtain ⟨count, b, st, hb, hst, hbkind, hcalls⟩ := h.chunked r rfl
      obtain rfl : buffer = b := Option.some.inj (hbuffer.symm.trans hb)
      obtain rfl : stream = st := Option.some.inj (hstream.symm.trans hst)
      obtain ⟨hone, hend⟩ := Worker.bodyLoop_chunked (S := kBufferSize)
        (s := t.worker.bodyState stream buffer t.file) label.2.fileWrites hbkind
      rw [hloop] at hone hend
      have hbuffer' : s.buffer = (buffer.read kBufferSize stream.inbound).2.1 :=
        congrArg Prod.fst hone
      refine ⟨count + 1, ?_⟩
      rw [Buffer.calls_succ, hcalls, ← hbuffer']
      exact hend rfl

/-- **One call.** -/
lemma Fetching.step (h : Fetching items o file refused t) (hwrites : Unshort label.2.fileWrites)
    (hrefuse : Refuses label → refused) (hstep : t.step label = some t') :
    Fetching items o file refused t' := by
  obtain ⟨hhalted, hlive, -⟩ := step_cases hstep
  cases h with
  | ended hended hoffset hfile hrefused =>
    rcases hended with hhalted' | hstop
    · exact absurd (hhalted.symm.trans hhalted') Bool.noConfusion
    · exact absurd hstop hlive
  | awaiting hawaits hwf hoffset hfile =>
    exact .of_awaiting hawaits hwf hoffset hfile hrefuse hstep
  | receiving buffer rest done todo harrival hsplit hcopied hframed harrived =>
    obtain ⟨bs, todo', rfl, hcopied'⟩ := hcopied.step hwrites hstep
    have hwhole := (delivered_eq harrival).symm.trans hsplit
    have hframe := hframed hhalted hlive
    refine .receiving buffer rest (done ++ bs) todo' harrival ?_ hcopied'
      (hframe.kept hwrites (hcopied.bodyCall hstep)) (hframe.arrived hcopied hwhole hwrites hstep)
    rw [List.append_assoc]
    exact hsplit

/-- Any number of calls. -/
lemma Fetching.run {labels : List (EpollEvents × Env)} (h : Fetching items o file refused t)
    (hwrites : ∀ label ∈ labels, Unshort label.2.fileWrites)
    (hrefuse : ∀ label ∈ labels, Refuses label → refused)
    (hrun : Transition.run Transfer.step t labels = some t') :
    Fetching items o file refused t' := by
  have hlabels : ∀ label ∈ labels, Unshort label.2.fileWrites ∧ (Refuses label → refused) :=
    fun label hlabel => ⟨hwrites label hlabel, hrefuse label hlabel⟩
  exact Transition.run_invariant_of_always (fun _ _ _ h hgood hstep => h.step hgood.1 hgood.2 hstep)
    h (Transition.always_of_forall hlabels t) hrun

/-- What a life has come to: the file holds the first bytes that the connection delivers, up to the
offset of the worker, and all of them if the worker has stopped, unless it was refused. -/
structure Fetched (items : Inbound) (o : ℤ) (file : File) (refused : Prop) (t : Transfer) :
    Prop where
  content : ∃ bs, bs <+: delivered items ∧ t.worker.fileOffset = o + bs.length ∧
    t.file = file.write o bs
  stopped : t.worker.state = .stopped →
    (refused ∧ t.file = file) ∨
      (t.file = file.write o (delivered items) ∧ ∃ buffer rest,
        arrival items = some (buffer, rest) ∧ Arrived buffer.kind rest)

lemma Fetching.fetched (h : Fetching items o file refused t) :
    Fetched items o file refused t := by
  have hnothing : t.worker.fileOffset = o → t.file = file → ∃ bs, bs <+: delivered items ∧
      t.worker.fileOffset = o + bs.length ∧ t.file = file.write o bs :=
    fun hoffset hfile => ⟨[], List.nil_prefix, by simp [hoffset], by simp [hfile]⟩
  cases h with
  | ended hended hoffset hfile hrefused =>
    exact ⟨hnothing hoffset hfile, fun hstop => Or.inl ⟨hrefused hstop, hfile⟩⟩
  | awaiting hawaits hwf hoffset hfile =>
    exact ⟨hnothing hoffset hfile, fun hstop => absurd hstop hawaits.live⟩
  | receiving buffer rest done todo harrival hsplit hcopied hframed harrived =>
    refine ⟨⟨done, ⟨todo, hsplit.symm⟩, hcopied.offset, hcopied.file⟩, fun hstop => Or.inr ?_⟩
    rw [hsplit, hcopied.stopped hstop, List.append_nil]
    exact ⟨hcopied.file, buffer, rest, harrival, harrived hstop⟩

end Transfer

end Cld
