import Cld.Download.Workers
import Cld.Head.Entry

/-!
# Are the right bytes written?

A worker writes whatever body it receives at the offset it was created for.  `Genuine` says
that every byte of the file is the byte of the resource at its offset.

* `Answer` lists what a server may answer to a request for a range: the range (206), the whole
  resource (200), or an error with any body.  The worker does not look at the status.
* `Matches` is what it takes instead: that the bytes behind the head are those of the resource
  from the offset of the worker on.  `matches_of_answer`: they are if the answer is a 206, or a
  200 to a request from byte 0, or has no body.
* `Sound` is the invariant of a worker, through all its states, and `content_genuine` the result
  about runs in which every answer matches, no head is cut in a harmful place, and no write is
  short.
-/

namespace Cld

/-! ## Bytes of a resource -/

/-- The byte at an offset. -/
def byteAt (resource : Bytes) (k : ℤ) : Option Byte :=
  if 0 ≤ k then resource[k.toNat]? else none

/-- `bs` are the bytes of the resource from `o` on. -/
def Window (resource : Bytes) (o : ℤ) (bs : Bytes) : Prop :=
  ∀ i, i < bs.length → bs[i]? = byteAt resource (o + i)

instance (resource : Bytes) (o : ℤ) (bs : Bytes) : Decidable (Window resource o bs) :=
  inferInstanceAs (Decidable (∀ i, i < bs.length → _))

/-- **Every byte that has been written is the right one.** -/
def Genuine (resource : Bytes) (file : File) : Prop :=
  ∀ k b, file k = some b → byteAt resource k = some b

section Windows

variable {resource as bs : Bytes} {o : ℤ} {file : File}

lemma window_nil (resource : Bytes) (o : ℤ) : Window resource o [] := fun _ hi =>
  absurd hi (Nat.not_lt_zero _)

lemma Window.left (h : Window resource o (as ++ bs)) : Window resource o as := by
  intro i hi
  have hlt : i < (as ++ bs).length := by
    rw [List.length_append]
    omega
  rw [← h i hlt, List.getElem?_append_left hi]

lemma Window.right (h : Window resource o (as ++ bs)) :
    Window resource (o + as.length) bs := by
  intro i hi
  have hlt : as.length + i < (as ++ bs).length := by
    rw [List.length_append]
    omega
  have heq := h (as.length + i) hlt
  rw [List.getElem?_append_right (Nat.le_add_right _ _), Nat.add_sub_cancel_left] at heq
  rw [heq]
  push_cast
  rw [add_assoc]

lemma Window.isPrefix (h : Window resource o bs) (hinitial : as <+: bs) :
    Window resource o as := by
  obtain ⟨rest, rfl⟩ := hinitial
  exact h.left

/-- The bytes behind an offset. -/
lemma window_drop (ho : 0 ≤ o) : Window resource o (resource.drop o.toNat) := by
  intro i hi
  have hsum : (o + i).toNat = o.toNat + i := by omega
  rw [byteAt, if_pos (by omega), hsum, List.getElem?_drop]

/-- A write of the right bytes. -/
lemma Genuine.write (h : Genuine resource file) (hbs : Window resource o bs) :
    Genuine resource (file.write o bs) := by
  intro k b hk
  by_cases hmem : o ≤ k ∧ k < o + bs.length
  · have hidx : (k - o).toNat < bs.length := by omega
    have hsum : o + ((k - o).toNat : ℤ) = k := by omega
    rw [File.write_of_mem file o hmem, hbs _ hidx, hsum] at hk
    exact hk
  · rw [File.write_of_notMem file o hmem] at hk
    exact h k b hk

end Windows

/-! ## Answers -/

/-- The response and the body that a blocking reader finds in a stream. -/
def Answers (items : Inbound) (response : Response) (body : Bytes) : Prop :=
  ∃ data unread, ReadToResponse items = .response data unread ∧
    Response.parse data = some (.ok response) ∧ payload unread = body

/-- The bytes `begin, …, end_` of a resource, as a `Range` header asks for them. -/
def requested (resource : Bytes) (begin end_ : ℤ) : Bytes :=
  (resource.drop begin.toNat).take (end_ - begin + 1).toNat

/-- What a server answers to the request for a range, perhaps broken off. -/
inductive Answer (resource : Bytes) (begin end_ : ℤ) (response : Response) (body : Bytes) : Prop
  | range (hstatus : response.status = 206) (hbody : body <+: requested resource begin end_)
  | whole (hstatus : response.status = 200) (hbody : body <+: resource)
  | error (hstatus : response.isOk = false)

/-- What a buffer hands out of the body in a stream; nothing when no body is reached. -/
def handedOut (items : Inbound) : Bytes :=
  match ReadToResponse items with
  | .response data unread =>
    match Response.parse data with
    | some (.ok response) =>
      match CreateBuffer response with
      | .ok buffer => received buffer.kind (payload unread)
      | .error _ => []
    | _ => []
  | _ => []

/-- What a worker at offset `o` takes from the stream is what the resource has there. -/
def Matches (resource : Bytes) (o : ℤ) (items : Inbound) : Prop :=
  Window resource o (handedOut items)

instance (resource : Bytes) (o : ℤ) (items : Inbound) : Decidable (Matches resource o items) :=
  inferInstanceAs (Decidable (Window resource o (handedOut items)))

lemma handedOut_eq {data : Bytes} {items unread : Inbound} {response : Response}
    {buffer : Buffer} (hread : ReadToResponse items = .response data unread)
    (hparse : Response.parse data = some (.ok response))
    (hcreate : CreateBuffer response = .ok buffer) :
    handedOut items = received buffer.kind (payload unread) := by
  simp only [handedOut, hread, hparse, hcreate]

/-- What is handed out belongs to the body of an answer. -/
lemma handedOut_cases (items : Inbound) : handedOut items = [] ∨
    ∃ response body, Answers items response body ∧ handedOut items <+: body := by
  unfold handedOut
  split
  · next data unread hread =>
    split
    · next response hparse =>
      split
      · next buffer hcreate =>
        exact Or.inr ⟨response, payload unread, ⟨data, unread, hread, hparse, rfl⟩,
          isPrefix_received _ _⟩
      · exact Or.inl rfl
    · exact Or.inl rfl
  · exact Or.inl rfl

/-- **Which answers match**: every 206, a 200 to a request from byte 0, and what has no body. -/
lemma matches_of_answer {resource : Bytes} {begin end_ : ℤ} {items : Inbound} (hbegin : 0 ≤ begin)
    (h : ∀ response body, Answers items response body →
      Answer resource begin end_ response body ∧
        (response.status = 206 ∨ (response.status = 200 ∧ begin = 0) ∨ body = [])) :
    Matches resource begin items := by
  rcases handedOut_cases items with hnil | ⟨response, body, hanswers, hinitial⟩
  · rw [Matches, hnil]
    exact window_nil resource begin
  obtain ⟨hanswer, hgood⟩ := h response body hanswers
  have hwindow : Window resource begin body := by
    rcases hgood with h206 | ⟨h200, rfl⟩ | hnil
    · cases hanswer with
      | range hstatus hbody =>
        exact (window_drop hbegin).isPrefix (hbody.trans (List.take_prefix _ _))
      | whole hstatus hbody => exact absurd (h206.symm.trans hstatus) (by decide)
      | error hstatus => simp [Response.isOk, h206] at hstatus
    · cases hanswer with
      | range hstatus hbody => exact absurd (h200.symm.trans hstatus) (by decide)
      | whole hstatus hbody => exact (window_drop (le_refl 0)).isPrefix hbody
      | error hstatus => simp [Response.isOk, h200] at hstatus
    · rw [hnil]
      exact window_nil resource begin
  exact hwindow.isPrefix hinitial

/-! ## The invariant of a worker -/

namespace Worker

/-- The answer to a new worker matches, and no suspension in its head does harm. -/
def Answered (resource : Bytes) (w : Worker) : Prop :=
  w.state = .connecting → ∀ stream ∈ w.stream,
    uncut stream.inbound = true ∧ Matches resource w.fileOffset stream.inbound

instance (resource : Bytes) (w : Worker) : Decidable (w.Answered resource) :=
  inferInstanceAs (Decidable (_ → ∀ stream ∈ w.stream, _))

/-- The bytes behind a head that comes to `r` are those of the resource from `o` on. -/
def Delivers (resource : Bytes) (o : ℤ) (r : HeadRead) : Prop :=
  ∀ data rest response buffer, r = .complete data rest →
    Response.parse data = some (.ok response) → CreateBuffer response = .ok buffer →
    Window resource o (received buffer.kind (payload rest))

/-- What the worker has yet to write is right. -/
inductive Sound (resource : Bytes) (w : Worker) : Prop
  | stopped (hstate : w.state = .stopped)
  | fresh (hstate : w.state = .connecting) (hdata : w.responseData = [])
      (hlast : w.lastChar = 0)
  | head (r : HeadRead) (hawaits : w.Awaits r) (hdelivers : Delivers resource w.fileOffset r)
  | body (stream : Stream) (buffer : Buffer) (hstate : w.state = .receivingBody)
      (hstream : w.stream = some stream) (hbuffer : w.buffer = some buffer)
      (hwindow : Window resource w.fileOffset (received buffer.kind (payload stream.inbound)))

variable {resource : Bytes} {w w₁ : Worker} {file file' : File} {event : EpollEvents} {env : Env}
  {outcome : Outcome} {o : ℤ} {items : Inbound}

/-- The head of a new worker whose answer matches. -/
lemma delivers_of_matches (huncut : uncut items = true) (hmatches : Matches resource o items) :
    Delivers resource o (resumeHead [] 0 items) := by
  intro data rest response buffer hread hparse hcreate
  have hblocking := readToResponse_of_uncut huncut hread
  rw [Matches, handedOut_eq hblocking hparse hcreate, Inbound.payload_steady] at hmatches
  exact hmatches

/-- One call by a worker that waits for its head. -/
lemma sound_of_awaits {r : HeadRead} (hawaits : w.Awaits r)
    (hdelivers : Delivers resource w.fileOffset r) (hwf : w.WF) (hstream : w.stream ≠ none)
    (hfile : Genuine resource file)
    (hprocess : w.process file event env = (outcome, w₁, file')) :
    Genuine resource file' ∧ ((∃ n, outcome = .returned n) → w₁.Sound resource) := by
  obtain ⟨hoffset, hsame⟩ := (process_spec hwf hstream hprocess).idle hawaits.head
  refine ⟨hsame ▸ hfile, ?_⟩
  rintro ⟨n, rfl⟩
  rcases process_awaits hawaits hprocess with hstop | hawaits₁ | hentered
  · exact .stopped hstop
  · exact .head r hawaits₁ (hoffset ▸ hdelivers)
  · obtain ⟨data, rest, response, buffer, sent, hr, hparse, hcreate, hbuffer, hstream₁⟩ :=
      hentered.response
    refine .body _ buffer hentered.state hstream₁ hbuffer ?_
    rw [hoffset]
    exact hdelivers data rest response buffer hr hparse hcreate

/-- One call by a worker that receives its body. -/
lemma sound_of_body {stream : Stream} {buffer : Buffer} (hstate : w.state = .receivingBody)
    (hsome : w.stream = some stream) (hbuffer : w.buffer = some buffer)
    (hwindow : Window resource w.fileOffset (received buffer.kind (payload stream.inbound)))
    (hwrites : Unshort env.fileWrites) (hfile : Genuine resource file)
    (hprocess : w.process file event env = (outcome, w₁, file')) :
    Genuine resource file' ∧ ((∃ n, outcome = .returned n) → w₁.Sound resource) := by
  rcases process_of_receivingBody hstate hsome hbuffer hprocess with
    ⟨-, -, rfl, rfl⟩ | ⟨-, s, exit, hloop, hfile', hoffset, hexit⟩
  · exact ⟨hfile, fun _ => .body stream buffer hstate hsome hbuffer hwindow⟩
  · obtain ⟨bs, more, hrest, hwrote, hmoved, hmore⟩ := bodyLoop_received kBufferSize
      (w.bodyState stream buffer file) env.fileWrites hwrites
    rw [hloop] at hwrote hmoved hmore
    have hrest' : received buffer.kind (payload stream.inbound) = bs ++ more := hrest
    rw [hrest'] at hwindow
    refine ⟨?_, ?_⟩
    · rw [hfile', hwrote]
      exact hfile.write hwindow.left
    · rintro ⟨n, rfl⟩
      rcases hexit with ⟨-, hstop⟩ | ⟨-, hstate₁, hbuffer₁, hstream₁, hpass⟩
      · exact .stopped hstop
      · refine .body _ s.buffer hstate₁ hstream₁ hbuffer₁ ?_
        have hcont : more = received s.buffer.kind (payload s.inbound) := by
          refine hmore fun e he => ?_
          have he' : exit = .threw e := he
          rcases hpass n rfl with h | h
          · exact absurd (he'.symm.trans h) nofun
          · exact absurd (he'.symm.trans h) nofun
        rw [hoffset, hmoved, ← hcont]
        exact hwindow.right

/-- **One call** by a worker whose answer matches writes right bytes only, and what it has yet
to write is right if the call returns. -/
lemma Sound.process (hsound : w.Sound resource) (hanswered : w.Answered resource) (hwf : w.WF)
    (hstream : w.stream ≠ none) (hwrites : Unshort env.fileWrites)
    (hfile : Genuine resource file)
    (hprocess : w.process file event env = (outcome, w₁, file')) :
    Genuine resource file' ∧ ((∃ n, outcome = .returned n) → w₁.Sound resource) := by
  cases hsound with
  | stopped hstate =>
    have hproc := process_spec hwf hstream hprocess
    have hne : w.state ≠ .receivingBody := by rw [hstate]; decide
    exact ⟨(hproc.idle hne).2 ▸ hfile, fun _ => .stopped (hproc.stopped hstate)⟩
  | fresh hstate hdata hlast =>
    obtain ⟨stream, hsome⟩ := Option.ne_none_iff_exists'.1 hstream
    obtain ⟨huncut, hmatches⟩ := hanswered hstate stream hsome
    have hawaits : w.Awaits (resumeHead [] 0 stream.inbound) := by
      refine ⟨?_, ?_, stream, hsome, ?_⟩
      · rw [hstate]
        decide
      · rw [hstate]
        decide
      · rw [hdata, hlast]
    exact sound_of_awaits hawaits (delivers_of_matches huncut hmatches) hwf hstream hfile hprocess
  | head r hawaits hdelivers =>
    exact sound_of_awaits hawaits hdelivers hwf hstream hfile hprocess
  | body stream buffer hstate hsome hbuffer hwindow =>
    exact sound_of_body hstate hsome hbuffer hwindow hwrites hfile hprocess

end Worker

/-! ## Runs -/

namespace Download

open Framework

/-- The connections of new workers answer as they should, with no suspension in a harmful place of
the head, and in this step no write to the file is short. -/
def Faithful (resource : Bytes) (s : Download) (label : Label) : Prop :=
  (∀ slot ∈ s.workers, ∀ h ∈ slot, h.obj.Answered resource) ∧
    match label with
    | .process env => Unshort env.fileWrites
    | _ => True

instance (resource : Bytes) (s : Download) (label : Label) :
    Decidable (s.Faithful resource label) := by
  unfold Faithful
  exact @instDecidableAnd _ _ _ (match label with
    | .slot _ => inferInstanceAs (Decidable True)
    | .wait _ => inferInstanceAs (Decidable True)
    | .process env => inferInstanceAs (Decidable (Unshort env.fileWrites))
    | .clock _ => inferInstanceAs (Decidable True))

variable {cfg : Config} {node : NodePtr} {now : ℤ} {labels : List Label} {s s' : Download}
  {label : Label} {resource : Bytes}

/-- The invariant of the content. -/
structure Rightful (cfg : Config) (resource : Bytes) (s : Download) : Prop where
  inv : s.Inv cfg
  file : Genuine resource s.file
  sound : ∀ h, some h ∈ s.workers → h.obj.Sound resource

lemma rightful_init (cfg : Config) (resource : Bytes) (node : NodePtr) (now : ℤ) :
    Rightful cfg resource (init cfg node now) where
  inv := inv_init cfg node now
  file _ _ hk := nomatch hk
  sound _ hh := nomatch List.eq_of_mem_replicate hh

/-- **One step.** -/
lemma Rightful.step (h : Rightful cfg resource s) (hgood : s.Faithful resource label)
    (hstep : s.step label = some s') : Rightful cfg resource s' := by
  obtain ⟨hanswered, hlabel⟩ := hgood
  have hwrites : ∀ env, label = .process env → Unshort env.fileWrites := by
    rintro env rfl
    exact hlabel
  refine ⟨h.inv.step hstep, ?_, ?_⟩
  · cases h.inv.changed hstep with
    | round hfile hpc hworkers =>
      rw [hfile]
      exact h.file
    | event p event rest env w outcome w₁ hpc hprocess hfind hmem hwf hstream hcall hhandled =>
      exact ((h.sound _ hmem).process (hanswered _ hmem _ rfl) hwf hstream
        (hwrites env hprocess) h.file hcall).1
  · refine h.inv.forall_workers hstep (fun _ _ _ => .fresh rfl rfl rfl)
      (fun _ hstop => .stopped hstop) ?_ h.sound
    intro p event rest env w n w₁ file hpc hprocess hmem hwf hstream hcall hsound
    exact (hsound.process (hanswered _ hmem _ rfl) hwf hstream (hwrites env hprocess) h.file
      hcall).2 ⟨n, rfl⟩

/-- **Every byte of the file is the byte of the resource at its offset**, in every run in which
the answers match, no head is cut in a harmful place, and no write is short. -/
theorem content_genuine (hgood : Transition.Always step (Faithful resource)
      (init cfg node now) labels)
    (hrun : Transition.run step (init cfg node now) labels = some s) :
    Genuine resource s.file :=
  (Transition.run_invariant_of_always (fun _ _ _ h hgood hstep => Rightful.step h hgood hstep)
    (rightful_init cfg resource node now) hgood hrun).file

/-- An answer with this start line, and a body of one byte. -/
def oneByteAnswer (startLine : String) (b : Byte) : Stream where
  inbound := (bytes startLine).map (.byte · false) ++
    [.byte CR false, .byte LF false, .byte CR false, .byte LF false, .byte b false]

/-- The first byte of a resource of three, from a server that answers with the range. -/
theorem first_byte_genuine : ∃ s,
    Transition.run step (init ⟨3, 1, [], [], [], []⟩ 0 0)
      (singleFetch (oneByteAnswer "HTTP/1.1 206 Partial Content" 1)) = some s ∧
      s.file 0 = some 1 ∧ Genuine [1, 2, 3] s.file := by
  have hkey : (Transition.run step (init ⟨3, 1, [], [], [], []⟩ 0 0)
      (singleFetch (oneByteAnswer "HTTP/1.1 206 Partial Content" 1))).map (fun s => s.file 0) =
      some (some 1) := by decide +kernel
  obtain ⟨s, hrun, hzero⟩ := Option.map_eq_some_iff.1 hkey
  exact ⟨s, hrun, hzero, content_genuine (by decide +kernel) hrun⟩

/-- **The body of an error is written into the file**: a server answers the first request with
404, and the byte of its body takes the place of the first byte of the resource. -/
theorem error_body_is_written : ∃ s,
    (∀ response body,
      Answers (oneByteAnswer "HTTP/1.1 404 Not Found" 9).inbound response body →
        Answer [1, 2, 3] 0 2 response body) ∧
      Transition.run step (init ⟨3, 1, [], [], [], []⟩ 0 0)
        (singleFetch (oneByteAnswer "HTTP/1.1 404 Not Found" 9)) = some s ∧
      ¬ Genuine [1, 2, 3] s.file := by
  have hkey : (Transition.run step (init ⟨3, 1, [], [], [], []⟩ 0 0)
      (singleFetch (oneByteAnswer "HTTP/1.1 404 Not Found" 9))).map (fun s => s.file 0) =
      some (some 9) := by decide +kernel
  obtain ⟨s, hrun, hzero⟩ := Option.map_eq_some_iff.1 hkey
  refine ⟨s, ?_, hrun, fun hgenuine => ?_⟩
  · rintro response body ⟨data, unread, hread, hparse, -⟩
    have hblocking : ReadToResponse (oneByteAnswer "HTTP/1.1 404 Not Found" 9).inbound =
        .response (bytes "HTTP/1.1 404 Not Found\r\n\r\n") [.byte 9 false] := by decide +kernel
    rw [hblocking] at hread
    obtain ⟨rfl, rfl⟩ := HeadOutcome.response.inj hread
    have hstatus : (Response.parse (bytes "HTTP/1.1 404 Not Found\r\n\r\n")).map
        (fun parsed => parsed.toOption.map Response.isOk) = some (some false) := by
      decide +kernel
    rw [hparse] at hstatus
    exact .error (by simpa [Except.toOption] using hstatus)
  · have hbyte := hgenuine 0 9 hzero
    exact absurd hbyte (by decide)

end Download

end Cld
