import Cld.Body.Loop
import Cld.Framework.Transition

/-!
# From the stream to the file

A worker in `ReceivingBody`, over any number of calls of `process`, with any events and any
answers of the system.

`DecodedBody` is what a body says under each of the three framings, and `Transferred` what the
calls are for: the file holds the first bytes of it, in order, up to the offset of the worker,
and all of it once the worker has stopped.

The loop reads the buffer anew before it writes again, so that the bytes which a short write
has left behind are lost, and a chunked body is lost as a whole.  `body_reaches_file` is about
the runs in which neither happens.
-/

namespace Cld

open Framework

/-- The body that the bytes `wire` of a stream carry. -/
inductive DecodedBody : BufferKind → Bytes → Bytes → Prop
  | noLength (finished : Bool) (wire : Bytes) : DecodedBody (.noLength finished) wire wire
  | fixLength (remain : ℕ) (wire : Bytes) :
      DecodedBody (.fixLength remain) wire (wire.take remain)
  | chunked (chunkRemain : ℤ) (chunks : List Bytes) (tail : Bytes)
      (hchunks : ∀ chunk ∈ chunks, chunk ≠ []) :
      DecodedBody (.chunked chunkRemain) (encodeChunks chunks ++ tail) chunks.flatten

/-- A worker and its file between two calls of `process`; `halted` when a call has ended with
anything else than a return, and no other is made. -/
structure Transfer where
  worker : Worker
  file : File
  halted : Bool := false

namespace Transfer

/-- One call of `process`.  A stopped worker gets no more events. -/
def step (t : Transfer) (label : EpollEvents × Env) : Option Transfer :=
  if t.halted ∨ t.worker.state = .stopped then none
  else
    match t.worker.process t.file label.1 label.2 with
    | (.returned _, w, file) => some { worker := w, file := file }
    | (_, w, file) => some { worker := w, file := file, halted := true }

/-- **Every byte reaches the file in order.** -/
structure Transferred (o : ℤ) (body : Bytes) (t : Transfer) : Prop where
  begin_le : o ≤ t.worker.fileOffset
  le_length : t.worker.fileOffset ≤ o + body.length
  content : ∀ k, o ≤ k → k < t.worker.fileOffset → t.file k = body[(k - o).toNat]?
  /-- A worker stops when its buffer is finished. -/
  whole : t.worker.state = .stopped → t.worker.fileOffset = o + body.length

/-- What is written, and what is still to come. -/
structure Copied (o : ℤ) (file : File) (t : Transfer) (done todo : Bytes) : Prop where
  file : t.file = file.write o done
  offset : t.worker.fileOffset = o + done.length
  stopped : t.worker.state = .stopped → todo = []
  running : t.halted = false → t.worker.state ≠ .stopped → t.worker.state = .receivingBody ∧
    ∃ buffer stream, t.worker.buffer = some buffer ∧ t.worker.stream = some stream ∧
      buffer.kind.Open ∧ todo = received buffer.kind (payload stream.inbound)

variable {o : ℤ} {file : File} {t t' : Transfer} {done todo : Bytes} {label : EpollEvents × Env}

lemma Copied.transferred (h : Copied o file t done todo) : Transferred o (done ++ todo) t where
  begin_le := by
    rw [h.offset]
    omega
  le_length := by
    rw [h.offset, List.length_append]
    push_cast
    omega
  content k hk hlt := by
    rw [h.offset] at hlt
    have hidx : (k - o).toNat < done.length := by omega
    rw [h.file, File.write_of_mem _ _ ⟨hk, hlt⟩, List.getElem?_append_left hidx]
  whole hstop := by
    rw [h.offset, h.stopped hstop, List.append_nil]

/-- **One call** moves bytes from what is to come to what is written. -/
lemma Copied.step (h : Copied o file t done todo) (hwrites : Unshort label.2.fileWrites)
    (hstep : t.step label = some t') :
    ∃ bs todo', todo = bs ++ todo' ∧ Copied o file t' (done ++ bs) todo' := by
  unfold Transfer.step at hstep
  split_ifs at hstep with hdone
  obtain ⟨hhalted, hlive⟩ := not_or.1 hdone
  obtain ⟨hstate, buffer, stream, hbuffer, hstream, hopen, htodo⟩ :=
    h.running (Bool.not_eq_true _ ▸ hhalted) hlive
  rcases hprocess : t.worker.process t.file label.1 label.2 with ⟨outcome, w, file'⟩
  have ht' : t'.worker = w ∧ t'.file = file' ∧
      (t'.halted = false → ∃ n, outcome = .returned n) := by
    rw [hprocess] at hstep
    cases outcome with
    | returned n =>
      obtain rfl := Option.some.inj hstep
      exact ⟨rfl, rfl, fun _ => ⟨n, rfl⟩⟩
    | _ =>
      obtain rfl := Option.some.inj hstep
      exact ⟨rfl, rfl, nofun⟩
  obtain ⟨rfl, rfl, hreturned⟩ := ht'
  rcases Worker.process_of_receivingBody hstate hstream hbuffer hprocess with
    ⟨-, -, hw, hf⟩ | ⟨-, s, exit, hloop, hfile, hoffset, hexit⟩
  · refine ⟨[], todo, rfl, ?_⟩
    rw [List.append_nil]
    refine ⟨hf ▸ h.file, hw ▸ h.offset, fun hstop => h.stopped (hw ▸ hstop), fun _ _ => ?_⟩
    rw [hw]
    exact ⟨hstate, buffer, stream, hbuffer, hstream, hopen, htodo⟩
  · obtain ⟨bs, more, hrest, hwrote, hmoved, hmore⟩ := Worker.bodyLoop_received kBufferSize
      (t.worker.bodyState stream buffer t.file) label.2.fileWrites hwrites
    have hsize : kBufferSize ≠ 0 := by decide
    have hend := Worker.bodyLoop_finished hsize (t.worker.bodyState stream buffer t.file)
      label.2.fileWrites hopen
    have hstill := Worker.bodyLoop_open (t.worker.bodyState stream buffer t.file)
      label.2.fileWrites hopen (S := kBufferSize)
    rw [hloop] at hwrote hmoved hmore hend hstill
    refine ⟨bs, more, htodo.trans hrest, ?_, ?_, fun hstop => ?_, fun hrun hlive' => ?_⟩
    · rw [hfile, hwrote, ← File.write_append, ← h.file, ← h.offset]
      rfl
    · rw [hoffset, hmoved, List.length_append]
      push_cast
      rw [← add_assoc, ← h.offset]
      rfl
    · rcases hexit with ⟨rfl, -⟩ | ⟨-, hbody, -⟩
      · rw [hmore nofun]
        exact hend rfl
      · exact absurd (hbody.symm.trans hstop) (by decide)
    · rcases hexit with ⟨-, hstop⟩ | ⟨-, hbody, hbuffer', hstream', hexit'⟩
      · exact absurd hstop hlive'
      · obtain ⟨n, hn⟩ := hreturned hrun
        have hpass := hexit' n hn
        refine ⟨hbody, s.buffer, _, hbuffer', hstream', hstill hpass, hmore fun e he => ?_⟩
        have he' : exit = .threw e := he
        rw [he'] at hpass
        exact hpass.elim nofun nofun

/-- Any number of calls. -/
lemma Copied.run {labels : List (EpollEvents × Env)} (h : Copied o file t done todo)
    (hwrites : ∀ label ∈ labels, Unshort label.2.fileWrites)
    (hrun : Transition.run Transfer.step t labels = some t') :
    Transferred o (done ++ todo) t' := by
  induction labels generalizing t done todo with
  | nil =>
    obtain rfl : t = t' := by simpa using hrun
    exact h.transferred
  | cons label labels ih =>
    obtain ⟨t₁, hstep, hrest⟩ := (Transition.run_cons_iff Transfer.step).1 hrun
    obtain ⟨bs, todo', rfl, h₁⟩ := h.step (hwrites label List.mem_cons_self) hstep
    rw [← List.append_assoc]
    exact ih h₁ (fun l hl => hwrites l (List.mem_cons_of_mem label hl)) hrest

/-- What a buffer hands out is the body, but for chunked bodies that are not empty. -/
lemma received_of_decodedBody {kind : BufferKind} {wire body : Bytes}
    (h : DecodedBody kind wire body) (hchunked : ∀ r, kind = .chunked r → body = []) :
    received kind wire = body := by
  cases h with
  | noLength finished => rfl
  | fixLength remain => rfl
  | chunked chunkRemain chunks tail hchunks => exact (hchunked chunkRemain rfl).symm

/-- **Every byte of the body reaches the file, in order**, in every run without short writes,
if the body is not chunked or is empty. -/
theorem body_reaches_file {w : Worker} {response : Response} {buffer : Buffer} {stream : Stream}
    {body : Bytes} {labels : List (EpollEvents × Env)} (hstate : w.state = .receivingBody)
    (hstream : w.stream = some stream) (hbuffer : w.buffer = some buffer)
    (hcreate : CreateBuffer response = .ok buffer)
    (hbody : DecodedBody buffer.kind (payload stream.inbound) body)
    (hwrites : ∀ label ∈ labels, Unshort label.2.fileWrites)
    (hchunked : ∀ r, buffer.kind = .chunked r → body = [])
    (hrun : Transition.run Transfer.step { worker := w, file := file } labels = some t) :
    Transferred w.fileOffset body t := by
  have hcopied : Copied w.fileOffset file { worker := w, file := file } [] body :=
    ⟨by simp, by simp, fun hstop => absurd (hstate.symm.trans hstop) (by decide), fun _ _ =>
      ⟨hstate, buffer, stream, hbuffer, hstream, open_of_create hcreate,
        (received_of_decodedBody hbody hchunked).symm⟩⟩
  exact hcopied.run hwrites hrun

/-- A worker that receives a body of two bytes at offset 7. -/
def twoBytes : Worker :=
  { Worker.create ⟨[.byte 65 true, .again, .byte 66 false], []⟩ ⟨[], [], [], []⟩ 7 with
    state := .receivingBody
    buffer := some { kind := .fixLength 2 } }

/-- The answer that announces them. -/
def keepAliveTwo : Response where
  headers := [(bytes "Connection", bytes "keep-alive"), (bytes "Content-Length", bytes "2")]

/-- In two calls, both bytes are written. -/
theorem two_bytes_reach_file : ∃ t,
    Transition.run Transfer.step { worker := twoBytes, file := fun _ => none }
      [({ epollin := true }, {}), ({ epollin := true }, {})] = some t ∧
      t.worker.state = .stopped ∧ Transferred 7 [65, 66] t := by
  have hkey : (Transition.run Transfer.step { worker := twoBytes, file := fun _ => none }
      [({ epollin := true }, {}), ({ epollin := true }, {})]).map (fun t => t.worker.state) =
      some .stopped := by decide +kernel
  obtain ⟨t, hrun, hstate⟩ := Option.map_eq_some_iff.1 hkey
  have hcreate : CreateBuffer keepAliveTwo = .ok { kind := .fixLength 2 } := by rfl
  have hstream : twoBytes.stream = some ⟨[.byte 65 true, .again, .byte 66 false], []⟩ := rfl
  have hbody : DecodedBody (.fixLength 2) (payload [.byte 65 true, .again, .byte 66 false])
      [65, 66] := .fixLength 2 [65, 66]
  exact ⟨t, hrun, hstate, body_reaches_file rfl hstream rfl hcreate hbody (by decide) nofun hrun⟩

/-- **A short write loses what it leaves behind**: the two bytes arrive together, the first
write takes one of them, and the worker stops with the second unwritten. -/
theorem short_write_loses : ∃ t,
    CreateBuffer keepAliveTwo = .ok { kind := .fixLength 2 } ∧
      DecodedBody (.fixLength 2) (payload [.byte 65 false, .byte 66 false]) [65, 66] ∧
      Transition.run Transfer.step
        { worker := { twoBytes with stream := some ⟨[.byte 65 false, .byte 66 false], []⟩ }
          file := fun _ => none }
        [({ epollin := true }, { fileWrites := [.short 1] })] = some t ∧
      ¬ Transferred 7 [65, 66] t := by
  have hkey : (Transition.run Transfer.step
      { worker := { twoBytes with stream := some ⟨[.byte 65 false, .byte 66 false], []⟩ }
        file := fun _ => none }
      [({ epollin := true }, { fileWrites := [.short 1] })]).map
        (fun t => (t.worker.state, t.worker.fileOffset)) = some (.stopped, 8) := by decide +kernel
  obtain ⟨t, hrun, hval⟩ := Option.map_eq_some_iff.1 hkey
  obtain ⟨hstate, hoffset⟩ := Prod.mk.inj hval
  refine ⟨t, rfl, .fixLength 2 [65, 66], hrun, fun h => ?_⟩
  have hwhole := h.whole hstate
  rw [hoffset] at hwhole
  exact absurd hwhole (by decide)

end Transfer

end Cld
