import Cld.Download.Ranges
import Cld.Download.Whole
import Cld.Head.Ending
import Cld.Head.RoundTrip
import Cld.Wire.Range

/-!
# The download and its server

A download together with what is at the other end of its connections.  The server sees nothing but
the bytes that a worker sends, and the worker nothing but the bytes that come back, wherever they
break off; nobody tells the server at which offset the worker will write.

* `Reply` is what a server sends, a head and a body, and `Satisfies` what it sends to somebody who
  asks for a range of the resource: the range, or the whole resource if that begins there, or no
  body at all.
* `Carries`: a connection delivers the beginning of the reply, in any segmentation that does not
  suspend the head in a harmful place (`uncut`).  `answers_of_carries`: the worker then reads the
  head that was sent, and the beginning of the body.
* `Asking` is the invariant that connects the two sides: the bytes a new worker sends ask for a
  range that begins at the offset where it writes.
* `served_download` is the result for whole runs: every byte of the file is right at any time, and
  the file is the resource, or lacks its last byte, in the end.
-/

namespace Cld

open Framework

/-! ## The server -/

/-- What a server sends. -/
structure Reply where
  head : Head
  body : Bytes

namespace Reply

def text (reply : Reply) : Bytes := reply.head.render ++ reply.body

/-- What a server may send to somebody who asks for a part of the resource. -/
inductive Satisfies (resource data : Bytes) (reply : Reply) : Prop
  | range (first last : ℕ) (hasked : rangeAsked data = some (first, last))
      (hstatus : reply.head.status = 206) (hbody : reply.body = requested resource first last)
  /-- Whoever does not support ranges sends everything. -/
  | whole (last : ℕ) (hasked : rangeAsked data = some (0, last))
      (hstatus : reply.head.status = 200) (hbody : reply.body = resource)
  | empty (hbody : reply.body = [])

variable {resource data : Bytes} {reply : Reply} {first last : ℕ}

/-- The body belongs where the range begins. -/
lemma Satisfies.window (h : reply.Satisfies resource data)
    (hasked : rangeAsked data = some (first, last)) : Window resource first reply.body := by
  cases h with
  | range first' last' hasked' hstatus hbody =>
    obtain ⟨rfl, rfl⟩ := Prod.mk.inj (Option.some.inj (hasked.symm.trans hasked'))
    rw [hbody]
    exact (window_drop (Int.natCast_nonneg first)).isPrefix (List.take_prefix _ _)
  | whole last' hasked' hstatus hbody =>
    obtain ⟨rfl, rfl⟩ := Prod.mk.inj (Option.some.inj (hasked.symm.trans hasked'))
    rw [hbody]
    exact (window_drop (le_refl 0))
  | empty hbody =>
    rw [hbody]
    exact window_nil resource first

end Reply

/-! ## The connection -/

/-- The stream delivers the beginning of the reply, and no suspension in its head does harm. -/
structure Stream.Carries (stream : Stream) (reply : Reply) : Prop where
  bytes : payload stream.inbound <+: reply.text
  uncut : uncut stream.inbound = true

instance (stream : Stream) (reply : Reply) : Decidable (stream.Carries reply) :=
  decidable_of_iff (payload stream.inbound <+: reply.text ∧ Cld.uncut stream.inbound = true)
    ⟨fun h => ⟨h.1, h.2⟩, fun h => ⟨h.bytes, h.uncut⟩⟩

lemma available_isPrefix_payload (items : Inbound) : available items <+: payload items := by
  induction items with
  | nil => exact List.prefix_refl []
  | cons item items ih =>
    cases item with
    | byte b brk => exact (List.prefix_cons_inj b).2 ih
    | again => exact List.nil_prefix
    | eof => exact List.nil_prefix
    | fail e => exact List.nil_prefix

/-- A head stays where it is when more bytes come. -/
lemma EndsHead.of_isPrefix {last : Byte} {bs bs' head : Bytes} (h : EndsHead last bs head)
    (hbs : bs <+: bs') : EndsHead last bs' head :=
  ⟨h.isPrefix.trans hbs, h.behind, h.first⟩

/-- What the reader of a head takes off the stream. -/
lemma payload_of_complete {data data' : Bytes} {last : Byte} {items rest : Inbound}
    (h : readHead data last items = .complete data' rest) :
    data ++ payload items = data' ++ payload rest := by
  induction items generalizing data last with
  | nil => cases h
  | cons item items ih =>
    cases item with
    | again => cases h
    | eof => cases h
    | fail e => cases h
    | byte c brk =>
      by_cases hpush : last = LF ∧ c = CR
      · rw [readHead, if_pos hpush] at h
        rcases hread : Inbound.read 1 items with ⟨r, rest'⟩
        rw [hread] at h
        cases r with
        | again => cases h
        | threw e => cases h
        | ok bs =>
          simp only at h
          split_ifs at h with hlf
          obtain ⟨rfl, rfl⟩ := HeadRead.complete.inj h
          obtain ⟨hpay, -⟩ := Inbound.read_ok hread
          rw [payload_byte, hpay, hlf]
          simp
      · rw [readHead_byte brk hpush] at h
        rw [payload_byte, ← ih h]
        simp

variable {stream : Stream} {reply : Reply} {response : Response} {body : Bytes}

/-- **The head that is read is the head that was sent**, and what is behind it is the beginning of
the body. -/
lemma answers_of_carries (h : stream.Carries reply)
    (hanswers : Answers stream.inbound response body) :
    response.status = reply.head.status ∧ body <+: reply.body := by
  obtain ⟨data, unread, hread, hparse, rfl⟩ := hanswers
  rw [readToResponse_eq_response] at hread
  have hpay : payload stream.inbound.steady <+: reply.text := by
    rw [Inbound.payload_steady]
    exact h.bytes
  -- the head ends in the bytes that are there, and so it does in all of the reply
  obtain ⟨head, hends, hdata⟩ := readHead_complete_iff.1 ⟨unread, hread⟩
  have hends' := hends.of_isPrefix ((available_isPrefix_payload _).trans hpay)
  have hwhole : available (reply.text.map (.byte · false)) = reply.text := by
    induction reply.text with
    | nil => rfl
    | cons b bs ih => exact congrArg (b :: ·) ih
  obtain ⟨rest, hall⟩ := readHead_complete_iff.2 ⟨head, hwhole.symm ▸ hends', hdata⟩
  have hready : AlwaysReady (reply.head.render.map (.byte · false)) := by
    intro item hitem
    obtain ⟨b, -, rfl⟩ := List.mem_map.1 hitem
    exact ⟨b, false, rfl⟩
  have hrender : payload (reply.head.render.map (.byte · false)) = reply.head.render := by
    induction reply.head.render with
    | nil => rfl
    | cons b bs ih => exact congrArg (b :: ·) ih
  have hsent : readHead [] 0
      (reply.head.render.map (.byte · false) ++ reply.body.map (.byte · false)) =
      .complete reply.head.render (reply.body.map (.byte · false)) :=
    reply.head.readHead_render hready hrender
  rw [Reply.text, List.map_append, hsent] at hall
  obtain ⟨rfl, -⟩ := HeadRead.complete.inj hall
  obtain ⟨r, hparsed, -, hstatus, -⟩ := reply.head.parse_render
  obtain rfl := Except.ok.inj (Option.some.inj (hparse.symm.trans hparsed))
  refine ⟨hstatus, ?_⟩
  have hsplit := payload_of_complete hread
  rw [List.nil_append] at hsplit
  rw [hsplit] at hpay
  exact (List.prefix_append_right_inj _).1 hpay

/-- **What comes back belongs where the request said.** -/
lemma matches_of_carries {resource data : Bytes} {first last : ℕ} (h : stream.Carries reply)
    (hreply : reply.Satisfies resource data) (hasked : rangeAsked data = some (first, last)) :
    Matches resource first stream.inbound := by
  unfold Matches
  rcases handedOut_cases stream.inbound with hnil | ⟨response, body, hanswers, hinitial⟩
  · rw [hnil]
    exact window_nil resource first
  · obtain ⟨-, hbody⟩ := answers_of_carries h hanswers
    exact (hreply.window hasked).isPrefix (hinitial.trans hbody)

/-! ## The worker -/

namespace Worker

variable {w w' : Worker} {event : EpollEvents} {env : Env} {file file' : File}

/-- **Nobody becomes a new worker again**, and a new worker has not moved. -/
lemma process_connecting {outcome : Outcome} (hwf : w.WF) (hstream : w.stream ≠ none)
    (hprocess : w.process file event env = (outcome, w', file'))
    (hstate : w'.state = .connecting) : w.state = .connecting ∧ w'.fileOffset = w.fileOffset ∧
      w'.requestData = w.requestData := by
  have hstage : w.state.stage ≤ w'.state.stage :=
    @process_keeps w w' file file' event env outcome (fun v => w.state.stage ≤ v.state.stage)
      (fun hrun hv => hv.trans (connecting_onward hrun).1.stage)
      (fun hrun hv => hv.trans (sending_onward hrun).1.stage)
      (fun hrun hv => hv.trans (receiving_onward hrun).1.stage)
      (fun hrun hv => hv.trans (receivingBody_onward hrun).1.stage)
      (fun hrun hv => (stopping_keeps hrun).2.symm ▸ hv) hprocess le_rfl
  have hbefore : w.state = .connecting := by
    rw [hstate] at hstage
    cases hw : w.state with
    | connecting => rfl
    | sending => simp [hw, WorkerState.stage] at hstage
    | receiving => simp [hw, WorkerState.stage] at hstage
    | receivingBody => simp [hw, WorkerState.stage] at hstage
    | stopped => simp [hw, WorkerState.stage] at hstage
  have hne : w.state ≠ .receivingBody := by
    rw [hbefore]
    exact WorkerState.noConfusion
  exact ⟨hbefore, ((process_spec hwf hstream hprocess).idle hne).1, process_requestData hprocess⟩

end Worker

/-! ## The download -/

namespace Download

variable {cfg : Config} {s s' : Download} {label : Label} {labels : List Label} {node : NodePtr}
  {now : ℤ} {resource : Bytes}

/-- Every new worker asks for a range that begins where it writes. -/
def Asking (cfg : Config) (s : Download) : Prop :=
  ∀ h, some h ∈ s.workers → h.obj.state = .connecting → ∃ first last : ℕ,
    h.obj.fileOffset = first ∧
      h.obj.requestData = (cfg.request.set "Range" (rangeValue first last)).request

lemma Asking.step (h : Asking cfg s) (hsize : 1 ≤ cfg.size) (hinv : s.Inv cfg)
    (hasks : s.Asks cfg) (hstep : s.step label = some s') : Asking cfg s' := by
  have hpart := (hinv.step hstep).partition hsize
  intro h' hh' hstate
  cases step_cases hstep with
  | passed => exact h h' hh' hstate
  | visited i slot choice s' hpc hslot hvisit =>
    by_cases hold : some h' ∈ s.workers
    · exact h h' hold hstate
    · obtain ⟨b, e, hcharged⟩ := hinv.charged_of_visited hasks hpc hslot
        (visit_cases hinv.core.indexed hvisit) hh' hold
      obtain ⟨hb, hbe, -⟩ := hcharged.within hpart
      obtain ⟨first, rfl⟩ := Int.eq_ofNat_of_zero_le hb
      obtain ⟨last, rfl⟩ := Int.eq_ofNat_of_zero_le (hb.trans hbe)
      exact ⟨first, last, hcharged.fileOffset, hcharged.request⟩
  | waited => exact h h' hh' hstate
  | handled p event rest env s' hpc hhandle =>
    obtain ⟨w, outcome, w₁, file, -, hmem, hwf, hstream, hprocess, hhandled⟩ :=
      hinv.exists_handled hpc hhandle
    obtain ⟨w₂, hworkers, -, hw₂⟩ := hhandled.worker (Worker.process_spec hwf hstream hprocess).wf
    rw [hworkers] at hh'
    rcases mem_putWorker hh' with ⟨-, hobj⟩ | ⟨-, hold⟩
    · rw [hobj] at hstate ⊢
      rcases hw₂ with ⟨n, -, rfl⟩ | hstop
      · obtain ⟨hbefore, hoffset, hdata⟩ :=
          Worker.process_connecting hwf hstream hprocess hstate
        rw [hoffset, hdata]
        exact h _ hmem hbefore
      · rw [hstop] at hstate
        cases hstate
    · exact h h' hold hstate
  | ticked now hpc =>
    obtain ⟨time, lastTime, pc, htick, -⟩ := s.tick_cases now
    rw [htick] at hh'
    exact h h' hh' hstate

/-- In this step, every connection of a new worker carries a reply to what that worker will send,
and no write to the file is short. -/
def Served (resource : Bytes) (s : Download) (label : Label) : Prop :=
  (∀ slot ∈ s.workers, ∀ h ∈ slot, h.obj.state = .connecting → ∀ stream ∈ h.obj.stream,
    ∃ reply : Reply, reply.Satisfies resource h.obj.requestData ∧ stream.Carries reply) ∧
    WritesAll label

/-- **A served download is answered faithfully**: the server knows the range from the request. -/
lemma Served.faithful (h : s.Served resource label) (hclean : cfg.request.Clean)
    (hasking : Asking cfg s) : s.Faithful resource label := by
  refine ⟨fun slot hslot held hheld hstate stream hstream => ?_, ?_⟩
  · obtain ⟨reply, hreply, hcarries⟩ := h.1 slot hslot held hheld hstate stream hstream
    obtain rfl : slot = some held := hheld
    obtain ⟨first, last, hoffset, hdata⟩ := hasking held hslot hstate
    have hasked : rangeAsked held.obj.requestData = some (first, last) := by
      rw [hdata]
      exact rangeAsked_request hclean first last
    rw [hoffset]
    exact ⟨hcarries.uncut, matches_of_carries hcarries hreply hasked⟩
  · cases label with
    | slot choice => exact trivial
    | wait events => exact trivial
    | process env => exact (h.2 env rfl).unshort
    | clock now => exact trivial

/-- What the two sides keep between them. -/
structure Served.Invariant (cfg : Config) (s : Download) : Prop where
  inv : s.Inv cfg
  asks : s.Asks cfg
  asking : Asking cfg s

lemma Served.invariant_init (cfg : Config) (node : NodePtr) (now : ℤ) :
    Served.Invariant cfg (init cfg node now) where
  inv := inv_init cfg node now
  asks := asks_init cfg node now
  asking h hh := by cases List.eq_of_mem_replicate hh

lemma Served.Invariant.step (h : Served.Invariant cfg s) (hsize : 1 ≤ cfg.size)
    (hstep : s.step label = some s') : Served.Invariant cfg s' where
  inv := h.inv.step hstep
  asks := h.asks.step h.inv hstep
  asking := h.asking.step hsize h.inv h.asks hstep

lemma always_faithful (hclean : cfg.request.Clean) (hsize : 1 ≤ cfg.size)
    (hserved : Transition.Always Download.step (Served resource) (init cfg node now) labels) :
    Transition.Always Download.step (Faithful resource) (init cfg node now) labels :=
  Transition.always_of_invariant
    (fun _ _ _ h _ hstep => Served.Invariant.step h hsize hstep)
    (fun _ _ h hserved => Served.faithful hserved hclean h.asking)
    (Served.invariant_init cfg node now) hserved

/-- **A download from a server that answers what it is asked.**  The server reads the range off the
bytes of the request, which is clean, and sends that range, or the whole resource if the range
begins with its first byte, or no body.  The reply may break off anywhere, and be segmented in any
way that does not suspend its head between the last CR and LF (`Carries.uncut`); every write to the
file is complete.  Then in every run each byte of the file is the byte of the resource at its
offset, and when the loop is over the file is the resource, or the resource without its last byte,
by whether that byte was ever come to. -/
theorem served_download (hclean : cfg.request.Clean) (hsize : cfg.size = resource.length)
    (hne : resource ≠ [])
    (hserved : Transition.Always Download.step (Served resource) (init cfg node now) labels)
    (hrun : Transition.run Download.step (init cfg node now) labels = some s) :
    Genuine resource s.file ∧ (s.pc = .done →
      (Transition.Sometime Download.step (ReachesEnd cfg.size) (init cfg node now) labels →
        s.file = byteAt resource) ∧
      (¬ Transition.Sometime Download.step (ReachesEnd cfg.size) (init cfg node now) labels →
        s.file = byteAt resource.dropLast)) := by
  have hone : 1 ≤ cfg.size := by
    have hpos : 0 < resource.length := List.length_pos_iff.2 hne
    omega
  have hgood := always_faithful hclean hone hserved
  have hrightful : Rightful cfg resource s :=
    Transition.run_invariant_of_always (fun _ _ _ h hgood hstep => Rightful.step h hgood hstep)
      (rightful_init cfg resource node now) hgood hrun
  have hwrites : ∀ label ∈ labels, WritesAll label :=
    Transition.forall_of_always (fun _ _ h => h.2) hserved hrun
  exact ⟨hrightful.file, fun hdone => file_of_done hsize hgood hwrites hrun hdone⟩

lemma version_ne_nil : bytes "1.1" ≠ [] := by decide

lemma version_digits : ∀ c ∈ bytes "1.1", (isDigit c || c == 46) = true :=
  List.all_eq_true.1 (by decide)

/-- The head of a reply with a range. -/
def partialHead : Head where
  version := bytes "1.1"
  status := 206
  reason := bytes "Partial Content"
  fields := []
  version_ne := version_ne_nil
  version_digits := version_digits
  status_lt := by decide
  reason_ne := by decide
  reason_plain := isPlain_of_literal (by decide)
  reason_start c hc := by
    obtain rfl : 80 = c := Option.some.inj hc
    decide

/-- A download of two bytes over one connection. -/
def twoByteConfig : Config := ⟨2, 1, ⟨bytes "GET", bytes "/", [], []⟩⟩

/-- In this step, every new worker sends these bytes, and its connection carries this reply. -/
def Exchanges (data : Bytes) (reply : Reply) (s : Download) (label : Label) : Prop :=
  (∀ slot ∈ s.workers, ∀ h ∈ slot, h.obj.state = .connecting → ∀ stream ∈ h.obj.stream,
    h.obj.requestData = data ∧ stream.Carries reply) ∧ WritesAll label

instance (data : Bytes) (reply : Reply) (s : Download) (label : Label) :
    Decidable (s.Exchanges data reply label) :=
  have : ∀ held : Held, Decidable (held.obj.state = .connecting → ∀ stream ∈ held.obj.stream,
      held.obj.requestData = data ∧ stream.Carries reply) := fun _ => inferInstance
  inferInstanceAs (Decidable (_ ∧ WritesAll label))

lemma Exchanges.served {data : Bytes} {reply : Reply} (h : s.Exchanges data reply label)
    (hreply : reply.Satisfies resource data) : s.Served resource label := by
  refine ⟨fun slot hslot held hheld hstate stream hstream => ?_, h.2⟩
  obtain ⟨hdata, hcarries⟩ := h.1 slot hslot held hheld hstate stream hstream
  exact ⟨reply, hdata ▸ hreply, hcarries⟩

/-- The server has read `bytes=0-1` and sends both bytes. -/
theorem served_download_two : ∃ s,
    Transition.run step (init twoByteConfig 0 0)
      (fetchTwo [.byte 65 false, .byte 66 false]) = some s ∧ s.pc = .done ∧
      Genuine [65, 66] s.file ∧ (s.pc = .done →
        (Transition.Sometime step (ReachesEnd 2) (init twoByteConfig 0 0)
            (fetchTwo [.byte 65 false, .byte 66 false]) → s.file = byteAt [65, 66]) ∧
        (¬ Transition.Sometime step (ReachesEnd 2) (init twoByteConfig 0 0)
            (fetchTwo [.byte 65 false, .byte 66 false]) → s.file = byteAt [65])) := by
  have hkey : (Transition.run step (init twoByteConfig 0 0)
      (fetchTwo [.byte 65 false, .byte 66 false])).map
        (fun s => decide (s.pc = .done)) = some true := by decide +kernel
  obtain ⟨s, hrun, hval⟩ := Option.map_eq_some_iff.1 hkey
  have hclean : twoByteConfig.request.Clean :=
    { method := visible_of_literal (by decide)
      resource := visible_of_literal (by decide)
      headers := by simp [twoByteConfig]
      body := rfl }
  -- the one request that is sent, and the one reply
  have hreply : Reply.Satisfies [65, 66]
      (twoByteConfig.request.set "Range" (rangeValue 0 1)).request ⟨partialHead, [65, 66]⟩ :=
    .range 0 1 (rangeAsked_request hclean 0 1) rfl rfl
  have hwire : Transition.Always step
      (Exchanges (twoByteConfig.request.set "Range" (rangeValue 0 1)).request
        ⟨partialHead, [65, 66]⟩)
      (init twoByteConfig 0 0) (fetchTwo [.byte 65 false, .byte 66 false]) := by
    decide +kernel
  have hserved : Transition.Always step (Served [65, 66]) (init twoByteConfig 0 0)
      (fetchTwo [.byte 65 false, .byte 66 false]) := by
    apply Transition.always_of_invariant (P := fun _ => True) _ _ trivial hwire
    · exact fun _ _ _ _ _ _ => trivial
    · exact fun _ _ _ hexchanges => hexchanges.served hreply
  exact ⟨s, hrun, of_decide_eq_true hval,
    served_download hclean rfl (List.cons_ne_nil _ _) hserved hrun⟩

end Download

end Cld
