import Cld.Download.Whole
import Cld.Model.Program
import Cld.Redirect.Rounds
import Cld.Single.Content

/-!
# Is the resource saved?

What a run of the whole program leaves in the output file when it says "Finished", from what is
known of the two loops that download.

* `Trusted` collects the assumptions, step by step: about the `HEAD` response with which the loop
  over the redirects ends (`Announces`), about the connection of a single download (`Honest`,
  `Connected`), and those that the loop with many connections needs anyway.
* `Sound` is the invariant, by the place where the program is.  In a download it holds the run that
  its loop has made so far.
* `saves_resource`: the file is the resource, or the resource without its last byte.

A single connection that is refused also ends with "Finished", and leaves an empty file; nothing
tells the two ends of that loop apart (`Single.fetched`), so that this is among the assumptions.  So
is that its answer is not chunked, as nothing of such a body is written.
-/

namespace Cld

open Framework

/-- What the response says about the length is right, and fits an `off_t`. -/
def Response.Announces (response : Response) (resource : Bytes) : Prop :=
  ∀ n, extractSize (response.get "Content-Length") = some n → n = resource.length ∧ n < 2 ^ 63

/-- The body behind this head, if it comes to its end, is the resource.  Of a chunked body nothing
is ever handed on, so that it can only stand for the empty resource. -/
def BufferKind.Honest (kind : BufferKind) (rest : Inbound) (resource : Bytes) : Prop :=
  match kind with
  | .noLength _ => .eof ∈ rest → payload rest = resource
  | .fixLength n => n ≤ (payload rest).length → (payload rest).take n = resource
  | .chunked _ => resource = []

/-- What comes behind the head on this connection is the resource. -/
def Stream.Honest (stream : Stream) (resource : Bytes) : Prop :=
  ∀ buffer rest, arrival stream.inbound = some (buffer, rest) → buffer.kind.Honest rest resource

instance (response : Response) (resource : Bytes) : Decidable (response.Announces resource) :=
  match h : extractSize (response.get "Content-Length") with
  | none => .isTrue fun n hn => by rw [h] at hn; cases hn
  | some n => decidable_of_iff (n = resource.length ∧ n < 2 ^ 63)
      ⟨fun hn m hm => Option.some.inj (h.symm.trans hm) ▸ hn, fun hall => hall n h⟩

instance (kind : BufferKind) (rest : Inbound) (resource : Bytes) :
    Decidable (kind.Honest rest resource) :=
  match kind with
  | .noLength _ => inferInstanceAs (Decidable (.eof ∈ rest → payload rest = resource))
  | .fixLength n =>
    inferInstanceAs (Decidable (n ≤ (payload rest).length → (payload rest).take n = resource))
  | .chunked _ => inferInstanceAs (Decidable (resource = []))

instance (stream : Stream) (resource : Bytes) : Decidable (stream.Honest resource) :=
  match h : arrival stream.inbound with
  | none => .isTrue fun buffer rest harrival => by rw [h] at harrival; cases harrival
  | some (buffer, rest) =>
    decidable_of_iff (buffer.kind.Honest rest resource)
      ⟨fun hbody _ _ harrival => by
          obtain ⟨rfl, rfl⟩ := Prod.mk.inj (Option.some.inj (h.symm.trans harrival))
          exact hbody,
        fun hall => hall buffer rest h⟩

/-- What is handed on of a body that has come to its end. -/
lemma Stream.Honest.delivered_eq {stream : Stream} {resource : Bytes} {buffer : Buffer}
    {rest : Inbound} (h : stream.Honest resource)
    (harrival : arrival stream.inbound = some (buffer, rest))
    (harrived : Arrived buffer.kind rest) : delivered stream.inbound = resource := by
  have hbody := h buffer rest harrival
  rw [Cld.delivered_eq harrival]
  cases hkind : buffer.kind with
  | noLength finished =>
    rw [hkind] at hbody harrived
    exact hbody harrived
  | fixLength n =>
    rw [hkind] at hbody harrived
    exact hbody harrived
  | chunked r =>
    rw [hkind] at hbody
    exact Eq.symm hbody

lemma write_empty (resource : Bytes) :
    File.write (fun _ => none) 0 resource = byteAt resource := by
  funext k
  by_cases hk : 0 ≤ k ∧ k < 0 + resource.length
  · rw [File.write_of_mem _ _ hk, byteAt, if_pos hk.1, sub_zero]
  · rw [File.write_of_notMem _ _ hk]
    by_cases hpos : 0 ≤ k
    · rw [byteAt_of_le (by omega)]
    · rw [byteAt_of_neg (by omega)]

namespace Program

variable {s s' : Program} {event : Event} {events : List Event} {options : Options} {url : Url}
  {output : Bytes} {file : File} {resource : Bytes}

/-- The call of `process` in this step writes all or nothing, and its connection is not refused. -/
def Connected (label : SingleLabel) : Prop :=
  match label with
  | .process env => Unshort env.fileWrites ∧ env.connect ≠ .failed ∧ env.modConnected = true
  | _ => True

instance (label : SingleLabel) : Decidable (Connected label) :=
  match label with
  | .wait _ => inferInstanceAs (Decidable True)
  | .process _ => inferInstanceAs (Decidable (_ ∧ _ ≠ _ ∧ _ = _))
  | .clock _ => inferInstanceAs (Decidable True)

/-- What is assumed of the peers and the system in a step. -/
def Trusted (resource : Bytes) (s : Program) (event : Event) : Prop :=
  match s, event with
  | .looking r, .opening o =>
    (∀ request response, r.phase = .found request response → response.Announces resource) ∧
      ∀ stream, o.connection = .ok stream → stream.Honest resource
  | .single _ _, .single label => Connected label
  | .multi _ _ loop, .multi label => loop.Faithful resource label ∧ Download.WritesAll label
  | _, _ => True

instance decidableFound (P : Response → Prop) [DecidablePred P] (phase : Phase) :
    Decidable (∀ request response, phase = .found request response → P response) :=
  phase.casesOn (.isTrue fun _ _ h => Phase.noConfusion h)
    (fun request response => decidable_of_iff (P response)
      ⟨fun hres _ _ h => (Phase.found.inj h).2 ▸ hres, fun hall => hall request response rfl⟩)
    fun _ => .isTrue fun _ _ h => Phase.noConfusion h

instance decidableOk {ε α : Type} (P : α → Prop) [DecidablePred P] (result : Except ε α) :
    Decidable (∀ a, result = .ok a → P a) :=
  result.casesOn (fun _ => .isTrue fun _ h => by cases h)
    fun a => decidable_of_iff (P a)
      ⟨fun ha _ h => Except.ok.inj h ▸ ha, fun hall => hall a rfl⟩

instance decidableTrusted (resource : Bytes) :
    ∀ (s : Program) (event : Event), Decidable (Trusted resource s event)
  | .looking r, .opening o =>
    inferInstanceAs (Decidable
      ((∀ request response, r.phase = .found request response → response.Announces resource) ∧
        ∀ stream, o.connection = .ok stream → stream.Honest resource))
  | .single _ _, .single label => inferInstanceAs (Decidable (Connected label))
  | .multi _ _ loop, .multi label =>
    inferInstanceAs (Decidable (loop.Faithful resource label ∧ Download.WritesAll label))
  | .looking _, .contact _ => .isTrue trivial
  | .looking _, .single _ => .isTrue trivial
  | .looking _, .multi _ => .isTrue trivial
  | .single _ _, .contact _ => .isTrue trivial
  | .single _ _, .opening _ => .isTrue trivial
  | .single _ _, .multi _ => .isTrue trivial
  | .multi _ _ _, .contact _ => .isTrue trivial
  | .multi _ _ _, .opening _ => .isTrue trivial
  | .multi _ _ _, .single _ => .isTrue trivial
  | .finished _ _, _ => .isTrue trivial
  | .failed _, _ => .isTrue trivial

/-- **The invariant of the program.** -/
inductive Sound (resource : Bytes) : Program → Prop
  | looking (r : Redirection) : Sound resource (.looking r)
  | single (output : Bytes) (request : Request) (stream : Stream) (now : ℤ)
      (labels : List SingleLabel) (loop : Single) (hhonest : stream.Honest resource)
      (hlabels : ∀ label ∈ labels, Connected label)
      (hrun : Transition.run Single.step (Single.init request stream now) labels = some loop) :
      Sound resource (.single output loop)
  | multi (output : Bytes) (cfg : Config) (node : NodePtr) (now : ℤ) (labels : List Label)
      (loop : Download) (hsize : cfg.size = resource.length)
      (hgood : Transition.Always Download.step (Download.Faithful resource)
        (Download.init cfg node now) labels)
      (hwrites : ∀ label ∈ labels, Download.WritesAll label)
      (hrun : Transition.run Download.step (Download.init cfg node now) labels = some loop) :
      Sound resource (.multi output cfg loop)
  | finished (output : Bytes) (file : File)
      (hfile : file = byteAt resource ∨ file = byteAt resource.dropLast) :
      Sound resource (.finished output file)
  | failed (fault : Fault) : Sound resource (.failed fault)

/-! ## Between the loops -/

lemma sound_begin {request : Request} {response : Response} {o : Opening}
    (hannounces : response.Announces resource)
    (hhonest : ∀ stream, o.connection = .ok stream → stream.Honest resource) :
    Sound resource (begin options request response o) := by
  unfold begin
  cases openOutput options o with
  | error e => exact .failed _
  | ok options =>
    simp only
    unfold enter
    cases o.epoll with
    | some e => exact .failed _
    | none =>
      simp only
      unfold selectDownload
      cases hsize : extractSize (response.get "Content-Length") with
      | none =>
        cases hconnection : o.connection with
        | error e => exact .failed _
        | ok stream =>
          exact .single _ _ stream _ [] _ (hhonest stream hconnection)
            (fun _ hlabel => absurd hlabel List.not_mem_nil) rfl
      | some n =>
        obtain ⟨rfl, hfits⟩ := hannounces n hsize
        refine .multi _ _ o.node o.now [] _ ?_ trivial
          (fun _ hlabel => absurd hlabel List.not_mem_nil) rfl
        exact if_pos hfits

/-! ## The downloads -/

/-- A single download that has returned. -/
lemma single_done {request : Request} {stream : Stream} {now : ℤ} {labels : List SingleLabel}
    {loop : Single} (hhonest : stream.Honest resource)
    (hlabels : ∀ label ∈ labels, Connected label)
    (hrun : Transition.run Single.step (Single.init request stream now) labels = some loop)
    (hdone : loop.pc = .done) : loop.file = byteAt resource := by
  have hwrites : ∀ env, SingleLabel.process env ∈ labels → Unshort env.fileWrites :=
    fun env henv => (hlabels _ henv).1
  obtain ⟨-, -, hends⟩ := Single.fetched hwrites hrun
  rcases hends hdone with ⟨⟨env, henv, hrefused⟩, -⟩ | ⟨hfile, buffer, rest, harrival, harrived⟩
  · obtain ⟨-, hconnect, hmod⟩ := hlabels _ henv
    rcases hrefused with hfailed | hfailed
    · exact absurd hfailed hconnect
    · exact absurd (hfailed.symm.trans hmod) Bool.false_ne_true
  · rw [hfile, hhonest.delivered_eq harrival harrived, write_empty]

lemma sound_ofSingle {request : Request} {stream : Stream} {now : ℤ} {labels : List SingleLabel}
    {loop : Single} (output : Bytes) (hhonest : stream.Honest resource)
    (hlabels : ∀ label ∈ labels, Connected label)
    (hrun : Transition.run Single.step (Single.init request stream now) labels = some loop) :
    Sound resource (ofSingle output loop) := by
  unfold ofSingle
  split
  · next hdone => exact .finished _ _ (Or.inl (single_done hhonest hlabels hrun hdone))
  · exact .failed _
  · exact .single _ _ _ _ labels loop hhonest hlabels hrun

lemma sound_ofMulti {cfg : Config} {node : NodePtr} {now : ℤ} {labels : List Label}
    {loop : Download} (output : Bytes) (hsize : cfg.size = resource.length)
    (hgood : Transition.Always Download.step (Download.Faithful resource)
      (Download.init cfg node now) labels)
    (hwrites : ∀ label ∈ labels, Download.WritesAll label)
    (hrun : Transition.run Download.step (Download.init cfg node now) labels = some loop) :
    Sound resource (ofMulti output cfg loop) := by
  unfold ofMulti
  split
  · next hdone =>
    obtain ⟨hwhole, hshort⟩ := Download.file_of_done hsize hgood hwrites hrun hdone
    by_cases hreached : Transition.Sometime Download.step (Download.ReachesEnd cfg.size)
        (Download.init cfg node now) labels
    · exact .finished _ _ (Or.inl (hwhole hreached))
    · exact .finished _ _ (Or.inr (hshort hreached))
  · exact .failed _
  · exact .multi _ _ _ _ labels loop hsize hgood hwrites hrun

/-- **One step.** -/
lemma Sound.step (h : Sound resource s) (htrusted : Trusted resource s event)
    (hstep : s.step event = some s') : Sound resource s' := by
  cases h with
  | looking r =>
    cases event with
    | contact contact =>
      obtain ⟨r', -, rfl⟩ := Option.map_eq_some_iff.1 hstep
      unfold ofRedirection
      split
      · exact .failed _
      · exact .looking r'
    | opening o =>
      unfold Program.step at hstep
      simp only at hstep
      split at hstep
      · next request response hphase =>
        obtain rfl := Option.some.inj hstep
        exact sound_begin (htrusted.1 request response hphase) htrusted.2
      · cases hstep
    | single label => cases hstep
    | multi label => cases hstep
  | single output request stream now labels loop hhonest hlabels hrun =>
    cases event with
    | contact contact => cases hstep
    | opening o => cases hstep
    | single label =>
      obtain ⟨loop', hloop, rfl⟩ := Option.map_eq_some_iff.1 hstep
      have hlabels' := List.forall_mem_append.2 ⟨hlabels, List.forall_mem_singleton.2 htrusted⟩
      exact sound_ofSingle output hhonest hlabels' (Transition.run_concat hrun hloop)
    | multi label => cases hstep
  | multi output cfg node now labels loop hsize hgood hwrites hrun =>
    cases event with
    | contact contact => cases hstep
    | opening o => cases hstep
    | single label => cases hstep
    | multi label =>
      obtain ⟨loop', hloop, rfl⟩ := Option.map_eq_some_iff.1 hstep
      have hwrites' := List.forall_mem_append.2 ⟨hwrites, List.forall_mem_singleton.2 htrusted.2⟩
      exact sound_ofMulti output hsize (Transition.always_concat hgood hrun htrusted.1) hwrites'
        (Transition.run_concat hrun hloop)
  | finished output file hfile =>
    cases event with
    | contact contact => cases hstep
    | opening o => cases hstep
    | single label => cases hstep
    | multi label => cases hstep
  | failed fault =>
    cases event with
    | contact contact => cases hstep
    | opening o => cases hstep
    | single label => cases hstep
    | multi label => cases hstep

lemma Sound.run
    (htrusted : Transition.Always Program.step (Trusted resource) (start options url) events)
    (hrun : Transition.run Program.step (start options url) events = some s) : Sound resource s :=
  Transition.run_invariant_of_always (fun _ _ _ h htrusted hstep => Sound.step h htrusted hstep)
    (.looking { options := options, url := url }) htrusted hrun

/-- **The program saves the resource.**  In every run from the first request on, along any chain of
redirects and with either kind of download: if the last `HEAD` response is right about the length
(or says nothing about it), the answers match the resource and no range comes with a head that is
suspended in a harmful place, no write is short (nor fails, with many connections), and a single
connection is not refused and its answer not chunked, then the file is the resource when the program
says "Finished", or it is the resource without its last byte. -/
theorem saves_resource
    (htrusted : Transition.Always step (Trusted resource) (start options url) events)
    (hrun : Transition.run step (start options url) events = some (.finished output file)) :
    file = byteAt resource ∨ file = byteAt resource.dropLast := by
  have hsound := Sound.run htrusted hrun
  cases hsound with
  | finished output file hfile => exact hfile

/-- The resource is found at once, and its two bytes are fetched over one connection. -/
def twoBytes : List Event :=
  [.contact (.answered ((bytes "HTTP/1.1 200 OK\r\nContent-Length: 2\r\n\r\n").map
      (.byte · false))),
    .opening { temporary := bytes "cld_0", connection := .error .systemError, node := 0, now := 0 }]
    ++ (Download.fetchTwo [.byte 65 false, .byte 66 false]).map .multi

/-- They are saved in `cld_0`, the URL having no path. -/
theorem saves_two_bytes : ∃ file,
    Transition.run step
        (start { connectionsNumber := 1 } { scheme := bytes "http", host := bytes "h" }) twoBytes =
      some (.finished (bytes "cld_0") file) ∧
    (file = byteAt [65, 66] ∨ file = byteAt [65]) := by
  have hkey : (Transition.run step
      (start { connectionsNumber := 1 } { scheme := bytes "http", host := bytes "h" })
        twoBytes).bind (fun s => match s with | .finished output _ => some output | _ => none) =
      some (bytes "cld_0") := by decide +kernel
  obtain ⟨s, hrun, hoption⟩ := Option.bind_eq_some_iff.1 hkey
  cases s with
  | finished output file =>
    obtain rfl := Option.some.inj hoption
    exact ⟨file, hrun, saves_resource (by decide +kernel) hrun⟩
  | looking r => cases hoption
  | single output loop => cases hoption
  | multi output cfg loop => cases hoption
  | failed fault => cases hoption

end Program

end Cld
