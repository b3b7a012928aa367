import Cld.Program.Resource
import Cld.Wire.Exchange

/-!
# From the command line to the file

The whole program, from its arguments on, together with the servers it talks to: what
`saves_resource` says of a program whose answers are `Trusted`, without assuming anything about the
requests of the program itself.

But for a user agent with a line end in it, which is excluded by a hypothesis, nothing on the way
from the arguments over a chain of redirects to the workers puts anything into a request that a
server would read differently, so the bytes of a worker always ask for a range that begins where the
worker writes (`Prepared`).  What is assumed of the servers of ranges is then that they answer the
requests they get, with heads that are not suspended in a harmful place.

The `HEAD` response is still believed about the length, and a body that is fetched over a single
connection is still believed to be the resource when it comes to its end, and not to be chunked;
neither is asked for by offsets.
-/

namespace Cld

open Framework

namespace Program

variable {s s' : Program} {event : Event} {events : List Event} {resource : Bytes}

/-- What the servers and the system do in a step. -/
def Served (resource : Bytes) (s : Program) (event : Event) : Prop :=
  match s, event with
  | .looking r, .opening o =>
    (∀ request response, r.phase = .found request response → response.Announces resource) ∧
      ∀ stream, o.connection = .ok stream → stream.Honest resource
  | .single _ _, .single label => Connected label
  | .multi _ _ loop, .multi label => loop.Served resource label
  | _, _ => True

/-- What the program itself takes care of, by the place where it is. -/
inductive Prepared : Program → Prop
  | looking (r : Redirection) (hclean : r.Clean) : Prepared (.looking r)
  | single (output : Bytes) (loop : Single) : Prepared (.single output loop)
  | multi (output : Bytes) (cfg : Config) (loop : Download) (hclean : cfg.request.Clean)
      (hsize : 1 ≤ cfg.size) (hinv : Download.Served.Invariant cfg loop) :
      Prepared (.multi output cfg loop)
  | finished (output : Bytes) (file : File) : Prepared (.finished output file)
  | failed (fault : Fault) : Prepared (.failed fault)

lemma prepared_ofRedirection {r : Redirection} (hclean : r.Clean) :
    Prepared (ofRedirection r) := by
  unfold ofRedirection
  split
  · exact .failed _
  · exact .looking r hclean

lemma prepared_ofSingle (output : Bytes) (loop : Single) : Prepared (ofSingle output loop) := by
  unfold ofSingle
  split
  · exact .finished _ _
  · exact .failed _
  · exact .single _ _

lemma prepared_ofMulti {cfg : Config} {loop : Download} (output : Bytes)
    (hclean : cfg.request.Clean) (hsize : 1 ≤ cfg.size)
    (hinv : Download.Served.Invariant cfg loop) : Prepared (ofMulti output cfg loop) := by
  unfold ofMulti
  split
  · exact .finished _ _
  · exact .failed _
  · exact .multi _ _ _ hclean hsize hinv

/-- A download begins with a clean request, and with the size that was announced. -/
lemma prepared_begin {options : Options} {request : Request} {response : Response} {o : Opening}
    (hrequest : request.Clean) (hannounces : response.Announces resource) (hne : resource ≠ []) :
    Prepared (begin options request response o) := by
  unfold begin
  cases openOutput options o with
  | error e => exact .failed _
  | ok options =>
    simp only
    unfold enter
    cases o.epoll with
    | some e => exact .failed _
    | none =>
      simp only
      cases hselect : selectDownload options request response with
      | single get =>
        cases o.connection with
        | error e => exact .failed _
        | ok stream => exact .single _ _
      | multi cfg =>
        have hclean := (Redirection.clean_get hrequest).2 cfg hselect
        refine .multi _ _ _ hclean ?_ (Download.Served.invariant_init cfg o.node o.now)
        unfold selectDownload at hselect
        cases hsize : extractSize (response.get "Content-Length") with
        | none =>
          rw [hsize] at hselect
          cases hselect
        | some n =>
          rw [hsize] at hselect
          obtain rfl := Selected.multi.inj hselect
          obtain ⟨rfl, hfits⟩ := hannounces n hsize
          have hpos : 0 < resource.length := List.length_pos_iff.2 hne
          have hoff : toOff resource.length = resource.length := if_pos hfits
          show 1 ≤ toOff resource.length
          omega

/-- **One step.** -/
lemma Prepared.step (h : Prepared s) (hne : resource ≠ []) (hserved : Served resource s event)
    (hstep : s.step event = some s') : Prepared s' := by
  cases h with
  | looking r hclean =>
    cases event with
    | contact contact =>
      obtain ⟨r', hr', rfl⟩ := Option.map_eq_some_iff.1 hstep
      exact prepared_ofRedirection (hclean.step hr')
    | opening o =>
      unfold Program.step at hstep
      simp only at hstep
      split at hstep
      · next request response hphase =>
        obtain rfl := Option.some.inj hstep
        exact prepared_begin (hclean.found request response hphase)
          (hserved.1 request response hphase) hne
      · cases hstep
    | single label => cases hstep
    | multi label => cases hstep
  | single output loop =>
    cases event with
    | contact contact => cases hstep
    | opening o => cases hstep
    | single label =>
      obtain ⟨loop', -, rfl⟩ := Option.map_eq_some_iff.1 hstep
      exact prepared_ofSingle output loop'
    | multi label => cases hstep
  | multi output cfg loop hclean hsize hinv =>
    cases event with
    | contact contact => cases hstep
    | opening o => cases hstep
    | single label => cases hstep
    | multi label =>
      obtain ⟨loop', hloop, rfl⟩ := Option.map_eq_some_iff.1 hstep
      exact prepared_ofMulti output hclean hsize (hinv.step hsize hloop)
  | finished output file =>
    cases event with
    | contact contact => cases hstep
    | opening o => cases hstep
    | single label => cases hstep
    | multi label => cases hstep
  | failed fault =>
    cases event with
    | contact contact => cases hstep
    | opening o => cases hstep
    | single label => cases hstep
    | multi label => cases hstep

/-- Servers that answer what they are asked are trusted. -/
lemma Prepared.trusted (h : Prepared s) (hserved : Served resource s event) :
    Trusted resource s event := by
  cases h with
  | looking r hclean => cases event <;> exact hserved
  | single output loop => cases event <;> exact hserved
  | multi output cfg loop hclean hsize hinv =>
    cases event with
    | contact contact => exact trivial
    | opening o => exact trivial
    | single label => exact trivial
    | multi label => exact ⟨Download.Served.faithful hserved hclean hinv.asking, hserved.2⟩
  | finished output file => exact trivial
  | failed fault => exact trivial

/-- **The program fetches what it is asked for.**  In every run from the command line on, along any
chain of redirects and whatever headers and cookies they add, about a resource that is not empty and
with no CR or LF in the user agents that are given: if the last `HEAD` response is right about the
length, every server of a range answers the one that it reads off the bytes of the request (or sends
everything where the range begins with the first byte, or no body), in a reply that may break off
anywhere and whose head is not suspended between its last CR and LF, a single connection is not
refused and its answer is honest and not chunked, and every write is complete (over a single
connection it may also fail), then the file is the resource when the program says "Finished", or it
is the resource without its last byte. -/
theorem fetches_resource {args : List CommandOption} {options : Options} {urlString : Bytes}
    {url : Url} {output : Bytes} {file : File}
    (hargs : Options.readOptions {} args = .ok (some options))
    (hagent : ∀ str, .userAgent str ∈ args → CR ∉ str ∧ LF ∉ str)
    (hurl : Url.parse urlString = .ok url) (hne : resource ≠ [])
    (hserved : Transition.Always step (Served resource) (start options url) events)
    (hrun : Transition.run step (start options url) events = some (.finished output file)) :
    file = byteAt resource ∨ file = byteAt resource.dropLast := by
  have hoptions : options.Clean :=
    Options.clean_default.readOptions (fun str hstr => ⟨(hagent str hstr).1, (hagent str hstr).2⟩)
      hargs
  have hprepared : Prepared (start options url) :=
    .looking _ ⟨hoptions, Url.clean_of_parse hurl, fun _ _ h => Phase.noConfusion h⟩
  have htrusted : Transition.Always step (Trusted resource) (start options url) events :=
    Transition.always_of_invariant (fun _ _ _ h hserved hstep => Prepared.step h hne hserved hstep)
      (fun _ _ h hserved => Prepared.trusted h hserved) hprepared hserved
  have hsound := Sound.run htrusted hrun
  cases hsound with
  | finished output file hfile => exact hfile

/-- The loop with many connections, where the program is in it, and the label of its next step. -/
def inLoop (s : Program) (event : Event) : Option (Download × Label) :=
  match s, event with
  | .multi _ _ loop, .multi label => some (loop, label)
  | _, _ => none

/-- The request of the only worker. -/
def hRequest : Request :=
  (Request.create (bytes "GET") { scheme := bytes "http", host := bytes "h" } {}).set "Range"
    (rangeValue 0 1)

/-- The program is called with `-n 1 http://h`. -/
theorem fetches_two_bytes : ∃ options url file,
    Options.readOptions {} [.numConnections (bytes "1")] = .ok (some options) ∧
    Url.parse (bytes "http://h") = .ok url ∧
    Transition.run step (start options url) twoBytes = some (.finished (bytes "cld_0") file) ∧
    (file = byteAt [65, 66] ∨ file = byteAt [65]) := by
  have hargs : Options.readOptions {} [.numConnections (bytes "1")] =
      .ok (some { connectionsNumber := 1 }) := rfl
  have hurl : Url.parse (bytes "http://h") = .ok { scheme := bytes "http", host := bytes "h" } := by
    decide +kernel
  have hkey : (Transition.run step
      (start { connectionsNumber := 1 } { scheme := bytes "http", host := bytes "h" })
        twoBytes).bind (fun s => match s with | .finished output _ => some output | _ => none) =
      some (bytes "cld_0") := by decide +kernel
  obtain ⟨s, hrun, hoption⟩ := Option.bind_eq_some_iff.1 hkey
  -- the one request of the download, and the one reply
  have hreply : Reply.Satisfies [65, 66] hRequest.request ⟨Download.partialHead, [65, 66]⟩ :=
    .range 0 1 (by decide +kernel) rfl rfl
  have hwire : Transition.Always step
      (fun s event => Trusted [65, 66] s event ∧ ∀ now ∈ inLoop s event,
        now.1.Exchanges hRequest.request ⟨Download.partialHead, [65, 66]⟩ now.2)
      (start { connectionsNumber := 1 } { scheme := bytes "http", host := bytes "h" })
      twoBytes := by
    decide +kernel
  have hserved : Transition.Always step (Served [65, 66])
      (start { connectionsNumber := 1 } { scheme := bytes "http", host := bytes "h" })
      twoBytes := by
    apply Transition.always_of_invariant (P := fun _ => True) _ _ trivial hwire
    · exact fun _ _ _ _ _ _ => trivial
    · rintro s event - ⟨htrusted, hexchanges⟩
      cases s with
      | looking r => cases event <;> exact htrusted
      | single output loop => cases event <;> exact htrusted
      | multi output cfg loop =>
        cases event with
        | multi label => exact (hexchanges _ rfl).served hreply
        | contact contact => exact trivial
        | opening o => exact trivial
        | single label => exact trivial
      | finished output file => exact trivial
      | failed fault => exact trivial
  cases s with
  | finished output file =>
    obtain rfl := Option.some.inj hoption
    exact ⟨_, _, file, hargs, hurl, hrun,
      fetches_resource hargs (by simp) hurl (List.cons_ne_nil _ _) hserved hrun⟩
  | looking r => cases hoption
  | single output loop => cases hoption
  | multi output cfg loop => cases hoption
  | failed fault => cases hoption

end Program

end Cld
