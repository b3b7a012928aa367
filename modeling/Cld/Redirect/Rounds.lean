import Cld.Model.Redirect

/-!
# One round of the loop

What a round does, said once.  Naming the output never fails, and neither does keeping a cookie,
whose name and value are not empty where it is tried; a round therefore comes to what the
connection comes to (`Contact.outcome`), and `step_looking` and `settle_eq` give the state after
it in terms of the options that are only renamed (`named`) or only given a cookie (`withCookie`).
-/

namespace Cld

open Framework

/-- What the program has of a connection: a response or an exception, and nothing if the read or
the constructor of the `Response` does not return. -/
def Contact.outcome : Contact → Option (Except Exn Response)
  | .failed e => some (.error e)
  | .answered inbound =>
    match ReadToResponse inbound with
    | .blocks => none
    | .threw e => some (.error e)
    | .response data _ => Response.parse data

/-- Whether the loop is at its head. -/
def Phase.isLooking : Phase → Bool
  | .looking => true
  | _ => false

lemma Phase.isLooking_iff {phase : Phase} : phase.isLooking = true ↔ phase = .looking := by
  cases phase <;> simp [isLooking]

def kCookie : Bytes := bytes "Cookie"

namespace Options

/-- The options once the output has been named. -/
def named (o : Options) (url : Url) : Options :=
  if o.outputPath = [] ∧ lastComponent url.path ≠ [] then
    { o with outputPath := lastComponent url.path }
  else o

/-- The options once the cookie of a response has been kept. -/
def withCookie (o : Options) (response : Response) : Options :=
  if response.get "Set-Cookie" ≠ [] then
    o.insertHeader kCookie (response.get "Set-Cookie")
  else o

lemma nameOutput_eq (o : Options) (url : Url) : nameOutput o url = .ok (o.named url) := by
  unfold nameOutput named setOutputPath
  by_cases h : o.outputPath = [] ∧ lastComponent url.path ≠ []
  · rw [if_pos h, if_pos h, if_pos h.2]
  · rw [if_neg h, if_neg h]

lemma keepCookie_eq (o : Options) (response : Response) :
    keepCookie o response = .ok (o.withCookie response) := by
  unfold keepCookie withCookie addExtraHeader
  split_ifs with h hempty
  · exact absurd hempty (not_or.2 ⟨by decide, h⟩)
  · rfl
  · rfl

@[simp] lemma named_extraHeaders (o : Options) (url : Url) :
    (o.named url).extraHeaders = o.extraHeaders := by
  unfold named
  split_ifs <;> rfl

@[simp] lemma named_userAgent (o : Options) (url : Url) :
    (o.named url).userAgent = o.userAgent := by
  unfold named
  split_ifs <;> rfl

@[simp] lemma withCookie_userAgent (o : Options) (response : Response) :
    (o.withCookie response).userAgent = o.userAgent := by
  unfold withCookie
  split_ifs <;> rfl

lemma withCookie_extraHeaders (o : Options) (response : Response) :
    (o.withCookie response).extraHeaders =
      if response.get "Set-Cookie" ≠ [] then
        SortedMap.insertNew bytesLt kCookie (response.get "Set-Cookie") o.extraHeaders
      else o.extraHeaders := by
  unfold withCookie
  split_ifs <;> rfl

end Options

/-- A request depends on the user agent and the extra headers alone. -/
lemma Request.create_congr {o o' : Options} (hagent : o.userAgent = o'.userAgent)
    (hheaders : o.extraHeaders = o'.extraHeaders) (method : Bytes) (url : Url) :
    create method url o = create method url o' := by
  unfold create
  rw [hagent, hheaders]

namespace Redirection

variable {s : Redirection} {contact : Contact}

/-- The state in which the request of the round is built. -/
def named (s : Redirection) : Redirection := { s with options := s.options.named s.url }

@[simp] lemma named_headRequest (s : Redirection) : s.named.headRequest = s.headRequest :=
  Request.create_congr (s.options.named_userAgent s.url) (s.options.named_extraHeaders s.url) _ _

lemma settle_eq (s : Redirection) (request : Request) (response : Response) :
    s.settle request response =
      match analyse s.url response with
      | .error e => { s with phase := .failed e }
      | .ok (find, url) =>
        { options := s.options.withCookie response
          url := url
          phase := if find then .found request response else .looking } := by
  unfold settle
  cases analyse s.url response with
  | error e => rfl
  | ok found => simp only [Options.keepCookie_eq]

/-- **What a round does.** -/
lemma step_looking (h : s.phase = .looking) (contact : Contact) :
    s.step contact = contact.outcome.map fun
      | .error e => { s.named with phase := .failed e }
      | .ok response => s.named.settle s.headRequest response := by
  have hnamed : ({ options := s.options.named s.url, url := s.url } : Redirection) = s.named := by
    unfold named
    rw [h]
  unfold step
  rw [h]
  simp only [Options.nameOutput_eq, hnamed]
  cases contact with
  | failed e => rfl
  | answered inbound =>
    simp only [Contact.outcome]
    cases hread : ReadToResponse inbound with
    | blocks => rfl
    | threw e => rfl
    | response data unread =>
      simp only
      cases hparse : Response.parse data with
      | none => rfl
      | some result =>
        cases result with
        | error e => rfl
        | ok response => simp only [Option.map_some, named_headRequest]

lemma step_of_not_looking (h : s.phase ≠ .looking) (contact : Contact) :
    s.step contact = none := by
  unfold step
  split
  · next hphase => exact absurd hphase h
  · rfl

/-- **The inversion of a round.**  It ends the loop with an exception, or with the resource; or
it follows a redirect, and only then the loop goes on. -/
lemma step_cases {s' : Redirection} (hstep : s.step contact = some s') :
    s.phase = .looking ∧
      ((∃ e, s'.phase = .failed e) ∨
        ∃ response find url, contact.outcome = some (.ok response) ∧
          analyse s.url response = .ok (find, url) ∧
          s' = { options := s.named.options.withCookie response
                 url := url
                 phase := if find then .found s.headRequest response else .looking }) := by
  have hphase : s.phase = .looking := by
    by_contra hnot
    rw [step_of_not_looking hnot] at hstep
    cases hstep
  rw [step_looking hphase] at hstep
  obtain ⟨result, houtcome, rfl⟩ := Option.map_eq_some_iff.1 hstep
  refine ⟨hphase, ?_⟩
  cases result with
  | error e => exact Or.inl ⟨e, rfl⟩
  | ok response =>
    simp only [settle_eq]
    cases hanalyse : analyse s.named.url response with
    | error e => exact Or.inl ⟨e, rfl⟩
    | ok found =>
      obtain ⟨find, url⟩ := found
      exact Or.inr ⟨response, find, url, houtcome, hanalyse, rfl⟩

end Redirection

end Cld
