import Cld.Framework.Orbit
import Cld.Redirect.Cookies

/-!
# When following redirects ends

The loop has no limit of its own: it goes on as long as a redirect answers.  A server is a
function from the request and the URL it is sent to, and the loop is then the orbit of its first
state.

What decides the next round is the URL and the request.  Along one chain they decide it for ever,
since the extra headers are only ever given one cookie, which shows in the request
(`determined`).  So the loop ends if and only if it does not meet the same request twice and asks
for finitely many URLs (`redirects_end_iff`).
-/

namespace Cld

open Framework

/-- What each request comes to, at each URL.  There is an answer, and the constructor of the
`Response` returns. -/
structure Server where
  contact : Url → Request → Contact
  replies : ∀ url request, (contact url request).outcome ≠ none

namespace Redirection

/-- One round of the loop with this server. -/
def round (server : Server) (s : Redirection) : Option Redirection :=
  s.step (server.contact s.url s.headRequest)

/-- The state after `n` rounds. -/
def after (server : Server) (s : Redirection) (n : ℕ) : Option Redirection :=
  Orbit.orbit (round server) s n

/-- The loop is left, with a resource or with an exception. -/
def Ends (server : Server) (s : Redirection) : Prop :=
  ∃ n t, after server s n = some t ∧ t.phase ≠ .looking

/-- The `HEAD` request of round `n`, and the URL it is sent to. -/
def Asks (server : Server) (s : Redirection) (n : ℕ) (url : Url) (request : Request) : Prop :=
  ∃ t, after server s n = some t ∧ t.phase = .looking ∧ t.url = url ∧ t.headRequest = request

section Orbit

variable {server : Server} {s t u : Redirection}

/-- What the server sees of a round. -/
def seen (s : Redirection) : Url × Request := (s.url, s.headRequest)

lemma round_live (server : Server) (t : Redirection) :
    t.phase = .looking ↔ ∃ u, round server t = some u := by
  constructor
  · intro hphase
    obtain ⟨result, hresult⟩ :=
      Option.ne_none_iff_exists'.1 (server.replies t.url t.headRequest)
    unfold round
    rw [step_looking hphase, hresult]
    exact ⟨_, rfl⟩
  · rintro ⟨u, hu⟩
    exact (step_cases hu).1

/-- The extra headers after a round: as they were, or with the one cookie that is kept. -/
lemma round_extraHeaders (hphase : u.phase = .looking) (h : round server t = some u) :
    u.options.userAgent = t.options.userAgent ∧
      (SortedMap.find t.options.extraHeaders kCookie ≠ none →
        u.options.extraHeaders = t.options.extraHeaders) ∧
      (SortedMap.find u.options.extraHeaders kCookie = none →
        u.options.extraHeaders = t.options.extraHeaders) := by
  obtain ⟨-, ⟨e, hfailed⟩ | ⟨response, find, url, -, -, rfl⟩⟩ := step_cases h
  · rw [hfailed] at hphase
    cases hphase
  · refine ⟨?_, ?_, ?_⟩
    · simp [named]
    · intro hsome
      simp only [Options.withCookie_extraHeaders, named, Options.named_extraHeaders]
      split_ifs
      · rw [SortedMap.insertNew, if_pos (Option.isSome_iff_ne_none.2 hsome)]
      · rfl
    · intro hnone
      simp only [Options.withCookie_extraHeaders, named, Options.named_extraHeaders] at hnone ⊢
      split_ifs at hnone ⊢
      · have hstored := SortedMap.find_insertNew bytesLt t.options.extraHeaders kCookie kCookie
          (response.get "Set-Cookie")
        rw [if_pos rfl] at hstored
        exact absurd (hnone.symm.trans hstored) (by simp)
      · rfl

/-- Along a chain the user agent stays, and so do the extra headers until there is a cookie. -/
lemma after_extraHeaders {n : ℕ} (h : after server s n = some t) (hphase : t.phase = .looking) :
    t.options.userAgent = s.options.userAgent ∧
      (SortedMap.find t.options.extraHeaders kCookie = none →
        t.options.extraHeaders = s.options.extraHeaders) := by
  have hinv : t.phase = .looking → t.options.userAgent = s.options.userAgent ∧
      (SortedMap.find t.options.extraHeaders kCookie = none →
        t.options.extraHeaders = s.options.extraHeaders) := by
    apply Orbit.orbit_invariant (P := fun t => t.phase = .looking →
      t.options.userAgent = s.options.userAgent ∧
        (SortedMap.find t.options.extraHeaders kCookie = none →
          t.options.extraHeaders = s.options.extraHeaders)) _ _ h
    · intro t u ht hround hu
      obtain ⟨hagent, hheaders⟩ := ht ((round_live server t).2 ⟨u, hround⟩)
      obtain ⟨hagent', -, hnone⟩ := round_extraHeaders hu hround
      refine ⟨hagent'.trans hagent, ?_⟩
      intro hfind
      have hsame := hnone hfind
      rw [hsame] at hfind ⊢
      exact hheaders hfind
    · intro _
      exact ⟨rfl, fun _ => rfl⟩
  exact hinv hphase

/-- Once there is a cookie they stay. -/
lemma after_extraHeaders_of_cookie {m n : ℕ} (hmn : m ≤ n) (ht : after server s m = some t)
    (hsome : SortedMap.find t.options.extraHeaders kCookie ≠ none)
    (hu : after server s n = some u) (hphase : u.phase = .looking) :
    u.options.extraHeaders = t.options.extraHeaders := by
  have hinv : u.phase = .looking → u.options.extraHeaders = t.options.extraHeaders := by
    apply Orbit.orbit_invariant_from (P := fun u => u.phase = .looking →
      u.options.extraHeaders = t.options.extraHeaders) _ hmn ht (fun _ => rfl) hu
    intro v w hv hround hw
    have hsame := hv ((round_live server v).2 ⟨w, hround⟩)
    obtain ⟨-, hkept, -⟩ := round_extraHeaders hw hround
    rw [← hsame] at hsome ⊢
    exact hkept hsome
  exact hinv hphase

/-- So one look at the cookie decides the extra headers. -/
lemma extraHeaders_eq {m n : ℕ} (ht : after server s m = some t) (hu : after server s n = some u)
    (htphase : t.phase = .looking) (huphase : u.phase = .looking)
    (hcookie : SortedMap.find t.options.extraHeaders kCookie = none ↔
      SortedMap.find u.options.extraHeaders kCookie = none) :
    t.options.extraHeaders = u.options.extraHeaders := by
  by_cases hnone : SortedMap.find t.options.extraHeaders kCookie = none
  · rw [(after_extraHeaders ht htphase).2 hnone,
      (after_extraHeaders hu huphase).2 (hcookie.1 hnone)]
  · rcases Nat.le_total m n with hle | hle
    · exact (after_extraHeaders_of_cookie hle ht hnone hu huphase).symm
    · exact after_extraHeaders_of_cookie hle hu (fun h => hnone (hcookie.2 h)) ht htphase

/-- A request without a cookie is one of options without a cookie. -/
lemma find_headRequest_eq_none (t : Redirection) :
    SortedMap.find t.headRequest.headers kCookie = none ↔
      SortedMap.find t.options.extraHeaders kCookie = none := by
  rw [headRequest, find_create, SortedMap.find_eq_none_iff, SortedMap.find_eq_none_iff]
  simp only [List.mem_reverse]

/-- **What the server sees decides the next round**, from one point of a chain to another. -/
lemma determined (server : Server) (s : Redirection) :
    Orbit.Determined (round server) s (fun t => t.phase = .looking) seen := by
  intro m n t u t' u' ht hu htphase huphase hseen ht' hu'
  obtain ⟨hurl, hrequest⟩ := Prod.mk.inj hseen
  have hheaders : t.options.extraHeaders = u.options.extraHeaders := by
    apply extraHeaders_eq ht hu htphase huphase
    rw [← find_headRequest_eq_none, ← find_headRequest_eq_none, hrequest]
  have hagent : t.options.userAgent = u.options.userAgent :=
    (after_extraHeaders ht htphase).1.trans (after_extraHeaders hu huphase).1.symm
  unfold round at ht' hu'
  rw [step_looking htphase, hurl, hrequest] at ht'
  rw [step_looking huphase] at hu'
  obtain ⟨result, hresult, rfl⟩ := Option.map_eq_some_iff.1 ht'
  obtain ⟨result', hresult', rfl⟩ := Option.map_eq_some_iff.1 hu'
  obtain rfl := Option.some.inj (hresult.symm.trans hresult')
  have hnamed : seen t.named = seen u.named := by
    unfold seen
    rw [named_headRequest, named_headRequest, hrequest]
    exact Prod.ext hurl rfl
  have hleft : ∀ {phase : Phase}, phase.isLooking = false → phase ≠ .looking := by
    rintro _ h rfl
    cases h
  cases result with
  | error e => exact ⟨hnamed, iff_of_false (hleft rfl) (hleft rfl)⟩
  | ok response =>
    have hanalyse : analyse t.named.url response = analyse u.named.url response :=
      congrArg (analyse · response) hurl
    simp only [settle_eq, hanalyse]
    cases analyse u.named.url response with
    | error e => exact ⟨hnamed, iff_of_false (hleft rfl) (hleft rfl)⟩
    | ok found =>
      obtain ⟨find, url⟩ := found
      refine ⟨Prod.ext_iff.2 ⟨rfl, ?_⟩, ?_⟩
      · apply Request.create_congr
        · simpa [named] using hagent
        · simp only [Options.withCookie_extraHeaders, named, Options.named_extraHeaders, hheaders]
      · cases find with
        | false => exact iff_of_true rfl rfl
        | true => exact iff_of_false (hleft rfl) (hleft rfl)

/-- Finitely many URLs are asked for with finitely many requests. -/
lemma finite_keys_iff (server : Server) (s : Redirection) :
    (Orbit.keys (round server) s (fun t => t.phase = .looking) seen).Finite ↔
      {url | ∃ n request, Asks server s n url request}.Finite := by
  constructor
  · intro hfinite
    apply (hfinite.image Prod.fst).subset
    rintro url ⟨n, request, t, ht, hphase, rfl, rfl⟩
    exact ⟨seen t, ⟨n, t, ht, hphase, rfl⟩, rfl⟩
  · intro hurls
    -- the extra headers of the start, and those with a cookie
    have hcookie : {e | ∃ n t, after server s n = some t ∧ t.phase = .looking ∧
        SortedMap.find t.options.extraHeaders kCookie ≠ none ∧
          t.options.extraHeaders = e}.Subsingleton := by
      rintro _ ⟨m, t, ht, htphase, htsome, rfl⟩ _ ⟨n, u, hu, huphase, husome, rfl⟩
      exact extraHeaders_eq ht hu htphase huphase (iff_of_false htsome husome)
    have hheaders := hcookie.finite.insert s.options.extraHeaders
    apply (Set.Finite.image2 (fun url e => (url, Request.create (bytes "HEAD") url
      { s.options with extraHeaders := e })) hurls hheaders).subset
    rintro _ ⟨n, t, ht, hphase, rfl⟩
    refine ⟨t.url, ⟨n, _, t, ht, hphase, rfl, rfl⟩, t.options.extraHeaders, ?_, ?_⟩
    · by_cases hnone : SortedMap.find t.options.extraHeaders kCookie = none
      · exact Or.inl ((after_extraHeaders ht hphase).2 hnone)
      · exact Or.inr ⟨n, t, ht, hphase, hnone, rfl⟩
    · refine Prod.ext_iff.2 ⟨rfl, ?_⟩
      have hagent := (after_extraHeaders ht hphase).1.symm
      apply Request.create_congr
      · exact hagent
      · rfl

end Orbit

/-- **Following redirects ends if and only if** the `HEAD` requests go to finitely many URLs and
none is sent twice to the same URL. -/
theorem redirects_end_iff (server : Server) (options : Options) (url : Url) :
    Ends server { options := options, url := url } ↔
      {u | ∃ n request, Asks server { options := options, url := url } n u request}.Finite ∧
        ∀ m n u request, Asks server { options := options, url := url } m u request →
          Asks server { options := options, url := url } n u request → m = n := by
  rw [← finite_keys_iff]
  have hends := Orbit.ends_iff (round_live server)
    (determined server { options := options, url := url })
  have hfresh : Orbit.Fresh (round server) { options := options, url := url }
      (fun t => t.phase = .looking) seen ↔
        ∀ m n u request, Asks server { options := options, url := url } m u request →
          Asks server { options := options, url := url } n u request → m = n := by
    constructor
    · rintro hfresh m n _ _ ⟨t, ht, htphase, rfl, rfl⟩ ⟨u, hu, huphase, hurl, hrequest⟩
      exact hfresh m n t u ht hu htphase huphase (Prod.ext hurl.symm hrequest.symm)
    · intro hasks m n t u ht hu htphase huphase hseen
      obtain ⟨hurl, hrequest⟩ := Prod.mk.inj hseen
      exact hasks m n _ _ ⟨t, ht, htphase, rfl, rfl⟩ ⟨u, hu, huphase, hurl.symm, hrequest.symm⟩
  rw [← hfresh]
  exact hends

/-- A redirect from every URL to the root of its host. -/
def toRoot : Contact := answer "HTTP/1.1 302 Found\r\nLocation: /\r\n\r\n"

def rootServer : Server where
  contact _ _ := toRoot
  replies := by
    intro _ _
    decide +kernel

/-- **A server that redirects to itself** is asked for ever. -/
theorem redirects_to_itself : ¬ Ends rootServer start ∧
    ∀ n, Asks rootServer start n start.url start.headRequest := by
  have hround : round rootServer start = some start := by
    have hkey : (toRoot.outcome.bind Except.toOption).map (fun r =>
        (r.status, r.get "Location", r.get "Set-Cookie")) = some (302, bytes "/", []) := by
      decide +kernel
    obtain ⟨r, houtcome, hfields⟩ := exists_of_accepted hkey
    obtain ⟨hstatus, hfields⟩ := Prod.mk.inj hfields
    obtain ⟨hlocation, hcookie⟩ := Prod.mk.inj hfields
    have hfollow : followLocation start.url (bytes "/") = .ok start.url := by
      decide +kernel
    have hanalyse : analyse start.named.url r = .ok (false, start.url) := by
      show analyse start.url r = _
      rw [analyse, if_pos (by simp [hstatus]), hlocation, hfollow]
      rfl
    have hoptions : start.named.options.withCookie r = start.options := by
      rw [Options.withCookie, hcookie]
      rfl
    unfold round
    rw [step_looking rfl]
    show toRoot.outcome.map _ = _
    rw [houtcome, Option.map_some]
    simp only [settle_eq, hanalyse, hoptions]
    rfl
  have hafter : ∀ n, after rootServer start n = some start := by
    intro n
    induction n with
    | zero => rfl
    | succ n ih => exact (Orbit.orbit_succ_iff _ _).2 ⟨start, ih, hround⟩
  refine ⟨?_, fun n => ⟨start, hafter n, rfl, rfl, rfl⟩⟩
  rintro ⟨n, t, ht, hphase⟩
  obtain rfl := Option.some.inj ((hafter n).symm.trans ht)
  exact hphase rfl

end Redirection

end Cld
