import Cld.Redirect.Requests
import Cld.Redirect.Rounds

/-!
# The cookie along a redirect chain

A cookie that a redirect sets is added to the extra headers by an insertion, which leaves an
entry alone that is there already.  So the first cookie of a chain is carried by every later
request, whatever the responses set after it.

* `Carries` is the invariant of the loop: every entry for `Cookie` holds the first cookie, and
  there is one as soon as a cookie has been set.
* `cookie_of_sent` is what a request carries then.

`cookie_most_recent_iff` compares this with the cookie that was set last.
-/

namespace Cld

open Framework

/-- A response that the loop follows. -/
def Response.isRedirect (response : Response) : Bool :=
  response.status == 300 || response.status == 301 || response.status == 302 ||
    response.status == 307

/-- The cookie that a redirect sets. -/
def Contact.cookie (contact : Contact) : Option Bytes :=
  match contact.outcome with
  | some (.ok response) =>
    if response.isRedirect ∧ response.get "Set-Cookie" ≠ [] then some (response.get "Set-Cookie")
    else none
  | _ => none

/-- Exactly a redirect is followed, and what is not followed but is good is no redirect. -/
lemma isRedirect_of_analyse {url url' : Url} {response : Response} {find : Bool}
    (h : analyse url response = .ok (find, url')) : response.isRedirect = !find := by
  rcases Redirection.analyse_cases h with ⟨rfl, hredirect, -⟩ | ⟨rfl, hredirect, -⟩
  · simpa [Response.isRedirect, or_assoc] using hredirect
  · simpa [Response.isRedirect, and_assoc] using hredirect

namespace Redirection

variable {s s' : Redirection} {cookies : List Bytes}

/-- The cookie in the options is the first one. -/
structure Kept (options : Options) (cookies : List Bytes) : Prop where
  entries : ∀ e ∈ options.extraHeaders, e.1 = kCookie → cookies.head? = some e.2
  stored : cookies.head? ≠ none → ∃ e ∈ options.extraHeaders, e.1 = kCookie

/-- **The invariant of the loop**, the cookies set so far being these. -/
structure Carries (s : Redirection) (cookies : List Bytes) : Prop where
  looking : s.phase = .looking → Kept s.options cookies
  found : ∀ request response, s.phase = .found request response →
    SortedMap.find request.headers kCookie = cookies.head?

lemma Kept.find_extraHeaders {options : Options} (h : Kept options cookies) :
    SortedMap.find options.extraHeaders kCookie = cookies.head? :=
  SortedMap.find_eq_of_entries h.entries h.stored

/-- What a request carries: the last of the entries, the request itself having none. -/
lemma find_create (method : Bytes) (url : Url) (options : Options) :
    SortedMap.find (Request.create method url options).headers kCookie =
      SortedMap.find options.extraHeaders.reverse kCookie := by
  have hother : bytes "Host" ≠ kCookie ∧ bytes "User-Agent" ≠ kCookie := by
    decide
  have hbare : ∀ m : StringMap, SortedMap.find (SortedMap.assign bytesLt (bytes "User-Agent")
      options.userAgent (SortedMap.assign bytesLt (bytes "Host") url.host m)) kCookie =
        SortedMap.find m kCookie := by
    intro m
    rw [SortedMap.find_assign, if_neg hother.2.symm, SortedMap.find_assign, if_neg hother.1.symm]
  show SortedMap.find (options.extraHeaders.foldl _ _) kCookie = _
  rw [SortedMap.find_foldl_assign]
  show (SortedMap.find _ _).or (SortedMap.find (SortedMap.assign _ _ _ (SortedMap.assign _ _ _ _))
    _) = _
  rw [hbare, SortedMap.find_nil, Option.or_none]

lemma Kept.find_create {options : Options} (h : Kept options cookies) (method : Bytes)
    (url : Url) : SortedMap.find (Request.create method url options).headers kCookie =
      cookies.head? := by
  rw [Redirection.find_create]
  apply SortedMap.find_eq_of_entries
  · intro e he hkey
    exact h.entries e (List.mem_reverse.1 he) hkey
  · intro hne
    obtain ⟨e, he, hkey⟩ := h.stored hne
    exact ⟨e, List.mem_reverse.2 he, hkey⟩

/-- **One redirect**: the insertion leaves the first cookie where it is. -/
lemma Kept.withCookie {options : Options} (h : Kept options cookies) (response : Response) :
    Kept (options.withCookie response) (cookies ++
      if response.get "Set-Cookie" ≠ [] then [response.get "Set-Cookie"] else []) := by
  have hfind := h.find_extraHeaders
  by_cases hset : response.get "Set-Cookie" = []
  · simp only [Options.withCookie, hset, ne_eq, not_true_eq_false, if_false, List.append_nil]
    exact h
  · have hheaders : (options.withCookie response).extraHeaders = SortedMap.insertNew bytesLt
        kCookie (response.get "Set-Cookie") options.extraHeaders := by
      rw [Options.withCookie_extraHeaders, if_pos hset]
    rw [if_pos hset]
    cases cookies with
    | nil =>
      -- the first cookie
      have hnone : SortedMap.find options.extraHeaders kCookie = none := hfind
      rw [SortedMap.insertNew, hnone, Option.isSome_none, if_neg Bool.false_ne_true] at hheaders
      constructor
      · intro e he hkey
        rw [hheaders] at he
        rcases SortedMap.mem_assign bytesLt he with rfl | hold
        · rfl
        · exact absurd hkey (SortedMap.find_eq_none hnone e hold)
      · intro _
        have hfound : SortedMap.find (options.withCookie response).extraHeaders kCookie =
            some (response.get "Set-Cookie") := by
          rw [hheaders, SortedMap.find_assign, if_pos rfl]
        exact ⟨_, SortedMap.mem_of_find hfound, rfl⟩
    | cons first rest =>
      have hsome : SortedMap.find options.extraHeaders kCookie = some first := hfind
      rw [SortedMap.insertNew, hsome, Option.isSome_some, if_pos rfl] at hheaders
      constructor
      · rw [hheaders]
        exact h.entries
      · intro _
        rw [hheaders]
        exact h.stored (by simp)

/-- **Every round keeps the invariant.** -/
lemma Carries.step {contact : Contact} (h : Carries s cookies)
    (hstep : s.step contact = some s') : Carries s' (cookies ++ contact.cookie.toList) := by
  obtain ⟨hphase, ⟨e, hfailed⟩ | ⟨response, find, url, houtcome, hanalyse, rfl⟩⟩ :=
    step_cases hstep
  · constructor
    · rw [hfailed]
      rintro ⟨⟩
    · rw [hfailed]
      rintro _ _ ⟨⟩
  · have hkept := h.looking hphase
    have hnamed : Kept s.named.options cookies := by
      constructor
      · rw [named, Options.named_extraHeaders]
        exact hkept.entries
      · rw [named, Options.named_extraHeaders]
        exact hkept.stored
    have hredirect := isRedirect_of_analyse hanalyse
    cases find with
    | false =>
      have hcookie : contact.cookie.toList =
          if response.get "Set-Cookie" ≠ [] then [response.get "Set-Cookie"] else [] := by
        simp only [Contact.cookie, houtcome, hredirect, Bool.not_false, true_and]
        split_ifs <;> rfl
      constructor
      · rintro -
        rw [hcookie]
        exact hnamed.withCookie response
      · rintro _ _ ⟨⟩
    | true =>
      have hcookie : contact.cookie.toList = [] := by
        simp [Contact.cookie, houtcome, hredirect]
      constructor
      · rintro ⟨⟩
      · rintro request response' hfound
        obtain ⟨rfl, -⟩ := Phase.found.inj hfound
        rw [hcookie, List.append_nil]
        exact hkept.find_create _ _

lemma Carries.run {contacts : List Contact} (h : Carries s cookies)
    (hrun : Transition.run Redirection.step s contacts = some s') :
    Carries s' (cookies ++ contacts.filterMap Contact.cookie) := by
  induction contacts generalizing s cookies with
  | nil =>
    obtain rfl := Option.some.inj hrun
    rwa [List.filterMap_nil, List.append_nil]
  | cons contact contacts ih =>
    obtain ⟨t, hstep, hrest⟩ := (Transition.run_cons_iff Redirection.step).1 hrun
    have hlater := ih (h.step hstep) hrest
    have hcookies : (contact :: contacts).filterMap Contact.cookie =
        contact.cookie.toList ++ contacts.filterMap Contact.cookie := by
      cases hcookie : contact.cookie <;> simp [hcookie]
    rwa [hcookies, ← List.append_assoc]

/-- The requests that are sent next carry the first cookie. -/
lemma Carries.find_of_sent {r : Request} (h : Carries s cookies) (hsent : Sent s r) :
    SortedMap.find r.headers kCookie = cookies.head? := by
  cases hsent with
  | head options hphase hname =>
    rw [Options.nameOutput_eq] at hname
    obtain rfl := Except.ok.inj hname
    have hsame := named_headRequest s
    unfold named at hsame
    rw [hsame]
    exact (h.looking hphase).find_create _ _
  | single request response get hphase hselect =>
    have hfound := h.found request response hphase
    unfold selectDownload at hselect
    simp only at hselect
    split at hselect
    · obtain rfl := Selected.single.inj hselect
      exact hfound
    · cases hselect
  | multi request response cfg hphase hselect begin end_ =>
    have hfound := h.found request response hphase
    have hother : kCookie ≠ bytes "Range" := by
      decide
    unfold selectDownload at hselect
    simp only at hselect
    split at hselect
    · cases hselect
    · obtain rfl := Selected.multi.inj hselect
      show SortedMap.find (SortedMap.assign _ _ _ _) kCookie = _
      rw [SortedMap.find_assign, if_neg hother]
      exact hfound

lemma carries_init {options : Options} {url : Url}
    (huser : SortedMap.find options.extraHeaders kCookie = none) :
    Carries { options := options, url := url } [] where
  looking _ :=
    { entries := fun e he hkey => absurd hkey (SortedMap.find_eq_none huser e he)
      stored := fun h => absurd rfl h }
  found := by rintro _ _ ⟨⟩

/-- **A request carries the cookie that was set last if and only if** that is the one that was
set first.  `contacts` are the connections of the chain so far, and `r` is a request that is sent
next: the `HEAD` request of the round that begins, or a `GET` request of the download. -/
theorem cookie_most_recent_iff {options : Options} {url : Url} {contacts : List Contact}
    (huser : SortedMap.find options.extraHeaders kCookie = none)
    (hrun : Transition.run Redirection.step { options := options, url := url } contacts = some s)
    {r : Request} (hsent : Sent s r) :
    SortedMap.find r.headers kCookie = (contacts.filterMap Contact.cookie).getLast? ↔
      (contacts.filterMap Contact.cookie).head? =
        (contacts.filterMap Contact.cookie).getLast? := by
  have hcarries := (carries_init huser).run hrun
  rw [hcarries.find_of_sent hsent, List.nil_append]

/-- What is asked next, if the loop is at its head. -/
lemma sent_headRequest (h : s.phase = .looking) : Sent s s.headRequest := by
  rw [← named_headRequest]
  exact .head _ h (Options.nameOutput_eq _ _)

/-- `http://a/` without options. -/
def start : Redirection := { options := {}, url := { scheme := bytes "http", host := bytes "a" } }

/-- A redirect on the same host that sets this cookie. -/
def settingCookie (cookie : String) : Contact :=
  answer ("HTTP/1.1 302 Found\r\nLocation: /b\r\nSet-Cookie: " ++ cookie ++ "\r\n\r\n")

/-- One redirect sets a cookie, and the next request carries it. -/
theorem cookie_most_recent_once : ∃ s,
    Transition.run Redirection.step start [settingCookie "k=1"] = some s ∧
      SortedMap.find s.headRequest.headers kCookie = some (bytes "k=1") := by
  have hkey : (Transition.run Redirection.step start [settingCookie "k=1"]).map
      (fun s => s.phase.isLooking) = some true := by
    decide +kernel
  obtain ⟨s, hrun, hlooking⟩ := Option.map_eq_some_iff.1 hkey
  have hphase := Phase.isLooking_iff.1 hlooking
  have hcookies : [settingCookie "k=1"].filterMap Contact.cookie = [bytes "k=1"] := by
    decide +kernel
  refine ⟨s, hrun, ?_⟩
  rw [(cookie_most_recent_iff rfl hrun (sent_headRequest hphase)).2 (by rw [hcookies]; rfl),
    hcookies]
  rfl

/-- **The second cookie is not kept**: the request after both redirects carries the first. -/
theorem second_cookie_ignored : ∃ s,
    Transition.run Redirection.step start [settingCookie "k=1", settingCookie "k=2"] = some s ∧
      Sent s s.headRequest ∧
      [settingCookie "k=1", settingCookie "k=2"].filterMap Contact.cookie =
        [bytes "k=1", bytes "k=2"] ∧
      SortedMap.find s.headRequest.headers kCookie = some (bytes "k=1") := by
  have hkey : (Transition.run Redirection.step start
      [settingCookie "k=1", settingCookie "k=2"]).map (fun s =>
        (s.phase.isLooking, SortedMap.find s.headRequest.headers kCookie)) =
          some (true, some (bytes "k=1")) := by
    decide +kernel
  obtain ⟨s, hrun, hstate⟩ := Option.map_eq_some_iff.1 hkey
  obtain ⟨hlooking, hcookie⟩ := Prod.mk.inj hstate
  have hphase := Phase.isLooking_iff.1 hlooking
  exact ⟨s, hrun, sent_headRequest hphase, by decide +kernel, hcookie⟩

end Redirection

end Cld
