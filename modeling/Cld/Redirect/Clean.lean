import Cld.Model.Redirect

/-!
# What the servers cannot put into a request

The invariant of the redirect loop: nothing the loop stores holds a CR or a LF, and nothing of
it that ends up in a request target holds a space.

* `Field` is the condition on a header, `Visible` the one on a part of the target.
* Header names and values come out of a group of `headerRegex`, of the expression of `Options`,
  or are joined from such values (`Response.fields_of_parse`).
* URLs come out of the groups of the URL expressions or of the one for a relative `Location`
  (`Url.clean_of_parse`, `clean_of_followLocation`).
* `Redirection.Clean` is kept by every round of the loop (`Redirection.Clean.step`).

Each of these rests on one question about an expression, whether a class inside a group has a
given character, and `Regex.groupAvoids` computes the answer.
-/

namespace Cld

open Framework

/-! ## Lines and fields -/

/-- The text stays on one line. -/
structure OneLine (s : Bytes) : Prop where
  cr : CR ∉ s
  lf : LF ∉ s

lemma OneLine.append {s t : Bytes} (hs : OneLine s) (ht : OneLine t) : OneLine (s ++ t) where
  cr hmem := (List.mem_append.1 hmem).elim hs.cr ht.cr
  lf hmem := (List.mem_append.1 hmem).elim hs.lf ht.lf

lemma oneLine_nil : OneLine [] := ⟨List.not_mem_nil, List.not_mem_nil⟩

/-- Text that can stand in a request target. -/
structure Visible (s : Bytes) : Prop extends OneLine s where
  space : 32 ∉ s

lemma visible_nil : Visible [] := ⟨oneLine_nil, List.not_mem_nil⟩

lemma visible_of_literal {s : Bytes} (h : CR ∉ s ∧ LF ∉ s ∧ 32 ∉ s) : Visible s :=
  ⟨⟨h.1, h.2.1⟩, h.2.2⟩

lemma Visible.append {s t : Bytes} (hs : Visible s) (ht : Visible t) : Visible (s ++ t) where
  toOneLine := hs.toOneLine.append ht.toOneLine
  space hmem := (List.mem_append.1 hmem).elim hs.space ht.space

/-- A header that fits on its line, and whose name ends at the first colon. -/
structure Field (header : Bytes × Bytes) : Prop where
  name : OneLine header.1
  colon : 58 ∉ header.1
  value : OneLine header.2

/-- A header the program names itself. -/
lemma field_of_literal {name value : Bytes} (hname : CR ∉ name ∧ LF ∉ name ∧ 58 ∉ name)
    (hvalue : OneLine value) : Field (name, value) where
  name := ⟨hname.1, hname.2.1⟩
  colon := hname.2.2
  value := hvalue

section Groups

variable {r : Regex Byte} {s : Bytes} {caps : Regex.Captures Byte} {n : ℕ}

lemma oneLine_of_fullMatch (h : r.fullMatch s = some caps)
    (hcr : r.groupAvoids n CR = true) (hlf : r.groupAvoids n LF = true) : OneLine (caps n) where
  cr := Regex.not_mem_of_fullMatch h hcr
  lf := Regex.not_mem_of_fullMatch h hlf

lemma visible_of_fullMatch (h : r.fullMatch s = some caps)
    (hcr : r.groupAvoids n CR = true) (hlf : r.groupAvoids n LF = true)
    (hspace : r.groupAvoids n 32 = true) : Visible (caps n) where
  toOneLine := oneLine_of_fullMatch h hcr hlf
  space := Regex.not_mem_of_fullMatch h hspace

end Groups

/-! ## The headers of a response -/

lemma field_of_parseHeaderString {line name value : Bytes}
    (h : ParseHeaderString line = .ok (name, value)) : Field (name, value) := by
  unfold ParseHeaderString at h
  split at h
  · next groups hmatch =>
    obtain ⟨rfl, rfl⟩ := Prod.mk.inj (Except.ok.inj h)
    exact
      { name := oneLine_of_fullMatch hmatch (by decide) (by decide)
        colon := Regex.not_mem_of_fullMatch hmatch (by decide)
        value := oneLine_of_fullMatch hmatch (by decide) (by decide) }
  · cases h

namespace Response

lemma oneLine_find {headers : StringMap} (hheaders : ∀ h ∈ headers, Field h) (name : Bytes) :
    OneLine ((SortedMap.find headers name).getD []) := by
  cases hfind : SortedMap.find headers name with
  | none => exact oneLine_nil
  | some value => exact (hheaders _ (SortedMap.mem_of_find hfind)).value

lemma fields_store {headers : StringMap} {name value : Bytes}
    (hheaders : ∀ h ∈ headers, Field h) (hfield : Field (name, value)) :
    ∀ h ∈ store headers name value, Field h := by
  -- what is stored under the name is a single line, joined or not
  have hassign : ∀ v, OneLine v → ∀ h ∈ SortedMap.assign bytesLt name v headers, Field h := by
    intro v hv h hmem
    rcases SortedMap.mem_assign bytesLt hmem with rfl | hold
    · exact ⟨hfield.name, hfield.colon, hv⟩
    · exact hheaders h hold
  unfold store
  split_ifs
  · apply hassign
    have hold := oneLine_find hheaders name
    have hjoint : OneLine (bytes "; ") := ⟨by decide, by decide⟩
    split_ifs
    · exact (hold.append hjoint).append hfield.value
    · exact (hold.append oneLine_nil).append hfield.value
  · exact hassign value hfield.value

lemma fields_headerLoop {fuel : ℕ} {ss : LineStream} {line : Bytes} {headers result : StringMap}
    (hheaders : ∀ h ∈ headers, Field h)
    (h : headerLoop fuel ss line headers = some (.ok result)) : ∀ h ∈ result, Field h := by
  induction fuel generalizing ss line headers with
  | zero => cases h
  | succ fuel ih =>
    rw [headerLoop] at h
    simp only at h
    split_ifs at h with hcr
    · obtain rfl := Except.ok.inj (Option.some.inj h)
      exact hheaders
    · split at h
      · cases h
      · next name value hparse =>
        exact ih (fields_store hheaders (field_of_parseHeaderString hparse)) h

/-- **Every header of a parsed response fits on a line.** -/
lemma fields_of_parse {data : Bytes} {r : Response} (h : parse data = some (.ok r)) :
    ∀ h ∈ r.headers, Field h := by
  unfold parse at h
  simp only at h
  split at h
  · cases h
  · split at h
    · cases h
    · cases h
    · next hloop =>
      obtain rfl := Except.ok.inj (Option.some.inj h)
      exact fields_headerLoop (by simp) hloop

lemma oneLine_get {data : Bytes} {r : Response} (h : parse data = some (.ok r))
    (header : String) : OneLine (r.get header) := oneLine_find (fields_of_parse h) _

end Response

/-! ## URLs -/

namespace Url

/-- Nothing in the URL can end a line, and its resource is one word. -/
structure Clean (url : Url) : Prop where
  host : OneLine url.host
  path : Visible url.path
  query : Visible url.query
  fragment : Visible url.fragment

/-- The expression keeps the groups of a URL clean. -/
def Safe (r : Regex Byte) : Prop :=
  (∀ n ∈ [2, 4, 5, 6], r.groupAvoids n CR = true ∧ r.groupAvoids n LF = true) ∧
    ∀ n ∈ [4, 5, 6], r.groupAvoids n 32 = true

instance (r : Regex Byte) : Decidable (Safe r) := inferInstanceAs (Decidable (_ ∧ _))

lemma clean_of_fullMatch {r : Regex Byte} {s : Bytes} {matched : Regex.Captures Byte}
    (h : r.fullMatch s = some matched) (hsafe : Safe r) (scheme port : Bytes) :
    Clean ⟨scheme, matched 2, port, matched 4, matched 5, matched 6⟩ := by
  obtain ⟨hline, hspace⟩ := hsafe
  have hvisible : ∀ n ∈ [4, 5, 6], Visible (matched n) := by
    intro n hn
    have hmem := List.mem_cons_of_mem 2 hn
    exact visible_of_fullMatch h (hline n hmem).1 (hline n hmem).2 (hspace n hn)
  have hhost := hline 2 List.mem_cons_self
  exact
    { host := oneLine_of_fullMatch h hhost.1 hhost.2
      path := hvisible 4 (by simp)
      query := hvisible 5 (by simp)
      fragment := hvisible 6 (by simp) }

/-- **An accepted URL is clean.** -/
lemma clean_of_parse {urlString : Bytes} {url : Url} (h : parse urlString = .ok url) :
    url.Clean := by
  unfold parse at h
  split at h
  · next matched hmatch =>
    obtain rfl := Except.ok.inj h
    rcases Option.or_eq_some_iff.1 hmatch with hnormal | ⟨-, hipv6⟩
    · exact clean_of_fullMatch hnormal (by decide) _ _
    · exact clean_of_fullMatch hipv6 (by decide) _ _
  · cases h

lemma Clean.resource {url : Url} (h : url.Clean) : Visible url.resource := by
  have hslash : Visible (bytes "/") := visible_of_literal (by decide)
  have hmark : Visible (bytes "?") := visible_of_literal (by decide)
  have hhash : Visible (bytes "#") := visible_of_literal (by decide)
  have hpath := hslash.append h.path
  have hquery : Visible (if url.query ≠ [] then bytes "?" ++ url.query else []) := by
    split_ifs
    · exact hmark.append h.query
    · exact visible_nil
  have hfragment : Visible (if url.fragment ≠ [] then bytes "#" ++ url.fragment else []) := by
    split_ifs
    · exact hhash.append h.fragment
    · exact visible_nil
  exact (hpath.append hquery).append hfragment

end Url

lemma clean_of_followLocation {url url' : Url} {location : Bytes} (hurl : url.Clean)
    (h : followLocation url location = .ok url') : url'.Clean := by
  unfold followLocation at h
  split_ifs at h
  · split at h
    · next absolute hparse =>
      obtain rfl := Except.ok.inj h
      exact Url.clean_of_parse hparse
    · split at h
      · next matched hmatch =>
        obtain rfl := Except.ok.inj h
        exact
          { host := hurl.host
            path := visible_of_fullMatch hmatch (by decide) (by decide) (by decide)
            query := visible_of_fullMatch hmatch (by decide) (by decide) (by decide)
            fragment := visible_of_fullMatch hmatch (by decide) (by decide) (by decide) }
      · cases h

/-! ## Options -/

namespace Options

/-- What the options put into a request. -/
structure Clean (o : Options) : Prop where
  agent : OneLine o.userAgent
  headers : ∀ h ∈ o.extraHeaders, Field h

lemma clean_default : Clean {} where
  agent := ⟨by decide, by decide⟩
  headers := by simp

lemma field_of_parseHeaderString {str name value : Bytes}
    (h : parseHeaderString str = .ok (name, value)) : Field (name, value) := by
  unfold parseHeaderString at h
  split at h
  · next groups hmatch =>
    obtain ⟨rfl, rfl⟩ := Prod.mk.inj (Except.ok.inj h)
    exact
      { name := oneLine_of_fullMatch hmatch (by decide) (by decide)
        colon := Regex.not_mem_of_fullMatch hmatch (by decide)
        value := oneLine_of_fullMatch hmatch (by decide) (by decide) }
  · cases h

lemma Clean.insertHeader {o : Options} {name value : Bytes} (h : o.Clean)
    (hfield : Field (name, value)) : (o.insertHeader name value).Clean where
  agent := h.agent
  headers := by
    intro e he
    rcases SortedMap.mem_insertNew bytesLt he with rfl | hold
    · exact hfield
    · exact h.headers e hold

lemma Clean.readOption {o o' : Options} {arg : CommandOption} (h : o.Clean)
    (hagent : ∀ str, arg = .userAgent str → OneLine str)
    (hread : o.readOption arg = .ok (some o')) : o'.Clean := by
  unfold Options.readOption at hread
  cases arg with
  | numConnections optarg =>
    simp only at hread
    split at hread
    · unfold setConnectionsNumber at hread
      split_ifs at hread
      · obtain rfl := Option.some.inj (Except.ok.inj hread)
        exact ⟨h.agent, h.headers⟩
      · cases hread
    · cases hread
  | output optarg =>
    simp only [setOutputPath] at hread
    split_ifs at hread
    · obtain rfl := Option.some.inj (Except.ok.inj hread)
      exact ⟨h.agent, h.headers⟩
    · cases hread
  | userAgent optarg =>
    simp only [setUserAgent] at hread
    split_ifs at hread
    · cases hread
    · obtain rfl := Option.some.inj (Except.ok.inj hread)
      exact ⟨hagent optarg rfl, h.headers⟩
  | header optarg =>
    simp only [addHeaderLine] at hread
    split_ifs at hread
    · cases hparse : parseHeaderString optarg with
      | error e =>
        rw [hparse] at hread
        cases hread
      | ok field =>
        rw [hparse] at hread
        obtain rfl := Option.some.inj (Except.ok.inj hread)
        exact h.insertHeader (field_of_parseHeaderString hparse)
    · cases hread
  | help => cases Except.ok.inj hread

/-- **The options of the command line are clean** if the user agents given there are. -/
lemma Clean.readOptions {o o' : Options} {args : List CommandOption} (h : o.Clean)
    (hagent : ∀ str, .userAgent str ∈ args → OneLine str)
    (hread : o.readOptions args = .ok (some o')) : o'.Clean := by
  induction args generalizing o with
  | nil =>
    obtain rfl := Option.some.inj (Except.ok.inj hread)
    exact h
  | cons arg args ih =>
    rw [Options.readOptions] at hread
    split at hread
    · cases hread
    · cases Except.ok.inj hread
    · next o₁ harg =>
      have hfirst : ∀ str, arg = .userAgent str → OneLine str := fun str hstr =>
        hagent str (hstr ▸ List.mem_cons_self)
      have hrest : ∀ str, .userAgent str ∈ args → OneLine str := fun str hstr =>
        hagent str (List.mem_cons_of_mem arg hstr)
      exact ih (h.readOption hfirst harg) hrest hread

lemma Clean.nameOutput {o o' : Options} {url : Url} (h : o.Clean)
    (hname : nameOutput o url = .ok o') : o'.Clean := by
  unfold Cld.nameOutput setOutputPath at hname
  split_ifs at hname
  · obtain rfl := Except.ok.inj hname
    exact ⟨h.agent, h.headers⟩
  · obtain rfl := Except.ok.inj hname
    exact h

lemma Clean.keepCookie {o o' : Options} {data : Bytes} {response : Response} (h : o.Clean)
    (hparse : Response.parse data = some (.ok response))
    (hcookie : keepCookie o response = .ok o') : o'.Clean := by
  unfold Cld.keepCookie addExtraHeader at hcookie
  have hfield : Field (bytes "Cookie", response.get "Set-Cookie") :=
    field_of_literal (by decide) (Response.oneLine_get hparse "Set-Cookie")
  split_ifs at hcookie
  · obtain rfl := Except.ok.inj hcookie
    exact h.insertHeader hfield
  · obtain rfl := Except.ok.inj hcookie
    exact h

end Options

/-! ## Requests -/

namespace Request

structure Clean (r : Request) : Prop where
  method : Visible r.method
  resource : Visible r.resource
  headers : ∀ h ∈ r.headers, Field h
  body : r.body = []

lemma Clean.set {r : Request} {header : String} {value : Bytes} (h : r.Clean)
    (hfield : Field (bytes header, value)) : (r.set header value).Clean where
  method := h.method
  resource := h.resource
  headers := by
    intro e he
    rcases SortedMap.mem_assign bytesLt he with rfl | hold
    · exact hfield
    · exact h.headers e hold
  body := h.body

lemma fields_foldl {extras headers : StringMap} (hextras : ∀ h ∈ extras, Field h)
    (hheaders : ∀ h ∈ headers, Field h) :
    ∀ h ∈ extras.foldl (fun headers extra => SortedMap.assign bytesLt extra.1 extra.2 headers)
      headers, Field h := by
  induction extras generalizing headers with
  | nil => exact hheaders
  | cons extra extras ih =>
    apply ih (fun h hh => hextras h (List.mem_cons_of_mem extra hh))
    intro h hh
    rcases SortedMap.mem_assign bytesLt hh with rfl | hold
    · exact hextras _ List.mem_cons_self
    · exact hheaders h hold

/-- **The constructor builds a clean request.** -/
lemma clean_create {method : Bytes} {url : Url} {options : Options} (hmethod : Visible method)
    (hurl : url.Clean) (hoptions : options.Clean) : (create method url options).Clean := by
  have hbare : Clean { method := method, resource := url.resource } :=
    ⟨hmethod, hurl.resource, by simp, rfl⟩
  have hhost : Field (bytes "Host", url.host) := field_of_literal (by decide) hurl.host
  have hagent : Field (bytes "User-Agent", options.userAgent) :=
    field_of_literal (by decide) hoptions.agent
  have hset := (hbare.set hhost).set hagent
  exact
    { method := hset.method
      resource := hset.resource
      headers := fields_foldl hoptions.headers hset.headers
      body := hset.body }

end Request

/-! ## The loop -/

namespace Redirection

/-- The invariant of the redirect loop. -/
structure Clean (s : Redirection) : Prop where
  options : s.options.Clean
  url : s.url.Clean
  found : ∀ request response, s.phase = .found request response → request.Clean

lemma Clean.headRequest {s : Redirection} (h : s.Clean) : s.headRequest.Clean :=
  Request.clean_create (visible_of_literal (by decide)) h.url h.options

/-- **The inversion of the `switch`**: a redirect is followed, anything else is taken as it is. -/
lemma analyse_cases {url url' : Url} {response : Response} {find : Bool}
    (h : analyse url response = .ok (find, url')) :
    (find = false ∧ (response.status = 300 ∨ response.status = 301 ∨ response.status = 302 ∨
        response.status = 307) ∧ followLocation url (response.get "Location") = .ok url') ∨
      (find = true ∧ ¬ (response.status = 300 ∨ response.status = 301 ∨ response.status = 302 ∨
        response.status = 307) ∧ url' = url) := by
  unfold analyse at h
  split_ifs at h with hredirect hunsupported hok
  · cases hfollow : followLocation url (response.get "Location") with
    | error e =>
      rw [hfollow] at h
      cases h
    | ok followed =>
      rw [hfollow] at h
      obtain ⟨rfl, rfl⟩ := Prod.mk.inj (Except.ok.inj h)
      exact Or.inl ⟨rfl, hredirect, rfl⟩
  · obtain ⟨rfl, rfl⟩ := Prod.mk.inj (Except.ok.inj h)
    exact Or.inr ⟨rfl, hredirect, rfl⟩

lemma clean_of_analyse {url url' : Url} {response : Response} {find : Bool} (hurl : url.Clean)
    (h : analyse url response = .ok (find, url')) : url'.Clean := by
  rcases analyse_cases h with ⟨-, -, hfollow⟩ | ⟨-, -, rfl⟩
  · exact clean_of_followLocation hurl hfollow
  · exact hurl

lemma Clean.settle {s : Redirection} {request : Request} {data : Bytes} {response : Response}
    (h : s.Clean) (hrequest : request.Clean)
    (hparse : Response.parse data = some (.ok response)) : (s.settle request response).Clean := by
  unfold Redirection.settle
  split
  · exact ⟨h.options, h.url, nofun⟩
  · next find url hanalyse =>
    have hurl := clean_of_analyse h.url hanalyse
    simp only
    split
    · exact ⟨h.options, hurl, nofun⟩
    · next options hcookie =>
      refine ⟨h.options.keepCookie hparse hcookie, hurl, ?_⟩
      intro request' response' hphase
      simp only at hphase
      split_ifs at hphase
      obtain ⟨rfl, -⟩ := Phase.found.inj hphase
      exact hrequest

/-- **Every round keeps the invariant.** -/
lemma Clean.step {s s' : Redirection} {contact : Contact} (h : s.Clean)
    (hstep : s.step contact = some s') : s'.Clean := by
  unfold Redirection.step at hstep
  split at hstep
  · split at hstep
    · obtain rfl := Option.some.inj hstep
      exact ⟨h.options, h.url, nofun⟩
    · next options hname =>
      have hoptions := h.options.nameOutput hname
      simp only at hstep
      split at hstep
      · obtain rfl := Option.some.inj hstep
        exact ⟨hoptions, h.url, nofun⟩
      · split at hstep
        · cases hstep
        · obtain rfl := Option.some.inj hstep
          exact ⟨hoptions, h.url, nofun⟩
        · split at hstep
          · cases hstep
          · obtain rfl := Option.some.inj hstep
            exact ⟨hoptions, h.url, nofun⟩
          · next hparse =>
            obtain rfl := Option.some.inj hstep
            -- the state in which the request is built
            have hnamed : Clean { s with options := options } := ⟨hoptions, h.url, h.found⟩
            exact hnamed.settle hnamed.headRequest hparse
  · cases hstep

end Redirection

end Cld
