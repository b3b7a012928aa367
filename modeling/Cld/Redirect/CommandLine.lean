import Cld.Redirect.Requests
import Cld.Redirect.Rounds

/-!
# What the command line asks for

The options that come out of the loop of `main`, read off the list of arguments, and what becomes of
them on the way to the servers.

* `Given` says what options mean that were read from these arguments: the last number of
  connections, output and user agent count, and of each header the first.
* `Reaching` is the invariant of the redirect loop: the cookies it adds touch nothing but `Cookie`,
  and the request of the resource is that of the last round.
* `given_headers_reach`: every request of a run carries the headers of the command line, to whatever
  host the redirects have led.  A header that is meant for the first host alone has no way to say
  so.

`Cookie` is left to the redirects and `Range` to the workers.
-/

namespace Cld

open Framework

/-! ## The arguments -/

namespace CommandOption

def number : CommandOption → Option ℤ
  | .numConnections optarg => extractInt optarg
  | _ => none

def path : CommandOption → Option Bytes
  | .output optarg => some optarg
  | _ => none

def agent : CommandOption → Option Bytes
  | .userAgent optarg => some optarg
  | _ => none

def field : CommandOption → Option (Bytes × Bytes)
  | .header optarg => (Options.parseHeaderString optarg).toOption
  | _ => none

/-- The argument is accepted, and does not end the program. -/
def Valid : CommandOption → Prop
  | .numConnections optarg => ∃ n, extractInt optarg = some n ∧ 0 < n
  | .output optarg => optarg ≠ []
  | .userAgent optarg => optarg ≠ []
  | .header optarg => ∃ field, Options.parseHeaderString optarg = .ok field
  | .help => False

end CommandOption

namespace Options

/-- **What options mean** that were read from these arguments. -/
structure Given (args : List CommandOption) (o : Options) : Prop where
  connectionsNumber : o.connectionsNumber = (args.filterMap (·.number)).getLast?.getD 8
  outputPath : o.outputPath = (args.filterMap (·.path)).getLast?.getD []
  userAgent : o.userAgent =
    (args.filterMap (·.agent)).getLast?.getD (bytes "Cld/" ++ kCldVersion)
  extraHeaders : ∀ name, SortedMap.find o.extraHeaders name =
    SortedMap.find (args.filterMap (·.field)) name

/-- A map holds no entry beside the one it finds. -/
def Functional (headers : StringMap) : Prop :=
  ∀ e ∈ headers, SortedMap.find headers e.1 = some e.2

variable {o o' : Options} {arg : CommandOption} {args before : List CommandOption}

lemma functional_nil : Functional [] := fun _ he => absurd he List.not_mem_nil

lemma Functional.insertNew {headers : StringMap} (h : Functional headers) (name value : Bytes) :
    Functional (SortedMap.insertNew bytesLt name value headers) := by
  intro e he
  rw [SortedMap.find_insertNew]
  unfold SortedMap.insertNew at he
  cases hfind : SortedMap.find headers name with
  | some v =>
    rw [hfind, Option.isSome_some, if_pos rfl] at he
    split_ifs with hname
    · rw [← h e he, hname, hfind]
      rfl
    · exact h e he
  | none =>
    rw [hfind, Option.isSome_none, if_neg Bool.false_ne_true] at he
    rcases SortedMap.mem_assign bytesLt he with rfl | hold
    · rw [if_pos rfl]
      rfl
    · rw [if_neg (SortedMap.find_eq_none hfind e hold)]
      exact h e hold

/-- The order in which a map is gone through does not matter. -/
lemma Functional.find_reverse {headers : StringMap} (h : Functional headers) (name : Bytes) :
    SortedMap.find headers.reverse name = SortedMap.find headers name := by
  apply SortedMap.find_eq_of_entries
  · intro e he hname
    rw [← hname]
    exact h e (List.mem_reverse.1 he)
  · intro hne
    obtain ⟨value, hvalue⟩ := Option.ne_none_iff_exists'.1 hne
    exact ⟨_, List.mem_reverse.2 (SortedMap.mem_of_find hvalue), rfl⟩

lemma find_concat (fields : List (Bytes × Bytes)) (name value key : Bytes) :
    SortedMap.find (fields ++ [(name, value)]) key =
      (SortedMap.find fields key).or (if key = name then some value else none) := by
  induction fields with
  | nil => rfl
  | cons e fields ih =>
    obtain ⟨k, v⟩ := e
    rw [List.cons_append, SortedMap.find_cons, SortedMap.find_cons, ih]
    split_ifs <;> simp

/-! ## The loop of `main` -/

section Concat

variable {α β : Type} {f : α → Option β} {before : List α} {a : α} {b : β}

lemma filterMap_concat_none (h : f a = none) :
    (before ++ [a]).filterMap f = before.filterMap f := by
  rw [List.filterMap_append, List.filterMap_cons_none h, List.filterMap_nil, List.append_nil]

lemma filterMap_concat_some (h : f a = some b) :
    (before ++ [a]).filterMap f = before.filterMap f ++ [b] := by
  rw [List.filterMap_append, List.filterMap_cons_some h, List.filterMap_nil]

end Concat

/-- An argument that is accepted is valid, and changes what it is about. -/
inductive Accepted (o : Options) : CommandOption → Options → Prop
  | numConnections {optarg : Bytes} {n : ℤ} (hnumber : extractInt optarg = some n) (hpos : 0 < n) :
      Accepted o (.numConnections optarg) { o with connectionsNumber := n }
  | output {optarg : Bytes} (hne : optarg ≠ []) :
      Accepted o (.output optarg) { o with outputPath := optarg }
  | userAgent {optarg : Bytes} (hne : optarg ≠ []) :
      Accepted o (.userAgent optarg) { o with userAgent := optarg }
  | header {optarg name value : Bytes} (hparse : parseHeaderString optarg = .ok (name, value)) :
      Accepted o (.header optarg) (o.insertHeader name value)

lemma accepted_of_readOption (h : o.readOption arg = .ok (some o')) : Accepted o arg o' := by
  unfold readOption at h
  cases arg with
  | numConnections optarg =>
    simp only at h
    split at h
    · next n hnumber =>
      unfold setConnectionsNumber at h
      split_ifs at h with hpos
      · obtain rfl := Option.some.inj (Except.ok.inj h)
        exact .numConnections hnumber hpos
      · cases h
    · cases h
  | output optarg =>
    simp only [setOutputPath] at h
    split_ifs at h with hne
    · obtain rfl := Option.some.inj (Except.ok.inj h)
      exact .output hne
    · cases h
  | userAgent optarg =>
    simp only [setUserAgent] at h
    split_ifs at h with hnil
    · cases h
    · obtain rfl := Option.some.inj (Except.ok.inj h)
      exact .userAgent hnil
  | header optarg =>
    simp only [addHeaderLine] at h
    split_ifs at h with hne
    · cases hparse : parseHeaderString optarg with
      | error e =>
        rw [hparse] at h
        cases h
      | ok field =>
        rw [hparse] at h
        obtain rfl := Option.some.inj (Except.ok.inj h)
        exact .header hparse
    · cases h
  | help => cases Except.ok.inj h

lemma Accepted.valid (h : Accepted o arg o') : arg.Valid := by
  cases h with
  | numConnections hnumber hpos => exact ⟨_, hnumber, hpos⟩
  | output hne => exact hne
  | userAgent hne => exact hne
  | header hparse => exact ⟨_, hparse⟩

/-- A header has a name, so that an empty line is not one. -/
lemma ne_nil_of_parseHeaderString {str : Bytes} {field : Bytes × Bytes}
    (h : parseHeaderString str = .ok field) : str ≠ [] := by
  rintro rfl
  have hnone : parseHeaderString [] = .error (.runtimeError "Invalid header") := rfl
  rw [hnone] at h
  cases h

lemma exists_readOption (h : arg.Valid) (o : Options) :
    ∃ o', o.readOption arg = .ok (some o') := by
  cases arg with
  | numConnections optarg =>
    obtain ⟨n, hnumber, hpos⟩ := h
    refine ⟨{ o with connectionsNumber := n }, ?_⟩
    simp only [readOption, hnumber, setConnectionsNumber, gt_iff_lt, if_pos hpos]
    rfl
  | output optarg =>
    refine ⟨{ o with outputPath := optarg }, ?_⟩
    have hne : optarg ≠ [] := h
    rw [readOption, setOutputPath, if_pos hne]
    rfl
  | userAgent optarg =>
    refine ⟨{ o with userAgent := optarg }, ?_⟩
    have hne : optarg ≠ [] := h
    rw [readOption, setUserAgent, if_neg hne]
    rfl
  | header optarg =>
    obtain ⟨⟨name, value⟩, hparse⟩ := h
    refine ⟨o.insertHeader name value, ?_⟩
    rw [readOption, addHeaderLine, if_pos (ne_nil_of_parseHeaderString hparse), hparse]
    rfl
  | help => exact absurd h not_false

/-- **Which command lines are accepted.** -/
lemma exists_readOptions_iff : (∃ o', o.readOptions args = .ok (some o')) ↔
    ∀ arg ∈ args, arg.Valid := by
  induction args generalizing o with
  | nil => simp [readOptions]
  | cons arg args ih =>
    rw [List.forall_mem_cons]
    constructor
    · rintro ⟨o', h⟩
      rw [readOptions] at h
      split at h
      · cases h
      · cases Except.ok.inj h
      · next o₁ hread => exact ⟨(accepted_of_readOption hread).valid, ih.1 ⟨o', h⟩⟩
    · rintro ⟨hvalid, hrest⟩
      obtain ⟨o₁, hread⟩ := exists_readOption hvalid o
      obtain ⟨o', h⟩ := (@ih o₁).2 hrest
      exact ⟨o', by rw [readOptions, hread]; exact h⟩

/-- **One round of the loop.** -/
lemma Given.step (h : Given before o) (haccepted : Accepted o arg o') :
    Given (before ++ [arg]) o' := by
  obtain ⟨hnumber, hpath, hagent, hheaders⟩ := h
  cases haccepted with
  | @numConnections optarg n hread hpos =>
    constructor
    · have hsome : (CommandOption.numConnections optarg).number = some n := hread
      rw [filterMap_concat_some hsome, List.getLast?_concat, Option.getD_some]
    · rwa [filterMap_concat_none rfl]
    · rwa [filterMap_concat_none rfl]
    · rwa [filterMap_concat_none rfl]
  | @output optarg hne =>
    constructor
    · rwa [filterMap_concat_none rfl]
    · have hsome : (CommandOption.output optarg).path = some optarg := rfl
      rw [filterMap_concat_some hsome, List.getLast?_concat, Option.getD_some]
    · rwa [filterMap_concat_none rfl]
    · rwa [filterMap_concat_none rfl]
  | @userAgent optarg hne =>
    constructor
    · rwa [filterMap_concat_none rfl]
    · rwa [filterMap_concat_none rfl]
    · have hsome : (CommandOption.userAgent optarg).agent = some optarg := rfl
      rw [filterMap_concat_some hsome, List.getLast?_concat, Option.getD_some]
    · rwa [filterMap_concat_none rfl]
  | @header optarg name value hparse =>
    have hsome : (CommandOption.header optarg).field = some (name, value) := by
      rw [CommandOption.field, hparse]
      rfl
    constructor
    · rwa [filterMap_concat_none rfl]
    · rwa [filterMap_concat_none rfl]
    · rwa [filterMap_concat_none rfl]
    · intro key
      -- what is there already stays
      rw [filterMap_concat_some hsome, find_concat, ← hheaders]
      show SortedMap.find (SortedMap.insertNew bytesLt name value o.extraHeaders) key = _
      rw [SortedMap.find_insertNew]
      by_cases hkey : key = name
      · rw [if_pos hkey, if_pos hkey, hkey]
        cases SortedMap.find o.extraHeaders name <;> rfl
      · rw [if_neg hkey, if_neg hkey, Option.or_none]

lemma Accepted.functional (h : Functional o.extraHeaders) (haccepted : Accepted o arg o') :
    Functional o'.extraHeaders := by
  cases haccepted with
  | numConnections hread hpos => exact h
  | output hne => exact h
  | userAgent hne => exact h
  | header hparse => exact h.insertNew _ _

lemma Given.readOptions (h : Given before o) (hfunctional : Functional o.extraHeaders)
    (hread : o.readOptions args = .ok (some o')) :
    Given (before ++ args) o' ∧ Functional o'.extraHeaders := by
  induction args generalizing o before with
  | nil =>
    obtain rfl := Option.some.inj (Except.ok.inj hread)
    rw [List.append_nil]
    exact ⟨h, hfunctional⟩
  | cons arg args ih =>
    rw [Options.readOptions] at hread
    split at hread
    · cases hread
    · cases Except.ok.inj hread
    · next o₁ harg =>
      have haccepted := accepted_of_readOption harg
      rw [List.append_cons]
      exact ih (h.step haccepted) (haccepted.functional hfunctional) hread

lemma given_default : Given [] {} where
  connectionsNumber := rfl
  outputPath := rfl
  userAgent := rfl
  extraHeaders _ := rfl

/-- **The command line.**  It is accepted if and only if each of its arguments is valid and none
asks for help; then the last number of connections, output and user agent count, and of each header
the first. -/
theorem command_line_meaning (args : List CommandOption) :
    ((∃ o, Options.readOptions {} args = .ok (some o)) ↔ ∀ arg ∈ args, arg.Valid) ∧
      ∀ o, Options.readOptions {} args = .ok (some o) → Given args o :=
  ⟨exists_readOptions_iff, fun _ hread => (given_default.readOptions functional_nil hread).1⟩

end Options

/-! ## The servers -/

/-- The field of a request that these arguments ask for, beside `Cookie` and `Range`. -/
def fieldFor (args : List CommandOption) (host name : Bytes) : Option Bytes :=
  (SortedMap.find (args.filterMap (·.field)) name).or
    (if name = bytes "User-Agent" then
      some ((args.filterMap (·.agent)).getLast?.getD (bytes "Cld/" ++ kCldVersion))
    else if name = bytes "Host" then some host
    else none)

/-- The headers of the constructor. -/
lemma Request.find_create {o : Options} (h : Options.Functional o.extraHeaders)
    (method : Bytes) (url : Url) (name : Bytes) :
    SortedMap.find (Request.create method url o).headers name =
      (SortedMap.find o.extraHeaders name).or
        (if name = bytes "User-Agent" then some o.userAgent
        else if name = bytes "Host" then some url.host
        else none) := by
  show SortedMap.find (o.extraHeaders.foldl _ _) name = _
  rw [SortedMap.find_foldl_assign, h.find_reverse]
  show (SortedMap.find _ _).or (SortedMap.find (SortedMap.assign _ _ _ (SortedMap.assign _ _ _ _))
    _) = _
  rw [SortedMap.find_assign, SortedMap.find_assign, SortedMap.find_nil]

namespace Redirection

variable {s s' : Redirection} {args : List CommandOption} {contact : Contact}

/-- The options still hold what the command line asks for, but for a cookie. -/
structure Holding (args : List CommandOption) (o : Options) : Prop where
  userAgent : o.userAgent =
    (args.filterMap (·.agent)).getLast?.getD (bytes "Cld/" ++ kCldVersion)
  extraHeaders : ∀ name, name ≠ kCookie → SortedMap.find o.extraHeaders name =
    SortedMap.find (args.filterMap (·.field)) name
  functional : Options.Functional o.extraHeaders

/-- The request is for this URL, with the fields that the command line asks for. -/
structure AskedFor (args : List CommandOption) (url : Url) (r : Request) : Prop where
  resource : r.resource = url.resource
  headers : ∀ name, name ≠ kCookie → name ≠ bytes "Range" →
    SortedMap.find r.headers name = fieldFor args url.host name

/-- **The invariant of the loop.** -/
structure Reaching (args : List CommandOption) (s : Redirection) : Prop where
  options : Holding args s.options
  found : ∀ request response, s.phase = .found request response → AskedFor args s.url request

lemma Holding.askedFor {o : Options} (h : Holding args o) (method : Bytes) (url : Url) :
    AskedFor args url (Request.create method url o) where
  resource := rfl
  headers name hname _ := by
    rw [Request.find_create h.functional, h.extraHeaders name hname, h.userAgent]
    rfl

lemma Holding.named {o : Options} (h : Holding args o) (url : Url) :
    Holding args (o.named url) where
  userAgent := by rw [Options.named_userAgent, h.userAgent]
  extraHeaders := by rw [Options.named_extraHeaders]; exact h.extraHeaders
  functional := by rw [Options.named_extraHeaders]; exact h.functional

/-- A cookie is put where no other field is. -/
lemma Holding.withCookie {o : Options} (h : Holding args o) (response : Response) :
    Holding args (o.withCookie response) := by
  have hheaders := o.withCookie_extraHeaders response
  split_ifs at hheaders with hset
  · refine ⟨by rw [Options.withCookie_userAgent, h.userAgent], fun name hname => ?_, ?_⟩
    · rw [hheaders, SortedMap.find_insertNew, if_neg hname, h.extraHeaders name hname]
    · rw [hheaders]
      exact h.functional.insertNew _ _
  · refine ⟨by rw [Options.withCookie_userAgent, h.userAgent], ?_, ?_⟩
    · rw [hheaders]
      exact h.extraHeaders
    · rw [hheaders]
      exact h.functional

/-- **Every round keeps the invariant.** -/
lemma Reaching.step (h : Reaching args s) (hstep : s.step contact = some s') :
    (∃ e, s'.phase = .failed e) ∨ Reaching args s' := by
  obtain ⟨-, hfailed | ⟨response, find, url, -, hanalyse, rfl⟩⟩ := step_cases hstep
  · exact Or.inl hfailed
  · refine Or.inr ⟨(h.options.named s.url).withCookie response, fun request response' hphase => ?_⟩
    simp only at hphase
    split_ifs at hphase with hfind
    obtain ⟨rfl, -⟩ := Phase.found.inj hphase
    rcases analyse_cases hanalyse with ⟨hnot, -, -⟩ | ⟨-, -, rfl⟩
    · rw [hnot] at hfind
      cases hfind
    · exact h.options.askedFor _ _

lemma Reaching.run {contacts : List Contact} (h : Reaching args s)
    (hrun : Transition.run Redirection.step s contacts = some s') :
    (∃ e, s'.phase = .failed e) ∨ Reaching args s' := by
  apply Transition.run_invariant
    (P := fun s => (∃ e, s.phase = .failed e) ∨ Reaching args s) _ (Or.inr h) hrun
  rintro s contact s' (⟨e, hfailed⟩ | hreaching) hstep
  · obtain ⟨hlooking, -⟩ := step_cases hstep
    rw [hfailed] at hlooking
    cases hlooking
  · exact hreaching.step hstep

/-- What is sent next. -/
lemma Reaching.sent (h : Reaching args s) {r : Request} (hsent : Sent s r) :
    AskedFor args s.url r := by
  cases hsent with
  | head options hphase hname =>
    rw [Options.nameOutput_eq] at hname
    obtain rfl := Except.ok.inj hname
    exact (h.options.named s.url).askedFor _ _
  | single request response get hphase hselect =>
    obtain ⟨hresource, hheaders⟩ := h.found request response hphase
    unfold selectDownload at hselect
    simp only at hselect
    split at hselect
    · obtain rfl := Selected.single.inj hselect
      exact ⟨hresource, hheaders⟩
    · cases hselect
  | multi request response cfg hphase hselect begin end_ =>
    obtain ⟨hresource, hheaders⟩ := h.found request response hphase
    unfold selectDownload at hselect
    simp only at hselect
    split at hselect
    · cases hselect
    · obtain rfl := Selected.multi.inj hselect
      refine ⟨hresource, fun name hcookie hrange => ?_⟩
      show SortedMap.find (SortedMap.assign _ _ _ _) name = _
      rw [SortedMap.find_assign, if_neg hrange]
      exact hheaders name hcookie hrange

lemma Sent.not_failed {r : Request} {e : Exn} (hsent : Sent s r) : s.phase ≠ .failed e := by
  intro hfailed
  cases hsent with
  | head options hphase hname => cases hphase.symm.trans hfailed
  | single request response get hphase hselect => cases hphase.symm.trans hfailed
  | multi request response cfg hphase hselect begin end_ => cases hphase.symm.trans hfailed

lemma reaching_start {options : Options} (url : Url)
    (hargs : Options.readOptions {} args = .ok (some options)) :
    Reaching args { options := options, url := url } := by
  obtain ⟨hgiven, hfunctional⟩ := Options.given_default.readOptions Options.functional_nil hargs
  exact ⟨⟨hgiven.userAgent, fun name _ => hgiven.extraHeaders name, hfunctional⟩,
    fun _ _ h => Phase.noConfusion h⟩

/-- **What the user asks for reaches every server**, if no user agent that is given has a CR or LF
in it.  Whatever the servers answer, each request of a run, along the redirects and by the download,
is read as one for the resource of the current URL with the fields of the command line: of each
header the first one given, else the user agent or the host.  The headers that are given go to every
host of the chain. -/
theorem given_headers_reach {options : Options} {urlString : Bytes} {url : Url}
    {contacts : List Contact}
    (hargs : Options.readOptions {} args = .ok (some options))
    (hagent : ∀ str, .userAgent str ∈ args → CR ∉ str ∧ LF ∉ str)
    (hurl : Url.parse urlString = .ok url)
    (hrun : Transition.run Redirection.step { options := options, url := url } contacts = some s)
    {r : Request} (hsent : Sent s r) :
    ∃ headers, Request.recover r.request = some (r.method, s.url.resource, headers) ∧
      ∀ name, name ≠ kCookie → name ≠ bytes "Range" →
        SortedMap.find headers name = fieldFor args s.url.host name := by
  have hoptions : options.Clean :=
    Options.clean_default.readOptions (fun str hstr => ⟨(hagent str hstr).1, (hagent str hstr).2⟩)
      hargs
  have hclean : s.Clean :=
    Transition.run_invariant (fun _ _ _ hs hstep => hs.step hstep)
      (⟨hoptions, Url.clean_of_parse hurl, fun _ _ h => Phase.noConfusion h⟩ :
        Clean { options := options, url := url }) hrun
  rcases (reaching_start url hargs).run hrun with ⟨e, hfailed⟩ | hreaching
  · exact absurd hfailed hsent.not_failed
  · have hasked := hreaching.sent hsent
    refine ⟨r.headers, ?_, hasked.headers⟩
    rw [← hasked.resource]
    exact (hclean.sent hsent).wellFormed.recovered

/-- The options of `-H "X-Key: 1" -H "X-Key: 2"`. -/
def keyOptions : Options := { extraHeaders := [(bytes "X-Key", bytes "1")] }

/-- A key for the first host is sent to the second. -/
theorem given_headers_reach_second : ∃ s headers,
    Transition.run Redirection.step
      { options := keyOptions, url := { scheme := bytes "http", host := bytes "a" } }
      [answer "HTTP/1.1 302 Found\r\nLocation: http://b/c\r\n\r\n"] = some s ∧
    Request.recover s.headRequest.request = some (bytes "HEAD", s.url.resource, headers) ∧
    s.url.host = bytes "b" ∧ SortedMap.find headers (bytes "X-Key") = some (bytes "1") := by
  have hkey : (Transition.run Redirection.step
      { options := keyOptions, url := { scheme := bytes "http", host := bytes "a" } }
      [answer "HTTP/1.1 302 Found\r\nLocation: http://b/c\r\n\r\n"]).map
        (fun s => (s.phase.isLooking, s.url.host)) = some (true, bytes "b") := by
    decide +kernel
  obtain ⟨s, hrun, hval⟩ := Option.map_eq_some_iff.1 hkey
  obtain ⟨hlooking, hhost⟩ := Prod.mk.inj hval
  have hphase := Phase.isLooking_iff.1 hlooking
  have hargs : Options.readOptions {} [.header (bytes "X-Key: 1"), .header (bytes "X-Key: 2")] =
      .ok (some keyOptions) := by rfl
  have hurl : Url.parse (bytes "http://a") = .ok { scheme := bytes "http", host := bytes "a" } := by
    decide +kernel
  have hsent : Sent s s.headRequest := by
    rw [← named_headRequest]
    exact .head _ hphase (Options.nameOutput_eq _ _)
  obtain ⟨headers, hrecovered, hfields⟩ :=
    given_headers_reach hargs (by simp) hurl hrun hsent
  refine ⟨s, headers, hrun, hrecovered, hhost, ?_⟩
  rw [hfields _ (by decide) (by decide), hhost]
  decide +kernel

end Redirection

end Cld
