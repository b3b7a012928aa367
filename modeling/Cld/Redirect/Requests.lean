import Cld.Download.Requests
import Cld.Framework.Split
import Cld.Redirect.Clean

/-!
# The requests of a run

Whatever the servers along a redirect chain answer, none of them puts a line into a later
request.

`Request.recover` is a reader of requests that knows nothing of how they were written: it cuts
at CRLF, cuts the first line at its spaces and every other line at its first `": "`.
`Request.WellFormed` says that the bytes sent are read back by it as they were meant, and a
clean request is well formed (`Request.Clean.wellFormed`).

`Sent` lists what a run of the redirect loop sends from a state: the next `HEAD` request, or
the `GET` requests of the download once the resource has been found.
-/

namespace Cld

open Framework

/-! ## Reading a request back -/

namespace Request

/-- The header fields on these lines, which an empty one must end. -/
def recoverHeaders : List Bytes → Option StringMap
  | [] => none
  | line :: rest =>
    if line = [] then if rest = [[]] then some [] else none
    else
      match Split.cut 58 [32] line, recoverHeaders rest with
      | some field, some headers => some (field :: headers)
      | _, _ => none

/-- The method, the target and the header fields of a request without a body. -/
def recover (data : Bytes) : Option (Bytes × Bytes × StringMap) :=
  match Split.pieces CR [LF] data with
  | [] => none
  | line :: rest =>
    match Split.pieces 32 [] line, recoverHeaders rest with
    | [method, target, version], some headers =>
      if version = bytes "HTTP/1.1" then some (method, target, headers) else none
    | _, _ => none

def requestLine (r : Request) : Bytes :=
  r.method ++ bytes " " ++ r.resource ++ bytes " HTTP/1.1"

def fieldLine (header : Bytes × Bytes) : Bytes := header.1 ++ bytes ": " ++ header.2

/-- The request says what it was meant to say, and nothing else. -/
structure WellFormed (r : Request) : Prop where
  /-- The target is one word. -/
  target : Visible r.resource
  /-- One line for the request, one for each header, and an empty one. -/
  lines : Split.pieces CR [LF] r.request =
    r.requestLine :: (r.headers.map fieldLine ++ [[], []])
  recovered : recover r.request = some (r.method, r.resource, r.headers)

section Clean

variable {r : Request}

lemma request_eq (hbody : r.body = []) :
    r.request = (r.requestLine :: (r.headers.map fieldLine ++ [[]])).flatMap (· ++ [CR, LF]) := by
  have hline : r.requestLine =
      r.method ++ bytes " " ++ r.resource ++ bytes " HTTP/" ++ kHttpVersion := by
    simp [requestLine, bytes, kHttpVersion]
  simp only [request, getNonBody, hbody, List.append_nil, List.flatMap_cons, List.flatMap_append,
    List.flatMap_map, List.flatMap_nil, List.nil_append, hline, crlf, fieldLine,
    List.append_assoc]

lemma Clean.oneLine_requestLine (h : r.Clean) : OneLine r.requestLine := by
  have hspace : OneLine (bytes " ") := ⟨by decide, by decide⟩
  have hversion : OneLine (bytes " HTTP/1.1") := ⟨by decide, by decide⟩
  exact ((h.method.toOneLine.append hspace).append h.resource.toOneLine).append hversion

lemma Clean.oneLine_fieldLine (h : r.Clean) {header : Bytes × Bytes}
    (hmem : header ∈ r.headers) : OneLine (fieldLine header) := by
  have hcolon : OneLine (bytes ": ") := ⟨by decide, by decide⟩
  have hfield := h.headers header hmem
  exact (hfield.name.append hcolon).append hfield.value

lemma Clean.pieces_eq (h : r.Clean) : Split.pieces CR [LF] r.request =
    r.requestLine :: (r.headers.map fieldLine ++ [[], []]) := by
  have hlines : ∀ l ∈ r.requestLine :: (r.headers.map fieldLine ++ [[]]), CR ∉ l := by
    intro l hl
    rcases List.mem_cons.1 hl with rfl | hl
    · exact h.oneLine_requestLine.cr
    · rcases List.mem_append.1 hl with hl | hl
      · obtain ⟨header, hmem, rfl⟩ := List.mem_map.1 hl
        exact (h.oneLine_fieldLine hmem).cr
      · rw [List.mem_singleton.1 hl]
        exact List.not_mem_nil
  have hpieces : Split.pieces CR [LF] (_ ++ []) = _ :=
    Split.pieces_flatMap hlines List.not_mem_nil
  rw [List.append_nil] at hpieces
  rw [request_eq h.body, hpieces, List.cons_append, List.append_assoc, List.singleton_append]

/-- The words of the request line. -/
lemma Clean.words (h : r.Clean) :
    Split.pieces 32 [] r.requestLine = [r.method, r.resource, bytes "HTTP/1.1"] := by
  have hwords : ∀ word ∈ [r.method, r.resource], (32 : Byte) ∉ word := by
    intro word hword
    rcases List.mem_pair.1 hword with rfl | rfl
    · exact h.method.space
    · exact h.resource.space
  have hversion : (32 : Byte) ∉ bytes "HTTP/1.1" := by decide
  have hline : r.requestLine =
      [r.method, r.resource].flatMap (· ++ [32]) ++ bytes "HTTP/1.1" := by
    simp [requestLine, bytes]
  rw [hline, Split.pieces_flatMap hwords hversion]
  rfl

/-- The header lines give the headers back. -/
lemma recoverHeaders_map {headers : StringMap} (hheaders : ∀ h ∈ headers, Field h) :
    recoverHeaders (headers.map fieldLine ++ [[], []]) = some headers := by
  induction headers with
  | nil => rfl
  | cons header headers ih =>
    have hfield := hheaders header List.mem_cons_self
    have hrest := ih fun h hh => hheaders h (List.mem_cons_of_mem header hh)
    have hcut : Split.cut 58 [32] (fieldLine header) = some header :=
      Split.cut_append hfield.colon header.2
    have hne : fieldLine header ≠ [] := by simp [fieldLine, bytes]
    rw [List.map_cons, List.cons_append, recoverHeaders, if_neg hne, hcut, hrest]

/-- **A clean request is well formed.** -/
lemma Clean.wellFormed (h : r.Clean) : r.WellFormed where
  target := h.resource
  lines := h.pieces_eq
  recovered := by
    unfold recover
    rw [h.pieces_eq]
    simp only [h.words, recoverHeaders_map h.headers, if_true]

end Clean

end Request

/-! ## Ranges -/

/-- A number is written with digits. -/
lemma isDigit_of_mem_repr {m : ℕ} {b : Byte} (hb : b ∈ bytes m.repr) : isDigit b = true := by
  obtain ⟨c, hc, rfl⟩ := List.mem_map.1 hb
  rw [Nat.toList_repr] at hc
  have hdigit := Nat.isDigit_of_mem_toDigits (by decide) (by decide) hc
  have hlow : 48 ≤ c.toNat := (Char.isDigit_iff_toNat.1 hdigit).1
  have hhigh : c.toNat ≤ 57 := (Char.isDigit_iff_toNat.1 hdigit).2
  have hvalue : (UInt8.ofNat c.toNat).toNat = c.toNat := by
    rw [UInt8.toNat_ofNat']
    omega
  simp only [isDigit, UInt8.le_iff_toNat_le, hvalue, Bool.and_eq_true, decide_eq_true_eq]
  exact ⟨hlow, hhigh⟩

lemma oneLine_toDecimal (n : ℤ) : OneLine (toDecimal n) := by
  have hdigits : ∀ m : ℕ, OneLine (bytes m.repr) := fun m =>
    ⟨fun hcr => absurd (isDigit_of_mem_repr hcr) (by decide),
      fun hlf => absurd (isDigit_of_mem_repr hlf) (by decide)⟩
  unfold toDecimal
  rw [Int.toString_eq_repr, Int.repr_eq_if]
  split_ifs
  · exact hdigits n.toNat
  · have hminus : OneLine (bytes "-") := ⟨by decide, by decide⟩
    have hsplit : bytes ("-" ++ (-n).toNat.repr) = bytes "-" ++ bytes (-n).toNat.repr := by
      simp [bytes]
    rw [hsplit]
    exact hminus.append (hdigits (-n).toNat)

lemma field_range (begin end_ : ℤ) : Field (bytes "Range", rangeValue begin end_) := by
  have hunit : OneLine (bytes "bytes=") := ⟨by decide, by decide⟩
  have hdash : OneLine (bytes "-") := ⟨by decide, by decide⟩
  have hvalue := ((hunit.append (oneLine_toDecimal begin)).append hdash).append
    (oneLine_toDecimal end_)
  exact field_of_literal (by decide) hvalue

/-! ## What a run sends -/

namespace Redirection

/-- The requests that may be serialised next. -/
inductive Sent (s : Redirection) : Request → Prop
  | head (options : Options) (hphase : s.phase = .looking)
      (hname : nameOutput s.options s.url = .ok options) :
      Sent s { s with options := options }.headRequest
  | single (request : Request) (response : Response) (get : Request)
      (hphase : s.phase = .found request response)
      (hselect : selectDownload s.options request response = .single get) : Sent s get
  /-- A worker is given some range of the resource. -/
  | multi (request : Request) (response : Response) (cfg : Config)
      (hphase : s.phase = .found request response)
      (hselect : selectDownload s.options request response = .multi cfg) (begin end_ : ℤ) :
      Sent s (cfg.request.set "Range" (rangeValue begin end_))

lemma clean_get {options : Options} {request : Request} {response : Response}
    (h : request.Clean) :
    (∀ get, selectDownload options request response = .single get → get.Clean) ∧
      ∀ cfg, selectDownload options request response = .multi cfg → cfg.request.Clean := by
  have hmethod : Visible (bytes "GET") := visible_of_literal (by decide)
  have hget : Request.Clean { request with method := bytes "GET" } :=
    ⟨hmethod, h.resource, h.headers, h.body⟩
  unfold selectDownload
  simp only
  split
  · refine ⟨?_, by simp⟩
    rintro get heq
    rwa [← Selected.single.inj heq]
  · refine ⟨by simp, ?_⟩
    rintro cfg heq
    rwa [← Selected.multi.inj heq]

lemma Clean.sent {s : Redirection} {r : Request} (h : s.Clean) (hsent : Sent s r) : r.Clean := by
  cases hsent with
  | head options hphase hname =>
    have hnamed : Clean { s with options := options } :=
      ⟨h.options.nameOutput hname, h.url, h.found⟩
    exact hnamed.headRequest
  | single request response get hphase hselect =>
    exact (clean_get (h.found request response hphase)).1 r hselect
  | multi request response cfg hphase hselect begin end_ =>
    have hcfg := (clean_get (h.found request response hphase)).2 cfg hselect
    exact hcfg.set (field_range begin end_)

/-- **No server can inject lines into a later request.**  The options come from the command
line, and no user agent given there holds a CR or a LF (what a header given there can hold, its
expression decides); the servers' answers are arbitrary bytes.  Then every request sent, along
the redirect chain and by the download, is one request line, one line for each header and an
empty line, and reading it gives back the method, the target and the headers. -/
theorem requests_wellFormed {args : List CommandOption} {options : Options} {urlString : Bytes}
    {url : Url} {contacts : List Contact} {s : Redirection}
    (hargs : Options.readOptions {} args = .ok (some options))
    (hagent : ∀ str, .userAgent str ∈ args → CR ∉ str ∧ LF ∉ str)
    (hurl : Url.parse urlString = .ok url)
    (hrun : Transition.run Redirection.step { options := options, url := url } contacts =
      some s) :
    (∀ r, Sent s r → r.WellFormed) ∧
      ∀ request response cfg, s.phase = .found request response →
        selectDownload s.options request response = .multi cfg →
        ∀ node now labels d,
          Transition.run Download.step (Download.init cfg node now) labels = some d →
          ∀ h, some h ∈ d.workers → ∃ r, Sent s r ∧ h.obj.requestData = r.request := by
  have hoptions : options.Clean :=
    Options.clean_default.readOptions (fun str hstr => ⟨(hagent str hstr).1, (hagent str hstr).2⟩)
      hargs
  have hstart : Redirection.Clean { options := options, url := url } :=
    ⟨hoptions, Url.clean_of_parse hurl, nofun⟩
  have hclean : s.Clean :=
    Transition.run_invariant (fun _ _ _ hs hstep => hs.step hstep) hstart hrun
  refine ⟨fun r hsent => (hclean.sent hsent).wellFormed, ?_⟩
  intro request response cfg hphase hselect node now labels d hdownload h hh
  obtain ⟨r, ⟨begin, end_, rfl⟩, hdata⟩ := (Download.asks_run hdownload).workers h hh
  exact ⟨_, .multi request response cfg hphase hselect begin end_, hdata⟩

/-- The bytes of a server's answer, in one segment. -/
def answer (text : String) : Contact :=
  .answered ((bytes text).map fun b => .byte b false)

/-- A redirect to another path that also sets a cookie: the next request asks the same host for
the new path, and is well formed. -/
theorem requests_wellFormed_redirect : ∃ s,
    Transition.run Redirection.step
      { options := { userAgent := bytes "agent" }
        url := { scheme := bytes "http", host := bytes "a" } }
      [answer "HTTP/1.1 302 Found\r\nLocation: /b?c\r\nSet-Cookie: k=v\r\n\r\n"] = some s ∧
    s.headRequest.resource = bytes "/b?c" ∧ ∀ r, Sent s r → r.WellFormed := by
  have hkey : (Transition.run Redirection.step
      { options := { userAgent := bytes "agent" }
        url := { scheme := bytes "http", host := bytes "a" } }
      [answer "HTTP/1.1 302 Found\r\nLocation: /b?c\r\nSet-Cookie: k=v\r\n\r\n"]).map
        (fun s => s.headRequest.resource) = some (bytes "/b?c") := by
    decide +kernel
  obtain ⟨s, hrun, hresource⟩ := Option.map_eq_some_iff.1 hkey
  have hread : Options.readOptions {} [.userAgent (bytes "agent")] =
      .ok (some { userAgent := bytes "agent" }) := rfl
  have hurl : Url.parse (bytes "http://a") =
      .ok { scheme := bytes "http", host := bytes "a" } := by
    decide +kernel
  have hagent : ∀ str, .userAgent str ∈ [CommandOption.userAgent (bytes "agent")] →
      CR ∉ str ∧ LF ∉ str := by
    intro str hstr
    obtain rfl := CommandOption.userAgent.inj (List.mem_singleton.1 hstr)
    decide
  exact ⟨s, hrun, hresource, (requests_wellFormed hread hagent hurl hrun).1⟩

end Redirection

end Cld
