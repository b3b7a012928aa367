import Cld.Model.Redirect
import Cld.Url.Reference
import Mathlib.Data.List.TakeWhile

/-!
# Where a redirect leads

The redirect step tries the `Location` as a URL of its own, and if that throws as a path with
perhaps a query and a fragment, whose scheme, host and port are those of the current URL.

* A reference with a scheme is taken as it is (`denotes_of_scheme`).
* A reference without scheme and authority is no URL, so that the second way is taken
  (`denotes_of_path`).
* `//authority…` is a URL to the first expression, whose scheme is optional: the scheme of the
  current URL is lost.  If the host name is not one for that expression (an underscore, a user,
  a colon without a port), the whole is taken for a path, and the host is not changed at all
  (`not_denotes_of_authority`).

`resolution_iff` puts this together.
-/

namespace Cld

open Framework

section Shapes

variable {r : Components} {t : UrlText}

/-! ## The shapes of a reference -/

lemma starts_of_append {delimiters s x : Bytes} (hs : Starts delimiters s)
    (hx : Starts delimiters x) : Starts delimiters (s ++ x) := by
  cases s with
  | nil => exact hx
  | cons c s => exact hs

lemma Starts.mono {fewer more s : Bytes} (h : Starts fewer s) (hsub : fewer ⊆ more) :
    Starts more s := fun c hc => hsub (h c hc)

/-- Slashes at the front of a path and its suffix are those of the path. -/
lemma prefix_path_of_prefix (h : [47, 47] <+: r.path ++ r.suffix) : [47, 47] <+: r.path := by
  obtain ⟨rest, hrest⟩ := h
  have hhead : ∀ {x : Bytes}, Starts [63, 35] (47 :: x) → False := by simp [Starts]
  cases hpath : r.path with
  | nil =>
    rw [hpath, List.nil_append] at hrest
    have hstarts := r.starts_suffix
    rw [← hrest] at hstarts
    exact (hhead hstarts).elim
  | cons c path =>
    rw [hpath] at hrest
    have hcons : (47 : Byte) = c ∧ 47 :: rest = path ++ r.suffix := by simpa using hrest
    obtain ⟨rfl, hbehind⟩ := hcons
    cases path with
    | nil =>
      have hstarts := r.starts_suffix
      rw [show r.suffix = 47 :: rest from hbehind.symm] at hstarts
      exact (hhead hstarts).elim
    | cons c path =>
      have hcons : (47 : Byte) = c ∧ rest = path ++ r.suffix := by simpa using hbehind
      obtain ⟨rfl, -⟩ := hcons
      exact ⟨path, rfl⟩

/-- A path that the expressions accept ends where the query or the fragment begins. -/
lemma slashPath_notMem {path : Bytes} (hpath : ∀ c ∈ path, isPathChar c = true) :
    ∀ c ∈ 47 :: path, c ∉ ([63, 35] : Bytes) := by
  intro c hc
  rcases List.mem_cons.1 hc with rfl | hc
  · decide
  · exact isPathChar_notMem c (hpath c hc)

lemma UrlText.path_notMem (t : UrlText) : ∀ c ∈ delimited 47 t.path, c ∉ ([63, 35] : Bytes) := by
  cases hpath : t.path with
  | none => simp [delimited]
  | some path => exact slashPath_notMem (t.path_chars path hpath)

/-- A scheme begins with a letter, not with a slash. -/
lemma Components.Valid.head_ne_slash (h : r.Valid) {s : Bytes} (hscheme : r.scheme = some s) :
    r.text.head? ≠ some 47 := by
  obtain ⟨⟨c, hc, halpha⟩, -⟩ := h.scheme s hscheme
  have hhead : r.text.head? = some c := by
    rw [Components.text, hscheme]
    simp [Option.mem_def.1 hc]
  rw [hhead]
  intro hslash
  rw [Option.some.inj hslash] at halpha
  exact absurd halpha (by decide)

/-- What follows the two slashes, part by part. -/
lemma Components.Valid.eq_of_authority (h : r.Valid) {a : Authority}
    (hauthority : r.authority = some a)
    (htext : a.text ++ (r.path ++ r.suffix) = t.hostText ++ t.tail) :
    a.userinfo = none ∧ a.host = t.host ∧ a.port = t.port ∧ r.path = delimited 47 t.path ∧
      r.query = t.query ∧ r.fragment = t.fragment := by
  have hsame : a.text ++ (r.path ++ r.suffix) = (t.hostText ++ delimited 58 t.port) ++
      (delimited 47 t.path ++ (delimited 63 t.query ++ delimited 35 t.fragment)) := by
    rw [htext, UrlText.tail]
    simp
  have hvalid := h.authority a hauthority
  have hrooted : Starts [47, 63, 35] (r.path ++ r.suffix) :=
    starts_of_append ((h.rooted (by simp [hauthority])).mono (by simp))
      (r.starts_suffix.mono (by simp))
  have hrooted' : Starts [47, 63, 35] (delimited 47 t.path ++ (delimited 63 t.query ++
      delimited 35 t.fragment)) := (starts_delimited t.fragment).delimited.delimited
  obtain ⟨hauth, hrest⟩ := hrooted.cut hrooted' hvalid.text_notMem
    (notMem_of_subset t.hostPort_notMem (by simp)) hsame
  obtain ⟨huser, hhost, hport⟩ := hvalid.inj hauth
  obtain ⟨hpath, hquery, hfragment⟩ := h.path_inj t.path_notMem t.query_chars hrest
  exact ⟨huser, hhost, hport, hpath, hquery, hfragment⟩

/-- A reference with a scheme that the first expressions accept, part by part. -/
lemma Components.Valid.eq_of_scheme (h : r.Valid) {s : Bytes} (hscheme : r.scheme = some s)
    (htext : t.text = r.text) : t.scheme = r.scheme ∧ ∃ a, r.authority = some a ∧
      a.userinfo = none ∧ a.host = t.host ∧ a.port = t.port ∧ r.path = delimited 47 t.path ∧
      r.query = t.query ∧ r.fragment = t.fragment := by
  have hnoColon : ∀ c : Byte, (isAlpha c || isDigit c || (bytes "+-.").contains c) = true →
      c ∉ ([58] : Bytes) :=
    notMem_of_any (by decide)
  have hnoColon' : ∀ c : Byte, isSchemeChar c = true → c ∉ ([58] : Bytes) :=
    notMem_of_any (by decide)
  have hr : r.text = s ++ (58 :: (r.authority.elim [] (fun a => [47, 47] ++ a.text) ++
      (r.path ++ r.suffix))) := by
    rw [Components.text, hscheme]
    simp
  cases hscheme' : t.scheme with
  | none =>
    -- a text without a scheme starts with a slash
    have hslash : t.text.head? = some 47 := by
      rw [UrlText.text, hscheme']
      rfl
    exact absurd (htext ▸ hslash) (h.head_ne_slash hscheme)
  | some s' =>
    have ht : t.text = s' ++ (58 :: ([47, 47] ++ (t.hostText ++ t.tail))) := by
      rw [UrlText.text, hscheme']
      simp
    rw [ht, hr] at htext
    have hcolon : ∀ rest, Starts [58] (58 :: rest) := by simp [Starts]
    obtain ⟨rfl, hrest⟩ := (hcolon _).cut (hcolon _)
      (fun c hc => hnoColon' c (t.scheme_chars s' hscheme' c hc))
      (fun c hc => hnoColon c ((h.scheme s hscheme).2 c hc)) htext
    have hbehind := (List.cons.inj hrest).2
    refine ⟨hscheme.symm, ?_⟩
    cases hauthority : r.authority with
    | none =>
      -- the path would start with two slashes
      exfalso
      rw [hauthority, Option.elim_none, List.nil_append] at hbehind
      apply h.unambiguous hauthority
      exact prefix_path_of_prefix (hbehind ▸ List.prefix_append _ _)
    | some a =>
      rw [hauthority, Option.elim_some, List.append_assoc] at hbehind
      have hsame := (List.append_cancel_left hbehind).symm
      exact ⟨a, rfl, h.eq_of_authority hauthority hsame⟩

/-- A reference that is only a path is no URL. -/
lemma Components.Valid.not_url_of_path (h : r.Valid) (hscheme : r.scheme = none)
    (hauthority : r.authority = none) : t.text ≠ r.text := by
  intro htext
  have hr : r.text = r.path ++ r.suffix := by
    rw [Components.text, hscheme, hauthority]
    rfl
  rw [hr] at htext
  cases hscheme' : t.scheme with
  | none =>
    rw [UrlText.text, hscheme'] at htext
    apply h.unambiguous hauthority
    apply prefix_path_of_prefix
    rw [← htext]
    exact List.prefix_append _ _
  | some s' =>
    -- the scheme and its colon are the first segment of the path
    have ht : t.text = (s' ++ [58]) ++ (47 :: 47 :: (t.hostText ++ t.tail)) := by
      rw [UrlText.text, hscheme']
      simp
    have hsplit : r.path ++ r.suffix = r.firstSegment ++
        (r.path.dropWhile (· != 47) ++ r.suffix) := by
      rw [← List.append_assoc, Components.firstSegment, List.takeWhile_append_dropWhile]
    rw [ht, hsplit] at htext
    have hslash : Starts [47, 63, 35] (47 :: 47 :: (t.hostText ++ t.tail)) := by simp [Starts]
    have hbehind : Starts [47, 63, 35] (r.path.dropWhile (· != 47) ++ r.suffix) := by
      apply starts_of_append _ (r.starts_suffix.mono (by simp))
      intro c hc
      have hnot := head_dropWhile (· != 47) r.path c hc
      simpa using Or.inl hnot
    have hfront : ∀ c ∈ s' ++ [58], c ∉ ([47, 63, 35] : Bytes) := by
      have hchar : ∀ c : Byte, isSchemeChar c = true → c ∉ ([47, 63, 35] : Bytes) :=
        notMem_of_any (by decide)
      intro c hc
      rcases List.mem_append.1 hc with hc | hc
      · exact hchar c (t.scheme_chars s' hscheme' c hc)
      · rw [List.mem_singleton.1 hc]
        decide
    have hsegment : ∀ c ∈ r.firstSegment, c ∉ ([47, 63, 35] : Bytes) := by
      intro c hc hmem
      have hpath := isPchar_notMem c (h.path c ((List.takeWhile_prefix _).subset hc))
      have hne : c ≠ 47 := by simpa using List.mem_takeWhile_imp hc
      rcases List.mem_cons.1 hmem with rfl | hmem
      · exact hne rfl
      · exact hpath hmem
    obtain ⟨hfirst, -⟩ := hslash.cut hbehind hfront hsegment htext
    apply h.noscheme hscheme hauthority
    rw [← hfirst]
    simp

end Shapes

/-! ## The two ways of the redirect step -/

section Step

variable {url url' : Url} {base r : Components}

lemma fullMatch_relative {s : Bytes} {caps : Regex.Captures Byte}
    (h : relativeRegex.fullMatch s = some caps) : ∃ (path : Bytes) (query fragment : Option Bytes),
      s = 47 :: path ++ (delimited 63 query ++ delimited 35 fragment) ∧
      (∀ c ∈ path, isPathChar c = true) ∧ (∀ s ∈ query, ∀ c ∈ s, isQueryChar c = true) ∧
      caps 1 = path ∧ caps 2 = query.getD [] ∧ caps 3 = fragment.getD [] := by
  have hmatches := Regex.matches_of_fullMatch h
  simp only [relativeRegex, Regex.seqs, Regex.matches_seq, Regex.matches_one,
    Regex.matches_group, Regex.matches_star, matches_partRegex, Regex.matches_empty] at hmatches
  obtain ⟨_, _, _, rfl, ⟨c, hc, rfl, rfl⟩, path, _, _, rfl, ⟨_, ⟨hpath, rfl⟩, rfl⟩, _, _, _, rfl,
    ⟨query, rfl, hquery, rfl⟩, _, _, _, rfl, ⟨fragment, rfl, hfragment, rfl⟩, rfl, rfl⟩ := hmatches
  obtain rfl := eq_of_beq hc
  exact ⟨path, query, fragment, by simp, hpath, hquery, by simp, by simp, by simp⟩

/-- **The two ways**: the reference is a URL, or it is none and is taken for a path. -/
lemma followLocation_cases {s : Bytes} (h : followLocation url s = .ok url') :
    (∃ t : UrlText, t.text = s ∧ t.url = url') ∨
      ((∀ t : UrlText, t.text ≠ s) ∧ ∃ (path : Bytes) (query fragment : Option Bytes),
        s = 47 :: path ++ (delimited 63 query ++ delimited 35 fragment) ∧
        (∀ c ∈ path, isPathChar c = true) ∧ (∀ s ∈ query, ∀ c ∈ s, isQueryChar c = true) ∧
        url' = { url with
          path := path, query := query.getD [], fragment := fragment.getD [] }) := by
  unfold followLocation at h
  split_ifs at h
  split at h
  · next hparse =>
    obtain rfl := Except.ok.inj h
    exact Or.inl (UrlText.parse_eq_ok_iff.1 hparse)
  · next hparse =>
    split at h
    · next hmatch =>
      obtain rfl := Except.ok.inj h
      obtain ⟨path, query, fragment, hs, hpath, hquery, h1, h2, h3⟩ := fullMatch_relative hmatch
      refine Or.inr ⟨?_, path, query, fragment, hs, hpath, hquery, by rw [h1, h2, h3]⟩
      intro t ht
      rw [← ht, t.parse_text] at hparse
      cases hparse
    · cases h

lemma denotes_of_scheme (hr : r.Valid) (hscheme : r.scheme ≠ none)
    (hstep : followLocation url r.text = .ok url') : url'.Denotes (base.resolve r) := by
  obtain ⟨s, hs⟩ := Option.ne_none_iff_exists'.1 hscheme
  have hresolve : base.resolve r = r := by
    rw [Components.resolve, if_pos hscheme]
  rw [hresolve]
  rcases followLocation_cases hstep with ⟨t, htext, rfl⟩ | ⟨-, path, query, fragment, htext, -⟩
  · obtain ⟨hscheme', a, hauthority, huser, hhost, hport, hpath, hquery, hfragment⟩ :=
      hr.eq_of_scheme hs htext
    refine ⟨?_, ⟨a, hauthority, huser, hhost, ?_⟩, ?_, ?_, ?_⟩
    · show r.scheme = some (t.scheme.getD [])
      rw [hscheme', hs]
      rfl
    · show a.port.getD [] = t.port.getD []
      rw [hport]
    · show r.path = 47 :: t.path.getD [] ∨ r.path = [] ∧ t.path.getD [] = []
      rw [hpath]
      cases t.path with
      | none => exact Or.inr ⟨rfl, rfl⟩
      | some path => exact Or.inl rfl
    · show r.query.getD [] = t.query.getD []
      rw [hquery]
    · show r.fragment.getD [] = t.fragment.getD []
      rw [hfragment]
  · have hslash : r.text.head? = some 47 := by
      rw [htext]
      rfl
    exact absurd hslash (hr.head_ne_slash hs)

lemma denotes_of_path (hbase : url.Denotes base) (hr : r.Valid) (hscheme : r.scheme = none)
    (hauthority : r.authority = none) (hstep : followLocation url r.text = .ok url') :
    url'.Denotes (base.resolve r) := by
  rcases followLocation_cases hstep with
    ⟨t, htext, -⟩ | ⟨-, path, query, fragment, htext, hpath, hquery, rfl⟩
  · exact absurd htext (hr.not_url_of_path hscheme hauthority)
  · have hr' : r.text = r.path ++ r.suffix := by
      rw [Components.text, hscheme, hauthority]
      rfl
    rw [hr'] at htext
    obtain ⟨hpath', hquery', hfragment'⟩ := hr.path_inj (slashPath_notMem hpath) hquery htext
    have hresolve : base.resolve r =
        { r with scheme := base.scheme, authority := base.authority } := by
      simp [Components.resolve, hscheme, hauthority, hpath']
    rw [hresolve]
    refine ⟨hbase.scheme, hbase.authority, Or.inl hpath', ?_, ?_⟩
    · show r.query.getD [] = query.getD []
      rw [hquery']
    · show r.fragment.getD [] = fragment.getD []
      rw [hfragment']

lemma not_denotes_of_authority (hurl : url.scheme ≠ []) (hbase : url.Denotes base)
    (hr : r.Valid) (hscheme : r.scheme = none) (hauthority : r.authority ≠ none)
    (hstep : followLocation url r.text = .ok url') : ¬ url'.Denotes (base.resolve r) := by
  intro hdenotes
  obtain ⟨a, ha⟩ := Option.ne_none_iff_exists'.1 hauthority
  have hresolve : base.resolve r = { r with scheme := base.scheme } := by
    simp [Components.resolve, hscheme, ha]
  have hr' : r.text = (47 :: 47 :: (a.text ++ r.path)) ++ r.suffix := by
    rw [Components.text, hscheme, ha]
    simp
  rw [hresolve] at hdenotes
  rcases followLocation_cases hstep with
    ⟨t, htext, rfl⟩ | ⟨-, path, query, fragment, htext, hpath, hquery, rfl⟩
  · have hsame : url.scheme = t.scheme.getD [] :=
      Option.some.inj (hbase.scheme.symm.trans hdenotes.scheme)
    cases hscheme' : t.scheme with
    | none =>
      rw [hscheme'] at hsame
      exact hurl hsame
    | some s =>
      -- a text with a scheme does not begin with a slash
      rw [UrlText.text, hscheme', hr'] at htext
      cases s with
      | nil => exact absurd (congrArg List.head? htext) (by simp)
      | cons c s =>
        have hc : c = 47 := by simpa using congrArg List.head? htext
        have hchar := t.scheme_chars _ hscheme' c List.mem_cons_self
        rw [hc] at hchar
        exact absurd hchar (by decide)
  · -- the host is in the path
    have hfront : ∀ c ∈ 47 :: 47 :: (a.text ++ r.path), c ∉ ([63, 35] : Bytes) := by
      intro c hc
      simp only [List.mem_cons, List.mem_append] at hc
      rcases hc with rfl | rfl | hc | hc
      · decide
      · decide
      · exact notMem_of_subset (hr.authority a ha).text_notMem (by simp) c hc
      · exact isPchar_notMem c (hr.path c hc)
    rw [hr'] at htext
    obtain ⟨hsame, -⟩ := r.starts_suffix.cut (starts_delimited fragment).delimited hfront
      (slashPath_notMem hpath) htext
    have hlong : path = 47 :: (a.text ++ r.path) := (List.cons.inj hsame).2.symm
    have hlength : path.length = (a.text ++ r.path).length + 1 := by
      rw [hlong]
      rfl
    rcases hdenotes.path with hslash | ⟨-, hnil⟩
    · have hshort : r.path.length = path.length + 1 := congrArg List.length hslash
      rw [hlength, List.length_append] at hshort
      omega
    · have hnil' : path = [] := hnil
      rw [hnil'] at hlong
      cases hlong

/-- **The new URL is the resolution of the `Location` if and only if** the `Location` has a
scheme, or has no authority either.  The reference `//authority…`, accepted one way or the
other, is the one that is not resolved. -/
theorem resolution_iff (hscheme : url.scheme = bytes "http" ∨ url.scheme = bytes "https")
    (hbase : url.Denotes base) (hr : r.Valid) (hstep : followLocation url r.text = .ok url') :
    url'.Denotes (base.resolve r) ↔ r.scheme ≠ none ∨ r.authority = none := by
  have hurl : url.scheme ≠ [] := by
    rcases hscheme with hscheme | hscheme <;> rw [hscheme] <;> decide
  constructor
  · intro hdenotes
    by_contra hnot
    obtain ⟨hnone, hauthority⟩ := not_or.1 hnot
    exact not_denotes_of_authority hurl hbase hr (not_not.1 hnone) hauthority hstep hdenotes
  · intro h
    by_cases hnone : r.scheme = none
    · exact denotes_of_path hbase hr hnone (h.resolve_left (not_not.2 hnone)) hstep
    · exact denotes_of_scheme hr hnone hstep

end Step

section Samples

/-- `http://a:80/x` -/
def sampleUrl : Url where
  scheme := bytes "http"
  host := bytes "a"
  port := bytes "80"
  path := bytes "x"

def sampleBase : Components where
  scheme := some (bytes "http")
  authority := some ⟨none, false, bytes "a", some (bytes "80")⟩
  path := bytes "/x"
  query := none
  fragment := none

lemma sampleUrl_denotes : sampleUrl.Denotes sampleBase :=
  ⟨rfl, ⟨_, rfl, rfl, rfl, rfl⟩, Or.inl (by decide), rfl, rfl⟩

/-- `/b?q` -/
def pathReference : Components where
  scheme := none
  authority := none
  path := bytes "/b"
  query := some (bytes "q")
  fragment := none

lemma pathReference_valid : pathReference.Valid where
  scheme := by rintro _ ⟨⟩
  authority := by rintro _ ⟨⟩
  path := by simp [pathReference, bytes, isPchar, isRegNameChar, isUnreserved, isAlpha]
  query := by simp [pathReference, bytes, isPchar, isRegNameChar, isUnreserved, isAlpha]
  fragment := by rintro _ ⟨⟩
  rooted h := absurd rfl h
  unambiguous _ := by decide
  noscheme _ _ := by decide

/-- `//b/c` -/
def authorityReference : Components where
  scheme := none
  authority := some ⟨none, false, bytes "b", none⟩
  path := bytes "/c"
  query := none
  fragment := none

lemma authorityReference_valid : authorityReference.Valid where
  scheme := by rintro _ ⟨⟩
  authority := by
    rintro a ⟨⟩
    constructor <;> simp [bytes, isRegNameChar, isUnreserved, isAlpha]
  path := by simp [authorityReference, bytes, isPchar, isRegNameChar, isUnreserved, isAlpha]
  query := by rintro _ ⟨⟩
  fragment := by rintro _ ⟨⟩
  rooted _ := by simp [Starts, authorityReference, bytes]
  unambiguous h := by cases h
  noscheme _ h := by cases h

/-- `/b?q` from `http://a:80/x` leads to `http://a:80/b?q`. -/
theorem resolution_of_path : ∃ url', followLocation sampleUrl pathReference.text = .ok url' ∧
    url' = { sampleUrl with path := bytes "b", query := bytes "q" } ∧
      url'.Denotes (sampleBase.resolve pathReference) := by
  have hstep : followLocation sampleUrl pathReference.text =
      .ok { sampleUrl with path := bytes "b", query := bytes "q" } := by
    decide +kernel
  refine ⟨_, hstep, rfl, ?_⟩
  exact (resolution_iff (Or.inl rfl) sampleUrl_denotes pathReference_valid hstep).2 (Or.inr rfl)

/-- **The scheme is lost** on the way from `http://a:80/x` to `//b/c`. -/
theorem authority_reference_loses_scheme :
    sampleUrl.Denotes sampleBase ∧ authorityReference.Valid ∧
    authorityReference.text = bytes "//b/c" ∧
    ∃ url', followLocation sampleUrl (bytes "//b/c") = .ok url' ∧ url'.scheme = [] ∧
      (sampleBase.resolve authorityReference).scheme = some (bytes "http") ∧
      ¬ url'.Denotes (sampleBase.resolve authorityReference) := by
  have hstep : followLocation sampleUrl (bytes "//b/c") =
      .ok { host := bytes "b", path := bytes "c" } := by
    decide +kernel
  refine ⟨sampleUrl_denotes, authorityReference_valid, by decide +kernel, _, hstep, rfl,
    by decide, ?_⟩
  intro hdenotes
  exact absurd (Option.some.inj hdenotes.scheme) (by decide)

end Samples

end Cld
