import Cld.Url.Text
import Mathlib.Data.List.TakeWhile

/-!
# Printing a URL and reading it again

`Url::string` writes the parts behind their delimiters, leaves out those that are empty, and
writes the host as it is.  Of a bracketed host the brackets are not kept, so that its colons and
its per cent sign meet the expression for a host name, which has neither.

* `parse_string_of_host` is the way back where the host could have stood without brackets.
* `printing_agrees_iff` says that this is the only condition.
-/

namespace Cld

open Framework

namespace Url

/-- What stands in brackets, behind the opening one. -/
def inBrackets (s : Bytes) : Bytes := ((s.dropWhile (· != 91)).takeWhile (· != 93)).tail

/-- A part that is written only if there is something of it. -/
def present (s : Bytes) : Option Bytes := if s = [] then none else some s

lemma forall_present {part : Option Bytes} {P : Byte → Prop}
    (h : ∀ s ∈ part, ∀ c ∈ s, P c) : ∀ s ∈ present (part.getD []), s ≠ [] ∧ ∀ c ∈ s, P c := by
  cases part with
  | none => simp [present]
  | some s =>
    intro s' hs'
    unfold present at hs'
    rw [Option.getD_some] at hs'
    split_ifs at hs' with hnil
    · cases hs'
    · obtain rfl := Option.some.inj hs'
      exact ⟨hnil, h s rfl⟩

@[simp] lemma present_getD (s : Bytes) : (present s).getD [] = s := by
  unfold present
  split_ifs with hnil
  · exact hnil.symm
  · rfl

/-- The text that is printed for a URL, if its host may stand without brackets. -/
def printed (t : UrlText) (hhost : ∀ c ∈ t.host, isHostChar c = true) : UrlText where
  scheme := present (t.scheme.getD [])
  bracketed := false
  host := t.host
  port := present (t.port.getD [])
  path := some (t.path.getD [])
  query := present (t.query.getD [])
  fragment := present (t.fragment.getD [])
  scheme_chars s hs := (forall_present t.scheme_chars s hs).2
  host_chars := by simpa using hhost
  port_chars := forall_present fun s hs => (t.port_chars s hs).2
  path_chars := by
    rintro _ ⟨⟩ c hc
    cases hpath : t.path with
    | none => simp [hpath] at hc
    | some path => exact t.path_chars path hpath c (by simpa [hpath] using hc)
  query_chars s hs := (forall_present t.query_chars s hs).2
  fragment_chars s hs := (forall_present t.fragment_chars s hs).2

lemma delimited_present (delimiter : Byte) (s : Bytes) :
    delimited delimiter (present s) = if s ≠ [] then [delimiter] ++ s else [] := by
  unfold present delimited
  by_cases hnil : s = []
  · simp [hnil]
  · simp [hnil]

variable {t : UrlText}

lemma text_printed (hhost : ∀ c ∈ t.host, isHostChar c = true) :
    (printed t hhost).text = t.url.string := by
  have hscheme : ∀ s : Bytes, (present s).elim [] (· ++ [58]) =
      if s ≠ [] then s ++ bytes ":" else [] := by
    intro s
    unfold present
    by_cases hnil : s = []
    · simp [hnil]
    · simp [hnil, bytes]
  have hbytes : bytes ":" = [58] ∧ bytes "//" = [47, 47] ∧ bytes "/" = [47] ∧ bytes "?" = [63] ∧
      bytes "#" = [35] := by
    decide
  obtain ⟨hcolon, hslashes, hslash, hmark, hhash⟩ := hbytes
  unfold UrlText.text Url.string Url.resource
  simp only [printed, UrlText.hostText, UrlText.tail, UrlText.url, hscheme, delimited_present,
    hcolon, hslashes, hslash, hmark, hhash, List.append_assoc]
  rfl

/-- **The way back**, for a host that needs no brackets. -/
lemma parse_string_of_host (hhost : ∀ c ∈ t.host, isHostChar c = true) :
    parse t.url.string = .ok t.url := by
  rw [← text_printed hhost, UrlText.parse_text]
  simp [printed, UrlText.url]

/-- No bracket is printed. -/
lemma bracket_notMem_string (t : UrlText) : 91 ∉ t.url.string := by
  have hpart : ∀ {part : Option Bytes} {p : Byte → Bool}, (∀ s ∈ part, ∀ c ∈ s, p c = true) →
      p 91 = false → 91 ∉ part.getD [] := by
    intro part p hchars hp hmem
    cases part with
    | none => cases hmem
    | some s => simp [hchars s rfl 91 hmem] at hp
  have hscheme : 91 ∉ t.url.scheme := hpart t.scheme_chars (by decide)
  have hport : 91 ∉ t.url.port :=
    hpart (fun s hs => (t.port_chars s hs).2) (by decide)
  have hpath : 91 ∉ t.url.path := hpart t.path_chars (by decide)
  have hquery : 91 ∉ t.url.query := hpart t.query_chars (by decide)
  have hfragment : 91 ∉ t.url.fragment := hpart t.fragment_chars (by decide)
  have hhost : 91 ∉ t.url.host := by
    intro hmem
    have hchar := t.host_chars 91 hmem
    cases hbracketed : t.bracketed with
    | false => simp [hbracketed, isHostChar, isAlpha, isDigit, bytes] at hchar
    | true => simp [hbracketed, isIpv6Char, isAlpha, isDigit, bytes] at hchar
  have hmarks : 91 ∉ bytes ":" ∧ 91 ∉ bytes "//" ∧ 91 ∉ bytes "/" ∧ 91 ∉ bytes "?" ∧
      91 ∉ bytes "#" := by
    decide
  obtain ⟨hcolon, hslashes, hslash, hmark, hhash⟩ := hmarks
  unfold Url.string Url.resource
  simp only [List.mem_append, not_or]
  refine ⟨⟨⟨⟨?_, hslashes⟩, hhost⟩, ?_⟩, ⟨⟨hslash, hpath⟩, ?_⟩, ?_⟩
  · split_ifs
    · simp [hscheme, hcolon]
    · exact List.not_mem_nil
  · split_ifs
    · simp [hport, hcolon]
    · exact List.not_mem_nil
  · split_ifs
    · simp [hquery, hmark]
    · exact List.not_mem_nil
  · split_ifs
    · simp [hfragment, hhash]
    · exact List.not_mem_nil

lemma inBrackets_of_plain (hplain : t.bracketed = false) : inBrackets t.text = [] := by
  have hnone : 91 ∉ t.text := by
    have hmatches := Regex.matches_of_fullMatch (t.fullMatch_normal hplain)
    exact hmatches.not_mem (by decide)
  have hdrop : t.text.dropWhile (· != 91) = [] := by
    rw [List.dropWhile_eq_nil_iff]
    intro c hc
    simp only [bne_iff_ne, ne_eq]
    rintro rfl
    exact hnone hc
  rw [inBrackets, hdrop]
  rfl

lemma inBrackets_of_bracketed (hbracketed : t.bracketed = true) : inBrackets t.text = t.host := by
  have hfront : ∀ c ∈ t.scheme.elim [] (· ++ [58]) ++ [47, 47], (c != 91) = true := by
    intro c hc
    simp only [bne_iff_ne, ne_eq]
    rintro rfl
    rcases List.mem_append.1 hc with hc | hc
    · cases hscheme : t.scheme with
      | none => simp [hscheme] at hc
      | some s =>
        have hchars := t.scheme_chars s hscheme 91
        simp [hscheme, isSchemeChar, isAlpha, isDigit, bytes] at hc hchars
        exact hchars hc
    · exact absurd hc (by decide)
  have hhost : ∀ c ∈ t.host, (c != 93) = true := by
    intro c hc
    have hchar := t.host_chars c hc
    simp only [bne_iff_ne, ne_eq]
    rintro rfl
    simp [hbracketed, isIpv6Char, isAlpha, isDigit, bytes] at hchar
  have htext : t.text = (t.scheme.elim [] (· ++ [58]) ++ [47, 47]) ++
      91 :: (t.host ++ 93 :: t.tail) := by
    rw [UrlText.text, UrlText.hostText, hbracketed]
    simp
  have htake : (91 :: (t.host ++ 93 :: t.tail)).takeWhile (· != 93) = 91 :: t.host := by
    rw [List.takeWhile_cons_of_pos (by decide), List.takeWhile_append_of_pos hhost]
    simp
  rw [inBrackets, htext, List.dropWhile_append_of_pos hfront,
    List.dropWhile_cons_of_neg (by decide), htake]
  rfl

/-- A character of an address that may stand in a host name. -/
lemma isHostChar_of_isIpv6Char : ∀ c : Byte, isIpv6Char c = true → c ≠ 58 → c ≠ 37 →
    isHostChar c = true := by
  decide +kernel

/-- **Printing and parsing agree if and only if** what stands in brackets has neither a colon nor
a per cent sign.  Then the text that is printed is accepted, and has the same six parts. -/
theorem printing_agrees_iff {s : Bytes} {url : Url} (h : parse s = .ok url) :
    parse url.string = .ok url ↔ 58 ∉ inBrackets s ∧ 37 ∉ inBrackets s := by
  obtain ⟨t, rfl, rfl⟩ := UrlText.parse_eq_ok_iff.1 h
  cases hbracketed : t.bracketed with
  | false =>
    rw [inBrackets_of_plain hbracketed]
    have hhost : ∀ c ∈ t.host, isHostChar c = true := by
      simpa [hbracketed] using t.host_chars
    exact iff_of_true (parse_string_of_host hhost) ⟨List.not_mem_nil, List.not_mem_nil⟩
  | true =>
    rw [inBrackets_of_bracketed hbracketed]
    have hipv6 : ∀ c ∈ t.host, isIpv6Char c = true := by
      simpa [hbracketed] using t.host_chars
    constructor
    · intro hagain
      obtain ⟨t', htext, hurl⟩ := UrlText.parse_eq_ok_iff.1 hagain
      -- what is printed has no bracket, so that its host is a host name
      have hplain : t'.bracketed = false := by
        by_contra hnot
        have hmem := UrlText.bracket_mem_text (Bool.eq_true_of_not_eq_false hnot)
        rw [htext] at hmem
        exact bracket_notMem_string t hmem
      have hhost : ∀ c ∈ t.host, isHostChar c = true := by
        have hsame : t'.host = t.host := congrArg Url.host hurl
        rw [← hsame]
        simpa [hplain] using t'.host_chars
      exact ⟨fun hmem => absurd (hhost 58 hmem) (by decide),
        fun hmem => absurd (hhost 37 hmem) (by decide)⟩
    · rintro ⟨hcolon, hpercent⟩
      apply parse_string_of_host
      intro c hc
      apply isHostChar_of_isIpv6Char c (hipv6 c hc)
      · rintro rfl
        exact hcolon hc
      · rintro rfl
        exact hpercent hc

/-- A URL with every part but a scheme. -/
theorem printing_agrees_port : ∃ url, parse (bytes "//h:80?q=/#f") = .ok url ∧
    url.string = bytes "//h:80/?q=/#f" ∧ parse url.string = .ok url := by
  have hparse : parse (bytes "//h:80?q=/#f") =
      .ok ⟨[], bytes "h", bytes "80", [], bytes "q=/", bytes "f"⟩ := by
    decide +kernel
  refine ⟨_, hparse, by decide +kernel, ?_⟩
  exact (printing_agrees_iff hparse).2 (by decide +kernel)

/-- **The brackets of an address are lost**: what is printed for it is not even a URL. -/
theorem printing_loses_brackets : ∃ url, parse (bytes "http://[::1]:80/") = .ok url ∧
    url.string = bytes "http://::1:80/" ∧
      parse url.string = .error (.runtimeError "Invalid URL") := by
  have hparse : parse (bytes "http://[::1]:80/") =
      .ok ⟨bytes "http", bytes "::1", bytes "80", [], [], []⟩ := by
    decide +kernel
  exact ⟨_, hparse, by decide +kernel, by decide +kernel⟩

end Url

end Cld
