import Cld.Framework.Split
import Cld.Model.Url

/-!
# The texts that are accepted as URLs

What the two expressions of `Url` accept, as a description of the text.

* `UrlText` is a text with its parts marked: each delimited part is there or not, the host is
  bracketed or not, and the fields say which characters a part may have.
* `parse_eq_ok_iff` is the constructor on such texts: it accepts exactly these, and reads the
  parts off them.  A part that is not there and a part that is empty are the same to it.

No part can contain the delimiter it is ended by, so that the greedy search never has to give
anything back (`Starts`).
-/

namespace Cld

open Framework

/-! ## Texts -/

/-- The text of a part that may be missing, behind its delimiter. -/
def delimited (delimiter : Byte) (part : Option Bytes) : Bytes :=
  part.elim [] fun s => delimiter :: s

/-- A text that is accepted as a URL, taken apart. -/
structure UrlText where
  scheme : Option Bytes
  bracketed : Bool
  host : Bytes
  port : Option Bytes
  path : Option Bytes
  query : Option Bytes
  fragment : Option Bytes
  scheme_chars : ∀ s ∈ scheme, ∀ c ∈ s, isSchemeChar c = true
  host_chars : ∀ c ∈ host, (if bracketed then isIpv6Char c else isHostChar c) = true
  port_chars : ∀ s ∈ port, s ≠ [] ∧ ∀ c ∈ s, isDigit c = true
  path_chars : ∀ s ∈ path, ∀ c ∈ s, isPathChar c = true
  query_chars : ∀ s ∈ query, ∀ c ∈ s, isQueryChar c = true
  fragment_chars : ∀ s ∈ fragment, ∀ c ∈ s, isQueryChar c = true

namespace UrlText

/-- The host as it is written. -/
def hostText (t : UrlText) : Bytes := if t.bracketed then 91 :: t.host ++ [93] else t.host

/-- What follows the host. -/
def tail (t : UrlText) : Bytes :=
  delimited 58 t.port ++ (delimited 47 t.path ++ (delimited 63 t.query ++
    delimited 35 t.fragment))

/-- The text itself. -/
def text (t : UrlText) : Bytes :=
  t.scheme.elim [] (· ++ [58]) ++ ([47, 47] ++ (t.hostText ++ t.tail))

/-- The URL that is read off the text. -/
def url (t : UrlText) : Url where
  scheme := t.scheme.getD []
  host := t.host
  port := t.port.getD []
  path := t.path.getD []
  query := t.query.getD []
  fragment := t.fragment.getD []

end UrlText

/-! ## Where a part ends -/

/-- The text is empty or starts with one of these characters. -/
def Starts (delimiters : Bytes) (s : Bytes) : Prop := ∀ c ∈ s.head?, c ∈ delimiters

section Parts

variable {delimiters rest s : Bytes} {delimiter : Byte} {part : Option Bytes}
  {p : Byte → Bool} {n : ℕ} {caps : Regex.Captures Byte} {β : Type*} {b : β}
  {k : Bytes → Regex.Captures Byte → Option β}

lemma starts_nil : Starts delimiters [] := by simp [Starts]

lemma Starts.delimited (h : Starts delimiters rest) :
    Starts (delimiter :: delimiters) (delimited delimiter part ++ rest) := by
  cases part with
  | none => exact fun c hc => List.mem_cons_of_mem delimiter (h c hc)
  | some s =>
    intro c hc
    obtain rfl := Option.some.inj hc
    exact List.mem_cons_self

lemma Starts.avoids (h : Starts delimiters rest) (hp : delimiters.any p = false) :
    ∀ c ∈ rest.head?, p c = false := by
  intro c hc
  rw [List.any_eq_false] at hp
  exact Bool.eq_false_iff.2 (hp c (h c hc))

/-- The characters of a class that no delimiter belongs to. -/
lemma notMem_of_any (hp : delimiters.any p = false) : ∀ c : Byte, p c = true → c ∉ delimiters := by
  intro c hc hmem
  rw [List.any_eq_false] at hp
  exact hp c hmem hc

/-- **A text is cut in one way only** at the first of its delimiters. -/
lemma Starts.cut {s s' x x' : Bytes} (hx : Starts delimiters x) (hx' : Starts delimiters x')
    (hs : ∀ c ∈ s, c ∉ delimiters) (hs' : ∀ c ∈ s', c ∉ delimiters) (h : s ++ x = s' ++ x') :
    s = s' ∧ x = x' := by
  refine append_inj_of_runs (p := fun c => decide (c ∉ delimiters))
    (fun c hc => decide_eq_true (hs c hc)) (fun c hc => decide_eq_true (hs' c hc)) ?_ ?_ h
  · exact fun c hc => decide_eq_false (not_not.2 (hx c hc))
  · exact fun c hc => decide_eq_false (not_not.2 (hx' c hc))

lemma starts_delimited (part : Option Bytes) : Starts [delimiter] (delimited delimiter part) := by
  have hstarts : Starts [delimiter] (delimited delimiter part ++ []) := starts_nil.delimited
  rwa [List.append_nil] at hstarts

lemma delimited_inj {part part' : Option Bytes}
    (h : delimited delimiter part = delimited delimiter part') : part = part' := by
  cases part with
  | none =>
    cases part' with
    | none => rfl
    | some s' => cases h
  | some s =>
    cases part' with
    | none => cases h
    | some s' => rw [(List.cons.inj h).2]

/-- The captures after a part. -/
def note (caps : Regex.Captures Byte) (n : ℕ) (part : Option Bytes) : Regex.Captures Byte :=
  part.elim caps (Function.update caps n)

@[simp] lemma note_apply (m : ℕ) :
    note caps n part m = if m = n then part.getD (caps m) else caps m := by
  cases part with
  | none => simp [note]
  | some s => simp [note, Function.update_apply]

/-- A delimited part. -/
lemma exec_partRegex (hpart : ∀ s ∈ part, ∀ c ∈ s, p c = true) (hrest : Starts delimiters rest)
    (hp : delimiters.any p = false) (hdelimiter : delimiter ∉ delimiters)
    (hk : k rest (note caps n part) = some b) :
    Regex.exec (partRegex delimiter n p) (delimited delimiter part ++ rest) caps k = some b := by
  unfold partRegex
  cases part with
  | none =>
    rw [Regex.exec_opt_skip]
    · exact hk
    · rw [Regex.exec_seqs_cons]
      apply Regex.exec_one_none
      apply hrest.avoids
      rw [List.any_eq_false]
      intro c hc hcd
      obtain rfl := eq_of_beq hcd
      exact hdelimiter hc
  | some s =>
    apply Regex.exec_opt_take
    show Regex.exec _ (delimiter :: (s ++ rest)) caps k = some b
    rw [Regex.exec_seqs_cons, Regex.exec, if_pos (beq_self_eq_true delimiter),
      Regex.exec_seqs_cons]
    exact Regex.exec_group_star (hpart s rfl) (hrest.avoids hp) hk

lemma exec_portRegex (hpart : ∀ s ∈ part, s ≠ [] ∧ ∀ c ∈ s, isDigit c = true)
    (hrest : Starts [47, 63, 35] rest) (hk : k rest (note caps 3 part) = some b) :
    Regex.exec portRegex (delimited 58 part ++ rest) caps k = some b := by
  unfold portRegex
  cases part with
  | none =>
    rw [Regex.exec_opt_skip]
    · exact hk
    · rw [Regex.exec_seqs_cons]
      exact Regex.exec_one_none (hrest.avoids (by decide))
  | some s =>
    obtain ⟨hne, hs⟩ := hpart s rfl
    apply Regex.exec_opt_take
    show Regex.exec _ (58 :: (s ++ rest)) caps k = some b
    rw [Regex.exec_seqs_cons, Regex.exec, if_pos (by decide), Regex.exec_seqs_cons]
    exact Regex.exec_group_plus hne hs (hrest.avoids (by decide)) hk

lemma exec_schemeRegex (hpart : ∀ s ∈ part, ∀ c ∈ s, isSchemeChar c = true)
    (hrest : Starts [47] rest) (hk : k rest (note caps 1 part) = some b) :
    Regex.exec schemeRegex (part.elim [] (· ++ [58]) ++ rest) caps k = some b := by
  unfold schemeRegex
  cases part with
  | none =>
    rw [Regex.exec_opt_skip]
    · exact hk
    · show Regex.exec _ rest caps k = none
      rw [Regex.exec_seqs_cons, Regex.exec, Regex.exec_star_nil (hrest.avoids (by decide)),
        Regex.exec_seqs_cons]
      exact Regex.exec_one_none (hrest.avoids (by decide))
  | some s =>
    have htext : (some s).elim [] (· ++ [58]) ++ rest = s ++ (58 :: rest) := by simp
    rw [htext]
    apply Regex.exec_opt_take
    rw [Regex.exec_seqs_cons]
    apply Regex.exec_group_star (hpart s rfl)
    · simp only [List.head?_cons, Option.mem_some_iff, forall_eq']
      decide
    rw [Regex.exec_seqs_cons, Regex.exec, if_pos (by decide), Regex.exec_seqs_nil]
    exact hk

end Parts

/-! ## What the expressions accept -/

section Matches

variable {s : Bytes} {delimiter : Byte} {p : Byte → Bool} {n : ℕ} {caps caps' : Regex.Captures Byte}

lemma matches_partRegex : Regex.Matches (partRegex delimiter n p) s caps caps' ↔
    ∃ part, s = delimited delimiter part ∧ (∀ s ∈ part, ∀ c ∈ s, p c = true) ∧
      caps' = note caps n part := by
  simp only [partRegex, Regex.seqs, Regex.matches_opt, Regex.matches_seq, Regex.matches_one,
    Regex.matches_group, Regex.matches_star, Regex.matches_empty]
  constructor
  · rintro (⟨rfl, rfl⟩ | ⟨_, _, _, rfl, ⟨c, hc, rfl, rfl⟩, t, _, _, rfl, ⟨_, ⟨ht, rfl⟩, rfl⟩,
      rfl, rfl⟩)
    · exact ⟨none, rfl, by simp, rfl⟩
    · obtain rfl := eq_of_beq hc
      refine ⟨some t, by simp [delimited], ?_, rfl⟩
      rintro _ ⟨⟩
      exact ht
  · rintro ⟨part, rfl, hpart, rfl⟩
    cases part with
    | none => exact Or.inl ⟨rfl, rfl⟩
    | some t =>
      exact Or.inr ⟨_, _, _, (List.singleton_append).symm, ⟨_, beq_self_eq_true _, rfl, rfl⟩, t,
        [], _, (List.append_nil t).symm, ⟨_, ⟨hpart t rfl, rfl⟩, rfl⟩, rfl, rfl⟩

lemma matches_portRegex : Regex.Matches portRegex s caps caps' ↔
    ∃ part, s = delimited 58 part ∧ (∀ s ∈ part, s ≠ [] ∧ ∀ c ∈ s, isDigit c = true) ∧
      caps' = note caps 3 part := by
  simp only [portRegex, Regex.seqs, Regex.matches_opt, Regex.matches_seq, Regex.matches_one,
    Regex.matches_group, Regex.matches_plus, Regex.matches_empty]
  constructor
  · rintro (⟨rfl, rfl⟩ | ⟨_, _, _, rfl, ⟨c, hc, rfl, rfl⟩, t, _, _, rfl, ⟨_, ⟨hne, ht, rfl⟩, rfl⟩,
      rfl, rfl⟩)
    · exact ⟨none, rfl, by simp, rfl⟩
    · obtain rfl := eq_of_beq hc
      refine ⟨some t, by simp [delimited], ?_, rfl⟩
      rintro _ ⟨⟩
      exact ⟨hne, ht⟩
  · rintro ⟨part, rfl, hpart, rfl⟩
    cases part with
    | none => exact Or.inl ⟨rfl, rfl⟩
    | some t =>
      obtain ⟨hne, ht⟩ := hpart t rfl
      exact Or.inr ⟨_, _, _, (List.singleton_append).symm, ⟨_, beq_self_eq_true _, rfl, rfl⟩, t,
        [], _, (List.append_nil t).symm, ⟨_, ⟨hne, ht, rfl⟩, rfl⟩, rfl, rfl⟩

lemma matches_schemeRegex : Regex.Matches schemeRegex s caps caps' ↔
    ∃ part : Option Bytes, s = part.elim [] (· ++ [58]) ∧
      (∀ s ∈ part, ∀ c ∈ s, isSchemeChar c = true) ∧ caps' = note caps 1 part := by
  simp only [schemeRegex, Regex.seqs, Regex.matches_opt, Regex.matches_seq, Regex.matches_one,
    Regex.matches_group, Regex.matches_star, Regex.matches_empty]
  constructor
  · rintro (⟨rfl, rfl⟩ | ⟨t, _, _, rfl, ⟨_, ⟨ht, rfl⟩, rfl⟩, _, _, _, rfl, ⟨c, hc, rfl, rfl⟩,
      rfl, rfl⟩)
    · exact ⟨none, rfl, by simp, rfl⟩
    · obtain rfl := eq_of_beq hc
      refine ⟨some t, by simp, ?_, rfl⟩
      rintro _ ⟨⟩
      exact ht
  · rintro ⟨part, rfl, hpart, rfl⟩
    cases part with
    | none => exact Or.inl ⟨rfl, rfl⟩
    | some t =>
      exact Or.inr ⟨t, _, _, rfl, ⟨_, ⟨hpart t rfl, rfl⟩, rfl⟩, [58], [], _,
        (List.append_nil _).symm, ⟨58, rfl, rfl, rfl⟩, rfl, rfl⟩

end Matches

/-! ## The constructor -/

namespace UrlText

/-- What the groups hold. -/
def captures (t : UrlText) : Regex.Captures Byte :=
  note (note (note (note (note (note (fun _ => []) 1 t.scheme) 2 (some t.host)) 3 t.port) 4
    t.path) 5 t.query) 6 t.fragment

lemma starts_tail (t : UrlText) : Starts [58, 47, 63, 35] t.tail := by
  have hfragment : Starts [35] (delimited 35 t.fragment ++ []) := starts_nil.delimited
  rw [List.append_nil] at hfragment
  exact hfragment.delimited.delimited.delimited

/-- What follows the host. -/
lemma exec_tail (t : UrlText) (caps : Regex.Captures Byte) :
    Regex.exec (.seqs (portRegex :: resourceRegexes)) t.tail caps
        (fun rest caps => if rest.isEmpty then some caps else none) =
      some (note (note (note (note caps 3 t.port) 4 t.path) 5 t.query) 6 t.fragment) := by
  have hfragment : Starts [35] (delimited 35 t.fragment ++ []) := starts_nil.delimited
  have hquery : Starts [63, 35] (delimited 63 t.query ++ (delimited 35 t.fragment ++ [])) :=
    hfragment.delimited
  have htail : t.tail = delimited 58 t.port ++ (delimited 47 t.path ++ (delimited 63 t.query ++
      (delimited 35 t.fragment ++ []))) := by
    rw [List.append_nil]
    rfl
  unfold resourceRegexes
  rw [htail, Regex.exec_seqs_cons]
  apply exec_portRegex t.port_chars hquery.delimited
  rw [Regex.exec_seqs_cons]
  apply exec_partRegex t.path_chars hquery (by decide) (by decide)
  rw [Regex.exec_seqs_cons]
  apply exec_partRegex t.query_chars hfragment (by decide) (by decide)
  rw [Regex.exec_seqs_cons]
  apply exec_partRegex t.fragment_chars (@starts_nil []) (by decide) (by decide)
  rfl

lemma fullMatch_normal (t : UrlText) (hplain : t.bracketed = false) :
    normalUrlRegex.fullMatch t.text = some t.captures := by
  have hhost : ∀ c ∈ t.host, isHostChar c = true := by
    simpa [hplain] using t.host_chars
  have htext : t.text = t.scheme.elim [] (· ++ [58]) ++ (bytes "//" ++ (t.host ++ t.tail)) := by
    rw [text, hostText, hplain]
    rfl
  rw [htext]
  show Regex.exec (.seqs (schemeRegex :: .lit (bytes "//") :: .group 2 (.star isHostChar) ::
    portRegex :: resourceRegexes)) _ _ _ = _
  rw [Regex.exec_seqs_cons]
  apply exec_schemeRegex t.scheme_chars
  · rintro c ⟨⟩
    exact List.mem_cons_self
  rw [Regex.exec_seqs_cons, Regex.exec_lit, Regex.exec_seqs_cons]
  apply Regex.exec_group_star hhost (t.starts_tail.avoids (by decide))
  exact t.exec_tail _

lemma fullMatch_ipv6 (t : UrlText) (hbracketed : t.bracketed = true) :
    ipv6UrlRegex.fullMatch t.text = some t.captures := by
  have hhost : ∀ c ∈ t.host, isIpv6Char c = true := by
    simpa [hbracketed] using t.host_chars
  have htext : t.text = t.scheme.elim [] (· ++ [58]) ++ (bytes "//[" ++ (t.host ++
      (bytes "]" ++ t.tail))) := by
    rw [text, hostText, hbracketed]
    simp [bytes]
  rw [htext]
  show Regex.exec (.seqs (schemeRegex :: .lit (bytes "//[") :: .group 2 (.star isIpv6Char) ::
    .lit (bytes "]") :: portRegex :: resourceRegexes)) _ _ _ = _
  rw [Regex.exec_seqs_cons]
  apply exec_schemeRegex t.scheme_chars
  · rintro c ⟨⟩
    exact List.mem_cons_self
  rw [Regex.exec_seqs_cons, Regex.exec_lit, Regex.exec_seqs_cons]
  apply Regex.exec_group_star hhost
  · rintro c ⟨⟩
    decide
  rw [Regex.exec_seqs_cons, Regex.exec_lit]
  exact t.exec_tail _

/-- A text without brackets and one with them are told apart by `[`. -/
lemma bracket_mem_text {t : UrlText} (hbracketed : t.bracketed = true) : 91 ∈ t.text := by
  rw [text, hostText, hbracketed]
  simp

lemma captures_url (t : UrlText) : t.url = ⟨t.captures 1, t.captures 2, t.captures 3,
    t.captures 4, t.captures 5, t.captures 6⟩ := by
  simp [captures, url]

lemma parse_text (t : UrlText) : Url.parse t.text = .ok t.url := by
  have hmatch : (normalUrlRegex.fullMatch t.text).or (ipv6UrlRegex.fullMatch t.text) =
      some t.captures := by
    cases hbracketed : t.bracketed with
    | false => rw [t.fullMatch_normal hbracketed, Option.some_or]
    | true =>
      have hnone : normalUrlRegex.fullMatch t.text = none := by
        rw [Option.eq_none_iff_forall_ne_some]
        intro caps hcaps
        have hmatches := Regex.matches_of_fullMatch hcaps
        exact hmatches.not_mem (by decide) (bracket_mem_text hbracketed)
      rw [hnone, Option.none_or, t.fullMatch_ipv6 hbracketed]
  unfold Url.parse
  rw [hmatch, captures_url]

/-- Every accepted text can be taken apart. -/
lemma exists_of_normal {s : Bytes} {caps : Regex.Captures Byte}
    (h : normalUrlRegex.fullMatch s = some caps) :
    ∃ t : UrlText, t.bracketed = false ∧ t.text = s ∧ t.captures = caps := by
  have hmatches := Regex.matches_of_fullMatch h
  simp only [normalUrlRegex, resourceRegexes, List.cons_append, List.nil_append, Regex.seqs,
    Regex.matches_seq, matches_schemeRegex, Regex.matches_lit, Regex.matches_group,
    Regex.matches_star, matches_portRegex, matches_partRegex, Regex.matches_empty] at hmatches
  obtain ⟨_, _, _, rfl, ⟨scheme, rfl, hscheme, rfl⟩, _, _, _, rfl, ⟨rfl, rfl⟩, host, _, _, rfl,
    ⟨_, ⟨hhost, rfl⟩, rfl⟩, _, _, _, rfl, ⟨port, rfl, hport, rfl⟩, _, _, _, rfl,
    ⟨path, rfl, hpath, rfl⟩, _, _, _, rfl, ⟨query, rfl, hquery, rfl⟩, _, _, _, rfl,
    ⟨fragment, rfl, hfragment, rfl⟩, rfl, rfl⟩ := hmatches
  refine ⟨⟨scheme, false, host, port, path, query, fragment, hscheme, by simpa using hhost, hport,
    hpath, hquery, hfragment⟩, rfl, ?_, rfl⟩
  simp [text, hostText, tail, bytes]

lemma exists_of_ipv6 {s : Bytes} {caps : Regex.Captures Byte}
    (h : ipv6UrlRegex.fullMatch s = some caps) :
    ∃ t : UrlText, t.bracketed = true ∧ t.text = s ∧ t.captures = caps := by
  have hmatches := Regex.matches_of_fullMatch h
  simp only [ipv6UrlRegex, resourceRegexes, List.cons_append, List.nil_append, Regex.seqs,
    Regex.matches_seq, matches_schemeRegex, Regex.matches_lit, Regex.matches_group,
    Regex.matches_star, matches_portRegex, matches_partRegex, Regex.matches_empty] at hmatches
  obtain ⟨_, _, _, rfl, ⟨scheme, rfl, hscheme, rfl⟩, _, _, _, rfl, ⟨rfl, rfl⟩, host, _, _, rfl,
    ⟨_, ⟨hhost, rfl⟩, rfl⟩, _, _, _, rfl, ⟨rfl, rfl⟩, _, _, _, rfl, ⟨port, rfl, hport, rfl⟩,
    _, _, _, rfl, ⟨path, rfl, hpath, rfl⟩, _, _, _, rfl, ⟨query, rfl, hquery, rfl⟩, _, _, _, rfl,
    ⟨fragment, rfl, hfragment, rfl⟩, rfl, rfl⟩ := hmatches
  refine ⟨⟨scheme, true, host, port, path, query, fragment, hscheme, by simpa using hhost, hport,
    hpath, hquery, hfragment⟩, rfl, ?_, rfl⟩
  simp [text, hostText, tail, bytes]

/-- **The constructor accepts exactly these texts**, and reads their parts off them. -/
lemma parse_eq_ok_iff {s : Bytes} {url : Url} :
    Url.parse s = .ok url ↔ ∃ t : UrlText, t.text = s ∧ t.url = url := by
  constructor
  · intro h
    unfold Url.parse at h
    split at h
    · next caps hmatch =>
      obtain rfl := Except.ok.inj h
      have htext : ∃ t : UrlText, t.text = s ∧ t.captures = caps := by
        rcases Option.or_eq_some_iff.1 hmatch with hnormal | ⟨-, hipv6⟩
        · obtain ⟨t, -, htext, hcaps⟩ := exists_of_normal hnormal
          exact ⟨t, htext, hcaps⟩
        · obtain ⟨t, -, htext, hcaps⟩ := exists_of_ipv6 hipv6
          exact ⟨t, htext, hcaps⟩
      obtain ⟨t, htext, rfl⟩ := htext
      exact ⟨t, htext, t.captures_url⟩
    · cases h
  · rintro ⟨t, rfl, rfl⟩
    exact t.parse_text

end UrlText

end Cld
