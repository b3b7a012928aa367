import Cld.Head.Fields

/-!
# Every valid head

A head as the grammar of HTTP/1.1 has it, without folded lines, and what is understood of it.

* `ValidHead` is the status line and the fields.  The reason may be empty, and each value has
  optional white space on either side, which is no part of it.
* `Understood` is what is owed: a `Response` with the status and the bare values.
* The expression of the start line wants a character in the reason (`startLine_fullMatch`).  That
  of a header skips the white space in front of the value and takes what follows for a part of it
  (`value_toLine`).

A value with white space behind it is longer than the bare one, alone or among other cookies, which
is why it is always missed.
-/

namespace Cld

open Framework

/-! ## The grammar -/

/-- `VCHAR` or `obs-text`. -/
def isVisible (c : Byte) : Bool := (33 ≤ c && c ≤ 126) || 128 ≤ c

/-- `field-name ":" OWS field-value OWS`. -/
structure ValidField where
  name : Bytes
  before : Bytes
  value : Bytes
  after : Bytes
  name_ne : name ≠ []
  name_token : ∀ c ∈ name, isToken c = true
  before_blank : ∀ c ∈ before, isBlank c = true
  value_chars : ∀ c ∈ value, (isVisible c || isBlank c) = true
  value_first : ∀ c ∈ value.head?, isVisible c = true
  value_last : ∀ c ∈ value.getLast?, isVisible c = true
  after_blank : ∀ c ∈ after, isBlank c = true

/-- `"HTTP/" DIGIT "." DIGIT SP 3DIGIT SP reason-phrase`, and the fields. -/
structure ValidHead where
  major : Byte
  minor : Byte
  status : ℕ
  reason : Bytes
  fields : List ValidField
  major_digit : isDigit major = true
  minor_digit : isDigit minor = true
  status_lt : status < 1000
  reason_chars : ∀ c ∈ reason, (isVisible c || isBlank c) = true

lemma isPlain_of_isVisible_or_isBlank : ∀ c : Byte, (isVisible c || isBlank c) = true →
    c ≠ CR ∧ c ≠ LF ∧ c ≠ 0 := by
  decide +kernel

lemma isSpace_of_isVisible : ∀ c : Byte, isVisible c = true → isSpace c = false := by
  decide +kernel

lemma not_version_of_isSpace : ∀ c : Byte, isSpace c = true → (isDigit c || c == 46) = false := by
  decide +kernel

namespace ValidField

variable (f : ValidField)

/-- What stands behind the colon. -/
def text : Bytes := f.before ++ (f.value ++ f.after)

lemma value_plain : IsPlain f.value := fun c hc =>
  isPlain_of_isVisible_or_isBlank c (f.value_chars c hc)

lemma text_plain : IsPlain f.text := by
  have hblank : ∀ c : Byte, isBlank c = true → c ≠ CR ∧ c ≠ LF ∧ c ≠ 0 := fun c hc =>
    isPlain_of_isVisible_or_isBlank c (by rw [hc, Bool.or_true])
  rw [text, isPlain_append, isPlain_append]
  exact ⟨fun c hc => hblank c (f.before_blank c hc), f.value_plain,
    fun c hc => hblank c (f.after_blank c hc)⟩

/-- The field as it stands on its line. -/
def toLine : FieldLine where
  name := f.name
  text := f.text
  name_ne := f.name_ne
  name_token := f.name_token
  text_plain := f.text_plain

/-- The field as it is meant. -/
def bare : HeaderField where
  name := f.name
  value := f.value
  name_ne := f.name_ne
  name_token := f.name_token
  value_plain := f.value_plain
  value_start := fun c hc => isSpace_of_isVisible c (f.value_first c hc)

/-- The field as the constructor reads it. -/
def read : HeaderField := f.toLine.toField

/-- **What is read of it**: the white space behind the value belongs to that. -/
lemma value_toLine : f.toLine.value = if f.value = [] then [] else f.value ++ f.after := by
  have hbefore : ∀ c ∈ f.before, isSpace c = true := fun c hc =>
    isSpace_of_isBlank c (f.before_blank c hc)
  have hafter : ∀ c ∈ f.after, isSpace c = true := fun c hc =>
    isSpace_of_isBlank c (f.after_blank c hc)
  have hread : f.toLine.value = (f.value ++ f.after).dropWhile isSpace :=
    List.dropWhile_append_of_pos hbefore
  rw [hread]
  by_cases hvalue : f.value = []
  · rw [if_pos hvalue, hvalue, List.nil_append, List.dropWhile_eq_nil_iff]
    exact hafter
  · rw [if_neg hvalue]
    have hstart : Unindented (f.value ++ f.after) := f.bare.value_start.append hvalue f.after
    obtain ⟨c, value, hcons⟩ := List.exists_cons_of_ne_nil hvalue
    rw [hcons, List.cons_append] at hstart ⊢
    rw [List.dropWhile_cons_of_neg (by simp [hstart c rfl])]

/-- It is the bare value if there is none, or nothing behind it. -/
lemma value_toLine_eq_iff : f.toLine.value = f.value ↔ (f.value ≠ [] → f.after = []) := by
  rw [value_toLine]
  split_ifs with hvalue
  · exact iff_of_true hvalue.symm fun hne => absurd hvalue hne
  · rw [List.append_right_eq_self]
    exact ⟨fun hafter _ => hafter, fun h => h hvalue⟩

end ValidField

/-! ## White space among the values -/

open Head

/-- A text that ends in a visible character and white space. -/
lemma endsInSemicolon_of_value (text : Bytes) {value blank : Bytes} (hne : value ≠ [])
    (hlast : ∀ c ∈ value.getLast?, isVisible c = true) (hblank : ∀ c ∈ blank, isSpace c = true) :
    endsInSemicolon (text ++ (value ++ blank)) = (value.getLast? == some 59) := by
  obtain ⟨value, c, rfl⟩ := List.eq_nil_or_concat' value |>.resolve_left hne
  have hc : isSpace c = false := isSpace_of_isVisible c (hlast c (by simp))
  have hreverse : (text ++ (value ++ [c] ++ blank)).reverse =
      blank.reverse ++ c :: (value.reverse ++ text.reverse) := by
    simp
  unfold endsInSemicolon
  rw [hreverse, List.dropWhile_append_of_pos (by simpa using hblank),
    List.dropWhile_cons_of_neg (by simp [hc])]
  simp

/-- Cookies that are joined as others are, but may be longer. -/
structure Padded (text' text : Bytes) : Prop where
  nil : text' = [] ↔ text = []
  semicolon : endsInSemicolon text' = endsInSemicolon text
  length : text.length ≤ text'.length

section Padded

variable {text text' : Bytes}

/-- What stands between two cookies. -/
def separator (text : Bytes) : Bytes :=
  if text ≠ [] ∧ endsInSemicolon text = false then bytes "; " else []

lemma joinCookie_eq (text value : Bytes) :
    joinCookie text value = text ++ (separator text ++ value) := by
  unfold joinCookie separator
  split_ifs <;> simp

lemma Padded.separator_eq (h : Padded text' text) : separator text' = separator text := by
  unfold separator
  rw [h.semicolon]
  simp only [ne_eq, h.nil]

/-- A field is longer as it is read. -/
lemma ValidField.value_prefix (f : ValidField) : f.value <+: f.toLine.value := by
  rw [f.value_toLine]
  split_ifs with hvalue
  · exact List.prefix_nil.2 hvalue
  · exact List.prefix_append f.value f.after

lemma Padded.separated (h : Padded text' text) :
    endsInSemicolon (text' ++ separator text) = endsInSemicolon (text ++ separator text) := by
  unfold separator
  split_ifs
  · have hends : ∀ s : Bytes, endsInSemicolon (s ++ bytes "; ") = true := by
      intro s
      show endsInSemicolon (s ++ ([59] ++ [32])) = true
      rw [endsInSemicolon_of_value s (List.cons_ne_nil _ _) (by simp [isVisible])
        (by simp [isSpace])]
      rfl
    rw [hends, hends]
  · rw [List.append_nil, List.append_nil, h.semicolon]

/-- One cookie more. -/
lemma Padded.join (h : Padded text' text) (f : ValidField) :
    Padded (joinCookie text' f.toLine.value) (joinCookie text f.value) := by
  have hprefix := f.value_prefix
  rw [joinCookie_eq, joinCookie_eq, h.separator_eq]
  refine ⟨?_, ?_, ?_⟩
  · rw [f.value_toLine]
    split_ifs with hvalue
    · simp [hvalue, h.nil]
    · simp [hvalue]
  · rw [f.value_toLine, ← List.append_assoc, ← List.append_assoc]
    split_ifs with hvalue
    · rw [hvalue, List.append_nil, List.append_nil, h.separated]
    · have hblank : ∀ c ∈ f.after, isSpace c = true := fun c hc =>
        isSpace_of_isBlank c (f.after_blank c hc)
      have hbare := endsInSemicolon_of_value (text ++ separator text) hvalue f.value_last
        (List.forall_mem_nil _)
      rw [List.append_nil] at hbare
      rw [endsInSemicolon_of_value _ hvalue f.value_last hblank, hbare]
  · have hlength := hprefix.length_le
    have htext := h.length
    simp only [List.length_append]
    omega

/-- Joined cookies are the same only if all of them are. -/
lemma Padded.join_eq_iff (h : Padded text' text) (f : ValidField) :
    joinCookie text' f.toLine.value = joinCookie text f.value ↔
      text' = text ∧ f.toLine.value = f.value := by
  have hprefix := f.value_prefix
  have htext := h.length
  constructor
  · intro hjoin
    rw [joinCookie_eq, joinCookie_eq, h.separator_eq] at hjoin
    have hlengths := congrArg List.length hjoin
    have hlength := hprefix.length_le
    simp only [List.length_append] at hlengths
    have hvalue : f.value = f.toLine.value := hprefix.eq_of_length (by omega)
    rw [← hvalue] at hjoin ⊢
    exact ⟨List.append_cancel_right hjoin, rfl⟩
  · rintro ⟨rfl, hvalue⟩
    rw [hvalue]

end Padded

/-! ## What the fields say -/

/-- The field counts: it is a cookie, or the last of its name. -/
def InEffect (fields : List ValidField) (f : ValidField) : Prop :=
  ∃ front back, fields = front ++ f :: back ∧
    (f.name = bytes "Set-Cookie" ∨ ∀ g ∈ back, g.name ≠ f.name)

lemma inEffect_snoc {fields : List ValidField} {f g : ValidField} :
    InEffect (fields ++ [g]) f ↔
      f = g ∨ InEffect fields f ∧ (f.name = bytes "Set-Cookie" ∨ g.name ≠ f.name) := by
  constructor
  · rintro ⟨front, back, hfields, heffect⟩
    rcases List.eq_nil_or_concat' back with rfl | ⟨back, g', rfl⟩
    · have hlast := List.append_inj_right' hfields rfl
      exact Or.inl (List.cons.inj hlast).1.symm
    · rw [← List.cons_append, ← List.append_assoc] at hfields
      obtain ⟨rfl, hlast⟩ := List.append_inj' hfields rfl
      obtain rfl := (List.cons.inj hlast).1
      refine Or.inr ⟨⟨front, back, rfl, heffect.imp_right fun hnone h hmem => ?_⟩,
        heffect.imp_right fun hnone => ?_⟩
      · exact hnone h (List.mem_append_left _ hmem)
      · exact hnone g (List.mem_append_right _ List.mem_cons_self)
  · rintro (rfl | ⟨⟨front, back, rfl, heffect⟩, hg⟩)
    · exact ⟨fields, [], rfl, Or.inr (List.forall_mem_nil _)⟩
    · refine ⟨front, back ++ [g], by simp, ?_⟩
      by_cases hcookie : f.name = bytes "Set-Cookie"
      · exact Or.inl hcookie
      · right
        rw [List.forall_mem_append, List.forall_mem_singleton]
        exact ⟨heffect.resolve_left hcookie, hg.resolve_left hcookie⟩

section Snoc

variable (name : Bytes) (fields : List ValidField) (g : ValidField)

lemma valueUnder_read_snoc : valueUnder name ((fields ++ [g]).map ValidField.read) =
    if name = g.name then
      if name = bytes "Set-Cookie" then
        joinCookie (valueUnder name (fields.map ValidField.read)) g.toLine.value
      else g.toLine.value
    else valueUnder name (fields.map ValidField.read) := by
  rw [List.map_append, List.map_singleton, valueUnder_snoc]
  rfl

lemma valueUnder_bare_snoc : valueUnder name ((fields ++ [g]).map ValidField.bare) =
    if name = g.name then
      if name = bytes "Set-Cookie" then
        joinCookie (valueUnder name (fields.map ValidField.bare)) g.value
      else g.value
    else valueUnder name (fields.map ValidField.bare) := by
  rw [List.map_append, List.map_singleton, valueUnder_snoc]
  rfl

end Snoc

lemma padded_cookies (fields : List ValidField) :
    Padded (valueUnder (bytes "Set-Cookie") (fields.map ValidField.read))
      (valueUnder (bytes "Set-Cookie") (fields.map ValidField.bare)) := by
  induction fields using List.reverseRecOn with
  | nil => exact ⟨Iff.rfl, rfl, le_rfl⟩
  | append_singleton fields g ih =>
    rw [valueUnder_read_snoc, valueUnder_bare_snoc]
    by_cases hname : bytes "Set-Cookie" = g.name
    · rw [if_pos hname, if_pos hname, if_pos rfl, if_pos rfl]
      exact ih.join g
    · rw [if_neg hname, if_neg hname]
      exact ih

/-- **What is read under a name is what is meant**, if it is so of the fields that count.  The
induction is on the fields from the last one on, as the constructor stores them. -/
lemma valueUnder_eq_iff (name : Bytes) (fields : List ValidField) :
    valueUnder name (fields.map ValidField.read) = valueUnder name (fields.map ValidField.bare) ↔
      ∀ f, InEffect fields f → f.name = name → f.toLine.value = f.value := by
  induction fields using List.reverseRecOn with
  | nil =>
    refine iff_of_true rfl ?_
    rintro f ⟨front, back, hfields, -⟩
    simp at hfields
  | append_singleton fields g ih =>
    rw [valueUnder_read_snoc, valueUnder_bare_snoc]
    simp only [inEffect_snoc]
    by_cases hname : name = g.name
    · rw [if_pos hname, if_pos hname]
      by_cases hcookie : name = bytes "Set-Cookie"
      · -- one cookie more: it and those before it count
        rw [if_pos hcookie, if_pos hcookie]
        subst hcookie
        rw [(padded_cookies fields).join_eq_iff, ih]
        constructor
        · rintro ⟨hfields, hg⟩ f (rfl | ⟨heffect, -⟩) hf
          · exact hg
          · exact hfields f heffect hf
        · intro h
          exact ⟨fun f heffect hf => h f (Or.inr ⟨heffect, Or.inl hf⟩) hf,
            h g (Or.inl rfl) hname.symm⟩
      · -- it replaces the others of its name
        rw [if_neg hcookie, if_neg hcookie]
        constructor
        · rintro hg f (rfl | ⟨-, hlast⟩) hf
          · exact hg
          · rcases hlast with hset | hne
            · exact absurd (hf.symm.trans hset) hcookie
            · exact absurd (hname.symm.trans hf.symm) hne
        · intro h
          exact h g (Or.inl rfl) hname.symm
    · rw [if_neg hname, if_neg hname, ih]
      constructor
      · rintro h f (rfl | ⟨heffect, -⟩) hf
        · exact absurd hf.symm hname
        · exact h f heffect hf
      · intro h f heffect hf
        refine h f (Or.inr ⟨heffect, Or.inr fun hg => ?_⟩) hf
        exact hname (hg.trans hf).symm

/-! ## The start line -/

/-- A line that the first expression accepts, taken apart. -/
lemma parts_of_matches {line : Bytes} {caps caps' : Regex.Captures Byte}
    (hmatch : Regex.Matches startLineRegex line caps caps') :
    ∃ version blank digits blank' reason,
      line = bytes "HTTP/" ++ (version ++ (blank ++ (digits ++ (blank' ++ (reason ++ [CR]))))) ∧
        (∀ c ∈ version, (isDigit c || c == 46) = true) ∧
        (blank ≠ [] ∧ ∀ c ∈ blank, isSpace c = true) ∧
        (digits.length = 3 ∧ ∀ c ∈ digits, isDigit c = true) ∧
        blank' ≠ [] ∧ reason ≠ [] ∧ caps' 2 = digits := by
  have hform : Regex.Matches (.seqs [.lit (bytes "HTTP/"),
      .group 1 (.plus fun c => isDigit c || c == 46), .plus isSpace,
      .group 2 (.seqs ([isDigit, isDigit, isDigit].map .one)), .plus isSpace,
      .group 3 (.plus isText), .one (· == CR)]) line caps caps' := hmatch
  rw [Regex.seqs, Regex.seqs, Regex.seqs, Regex.seqs, Regex.seqs, Regex.seqs, Regex.seqs,
    Regex.seqs] at hform
  simp only [Regex.matches_seq, Regex.matches_lit, Regex.matches_group, Regex.matches_plus,
    Regex.matches_one, Regex.matches_empty, Regex.matches_ones] at hform
  obtain ⟨_, _, _, rfl, ⟨rfl, rfl⟩, version, _, _, rfl, ⟨_, ⟨-, hversion, rfl⟩, rfl⟩,
    blank, _, _, rfl, ⟨hblank_ne, hblank, rfl⟩, digits, _, _, rfl, ⟨_, ⟨hdigits, rfl⟩, rfl⟩,
    blank', _, _, rfl, ⟨hblank'_ne, -, rfl⟩, reason, _, _, rfl, ⟨_, ⟨hreason_ne, -, rfl⟩, rfl⟩,
    _, _, _, rfl, ⟨_, hcr, rfl, rfl⟩, rfl, rfl⟩ := hform
  obtain rfl := eq_of_beq hcr
  have hthree : digits.length = 3 ∧ ∀ c ∈ digits, isDigit c = true := by
    rcases hdigits with _ | ⟨ha, _ | ⟨hb, _ | ⟨hc, _ | _⟩⟩⟩
    simp [ha, hb, hc]
  refine ⟨version, blank, digits, blank', reason, by rw [List.append_nil], hversion,
    ⟨hblank_ne, hblank⟩, hthree, hblank'_ne, hreason_ne, ?_⟩
  rw [Function.update_of_ne (by decide), Function.update_self]

namespace ValidHead

/-- The status line, without its end. -/
def startLine (h : ValidHead) : Bytes :=
  bytes "HTTP/" ++ ([h.major, 46, h.minor] ++ ([32] ++ (statusDigits h.status ++
    ([32] ++ h.reason))))

variable {h : ValidHead}

lemma startLine_ne (h : ValidHead) : h.startLine ≠ [] := by simp [startLine]

lemma version_chars (h : ValidHead) :
    ∀ c ∈ [h.major, 46, h.minor], (isDigit c || c == 46) = true := by
  simp [h.major_digit, h.minor_digit]

lemma reason_plain (h : ValidHead) : IsPlain h.reason := fun c hc =>
  isPlain_of_isVisible_or_isBlank c (h.reason_chars c hc)

lemma startLine_plain (h : ValidHead) : IsPlain h.startLine := by
  have hblank : IsPlain [32] := isPlain_of_literal (by decide)
  have hstatus : IsPlain (statusDigits h.status) :=
    isPlain_of_forall (statusDigits_isDigit h.status_lt) (by decide)
  simp only [startLine, isPlain_append]
  exact ⟨isPlain_of_literal (by decide), isPlain_of_forall h.version_chars (by decide), hblank,
    hstatus, hblank, h.reason_plain⟩

/-- With a reason, the expression accepts the line. -/
lemma exists_matches (hreason : h.reason ≠ []) : ∃ caps,
    Regex.Matches startLineRegex (h.startLine ++ [CR]) (fun _ => []) caps := by
  have htext : h.startLine ++ [CR] = bytes "HTTP/" ++ ([h.major, 46, h.minor] ++ ([32] ++
      (statusDigits h.status ++ ([32] ++ (h.reason ++ ([CR] ++ [])))))) := by
    simp [startLine]
  have hstatus : ∀ caps, Regex.Matches (.seqs ([isDigit, isDigit, isDigit].map .one))
      (statusDigits h.status) caps caps := by
    intro caps
    refine Regex.matches_ones.2 ⟨?_, rfl⟩
    simpa [statusDigits] using statusDigits_isDigit h.status_lt
  rw [htext]
  exact ⟨_, .seq (Regex.matches_lit.2 ⟨rfl, rfl⟩)
    (.seq (.group 1 (Regex.matches_plus.2 ⟨List.cons_ne_nil _ _, h.version_chars, rfl⟩))
    (.seq (Regex.matches_plus.2 ⟨List.cons_ne_nil _ _, isSpace_of_mem_blank, rfl⟩)
    (.seq (.group 2 (hstatus _))
    (.seq (Regex.matches_plus.2 ⟨List.cons_ne_nil _ _, isSpace_of_mem_blank, rfl⟩)
    (.seq (.group 3 (Regex.matches_plus.2 ⟨hreason, isText_of_isPlain h.reason_plain, rfl⟩))
    (.seq (.one (by decide) _) (.empty _)))))))⟩

/-- However the expression accepts the line, there is a reason, and the status is what it says. -/
lemma reason_of_matches {caps caps' : Regex.Captures Byte}
    (hmatch : Regex.Matches startLineRegex (h.startLine ++ [CR]) caps caps') :
    h.reason ≠ [] ∧ caps' 2 = statusDigits h.status := by
  obtain ⟨version, blank, digits, blank', reason, hline, hversion, ⟨hblank_ne, hblank⟩,
    ⟨hlength, hdigits⟩, hblank'_ne, hreason_ne, hcaps⟩ := parts_of_matches hmatch
  have hsame : [h.major, 46, h.minor] ++ ([32] ++ (statusDigits h.status ++ ([32] ++
      (h.reason ++ [CR])))) = version ++ (blank ++ (digits ++ (blank' ++ (reason ++ [CR])))) := by
    refine (List.append_right_inj (bytes "HTTP/")).1 ?_
    rw [← hline]
    simp [startLine]
  -- the version, the blank and the three digits end where others begin
  obtain ⟨-, hbehind⟩ := append_inj_of_runs h.version_chars hversion (by simp [isDigit])
    (head_of_run hblank_ne hblank not_version_of_isSpace) hsame
  have hdigits_ne : digits ≠ [] := List.ne_nil_of_length_pos (by omega)
  obtain ⟨-, hbehind⟩ := append_inj_of_runs isSpace_of_mem_blank hblank
    (head_of_run (List.cons_ne_nil _ _) (statusDigits_isDigit h.status_lt) isSpace_of_isDigit)
    (head_of_run hdigits_ne hdigits isSpace_of_isDigit) hbehind
  obtain ⟨hsame, hbehind⟩ := List.append_inj hbehind hlength.symm
  refine ⟨?_, hcaps.trans hsame.symm⟩
  intro hnil
  have hlengths := congrArg List.length hbehind
  have hblank'_pos := List.length_pos_iff.2 hblank'_ne
  have hreason_pos := List.length_pos_iff.2 hreason_ne
  simp only [hnil, List.length_append, List.length_cons, List.length_nil] at hlengths
  omega

/-- **The start line** is accepted if there is a reason, and then read for its status. -/
lemma startLine_fullMatch (h : ValidHead) :
    (h.reason = [] → startLineRegex.fullMatch (h.startLine ++ [CR]) = none) ∧
      (h.reason ≠ [] → ∃ groups, startLineRegex.fullMatch (h.startLine ++ [CR]) = some groups ∧
        groups 2 = statusDigits h.status) := by
  constructor
  · intro hnil
    rw [Option.eq_none_iff_forall_ne_some]
    intro groups hmatch
    exact (reason_of_matches (Regex.matches_of_fullMatch hmatch)).1 hnil
  · intro hreason
    have hsome := Regex.fullMatch_isSome_iff.2 (exists_matches hreason)
    obtain ⟨groups, hgroups⟩ := Option.isSome_iff_exists.1 hsome
    exact ⟨groups, hgroups, (reason_of_matches (Regex.matches_of_fullMatch hgroups)).2⟩

/-! ## The head -/

/-- The head as it is sent. -/
def toSent (h : ValidHead) : SentHead where
  startLine := h.startLine
  lines := h.fields.map fun f => .field f.toLine
  startLine_ne := h.startLine_ne
  startLine_plain := h.startLine_plain

/-- The text of the head: every line is ended by CR and LF. -/
def text (h : ValidHead) : Bytes := h.toSent.text

/-- **The head is understood**: the constructor returns a response that has the status and, for
every name, what the bare values say under it, or nothing if no field has that name. -/
def Understood (h : ValidHead) : Prop :=
  ∃ r, Response.parse h.text = some (.ok r) ∧ r.status = h.status ∧
    ∀ name, SortedMap.find r.headers name =
      Head.entryUnder name (h.fields.map ValidField.bare)

lemma fields_toSent (h : ValidHead) :
    h.toSent.fields = h.fields.map ValidField.read := by
  have hfields : (h.fields.map fun f => HeadLine.field f.toLine).filterMap HeadLine.field? =
      h.fields.map ValidField.toLine := by
    rw [List.filterMap_map]
    show h.fields.filterMap (some ∘ ValidField.toLine) = _
    rw [List.filterMap_eq_map]
  rw [SentHead.fields, toSent, hfields, List.map_map]
  rfl

lemma parse_text_of_nil (hreason : h.reason = []) :
    Response.parse h.text = some (.error (.runtimeError "Invalid response start line")) := by
  have hnone : startLineRegex.fullMatch (h.toSent.startLine ++ [CR]) = none :=
    h.startLine_fullMatch.1 hreason
  rw [text, SentHead.parse_text, SentHead.reading, hnone]

lemma parse_text_of_ne (hreason : h.reason ≠ []) :
    ∃ r, Response.parse h.text = some (.ok r) ∧ r.status = h.status ∧
      r.headers = Head.stored (h.fields.map ValidField.read) := by
  obtain ⟨groups, hgroups, hstatus⟩ := h.startLine_fullMatch.2 hreason
  have hsome : startLineRegex.fullMatch (h.toSent.startLine ++ [CR]) = some groups := hgroups
  have hall : ∀ l ∈ h.toSent.lines, l.field? ≠ none := by
    intro l hl
    obtain ⟨f, -, rfl⟩ := List.mem_map.1 hl
    exact Option.some_ne_none _
  rw [text, SentHead.parse_text, SentHead.reading, hsome]
  simp only [if_pos hall, hstatus, readDigits_statusDigits h.status_lt, h.fields_toSent]
  exact ⟨_, rfl, rfl, rfl⟩

/-- **When a valid head is understood**: it has a reason, and no white space stands behind the
value of a field that counts.  Without a reason the constructor throws; the white space it keeps. -/
theorem understood_iff (h : ValidHead) :
    h.Understood ↔
      h.reason ≠ [] ∧ ∀ f, InEffect h.fields f → f.value ≠ [] → f.after = [] := by
  by_cases hreason : h.reason = []
  · refine iff_of_false ?_ fun hgood => hgood.1 hreason
    rintro ⟨r, hparse, -⟩
    cases (parse_text_of_nil hreason).symm.trans hparse
  · obtain ⟨r, hparse, hstatus, hheaders⟩ := parse_text_of_ne hreason
    have hfind : ∀ name, (SortedMap.find r.headers name).getD [] =
        Head.valueUnder name (h.fields.map ValidField.read) := by
      intro name
      rw [hheaders, Head.find_stored]
    constructor
    · rintro ⟨r', hparse', -, hmeant⟩
      obtain rfl : r = r' := by simpa [hparse] using hparse'
      refine ⟨hreason, fun f heffect => ?_⟩
      have hbare := congrArg (Option.getD · []) (hmeant f.name)
      have hsame := (hfind f.name).symm.trans (hbare.trans (getD_entryUnder _ _))
      exact f.value_toLine_eq_iff.1 ((valueUnder_eq_iff f.name h.fields).1 hsame f heffect rfl)
    · rintro ⟨-, hgood⟩
      refine ⟨r, hparse, hstatus, fun name => ?_⟩
      rw [hheaders, Head.find_stored_eq]
      refine entryUnder_congr ?_ ((valueUnder_eq_iff name h.fields).2 ?_)
      · simp only [List.mem_map, exists_exists_and_eq_and]
        rfl
      · exact fun f heffect _ => f.value_toLine_eq_iff.2 (hgood f heffect)

/-- `HTTP/1.1 200`, a blank and no reason. -/
def noReason : ValidHead where
  major := 49
  minor := 49
  status := 200
  reason := []
  fields := []
  major_digit := by decide
  minor_digit := by decide
  status_lt := by decide
  reason_chars := List.forall_mem_nil _

/-- `Accept-Ranges: none`, and a blank. -/
def blankBehind : ValidField where
  name := bytes "Accept-Ranges"
  before := [32]
  value := bytes "none"
  after := [32]
  name_ne := by decide
  name_token := List.all_eq_true.1 (by decide)
  before_blank := List.all_eq_true.1 (by decide)
  value_chars := List.all_eq_true.1 (by decide)
  value_first := by simp [bytes, isVisible]
  value_last := by simp [bytes, isVisible]
  after_blank := List.all_eq_true.1 (by decide)

/-- A head of that field. -/
def noRanges : ValidHead where
  major := 49
  minor := 49
  status := 200
  reason := bytes "OK"
  fields := [blankBehind]
  major_digit := by decide
  minor_digit := by decide
  status_lt := by decide
  reason_chars := List.all_eq_true.1 (by decide)

/-- **Two valid heads that are missed**: the one is refused, and `none` is not read off the
other. -/
theorem valid_heads_missed :
    Response.parse (bytes "HTTP/1.1 200 \r\n\r\n") =
        some (.error (.runtimeError "Invalid response start line")) ∧
      ¬ noReason.Understood ∧
      (∃ r, Response.parse (bytes "HTTP/1.1 200 OK\r\nAccept-Ranges: none \r\n\r\n") =
          some (.ok r) ∧ r.get "Accept-Ranges" = bytes "none ") ∧
      ¬ noRanges.Understood := by
  have hrefused := parse_text_of_nil (show noReason.reason = [] from rfl)
  have htext : noReason.text = bytes "HTTP/1.1 200 \r\n\r\n" := by decide
  obtain ⟨r, hparse, -, hheaders⟩ := parse_text_of_ne (show noRanges.reason ≠ [] by decide)
  have htext' : noRanges.text = bytes "HTTP/1.1 200 OK\r\nAccept-Ranges: none \r\n\r\n" := by
    decide
  have hkept : r.get "Accept-Ranges" = bytes "none " := by
    unfold Response.get
    rw [hheaders, Head.find_stored]
    decide
  refine ⟨htext ▸ hrefused, ?_, ⟨r, htext' ▸ hparse, hkept⟩, ?_⟩
  · rintro ⟨r', hparse', -⟩
    cases hrefused.symm.trans hparse'
  · rintro ⟨r', hparse', -, hmeant⟩
    obtain rfl : r = r' := by simpa [hparse] using hparse'
    have hbare := hkept.symm.trans (congrArg (Option.getD · []) (hmeant (bytes "Accept-Ranges")))
    exact absurd hbare (by decide)

end ValidHead

end Cld
