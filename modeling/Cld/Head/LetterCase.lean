import Cld.Head.Fields
import Cld.Model.Redirect

/-!
# The letter case of header names

The names of fields are keys of a map of strings, and every lookup is for one spelling.  What a
head says to the program therefore depends on how the names are spelled.

* `CaseVariant` relates two heads that differ in the letter case of their field names only.
* `get_of_sent` is a lookup in a head: only the fields spelled so count.
* `SameTreatment` is all that the program makes of a response, and follows from the six lookups
  (`sameTreatment_of_lookups`).
* `Spared` says that a change of letter case leaves the fields alone that the program looks up.

`lookups_of_variants` puts this together, and `sameTreatment_of_spared` is the change that does no
harm.
-/

namespace Cld

open Framework

/-- The small letter of a capital one. -/
def toLower (c : Byte) : Byte := if 65 ≤ c && c ≤ 90 then c + 32 else c

/-- The names that the program looks up. -/
def consulted : List String :=
  ["Location", "Set-Cookie", "Accept-Ranges", "Content-Length", "Transfer-Encoding", "Connection"]

/-- The same line but for the letter case of the field name. -/
inductive LineVariant : HeadLine → HeadLine → Prop
  | field (f f' : FieldLine) (hname : f.name.map toLower = f'.name.map toLower)
      (htext : f.text = f'.text) : LineVariant (.field f) (.field f')
  | folded (text : Bytes) (plain : IsPlain text) (blank : ∃ c ∈ text.head?, isBlank c = true) :
      LineVariant (.folded text plain blank) (.folded text plain blank)

/-- The same head but for the letter case of the field names. -/
structure CaseVariant (h h' : SentHead) : Prop where
  startLine : h.startLine = h'.startLine
  lines : List.Forall₂ LineVariant h.lines h'.lines

/-- The field has a name that is looked up, in this letter case or another. -/
def FieldLine.Consulted (f : FieldLine) : Prop :=
  ∃ name ∈ consulted, f.name.map toLower = (bytes name).map toLower

/-- The line is left as it is if it is a field with such a name. -/
def Spared (l l' : HeadLine) : Prop := ∀ f, l = .field f → f.Consulted → l' = l

/-- The program cannot tell the responses apart. -/
structure SameTreatment (r r' : Response) : Prop where
  analyse : ∀ url, analyse url r = analyse url r'
  keepCookie : ∀ options, keepCookie options r = keepCookie options r'
  selectDownload : ∀ options request,
    selectDownload options request r = selectDownload options request r'
  createBuffer : CreateBuffer r = CreateBuffer r'

section Responses

variable {h h' : SentHead} {r r' : Response}

/-- **A lookup**: what the fields spelled so say. -/
lemma get_of_sent (hparse : Response.parse h.text = some (.ok r)) (name : String) :
    r.get name = Head.valueUnder (bytes name) h.fields := by
  rw [h.parse_text] at hparse
  have hread := Option.some.inj hparse
  unfold SentHead.reading at hread
  split at hread
  · cases hread
  · split_ifs at hread
    obtain rfl := Except.ok.inj hread
    rw [← Head.find_stored]
    rfl

/-- The six lookups and the status are all that is made use of. -/
lemma sameTreatment_of_lookups (hstatus : r.status = r'.status)
    (hget : ∀ name ∈ consulted, r.get name = r'.get name) : SameTreatment r r' := by
  simp only [consulted, List.forall_mem_cons] at hget
  obtain ⟨hlocation, hcookie, hranges, hlength, hencoding, hconnection, -⟩ := hget
  constructor
  · intro url
    unfold analyse Response.isOk
    rw [hstatus, hlocation]
  · intro options
    unfold keepCookie
    rw [hcookie]
  · intro options request
    unfold selectDownload
    rw [hlength, hranges]
  · unfold CreateBuffer
    rw [hencoding, hconnection, hlength]

/-- A variant has fields where the head has fields. -/
lemma CaseVariant.forall_field (hvariant : CaseVariant h h') :
    (∀ l ∈ h.lines, l.field? ≠ none) ↔ ∀ l ∈ h'.lines, l.field? ≠ none := by
  have hlines := hvariant.lines
  generalize h.lines = lines at hlines
  generalize h'.lines = lines' at hlines
  induction hlines with
  | nil => exact Iff.rfl
  | cons hline hrest ih =>
    rw [List.forall_mem_cons, List.forall_mem_cons]
    apply and_congr _ ih
    cases hline with
    | field f f' => exact iff_of_true (Option.some_ne_none f) (Option.some_ne_none f')
    | folded => exact Iff.rfl

/-- The start line and the kinds of the lines decide whether there is a response. -/
lemma CaseVariant.reading (hvariant : CaseVariant h h') :
    (∃ e, h.reading = .error e ∧ h'.reading = .error e) ∨
      ∃ r r', h.reading = .ok r ∧ h'.reading = .ok r' ∧ r.status = r'.status := by
  unfold SentHead.reading
  rw [hvariant.startLine]
  cases startLineRegex.fullMatch (h'.startLine ++ [CR]) with
  | none => exact Or.inl ⟨_, rfl, rfl⟩
  | some groups =>
    by_cases hall : ∀ l ∈ h.lines, l.field? ≠ none
    · simp only [if_pos hall, if_pos (hvariant.forall_field.1 hall)]
      exact Or.inr ⟨_, _, rfl, rfl, rfl⟩
    · simp only [if_neg hall, if_neg (mt hvariant.forall_field.2 hall)]
      exact Or.inl ⟨_, rfl, rfl⟩

/-- **The responses of two variants**: the heads are refused alike, or agree on a lookup if and only
if the fields spelled so say the same. -/
lemma CaseVariant.responses (hvariant : CaseVariant h h') :
    (∃ e, Response.parse h.text = some (.error e) ∧ Response.parse h'.text = some (.error e)) ∨
      ∃ r r', Response.parse h.text = some (.ok r) ∧ Response.parse h'.text = some (.ok r') ∧
        r.status = r'.status ∧ ∀ name, r.get name = r'.get name ↔
          Head.valueUnder (bytes name) h.fields = Head.valueUnder (bytes name) h'.fields := by
  rcases hvariant.reading with ⟨e, he, he'⟩ | ⟨r, r', hr, hr', hstatus⟩
  · left
    refine ⟨e, ?_, ?_⟩
    · rw [h.parse_text, he]
    · rw [h'.parse_text, he']
  · right
    have hparse : Response.parse h.text = some (.ok r) := by rw [h.parse_text, hr]
    have hparse' : Response.parse h'.text = some (.ok r') := by rw [h'.parse_text, hr']
    refine ⟨r, r', hparse, hparse', hstatus, fun name => ?_⟩
    rw [get_of_sent hparse, get_of_sent hparse']

/-- **When the letter case does not matter.**  Two heads that differ in the letter case of their
field names are refused alike, or give two responses, which agree on a lookup if and only if the
fields spelled exactly so say the same in both.  If they do for the names that the program looks
up, it takes the same way with both. -/
theorem lookups_of_variants (hvariant : CaseVariant h h') :
    (∃ e, Response.parse h.text = some (.error e) ∧ Response.parse h'.text = some (.error e)) ∨
      ∃ r r', Response.parse h.text = some (.ok r) ∧ Response.parse h'.text = some (.ok r') ∧
        (∀ name ∈ consulted, r.get name = r'.get name ↔
          Head.valueUnder (bytes name) h.fields = Head.valueUnder (bytes name) h'.fields) ∧
        ((∀ name ∈ consulted,
          Head.valueUnder (bytes name) h.fields = Head.valueUnder (bytes name) h'.fields) →
            SameTreatment r r') := by
  rcases hvariant.responses with hrefused | ⟨r, r', hparse, hparse', hstatus, hiff⟩
  · exact Or.inl hrefused
  · right
    refine ⟨r, r', hparse, hparse', fun name _ => hiff name, ?_⟩
    intro hsame
    apply sameTreatment_of_lookups hstatus
    intro name hname
    exact (hiff name).2 (hsame name hname)

end Responses

/-- A head of one field. -/
def oneField (f : FieldLine) : SentHead where
  startLine := bytes "HTTP/1.1 200 OK"
  lines := [.field f]
  startLine_ne := by decide
  startLine_plain := isPlain_of_literal (by decide)

/-- `Content-Length: 3` -/
def capitalLength : FieldLine where
  name := bytes "Content-Length"
  text := bytes " 3"
  name_ne := by decide
  name_token := List.all_eq_true.1 (by decide)
  text_plain := isPlain_of_literal (by decide)

/-- `content-length: 3` -/
def smallLength : FieldLine where
  name := bytes "content-length"
  text := bytes " 3"
  name_ne := by decide
  name_token := List.all_eq_true.1 (by decide)
  text_plain := isPlain_of_literal (by decide)

lemma tag_ne : bytes "ETag" ≠ [] := by decide

lemma tag_token : ∀ c ∈ bytes "ETag", isToken c = true := List.all_eq_true.1 (by decide)

/-- `ETag: x` -/
def capitalTag : FieldLine where
  name := bytes "ETag"
  text := bytes " x"
  name_ne := tag_ne
  name_token := tag_token
  text_plain := isPlain_of_literal (by decide)

/-- `etag: x` -/
def smallTag : FieldLine where
  name := bytes "etag"
  text := bytes " x"
  name_ne := by decide
  name_token := List.all_eq_true.1 (by decide)
  text_plain := isPlain_of_literal (by decide)

/-- Fields behind this start line are accepted. -/
lemma SentHead.parse_of_fields (h : SentHead) (hstart : h.startLine = bytes "HTTP/1.1 200 OK")
    (hall : ∀ l ∈ h.lines, l.field? ≠ none) : ∃ r, Response.parse h.text = some (.ok r) := by
  have hmatch : (startLineRegex.fullMatch (bytes "HTTP/1.1 200 OK" ++ [CR])).isSome = true := by
    decide +kernel
  obtain ⟨groups, hgroups⟩ := Option.isSome_iff_exists.1 hmatch
  rw [parse_text, reading, hstart, hgroups]
  simp only [if_pos hall]
  exact ⟨_, rfl⟩

/-- A head with a length behind that field. -/
def withLength (f : FieldLine) : SentHead where
  startLine := bytes "HTTP/1.1 200 OK"
  lines := [.field f, .field capitalLength]
  startLine_ne := by decide
  startLine_plain := isPlain_of_literal (by decide)

/-- A name that is not looked up, beside one that is. -/
theorem lookups_of_tags : ∃ r r',
    Response.parse (bytes "HTTP/1.1 200 OK\r\nETag: x\r\nContent-Length: 3\r\n\r\n") =
        some (.ok r) ∧
      Response.parse (bytes "HTTP/1.1 200 OK\r\netag: x\r\nContent-Length: 3\r\n\r\n") =
        some (.ok r') ∧
      r.get "Content-Length" = bytes "3" ∧ r.get "Content-Length" = r'.get "Content-Length" ∧
      SameTreatment r r' := by
  have htext : (withLength capitalTag).text =
      bytes "HTTP/1.1 200 OK\r\nETag: x\r\nContent-Length: 3\r\n\r\n" := by decide
  have htext' : (withLength smallTag).text =
      bytes "HTTP/1.1 200 OK\r\netag: x\r\nContent-Length: 3\r\n\r\n" := by decide
  have hname : capitalTag.name.map toLower = smallTag.name.map toLower := by decide
  have hvariant : CaseVariant (withLength capitalTag) (withLength smallTag) :=
    ⟨Eq.refl (bytes "HTTP/1.1 200 OK"),
      .cons (.field capitalTag smallTag hname (Eq.refl (bytes " x")))
        (.cons (.field capitalLength capitalLength rfl rfl) .nil)⟩
  rcases lookups_of_variants hvariant with ⟨e, he, -⟩ | ⟨r, r', hr, hr', hiff, hsame⟩
  · obtain ⟨r, hr⟩ := (withLength capitalTag).parse_of_fields rfl (by simp [withLength])
    cases hr.symm.trans he
  · have hlength : r.get "Content-Length" = bytes "3" := by
      rw [get_of_sent hr]
      rfl
    have hlookup := (hiff "Content-Length" (by decide)).2 rfl
    rw [htext] at hr
    rw [htext'] at hr'
    refine ⟨r, r', hr, hr', hlength, hlookup, hsame ?_⟩
    intro name hname
    simp only [consulted, List.mem_cons, List.not_mem_nil, or_false] at hname
    rcases hname with rfl | rfl | rfl | rfl | rfl | rfl <;> rfl

/-- **`content-length` is not `Content-Length`**: one head is downloaded over many connections,
the other over one. -/
theorem small_letters_not_found :
    CaseVariant (oneField capitalLength) (oneField smallLength) ∧ ∃ r r',
      Response.parse (oneField capitalLength).text = some (.ok r) ∧
      Response.parse (oneField smallLength).text = some (.ok r') ∧
      r.get "Content-Length" = bytes "3" ∧ r'.get "Content-Length" = [] ∧
      ∀ request, (∃ cfg, selectDownload {} request r = .multi cfg) ∧
        ∃ get, selectDownload {} request r' = .single get := by
  have hname : capitalLength.name.map toLower = smallLength.name.map toLower := by decide
  have hvariant : CaseVariant (oneField capitalLength) (oneField smallLength) :=
    ⟨Eq.refl (bytes "HTTP/1.1 200 OK"),
      .cons (.field capitalLength smallLength hname (Eq.refl (bytes " 3"))) .nil⟩
  obtain ⟨r, hr⟩ := (oneField capitalLength).parse_of_fields rfl (by simp [oneField])
  obtain ⟨r', hr'⟩ := (oneField smallLength).parse_of_fields rfl (by simp [oneField])
  have hlength : r.get "Content-Length" = bytes "3" := by
    rw [get_of_sent hr]
    rfl
  have hlength' : r'.get "Content-Length" = [] := by
    rw [get_of_sent hr']
    rfl
  refine ⟨hvariant, r, r', hr, hr', hlength, hlength', ?_⟩
  intro request
  unfold selectDownload
  rw [hlength, hlength']
  exact ⟨⟨_, rfl⟩, ⟨_, rfl⟩⟩

/-! ## A change that does no harm -/

/-- The values under a name that is looked up are those of the fields that are spared. -/
lemma valuesUnder_of_spared {name : String} {lines lines' : List HeadLine}
    (hname : name ∈ consulted) (hlines : List.Forall₂ LineVariant lines lines')
    (hspared : List.Forall₂ Spared lines lines') :
    Head.valuesUnder (bytes name) ((lines.filterMap HeadLine.field?).map FieldLine.toField) =
      Head.valuesUnder (bytes name) ((lines'.filterMap HeadLine.field?).map FieldLine.toField) := by
  unfold Head.valuesUnder
  induction hlines with
  | nil => rfl
  | cons hline hrest ih =>
    obtain ⟨hkept, hothers⟩ := List.forall₂_cons.1 hspared
    have hbelow := ih hothers
    cases hline with
    | folded text plain blank => exact hbelow
    | field f f' hlower htext =>
      by_cases hconsulted : f.Consulted
      · obtain rfl : f' = f := HeadLine.field.inj (hkept f rfl hconsulted)
        by_cases hf : f'.toField.name = bytes name
        · simp [hf, hbelow]
        · simp [hf, hbelow]
      · -- neither of the two names is looked up
        have hf : f.toField.name ≠ bytes name := fun heq =>
          hconsulted ⟨name, hname, congrArg (List.map toLower) heq⟩
        have hf' : f'.toField.name ≠ bytes name := fun heq =>
          hconsulted ⟨name, hname, hlower.trans (congrArg (List.map toLower) heq)⟩
        simp [hf, hf', hbelow]

/-- **The letter case of other names does not matter**: if the fields that the program looks up,
in whatever letter case they are written, are left as they are, the heads are refused alike, or the
program takes the same way with both. -/
theorem sameTreatment_of_spared {h h' : SentHead} (hvariant : CaseVariant h h')
    (hspared : List.Forall₂ Spared h.lines h'.lines) :
    (∃ e, Response.parse h.text = some (.error e) ∧ Response.parse h'.text = some (.error e)) ∨
      ∃ r r', Response.parse h.text = some (.ok r) ∧ Response.parse h'.text = some (.ok r') ∧
        SameTreatment r r' := by
  rcases hvariant.responses with hrefused | ⟨r, r', hparse, hparse', hstatus, hiff⟩
  · exact Or.inl hrefused
  · right
    refine ⟨r, r', hparse, hparse', sameTreatment_of_lookups hstatus fun name hname => ?_⟩
    refine (hiff name).2 ?_
    unfold Head.valueUnder SentHead.fields
    rw [valuesUnder_of_spared hname hvariant.lines hspared]

end Cld
