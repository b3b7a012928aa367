import Cld.Head.RoundTrip

/-!
# Heads as they are sent

A head with everything a peer may put into it, and what the constructor of `Response` makes of
its text.

* `FieldLine` is a field with all that stands behind its colon: white space on either side of
  the value belongs to the line.  `FieldLine.parse_line` is what is read of it: the white space in
  front is skipped, and what follows the value is kept.
* `HeadLine` adds the folded line, which continues the value of the line before and begins with a
  blank.  It is no field to the expression, and the constructor throws.
* `SentHead.parse_text` is the constructor on the whole text, with nothing asked of the start
  line but that it is one.
-/

namespace Cld

open Framework

/-- A field: its name, a token, and the text behind the colon. -/
structure FieldLine where
  name : Bytes
  text : Bytes
  name_ne : name ≠ []
  name_token : ∀ c ∈ name, isToken c = true
  text_plain : IsPlain text

/-- A line between the start line and the empty line, without its end. -/
inductive HeadLine
  | field (f : FieldLine)
  | folded (text : Bytes) (plain : IsPlain text) (blank : ∃ c ∈ text.head?, isBlank c = true)

structure SentHead where
  startLine : Bytes
  lines : List HeadLine
  startLine_ne : startLine ≠ []
  startLine_plain : IsPlain startLine

namespace FieldLine

/-- `name:` and the text behind it, with the CR of the line. -/
def line (f : FieldLine) : Bytes := f.name ++ 58 :: f.text ++ [CR]

/-- The value that is read. -/
def value (f : FieldLine) : Bytes := f.text.dropWhile isSpace

lemma unindented_value (f : FieldLine) : Unindented f.value := head_dropWhile isSpace f.text

lemma value_plain (f : FieldLine) : IsPlain f.value := fun c hc =>
  f.text_plain c ((List.dropWhile_suffix isSpace).subset hc)

/-- The field without the white space in front of its value. -/
def toField (f : FieldLine) : HeaderField where
  name := f.name
  value := f.value
  name_ne := f.name_ne
  name_token := f.name_token
  value_plain := f.value_plain
  value_start := f.unindented_value

lemma isLine (f : FieldLine) : IsLine f.line := by
  apply isLine_of_isPlain
  · simp
  · have hcolon : IsPlain [58] := isPlain_of_literal (by decide)
    rw [← List.singleton_append, isPlain_append, isPlain_append]
    exact ⟨isPlain_of_forall f.name_token (by decide), hcolon, f.text_plain⟩

/-- **A field is read** for its name and its value, whatever white space stands around that. -/
lemma parse_line (f : FieldLine) : ParseHeaderString f.line = .ok (f.name, f.value) := by
  have hsplit := List.takeWhile_append_dropWhile (p := isSpace) (l := f.text)
  have hblank : ∀ c ∈ f.text.takeWhile isSpace, isSpace c = true :=
    fun c hc => List.mem_takeWhile_imp hc
  have hmatch : ∃ groups, headerRegex.fullMatch f.line = some groups ∧ groups 1 = f.name ∧
      groups 2 = f.value := by
    by_cases hnil : f.value = []
    · -- the CR is white space behind white space
      have hline : f.line = f.name ++ ([] ++ 58 :: ((f.text.takeWhile isSpace ++ [CR]) ++
          ([] ++ []))) := by
        have hall : f.text.takeWhile isSpace = f.text := by
          rw [← value, hnil, List.append_nil] at hsplit
          exact hsplit
        rw [hall]
        simp [line]
      refine ⟨Function.update (Function.update (fun _ => []) 1 f.name) 2 [], ?_, by simp,
        by simp [hnil]⟩
      rw [hline]
      apply headerRegex_fullMatch f.name_ne f.name_token
      · intro c hc
        rcases List.mem_append.1 hc with hc | hc
        · exact hblank c hc
        · rw [List.mem_singleton.1 hc]
          decide
      · simp [Unindented]
      · exact List.forall_mem_nil _
      · simp
      · rfl
    · have hline : f.line = f.name ++ ([] ++ 58 :: (f.text.takeWhile isSpace ++
          (f.value ++ [CR]))) := by
        have hjoin : f.text.takeWhile isSpace ++ (f.value ++ [CR]) = f.text ++ [CR] := by
          rw [← List.append_assoc, value, hsplit]
        rw [hjoin]
        simp [line]
      refine ⟨Function.update (Function.update (Function.update (fun _ => []) 1 f.name) 2
        f.value) 3 [CR], ?_, by simp, by simp⟩
      rw [hline]
      apply headerRegex_fullMatch f.name_ne f.name_token hblank
      · exact f.unindented_value.append hnil _
      · exact isText_of_isPlain f.value_plain
      · simp [isText]
      · rfl
  obtain ⟨groups, hmatch, hname, hvalue⟩ := hmatch
  unfold ParseHeaderString
  rw [hmatch, ← hname, ← hvalue]

end FieldLine

namespace HeadLine

/-- The text of the line and its CR. -/
def line : HeadLine → Bytes
  | field f => f.line
  | folded text _ _ => text ++ [CR]

def field? : HeadLine → Option FieldLine
  | field f => some f
  | folded _ _ _ => none

@[simp] lemma field?_field (f : FieldLine) : (field f).field? = some f := rfl

lemma isLine (l : HeadLine) : IsLine l.line := by
  cases l with
  | field f => exact f.isLine
  | folded text plain blank =>
    apply isLine_of_isPlain _ plain
    rintro rfl
    obtain ⟨c, hc, -⟩ := blank
    cases hc

/-- No token begins with a blank. -/
lemma parse_folded {text : Bytes} (blank : ∃ c ∈ text.head?, isBlank c = true) :
    ParseHeaderString (text ++ [CR]) = .error (.runtimeError "Invalid header") := by
  have hnone : headerRegex.fullMatch (text ++ [CR]) = none := by
    rw [Option.eq_none_iff_forall_ne_some]
    intro groups hmatch
    obtain ⟨c, hc, hblank⟩ := blank
    have hform := Regex.matches_of_fullMatch hmatch
    simp only [headerRegex, Regex.seqs, Regex.matches_seq, Regex.matches_group,
      Regex.matches_plus] at hform
    obtain ⟨name, rest, _, htext, ⟨_, ⟨hne, hname, -⟩, -⟩, -⟩ := hform
    have hhead : (text ++ [CR]).head? = some c := by
      rw [List.head?_append, Option.mem_def.1 hc]
      rfl
    obtain ⟨d, name, rfl⟩ := List.exists_cons_of_ne_nil hne
    rw [htext] at hhead
    have hsame : d = c := Option.some.inj hhead
    have htoken := hname d List.mem_cons_self
    rw [hsame] at htoken
    simp only [isBlank, Bool.or_eq_true, beq_iff_eq] at hblank
    rcases hblank with rfl | rfl
    · exact absurd htoken (by decide)
    · exact absurd htoken (by decide)
  unfold ParseHeaderString
  rw [hnone]

end HeadLine

namespace SentHead

/-- The lines before the empty one. -/
def allLines (h : SentHead) : List Bytes := (h.startLine ++ [CR]) :: h.lines.map HeadLine.line

/-- The text of the head. -/
def text (h : SentHead) : Bytes := h.allLines.flatMap (· ++ [LF]) ++ [CR, LF]

/-- The fields. -/
def fields (h : SentHead) : List HeaderField :=
  (h.lines.filterMap HeadLine.field?).map FieldLine.toField

lemma isLine (h : SentHead) : ∀ line ∈ h.allLines, IsLine line := by
  intro line hline
  rcases List.mem_cons.1 hline with rfl | hline
  · exact isLine_of_isPlain h.startLine_ne h.startLine_plain
  · obtain ⟨l, -, rfl⟩ := List.mem_map.1 hline
    exact l.isLine

/-- The header loop stores field after field, up to the empty line or to a folded one. -/
lemma headerLoop_lines (lines : List HeadLine) {line : Bytes} {headers : StringMap} {fuel : ℕ}
    (hfuel : lines.length < fuel) :
    Response.headerLoop fuel
        { rest := (lines.map HeadLine.line).flatMap (· ++ [LF]) ++ [CR, LF] } line headers =
      some (if ∀ l ∈ lines, l.field? ≠ none then
        .ok (((lines.filterMap HeadLine.field?).map FieldLine.toField).foldl
          (fun headers f => Response.store headers f.name f.value) headers)
        else .error (.runtimeError "Invalid header")) := by
  induction lines generalizing line headers fuel with
  | nil =>
    obtain ⟨fuel, rfl⟩ := Nat.exists_eq_succ_of_ne_zero (Nat.pos_iff_ne_zero.1 hfuel)
    have hget : Response.getline { rest := [CR] ++ LF :: [] } line = ([CR], { rest := [] }) :=
      Response.getline_line (by decide) [] line
    rw [if_pos (List.forall_mem_nil _)]
    exact Response.headerLoop_leaves hget rfl
  | cons l lines ih =>
    obtain ⟨fuel, rfl⟩ := Nat.exists_eq_succ_of_ne_zero (by omega : fuel ≠ 0)
    have hline := l.isLine
    have hget := Response.getline_line hline.lf
      ((lines.map HeadLine.line).flatMap (· ++ [LF]) ++ [CR, LF]) line
    have hrest : ((l :: lines).map HeadLine.line).flatMap (· ++ [LF]) ++ [CR, LF] =
        l.line ++ LF :: ((lines.map HeadLine.line).flatMap (· ++ [LF]) ++ [CR, LF]) := by
      simp
    rw [hrest, Nat.succ_eq_add_one]
    cases l with
    | field f =>
      rw [Response.headerLoop_stores hget hline.head f.parse_line, ih (by simpa using hfuel)]
      have hfield : (HeadLine.field f :: lines).filterMap HeadLine.field? =
          f :: lines.filterMap HeadLine.field? :=
        List.filterMap_cons_some (HeadLine.field?_field f)
      have hall : (∀ l ∈ HeadLine.field f :: lines, l.field? ≠ none) ↔
          ∀ l ∈ lines, l.field? ≠ none := by
        simp
      simp only [hfield, hall, List.map_cons, List.foldl_cons]
      rfl
    | folded text plain blank =>
      rw [if_neg fun h => h _ List.mem_cons_self rfl, Response.headerLoop, hget]
      simp only [if_neg hline.head]
      rw [HeadLine.line, HeadLine.parse_folded blank]

/-- What the head says, or what is thrown: the start line is looked at first. -/
def reading (h : SentHead) : Except Exn Response :=
  match startLineRegex.fullMatch (h.startLine ++ [CR]) with
  | none => .error (.runtimeError "Invalid response start line")
  | some groups =>
    if ∀ l ∈ h.lines, l.field? ≠ none then
      .ok
        { status := ((readDigits 10 none (groups 2)).getD 0 : ℕ)
          httpVersion := groups 1
          statusText := groups 3
          headers := Head.stored h.fields }
    else .error (.runtimeError "Invalid header")

/-- **What the constructor makes of the text.** -/
lemma parse_text (h : SentHead) : Response.parse h.text = some h.reading := by
  have hnul : h.text.takeWhile (· != 0) = h.text := takeWhile_lines h.isLine
  have hcut : h.text = (h.startLine ++ [CR]) ++
      LF :: ((h.lines.map HeadLine.line).flatMap (· ++ [LF]) ++ [CR, LF]) := by
    simp [text, allLines]
  have hlength : h.lines.length < h.text.length + 2 := by
    have hle := Head.length_lines_le (h.lines.map HeadLine.line)
    rw [List.length_map] at hle
    rw [hcut]
    simp only [List.length_append, List.length_cons]
    omega
  have hget := Response.getline_line (h.isLine _ List.mem_cons_self).lf
    ((h.lines.map HeadLine.line).flatMap (· ++ [LF]) ++ [CR, LF]) []
  rw [← hcut] at hget
  unfold Response.parse reading
  rw [hnul, hget]
  simp only [headerLoop_lines h.lines hlength]
  cases startLineRegex.fullMatch (h.startLine ++ [CR]) with
  | none => rfl
  | some groups =>
    by_cases hall : ∀ l ∈ h.lines, l.field? ≠ none
    · simp only [if_pos hall]
      rfl
    · simp only [if_neg hall]

end SentHead

end Cld
