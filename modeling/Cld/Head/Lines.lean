import Cld.Framework.Split
import Mathlib.Data.List.TakeDrop
import Mathlib.Data.List.TakeWhile
import Cld.Model.Response

/-!
# The constructor of a response, line by line

`getline` and the header loop as equations on the lines of the text: what one `getline` takes
(`getline_line`, `getline_last`, `getline_eof`), and what one round of the loop does with a line
that leaves it (`headerLoop_leaves`), ends it (`headerLoop_ends`) or is stored
(`headerLoop_stores`).
-/

namespace Cld.Response

open Framework

variable {front back line line' : Bytes} {ss ss' : LineStream} {headers : StringMap} {fuel : ℕ}

/-! ## `getline` -/

lemma forall_ne_of_notMem (hfront : LF ∉ front) : ∀ c ∈ front, (c != LF) = true := by
  intro c hc
  simp only [bne_iff_ne, ne_eq]
  rintro rfl
  exact hfront hc

/-- A line that is ended by a LF. -/
lemma getline_line (hfront : LF ∉ front) (back line : Bytes) :
    getline { rest := front ++ LF :: back } line = (front, { rest := back }) := by
  have htext := forall_ne_of_notMem hfront
  have hspan : (front ++ LF :: back).span (· != LF) = (front, LF :: back) := by
    rw [List.span_eq_takeWhile_dropWhile, List.takeWhile_append_of_pos htext,
      List.dropWhile_append_of_pos htext]
    simp
  unfold getline
  simp only [Bool.false_eq_true, if_false, hspan]

/-- The text behind the last LF. -/
lemma getline_last (hfront : LF ∉ front) (line : Bytes) :
    getline { rest := front } line = (front, { rest := [], eof := true }) := by
  have htext := forall_ne_of_notMem hfront
  have hspan : front.span (· != LF) = (front, []) := by
    rw [List.span_eq_takeWhile_dropWhile, List.takeWhile_eq_self_iff.2 htext,
      List.dropWhile_eq_nil_iff.2 htext]
  unfold getline
  simp only [Bool.false_eq_true, if_false, hspan]

/-- At the end of the stream the line stays as it is. -/
lemma getline_eof (rest line : Bytes) :
    getline { rest := rest, eof := true } line = (line, { rest := rest, eof := true }) := rfl

/-! ## One round of the header loop -/

lemma headerLoop_leaves (hget : getline ss line = (line', ss')) (hcr : line'.head? = some CR) :
    headerLoop (fuel + 1) ss line headers = some (.ok headers) := by
  rw [headerLoop, hget]
  exact if_pos hcr

/-- The loop is left with this line: it starts with CR, or it is no header. -/
def Ends (line : Bytes) : Prop := line.head? = some CR ∨ ∃ e, ParseHeaderString line = .error e

lemma headerLoop_ends (hget : getline ss line = (line', ss')) (hends : Ends line') :
    headerLoop (fuel + 1) ss line headers ≠ none := by
  by_cases hcr : line'.head? = some CR
  · rw [headerLoop_leaves hget hcr]
    exact Option.some_ne_none _
  · obtain ⟨e, he⟩ := hends.resolve_left hcr
    rw [headerLoop, hget]
    simp only [if_neg hcr, he]
    exact Option.some_ne_none _

lemma headerLoop_stores {name value : Bytes} (hget : getline ss line = (line', ss'))
    (hcr : line'.head? ≠ some CR) (hparse : ParseHeaderString line' = .ok (name, value)) :
    headerLoop (fuel + 1) ss line headers =
      headerLoop fuel ss' line' (store headers name value) := by
  rw [headerLoop, hget]
  simp only [if_neg hcr, hparse]

/-- A line that does not end the loop is stored. -/
lemma exists_headerLoop_stores (hget : getline ss line = (line', ss')) (hmore : ¬ Ends line')
    (headers : StringMap) : ∃ headers', ∀ fuel,
      headerLoop (fuel + 1) ss line headers = headerLoop fuel ss' line' headers' := by
  obtain ⟨hcr, hok⟩ := not_or.1 hmore
  cases hparse : ParseHeaderString line' with
  | error e => exact absurd ⟨e, hparse⟩ hok
  | ok field => exact ⟨_, fun fuel => headerLoop_stores hget hcr hparse⟩

end Cld.Response
