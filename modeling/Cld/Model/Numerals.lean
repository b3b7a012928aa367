import Cld.Framework.Split
import Cld.Model.Basic
import Mathlib.Data.List.TakeWhile

/-!
# What formatted extraction makes of a numeral

`Numeral base s n` is `s` as a number of the given base: digits only, at least one, and no sign,
prefix or blank.  `extractSize_numeral` and `extractLongLong_numeral` say what the two
extractions of the program read off a numeral which anything but a digit follows.

`Extracts s negative n` is all that the extraction of a size accepts: white space, a sign and
the numeral may stand before anything (`extractSize_eq_none_iff`).
-/

namespace Cld

open Framework

/-- `s` consists of digits, at least one, and its value is `n`. -/
structure Numeral (base : ℕ) (s : Bytes) (n : ℕ) : Prop where
  ne : s ≠ []
  digits : ∀ c ∈ s, (digitValue base c).isSome = true
  value : s.foldl (fun v c => v * base + (digitValue base c).getD 0) 0 = n

variable {base n : ℕ} {s rest : Bytes}

/-- The digits at the front are read up to the first character that is none. -/
lemma readDigits_append {acc : Option ℕ} (hs : ∀ c ∈ s, (digitValue base c).isSome = true)
    (hne : s ≠ []) (hrest : ∀ c ∈ rest.head?, digitValue base c = none) :
    readDigits base acc (s ++ rest) =
      some (s.foldl (fun v c => v * base + (digitValue base c).getD 0) (acc.getD 0)) := by
  induction s generalizing acc with
  | nil => exact absurd rfl hne
  | cons c s ih =>
    obtain ⟨d, hd⟩ := Option.isSome_iff_exists.1 (hs c List.mem_cons_self)
    have hs' : ∀ c ∈ s, (digitValue base c).isSome = true :=
      fun c hc => hs c (List.mem_cons_of_mem _ hc)
    rw [List.cons_append, readDigits, hd]
    simp only [List.foldl_cons, hd, Option.getD_some]
    by_cases hnil : s = []
    · subst hnil
      cases rest with
      | nil => rfl
      | cons c' rest =>
        rw [List.nil_append, readDigits, hrest c' rfl]
        rfl
    · rw [ih hs' hnil]
      rfl

lemma Numeral.readDigits (h : Numeral base s n)
    (hrest : ∀ c ∈ rest.head?, digitValue base c = none) :
    Cld.readDigits base none (s ++ rest) = some n := by
  rw [readDigits_append h.digits h.ne hrest]
  exact congrArg some h.value

/-- A digit is neither white space nor a sign. -/
lemma sixteen_of_isSome : ∀ c : Byte, (digitValue 16 c).isSome = true →
    isSpace c = false ∧ c ≠ 45 ∧ c ≠ 43 ∧ c ≠ 120 ∧ c ≠ 88 := by
  decide +kernel

lemma ten_of_isSome : ∀ c : Byte, (digitValue 10 c).isSome = true →
    isSpace c = false ∧ c ≠ 45 ∧ c ≠ 43 := by
  decide +kernel

lemma splitSign_of_ne {c : Byte} (hminus : c ≠ 45) (hplus : c ≠ 43) :
    splitSign (c :: rest) = (false, c :: rest) := by
  unfold splitSign
  split <;> simp_all

/-- Only base 16 has a prefix. -/
lemma dropBasePrefix_ten (s : Bytes) : dropBasePrefix 10 s = s := by
  unfold dropBasePrefix
  split <;> rfl

/-- A second character that is no `x` makes no prefix. -/
lemma dropBasePrefix_of_ne (c : Byte) (hrest : ∀ d ∈ rest.head?, d ≠ 120 ∧ d ≠ 88) :
    dropBasePrefix base (c :: rest) = c :: rest := by
  unfold dropBasePrefix
  split
  · next h =>
    obtain ⟨-, rfl⟩ := List.cons.inj h
    exact absurd rfl (hrest 120 rfl).1
  · next h =>
    obtain ⟨-, rfl⟩ := List.cons.inj h
    exact absurd rfl (hrest 88 rfl).2
  · rfl

/-- **A size.**  What does not fit into 64 bits fails. -/
lemma extractSize_numeral (h : Numeral 10 s n)
    (hrest : ∀ c ∈ rest.head?, digitValue 10 c = none) :
    extractSize (s ++ rest) = if n < 2 ^ 64 then some n else none := by
  have hread := h.readDigits hrest
  obtain ⟨c, s, rfl⟩ := List.exists_cons_of_ne_nil h.ne
  obtain ⟨hspace, hminus, hplus⟩ := ten_of_isSome c (h.digits c List.mem_cons_self)
  unfold extractSize
  rw [List.cons_append, List.dropWhile_cons_of_neg (by simp [hspace])]
  simp only [splitSign_of_ne hminus hplus, dropBasePrefix_ten]
  rw [← List.cons_append, hread]
  simp

/-- **A chunk size.**  What does not fit is clamped. -/
lemma extractLongLong_numeral {old : ℤ} (h : Numeral 16 s n)
    (hrest : ∀ c ∈ rest.head?, digitValue 16 c = none ∧ c ≠ 120 ∧ c ≠ 88) :
    extractLongLong 16 old (s ++ rest) = if n < 2 ^ 63 then (n : ℤ) else 2 ^ 63 - 1 := by
  have hread := h.readDigits fun c hc => (hrest c hc).1
  obtain ⟨c, s, rfl⟩ := List.exists_cons_of_ne_nil h.ne
  obtain ⟨hspace, hminus, hplus, -⟩ := sixteen_of_isSome c (h.digits c List.mem_cons_self)
  have hsecond : ∀ d ∈ (s ++ rest).head?, d ≠ 120 ∧ d ≠ 88 := by
    cases s with
    | nil => exact fun d hd => (hrest d hd).2
    | cons d s =>
      rintro _ ⟨⟩
      have hd := sixteen_of_isSome d (h.digits d (by simp))
      exact hd.2.2.2
  unfold extractLongLong
  rw [List.cons_append, List.dropWhile_cons_of_neg (by simp [hspace])]
  simp only [splitSign_of_ne hminus hplus, dropBasePrefix_of_ne c hsecond]
  rw [← List.cons_append, hread]
  simp

/-! ## All that is accepted as a size -/

/-- `s` begins with white space, a sign and a numeral of value `n`, each but the last if it is
there. -/
def Extracts (s : Bytes) (negative : Bool) (n : ℕ) : Prop :=
  ∃ blank sign digits rest, s = blank ++ (sign ++ (digits ++ rest)) ∧
    (∀ c ∈ blank, isSpace c = true) ∧
    (negative = false ∧ (sign = [] ∨ sign = [43]) ∨ negative = true ∧ sign = [45]) ∧
    Numeral 10 digits n ∧ ∀ c ∈ rest.head?, digitValue 10 c = none

/-- The digits that are read, if any is. -/
lemma exists_numeral_of_readDigits (h : readDigits base none s = some n) :
    ∃ digits rest, s = digits ++ rest ∧ Numeral base digits n ∧
      ∀ c ∈ rest.head?, digitValue base c = none := by
  obtain ⟨digits, rest, rfl, hdigits, hstop⟩ :=
    exists_run (fun c => (digitValue base c).isSome) s
  have hrest : ∀ c ∈ rest.head?, digitValue base c = none := by
    intro c hc
    simpa using hstop c hc
  have hne : digits ≠ [] := by
    rintro rfl
    cases rest with
    | nil => cases h
    | cons c rest =>
      rw [List.nil_append, readDigits, hrest c rfl] at h
      cases h
  have hread := @readDigits_append _ _ _ none hdigits hne hrest
  rw [h] at hread
  exact ⟨digits, rest, rfl, ⟨hne, hdigits, (Option.some.inj hread).symm⟩, hrest⟩

lemma extractSize_of_extracts {negative : Bool} (h : Extracts s negative n) :
    extractSize s =
      if n < 2 ^ 64 then some (if negative then (2 ^ 64 - n) % 2 ^ 64 else n) else none := by
  obtain ⟨blank, sign, digits, rest, rfl, hblank, hsign, hnumeral, hrest⟩ := h
  have hread := hnumeral.readDigits hrest
  obtain ⟨d, ds, rfl⟩ := List.exists_cons_of_ne_nil hnumeral.ne
  obtain ⟨hspace, hminus, hplus⟩ := ten_of_isSome d (hnumeral.digits d List.mem_cons_self)
  unfold extractSize
  rw [List.dropWhile_append_of_pos hblank]
  rcases hsign with ⟨rfl, rfl | rfl⟩ | ⟨rfl, rfl⟩
  · rw [List.nil_append, List.cons_append, List.dropWhile_cons_of_neg (by simp [hspace])]
    simp only [splitSign_of_ne hminus hplus, dropBasePrefix_ten]
    rw [← List.cons_append, hread]
  · rw [List.cons_append, List.nil_append, List.dropWhile_cons_of_neg (by decide)]
    simp only [splitSign, dropBasePrefix_ten, hread]
  · rw [List.cons_append, List.nil_append, List.dropWhile_cons_of_neg (by decide)]
    simp only [splitSign, dropBasePrefix_ten, hread]

lemma exists_extracts {v : ℕ} (h : extractSize s = some v) :
    ∃ negative n, Extracts s negative n := by
  have hsplit := List.takeWhile_append_dropWhile (p := isSpace) (l := s)
  have hblank : ∀ c ∈ s.takeWhile isSpace, isSpace c = true := fun c hc => List.mem_takeWhile_imp hc
  have hdigits : ∀ (negative : Bool) (sign text : Bytes),
      s.dropWhile isSpace = sign ++ text →
      (negative = false ∧ (sign = [] ∨ sign = [43]) ∨ negative = true ∧ sign = [45]) →
      readDigits 10 none text ≠ none → ∃ negative n, Extracts s negative n := by
    intro negative sign text htext hsign hread
    obtain ⟨n, hn⟩ := Option.ne_none_iff_exists'.1 hread
    obtain ⟨digits, rest, rfl, hnumeral, hrest⟩ := exists_numeral_of_readDigits hn
    rw [htext] at hsplit
    exact ⟨negative, n, _, sign, digits, rest, hsplit.symm, hblank, hsign, hnumeral, hrest⟩
  unfold extractSize at h
  split at h
  · cases h
  · next c rest hdrop =>
    simp only [dropBasePrefix_ten] at h
    have hread : readDigits 10 none (splitSign (c :: rest)).2 ≠ none := by
      intro hnone
      rw [hnone] at h
      cases h
    unfold splitSign at hread
    split at hread
    · next heq =>
      obtain ⟨rfl, rfl⟩ := List.cons.inj heq
      exact hdigits true [45] _ hdrop (Or.inr ⟨rfl, rfl⟩) hread
    · next heq =>
      obtain ⟨rfl, rfl⟩ := List.cons.inj heq
      exact hdigits false [43] _ hdrop (Or.inl ⟨rfl, Or.inr rfl⟩) hread
    · exact hdigits false [] _ hdrop (Or.inl ⟨rfl, Or.inl rfl⟩) hread

/-- **When no size is read**: there is no numeral, or none that fits into 64 bits. -/
lemma extractSize_eq_none_iff :
    extractSize s = none ↔ ∀ negative n, Extracts s negative n → 2 ^ 64 ≤ n := by
  constructor
  · intro hnone negative n h
    rw [extractSize_of_extracts h] at hnone
    split_ifs at hnone with hfits
    exact Nat.le_of_not_lt hfits
  · intro hall
    rw [Option.eq_none_iff_forall_ne_some]
    intro v hv
    obtain ⟨negative, n, h⟩ := exists_extracts hv
    rw [extractSize_of_extracts h, if_neg (Nat.not_lt.2 (hall negative n h))] at hv
    cases hv

end Cld
