import Cld.Redirect.Requests

/-!
# Reading a range off a request

The other side of `rangeValue`: what a server makes of the bytes of a request, by the rules for
`Range: bytes=first-last`.

* `decimal?` and `parseRange` read the field; `parseRange_rangeValue`: they read back what the loop
  of the download has written.
* `rangeAsked` reads it off the bytes of a whole request, with the reader `Request.recover`, and
  `rangeAsked_request` is the round trip from a request with a range to the range.
-/

namespace Cld

open Framework

/-- A number in decimal digits, at least one of them. -/
def decimal? (s : Bytes) : Option ℕ :=
  if s ≠ [] ∧ ∀ c ∈ s, isDigit c = true then
    some (s.foldl (fun v c => v * 10 + (c.toNat - 48)) 0)
  else none

/-- The first and the last byte of a range. -/
def parseRange (value : Bytes) : Option (ℕ × ℕ) :=
  match Split.cut 61 [] value with
  | some (unit, range) =>
    if unit = bytes "bytes" then
      match Split.cut 45 [] range with
      | some (first, last) =>
        match decimal? first, decimal? last with
        | some first, some last => some (first, last)
        | _, _ => none
      | none => none
    else none
  | none => none

/-- The range that the bytes of a request ask for. -/
def rangeAsked (data : Bytes) : Option (ℕ × ℕ) :=
  match Request.recover data with
  | some (_, _, headers) => (SortedMap.find headers (bytes "Range")).bind parseRange
  | none => none

/-! ## Numbers -/

lemma toDecimal_natCast (n : ℕ) : toDecimal n = bytes n.repr := by
  unfold toDecimal
  rw [Int.toString_eq_repr, Int.repr_eq_if, if_pos (Int.natCast_nonneg n), Int.toNat_natCast]

lemma bytes_repr (n : ℕ) : bytes n.repr = (Nat.toDigits 10 n).map fun c => .ofNat c.toNat := by
  unfold bytes
  rw [Nat.toList_repr]

/-- The digits of a number have its value. -/
lemma foldl_digits {cs : List Char} (hcs : ∀ c ∈ cs, c.isDigit = true) (v : ℕ) :
    (cs.map fun c => (.ofNat c.toNat : Byte)).foldl (fun v c => v * 10 + (c.toNat - 48)) v =
      Nat.ofDigitChars 10 cs v := by
  induction cs generalizing v with
  | nil => rfl
  | cons c cs ih =>
    obtain ⟨hdigit, hrest⟩ := List.forall_mem_cons.1 hcs
    have hhigh : c.toNat ≤ 57 := (Char.isDigit_iff_toNat.1 hdigit).2
    have hvalue : (UInt8.ofNat c.toNat).toNat = c.toNat := by
      rw [UInt8.toNat_ofNat']
      omega
    have hzero : '0'.toNat = 48 := rfl
    rw [List.map_cons, List.foldl_cons, ih hrest, Nat.ofDigitChars_cons, hvalue, hzero,
      Nat.mul_comm]

/-- A number is read back. -/
lemma decimal?_toDecimal (n : ℕ) : decimal? (toDecimal n) = some n := by
  have hdigits : ∀ c ∈ Nat.toDigits 10 n, c.isDigit = true := fun c hc =>
    Nat.isDigit_of_mem_toDigits (by decide) (by decide) hc
  have hne : bytes n.repr ≠ [] := by
    rw [bytes_repr]
    exact fun hnil => Nat.toDigits_ne_nil (List.map_eq_nil_iff.1 hnil)
  rw [toDecimal_natCast, decimal?, if_pos ⟨hne, fun _ hc => isDigit_of_mem_repr hc⟩, bytes_repr,
    foldl_digits hdigits, Nat.ofDigitChars_ten_toDigits]

/-- **A range is read back.** -/
lemma parseRange_rangeValue (first last : ℕ) :
    parseRange (rangeValue first last) = some (first, last) := by
  have hdash : (45 : Byte) ∉ toDecimal first := by
    rw [toDecimal_natCast]
    exact fun hmem => absurd (isDigit_of_mem_repr hmem) (by decide)
  have hunit : rangeValue first last =
      bytes "bytes" ++ [61] ++ (toDecimal first ++ [45] ++ toDecimal last) := by
    simp [rangeValue, bytes]
  have hfirst : Split.cut 61 [] (rangeValue first last) =
      some (bytes "bytes", toDecimal first ++ [45] ++ toDecimal last) := by
    rw [hunit]
    exact Split.cut_append (by decide) _
  have hsecond : Split.cut 45 [] (toDecimal first ++ [45] ++ toDecimal last) =
      some (toDecimal first, toDecimal last) := Split.cut_append hdash _
  unfold parseRange
  simp only [hfirst, hsecond, decimal?_toDecimal, if_true]

/-- **A request for a range asks for it**, to whoever reads its bytes. -/
lemma rangeAsked_request {r : Request} (h : r.Clean) (first last : ℕ) :
    rangeAsked (r.set "Range" (rangeValue first last)).request = some (first, last) := by
  have hclean : (r.set "Range" (rangeValue first last)).Clean := h.set (field_range first last)
  unfold rangeAsked
  rw [hclean.wellFormed.recovered]
  simp only [Request.set, SortedMap.find_assign, if_true, Option.bind_some]
  exact parseRange_rangeValue first last

end Cld
