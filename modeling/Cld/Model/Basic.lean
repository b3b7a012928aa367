import Mathlib.Algebra.Order.Ring.Int
import Mathlib.Data.List.Basic
import Cld.Framework.Regex
import Cld.Framework.SortedMap

/-!
# Bytes, exceptions and formatted extraction

The vocabulary shared by the whole model.

A `char` or `std::byte` is a `Byte`, a `std::string` or a byte vector is `Bytes`.  `off_t` is
`ℤ`: the sizes and offsets of the program are file sizes, which the type holds by definition.  One
step of it leaves the type all the same, and is given its value in `ℤ`: `size - 1` in
`LengthController.create`, where the size is -2⁶³ because 2⁶³ was announced.

`Exn` lists the `std::exception`s the program throws.  `transport::StreamException` is not one
of them and never leaves the function that provokes it, so it appears as the `again` outcome
of the operations that raise it.  `Fault` adds what C++ leaves undefined (`back()` of an empty
list, a dangling or null pointer), so that but for that overflow no undefined step is given a
meaning by the model.

`extractLongLong` and `extractSize` are `is >> x` for a signed and an unsigned 64-bit `x`: the
sentry skips white space and fails on an exhausted string *without* touching `x`, and
`std::num_get` accepts a sign and, in base 16, a `0x` prefix; it reads the longest run of
digits, stores 0 if there is none, and clamps what does not fit.
-/

namespace Cld

/-! ## Bytes -/

/-- A `char` or `std::byte`. -/
abbrev Byte := UInt8

/-- A `std::string` or a `std::vector<std::byte>`. -/
abbrev Bytes := List Byte

/-- `'\r'`. -/
def CR : Byte := 13

/-- `'\n'`. -/
def LF : Byte := 10

/-- The bytes of a string literal. -/
def bytes (s : String) : Bytes := s.toList.map fun c => UInt8.ofNat c.toNat

/-- `std::less<std::string>`: the lexicographic order of the bytes. -/
def bytesLt (a b : Bytes) : Bool := List.lex a b fun x y => decide (x < y)

/-- A `std::map<std::string, std::string>`. -/
abbrev StringMap := Framework.SortedMap Bytes Bytes

/-- `std::isspace` in the C locale, the class `\s` of the regular expressions. -/
def isSpace (c : Byte) : Bool := c == 32 || (9 ≤ c && c ≤ 13)

/-- `std::isblank` in the C locale. -/
def isBlank (c : Byte) : Bool := c == 32 || c == 9

lemma isSpace_of_isBlank : ∀ c : Byte, isBlank c = true → isSpace c = true := by
  simp only [isBlank, isSpace, Bool.or_eq_true]
  intro c hc
  rcases hc with hc | hc
  · exact Or.inl hc
  · obtain rfl := eq_of_beq hc
    exact Or.inr (by decide)

/-- The class `\d`. -/
def isDigit (c : Byte) : Bool := 48 ≤ c && c ≤ 57

/-- The class `[a-zA-Z]`. -/
def isAlpha (c : Byte) : Bool := (65 ≤ c && c ≤ 90) || (97 ≤ c && c ≤ 122)

/-- What is said of all bytes can be checked. -/
instance decidableForallByte (p : Byte → Prop) [DecidablePred p] : Decidable (∀ c, p c) :=
  decidable_of_iff (∀ n : Fin 256, p (UInt8.ofFin n)) ⟨fun h c => h c.toFin, fun h _ => h _⟩

/-! ## Exceptions -/

/-- The `std::exception`s the program throws. -/
inductive Exn
  | runtimeError (what : String)
  | logicError (what : String)
  | outOfRange
  | systemError
  deriving DecidableEq, Repr

/-- How a step of the program can fail. -/
inductive Fault
  /-- An exception leaves it. -/
  | thrown (e : Exn)
  /-- Its behaviour is undefined. -/
  | undefined
  deriving DecidableEq, Repr

/-! ## Formatted extraction -/

/-- The value of a digit of the given base (at most 16). -/
def digitValue (base : ℕ) (c : Byte) : Option ℕ :=
  let v :=
    if isDigit c then some (c.toNat - 48)
    else if 97 ≤ c ∧ c ≤ 102 then some (c.toNat - 87)
    else if 65 ≤ c ∧ c ≤ 70 then some (c.toNat - 55)
    else none
  v.filter (· < base)

/-- The value of the longest run of digits at the front, continuing from `acc`; `none` when
no digit has been read. -/
def readDigits (base : ℕ) (acc : Option ℕ) : Bytes → Option ℕ
  | [] => acc
  | c :: rest =>
    match digitValue base c with
    | none => acc
    | some d => readDigits base (some (acc.getD 0 * base + d)) rest

/-- The optional sign of an integer, `true` for `-`, and what follows it. -/
def splitSign : Bytes → Bool × Bytes
  | 45 :: rest => (true, rest)
  | 43 :: rest => (false, rest)
  | s => (false, s)

/-- The `0x` prefix, which `std::num_get` accepts in base 16 only. -/
def dropBasePrefix (base : ℕ) : Bytes → Bytes
  | 48 :: 120 :: rest => if base = 16 then rest else 48 :: 120 :: rest
  | 48 :: 88 :: rest => if base = 16 then rest else 48 :: 88 :: rest
  | s => s

/-- The value of `x` after `is >> std::setbase(base) >> x` for a `long long x` holding
`old`. -/
def extractLongLong (base : ℕ) (old : ℤ) (s : Bytes) : ℤ :=
  match s.dropWhile isSpace with
  | [] => old
  | c :: rest =>
    let (negative, digits) := splitSign (c :: rest)
    match readDigits base none (dropBasePrefix base digits) with
    | none => 0
    | some n =>
      if negative then (if n ≤ 2 ^ 63 then -(n : ℤ) else -2 ^ 63)
      else (if n < 2 ^ 63 then (n : ℤ) else 2 ^ 63 - 1)

/-- `is >> x` for a `std::size_t x`: the value if the stream is still good.  A negative number
is read as its residue modulo `2 ^ 64`. -/
def extractSize (s : Bytes) : Option ℕ :=
  match s.dropWhile isSpace with
  | [] => none
  | c :: rest =>
    let (negative, digits) := splitSign (c :: rest)
    match readDigits 10 none (dropBasePrefix 10 digits) with
    | none => none
    | some n =>
      if n < 2 ^ 64 then some (if negative then (2 ^ 64 - n) % 2 ^ 64 else n) else none

end Cld
