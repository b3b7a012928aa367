import Cld.Body.Chunked
import Cld.Head.Lines
import Cld.Head.Segmentation
import Mathlib.Data.List.Induction
import Mathlib.Data.List.TakeWhile

/-!
# Response heads round-trip

A head as a server writes it, and what the reader gets back from its text.

* `Head` is the head itself.  Its fields and those of `HeaderField` carry what makes the text
  unambiguous: no part has a CR, a LF or a NUL, and the parts that stand behind a blank do not
  start with one.
* `Head.render` is the text.  `readHead_render` reads it off the stream to its last byte,
  whatever follows, `startLine_fullMatch` and `parseHeaderString_fieldLine` take the lines
  apart again.
* `Head.valueUnder` is what the fields say under a name: the last one wins, but the cookies are
  joined.  `find_store` is the step of it that the constructor makes with each field.
-/

namespace Cld

open Framework

/-! ## Heads -/

/-- No CR, LF or NUL. -/
def IsPlain (s : Bytes) : Prop := ∀ c ∈ s, c ≠ CR ∧ c ≠ LF ∧ c ≠ 0

/-- The text does not start with white space. -/
def Unindented (s : Bytes) : Prop := ∀ c ∈ s.head?, isSpace c = false

/-- A field of a head: a token, and a value that fits on its line. -/
structure HeaderField where
  name : Bytes
  value : Bytes
  name_ne : name ≠ []
  name_token : ∀ c ∈ name, isToken c = true
  value_plain : IsPlain value
  value_start : Unindented value

/-- The head of a response.  The version is one or more digits and dots, and the status is
written with three digits. -/
structure Head where
  version : Bytes
  status : ℕ
  reason : Bytes
  fields : List HeaderField
  version_ne : version ≠ []
  version_digits : ∀ c ∈ version, (isDigit c || c == 46) = true
  status_lt : status < 1000
  reason_ne : reason ≠ []
  reason_plain : IsPlain reason
  reason_start : Unindented reason

/-- The three digits of a status. -/
def statusDigits (n : ℕ) : Bytes :=
  [UInt8.ofNat (48 + n / 100), UInt8.ofNat (48 + n / 10 % 10), UInt8.ofNat (48 + n % 10)]

/-- `name: value` and the CR of its line. -/
def HeaderField.line (f : HeaderField) : Bytes := f.name ++ [58, 32] ++ f.value ++ [CR]

namespace Head

/-- `HTTP/v s r` and the CR of its line. -/
def startLine (h : Head) : Bytes :=
  bytes "HTTP/" ++ h.version ++ [32] ++ statusDigits h.status ++ [32] ++ h.reason ++ [CR]

/-- The lines of the head before the empty one. -/
def lines (h : Head) : List Bytes := h.startLine :: h.fields.map HeaderField.line

/-- The text of the head. -/
def render (h : Head) : Bytes := h.lines.flatMap (· ++ [LF]) ++ [CR, LF]

/-- The text ends in a semicolon and white space. -/
def endsInSemicolon (text : Bytes) : Bool := (text.reverse.dropWhile isSpace).head? == some 59

/-- Add a value to the cookies so far. -/
def joinCookie (text value : Bytes) : Bytes :=
  if text ≠ [] ∧ endsInSemicolon text = false then text ++ bytes "; " ++ value else text ++ value

/-- The values of the fields with this name, in order. -/
def valuesUnder (name : Bytes) (fields : List HeaderField) : List Bytes :=
  (fields.filter fun f => f.name = name).map (·.value)

/-- What the fields say under a name: the last value, and of the cookies all of them. -/
def valueUnder (name : Bytes) (fields : List HeaderField) : Bytes :=
  if name = bytes "Set-Cookie" then (valuesUnder name fields).foldl joinCookie []
  else (valuesUnder name fields).getLast?.getD []

/-- The same, but for a name that no field has. -/
def entryUnder (name : Bytes) (fields : List HeaderField) : Option Bytes :=
  if ∃ f ∈ fields, f.name = name then some (valueUnder name fields) else none

end Head

/-! ## The lines of the text -/

lemma isText_of_isPlain {s : Bytes} (h : IsPlain s) : ∀ c ∈ s, isText c = true := by
  intro c hc
  obtain ⟨hcr, hlf, -⟩ := h c hc
  simp [isText, hcr, hlf]

lemma isPlain_append {s t : Bytes} : IsPlain (s ++ t) ↔ IsPlain s ∧ IsPlain t :=
  List.forall_mem_append

lemma isPlain_of_literal {s : Bytes} (h : CR ∉ s ∧ LF ∉ s ∧ 0 ∉ s) : IsPlain s := by
  intro c hc
  refine ⟨?_, ?_, ?_⟩
  all_goals rintro rfl
  · exact h.1 hc
  · exact h.2.1 hc
  · exact h.2.2 hc

lemma isPlain_of_forall {p : Byte → Bool} {s : Bytes} (hs : ∀ c ∈ s, p c = true)
    (hp : p CR = false ∧ p LF = false ∧ p 0 = false) : IsPlain s := by
  intro c hc
  have hpc := hs c hc
  refine ⟨?_, ?_, ?_⟩
  all_goals
    rintro rfl
    simp [hp] at hpc

lemma digit_spec {d : ℕ} (hd : d < 10) :
    isDigit (UInt8.ofNat (48 + d)) = true ∧ digitValue 10 (UInt8.ofNat (48 + d)) = some d := by
  have hall : ∀ d : Fin 10, isDigit (UInt8.ofNat (48 + d.val)) = true ∧
      digitValue 10 (UInt8.ofNat (48 + d.val)) = some d.val := by
    decide
  exact hall ⟨d, hd⟩

lemma statusDigits_isDigit {n : ℕ} (hn : n < 1000) : ∀ c ∈ statusDigits n, isDigit c = true := by
  simp only [statusDigits, List.forall_mem_cons, List.not_mem_nil, false_implies, implies_true,
    and_true]
  exact ⟨(digit_spec (by omega)).1, (digit_spec (by omega)).1, (digit_spec (by omega)).1⟩

lemma readDigits_statusDigits {n : ℕ} (hn : n < 1000) :
    readDigits 10 none (statusDigits n) = some n := by
  have hundreds : n / 100 < 10 := by omega
  have htens : n / 10 % 10 < 10 := by omega
  have hunits : n % 10 < 10 := by omega
  simp only [statusDigits, readDigits, (digit_spec hundreds).2, (digit_spec htens).2,
    (digit_spec hunits).2, Option.getD_none, Option.getD_some, Option.some.injEq]
  omega

/-- A line before the empty one: it does not start with CR, holds no LF and no NUL. -/
structure IsLine (line : Bytes) : Prop where
  head : line.head? ≠ some CR
  lf : LF ∉ line
  nul : 0 ∉ line

/-- A head of such lines holds no NUL. -/
lemma takeWhile_lines {lines : List Bytes} (hlines : ∀ line ∈ lines, IsLine line) :
    (lines.flatMap (· ++ [LF]) ++ [CR, LF]).takeWhile (· != 0) =
      lines.flatMap (· ++ [LF]) ++ [CR, LF] := by
  rw [List.takeWhile_eq_self_iff]
  intro c hc
  simp only [bne_iff_ne, ne_eq]
  rintro rfl
  rcases List.mem_append.1 hc with hc | hc
  · obtain ⟨line, hline, hmem⟩ := List.mem_flatMap.1 hc
    rcases List.mem_append.1 hmem with hmem | hmem
    · exact (hlines line hline).nul hmem
    · exact absurd hmem (by decide)
  · exact absurd hc (by decide)

/-- A text that starts with a plain character, ended by its CR. -/
lemma isLine_of_isPlain {s : Bytes} (hne : s ≠ []) (hs : IsPlain s) : IsLine (s ++ [CR]) where
  head := by
    obtain ⟨c, s, rfl⟩ := List.exists_cons_of_ne_nil hne
    simpa using (hs c List.mem_cons_self).1
  lf := by
    intro hmem
    rcases List.mem_append.1 hmem with hmem | hmem
    · exact (hs LF hmem).2.1 rfl
    · exact absurd hmem (by decide)
  nul := by
    intro hmem
    rcases List.mem_append.1 hmem with hmem | hmem
    · exact (hs 0 hmem).2.2 rfl
    · exact absurd hmem (by decide)

lemma HeaderField.isLine (f : HeaderField) : IsLine f.line := by
  apply isLine_of_isPlain
  · simp
  · rw [isPlain_append, isPlain_append]
    exact ⟨⟨isPlain_of_forall f.name_token (by decide), isPlain_of_literal (by decide)⟩,
      f.value_plain⟩

lemma Head.isLine_startLine (h : Head) : IsLine h.startLine := by
  apply isLine_of_isPlain
  · simp
  · simp only [isPlain_append]
    have hblank : IsPlain [32] := isPlain_of_literal (by decide)
    have hversion : IsPlain h.version := isPlain_of_forall h.version_digits (by decide)
    have hstatus : IsPlain (statusDigits h.status) :=
      isPlain_of_forall (statusDigits_isDigit h.status_lt) (by decide)
    exact ⟨⟨⟨⟨⟨isPlain_of_literal (by decide), hversion⟩, hblank⟩, hstatus⟩, hblank⟩,
      h.reason_plain⟩

lemma Head.isLine (h : Head) : ∀ line ∈ h.lines, IsLine line := by
  intro line hline
  rcases List.mem_cons.1 hline with rfl | hline
  · exact h.isLine_startLine
  · obtain ⟨f, -, rfl⟩ := List.mem_map.1 hline
    exact f.isLine

/-! ## Reading the text off the stream -/

section Reading

variable {line rest : Bytes} {last : Byte} {front : Inbound}

/-- A line is pushed with its LF. -/
lemma readHead_line (data : Bytes) (tail : Inbound) (hready : AlwaysReady front)
    (hpay : payload front = line ++ LF :: rest) (hlf : LF ∉ line)
    (hcr : last = LF → line.head? ≠ some CR) :
    ∃ front', AlwaysReady front' ∧ payload front' = rest ∧
      readHead data last (front ++ tail) =
        readHead (data ++ (line ++ [LF])) LF (front' ++ tail) := by
  induction line generalizing data last front with
  | nil =>
    obtain ⟨brk, front', rfl, hready', hpay'⟩ := hready.uncons hpay
    refine ⟨front', hready', hpay', ?_⟩
    rw [List.cons_append, readHead_byte brk (by simp [CR, LF]), List.nil_append]
  | cons c line ih =>
    obtain ⟨hc, hlf'⟩ := not_or.1 (mt List.mem_cons.2 hlf)
    obtain ⟨brk, front', rfl, hready', hpay'⟩ := hready.uncons hpay
    have hmore : ¬ (last = LF ∧ c = CR) := by
      rintro ⟨hlast, rfl⟩
      exact hcr hlast rfl
    obtain ⟨front'', hready'', hpay'', hread⟩ :=
      ih (data ++ [c]) hready' hpay' hlf' fun h => absurd h.symm hc
    refine ⟨front'', hready'', hpay'', ?_⟩
    rw [List.cons_append, readHead_byte brk hmore, hread, List.append_assoc]
    rfl

/-- Lines are pushed up to the empty one, which ends the loop. -/
lemma readHead_lines {lines : List Bytes} (data : Bytes) (tail : Inbound)
    (hlines : ∀ line ∈ lines, IsLine line)
    (hready : AlwaysReady front) (hpay : payload front = lines.flatMap (· ++ [LF]) ++ [CR, LF]) :
    readHead data LF (front ++ tail) =
      .complete (data ++ (lines.flatMap (· ++ [LF]) ++ [CR, LF])) tail := by
  induction lines generalizing data front with
  | nil =>
    obtain ⟨brk, front', rfl, hready', hpay'⟩ := hready.uncons hpay
    obtain ⟨brk', front'', rfl, hready'', hpay''⟩ := hready'.uncons hpay'
    obtain rfl := hready''.eq_nil hpay''
    simp [readHead]
  | cons line lines ih =>
    obtain ⟨hline, hlines'⟩ := List.forall_mem_cons.1 hlines
    have hpay' : payload front = line ++ LF :: (lines.flatMap (· ++ [LF]) ++ [CR, LF]) := by
      rw [hpay]
      simp
    obtain ⟨front', hready', hrest, hread⟩ :=
      readHead_line data tail hready hpay' hline.lf fun _ => hline.head
    rw [hread, ih _ hlines' hready' hrest]
    simp

end Reading

/-! ## Taking a line apart -/

/-- One blank is white space. -/
lemma isSpace_of_mem_blank : ∀ c ∈ ([32] : Bytes), isSpace c = true := by
  simp only [List.forall_mem_singleton]
  decide

lemma isSpace_of_isDigit : ∀ c : Byte, isDigit c = true → isSpace c = false := by
  decide +kernel

lemma unindented_of_isDigit {s : Bytes} (hs : ∀ c ∈ s, isDigit c = true) : Unindented s := by
  intro c hc
  exact isSpace_of_isDigit c (hs c (List.mem_of_mem_head? hc))

/-- What follows an unindented text that is not empty does not matter. -/
lemma Unindented.append {s : Bytes} (h : Unindented s) (hne : s ≠ []) (t : Bytes) :
    Unindented (s ++ t) := by
  obtain ⟨c, s, rfl⟩ := List.exists_cons_of_ne_nil hne
  exact h

/-- **The start line.** -/
lemma Head.startLine_fullMatch (h : Head) : ∃ groups,
    startLineRegex.fullMatch h.startLine = some groups ∧ groups 1 = h.version ∧
      groups 2 = statusDigits h.status ∧ groups 3 = h.reason := by
  have htext : h.startLine = bytes "HTTP/" ++ (h.version ++ ([32] ++ (statusDigits h.status ++
      ([32] ++ (h.reason ++ [CR]))))) := by
    simp [startLine]
  have hdigits := statusDigits_isDigit h.status_lt
  refine ⟨Function.update (Function.update (Function.update (fun _ => []) 1 h.version) 2
    (statusDigits h.status)) 3 h.reason, ?_, by simp, by simp, by simp⟩
  rw [htext]
  unfold Regex.fullMatch startLineRegex
  rw [Regex.exec_seqs_cons, Regex.exec_lit, Regex.exec_seqs_cons]
  apply Regex.exec_group_plus h.version_ne h.version_digits
  · simp [isDigit]
  rw [Regex.exec_seqs_cons]
  apply Regex.exec_plus (List.cons_ne_nil 32 []) isSpace_of_mem_blank
  · exact (unindented_of_isDigit hdigits).append (by simp [statusDigits]) _
  rw [Regex.exec_seqs_cons]
  apply Regex.exec_group_ones [isDigit, isDigit, isDigit]
  · simpa [statusDigits] using hdigits
  rw [Regex.exec_seqs_cons]
  apply Regex.exec_plus (List.cons_ne_nil 32 []) isSpace_of_mem_blank
  · exact h.reason_start.append h.reason_ne _
  rw [Regex.exec_seqs_cons]
  apply Regex.exec_group_plus h.reason_ne (isText_of_isPlain h.reason_plain)
  · simp [isText]
  rw [Regex.exec_seqs_cons, Regex.exec, if_pos (by decide), Regex.exec_seqs_nil]
  rfl

/-- The expression of a header on its parts: the name, the colon, the blanks, the value. -/
lemma headerRegex_fullMatch {name blank value rest : Bytes} {groups : Regex.Captures Byte}
    (hne : name ≠ []) (hname : ∀ c ∈ name, isToken c = true)
    (hblank : ∀ c ∈ blank, isSpace c = true) (hstart : Unindented (value ++ rest))
    (hvalue : ∀ c ∈ value, isText c = true) (hrest : ∀ c ∈ rest.head?, isText c = false)
    (hend : Regex.exec (.seqs [.opt (.group 3 (.seqs [.opt (.one (· == 58)), .one (· == CR),
        .opt (.one (· == LF))]))]) rest
      (Function.update (Function.update (fun _ => []) 1 name) 2 value)
      (fun rest caps => if rest.isEmpty then some caps else none) = some groups) :
    headerRegex.fullMatch (name ++ ([] ++ 58 :: (blank ++ (value ++ rest)))) = some groups := by
  unfold Regex.fullMatch headerRegex
  rw [Regex.exec_seqs_cons]
  apply Regex.exec_group_plus hne hname
  · simp only [List.nil_append, List.head?_cons, Option.mem_some_iff, forall_eq']
    decide
  rw [Regex.exec_seqs_cons]
  apply Regex.exec_star (List.forall_mem_nil _)
  · simp [isSpace]
  rw [Regex.exec_seqs_cons, Regex.exec, if_pos (by decide), Regex.exec_seqs_cons]
  apply Regex.exec_star hblank hstart
  rw [Regex.exec_seqs_cons]
  apply Regex.exec_group_star hvalue hrest
  exact hend

/-- **A field.**  The blanks behind the colon take the CR of an empty value, and a value keeps
its own colons, since nothing is left for the one that may stand before the CR. -/
lemma HeaderField.line_fullMatch (f : HeaderField) : ∃ groups,
    headerRegex.fullMatch f.line = some groups ∧ groups 1 = f.name ∧ groups 2 = f.value := by
  have hblank : ∀ c ∈ ([32, CR] : Bytes), isSpace c = true := by
    simp only [List.forall_mem_cons, List.not_mem_nil, false_implies, implies_true, and_true]
    decide
  by_cases hvalue : f.value = []
  · have htext : f.line = f.name ++ ([] ++ 58 :: ([32, CR] ++ ([] ++ []))) := by
      simp [line, hvalue]
    refine ⟨Function.update (Function.update (fun _ => []) 1 f.name) 2 [], ?_, by simp,
      by simp [hvalue]⟩
    rw [htext]
    apply headerRegex_fullMatch f.name_ne f.name_token hblank
    · simp [Unindented]
    · exact List.forall_mem_nil _
    · simp
    · rfl
  · have htext : f.line = f.name ++ ([] ++ 58 :: ([32] ++ (f.value ++ [CR]))) := by
      simp [line]
    refine ⟨Function.update (Function.update (Function.update (fun _ => []) 1 f.name) 2 f.value) 3
      [CR], ?_, by simp, by simp⟩
    rw [htext]
    apply headerRegex_fullMatch f.name_ne f.name_token
    · exact isSpace_of_mem_blank
    · exact f.value_start.append hvalue _
    · exact isText_of_isPlain f.value_plain
    · simp [isText]
    · rfl

lemma HeaderField.parse_line (f : HeaderField) :
    ParseHeaderString f.line = .ok (f.name, f.value) := by
  obtain ⟨groups, hmatch, hname, hvalue⟩ := f.line_fullMatch
  unfold ParseHeaderString
  rw [hmatch, ← hname, ← hvalue]

/-! ## The cookies -/

namespace Head

/-- What the third expression asks of a text on one line. -/
lemma cookieEnd_isSome_iff {text : Bytes} (htext : ∀ c ∈ text, isText c = true) :
    (cookieEndRegex.fullMatch text).isSome ↔ endsInSemicolon text = true := by
  rw [Regex.fullMatch_isSome_iff]
  unfold endsInSemicolon
  simp only [cookieEndRegex, Regex.seqs, Regex.matches_seq, Regex.matches_star, Regex.matches_one,
    Regex.matches_empty, beq_iff_eq]
  constructor
  · rintro ⟨_, front, _, _, rfl, ⟨-, rfl⟩, _, _, _, rfl, ⟨_, rfl, rfl, rfl⟩, blank, _, _, rfl,
      ⟨hblank, rfl⟩, rfl, rfl⟩
    have hreverse : (front ++ ([59] ++ (blank ++ []))).reverse =
        blank.reverse ++ 59 :: front.reverse := by
      simp
    rw [hreverse, List.dropWhile_append_of_pos (by simpa using hblank)]
    rfl
  · intro hhead
    obtain ⟨front, hfront⟩ := List.head?_eq_some_iff.1 hhead
    have hsplit := List.takeWhile_append_dropWhile (p := isSpace) (l := text.reverse)
    have hblank : ∀ c ∈ text.reverse.takeWhile isSpace, isSpace c = true :=
      fun c hc => List.mem_takeWhile_imp hc
    rw [hfront] at hsplit
    generalize text.reverse.takeWhile isSpace = blank at hsplit hblank
    obtain rfl : text = front.reverse ++ ([59] ++ blank.reverse) := by
      rw [← List.reverse_inj, ← hsplit]
      simp
    refine ⟨_, front.reverse, _, _, rfl, ⟨?_, rfl⟩, [59], blank.reverse, _, rfl,
      ⟨59, rfl, rfl, rfl⟩, blank.reverse, [], _, (List.append_nil _).symm, ⟨?_, rfl⟩, rfl, rfl⟩
    · intro c hc
      exact htext c (List.mem_append_left _ hc)
    · intro c hc
      exact hblank c (List.mem_reverse.1 hc)

/-- The text stays on one line. -/
lemma isPlain_joinCookie {text value : Bytes} (htext : IsPlain text) (hvalue : IsPlain value) :
    IsPlain (joinCookie text value) := by
  unfold joinCookie
  split_ifs
  · rw [isPlain_append, isPlain_append]
    exact ⟨⟨htext, isPlain_of_literal (by decide)⟩, hvalue⟩
  · exact isPlain_append.2 ⟨htext, hvalue⟩

lemma valuesUnder_snoc (name : Bytes) (fields : List HeaderField) (f : HeaderField) :
    valuesUnder name (fields ++ [f]) =
      valuesUnder name fields ++ if f.name = name then [f.value] else [] := by
  unfold valuesUnder
  by_cases hname : f.name = name <;> simp [hname]

/-- One field more: it is stored under its own name and changes no other. -/
lemma valueUnder_snoc (name : Bytes) (fields : List HeaderField) (f : HeaderField) :
    valueUnder name (fields ++ [f]) =
      if name = f.name then
        if name = bytes "Set-Cookie" then joinCookie (valueUnder name fields) f.value
        else f.value
      else valueUnder name fields := by
  unfold valueUnder
  rw [valuesUnder_snoc]
  by_cases hname : name = f.name
  · subst hname
    by_cases hcookie : f.name = bytes "Set-Cookie" <;> simp [hcookie]
  · simp [hname, Ne.symm hname]

lemma isPlain_valueUnder (name : Bytes) (fields : List HeaderField) :
    IsPlain (valueUnder name fields) := by
  induction fields using List.reverseRecOn with
  | nil =>
    have hnil : valueUnder name [] = [] := by
      unfold valueUnder
      simp [valuesUnder]
    rw [hnil]
    exact List.forall_mem_nil _
  | append_singleton fields f ih =>
    rw [valueUnder_snoc]
    split_ifs
    · exact isPlain_joinCookie ih f.value_plain
    · exact f.value_plain
    · exact ih

/-- What the constructor stores, as long as the old cookies are on one line. -/
lemma find_store {headers : StringMap} {name value : Bytes} (q : Bytes)
    (hold : IsPlain ((SortedMap.find headers name).getD [])) :
    (SortedMap.find (Response.store headers name value) q).getD [] =
      if q = name then
        if q = bytes "Set-Cookie" then joinCookie ((SortedMap.find headers q).getD []) value
        else value
      else (SortedMap.find headers q).getD [] := by
  unfold Response.store
  by_cases hcookie : name = bytes "Set-Cookie"
  · rw [if_pos hcookie, SortedMap.find_assign]
    by_cases hq : q = name
    · subst hq
      rw [if_pos rfl, if_pos rfl, if_pos hcookie, Option.getD_some]
      generalize (SortedMap.find headers q).getD [] = old at hold
      have hmatch : (cookieEndRegex.fullMatch old).isNone = true ↔ endsInSemicolon old = false := by
        rw [← Option.not_isSome, Bool.not_eq_true', ← Bool.not_eq_true,
          cookieEnd_isSome_iff (isText_of_isPlain hold), Bool.not_eq_true]
      unfold joinCookie
      simp only [hmatch]
      split_ifs <;> simp
    · simp [hq]
  · rw [if_neg hcookie, SortedMap.find_assign]
    by_cases hq : q = name
    · subst hq
      simp [hcookie]
    · simp [hq]

/-- The headers that the fields leave. -/
def stored (fields : List HeaderField) : StringMap :=
  fields.foldl (fun headers f => Response.store headers f.name f.value) []

/-- **What is stored is what the fields say.** -/
lemma find_stored (fields : List HeaderField) (name : Bytes) :
    (SortedMap.find (stored fields) name).getD [] = valueUnder name fields := by
  induction fields using List.reverseRecOn generalizing name with
  | nil =>
    unfold valueUnder
    simp [stored, valuesUnder]
  | append_singleton fields f ih =>
    have hstored : stored (fields ++ [f]) = Response.store (stored fields) f.name f.value := by
      simp [stored]
    have hold : IsPlain ((SortedMap.find (stored fields) f.name).getD []) := by
      rw [ih]
      exact isPlain_valueUnder f.name fields
    rw [hstored, find_store name hold, valueUnder_snoc, ih]

/-- A name is stored if a field has it. -/
lemma find_stored_eq_none_iff (fields : List HeaderField) (name : Bytes) :
    SortedMap.find (stored fields) name = none ↔ ∀ f ∈ fields, f.name ≠ name := by
  induction fields using List.reverseRecOn with
  | nil => simp [stored]
  | append_singleton fields f ih =>
    have hstored : stored (fields ++ [f]) = Response.store (stored fields) f.name f.value := by
      simp [stored]
    have hassign : ∃ value, Response.store (stored fields) f.name f.value =
        SortedMap.assign bytesLt f.name value (stored fields) := by
      unfold Response.store
      split_ifs
      · exact ⟨_, rfl⟩
      · exact ⟨_, rfl⟩
    obtain ⟨value, hvalue⟩ := hassign
    rw [hstored, hvalue, SortedMap.find_assign, List.forall_mem_append, List.forall_mem_singleton]
    by_cases hname : name = f.name
    · rw [if_pos hname]
      exact iff_of_false (Option.some_ne_none value) fun h => h.2 hname.symm
    · rw [if_neg hname, ih]
      exact (and_iff_left (Ne.symm hname)).symm

/-- **What is stored**, absent names included. -/
lemma find_stored_eq (fields : List HeaderField) (name : Bytes) :
    SortedMap.find (stored fields) name = entryUnder name fields := by
  have hvalue := find_stored fields name
  have hnone := find_stored_eq_none_iff fields name
  unfold entryUnder
  cases hfind : SortedMap.find (stored fields) name with
  | none => rw [if_neg fun ⟨f, hf, hname⟩ => hnone.1 hfind f hf hname]
  | some value =>
    have hsome : ∃ f ∈ fields, f.name = name := by
      by_contra habsent
      push Not at habsent
      exact Option.some_ne_none value (hfind.symm.trans (hnone.2 habsent))
    rw [hfind, Option.getD_some] at hvalue
    rw [if_pos hsome, hvalue]

lemma getD_entryUnder (name : Bytes) (fields : List HeaderField) :
    (entryUnder name fields).getD [] = valueUnder name fields := by
  rw [← find_stored_eq, find_stored]

/-- The entry is its presence and its value. -/
lemma entryUnder_congr {name : Bytes} {fields fields' : List HeaderField}
    (hpresent : (∃ f ∈ fields, f.name = name) ↔ ∃ f ∈ fields', f.name = name)
    (hvalue : valueUnder name fields = valueUnder name fields') :
    entryUnder name fields = entryUnder name fields' := by
  unfold entryUnder
  simp only [hpresent, hvalue]

/-! ## The constructor -/

/-- The header loop takes the fields one by one and leaves at the empty line. -/
lemma headerLoop_fields (fields : List HeaderField) {line : Bytes} {headers : StringMap}
    {fuel : ℕ} (hfuel : fields.length < fuel) :
    Response.headerLoop fuel
        { rest := (fields.map HeaderField.line).flatMap (· ++ [LF]) ++ [CR, LF] } line headers =
      some (.ok (fields.foldl (fun headers f => Response.store headers f.name f.value)
        headers)) := by
  induction fields generalizing line headers fuel with
  | nil =>
    obtain ⟨fuel, rfl⟩ := Nat.exists_eq_succ_of_ne_zero (Nat.pos_iff_ne_zero.1 hfuel)
    have hget : Response.getline { rest := [CR] ++ LF :: [] } line = ([CR], { rest := [] }) :=
      Response.getline_line (by decide) [] line
    exact Response.headerLoop_leaves hget rfl
  | cons f fields ih =>
    obtain ⟨fuel, rfl⟩ := Nat.exists_eq_succ_of_ne_zero (by omega : fuel ≠ 0)
    have hline := f.isLine
    have hget := Response.getline_line hline.lf
      ((fields.map HeaderField.line).flatMap (· ++ [LF]) ++ [CR, LF]) line
    have hrest : ((f :: fields).map HeaderField.line).flatMap (· ++ [LF]) ++ [CR, LF] =
        f.line ++ LF :: ((fields.map HeaderField.line).flatMap (· ++ [LF]) ++ [CR, LF]) := by
      simp
    rw [hrest, Nat.succ_eq_add_one, Response.headerLoop_stores hget hline.head f.parse_line]
    exact ih (by simpa using hfuel)

/-- Every line takes up room in the text. -/
lemma length_lines_le (lines : List Bytes) : lines.length ≤ (lines.flatMap (· ++ [LF])).length := by
  induction lines with
  | nil => exact le_rfl
  | cons line lines ih =>
    simp only [List.flatMap_cons, List.length_append, List.length_cons, List.length_nil]
    omega

/-- **The constructor takes the head apart.** -/
lemma parse_render (h : Head) : ∃ r, Response.parse h.render = some (.ok r) ∧
    r.httpVersion = h.version ∧ r.status = h.status ∧ r.statusText = h.reason ∧
      r.headers = stored h.fields := by
  have hnul : h.render.takeWhile (· != 0) = h.render := takeWhile_lines h.isLine
  have hcut : h.render = h.startLine ++
      LF :: ((h.fields.map HeaderField.line).flatMap (· ++ [LF]) ++ [CR, LF]) := by
    simp [render, lines]
  have hlength : h.fields.length < h.render.length + 2 := by
    have hle := length_lines_le (h.fields.map HeaderField.line)
    rw [List.length_map] at hle
    rw [hcut]
    simp only [List.length_append, List.length_cons]
    omega
  obtain ⟨groups, hmatch, hversion, hstatus, hreason⟩ := h.startLine_fullMatch
  have hloop : Response.headerLoop (h.render.length + 2)
      { rest := (h.fields.map HeaderField.line).flatMap (· ++ [LF]) ++ [CR, LF] } h.startLine [] =
        some (.ok (stored h.fields)) := headerLoop_fields h.fields hlength
  have hget := Response.getline_line h.isLine_startLine.lf
    ((h.fields.map HeaderField.line).flatMap (· ++ [LF]) ++ [CR, LF]) []
  rw [← hcut] at hget
  refine ⟨⟨h.status, h.version, h.reason, stored h.fields⟩, ?_, rfl, rfl, rfl, rfl⟩
  unfold Response.parse
  rw [hnul, hget]
  simp only [hmatch, hloop, hstatus, hversion, hreason, readDigits_statusDigits h.status_lt]
  rfl

/-! ## The round trip -/

/-- The byte loop takes the head and nothing behind it. -/
lemma readHead_render (h : Head) {front tail : Inbound} (hready : AlwaysReady front)
    (hpay : payload front = h.render) :
    readHead [] 0 (front ++ tail) = .complete h.render tail := by
  have hcut : payload front = h.startLine ++
      LF :: ((h.fields.map HeaderField.line).flatMap (· ++ [LF]) ++ [CR, LF]) := by
    rw [hpay]
    simp [render, lines]
  obtain ⟨front', hready', hrest, hread⟩ := readHead_line [] tail hready hcut
    h.isLine_startLine.lf fun (hlast : (0 : Byte) = LF) => absurd hlast (by decide)
  have hfields : ∀ line ∈ h.fields.map HeaderField.line, IsLine line :=
    fun line hline => h.isLine line (List.mem_cons_of_mem _ hline)
  rw [hread, readHead_lines _ tail hfields hready' hrest]
  simp [render, lines]

/-- **Response heads round-trip.**  The reader takes the text of a head off the stream and not
a byte of what follows, and gets back the version, the status, the reason and the fields: of
each name the last value, of the cookies all values. -/
theorem round_trip (h : Head) {front tail : Inbound} (hready : AlwaysReady front)
    (hpay : payload front = h.render) :
    ReadToResponse (front ++ tail) = .response h.render tail.steady ∧
      ∃ r, Response.parse h.render = some (.ok r) ∧
        r.httpVersion = h.version ∧ r.status = h.status ∧ r.statusText = h.reason ∧
        (∀ header : String, bytes header ≠ bytes "Set-Cookie" →
          r.get header = (valuesUnder (bytes header) h.fields).getLast?.getD []) ∧
        r.get "Set-Cookie" = (valuesUnder (bytes "Set-Cookie") h.fields).foldl joinCookie [] := by
  constructor
  · have hfront : (front ++ tail).filter (· ≠ .again) = front ++ tail.steady := by
      rw [List.filter_append, List.filter_eq_self.2]
      · rfl
      · intro item hitem
        obtain ⟨b, brk, rfl⟩ := hready item hitem
        rfl
    unfold ReadToResponse
    rw [hfront, h.readHead_render hready hpay]
  · obtain ⟨r, hparse, hversion, hstatus, hreason, hheaders⟩ := h.parse_render
    refine ⟨r, hparse, hversion, hstatus, hreason, ?_, ?_⟩
    · intro header hne
      unfold Response.get
      rw [hheaders, find_stored, valueUnder, if_neg hne]
    · unfold Response.get
      rw [hheaders, find_stored, valueUnder, if_pos rfl]

/-- Two cookies around a field without a value. -/
def twoCookies : Head where
  version := bytes "1.1"
  status := 404
  reason := bytes "Not Found"
  fields :=
    [{ name := bytes "Set-Cookie", value := bytes "a=1", name_ne := by decide
       name_token := List.all_eq_true.1 (by decide), value_plain := isPlain_of_literal (by decide)
       value_start := by simp [Unindented, bytes, isSpace] },
     { name := bytes "ETag", value := [], name_ne := by decide
       name_token := List.all_eq_true.1 (by decide), value_plain := isPlain_of_literal (by decide)
       value_start := by simp [Unindented] },
     { name := bytes "Set-Cookie", value := bytes "b=2", name_ne := by decide
       name_token := List.all_eq_true.1 (by decide), value_plain := isPlain_of_literal (by decide)
       value_start := by simp [Unindented, bytes, isSpace] }]
  version_ne := by decide
  version_digits := List.all_eq_true.1 (by decide)
  status_lt := by decide
  reason_ne := by decide
  reason_plain := isPlain_of_literal (by decide)
  reason_start := by simp [Unindented, bytes, isSpace]

/-- The cookies are joined, and the first byte of the body stays on the stream. -/
theorem round_trip_cookies :
    ReadToResponse ((bytes ("HTTP/1.1 404 Not Found\r\nSet-Cookie: a=1\r\nETag: \r\n" ++
        "Set-Cookie: b=2\r\n\r\n")).map (.byte · false) ++ [.byte 33 false]) =
      .response twoCookies.render [.byte 33 false] ∧
    ∃ r, Response.parse twoCookies.render = some (.ok r) ∧ r.status = 404 ∧
      r.get "ETag" = [] ∧ r.get "Set-Cookie" = bytes "a=1; b=2" := by
  have hready : AlwaysReady ((bytes ("HTTP/1.1 404 Not Found\r\nSet-Cookie: a=1\r\nETag: \r\n" ++
      "Set-Cookie: b=2\r\n\r\n")).map (.byte · false)) := by
    intro item hitem
    obtain ⟨b, -, rfl⟩ := List.mem_map.1 hitem
    exact ⟨b, false, rfl⟩
  have hpay : payload ((bytes ("HTTP/1.1 404 Not Found\r\nSet-Cookie: a=1\r\nETag: \r\n" ++
      "Set-Cookie: b=2\r\n\r\n")).map (.byte · false)) = twoCookies.render := by
    decide +kernel
  obtain ⟨hread, r, hparse, -, hstatus, -, hother, hcookies⟩ :=
    @round_trip twoCookies _ [.byte 33 false] hready hpay
  refine ⟨hread, r, hparse, hstatus, ?_, ?_⟩
  · rw [hother "ETag" (by decide)]
    rfl
  · rw [hcookies]
    rfl

end Head

end Cld
