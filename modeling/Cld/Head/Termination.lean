import Cld.Head.Lines
import Mathlib.Data.List.TakeWhile

/-!
# When the constructor of a response returns

The header loop has two ways out, a line that starts with CR and a line that is no header.  A
head as both callers collect it has the first one, but the loop reads a NUL-terminated copy of
it, and a NUL may come first.  From there on `getline` fails and leaves the line alone, so that
the loop parses its last line over and over.

* `Returns` is the loop leaving after finitely many rounds, `returns_iff_parse` its relation to
  the `none` of `Response.parse`.
* `Stops` says where it can leave: the first line is no start line, or it is the only one, or one
  of the others ends the loop.  `returns_iff_stops` holds of every sequence of bytes.
* `parse_returns_iff` is what remains of that for the sequences which the callers collect.
-/

namespace Cld

open Framework

namespace Response

variable {data rest line : Bytes} {lines : List Bytes} {headers : StringMap} {fuel : ℕ}

/-! ## The loop on the lines of the text -/

/-- At the end of the stream the loop goes on with the line it has. -/
lemma headerLoop_eof (hmore : ¬ Ends line) :
    headerLoop fuel { rest := rest, eof := true } line headers = none := by
  induction fuel generalizing headers with
  | zero => rfl
  | succ fuel ih =>
    obtain ⟨headers', hstores⟩ := exists_headerLoop_stores (getline_eof rest line) hmore headers
    rw [hstores]
    exact ih

/-- **The loop leaves at the first line that ends it**, and only there. -/
lemma headerLoop_lines (hlines : Split.pieces LF [] rest = lines) :
    (headerLoop fuel { rest := rest } line headers ≠ none → ∃ l ∈ lines, Ends l) ∧
      ((∃ l ∈ lines, Ends l) → lines.length ≤ fuel →
        headerLoop fuel { rest := rest } line headers ≠ none) := by
  induction fuel generalizing rest line lines headers with
  | zero =>
    refine ⟨fun h => absurd rfl h, fun _ hle => ?_⟩
    have hnil : lines = [] := List.eq_nil_of_length_eq_zero (Nat.le_zero.1 hle)
    exact absurd (hlines.trans hnil) (Split.pieces_ne_nil rest)
  | succ fuel ih =>
    by_cases hmem : LF ∈ rest
    · obtain ⟨first, back, rfl, hfirst⟩ := List.eq_append_cons_of_mem hmem
      have hget := getline_line hfirst back line
      rw [Split.pieces_cons_of_not_mem hfirst] at hlines
      subst hlines
      by_cases hends : Ends first
      · exact ⟨fun _ => ⟨first, List.mem_cons_self, hends⟩,
          fun _ _ => headerLoop_ends hget hends⟩
      · obtain ⟨headers', hstores⟩ := exists_headerLoop_stores hget hends headers
        obtain ⟨hleaves, hreturns⟩ := @ih back first _ headers' rfl
        rw [hstores]
        constructor
        · intro hne
          obtain ⟨l, hl, hlends⟩ := hleaves hne
          exact ⟨l, List.mem_cons_of_mem first hl, hlends⟩
        · rintro ⟨l, hl, hlends⟩ hle
          rcases List.mem_cons.1 hl with rfl | hl
          · exact absurd hlends hends
          · exact hreturns ⟨l, hl, hlends⟩ (Nat.le_of_succ_le_succ hle)
    · have hget := getline_last hmem line
      rw [Split.pieces_of_not_mem hmem] at hlines
      subst hlines
      by_cases hends : Ends rest
      · exact ⟨fun _ => ⟨rest, List.mem_singleton_self rest, hends⟩,
          fun _ _ => headerLoop_ends hget hends⟩
      · obtain ⟨headers', hstores⟩ := exists_headerLoop_stores hget hends headers
        rw [hstores, headerLoop_eof hends]
        refine ⟨fun h => absurd rfl h, ?_⟩
        rintro ⟨l, hl, hlends⟩ -
        rw [List.mem_singleton.1 hl] at hlends
        exact absurd hlends hends

/-! ## The first line -/

lemma isToken_of_isSpace : ∀ c : Byte, isSpace c = true → isToken c = false := by
  decide +kernel

lemma parseHeaderString_form {field : Bytes × Bytes} (h : ParseHeaderString line = .ok field) :
    ∃ name blank tail, line = name ++ (blank ++ 58 :: tail) ∧ (∀ c ∈ name, isToken c = true) ∧
      ∀ c ∈ blank, isSpace c = true := by
  unfold ParseHeaderString at h
  split at h
  · next groups hmatch =>
    have hform := Regex.matches_of_fullMatch hmatch
    simp only [headerRegex, Regex.seqs, Regex.matches_seq, Regex.matches_group,
      Regex.matches_plus, Regex.matches_star, Regex.matches_one] at hform
    obtain ⟨name, _, _, rfl, ⟨_, ⟨-, hname, -⟩, -⟩, blank, _, _, rfl, ⟨hblank, -⟩, _, tail, _, rfl,
      ⟨c, hc, rfl, -⟩, -⟩ := hform
    obtain rfl : c = 58 := by simpa using hc
    exact ⟨name, blank, tail, rfl, hname, hblank⟩
  · cases h

/-- **A start line is no header**: the slash behind `HTTP` is in neither of the classes that
may stand before the colon. -/
lemma ends_of_startLine {groups : Regex.Captures Byte}
    (h : startLineRegex.fullMatch line = some groups) : Ends line := by
  have hform := Regex.matches_of_fullMatch h
  simp only [startLineRegex, Regex.seqs, Regex.matches_seq, Regex.matches_lit] at hform
  obtain ⟨_, rest, _, rfl, ⟨rfl, -⟩, -⟩ := hform
  right
  cases hparse : ParseHeaderString (bytes "HTTP/" ++ rest) with
  | error e => exact ⟨e, rfl⟩
  | ok field =>
    exfalso
    obtain ⟨name, blank, tail, heq, hname, hblank⟩ := parseHeaderString_form hparse
    have hstart : (bytes "HTTP/" ++ rest).dropWhile isToken = 47 :: rest := by
      show ([72, 84, 84, 80] ++ 47 :: rest : Bytes).dropWhile isToken = 47 :: rest
      rw [List.dropWhile_append_of_pos (by decide +kernel)]
      rfl
    rw [heq, List.dropWhile_append_of_pos hname] at hstart
    cases blank with
    | nil =>
      have hcolon : isToken 58 = false := by decide
      rw [List.nil_append, List.dropWhile_cons_of_neg (by simp [hcolon])] at hstart
      exact absurd (List.cons.inj hstart).1 (by decide)
    | cons c blank =>
      have hc : isSpace c = true := hblank c List.mem_cons_self
      have hnot : isToken c = false := isToken_of_isSpace c hc
      rw [List.cons_append, List.dropWhile_cons_of_neg (by simp [hnot])] at hstart
      rw [(List.cons.inj hstart).1] at hc
      exact absurd hc (by decide)

/-! ## The constructor -/

/-- The constructor returns or throws: the first line is no start line, or the header loop is
left after finitely many rounds. -/
def Returns (data : Bytes) : Prop :=
  let (line, ss) := getline { rest := data.takeWhile (· != 0) } []
  startLineRegex.fullMatch line = none ∨ ∃ fuel, headerLoop fuel ss line [] ≠ none

/-- The lines of the text up to the first NUL let the loop leave. -/
def Stops (data : Bytes) : Prop :=
  match Split.pieces LF [] (data.takeWhile (· != 0)) with
  | [] => True
  | start :: lines =>
    startLineRegex.fullMatch start = none ∨ lines = [] ∨ ∃ l ∈ lines, Ends l

/-- The three ways for a text whose first line is followed by others. -/
lemma returns_of_line {front back : Bytes} (htext : data.takeWhile (· != 0) = front ++ LF :: back)
    (hfront : LF ∉ front) :
    (Returns data ↔ startLineRegex.fullMatch front = none ∨
      ∃ fuel, headerLoop fuel { rest := back } front [] ≠ none) ∧
    (Stops data ↔ startLineRegex.fullMatch front = none ∨
      ∃ l ∈ Split.pieces LF [] back, Ends l) := by
  constructor
  · unfold Returns
    rw [htext, getline_line hfront]
  · unfold Stops
    rw [htext, Split.pieces_cons_of_not_mem hfront]
    simp only [Split.pieces_ne_nil, false_or]

lemma returns_of_last (hlast : LF ∉ data.takeWhile (· != 0)) : Returns data ∧ Stops data := by
  constructor
  · unfold Returns
    rw [getline_last hlast]
    simp only
    cases hmatch : startLineRegex.fullMatch (data.takeWhile (· != 0)) with
    | none => exact Or.inl rfl
    | some groups =>
      -- the start line is parsed once more, as a header
      exact Or.inr ⟨1, headerLoop_ends (getline_eof _ _) (ends_of_startLine hmatch)⟩
  · unfold Stops
    rw [Split.pieces_of_not_mem hlast]
    exact Or.inr (Or.inl rfl)

/-- **When the constructor returns**, for any bytes. -/
lemma returns_iff_stops (data : Bytes) : Returns data ↔ Stops data := by
  by_cases hmem : LF ∈ data.takeWhile (· != 0)
  · obtain ⟨front, back, htext, hfront⟩ := List.eq_append_cons_of_mem hmem
    obtain ⟨hreturns, hstops⟩ := returns_of_line htext hfront
    rw [hreturns, hstops]
    refine or_congr_right ⟨?_, fun hends => ?_⟩
    · rintro ⟨fuel, hloop⟩
      exact (headerLoop_lines rfl).1 hloop
    · exact ⟨_, (headerLoop_lines rfl).2 hends le_rfl⟩
  · exact iff_of_true (returns_of_last hmem).1 (returns_of_last hmem).2

/-- `none` is the constructor that does not return: `Response.parse` runs its loop long
enough. -/
lemma returns_iff_parse (data : Bytes) : Returns data ↔ parse data ≠ none := by
  have hparse : parse data = none ↔
      startLineRegex.fullMatch (getline { rest := data.takeWhile (· != 0) } []).1 ≠ none ∧
        headerLoop (data.length + 2) (getline { rest := data.takeWhile (· != 0) } []).2
          (getline { rest := data.takeWhile (· != 0) } []).1 [] = none := by
    unfold parse
    simp only
    split
    · next hstart => simp [hstart]
    · next groups hstart =>
      split <;> simp_all
  have hlength : (data.takeWhile (· != 0)).length ≤ data.length :=
    (List.takeWhile_prefix _).length_le
  rw [ne_eq, hparse, not_and_or, not_not]
  by_cases hmem : LF ∈ data.takeWhile (· != 0)
  · obtain ⟨front, back, htext, hfront⟩ := List.eq_append_cons_of_mem hmem
    rw [(returns_of_line htext hfront).1, htext, getline_line hfront]
    refine or_congr_right ⟨?_, fun hloop => ⟨_, hloop⟩⟩
    rintro ⟨fuel, hloop⟩
    have hends := (headerLoop_lines rfl).1 hloop
    refine (headerLoop_lines rfl).2 hends ?_
    have hle := Split.length_pieces_le (x := LF) back
    rw [htext, List.length_append, List.length_cons] at hlength
    omega
  · refine iff_of_true (returns_of_last hmem).1 ?_
    rw [getline_last hmem]
    cases hmatch : startLineRegex.fullMatch (data.takeWhile (· != 0)) with
    | none => exact Or.inl rfl
    | some groups =>
      exact Or.inr (headerLoop_ends (getline_eof _ _) (ends_of_startLine hmatch))

/-! ## The sequences that are collected -/

/-- What a reader has collected when it comes back to the byte loop. -/
inductive Collecting : Bytes → Byte → Prop
  | start : Collecting [] 0
  | again {data data' : Bytes} {last last' : Byte} {items rest : Inbound}
      (h : Collecting data last) (hread : readHead data last items = .again data' last' rest) :
      Collecting data' last'
  | ended {data data' : Bytes} {last last' : Byte} {items rest : Inbound}
      (h : Collecting data last) (hread : readHead data last items = .ended data' last' rest) :
      Collecting data' last'

/-- A head that `ReadToResponse`, or a worker over any number of calls, has collected. -/
def Collected (data : Bytes) : Prop :=
  ∃ data₀ last items rest, Collecting data₀ last ∧
    readHead data₀ last items = .complete data rest

/-- A CR has followed a LF, or `last_char` remembers the LF. -/
def Marked (data : Bytes) (last : Byte) : Prop :=
  [LF, CR] <:+: data ∨ (last = LF → ∃ front, data = front ++ [LF])

lemma Marked.push {data : Bytes} {last : Byte} (h : Marked data last) (c : Byte) :
    Marked (data ++ [c]) c := by
  rcases h with hcut | -
  · exact Or.inl (hcut.trans (List.prefix_append data [c]).isInfix)
  · right
    rintro rfl
    exact ⟨data, rfl⟩

lemma Marked.cut {data : Bytes} (h : Marked data LF) : [LF, CR] <:+: data ++ [CR] := by
  rcases h with hcut | hlf
  · exact hcut.trans (List.prefix_append data [CR]).isInfix
  · obtain ⟨front, rfl⟩ := hlf rfl
    exact ⟨front, [], by simp⟩

/-- The byte loop keeps the mark, and completes a head behind a CR that follows a LF. -/
lemma Marked.readHead {data : Bytes} {last : Byte} (h : Marked data last) (items : Inbound) :
    (∀ d rest, Cld.readHead data last items = .complete d rest → [LF, CR] <:+: d) ∧
      (∀ d l rest, Cld.readHead data last items = .again d l rest → Marked d l) ∧
      ∀ d l rest, Cld.readHead data last items = .ended d l rest → Marked d l := by
  induction items generalizing data last with
  | nil =>
    refine ⟨by simp [Cld.readHead], ?_, by simp [Cld.readHead]⟩
    rintro d l rest hread
    obtain ⟨rfl, rfl, -⟩ := HeadRead.again.inj hread
    exact h
  | cons item items ih =>
    cases item with
    | again =>
      refine ⟨by simp [Cld.readHead], ?_, by simp [Cld.readHead]⟩
      rintro d l rest hread
      obtain ⟨rfl, rfl, -⟩ := HeadRead.again.inj hread
      exact h
    | eof =>
      refine ⟨by simp [Cld.readHead], by simp [Cld.readHead], ?_⟩
      rintro d l rest hread
      obtain ⟨rfl, rfl, -⟩ := HeadRead.ended.inj hread
      exact h
    | fail e => simp [Cld.readHead]
    | byte c brk =>
      by_cases hif : last = LF ∧ c = CR
      · obtain ⟨rfl, rfl⟩ := hif
        -- whatever the nested read does, the CR has been pushed
        have hcut := h.cut
        rw [Cld.readHead, if_pos ⟨rfl, rfl⟩]
        rcases Inbound.read 1 items with ⟨result, rest⟩
        cases result with
        | ok bs =>
          by_cases hbs : bs = [LF]
          · simp only [hbs, if_true, HeadRead.complete.injEq, reduceCtorEq, false_implies,
              implies_true, and_true]
            rintro d _ ⟨rfl, -⟩
            exact hcut.trans (List.prefix_append _ _).isInfix
          · simp [hbs]
        | again =>
          simp only [reduceCtorEq, false_implies, implies_true, true_and, and_true,
            HeadRead.again.injEq]
          rintro d l _ ⟨rfl, rfl, -⟩
          exact Or.inl hcut
        | threw e => simp
      · rw [Cld.readHead, if_neg hif]
        exact ih (h.push c)

/-- **In every head that is collected a CR follows a LF.** -/
lemma Collected.infix {data : Bytes} (h : Collected data) : [LF, CR] <:+: data := by
  have hmarked : ∀ {data last}, Collecting data last → Marked data last := by
    intro data last hcollecting
    induction hcollecting with
    | start => exact Or.inr fun h => absurd h (by decide)
    | again _ hread ih => exact (ih.readHead _).2.1 _ _ _ hread
    | ended _ hread ih => exact (ih.readHead _).2.2 _ _ _ hread
  obtain ⟨data₀, last, items, rest, hcollecting, hread⟩ := h
  exact ((hmarked hcollecting).readHead items).1 data rest hread

lemma collected_of_readToResponse {data : Bytes} {items rest : Inbound}
    (h : ReadToResponse items = .response data rest) : Collected data := by
  unfold ReadToResponse at h
  split at h
  · next hread =>
    obtain ⟨rfl, rfl⟩ := HeadOutcome.response.inj h
    exact ⟨[], 0, _, _, .start, hread⟩
  all_goals cases h

/-- **Response parsing terminates**, on a sequence in which a CR follows a LF (as in every head
that is collected: `Collected.infix`), if and only if it holds no NUL, or the text before the
first NUL lets the loop leave. -/
theorem parse_returns_iff {data : Bytes} (hdata : [LF, CR] <:+: data) :
    Returns data ↔ 0 ∉ data ∨ Stops data := by
  rw [returns_iff_stops]
  refine ⟨Or.inr, ?_⟩
  rintro (hnul | hstops)
  · obtain ⟨front, back, rfl⟩ := hdata
    have htext : (front ++ [LF, CR] ++ back).takeWhile (· != 0) = front ++ LF :: CR :: back := by
      rw [List.takeWhile_eq_self_iff.2 ?_]
      · simp
      · intro c hc
        simp only [bne_iff_ne, ne_eq]
        rintro rfl
        exact hnul hc
    obtain ⟨start, lines, hstart⟩ := List.exists_cons_of_ne_nil (Split.pieces_ne_nil front)
    obtain ⟨first, rest, hfirst⟩ := Split.exists_pieces_cons (x := LF) (a := CR) (by decide) back
    unfold Stops
    rw [htext, Split.pieces_append_cons, hstart, hfirst]
    exact Or.inr (Or.inr ⟨CR :: first, by simp, Or.inl rfl⟩)
  · exact hstops

/-- A head without a header. -/
theorem parse_returns_plain : Returns (bytes "HTTP/1.1 200 OK\r\n\r\n") :=
  (parse_returns_iff ⟨bytes "HTTP/1.1 200 OK\r", [LF], by decide⟩).2 (Or.inl (by decide))

/-- **A NUL in a header value keeps the constructor from returning**: the text ends with the
line `A: b`, which is parsed for ever. -/
theorem parse_never_returns : ∃ data,
    ReadToResponse ((bytes "HTTP/1.1 200 OK\r\nA: b\x00\r\n\r\n").map fun b => .byte b false) =
      .response data [] ∧ ¬ Returns data := by
  refine ⟨bytes "HTTP/1.1 200 OK\r\nA: b\x00\r\n\r\n", by decide +kernel, ?_⟩
  rw [returns_iff_parse, ne_eq, not_not]
  decide +kernel

end Response

end Cld
