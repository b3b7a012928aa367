import Mathlib.Logic.Function.Basic
import Mathlib.Data.List.Basic

/-!
# Backtracking regular expressions with captures

The regular expressions of a Perl-like engine, restricted to repetitions of one character
class: a class, its greedy repetitions, a greedy option, concatenation and a capture group.
Without nested repetition the search is structurally recursive in the expression, so that
matching a concrete string is a computation.

* `Regex.exec r s caps k` tries the ways in which `r` matches a prefix of `s`, in the order
  of the engine (longest repetition first, an option taken before it is skipped), and hands
  the rest of the input and the captures to the continuation `k` until it succeeds.
* `Regex.fullMatch r s` is the match of the *whole* input: the captures of the first way, in
  that order, which leaves nothing unread.  A group that took no part in it is empty.

The search is sound for the declarative reading `Regex.Matches` of the expressions
(`exec_sound`), which forgets the order of the attempts.  Two kinds of question about a match
need no more than that: which characters a group can hold (`not_mem_of_fullMatch`, through the
computable `groupAvoids`), and how the input is cut where the cut is unambiguous.  Where it is
ambiguous, `execStar_of_run` says what the greedy order chooses.
-/

namespace Framework

universe u v

/-- Regular expressions over an alphabet `α`. -/
inductive Regex (α : Type u)
  /-- Matches the empty string. -/
  | empty
  /-- Matches one character of the class. -/
  | one (p : α → Bool)
  /-- `[p]*`, greedy. -/
  | star (p : α → Bool)
  /-- `r?`, greedy. -/
  | opt (r : Regex α)
  /-- `r` followed by `s`. -/
  | seq (r s : Regex α)
  /-- `(r)`, capture group number `n`. -/
  | group (n : ℕ) (r : Regex α)

namespace Regex

variable {α : Type u} {β : Type v}

/-- What each capture group matched. -/
abbrev Captures (α : Type u) := ℕ → List α

/-- Greedy repetition of a class: give the continuation the longest run first, then shorter
and shorter ones. -/
def execStar (p : α → Bool) (k : List α → Option β) : List α → Option β
  | [] => k []
  | a :: as => if p a then (execStar p k as).orElse fun _ => k (a :: as) else k (a :: as)

/-- The backtracking search. -/
def exec : Regex α → List α → Captures α → (List α → Captures α → Option β) → Option β
  | .empty, s, caps, k => k s caps
  | .one p, s, caps, k =>
    match s with
    | [] => none
    | a :: as => if p a then k as caps else none
  | .star p, s, caps, k => execStar p (fun rest => k rest caps) s
  | .opt r, s, caps, k => (exec r s caps k).orElse fun _ => k s caps
  | .seq r t, s, caps, k => exec r s caps fun rest caps' => exec t rest caps' k
  | .group n r, s, caps, k =>
    exec r s caps fun rest caps' =>
      k rest (Function.update caps' n (s.take (s.length - rest.length)))

/-- Match the whole input. -/
def fullMatch (r : Regex α) (s : List α) : Option (Captures α) :=
  exec r s (fun _ => []) fun rest caps => if rest.isEmpty then some caps else none

/-- `[p]+`, greedy. -/
def plus (p : α → Bool) : Regex α := .seq (.one p) (.star p)

/-- A literal string. -/
def lit [DecidableEq α] : List α → Regex α
  | [] => .empty
  | a :: as => .seq (.one fun b => b = a) (lit as)

/-- Concatenation of several expressions. -/
def seqs : List (Regex α) → Regex α
  | [] => .empty
  | r :: rs => .seq r (seqs rs)

/-! ## The declarative reading -/

/-- `r` matches the whole of `s`, and turns the captures `caps` into `caps'`. -/
inductive Matches : Regex α → List α → Captures α → Captures α → Prop
  | empty (caps : Captures α) : Matches .empty [] caps caps
  | one {p : α → Bool} {a : α} (ha : p a = true) (caps : Captures α) :
      Matches (.one p) [a] caps caps
  | star {p : α → Bool} {s : List α} (hs : ∀ a ∈ s, p a = true) (caps : Captures α) :
      Matches (.star p) s caps caps
  | skip (r : Regex α) (caps : Captures α) : Matches (.opt r) [] caps caps
  | take {r : Regex α} {s : List α} {caps caps' : Captures α} (h : Matches r s caps caps') :
      Matches (.opt r) s caps caps'
  | seq {r t : Regex α} {s s' : List α} {caps caps' caps'' : Captures α}
      (h : Matches r s caps caps') (h' : Matches t s' caps' caps'') :
      Matches (.seq r t) (s ++ s') caps caps''
  | group (n : ℕ) {r : Regex α} {s : List α} {caps caps' : Captures α}
      (h : Matches r s caps caps') : Matches (.group n r) s caps (Function.update caps' n s)

lemma execStar_sound {p : α → Bool} {k : List α → Option β} {s : List α} {b : β}
    (h : execStar p k s = some b) :
    ∃ run rest, s = run ++ rest ∧ (∀ a ∈ run, p a = true) ∧ k rest = some b := by
  induction s with
  | nil => exact ⟨[], [], rfl, by simp, h⟩
  | cons a as ih =>
    rw [execStar] at h
    split_ifs at h with ha
    · rw [Option.orElse_eq_or, Option.or_eq_some_iff] at h
      rcases h with hlong | ⟨-, hstop⟩
      · obtain ⟨run, rest, rfl, hrun, hk⟩ := ih hlong
        refine ⟨a :: run, rest, rfl, ?_, hk⟩
        intro b hb
        rcases List.mem_cons.1 hb with rfl | hb
        · exact ha
        · exact hrun b hb
      · exact ⟨[], a :: as, rfl, by simp, hstop⟩
    · exact ⟨[], a :: as, rfl, by simp, h⟩

/-- **Soundness of the search.**  What the continuation accepts in the end is what some match
of a front part of the input leaves. -/
lemma exec_sound {r : Regex α} {s : List α} {caps : Captures α}
    {k : List α → Captures α → Option β} {b : β} (h : exec r s caps k = some b) :
    ∃ front rest caps', s = front ++ rest ∧ Matches r front caps caps' ∧
      k rest caps' = some b := by
  induction r generalizing s caps k with
  | empty => exact ⟨[], s, caps, rfl, .empty caps, h⟩
  | one p =>
    cases s with
    | nil => cases h
    | cons a as =>
      rw [exec] at h
      split_ifs at h with ha
      exact ⟨[a], as, caps, rfl, .one ha caps, h⟩
  | star p =>
    obtain ⟨run, rest, hs, hrun, hk⟩ := execStar_sound h
    exact ⟨run, rest, caps, hs, .star hrun caps, hk⟩
  | opt r ih =>
    rw [exec, Option.orElse_eq_or, Option.or_eq_some_iff] at h
    rcases h with htake | ⟨-, hskip⟩
    · obtain ⟨front, rest, caps', hs, hmatch, hk⟩ := ih htake
      exact ⟨front, rest, caps', hs, .take hmatch, hk⟩
    · exact ⟨[], s, caps, rfl, .skip r caps, hskip⟩
  | seq r t ihr iht =>
    obtain ⟨front, rest, caps', rfl, hmatch, hk⟩ := ihr h
    obtain ⟨front', rest', caps'', rfl, hmatch', hk'⟩ := iht hk
    exact ⟨front ++ front', rest', caps'', by simp, .seq hmatch hmatch', hk'⟩
  | group n r ih =>
    obtain ⟨front, rest, caps', rfl, hmatch, hk⟩ := ih h
    have hfront : (front ++ rest).take ((front ++ rest).length - rest.length) = front := by
      simp
    rw [hfront] at hk
    exact ⟨front, rest, _, rfl, .group n hmatch, hk⟩

/-- **Soundness of matching.** -/
lemma matches_of_fullMatch {r : Regex α} {s : List α} {caps : Captures α}
    (h : fullMatch r s = some caps) : Matches r s (fun _ => []) caps := by
  obtain ⟨front, rest, caps', rfl, hmatch, hk⟩ := exec_sound h
  split_ifs at hk with hrest
  obtain rfl := Option.some.inj hk
  rw [List.isEmpty_iff] at hrest
  rwa [hrest, List.append_nil]

section Inversion

variable {r t : Regex α} {p : α → Bool} {s : List α} {caps caps' : Captures α}

lemma matches_empty : Matches .empty s caps caps' ↔ s = [] ∧ caps' = caps := by
  constructor
  · rintro ⟨⟩
    exact ⟨rfl, rfl⟩
  · rintro ⟨rfl, rfl⟩
    exact .empty _

lemma matches_one :
    Matches (.one p) s caps caps' ↔ ∃ a, p a = true ∧ s = [a] ∧ caps' = caps := by
  constructor
  · rintro (_ | ha)
    exact ⟨_, ha, rfl, rfl⟩
  · rintro ⟨a, ha, rfl, rfl⟩
    exact .one ha _

lemma matches_star :
    Matches (.star p) s caps caps' ↔ (∀ a ∈ s, p a = true) ∧ caps' = caps := by
  constructor
  · rintro (_ | _ | hs)
    exact ⟨hs, rfl⟩
  · rintro ⟨hs, rfl⟩
    exact .star hs _

lemma matches_seq : Matches (.seq r t) s caps caps' ↔
    ∃ front back caps₁, s = front ++ back ∧ Matches r front caps caps₁ ∧
      Matches t back caps₁ caps' := by
  constructor
  · intro h
    cases h with
    | seq h h' => exact ⟨_, _, _, rfl, h, h'⟩
  · rintro ⟨front, back, caps₁, rfl, h, h'⟩
    exact .seq h h'

lemma matches_group {n : ℕ} : Matches (.group n r) s caps caps' ↔
    ∃ caps₁, Matches r s caps caps₁ ∧ caps' = Function.update caps₁ n s := by
  constructor
  · intro h
    cases h with
    | group _ h => exact ⟨_, h, rfl⟩
  · rintro ⟨caps₁, h, rfl⟩
    exact .group n h

lemma matches_opt :
    Matches (.opt r) s caps caps' ↔ s = [] ∧ caps' = caps ∨ Matches r s caps caps' := by
  constructor
  · intro h
    cases h with
    | skip => exact Or.inl ⟨rfl, rfl⟩
    | take h => exact Or.inr h
  · rintro (⟨rfl, rfl⟩ | h)
    · exact .skip r _
    · exact .take h

lemma matches_plus : Matches (plus p) s caps caps' ↔
    s ≠ [] ∧ (∀ a ∈ s, p a = true) ∧ caps' = caps := by
  rw [plus, matches_seq]
  constructor
  · rintro ⟨front, back, caps₁, rfl, hone, hstar⟩
    obtain ⟨a, ha, rfl, rfl⟩ := matches_one.1 hone
    obtain ⟨hback, rfl⟩ := matches_star.1 hstar
    exact ⟨by simp, List.forall_mem_cons.2 ⟨ha, hback⟩, rfl⟩
  · rintro ⟨hne, hs, rfl⟩
    obtain ⟨a, back, rfl⟩ := List.exists_cons_of_ne_nil hne
    obtain ⟨ha, hback⟩ := List.forall_mem_cons.1 hs
    exact ⟨[a], back, caps', rfl, matches_one.2 ⟨a, ha, rfl, rfl⟩,
      matches_star.2 ⟨hback, rfl⟩⟩

/-- Single classes match one character each. -/
lemma matches_ones {ps : List (α → Bool)} : Matches (seqs (ps.map one)) s caps caps' ↔
    List.Forall₂ (fun p a => p a = true) ps s ∧ caps' = caps := by
  induction ps generalizing s caps with
  | nil =>
    rw [List.map_nil, seqs, matches_empty]
    constructor
    · rintro ⟨rfl, rfl⟩
      exact ⟨.nil, rfl⟩
    · rintro ⟨⟨⟩, rfl⟩
      exact ⟨rfl, rfl⟩
  | cons p ps ih =>
    rw [List.map_cons, seqs, matches_seq]
    constructor
    · rintro ⟨front, back, caps₁, rfl, hone, hrest⟩
      obtain ⟨a, ha, rfl, rfl⟩ := matches_one.1 hone
      obtain ⟨hback, rfl⟩ := ih.1 hrest
      exact ⟨.cons ha hback, rfl⟩
    · rintro ⟨_ | ⟨ha, hback⟩, rfl⟩
      exact ⟨[_], _, caps', rfl, matches_one.2 ⟨_, ha, rfl, rfl⟩, ih.2 ⟨hback, rfl⟩⟩

lemma matches_lit [DecidableEq α] {word : List α} :
    Matches (lit word) s caps caps' ↔ s = word ∧ caps' = caps := by
  induction word generalizing s caps with
  | nil => exact matches_empty
  | cons a word ih =>
    rw [lit, matches_seq]
    constructor
    · rintro ⟨front, back, caps₁, rfl, hone, hrest⟩
      obtain ⟨b, hb, rfl, rfl⟩ := matches_one.1 hone
      obtain ⟨rfl, rfl⟩ := ih.1 hrest
      exact ⟨by rw [of_decide_eq_true hb, List.singleton_append], rfl⟩
    · rintro ⟨rfl, rfl⟩
      exact ⟨[a], word, caps', rfl, matches_one.2 ⟨a, decide_eq_true rfl, rfl, rfl⟩,
        ih.2 ⟨rfl, rfl⟩⟩

end Inversion

/-! ## What a match cannot contain -/

/-- No class of the expression has the character `a`. -/
def avoids (a : α) : Regex α → Bool
  | .empty => true
  | .one p => !p a
  | .star p => !p a
  | .opt r => r.avoids a
  | .seq r t => r.avoids a && t.avoids a
  | .group _ r => r.avoids a

/-- No class inside a group number `n` has the character `a`. -/
def groupAvoids (n : ℕ) (a : α) : Regex α → Bool
  | .empty => true
  | .one _ => true
  | .star _ => true
  | .opt r => r.groupAvoids n a
  | .seq r t => r.groupAvoids n a && t.groupAvoids n a
  | .group m r => r.groupAvoids n a && (m != n || r.avoids a)

lemma Matches.not_mem {r : Regex α} {s : List α} {caps caps' : Captures α} {a : α}
    (h : Matches r s caps caps') (ha : r.avoids a = true) : a ∉ s := by
  induction h with
  | empty => exact List.not_mem_nil
  | one hb =>
    rintro hmem
    obtain rfl := List.mem_singleton.1 hmem
    simp [avoids, hb] at ha
  | star hs =>
    intro hmem
    simp [avoids, hs a hmem] at ha
  | skip => exact List.not_mem_nil
  | take _ ih => exact ih ha
  | seq _ _ ih ih' =>
    obtain ⟨hr, ht⟩ := Bool.and_eq_true_iff.1 ha
    exact fun hmem => (List.mem_append.1 hmem).elim (ih hr) (ih' ht)
  | group _ _ ih => exact ih ha

lemma Matches.group_not_mem {r : Regex α} {s : List α} {caps caps' : Captures α} {n : ℕ}
    {a : α} (h : Matches r s caps caps') (ha : r.groupAvoids n a = true)
    (hcaps : a ∉ caps n) : a ∉ caps' n := by
  induction h with
  | empty => exact hcaps
  | one => exact hcaps
  | star => exact hcaps
  | skip => exact hcaps
  | take _ ih => exact ih ha hcaps
  | seq _ _ ih ih' =>
    obtain ⟨hr, ht⟩ := Bool.and_eq_true_iff.1 ha
    exact ih' ht (ih hr hcaps)
  | group m hmatch ih =>
    obtain ⟨hr, hm⟩ := Bool.and_eq_true_iff.1 ha
    by_cases hmn : m = n
    · subst hmn
      rw [Function.update_self]
      exact hmatch.not_mem (by simpa using hm)
    · rw [Function.update_of_ne (Ne.symm hmn)]
      exact ih hr hcaps

/-- **A group holds characters of its own classes only.** -/
lemma not_mem_of_fullMatch {r : Regex α} {s : List α} {caps : Captures α} {n : ℕ} {a : α}
    (h : fullMatch r s = some caps) (ha : r.groupAvoids n a = true) : a ∉ caps n :=
  (matches_of_fullMatch h).group_not_mem ha List.not_mem_nil

/-! ## Completeness -/

lemma execStar_isSome {p : α → Bool} {k : List α → Option β} {run rest : List α}
    (hrun : ∀ a ∈ run, p a = true) (hk : (k rest).isSome) :
    (execStar p k (run ++ rest)).isSome := by
  induction run with
  | nil =>
    cases rest with
    | nil => exact hk
    | cons a as =>
      rw [List.nil_append, execStar]
      split_ifs
      · rw [Option.orElse_eq_or, Option.isSome_or, hk, Bool.or_true]
      · exact hk
  | cons a as ih =>
    have hmore := ih fun b hb => hrun b (List.mem_cons_of_mem a hb)
    rw [List.cons_append, execStar, if_pos (hrun a List.mem_cons_self), Option.orElse_eq_or,
      Option.isSome_or, hmore, Bool.true_or]

/-- **Completeness of the search.**  If some match of a front part leaves what the continuation
accepts, the search succeeds, perhaps in another way. -/
lemma exec_isSome {r : Regex α} {front rest : List α} {caps caps' : Captures α}
    {k : List α → Captures α → Option β} (h : Matches r front caps caps')
    (hk : (k rest caps').isSome) : (exec r (front ++ rest) caps k).isSome := by
  induction h generalizing rest k with
  | empty => exact hk
  | one ha =>
    rw [List.singleton_append, exec, if_pos ha]
    exact hk
  | star hs => exact execStar_isSome (k := fun rest => k rest _) hs hk
  | skip r caps =>
    rw [exec, Option.orElse_eq_or, Option.isSome_or, List.nil_append, hk, Bool.or_true]
  | take _ ih =>
    rw [exec, Option.orElse_eq_or, Option.isSome_or, ih hk, Bool.true_or]
  | seq _ _ ih ih' =>
    rw [List.append_assoc, exec]
    exact ih (ih' hk)
  | @group n r s caps caps' _ ih =>
    have htake : (s ++ rest).take ((s ++ rest).length - rest.length) = s := by
      simp
    rw [exec]
    apply ih
    rw [htake]
    exact hk

/-- **Matching succeeds exactly on the strings of the expression.** -/
lemma fullMatch_isSome_iff {r : Regex α} {s : List α} :
    (fullMatch r s).isSome ↔ ∃ caps, Matches r s (fun _ => []) caps := by
  constructor
  · intro h
    obtain ⟨caps, hcaps⟩ := Option.isSome_iff_exists.1 h
    exact ⟨caps, matches_of_fullMatch hcaps⟩
  · rintro ⟨caps, h⟩
    have hall : (exec r (s ++ []) (fun _ => []) fun rest caps =>
        if rest.isEmpty then some caps else none).isSome := exec_isSome h rfl
    rwa [List.append_nil] at hall

/-! ## The greedy order -/

section Greed

variable {p : α → Bool} {caps : Captures α} {k : List α → Captures α → Option β}
  {run rest : List α} {b : β}

/-- **Greed.**  If the longest run of a class can be followed by a match, it is what the
repetition takes. -/
lemma execStar_of_run {k : List α → Option β}
    (hrun : ∀ a ∈ run, p a = true) (hrest : ∀ a ∈ rest.head?, p a = false)
    (hk : k rest = some b) : execStar p k (run ++ rest) = some b := by
  induction run with
  | nil =>
    cases rest with
    | nil => exact hk
    | cons a as =>
      have ha : p a = false := hrest a rfl
      simp [execStar, ha, hk]
  | cons a as ih =>
    have ha : p a = true := hrun a List.mem_cons_self
    have hmore := ih fun b hb => hrun b (List.mem_cons_of_mem a hb)
    simp [execStar, ha, hmore]

lemma exec_star (hrun : ∀ a ∈ run, p a = true) (hrest : ∀ a ∈ rest.head?, p a = false)
    (hk : k rest caps = some b) : exec (.star p) (run ++ rest) caps k = some b :=
  execStar_of_run hrun hrest hk

lemma exec_plus (hne : run ≠ []) (hrun : ∀ a ∈ run, p a = true)
    (hrest : ∀ a ∈ rest.head?, p a = false) (hk : k rest caps = some b) :
    exec (plus p) (run ++ rest) caps k = some b := by
  obtain ⟨a, as, rfl⟩ := List.exists_cons_of_ne_nil hne
  obtain ⟨ha, has⟩ := List.forall_mem_cons.1 hrun
  rw [plus, exec, List.cons_append, exec, if_pos ha]
  exact exec_star has hrest hk

/-- A class that cannot begin takes nothing. -/
lemma exec_star_nil (hrest : ∀ a ∈ rest.head?, p a = false) :
    exec (.star p) rest caps k = k rest caps := by
  cases rest with
  | nil => rfl
  | cons a as =>
    have ha : p a = false := hrest a rfl
    simp [exec, execStar, ha]

/-- A character outside the class is not taken. -/
lemma exec_one_none (hrest : ∀ a ∈ rest.head?, p a = false) :
    exec (.one p) rest caps k = none := by
  cases rest with
  | nil => rfl
  | cons a as =>
    have ha : p a = false := hrest a rfl
    simp [exec, ha]

/-- An option is taken if that leads to a match. -/
lemma exec_opt_take {r : Regex α} (h : exec r rest caps k = some b) :
    exec (.opt r) rest caps k = some b := by
  rw [exec, h]
  rfl

/-- An option that cannot be taken is skipped. -/
lemma exec_opt_skip {r : Regex α} (h : exec r rest caps k = none) :
    exec (.opt r) rest caps k = k rest caps := by
  rw [exec, h]
  rfl

/-- A group keeps what its expression takes. -/
lemma exec_group {n : ℕ} {r : Regex α}
    (h : exec r (run ++ rest) caps (fun rest' caps' => k rest' (Function.update caps' n
      ((run ++ rest).take ((run ++ rest).length - rest'.length)))) = some b) :
    exec (.group n r) (run ++ rest) caps k = some b := h

lemma exec_group_star {n : ℕ} (hrun : ∀ a ∈ run, p a = true)
    (hrest : ∀ a ∈ rest.head?, p a = false) (hk : k rest (Function.update caps n run) = some b) :
    exec (.group n (.star p)) (run ++ rest) caps k = some b := by
  apply exec_group
  apply exec_star hrun hrest
  simpa using hk

lemma exec_group_plus {n : ℕ} (hne : run ≠ []) (hrun : ∀ a ∈ run, p a = true)
    (hrest : ∀ a ∈ rest.head?, p a = false) (hk : k rest (Function.update caps n run) = some b) :
    exec (.group n (plus p)) (run ++ rest) caps k = some b := by
  apply exec_group
  apply exec_plus hne hrun hrest
  simpa using hk

lemma exec_seqs_nil : exec (seqs []) rest caps k = k rest caps := rfl

lemma exec_seqs_cons (r : Regex α) (rs : List (Regex α)) : exec (seqs (r :: rs)) rest caps k =
    exec r rest caps fun rest' caps' => exec (seqs rs) rest' caps' k := rfl

/-- Single classes take one character each. -/
lemma exec_ones {ps : List (α → Bool)} (h : List.Forall₂ (fun p a => p a = true) ps run) :
    exec (seqs (ps.map one)) (run ++ rest) caps k = k rest caps := by
  induction h with
  | nil => rfl
  | cons ha _ ih =>
    rw [List.map_cons, exec_seqs_cons, List.cons_append, exec, if_pos ha]
    exact ih

lemma exec_group_ones {n : ℕ} (ps : List (α → Bool))
    (h : List.Forall₂ (fun p a => p a = true) ps run)
    (hk : k rest (Function.update caps n run) = some b) :
    exec (.group n (seqs (ps.map one))) (run ++ rest) caps k = some b := by
  apply exec_group
  rw [exec_ones h]
  simpa using hk

/-- A literal takes itself. -/
lemma exec_lit [DecidableEq α] (word rest : List α) :
    exec (lit word) (word ++ rest) caps k = k rest caps := by
  induction word with
  | nil => rfl
  | cons a word ih => simp [lit, exec, ih]

end Greed

end Regex

end Framework
