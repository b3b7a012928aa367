import Cld.Body.Refusal
import Cld.Head.Segmentation

/-!
# Chunked framing and suspensions

A well-formed chunked stream, the places at which it may be suspended, and what the decoder
makes of it when it is read again after each of them.

* `SizeText n` and `Chunk` carry what makes a size line and a chunk well-formed, `encode` is the
  stream.
* `unreads` is the set of suspensions: what is still to come at each of them.
* `SameDecoding` compares the log of the decoder with the log on the stream without its
  suspensions.
* `Harmless` looks at one size line: the last suspension inside it leaves a part of the line
  that has the same value for the extraction.
* `Refused` looks at a size line that has a blank, as an extension may.  Without suspensions the
  decoder throws there; with them it has to read no header either.

A suspension between two calls in the data of a chunk, or before a size line, does no harm: what
the buffer keeps is the count.  Inside a size line the part that has been collected is lost,
and with it the first digits, or the whole line, or what makes the decoder throw at a blank.
`framing_survives_iff` says that this is all.
-/

namespace Cld

/-! ## Well-formed streams -/

/-- The size line of `n` bytes: hex digits, and perhaps an extension.  Blanks may stand before the
`;` of the extension, and anywhere in it. -/
structure SizeText (n : ℕ) where
  digits : Bytes
  ext : Bytes
  numeral : Numeral 16 digits n
  ext_start : ext = [] ∨
    ∃ blanks text, ext = blanks ++ 59 :: text ∧ ∀ c ∈ blanks, isBlank c = true
  ext_text : ∀ c ∈ ext, c ≠ CR ∧ c ≠ LF

/-- The size line as it is written. -/
def SizeText.text {n : ℕ} (t : SizeText n) : Bytes := t.digits ++ t.ext

/-- A chunk that is not the last one.  Its size is the size of a piece of a file. -/
structure Chunk where
  data : Bytes
  size : SizeText data.length
  ne : data ≠ []
  fits : data.length < 2 ^ 63

/-- A chunk as it is written. -/
def Chunk.encode (c : Chunk) : Bytes := c.size.text ++ [CR, LF] ++ c.data ++ [CR, LF]

/-- A chunked stream: the chunks, the last size line, and anything behind it. -/
def encode (chunks : List Chunk) (last : SizeText 0) (tail : Bytes) : Bytes :=
  chunks.flatMap Chunk.encode ++ (last.text ++ [CR, LF] ++ tail)

/-- The size lines of a stream, each with what follows its CR LF.  Behind a chunk, the line
begins with the CR LF of the chunk. -/
def sizeLines (lead : Bytes) (last : SizeText 0) (tail : Bytes) : List Chunk → List (Bytes × Bytes)
  | [] => [(lead ++ last.text, tail)]
  | c :: cs =>
    (lead ++ c.size.text, c.data ++ [CR, LF] ++ encode cs last tail) ::
      sizeLines [CR, LF] last tail cs

/-- The line has no blank, at which the decoder would throw. -/
def Unblank (line : Bytes) : Prop := ∀ c ∈ line, isBlank c = false

instance : DecidablePred Unblank := fun line =>
  List.decidableBAll (fun c => isBlank c = false) line

/-- The log that is expected, up to the first size line with a blank. -/
def idealEvents (last : SizeText 0) (tail : Bytes) : List Chunk → List DecodeEvent
  | [] => if Unblank last.text then [.size 0, .finished tail.length] else []
  | c :: cs =>
    if Unblank c.size.text then
      .size c.data.length :: (dataEvents ([CR, LF] ++ encode cs last tail).length c.data ++
        idealEvents last tail cs)
    else []

/-! ## Suspensions -/

/-- What is still to come at each suspension. -/
def unreads : Inbound → List Bytes
  | [] => []
  | .again :: rest => payload rest :: unreads rest
  | _ :: rest => unreads rest

/-- **The suspensions inside a size line do no harm**: if there is one before the LF of the line,
and not only before its first byte, the last of them leaves more than the CR unread, and the
extraction finds the same size in it. -/
def Harmless (items : Inbound) (line behind : Bytes) : Prop :=
  ∀ unread, unread ++ LF :: behind ∈ unreads items → unread.length ≤ line.length →
    (∀ unread', unread' ++ LF :: behind ∈ unreads items → unread.length ≤ unread'.length) →
    ∃ left, left ≠ [] ∧ unread = left ++ [CR] ∧
      extractLongLong 16 (-1) left = extractLongLong 16 (-1) line

/-- **A size line with a blank is refused** with its suspensions, too: from its first byte on, no
stretch between two suspensions opens a header before one breaks. -/
def Refused (items : Inbound) (line behind : Bytes) : Prop :=
  ∀ front rest, items = front ++ rest → payload rest = line ++ CR :: LF :: behind →
    Unopened (stretches rest)

/-- The suspensions do no harm to the size lines, up to the first with a blank. -/
def Survives (items : Inbound) : List (Bytes × Bytes) → Prop
  | [] => True
  | (line, behind) :: lines =>
    if Unblank line then Harmless items line behind ∧ Survives items lines
    else Refused items line behind

/-- **The decoder sees the same** as without the suspensions: the sizes, the bytes it takes as
data, each at its place in the stream, and the point where it is finished. -/
def SameDecoding (S : ℕ) (items : Inbound) : Prop :=
  ∃ calls, ∀ more, calls ≤ more →
    Buffer.decode S more { kind := .chunked (-1) } items =
      Buffer.decode S more { kind := .chunked (-1) } items.steady

/-! ## Cutting a stream -/

variable {items front back rest : Inbound} {S : ℕ}

lemma steadfast_append : Steadfast (front ++ back) ↔ Steadfast front ∧ Steadfast back :=
  List.forall_mem_append

lemma Steadfast.payload_append (h : Steadfast front) (items : Inbound) :
    payload (front ++ items) = payload front ++ payload items := by
  induction front with
  | nil => rfl
  | cons item front ih =>
    rcases h item List.mem_cons_self with rfl | ⟨b, brk, rfl⟩
    · exact ih h.tail
    · exact congrArg (b :: ·) (ih h.tail)

/-- Behind the suspensions before it there is the next byte. -/
lemma Steadfast.split {s t : Bytes} {c : Byte} (h : Steadfast items)
    (hpay : payload items = s ++ c :: t) :
    ∃ front brk back, items = front ++ .byte c brk :: back ∧ payload front = s ∧
      payload back = t := by
  induction items generalizing s with
  | nil => simp at hpay
  | cons item items ih =>
    rcases h item List.mem_cons_self with rfl | ⟨b, brk, rfl⟩
    · obtain ⟨front, brk, back, rfl, hfront, hback⟩ := ih h.tail hpay
      exact ⟨.again :: front, brk, back, rfl, hfront, hback⟩
    · cases s with
      | nil =>
        obtain ⟨rfl, rfl⟩ := List.cons.inj hpay
        exact ⟨[], brk, items, rfl, rfl, rfl⟩
      | cons d s =>
        obtain ⟨rfl, htail⟩ := List.cons.inj hpay
        obtain ⟨front, brk', back, rfl, rfl, rfl⟩ := ih h.tail htail
        exact ⟨.byte b brk :: front, brk', back, rfl, rfl, rfl⟩

/-- There is a last suspension, or there is none. -/
lemma Steadfast.last_again (h : Steadfast items) : AlwaysReady items ∨
    ∃ front back, items = front ++ .again :: back ∧ AlwaysReady back := by
  induction items with
  | nil => exact Or.inl (List.forall_mem_nil _)
  | cons item items ih =>
    rcases ih h.tail with hready | ⟨front, back, rfl, hback⟩
    · rcases h item List.mem_cons_self with rfl | ⟨b, brk, rfl⟩
      · exact Or.inr ⟨[], items, rfl, hready⟩
      · exact Or.inl (hready.cons b brk)
    · exact Or.inr ⟨item :: front, back, rfl, hback⟩

lemma unreads_append (h : Steadfast front) (items : Inbound) :
    unreads (front ++ items) = (unreads front).map (· ++ payload items) ++ unreads items := by
  induction front with
  | nil => rfl
  | cons item front ih =>
    rcases h item List.mem_cons_self with rfl | ⟨b, brk, rfl⟩
    · simp only [List.cons_append, unreads, List.map_cons, ih h.tail, h.tail.payload_append]
    · simp only [List.cons_append, unreads, ih h.tail]

lemma unreads_of_ready (h : AlwaysReady items) : unreads items = [] := by
  induction items with
  | nil => rfl
  | cons item items ih =>
    obtain ⟨⟨b, brk, rfl⟩, hready⟩ := List.forall_mem_cons.1 h
    exact ih hready

lemma suffix_of_mem_unreads {u : Bytes} (hitems : Steadfast items) (hu : u ∈ unreads items) :
    u <:+ payload items := by
  induction items with
  | nil => cases hu
  | cons item items ih =>
    rcases hitems item List.mem_cons_self with rfl | ⟨b, brk, rfl⟩
    · rcases List.mem_cons.1 hu with rfl | hu
      · exact List.suffix_rfl
      · exact ih hitems.tail hu
    · exact (ih hitems.tail hu).trans (List.suffix_cons _ _)

/-! ## One size line -/

section Line

variable {collected line behind left : Bytes} {brk : Bool}

lemma HeadText.suffix (h : HeadText line) (hsuffix : left <:+ line) (hne : left ≠ []) :
    HeadText left where
  ne := hne
  unblank c hc := h.unblank c (hsuffix.mem hc)
  cr hmem := by
    obtain ⟨front, rfl⟩ := hsuffix
    cases front with
    | nil => exact h.cr hmem
    | cons c front =>
      exact h.cr (List.mem_append_right front (List.mem_of_mem_tail hmem))

/-- A line and its CR LF, without a suspension. -/
lemma events_of_ready (hfront : AlwaysReady front) (hrest : Steadfast rest)
    (hpay : payload front = line ++ [CR]) (hline : HeadText line) :
    Decoding.events (.head []) (front ++ .byte LF brk :: rest) =
      .size (extractLongLong 16 (-1) line) ::
        Decoding.behindSize (extractLongLong 16 (-1) line) rest := by
  have hlf : AlwaysReady [.byte LF brk] := AlwaysReady.cons (List.forall_mem_nil _) LF brk
  have hheader : HeaderLine (front ++ .byte LF brk :: rest) line rest := by
    refine ⟨⟨front ++ [.byte LF brk], [], by simp, ?_, ?_, List.forall_mem_nil _⟩, hline.ne,
      hline.unblank, hline.cr⟩
    · exact List.forall_mem_append.2 ⟨hfront, hlf⟩
    · rw [hfront.payload_append, hpay]
      simp
  have hitems : Steadfast (front ++ .byte LF brk :: rest) := by
    apply steadfast_append.2 ⟨hfront.steadfast, ?_⟩
    exact List.forall_mem_cons.2 ⟨Or.inr ⟨LF, brk, rfl⟩, hrest⟩
  obtain ⟨brk', hcollect⟩ := hheader.collectHead
  have hevents := ((events_of_collectHead hitems hcollect).2.1 line rfl).2
  rw [hevents, Decoding.events, if_pos rfl]
  rfl

lemma events_of_agains (hfront : Steadfast front) (hpay : payload front = []) :
    Decoding.events (.head collected) (front ++ .again :: rest) =
        Decoding.events (.head []) rest ∧
      Decoding.events (.headLf collected) (front ++ .again :: rest) =
        Decoding.events (.head []) rest := by
  induction front generalizing collected with
  | nil => exact ⟨rfl, rfl⟩
  | cons item front ih =>
    rcases hfront item List.mem_cons_self with rfl | ⟨b, brk, rfl⟩
    · have hforgets := (@ih [] hfront.tail hpay).1
      exact ⟨hforgets, hforgets⟩
    · cases hpay

/-- **A suspension inside a header forgets** what has been collected of it. -/
lemma events_forget (hfront : Steadfast front)
    (hblank : ∀ c ∈ payload front, isBlank c = false)
    (hcr : ∀ u v, payload front = u ++ CR :: v → v = [] ∨ u = [] ∧ collected = []) :
    Decoding.events (.head collected) (front ++ .again :: rest) =
      Decoding.events (.head []) rest := by
  induction front generalizing collected with
  | nil => rfl
  | cons item front ih =>
    rcases hfront item List.mem_cons_self with rfl | ⟨c, brk, rfl⟩
    · refine ih hfront.tail hblank fun u v huv => ?_
      exact (hcr u v huv).imp_right fun h => ⟨h.1, rfl⟩
    · obtain ⟨hc, hblank'⟩ := List.forall_mem_cons.1 hblank
      rw [List.cons_append, Decoding.events]
      by_cases hif : collected ≠ [] ∧ c = CR
      · obtain ⟨hne, rfl⟩ := hif
        -- the CR ends the header, so that nothing but suspensions can follow
        have hlast : payload front = [] :=
          (hcr [] (payload front) rfl).resolve_right fun h => hne h.2
        rw [if_pos ⟨hne, rfl⟩]
        exact (events_of_agains hfront.tail hlast).2
      · rw [if_neg hif, if_neg (by simp [hc])]
        refine ih hfront.tail hblank' fun u v huv => ?_
        have hlast := hcr (c :: u) v (by rw [payload_byte, huv, List.cons_append])
        exact hlast.imp_right fun h => absurd h.1 (List.cons_ne_nil c u)

/-- The event lies so far behind the start of `n` bytes that a header comes before it. -/
def DecodeEvent.Behind (n : ℕ) : DecodeEvent → Prop
  | .size _ => True
  | .data _ left => left + 2 ≤ n
  | .finished left => left + 1 ≤ n

lemma DecodeEvent.Behind.mono {m n : ℕ} {e : DecodeEvent} (h : e.Behind m) (hle : m ≤ n) :
    e.Behind n := by
  cases e with
  | size value => trivial
  | data b left => exact Nat.le_trans h hle
  | finished left => exact Nat.le_trans h hle

/-- Inside a chunk one byte less is needed. -/
def Decoding.slack : Decoding → ℕ
  | .head _ => 0
  | .headLf _ => 0
  | .data _ => 1

lemma events_behind (hitems : Steadfast items) (state : Decoding) :
    ∀ e ∈ state.events items, e.Behind ((payload items).length + state.slack) := by
  induction items generalizing state with
  | nil =>
    intro e he
    cases state <;> cases he
  | cons item items ih =>
    have ih' := ih hitems.tail
    rcases hitems item List.mem_cons_self with rfl | ⟨c, brk, rfl⟩
    · cases state with
      | head collected => exact ih' (.head [])
      | headLf collected => exact ih' (.head [])
      | data remain => exact ih' (.data remain)
    · rw [payload_byte, List.length_cons]
      intro e he
      cases state with
      | head collected =>
        rw [Decoding.events] at he
        split_ifs at he
        · exact (ih' _ e he).mono (Nat.le_succ _)
        · exact (ih' _ e he).mono (Nat.le_succ _)
        · cases he
        · exact (ih' _ e he).mono (Nat.le_succ _)
      | headLf collected =>
        rw [Decoding.events] at he
        by_cases hlf : c = LF
        · rw [if_pos hlf] at he
          rcases List.mem_cons.1 he with rfl | he
          · trivial
          · split_ifs at he
            · exact ih' _ e he
            · obtain rfl := List.mem_singleton.1 he
              exact Nat.le_refl _
            · exact (ih' _ e he).mono (Nat.le_succ _)
            · cases he
        · rw [if_neg hlf] at he
          cases he
      | data remain =>
        rw [Decoding.events] at he
        rcases List.mem_cons.1 he with rfl | he
        · exact Nat.le_refl _
        · split_ifs at he
          · exact (ih' _ e he).mono (Nat.le_succ_of_le (Nat.le_succ _))
          · exact (ih' _ e he).mono (Nat.le_succ _)

/-- A CR ends the header, or is its first byte. -/
lemma HeadText.cr_of_append (h : HeadText line) {u v : Bytes}
    (huv : u ++ CR :: v = line ++ [CR]) : v = [] ∨ u = [] := by
  rcases List.eq_nil_or_concat' v with rfl | ⟨w, z, rfl⟩
  · exact Or.inl rfl
  · right
    have hconcat : (u ++ CR :: w) ++ [z] = line ++ [CR] := by
      rw [← huv]
      simp
    obtain ⟨rfl, -⟩ := List.append_inj' hconcat rfl
    cases u with
    | nil => rfl
    | cons c u => exact absurd (List.mem_append_right u List.mem_cons_self) h.cr

/-- The suspensions up to the LF of a line, of which the last one leaves `unread` of it. -/
lemma unreads_of_last {unread : Bytes} (brk : Bool) (hfront : Steadfast front)
    (hback : AlwaysReady back) (hrest : Steadfast rest) (hunread : payload back = unread) :
    unread ++ LF :: payload rest ∈ unreads (front ++ .again :: back ++ .byte LF brk :: rest) ∧
      ∀ u, u ++ LF :: payload rest ∈ unreads (front ++ .again :: back ++ .byte LF brk :: rest) →
        ∃ w, u = w ++ unread := by
  have hpay : payload (.again :: (back ++ .byte LF brk :: rest)) =
      unread ++ LF :: payload rest := by
    rw [payload_again, hback.payload_append, payload_byte, hunread]
  have hunreads : unreads (front ++ .again :: back ++ .byte LF brk :: rest) =
      (unreads front).map (· ++ (unread ++ LF :: payload rest)) ++
        (unread ++ LF :: payload rest) :: unreads rest := by
    rw [List.append_assoc, unreads_append hfront, List.cons_append, hpay, unreads,
      unreads_append hback.steadfast, unreads_of_ready hback, ← hpay]
    rfl
  rw [hunreads]
  constructor
  · simp
  · intro u hu
    rcases List.mem_append.1 hu with hu | hu
    · obtain ⟨w, -, hw⟩ := List.mem_map.1 hu
      rw [← List.append_assoc] at hw
      exact ⟨w, (List.append_cancel_right hw).symm⟩
    · rcases List.mem_cons.1 hu with hu | hu
      · exact ⟨[], List.append_cancel_right hu⟩
      · -- behind the LF there is too little to come
        have hle := (suffix_of_mem_unreads hrest hu).length_le
        rw [List.length_append, List.length_cons] at hle
        omega

/-- What comes before the last suspension inside a header is forgotten. -/
lemma events_of_suspended (items : Inbound) (hfront : Steadfast front) (hline : HeadText line)
    (hboth : payload front ++ payload back = line ++ [CR]) :
    Decoding.events (.head []) (front ++ .again :: back ++ items) =
      Decoding.events (.head []) (back ++ items) := by
  rw [List.append_assoc, List.cons_append]
  apply events_forget hfront
  · intro c hc
    have hmem : c ∈ line ++ [CR] := hboth ▸ List.mem_append_left _ hc
    rcases List.mem_append.1 hmem with hmem | hmem
    · exact hline.unblank c hmem
    · rw [List.mem_singleton.1 hmem]
      decide
  · intro u v huv
    rw [huv, List.append_assoc, List.cons_append] at hboth
    apply (hline.cr_of_append hboth).imp
    · intro h
      exact (List.append_eq_nil_iff.1 h).1
    · intro h
      exact ⟨h, rfl⟩

/-- The last suspension before the LF decides. -/
lemma harmless_iff_of_last (brk : Bool) (hfront : Steadfast front) (hback : AlwaysReady back)
    (hrest : Steadfast rest) :
    Harmless (front ++ .again :: back ++ .byte LF brk :: rest) line (payload rest) ↔
      ((payload back).length ≤ line.length → ∃ left, left ≠ [] ∧ payload back = left ++ [CR] ∧
        extractLongLong 16 (-1) left = extractLongLong 16 (-1) line) := by
  obtain ⟨hmem, hleast⟩ := unreads_of_last brk hfront hback hrest rfl
  constructor
  · intro h hle
    apply h _ hmem hle
    intro u hu
    obtain ⟨w, rfl⟩ := hleast u hu
    rw [List.length_append]
    omega
  · intro h u hu hle hmin
    obtain ⟨w, rfl⟩ := hleast u hu
    have hshorter := hmin _ hmem
    rw [List.length_append] at hshorter hle
    obtain rfl : w = [] := List.eq_nil_of_length_eq_zero (by omega)
    exact h (by omega)

/-- Where nothing of the line is left to come, its CR is, or not even that. -/
lemma endsLine_of_not_kept {s t : Bytes} (hboth : s ++ t = line ++ [CR])
    (h : ¬ ∃ left, left ≠ [] ∧ t = left ++ [CR]) : t = [] ∨ t = [CR] := by
  rcases List.eq_nil_or_concat' t with hnil | ⟨left, z, rfl⟩
  · exact Or.inl hnil
  · right
    rw [← List.append_assoc] at hboth
    obtain ⟨-, hz⟩ := List.append_inj' hboth rfl
    obtain rfl : z = CR := List.singleton_inj.1 hz
    have hempty : left = [] := by
      by_contra hne
      exact h ⟨left, hne, rfl⟩
    rw [hempty, List.nil_append]

/-- The decoder has gone past the line: whatever it finds, it finds further behind. -/
lemma behind_of_endsLine (hback : AlwaysReady back) (hrest : Steadfast rest)
    (hend : payload back = [] ∨ payload back = [CR]) {e : DecodeEvent} {es : List DecodeEvent}
    (h : Decoding.events (.head []) (back ++ .byte LF brk :: rest) = e :: es) :
    ∀ e ∈ es, e.Behind (payload rest).length := by
  have hpast : ∃ collected, Decoding.events (.head collected) rest = e :: es := by
    rcases hend with hnil | hcr
    · obtain rfl := hback.eq_nil hnil
      exact ⟨[LF], h⟩
    · obtain ⟨brk', back', rfl, hback', hnil⟩ := hback.uncons hcr
      obtain rfl := hback'.eq_nil hnil
      exact ⟨[CR, LF], h⟩
  obtain ⟨collected, hevents⟩ := hpast
  intro e he
  apply events_behind hrest (.head collected) e
  rw [hevents]
  exact List.mem_cons_of_mem _ he

/-- **What the decoder makes of a size line**: it goes on behind it with the size of the line, or a
suspension has done harm, and then it finds another size or goes on further behind. -/
lemma events_of_sizeLine (hitems : Steadfast items) (hline : HeadText line)
    (hpay : payload items = line ++ CR :: LF :: behind) :
    ∃ pre rest, items = pre ++ rest ∧ payload rest = behind ∧
      (Harmless items line behind ∧ Decoding.events (.head []) items =
          .size (extractLongLong 16 (-1) line) ::
            Decoding.behindSize (extractLongLong 16 (-1) line) rest ∨
        ¬ Harmless items line behind ∧ ∀ es, Decoding.events (.head []) items =
          .size (extractLongLong 16 (-1) line) :: es → ∀ e ∈ es, e.Behind behind.length) := by
  have hcut : payload items = line ++ [CR] ++ LF :: behind := by
    rw [hpay]
    simp
  obtain ⟨before, brk, rest, rfl, hbefore, rfl⟩ := hitems.split hcut
  refine ⟨before ++ [.byte LF brk], rest, by simp, rfl, ?_⟩
  obtain ⟨hsteady, hbehind⟩ := steadfast_append.1 hitems
  have hrest : Steadfast rest := hbehind.tail
  rcases hsteady.last_again with hready | ⟨front, back, rfl, hback⟩
  · left
    refine ⟨fun unread hunread => ?_, events_of_ready hready hrest hbefore hline⟩
    rw [unreads_append hsteady, unreads_of_ready hready] at hunread
    have hle := (suffix_of_mem_unreads hrest hunread).length_le
    rw [List.length_append, List.length_cons] at hle
    omega
  · have hfront : Steadfast front := (steadfast_append.1 hsteady).1
    have hboth : payload front ++ payload back = line ++ [CR] := by
      rw [← hbefore, hfront.payload_append, payload_again]
    rw [events_of_suspended _ hfront hline hboth,
      harmless_iff_of_last brk hfront hback hrest]
    by_cases hkept : ∃ left, left ≠ [] ∧ payload back = left ++ [CR]
    · obtain ⟨left, hne, hleft⟩ := hkept
      have hline' : payload front ++ left = line := by
        apply List.append_cancel_right
        rw [List.append_assoc, ← hleft, hboth]
      have hleftLine : HeadText left := hline.suffix ⟨payload front, hline'⟩ hne
      rw [events_of_ready hback hrest hleft hleftLine]
      by_cases hsame : extractLongLong 16 (-1) left = extractLongLong 16 (-1) line
      · left
        rw [hsame]
        exact ⟨fun _ => ⟨left, hne, hleft, hsame⟩, rfl⟩
      · right
        have hpos : 0 < (payload front).length := by
          rw [List.length_pos_iff]
          intro hwhole
          rw [hwhole, List.nil_append] at hline'
          exact hsame (congrArg _ hline')
        have hshort : (payload back).length ≤ line.length := by
          rw [hleft, ← hline', List.length_append, List.length_append, List.length_singleton]
          omega
        constructor
        · intro h
          obtain ⟨left', -, heq, hsame'⟩ := h hshort
          obtain rfl := List.append_cancel_right (hleft.symm.trans heq)
          exact hsame hsame'
        · intro es hes
          have hsize := (List.cons.inj hes).1
          exact absurd (DecodeEvent.size.inj hsize) hsame
    · -- suspended behind the line
      right
      have hend := endsLine_of_not_kept hboth hkept
      constructor
      · intro h
        have hpos : 0 < line.length := List.length_pos_iff.2 hline.ne
        have hshort : (payload back).length ≤ line.length := by
          rcases hend with hnil | hcr
          · simp [hnil]
          · rw [hcr]
            exact hpos
        obtain ⟨left, hne, heq, -⟩ := h hshort
        exact hkept ⟨left, hne, heq⟩
      · intro es hes
        exact behind_of_endsLine hback hrest hend hes

end Line

/-! ## The stream -/

section Wire

variable {lead behind line : Bytes} {chunks : List Chunk} {last : SizeText 0} {tail : Bytes}

/-- The data of a chunk, whatever suspends them. -/
lemma events_of_data {d : Bytes} (hitems : Steadfast items) (hpay : payload items = d ++ behind)
    (hne : d ≠ []) : ∃ pre rest, items = pre ++ rest ∧ payload rest = behind ∧
      Decoding.events (.data d.length) items =
        dataEvents behind.length d ++ Decoding.events (.head []) rest := by
  induction items generalizing d with
  | nil =>
    obtain ⟨b, d, rfl⟩ := List.exists_cons_of_ne_nil hne
    cases hpay
  | cons item items ih =>
    rcases hitems item List.mem_cons_self with rfl | ⟨b, brk, rfl⟩
    · obtain ⟨pre, rest, rfl, hrest, hevents⟩ := ih hitems.tail hpay hne
      exact ⟨.again :: pre, rest, rfl, hrest, hevents⟩
    · obtain ⟨c, d, rfl⟩ := List.exists_cons_of_ne_nil hne
      obtain ⟨rfl, htail⟩ := List.cons.inj hpay
      have hpay' : payload items = d ++ behind := htail
      have hleft : (payload items).length = behind.length + d.length := by
        rw [hpay', List.length_append, Nat.add_comm]
      rw [Decoding.events, hleft, dataEvents]
      by_cases hnil : d = []
      · subst hnil
        exact ⟨[.byte b brk], items, rfl, hpay', by simp [dataEvents]⟩
      · have hmore : ¬ (b :: d).length ≤ 1 := by
          have hpos := List.length_pos_iff.2 hnil
          rw [List.length_cons]
          omega
        obtain ⟨pre, rest, rfl, hrest, hevents⟩ := ih hitems.tail hpay' hnil
        refine ⟨.byte b brk :: pre, rest, rfl, hrest, ?_⟩
        rw [if_neg hmore, List.length_cons, Nat.add_sub_cancel, hevents, List.cons_append]

/-- Suspensions before the last part of a stream do not touch its size lines. -/
lemma harmless_append (hfront : Steadfast front)
    (hroom : line.length + 2 + behind.length ≤ (payload rest).length) :
    Harmless (front ++ rest) line behind ↔ Harmless rest line behind := by
  have hmem : ∀ u : Bytes, u.length ≤ line.length →
      (u ++ LF :: behind ∈ unreads (front ++ rest) ↔ u ++ LF :: behind ∈ unreads rest) := by
    intro u hu
    rw [unreads_append hfront, List.mem_append, or_iff_right]
    intro hu'
    obtain ⟨w, -, hw⟩ := List.mem_map.1 hu'
    have hlengths := congrArg List.length hw
    simp only [List.length_append, List.length_cons] at hlengths
    omega
  constructor
  · intro h u hu hle hmin
    refine h u ((hmem u hle).2 hu) hle fun u' hu' => ?_
    by_cases hle' : u'.length ≤ line.length
    · exact hmin u' ((hmem u' hle').1 hu')
    · omega
  · intro h u hu hle hmin
    refine h u ((hmem u hle).1 hu) hle fun u' hu' => ?_
    by_cases hle' : u'.length ≤ line.length
    · exact hmin u' ((hmem u' hle').2 hu')
    · omega

lemma refused_append (hitems : Steadfast (front ++ rest))
    (hroom : line.length + 2 + behind.length ≤ (payload rest).length) :
    Refused (front ++ rest) line behind ↔ Refused rest line behind := by
  constructor
  · rintro h front' rest' rfl hpay
    exact h (front ++ front') rest' (List.append_assoc front front' rest').symm hpay
  · intro h front' rest' hcut hpay
    rcases List.append_eq_append_iff.1 hcut with ⟨mid, -, hrest⟩ | ⟨mid, rfl, rfl⟩
    · exact h mid rest' hrest hpay
    · -- nothing but suspensions can stand between the two cuts
      have hmid : Steadfast mid := (steadfast_append.1 (steadfast_append.1 hitems).1).2
      have hboth := hpay
      rw [hmid.payload_append] at hboth
      have hlengths := congrArg List.length hboth
      simp only [List.length_append, List.length_cons] at hlengths
      have hnil : payload mid = [] := List.eq_nil_of_length_eq_zero (by omega)
      rw [hnil, List.nil_append] at hboth
      exact (unopened_agains hmid hnil).2 (h [] rest rfl hboth)

lemma survives_append {lines : List (Bytes × Bytes)} (hitems : Steadfast (front ++ rest))
    (hroom : ∀ head ∈ lines, head.1.length + 2 + head.2.length ≤ (payload rest).length) :
    Survives (front ++ rest) lines ↔ Survives rest lines := by
  induction lines with
  | nil => exact Iff.rfl
  | cons head lines ih =>
    obtain ⟨hhead, hlines⟩ := List.forall_mem_cons.1 hroom
    simp only [Survives]
    split
    · rw [harmless_append (steadfast_append.1 hitems).1 hhead, ih hlines]
    · exact refused_append hitems hhead

/-- Where a line with a blank is the next one, the decoder has to read no header. -/
lemma events_eq_nil_iff_refused (hitems : Steadfast items)
    (hpay : payload items = line ++ CR :: LF :: behind) :
    Decoding.events (.head []) items = [] ↔ Refused items line behind := by
  rw [events_eq_nil_iff hitems]
  constructor
  · rintro h front rest rfl hrest
    have hfront : Steadfast front := (steadfast_append.1 hitems).1
    rw [hfront.payload_append, hrest] at hpay
    exact (unopened_agains hfront (List.append_left_eq_self.1 hpay)).1 h
  · intro h
    exact h [] items rfl hpay

/-- It is enough that each suspension does no harm. -/
lemma harmless_of_forall (h : ∀ u ∈ unreads items, line.length + 1 + behind.length < u.length ∨
    u.length ≤ behind.length ∨ ∃ left, left ≠ [] ∧ u = left ++ CR :: LF :: behind ∧
      extractLongLong 16 (-1) left = extractLongLong 16 (-1) line) :
    Harmless items line behind := by
  intro unread hunread hle _
  have hlength : (unread ++ LF :: behind).length = unread.length + 1 + behind.length := by
    rw [List.length_append, List.length_cons]
    omega
  rcases h _ hunread with hlong | hshort | ⟨left, hne, heq, hsame⟩
  · omega
  · omega
  · have hcut : unread ++ LF :: behind = left ++ [CR] ++ LF :: behind := by
      rw [heq, List.append_assoc]
      rfl
    exact ⟨left, hne, List.append_cancel_right hcut, hsame⟩

lemma length_of_mem_sizeLines (h : (line, behind) ∈ sizeLines lead last tail chunks) :
    line.length + 2 + behind.length ≤ (lead ++ encode chunks last tail).length := by
  induction chunks generalizing lead with
  | nil =>
    obtain ⟨rfl, rfl⟩ := Prod.mk.inj (List.mem_singleton.1 h)
    simp only [encode, List.flatMap_nil, List.nil_append, List.length_append, List.length_cons,
      List.length_nil]
    omega
  | cons c chunks ih =>
    rcases List.mem_cons.1 h with h | h
    · obtain ⟨rfl, rfl⟩ := Prod.mk.inj h
      simp only [encode, List.flatMap_cons, Chunk.encode, List.length_append, List.length_cons,
        List.length_nil]
      omega
    · have hle := ih h
      simp only [encode, List.flatMap_cons, Chunk.encode, List.length_append, List.length_cons,
        List.length_nil] at hle ⊢
      omega

/-- A size line starts with the CR of the chunk before, or with a digit. -/
lemma SizeText.first {n : ℕ} (t : SizeText n) (hlead : lead = [] ∨ lead = [CR, LF]) :
    ∃ c more, lead ++ t.text = c :: more ∧ isBlank c = false := by
  have hdigit : ∀ c : Byte, (digitValue 16 c).isSome = true → isBlank c = false := by
    decide +kernel
  rcases hlead with rfl | rfl
  · obtain ⟨d, digits, hdigits⟩ := List.exists_cons_of_ne_nil t.numeral.ne
    have hd := hdigit d (t.numeral.digits d (hdigits ▸ List.mem_cons_self))
    refine ⟨d, digits ++ t.ext, ?_, hd⟩
    rw [SizeText.text, hdigits]
    rfl
  · exact ⟨CR, LF :: t.text, rfl, by decide⟩

lemma SizeText.cr_notMem {n : ℕ} (t : SizeText n) (hlead : lead = [] ∨ lead = [CR, LF]) :
    CR ∉ (lead ++ t.text).tail := by
  have hdigit : ∀ c : Byte, (digitValue 16 c).isSome = true → c ≠ CR := by decide +kernel
  have htext : CR ∉ t.text := by
    intro hmem
    rcases List.mem_append.1 hmem with hmem | hmem
    · exact hdigit CR (t.numeral.digits CR hmem) rfl
    · exact (t.ext_text CR hmem).1 rfl
  rcases hlead with rfl | rfl
  · exact fun hmem => htext (List.mem_of_mem_tail hmem)
  · intro hmem
    rcases List.mem_cons.1 hmem with hmem | hmem
    · exact absurd hmem (by decide)
    · exact htext hmem

lemma unblank_append_iff {n : ℕ} (t : SizeText n) (hlead : lead = [] ∨ lead = [CR, LF]) :
    Unblank (lead ++ t.text) ↔ Unblank t.text := by
  rcases hlead with rfl | rfl
  · exact Iff.rfl
  · refine ⟨fun h c hc => h c (List.mem_append_right _ hc), fun h => ?_⟩
    exact List.forall_mem_cons.2 ⟨by decide, List.forall_mem_cons.2 ⟨by decide, h⟩⟩

/-- The header reads a size line, and the CR LF of the chunk before, as one line. -/
lemma SizeText.headText {n : ℕ} (t : SizeText n) (hlead : lead = [] ∨ lead = [CR, LF])
    (hunblank : Unblank (lead ++ t.text)) : HeadText (lead ++ t.text) := by
  obtain ⟨c, more, hline, -⟩ := t.first hlead
  exact ⟨hline ▸ List.cons_ne_nil c more, hunblank, t.cr_notMem hlead⟩

/-- A size line with a blank breaks the header. -/
lemma SizeText.breaks {n : ℕ} (t : SizeText n) (hlead : lead = [] ∨ lead = [CR, LF])
    (hblank : ¬ Unblank (lead ++ t.text)) (more : Bytes) : Breaks (lead ++ t.text ++ more) := by
  obtain ⟨c, line, hline, hc⟩ := t.first hlead
  have hcr := t.cr_notMem hlead
  rw [hline] at hcr hblank ⊢
  -- the text of the header goes up to the first blank
  obtain ⟨text, behind, rfl, htext, hbehind⟩ := Framework.exists_run (fun c => !isBlank c) line
  have hunblank : ∀ d ∈ c :: text, isBlank d = false :=
    List.forall_mem_cons.2 ⟨hc, fun d hd => by simpa using htext d hd⟩
  have hhead : HeadText (c :: text) :=
    ⟨List.cons_ne_nil c text, hunblank, fun hmem => hcr (List.mem_append_left behind hmem)⟩
  cases behind with
  | nil =>
    rw [List.append_nil] at hblank
    exact absurd hunblank hblank
  | cons d behind =>
    refine ⟨[], c :: text, d :: (behind ++ more), ?_, List.forall_mem_nil _, hhead, ?_⟩
    · rw [List.nil_append, List.cons_append, List.append_assoc, List.cons_append, List.cons_append]
    · exact Or.inl ⟨d, rfl, by simpa using hbehind d rfl⟩

lemma SizeText.extract {n : ℕ} (t : SizeText n) (hlead : lead = [] ∨ lead = [CR, LF])
    (hunblank : Unblank (lead ++ t.text)) (hfits : n < 2 ^ 63) :
    extractLongLong 16 (-1) (lead ++ t.text) = n := by
  have hext : ∀ c ∈ t.ext.head?, c = 59 := by
    intro c hc
    rcases t.ext_start with hnil | ⟨blanks, text, hblanks, hall⟩
    · rw [hnil] at hc
      cases hc
    · cases blanks with
      | nil =>
        rw [hblanks] at hc
        exact (Option.some.inj hc).symm
      | cons b blanks =>
        have hmem : b ∈ lead ++ t.text := by
          rw [SizeText.text, hblanks]
          simp
        exact absurd ((hunblank b hmem).symm.trans (hall b List.mem_cons_self)) (by decide)
  have hsize : SizeLine (lead ++ t.text) n :=
    ⟨lead, t.digits, t.ext, rfl, hlead, t.numeral, hext,
      fun hmem => (t.ext_text LF hmem).2 rfl⟩
  rw [hsize.extract, if_pos hfits]

lemma breaks_of_mem_sizeLines (hlead : lead = [] ∨ lead = [CR, LF])
    (h : (line, behind) ∈ sizeLines lead last tail chunks) (hblank : ¬ Unblank line)
    (more : Bytes) : Breaks (line ++ more) := by
  induction chunks generalizing lead with
  | nil =>
    obtain ⟨rfl, rfl⟩ := Prod.mk.inj (List.mem_singleton.1 h)
    exact last.breaks hlead hblank more
  | cons c chunks ih =>
    rcases List.mem_cons.1 h with h | h
    · obtain ⟨rfl, rfl⟩ := Prod.mk.inj h
      exact c.size.breaks hlead hblank more
    · exact ih (Or.inr rfl) h

/-- Something that is expected of a chunk lies right at its start. -/
lemma exists_not_behind (c : Chunk) (es : List DecodeEvent) :
    ∃ e ∈ dataEvents behind.length c.data ++ es, ¬ e.Behind (c.data ++ behind).length := by
  obtain ⟨b, d, hd⟩ := List.exists_cons_of_ne_nil c.ne
  refine ⟨.data b (behind.length + d.length), ?_, ?_⟩
  · rw [hd]
    exact List.mem_append_left _ List.mem_cons_self
  · have hlength : (c.data ++ behind).length = behind.length + d.length + 1 := by
      rw [List.length_append, hd, List.length_cons]
      omega
    rw [hlength]
    exact Nat.not_succ_le_self _

/-- **The log is the expected one** exactly if every size line is left unharmed, and the first with
a blank is refused. -/
lemma events_eq_ideal_iff (hitems : Steadfast items) (hlead : lead = [] ∨ lead = [CR, LF])
    (hpay : payload items = lead ++ encode chunks last tail) :
    Decoding.events (.head []) items = idealEvents last tail chunks ↔
      Survives items (sizeLines lead last tail chunks) := by
  induction chunks generalizing items lead with
  | nil =>
    have hline : payload items = (lead ++ last.text) ++ CR :: LF :: tail := by
      rw [hpay]
      simp [encode]
    simp only [sizeLines, Survives, idealEvents, ← unblank_append_iff last hlead]
    by_cases hunblank : Unblank (lead ++ last.text)
    swap
    · rw [if_neg hunblank, if_neg hunblank]
      exact events_eq_nil_iff_refused hitems hline
    rw [if_pos hunblank, if_pos hunblank, and_true]
    obtain ⟨pre, rest, rfl, hrest, hcases⟩ :=
      events_of_sizeLine hitems (last.headText hlead hunblank) hline
    rw [last.extract hlead hunblank (by decide)] at hcases
    rcases hcases with ⟨hharmless, hevents⟩ | ⟨hharm, hevents⟩
    · refine iff_of_true ?_ hharmless
      rw [hevents, ← hrest]
      rfl
    · refine iff_of_false ?_ hharm
      intro hideal
      have hbehind := hevents _ hideal _ List.mem_cons_self
      exact absurd hbehind (Nat.not_succ_le_self _)
  | cons c chunks ih =>
    have hline : payload items = (lead ++ c.size.text) ++ CR :: LF ::
        (c.data ++ [CR, LF] ++ encode chunks last tail) := by
      rw [hpay]
      simp [encode, Chunk.encode]
    simp only [sizeLines, Survives, idealEvents, ← unblank_append_iff c.size hlead]
    by_cases hunblank : Unblank (lead ++ c.size.text)
    swap
    · rw [if_neg hunblank, if_neg hunblank]
      exact events_eq_nil_iff_refused hitems hline
    rw [if_pos hunblank, if_pos hunblank]
    obtain ⟨pre, rest, rfl, hrest, hcases⟩ :=
      events_of_sizeLine hitems (c.size.headText hlead hunblank) hline
    have hpos : 0 < c.data.length := List.length_pos_iff.2 c.ne
    rw [c.size.extract hlead hunblank c.fits] at hcases
    rcases hcases with ⟨hharmless, hevents⟩ | ⟨hharm, hevents⟩
    · obtain ⟨hpre, hrest'⟩ := steadfast_append.1 hitems
      rw [List.append_assoc] at hrest
      obtain ⟨pre', rest', rfl, hpay', hdata⟩ := events_of_data hrest' hrest c.ne
      obtain ⟨hpre', hrest''⟩ := steadfast_append.1 hrest'
      have hnext := ih hrest'' (Or.inr rfl) hpay'
      have hlog : Decoding.events (.head []) (pre ++ (pre' ++ rest')) =
          .size c.data.length ::
            (dataEvents ([CR, LF] ++ encode chunks last tail).length c.data ++
              Decoding.events (.head []) rest') := by
        rw [hevents, Decoding.behindSize, if_pos (by exact_mod_cast hpos), Int.toNat_natCast,
          hdata]
      have htransfer : Survives (pre ++ (pre' ++ rest')) (sizeLines [CR, LF] last tail chunks) ↔
          Survives rest' (sizeLines [CR, LF] last tail chunks) := by
        rw [← List.append_assoc] at hitems ⊢
        apply survives_append hitems
        intro head hhead
        rw [hpay']
        exact length_of_mem_sizeLines hhead
      rw [hlog, htransfer, ← hnext, and_iff_right hharmless, List.cons.injEq, and_iff_right rfl,
        List.append_cancel_left_eq]
    · refine iff_of_false ?_ fun h => hharm h.1
      intro hideal
      obtain ⟨e, he, hnot⟩ := @exists_not_behind ([CR, LF] ++ encode chunks last tail) c
        (idealEvents last tail chunks)
      rw [← List.append_assoc] at hnot
      exact hnot (hevents _ hideal e he)

/-- Without its suspensions, a stream is always ready. -/
lemma Steadfast.ready_steady (h : Steadfast items) : AlwaysReady items.steady := by
  intro item hitem
  obtain ⟨hmem, hnot⟩ := List.mem_filter.1 hitem
  rcases h item hmem with rfl | hbyte
  · simp at hnot
  · exact hbyte

lemma survives_of_ready {lines : List (Bytes × Bytes)} (hitems : AlwaysReady items)
    (hlines : ∀ head ∈ lines, ¬ Unblank head.1 → ∀ more, Breaks (head.1 ++ more)) :
    Survives items lines := by
  induction lines with
  | nil => exact True.intro
  | cons head lines ih =>
    have hlines' : ∀ head ∈ lines, ¬ Unblank head.1 → ∀ more, Breaks (head.1 ++ more) :=
      fun head' hmem => hlines head' (List.mem_cons_of_mem head hmem)
    by_cases hunblank : Unblank head.1
    · rw [Survives, if_pos hunblank]
      refine ⟨fun unread hunread => ?_, ih hlines'⟩
      rw [unreads_of_ready hitems] at hunread
      exact absurd hunread List.not_mem_nil
    · rw [Survives, if_neg hunblank]
      rintro front rest rfl hrest
      apply unopened_of_breaks (List.forall_mem_append.1 hitems).2
      rw [hrest]
      exact hlines head List.mem_cons_self hunblank _

/-- A stream that is always ready is decoded as expected. -/
lemma events_of_always (hitems : AlwaysReady items)
    (hpay : payload items = encode chunks last tail) :
    Decoding.events (.head []) items = idealEvents last tail chunks := by
  apply (events_eq_ideal_iff hitems.steadfast (Or.inl rfl) hpay).2
  exact survives_of_ready hitems fun head hhead => breaks_of_mem_sizeLines (Or.inl rfl) hhead

/-- The calls log the same on both streams as soon as the machine does. -/
lemma sameDecoding_iff (hS : S ≠ 0) (hitems : Steadfast items) : SameDecoding S items ↔
    Decoding.events (.head []) items = Decoding.events (.head []) items.steady := by
  have hsteady : Steadfast items.steady := hitems.ready_steady.steadfast
  have hshort : items.steady.length ≤ items.length := List.length_filter_le _ items
  have hlogs : ∀ more, items.length < more →
      Buffer.decode S more { kind := .chunked (-1) } items = Decoding.events (.head []) items ∧
        Buffer.decode S more { kind := .chunked (-1) } items.steady =
          Decoding.events (.head []) items.steady := by
    intro more hmore
    constructor
    · exact (logs_of_lt hS hitems hmore _).1 rfl
    · exact (logs_of_lt hS hsteady (hshort.trans_lt hmore) _).1 rfl
  constructor
  · rintro ⟨calls, hsame⟩
    have hmore : items.length < calls + items.length + 1 := by omega
    obtain ⟨hlog, hlogSteady⟩ := hlogs _ hmore
    rw [← hlog, ← hlogSteady]
    apply hsame
    omega
  · intro hevents
    refine ⟨items.length + 1, fun more hmore => ?_⟩
    obtain ⟨hlog, hlogSteady⟩ := hlogs more hmore
    rw [hlog, hlogSteady, hevents]

/-- **Chunked framing survives suspensions if and only if each size line does**: whatever the
chunks, their extensions, the places of the suspensions and the size of the array, the decoder
sees what it sees without them exactly if, of every size line up to the first with a blank, the last
suspension inside it leaves a part that has the size of the whole, and the one with a blank is
refused. -/
theorem framing_survives_iff (hS : S ≠ 0) (hitems : Steadfast items)
    (hpay : payload items = encode chunks last tail) :
    SameDecoding S items ↔ Survives items (sizeLines [] last tail chunks) := by
  have hpaySteady : payload items.steady = encode chunks last tail := by
    rw [Inbound.payload_steady, hpay]
  rw [sameDecoding_iff hS hitems, events_of_always hitems.ready_steady hpaySteady]
  exact events_eq_ideal_iff hitems (Or.inl rfl) hpay

/-! ## Two streams -/

/-- The size line `2`. -/
def sizeTwo : SizeText 2 where
  digits := bytes "2"
  ext := []
  numeral := ⟨by decide, List.all_eq_true.1 (by decide), by decide⟩
  ext_start := Or.inl rfl
  ext_text := by simp

/-- The size line `0`. -/
def sizeZero : SizeText 0 where
  digits := bytes "0"
  ext := []
  numeral := ⟨by decide, List.all_eq_true.1 (by decide), by decide⟩
  ext_start := Or.inl rfl
  ext_text := by simp

/-- A chunk of two bytes. -/
def chunkTwo : Chunk where
  data := bytes "AB"
  size := sizeTwo
  ne := by decide
  fits := by decide

/-- Pieces of a stream, with a suspension before each. -/
def suspended (pieces : List Bytes) : Inbound :=
  pieces.flatMap fun piece => .again :: piece.map (.byte · false)

lemma steadfast_suspended (pieces : List Bytes) : Steadfast (suspended pieces) := by
  intro item hitem
  obtain ⟨piece, -, hitem⟩ := List.mem_flatMap.1 hitem
  rcases List.mem_cons.1 hitem with rfl | hitem
  · exact Or.inl rfl
  · obtain ⟨b, -, rfl⟩ := List.mem_map.1 hitem
    exact Or.inr ⟨b, false, rfl⟩

/-- Suspensions before the first byte, in the data, and between the CR and the LF behind them, are
survived. -/
theorem framing_survives_in_data :
    SameDecoding kBufferSize
      (suspended [bytes "2\r\nA", bytes "B\r", [], bytes "\n0\r\n\r\n"]) := by
  have hlines : sizeLines [] sizeZero [CR, LF] [chunkTwo] =
      [(bytes "2", bytes "AB\r\n0\r\n\r\n"), (bytes "\r\n0", bytes "\r\n")] := by
    decide +kernel
  have hunreads : unreads (suspended [bytes "2\r\nA", bytes "B\r", [], bytes "\n0\r\n\r\n"]) =
      [bytes "2\r\nAB\r\n0\r\n\r\n", bytes "B\r\n0\r\n\r\n", bytes "\n0\r\n\r\n",
        bytes "\n0\r\n\r\n"] := by
    decide +kernel
  apply (@framing_survives_iff _ kBufferSize [chunkTwo] sizeZero [CR, LF] (by decide)
    (steadfast_suspended _) (by decide +kernel)).2
  rw [hlines, Survives, if_pos (by decide +kernel), Survives, if_pos (by decide +kernel)]
  refine ⟨?_, ?_, trivial⟩
  · -- no suspension lies inside the first line
    have hoff : ∀ u ∈ [bytes "2\r\nAB\r\n0\r\n\r\n", bytes "B\r\n0\r\n\r\n",
        bytes "\n0\r\n\r\n", bytes "\n0\r\n\r\n"], 11 < u.length ∨ u.length ≤ 9 := by
      decide +kernel
    apply harmless_of_forall
    rw [hunreads]
    intro u hu
    exact (hoff u hu).imp_right Or.inl
  · -- inside the second, the LF and the digit are left
    have hleft : ∃ left : Bytes, left ≠ [] ∧
        bytes "\n0\r\n\r\n" = left ++ CR :: LF :: bytes "\r\n" ∧
          extractLongLong 16 (-1) left = extractLongLong 16 (-1) (bytes "\r\n0") :=
      ⟨bytes "\n0", by decide +kernel, by decide +kernel, by decide +kernel⟩
    apply harmless_of_forall
    rw [hunreads]
    simp only [List.forall_mem_cons]
    exact ⟨Or.inl (by decide +kernel), Or.inl (by decide +kernel), Or.inr (Or.inr hleft),
      Or.inr (Or.inr hleft), List.forall_mem_nil _⟩

/-- **A suspension inside a size line is not survived**: the digit before it is forgotten, and the
decoder takes the CR LF of the line and the two bytes of the data for a size, 171. -/
theorem framing_lost : ¬ SameDecoding kBufferSize
    (suspended [bytes "2", bytes "\r\nAB\r\n0\r\n\r\n"]) ∧
      payload (suspended [bytes "2", bytes "\r\nAB\r\n0\r\n\r\n"]) =
        encode [chunkTwo] sizeZero [CR, LF] := by
  constructor
  · rw [sameDecoding_iff (by decide) (steadfast_suspended _)]
    decide +kernel
  · decide +kernel

/-- A blank in a quoted string is skipped behind a suspension, and refused without it. -/
example : ¬ SameDecoding kBufferSize
    (suspended [bytes "2;q=\"a", bytes " b\"\r\nAB\r\n0\r\n\r\n"]) := by
  rw [sameDecoding_iff (by decide) (steadfast_suspended _)]
  decide +kernel

end Wire

end Cld
