import Cld.Body.Decoding
import Cld.Framework.Split

/-!
# Headers that are refused

A blank inside a header makes the decoder throw, and so does a CR that is not followed by a LF.
A suspension takes the decoder back to the start of a header, so that the blank behind it is one
before the header and is skipped.  Whether a stream is refused is therefore a matter of what
stands between two suspensions.

* `stretches` cuts a stream at its suspensions.
* A stretch `Opens` if it begins with a whole header, and `Breaks` if it begins with one that is
  refused.  The others end inside a header, and are forgotten.
* `events_eq_nil_iff`: the decoder reads no header of a stream exactly if no stretch opens before
  one breaks.
-/

namespace Cld

open Framework

variable {items front rest : Inbound} {s text : Bytes} {pieces : List Bytes}

/-- What the loop of the header takes for a line. -/
structure HeadText (line : Bytes) : Prop where
  ne : line ≠ []
  unblank : ∀ c ∈ line, isBlank c = false
  cr : CR ∉ line.tail

/-- The bytes from one suspension to the next. -/
def stretches (items : Inbound) : List Bytes := (Split.pieces .again [] items).map payload

/-- The bytes begin with a header: blanks, a text and its CR LF. -/
def Opens (s : Bytes) : Prop :=
  ∃ blanks line behind, s = blanks ++ (line ++ CR :: LF :: behind) ∧
    (∀ c ∈ blanks, isBlank c = true) ∧ HeadText line

/-- The bytes begin with a header that is refused: a blank stands in its text, or something else
than a LF behind its CR. -/
def Breaks (s : Bytes) : Prop :=
  ∃ blanks line behind, s = blanks ++ (line ++ behind) ∧ (∀ c ∈ blanks, isBlank c = true) ∧
    HeadText line ∧ ((∃ c ∈ behind.head?, isBlank c = true) ∨
      ∃ c more, behind = CR :: c :: more ∧ c ≠ LF)

/-- No stretch opens before one breaks. -/
def Unopened (pieces : List Bytes) : Prop :=
  ∀ before piece after, pieces = before ++ piece :: after → Opens piece → ∃ p ∈ before, Breaks p

/-! ## Stretches -/

lemma AlwaysReady.steadfast (h : AlwaysReady items) : Steadfast items :=
  fun item hitem => Or.inr (h item hitem)

lemma again_notMem_of_ready (h : AlwaysReady front) : Incoming.again ∉ front := by
  intro hmem
  obtain ⟨b, brk, heq⟩ := h _ hmem
  cases heq

lemma stretches_of_ready (h : AlwaysReady items) : stretches items = [payload items] := by
  unfold stretches
  rw [Split.pieces_of_not_mem (again_notMem_of_ready h), List.map_singleton]

lemma stretches_cons (h : AlwaysReady front) (rest : Inbound) :
    stretches (front ++ .again :: rest) = payload front :: stretches rest := by
  unfold stretches
  rw [Split.pieces_cons_of_not_mem (again_notMem_of_ready h), List.map_cons]

/-- There is a first suspension, or there is none. -/
lemma Steadfast.first_again (h : Steadfast items) : AlwaysReady items ∨
    ∃ front rest, items = front ++ .again :: rest ∧ AlwaysReady front ∧ Steadfast rest := by
  have hready : ∀ {front : Inbound}, (∀ item ∈ front, item ∈ items) → Incoming.again ∉ front →
      AlwaysReady front := by
    intro front hsub hnot item hitem
    refine (h item (hsub item hitem)).resolve_left fun heq => ?_
    exact hnot (heq ▸ hitem)
  by_cases hmem : Incoming.again ∈ items
  · obtain ⟨front, rest, rfl, hfront⟩ := List.eq_append_cons_of_mem hmem
    refine Or.inr ⟨front, rest, rfl, ?_, fun item hitem => ?_⟩
    · exact hready (fun item => List.mem_append_left _) hfront
    · exact h item (List.mem_append_right _ (List.mem_cons_of_mem _ hitem))
  · exact Or.inl (hready (fun _ hitem => hitem) hmem)

lemma unopened_nil : Unopened [] := by
  intro before piece after hpieces
  simp at hpieces

lemma unopened_cons_iff : Unopened (s :: pieces) ↔ ¬ Opens s ∧ (Breaks s ∨ Unopened pieces) := by
  constructor
  · intro h
    refine ⟨fun hopens => ?_, ?_⟩
    · obtain ⟨p, hp, -⟩ := h [] s pieces rfl hopens
      exact absurd hp List.not_mem_nil
    · by_cases hbreaks : Breaks s
      · exact Or.inl hbreaks
      · right
        intro before piece after hpieces hopens
        obtain ⟨p, hp, hpbreaks⟩ := h (s :: before) piece after (by rw [hpieces]; rfl) hopens
        rcases List.mem_cons.1 hp with rfl | hp
        · exact absurd hpbreaks hbreaks
        · exact ⟨p, hp, hpbreaks⟩
  · rintro ⟨hunopened, hrest⟩ before piece after hpieces hopens
    cases before with
    | nil =>
      obtain ⟨rfl, -⟩ := List.cons.inj hpieces
      exact absurd hopens hunopened
    | cons p before =>
      obtain ⟨rfl, htail⟩ := List.cons.inj hpieces
      rcases hrest with hbreaks | hrest
      · exact ⟨s, List.mem_cons_self, hbreaks⟩
      · obtain ⟨q, hq, hqbreaks⟩ := hrest before piece after htail hopens
        exact ⟨q, List.mem_cons_of_mem _ hq, hqbreaks⟩

/-! ## One stretch -/

/-- The blanks before a header. -/
lemma events_of_blanks (hfront : AlwaysReady front)
    (hblanks : ∀ c ∈ payload front, isBlank c = true) (rest : Inbound) :
    Decoding.events (.head []) (front ++ rest) = Decoding.events (.head []) rest := by
  induction front with
  | nil => rfl
  | cons item front ih =>
    obtain ⟨⟨c, brk, rfl⟩, hfront'⟩ := List.forall_mem_cons.1 hfront
    obtain ⟨hc, hblanks'⟩ := List.forall_mem_cons.1 hblanks
    rw [List.cons_append, Decoding.events, if_neg (by simp), if_pos hc, if_pos rfl]
    exact ih hfront' hblanks'

/-- The text of a header, behind its first byte. -/
lemma events_of_more {collected : Bytes} (hcollected : collected ≠ []) (hfront : AlwaysReady front)
    (hunblank : ∀ c ∈ payload front, isBlank c = false) (hcr : CR ∉ payload front)
    (rest : Inbound) : Decoding.events (.head collected) (front ++ rest) =
      Decoding.events (.head (collected ++ payload front)) rest := by
  induction front generalizing collected with
  | nil => rw [payload_nil, List.append_nil, List.nil_append]
  | cons item front ih =>
    obtain ⟨⟨c, brk, rfl⟩, hfront'⟩ := List.forall_mem_cons.1 hfront
    obtain ⟨hc, hunblank'⟩ := List.forall_mem_cons.1 hunblank
    obtain ⟨hne, hcr'⟩ := not_or.1 (mt List.mem_cons.2 hcr)
    have hpush : ¬ (collected ≠ [] ∧ c = CR) := fun h => hne h.2.symm
    rw [List.cons_append, Decoding.events, if_neg hpush, if_neg (by simp [hc]),
      ih (by simp) hfront' hunblank' hcr', List.append_assoc]
    rfl

/-- The text of a header, which may begin with a CR. -/
lemma events_of_text (hfront : AlwaysReady front) (htext : HeadText (payload front))
    (rest : Inbound) : Decoding.events (.head []) (front ++ rest) =
      Decoding.events (.head (payload front)) rest := by
  cases front with
  | nil => exact absurd rfl htext.ne
  | cons item front =>
    obtain ⟨⟨c, brk, rfl⟩, hfront'⟩ := List.forall_mem_cons.1 hfront
    obtain ⟨hc, hunblank⟩ := List.forall_mem_cons.1 htext.unblank
    rw [List.cons_append, Decoding.events, if_neg (by simp), if_neg (by simp [hc])]
    exact events_of_more (by simp) hfront' hunblank htext.cr rest

/-- A header up to its CR. -/
lemma events_of_line {blanks line more : Bytes} (hitems : AlwaysReady items)
    (hpay : payload items = blanks ++ (line ++ more)) (hblanks : ∀ c ∈ blanks, isBlank c = true)
    (hline : HeadText line) : ∃ back, AlwaysReady back ∧ payload back = more ∧
      ∀ rest, Decoding.events (.head []) (items ++ rest) =
        Decoding.events (.head line) (back ++ rest) := by
  obtain ⟨first, items', rfl, hfirst, hitems', rfl, hpay'⟩ := hitems.split hpay
  obtain ⟨second, back, rfl, hsecond, hback, rfl, rfl⟩ := hitems'.split hpay'
  refine ⟨back, hback, rfl, fun rest => ?_⟩
  rw [List.append_assoc, List.append_assoc, events_of_blanks hfirst hblanks,
    events_of_text hsecond hline]

lemma events_of_opens (hitems : AlwaysReady items) (h : Opens (payload items)) (rest : Inbound) :
    Decoding.events (.head []) (items ++ rest) ≠ [] := by
  obtain ⟨blanks, line, behind, hpay, hblanks, hline⟩ := h
  obtain ⟨back, hback, hmore, hevents⟩ := events_of_line hitems hpay hblanks hline
  obtain ⟨brk, back, rfl, hback, hmore⟩ := hback.uncons hmore
  obtain ⟨brk', back, rfl, -, -⟩ := hback.uncons hmore
  rw [hevents, List.cons_append, Decoding.events, if_pos ⟨hline.ne, rfl⟩, List.cons_append,
    Decoding.events, if_pos rfl]
  exact List.cons_ne_nil _ _

lemma events_of_breaks (hitems : AlwaysReady items) (h : Breaks (payload items))
    (rest : Inbound) : Decoding.events (.head []) (items ++ rest) = [] := by
  obtain ⟨blanks, line, behind, hpay, hblanks, hline, hcases⟩ := h
  obtain ⟨back, hback, hmore, hevents⟩ := events_of_line hitems hpay hblanks hline
  rw [hevents]
  rcases hcases with ⟨c, hc, hblank⟩ | ⟨c, more, rfl, hlf⟩
  · obtain ⟨more, rfl⟩ : ∃ more, behind = c :: more := List.head?_eq_some_iff.1 hc
    obtain ⟨brk, back, rfl, -, -⟩ := hback.uncons hmore
    have hcr : c ≠ CR := by
      rintro rfl
      exact absurd hblank (by decide)
    rw [List.cons_append, Decoding.events, if_neg fun h => hcr h.2, if_pos hblank,
      if_neg hline.ne]
  · obtain ⟨brk, back, rfl, hback, hmore⟩ := hback.uncons hmore
    obtain ⟨brk', back, rfl, -, -⟩ := hback.uncons hmore
    rw [List.cons_append, Decoding.events, if_pos ⟨hline.ne, rfl⟩, List.cons_append,
      Decoding.events, if_neg hlf]

/-- What stands in a header that is neither ended nor refused. -/
lemma exists_of_unopened (hopens : ¬ Opens s) (hbreaks : ¬ Breaks s) :
    ∃ blanks line, (∀ c ∈ blanks, isBlank c = true) ∧
      (s = blanks ∨
        HeadText line ∧ (s = blanks ++ (line ++ []) ∨ s = blanks ++ (line ++ [CR]))) := by
  obtain ⟨blanks, t, rfl, hblanks, ht⟩ := exists_run isBlank s
  cases t with
  | nil => exact ⟨blanks, [], hblanks, Or.inl (List.append_nil _)⟩
  | cons c t =>
    obtain ⟨more, behind, rfl, hmore, hbehind⟩ :=
      exists_run (fun c => !isBlank c && c != CR) t
    have hline : HeadText (c :: more) := by
      refine ⟨List.cons_ne_nil _ _, List.forall_mem_cons.2 ⟨ht c rfl, fun d hd => ?_⟩,
        fun hcr => ?_⟩
      · have hd' := hmore d hd
        simp only [Bool.and_eq_true, Bool.not_eq_true'] at hd'
        exact hd'.1
      · have hcr' := hmore CR hcr
        simp at hcr'
    have hs : blanks ++ c :: (more ++ behind) = blanks ++ (c :: more ++ behind) := rfl
    refine ⟨blanks, c :: more, hblanks, Or.inr ⟨hline, ?_⟩⟩
    rw [hs] at hopens hbreaks ⊢
    cases behind with
    | nil => exact Or.inl rfl
    | cons d behind =>
      right
      have hend := hbehind d rfl
      have hunblank : isBlank d = false := by
        by_contra hblank
        exact hbreaks ⟨blanks, c :: more, d :: behind, rfl, hblanks, hline,
          Or.inl ⟨d, rfl, Bool.of_not_eq_false hblank⟩⟩
      obtain rfl : d = CR := by simpa [hunblank] using hend
      cases behind with
      | nil => rfl
      | cons e behind =>
        by_cases hlf : e = LF
        · subst hlf
          exact absurd ⟨blanks, c :: more, behind, rfl, hblanks, hline⟩ hopens
        · exact absurd ⟨blanks, c :: more, CR :: e :: behind, rfl, hblanks, hline,
            Or.inr ⟨e, behind, rfl, hlf⟩⟩ hbreaks

/-- **A stretch that ends inside a header is forgotten.** -/
lemma events_of_unfinished (hitems : AlwaysReady items) (hopens : ¬ Opens (payload items))
    (hbreaks : ¬ Breaks (payload items)) : Decoding.events (.head []) items = [] ∧
      ∀ rest, Decoding.events (.head []) (items ++ .again :: rest) =
        Decoding.events (.head []) rest := by
  obtain ⟨blanks, line, hblanks, hpay | ⟨hline, hpay | hpay⟩⟩ :=
    exists_of_unopened hopens hbreaks
  · rw [← hpay] at hblanks
    refine ⟨?_, fun rest => events_of_blanks hitems hblanks (.again :: rest)⟩
    rw [← List.append_nil items, events_of_blanks hitems hblanks]
    rfl
  · obtain ⟨back, hback, hmore, hevents⟩ := events_of_line hitems hpay hblanks hline
    obtain rfl := hback.eq_nil hmore
    refine ⟨?_, fun rest => hevents (.again :: rest)⟩
    rw [← List.append_nil items, hevents]
    rfl
  · obtain ⟨back, hback, hmore, hevents⟩ := events_of_line hitems hpay hblanks hline
    obtain ⟨brk, back, rfl, hback, hmore⟩ := hback.uncons hmore
    obtain rfl := hback.eq_nil hmore
    have hcr : ∀ rest, Decoding.events (.head line) (.byte CR brk :: rest) =
        Decoding.events (.headLf line) rest := by
      intro rest
      rw [Decoding.events, if_pos ⟨hline.ne, rfl⟩]
    refine ⟨?_, fun rest => (hevents (.again :: rest)).trans (hcr (.again :: rest))⟩
    rw [← List.append_nil items, hevents]
    exact hcr []

/-! ## The stream -/

/-- **The decoder reads no header at all** exactly if no stretch opens before one breaks. -/
lemma events_eq_nil_iff (hitems : Steadfast items) :
    Decoding.events (.head []) items = [] ↔ Unopened (stretches items) := by
  induction hn : items.length using Nat.strongRecOn generalizing items with
  | ind n ih =>
    rcases hitems.first_again with hready | ⟨front, rest, rfl, hfront, hrest⟩
    · rw [stretches_of_ready hready, unopened_cons_iff, and_iff_left (Or.inr unopened_nil)]
      by_cases hopens : Opens (payload items)
      · have hevents := events_of_opens hready hopens []
        rw [List.append_nil] at hevents
        exact iff_of_false hevents (not_not.2 hopens)
      · refine iff_of_true ?_ hopens
        by_cases hbreaks : Breaks (payload items)
        · have hevents := events_of_breaks hready hbreaks []
          rwa [List.append_nil] at hevents
        · exact (events_of_unfinished hready hopens hbreaks).1
    · rw [stretches_cons hfront, unopened_cons_iff]
      by_cases hopens : Opens (payload front)
      · exact iff_of_false (events_of_opens hfront hopens _) fun h => h.1 hopens
      · rw [and_iff_right hopens]
        by_cases hbreaks : Breaks (payload front)
        · exact iff_of_true (events_of_breaks hfront hbreaks _) (Or.inl hbreaks)
        · have hlength : rest.length < n := by
            rw [← hn, List.length_append, List.length_cons]
            omega
          rw [(events_of_unfinished hfront hopens hbreaks).2, ih rest.length hlength hrest rfl,
            or_iff_right hbreaks]

/-- A stream without suspensions is refused as its bytes are. -/
lemma unopened_of_breaks (hitems : AlwaysReady items) (h : Breaks (payload items)) :
    Unopened (stretches items) := by
  have hevents := events_of_breaks hitems h []
  rw [List.append_nil] at hevents
  exact (events_eq_nil_iff hitems.steadfast).1 hevents

/-- A stretch of no bytes is neither. -/
lemma unopened_agains (hfront : Steadfast front) (hpay : payload front = []) :
    Unopened (stretches (front ++ rest)) ↔ Unopened (stretches rest) := by
  induction front with
  | nil => rfl
  | cons item front ih =>
    rcases hfront item List.mem_cons_self with rfl | ⟨c, brk, rfl⟩
    · have hcut := stretches_cons (List.forall_mem_nil _) (front ++ rest)
      have hopens : ¬ Opens [] := by
        rintro ⟨blanks, line, behind, hnil, -⟩
        simp at hnil
      have hbreaks : ¬ Breaks [] := by
        rintro ⟨blanks, line, behind, hnil, -, hline, -⟩
        exact hline.ne (List.append_eq_nil_iff.1 (List.append_eq_nil_iff.1 hnil.symm).2).1
      rw [List.nil_append] at hcut
      rw [List.cons_append, hcut, payload_nil, unopened_cons_iff, and_iff_right hopens,
        or_iff_right hbreaks]
      exact ih hfront.tail hpay
    · cases hpay

end Cld
