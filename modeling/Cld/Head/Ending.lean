import Cld.Body.Loop
import Cld.Head.Segmentation

/-!
# Where a head ends

The reader of the head takes the bytes one by one and stops behind the empty line.

* `lastOfHead` is the last read of the stream that it attempts.
* `EndsHead` says that a head ends among some bytes, and where: at the first CR behind a LF, which
  a LF has to follow.  `readHead_complete_iff` is the reader against this description.
-/

namespace Cld

variable {items rest : Inbound} {bs data head : Bytes} {last : Byte}

/-- The last read of the loop of the head. -/
def lastOfHead (last : Byte) : Inbound → ReadResult
  | [] => .again
  | .again :: _ => .again
  | .fail e :: _ => .threw e
  | .eof :: _ => .ok []
  | .byte c _ :: rest =>
    if last = LF ∧ c = CR then (Inbound.read 1 rest).1 else lastOfHead c rest

/-- A head ends among the bytes: the first CR behind a LF is followed by a LF. -/
structure EndsHead (last : Byte) (bs head : Bytes) : Prop where
  isPrefix : head ++ [CR, LF] <+: bs
  behind : [LF] <:+ last :: head
  first : ¬ [LF, CR] <:+: last :: head

/-- What the way out of the loop says about its last read. -/
def HeadRead.EndsWith : HeadRead → ReadResult → Prop
  | .complete _ _, r => r = .ok [LF]
  | .again _ _ _, r => r = .again
  | .ended _ _ _, r => r = .ok []
  | .noLf _ _ _, _ => True
  | .threw _ _ _ _, _ => True

lemma endsWith_lastOfHead (data : Bytes) (last : Byte) (items : Inbound) :
    (readHead data last items).EndsWith (lastOfHead last items) := by
  induction items generalizing data last with
  | nil => exact rfl
  | cons item items ih =>
    cases item with
    | again => exact rfl
    | eof => exact rfl
    | fail e => exact trivial
    | byte c brk =>
      rw [readHead, lastOfHead]
      split
      · rcases hread : Inbound.read 1 items with ⟨r, rest⟩
        cases r with
        | again => exact rfl
        | threw e => exact trivial
        | ok bs =>
          simp only
          split
          · next hlf => exact congrArg _ hlf
          · exact trivial
      · exact ih (data ++ [c]) c

/-- The end of a head behind one more byte. -/
lemma endsHead_cons {c : Byte} (hpush : ¬ (last = LF ∧ c = CR)) :
    EndsHead last (c :: bs) (c :: head) ↔ EndsHead c bs head := by
  have hhead : c :: head ++ [CR, LF] <+: c :: bs ↔ head ++ [CR, LF] <+: bs :=
    List.prefix_cons_inj c
  have hfirst : [LF, CR] <:+: last :: c :: head ↔ [LF, CR] <:+: c :: head := by
    rw [List.infix_cons_iff, or_iff_right]
    intro hpre
    obtain ⟨hlast, hpre'⟩ := List.cons_prefix_cons.1 hpre
    exact hpush ⟨hlast.symm, (List.cons_prefix_cons.1 hpre').1.symm⟩
  have hbehind : [LF] <:+ last :: c :: head ↔ [LF] <:+ c :: head := by
    rw [List.suffix_cons_iff, or_iff_right]
    intro heq
    cases heq
  constructor
  · intro h
    exact ⟨hhead.1 h.isPrefix, hbehind.1 h.behind, mt hfirst.2 h.first⟩
  · intro h
    exact ⟨hhead.2 h.isPrefix, hbehind.2 h.behind, mt hfirst.1 h.first⟩

/-- It is not behind the first byte unless that is the CR. -/
lemma EndsHead.exists_cons {c : Byte} (h : EndsHead last (c :: bs) head)
    (hpush : ¬ (last = LF ∧ c = CR)) : ∃ head', head = c :: head' ∧ EndsHead c bs head' := by
  cases head with
  | nil =>
    have hlast : LF = last := (List.cons.inj (h.behind.eq_of_length rfl)).1
    have hc : CR = c := (List.cons_prefix_cons.1 h.isPrefix).1
    exact absurd ⟨hlast.symm, hc.symm⟩ hpush
  | cons d head' =>
    obtain rfl : d = c := (List.cons_prefix_cons.1 h.isPrefix).1
    exact ⟨head', rfl, (endsHead_cons hpush).1 h⟩

/-- At the CR only the LF is missing. -/
lemma endsHead_cr : EndsHead LF (CR :: bs) head ↔ head = [] ∧ [LF] <+: bs := by
  constructor
  · intro h
    cases head with
    | nil => exact ⟨rfl, (List.cons_prefix_cons.1 h.isPrefix).2⟩
    | cons d head' =>
      obtain rfl : d = CR := (List.cons_prefix_cons.1 h.isPrefix).1
      exact absurd ⟨[], head', rfl⟩ h.first
  · rintro ⟨rfl, hlf⟩
    refine ⟨?_, List.suffix_refl _, by decide⟩
    exact List.cons_prefix_cons.2 ⟨rfl, hlf⟩

lemma not_endsHead_nil : ¬ EndsHead last [] head := by
  intro h
  have hlen := h.isPrefix.length_le
  simp at hlen

/-- Without a byte there is no head. -/
lemma not_complete_of_available {data' : Bytes} (hbytes : available items = []) :
    readHead data last items ≠ .complete data' rest := by
  intro h
  rcases items with _ | ⟨⟨b, brk⟩ | _ | _ | e, items⟩
  · cases h
  · cases hbytes
  · cases h
  · cases h
  · cases h

lemma complete_iff_of_not_available {data' : Bytes} (hbytes : available items = []) :
    (∃ rest, readHead data last items = .complete data' rest) ↔
      ∃ head, EndsHead last (available items) head ∧ data' = data ++ head ++ [CR, LF] := by
  rw [hbytes]
  refine iff_of_false (fun ⟨rest, h⟩ => not_complete_of_available hbytes h) ?_
  rintro ⟨head, hends, -⟩
  exact not_endsHead_nil hends

/-- Behind the CR the loop ends, with a head if a LF comes next. -/
lemma readHead_cr_complete_iff {brk : Bool} {data' : Bytes} :
    (∃ rest, readHead data LF (.byte CR brk :: items) = .complete data' rest) ↔
      [LF] <+: available items ∧ data' = data ++ [CR, LF] := by
  rw [readHead, if_pos ⟨rfl, rfl⟩]
  rcases items with _ | ⟨⟨b, brk'⟩ | _ | _ | e, items⟩
  · simp [Inbound.read, available]
  · simp only [Inbound.read_one_byte]
    by_cases hlf : b = LF
    · simp [hlf, available, List.cons_prefix_cons, eq_comm]
    · have hne : ¬ LF = b := fun h => hlf h.symm
      simp [hlf, hne, available, List.cons_prefix_cons]
  · simp [Inbound.read, available]
  · simp [Inbound.read, available]
  · simp [Inbound.read, available]

/-- **When the loop ends with a head**, in the bytes that are there. -/
lemma readHead_complete_iff {data' : Bytes} :
    (∃ rest, readHead data last items = .complete data' rest) ↔
      ∃ head, EndsHead last (available items) head ∧ data' = data ++ head ++ [CR, LF] := by
  induction items generalizing data last with
  | nil => exact complete_iff_of_not_available rfl
  | cons item items ih =>
    rcases item with ⟨c, brk⟩ | _ | _ | e
    · by_cases hpush : last = LF ∧ c = CR
      · obtain ⟨rfl, rfl⟩ := hpush
        rw [readHead_cr_complete_iff]
        simp only [available, endsHead_cr]
        constructor
        · rintro ⟨hlf, rfl⟩
          exact ⟨[], ⟨rfl, hlf⟩, by rw [List.append_nil]⟩
        · rintro ⟨head, ⟨rfl, hlf⟩, rfl⟩
          exact ⟨hlf, by rw [List.append_nil]⟩
      · rw [readHead_byte brk hpush, ih]
        constructor
        · rintro ⟨head, hends, rfl⟩
          exact ⟨c :: head, (endsHead_cons hpush).2 hends, by simp⟩
        · rintro ⟨head, hends, rfl⟩
          obtain ⟨head', rfl, hends'⟩ := hends.exists_cons hpush
          exact ⟨head', hends', by simp⟩
    · exact complete_iff_of_not_available rfl
    · exact complete_iff_of_not_available rfl
    · exact complete_iff_of_not_available rfl

end Cld
