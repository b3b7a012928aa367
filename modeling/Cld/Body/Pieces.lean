import Cld.Body.Loop

/-!
# Bodies in pieces

A body without length and one of known length are read in pieces, each of which is written before
the next is read.

* `pieces` is what reads of a given size deliver of a stream, up to the first that delivers nothing.
  A read that asks for less and is not filled delivers the same piece (`read_of_unfilled`).
* `Stalls` says that a write takes nothing of a piece.
* `stalls_of_read` is what the first write says about it, and what it leaves to the others.
-/

namespace Cld

variable {S n : ℕ} {items rest : Inbound} {bs : Bytes}

/-- A shorter read takes the beginning of what a longer one takes. -/
lemma takeRun_take {m n : ℕ} (hle : m ≤ n) (items : Inbound) :
    (takeRun m items).1 = (takeRun n items).1.take m := by
  induction m generalizing n items with
  | zero => rfl
  | succ m ih =>
    obtain ⟨k, rfl⟩ := Nat.exists_eq_add_of_le hle
    rw [Nat.add_right_comm]
    rcases items with _ | ⟨⟨b, brk⟩ | _ | _ | e, items⟩
    · rfl
    · cases brk with
      | true => simp [takeRun]
      | false => simp [takeRun, ih (Nat.le_add_right m k)]
    · rfl
    · rfl
    · rfl

/-- Where the shorter read has stopped by itself, they are the same. -/
lemma takeRun_of_lt {m n : ℕ} (hle : m ≤ n) (hlt : (takeRun m items).1.length < m) :
    takeRun n items = takeRun m items := by
  induction m generalizing n items with
  | zero => simp at hlt
  | succ m ih =>
    obtain ⟨k, rfl⟩ := Nat.exists_eq_add_of_le hle
    rw [Nat.add_right_comm]
    rcases items with _ | ⟨⟨b, brk⟩ | _ | _ | e, items⟩
    · rfl
    · cases brk with
      | true => simp [takeRun]
      | false =>
        have hlt' : (takeRun m items).1.length < m := by simpa [takeRun] using hlt
        simp [takeRun, ih (Nat.le_add_right m k) hlt']
    · rfl
    · rfl
    · rfl

/-- A read that is not filled is the read of any larger size. -/
lemma read_of_unfilled {m : ℕ} (h : items.read (min m S) = (.ok bs, rest)) (hlt : bs.length < m)
    (hS : S ≠ 0) : items.read S = (.ok bs, rest) := by
  have hm : min m S ≠ 0 := by omega
  rcases items with _ | ⟨⟨b, brk⟩ | _ | _ | e, items⟩
  · simp [Inbound.read, hm] at h
  · simp only [Inbound.read, hm, if_false, Prod.mk.injEq, ReadResult.ok.injEq] at h
    obtain ⟨rfl, rfl⟩ := h
    simp only [Inbound.read, hS, if_false]
    by_cases hle : m ≤ S
    · rw [min_eq_left hle] at hlt ⊢
      rw [takeRun_of_lt hle hlt]
    · rw [min_eq_right (Nat.le_of_not_le hle)]
  · simp [Inbound.read, hm] at h
  · simpa [Inbound.read, hm, hS] using h
  · simp [Inbound.read, hm] at h

/-- A read that is filled is no longer than the read of a larger size. -/
lemma length_le_of_read {m : ℕ} {bs' : Bytes} {rest' : Inbound}
    (h : items.read m = (.ok bs, rest)) (h' : items.read n = (.ok bs', rest')) (hle : m ≤ n) :
    bs.length ≤ bs'.length := by
  by_cases hm : m = 0
  · simp only [Inbound.read, hm, if_true, Prod.mk.injEq, ReadResult.ok.injEq] at h
    rw [← h.1]
    exact Nat.zero_le _
  · have hn : n ≠ 0 := by omega
    rcases items with _ | ⟨⟨b, brk⟩ | _ | _ | e, items⟩
    · simp [Inbound.read, hm] at h
    · simp only [Inbound.read, hm, hn, if_false, Prod.mk.injEq, ReadResult.ok.injEq] at h h'
      rw [← h.1, ← h'.1, takeRun_take hle]
      exact List.length_take_le' _ _
    · simp [Inbound.read, hm] at h
    · simp only [Inbound.read, hm, if_false, Prod.mk.injEq, ReadResult.ok.injEq] at h
      rw [← h.1]
      exact Nat.zero_le _
    · simp [Inbound.read, hm] at h

/-- What reads of `S` bytes deliver, up to the first that delivers nothing. -/
def pieces (S : ℕ) (items : Inbound) : List Bytes :=
  match _hread : items.read S with
  | (.ok bs, rest) => if bs = [] then [] else bs :: pieces S rest
  | (.again, _) => []
  | (.threw _, _) => []
termination_by items.length
decreasing_by
  have hsum := (Inbound.read_ok _hread).2.2.1
  have hpos := List.length_pos_iff.2 ‹bs ≠ []›
  omega

lemma pieces_of_read (h : items.read S = (.ok bs, rest)) (hne : bs ≠ []) :
    pieces S items = bs :: pieces S rest := by
  rw [pieces]
  split
  · next bs' rest' hread =>
    obtain ⟨rfl, rfl⟩ : bs = bs' ∧ rest = rest' := by simpa using h.symm.trans hread
    rw [if_neg hne]
  · simp_all
  · simp_all

lemma pieces_of_available (h : available items = []) : pieces S items = [] := by
  rw [pieces]
  split
  · next bs rest hread =>
    have hview := view_available hread
    rw [h] at hview
    rw [if_pos (List.append_eq_nil_iff.1 hview.symm).1]
  · rfl
  · rfl

/-- The body is not at its end behind so many bytes. -/
def BufferKind.Unfinished (kind : BufferKind) (count : ℕ) : Prop :=
  match kind with
  | .noLength finished => finished = false
  | .fixLength remain => count < remain
  | .chunked _ => False

/-- A write takes nothing of a piece that does not end the body, and no write before has thrown. -/
def Stalls (S : ℕ) (kind : BufferKind) (items : Inbound) (writes : List FileWrite) : Prop :=
  ∃ i < (pieces S items).length,
    kind.Unfinished ((pieces S items).take (i + 1)).flatten.length ∧
      writes[i]? = some (.short 0) ∧ ∀ j < i, writes[j]? ≠ some .threw

/-- The rest of the body behind so many bytes. -/
def BufferKind.behind (kind : BufferKind) (count : ℕ) : BufferKind :=
  match kind with
  | .noLength finished => .noLength finished
  | .fixLength remain => .fixLength (remain - count)
  | .chunked chunkRemain => .chunked chunkRemain

lemma unfinished_add {kind : BufferKind} {m : ℕ} :
    kind.Unfinished (m + n) ↔ (kind.behind m).Unfinished n := by
  cases kind with
  | noLength finished => exact Iff.rfl
  | fixLength remain =>
    simp only [BufferKind.Unfinished, BufferKind.behind]
    omega
  | chunked chunkRemain => exact Iff.rfl

lemma BufferKind.Unfinished.mono {kind : BufferKind} {m : ℕ} (h : kind.Unfinished n)
    (hle : m ≤ n) : kind.Unfinished m := by
  cases kind with
  | noLength finished => exact h
  | fixLength remain => exact lt_of_le_of_lt hle h
  | chunked chunkRemain => exact h

lemma not_stalls_of_available {kind : BufferKind} {writes : List FileWrite}
    (h : available items = []) : ¬ Stalls S kind items writes := by
  rintro ⟨i, hi, -⟩
  rw [pieces_of_available h] at hi
  exact absurd hi (Nat.not_lt_zero i)

/-- The first write decides, or leaves it to the others. -/
lemma stalls_of_read {kind : BufferKind} {writes : List FileWrite}
    (h : items.read S = (.ok bs, rest)) (hne : bs ≠ []) :
    Stalls S kind items writes ↔
      (kind.Unfinished bs.length ∧ writes.head? = some (.short 0)) ∨
        (writes.head? ≠ some .threw ∧ Stalls S (kind.behind bs.length) rest writes.tail) := by
  unfold Stalls
  rw [pieces_of_read h hne]
  constructor
  · rintro ⟨i, hi, hopen, hzero, hbefore⟩
    cases i with
    | zero => exact Or.inl ⟨by simpa using hopen, by rwa [List.head?_eq_getElem?]⟩
    | succ i =>
      refine Or.inr ⟨?_, i, ?_, ?_, ?_, ?_⟩
      · rw [List.head?_eq_getElem?]
        exact hbefore 0 (Nat.succ_pos i)
      · exact Nat.lt_of_succ_lt_succ hi
      · rw [List.take_succ_cons, List.flatten_cons, List.length_append] at hopen
        exact unfinished_add.1 hopen
      · rwa [List.getElem?_tail]
      · intro j hj
        rw [List.getElem?_tail]
        exact hbefore (j + 1) (Nat.succ_lt_succ hj)
  · rintro (⟨hopen, hzero⟩ | ⟨hfirst, i, hi, hopen, hzero, hbefore⟩)
    · refine ⟨0, Nat.succ_pos _, by simpa using hopen, by rwa [← List.head?_eq_getElem?], ?_⟩
      exact fun j hj => absurd hj (Nat.not_lt_zero j)
    · refine ⟨i + 1, Nat.succ_lt_succ hi, ?_, ?_, ?_⟩
      · rw [List.take_succ_cons, List.flatten_cons, List.length_append]
        exact unfinished_add.2 hopen
      · rwa [List.getElem?_tail] at hzero
      · intro j hj
        cases j with
        | zero => rwa [← List.head?_eq_getElem?]
        | succ j =>
          rw [← List.getElem?_tail]
          exact hbefore j (Nat.lt_of_succ_lt_succ hj)

end Cld
