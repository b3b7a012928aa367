import Cld.Model.Transfer
import Cld.Transport.Interrupts

/-!
# Moving a number of bytes

`ReadN` and `WriteN` against each other.  However the bytes are cut into segments, and wherever the
calls are interrupted, what one end has written is what the other end reads.

* `Filled` is what holds at every exit of `ReadN`, `Sent` at every exit of `WriteN`.
* `readN_writeN` is the round trip.
-/

namespace Cld

/-- The bytes that a socket will deliver. -/
def deliverable (items : List SocketItem) : Bytes := payload (uninterrupted items)

lemma sysRead_deliverable {n : ℕ} {items rest : List SocketItem} {bs : Bytes}
    (h : sysRead n items = (.count bs, rest)) :
    deliverable items = bs ++ deliverable rest ∧ bs.length ≤ n := by
  have hread := Inbound.read_ok (sysRead_uninterrupted h SysRead.noConfusion)
  exact ⟨hread.1, hread.2.1⟩

/-- A call that fails takes no byte. -/
lemma sysRead_unmoved {n : ℕ} {items rest : List SocketItem} {r : SysRead}
    (h : sysRead n items = (r, rest)) (hr : ∀ bs, r ≠ .count bs) :
    deliverable items = deliverable rest := by
  cases r with
  | count bs => exact absurd rfl (hr bs)
  | interrupted =>
    rw [(sysRead_interrupted h).2]
    rfl
  | wouldBlock =>
    have hread := sysRead_uninterrupted h SysRead.noConfusion
    exact (Inbound.payload_of_read hread fun _ => ReadResult.noConfusion).symm
  | failed =>
    have hread := sysRead_uninterrupted h SysRead.noConfusion
    exact (Inbound.payload_of_read hread fun _ => ReadResult.noConfusion).symm

/-- The end of the stream. -/
lemma sysRead_end {n : ℕ} {items rest : List SocketItem} (hn : n ≠ 0)
    (h : sysRead n items = (.count [], rest)) :
    deliverable items = [] ∧ deliverable rest = [] := by
  have hread := Inbound.read_ok (sysRead_uninterrupted h SysRead.noConfusion)
  obtain ⟨later, hend, hsame⟩ := hread.2.2.2 hn rfl
  unfold deliverable
  rw [hsame, hend]
  exact ⟨rfl, rfl⟩

lemma socketRun_suffix (n : ℕ) (items : List SocketItem) : (socketRun n items).2 <:+ items := by
  induction n generalizing items with
  | zero => exact List.suffix_rfl
  | succ n ih =>
    cases items with
    | nil => exact List.suffix_rfl
    | cons item rest =>
      cases item with
      | byte b brk =>
        by_cases hbrk : brk = true
        · simp [socketRun, hbrk, List.suffix_cons]
        · simp only [socketRun, hbrk, Bool.false_eq_true, if_false]
          exact (ih rest).trans (List.suffix_cons _ _)
      | eof => exact List.suffix_rfl
      | interrupted => exact List.suffix_rfl
      | wouldBlock => exact List.suffix_rfl
      | failed => exact List.suffix_rfl

lemma sysRead_suffix {n : ℕ} {items rest : List SocketItem} {bs : Bytes}
    (h : sysRead n items = (.count bs, rest)) : rest <:+ items := by
  unfold sysRead at h
  split_ifs at h
  · cases h
    exact List.suffix_rfl
  · split at h <;> cases h
    · exact List.suffix_rfl
    · exact socketRun_suffix _ _

/-- No call fails, but for a signal. -/
def Quiet (items : List SocketItem) : Prop :=
  ∀ item ∈ items, item ≠ .wouldBlock ∧ item ≠ .failed

instance (items : List SocketItem) : Decidable (Quiet items) :=
  inferInstanceAs (Decidable (∀ item ∈ items, item ≠ .wouldBlock ∧ item ≠ .failed))

lemma Quiet.suffix {items rest : List SocketItem} (h : Quiet items) (hsuffix : rest <:+ items) :
    Quiet rest := fun item hitem => h item (hsuffix.mem hitem)

lemma Quiet.sysRead {n : ℕ} {items rest : List SocketItem} {r : SysRead} (hquiet : Quiet items)
    (hmore : deliverable items ≠ []) (h : Cld.sysRead n items = (r, rest)) :
    r ≠ .wouldBlock ∧ r ≠ .failed := by
  unfold Cld.sysRead at h
  split_ifs at h
  · cases h
    exact ⟨SysRead.noConfusion, SysRead.noConfusion⟩
  · split at h <;> cases h
    · exact absurd rfl hmore
    · exact absurd rfl (hquiet _ List.mem_cons_self).1
    · exact ⟨SysRead.noConfusion, SysRead.noConfusion⟩
    · exact absurd rfl (hquiet _ List.mem_cons_self).2
    · exact ⟨SysRead.noConfusion, SysRead.noConfusion⟩
    · exact ⟨SysRead.noConfusion, SysRead.noConfusion⟩

/-! ## `WriteN` -/

/-- What has been sent of `data`: all of it when `WriteN` returns, and not all when it throws. -/
inductive Sent (data : Bytes) : CountWrite → Prop
  | returned (unused : List SocketWrite) : Sent data (.returned data unused)
  | threw (sent unsent : Bytes) (unused : List SocketWrite) (hdata : sent ++ unsent = data)
      (hunsent : unsent ≠ []) : Sent data (.threw sent unused)

lemma writeNLoop_sent (sent unsent : Bytes) (writes : List SocketWrite) :
    Sent (sent ++ unsent) (writeNLoop sent unsent writes) := by
  induction writes generalizing sent unsent with
  | nil =>
    unfold writeNLoop
    split
    · next hleft => exact .threw _ _ _ rfl (List.ne_nil_of_length_pos hleft)
    · next hdone =>
      obtain rfl : unsent = [] := List.eq_nil_of_length_eq_zero (by omega)
      rw [List.append_nil]
      exact .returned _
  | cons write writes ih =>
    unfold writeNLoop
    split
    · next hleft =>
      have hthrew : Sent (sent ++ unsent) (.threw sent writes) :=
        .threw _ _ _ rfl (List.ne_nil_of_length_pos hleft)
      cases write with
      | interrupted => exact ih sent unsent
      | wouldBlock => exact hthrew
      | failed => exact hthrew
      | accepts n =>
        simp only
        split
        · exact hthrew
        · have hnext := ih (sent ++ unsent.take (min n unsent.length))
            (unsent.drop (min n unsent.length))
          rwa [List.append_assoc, List.take_append_drop] at hnext
    · next hdone =>
      obtain rfl : unsent = [] := List.eq_nil_of_length_eq_zero (by omega)
      rw [List.append_nil]
      exact .returned _

/-- **`WriteN`** returns when all has been sent, in order and once. -/
lemma writeN_sent (data : Bytes) (writes : List SocketWrite) : Sent data (WriteN data writes) :=
  writeNLoop_sent [] data writes

/-! ## `ReadN` -/

/-- What has been read, and what is left: `count` bytes, or all there are, when `ReadN` returns, and
fewer when it throws. -/
inductive Filled (count : ℕ) (bytes : Bytes) : CountRead → Prop
  | returned (buf : Bytes) (unread : List SocketItem) (hbytes : bytes = buf ++ deliverable unread)
      (hcount : buf.length = count ∨ (buf.length < count ∧ deliverable unread = [])) :
      Filled count bytes (.returned buf.length buf unread)
  | threw (buf : Bytes) (unread : List SocketItem) (hbytes : bytes = buf ++ deliverable unread)
      (hcount : buf.length < count) : Filled count bytes (.threw buf unread)

lemma readNLoop_filled {count left : ℕ} {buf : Bytes} {items : List SocketItem}
    (hcount : buf.length + left = count) :
    Filled count (buf ++ deliverable items) (readNLoop count left buf items) := by
  fun_induction readNLoop count left buf items with
  | case1 left buf items hleft rest h ih =>
    rw [(sysRead_interrupted h).2]
    exact ih hcount
  | case2 left buf items hleft rest h =>
    rw [sysRead_unmoved h fun _ => SysRead.noConfusion]
    exact .threw _ _ rfl (by omega)
  | case3 left buf items hleft rest h =>
    rw [sysRead_unmoved h fun _ => SysRead.noConfusion]
    exact .threw _ _ rfl (by omega)
  | case4 left buf items hleft bs rest h hbs =>
    obtain ⟨hitems, hrest⟩ := sysRead_end hleft.ne' (List.eq_nil_of_length_eq_zero hbs ▸ h)
    have hvalue : count - left = buf.length := by omega
    rw [hvalue]
    exact .returned _ _ (by rw [hitems, hrest]) (Or.inr ⟨by omega, hrest⟩)
  | case5 left buf items hleft bs rest h hbs ih =>
    obtain ⟨hbytes, hless⟩ := sysRead_deliverable h
    rw [hbytes, ← List.append_assoc]
    refine ih ?_
    rw [List.length_append]
    omega
  | case6 left buf items hleft =>
    have hvalue : count - left = buf.length := by omega
    rw [hvalue]
    exact .returned _ _ rfl (Or.inl (by omega))

/-- **`ReadN`** loses no byte, and returns with `count` of them or at the end of the stream. -/
lemma readN_filled (count : ℕ) (items : List SocketItem) :
    Filled count (deliverable items) (ReadN count items) :=
  @readNLoop_filled count count [] items (Nat.zero_add count)

/-- Where enough is to come and no call fails, `ReadN` does not throw. -/
lemma readNLoop_ne_threw {count left : ℕ} {buf buf' : Bytes} {items unread : List SocketItem}
    (hquiet : Quiet items) (hmore : left ≤ (deliverable items).length) :
    readNLoop count left buf items ≠ .threw buf' unread := by
  have hsome : ∀ {n : ℕ} {items : List SocketItem}, n > 0 → n ≤ (deliverable items).length →
      deliverable items ≠ [] := by
    intro n items hn hmore
    exact List.ne_nil_of_length_pos (hn.trans_le hmore)
  fun_induction readNLoop count left buf items with
  | case1 left buf items hleft rest h ih =>
    rw [(sysRead_interrupted h).2] at hquiet hmore
    exact ih (hquiet.suffix (List.suffix_cons _ _)) hmore
  | case2 left buf items hleft rest h =>
    exact absurd rfl (hquiet.sysRead (hsome hleft hmore) h).1
  | case3 left buf items hleft rest h =>
    exact absurd rfl (hquiet.sysRead (hsome hleft hmore) h).2
  | case4 left buf items hleft bs rest h hbs => exact CountRead.noConfusion
  | case5 left buf items hleft bs rest h hbs ih =>
    have hlength := congrArg List.length (sysRead_deliverable h).1
    rw [List.length_append] at hlength
    exact ih (hquiet.suffix (sysRead_suffix h)) (by omega)
  | case6 left buf items hleft => exact CountRead.noConfusion

/-! ## The round trip -/

/-- **What `WriteN` has sent `ReadN` reads**, however the descriptor cuts it into segments, and
wherever signals interrupt the one or the other; what comes behind it is left for the next read. -/
theorem readN_writeN {data sent later : Bytes} {writes unused : List SocketWrite}
    {items : List SocketItem} (hwrite : WriteN data writes = .returned sent unused)
    (hcarried : deliverable items = sent ++ later) (hquiet : Quiet items) :
    ∃ unread, ReadN data.length items = .returned data.length data unread ∧
      deliverable unread = later := by
  obtain rfl : sent = data := by
    have hsent := writeN_sent data writes
    rw [hwrite] at hsent
    cases hsent
    rfl
  have hmore : sent.length ≤ (deliverable items).length := by
    rw [hcarried, List.length_append]
    exact Nat.le_add_right _ _
  have hfilled := readN_filled sent.length items
  rcases hread : ReadN sent.length items with ⟨value, buf, unread⟩ | ⟨buf, unread⟩
  · rw [hread] at hfilled
    cases hfilled with
    | returned _ _ hbytes hcount =>
      have hall : buf.length = sent.length := by
        rcases hcount with hcount | ⟨hless, hend⟩
        · exact hcount
        · rw [hbytes, hend, List.append_nil] at hmore
          omega
      obtain ⟨rfl, rfl⟩ := List.append_inj (hbytes.symm.trans hcarried) hall
      exact ⟨unread, by rw [hall], rfl⟩
  · exact absurd hread (readNLoop_ne_threw hquiet hmore)

/-- Three bytes in two pieces and three. -/
theorem readN_writeN_three : ∃ unread,
    ReadN 3 [.byte 1 true, .interrupted, .byte 2 true, .byte 3 false, .byte 4 false] =
        .returned 3 [1, 2, 3] unread ∧
      deliverable unread = [4] :=
  readN_writeN (show WriteN [1, 2, 3] [.accepts 1, .interrupted, .accepts 7] = _ by rfl) (by decide)
    (by decide)

end Cld
