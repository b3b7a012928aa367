import Cld.Single.Content

/-!
# What the single connection reports

`process` returns how many bytes it has written, and `SingleConnectionDownload` adds this up to
print a speed.

* `Worker.process_count`: the number is the distance by which the offset has moved, in every call
  that returns.
* `bytes_accounted`: the progress lines and what has been counted since the last of them add up to
  the offset of the worker, and their times to the time that the last one was printed.  Only an
  exception can leave written bytes uncounted.
-/

namespace Cld

open Framework

namespace Worker

variable {w w' : Worker} {event : EpollEvents} {env : Env} {o : Option Outcome} {once : Bool}
  {file file' : File}

/-- The loop counts what it writes. -/
lemma bodyLoop_count (S : ℕ) (s : BodyState) (writes : List FileWrite) :
    (bodyLoop S s writes).1.fileOffset + s.fileReadCount =
      s.fileOffset + (bodyLoop S s writes).1.fileReadCount := by
  induction s, writes using bodyLoop.induct S with
  | case1 s writes buffer inbound h => rw [bodyLoop_again h]
  | case2 s writes e buffer inbound h => rw [bodyLoop_threw h]
  | case3 s writes buffer inbound h hwrite => rw [bodyLoop_noWrite h hwrite]
  | case4 s writes buffer inbound h written hwrite hfin =>
    rw [bodyLoop_write h hwrite, if_pos hfin]
    simp only [BodyState.wrote]
    omega
  | case5 s writes buffer inbound h written hwrite s' hfin hmore ih =>
    rw [bodyLoop_write h hwrite, if_neg hfin, if_pos hmore]
    have hsum : (bodyLoop S (s.wrote buffer inbound written) writes.tail).1.fileOffset +
        ((s.fileReadCount + written : ℕ) : ℤ) = s.fileOffset + written +
          (bodyLoop S (s.wrote buffer inbound written) writes.tail).1.fileReadCount := ih
    omega
  | case6 s writes buffer inbound h written hwrite hfin hmore =>
    rw [bodyLoop_write h hwrite, if_neg hfin, if_neg hmore]
    simp only [BodyState.wrote]
    omega

/-- A call that returns before the body has written nothing. -/
lemma BeforeBody.returned {n : ℕ} (hrun : BeforeBody w event env w' (some (.returned n)) once) :
    n = 0 := by
  have henter : ∀ {v v' : Worker} {stream : Stream} {data : Bytes} {rest : Inbound},
      v.enterBody stream data rest ≠ (v', some (.returned n)) := by
    intro v v' stream data rest henter
    cases enterBody_cases henter
  cases hrun with
  | connecting hrun =>
    cases connecting_cases hrun with
    | again hstate hstream hconnect => rfl
  | sending hconnecting hrun =>
    cases sending_cases hrun with
    | again hstate hstream hsend => rfl
  | receiving hconnecting hsending hrun =>
    cases receiving_cases hrun with
    | kept stream data last rest _ hstate hstream hread =>
      generalize readHead _ _ _ = r at hread
      cases hread with
      | again data last rest => rfl
    | complete stream data rest _ _ hstate hstream hread hentered => exact absurd hentered henter

/-- The count that the block of the body hands on. -/
lemma receivingBody_count {count : ℕ}
    (hrun : w.receivingBody file event once env = (w', file', count, o)) :
    w'.fileOffset = w.fileOffset + count ∧ ∀ n, o = some (.returned n) → n = count := by
  have hleft : ∀ {stream buffer s exit}, Looped w file event once env stream buffer s exit →
      s.fileOffset = w.fileOffset + s.fileReadCount := by
    intro stream buffer s exit hlooped
    have hcount := bodyLoop_count kBufferSize (w.bodyState stream buffer file) env.fileWrites
    rw [hlooped.loop] at hcount
    simpa [bodyState] using hcount
  cases receivingBody_cases hrun with
  | skipped hskip => exact ⟨by simp, fun n hn => by cases hn⟩
  | undefined hstate hnone => exact ⟨by simp, fun n hn => by cases hn⟩
  | ended stream buffer s exit hlooped hexit =>
    refine ⟨hleft hlooped, fun n hn => ?_⟩
    cases exit with
    | again => exact (Outcome.returned.inj (Option.some.inj hn)).symm
    | threw e => cases hn
    | finished => exact absurd rfl hexit.1
    | idle => exact absurd rfl hexit.2
  | idle stream buffer s hlooped => exact ⟨hleft hlooped, fun n hn => by cases hn⟩
  | finished stream buffer s hlooped => exact ⟨hleft hlooped, fun n hn => by cases hn⟩

/-- **What `process` returns** is how far it has moved the offset. -/
lemma process_count {n : ℕ} (h : w.WF)
    (hprocess : w.process file event env = (.returned n, w', file')) :
    w'.fileOffset = w.fileOffset + n := by
  rcases process_cases hprocess with ⟨once, hbefore, -⟩ | ⟨w₁, once, hbefore, hfrom⟩
  · rw [(hbefore.quiet h).1.fileOffset, hbefore.returned]
    simp
  · rw [← (hbefore.quiet h).1.fileOffset]
    cases hfrom with
    | body hrun =>
      obtain ⟨hoffset, hreturned⟩ := receivingBody_count hrun
      rw [hoffset, hreturned n rfl]
    | @stopping w₂ _ _ count o _ hbody hrun ho =>
      obtain ⟨hoffset, -⟩ := receivingBody_count hbody
      have hcount : n = count := by
        cases o with
        | none => exact Outcome.returned.inj ho
        | some o =>
          obtain rfl : Outcome.returned n = o := ho
          cases stopping_cases hrun
      rw [(stopping_keeps hrun).1, hoffset, hcount]

end Worker

namespace Single

variable {s s' : Single} {label : SingleLabel} {labels : List SingleLabel} {request : Request}
  {stream : Stream} {now : ℤ}

/-- The bytes that have been reported or counted. -/
def counted (s : Single) : ℤ := (s.reports.map Prod.fst).sum + s.lastDownloaded

/-- The books of the loop, which has started at the time `now`. -/
structure Books (now : ℤ) (s : Single) : Prop where
  inv : s.Inv
  le_offset : s.counted ≤ s.worker.fileOffset
  eq_offset : (∀ fault, s.pc ≠ .failed fault) → s.counted = s.worker.fileOffset
  times : (s.reports.map Prod.snd).sum = s.lastTime - now
  spaced : ∀ report ∈ s.reports, 250 ≤ report.2

/-- A progress line moves what was counted over to the reports. -/
lemma tick_books (s : Single) (time : ℤ) : (s.tick time).counted = s.counted ∧
    ((s.tick time).reports.map Prod.snd).sum - (s.tick time).lastTime =
      (s.reports.map Prod.snd).sum - s.lastTime ∧
    ∀ report ∈ (s.tick time).reports, report ∈ s.reports ∨ 250 ≤ report.2 := by
  unfold tick
  split_ifs with hdue
  · refine ⟨?_, ?_, fun report hreport => ?_⟩
    · simp only [counted, List.map_cons, List.sum_cons]
      push_cast
      omega
    · simp only [List.map_cons, List.sum_cons]
      omega
    · rcases List.mem_cons.1 hreport with rfl | hold
      · exact Or.inr hdue
      · exact Or.inl hold
  · exact ⟨rfl, rfl, fun report hreport => Or.inl hreport⟩

lemma Books.step (h : Books now s) (hstep : s.step label = some s') : Books now s' := by
  have hinv := h.inv.step hstep
  cases step_cases hstep with
  | waited events hpc hreportable =>
    have heq := h.eq_offset (by rw [hpc]; exact fun _ => SinglePc.noConfusion)
    exact ⟨hinv, h.le_offset, fun _ => heq, h.times, h.spaced⟩
  | returned event rest env count w file hpc hprocess =>
    have heq := h.eq_offset (by rw [hpc]; exact fun _ => SinglePc.noConfusion)
    have hmoved := Worker.process_count h.inv.wf hprocess
    have hcounted : (s.reports.map Prod.fst).sum + ((s.lastDownloaded + count : ℕ) : ℤ) =
        w.fileOffset := by
      rw [hmoved, ← heq, counted]
      push_cast
      ring
    exact ⟨hinv, hcounted.le, fun _ => hcounted, h.times, h.spaced⟩
  | failed event rest env outcome fault w file hpc hprocess hfault =>
    obtain ⟨-, -, hproc⟩ := h.inv.processed hpc hprocess
    exact ⟨hinv, h.le_offset.trans hproc.fileOffset_le, fun hne => absurd rfl (hne fault),
      h.times, h.spaced⟩
  | left time hpc hstate =>
    have heq := h.eq_offset (by rw [hpc]; exact fun _ => SinglePc.noConfusion)
    exact ⟨hinv, h.le_offset, fun _ => heq, h.times, h.spaced⟩
  | ticked time hpc hstate =>
    have heq := h.eq_offset (by rw [hpc]; exact fun _ => SinglePc.noConfusion)
    obtain ⟨hcounted, htimes, hspaced⟩ := s.tick_books time
    obtain ⟨hworker, -, -⟩ := s.tick_keeps time
    refine ⟨hinv, ?_, fun _ => ?_, ?_, fun report hreport => ?_⟩
    · rw [hcounted, hworker]
      exact h.le_offset
    · rw [hcounted, hworker]
      exact heq
    · have hsum := h.times
      omega
    · exact (hspaced report hreport).elim (h.spaced report) id

end Single

end Cld
