import Cld.Body.Loop
import Cld.Head.Segmentation

/-!
# From the head to the body

How a worker gets into `ReceivingBody`.  `Awaits w r` says that the head of the worker `w`
will come to `r`, wherever in connecting, sending and receiving it is; `Entered w r` that it
has come to `r` and that the body behind it is next.  `process_awaits`: a call of `process`
that returns leads from the one to the same or to the other, unless it stops the worker.
-/

namespace Cld.Worker

/-- The worker waits for its head or for the rest of it, which comes to `r`. -/
structure Awaits (w : Worker) (r : HeadRead) : Prop where
  live : w.state ≠ .stopped
  head : w.state ≠ .receivingBody
  stream : ∃ stream, w.stream = some stream ∧
    resumeHead w.responseData w.lastChar stream.inbound = r

/-- The worker has received its head, and its buffer is new. -/
structure Entered (w : Worker) (r : HeadRead) : Prop where
  state : w.state = .receivingBody
  response : ∃ data rest response buffer sent, r = .complete data rest ∧
    Response.parse data = some (.ok response) ∧ CreateBuffer response = .ok buffer ∧
    w.buffer = some buffer ∧ w.stream = some ⟨rest, sent⟩

variable {w w' : Worker} {r : HeadRead} {event : EpollEvents} {env : Env}
  {o : Option Outcome} {once : Bool}

lemma connecting_awaits (h : w.Awaits r) (hrun : w.connecting event env = (w', o)) :
    w'.state = .stopped ∨ w'.Awaits r := by
  obtain ⟨stream, hstream, hread⟩ := h.stream
  cases connecting_cases hrun with
  | skipped hskip => exact Or.inr h
  | undefined hstate hnone => exact Or.inr h
  | again hstate hsome hconnect => exact Or.inr h
  | failed hstate hevent hsome hconnect => exact Or.inl rfl
  | done hstate hevent hsome hconnect hmod =>
    exact Or.inr ⟨nofun, nofun, stream, hstream, hread⟩

lemma sending_awaits (h : w.Awaits r) (hrun : w.sending event env = (w', o)) : w'.Awaits r := by
  obtain ⟨stream, hstream, hread⟩ := h.stream
  -- a write of the request does not touch what is to be read
  have hwrote : ∀ {stream'} (n : ℕ), w.stream = some stream' →
      (w.wroteRequest stream' n).Awaits r := by
    intro stream' n hstream'
    obtain rfl : stream = stream' := Option.some.inj (hstream.symm.trans hstream')
    exact ⟨h.live, h.head, _, rfl, hread⟩
  cases sending_cases hrun with
  | skipped hskip => exact h
  | undefined hstate hnone => exact h
  | again hstate hsome hsend => exact h
  | threw e hstate hsome hsend => exact h
  | partly stream' n hstate hstream' hsend hrest => exact hwrote n hstream'
  | refused stream' n hstate hstream' hsend hall hmod => exact hwrote n hstream'
  | done stream' n hstate hevent hstream' hsend hall hmod =>
    exact ⟨nofun, nofun, (hwrote n hstream').stream⟩

/-- The head is read on, or it is complete. -/
lemma receiving_awaits (h : w.Awaits r) (hrun : w.receiving event = (w', o, once))
    (ho : ∀ outcome, o = some outcome → ∃ n, outcome = .returned n) :
    w'.Awaits r ∨ (once = true ∧ w'.Entered r) := by
  obtain ⟨stream, hstream, hread⟩ := h.stream
  rw [resumeHead_eq] at hread
  cases receiving_cases hrun with
  | skipped hskip => exact Or.inl h
  | undefined hstate hnone => exact Or.inl h
  | kept stream' data last rest o hstate hstream' hincomplete =>
    obtain rfl : stream = stream' := Option.some.inj (hstream.symm.trans hstream')
    left
    refine ⟨h.live, h.head, _, rfl, ?_⟩
    cases hcall : readHead w.responseData w.lastChar stream.inbound with
    | complete data' rest' =>
      rw [hcall] at hincomplete
      cases hincomplete
    | noLf data' last' rest' =>
      rw [hcall] at hincomplete
      cases hincomplete
      obtain ⟨n, hn⟩ := ho _ rfl
      cases hn
    | threw e data' last' rest' =>
      rw [hcall] at hincomplete
      cases hincomplete
      obtain ⟨n, hn⟩ := ho _ rfl
      cases hn
    | again data' last' rest' =>
      rw [hcall] at hincomplete hread
      cases hincomplete
      exact hread
    | ended data' last' rest' =>
      rw [hcall] at hincomplete hread
      cases hincomplete
      obtain ⟨tail, rfl⟩ := eof_of_ended hcall
      exact hread
  | complete stream' data rest w' o hstate hstream' hcall henter =>
    obtain rfl : stream = stream' := Option.some.inj (hstream.symm.trans hstream')
    rw [hcall] at hread
    right
    cases enterBody_cases henter with
    | diverges hparse =>
      obtain ⟨n, hn⟩ := ho _ rfl
      cases hn
    | invalid e hparse =>
      obtain ⟨n, hn⟩ := ho _ rfl
      cases hn
    | unsupported response e hparse hbuffer =>
      obtain ⟨n, hn⟩ := ho _ rfl
      cases hn
    | entered response buffer hparse hbuffer =>
      exact ⟨rfl, rfl, data, rest, response, buffer, _, hread.symm, hparse, hbuffer, rfl, rfl⟩

/-- The blocks before the body, when `process` does not throw there. -/
lemma BeforeBody.awaits (h : w.Awaits r) (hrun : BeforeBody w event env w' o once)
    (ho : ∀ outcome, o = some outcome → ∃ n, outcome = .returned n) :
    w'.state = .stopped ∨ w'.Awaits r ∨ (once = true ∧ w'.Entered r) := by
  have hreceive : ∀ {w₁ w₂ : Worker}, w₁.sending event env = (w₂, none) →
      w₂.receiving event = (w', o, once) → w₁.state = .stopped ∨ w₁.Awaits r →
      w'.state = .stopped ∨ w'.Awaits r ∨ (once = true ∧ w'.Entered r) := by
    intro w₁ w₂ hsending hreceiving hw₁
    rcases hw₁ with hstop | hawaits
    · rw [sending_of_ne (by simp [hstop])] at hsending
      obtain ⟨rfl, -⟩ := hsending
      rw [receiving_of_ne (by simp [hstop])] at hreceiving
      obtain ⟨rfl, -, -⟩ := hreceiving
      exact Or.inl hstop
    · exact Or.inr (receiving_awaits (sending_awaits hawaits hsending) hreceiving ho)
  cases hrun with
  | connecting hrun => exact (connecting_awaits h hrun).imp_right Or.inl
  | sending hconnecting hrun =>
    rcases connecting_awaits h hconnecting with hstop | hawaits
    · rw [sending_of_ne (by simp [hstop])] at hrun
      cases hrun
    · exact Or.inr (Or.inl (sending_awaits hawaits hrun))
  | receiving hconnecting hsending hrun =>
    exact hreceive hsending hrun (connecting_awaits h hconnecting)

/-- **A call that returns** to a worker waiting for its head. -/
lemma process_awaits {file file' : File} {n : ℕ} (h : w.Awaits r)
    (hprocess : w.process file event env = (.returned n, w', file')) :
    w'.state = .stopped ∨ w'.Awaits r ∨ w'.Entered r := by
  have hdrop : ∀ {v : Worker} {once : Bool}, v.state = .stopped ∨ v.Awaits r ∨
      (once = true ∧ v.Entered r) → v.state = .stopped ∨ v.Awaits r ∨ v.Entered r :=
    fun hv => hv.imp_right (Or.imp_right And.right)
  rcases process_cases hprocess with ⟨once, hbefore, -⟩ | ⟨w₁, once, hbefore, hfrom⟩
  · exact hdrop (hbefore.awaits h fun outcome ho => ⟨n, (Option.some.inj ho).symm⟩)
  · have hw₁ := hbefore.awaits h nofun
    have honce : w₁.state = .receivingBody → once = true := by
      intro hbody
      rcases hw₁ with hstop | hawaits | ⟨honce, -⟩
      · exact absurd (hstop.symm.trans hbody) (by decide)
      · exact absurd hbody hawaits.head
      · exact honce
    obtain ⟨_, hstopping, -, -⟩ := hfrom.of_skip honce
    by_cases hstop : w₁.state = .stopped
    · exact Or.inl ((stopping_keeps hstopping).2.trans hstop)
    · rw [stopping, if_neg hstop] at hstopping
      obtain ⟨rfl, -⟩ := hstopping
      exact hdrop hw₁

end Cld.Worker
