import Cld.Body.LastRead
import Cld.Head.Ending

/-!
# Bytes that epoll cannot see

A call of `process` that has read from its stream should go on until there is nothing left, since
nobody tells the worker about bytes which the stream itself holds back.

* `lastRead` is the last read of the stream in a call, and `Drains` what the call owes.
* `LeavesBytes` is when it fails: a head is complete, and `recieved_once` ends the call there; or
  the body loop ends at a write that takes nothing, which after a read of chunk data is every write.

A call may get to the head from `Connecting` or `Sending`.  `drains_of_receiving` is about the head,
`drains_of_receivingBody` about the body, and the lemmas of the other states lead to these two.
-/

namespace Cld.Worker

/-! ## The last read of a call -/

/-- The last read of `if (state == State::Receiving)`. -/
def lastInHead (w : Worker) (event : EpollEvents) : Option ReadResult :=
  if w.state = .receiving ∧ event.epollin then
    w.stream.map fun stream => lastOfHead w.lastChar stream.inbound
  else none

/-- The last read of `if (state == State::ReceivingBody && !recieved_once)`. -/
def lastInBody (w : Worker) (file : File) (event : EpollEvents) (recievedOnce : Bool)
    (env : Env) : Option ReadResult :=
  if w.state = .receivingBody ∧ recievedOnce = false ∧ event.epollin then
    match w.stream, w.buffer with
    | some stream, some buffer =>
      lastOfLoop kBufferSize (w.bodyState stream buffer file) env.fileWrites
    | _, _ => none
  else none

/-- The last read of either block. -/
def lastReceived (w : Worker) (file : File) (event : EpollEvents) (env : Env) :
    Option ReadResult :=
  match w.receiving event with
  | (_, some _, _) => w.lastInHead event
  | (w', none, recievedOnce) =>
    (w'.lastInBody file event recievedOnce env).or (w.lastInHead event)

/-- The last read of the stream in `process(event)`. -/
def lastRead (w : Worker) (file : File) (event : EpollEvents) (env : Env) : Option ReadResult :=
  match w.connecting event env with
  | (_, some _) => none
  | (w, none) =>
    match w.sending event env with
    | (_, some _) => none
    | (w, none) => w.lastReceived file event env

/-- A call that returns has stopped the worker or exhausted the stream, if it has read at all. -/
def Drains (w : Worker) (file : File) (event : EpollEvents) (env : Env) : Prop :=
  ∀ count w' file', w.process file event env = (.returned count, w', file') →
    w'.state = .stopped ∨ ∀ r ∈ w.lastRead file event env, r.Exhausted

/-! ## When it does not -/

/-- The rest of the request goes out. -/
structure SendsRest (w : Worker) (event : EpollEvents) (env : Env) : Prop where
  event : event.epollout = true
  bound : w.requestDataSent ≤ w.requestData.length
  taken : ∃ n, env.send = .accepts n ∧ w.requestData.length ≤ w.requestDataSent + n
  registered : env.modSent = true

/-- The call gets to the head. -/
def Reaches (w : Worker) (event : EpollEvents) (env : Env) : Prop :=
  w.state = .receiving ∨ w.SendsRest event env ∧ (w.state = .sending ∨
    w.state = .connecting ∧ env.connect = .done ∧ env.modConnected = true)

/-- The head is complete, and the worker goes over to the body. -/
def CompletesHead (w : Worker) (items : Inbound) : Prop :=
  ∃ head response buffer, EndsHead w.lastChar (available items) head ∧
    Response.parse (w.responseData ++ head ++ [CR, LF]) = some (.ok response) ∧
      CreateBuffer response = .ok buffer

/-- Bytes may be left that nobody will ask for. -/
def LeavesBytes (w : Worker) (event : EpollEvents) (env : Env) : Prop :=
  event.epollin = true ∧ ∃ stream, w.stream = some stream ∧
    (w.Reaches event env ∧ w.CompletesHead stream.inbound ∨
      w.state = .receivingBody ∧ ∃ buffer, w.buffer = some buffer ∧
        LeavesBody kBufferSize buffer.kind stream.inbound env.fileWrites)

variable {w w₁ : Worker} {stream : Stream} {buffer : Buffer} {file : File} {event : EpollEvents}
  {env : Env}

lemma drains_of_none (h : w.lastRead file event env = none) : w.Drains file event env := by
  intro count w' file' hprocess
  right
  rw [h]
  exact fun r hr => absurd hr (Option.not_mem_none r)

/-! ## The head -/

lemma lastInHead_of_ne (h : w.state ≠ .receiving) : w.lastInHead event = none :=
  if_neg fun hif => h hif.1

lemma lastInBody_of_ne {once : Bool} (h : w.state ≠ .receivingBody) :
    w.lastInBody file event once env = none := if_neg fun hif => h hif.1

/-- Outside the two blocks nothing is read. -/
lemma lastReceived_of_ne (hhead : w.state ≠ .receiving) (hbody : w.state ≠ .receivingBody) :
    w.lastReceived file event env = none := by
  unfold lastReceived
  simp only [receiving_of_ne hhead, lastInHead_of_ne hhead, lastInBody_of_ne hbody]
  rfl

/-- From `Receiving` on, the blocks before do nothing. -/
lemma lastRead_of_late (hconnecting : w.state ≠ .connecting) (hsending : w.state ≠ .sending) :
    w.lastRead file event env = w.lastReceived file event env := by
  unfold lastRead
  simp only [connecting_of_ne hconnecting, sending_of_ne hsending]

/-- The body is left to the next call. -/
lemma lastRead_of_receiving (hstate : w.state = .receiving) (hstream : w.stream = some stream)
    (hevent : event.epollin = true) :
    w.lastRead file event env = some (lastOfHead w.lastChar stream.inbound) := by
  have hhead : w.lastInHead event = some (lastOfHead w.lastChar stream.inbound) := by
    unfold lastInHead
    rw [if_pos ⟨hstate, hevent⟩, hstream]
    rfl
  rw [lastRead_of_late (by simp [hstate]) (by simp [hstate])]
  unfold lastReceived receiving
  rw [if_pos ⟨hstate, hevent⟩, hstream]
  simp only
  cases readHead w.responseData w.lastChar stream.inbound with
  | complete data rest =>
    rcases henter : w.enterBody stream data rest with ⟨v, o⟩
    cases o with
    | some o => simp only [henter, hhead]
    | none =>
      have hskip : v.lastInBody file event true env = none := if_neg fun hif => by simp at hif
      simp only [henter, hskip, hhead]
      rfl
  | noLf data last rest => exact hhead
  | again data last rest => exact hhead
  | threw e data last rest => exact hhead
  | ended data last rest =>
    have hkeep : (w.keepHead stream data last rest).state ≠ .receivingBody := by
      simp [keepHead, hstate]
    simp only [lastInBody_of_ne hkeep, hhead]
    rfl

lemma leavesBytes_of_receiving (hstate : w.state = .receiving) (hstream : w.stream = some stream)
    (hevent : event.epollin = true) :
    w.LeavesBytes event env ↔ w.CompletesHead stream.inbound := by
  unfold LeavesBytes Reaches
  simp [hstate, hstream, hevent]

/-- The head is complete where the reader says so. -/
lemma completesHead_iff (items : Inbound) :
    w.CompletesHead items ↔ ∃ data rest response buffer,
      readHead w.responseData w.lastChar items = .complete data rest ∧
        Response.parse data = some (.ok response) ∧ CreateBuffer response = .ok buffer := by
  constructor
  · rintro ⟨head, response, buffer, hends, hparse, hbuffer⟩
    obtain ⟨rest, hread⟩ :=
      (@readHead_complete_iff items w.responseData w.lastChar _).2 ⟨head, hends, rfl⟩
    exact ⟨_, rest, response, buffer, hread, hparse, hbuffer⟩
  · rintro ⟨data, rest, response, buffer, hread, hparse, hbuffer⟩
    obtain ⟨head, hends, rfl⟩ := readHead_complete_iff.1 ⟨rest, hread⟩
    exact ⟨head, response, buffer, hends, hparse, hbuffer⟩

/-- **In `Receiving`** the call drains the stream unless it completes the head. -/
lemma drains_of_receiving (hstate : w.state = .receiving) (hstream : w.stream = some stream)
    (hevent : event.epollin = true) :
    w.Drains file event env ↔ ¬ w.CompletesHead stream.inbound := by
  have hends := endsWith_lastOfHead w.responseData w.lastChar stream.inbound
  unfold Drains
  rw [completesHead_iff, process_of_receiving hstate hstream hevent,
    lastRead_of_receiving hstate hstream hevent]
  cases hread : readHead w.responseData w.lastChar stream.inbound with
  | complete data rest =>
    rw [hread] at hends
    have hlast : lastOfHead w.lastChar stream.inbound = .ok [LF] := hends
    have hbuilt := enterBody_built w stream data rest
    simp only [HeadRead.complete.injEq]
    constructor
    · rintro h ⟨data', rest', response, buffer, ⟨rfl, rfl⟩, hparse, hbuffer⟩
      obtain ⟨hstate', -⟩ := hbuilt.buffer response buffer hparse hbuffer
      have houtcome : (w.enterBody stream data rest).2.getD (.returned 0) = .returned 0 := by
        rw [hbuilt.outcome, headOutcome, hparse]
        simp only [hbuffer]
      rcases h 0 _ file (by rw [houtcome]) with hstopped | hdrained
      · rw [hstate'] at hstopped
        cases hstopped
      · have hexhausted := hdrained _ (Option.mem_some_self _)
        rw [hlast] at hexhausted
        cases hexhausted
    · intro h count w' file' hprocess
      rw [(Prod.mk.inj hprocess).1] at hbuilt
      obtain ⟨response, buffer, hparse, hbuffer, -⟩ := hbuilt.exists_buffer
      exact absurd ⟨data, rest, response, buffer, ⟨rfl, rfl⟩, hparse, hbuffer⟩ h
  | noLf data last rest =>
    simp
  | again data last rest =>
    rw [hread] at hends
    have hlast : lastOfHead w.lastChar stream.inbound = .again := hends
    refine iff_of_true (fun count w' file' _ => Or.inr fun r hr => ?_) (by simp)
    obtain rfl := Option.mem_some_iff.1 hr
    rw [hlast]
    trivial
  | threw e data last rest =>
    simp
  | ended data last rest =>
    rw [hread] at hends
    have hlast : lastOfHead w.lastChar stream.inbound = .ok [] := hends
    refine iff_of_true (fun count w' file' _ => Or.inr fun r hr => ?_) (by simp)
    obtain rfl := Option.mem_some_iff.1 hr
    rw [hlast]
    exact rfl

/-! ## The body -/

lemma lastRead_of_receivingBody (hstate : w.state = .receivingBody)
    (hstream : w.stream = some stream) (hbuffer : w.buffer = some buffer)
    (hevent : event.epollin = true) :
    w.lastRead file event env =
      lastOfLoop kBufferSize (w.bodyState stream buffer file) env.fileWrites := by
  have hhead : w.state ≠ .receiving := by simp [hstate]
  have hbody : w.lastInBody file event false env =
      lastOfLoop kBufferSize (w.bodyState stream buffer file) env.fileWrites := by
    unfold lastInBody
    rw [if_pos ⟨hstate, rfl, hevent⟩, hstream, hbuffer]
  rw [lastRead_of_late (by simp [hstate]) (by simp [hstate])]
  unfold lastReceived
  simp only [receiving_of_ne hhead, lastInHead_of_ne hhead, hbody]
  exact Option.or_none

/-- **In `ReceivingBody`** it drains the stream unless the loop leaves bytes behind. -/
lemma drains_of_receivingBody (hstate : w.state = .receivingBody)
    (hstream : w.stream = some stream) (hbuffer : w.buffer = some buffer)
    (hevent : event.epollin = true) :
    w.Drains file event env ↔
      ¬ LeavesBody kBufferSize buffer.kind stream.inbound env.fileWrites := by
  have hleaves : LoopLeaves kBufferSize (w.bodyState stream buffer file) env.fileWrites ↔
      LeavesBody kBufferSize buffer.kind stream.inbound env.fileWrites :=
    loopLeaves_iff (by decide)
  rw [← hleaves]
  unfold Drains LoopLeaves
  rw [lastRead_of_receivingBody hstate hstream hbuffer hevent]
  rcases hloop : bodyLoop kBufferSize (w.bodyState stream buffer file) env.fileWrites with
    ⟨s, exit⟩
  obtain ⟨hleft, hfinished⟩ := process_of_bodyLoop hstate hstream hbuffer hevent hloop
  have hstay : (w.bodyLeft stream s).state ≠ .stopped := by
    have hsame : (w.bodyLeft stream s).state = w.state := rfl
    rw [hsame, hstate]
    decide
  cases exit with
  | finished =>
    obtain ⟨v, o, hstop, hcall⟩ := hfinished rfl
    refine iff_of_true (fun count w' file' hprocess => Or.inl ?_) (by simp)
    rw [hcall] at hprocess
    obtain ⟨-, rfl, -⟩ := Prod.mk.inj hprocess |>.imp id Prod.mk.inj
    exact (stopping_keeps hstop).2
  | again =>
    have hlast : lastOfLoop kBufferSize (w.bodyState stream buffer file) env.fileWrites =
        some .again := lastOfLoop_of_again (by rw [hloop])
    refine iff_of_true (fun count w' file' _ => Or.inr fun r hr => ?_) (by simp)
    rw [hlast] at hr
    obtain rfl := Option.mem_some_iff.1 hr
    trivial
  | threw e =>
    rw [hleft (by simp)]
    simp [BodyExit.answer]
  | idle =>
    rw [hleft (by simp)]
    constructor
    · rintro h ⟨-, r, hr, hread⟩
      rcases h _ _ _ rfl with hstopped | hdrained
      · exact hstay hstopped
      · exact hread (hdrained r hr)
    · intro h count w' file' _
      right
      intro r hr
      by_contra hread
      exact h ⟨rfl, r, hr, hread⟩

/-! ## The call -/

/-- Without `EPOLLIN` nothing is read. -/
lemma lastReceived_of_noEvent (hevent : event.epollin = false) :
    w.lastReceived file event env = none := by
  have hreceiving : w.receiving event = (w, none, false) := if_neg (by simp [hevent])
  have hhead : w.lastInHead event = none := if_neg (by simp [hevent])
  have hbody : w.lastInBody file event false env = none := if_neg (by simp [hevent])
  unfold lastReceived
  simp only [hreceiving, hhead, hbody]
  rfl

/-- Nor is it without a stream. -/
lemma lastReceived_of_noStream (hstream : w.stream = none) :
    w.lastReceived file event env = none := by
  have hhead : w.lastInHead event = none := by
    unfold lastInHead
    rw [hstream]
    exact ite_self none
  have hbody : ∀ once, w.lastInBody file event once env = none := by
    intro once
    unfold lastInBody
    rw [hstream]
    exact ite_self none
  unfold lastReceived receiving
  rw [hstream]
  by_cases hif : w.state = .receiving ∧ event.epollin
  · rw [if_pos hif]
    exact hhead
  · rw [if_neg hif]
    simp only [hhead, hbody]
    rfl

lemma not_leavesBytes_of_noStream (hstream : w.stream = none) : ¬ w.LeavesBytes event env := by
  rintro ⟨-, stream, hsome, -⟩
  rw [hstream] at hsome
  cases hsome

/-- **A call that begins behind `Sending`.** -/
lemma drains_of_late (hconnecting : w.state ≠ .connecting) (hsending : w.state ≠ .sending) :
    w.Drains file event env ↔ ¬ w.LeavesBytes event env := by
  have hnone : w.lastReceived file event env = none → ¬ w.LeavesBytes event env →
      (w.Drains file event env ↔ ¬ w.LeavesBytes event env) := by
    intro hread hleaves
    rw [← lastRead_of_late hconnecting hsending] at hread
    exact iff_of_true (drains_of_none hread) hleaves
  cases hevent : event.epollin with
  | false =>
    apply hnone (lastReceived_of_noEvent hevent)
    rintro ⟨htrue, -⟩
    rw [hevent] at htrue
    cases htrue
  | true =>
    cases hstream : w.stream with
    | none => exact hnone (lastReceived_of_noStream hstream) (not_leavesBytes_of_noStream hstream)
    | some stream =>
      cases hstate : w.state with
      | connecting => exact absurd hstate hconnecting
      | sending => exact absurd hstate hsending
      | receiving =>
        rw [drains_of_receiving hstate hstream hevent,
          leavesBytes_of_receiving hstate hstream hevent]
      | receivingBody =>
        cases hbuffer : w.buffer with
        | none =>
          have hbody : w.lastInBody file event false env = none := by
            unfold lastInBody
            rw [hstream, hbuffer]
            exact ite_self none
          have hhead : w.state ≠ .receiving := by simp [hstate]
          apply hnone
          · unfold lastReceived
            simp only [receiving_of_ne hhead, lastInHead_of_ne hhead, hbody]
            rfl
          · simp [LeavesBytes, Reaches, hstate, hbuffer]
        | some buffer =>
          rw [drains_of_receivingBody hstate hstream hbuffer hevent]
          simp [LeavesBytes, Reaches, hstate, hstream, hbuffer, hevent]
      | stopped =>
        apply hnone (lastReceived_of_ne (by simp [hstate]) (by simp [hstate]))
        simp [LeavesBytes, Reaches, hstate]

/-- The rest of the request, in one write. -/
lemma sending_of_sendsRest (hstate : w.state = .sending) (hstream : w.stream = some stream)
    (hrest : w.SendsRest event env) :
    ∃ w₁ sent, w.sending event env = (w₁, none) ∧ w₁.state = .receiving ∧
      w₁.stream = some { stream with sent := sent } ∧ w₁.responseData = w.responseData ∧
      w₁.lastChar = w.lastChar := by
  obtain ⟨n, hsend, hle⟩ := hrest.taken
  have hbound := hrest.bound
  have hall : w.requestDataSent + min n (w.requestData.drop w.requestDataSent).length =
      w.requestData.length := by
    rw [List.length_drop]
    omega
  unfold sending
  rw [if_pos ⟨hstate, hrest.event⟩, hstream, hsend]
  simp only [hall, if_true, hrest.registered]
  exact ⟨_, _, rfl, rfl, rfl, rfl, rfl⟩

/-- Otherwise the call ends there, or passes with the worker still in `Sending`. -/
lemma sending_of_not_sendsRest (hstate : w.state = .sending) (hrest : ¬ w.SendsRest event env) :
    (∃ w₁ o, w.sending event env = (w₁, some o)) ∨
      ∃ w₁, w.sending event env = (w₁, none) ∧ w₁.state = .sending := by
  rcases hrun : w.sending event env with ⟨w₁, o⟩
  cases sending_cases hrun with
  | skipped hskip => exact Or.inr ⟨w, rfl, hstate⟩
  | undefined _ hstream => exact Or.inl ⟨_, _, rfl⟩
  | again _ hstream hsend => exact Or.inl ⟨_, _, rfl⟩
  | threw e _ hstream hsend => exact Or.inl ⟨_, _, rfl⟩
  | partly stream n _ hstream hsend hmore => exact Or.inr ⟨_, rfl, hstate⟩
  | refused stream n _ hstream hsend hall hmod => exact Or.inl ⟨_, _, rfl⟩
  | done stream n _ hevent hstream hsend hall hmod =>
    have hcount : w.requestDataSent + min n (w.requestData.drop w.requestDataSent).length =
        w.requestData.length := hall
    rw [List.length_drop] at hcount
    exact absurd ⟨hevent, by omega, ⟨n, hsend, by omega⟩, hmod⟩ hrest

/-- Two calls that do the same and read the same. -/
lemma drains_congr (hprocess : w.process file event env = w₁.process file event env)
    (hread : w.lastRead file event env = w₁.lastRead file event env) :
    w.Drains file event env ↔ w₁.Drains file event env := by
  unfold Drains
  rw [hprocess, hread]

/-- What the blocks before the head hand on. -/
lemma process_of_passed {w₂ : Worker} (hfirst : w.connecting event env = (w₁, none))
    (hsecond : w₁.sending event env = (w₂, none)) (hconnecting : w₂.state ≠ .connecting)
    (hsending : w₂.state ≠ .sending) :
    w.process file event env = w₂.process file event env ∧
      w.lastRead file event env = w₂.lastRead file event env := by
  have hpass₁ : w₂.connecting event env = (w₂, none) := connecting_of_ne hconnecting
  have hpass₂ : w₂.sending event env = (w₂, none) := sending_of_ne hsending
  unfold process lastRead
  simp only [hfirst, hsecond, hpass₁, hpass₂, and_self]

/-- A call that ends before the head, or gets to neither block, reads nothing. -/
lemma lastRead_of_blocked (h : (∃ v o, w₁.sending event env = (v, some o)) ∨
      ∃ v, w₁.sending event env = (v, none) ∧ v.state ≠ .receiving ∧ v.state ≠ .receivingBody)
    (hfirst : w.connecting event env = (w₁, none)) : w.lastRead file event env = none := by
  unfold lastRead
  rcases h with ⟨v, o, hsecond⟩ | ⟨v, hsecond, hhead, hbody⟩
  · simp only [hfirst, hsecond]
  · simp only [hfirst, hsecond]
    exact lastReceived_of_ne hhead hbody

/-- **A call that begins in `Sending`.** -/
lemma drains_of_sending (hstate : w.state = .sending) :
    w.Drains file event env ↔ ¬ w.LeavesBytes event env := by
  have hconnecting : w.connecting event env = (w, none) := connecting_of_ne (by simp [hstate])
  by_cases hrest : w.SendsRest event env
  · cases hstream : w.stream with
    | none =>
      have hblocked : w.sending event env = (w, some .undefined) := by
        unfold sending
        rw [if_pos ⟨hstate, hrest.event⟩, hstream]
      have hread : w.lastRead file event env = none :=
        lastRead_of_blocked (Or.inl ⟨w, _, hblocked⟩) hconnecting
      exact iff_of_true (drains_of_none hread) (not_leavesBytes_of_noStream hstream)
    | some stream =>
      obtain ⟨w₁, sent, hsending, hstate₁, hstream₁, hdata₁, hlast₁⟩ :=
        sending_of_sendsRest hstate hstream hrest
      have hconnecting₁ : w₁.state ≠ .connecting := by simp [hstate₁]
      have hsending₁ : w₁.state ≠ .sending := by simp [hstate₁]
      obtain ⟨hprocess, hread⟩ :=
        @process_of_passed w w file event env w₁ hconnecting hsending hconnecting₁ hsending₁
      have hsame : w.LeavesBytes event env ↔ w₁.LeavesBytes event env := by
        simp [LeavesBytes, Reaches, CompletesHead, hstate, hstream, hrest, hstate₁, hstream₁,
          hdata₁, hlast₁]
      rw [hsame, ← drains_of_late hconnecting₁ hsending₁]
      exact drains_congr hprocess hread
  · have hleaves : ¬ w.LeavesBytes event env := by
      simp [LeavesBytes, Reaches, hstate, hrest]
    have hread : w.lastRead file event env = none := by
      apply lastRead_of_blocked _ hconnecting
      refine (sending_of_not_sendsRest hstate hrest).imp_right ?_
      rintro ⟨v, hsending, hv⟩
      exact ⟨v, hsending, by simp [hv], by simp [hv]⟩
    exact iff_of_true (drains_of_none hread) hleaves

/-- A connection that is not done ends the call, waits or stops the worker. -/
lemma connecting_of_not_done (hstate : w.state = .connecting)
    (h : ¬ ((event.epollout ∨ event.epollin) ∧ w.stream ≠ none ∧ env.connect = .done ∧
      env.modConnected = true)) :
    (∃ v o, w.connecting event env = (v, some o)) ∨
      ∃ v, w.connecting event env = (v, none) ∧ (v.state = .stopped ∨ v.state = .connecting) := by
  rcases hrun : w.connecting event env with ⟨v, o⟩
  cases connecting_cases hrun with
  | skipped hskip => exact Or.inr ⟨w, rfl, Or.inr hstate⟩
  | undefined _ hstream => exact Or.inl ⟨_, _, rfl⟩
  | again _ hstream hconnect => exact Or.inl ⟨_, _, rfl⟩
  | failed _ hevent hstream hconnect => exact Or.inr ⟨_, rfl, Or.inl rfl⟩
  | done _ hevent hstream hconnect hmod => exact absurd ⟨hevent, hstream, hconnect, hmod⟩ h

lemma lastRead_of_not_done (hstate : w.state = .connecting)
    (h : ¬ ((event.epollout ∨ event.epollin) ∧ w.stream ≠ none ∧ env.connect = .done ∧
      env.modConnected = true)) : w.lastRead file event env = none := by
  rcases connecting_of_not_done hstate h with ⟨v, o, hfirst⟩ | ⟨v, hfirst, hv⟩
  · unfold lastRead
    simp only [hfirst]
  · have hpass : v.sending event env = (v, none) :=
      sending_of_ne (by rcases hv with hv | hv <;> simp [hv])
    refine lastRead_of_blocked (Or.inr ⟨v, hpass, ?_, ?_⟩) hfirst
    · rcases hv with hv | hv <;> simp [hv]
    · rcases hv with hv | hv <;> simp [hv]

lemma not_leavesBytes_of_not_done (hstate : w.state = .connecting)
    (h : ¬ ((event.epollout ∨ event.epollin) ∧ w.stream ≠ none ∧ env.connect = .done ∧
      env.modConnected = true)) : ¬ w.LeavesBytes event env := by
  rintro ⟨-, stream, hstream, ⟨hreaches, -⟩ | ⟨hbody, -⟩⟩
  · unfold Reaches at hreaches
    simp only [hstate, reduceCtorEq, false_or, true_and] at hreaches
    refine h ⟨Or.inl hreaches.1.event, ?_, hreaches.2⟩
    rw [hstream]
    exact Option.some_ne_none stream
  · rw [hstate] at hbody
    cases hbody

/-- **A call that begins in `Connecting`.** -/
lemma drains_of_connecting (hstate : w.state = .connecting) :
    w.Drains file event env ↔ ¬ w.LeavesBytes event env := by
  by_cases hdone : (event.epollout ∨ event.epollin) ∧ w.stream ≠ none ∧ env.connect = .done ∧
      env.modConnected = true
  · obtain ⟨hevent, hstream, hconnect, hmod⟩ := hdone
    obtain ⟨stream, hstream⟩ := Option.ne_none_iff_exists'.1 hstream
    have hfirst : w.connecting event env =
        ({ w with state := .sending, interest := some { epollout := true } }, none) := by
      unfold connecting
      rw [if_pos ⟨hstate, hevent⟩, hstream, hconnect]
      simp only [hmod, if_true]
    generalize hw₁ : ({ w with state := .sending, interest := some { epollout := true } } :
      Worker) = w₁ at hfirst
    have hstate₁ : w₁.state = .sending := by rw [← hw₁]
    have hpass : w₁.connecting event env = (w₁, none) := connecting_of_ne (by simp [hstate₁])
    have hrest : w.SendsRest event env ↔ w₁.SendsRest event env := by
      rw [← hw₁]
      exact ⟨fun h => ⟨h.event, h.bound, h.taken, h.registered⟩,
        fun h => ⟨h.event, h.bound, h.taken, h.registered⟩⟩
    have hsame : w.LeavesBytes event env ↔ w₁.LeavesBytes event env := by
      rw [LeavesBytes, LeavesBytes, Reaches, Reaches, hrest]
      simp [CompletesHead, hstate, hconnect, hmod, ← hw₁]
    have hprocess : w.process file event env = w₁.process file event env := by
      unfold process
      simp only [hfirst, hpass]
    have hread : w.lastRead file event env = w₁.lastRead file event env := by
      unfold lastRead
      simp only [hfirst, hpass]
    rw [hsame, ← drains_of_sending hstate₁]
    exact drains_congr hprocess hread
  · exact iff_of_true (drains_of_none (lastRead_of_not_done hstate hdone))
      (not_leavesBytes_of_not_done hstate hdone)

/-- **When readable data is drained.**  A call that returns without stopping the worker has read
until the stream reported `kAgain` or its end, unless it has completed a head that a body follows,
or the body loop has ended at a write that took nothing: of bytes that a stream without chunks has
delivered, or behind chunk data, or behind a size line with a negative size. -/
theorem drains_iff (w : Worker) (file : File) (event : EpollEvents) (env : Env) :
    w.Drains file event env ↔ ¬ w.LeavesBytes event env := by
  cases hstate : w.state with
  | connecting => exact drains_of_connecting hstate
  | sending => exact drains_of_sending hstate
  | receiving => exact drains_of_late (by simp [hstate]) (by simp [hstate])
  | receivingBody => exact drains_of_late (by simp [hstate]) (by simp [hstate])
  | stopped => exact drains_of_late (by simp [hstate]) (by simp [hstate])

/-- A worker that waits for its head, which has come in one record with the body. -/
def oneRecord : Worker where
  state := .receiving
  stream := some { inbound := (bytes "HTTP/1.1 200 OK\r\n\r\nab").map (.byte · false) }
  requestData := []
  fileOffset := 0
  interest := some { epollin := true }

/-- **The body that came with the head is left behind.** -/
theorem record_left_behind : ¬ oneRecord.Drains (fun _ => none) { epollin := true } {} := by
  have hkey : ((Response.parse (bytes "HTTP/1.1 200 OK\r\n\r\n")).bind
      Except.toOption).map (·.headers) = some [] := by decide +kernel
  obtain ⟨r, hparse, hheaders⟩ := exists_of_accepted hkey
  have hbuffer : CreateBuffer r = .ok { kind := .noLength false } := by
    unfold CreateBuffer Response.get
    rw [hheaders]
    rfl
  have hread : readHead [] 0 ((bytes "HTTP/1.1 200 OK\r\n\r\nab").map (.byte · false)) =
      .complete (bytes "HTTP/1.1 200 OK\r\n\r\n") [.byte 97 false, .byte 98 false] := by
    decide +kernel
  rw [drains_of_receiving rfl rfl rfl, not_not, completesHead_iff]
  exact ⟨_, _, r, _, hread, hparse, hbuffer⟩

end Cld.Worker
