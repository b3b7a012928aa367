import Cld.Model.Worker

/-!
# What each block of `process` can do

`process` goes through five blocks, one for each state.  Here is a list for each of what it can do:
the worker it leaves, the outcome if the call ends there, and what the system must have answered.

* `Connected`, `Sent`, `ReceivedHead`, `ReceivedBody` and `Closed` are the lists for the blocks, in
  their order, and `connecting_cases` and the others say that they are complete.
* `EnteredBody` is the list for a complete head, and `ForceStopped` that for `forceStop`.

What holds of a block is read off its list from here on.
-/

namespace Cld.Worker

variable {w w' : Worker} {event : EpollEvents} {env : Env} {o : Option Outcome} {once : Bool}

lemma connecting_of_ne (h : w.state ≠ .connecting) : w.connecting event env = (w, none) :=
  if_neg fun hif => h hif.1

lemma sending_of_ne (h : w.state ≠ .sending) : w.sending event env = (w, none) :=
  if_neg fun hif => h hif.1

lemma receiving_of_ne (h : w.state ≠ .receiving) : w.receiving event = (w, none, false) :=
  if_neg fun hif => h hif.1

/-! ## `Connecting` -/

inductive Connected (w : Worker) (event : EpollEvents) (env : Env) :
    Worker → Option Outcome → Prop
  | skipped (hskip : ¬ (w.state = .connecting ∧ (event.epollout ∨ event.epollin))) :
      Connected w event env w none
  | undefined (hstate : w.state = .connecting) (hstream : w.stream = none) :
      Connected w event env w (some .undefined)
  | again (hstate : w.state = .connecting) (hstream : w.stream ≠ none)
      (hconnect : env.connect = .again) : Connected w event env w (some (.returned 0))
  /-- The connection fails, or the `epoll_ctl` after it. -/
  | failed (hstate : w.state = .connecting) (hevent : event.epollout ∨ event.epollin)
      (hstream : w.stream ≠ none)
      (hconnect : env.connect = .failed ∨ env.connect = .done ∧ env.modConnected = false) :
      Connected w event env { w with state := .stopped } none
  | done (hstate : w.state = .connecting) (hevent : event.epollout ∨ event.epollin)
      (hstream : w.stream ≠ none) (hconnect : env.connect = .done)
      (hmod : env.modConnected = true) :
      Connected w event env { w with state := .sending, interest := some { epollout := true } }
        none

lemma connecting_cases (hrun : w.connecting event env = (w', o)) : Connected w event env w' o := by
  unfold connecting at hrun
  split at hrun
  · next hif =>
    obtain ⟨hstate, hevent⟩ := hif
    split at hrun
    · next hnone =>
      obtain ⟨rfl, rfl⟩ := hrun
      exact .undefined hstate hnone
    · next stream hsome =>
      have hstream : w.stream ≠ none := hsome ▸ Option.some_ne_none stream
      split at hrun
      · next hconnect =>
        obtain ⟨rfl, rfl⟩ := hrun
        rw [← hstate]
        exact .again hstate hstream hconnect
      · next hconnect =>
        obtain ⟨rfl, rfl⟩ := hrun
        exact .failed hstate hevent hstream (Or.inl hconnect)
      · next hconnect =>
        split at hrun
        · next hmod =>
          obtain ⟨rfl, rfl⟩ := hrun
          exact .done hstate hevent hstream hconnect hmod
        · next hmod =>
          obtain ⟨rfl, rfl⟩ := hrun
          exact .failed hstate hevent hstream
            (Or.inr ⟨hconnect, Bool.eq_false_of_not_eq_true hmod⟩)
  · next hskip =>
    obtain ⟨rfl, rfl⟩ := hrun
    exact .skipped hskip

/-! ## `Sending` -/

/-- The worker behind a write of which the stream accepts up to `n` bytes. -/
def wroteRequest (w : Worker) (stream : Stream) (n : ℕ) : Worker :=
  let unsent := w.requestData.drop w.requestDataSent
  let res := min n unsent.length
  { w with
    stream := some { stream with sent := stream.sent ++ unsent.take res }
    requestDataSent := w.requestDataSent + res }

inductive Sent (w : Worker) (event : EpollEvents) (env : Env) : Worker → Option Outcome → Prop
  | skipped (hskip : ¬ (w.state = .sending ∧ event.epollout)) : Sent w event env w none
  | undefined (hstate : w.state = .sending) (hstream : w.stream = none) :
      Sent w event env w (some .undefined)
  | again (hstate : w.state = .sending) (hstream : w.stream ≠ none) (hsend : env.send = .again) :
      Sent w event env w (some (.returned 0))
  | threw (e : Exn) (hstate : w.state = .sending) (hstream : w.stream ≠ none)
      (hsend : env.send = .threw e) : Sent w event env w (some (.threw e))
  | partly (stream : Stream) (n : ℕ) (hstate : w.state = .sending)
      (hstream : w.stream = some stream) (hsend : env.send = .accepts n)
      (hrest : (w.wroteRequest stream n).requestDataSent ≠ w.requestData.length) :
      Sent w event env (w.wroteRequest stream n) none
  /-- All is sent, and the `epoll_ctl` after it fails. -/
  | refused (stream : Stream) (n : ℕ) (hstate : w.state = .sending)
      (hstream : w.stream = some stream) (hsend : env.send = .accepts n)
      (hall : (w.wroteRequest stream n).requestDataSent = w.requestData.length)
      (hmod : env.modSent = false) :
      Sent w event env (w.wroteRequest stream n) (some (.threw .systemError))
  | done (stream : Stream) (n : ℕ) (hstate : w.state = .sending) (hevent : event.epollout = true)
      (hstream : w.stream = some stream) (hsend : env.send = .accepts n)
      (hall : (w.wroteRequest stream n).requestDataSent = w.requestData.length)
      (hmod : env.modSent = true) :
      Sent w event env
        { w.wroteRequest stream n with
          state := .receiving
          interest := some { epollin := true } } none

lemma sending_cases (hrun : w.sending event env = (w', o)) : Sent w event env w' o := by
  unfold sending at hrun
  split at hrun
  · next hif =>
    obtain ⟨hstate, hevent⟩ := hif
    split at hrun
    · next hnone =>
      obtain ⟨rfl, rfl⟩ := hrun
      exact .undefined hstate hnone
    · next stream hstream =>
      have hsome : w.stream ≠ none := hstream ▸ Option.some_ne_none stream
      split at hrun
      · next hsend =>
        obtain ⟨rfl, rfl⟩ := hrun
        exact .again hstate hsome hsend
      · next e hsend =>
        obtain ⟨rfl, rfl⟩ := hrun
        exact .threw e hstate hsome hsend
      · next n hsend =>
        simp only at hrun
        split at hrun
        · next hall =>
          split at hrun
          · next hmod =>
            obtain ⟨rfl, rfl⟩ := hrun
            exact .done stream n hstate hevent hstream hsend hall hmod
          · next hmod =>
            obtain ⟨rfl, rfl⟩ := hrun
            exact .refused stream n hstate hstream hsend hall (Bool.eq_false_of_not_eq_true hmod)
        · next hrest =>
          obtain ⟨rfl, rfl⟩ := hrun
          exact .partly stream n hstate hstream hsend hrest
  · next hskip =>
    obtain ⟨rfl, rfl⟩ := hrun
    exact .skipped hskip

/-! ## `Receiving` -/

/-- The worker that has read a complete head. -/
def tookHead (w : Worker) (stream : Stream) (data : Bytes) (rest : Inbound) : Worker :=
  { w with
    responseData := data ++ [0]
    lastChar := LF
    stream := some { stream with inbound := rest } }

inductive EnteredBody (w : Worker) (stream : Stream) (data : Bytes) (rest : Inbound) :
    Worker → Option Outcome → Prop
  | diverges (hparse : Response.parse data = none) :
      EnteredBody w stream data rest (w.tookHead stream data rest) (some .diverges)
  /-- There is no `Response`. -/
  | invalid (e : Exn) (hparse : Response.parse data = some (.error e)) :
      EnteredBody w stream data rest (w.tookHead stream data rest) (some (.threw e))
  /-- There is no buffer for it. -/
  | unsupported (response : Response) (e : Exn)
      (hparse : Response.parse data = some (.ok response))
      (hbuffer : CreateBuffer response = .error e) :
      EnteredBody w stream data rest (w.tookHead stream data rest) (some (.threw e))
  | entered (response : Response) (buffer : Buffer)
      (hparse : Response.parse data = some (.ok response))
      (hbuffer : CreateBuffer response = .ok buffer) :
      EnteredBody w stream data rest
        { w.tookHead stream data rest with buffer := some buffer, state := .receivingBody } none

lemma enterBody_cases {stream : Stream} {data : Bytes} {rest : Inbound}
    (hrun : w.enterBody stream data rest = (w', o)) : EnteredBody w stream data rest w' o := by
  unfold enterBody at hrun
  simp only at hrun
  split at hrun
  · next hparse =>
    obtain ⟨rfl, rfl⟩ := hrun
    exact .diverges hparse
  · next e hparse =>
    obtain ⟨rfl, rfl⟩ := hrun
    exact .invalid e hparse
  · next response hparse =>
    split at hrun
    · next e hbuffer =>
      obtain ⟨rfl, rfl⟩ := hrun
      exact .unsupported response e hparse hbuffer
    · next buffer hbuffer =>
      obtain ⟨rfl, rfl⟩ := hrun
      exact .entered response buffer hparse hbuffer

/-- A head that is not complete: what is kept of it, and the outcome if the call ends there. -/
inductive Incomplete : HeadRead → Bytes → Byte → Inbound → Option Outcome → Prop
  | noLf (data : Bytes) (last : Byte) (rest : Inbound) :
      Incomplete (.noLf data last rest) data last rest (some (.threw noLfException))
  | again (data : Bytes) (last : Byte) (rest : Inbound) :
      Incomplete (.again data last rest) data last rest (some (.returned 0))
  | ended (data : Bytes) (last : Byte) (rest : Inbound) :
      Incomplete (.ended data last rest) data last rest none
  | threw (e : Exn) (data : Bytes) (last : Byte) (rest : Inbound) :
      Incomplete (.threw e data last rest) data last rest (some (.threw e))

lemma Incomplete.defined {r : HeadRead} {data : Bytes} {last : Byte} {rest : Inbound}
    (h : Incomplete r data last rest o) : o ≠ some .undefined := by
  cases h with
  | noLf => exact nofun
  | again => exact nofun
  | ended => exact nofun
  | threw e => exact nofun

inductive ReceivedHead (w : Worker) (event : EpollEvents) :
    Worker → Option Outcome → Bool → Prop
  | skipped (hskip : ¬ (w.state = .receiving ∧ event.epollin)) :
      ReceivedHead w event w none false
  | undefined (hstate : w.state = .receiving) (hstream : w.stream = none) :
      ReceivedHead w event w (some .undefined) false
  | kept (stream : Stream) (data : Bytes) (last : Byte) (rest : Inbound) (o : Option Outcome)
      (hstate : w.state = .receiving) (hstream : w.stream = some stream)
      (hread : Incomplete (readHead w.responseData w.lastChar stream.inbound) data last rest o) :
      ReceivedHead w event (w.keepHead stream data last rest) o false
  | complete (stream : Stream) (data : Bytes) (rest : Inbound) (w' : Worker) (o : Option Outcome)
      (hstate : w.state = .receiving) (hstream : w.stream = some stream)
      (hread : readHead w.responseData w.lastChar stream.inbound = .complete data rest)
      (henter : w.enterBody stream data rest = (w', o)) : ReceivedHead w event w' o true

lemma receiving_cases (hrun : w.receiving event = (w', o, once)) :
    ReceivedHead w event w' o once := by
  unfold receiving at hrun
  split at hrun
  · next hif =>
    split at hrun
    · next hnone =>
      obtain ⟨rfl, rfl, rfl⟩ := hrun
      exact .undefined hif.1 hnone
    · next stream hstream =>
      split at hrun
      · next data rest hread =>
        rcases henter : w.enterBody stream data rest with ⟨v, o'⟩
        rw [henter] at hrun
        obtain ⟨rfl, rfl, rfl⟩ := hrun
        exact .complete stream data rest _ _ hif.1 hstream hread henter
      · next data last rest hread =>
        obtain ⟨rfl, rfl, rfl⟩ := hrun
        exact .kept stream data last rest _ hif.1 hstream (hread ▸ .noLf data last rest)
      · next data last rest hread =>
        obtain ⟨rfl, rfl, rfl⟩ := hrun
        exact .kept stream data last rest _ hif.1 hstream (hread ▸ .again data last rest)
      · next data last rest hread =>
        obtain ⟨rfl, rfl, rfl⟩ := hrun
        exact .kept stream data last rest _ hif.1 hstream (hread ▸ .ended data last rest)
      · next e data last rest hread =>
        obtain ⟨rfl, rfl, rfl⟩ := hrun
        exact .kept stream data last rest _ hif.1 hstream (hread ▸ .threw e data last rest)
  · next hskip =>
    obtain ⟨rfl, rfl, rfl⟩ := hrun
    exact .skipped hskip

/-! ## `ReceivingBody` -/

/-- What `process` answers behind the loop, when it has nothing to close. -/
def BodyExit.answer (fileReadCount : ℕ) : BodyExit → Outcome
  | .threw e => .threw e
  | _ => .returned fileReadCount

/-- What the loop works on in a call. -/
def bodyState (w : Worker) (stream : Stream) (buffer : Buffer) (file : File) : BodyState :=
  { buffer := buffer, inbound := stream.inbound, file := file, fileOffset := w.fileOffset }

/-- The worker behind the loop. -/
def bodyLeft (w : Worker) (stream : Stream) (s : BodyState) : Worker :=
  { w with
    stream := some { stream with inbound := s.inbound }
    buffer := some s.buffer
    fileOffset := s.fileOffset }

/-- The loop has run, on this stream and this buffer. -/
structure Looped (w : Worker) (file : File) (event : EpollEvents) (once : Bool) (env : Env)
    (stream : Stream) (buffer : Buffer) (s : BodyState) (exit : BodyExit) : Prop where
  loop : bodyLoop kBufferSize (w.bodyState stream buffer file) env.fileWrites = (s, exit)
  state : w.state = .receivingBody
  once : once = false
  event : event.epollin = true
  stream : w.stream = some stream
  buffer : w.buffer = some buffer

inductive ReceivedBody (w : Worker) (file : File) (event : EpollEvents) (once : Bool) (env : Env) :
    Worker → File → ℕ → Option Outcome → Prop
  | skipped (hskip : ¬ (w.state = .receivingBody ∧ once = false ∧ event.epollin)) :
      ReceivedBody w file event once env w file 0 none
  | undefined (hstate : w.state = .receivingBody) (hnone : w.stream = none ∨ w.buffer = none) :
      ReceivedBody w file event once env w file 0 (some .undefined)
  /-- `kAgain` or an exception ends the call. -/
  | ended (stream : Stream) (buffer : Buffer) (s : BodyState) (exit : BodyExit)
      (hlooped : Looped w file event once env stream buffer s exit)
      (hexit : exit ≠ .finished ∧ exit ≠ .idle) :
      ReceivedBody w file event once env (w.bodyLeft stream s) s.file s.fileReadCount
        (some (exit.answer s.fileReadCount))
  | idle (stream : Stream) (buffer : Buffer) (s : BodyState)
      (hlooped : Looped w file event once env stream buffer s .idle) :
      ReceivedBody w file event once env (w.bodyLeft stream s) s.file s.fileReadCount none
  | finished (stream : Stream) (buffer : Buffer) (s : BodyState)
      (hlooped : Looped w file event once env stream buffer s .finished) :
      ReceivedBody w file event once env { w.bodyLeft stream s with state := .stopped } s.file
        s.fileReadCount none

lemma receivingBody_cases {file file' : File} {count : ℕ}
    (hrun : w.receivingBody file event once env = (w', file', count, o)) :
    ReceivedBody w file event once env w' file' count o := by
  unfold receivingBody at hrun
  split at hrun
  · next hif =>
    obtain ⟨hstate, honce, hevent⟩ := hif
    split at hrun
    · next stream buffer hstream hbuffer =>
      rcases hloop : bodyLoop kBufferSize (w.bodyState stream buffer file) env.fileWrites with
        ⟨s, exit⟩
      have hlooped : Looped w file event once env stream buffer s exit :=
        ⟨hloop, hstate, honce, hevent, hstream, hbuffer⟩
      rw [bodyState] at hloop
      simp only [hloop] at hrun
      cases exit with
      | again =>
        obtain ⟨rfl, rfl, rfl, rfl⟩ := hrun
        exact .ended stream buffer s .again hlooped (by simp)
      | threw e =>
        obtain ⟨rfl, rfl, rfl, rfl⟩ := hrun
        exact .ended stream buffer s (.threw e) hlooped (by simp)
      | finished =>
        obtain ⟨rfl, rfl, rfl, rfl⟩ := hrun
        exact .finished stream buffer s hlooped
      | idle =>
        obtain ⟨rfl, rfl, rfl, rfl⟩ := hrun
        exact .idle stream buffer s hlooped
    · next hnot =>
      obtain ⟨rfl, rfl, rfl, rfl⟩ := hrun
      refine .undefined hstate ?_
      cases hstream : w.stream with
      | none => exact Or.inl rfl
      | some stream =>
        cases hbuffer : w.buffer with
        | none => exact Or.inr rfl
        | some buffer => exact absurd hbuffer (hnot stream buffer hstream)
  · next hskip =>
    obtain ⟨rfl, rfl, rfl, rfl⟩ := hrun
    exact .skipped hskip

/-! ## `Stopped` -/

inductive Closed (w : Worker) (env : Env) : Worker → Option Outcome → Prop
  | skipped (hlive : w.state ≠ .stopped) : Closed w env w none
  | undefined (hstate : w.state = .stopped) (hstream : w.stream = none) :
      Closed w env w (some .undefined)
  /-- `epoll_ctl` fails. -/
  | refused (hstate : w.state = .stopped) (hstream : w.stream ≠ none) (hdel : env.del = false) :
      Closed w env w (some (.threw .systemError))
  /-- `shutdown` or `close` fails. -/
  | unclosed (hstate : w.state = .stopped) (hstream : w.stream ≠ none) (hdel : env.del = true)
      (hclose : ¬ (env.shutdown ∧ env.close)) :
      Closed w env { w with interest := none } (some (.threw .systemError))
  | closed (hstate : w.state = .stopped) (hstream : w.stream ≠ none) (hdel : env.del = true)
      (hclose : env.shutdown ∧ env.close) :
      Closed w env { w with interest := none, buffer := none, stream := none } none

lemma stopping_cases (hrun : w.stopping env = (w', o)) : Closed w env w' o := by
  unfold stopping at hrun
  split at hrun
  · next hstate =>
    split at hrun
    · next hnone =>
      obtain ⟨rfl, rfl⟩ := hrun
      exact .undefined hstate hnone
    · next stream hsome =>
      have hstream : w.stream ≠ none := hsome ▸ Option.some_ne_none stream
      split at hrun
      · next hdel =>
        split at hrun
        · next hclose =>
          obtain ⟨rfl, rfl⟩ := hrun
          exact .closed hstate hstream hdel hclose
        · next hclose =>
          obtain ⟨rfl, rfl⟩ := hrun
          exact .unclosed hstate hstream hdel hclose
      · next hdel =>
        obtain ⟨rfl, rfl⟩ := hrun
        exact .refused hstate hstream (Bool.eq_false_of_not_eq_true hdel)
  · next hlive =>
    obtain ⟨rfl, rfl⟩ := hrun
    exact .skipped hlive

/-! ## `forceStop` -/

inductive ForceStopped (w : Worker) (env : Env) : Worker → Option Fault → Prop
  | skipped (hstate : w.state = .stopped) : ForceStopped w env w none
  | undefined (hlive : w.state ≠ .stopped) (hstream : w.stream = none) :
      ForceStopped w env { w with state := .stopped } (some .undefined)
  /-- `epoll_ctl` fails. -/
  | refused (hlive : w.state ≠ .stopped) (hstream : w.stream ≠ none)
      (hdel : env.forceDel = false) :
      ForceStopped w env { w with state := .stopped } (some (.thrown .systemError))
  /-- `close` fails. -/
  | unclosed (hlive : w.state ≠ .stopped) (hstream : w.stream ≠ none) (hdel : env.forceDel = true)
      (hclose : env.forceClose = false) :
      ForceStopped w env { w with state := .stopped, interest := none }
        (some (.thrown .systemError))
  | closed (hlive : w.state ≠ .stopped) (hstream : w.stream ≠ none) (hdel : env.forceDel = true)
      (hclose : env.forceClose = true) :
      ForceStopped w env
        { w with state := .stopped, interest := none, buffer := none, stream := none } none

lemma forceStop_cases {fault : Option Fault} (hrun : w.forceStop env = (w', fault)) :
    ForceStopped w env w' fault := by
  unfold forceStop at hrun
  split at hrun
  · next hlive =>
    simp only at hrun
    split at hrun
    · next hnone =>
      obtain ⟨rfl, rfl⟩ := hrun
      exact .undefined hlive hnone
    · next stream hsome =>
      have hstream : w.stream ≠ none := hsome ▸ Option.some_ne_none stream
      split at hrun
      · next hdel =>
        split at hrun
        · next hclose =>
          obtain ⟨rfl, rfl⟩ := hrun
          exact .closed hlive hstream hdel hclose
        · next hclose =>
          obtain ⟨rfl, rfl⟩ := hrun
          exact .unclosed hlive hstream hdel (Bool.eq_false_of_not_eq_true hclose)
      · next hdel =>
        obtain ⟨rfl, rfl⟩ := hrun
        exact .refused hlive hstream (Bool.eq_false_of_not_eq_true hdel)
  · next hstate =>
    obtain ⟨rfl, rfl⟩ := hrun
    exact .skipped (not_not.1 hstate)

end Cld.Worker
