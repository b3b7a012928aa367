import Cld.Framework.Transition
import Cld.Model.Socket

/-!
# Signals

A signal may interrupt a system call at any time.  `TcpStream` tries again, and the program never
learns of it: whatever it reads and writes, it has the dialogue that it would have had with a
`Connection`, on which nothing is ever interrupted.

* `uninterrupted` and `unbroken` strike the interruptions out of what a socket has to say.  A read
  that an interruption cuts short returns what it has, so that the byte before it ends a segment.
* `call_connection`: one use of a `TcpStream` is one of the `Connection`.
* `Connection.implemented` goes from one use to every sequence of uses, whatever the stream, and
  `interrupts_unseen` is what comes of it.
-/

namespace Cld

open Framework

/-! ## Without the interruptions -/

/-- What the program reads from a socket. -/
def uninterrupted : List SocketItem → Inbound
  | [] => []
  | .byte b brk :: rest =>
    .byte b (brk || decide (rest.head? = some .interrupted)) :: uninterrupted rest
  | .eof :: rest => .eof :: uninterrupted rest
  | .interrupted :: rest => uninterrupted rest
  | .wouldBlock :: rest => .again :: uninterrupted rest
  | .failed :: rest => .fail .systemError :: uninterrupted rest

/-- What a socket answers to the writes of the program. -/
def unbroken : List SocketWrite → List SendResult
  | [] => []
  | .accepts n :: rest => .accepts n :: unbroken rest
  | .interrupted :: rest => unbroken rest
  | .wouldBlock :: rest => .again :: unbroken rest
  | .failed :: rest => .threw .systemError :: unbroken rest

/-- What the program sees of a socket. -/
def Socket.connection (socket : Socket) : Connection where
  stream := { inbound := uninterrupted socket.inbound, sent := socket.sent }
  results := unbroken socket.writes

/-! ## One system call -/

/-- A run of bytes that an interruption does not stop at its beginning. -/
lemma socketRun_uninterrupted (n : ℕ) {items : List SocketItem}
    (hitems : items.head? ≠ some .interrupted) :
    takeRun n (uninterrupted items) =
      ((socketRun n items).1, uninterrupted (socketRun n items).2) := by
  induction n generalizing items with
  | zero => rfl
  | succ n ih =>
    cases items with
    | nil => rfl
    | cons item rest =>
      cases item with
      | eof => rfl
      | wouldBlock => rfl
      | failed => rfl
      | interrupted => exact absurd rfl hitems
      | byte b brk =>
        by_cases hbrk : brk = true
        · simp [takeRun, socketRun, uninterrupted, hbrk]
        · by_cases hrest : rest.head? = some .interrupted
          · -- the read is cut short behind this byte
            obtain ⟨rest, rfl⟩ : ∃ rest', rest = .interrupted :: rest' :=
              List.head?_eq_some_iff.1 hrest
            cases n <;> simp [takeRun, socketRun, uninterrupted, hbrk]
          · simp [takeRun, socketRun, uninterrupted, hbrk, hrest, ih hrest]

/-- What the program is told of a `::read` that has not been interrupted. -/
def SysRead.result : SysRead → ReadResult
  | .count bs => .ok bs
  | .failed => .threw .systemError
  | .wouldBlock => .again
  | .interrupted => .again

/-- **`::read`**, unless it is interrupted. -/
lemma sysRead_uninterrupted {n : ℕ} {items rest : List SocketItem} {r : SysRead}
    (h : sysRead n items = (r, rest)) (hr : r ≠ .interrupted) :
    Inbound.read n (uninterrupted items) = (r.result, uninterrupted rest) := by
  by_cases hn : n = 0
  · simp only [sysRead, hn, if_true, Prod.mk.injEq] at h
    obtain ⟨rfl, rfl⟩ := h
    simp [Inbound.read, hn, SysRead.result]
  · simp only [sysRead, hn, if_false] at h
    cases items with
    | nil =>
      obtain ⟨rfl, rfl⟩ := Prod.mk.inj h
      simp [Inbound.read, hn, uninterrupted, SysRead.result]
    | cons item items =>
      cases item with
      | interrupted => exact absurd (Prod.mk.inj h).1.symm hr
      | eof =>
        obtain ⟨rfl, rfl⟩ := Prod.mk.inj h
        simp [Inbound.read, hn, uninterrupted, SysRead.result]
      | wouldBlock =>
        obtain ⟨rfl, rfl⟩ := Prod.mk.inj h
        simp [Inbound.read, hn, uninterrupted, SysRead.result]
      | failed =>
        obtain ⟨rfl, rfl⟩ := Prod.mk.inj h
        simp [Inbound.read, hn, uninterrupted, SysRead.result]
      | byte b brk =>
        obtain ⟨rfl, rfl⟩ := Prod.mk.inj h
        have hrun := @socketRun_uninterrupted n (.byte b brk :: items) (by simp)
        rw [uninterrupted] at hrun ⊢
        simp only [Inbound.read, hn, if_false, hrun, SysRead.result]

/-! ## One use of the stream -/

namespace TcpStream

variable {s : TcpStream}

/-- **Reading** again and again until no signal interrupts. -/
lemma readLoop_uninterrupted (n : ℕ) (items : List SocketItem) :
    Inbound.read n (uninterrupted items) =
      ((readLoop n items).1, uninterrupted (readLoop n items).2) := by
  fun_induction readLoop n items with
  | case1 items rest h ih =>
    rw [(sysRead_interrupted h).2]
    exact ih
  | case2 items rest h => exact sysRead_uninterrupted h SysRead.noConfusion
  | case3 items rest h => exact sysRead_uninterrupted h SysRead.noConfusion
  | case4 items bs rest h => exact sysRead_uninterrupted h SysRead.noConfusion

/-- **Writing** again and again. -/
lemma writeLoop_unbroken (data : Bytes) (writes : List SocketWrite) :
    (unbroken writes = [] ∧ writeLoop data writes = (.again, [])) ∨
      ∃ r results, unbroken writes = r :: results ∧
        unbroken (writeLoop data writes).2 = results ∧
        (writeLoop data writes).1 = (match r with
          | .accepts n => .accepts (min n data.length)
          | r => r) := by
  induction writes with
  | nil => exact Or.inl ⟨rfl, rfl⟩
  | cons write writes ih =>
    cases write with
    | interrupted => exact ih
    | accepts n => exact Or.inr ⟨_, _, rfl, rfl, rfl⟩
    | wouldBlock => exact Or.inr ⟨_, _, rfl, rfl, rfl⟩
    | failed => exact Or.inr ⟨_, _, rfl, rfl, rfl⟩

/-- **One use of a `TcpStream`** is one of the connection that the program sees. -/
lemma call_connection (hfd : s.fd ≠ -1) (socket : Socket) (use : StreamCall) :
    socket.connection.call use = ((s.call socket use).1, (s.call socket use).2.connection) := by
  cases use with
  | read size =>
    have hread := readLoop_uninterrupted size socket.inbound
    simp only [Connection.call, call, read, if_neg hfd, Socket.connection, hread]
  | write data =>
    rcases writeLoop_unbroken data socket.writes with ⟨hnil, hloop⟩ | ⟨r, results, hcons, hrest, hr⟩
    · simp [Connection.call, call, write, if_neg hfd, Socket.connection, hnil, hloop,
        SendResult.taken, unbroken]
    · cases r <;> simp [Connection.call, call, write, if_neg hfd, Socket.connection, hcons, hrest,
        hr, SendResult.taken]

end TcpStream

/-! ## Every sequence of uses -/

namespace Connection

/-- The bytes that a use of a stream has brought in. -/
def received : StreamCall × StreamAnswer → Bytes
  | (.read _, .read (.ok bs)) => bs
  | _ => []

/-- The bytes that it has sent. -/
def delivered : StreamCall × StreamAnswer → Bytes
  | (.write data, .write r) => data.take r.taken
  | _ => []

def step (c : Connection) (use : StreamCall) : Option Connection := some (c.call use).2

/-- The uses of a connection one after the other, and what they come to. -/
def dialogue (c : Connection) (uses : List StreamCall) : List (StreamCall × StreamAnswer) :=
  Transition.shown step (fun c use => some (use, (c.call use).1)) c uses

/-- What a use takes from the peer's bytes, and what it sends. -/
lemma call_spec (c : Connection) (use : StreamCall) :
    received (use, (c.call use).1) ++ payload (c.call use).2.stream.inbound =
        payload c.stream.inbound ∧
      (c.call use).2.stream.sent = c.stream.sent ++ delivered (use, (c.call use).1) := by
  cases use with
  | read size =>
    rcases h : c.stream.inbound.read size with ⟨r, inbound⟩
    simp only [call, h, delivered, List.append_nil, and_true]
    cases r with
    | ok bs => exact (Inbound.read_ok h).1.symm
    | again => exact Inbound.payload_of_read h fun _ => ReadResult.noConfusion
    | threw e => exact Inbound.payload_of_read h fun _ => ReadResult.noConfusion
  | write data =>
    rcases c with ⟨stream, results⟩
    cases results with
    | nil => simp [call, received, delivered, SendResult.taken]
    | cons r results => cases r <;> simp [call, received, delivered, SendResult.taken]

/-- **No byte is lost or made up** in a dialogue. -/
lemma dialogue_spec {c c' : Connection} {uses : List StreamCall}
    (hrun : Transition.run step c uses = some c') :
    (c.dialogue uses).flatMap received ++ payload c'.stream.inbound = payload c.stream.inbound ∧
      c'.stream.sent = c.stream.sent ++ (c.dialogue uses).flatMap delivered := by
  have hone : ∀ {c d : Connection} {use : StreamCall}, step c use = some d → d = (c.call use).2 :=
    fun hd => (Option.some.inj hd).symm
  unfold dialogue
  constructor
  · refine Transition.shown_taken received (fun c => payload c.stream.inbound)
      (fun c use d hd => ?_) hrun
    rw [hone hd, Option.toList_some, List.flatMap_singleton]
    exact (c.call_spec use).1
  · refine Transition.shown_given delivered (fun c => c.stream.sent)
      (fun c use d hd => ?_) hrun
    rw [hone hd, Option.toList_some, List.flatMap_singleton]
    exact (c.call_spec use).2

/-- **What implements a connection** use by use does so in every sequence of uses. -/
lemma implemented {σ : Type} {call : σ → StreamCall → StreamAnswer × σ} {view : σ → Connection}
    {uses : List StreamCall}
    (hcall : ∀ t, ∀ use ∈ uses, (view t).call use = ((call t use).1, view (call t use).2)) (t : σ) :
    Transition.shown (fun t use => some (call t use).2) (fun t use => some (use, (call t use).1)) t
        uses = (view t).dialogue uses ∧
      ∃ t', Transition.run (fun t use => some (call t use).2) t uses = some t' ∧
        Transition.run step (view t) uses = some (view t') ∧
        ((view t).dialogue uses).flatMap received ++ payload (view t').stream.inbound =
          payload (view t).stream.inbound ∧
        (view t').stream.sent =
          (view t).stream.sent ++ ((view t).dialogue uses).flatMap delivered := by
  have hstep : ∀ t, ∀ use ∈ uses, (some (call t use).2).map view = (view t).step use := by
    intro t use huse
    rw [step, hcall t use huse, Option.map_some]
  have hview : ∀ t, ∀ use ∈ uses,
      some (use, (call t use).1) = some (use, ((view t).call use).1) := by
    intro t use huse
    rw [hcall t use huse]
  have htotal : ∀ t use, ∃ t', some (call t use).2 = some t' := fun t use => ⟨_, rfl⟩
  obtain ⟨t', hrun⟩ := Transition.exists_run htotal t uses
  have hrun' := Transition.run_map hstep t
  rw [hrun, Option.map_some] at hrun'
  obtain ⟨hreceived, hdelivered⟩ := dialogue_spec hrun'.symm
  exact ⟨Transition.shown_map hstep hview t, t', hrun, hrun'.symm, hreceived, hdelivered⟩

end Connection

namespace TcpStream

variable {s : TcpStream}

def step (s : TcpStream) (socket : Socket) (use : StreamCall) : Option Socket :=
  some (s.call socket use).2

/-- The uses of a stream one after the other, and what they come to. -/
def dialogue (s : TcpStream) (socket : Socket) (uses : List StreamCall) :
    List (StreamCall × StreamAnswer) :=
  Transition.shown s.step (fun socket use => some (use, (s.call socket use).1)) socket uses

/-- **Signals are not seen**, and cost no byte.  Wherever they interrupt, an open `TcpStream` has
the dialogue of the connection without them; what it brings in is what the peer sends, in order,
and what it has sent is what its writes have reported. -/
theorem interrupts_unseen (hfd : s.fd ≠ -1) (socket : Socket) (uses : List StreamCall) :
    s.dialogue socket uses = socket.connection.dialogue uses ∧
      ∃ socket', Transition.run s.step socket uses = some socket' ∧
        Transition.run Connection.step socket.connection uses = some socket'.connection ∧
        (s.dialogue socket uses).flatMap Connection.received ++
            payload (uninterrupted socket'.inbound) =
          payload (uninterrupted socket.inbound) ∧
        socket'.sent = socket.sent ++ (s.dialogue socket uses).flatMap Connection.delivered := by
  obtain ⟨hsame, socket', hrun, hrun', hreceived, hdelivered⟩ :=
    Connection.implemented (fun socket use (_ : use ∈ uses) => call_connection hfd socket use)
      socket
  have hsame' : s.dialogue socket uses = socket.connection.dialogue uses := hsame
  rw [hsame']
  exact ⟨rfl, socket', hrun, hrun', hreceived, hdelivered⟩

/-- A request that is sent in two pieces, and an answer of three bytes, with a signal in each. -/
def interruptedSocket : Socket where
  inbound := [.interrupted, .byte 72 false, .interrupted, .byte 84 false, .byte 84 false, .eof]
  writes := [.accepts 1, .interrupted, .accepts 5]

/-- The first read has to be content with one byte. -/
theorem interrupts_unseen_signals :
    TcpStream.dialogue ⟨3⟩ interruptedSocket [.write [71, 69], .write [69], .read 4, .read 4] =
      [(.write [71, 69], .write (.accepts 1)), (.write [69], .write (.accepts 1)),
        (.read 4, .read (.ok [72])), (.read 4, .read (.ok [84, 84]))] :=
  (interrupts_unseen (by decide) interruptedSocket _).1.trans (by decide)

end TcpStream

end Cld
