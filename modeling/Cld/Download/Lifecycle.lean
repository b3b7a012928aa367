import Cld.Download.Workers
import Cld.Worker.Lifecycle

/-!
# The lives of the workers

What the loop does with its workers from their creation to their end, over whole runs.

* `SlotStep` lists what may become of a slot: a worker is created, moves forward, or is destroyed,
  and it is destroyed only when it has stopped.  Another one may take its place at once.
* `Safe` is what holds between two steps: a worker that has not stopped has its stream and is
  registered, one that receives a body has its buffer, and the events that are still to be handled
  belong to workers that have not stopped.
* `Defined` is what this is for: `process` and `forceStop` find what they follow.

A stopped worker stays in its slot until the slot is visited again, and would follow a null pointer
if it were sent another event; it is safe because it is no longer registered.  Events are reported
of registered workers only, once each (`Reportable`), so that an event which stops its worker leaves
no other of the same worker behind it.
-/

namespace Cld.Download

open Framework

/-- What a step may do to a slot. -/
inductive SlotStep : Option Held → Option Held → Prop
  | empty : SlotStep none none
  | created (ptr : WorkerPtr) (stream : Stream) (request : Request) (o : ℤ) :
      SlotStep none (some ⟨ptr, Worker.create stream request o⟩)
  | forward (h h' : Held) (hptr : h'.ptr = h.ptr)
      (hstage : h.obj.state.stage ≤ h'.obj.state.stage) : SlotStep (some h) (some h')
  | destroyed (h : Held) (hstate : h.obj.state = .stopped) : SlotStep (some h) none
  | replaced (h : Held) (hstate : h.obj.state = .stopped) (ptr : WorkerPtr) (stream : Stream)
      (request : Request) (o : ℤ) :
      SlotStep (some h) (some ⟨ptr, Worker.create stream request o⟩)

/-- Slot by slot. -/
def Evolves (workers workers' : List (Option Held)) : Prop :=
  List.Forall₂ SlotStep workers workers'

/-- The workers between two steps of the loop. -/
structure Safe (s : Download) : Prop where
  stream : ∀ h, some h ∈ s.workers → h.obj.state ≠ .stopped → h.obj.stream ≠ none
  buffer : ∀ h, some h ∈ s.workers → h.obj.state = .receivingBody → h.obj.buffer ≠ none
  registered : ∀ h, some h ∈ s.workers → h.obj.Watched
  /-- The worker of an event that is still to be handled exists, and has not stopped. -/
  pending : ∀ events, s.pc = .dispatch events → ∀ e ∈ events,
    ∃ w, s.find e.1 = some w ∧ w.state ≠ .stopped

/-- No null pointer is followed in handling the next event, whatever the system answers: neither in
`process` nor in the `forceStop` that may come after it. -/
def Defined (s : Download) : Prop :=
  ∀ p event rest w env, s.pc = .dispatch ((p, event) :: rest) → s.find p = some w →
    (w.process s.file event env).1 ≠ .undefined ∧
      ((w.process s.file event env).2.1.forceStop env).2 ≠ some .undefined

/-- The system calls of a step meet the assumptions about `epoll_ctl` and `shutdown`. -/
def Orderly : Label → Prop
  | .process env => env.Orderly
  | .slot _ => True
  | .wait _ => True
  | .clock _ => True

variable {cfg : Config} {s s' : Download} {label : Label} {workers : List (Option Held)}
  {slot slot' : Option Held} {i : ℕ}

/-! ## What becomes of the slots -/

lemma SlotStep.refl (slot : Option Held) : SlotStep slot slot := by
  cases slot with
  | none => exact .empty
  | some h => exact .forward h h rfl le_rfl

lemma Evolves.refl (workers : List (Option Held)) : Evolves workers workers :=
  List.forall₂_same.2 fun slot _ => .refl slot

/-- One slot is overwritten. -/
lemma evolves_set (hslot : workers[i]? = some slot) (hstep : SlotStep slot slot') :
    Evolves workers (workers.set i slot') := by
  induction workers generalizing i with
  | nil => cases hslot
  | cons first workers ih =>
    cases i with
    | zero =>
      obtain rfl : first = slot := by simpa using hslot
      exact .cons hstep (Evolves.refl workers)
    | succ i => exact .cons (.refl first) (ih (by simpa using hslot))

/-- One worker is stored back. -/
lemma evolves_putWorker {p : WorkerPtr} {w w' : Worker} (hdistinct : (pointers workers).Nodup)
    (hmem : some ⟨p, w⟩ ∈ workers) (hstage : w.state.stage ≤ w'.state.stage) :
    Evolves workers (putWorker workers p w') := by
  unfold Evolves putWorker
  rw [List.forall₂_map_right_iff, List.forall₂_same]
  intro slot hslot
  cases slot with
  | none => exact .empty
  | some h =>
    by_cases hp : h.ptr = p
    · -- no other slot holds the address
      have hw : h.obj = w := by
        have hfind := (workerAt_iff hdistinct).2 hmem
        have hfind' := (workerAt_iff hdistinct).2 (show some ⟨p, h.obj⟩ ∈ workers from hp ▸ hslot)
        exact Option.some.inj (hfind'.symm.trans hfind)
      simp only [Option.map_some, hp, if_true]
      exact .forward h _ hp.symm (hw ▸ hstage)
    · simp only [Option.map_some, hp, if_false]
      exact .refl (some h)

lemma Cleaned.stopped_of_some {c c' : LengthController} {h : Held}
    (hclean : Cleaned c (some h) c') : h.obj.state = .stopped := by
  cases hclean with
  | empty hslot hc => cases hslot
  | stopped h' hslot hstate hrel hval => exact Option.some.inj hslot ▸ hstate

lemma Cleaned.emptied {c c' : LengthController} (hclean : Cleaned c slot c') :
    SlotStep slot none := by
  cases slot with
  | none => exact .empty
  | some h => exact .destroyed h hclean.stopped_of_some

lemma Cleaned.refilled {c c' : LengthController} (hclean : Cleaned c slot c') (ptr : WorkerPtr)
    (stream : Stream) (request : Request) (o : ℤ) :
    SlotStep slot (some ⟨ptr, Worker.create stream request o⟩) := by
  cases slot with
  | none => exact .created ptr stream request o
  | some h => exact .replaced h hclean.stopped_of_some ptr stream request o

lemma Visited.evolves {choice : SlotChoice} (hslot : s.workers[i]? = some slot)
    (h : Visited s i slot choice s') : Evolves s.workers s'.workers := by
  cases h with
  | kept h' hslot' hlive => exact .refl _
  | stuck c hclean hnil => exact evolves_set hslot hclean.emptied
  | idle c n hclean hback hrange => exact evolves_set hslot hclean.emptied
  | refused c n e hclean hback hrange => exact evolves_set hslot hclean.emptied
  | assigned c c' n stream hclean hback hrange hconnection hptr hnode hadd =>
    exact evolves_set hslot (hclean.refilled _ _ _ _)

/-! ## One step -/

/-- The worker of an event afterwards, and where the loop goes on. -/
lemma Handled.lifecycle {rest : List (WorkerPtr × EpollEvents)} {p : WorkerPtr}
    {w w₁ : Worker} {env : Env} {outcome : Outcome} {file : File} (horderly : env.Orderly)
    (hwf : w₁.WF) (hwatched : w₁.Watched) (h : Handled s rest p w env outcome w₁ file s') :
    (∃ v, s'.workers = putWorker s.workers p v ∧ w₁.state.stage ≤ v.state.stage ∧ v.Watched) ∧
      (s'.pc = .dispatch rest ∨ ∃ fault, s'.pc = .failed fault) := by
  cases h with
  | unread n ho hstate => exact ⟨⟨w₁, rfl, le_rfl, hwatched⟩, Or.inl rfl⟩
  | read n c ho hstate hprog hfinder => exact ⟨⟨w₁, rfl, le_rfl, hwatched⟩, Or.inl rfl⟩
  | full n c w₂ fault ho hstate hprog hfinder hstop =>
    refine ⟨⟨w₂, rfl, Worker.forceStop_watched hwf horderly hwatched hstop⟩, ?_⟩
    cases fault with
    | none => exact Or.inl rfl
    | some fault => exact Or.inr ⟨fault, rfl⟩
  | caught e c w₂ ho hstate hstop hrel =>
    exact ⟨⟨w₂, rfl, Worker.forceStop_watched hwf horderly hwatched hstop⟩, Or.inl rfl⟩
  | lost e c w₂ ho hstate hstop hrel =>
    exact ⟨⟨w₂, rfl, Worker.forceStop_watched hwf horderly hwatched hstop⟩, Or.inr ⟨_, rfl⟩⟩
  | torn e w₂ fault ho hstop =>
    exact ⟨⟨w₂, rfl, Worker.forceStop_watched hwf horderly hwatched hstop⟩, Or.inr ⟨_, rfl⟩⟩

/-- The part of `Safe` that the invariant of the loop does not know already. -/
lemma Inv.safe (h : s.Inv cfg) (hregistered : ∀ h, some h ∈ s.workers → h.obj.Watched)
    (hpending : ∀ events, s.pc = .dispatch events → ∀ e ∈ events,
      ∃ w, s.find e.1 = some w ∧ w.state ≠ .stopped) : s.Safe where
  stream h' hh' := (h.core.wf h' hh').stream
  buffer h' hh' := (h.core.wf h' hh').buffer
  registered := hregistered
  pending := hpending

lemma safe_init (cfg : Config) (node : NodePtr) (now : ℤ) : (init cfg node now).Safe :=
  (inv_init cfg node now).safe (fun _ hh => by cases List.eq_of_mem_replicate hh)
    fun _ hpc => by cases hpc

/-- An event that epoll reports belongs to a worker that has not stopped. -/
lemma Safe.reported {events : List (WorkerPtr × EpollEvents)} (hinv : s.Inv cfg) (h : s.Safe)
    (hreportable : s.Reportable events) {e : WorkerPtr × EpollEvents} (he : e ∈ events) :
    ∃ w, s.find e.1 = some w ∧ w.state ≠ .stopped := by
  obtain ⟨w, hfind, hmay⟩ := (Option.any_eq_true _ _).1 (hreportable.2 e he)
  have hwatched := h.registered _ ((workerAt_iff hinv.core.distinct).1 hfind)
  refine ⟨w, hfind, hwatched.1 fun hnone => ?_⟩
  rw [mayReport, hnone] at hmay
  cases hmay

lemma Visited.pc_ne_dispatch {choice : SlotChoice} (h : Visited s i slot choice s')
    (events : List (WorkerPtr × EpollEvents)) : s'.pc ≠ .dispatch events := by
  cases h with
  | kept h' hslot' hlive => exact Pc.noConfusion
  | stuck c hclean hnil => exact Pc.noConfusion
  | idle c n hclean hback hrange => exact Pc.noConfusion
  | refused c n e hclean hback hrange => exact Pc.noConfusion
  | assigned c c' n stream hclean hback hrange hconnection hptr hnode hadd => exact Pc.noConfusion

/-- A slot is looked at, and a worker may be created for it. -/
lemma Safe.visit_step {choice : SlotChoice} (hinv : s.Inv cfg) (hinv' : s'.Inv cfg) (h : s.Safe)
    (hslot : s.workers[i]? = some slot) (hvisit : s.visit i slot choice = some s') :
    s'.Safe ∧ Evolves s.workers s'.workers := by
  have hvisited := visit_cases hinv.core.indexed hvisit
  have hregistered : ∀ h', some h' ∈ s'.workers → h'.obj.Watched := by
    intro h' hh'
    rcases hvisited.changed.2 h' hh' with hold | ⟨stream, request, o, hnew⟩
    · exact h.registered h' hold
    · rw [hnew]
      exact Worker.watched_create stream request o
  exact ⟨hinv'.safe hregistered fun events hev => absurd hev (hvisited.pc_ne_dispatch events),
    hvisited.evolves hslot⟩

/-- An event is handled, and its worker stored back. -/
lemma Safe.handle_step {p : WorkerPtr} {event : EpollEvents}
    {rest : List (WorkerPtr × EpollEvents)} {env : Env} (hinv : s.Inv cfg) (hinv' : s'.Inv cfg)
    (h : s.Safe) (horderly : env.Orderly) (hpc : s.pc = .dispatch ((p, event) :: rest))
    (hhandle : s.handle rest p event env = some s') :
    s'.Safe ∧ Evolves s.workers s'.workers := by
  obtain ⟨w, outcome, w₁, file, hfind, hmem, hwf, hstream, hprocess, hhandled⟩ :=
    hinv.exists_handled hpc hhandle
  obtain ⟨v, hv, hlive⟩ := h.pending _ hpc (p, event) List.mem_cons_self
  obtain rfl : v = w := Option.some.inj (hv.symm.trans hfind)
  have hinterest : v.interest ≠ none := (h.registered _ hmem).2 hlive
  obtain ⟨hstage, hwatched⟩ := Worker.process_watched hwf horderly hinterest hprocess
  have hwf₁ := (Worker.process_spec hwf hstream hprocess).wf
  obtain ⟨⟨w₂, hworkers, hstage₂, hwatched₂⟩, hpc'⟩ :=
    hhandled.lifecycle horderly hwf₁ hwatched
  have hregistered : ∀ h', some h' ∈ s'.workers → h'.obj.Watched := by
    intro h' hh'
    rw [hworkers] at hh'
    rcases mem_putWorker hh' with ⟨-, hobj⟩ | ⟨-, hold⟩
    · exact hobj ▸ hwatched₂
    · exact h.registered h' hold
  refine ⟨hinv'.safe hregistered fun events hev e he => ?_, ?_⟩
  · -- the other events are those of other workers
    obtain ⟨hnodup, -⟩ := hinv.pending _ hpc
    rw [List.map_cons, List.nodup_cons] at hnodup
    rcases hpc' with hrest | ⟨fault, hfailed⟩
    · obtain rfl : rest = events := Pc.dispatch.inj (hrest.symm.trans hev)
      have hne : e.1 ≠ p := fun heq => hnodup.1 (List.mem_map.2 ⟨e, he, heq⟩)
      obtain ⟨u, hu, hulive⟩ := h.pending _ hpc e (List.mem_cons_of_mem _ he)
      refine ⟨u, ?_, hulive⟩
      rw [find, hworkers, workerAt_putWorker_of_ne hinv.core.distinct hne]
      exact hu
    · rw [hfailed] at hev
      cases hev
  · rw [hworkers]
    exact evolves_putWorker hinv.core.distinct hmem (hstage.trans hstage₂)

/-- **One round of the loop** keeps the workers safe and moves them forward. -/
lemma Safe.step (hinv : s.Inv cfg) (h : s.Safe) (hlabel : Orderly label)
    (hstep : s.step label = some s') : s'.Safe ∧ Evolves s.workers s'.workers := by
  have hinv' : s'.Inv cfg := hinv.step hstep
  cases step_cases hstep with
  | passed i choice hpc hslot => exact ⟨hinv'.safe h.registered nofun, .refl _⟩
  | visited i slot choice s' hpc hslot hvisit => exact h.visit_step hinv hinv' hslot hvisit
  | waited events hpc hreportable =>
    refine ⟨hinv'.safe h.registered fun events' hev e he => ?_, .refl _⟩
    obtain rfl : events = events' := by simpa using hev
    exact h.reported hinv hreportable he
  | handled p event rest env s' hpc hhandle => exact h.handle_step hinv hinv' hlabel hpc hhandle
  | ticked now hpc =>
    obtain ⟨time, lastTime, pc, htick, hfin⟩ := s.tick_cases now
    rw [htick] at hinv' ⊢
    refine ⟨hinv'.safe h.registered fun events hev => ?_, .refl _⟩
    have hev' : pc = .dispatch events := hev
    rcases hfin with ⟨fault, -, rfl⟩ | ⟨-, rfl⟩ | ⟨-, rfl | rfl⟩ <;> cases hev'

/-! ## Whole runs -/

/-- What is followed belongs to a worker that has not stopped. -/
lemma Inv.defined (h : s.Inv cfg) : s.Defined := by
  intro p event rest w env hpc hfind
  obtain ⟨w', hfind', -, hwf, hstream, -⟩ := h.exists_worker hpc
  obtain rfl : w' = w := Option.some.inj (hfind'.symm.trans hfind)
  rcases hprocess : w'.process s.file event env with ⟨outcome, w₁, file⟩
  have hproc := Worker.process_spec hwf hstream hprocess
  rcases hstop : w₁.forceStop env with ⟨w₂, fault⟩
  obtain ⟨-, -, -, hdefined, -⟩ := Worker.forceStop_spec hproc.wf hstop
  exact ⟨hproc.defined, hdefined⟩

lemma Safe.run {node : NodePtr} {now : ℤ} {labels : List Label}
    (hrun : Transition.run Download.step (init cfg node now) labels = some s)
    (hlabels : ∀ label ∈ labels, Orderly label) : s.Inv cfg ∧ s.Safe := by
  have hkeeps : ∀ (s : Download) (label : Label) (s' : Download), s.Inv cfg ∧ s.Safe →
      Orderly label → s.step label = some s' → s'.Inv cfg ∧ s'.Safe :=
    fun s label s' h hlabel hstep => ⟨h.1.step hstep, (h.2.step h.1 hlabel hstep).1⟩
  exact Transition.run_invariant_of_always hkeeps ⟨inv_init cfg node now, safe_init cfg node now⟩
    (Transition.always_of_forall hlabels _) hrun

/-- **The life of a worker.**  In every state that a run reaches, a worker that has not stopped has
its stream and is registered with epoll, one that receives a body has its buffer, one that has
stopped is not registered, and the events to be handled are those of workers that have not stopped.
No null pointer is followed in handling them.  The next step creates workers, moves them forward,
or destroys them when they have stopped. -/
theorem worker_lifecycle {node : NodePtr} {now : ℤ} {labels : List Label}
    (hrun : Transition.run Download.step (init cfg node now) labels = some s)
    (hlabels : ∀ label ∈ labels, Orderly label) :
    s.Safe ∧ s.Defined ∧ ∀ label s', Orderly label → s.step label = some s' →
      Evolves s.workers s'.workers := by
  obtain ⟨hinv, hsafe⟩ := Safe.run hrun hlabels
  refine ⟨hsafe, hinv.defined, fun label s' hlabel hstep => ?_⟩
  exact (hsafe.step hinv hlabel hstep).2

/-- A worker is created, and its connection breaks while it sends the request. -/
def brokenSending : List Label :=
  [.slot ⟨1, 1, .ok ⟨[], []⟩⟩, .slot ⟨2, 2, .ok ⟨[], []⟩⟩, .wait [(1, { epollout := true })],
    .process { send := .threw .systemError }]

/-- It is stopped, and no longer registered. -/
theorem worker_lifecycle_broken : ∃ s,
    Transition.run Download.step (init ⟨100, 1, [], [], [], []⟩ 0 0) brokenSending = some s ∧
      s.Safe ∧ s.Defined ∧ ∀ label s', Orderly label → s.step label = some s' →
        Evolves s.workers s'.workers := by
  have hrun : Transition.run Download.step (init ⟨100, 1, [], [], [], []⟩ 0 0) brokenSending =
      some _ := rfl
  refine ⟨_, hrun, worker_lifecycle hrun fun label hlabel => ?_⟩
  simp only [brokenSending, List.mem_cons, List.not_mem_nil, or_false] at hlabel
  rcases hlabel with rfl | rfl | rfl | rfl
  · exact trivial
  · exact trivial
  · exact trivial
  · exact ⟨rfl, rfl, rfl, rfl, rfl⟩

end Cld.Download
