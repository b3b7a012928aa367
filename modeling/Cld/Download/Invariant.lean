import Cld.Controller.Partition
import Cld.Download.Step
import Cld.Framework.Transition

/-!
# The invariant of the loop

What holds of the workers and the controller between any two rounds of the loop.

* `Core`: the slots hold distinct, well-formed workers, the indexes of the controller agree,
  and the controller refers to held workers only.
* `Synced`: every fragment that is being fetched begins at the offset of its worker, and every
  worker that has not stopped is charged with a fragment.
* `Inv` adds what the program counter has to do with them, and for files of one byte and more
  the partition of the outstanding work.

An exception that leaves the loop in the middle of an event may leave a worker ahead of its
fragment, so `Synced` is claimed of running states only.  The three changes the loop makes to
workers and controller together, cleaning a slot, filling it and finishing an event, are
treated one by one; `Inv.step` puts them together, and `Inv.run` is the induction.
-/

namespace Cld.Download

open Framework LengthController

/-- The slots and the controller, whatever state the workers are in. -/
structure Core (workers : List (Option Held)) (c : LengthController) : Prop where
  distinct : (pointers workers).Nodup
  wf : ∀ h, some h ∈ workers → h.obj.WF
  indexed : c.Indexed
  /-- The controller refers to held workers only. -/
  held : ∀ p, c.nodeFinder.lookup p ≠ none → p ∈ pointers workers

/-- The controller has caught up with the workers. -/
structure Synced (workers : List (Option Held)) (c : LengthController) : Prop where
  tracks : c.Tracks (offsets workers)
  /-- A worker that has not stopped is charged with a fragment. -/
  live : ∀ h, some h ∈ workers → h.obj.state ≠ .stopped → c.nodeFinder.lookup h.ptr ≠ none

variable {workers : List (Option Held)} {c c' : LengthController} {i : ℕ} {h : Held}
  {p : WorkerPtr} {w w₁ : Worker} {size : ℤ}

lemma Core.sort (hcore : Core workers c) : Core workers c.sort where
  distinct := hcore.distinct
  wf := hcore.wf
  indexed := hcore.indexed.sort
  held := hcore.held

lemma Synced.sort (hsync : Synced workers c) : Synced workers c.sort where
  tracks := hsync.tracks.perm c.sort_perm
  live := hsync.live

/-! ## Cleaning a slot -/

/-- The worker of a slot goes, once the controller has released it. -/
lemma Core.clean {slot : Option Held} (hcore : Core workers c)
    (hslot : workers[i]? = some slot) (hclean : Cleaned c slot c') :
    Core (workers.set i none) c' := by
  cases hclean with
  | empty hnone hc =>
    rw [hnone] at hslot
    rw [set_none_of_slot hslot, hc]
    exact hcore
  | stopped h hsome hstate hrel =>
    rw [hsome] at hslot
    have hlookup := hrel.lookup
    refine ⟨(pointers_set_none workers i).nodup hcore.distinct,
      fun h' hh' => hcore.wf h' (mem_set_none hh'), ?_, fun p hp => ?_⟩
    · cases hrel with
      | unknown hw hc => exact hc ▸ hcore.indexed
      | known q f hw hf hrep hprog hfinder => exact hcore.indexed.progress hprog
    · have hne : p ≠ h.ptr := fun heq => hp (heq ▸ hlookup)
      refine mem_pointers_set_none hslot (hcore.held p ?_) hne
      cases hrel with
      | unknown hw hc => exact hc ▸ hp
      | known q f hw hf hrep hprog hfinder =>
        rwa [hfinder, AList.lookup_erase_ne hne] at hp

lemma Synced.clean {slot : Option Held} (hcore : Core workers c) (hsync : Synced workers c)
    (hslot : workers[i]? = some slot) (hclean : Cleaned c slot c') :
    Synced (workers.set i none) c' := by
  have hcore' := hcore.clean hslot hclean
  have hoffsets : ∀ n ∈ c'.lengthMonitor, ∀ p, n.val.worker = some p →
      offsets (workers.set i none) p = offsets workers p := fun n hn p hw =>
    offsets_set_none hcore.distinct (hcore'.held p (hcore'.indexed.lookup_of_owner hn hw))
  cases hclean with
  | empty hnone hc =>
    rw [hnone] at hslot
    rw [set_none_of_slot hslot, hc]
    exact hsync
  | stopped h hsome hstate hrel =>
    rw [hsome] at hslot
    have hgone := notMem_pointers_set_none hcore.distinct hslot
    have hne : ∀ p, p ∈ pointers (workers.set i none) → p ≠ h.ptr := fun p hp heq =>
      hgone (heq ▸ hp)
    cases hrel with
    | unknown hw hc =>
      subst hc
      exact ⟨hsync.tracks.congr hoffsets, fun h' hh' hlive =>
        hsync.live h' (mem_set_none hh') hlive⟩
    | known q f hw hf hrep hprog hfinder =>
      refine ⟨(hsync.tracks.progress hcore.indexed hprog).congr fun n hn p hp => ?_,
        fun h' hh' hlive => ?_⟩
      · have hmem := hcore'.held p (hcore'.indexed.lookup_of_owner hn hp)
        rw [Function.update_of_ne (hne p hmem)]
        exact hoffsets n hn p hp
      · rw [hfinder, AList.lookup_erase_ne (hne _ (mem_pointers.2 ⟨h'.obj, hh'⟩))]
        exact hsync.live h' (mem_set_none hh') hlive

/-- The fragment of a worker begins at its offset. -/
lemma Synced.begin_eq (hcore : Core workers c) (hsync : Synced workers c)
    (hmem : some ⟨p, w⟩ ∈ workers) {n : Node} (hn : n ∈ c.lengthMonitor)
    (hw : n.val.worker = some p) : n.val.begin = w.fileOffset := by
  rw [hsync.tracks n hn p hw]
  exact offsets_eq ((workerAt_iff hcore.distinct).2 hmem)

/-- Cleaning a slot keeps the partition, and deletes no fragment: that of a stopped worker
still begins at its offset, before its end. -/
lemma partition_clean {slot : Option Held} (hcore : Core workers c) (hsync : Synced workers c)
    (hpart : c.Partition size) (hslot : workers[i]? = some slot)
    (hclean : Cleaned c slot c') :
    c'.Partition size ∧ (c.lengthMonitor ≠ [] → c'.lengthMonitor ≠ []) := by
  cases hclean with
  | empty hnone hc =>
    subst hc
    exact ⟨hpart, id⟩
  | stopped h hsome hstate hrel =>
    rw [hsome] at hslot
    have hmem : some h ∈ workers := List.mem_of_getElem? hslot
    cases hrel with
    | unknown hw hc =>
      subst hc
      exact ⟨hpart, id⟩
    | known q f hw hf hrep hprog hfinder =>
      have hbegin : ∀ n ∈ c.lengthMonitor, n.val.worker = some h.ptr →
          n.val.begin = h.obj.fileOffset := fun n hn hnw => hsync.begin_eq hcore hmem hn hnw
      refine ⟨(hpart.progress_spec hcore.indexed hprog fun n hn hnw =>
        (hbegin n hn hnw).le).1, fun _ hnil => ?_⟩
      obtain ⟨rest, hold, hnew⟩ := hrep
      have hf' : ⟨q, f⟩ ∈ c.lengthMonitor := hold.mem_iff.2 List.mem_cons_self
      have hlt : f.begin < f.end_ := by
        refine hpart.busy _ hf' ?_
        rw [hf]
        exact Option.some_ne_none _
      have ho : f.begin = h.obj.fileOffset := hbegin _ hf' hf
      rw [if_pos (ho ▸ hlt), hnil] at hnew
      exact List.cons_ne_nil _ _ hnew.nil_eq.symm

/-! ## Filling a slot -/

/-- A new worker, at a fresh address, is charged with what `next` has answered. -/
lemma Core.add {node : NodePtr} (hcore : Core (workers.set i none) c) (hi : i < workers.length)
    (hfresh : h.ptr ∉ pointers (workers.set i none)) (hwf : h.obj.WF)
    (hnode : node ∉ c.addresses) (hadd : Added c h.ptr node c') :
    Core (workers.set i (some h)) c' where
  distinct := (pointers_set_some hi).nodup_iff.2 (List.nodup_cons.2 ⟨hfresh, hcore.distinct⟩)
  wf h' hh' := by
    rcases mem_set_some hh' with rfl | hh'
    · exact hwf
    · exact hcore.wf h' hh'
  indexed := by
    refine hcore.indexed.added hadd ?_ hnode
    by_contra hlookup
    exact hfresh (hcore.held _ hlookup)
  held q hq := by
    obtain ⟨r, hfinder⟩ := hadd.finder
    rw [(pointers_set_some hi).mem_iff, List.mem_cons]
    by_cases heq : q = h.ptr
    · exact Or.inl heq
    · rw [hfinder, AList.lookup_insert_ne heq] at hq
      exact Or.inr (hcore.held q hq)

lemma Synced.add {node : NodePtr} {n : Node} (hcore : Core (workers.set i none) c)
    (hsync : Synced (workers.set i none) c) (hi : i < workers.length)
    (hfresh : h.ptr ∉ pointers (workers.set i none)) (hwf : h.obj.WF)
    (hnode : node ∉ c.addresses) (hadd : Added c h.ptr node c') (hback : c.back = some n)
    (hoffset : h.obj.fileOffset = (c.rangeOf n.val).1) :
    Synced (workers.set i (some h)) c' := by
  have hcore' := hcore.add hi hfresh hwf hnode hadd
  have hunknown : c.nodeFinder.lookup h.ptr = none := by
    by_contra hlookup
    exact hfresh (hcore.held _ hlookup)
  obtain ⟨q, hfinder⟩ := hadd.finder
  refine ⟨(hsync.tracks.added hcore.indexed hadd hback hunknown).congr fun m hm p hp => ?_,
    fun h' hh' hlive => ?_⟩
  · have hmem := hcore'.held p (hcore'.indexed.lookup_of_owner hm hp)
    rw [(pointers_set_some hi).mem_iff] at hmem
    rw [offsets_set_some hcore.distinct hi hfresh hmem, hoffset]
  · rcases mem_set_some hh' with rfl | hh'
    · rw [hfinder, AList.lookup_insert]
      exact Option.some_ne_none _
    · have hne : h'.ptr ≠ h.ptr := fun heq => hfresh (heq ▸ mem_pointers.2 ⟨h'.obj, hh'⟩)
      rw [hfinder, AList.lookup_insert_ne hne]
      exact hsync.live h' hh' hlive

/-! ## Finishing an event -/

lemma Core.put (hcore : Core workers c) (hwf : w.WF) (hidx : c'.Indexed)
    (hsub : ∀ q, c'.nodeFinder.lookup q ≠ none → c.nodeFinder.lookup q ≠ none) :
    Core (putWorker workers p w) c' where
  distinct := by
    rw [pointers_putWorker]
    exact hcore.distinct
  wf h hh := by
    rcases mem_putWorker hh with ⟨-, hobj⟩ | ⟨-, hh⟩
    · exact hobj ▸ hwf
    · exact hcore.wf h hh
  indexed := hidx
  held q hq := by
    rw [pointers_putWorker]
    exact hcore.held q (hsub q hq)

/-- The controller has not been told of the event, since the worker has not moved. -/
lemma Synced.put (hcore : Core workers c) (hsync : Synced workers c)
    (hmem : some ⟨p, w⟩ ∈ workers) (hoffset : w₁.fileOffset = w.fileOffset)
    (hlive : w.state = .stopped → w₁.state = .stopped) :
    Synced (putWorker workers p w₁) c := by
  have hat := (workerAt_iff hcore.distinct).2 hmem
  refine ⟨hsync.tracks.congr fun n hn q hq => ?_, fun h hh hstate => ?_⟩
  · rw [offsets_putWorker hcore.distinct (mem_pointers.2 ⟨w, hmem⟩), hoffset, ← offsets_eq hat,
      Function.update_eq_self]
  · rcases mem_putWorker hh with ⟨rfl, rfl⟩ | ⟨-, hh⟩
    · exact hsync.live ⟨h.ptr, w⟩ hmem fun hstop => hstate (hlive hstop)
    · exact hsync.live h hh hstate

/-- The controller has been told of the event. -/
lemma Synced.progress (hcore : Core workers c) (hsync : Synced workers c)
    (hp : p ∈ pointers workers) (hprog : Progress c p w.fileOffset c')
    (hfinder : c'.nodeFinder = c.nodeFinder ∨
      (c'.nodeFinder = c.nodeFinder.erase p ∧ w.state = .stopped)) :
    Synced (putWorker workers p w) c' := by
  refine ⟨?_, fun h hh hstate => ?_⟩
  · rw [offsets_putWorker hcore.distinct hp]
    exact hsync.tracks.progress hcore.indexed hprog
  · rcases mem_putWorker hh with ⟨rfl, rfl⟩ | ⟨hne, hh⟩
    · rcases hfinder with hfinder | ⟨-, hstop⟩
      · obtain ⟨n, hn, hw⟩ := hprog.exists_owner
        rw [hfinder]
        exact hcore.indexed.lookup_of_owner hn hw
      · exact absurd hstop hstate
    · rcases hfinder with hfinder | ⟨hfinder, -⟩
      · rw [hfinder]
        exact hsync.live h hh hstate
      · rw [hfinder, AList.lookup_erase_ne hne]
        exact hsync.live h hh hstate

/-- A stopped worker has been released. -/
lemma Synced.released (hcore : Core workers c) (hsync : Synced workers c)
    (hp : p ∈ pointers workers) (hstate : w.state = .stopped)
    (hrel : Released c p w.fileOffset c') : Synced (putWorker workers p w) c' := by
  cases hrel with
  | known q f hw hf hrep hprog hfinder =>
    exact hsync.progress hcore hp hprog (Or.inr ⟨hfinder, hstate⟩)
  | unknown hw hc =>
    subst hc
    refine ⟨hsync.tracks.congr fun n hn q hq => ?_, fun h hh hlive => ?_⟩
    · have hne : q ≠ p := fun heq => hcore.indexed.worker_ne hw hn (heq ▸ hq)
      rw [offsets_putWorker hcore.distinct hp, Function.update_of_ne hne]
    · rcases mem_putWorker hh with ⟨rfl, rfl⟩ | ⟨-, hh⟩
      · exact absurd hstate hlive
      · exact hsync.live h hh hlive

/-! ## The invariant -/

/-- No exception has left the loop. -/
def Running (s : Download) : Prop := ∀ fault, s.pc ≠ .failed fault

lemma Running.of_pc {s : Download} {pc : Pc} (hpc : s.pc = pc)
    (hne : ∀ fault, pc ≠ .failed fault) : s.Running := fun fault hfail =>
  hne fault (hpc.symm.trans hfail)

structure Inv (cfg : Config) (s : Download) : Prop where
  core : Core s.workers s.controller
  length : s.workers.length = cfg.connectionNumber
  min_eq : s.controller.min = 128 * 1024
  synced : s.Running → Synced s.workers s.controller
  /-- Events that are still to be handled are those of held workers with a stream. -/
  pending : ∀ events, s.pc = .dispatch events → (events.map Prod.fst).Nodup ∧
    ∀ e ∈ events, ∃ w, s.find e.1 = some w ∧ w.stream ≠ none
  partition : 1 ≤ cfg.size → s.controller.Partition cfg.size
  /-- While slots are assigned, there is something to assign. -/
  nonempty : 1 ≤ cfg.size → ∀ i, s.pc = .slot i → s.controller.lengthMonitor ≠ []

variable {cfg : Config} {s s' : Download}

lemma pointers_replicate (n : ℕ) : pointers (List.replicate n none) = [] := by
  induction n with
  | zero => rfl
  | succ n ih =>
    rw [List.replicate_succ, pointers_cons, ih]
    rfl

lemma inv_init (cfg : Config) (node : NodePtr) (now : ℤ) : (init cfg node now).Inv cfg where
  core := by
    have hnone : ∀ h : Held, some h ∉ List.replicate cfg.connectionNumber (none : Option Held) :=
      fun h hh => nomatch List.eq_of_mem_replicate hh
    refine ⟨?_, fun h hh => absurd hh (hnone h), indexed_create _ _ _, fun p hp => ?_⟩
    · show (pointers (List.replicate cfg.connectionNumber none)).Nodup
      rw [pointers_replicate]
      exact List.nodup_nil
    · exact absurd (AList.lookup_empty p) hp
  length := List.length_replicate
  min_eq := rfl
  synced _ := by
    refine ⟨fun n hn p hp => ?_, fun h hh => nomatch List.eq_of_mem_replicate hh⟩
    obtain rfl := List.mem_singleton.1 hn
    cases hp
  pending events hpc := by cases hpc
  partition hsize := partition_create hsize _ _
  nonempty _ i _ := List.cons_ne_nil _ _

/-! ### The assignment pass -/

/-- The state `next` is asked in. -/
lemma Inv.clean {slot : Option Held} (h : s.Inv cfg) (hpc : s.pc = .slot i)
    (hslot : s.workers[i]? = some slot) (hclean : Cleaned s.controller slot c) :
    Core (s.workers.set i none) c ∧ Synced (s.workers.set i none) c ∧ c.min = 128 * 1024 ∧
      (1 ≤ cfg.size → c.Partition cfg.size ∧ c.lengthMonitor ≠ []) := by
  have hsync := h.synced (.of_pc hpc nofun)
  refine ⟨h.core.clean hslot hclean, hsync.clean h.core hslot hclean,
    hclean.min_eq.trans h.min_eq, fun hsize => ?_⟩
  obtain ⟨hpart, hne⟩ := partition_clean h.core hsync (h.partition hsize) hslot hclean
  exact ⟨hpart, hne (h.nonempty hsize i hpc)⟩

lemma Inv.visit {slot : Option Held} {choice : SlotChoice} (h : s.Inv cfg)
    (hpc : s.pc = .slot i) (hslot : s.workers[i]? = some slot)
    (hvisited : Visited s i slot choice s') : s'.Inv cfg := by
  have hi : i < s.workers.length := (List.getElem?_eq_some_iff.1 hslot).1
  cases hvisited with
  | kept h' hslot' hlive =>
    exact ⟨h.core, h.length, h.min_eq, fun _ => h.synced (.of_pc hpc nofun), nofun,
      h.partition, fun hsize j _ => h.nonempty hsize i hpc⟩
  | stuck c hclean hnil =>
    obtain ⟨hcore, -, hmin, hsized⟩ := h.clean hpc hslot hclean
    exact ⟨hcore, by simpa using h.length, hmin, fun hrun => absurd rfl (hrun _), nofun,
      fun hsize => (hsized hsize).1, nofun⟩
  | idle c n hclean hback hrange =>
    obtain ⟨hcore, hsync, hmin, hsized⟩ := h.clean hpc hslot hclean
    refine ⟨hcore.sort, by simpa using h.length, hmin, fun _ => hsync.sort, nofun,
      fun hsize => (hsized hsize).1.sort, fun hsize j _ hnil => ?_⟩
    have hperm := c.sort_perm
    rw [hnil] at hperm
    exact (hsized hsize).2 hperm.nil_eq.symm
  | refused c n e hclean hback hrange =>
    obtain ⟨hcore, -, hmin, hsized⟩ := h.clean hpc hslot hclean
    exact ⟨hcore.sort, by simpa using h.length, hmin, fun hrun => absurd rfl (hrun _), nofun,
      fun hsize => (hsized hsize).1.sort, nofun⟩
  | assigned c c' n stream hclean hback hrange hconnection hptr hnode hadd =>
    obtain ⟨hcore, hsync, hmin, hsized⟩ := h.clean hpc hslot hclean
    have hback' : c.sort.back = some n := by rw [back_sort, hback]
    have hwf : (Worker.create stream (s.rangeRequest (c.rangeOf n.val)) (c.rangeOf n.val).1).WF :=
      Worker.wf_create _ _ _
    refine ⟨hcore.sort.add hi hptr hwf hnode hadd, by simpa using h.length,
      hadd.min_eq.trans hmin, fun _ => hsync.sort.add hcore.sort hi hptr hwf hnode hadd hback' rfl,
      nofun, fun hsize => ?_, fun _ j _ hnil => ?_⟩
    · have hpos : 0 ≤ c.sort.min := by
        rw [sort_min, hmin]
        decide
      exact ((hsized hsize).1.sort.add_spec hpos hadd hback' hrange).1
    · obtain ⟨m, hm, -⟩ := hadd.exists_owner
      rw [hnil] at hm
      exact absurd hm List.not_mem_nil

/-! ### Events -/

/-- The worker and the controller after an event, whether or not the loop goes on. -/
structure Settled (s : Download) (p : WorkerPtr) (w : Worker) (c : LengthController)
    (pc : Pc) : Prop where
  core : Core (putWorker s.workers p w) c
  min_eq : c.min = s.controller.min
  synced : (∀ fault, pc ≠ .failed fault) → Synced (putWorker s.workers p w) c
  partition : ∀ size, s.controller.Partition size → c.Partition size

lemma Inv.settle {rest : List (WorkerPtr × EpollEvents)} {event : EpollEvents} {pc : Pc}
    {file : File} (h : s.Inv cfg) (hpc : s.pc = .dispatch ((p, event) :: rest))
    (hsettled : Settled s p w c pc) (hpc' : pc = .dispatch rest ∨ ∃ fault, pc = .failed fault) :
    (s.after file p w c pc).Inv cfg := by
  refine ⟨hsettled.core, ?_, hsettled.min_eq.trans h.min_eq, hsettled.synced, fun events hev => ?_,
    fun hsize => hsettled.partition _ (h.partition hsize), fun _ i hi => ?_⟩
  · show (putWorker s.workers p w).length = cfg.connectionNumber
    rw [length_putWorker, h.length]
  · obtain ⟨hnodup, hheld⟩ := h.pending _ hpc
    rcases hpc' with rfl | ⟨fault, rfl⟩
    · obtain rfl : rest = events := by simpa [after] using hev
      rw [List.map_cons, List.nodup_cons] at hnodup
      refine ⟨hnodup.2, fun e he => ?_⟩
      have hne : e.1 ≠ p := fun heq => hnodup.1 (List.mem_map.2 ⟨e, he, heq⟩)
      obtain ⟨v, hv, hstream⟩ := hheld e (List.mem_cons_of_mem _ he)
      exact ⟨v, (workerAt_putWorker_of_ne h.core.distinct hne).trans hv, hstream⟩
    · cases hev
  · have hi' : pc = .slot i := hi
    rcases hpc' with rfl | ⟨fault, rfl⟩ <;> cases hi'

/-- The worker of an event. -/
lemma Inv.exists_worker {rest : List (WorkerPtr × EpollEvents)} {event : EpollEvents}
    (h : s.Inv cfg) (hpc : s.pc = .dispatch ((p, event) :: rest)) :
    ∃ w, s.find p = some w ∧ some ⟨p, w⟩ ∈ s.workers ∧ w.WF ∧ w.stream ≠ none ∧
      (w.state ≠ .stopped → s.controller.nodeFinder.lookup p ≠ none) := by
  obtain ⟨w, hfind, hstream⟩ := (h.pending _ hpc).2 (p, event) List.mem_cons_self
  have hmem := (workerAt_iff h.core.distinct).1 hfind
  have hsync := h.synced (.of_pc hpc nofun)
  exact ⟨w, hfind, hmem, h.core.wf _ hmem, hstream, hsync.live _ hmem⟩

/-- A worker whose progress has been told. -/
lemma Inv.put_progress {v : Worker} (h : s.Inv cfg) (hsync : Synced s.workers s.controller)
    (hmem : some ⟨p, w⟩ ∈ s.workers) (hv : v.WF) (ho : w.fileOffset ≤ v.fileOffset)
    (hprog : Progress s.controller p v.fileOffset c)
    (hfinder : c.nodeFinder = s.controller.nodeFinder ∨
      c.nodeFinder = s.controller.nodeFinder.erase p) :
    Core (putWorker s.workers p v) c ∧ c.min = s.controller.min ∧
      ∀ size, s.controller.Partition size → c.Partition size := by
  have hbegin : ∀ n ∈ s.controller.lengthMonitor,
      n.val.worker = some p → n.val.begin ≤ v.fileOffset := by
    intro n hn hw
    rw [hsync.begin_eq h.core hmem hn hw]
    exact ho
  refine ⟨h.core.put hv (h.core.indexed.progress hprog) fun q hq => ?_, hprog.min_eq,
    fun size hpart => (hpart.progress_spec h.core.indexed hprog hbegin).1⟩
  rcases hfinder with hfinder | hfinder
  · rwa [hfinder] at hq
  · by_cases hne : q = p
    · rw [hfinder, hne, AList.lookup_erase] at hq
      exact absurd rfl hq
    · rwa [hfinder, AList.lookup_erase_ne hne] at hq

/-- A worker that has stopped and whose fragment has been released. -/
lemma Inv.settled_of_released {v : Worker} (h : s.Inv cfg)
    (hsync : Synced s.workers s.controller) (hmem : some ⟨p, w⟩ ∈ s.workers) (hv : v.WF)
    (ho : w.fileOffset ≤ v.fileOffset) (hstopped : v.state = .stopped)
    (hrel : Released s.controller p v.fileOffset c) (pc : Pc) : Settled s p v c pc := by
  have hp : p ∈ pointers s.workers := mem_pointers.2 ⟨w, hmem⟩
  have hsynced := hsync.released h.core hp hstopped hrel
  cases hrel with
  | unknown hw hc =>
    subst hc
    exact ⟨h.core.put hv h.core.indexed fun _ => id, rfl, fun _ => hsynced, fun _ => id⟩
  | known q f hw hf hrep hprog hfinder =>
    obtain ⟨hcore, hmin, hpart⟩ := h.put_progress hsync hmem hv ho hprog (Or.inr hfinder)
    exact ⟨hcore, hmin, fun _ => hsynced, hpart⟩

lemma Inv.settled {rest : List (WorkerPtr × EpollEvents)} {event : EpollEvents} {env : Env}
    {outcome : Outcome} {file : File} (h : s.Inv cfg)
    (hpc : s.pc = .dispatch ((p, event) :: rest)) (hmem : some ⟨p, w⟩ ∈ s.workers)
    (hproc : Worker.Processed w s.file outcome w₁ file)
    (hhandled : Handled s rest p w env outcome w₁ file s') :
    ∃ w' c pc, s' = s.after file p w' c pc ∧ Settled s p w' c pc ∧
      (pc = .dispatch rest ∨ ∃ fault, pc = .failed fault) := by
  have hsync := h.synced (.of_pc hpc nofun)
  have hp : p ∈ pointers s.workers := mem_pointers.2 ⟨w, hmem⟩
  have hsame : ∀ {v : Worker}, v.WF → Core (putWorker s.workers p v) s.controller := fun hv =>
    h.core.put hv h.core.indexed fun _ => id
  cases hhandled with
  | unread n ho hstate =>
    refine ⟨w₁, _, _, rfl, ⟨hsame hproc.wf, rfl, fun _ => ?_, fun _ => id⟩, Or.inl rfl⟩
    exact hsync.put h.core hmem (hproc.idle hstate).1 hproc.stopped
  | read n c ho hstate hprog hfinder =>
    obtain ⟨hcore, hmin, hpart⟩ := h.put_progress hsync hmem hproc.wf
      hproc.fileOffset_le hprog (Or.inl hfinder)
    refine ⟨w₁, c, _, rfl, ⟨hcore, hmin, fun _ => ?_, hpart⟩, Or.inl rfl⟩
    exact hsync.progress h.core hp hprog (Or.inl hfinder)
  | full n c w₂ fault ho hstate hprog hfinder hstop =>
    obtain ⟨hwf, hstopped, hoffset, -⟩ := Worker.forceStop_spec hproc.wf hstop
    rw [← hoffset] at hprog
    have hle : w.fileOffset ≤ w₂.fileOffset := hoffset ▸ hproc.fileOffset_le
    obtain ⟨hcore, hmin, hpart⟩ := h.put_progress hsync hmem hwf hle hprog (Or.inr hfinder)
    refine ⟨w₂, c, _, rfl, ⟨hcore, hmin, fun _ => ?_, hpart⟩, ?_⟩
    · exact hsync.progress h.core hp hprog (Or.inr ⟨hfinder, hstopped⟩)
    · cases fault with
      | none => exact Or.inl rfl
      | some fault => exact Or.inr ⟨fault, rfl⟩
  | caught e c w₂ ho hstate hstop hrel =>
    obtain ⟨hwf, hstopped, hoffset, -⟩ := Worker.forceStop_spec hproc.wf hstop
    have hle : w.fileOffset ≤ w₂.fileOffset := hoffset ▸ hproc.fileOffset_le
    have hsettled := h.settled_of_released hsync hmem hwf hle hstopped hrel (.dispatch rest)
    exact ⟨w₂, c, _, rfl, hsettled, Or.inl rfl⟩
  | lost e c w₂ ho hstate hstop hrel =>
    obtain ⟨hwf, hstopped, hoffset, -⟩ := Worker.forceStop_spec hproc.wf hstop
    have hle : w.fileOffset ≤ w₂.fileOffset := hoffset ▸ hproc.fileOffset_le
    refine ⟨w₂, c, _, rfl, ?_, Or.inr ⟨_, rfl⟩⟩
    exact h.settled_of_released hsync hmem hwf hle hstopped hrel _
  | torn e w₂ fault ho hstop =>
    obtain ⟨hwf, -⟩ := Worker.forceStop_spec hproc.wf hstop
    exact ⟨w₂, _, _, rfl, ⟨hsame hwf, rfl, fun hrun => absurd rfl (hrun fault), fun _ => id⟩,
      Or.inr ⟨fault, rfl⟩⟩

/-- **The inversion of `handle`** in a reachable state. -/
lemma Inv.exists_handled {rest : List (WorkerPtr × EpollEvents)} {event : EpollEvents}
    {env : Env} (h : s.Inv cfg) (hpc : s.pc = .dispatch ((p, event) :: rest))
    (hhandle : s.handle rest p event env = some s') : ∃ w outcome w₁ file,
      s.find p = some w ∧ some ⟨p, w⟩ ∈ s.workers ∧ w.WF ∧ w.stream ≠ none ∧
      w.process s.file event env = (outcome, w₁, file) ∧
      Handled s rest p w env outcome w₁ file s' := by
  obtain ⟨w, hfind, hmem, hwf, hstream, hlive⟩ := h.exists_worker hpc
  have hknown : w.state = .receivingBody → s.controller.nodeFinder.lookup p ≠ none :=
    fun hstate => hlive (by rw [hstate]; decide)
  obtain ⟨outcome, w₁, file, hprocess, hhandled⟩ :=
    handle_cases h.core.indexed hfind hwf hstream hknown hhandle
  exact ⟨w, outcome, w₁, file, hfind, hmem, hwf, hstream, hprocess, hhandled⟩

lemma Inv.handle_shape {rest : List (WorkerPtr × EpollEvents)} {event : EpollEvents} {env : Env}
    (h : s.Inv cfg) (hpc : s.pc = .dispatch ((p, event) :: rest))
    (hhandle : s.handle rest p event env = some s') :
    ∃ w c pc file, s' = s.after file p w c pc ∧ Settled s p w c pc ∧
      (pc = .dispatch rest ∨ ∃ fault, pc = .failed fault) := by
  obtain ⟨w, outcome, w₁, file, -, hmem, hwf, hstream, hprocess, hhandled⟩ :=
    h.exists_handled hpc hhandle
  obtain ⟨w', c, pc, hs', hsettled, hpc'⟩ :=
    h.settled hpc hmem (Worker.process_spec hwf hstream hprocess) hhandled
  exact ⟨w', c, pc, file, hs', hsettled, hpc'⟩

/-! ### The end of a round -/

lemma Inv.tick {now : ℤ} (h : s.Inv cfg) (hpc : s.pc = .dispatch []) : (s.tick now).Inv cfg := by
  have hrun : s.Running := .of_pc hpc nofun
  obtain ⟨time, lastTime, pc, htick, hfin⟩ := s.tick_cases now
  rw [htick]
  refine ⟨h.core, h.length, h.min_eq, fun _ => h.synced hrun, fun events hev => ?_, h.partition,
    fun _ i hi hnil => ?_⟩
  · have hev' : pc = .dispatch events := hev
    rcases hfin with ⟨fault, -, rfl⟩ | ⟨-, rfl⟩ | ⟨-, rfl | rfl⟩ <;> cases hev'
  · have hi' : pc = .slot i := hi
    have hnil' : s.controller.lengthMonitor = [] := hnil
    rcases hfin with ⟨fault, -, rfl⟩ | ⟨-, rfl⟩ | ⟨hfalse, -⟩
    · cases hi'
    · cases hi'
    · rw [finished, hnil'] at hfalse
      simp only [List.isEmpty_nil, if_true] at hfalse
      split at hfalse <;> cases hfalse

/-! ### One step -/

/-- **One round of the loop keeps the invariant.** -/
lemma Inv.step {label : Label} (h : s.Inv cfg) (hstep : s.step label = some s') :
    s'.Inv cfg := by
  cases step_cases hstep with
  | passed i choice hpc hslot =>
    exact ⟨h.core, h.length, h.min_eq, fun _ => h.synced (.of_pc hpc nofun), nofun,
      h.partition, nofun⟩
  | visited i slot choice s' hpc hslot hvisit =>
    exact h.visit hpc hslot (visit_cases h.core.indexed hvisit)
  | waited events hpc hreportable =>
    refine ⟨h.core, h.length, h.min_eq, fun _ => h.synced (.of_pc hpc nofun),
      fun events' hev => ?_, h.partition, nofun⟩
    obtain rfl : events = events' := by simpa using hev
    refine ⟨hreportable.1, fun e he => ?_⟩
    -- only workers that are registered, and have their stream, are reported
    obtain ⟨w, hfind, hmay⟩ := (Option.any_eq_true _ _).1 (hreportable.2 e he)
    have hwf := h.core.wf _ ((workerAt_iff h.core.distinct).1 hfind)
    refine ⟨w, hfind, hwf.interest fun hnone => ?_⟩
    rw [mayReport, hnone] at hmay
    cases hmay
  | handled p event rest env s' hpc hhandle =>
    obtain ⟨w, c, pc, file, rfl, hsettled, hpc'⟩ := h.handle_shape hpc hhandle
    exact h.settle hpc hsettled hpc'
  | ticked now hpc => exact h.tick hpc

/-- **The invariant holds in every state the loop can reach.** -/
lemma Inv.run {node : NodePtr} {now : ℤ} {labels : List Label}
    (hrun : Transition.run Download.step (init cfg node now) labels = some s) : s.Inv cfg :=
  Transition.run_invariant (fun _ _ _ hs hstep => Inv.step hs hstep) (inv_init cfg node now) hrun

/-- **`finished()` never throws.** -/
lemma Inv.finished_ok (h : s.Inv cfg) : ∃ b, s.controller.finished = .ok b := by
  unfold finished
  cases hnodes : s.controller.lengthMonitor with
  | cons n rest => exact ⟨false, by simp⟩
  | nil =>
    have hempty : s.controller.nodeFinder.entries = [] := by
      refine List.eq_nil_iff_forall_not_mem.2 fun e he => ?_
      have hlookup := AList.mem_lookup_iff.2 he
      obtain ⟨n, hn, -⟩ := (h.core.indexed.lookup_iff e.1 e.2).1 hlookup
      rw [hnodes] at hn
      exact absurd hn List.not_mem_nil
    exact ⟨true, by simp [hempty]⟩

end Cld.Download
