import Mathlib.Data.Set.Function
import Cld.Download.Invariant

/-!
# What the controller knows of the workers

Two consequences of the invariant of the loop.

`indexes_consistent`: the finder is a bijection between its workers and the fragments that are
being fetched, and all of these workers are held in slots, so that a worker which is allocated
where an old one was freed is not confused with it.  Deleting a fragment by value deletes one
node, `next` finds a non-empty list, and `finished` does not throw.

`begin_eq_offset`: the begin of every fragment that is being fetched is the offset of its
worker, whenever the controller is asked.  The flag `is_receiving_body`, which the loop takes
before `process`, misses no movement of the offset.
-/

namespace Cld.Download

open Framework LengthController

variable {cfg : Config} {node : NodePtr} {now : ℤ} {labels : List Label} {s : Download}
  {c : LengthController} {workers : List (Option Held)}

/-! ## The two indexes -/

/-- The finder as a function to nodes. -/
lemma exists_nodeOf (hidx : c.Indexed) : ∃ nodeOf : WorkerPtr → Node,
    ∀ w, c.nodeFinder.lookup w ≠ none → nodeOf w ∈ c.lengthMonitor ∧
      c.nodeFinder.lookup w = some (nodeOf w).addr ∧ (nodeOf w).val.worker = some w := by
  have hnode : ∀ w, ∃ n : Node, c.nodeFinder.lookup w ≠ none → n ∈ c.lengthMonitor ∧
      c.nodeFinder.lookup w = some n.addr ∧ n.val.worker = some w := by
    intro w
    cases hw : c.nodeFinder.lookup w with
    | none => exact ⟨⟨0, 0, 0, none⟩, fun hne => absurd rfl hne⟩
    | some p =>
      obtain ⟨n, hn, haddr, hworker⟩ := (hidx.lookup_iff w p).1 hw
      exact ⟨n, fun _ => ⟨hn, by rw [haddr], hworker⟩⟩
  exact ⟨fun w => (hnode w).choose, fun w => (hnode w).choose_spec⟩

/-- The finder knows no more workers than there are slots. -/
lemma Core.workerNumber_le (hcore : Core workers c) : c.workerNumber ≤ workers.length := by
  have hsub : c.nodeFinder.keys ⊆ pointers workers := by
    intro p hp
    refine hcore.held p fun hnone => ?_
    exact (AList.lookup_eq_none.1 hnone) (AList.mem_keys.2 hp)
  calc c.workerNumber
      = c.nodeFinder.keys.length := (List.length_map _).symm
    _ ≤ (pointers workers).length :=
        (List.subperm_of_subset c.nodeFinder.keys_nodup hsub).length_le
    _ ≤ workers.length := List.length_filterMap_le _ _

/-- Deleting the fragment of a worker by its value deletes its node and no other. -/
lemma remove_one (hidx : c.Indexed) {w : WorkerPtr} {p : NodePtr} {f : Fragment} (o : ℤ)
    (hw : c.nodeFinder.lookup w = some p) (hderef : c.deref p = some f) :
    ∃ rest, c.lengthMonitor.Perm (⟨p, f⟩ :: rest) ∧ p ∉ rest.map Node.addr ∧
      ((c.assign p { f with begin := o }).remove { f with begin := o }).lengthMonitor.Perm
        rest := by
  obtain ⟨g, rest, hg, hderef', hperm, haddr, hworker⟩ := hidx.exists_node hw
  obtain rfl : g = f := Option.some.inj (hderef'.symm.trans hderef)
  refine ⟨rest, hperm, fun hmem => ?_,
    remove_perm (assign_perm (g := { g with begin := o }) hperm haddr) hg hworker⟩
  obtain ⟨n, hn, hp⟩ := List.mem_map.1 hmem
  exact haddr n hn hp

/-- **The two indexes are consistent**, in every state the loop can reach with a file of one
byte or more. -/
theorem indexes_consistent (hsize : 1 ≤ cfg.size)
    (hrun : Transition.run step (init cfg node now) labels = some s) :
    s.controller.addresses.Nodup ∧
    (∃ nodeOf : WorkerPtr → Node,
      Set.BijOn nodeOf {w | s.controller.nodeFinder.lookup w ≠ none}
        {n | n ∈ s.controller.lengthMonitor ∧ n.val.worker ≠ none} ∧
      ∀ w, s.controller.nodeFinder.lookup w ≠ none →
        s.controller.nodeFinder.lookup w = some (nodeOf w).addr ∧
        s.controller.deref (nodeOf w).addr = some (nodeOf w).val ∧
        (nodeOf w).val.worker = some w) ∧
    (∀ w, s.controller.nodeFinder.lookup w ≠ none → ∃ obj, some ⟨w, obj⟩ ∈ s.workers) ∧
    s.controller.workerNumber ≤ cfg.connectionNumber ∧
    (∀ w p f o, s.controller.nodeFinder.lookup w = some p → s.controller.deref p = some f →
      ∃ rest, s.controller.lengthMonitor.Perm (⟨p, f⟩ :: rest) ∧ p ∉ rest.map Node.addr ∧
        ((s.controller.assign p { f with begin := o }).remove
          { f with begin := o }).lengthMonitor.Perm rest) ∧
    (∀ i slot, s.pc = .slot i → s.workers[i]? = some slot → ∃ c kept,
      clean s.controller slot = .ok (c, kept) ∧ (kept = none → c.lengthMonitor ≠ [])) ∧
    ∃ b, s.controller.finished = .ok b := by
  have hinv : s.Inv cfg := Inv.run hrun
  have hidx := hinv.core.indexed
  obtain ⟨nodeOf, hnodeOf⟩ := exists_nodeOf hidx
  refine ⟨hidx.nodup, ⟨nodeOf, ⟨fun w hw => ?_, fun v hv w hw heq => ?_, fun n hn => ?_⟩,
    fun w hw => ?_⟩, fun w hw => mem_pointers.1 (hinv.core.held w hw), ?_,
    fun w p f o hw hderef => remove_one hidx o hw hderef, fun i slot hpc hslot => ?_,
    hinv.finished_ok⟩
  · -- the node of a worker is a busy fragment
    obtain ⟨hmem, -, hworker⟩ := hnodeOf w hw
    refine ⟨hmem, ?_⟩
    rw [hworker]
    exact Option.some_ne_none w
  · -- two workers with one node are the same
    obtain ⟨-, -, hv'⟩ := hnodeOf v hv
    obtain ⟨-, -, hw'⟩ := hnodeOf w hw
    rw [heq, hw'] at hv'
    exact (Option.some.inj hv').symm
  · -- every busy fragment has a worker
    obtain ⟨hmem, hbusy⟩ := hn
    obtain ⟨w, hw⟩ := Option.ne_none_iff_exists'.1 hbusy
    have hlookup := hidx.lookup_of_owner hmem hw
    obtain ⟨hmem', -, hw'⟩ := hnodeOf w hlookup
    exact ⟨w, hlookup, hidx.eq_of_worker hmem' hmem hw' hw⟩
  · obtain ⟨hmem, hlookup, hworker⟩ := hnodeOf w hw
    exact ⟨hlookup, hidx.deref_eq hmem, hworker⟩
  · rw [← hinv.length]
    exact hinv.core.workerNumber_le
  · rcases clean_cases hidx slot with ⟨h, -, -, hval⟩ | ⟨c, hclean, hval⟩
    · exact ⟨_, _, hval, nofun⟩
    · obtain ⟨-, -, -, hsized⟩ := hinv.clean hpc hslot hclean
      exact ⟨_, _, hval, fun _ => (hsized hsize).2⟩

/-- Two connections share a file, and the first brings in two bytes of its half. -/
def sharedFetch : List Label :=
  [.slot ⟨1, 1, .ok ⟨(bytes "HTTP/1.1 206 Partial Content\r\n\r\n").map (.byte · false) ++
      [.byte 65 false, .byte 66 false], []⟩⟩,
    .slot ⟨2, 2, .ok ⟨[], []⟩⟩, .slot ⟨3, 3, .error .systemError⟩,
    .wait [(1, { epollout := true })], .process { send := .accepts 1000 }, .clock 1,
    .wait [(1, { epollin := true })], .process {}, .clock 2,
    .wait [(1, { epollin := true })], .process {}, .clock 3]

/-- The fragments of both are known after the split and after `afterRead`. -/
theorem indexes_consistent_shared : ∃ s,
    Transition.run step (init ⟨400000, 2, [], [], [], []⟩ 0 0) sharedFetch = some s ∧
      s.controller.lengthMonitor = [⟨0, 2, 199999, some 1⟩, ⟨2, 199999, 399999, some 2⟩] ∧
      s.controller.addresses.Nodup ∧
      (∀ w, s.controller.nodeFinder.lookup w ≠ none → ∃ obj, some ⟨w, obj⟩ ∈ s.workers) ∧
      s.controller.workerNumber ≤ 2 ∧ ∃ b, s.controller.finished = .ok b := by
  have hkey : (Transition.run step (init ⟨400000, 2, [], [], [], []⟩ 0 0) sharedFetch).map
      (fun s => s.controller.lengthMonitor) =
      some [⟨0, 2, 199999, some 1⟩, ⟨2, 199999, 399999, some 2⟩] := by decide +kernel
  obtain ⟨s, hrun, hlist⟩ := Option.map_eq_some_iff.1 hkey
  obtain ⟨hnodup, -, hheld, hnumber, -, -, hfinished⟩ := indexes_consistent (by decide) hrun
  exact ⟨s, hrun, hlist, hnodup, hheld, hnumber, hfinished⟩

/-! ## Progress -/

/-- The fragment of every worker the finder knows begins at the offset of the worker. -/
def CaughtUp (workers : List (Option Held)) (c : LengthController) : Prop :=
  ∀ w p, c.nodeFinder.lookup w = some p → ∃ f obj,
    c.deref p = some f ∧ workerAt workers w = some obj ∧ f.begin = obj.getOffset

lemma Synced.caughtUp (hcore : Core workers c) (hsync : Synced workers c) :
    CaughtUp workers c := by
  intro w p hw
  obtain ⟨⟨q, f⟩, hn, rfl, hworker⟩ := (hcore.indexed.lookup_iff w p).1 hw
  have hlookup : c.nodeFinder.lookup w ≠ none := by
    rw [hw]
    exact Option.some_ne_none _
  obtain ⟨obj, hobj⟩ := workerAt_isSome hcore.distinct (hcore.held w hlookup)
  exact ⟨f, obj, hcore.indexed.deref_eq hn, hobj,
    hsync.begin_eq hcore ((workerAt_iff hcore.distinct).1 hobj) hn hworker⟩

/-- **The controller never lags behind the workers**: not between two rounds of the loop, not
when `next` is asked for the range of a new worker, and not when `add` is.  A call of
`process` that does not begin in `ReceivingBody` leaves the offset and the file alone. -/
theorem begin_eq_offset (hrun : Transition.run step (init cfg node now) labels = some s)
    (hrunning : s.Running) :
    CaughtUp s.workers s.controller ∧
    (∀ i slot c, s.pc = .slot i → s.workers[i]? = some slot →
      clean s.controller slot = .ok (c, none) →
        CaughtUp (s.workers.set i none) c ∧ CaughtUp (s.workers.set i none) c.sort) ∧
    (∀ p event rest obj env outcome w file, s.pc = .dispatch ((p, event) :: rest) →
      s.find p = some obj → obj.state ≠ .receivingBody →
        obj.process s.file event env = (outcome, w, file) →
          w.getOffset = obj.getOffset ∧ file = s.file) := by
  have hinv : s.Inv cfg := Inv.run hrun
  refine ⟨(hinv.synced hrunning).caughtUp hinv.core, fun i slot c hpc hslot hval => ?_,
    fun p event rest obj env outcome w file hpc hfind hstate hprocess => ?_⟩
  · rcases clean_cases hinv.core.indexed slot with ⟨h, -, -, hval'⟩ | ⟨c', hclean, hval'⟩
    · rw [hval'] at hval
      cases hval
    · obtain rfl : c' = c := by
        rw [hval'] at hval
        exact (Prod.mk.inj (Except.ok.inj hval)).1
      obtain ⟨hcore, hsync, -⟩ := hinv.clean hpc hslot hclean
      exact ⟨hsync.caughtUp hcore, hsync.sort.caughtUp hcore.sort⟩
  · obtain ⟨w', hfind', -, hwf, hstream, -⟩ := hinv.exists_worker hpc
    obtain rfl : w' = obj := Option.some.inj (hfind'.symm.trans hfind)
    exact (Worker.process_spec hwf hstream hprocess).idle hstate

/-- The first connection has moved on by two bytes, and its fragment with it. -/
theorem begin_eq_offset_shared : ∃ s,
    Transition.run step (init ⟨400000, 2, [], [], [], []⟩ 0 0) sharedFetch = some s ∧
      (workerAt s.workers 1).map Worker.getOffset = some 2 ∧
      s.controller.nodeFinder.lookup 1 = some 0 ∧ s.controller.deref 0 = some ⟨2, 199999, some 1⟩ ∧
      CaughtUp s.workers s.controller := by
  have hkey : (Transition.run step (init ⟨400000, 2, [], [], [], []⟩ 0 0) sharedFetch).map
      (fun s => (decide (s.pc = .wait), (workerAt s.workers 1).map Worker.getOffset,
        s.controller.nodeFinder.lookup 1, s.controller.deref 0)) =
      some (true, some 2, some 0, some ⟨2, 199999, some 1⟩) := by decide +kernel
  obtain ⟨s, hrun, hval⟩ := Option.map_eq_some_iff.1 hkey
  simp only [Prod.mk.injEq, decide_eq_true_eq] at hval
  obtain ⟨hpc, hoffset, hlookup, hderef⟩ := hval
  have hrunning : s.Running := .of_pc hpc fun _ => Pc.noConfusion
  exact ⟨s, hrun, hoffset, hlookup, hderef, (begin_eq_offset hrun hrunning).1⟩

end Cld.Download
