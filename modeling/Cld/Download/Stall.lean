import Cld.Download.Invariant

/-!
# The assignment pass and the smallest files

When does the pass over the slots keep the download going?  It must ask `next` only while
fragments are left (`AsksNonEmpty`), and once it is over, a worker that has not stopped must
be charged with one of them (`KeepsWorking`).

For files of two bytes or more both hold in every run: the free fragment a stopped worker
leaves is not empty, so whatever sorting puts at the back, the slot gets a worker or some
worker is busy (`Inv.pass`).  Below two bytes they fail, and for one reason: the constructor
ends the only fragment at `size - 1`.

* With one byte the fragment is `[0, 0)`, which `next` cannot tell from its answer `(0, 0)`
  for "nothing to do": no worker is ever created (`idle_run`).
* With no byte it is `[0, -1)`, which is assigned, and dropped as soon as the worker stops:
  `next` is asked of an empty list.

`never_stalls_iff` is the exact condition.
-/

namespace Cld.Download

open Framework LengthController

variable {cfg : Config} {node : NodePtr} {now : ℤ} {s s' : Download}

/-- Whenever `next` is asked, the list is not empty. -/
def AsksNonEmpty (s : Download) : Prop :=
  ∀ i slot c, s.pc = .slot i → s.workers[i]? = some slot →
    clean s.controller slot = .ok (c, none) → c.lengthMonitor ≠ []

/-- After the pass, a worker that has not stopped is charged with a fragment, if there is any
left. -/
def KeepsWorking (s : Download) : Prop :=
  s.pc = .slot s.workers.length → s.controller.lengthMonitor ≠ [] →
    ∃ h, some h ∈ s.workers ∧ h.obj.state ≠ .stopped ∧
      ∃ n ∈ s.controller.lengthMonitor, n.val.worker = some h.ptr

/-! ## Files of two bytes and more -/

/-- In the middle of the pass: the slots behind it hold no stopped worker, and once it has
seen a slot, some fragment is being fetched. -/
def Pass (s : Download) : Prop :=
  ∀ i, s.pc = .slot i →
    (∀ j h, j < i → s.workers[j]? = some (some h) → h.obj.state ≠ .stopped) ∧
      (0 < i → ∃ n ∈ s.controller.lengthMonitor, n.val.worker ≠ none)

/-- Outside the pass there is nothing to say. -/
lemma pass_of_pc_ne (hpc : ∀ i, s.pc ≠ .slot i) : s.Pass :=
  fun i hi => absurd hi (hpc i)

/-- The pass has seen one slot more. -/
lemma pass_of_next {i : ℕ} (hpc : s.pc = .slot (i + 1))
    (hbefore : ∀ j h, j < i → s.workers[j]? = some (some h) → h.obj.state ≠ .stopped)
    (hat : ∀ h, s.workers[i]? = some (some h) → h.obj.state ≠ .stopped)
    (howned : ∃ n ∈ s.controller.lengthMonitor, n.val.worker ≠ none) : s.Pass := by
  intro i' hpc'
  obtain rfl : i + 1 = i' := Pc.slot.inj (hpc.symm.trans hpc')
  refine ⟨fun j h hj hval => ?_, fun _ => howned⟩
  rcases Nat.lt_succ_iff_lt_or_eq.1 hj with hj | rfl
  · exact hbefore j h hj hval
  · exact hat h hval

lemma pass_visited {i : ℕ} {slot : Option Held} {choice : SlotChoice} (hsize : 2 ≤ cfg.size)
    (h : s.Inv cfg) (hpass : s.Pass) (hpc : s.pc = .slot i)
    (hslot : s.workers[i]? = some slot) (hvisited : Visited s i slot choice s') : s'.Pass := by
  obtain ⟨hbehind, -⟩ := hpass i hpc
  have hi : i < s.workers.length := (List.getElem?_eq_some_iff.1 hslot).1
  -- the slots behind the one that is overwritten
  have hset : ∀ {x : Option Held} (j : ℕ) (h' : Held), j < i →
      (s.workers.set i x)[j]? = some (some h') → h'.obj.state ≠ .stopped := by
    intro x j h' hj hval
    rw [List.getElem?_set_ne (by omega)] at hval
    exact hbehind j h' hj hval
  cases hvisited with
  | kept h' hslot' hlive =>
    rw [hslot'] at hslot
    refine pass_of_next rfl hbehind (fun h'' hval => ?_) ?_
    · obtain rfl : h' = h'' := Option.some.inj (Option.some.inj (hslot.symm.trans hval))
      exact hlive
    · have hsync := h.synced (.of_pc hpc (by simp))
      have hlookup := hsync.live h' (List.mem_of_getElem? hslot) hlive
      obtain ⟨p, hp⟩ := Option.ne_none_iff_exists'.1 hlookup
      obtain ⟨n, hn, -, hw⟩ := (h.core.indexed.lookup_iff h'.ptr p).1 hp
      refine ⟨n, hn, ?_⟩
      rw [hw]
      exact Option.some_ne_none _
  | stuck c hclean hnil => exact pass_of_pc_ne (by simp)
  | refused c n e hclean hback hrange => exact pass_of_pc_ne (by simp)
  | idle c n hclean hback hrange =>
    refine pass_of_next rfl hset (fun h'' hval => ?_) ?_
    · have hval' : (s.workers.set i none)[i]? = some (some h'') := hval
      rw [List.getElem?_set_self hi] at hval'
      cases hval'
    · -- a free fragment is not empty and would have been answered
      obtain ⟨-, -, -, hsized⟩ := h.clean hpc hslot hclean
      have hmem := mem_of_back hback
      refine ⟨n, c.sort_perm.mem_iff.2 hmem, fun hfree => ?_⟩
      have hlt := (hsized (by omega)).1.proper hsize n hmem
      rw [rangeOf_free hfree] at hrange
      omega
  | assigned c c' n stream hclean hback hrange hconnection hptr hnode hadd =>
    refine pass_of_next rfl hset (fun h'' hval => ?_) ?_
    · simp only [List.getElem?_set_self hi, Option.some.injEq] at hval
      rw [← hval]
      simp [Worker.create]
    · obtain ⟨m, hm, hw⟩ := hadd.exists_owner
      refine ⟨m, hm, ?_⟩
      rw [hw]
      exact Option.some_ne_none _

lemma Inv.pass_step {label : Label} (hsize : 2 ≤ cfg.size) (h : s.Inv cfg) (hpass : s.Pass)
    (hstep : s.step label = some s') : s'.Pass := by
  cases step_cases hstep with
  | passed i choice hpc hslot => exact pass_of_pc_ne (by simp)
  | visited i slot choice s' hpc hslot hvisit =>
    exact pass_visited hsize h hpass hpc hslot (visit_cases h.core.indexed hvisit)
  | waited events hpc hreportable => exact pass_of_pc_ne (by simp)
  | handled p event rest env s' hpc hhandle =>
    obtain ⟨w, c, pc, file, rfl, -, hpc'⟩ := h.handle_shape hpc hhandle
    rcases hpc' with rfl | ⟨fault, rfl⟩
    · exact pass_of_pc_ne (by simp [after])
    · exact pass_of_pc_ne (by simp [after])
  | ticked now hpc =>
    obtain ⟨time, lastTime, pc, htick, hfin⟩ := s.tick_cases now
    rw [htick]
    intro i hi
    have hi' : pc = .slot i := hi
    -- a new pass begins at the first slot
    obtain rfl : i = 0 := by
      rcases hfin with ⟨fault, -, rfl⟩ | ⟨-, rfl⟩ | ⟨-, rfl | rfl⟩
      · cases hi'
      · cases hi'
      · exact (Pc.slot.inj hi').symm
      · cases hi'
    exact ⟨fun j h hj => absurd hj (Nat.not_lt_zero j), fun hlt => absurd hlt (lt_irrefl 0)⟩

lemma Inv.pass {labels : List Label} (hsize : 2 ≤ cfg.size)
    (hrun : Transition.run Download.step (init cfg node now) labels = some s) : s.Pass := by
  have hinit : (init cfg node now).Pass := by
    intro i hi
    obtain rfl : 0 = i := Pc.slot.inj hi
    exact ⟨fun j h hj => absurd hj (Nat.not_lt_zero j), fun hlt => absurd hlt (lt_irrefl 0)⟩
  have hboth : s.Inv cfg ∧ s.Pass :=
    Transition.run_invariant (P := fun s => Inv cfg s ∧ s.Pass)
      (fun _ _ _ hs hstep => ⟨hs.1.step hstep, hs.1.pass_step hsize hs.2 hstep⟩)
      ⟨inv_init cfg node now, hinit⟩ hrun
  exact hboth.2

lemma Inv.asksNonEmpty (hsize : 1 ≤ cfg.size) (h : s.Inv cfg) : s.AsksNonEmpty := by
  intro i slot c hpc hslot hval
  rcases clean_cases h.core.indexed slot with ⟨h', -, -, hval'⟩ | ⟨c', hclean, hval'⟩
  · rw [hval'] at hval
    cases hval
  · obtain rfl : c' = c := by
      rw [hval'] at hval
      exact (Prod.mk.inj (Except.ok.inj hval)).1
    obtain ⟨-, -, -, hsized⟩ := h.clean hpc hslot hclean
    exact (hsized hsize).2

lemma Inv.keepsWorking (hcn : 1 ≤ cfg.connectionNumber) (h : s.Inv cfg) (hpass : s.Pass) :
    s.KeepsWorking := by
  intro hpc hne
  obtain ⟨hbehind, hbusy⟩ := hpass _ hpc
  obtain ⟨n, hn, hw⟩ := hbusy (by rw [h.length]; omega)
  obtain ⟨p, hp⟩ := Option.ne_none_iff_exists'.1 hw
  -- the owner is held, in a slot behind the pass
  obtain ⟨w, hmem⟩ := mem_pointers.1 (h.core.held p (h.core.indexed.lookup_of_owner hn hp))
  obtain ⟨j, hj, hval⟩ := List.mem_iff_getElem.1 hmem
  have hval' : s.workers[j]? = some (some ⟨p, w⟩) := List.getElem?_eq_some_iff.2 ⟨hj, hval⟩
  exact ⟨⟨p, w⟩, hmem, hbehind j _ hj hval', n, hn, hp⟩

/-! ## Smaller files -/

/-- The rest of a pass over empty slots for which there is nothing to do. -/
lemma idle_run {k i : ℕ} (choice : SlotChoice)
    (hslots : ∀ j, i ≤ j → j < i + k → s.workers[j]? = some none)
    (hnext : s.controller.next = .ok ((0, 0), s.controller)) :
    Transition.run step { s with pc := .slot i } (List.replicate k (.slot choice)) =
      some { s with pc := .slot (i + k) } := by
  induction k generalizing i with
  | zero => rfl
  | succ k ih =>
    have hslot : s.workers[i]? = some none := hslots i le_rfl (by omega)
    have hstep : step { s with pc := .slot i } (.slot choice) =
        some { s with pc := .slot (i + 1) } := by
      simp only [step, hslot, visit, clean, hnext, set_none_of_slot hslot]
      rfl
    have hrest := ih (i := i + 1) fun j hij hj => hslots j (by omega) (by omega)
    rw [List.replicate_succ, Transition.run, hstep, Option.bind_some, hrest, Nat.add_assoc,
      Nat.add_comm 1 k]

lemma replicate_slot {n j : ℕ} (hj : j < n) :
    (List.replicate n (none : Option Held))[j]? = some none := by
  rw [List.getElem?_replicate, if_pos hj]

/-- With one byte, no worker is ever created. -/
lemma stalls_of_one (hsize : cfg.size = 1) (node : NodePtr)
    (now : ℤ) : ∃ labels s, Transition.run step (init cfg node now) labels = some s ∧
      ¬ s.KeepsWorking := by
  have hnext : (init cfg node now).controller.next =
      .ok ((0, 0), (init cfg node now).controller) := by
    have hsingle : (init cfg node now).controller.lengthMonitor = [⟨node, 0, 0, none⟩] := by
      simp [init, LengthController.create, hsize]
    rw [next_of_singleton hsingle]
    rfl
  have hrun := idle_run (i := 0) (k := cfg.connectionNumber) (s := init cfg node now)
    ⟨0, 0, .error .systemError⟩ (fun j _ hj => replicate_slot (by omega)) hnext
  refine ⟨_, _, hrun, fun hkeeps => ?_⟩
  obtain ⟨h, hh, -⟩ := hkeeps (by simp [init]) (List.cons_ne_nil _ _)
  exact absurd (List.eq_of_mem_replicate hh) (by simp)

/-- The controller of an empty file, once its fragment is assigned to a worker at `1`. -/
def emptyAssigned (node : NodePtr) : LengthController where
  min := 128 * 1024
  lengthMonitor := [⟨node, 0, -1, some 1⟩]
  nodeFinder := AList.insert 1 node ∅

/-- The loop in the pass that has assigned the fragment of an empty file to `w`. -/
def emptyStarted (n : ℕ) (w : Worker) (node : NodePtr) (req : Request) (now : ℤ) (pc : Pc) :
    Download where
  pc := pc
  workers := some ⟨1, w⟩ :: List.replicate n none
  controller := emptyAssigned node
  req := req
  file := fun _ => none
  time := now
  lastTime := now

lemma empty_start (n : ℕ) (request : Request) (node : NodePtr) (now : ℤ) : ∃ w req,
    w = Worker.create ⟨[], []⟩ req 0 ∧
      step (init ⟨0, n + 1, request⟩ node now) (.slot ⟨1, node + 1, .ok ⟨[], []⟩⟩) =
        some (emptyStarted n w node req now (.slot 1)) := by
  refine ⟨_, request.set "Range" (rangeValue 0 (-1)), rfl, ?_⟩
  have hnext : (LengthController.create 0 (128 * 1024) node).next =
      .ok ((0, -1), LengthController.create 0 (128 * 1024) node) :=
    next_of_singleton (n := ⟨node, 0, -1, none⟩) rfl
  have hfresh : ¬ ((1 : WorkerPtr) ∈ pointers (none :: List.replicate n none) ∨
      node + 1 ∈ (LengthController.create 0 (128 * 1024) node).addresses) := by
    rw [pointers_cons, pointers_replicate]
    simp [LengthController.addresses, LengthController.create]
  have hvisit : visit (init ⟨0, n + 1, request⟩ node now) 0 none
      ⟨1, node + 1, .ok ⟨[], []⟩⟩ = assignWorker (init ⟨0, n + 1, request⟩ node now) 0 (0, -1)
        ⟨1, node + 1, .ok ⟨[], []⟩⟩ := by
    have hnext' : (init ⟨0, n + 1, request⟩ node now).controller.next =
      .ok ((0, -1), (init ⟨0, n + 1, request⟩ node now).controller) := hnext
    simp only [visit, clean, hnext']
    rfl
  have hassign : assignWorker (init ⟨0, n + 1, request⟩ node now) 0 (0, -1)
      ⟨1, node + 1, .ok ⟨[], []⟩⟩ = some (emptyStarted n
        (Worker.create ⟨[], []⟩ (request.set "Range" (rangeValue 0 (-1))) 0) node
        (request.set "Range" (rangeValue 0 (-1))) now (.slot 1)) := if_neg hfresh
  exact hvisit.trans hassign

/-- The worker fails to connect, and half a second later a new pass begins. -/
lemma empty_stop (n : ℕ) (req : Request) (node : NodePtr) (now : ℤ) : ∃ w,
    w.state = .stopped ∧ w.fileOffset = 0 ∧
      Transition.run step
        (emptyStarted n (Worker.create ⟨[], []⟩ req 0) node req now .wait)
        [.wait [(1, { epollin := true })], .process { connect := .failed }, .clock (now + 500)] =
      some { emptyStarted n w node req now (.slot 0) with
        time := now + 500, lastTime := now + 500 } := by
  have hwait : step (emptyStarted n (Worker.create ⟨[], []⟩ req 0) node req now .wait)
      (.wait [(1, { epollin := true })]) = some (emptyStarted n (Worker.create ⟨[], []⟩ req 0)
        node req now (.dispatch [(1, { epollin := true })])) := by
    have hrep : (emptyStarted n (Worker.create ⟨[], []⟩ req 0) node req now .wait).Reportable
        [(1, { epollin := true })] := by
      refine ⟨List.nodup_singleton _, fun e he => ?_⟩
      obtain rfl := List.mem_singleton.1 he
      rfl
    simp only [step]
    exact if_pos hrep
  have hput : ∀ w, putWorker (some ⟨1, Worker.create ⟨[], []⟩ req 0⟩ :: List.replicate n none) 1
      w = some ⟨1, w⟩ :: List.replicate n none := by
    intro w
    simp [putWorker]
  have hhandle : ∀ w, w = { Worker.create ⟨[], []⟩ req 0 with
        state := .stopped, interest := none, stream := none } →
      step (emptyStarted n (Worker.create ⟨[], []⟩ req 0) node req now
        (.dispatch [(1, { epollin := true })])) (.process { connect := .failed }) =
      some (emptyStarted n w node req now (.dispatch [])) := by
    rintro w rfl
    have hafter : step (emptyStarted n (Worker.create ⟨[], []⟩ req 0) node req now
        (.dispatch [(1, { epollin := true })])) (.process { connect := .failed }) =
        some { emptyStarted n (Worker.create ⟨[], []⟩ req 0) node req now (.dispatch []) with
          workers := putWorker (some ⟨1, Worker.create ⟨[], []⟩ req 0⟩ :: List.replicate n none)
            1 { Worker.create ⟨[], []⟩ req 0 with
              state := .stopped, interest := none, stream := none } } := rfl
    rw [hafter, hput]
    rfl
  have hclock : ∀ w, step (emptyStarted n w node req now (.dispatch [])) (.clock (now + 500)) =
      some { emptyStarted n w node req now (.slot 0) with
        time := now + 500, lastTime := now + 500 } := by
    intro w
    have hlate : now + 500 - now ≥ 250 := by omega
    have hfin : (emptyAssigned node).finished = .ok false := rfl
    simp only [step, tick, emptyStarted, hlate, if_true, hfin]
  refine ⟨{ Worker.create ⟨[], []⟩ req 0 with
    state := .stopped, interest := none, stream := none }, rfl, rfl, ?_⟩
  rw [Transition.run, hwait, Option.bind_some, Transition.run, hhandle _ rfl, Option.bind_some,
    Transition.run, hclock, Option.bind_some, Transition.run]

/-- The clean-up drops the only fragment. -/
lemma empty_clean {w : Worker} (node : NodePtr) (hstate : w.state = .stopped)
    (hoffset : w.fileOffset = 0) :
    ∃ c, clean (emptyAssigned node) (some ⟨1, w⟩) = .ok (c, none) ∧ c.lengthMonitor = [] := by
  have hlookup : (emptyAssigned node).nodeFinder.lookup 1 = some node := AList.lookup_insert _
  have hderef : (emptyAssigned node).deref node = some ⟨0, -1, some 1⟩ := by
    simp [deref, emptyAssigned]
  have hval : (emptyAssigned node).workerStopped 1 0 =
      .ok ((emptyAssigned node).dropFragment node ⟨0, -1, some 1⟩ 1) := by
    simp only [workerStopped, hlookup, hderef]
    rfl
  refine ⟨(emptyAssigned node).dropFragment node ⟨0, -1, some 1⟩ 1, ?_, ?_⟩
  · simp only [clean, hstate, if_true, Worker.getOffset, hoffset, hval]
  · simp [dropFragment, emptyAssigned, assign, remove]

/-- With no byte, the fragment is dropped when its worker stops. -/
lemma stalls_of_zero (hcn : 1 ≤ cfg.connectionNumber) (hsize : cfg.size = 0) (node : NodePtr)
    (now : ℤ) : ∃ labels s, Transition.run step (init cfg node now) labels = some s ∧
      ¬ s.AsksNonEmpty := by
  obtain ⟨size, cn, request⟩ := cfg
  obtain rfl : size = 0 := hsize
  obtain ⟨n, rfl⟩ := Nat.exists_eq_add_of_le' hcn
  obtain ⟨w, req, rfl, hstart⟩ := empty_start n request node now
  obtain ⟨w', hstate, hoffset, hstop⟩ := empty_stop n req node now
  have hidle := idle_run (i := 1) (k := n)
    (s := emptyStarted n (Worker.create ⟨[], []⟩ req 0) node req now .wait)
    ⟨0, 0, .error .systemError⟩ (fun j hj hlt => by
      obtain ⟨k, rfl⟩ := Nat.exists_eq_add_of_le' hj
      exact replicate_slot (by omega))
    (next_of_singleton (n := ⟨node, 0, -1, some 1⟩) rfl)
  have hend : step { emptyStarted n (Worker.create ⟨[], []⟩ req 0) node req now .wait with
      pc := .slot (1 + n) } (.slot ⟨0, 0, .error .systemError⟩) =
      some (emptyStarted n (Worker.create ⟨[], []⟩ req 0) node req now .wait) := by
    have hslot : (some (Held.mk 1 (Worker.create ⟨[], []⟩ req 0)) ::
        List.replicate n none)[1 + n]? = none :=
      List.getElem?_eq_none (by rw [List.length_cons, List.length_replicate]; omega)
    simp only [step, emptyStarted, hslot]
  refine ⟨_, _, (Transition.run_cons_iff step).2 ⟨_, hstart, (Transition.run_append_iff step).2
    ⟨_, hidle, (Transition.run_cons_iff step).2 ⟨_, hend, hstop⟩⟩⟩, fun hasks => ?_⟩
  obtain ⟨c, hclean, hnil⟩ := empty_clean node hstate hoffset
  exact hasks 0 _ c rfl rfl hclean hnil

/-! ## The exact condition -/

/-- The pass over the slots as it should be: for every file and every number of connections,
`next` is asked of non-empty lists only, and some worker keeps working on what is left. -/
def NeverStalls (cfg : Config) (node : NodePtr) (now : ℤ) : Prop :=
  ∀ labels s, Transition.run step (init cfg node now) labels = some s →
    s.AsksNonEmpty ∧ s.KeepsWorking

/-- **The download never stalls, in any run, exactly if the file has two bytes or more.** -/
theorem never_stalls_iff (hsize : 0 ≤ cfg.size) (hcn : 1 ≤ cfg.connectionNumber)
    (node : NodePtr) (now : ℤ) : NeverStalls cfg node now ↔ 2 ≤ cfg.size := by
  constructor
  · intro hnever
    by_contra hsmall
    have hcases : cfg.size = 0 ∨ cfg.size = 1 := by omega
    rcases hcases with hzero | hone
    · obtain ⟨labels, s, hrun, hfail⟩ := stalls_of_zero hcn hzero node now
      exact hfail (hnever labels s hrun).1
    · obtain ⟨labels, s, hrun, hfail⟩ := stalls_of_one hone node now
      exact hfail (hnever labels s hrun).2
  · intro h2 labels s hrun
    have hinv : s.Inv cfg := Inv.run hrun
    exact ⟨hinv.asksNonEmpty (by omega), hinv.keepsWorking hcn (Inv.pass h2 hrun)⟩

/-- Two connections and a file of two bytes. -/
theorem never_stalls_two : NeverStalls ⟨2, 2, [], [], [], []⟩ 0 0 := by
  have hsize : 0 ≤ (⟨2, 2, [], [], [], []⟩ : Config).size := by decide
  exact (never_stalls_iff hsize (by decide) 0 0).2 (by decide)

/-- One connection and a file of one byte: after the first pass nobody works. -/
theorem stalls_with_one_byte : ¬ NeverStalls ⟨1, 1, [], [], [], []⟩ 0 0 := by
  intro hnever
  have hrun : Transition.run step (init ⟨1, 1, [], [], [], []⟩ 0 0)
    [.slot ⟨1, 1, .ok ⟨[], []⟩⟩] = some _ := rfl
  obtain ⟨h, hh, -⟩ := (hnever _ _ hrun).2 rfl (List.cons_ne_nil _ _)
  obtain heq := List.mem_singleton.1 hh
  cases heq

end Cld.Download
