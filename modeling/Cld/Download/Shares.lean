import Cld.Controller.Shares
import Cld.Download.Rate

/-!
# How many connections a download opens

A fragment is halved for each further worker, and only as long as both halves are longer than
`min`.  Until the file is complete the loop therefore opens no more connections than the file has
shares of that length, but for one more each time a worker leaves its fragment unfinished.

* `abandons` is the number of fragments that lose their worker in a step.
* `reserve` is what can still be opened.  `reserve_step`: a step that opens a connection takes one
  out of it, and a step that abandons a fragment puts one back.
* `connections_total` is the bound for a whole run.
-/

namespace Cld.Download

open Framework LengthController

variable {cfg : Config} {s s' : Download} {label : Label} {labels : List Label} {node : NodePtr}
  {now : ℤ} {i : ℕ} {c : LengthController} {p : WorkerPtr} {w w₁ : Worker}

/-- The fragments that lose their worker in the step, unfinished as they are. -/
def abandons (s : Download) (label : Label) : ℕ :=
  match s.pc with
  | .slot i =>
    match (s.workers[i]?).map (clean s.controller) with
    | some (.ok (c, _)) => c.free - s.controller.free
    | _ => 0
  | _ =>
    match s.step label with
    | some s' => s'.controller.free - s.controller.free
    | none => 0

/-- The connections that can still be opened; a loop that has been left opens none. -/
def reserve (s : Download) : ℕ :=
  match s.pc with
  | .failed _ => s.controller.shares - 1
  | _ => s.controller.shares

lemma reserve_le (s : Download) : s.reserve ≤ s.controller.shares := by
  unfold reserve
  split <;> omega

lemma reserve_of_running (hrun : s.Running) : s.reserve = s.controller.shares := by
  unfold reserve
  split
  · next fault hpc => exact absurd hpc (hrun fault)
  · rfl

lemma Inv.min_nonneg (h : s.Inv cfg) : 0 ≤ s.controller.min := by
  rw [h.min_eq]
  decide

/-- What a worker that has moved on from its fragment's begin leaves. -/
lemma Inv.shares_progress {o : ℤ} (h : s.Inv cfg) (hsync : Synced s.workers s.controller)
    (hmem : some ⟨p, w⟩ ∈ s.workers) (ho : w.fileOffset ≤ o)
    (hprog : Progress s.controller p o c) :
    c.shares ≤ s.controller.shares + (c.free - s.controller.free) := by
  refine LengthController.shares_progress h.min_nonneg hprog fun n hn hw => ?_
  rw [hsync.begin_eq h.core hmem hn hw]
  exact ho

lemma Inv.shares_released {o : ℤ} (h : s.Inv cfg) (hsync : Synced s.workers s.controller)
    (hmem : some ⟨p, w⟩ ∈ s.workers) (ho : w.fileOffset ≤ o)
    (hrel : Released s.controller p o c) :
    c.shares ≤ s.controller.shares + (c.free - s.controller.free) := by
  cases hrel with
  | unknown hw hc =>
    subst hc
    exact Nat.le_add_right _ _
  | known q f hw hf hrep hprog hfinder => exact h.shares_progress hsync hmem ho hprog

/-! ## One step -/

lemma Cleaned.clean_eq {c c' : LengthController} {slot : Option Held} (h : Cleaned c slot c') :
    clean c slot = .ok (c', none) := by
  cases h with
  | empty hslot hc =>
    rw [hslot, hc]
    rfl
  | stopped held hslot hstate hrel hval =>
    rw [hslot]
    simp only [clean, hstate, if_true, Worker.getOffset, hval]

/-- Cleaning a slot. -/
lemma Inv.shares_cleaned {slot : Option Held} (h : s.Inv cfg) (hpc : s.pc = .slot i)
    (hslot : s.workers[i]? = some slot) (hclean : Cleaned s.controller slot c) :
    c.shares ≤ s.controller.shares + abandons s label := by
  have hsync := h.synced (.of_pc hpc fun _ => Pc.noConfusion)
  have habandons : abandons s label = c.free - s.controller.free := by
    unfold abandons
    simp only [hpc, hslot, Option.map_some, hclean.clean_eq]
  rw [habandons]
  cases hclean with
  | empty hnone hc => exact hc ▸ Nat.le_add_right _ _
  | stopped held hsome hstate hrel =>
    rw [hsome] at hslot
    exact h.shares_released hsync (List.mem_of_getElem? hslot) le_rfl hrel

/-- A step that opens nothing. -/
lemma reserve_of_closed (hrun : s.Running) (hclosed : opens s label = false)
    (hle : s'.controller.shares ≤ s.controller.shares + abandons s label) :
    s'.reserve + (opens s label).toNat ≤ s.reserve + abandons s label := by
  rw [hclosed, reserve_of_running hrun]
  exact (reserve_le s').trans hle

/-- **A round of the pass** opens a connection only at the cost of a share. -/
lemma Inv.reserve_visited {slot : Option Held} {choice : SlotChoice} (h : s.Inv cfg)
    (hpc : s.pc = .slot i) (hslot : s.workers[i]? = some slot)
    (hvisited : Visited s i slot choice s') :
    s'.reserve + (opens s (.slot choice)).toNat ≤ s.reserve + abandons s (.slot choice) := by
  have hrun : s.Running := .of_pc hpc fun _ => Pc.noConfusion
  have hone := Bool.toNat_le (opens s (.slot choice))
  have hcleaned : ∀ {c : LengthController}, Cleaned s.controller slot c →
      0 ≤ c.sort.min ∧
        c.sort.shares ≤ s.controller.shares + abandons s (.slot choice) := by
    intro c hclean
    rw [sort_min, hclean.min_eq, c.shares_sort]
    exact ⟨h.min_nonneg, h.shares_cleaned hpc hslot hclean⟩
  cases hvisited with
  | kept held hslot' hlive =>
    have hkept : Download.clean s.controller slot = .ok (s.controller, some held) := by
      simp [hslot', Download.clean, hlive]
    refine reserve_of_closed hrun ?_ (Nat.le_add_right _ _)
    unfold opens
    simp only [hpc, hslot, Option.map_some, hkept]
  | stuck c hclean hnil =>
    refine reserve_of_closed hrun ?_ (h.shares_cleaned hpc hslot hclean)
    unfold opens
    simp only [hpc, hslot, Option.map_some, hclean.clean_eq, next_eq_of_nil hnil]
  | idle c n hclean hback hrange =>
    refine reserve_of_closed hrun ?_ (hcleaned hclean).2
    unfold opens
    simp only [hpc, hslot, Option.map_some, hclean.clean_eq, next_eq_of_back hback, hrange,
      ne_eq, not_true_eq_false, decide_false]
  | refused c n e hclean hback hrange =>
    -- the share that the worker would have taken
    obtain ⟨hmin, hless⟩ := hcleaned hclean
    obtain ⟨c', hval⟩ := exists_add hback hrange choice.ptr choice.node
    have hshare := shares_added hmin (add_cases hval)
    rw [reserve_of_running hrun]
    show c.sort.shares - 1 + (opens s (.slot choice)).toNat ≤ _
    omega
  | assigned c c' n stream hclean hback hrange hconnection hptr hnode hadd =>
    obtain ⟨hmin, hless⟩ := hcleaned hclean
    have hshare := shares_added hmin hadd
    rw [reserve_of_running hrun]
    show c'.shares + (opens s (.slot choice)).toNat ≤ _
    omega

/-- **An event** opens nothing. -/
lemma Inv.shares_handled {rest : List (WorkerPtr × EpollEvents)} {event : EpollEvents}
    {env : Env} (h : s.Inv cfg) (hpc : s.pc = .dispatch ((p, event) :: rest))
    (hhandle : s.handle rest p event env = some s') :
    s'.controller.shares ≤
      s.controller.shares + (s'.controller.free - s.controller.free) := by
  obtain ⟨w, outcome, w₁, file, -, hmem, hwf, hstream, hprocess, hhandled⟩ :=
    h.exists_handled hpc hhandle
  have hsync := h.synced (.of_pc hpc fun _ => Pc.noConfusion)
  have hproc := Worker.process_spec hwf hstream hprocess
  have hstopped : ∀ {w₂ : Worker} {fault : Option Fault}, w₁.forceStop env = (w₂, fault) →
      w.fileOffset ≤ w₂.fileOffset := by
    intro w₂ fault hstop
    obtain ⟨-, -, hoffset, -⟩ := Worker.forceStop_spec hproc.wf hstop
    rw [hoffset]
    exact hproc.fileOffset_le
  cases hhandled with
  | unread n ho hstate => exact Nat.le_add_right _ _
  | read n c ho hstate hprog => exact h.shares_progress hsync hmem hproc.fileOffset_le hprog
  | full n c w₂ fault ho hstate hprog =>
    exact h.shares_progress hsync hmem hproc.fileOffset_le hprog
  | caught e c w₂ ho hstate hstop hrel => exact h.shares_released hsync hmem (hstopped hstop) hrel
  | lost e c w₂ ho hstate hstop hrel => exact h.shares_released hsync hmem (hstopped hstop) hrel
  | torn e w₂ fault ho hstop => exact Nat.le_add_right _ _

/-- **One step** of the loop. -/
lemma Inv.reserve_step (h : s.Inv cfg) (hstep : s.step label = some s') :
    s'.reserve + (opens s label).toNat ≤ s.reserve + abandons s label := by
  -- only the pass opens connections
  have hclosed : (∀ i, s.pc ≠ .slot i) → opens s label = false := by
    intro hpc
    by_contra hopens
    obtain ⟨i, hslot, -⟩ := opens_slot (Bool.not_eq_false _ ▸ hopens)
    exact hpc i hslot
  cases step_cases hstep with
  | passed i choice hpc hslot =>
    refine reserve_of_closed (.of_pc hpc fun _ => Pc.noConfusion) ?_ (Nat.le_add_right _ _)
    unfold opens
    simp only [hpc, hslot, Option.map_none]
  | visited i slot choice s' hpc hslot hvisit =>
    exact h.reserve_visited hpc hslot (visit_cases h.core.indexed hvisit)
  | waited events hpc hreportable =>
    have hopens := hclosed fun i hi => Pc.noConfusion (hpc.symm.trans hi)
    exact reserve_of_closed (.of_pc hpc fun _ => Pc.noConfusion) hopens (Nat.le_add_right _ _)
  | handled p event rest env s' hpc hhandle =>
    have hopens := hclosed fun i hi => Pc.noConfusion (hpc.symm.trans hi)
    have habandons : abandons s (.process env) = s'.controller.free - s.controller.free := by
      unfold abandons
      simp only [hpc, hstep]
    refine reserve_of_closed (.of_pc hpc fun _ => Pc.noConfusion) hopens ?_
    rw [habandons]
    exact h.shares_handled hpc hhandle
  | ticked now hpc =>
    have hopens := hclosed fun i hi => Pc.noConfusion (hpc.symm.trans hi)
    obtain ⟨time, lastTime, pc, htick, -⟩ := s.tick_cases now
    rw [htick]
    exact reserve_of_closed (.of_pc hpc fun _ => Pc.noConfusion) hopens (Nat.le_add_right _ _)

/-! ## Runs -/

/-- How many fragments are abandoned in a run. -/
def abandoned (s : Download) (labels : List Label) : ℕ :=
  Transition.total step abandons s labels

lemma reserve_init (cfg : Config) (node : NodePtr) (now : ℤ) :
    (init cfg node now).reserve = max 1 ((cfg.size - 1) / (128 * 1024 + 1)).toNat := by
  show 1 + splitsOf (128 * 1024) (cfg.size - 1 - 0) + 0 = _
  unfold splitsOf
  rw [sub_zero]
  omega

/-- **A download opens, or tries to open, no more connections** than its file has shares of more
than 128 KiB, at least one, and one more for each time that a fragment was left unfinished. -/
theorem connections_total (hrun : Transition.run step (init cfg node now) labels = some s) :
    connections (init cfg node now) labels ≤
      max 1 ((cfg.size - 1) / (128 * 1024 + 1)).toNat + abandoned (init cfg node now) labels := by
  have hpaid : s.reserve + connections (init cfg node now) labels ≤
      (init cfg node now).reserve + abandoned (init cfg node now) labels :=
    Transition.total_le_total (fun _ _ _ (h : Inv cfg _) hstep => h.step hstep)
      (fun _ _ _ h hstep => h.reserve_step hstep) (inv_init cfg node now) hrun
  rw [reserve_init] at hpaid
  exact (Nat.le_add_left _ _).trans hpaid

/-- Three slots look for work. -/
def threeSlots : List Label :=
  [.slot ⟨1, 1, .ok ⟨[], []⟩⟩, .slot ⟨2, 2, .ok ⟨[], []⟩⟩, .slot ⟨3, 3, .ok ⟨[], []⟩⟩]

/-- A file of 300000 bytes is fetched over two connections, though there are three slots. -/
theorem connections_total_two :
    connections (init ⟨300000, 3, [], [], [], []⟩ 0 0) threeSlots = 2 ∧
      connections (init ⟨300000, 3, [], [], [], []⟩ 0 0) threeSlots ≤ 2 := by
  have hrun : Transition.run step (init ⟨300000, 3, [], [], [], []⟩ 0 0) threeSlots = some _ := rfl
  exact ⟨by decide +kernel, connections_total hrun⟩

end Cld.Download
