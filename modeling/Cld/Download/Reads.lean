import Cld.Download.Progress

/-!
# How often a download has to be served

An event brings a download forward when it moves a worker on in the file.  The bytes that remain
pay for these events, one byte at least for each, so that there are fewer of them than the file has
bytes; and when they are used up the loop is left.

* `advances` is the test for such an event.
* `unread` is what can still pay.  A loop that an exception has left in the middle of an event may
  owe one byte: the worker has moved on, and the controller has not been told.
* `reads_bounded` is the bound for a whole run.
-/

namespace Cld

open Framework LengthController

lemma LengthController.Partition.remain_pos {c : LengthController} {n : Node} {size : ℤ}
    (h : c.Partition size) (hn : n ∈ c.lengthMonitor) (hbusy : n.val.begin < n.val.end_) :
    0 < c.remain := by
  have hfinite : c.union.Finite := (Set.finite_Ico 0 _).subset h.union_subset
  have hfirst : n.val.begin ∈ c.union := ⟨n, hn, le_refl n.val.begin, hbusy⟩
  rw [h.remain_eq]
  exact_mod_cast (Set.ncard_pos hfinite).2 ⟨_, hfirst⟩

/-- **A worker that moves on** leaves less. -/
lemma LengthController.Partition.remain_lt {c c' : LengthController} {p : WorkerPtr} {b o size : ℤ}
    (h : c.Partition size) (hidx : c.Indexed) (hprog : Progress c p o c')
    (hbegin : ∀ n ∈ c.lengthMonitor, n.val.worker = some p → n.val.begin = b) (hlt : b < o) :
    0 ≤ c'.remain ∧ c'.remain < c.remain := by
  have hle : ∀ n ∈ c.lengthMonitor, n.val.worker = some p → n.val.begin ≤ o :=
    fun n hn hw => (hbegin n hn hw).le.trans hlt.le
  obtain ⟨hpart, -⟩ := h.progress_spec hidx hprog hle
  obtain ⟨n, hn, hw⟩ := hprog.exists_owner
  have hbusy : n.val.begin < n.val.end_ := by
    refine h.busy n hn ?_
    rw [hw]
    exact Option.some_ne_none p
  -- the first byte of the fragment is struck out
  have hfirst : n.val.begin ∈ c.union := ⟨n, hn, le_refl n.val.begin, hbusy⟩
  have hstruck : n.val.begin ∈ c.own p ∩ Set.Iio o := by
    refine ⟨⟨n, hn, hw, le_refl n.val.begin, hbusy⟩, ?_⟩
    rw [hbegin n hn hw]
    exact hlt
  have hless : c'.union ⊂ c.union := by
    rw [h.union_progress hidx hprog hle]
    exact Set.ssubset_iff_exists.2 ⟨Set.sdiff_subset, _, hfirst, fun hmem => hmem.2 hstruck⟩
  have hfinite : c.union.Finite := (Set.finite_Ico 0 _).subset h.union_subset
  rw [h.remain_eq, hpart.remain_eq]
  exact ⟨Int.natCast_nonneg _, by exact_mod_cast Set.ncard_lt_ncard hless hfinite⟩

namespace Download

variable {cfg : Config} {s s' : Download} {label : Label} {labels : List Label} {node : NodePtr}
  {now : ℤ} {rest : List (WorkerPtr × EpollEvents)} {p : WorkerPtr} {event : EpollEvents}
  {env : Env}

/-- The step handles an event, and the worker of the event is further on after it. -/
def advances (s : Download) (label : Label) : Bool :=
  match s.pc, s.step label with
  | .dispatch ((p, _) :: _), some s' => decide (offsets s.workers p < offsets s'.workers p)
  | _, _ => false

/-- The bytes that are still to be read. -/
def unread (s : Download) : ℕ :=
  match s.pc with
  | .failed _ => s.controller.remain.toNat - 1
  | _ => s.controller.remain.toNat

lemma unread_le (s : Download) : s.unread ≤ s.controller.remain.toNat := by
  unfold unread
  split <;> omega

lemma unread_of_running (hrun : s.Running) : s.unread = s.controller.remain.toNat := by
  unfold unread
  split
  · next fault hpc => exact absurd hpc (hrun fault)
  · rfl

/-! ## One step -/

lemma advances_handled (hstep : s.step label = some s') (hadv : advances s label = true) :
    ∃ p event rest env, s.pc = .dispatch ((p, event) :: rest) ∧ label = .process env ∧
      s.handle rest p event env = some s' ∧ offsets s.workers p < offsets s'.workers p := by
  unfold advances at hadv
  rw [hstep] at hadv
  split at hadv
  · next p event rest s₁ hpc hsome =>
    obtain rfl : s' = s₁ := Option.some.inj hsome
    cases step_cases hstep with
    | handled q event' rest' env s' hpc' hhandle =>
      obtain ⟨⟨rfl, rfl⟩, rfl⟩ : (p = q ∧ event = event') ∧ rest = rest' := by
        simpa using hpc.symm.trans hpc'
      exact ⟨p, event, rest, env, hpc, rfl, hhandle, of_decide_eq_true hadv⟩
    | passed i choice hpc' hslot => cases hpc.symm.trans hpc'
    | visited i slot choice s' hpc' hslot hvisit => cases hpc.symm.trans hpc'
    | waited events hpc' hreportable => cases hpc.symm.trans hpc'
    | ticked now hpc' => cases hpc.symm.trans hpc'
  · cases hadv

/-- **An event that moves its worker on** is paid for. -/
lemma Inv.unread_handled (h : s.Inv cfg) (hsize : 1 ≤ cfg.size)
    (hpc : s.pc = .dispatch ((p, event) :: rest)) (hhandle : s.handle rest p event env = some s')
    (hmoved : offsets s.workers p < offsets s'.workers p) :
    s'.unread + 1 ≤ s.controller.remain.toNat := by
  obtain ⟨w, outcome, w₁, file, hfind, hmem, hwf, hstream, hprocess, hhandled⟩ :=
    h.exists_handled hpc hhandle
  have hrunning : s.Running := .of_pc hpc fun _ => Pc.noConfusion
  have hsync := h.synced hrunning
  have hproc := Worker.process_spec hwf hstream hprocess
  have hp : p ∈ pointers s.workers := mem_pointers.2 ⟨w, hmem⟩
  have hpart := h.partition hsize
  have hbegin : ∀ n ∈ s.controller.lengthMonitor, n.val.worker = some p →
      n.val.begin = w.fileOffset := fun n hn hw => hsync.begin_eq h.core hmem hn hw
  rw [offsets_eq hfind] at hmoved
  have hnow : ∀ v : Worker, offsets (putWorker s.workers p v) p = v.fileOffset := by
    intro v
    rw [offsets_putWorker h.core.distinct hp, Function.update_self]
  have hpaid : ∀ {c : LengthController} {o : ℤ}, Progress s.controller p o c →
      w.fileOffset < o → c.remain.toNat + 1 ≤ s.controller.remain.toNat := by
    intro c o hprog hlt
    obtain ⟨hnonneg, hless⟩ := hpart.remain_lt h.core.indexed hprog hbegin hlt
    omega
  have hstopped : ∀ {w₂ : Worker} {fault : Option Fault}, w₁.forceStop env = (w₂, fault) →
      w₂.fileOffset = w₁.fileOffset := fun hstop => (Worker.forceStop_spec hproc.wf hstop).2.2.1
  have hbody : w.fileOffset < w₁.fileOffset → w.state = .receivingBody := by
    intro hlt
    by_contra hstate
    exact absurd (hproc.idle hstate).1 hlt.ne'
  have hknown : w.fileOffset < w₁.fileOffset → s.controller.nodeFinder.lookup p ≠ none := by
    intro hlt
    refine hsync.live _ hmem ?_
    show w.state ≠ .stopped
    rw [hbody hlt]
    decide
  cases hhandled with
  | unread n ho hstate =>
    have hlt : w.fileOffset < w₁.fileOffset := hnow w₁ ▸ hmoved
    exact absurd (hbody hlt) hstate
  | read n c ho hstate hprog =>
    have hlt : w.fileOffset < w₁.fileOffset := hnow w₁ ▸ hmoved
    exact (Nat.succ_le_succ (unread_le _)).trans (hpaid hprog hlt)
  | full n c w₂ fault ho hstate hprog hfinder hstop =>
    have hlt : w.fileOffset < w₂.fileOffset := hnow w₂ ▸ hmoved
    rw [hstopped hstop] at hlt
    exact (Nat.succ_le_succ (unread_le _)).trans (hpaid hprog hlt)
  | caught e c w₂ ho hstate hstop hrel =>
    have hlt : w.fileOffset < w₂.fileOffset := hnow w₂ ▸ hmoved
    rw [hstopped hstop] at hlt
    exact absurd (hbody hlt) hstate
  | lost e c w₂ ho hstate hstop hrel =>
    have hlt : w.fileOffset < w₂.fileOffset := hnow w₂ ▸ hmoved
    cases hrel with
    | unknown hw hc => exact absurd hw (hknown (hstopped hstop ▸ hlt))
    | known q f hw hf hrep hprog hfinder =>
      exact (Nat.succ_le_succ (unread_le _)).trans (hpaid hprog hlt)
  | torn e w₂ fault ho hstop =>
    have hlt : w.fileOffset < w₂.fileOffset := hnow w₂ ▸ hmoved
    obtain ⟨q, hq⟩ := Option.ne_none_iff_exists'.1 (hknown (hstopped hstop ▸ hlt))
    obtain ⟨f, others, hf, -, hperm, -, -⟩ := Indexed.exists_node h.core.indexed hq
    have hn : ⟨q, f⟩ ∈ s.controller.lengthMonitor := hperm.mem_iff.2 List.mem_cons_self
    have hbusy : f.begin < f.end_ := by
      refine hpart.busy _ hn ?_
      rw [hf]
      exact Option.some_ne_none p
    have hpos := hpart.remain_pos hn hbusy
    show s.controller.remain.toNat - 1 + 1 ≤ _
    omega

/-- **One step** of the loop. -/
lemma unread_step (hsize : 1 ≤ cfg.size)
    (hreached : ∃ labels, Transition.run step (init cfg node now) labels = some s)
    (hstep : s.step label = some s') : s'.unread + (advances s label).toNat ≤ s.unread := by
  obtain ⟨labels, hrun⟩ := hreached
  have hinv : s.Inv cfg := Inv.run hrun
  have hrunning : s.Running := by
    intro fault hpc
    unfold step at hstep
    rw [hpc] at hstep
    cases hstep
  rw [unread_of_running hrunning]
  cases hadv : advances s label with
  | false =>
    have hless := remain_le hsize hrun (Transition.run_single hstep)
    exact (unread_le s').trans (Int.toNat_le_toNat hless)
  | true =>
    obtain ⟨p, event, rest, env, hpc, -, hhandle, hmoved⟩ := advances_handled hstep hadv
    exact hinv.unread_handled hsize hpc hhandle hmoved

/-! ## Runs -/

/-- The events of a run that move their workers on. -/
def reads (s : Download) (labels : List Label) : ℕ :=
  Transition.total step (fun s label => (advances s label).toNat) s labels

/-- **A download is forwarded by fewer events than its file has bytes**, in every run about a file
of a byte or more.  As long as no exception has left the loop, these events and the bytes that
remain are together no more than the bytes that the controller started with, and a loop that has had
as many events is finished. -/
theorem reads_bounded (hsize : 1 ≤ cfg.size)
    (hrun : Transition.run step (init cfg node now) labels = some s) :
    reads (init cfg node now) labels ≤ cfg.size - 1 ∧
      (s.Running → s.controller.remain + reads (init cfg node now) labels ≤ cfg.size - 1) ∧
      (2 ≤ cfg.size → s.Running → reads (init cfg node now) labels = cfg.size - 1 →
        s.controller.finished = .ok true) := by
  have hinv : s.Inv cfg := Inv.run hrun
  have hstart : (init cfg node now).unread = (cfg.size - 1).toNat := by
    show ([cfg.size - 1 - 0].sum).toNat = _
    rw [List.sum_singleton, sub_zero]
  have hpaid : (s.unread : ℤ) + reads (init cfg node now) labels ≤ (cfg.size - 1).toNat := by
    have hall : Transition.Always step (fun _ _ => True) (init cfg node now) labels :=
      Transition.always_of_forall (fun _ _ => trivial) _
    have hkeep : ∀ t l t', (∃ ls, Transition.run step (init cfg node now) ls = some t) → True →
        step t l = some t' → ∃ ls, Transition.run step (init cfg node now) ls = some t' :=
      fun t l t' ⟨ls, ht⟩ _ hl => ⟨ls ++ [l], Transition.run_concat ht hl⟩
    have hstep : ∀ t l t', (∃ ls, Transition.run step (init cfg node now) ls = some t) → True →
        step t l = some t' → -(t.unread : ℤ) + 1 * (advances t l).toNat ≤ -(t'.unread : ℤ) := by
      intro t l t' ht _ hl
      have hone := unread_step hsize ht hl
      omega
    have htotal := Transition.total_le hkeep hstep ⟨[], rfl⟩ hall hrun
    rw [hstart] at htotal
    unfold reads
    omega
  have hrunning : s.Running →
      s.controller.remain + reads (init cfg node now) labels ≤ cfg.size - 1 := by
    intro hrunning
    rw [unread_of_running hrunning] at hpaid
    have hnonneg := hinv.remain_nonneg hsize
    omega
  refine ⟨by omega, hrunning, fun htwo hrun hall => ?_⟩
  have hnone : s.controller.remain ≤ 0 := by
    have hless := hrunning hrun
    omega
  -- a fragment would hold a byte that remains
  have hempty : s.controller.lengthMonitor = [] := by
    refine List.eq_nil_iff_forall_not_mem.2 fun n hn => ?_
    have hpart := hinv.partition hsize
    have hpos := hpart.remain_pos hn (hpart.proper htwo n hn)
    omega
  obtain ⟨b, hfinished⟩ := hinv.finished_ok
  have htrue : b = true := by
    unfold finished at hfinished
    simp only [hempty, List.isEmpty_nil, if_true] at hfinished
    split at hfinished
    · exact (Except.ok.inj hfinished).symm
    · cases hfinished
  rw [hfinished, htrue]

/-- One event forwards a file of two bytes, whose last byte is not counted. -/
theorem reads_bounded_two : ∃ s,
    Transition.run step (init ⟨2, 1, [], [], [], []⟩ 0 0)
        (fetchTwo [.byte 65 false, .byte 66 false]) = some s ∧
      reads (init ⟨2, 1, [], [], [], []⟩ 0 0) (fetchTwo [.byte 65 false, .byte 66 false]) = 1 ∧
      s.controller.finished = .ok true := by
  have hkey : (Transition.run step (init ⟨2, 1, [], [], [], []⟩ 0 0)
      (fetchTwo [.byte 65 false, .byte 66 false])).map
        (fun s => decide (s.pc = .done)) = some true := by decide +kernel
  obtain ⟨s, hrun, hval⟩ := Option.map_eq_some_iff.1 hkey
  have hone : reads (init ⟨2, 1, [], [], [], []⟩ 0 0)
      (fetchTwo [.byte 65 false, .byte 66 false]) = 1 := by decide +kernel
  have hrunning : s.Running := .of_pc (of_decide_eq_true hval) fun _ => Pc.noConfusion
  refine ⟨s, hrun, hone, (reads_bounded (by decide) hrun).2.2 (by decide) hrunning ?_⟩
  rw [hone]
  decide

end Download

end Cld
