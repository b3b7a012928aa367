import Cld.Download.Workers
import Cld.Head.Entry

/-!
# Is the whole file written?

The loop is left when the controller has nothing outstanding.

* `Inv.struck`: what a step strikes out of the ledger has been written, by the worker that was
  charged with it.  Hence every byte the ledger ever held is written in the end
  (`Covered.complete`).
* The ledger never holds the last byte of the file.  It is written if a worker reads it in the
  same call of `process` in which it comes to the end of its fragment: `ReachesEnd` says that
  the bytes up to the last one are available by then.

`complete_iff` is the exact condition under which the whole file is there.
-/

namespace Cld.Download

open Framework LengthController

variable {cfg : Config} {s s' : Download} {label : Label} {labels : List Label} {node : NodePtr}
  {now : ℤ} {rest : List (WorkerPtr × EpollEvents)} {p : WorkerPtr} {w w₁ : Worker} {env : Env}
  {outcome : Outcome} {file : File} {i : ℕ} {workers : List (Option Held)}
  {c c' : LengthController} {size : ℤ}

/-! ## What is struck out is written -/

/-- Cleaning a slot strikes nothing out: the fragment of a stopped worker begins at its
offset. -/
lemma union_clean {slot : Option Held} (hcore : Core workers c) (hsync : Synced workers c)
    (hpart : c.Partition size) (hslot : workers[i]? = some slot)
    (hclean : Cleaned c slot c') : c'.union = c.union := by
  cases hclean with
  | empty hnone hc => rw [hc]
  | stopped h hsome hstate hrel =>
    rw [hsome] at hslot
    have hmem : some h ∈ workers := List.mem_of_getElem? hslot
    cases hrel with
    | unknown hw hc => rw [hc]
    | known q f hw hf hrep hprog hfinder =>
      have hbegin : ∀ n ∈ c.lengthMonitor, n.val.worker = some h.ptr →
          n.val.begin = h.obj.fileOffset := fun n hn hnw => hsync.begin_eq hcore hmem hn hnw
      rw [hpart.union_progress hcore.indexed hprog fun n hn hnw => (hbegin n hn hnw).le]
      have hempty : c.own h.ptr ∩ Set.Iio h.obj.fileOffset = ∅ := by
        refine Set.eq_empty_iff_forall_notMem.2 fun k hk => ?_
        obtain ⟨⟨n, hn, hnw, hk₁⟩, hk₂⟩ := hk
        have hle : n.val.begin ≤ k := hk₁.1
        have hlt : k < h.obj.fileOffset := hk₂
        rw [hbegin n hn hnw] at hle
        omega
      rw [hempty, Set.sdiff_empty]

/-- The assignment pass strikes nothing out. -/
lemma Inv.union_visit {slot : Option Held} {choice : SlotChoice} (h : s.Inv cfg)
    (hsize : 1 ≤ cfg.size) (hpc : s.pc = .slot i) (hslot : s.workers[i]? = some slot)
    (hvisited : Visited s i slot choice s') : s'.controller.union = s.controller.union := by
  have hsync := h.synced (.of_pc hpc nofun)
  have hunion : ∀ {c : LengthController}, Cleaned s.controller slot c →
      c.union = s.controller.union := fun hclean =>
    union_clean h.core hsync (h.partition hsize) hslot hclean
  cases hvisited with
  | kept h' hslot' hlive => rfl
  | stuck c hclean hnil => exact hunion hclean
  | idle c n hclean hback hrange => exact (union_perm c.sort_perm).trans (hunion hclean)
  | refused c n e hclean hback hrange => exact (union_perm c.sort_perm).trans (hunion hclean)
  | assigned c c' n stream hclean hback hrange hconnection hptr hnode hadd =>
    obtain ⟨-, -, hmin, hsized⟩ := h.clean hpc hslot hclean
    have hback' : c.sort.back = some n := by rw [back_sort, hback]
    have hpos : 0 ≤ c.sort.min := by
      rw [sort_min, hmin]
      decide
    have hadded := (hsized hsize).1.sort.union_added hpos hadd hback' hrange
    exact hadded.trans ((union_perm c.sort_perm).trans (hunion hclean))

/-- **What an event strikes out** lies behind the new offset of its worker. -/
lemma Handled.union (h : s.Inv cfg) (hsize : 1 ≤ cfg.size)
    (hbegin : ∀ n ∈ s.controller.lengthMonitor, n.val.worker = some p →
      n.val.begin ≤ w₁.fileOffset) (hwf : w₁.WF)
    (hhandled : Handled s rest p w env outcome w₁ file s') :
    s.controller.union ⊆
      s'.controller.union ∪ (s.controller.own p ∩ Set.Iio w₁.fileOffset) := by
  have hsame : s.controller.union ⊆
      s.controller.union ∪ (s.controller.own p ∩ Set.Iio w₁.fileOffset) := Set.subset_union_left
  have hprogress : ∀ {c : LengthController}, Progress s.controller p w₁.fileOffset c →
      s.controller.union ⊆ c.union ∪ (s.controller.own p ∩ Set.Iio w₁.fileOffset) := by
    intro c hprog
    rw [(h.partition hsize).union_progress h.core.indexed hprog hbegin, Set.sdiff_union_self]
    exact Set.subset_union_left
  have hreleased : ∀ {c : LengthController} {w₂ : Worker} {fault : Option Fault},
      w₁.forceStop env = (w₂, fault) → Released s.controller p w₂.fileOffset c →
      s.controller.union ⊆ c.union ∪ (s.controller.own p ∩ Set.Iio w₁.fileOffset) := by
    intro c w₂ fault hstop hrel
    obtain ⟨-, -, hoffset, -⟩ := Worker.forceStop_spec hwf hstop
    rw [hoffset] at hrel
    cases hrel with
    | unknown hw hc =>
      rw [hc]
      exact hsame
    | known q f hw hf hrep hprog hfinder => exact hprogress hprog
  cases hhandled with
  | unread n ho hstate => exact hsame
  | read n c ho hstate hprog hfinder => exact hprogress hprog
  | full n c w₂ fault ho hstate hprog hfinder hstop => exact hprogress hprog
  | caught e c w₂ ho hstate hstop hrel => exact hreleased hstop hrel
  | lost e c w₂ ho hstate hstop hrel => exact hreleased hstop hrel
  | torn e w₂ fault ho hstop => exact hsame

/-- The bytes of the fragment of a worker below its new offset have just been written. -/
lemma written_of_own (hcore : Core s.workers s.controller)
    (hsync : Synced s.workers s.controller) (hmem : some ⟨p, w⟩ ∈ s.workers)
    (hproc : Worker.Processed w s.file outcome w₁ file) :
    s.controller.own p ∩ Set.Iio w₁.fileOffset ⊆ {k | file k ≠ none} := by
  rintro k ⟨⟨n, hn, hw, hle, -⟩, hlt⟩
  obtain ⟨bs, hfile, hoffset⟩ := hproc.wrote
  have hbegin : n.val.begin = w.fileOffset := hsync.begin_eq hcore hmem hn hw
  have hlt' : k < w₁.fileOffset := hlt
  show file k ≠ none
  rw [hfile]
  apply File.write_ne_none
  omega

/-- **What a step strikes out is written.** -/
lemma Inv.struck (h : s.Inv cfg) (hsize : 1 ≤ cfg.size) (hstep : s.step label = some s') :
    s.controller.union ⊆ s'.controller.union ∪ {k | s'.file k ≠ none} := by
  cases step_cases hstep with
  | passed i choice hpc hslot => exact Set.subset_union_left
  | visited i slot choice s' hpc hslot hvisit =>
    rw [h.union_visit hsize hpc hslot (visit_cases h.core.indexed hvisit)]
    exact Set.subset_union_left
  | waited events hpc hreportable => exact Set.subset_union_left
  | handled p event rest env s' hpc hhandle =>
    obtain ⟨w, outcome, w₁, file, -, hmem, hwf, hstream, hprocess, hhandled⟩ :=
      h.exists_handled hpc hhandle
    have hsync := h.synced (.of_pc hpc nofun)
    have hproc := Worker.process_spec hwf hstream hprocess
    have hbegin : ∀ n ∈ s.controller.lengthMonitor, n.val.worker = some p →
        n.val.begin ≤ w₁.fileOffset := by
      intro n hn hw
      rw [hsync.begin_eq h.core hmem hn hw]
      exact hproc.fileOffset_le
    rw [hhandled.file_eq]
    refine (Handled.union h hsize hbegin hproc.wf hhandled).trans ?_
    exact Set.union_subset_union_right _ (written_of_own h.core hsync hmem hproc)
  | ticked now hpc =>
    obtain ⟨time, lastTime, pc, htick, -⟩ := s.tick_cases now
    rw [htick]
    exact Set.subset_union_left

/-- What is written once stays written. -/
lemma Inv.written_mono (h : s.Inv cfg) (hstep : s.step label = some s') :
    {k | s.file k ≠ none} ⊆ {k | s'.file k ≠ none} := by
  intro k hk
  cases h.changed hstep with
  | round hfile hpc hworkers =>
    show s'.file k ≠ none
    rw [hfile]
    exact hk
  | event p event rest env w outcome w₁ hpc hlabel hfind hmem hwf hstream hprocess hhandled =>
    obtain ⟨bs, hfile, -⟩ := (Worker.process_spec hwf hstream hprocess).wrote
    show s'.file k ≠ none
    rw [hfile]
    exact File.write_ne_none_of_ne_none s.file _ bs hk

/-! ## Everything but the last byte -/

/-- A worker that receives a body has not met the end of its stream. -/
def OpenBody (w : Worker) : Prop :=
  w.state = .receivingBody → ∃ buffer, w.buffer = some buffer ∧ buffer.kind.Open

/-- The invariant of coverage. -/
structure Covered (cfg : Config) (s : Download) : Prop where
  inv : s.Inv cfg
  covers : s.controller.ledger.Covers (Set.Ico 0 (cfg.size - 1)) {k | s.file k ≠ none}
  done : s.pc = .done → s.controller.lengthMonitor = []
  openBody : ∀ h, some h ∈ s.workers → OpenBody h.obj

lemma union_create (size min : ℤ) (node : NodePtr) :
    (create size min node).union = Set.Ico 0 (size - 1) := by
  ext k
  constructor
  · rintro ⟨n, hn, hk⟩
    obtain rfl := List.mem_singleton.1 hn
    exact hk
  · intro hk
    exact ⟨_, List.mem_singleton_self _, hk⟩

lemma covered_init (cfg : Config) (node : NodePtr) (now : ℤ) :
    Covered cfg (init cfg node now) where
  inv := inv_init cfg node now
  covers := by
    intro k hk
    left
    show k ∈ (create cfg.size (128 * 1024) node).ledger.outstanding
    rw [outstanding_ledger, union_create]
    exact hk
  done hpc := by cases hpc
  openBody h hh := nomatch List.eq_of_mem_replicate hh

/-- **One step keeps the coverage.** -/
lemma Covered.covers_step (h : Covered cfg s) (hstep : s.step label = some s') :
    s'.controller.ledger.Covers (Set.Ico 0 (cfg.size - 1)) {k | s'.file k ≠ none} := by
  by_cases hsize : 1 ≤ cfg.size
  · refine h.covers.mono (h.inv.written_mono hstep) ?_
    rw [outstanding_ledger, outstanding_ledger]
    exact h.inv.struck hsize hstep
  · intro k hk
    have hk' : 0 ≤ k ∧ k < cfg.size - 1 := hk
    omega

/-- The loop is left by an empty controller only. -/
lemma Inv.done_step (h : s.Inv cfg) (hstep : s.step label = some s') (hdone : s'.pc = .done) :
    s'.controller.lengthMonitor = [] := by
  cases step_cases hstep with
  | passed i choice hpc hslot => cases hdone
  | visited i slot choice s' hpc hslot hvisit =>
    cases visit_cases h.core.indexed hvisit with
    | _ => cases hdone
  | waited events hpc hreportable => cases hdone
  | handled p event rest env s' hpc hhandle =>
    obtain ⟨w, c, pc, file, rfl, -, hpc'⟩ := h.handle_shape hpc hhandle
    have hdone' : pc = .done := hdone
    rcases hpc' with rfl | ⟨fault, rfl⟩ <;> cases hdone'
  | ticked now hpc =>
    obtain ⟨time, lastTime, pc, htick, hfin⟩ := s.tick_cases now
    rw [htick] at hdone ⊢
    have hdone' : pc = .done := hdone
    rcases hfin with ⟨fault, -, rfl⟩ | ⟨htrue, -⟩ | ⟨-, rfl | rfl⟩
    · cases hdone'
    · unfold finished at htrue
      split at htrue
      · next hempty => exact List.isEmpty_iff.1 hempty
      · cases htrue
    · cases hdone'
    · cases hdone'

/-- **The call keeps an open body open.** -/
lemma openBody_process {w w₁ : Worker} {event : EpollEvents} {file file' : File} {n : ℕ}
    (hwf : w.WF) (hstream : w.stream ≠ none)
    (hprocess : w.process file event env = (.returned n, w₁, file')) (hopen : OpenBody w) :
    OpenBody w₁ := by
  intro hbody₁
  obtain ⟨stream, hsome⟩ := Option.ne_none_iff_exists'.1 hstream
  by_cases hstate : w.state = .receivingBody
  · obtain ⟨buffer, hbuffer, hkind⟩ := hopen hstate
    rcases Worker.process_of_receivingBody hstate hsome hbuffer hprocess with
      ⟨-, -, rfl, -⟩ | ⟨-, s, exit, hloop, -, -, hexit⟩
    · exact ⟨buffer, hbuffer, hkind⟩
    · rcases hexit with ⟨-, hstop⟩ | ⟨-, -, hbuffer', -, hpass⟩
      · exact absurd (hbody₁.symm.trans hstop) (by decide)
      · have hstill := Worker.bodyLoop_open (w.bodyState stream buffer file) env.fileWrites hkind
          (S := kBufferSize)
        rw [hloop] at hstill
        exact ⟨s.buffer, hbuffer', hstill (hpass n rfl)⟩
  · by_cases hlive : w.state = .stopped
    · have hstop := (Worker.process_spec hwf hstream hprocess).stopped hlive
      exact absurd (hbody₁.symm.trans hstop) (by decide)
    · rcases Worker.process_awaits ⟨hlive, hstate, stream, hsome, rfl⟩ hprocess with
        hstop | hawaits | hentered
      · exact absurd (hbody₁.symm.trans hstop) (by decide)
      · exact absurd hbody₁ hawaits.head
      · obtain ⟨_, _, _, buffer, _, -, -, hcreate, hbuffer, -⟩ := hentered.response
        exact ⟨buffer, hbuffer, open_of_create hcreate⟩

lemma Covered.step (h : Covered cfg s) (hstep : s.step label = some s') : Covered cfg s' where
  inv := h.inv.step hstep
  covers := h.covers_step hstep
  done := h.inv.done_step hstep
  openBody := h.inv.forall_workers hstep (fun _ _ _ hbody => nomatch hbody)
    (fun w hstop hbody => absurd (hstop.symm.trans hbody) (by decide))
    (fun _ _ _ _ _ _ _ _ _ _ _ hwf hstream hprocess hopen =>
      openBody_process hwf hstream hprocess hopen) h.openBody

/-- **Every byte but the last is written** when the loop is left. -/
lemma Covered.complete (h : Covered cfg s) (hdone : s.pc = .done) {k : ℤ} (hk : 0 ≤ k)
    (hlt : k < cfg.size - 1) : s.file k ≠ none := by
  refine h.covers.complete ?_ ⟨hk, hlt⟩
  rw [outstanding_ledger]
  refine Set.eq_empty_iff_forall_notMem.2 fun j hj => ?_
  obtain ⟨n, hn, -⟩ := hj
  rw [h.done hdone] at hn
  exact List.not_mem_nil hn

/-! ## The last byte -/

/-- The step handles an event for a worker that receives its body, and the rest of the file, up
to its last byte, is available to the worker. -/
def ReachesEnd (size : ℤ) (s : Download) (label : Label) : Prop :=
  ∃ p event rest env w stream buffer, s.pc = .dispatch ((p, event) :: rest) ∧
    label = .process env ∧ s.find p = some w ∧ w.state = .receivingBody ∧
    event.epollin = true ∧ w.stream = some stream ∧ w.buffer = some buffer ∧
    w.fileOffset < size ∧
    size ≤ w.fileOffset + (received buffer.kind (available stream.inbound)).length

/-- In this step every write to the file is complete. -/
def WritesAll (label : Label) : Prop := ∀ env, label = .process env → Complete env.fileWrites

/-- Seen from the event that is handled. -/
lemma reachesEnd_iff {event : EpollEvents} (hpc : s.pc = .dispatch ((p, event) :: rest))
    (hlabel : label = .process env) (hfind : s.find p = some w) :
    ReachesEnd size s label ↔ w.state = .receivingBody ∧ event.epollin = true ∧
      ∃ stream buffer, w.stream = some stream ∧ w.buffer = some buffer ∧ w.fileOffset < size ∧
        size ≤ w.fileOffset + (received buffer.kind (available stream.inbound)).length := by
  constructor
  · rintro ⟨p', event', rest', env', w', stream, buffer, hpc', -, hfind', hstate, hevent, hrest⟩
    obtain ⟨⟨rfl, rfl⟩, rfl⟩ : (p = p' ∧ event = event') ∧ rest = rest' := by
      simpa using hpc.symm.trans hpc'
    obtain rfl : w = w' := Option.some.inj (hfind.symm.trans hfind')
    exact ⟨hstate, hevent, stream, buffer, hrest⟩
  · rintro ⟨hstate, hevent, stream, buffer, hrest⟩
    exact ⟨p, event, rest, env, w, stream, buffer, hpc, hlabel, hfind, hstate, hevent, hrest⟩

/-- A byte is written by a write that reaches it. -/
lemma write_ne_none_iff (file : File) (o k : ℤ) (bs : Bytes) :
    file.write o bs k ≠ none ↔ file k ≠ none ∨ (o ≤ k ∧ k < o + bs.length) := by
  by_cases hk : o ≤ k ∧ k < o + bs.length
  · exact ⟨fun _ => Or.inr hk, fun _ => File.write_ne_none file o hk⟩
  · rw [File.write_of_notMem file o hk]
    exact ⟨Or.inl, fun h => h.resolve_right hk⟩

/-- **The last byte is written in this step** exactly if it is reached. -/
lemma Covered.lastByte_iff (h : Covered cfg s) (hwrites : WritesAll label)
    (hstep : s.step label = some s') :
    s'.file (cfg.size - 1) ≠ none ↔
      s.file (cfg.size - 1) ≠ none ∨ ReachesEnd cfg.size s label := by
  cases h.inv.changed hstep with
  | round hfile hpc hworkers =>
    have hnot : ¬ ReachesEnd cfg.size s label := by
      rintro ⟨p, event, rest, -, -, -, -, hpc', -⟩
      exact hpc _ _ hpc'
    rw [hfile]
    exact ⟨Or.inl, fun h' => h'.resolve_right hnot⟩
  | event p event rest env w outcome w₁ hpc hlabel hfind hmem hwf hstream hprocess hhandled =>
    rw [reachesEnd_iff hpc hlabel hfind]
    by_cases hstate : w.state = .receivingBody
    · obtain ⟨stream, hsome⟩ := Option.ne_none_iff_exists'.1 hstream
      obtain ⟨buffer, hbuffer, hopen⟩ := h.openBody _ hmem hstate
      rcases Worker.process_of_receivingBody hstate hsome hbuffer hprocess with
        ⟨hevent, -, -, hfile⟩ | ⟨hevent, t, exit, hloop, hfile, -⟩
      · rw [hfile, hevent]
        exact ⟨Or.inl, fun h' => h'.resolve_right fun hreach => absurd hreach.2.1 (by decide)⟩
      · obtain ⟨hwrote, -⟩ := Worker.bodyLoop_available (by decide : kBufferSize ≠ 0)
          (w.bodyState stream buffer s.file) env.fileWrites (hwrites env hlabel) hopen
        rw [hloop] at hwrote
        have hfile' : s'.file = s.file.write w.fileOffset
            (received buffer.kind (available stream.inbound)) := hfile.trans hwrote
        rw [hfile', write_ne_none_iff]
        refine or_congr_right ⟨fun hk => ⟨hstate, hevent, stream, buffer, hsome, hbuffer, ?_, ?_⟩,
          fun hreach => ?_⟩
        · omega
        · omega
        · obtain ⟨-, -, stream', buffer', hsome', hbuffer', hlt, hle⟩ := hreach
          obtain rfl : stream = stream' := Option.some.inj (hsome.symm.trans hsome')
          obtain rfl : buffer = buffer' := Option.some.inj (hbuffer.symm.trans hbuffer')
          omega
    · rw [((Worker.process_spec hwf hstream hprocess).idle hstate).2]
      exact ⟨Or.inl, fun h' => h'.resolve_right fun hreach => hstate hreach.1⟩

/-- **The whole file is written exactly if** it is empty or some call of `process` has found the
rest of it, up to the last byte. -/
theorem complete_iff (hwrites : ∀ label ∈ labels, WritesAll label)
    (hrun : Transition.run step (init cfg node now) labels = some s) (hdone : s.pc = .done) :
    (∀ k, 0 ≤ k → k < cfg.size → s.file k ≠ none) ↔
      cfg.size ≤ 0 ∨
        Transition.Sometime step (ReachesEnd cfg.size) (init cfg node now) labels := by
  have hcovered : Covered cfg s :=
    Transition.run_invariant (fun _ _ _ h hstep => Covered.step h hstep)
      (covered_init cfg node now) hrun
  have hlast : s.file (cfg.size - 1) ≠ none ↔
      Transition.Sometime step (ReachesEnd cfg.size) (init cfg node now) labels := by
    have hkeep : ∀ t l t', Covered cfg t → step t l = some t' → Covered cfg t' :=
      fun _ _ _ h hstep => h.step hstep
    have hbyte : ∀ t l t', Covered cfg t → WritesAll l → step t l = some t' →
        (t'.file (cfg.size - 1) ≠ none ↔
          t.file (cfg.size - 1) ≠ none ∨ ReachesEnd cfg.size t l) :=
      fun _ _ _ h hok hstep => h.lastByte_iff hok hstep
    have hratchet := Transition.run_ratchet (Q := fun t => t.file (cfg.size - 1) ≠ none) hkeep
      hbyte (covered_init cfg node now) hwrites hrun
    rw [hratchet]
    exact ⟨fun h => h.resolve_left fun hne => hne rfl, Or.inr⟩
  rw [← hlast]
  constructor
  · intro hall
    by_cases hsize : cfg.size ≤ 0
    · exact Or.inl hsize
    · exact Or.inr (hall _ (by omega) (by omega))
  · rintro (hsize | hend) k hk hlt
    · omega
    · by_cases hkl : k = cfg.size - 1
      · rw [hkl]
        exact hend
      · exact hcovered.complete hdone hk (by omega)

/-- One worker fetches a file of two bytes, with the body as given. -/
def fetchTwo (body : Inbound) : List Label :=
  singleFetch ⟨(bytes "HTTP/1.1 206 Partial Content\r\n\r\n").map (.byte · false) ++ body, []⟩

lemma writesAll_fetchTwo (body : Inbound) : ∀ label ∈ fetchTwo body, WritesAll label := by
  intro label hlabel env henv
  rw [henv] at hlabel
  simp only [fetchTwo, singleFetch, List.mem_cons, reduceCtorEq, false_or, Label.process.injEq,
    List.not_mem_nil, or_false] at hlabel
  rcases hlabel with rfl | rfl | rfl <;> exact nofun

/-- Both bytes arrive together. -/
theorem complete_in_one_read : ∃ s,
    Transition.run step (init ⟨2, 1, [], [], [], []⟩ 0 0)
      (fetchTwo [.byte 65 false, .byte 66 false]) = some s ∧ s.pc = .done ∧
      Transition.Sometime step (ReachesEnd 2) (init ⟨2, 1, [], [], [], []⟩ 0 0)
        (fetchTwo [.byte 65 false, .byte 66 false]) := by
  have hkey : (Transition.run step (init ⟨2, 1, [], [], [], []⟩ 0 0)
      (fetchTwo [.byte 65 false, .byte 66 false])).map
        (fun s => (decide (s.pc = .done), s.file 0, s.file 1)) =
      some (true, some 65, some 66) := by decide +kernel
  obtain ⟨s, hrun, hval⟩ := Option.map_eq_some_iff.1 hkey
  simp only [Prod.mk.injEq, decide_eq_true_eq] at hval
  obtain ⟨hdone, hzero, hone⟩ := hval
  have hiff := complete_iff (writesAll_fetchTwo _) hrun hdone
  refine ⟨s, hrun, hdone, (hiff.1 fun k hk hlt => ?_).resolve_left (by decide)⟩
  have hcases : k = 0 ∨ k = 1 := by
    have hlt' : k < 2 := hlt
    omega
  rcases hcases with rfl | rfl
  · rw [hzero]
    exact Option.some_ne_none _
  · rw [hone]
    exact Option.some_ne_none _

/-- **The last byte is lost** if it is late: the worker has read one byte when the stream is
suspended, its fragment is complete, and the loop is left with the second byte unread. -/
theorem incomplete_with_late_byte : ∃ s,
    (∀ label ∈ fetchTwo [.byte 65 false, .again, .byte 66 false], WritesAll label) ∧
      Transition.run step (init ⟨2, 1, [], [], [], []⟩ 0 0)
        (fetchTwo [.byte 65 false, .again, .byte 66 false]) = some s ∧ s.pc = .done ∧
      ¬ ∀ k, 0 ≤ k → k < 2 → s.file k ≠ none := by
  have hkey : (Transition.run step (init ⟨2, 1, [], [], [], []⟩ 0 0)
      (fetchTwo [.byte 65 false, .again, .byte 66 false])).map
        (fun s => (decide (s.pc = .done), s.file 1)) = some (true, none) := by decide +kernel
  obtain ⟨s, hrun, hval⟩ := Option.map_eq_some_iff.1 hkey
  simp only [Prod.mk.injEq, decide_eq_true_eq] at hval
  obtain ⟨hdone, hone⟩ := hval
  exact ⟨s, writesAll_fetchTwo _, hrun, hdone, fun hall =>
    hall 1 (by decide) (by decide) hone⟩

end Cld.Download
