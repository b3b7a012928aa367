import Cld.Download.Complete
import Cld.Download.Refinement
import Cld.Model.Printing

/-!
# Is the progress that is printed real?

The speed of a progress line is computed from `last_remain - remain`, which is cast to an unsigned
type, and divided by the time between two readings of the clock.

* `Printing.erase`: the record does not change the loop.
* `Told` is the invariant of the record: what remains never grows from line to line, what the
  lines report adds up to what no longer remains, and their times to the time of the last line.
* `fetched_le_written` connects this to the file: a byte that no longer remains has been written.
  `progress_truthful` is the result.

The first line reports one byte too much: `last_remain` starts as the size of the file, while the
controller starts with one byte less (`LengthController.create`).
-/

namespace Cld

open Framework LengthController

namespace Download

variable {cfg : Config} {s : Download}

/-- The bytes of the resource that have been written. -/
def written (size : ℤ) (file : File) : Set ℤ := {k | 0 ≤ k ∧ k < size ∧ file k ≠ none}

lemma written_finite (size : ℤ) (file : File) : (written size file).Finite :=
  (Set.finite_Ico 0 size).subset fun _ hk => ⟨hk.1, hk.2.1⟩

/-- The controller knows at most one worker for each slot. -/
lemma Inv.workerNumber_le (h : s.Inv cfg) : s.controller.workerNumber ≤ cfg.connectionNumber := by
  have hkeys : (s.controller.nodeFinder.entries.map Sigma.fst).Nodup :=
    s.controller.nodeFinder.nodupKeys
  have hheld : s.controller.nodeFinder.entries.map Sigma.fst ⊆ pointers s.workers := by
    intro p hp
    obtain ⟨e, he, rfl⟩ := List.mem_map.1 hp
    refine h.core.held e.1 ?_
    rw [AList.mem_lookup_iff.2 he]
    exact Option.some_ne_none _
  calc s.controller.workerNumber
      = (s.controller.nodeFinder.entries.map Sigma.fst).length := (List.length_map _).symm
    _ ≤ (pointers s.workers).length := (hkeys.subperm hheld).length_le
    _ ≤ s.workers.length := List.length_filterMap_le _ _
    _ = cfg.connectionNumber := h.length

/-- **What no longer remains has been written.** -/
lemma fetched_le_written (h : Covered cfg s) (hsize : 1 ≤ cfg.size) :
    cfg.size - 1 - s.controller.remain ≤ (written cfg.size s.file).ncard := by
  have hpart := h.inv.partition hsize
  have hfinite : s.controller.union.Finite := (Set.finite_Ico 0 _).subset hpart.union_subset
  have hcover : Set.Ico 0 (cfg.size - 1) ⊆ s.controller.union ∪ written cfg.size s.file := by
    intro k hk
    have hk' : 0 ≤ k ∧ k < cfg.size - 1 := hk
    rcases h.covers hk with hout | hwritten
    · rw [outstanding_ledger] at hout
      exact Or.inl hout
    · exact Or.inr ⟨hk'.1, by omega, hwritten⟩
  have hcard : (Set.Ico 0 (cfg.size - 1)).ncard ≤
      s.controller.union.ncard + (written cfg.size s.file).ncard :=
    (Set.ncard_le_ncard hcover (hfinite.union (written_finite _ _))).trans
      (Set.ncard_union_le _ _)
  have hall : ((Set.Ico 0 (cfg.size - 1)).ncard : ℤ) = cfg.size - 1 := by
    rw [Set.ncard_eq_toFinset_card', Set.toFinset_Ico, Int.card_Ico]
    omega
  rw [hpart.remain_eq]
  omega

lemma Inv.remain_nonneg (h : s.Inv cfg) (hsize : 1 ≤ cfg.size) : 0 ≤ s.controller.remain := by
  rw [(h.partition hsize).remain_eq]
  exact Int.natCast_nonneg _

/-- `last_time` is set where the clock is read, and nowhere else. -/
lemma Inv.lastTime_eq {s' : Download} {label : Label} (h : s.Inv cfg)
    (hstep : s.step label = some s') : s'.lastTime = s.lastTime ∨
      ∃ time, label = .clock time ∧ s.pc = .dispatch [] ∧ s' = s.tick time := by
  cases step_cases hstep with
  | passed i choice hpc hslot => exact Or.inl rfl
  | visited i slot choice s' hpc hslot hvisit =>
    left
    cases visit_cases h.core.indexed hvisit with
    | kept h' hslot' hlive => rfl
    | stuck c hclean hnil => rfl
    | idle c n hclean hback hrange => rfl
    | refused c n e hclean hback hrange => rfl
    | assigned c c' n stream hclean hback hrange hconnection hptr hnode hadd => rfl
  | waited events hpc hreportable => exact Or.inl rfl
  | handled p event rest env s' hpc hhandle =>
    obtain ⟨w, c, pc, file, rfl, -, -⟩ := h.handle_shape hpc hhandle
    exact Or.inl rfl
  | ticked time hpc => exact Or.inr ⟨time, rfl, hpc, rfl⟩

/-- What remains when the clock is read is left alone, and `last_time` is the reading if a line is
due. -/
lemma tick_printed (s : Download) (time : ℤ) : (s.tick time).controller = s.controller ∧
    (s.tick time).file = s.file ∧
    (s.tick time).lastTime = if time - s.lastTime ≥ 250 then time else s.lastTime := by
  unfold tick
  by_cases hdue : time - s.lastTime ≥ 250
  · simp only [hdue, if_true]
    split <;> exact ⟨rfl, rfl, rfl⟩
  · simp only [hdue, if_false]
    split <;> exact ⟨rfl, rfl, rfl⟩

end Download

namespace Printing

variable {cfg : Config} {t t' : Printing} {label : Label} {labels : List Label} {node : NodePtr}
  {now : ℤ}

/-! ## The record and the loop -/

/-- The record does not change the loop. -/
lemma erase (t : Printing) (labels : List Label) :
    (Transition.run step t labels).map Printing.loop =
      Transition.run Download.step t.loop labels := by
  refine Transition.run_map (fun t label _ => ?_) t
  unfold step
  cases t.loop.step label with
  | none => rfl
  | some loop =>
    simp only
    split <;> rfl

/-- What a step does to the record. -/
inductive Stepped (t : Printing) : Label → Printing → Prop
  | silent (label : Label) (loop : Download) (hstep : t.loop.step label = some loop)
      (hlast : loop.lastTime = t.loop.lastTime) : Stepped t label { t with loop := loop }
  | read (time : ℤ) (hpc : t.loop.pc = .dispatch []) :
      Stepped t (.clock time) { t.print time with loop := t.loop.tick time }

lemma step_cases (hinv : t.loop.Inv cfg) (hstep : t.step label = some t') :
    Stepped t label t' := by
  unfold step at hstep
  cases hloop : t.loop.step label with
  | none =>
    rw [hloop] at hstep
    cases hstep
  | some loop =>
    rw [hloop] at hstep
    simp only at hstep
    split at hstep
    · next time hpc =>
      obtain rfl := Option.some.inj hstep
      have htick : t.loop.step (.clock time) = some (t.loop.tick time) := by
        simp only [Download.step, hpc]
      obtain rfl := Option.some.inj (htick.symm.trans hloop)
      exact .read time hpc
    · next hother =>
      obtain rfl := Option.some.inj hstep
      rcases hinv.lastTime_eq hloop with hlast | ⟨time, rfl, hpc, -⟩
      · exact .silent _ loop hloop hlast
      · exact absurd rfl (hother time hpc)

/-! ## The invariant of the record -/

/-- A line that may be printed about the download of `cfg`. -/
structure Sane (cfg : Config) (line : ProgressLine) : Prop where
  connections : line.connections ≤ cfg.connectionNumber
  remain_nonneg : 0 ≤ line.remain
  remain_lt : line.remain < cfg.size
  fetched_nonneg : 0 ≤ line.fetched
  fetched_le : line.fetched ≤ cfg.size
  elapsed : 250 ≤ line.elapsed

/-- The record of a loop that has started at the time `now`. -/
structure Told (cfg : Config) (node : NodePtr) (now : ℤ) (t : Printing) : Prop where
  reached : ∃ labels,
    Transition.run Download.step (Download.init cfg node now) labels = some t.loop
  remain_le : t.loop.controller.remain ≤ t.lastRemain
  last_le : t.lastRemain ≤ cfg.size
  sane : ∀ line ∈ t.lines, Sane cfg line
  last_eq : ∀ line ∈ t.lines, t.lastRemain ≤ line.remain
  sorted : t.lines.Pairwise fun later earlier => later.remain ≤ earlier.remain
  fetched : (t.lines.map ProgressLine.fetched).sum = cfg.size - t.lastRemain
  elapsed : (t.lines.map ProgressLine.elapsed).sum = t.loop.lastTime - now

lemma told_init (cfg : Config) (node : NodePtr) (now : ℤ) :
    Told cfg node now (init cfg node now) where
  reached := ⟨[], rfl⟩
  remain_le := by
    show (create cfg.size (128 * 1024) node).remain ≤ cfg.size
    simp only [remain, create, List.map_cons, List.map_nil, List.sum_cons, List.sum_nil]
    omega
  last_le := le_rfl
  sane _ hline := absurd hline List.not_mem_nil
  last_eq _ hline := absurd hline List.not_mem_nil
  sorted := List.Pairwise.nil
  fetched := (sub_self cfg.size).symm
  elapsed := (sub_self now).symm

lemma Told.inv (h : Told cfg node now t) : t.loop.Inv cfg := by
  obtain ⟨labels, hrun⟩ := h.reached
  exact Download.Inv.run hrun

/-- What remains has only become less. -/
lemma Told.advance {loop : Download} (h : Told cfg node now t) (hsize : 1 ≤ cfg.size)
    (hstep : t.loop.step label = some loop) :
    (∃ labels, Transition.run Download.step (Download.init cfg node now) labels = some loop) ∧
      loop.controller.remain ≤ t.loop.controller.remain := by
  obtain ⟨labels, hrun⟩ := h.reached
  have hone := Transition.run_single hstep
  exact ⟨⟨labels ++ [label], Transition.run_concat hrun hstep⟩,
    Download.remain_le hsize hrun hone⟩

/-- **Printing a line**, with the loop as it is when the clock is read. -/
lemma Told.print (h : Told cfg node now t) (hsize : 1 ≤ cfg.size) {time : ℤ} {loop : Download}
    (hreached : ∃ labels,
      Transition.run Download.step (Download.init cfg node now) labels = some loop)
    (hcontroller : loop.controller = t.loop.controller)
    (hlast : loop.lastTime = if time - t.loop.lastTime ≥ 250 then time else t.loop.lastTime) :
    Told cfg node now { t.print time with loop := loop } := by
  have hremain := h.remain_le
  by_cases hdue : time - t.loop.lastTime ≥ 250
  · rw [if_pos hdue] at hlast
    unfold Printing.print
    rw [if_pos hdue]
    have hnonneg := h.inv.remain_nonneg hsize
    have hlt : t.loop.controller.remain < cfg.size := by
      obtain ⟨labels, hrun⟩ := h.reached
      have hfirst := Download.remain_le hsize (Transition.run_nil _ _) hrun
      have hcreate : (Download.init cfg node now).controller.remain = cfg.size - 1 := by
        simp [Download.init, remain, create]
      omega
    have hle := h.last_le
    have hfetched := h.fetched
    have helapsed := h.elapsed
    refine ⟨hreached, hcontroller ▸ le_refl _, hremain.trans hle, fun line hline => ?_,
      fun line hline => ?_, List.pairwise_cons.2 ⟨fun line hline => ?_, h.sorted⟩, ?_, ?_⟩
    · rcases List.mem_cons.1 hline with rfl | hold
      · exact ⟨h.inv.workerNumber_le, hnonneg, hlt, by simpa using hremain,
          by show t.lastRemain - t.loop.controller.remain ≤ cfg.size; omega, hdue⟩
      · exact h.sane line hold
    · rcases List.mem_cons.1 hline with rfl | hold
      · exact le_refl _
      · exact hremain.trans (h.last_eq line hold)
    · exact hremain.trans (h.last_eq line hline)
    · simp only [List.map_cons, List.sum_cons]
      omega
    · simp only [List.map_cons, List.sum_cons]
      omega
  · rw [if_neg hdue] at hlast
    unfold Printing.print
    rw [if_neg hdue]
    exact ⟨hreached, hcontroller ▸ hremain, h.last_le, h.sane, h.last_eq, h.sorted, h.fetched,
      hlast ▸ h.elapsed⟩

lemma Told.step (hsize : 1 ≤ cfg.size) (h : Told cfg node now t) (hstep : t.step label = some t') :
    Told cfg node now t' := by
  cases step_cases h.inv hstep with
  | silent label loop hloop hlast =>
    obtain ⟨hreached, hless⟩ := h.advance hsize hloop
    exact ⟨hreached, hless.trans h.remain_le, h.last_le, h.sane, h.last_eq, h.sorted, h.fetched,
      hlast ▸ h.elapsed⟩
  | read time hpc =>
    have htick : t.loop.step (.clock time) = some (t.loop.tick time) := by
      simp only [Download.step, hpc]
    obtain ⟨hcontroller, -, hlast⟩ := t.loop.tick_printed time
    exact h.print hsize (h.advance hsize htick).1 hcontroller hlast

/-! ## The result -/

/-- The quotient that is printed, if it can be computed. -/
lemma Sane.speed {line : ProgressLine} (h : Sane cfg line) (hfits : 1000 * cfg.size < 2 ^ 63) :
    line.speed * line.elapsed ≤ 1000 * line.fetched ∧
      1000 * line.fetched < (line.speed + 1) * line.elapsed := by
  have hpos : 0 < line.elapsed := lt_of_lt_of_le (by decide) h.elapsed
  have hnonneg : 0 ≤ 1000 * line.fetched := mul_nonneg (by decide) h.fetched_nonneg
  have hquotient : (1000 * line.fetched).tdiv line.elapsed = 1000 * line.fetched / line.elapsed :=
    Int.tdiv_eq_ediv_of_nonneg hnonneg
  have hle : 1000 * line.fetched / line.elapsed ≤ 1000 * line.fetched :=
    Int.ediv_le_self _ hnonneg
  have hfetched := h.fetched_le
  have hspeed : line.speed = 1000 * line.fetched / line.elapsed := by
    rw [ProgressLine.speed, hquotient,
      Int.emod_eq_of_lt (Int.ediv_nonneg hnonneg hpos.le) (by omega)]
  rw [hspeed]
  exact ⟨Int.ediv_mul_le _ hpos.ne', Int.lt_ediv_add_one_mul_self _ hpos⟩

/-- **The progress that is printed is real.**  In every run about a file of a byte or more, whatever
the peers, the system and the clock do: each line has sensible numbers, and shows their quotient
rounded down if it can be computed; what remains never grows from line to line; the lines add up to
what no longer remained at the last one and to the time of that; and no more bytes are reported than
have been written, but for the one that the first line has too many. -/
theorem progress_truthful (hsize : 1 ≤ cfg.size)
    (hrun : Transition.run step (init cfg node now) labels = some t) :
    (∀ line ∈ t.lines, Sane cfg line ∧ (1000 * cfg.size < 2 ^ 63 →
        line.speed * line.elapsed ≤ 1000 * line.fetched ∧
          1000 * line.fetched < (line.speed + 1) * line.elapsed)) ∧
      (t.lines.Pairwise fun later earlier => later.remain ≤ earlier.remain) ∧
      (t.lines.map ProgressLine.fetched).sum = cfg.size - t.lastRemain ∧
      (t.lines.map ProgressLine.elapsed).sum = t.loop.lastTime - now ∧
      (t.lines.map ProgressLine.fetched).sum ≤
        (Download.written cfg.size t.loop.file).ncard + 1 := by
  have htold : Told cfg node now t :=
    Transition.run_invariant (fun _ _ _ h hstep => Told.step hsize h hstep)
      (told_init cfg node now) hrun
  refine ⟨fun line hline => ⟨htold.sane line hline, (htold.sane line hline).speed⟩, htold.sorted,
    htold.fetched, htold.elapsed, ?_⟩
  have hcovered : Download.Covered cfg t.loop := by
    obtain ⟨labels, hreached⟩ := htold.reached
    exact Transition.run_invariant (fun _ _ _ h hstep => Download.Covered.step h hstep)
      (Download.covered_init cfg node now) hreached
  have hwritten := Download.fetched_le_written hcovered hsize
  have hremain := htold.remain_le
  rw [htold.fetched]
  omega

/-- The first line about a download that has fetched nothing yet. -/
theorem progress_truthful_first : ∃ t,
    Transition.run step (init ⟨100, 1, [], [], [], []⟩ 0 0)
      [.slot ⟨1, 1, .ok ⟨[], []⟩⟩, .slot ⟨2, 2, .ok ⟨[], []⟩⟩, .wait [], .clock 250] = some t ∧
      t.lines.map (fun line => (line.connections, line.remain, line.fetched, line.speed)) =
        [(1, 99, 1, 4)] ∧
      (t.lines.map ProgressLine.fetched).sum ≤ (Download.written 100 t.loop.file).ncard + 1 := by
  have hrun : Transition.run step (init ⟨100, 1, [], [], [], []⟩ 0 0)
      [.slot ⟨1, 1, .ok ⟨[], []⟩⟩, .slot ⟨2, 2, .ok ⟨[], []⟩⟩, .wait [], .clock 250] =
      some _ := rfl
  obtain ⟨-, -, -, -, hreal⟩ := progress_truthful (by decide) hrun
  exact ⟨_, hrun, rfl, hreal⟩

end Printing

end Cld
