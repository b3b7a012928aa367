import Cld.Controller.Client
import Cld.Download.Invariant

/-!
# The loop is a client of the controller

`Client` says how the controller may be used.  This is how the loop uses it: every run of the
loop is, for the controller, the run of a client.

* `Follows` relates the loop to the client: they have the same controller, and no worker that
  is held is behind the offset the client remembers of it.
* `exists_clean`, `exists_visited` and `exists_handled` find the operations that the client
  performs in a step of the loop, which may be none.

`exists_client_run` is the refinement.  What `Client.fragments_partition` says of a client
therefore holds of the controller of the loop: `remain_le` is an instance.
-/

namespace Cld.Download

open Framework LengthController

/-- The client `t` follows the workers and the controller of the loop. -/
structure Follows (workers : List (Option Held)) (c : LengthController) (t : Client) : Prop where
  controller : t.controller = c
  offset_le : ∀ h, some h ∈ workers → t.offset h.ptr ≤ h.obj.fileOffset

variable {cfg : Config} {node : NodePtr} {now : ℤ} {labels : List Label} {s s' : Download}
  {workers : List (Option Held)} {c c' : LengthController} {t : Client} {p : WorkerPtr}
  {w v : Worker} {i : ℕ}

lemma follows_init (cfg : Config) (node : NodePtr) (now : ℤ) :
    Follows (init cfg node now).workers (init cfg node now).controller
      (Client.create cfg.size (128 * 1024) node) where
  controller := rfl
  offset_le h hh := by
    have hnone : some h = none := List.eq_of_mem_replicate hh
    cases hnone

/-! ## Operations on one worker -/

/-- The client has asked for the offset of the worker at `p`, which is now `v`. -/
lemma Follows.put (h : Follows workers c t) (o : ℤ) (hv : o = v.fileOffset) :
    Follows (putWorker workers p v) c' ⟨c', none, Function.update t.offset p o⟩ where
  controller := rfl
  offset_le h' hh' := by
    show Function.update t.offset p o h'.ptr ≤ h'.obj.fileOffset
    rcases mem_putWorker hh' with ⟨hp, hobj⟩ | ⟨hp, hold⟩
    · rw [hp, hobj, Function.update_self, hv]
    · rw [Function.update_of_ne hp]
      exact h.offset_le h' hold

/-- The worker at `p` has moved on, and the client has not been told. -/
lemma Follows.put_same (h : Follows workers c t) (hmem : some ⟨p, w⟩ ∈ workers)
    (hle : w.fileOffset ≤ v.fileOffset) : Follows (putWorker workers p v) c t where
  controller := h.controller
  offset_le h' hh' := by
    rcases mem_putWorker hh' with ⟨hp, hobj⟩ | ⟨-, hold⟩
    · rw [hp, hobj]
      exact (h.offset_le _ hmem).trans hle
    · exact h.offset_le h' hold

/-- Cleaning a slot is a call of `workerStopped`, or none. -/
lemma Follows.exists_clean {slot : Option Held} (h : Follows workers c t)
    (hcore : Core workers c) (hslot : workers[i]? = some slot) (hclean : Cleaned c slot c') :
    ∃ ops t', Transition.run Client.step t ops = some t' ∧
      Follows (workers.set i none) c' t' := by
  cases hclean with
  | empty hnone hc =>
    refine ⟨[], t, rfl, h.controller.trans hc.symm, fun h' hh' => ?_⟩
    exact h.offset_le h' (mem_set_none hh')
  | stopped h₀ hsome hstate hrel hval =>
    rw [hsome] at hslot
    have hmem : some h₀ ∈ workers := List.mem_of_getElem? hslot
    have hstep : t.step (.workerStopped h₀.ptr h₀.obj.fileOffset) =
        some ⟨c', none, Function.update t.offset h₀.ptr h₀.obj.fileOffset⟩ := by
      simp only [Client.step, h.controller, hval, if_pos (h.offset_le h₀ hmem)]
    refine ⟨_, _, Transition.run_single hstep, rfl, fun h' hh' => ?_⟩
    -- the worker is gone
    have hne : h'.ptr ≠ h₀.ptr := fun heq => by
      have hgone := notMem_pointers_set_none hcore.distinct hslot
      exact hgone (heq ▸ mem_pointers.2 ⟨h'.obj, hh'⟩)
    show Function.update t.offset h₀.ptr h₀.obj.fileOffset h'.ptr ≤ h'.obj.fileOffset
    rw [Function.update_of_ne hne]
    exact h.offset_le h' (mem_set_none hh')

/-! ## Steps of the loop -/

/-- The client asks `next`. -/
lemma Follows.next {n : Node} (h : Follows workers c t) (hback : c.back = some n) :
    t.step .next = some { t with controller := c.sort, granted := some (c.rangeOf n.val) } := by
  simp only [Client.step, h.controller, next_eq_of_back hback]

/-- **The assignment pass** calls `workerStopped`, `next` and `add`. -/
lemma Follows.exists_visited {slot : Option Held} {choice : SlotChoice}
    (h : Follows s.workers s.controller t) (hcore : Core s.workers s.controller)
    (hslot : s.workers[i]? = some slot) (hvisited : Visited s i slot choice s') :
    ∃ ops t', Transition.run Client.step t ops = some t' ∧
      Follows s'.workers s'.controller t' := by
  -- the two calls of a slot for which there is nothing to do
  have hasked : ∀ {c : LengthController} {n : Node}, Cleaned s.controller slot c →
      c.back = some n → ∃ ops t', Transition.run Client.step t ops = some t' ∧
        Follows (s.workers.set i none) c.sort t' ∧ t'.granted = some (c.rangeOf n.val) := by
    intro c n hclean hback
    obtain ⟨ops, t₁, hrun, h₁⟩ := h.exists_clean hcore hslot hclean
    have hrun' := (Transition.run_append_iff Client.step).2
      ⟨t₁, hrun, Transition.run_single (h₁.next hback)⟩
    exact ⟨_, _, hrun', ⟨rfl, h₁.offset_le⟩, rfl⟩
  cases hvisited with
  | kept h' hslot' hlive => exact ⟨[], t, rfl, h⟩
  | stuck c hclean hnil => exact h.exists_clean hcore hslot hclean
  | idle c n hclean hback hrange =>
    obtain ⟨ops, t', hrun, hfollows, -⟩ := hasked hclean hback
    exact ⟨ops, t', hrun, hfollows⟩
  | refused c n e hclean hback hrange =>
    obtain ⟨ops, t', hrun, hfollows, -⟩ := hasked hclean hback
    exact ⟨ops, t', hrun, hfollows⟩
  | assigned c c' n stream hclean hback hrange hconnection hptr hnode hadd hval =>
    obtain ⟨ops, t₁, hrun, h₁, hgranted⟩ := hasked hclean hback
    have hnew : c.sort.nodeFinder.lookup choice.ptr = none := by
      by_contra hne
      exact hptr ((hcore.clean hslot hclean).held choice.ptr hne)
    have hstep : t₁.step (.add choice.ptr choice.node) =
        some ⟨c', none, Function.update t₁.offset choice.ptr (c.rangeOf n.val).1⟩ := by
      simp only [Client.step, hgranted, h₁.controller, hval, ne_eq, hrange, not_false_eq_true,
        hnew, hnode, and_self, if_true]
    refine ⟨_, _, (Transition.run_append_iff Client.step).2 ⟨t₁, hrun, Transition.run_single hstep⟩,
      rfl, fun h' hh' => ?_⟩
    rcases mem_set_some hh' with rfl | hh'
    · exact (Function.update_self _ _ _).le
    · have hne : h'.ptr ≠ choice.ptr := fun heq =>
        hptr (heq ▸ mem_pointers.2 ⟨h'.obj, hh'⟩)
      show Function.update t₁.offset choice.ptr (c.rangeOf n.val).1 h'.ptr ≤ h'.obj.fileOffset
      rw [Function.update_of_ne hne]
      exact h₁.offset_le h' hh'

/-- **An event** calls `afterRead` or `workerStopped`, or neither. -/
lemma Follows.exists_handled {rest : List (WorkerPtr × EpollEvents)} {env : Env}
    {outcome : Outcome} {w₁ : Worker} {file : File} (h : Follows s.workers s.controller t)
    (hmem : some ⟨p, w⟩ ∈ s.workers) (hproc : Worker.Processed w s.file outcome w₁ file)
    (hhandled : Handled s rest p w env outcome w₁ file s') :
    ∃ ops t', Transition.run Client.step t ops = some t' ∧
      Follows s'.workers s'.controller t' := by
  have hle : t.offset p ≤ w₁.fileOffset := (h.offset_le _ hmem).trans hproc.fileOffset_le
  have hread : ∀ {b : Bool} {c : LengthController},
      s.controller.afterRead p w₁.fileOffset = .ok (b, c) →
      t.step (.afterRead p w₁.fileOffset) =
        some ⟨c, none, Function.update t.offset p w₁.fileOffset⟩ := by
    intro b c hval
    simp only [Client.step, h.controller, hval, if_pos hle]
  have hstopped : ∀ {c : LengthController} {w₂ : Worker},
      w₁.forceStop env = (w₂, none) → s.controller.workerStopped p w₂.fileOffset = .ok c →
      t.step (.workerStopped p w₂.fileOffset) =
        some ⟨c, none, Function.update t.offset p w₂.fileOffset⟩ := by
    intro c w₂ hstop hval
    obtain ⟨-, -, hoffset, -⟩ := Worker.forceStop_spec hproc.wf hstop
    rw [← hoffset] at hle
    simp only [Client.step, h.controller, hval, if_pos hle]
  cases hhandled with
  | unread n ho hstate => exact ⟨[], t, rfl, h.put_same hmem hproc.fileOffset_le⟩
  | read n c ho hstate hprog hfinder hval =>
    exact ⟨_, _, Transition.run_single (hread hval), h.put _ rfl⟩
  | full n c w₂ fault ho hstate hprog hfinder hstop hval =>
    obtain ⟨-, -, hoffset, -⟩ := Worker.forceStop_spec hproc.wf hstop
    exact ⟨_, _, Transition.run_single (hread hval), h.put _ hoffset.symm⟩
  | caught e c w₂ ho hstate hstop hrel hval =>
    exact ⟨_, _, Transition.run_single (hstopped hstop hval), h.put _ rfl⟩
  | lost e c w₂ ho hstate hstop hrel hval =>
    exact ⟨_, _, Transition.run_single (hstopped hstop hval), h.put _ rfl⟩
  | torn e w₂ fault ho hstop =>
    obtain ⟨-, -, hoffset, -⟩ := Worker.forceStop_spec hproc.wf hstop
    exact ⟨[], t, rfl, h.put_same hmem (hoffset ▸ hproc.fileOffset_le)⟩

/-- **One step of the loop** is a sequence of operations of the client. -/
lemma Follows.exists_step {label : Label} (hinv : s.Inv cfg)
    (h : Follows s.workers s.controller t) (hstep : s.step label = some s') :
    ∃ ops t', Transition.run Client.step t ops = some t' ∧
      Follows s'.workers s'.controller t' := by
  cases step_cases hstep with
  | passed i choice hpc hslot => exact ⟨[], t, rfl, h⟩
  | visited i slot choice s' hpc hslot hvisit =>
    exact h.exists_visited hinv.core hslot (visit_cases hinv.core.indexed hvisit)
  | waited events hpc hreportable => exact ⟨[], t, rfl, h⟩
  | handled p event rest env s' hpc hhandle =>
    obtain ⟨w, outcome, w₁, file, -, hmem, hwf, hstream, hprocess, hhandled⟩ :=
      hinv.exists_handled hpc hhandle
    exact h.exists_handled hmem (Worker.process_spec hwf hstream hprocess) hhandled
  | ticked now hpc =>
    obtain ⟨time, lastTime, pc, htick, -⟩ := s.tick_cases now
    rw [htick]
    exact ⟨[], t, rfl, h⟩

/-! ## Runs of the loop -/

/-- Every run from a state that a client follows is a run of the client. -/
lemma Follows.exists_run (hinv : s.Inv cfg) (h : Follows s.workers s.controller t)
    (hrun : Transition.run step s labels = some s') :
    ∃ ops t', Transition.run Client.step t ops = some t' ∧
      Follows s'.workers s'.controller t' := by
  obtain ⟨ops, t', hops, -, hfollows⟩ := Transition.run_simulation
    (R := fun (s : Download) t => Inv cfg s ∧ Follows s.workers s.controller t)
    (fun s t label s' hR hstep => by
      obtain ⟨ops, t', hops, hfollows⟩ := hR.2.exists_step hR.1 hstep
      exact ⟨ops, t', hops, hR.1.step hstep, hfollows⟩)
    ⟨hinv, h⟩ hrun
  exact ⟨ops, t', hops, hfollows⟩

/-- **The loop uses the controller as a client does.** -/
lemma exists_client_run (hrun : Transition.run step (init cfg node now) labels = some s) :
    ∃ ops t, Transition.run Client.step (Client.create cfg.size (128 * 1024) node) ops = some t ∧
      t.controller = s.controller := by
  obtain ⟨ops, t, hops, hfollows⟩ :=
    (follows_init cfg node now).exists_run (inv_init cfg node now) hrun
  exact ⟨ops, t, hops, hfollows.controller⟩

/-- Hence what remains of a file never grows while the loop runs. -/
lemma remain_le {labels' : List Label} (hsize : 1 ≤ cfg.size)
    (hrun : Transition.run step (init cfg node now) labels = some s)
    (hrun' : Transition.run step s labels' = some s') :
    s'.controller.remain ≤ s.controller.remain := by
  obtain ⟨ops, t, hops, hfollows⟩ :=
    (follows_init cfg node now).exists_run (inv_init cfg node now) hrun
  obtain ⟨ops', t', hops', hfollows'⟩ := hfollows.exists_run (Inv.run hrun) hrun'
  have hclient : t.Inv cfg.size := (Client.inv_create hsize (by decide) node).run hops
  rw [← hfollows.controller, ← hfollows'.controller]
  exact hclient.remain_antitone hops'

end Cld.Download
