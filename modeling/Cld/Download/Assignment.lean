import Cld.Controller.Choice
import Cld.Download.Requests

/-!
# The range of a new worker

The assignment pass asks `next` for a range, writes it into the `Range` header, gives its begin
to the worker as the file offset, and only then calls `add`, which chooses the fragment again.
`range_requested_is_recorded` is that the two choices agree: for any client of the controller,
and for the workers of a download in particular.
-/

namespace Cld

open Framework LengthController

namespace Download

variable {cfg : Config} {s s' : Download} {i : ℕ} {slot : Option Held} {choice : SlotChoice}

/-- The worker asks for the range, writes it where it belongs, and is charged with it. -/
structure Charged (cfg : Config) (c : LengthController) (h : Held) (b e : ℤ) : Prop where
  request : h.obj.requestData = (cfg.request.set "Range" (rangeValue b e)).request
  fileOffset : h.obj.fileOffset = b
  fragment : ∃ p, c.nodeFinder.lookup h.ptr = some p ∧ c.deref p = some ⟨b, e, some h.ptr⟩

/-- **A round of the pass** charges the worker it creates with the range it asks for. -/
lemma Inv.charged_of_visited (hinv : s.Inv cfg) (hasks : s.Asks cfg) (hpc : s.pc = .slot i)
    (hslot : s.workers[i]? = some slot) (hvisited : Visited s i slot choice s') {h : Held}
    (hh : some h ∈ s'.workers) (hnew : some h ∉ s.workers) :
    ∃ b e, Charged cfg s'.controller h b e := by
  cases hvisited with
  | kept => exact absurd hh hnew
  | stuck => exact absurd (mem_set_none hh) hnew
  | idle => exact absurd (mem_set_none hh) hnew
  | refused => exact absurd (mem_set_none hh) hnew
  | assigned c c' n stream hclean hback hrange hconnection hptr hnode hadd =>
    obtain ⟨hcore, -⟩ := hinv.clean hpc hslot hclean
    have hlookup : c.nodeFinder.lookup choice.ptr = none := by
      by_contra hknown
      exact hptr (hcore.held choice.ptr hknown)
    have hrec := records_of_added hcore.indexed.sort hadd hlookup hnode
      ((back_sort c).trans hback)
    rcases mem_set_some hh with rfl | hold
    · refine ⟨(c.rangeOf n.val).1, (c.rangeOf n.val).2, ?_, rfl, hrec.charged⟩
      show (s.rangeRequest (c.rangeOf n.val)).request = _
      rw [hasks.rangeRequest_eq]
    · exact absurd (mem_set_none hold) hnew

/-- **The range requested is the range recorded.**  In every reachable state of the controller,
a range that `next` answers, if it is not empty, is what an `add` right after it records for a
new worker; at most one other fragment changes, and ends where the range begins.  Hence a worker
that a download creates asks for the bytes, and writes from the offset, that the controller
charges to it. -/
theorem range_requested_is_recorded :
    (∀ (size min : ℤ) (node : NodePtr) (ops : List Client.Op) (t : Client),
      Transition.run Client.step (Client.create size min node) ops = some t →
      ∀ b e c, t.controller.next = .ok ((b, e), c) → e - b ≠ 0 →
      ∀ w, t.controller.nodeFinder.lookup w = none →
      ∀ p, p ∉ t.controller.addresses →
        ∃ c', c.add w p = .ok c' ∧ Records t.controller c' w b e) ∧
    ∀ (cfg : Config) (node : NodePtr) (now : ℤ) (labels : List Label) (s : Download),
      Transition.run Download.step (init cfg node now) labels = some s →
      ∀ choice s', s.step (.slot choice) = some s' →
      ∀ h, some h ∈ s'.workers → some h ∉ s.workers →
        ∃ b e, Charged cfg s'.controller h b e := by
  constructor
  · intro size min node ops t hrun b e c hnext hne w hw p hp
    exact records_of_next (Client.linked_run hrun).indexed hnext hne hw hp
  · intro cfg node now labels s hrun choice s' hstep h hh hnew
    have hinv : s.Inv cfg := Inv.run hrun
    cases step_cases hstep with
    | passed => exact absurd hh hnew
    | visited i slot choice s' hpc hslot hvisit =>
      exact hinv.charged_of_visited (asks_run hrun) hpc hslot
        (visit_cases hinv.core.indexed hvisit) hh hnew

/-- A busy fragment of a hundred bytes is split for a second worker. -/
theorem range_recorded_in_split : ∃ c',
    (∃ c, (create 101 10 0).add 1 1 = .ok c ∧ ∃ c'', c.next = .ok ((50, 100), c'') ∧
      c''.add 2 1 = .ok c') ∧ c'.deref 1 = some ⟨50, 100, some 2⟩ := by
  have hrun : Transition.run Client.step (Client.create 101 10 0) [.next, .add 1 1] = some _ := rfl
  obtain ⟨c', hadd, -⟩ := range_requested_is_recorded.1 101 10 0 _ _ hrun 50 100 _ rfl
    (by decide) 2 (by decide) 1 (by decide)
  refine ⟨c', ⟨_, rfl, _, rfl, hadd⟩, ?_⟩
  obtain rfl := Except.ok.inj hadd
  rfl

end Download

end Cld
