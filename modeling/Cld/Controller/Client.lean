import Cld.Controller.Partition
import Cld.Framework.Transition

/-!
# Clients of the controller

The controller is correct only for a client that keeps to its protocol, as the download loop
does.  `Client` is any such client: a controller together with what the protocol refers to,
namely the range `next` has just answered and the offset of every worker.

* `next` may be called at any time.
* `add` may follow a `next` that has answered a non-empty range.  The worker is new, and its
  offset is the begin of that range.
* `afterRead` and `workerStopped` may be called for any worker, whose offset has not
  decreased.

A call that throws, or that is undefined, ends the run.  `step_cases` lists what an operation
does.  `Client.Linked` is the part of the invariant that needs nothing of the size, `Client.Inv`
adds the partition of the file, and `fragments_partition` is what it says of the fragments in
every reachable state.  That the download
loop is a client is `Download.exists_client_run`.
-/

namespace Cld

open Framework LengthController

structure Client where
  controller : LengthController
  /-- What `next` has just answered. -/
  granted : Option (ℤ × ℤ)
  /-- The offset of each worker, when the controller last asked for it. -/
  offset : WorkerPtr → ℤ

namespace Client

inductive Op
  | next
  | add (w : WorkerPtr) (node : NodePtr)
  | afterRead (w : WorkerPtr) (o : ℤ)
  | workerStopped (w : WorkerPtr) (o : ℤ)

/-- A client that has just constructed its controller. -/
def create (size min : ℤ) (node : NodePtr) : Client where
  controller := LengthController.create size min node
  granted := none
  offset := fun _ => 0

def step (s : Client) : Op → Option Client
  | .next =>
    match s.controller.next with
    | .error _ => none
    | .ok (range, c) => some { s with controller := c, granted := some range }
  | .add w node =>
    match s.granted with
    | none => none
    | some range =>
      if range.2 - range.1 ≠ 0 ∧ s.controller.nodeFinder.lookup w = none ∧
          node ∉ s.controller.addresses then
        match s.controller.add w node with
        | .error _ => none
        | .ok c => some ⟨c, none, Function.update s.offset w range.1⟩
      else none
  | .afterRead w o =>
    if s.offset w ≤ o then
      match s.controller.afterRead w o with
      | .error _ => none
      | .ok (_, c) => some ⟨c, none, Function.update s.offset w o⟩
    else none
  | .workerStopped w o =>
    if s.offset w ≤ o then
      match s.controller.workerStopped w o with
      | .error _ => none
      | .ok c => some ⟨c, none, Function.update s.offset w o⟩
    else none

/-- The bytes an operation strikes out: those of the worker's own fragment which are below its
offset. -/
def Op.struck (c : LengthController) : Op → Set ℤ
  | .next => ∅
  | .add _ _ => ∅
  | .afterRead w o => c.own w ∩ Set.Iio o
  | .workerStopped w o => c.own w ∩ Set.Iio o

variable {s s' : Client} {size o : ℤ} {w : WorkerPtr} {op : Op}

/-! ## What an operation does -/

inductive Stepped (s : Client) : Op → Client → Prop
  | next (n : Node) (hback : s.controller.back = some n) :
      Stepped s .next ⟨s.controller.sort, some (s.controller.rangeOf n.val), s.offset⟩
  | add (w : WorkerPtr) (node : NodePtr) (range : ℤ × ℤ) (c : LengthController)
      (hgranted : s.granted = some range) (hrange : range.2 - range.1 ≠ 0)
      (hw : s.controller.nodeFinder.lookup w = none) (hnode : node ∉ s.controller.addresses)
      (hadd : Added s.controller w node c) :
      Stepped s (.add w node) ⟨c, none, Function.update s.offset w range.1⟩
  /-- The controller makes progress with a worker it knows. -/
  | progress (op : Op) (w : WorkerPtr) (o : ℤ) (c : LengthController)
      (hop : op = .afterRead w o ∨ op = .workerStopped w o) (ho : s.offset w ≤ o)
      (hprog : Progress s.controller w o c) :
      Stepped s op ⟨c, none, Function.update s.offset w o⟩
  | unknown (w : WorkerPtr) (o : ℤ) (ho : s.offset w ≤ o)
      (hw : s.controller.nodeFinder.lookup w = none) :
      Stepped s (.workerStopped w o) ⟨s.controller, none, Function.update s.offset w o⟩

/-- **The inversion of `step`**, for a controller whose indexes agree. -/
lemma step_cases (hidx : s.controller.Indexed) (hstep : s.step op = some s') :
    Stepped s op s' := by
  cases op with
  | next =>
    cases hnext : s.controller.next with
    | error fault => simp [step, hnext] at hstep
    | ok answer =>
      obtain ⟨range, c⟩ := answer
      obtain ⟨n, hback, rfl, rfl⟩ := next_cases hnext
      simp only [step, hnext, Option.some.injEq] at hstep
      subst hstep
      exact .next n hback
  | add w node =>
    cases hgranted : s.granted with
    | none => simp [step, hgranted] at hstep
    | some range =>
      simp only [step, hgranted] at hstep
      split_ifs at hstep with hcond
      obtain ⟨hrange, hw, hnode⟩ := hcond
      cases hadd : s.controller.add w node with
      | error fault => simp [hadd] at hstep
      | ok c =>
        simp only [hadd, Option.some.injEq] at hstep
        subst hstep
        exact .add w node range c hgranted hrange hw hnode (add_cases hadd)
  | afterRead w o =>
    simp only [step] at hstep
    split_ifs at hstep with ho
    cases hw : s.controller.nodeFinder.lookup w with
    | none => simp [afterRead_unknown hw] at hstep
    | some p =>
      obtain ⟨f, b, c, -, -, hval, -, hprog, -⟩ := hidx.afterRead_cases hw o
      simp only [hval, Option.some.injEq] at hstep
      subst hstep
      exact .progress _ w o c (Or.inl rfl) ho hprog
  | workerStopped w o =>
    simp only [step] at hstep
    split_ifs at hstep with ho
    obtain ⟨c, hval, hrel⟩ := hidx.exists_released w o
    simp only [hval, Option.some.injEq] at hstep
    subst hstep
    cases hrel with
    | unknown hw hc =>
      subst hc
      exact .unknown w o ho hw
    | known p f hw hf hrep hprog hfinder => exact .progress _ w o c (Or.inr rfl) ho hprog

/-! ## What holds for every size -/

/-- The part of the invariant that does not depend on the size. -/
structure Linked (s : Client) : Prop where
  indexed : s.controller.Indexed
  /-- The range is that of the fragment which `add` will find. -/
  granted : ∀ range, s.granted = some range →
    ∃ n, s.controller.back = some n ∧ range = s.controller.rangeOf n.val
  tracks : s.controller.Tracks s.offset

lemma linked_create (size min : ℤ) (node : NodePtr) : (create size min node).Linked where
  indexed := indexed_create size min node
  granted range h := by cases h
  tracks n hn w hw := by
    obtain rfl := List.mem_singleton.1 hn
    cases hw

/-- A worker the controller does not know has no fragment. -/
lemma Linked.unknown (h : s.Linked) (hw : s.controller.nodeFinder.lookup w = none) (o : ℤ) :
    Linked ⟨s.controller, none, Function.update s.offset w o⟩ where
  indexed := h.indexed
  granted range hrange := by cases hrange
  tracks := h.tracks.congr fun n hn v hv => by
    have hvw : v ≠ w := fun heq => h.indexed.worker_ne hw hn (heq ▸ hv)
    exact Function.update_of_ne hvw o s.offset

lemma Linked.stepped (h : s.Linked) (hstepped : Stepped s op s') : s'.Linked := by
  cases hstepped with
  | next n hback =>
    refine ⟨h.indexed.sort, fun range hrange => ?_, h.tracks.perm s.controller.sort_perm⟩
    obtain rfl := Option.some.inj hrange
    exact ⟨n, by rw [back_sort, hback], rfl⟩
  | add w node range c hgranted hrange hw hnode hadd =>
    obtain ⟨n, hback, rfl⟩ := h.granted range hgranted
    exact ⟨h.indexed.added hadd hw hnode, by simp, h.tracks.added h.indexed hadd hback hw⟩
  | progress op w o c hop ho hprog =>
    exact ⟨h.indexed.progress hprog, by simp, h.tracks.progress h.indexed hprog⟩
  | unknown w o ho hw => exact h.unknown hw o

lemma Linked.step (h : s.Linked) (hstep : s.step op = some s') : s'.Linked :=
  h.stepped (step_cases h.indexed hstep)

lemma linked_run {min : ℤ} {node : NodePtr} {ops : List Op}
    (hrun : Transition.run Client.step (create size min node) ops = some s) : s.Linked :=
  Transition.run_invariant (fun _ _ _ hs hstep => Linked.step hs hstep)
    (linked_create size min node) hrun

/-- The fragment of a worker does not begin behind its offset. -/
lemma Linked.begin_le (h : s.Linked) (ho : s.offset w ≤ o) :
    ∀ n ∈ s.controller.lengthMonitor, n.val.worker = some w → n.val.begin ≤ o := by
  intro n hn hnw
  rw [h.tracks n hn w hnw]
  exact ho

/-- The operations leave `min` alone. -/
lemma Stepped.min_eq (h : Stepped s op s') : s'.controller.min = s.controller.min := by
  cases h with
  | next => rfl
  | add w node range c hgranted hrange hw hnode hadd => exact hadd.min_eq
  | progress op w o c hop ho hprog => exact hprog.min_eq
  | unknown => rfl

/-! ## The invariant -/

structure Inv (size : ℤ) (s : Client) : Prop where
  indexed : s.controller.Indexed
  partition : s.controller.Partition size
  min_nonneg : 0 ≤ s.controller.min
  /-- The range is that of the fragment which `add` will find. -/
  granted : ∀ range, s.granted = some range →
    ∃ n, s.controller.back = some n ∧ range = s.controller.rangeOf n.val
  tracks : s.controller.Tracks s.offset

lemma Inv.linked (h : s.Inv size) : s.Linked := ⟨h.indexed, h.granted, h.tracks⟩

lemma Linked.inv (h : s.Linked) (hpart : s.controller.Partition size)
    (hmin : 0 ≤ s.controller.min) : s.Inv size :=
  ⟨h.indexed, hpart, hmin, h.granted, h.tracks⟩

lemma inv_create {min : ℤ} (hsize : 1 ≤ size) (hmin : 0 ≤ min) (node : NodePtr) :
    (create size min node).Inv size :=
  (linked_create size min node).inv (partition_create hsize min node) hmin

/-- **One operation** keeps the invariant and strikes out what it should. -/
lemma Inv.step (h : s.Inv size) (hstep : s.step op = some s') :
    s'.Inv size ∧ s'.controller.union = s.controller.union \ op.struck s.controller := by
  have hstepped := step_cases h.indexed hstep
  have hlinked := h.linked.stepped hstepped
  have hmin : 0 ≤ s'.controller.min := by
    rw [hstepped.min_eq]
    exact h.min_nonneg
  cases hstepped with
  | next n hback =>
    refine ⟨hlinked.inv h.partition.sort hmin, ?_⟩
    rw [Op.struck, Set.sdiff_empty]
    exact union_perm s.controller.sort_perm
  | add w node range c hgranted hrange hw hnode hadd =>
    obtain ⟨n, hback, rfl⟩ := h.granted range hgranted
    refine ⟨hlinked.inv (h.partition.add_spec h.min_nonneg hadd hback hrange).1 hmin, ?_⟩
    rw [Op.struck, Set.sdiff_empty]
    exact h.partition.union_added h.min_nonneg hadd hback hrange
  | progress op w o c hop ho hprog =>
    have hbegin := h.linked.begin_le ho
    refine ⟨hlinked.inv (h.partition.progress_spec h.indexed hprog hbegin).1 hmin, ?_⟩
    have hstruck : op.struck s.controller = s.controller.own w ∩ Set.Iio o := by
      rcases hop with rfl | rfl <;> rfl
    rw [hstruck]
    exact h.partition.union_progress h.indexed hprog hbegin
  | unknown w o ho hw =>
    have hown : s.controller.own w = ∅ := by
      refine Set.eq_empty_iff_forall_notMem.2 fun k hk => ?_
      obtain ⟨n, hn, hnw, -⟩ := hk
      exact h.indexed.worker_ne hw hn hnw
    refine ⟨hlinked.inv h.partition hmin, ?_⟩
    rw [Op.struck, hown, Set.empty_inter, Set.sdiff_empty]

lemma Inv.run {ops : List Op} (h : s.Inv size)
    (hrun : Transition.run Client.step s ops = some s') : s'.Inv size :=
  Transition.run_invariant (fun _ _ _ hs hstep => (Inv.step hs hstep).1) h hrun

/-! ## What remains -/

lemma Inv.remain_nonneg (h : s.Inv size) : 0 ≤ s.controller.remain := by
  rw [h.partition.remain_eq]
  exact Int.natCast_nonneg _

lemma Inv.finite_union (h : s.Inv size) : s.controller.union.Finite :=
  (Set.finite_Ico 0 (size - 1)).subset h.partition.union_subset

lemma Inv.remain_le {op : Op} (h : s.Inv size) (hstep : s.step op = some s') :
    s'.controller.remain ≤ s.controller.remain := by
  obtain ⟨hinv, hunion⟩ := h.step hstep
  rw [hinv.partition.remain_eq, h.partition.remain_eq]
  have hsub : s'.controller.union ⊆ s.controller.union := by
    rw [hunion]
    exact Set.sdiff_subset
  exact Int.ofNat_le.2 (Set.ncard_le_ncard hsub h.finite_union)

lemma Inv.remain_antitone {ops : List Op} (h : s.Inv size)
    (hrun : Transition.run Client.step s ops = some s') :
    s'.controller.remain ≤ s.controller.remain := by
  have hpair := Transition.run_invariant
    (P := fun t : Client => t.Inv size ∧ t.controller.remain ≤ s.controller.remain)
    (fun t op t' ht hstep => ⟨(ht.1.step hstep).1, (ht.1.remain_le hstep).trans ht.2⟩)
    ⟨h, le_rfl⟩ hrun
  exact hpair.2

/-- **The fragments partition the outstanding work**, in every state a client can reach: they
are disjoint, lie in `[0, size - 1)`, and are not empty if they are being fetched.  Only
`afterRead` and `workerStopped` strike bytes out, those of the worker's own fragment below its
offset.  Hence `remain()` is the number of outstanding bytes, and never increases. -/
theorem fragments_partition {size min : ℤ} (hsize : 1 ≤ size) (hmin : 0 ≤ min) (node : NodePtr)
    {ops : List Op} {s : Client}
    (hrun : Transition.run step (create size min node) ops = some s) :
    (s.controller.lengthMonitor.Pairwise fun m n => Disjoint m.val.interval n.val.interval) ∧
    (∀ n ∈ s.controller.lengthMonitor,
      0 ≤ n.val.begin ∧ n.val.begin ≤ n.val.end_ ∧ n.val.end_ ≤ size - 1) ∧
    (∀ n ∈ s.controller.lengthMonitor, n.val.worker ≠ none → n.val.begin < n.val.end_) ∧
    (∀ op s', s.step op = some s' →
      s'.controller.union = s.controller.union \ op.struck s.controller) ∧
    s.controller.remain = (s.controller.union.ncard : ℤ) ∧ 0 ≤ s.controller.remain ∧
    (∀ ops' s', Transition.run step s ops' = some s' →
      s'.controller.remain ≤ s.controller.remain) := by
  have hinv : s.Inv size := (inv_create hsize hmin node).run hrun
  have hpart := hinv.partition
  refine ⟨hpart.pairwise, fun n hn => ?_, hpart.busy, fun op s' hstep => (hinv.step hstep).2,
    hpart.remain_eq, hinv.remain_nonneg, fun ops' s' hrun' => hinv.remain_antitone hrun'⟩
  obtain ⟨hbegin, hend⟩ := hpart.within n hn
  have hspan : n.val.span ∈ s.controller.spans := List.mem_map.2 ⟨n, hn, rfl⟩
  exact ⟨hbegin, hpart.packed.le _ hspan, hend⟩

/-- A file of ten bytes: a worker takes it all, a second one the upper part of what is left,
and reads past its end. -/
theorem fragments_partition_ten :
    ∃ s, Transition.run step (create 10 0 0)
        [.next, .add 1 1, .afterRead 1 4, .next, .add 2 1, .afterRead 2 11] = some s ∧
      s.controller.remain = 2 ∧ s.controller.remain = (s.controller.union.ncard : ℤ) := by
  refine ⟨_, rfl, by decide, ?_⟩
  have hrun : Transition.run step (create 10 0 0)
      [.next, .add 1 1, .afterRead 1 4, .next, .add 2 1, .afterRead 2 11] = some _ := rfl
  exact (fragments_partition (by decide) (by decide) 0 hrun).2.2.2.2.1

end Client

end Cld
