import Cld.Model.LengthController

/-!
# The two indexes of the controller

`lengthMonitor` and `nodeFinder` describe the same fact twice: which worker is charged with
which fragment.  `Indexed` says that they agree, that list nodes have distinct addresses, and
hence that a worker is charged with one fragment at most.

Sorting reorders the list at every call, so nothing here depends on the order.  An operation
is described by what it replaces: `Replaces c c' old new` says that `c'` has the nodes `new`
where `c` has the nodes `old`, up to reordering.  On top of it

* `Added` lists what `add` does: it takes the free fragment at the back, or splits the one
  that is being fetched there.
* `Progress` lists what `afterRead` and `workerStopped` do to the fragment of a worker: move
  its begin (`advance`), delete it (`drop`), or move its begin and free it (`free`).

`add_cases`, `Indexed.afterRead_cases` and `Indexed.exists_released` are the specifications
every other module goes through; `Indexed.added` and `Indexed.progress` show that the operations
keep the indexes consistent, `Tracks.added` and `Tracks.progress` that fragments keep beginning
at the offsets of their workers.  In particular `remove`, which deletes by value, deletes exactly
one node, because the value contains the worker.
-/

namespace Cld

/-! ## Agreement of a node list with a finder -/

/-- The finder stores exactly the workers of the nodes, each with the address of its node. -/
structure Indexes (finder : AList fun _ : WorkerPtr => NodePtr) (nodes : List Node) : Prop where
  /-- Nodes have distinct addresses. -/
  nodup : (nodes.map Node.addr).Nodup
  lookup_iff : ∀ w p, finder.lookup w = some p ↔
    ∃ n ∈ nodes, n.addr = p ∧ n.val.worker = some w

namespace Indexes

variable {finder : AList fun _ : WorkerPtr => NodePtr} {nodes nodes' rest : List Node}
  {w : WorkerPtr} {p : NodePtr} {f g : Fragment}

lemma perm (h : Indexes finder nodes) (hperm : nodes.Perm nodes') : Indexes finder nodes' where
  nodup := (hperm.map Node.addr).nodup_iff.1 h.nodup
  lookup_iff w p := by
    rw [h.lookup_iff w p]
    exact ⟨fun ⟨n, hn, hp⟩ => ⟨n, hperm.mem_iff.1 hn, hp⟩,
      fun ⟨n, hn, hp⟩ => ⟨n, hperm.mem_iff.2 hn, hp⟩⟩

/-- Two nodes at one address are the same node. -/
lemma eq_of_addr (h : Indexes finder nodes) {m n : Node} (hm : m ∈ nodes) (hn : n ∈ nodes)
    (haddr : m.addr = n.addr) : m = n :=
  List.inj_on_of_nodup_map h.nodup hm hn haddr

/-- Two nodes of one worker are the same node. -/
lemma eq_of_worker (h : Indexes finder nodes) {m n : Node} (hm : m ∈ nodes) (hn : n ∈ nodes)
    (hmw : m.val.worker = some w) (hnw : n.val.worker = some w) : m = n := by
  have hm' : finder.lookup w = some m.addr := (h.lookup_iff w m.addr).2 ⟨m, hm, rfl, hmw⟩
  have hn' : finder.lookup w = some n.addr := (h.lookup_iff w n.addr).2 ⟨n, hn, rfl, hnw⟩
  rw [hm'] at hn'
  exact h.eq_of_addr hm hn (Option.some.inj hn')

lemma addr_ne_of_mem (h : Indexes finder (⟨p, f⟩ :: rest)) {n : Node} (hn : n ∈ rest) :
    n.addr ≠ p := by
  have hnodup := h.nodup
  rw [List.map_cons, List.nodup_cons] at hnodup
  intro haddr
  exact hnodup.1 (List.mem_map.2 ⟨n, hn, haddr⟩)

lemma worker_ne_of_mem (h : Indexes finder (⟨p, f⟩ :: rest)) (hf : f.worker = some w)
    {n : Node} (hn : n ∈ rest) : n.val.worker ≠ some w := by
  intro hnw
  have heq : n = ⟨p, f⟩ :=
    h.eq_of_worker (List.mem_cons_of_mem _ hn) List.mem_cons_self hnw hf
  exact h.addr_ne_of_mem hn (congrArg Node.addr heq)

/-- Changing the bounds of a fragment does not concern the finder. -/
lemma replace (h : Indexes finder (⟨p, f⟩ :: rest)) (hw : g.worker = f.worker) :
    Indexes finder (⟨p, g⟩ :: rest) where
  nodup := h.nodup
  lookup_iff w q := by
    rw [h.lookup_iff w q]
    simp [hw]

/-- A free node does not concern the finder. -/
lemma tail (h : Indexes finder (⟨p, f⟩ :: rest)) (hf : f.worker = none) : Indexes finder rest where
  nodup := by
    have hnodup := h.nodup
    rw [List.map_cons, List.nodup_cons] at hnodup
    exact hnodup.2
  lookup_iff w q := by
    rw [h.lookup_iff w q]
    simp [hf]

/-- A new node for a worker that has none. -/
lemma cons (h : Indexes finder nodes) (hw : finder.lookup w = none)
    (hp : p ∉ nodes.map Node.addr) (hg : g.worker = some w) :
    Indexes (finder.insert w p) (⟨p, g⟩ :: nodes) where
  nodup := by
    rw [List.map_cons, List.nodup_cons]
    exact ⟨hp, h.nodup⟩
  lookup_iff v q := by
    by_cases hv : v = w
    · subst hv
      rw [AList.lookup_insert]
      constructor
      · intro hq
        exact ⟨⟨p, g⟩, List.mem_cons_self, Option.some.inj hq, hg⟩
      · rintro ⟨n, hn, rfl, hnw⟩
        rcases List.mem_cons.1 hn with rfl | hn
        · rfl
        · have hlookup : finder.lookup v = some n.addr :=
            (h.lookup_iff v n.addr).2 ⟨n, hn, rfl, hnw⟩
          rw [hw] at hlookup
          cases hlookup
    · rw [AList.lookup_insert_ne hv, h.lookup_iff v q]
      have hvw : (some w : Option WorkerPtr) ≠ some v := fun h => hv (Option.some.inj h).symm
      simp [hg, hvw]

/-- A worker takes a free fragment. -/
lemma take (h : Indexes finder (⟨p, f⟩ :: rest)) (hf : f.worker = none)
    (hw : finder.lookup w = none) (hg : g.worker = some w) :
    Indexes (finder.insert w p) (⟨p, g⟩ :: rest) := by
  have hp : p ∉ rest.map Node.addr := fun hmem => by
    obtain ⟨n, hn, haddr⟩ := List.mem_map.1 hmem
    exact h.addr_ne_of_mem hn haddr
  exact (h.tail hf).cons hw hp hg

/-- The node of a worker is deleted. -/
lemma drop (h : Indexes finder (⟨p, f⟩ :: rest)) (hf : f.worker = some w) :
    Indexes (finder.erase w) rest where
  nodup := by
    have hnodup := h.nodup
    rw [List.map_cons, List.nodup_cons] at hnodup
    exact hnodup.2
  lookup_iff v q := by
    by_cases hv : v = w
    · subst hv
      rw [AList.lookup_erase]
      constructor
      · intro hq
        cases hq
      · rintro ⟨n, hn, -, hnw⟩
        exact absurd hnw (h.worker_ne_of_mem hf hn)
    · rw [AList.lookup_erase_ne hv, h.lookup_iff v q]
      have hvw : (some w : Option WorkerPtr) ≠ some v := fun h => hv (Option.some.inj h).symm
      simp [hf, hvw]

/-- The node of a worker becomes free. -/
lemma free (h : Indexes finder (⟨p, f⟩ :: rest)) (hf : f.worker = some w)
    (hg : g.worker = none) : Indexes (finder.erase w) (⟨p, g⟩ :: rest) where
  nodup := h.nodup
  lookup_iff v q := by
    rw [(h.drop hf).lookup_iff v q]
    simp [hg]

end Indexes

namespace LengthController

/-- The list and the map of the controller agree. -/
def Indexed (c : LengthController) : Prop := Indexes c.nodeFinder c.lengthMonitor

lemma indexed_create (size min : ℤ) (node : NodePtr) : (create size min node).Indexed where
  nodup := List.nodup_singleton node
  lookup_iff w p := by simp [create]

/-- `c'` has the nodes `new` where `c` has the nodes `old`. -/
def Replaces (c c' : LengthController) (old new : List Node) : Prop :=
  ∃ rest, c.lengthMonitor.Perm (old ++ rest) ∧ c'.lengthMonitor.Perm (new ++ rest)

/-! ## Pointers -/

lemma exists_perm_cons {l : List Node} {n : Node} (hn : n ∈ l) : ∃ rest, l.Perm (n :: rest) :=
  ⟨l.erase n, List.perm_cons_erase hn⟩

/-- Following a pointer to a node of the list. -/
lemma Indexed.deref_eq {c : LengthController} (h : c.Indexed) {p : NodePtr} {f : Fragment}
    (hmem : ⟨p, f⟩ ∈ c.lengthMonitor) : c.deref p = some f := by
  unfold deref
  cases hfind : c.lengthMonitor.find? fun n => n.addr = p with
  | none =>
    have hne := List.find?_eq_none.1 hfind ⟨p, f⟩ hmem
    simp at hne
  | some n =>
    have hn : n ∈ c.lengthMonitor := List.mem_of_find?_eq_some hfind
    have haddr : n.addr = p := by simpa using List.find?_some hfind
    have heq : n = ⟨p, f⟩ := h.eq_of_addr hn hmem haddr
    rw [heq]
    rfl

/-- Storing through a pointer replaces one node. -/
lemma assign_perm {c : LengthController} {p : NodePtr} {f g : Fragment} {rest : List Node}
    (hperm : c.lengthMonitor.Perm (⟨p, f⟩ :: rest)) (hrest : ∀ n ∈ rest, n.addr ≠ p) :
    (c.assign p g).lengthMonitor.Perm (⟨p, g⟩ :: rest) := by
  have hmap : rest.map (fun n => if n.addr = p then { n with val := g } else n) = rest := by
    conv_rhs => rw [← List.map_id rest]
    refine List.map_congr_left fun n hn => ?_
    rw [if_neg (hrest n hn), id]
  have h := hperm.map fun n => if n.addr = p then { n with val := g } else n
  rw [List.map_cons, hmap, if_pos rfl] at h
  exact h

/-- **Removal by value deletes one node**, since no other node has its worker. -/
lemma remove_perm {c : LengthController} {p : NodePtr} {f : Fragment} {rest : List Node}
    {w : WorkerPtr} (hperm : c.lengthMonitor.Perm (⟨p, f⟩ :: rest)) (hf : f.worker = some w)
    (hrest : ∀ n ∈ rest, n.val.worker ≠ some w) : (c.remove f).lengthMonitor.Perm rest := by
  have h := hperm.filter fun n => decide (n.val ≠ f)
  have hkeep : rest.filter (fun n => decide (n.val ≠ f)) = rest := by
    refine List.filter_eq_self.2 fun n hn => ?_
    have hne : n.val ≠ f := fun heq => hrest n hn (heq ▸ hf)
    simp [hne]
  have hdrop : ¬ decide ((⟨p, f⟩ : Node).val ≠ f) = true := by simp
  rw [List.filter_cons, hkeep, if_neg hdrop] at h
  exact h

/-! ## `sort` and `next` -/

lemma sort_perm (c : LengthController) : c.sort.lengthMonitor.Perm c.lengthMonitor :=
  List.perm_insertionSort _ _

@[simp] lemma sort_min (c : LengthController) : c.sort.min = c.min := rfl

lemma Indexed.sort {c : LengthController} (h : c.Indexed) : c.sort.Indexed :=
  Indexes.perm h c.sort_perm.symm

/-- The comparison of the sort is that of the split lengths. -/
lemma sort_pairwise (c : LengthController) : c.sort.lengthMonitor.Pairwise fun m n =>
    ¬ n.val.lt m.val := by
  have : Std.Total fun m n : Node => ¬ n.val.lt m.val :=
    ⟨fun m n => by simp only [Fragment.lt]; omega⟩
  have : IsTrans Node fun m n => ¬ n.val.lt m.val :=
    ⟨fun a b d hab hbd => by simp only [Fragment.lt] at *; omega⟩
  exact List.pairwise_insertionSort _ _

/-- Sorting a sorted list does nothing. -/
lemma sort_sort (c : LengthController) : c.sort.sort = c.sort := by
  have h : c.sort.lengthMonitor.insertionSort (fun m n => ¬ n.val.lt m.val) =
      c.sort.lengthMonitor := c.sort_pairwise.insertionSort_eq
  unfold sort at h ⊢
  simp only at h ⊢
  rw [h]

/-- The fragment at the back of the sorted list. -/
def back (c : LengthController) : Option Node := c.sort.lengthMonitor.getLast?

lemma back_perm {c : LengthController} {n : Node} (h : c.back = some n) :
    c.lengthMonitor.Perm (n :: c.sort.lengthMonitor.dropLast) := by
  have hsplit : c.sort.lengthMonitor.dropLast ++ [n] = c.sort.lengthMonitor :=
    List.dropLast_append_getLast? n h
  have hperm := c.sort_perm.symm
  rw [← hsplit] at hperm
  exact hperm.trans (List.perm_append_singleton _ _)

lemma mem_of_back {c : LengthController} {n : Node} (h : c.back = some n) :
    n ∈ c.lengthMonitor :=
  (back_perm h).mem_iff.2 List.mem_cons_self

lemma exists_back {c : LengthController} (h : c.lengthMonitor ≠ []) : ∃ n, c.back = some n := by
  have hne : c.sort.lengthMonitor ≠ [] := by
    intro hnil
    have hperm := c.sort_perm
    rw [hnil] at hperm
    exact h hperm.nil_eq.symm
  exact ⟨_, List.getLast?_eq_some_getLast hne⟩

@[simp] lemma back_sort (c : LengthController) : c.sort.back = c.back := by
  unfold back
  rw [sort_sort]

/-- The range `next` answers for the fragment at the back. -/
def rangeOf (c : LengthController) (f : Fragment) : ℤ × ℤ :=
  if f.worker ≠ none then
    if (f.end_ - f.begin).tdiv 2 > c.min then (f.begin + (f.end_ - f.begin).tdiv 2, f.end_)
    else (0, 0)
  else (f.begin, f.end_)

lemma rangeOf_free {c : LengthController} {f : Fragment} (hfree : f.worker = none) :
    c.rangeOf f = (f.begin, f.end_) := by
  simp [rangeOf, hfree]

lemma rangeOf_split {c : LengthController} {f : Fragment} (hbusy : f.worker ≠ none)
    (hmid : c.min < (f.end_ - f.begin).tdiv 2) :
    c.rangeOf f = (f.begin + (f.end_ - f.begin).tdiv 2, f.end_) := by
  rw [rangeOf, if_pos hbusy, if_pos hmid]

lemma next_eq_of_back {c : LengthController} {n : Node} (h : c.back = some n) :
    c.next = .ok (c.rangeOf n.val, c.sort) := by
  have hlast : c.sort.lengthMonitor.getLast? = some n := h
  unfold next
  simp only [hlast]
  by_cases hbusy : n.val.worker ≠ none
  · by_cases hmid : (n.val.end_ - n.val.begin).tdiv 2 > c.min
    · have hmid' : (n.val.end_ - n.val.begin).tdiv 2 > c.sort.min := hmid
      rw [rangeOf, if_pos hbusy, if_pos hmid, if_pos hbusy, if_pos hmid']
    · have hmid' : ¬ (n.val.end_ - n.val.begin).tdiv 2 > c.sort.min := hmid
      rw [rangeOf, if_pos hbusy, if_neg hmid, if_pos hbusy, if_neg hmid']
  · rw [rangeOf, if_neg hbusy, if_neg hbusy]

lemma next_eq_of_nil {c : LengthController} (h : c.lengthMonitor = []) :
    c.next = .error .undefined := by
  have hperm := c.sort_perm
  rw [h] at hperm
  have hlast : c.sort.lengthMonitor.getLast? = none := by
    rw [hperm.eq_nil]
    rfl
  simp only [next, hlast]

/-- A single fragment is at the back, and stays where it is. -/
lemma next_of_singleton {c : LengthController} {n : Node} (h : c.lengthMonitor = [n]) :
    c.next = .ok (c.rangeOf n.val, c) := by
  have hsort : c.sort = c := by
    obtain ⟨min, nodes, finder⟩ := c
    obtain rfl : nodes = [n] := h
    rfl
  have hback : c.back = some n := by
    rw [back, hsort, h]
    rfl
  rw [next_eq_of_back hback, hsort]

/-- **`next` answers for the fragment at the back**, and is undefined on an empty list. -/
lemma next_cases {c c' : LengthController} {range : ℤ × ℤ} (h : c.next = .ok (range, c')) :
    ∃ n, c.back = some n ∧ range = c.rangeOf n.val ∧ c' = c.sort := by
  by_cases hnil : c.lengthMonitor = []
  · rw [next_eq_of_nil hnil] at h
    cases h
  · obtain ⟨n, hn⟩ := exists_back hnil
    rw [next_eq_of_back hn] at h
    simp only [Except.ok.injEq, Prod.mk.injEq] at h
    exact ⟨n, hn, h.1.symm, h.2.symm⟩

lemma next_undefined {c : LengthController} {fault : Fault} (h : c.next = .error fault) :
    fault = .undefined := by
  by_cases hnil : c.lengthMonitor = []
  · rw [next_eq_of_nil hnil] at h
    exact (Except.error.inj h).symm
  · obtain ⟨n, hn⟩ := exists_back hnil
    rw [next_eq_of_back hn] at h
    cases h

/-! ## `add` -/

/-- What `add` does: the worker takes the free fragment `f` at the back, or its second half
if it is being fetched. -/
inductive Added (c : LengthController) (w : WorkerPtr) (node : NodePtr)
    (c' : LengthController) : Prop
  | take (p : NodePtr) (f : Fragment) (hback : c.back = some ⟨p, f⟩) (hfree : f.worker = none)
      (hfinder : c'.nodeFinder = c.nodeFinder.insert w p) (hmin : c'.min = c.min)
      (hrep : c.Replaces c' [⟨p, f⟩] [⟨p, { f with worker := some w }⟩])
  | split (p : NodePtr) (f : Fragment) (hback : c.back = some ⟨p, f⟩) (hbusy : f.worker ≠ none)
      (hmid : c.min < (f.end_ - f.begin).tdiv 2)
      (hfinder : c'.nodeFinder = c.nodeFinder.insert w node) (hmin : c'.min = c.min)
      (hrep : c.Replaces c' [⟨p, f⟩]
        [⟨node, f.begin + (f.end_ - f.begin).tdiv 2, f.end_, some w⟩,
          ⟨p, { f with end_ := f.begin + (f.end_ - f.begin).tdiv 2 }⟩])

lemma add_cases {c c' : LengthController} {w : WorkerPtr} {node : NodePtr}
    (h : c.add w node = .ok c') : Added c w node c' := by
  cases hback : c.back with
  | none =>
    have hlast : c.sort.lengthMonitor.getLast? = none := hback
    simp [add, hlast] at h
  | some n =>
    have hlast : c.sort.lengthMonitor.getLast? = some n := hback
    have hold := back_perm hback
    simp only [add, hlast] at h
    split_ifs at h with hbusy hmid
    · simp only [Except.ok.injEq] at h
      refine .split n.addr n.val hback hbusy hmid (h ▸ rfl) (h ▸ rfl) ⟨_, hold, ?_⟩
      rw [← h]
      refine (List.perm_append_comm).trans ?_
      exact List.Perm.swap _ _ _
    · simp only [Except.ok.injEq] at h
      have hfree : n.val.worker = none := not_not.1 hbusy
      refine .take n.addr n.val hback hfree (h ▸ rfl) (h ▸ rfl) ⟨_, hold, ?_⟩
      rw [← h]
      exact List.perm_append_singleton _ _

/-- **`add` right after `next`** does not throw when the range was not empty. -/
lemma exists_add {c : LengthController} {n : Node} (hback : c.back = some n)
    (hrange : (c.rangeOf n.val).2 - (c.rangeOf n.val).1 ≠ 0) (w : WorkerPtr) (node : NodePtr) :
    ∃ c', c.sort.add w node = .ok c' := by
  have hlast : c.sort.sort.lengthMonitor.getLast? = some n := by
    rw [sort_sort]
    exact hback
  unfold add
  simp only [hlast]
  by_cases hbusy : n.val.worker ≠ none
  · by_cases hmid : (n.val.end_ - n.val.begin).tdiv 2 > c.min
    · have hmid' : (n.val.end_ - n.val.begin).tdiv 2 > c.sort.sort.min := hmid
      rw [if_pos hbusy, if_pos hmid']
      exact ⟨_, rfl⟩
    · exact absurd (by simp [rangeOf, hbusy, hmid]) hrange
  · rw [if_neg hbusy]
    exact ⟨_, rfl⟩

/-- `add` keeps the indexes consistent. -/
lemma Indexed.added {c c' : LengthController} {w : WorkerPtr} {node : NodePtr}
    (h : c.Indexed) (hadd : Added c w node c') (hw : c.nodeFinder.lookup w = none)
    (hnode : node ∉ c.addresses) : c'.Indexed := by
  cases hadd with
  | take p f hback hfree hfinder hmin hrep =>
    obtain ⟨rest, hold, hnew⟩ := hrep
    have hidx : Indexes c.nodeFinder (⟨p, f⟩ :: rest) := Indexes.perm h hold
    have hidx' := hidx.take hfree hw (g := { f with worker := some w }) rfl
    rw [Indexed, hfinder]
    exact hidx'.perm hnew.symm
  | split p f hback hbusy hmid hfinder hmin hrep =>
    obtain ⟨rest, hold, hnew⟩ := hrep
    have hidx : Indexes c.nodeFinder (⟨p, f⟩ :: rest) := Indexes.perm h hold
    have hcut := hidx.replace (g := { f with end_ := f.begin + (f.end_ - f.begin).tdiv 2 }) rfl
    have hfresh : node ∉ ((⟨p, f⟩ :: rest).map Node.addr) := fun hmem =>
      hnode ((hold.map Node.addr).mem_iff.2 hmem)
    rw [Indexed, hfinder]
    exact (hcut.cons hw hfresh rfl).perm hnew.symm

/-! ## `afterRead` and `workerStopped` -/

/-- What the controller does to the fragment of the worker `w`, whose offset is `o`. -/
inductive Progress (c : LengthController) (w : WorkerPtr) (o : ℤ)
    (c' : LengthController) : Prop
  /-- The worker goes on from its new offset. -/
  | advance (p : NodePtr) (f : Fragment) (hf : f.worker = some w) (hlt : o < f.end_)
      (hrep : c.Replaces c' [⟨p, f⟩] [⟨p, { f with begin := o }⟩])
      (hfinder : c'.nodeFinder = c.nodeFinder) (hmin : c'.min = c.min)
  /-- The worker has reached the end of its fragment. -/
  | drop (p : NodePtr) (f : Fragment) (hf : f.worker = some w) (hle : f.end_ ≤ o)
      (hrep : c.Replaces c' [⟨p, f⟩] [])
      (hfinder : c'.nodeFinder = c.nodeFinder.erase w) (hmin : c'.min = c.min)
  /-- The worker leaves its fragment unfinished. -/
  | free (p : NodePtr) (f : Fragment) (hf : f.worker = some w) (hlt : o < f.end_)
      (hrep : c.Replaces c' [⟨p, f⟩] [⟨p, { f with begin := o, worker := none }⟩])
      (hfinder : c'.nodeFinder = c.nodeFinder.erase w) (hmin : c'.min = c.min)

/-- The controller once the worker `w`, whose fragment at `p` is now `f`, has finished. -/
def dropFragment (c : LengthController) (p : NodePtr) (f : Fragment) (w : WorkerPtr) :
    LengthController :=
  { (c.assign p f).remove f with nodeFinder := c.nodeFinder.erase w }

/-- The controller once the worker `w`, whose fragment at `p` is now `f`, has left it. -/
def freeFragment (c : LengthController) (p : NodePtr) (f : Fragment) (w : WorkerPtr) :
    LengthController :=
  { (c.assign p f).assign p { f with worker := none } with nodeFinder := c.nodeFinder.erase w }

/-- The node of a worker the finder knows. -/
lemma Indexed.exists_node {c : LengthController} (h : c.Indexed) {w : WorkerPtr} {p : NodePtr}
    (hw : c.nodeFinder.lookup w = some p) :
    ∃ f rest, f.worker = some w ∧ c.deref p = some f ∧
      c.lengthMonitor.Perm (⟨p, f⟩ :: rest) ∧ (∀ n ∈ rest, n.addr ≠ p) ∧
      ∀ n ∈ rest, n.val.worker ≠ some w := by
  obtain ⟨⟨q, f⟩, hmem, rfl, hf⟩ := (h.lookup_iff w p).1 hw
  obtain ⟨rest, hperm⟩ := exists_perm_cons hmem
  have hidx : Indexes c.nodeFinder (⟨q, f⟩ :: rest) := Indexes.perm h hperm
  exact ⟨f, rest, hf, h.deref_eq hmem, hperm, fun n hn => hidx.addr_ne_of_mem hn,
    fun n hn => hidx.worker_ne_of_mem hf hn⟩

/-- **`afterRead`** of a known worker returns true and moves the begin of its fragment, or
returns false and deletes the fragment. -/
lemma Indexed.afterRead_cases {c : LengthController} (h : c.Indexed) {w : WorkerPtr}
    {p : NodePtr} (hw : c.nodeFinder.lookup w = some p) (o : ℤ) :
    ∃ f b c', f.worker = some w ∧ ⟨p, f⟩ ∈ c.lengthMonitor ∧ c.afterRead w o = .ok (b, c') ∧
      (b = true ↔ o < f.end_) ∧ Progress c w o c' ∧
      c'.nodeFinder = if b then c.nodeFinder else c.nodeFinder.erase w := by
  obtain ⟨f, rest, hf, hderef, hperm, haddr, hworker⟩ := h.exists_node hw
  have hmem : ⟨p, f⟩ ∈ c.lengthMonitor := hperm.mem_iff.2 List.mem_cons_self
  have hassign := assign_perm (g := { f with begin := o }) hperm haddr
  by_cases hend : f.end_ ≤ o
  · have hval : c.afterRead w o =
        .ok (false, c.dropFragment p { f with begin := o } w) := by
      simp only [afterRead, hw, hderef, if_pos hend]
      rfl
    refine ⟨f, false, _, hf, hmem, hval, by simp [hend], ?_, rfl⟩
    exact .drop p f hf hend ⟨rest, hperm, remove_perm hassign hf hworker⟩ rfl rfl
  · have hval : c.afterRead w o = .ok (true, c.assign p { f with begin := o }) := by
      simp only [afterRead, hw, hderef, if_neg hend]
    refine ⟨f, true, _, hf, hmem, hval, by simpa using hend, ?_, rfl⟩
    exact .advance p f hf (not_le.1 hend) ⟨rest, hperm, hassign⟩ rfl rfl

lemma afterRead_unknown {c : LengthController} {w : WorkerPtr}
    (hw : c.nodeFinder.lookup w = none) (o : ℤ) :
    c.afterRead w o = .error (.thrown .outOfRange) := by
  simp [afterRead, hw]

/-- What `workerStopped` does: nothing if the finder does not know the worker, else it deletes
the fragment of the worker or frees the rest of it. -/
inductive Released (c : LengthController) (w : WorkerPtr) (o : ℤ) (c' : LengthController) : Prop
  | unknown (hw : c.nodeFinder.lookup w = none) (hc : c' = c)
  | known (p : NodePtr) (f : Fragment) (hw : c.nodeFinder.lookup w = some p)
      (hf : f.worker = some w)
      (hrep : c.Replaces c' [⟨p, f⟩]
        (if o < f.end_ then [⟨p, { f with begin := o, worker := none }⟩] else []))
      (hprog : Progress c w o c') (hfinder : c'.nodeFinder = c.nodeFinder.erase w)

/-- **`workerStopped`** always returns. -/
lemma Indexed.exists_released {c : LengthController} (h : c.Indexed) (w : WorkerPtr) (o : ℤ) :
    ∃ c', c.workerStopped w o = .ok c' ∧ Released c w o c' := by
  cases hw : c.nodeFinder.lookup w with
  | none => exact ⟨c, by simp [workerStopped, hw], .unknown hw rfl⟩
  | some p =>
    obtain ⟨f, rest, hf, hderef, hperm, haddr, hworker⟩ := h.exists_node hw
    have hassign := assign_perm (g := { f with begin := o }) hperm haddr
    by_cases hend : f.end_ ≤ o
    · have hval : c.workerStopped w o = .ok (c.dropFragment p { f with begin := o } w) := by
        simp only [workerStopped, hw, hderef, if_pos hend]
        rfl
      have hrep : c.Replaces (c.dropFragment p { f with begin := o } w) [⟨p, f⟩] [] :=
        ⟨rest, hperm, remove_perm hassign hf hworker⟩
      refine ⟨_, hval, .known p f hw hf ?_ (.drop p f hf hend hrep rfl rfl) rfl⟩
      rw [if_neg (not_lt.2 hend)]
      exact hrep
    · have hlt : o < f.end_ := not_le.1 hend
      have hval : c.workerStopped w o = .ok (c.freeFragment p { f with begin := o } w) := by
        simp only [workerStopped, hw, hderef, if_neg hend]
        rfl
      have hrep : c.Replaces (c.freeFragment p { f with begin := o } w) [⟨p, f⟩]
          [⟨p, { f with begin := o, worker := none }⟩] :=
        ⟨rest, hperm, assign_perm hassign haddr⟩
      refine ⟨_, hval, .known p f hw hf ?_ (.free p f hf hlt hrep rfl rfl) rfl⟩
      rw [if_pos hlt]
      exact hrep

/-- `afterRead` and `workerStopped` keep the indexes consistent. -/
lemma Indexed.progress {c c' : LengthController} {w : WorkerPtr} {o : ℤ} (h : c.Indexed)
    (hprog : Progress c w o c') : c'.Indexed := by
  cases hprog with
  | advance p f hf hlt hrep hfinder hmin =>
    obtain ⟨rest, hold, hnew⟩ := hrep
    have hidx : Indexes c.nodeFinder (⟨p, f⟩ :: rest) := Indexes.perm h hold
    rw [Indexed, hfinder]
    exact (hidx.replace (g := { f with begin := o }) rfl).perm hnew.symm
  | drop p f hf hle hrep hfinder hmin =>
    obtain ⟨rest, hold, hnew⟩ := hrep
    have hidx : Indexes c.nodeFinder (⟨p, f⟩ :: rest) := Indexes.perm h hold
    rw [Indexed, hfinder]
    exact (hidx.drop hf).perm hnew.symm
  | free p f hf hlt hrep hfinder hmin =>
    obtain ⟨rest, hold, hnew⟩ := hrep
    have hidx : Indexes c.nodeFinder (⟨p, f⟩ :: rest) := Indexes.perm h hold
    rw [Indexed, hfinder]
    exact (hidx.free hf (g := { f with begin := o, worker := none }) rfl).perm hnew.symm

/-! ## The offsets of the workers -/

lemma Added.min_eq {c c' : LengthController} {w : WorkerPtr} {node : NodePtr}
    (h : Added c w node c') : c'.min = c.min := by
  cases h with
  | take p f hback hfree hfinder hmin hrep => exact hmin
  | split p f hback hbusy hmid hfinder hmin hrep => exact hmin

lemma Progress.min_eq {c c' : LengthController} {w : WorkerPtr} {o : ℤ}
    (h : Progress c w o c') : c'.min = c.min := by
  cases h with
  | advance p f hf hlt hrep hfinder hmin => exact hmin
  | drop p f hf hle hrep hfinder hmin => exact hmin
  | free p f hf hlt hrep hfinder hmin => exact hmin

/-- A new worker is entered in the finder. -/
lemma Added.finder {c c' : LengthController} {w : WorkerPtr} {node : NodePtr}
    (h : Added c w node c') : ∃ p, c'.nodeFinder = c.nodeFinder.insert w p := by
  cases h with
  | take p f hback hfree hfinder hmin hrep => exact ⟨p, hfinder⟩
  | split p f hback hbusy hmid hfinder hmin hrep => exact ⟨node, hfinder⟩

lemma Added.exists_owner {c c' : LengthController} {w : WorkerPtr} {node : NodePtr}
    (h : Added c w node c') : ∃ n ∈ c'.lengthMonitor, n.val.worker = some w := by
  cases h with
  | take p f hback hfree hfinder hmin hrep =>
    obtain ⟨rest, -, hnew⟩ := hrep
    exact ⟨_, hnew.mem_iff.2 List.mem_cons_self, rfl⟩
  | split p f hback hbusy hmid hfinder hmin hrep =>
    obtain ⟨rest, -, hnew⟩ := hrep
    exact ⟨_, hnew.mem_iff.2 List.mem_cons_self, rfl⟩

lemma Released.min_eq {c c' : LengthController} {w : WorkerPtr} {o : ℤ}
    (h : Released c w o c') : c'.min = c.min := by
  cases h with
  | unknown hw hc => rw [hc]
  | known p f hw hf hrep hprog hfinder => exact hprog.min_eq

/-- A worker that has been released is not in the finder. -/
lemma Released.lookup {c c' : LengthController} {w : WorkerPtr} {o : ℤ}
    (h : Released c w o c') : c'.nodeFinder.lookup w = none := by
  cases h with
  | unknown hw hc => rw [hc, hw]
  | known p f hw hf hrep hprog hfinder => rw [hfinder, AList.lookup_erase]

/-- Progress is made with the fragment of a worker. -/
lemma Progress.exists_owner {c c' : LengthController} {w : WorkerPtr} {o : ℤ}
    (h : Progress c w o c') : ∃ n ∈ c.lengthMonitor, n.val.worker = some w := by
  cases h with
  | advance p f hf hlt hrep hfinder hmin =>
    obtain ⟨rest, hold, -⟩ := hrep
    exact ⟨⟨p, f⟩, hold.mem_iff.2 List.mem_cons_self, hf⟩
  | drop p f hf hle hrep hfinder hmin =>
    obtain ⟨rest, hold, -⟩ := hrep
    exact ⟨⟨p, f⟩, hold.mem_iff.2 List.mem_cons_self, hf⟩
  | free p f hf hlt hrep hfinder hmin =>
    obtain ⟨rest, hold, -⟩ := hrep
    exact ⟨⟨p, f⟩, hold.mem_iff.2 List.mem_cons_self, hf⟩

/-- Every fragment that is being fetched begins at the offset of its worker. -/
def Tracks (c : LengthController) (offset : WorkerPtr → ℤ) : Prop :=
  ∀ n ∈ c.lengthMonitor, ∀ w, n.val.worker = some w → n.val.begin = offset w

lemma Tracks.congr {c : LengthController} {offset offset' : WorkerPtr → ℤ}
    (h : c.Tracks offset)
    (heq : ∀ n ∈ c.lengthMonitor, ∀ w, n.val.worker = some w → offset' w = offset w) :
    c.Tracks offset' := by
  intro n hn w hw
  rw [heq n hn w hw]
  exact h n hn w hw

lemma Tracks.perm {c c' : LengthController} {offset : WorkerPtr → ℤ} (h : c.Tracks offset)
    (hperm : c'.lengthMonitor.Perm c.lengthMonitor) : c'.Tracks offset := fun n hn =>
  h n (hperm.mem_iff.1 hn)

/-- An owner of a fragment is in the finder. -/
lemma Indexed.lookup_of_owner {c : LengthController} (h : c.Indexed) {w : WorkerPtr} {n : Node}
    (hn : n ∈ c.lengthMonitor) (hw : n.val.worker = some w) :
    c.nodeFinder.lookup w ≠ none := by
  rw [(h.lookup_iff w n.addr).2 ⟨n, hn, rfl, hw⟩]
  exact Option.some_ne_none _

lemma Indexed.worker_ne {c : LengthController} (h : c.Indexed) {w : WorkerPtr}
    (hw : c.nodeFinder.lookup w = none) {n : Node} (hn : n ∈ c.lengthMonitor) :
    n.val.worker ≠ some w :=
  fun hnw => h.lookup_of_owner hn hnw hw

/-- A new worker starts at the begin of the range that `next` has answered. -/
lemma Tracks.added {c c' : LengthController} {offset : WorkerPtr → ℤ} {w : WorkerPtr}
    {node : NodePtr} {n : Node} (h : c.Tracks offset) (hidx : c.Indexed)
    (hadd : Added c w node c') (hback : c.back = some n)
    (hw : c.nodeFinder.lookup w = none) :
    c'.Tracks (Function.update offset w (c.rangeOf n.val).1) := by
  have hkeep : ∀ m ∈ c.lengthMonitor, ∀ v, m.val.worker = some v →
      m.val.begin = Function.update offset w (c.rangeOf n.val).1 v := by
    intro m hm v hv
    have hvw : v ≠ w := fun heq => hidx.worker_ne hw hm (heq ▸ hv)
    rw [Function.update_of_ne hvw]
    exact h m hm v hv
  cases hadd with
  | take p f hback' hfree hfinder hmin hrep =>
    obtain rfl : n = ⟨p, f⟩ := Option.some.inj (hback.symm.trans hback')
    obtain ⟨rest, hold, hnew⟩ := hrep
    intro m hm v hv
    rcases List.mem_cons.1 (hnew.mem_iff.1 hm) with rfl | hm
    · obtain rfl : w = v := Option.some.inj hv
      rw [Function.update_self, rangeOf_free hfree]
    · exact hkeep m (hold.mem_iff.2 (List.mem_cons_of_mem _ hm)) v hv
  | split p f hback' hbusy hmid hfinder hmin hrep =>
    obtain rfl : n = ⟨p, f⟩ := Option.some.inj (hback.symm.trans hback')
    obtain ⟨rest, hold, hnew⟩ := hrep
    intro m hm v hv
    rcases List.mem_cons.1 (hnew.mem_iff.1 hm) with rfl | hm
    · obtain rfl : w = v := Option.some.inj hv
      rw [Function.update_self, rangeOf_split hbusy hmid]
    · rcases List.mem_cons.1 hm with rfl | hm
      · exact hkeep ⟨p, f⟩ (mem_of_back hback) v hv
      · exact hkeep m (hold.mem_iff.2 (List.mem_cons_of_mem _ hm)) v hv

/-- `afterRead` and `workerStopped` catch up with the offset of their worker. -/
lemma Tracks.progress {c c' : LengthController} {offset : WorkerPtr → ℤ} {w : WorkerPtr}
    {o : ℤ} (h : c.Tracks offset) (hidx : c.Indexed) (hprog : Progress c w o c') :
    c'.Tracks (Function.update offset w o) := by
  have hkeep : ∀ {p : NodePtr} {f : Fragment} {rest : List Node},
      c.lengthMonitor.Perm (⟨p, f⟩ :: rest) → f.worker = some w → ∀ m ∈ rest, ∀ v,
        m.val.worker = some v → m.val.begin = Function.update offset w o v := by
    intro p f rest hold hf m hm v hv
    have hvw : v ≠ w := fun heq =>
      (Indexes.perm hidx hold).worker_ne_of_mem hf hm (heq ▸ hv)
    rw [Function.update_of_ne hvw]
    exact h m (hold.mem_iff.2 (List.mem_cons_of_mem _ hm)) v hv
  cases hprog with
  | advance p f hf hlt hrep hfinder hmin =>
    obtain ⟨rest, hold, hnew⟩ := hrep
    intro m hm v hv
    rcases List.mem_cons.1 (hnew.mem_iff.1 hm) with rfl | hm
    · obtain rfl : w = v := Option.some.inj (hf.symm.trans hv)
      rw [Function.update_self]
    · exact hkeep hold hf m hm v hv
  | drop p f hf hle hrep hfinder hmin =>
    obtain ⟨rest, hold, hnew⟩ := hrep
    intro m hm v hv
    exact hkeep hold hf m (hnew.mem_iff.1 hm) v hv
  | free p f hf hlt hrep hfinder hmin =>
    obtain ⟨rest, hold, hnew⟩ := hrep
    intro m hm v hv
    rcases List.mem_cons.1 (hnew.mem_iff.1 hm) with rfl | hm
    · cases hv
    · exact hkeep hold hf m hm v hv

end LengthController

end Cld
