import Cld.Download.Invariant

/-!
# How fast connections are opened

A server that refuses ranges, or closes every connection at once, keeps the loop busy: each worker
that stops is replaced.  What holds it back is that slots are only looked at when a progress line
has been printed, at most four times a second.

* `opens` is the test that decides whether a worker is constructed, and so whether the program
  connects.
* `allowance` is the potential: what the time until the last progress line has allowed, less the
  slots that the pass has still to look at.  `allowance_step` pays for every connection out of it.
* `connections_bounded` is the bound for every window of a run: in `d` milliseconds there are at
  most `connectionNumber * (2 + d / 250)` connections.

The comparison `time == last_time` has to mean that a line has been printed.  Time is counted in
whole milliseconds here: of the clock is assumed that it does not run backwards, and that no reading
falls into the millisecond of the last line.
-/

namespace Cld.Download

open Framework LengthController

variable {cfg : Config} {s s' : Download} {label : Label} {labels : List Label} {node : NodePtr}
  {now : ℤ} {i : ℕ}

/-- The step constructs a worker: the slot is empty, or is emptied, and `next` has an answer. -/
def opens (s : Download) (label : Label) : Bool :=
  match s.pc, label with
  | .slot i, .slot _ =>
    match (s.workers[i]?).map (clean s.controller) with
    | some (.ok (c, none)) =>
      match c.next with
      | .ok (range, _) => decide (range.2 - range.1 ≠ 0)
      | .error _ => false
    | _ => false
  | _, _ => false

/-- How many connections a run opens, or tries to open. -/
def connections (s : Download) (labels : List Label) : ℕ :=
  Transition.total step (fun s label => (opens s label).toNat) s labels

/-- The clock has not run backwards, and has moved on since the last progress line.  That of the
source counts nanoseconds, so that it can do so within a millisecond; this is excluded. -/
def Ticking (s : Download) (label : Label) : Prop :=
  match label with
  | .clock now => s.time ≤ now ∧ now ≠ s.lastTime
  | _ => True

instance (s : Download) (label : Label) : Decidable (s.Ticking label) := by
  unfold Ticking
  exact match label with
    | .slot _ => inferInstanceAs (Decidable True)
    | .wait _ => inferInstanceAs (Decidable True)
    | .process _ => inferInstanceAs (Decidable True)
    | .clock now => inferInstanceAs (Decidable (s.time ≤ now ∧ now ≠ s.lastTime))

/-- The slots that the pass has still to look at. -/
def unseen (s : Download) : ℕ :=
  match s.pc with
  | .slot i => s.workers.length - i
  | _ => 0

/-- What the time has allowed so far, in connections for each 250 milliseconds. -/
def allowance (s : Download) : ℤ := s.workers.length * s.lastTime - 250 * s.unseen

/-! ## One step -/

lemma opens_slot (hopens : opens s label = true) : ∃ i, s.pc = .slot i ∧ i < s.workers.length := by
  unfold opens at hopens
  split at hopens
  · next i choice hpc =>
    refine ⟨i, hpc, ?_⟩
    by_contra hlt
    rw [List.getElem?_eq_none (not_lt.1 hlt)] at hopens
    cases hopens
  · cases hopens

lemma unseen_slot (hpc : s.pc = .slot i) : s.unseen = s.workers.length - i := by
  rw [unseen, hpc]

lemma unseen_of_ne (hpc : ∀ i, s.pc ≠ .slot i) : s.unseen = 0 := by
  unfold unseen
  split
  · next i h => exact absurd h (hpc i)
  · rfl

lemma unseen_le (s : Download) : (s.unseen : ℤ) ≤ s.workers.length := by
  unfold unseen
  split <;> omega

/-- A round of the pass looks at one slot and changes neither their number nor the clock. -/
lemma Visited.unseen {slot : Option Held} {choice : SlotChoice} (hpc : s.pc = .slot i)
    (h : Visited s i slot choice s') :
    s'.workers.length = s.workers.length ∧ s'.lastTime = s.lastTime ∧ s'.time = s.time ∧
      s'.unseen ≤ s.unseen - 1 := by
  rw [unseen_slot hpc]
  cases h with
  | kept h' hslot hlive =>
    refine ⟨rfl, rfl, rfl, ?_⟩
    rw [unseen_slot rfl]
    exact le_of_eq (Nat.sub_add_eq _ i 1)
  | stuck c hclean hnil =>
    refine ⟨List.length_set, rfl, rfl, ?_⟩
    rw [unseen_of_ne fun _ => Pc.noConfusion]
    exact Nat.zero_le _
  | idle c n hclean hback hrange =>
    refine ⟨List.length_set, rfl, rfl, ?_⟩
    rw [unseen_slot rfl, List.length_set]
    exact le_of_eq (Nat.sub_add_eq _ i 1)
  | refused c n e hclean hback hrange =>
    refine ⟨List.length_set, rfl, rfl, ?_⟩
    rw [unseen_of_ne fun _ => Pc.noConfusion]
    exact Nat.zero_le _
  | assigned c c' n stream hclean hback hrange hconnection hptr hnode hadd =>
    refine ⟨List.length_set, rfl, rfl, ?_⟩
    rw [unseen_slot rfl, List.length_set]
    exact le_of_eq (Nat.sub_add_eq _ i 1)

/-- Between two readings the clock and `last_time` are less than 250 milliseconds apart. -/
structure Paced (cfg : Config) (s : Download) : Prop where
  inv : s.Inv cfg
  behind : s.lastTime ≤ s.time
  near : s.time < s.lastTime + 250

lemma paced_init (cfg : Config) (node : NodePtr) (now : ℤ) : Paced cfg (init cfg node now) where
  inv := inv_init cfg node now
  behind := le_refl now
  near := by
    show now < now + 250
    omega

/-- **Reading the clock**: a pass begins only with a progress line, 250 milliseconds after the one
before. -/
lemma tick_paced (h : Paced cfg s) (hne : now ≠ s.lastTime) :
    (s.tick now).workers = s.workers ∧ (s.tick now).time = now ∧
      (((s.tick now).lastTime = now ∧ s.lastTime + 250 ≤ now) ∨
        ((s.tick now).lastTime = s.lastTime ∧ now < s.lastTime + 250 ∧
          ∀ i, (s.tick now).pc ≠ .slot i)) := by
  obtain ⟨b, hfin⟩ := h.inv.finished_ok
  by_cases hprint : now - s.lastTime ≥ 250
  · unfold tick
    simp only [hprint, if_true, hfin]
    cases b with
    | true => exact ⟨rfl, rfl, Or.inl ⟨rfl, by omega⟩⟩
    | false => exact ⟨rfl, rfl, Or.inl ⟨rfl, by omega⟩⟩
  · unfold tick
    simp only [hprint, if_false, hfin, hne]
    cases b with
    | true => exact ⟨rfl, rfl, Or.inr ⟨rfl, by omega, fun _ => Pc.noConfusion⟩⟩
    | false => exact ⟨rfl, rfl, Or.inr ⟨rfl, by omega, fun _ => Pc.noConfusion⟩⟩

/-- **One step is paid for** by the time that has passed. -/
lemma allowance_step (h : Paced cfg s) (hticking : Ticking s label)
    (hstep : s.step label = some s') :
    Paced cfg s' ∧ allowance s + 250 * (opens s label).toNat ≤ allowance s' := by
  have hinv : s'.Inv cfg := h.inv.step hstep
  -- only the pass opens connections
  have hclosed : (∀ i, s.pc ≠ .slot i) → (opens s label).toNat = 0 := by
    intro hpc
    cases hopens : opens s label with
    | false => rfl
    | true =>
      obtain ⟨i, hslot, -⟩ := opens_slot hopens
      exact absurd hslot (hpc i)
  have hkept : ∀ {t : Download}, (∀ i, s.pc ≠ .slot i) → (∀ i, t.pc ≠ .slot i) →
      t.workers.length = s.workers.length → t.lastTime = s.lastTime →
      allowance s + 250 * (opens s label).toNat ≤ allowance t := by
    intro t hpc hpc' hlength hlast
    rw [hclosed hpc, allowance, allowance, unseen_of_ne hpc, unseen_of_ne hpc', hlength, hlast]
    simp
  cases step_cases hstep with
  | passed i choice hpc hslot =>
    have hclosed' : opens s (.slot choice) = false := by
      unfold opens
      simp only [hpc, hslot, Option.map_none]
    refine ⟨⟨hinv, h.behind, h.near⟩, ?_⟩
    have hend : s.unseen = 0 := by
      rw [unseen_slot hpc]
      exact Nat.sub_eq_zero_of_le (List.getElem?_eq_none_iff.1 hslot)
    rw [hclosed', allowance, allowance, hend, unseen_of_ne fun _ => Pc.noConfusion]
    simp
  | visited i slot choice s' hpc hslot hvisit =>
    obtain ⟨hlength, hlast, htime, hless⟩ := (visit_cases h.inv.core.indexed hvisit).unseen hpc
    refine ⟨⟨hinv, ?_, ?_⟩, ?_⟩
    · rw [hlast, htime]
      exact h.behind
    · rw [hlast, htime]
      exact h.near
    · have hi : i < s.workers.length := (List.getElem?_eq_some_iff.1 hslot).1
      have hone := Bool.toNat_le (opens s (.slot choice))
      rw [unseen_slot hpc] at hless
      rw [allowance, allowance, hlength, hlast, unseen_slot hpc]
      omega
  | waited events hpc hreportable =>
    refine ⟨⟨hinv, h.behind, h.near⟩, ?_⟩
    refine hkept (fun i hi => ?_) (fun _ => Pc.noConfusion) rfl rfl
    rw [hpc] at hi
    cases hi
  | handled p event rest env s' hpc hhandle =>
    obtain ⟨w, c, pc, file, rfl, -, hpc'⟩ := h.inv.handle_shape hpc hhandle
    refine ⟨⟨hinv, h.behind, h.near⟩, ?_⟩
    refine hkept (fun i hi => ?_) (fun i hi => ?_) (length_putWorker _ _ _) rfl
    · rw [hpc] at hi
      cases hi
    · have hi' : pc = .slot i := hi
      rcases hpc' with rfl | ⟨fault, rfl⟩ <;> cases hi'
  | ticked now hpc =>
    have hpc' : ∀ i, s.pc ≠ .slot i := fun i hi => by rw [hpc] at hi; cases hi
    have hbehind := h.behind
    have hle : s.time ≤ now := hticking.1
    obtain ⟨hworkers, htime, ⟨hlast, hprint⟩ | ⟨hlast, hnear, hslot⟩⟩ := tick_paced h hticking.2
    · refine ⟨⟨hinv, by omega, by omega⟩, ?_⟩
      -- the slots of a whole pass cost what 250 milliseconds allow
      have hpass : ((s.tick now).unseen : ℤ) ≤ s.workers.length := hworkers ▸ unseen_le _
      rw [hclosed hpc', allowance, allowance, unseen_of_ne hpc', hworkers, hlast]
      nlinarith
    · refine ⟨⟨hinv, by omega, by omega⟩, ?_⟩
      exact hkept hpc' hslot (by rw [hworkers]) hlast

/-! ## Runs -/

/-- **Every window of a run** opens at most as many connections as its length allows: one for each
slot at its beginning, one for each slot in the pass that was going on, and one for each slot in
every 250 milliseconds.  The clock is one that does not run backwards, and is never read in the
millisecond of the last progress line. -/
theorem connections_bounded {window : List Label}
    (hticking : Transition.Always step Ticking (init cfg node now) (labels ++ window))
    (hrun : Transition.run step (init cfg node now) labels = some s)
    (hwindow : Transition.run step s window = some s') :
    250 * (connections s window : ℤ) ≤ cfg.connectionNumber * (500 + (s'.time - s.time)) := by
  obtain ⟨hbefore, hduring⟩ := Transition.always_append hticking hrun
  have hkeep : ∀ t l t', Paced cfg t → Ticking t l → step t l = some t' → Paced cfg t' :=
    fun _ _ _ h hl hstep => (allowance_step h hl hstep).1
  have hpaced : Paced cfg s :=
    Transition.run_invariant_of_always hkeep (paced_init cfg node now) hbefore hrun
  have hpaced' : Paced cfg s' :=
    Transition.run_invariant_of_always hkeep hpaced hduring hwindow
  have hpaid := Transition.total_le hkeep
    (fun _ _ _ h hl hstep => (allowance_step h hl hstep).2) hpaced hduring hwindow
  have hunseen : (s.unseen : ℤ) ≤ cfg.connectionNumber := by
    rw [← hpaced.inv.length]
    exact unseen_le s
  have hlast : s'.lastTime - s.lastTime ≤ 250 + (s'.time - s.time) := by
    have hnear := hpaced.near
    have hbehind := hpaced'.behind
    omega
  unfold allowance at hpaid
  rw [hpaced.inv.length, hpaced'.inv.length] at hpaid
  calc 250 * (connections s window : ℤ)
      ≤ cfg.connectionNumber * (s'.lastTime - s.lastTime) + 250 * s.unseen := by
        unfold connections
        linarith
    _ ≤ cfg.connectionNumber * (250 + (s'.time - s.time)) + 250 * cfg.connectionNumber := by
        gcongr
    _ = cfg.connectionNumber * (500 + (s'.time - s.time)) := by ring

/-- A worker is created, and nothing comes back before the first progress line. -/
def silence : List Label :=
  [.slot ⟨1, 1, .ok ⟨[], []⟩⟩, .slot ⟨2, 2, .ok ⟨[], []⟩⟩, .wait [], .clock 100, .wait [],
    .clock 250, .slot ⟨2, 2, .ok ⟨[], []⟩⟩]

/-- One connection is opened in 250 milliseconds. -/
theorem connections_bounded_silence : ∃ s,
    Transition.run step (init ⟨100, 1, [], [], [], []⟩ 0 0) silence = some s ∧
      connections (init ⟨100, 1, [], [], [], []⟩ 0 0) silence = 1 ∧
      250 * (connections (init ⟨100, 1, [], [], [], []⟩ 0 0) silence : ℤ) ≤
        1 * (500 + (s.time - 0)) := by
  have hrun : Transition.run step (init ⟨100, 1, [], [], [], []⟩ 0 0) silence = some _ := rfl
  have hstart : Transition.run step (init ⟨100, 1, [], [], [], []⟩ 0 0) [] =
      some (init ⟨100, 1, [], [], [], []⟩ 0 0) := rfl
  have hbound := connections_bounded (by decide +kernel) hstart hrun
  exact ⟨_, hrun, by decide +kernel, hbound⟩

end Cld.Download
