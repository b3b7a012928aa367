import Mathlib.Data.Set.Finite.Basic
import Mathlib.Order.Interval.Finset.Nat

/-!
# Iterating a partial function

A loop whose next state is a function of the one before, as the orbit of its first state under
a partial function `f`.  The loop is at its head in the states that are `live`, in which `f` is
defined, and it ends in the first one that is not.

What the environment sees of a live state is its `key`.  If equal keys lead to equal keys along
the orbit, a key that comes back keeps the loop going for ever, and a loop that goes on for ever
among finitely many keys meets one of them twice.  `ends_iff` is both together.
-/

namespace Framework

universe u v

namespace Orbit

variable {σ : Type u} {κ : Type v} (f : σ → Option σ) (s : σ)

/-- The state after `n` rounds. -/
def orbit : ℕ → Option σ
  | 0 => some s
  | n + 1 => (orbit n).bind f

lemma orbit_succ_iff {n : ℕ} {u : σ} :
    orbit f s (n + 1) = some u ↔ ∃ t, orbit f s n = some t ∧ f t = some u :=
  Option.bind_eq_some_iff

variable {f s}

/-- There are no gaps in an orbit. -/
lemma orbit_of_le {m n : ℕ} {t : σ} (hmn : m ≤ n) (h : orbit f s n = some t) :
    ∃ u, orbit f s m = some u := by
  induction n generalizing t with
  | zero =>
    obtain rfl := Nat.le_zero.1 hmn
    exact ⟨t, h⟩
  | succ n ih =>
    rcases Nat.of_le_succ hmn with hle | rfl
    · obtain ⟨u, hu, -⟩ := (orbit_succ_iff f s).1 h
      exact ih hle hu
    · exact ⟨t, h⟩

/-- What every round preserves holds along the orbit. -/
lemma orbit_invariant {P : σ → Prop} (hstep : ∀ t u, P t → f t = some u → P u) (hs : P s)
    {n : ℕ} {t : σ} (h : orbit f s n = some t) : P t := by
  induction n generalizing t with
  | zero =>
    obtain rfl := Option.some.inj h
    exact hs
  | succ n ih =>
    obtain ⟨u, hu, hut⟩ := (orbit_succ_iff f s).1 h
    exact hstep u t (ih hu) hut

/-- What every round preserves holds from some point of the orbit on. -/
lemma orbit_invariant_from {P : σ → Prop} (hstep : ∀ t u, P t → f t = some u → P u)
    {m n : ℕ} {t u : σ} (hmn : m ≤ n) (ht : orbit f s m = some t) (hP : P t)
    (hu : orbit f s n = some u) : P u := by
  induction n generalizing u with
  | zero =>
    obtain rfl := Nat.le_zero.1 hmn
    rwa [← Option.some.inj (ht.symm.trans hu)]
  | succ n ih =>
    rcases Nat.of_le_succ hmn with hle | rfl
    · obtain ⟨w, hw, hwu⟩ := (orbit_succ_iff f s).1 hu
      exact hstep w u (ih hle hw) hwu
    · rwa [← Option.some.inj (ht.symm.trans hu)]

section Keys

variable {live : σ → Prop} {key : σ → κ}

/-- The loop comes to its end. -/
def Ends (f : σ → Option σ) (s : σ) (live : σ → Prop) : Prop :=
  ∃ n t, orbit f s n = some t ∧ ¬ live t

/-- The keys that are met. -/
def keys (f : σ → Option σ) (s : σ) (live : σ → Prop) (key : σ → κ) : Set κ :=
  {k | ∃ n t, orbit f s n = some t ∧ live t ∧ key t = k}

/-- No key is met twice. -/
def Fresh (f : σ → Option σ) (s : σ) (live : σ → Prop) (key : σ → κ) : Prop :=
  ∀ m n t u, orbit f s m = some t → orbit f s n = some u → live t → live u → key t = key u →
    m = n

/-- Live states on the orbit with equal keys are followed by states with equal keys, which are
live or not together. -/
def Determined (f : σ → Option σ) (s : σ) (live : σ → Prop) (key : σ → κ) : Prop :=
  ∀ m n t u t' u', orbit f s m = some t → orbit f s n = some u → live t → live u →
    key t = key u → f t = some t' → f u = some u' → key t' = key u' ∧ (live t' ↔ live u')

variable (hlive : ∀ t, live t ↔ ∃ u, f t = some u)

include hlive

lemma live_of_lt {m n : ℕ} {t u : σ} (hmn : m < n) (ht : orbit f s m = some t)
    (hu : orbit f s n = some u) : live t := by
  obtain ⟨w, hw⟩ := orbit_of_le hmn hu
  obtain ⟨t', ht', hstep⟩ := (orbit_succ_iff f s).1 hw
  obtain rfl := Option.some.inj (ht.symm.trans ht')
  exact (hlive t).2 ⟨w, hstep⟩

/-- **A key that comes back** keeps the loop going: the orbit is live at every later point. -/
lemma live_of_repeat (hdet : Determined f s live key) {m n : ℕ} {t u : σ} (hmn : m < n)
    (ht : orbit f s m = some t) (hu : orbit f s n = some u) (hu' : live u) (hkey : key t = key u)
    (k : ℕ) : ∃ t u, orbit f s (m + k) = some t ∧ orbit f s (n + k) = some u ∧ live u ∧
      key t = key u := by
  induction k with
  | zero => exact ⟨t, u, ht, hu, hu', hkey⟩
  | succ k ih =>
    obtain ⟨a, b, ha, hb, hblive, hab⟩ := ih
    have halive := live_of_lt hlive (Nat.add_lt_add_right hmn k) ha hb
    obtain ⟨a', ha'⟩ := (hlive a).1 halive
    obtain ⟨b', hb'⟩ := (hlive b).1 hblive
    obtain ⟨hkey', hlive'⟩ := hdet _ _ a b a' b' ha hb halive hblive hab ha' hb'
    have horbit : orbit f s (m + k + 1) = some a' := (orbit_succ_iff f s).2 ⟨a, ha, ha'⟩
    -- the earlier of the two states is not behind the later one of the round before
    have ha'live : live a' := by
      rcases Nat.lt_or_ge (m + k + 1) (n + k) with hlt | hge
      · exact live_of_lt hlive hlt horbit hb
      · have hsame : m + k + 1 = n + k := by omega
        rw [hsame] at horbit
        rwa [← Option.some.inj (hb.symm.trans horbit)]
    exact ⟨a', b', horbit, (orbit_succ_iff f s).2 ⟨b, hb, hb'⟩, hlive'.1 ha'live, hkey'⟩

lemma fresh_of_ends (hdet : Determined f s live key) (hends : Ends f s live) :
    Fresh f s live key := by
  obtain ⟨N, e, he, hdead⟩ := hends
  have hnot : ∀ {m n t u}, m < n → orbit f s m = some t → orbit f s n = some u → live u →
      key t ≠ key u := by
    intro m n t u hmn ht hu hu' hkey
    -- the loop would be live at its end
    have hle : n ≤ N := by
      by_contra hlt
      exact hdead (live_of_lt hlive (Nat.lt_of_not_le hlt) he hu)
    obtain ⟨k, rfl⟩ := Nat.exists_eq_add_of_le hle
    obtain ⟨-, b, -, hb, hblive, -⟩ := live_of_repeat hlive hdet hmn ht hu hu' hkey k
    obtain rfl := Option.some.inj (he.symm.trans hb)
    exact hdead hblive
  intro m n t u ht hu ht' hu' hkey
  rcases Nat.lt_trichotomy m n with hlt | heq | hgt
  · exact absurd hkey (hnot hlt ht hu hu')
  · exact heq
  · exact absurd hkey.symm (hnot hgt hu ht ht')

lemma finite_keys_of_ends (hends : Ends f s live) : (keys f s live key).Finite := by
  obtain ⟨N, e, he, hdead⟩ := hends
  have hsub : keys f s live key ⊆
      (fun n => (orbit f s n).elim (key e) key) '' Set.Iio N := by
    rintro k ⟨n, t, ht, htlive, rfl⟩
    refine ⟨n, ?_, by simp [ht]⟩
    rw [Set.mem_Iio]
    by_contra hle
    rcases Nat.eq_or_lt_of_not_lt hle with heq | hlt
    · rw [← heq] at he
      obtain rfl := Option.some.inj (he.symm.trans ht)
      exact hdead htlive
    · exact hdead (live_of_lt hlive hlt he ht)
  exact ((Set.finite_Iio N).image _).subset hsub

/-- A loop that does not end is live for ever. -/
lemma exists_live_of_not_ends (hnot : ¬ Ends f s live) (n : ℕ) :
    ∃ t, orbit f s n = some t ∧ live t := by
  induction n with
  | zero => exact ⟨s, rfl, by_contra fun hdead => hnot ⟨0, s, rfl, hdead⟩⟩
  | succ n ih =>
    obtain ⟨t, ht, htlive⟩ := ih
    obtain ⟨u, hu⟩ := (hlive t).1 htlive
    have horbit : orbit f s (n + 1) = some u := (orbit_succ_iff f s).2 ⟨t, ht, hu⟩
    exact ⟨u, horbit, by_contra fun hdead => hnot ⟨n + 1, u, horbit, hdead⟩⟩

/-- **The loop ends if and only if** it meets finitely many keys, none of them twice. -/
lemma ends_iff (hdet : Determined f s live key) :
    Ends f s live ↔ (keys f s live key).Finite ∧ Fresh f s live key := by
  constructor
  · intro hends
    exact ⟨finite_keys_of_ends hlive hends, fresh_of_ends hlive hdet hends⟩
  · rintro ⟨hfinite, hfresh⟩
    by_contra hnot
    choose t ht htlive using exists_live_of_not_ends hlive hnot
    have hinj : Function.Injective fun n => key (t n) := fun m n hkey =>
      hfresh m n _ _ (ht m) (ht n) (htlive m) (htlive n) hkey
    have hmem : ∀ n, key (t n) ∈ keys f s live key := fun n => ⟨n, t n, ht n, htlive n, rfl⟩
    exact Set.infinite_of_injective_forall_mem hinj hmem hfinite

end Keys

end Orbit

end Framework
