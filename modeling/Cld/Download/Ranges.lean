import Cld.Download.Assignment
import Cld.Model.Numerals
import Cld.Model.Redirect

/-!
# Sizes and ranges

The size of a download is extracted from the `Content-Length` field as a `std::size_t`, and
passed on as an `off_t`.  The controller then splits `[0, size - 1]`, and a worker asks for what
it is answered.

* `ranges_within` is for files of one byte and more: whatever the run, a worker asks for a range
  that is not empty and lies in the file.
* An empty file has the fragment from 0 to -1, which is not empty to the assignment pass either,
  and is asked for (`exists_worker_of_empty`).
* A negative number and one from 2⁶³ on change their value on the way, and what follows the digits
  is not looked at.

`ranges_iff` puts this together.
-/

namespace Cld

open Framework LengthController

/-- The field is a number in decimal digits; blanks may stand around them. -/
def DecimalField (field : Bytes) (n : ℕ) : Prop :=
  ∃ front digits back, field = front ++ (digits ++ back) ∧ (∀ c ∈ front, isBlank c = true) ∧
    Numeral 10 digits n ∧ ∀ c ∈ back, isBlank c = true

namespace Download

variable {cfg : Config} {s s' : Download} {label : Label}

/-- The request is for the bytes from `first` to `last`. -/
def AsksFor (cfg : Config) (h : Held) (first last : ℤ) : Prop :=
  h.obj.requestData = (cfg.request.set "Range" (rangeValue first last)).request

/-- Every worker asks for a range in the file. -/
def Within (cfg : Config) (s : Download) : Prop :=
  ∀ h, some h ∈ s.workers → ∃ first last, AsksFor cfg h first last ∧
    0 ≤ first ∧ first ≤ last ∧ last ≤ cfg.size - 1

/-- What a fragment of the controller is charged with lies in the file. -/
lemma Charged.within {c : LengthController} {h : Held} {b e : ℤ} (hcharged : Charged cfg c h b e)
    (hpart : c.Partition cfg.size) : 0 ≤ b ∧ b ≤ e ∧ e ≤ cfg.size - 1 := by
  obtain ⟨p, -, hderef⟩ := hcharged.fragment
  obtain ⟨n, hfind, hval⟩ := Option.map_eq_some_iff.1 hderef
  have hmem := List.mem_of_find?_eq_some hfind
  obtain ⟨hbegin, hend⟩ := hpart.within n hmem
  have hbusy := hpart.busy n hmem (by rw [hval]; exact Option.some_ne_none _)
  rw [hval] at hbegin hend hbusy
  exact ⟨hbegin, hbusy.le, hend⟩

/-- **Every step keeps the ranges in the file.** -/
lemma Within.step (hwithin : Within cfg s) (hsize : 1 ≤ cfg.size) (hinv : s.Inv cfg)
    (hasks : s.Asks cfg) (hstep : s.step label = some s') : Within cfg s' := by
  have hpart := (hinv.step hstep).partition hsize
  intro h hh
  cases step_cases hstep with
  | passed => exact hwithin h hh
  | visited i slot choice s' hpc hslot hvisit =>
    by_cases hold : some h ∈ s.workers
    · exact hwithin h hold
    · obtain ⟨b, e, hcharged⟩ := hinv.charged_of_visited hasks hpc hslot
        (visit_cases hinv.core.indexed hvisit) hh hold
      exact ⟨b, e, hcharged.request, hcharged.within hpart⟩
  | waited => exact hwithin h hh
  | handled p event rest env s' hpc hhandle =>
    obtain ⟨w, outcome, w₁, file, -, hmem, -, -, hprocess, hhandled⟩ :=
      hinv.exists_handled hpc hhandle
    obtain ⟨h₀, hh₀, hsame⟩ := exists_of_handled hmem hprocess hhandled hh
    obtain ⟨first, last, hasksFor, hbounds⟩ := hwithin h₀ hh₀
    exact ⟨first, last, hsame.trans hasksFor, hbounds⟩
  | ticked now hpc =>
    obtain ⟨time, lastTime, pc, htick, -⟩ := s.tick_cases now
    rw [htick] at hh
    exact hwithin h hh

lemma ranges_within (hsize : 1 ≤ cfg.size) {node : NodePtr} {now : ℤ} {labels : List Label}
    (hrun : Transition.run Download.step (init cfg node now) labels = some s) :
    Within cfg s := by
  have hall : s.Inv cfg ∧ s.Asks cfg ∧ Within cfg s := by
    apply Transition.run_invariant (P := fun s => s.Inv cfg ∧ s.Asks cfg ∧ Within cfg s) _ _ hrun
    · rintro s label s' ⟨hinv, hasks, hwithin⟩ hstep
      exact ⟨hinv.step hstep, hasks.step hinv hstep, hwithin.step hsize hinv hasks hstep⟩
    · refine ⟨inv_init cfg node now, asks_init cfg node now, ?_⟩
      intro h hh
      cases List.eq_of_mem_replicate hh
  exact hall.2.2

/-- **An empty file is asked for** from 0 to -1. -/
lemma exists_worker_of_empty (hsize : cfg.size = 0) (hslots : cfg.connectionNumber ≠ 0) :
    ∃ labels s h, Transition.run Download.step (init cfg 0 0) labels = some s ∧
      some h ∈ s.workers ∧ AsksFor cfg h 0 (-1) := by
  obtain ⟨size, count, request⟩ := cfg
  obtain rfl : size = 0 := hsize
  obtain ⟨k, rfl⟩ : ∃ k, count = k + 1 := Nat.exists_eq_succ_of_ne_zero hslots
  have hnext : (create 0 (128 * 1024) 0).next = .ok ((0, -1), create 0 (128 * 1024) 0) := by
    rfl
  have hfree : pointers ((List.replicate (k + 1) (none : Option Held)).set 0 none) = [] := by
    rw [List.replicate_succ, List.set_cons_zero, pointers_cons, pointers_replicate]
    rfl
  have hstep : ∃ s', (init ⟨0, k + 1, request⟩ 0 0).step
      (.slot { ptr := 0, node := 1, connection := .ok ⟨[], []⟩ }) = some s' ∧
      some ⟨0, Worker.create ⟨[], []⟩ (request.set "Range" (rangeValue 0 (-1))) 0⟩ ∈
        s'.workers := by
    have hslot : (List.replicate (k + 1) (none : Option Held))[0]? = some none := by
      simp
    unfold step
    simp only [init, hslot]
    unfold visit clean
    simp only [hnext]
    rw [if_pos (by decide)]
    unfold assignWorker
    simp only [hfree]
    rw [if_neg (by decide)]
    refine ⟨_, rfl, ?_⟩
    show _ ∈ (_ :: _)
    exact List.mem_cons_self
  obtain ⟨s', hs', hmem⟩ := hstep
  exact ⟨_, s', _, Transition.run_single hs', hmem, rfl⟩

/-! ## The size -/

section Size

variable {field : Bytes} {n : ℕ}

/-- A decimal field is extracted whole. -/
lemma extracts_of_decimalField (h : DecimalField field n) : Extracts field false n := by
  obtain ⟨front, digits, back, rfl, hfront, hnumeral, hback⟩ := h
  refine ⟨front, [], digits, back, rfl, fun c hc => isSpace_of_isBlank c (hfront c hc),
    Or.inl ⟨rfl, Or.inl rfl⟩, hnumeral, ?_⟩
  intro c hc
  have hblank := hback c (List.mem_of_mem_head? hc)
  simp only [isBlank, Bool.or_eq_true, beq_iff_eq] at hblank
  rcases hblank with rfl | rfl
  · decide
  · decide

lemma extractSize_of_decimalField (h : DecimalField field n) :
    extractSize field = if n < 2 ^ 64 then some n else none :=
  extractSize_of_extracts (extracts_of_decimalField h)

lemma toOff_eq_self {n : ℕ} : toOff n = n ↔ n < 2 ^ 63 := by
  unfold toOff
  split_ifs with h
  · exact iff_of_true rfl h
  · refine iff_of_false ?_ h
    omega

end Size

/-- What a download that is entered with this field has to meet: the size is the number in the
field, and so it is as an `off_t`; and no worker of any run asks for anything outside the file. -/
structure InRange (field : Bytes) (cfg : Config) : Prop where
  size : ∃ n : ℕ, DecimalField field n ∧ extractSize field = some n ∧ cfg.size = n
  ranges : ∀ node now labels s,
    Transition.run Download.step (init cfg node now) labels = some s → Within cfg s

/-- **When sizes and ranges are in range**: nothing can be extracted that fits into 64 bits, so
that the download is not entered; or the field is a number from 1 up to 2⁶³ - 1. -/
theorem ranges_iff {options : Options} {request : Request} {response : Response}
    (hslots : 0 < options.connectionsNumber) :
    (∀ cfg, selectDownload options request response = .multi cfg →
        InRange (response.get "Content-Length") cfg) ↔
      (∀ negative n, Extracts (response.get "Content-Length") negative n → 2 ^ 64 ≤ n) ∨
        ∃ n, DecimalField (response.get "Content-Length") n ∧ 1 ≤ n ∧ n < 2 ^ 63 := by
  rw [← extractSize_eq_none_iff]
  constructor
  · intro hall
    cases hsize : extractSize (response.get "Content-Length") with
    | none => exact Or.inl rfl
    | some v =>
      right
      unfold selectDownload at hall
      rw [hsize] at hall
      obtain ⟨hvalue, hranges⟩ := hall _ rfl
      obtain ⟨n, hfield, hextract, hoff⟩ := hvalue
      obtain rfl := Option.some.inj (hsize.symm.trans hextract)
      refine ⟨v, hfield, ?_, toOff_eq_self.1 hoff⟩
      by_contra hzero
      obtain rfl : v = 0 := by omega
      -- an empty file is asked for, and no range lies in it
      have hcount : (if response.get "Accept-Ranges" = bytes "none" then 1
          else options.connectionsNumber.toNat) ≠ 0 := by
        split_ifs
        · exact one_ne_zero
        · omega
      obtain ⟨labels, s, h, hrun, hmem, -⟩ := exists_worker_of_empty hoff hcount
      obtain ⟨first, last, -, hfirst, hle, hlast⟩ := hranges 0 0 labels s hrun h hmem
      rw [hoff] at hlast
      push_cast at hlast
      omega
  · rintro (hnone | ⟨n, hfield, hone, hfits⟩) cfg hselect
    · unfold selectDownload at hselect
      rw [hnone] at hselect
      cases hselect
    · have hextract : extractSize (response.get "Content-Length") = some n := by
        rw [extractSize_of_decimalField hfield, if_pos (by omega)]
      unfold selectDownload at hselect
      rw [hextract] at hselect
      obtain rfl := Selected.multi.inj hselect
      have hoff : toOff n = n := toOff_eq_self.2 hfits
      refine ⟨⟨n, hfield, hextract, hoff⟩, ?_⟩
      intro node now labels s hrun
      apply ranges_within _ hrun
      show 1 ≤ toOff n
      omega

/-- A response with this length. -/
def lengthResponse (length : String) : Response where
  status := 200
  headers := [(bytes "Content-Length", bytes length)]

/-- Twelve bytes, with a blank behind them. -/
theorem ranges_of_twelve : ∃ cfg,
    selectDownload {} { method := bytes "HEAD", resource := bytes "/" } (lengthResponse "12 ") =
      .multi cfg ∧ cfg.size = 12 ∧ InRange (bytes "12 ") cfg := by
  have hfield : DecimalField (bytes "12 ") 12 :=
    ⟨[], bytes "12", bytes " ", rfl, by simp, ⟨by decide, by simp [bytes, digitValue, isDigit],
      rfl⟩, by simp [bytes, isBlank]⟩
  have hall := (@ranges_iff {} { method := bytes "HEAD", resource := bytes "/" }
    (lengthResponse "12 ") (by decide)).2 (Or.inr ⟨12, hfield, by decide, by decide⟩)
  exact ⟨_, rfl, rfl, hall _ rfl⟩

/-- **An empty file is asked for with `bytes=0--1`.** -/
theorem range_of_empty : ∃ cfg,
    selectDownload {} { method := bytes "HEAD", resource := bytes "/" } (lengthResponse "0") =
      .multi cfg ∧ cfg.size = 0 ∧ rangeValue 0 (-1) = bytes "bytes=0--1" ∧
      ∃ labels s h, Transition.run Download.step (init cfg 0 0) labels = some s ∧
        some h ∈ s.workers ∧ AsksFor cfg h 0 (-1) ∧ ¬ InRange (bytes "0") cfg := by
  refine ⟨_, rfl, rfl, by decide +kernel, ?_⟩
  obtain ⟨labels, s, h, hrun, hmem, hasks⟩ :=
    @exists_worker_of_empty ⟨0, 8, { method := bytes "GET", resource := bytes "/" }⟩ rfl
      (by decide)
  refine ⟨labels, s, h, hrun, hmem, hasks, ?_⟩
  intro hrange
  obtain ⟨first, last, -, hfirst, hle, hlast⟩ := hrange.ranges 0 0 labels s hrun h hmem
  have hlast' : last ≤ 0 - 1 := hlast
  omega

end Download

end Cld
