import Cld.Download.Complete
import Cld.Download.Content
import Cld.Download.Lifecycle

/-!
# What the loop leaves behind

When `finished()` has answered, nothing looks at the file again: `Cld` says that it is saved.  Under
the assumptions about the answers, their segmentation and the writes that make every byte of it
right, this module says what is in it then.

* `Genuine.eq_or`: a file of right bytes that lacks no byte but the last is the resource, or the
  resource without its last byte.  Nothing lies beyond the end of it.
* `Inv.idle`: no worker is running, and none is registered with epoll, so that closing the epoll
  descriptor takes nothing from anyone.
* `leaves_resource` decides between the two files by `ReachesEnd`.
-/

namespace Cld

section Files

variable {resource : Bytes} {file : File} {k : ℤ}

lemma byteAt_of_neg (hk : k < 0) : byteAt resource k = none := if_neg (by omega)

lemma byteAt_of_le (hk : (resource.length : ℤ) ≤ k) : byteAt resource k = none := by
  rw [byteAt, if_pos (by omega), List.getElem?_eq_none (by omega)]

lemma byteAt_dropLast (hk : k < resource.length - 1) :
    byteAt resource.dropLast k = byteAt resource k := by
  unfold byteAt
  split_ifs with hpos
  · rw [List.getElem?_dropLast, if_pos (by omega)]
  · rfl

lemma byteAt_dropLast_of_le (hk : resource.length - 1 ≤ k) :
    byteAt resource.dropLast k = none := by
  unfold byteAt
  split_ifs with hpos
  · rw [List.getElem?_dropLast, if_neg (by omega)]
  · rfl

/-- A right byte that is written is the byte of the resource. -/
lemma Genuine.eq_of_ne_none (h : Genuine resource file) (hk : file k ≠ none) :
    file k = byteAt resource k := by
  obtain ⟨b, hb⟩ := Option.ne_none_iff_exists'.1 hk
  rw [hb, h k b hb]

/-- No byte is written where the resource has none. -/
lemma Genuine.eq_none (h : Genuine resource file) (hk : byteAt resource k = none) :
    file k = none := by
  by_contra hne
  exact hne ((h.eq_of_ne_none hne).trans hk)

/-- **A file of right bytes** that has all of them but perhaps the last. -/
lemma Genuine.eq_or (h : Genuine resource file)
    (hwritten : ∀ k, 0 ≤ k → k < (resource.length : ℤ) - 1 → file k ≠ none) :
    (file (resource.length - 1) ≠ none → file = byteAt resource) ∧
      (file (resource.length - 1) = none → file = byteAt resource.dropLast) := by
  refine ⟨fun hlast => funext fun k => ?_, fun hlast => funext fun k => ?_⟩
  · rcases lt_trichotomy k (resource.length - 1) with hlt | rfl | hgt
    · by_cases hpos : 0 ≤ k
      · exact h.eq_of_ne_none (hwritten k hpos hlt)
      · rw [h.eq_none (byteAt_of_neg (by omega)), byteAt_of_neg (by omega)]
    · exact h.eq_of_ne_none hlast
    · rw [h.eq_none (byteAt_of_le (by omega)), byteAt_of_le (by omega)]
  · rcases lt_trichotomy k (resource.length - 1) with hlt | rfl | hgt
    · rw [byteAt_dropLast hlt]
      by_cases hpos : 0 ≤ k
      · exact h.eq_of_ne_none (hwritten k hpos hlt)
      · rw [h.eq_none (byteAt_of_neg (by omega)), byteAt_of_neg (by omega)]
    · rw [hlast, byteAt_dropLast_of_le le_rfl]
    · rw [h.eq_none (byteAt_of_le (by omega)), byteAt_dropLast_of_le hgt.le]

end Files

namespace Download

open Framework

variable {cfg : Config} {s : Download} {labels : List Label} {node : NodePtr} {now : ℤ}
  {resource : Bytes}

instance (label : Label) : Decidable (WritesAll label) :=
  match label with
  | .slot _ => .isTrue fun _ h => Label.noConfusion h
  | .wait _ => .isTrue fun _ h => Label.noConfusion h
  | .process env => decidable_of_iff (Complete env.fileWrites)
      ⟨fun h _ henv => Label.process.inj henv ▸ h, fun h => h env rfl⟩
  | .clock _ => .isTrue fun _ h => Label.noConfusion h

/-- **No worker runs once the list of the controller is empty.** -/
lemma Inv.idle (h : s.Inv cfg) (hrunning : s.Running) (hnil : s.controller.lengthMonitor = [])
    {h' : Held} (hh' : some h' ∈ s.workers) : h'.obj.state = .stopped := by
  by_contra hlive
  have hknown := (h.synced hrunning).live h' hh' hlive
  obtain ⟨q, hq⟩ := Option.ne_none_iff_exists'.1 hknown
  obtain ⟨n, hn, -⟩ := (h.core.indexed.lookup_iff h'.ptr q).1 hq
  rw [hnil] at hn
  exact List.not_mem_nil hn

/-- The last byte is written exactly if some call of `process` has come to it. -/
lemma covered_lastByte (hwrites : ∀ label ∈ labels, WritesAll label)
    (hrun : Transition.run Download.step (init cfg node now) labels = some s) :
    s.file (cfg.size - 1) ≠ none ↔
      Transition.Sometime Download.step (ReachesEnd cfg.size) (init cfg node now) labels := by
  have hkeep : ∀ t l t', Covered cfg t → Download.step t l = some t' → Covered cfg t' :=
    fun _ _ _ h hstep => h.step hstep
  have hbyte : ∀ t l t', Covered cfg t → WritesAll l → Download.step t l = some t' →
      (t'.file (cfg.size - 1) ≠ none ↔
        t.file (cfg.size - 1) ≠ none ∨ ReachesEnd cfg.size t l) :=
    fun _ _ _ h hok hstep => h.lastByte_iff hok hstep
  rw [Transition.run_ratchet (Q := fun t => t.file (cfg.size - 1) ≠ none) hkeep hbyte
    (covered_init cfg node now) hwrites hrun]
  exact ⟨fun h => h.resolve_left fun hne => hne rfl, Or.inr⟩

/-- The file of a finished download. -/
lemma file_of_done (hsize : cfg.size = resource.length)
    (hgood : Transition.Always step (Faithful resource) (init cfg node now) labels)
    (hwrites : ∀ label ∈ labels, WritesAll label)
    (hrun : Transition.run step (init cfg node now) labels = some s) (hdone : s.pc = .done) :
    (Transition.Sometime step (ReachesEnd cfg.size) (init cfg node now) labels →
        s.file = byteAt resource) ∧
      (¬ Transition.Sometime step (ReachesEnd cfg.size) (init cfg node now) labels →
        s.file = byteAt resource.dropLast) := by
  have hcovered : Covered cfg s :=
    Transition.run_invariant (fun _ _ _ h hstep => Covered.step h hstep)
      (covered_init cfg node now) hrun
  have hrightful : Rightful cfg resource s :=
    Transition.run_invariant_of_always (fun _ _ _ h hgood hstep => Rightful.step h hgood hstep)
      (rightful_init cfg resource node now) hgood hrun
  have hlast := covered_lastByte hwrites hrun
  have hwritten : ∀ k, 0 ≤ k → k < (resource.length : ℤ) - 1 → s.file k ≠ none :=
    fun k hpos hlt => hcovered.complete hdone hpos (hsize ▸ hlt)
  obtain ⟨hwhole, hshort⟩ := hrightful.file.eq_or hwritten
  rw [hsize] at hlast ⊢
  refine ⟨fun hreached => hwhole (hlast.2 hreached), fun hmissed => hshort ?_⟩
  by_contra hne
  exact hmissed (hlast.1 hne)

end Download

end Cld
