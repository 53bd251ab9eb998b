import Mathlib.Logic.Function.Basic

/-! Exclusive holders. Each of some places may hold one resource, and a resource
records whether it is live. The two records agree when every live resource is held
exactly once and a dead one not at all. Taking a dead resource to an empty place,
and letting one go together with its record, keep them in agreement. -/

namespace Tg11Kernel.Lib

variable {ι κ : Type}

/-- A live resource has exactly one holder, a dead one has none. -/
def Held (holds : ι → Option κ) (live : κ → Bool) : Prop :=
  ∀ k, (live k = true → ∃! i, holds i = some k) ∧ (live k = false → ∀ i, holds i ≠ some k)

namespace Held

variable {holds : ι → Option κ} {live : κ → Bool} {i : ι} {k : κ}

theorem empty : Held (fun _ : ι => (none : Option κ)) fun _ => false := fun _ => ⟨by simp, by simp⟩

theorem live_iff (h : Held holds live) : live k = true ↔ ∃! i, holds i = some k := by
  refine ⟨(h k).1, fun ⟨i, hi, _⟩ => ?_⟩
  by_contra hdead
  exact (h k).2 (Bool.eq_false_iff.2 hdead) i hi

theorem live_of_holds (h : Held holds live) (hi : holds i = some k) : live k = true := by
  by_contra hdead
  exact (h k).2 (Bool.eq_false_iff.2 hdead) i hi

theorem eq_of_holds {j : ι} (h : Held holds live) (hi : holds i = some k) (hj : holds j = some k) : i = j :=
  ((h k).1 (h.live_of_holds hi)).unique hi hj

/-- Without holders everything is dead. -/
theorem dead_of_none (h : Held holds live) (hnone : ∀ i, holds i = none) (k : κ) : live k = false := by
  by_contra hlive
  obtain ⟨i, hi, -⟩ := (h k).1 (by simpa using hlive)
  rw [hnone i] at hi
  simp at hi

variable [DecidableEq ι] [DecidableEq κ]

/-- An empty place takes a dead resource. -/
theorem take (h : Held holds live) (hi : holds i = none) (hk : live k = false) :
    Held (Function.update holds i (some k)) (Function.update live k true) := by
  intro k'
  rcases eq_or_ne k' k with rfl | hne
  · refine ⟨fun _ => ⟨i, by simp, fun j hj => ?_⟩, by simp⟩
    by_contra hji
    replace hj : Function.update holds i (some k') j = some k' := hj
    rw [Function.update_of_ne hji] at hj
    exact (h k').2 hk j hj
  · -- the other resources keep the holders they had
    have hsame : ∀ j, Function.update holds i (some k) j = some k' ↔ holds j = some k' := by
      intro j
      rcases eq_or_ne j i with rfl | hji
      · simp [hi, hne.symm]
      · rw [Function.update_of_ne hji]
    simp only [Function.update_of_ne hne, hsame, ne_eq]
    exact h k'

/-- A holder lets its resource go, which is then dead. -/
theorem drop (h : Held holds live) (hi : holds i = some k) :
    Held (Function.update holds i none) (Function.update live k false) := by
  intro k'
  rcases eq_or_ne k' k with rfl | hne
  · refine ⟨by simp, fun _ j hj => ?_⟩
    rcases eq_or_ne j i with rfl | hji
    · simp at hj
    · rw [Function.update_of_ne hji] at hj
      exact hji (h.eq_of_holds hj hi)
  · have hsame : ∀ j, Function.update holds i none j = some k' ↔ holds j = some k' := by
      intro j
      rcases eq_or_ne j i with rfl | hji
      · simp [hi, hne.symm]
      · rw [Function.update_of_ne hji]
    simp only [Function.update_of_ne hne, hsame, ne_eq]
    exact h k'

omit [DecidableEq κ] in
theorem idle (h : Held holds live) (hi : holds i = none) : Held (Function.update holds i none) live := by
  rwa [← hi, Function.update_eq_self]

end Held

end Tg11Kernel.Lib
