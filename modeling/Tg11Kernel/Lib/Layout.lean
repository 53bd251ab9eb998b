import Mathlib.Algebra.GroupWithZero.Nat
import Mathlib.Data.List.Pairwise

/-! Lists of bytes written at offsets into a zeroed buffer, one after the other. Where no two of them
meet, the order of the writes is without effect: each list is read back at its offset, and there is a
zero wherever none of them was written. -/

namespace Tg11Kernel.Lib

/-! ### Areas -/

/-- Two areas, each with its start and its length, do not meet. -/
def Apart (x y : ℕ × ℕ) : Prop := x.1 + x.2 ≤ y.1 ∨ y.1 + y.2 ≤ x.1

instance (x y : ℕ × ℕ) : Decidable (Apart x y) := inferInstanceAs (Decidable (_ ∨ _))

/-- Areas between two bounds that do not meet. -/
structure Laid (lo hi : ℕ) (l : List (ℕ × ℕ)) : Prop where
  bounds : ∀ x ∈ l, lo ≤ x.1 ∧ x.1 + x.2 ≤ hi
  apart : l.Pairwise Apart

section Laid

variable {lo mid mid' hi : ℕ} {l m : List (ℕ × ℕ)}

theorem Laid.append (h : Laid lo mid l) (h' : Laid mid' hi m) (hle : lo ≤ mid ∧ mid ≤ mid' ∧ mid' ≤ hi) : Laid lo hi (l ++ m) where
  bounds x hx := by
    rcases List.mem_append.1 hx with hx | hx
    · have hb := h.bounds x hx
      omega
    · have hb := h'.bounds x hx
      omega
  apart := by
    refine List.pairwise_append.2 ⟨h.apart, h'.apart, fun x hx y hy => ?_⟩
    have hx' := h.bounds x hx
    have hy' := h'.bounds y hy
    exact .inl (by omega)

/-- The same areas elsewhere. -/
theorem Laid.shift (h : Laid lo hi l) (k : ℕ) : Laid (k + lo) (k + hi) (l.map fun x => (k + x.1, x.2)) where
  bounds x hx := by
    obtain ⟨y, hy, rfl⟩ := List.mem_map.1 hx
    have hb := h.bounds y hy
    dsimp only
    omega
  apart := by
    rw [List.pairwise_map]
    refine h.apart.imp fun hxy => ?_
    unfold Apart at hxy ⊢
    dsimp only
    omega

theorem laid_singleton (off len : ℕ) : Laid off (off + len) [(off, len)] := ⟨by simp, List.pairwise_singleton _ _⟩

end Laid

/-! ### Writes -/

/-- Where a list of bytes is written. -/
def area (f : ℕ × List UInt8) : ℕ × ℕ := (f.1, f.2.length)

/-- The byte `i` of a zeroed buffer after the writes. -/
def written (fields : List (ℕ × List UInt8)) (i : ℕ) : UInt8 :=
  fields.foldl (fun b f => if f.1 ≤ i ∧ i < f.1 + f.2.length then f.2.getD (i - f.1) 0 else b) 0

section Written

variable {fields : List (ℕ × List UInt8)} {f : ℕ × List UInt8} {i : ℕ}

theorem foldl_uncovered (b : UInt8) (h : ∀ f ∈ fields, ¬ (f.1 ≤ i ∧ i < f.1 + f.2.length)) :
    fields.foldl (fun b f => if f.1 ≤ i ∧ i < f.1 + f.2.length then f.2.getD (i - f.1) 0 else b) b = b := by
  induction fields generalizing b with
  | nil => rfl
  | cons f fields ih =>
    rw [List.foldl_cons, if_neg (h f (by simp))]
    exact ih b fun g hg => h g (List.mem_cons_of_mem _ hg)

theorem written_uncovered (h : ∀ f ∈ fields, ¬ (f.1 ≤ i ∧ i < f.1 + f.2.length)) : written fields i = 0 := foldl_uncovered 0 h

/-- What was written is there. -/
theorem written_mem (h : (fields.map area).Pairwise Apart) (hf : f ∈ fields) (hi : i < f.2.length) : written fields (f.1 + i) = f.2.getD i 0 := by
  have hgen : ∀ b : UInt8, fields.foldl (fun b g => if g.1 ≤ f.1 + i ∧ f.1 + i < g.1 + g.2.length then g.2.getD (f.1 + i - g.1) 0 else b) b =
      f.2.getD i 0 := by
    induction fields with
    | nil => simp at hf
    | cons g fields ih =>
      intro b
      rw [List.map_cons, List.pairwise_cons] at h
      rw [List.foldl_cons]
      rcases List.mem_cons.1 hf with rfl | hf
      · rw [if_pos (by omega), Nat.add_sub_cancel_left]
        refine foldl_uncovered _ fun g hg => ?_
        have happart := h.1 (area g) (List.mem_map_of_mem hg)
        unfold Apart area at happart
        dsimp only at happart
        omega
      · exact ih h.2 hf _
  exact hgen 0

end Written

end Tg11Kernel.Lib
