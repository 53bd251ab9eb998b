import Mathlib.Data.List.DropRight
import Mathlib.Data.List.GetD

/-! Lists that are padded at the end with a blank. Two lists fill a field alike exactly if they
are equal without their blanks at the end. -/

namespace Tg11Kernel.Lib

variable {α : Type*} [DecidableEq α] (blank : α)

/-- The list without the blanks at its end. -/
def trim (l : List α) : List α := l.rdropWhile (· = blank)

/-- The number of blanks at the end. -/
def pads (l : List α) : ℕ := (l.rtakeWhile (· = blank)).length

@[simp] theorem trim_nil : trim blank [] = [] := List.rdropWhile_nil _

theorem rtakeWhile_eq_replicate (l : List α) : l.rtakeWhile (· = blank) = List.replicate (pads blank l) blank := by
  apply List.eq_replicate_of_mem
  intro a ha
  simpa using List.mem_rtakeWhile_imp ha

theorem trim_append_pads (l : List α) : trim blank l ++ List.replicate (pads blank l) blank = l := by
  rw [← rtakeWhile_eq_replicate]
  exact List.rdropWhile_append_rtakeWhile

theorem trim_append_replicate (l : List α) (k : ℕ) : trim blank (l ++ List.replicate k blank) = trim blank l := by
  induction k with
  | zero => simp
  | succ k ih =>
    rw [List.replicate_succ', ← List.append_assoc]
    unfold trim at ih ⊢
    rw [List.rdropWhile_concat_pos _ _ _ (by simp), ih]

variable {blank} {l l' : List α}

theorem eq_of_trim (h : trim blank l = trim blank l') (hp : pads blank l = pads blank l') : l = l' := by
  rw [← trim_append_pads blank l, h, hp, trim_append_pads]

theorem trim_eq_nil_iff : trim blank l = [] ↔ ∀ a ∈ l, a = blank := by
  unfold trim
  simp [List.rdropWhile_eq_nil_iff]

theorem length_trim_le : (trim blank l).length ≤ l.length := (List.rdropWhile_prefix _ l).length_le

theorem mem_of_mem_trim {a : α} (h : a ∈ trim blank l) : a ∈ l := (List.rdropWhile_prefix _ l).subset h

/-! ### Fields -/

theorem getD_append_replicate (l : List α) (k i : ℕ) : (l ++ List.replicate k blank).getD i blank = l.getD i blank := by
  by_cases hi : i < l.length
  · rw [List.getD_append _ _ _ _ hi]
  · rw [List.getD_append_right _ _ _ _ (by omega), List.getD_eq_default l _ (by omega)]
    simp [List.getD_eq_getElem?_getD, List.getElem?_replicate]
    split_ifs <;> rfl

theorem getD_trim (l : List α) (i : ℕ) : (trim blank l).getD i blank = l.getD i blank := by
  conv_rhs => rw [← trim_append_pads blank l]
  rw [getD_append_replicate]

/-- Lists that fill a field of `n` alike. -/
theorem trim_eq_of_getD {n : ℕ} (hl : l.length ≤ n) (hl' : l'.length ≤ n) (h : ∀ i < n, l.getD i blank = l'.getD i blank) :
    trim blank l = trim blank l' := by
  have hsame : l ++ List.replicate (n - l.length) blank = l' ++ List.replicate (n - l'.length) blank := by
    apply List.ext_getElem
    · simp
      omega
    · intro i hi hi'
      rw [← List.getD_eq_getElem _ blank hi, ← List.getD_eq_getElem _ blank hi', getD_append_replicate, getD_append_replicate]
      apply h
      simp at hi
      omega
  rw [← trim_append_replicate blank l (n - l.length), hsame, trim_append_replicate]

theorem trim_eq_iff {n : ℕ} (hl : l.length ≤ n) (hl' : l'.length ≤ n) :
    trim blank l = trim blank l' ↔ ∀ i < n, l.getD i blank = l'.getD i blank := by
  refine ⟨fun h i _ => ?_, trim_eq_of_getD hl hl'⟩
  rw [← getD_trim l, h, getD_trim]

theorem trim_field {n : ℕ} (hl : l.length ≤ n) : trim blank ((List.range n).map fun i => l.getD i blank) = trim blank l := by
  apply trim_eq_of_getD (n := n) (by simp) hl
  intro i hi
  simp [List.getD_eq_getElem?_getD, hi]

end Tg11Kernel.Lib
