import Mathlib.Data.List.Basic

/-! The lines of a text. A separator ends a line, so there is a line behind the last separator only if
something stands there; a scan that cuts at every separator has one piece more. -/

namespace Tg11Kernel.Lib

namespace Lines

variable {α : Type} [DecidableEq α] {sep c : α} {cur l : List α}

/-- The pieces of `l` between the separators, the first one behind `cur`. -/
def pieces (sep : α) (cur l : List α) : List (List α) := (l.splitOn sep).modifyHead (cur ++ ·)

/-- The lines of `l`. -/
def lines (sep : α) (l : List α) : List (List α) :=
  if l = [] ∨ l.getLast? = some sep then (l.splitOn sep).dropLast else l.splitOn sep

theorem pieces_nil_left : pieces sep [] l = l.splitOn sep := by
  cases h : l.splitOn sep with
  | nil => exact absurd h (List.splitOn_ne_nil sep l)
  | cons x xs => simp [pieces, h]

@[simp] theorem pieces_nil : pieces sep cur [] = [cur] := by simp [pieces]

@[simp] theorem pieces_sep : pieces sep cur (sep :: l) = cur :: pieces sep [] l := by
  rw [pieces_nil_left]
  simp [pieces, List.splitOn_cons_eq_if_modifyHead]

theorem pieces_cons (h : c ≠ sep) : pieces sep cur (c :: l) = pieces sep (cur ++ [c]) l := by
  rw [pieces, pieces, List.splitOn_cons_eq_if_modifyHead, if_neg (by simpa using h)]
  cases hl : l.splitOn sep with
  | nil => exact absurd hl (List.splitOn_ne_nil sep l)
  | cons x xs => simp

theorem length_pieces : (pieces sep cur l).length = l.count sep + 1 := by
  induction l generalizing cur with
  | nil => simp
  | cons c l ih =>
    by_cases h : c = sep
    · subst h
      rw [pieces_sep, List.length_cons, ih, List.count_cons_self]
    · rw [pieces_cons h, ih, List.count_cons_of_ne h]

/-- The last piece is empty behind a separator, and when there is nothing. -/
theorem getLast?_pieces : (pieces sep cur l).getLast? = some [] ↔ (l = [] ∧ cur = []) ∨ l.getLast? = some sep := by
  induction l generalizing cur with
  | nil => simp
  | cons c l ih =>
    by_cases h : c = sep
    · subst h
      have hne : pieces c [] l ≠ [] := by
        rw [pieces_nil_left]
        exact List.splitOn_ne_nil c l
      rw [pieces_sep, List.getLast?_cons, List.getLast?_eq_some_getLast hne, Option.getD_some, ← List.getLast?_eq_some_getLast hne, ih]
      cases l with
      | nil => simp
      | cons d l => simp [List.getLast?_cons_cons]
    · rw [pieces_cons h, ih]
      cases l with
      | nil => simp [h]
      | cons d l => simp [List.getLast?_cons_cons]

/-- A scan finds the lines, and behind them an empty piece when a separator ends the text or there is no text. -/
theorem pieces_eq : pieces sep [] l = lines sep l ++ if l = [] ∨ l.getLast? = some sep then [[]] else [] := by
  rw [lines, ← pieces_nil_left]
  split_ifs with h
  · have hlast : (pieces sep [] l).getLast? = some [] := getLast?_pieces.2 (by simpa using h)
    exact (List.dropLast_append_getLast? _ hlast).symm
  · rw [List.append_nil]

theorem length_lines : (lines sep l).length = l.count sep + if l = [] ∨ l.getLast? = some sep then 0 else 1 := by
  have hlength : (pieces sep [] l).length = l.count sep + 1 := length_pieces
  rw [pieces_eq, List.length_append] at hlength
  split_ifs at hlength ⊢ with h
  · rw [List.length_singleton] at hlength
    omega
  · rw [List.length_nil] at hlength
    omega

end Lines

end Tg11Kernel.Lib
