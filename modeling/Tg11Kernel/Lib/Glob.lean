import Mathlib.Data.List.Infix

/-! Patterns with wildcards over any alphabet. `many` stands for any word, `one` for any letter.
The words of a pattern are those of its front followed by those of its rest, and only `many`
matches the empty word. -/

namespace Tg11Kernel.Lib

inductive Wild (α : Type) where
  | many
  | one
  | letter (a : α)
  deriving DecidableEq

namespace Wild

variable {α : Type} {p q : List (Wild α)} {w : List α} {a : α}

/-- The words that a pattern stands for. -/
inductive Matches : List (Wild α) → List α → Prop
  | nil : Matches [] []
  | many {p : List (Wild α)} {w : List α} (s : List α) (h : Matches p w) : Matches (.many :: p) (s ++ w)
  | one {p : List (Wild α)} {w : List α} (a : α) (h : Matches p w) : Matches (.one :: p) (a :: w)
  | letter {p : List (Wild α)} {w : List α} (a : α) (h : Matches p w) : Matches (.letter a :: p) (a :: w)

@[simp] theorem matches_nil_iff : Matches [] w ↔ w = [] := by
  constructor
  · rintro ⟨⟩
    rfl
  · rintro rfl
    exact .nil

theorem matches_many_iff : Matches (.many :: p) w ↔ ∃ t, t <:+ w ∧ Matches p t := by
  constructor
  · rintro ⟨⟩
    next t s h => exact ⟨t, List.suffix_append s t, h⟩
  · rintro ⟨t, ⟨s, rfl⟩, h⟩
    exact .many s h

@[simp] theorem not_matches_one : ¬ Matches (.one :: p) [] := fun h => nomatch h

@[simp] theorem not_matches_letter : ¬ Matches (.letter a :: p) [] := fun h => nomatch h

@[simp] theorem matches_one_iff {b : α} : Matches (.one :: p) (b :: w) ↔ Matches p w := by
  constructor
  · rintro ⟨⟩
    assumption
  · exact .one b

@[simp] theorem matches_letter_iff {b : α} : Matches (.letter a :: p) (b :: w) ↔ a = b ∧ Matches p w := by
  constructor
  · rintro ⟨⟩
    exact ⟨rfl, by assumption⟩
  · rintro ⟨rfl, h⟩
    exact .letter a h

theorem matches_many (w : List α) : Matches [.many] w := by
  have h := Matches.many w .nil
  rwa [List.append_nil] at h

/-- Only `many` matches nothing. -/
theorem forall_many (h : Matches p []) : ∀ x ∈ p, x = .many := by
  induction p with
  | nil => exact fun x hx => nomatch hx
  | cons x p ih =>
    cases x with
    | many =>
      obtain ⟨t, ht, h⟩ := matches_many_iff.1 h
      rw [List.suffix_nil.1 ht] at h
      exact List.forall_mem_cons.2 ⟨rfl, ih h⟩
    | one => exact absurd h not_matches_one
    | letter a => exact absurd h not_matches_letter

/-- A pattern matches its own text where that spells the wildcards with any letters. -/
theorem matches_self (f : α → Wild α) (hf : ∀ a b, f a = .letter b → a = b) (w : List α) : Matches (w.map f) w := by
  induction w with
  | nil => exact .nil
  | cons a w ih =>
    rw [List.map_cons]
    cases h : f a with
    | many => exact .many [a] ih
    | one => exact .one a ih
    | letter b =>
      obtain rfl := hf a b h
      exact .letter a ih

theorem matches_append_iff : Matches (p ++ q) w ↔ ∃ u v, w = u ++ v ∧ Matches p u ∧ Matches q v := by
  constructor
  · intro h
    induction p generalizing w with
    | nil => exact ⟨[], w, rfl, .nil, h⟩
    | cons x p ih =>
      rw [List.cons_append] at h
      cases h with
      | many s h =>
        obtain ⟨u, v, rfl, hp, hq⟩ := ih h
        exact ⟨s ++ u, v, (List.append_assoc s u v).symm, .many s hp, hq⟩
      | one a h =>
        obtain ⟨u, v, rfl, hp, hq⟩ := ih h
        exact ⟨a :: u, v, rfl, .one a hp, hq⟩
      | letter a h =>
        obtain ⟨u, v, rfl, hp, hq⟩ := ih h
        exact ⟨a :: u, v, rfl, .letter a hp, hq⟩
  · rintro ⟨u, v, rfl, hp, hq⟩
    induction hp with
    | nil => exact hq
    | many s _ ih =>
      rw [List.append_assoc]
      exact .many s ih
    | one a _ ih => exact .one a ih
    | letter a _ ih => exact .letter a ih

end Wild

end Tg11Kernel.Lib
