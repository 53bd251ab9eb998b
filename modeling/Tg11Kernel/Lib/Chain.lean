import Mathlib.Combinatorics.Pigeonhole

/-! Following links. A structure linked by `next` is walked from a start until
`next` gives nothing. `stepN` is the place reached after so many steps; a walk
that comes back to a place it has passed never ends, and on finitely many places
that is the only way not to end. A walk that ends is a chain, the list of the
places on it. -/

namespace Tg11Kernel.Lib

variable {α : Type} {next : α → Option α} {a b : α}

/-- The place reached from `a` after `n` steps, if the walk gets that far. -/
def stepN (next : α → Option α) : ℕ → α → Option α
  | 0, a => some a
  | n + 1, a => (next a).bind (stepN next n)

theorem stepN_succ_of_some {n : ℕ} (h : next a = some b) : stepN next (n + 1) a = stepN next n b := by
  rw [stepN, h, Option.bind_some]

theorem stepN_succ_of_none {n : ℕ} (h : next a = none) : stepN next (n + 1) a = none := by
  rw [stepN, h, Option.bind_none]

theorem stepN_add (m n : ℕ) (a : α) : stepN next (m + n) a = (stepN next m a).bind (stepN next n) := by
  induction m generalizing a with
  | zero => rw [Nat.zero_add, stepN, Option.bind_some]
  | succ m ih =>
    rw [Nat.add_right_comm, stepN, stepN]
    cases next a with
    | none => rfl
    | some b => exact ih b

theorem stepN_prefix {m n : ℕ} (h : stepN next n a ≠ none) (hm : m ≤ n) : ∃ c, stepN next m a = some c := by
  refine Option.ne_none_iff_exists'.1 fun hnone => h ?_
  rw [← Nat.add_sub_cancel' hm, stepN_add, hnone, Option.bind_none]

/-- The walk comes back to a place it has passed. -/
def Lasso (next : α → Option α) (a : α) : Prop :=
  ∃ i j b, i < j ∧ stepN next i a = some b ∧ stepN next j a = some b

/-- A walk that comes back goes round for ever. -/
theorem Lasso.stepN_ne_none (h : Lasso next a) (n : ℕ) : stepN next n a ≠ none := by
  obtain ⟨i, j, b, hij, hi, hj⟩ := h
  have hback : stepN next (j - i) b = some b := by
    rw [show j = i + (j - i) by omega, stepN_add, hi, Option.bind_some] at hj
    exact hj
  have hloop : ∀ k, stepN next (i + k * (j - i)) a = some b := by
    intro k
    induction k with
    | zero => rw [Nat.zero_mul, Nat.add_zero, hi]
    | succ k ih =>
      rw [Nat.succ_mul, ← Nat.add_assoc, stepN_add, ih, Option.bind_some, hback]
  intro hnone
  obtain ⟨c, hc⟩ := stepN_prefix (n := i + n * (j - i)) (by rw [hloop n]; simp)
    (show n ≤ i + n * (j - i) from (Nat.le_mul_of_pos_right n (by omega)).trans (Nat.le_add_left _ _))
  rw [hnone] at hc
  simp at hc

/-- On a finite set of places, a walk as long as the set comes back. -/
theorem lasso_of_stepN_ne_none {s : Finset α} {n : ℕ} (hs : ∀ c, next c ≠ none → c ∈ s) (hn : s.card < n)
    (h : stepN next n a ≠ none) : Lasso next a := by
  have hget : ∀ i < n, ∃ c ∈ s, stepN next i a = some c := by
    intro i hi
    obtain ⟨c, hc⟩ := stepN_prefix h hi.le
    refine ⟨c, hs c fun hnone => h ?_, hc⟩
    rw [← Nat.add_sub_cancel' hi.le, stepN_add, hc, Option.bind_some, show n - i = (n - i - 1) + 1 by omega]
    exact stepN_succ_of_none hnone
  have : Nonempty α := ⟨a⟩
  choose! f hf hstep using hget
  have hcard : s.card < (Finset.range n).card := by rwa [Finset.card_range]
  obtain ⟨i, hi, j, hj, hne, heq⟩ := Finset.exists_ne_map_eq_of_card_lt_of_maps_to hcard
    fun i hi => hf i (Finset.mem_range.1 hi)
  rw [Finset.mem_range] at hi hj
  rcases lt_or_gt_of_ne hne with hij | hij
  · exact ⟨i, j, f i, hij, hstep i hi, heq ▸ hstep j hj⟩
  · exact ⟨j, i, f j, hij, hstep j hj, heq ▸ hstep i hi⟩

/-! ### Chains -/

/-- `l` is the whole walk from `o`: each place links to the one after it, and the
last one to nothing. -/
def IsChain (next : α → Option α) : Option α → List α → Prop
  | o, [] => o = none
  | o, a :: l => o = some a ∧ IsChain next (next a) l

namespace IsChain

variable {next' : α → Option α} {o : Option α} {l l' l₁ l₂ : List α}

@[simp] theorem nil_iff : IsChain next o [] ↔ o = none := Iff.rfl

@[simp] theorem cons_iff : IsChain next o (a :: l) ↔ o = some a ∧ IsChain next (next a) l := Iff.rfl

/-- A walk from one place goes one way. -/
theorem unique (h : IsChain next o l) (h' : IsChain next o l') : l = l' := by
  induction l generalizing o l' with
  | nil =>
    cases l' with
    | nil => rfl
    | cons b l' => simp [nil_iff.1 h] at h'
  | cons a l ih =>
    obtain ⟨rfl, h⟩ := h
    cases l' with
    | nil => simp at h'
    | cons b l' =>
      obtain ⟨hab, h'⟩ := h'
      obtain rfl : a = b := Option.some.inj hab
      rw [ih h h']

theorem head_mem (h : IsChain next (some a) l) : a ∈ l := by
  cases l with
  | nil => simp at h
  | cons b l => simp [Option.some.inj h.1]

/-- Only the links of its own places matter to a chain. -/
theorem congr (h : IsChain next o l) (hl : ∀ a ∈ l, next' a = next a) : IsChain next' o l := by
  induction l generalizing o with
  | nil => exact h
  | cons a l ih =>
    obtain ⟨ho, h⟩ := h
    refine ⟨ho, ?_⟩
    rw [hl a (by simp)]
    exact ih h fun b hb => hl b (by simp [hb])

theorem of_append_cons (h : IsChain next o (l₁ ++ a :: l₂)) : IsChain next (next a) l₂ := by
  induction l₁ generalizing o with
  | nil => exact h.2
  | cons b l₁ ih => exact ih h.2

/-- A walk that ends passes no place twice. -/
theorem nodup (h : IsChain next o l) : l.Nodup := by
  induction l generalizing o with
  | nil => exact List.nodup_nil
  | cons a l ih =>
    refine List.nodup_cons.2 ⟨fun ha => ?_, ih h.2⟩
    obtain ⟨l₁, l₂, rfl⟩ := List.append_of_mem ha
    -- from the second visit the walk would go on as from the first
    have hlen := congrArg List.length (h.2.unique (of_append_cons h.2))
    simp only [List.length_append, List.length_cons] at hlen
    omega

/-- A place is passed by a chain exactly if its own walk is the rest of it. -/
theorem exists_of_mem (h : IsChain next o l) (ha : a ∈ l) : ∃ l₂, IsChain next (some a) l₂ ∧ ∀ b ∈ l₂, b ∈ l := by
  obtain ⟨l₁, l₂, rfl⟩ := List.append_of_mem ha
  exact ⟨a :: l₂, ⟨rfl, of_append_cons h⟩, fun b hb => List.mem_append_right _ hb⟩

/-- One place linked to another chain that does not come back to it: every walk
still ends. -/
theorem redirect (h : IsChain next o l) (hne : ∀ b ≠ a, next' b = next b) (h' : IsChain next (next' a) l')
    (ha : a ∉ l') : ∃ l₂, IsChain next' o l₂ := by
  have hl' : IsChain next' (next' a) l' := h'.congr fun b hb => hne b fun hba => ha (hba ▸ hb)
  induction l generalizing o with
  | nil => exact ⟨[], h⟩
  | cons b l ih =>
    obtain ⟨rfl, h⟩ := h
    by_cases hb : b = a
    · exact ⟨b :: l', rfl, by rw [hb]; exact hl'⟩
    · obtain ⟨l₂, hl₂⟩ := ih h
      exact ⟨b :: l₂, rfl, by rw [hne b hb]; exact hl₂⟩

/-- A chain grows by one place at its end. -/
theorem snoc (h : IsChain next o (l ++ [a])) (hl : ∀ c ∈ l, next' c = next c) (ha : next' a = some b)
    (hb : next' b = none) : IsChain next' o (l ++ ([a] ++ [b])) := by
  induction l generalizing o with
  | nil => exact ⟨h.1, ha, hb⟩
  | cons c l ih =>
    refine ⟨h.1, ?_⟩
    rw [hl c (by simp)]
    exact ih h.2 fun d hd => hl d (by simp [hd])

theorem length_le [Fintype α] (h : IsChain next o l) : l.length ≤ Fintype.card α := h.nodup.length_le_card

end IsChain

end Tg11Kernel.Lib
