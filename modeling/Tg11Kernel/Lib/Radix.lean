import Mathlib.Data.List.Induction
import Mathlib.Data.Nat.Bitwise

/-! Trees of tables. A store has an entry for every table and index; an entry may point
at a table of the next level. A tree is unshared down to a depth if no table stands at
two paths. Then a change of one entry is seen along one path only, and a fresh table can
be linked in at one. -/

namespace Tg11Kernel.Lib.Radix

variable {T I E : Type} {next : E → Option T} {s s' : T → I → E} {root : T} {d : ℕ}

/-- The table at the end of a path. -/
def walk (next : E → Option T) (s : T → I → E) : T → List I → Option T
  | t, [] => some t
  | t, i :: p => (next (s t i)).bind fun t' => walk next s t' p

@[simp] theorem walk_nil : walk next s root [] = some root := rfl

theorem walk_cons (i : I) (p : List I) :
    walk next s root (i :: p) = (next (s root i)).bind fun t => walk next s t p := rfl

theorem walk_concat (p : List I) (i : I) :
    walk next s root (p ++ [i]) = (walk next s root p).bind fun t => next (s t i) := by
  induction p generalizing root with
  | nil =>
    rw [List.nil_append, walk_cons, walk_nil, Option.bind_some]
    cases next (s root i) <;> rfl
  | cons j p ih =>
    rw [List.cons_append, walk_cons, walk_cons]
    cases next (s root j) with
    | none => rfl
    | some t => exact ih

/-- No table stands at two paths of length up to `d`. -/
def Unshared (next : E → Option T) (s : T → I → E) (root : T) (d : ℕ) : Prop :=
  ∀ p q t, p.length ≤ d → q.length ≤ d → walk next s root p = some t → walk next s root q = some t → p = q

/-- A table of the tree. -/
def Table (next : E → Option T) (s : T → I → E) (root : T) (d : ℕ) (t : T) : Prop :=
  ∃ p : List I, p.length ≤ d ∧ walk next s root p = some t

/-- Entries that point where they did before lead along the same paths. -/
theorem walk_congr (h : ∀ p t, p.length < d → walk next s root p = some t → ∀ i, next (s' t i) = next (s t i)) {q : List I}
    (hq : q.length ≤ d) : walk next s' root q = walk next s root q := by
  induction q using List.reverseRecOn with
  | nil => rfl
  | append_singleton q j ih =>
    rw [List.length_append, List.length_singleton] at hq
    rw [walk_concat, walk_concat, ih (Nat.le_of_succ_le hq)]
    cases hw : walk next s root q with
    | none => rfl
    | some t => exact h q t hq hw j

theorem Unshared.congr (hu : Unshared next s root d) (h : ∀ q : List I, q.length ≤ d → walk next s' root q = walk next s root q) :
    Unshared next s' root d := by
  intro p q t hp hq hwp hwq
  rw [h p hp] at hwp
  rw [h q hq] at hwq
  exact hu p q t hp hq hwp hwq

/-- A change that links a fresh table in at an entry which pointed nowhere. The fresh table
points nowhere itself, unless its entries are too deep to be followed. -/
structure Links (next : E → Option T) (s s' : T → I → E) (root : T) (d : ℕ) (p : List I) (i : I) (t fresh : T) : Prop where
  depth : p.length < d
  table : walk next s root p = some t
  empty : next (s t i) = none
  link : next (s' t i) = some fresh
  unused : ¬ Table next s root d fresh
  blank : p.length + 1 < d → ∀ j, next (s' fresh j) = none
  frame : ∀ u j, Table next s root d u → u ≠ t ∨ j ≠ i → next (s' u j) = next (s u j)

namespace Links

variable {p : List I} {i : I} {t fresh : T}

section

variable (h : Links next s s' root d p i t fresh) (hu : Unshared next s root d)
include h hu

/-- Only the path to the fresh table is new. -/
theorem walk_eq [DecidableEq I] {q : List I}
    (hq : q.length ≤ d) : walk next s' root q = if q = p ++ [i] then some fresh else walk next s root q := by
  induction q using List.reverseRecOn with
  | nil => simp
  | append_singleton q j ih =>
    rw [List.length_append, List.length_singleton] at hq
    rw [walk_concat, walk_concat, ih (Nat.le_of_succ_le hq)]
    by_cases hpi : q = p ++ [i]
    · -- below the fresh table
      have hne : q ++ [j] ≠ p ++ [i] := by
        rw [hpi]
        simp
      have hlen : p.length + 1 < d := by
        rw [hpi, List.length_append, List.length_singleton] at hq
        exact hq
      have hnone : walk next s root q = none := by
        rw [hpi, walk_concat, h.table]
        exact h.empty
      rw [if_pos hpi, if_neg hne, hnone]
      exact h.blank hlen j
    · rw [if_neg hpi]
      cases hw : walk next s root q with
      | none =>
        have hne : q ++ [j] ≠ p ++ [i] := by
          intro heq
          obtain ⟨rfl, -⟩ := List.append_inj' heq rfl
          rw [h.table] at hw
          cases hw
        rw [if_neg hne]
        rfl
      | some u =>
        have hmem : Table next s root d u := ⟨q, Nat.le_of_succ_le hq, hw⟩
        by_cases heq : q ++ [j] = p ++ [i]
        · obtain ⟨rfl, hji⟩ := List.append_inj' heq rfl
          obtain rfl : j = i := List.singleton_inj.1 hji
          rw [h.table] at hw
          obtain rfl := Option.some.inj hw
          rw [if_pos rfl]
          exact h.link
        · rw [if_neg heq]
          apply h.frame u j hmem
          by_contra hsame
          simp only [not_or, not_not] at hsame
          obtain ⟨rfl, rfl⟩ := hsame
          exact heq (by rw [hu q p u (Nat.le_of_succ_le hq) (Nat.le_of_lt h.depth) hw h.table])

theorem unshared [DecidableEq I] : Unshared next s' root d := by
  intro a b u ha hb hwa hwb
  rw [h.walk_eq hu ha] at hwa
  rw [h.walk_eq hu hb] at hwb
  split_ifs at hwa hwb with hpa hpb hpb
  · rw [hpa, hpb]
  · obtain rfl := Option.some.inj hwa
    exact absurd ⟨b, hb, hwb⟩ h.unused
  · obtain rfl := Option.some.inj hwb
    exact absurd ⟨a, ha, hwa⟩ h.unused
  · exact hu a b u ha hb hwa hwb

/-- The fresh table is the only new one. -/
theorem table_iff [DecidableEq I] {u : T} : Table next s' root d u ↔ u = fresh ∨ Table next s root d u := by
  constructor
  · rintro ⟨q, hq, hw⟩
    rw [h.walk_eq hu hq] at hw
    split_ifs at hw with hpi
    · exact .inl (Option.some.inj hw).symm
    · exact .inr ⟨q, hq, hw⟩
  · rintro (rfl | ⟨q, hq, hw⟩)
    · have hlen : (p ++ [i]).length ≤ d := by
        rw [List.length_append, List.length_singleton]
        exact h.depth
      refine ⟨p ++ [i], hlen, ?_⟩
      rw [h.walk_eq hu hlen, if_pos rfl]
    · refine ⟨q, hq, ?_⟩
      rw [h.walk_eq hu hq, if_neg ?_, hw]
      rintro rfl
      rw [walk_concat, h.table] at hw
      exact absurd (h.empty.symm.trans hw) nofun

end

end Links

end Tg11Kernel.Lib.Radix

/-! Masks of neighbouring bits. Such a mask cuts a part out of a number; one that clears the low bits
rounds down to a multiple of a power of two. -/

namespace Tg11Kernel.Lib

/-- A mask of neighbouring bits cuts out a part of a number. -/
theorem land_mask (n k w : ℕ) : n &&& (2 ^ w - 1) * 2 ^ k = n / 2 ^ k % 2 ^ w * 2 ^ k := by
  apply Nat.eq_of_testBit_eq
  intro i
  rw [Nat.testBit_and, Nat.testBit_mul_two_pow, Nat.testBit_mul_two_pow, Nat.testBit_two_pow_sub_one,
    Nat.testBit_mod_two_pow, Nat.testBit_div_two_pow]
  by_cases hi : k ≤ i
  · simp [hi, Nat.sub_add_cancel, Bool.and_comm]
  · simp [hi]

theorem and_toNat_of_mask (a : UInt64) {mask : UInt64} {k w : ℕ} (hmask : mask.toNat = (2 ^ w - 1) * 2 ^ k) :
    (a &&& mask).toNat = a.toNat / 2 ^ k % 2 ^ w * 2 ^ k := by
  rw [UInt64.toNat_and, hmask, land_mask]

/-- A mask that clears the low bits rounds down to a multiple of a power of two. -/
theorem andMask_toNat (v : UInt64) {mask : UInt64} {k : ℕ} (hk : k ≤ 64) (hmask : mask.toNat = (2 ^ (64 - k) - 1) * 2 ^ k) :
    (v &&& mask).toNat = v.toNat / 2 ^ k * 2 ^ k := by
  have hlt : v.toNat / 2 ^ k < 2 ^ (64 - k) := by
    rw [Nat.div_lt_iff_lt_mul (Nat.two_pow_pos k), ← Nat.pow_add, Nat.sub_add_cancel hk]
    exact v.toNat_lt
  rw [and_toNat_of_mask v hmask, Nat.mod_eq_of_lt hlt]

theorem lowMask_toNat (v : UInt64) {mask : UInt64} {k : ℕ} (hmask : mask.toNat = 2 ^ k - 1) : (v &&& mask).toNat = v.toNat % 2 ^ k := by
  rw [UInt64.toNat_and, hmask, Nat.and_two_pow_sub_one_eq_mod]

theorem add_sub_one (v w : UInt64) : v + w - 1 = v + (w - 1) := by
  rw [UInt64.sub_eq_add_neg, UInt64.add_assoc, ← UInt64.sub_eq_add_neg]

end Tg11Kernel.Lib
