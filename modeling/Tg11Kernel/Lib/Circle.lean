import Tg11Kernel.Lib.Bytes
import Mathlib.Algebra.Group.Fin.Basic
import Mathlib.Data.Fin.Basic
import Mathlib.Data.List.Basic
import Mathlib.Data.List.Nodup
import Mathlib.Logic.Function.Basic
import Mathlib.Tactic.Abel

/-! Circular lists. Links lead from a root through all members and back to the
root. A member can be put in behind the root, and one can be taken out by pointing
its predecessor past it; the circle read from any other member has the same
members. -/

namespace Tg11Kernel.Lib

variable {α : Type} {next next' : α → Option α} {root a b c t : α} {l l₁ l₂ : List α}

/-- From `a` the links go through `l` and then to `b`. -/
def Arc (next : α → Option α) (b : α) : α → List α → Prop
  | a, [] => next a = some b
  | a, c :: l => next a = some c ∧ Arc next b c l

namespace Arc

theorem append : Arc next b a (l₁ ++ c :: l₂) ↔ Arc next c a l₁ ∧ Arc next b c l₂ := by
  induction l₁ generalizing a with
  | nil => exact Iff.rfl
  | cons d l₁ ih => simp only [List.cons_append, Arc, ih, and_assoc]

theorem congr (h : Arc next b a l) (hl : ∀ d ∈ a :: l, next' d = next d) : Arc next' b a l := by
  induction l generalizing a with
  | nil => exact (hl a (by simp)).trans h
  | cons d l ih => exact ⟨(hl a (by simp)).trans h.1, ih h.2 fun e he => hl e (List.mem_cons_of_mem _ he)⟩

/-- The last member before the end of an arc. -/
def lastOf (a : α) : List α → α
  | [] => a
  | b :: l => lastOf b l

theorem lastOf_mem (a : α) (l : List α) : lastOf a l ∈ a :: l := by
  induction l generalizing a with
  | nil => simp [lastOf]
  | cons b l ih => exact List.mem_cons_of_mem _ (ih b)

variable [DecidableEq α]

/-- A member is taken out by pointing the one before it past it. -/
theorem bypass (h : Arc next b a (l₁ ++ t :: l₂)) (hnodup : (a :: (l₁ ++ t :: l₂)).Nodup) :
    Arc (Function.update next (lastOf a l₁) (next t)) b a (l₁ ++ l₂) := by
  induction l₁ generalizing a with
  | nil =>
    -- the arc now goes on from `a` as it went on from `t`
    have ht := (append.1 h).2
    have hkeep : ∀ d ∈ l₂, Function.update next a (next t) d = next d := by
      intro d hd
      apply Function.update_of_ne
      rintro rfl
      simp [hd] at hnodup
    cases l₂ with
    | nil => exact (Function.update_self ..).trans ht
    | cons c l₂ => exact ⟨(Function.update_self ..).trans ht.1, ht.2.congr fun d hd => hkeep d hd⟩
  | cons d l₁ ih =>
    have hne : a ≠ lastOf d l₁ := by
      intro heq
      have hmem := lastOf_mem d l₁
      rw [← heq] at hmem
      simp only [List.cons_append, List.nodup_cons, List.mem_cons, List.mem_append] at hnodup hmem
      tauto
    exact ⟨(Function.update_of_ne hne ..).trans h.1, ih h.2 (List.nodup_cons.1 hnodup).2⟩

end Arc

/-- The links lead from the root through the members `l` and back, past each place once. -/
structure Circle (next : α → Option α) (root : α) (l : List α) : Prop where
  arc : Arc next root root l
  nodup : (root :: l).Nodup

namespace Circle

theorem single (h : next root = some root) : Circle next root [] := ⟨h, by simp⟩

theorem congr (h : Circle next root l) (hl : ∀ d ∈ root :: l, next' d = next d) : Circle next' root l :=
  ⟨h.arc.congr hl, h.nodup⟩

/-- The same circle read from another place on it. -/
theorem rotate (h : Circle next root l) (ha : a ∈ root :: l) : ∃ l', Circle next a l' ∧ (a :: l').Perm (root :: l) := by
  rcases List.mem_cons.1 ha with rfl | ha
  · exact ⟨l, h, List.Perm.refl _⟩
  obtain ⟨l₁, l₂, rfl⟩ := List.append_of_mem ha
  obtain ⟨h₁, h₂⟩ := Arc.append.1 h.arc
  have hperm : (a :: (l₂ ++ root :: l₁)).Perm (root :: (l₁ ++ a :: l₂)) := by
    rw [← List.cons_append, ← List.cons_append]
    exact List.perm_append_comm
  exact ⟨l₂ ++ root :: l₁, ⟨Arc.append.2 ⟨h₂, h₁⟩, hperm.nodup_iff.2 h.nodup⟩, hperm⟩

variable [DecidableEq α]

/-- A new member behind the root. -/
theorem insert (h : Circle next root l) (ht : t ∉ root :: l) :
    Circle (Function.update (Function.update next t (next root)) root (some t)) root (t :: l) := by
  have hne : t ≠ root := fun heq => ht (by simp [heq])
  have hkeep : ∀ d ∈ l, Function.update (Function.update next t (next root)) root (some t) d = next d := by
    intro d hd
    rw [Function.update_of_ne, Function.update_of_ne]
    · rintro rfl
      exact ht (by simp [hd])
    · rintro rfl
      exact (List.nodup_cons.1 h.nodup).1 hd
  refine ⟨⟨Function.update_self .., ?_⟩, ?_⟩
  · have hnext : Function.update (Function.update next t (next root)) root (some t) t = next root := by
      rw [Function.update_of_ne hne, Function.update_self]
    cases l with
    | nil => exact hnext.trans h.arc
    | cons c l => exact ⟨hnext.trans h.arc.1, h.arc.2.congr fun d hd => hkeep d hd⟩
  · exact (List.Perm.swap root t l).nodup_iff.1 (List.nodup_cons.2 ⟨ht, h.nodup⟩)

theorem bypass (h : Circle next root (l₁ ++ t :: l₂)) :
    Circle (Function.update next (Arc.lastOf root l₁) (next t)) root (l₁ ++ l₂) := by
  refine ⟨h.arc.bypass h.nodup, h.nodup.sublist ?_⟩
  exact (List.Sublist.append_left (List.sublist_cons_self t l₂) l₁).cons_cons root

end Circle

end Tg11Kernel.Lib

/-! Ring buffers: a block of `n` bytes whose contents start at a head and wrap
round. Bytes leave at the head and enter after the last one; a byte written after
the last one is seen only when the count goes up. -/

namespace Tg11Kernel.Lib

variable {n : ℕ} (b : Block n)

/-- The `count` bytes from `head` on. -/
def ring (head count : ℕ) : List UInt8 := (List.range count).map fun i => b.get ((head + i) % n)

@[simp] theorem length_ring (head count : ℕ) : (ring b head count).length = count := by
  simp [ring]

@[simp] theorem ring_zero (head : ℕ) : ring b head 0 = [] := rfl

theorem ring_succ (head count : ℕ) : ring b head (count + 1) = ring b head count ++ [b.get ((head + count) % n)] := by
  simp [ring, List.range_succ]

/-- The head moves over the bytes that left. -/
theorem ring_add (head k m : ℕ) : ring b head (k + m) = ring b head k ++ ring b ((head + k) % n) m := by
  rw [ring, List.range_add, List.map_append, List.map_map]
  congr 1
  refine List.map_congr_left fun i _ => ?_
  rw [Function.comp_apply, Nat.mod_add_mod, Nat.add_assoc]

variable {b}

theorem add_mod_ne {head i j : ℕ} (hij : i < j) (hj : j < n) : (head + i) % n ≠ (head + j) % n := by
  intro h
  have hmod : (j - i) % n = 0 := by
    have hsub := Nat.sub_mod_eq_zero_of_mod_eq h.symm
    rwa [Nat.add_sub_add_left] at hsub
  rw [Nat.mod_eq_of_lt (by omega)] at hmod
  omega

theorem ring_set {head count j : ℕ} (v : UInt8) (hc : count ≤ j) (hj : j < n) :
    ring (b.set ((head + j) % n) v) head count = ring b head count := by
  refine List.map_congr_left fun i hi => ?_
  exact Block.get_set_ne b v (add_mod_ne (by rw [List.mem_range] at hi; omega) hj)

theorem ring_set_succ {head j : ℕ} (v : UInt8) (hj : j < n) :
    ring (b.set ((head + j) % n) v) head (j + 1) = ring b head j ++ [v] := by
  rw [ring_succ, ring_set v le_rfl hj, Block.get_set_self b v (Nat.mod_lt _ (by omega))]

end Tg11Kernel.Lib

/-! The slots of a circle from a head on before a tail. A producer advances the tail and a
consumer the head; when the two meet nothing lies between them, whether the consumer has
caught up with the producer or the producer with the consumer. -/

namespace Tg11Kernel.Lib

variable {n : ℕ} {head tail j : Fin (n + 1)}

/-- The slots in the order in which they are met. -/
def between (head tail : Fin (n + 1)) : List (Fin (n + 1)) :=
  (List.range (tail - head).val).map fun i => head + Fin.ofNat (n + 1) i

theorem mem_between : j ∈ between head tail ↔ (j - head).val < (tail - head).val := by
  simp only [between, List.mem_map, List.mem_range]
  constructor
  · rintro ⟨i, hi, rfl⟩
    have hlt := hi.trans (tail - head).isLt
    rwa [add_sub_cancel_left, Fin.val_ofNat, Nat.mod_eq_of_lt hlt]
  · intro h
    exact ⟨(j - head).val, h, by simp⟩

@[simp] theorem between_self (head : Fin (n + 1)) : between head head = [] := by
  simp [between]

theorem tail_not_mem_between (head tail : Fin (n + 1)) : tail ∉ between head tail := by
  simp [mem_between]

theorem head_mem_between (h : head ≠ tail) : head ∈ between head tail := by
  rw [mem_between, sub_self, Fin.val_zero]
  exact Nat.pos_of_ne_zero fun h0 => h (sub_eq_zero.1 (Fin.val_eq_zero_iff.1 h0)).symm

theorem nodup_between (head tail : Fin (n + 1)) : (between head tail).Nodup := by
  refine List.Nodup.map_on ?_ List.nodup_range
  intro i hi k hk heq
  have hlt := (tail - head).isLt
  rw [List.mem_range] at hi hk
  have hval := congrArg Fin.val (add_left_cancel heq)
  rwa [Fin.val_ofNat, Fin.val_ofNat, Nat.mod_eq_of_lt (by omega), Nat.mod_eq_of_lt (by omega)] at hval

/-- The producer advances: one slot more at the end, unless the tail meets the head. -/
theorem between_succ (h : tail + 1 ≠ head) : between head (tail + 1) = between head tail ++ [tail] := by
  have hlast : tail - head ≠ Fin.last n := by
    intro hl
    apply h
    have hzero : tail - head + 1 = 0 := by rw [hl, Fin.last_add_one]
    rwa [sub_add_eq_add_sub, sub_eq_zero] at hzero
  have hval : (tail + 1 - head).val = (tail - head).val + 1 := by
    rw [add_sub_right_comm, Fin.val_add_one, if_neg hlast]
  rw [between, hval, List.range_succ, List.map_append]
  simp [between]

theorem succ_not_mem_between (h : tail + 1 ≠ head) : tail + 1 ∉ between head tail := by
  intro hmem
  have hnot := tail_not_mem_between head (tail + 1)
  rw [between_succ h] at hnot
  exact hnot (List.mem_append_left _ hmem)

/-- The consumer advances: one slot less at the start. -/
theorem between_of_ne (h : head ≠ tail) : between head tail = head :: between (head + 1) tail := by
  have hne : tail - (head + 1) ≠ Fin.last n := by
    intro hl
    apply h
    have hzero : tail - (head + 1) + 1 = 0 := by rw [hl, Fin.last_add_one]
    have hsub : tail - (head + 1) + 1 = tail - head := by abel
    rw [hsub, sub_eq_zero] at hzero
    exact hzero.symm
  have hval : (tail - head).val = (tail - (head + 1)).val + 1 := by
    have hsub : tail - head = tail - (head + 1) + 1 := by abel
    rw [hsub, Fin.val_add_one, if_neg hne]
  rw [between, hval, List.range_succ_eq_map, List.map_cons, List.map_map]
  congr 1
  · simp
  · refine List.map_congr_left fun i _ => ?_
    have hone : Fin.ofNat (n + 1) (i + 1) = 1 + Fin.ofNat (n + 1) i := by
      apply Fin.ext
      simp [Fin.val_add, Nat.add_comm]
    rw [Function.comp_apply, Nat.succ_eq_add_one, hone, add_assoc]

theorem between_eq_nil : between head tail = [] ↔ head = tail := by
  constructor
  · intro hnil
    by_contra h
    rw [between_of_ne h] at hnil
    cases hnil
  · rintro rfl
    exact between_self _

end Tg11Kernel.Lib
