import Mathlib.Data.Nat.ModEq

/-! One's-complement sums of 16-bit words, as the Internet checksum uses them. Words are
taken from bytes in network order or in the order of a little-endian machine, an odd last
byte being completed by zero. Folding the carries of a sum keeps its remainder modulo
65535 and tells zero from a multiple of 65535; swapping the bytes of every word multiplies
the sum by 256. So a sum made in either order can be completed to one that verifies. -/

namespace Tg11Kernel.Lib

/-- Adds up the two halves of a sum while it has more than 16 bits. -/
def foldCarries (sum : ℕ) : ℕ :=
  if sum < 65536 then sum else foldCarries (sum % 65536 + sum / 65536)
termination_by sum
decreasing_by omega

/-- The end-around carry of one addition. -/
def onesAdd (a b : ℕ) : ℕ := (a + b) % 65536 + (a + b) / 65536

/-- The words of the bytes, in network order. -/
def bigWords : List UInt8 → List ℕ
  | [] => []
  | [a] => [256 * a.toNat]
  | a :: b :: l => (256 * a.toNat + b.toNat) :: bigWords l

/-- The words of the bytes, as a little-endian machine loads them. -/
def littleWords : List UInt8 → List ℕ
  | [] => []
  | [a] => [a.toNat]
  | a :: b :: l => (a.toNat + 256 * b.toNat) :: littleWords l

/-- The check of a receiver: the one's-complement sum of all words is `0xFFFF`. -/
def Verifies (l : List UInt8) : Prop := (bigWords l).foldl onesAdd 0 = 0xFFFF

instance (l : List UInt8) : Decidable (Verifies l) := inferInstanceAs (Decidable (_ = _))

/-! ### Folding -/

theorem halves_modEq (n : ℕ) : n % 65536 + n / 65536 ≡ n [MOD 65535] := by
  unfold Nat.ModEq
  omega

theorem foldCarries_lt (sum : ℕ) : foldCarries sum < 65536 := by
  induction sum using foldCarries.induct with
  | case1 sum h =>
    rw [foldCarries, if_pos h]
    exact h
  | case2 sum h ih =>
    rw [foldCarries, if_neg h]
    exact ih

theorem foldCarries_modEq (sum : ℕ) : foldCarries sum ≡ sum [MOD 65535] := by
  induction sum using foldCarries.induct with
  | case1 sum h => rw [foldCarries, if_pos h]
  | case2 sum h ih =>
    rw [foldCarries, if_neg h]
    exact ih.trans (halves_modEq sum)

/-! ### Sums of words -/

theorem foldl_onesAdd_modEq (ws : List ℕ) (a : ℕ) : ws.foldl onesAdd a ≡ a + ws.sum [MOD 65535] := by
  induction ws generalizing a with
  | nil => exact Nat.ModEq.refl _
  | cons w ws ih =>
    rw [List.foldl_cons, List.sum_cons, ← Nat.add_assoc]
    exact (ih (onesAdd a w)).trans ((halves_modEq (a + w)).add_right _)

variable {a n : ℕ} {ws : List ℕ} {l : List UInt8}

theorem onesAdd_lt {b : ℕ} (ha : a < 65536) (hb : b < 65536) : onesAdd a b < 65536 := by
  unfold onesAdd
  omega

theorem foldl_onesAdd_lt (hws : ∀ w ∈ ws, w < 65536) (ha : a < 65536) : ws.foldl onesAdd a < 65536 := by
  induction ws generalizing a with
  | nil => exact ha
  | cons w ws ih =>
    apply ih fun v hv => hws v (List.mem_cons_of_mem _ hv)
    exact onesAdd_lt ha (hws w (by simp))

theorem foldl_onesAdd_pos (h : 0 < a + ws.sum) : 0 < ws.foldl onesAdd a := by
  induction ws generalizing a with
  | nil => simpa using h
  | cons w ws ih =>
    rw [List.sum_cons, ← Nat.add_assoc] at h
    apply ih
    unfold onesAdd
    omega

/-- The sum of 16-bit words is `0xFFFF` when it is a multiple of 65535 but not zero. -/
theorem foldl_onesAdd_eq (hws : ∀ w ∈ ws, w < 65536) (hpos : 0 < ws.sum) (hsum : ws.sum ≡ 0 [MOD 65535]) :
    ws.foldl onesAdd 0 = 0xFFFF := by
  have hlt := foldl_onesAdd_lt hws (a := 0) (by decide)
  have hmod := foldl_onesAdd_modEq ws 0
  rw [Nat.zero_add] at hmod
  have hzero := hmod.trans hsum
  have hne : 0 < ws.foldl onesAdd 0 := foldl_onesAdd_pos (by omega)
  unfold Nat.ModEq at hzero
  omega

theorem bigWords_lt (l : List UInt8) : ∀ w ∈ bigWords l, w < 65536 := by
  induction l using bigWords.induct with
  | case1 => simp [bigWords]
  | case2 a =>
    have ha := a.toNat_lt
    simp only [bigWords, List.mem_singleton, forall_eq]
    omega
  | case3 a b l ih =>
    have ha := a.toNat_lt
    have hb := b.toNat_lt
    intro w hw
    rw [bigWords, List.mem_cons] at hw
    rcases hw with rfl | hw
    · omega
    · exact ih w hw

/-- The two orders. -/
theorem bigWords_sum_modEq (l : List UInt8) : (bigWords l).sum ≡ 256 * (littleWords l).sum [MOD 65535] := by
  induction l using bigWords.induct with
  | case1 => exact Nat.ModEq.refl _
  | case2 a => exact Nat.ModEq.refl _
  | case3 a b l ih =>
    rw [bigWords, littleWords, List.sum_cons, List.sum_cons, Nat.mul_add]
    apply Nat.ModEq.add _ ih
    unfold Nat.ModEq
    omega

theorem bigWords_sum_pos (h : 0 < (littleWords l).sum) : 0 < (bigWords l).sum := by
  induction l using bigWords.induct with
  | case1 => exact h
  | case2 a =>
    simp only [littleWords, bigWords, List.sum_cons, List.sum_nil] at h ⊢
    omega
  | case3 a b l ih =>
    rw [littleWords, List.sum_cons] at h
    rw [bigWords, List.sum_cons]
    by_cases hl : 0 < (littleWords l).sum
    · have hrest := ih hl
      omega
    · omega

theorem bigWords_append (hl : l.length % 2 = 0) (l' : List UInt8) :
    bigWords (l ++ l') = bigWords l ++ bigWords l' := by
  induction l using bigWords.induct with
  | case1 => rfl
  | case2 a => simp at hl
  | case3 a b l ih =>
    have hrest : l.length % 2 = 0 := by
      simp only [List.length_cons] at hl
      omega
    rw [List.cons_append, List.cons_append, bigWords, bigWords, ih hrest, List.cons_append]

/-! ### Completing a sum -/

/-- A sum with the complement of its folded form added. -/
theorem complement_modEq (n : ℕ) : n + (65535 - foldCarries n) ≡ 0 [MOD 65535] := by
  have hlt := foldCarries_lt n
  have hmod := foldCarries_modEq n
  unfold Nat.ModEq at hmod ⊢
  omega

theorem complement_pos (n : ℕ) : 0 < n + (65535 - foldCarries n) := by
  have hlt := foldCarries_lt n
  by_cases h : n = 0
  · subst h
    have hzero : foldCarries 0 = 0 := by
      rw [foldCarries]
      rfl
    rw [hzero]
    decide
  · omega

/-- Bytes whose little-endian sum is completed verify. -/
theorem verifies_of_little (h : (littleWords l).sum = n + (65535 - foldCarries n)) : Verifies l := by
  have hmod : (bigWords l).sum ≡ 0 [MOD 65535] := by
    apply (bigWords_sum_modEq l).trans
    rw [h]
    exact (complement_modEq n).mul_left 256
  exact foldl_onesAdd_eq (bigWords_lt l) (bigWords_sum_pos (h ▸ complement_pos n)) hmod

/-- Bytes whose sum in network order is completed verify. -/
theorem verifies_of_big (h : (bigWords l).sum = n + (65535 - foldCarries n)) : Verifies l :=
  foldl_onesAdd_eq (bigWords_lt l) (h ▸ complement_pos n) (h ▸ complement_modEq n)

end Tg11Kernel.Lib
