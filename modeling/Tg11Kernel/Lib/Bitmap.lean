import Mathlib.Data.Nat.Bitwise

/-! Bits packed eight to a byte. A bit is tested, set and cleared through the mask of its
place in its byte; a bit that was written is known, and no other bit changes. -/

namespace Tg11Kernel.Lib

/-- The bytes by index. -/
abbrev Bitmap := ℕ → UInt8

namespace Bitmap

/-- The mask of bit `i` in its byte. -/
def mask (i : ℕ) : UInt8 := 1 <<< UInt8.ofNat (i &&& 7)

def test (b : Bitmap) (i : ℕ) : Bool := b (i >>> 3) &&& mask i != 0

def set (b : Bitmap) (i : ℕ) : Bitmap := Function.update b (i >>> 3) (b (i >>> 3) ||| mask i)

def clear (b : Bitmap) (i : ℕ) : Bitmap := Function.update b (i >>> 3) (b (i >>> 3) &&& ~~~mask i)

theorem eq_of_place {i j : ℕ} (hbyte : i >>> 3 = j >>> 3) (hbit : i % 8 = j % 8) : i = j := by
  rw [Nat.shiftRight_eq_div_pow, Nat.shiftRight_eq_div_pow] at hbyte
  omega

theorem mask_toBitVec (i : ℕ) : (mask i).toBitVec = BitVec.twoPow 8 (i % 8) := by
  have hbits : ∀ k < 8, ((1 : UInt8) <<< UInt8.ofNat k).toBitVec = BitVec.twoPow 8 k := by decide
  have hmod : i &&& 7 = i % 8 := Nat.and_two_pow_sub_one_eq_mod i 3
  unfold mask
  rw [hmod]
  exact hbits (i % 8) (Nat.mod_lt i (by decide))

/-- A byte has the bit of a mask when its bits say so. -/
theorem and_mask_ne_zero (x : UInt8) (i : ℕ) : (x &&& mask i != 0) = x.toBitVec.getLsbD (i % 8) := by
  have hlt : i % 8 < 8 := Nat.mod_lt i (by decide)
  have hone : BitVec.twoPow 8 (i % 8) ≠ 0#8 := by
    intro hzero
    have hbit := congrArg (fun v : BitVec 8 => v.getLsbD (i % 8)) hzero
    simp [hlt] at hbit
  have heq : x &&& mask i = 0 ↔ x.toBitVec &&& BitVec.twoPow 8 (i % 8) = 0#8 := by
    rw [← UInt8.toBitVec_inj, UInt8.toBitVec_and, mask_toBitVec]
    rfl
  rw [BitVec.and_twoPow] at heq
  cases hx : x.toBitVec.getLsbD (i % 8) with
  | true =>
    rw [hx, if_pos rfl] at heq
    exact bne_iff_ne.2 fun h => hone (heq.1 h)
  | false =>
    rw [hx, if_neg Bool.false_ne_true] at heq
    rw [heq.2 rfl]
    rfl

variable (b : Bitmap)

theorem test_eq (i : ℕ) : b.test i = (b (i >>> 3)).toBitVec.getLsbD (i % 8) := and_mask_ne_zero _ i

theorem test_set (i j : ℕ) : (b.set i).test j = if j = i then true else b.test j := by
  have hlt : j % 8 < 8 := Nat.mod_lt j (by decide)
  rw [test_eq, test_eq, set]
  by_cases hbyte : j >>> 3 = i >>> 3
  · rw [hbyte, Function.update_self, UInt8.toBitVec_or, mask_toBitVec, BitVec.getLsbD_or, BitVec.getLsbD_twoPow]
    by_cases hij : j = i
    · simp [hij, Nat.mod_lt]
    · have hbit : i % 8 ≠ j % 8 := fun h => hij (eq_of_place hbyte h.symm)
      simp [hij, hbit]
  · have hij : j ≠ i := fun h => hbyte (by rw [h])
    rw [Function.update_of_ne hbyte, if_neg hij]

theorem test_clear (i j : ℕ) : (b.clear i).test j = if j = i then false else b.test j := by
  have hlt : j % 8 < 8 := Nat.mod_lt j (by decide)
  rw [test_eq, test_eq, clear]
  by_cases hbyte : j >>> 3 = i >>> 3
  · rw [hbyte, Function.update_self, UInt8.toBitVec_and, UInt8.toBitVec_not, mask_toBitVec, BitVec.getLsbD_and,
      BitVec.getLsbD_not, BitVec.getLsbD_twoPow]
    by_cases hij : j = i
    · simp [hij, Nat.mod_lt]
    · have hbit : i % 8 ≠ j % 8 := fun h => hij (eq_of_place hbyte h.symm)
      simp [hij, hbit, hlt]
  · have hij : j ≠ i := fun h => hbyte (by rw [h])
    rw [Function.update_of_ne hbyte, if_neg hij]

/-- A run of bits is set. -/
theorem test_setRun (start n j : ℕ) :
    ((List.range n).foldl (fun b i => b.set (start + i)) b).test j = if start ≤ j ∧ j < start + n then true else b.test j := by
  induction n with
  | zero =>
    rw [List.range_zero, List.foldl_nil, if_neg (by omega)]
  | succ n ih =>
    rw [List.range_succ, List.foldl_append, List.foldl_cons, List.foldl_nil, test_set, ih]
    by_cases hj : j = start + n
    · rw [if_pos hj, if_pos (by omega)]
    · rw [if_neg hj]
      by_cases hin : start ≤ j ∧ j < start + n
      · rw [if_pos hin, if_pos (by omega)]
      · rw [if_neg hin, if_neg (by omega)]

/-- A run of bits is cleared. -/
theorem test_clearRun (start n j : ℕ) :
    ((List.range n).foldl (fun b i => b.clear (start + i)) b).test j = if start ≤ j ∧ j < start + n then false else b.test j := by
  induction n with
  | zero =>
    rw [List.range_zero, List.foldl_nil, if_neg (by omega)]
  | succ n ih =>
    rw [List.range_succ, List.foldl_append, List.foldl_cons, List.foldl_nil, test_clear, ih]
    by_cases hj : j = start + n
    · rw [if_pos hj, if_pos (by omega)]
    · rw [if_neg hj]
      by_cases hin : start ≤ j ∧ j < start + n
      · rw [if_pos hin, if_pos (by omega)]
      · rw [if_neg hin, if_neg (by omega)]

/-- The bits determine the bytes. -/
theorem ext_test {b c : Bitmap} (h : ∀ i, b.test i = c.test i) : b = c := by
  funext k
  apply UInt8.toBitVec_inj.1
  apply BitVec.eq_of_getLsbD_eq
  intro j hj
  have hbyte : (8 * k + j) >>> 3 = k := by
    rw [Nat.shiftRight_eq_div_pow]
    omega
  have hbit : (8 * k + j) % 8 = j := by omega
  have hij := h (8 * k + j)
  rwa [test_eq, test_eq, hbyte, hbit] at hij

theorem test_ones (i : ℕ) : test (fun _ => 0xFF) i = true := by
  have hbits : ∀ k < 8, (0xFF : UInt8).toBitVec.getLsbD k = true := by decide
  rw [test_eq]
  exact hbits (i % 8) (Nat.mod_lt i (by decide))

end Bitmap

end Tg11Kernel.Lib
