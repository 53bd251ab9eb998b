import Mathlib.Data.Fintype.Basic
import Mathlib.Data.Fintype.Pi

/-! Fixed-size byte blocks with natural-number indices, and little-endian
numbers stored in them. Reading past the end gives zero and writing past the
end does nothing, so an index needs no proof; two blocks are equal when they
agree at every index inside. -/

namespace Tg11Kernel.Lib

/-- A block of `n` bytes. -/
def Block (n : ℕ) := Fin n → UInt8

namespace Block

variable {n m : ℕ}

instance : DecidableEq (Block n) := inferInstanceAs (DecidableEq (Fin n → UInt8))

def get (b : Block n) (i : ℕ) : UInt8 := if h : i < n then b ⟨i, h⟩ else 0

def set (b : Block n) (i : ℕ) (v : UInt8) : Block n := fun j => if j.val = i then v else b j

def zero : Block n := fun _ => 0

/-- The `m` bytes from `off` on. -/
def slice (b : Block n) (off m : ℕ) : Block m := fun j => b.get (off + j)

/-- Overwrite the bytes from `off` on by `c`. -/
def splice (b : Block n) (off : ℕ) (c : Block m) : Block n := fun j =>
  if off ≤ j.val ∧ j.val < off + m then c.get (j.val - off) else b j

variable {i : ℕ}

theorem get_of_lt (b : Block n) (h : i < n) : b.get i = b ⟨i, h⟩ := dif_pos h

theorem get_of_ge (b : Block n) (h : n ≤ i) : b.get i = 0 := dif_neg (by omega)

theorem ext_get {b c : Block n} (h : ∀ i < n, b.get i = c.get i) : b = c := by
  funext j
  simpa only [get_of_lt _ j.isLt] using h j.val j.isLt

theorem get_mk {f : Fin n → UInt8} (h : i < n) : get (n := n) f i = f ⟨i, h⟩ := dif_pos h

@[simp] theorem get_zero (i : ℕ) : (zero : Block n).get i = 0 := by
  by_cases h : i < n
  · rw [get_of_lt _ h]; rfl
  · rw [get_of_ge _ (by omega)]

section

variable (b : Block n)
include b

variable {i : ℕ}

theorem get_set (v : UInt8) (h : i < n) (j : ℕ) : (b.set i v).get j = if j = i then v else b.get j := by
  by_cases hj : j < n
  · rw [get_of_lt _ hj, get_of_lt _ hj, set]
  · rw [get_of_ge _ (by omega), get_of_ge _ (by omega), if_neg (by omega)]

@[simp] theorem get_set_self (v : UInt8) (h : i < n) : (b.set i v).get i = v := by
  rw [get_set b v h, if_pos rfl]

theorem get_set_ne {j : ℕ} (v : UInt8) (h : j ≠ i) : (b.set i v).get j = b.get j := by
  by_cases hj : j < n
  · rw [get_of_lt _ hj, get_of_lt _ hj, set, if_neg h]
  · rw [get_of_ge _ (by omega), get_of_ge _ (by omega)]

theorem get_slice (off : ℕ) (h : i < m) : (b.slice off m).get i = b.get (off + i) := by
  rw [get_of_lt _ h, slice]

section

variable (off : ℕ) (c : Block m) (h : off + m ≤ n)
include off c h

theorem get_splice (j : ℕ) : (b.splice off c).get j = if off ≤ j ∧ j < off + m then c.get (j - off) else b.get j := by
  by_cases hj : j < n
  · rw [get_of_lt _ hj, get_of_lt _ hj, splice]
  · rw [if_neg (by omega), get_of_ge _ (by omega), get_of_ge _ (by omega)]

theorem slice_splice_self : (b.splice off c).slice off m = c := by
  refine ext_get fun i hi => ?_
  rw [get_slice _ _ hi, get_splice _ _ _ h, if_pos (by omega), Nat.add_sub_cancel_left]

theorem slice_splice_disjoint {k : ℕ} (off' : ℕ)
    (hd : off' + k ≤ off ∨ off + m ≤ off') : (b.splice off c).slice off' k = b.slice off' k := by
  refine ext_get fun i hi => ?_
  rw [get_slice _ _ hi, get_slice _ _ hi, get_splice _ _ _ h, if_neg (by omega)]

end

end

end Block

/-! ### Texts in blocks -/

namespace Block

variable {n : ℕ}

/-- The bytes before the first NUL, or all of them. -/
def text (b : Block n) : List UInt8 := (List.ofFn b).takeWhile (· ≠ 0)

/-- There is a NUL to end the text. -/
def Terminated (b : Block n) : Prop := ∃ i, b i = 0

/-- Write the first bytes of a text, as many as leave room for a NUL, and the NUL. -/
def copyText (b : Block n) (s : List UInt8) : Block n := fun i =>
  if i.val < min s.length (n - 1) then s.getD i.val 0
  else if i.val = min s.length (n - 1) then 0
  else b i

theorem terminated_copyText (b : Block n) (s : List UInt8) (h : 0 < n) : (b.copyText s).Terminated := by
  have hlast : min s.length (n - 1) < n := by omega
  refine ⟨⟨_, hlast⟩, ?_⟩
  simp [copyText]

end Block

/-! ### Buffers that are filled from the start -/

namespace Block

variable {n : ℕ}

def firstBytes (b : Block n) (k : ℕ) : List UInt8 := (List.range k).map b.get

/-- Store a list from the start on, as far as it fits. -/
def store (b : Block n) (l : List UInt8) : Block n := fun i => l.getD i.val (b i)

variable (b : Block n)

@[simp] theorem length_firstBytes (k : ℕ) : (b.firstBytes k).length = k := by simp [firstBytes]

theorem firstBytes_succ (k : ℕ) : b.firstBytes (k + 1) = b.firstBytes k ++ [b.get k] := by
  simp [firstBytes, List.range_succ]

variable {l : List UInt8}

theorem firstBytes_eq {b : Block n} (h : ∀ i (hi : i < l.length), b.get i = l[i]) : b.firstBytes l.length = l := by
  refine List.ext_getElem (by simp) fun i hi hi' => ?_
  simp [firstBytes, h i hi']

theorem take_firstBytes (k m : ℕ) : (b.firstBytes k).take m = b.firstBytes (min m k) := by
  simp [firstBytes, ← List.map_take, List.take_range]

theorem get_store (hl : l.length ≤ n) {i : ℕ} (hi : i < l.length) : (b.store l).get i = l[i] := by
  rw [get_of_lt _ (hi.trans_le hl)]
  simp [store, hi]

theorem firstBytes_store (hl : l.length ≤ n) : (b.store l).firstBytes l.length = l :=
  firstBytes_eq fun _ hi => b.get_store hl hi

theorem firstBytes_set (k : ℕ) (v : UInt8) : (b.set k v).firstBytes k = b.firstBytes k := by
  refine List.map_congr_left fun i hi => ?_
  rw [get_set_ne _ _ (List.mem_range.1 hi).ne]

end Block

/-! ### Little-endian numbers -/

/-- The 16-bit number stored at `i`; the bytes are disjoint bits, so `|` is `+`. -/
def rd16 {n : ℕ} (b : Block n) (i : ℕ) : ℕ := (b.get i).toNat + 2 ^ 8 * (b.get (i + 1)).toNat

/-- The 32-bit number stored at `i`. -/
def rd32 {n : ℕ} (b : Block n) (i : ℕ) : ℕ :=
  (b.get i).toNat + 2 ^ 8 * (b.get (i + 1)).toNat + 2 ^ 16 * (b.get (i + 2)).toNat +
    2 ^ 24 * (b.get (i + 3)).toNat

/-- Byte `k` of a number, as `(v >> 8 * k) & 0xFF` computes it. -/
def byteOf (v k : ℕ) : UInt8 := UInt8.ofNat (v / 2 ^ (8 * k))

theorem byteOf_toNat (v k : ℕ) : (byteOf v k).toNat = v / 2 ^ (8 * k) % 256 := by
  simp [byteOf]

/-- The number whose lowest `n` bytes are given. -/
def ofBytes (f : ℕ → UInt8) : ℕ → ℕ
  | 0 => 0
  | n + 1 => (f 0).toNat + 2 ^ 8 * ofBytes (fun i => f (i + 1)) n

variable {n : ℕ}

theorem ofBytes_congr {f g : ℕ → UInt8} (h : ∀ i < n, f i = g i) : ofBytes f n = ofBytes g n := by
  induction n generalizing f g with
  | zero => rfl
  | succ n ih =>
    rw [ofBytes, ofBytes, h 0 (Nat.succ_pos n), ih fun i hi => h (i + 1) (Nat.succ_lt_succ hi)]

theorem ofBytes_lt (f : ℕ → UInt8) (n : ℕ) : ofBytes f n < 2 ^ (8 * n) := by
  induction n generalizing f with
  | zero => exact Nat.one_pos
  | succ n ih =>
    have hrest := ih fun i => f (i + 1)
    have hfirst := (f 0).toNat_lt
    rw [ofBytes, Nat.mul_succ, Nat.pow_add]
    omega

/-- The lowest bytes of a number are the number, up to what they can hold. -/
theorem ofBytes_byteOf (v n : ℕ) : ofBytes (byteOf v) n = v % 2 ^ (8 * n) := by
  induction n generalizing v with
  | zero => rw [ofBytes, Nat.mul_zero, Nat.pow_zero, Nat.mod_one]
  | succ n ih =>
    have hrest : (fun i => byteOf v (i + 1)) = byteOf (v / 2 ^ 8) := by
      funext i
      have hpow : 2 ^ (8 * (i + 1)) = 2 ^ 8 * 2 ^ (8 * i) := by
        rw [Nat.mul_succ, Nat.pow_add, Nat.mul_comm]
      unfold byteOf
      rw [hpow, Nat.div_div_eq_div_mul]
    have hpow : 2 ^ (8 * (n + 1)) = 2 ^ 8 * 2 ^ (8 * n) := by
      rw [Nat.mul_succ, Nat.pow_add, Nat.mul_comm]
    rw [ofBytes, hrest, ih, byteOf_toNat, Nat.mul_zero, Nat.pow_zero, Nat.div_one, hpow, Nat.mod_mul]
    rfl

theorem byteOf_ofBytes (f : ℕ → UInt8) {k : ℕ} (h : k < n) : byteOf (ofBytes f n) k = f k := by
  induction n generalizing f k with
  | zero => exact absurd h (Nat.not_lt_zero k)
  | succ n ih =>
    apply UInt8.toNat_inj.1
    rw [byteOf_toNat, ofBytes]
    have hfirst := (f 0).toNat_lt
    cases k with
    | zero =>
      rw [Nat.mul_zero, Nat.pow_zero, Nat.div_one]
      omega
    | succ k =>
      have hrest := congrArg UInt8.toNat (ih (fun i => f (i + 1)) (Nat.lt_of_succ_lt_succ h))
      rw [byteOf_toNat] at hrest
      have hpow : 2 ^ (8 * (k + 1)) = 2 ^ 8 * 2 ^ (8 * k) := by
        rw [Nat.mul_succ, Nat.pow_add, Nat.mul_comm]
      have hdiv : ((f 0).toNat + 2 ^ 8 * ofBytes (fun i => f (i + 1)) n) / 2 ^ 8 = ofBytes (fun i => f (i + 1)) n := by
        omega
      rw [hpow, ← Nat.div_div_eq_div_mul, hdiv]
      exact hrest

theorem rd16_lt (b : Block n) (i : ℕ) : rd16 b i < 2 ^ 16 := by
  have h0 := (b.get i).toNat_lt
  have h1 := (b.get (i + 1)).toNat_lt
  rw [rd16]
  omega

theorem rd32_lt (b : Block n) (i : ℕ) : rd32 b i < 2 ^ 32 := by
  have h0 := (b.get i).toNat_lt
  have h1 := (b.get (i + 1)).toNat_lt
  have h2 := (b.get (i + 2)).toNat_lt
  have h3 := (b.get (i + 3)).toNat_lt
  rw [rd32]
  omega

end Tg11Kernel.Lib
