import Tg11Kernel.Lib.Bytes
import Mathlib.Algebra.GroupWithZero.Nat
import Mathlib.Data.List.GetD

/-! A block that is filled downward: what is written goes directly below what was written before. So
everything lies in the order of the addresses, the last written first, and an area once written stays. -/

namespace Tg11Kernel.Lib

/-! ### Areas one behind the other -/

/-- The start and the length of each area, when areas of the given lengths follow each other. -/
def areas : ℕ → List ℕ → List (ℕ × ℕ)
  | _, [] => []
  | off, len :: lens => (off, len) :: areas (off + len) lens

/-- One area ends before the other starts. -/
def Before (x y : ℕ × ℕ) : Prop := x.1 + x.2 ≤ y.1

section Areas

variable {x y : ℕ × ℕ} {off : ℕ} {lens : List ℕ}

theorem inside_areas (h : x ∈ areas off lens) : off ≤ x.1 ∧ x.1 + x.2 ≤ off + lens.sum := by
  induction lens generalizing off with
  | nil => simp [areas] at h
  | cons len lens ih =>
    rw [List.sum_cons]
    rcases List.mem_cons.1 h with rfl | h
    · exact ⟨le_rfl, by simp⟩
    · have hrest := ih h
      omega

theorem pairwise_areas (off : ℕ) (lens : List ℕ) : (areas off lens).Pairwise Before := by
  induction lens generalizing off with
  | nil => simp [areas]
  | cons len lens ih => simpa [areas, ih, Before] using fun a b h => (inside_areas h).1

/-- Areas that follow each other twice over: the first ones end where the others start, or below. -/
theorem pairwise_areas_append {off' : ℕ} {others : List ℕ} (h : off + lens.sum ≤ off') :
    (areas off lens ++ areas off' others).Pairwise Before := by
  rw [List.pairwise_append]
  refine ⟨pairwise_areas _ _, pairwise_areas _ _, fun x hx y hy => ?_⟩
  have hbelow := inside_areas hx
  have habove := inside_areas hy
  unfold Before
  omega

theorem areas_replicate (off len k : ℕ) : areas off (List.replicate k len) = (List.range k).map fun i => (off + len * i, len) := by
  induction k generalizing off with
  | zero => rfl
  | succ k ih =>
    rw [List.replicate_succ, areas, ih, List.range_succ_eq_map, List.map_cons, List.map_map]
    congr 1
    refine List.map_congr_left fun i _ => ?_
    simp only [Function.comp_apply, Nat.mul_succ, Prod.mk.injEq, and_true]
    omega

end Areas

/-! ### What a block holds -/

namespace Block

variable {n off : ℕ} {b : Block n} {l m : List UInt8}

/-- Write the bytes of a list from `off` on. -/
def poke (b : Block n) (off : ℕ) (l : List UInt8) : Block n := fun j =>
  if off ≤ j.val ∧ j.val < off + l.length then l.getD (j.val - off) 0 else b j

/-- The bytes of a list stand in the block from `off` on. -/
structure Holds (b : Block n) (off : ℕ) (l : List UInt8) : Prop where
  inside : off + l.length ≤ n
  get : ∀ i < l.length, b.get (off + i) = l.getD i 0

theorem get_poke (b : Block n) (h : off + l.length ≤ n) (i : ℕ) :
    (b.poke off l).get i = if off ≤ i ∧ i < off + l.length then l.getD (i - off) 0 else b.get i := by
  by_cases hi : i < n
  · rw [get_of_lt _ hi, get_of_lt _ hi, poke]
  · rw [get_of_ge _ (by omega), get_of_ge _ (by omega), if_neg (by omega)]

theorem holds_nil (h : off ≤ n) : Holds b off [] := ⟨h, by simp⟩

theorem holds_append : Holds b off (l ++ m) ↔ Holds b off l ∧ Holds b (off + l.length) m := by
  constructor
  · rintro ⟨hin, hget⟩
    rw [List.length_append] at hin hget
    refine ⟨⟨by omega, fun i hi => ?_⟩, ⟨by omega, fun i hi => ?_⟩⟩
    · rw [hget i (by omega), List.getD_append _ _ _ _ hi]
    · rw [Nat.add_assoc, hget _ (by omega), List.getD_append_right _ _ _ _ (by omega), Nat.add_sub_cancel_left]
  · rintro ⟨hl, hm⟩
    have hin := hm.inside
    refine ⟨by simpa [Nat.add_assoc] using hin, fun i hi => ?_⟩
    rw [List.length_append] at hi
    by_cases hil : i < l.length
    · rw [hl.get i hil, List.getD_append _ _ _ _ hil]
    · have hget := hm.get (i - l.length) (by omega)
      rw [List.getD_append_right _ _ _ _ (by omega), ← hget]
      congr 1
      omega

theorem holds_poke (b : Block n) (h : off + l.length ≤ n) : Holds (b.poke off l) off l := by
  refine ⟨h, fun i hi => ?_⟩
  rw [get_poke b h, if_pos (by omega), Nat.add_sub_cancel_left]

theorem Holds.poke_below {off' : ℕ} (h : Holds b off m) (hle : off' + l.length ≤ off) : Holds (b.poke off' l) off m := by
  have hin := h.inside
  refine ⟨hin, fun i hi => ?_⟩
  rw [get_poke b (by omega), if_neg (by omega), h.get i hi]

/-- What is written directly below becomes the front of what is held. -/
theorem Holds.push (h : Holds b (off + l.length) m) : Holds (b.poke off l) off (l ++ m) :=
  holds_append.2 ⟨holds_poke b ((Nat.le_add_right _ _).trans h.inside), h.poke_below le_rfl⟩

/-- What is held area by area. -/
theorem Holds.flatMap {α : Type*} {f : α → List UInt8} {xs : List α} (h : Holds b off (xs.flatMap f)) {i : ℕ} {a : α} {x : ℕ × ℕ}
    (ha : xs[i]? = some a) (hx : (areas off (xs.map fun a => (f a).length))[i]? = some x) : Holds b x.1 (f a) := by
  induction xs generalizing off i with
  | nil => simp at ha
  | cons a' xs ih =>
    obtain ⟨hhead, htail⟩ := holds_append.1 h
    cases i with
    | zero =>
      simp only [List.map_cons, areas, List.getElem?_cons_zero, Option.some.injEq] at ha hx
      rwa [← ha, ← hx]
    | succ i => exact ih htail ha hx

/-! ### Words -/

/-- The eight bytes of a word, the lowest first. -/
def wordBytes (w : UInt64) : List UInt8 := (List.range 8).map (byteOf w.toNat)

/-- The word stored at `i`. -/
def rd64 (b : Block n) (i : ℕ) : UInt64 := UInt64.ofNat (ofBytes (fun k => b.get (i + k)) 8)

@[simp] theorem length_wordBytes (w : UInt64) : (wordBytes w).length = 8 := by simp [wordBytes]

theorem Holds.word {w : UInt64} (h : Holds b off (wordBytes w)) : b.rd64 off = w := by
  have hbytes : ofBytes (fun k => b.get (off + k)) 8 = ofBytes (byteOf w.toNat) 8 := by
    refine ofBytes_congr fun i hi => ?_
    rw [h.get i (by simpa using hi)]
    simp [wordBytes, hi]
  apply UInt64.toNat_inj.1
  rw [rd64, hbytes, ofBytes_byteOf, Nat.mod_eq_of_lt w.toNat_lt, UInt64.ofNat_toNat]

theorem Holds.words {words : List UInt64} {w : UInt64} (h : Holds b off (words.flatMap wordBytes)) {i : ℕ} (hi : words[i]? = some w) :
    b.rd64 (off + 8 * i) = w := by
  have harea : (areas off (words.map fun w => (wordBytes w).length))[i]? = some (off + 8 * i, 8) := by
    simp [areas_replicate, (List.getElem?_eq_some_iff.1 hi).1]
  exact (h.flatMap hi harea).word

end Block

end Tg11Kernel.Lib
