import Mathlib.Data.List.Induction

/-! A buffer whose front is overwritten by one block after the other. A place of the buffer
holds what the last block that reaches it has there, so a window of the buffer survives when
those blocks agree with it. -/

namespace Tg11Kernel.Lib

variable {α : Type}

/-- The block takes the front of the buffer. -/
def overlay (buf block : List α) : List α := block ++ buf.drop block.length

/-- Place `j` has the value `v` in the last of the blocks that reach it. -/
def LeavesAt (blocks : List (List α)) (j : ℕ) (v : Option α) : Prop :=
  ∀ done block rest, blocks = done ++ block :: rest → j < block.length → (∀ b ∈ rest, b.length ≤ j) → block[j]? = v

variable (buf : List α)

theorem getElem?_overlay (block : List α) (j : ℕ) :
    (overlay buf block)[j]? = if j < block.length then block[j]? else buf[j]? := by
  unfold overlay
  rw [List.getElem?_append]
  split_ifs with h
  · rfl
  · rw [List.getElem?_drop]
    congr 1
    omega

theorem leavesAt_nil (j : ℕ) (v : Option α) : LeavesAt [] j v := by
  intro done block rest heq
  simp at heq

variable {blocks : List (List α)} {block : List α} {j : ℕ} {v : Option α}

theorem leavesAt_reached (h : j < block.length) :
    LeavesAt (blocks ++ [block]) j v ↔ block[j]? = v := by
  constructor
  · intro hleaves
    exact hleaves blocks block [] rfl h nofun
  · intro hv done b rest heq hb hrest
    rcases List.eq_nil_or_concat rest with rfl | ⟨rest, last, rfl⟩
    · obtain ⟨-, rfl⟩ := List.append_inj' heq rfl |>.imp id fun h => by simpa using h
      exact hv
    · have hlast : block = last := by
        rw [List.concat_eq_append, ← List.cons_append, ← List.append_assoc] at heq
        simpa using (List.append_inj' heq rfl).2
      have hshort := hrest last (by simp)
      rw [← hlast] at hshort
      omega

theorem leavesAt_short (h : block.length ≤ j) :
    LeavesAt (blocks ++ [block]) j v ↔ LeavesAt blocks j v := by
  constructor
  · intro hleaves done b rest heq hb hrest
    apply hleaves done b (rest ++ [block])
    · rw [heq, List.append_assoc, List.cons_append]
    · exact hb
    · intro c hc
      rcases List.mem_append.1 hc with hc | hc
      · exact hrest c hc
      · rw [List.mem_singleton.1 hc]
        exact h
  · intro hleaves done b rest heq hb hrest
    rcases List.eq_nil_or_concat rest with rfl | ⟨rest, last, rfl⟩
    · have hblock : block = b := by simpa using (List.append_inj' heq rfl).2
      rw [← hblock] at hb
      omega
    · rw [List.concat_eq_append, ← List.cons_append, ← List.append_assoc] at heq
      apply hleaves done b rest (List.append_inj' heq rfl).1 hb
      intro c hc
      exact hrest c (by simp [hc])

/-- A place keeps its value exactly when the last block that reaches it has the same there. -/
theorem getElem?_foldl_overlay (blocks : List (List α)) (j : ℕ) :
    (blocks.foldl overlay buf)[j]? = buf[j]? ↔ LeavesAt blocks j buf[j]? := by
  induction blocks using List.reverseRecOn with
  | nil => exact iff_of_true rfl (leavesAt_nil j _)
  | append_singleton blocks block ih =>
    rw [List.foldl_append, List.foldl_cons, List.foldl_nil, getElem?_overlay]
    split_ifs with h
    · exact (leavesAt_reached h).symm
    · exact ih.trans (leavesAt_short (by omega)).symm

/-- The `k` elements from `o` on. -/
def window (buf : List α) (o k : ℕ) : List α := (buf.drop o).take k

theorem getElem?_window (o k j : ℕ) : (window buf o k)[j]? = if j < k then buf[o + j]? else none := by
  unfold window
  rw [List.getElem?_take, List.getElem?_drop]

theorem window_eq_iff (buf' : List α) (o k : ℕ) :
    window buf o k = window buf' o k ↔ ∀ j, o ≤ j → j < o + k → buf[j]? = buf'[j]? := by
  constructor
  · intro heq j ho hk
    have hj := congrArg (fun l : List α => l[j - o]?) heq
    rw [getElem?_window, getElem?_window, if_pos (by omega), if_pos (by omega)] at hj
    rwa [Nat.add_sub_cancel' ho] at hj
  · intro h
    apply List.ext_getElem?
    intro j
    rw [getElem?_window, getElem?_window]
    split_ifs with hj
    · exact h (o + j) (by omega) (by omega)
    · rfl

/-- A window survives when every place in it keeps its value. -/
theorem window_foldl_overlay (blocks : List (List α)) (o k : ℕ) :
    window (blocks.foldl overlay buf) o k = window buf o k ↔ ∀ j, o ≤ j → j < o + k → LeavesAt blocks j buf[j]? := by
  rw [window_eq_iff]
  constructor
  · intro h j ho hk
    exact (getElem?_foldl_overlay buf blocks j).1 (h j ho hk)
  · intro h j ho hk
    exact (getElem?_foldl_overlay buf blocks j).2 (h j ho hk)

/-- A window inside the block that was laid over is the window of the block. -/
theorem window_overlay {o k : ℕ} (h : o + k ≤ block.length) :
    window (overlay buf block) o k = window block o k := by
  rw [window_eq_iff]
  intro j _ hj
  rw [getElem?_overlay, if_pos (by omega)]

end Tg11Kernel.Lib
