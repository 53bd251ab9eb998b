import Tg11Kernel.Lib.Bytes
import Tg11Kernel.Lib.Exec
import Mathlib.Data.List.TakeWhile

/-! Programs that work on byte arrays. A buffer is an array that sits in the state. An
access outside its array is an error return, so a program returns from a state exactly
when all its accesses are inside. A loop that writes to one buffer leaves the rest of
the state alone, whatever its order is. -/

namespace Tg11Kernel.Lib

instance {n : ℕ} (b : Block n) : Decidable b.Terminated :=
  decidable_of_iff (∃ i : Fin n, b.get i = 0) (exists_congr fun i => by rw [Block.get_of_lt b i.isLt])

/-- A text that ends inside its block is shorter than the block. -/
theorem Block.length_text_lt {n : ℕ} {b : Block n} (h : b.Terminated) : b.text.length < n := by
  obtain ⟨i, hi⟩ := h
  have hlen : (List.ofFn b).length = n := List.length_ofFn
  have hsub : b.text <+: List.ofFn b := List.takeWhile_prefix _
  have hne : b.text.length ≠ (List.ofFn b).length := by
    intro heq
    have hmem : b i ∈ b.text := by
      rw [hsub.eq_of_length heq]
      exact List.mem_ofFn.2 ⟨i, rfl⟩
    have hbyte := List.mem_takeWhile_imp hmem
    simp [hi] at hbyte
  have hle := hsub.length_le
  omega

/-- A list written over the bytes from `i` on. -/
def Block.overwrite {n : ℕ} (b : Block n) (i : ℕ) (l : List UInt8) : Block n := fun j =>
  if i ≤ j.val ∧ j.val < i + l.length then l.getD (j.val - i) 0 else b j

namespace Block

variable {n : ℕ} {b : Block n} {i k : ℕ} {l m : List UInt8}

theorem get_overwrite (hi : i + l.length ≤ n) (j : ℕ) :
    (b.overwrite i l).get j = if i ≤ j ∧ j < i + l.length then l.getD (j - i) 0 else b.get j := by
  by_cases hj : j < n
  · rw [get_of_lt _ hj, get_of_lt _ hj, overwrite]
  · rw [get_of_ge _ (by omega), get_of_ge _ (by omega), if_neg (by omega)]

theorem overwrite_nil : b.overwrite i [] = b := by
  funext j
  simp only [overwrite, List.length_nil, Nat.add_zero]
  rw [if_neg (by omega)]

theorem overwrite_cons {c : UInt8} : (b.set i c).overwrite (i + 1) l = b.overwrite i (c :: l) := by
  funext j
  simp only [overwrite, set, List.length_cons]
  by_cases hj : j.val = i
  · rw [if_neg (by omega), if_pos hj, if_pos (by omega), hj]
    simp
  · by_cases hin : i + 1 ≤ j.val ∧ j.val < i + 1 + l.length
    · have hsub : j.val - i = (j.val - (i + 1)) + 1 := by omega
      rw [if_pos hin, if_pos (by omega), hsub]
      simp
    · rw [if_neg hin, if_neg hj, if_neg (by omega)]

/-- Text that is appended to the first bytes. -/
theorem firstBytes_overwrite (hk : b.firstBytes k = l) (hm : k + m.length ≤ n) :
    (b.overwrite k m).firstBytes (k + m.length) = l ++ m := by
  have hlen : l.length = k := by rw [← hk, length_firstBytes]
  refine List.ext_getElem (by simp [hlen]) fun i hi _ => ?_
  rw [length_firstBytes] at hi
  simp only [firstBytes, List.getElem_map, List.getElem_range, get_overwrite hm]
  by_cases hik : i < k
  · rw [if_neg (by omega), List.getElem_append_left (by omega)]
    have hget : (b.firstBytes k)[i]? = some (b.get i) := by simp [firstBytes, hik]
    rw [hk, List.getElem?_eq_getElem (by omega)] at hget
    exact (Option.some.inj hget).symm
  · rw [if_pos (by omega), List.getElem_append_right (by omega), List.getD_eq_getElem?_getD,
      List.getElem?_eq_getElem (by omega), Option.getD_some]
    simp only [hlen]

end Block

/-- An array of `n` bytes in the state. -/
structure Buffer (σ : Type) (n : ℕ) where
  get : σ → Block n
  put : Block n → σ → σ
  get_put : ∀ b s, get (put b s) = b
  put_put : ∀ b c s, put b (put c s) = put b s
  put_get : ∀ s, put (get s) s = s

namespace Buffer

open Exec

variable {σ α : Type} {n : ℕ} (a : Buffer σ n)

/-- `a[i]` -/
def readAt (i : ℕ) : Exec σ UInt8 := do
  Exec.require (i < n)
  Exec.gets fun s => (a.get s).get i

/-- `a[i] = c` -/
def writeAt (i : ℕ) (c : UInt8) : Exec σ Unit := do
  Exec.require (i < n)
  Exec.modify fun s => a.put ((a.get s).set i c) s

/-- `a[0]`, …, `a[k - 1]` -/
def readFirst (k : ℕ) : Exec σ (List UInt8) := do
  Exec.require (k ≤ n)
  Exec.gets fun s => (a.get s).firstBytes k

/-- The bytes before the first NUL, which has to be inside. -/
def readText : Exec σ (List UInt8) := do
  let b ← Exec.gets a.get
  Exec.require b.Terminated
  pure b.text

/-- Write a list from `i` on. -/
def writeFrom : ℕ → List UInt8 → Exec σ Unit
  | _, [] => pure ()
  | i, c :: l => do
    a.writeAt i c
    writeFrom (i + 1) l

/-! ### Steps of a program that returns -/

end Buffer

namespace Exec

/-- The whole state. -/
def state {σ : Type} : Exec σ σ := fun s => (.ok s, s)

theorem state_apply {σ : Type} (s : σ) : state s = (.ok s, s) := rfl

namespace Ends

variable {σ α β : Type} {s : σ} {T : β → σ → Prop} {E : σ → Prop}

theorem state_bind {f : σ → Exec σ β} (h : Ends (f s) s T E) : Ends (Exec.state >>= f) s T E := h

theorem modify_bind {g : σ → σ} {f : Unit → Exec σ β} (h : Ends (f ()) (g s) T E) : Ends (Exec.modify g >>= f) s T E := h

theorem ite {p : Prop} [Decidable p] {m m' : Exec σ β} (h : p → Ends m s T E) (h' : ¬ p → Ends m' s T E) :
    Ends (if p then m else m') s T E := by
  split_ifs with hp
  · exact h hp
  · exact h' hp

end Ends

end Exec

namespace Buffer

open Exec

variable {σ α : Type} {n : ℕ} (a : Buffer σ n)

/-! ### What the accesses do -/

/-- The states differ in the buffer only. -/
def Writes (s s' : σ) : Prop := ∃ b, s' = a.put b s

variable {a} {s s' s'' : σ} {i : ℕ} {c : UInt8} {β : Type} {T : β → σ → Prop} {E : σ → Prop}

theorem Writes.refl (s : σ) : a.Writes s s := ⟨a.get s, (a.put_get s).symm⟩

theorem Writes.trans (h : a.Writes s s') (h' : a.Writes s' s'') : a.Writes s s'' := by
  obtain ⟨b, rfl⟩ := h
  obtain ⟨c, rfl⟩ := h'
  exact ⟨c, a.put_put c b s⟩

theorem readAt_bind {f : UInt8 → Exec σ β} (hi : i < n) (h : Ends (f ((a.get s).get i)) s T E) :
    Ends (a.readAt i >>= f) s T E := by
  rw [readAt, require_pos hi]
  exact h

theorem readFirst_bind {f : List UInt8 → Exec σ β} {k : ℕ} (hk : k ≤ n) (h : Ends (f ((a.get s).firstBytes k)) s T E) :
    Ends (a.readFirst k >>= f) s T E := by
  rw [readFirst, require_pos hk]
  exact h

theorem readText_apply (ht : (a.get s).Terminated) : a.readText s = (.ok (a.get s).text, s) := by
  rw [readText, bind_ok (gets_apply a.get s), require_pos ht]
  rfl

theorem readText_bind {f : List UInt8 → Exec σ β} (ht : (a.get s).Terminated) (h : Ends (f (a.get s).text) s T E) :
    Ends (a.readText >>= f) s T E := by
  rw [Ends, bind_ok (readText_apply ht)]
  exact h

theorem writeAt_bind {f : Unit → Exec σ β} (hi : i < n) (h : Ends (f ()) (a.put ((a.get s).set i c) s) T E) :
    Ends (a.writeAt i c >>= f) s T E := by
  rw [writeAt, require_pos hi]
  exact h

theorem writeAt_ends {Q : Unit → σ → Prop} (hi : i < n) (h : Q () (a.put ((a.get s).set i c) s)) :
    Ends (a.writeAt i c) s Q E := by
  rw [writeAt, require_pos hi]
  exact Ends.modify h

/-- A loop whose passes write to the buffer only. -/
theorem forM_writes {γ : Type} {f : γ → Exec σ Unit} {l : List γ}
    (hf : ∀ x ∈ l, ∀ b, Ends (f x) (a.put b s) (fun _ s' => a.Writes s s') E) :
    Ends (l.forM f) s (fun _ s' => a.Writes s s') E := by
  apply Ends.forM (I := fun _ s' => a.Writes s s') (Writes.refl s)
  intro done rest x t hl hI
  obtain ⟨b, rfl⟩ := hI
  exact hf x (by simp [hl]) b

theorem writeFrom_apply {i : ℕ} {l : List UInt8} (hl : i + l.length ≤ n) :
    a.writeFrom i l s = (.ok (), a.put ((a.get s).overwrite i l) s) := by
  induction l generalizing i s with
  | nil =>
    rw [Block.overwrite_nil, a.put_get]
    rfl
  | cons c l ih =>
    rw [List.length_cons] at hl
    have hi : i < n := by omega
    have hwrite : a.writeAt i c s = (.ok (), a.put ((a.get s).set i c) s) := by
      rw [writeAt, require_pos hi]
      rfl
    rw [writeFrom, bind_ok hwrite, ih (by omega), a.get_put, a.put_put, Block.overwrite_cons]

/-- The list is in the buffer, and what is before it is as it was. -/
theorem writeFrom_ends {l : List UInt8} (hl : i + l.length ≤ n) :
    Ends (a.writeFrom i l) s (fun _ s' => ∃ b, s' = a.put b s ∧ (∀ j (hj : j < l.length), b.get (i + j) = l[j]) ∧
      ∀ j < i, b.get j = (a.get s).get j) E := by
  induction l generalizing i s with
  | nil => exact Ends.pure ⟨a.get s, (a.put_get s).symm, nofun, fun _ _ => rfl⟩
  | cons c l ih =>
    rw [List.length_cons] at hl
    have hi : i < n := by omega
    rw [writeFrom]
    apply writeAt_bind hi
    apply (ih (by omega)).mono
    · rintro _ _ ⟨b, rfl, hlist, hfront⟩
      rw [a.get_put] at hfront
      refine ⟨b, a.put_put b _ s, ?_, ?_⟩
      · intro j hj
        cases j with
        | zero => simp [hfront i (Nat.lt_succ_self i), Block.get_set_self _ c hi]
        | succ j =>
          have hrest := hlist j (by simpa using hj)
          rw [Nat.add_right_comm, Nat.add_assoc] at hrest
          simpa using hrest
      · intro j hj
        rw [hfront j (by omega), Block.get_set_ne _ c hj.ne]
    · exact fun _ h => h

end Buffer

end Tg11Kernel.Lib

/-! Text in an array that is edited in place. A loop that goes up moves bytes down over a gap
that closes, and a loop that goes down moves them up to open one; in this order no byte is
overwritten before it is moved. On the text, the one takes a part out and the other puts a part in. -/

namespace Tg11Kernel.Lib.Block

variable {n : ℕ}

/-- `for (i = start; i < start + count; i++) b[i] = b[i + width]` -/
def moveDown (b : Block n) (start width count : ℕ) : Block n :=
  (List.range' start count).foldl (fun b i => b.set i (b.get (i + width))) b

/-- `for (i = start + count; i > start; i--) b[i + width - 1] = b[i - 1]` -/
def moveUp (b : Block n) (start width count : ℕ) : Block n :=
  (List.range' start count).foldr (fun i b => b.set (i + width) (b.get i)) b

variable {b : Block n} {start stop width count len : ℕ} {t s : List UInt8}

theorem moveDown_succ (b : Block n) (start width count : ℕ) : b.moveDown start width (count + 1) =
    (b.moveDown start width count).set (start + count) ((b.moveDown start width count).get (start + count + width)) := by
  unfold moveDown
  rw [List.range'_concat, List.foldl_append, Nat.one_mul]
  rfl

theorem get_moveDown (hfits : start + count ≤ n) (j : ℕ) :
    (b.moveDown start width count).get j = if start ≤ j ∧ j < start + count then b.get (j + width) else b.get j := by
  induction count generalizing j with
  | zero => exact (if_neg (by omega)).symm
  | succ count ih =>
    have hread := ih (by omega) (start + count + width)
    rw [if_neg (by omega)] at hread
    rw [moveDown_succ]
    by_cases hj : j = start + count
    · rw [hj, get_set_self _ _ (by omega), hread, if_pos (by omega)]
    · rw [get_set_ne _ _ hj, ih (by omega)]
      by_cases hin : start ≤ j ∧ j < start + count
      · rw [if_pos hin, if_pos (by omega)]
      · rw [if_neg hin, if_neg (by omega)]

theorem get_moveUp (hfits : start + count + width ≤ n) (j : ℕ) :
    (b.moveUp start width count).get j = if start + width ≤ j ∧ j < start + count + width then b.get (j - width) else b.get j := by
  induction count generalizing start j with
  | zero => exact (if_neg (by omega)).symm
  | succ count ih =>
    have hread := @ih (start + 1) (by omega) start
    rw [if_neg (by omega)] at hread
    show ((b.moveUp (start + 1) width count).set (start + width) ((b.moveUp (start + 1) width count).get start)).get j = _
    rw [hread]
    by_cases hj : j = start + width
    · rw [hj, get_set_self _ _ (by omega), if_pos (by omega), Nat.add_sub_cancel]
    · rw [get_set_ne _ _ hj, ih (by omega)]
      by_cases hin : start + 1 + width ≤ j ∧ j < start + 1 + count + width
      · rw [if_pos hin, if_pos (by omega)]
      · rw [if_neg hin, if_neg (by omega)]

theorem getElem_firstBytes {i : ℕ} (hi : i < (b.firstBytes len).length) : (b.firstBytes len)[i] = b.get i := by
  simp [firstBytes]

/-- Closing a gap takes out what was in it. -/
theorem firstBytes_moveDown (hstart : start ≤ stop) (hstop : stop ≤ len) (hlen : len ≤ n) :
    (b.moveDown start (stop - start) (len - stop)).firstBytes (len - (stop - start)) =
      (b.firstBytes len).take start ++ (b.firstBytes len).drop stop := by
  refine List.ext_getElem ?_ fun i hi hi' => ?_
  · rw [length_firstBytes, List.length_append, List.length_take, List.length_drop, length_firstBytes]
    omega
  · rw [length_firstBytes] at hi
    rw [getElem_firstBytes, get_moveDown (by omega)]
    have htake : ((b.firstBytes len).take start).length = start := by
      rw [List.length_take, length_firstBytes]
      omega
    by_cases hfront : i < start
    · rw [if_neg (by omega), List.getElem_append_left (by omega), List.getElem_take, getElem_firstBytes]
    · rw [if_pos (by omega), List.getElem_append_right (by omega), List.getElem_drop, getElem_firstBytes, htake]
      congr 1
      omega

/-- Opening a gap and writing in it puts the text there. -/
theorem firstBytes_moveUp (hstart : start ≤ len) (hfits : len + s.length ≤ n) :
    ((b.moveUp start s.length (len - start)).overwrite start s).firstBytes (len + s.length) =
      (b.firstBytes len).take start ++ s ++ (b.firstBytes len).drop start := by
  refine List.ext_getElem ?_ fun i hi hi' => ?_
  · rw [length_firstBytes, List.length_append, List.length_append, List.length_take, List.length_drop, length_firstBytes]
    omega
  · rw [length_firstBytes] at hi
    rw [getElem_firstBytes, get_overwrite (by omega), get_moveUp (by omega)]
    have htake : ((b.firstBytes len).take start).length = start := by
      rw [List.length_take, length_firstBytes]
      omega
    have hfront : ((b.firstBytes len).take start ++ s).length = start + s.length := by rw [List.length_append, htake]
    by_cases hin : i < start + s.length
    · rw [List.getElem_append_left (by omega)]
      by_cases hlow : i < start
      · rw [if_neg (by omega), if_neg (by omega), List.getElem_append_left (by omega), List.getElem_take, getElem_firstBytes]
      · rw [if_pos (by omega), List.getElem_append_right (by omega), List.getD_eq_getElem?_getD, List.getElem?_eq_getElem (by omega),
          Option.getD_some]
        simp only [htake]
    · rw [if_neg (by omega), if_pos (by omega), List.getElem_append_right (by omega), List.getElem_drop, getElem_firstBytes, hfront]
      congr 1
      omega

end Tg11Kernel.Lib.Block
