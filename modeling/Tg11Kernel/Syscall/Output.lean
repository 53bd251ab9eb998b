import Tg11Kernel.Syscall.UserAccess
import Mathlib.Data.List.TakeWhile

/-! What a write to the terminal hands over. Both modes send the data on in chunks that
end with a NUL: a NUL among the data cuts its chunk short, and the mode that looks for the
NUL does not count the chunk that it is found in. -/

namespace Tg11Kernel.Syscall

open Lib Memory Exec

variable {ρ : Type} {out : Outside ρ} {s s' s'' : Kernel (ρ × List UInt8)} {addr : UInt64} {m n : ℕ}

/-- The rest of the kernel, with a record of what was handed to the terminal. -/
def Outside.recorded (out : Outside ρ) : Outside (ρ × List UInt8) where
  terminalReadLine size r := ((out.terminalReadLine size r.1).1, (out.terminalReadLine size r.1).2, r.2)
  terminalWrite line r := (out.terminalWrite line r.1, r.2 ++ line)
  terminalInputAvailable r := out.terminalInputAvailable r.1
  processCall num a1 a2 a3 a4 tables frames r :=
    let (o, tables, frames, rest) := out.processCall num a1 a2 a3 a4 tables frames r.1
    (o, tables, frames, rest, r.2)

/-- All that was handed to the terminal. -/
def Kernel.handed (s : Kernel (ρ × List UInt8)) : List UInt8 := s.rest.2

/-! ### Bytes in memory -/

theorem bytesAt_add (s : Kernel ρ) (m n : ℕ) (addr : UInt64) :
    s.bytesAt (m + n) addr = s.bytesAt m addr ++ s.bytesAt n (addr + UInt64.ofNat m) := by
  induction m generalizing addr with
  | zero => simp [Kernel.bytesAt]
  | succ m ih => rw [Nat.add_right_comm, Kernel.bytesAt, Kernel.bytesAt, ih, add_one_add_ofNat, List.cons_append]

/-- The string at an address, as far as it lies in `n` bytes. -/
def Kernel.strAt (s : Kernel ρ) (n : ℕ) (addr : UInt64) : List UInt8 := cString (s.bytesAt n addr)

theorem strAt_succ (s : Kernel ρ) (n : ℕ) (addr : UInt64) :
    s.strAt (n + 1) addr = if s.byteAt addr = 0 then [] else s.byteAt addr :: s.strAt n (addr + 1) := by
  unfold Kernel.strAt cString
  rw [Kernel.bytesAt, List.takeWhile_cons]
  by_cases hnul : s.byteAt addr = 0 <;> simp [hnul]

theorem length_strAt_le (s : Kernel ρ) (n : ℕ) (addr : UInt64) : (s.strAt n addr).length ≤ n := by
  have hle := (List.takeWhile_prefix (· ≠ (0 : UInt8)) (l := s.bytesAt n addr)).length_le
  rw [length_bytesAt] at hle
  simpa [Kernel.strAt, cString] using hle

/-- A string that fills its bytes goes on behind them. -/
theorem strAt_add (s : Kernel ρ) (m n : ℕ) (addr : UInt64) : s.strAt (m + n) addr =
    if (s.strAt m addr).length < m then s.strAt m addr else s.strAt m addr ++ s.strAt n (addr + UInt64.ofNat m) := by
  induction m generalizing addr with
  | zero => simp [Kernel.strAt, Kernel.bytesAt, cString]
  | succ m ih =>
    rw [Nat.add_right_comm, strAt_succ, strAt_succ, ih, add_one_add_ofNat]
    by_cases hnul : s.byteAt addr = 0
    · simp [hnul]
    · simp only [if_neg hnul, List.length_cons, Nat.add_lt_add_iff_right]
      split_ifs <;> rfl

/-- The bytes up to the NUL of a string, with the NUL, can be read. -/
def StrReadable (s : Kernel ρ) (n : ℕ) (addr : UInt64) : Prop :=
  ∀ i < n, i ≤ (s.strAt n addr).length → userAddrReadable s.tables (addr + UInt64.ofNat i) = true

def BytesReadable (s : Kernel ρ) (n : ℕ) (addr : UInt64) : Prop :=
  ∀ i < n, userAddrReadable s.tables (addr + UInt64.ofNat i) = true

theorem strReadable_succ {s : Kernel ρ} : StrReadable s (n + 1) addr ↔
    userAddrReadable s.tables addr = true ∧ (s.byteAt addr ≠ 0 → StrReadable s n (addr + 1)) := by
  unfold StrReadable
  rw [strAt_succ]
  constructor
  · intro h
    refine ⟨by simpa using h 0 (Nat.succ_pos n) (Nat.zero_le _), fun hnul i hi hle => ?_⟩
    rw [add_one_add_ofNat]
    apply h (i + 1) (Nat.succ_lt_succ hi)
    rw [if_neg hnul, List.length_cons]
    omega
  · rintro ⟨hread, hrest⟩ i hi hle
    cases i with
    | zero => simpa using hread
    | succ i =>
      by_cases hnul : s.byteAt addr = 0
      · rw [if_pos hnul] at hle
        simp at hle
      · rw [if_neg hnul, List.length_cons] at hle
        rw [← add_one_add_ofNat]
        exact hrest hnul i (by omega) (by omega)

theorem strReadable_add {s : Kernel ρ} : StrReadable s (m + n) addr ↔
    StrReadable s m addr ∧ (¬ (s.strAt m addr).length < m → StrReadable s n (addr + UInt64.ofNat m)) := by
  induction m generalizing addr with
  | zero => simp [StrReadable]
  | succ m ih =>
    rw [Nat.add_right_comm, strReadable_succ, strReadable_succ, ih, strAt_succ, add_one_add_ofNat]
    by_cases hnul : s.byteAt addr = 0
    · simp [hnul]
    · rw [if_neg hnul, List.length_cons, Nat.add_lt_add_iff_right]
      simp only [ne_eq, hnul, not_false_eq_true, true_implies]
      exact and_assoc.symm

theorem bytesReadable_add {s : Kernel ρ} : BytesReadable s (m + n) addr ↔
    BytesReadable s m addr ∧ BytesReadable s n (addr + UInt64.ofNat m) := by
  unfold BytesReadable
  constructor
  · intro h
    refine ⟨fun i hi => h i (by omega), fun i hi => ?_⟩
    rw [UInt64.add_assoc, ← UInt64.ofNat_add]
    exact h (m + i) (by omega)
  · rintro ⟨hm, hn⟩ i hi
    by_cases him : i < m
    · exact hm i him
    · have hrest := hn (i - m) (by omega)
      rw [UInt64.add_assoc, ← UInt64.ofNat_add, Nat.add_sub_cancel' (not_lt.1 him)] at hrest
      exact hrest

theorem bytesReadable_succ {s : Kernel ρ} : BytesReadable s (n + 1) addr ↔
    userAddrReadable s.tables addr = true ∧ BytesReadable s n (addr + 1) := by
  have hone : BytesReadable s 1 addr ↔ userAddrReadable s.tables addr = true := by simp [BytesReadable]
  rw [Nat.add_comm n 1, bytesReadable_add, hone]
  rfl

/-- Memory as it was, and what was handed to the terminal. -/
structure Sent (s s' : Kernel (ρ × List UInt8)) (bytes : List UInt8) : Prop where
  tables : s'.tables = s.tables
  frames : s'.frames = s.frames
  handed : s'.handed = s.handed ++ bytes

namespace Sent

theorem refl : Sent s s [] := ⟨rfl, rfl, by rw [List.append_nil]⟩

variable {l : List UInt8}

theorem trans {l' : List UInt8} (h : Sent s s' l) (h' : Sent s' s'' l') : Sent s s'' (l ++ l') :=
  ⟨h'.tables.trans h.tables, h'.frames.trans h.frames, by rw [h'.handed, h.handed, List.append_assoc]⟩

theorem byteAt (h : Sent s s' l) : s'.byteAt = s.byteAt := by
  funext addr
  rw [Kernel.byteAt, Kernel.byteAt, h.tables, h.frames]

theorem bytesAt (h : Sent s s' l) (n : ℕ) (addr : UInt64) : s'.bytesAt n addr = s.bytesAt n addr :=
  bytesAt_congr h.byteAt n addr

theorem strAt (h : Sent s s' l) (n : ℕ) (addr : UInt64) : s'.strAt n addr = s.strAt n addr := by
  unfold Kernel.strAt
  rw [h.bytesAt]

theorem noting (a : Access) : Sent s (s.noting a) [] := ⟨rfl, rfl, by rw [List.append_nil]; rfl⟩

end Sent

theorem terminalWrite_sent (chunk : List UInt8) (s : Kernel (ρ × List UInt8)) :
    ∃ s', terminalWrite out.recorded chunk s = (.ok (), s') ∧ Sent s s' (cString chunk) := ⟨_, rfl, rfl, rfl, rfl⟩

variable {l : List UInt8}

theorem StrReadable.congr (h : Sent s s' l) : StrReadable s' n addr ↔ StrReadable s n addr := by
  unfold StrReadable
  rw [h.strAt, h.tables]

theorem BytesReadable.congr (h : Sent s s' l) : BytesReadable s' n addr ↔ BytesReadable s n addr := by
  unfold BytesReadable
  rw [h.tables]

/-! ### The mode that looks for the NUL -/

/-- One chunk of a string, and whether its NUL was found. -/
theorem scanChunk_str (n : ℕ) (addr : UInt64) (s : Kernel (ρ × List UInt8)) :
    (StrReadable s n addr → ∃ s', scanChunk n addr s = (.ok (s.strAt n addr, decide ((s.strAt n addr).length < n)), s') ∧ Sent s s' []) ∧
      (¬ StrReadable s n addr → ∃ s', scanChunk n addr s = (.fail, s')) := by
  induction n generalizing addr s with
  | zero => exact ⟨fun _ => ⟨s, rfl, Sent.refl⟩, fun h => absurd (fun i hi => absurd hi (Nat.not_lt_zero i)) h⟩
  | succ n ih =>
    rw [strReadable_succ, strAt_succ, scanChunk]
    by_cases hread : userAddrReadable s.tables addr = true
    swap
    · rw [bind_fail (checkedLoad_neg hread)]
      exact ⟨fun h => absurd h.1 hread, fun _ => ⟨s, rfl⟩⟩
    have hnoted : Sent s (s.noting ⟨addr, false, s.byteAt addr⟩) [] := Sent.noting _
    rw [bind_ok (checkedLoad_pos hread)]
    by_cases hnul : s.byteAt addr = 0
    · rw [if_pos hnul, if_pos hnul]
      exact ⟨fun _ => ⟨_, rfl, hnoted⟩, fun h => absurd ⟨hread, fun h => absurd hnul h⟩ h⟩
    · obtain ⟨hok, hfail⟩ := ih (addr + 1) (s.noting ⟨addr, false, s.byteAt addr⟩)
      rw [StrReadable.congr hnoted, hnoted.strAt] at hok
      rw [StrReadable.congr hnoted] at hfail
      rw [if_neg hnul, if_neg hnul]
      constructor
      · rintro ⟨-, hrest⟩
        obtain ⟨s', hrun, hsent⟩ := hok (hrest hnul)
        refine ⟨s', ?_, by simpa using hnoted.trans hsent⟩
        rw [bind_ok hrun, List.length_cons]
        simp only [Nat.add_lt_add_iff_right]
        rfl
      · intro h
        obtain ⟨s', hrun⟩ := hfail fun hrest => h ⟨hread, fun _ => hrest⟩
        exact ⟨s', bind_fail hrun⟩

theorem cString_strAt (s : Kernel ρ) (n : ℕ) (addr : UInt64) : cString (s.strAt n addr) = s.strAt n addr := by
  unfold Kernel.strAt cString
  exact List.takeWhile_idem

theorem flushChunk_sent (chunk : List UInt8) (s : Kernel (ρ × List UInt8)) :
    ∃ s', flushChunk out.recorded chunk s = (.ok (), s') ∧ Sent s s' (cString chunk) := by
  unfold flushChunk
  by_cases hnil : chunk.length ≠ 0
  · rw [if_pos hnil]
    exact terminalWrite_sent chunk s
  · obtain rfl : chunk = [] := List.length_eq_zero_iff.1 (not_not.1 hnil)
    exact ⟨s, rfl, Sent.refl⟩

/-- The whole string is handed over, but only full chunks are counted. -/
theorem writeCstrLoop_sent (chunks : ℕ) (addr : UInt64) (total : ℕ) (s : Kernel (ρ × List UInt8)) :
    (StrReadable s (128 * chunks) addr → ∃ s', Sent s s' (s.strAt (128 * chunks) addr) ∧
      writeCstrLoop out.recorded chunks addr total s = (.ok (total + 128 * ((s.strAt (128 * chunks) addr).length / 128)), s')) ∧
      (¬ StrReadable s (128 * chunks) addr → ∃ s', writeCstrLoop out.recorded chunks addr total s = (.fail, s')) := by
  induction chunks generalizing addr total s with
  | zero =>
    have hempty : s.strAt (128 * 0) addr = [] := rfl
    rw [hempty]
    exact ⟨fun _ => ⟨s, Sent.refl, rfl⟩, fun h => absurd (fun i hi => absurd hi (Nat.not_lt_zero i)) h⟩
  | succ chunks ih =>
    obtain ⟨hok, hfail⟩ := scanChunk_str 128 addr s
    rw [Nat.mul_succ, Nat.add_comm (128 * chunks), strReadable_add, strAt_add, writeCstrLoop]
    by_cases hread : StrReadable s 128 addr
    swap
    · obtain ⟨s', hrun⟩ := hfail hread
      rw [bind_fail hrun]
      exact ⟨fun h => absurd h.1 hread, fun _ => ⟨s', rfl⟩⟩
    obtain ⟨s₁, hscan, hsent₁⟩ := hok hread
    obtain ⟨s₂, hflush, hsent₂⟩ := @flushChunk_sent ρ out (s.strAt 128 addr) s₁
    have hsent := hsent₁.trans hsent₂
    rw [List.nil_append, cString_strAt] at hsent
    rw [bind_ok hscan]
    dsimp only
    rw [bind_ok hflush]
    by_cases hshort : (s.strAt 128 addr).length < 128
    · rw [if_pos hshort, if_pos (decide_eq_true hshort), Nat.div_eq_of_lt hshort]
      exact ⟨fun _ => ⟨s₂, hsent, rfl⟩, fun h => absurd ⟨hread, fun h => absurd hshort h⟩ h⟩
    · have hfull : (s.strAt 128 addr).length = 128 := le_antisymm (length_strAt_le s 128 addr) (not_lt.1 hshort)
      obtain ⟨hok', hfail'⟩ := ih (addr + UInt64.ofNat 128) (total + 128) s₂
      rw [StrReadable.congr hsent, hsent.strAt] at hok'
      rw [StrReadable.congr hsent] at hfail'
      rw [if_neg hshort, if_neg (by simpa using hshort), hfull]
      have hnot : ¬ 128 < 128 := Nat.lt_irrefl 128
      constructor
      · rintro ⟨-, hrest⟩
        obtain ⟨s', hsent', hrun⟩ := hok' (hrest hnot)
        refine ⟨s', hsent.trans hsent', ?_⟩
        rw [hrun, List.length_append, hfull, Nat.add_div_left _ (by decide)]
        congr 2
        omega
      · intro h
        exact hfail' fun hrest => h ⟨hread, fun _ => hrest⟩

/-! ### The mode with a length -/

theorem length_cString_le (l : List UInt8) : (cString l).length ≤ l.length := (List.takeWhile_prefix _).length_le

theorem cString_eq_self_iff : cString l = l ↔ 0 ∉ l := by
  unfold cString
  rw [List.takeWhile_eq_self_iff]
  simp only [decide_eq_true_eq]
  exact ⟨fun h hmem => h 0 hmem rfl, fun h b hb hzero => h (hzero ▸ hb)⟩

theorem userCopyAscii_sent (n : ℕ) (addr : UInt64) (s : Kernel (ρ × List UInt8)) :
    (BytesReadable s n addr → ∃ s', userCopyAscii n addr s = (.ok (s.bytesAt n addr), s') ∧ Sent s s' []) ∧
      (¬ BytesReadable s n addr → ∃ s', userCopyAscii n addr s = (.fail, s')) := by
  induction n generalizing addr s with
  | zero => exact ⟨fun _ => ⟨s, rfl, Sent.refl⟩, fun h => absurd (fun i hi => absurd hi (Nat.not_lt_zero i)) h⟩
  | succ n ih =>
    rw [bytesReadable_succ, Kernel.bytesAt, userCopyAscii]
    by_cases hread : userAddrReadable s.tables addr = true
    swap
    · rw [bind_fail (checkedLoad_neg hread)]
      exact ⟨fun h => absurd h.1 hread, fun _ => ⟨s, rfl⟩⟩
    have hnoted : Sent s (s.noting ⟨addr, false, s.byteAt addr⟩) [] := Sent.noting _
    obtain ⟨hok, hfail⟩ := ih (addr + 1) (s.noting ⟨addr, false, s.byteAt addr⟩)
    rw [BytesReadable.congr hnoted, hnoted.bytesAt] at hok
    rw [BytesReadable.congr hnoted] at hfail
    rw [bind_ok (checkedLoad_pos hread)]
    constructor
    · rintro ⟨-, hrest⟩
      obtain ⟨s', hrun, hsent⟩ := hok hrest
      exact ⟨s', by rw [bind_ok hrun]; rfl, by simpa using hnoted.trans hsent⟩
    · intro h
      obtain ⟨s', hrun⟩ := hfail fun hrest => h ⟨hread, hrest⟩
      exact ⟨s', bind_fail hrun⟩

/-- All is counted, but the bytes are handed over whole only if there is no NUL among them. -/
theorem writeBytesLoop_sent (fuel remaining : ℕ) (addr : UInt64) (total : ℕ) (s : Kernel (ρ × List UInt8)) (hfuel : remaining ≤ fuel) :
    (BytesReadable s remaining addr → ∃ bytes s', Sent s s' bytes ∧ bytes.length ≤ remaining ∧
      (bytes = s.bytesAt remaining addr ↔ 0 ∉ s.bytesAt remaining addr) ∧
      writeBytesLoop out.recorded fuel remaining addr total s = (.ok (total + remaining), s')) ∧
      (¬ BytesReadable s remaining addr → ∃ s', writeBytesLoop out.recorded fuel remaining addr total s = (.fail, s')) := by
  induction fuel generalizing remaining addr total s with
  | zero =>
    obtain rfl : remaining = 0 := Nat.le_zero.1 hfuel
    exact ⟨fun _ => ⟨[], s, Sent.refl, le_rfl, by simp [Kernel.bytesAt], rfl⟩, fun h => absurd (fun i hi => absurd hi (Nat.not_lt_zero i)) h⟩
  | succ fuel ih =>
    by_cases hzero : remaining = 0
    · subst hzero
      exact ⟨fun _ => ⟨[], s, Sent.refl, le_rfl, by simp [Kernel.bytesAt], rfl⟩, fun h => absurd (fun i hi => absurd hi (Nat.not_lt_zero i)) h⟩
    have hsplit : remaining = min remaining 128 + (remaining - min remaining 128) := by omega
    have hbytes := bytesAt_add s (min remaining 128) (remaining - min remaining 128) addr
    have hreads : BytesReadable s (min remaining 128 + (remaining - min remaining 128)) addr ↔ _ := bytesReadable_add
    rw [← hsplit] at hbytes hreads
    obtain ⟨hok, hfail⟩ := userCopyAscii_sent (min remaining 128) addr s
    rw [hreads, hbytes, writeBytesLoop, if_pos hzero]
    by_cases hread : BytesReadable s (min remaining 128) addr
    swap
    · obtain ⟨s', hrun⟩ := hfail hread
      rw [bind_fail hrun]
      exact ⟨fun h => absurd h.1 hread, fun _ => ⟨s', rfl⟩⟩
    obtain ⟨s₁, hcopy, hsent₁⟩ := hok hread
    obtain ⟨s₂, hwrite, hsent₂⟩ := @terminalWrite_sent ρ out (s.bytesAt (min remaining 128) addr) s₁
    have hsent := hsent₁.trans hsent₂
    rw [List.nil_append] at hsent
    obtain ⟨hok', hfail'⟩ := ih (remaining - min remaining 128) (addr + UInt64.ofNat (min remaining 128)) (total + min remaining 128) s₂
      (by omega)
    rw [BytesReadable.congr hsent] at hok' hfail'
    simp only [hsent.bytesAt] at hok'
    rw [bind_ok hcopy, bind_ok hwrite]
    constructor
    · rintro ⟨-, hrest⟩
      obtain ⟨bytes, s', hsent', hlen, hiff, hrun⟩ := hok' hrest
      have hcut := length_cString_le (s.bytesAt (min remaining 128) addr)
      rw [length_bytesAt] at hcut
      refine ⟨_, s', hsent.trans hsent', ?_, ?_, ?_⟩
      · rw [List.length_append]
        omega
      · rw [List.mem_append, not_or, ← hiff, ← cString_eq_self_iff]
        constructor
        · intro heq
          -- the parts are no longer than they should be, so each has its full length
          have hparts := List.append_inj heq (by
            have hsum := congrArg List.length heq
            simp only [List.length_append, length_bytesAt] at hsum
            rw [length_bytesAt]
            omega)
          exact hparts
        · rintro ⟨hchunk, hrest⟩
          rw [hchunk, hrest]
      · rw [hrun]
        congr 2
        omega
    · intro h
      exact hfail' fun hrest => h ⟨hread, hrest⟩

/-! ### The call -/

/-- The bytes that a write is about: so many as asked for, or up to the NUL, but no more than the limit. -/
def writeLength (s : Kernel ρ) (userPtr lenOrZero : UInt64) : ℕ :=
  if lenOrZero = 0 then (s.strAt SYS_WRITE_MAX_BYTES userPtr).length else min lenOrZero.toNat SYS_WRITE_MAX_BYTES

/-- A write that returns a number has handed exactly that many bytes to the terminal, those at the address. -/
def WritesExactly (out : Outside ρ) (s : Kernel (ρ × List UInt8)) (userPtr lenOrZero : UInt64) : Prop :=
  ∀ n s', syscallWriteUser out.recorded userPtr lenOrZero s = (.ok n, s') →
    n = writeLength s userPtr lenOrZero ∧ s'.handed = s.handed ++ s.bytesAt n userPtr

/-- The addresses that the call reads are mapped. -/
def WriteReadable (s : Kernel ρ) (userPtr lenOrZero : UInt64) : Prop :=
  if lenOrZero = 0 then StrReadable s SYS_WRITE_MAX_BYTES userPtr else BytesReadable s (min lenOrZero.toNat SYS_WRITE_MAX_BYTES) userPtr

/-- The string is as long as some number of full chunks, or there is no NUL among the bytes asked for. -/
def ChunksFit (s : Kernel ρ) (userPtr lenOrZero : UInt64) : Prop :=
  if lenOrZero = 0 then 128 ∣ writeLength s userPtr lenOrZero else 0 ∉ s.bytesAt (writeLength s userPtr lenOrZero) userPtr

theorem bytesAt_length_strAt (s : Kernel ρ) (n : ℕ) (addr : UInt64) : s.bytesAt (s.strAt n addr).length addr = s.strAt n addr := by
  induction n generalizing addr with
  | zero => rfl
  | succ n ih =>
    rw [strAt_succ]
    split_ifs with hnul
    · rfl
    · rw [List.length_cons, Kernel.bytesAt, ih]

theorem writesExactly_iff (out : Outside ρ) (s : Kernel (ρ × List UInt8)) (userPtr lenOrZero : UInt64) :
    WritesExactly out s userPtr lenOrZero ↔
      (userPtr ≠ 0 → WriteReadable s userPtr lenOrZero → ChunksFit s userPtr lenOrZero) := by
  unfold WritesExactly WriteReadable ChunksFit syscallWriteUser writeLength
  by_cases hptr : userPtr = 0
  · rw [Exec.require_neg (not_not.2 hptr)]
    exact ⟨fun _ h => absurd hptr h, fun _ n s' h => nomatch h⟩
  rw [Exec.require_pos hptr]
  have hstart (m : M (ρ × List UInt8) ℕ) : ((pure () : M (ρ × List UInt8) Unit) >>= fun _ => m) s = m s := rfl
  rw [hstart]
  by_cases hlen : lenOrZero = 0
  · simp only [if_pos hlen]
    obtain ⟨hok, hfail⟩ := @writeCstrLoop_sent ρ out 32 userPtr 0 s
    rw [show 128 * 32 = SYS_WRITE_MAX_BYTES from rfl] at hok hfail
    by_cases hread : StrReadable s SYS_WRITE_MAX_BYTES userPtr
    swap
    · obtain ⟨s', hrun⟩ := hfail hread
      rw [hrun]
      exact ⟨fun _ _ h => absurd h hread, fun _ n s' h => nomatch h⟩
    obtain ⟨s', hsent, hrun⟩ := hok hread
    rw [hrun]
    constructor
    · intro h _ _
      obtain ⟨hn, -⟩ := h _ _ rfl
      rw [Nat.zero_add] at hn
      exact ⟨_, hn.symm⟩
    · intro h n s'' hpair
      obtain ⟨hres, rfl⟩ := Prod.mk.inj hpair
      obtain rfl := Outcome.ok.inj hres
      rw [Nat.zero_add, Nat.mul_div_cancel' (h hptr hread), bytesAt_length_strAt]
      exact ⟨rfl, hsent.handed⟩
  · simp only [if_neg hlen]
    obtain ⟨hok, hfail⟩ := @writeBytesLoop_sent ρ out (min lenOrZero.toNat SYS_WRITE_MAX_BYTES) (min lenOrZero.toNat SYS_WRITE_MAX_BYTES)
      userPtr 0 s le_rfl
    by_cases hread : BytesReadable s (min lenOrZero.toNat SYS_WRITE_MAX_BYTES) userPtr
    swap
    · obtain ⟨s', hrun⟩ := hfail hread
      rw [hrun]
      exact ⟨fun _ _ h => absurd h hread, fun _ n s' h => nomatch h⟩
    obtain ⟨bytes, s', hsent, -, hiff, hrun⟩ := hok hread
    rw [hrun, Nat.zero_add, ← hiff]
    constructor
    · intro h _ _
      obtain ⟨-, hhanded⟩ := h _ _ rfl
      rw [hsent.handed] at hhanded
      exact List.append_cancel_left hhanded
    · intro h n s'' hpair
      obtain ⟨hres, rfl⟩ := Prod.mk.inj hpair
      obtain rfl := Outcome.ok.inj hres
      exact ⟨rfl, by rw [hsent.handed, h hptr hread]⟩

/-- The string "A" in the memory. -/
def oneLetter : Kernel (Unit × List UInt8) :=
  Kernel.boot (lowTables (PAGE_FLAG_WRITABLE ||| PAGE_FLAG_USER)) (fun p => if p = 0x5000 then 65 else 0) Ramfs.blank ((), [])

/-- The letter is written, and the call returns 0. -/
theorem not_writesExactly : ¬ ∀ (s : Kernel (Unit × List UInt8)) (userPtr lenOrZero : UInt64), WritesExactly quietOutside s userPtr lenOrZero := by
  intro h
  have hrun : (syscallWriteUser quietOutside.recorded 0x5000 0 oneLetter).1 = .ok 0 := by decide
  have hlength : writeLength oneLetter 0x5000 0 = 1 := by decide
  have hexact := (h oneLetter 0x5000 0 0 _ (Prod.ext hrun rfl)).1
  rw [hlength] at hexact
  cases hexact

end Tg11Kernel.Syscall
