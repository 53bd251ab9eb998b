import Tg11Kernel.Syscall.UserMemory

/-! Which memory a system call reaches. The arguments and the state before a call
determine one span of user memory that it works through, and whether it loads or
stores there. The check of an address only asks whether it is mapped, so a call
stays within the caller's memory exactly if the part of the span that is mapped
belongs to the caller. -/

namespace Tg11Kernel.Syscall

open Lib Memory Exec

variable {ρ : Type} {out : Outside ρ} {s : Kernel ρ} {t : PageTables} {stops : UInt64 → Bool}

/-! ### Terminal output -/

theorem terminalWrite_touched (chunk : List UInt8) : Touched s (terminalWrite out chunk s).2 false [] :=
  Touched.nil rfl rfl rfl

theorem flushChunk_touched (chunk : List UInt8) : Touched s (flushChunk out chunk s).2 false [] := by
  rw [flushChunk]
  split_ifs
  · exact terminalWrite_touched chunk
  · exact Touched.refl

theorem flushChunk_ok (chunk : List UInt8) (s : Kernel ρ) : (flushChunk out chunk s).1 = .ok () := by
  rw [flushChunk]
  split_ifs <;> rfl

theorem writeBytesLoop_touched (fuel remaining : ℕ) (cursor : UInt64) (total : ℕ) (ht : s.tables = t)
    (hfuel : remaining ≤ fuel) :
    Touched s (writeBytesLoop out fuel remaining cursor total s).2 false (touched t never remaining cursor) := by
  induction fuel generalizing remaining cursor total s with
  | zero =>
    obtain rfl := Nat.le_zero.1 hfuel
    exact Touched.refl
  | succ fuel ih =>
    rw [writeBytesLoop]
    by_cases hzero : remaining = 0
    · subst hzero
      exact Touched.refl
    · rw [if_pos hzero]
      obtain ⟨htouched, hres⟩ := userCopyAscii_spec (min remaining 128) cursor ht
      have hsplit := @touched_add t never (min remaining 128) (remaining - min remaining 128) cursor
      rw [Nat.add_sub_cancel' (Nat.min_le_left _ _)] at hsplit
      rw [hsplit]
      refine htouched.bind (fun bytes s₁ hcopy => ?_) fun hend => ?_
      · rw [hcopy] at hres htouched
        split_ifs at hres ⊢
        refine (terminalWrite_touched bytes).bind_left (fun _ s₂ hwrite => ?_) fun hend => absurd rfl (hend ())
        have hwritten := @terminalWrite_touched ρ out s₁ bytes
        rw [hwrite] at hwritten
        exact ih _ _ _ (hwritten.tables.trans (htouched.tables.trans ht)) (by omega)
      · split_ifs at hres ⊢
        · exact absurd hres (hend _)
        · rfl

theorem writeCstrLoop_touched (chunks : ℕ) (cursor : UInt64) (total : ℕ) (ht : s.tables = t)
    (hstops : ∀ a, stops a = true ↔ s.byteAt a = 0) :
    Touched s (writeCstrLoop out chunks cursor total s).2 false (touched t stops (128 * chunks) cursor) := by
  induction chunks generalizing cursor total s with
  | zero => exact Touched.refl
  | succ chunks ih =>
    obtain ⟨htouched, hres⟩ := scanChunk_spec 128 cursor ht hstops
    rw [show 128 * (chunks + 1) = 128 + 128 * chunks by omega, touched_add, writeCstrLoop]
    refine htouched.bind (fun r s₁ hscan => ?_) fun hend => ?_
    · obtain ⟨chunk, ended⟩ := r
      rw [hscan] at hres htouched
      have hout := @flushChunk_touched ρ out s₁ chunk
      refine hout.bind_left (fun _ s₂ hwrite => ?_) fun hend => ?_
      · rw [hwrite] at hout
        have h₂ := htouched.trans hout
        cases ended with
        | true =>
          rw [if_pos rfl, if_neg fun hrun => ?_]
          · exact Touched.refl
          · rw [if_pos hrun] at hres
            simp at hres
        | false =>
          rw [if_neg Bool.false_ne_true, if_pos]
          · have hlen : chunk.length = 128 := by
              split_ifs at hres
              · obtain ⟨_, hchunk, hlen⟩ := hres
                simp only [Outcome.ok.injEq, Prod.mk.injEq, and_true] at hchunk
                rw [hchunk, hlen]
              · exact absurd rfl (hres chunk)
            rw [hlen]
            exact ih _ _ (h₂.tables.trans ht) fun a => by rw [h₂.byteAt]; exact hstops a
          · by_contra hrun
            rw [if_neg hrun] at hres
            exact hres chunk rfl
      · exact absurd (flushChunk_ok chunk s₁) (hend ())
    · rw [if_neg fun hrun => ?_]
      rw [if_pos hrun] at hres
      obtain ⟨chunk, hchunk, -⟩ := hres
      exact hend _ hchunk

/-! ### The span of a call -/

/-- The user memory a call may work through: from an address on, at most so many
bytes, up to a NUL or not. -/
structure Span where
  addr : UInt64
  length : ℕ
  write : Bool
  untilNul : Bool

def Kernel.isNul (s : Kernel ρ) (addr : UInt64) : Bool := s.byteAt addr = 0

/-- The addresses of a span that the check lets pass. -/
def Span.reached (s : Kernel ρ) (sp : Span) : List UInt64 :=
  touched s.tables (if sp.untilNul = true then s.isNul else never) sp.length sp.addr

/-- The addresses and the kind of access of a span that there may not be. -/
def reachedOf (s : Kernel ρ) : Option Span → List UInt64
  | none => []
  | some sp => sp.reached s

def writesOf : Option Span → Bool
  | none => false
  | some sp => sp.write

/-- `syscall_write_user` -/
def writeUserSpan (userPtr lenOrZero : UInt64) : Option Span :=
  if userPtr = 0 then none
  else if lenOrZero = 0 then some ⟨userPtr, SYS_WRITE_MAX_BYTES, false, true⟩
  else some ⟨userPtr, min lenOrZero.toNat SYS_WRITE_MAX_BYTES, false, false⟩

/-- A line from the terminal, with its NUL. -/
def readUserSpan (out : Outside ρ) (s : Kernel ρ) (userPtr capacity : UInt64) : Option Span :=
  if userPtr = 0 ∨ capacity = 0 then none
  else
    match (out.terminalReadLine (maxLine capacity.toNat + 1) s.rest).1 with
    | none => none
    | some line => some ⟨userPtr, ((cString line).take (maxLine capacity.toNat)).length + 1, true, false⟩

/-- What is left of a file behind the position of its descriptor. -/
def fileReadSpan (s : Kernel ρ) (slot : FdSlot) (userPtr : UInt64) (count : ℕ) : Option Span :=
  let e := s.fds slot
  if e.type = .file then
    match (Ramfs.readFile (some e.path) Ramfs.FS_MAX_FILE_SIZE s.ramfs).1 with
    | .ok tmp =>
      if e.pos.toNat ≥ tmp.length then none else some ⟨userPtr, min count (tmp.length - e.pos.toNat), true, false⟩
    | _ => none
  else none

def readFdSpan (out : Outside ρ) (s : Kernel ρ) (fd userPtr count : UInt64) : Option Span :=
  if fd = 0 then
    if count = 0 then none else readUserSpan out s userPtr count
  else
    match syscallFdSlotFromFd fd with
    | none => none
    | some slot =>
      let n := min count.toNat SYS_READ_MAX_BYTES
      if (s.fds slot).type = .none ∨ n = 0 then none
      else if (s.fds slot).type = .pipeRead then
        match (s.fds slot).pipeIdx with
        | none => none
        | some pi => some ⟨userPtr, min n (s.pipes pi).count, true, false⟩
      else fileReadSpan s slot userPtr n

def writeFdSpan (s : Kernel ρ) (fd userPtr lenOrZero : UInt64) : Option Span :=
  if fd = 1 ∨ fd = 2 then writeUserSpan userPtr lenOrZero
  else
    match syscallFdSlotFromFd fd with
    | none => none
    | some slot =>
      match (s.fds slot).pipeIdx with
      | none => none
      | some pi =>
        if (s.fds slot).type = .pipeWrite ∧ (s.pipes pi).readOpen = true then
          some ⟨userPtr, min (min lenOrZero.toNat SYS_WRITE_MAX_BYTES) (PIPE_BUF_SIZE - (s.pipes pi).count), false, false⟩
        else none

/-- The result array of `SYS_PIPE`, if there is a pipe to hand out. -/
def pipeSpan (s : Kernel ρ) (userArray : UInt64) : Option Span :=
  if userArray ≠ 0 ∧ (freePipe s.pipes).isSome = true ∧ (twoFreeSlots s.fds).isSome = true then
    some ⟨userArray, 16, true, false⟩
  else none

/-- The span that the arguments and the state before a call determine. -/
def userSpan (out : Outside ρ) (s : Kernel ρ) (num : ℕ) (a1 a2 a3 : UInt64) : Option Span :=
  if num = SYS_WRITE ∧ a1 ≥ 0x1000 then writeUserSpan a1 a2
  else if num = SYS_READ then readFdSpan out s a1 a2 a3
  else if num = SYS_WRITE then writeFdSpan s a1 a2 a3
  else if num = SYS_OPEN then (if a1 = 0 then none else some ⟨a1, SYSCALL_PATH_MAX - 1, false, true⟩)
  else if num = SYS_PIPE then pipeSpan s a1
  else none

/-! ### Each call works through its span -/

/-- From `s` to `s'` exactly the reached part of the span was touched. -/
def Works (s s' : Kernel ρ) (sp : Option Span) : Prop := Touched s s' (writesOf sp) (reachedOf s sp)

theorem isNul_iff (s : Kernel ρ) (a : UInt64) : s.isNul a = true ↔ s.byteAt a = 0 := decide_eq_true_iff

theorem syscallWriteUser_works (userPtr lenOrZero : UInt64) (s : Kernel ρ) :
    Works s (syscallWriteUser out userPtr lenOrZero s).2 (writeUserSpan userPtr lenOrZero) := by
  rw [writeUserSpan, syscallWriteUser]
  by_cases hptr : userPtr = 0
  · rw [if_pos hptr, require_neg (by simp [hptr])]
    exact Touched.refl
  · rw [if_neg hptr, require_pos hptr, pure_bind_eq]
    split_ifs
    · exact writeCstrLoop_touched 32 userPtr 0 rfl (isNul_iff s)
    · exact writeBytesLoop_touched _ _ userPtr 0 rfl le_rfl

/-- Calls of other subsystems reach no user memory. -/
theorem onRamfs_keeps {α : Type} (m : Ramfs.M α) : Keeps Kernel.memory (onRamfs m : M ρ α) := fun _ => rfl

theorem setFd_keeps (slot : FdSlot) (f : FdEntry → FdEntry) :
    Keeps Kernel.memory (setFd slot f : M ρ Unit) := fun _ => rfl

theorem setPipe_keeps (pi : PipeIdx) (f : PipeBuf → PipeBuf) :
    Keeps Kernel.memory (setPipe pi f : M ρ Unit) := fun _ => rfl

theorem userCopyCstr_works (userPath : UInt64) (s : Kernel ρ) : Works s (userCopyCstr userPath SYSCALL_PATH_MAX s).2
      (if userPath = 0 then none else some ⟨userPath, SYSCALL_PATH_MAX - 1, false, true⟩) := by
  rw [userCopyCstr]
  by_cases hptr : userPath = 0
  · rw [if_pos hptr, require_neg (by simp [hptr])]
    exact Touched.refl
  · rw [if_neg hptr, require_pos hptr, pure_bind_eq]
    exact userCopyCstrLoop_touched _ _ rfl (isNul_iff s)

theorem syscallOpenUser_works (userPath : UInt64) (s : Kernel ρ) : Works s (syscallOpenUser userPath s).2
      (if userPath = 0 then none else some ⟨userPath, SYSCALL_PATH_MAX - 1, false, true⟩) := by
  refine (userCopyCstr_works userPath s).bind_right fun path s₁ _ => Touched.of_keeps ?_
  refine Keeps.require_bind fun _ => (onRamfs_keeps _).bind fun r => ?_
  refine Keeps.require_bind fun _ => Keeps.gets_bind fun _ => ?_
  exact Keeps.ofOption_bind fun slot _ => (setFd_keeps slot _).bind fun _ => Keeps.pure

theorem syscallReadUser_works (userPtr capacity : UInt64) (s : Kernel ρ) :
    Works s (syscallReadUser out userPtr capacity s).2 (readUserSpan out s userPtr capacity) := by
  rw [readUserSpan, syscallReadUser]
  by_cases hptr : userPtr = 0 ∨ capacity = 0
  · rw [if_pos hptr, require_neg (by simp [hptr])]
    exact Touched.refl
  · rw [if_neg hptr, require_pos hptr, pure_bind_eq, bind_apply, terminalReadLine]
    rcases out.terminalReadLine (maxLine capacity.toNat + 1) s.rest with ⟨_ | line, rest⟩
    · exact Touched.nil rfl rfl rfl
    · -- the line and its NUL are one run
      obtain ⟨hcopy, hres⟩ := userCopyOut_spec (s := { s with rest := rest }) (t := s.tables) userPtr
        ((cString line).take (maxLine capacity.toNat)) rfl
      have hrest : Touched s { s with rest := rest } true [] := Touched.nil rfl rfl rfl
      show Touched s _ true (touched s.tables never (_ + 1) userPtr)
      rw [touched_add]
      refine hrest.trans (hcopy.bind (fun _ s₁ hs₁ => ?_) fun hend => ?_)
      · rw [hs₁] at hcopy hres
        split_ifs at hres ⊢
        exact (userCopyOut_spec _ [0] hcopy.tables).1.bind_right fun _ _ _ => Touched.refl
      · split_ifs at hres ⊢
        · exact absurd hres (hend ())
        · rfl

theorem pipeDrain_touched (pi : PipeIdx) (userPtr : UInt64) (n i : ℕ) (ht : s.tables = t) :
    Touched s (pipeDrain pi userPtr n i s).2 true (touched t never n (userPtr + UInt64.ofNat i)) := by
  induction n generalizing i s with
  | zero => exact Touched.refl
  | succ n ih =>
    subst ht
    rw [touched, pipeDrain, bind_ok (gets_apply _ s), add_ofNat_add_one]
    by_cases hread : userAddrReadable s.tables (userPtr + UInt64.ofNat i) = true
    · rw [bind_ok (userCopyOut_one_pos hread _), if_pos hread]
      exact (Touched.store _).trans (ih (i + 1) rfl)
    · rw [bind_fail (userCopyOut_one_neg hread _), if_neg hread]
      exact Touched.refl

theorem pipeFill_touched (pi : PipeIdx) (userPtr : UInt64) (n i : ℕ) (ht : s.tables = t) :
    Touched s (pipeFill pi userPtr n i s).2 false (touched t never n (userPtr + UInt64.ofNat i)) := by
  induction n generalizing i s with
  | zero => exact Touched.refl
  | succ n ih =>
    subst ht
    rw [touched, pipeFill, add_ofNat_add_one]
    by_cases hread : userAddrReadable s.tables (userPtr + UInt64.ofNat i) = true
    · rw [bind_ok (checkedLoad_pos hread), if_pos hread]
      refine Touched.load.trans ((Touched.of_keeps (setPipe_keeps pi _)).bind_left (fun _ s₁ hs₁ => ?_) fun hend => ?_)
      · rw [setPipe, modify_apply] at hs₁
        obtain rfl := (Prod.mk.inj hs₁).2
        exact ih (i + 1) rfl
      · exact absurd rfl (hend ())
    · rw [bind_fail (checkedLoad_neg hread), if_neg hread]
      exact Touched.refl

theorem ite_lt_eq_min (a b : ℕ) : (if a < b then a else b) = min a b := by
  split_ifs <;> omega

theorem fileRead_works (slot : FdSlot) (userPtr : UInt64) (count : ℕ) (s : Kernel ρ) :
    Works s (fileRead slot userPtr count s).2 (fileReadSpan s slot userPtr count) := by
  rw [fileRead, fileReadSpan, bind_ok (gets_apply _ s)]
  dsimp only
  by_cases hfile : (s.fds slot).type = .file
  · rw [if_pos hfile, require_pos hfile, pure_bind_eq, bind_apply, onRamfs]
    rcases Ramfs.readFile (some (s.fds slot).path) Ramfs.FS_MAX_FILE_SIZE s.ramfs with ⟨tmp | _ | _, ramfs⟩
    · dsimp only
      by_cases hpos : (s.fds slot).pos.toNat ≥ tmp.length
      · rw [if_pos hpos, if_pos hpos]
        exact Touched.nil rfl rfl rfl
      · rw [if_neg hpos, if_neg hpos, ite_lt_eq_min]
        have hramfs : Touched s { s with ramfs := ramfs } true [] := Touched.nil rfl rfl rfl
        have hcopy := (userCopyOut_spec (s := { s with ramfs := ramfs }) (t := s.tables) userPtr
          ((tmp.drop (s.fds slot).pos.toNat).take (min count (tmp.length - (s.fds slot).pos.toNat))) rfl).1
        rw [List.length_take, List.length_drop, Nat.min_assoc, Nat.min_self] at hcopy
        refine hramfs.trans (hcopy.bind_right fun _ s₁ _ => Touched.of_keeps ?_)
        exact (setFd_keeps slot _).bind fun _ => Keeps.pure
    · exact Touched.nil rfl rfl rfl
    · exact Touched.nil rfl rfl rfl
  · rw [if_neg hfile, require_neg hfile]
    exact Touched.refl

/-- What stands before the memory is reached only reads the kernel's variables. -/
theorem openSlot_apply (fd : UInt64) (s : Kernel ρ) : openSlot fd s = match syscallFdSlotFromFd fd with
      | some slot => (if (s.fds slot).type = .none then .fail else .ok slot, s)
      | none => (.fail, s) := by
  rw [openSlot]
  cases syscallFdSlotFromFd fd with
  | none => rfl
  | some slot =>
    rw [ofOption_some, pure_bind_eq, bind_ok (gets_apply _ s)]
    by_cases htype : (s.fds slot).type = .none
    · rw [require_neg (by simp [htype]), fail_bind_eq]
      simp [htype]
    · rw [require_pos htype]
      simp [htype]

theorem pipeRead_works (pi : PipeIdx) (userPtr : UInt64) (count : ℕ) (s : Kernel ρ) :
    Works s (pipeRead pi userPtr count s).2 (some ⟨userPtr, min count (s.pipes pi).count, true, false⟩) := by
  rw [pipeRead, bind_ok (gets_apply _ s)]
  by_cases hzero : (s.pipes pi).count = 0
  · rw [if_pos hzero, hzero, Nat.min_zero]
    exact Touched.refl
  · rw [if_neg hzero, ite_lt_eq_min]
    have hdrain := pipeDrain_touched pi userPtr (min count (s.pipes pi).count) 0 (rfl : s.tables = s.tables)
    rw [show UInt64.ofNat 0 = 0 from rfl, UInt64.add_zero] at hdrain
    refine hdrain.bind_right fun _ _ _ => Touched.of_keeps ?_
    exact (setPipe_keeps pi _).bind fun _ => Keeps.pure

theorem syscallReadFd_works (fd userPtr count : UInt64) (s : Kernel ρ) :
    Works s (syscallReadFd out fd userPtr count s).2 (readFdSpan out s fd userPtr count) := by
  rw [syscallReadFd, readFdSpan]
  by_cases hfd : fd = 0
  · rw [if_pos hfd, if_pos hfd]
    split_ifs
    · exact Touched.refl
    · exact syscallReadUser_works userPtr count s
  · rw [if_neg hfd, if_neg hfd, bind_apply, openSlot_apply]
    cases syscallFdSlotFromFd fd with
    | none => exact Touched.refl
    | some slot =>
      dsimp only
      by_cases htype : (s.fds slot).type = .none
      · rw [if_pos htype, if_pos (.inl htype)]
        exact Touched.refl
      · rw [if_neg htype]
        dsimp only
        by_cases hcount : min count.toNat SYS_READ_MAX_BYTES = 0
        · rw [if_pos hcount, if_pos (.inr hcount)]
          exact Touched.refl
        · rw [if_neg hcount, if_neg (not_or.2 ⟨htype, hcount⟩), bind_ok (gets_apply _ s)]
          by_cases hread : (s.fds slot).type = .pipeRead
          · rw [if_pos hread, if_pos hread]
            cases (s.fds slot).pipeIdx with
            | none => exact Touched.refl
            | some pi => exact pipeRead_works pi userPtr _ s
          · rw [if_neg hread, if_neg hread]
            exact fileRead_works slot userPtr _ s

theorem pipeWrite_works (pi : PipeIdx) (userPtr : UInt64) (len : ℕ) (s : Kernel ρ) :
    Works s (pipeWrite pi userPtr len s).2
      (if (s.pipes pi).readOpen = true then
        some ⟨userPtr, min (min len SYS_WRITE_MAX_BYTES) (PIPE_BUF_SIZE - (s.pipes pi).count), false, false⟩
      else none) := by
  rw [pipeWrite, bind_ok (gets_apply _ s)]
  by_cases hopen : (s.pipes pi).readOpen = true
  · rw [if_pos hopen, require_pos hopen, pure_bind_eq]
    by_cases hlen : len = 0
    · rw [if_pos hlen, hlen, Nat.zero_min, Nat.zero_min]
      exact Touched.refl
    · rw [if_neg hlen, ite_lt_eq_min]
      by_cases htake : min (min len SYS_WRITE_MAX_BYTES) (PIPE_BUF_SIZE - (s.pipes pi).count) = 0
      · rw [if_pos htake, htake]
        exact Touched.refl
      · rw [if_neg htake]
        have hfill := pipeFill_touched pi userPtr
          (min (min len SYS_WRITE_MAX_BYTES) (PIPE_BUF_SIZE - (s.pipes pi).count)) 0 (rfl : s.tables = s.tables)
        rw [show UInt64.ofNat 0 = 0 from rfl, UInt64.add_zero] at hfill
        refine hfill.bind_right fun _ _ _ => Touched.of_keeps ?_
        exact (setPipe_keeps pi _).bind fun _ => Keeps.pure
  · rw [if_neg hopen, require_neg hopen]
    exact Touched.refl

theorem syscallWriteFd_works (fd userPtr lenOrZero : UInt64) (s : Kernel ρ) :
    Works s (syscallWriteFd out fd userPtr lenOrZero s).2 (writeFdSpan s fd userPtr lenOrZero) := by
  rw [syscallWriteFd, writeFdSpan]
  by_cases hfd : fd = 1 ∨ fd = 2
  · rw [if_pos hfd, if_pos hfd]
    exact syscallWriteUser_works userPtr lenOrZero s
  · rw [if_neg hfd, if_neg hfd]
    cases syscallFdSlotFromFd fd with
    | none => exact Touched.refl
    | some slot =>
      rw [ofOption_some, pure_bind_eq, bind_ok (gets_apply _ s)]
      dsimp only
      by_cases hwrite : (s.fds slot).type = .pipeWrite
      · rw [require_pos hwrite, pure_bind_eq]
        cases (s.fds slot).pipeIdx with
        | none => exact Touched.refl
        | some pi =>
          simp only [hwrite, true_and]
          exact pipeWrite_works pi userPtr lenOrZero.toNat s
      · rw [require_neg hwrite]
        cases (s.fds slot).pipeIdx with
        | none => exact Touched.refl
        | some pi =>
          simp only [hwrite, false_and, if_false]
          exact Touched.refl

@[simp] theorem length_wordBytes (v : ℕ) : (wordBytes v).length = 8 := by
  simp [wordBytes]

theorem openPipe_keeps (pi : PipeIdx) (slotR slotW : FdSlot) :
    Keeps Kernel.memory (openPipe pi slotR slotW : M ρ Unit) := fun _ => rfl

theorem abandonPipe_keeps (pi : PipeIdx) (slotR slotW : FdSlot) :
    Keeps Kernel.memory (abandonPipe pi slotR slotW : M ρ Unit) := fun _ => rfl

/-- The two numbers are one run of sixteen bytes. -/
theorem publishPipe_touched (userArray : UInt64) (slotR slotW : FdSlot) (ht : s.tables = t) :
    Touched s (publishPipe userArray slotR slotW s).2 true (touched t never (8 + 8) userArray) := by
  obtain ⟨hcopy, hres⟩ := userCopyOut_spec userArray (wordBytes (3 + slotR.val)) ht
  rw [length_wordBytes] at hcopy hres
  rw [touched_add]
  refine hcopy.bind (fun _ s₁ hs₁ => ?_) fun hend => ?_
  · rw [hs₁] at hcopy hres
    split_ifs at hres ⊢
    have hcopy' := (userCopyOut_spec (userArray + 8) (wordBytes (3 + slotW.val)) (hcopy.tables.trans ht)).1
    rwa [length_wordBytes] at hcopy'
  · split_ifs at hres ⊢
    · exact absurd hres (hend ())
    · rfl

theorem syscallDoPipe_works (userArray : UInt64) (s : Kernel ρ) :
    Works s (syscallDoPipe userArray s).2 (pipeSpan s userArray) := by
  rw [syscallDoPipe, pipeSpan]
  by_cases hptr : userArray = 0
  · rw [require_neg (by simp [hptr])]
    simp only [hptr, ne_eq, not_true_eq_false, false_and, if_false]
    exact Touched.refl
  rw [require_pos hptr, pure_bind_eq, bind_ok (gets_apply _ s)]
  cases freePipe s.pipes with
  | none =>
    simp only [Option.isSome_none, Bool.false_eq_true, false_and, and_false, if_false]
    exact Touched.refl
  | some pi =>
    rw [ofOption_some, pure_bind_eq, bind_ok (gets_apply _ s)]
    cases twoFreeSlots s.fds with
    | none =>
      simp only [Option.isSome_none, Bool.false_eq_true, and_false, if_false]
      exact Touched.refl
    | some slots =>
      rw [ofOption_some, pure_bind_eq, if_pos ⟨hptr, rfl, rfl⟩]
      have hopen : Touched s (openPipe pi slots.1 slots.2 s).2 true [] := Touched.of_keeps (openPipe_keeps pi _ _)
      refine hopen.bind_left (fun _ s₁ hs₁ => ?_) fun hend => absurd rfl (hend ())
      rw [hs₁] at hopen
      refine Touched.bind_right ?_ fun _ _ _ => Touched.refl
      exact (publishPipe_touched userArray _ _ hopen.tables).orElse (abandonPipe_keeps pi _ _)

/-! ### Calls without user memory -/

theorem openSlot_keeps {τ : Type} {g : Kernel ρ → τ} (fd : UInt64) : Keeps g (openSlot fd) :=
  Keeps.ofOption_bind fun _ _ => Keeps.gets_bind fun _ => Keeps.require_bind fun _ => Keeps.pure

theorem syscallCloseFd_keeps (fd : UInt64) : Keeps Kernel.memory (syscallCloseFd fd : M ρ ℕ) := by
  refine (openSlot_keeps fd).bind fun slot => Keeps.gets_bind fun e => Keeps.bind ?_ fun _ => ?_
  · rw [closePipeEnd]
    split <;> first | exact setPipe_keeps _ _ | exact Keeps.pure
  · exact (setFd_keeps slot _).bind fun _ => Keeps.pure

theorem syscallLseekFd_keeps (fd offset whence : UInt64) :
    Keeps Kernel.memory (syscallLseekFd fd offset whence : M ρ ℕ) := by
  refine Keeps.ofOption_bind fun slot _ => Keeps.gets_bind fun e => ?_
  refine Keeps.require_bind fun _ => (onRamfs_keeps _).bind fun r => ?_
  refine Keeps.require_bind fun _ => Keeps.ofOption_bind fun newPos _ => ?_
  exact (setFd_keeps slot _).bind fun _ => Keeps.pure

/-- A poll changes nothing at all. -/
theorem syscallDoPoll_keeps (fd : UInt64) : Keeps id (syscallDoPoll out fd : M ρ ℕ) := by
  rw [syscallDoPoll]
  split_ifs
  · exact Keeps.gets_bind fun _ => Keeps.pure
  · refine (openSlot_keeps fd).bind fun slot => Keeps.gets_bind fun e => ?_
    split_ifs
    · exact Keeps.ofOption_bind fun pi _ => Keeps.gets_bind fun p => Keeps.pure
    · exact Keeps.pure
    · exact Keeps.fail

/-! ### All calls -/

/-- The accesses that a call added. -/
def newAccesses (s s' : Kernel ρ) : List Access := s'.accesses.drop s.accesses.length

/-- The caller could have made the access itself. -/
def Permitted (t : PageTables) (addr : UInt64) (write : Bool) : Prop :=
  MappedWith t addr PAGE_FLAG_USER ∧ (write = true → MappedWith t addr PAGE_FLAG_WRITABLE)

instance (t : PageTables) (addr : UInt64) (write : Bool) : Decidable (Permitted t addr write) :=
  inferInstanceAs (Decidable (_ ∧ _))

/-- A call touches what its arguments and the state before it say. -/
theorem syscallDispatch_accesses (s : Kernel ρ) (num : ℕ) (a1 a2 a3 a4 : UInt64) :
    (newAccesses s (syscallDispatch out num a1 a2 a3 a4 s).2).map Access.addr = reachedOf s (userSpan out s num a1 a2 a3) ∧
      ∀ a ∈ newAccesses s (syscallDispatch out num a1 a2 a3 a4 s).2, a.write = writesOf (userSpan out s num a1 a2 a3) := by
  have works : ∀ {s' : Kernel ρ} {sp : Option Span}, Works s s' sp →
      (newAccesses s s').map Access.addr = reachedOf s sp ∧ ∀ a ∈ newAccesses s s', a.write = writesOf sp := by
    intro s' sp h
    obtain ⟨acc, hacc, haddr, hw⟩ := h.accesses
    rw [newAccesses, hacc, List.drop_left]
    exact ⟨haddr, hw⟩
  have quiet : ∀ {s' : Kernel ρ}, s'.accesses = s.accesses →
      (newAccesses s s').map Access.addr = [] ∧ ∀ a ∈ newAccesses s s', a.write = false := by
    intro s' h
    rw [newAccesses, h, List.drop_length]
    simp
  rw [syscallDispatch, userSpan]
  by_cases hold : num = SYS_WRITE ∧ a1 ≥ 0x1000
  · rw [if_pos hold, if_pos hold]
    exact works (syscallWriteUser_works a1 a2 s)
  rw [if_neg hold, if_neg hold]
  by_cases hread : num = SYS_READ
  · rw [if_pos hread, if_pos hread]
    exact works (syscallReadFd_works a1 a2 a3 s)
  rw [if_neg hread, if_neg hread]
  by_cases hwrite : num = SYS_WRITE
  · rw [if_pos hwrite, if_pos hwrite]
    exact works (syscallWriteFd_works a1 a2 a3 s)
  rw [if_neg hwrite, if_neg hwrite]
  by_cases hopen : num = SYS_OPEN
  · rw [if_pos hopen, if_pos hopen]
    exact works (syscallOpenUser_works a1 s)
  rw [if_neg hopen, if_neg hopen]
  by_cases hpipe : num = SYS_PIPE
  · subst hpipe
    rw [if_neg (by decide), if_neg (by decide), if_pos rfl, if_pos rfl]
    exact works (syscallDoPipe_works a1 s)
  rw [if_neg hpipe, if_neg hpipe]
  refine quiet ?_
  split_ifs
  · exact congrArg Prod.fst (syscallCloseFd_keeps a1 s)
  · exact congrArg Prod.fst (syscallLseekFd_keeps a1 a2 a3 s)
  · exact congrArg Kernel.accesses (syscallDoPoll_keeps a1 s)
  · rfl
  · rfl

/-- A call stays within the caller's memory exactly if the mapped part of its span is
the caller's. -/
theorem accesses_permitted_iff (out : Outside ρ) (s : Kernel ρ) (num : ℕ) (a1 a2 a3 a4 : UInt64) :
    (∀ a ∈ newAccesses s (syscallDispatch out num a1 a2 a3 a4 s).2, Permitted s.tables a.addr a.write) ↔
      ∀ sp, userSpan out s num a1 a2 a3 = some sp → ∀ addr ∈ sp.reached s, Permitted s.tables addr sp.write := by
  obtain ⟨haddr, hw⟩ := @syscallDispatch_accesses ρ out s num a1 a2 a3 a4
  have hmem : ∀ addr, addr ∈ reachedOf s (userSpan out s num a1 a2 a3) ↔
      ∃ a ∈ newAccesses s (syscallDispatch out num a1 a2 a3 a4 s).2, a.addr = addr := by
    intro addr
    rw [← haddr, List.mem_map]
  cases hspan : userSpan out s num a1 a2 a3 with
  | none =>
    rw [hspan] at hmem
    refine iff_of_true (fun a ha => ?_) nofun
    exact absurd ((hmem a.addr).2 ⟨a, ha, rfl⟩) (by simp [reachedOf])
  | some sp =>
    rw [hspan] at hmem hw
    constructor
    · rintro h _ ⟨⟩ addr hsp
      obtain ⟨a, ha, rfl⟩ := (hmem addr).1 hsp
      have hperm := h a ha
      rwa [hw a ha] at hperm
    · intro h a ha
      rw [hw a ha]
      exact h sp rfl a.addr ((hmem a.addr).2 ⟨a, ha, rfl⟩)

/-- The first two megabytes mapped to themselves by one entry on each level, as at
boot, with the given permission bits. -/
def lowTables (perm : UInt64) : PageTables where
  cr3 := 0x1000
  entry := fun p =>
    if p = 0x1000 then 0x2000 ||| PAGE_FLAG_PRESENT ||| perm
    else if p = 0x2000 then 0x3000 ||| PAGE_FLAG_PRESENT ||| perm
    else if p = 0x3000 then PAGE_FLAG_HUGE ||| PAGE_FLAG_PRESENT ||| perm
    else 0

/-- A machine on which the rest of the kernel does nothing. -/
def quietOutside : Outside Unit where
  terminalReadLine := fun _ rest => (none, rest)
  terminalWrite := fun _ rest => rest
  terminalInputAvailable := fun _ => false
  processCall := fun _ _ _ _ _ tables frames rest => (.fail, tables, frames, rest)

/-- A write to the terminal reads a page of the kernel. -/
theorem accesses_not_permitted :
    ¬ ∀ (s : Kernel Unit) (num : ℕ) (a1 a2 a3 a4 : UInt64),
      ∀ a ∈ newAccesses s (syscallDispatch quietOutside num a1 a2 a3 a4 s).2, Permitted s.tables a.addr a.write := by
  intro h
  have hread := h (Kernel.boot (lowTables PAGE_FLAG_WRITABLE) (fun _ => 65) Ramfs.blank ()) SYS_WRITE 1 0x5000 1 0
  revert hread
  decide

end Tg11Kernel.Syscall
