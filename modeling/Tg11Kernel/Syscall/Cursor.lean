import Tg11Kernel.Syscall.Handles
import Tg11Kernel.Ramfs.Files
import Tg11Kernel.Ramfs.Laws

/-! The position of an open file. Reads move it on by what they deliver. A seek works
modulo the word, and refuses a sum below the start; a sum past the signed range goes
through, and is then taken for a position. -/

namespace Tg11Kernel.Syscall

open Lib Memory Exec

variable {ρ : Type} {out : Outside ρ} {s s' : Kernel ρ} {fd : UInt64} {slot : FdSlot} {bytes : List UInt8}

/-- A call on an open file. -/
inductive FdCall where
  | read (userPtr count : UInt64)
  | lseek (offset whence : UInt64)

def FdCall.run (out : Outside ρ) (fd : UInt64) : FdCall → M ρ ℕ
  | .read userPtr count => syscallReadFd out fd userPtr count
  | .lseek offset whence => syscallLseekFd fd offset whence

/-! ### What the calls should do -/

/-- The number that the bits of a `long` mean. -/
def signed (v : UInt64) : ℤ := if isNegative v = true then (v.toNat : ℤ) - 2 ^ 64 else v.toNat

/-- The base of a seek. -/
def seekBase (pos size : ℕ) (whence : UInt64) : Option ℕ :=
  if whence = 0 then some 0 else if whence = 1 then some pos else if whence = 2 then some size else none

def Kernel.pos (s : Kernel ρ) (slot : FdSlot) : ℕ := (s.fds slot).pos.toNat

/-- The descriptor's file has these bytes now. -/
def Kernel.Content (s : Kernel ρ) (slot : FdSlot) (bytes : List UInt8) : Prop := Ramfs.Holds s.ramfs (s.fds slot).path bytes

def Kernel.withPos (s : Kernel ρ) (slot : FdSlot) (pos : ℕ) : Kernel ρ :=
  { s with fds := Function.update s.fds slot { s.fds slot with pos := UInt64.ofNat pos } }

/-- The stores of a run of bytes. -/
def storesOf : UInt64 → List UInt8 → List Access
  | _, [] => []
  | dst, byte :: bytes => ⟨dst, true, byte⟩ :: storesOf (dst + 1) bytes

/-- A seek moves to the exact sum and returns it, or refuses a sum that is no position and changes nothing. -/
inductive SeekAnswer (slot : FdSlot) (s : Kernel ρ) (offset whence : UInt64) : Outcome ℕ × Kernel ρ → Prop
  | moved {bytes : List UInt8} {base target : ℕ} (content : s.Content slot bytes)
      (base_eq : seekBase (s.pos slot) bytes.length whence = some base) (sum : (target : ℤ) = base + signed offset) (fits : target < 2 ^ 63) :
      SeekAnswer slot s offset whence (.ok target, s.withPos slot target)
  | refused (h : ∀ bytes base, s.Content slot bytes → seekBase (s.pos slot) bytes.length whence = some base →
      (base : ℤ) + signed offset < 0 ∨ 2 ^ 63 ≤ (base : ℤ) + signed offset) : SeekAnswer slot s offset whence (.fail, s)

/-- A read delivers the bytes at the position and moves behind them, or fails and leaves the position. -/
inductive ReadAnswer (slot : FdSlot) (s : Kernel ρ) (userPtr count : UInt64) : Outcome ℕ × Kernel ρ → Prop
  | nothing (h : count = 0) : ReadAnswer slot s userPtr count (.ok 0, s)
  | delivered {bytes : List UInt8} {n : ℕ} {s' : Kernel ρ} (content : s.Content slot bytes)
      (length : n = min (min count.toNat SYS_READ_MAX_BYTES) (bytes.length - s.pos slot))
      (accesses : s'.accesses = s.accesses ++ storesOf userPtr ((bytes.drop (s.pos slot)).take n))
      (fd : s'.fds = (s.withPos slot (s.pos slot + n)).fds) (ramfs : s'.ramfs = s.ramfs) : ReadAnswer slot s userPtr count (.ok n, s')
  | failed {s' : Kernel ρ} (fd : s'.fds = s.fds) (ramfs : s'.ramfs = s.ramfs) : ReadAnswer slot s userPtr count (.fail, s')

/-- A call works on the file as on a cursor. -/
def CursorAnswer (slot : FdSlot) (s : Kernel ρ) : FdCall → Outcome ℕ × Kernel ρ → Prop
  | .read userPtr count => ReadAnswer slot s userPtr count
  | .lseek offset whence => SeekAnswer slot s offset whence

/-- The sum of a seek is not past the signed range. -/
def SumFits (slot : FdSlot) (s : Kernel ρ) : FdCall → Prop
  | .read _ _ => True
  | .lseek offset whence => ∀ bytes base, s.Content slot bytes → seekBase (s.pos slot) bytes.length whence = some base →
      (base : ℤ) + signed offset < 2 ^ 63

/-! ### Seeks -/

theorem isNegative_iff {offset : UInt64} : isNegative offset = true ↔ 2 ^ 63 ≤ offset.toNat := by simp [isNegative]

/-- Where the sum is not past the signed range, a seek from a base is exact. -/
theorem seekTo_spec {base offset : UInt64} (hbase : base.toNat < 2 ^ 63) (hsum : (base.toNat : ℤ) + signed offset < 2 ^ 63) :
    match seekTo base offset with
    | some pos => (pos.toNat : ℤ) = base.toNat + signed offset ∧ pos.toNat < 2 ^ 63
    | none => (base.toNat : ℤ) + signed offset < 0 := by
  have hoffset := offset.toNat_lt
  unfold seekTo signed at *
  by_cases hneg : isNegative offset = true
  · have hlow := isNegative_iff.1 hneg
    have hminus : (-offset).toNat = 2 ^ 64 - offset.toNat := by
      rw [UInt64.toNat_neg]
      unfold UInt64.size
      omega
    rw [if_pos hneg] at *
    by_cases hbelow : (-offset).toNat > base.toNat
    · rw [if_pos ⟨hneg, hbelow⟩]
      dsimp only
      omega
    · rw [if_neg fun h => hbelow h.2]
      dsimp only
      rw [UInt64.toNat_add]
      omega
  · have hlow : offset.toNat < 2 ^ 63 := not_le.1 fun h => hneg (isNegative_iff.2 h)
    rw [if_neg hneg] at *
    rw [if_neg fun h => hneg h.1]
    dsimp only
    rw [UInt64.toNat_add]
    omega

/-- The three kinds of seek differ in their base alone. -/
theorem newPos_eq (pos : UInt64) (size : ℕ) (offset whence : UInt64) :
    (if whence = 0 then (if isNegative offset = true then none else some offset)
      else if whence = 1 then seekTo pos offset
      else if whence = 2 then seekTo (UInt64.ofNat size) offset
      else none) = (seekBase pos.toNat size whence).bind fun base => seekTo (UInt64.ofNat base) offset := by
  have hstart : (if isNegative offset = true then none else some offset) = seekTo (UInt64.ofNat 0) offset := by
    unfold seekTo
    by_cases hneg : isNegative offset = true
    · have hlow := isNegative_iff.1 hneg
      have hlt := offset.toNat_lt
      have hminus : (-offset).toNat > (UInt64.ofNat 0).toNat := by
        rw [UInt64.toNat_neg]
        unfold UInt64.size
        change 0 < _
        omega
      rw [if_pos hneg, if_pos ⟨hneg, hminus⟩]
    · rw [if_neg hneg, if_neg fun h => hneg h.1]
      exact congrArg some (UInt64.zero_add offset).symm
  unfold seekBase
  rw [hstart]
  split_ifs
  · rfl
  · rw [Option.bind_some, UInt64.ofNat_toNat]
  · rfl
  · rfl

/-! ### Files -/

theorem holds_cases {fs : Ramfs.Fs} (h : Ramfs.Tree fs) (path : Ramfs.Path) :
    (∃ bytes, Ramfs.Holds fs path bytes ∧ Ramfs.stat (some path) fs = (.ok (false, bytes.length), fs) ∧ bytes.length < Ramfs.FS_MAX_FILE_SIZE) ∨
      (∀ bytes, ¬ Ramfs.Holds fs path bytes) ∧
        (Ramfs.stat (some path) fs = (.ok (true, 0), fs) ∨ Ramfs.stat (some path) fs = (.fail, fs)) ∧
        ∀ capacity, Ramfs.readFile (some path) capacity fs = (.fail, fs) := by
  obtain ⟨kids, hshape⟩ := h
  rcases hshape.resolvePath_ends (some path) with ⟨idx, t, hidx, hsame, -⟩ | ⟨t, hidx, hsame⟩ <;> rw [hsame] at hidx
  · have hnode : Exec.gets (fun s : Ramfs.Fs => s.nodes idx) fs = (.ok (fs.nodes idx), fs) := rfl
    cases hdir : (fs.nodes idx).isDir with
    | false =>
      refine .inl ⟨_, ⟨idx, by rw [hidx], hdir, rfl⟩, ?_, ?_⟩
      · rw [Ramfs.stat, bind_ok hidx, bind_ok hnode, Block.length_firstBytes, hdir]
        rfl
      · have hsize := hshape.sizes idx
        have hmax : 0 < Ramfs.FS_MAX_FILE_SIZE := by decide
        rw [Block.length_firstBytes]
        omega
    | true =>
      refine .inr ⟨?_, .inl ?_, fun capacity => ?_⟩
      · rintro bytes ⟨idx', hidx', hfile, -⟩
        rw [hidx] at hidx'
        obtain rfl := Outcome.ok.inj hidx'
        rw [hdir] at hfile
        cases hfile
      · rw [Ramfs.stat, bind_ok hidx, bind_ok hnode, hdir]
        rfl
      · have hno : ¬ (fs.nodes idx).isDir = false := by simp [hdir]
        rw [Ramfs.readFile, bind_ok hidx, bind_ok hnode, require_neg hno]
        rfl
  · refine .inr ⟨?_, .inr ?_, fun capacity => ?_⟩
    · rintro bytes ⟨idx', hidx', -⟩
      rw [hidx] at hidx'
      cases hidx'
    · rw [Ramfs.stat, bind_fail hidx]
    · rw [Ramfs.readFile, bind_fail hidx]

/-- A descriptor of an open file. -/
structure OnFile (fd : UInt64) (slot : FdSlot) (s : Kernel ρ) : Prop where
  number : syscallFdSlotFromFd fd = some slot
  file : (s.fds slot).type = .file
  tree : Ramfs.Tree s.ramfs
  pos : s.pos slot < 2 ^ 63

theorem syscallLseekFd_answer (h : OnFile fd slot s) (offset whence : UInt64) (hsum : SumFits slot s (.lseek offset whence)) :
    SeekAnswer slot s offset whence (syscallLseekFd fd offset whence s) := by
  have hentry : Exec.gets (fun s : Kernel ρ => s.fds slot) s = (.ok (s.fds slot), s) := rfl
  rw [syscallLseekFd, h.number, ofOption_some, pure_bind_eq, bind_ok hentry, require_pos h.file, pure_bind_eq]
  rcases holds_cases h.tree (s.fds slot).path with ⟨bytes, hholds, hstat, hlen⟩ | ⟨hnone, hstat, -⟩
  swap
  · have hrefused (bytes : List UInt8) (base : ℕ) (hcontent : s.Content slot bytes) (_ : seekBase (s.pos slot) bytes.length whence = some base) :
        (base : ℤ) + signed offset < 0 ∨ 2 ^ 63 ≤ (base : ℤ) + signed offset := absurd hcontent (hnone bytes)
    rcases hstat with hstat | hstat
    · have hrun : onRamfs (Ramfs.stat (some (s.fds slot).path)) s = (.ok (true, 0), s) := by rw [onRamfs, hstat]
      rw [bind_ok hrun]
      exact .refused hrefused
    · have hrun : onRamfs (Ramfs.stat (some (s.fds slot).path)) s = (.fail, s) := by rw [onRamfs, hstat]
      rw [bind_fail hrun]
      exact .refused hrefused
  have hrun : onRamfs (Ramfs.stat (some (s.fds slot).path)) s = (.ok (false, bytes.length), s) := by rw [onRamfs, hstat]
  rw [bind_ok hrun]
  dsimp only
  rw [require_pos rfl, pure_bind_eq, newPos_eq]
  have hbase (base : ℕ) (hbase : seekBase (s.pos slot) bytes.length whence = some base) : base < 2 ^ 63 := by
    have hpos := h.pos
    unfold Ramfs.FS_MAX_FILE_SIZE at hlen
    unfold seekBase at hbase
    split_ifs at hbase <;> obtain rfl := Option.some.inj hbase <;> omega
  change SeekAnswer slot s offset whence ((Exec.ofOption ((seekBase (s.pos slot) bytes.length whence).bind _) >>= _) s)
  cases hb : seekBase (s.pos slot) bytes.length whence with
  | none =>
    apply SeekAnswer.refused
    intro bytes' base hcontent hbase'
    obtain rfl := hholds.unique hcontent
    rw [hb] at hbase'
    cases hbase'
  | some base =>
    have hlt := hbase base hb
    have htoNat : (UInt64.ofNat base).toNat = base := UInt64.toNat_ofNat_of_lt' (by unfold UInt64.size; omega)
    have hspec := @seekTo_spec (UInt64.ofNat base) offset (by rw [htoNat]; exact hlt)
      (by rw [htoNat]; exact hsum bytes base hholds hb)
    rw [Option.bind_some]
    cases hseek : seekTo (UInt64.ofNat base) offset with
    | none =>
      rw [hseek, htoNat] at hspec
      apply SeekAnswer.refused
      intro bytes' base' hcontent hbase'
      obtain rfl := hholds.unique hcontent
      rw [hb] at hbase'
      obtain rfl := Option.some.inj hbase'
      exact .inl hspec
    | some pos =>
      rw [hseek, htoNat] at hspec
      have hmoved : SeekAnswer slot s offset whence (.ok pos.toNat, s.withPos slot pos.toNat) := .moved hholds hb hspec.1 hspec.2
      unfold Kernel.withPos at hmoved
      rw [UInt64.ofNat_toNat] at hmoved
      exact hmoved

/-! ### Reads -/

/-- A copy to the caller stores the bytes in order, or gives up; it changes memory only. -/
theorem userCopyOut_stores (dst : UInt64) (bytes : List UInt8) (s : Kernel ρ) :
    Ends (userCopyOut dst bytes) s (fun _ s' => s'.accesses = s.accesses ++ storesOf dst bytes ∧ s'.fds = s.fds ∧ s'.ramfs = s.ramfs)
      fun s' => s'.fds = s.fds ∧ s'.ramfs = s.ramfs := by
  induction bytes generalizing dst s with
  | nil => exact Ends.pure ⟨(List.append_nil _).symm, rfl, rfl⟩
  | cons byte bytes ih =>
    by_cases hread : userAddrReadable s.tables dst = true
    · rcases ih (dst + 1) (s.storing dst byte) with ⟨_, s', hrun, haccesses, hfds, hramfs⟩ | ⟨s', hrun, hfds, hramfs⟩
      · refine .inl ⟨(), s', ?_, ?_, hfds, hramfs⟩
        · rw [userCopyOut, bind_ok (checkAddr_pos hread), bind_ok (store_of_readable hread byte), hrun]
        · rw [haccesses]
          exact List.append_assoc _ _ _
      · refine .inr ⟨s', ?_, hfds, hramfs⟩
        rw [userCopyOut, bind_ok (checkAddr_pos hread), bind_ok (store_of_readable hread byte), hrun]
    · exact .inr ⟨s, bind_fail (checkAddr_neg hread), rfl, rfl⟩

theorem withPos_fds (s : Kernel ρ) (slot : FdSlot) (pos : ℕ) :
    (s.withPos slot pos).fds slot = { s.fds slot with pos := UInt64.ofNat pos } := Function.update_self ..

theorem withPos_self (s : Kernel ρ) (slot : FdSlot) : s.withPos slot (s.pos slot) = s := by
  unfold Kernel.withPos Kernel.pos
  rw [UInt64.ofNat_toNat, Function.update_eq_self]

theorem fileRead_answer (h : OnFile fd slot s) {userPtr count : UInt64} :
    ReadAnswer slot s userPtr count (fileRead slot userPtr (min count.toNat SYS_READ_MAX_BYTES) s) := by
  have hentry : Exec.gets (fun s : Kernel ρ => s.fds slot) s = (.ok (s.fds slot), s) := rfl
  rw [fileRead, bind_ok hentry, require_pos h.file, pure_bind_eq]
  rcases holds_cases h.tree (s.fds slot).path with ⟨bytes, hholds, -, hlen⟩ | ⟨hnone, -, hread⟩
  swap
  · have hrun : onRamfs (Ramfs.readFile (some (s.fds slot).path) Ramfs.FS_MAX_FILE_SIZE) s = (.fail, s) := by rw [onRamfs, hread]
    rw [bind_fail hrun]
    exact .failed rfl rfl
  have hrun : onRamfs (Ramfs.readFile (some (s.fds slot).path) Ramfs.FS_MAX_FILE_SIZE) s = (.ok bytes, s) := by
    rw [onRamfs, Ramfs.readFile_of_holds hholds, List.take_of_length_le hlen.le]
  rw [bind_ok hrun]
  by_cases hpos : (s.fds slot).pos.toNat ≥ bytes.length
  · have hzero : min (min count.toNat SYS_READ_MAX_BYTES) (bytes.length - s.pos slot) = 0 := by
      unfold Kernel.pos
      omega
    rw [if_pos hpos]
    refine .delivered hholds hzero.symm ?_ ?_ rfl
    · rw [List.take_zero]
      exact (List.append_nil _).symm
    · rw [Nat.add_zero, withPos_self]
  · rw [if_neg hpos, ite_lt_eq_min]
    rw [show (s.fds slot).pos.toNat = s.pos slot from rfl]
    generalize hn : min (min count.toNat SYS_READ_MAX_BYTES) (bytes.length - s.pos slot) = n
    rcases userCopyOut_stores userPtr ((bytes.drop (s.pos slot)).take n) s with ⟨_, s', hcopy, haccesses, hfds, hramfs⟩ | ⟨s', hcopy, hfds, hramfs⟩
    · rw [bind_ok hcopy]
      refine .delivered hholds hn.symm haccesses ?_ hramfs
      change Function.update s'.fds slot { s'.fds slot with pos := (s'.fds slot).pos + UInt64.ofNat n } = _
      unfold Kernel.withPos Kernel.pos
      rw [hfds, UInt64.ofNat_add, UInt64.ofNat_toNat]
    · rw [bind_fail hcopy]
      exact .failed hfds hramfs

theorem syscallReadFd_answer (h : OnFile fd slot s) (userPtr count : UInt64) :
    ReadAnswer slot s userPtr count (syscallReadFd out fd userPtr count s) := by
  have hfd : fd ≠ 0 := by
    rintro rfl
    have hnone := h.number
    have hconsole : syscallFdSlotFromFd 0 = none := dif_pos (.inl (by decide))
    rw [hconsole] at hnone
    cases hnone
  have hopen : openSlot fd s = (.ok slot, s) := by
    rw [openSlot_apply, h.number]
    simp [h.file]
  rw [syscallReadFd, if_neg hfd, bind_ok hopen]
  by_cases hcount : min count.toNat SYS_READ_MAX_BYTES = 0
  · rw [if_pos hcount]
    have hzero : count.toNat = 0 := by
      unfold SYS_READ_MAX_BYTES at hcount
      omega
    exact .nothing (UInt64.toNat_inj.1 hzero)
  · have hentry : Exec.gets (fun s : Kernel ρ => s.fds slot) s = (.ok (s.fds slot), s) := rfl
    rw [if_neg hcount, bind_ok hentry, if_neg (by simp [h.file])]
    exact fileRead_answer h

/-! ### Runs -/

theorem call_answer (h : OnFile fd slot s) {c : FdCall} (hsum : SumFits slot s c) : CursorAnswer slot s c (c.run out fd s) := by
  cases c with
  | read userPtr count => exact syscallReadFd_answer h userPtr count
  | lseek offset whence => exact syscallLseekFd_answer h offset whence hsum

theorem pos_withPos {pos : ℕ} (h : pos < 2 ^ 63) : (s.withPos slot pos).pos slot = pos := by
  unfold Kernel.pos
  rw [withPos_fds]
  exact UInt64.toNat_ofNat_of_lt' (by unfold UInt64.size; omega)

theorem OnFile.withPos (h : OnFile fd slot s) {pos : ℕ} (hpos : pos < 2 ^ 63) (hfds : s'.fds = (s.withPos slot pos).fds)
    (hramfs : s'.ramfs = s.ramfs) : OnFile fd slot s' := by
  refine ⟨h.number, ?_, hramfs ▸ h.tree, ?_⟩
  · rw [hfds, withPos_fds]
    exact h.file
  · have hmoved : (s.withPos slot pos).pos slot = pos := pos_withPos hpos
    unfold Kernel.pos at hmoved ⊢
    rw [hfds, hmoved]
    exact hpos

/-- One call leaves the descriptor open, with a position. -/
theorem call_onFile (h : OnFile fd slot s) {c : FdCall} (hsum : SumFits slot s c) : OnFile fd slot (c.run out fd s).2 := by
  have hanswer : CursorAnswer slot s c (c.run out fd s) := call_answer h hsum
  generalize c.run out fd s = r at hanswer
  cases c with
  | lseek offset whence =>
    cases hanswer with
    | moved _ _ _ hfits => exact h.withPos hfits rfl rfl
    | refused _ => exact h
  | read userPtr count =>
    cases hanswer with
    | nothing _ => exact h
    | @delivered bytes n s' hcontent hn _ hfds hramfs =>
      have hlen : bytes.length < 2 ^ 13 := by
        rcases holds_cases h.tree (s.fds slot).path with ⟨bytes', hholds, -, hlen⟩ | ⟨hnone, -⟩
        · obtain rfl := hholds.unique hcontent
          exact hlen
        · exact absurd hcontent (hnone bytes)
      have hpos := h.pos
      exact h.withPos (by omega) hfds hramfs
    | failed hfds hramfs =>
      rw [← withPos_self s slot] at hfds
      exact h.withPos h.pos hfds hramfs

/-- Reads and seeks on an open file that are allowed, with anything between them that leaves the descriptor alone. -/
inductive CursorRun (allowed : Kernel ρ → FdCall → Prop) (out : Outside ρ) (fd : UInt64) (slot : FdSlot) : Kernel ρ → Prop
  | opened {s : Kernel ρ} (file : (s.fds slot).type = .file) (start : (s.fds slot).pos = 0) (tree : Ramfs.Tree s.ramfs) :
      CursorRun allowed out fd slot s
  | call {s : Kernel ρ} (run : CursorRun allowed out fd slot s) (c : FdCall) (h : allowed s c) :
      CursorRun allowed out fd slot (c.run out fd s).2
  | other {s s' : Kernel ρ} (run : CursorRun allowed out fd slot s) (same : s'.fds slot = s.fds slot) (tree : Ramfs.Tree s'.ramfs) :
      CursorRun allowed out fd slot s'

theorem CursorRun.onFile (hfd : syscallFdSlotFromFd fd = some slot) (h : CursorRun (SumFits slot) out fd slot s) : OnFile fd slot s := by
  induction h with
  | opened file start tree =>
    refine ⟨hfd, file, tree, ?_⟩
    unfold Kernel.pos
    rw [start]
    decide
  | call _ c fits ih => exact call_onFile ih fits
  | other _ same tree ih =>
    refine ⟨hfd, same ▸ ih.file, tree, ?_⟩
    unfold Kernel.pos
    rw [same]
    exact ih.pos

/-- The first descriptor is open on the file `/a`. -/
def openedFile : Kernel Unit :=
  { Kernel.boot (lowTables (PAGE_FLAG_WRITABLE ||| PAGE_FLAG_USER)) (fun _ => 0) Ramfs.touched () with
    fds := fun _ => { type := .file, pos := 0, path := Ramfs.chars "/a", pipeIdx := none } }

def firstSlot : FdSlot := ⟨0, by decide⟩

end Tg11Kernel.Syscall
