import Tg11Kernel.Memory.Paging
import Tg11Kernel.Ramfs.Tree

/-! System calls. A call works on the descriptor table and the pipes, and reaches
the caller's memory byte by byte through the page tables, each byte after a check
of its address. Every access is recorded. The kernel's variables and the page
tables are apart from the frames that a user pointer leads to. What the terminal
and the process and memory calls do is a parameter: they take no user pointer. -/

namespace Tg11Kernel.Syscall

open Lib Memory

def SYS_READ : ℕ := 0
def SYS_WRITE : ℕ := 1
def SYS_OPEN : ℕ := 2
def SYS_CLOSE : ℕ := 3
def SYS_POLL : ℕ := 7
def SYS_LSEEK : ℕ := 8
def SYS_PIPE : ℕ := 22

/-- `SYS_MMAP`, `SYS_MUNMAP`, `SYS_BRK`, `SYS_GETPID`, `SYS_EXIT` and `SYS_KILL` -/
def processCalls : List ℕ := [9, 11, 12, 39, 60, 62]

def SYS_WRITE_MAX_BYTES : ℕ := 4096
def SYS_READ_MAX_BYTES : ℕ := 4096
def SYSCALL_FD_MAX : ℕ := 8
def SYSCALL_PATH_MAX : ℕ := 128
def PIPE_BUF_SIZE : ℕ := 4096
def PIPE_MAX : ℕ := 4

theorem pipeMax_pos : 0 < PIPE_MAX := by decide

/-- `FD_TYPE_*` -/
inductive FdType where
  | none
  | file
  | pipeRead
  | pipeWrite
  deriving DecidableEq

abbrev FdSlot := Fin SYSCALL_FD_MAX
abbrev PipeIdx := Fin PIPE_MAX

/-- A `pipe_idx` of -1 is `none`. -/
structure FdEntry where
  type : FdType
  pos : UInt64
  path : Ramfs.Path
  pipeIdx : Option PipeIdx

structure PipeBuf where
  data : Block PIPE_BUF_SIZE
  head : ℕ
  count : ℕ
  readOpen : Bool
  writeOpen : Bool

/-- One byte read or stored through a user pointer. -/
structure Access where
  addr : UInt64
  write : Bool
  byte : UInt8

variable {ρ : Type}

/-- The variables the calls work on; `rest` is the state of the rest of the kernel. -/
structure Kernel (ρ : Type) where
  tables : PageTables
  frames : UInt64 → UInt8
  accesses : List Access
  fds : FdSlot → FdEntry
  pipes : PipeIdx → PipeBuf
  ramfs : Ramfs.Fs
  rest : ρ

/-- The tables as the machine starts with them. -/
def Kernel.boot (tables : PageTables) (frames : UInt64 → UInt8) (ramfs : Ramfs.Fs) (rest : ρ) : Kernel ρ where
  tables := tables
  frames := frames
  accesses := []
  fds := fun _ => { type := .none, pos := 0, path := [], pipeIdx := some ⟨0, pipeMax_pos⟩ }
  pipes := fun _ => { data := Block.zero, head := 0, count := 0, readOpen := false, writeOpen := false }
  ramfs := ramfs
  rest := rest

/-- System call code: `fail` is a return of `(unsigned long)-1`. -/
abbrev M (ρ : Type) := Exec (Kernel ρ)

/-- The rest of the kernel: the terminal, and the calls that take no user pointer
but may map and unmap pages. A line read is the C string left in a buffer of the
given size. -/
structure Outside (ρ : Type) where
  terminalReadLine : ℕ → ρ → Option (List UInt8) × ρ
  terminalWrite : List UInt8 → ρ → ρ
  terminalInputAvailable : ρ → Bool
  processCall : ℕ → UInt64 → UInt64 → UInt64 → UInt64 → PageTables → (UInt64 → UInt8) → ρ →
    Outcome ℕ × PageTables × (UInt64 → UInt8) × ρ

variable (out : Outside ρ)

def setFd (slot : FdSlot) (f : FdEntry → FdEntry) : M ρ Unit :=
  Exec.modify fun s => { s with fds := Function.update s.fds slot (f (s.fds slot)) }

def setPipe (pi : PipeIdx) (f : PipeBuf → PipeBuf) : M ρ Unit :=
  Exec.modify fun s => { s with pipes := Function.update s.pipes pi (f (s.pipes pi)) }

/-- A call of the RAM file system. -/
def onRamfs {α : Type} (m : Ramfs.M α) : M ρ α := fun s =>
  let (o, ramfs) := m s.ramfs
  (o, { s with ramfs })

/-- The C string in a buffer. -/
def cString (chunk : List UInt8) : List UInt8 := chunk.takeWhile (· ≠ 0)

def terminalWrite (chunk : List UInt8) : M ρ Unit :=
  Exec.modify fun s => { s with rest := out.terminalWrite (cString chunk) s.rest }

/-! ### User memory -/

def addrIsCanonical (addr : UInt64) : Bool := addr >>> 47 = 0 ∨ addr >>> 47 = 0x1FFFF

def userAddrReadable (t : PageTables) (addr : UInt64) : Bool := addrIsCanonical addr && pagingGetPhys t addr != 0

/-- A load by the processor; a fault in the kernel is not resumed. -/
def load (addr : UInt64) : M ρ UInt8 := fun s =>
  match translate s.tables addr with
  | none => (.hang, s)
  | some tr =>
    (.ok (s.frames tr.phys), { s with accesses := s.accesses ++ [⟨addr, false, s.frames tr.phys⟩] })

/-- A store by the processor, which does not look at the writable bit in kernel mode. -/
def store (addr : UInt64) (byte : UInt8) : M ρ Unit := fun s =>
  match translate s.tables addr with
  | none => (.hang, s)
  | some tr =>
    (.ok (), { s with
      frames := Function.update s.frames tr.phys byte
      accesses := s.accesses ++ [⟨addr, true, byte⟩] })

/-- `if (!user_addr_readable(addr)) return -1;` -/
def checkAddr (addr : UInt64) : M ρ Unit := do
  let t ← Exec.gets fun s => s.tables
  Exec.require (userAddrReadable t addr = true)

def checkedLoad (addr : UInt64) : M ρ UInt8 := do
  checkAddr addr
  load addr

def userCopyAscii : ℕ → UInt64 → M ρ (List UInt8)
  | 0, _ => pure []
  | n + 1, src => do
    let ch ← checkedLoad src
    let rest ← userCopyAscii n (src + 1)
    pure (ch :: rest)

/-- The loop of `user_copy_cstr` with room for so many characters. -/
def userCopyCstrLoop : ℕ → UInt64 → M ρ (List UInt8)
  | 0, _ => Exec.fail
  | n + 1, src => do
    let ch ← checkedLoad src
    if ch = 0 then pure []
    else do
      let rest ← userCopyCstrLoop n (src + 1)
      pure (ch :: rest)

def userCopyCstr (src : UInt64) (dstSz : ℕ) : M ρ (List UInt8) := do
  Exec.require (src ≠ 0)
  userCopyCstrLoop (dstSz - 1) src

def userCopyOut : UInt64 → List UInt8 → M ρ Unit
  | _, [] => pure ()
  | dst, byte :: src => do
    checkAddr dst
    store dst byte
    userCopyOut (dst + 1) src

/-! ### Terminal output -/

/-- The inner loop of the NUL-terminated mode: the characters, and whether the NUL
was among them. -/
def scanChunk : ℕ → UInt64 → M ρ (List UInt8 × Bool)
  | 0, _ => pure ([], false)
  | n + 1, cursor => do
    let ch ← checkedLoad cursor
    if ch = 0 then pure ([], true)
    else do
      let (rest, ended) ← scanChunk n (cursor + 1)
      pure (ch :: rest, ended)

/-- `if (take != 0) terminal_write(chunk);` -/
def flushChunk (chunk : List UInt8) : M ρ Unit :=
  if chunk.length ≠ 0 then terminalWrite out chunk else pure ()

/-- The outer loop: `SYS_WRITE_MAX_BYTES` are 32 chunks of 128 bytes. The chunk that
holds the NUL is not counted. -/
def writeCstrLoop : ℕ → UInt64 → ℕ → M ρ ℕ
  | 0, _, total => pure total
  | chunks + 1, cursor, total => do
    let (chunk, ended) ← scanChunk 128 cursor
    flushChunk out chunk
    if ended = true then pure total
    else writeCstrLoop chunks (cursor + UInt64.ofNat chunk.length) (total + chunk.length)

/-- `while (remaining != 0)` -/
def writeBytesLoop : ℕ → ℕ → UInt64 → ℕ → M ρ ℕ
  | 0, remaining, _, total => if remaining ≠ 0 then Exec.hang else pure total
  | fuel + 1, remaining, cursor, total =>
    if remaining ≠ 0 then do
      let take := min remaining 128
      let chunk ← userCopyAscii take cursor
      terminalWrite out chunk
      writeBytesLoop fuel (remaining - take) (cursor + UInt64.ofNat take) (total + take)
    else pure total

def syscallWriteUser (userPtr lenOrZero : UInt64) : M ρ ℕ := do
  Exec.require (userPtr ≠ 0)
  if lenOrZero = 0 then writeCstrLoop out 32 userPtr 0
  else
    let remaining := min lenOrZero.toNat SYS_WRITE_MAX_BYTES
    writeBytesLoop out remaining remaining userPtr 0

/-! ### Descriptors -/

def syscallFdSlotFromFd (fd : UInt64) : Option FdSlot :=
  if h : fd.toNat < 3 ∨ fd.toNat ≥ 3 + SYSCALL_FD_MAX then none
  else some ⟨fd.toNat - 3, by omega⟩

/-- The open descriptor behind a number. -/
def openSlot (fd : UInt64) : M ρ FdSlot := do
  let slot ← Exec.ofOption (syscallFdSlotFromFd fd)
  let e ← Exec.gets fun s => s.fds slot
  Exec.require (e.type ≠ .none)
  pure slot

/-- The first free descriptors, in order. -/
def freeSlots (fds : FdSlot → FdEntry) : List FdSlot := (List.finRange SYSCALL_FD_MAX).filter fun i => (fds i).type = .none

def syscallOpenUser (userPath : UInt64) : M ρ ℕ := do
  let path ← userCopyCstr userPath SYSCALL_PATH_MAX
  Exec.require (path ≠ [])
  let (isDir, _) ← onRamfs (Ramfs.stat (some path))
  Exec.require (isDir = false)
  let fds ← Exec.gets fun s => s.fds
  let slot ← Exec.ofOption (freeSlots fds).head?
  setFd slot fun _ => { type := .file, pos := 0, path := path.take (SYSCALL_PATH_MAX - 1), pipeIdx := none }
  pure (3 + slot.val)

/-- The end of a pipe that a descriptor stands for is closed. -/
def closePipeEnd (e : FdEntry) : M ρ Unit :=
  match e.type, e.pipeIdx with
  | .pipeRead, some pi => setPipe pi fun p => { p with readOpen := false }
  | .pipeWrite, some pi => setPipe pi fun p => { p with writeOpen := false }
  | _, _ => pure ()

def syscallCloseFd (fd : UInt64) : M ρ ℕ := do
  let slot ← openSlot fd
  let e ← Exec.gets fun s => s.fds slot
  closePipeEnd e
  setFd slot fun _ => { type := .none, pos := 0, path := [], pipeIdx := none }
  pure 0

/-- The loop body of `syscall_fd_cleanup`. -/
def cleanupSlot (slot : FdSlot) : M ρ Unit := do
  let e ← Exec.gets fun s => s.fds slot
  if e.type = .none then pure ()
  else do
    closePipeEnd e
    setFd slot fun _ => { type := .none, pos := 0, path := [], pipeIdx := none }

def cleanupSlots : List FdSlot → M ρ Unit
  | [] => pure ()
  | slot :: slots => do
    cleanupSlot slot
    cleanupSlots slots

def syscallFdCleanup : M ρ Unit := cleanupSlots (List.finRange SYSCALL_FD_MAX)

/-- `offset < 0` for the signed offset -/
def isNegative (offset : UInt64) : Bool := offset.toNat ≥ 2 ^ 63

/-- The new position for a base position, if it is not before the start. -/
def seekTo (base offset : UInt64) : Option UInt64 :=
  if isNegative offset = true ∧ (-offset).toNat > base.toNat then none else some (base + offset)

def syscallLseekFd (fd offset whence : UInt64) : M ρ ℕ := do
  let slot ← Exec.ofOption (syscallFdSlotFromFd fd)
  let e ← Exec.gets fun s => s.fds slot
  Exec.require (e.type = .file)
  let (isDir, fileSize) ← onRamfs (Ramfs.stat (some e.path))
  Exec.require (isDir = false)
  let newPos ← Exec.ofOption (
    if whence = 0 then (if isNegative offset = true then none else some offset)
    else if whence = 1 then seekTo e.pos offset
    else if whence = 2 then seekTo (UInt64.ofNat fileSize) offset
    else none)
  setFd slot fun e => { e with pos := newPos }
  pure newPos.toNat

/-! ### Reading -/

def terminalReadLine (size : ℕ) : M ρ (List UInt8) := fun s =>
  match out.terminalReadLine size s.rest with
  | (some line, rest) => (.ok (cString line), { s with rest })
  | (none, rest) => (.fail, { s with rest })

/-- The longest line for a buffer of `capacity` bytes. -/
def maxLine (capacity : ℕ) : ℕ := min (min capacity SYS_READ_MAX_BYTES - 1) 256

def syscallReadUser (userPtr capacity : UInt64) : M ρ ℕ := do
  Exec.require (¬ (userPtr = 0 ∨ capacity = 0))
  let line ← terminalReadLine out (maxLine capacity.toNat + 1)
  let bytes := line.take (maxLine capacity.toNat)
  userCopyOut userPtr bytes
  userCopyOut (userPtr + UInt64.ofNat bytes.length) [0]
  pure bytes.length

/-- The bytes that a pipe hands out from byte `i` on: the copy goes byte by byte. -/
def pipeDrain (pi : PipeIdx) (userPtr : UInt64) : ℕ → ℕ → M ρ Unit
  | 0, _ => pure ()
  | n + 1, i => do
    let p ← Exec.gets fun s => s.pipes pi
    userCopyOut (userPtr + UInt64.ofNat i) [p.data.get ((p.head + i) % PIPE_BUF_SIZE)]
    pipeDrain pi userPtr n (i + 1)

def pipeRead (pi : PipeIdx) (userPtr : UInt64) (count : ℕ) : M ρ ℕ := do
  let p ← Exec.gets fun s => s.pipes pi
  if p.count = 0 then pure 0
  else do
    let take := if count < p.count then count else p.count
    pipeDrain pi userPtr take 0
    setPipe pi fun p => { p with head := (p.head + take) % PIPE_BUF_SIZE, count := p.count - take }
    pure take

def fileRead (slot : FdSlot) (userPtr : UInt64) (count : ℕ) : M ρ ℕ := do
  let e ← Exec.gets fun s => s.fds slot
  Exec.require (e.type = .file)
  let tmp ← onRamfs (Ramfs.readFile (some e.path) Ramfs.FS_MAX_FILE_SIZE)
  if e.pos.toNat ≥ tmp.length then pure 0
  else do
    let avail := tmp.length - e.pos.toNat
    let take := if count < avail then count else avail
    userCopyOut userPtr ((tmp.drop e.pos.toNat).take take)
    setFd slot fun e => { e with pos := e.pos + UInt64.ofNat take }
    pure take

def syscallReadFd (fd userPtr count : UInt64) : M ρ ℕ :=
  if fd = 0 then
    if count = 0 then pure 0 else syscallReadUser out userPtr count
  else do
    let slot ← openSlot fd
    let count := min count.toNat SYS_READ_MAX_BYTES
    if count = 0 then pure 0
    else do
      let e ← Exec.gets fun s => s.fds slot
      if e.type = .pipeRead then do
        let pi ← Exec.ofOption e.pipeIdx
        pipeRead pi userPtr count
      else fileRead slot userPtr count

/-! ### Writing -/

/-- The bytes that a pipe takes from byte `i` on; the count goes up only at the end. -/
def pipeFill (pi : PipeIdx) (userPtr : UInt64) : ℕ → ℕ → M ρ Unit
  | 0, _ => pure ()
  | n + 1, i => do
    let ch ← checkedLoad (userPtr + UInt64.ofNat i)
    setPipe pi fun p => { p with data := p.data.set ((p.head + (p.count + i)) % PIPE_BUF_SIZE) ch }
    pipeFill pi userPtr n (i + 1)

def pipeWrite (pi : PipeIdx) (userPtr : UInt64) (len : ℕ) : M ρ ℕ := do
  let p ← Exec.gets fun s => s.pipes pi
  Exec.require (p.readOpen = true)
  if len = 0 then pure 0
  else do
    let len := min len SYS_WRITE_MAX_BYTES
    let space := PIPE_BUF_SIZE - p.count
    let take := if len < space then len else space
    if take = 0 then pure 0
    else do
      pipeFill pi userPtr take 0
      setPipe pi fun p => { p with count := p.count + take }
      pure take

def syscallWriteFd (fd userPtr lenOrZero : UInt64) : M ρ ℕ :=
  if fd = 1 ∨ fd = 2 then syscallWriteUser out userPtr lenOrZero
  else do
    let slot ← Exec.ofOption (syscallFdSlotFromFd fd)
    let e ← Exec.gets fun s => s.fds slot
    Exec.require (e.type = .pipeWrite)
    let pi ← Exec.ofOption e.pipeIdx
    pipeWrite pi userPtr lenOrZero.toNat

/-! ### Pipes -/

/-- The first pipe both ends of which are closed. -/
def freePipe (pipes : PipeIdx → PipeBuf) : Option PipeIdx :=
  (List.finRange PIPE_MAX).find? fun i => !(pipes i).readOpen && !(pipes i).writeOpen

/-- The eight bytes of an `unsigned long`. -/
def wordBytes (v : ℕ) : List UInt8 := (List.range 8).map (byteOf v)

/-- The first two free descriptors. -/
def twoFreeSlots (fds : FdSlot → FdEntry) : Option (FdSlot × FdSlot) :=
  match freeSlots fds with
  | r :: w :: _ => some (r, w)
  | _ => none

/-- An empty pipe with a descriptor for each end. -/
def openPipe (pi : PipeIdx) (slotR slotW : FdSlot) : M ρ Unit := do
  setPipe pi fun p => { p with head := 0, count := 0, readOpen := true, writeOpen := true }
  setFd slotR fun _ => { type := .pipeRead, pos := 0, path := [], pipeIdx := some pi }
  setFd slotW fun _ => { type := .pipeWrite, pos := 0, path := [], pipeIdx := some pi }

/-- `[read_fd, write_fd]` written to the caller's array. -/
def publishPipe (userArray : UInt64) (slotR slotW : FdSlot) : M ρ Unit := do
  userCopyOut userArray (wordBytes (3 + slotR.val))
  userCopyOut (userArray + 8) (wordBytes (3 + slotW.val))

/-- What is undone when the array cannot be written. -/
def abandonPipe (pi : PipeIdx) (slotR slotW : FdSlot) : M ρ Unit := do
  setFd slotR fun e => { e with type := .none }
  setFd slotW fun e => { e with type := .none }
  setPipe pi fun p => { p with readOpen := false, writeOpen := false }

def syscallDoPipe (userArray : UInt64) : M ρ ℕ := do
  Exec.require (userArray ≠ 0)
  let pipes ← Exec.gets fun s => s.pipes
  let pi ← Exec.ofOption (freePipe pipes)
  let fds ← Exec.gets fun s => s.fds
  let (slotR, slotW) ← Exec.ofOption (twoFreeSlots fds)
  openPipe pi slotR slotW
  Exec.orElse (publishPipe userArray slotR slotW) (abandonPipe pi slotR slotW)
  pure 0

def syscallDoPoll (fd : UInt64) : M ρ ℕ :=
  if fd = 0 then do
    let rest ← Exec.gets fun s => s.rest
    pure (if out.terminalInputAvailable rest = true then 1 else 0)
  else do
    let slot ← openSlot fd
    let e ← Exec.gets fun s => s.fds slot
    if e.type = .pipeRead then do
      let pi ← Exec.ofOption e.pipeIdx
      let p ← Exec.gets fun s => s.pipes pi
      pure (if p.count > 0 then 1 else 0)
    else if e.type = .file then pure 1
    else Exec.fail

/-- A call that takes no user pointer. -/
def processCall (num : ℕ) (a1 a2 a3 a4 : UInt64) : M ρ ℕ := fun s =>
  let (o, tables, frames, rest) := out.processCall num a1 a2 a3 a4 s.tables s.frames s.rest
  (o, { s with tables, frames, rest })

def syscallDispatch (num : ℕ) (a1 a2 a3 a4 : UInt64) : M ρ ℕ :=
  -- old callers pass a pointer where the descriptor is now
  if num = SYS_WRITE ∧ a1 ≥ 0x1000 then syscallWriteUser out a1 a2
  else if num = SYS_READ then syscallReadFd out a1 a2 a3
  else if num = SYS_WRITE then syscallWriteFd out a1 a2 a3
  else if num = SYS_OPEN then syscallOpenUser a1
  else if num = SYS_CLOSE then syscallCloseFd a1
  else if num = SYS_LSEEK then syscallLseekFd a1 a2 a3
  else if num = SYS_PIPE then syscallDoPipe a1
  else if num = SYS_POLL then syscallDoPoll out a1
  else if num ∈ processCalls then processCall out num a1 a2 a3 a4
  else Exec.fail

end Tg11Kernel.Syscall
