import Tg11Kernel.Heap.User

/-! The anonymous mappings of a user program: a table of sixteen regions beside the heap, and
an address from which the next region starts. A region is mapped page by page on fresh
frames, and what was mapped of it is taken back on an error. -/

namespace Tg11Kernel.Mmap

open Lib Exec Memory Heap Function

def MMAP_PROT_WRITE : UInt64 := 0x2
def MMAP_PROT_EXEC : UInt64 := 0x4
def MMAP_MAP_ANON : UInt64 := 0x20
def MMAP_VA_BASE : UInt64 := 0x4000000000

/-- An entry of the table, of `MMAP_MAX_ENTRIES`. -/
abbrev Slot := Fin 16

/-- `struct mmap_entry` -/
structure MmapEntry where
  virtAddr : UInt64
  pageCount : UInt64
  used : Bool

def MmapEntry.unused : MmapEntry := ⟨0, 0, false⟩

/-- The heap and `syscall_mmap_tbl`, `syscall_mmap_bump`. -/
structure Process where
  user : User
  mmapTbl : Slot → MmapEntry
  mmapBump : UInt64

def onUser {α : Type} (p : Exec User α) : Exec Process α := fun s =>
  let r := p s.user
  (r.1, { s with user := r.2 })

def mapFlags (prot : UInt64) : UInt64 :=
  let flags := PAGE_FLAG_PRESENT ||| PAGE_FLAG_USER
  let flags := if prot &&& MMAP_PROT_WRITE ≠ 0 then flags ||| PAGE_FLAG_WRITABLE else flags
  if prot &&& MMAP_PROT_EXEC = 0 then flags ||| PAGE_FLAG_NO_EXECUTE else flags

def pageAt (base : UInt64) (i : ℕ) : UInt64 := base + UInt64.ofNat i * MEMORY_PAGE_SIZE

/-- A page is unmapped, and its frame freed if it had one. -/
def dropPage (v : UInt64) : Exec Mem Unit := do
  let phys ← gets fun m => pagingGetPhys m.tables v
  pagingUnmapPage v
  if phys ≠ 0 then physFreePage phys else pure ()

def dropPages (base : UInt64) (n : ℕ) : Exec Mem Unit := (List.range n).forM fun j => dropPage (pageAt base j)

/-- One page more. On an error the pages before it are taken back. -/
def mmapPage (base flags : UInt64) (i : ℕ) : Exec Mem Unit := do
  let phys ← physAllocPage
  orElse (require (phys ≠ 0)) (dropPages base i)
  memoryZeroPhysPage phys
  orElse (pagingMapPage (pageAt base i) phys flags) (do
    physFreePage phys
    dropPages base i)

def Process.freeSlot (s : Process) : Option Slot := (List.finRange 16).find? fun i => !(s.mmapTbl i).used

def Process.slotAt (s : Process) (addr : UInt64) : Option Slot :=
  (List.finRange 16).find? fun i => (s.mmapTbl i).used && (s.mmapTbl i).virtAddr == addr

def pagesOf (len : UInt64) : UInt64 := (len + MEMORY_PAGE_SIZE - 1) / MEMORY_PAGE_SIZE

def syscallDoMmap (_addrHint len prot flags : UInt64) : Exec Process UInt64 := do
  require (flags &&& MMAP_MAP_ANON ≠ 0 ∧ len ≠ 0)
  let pageCount := pagesOf len
  require (pageCount ≠ 0 ∧ pageCount ≤ 256)
  let s ← gets id
  let slot ← ofOption s.freeSlot
  let base := s.mmapBump
  onUser (onMem ((List.range pageCount.toNat).forM (mmapPage base (mapFlags prot))))
  modify fun s => { s with
    mmapBump := s.mmapBump + pageCount * MEMORY_PAGE_SIZE
    mmapTbl := update s.mmapTbl slot ⟨base, pageCount, true⟩ }
  pure base

/-- The pages of an entry are taken back, and the entry is cleared. -/
def releaseSlot (slot : Slot) : Exec Process Unit := do
  let s ← gets id
  onUser (onMem (dropPages (s.mmapTbl slot).virtAddr (s.mmapTbl slot).pageCount.toNat))
  modify fun s => { s with mmapTbl := update s.mmapTbl slot .unused }

def syscallDoMunmap (addr _len : UInt64) : Exec Process Unit := do
  let s ← gets id
  let slot ← ofOption (s.slotAt addr)
  releaseSlot slot

def releaseLive (slot : Slot) : Exec Process Unit := do
  let s ← gets id
  if (s.mmapTbl slot).used = true then releaseSlot slot else pure ()

def syscallMmapCleanup : Exec Process Unit := do
  (List.finRange 16).forM releaseLive
  modify fun s => { s with mmapBump := MMAP_VA_BASE }

def syscallBrk (newBreak : UInt64) : Exec Process UInt64 := onUser (taskUserHeapBrk newBreak)

/-! ### The heap that `cmd_exec` configures -/

def userHeapBase : UInt64 := 0x1800000000
def userHeapLimit : UInt64 := 0x2000000000 - 0x10000

/-- A program starts: the tables hold any image, the heap is empty and there is no region. -/
structure Started (s : Process) : Prop where
  wf : WellFormed s.user.mem
  permissive : Permissive s.user.mem
  base : s.user.base = userHeapBase
  limit : s.user.limit = userHeapLimit
  brk : s.user.brk = userHeapBase
  tbl : ∀ slot, (s.mmapTbl slot).used = false
  bump : s.mmapBump = MMAP_VA_BASE

end Tg11Kernel.Mmap
