import Tg11Kernel.Memory.Frames
import Tg11Kernel.Lib.Bitmap

/-! The physical memory map as the kernel stores it: `phys_bitmap` with one bit a page,
set when the page is taken, and the two page counters. `memory_init` reads the multiboot
information, whose bytes are a parameter; the loops over its tags are bounded by the
information alone, so they run on fuel. -/

namespace Tg11Kernel.Memory.Physical

open Lib Exec

def MEMORY_MAX_PHYS : UInt64 := 0x100000000

/-- `phys_bitmap`, `total_page_count` and `free_page_count`. -/
structure Phys where
  bitmap : Bitmap
  totalPageCount : UInt64
  freePageCount : UInt64

/-- Every bit set. -/
def Phys.full : Phys where
  bitmap _ := 0xFF
  totalPageCount := 0
  freePageCount := 0

def alignUp (value align : UInt64) : UInt64 := (value + align - 1) &&& ~~~(align - 1)

def alignDown (value align : UInt64) : UInt64 := value &&& ~~~(align - 1)

def pageIsFree (b : Bitmap) (page : ℕ) : Bool := !b.test page

def pageMarkUsed (b : Bitmap) (page : ℕ) : Bitmap := b.set page

def pageMarkFree (b : Bitmap) (page : ℕ) : Bitmap := b.clear page

/-- The pages of `for (addr = start; addr < end; addr += MEMORY_PAGE_SIZE)`. -/
def pageRange (start stop : UInt64) : List ℕ :=
  (List.range ((stop.toNat - start.toNat + 4095) / 4096)).map fun i => start.toNat / 4096 + i

/-! ### Regions -/

def Phys.releasePage (s : Phys) (page : ℕ) : Phys :=
  if pageIsFree s.bitmap page = false then
    { bitmap := pageMarkFree s.bitmap page
      totalPageCount := s.totalPageCount + 1
      freePageCount := s.freePageCount + 1 }
  else s

def releaseRegion (startAddr endAddr : UInt64) : Exec Phys Unit :=
  if startAddr ≥ MEMORY_MAX_PHYS then pure ()
  else
    let endAddr := if endAddr > MEMORY_MAX_PHYS then MEMORY_MAX_PHYS else endAddr
    let start := alignUp startAddr MEMORY_PAGE_SIZE
    let stop := alignDown endAddr MEMORY_PAGE_SIZE
    modify fun s => (pageRange start stop).foldl Phys.releasePage s

def Phys.reservePage (s : Phys) (page : ℕ) : Phys :=
  if page < MEMORY_MAX_PAGES ∧ pageIsFree s.bitmap page = true then
    { s with
      bitmap := pageMarkUsed s.bitmap page
      freePageCount := s.freePageCount - 1 }
  else s

def reserveRegion (startAddr endAddr : UInt64) : Exec Phys Unit :=
  let start := alignDown startAddr MEMORY_PAGE_SIZE
  let stop := alignUp endAddr MEMORY_PAGE_SIZE
  let stop := if stop > MEMORY_MAX_PHYS then MEMORY_MAX_PHYS else stop
  modify fun s => (pageRange start stop).foldl Phys.reservePage s

/-! ### Boot -/

def MB2_TAG_END : UInt32 := 0
def MB2_TAG_MEMMAP : UInt32 := 6
def MB2_MEM_AVAILABLE : UInt32 := 1

/-- What the boot loader left in memory, and where the linker put the kernel. -/
structure Boot where
  ram : UInt64 → UInt8
  kernelStart : UInt64
  kernelEnd : UInt64

namespace Boot

variable (boot : Boot)

def u32 (addr : UInt64) : UInt32 := UInt32.ofNat (ofBytes (fun i => boot.ram (addr + UInt64.ofNat i)) 4)

def u64 (addr : UInt64) : UInt64 := UInt64.ofNat (ofBytes (fun i => boot.ram (addr + UInt64.ofNat i)) 8)

/-- One `struct mb2_memmap_entry`: base, length and type. -/
def releaseEntry (entry : UInt64) : Exec Phys Unit :=
  if boot.u32 (entry + 16) = MB2_MEM_AVAILABLE then
    releaseRegion (boot.u64 entry) (boot.u64 entry + boot.u64 (entry + 8))
  else pure ()

def releaseEntries (entrySize endOff : UInt64) : ℕ → UInt64 → Exec Phys Unit
  | 0, _ => hang
  | fuel + 1, entryOff =>
    if entryOff + entrySize ≤ endOff then do
      boot.releaseEntry entryOff
      releaseEntries entrySize endOff fuel (entryOff + entrySize)
    else pure ()

/-- A `struct mb2_memmap_tag` is 16 bytes: type, size, entry size and version. -/
def readTag (fuel : ℕ) (offset : UInt64) : Exec Phys Unit :=
  if boot.u32 offset = MB2_TAG_MEMMAP then
    boot.releaseEntries (boot.u32 (offset + 8)).toUInt64 (offset + (boot.u32 (offset + 4)).toUInt64) fuel (offset + 16)
  else pure ()

def readTags : ℕ → UInt64 → Exec Phys Unit
  | 0, _ => hang
  | fuel + 1, offset =>
    if boot.u32 offset = MB2_TAG_END then pure ()
    else do
      boot.readTag fuel offset
      readTags fuel (offset + ((boot.u32 (offset + 4) + 7) &&& ~~~7).toUInt64)

/-- The information itself is kept. -/
def reserveInfo (info : UInt64) : Exec Phys Unit :=
  if boot.u32 info ≠ 0 then reserveRegion info (info + (boot.u32 info).toUInt64) else pure ()

def memoryInit (fuel : ℕ) (info : UInt64) : Exec Phys Unit := do
  modify fun _ => Phys.full
  if info = 0 then pure ()
  else do
    boot.readTags fuel (info + 8)
    reserveRegion 0 0x100000
    reserveRegion boot.kernelStart boot.kernelEnd
    boot.reserveInfo info

end Boot

/-! ### Allocation -/

/-- The pages that are not free. -/
def usedPages (s : Phys) (page : ℕ) : Bool := !pageIsFree s.bitmap page

/-- The loop over the pages is `findRun`. -/
def physAllocPages (count : UInt64) : Exec Phys UInt64 := fun s =>
  if count = 0 then (.ok 0, s)
  else
    match findRun (usedPages s) count.toNat MEMORY_MAX_PAGES 0 0 0 with
    | none => (.ok 0, s)
    | some start =>
      (.ok (UInt64.ofNat start * MEMORY_PAGE_SIZE),
        { s with
          bitmap := (List.range count.toNat).foldl (fun b i => pageMarkUsed b (start + i)) s.bitmap
          freePageCount := s.freePageCount - count })

def Phys.freePage (s : Phys) (page : ℕ) : Phys :=
  if page < MEMORY_MAX_PAGES ∧ pageIsFree s.bitmap page = false then
    { s with
      bitmap := pageMarkFree s.bitmap page
      freePageCount := s.freePageCount + 1 }
  else s

def physFreePages (physAddr count : UInt64) : Exec Phys Unit :=
  modify fun s => (List.range count.toNat).foldl
    (fun s i => s.freePage (physAddr / MEMORY_PAGE_SIZE + UInt64.ofNat i).toNat) s

/-- `memory_free_pages` -/
def memoryFreePages : Exec Phys UInt64 := gets (·.freePageCount)

end Tg11Kernel.Memory.Physical
