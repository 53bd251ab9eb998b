import Tg11Kernel.Heap.Pages
import Tg11Kernel.Memory.Allocator

/-! The heap of the kernel. A window of addresses is handed out in runs of pages, which
`virt_bitmap` keeps account of; a run that is allocated is mapped to a run of frames. A
region of `kmalloc` begins with a header. A null pointer is an error return. -/

namespace Tg11Kernel.Heap

open Lib Exec Memory

def KMALLOC_HEADER_MAGIC : UInt64 := 0x4B4D414C4C4F435F

/-- The memory, and the bits of the pages that are taken. -/
structure Kernel where
  mem : Mem
  virt : Bitmap

def Kernel.onMem {α : Type} (p : Exec Mem α) : Exec Kernel α := fun s =>
  let r := p s.mem
  (r.1, { s with mem := r.2 })

def virtAddr (page : ℕ) : UInt64 := MEMORY_VIRT_BASE + UInt64.ofNat page * MEMORY_PAGE_SIZE

/-- The loop over the pages of the window is `findRun`. -/
def findVirtualRun (virt : Bitmap) (count : UInt64) : ℕ :=
  (findRun virt.test count.toNat MEMORY_VIRT_PAGES 0 0 0).getD MEMORY_VIRT_PAGES

def markVirtualRun (start : ℕ) (count : UInt64) (used : Bool) : Exec Kernel Unit :=
  modify fun s => { s with
    virt := (List.range count.toNat).foldl (fun b i => if used then b.set (start + i) else b.clear (start + i)) s.virt }

def virtReservePages (count : UInt64) : Exec Kernel UInt64 := do
  require (count ≠ 0)
  let virtPage ← gets fun s => findVirtualRun s.virt count
  require (virtPage < MEMORY_VIRT_PAGES)
  markVirtualRun virtPage count true
  pure (virtAddr virtPage)

/-- Page `i` of a region. On an error the pages before it are unmapped, the last first. -/
def mapVirtPage (virtPage : ℕ) (phys : UInt64) (i : ℕ) : Exec Mem Unit :=
  orElse (pagingMapPage (virtAddr (virtPage + i)) (phys + UInt64.ofNat i * MEMORY_PAGE_SIZE) PAGE_FLAG_WRITABLE)
    ((List.range i).reverse.forM fun j => pagingUnmapPage (virtAddr (virtPage + j)))

def virtAllocPages (count : UInt64) : Exec Kernel UInt64 := do
  require (count ≠ 0)
  let virtPage ← gets fun s => findVirtualRun s.virt count
  require (virtPage < MEMORY_VIRT_PAGES)
  let phys ← Kernel.onMem (physAllocPages count.toNat)
  require (phys ≠ 0)
  markVirtualRun virtPage count true
  orElse (Kernel.onMem ((List.range count.toNat).forM (mapVirtPage virtPage phys))) (do
    markVirtualRun virtPage count false
    Kernel.onMem (physFreePages phys count.toNat))
  pure (virtAddr virtPage)

def unmapVirtPage (pageVirt : UInt64) : Exec Mem Unit := do
  let phys ← gets fun m => pagingGetPhys m.tables pageVirt
  if phys ≠ 0 then do
    pagingUnmapPage pageVirt
    physFreePage (phys &&& PAGE_ADDR_MASK)
  else pure ()

def freeVirtPage (virtAddr : UInt64) (virtPage i : ℕ) : Exec Kernel Unit := do
  Kernel.onMem (unmapVirtPage (virtAddr + UInt64.ofNat i * MEMORY_PAGE_SIZE))
  modify fun s => { s with virt := s.virt.clear (virtPage + i) }

/-- What is no region, or not its start, is ignored. -/
def virtFreePages (addr count : UInt64) : Exec Kernel Unit :=
  if addr = 0 ∨ count = 0 then pure ()
  else if addr < MEMORY_VIRT_BASE ∨ addr ≥ MEMORY_VIRT_LIMIT then pure ()
  else if ¬ Aligned addr then pure ()
  else
    let virtPage := ((addr - MEMORY_VIRT_BASE) / MEMORY_PAGE_SIZE).toNat
    (List.range (min count.toNat (MEMORY_VIRT_PAGES - virtPage))).forM (freeVirtPage addr virtPage)

/-! ### Headers -/

/-- `align_up(sizeof(struct kmalloc_header), 16)`; the fields are `magic`, `pages`, `size` and `reserved`. -/
def kmallocHeaderSize : UInt64 := Physical.alignUp 32 16

/-- A word, read byte by byte. -/
def readWord (addr : UInt64) : Exec Mem UInt64 := fun m =>
  if ∀ i < 8, (readByte m.tables (addr + UInt64.ofNat i)).isSome then
    (.ok (UInt64.ofNat (ofBytes (fun i => (readByte m.tables (addr + UInt64.ofNat i)).getD 0) 8)), m)
  else (.hang, m)

/-- A word of a header is written. A header lies in one page, the first of its region. -/
def writeWord (addr value : UInt64) : Exec Mem Unit :=
  writePage (addr &&& ~~~4095) (addr.toNat % 4096) 8 (byteOf value.toNat)

/-- The pages for a header and the bytes asked for. -/
def kmallocPages (size : UInt64) : UInt64 :=
  let totalBytes := kmallocHeaderSize + Physical.alignUp size 16
  (totalBytes + MEMORY_PAGE_SIZE - 1) / MEMORY_PAGE_SIZE

def kmalloc (size : UInt64) : Exec Kernel UInt64 := do
  require (size ≠ 0)
  let base ← virtAllocPages (kmallocPages size)
  Kernel.onMem (writeWord base KMALLOC_HEADER_MAGIC)
  Kernel.onMem (writeWord (base + 8) (kmallocPages size))
  Kernel.onMem (writeWord (base + 16) size)
  Kernel.onMem (writeWord (base + 24) 0)
  pure (base + kmallocHeaderSize)

/-- What has no header is ignored. -/
def kfree (ptr : UInt64) : Exec Kernel Unit :=
  if ptr = 0 then pure ()
  else if ptr < MEMORY_VIRT_BASE + kmallocHeaderSize ∨ ptr ≥ MEMORY_VIRT_LIMIT then pure ()
  else do
    let headerAddr := ptr - kmallocHeaderSize
    let magic ← Kernel.onMem (readWord headerAddr)
    if magic ≠ KMALLOC_HEADER_MAGIC then pure ()
    else do
      let pages ← Kernel.onMem (readWord (headerAddr + 8))
      if pages = 0 then pure ()
      else do
        Kernel.onMem (writeWord headerAddr 0)
        let pages ← Kernel.onMem (readWord (headerAddr + 8))
        virtFreePages headerAddr pages

end Tg11Kernel.Heap
