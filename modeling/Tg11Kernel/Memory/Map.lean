import Tg11Kernel.Memory.Frames

/-! The page-table operations. A table is read and written entry by entry, and a walk goes
from the root to the entry of the last level. A nonzero return is an error return. -/

namespace Tg11Kernel.Memory

open Lib Exec

def PAGE_FLAG_NO_EXECUTE : UInt64 := 0x8000000000000000
def PAGE_FLAGS_MASK : UInt64 := 0xFFF

/-! ### Memory -/

namespace PageTables

variable (t : PageTables)

def setEntry (a e : UInt64) : PageTables := { t with entry := fun x => if x = a then e else t.entry x }

/-- The byte at an offset in the frame at an address. -/
def frameByte (frame : UInt64) (off : ℕ) : UInt8 := byteOf (t.entry (frame + 8 * UInt64.ofNat (off / 8))).toNat (off % 8)

/-- The bytes `off .. off + n` of a frame are replaced. -/
def storeBytes (frame : UInt64) (off n : ℕ) (f : ℕ → UInt8) : PageTables :=
  { t with
    entry := fun a =>
      if frame ≤ a ∧ a - frame < MEMORY_PAGE_SIZE then
        UInt64.ofNat (ofBytes (fun j =>
          let i := (a - frame).toNat + j
          if off ≤ i ∧ i < off + n then f (i - off) else byteOf (t.entry a).toNat j) 8)
      else t.entry a }

/-- Where the entries of an address stand. -/
def pml4Slot (addr : UInt64) : UInt64 := (t.cr3 &&& PAGE_ADDR_MASK) + 8 * pml4Index addr
def pdptSlot (addr : UInt64) : UInt64 := (t.pml4e addr &&& PAGE_ADDR_MASK) + 8 * pdptIndex addr
def pdSlot (addr : UInt64) : UInt64 := (t.pdpte addr &&& PAGE_ADDR_MASK) + 8 * pdIndex addr
def ptSlot (addr : UInt64) : UInt64 := (t.pde addr &&& PAGE_ADDR_MASK) + 8 * ptIndex addr

end PageTables

def Mem.setEntry (m : Mem) (a e : UInt64) : Mem := { m with tables := m.tables.setEntry a e }

def Mem.storeBytes (m : Mem) (frame : UInt64) (off n : ℕ) (f : ℕ → UInt8) : Mem :=
  { m with tables := m.tables.storeBytes frame off n f }

/-! ### Tables -/

def allocPageTable : Exec Mem UInt64 := do
  let phys ← physAllocPage
  require (phys ≠ 0)
  modify fun m => m.storeBytes phys 0 4096 fun _ => 0
  pure phys

/-- The table that the entry at `slot` points at, made when there is none. -/
def ensureNextTable (slot : UInt64) : Exec Mem UInt64 := do
  let entry ← gets fun m => m.tables.entry slot
  if has entry PAGE_FLAG_PRESENT = true then do
    require (has entry PAGE_FLAG_HUGE = false)
    pure (entry &&& PAGE_ADDR_MASK)
  else do
    let table ← allocPageTable
    modify fun m => m.setEntry slot ((table &&& PAGE_ADDR_MASK) ||| PAGE_FLAG_PRESENT ||| PAGE_FLAG_WRITABLE)
    pure table

/-- The flags of a page that its upper entries need as well. -/
def grantFlags (flags entry : UInt64) : UInt64 :=
  let entry := if has flags PAGE_FLAG_USER = true then entry ||| PAGE_FLAG_USER else entry
  if has flags PAGE_FLAG_WRITABLE = true then entry ||| PAGE_FLAG_WRITABLE else entry

/-- One level of `paging_map_page`. -/
def descend (flags table i : UInt64) : Exec Mem UInt64 := do
  let slot := table + 8 * i
  let next ← ensureNextTable slot
  modify fun m => m.setEntry slot (grantFlags flags (m.tables.entry slot))
  pure next

/-- The entry of a page. -/
def pageEntry (phys flags : UInt64) : UInt64 :=
  (phys &&& PAGE_ADDR_MASK) ||| (flags &&& (PAGE_FLAGS_MASK ||| PAGE_FLAG_NO_EXECUTE)) ||| PAGE_FLAG_PRESENT

def Aligned (addr : UInt64) : Prop := addr &&& (MEMORY_PAGE_SIZE - 1) = 0

instance (addr : UInt64) : Decidable (Aligned addr) := inferInstanceAs (Decidable (_ = _))

def pagingMapPage (virtAddr physAddr flags : UInt64) : Exec Mem Unit := do
  require (Aligned virtAddr ∧ Aligned physAddr)
  let pml4 ← gets fun m => m.tables.cr3 &&& PAGE_ADDR_MASK
  let pdpt ← descend flags pml4 (pml4Index virtAddr)
  let pd ← descend flags pdpt (pdptIndex virtAddr)
  let pt ← descend flags pd (pdIndex virtAddr)
  let slot := pt + 8 * ptIndex virtAddr
  let entry ← gets fun m => m.tables.entry slot
  require (has entry PAGE_FLAG_PRESENT = false)
  modify fun m => m.setEntry slot (pageEntry physAddr flags)

/-- The address has an entry of the last level. -/
def PageTables.Mapped (t : PageTables) (addr : UInt64) : Prop :=
  has (t.pml4e addr) PAGE_FLAG_PRESENT = true ∧ has (t.pdpte addr) PAGE_FLAG_PRESENT = true ∧
    has (t.pde addr) PAGE_FLAG_PRESENT = true ∧ has (t.pde addr) PAGE_FLAG_HUGE = false ∧
    has (t.pte addr) PAGE_FLAG_PRESENT = true

instance (t : PageTables) (addr : UInt64) : Decidable (t.Mapped addr) := inferInstanceAs (Decidable (_ ∧ _))

def pagingSetPageFlags (virtAddr flags : UInt64) : Exec Mem Unit := do
  require (Aligned virtAddr)
  let t ← gets Mem.tables
  require (t.Mapped virtAddr)
  modify fun m => m.setEntry (t.ptSlot virtAddr) (pageEntry (t.pte virtAddr) flags)

/-- The entries that replace a large page. -/
def splitEntry (pde : UInt64) (i : ℕ) : UInt64 :=
  ((pde &&& PAGE_LARGE_ADDR_MASK) + UInt64.ofNat i * MEMORY_PAGE_SIZE) |||
    (pde &&& (PAGE_FLAG_PRESENT ||| PAGE_FLAG_WRITABLE))

/-- The entries of the new table. -/
def PageTables.fillTable (t : PageTables) (table pde : UInt64) : PageTables :=
  { t with
    entry := fun a =>
      if table ≤ a ∧ a - table < MEMORY_PAGE_SIZE then splitEntry pde ((a - table) / 8).toNat else t.entry a }

def pagingSplitHugePage (virtAddr : UInt64) : Exec Mem Unit := do
  require (Aligned virtAddr)
  let t ← gets Mem.tables
  if has (t.pml4e virtAddr) PAGE_FLAG_PRESENT = false then pure ()
  else if has (t.pdpte virtAddr) PAGE_FLAG_PRESENT = false then pure ()
  else if has (t.pde virtAddr) PAGE_FLAG_PRESENT = false then pure ()
  else if has (t.pde virtAddr) PAGE_FLAG_HUGE = false then pure ()
  else do
    let newPt ← allocPageTable
    modify fun m => { m with tables := m.tables.fillTable newPt (t.pde virtAddr) }
    modify fun m => m.setEntry (t.pdSlot virtAddr) ((newPt &&& PAGE_ADDR_MASK) ||| PAGE_FLAG_PRESENT ||| PAGE_FLAG_WRITABLE)

def Mem.unmapPage (m : Mem) (virtAddr : UInt64) : Mem :=
  if Aligned virtAddr ∧ m.tables.Mapped virtAddr then m.setEntry (m.tables.ptSlot virtAddr) 0 else m

def pagingUnmapPage (virtAddr : UInt64) : Exec Mem Unit := modify fun m => m.unmapPage virtAddr

/-! ### Access through the mapping -/

/-- The upper bits of an address repeat bit 47; others fault. -/
def Canonical (addr : UInt64) : Prop := addr < 0x800000000000 ∨ addr ≥ 0xFFFF800000000000

instance (addr : UInt64) : Decidable (Canonical addr) := inferInstanceAs (Decidable (_ ∨ _))

/-- The kernel writes `n` bytes from an offset in a page on. A write without a translation,
or one that leaves the page, is a fault. -/
def writePage (page : UInt64) (off n : ℕ) (f : ℕ → UInt8) : Exec Mem Unit := fun m =>
  if Canonical page ∧ off + n ≤ 4096 then
    match translate m.tables page with
    | some tr => (.ok (), m.storeBytes tr.phys off n f)
    | none => (.hang, m)
  else (.hang, m)

/-- The byte that a read of an address gives. -/
def readByte (t : PageTables) (addr : UInt64) : Option UInt8 :=
  if Canonical addr then
    (translate t addr).map fun tr => t.frameByte (tr.phys &&& ~~~0xFFF) (tr.phys &&& 0xFFF).toNat
  else none

end Tg11Kernel.Memory
