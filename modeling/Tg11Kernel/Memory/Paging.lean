import Mathlib.Data.List.Basic

/-! The four-level page walk: as `paging_get_phys` makes it in software, and as
the processor makes it for an access. They differ where a third-level entry maps
a gigabyte, which the software walk takes for a table. -/

namespace Tg11Kernel.Memory

def PAGE_FLAG_PRESENT : UInt64 := 0x001
def PAGE_FLAG_WRITABLE : UInt64 := 0x002
def PAGE_FLAG_USER : UInt64 := 0x004
def PAGE_FLAG_HUGE : UInt64 := 0x080
def MEMORY_PAGE_SIZE : UInt64 := 4096
def PAGE_ADDR_MASK : UInt64 := 0x000FFFFFFFFFF000
def PAGE_LARGE_ADDR_MASK : UInt64 := 0x000FFFFFFFE00000

/-- The address bits of an entry that maps a gigabyte. -/
def gigabyteAddrMask : UInt64 := 0x000FFFFFC0000000

/-- The root register, and the entry at every physical address. -/
structure PageTables where
  cr3 : UInt64
  entry : UInt64 → UInt64

def pml4Index (addr : UInt64) : UInt64 := (addr >>> 39) &&& 0x1FF
def pdptIndex (addr : UInt64) : UInt64 := (addr >>> 30) &&& 0x1FF
def pdIndex (addr : UInt64) : UInt64 := (addr >>> 21) &&& 0x1FF
def ptIndex (addr : UInt64) : UInt64 := (addr >>> 12) &&& 0x1FF

namespace PageTables

variable (t : PageTables)

/-- Entry `i` of the table that `parent` (an entry or the root register) points at. -/
def lookup (parent i : UInt64) : UInt64 := t.entry ((parent &&& PAGE_ADDR_MASK) + 8 * i)

def pml4e (addr : UInt64) : UInt64 := t.lookup t.cr3 (pml4Index addr)
def pdpte (addr : UInt64) : UInt64 := t.lookup (t.pml4e addr) (pdptIndex addr)
def pde (addr : UInt64) : UInt64 := t.lookup (t.pdpte addr) (pdIndex addr)
def pte (addr : UInt64) : UInt64 := t.lookup (t.pde addr) (ptIndex addr)

end PageTables

/-- The entry has the flag set. -/
def has (entry flag : UInt64) : Bool := entry &&& flag != 0

/-- Zero for an address that is not mapped. -/
def pagingGetPhys (t : PageTables) (addr : UInt64) : UInt64 :=
  if !has (t.pml4e addr) PAGE_FLAG_PRESENT then 0
  else if !has (t.pdpte addr) PAGE_FLAG_PRESENT then 0
  else if !has (t.pde addr) PAGE_FLAG_PRESENT then 0
  else if has (t.pde addr) PAGE_FLAG_HUGE then (t.pde addr &&& PAGE_LARGE_ADDR_MASK) ||| (addr &&& 0x1FFFFF)
  else if !has (t.pte addr) PAGE_FLAG_PRESENT then 0
  else (t.pte addr &&& PAGE_ADDR_MASK) ||| (addr &&& (MEMORY_PAGE_SIZE - 1))

/-- What the processor finds for an address: the physical address, and the entries
on the way whose permission bits all have to allow an access. -/
structure Translation where
  phys : UInt64
  entries : List UInt64

def translate (t : PageTables) (addr : UInt64) : Option Translation :=
  let e4 := t.pml4e addr
  let e3 := t.pdpte addr
  let e2 := t.pde addr
  let e1 := t.pte addr
  if !has e4 PAGE_FLAG_PRESENT then none
  else if !has e3 PAGE_FLAG_PRESENT then none
  else if has e3 PAGE_FLAG_HUGE then some ⟨(e3 &&& gigabyteAddrMask) ||| (addr &&& 0x3FFFFFFF), [e4, e3]⟩
  else if !has e2 PAGE_FLAG_PRESENT then none
  else if has e2 PAGE_FLAG_HUGE then some ⟨(e2 &&& PAGE_LARGE_ADDR_MASK) ||| (addr &&& 0x1FFFFF), [e4, e3, e2]⟩
  else if !has e1 PAGE_FLAG_PRESENT then none
  else some ⟨(e1 &&& PAGE_ADDR_MASK) ||| (addr &&& (MEMORY_PAGE_SIZE - 1)), [e4, e3, e2, e1]⟩

/-- The page of the address is mapped, with the flag at every level. -/
def MappedWith (t : PageTables) (addr flag : UInt64) : Prop :=
  ∃ tr, translate t addr = some tr ∧ ∀ e ∈ tr.entries, has e flag = true

instance (t : PageTables) (addr flag : UInt64) : Decidable (MappedWith t addr flag) :=
  match h : translate t addr with
  | none => isFalse (by rintro ⟨tr, htr, -⟩; rw [h] at htr; cases htr)
  | some tr =>
    if hall : (tr.entries.all fun e => has e flag) = true then isTrue ⟨tr, h, List.all_eq_true.1 hall⟩
    else isFalse (by rintro ⟨tr', htr', hall'⟩; rw [h] at htr'; cases htr'; exact hall (List.all_eq_true.2 hall'))

theorem translate_of_pagingGetPhys {t : PageTables} {addr : UInt64} (h : pagingGetPhys t addr ≠ 0) :
    ∃ tr, translate t addr = some tr := by
  unfold pagingGetPhys at h
  unfold translate
  dsimp only
  split_ifs at h ⊢ <;> first | exact ⟨_, rfl⟩ | exact absurd rfl h

theorem translate_phys {t : PageTables} {addr : UInt64} (h : pagingGetPhys t addr ≠ 0)
    (hhuge : has (t.pdpte addr) PAGE_FLAG_HUGE = false) :
    (translate t addr).map Translation.phys = some (pagingGetPhys t addr) := by
  unfold pagingGetPhys at h ⊢
  unfold translate
  simp only [hhuge, Bool.false_eq_true, if_false]
  split_ifs at h ⊢ <;> first | rfl | exact absurd rfl h

end Tg11Kernel.Memory
