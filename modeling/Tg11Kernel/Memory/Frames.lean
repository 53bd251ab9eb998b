import Tg11Kernel.Memory.Paging
import Tg11Kernel.Lib.Exec
import Tg11Kernel.Lib.Bytes

/-! The frame allocator. A bitmap has a bit for every page of physical memory up to
`MEMORY_MAX_PHYS`. The kernel reaches physical memory, the tables included, at its
physical addresses: the mapping made at boot is taken to be there for that. -/

namespace Tg11Kernel.Memory

open Lib Exec

def MEMORY_MAX_PAGES : ℕ := 2 ^ 20

/-- Physical memory, the bitmap of its frames, and `free_page_count`. -/
structure Mem where
  tables : PageTables
  used : ℕ → Bool
  freePageCount : UInt64

/-- The loop of `phys_alloc_pages` over so many pages from `page` on: the start of the
first run of `count` free pages. -/
def findRun (used : ℕ → Bool) (count : ℕ) : ℕ → ℕ → ℕ → ℕ → Option ℕ
  | 0, _, _, _ => none
  | left + 1, page, run, start =>
    if used page = true then findRun used count left (page + 1) 0 start
    else
      let start := if run = 0 then page else start
      if run + 1 = count then some start else findRun used count left (page + 1) (run + 1) start

/-- The address of the run, or 0. -/
def physAllocPages (count : ℕ) : Exec Mem UInt64 := fun m =>
  if count = 0 then (.ok 0, m)
  else
    match findRun m.used count MEMORY_MAX_PAGES 0 0 0 with
    | none => (.ok 0, m)
    | some start =>
      (.ok (UInt64.ofNat start * MEMORY_PAGE_SIZE),
        { m with
          used := fun page => if start ≤ page ∧ page < start + count then true else m.used page
          freePageCount := m.freePageCount - UInt64.ofNat count })

def physAllocPage : Exec Mem UInt64 := physAllocPages 1

def Mem.freeFrame (m : Mem) (page : ℕ) : Mem :=
  if page < MEMORY_MAX_PAGES ∧ m.used page = true then
    { m with
      used := fun p => if p = page then false else m.used p
      freePageCount := m.freePageCount + 1 }
  else m

def physFreePages (physAddr : UInt64) (count : ℕ) : Exec Mem Unit :=
  modify fun m => (List.range count).foldl (fun m i => m.freeFrame ((physAddr / MEMORY_PAGE_SIZE).toNat + i)) m

def physFreePage (physAddr : UInt64) : Exec Mem Unit := physFreePages physAddr 1

/-! ### One page -/

/-- The page that a run of one free page is. -/
theorem findRun_one {used : ℕ → Bool} {left page start n : ℕ} (h : findRun used 1 left page 0 start = some n) :
    page ≤ n ∧ n < page + left ∧ used n = false := by
  induction left generalizing page with
  | zero => cases h
  | succ left ih =>
    unfold findRun at h
    by_cases hused : used page = true
    · rw [if_pos hused] at h
      obtain ⟨hle, hlt, hfree⟩ := ih h
      exact ⟨by omega, by omega, hfree⟩
    · simp only [if_neg hused, if_true, Nat.zero_add, Option.some.injEq] at h
      subst h
      exact ⟨le_rfl, by omega, by simpa using hused⟩

theorem frame_toNat {n : ℕ} (h : n < MEMORY_MAX_PAGES) : (UInt64.ofNat n * MEMORY_PAGE_SIZE).toNat = n * 4096 := by
  unfold MEMORY_MAX_PAGES at h
  have hn : (UInt64.ofNat n).toNat = n := UInt64.toNat_ofNat_of_lt' (by unfold UInt64.size; omega)
  have hsize : MEMORY_PAGE_SIZE.toNat = 4096 := rfl
  rw [UInt64.toNat_mul, hn, hsize, Nat.mod_eq_of_lt (by omega)]

/-- The number of the frame at a physical address. -/
def frameNo (phys : UInt64) : ℕ := (phys / MEMORY_PAGE_SIZE).toNat

theorem frameNo_eq (phys : UInt64) : frameNo phys = phys.toNat / 4096 := UInt64.toNat_div ..

theorem frameNo_ofNat {n : ℕ} (h : n < MEMORY_MAX_PAGES) : frameNo (UInt64.ofNat n * MEMORY_PAGE_SIZE) = n := by
  rw [frameNo_eq, frame_toNat h, Nat.mul_div_cancel _ (by decide)]

/-- One page is taken: nothing happens and the answer is 0, or a free frame is marked used.
The frame 0 is never free, so 0 means that there is none. -/
theorem physAllocPage_cases {m : Mem} (hzero : m.used 0 = true) : physAllocPage m = (.ok 0, m) ∨
      ∃ n, n ≠ 0 ∧ n < MEMORY_MAX_PAGES ∧ m.used n = false ∧
        physAllocPage m = (.ok (UInt64.ofNat n * MEMORY_PAGE_SIZE),
          { m with
            used := fun page => if page = n then true else m.used page
            freePageCount := m.freePageCount - 1 }) := by
  unfold physAllocPage physAllocPages
  rw [if_neg one_ne_zero]
  cases h : findRun m.used 1 MEMORY_MAX_PAGES 0 0 0 with
  | none => exact .inl rfl
  | some n =>
    obtain ⟨-, hlt, hfree⟩ := findRun_one h
    rw [Nat.zero_add] at hlt
    refine .inr ⟨n, ?_, hlt, hfree, ?_⟩
    · rintro rfl
      rw [hzero] at hfree
      cases hfree
    · have hone (page : ℕ) : (n ≤ page ∧ page < n + 1) ↔ page = n := by omega
      simp only [hone]
      rfl

theorem physFreePage_apply (phys : UInt64) (m : Mem) : physFreePage phys m = (.ok (), m.freeFrame (frameNo phys)) := rfl

@[simp] theorem freeFrame_tables (m : Mem) (page : ℕ) : (m.freeFrame page).tables = m.tables := by
  unfold Mem.freeFrame
  split_ifs <;> rfl

theorem freeFrame_used {m : Mem} {page : ℕ} (h : page < MEMORY_MAX_PAGES) (p : ℕ) :
    (m.freeFrame page).used p = if p = page then false else m.used p := by
  unfold Mem.freeFrame
  by_cases hused : m.used page = true
  · rw [if_pos ⟨h, hused⟩]
  · rw [if_neg fun h => hused h.2]
    by_cases hp : p = page
    · rw [if_pos hp, hp]
      simpa using hused
    · rw [if_neg hp]

end Tg11Kernel.Memory
