import Tg11Kernel.Memory.Physical
import Mathlib.Order.Interval.Finset.Nat
import Mathlib.Data.Finset.Card

/-! The allocator over whole histories. The count of free pages is the number of clear bits
in every state, a page is free or in one live allocation exactly when it was free after
`memory_init`, and an allocation finds the lowest run there is. -/

namespace Tg11Kernel.Memory

open Lib Exec

/-! ### The first run -/

/-- The pages of a run below `n` that are all unused. -/
structure IsRun (used : ℕ → Bool) (n start count : ℕ) : Prop where
  le : start + count ≤ n
  free : ∀ p, start ≤ p → p < start + count → used p = false

/-- What the search for a run answers: the lowest one. -/
def Lowest (used : ℕ → Bool) (n count : ℕ) : Option ℕ → Prop
  | none => ∀ m, ¬ IsRun used n m count
  | some start => IsRun used n start count ∧ ∀ m < start, ¬ IsRun used n m count

variable {used : ℕ → Bool} {count : ℕ}

/-- The search, in the middle of a run that began `run` pages before. -/
theorem findRun_lowest {left page run start : ℕ} (hle : run ≤ page) (hlt : run < count)
    (hfree : ∀ p, page - run ≤ p → p < page → used p = false) (hstart : run ≠ 0 → start = page - run)
    (hlow : ∀ m < page - run, ¬ IsRun used (page + left) m count) :
    Lowest used (page + left) count (findRun used count left page run start) := by
  induction left generalizing page run start with
  | zero =>
    intro m hm
    have hend := hm.le
    by_cases h : m < page - run
    · exact hlow m h hm
    · omega
  | succ left ih =>
    have hnext : page + (left + 1) = page + 1 + left := by omega
    unfold findRun
    by_cases hused : used page = true
    · rw [if_pos hused, hnext]
      apply ih (Nat.zero_le _) (by omega)
      · intro p h₁ h₂
        omega
      · intro h
        exact absurd rfl h
      · intro m hm hrun
        by_cases h : m < page - run
        · rw [hnext] at hlow
          exact hlow m h hrun
        · -- the run would hold the used page
          have hpage := hrun.free page (by omega) (by omega)
          rw [hused] at hpage
          cases hpage
    · rw [if_neg hused]
      have hbegin : (if run = 0 then page else start) = page - run := by
        by_cases h : run = 0
        · rw [if_pos h, h]
          rfl
        · rw [if_neg h, hstart h]
      have hfree' : ∀ p, page - run ≤ p → p < page + 1 → used p = false := by
        intro p h₁ h₂
        by_cases hp : p = page
        · rw [hp]
          simpa using hused
        · exact hfree p h₁ (by omega)
      simp only [hbegin]
      by_cases hcount : run + 1 = count
      · rw [if_pos hcount]
        refine ⟨⟨by omega, fun p h₁ h₂ => hfree' p h₁ (by omega)⟩, hlow⟩
      · rw [if_neg hcount, hnext]
        have hbase : page + 1 - (run + 1) = page - run := by omega
        apply ih (by omega) (by omega)
        · rw [hbase]
          exact hfree'
        · intro _
          exact hbase.symm
        · rw [hbase, ← hnext]
          exact hlow

theorem findRun_spec {n : ℕ} (h : 0 < count) : Lowest used n count (findRun used count n 0 0 0) := by
  have hrun : Lowest used (0 + n) count (findRun used count n 0 0 0) := findRun_lowest (Nat.le_refl 0) h
    (fun p _ hp => absurd hp (Nat.not_lt_zero p)) (fun h => absurd rfl h) (fun m hm => absurd hm (Nat.not_lt_zero m))
  rwa [Nat.zero_add] at hrun

namespace Physical

/-! ### The count -/

@[simp] theorem pageIsFree_pageMarkUsed (b : Bitmap) (p q : ℕ) :
    pageIsFree (pageMarkUsed b p) q = if q = p then false else pageIsFree b q := by
  unfold pageIsFree pageMarkUsed
  rw [Bitmap.test_set]
  split_ifs <;> rfl

@[simp] theorem pageIsFree_pageMarkFree (b : Bitmap) (p q : ℕ) :
    pageIsFree (pageMarkFree b p) q = if q = p then true else pageIsFree b q := by
  unfold pageIsFree pageMarkFree
  rw [Bitmap.test_clear]
  split_ifs <;> rfl

/-- The pages whose bit is clear. -/
def freePages (b : Bitmap) : Finset ℕ := (Finset.range MEMORY_MAX_PAGES).filter fun p => pageIsFree b p = true

variable {b : Bitmap} {p : ℕ} {n count : UInt64} {s s₀ : Phys} {live : List Allocation} {m : Mem}

theorem mem_freePages : p ∈ freePages b ↔ p < MEMORY_MAX_PAGES ∧ pageIsFree b p = true := by
  unfold freePages
  rw [Finset.mem_filter, Finset.mem_range]

theorem card_freePages_le (b : Bitmap) : (freePages b).card ≤ 2 ^ 20 := by
  have h := Finset.card_filter_le (Finset.range MEMORY_MAX_PAGES) fun p => pageIsFree b p = true
  rwa [Finset.card_range] at h

theorem freePages_pageMarkUsed (b : Bitmap) (p : ℕ) : freePages (pageMarkUsed b p) = (freePages b).erase p := by
  ext q
  rw [Finset.mem_erase, mem_freePages, mem_freePages, pageIsFree_pageMarkUsed]
  by_cases hq : q = p <;> simp [hq]

theorem freePages_pageMarkFree (b : Bitmap) (hp : p < MEMORY_MAX_PAGES) :
    freePages (pageMarkFree b p) = insert p (freePages b) := by
  ext q
  rw [Finset.mem_insert, mem_freePages, mem_freePages, pageIsFree_pageMarkFree]
  by_cases hq : q = p
  · simp [hq, hp]
  · simp [hq]

/-- `free_page_count` is the number of clear bits. -/
def Counted (s : Phys) : Prop := s.freePageCount.toNat = (freePages s.bitmap).card

/-- A page freed counts one more. -/
theorem counted_add (hp : p < MEMORY_MAX_PAGES) (hused : pageIsFree b p = false)
    (h : n.toNat = (freePages b).card) : (n + 1).toNat = (freePages (pageMarkFree b p)).card := by
  have hle := card_freePages_le b
  have hnot : p ∉ freePages b := by
    rw [mem_freePages, hused]
    simp
  rw [freePages_pageMarkFree b hp, Finset.card_insert_of_notMem hnot, UInt64.toNat_add, UInt64.toNat_one, h]
  omega

/-- A page taken counts one less. -/
theorem counted_sub (hp : p < MEMORY_MAX_PAGES) (hfree : pageIsFree b p = true)
    (h : n.toNat = (freePages b).card) : (n - 1).toNat = (freePages (pageMarkUsed b p)).card := by
  have hmem := mem_freePages.2 ⟨hp, hfree⟩
  have hpos := Finset.card_pos.2 ⟨p, hmem⟩
  have hle : (1 : UInt64) ≤ n := by
    rw [UInt64.le_iff_toNat_le, UInt64.toNat_one]
    omega
  rw [freePages_pageMarkUsed, Finset.card_erase_of_mem hmem, UInt64.toNat_sub_of_le _ _ hle, UInt64.toNat_one, h]

theorem Counted.releasePage (h : Counted s) (hp : p < MEMORY_MAX_PAGES) : Counted (s.releasePage p) := by
  unfold Phys.releasePage
  split_ifs with hused
  · exact counted_add hp hused h
  · exact h

theorem Counted.reservePage (h : Counted s) (p : ℕ) : Counted (s.reservePage p) := by
  unfold Phys.reservePage
  split_ifs with hfree
  · exact counted_sub hfree.1 hfree.2 h
  · exact h

theorem Counted.freePage (h : Counted s) (p : ℕ) : Counted (s.freePage p) := by
  unfold Phys.freePage
  split_ifs with hused
  · exact counted_add hused.1 hused.2 h
  · exact h

/-! ### Boot -/

theorem alignDown_le (v align : UInt64) : alignDown v align ≤ v := by
  rw [UInt64.le_iff_toNat_le]
  unfold alignDown
  rw [UInt64.toNat_and]
  exact Nat.and_le_left

theorem lt_of_mem_pageRange {start stop : UInt64} (hstop : stop ≤ MEMORY_MAX_PHYS) (hp : p ∈ pageRange start stop) :
    p < MEMORY_MAX_PAGES := by
  unfold pageRange at hp
  obtain ⟨i, hi, rfl⟩ := List.mem_map.1 hp
  rw [List.mem_range] at hi
  have hmax : stop.toNat ≤ 2 ^ 32 := UInt64.le_iff_toNat_le.1 hstop
  show _ < 2 ^ 20
  omega

theorem preserves_releaseRegion (startAddr endAddr : UInt64) : Preserves Counted (releaseRegion startAddr endAddr) := by
  unfold releaseRegion
  by_cases hstart : startAddr ≥ MEMORY_MAX_PHYS
  · rw [if_pos hstart]
    exact Preserves.pure
  · rw [if_neg hstart]
    apply Preserves.modify
    intro s hs
    have hstop : alignDown (if endAddr > MEMORY_MAX_PHYS then MEMORY_MAX_PHYS else endAddr) MEMORY_PAGE_SIZE ≤ MEMORY_MAX_PHYS := by
      apply UInt64.le_trans (alignDown_le _ _)
      split_ifs with hend
      · exact UInt64.le_refl _
      · exact UInt64.not_lt.1 hend
    exact List.foldlRecOn _ _ hs fun t ht p hp => ht.releasePage (lt_of_mem_pageRange hstop hp)

theorem preserves_reserveRegion (startAddr endAddr : UInt64) : Preserves Counted (reserveRegion startAddr endAddr) :=
  Preserves.modify fun _ hs => List.foldlRecOn _ _ hs fun _ ht p _ => ht.reservePage p

namespace Boot

variable (boot : Boot)

theorem preserves_releaseEntries (entrySize endOff : UInt64) (fuel : ℕ) (entryOff : UInt64) :
    Preserves Counted (boot.releaseEntries entrySize endOff fuel entryOff) := by
  induction fuel generalizing entryOff with
  | zero => exact Preserves.hang
  | succ fuel ih =>
    unfold releaseEntries
    split_ifs
    · apply Preserves.bind _ fun _ => ih _
      unfold releaseEntry
      split_ifs
      · exact preserves_releaseRegion _ _
      · exact Preserves.pure
    · exact Preserves.pure

theorem preserves_readTags (fuel : ℕ) (offset : UInt64) : Preserves Counted (boot.readTags fuel offset) := by
  induction fuel generalizing offset with
  | zero => exact Preserves.hang
  | succ fuel ih =>
    unfold readTags
    split_ifs
    · exact Preserves.pure
    · apply Preserves.bind _ fun _ => ih _
      unfold readTag
      split_ifs
      · exact boot.preserves_releaseEntries _ _ _ _
      · exact Preserves.pure

theorem preserves_reserveInfo (info : UInt64) : Preserves Counted (boot.reserveInfo info) := by
  unfold reserveInfo
  split_ifs
  · exact preserves_reserveRegion _ _
  · exact Preserves.pure

/-- Page 0 is taken. -/
def ZeroUsed (s : Phys) : Prop := pageIsFree s.bitmap 0 = false

variable {s s₀ : Phys} {fuel : ℕ} {info : UInt64}

theorem zeroUsed_reservePage (h : ZeroUsed s) (p : ℕ) : ZeroUsed (s.reservePage p) := by
  unfold Phys.reservePage
  split_ifs
  · show pageIsFree (pageMarkUsed s.bitmap p) 0 = false
    rw [pageIsFree_pageMarkUsed, h]
    split_ifs <;> rfl
  · exact h

theorem zeroUsed_reserveRegion (startAddr endAddr : UInt64) : Preserves ZeroUsed (reserveRegion startAddr endAddr) :=
  Preserves.modify fun _ hs => List.foldlRecOn _ _ hs fun _ ht p _ => zeroUsed_reservePage ht p

/-- The first megabyte is reserved. -/
theorem zeroUsed_low (s : Phys) : ZeroUsed (reserveRegion 0 0x100000 s).2 := by
  have hrange : pageRange (alignDown 0 MEMORY_PAGE_SIZE)
      (if alignUp 0x100000 MEMORY_PAGE_SIZE > MEMORY_MAX_PHYS then MEMORY_MAX_PHYS else alignUp 0x100000 MEMORY_PAGE_SIZE) =
      0 :: (List.range 255).map (1 + ·) := by decide +kernel
  unfold reserveRegion
  simp only [modify_apply, hrange, List.foldl_cons]
  apply List.foldlRecOn
  · show pageIsFree _ 0 = false
    unfold Phys.reservePage
    split_ifs with hfree
    · show pageIsFree (pageMarkUsed s.bitmap 0) 0 = false
      rw [pageIsFree_pageMarkUsed, if_pos rfl]
    · have hlt : 0 < MEMORY_MAX_PAGES := by decide
      simpa [hlt] using hfree
  · exact fun t ht p _ => zeroUsed_reservePage ht p

/-- Nothing is free before the map is read. -/
theorem freePages_full : freePages Phys.full.bitmap = ∅ := by
  ext p
  rw [mem_freePages]
  unfold pageIsFree Phys.full
  rw [Bitmap.test_ones]
  simp

theorem counted_full : Counted Phys.full := by
  unfold Counted
  rw [freePages_full]
  rfl

theorem counted_memoryInit (h : boot.memoryInit fuel info s = (.ok (), s₀)) :
    Counted s₀ := by
  have hinit : Preserves (fun _ => True) (Exec.modify fun _ : Phys => Phys.full) := Preserves.modify fun _ _ => trivial
  have hrest : Preserves Counted (if info = 0 then pure () else do
      boot.readTags fuel (info + 8)
      reserveRegion 0 0x100000
      reserveRegion boot.kernelStart boot.kernelEnd
      boot.reserveInfo info) := by
    split_ifs
    · exact Preserves.pure
    · apply (boot.preserves_readTags fuel (info + 8)).bind
      intro _
      apply (preserves_reserveRegion _ _).bind
      intro _
      exact (preserves_reserveRegion _ _).bind fun _ => boot.preserves_reserveInfo info
  have hend := hrest Phys.full counted_full
  have heq : boot.memoryInit fuel info s = (if info = 0 then pure () else do
      boot.readTags fuel (info + 8)
      reserveRegion 0 0x100000
      reserveRegion boot.kernelStart boot.kernelEnd
      boot.reserveInfo info) Phys.full := rfl
  rwa [← heq, h] at hend

theorem zeroUsed_memoryInit (h : boot.memoryInit fuel info s = (.ok (), s₀)) :
    ZeroUsed s₀ := by
  unfold memoryInit at h
  obtain ⟨_, t, ht, h⟩ := bind_ok_iff.1 h
  cases ht
  by_cases hinfo : info = 0
  · rw [if_pos hinfo] at h
    cases h
    show pageIsFree (fun _ => 0xFF) 0 = false
    rfl
  · rw [if_neg hinfo] at h
    obtain ⟨_, t₁, -, h⟩ := bind_ok_iff.1 h
    obtain ⟨_, t₂, ht₂, h⟩ := bind_ok_iff.1 h
    have hlow := zeroUsed_low t₁
    rw [ht₂] at hlow
    have hrest : Preserves ZeroUsed (do
        reserveRegion boot.kernelStart boot.kernelEnd
        boot.reserveInfo info) := by
      apply (zeroUsed_reserveRegion _ _).bind
      intro _
      unfold reserveInfo
      split_ifs
      · exact zeroUsed_reserveRegion _ _
      · exact Preserves.pure
    have hend := hrest t₂ hlow
    rwa [h] at hend

end Boot

/-! ### Histories -/

/-- An address and a count that an allocation returned. -/
abbrev Allocation := UInt64 × UInt64

/-- The pages of an allocation. -/
def pages (a : Allocation) : Finset ℕ := Finset.Ico (frameNo a.1) (frameNo a.1 + a.2.toNat)

/-- The states that allocations and frees lead to from `s₀`, each with the allocations that
are live in it. The answer 0 is no allocation. -/
inductive Run (s₀ : Phys) : Phys → List Allocation → Prop
  | start : Run s₀ s₀ []
  | alloc {s s' : Phys} {live : List Allocation} (count addr : UInt64) (hrun : Run s₀ s live)
      (h : physAllocPages count s = (.ok addr, s')) : Run s₀ s' (if addr = 0 then live else (addr, count) :: live)
  | free {s s' : Phys} {live : List Allocation} (a : Allocation) (hrun : Run s₀ s live) (hlive : a ∈ live)
      (h : physFreePages a.1 a.2 s = (.ok (), s')) : Run s₀ s' (live.erase a)

/-- What `phys_alloc_pages(count)` answers: 0 if and only if there is no run of `count` free
pages, else the address of the lowest run. -/
structure AllocatesLowest (s : Phys) (count addr : UInt64) : Prop where
  zero_iff : addr = 0 ↔ ∀ m, ¬ IsRun (usedPages s) MEMORY_MAX_PAGES m count.toNat
  run : addr ≠ 0 → addr.toNat = frameNo addr * 4096 ∧ IsRun (usedPages s) MEMORY_MAX_PAGES (frameNo addr) count.toNat
  lowest : addr ≠ 0 → ∀ m < frameNo addr, ¬ IsRun (usedPages s) MEMORY_MAX_PAGES m count.toNat

/-- The allocator is right in a state that a history led to. -/
structure AllocatorSafe (s₀ s : Phys) (live : List Allocation) : Prop where
  disjoint : live.Pairwise fun a b => Disjoint (pages a) (pages b)
  free_before : ∀ a ∈ live, ∀ p ∈ pages a, p < MEMORY_MAX_PAGES ∧ pageIsFree s₀.bitmap p = true
  counted : ∃ n, memoryFreePages s = (.ok n, s) ∧ n.toNat = (freePages s.bitmap).card
  alloc : ∀ count : UInt64, count ≠ 0 → ∃ addr s', physAllocPages count s = (.ok addr, s') ∧ AllocatesLowest s count addr

/-- The invariant of a history: what was free is free or in one live allocation. -/
structure Books (s₀ s : Phys) (live : List Allocation) : Prop where
  counted : Counted s
  zero : pageIsFree s₀.bitmap 0 = false
  disjoint : live.Pairwise fun a b => Disjoint (pages a) (pages b)
  bound : ∀ a ∈ live, frameNo a.1 + a.2.toNat ≤ MEMORY_MAX_PAGES
  used : ∀ a ∈ live, ∀ p ∈ pages a, pageIsFree s.bitmap p = false
  split : ∀ p < MEMORY_MAX_PAGES, pageIsFree s₀.bitmap p = true ↔ pageIsFree s.bitmap p = true ∨ ∃ a ∈ live, p ∈ pages a

theorem Books.start (h : Counted s₀) (hzero : pageIsFree s₀.bitmap 0 = false) : Books s₀ s₀ [] where
  counted := h
  zero := hzero
  disjoint := List.Pairwise.nil
  bound := by simp
  used := by simp
  split := by simp

/-- Page 0 stays taken. -/
theorem Books.zero_used (h : Books s₀ s live) : pageIsFree s.bitmap 0 = false := by
  have hsplit := h.split 0 (by decide)
  rw [h.zero] at hsplit
  cases hfree : pageIsFree s.bitmap 0 with
  | false => rfl
  | true => exact absurd (hsplit.2 (.inl hfree)) Bool.false_ne_true

/-- Marking a run. -/
theorem pageIsFree_markRun (b : Bitmap) (start n p : ℕ) :
    pageIsFree ((List.range n).foldl (fun b i => pageMarkUsed b (start + i)) b) p =
      if start ≤ p ∧ p < start + n then false else pageIsFree b p := by
  have hset := Bitmap.test_setRun b start n p
  unfold pageIsFree pageMarkUsed
  rw [hset]
  split_ifs <;> rfl

/-- The outcomes of an allocation. -/
theorem physAllocPages_cases (hcount : count ≠ 0) :
    (physAllocPages count s = (.ok 0, s) ∧ ∀ m, ¬ IsRun (usedPages s) MEMORY_MAX_PAGES m count.toNat) ∨
      ∃ start, IsRun (usedPages s) MEMORY_MAX_PAGES start count.toNat ∧
        (∀ m < start, ¬ IsRun (usedPages s) MEMORY_MAX_PAGES m count.toNat) ∧
        physAllocPages count s = (.ok (UInt64.ofNat start * MEMORY_PAGE_SIZE),
          { s with
            bitmap := (List.range count.toNat).foldl (fun b i => pageMarkUsed b (start + i)) s.bitmap
            freePageCount := s.freePageCount - count }) := by
  have hpos : 0 < count.toNat := by
    apply Nat.pos_of_ne_zero
    intro h
    exact hcount (UInt64.toNat_inj.1 h)
  have hspec : Lowest (usedPages s) MEMORY_MAX_PAGES count.toNat
      (findRun (usedPages s) count.toNat MEMORY_MAX_PAGES 0 0 0) := findRun_spec hpos
  unfold physAllocPages
  rw [if_neg hcount]
  generalize findRun (usedPages s) count.toNat MEMORY_MAX_PAGES 0 0 0 = r at hspec ⊢
  cases r with
  | none => exact .inl ⟨rfl, hspec⟩
  | some start => exact .inr ⟨start, hspec.1, hspec.2, rfl⟩

section Step

variable {s₀ s : Phys} {live : List Allocation}

variable {start : ℕ} {count : UInt64} {s' : Phys} {a : Allocation}

/-- A run of free pages does not begin at page 0. -/
theorem Books.start_pos {count : ℕ} (h : Books s₀ s live) (hcount : 0 < count)
    (hrun : IsRun (usedPages s) MEMORY_MAX_PAGES start count) : start ≠ 0 := by
  rintro rfl
  have hfree := hrun.free 0 (Nat.le_refl 0) (by omega)
  unfold usedPages at hfree
  rw [h.zero_used] at hfree
  cases hfree

theorem address_ne_zero (hlt : start < MEMORY_MAX_PAGES) (h : start ≠ 0) :
    UInt64.ofNat start * MEMORY_PAGE_SIZE ≠ 0 := by
  intro hzero
  have hnat := frame_toNat hlt
  rw [hzero, UInt64.toNat_zero] at hnat
  omega

/-- The pages of a run that is marked. -/
def marked (s : Phys) (start : ℕ) (count : UInt64) : Phys :=
  { s with
    bitmap := (List.range count.toNat).foldl (fun b i => pageMarkUsed b (start + i)) s.bitmap
    freePageCount := s.freePageCount - count }

theorem Counted.marked (h : Counted s)
    (hrun : IsRun (usedPages s) MEMORY_MAX_PAGES start count.toNat) : Counted (marked s start count) := by
  have hend := hrun.le
  have hsub : Finset.Ico start (start + count.toNat) ⊆ freePages s.bitmap := by
    intro p hp
    rw [Finset.mem_Ico] at hp
    have hfree := hrun.free p hp.1 hp.2
    unfold usedPages at hfree
    exact mem_freePages.2 ⟨by omega, by simpa using hfree⟩
  have hrest : freePages (Physical.marked s start count).bitmap = freePages s.bitmap \ Finset.Ico start (start + count.toNat) := by
    ext p
    rw [Finset.mem_sdiff, Finset.mem_Ico, mem_freePages, mem_freePages]
    unfold Physical.marked
    rw [pageIsFree_markRun]
    by_cases hin : start ≤ p ∧ p < start + count.toNat <;> simp [hin]
  have hcard := Finset.card_le_card hsub
  rw [Nat.card_Ico] at hcard
  have hle : count ≤ s.freePageCount := by
    rw [UInt64.le_iff_toNat_le, h]
    omega
  show (s.freePageCount - count).toNat = _
  rw [hrest, Finset.card_sdiff_of_subset hsub, Nat.card_Ico, UInt64.toNat_sub_of_le _ _ hle, h]
  omega

/-- A run is taken. -/
theorem Books.take (h : Books s₀ s live) (hcount : count ≠ 0)
    (hrun : IsRun (usedPages s) MEMORY_MAX_PAGES start count.toNat) :
    Books s₀ (marked s start count) ((UInt64.ofNat start * MEMORY_PAGE_SIZE, count) :: live) := by
  have hend := hrun.le
  have hpos : count.toNat ≠ 0 := fun h => hcount (UInt64.toNat_inj.1 h)
  have hno : frameNo (UInt64.ofNat start * MEMORY_PAGE_SIZE) = start := frameNo_ofNat (by omega)
  have hpages : pages (UInt64.ofNat start * MEMORY_PAGE_SIZE, count) = Finset.Ico start (start + count.toNat) := by
    unfold pages
    rw [hno]
  have hfree {p : ℕ} (hp : p ∈ Finset.Ico start (start + count.toNat)) : pageIsFree s.bitmap p = true := by
    rw [Finset.mem_Ico] at hp
    have hunused := hrun.free p hp.1 hp.2
    unfold usedPages at hunused
    simpa using hunused
  have hmarked (p : ℕ) : pageIsFree (marked s start count).bitmap p =
      if start ≤ p ∧ p < start + count.toNat then false else pageIsFree s.bitmap p := pageIsFree_markRun s.bitmap start _ p
  have hapart : ∀ a ∈ live, Disjoint (Finset.Ico start (start + count.toNat)) (pages a) := by
    intro a ha
    rw [Finset.disjoint_left]
    intro p hp hpa
    have hused := h.used a ha p hpa
    rw [hfree hp] at hused
    cases hused
  constructor
  · exact h.counted.marked hrun
  · exact h.zero
  · rw [List.pairwise_cons, hpages]
    exact ⟨hapart, h.disjoint⟩
  · intro a ha
    rcases List.mem_cons.1 ha with rfl | ha
    · rw [hno]
      exact hend
    · exact h.bound a ha
  · intro a ha p hp
    rw [hmarked]
    rcases List.mem_cons.1 ha with rfl | ha
    · rw [hpages, Finset.mem_Ico] at hp
      rw [if_pos hp]
    · rw [h.used a ha p hp]
      split_ifs <;> rfl
  · intro p hp
    rw [h.split p hp, hmarked]
    by_cases hin : start ≤ p ∧ p < start + count.toNat
    · have hmem := Finset.mem_Ico.2 hin
      rw [if_pos hin, hfree hmem]
      simp [hpages, hmem]
    · rw [if_neg hin]
      simp [hpages, hin]

theorem Books.alloc {addr : UInt64} (h : Books s₀ s live) (halloc : physAllocPages count s = (.ok addr, s')) :
    Books s₀ s' (if addr = 0 then live else (addr, count) :: live) := by
  by_cases hcount : count = 0
  · unfold physAllocPages at halloc
    rw [if_pos hcount] at halloc
    cases halloc
    rwa [if_pos rfl]
  · have hpos : 0 < count.toNat := Nat.pos_of_ne_zero fun h => hcount (UInt64.toNat_inj.1 h)
    rcases physAllocPages_cases (s := s) hcount with ⟨hnone, -⟩ | ⟨start, hrun, -, hsome⟩
    · rw [hnone] at halloc
      cases halloc
      rwa [if_pos rfl]
    · rw [hsome] at halloc
      cases halloc
      have hend := hrun.le
      rw [if_neg (address_ne_zero (by omega) (h.start_pos hpos hrun))]
      exact h.take hcount hrun

theorem pageIsFree_freePage {p : ℕ} (hp : p < MEMORY_MAX_PAGES) (s : Phys) (q : ℕ) :
    pageIsFree (s.freePage p).bitmap q = if q = p then true else pageIsFree s.bitmap q := by
  unfold Phys.freePage
  by_cases hused : pageIsFree s.bitmap p = false
  · rw [if_pos ⟨hp, hused⟩]
    exact pageIsFree_pageMarkFree _ _ _
  · rw [if_neg fun h => hused h.2]
    by_cases hq : q = p
    · rw [if_pos hq, hq]
      simpa using hused
    · rw [if_neg hq]

/-- A loop that frees `n` pages from `start` on. -/
theorem pageIsFree_freeRun {n : ℕ} (hend : start + n ≤ MEMORY_MAX_PAGES) (s : Phys) (p : ℕ) :
    pageIsFree ((List.range n).foldl (fun s i => s.freePage (start + i)) s).bitmap p =
      if start ≤ p ∧ p < start + n then true else pageIsFree s.bitmap p := by
  induction n with
  | zero =>
    rw [List.range_zero, List.foldl_nil, if_neg (by omega)]
  | succ n ih =>
    rw [List.range_succ, List.foldl_append, List.foldl_cons, List.foldl_nil, pageIsFree_freePage (by omega), ih (by omega)]
    by_cases hp : p = start + n
    · rw [if_pos hp, if_pos (by omega)]
    · rw [if_neg hp]
      by_cases hin : start ≤ p ∧ p < start + n
      · rw [if_pos hin, if_pos (by omega)]
      · rw [if_neg hin, if_neg (by omega)]

/-- Nothing wraps for the pages of an allocation. -/
theorem physFreePages_apply (hend : frameNo a.1 + a.2.toNat ≤ MEMORY_MAX_PAGES) (s : Phys) :
    physFreePages a.1 a.2 s = (.ok (), (List.range a.2.toNat).foldl (fun s i => s.freePage (frameNo a.1 + i)) s) := by
  have hmax : MEMORY_MAX_PAGES = 2 ^ 20 := rfl
  have hpage : ∀ i < a.2.toNat, (a.1 / MEMORY_PAGE_SIZE + UInt64.ofNat i).toNat = frameNo a.1 + i := by
    intro i hi
    have hofNat : (UInt64.ofNat i).toNat = i := UInt64.toNat_ofNat_of_lt' (by unfold UInt64.size; omega)
    rw [UInt64.toNat_add, hofNat]
    apply Nat.mod_eq_of_lt
    show frameNo a.1 + i < 2 ^ 64
    omega
  have hfold : ∀ l : List ℕ, (∀ i ∈ l, i < a.2.toNat) → ∀ t : Phys,
      l.foldl (fun s i => s.freePage (a.1 / MEMORY_PAGE_SIZE + UInt64.ofNat i).toNat) t =
        l.foldl (fun s i => s.freePage (frameNo a.1 + i)) t := by
    intro l hl
    induction l with
    | nil => exact fun _ => rfl
    | cons i l ih =>
      intro t
      rw [List.foldl_cons, List.foldl_cons, hpage i (hl i (by simp))]
      exact ih (fun j hj => hl j (List.mem_cons_of_mem _ hj)) _
  unfold physFreePages
  rw [modify_apply, hfold _ fun i hi => List.mem_range.1 hi]

theorem Books.free (h : Books s₀ s live) (ha : a ∈ live)
    (hfree : physFreePages a.1 a.2 s = (.ok (), s')) : Books s₀ s' (live.erase a) := by
  have hend := h.bound a ha
  rw [physFreePages_apply hend] at hfree
  have hstate : s' = (List.range a.2.toNat).foldl (fun s i => s.freePage (frameNo a.1 + i)) s := by
    cases hfree
    rfl
  have hbit (p : ℕ) : pageIsFree s'.bitmap p = if p ∈ pages a then true else pageIsFree s.bitmap p := by
    rw [hstate, pageIsFree_freeRun hend]
    simp only [pages, Finset.mem_Ico]
  have hperm := List.perm_cons_erase ha
  have hpair : (a :: live.erase a).Pairwise fun a b => Disjoint (pages a) (pages b) :=
    hperm.pairwise h.disjoint fun hd => hd.symm
  rw [List.pairwise_cons] at hpair
  constructor
  · rw [hstate]
    exact List.foldlRecOn _ _ h.counted fun t ht i _ => ht.freePage _
  · exact h.zero
  · exact hpair.2
  · exact fun b hb => h.bound b (List.mem_of_mem_erase hb)
  · intro b hb p hp
    rw [hbit, if_neg fun hpa => Finset.disjoint_left.1 (hpair.1 b hb) hpa hp]
    exact h.used b (List.mem_of_mem_erase hb) p hp
  · intro p hp
    have hmem : (∃ b ∈ live, p ∈ pages b) ↔ p ∈ pages a ∨ ∃ b ∈ live.erase a, p ∈ pages b := by
      simp only [hperm.mem_iff, List.mem_cons, exists_eq_or_imp]
    rw [h.split p hp, hmem, hbit]
    by_cases hin : p ∈ pages a <;> simp [hin]

end Step

theorem Run.books (hrun : Run s₀ s live) (hcounted : Counted s₀)
    (hzero : pageIsFree s₀.bitmap 0 = false) : Books s₀ s live := by
  induction hrun with
  | start => exact Books.start hcounted hzero
  | alloc count addr _ h ih => exact ih.alloc h
  | free a _ hlive h ih => exact ih.free hlive h

/-- An allocation in a state whose books are right. -/
theorem Books.allocatesLowest (h : Books s₀ s live) (hcount : count ≠ 0) :
    ∃ addr s', physAllocPages count s = (.ok addr, s') ∧ AllocatesLowest s count addr := by
  have hpos : 0 < count.toNat := Nat.pos_of_ne_zero fun h => hcount (UInt64.toNat_inj.1 h)
  rcases physAllocPages_cases (s := s) hcount with ⟨hnone, hno⟩ | ⟨start, hrun, hlow, hsome⟩
  · refine ⟨0, s, hnone, ?_, ?_, ?_⟩
    · exact ⟨fun _ => hno, fun _ => rfl⟩
    · exact fun h => absurd rfl h
    · exact fun h => absurd rfl h
  · have hend := hrun.le
    have hlt : start < MEMORY_MAX_PAGES := by omega
    have hne := address_ne_zero hlt (h.start_pos hpos hrun)
    have hno : frameNo (UInt64.ofNat start * MEMORY_PAGE_SIZE) = start := frameNo_ofNat hlt
    refine ⟨_, _, hsome, ?_, ?_, ?_⟩
    · exact ⟨fun h => absurd h hne, fun h => absurd hrun (h start)⟩
    · intro _
      rw [hno, frame_toNat hlt]
      exact ⟨rfl, hrun⟩
    · intro _
      rw [hno]
      exact hlow

/-- From what `memory_init` left, no history of allocations and of frees of live allocations
makes the allocator wrong. -/
theorem allocatorSafe {boot : Boot} {fuel : ℕ} {info : UInt64} {junk s₀ s : Phys} {live : List Allocation}
    (hinit : boot.memoryInit fuel info junk = (.ok (), s₀)) (hrun : Run s₀ s live) : AllocatorSafe s₀ s live := by
  have h := hrun.books (boot.counted_memoryInit hinit) (boot.zeroUsed_memoryInit hinit)
  constructor
  · exact h.disjoint
  · intro a ha p hp
    have hend := h.bound a ha
    have hlt : p < MEMORY_MAX_PAGES := by
      have hmem := (Finset.mem_Ico.1 hp).2
      omega
    exact ⟨hlt, (h.split p hlt).2 (.inr ⟨a, ha, hp⟩)⟩
  · exact ⟨s.freePageCount, rfl, h.counted⟩
  · exact fun count hcount => h.allocatesLowest hcount

/-- A loader that reports three pages above the first megabyte, the kernel in the first of them. -/
def smallBoot : Boot where
  ram a := [48, 0, 0, 0, 0, 0, 0, 0, 6, 0, 0, 0, 40, 0, 0, 0, 24, 0, 0, 0, 0, 0, 0, 0, 0, 0, 0x10, 0, 0, 0, 0, 0, 0, 0x30, 0, 0, 0,
    0, 0, 0, 1, 0, 0, 0].getD (a.toNat - 0x1000) 0
  kernelStart := 0x100000
  kernelEnd := 0x101000

def smallPhys : Phys := (smallBoot.memoryInit 10 0x1000 Phys.full).2

/-- The two pages left are handed out. -/
theorem allocatorSafe_smallPhys : AllocatorSafe smallPhys (physAllocPages 2 smallPhys).2 [(0x101000, 2)] := by
  have hpair {α : Type} {r : Outcome α × Phys} {o : Outcome α} (h : r.1 = o) : r = (o, r.2) := Prod.ext h rfl
  have hinit : (smallBoot.memoryInit 10 0x1000 Phys.full).1 = .ok () := by decide
  have halloc : (physAllocPages 2 smallPhys).1 = .ok 0x101000 := by decide +kernel
  exact allocatorSafe (hpair hinit) (Run.alloc 2 0x101000 .start (hpair halloc))

/-! ### The map of frames -/

/-- The frames of a memory are those of the bitmap. -/
structure Represents (m : Mem) (s : Phys) : Prop where
  used (p : ℕ) : m.used p = usedPages s p
  count : m.freePageCount = s.freePageCount

/-- The bitmap allocates as the map of frames does. -/
theorem Represents.alloc (h : Represents m s) (count : UInt64) :
    (Memory.physAllocPages count.toNat m).1 = (physAllocPages count s).1 ∧
      Represents (Memory.physAllocPages count.toNat m).2 (physAllocPages count s).2 := by
  have hused : m.used = usedPages s := funext h.used
  by_cases hcount : count = 0
  · subst hcount
    exact ⟨rfl, h⟩
  · have hnat : count.toNat ≠ 0 := fun h => hcount (UInt64.toNat_inj.1 h)
    unfold Memory.physAllocPages physAllocPages
    rw [if_neg hnat, if_neg hcount, hused]
    cases findRun (usedPages s) count.toNat MEMORY_MAX_PAGES 0 0 0 with
    | none => exact ⟨rfl, h⟩
    | some start =>
      refine ⟨rfl, ?_, ?_⟩
      · intro p
        show (if start ≤ p ∧ p < start + count.toNat then true else usedPages s p) = usedPages (marked s start count) p
        have hbit : pageIsFree (marked s start count).bitmap p =
            if start ≤ p ∧ p < start + count.toNat then false else pageIsFree s.bitmap p := pageIsFree_markRun s.bitmap start _ p
        unfold usedPages
        rw [hbit]
        split_ifs <;> rfl
      · show m.freePageCount - UInt64.ofNat count.toNat = s.freePageCount - count
        rw [h.count, UInt64.ofNat_toNat]

theorem Represents.freePage (h : Represents m s) {page : ℕ} (hp : page < MEMORY_MAX_PAGES) :
    Represents (m.freeFrame page) (s.freePage page) := by
  constructor
  · intro p
    rw [freeFrame_used hp]
    unfold usedPages
    rw [pageIsFree_freePage hp, h.used p]
    unfold usedPages
    split_ifs <;> rfl
  · have hused : m.used page = true ↔ pageIsFree s.bitmap page = false := by
      rw [h.used page]
      unfold usedPages
      rw [Bool.not_eq_true']
    unfold Mem.freeFrame Phys.freePage
    by_cases hpage : pageIsFree s.bitmap page = false
    · rw [if_pos ⟨hp, hused.2 hpage⟩, if_pos ⟨hp, hpage⟩, ← h.count]
    · rw [if_neg fun h => hpage (hused.1 h.2), if_neg fun h => hpage h.2]
      exact h.count

/-- The bitmap frees an allocation as the map of frames does. -/
theorem Represents.free (h : Represents m s) {a : Allocation}
    (hend : frameNo a.1 + a.2.toNat ≤ MEMORY_MAX_PAGES) :
    Represents (Memory.physFreePages a.1 a.2.toNat m).2 (physFreePages a.1 a.2 s).2 := by
  rw [physFreePages_apply hend]
  unfold Memory.physFreePages
  rw [modify_apply]
  have hfold : ∀ n ≤ a.2.toNat, Represents ((List.range n).foldl (fun m i => m.freeFrame (frameNo a.1 + i)) m)
      ((List.range n).foldl (fun s i => s.freePage (frameNo a.1 + i)) s) := by
    intro n hn
    induction n with
    | zero => exact h
    | succ n ih =>
      simp only [List.range_succ, List.foldl_append, List.foldl_cons, List.foldl_nil]
      exact (ih (by omega)).freePage (by omega)
  exact hfold _ (Nat.le_refl _)

end Physical

end Tg11Kernel.Memory
