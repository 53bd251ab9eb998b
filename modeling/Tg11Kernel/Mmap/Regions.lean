import Tg11Kernel.Mmap.Steps

/-! The regions of the table. They lie one after the other between the start of the window and
the bump address, which moves up with each new region and never down. -/

namespace Tg11Kernel.Mmap

open Lib Exec Memory Heap Function

variable {s : Process} {m m' : Mem} {base v w : UInt64} {n : ℕ} {i j slot : Slot} {len prot : UInt64}

/-! ### Pages of a region -/

theorem aligned_pageAt (hbase : Aligned base) (i : ℕ) : Aligned (pageAt base i) := by
  have hsize : MEMORY_PAGE_SIZE.toNat = 4096 := rfl
  rw [aligned_iff] at hbase ⊢
  unfold pageAt
  rw [UInt64.toNat_add, UInt64.toNat_mul, hsize]
  omega

theorem aligned_of_mem_regionPages (hbase : Aligned base) (h : v ∈ regionPages base n) : Aligned v := by
  obtain ⟨i, -, rfl⟩ := List.mem_map.1 h
  exact aligned_pageAt hbase i

theorem pageAt_toNat {i : ℕ} (h : base.toNat + i * 4096 < 2 ^ 64) : (pageAt base i).toNat = base.toNat + i * 4096 := by
  have hsize : MEMORY_PAGE_SIZE.toNat = 4096 := rfl
  have hi : (UInt64.ofNat i).toNat = i := UInt64.toNat_ofNat_of_lt' (by unfold UInt64.size; omega)
  unfold pageAt
  rw [UInt64.toNat_add, UInt64.toNat_mul, hi, hsize]
  omega

theorem mem_regionPages (hbase : Aligned base) (h : base.toNat + n * 4096 ≤ 2 ^ 64) :
    v ∈ regionPages base n ↔ Aligned v ∧ base.toNat ≤ v.toNat ∧ v.toNat < base.toNat + n * 4096 := by
  constructor
  · intro hv
    have hal := aligned_of_mem_regionPages hbase hv
    obtain ⟨i, hi, rfl⟩ := List.mem_map.1 hv
    rw [List.mem_range] at hi
    rw [pageAt_toNat (by omega)]
    exact ⟨hal, by omega, by omega⟩
  · rintro ⟨hal, hle, hlt⟩
    rw [aligned_iff] at hal hbase
    refine List.mem_map.2 ⟨(v.toNat - base.toNat) / 4096, List.mem_range.2 (by omega), ?_⟩
    apply UInt64.toNat_inj.1
    rw [pageAt_toNat (by omega)]
    omega

theorem nodup_regionPages (h : base.toNat + n * 4096 ≤ 2 ^ 64) : (regionPages base n).Nodup := by
  refine List.Nodup.map_on ?_ List.nodup_range
  intro i hi j hj heq
  rw [List.mem_range] at hi hj
  have hnat := congrArg UInt64.toNat heq
  rw [pageAt_toNat (by omega), pageAt_toNat (by omega)] at hnat
  omega

/-- A length that is accepted is covered by its pages. -/
theorem pagesOf_covers (h : pagesOf len ≠ 0) : len.toNat ≤ (pagesOf len).toNat * 4096 := by
  have hsize : MEMORY_PAGE_SIZE.toNat = 4096 := rfl
  have hone : (1 : UInt64).toNat = 1 := rfl
  have hlen := len.toNat_lt
  have hnat : (pagesOf len).toNat = (len.toNat + 4095) % 2 ^ 64 / 4096 := by
    unfold pagesOf
    rw [UInt64.toNat_div, UInt64.toNat_sub, UInt64.toNat_add, hsize, hone]
    omega
  have hpos : (pagesOf len).toNat ≠ 0 := fun hzero => h (UInt64.toNat_inj.1 hzero)
  omega

/-! ### Layout -/

def MmapEntry.stop (e : MmapEntry) : ℕ := e.virtAddr.toNat + e.pageCount.toNat * 4096

/-- The page belongs to a live region. -/
def Process.Live (s : Process) (i : Slot) (v : UInt64) : Prop :=
  (s.mmapTbl i).used = true ∧ v ∈ regionPages (s.mmapTbl i).virtAddr (s.mmapTbl i).pageCount.toNat

/-- The page lies below the break. -/
def Process.HeapPage (s : Process) (v : UInt64) : Prop := Aligned v ∧ userHeapBase ≤ v ∧ v < s.user.brk

/-- The pages a program got. -/
def Process.Owns (s : Process) (v : UInt64) : Prop := s.HeapPage v ∨ ∃ i, s.Live i v

/-- The region lies between the start of the window and the bump address. -/
structure MmapEntry.Within (e : MmapEntry) (bump : UInt64) : Prop where
  aligned : Aligned e.virtAddr
  base_le : MMAP_VA_BASE.toNat ≤ e.virtAddr.toNat
  nonempty : 0 < e.pageCount.toNat
  le_bump : e.stop ≤ bump.toNat

/-- One region lies before the other. -/
def MmapEntry.Apart (e e' : MmapEntry) : Prop := e.stop ≤ e'.virtAddr.toNat ∨ e'.stop ≤ e.virtAddr.toNat

structure Layout (tbl : Slot → MmapEntry) (bump : UInt64) : Prop where
  within : ∀ i, (tbl i).used = true → (tbl i).Within bump
  apart : ∀ i j, (tbl i).used = true → (tbl j).used = true → i ≠ j → (tbl i).Apart (tbl j)
  aligned : Aligned bump
  base_le : MMAP_VA_BASE.toNat ≤ bump.toNat
  bump_le : bump.toNat ≤ 2 ^ 47

namespace Layout

section Live

variable (h : Layout s.mmapTbl s.mmapBump)

include h

theorem live_iff : s.Live i v ↔
    (s.mmapTbl i).used = true ∧ Aligned v ∧ (s.mmapTbl i).virtAddr.toNat ≤ v.toNat ∧ v.toNat < (s.mmapTbl i).stop := by
  apply and_congr_right
  intro hused
  have hle := (h.within i hused).le_bump
  have hbump := h.bump_le
  unfold MmapEntry.stop at hle ⊢
  exact mem_regionPages (h.within i hused).aligned (by omega)

/-- A page belongs to one region at most. -/
theorem live_unique (hi : s.Live i v) (hj : s.Live j v) : i = j := by
  rw [h.live_iff] at hi hj
  by_contra hne
  have hapart := h.apart i j hi.1 hj.1 hne
  unfold MmapEntry.Apart at hapart
  omega

theorem live_bounds (hv : s.Live i v) : MMAP_VA_BASE.toNat ≤ v.toNat ∧ v.toNat < s.mmapBump.toNat := by
  obtain ⟨hused, -, hle, hlt⟩ := h.live_iff.1 hv
  exact ⟨(h.within i hused).base_le.trans hle, hlt.trans_le (h.within i hused).le_bump⟩

theorem canonical_of_live (hv : s.Live i v) : Canonical v := by
  have hbounds := h.live_bounds hv
  have hbump := h.bump_le
  rw [canonical_iff]
  omega

end Live

variable {tbl : Slot → MmapEntry} {bump : UInt64}

/-- A region is found by its address. -/
theorem slot_unique (h : Layout tbl bump) (hi : (tbl i).used = true) (hj : (tbl j).used = true)
    (heq : (tbl i).virtAddr = (tbl j).virtAddr) : i = j := by
  by_contra hne
  have hapart := h.apart i j hi hj hne
  have hposi := (h.within i hi).nonempty
  have hposj := (h.within j hj).nonempty
  unfold MmapEntry.Apart MmapEntry.stop at hapart
  rw [heq] at hapart
  omega

/-- A region is cleared. -/
theorem release (h : Layout tbl bump) (slot : Slot) : Layout (update tbl slot .unused) bump := by
  have hne : ∀ i, (update tbl slot MmapEntry.unused i).used = true → update tbl slot MmapEntry.unused i = tbl i := by
    intro i hused
    apply update_of_ne
    rintro rfl
    rw [update_self] at hused
    cases hused
  constructor
  case within =>
    intro i hused
    have heq := hne i hused
    rw [heq] at hused ⊢
    exact h.within i hused
  case apart =>
    intro i j hi hj
    have heqi := hne i hi
    have heqj := hne j hj
    rw [heqi] at hi ⊢
    rw [heqj] at hj ⊢
    exact h.apart i j hi hj
  case aligned => exact h.aligned
  case base_le => exact h.base_le
  case bump_le => exact h.bump_le

theorem bump_add (h : Layout tbl bump) {count : UInt64} (hle : count.toNat ≤ 256) :
    (bump + count * MEMORY_PAGE_SIZE).toNat = bump.toNat + count.toNat * 4096 := by
  have hsize : MEMORY_PAGE_SIZE.toNat = 4096 := rfl
  have hold := h.bump_le
  rw [UInt64.toNat_add, UInt64.toNat_mul, hsize]
  omega

/-- A region is entered at the bump address. -/
theorem enter (h : Layout tbl bump) (slot : Slot) {count : UInt64} (hpos : 0 < count.toNat) (hle : count.toNat ≤ 256)
    (hbump : (bump + count * MEMORY_PAGE_SIZE).toNat ≤ 2 ^ 47) :
    Layout (update tbl slot ⟨bump, count, true⟩) (bump + count * MEMORY_PAGE_SIZE) := by
  have hnat := h.bump_add hle
  have hnew : MmapEntry.Within ⟨bump, count, true⟩ (bump + count * MEMORY_PAGE_SIZE) := ⟨h.aligned, h.base_le, hpos, Nat.le_of_eq hnat.symm⟩
  have hold : ∀ e : MmapEntry, e.Within bump → e.Within (bump + count * MEMORY_PAGE_SIZE) := by
    intro e he
    have hle := he.le_bump
    exact ⟨he.aligned, he.base_le, he.nonempty, by omega⟩
  constructor
  case within =>
    intro i hused
    by_cases hi : i = slot
    · rw [hi, update_self]
      exact hnew
    · rw [update_of_ne hi] at hused ⊢
      exact hold _ (h.within i hused)
  case apart =>
    intro i j hi hj hne
    by_cases hi' : i = slot
    · have hj' : j ≠ slot := fun heq => hne (hi'.trans heq.symm)
      rw [update_of_ne hj'] at hj ⊢
      rw [hi', update_self]
      exact .inr (h.within j hj).le_bump
    · rw [update_of_ne hi'] at hi ⊢
      by_cases hj' : j = slot
      · rw [hj', update_self]
        exact .inl (h.within i hi).le_bump
      · rw [update_of_ne hj'] at hj ⊢
        exact h.apart i j hi hj hne
  case aligned =>
    have hal := (aligned_iff _).1 h.aligned
    rw [aligned_iff, hnat]
    omega
  case base_le =>
    rw [hnat]
    exact h.base_le.trans (Nat.le_add_right _ _)
  case bump_le => exact hbump

end Layout

/-! ### How the calls end -/

def Process.withMem (s : Process) (m : Mem) : Process := { s with user := { s.user with mem := m } }

theorem onUser_apply {α : Type} {p : Exec User α} {o : Outcome α} {u : User} (h : p s.user = (o, u)) :
    onUser p s = (o, { s with user := u }) := by
  unfold onUser
  rw [h]

theorem onUser_onMem_apply {α : Type} {p : Exec Mem α} {o : Outcome α} (h : p s.user.mem = (o, m)) :
    onUser (onMem p) s = (o, s.withMem m) := onUser_apply (onMem_apply h)

/-- How a call of `mmap` ends. -/
inductive MmapEnds (s : Process) (len prot : UInt64) : Outcome UInt64 × Process → Prop where
  | refused {m : Mem} (h : Restored s.user.mem m) : MmapEnds s len prot (.fail, s.withMem m)
  | mapped {slot : Slot} {m : Mem} {f : UInt64 → Frame} (hslot : s.freeSlot = some slot) (hpos : pagesOf len ≠ 0)
      (hle : pagesOf len ≤ 256) (hl : Laid (mapFlags prot) (regionPages s.mmapBump (pagesOf len).toNat) f s.user.mem m) :
      MmapEnds s len prot (.ok s.mmapBump, ⟨{ s.user with mem := m }, update s.mmapTbl slot ⟨s.mmapBump, pagesOf len, true⟩,
        s.mmapBump + pagesOf len * MEMORY_PAGE_SIZE⟩)

theorem freeSlot_some (h : s.freeSlot = some i) : (s.mmapTbl i).used = false := by
  have hfound := List.find?_some h
  simpa using hfound

theorem syscallDoMmap_ends (wf : WellFormed s.user.mem) (hbump : Aligned s.mmapBump) (addrHint len prot flags : UInt64) :
    MmapEnds s len prot (syscallDoMmap addrHint len prot flags s) := by
  have hrefused : MmapEnds s len prot (.fail, s) := .refused (.refl wf)
  unfold syscallDoMmap
  by_cases hargs : flags &&& MMAP_MAP_ANON ≠ 0 ∧ len ≠ 0
  · rw [require_pos hargs]
    show MmapEnds s len prot ((require (pagesOf len ≠ 0 ∧ pagesOf len ≤ 256) >>= _ : Exec Process UInt64) s)
    by_cases hcount : pagesOf len ≠ 0 ∧ pagesOf len ≤ 256
    · rw [require_pos hcount, pure_bind_eq, bind_ok (gets_apply _ _)]
      cases hslot : s.freeSlot with
      | none =>
        rw [id_eq, hslot]
        exact hrefused
      | some slot =>
        rw [id_eq, hslot]
        show MmapEnds s len prot ((onUser (onMem _) >>= _ : Exec Process UInt64) s)
        have hal : ∀ v ∈ regionPages s.mmapBump (pagesOf len).toNat, Aligned v := fun v hv => aligned_of_mem_regionPages hbump hv
        rcases @mmapPages_ends _ _ (mapFlags prot) wf _ hal with ⟨_, m, hrun, f, hl⟩ | ⟨m, hrun, hr⟩
        · rw [bind_ok (onUser_onMem_apply hrun)]
          exact .mapped hslot hcount.1 hcount.2 hl
        · rw [bind_fail (onUser_onMem_apply hrun)]
          exact .refused hr
    · rw [require_neg hcount]
      exact hrefused
  · rw [require_neg hargs]
    exact hrefused

end Tg11Kernel.Mmap
