import Tg11Kernel.Memory.Allocator
import Tg11Kernel.Memory.Contents

/-! The memory map of the boot loader. The information is a row of tags, and a tag for the
memory map is a row of entries; available entries are released, rounded inwards, and what the
kernel must not hand out is reserved again, rounded outwards. -/

namespace Tg11Kernel.Memory.Physical

open Lib Exec

variable {s s' s'' : Phys} {P Q : ℕ → Prop} {p : ℕ} {lo hi : UInt64}

/-! ### Rounding -/

theorem alignDown_toNat (v : UInt64) : (alignDown v MEMORY_PAGE_SIZE).toNat = v.toNat / 4096 * 4096 := maskDown_toNat v

theorem alignUp_toNat (v : UInt64) : (alignUp v MEMORY_PAGE_SIZE).toNat = (v.toNat + 4095) % 2 ^ 64 / 4096 * 4096 := by
  have hsub : v + MEMORY_PAGE_SIZE - 1 = v + 4095 := add_sub_one v 4096
  unfold alignUp
  rw [andMask_toNat _ (by decide : 12 ≤ 64) (by decide), hsub, UInt64.toNat_add]
  rfl

theorem mem_pageRange {start stop : UInt64} (h : start.toNat % 4096 = 0) :
    p ∈ pageRange start stop ↔ start.toNat ≤ p * 4096 ∧ p * 4096 < stop.toNat := by
  unfold pageRange
  rw [List.mem_map]
  constructor
  · rintro ⟨i, hi, rfl⟩
    rw [List.mem_range] at hi
    omega
  · rintro ⟨hlo, hhi⟩
    exact ⟨p - start.toNat / 4096, List.mem_range.2 (by omega), by omega⟩

/-! ### Releasing -/

/-- The page became free if it has the property, and every page that did was counted twice. -/
structure Releases (P : ℕ → Prop) (s s' : Phys) : Prop where
  free : ∀ p < MEMORY_MAX_PAGES, pageIsFree s'.bitmap p = true ↔ pageIsFree s.bitmap p = true ∨ P p
  total : s.totalPageCount = s.freePageCount → s'.totalPageCount = s'.freePageCount

theorem Releases.refl (s : Phys) : Releases (fun _ => False) s s := ⟨by simp, id⟩

theorem Releases.trans (h : Releases P s s') (h' : Releases Q s' s'') : Releases (fun p => P p ∨ Q p) s s'' where
  free p hp := by rw [h'.free p hp, h.free p hp, or_assoc]
  total hs := h'.total (h.total hs)

theorem Releases.congr (h : Releases P s s') (hPQ : ∀ p < MEMORY_MAX_PAGES, P p ↔ Q p) : Releases Q s s' where
  free p hp := by rw [h.free p hp, hPQ p hp]
  total := h.total

theorem releases_releasePage (s : Phys) (page : ℕ) : Releases (· = page) s (s.releasePage page) := by
  unfold Phys.releasePage
  split_ifs with hused
  · refine ⟨fun p _ => ?_, fun hs => congrArg (· + 1) hs⟩
    show pageIsFree (pageMarkFree s.bitmap page) p = true ↔ _
    rw [pageIsFree_pageMarkFree]
    by_cases hp : p = page <;> simp [hp]
  · refine ⟨fun p _ => ?_, id⟩
    rw [Bool.not_eq_false] at hused
    constructor
    · exact .inl
    · rintro (hfree | rfl)
      · exact hfree
      · exact hused

theorem releases_pages (pages : List ℕ) (s : Phys) : Releases (· ∈ pages) s (pages.foldl Phys.releasePage s) := by
  induction pages generalizing s with
  | nil => simpa using Releases.refl s
  | cons page pages ih =>
    have h := (releases_releasePage s page).trans (ih (s.releasePage page))
    exact h.congr fun p _ => List.mem_cons.symm

/-- The pages that lie wholly between two addresses. -/
def Inside (lo hi : ℕ) (p : ℕ) : Prop := lo ≤ p * 4096 ∧ (p + 1) * 4096 ≤ hi

instance (lo hi p : ℕ) : Decidable (Inside lo hi p) := inferInstanceAs (Decidable (_ ∧ _))

theorem releaseRegion_releases (lo hi : UInt64) (s : Phys) :
    ∃ s', releaseRegion lo hi s = (.ok (), s') ∧ Releases (Inside lo.toNat hi.toNat) s s' := by
  have hmax : MEMORY_MAX_PHYS.toNat = 2 ^ 32 := rfl
  have hpages : MEMORY_MAX_PAGES = 2 ^ 20 := rfl
  unfold releaseRegion
  by_cases hstart : lo ≥ MEMORY_MAX_PHYS
  · rw [if_pos hstart]
    refine ⟨s, rfl, (Releases.refl s).congr fun p hp => ?_⟩
    have hle := UInt64.le_iff_toNat_le.1 hstart
    exact iff_of_false id fun hin => by have hbelow := hin.1; omega
  · rw [if_neg hstart]
    refine ⟨_, rfl, (releases_pages _ s).congr fun p hp => ?_⟩
    have hlt := UInt64.lt_iff_toNat_lt.1 (UInt64.not_le.1 hstart)
    have hstop : (if hi > MEMORY_MAX_PHYS then MEMORY_MAX_PHYS else hi).toNat = min hi.toNat (2 ^ 32) := by
      split_ifs with hhi
      · have hhi := UInt64.lt_iff_toNat_lt.1 hhi
        omega
      · have hhi := UInt64.le_iff_toNat_le.1 (UInt64.not_lt.1 hhi)
        omega
    rw [mem_pageRange (by rw [alignUp_toNat]; omega), alignUp_toNat, alignDown_toNat, hstop]
    unfold Inside
    omega

/-! ### Reserving -/

/-- The pages with the property are free no longer. -/
structure Reserves (P : ℕ → Prop) (s s' : Phys) : Prop where
  free : ∀ p < MEMORY_MAX_PAGES, pageIsFree s'.bitmap p = true ↔ pageIsFree s.bitmap p = true ∧ ¬ P p
  total : s'.totalPageCount = s.totalPageCount

theorem Reserves.refl (s : Phys) : Reserves (fun _ => False) s s := ⟨by simp, rfl⟩

theorem Reserves.trans (h : Reserves P s s') (h' : Reserves Q s' s'') : Reserves (fun p => P p ∨ Q p) s s'' where
  free p hp := by rw [h'.free p hp, h.free p hp, not_or, and_assoc]
  total := h'.total.trans h.total

theorem Reserves.congr (h : Reserves P s s') (hPQ : ∀ p < MEMORY_MAX_PAGES, P p ↔ Q p) : Reserves Q s s' where
  free p hp := by rw [h.free p hp, hPQ p hp]
  total := h.total

theorem reserves_reservePage (s : Phys) (page : ℕ) : Reserves (· = page) s (s.reservePage page) := by
  unfold Phys.reservePage
  split_ifs with hfree
  · refine ⟨fun p _ => ?_, rfl⟩
    show pageIsFree (pageMarkUsed s.bitmap page) p = true ↔ _
    rw [pageIsFree_pageMarkUsed]
    by_cases hp : p = page <;> simp [hp]
  · refine ⟨fun p hp => ⟨fun h => ⟨h, ?_⟩, And.left⟩, rfl⟩
    rintro rfl
    exact hfree ⟨hp, h⟩

theorem reserves_pages (pages : List ℕ) (s : Phys) : Reserves (· ∈ pages) s (pages.foldl Phys.reservePage s) := by
  induction pages generalizing s with
  | nil => simpa using Reserves.refl s
  | cons page pages ih =>
    have h := (reserves_reservePage s page).trans (ih (s.reservePage page))
    exact h.congr fun p _ => List.mem_cons.symm

/-- The page has an address of the range. -/
def Meets (lo hi : ℕ) (p : ℕ) : Prop := ∃ a, lo ≤ a ∧ a < hi ∧ a / 4096 = p

/-- Rounding the ends outwards adds no page and loses none: the range is above the memory that is
managed, or it is not empty and its end does not wrap, or it is empty and touches no page. -/
def Rounds (lo hi : UInt64) : Prop :=
  MEMORY_MAX_PHYS ≤ lo ∨ (lo < hi ∧ hi.toNat + 4096 ≤ 2 ^ 64) ∨ hi ≤ alignDown lo MEMORY_PAGE_SIZE

theorem meets_iff {lo hi : ℕ} : Meets lo hi p ↔ lo < hi ∧ lo / 4096 ≤ p ∧ p * 4096 < hi := by
  constructor
  · rintro ⟨a, hlo, hhi, rfl⟩
    omega
  · rintro ⟨hlt, hlo, hhi⟩
    exact ⟨max lo (p * 4096), by omega, by omega, by omega⟩

theorem reserveRegion_reserves (h : Rounds lo hi) (s : Phys) :
    ∃ s', reserveRegion lo hi s = (.ok (), s') ∧ Reserves (Meets lo.toNat hi.toNat) s s' := by
  have hmax : MEMORY_MAX_PHYS.toNat = 2 ^ 32 := rfl
  have hpages : MEMORY_MAX_PAGES = 2 ^ 20 := rfl
  have hlo := lo.toNat_lt
  have hhi := hi.toNat_lt
  refine ⟨_, rfl, (reserves_pages _ s).congr fun p hp => ?_⟩
  have hstop : (if alignUp hi MEMORY_PAGE_SIZE > MEMORY_MAX_PHYS then MEMORY_MAX_PHYS else alignUp hi MEMORY_PAGE_SIZE).toNat =
      min ((hi.toNat + 4095) % 2 ^ 64 / 4096 * 4096) (2 ^ 32) := by
    rw [← alignUp_toNat]
    split_ifs with hend
    · have hend := UInt64.lt_iff_toNat_lt.1 hend
      omega
    · have hend := UInt64.le_iff_toNat_le.1 (UInt64.not_lt.1 hend)
      omega
  rw [mem_pageRange (by rw [alignDown_toNat]; omega), hstop, alignDown_toNat, meets_iff]
  rcases h with h | ⟨hlt, hwrap⟩ | h
  · have h := UInt64.le_iff_toNat_le.1 h
    omega
  · have hlt := UInt64.lt_iff_toNat_lt.1 hlt
    omega
  · have h := UInt64.le_iff_toNat_le.1 h
    rw [alignDown_toNat] at h
    omega

/-! ### Tags -/

/-- An entry of a memory map. -/
structure MemmapEntry where
  base : UInt64
  length : UInt64
  type : UInt32
  deriving DecidableEq

/-- The page lies wholly inside the entry, and the entry is available. -/
def MemmapEntry.Offers (e : MemmapEntry) (p : ℕ) : Prop :=
  e.type = MB2_MEM_AVAILABLE ∧ Inside e.base.toNat (e.base.toNat + e.length.toNat) p

instance (e : MemmapEntry) (p : ℕ) : Decidable (e.Offers p) := inferInstanceAs (Decidable (_ ∧ _))

/-- Some entry offers the page. -/
def Offered (entries : List MemmapEntry) (p : ℕ) : Prop := ∃ e ∈ entries, e.Offers p

instance (entries : List MemmapEntry) (p : ℕ) : Decidable (Offered entries p) := inferInstanceAs (Decidable (∃ e ∈ entries, e.Offers p))

namespace Boot

variable (boot : Boot)

def entryAt (addr : UInt64) : MemmapEntry := ⟨boot.u64 addr, boot.u64 (addr + 8), boot.u32 (addr + 16)⟩

/-- The entries of the memory map at an address, as many as fit in its size. -/
def memmapEntries (a : ℕ) : List MemmapEntry :=
  (List.range (((boot.u32 (UInt64.ofNat a + 4)).toNat - 16) / (boot.u32 (UInt64.ofNat a + 8)).toNat)).map fun i =>
    boot.entryAt (UInt64.ofNat (a + 16 + i * (boot.u32 (UInt64.ofNat a + 8)).toNat))

/-- Tags from an address on, with the entries of all memory maps among them. A tag fits before the
end, the next one stands at a multiple of 8 bytes behind it, and the last is the end tag. -/
inductive TagsAt (stop : ℕ) : ℕ → List MemmapEntry → Prop where
  | last {a : ℕ} (hfits : a + 8 ≤ stop) (htype : boot.u32 (UInt64.ofNat a) = MB2_TAG_END) : TagsAt stop a []
  | other {a : ℕ} {entries : List MemmapEntry} (hend : boot.u32 (UInt64.ofNat a) ≠ MB2_TAG_END)
      (htype : boot.u32 (UInt64.ofNat a) ≠ MB2_TAG_MEMMAP) (hsize : 8 ≤ (boot.u32 (UInt64.ofNat a + 4)).toNat)
      (hnext : TagsAt stop (a + ((boot.u32 (UInt64.ofNat a + 4)).toNat + 7) / 8 * 8) entries) : TagsAt stop a entries
  | memmap {a : ℕ} {entries : List MemmapEntry} (htype : boot.u32 (UInt64.ofNat a) = MB2_TAG_MEMMAP)
      (hsize : 16 ≤ (boot.u32 (UInt64.ofNat a + 4)).toNat) (hentry : 24 ≤ (boot.u32 (UInt64.ofNat a + 8)).toNat)
      (hnext : TagsAt stop (a + ((boot.u32 (UInt64.ofNat a + 4)).toNat + 7) / 8 * 8) entries) :
      TagsAt stop a (boot.memmapEntries a ++ entries)

variable {boot} {stop a n : ℕ} {entries : List MemmapEntry}

theorem TagsAt.le (h : boot.TagsAt stop a entries) : a + 8 ≤ stop := by
  induction h with
  | last hfits => exact hfits
  | other => omega
  | memmap => omega

/-- An entry whose end does not wrap is released. -/
theorem releaseEntry_releases {addr : UInt64} (h : (boot.entryAt addr).base.toNat + (boot.entryAt addr).length.toNat < 2 ^ 64)
    (s : Phys) :
    ∃ s', boot.releaseEntry addr s = (.ok (), s') ∧ Releases (boot.entryAt addr).Offers s s' := by
  unfold releaseEntry
  split_ifs with htype
  · obtain ⟨s', hrun, hr⟩ := releaseRegion_releases (boot.u64 addr) (boot.u64 addr + boot.u64 (addr + 8)) s
    refine ⟨s', hrun, hr.congr fun p _ => ?_⟩
    have hend : (boot.u64 addr + boot.u64 (addr + 8)).toNat = (boot.entryAt addr).base.toNat + (boot.entryAt addr).length.toNat :=
      (UInt64.toNat_add _ _).trans (Nat.mod_eq_of_lt h)
    rw [hend]
    exact (and_iff_right htype).symm
  · exact ⟨s, rfl, (Releases.refl s).congr fun p _ => iff_of_false id fun hoffers => htype hoffers.1⟩

theorem toNat_ofNat_of_lt {n : ℕ} (h : n < 2 ^ 64) : (UInt64.ofNat n).toNat = n := UInt64.toNat_ofNat_of_lt' h

theorem ofNat_add_le_iff {b size e : ℕ} (he : e < 2 ^ 64) (h : b + size < 2 ^ 64) :
    UInt64.ofNat b + UInt64.ofNat size ≤ UInt64.ofNat e ↔ b + size ≤ e := by
  rw [← UInt64.ofNat_add, UInt64.le_iff_toNat_le, toNat_ofNat_of_lt h, toNat_ofNat_of_lt he]

/-- The loop over the entries of a memory map. -/
theorem releaseEntries_releases {size b e n : ℕ} (hsize : size < 2 ^ 32) (he : e + 2 ^ 32 ≤ 2 ^ 64)
    (hcount : b + n * size ≤ e) (hrest : e < b + n * size + size)
    (hwrap : ∀ i < n, (boot.entryAt (UInt64.ofNat (b + i * size))).base.toNat +
      (boot.entryAt (UInt64.ofNat (b + i * size))).length.toNat < 2 ^ 64)
    {fuel : ℕ} (hfuel : n < fuel) (s : Phys) :
    ∃ s', boot.releaseEntries (UInt64.ofNat size) (UInt64.ofNat e) fuel (UInt64.ofNat b) s = (.ok (), s') ∧
      Releases (fun p => ∃ i < n, (boot.entryAt (UInt64.ofNat (b + i * size))).Offers p) s s' := by
  obtain ⟨fuel, rfl⟩ : ∃ f, fuel = f + 1 := ⟨fuel - 1, by omega⟩
  induction n generalizing b fuel s with
  | zero =>
    rw [releaseEntries, if_neg (by rw [ofNat_add_le_iff (by omega) (by omega)]; omega)]
    exact ⟨s, rfl, (Releases.refl s).congr fun p _ => by simp⟩
  | succ n ih =>
    rw [Nat.succ_mul] at hcount hrest
    have hfirst := hwrap 0 (Nat.succ_pos n)
    rw [Nat.zero_mul, Nat.add_zero] at hfirst
    have hshift : ∀ i, b + (i + 1) * size = b + size + i * size := fun i => by rw [Nat.succ_mul]; omega
    obtain ⟨s₁, hentry, hr₁⟩ := releaseEntry_releases hfirst s
    obtain ⟨fuel, rfl⟩ : ∃ f, fuel = f + 1 := ⟨fuel - 1, by omega⟩
    obtain ⟨s₂, hrest', hr₂⟩ := ih (b := b + size) (by omega) (by omega)
      (fun i hi => by rw [← hshift]; exact hwrap (i + 1) (Nat.succ_lt_succ hi)) s₁ fuel (by omega)
    refine ⟨s₂, ?_, (hr₁.trans hr₂).congr fun p _ => ?_⟩
    · rw [releaseEntries, if_pos (by rw [ofNat_add_le_iff (by omega) (by omega)]; omega), bind_ok hentry, ← UInt64.ofNat_add]
      exact hrest'
    · rw [Nat.exists_lt_succ_left]
      simp only [Nat.zero_mul, Nat.add_zero, hshift]

theorem tagStride_toNat {size : UInt32} (h : size.toNat + 7 < 2 ^ 32) : ((size + 7) &&& ~~~7).toUInt64.toNat = (size.toNat + 7) / 8 * 8 := by
  have hmask : (~~~7 : UInt32).toNat = (2 ^ 29 - 1) * 2 ^ 3 := by decide
  rw [UInt32.toNat_toUInt64, UInt32.toNat_and, hmask, land_mask, UInt32.toNat_add]
  show (size.toNat + 7) % 2 ^ 32 / 2 ^ 3 % 2 ^ 29 * 2 ^ 3 = _
  omega

theorem offered_append {entries' : List MemmapEntry} : Offered (entries ++ entries') p ↔ Offered entries p ∨ Offered entries' p := by
  unfold Offered
  simp [or_and_right, exists_or]

theorem offered_memmapEntries : Offered (boot.memmapEntries a) p ↔
    ∃ i < ((boot.u32 (UInt64.ofNat a + 4)).toNat - 16) / (boot.u32 (UInt64.ofNat a + 8)).toNat,
      (boot.entryAt (UInt64.ofNat (a + 16 + i * (boot.u32 (UInt64.ofNat a + 8)).toNat))).Offers p := by
  unfold Offered memmapEntries
  simp

theorem ofNat_add_tagStride {size : UInt32} (h : size.toNat + 7 < 2 ^ 32) :
    UInt64.ofNat a + ((size + 7) &&& ~~~7).toUInt64 = UInt64.ofNat (a + (size.toNat + 7) / 8 * 8) := by
  rw [UInt64.ofNat_add, ← tagStride_toNat h, UInt64.ofNat_toNat]

theorem memmap_bounds {size entrySize : ℕ} (hsize : 16 ≤ size) (hentry : 24 ≤ entrySize) :
    16 + (size - 16) / entrySize * entrySize ≤ size ∧ size < 16 + (size - 16) / entrySize * entrySize + entrySize ∧
      (size - 16) / entrySize < size := by
  have hmul := Nat.div_mul_le_self (size - 16) entrySize
  have hrest := Nat.lt_div_mul_add (a := size - 16) (b := entrySize) (by omega)
  have hle := Nat.div_le_self (size - 16) entrySize
  omega

theorem ofNat_add_toUInt64 (w : UInt32) : UInt64.ofNat a + w.toUInt64 = UInt64.ofNat (a + w.toNat) := by
  rw [UInt64.ofNat_add, ← UInt32.toNat_toUInt64, UInt64.ofNat_toNat]

/-- A memory map releases what its entries offer. -/
theorem readTag_releases (htype : boot.u32 (UInt64.ofNat a) = MB2_TAG_MEMMAP) (hsize : 16 ≤ (boot.u32 (UInt64.ofNat a + 4)).toNat)
    (hentry : 24 ≤ (boot.u32 (UInt64.ofNat a + 8)).toNat) (hstop : a + (boot.u32 (UInt64.ofNat a + 4)).toNat + 2 ^ 32 ≤ 2 ^ 64)
    (hwrap : ∀ e ∈ boot.memmapEntries a, e.base.toNat + e.length.toNat < 2 ^ 64) {fuel : ℕ}
    (hfuel : (boot.u32 (UInt64.ofNat a + 4)).toNat ≤ fuel) (s : Phys) :
    ∃ s', boot.readTag fuel (UInt64.ofNat a) s = (.ok (), s') ∧ Releases (Offered (boot.memmapEntries a)) s s' := by
  obtain ⟨hcount, hrest, hlt⟩ := memmap_bounds hsize hentry
  have hentrySize : (boot.u32 (UInt64.ofNat a + 8)).toUInt64 = UInt64.ofNat (boot.u32 (UInt64.ofNat a + 8)).toNat := by
    rw [← UInt32.toNat_toUInt64, UInt64.ofNat_toNat]
  have hfirst : UInt64.ofNat a + 16 = UInt64.ofNat (a + 16) := (UInt64.ofNat_add a 16).symm
  have hloop := releaseEntries_releases (b := a + 16) (e := a + (boot.u32 (UInt64.ofNat a + 4)).toNat) (UInt32.toNat_lt _) hstop
    (by omega) (by omega) (fun i hi => hwrap _ (List.mem_map.2 ⟨i, List.mem_range.2 hi, rfl⟩)) (Nat.lt_of_lt_of_le hlt hfuel) s
  unfold readTag
  rw [if_pos htype, hentrySize, ofNat_add_toUInt64, hfirst]
  obtain ⟨s', hrun, hr⟩ := hloop
  exact ⟨s', hrun, hr.congr fun p _ => offered_memmapEntries.symm⟩

/-- The loop over the tags. -/
theorem readTags_releases (h : boot.TagsAt stop a entries) (hstop : stop + 2 ^ 32 ≤ 2 ^ 64) (hlen : stop < a + 2 ^ 32)
    (hwrap : ∀ e ∈ entries, e.base.toNat + e.length.toNat < 2 ^ 64) {fuel : ℕ} (hfuel : stop ≤ a + fuel) (s : Phys) :
    ∃ s', boot.readTags fuel (UInt64.ofNat a) s = (.ok (), s') ∧ Releases (Offered entries) s s' := by
  induction h generalizing fuel s with
  | @last a hfits htype =>
    obtain ⟨fuel, rfl⟩ : ∃ f, fuel = f + 1 := ⟨fuel - 1, by omega⟩
    refine ⟨s, ?_, (Releases.refl s).congr fun p _ => by simp [Offered]⟩
    rw [readTags, if_pos htype]
    rfl
  | @other a entries hend htype hsize hnext ih =>
    have hle := hnext.le
    obtain ⟨fuel, rfl⟩ : ∃ f, fuel = f + 1 := ⟨fuel - 1, by omega⟩
    obtain ⟨s', hrun, hr⟩ := @ih (by omega) hwrap fuel (by omega) s
    have htag : boot.readTag fuel (UInt64.ofNat a) s = (.ok (), s) := by
      unfold readTag
      rw [if_neg htype]
      rfl
    refine ⟨s', ?_, hr⟩
    rw [readTags, if_neg hend, bind_ok htag, ofNat_add_tagStride (by omega)]
    exact hrun
  | @memmap a entries htype hsize hentry hnext ih =>
    have hle := hnext.le
    obtain ⟨fuel, rfl⟩ : ∃ f, fuel = f + 1 := ⟨fuel - 1, by omega⟩
    obtain ⟨hmine, hlater⟩ := List.forall_mem_append.1 hwrap
    obtain ⟨s₁, htag, hr₁⟩ := @readTag_releases boot a htype hsize hentry (by omega) hmine fuel (by omega) s
    obtain ⟨s₂, hrun, hr₂⟩ := @ih (by omega) hlater fuel (by omega) s₁
    refine ⟨s₂, ?_, (hr₁.trans hr₂).congr fun p _ => offered_append.symm⟩
    have hend : boot.u32 (UInt64.ofNat a) ≠ MB2_TAG_END := by
      rw [htype]
      decide
    rw [readTags, if_neg hend, bind_ok htag, ofNat_add_tagStride (by omega)]
    exact hrun

/-! ### The map after boot -/

variable (boot) in
/-- The loader left a block of information at the address, with these entries in its memory maps. It
is far enough from the end of the address space for 32-bit offsets, and no entry reaches that end. -/
structure Describes (info : UInt64) (entries : List MemmapEntry) : Prop where
  nonnull : info ≠ 0
  room : info.toNat + (boot.u32 info).toNat + 2 ^ 32 ≤ 2 ^ 64
  tags : boot.TagsAt (info.toNat + (boot.u32 info).toNat) (info.toNat + 8) entries
  noWrap : ∀ e ∈ entries, e.base.toNat + e.length.toNat < 2 ^ 64

variable (boot) in
/-- A page is free exactly if an entry offers it and nothing that is to be kept has an address in it. -/
structure HonoursMap (info : UInt64) (entries : List MemmapEntry) (s : Phys) : Prop where
  free : ∀ p < MEMORY_MAX_PAGES, pageIsFree s.bitmap p = true ↔ Offered entries p ∧ ¬ Meets 0 0x100000 p ∧
    ¬ Meets boot.kernelStart.toNat boot.kernelEnd.toNat p ∧ ¬ Meets info.toNat (info.toNat + (boot.u32 info).toNat) p
  freeCount : s.freePageCount.toNat = (freePages s.bitmap).card
  total : s.totalPageCount.toNat = ((Finset.range MEMORY_MAX_PAGES).filter (Offered entries)).card

/-- What the tags release, counted. -/
theorem total_of_releases {s : Phys} (h : Releases (Offered entries) Phys.full s) (hcounted : Counted s) :
    s.totalPageCount.toNat = ((Finset.range MEMORY_MAX_PAGES).filter (Offered entries)).card := by
  rw [h.total rfl, hcounted]
  apply congrArg Finset.card
  ext p
  rw [mem_freePages, Finset.mem_filter, Finset.mem_range]
  apply and_congr_right
  intro hp
  have hfull : pageIsFree Phys.full.bitmap p ≠ true := fun hfree => by simpa [freePages_full] using mem_freePages.2 ⟨hp, hfree⟩
  rw [h.free p hp, or_iff_right hfull]

/-- The three ranges that are kept. -/
theorem reserves_kept {info : UInt64} (h : boot.Describes info entries) (hkernel : Rounds boot.kernelStart boot.kernelEnd) (s : Phys) :
    ∃ s', (do
        reserveRegion 0 0x100000
        reserveRegion boot.kernelStart boot.kernelEnd
        boot.reserveInfo info : Exec Phys Unit) s = (.ok (), s') ∧
      Reserves (fun p => (Meets 0 0x100000 p ∨ Meets boot.kernelStart.toNat boot.kernelEnd.toNat p) ∨
        Meets info.toNat (info.toNat + (boot.u32 info).toNat) p) s s' := by
  have htotal : (info + (boot.u32 info).toUInt64).toNat = info.toNat + (boot.u32 info).toNat := by
    have hroom := h.room
    rw [UInt64.toNat_add, UInt32.toNat_toUInt64]
    omega
  have hsize := h.tags.le
  have hnonzero : boot.u32 info ≠ 0 := by
    intro hzero
    rw [hzero, UInt32.toNat_zero] at hsize
    omega
  have hinfo : Rounds info (info + (boot.u32 info).toUInt64) := by
    have hroom := h.room
    refine .inr (.inl ⟨UInt64.lt_iff_toNat_lt.2 ?_, ?_⟩) <;> omega
  obtain ⟨s₁, hlow, hr₁⟩ := @reserveRegion_reserves 0 0x100000 (.inr (.inl (by decide))) s
  obtain ⟨s₂, hker, hr₂⟩ := reserveRegion_reserves hkernel s₁
  obtain ⟨s₃, hinf, hr₃⟩ := reserveRegion_reserves hinfo s₂
  rw [htotal] at hr₃
  refine ⟨s₃, ?_, (hr₁.trans hr₂).trans hr₃⟩
  rw [bind_ok hlow, bind_ok hker]
  unfold reserveInfo
  rw [if_pos hnonzero]
  exact hinf

end Boot

/-- A loader that reports three pages above the first megabyte. -/
def smallMap (kernelStart kernelEnd : UInt64) : Boot where
  ram a := [56, 0, 0, 0, 0, 0, 0, 0, 6, 0, 0, 0, 40, 0, 0, 0, 24, 0, 0, 0, 0, 0, 0, 0, 0, 0, 0x10, 0, 0, 0, 0, 0, 0, 0x30, 0, 0, 0,
    0, 0, 0, 1, 0, 0, 0, 0, 0, 0, 0, 0, 0, 0, 0, 8, 0, 0, 0].getD (a.toNat - 0x1000) 0
  kernelStart := kernelStart
  kernelEnd := kernelEnd

theorem describes_smallMap (kernelStart kernelEnd : UInt64) :
    (smallMap kernelStart kernelEnd).Describes 0x1000 [⟨0x100000, 0x3000, MB2_MEM_AVAILABLE⟩] := by
  have hsame : ∀ a, (smallMap kernelStart kernelEnd).u32 a = (smallMap 0 0).u32 a := fun _ => rfl
  have hentries : (smallMap kernelStart kernelEnd).memmapEntries 0x1008 ++ [] = [⟨0x100000, 0x3000, MB2_MEM_AVAILABLE⟩] := by
    show (smallMap 0 0).memmapEntries 0x1008 ++ [] = _
    decide
  constructor
  case nonnull => decide
  case room =>
    rw [hsame]
    decide
  case tags =>
    rw [hsame, ← hentries]
    refine .memmap ?_ ?_ ?_ (.last ?_ ?_) <;> simp only [hsame] <;> decide
  case noWrap => decide

end Tg11Kernel.Memory.Physical
