import Tg11Kernel.Heap.Headers

/-! The kernel's heap over whole histories. From a window with nothing mapped, whatever is
reserved, allocated and freed, the live regions are apart, their pages have frames of their
own, and what is freed is unmapped and its frames are free. -/

namespace Tg11Kernel.Heap

open Lib Exec Memory

/-! ### Histories -/

/-- Where a region comes from. -/
inductive Origin where
  | reserved
  | pages
  | kmalloc
  deriving DecidableEq

/-- A region by its address and its number of pages. -/
structure Region where
  origin : Origin
  addr : UInt64
  count : UInt64
  deriving DecidableEq

/-- The index of the first page. -/
def Region.start (r : Region) : ℕ := ((r.addr - MEMORY_VIRT_BASE) / MEMORY_PAGE_SIZE).toNat

/-- Page `p` of the window is in the region. -/
def Region.Has (r : Region) (p : ℕ) : Prop := r.start ≤ p ∧ p < r.start + r.count.toNat

instance (r : Region) (q : ℕ) : Decidable (r.Has q) := inferInstanceAs (Decidable (_ ∧ _))

def Region.Apart (r t : Region) : Prop := ∀ p, r.Has p → ¬ t.Has p

/-- The live regions after an allocation. -/
def grant (origin : Origin) (count : UInt64) (base : UInt64 → UInt64) : Outcome UInt64 → List Region → List Region
  | .ok addr, live => ⟨origin, base addr, count⟩ :: live
  | _, live => live

/-- The states from `s₀` on, with the regions that are live. A free passes a live result. -/
inductive KernelRun (s₀ : Kernel) : Kernel → List Region → Prop where
  | start : KernelRun s₀ s₀ []
  | reserve {s : Kernel} {live : List Region} (count : UInt64) (hrun : KernelRun s₀ s live) :
      KernelRun s₀ (virtReservePages count s).2 (grant .reserved count id (virtReservePages count s).1 live)
  | alloc {s : Kernel} {live : List Region} (count : UInt64) (hrun : KernelRun s₀ s live) :
      KernelRun s₀ (virtAllocPages count s).2 (grant .pages count id (virtAllocPages count s).1 live)
  | kmalloc {s : Kernel} {live : List Region} (size : UInt64) (hrun : KernelRun s₀ s live) :
      KernelRun s₀ (Heap.kmalloc size s).2
        (grant .kmalloc (kmallocPages size) (fun ptr => ptr - kmallocHeaderSize) (Heap.kmalloc size s).1 live)
  | free {s : Kernel} {live : List Region} (r : Region) (hrun : KernelRun s₀ s live) (hr : r ∈ live) (hor : r.origin ≠ .kmalloc) :
      KernelRun s₀ (virtFreePages r.addr r.count s).2 (live.erase r)
  | kfree {s : Kernel} {live : List Region} (r : Region) (hrun : KernelRun s₀ s live) (hr : r ∈ live) (hor : r.origin = .kmalloc) :
      KernelRun s₀ (Heap.kfree (r.addr + kmallocHeaderSize) s).2 (live.erase r)

/-- A page of the window with a frame. -/
def Kernel.Holds (s : Kernel) (p : ℕ) (F : Frame) : Prop := Backed s.mem PAGE_FLAG_WRITABLE (virtAddr p) F

/-- The call frees the region. -/
structure Freed (r : Region) (s : Kernel) (result : Outcome Unit × Kernel) : Prop where
  returns : result.1 = .ok ()
  bits : ∀ p, r.Has p → result.2.virt.test p = false
  unmapped : ∀ p, r.Has p → leaf result.2.mem.tables (virtAddr p) = none
  frames : ∀ p F, r.Has p → s.Holds p F → result.2.mem.used F.no = false

/-- The promises of the heap. -/
structure KernelSafe (s : Kernel) (live : List Region) : Prop where
  apart : live.Pairwise Region.Apart
  inWindow : ∀ r ∈ live, r.addr = virtAddr r.start ∧ ∀ p, r.Has p → p < MEMORY_VIRT_PAGES ∧ p ≠ MEMORY_TEMP_PAGE_INDEX
  mapped : ∀ r ∈ live, r.origin ≠ .reserved → ∀ p, r.Has p → ∃ F, s.Holds p F ∧ ∀ q < MEMORY_VIRT_PAGES, s.Holds q F → q = p
  freed : ∀ r ∈ live, r.origin ≠ .kmalloc → Freed r s (virtFreePages r.addr r.count s)
  kfreed : ∀ r ∈ live, r.origin = .kmalloc → Freed r s (kfree (r.addr + kmallocHeaderSize) s)
  returns : ∀ n, (virtReservePages n s).1 ≠ .hang ∧ (virtAllocPages n s).1 ≠ .hang ∧ (kmalloc n s).1 ≠ .hang
  failed : ∀ count, (virtAllocPages count s).1 = .fail →
    (virtAllocPages count s).2.virt = s.virt ∧ Unchanged s.mem (virtAllocPages count s).2.mem

/-- The start: the temporary page is marked, and nothing is mapped in the window. -/
structure Fresh (s : Kernel) : Prop where
  wf : WellFormed s.mem
  temp : s.virt.test MEMORY_TEMP_PAGE_INDEX = true
  unmapped : ∀ p < MEMORY_VIRT_PAGES, leaf s.mem.tables (virtAddr p) = none

/-! ### The invariant -/

/-- A region as it was handed out. -/
structure Region.Fits (r : Region) : Prop where
  nonempty : r.count ≠ 0
  addr : r.addr = virtAddr r.start
  le : r.start + r.count.toNat ≤ MEMORY_VIRT_PAGES
  temp : ¬ r.Has MEMORY_TEMP_PAGE_INDEX

structure KernelInv (s : Kernel) (live : List Region) : Prop where
  wf : WellFormed s.mem
  temp : s.virt.test MEMORY_TEMP_PAGE_INDEX = true
  fits : ∀ r ∈ live, r.Fits
  apart : live.Pairwise Region.Apart
  marked : ∀ r ∈ live, ∀ p, r.Has p → s.virt.test p = true
  mapped : ∀ r ∈ live, r.origin ≠ .reserved → ∀ p, r.Has p → ∃ F, s.Holds p F
  unmapped : ∀ p < MEMORY_VIRT_PAGES, (∀ r ∈ live, r.origin ≠ .reserved → ¬ r.Has p) → leaf s.mem.tables (virtAddr p) = none
  own : ∀ p < MEMORY_VIRT_PAGES, ∀ q < MEMORY_VIRT_PAGES, ∀ F, s.Holds p F → s.Holds q F → p = q
  header : ∀ r ∈ live, r.origin = .kmalloc → HeaderAt s.mem r.start r.count

variable {s s' : Kernel} {live : List Region} {r t : Region} {m m' : Mem} {p q start n virtPage : ℕ} {count : UInt64} {F G : Frame}

theorem Fresh.inv (h : Fresh s) : KernelInv s [] where
  wf := h.wf
  temp := h.temp
  fits _ hr := nomatch hr
  apart := .nil
  marked _ hr := nomatch hr
  mapped _ hr := nomatch hr
  unmapped p hp _ := h.unmapped p hp
  own p hp q _ F hF _ := by
    have hleaf := hF.leaf
    rw [h.unmapped p hp] at hleaf
    cases hleaf
  header _ hr := nomatch hr

/-- The order of the live regions does not matter. -/
theorem KernelInv.perm {live' : List Region} (h : KernelInv s live) (hp : live.Perm live') : KernelInv s live' where
  wf := h.wf
  temp := h.temp
  fits r hr := h.fits r (hp.mem_iff.2 hr)
  apart := hp.pairwise h.apart fun hab p hb ha => hab p ha hb
  marked r hr := h.marked r (hp.mem_iff.2 hr)
  mapped r hr := h.mapped r (hp.mem_iff.2 hr)
  unmapped p hlt hnot := h.unmapped p hlt fun r hr => hnot r (hp.mem_iff.1 hr)
  own := h.own
  header r hr := h.header r (hp.mem_iff.2 hr)

theorem Region.Fits.lt (h : r.Fits) (hp : r.Has p) : p < MEMORY_VIRT_PAGES := Nat.lt_of_lt_of_le hp.2 h.le

/-- A page with a leaf is in a live region, and holds the frame of its leaf. -/
theorem KernelInv.holds_of_leaf (h : KernelInv s live) (hp : p < MEMORY_VIRT_PAGES)
    (hleaf : leaf s.mem.tables (virtAddr p) = some (.small (pageEntry F.1 PAGE_FLAG_WRITABLE))) :
    s.Holds p F ∧ ∃ r ∈ live, r.origin ≠ .reserved ∧ r.Has p := by
  have hex : ∃ r ∈ live, r.origin ≠ .reserved ∧ r.Has p := by
    by_contra hnone
    rw [h.unmapped p hp fun r hr hor hhas => hnone ⟨r, hr, hor, hhas⟩] at hleaf
    cases hleaf
  obtain ⟨r, hr, hor, hhas⟩ := hex
  obtain ⟨G, hG⟩ := h.mapped r hr hor p hhas
  have heq := hG.leaf
  rw [hleaf, Option.some.injEq, Leaf.small.injEq] at heq
  have hFG : F = G := by rw [← Frame.of_pageEntry F PAGE_FLAG_WRITABLE, heq, Frame.of_pageEntry]
  rw [hFG]
  exact ⟨hG, r, hr, hor, hhas⟩

/-! ### Taking -/

/-- A run of free pages is apart from what is live. -/
theorem KernelInv.apart_of_isRun (h : KernelInv s live) (hrun : IsRun s.virt.test MEMORY_VIRT_PAGES virtPage n) (ht : t ∈ live)
    (hp : t.Has p) : ¬ (virtPage ≤ p ∧ p < virtPage + n) := by
  intro hin
  have hused := h.marked t ht p hp
  rw [hrun.free p hin.1 hin.2] at hused
  cases hused

theorem start_virtAddr (origin : Origin) (count : UInt64) (hp : virtPage < MEMORY_VIRT_PAGES) : Region.start ⟨origin, virtAddr virtPage, count⟩ = virtPage :=
  virtAddr_index hp

section

variable (h : KernelInv s live) (origin : Origin) (hcount : count ≠ 0) (hm : MarksRun virtPage count.toNat s.virt s'.virt)
include h origin hcount hm

/-- Where the bits of the region were free, the region fits. -/
theorem KernelInv.fits_of_marks : Region.Fits ⟨origin, virtAddr virtPage, count⟩ := by
  have hpos : 0 < count.toNat := Nat.pos_of_ne_zero fun h => hcount (UInt64.toNat_inj.1 h)
  have hle := hm.isRun.le
  have hstart := start_virtAddr origin count (show virtPage < MEMORY_VIRT_PAGES by omega)
  refine ⟨hcount, by rw [hstart], by rw [hstart]; exact hle, ?_⟩
  unfold Region.Has
  rw [hstart]
  intro hin
  have hfree := hm.isRun.free _ hin.1 hin.2
  rw [h.temp] at hfree
  cases hfree

/-- A region is marked, and no page changes that is mapped. -/
theorem KernelInv.take (hwf : WellFormed s'.mem)
    (hkept : ∀ q F, q < MEMORY_VIRT_PAGES → s.Holds q F → s'.Holds q F ∧ ∀ i, s'.mem.tables.get F i = s.mem.tables.get F i)
    (hmapped : origin ≠ .reserved → ∀ i < count.toNat, ∃ F, s'.Holds (virtPage + i) F)
    (hunmapped : ∀ q < MEMORY_VIRT_PAGES, (origin = .reserved ∨ ¬ (virtPage ≤ q ∧ q < virtPage + count.toNat)) →
      leaf s'.mem.tables (virtAddr q) = leaf s.mem.tables (virtAddr q))
    (hown : ∀ q < MEMORY_VIRT_PAGES, ∀ q' < MEMORY_VIRT_PAGES, ∀ F, s'.Holds q F → s'.Holds q' F → q = q')
    (hheader : origin = .kmalloc → HeaderAt s'.mem virtPage count) :
    KernelInv s' (⟨origin, virtAddr virtPage, count⟩ :: live) := by
  have hfits := h.fits_of_marks origin hcount hm
  have hpos : 0 < count.toNat := Nat.pos_of_ne_zero fun h => hcount (UInt64.toNat_inj.1 h)
  have hle := hm.isRun.le
  have hstart := start_virtAddr origin count (show virtPage < MEMORY_VIRT_PAGES by omega)
  have hhas : ∀ q, Region.Has ⟨origin, virtAddr virtPage, count⟩ q ↔ virtPage ≤ q ∧ q < virtPage + count.toNat := by
    intro q
    unfold Region.Has
    rw [hstart]
  constructor
  case wf => exact hwf
  case temp =>
    rw [hm.test, h.temp, ite_self]
  case fits =>
    intro t ht
    rcases List.mem_cons.1 ht with rfl | ht
    · exact hfits
    · exact h.fits t ht
  case apart =>
    rw [List.pairwise_cons]
    refine ⟨fun t ht q hq htq => ?_, h.apart⟩
    exact h.apart_of_isRun hm.isRun ht htq ((hhas q).1 hq)
  case marked =>
    intro t ht q hq
    rw [hm.test]
    rcases List.mem_cons.1 ht with rfl | ht
    · rw [if_pos ((hhas q).1 hq)]
    · rw [h.marked t ht q hq, ite_self]
  case mapped =>
    intro t ht hor q hq
    rcases List.mem_cons.1 ht with rfl | ht
    · obtain ⟨hlo, hhi⟩ := (hhas q).1 hq
      obtain ⟨F, hF⟩ := hmapped hor (q - virtPage) (by omega)
      rw [Nat.add_sub_cancel' hlo] at hF
      exact ⟨F, hF⟩
    · obtain ⟨F, hF⟩ := h.mapped t ht hor q hq
      exact ⟨F, (hkept q F ((h.fits t ht).lt hq) hF).1⟩
  case unmapped =>
    intro q hq hnot
    rw [hunmapped q hq, h.unmapped q hq fun t ht => hnot t (List.mem_cons_of_mem _ ht)]
    by_cases hor : origin = .reserved
    · exact .inl hor
    · exact .inr fun hin => hnot _ List.mem_cons_self hor ((hhas q).2 hin)
  case own => exact hown
  case header =>
    intro t ht hor
    rcases List.mem_cons.1 ht with rfl | ht
    · rw [hstart]
      exact hheader hor
    · have htlt : t.start < MEMORY_VIRT_PAGES := by
        have hfit := h.fits t ht
        have htpos : 0 < t.count.toNat := Nat.pos_of_ne_zero fun h => hfit.nonempty (UInt64.toNat_inj.1 h)
        have htle := hfit.le
        omega
      exact (h.header t ht hor).keeps fun F hF => hkept t.start F htlt hF

end

/-- Pages are reserved. -/
theorem KernelInv.reserve (h : KernelInv s live) (hcount : count ≠ 0) (hmem : s'.mem = s.mem)
    (hm : MarksRun virtPage count.toNat s.virt s'.virt) : KernelInv s' (⟨.reserved, virtAddr virtPage, count⟩ :: live) := by
  have hholds : ∀ q F, s'.Holds q F ↔ s.Holds q F := by
    intro q F
    unfold Kernel.Holds
    rw [hmem]
  apply h.take .reserved hcount hm
  · rw [hmem]
    exact h.wf
  · intro q F _ hF
    exact ⟨(hholds q F).2 hF, fun i => by rw [hmem]⟩
  · exact fun hor => absurd rfl hor
  · intro q _ _
    rw [hmem]
  · intro q hq q' hq' F hF hF'
    exact h.own q hq q' hq' F ((hholds q F).1 hF) ((hholds q' F).1 hF')
  · exact nofun

/-- Pages are mapped to frames that were free. -/
theorem KernelInv.alloc (h : KernelInv s live) (origin : Origin) (hor : origin ≠ .reserved) (hcount : count ≠ 0)
    (hm : MarksRun virtPage count.toNat s.virt s'.virt) (hmaps : MapsRun virtPage start count.toNat s.mem s'.mem)
    (hheader : origin = .kmalloc → HeaderAt s'.mem virtPage count) : KernelInv s' (⟨origin, virtAddr virtPage, count⟩ :: live) := by
  have hle := hm.isRun.le
  have hframes := hmaps.isRun.le
  -- the pages of the region, and the others
  have hinside : ∀ i < count.toNat, ∀ F, s'.Holds (virtPage + i) F → F = frameOf (start + i) := fun i hi F hF =>
    Backed.inj hF hmaps.grows.wf (hmaps.backed i hi) rfl
  have houtside : ∀ q < MEMORY_VIRT_PAGES, ¬ (virtPage ≤ q ∧ q < virtPage + count.toNat) →
      leaf s'.mem.tables (virtAddr q) = leaf s.mem.tables (virtAddr q) := by
    intro q hq hout
    apply hmaps.others
    intro i hi hplace
    have heq := place_virtAddr hq (by omega) hplace
    omega
  have hback : ∀ q < MEMORY_VIRT_PAGES, ¬ (virtPage ≤ q ∧ q < virtPage + count.toNat) → ∀ F, s'.Holds q F → s.Holds q F := by
    intro q hq hout F hF
    apply (h.holds_of_leaf hq _).1
    rw [← houtside q hq hout]
    exact hF.leaf
  have hfresh : ∀ i < count.toNat, ∀ q F, s.Holds q F → F ≠ frameOf (start + i) := by
    rintro i hi q F hF rfl
    have hused := hF.owned.data.1
    rw [frameOf_no (by omega), hmaps.isRun.free _ (by omega) (by omega)] at hused
    cases hused
  have hnotMapped : ∀ q F, q < MEMORY_VIRT_PAGES → s.Holds q F → ¬ (virtPage ≤ q ∧ q < virtPage + count.toNat) := by
    intro q F hq hF hin
    have hnone := hmaps.absent (q - virtPage) (by omega)
    rw [Nat.add_sub_cancel' hin.1, hF.leaf] at hnone
    cases hnone
  apply h.take origin hcount hm hmaps.grows.wf
  · intro q F hq hF
    refine ⟨⟨(houtside q hq (hnotMapped q F hq hF)).trans hF.leaf, hF.owned.grows hmaps.grows⟩, ?_⟩
    exact (hmaps.grows.data F hF.owned.data).2
  · exact fun _ i hi => ⟨_, hmaps.backed i hi⟩
  · intro q hq hout
    exact houtside q hq (hout.resolve_left hor)
  · intro q hq q' hq' F hF hF'
    by_cases hin : virtPage ≤ q ∧ q < virtPage + count.toNat <;> by_cases hin' : virtPage ≤ q' ∧ q' < virtPage + count.toNat
    · obtain ⟨i, rfl⟩ := Nat.exists_eq_add_of_le hin.1
      obtain ⟨j, rfl⟩ := Nat.exists_eq_add_of_le hin'.1
      have heq := (hinside i (by omega) F hF).symm.trans (hinside j (by omega) F hF')
      have hno := congrArg Frame.no heq
      rw [frameOf_no (by omega), frameOf_no (by omega)] at hno
      omega
    · obtain ⟨i, rfl⟩ := Nat.exists_eq_add_of_le hin.1
      exact absurd (hinside i (by omega) F hF) (hfresh i (by omega) q' F (hback q' hq' hin' F hF'))
    · obtain ⟨j, rfl⟩ := Nat.exists_eq_add_of_le hin'.1
      exact absurd (hinside j (by omega) F hF') (hfresh j (by omega) q F (hback q hq hin F hF))
    · exact h.own q hq q' hq' F (hback q hq hin F hF) (hback q' hq' hin' F hF')
  · exact hheader

/-- Nothing was allocated. -/
theorem KernelInv.unchanged (h : KernelInv s live) (hvirt : s'.virt = s.virt) (hu : Unchanged s.mem s'.mem) : KernelInv s' live := by
  have hback : ∀ q < MEMORY_VIRT_PAGES, ∀ F, s'.Holds q F → s.Holds q F := by
    intro q hq F hF
    apply (h.holds_of_leaf hq _).1
    rw [← hu.2]
    exact hF.leaf
  have hkept : ∀ q F, s.Holds q F → s'.Holds q F := fun q F hF => ⟨(hu.2 _).trans hF.leaf, hF.owned.grows hu.1⟩
  constructor
  case wf => exact hu.1.wf
  case temp =>
    rw [hvirt]
    exact h.temp
  case fits => exact h.fits
  case apart => exact h.apart
  case marked =>
    rw [hvirt]
    exact h.marked
  case mapped =>
    intro r hr hor q hq
    obtain ⟨F, hF⟩ := h.mapped r hr hor q hq
    exact ⟨F, hkept q F hF⟩
  case unmapped => exact fun q hq hnot => (hu.2 _).trans (h.unmapped q hq hnot)
  case own => exact fun q hq q' hq' F hF hF' => h.own q hq q' hq' F (hback q hq F hF) (hback q' hq' F hF')
  case header =>
    intro r hr hor
    exact (h.header r hr hor).keeps fun F hF => ⟨hkept r.start F hF, (hu.1.data F hF.owned.data).2⟩

/-! ### Giving back -/

theorem Region.Fits.has_start (h : r.Fits) : r.Has r.start := by
  have hpos : 0 < r.count.toNat := Nat.pos_of_ne_zero fun hzero => h.nonempty (UInt64.toNat_inj.1 hzero)
  exact ⟨Nat.le_refl _, by omega⟩

/-- The pages of a region lost their leaves, their frames were freed and their bits cleared. -/
structure Released (r : Region) (pages : List UInt64) (own : List ℕ) (s s' : Kernel) : Prop where
  bits : ∀ q, s'.virt.test q = if r.Has q then false else s.virt.test q
  shrinks : Shrinks pages own s.mem s'.mem
  pages : ∀ v ∈ pages, ∃ q, r.Has q ∧ v = virtAddr q
  gone : ∀ q, r.Has q → leaf s'.mem.tables (virtAddr q) = none
  own : ∀ k ∈ own, ∃ q F, r.Has q ∧ s.Holds q F ∧ F.no = k

section

variable (h : KernelInv s (r :: live))
include h

theorem KernelInv.release {pages : List UInt64} {own : List ℕ} (hr : Released r pages own s s') :
    KernelInv s' live := by
  have hfits := h.fits r List.mem_cons_self
  have happart := (List.pairwise_cons.1 h.apart).1
  have hleaf : ∀ q < MEMORY_VIRT_PAGES, ¬ r.Has q → leaf s'.mem.tables (virtAddr q) = leaf s.mem.tables (virtAddr q) := by
    intro q hq hout
    apply hr.shrinks.kept
    intro v hv hplace
    obtain ⟨q', hq', rfl⟩ := hr.pages v hv
    obtain rfl := place_virtAddr hq (hfits.lt hq') hplace
    exact hout hq'
  have hkept : ∀ q F, q < MEMORY_VIRT_PAGES → ¬ r.Has q → s.Holds q F → s'.Holds q F := by
    intro q F hq hout hF
    refine ⟨(hleaf q hq hout).trans hF.leaf, hF.owned.shrinks hr.shrinks fun hmem => ?_⟩
    obtain ⟨q', G, hq', hG, hno⟩ := hr.own _ hmem
    obtain rfl := Frame.ext_no hno
    obtain rfl := h.own q hq q' (hfits.lt hq') G hF hG
    exact hout hq'
  have hback : ∀ q F, q < MEMORY_VIRT_PAGES → s'.Holds q F → s.Holds q F := by
    intro q F hq hF
    have hout : ¬ r.Has q := by
      intro hin
      have hsome := hF.leaf
      rw [hr.gone q hin] at hsome
      cases hsome
    apply (h.holds_of_leaf hq _).1
    rw [← hleaf q hq hout]
    exact hF.leaf
  constructor
  case wf => exact hr.shrinks.wf
  case temp =>
    rw [hr.bits, if_neg hfits.temp]
    exact h.temp
  case fits => exact fun t ht => h.fits t (List.mem_cons_of_mem _ ht)
  case apart => exact (List.pairwise_cons.1 h.apart).2
  case marked =>
    intro t ht q hq
    rw [hr.bits, if_neg fun hin => happart t ht q hin hq]
    exact h.marked t (List.mem_cons_of_mem _ ht) q hq
  case mapped =>
    intro t ht hor q hq
    obtain ⟨F, hF⟩ := h.mapped t (List.mem_cons_of_mem _ ht) hor q hq
    exact ⟨F, hkept q F ((h.fits t (List.mem_cons_of_mem _ ht)).lt hq) (fun hin => happart t ht q hin hq) hF⟩
  case unmapped =>
    intro q hq hnot
    by_cases hin : r.Has q
    · exact hr.gone q hin
    · rw [hleaf q hq hin]
      apply h.unmapped q hq
      intro t ht hor
      rcases List.mem_cons.1 ht with rfl | ht
      · exact hin
      · exact hnot t ht hor
  case own => exact fun q hq q' hq' F hF hF' => h.own q hq q' hq' F (hback q F hq hF) (hback q' F hq' hF')
  case header =>
    intro t ht hor
    have hfit := h.fits t (List.mem_cons_of_mem _ ht)
    have hlt := hfit.lt hfit.has_start
    refine (h.header t (List.mem_cons_of_mem _ ht) hor).keeps fun F hF => ⟨?_, ?_⟩
    · exact hkept t.start F hlt (fun hin => happart t ht _ hin hfit.has_start) hF
    · exact hr.shrinks.data F hF.owned.data.2

/-- A region is given back by its address. -/
theorem KernelInv.virtFreePages :
    ∃ s' pages own, Heap.virtFreePages r.addr r.count s = (.ok (), s') ∧ Released r pages own s s' ∧
      ∀ q F, r.Has q → s.Holds q F → F.no ∈ own := by
  have hfits := h.fits r List.mem_cons_self
  have hbits : ∀ m q, (Kernel.mk m ((List.range r.count.toNat).foldl (fun b i => b.clear (r.start + i)) s.virt)).virt.test q =
      if r.Has q then false else s.virt.test q := fun _ q => clearRun_spec s.virt r.start _ q
  have hsplit : ∀ q, r.Has q → ∃ i < r.count.toNat, q = r.start + i := by
    rintro q ⟨hlo, hhi⟩
    exact ⟨q - r.start, by omega, by omega⟩
  by_cases hor : r.origin = .reserved
  · have hnone : ∀ q, r.Has q → leaf s.mem.tables (virtAddr q) = none := by
      intro q hq
      apply h.unmapped q (hfits.lt hq)
      intro t ht hne hin
      rcases List.mem_cons.1 ht with rfl | ht
      · exact hne hor
      · exact (List.pairwise_cons.1 h.apart).1 t ht q hq hin
    have hrun := virtFreePages_reserved (s := s) hfits.nonempty hfits.le fun i hi => hnone _ ⟨by omega, by omega⟩
    rw [← hfits.addr] at hrun
    refine ⟨_, [], [], hrun, ⟨hbits _, Shrinks.refl h.wf, (fun _ hv => nomatch hv), hnone, fun _ hk => nomatch hk⟩, ?_⟩
    intro q F hq hF
    have hleaf := hF.leaf
    rw [hnone q hq] at hleaf
    cases hleaf
  · have hholds : ∀ i < r.count.toNat, s.Holds (r.start + i) (Frame.of (pagingGetPhys s.mem.tables (virtAddr (r.start + i)))) := by
      intro i hi
      have hin : r.Has (r.start + i) := ⟨by omega, by omega⟩
      obtain ⟨F, hF⟩ := h.mapped r List.mem_cons_self hor _ hin
      rw [Backed.phys hF (aligned_virtAddr (hfits.lt hin)), Frame.of_val]
      exact hF
    have hinj : ∀ i < r.count.toNat, ∀ j < r.count.toNat, Frame.of (pagingGetPhys s.mem.tables (virtAddr (r.start + i))) =
        Frame.of (pagingGetPhys s.mem.tables (virtAddr (r.start + j))) → i = j := by
      intro i hi j hj heq
      have hle := hfits.le
      have hFi := hholds i hi
      rw [heq] at hFi
      have hpage := h.own _ (by omega) _ (by omega) _ hFi (hholds j hj)
      omega
    obtain ⟨m', hrun, hs⟩ := virtFreePages_mapped h.wf hfits.nonempty hfits.le hholds hinj
    rw [← hfits.addr] at hrun
    refine ⟨_, _, _, hrun, ⟨hbits _, hs, ?_, ?_, ?_⟩, ?_⟩
    · intro v hv
      obtain ⟨i, hi, rfl⟩ := List.mem_map.1 hv
      rw [List.mem_range] at hi
      exact ⟨r.start + i, ⟨by omega, by omega⟩, rfl⟩
    · intro q hq
      obtain ⟨i, hi, rfl⟩ := hsplit q hq
      exact hs.gone _ ⟨_, List.mem_map.2 ⟨i, List.mem_range.2 hi, rfl⟩, rfl⟩
    · intro k hk
      obtain ⟨i, hi, rfl⟩ := List.mem_map.1 hk
      rw [List.mem_range] at hi
      exact ⟨r.start + i, _, ⟨by omega, by omega⟩, hholds i hi, rfl⟩
    · intro q F hq hF
      obtain ⟨i, hi, rfl⟩ := hsplit q hq
      have heq : F = Frame.of (pagingGetPhys s.mem.tables (virtAddr (r.start + i))) := Backed.inj hF h.wf (hholds i hi) rfl
      rw [heq]
      exact List.mem_map.2 ⟨i, List.mem_range.2 hi, rfl⟩

theorem KernelInv.freed :
    Freed r s (Heap.virtFreePages r.addr r.count s) ∧ KernelInv (Heap.virtFreePages r.addr r.count s).2 live := by
  obtain ⟨s', pages, own, hrun, hr, hown⟩ := h.virtFreePages
  rw [hrun]
  refine ⟨⟨rfl, ?_, hr.gone, ?_⟩, h.release hr⟩
  · intro p hp
    rw [hr.bits, if_pos hp]
  · intro p F hp hF
    by_contra hused
    exact ((hr.shrinks.used F.no).1 (Bool.eq_true_of_not_eq_false hused)).2 (hown p F hp hF)

/-- Without its header a region of `kmalloc` is one of pages. -/
theorem KernelInv.spoil (hor : r.origin ≠ .reserved) (hF : s.Holds r.start F) (hw : Writes s.mem m F) :
    KernelInv ⟨m, s.virt⟩ ({ r with origin := .pages } :: live) ∧ ∀ q G, s.Holds q G → Kernel.Holds ⟨m, s.virt⟩ q G := by
  have hfits := h.fits r List.mem_cons_self
  have htable := hF.owned.data.2
  have hsame := hw.sameLeaves h.wf htable
  have hkept : ∀ q G, s.Holds q G → Kernel.Holds ⟨m, s.virt⟩ q G := fun q G hG => Backed.writes hG h.wf hw htable
  have hback : ∀ q G, q < MEMORY_VIRT_PAGES → Kernel.Holds ⟨m, s.virt⟩ q G → s.Holds q G := by
    intro q G hq hG
    apply (h.holds_of_leaf hq _).1
    rw [← hsame]
    exact hG.leaf
  refine ⟨?_, hkept⟩
  constructor
  case wf => exact hw.wf h.wf htable
  case temp => exact h.temp
  case fits =>
    intro t ht
    rcases List.mem_cons.1 ht with rfl | ht
    · exact ⟨hfits.nonempty, hfits.addr, hfits.le, hfits.temp⟩
    · exact h.fits t (List.mem_cons_of_mem _ ht)
  case apart =>
    have hpair := List.pairwise_cons.1 h.apart
    exact List.pairwise_cons.2 ⟨hpair.1, hpair.2⟩
  case marked =>
    intro t ht
    rcases List.mem_cons.1 ht with rfl | ht
    · exact h.marked r List.mem_cons_self
    · exact h.marked t (List.mem_cons_of_mem _ ht)
  case mapped =>
    intro t ht hne q hq
    have hex : ∃ F, s.Holds q F := by
      rcases List.mem_cons.1 ht with rfl | ht
      · exact h.mapped r List.mem_cons_self hor q hq
      · exact h.mapped t (List.mem_cons_of_mem _ ht) hne q hq
    obtain ⟨G, hG⟩ := hex
    exact ⟨G, hkept q G hG⟩
  case unmapped =>
    intro q hq hnot
    rw [hsame]
    apply h.unmapped q hq
    intro t ht hne
    rcases List.mem_cons.1 ht with rfl | ht
    · exact hnot { t with origin := .pages } List.mem_cons_self (fun hne => nomatch hne)
    · exact hnot t (List.mem_cons_of_mem _ ht) hne
  case own => exact fun q hq q' hq' G hG hG' => h.own q hq q' hq' G (hback q G hq hG) (hback q' G hq' hG')
  case header =>
    intro t ht hkind
    rcases List.mem_cons.1 ht with rfl | ht
    · cases hkind
    · have hfit := h.fits t (List.mem_cons_of_mem _ ht)
      refine (h.header t (List.mem_cons_of_mem _ ht) hkind).keeps fun G hG => ⟨hkept t.start G hG, fun i => hw.frame G i ?_⟩
      rintro rfl
      have hpage := h.own _ (hfit.lt hfit.has_start) _ (hfits.lt hfits.has_start) G hG hF
      have hstart := hfit.has_start
      rw [hpage] at hstart
      exact (List.pairwise_cons.1 h.apart).1 t ht r.start hfits.has_start hstart

theorem KernelInv.kfreed (hor : r.origin = .kmalloc) :
    Freed r s (Heap.kfree (r.addr + kmallocHeaderSize) s) ∧ KernelInv (Heap.kfree (r.addr + kmallocHeaderSize) s).2 live := by
  have hfits := h.fits r List.mem_cons_self
  obtain ⟨F, m, hF, hw, hrun⟩ := kfree_apply h.wf hfits.nonempty hfits.le (h.header r List.mem_cons_self hor)
  rw [← hfits.addr] at hrun
  obtain ⟨hinv, hkept⟩ := h.spoil (by rw [hor]; exact nofun) hF hw
  obtain ⟨hfreed, hrest⟩ := hinv.freed
  rw [hrun]
  exact ⟨⟨hfreed.returns, hfreed.bits, hfreed.unmapped, fun p G hp hG => hfreed.frames p G hp (hkept p G hG)⟩, hrest⟩

end

/-! ### Runs -/

theorem KernelRun.inv {s₀ : Kernel} (hrun : KernelRun s₀ s live) (h : Fresh s₀) : KernelInv s live := by
  induction hrun with
  | start => exact h.inv
  | reserve count _ ih =>
    rcases virtReservePages_ends _ count with ⟨_, s', hres, hcount, hmem, virtPage, rfl, hm⟩ | ⟨s', hres, rfl⟩ <;> rw [hres]
    · exact ih.reserve hcount hmem hm
    · exact ih
  | alloc count _ ih =>
    rcases virtAllocPages_ends ih.wf count with ⟨_, s', hres, hcount, virtPage, start, rfl, hm, hmaps⟩ | ⟨s', hres, hvirt, hu⟩ <;>
      rw [hres]
    · exact ih.alloc .pages nofun hcount hm hmaps nofun
    · exact ih.unchanged hvirt hu
  | kmalloc size _ ih =>
    rcases kmalloc_ends ih.wf size with ⟨_, s', hres, hcount, virtPage, start, rfl, hm, hmaps, hheader⟩ | ⟨s', hres, hvirt, hu⟩ <;>
      rw [hres]
    · unfold grant
      dsimp only
      rw [UInt64.add_sub_cancel]
      exact ih.alloc .kmalloc nofun hcount hm hmaps fun _ => hheader
    · exact ih.unchanged hvirt hu
  | free r _ hr _ ih => exact (ih.perm (List.perm_cons_erase hr)).freed.2
  | kfree r _ hr hor ih => exact ((ih.perm (List.perm_cons_erase hr)).kfreed hor).2

theorem KernelInv.safe (h : KernelInv s live) : KernelSafe s live where
  apart := h.apart
  inWindow r hr := by
    have hfits := h.fits r hr
    refine ⟨hfits.addr, fun p hp => ⟨hfits.lt hp, ?_⟩⟩
    rintro rfl
    exact hfits.temp hp
  mapped r hr hor p hp := by
    obtain ⟨F, hF⟩ := h.mapped r hr hor p hp
    exact ⟨F, hF, fun q hq hF' => h.own q hq p ((h.fits r hr).lt hp) F hF' hF⟩
  freed r hr _ := (h.perm (List.perm_cons_erase hr)).freed.1
  kfreed r hr hor := ((h.perm (List.perm_cons_erase hr)).kfreed hor).1
  returns n := by
    refine ⟨?_, ?_, ?_⟩
    · rcases virtReservePages_ends s n with ⟨_, _, hres, -⟩ | ⟨_, hres, -⟩ <;> rw [hres] <;> exact nofun
    · rcases virtAllocPages_ends h.wf n with ⟨_, _, hres, -⟩ | ⟨_, hres, -⟩ <;> rw [hres] <;> exact nofun
    · rcases kmalloc_ends h.wf n with ⟨_, _, hres, -⟩ | ⟨_, hres, -⟩ <;> rw [hres] <;> exact nofun
  failed count hfail := by
    rcases virtAllocPages_ends h.wf count with ⟨_, _, hres, -⟩ | ⟨_, hres, hvirt, hu⟩
    · rw [hres] at hfail
      cases hfail
    · rw [hres]
      exact ⟨hvirt, hu⟩

/-- In every history from an empty window the kernel's heap keeps its promises. -/
theorem kernelHeap_safe {s₀ : Kernel} (h : Fresh s₀) (hrun : KernelRun s₀ s live) : KernelSafe s live := (hrun.inv h).safe

/-- The heap after `memory_init`, over an empty memory. -/
def emptyKernel : Kernel := ⟨bare, Bitmap.set (fun _ => 0) MEMORY_TEMP_PAGE_INDEX⟩

theorem fresh_emptyKernel : Fresh emptyKernel where
  wf := wellFormed_bare
  temp := by
    unfold emptyKernel
    dsimp only
    rw [Bitmap.test_set, if_pos rfl]
  unmapped p _ := leaf_bare _

/-- Three pages, and a hundred bytes beside them. -/
theorem kernelHeap_safe_two : KernelSafe (kmalloc 100 (virtAllocPages 3 emptyKernel).2).2
    (grant .kmalloc (kmallocPages 100) (fun ptr => ptr - kmallocHeaderSize) (kmalloc 100 (virtAllocPages 3 emptyKernel).2).1
      (grant .pages 3 id (virtAllocPages 3 emptyKernel).1 [])) :=
  kernelHeap_safe fresh_emptyKernel (.kmalloc 100 (.alloc 3 .start))

end Tg11Kernel.Heap
