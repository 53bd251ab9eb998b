import Tg11Kernel.Heap.Separation

/-! The size of a kernel allocation. The size asked for is rounded up, a header is added
and the sum is rounded up to pages, all modulo the word; close to the top the sum comes out
small, and a small region is handed out. -/

namespace Tg11Kernel.Heap

open Lib Exec Memory

variable {s s' : Kernel} {live : List Region} {r t : Region} {size ptr : UInt64} {a : ℕ}

/-! ### Bytes of a region -/

/-- The address is in the region. -/
def Region.Covers (r : Region) (a : ℕ) : Prop := r.addr.toNat ≤ a ∧ a < r.addr.toNat + r.count.toNat * 4096

/-- The address is in the header of the region. -/
def Region.HeaderCovers (r : Region) (a : ℕ) : Prop := r.origin = .kmalloc ∧ r.addr.toNat ≤ a ∧ a < r.addr.toNat + 32

theorem Region.Fits.start_lt (h : r.Fits) : r.start < MEMORY_VIRT_PAGES := h.lt h.has_start

theorem Region.Fits.addr_toNat (h : r.Fits) : r.addr.toNat = 0xFFFF900000000000 + r.start * 4096 := by
  rw [h.addr]
  exact virtAddr_toNat h.start_lt

theorem Region.Fits.page_of_covers (h : r.Fits) (ha : r.Covers a) :
    ∃ q, r.Has q ∧ (virtAddr q).toNat ≤ a ∧ a < (virtAddr q).toNat + 4096 := by
  have haddr := h.addr_toNat
  unfold Region.Covers at ha
  have hhas : r.Has (r.start + (a - r.addr.toNat) / 4096) := ⟨by omega, by omega⟩
  refine ⟨_, hhas, ?_⟩
  rw [virtAddr_toNat (h.lt hhas)]
  omega

theorem Region.Apart.not_covers (hr : r.Fits) (ht : t.Fits) (h : r.Apart t) (ha : r.Covers a) : ¬ t.Covers a := by
  intro hta
  obtain ⟨q, hq, hlo, hhi⟩ := hr.page_of_covers ha
  obtain ⟨q', hq', hlo', hhi'⟩ := ht.page_of_covers hta
  rw [virtAddr_toNat (hr.lt hq)] at hlo hhi
  rw [virtAddr_toNat (ht.lt hq')] at hlo' hhi'
  have heq : q = q' := by omega
  exact h q hq (heq ▸ hq')

theorem covers_of_headerCovers (h : t.Fits) (ha : t.HeaderCovers a) : t.Covers a := by
  have hpos : 0 < t.count.toNat := Nat.pos_of_ne_zero fun hzero => h.nonempty (UInt64.toNat_inj.1 hzero)
  obtain ⟨-, hlo, hhi⟩ := ha
  exact ⟨hlo, by omega⟩

/-! ### Freeing -/

/-- The call frees the region, and nothing else. -/
structure FreesExactly (r : Region) (s : Kernel) (result : Outcome Unit × Kernel) : Prop where
  returns : result.1 = .ok ()
  bits : ∀ q, result.2.virt.test q = if r.Has q then false else s.virt.test q
  unmapped : ∀ q, r.Has q → leaf result.2.mem.tables (virtAddr q) = none
  kept : ∀ q < MEMORY_VIRT_PAGES, ¬ r.Has q → leaf result.2.mem.tables (virtAddr q) = leaf s.mem.tables (virtAddr q)
  frames : ∀ n, result.2.mem.used n = true ↔ s.mem.used n = true ∧ ¬ ∃ q F, r.Has q ∧ s.Holds q F ∧ F.no = n

theorem Released.kept {pages : List UInt64} {own : List ℕ} (h : Released r pages own s s') (hfits : r.Fits) {q : ℕ}
    (hq : q < MEMORY_VIRT_PAGES) (hout : ¬ r.Has q) : leaf s'.mem.tables (virtAddr q) = leaf s.mem.tables (virtAddr q) := by
  apply h.shrinks.kept
  intro v hv hplace
  obtain ⟨q', hq', rfl⟩ := h.pages v hv
  obtain rfl := place_virtAddr hq (hfits.lt hq') hplace
  exact hout hq'

/-- A region made by `kmalloc` is all that its address frees. -/
theorem KernelInv.kfree_exact (h : KernelInv s (r :: live)) (hor : r.origin = .kmalloc) :
    FreesExactly r s (kfree (r.addr + kmallocHeaderSize) s) := by
  have hfits := h.fits r List.mem_cons_self
  obtain ⟨F, m, hF, hw, hrun⟩ := kfree_apply h.wf hfits.nonempty hfits.le (h.header r List.mem_cons_self hor)
  rw [← hfits.addr] at hrun
  obtain ⟨hinv, hkept⟩ := h.spoil (by rw [hor]; exact nofun) hF hw
  have hsame := hw.sameLeaves h.wf hF.owned.data.2
  obtain ⟨s', pages, own, hfree, hreleased, hown⟩ := hinv.virtFreePages
  have hfree' : Heap.virtFreePages r.addr r.count ⟨m, s.virt⟩ = (.ok (), s') := hfree
  have hfits' : Region.Fits { r with origin := .pages } := ⟨hfits.nonempty, hfits.addr, hfits.le, hfits.temp⟩
  rw [hrun, hfree']
  refine ⟨rfl, hreleased.bits, hreleased.gone, fun q hq hout => ?_, fun n => ?_⟩
  · exact (hreleased.kept hfits' hq hout).trans (hsame _)
  · rw [hreleased.shrinks.used n, hw.used]
    have howned : n ∈ own ↔ ∃ q G, r.Has q ∧ s.Holds q G ∧ G.no = n := by
      constructor
      · intro hn
        obtain ⟨q, G, hq, hG, hno⟩ := hreleased.own n hn
        have hleaf := hG.leaf
        rw [hsame] at hleaf
        exact ⟨q, G, hq, (h.holds_of_leaf (hfits.lt hq) hleaf).1, hno⟩
      · rintro ⟨q, G, hq, hG, rfl⟩
        exact hown q G hq (hkept q G hG)
    rw [howned]

/-! ### Rounding -/

theorem alignUp_sixteen (size : UInt64) : (Physical.alignUp size 16).toNat = (size.toNat + 15) % 2 ^ 64 / 16 * 16 := by
  have hsub : size + 16 - 1 = size + 15 := add_sub_one size 16
  unfold Physical.alignUp
  rw [andMask_toNat _ (by decide : 4 ≤ 64) (by decide), hsub, UInt64.toNat_add]
  rfl

theorem kmallocPages_toNat (size : UInt64) : (kmallocPages size).toNat =
    ((32 + (size.toNat + 15) % 2 ^ 64 / 16 * 16) % 2 ^ 64 + 4095) % 2 ^ 64 / 4096 := by
  have hheader : kmallocHeaderSize.toNat = 32 := by decide
  have hsub : ∀ total : UInt64, total + MEMORY_PAGE_SIZE - 1 = total + 4095 := fun total => add_sub_one total 4096
  unfold kmallocPages
  dsimp only
  rw [UInt64.toNat_div, hsub, UInt64.toNat_add, UInt64.toNat_add, alignUp_sixteen, hheader]
  rfl

theorem le_kmallocPages (hpages : kmallocPages size ≠ 0) (hsize : size.toNat + 32 ≤ 2 ^ 64) :
    size.toNat + 32 ≤ (kmallocPages size).toNat * 4096 := by
  have hpos : (kmallocPages size).toNat ≠ 0 := fun hzero => hpages (UInt64.toNat_inj.1 hzero)
  rw [kmallocPages_toNat] at hpos ⊢
  omega

theorem kmallocPages_wraps (hsize : 2 ^ 64 < size.toNat + 32) : (kmallocPages size).toNat = 1 := by
  have hlt := size.toNat_lt
  rw [kmallocPages_toNat]
  omega

/-! ### What is handed out -/

/-- The region behind an address of `kmalloc`. -/
def kmallocRegion (size p : UInt64) : Region := ⟨.kmalloc, p - kmallocHeaderSize, kmallocPages size⟩

/-- The address is one of the bytes handed out. -/
def Handed (size p : UInt64) (a : ℕ) : Prop := p.toNat ≤ a ∧ a < p.toNat + size.toNat

/-- The bytes asked for are inside the new region, mapped, apart from what is live and from every
header; the address frees that region. -/
structure Enough (size p : UInt64) (s : Kernel) (live : List Region) : Prop where
  inside : ∀ a, Handed size p a → (kmallocRegion size p).Covers a
  mapped : ∀ a, Handed size p a → ∃ q F, s.Holds q F ∧ (virtAddr q).toNat ≤ a ∧ a < (virtAddr q).toNat + 4096
  apart : ∀ a, Handed size p a → ∀ t ∈ live, ¬ t.Covers a
  headers : ∀ a, Handed size p a → ∀ t ∈ kmallocRegion size p :: live, ¬ t.HeaderCovers a
  freed : FreesExactly (kmallocRegion size p) s (kfree p s)

/-- An allocation adds its region to the live ones. -/
theorem KernelInv.kmalloc (h : KernelInv s live) {p : UInt64} (hcall : kmalloc size s = (.ok p, s')) :
    KernelInv s' (kmallocRegion size p :: live) ∧ kmallocPages size ≠ 0 ∧ ∃ virtPage, p = virtAddr virtPage + kmallocHeaderSize := by
  rcases kmalloc_ends h.wf size with ⟨_, _, hres, hcount, virtPage, start, rfl, hm, hmaps, hheader⟩ | ⟨_, hres, -⟩
  · rw [hres] at hcall
    injection hcall with hp hs
    injection hp with hp
    subst hp hs
    refine ⟨?_, hcount, virtPage, rfl⟩
    unfold kmallocRegion
    rw [UInt64.add_sub_cancel]
    exact h.alloc .kmalloc nofun hcount hm hmaps fun _ => hheader
  · rw [hres] at hcall
    cases hcall

/-- After any history, an allocation that succeeds is large enough unless the size and the header wrap. -/
theorem kmalloc_enough_iff {s₀ : Kernel} {p : UInt64} (h : Fresh s₀) (hrun : KernelRun s₀ s live)
    (hcall : kmalloc size s = (.ok p, s')) : Enough size p s' live ↔ size.toNat + 32 ≤ 2 ^ 64 := by
  obtain ⟨hinv, hpages, virtPage, hp⟩ := (hrun.inv h).kmalloc hcall
  have hfits := hinv.fits _ List.mem_cons_self
  have hheader : kmallocHeaderSize.toNat = 32 := by decide
  have hback : (kmallocRegion size p).addr + kmallocHeaderSize = p := UInt64.sub_add_cancel _ _
  have haddr : p.toNat = (kmallocRegion size p).addr.toNat + 32 := by
    have hstart := hfits.start_lt
    have hwindow : MEMORY_VIRT_PAGES < 2 ^ 32 := by decide
    have hlo := hfits.addr_toNat
    have hsum := congrArg UInt64.toNat hback
    rw [UInt64.toNat_add, hheader] at hsum
    omega
  have hcount : (kmallocRegion size p).count = kmallocPages size := rfl
  constructor
  · intro he
    by_contra hwraps
    have hone := kmallocPages_wraps (Nat.lt_of_not_le hwraps)
    obtain ⟨-, hhi⟩ := he.inside (p.toNat + 4096) ⟨by omega, by omega⟩
    rw [hcount, hone] at hhi
    omega
  · intro hsize
    have hle := le_kmallocPages hpages hsize
    have hinside : ∀ a, Handed size p a → (kmallocRegion size p).Covers a := by
      rintro a ⟨hlo, hhi⟩
      unfold Region.Covers
      rw [hcount]
      omega
    have hapart : ∀ a, Handed size p a → ∀ t ∈ live, ¬ t.Covers a := fun a ha t ht =>
      ((List.pairwise_cons.1 hinv.apart).1 t ht).not_covers hfits (hinv.fits t (List.mem_cons_of_mem _ ht)) (hinside a ha)
    constructor
    case inside => exact hinside
    case mapped =>
      intro a ha
      obtain ⟨q, hq, hrange⟩ := hfits.page_of_covers (hinside a ha)
      obtain ⟨F, hF⟩ := hinv.mapped _ List.mem_cons_self nofun q hq
      exact ⟨q, F, hF, hrange⟩
    case apart => exact hapart
    case headers =>
      intro a ha t ht hcovers
      rcases List.mem_cons.1 ht with rfl | ht
      · have hlo := ha.1
        have hhi := hcovers.2.2
        omega
      · exact hapart a ha t ht (covers_of_headerCovers (hinv.fits t (List.mem_cons_of_mem _ ht)) hcovers)
    case freed =>
      have hfree := hinv.kfree_exact rfl
      rw [hback] at hfree
      exact hfree

/-- A hundred bytes on an empty heap. -/
theorem kmalloc_enough_hundred : Enough 100 (kmallocHeaderSize + 0xFFFF900000000000) (kmalloc 100 emptyKernel).2 [] :=
  (kmalloc_enough_iff fresh_emptyKernel .start (Prod.ext (by decide) rfl)).2 (by decide)

/-- All but one byte of the address space. -/
theorem not_kmalloc_enough : ¬ ∀ (s₀ s : Kernel) (live : List Region) (size p : UInt64), Fresh s₀ → KernelRun s₀ s live →
    (kmalloc size s).1 = .ok p → Enough size p (kmalloc size s).2 live := by
  intro hall
  have hcall : (kmalloc 0xFFFFFFFFFFFFFFFF emptyKernel).1 = .ok 0xFFFF900000000020 := by decide
  have hinside := (hall emptyKernel emptyKernel [] _ _ fresh_emptyKernel .start hcall).inside (0xFFFF900000000020 + 4096)
    (show _ ∧ _ by decide)
  revert hinside
  unfold Region.Covers
  decide

end Tg11Kernel.Heap
