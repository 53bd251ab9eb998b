import Tg11Kernel.Heap.Kernel

/-! One account for each operation of the kernel's heap: of the search for a run of pages, of
the frames of a region, of mapping it with the way back, and of giving it back. -/

namespace Tg11Kernel.Heap

open Lib Exec Memory

variable {m m' m'' : Mem} {s s' : Kernel} {p q n start virtPage : ℕ} {count addr : UInt64}

/-! ### Pages of the window -/

theorem virtAddr_toNat (h : p < MEMORY_VIRT_PAGES) : (virtAddr p).toNat = 0xFFFF900000000000 + p * 4096 := by
  have hmax : MEMORY_VIRT_PAGES = 16384 := rfl
  have hp : (UInt64.ofNat p).toNat = p := UInt64.toNat_ofNat_of_lt' (by unfold UInt64.size; omega)
  have hsize : MEMORY_PAGE_SIZE.toNat = 4096 := rfl
  have hbase : MEMORY_VIRT_BASE.toNat = 0xFFFF900000000000 := rfl
  unfold virtAddr
  rw [UInt64.toNat_add, UInt64.toNat_mul, hp, hsize, hbase]
  omega

theorem aligned_virtAddr (h : p < MEMORY_VIRT_PAGES) : Aligned (virtAddr p) := by
  rw [aligned_iff, virtAddr_toNat h]
  omega

theorem canonical_virtAddr (h : p < MEMORY_VIRT_PAGES) : Canonical (virtAddr p) := by
  rw [canonical_iff, virtAddr_toNat h]
  omega

theorem place_virtAddr (hp : p < MEMORY_VIRT_PAGES) (hq : q < MEMORY_VIRT_PAGES) (h : place (virtAddr p) = place (virtAddr q)) : p = q := by
  rw [place_eq_iff (canonical_virtAddr hp) (canonical_virtAddr hq), virtAddr_toNat hp, virtAddr_toNat hq] at h
  omega

theorem virtAddr_add (p i : ℕ) : virtAddr (p + i) = virtAddr p + UInt64.ofNat i * MEMORY_PAGE_SIZE := by
  unfold virtAddr
  rw [UInt64.ofNat_add, UInt64.add_mul, UInt64.add_assoc]

/-- The page index of an address of the window. -/
theorem virtAddr_index (h : p < MEMORY_VIRT_PAGES) : ((virtAddr p - MEMORY_VIRT_BASE) / MEMORY_PAGE_SIZE).toNat = p := by
  have hbase : MEMORY_VIRT_BASE.toNat = 0xFFFF900000000000 := rfl
  have hsize : MEMORY_PAGE_SIZE.toNat = 4096 := rfl
  have hnat := virtAddr_toNat h
  have hle : MEMORY_VIRT_BASE ≤ virtAddr p := by
    rw [UInt64.le_iff_toNat_le]
    omega
  rw [UInt64.toNat_div, UInt64.toNat_sub_of_le _ _ hle, hnat, hbase, hsize]
  omega

/-- The search answers a run of free pages, or the end of the window. -/
theorem findVirtualRun_isRun {virt : Bitmap} (hcount : count ≠ 0) (h : findVirtualRun virt count < MEMORY_VIRT_PAGES) :
    IsRun virt.test MEMORY_VIRT_PAGES (findVirtualRun virt count) count.toNat := by
  have hpos : 0 < count.toNat := Nat.pos_of_ne_zero fun h => hcount (UInt64.toNat_inj.1 h)
  have hspec : Lowest virt.test MEMORY_VIRT_PAGES count.toNat _ := findRun_spec hpos
  unfold findVirtualRun at h ⊢
  cases hrun : findRun virt.test count.toNat MEMORY_VIRT_PAGES 0 0 0 with
  | none =>
    rw [hrun] at h
    exact absurd h (Nat.lt_irrefl _)
  | some start =>
    rw [hrun] at hspec
    exact hspec.1

/-! ### Runs of frames -/

/-- The frame with a number. -/
def frameOf (n : ℕ) : Frame := Frame.of (UInt64.ofNat n * MEMORY_PAGE_SIZE)

theorem frameOf_val (h : n < MEMORY_MAX_PAGES) : (frameOf n).1 = UInt64.ofNat n * MEMORY_PAGE_SIZE := frame_masked h

theorem frameOf_no (h : n < MEMORY_MAX_PAGES) : (frameOf n).no = n := by
  unfold Frame.no
  rw [frameOf_val h, frameNo_ofNat h]

/-- A run of free frames was marked used; the memory is as it was. -/
structure TakenRun (m m' : Mem) (start n : ℕ) : Prop where
  isRun : IsRun m.used MEMORY_MAX_PAGES start n
  nonzero : start ≠ 0
  tables : m'.tables = m.tables
  used : ∀ k, m'.used k = if start ≤ k ∧ k < start + n then true else m.used k

namespace TakenRun

section

variable (h : TakenRun m m' start n)
include h

theorem used_of_used {k : ℕ} (hk : m.used k = true) : m'.used k = true := by
  rw [h.used, hk, ite_self]

theorem lt {i : ℕ} (hi : i < n) : start + i < MEMORY_MAX_PAGES := by
  have hle := h.isRun.le
  omega

theorem owned (wf : WellFormed m) {i : ℕ} (hi : i < n) : Owned m' (frameOf (start + i)) := by
  have hlt := h.lt hi
  have hno := frameOf_no hlt
  have hnonzero : (frameOf (start + i)).1 ≠ 0 := by
    intro hzero
    have hnat := frame_toNat hlt
    rw [← frameOf_val hlt, hzero, UInt64.toNat_zero] at hnat
    have hstart := h.nonzero
    omega
  refine ⟨⟨?_, ?_⟩, ?_, hnonzero⟩
  · rw [hno, h.used, if_pos (by omega)]
  · intro htable
    rw [h.tables] at htable
    have hused := (wf.used _ htable).2
    rw [hno, h.isRun.free _ (by omega) (by omega)] at hused
    cases hused
  · rw [hno]
    exact hlt

theorem grows (wf : WellFormed m) : Grows ((List.range n).map fun i => start + i) m m' where
  wf := by
    have hsame : SameTree m.tables m'.tables := by
      rw [h.tables]
      exact SameTree.of_eq rfl fun _ _ _ => rfl
    exact hsame.wellFormed wf (fun G hG => h.used_of_used (wf.used G hG).2) (h.used_of_used wf.zero)
  used _ hk := h.used_of_used hk
  tables G hG := by rwa [h.tables]
  fresh k hk := by
    rw [h.used] at hk
    split_ifs at hk with hin
    · refine .inr (.inr (List.mem_map.2 ⟨k - start, List.mem_range.2 (by omega), by omega⟩))
    · exact .inl hk
  data G hG := by
    rw [h.tables]
    exact ⟨hG.2, fun _ => rfl⟩

end

end TakenRun

theorem physAllocPages_ends (wf : WellFormed m) (hn : 0 < n) :
    Ends (physAllocPages n) m (fun phys m' => phys = 0 ∧ m' = m ∨
      ∃ start, phys = UInt64.ofNat start * MEMORY_PAGE_SIZE ∧ phys ≠ 0 ∧ TakenRun m m' start n) fun _ => False := by
  have hspec : Lowest m.used MEMORY_MAX_PAGES n _ := findRun_spec hn
  have hpos : ¬ n = 0 := by omega
  cases hrun : findRun m.used n MEMORY_MAX_PAGES 0 0 0 with
  | none =>
    have halloc : physAllocPages n m = (.ok 0, m) := by
      unfold physAllocPages
      rw [if_neg hpos, hrun]
    exact .inl ⟨0, m, halloc, .inl ⟨rfl, rfl⟩⟩
  | some start =>
    rw [hrun] at hspec
    have hle := hspec.1.le
    have hstart : start ≠ 0 := by
      rintro rfl
      have hzero := hspec.1.free 0 (by omega) (by omega)
      rw [wf.zero] at hzero
      cases hzero
    have halloc : physAllocPages n m = (.ok (UInt64.ofNat start * MEMORY_PAGE_SIZE), { m with
        used := fun page => if start ≤ page ∧ page < start + n then true else m.used page
        freePageCount := m.freePageCount - UInt64.ofNat n }) := by
      unfold physAllocPages
      rw [if_neg hpos, hrun]
    refine .inl ⟨_, _, halloc, .inr ⟨start, rfl, ?_, hspec.1, hstart, rfl, fun _ => rfl⟩⟩
    exact Physical.address_ne_zero (by omega) hstart

theorem shrinks_freeRun (wf : WellFormed m) (hle : start + n ≤ MEMORY_MAX_PAGES) (hown : ∀ i < n, Owned m (frameOf (start + i))) :
    Shrinks [] ((List.range n).map fun i => start + i) m ((List.range n).foldl (fun m i => m.freeFrame (start + i)) m) := by
  induction n with
  | zero => exact Shrinks.refl wf
  | succ n ih =>
    have hs := ih (by omega) fun i hi => hown i (by omega)
    have hno : (frameOf (start + n)).no = start + n := frameOf_no (by omega)
    have hnot : (frameOf (start + n)).no ∉ (List.range n).map fun i => start + i := by
      rw [hno, List.mem_map]
      rintro ⟨i, hi, heq⟩
      rw [List.mem_range] at hi
      omega
    have hlast := shrinks_freeFrame hs.wf ((hown n (Nat.lt_succ_self n)).shrinks hs hnot)
    rw [hno] at hlast
    rw [List.range_succ, List.foldl_append, List.map_append]
    exact hs.trans hlast

/-- A run of frames is given back. -/
theorem physFreePages_shrinks (wf : WellFormed m) (hstart : start < MEMORY_MAX_PAGES) (hle : start + n ≤ MEMORY_MAX_PAGES)
    (hown : ∀ i < n, Owned m (frameOf (start + i))) :
    ∃ m', physFreePages (UInt64.ofNat start * MEMORY_PAGE_SIZE) n m = (.ok (), m') ∧
      Shrinks [] ((List.range n).map fun i => start + i) m m' := by
  have hindex : (UInt64.ofNat start * MEMORY_PAGE_SIZE / MEMORY_PAGE_SIZE).toNat = start := frameNo_ofNat hstart
  refine ⟨_, ?_, shrinks_freeRun wf hle hown⟩
  unfold physFreePages
  rw [modify_apply, hindex]

/-! ### Mapping a region -/

/-- The first `n` pages of a region were mapped to the frames from `start` on. -/
structure Placed (virtPage start n : ℕ) (m m' : Mem) : Prop where
  grows : Grows [] m m'
  absent : ∀ i < n, leaf m.tables (virtAddr (virtPage + i)) = none
  leaf : ∀ i < n, leaf m'.tables (virtAddr (virtPage + i)) = some (.small (pageEntry (frameOf (start + i)).1 PAGE_FLAG_WRITABLE))
  others : ∀ a, (∀ i < n, place a ≠ place (virtAddr (virtPage + i))) → Memory.leaf m'.tables a = Memory.leaf m.tables a

namespace Placed

theorem refl (wf : WellFormed m) : Placed virtPage start 0 m m where
  grows := Grows.refl wf
  absent _ hi := absurd hi (Nat.not_lt_zero _)
  leaf _ hi := absurd hi (Nat.not_lt_zero _)
  others _ _ := rfl

/-- A page more. -/
theorem succ (h : Placed virtPage start n m m') (hnone : Memory.leaf m'.tables (virtAddr (virtPage + n)) = none)
    (hsets : SetsLeaf (virtAddr (virtPage + n)) (some (.small (pageEntry (frameOf (start + n)).1 PAGE_FLAG_WRITABLE))) m' m'') :
    Placed virtPage start (n + 1) m m'' := by
  have hne : ∀ i < n, place (virtAddr (virtPage + i)) ≠ place (virtAddr (virtPage + n)) := by
    intro i hi hplace
    have hleaf := h.leaf i hi
    rw [leaf_congr h.grows.wf hplace, hnone] at hleaf
    cases hleaf
  constructor
  case grows => exact (h.grows.trans hsets.grows)
  case absent =>
    intro i hi
    by_cases hin : i = n
    · rw [hin, ← h.others _ fun j hj heq => hne j hj heq.symm]
      exact hnone
    · exact h.absent i (by omega)
  case leaf =>
    intro i hi
    by_cases hin : i = n
    · rw [hin]
      exact hsets.leaf _ rfl
    · have hlt : i < n := by omega
      rw [hsets.others _ (hne i hlt)]
      exact h.leaf i hlt
  case others =>
    intro a ha
    rw [hsets.others a (ha n (Nat.lt_succ_self n))]
    exact h.others a fun i hi => ha i (by omega)

theorem keeps (h : Placed virtPage start n m m') (hu : Unchanged m' m'') : Placed virtPage start n m m'' where
  grows := h.grows.trans hu.1
  absent := h.absent
  leaf i hi := (hu.2 _).trans (h.leaf i hi)
  others a ha := (hu.2 a).trans (h.others a ha)

/-- The pages are unmapped again. -/
theorem undo (h : Placed virtPage start n m m') (wf : WellFormed m) (hle : virtPage + n ≤ MEMORY_VIRT_PAGES) :
    ∃ m'', (List.range n).reverse.forM (fun j => pagingUnmapPage (virtAddr (virtPage + j))) m' = (.ok (), m'') ∧ Unchanged m m'' := by
  have hpages : ∀ v ∈ (List.range n).reverse.map (fun j => virtAddr (virtPage + j)), ∃ i < n, v = virtAddr (virtPage + i) := by
    intro v hv
    obtain ⟨i, hi, rfl⟩ := List.mem_map.1 hv
    exact ⟨i, List.mem_range.1 (List.mem_reverse.1 hi), rfl⟩
  have hunmap : ∀ v m, WellFormed m → Aligned v ∧ (∀ pde, Memory.leaf m.tables v ≠ some (.large pde)) →
      ∃ m', pagingUnmapPage v m = (.ok (), m') ∧ Drops [v] [] m m' :=
    fun v m wf hv => ⟨_, rfl, shrinks_unmapPage wf hv.1 hv.2, paths_unmapPage wf v⟩
  have hkeep : ((List.range n).reverse.map fun j => virtAddr (virtPage + j)).Pairwise fun v w => ∀ m m', WellFormed m →
      Shrinks [v] [] m m' → Aligned v ∧ (∀ pde, Memory.leaf m.tables v ≠ some (.large pde)) →
      Aligned w ∧ (∀ pde, Memory.leaf m.tables w ≠ some (.large pde)) → Aligned w ∧ ∀ pde, Memory.leaf m'.tables w ≠ some (.large pde) := by
    apply List.pairwise_of_forall
    intro v w m m' wf hs _ hw
    refine ⟨hw.1, fun pde hlarge => ?_⟩
    by_cases hplace : place w = place v
    · rw [hs.gone w ⟨v, List.mem_singleton_self v, hplace⟩] at hlarge
      cases hlarge
    · rw [hs.kept w fun u hu => by rwa [List.mem_singleton.1 hu]] at hlarge
      exact hw.2 pde hlarge
  have hready : ∀ v ∈ (List.range n).reverse.map (fun j => virtAddr (virtPage + j)),
      Aligned v ∧ ∀ pde, Memory.leaf m'.tables v ≠ some (.large pde) := by
    intro v hv
    obtain ⟨i, hi, rfl⟩ := hpages v hv
    refine ⟨aligned_virtAddr (by omega), ?_⟩
    rw [h.leaf i hi]
    exact nofun
  obtain ⟨m'', hrun, hs⟩ := forM_shrinks hunmap hkeep h.grows.wf hready
  have hrun' : forM ((List.range n).reverse.map fun j => virtAddr (virtPage + j)) pagingUnmapPage m' = (.ok (), m'') := hrun
  rw [List.forM_map] at hrun'
  refine ⟨m'', hrun', ?_, ?_⟩
  · have hnil : List.flatMap (fun _ : UInt64 => ([] : List ℕ)) ((List.range n).reverse.map fun j => virtAddr (virtPage + j)) = [] := by
      simp
    rw [hnil] at hs
    exact h.grows.shrinks (fun _ hk => nomatch hk) hs.toShrinks
  · intro a
    by_cases ha : ∃ i < n, place a = place (virtAddr (virtPage + i))
    · obtain ⟨i, hi, hplace⟩ := ha
      rw [leaf_congr wf hplace, h.absent i hi]
      apply hs.gone
      exact ⟨_, List.mem_map.2 ⟨i, List.mem_reverse.2 (List.mem_range.2 hi), rfl⟩, hplace⟩
    · have hne : ∀ i < n, place a ≠ place (virtAddr (virtPage + i)) := fun i hi heq => ha ⟨i, hi, heq⟩
      rw [← h.others a hne]
      apply hs.kept
      intro v hv
      obtain ⟨i, hi, rfl⟩ := hpages v hv
      exact hne i hi

end Placed

theorem mapVirtRun_ends (wf : WellFormed m) (hvirt : virtPage + n ≤ MEMORY_VIRT_PAGES) (hphys : start + n ≤ MEMORY_MAX_PAGES) :
    Ends ((List.range n).forM (mapVirtPage virtPage (UInt64.ofNat start * MEMORY_PAGE_SIZE))) m
      (fun _ m' => Placed virtPage start n m m') (Unchanged m) := by
  have hloop : Ends ((List.range n).forM (mapVirtPage virtPage (UInt64.ofNat start * MEMORY_PAGE_SIZE))) m
      (fun _ m' => Placed virtPage start (List.range n).length m m') (Unchanged m) := by
    apply Ends.forM (I := fun l m' => Placed virtPage start l.length m m')
    · exact Placed.refl wf
    · intro done rest i m' hl h
      obtain ⟨rfl, hi⟩ := range_before hl
      rw [List.length_append, List.length_range, List.length_singleton] at *
      have hframe : UInt64.ofNat start * MEMORY_PAGE_SIZE + UInt64.ofNat i * MEMORY_PAGE_SIZE = (frameOf (start + i)).1 := by
        rw [frameOf_val (by omega), UInt64.ofNat_add, UInt64.add_mul]
      unfold mapVirtPage
      rw [hframe]
      have hmap := Ends.of_post (pagingMapPage_returns (virtAddr (virtPage + i)) (frameOf (start + i)).1 PAGE_FLAG_WRITABLE m')
        (pagingMapPage_post h.grows.wf (virtAddr (virtPage + i)) (frameOf (start + i)).1 PAGE_FLAG_WRITABLE)
      have hplaced := hmap.mono (fun _ m'' hq => h.succ hq.1 hq.2) fun _ hu => hu
      apply hplaced.orElse
      intro m'' hu
      obtain ⟨m₃, hrun, hu'⟩ := (h.keeps hu).undo wf (by omega)
      exact .inl ⟨(), m₃, hrun, hu'⟩
  rwa [List.length_range] at hloop

/-! ### Allocating a region -/

theorem Kernel.onMem_apply {α : Type} {q : Exec Mem α} {o : Outcome α} (h : q s.mem = (o, m)) :
    Kernel.onMem q s = (o, { s with mem := m }) := by
  unfold Kernel.onMem
  rw [h]

theorem Kernel.onMem_ends {α : Type} {q : Exec Mem α} {Q : α → Mem → Prop} {E : Mem → Prop} (h : Ends q s.mem Q E) :
    Ends (Kernel.onMem q) s (fun a s' => s'.virt = s.virt ∧ Q a s'.mem) fun s' => s'.virt = s.virt ∧ E s'.mem := by
  rcases h with ⟨a, m, hrun, hq⟩ | ⟨m, hrun, he⟩
  · exact .inl ⟨a, { s with mem := m }, Kernel.onMem_apply hrun, rfl, hq⟩
  · exact .inr ⟨{ s with mem := m }, Kernel.onMem_apply hrun, rfl, he⟩

/-- A run of pages of the window was taken in the bits. -/
structure MarksRun (virtPage n : ℕ) (virt virt' : Bitmap) : Prop where
  isRun : IsRun virt.test MEMORY_VIRT_PAGES virtPage n
  test : ∀ q, virt'.test q = if virtPage ≤ q ∧ q < virtPage + n then true else virt.test q

/-- A run of pages was mapped to a run of frames that were free. -/
structure MapsRun (virtPage start n : ℕ) (m m' : Mem) : Prop where
  isRun : IsRun m.used MEMORY_MAX_PAGES start n
  grows : Grows ((List.range n).map fun i => start + i) m m'
  absent : ∀ i < n, leaf m.tables (virtAddr (virtPage + i)) = none
  backed : ∀ i < n, Backed m' PAGE_FLAG_WRITABLE (virtAddr (virtPage + i)) (frameOf (start + i))
  others : ∀ a, (∀ i < n, place a ≠ place (virtAddr (virtPage + i))) → leaf m'.tables a = leaf m.tables a

theorem TakenRun.maps {m₁ : Mem} (ht : TakenRun m m₁ start n) (h : Placed virtPage start n m₁ m') (wf : WellFormed m) :
    MapsRun virtPage start n m m' where
  isRun := ht.isRun
  grows := ((ht.grows wf).trans h.grows).mono fun k hk => by rwa [List.append_nil] at hk
  absent i hi := by
    rw [← ht.tables]
    exact h.absent i hi
  backed i hi := ⟨h.leaf i hi, (ht.owned wf hi).grows h.grows⟩
  others a ha := by
    rw [h.others a ha, ht.tables]

theorem marksRun_markVirtualRun {virt : Bitmap} (h : IsRun virt.test MEMORY_VIRT_PAGES virtPage n) :
    MarksRun virtPage n virt ((List.range n).foldl (fun b i => b.set (virtPage + i)) virt) where
  isRun := h
  test q := Bitmap.test_setRun virt virtPage n q

theorem clearRun_setRun {virt : Bitmap} (h : IsRun virt.test MEMORY_VIRT_PAGES virtPage n) :
    (List.range n).foldl (fun b i => b.clear (virtPage + i)) ((List.range n).foldl (fun b i => b.set (virtPage + i)) virt) = virt := by
  apply Bitmap.ext_test
  intro q
  rw [Bitmap.test_clearRun, Bitmap.test_setRun]
  by_cases hin : virtPage ≤ q ∧ q < virtPage + n
  · rw [if_pos hin, h.free q hin.1 hin.2]
  · rw [if_neg hin, if_neg hin]

theorem Unchanged.refl (wf : WellFormed m) : Unchanged m m := ⟨Grows.refl wf, fun _ => rfl⟩

/-- A region is allocated, or nothing has changed but for tables. -/
theorem virtAllocPages_ends (wf : WellFormed s.mem) (count : UInt64) : Ends (virtAllocPages count) s
      (fun addr s' => count ≠ 0 ∧ ∃ virtPage start, addr = virtAddr virtPage ∧ MarksRun virtPage count.toNat s.virt s'.virt ∧
        MapsRun virtPage start count.toNat s.mem s'.mem)
      fun s' => s'.virt = s.virt ∧ Unchanged s.mem s'.mem := by
  have hrefl : s.virt = s.virt ∧ Unchanged s.mem s.mem := ⟨rfl, .refl wf⟩
  unfold virtAllocPages
  refine Ends.require_bind (fun hcount => ?_) fun _ => hrefl
  apply Ends.gets_bind
  refine Ends.require_bind (fun hfound => ?_) fun _ => hrefl
  have hrun := findVirtualRun_isRun hcount hfound
  have hpos : 0 < count.toNat := Nat.pos_of_ne_zero fun h => hcount (UInt64.toNat_inj.1 h)
  generalize findVirtualRun s.virt count = virtPage at hfound hrun
  have halloc := Kernel.onMem_ends (physAllocPages_ends wf hpos)
  apply (halloc.mono (fun _ _ h => h) fun _ h => h.2.elim).bind
  rintro phys s₁ ⟨hvirt, ⟨rfl, hmem⟩ | ⟨start, rfl, hphys, htaken⟩⟩
  · refine Ends.require_bind (fun hne => absurd rfl hne) fun _ => ?_
    rw [hvirt, hmem]
    exact hrefl
  · refine Ends.require_bind (fun _ => ?_) fun hne => absurd hphys hne
    have hwf₁ := (htaken.grows wf).wf
    have hle := htaken.isRun.le
    have hmark : markVirtualRun virtPage count true s₁ = (.ok (), ⟨s₁.mem, (List.range count.toNat).foldl (fun b i => b.set (virtPage + i)) s.virt⟩) := by
      rw [← hvirt]
      rfl
    generalize hbits : (List.range count.toNat).foldl (fun b i => b.set (virtPage + i)) s.virt = bits at hmark
    have hmap := Kernel.onMem_ends (s := ⟨s₁.mem, bits⟩) (mapVirtRun_ends hwf₁ hrun.le hle)
    rw [Ends, bind_ok hmark]
    apply (hmap.orElse _).bind
    · rintro _ s₃ ⟨hvirt₃, hplaced⟩
      refine Ends.pure ⟨hcount, virtPage, start, rfl, ?_, htaken.maps hplaced wf⟩
      rw [hvirt₃, ← hbits]
      exact marksRun_markVirtualRun hrun
    · -- the bits are cleared, then the frames go back
      rintro s₃ ⟨hvirt₃, hu⟩
      have hown : ∀ i < count.toNat, Owned s₃.mem (frameOf (start + i)) := fun i hi => (htaken.owned wf hi).grows hu.1
      obtain ⟨m₄, hfree, hs⟩ := physFreePages_shrinks hu.1.wf (by omega) hle hown
      have hclear : markVirtualRun virtPage count false s₃ = (.ok (), ⟨s₃.mem, s.virt⟩) := by
        have hbits₃ : bits = s₃.virt := hvirt₃.symm
        rw [← clearRun_setRun hrun, hbits, hbits₃]
        rfl
      rw [Ends, bind_ok hclear]
      have hback : Ends (physFreePages (UInt64.ofNat start * MEMORY_PAGE_SIZE) count.toNat) s₃.mem (fun _ m => m = m₄) fun _ => False :=
        .inl ⟨(), m₄, hfree, rfl⟩
      apply (Kernel.onMem_ends (s := ⟨s₃.mem, s.virt⟩) hback).mono
      · rintro _ s₅ ⟨hvirt₅, rfl⟩
        have htotal : Grows ((List.range count.toNat).map fun i => start + i) s.mem s₃.mem :=
          ((htaken.grows wf).trans hu.1).mono fun k hk => by rwa [List.append_nil] at hk
        refine ⟨hvirt₅, htotal.shrinks ?_ hs, fun a => ?_⟩
        · intro k hk
          obtain ⟨i, hi, rfl⟩ := List.mem_map.1 hk
          rw [List.mem_range] at hi
          exact htaken.isRun.free _ (by omega) (by omega)
        · rw [hs.kept a (fun v hv => absurd hv List.not_mem_nil), hu.2 a, htaken.tables]
      · exact fun _ h => h.2.elim

/-- Pages are reserved in the bits alone. -/
theorem virtReservePages_ends (s : Kernel) (count : UInt64) : Ends (virtReservePages count) s
      (fun addr s' => count ≠ 0 ∧ s'.mem = s.mem ∧ ∃ virtPage, addr = virtAddr virtPage ∧ MarksRun virtPage count.toNat s.virt s'.virt)
      (· = s) := by
  unfold virtReservePages
  refine Ends.require_bind (fun hcount => ?_) fun _ => rfl
  apply Ends.gets_bind
  refine Ends.require_bind (fun hfound => ?_) fun _ => rfl
  have hrun := findVirtualRun_isRun hcount hfound
  exact .inl ⟨_, _, rfl, hcount, rfl, _, rfl, marksRun_markVirtualRun hrun⟩

/-! ### Giving a region back -/

theorem unmapVirtPage_shrinks (wf : WellFormed m) {flags v : UInt64} {F : Frame} (hal : Aligned v) (h : Backed m flags v F) :
    ∃ m', unmapVirtPage v m = (.ok (), m') ∧ Drops [v] [F.no] m m' := by
  obtain ⟨m', hrun, hs⟩ := unmapHeapPage_shrinks wf hal h
  refine ⟨m', ?_, hs⟩
  have hphys := h.phys hal
  have hne : pagingGetPhys m.tables v ≠ 0 := by
    rw [hphys]
    exact h.owned.nonzero
  unfold unmapHeapPage at hrun
  rw [bind_ok (gets_apply _ _), if_pos hne, hphys] at hrun
  unfold unmapVirtPage
  rw [bind_ok (gets_apply _ _), if_pos hne, hphys, F.2]
  exact hrun

theorem unmapVirtPage_none {v : UInt64} (h : leaf m.tables v = none) : unmapVirtPage v m = (.ok (), m) := by
  have hphys : pagingGetPhys m.tables v = 0 := by
    rw [pagingGetPhys_eq, h]
    rfl
  unfold unmapVirtPage
  rw [bind_ok (gets_apply _ _), if_neg (by rw [hphys]; exact fun h => h rfl)]
  rfl

/-- The bits are cleared beside the pages. -/
theorem freeVirtPages_apply {l : List ℕ} {virt : Bitmap} (h : l.forM (fun i => unmapVirtPage (virtAddr (virtPage + i))) m = (.ok (), m')) :
    l.forM (freeVirtPage (virtAddr virtPage) virtPage) ⟨m, virt⟩ =
      (.ok (), ⟨m', l.foldl (fun b i => b.clear (virtPage + i)) virt⟩) := by
  induction l generalizing m virt with
  | nil =>
    cases h
    rfl
  | cons i l ih =>
    obtain ⟨_, m₁, hfirst, hrest⟩ := bind_ok_iff.1 h
    have hpage : freeVirtPage (virtAddr virtPage) virtPage i ⟨m, virt⟩ = (.ok (), ⟨m₁, virt.clear (virtPage + i)⟩) := by
      have hunmap : unmapVirtPage (virtAddr virtPage + UInt64.ofNat i * MEMORY_PAGE_SIZE) m = (.ok (), m₁) := by
        rw [← virtAddr_add]
        exact hfirst
      unfold freeVirtPage
      rw [bind_ok (Kernel.onMem_apply hunmap)]
      rfl
    exact (bind_ok hpage).trans (ih hrest)

/-- The region of an address, in the range of the window. -/
theorem virtFreePages_region (hcount : count ≠ 0) (hle : virtPage + count.toNat ≤ MEMORY_VIRT_PAGES) :
    virtFreePages (virtAddr virtPage) count = (List.range count.toNat).forM (freeVirtPage (virtAddr virtPage) virtPage) := by
  have hpos : 0 < count.toNat := Nat.pos_of_ne_zero fun h => hcount (UInt64.toNat_inj.1 h)
  have hlt : virtPage < MEMORY_VIRT_PAGES := by omega
  have hnat := virtAddr_toNat hlt
  have hmax : MEMORY_VIRT_PAGES = 16384 := rfl
  have hbase : MEMORY_VIRT_BASE.toNat = 0xFFFF900000000000 := rfl
  have hlimit : MEMORY_VIRT_LIMIT.toNat = 0xFFFF900004000000 := rfl
  have hzero : ¬ (virtAddr virtPage = 0 ∨ count = 0) := by
    rintro (h | h)
    · rw [h, UInt64.toNat_zero] at hnat
      omega
    · exact hcount h
  have hrange : ¬ (virtAddr virtPage < MEMORY_VIRT_BASE ∨ virtAddr virtPage ≥ MEMORY_VIRT_LIMIT) := by
    rw [UInt64.lt_iff_toNat_lt, ge_iff_le, UInt64.le_iff_toNat_le]
    omega
  have hal : ¬ ¬ Aligned (virtAddr virtPage) := fun h => h (aligned_virtAddr hlt)
  unfold virtFreePages
  rw [if_neg hzero, if_neg hrange, if_neg hal]
  dsimp only
  rw [virtAddr_index hlt, Nat.min_eq_left (by omega)]

theorem clearRun_spec (virt : Bitmap) (virtPage n q : ℕ) : ((List.range n).foldl (fun b i => b.clear (virtPage + i)) virt).test q =
    if virtPage ≤ q ∧ q < virtPage + n then false else virt.test q := Bitmap.test_clearRun virt virtPage n q

/-- A region that was only reserved. -/
theorem virtFreePages_reserved (hcount : count ≠ 0) (hle : virtPage + count.toNat ≤ MEMORY_VIRT_PAGES)
    (hnone : ∀ i < count.toNat, leaf s.mem.tables (virtAddr (virtPage + i)) = none) :
    virtFreePages (virtAddr virtPage) count s =
      (.ok (), ⟨s.mem, (List.range count.toNat).foldl (fun b i => b.clear (virtPage + i)) s.virt⟩) := by
  have hloop : ∀ l : List ℕ, (∀ i ∈ l, i < count.toNat) →
      l.forM (fun i => unmapVirtPage (virtAddr (virtPage + i))) s.mem = (.ok (), s.mem) := by
    intro l hl
    induction l with
    | nil => rfl
    | cons i l ih =>
      have hpage := unmapVirtPage_none (hnone i (hl i List.mem_cons_self))
      exact (bind_ok hpage).trans (ih fun j hj => hl j (List.mem_cons_of_mem _ hj))
  rw [virtFreePages_region hcount hle]
  exact freeVirtPages_apply (hloop _ fun i hi => List.mem_range.1 hi)

/-- A region whose pages have frames of their own. -/
theorem virtFreePages_mapped (wf : WellFormed s.mem) (hcount : count ≠ 0) (hle : virtPage + count.toNat ≤ MEMORY_VIRT_PAGES)
    {f : ℕ → Frame} (hbacked : ∀ i < count.toNat, Backed s.mem PAGE_FLAG_WRITABLE (virtAddr (virtPage + i)) (f i))
    (hinj : ∀ i < count.toNat, ∀ j < count.toNat, f i = f j → i = j) :
    ∃ m', virtFreePages (virtAddr virtPage) count s = (.ok (), ⟨m', (List.range count.toNat).foldl (fun b i => b.clear (virtPage + i)) s.virt⟩) ∧
      Shrinks ((List.range count.toNat).map fun i => virtAddr (virtPage + i)) ((List.range count.toNat).map fun i => (f i).no) s.mem m' := by
  have hpage : ∀ v ∈ (List.range count.toNat).map (fun i => virtAddr (virtPage + i)), ∃ i < count.toNat, v = virtAddr (virtPage + i) := by
    intro v hv
    obtain ⟨i, hi, rfl⟩ := List.mem_map.1 hv
    exact ⟨i, List.mem_range.1 hi, rfl⟩
  -- the frame of a page is the one that it is mapped to
  have hframe : ∀ i < count.toNat, Frame.of (pagingGetPhys s.mem.tables (virtAddr (virtPage + i))) = f i := by
    intro i hi
    rw [(hbacked i hi).phys (aligned_virtAddr (by omega)), Frame.of_val]
  have hal : ∀ v ∈ (List.range count.toNat).map (fun i => virtAddr (virtPage + i)), Aligned v := by
    intro v hv
    obtain ⟨i, hi, rfl⟩ := hpage v hv
    exact aligned_virtAddr (by omega)
  have hback : ∀ v ∈ (List.range count.toNat).map (fun i => virtAddr (virtPage + i)),
      Backed s.mem PAGE_FLAG_WRITABLE v (Frame.of (pagingGetPhys s.mem.tables v)) := by
    intro v hv
    obtain ⟨i, hi, rfl⟩ := hpage v hv
    rw [hframe i hi]
    exact hbacked i hi
  have hnodup : (((List.range count.toNat).map fun i => virtAddr (virtPage + i)).map fun v =>
      Frame.of (pagingGetPhys s.mem.tables v)).Nodup := by
    rw [List.map_map]
    apply List.Nodup.map_on _ List.nodup_range
    intro i hi j hj heq
    rw [List.mem_range] at hi hj
    rw [Function.comp_apply, Function.comp_apply, hframe i hi, hframe j hj] at heq
    exact hinj i hi j hj heq
  obtain ⟨m', hrun, hs⟩ := forM_drops (fun v m wf hal h => unmapVirtPage_shrinks wf hal h) wf hal hback hnodup
  have hrun' : forM ((List.range count.toNat).map fun i => virtAddr (virtPage + i)) unmapVirtPage s.mem = (.ok (), m') := hrun
  rw [List.forM_map] at hrun'
  have hown : (List.range count.toNat).map (fun i => (f i).no) =
      ((List.range count.toNat).map fun i => virtAddr (virtPage + i)).map fun v => (Frame.of (pagingGetPhys s.mem.tables v)).no := by
    rw [List.map_map]
    apply List.map_congr_left
    intro i hi
    rw [Function.comp_apply, hframe i (List.mem_range.1 hi)]
  refine ⟨m', ?_, ?_⟩
  · rw [virtFreePages_region hcount hle]
    exact freeVirtPages_apply hrun'
  · rw [hown]
    exact hs.toShrinks

end Tg11Kernel.Heap
