import Tg11Kernel.Memory.Contents

/-! Mapping a page is exact and local. The account of `paging_map_page` is carried over to
tables of which nothing is known but that they are a tree of used frames: frame 0 may be
free, and an allocation that finds it free takes it and fails. -/

namespace Tg11Kernel.Memory

open Lib Exec

variable {m m' : Mem}

/-! ### Pages -/

theorem index_val (shift : UInt64) (addr : UInt64) : (index shift addr : ℕ) = (addr >>> shift).toNat % 512 := by
  have hmask : (0x1FF : UInt64).toNat = 2 ^ 9 - 1 := rfl
  unfold index
  dsimp only
  rw [UInt64.toNat_and, hmask, Nat.and_two_pow_sub_one_eq_mod]

theorem index_eq_iff {k : ℕ} {shift : UInt64} (h : shift.toNat % 64 = k) (a b : UInt64) :
    index shift a = index shift b ↔ a.toNat / 2 ^ k % 512 = b.toNat / 2 ^ k % 512 := by
  have hshift (x : UInt64) : (x >>> shift).toNat = x.toNat / 2 ^ k := by
    rw [UInt64.toNat_shiftRight, h, Nat.shiftRight_eq_div_pow]
  rw [Fin.ext_iff, index_val, index_val, hshift, hshift]

theorem path_eq_iff_index (a b : UInt64) : path a = path b ↔ a.toNat / 2 ^ 39 % 512 = b.toNat / 2 ^ 39 % 512 ∧
    a.toNat / 2 ^ 30 % 512 = b.toNat / 2 ^ 30 % 512 ∧ a.toNat / 2 ^ 21 % 512 = b.toNat / 2 ^ 21 % 512 := by
  unfold path
  simp only [List.cons.injEq, and_true]
  rw [index_eq_iff (show (39 : UInt64).toNat % 64 = 39 from rfl), index_eq_iff (show (30 : UInt64).toNat % 64 = 30 from rfl),
    index_eq_iff (show (21 : UInt64).toNat % 64 = 21 from rfl)]

theorem place_eq_iff_index (a b : UInt64) : place a = place b ↔
    a.toNat / 2 ^ 39 % 512 = b.toNat / 2 ^ 39 % 512 ∧ a.toNat / 2 ^ 30 % 512 = b.toNat / 2 ^ 30 % 512 ∧
      a.toNat / 2 ^ 21 % 512 = b.toNat / 2 ^ 21 % 512 ∧ a.toNat / 2 ^ 12 % 512 = b.toNat / 2 ^ 12 % 512 := by
  unfold place
  rw [Prod.mk.injEq, path_eq_iff_index, index_eq_iff (show (12 : UInt64).toNat % 64 = 12 from rfl)]
  tauto

theorem canonical_iff (a : UInt64) : Canonical a ↔ a.toNat < 2 ^ 47 ∨ 2 ^ 64 - 2 ^ 47 ≤ a.toNat := by
  unfold Canonical
  rw [UInt64.lt_iff_toNat_lt, ge_iff_le, UInt64.le_iff_toNat_le]
  rfl

theorem place_of_page {a b : UInt64} (h : a.toNat / 4096 = b.toNat / 4096) : place a = place b := by
  rw [place_eq_iff_index]
  omega

/-- Addresses that the processor accepts have one place only if they are in one page. -/
theorem place_eq_iff {a b : UInt64} (ha : Canonical a) (hb : Canonical b) :
    place a = place b ↔ a.toNat / 4096 = b.toNat / 4096 := by
  refine ⟨fun h => ?_, place_of_page⟩
  rw [canonical_iff] at ha hb
  rw [place_eq_iff_index] at h
  have hlta := a.toNat_lt
  have hltb := b.toNat_lt
  omega

theorem offset_toNat {v o : UInt64} (hal : Aligned v) (ho : o < 4096) : (v + o).toNat = v.toNat + o.toNat := by
  rw [aligned_iff] at hal
  rw [UInt64.lt_iff_toNat_lt] at ho
  have hlt := v.toNat_lt
  have h4096 : (4096 : UInt64).toNat = 4096 := rfl
  rw [UInt64.toNat_add, Nat.mod_eq_of_lt]
  omega

theorem place_offset {v o : UInt64} (hal : Aligned v) (ho : o < 4096) : place (v + o) = place v := by
  apply place_of_page
  rw [offset_toNat hal ho]
  rw [aligned_iff] at hal
  rw [UInt64.lt_iff_toNat_lt] at ho
  have h4096 : (4096 : UInt64).toNat = 4096 := rfl
  omega

/-- A physical address that an entry can hold. -/
theorem addrMask_of_lt {phys : UInt64} (hal : Aligned phys) (h : phys < 0x10000000000000) : phys &&& PAGE_ADDR_MASK = phys := by
  rw [aligned_iff] at hal
  rw [UInt64.lt_iff_toNat_lt] at h
  have hbound : (0x10000000000000 : UInt64).toNat = 2 ^ 52 := rfl
  apply UInt64.toNat_inj.1
  rw [addrMask_toNat]
  omega

theorem or_offset {F : Frame} {o : UInt64} (ho : o < 4096) : F.1 ||| o = F.1 + o := by
  have hno := F.toNat_no
  have hlt := F.no_lt
  rw [UInt64.lt_iff_toNat_lt] at ho
  have h4096 : (4096 : UInt64).toNat = 2 ^ 12 := rfl
  rw [h4096] at ho
  apply UInt64.toNat_inj.1
  rw [UInt64.toNat_or, UInt64.toNat_add, hno, Nat.mod_eq_of_lt (by omega), show F.no * 4096 = F.no <<< 12 by
    rw [Nat.shiftLeft_eq], Nat.shiftLeft_add_eq_or_of_lt ho]

theorem and_offset {v o : UInt64} (hal : Aligned v) (ho : o < 4096) : (v + o) &&& (MEMORY_PAGE_SIZE - 1) = o := by
  have hmask : (MEMORY_PAGE_SIZE - 1).toNat = 2 ^ 12 - 1 := rfl
  apply UInt64.toNat_inj.1
  rw [UInt64.toNat_and, hmask, Nat.and_two_pow_sub_one_eq_mod, offset_toNat hal ho]
  rw [aligned_iff] at hal
  rw [UInt64.lt_iff_toNat_lt] at ho
  have h4096 : (4096 : UInt64).toNat = 4096 := rfl
  omega

/-- A small leaf takes an offset in the page to the same offset in the frame. -/
theorem phys_pageEntry {v o phys flags : UInt64} (hv : Aligned v) (hp : Aligned phys) (h52 : phys < 0x10000000000000) (ho : o < 4096) :
    Leaf.phys (v + o) (.small (pageEntry phys flags)) = phys + o := by
  have hmasked := addrMask_of_lt hp h52
  unfold Leaf.phys
  dsimp only
  rw [pageEntry_phys, and_offset hv ho, hmasked]
  exact or_offset (F := ⟨phys, hmasked⟩) ho

/-! ### Trees -/

/-- The tables are a tree of frames that are marked used, of which none is shared, and no
entry maps a gigabyte. -/
structure IsTree (m : Mem) : Prop where
  unshared : Radix.Unshared next m.tables.get m.tables.root 3
  used : ∀ F, m.tables.Table F → F.no < MEMORY_MAX_PAGES ∧ m.used F.no = true
  noGigabyte : ∀ p F i, p.length ≤ 1 → m.tables.walk p = some F → has (m.tables.get F i) PAGE_FLAG_PRESENT = true →
    has (m.tables.get F i) PAGE_FLAG_HUGE = false

/-- The same memory with frame 0 marked used. -/
def Mem.holdZero (m : Mem) : Mem := { m with used := fun n => if n = 0 then true else m.used n }

@[simp] theorem holdZero_tables (m : Mem) : m.holdZero.tables = m.tables := rfl

theorem holdZero_eq (h : m.used 0 = true) : m.holdZero = m := by
  have hused : (fun n => if n = 0 then true else m.used n) = m.used := by
    funext n
    split_ifs with hn
    · rw [hn, h]
    · rfl
  unfold Mem.holdZero
  rw [hused]

theorem WellFormed.isTree (h : WellFormed m) : IsTree m := ⟨h.unshared, h.used, h.noGigabyte⟩

theorem IsTree.holdZero (h : IsTree m) : WellFormed m.holdZero where
  unshared := h.unshared
  used F hF := by
    refine ⟨(h.used F hF).1, ?_⟩
    unfold Mem.holdZero
    dsimp only
    rw [(h.used F hF).2, ite_self]
  noGigabyte := h.noGigabyte
  zero := rfl

/-- More frames are marked used. -/
theorem IsTree.of_tables (h : IsTree m) (htables : m'.tables = m.tables) (hused : ∀ n, m.used n = true → m'.used n = true) :
    IsTree m' where
  unshared := by
    rw [htables]
    exact h.unshared
  used F hF := by
    rw [htables] at hF
    exact ⟨(h.used F hF).1, hused _ (h.used F hF).2⟩
  noGigabyte := by
    rw [htables]
    exact h.noGigabyte

/-- Frame 0 does not become a table while it is held. -/
theorem Grows.isTree {own : List ℕ} (hg : Grows own m.holdZero m'.holdZero) (h : IsTree m) (hkeep : m.used 0 = true → m'.used 0 = true) :
    IsTree m' where
  unshared := hg.wf.unshared
  used F hF := by
    obtain ⟨hlt, hused⟩ := hg.wf.used F hF
    refine ⟨hlt, ?_⟩
    by_cases hzero : F.no = 0
    · rw [hzero]
      apply hkeep
      by_contra hfree
      have hdata : Data m.holdZero F := by
        constructor
        · rw [hzero]
          rfl
        · intro hF'
          have hused' := (h.used F hF').2
          rw [hzero] at hused'
          exact hfree hused'
      exact (hg.data F hdata).1 hF
    · unfold Mem.holdZero at hused
      dsimp only at hused
      rwa [if_neg hzero] at hused
  noGigabyte := hg.wf.noGigabyte

/-! ### Frame 0 is free -/

theorem physAllocPage_zeroFree (h : m.used 0 = false) :
    physAllocPage m = (.ok 0, { m.holdZero with freePageCount := m.freePageCount - 1 }) := by
  have hrun : findRun m.used 1 MEMORY_MAX_PAGES 0 0 0 = some 0 := by
    show findRun m.used 1 ((2 ^ 20 - 1) + 1) 0 0 0 = some 0
    unfold findRun
    rw [if_neg (by simp [h])]
    rfl
  have hused : (fun page => if 0 ≤ page ∧ page < 0 + 1 then true else m.used page) = m.holdZero.used := by
    funext page
    unfold Mem.holdZero
    dsimp only
    by_cases hp : page = 0
    · rw [if_pos hp, if_pos (by omega)]
    · rw [if_neg hp, if_neg (by omega)]
  unfold physAllocPage physAllocPages
  rw [if_neg (by decide), hrun]
  dsimp only
  rw [hused]
  rfl

theorem allocPageTable_zeroFree (h : m.used 0 = false) :
    allocPageTable m = (.fail, { m.holdZero with freePageCount := m.freePageCount - 1 }) := by
  unfold allocPageTable
  rw [bind_ok (physAllocPage_zeroFree h), require_neg (by decide)]
  rfl

theorem ensureNextTable_present {slot : UInt64} (hpresent : has (m.tables.entry slot) PAGE_FLAG_PRESENT = true)
    (hhuge : has (m.tables.entry slot) PAGE_FLAG_HUGE = false) :
    ensureNextTable slot m = (.ok (m.tables.entry slot &&& PAGE_ADDR_MASK), m) := by
  unfold ensureNextTable
  rw [bind_ok (gets_apply _ _), if_pos hpresent, require_pos hhuge]
  rfl

theorem ensureNextTable_huge {slot : UInt64} (hpresent : has (m.tables.entry slot) PAGE_FLAG_PRESENT = true)
    (hhuge : ¬ has (m.tables.entry slot) PAGE_FLAG_HUGE = false) : ensureNextTable slot m = (.fail, m) := by
  unfold ensureNextTable
  rw [bind_ok (gets_apply _ _), if_pos hpresent, require_neg hhuge]
  rfl

theorem ensureNextTable_zeroFree {slot : UInt64} (h : m.used 0 = false)
    (hpresent : ¬ has (m.tables.entry slot) PAGE_FLAG_PRESENT = true) :
    ensureNextTable slot m = (.fail, { m.holdZero with freePageCount := m.freePageCount - 1 }) := by
  unfold ensureNextTable
  rw [bind_ok (gets_apply _ _), if_neg hpresent, bind_fail (allocPageTable_zeroFree h)]

/-- A level of the walk either needs no table, or fails and leaves the tables. -/
theorem descend_zeroFree (h : m.used 0 = false) (flags table i : UInt64) : Post (descend flags table i) m
      (fun t m' => m'.used 0 = false ∧ descend flags table i m.holdZero = (.ok t, m'.holdZero))
      (fun m' => m'.tables = m.tables ∧ ∀ n, m.used n = true → m'.used n = true) := by
  unfold descend
  dsimp only
  by_cases hpresent : has (m.tables.entry (table + 8 * i)) PAGE_FLAG_PRESENT = true
  · by_cases hhuge : has (m.tables.entry (table + 8 * i)) PAGE_FLAG_HUGE = false
    · have hnext := ensureNextTable_present hpresent hhuge
      have hheld := ensureNextTable_present (m := m.holdZero) hpresent hhuge
      constructor
      · intro t m' hrun
        rw [bind_ok hnext] at hrun
        cases hrun
        refine ⟨h, ?_⟩
        rw [bind_ok hheld]
        rfl
      · intro m' hrun
        rw [bind_ok hnext] at hrun
        cases hrun
    · have hnext := ensureNextTable_huge hpresent hhuge
      constructor
      · intro t m' hrun
        rw [bind_fail hnext] at hrun
        cases hrun
      · intro m' hrun
        rw [bind_fail hnext] at hrun
        cases hrun
        exact ⟨rfl, fun _ hn => hn⟩
  · have hnext := ensureNextTable_zeroFree h hpresent
    constructor
    · intro t m' hrun
      rw [bind_fail hnext] at hrun
      cases hrun
    · intro m' hrun
      rw [bind_fail hnext] at hrun
      cases hrun
      refine ⟨rfl, fun n hn => ?_⟩
      unfold Mem.holdZero
      dsimp only
      rw [hn, ite_self]

/-- A memory on the way down that took no frame. -/
structure Untaken (m m' : Mem) : Prop where
  free : m'.used 0 = false
  grows : Grows [] m.holdZero m'.holdZero
  leaves : SameLeaves m m'

theorem Untaken.isTree (hs : Untaken m m') (h : IsTree m) (hfree : m.used 0 = false) : IsTree m' := hs.grows.isTree h (by rw [hfree]; exact nofun)

theorem descend_untaken (h : IsTree m) (hfree : m.used 0 = false) (hs : Untaken m m') {p : List Index} {F : Frame}
    (flags i : UInt64) (j : Index) (hp : p.length ≤ 2) (hw : m'.tables.walk p = some F) (hslot : F.1 + 8 * i = slot F j) :
    Post (descend flags F.1 i) m'
      (fun table m'' => ∃ G : Frame, G.1 = table ∧ Untaken m m'' ∧ m''.tables.walk (p ++ [j]) = some G)
      (fun m'' => IsTree m'' ∧ SameLeaves m m'') := by
  apply (descend_zeroFree hs.free flags F.1 i).mono
  · rintro table m'' ⟨hfree', hrun⟩
    obtain ⟨G, hG, hdesc⟩ := (descend_post (m := m'.holdZero) hs.grows.wf flags i j hp hw hslot).ok _ _ hrun
    have hgrows : Grows [] m.holdZero m''.holdZero := hs.grows.trans hdesc.grows
    exact ⟨G, hG, ⟨hfree', hgrows, hs.leaves.trans hdesc.leaves⟩, hdesc.walk⟩
  · rintro m'' ⟨htables, hused⟩
    refine ⟨(hs.isTree h hfree).of_tables htables hused, fun a => ?_⟩
    rw [htables]
    exact hs.leaves a

/-- A page is mapped though frame 0 is free, if no table is missing on the way. -/
theorem pagingMapPage_zeroFree (h : IsTree m) (hfree : m.used 0 = false) (virtAddr physAddr flags : UInt64) :
    Post (pagingMapPage virtAddr physAddr flags) m
      (fun _ m' => IsTree m' ∧ leaf m.tables virtAddr = none ∧
        SetsLeaf virtAddr (some (.small (pageEntry physAddr flags))) m.holdZero m'.holdZero)
      (fun m' => IsTree m' ∧ SameLeaves m m') := by
  have hstart : Untaken m m := ⟨hfree, Grows.refl h.holdZero, fun _ => rfl⟩
  unfold pagingMapPage
  refine Post.require_bind (fun _ => ?_) fun _ => ⟨h, fun _ => rfl⟩
  apply Post.gets_bind
  apply (descend_untaken h hfree hstart (p := []) flags (pml4Index virtAddr) (index 39 virtAddr) (Nat.zero_le 2) (walk_nil m.tables)
    (root_slot _ _)).bind (fun _ hf => hf)
  rintro pdpt m₁ ⟨F₁, rfl, h₁, hw₁⟩
  rw [List.nil_append] at hw₁
  apply (descend_untaken h hfree h₁ flags (pdptIndex virtAddr) (index 30 virtAddr) (by simp) hw₁
    (slot_index _ _ _).symm).bind (fun _ hf => hf)
  rintro pd m₂ ⟨F₂, rfl, h₂, hw₂⟩
  apply (descend_untaken h hfree h₂ flags (pdIndex virtAddr) (index 21 virtAddr) (by simp) hw₂
    (slot_index _ _ _).symm).bind (fun _ hf => hf)
  rintro pt m₃ ⟨F₃, rfl, h₃, hw₃⟩
  have hwalk : m₃.holdZero.tables.walk (path virtAddr) = some F₃ := hw₃
  have hslot : F₃.1 + 8 * ptIndex virtAddr = slot F₃ (index 12 virtAddr) := (slot_index _ _ _).symm
  dsimp only
  rw [hslot]
  apply Post.gets_bind
  apply Post.require_bind
  · intro habsent
    apply Post.modify
    have hsets := setsLeaf_setEntry h₃.grows.wf (pageEntry physAddr flags) hwalk
    rw [if_neg (by simp [has_pageEntry])] at hsets
    have hgrows : Grows [] m.holdZero (m₃.setEntry (slot F₃ (index 12 virtAddr)) (pageEntry physAddr flags)).holdZero :=
      h₃.grows.trans hsets.grows
    refine ⟨hgrows.isTree h (by rw [hfree]; exact nofun), ?_, hgrows, (h₃.leaves.but virtAddr).trans hsets.others, hsets.leaf⟩
    rw [← h₃.leaves virtAddr]
    exact (leaf_of_walk h₃.grows.wf hwalk).trans (if_pos habsent)
  · exact fun _ => ⟨h₃.isTree h hfree, h₃.leaves⟩

/-- Mapping a page in any tree. -/
theorem pagingMapPage_isTree (h : IsTree m) (virtAddr physAddr flags : UInt64) :
    Post (pagingMapPage virtAddr physAddr flags) m
      (fun _ m' => IsTree m' ∧ leaf m.tables virtAddr = none ∧
        SetsLeaf virtAddr (some (.small (pageEntry physAddr flags))) m.holdZero m'.holdZero)
      (fun m' => IsTree m' ∧ SameLeaves m m') := by
  cases hzero : m.used 0 with
  | false => exact pagingMapPage_zeroFree h hzero virtAddr physAddr flags
  | true =>
    have wf : WellFormed m := by
      rw [← holdZero_eq hzero]
      exact h.holdZero
    apply (pagingMapPage_post wf virtAddr physAddr flags).mono
    · rintro _ m' ⟨hnone, hsets⟩
      rw [holdZero_eq hzero, holdZero_eq (hsets.grows.used 0 hzero)]
      exact ⟨hsets.grows.wf.isTree, hnone, hsets⟩
    · rintro m' ⟨hgrows, hleaves⟩
      exact ⟨hgrows.wf.isTree, hleaves⟩

/-- Whatever the program does, it comes back. -/
abbrev Returns {α : Type} (p : Exec Mem α) : Prop := ∀ m, Exec.Ends p m (fun _ _ => True) fun _ => True

theorem physAllocPage_returns : Returns physAllocPage := by
  intro m
  have hcases : ∃ phys m', physAllocPage m = (.ok phys, m') := by
    unfold physAllocPage physAllocPages
    rw [if_neg (by decide)]
    rcases findRun m.used 1 MEMORY_MAX_PAGES 0 0 0 with _ | start
    · exact ⟨_, _, rfl⟩
    · exact ⟨_, _, rfl⟩
  obtain ⟨phys, m', hrun⟩ := hcases
  exact .inl ⟨phys, m', hrun, trivial⟩

/-- A frame is taken, or there is none. -/
theorem physAllocPage_ends (wf : WellFormed m) (E : Mem → Prop) : Ends physAllocPage m
    (fun phys m' => phys = 0 ∧ m' = m ∨ ∃ F : Frame, F.1 = phys ∧ Taken m m' F) E :=
  (Ends.of_post (physAllocPage_returns m) (physAllocPage_post wf)).mono (fun _ _ h => h) fun _ h => h.elim

theorem ensureNextTable_returns (slot : UInt64) : Returns (ensureNextTable slot) := by
  intro m
  apply Ends.gets_bind
  split_ifs
  · exact Ends.require_bind (fun _ => Ends.pure trivial) fun _ => trivial
  · have htable : Ends allocPageTable m (fun _ _ => True) fun _ => True := by
      apply (physAllocPage_returns m).bind
      intro phys m₁ _
      refine Ends.require_bind (fun _ => ?_) fun _ => trivial
      apply (Ends.modify (Q := fun _ _ => True) trivial).bind
      intro _ m₂ _
      exact Ends.pure trivial
    apply htable.bind
    intro table m₁ _
    apply (Ends.modify (Q := fun _ _ => True) trivial).bind
    intro _ m₂ _
    exact Ends.pure trivial

theorem descend_returns (flags table i : UInt64) : Returns (descend flags table i) := by
  intro m
  apply (ensureNextTable_returns _ m).bind
  intro next m₁ _
  apply (Ends.modify (Q := fun _ _ => True) trivial).bind
  intro _ m₂ _
  exact Ends.pure trivial

theorem pagingMapPage_returns (virtAddr physAddr flags : UInt64) : Returns (pagingMapPage virtAddr physAddr flags) := by
  intro m
  refine Ends.require_bind (fun _ => ?_) fun _ => trivial
  apply Ends.gets_bind
  apply (descend_returns _ _ _ _).bind
  intro pdpt m₁ _
  apply (descend_returns _ _ _ _).bind
  intro pd m₂ _
  apply (descend_returns _ _ _ _).bind
  intro pt m₃ _
  apply Ends.gets_bind
  refine Ends.require_bind (fun _ => ?_) fun _ => trivial
  exact Ends.modify trivial

/-! ### Exactness -/

/-- Every address that the processor accepts is translated as before outside the page of `v`,
by a leaf with the same flags. -/
structure SameElsewhere (v : UInt64) (m m' : Mem) : Prop where
  leaf : ∀ a, Canonical a → a.toNat / 4096 ≠ v.toNat / 4096 → leaf m'.tables a = leaf m.tables a
  phys : ∀ a, Canonical a → a.toNat / 4096 ≠ v.toNat / 4096 → pagingGetPhys m'.tables a = pagingGetPhys m.tables a

/-- The page of `v` is mapped to the frame of `phys`, and unmapping takes only this back. -/
structure Mapped (v phys : UInt64) (m m' : Mem) : Prop where
  before : leaf m.tables v = none
  page : ∀ o < 4096, pagingGetPhys m'.tables (v + o) = phys + o
  elsewhere : SameElsewhere v m m'
  tree : IsTree m'
  unmapped : ∀ o < 4096, leaf (m'.unmapPage v).tables (v + o) = none
  unmappedElsewhere : SameElsewhere v m (m'.unmapPage v)
  unmappedTree : IsTree (m'.unmapPage v)

/-- What a call of `paging_map_page` does. -/
def MapsExactly (v phys : UInt64) (m : Mem) (r : Outcome Unit × Mem) : Prop :=
  (r.1 = .ok () ∧ Mapped v phys m r.2) ∨
    (r.1 = .fail ∧ IsTree r.2 ∧ ∀ a, leaf r.2.tables a = leaf m.tables a ∧ pagingGetPhys r.2.tables a = pagingGetPhys m.tables a)

theorem holdZero_unmapPage (m : Mem) (v : UInt64) : (m.unmapPage v).holdZero = m.holdZero.unmapPage v := by
  unfold Mem.unmapPage
  by_cases hmapped : Aligned v ∧ m.tables.Mapped v
  · have hheld : Aligned v ∧ m.holdZero.tables.Mapped v := hmapped
    rw [if_pos hmapped, if_pos hheld]
    rfl
  · have hheld : ¬ (Aligned v ∧ m.holdZero.tables.Mapped v) := hmapped
    rw [if_neg hmapped, if_neg hheld]

theorem unmapPage_used (m : Mem) (v : UInt64) : (m.unmapPage v).used = m.used := by
  unfold Mem.unmapPage
  split_ifs <;> rfl

theorem sameElsewhere_of_leaf {v : UInt64} (hv : Canonical v) (h : SameLeavesBut v m m') : SameElsewhere v m m' := by
  have hleaf : ∀ a, Canonical a → a.toNat / 4096 ≠ v.toNat / 4096 → leaf m'.tables a = leaf m.tables a := by
    intro a ha hne
    exact h a fun hplace => hne ((place_eq_iff ha hv).1 hplace)
  refine ⟨hleaf, fun a ha hne => ?_⟩
  rw [pagingGetPhys_eq, pagingGetPhys_eq, hleaf a ha hne]

/-- For every tree of tables that the allocator knows of: a page is mapped exactly, alone and
so that unmapping undoes it, or nothing is translated differently. -/
theorem pagingMapPage_exact (h : IsTree m) {v phys : UInt64} (flags : UInt64) (hv : Canonical v) (hal : Aligned v)
    (hp : Aligned phys) (h52 : phys < 0x10000000000000) : MapsExactly v phys m (pagingMapPage v phys flags m) := by
  have hpost := pagingMapPage_isTree h v phys flags
  obtain ⟨_, m', hrun, -⟩ | ⟨m', hrun, -⟩ := pagingMapPage_returns v phys flags m
  · obtain ⟨htree, hnone, hsets⟩ := hpost.ok _ _ hrun
    rw [hrun]
    refine .inl ⟨rfl, ?_⟩
    have hleaf : ∀ a, place a = place v → leaf m'.tables a = some (.small (pageEntry phys flags)) := hsets.leaf
    have hunmap := unmapPage_sets (m := m'.holdZero) hsets.grows.wf hal (hleaf v rfl)
    have hheld : (m'.unmapPage v).tables = (m'.holdZero.unmapPage v).tables := by
      rw [← holdZero_unmapPage]
      rfl
    constructor
    case before => exact hnone
    case page =>
      intro o ho
      rw [pagingGetPhys_eq, hleaf _ (place_offset hal ho), Option.map_some, Option.getD_some, phys_pageEntry hal hp h52 ho]
    case elsewhere => exact sameElsewhere_of_leaf hv hsets.others
    case tree => exact htree
    case unmapped =>
      intro o ho
      rw [hheld]
      exact hunmap.leaf _ (place_offset hal ho)
    case unmappedElsewhere =>
      apply sameElsewhere_of_leaf hv
      intro a ha
      rw [hheld]
      exact (hunmap.others a ha).trans (hsets.others a ha)
    case unmappedTree =>
      have hgrows : Grows [] m'.holdZero (m'.unmapPage v).holdZero := by
        rw [holdZero_unmapPage]
        exact hunmap.grows
      apply hgrows.isTree htree
      rw [unmapPage_used]
      exact id
  · obtain ⟨htree, hleaves⟩ := hpost.fail _ hrun
    rw [hrun]
    refine .inr ⟨rfl, htree, fun a => ⟨hleaves a, ?_⟩⟩
    rw [pagingGetPhys_eq, pagingGetPhys_eq, hleaves a]

/-! ### An empty root -/

/-- Nothing is mapped, the root is frame 1 and the frames below 4 are used. -/
def bare : Mem := ⟨⟨0x1000, fun _ => 0⟩, fun n => n < 4, 0⟩

theorem walk_bare {p : List Index} {F : Frame} (h : bare.tables.walk p = some F) : p = [] ∧ F = Frame.of 0x1000 := by
  cases p with
  | nil => exact ⟨rfl, (Option.some.inj h).symm⟩
  | cons i p =>
    have hnone : bare.tables.walk (i :: p) = none := by
      have hnext : next (bare.tables.get bare.tables.root i) = none := next_eq_none.2 fun h => absurd (show has 0 PAGE_FLAG_PRESENT = true from h) (by decide)
      unfold PageTables.walk
      rw [Radix.walk_cons, hnext]
      rfl
    rw [hnone] at h
    cases h

theorem wellFormed_bare : WellFormed bare where
  unshared p q F _ _ hp hq := by rw [(walk_bare hp).1, (walk_bare hq).1]
  used F hF := by
    obtain ⟨p, -, hw⟩ := hF
    rw [(walk_bare hw).2]
    decide
  noGigabyte p F i _ _ h := absurd (show has 0 PAGE_FLAG_PRESENT = true from h) (by decide)
  zero := rfl

theorem leaf_bare (a : UInt64) : leaf bare.tables a = none := by
  have hentry : has (bare.tables.pml4e a) PAGE_FLAG_PRESENT = false := show has 0 PAGE_FLAG_PRESENT = false by decide
  unfold leaf
  rw [if_pos hentry]

/-- A page in the empty tree. -/
theorem pagingMapPage_exact_bare :
    MapsExactly 0xFFFF900000000000 0x5000 bare (pagingMapPage 0xFFFF900000000000 0x5000 PAGE_FLAG_WRITABLE bare) :=
  pagingMapPage_exact wellFormed_bare.isTree PAGE_FLAG_WRITABLE (by decide) (by decide) (by decide)
    (by decide)

end Tg11Kernel.Memory
