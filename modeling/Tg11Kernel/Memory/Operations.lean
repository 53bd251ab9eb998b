import Tg11Kernel.Memory.Growth

/-! One account for each operation: of the allocator, of a level of the walk, of mapping, of
flags, of unmapping and of the split of a large page. -/

namespace Tg11Kernel.Memory

open Lib Exec

variable {m : Mem}

/-! ### Frames -/

variable {n : ℕ} {m' : Mem} {F G : Frame} {p : List Index} {i : Index} {e addr a virtAddr pde page : UInt64}

theorem frame_masked (h : n < MEMORY_MAX_PAGES) :
    UInt64.ofNat n * MEMORY_PAGE_SIZE &&& PAGE_ADDR_MASK = UInt64.ofNat n * MEMORY_PAGE_SIZE := by
  have hnat := frame_toNat h
  unfold MEMORY_MAX_PAGES at h
  apply UInt64.toNat_inj.1
  rw [addrMask_toNat, hnat]
  omega

/-- A frame was free and is now marked used; the memory is as it was. -/
structure Taken (m m' : Mem) (F : Frame) : Prop where
  free : m.used F.no = false
  small : F.no < MEMORY_MAX_PAGES
  nonzero : F.1 ≠ 0
  tables : m'.tables = m.tables
  used : ∀ n, m'.used n = if n = F.no then true else m.used n

theorem Taken.notTable {m : Mem} (h : Taken m m' F) (wf : WellFormed m) : ¬ m.tables.Table F := by
  intro hF
  have hused := (wf.used F hF).2
  rw [h.free] at hused
  cases hused

theorem Taken.used_of_used {m : Mem} (h : Taken m m' F) (hn : m.used n = true) : m'.used n = true := by
  rw [h.used]
  split_ifs
  · rfl
  · exact hn

theorem Taken.used_self {m : Mem} (h : Taken m m' F) : m'.used F.no = true := by
  rw [h.used, if_pos rfl]

theorem Taken.grows {m : Mem} (h : Taken m m' F) (wf : WellFormed m) : Grows [F.no] m m' where
  wf := by
    have hsame : SameTree m.tables m'.tables := by
      rw [h.tables]
      exact SameTree.of_eq rfl fun _ _ _ => rfl
    exact hsame.wellFormed wf (fun G hG => h.used_of_used (wf.used G hG).2) (h.used_of_used wf.zero)
  used _ hn := h.used_of_used hn
  tables G hG := by rwa [h.tables]
  fresh n hn := by
    rw [h.used] at hn
    split_ifs at hn with hnF
    · exact .inr (.inr (List.mem_singleton.2 hnF))
    · exact .inl hn
  data G hG := by
    rw [h.tables]
    exact ⟨hG.2, fun _ => rfl⟩

theorem physAllocPage_post (wf : WellFormed m) :
    Post physAllocPage m (fun phys m' => phys = 0 ∧ m' = m ∨ ∃ F : Frame, F.1 = phys ∧ Taken m m' F) fun _ => False := by
  rcases physAllocPage_cases wf.zero with h | ⟨n, hn, hlt, hfree, h⟩
  · refine ⟨fun a s' heq => ?_, fun s' heq => ?_⟩ <;> rw [h] at heq <;> cases heq
    exact .inl ⟨rfl, rfl⟩
  · refine ⟨fun a s' heq => ?_, fun s' heq => ?_⟩ <;> rw [h] at heq <;> cases heq
    have hno : Frame.no ⟨UInt64.ofNat n * MEMORY_PAGE_SIZE, frame_masked hlt⟩ = n := frameNo_ofNat hlt
    refine .inr ⟨⟨_, frame_masked hlt⟩, rfl, ?_, ?_, ?_, rfl, ?_⟩
    · rwa [hno]
    · rwa [hno]
    · intro hzero
      have hnat : 0 = n * 4096 := (congrArg UInt64.toNat hzero).symm.trans (frame_toNat hlt)
      omega
    · intro k
      rw [hno]

/-- A frame was taken, and emptied. -/
structure Emptied (m m' : Mem) (F : Frame) : Prop where
  taken : Taken m { m' with tables := m.tables } F
  root : m'.tables.root = m.tables.root
  zero : ∀ i, m'.tables.get F i = 0
  frame : ∀ G i, G ≠ F → m'.tables.get G i = m.tables.get G i

theorem allocPageTable_post (wf : WellFormed m) :
    Post allocPageTable m (fun table m' => ∃ F : Frame, F.1 = table ∧ Emptied m m' F) (· = m) := by
  unfold allocPageTable
  apply (physAllocPage_post wf).bind (fun _ h => h.elim)
  rintro phys m₁ (⟨rfl, rfl⟩ | ⟨F, rfl, h⟩)
  · apply Post.require_bind
    · exact fun h => absurd rfl h
    · exact fun _ => rfl
  · apply Post.require_bind
    · intro _
      apply Post.modify_bind
      apply Post.pure
      refine ⟨F, rfl, ?_, ?_, get_zero m₁ F, ?_⟩
      · exact ⟨h.free, h.small, h.nonzero, rfl, h.used⟩
      · unfold Mem.storeBytes PageTables.storeBytes PageTables.root
        rw [h.tables]
      · intro G i hG
        rw [get_storeBytes_ne m₁ hG, h.tables]
    · exact fun hzero => absurd (not_not.1 hzero) h.nonzero

/-! ### One level -/

/-- An entry that points at a table. -/
def tableEntry (table : UInt64) : UInt64 := (table &&& PAGE_ADDR_MASK) ||| PAGE_FLAG_PRESENT ||| PAGE_FLAG_WRITABLE

theorem Frame.of_val (F : Frame) : Frame.of F.1 = F := Frame.of_eq F.2

theorem next_tableEntry (F : Frame) : next (tableEntry F.1) = some F := by
  unfold tableEntry
  apply next_eq_some.2
  refine ⟨⟨?_, ?_⟩, ?_⟩
  · rw [has_or, has_or]
    simp [show has PAGE_FLAG_PRESENT PAGE_FLAG_PRESENT = true from rfl]
  · rw [has_or, has_or, has_and_of_zero (by decide)]
    rfl
  · apply Subtype.ext
    unfold Frame.of
    dsimp only
    have h1 : PAGE_FLAG_PRESENT &&& PAGE_ADDR_MASK = 0 := by decide
    have h2 : PAGE_FLAG_WRITABLE &&& PAGE_ADDR_MASK = 0 := by decide
    rw [and_or, and_or, h1, h2, F.2, F.2, UInt64.or_zero, UInt64.or_zero]

theorem Frame.ne_of_emptied (h : Emptied m m' F) (wf : WellFormed m) (hG : m.tables.Table G) : G ≠ F := by
  rintro rfl
  exact h.taken.notTable wf hG

/-- An emptied frame, linked in at an entry that is not present. -/
theorem Emptied.links (h : Emptied m m' G) (wf : WellFormed m)
    (hp : p.length ≤ 2) (hw : m.tables.walk p = some F) (habsent : next (m.tables.get F i) = none) :
    LinksTable m.tables (m'.setEntry (slot F i) (tableEntry G.1)).tables p i F G where
  root := h.root
  depth := hp
  table := hw
  empty := habsent
  link := by
    rw [get_setEntry, if_pos ⟨rfl, rfl⟩]
    exact next_tableEntry G
  unused := h.taken.notTable wf
  frame u j hu hne := by
    have hneG := Frame.ne_of_emptied h wf hu
    rw [get_setEntry, if_neg fun hsame => ?_, h.frame u j hneG]
    rcases hne with hne | hne
    · exact hne hsame.1
    · exact hne hsame.2
  blank _ j := by
    have hF := Frame.ne_of_emptied h wf (table_of_walk (hp.trans (Nat.le_succ 2)) hw)
    rw [get_setEntry, if_neg fun hsame => hF hsame.1.symm, h.zero]

/-- The memory after a fresh table is linked in. -/
theorem LinksTable.grows (h : LinksTable m.tables m'.tables p i F G)
    (wf : WellFormed m) (hsmall : G.no < MEMORY_MAX_PAGES) (hfree : m.used G.no = false)
    (hused : ∀ n, m'.used n = if n = G.no then true else m.used n)
    (hframe : ∀ u j, u ≠ F → u ≠ G → m'.tables.get u j = m.tables.get u j) : Grows [] m m' where
  wf := by
    apply h.wellFormed wf
    · intro u hu
      rw [hused]
      split_ifs
      · rfl
      · exact (wf.used u hu).2
    · exact ⟨hsmall, by rw [hused, if_pos rfl]⟩
    · rw [hused]
      split_ifs
      · rfl
      · exact wf.zero
  used n hn := by
    rw [hused]
    split_ifs
    · rfl
    · exact hn
  tables u hu := (h.table_iff wf.unshared u).2 (.inr hu)
  fresh n hn := by
    rw [hused] at hn
    split_ifs at hn with hnG
    · exact .inr (.inl ⟨G, (h.table_iff wf.unshared G).2 (.inl rfl), hnG.symm⟩)
    · exact .inl hn
  data u hu := by
    have huG : u ≠ G := by
      rintro rfl
      have hu1 := hu.1
      rw [hfree] at hu1
      cases hu1
    have huF : u ≠ F := by
      rintro rfl
      exact hu.2 (table_of_walk (h.depth.trans (Nat.le_succ 2)) h.table)
    refine ⟨fun hu' => ?_, fun j => hframe u j huF huG⟩
    rcases (h.table_iff wf.unshared u).1 hu' with heq | hu'
    · exact huG heq
    · exact hu.2 hu'

/-- One step down the tree: nothing but tables and pointers changed, and the next table is
where the path leads. -/
structure Descends (m m' : Mem) (p : List Index) (G : Frame) : Prop where
  grows : Grows [] m m'
  leaves : SameLeaves m m'
  walk : m'.tables.walk p = some G

theorem Emptied.grows_links (h : Emptied m m' G) (wf : WellFormed m)
    (hp : p.length ≤ 2) (hw : m.tables.walk p = some F) (habsent : next (m.tables.get F i) = none) :
    Grows [] m (m'.setEntry (slot F i) (tableEntry G.1)) := by
  apply (h.links wf hp hw habsent).grows wf h.taken.small h.taken.free
  · exact h.taken.used
  · intro u j huF huG
    rw [get_setEntry, if_neg fun hsame => huF hsame.1, h.frame u j huG]

theorem ensureNextTable_post (wf : WellFormed m) (i : Index) (hp : p.length ≤ 2)
    (hw : m.tables.walk p = some F) :
    Post (ensureNextTable (slot F i)) m (fun table m' => ∃ G : Frame, G.1 = table ∧ Descends m m' (p ++ [i]) G ∧
      m'.tables.walk p = some F ∧ next (m'.tables.get F i) = some G) (· = m) := by
  unfold ensureNextTable
  apply Post.gets_bind
  have hget : m.tables.entry (slot F i) = m.tables.get F i := rfl
  rw [hget]
  by_cases hpresent : has (m.tables.get F i) PAGE_FLAG_PRESENT = true
  · rw [if_pos hpresent]
    apply Post.require_bind
    · intro hhuge
      apply Post.pure
      have hnext : next (m.tables.get F i) = some (Frame.of (m.tables.get F i)) := next_eq_some.2 ⟨⟨hpresent, hhuge⟩, rfl⟩
      exact ⟨Frame.of (m.tables.get F i), rfl, ⟨Grows.refl wf, fun _ => rfl, (walk_concat hw i).trans hnext⟩, hw, hnext⟩
    · exact fun _ => rfl
  · rw [if_neg hpresent]
    apply (allocPageTable_post wf).bind (fun _ h => h)
    rintro table m₁ ⟨G, rfl, h⟩
    apply Post.modify_bind
    apply Post.pure
    have habsent : next (m.tables.get F i) = none := next_eq_none.2 fun h => absurd h hpresent
    have hlinks := h.links wf hp hw habsent
    have hgrows := h.grows_links wf hp hw habsent
    have hp3 : p.length ≤ 3 := hp.trans (Nat.le_succ 2)
    have hpi : (p ++ [i]).length ≤ 3 := by
      rw [List.length_append, List.length_singleton]
      omega
    have hwalk : (m₁.setEntry (slot F i) (tableEntry G.1)).tables.walk (p ++ [i]) = some G := by
      rw [hlinks.walk wf.unshared hpi, if_pos rfl]
    have hwalkp : (m₁.setEntry (slot F i) (tableEntry G.1)).tables.walk p = some F := by
      rw [hlinks.walk wf.unshared hp3, if_neg (by simp), hw]
    refine ⟨G, rfl, ⟨hgrows, ?_, hwalk⟩, hwalkp, hlinks.link⟩
    intro a
    apply hlinks.leaf_blank wf hgrows.wf (by simpa using hpresent)
    intro j
    have hF := Frame.ne_of_emptied h wf (table_of_walk hp3 hw)
    rw [get_setEntry, if_neg fun hsame => hF hsame.1.symm, h.zero]

theorem next_grantFlags {flags : UInt64} : next (grantFlags flags e) = next e := by
  have hor (f : UInt64) (h1 : has f PAGE_FLAG_PRESENT = false) (h2 : has f PAGE_FLAG_HUGE = false)
      (h3 : f &&& PAGE_ADDR_MASK = 0) (e : UInt64) : next (e ||| f) = next e := by
    have hof : Frame.of (e ||| f) = Frame.of e := by
      apply Subtype.ext
      unfold Frame.of
      dsimp only
      rw [and_or, h3, UInt64.or_zero]
    unfold next
    rw [has_or, has_or, h1, h2, Bool.or_false, Bool.or_false, hof]
  unfold grantFlags
  dsimp only
  split_ifs
  · rw [hor _ (by decide) (by decide) (by decide), hor _ (by decide) (by decide) (by decide)]
  · rw [hor _ (by decide) (by decide) (by decide)]
  · rw [hor _ (by decide) (by decide) (by decide)]
  · rfl

/-- Flags added to a pointer. -/
theorem sameTree_grantFlags (wf : WellFormed m) (flags : UInt64) (hp : p.length ≤ 2)
    (hw : m.tables.walk p = some F) (hnext : next (m.tables.get F i) = some G) :
    SameTree m.tables (m.setEntry (slot F i) (grantFlags flags (m.tables.get F i))).tables where
  root := rfl
  upper q u j _ _ := by
    rw [get_setEntry]
    split_ifs with hsame
    · obtain ⟨rfl, rfl⟩ := hsame
      refine .inr ⟨?_, next_grantFlags⟩
      rw [hnext]
      exact nofun
    · exact .inl rfl
  last q u j hq hwq := by
    rw [get_setEntry, if_neg]
    rintro ⟨rfl, -⟩
    have hqp := wf.unshared q p u hq.le (hp.trans (Nat.le_succ 2)) hwq hw
    rw [hqp] at hq
    omega

theorem descend_post (wf : WellFormed m) (flags i : UInt64) (j : Index) (hp : p.length ≤ 2)
    (hw : m.tables.walk p = some F) (hslot : F.1 + 8 * i = slot F j) :
    Post (descend flags F.1 i) m (fun table m' => ∃ G : Frame, G.1 = table ∧ Descends m m' (p ++ [j]) G)
      (· = m) := by
  unfold descend
  dsimp only
  rw [hslot]
  apply (ensureNextTable_post wf j hp hw).bind (fun _ h => h)
  rintro table m₁ ⟨G, rfl, hdesc, hwp, hnext⟩
  apply Post.modify_bind
  apply Post.pure
  have hsame := sameTree_grantFlags hdesc.grows.wf flags hp hwp hnext
  have hgrows : Grows [] m₁ (m₁.setEntry (slot F j) (grantFlags flags (m₁.tables.get F j))) := by
    apply Grows.of_sameTree hdesc.grows.wf hsame rfl
    intro u hu k
    rw [get_setEntry, if_neg]
    rintro ⟨rfl, -⟩
    exact hu.2 (table_of_walk (hp.trans (Nat.le_succ 2)) hwp)
  have hpj : (p ++ [j]).length ≤ 3 := by
    rw [List.length_append, List.length_singleton]
    omega
  refine ⟨G, rfl, hdesc.grows.trans hgrows, ?_, (hsame.walk hpj).trans hdesc.walk⟩
  exact hdesc.leaves.trans fun a => hsame.leaf hdesc.grows.wf hgrows.wf a

/-! ### Mapping -/

/-- The leaf of an address whose last table is known. -/
theorem leaf_of_walk (wf : WellFormed m) (hw : m.tables.walk (path addr) = some F) :
    leaf m.tables addr = if has (m.tables.get F (index 12 addr)) PAGE_FLAG_PRESENT = false then none
      else some (.small (m.tables.get F (index 12 addr))) := by
  rw [path_eq] at hw
  rw [leaf_eq wf]
  cases hdir : m.tables.walk (dir addr) with
  | none =>
    unfold PageTables.walk at hdir hw
    rw [Radix.walk_concat, hdir] at hw
    cases hw
  | some D =>
    rw [walk_concat hdir] at hw
    obtain ⟨⟨hp, hh⟩, hof⟩ := next_eq_some.1 hw
    rw [Option.bind_some]
    unfold leafUnder
    rw [hof]
    simp [hp, hh]

theorem setsEntry_setEntry (e : UInt64) (hw : m.tables.walk (path addr) = some F) :
    SetsEntry m.tables (m.setEntry (slot F (index 12 addr)) e).tables addr F e where
  root := rfl
  holds := hw
  entry := by rw [get_setEntry, if_pos ⟨rfl, rfl⟩]
  frame u j hne := by
    rw [get_setEntry, if_neg]
    rintro ⟨rfl, rfl⟩
    rcases hne with hne | hne <;> exact hne rfl

/-- The leaf of one page was changed and no other. -/
structure SetsLeaf (addr : UInt64) (l : Option Leaf) (m m' : Mem) : Prop where
  grows : Grows [] m m'
  others : SameLeavesBut addr m m'
  leaf : ∀ a, place a = place addr → leaf m'.tables a = l

theorem setsLeaf_setEntry (wf : WellFormed m) (e : UInt64) (hw : m.tables.walk (path addr) = some F) :
    SetsLeaf addr (if has e PAGE_FLAG_PRESENT = false then none else some (.small e)) m (m.setEntry (slot F (index 12 addr)) e) := by
  have hsets := setsEntry_setEntry e hw
  have hgrows := Grows.of_setsEntry wf hsets rfl
  exact ⟨hgrows, fun a ha => hsets.leaf_of_ne wf hgrows.wf ha, fun a ha => hsets.leaf_self wf hgrows.wf ha⟩

theorem leaf_congr (wf : WellFormed m) {b : UInt64} (h : place a = place b) : leaf m.tables a = leaf m.tables b := by
  obtain ⟨hpath, hindex⟩ := Prod.mk.inj h
  rw [path_eq, path_eq] at hpath
  obtain ⟨hdir, hpd⟩ := List.append_inj' hpath rfl
  rw [leaf_eq wf, leaf_eq wf, hdir, List.singleton_inj.1 hpd, hindex]

theorem has_pageEntry (phys flags : UInt64) : has (pageEntry phys flags) PAGE_FLAG_PRESENT = true := by
  unfold pageEntry
  rw [has_or]
  simp [show has PAGE_FLAG_PRESENT PAGE_FLAG_PRESENT = true from rfl]

/-- The address bits of an entry are those of its frame. -/
theorem pageEntry_phys (phys flags : UInt64) : pageEntry phys flags &&& PAGE_ADDR_MASK = phys &&& PAGE_ADDR_MASK := by
  unfold pageEntry
  have h1 : (PAGE_FLAGS_MASK ||| PAGE_FLAG_NO_EXECUTE) &&& PAGE_ADDR_MASK = 0 := by decide
  have h2 : PAGE_FLAG_PRESENT &&& PAGE_ADDR_MASK = 0 := by decide
  rw [and_or, and_or, UInt64.and_assoc flags, h1, h2, UInt64.and_zero, UInt64.or_zero, UInt64.or_zero, UInt64.and_assoc,
    UInt64.and_self]

/-- A flag of the page, apart from its being present. -/
theorem has_pageEntry_flag (phys flags : UInt64) {f : UInt64} (hf : (PAGE_FLAGS_MASK ||| PAGE_FLAG_NO_EXECUTE) &&& f = f)
    (haddr : PAGE_ADDR_MASK &&& f = 0) (hpresent : PAGE_FLAG_PRESENT &&& f = 0) : has (pageEntry phys flags) f = has flags f := by
  unfold pageEntry
  rw [has_or, has_or, has_and_of_zero haddr, has_and hf]
  unfold has
  rw [hpresent]
  simp

theorem root_slot (t : PageTables) (addr : UInt64) : t.root.1 + 8 * pml4Index addr = slot t.root (index 39 addr) :=
  (slot_index t.root 39 addr).symm

/-- A page is mapped that was not mapped before; an error return leaves all leaves. -/
theorem pagingMapPage_post (wf : WellFormed m) (virtAddr physAddr flags : UInt64) :
    Post (pagingMapPage virtAddr physAddr flags) m
      (fun _ m' => leaf m.tables virtAddr = none ∧ SetsLeaf virtAddr (some (.small (pageEntry physAddr flags))) m m')
      (fun m' => Grows [] m m' ∧ SameLeaves m m') := by
  have hstart : Grows [] m m ∧ SameLeaves m m := ⟨Grows.refl wf, fun _ => rfl⟩
  unfold pagingMapPage
  refine Post.require_bind (fun _ => ?_) fun _ => hstart
  apply Post.gets_bind
  apply (descend_post (p := []) wf flags (pml4Index virtAddr) (index 39 virtAddr) (Nat.zero_le 2) (walk_nil m.tables)
    (root_slot _ _)).bind (fun _ h => h ▸ hstart)
  rintro pdpt m₁ ⟨F₁, rfl, h₁⟩
  rw [List.nil_append] at h₁
  have hreach₁ : Grows [] m m₁ ∧ SameLeaves m m₁ := ⟨h₁.grows, h₁.leaves⟩
  apply (descend_post h₁.grows.wf flags (pdptIndex virtAddr) (index 30 virtAddr) (by simp) h₁.walk
    (slot_index _ _ _).symm).bind (fun _ h => h ▸ hreach₁)
  rintro pd m₂ ⟨F₂, rfl, h₂⟩
  have hreach₂ : Grows [] m m₂ ∧ SameLeaves m m₂ := ⟨h₁.grows.trans h₂.grows, h₁.leaves.trans h₂.leaves⟩
  apply (descend_post h₂.grows.wf flags (pdIndex virtAddr) (index 21 virtAddr) (by simp) h₂.walk
    (slot_index _ _ _).symm).bind (fun _ h => h ▸ hreach₂)
  rintro pt m₃ ⟨F₃, rfl, h₃⟩
  have hreach₃ : Grows [] m m₃ ∧ SameLeaves m m₃ := ⟨hreach₂.1.trans h₃.grows, hreach₂.2.trans h₃.leaves⟩
  have hwalk : m₃.tables.walk (path virtAddr) = some F₃ := h₃.walk
  have hslot : F₃.1 + 8 * ptIndex virtAddr = slot F₃ (index 12 virtAddr) := (slot_index _ _ _).symm
  dsimp only
  rw [hslot]
  apply Post.gets_bind
  apply Post.require_bind
  · intro habsent
    apply Post.modify
    have hsets := setsLeaf_setEntry h₃.grows.wf (pageEntry physAddr flags) hwalk
    rw [if_neg (by simp [has_pageEntry])] at hsets
    refine ⟨?_, hreach₃.1.trans hsets.grows, (hreach₃.2.but virtAddr).trans hsets.others, hsets.leaf⟩
    rw [← hreach₃.2 virtAddr, leaf_of_walk h₃.grows.wf hwalk]
    exact if_pos habsent
  · exact fun _ => hreach₃

/-! ### Flags, unmapping -/

/-- An address with an entry of the last level, and the table that holds it. -/
theorem mapped_iff (wf : WellFormed m) (addr : UInt64) :
    m.tables.Mapped addr ↔ ∃ F, m.tables.walk (path addr) = some F ∧ m.tables.ptSlot addr = slot F (index 12 addr) ∧
      has (m.tables.get F (index 12 addr)) PAGE_FLAG_PRESENT = true ∧ m.tables.pte addr = m.tables.get F (index 12 addr) := by
  constructor
  · rintro ⟨h4, h3, h2, hh, h1⟩
    have hwalk := walk_concat (walk_dir wf h4 h3) (index 21 addr)
    rw [← m.tables.pde_eq, next_eq_some.2 ⟨⟨h2, hh⟩, rfl⟩] at hwalk
    rw [m.tables.pte_eq] at h1
    exact ⟨_, hwalk, m.tables.ptSlot_eq addr, h1, m.tables.pte_eq addr⟩
  · rintro ⟨F, hw, -, h1, hpte⟩
    have hleaf := leaf_of_walk wf hw
    rw [h1, if_neg (by simp)] at hleaf
    unfold leaf at hleaf
    split_ifs at hleaf with h4 h3 h2 hh hp
    · cases hleaf
    · rw [Bool.not_eq_false] at h4 h3 h2 hp
      exact ⟨h4, h3, h2, by simpa using hh, hp⟩

/-- The small leaf of an address. -/
theorem mapped_iff_leaf (wf : WellFormed m) (addr : UInt64) :
    m.tables.Mapped addr ↔ leaf m.tables addr = some (.small (m.tables.pte addr)) := by
  constructor
  · intro h
    obtain ⟨F, hw, -, h1, hpte⟩ := (mapped_iff wf addr).1 h
    rw [leaf_of_walk wf hw, h1, hpte, if_neg (by simp)]
  · intro h
    unfold leaf at h
    split_ifs at h with h4 h3 h2 hh hp
    · cases h
    · rw [Bool.not_eq_false] at h4 h3 h2 hp
      exact ⟨h4, h3, h2, by simpa using hh, hp⟩

theorem leaf_small_pte {t : PageTables} (h : leaf t addr = some (.small e)) : t.pte addr = e := by
  unfold leaf at h
  split_ifs at h
  · cases h
  · exact Leaf.small.inj (Option.some.inj h)

theorem mapped_of_leaf (wf : WellFormed m) (h : leaf m.tables addr = some (.small e)) : m.tables.Mapped addr := by
  rw [mapped_iff_leaf wf, leaf_small_pte h, h]

theorem pagingSetPageFlags_post (wf : WellFormed m) (flags : UInt64) (hal : Aligned virtAddr)
    (h : leaf m.tables virtAddr = some (.small e)) :
    Post (pagingSetPageFlags virtAddr flags) m
      (fun _ m' => SetsLeaf virtAddr (some (.small (pageEntry e flags))) m m') fun _ => False := by
  have hmapped := mapped_of_leaf wf h
  unfold pagingSetPageFlags
  apply Post.require_bind _ fun hne => hne hal
  intro _
  apply Post.gets_bind
  apply Post.require_bind _ fun hne => hne hmapped
  intro _
  apply Post.modify
  obtain ⟨F, hw, hslot, -, -⟩ := (mapped_iff wf virtAddr).1 hmapped
  have hsets := setsLeaf_setEntry wf (pageEntry e flags) hw
  rw [if_neg (by simp [has_pageEntry])] at hsets
  rw [leaf_small_pte h, hslot]
  exact hsets

/-- After unmapping the page has no small leaf, and no other page has changed. -/
theorem unmapPage_sets (wf : WellFormed m) (hal : Aligned virtAddr)
    (h : leaf m.tables virtAddr = some (.small e)) : SetsLeaf virtAddr none m (m.unmapPage virtAddr) := by
  have hmapped := mapped_of_leaf wf h
  obtain ⟨F, hw, hslot, -, -⟩ := (mapped_iff wf virtAddr).1 hmapped
  have hsets := setsLeaf_setEntry wf 0 hw
  unfold Mem.unmapPage
  rw [if_pos ⟨hal, hmapped⟩, hslot]
  exact hsets

theorem unmapPage_of_not_small (wf : WellFormed m) (h : ∀ e, leaf m.tables virtAddr ≠ some (.small e)) :
    m.unmapPage virtAddr = m := by
  unfold Mem.unmapPage
  rw [if_neg]
  rintro ⟨-, hmapped⟩
  exact h _ ((mapped_iff_leaf wf virtAddr).1 hmapped)

/-! ### Splitting -/

theorem get_fillTable (t : PageTables) (F G : Frame) (i : Index) (pde : UInt64) :
    (t.fillTable F.1 pde).get G i = if G = F then splitEntry pde i else t.get G i := by
  unfold PageTables.fillTable PageTables.get
  dsimp only
  by_cases h : G = F
  · subst h
    have hsub := slot_sub_toNat G i
    have height : (8 : UInt64).toNat = 8 := rfl
    rw [if_pos ((in_frame_iff G G i).2 rfl), if_pos rfl, UInt64.toNat_div, hsub, height, Nat.mul_div_cancel_left _ (by decide)]
  · rw [if_neg fun hin => h ((in_frame_iff F G i).1 hin), if_neg h]

theorem has_splitEntry (h : has pde PAGE_FLAG_PRESENT = true) (i : ℕ) :
    has (splitEntry pde i) PAGE_FLAG_PRESENT = true := by
  unfold splitEntry
  rw [has_or, has_and (by decide), h, Bool.or_true]

/-- The directory entry of a large leaf. -/
theorem large_iff (wf : WellFormed m) (h : leaf m.tables addr = some (.large pde)) :
    ∃ D, m.tables.walk (dir addr) = some D ∧ m.tables.get D (index 21 addr) = pde ∧ m.tables.pde addr = pde ∧
      m.tables.pdSlot addr = slot D (index 21 addr) ∧ has pde PAGE_FLAG_PRESENT = true ∧ has pde PAGE_FLAG_HUGE = true ∧
      has (m.tables.pml4e addr) PAGE_FLAG_PRESENT = true ∧ has (m.tables.pdpte addr) PAGE_FLAG_PRESENT = true := by
  unfold leaf at h
  split_ifs at h with h4 h3 h2 hh hp
  · obtain rfl := Leaf.large.inj (Option.some.inj h)
    rw [Bool.not_eq_false] at h4 h3 h2
    exact ⟨_, walk_dir wf h4 h3, (m.tables.pde_eq addr).symm, rfl, m.tables.pdSlot_eq addr, h2, hh, h4, h3⟩
  · cases h

/-- All addresses of a large page have its leaf. -/
theorem leaf_large_of_path (wf : WellFormed m) (h : leaf m.tables addr = some (.large pde)) (ha : path a = path addr) :
    leaf m.tables a = some (.large pde) := by
  obtain ⟨D, hw, hget, -, -, hpresent, hhuge, -, -⟩ := large_iff wf h
  rw [path_eq, path_eq] at ha
  obtain ⟨hdir, hpd⟩ := List.append_inj' ha rfl
  rw [leaf_eq wf, hdir, hw, Option.bind_some, List.singleton_inj.1 hpd, hget]
  unfold leafUnder
  rw [if_neg (by simp [hpresent]), if_pos hhuge]

/-- What the split of a large page writes: a frame that was free, and the entry of the directory. -/
structure SplitWrites (addr pde : UInt64) (D G : Frame) (m m' : Mem) : Prop where
  taken : Taken m { m' with tables := m.tables } G
  root : m'.tables.root = m.tables.root
  dir : m.tables.walk (dir addr) = some D
  entry : m.tables.get D (index 21 addr) = pde
  present : has pde PAGE_FLAG_PRESENT = true
  huge : has pde PAGE_FLAG_HUGE = true
  get : ∀ u j, m'.tables.get u j = if u = D ∧ j = index 21 addr then tableEntry G.1 else if u = G then splitEntry pde j else m.tables.get u j

theorem pagingSplitHugePage_writes (wf : WellFormed m)
    (h : leaf m.tables virtAddr = some (.large pde)) :
    Post (pagingSplitHugePage virtAddr) m (fun _ m' => ∃ D G, SplitWrites virtAddr pde D G m m') (· = m) := by
  obtain ⟨D, hw, hget, hpde, hslot, hpresent, hhuge, h4, h3⟩ := large_iff wf h
  unfold pagingSplitHugePage
  refine Post.require_bind (fun _ => ?_) fun _ => rfl
  apply Post.gets_bind
  rw [if_neg (by simp [h4]), if_neg (by simp [h3]), hpde, if_neg (by simp [hpresent]), if_neg (by simp [hhuge])]
  apply (allocPageTable_post wf).bind (fun _ h => h)
  rintro table m₁ ⟨G, rfl, he⟩
  apply Post.modify_bind
  apply Post.modify
  rw [hslot]
  refine ⟨D, G, ⟨he.taken.free, he.taken.small, he.taken.nonzero, rfl, he.taken.used⟩, he.root, hw, hget, hpresent, hhuge, fun u j => ?_⟩
  by_cases hu : u = G
  · rw [get_setEntry, get_fillTable, if_pos hu, if_pos hu]
    rfl
  · rw [get_setEntry, get_fillTable, if_neg hu, if_neg hu, he.frame u j hu]
    rfl

namespace SplitWrites

variable {addr pde : UInt64} {D G : Frame} {m' : Mem}

section

variable (h : SplitWrites addr pde D G m m') (wf : WellFormed m)
include h wf

theorem ne {u : Frame} (hu : m.tables.Table u) : u ≠ G := by
  rintro rfl
  exact h.taken.notTable wf hu

/-- The new table is linked in. -/
theorem links : LinksTable m.tables m'.tables (Memory.dir addr) (index 21 addr) D G where
  root := h.root
  depth := le_rfl
  table := h.dir
  empty := by
    rw [h.entry]
    exact next_eq_none.2 fun _ => h.huge
  link := by
    rw [h.get, if_pos ⟨rfl, rfl⟩]
    exact next_tableEntry G
  unused := h.taken.notTable wf
  frame u j hu hne := by
    rw [h.get, if_neg, if_neg (h.ne wf hu)]
    rintro ⟨rfl, rfl⟩
    exact hne.elim (absurd rfl) (absurd rfl)
  blank hlen := absurd hlen (by simp [Memory.dir])

theorem grows : Grows [] m m' :=
  (h.links wf).grows wf h.taken.small h.taken.free h.taken.used fun u j huD huG => by
    rw [h.get, if_neg fun hsame => huD hsame.1, if_neg huG]

end

end SplitWrites

/-- A large leaf was replaced by small ones, and nothing else changed. -/
structure Splits (addr pde : UInt64) (m m' : Mem) : Prop where
  grows : Grows [] m m'
  others : ∀ a, path a ≠ path addr → leaf m'.tables a = leaf m.tables a
  leaf : ∀ a, path a = path addr → leaf m'.tables a = some (.small (splitEntry pde (index 12 a)))

theorem SplitWrites.splits {D : Frame} (h : SplitWrites addr pde D G m m') (wf : WellFormed m) :
    Splits addr pde m m' := by
  have hlinks := h.links wf
  have hgrows := h.grows wf
  refine ⟨hgrows, ?_, ?_⟩
  · intro a ha
    apply hlinks.leaf_of_ne wf hgrows.wf
    · exact fun heq => dir_ne_path a addr heq
    · exact ha
  · intro a ha
    have hentry := h.get G (index 12 a)
    rw [if_neg fun hsame => h.ne wf (table_of_walk (dir_le addr) h.dir) hsame.1.symm, if_pos rfl] at hentry
    have hunder := hlinks.leaf_under wf hgrows.wf ha
    rw [hentry, has_splitEntry h.present, if_neg (by simp)] at hunder
    exact hunder

theorem pagingSplitHugePage_large (wf : WellFormed m)
    (h : leaf m.tables virtAddr = some (.large pde)) :
    Post (pagingSplitHugePage virtAddr) m (fun _ m' => Splits virtAddr pde m m') (· = m) := by
  refine ⟨fun _ m' hrun => ?_, (pagingSplitHugePage_writes wf h).fail⟩
  obtain ⟨D, G, hsplit⟩ := (pagingSplitHugePage_writes wf h).ok _ m' hrun
  exact hsplit.splits wf

theorem pagingSplitHugePage_other (hal : Aligned virtAddr)
    (h : ∀ pde, leaf m.tables virtAddr ≠ some (.large pde)) : pagingSplitHugePage virtAddr m = (.ok (), m) := by
  unfold pagingSplitHugePage
  rw [require_pos hal]
  show (if _ then _ else _ : Exec Mem Unit) m = _
  unfold leaf at h
  split_ifs with h4 h3 h2 hh
  · rfl
  · rfl
  · rfl
  · rfl
  · have hlarge := h (m.tables.pde virtAddr)
    rw [Bool.not_eq_false] at hh
    rw [if_neg h4, if_neg h3, if_neg h2, if_pos hh] at hlarge
    exact absurd rfl hlarge

/-! ### Around a page -/

/-- Small leaves elsewhere are kept, and nothing is mapped elsewhere. -/
structure Around (page : UInt64) (m m' : Mem) : Prop where
  small : ∀ a e, place a ≠ place page → leaf m.tables a = some (.small e) → leaf m'.tables a = some (.small e)
  none : ∀ a, place a ≠ place page → leaf m.tables a = none → leaf m'.tables a = none

theorem SameLeavesBut.around (h : SameLeavesBut page m m') : Around page m m' where
  small a _ ha hl := (h a ha).trans hl
  none a ha hl := (h a ha).trans hl

theorem Around.trans {m'' : Mem} (h : Around page m m') (h' : Around page m' m'') : Around page m m'' where
  small a e ha hl := h'.small a e ha (h.small a e ha hl)
  none a ha hl := h'.none a ha (h.none a ha hl)

/-- A split keeps all leaves but the large ones of its region. -/
theorem Splits.kept (h : Splits page pde m m') (wf : WellFormed m) (hl : Memory.leaf m.tables page = some (.large pde))
    (ha : ∀ e, Memory.leaf m.tables a ≠ some (.large e)) : Memory.leaf m'.tables a = Memory.leaf m.tables a := by
  apply h.others
  intro hpath
  exact ha pde (leaf_large_of_path wf hl hpath)

theorem Splits.around (h : Splits page pde m m') (wf : WellFormed m) (hl : Memory.leaf m.tables page = some (.large pde)) :
    Around page m m' where
  small a e _ hs := (h.kept wf hl (a := a) (by simp [hs])).trans hs
  none a _ hn := (h.kept wf hl (a := a) (by simp [hn])).trans hn

end Tg11Kernel.Memory
