import Tg11Kernel.Memory.Supply

/-! The split of a large page as the processor sees it. What an access finds is a physical
address and the flags of all levels taken together; the new entries carry two flags of the
old one, and the new directory entry carries none of it. -/

namespace Tg11Kernel.Memory

open Lib Exec

def PAGE_FLAG_WRITE_THROUGH : UInt64 := 0x008
def PAGE_FLAG_CACHE_DISABLE : UInt64 := 0x010

/-- What an access finds: an address, and what the levels allow together. -/
structure Access where
  phys : UInt64
  writable : Bool
  user : Bool
  noExecute : Bool
  writeThrough : Bool
  cacheDisable : Bool
  deriving DecidableEq

/-- A level withholds what it does not allow, and imposes what it marks. -/
def Translation.access (tr : Translation) : Access where
  phys := tr.phys
  writable := tr.entries.all (has · PAGE_FLAG_WRITABLE)
  user := tr.entries.all (has · PAGE_FLAG_USER)
  noExecute := tr.entries.any (has · PAGE_FLAG_NO_EXECUTE)
  writeThrough := tr.entries.any (has · PAGE_FLAG_WRITE_THROUGH)
  cacheDisable := tr.entries.any (has · PAGE_FLAG_CACHE_DISABLE)

/-- What an access to the address finds, if the page is present at every level. -/
def access (t : PageTables) (addr : UInt64) : Option Access := (translate t addr).map Translation.access

variable {m m' : Mem} {v a pde : UInt64} {D G : Frame}

/-! ### The entries after a split -/

namespace SplitWrites

section

variable (h : SplitWrites v pde D G m m') (wf : WellFormed m)
include h wf

/-- The entries of other tables are kept. -/
theorem get_of_walk {p : List Index} {u : Frame} (hp : p.length ≤ 3)
    (hw : m.tables.walk p = some u) (j : Index) (hne : p ≠ Memory.dir v ∨ j ≠ index 21 v) : m'.tables.get u j = m.tables.get u j := by
  rw [h.get, if_neg, if_neg (h.ne wf (table_of_walk hp hw))]
  rintro ⟨rfl, hj⟩
  rcases hne with hne | hne
  · exact hne (wf.unshared _ _ u hp (dir_le v) hw h.dir)
  · exact hne hj

theorem pml4e_eq : m'.tables.pml4e a = m.tables.pml4e a := by
  rw [m'.tables.pml4e_eq, m.tables.pml4e_eq, h.root]
  exact h.get_of_walk wf (by simp) (walk_nil _) _ (.inl (by simp [Memory.dir]))

section

variable (h4 : has (m.tables.pml4e a) PAGE_FLAG_PRESENT = true)
include h4

theorem pdpte_eq : m'.tables.pdpte a = m.tables.pdpte a := by
  rw [m'.tables.pdpte_eq, m.tables.pdpte_eq, h.pml4e_eq wf]
  exact h.get_of_walk wf (by simp) (walk_pdpt wf h4) _ (.inl (by simp [Memory.dir]))

theorem pde_eq_of_ne
    (h3 : has (m.tables.pdpte a) PAGE_FLAG_PRESENT = true) (hne : path a ≠ path v) : m'.tables.pde a = m.tables.pde a := by
  rw [m'.tables.pde_eq, m.tables.pde_eq, h.pdpte_eq wf h4]
  apply h.get_of_walk wf (dir_le a) (walk_dir wf h4 h3)
  by_contra hsame
  rw [not_or, not_ne_iff, not_ne_iff] at hsame
  apply hne
  rw [path_eq, path_eq, hsame.1, hsame.2]

theorem pte_eq_of_ne
    (h3 : has (m.tables.pdpte a) PAGE_FLAG_PRESENT = true) (h2 : has (m.tables.pde a) PAGE_FLAG_PRESENT = true)
    (hh : has (m.tables.pde a) PAGE_FLAG_HUGE = false) (hne : path a ≠ path v) : m'.tables.pte a = m.tables.pte a := by
  have hwalk := walk_concat (walk_dir wf h4 h3) (index 21 a)
  rw [← m.tables.pde_eq, next_eq_some.2 ⟨⟨h2, hh⟩, rfl⟩, ← path_eq] at hwalk
  rw [m'.tables.pte_eq, m.tables.pte_eq, h.pde_eq_of_ne wf h4 h3 hne]
  exact h.get_of_walk wf (path_le a) hwalk _ (.inl fun heq => dir_ne_path v a heq.symm)

end

/-- Addresses outside of the large page are translated as before. -/
theorem translate_of_ne (hne : path a ≠ path v) : translate m'.tables a = translate m.tables a := by
  unfold translate
  dsimp only
  rw [h.pml4e_eq wf]
  by_cases h4 : has (m.tables.pml4e a) PAGE_FLAG_PRESENT = true
  · rw [h.pdpte_eq wf h4]
    by_cases h3 : has (m.tables.pdpte a) PAGE_FLAG_PRESENT = true
    · rw [h.pde_eq_of_ne wf h4 h3 hne]
      by_cases h2 : has (m.tables.pde a) PAGE_FLAG_PRESENT = true
      · by_cases hh : has (m.tables.pde a) PAGE_FLAG_HUGE = true
        · simp [h4, h3, h2, hh]
        · rw [h.pte_eq_of_ne wf h4 h3 h2 (by simpa using hh) hne]
      · simp [h4, h3, h2]
    · simp [h4, h3]
  · simp [h4]

end

end SplitWrites

/-! ### One entry as 512 -/

theorem or_toNat_of_low {x y : UInt64} {k : ℕ} (hx : 2 ^ k ∣ x.toNat) (hy : y.toNat < 2 ^ k) : (x ||| y).toNat = x.toNat + y.toNat := by
  obtain ⟨n, hn⟩ := hx
  rw [UInt64.toNat_or, hn, Nat.two_pow_add_eq_or_of_lt hy]

theorem largeMask_toNat (e : UInt64) : (e &&& PAGE_LARGE_ADDR_MASK).toNat = e.toNat / 2 ^ 21 % 2 ^ 31 * 2 ^ 21 :=
  and_toNat_of_mask e (by decide)

/-- The address in an entry that replaces a large one. -/
theorem splitAddr_toNat (pde : UInt64) (i : Index) :
    ((pde &&& PAGE_LARGE_ADDR_MASK) + UInt64.ofNat i * MEMORY_PAGE_SIZE).toNat = pde.toNat / 2 ^ 21 % 2 ^ 31 * 2 ^ 21 + i * 4096 := by
  have hi := i.isLt
  have hmul := frame_toNat (n := i) (by unfold MEMORY_MAX_PAGES; omega)
  have hbase := largeMask_toNat pde
  rw [UInt64.toNat_add, hbase, hmul, Nat.mod_eq_of_lt (by omega)]

theorem splitAddr_masked (pde : UInt64) (i : Index) :
    ((pde &&& PAGE_LARGE_ADDR_MASK) + UInt64.ofNat i * MEMORY_PAGE_SIZE) &&& PAGE_ADDR_MASK =
      (pde &&& PAGE_LARGE_ADDR_MASK) + UInt64.ofNat i * MEMORY_PAGE_SIZE := by
  have hi := i.isLt
  apply UInt64.toNat_inj.1
  rw [addrMask_toNat, splitAddr_toNat]
  omega

theorem has_splitEntry_flag {f : UInt64} (hf : PAGE_ADDR_MASK &&& f = 0) (pde : UInt64) (i : Index) :
    has (splitEntry pde i) f = has (pde &&& (PAGE_FLAG_PRESENT ||| PAGE_FLAG_WRITABLE)) f := by
  unfold splitEntry
  rw [has_or, ← splitAddr_masked, has_and_of_zero hf, Bool.false_or]

theorem splitEntry_phys (pde a : UInt64) :
    (splitEntry pde (index 12 a) &&& PAGE_ADDR_MASK) ||| (a &&& (MEMORY_PAGE_SIZE - 1)) =
      (pde &&& PAGE_LARGE_ADDR_MASK) ||| (a &&& 0x1FFFFF) := by
  have hflags : pde &&& (PAGE_FLAG_PRESENT ||| PAGE_FLAG_WRITABLE) &&& PAGE_ADDR_MASK = 0 := by
    rw [UInt64.and_assoc]
    exact UInt64.and_zero
  have hpage : (a &&& (MEMORY_PAGE_SIZE - 1)).toNat = a.toNat % 2 ^ 12 := by
    rw [UInt64.toNat_and]
    exact Nat.and_two_pow_sub_one_eq_mod _ 12
  have hlarge : (a &&& 0x1FFFFF).toNat = a.toNat % 2 ^ 21 := by
    rw [UInt64.toNat_and]
    exact Nat.and_two_pow_sub_one_eq_mod _ 21
  have hindex : (index 12 a).val = a.toNat / 2 ^ 12 % 2 ^ 9 := by
    unfold index
    dsimp only
    rw [UInt64.toNat_and, UInt64.toNat_shiftRight]
    exact (Nat.and_two_pow_sub_one_eq_mod _ 9).trans (by rw [Nat.shiftRight_eq_div_pow]; rfl)
  unfold splitEntry
  rw [and_or, hflags, UInt64.or_zero, splitAddr_masked]
  apply UInt64.toNat_inj.1
  rw [or_toNat_of_low (k := 12) _ (by rw [hpage]; omega), or_toNat_of_low (k := 21) _ (by rw [hlarge]; omega), splitAddr_toNat,
    largeMask_toNat, hpage, hlarge, hindex]
  · omega
  · rw [largeMask_toNat]
    exact Dvd.intro_left _ rfl
  · rw [splitAddr_toNat]
    omega

theorem has_tableEntry_flag {f : UInt64} (hf : PAGE_ADDR_MASK &&& f = 0) (F : Frame) :
    has (tableEntry F.1) f = (has PAGE_FLAG_PRESENT f || has PAGE_FLAG_WRITABLE f) := by
  unfold tableEntry
  rw [has_or, has_or, has_and_of_zero hf, Bool.false_or]

/-! ### What an access finds -/

/-- An address of a large page. -/
theorem translate_large (wf : WellFormed m) (h : leaf m.tables a = some (.large pde)) :
    translate m.tables a = some ⟨(pde &&& PAGE_LARGE_ADDR_MASK) ||| (a &&& 0x1FFFFF), [m.tables.pml4e a, m.tables.pdpte a, pde]⟩ := by
  obtain ⟨D, -, -, hpde, -, hpresent, hhuge, h4, h3⟩ := large_iff wf h
  have hwalk := walk_pdpt wf h4
  have hgigabyte := wf.noGigabyte _ _ (index 30 a) (by simp) hwalk
  rw [← m.tables.pdpte_eq] at hgigabyte
  unfold translate
  dsimp only
  rw [hpde, h4, h3, hgigabyte h3, hpresent, hhuge]
  rfl

/-- The same address after the split. -/
theorem SplitWrites.translate_self (h : SplitWrites v pde D G m m') (wf : WellFormed m) (hl : leaf m.tables v = some (.large pde))
    (ha : path a = path v) :
    translate m'.tables a = some ⟨(pde &&& PAGE_LARGE_ADDR_MASK) ||| (a &&& 0x1FFFFF),
      [m.tables.pml4e a, m.tables.pdpte a, tableEntry G.1, splitEntry pde (index 12 a)]⟩ := by
  obtain ⟨E, hw, -, -, -, -, -, h4, h3⟩ := large_iff wf (leaf_large_of_path wf hl ha)
  have hgigabyte := wf.noGigabyte _ _ (index 30 a) (by simp) (walk_pdpt wf h4) (by rwa [← m.tables.pdpte_eq])
  rw [path_eq, path_eq] at ha
  obtain ⟨hdir, hpd⟩ := List.append_inj' ha rfl
  have hpde : m'.tables.pde a = tableEntry G.1 := by
    have hD := walk_dir wf h4 h3
    rw [hdir, h.dir] at hD
    rw [m'.tables.pde_eq, h.pdpte_eq wf h4, ← Option.some.inj hD, h.get, if_pos ⟨rfl, List.singleton_inj.1 hpd⟩]
  have hnext := next_eq_some.1 (next_tableEntry G)
  have hpte : m'.tables.pte a = splitEntry pde (index 12 a) := by
    rw [m'.tables.pte_eq, hpde, hnext.2, h.get, if_neg, if_pos rfl]
    rintro ⟨hGD, -⟩
    exact h.ne wf (table_of_walk (dir_le v) h.dir) hGD.symm
  rw [← m.tables.pdpte_eq] at hgigabyte
  unfold translate
  dsimp only
  rw [h.pml4e_eq wf, h.pdpte_eq wf h4, hpde, hpte, h4, h3, hgigabyte, hnext.1.1, hnext.1.2, has_splitEntry h.present, ← splitEntry_phys pde a]
  rfl

/-- The levels above decide what the split drops of the entry: they withhold what the user
bit allows, and impose what the other bits mark. -/
structure Decided (t : PageTables) (addr pde : UInt64) : Prop where
  user : ¬ (has (t.pml4e addr) PAGE_FLAG_USER = true ∧ has (t.pdpte addr) PAGE_FLAG_USER = true ∧ has pde PAGE_FLAG_USER = true)
  imposed : ∀ f ∈ [PAGE_FLAG_NO_EXECUTE, PAGE_FLAG_WRITE_THROUGH, PAGE_FLAG_CACHE_DISABLE], has pde f = true →
    has (t.pml4e addr) f = true ∨ has (t.pdpte addr) f = true

theorem decided_iff {t : PageTables} : Decided t a pde ↔
    ¬ (has (t.pml4e a) PAGE_FLAG_USER = true ∧ has (t.pdpte a) PAGE_FLAG_USER = true ∧ has pde PAGE_FLAG_USER = true) ∧
      (has pde PAGE_FLAG_NO_EXECUTE = true → has (t.pml4e a) PAGE_FLAG_NO_EXECUTE = true ∨ has (t.pdpte a) PAGE_FLAG_NO_EXECUTE = true) ∧
      (has pde PAGE_FLAG_WRITE_THROUGH = true →
        has (t.pml4e a) PAGE_FLAG_WRITE_THROUGH = true ∨ has (t.pdpte a) PAGE_FLAG_WRITE_THROUGH = true) ∧
      (has pde PAGE_FLAG_CACHE_DISABLE = true →
        has (t.pml4e a) PAGE_FLAG_CACHE_DISABLE = true ∨ has (t.pdpte a) PAGE_FLAG_CACHE_DISABLE = true) := by
  constructor
  · rintro ⟨hu, hi⟩
    exact ⟨hu, by simpa using hi⟩
  · rintro ⟨hu, hi⟩
    exact ⟨hu, by simpa using hi⟩

theorem or_absorbs (x y z : Bool) : (x || y) = (x || (y || z)) ↔ (z = true → x = true ∨ y = true) := by
  cases x <;> cases y <;> cases z <;> decide

theorem upper_eq (t : PageTables) (h : dir a = dir v) : t.pml4e a = t.pml4e v ∧ t.pdpte a = t.pdpte v := by
  obtain ⟨h4, h3⟩ := List.cons.inj h
  have hpml4e : t.pml4e a = t.pml4e v := by rw [t.pml4e_eq, t.pml4e_eq, h4]
  exact ⟨hpml4e, by rw [t.pdpte_eq, t.pdpte_eq, hpml4e, List.singleton_inj.1 h3]⟩

/-- In the large page an access finds what it did exactly if nothing that counts was dropped. -/
theorem SplitWrites.access_self (h : SplitWrites v pde D G m m') (wf : WellFormed m) (hl : leaf m.tables v = some (.large pde))
    (ha : path a = path v) : access m'.tables a = access m.tables a ↔ Decided m.tables a pde := by
  have hdropped : ∀ f ∈ [PAGE_FLAG_USER, PAGE_FLAG_NO_EXECUTE, PAGE_FLAG_WRITE_THROUGH, PAGE_FLAG_CACHE_DISABLE],
      has (splitEntry pde (index 12 a)) f = false ∧ has (tableEntry G.1) f = false := by
    have hzero : ∀ f ∈ [PAGE_FLAG_USER, PAGE_FLAG_NO_EXECUTE, PAGE_FLAG_WRITE_THROUGH, PAGE_FLAG_CACHE_DISABLE],
        PAGE_ADDR_MASK &&& f = 0 ∧ (PAGE_FLAG_PRESENT ||| PAGE_FLAG_WRITABLE) &&& f = 0 ∧
          (has PAGE_FLAG_PRESENT f || has PAGE_FLAG_WRITABLE f) = false := by
      simp only [List.forall_mem_cons]
      exact ⟨by decide, by decide, by decide, by decide, by simp⟩
    intro f hf
    obtain ⟨haddr, hflags, hlinks⟩ := hzero f hf
    exact ⟨(has_splitEntry_flag haddr pde _).trans (has_and_of_zero hflags), (has_tableEntry_flag haddr G).trans hlinks⟩
  have hwritable : has (splitEntry pde (index 12 a)) PAGE_FLAG_WRITABLE = has pde PAGE_FLAG_WRITABLE :=
    (has_splitEntry_flag (by decide) pde _).trans (has_and (by decide))
  have hlink : has (tableEntry G.1) PAGE_FLAG_WRITABLE = true := (has_tableEntry_flag (by decide) G).trans (by decide)
  have huser := hdropped PAGE_FLAG_USER (by simp)
  have hnx := hdropped PAGE_FLAG_NO_EXECUTE (by simp)
  have hpwt := hdropped PAGE_FLAG_WRITE_THROUGH (by simp)
  have hpcd := hdropped PAGE_FLAG_CACHE_DISABLE (by simp)
  unfold access
  rw [h.translate_self wf hl ha, translate_large wf (leaf_large_of_path wf hl ha), Option.map_some, Option.map_some, Option.some_inj]
  unfold Translation.access
  simp only [List.all_cons, List.all_nil, List.any_cons, List.any_nil, hwritable, hlink, huser, hnx, hpwt, hpcd, Access.mk.injEq,
    Bool.and_true, Bool.true_and, Bool.or_false, Bool.and_false, Bool.false_and, true_and]
  rw [or_absorbs, or_absorbs, or_absorbs, decided_iff]
  apply and_congr_left
  intro _
  rw [eq_comm, ← Bool.not_eq_true, Bool.and_eq_true, Bool.and_eq_true]

/-! ### The split -/

/-- The call changes nothing that an access can tell, and the address is in no large page
afterwards; or it fails and changes nothing. -/
structure SplitsUnseen (v : UInt64) (m : Mem) (result : Outcome Unit × Mem) : Prop where
  returns : result.1 ≠ .hang
  success : result.1 = .ok () → (∀ a, access result.2.tables a = access m.tables a) ∧ ∀ pde, leaf result.2.tables v ≠ some (.large pde)
  failure : result.1 = .fail → result.2 = m

theorem allocPageTable_ends (wf : WellFormed m) :
    (∃ table m', allocPageTable m = (.ok table, m')) ∨ allocPageTable m = (.fail, m) ∧ ∀ n < MEMORY_MAX_PAGES, m.used n = true := by
  unfold allocPageTable
  rcases physAllocPage_cases wf.zero with hrun | ⟨n, hn, hlt, hfree, hrun⟩
  · refine .inr ⟨(bind_ok hrun).trans (by rw [require_neg (not_not.2 rfl)]; rfl), fun n hn => ?_⟩
    by_contra hused
    apply not_plenty_of_zero wf (congrArg Prod.fst hrun)
    exact ⟨{n}, le_rfl, by simpa using ⟨hn, Bool.eq_false_of_not_eq_true hused⟩⟩
  · have hnonzero : UInt64.ofNat n * MEMORY_PAGE_SIZE ≠ 0 := by
      intro hzero
      have hnat := frame_toNat hlt
      rw [hzero, UInt64.toNat_zero] at hnat
      omega
    exact .inl ⟨_, _, (bind_ok hrun).trans (by rw [require_pos hnonzero]; rfl)⟩

/-- The split of a large page needs a table. -/
theorem pagingSplitHugePage_large_eq (h : IsTree m) (hal : Aligned v) (hl : leaf m.tables v = some (.large pde)) :
    pagingSplitHugePage v m = (do
      let newPt ← allocPageTable
      modify fun m' => { m' with tables := m'.tables.fillTable newPt (m.tables.pde v) }
      modify fun m' => m'.setEntry (m.tables.pdSlot v) ((newPt &&& PAGE_ADDR_MASK) ||| PAGE_FLAG_PRESENT ||| PAGE_FLAG_WRITABLE)
      : Exec Mem Unit) m := by
  obtain ⟨D, -, -, hpde, -, hpresent, hhuge, h4, h3⟩ := large_iff h.holdZero hl
  rw [holdZero_tables] at hpde h4 h3
  unfold pagingSplitHugePage
  rw [require_pos hal]
  show (if _ then _ else _ : Exec Mem Unit) m = _
  rw [if_neg (by simp [h4]), if_neg (by simp [h3]), if_neg (by simp [hpde, hpresent]), if_neg (by simp [hpde, hhuge])]

/-- When the split of a large page fails, no frame is free. -/
theorem pagingSplitHugePage_supplied (wf : WellFormed m) (hal : Aligned v) (hl : leaf m.tables v = some (.large pde)) :
    (∃ D G m', pagingSplitHugePage v m = (.ok (), m') ∧ SplitWrites v pde D G m m') ∨
      pagingSplitHugePage v m = (.fail, m) ∧ ∀ n < MEMORY_MAX_PAGES, m.used n = true := by
  have hrun := pagingSplitHugePage_large_eq wf.isTree hal hl
  rcases allocPageTable_ends wf with ⟨table, m', halloc⟩ | ⟨halloc, hfull⟩
  · have hok := hrun.trans (bind_ok halloc)
    obtain ⟨D, G, hw⟩ := (pagingSplitHugePage_writes wf hl).ok _ _ hok
    exact .inl ⟨D, G, _, hok, hw⟩
  · exact .inr ⟨hrun.trans (bind_fail halloc), hfull⟩

/-- A large page that is split. -/
theorem SplitWrites.unseen_iff (h : SplitWrites v pde D G m m') (wf : WellFormed m) (hl : leaf m.tables v = some (.large pde)) :
    SplitsUnseen v m (.ok (), m') ↔ Decided m.tables v pde := by
  constructor
  · intro hs
    exact (h.access_self wf hl rfl).1 ((hs.success rfl).1 v)
  · intro hdecided
    refine ⟨nofun, fun _ => ⟨fun a => ?_, fun pde' hl' => ?_⟩, nofun⟩
    · by_cases ha : path a = path v
      · rw [h.access_self wf hl ha]
        rw [path_eq, path_eq] at ha
        obtain ⟨h4, h3⟩ := upper_eq m.tables (List.append_inj' ha rfl).1
        rw [decided_iff] at hdecided ⊢
        rwa [h4, h3]
      · unfold access
        rw [h.translate_of_ne wf ha]
    · rw [(h.splits wf).leaf v rfl] at hl'
      cases hl'

/-- For every tree of tables that the allocator knows of: the split is not seen exactly if the
address is in no large page; or no frame is free, or the levels above decide what is dropped,
and frame 0 is not up for grabs. -/
theorem pagingSplitHugePage_unseen_iff (h : IsTree m) (hal : Aligned v) :
    SplitsUnseen v m (pagingSplitHugePage v m) ↔
      ∀ pde, leaf m.tables v = some (.large pde) →
        m.used 0 = true ∧ ((∃ n < MEMORY_MAX_PAGES, m.used n = false) → Decided m.tables v pde) := by
  by_cases hlarge : ∃ pde, leaf m.tables v = some (.large pde)
  · obtain ⟨pde, hl⟩ := hlarge
    have hunique {q : UInt64 → Prop} : (∀ pde', leaf m.tables v = some (.large pde') → q pde') ↔ q pde := by simp [hl]
    rw [hunique]
    cases hzero : m.used 0 with
    | false =>
      rw [pagingSplitHugePage_large_eq h hal hl, bind_fail (allocPageTable_zeroFree hzero)]
      refine ⟨fun hs => ?_, fun hq => absurd hq.1 Bool.false_ne_true⟩
      have hsame : true = m.used 0 := congrArg (Mem.used · 0) (hs.failure rfl)
      rw [hzero] at hsame
      cases hsame
    | true =>
      have wf : WellFormed m := ⟨h.unshared, h.used, h.noGigabyte, hzero⟩
      rcases pagingSplitHugePage_supplied wf hal hl with ⟨D, G, m', hrun, hw⟩ | ⟨hrun, hfull⟩ <;> rw [hrun]
      · rw [hw.unseen_iff wf hl]
        exact ⟨fun hd => ⟨rfl, fun _ => hd⟩, fun hq => hq.2 ⟨G.no, hw.taken.small, hw.taken.free⟩⟩
      · refine ⟨fun _ => ⟨rfl, ?_⟩, fun _ => ⟨nofun, nofun, fun _ => rfl⟩⟩
        rintro ⟨n, hn, hfree⟩
        rw [hfull n hn] at hfree
        cases hfree
  · rw [not_exists] at hlarge
    rw [pagingSplitHugePage_other hal hlarge]
    exact ⟨fun _ pde hl => absurd hl (hlarge pde), fun _ => ⟨nofun, fun _ => ⟨fun _ => rfl, hlarge⟩, nofun⟩⟩

/-! ### One large page -/

/-- A tree of three tables, with one entry in the last. -/
def oneLarge (pde : UInt64) : Mem where
  tables :=
    { cr3 := 0x1000
      entry := fun x =>
        if x = slot (Frame.of 0x1000) 0 then 0x2007
        else if x = slot (Frame.of 0x2000) 0 then 0x3007
        else if x = slot (Frame.of 0x3000) 1 then pde
        else 0 }
  used n := n < 4
  freePageCount := 0

theorem get_oneLarge (pde : UInt64) (F : Frame) (i : Index) : (oneLarge pde).tables.get F i =
    if F = Frame.of 0x1000 ∧ i = 0 then 0x2007
    else if F = Frame.of 0x2000 ∧ i = 0 then 0x3007
    else if F = Frame.of 0x3000 ∧ i = 1 then pde
    else 0 := by
  unfold oneLarge PageTables.get
  simp only [slot_inj]

theorem walk_oneLarge (hpde : next pde = none) {p : List Index} {F : Frame} (h : (oneLarge pde).tables.walk p = some F) :
    p = [] ∧ F = Frame.of 0x1000 ∨ p = [0] ∧ F = Frame.of 0x2000 ∨ p = [0, 0] ∧ F = Frame.of 0x3000 := by
  have hzero : next 0 = none := by decide
  have hroot : next 0x2007 = some (Frame.of 0x2000) := by decide
  have hmiddle : next 0x3007 = some (Frame.of 0x3000) := by decide
  have h12 : Frame.of 0x1000 ≠ Frame.of 0x2000 := by decide
  have h13 : Frame.of 0x1000 ≠ Frame.of 0x3000 := by decide
  have h23 : Frame.of 0x2000 ≠ Frame.of 0x3000 := by decide
  induction p using List.reverseRecOn generalizing F with
  | nil => exact .inl ⟨rfl, (Option.some.inj h).symm⟩
  | append_singleton p i ih =>
    cases hw : (oneLarge pde).tables.walk p with
    | none =>
      unfold PageTables.walk at h hw
      rw [Radix.walk_concat, hw] at h
      cases h
    | some G =>
      rw [walk_concat hw, get_oneLarge] at h
      rcases ih hw with ⟨rfl, rfl⟩ | ⟨rfl, rfl⟩ | ⟨rfl, rfl⟩
      · by_cases hi : i = 0
        · rw [if_pos ⟨rfl, hi⟩, hroot] at h
          exact .inr (.inl ⟨by rw [hi]; rfl, (Option.some.inj h).symm⟩)
        · simp [hi, h12, h13, hzero] at h
      · by_cases hi : i = 0
        · rw [if_neg (fun hsame => h12 hsame.1.symm), if_pos ⟨rfl, hi⟩, hmiddle] at h
          exact .inr (.inr ⟨by rw [hi]; rfl, (Option.some.inj h).symm⟩)
        · simp [hi, h12.symm, h23, hzero] at h
      · by_cases hi : i = 1
        · simp [hi, h13.symm, h23.symm, hpde] at h
        · simp [hi, h13.symm, h23.symm, hzero] at h

theorem isTree_oneLarge (hpde : next pde = none) : IsTree (oneLarge pde) where
  unshared p q F _ _ hp hq := by
    have hdistinct : Frame.of 0x1000 ≠ Frame.of 0x2000 ∧ Frame.of 0x1000 ≠ Frame.of 0x3000 ∧ Frame.of 0x2000 ≠ Frame.of 0x3000 := by
      decide
    rcases walk_oneLarge hpde hp with ⟨rfl, rfl⟩ | ⟨rfl, rfl⟩ | ⟨rfl, rfl⟩ <;>
      rcases walk_oneLarge hpde hq with ⟨rfl, hF⟩ | ⟨rfl, hF⟩ | ⟨rfl, hF⟩ <;> simp_all
  used F hF := by
    obtain ⟨p, -, hw⟩ := hF
    have hused : (oneLarge pde).used F.no = decide (F.no < 4) := rfl
    rw [hused]
    rcases walk_oneLarge hpde hw with ⟨-, rfl⟩ | ⟨-, rfl⟩ | ⟨-, rfl⟩ <;> decide
  noGigabyte p F i hlen hw := by
    intro _
    have hF : F ≠ Frame.of 0x3000 := by
      rcases walk_oneLarge hpde hw with ⟨-, rfl⟩ | ⟨-, rfl⟩ | ⟨rfl, -⟩
      · decide
      · decide
      · exact absurd hlen (by decide)
    rw [get_oneLarge, if_neg (c := F = Frame.of 0x3000 ∧ i = 1) fun hsame => hF hsame.1]
    split_ifs <;> decide

/-- A page of the kernel. -/
theorem pagingSplitHugePage_unseen_kernel : SplitsUnseen 0x200000 (oneLarge 0x200083) (pagingSplitHugePage 0x200000 (oneLarge 0x200083)) := by
  apply (pagingSplitHugePage_unseen_iff (isTree_oneLarge (by decide)) (by decide)).2
  intro pde hl
  have hleaf : leaf (oneLarge 0x200083).tables 0x200000 = some (.large 0x200083) := by decide
  obtain rfl := Leaf.large.inj (Option.some.inj (hl.symm.trans hleaf))
  refine ⟨rfl, fun _ => ?_⟩
  rw [decided_iff]
  decide

/-- A page of a process: the user bit is lost. -/
theorem not_pagingSplitHugePage_unseen : ¬ ∀ (m : Mem) (v : UInt64), IsTree m → Aligned v →
    SplitsUnseen v m (pagingSplitHugePage v m) := by
  intro hall
  have hseen := ((hall (oneLarge 0x200087) 0x200000 (isTree_oneLarge (by decide)) (by decide)).success (by decide)).1
    0x200000
  revert hseen
  decide

end Tg11Kernel.Memory
