import Tg11Kernel.Memory.Operations

/-! What lies in the frames, and giving pages back. A page is written through its mapping,
which changes one frame; a page that is unmapped and whose frame is freed leaves the rest
as it was. -/

namespace Tg11Kernel.Memory

open Lib Exec

variable {m m' m'' : Mem}

/-! ### Bytes -/

/-- The processor goes where the leaf leads. -/
theorem translate_leaf (wf : WellFormed m) (addr : UInt64) :
    (translate m.tables addr).map Translation.phys = (leaf m.tables addr).map (Leaf.phys addr) := by
  unfold translate leaf
  dsimp only
  by_cases h4 : has (m.tables.pml4e addr) PAGE_FLAG_PRESENT = true
  · by_cases h3 : has (m.tables.pdpte addr) PAGE_FLAG_PRESENT = true
    · have hhuge : has (m.tables.pdpte addr) PAGE_FLAG_HUGE = false := by
        have hpdpt := walk_pdpt wf h4
        rw [m.tables.pdpte_eq] at h3 ⊢
        exact wf.noGigabyte _ _ _ le_rfl hpdpt h3
      simp only [h4, h3, hhuge, Bool.not_true, Bool.false_eq_true, reduceCtorEq, if_false, Bool.not_eq_true']
      split_ifs <;> rfl
    · simp [h4, h3]
  · simp [h4]

/-- The low bits of an address in a page. -/
theorem phys_small (addr e : UInt64) :
    Leaf.phys addr (.small e) &&& ~~~0xFFF = e &&& PAGE_ADDR_MASK ∧ (Leaf.phys addr (.small e) &&& 0xFFF).toNat = addr.toNat % 4096 := by
  have h1 : PAGE_ADDR_MASK &&& ~~~0xFFF = PAGE_ADDR_MASK := by decide
  have h2 : (MEMORY_PAGE_SIZE - 1) &&& ~~~0xFFF = 0 := by decide
  have h3 : PAGE_ADDR_MASK &&& 0xFFF = 0 := by decide
  have h4 : (MEMORY_PAGE_SIZE - 1) &&& 0xFFF = 0xFFF := by decide
  have hmask : (0xFFF : UInt64).toNat = 2 ^ 12 - 1 := rfl
  unfold Leaf.phys
  dsimp only
  constructor
  · rw [and_or, UInt64.and_assoc, UInt64.and_assoc, h1, h2, UInt64.and_zero, UInt64.or_zero]
  · rw [and_or, UInt64.and_assoc, UInt64.and_assoc, h3, h4, UInt64.and_zero, UInt64.zero_or]
    exact lowMask_toNat _ hmask

theorem aligned_iff (addr : UInt64) : Aligned addr ↔ addr.toNat % 4096 = 0 := by
  have hmask : (MEMORY_PAGE_SIZE - 1).toNat = 2 ^ 12 - 1 := rfl
  unfold Aligned
  rw [← UInt64.toNat_inj, lowMask_toNat _ hmask]
  rfl

theorem maskDown_toNat (v : UInt64) : (v &&& ~~~4095).toNat = v.toNat / 4096 * 4096 :=
  andMask_toNat v (by decide : 12 ≤ 64) (by decide)

variable {addr page e : UInt64} {off : ℕ} {F : Frame} {pages : List UInt64} {own : List ℕ}

theorem phys_small_aligned (h : Aligned addr) (e : UInt64) : Leaf.phys addr (.small e) = (Frame.of e).1 := by
  unfold Leaf.phys Frame.of
  dsimp only
  rw [h, UInt64.or_zero]

theorem frameByte_eq (t : PageTables) (F : Frame) (h : off < 4096) :
    t.frameByte F.1 off = byteOf (t.get F ⟨off / 8, by omega⟩).toNat (off % 8) := rfl

theorem frameByte_congr {t t' : PageTables} (h : ∀ i, t'.get F i = t.get F i) (hoff : off < 4096) :
    t'.frameByte F.1 off = t.frameByte F.1 off := by
  rw [frameByte_eq _ _ hoff, frameByte_eq _ _ hoff, h]

theorem frameByte_storeBytes (m : Mem) (F : Frame) (off n : ℕ) (f : ℕ → UInt8) {k : ℕ} (hk : k < 4096) :
    (m.storeBytes F.1 off n f).tables.frameByte F.1 k = if off ≤ k ∧ k < off + n then f (k - off) else m.tables.frameByte F.1 k := by
  have hlt := ofBytes_lt (fun j => if off ≤ 8 * (k / 8) + j ∧ 8 * (k / 8) + j < off + n then f (8 * (k / 8) + j - off)
      else byteOf (m.tables.get F ⟨k / 8, by omega⟩).toNat j) 8
  have hdm := Nat.div_add_mod k 8
  rw [frameByte_eq _ _ hk, frameByte_eq _ _ hk]
  unfold Mem.storeBytes PageTables.storeBytes PageTables.get
  dsimp only
  rw [if_pos ((in_frame_iff F F _).2 rfl), slot_sub_toNat]
  dsimp only
  unfold PageTables.get at hlt
  rw [UInt64.toNat_ofNat_of_lt' (by unfold UInt64.size; exact hlt), byteOf_ofBytes _ (Nat.mod_lt k (by decide)), hdm]

/-- Bytes of one frame were replaced. -/
structure Writes (m m' : Mem) (F : Frame) : Prop where
  used : m'.used = m.used
  root : m'.tables.root = m.tables.root
  frame : ∀ G i, G ≠ F → m'.tables.get G i = m.tables.get G i

theorem Writes.sameTree (h : Writes m m' F) (hF : ¬ m.tables.Table F) : SameTree m.tables m'.tables := by
  apply SameTree.of_eq h.root
  intro G i hG
  apply h.frame
  rintro rfl
  exact hF hG

theorem Writes.wf (h : Writes m m' F) (wf : WellFormed m) (hF : ¬ m.tables.Table F) : WellFormed m' :=
  (h.sameTree hF).wellFormed wf (fun G hG => by rw [h.used]; exact (wf.used G hG).2) (by rw [h.used]; exact wf.zero)

theorem Writes.sameLeaves (h : Writes m m' F) (wf : WellFormed m) (hF : ¬ m.tables.Table F) : SameLeaves m m' :=
  fun a => (h.sameTree hF).leaf wf (h.wf wf hF) a

theorem writes_storeBytes (m : Mem) (F : Frame) (off n : ℕ) (f : ℕ → UInt8) : Writes m (m.storeBytes F.1 off n f) F where
  used := rfl
  root := rfl
  frame _ i hG := get_storeBytes_ne m hG i off n f

/-- A write through a small leaf; a page that is not canonical faults. -/
theorem writePage_apply (wf : WellFormed m) (hal : Aligned page) (h : leaf m.tables page = some (.small e)) (off n : ℕ)
    (f : ℕ → UInt8) :
    writePage page off n f m = if Canonical page ∧ off + n ≤ 4096 then (.ok (), m.storeBytes (Frame.of e).1 off n f) else (.hang, m) := by
  have htr := translate_leaf wf page
  rw [h, Option.map_some, phys_small_aligned hal] at htr
  obtain ⟨tr, htr, hphys⟩ := Option.map_eq_some_iff.1 htr
  unfold writePage
  rw [htr, ← hphys]

/-- The byte read at an address with a small leaf. -/
theorem readByte_small (wf : WellFormed m) (hc : Canonical addr) (h : leaf m.tables addr = some (.small e)) :
    readByte m.tables addr = some (m.tables.frameByte (Frame.of e).1 (addr.toNat % 4096)) := by
  have htr := translate_leaf wf addr
  rw [h, Option.map_some] at htr
  obtain ⟨tr, htr, hphys⟩ := Option.map_eq_some_iff.1 htr
  obtain ⟨hhigh, hlow⟩ := phys_small addr e
  unfold readByte
  rw [if_pos hc, htr, Option.map_some, hphys, hhigh, hlow]
  rfl

/-! ### Giving back -/

/-- The pages lost their leaves and the frames were freed. -/
structure Shrinks (pages : List UInt64) (own : List ℕ) (m m' : Mem) : Prop where
  wf : WellFormed m'
  used : ∀ n, m'.used n = true ↔ m.used n = true ∧ n ∉ own
  tables : ∀ F, m'.tables.Table F ↔ m.tables.Table F
  gone : ∀ a, (∃ v ∈ pages, place a = place v) → leaf m'.tables a = none
  kept : ∀ a, (∀ v ∈ pages, place a ≠ place v) → leaf m'.tables a = leaf m.tables a
  data : ∀ F, ¬ m.tables.Table F → ∀ i, m'.tables.get F i = m.tables.get F i

namespace Shrinks

theorem refl (wf : WellFormed m) : Shrinks [] [] m m where
  wf := wf
  used n := by simp
  tables _ := Iff.rfl
  gone a h := by
    obtain ⟨v, hv, -⟩ := h
    cases hv
  kept _ _ := rfl
  data _ _ _ := rfl

theorem trans {pages pages' : List UInt64} {own own' : List ℕ} (h : Shrinks pages own m m') (h' : Shrinks pages' own' m' m'') :
    Shrinks (pages ++ pages') (own ++ own') m m'' where
  wf := h'.wf
  used n := by
    rw [h'.used, h.used, List.mem_append, not_or, and_assoc]
  tables F := (h'.tables F).trans (h.tables F)
  gone a := by
    rintro ⟨v, hv, ha⟩
    by_cases hlast : ∃ v ∈ pages', place a = place v
    · exact h'.gone a hlast
    · rcases List.mem_append.1 hv with hv | hv
      · rw [h'.kept a fun w hw heq => hlast ⟨w, hw, heq⟩]
        exact h.gone a ⟨v, hv, ha⟩
      · exact absurd ⟨v, hv, ha⟩ hlast
  kept a ha := by
    rw [h'.kept a fun v hv => ha v (List.mem_append_right _ hv)]
    exact h.kept a fun v hv => ha v (List.mem_append_left _ hv)
  data F hF i := (h'.data F (fun hF' => hF ((h.tables F).1 hF')) i).trans (h.data F hF i)

end Shrinks

/-- A frame that may be freed: it was handed out and holds no table. -/
structure Owned (m : Mem) (F : Frame) : Prop where
  data : Data m F
  small : F.no < MEMORY_MAX_PAGES
  nonzero : F.1 ≠ 0

theorem Frame.no_ne_zero (h : F.1 ≠ 0) : F.no ≠ 0 := by
  intro hzero
  have hnat := F.toNat_no
  rw [hzero] at hnat
  exact h (UInt64.toNat_inj.1 hnat)

theorem shrinks_freeFrame (wf : WellFormed m) (h : Owned m F) : Shrinks [] [F.no] m (m.freeFrame F.no) := by
  have hused (n : ℕ) : (m.freeFrame F.no).used n = if n = F.no then false else m.used n := freeFrame_used h.small n
  have hsame : SameTree m.tables (m.freeFrame F.no).tables := by
    rw [freeFrame_tables]
    exact SameTree.of_eq rfl fun _ _ _ => rfl
  have hwf : WellFormed (m.freeFrame F.no) := by
    apply hsame.wellFormed wf
    · intro G hG
      rw [hused, if_neg, (wf.used G hG).2]
      intro heq
      exact h.data.2 (Frame.ext_no heq ▸ hG)
    · rw [hused, if_neg (Frame.no_ne_zero h.nonzero).symm, wf.zero]
  refine ⟨hwf, ?_, ?_, ?_, ?_, ?_⟩
  · intro n
    rw [hused, List.mem_singleton]
    split_ifs with hn <;> simp [hn]
  · intro G
    rw [freeFrame_tables]
  · rintro a ⟨v, hv, -⟩
    cases hv
  · intro a _
    rw [freeFrame_tables]
  · intro G _ i
    rw [freeFrame_tables]

theorem shrinks_unmapPage (wf : WellFormed m) (hal : Aligned page) (h : ∀ pde, leaf m.tables page ≠ some (.large pde)) :
    Shrinks [page] [] m (m.unmapPage page) := by
  cases hl : leaf m.tables page with
  | none =>
    rw [unmapPage_of_not_small wf (by simp [hl])]
    refine ⟨wf, by simp, fun _ => Iff.rfl, ?_, fun _ _ => rfl, fun _ _ _ => rfl⟩
    rintro a ⟨v, hv, ha⟩
    rw [List.mem_singleton.1 hv] at ha
    rw [leaf_congr wf ha, hl]
  | some l =>
    cases l with
    | large pde => exact absurd hl (h pde)
    | small e =>
      have hmapped := mapped_of_leaf wf hl
      obtain ⟨F, hw, hslot, -, -⟩ := (mapped_iff wf page).1 hmapped
      have heq : m.unmapPage page = m.setEntry (slot F (index 12 page)) 0 := by
        unfold Mem.unmapPage
        rw [if_pos ⟨hal, hmapped⟩, hslot]
      have hsets := setsEntry_setEntry 0 hw
      have hleaf := setsLeaf_setEntry wf 0 hw
      rw [heq]
      refine ⟨hleaf.grows.wf, ?_, hsets.table wf, ?_, ?_, ?_⟩
      · intro n
        simp [Mem.setEntry]
      · rintro a ⟨v, hv, ha⟩
        rw [List.mem_singleton.1 hv] at ha
        exact hleaf.leaf a ha
      · intro a ha
        exact hleaf.others a (ha page (List.mem_singleton_self page))
      · intro G hG i
        apply hsets.frame
        left
        rintro rfl
        exact hG (table_of_walk (path_le page) hw)

theorem Owned.shrinks (h : Owned m F) (hs : Shrinks pages own m m') (hF : F.no ∉ own) :
    Owned m' F :=
  ⟨⟨(hs.used _).2 ⟨h.data.1, hF⟩, fun ht => h.data.2 ((hs.tables F).1 ht)⟩, h.small, h.nonzero⟩

theorem Owned.grows (h : Owned m F) (hg : Grows own m m') : Owned m' F :=
  ⟨hg.keepsData h.data, h.small, h.nonzero⟩

/-- A page is unmapped and its frame freed. -/
theorem shrinks_drop (wf : WellFormed m) (hal : Aligned page)
    (h : ∀ pde, leaf m.tables page ≠ some (.large pde)) (hF : Owned m F) :
    Shrinks [page] [F.no] m ((m.unmapPage page).freeFrame F.no) := by
  have hunmap := shrinks_unmapPage wf hal h
  exact hunmap.trans (shrinks_freeFrame hunmap.wf (hF.shrinks hunmap (by simp)))

/-- Frames taken and some of them given back. -/
theorem Grows.shrinks_filter {own' : List ℕ} (h : Grows own m m') (hfree : ∀ n ∈ own', m.used n = false)
    (hs : Shrinks pages own' m' m'') : Grows (own.filter fun n => n ∉ own') m m'' where
  wf := hs.wf
  used n hn := by
    refine (hs.used n).2 ⟨h.used n hn, fun hmem => ?_⟩
    rw [hfree n hmem] at hn
    cases hn
  tables F hF := (hs.tables F).2 (h.tables F hF)
  fresh n hn := by
    obtain ⟨hn, hmem⟩ := (hs.used n).1 hn
    rcases h.fresh n hn with hn | ⟨F, hF, hno⟩ | hn
    · exact .inl hn
    · exact .inr (.inl ⟨F, (hs.tables F).2 hF, hno⟩)
    · exact .inr (.inr (List.mem_filter.2 ⟨hn, by simpa using hmem⟩))
  data F hF := by
    have hF' := h.keepsData hF
    exact ⟨fun ht => hF'.2 ((hs.tables F).1 ht), fun i => (hs.data F hF'.2 i).trans ((h.data F hF).2 i)⟩

theorem Grows.shrinks (h : Grows own m m') (hfree : ∀ n ∈ own, m.used n = false)
    (hs : Shrinks pages own m' m'') : Grows [] m m'' := by
  have hall := h.shrinks_filter hfree hs
  rwa [List.filter_eq_nil_iff.2 (by simp)] at hall

/-! ### A frame of one's own -/

theorem Taken.owned (h : Taken m m' F) (wf : WellFormed m) : Owned m' F :=
  ⟨⟨h.used_self, by rw [h.tables]; exact h.notTable wf⟩, h.small, h.nonzero⟩

theorem Grows.writes {m₀ : Mem} (h : Grows own m₀ m) (hw : Writes m m' F) (hF : ¬ m.tables.Table F)
    (hdata : ¬ Data m₀ F) : Grows own m₀ m' where
  wf := hw.wf h.wf hF
  used n hn := by
    rw [hw.used]
    exact h.used n hn
  tables G hG := ((hw.sameTree hF).table G).2 (h.tables G hG)
  fresh n hn := by
    rw [hw.used] at hn
    exact (h.fresh n hn).imp id (Or.imp (fun ⟨G, hG, hno⟩ => ⟨G, ((hw.sameTree hF).table G).2 hG, hno⟩) id)
  data G hG := by
    refine ⟨fun hG' => (h.data G hG).1 (((hw.sameTree hF).table G).1 hG'), fun i => ?_⟩
    rw [hw.frame G i, (h.data G hG).2 i]
    rintro rfl
    exact hdata hG

theorem Owned.writes {G : Frame} (h : Owned m G) (hw : Writes m m' F) (hF : ¬ m.tables.Table F) : Owned m' G :=
  ⟨⟨by rw [hw.used]; exact h.data.1, fun ht => h.data.2 (((hw.sameTree hF).table G).1 ht)⟩, h.small, h.nonzero⟩

theorem pageEntry_pageEntry (phys flags flags' : UInt64) : pageEntry (pageEntry phys flags) flags' = pageEntry phys flags' := by
  have heq := pageEntry_phys phys flags
  unfold pageEntry at heq ⊢
  rw [heq]

theorem Frame.of_pageEntry (F : Frame) (flags : UInt64) : Frame.of (pageEntry F.1 flags) = F := by
  apply Subtype.ext
  unfold Frame.of
  dsimp only
  rw [pageEntry_phys, F.2]

end Tg11Kernel.Memory
