import Tg11Kernel.Elf.Loading

/-! Mappings in the way of a load. The loader takes a mapping that it finds at one of its
pages away, whatever it is; a load that fails afterwards does not bring it back. What a
failed load leaves is exact otherwise. -/

namespace Tg11Kernel.Elf

open Lib Exec Memory

variable {img : Image} {bias : UInt64} {m m' m₁ m₂ : Mem} {k k' : Kernel} {done rest l : List (Phdr × UInt64)} {p : Phdr × UInt64}

/-- The pages of an image, where they go. -/
def Image.pages (img : Image) : List (Phdr × UInt64) := img.loadOrder (loadBias img)

theorem aligned_of_mem_pages (hp : p ∈ img.pages) : Aligned p.2 := aligned_of_mem_loadOrder hp

/-! ### The outcome of a load -/

/-- The range of the segments of an image whose headers can be read. -/
def Image.loadRange (img : Image) : LoadRange := img.phdrs.foldl (fun r i => widenRange r (img.segment i)) ⟨0, 0⟩

theorem collectLoadRange_eq (h : Segments img) : collectLoadRange img = .ok img.loadRange := by
  have hgen : ∀ (l : List ℕ) (r : LoadRange), (∀ i ∈ l, i < img.ehdr.phnum.toNat) →
      l.foldlM (fun r i => do
        let phdr ← img.readPhdr i
        pure (widenRange r phdr)) r = (.ok (l.foldl (fun r i => widenRange r (img.segment i)) r) : Read LoadRange) := by
    intro l
    induction l with
    | nil => exact fun r _ => rfl
    | cons i l ih =>
      intro r hl
      rw [List.foldlM_cons, readPhdr_eq h (hl i List.mem_cons_self), List.foldl_cons]
      exact ih _ fun j hj => hl j (List.mem_cons_of_mem _ hj)
  exact hgen img.phdrs ⟨0, 0⟩ fun i hi => mem_phdrs.1 hi

/-- The slots after a load. -/
def imagesAfter (img : Image) (images : ActiveImages) : ActiveImages := registerActiveImage images (activeImageOf img img.loadRange)

/-- The three ends of a load behind the checks. -/
inductive LoadEnd (img : Image) (k : Kernel) : Outcome (Except ElfError ElfExec) × Kernel → Prop where
  | loaded {mapped : MappedPages} {m' : Mem} (run : loadPages img (loadBias img) img.pages k.mem = (.ok mapped, m')) :
      LoadEnd img k (.ok (.ok (elfExecOf img img.loadRange)), { mem := m', images := imagesAfter img k.images })
  | stopped {m' : Mem} (run : loadPages img (loadBias img) img.pages k.mem = (.fail, m')) :
      LoadEnd img k (.ok (.error .map), { k with mem := m' })
  | fault {m' : Mem} (run : loadPages img (loadBias img) img.pages k.mem = (.hang, m')) : LoadEnd img k (.hang, { k with mem := m' })

theorem elfLoad_ends (h : validateForLoad img = .ok ()) (k : Kernel) : LoadEnd img k (elfLoad img k) := by
  have hs := (valid_of_validateForLoad h).segments
  unfold elfLoad
  rw [h, loadSegments_eq hs, collectLoadRange_eq hs]
  dsimp only
  rcases hrun : loadPages img (loadBias img) (img.loadOrder (loadBias img)) k.mem with ⟨mapped | _ | _, m'⟩
  · exact .loaded hrun
  · exact .stopped hrun
  · exact .fault hrun

theorem elfLoad_refused (h : validateForLoad img ≠ .ok ()) (k : Kernel) : ∃ e, elfLoad img k = (.ok (.error e), k) := by
  have hwithin := validateForLoad_within img
  unfold elfLoad
  rcases hv : validateForLoad img with (_ | e) | _
  · rw [hv] at hwithin
    exact absurd rfl hwithin.of_error
  · exact ⟨e, rfl⟩
  · exact absurd hv h

/-- A load that succeeds, as a run over the pages. -/
theorem elfLoad_ok {x : ElfExec} (h : elfLoad img k = (.ok (.ok x), k')) :
    validateForLoad img = .ok () ∧ x = elfExecOf img img.loadRange ∧
      ∃ mapped, loadPages img (loadBias img) img.pages k.mem = (.ok mapped, k'.mem) ∧ k'.images = imagesAfter img k.images := by
  by_cases hv : validateForLoad img = .ok ()
  · have hend := elfLoad_ends hv k
    rw [h] at hend
    cases hend with
    | loaded run => exact ⟨hv, rfl, _, run, rfl⟩
  · obtain ⟨e, he⟩ := elfLoad_refused hv k
    rw [h] at he
    cases he

theorem elfLoad_of_run (hv : validateForLoad img = .ok ()) (hrun : (loadPages img (loadBias img) img.pages k.mem).1 = .ok mapped) :
    ∃ k', elfLoad img k = (.ok (.ok (elfExecOf img img.loadRange)), k') := by
  have hend := elfLoad_ends hv k
  revert hend
  generalize elfLoad img k = out
  rintro (⟨run⟩ | ⟨run⟩ | ⟨run⟩) <;> rw [run] at hrun
  · exact ⟨_, rfl⟩
  · cases hrun
  · cases hrun

/-! ### Failed loads -/

/-- Nothing is left of a load but page tables: every address leads to the frame it did, with
the same flags, the frames of pages are free again, and the frames in use hold what they did. -/
structure Untouched (k k' : Kernel) : Prop where
  leaves : SameLeaves k.mem k'.mem
  frames : Grows [] k.mem k'.mem
  images : k'.images = k.images

theorem loadPages_stopped (wf : WellFormed m) (h : loadPages img (loadBias img) img.pages m = (.fail, m')) :
    Stopped img (loadBias img) img.pages m m' :=
  (loadPages_post wf fun _ hp => aligned_of_mem_pages hp).fail m' h

/-- A failed load undoes itself if and only if it has not taken a mapping away. -/
theorem elfLoad_atomic_iff (wf : WellFormed k.mem) {e : ElfError} (h : elfLoad img k = (.ok (.error e), k')) :
    Untouched k k' ↔ (validateForLoad img = .ok () → Undisturbed img (loadBias img) k.mem img.pages) := by
  by_cases hv : validateForLoad img = .ok ()
  swap
  · obtain ⟨e', he⟩ := elfLoad_refused hv k
    rw [h] at he
    obtain ⟨-, rfl⟩ := Prod.mk.inj he
    exact ⟨fun _ hv' => absurd hv' hv, fun _ => ⟨fun _ => rfl, Grows.refl wf, rfl⟩⟩
  have hend := elfLoad_ends hv k
  rw [h] at hend
  cases hend with
  | stopped run =>
    have hstopped := loadPages_stopped wf run
    constructor
    · intro hu _ done p rest hl hd
      have hal : ∀ q ∈ done, Aligned q.2 := fun q hq => aligned_of_mem_pages (by rw [hl]; exact List.mem_append_left _ hq)
      apply hd.present wf hal
      rw [← hu.leaves]
      exact hstopped.lost hl hd
    · exact fun hu => ⟨hstopped.sameLeaves wf (hu hv), hstopped.grows, rfl⟩

/-! ### Mappings that are live -/

/-- The page has an entry of its own. -/
def SmallMapped (m : Mem) (page : UInt64) : Prop := ∃ e, leaf m.tables page = some (.small e)

/-- If one of its pages is mapped by an entry of its own, the image is refused, and every such
page leads where it did. -/
def RefusesLive (img : Image) (k : Kernel) : Prop :=
  (∃ p ∈ img.pages, SmallMapped k.mem p.2) →
    ∃ e k', elfLoad img k = (.ok (.error e), k') ∧ ∀ p ∈ img.pages, SmallMapped k.mem p.2 → leaf k'.mem.tables p.2 = leaf k.mem.tables p.2

/-- The loader does not take the first such page: it has stopped before, or the page is mapped
to frame 0, which `paging_get_phys` does not tell from a page that is not mapped. -/
def SparesLive (img : Image) (m : Mem) : Prop :=
  ∀ done p rest, img.pages = done ++ p :: rest → SmallMapped m p.2 → (∀ q ∈ done, ¬ SmallMapped m q.2) →
    (loadPages img (loadBias img) done m).1 = .fail ∨
      (loadPages img (loadBias img) done m).1 ≠ .hang ∧ pagingGetPhys m.tables p.2 = 0

/-- The first page with an entry of its own. -/
theorem exists_first_live (h : ∃ p ∈ l, SmallMapped m p.2) :
    ∃ done p rest, l = done ++ p :: rest ∧ SmallMapped m p.2 ∧ ∀ q ∈ done, ¬ SmallMapped m q.2 := by
  induction l with
  | nil =>
    obtain ⟨p, hp, -⟩ := h
    exact absurd hp List.not_mem_nil
  | cons q l ih =>
    by_cases hq : SmallMapped m q.2
    · exact ⟨[], q, l, rfl, hq, by simp⟩
    · obtain ⟨p, hp, hlive⟩ := h
      have hp' : p ∈ l := (List.mem_cons.1 hp).resolve_left (by rintro rfl; exact hq hlive)
      obtain ⟨done, p', rest, rfl, hlive', hdone⟩ := ih ⟨p, hp', hlive⟩
      exact ⟨q :: done, p', rest, rfl, hlive', by simpa [hq] using hdone⟩

theorem SmallMapped.congr (wf : WellFormed m) {a b : UInt64} (h : SmallMapped m a) (hplace : place a = place b) : SmallMapped m b := by
  obtain ⟨e, he⟩ := h
  exact ⟨e, by rw [← leaf_congr wf hplace, he]⟩

theorem SmallMapped.apart (wf : WellFormed m) {a : UInt64} (h : SmallMapped m a) (hdone : ∀ q ∈ done, ¬ SmallMapped m q.2) :
    ∀ q ∈ done, place a ≠ place q.2 := fun q hq heq => hdone q hq (h.congr wf heq)

/-- The loader takes the mapping of the page that comes next. -/
theorem displaces_live (wf : WellFormed m) (hal : ∀ q ∈ done, Aligned q.2) {page : UInt64} (hpage : Aligned page)
    (hrun : loadPages img bias done m = (.ok mapped, m₁)) (hdone : ∀ q ∈ done, ¬ SmallMapped m q.2) (hlive : SmallMapped m page)
    (hphys : pagingGetPhys m.tables page ≠ 0) : Displaces img bias m done page := by
  have hne := hlive.apart wf hdone
  obtain ⟨e, he⟩ := hlive
  have hleaf := ((loadPages_post wf hal).ok _ _ hrun).1.leaf_eq hne he
  refine ⟨mapped, m₁, hrun, hne, ?_, ?_⟩
  · rw [pagingGetPhys_eq, hleaf, ← he, ← pagingGetPhys_eq]
    exact hphys
  · rw [pagingSplitHugePage_other hpage (by simp [hleaf])]

theorem elfLoad_refuses_iff (wf : WellFormed k.mem) :
    RefusesLive img k ↔ (validateForLoad img = .ok () → SparesLive img k.mem) := by
  by_cases hv : validateForLoad img = .ok ()
  swap
  · refine ⟨fun _ hv' => absurd hv' hv, fun _ _ => ?_⟩
    obtain ⟨e, he⟩ := elfLoad_refused hv k
    exact ⟨e, k, he, fun _ _ _ => rfl⟩
  have hend := elfLoad_ends hv k
  have hcall {m' : Mem} (hrun : loadPages img (loadBias img) img.pages k.mem = (.fail, m')) :
      elfLoad img k = (.ok (.error .map), { k with mem := m' }) := by
    revert hend
    generalize elfLoad img k = out
    rintro (⟨run⟩ | ⟨run⟩ | ⟨run⟩) <;> rw [hrun] at run <;> cases run
    rfl
  constructor
  · intro h _ done p rest hl hlive hdone
    have hal : ∀ q ∈ done, Aligned q.2 := fun q hq => aligned_of_mem_pages (by rw [hl]; exact List.mem_append_left _ hq)
    have hpmem : p ∈ img.pages := by simp [hl]
    obtain ⟨e, k', hrun, hkept⟩ := h ⟨p, hpmem, hlive⟩
    rw [hrun] at hend
    cases hend with
    | stopped run =>
      rcases hpre : loadPages img (loadBias img) done k.mem with ⟨mapped | _ | _, m₁⟩
      · refine .inr ⟨nofun, ?_⟩
        by_contra hphys
        have hd := displaces_live wf hal (aligned_of_mem_pages hpmem) hpre hdone hlive hphys
        have hlost := (loadPages_stopped wf run).lost hl hd
        obtain ⟨e, he⟩ := hlive
        have hleaf := hkept p hpmem ⟨e, he⟩
        rw [he] at hleaf
        exact absurd (hlost.symm.trans hleaf) nofun
      · exact .inl rfl
      · rw [hl, loadPages_append_hang hpre] at run
        cases run
  · intro h hex
    obtain ⟨done, p, rest, hl, hlive, hdone⟩ := exists_first_live hex
    have hal : ∀ q ∈ done, Aligned q.2 := fun q hq => aligned_of_mem_pages (by rw [hl]; exact List.mem_append_left _ hq)
    have hpmem : p ∈ img.pages := by simp [hl]
    rcases hpre : loadPages img (loadBias img) done k.mem with ⟨mapped | _ | _, m₁⟩
    · have hzero : pagingGetPhys k.mem.tables p.2 = 0 := by
        rcases h hv done p rest hl hlive hdone with hfail | ⟨-, hzero⟩
        · rw [hpre] at hfail
          cases hfail
        · exact hzero
      -- the loader comes to the page, cannot map it, and gives all back
      have hloaded := ((loadPages_post wf hal).ok _ _ hpre).1
      have hpage := aligned_of_mem_pages hpmem
      obtain ⟨e, he⟩ := hlive
      have hleaf := hloaded.leaf_eq (SmallMapped.apart wf ⟨e, he⟩ hdone) he
      have hzero' : pagingGetPhys m₁.tables p.2 = 0 := by rw [pagingGetPhys_eq, hleaf, ← he, ← pagingGetPhys_eq, hzero]
      obtain ⟨m', hfail⟩ := loadPage_zero hloaded.grows.wf img p.1 (loadBias img) mapped hpage hzero' (by simp [hleaf])
      obtain ⟨m₂, rfl, hf⟩ := (loadPage_post hloaded.grows.wf img p.1 (loadBias img) mapped hpage).fail _ hfail
      have hrun := loadPages_append_fail ((loadPages_snoc hpre p).trans hfail) rest
      rw [List.append_assoc, List.singleton_append, ← hl] at hrun
      refine ⟨.map, _, hcall hrun, fun q _ hq => ?_⟩
      have hapart := hq.apart wf hdone
      obtain ⟨e', he'⟩ := hq
      rw [hloaded.leaf_rolledBack hf hapart, hf.same hzero', hloaded.leaf_eq hapart he', he']
    · have hrun := loadPages_append_fail hpre (p :: rest)
      rw [← hl] at hrun
      refine ⟨.map, _, hcall hrun, fun q _ hq => ?_⟩
      have hapart := hq.apart wf hdone
      obtain ⟨e', he'⟩ := hq
      rw [((loadPages_post wf hal).fail _ hpre).small hapart he', he']
    · rcases h hv done p rest hl hlive hdone with hfail | ⟨hhang, -⟩
      · rw [hpre] at hfail
        cases hfail
      · rw [hpre] at hhang
        exact absurd rfl hhang

/-! ### One segment -/

def segmentHeader (flags offset vaddr filesz memsz : ℕ) : List UInt8 :=
  littleEndian 4 1 ++ littleEndian 4 flags ++ littleEndian 8 offset ++ littleEndian 8 vaddr ++ littleEndian 8 0 ++
    littleEndian 8 filesz ++ littleEndian 8 memsz ++ littleEndian 8 1

/-- An image of program headers only. -/
def programImage (base : UInt64) (type entry : ℕ) (headers : List (List UInt8)) : Image :=
  let ident := elfMagic ++ [ELFCLASS64, ELFDATA2LSB, EV_CURRENT] ++ List.replicate 9 0
  let ehdr := littleEndian 2 type ++ littleEndian 2 62 ++ littleEndian 4 1 ++ littleEndian 8 entry ++ littleEndian 8 64 ++
    littleEndian 8 0 ++ littleEndian 4 0 ++ littleEndian 2 64 ++ littleEndian 2 56 ++ littleEndian 2 headers.length ++
    littleEndian 2 64 ++ littleEndian 2 0 ++ littleEndian 2 0
  Image.ofBytes base (ident ++ ehdr ++ headers.flatten)

/-- One page, with the header table of the image in it. -/
def onePage : Image := programImage 0x10000 2 0x400000 [segmentHeader 7 0 0x400000 64 64]

theorem validateForLoad_onePage : validateForLoad onePage = .ok () := by decide +kernel

theorem pages_of_single (hphdrs : img.phdrs = [0]) (hloads : (img.segment 0).Loads) {window : List UInt64}
    (hwindow : windowPages (img.segment 0) (loadBias img) = window) : img.pages = window.map fun page => (img.segment 0, page) := by
  unfold Image.pages Image.loadOrder
  rw [hphdrs]
  simp [hwindow, hloads]

theorem pages_onePage : onePage.pages = [(onePage.segment 0, 0x400000)] :=
  @pages_of_single onePage (by decide) (by decide) [0x400000] (by decide)

/-- The page of the segment, mapped to frame 3. -/
def liveMem : Mem := (pagingMapPage 0x400000 0x3000 7 bare).2

theorem liveMem_run : (pagingMapPage 0x400000 0x3000 7 bare).1 = .ok () := by decide

theorem liveMem_sets : SetsLeaf 0x400000 (some (.small (pageEntry 0x3000 7))) bare liveMem :=
  ((pagingMapPage_post wellFormed_bare 0x400000 0x3000 7).ok () _ (Prod.ext liveMem_run rfl)).2

theorem smallMapped_liveMem : SmallMapped liveMem 0x400000 := ⟨_, liveMem_sets.leaf 0x400000 rfl⟩

/-- The mapping is replaced. -/
theorem not_refusesLive : ¬ ∀ (img : Image) (k : Kernel), WellFormed k.mem → RefusesLive img k := by
  intro h
  have hrefuses := (elfLoad_refuses_iff liveMem_sets.grows.wf).1 (h onePage ⟨liveMem, []⟩ liveMem_sets.grows.wf)
  have hspares := hrefuses validateForLoad_onePage [] _ [] pages_onePage smallMapped_liveMem (by simp)
  rcases hspares with hfail | ⟨-, hzero⟩
  · cases hfail
  · have hphys : pagingGetPhys liveMem.tables 0x400000 ≠ 0 := by decide
    exact hphys hzero

/-- Where nothing is mapped the claim holds. -/
theorem elfLoad_refuses_bare : RefusesLive onePage ⟨bare, []⟩ ↔ (validateForLoad onePage = .ok () → SparesLive onePage bare) :=
  elfLoad_refuses_iff wellFormed_bare

/-! ### No frame is free -/

theorem mapFresh_full (h : ∀ n, m.used n = true) (mapped : MappedPages) (page : UInt64) :
    mapFresh mapped page m = (.fail, rolledBack mapped m) := by
  have halloc : physAllocPage m = (.ok 0, m) := by
    rcases physAllocPage_cases (h 0) with halloc | ⟨n, -, -, hfree, -⟩
    · exact halloc
    · rw [h n] at hfree
      cases hfree
  unfold mapFresh
  rw [bind_ok halloc]
  rfl

/-- Room is made without a frame where no large page is split. -/
theorem makeRoom_notLarge (wf : WellFormed m) (mapped : MappedPages) {page : UInt64} (hal : Aligned page) (h : NotLarge page m) :
    ∃ m', makeRoom mapped page m = (.ok (), m') ∧ Grows [] m m' := by
  unfold makeRoom
  rw [bind_ok (gets_apply _ _)]
  by_cases hphys : pagingGetPhys m.tables page = 0
  · rw [if_neg (not_not.2 hphys)]
    exact ⟨m, rfl, Grows.refl wf⟩
  have hunmap : pagingUnmapPage page m = (.ok (), m.unmapPage page) := rfl
  rw [if_pos hphys, bind_ok (orElse_ok (pagingSplitHugePage_other hal h)), bind_ok hunmap, bind_ok (gets_apply _ _)]
  cases hl : leaf m.tables page with
  | none => exact absurd (by rw [pagingGetPhys_eq, hl]; rfl) hphys
  | some l =>
    cases l with
    | large pde => exact absurd hl (h pde)
    | small e =>
      have hsets := unmapPage_sets wf hal hl
      have hzero : pagingGetPhys (m.unmapPage page).tables page = 0 := by
        rw [pagingGetPhys_eq, hsets.leaf page rfl]
        rfl
      rw [require_pos hzero]
      exact ⟨_, orElse_ok (pure_apply _ _), hsets.grows⟩

/-- The load fails whether the page is mapped or not. -/
theorem elfLoad_full (wf : WellFormed m) (h : ∀ n, m.used n = true) (hsmall : NotLarge 0x400000 m) :
    ∃ m', elfLoad onePage ⟨m, []⟩ = (.ok (.error .map), ⟨m', []⟩) := by
  obtain ⟨m₁, hroom, hgrows⟩ := @makeRoom_notLarge _ wf [] 0x400000 (by decide) hsmall
  have hrun : loadPages onePage (loadBias onePage) onePage.pages m = (.fail, rolledBack [] m₁) := by
    unfold loadPages loadPage
    rw [pages_onePage, List.foldlM_cons]
    apply bind_fail
    rw [bind_ok hroom, bind_fail (mapFresh_full (fun n => hgrows.used n (h n)) _ _)]
  have hend := elfLoad_ends validateForLoad_onePage ⟨m, []⟩
  revert hend
  generalize elfLoad onePage ⟨m, []⟩ = out
  rintro (⟨run⟩ | ⟨run⟩ | ⟨run⟩) <;> rw [hrun] at run <;> cases run
  exact ⟨_, rfl⟩

/-- All frames are used. -/
def full (m : Mem) : Mem := { m with used := fun _ => true }

theorem wellFormed_full (wf : WellFormed m) : WellFormed (full m) :=
  (SameTree.of_eq rfl fun _ _ _ => rfl : SameTree m.tables (full m).tables).wellFormed wf (fun _ _ => rfl) rfl

/-- The mapping of the page is lost. -/
theorem not_untouched : ¬ ∀ (img : Image) (k k' : Kernel) (e : ElfError), WellFormed k.mem → elfLoad img k = (.ok (.error e), k') →
    Untouched k k' := by
  intro h
  have wf := wellFormed_full liveMem_sets.grows.wf
  have hleaf : leaf (full liveMem).tables 0x400000 = some (.small (pageEntry 0x3000 7)) := liveMem_sets.leaf 0x400000 rfl
  obtain ⟨m', hrun⟩ := elfLoad_full wf (fun _ => rfl) (by simp [NotLarge, hleaf])
  have hu := (elfLoad_atomic_iff (k := ⟨full liveMem, []⟩) wf hrun).1 (h _ _ _ _ wf hrun)
  have hbias : loadBias onePage = 0 := by decide
  apply hu validateForLoad_onePage [] _ [] pages_onePage
  refine ⟨[], full liveMem, rfl, by simp, ?_, ?_⟩
  · have hphys : pagingGetPhys liveMem.tables 0x400000 ≠ 0 := by decide
    exact hphys
  · rw [pagingSplitHugePage_other (by decide) (by simp [hleaf])]

/-- Nothing is mapped and no frame is free: nothing changes. -/
theorem elfLoad_atomic_full :
    ∃ k', elfLoad onePage ⟨full bare, []⟩ = (.ok (.error .map), k') ∧
      (Untouched ⟨full bare, []⟩ k' ↔ (validateForLoad onePage = .ok () →
        Undisturbed onePage (loadBias onePage) (full bare) onePage.pages)) := by
  have wf := wellFormed_full wellFormed_bare
  have hleaf : leaf (full bare).tables 0x400000 = none := leaf_bare 0x400000
  obtain ⟨m', hrun⟩ := elfLoad_full wf (fun _ => rfl) (by simp [NotLarge, hleaf])
  exact ⟨_, hrun, elfLoad_atomic_iff wf hrun⟩

end Tg11Kernel.Elf
