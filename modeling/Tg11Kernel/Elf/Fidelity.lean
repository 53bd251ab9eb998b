import Tg11Kernel.Elf.Collision

/-! What memory shows after a load that succeeded: the bytes of the segments, and the flags
of their pages. A segment that reaches into the last page of the address space has an end that
wraps when it is rounded up; none of its pages is mapped then, or only one. -/

namespace Tg11Kernel.Elf

open Lib Exec Memory

variable {img : Image} {phdr : Phdr} {bias page : UInt64} {k k' : Kernel} {x : ElfExec} {m m' : Mem} {mapped : MappedPages}
  {done : List (Phdr × UInt64)}

/-! ### The bytes of a page -/

theorem filledByte_eq (h : phdr.EndFits bias) (hfile : phdr.filesz ≤ phdr.memsz) (hpage : page ∈ windowPages phdr bias) {off : ℕ}
    (hoff : off < 4096) : filledByte img phdr bias page off = expectedByte img phdr bias page off := by
  unfold filledByte expectedByte
  dsimp only
  rcases copyOf_cases h hfile hpage with ⟨hnone, hno⟩ | ⟨copy, hsome, -, hfits⟩
  · unfold Phdr.HasFile at hno
    rw [hnone, if_neg (by omega)]
  · rw [hsome]
    dsimp only
    by_cases hin : copy.dstOff.toNat ≤ off ∧ off < copy.dstOff.toNat + copy.len.toNat
    · rw [if_pos hin, if_pos ((hfits.range off hoff).1 hin), hfits.source off hoff hin.1 hin.2]
    · rw [if_neg hin, if_neg fun hfile => hin ((hfits.range off hoff).2 hfile)]

/-- Byte `n` of a segment. -/
def Image.segmentByte (img : Image) (phdr : Phdr) (n : ℕ) : UInt8 :=
  if n < phdr.filesz.toNat then img.byte (phdr.offset + UInt64.ofNat n) else 0

variable {n i : ℕ} {a : UInt64} {p : Phdr × UInt64}

theorem expectedByte_addr (h : phdr.EndFits bias) (hn : n < phdr.memsz.toNat) :
    expectedByte img phdr bias (alignDownPage (phdr.addr bias n)) ((phdr.addr bias n).toNat % 4096) = img.segmentByte phdr n := by
  have haddr := Phdr.addr_toNat h hn
  have hsum : (alignDownPage (phdr.addr bias n)).toNat + (phdr.addr bias n).toNat % 4096 = (phdr.vaddr + bias).toNat + n := by
    rw [alignDownPage_toNat]
    omega
  unfold expectedByte Image.segmentByte
  dsimp only
  rw [hsum, Nat.add_sub_cancel_left]
  simp

/-! ### Addresses and pages -/

theorem place_alignDownPage (a : UInt64) : place (alignDownPage a) = place a := by
  rw [place_eq_iff_index, alignDownPage_toNat]
  omega

theorem canonical_alignDownPage : Canonical (alignDownPage a) ↔ Canonical a := by
  rw [canonical_iff, canonical_iff, alignDownPage_toNat]
  omega

theorem eq_of_place_canonical {b : UInt64} (ha : Canonical a) (hb : Canonical b) (hal : Aligned a) (hal' : Aligned b)
    (h : place a = place b) : a = b := by
  rw [place_eq_iff ha hb] at h
  rw [aligned_iff] at hal hal'
  apply UInt64.toNat_inj.1
  omega

theorem PageLoaded.readByte (wf : WellFormed m) {F : Frame} (h : PageLoaded img phdr bias (alignDownPage a) F m) :
    readByte m.tables a = some (filledByte img phdr bias (alignDownPage a) (a.toNat % 4096)) := by
  have hleaf := h.leaf
  rw [leaf_congr wf (place_alignDownPage a)] at hleaf
  rw [readByte_small wf (canonical_alignDownPage.1 h.canonical) hleaf, Frame.of_pageEntry, h.bytes _ (Nat.mod_lt _ (by decide))]

/-! ### Windows apart -/

/-- No page is in two windows. -/
def WindowsApart (img : Image) : Prop :=
  ∀ i j, i < j → j < img.ehdr.phnum.toNat → (img.segment i).Loads → (img.segment j).Loads →
    ∀ page ∈ windowPages (img.segment i) (loadBias img), page ∉ windowPages (img.segment j) (loadBias img)

theorem nodup_windowPages (phdr : Phdr) (bias : UInt64) : (windowPages phdr bias).Nodup := nodup_pagesFrom _ _

theorem WindowsApart.nodup (h : WindowsApart img) : (img.pages.map Prod.snd).Nodup := by
  unfold Image.pages Image.loadOrder
  rw [List.map_flatMap, List.nodup_flatMap]
  constructor
  · intro i _
    split_ifs
    · rw [List.map_map]
      exact (nodup_windowPages _ _).map_on fun _ _ _ _ heq => heq
    · exact List.nodup_nil
  · have hlt : img.phdrs.Pairwise (· < ·) := List.pairwise_lt_range
    apply hlt.imp_of_mem
    intro i j hi hj hij
    simp only [Function.onFun]
    intro page hi' hj'
    split_ifs at hi' hj' with hli hlj
    · simp only [List.map_map, List.mem_map, Function.comp_apply, exists_eq_right] at hi' hj'
      exact h i j hij (mem_phdrs.1 hj) hli hlj page hi' hj'
    all_goals simp at hi' hj'

theorem Loaded.pageLoaded (h : Loaded img bias done m mapped m') (hal : ∀ q ∈ done, Aligned q.2) (hnodup : (done.map Prod.snd).Nodup)
    (hp : p ∈ done) : ∃ F : Frame, (p.2, F.1) ∈ mapped ∧ PageLoaded img p.1 bias p.2 F m' := by
  obtain ⟨before, after, rfl⟩ := List.append_of_mem hp
  apply h.last before p after rfl
  intro q hq hplace
  have hqmem : q ∈ before ++ p :: after := by simp [hq]
  have heq := eq_of_place_canonical (h.canonical p hp) (h.canonical q hqmem) (hal p hp) (hal q hqmem) hplace
  rw [List.map_append, List.map_cons, List.nodup_append] at hnodup
  exact (List.nodup_cons.1 hnodup.2.1).1 (heq ▸ List.mem_map_of_mem hq)

/-! ### The last page of the address space -/

/-- The first address of the last page. -/
def topPage : UInt64 := 0xFFFFFFFFFFFFF000

theorem topPage_not_mem (phdr : Phdr) (bias : UInt64) : topPage ∉ windowPages phdr bias := by
  intro h
  unfold windowPages at h
  rw [alignUpPage_eq, mem_pagesFrom (aligned_alignDownPage _) (aligned_alignDownPage _), alignDownPage_toNat, alignDownPage_toNat] at h
  have htop : topPage.toNat = 2 ^ 64 - 4096 := rfl
  have hlt := (phdr.vaddr + bias + phdr.memsz + 4095).toNat_lt
  omega

/-- A segment whose end does not fit reaches into the last page. -/
theorem touches_topPage (hmem : phdr.memsz ≠ 0) (h : ¬ phdr.EndFits bias) :
    ∃ n < phdr.memsz.toNat, alignDownPage (phdr.addr bias n) = topPage := by
  have hpos : phdr.memsz.toNat ≠ 0 := fun heq => hmem (UInt64.toNat_inj.1 heq)
  have hlt := (phdr.vaddr + bias).toNat_lt
  have hmlt := phdr.memsz.toNat_lt
  have htop : topPage.toNat = 2 ^ 64 - 4096 := rfl
  unfold Phdr.EndFits at h
  have haddr {n : ℕ} (hn : (phdr.vaddr + bias).toNat + n < 2 ^ 64) : (phdr.addr bias n).toNat = (phdr.vaddr + bias).toNat + n := by
    unfold Phdr.addr
    rw [UInt64.toNat_add, UInt64.toNat_ofNat_of_lt' (by unfold UInt64.size; omega), Nat.mod_eq_of_lt hn]
  have hpage {n : ℕ} (hn : (phdr.vaddr + bias).toNat + n < 2 ^ 64) (hge : 2 ^ 64 - 4096 ≤ (phdr.vaddr + bias).toNat + n) :
      alignDownPage (phdr.addr bias n) = topPage := by
    apply UInt64.toNat_inj.1
    rw [alignDownPage_toNat, haddr hn, htop]
    omega
  by_cases hwrap : (phdr.vaddr + bias).toNat + phdr.memsz.toNat < 2 ^ 64
  · exact ⟨phdr.memsz.toNat - 1, by omega, hpage (by omega) (by omega)⟩
  · exact ⟨2 ^ 64 - 1 - (phdr.vaddr + bias).toNat, by omega, hpage (by omega) (by omega)⟩

/-! ### Windows that were checked -/

/-- The pages of two segments that passed the check are apart, if neither end wraps. -/
theorem touches_apart {other : Phdr} (h : phdr.EndFits 0) (ho : other.EndFits 0) (hmem : phdr.memsz ≠ 0) (hmemo : other.memsz ≠ 0)
    (hno : ¬ overlaps phdr other) (hbias : Aligned bias) (page : UInt64) : ¬ (phdr.Touches bias page ∧ other.Touches bias page) := by
  have hmove (p : Phdr) : p.Touches bias page ↔ p.Touches 0 (page - bias) := by
    rw [← p.touches_move hbias, UInt64.sub_add_cancel]
  rw [hmove, hmove]
  rintro ⟨hp, hq⟩
  rw [← mem_windowPages_iff h hmem, mem_windowPages h] at hp
  rw [← mem_windowPages_iff ho hmemo, mem_windowPages ho] at hq
  obtain ⟨-, hge, hlt⟩ := hp
  obtain ⟨-, hgeo, hlto⟩ := hq
  apply hno
  have hend {p : Phdr} (hp : p.EndFits 0) : (alignUpPage p.segEnd).toNat = (p.vaddr.toNat + p.memsz.toNat + 4095) / 4096 * 4096 := by
    unfold Phdr.EndFits at hp
    rw [UInt64.add_zero] at hp
    have hsum : p.segEnd.toNat = p.vaddr.toNat + p.memsz.toNat := by
      unfold Phdr.segEnd
      rw [UInt64.toNat_add, Nat.mod_eq_of_lt (by omega)]
    rw [alignUpPage_toNat (by omega), hsum]
  rw [UInt64.add_zero] at hge hlt hgeo hlto
  unfold overlaps
  rw [UInt64.lt_iff_toNat_lt, UInt64.lt_iff_toNat_lt, hend h, hend ho, alignDownPage_toNat, alignDownPage_toNat]
  exact ⟨hge.trans_lt hlto, hgeo.trans_lt hlt⟩

/-- The ends of the segments, moved and rounded up, are addresses; and two segments of which one
has an end that wraps before it is moved do not share a page. -/
structure EndsFit (img : Image) : Prop where
  ends : ∀ i < img.ehdr.phnum.toNat, (img.segment i).Loads → (img.segment i).EndFits (loadBias img)
  apart : ∀ i j, i < j → j < img.ehdr.phnum.toNat → (img.segment i).Loads → (img.segment j).Loads →
    ¬ ((img.segment i).EndFits 0 ∧ (img.segment j).EndFits 0) →
      ∀ page, ¬ ((img.segment i).Touches (loadBias img) page ∧ (img.segment j).Touches (loadBias img) page)

theorem EndsFit.windowsApart (h : EndsFit img) (hv : Valid img) : WindowsApart img := by
  intro i j hij hj hli hlj page hpi hpj
  have hi := hij.trans hj
  rw [mem_windowPages_iff (h.ends i hi hli) hli.2] at hpi
  rw [mem_windowPages_iff (h.ends j hj hlj) hlj.2] at hpj
  by_cases hfit : (img.segment i).EndFits 0 ∧ (img.segment j).EndFits 0
  · exact touches_apart hfit.1 hfit.2 hli.2 hlj.2 (hv.apart i j hij hj hli hlj) (aligned_loadBias img) page ⟨hpi, hpj⟩
  · exact h.apart i j hij hj hli hlj hfit page ⟨hpi, hpj⟩

/-! ### Fidelity -/

/-- Memory shows the segments, their windows are apart, and the entry lies in one of them. -/
structure Faithful (img : Image) (x : ElfExec) (k' : Kernel) : Prop where
  bytes : ∀ i < img.ehdr.phnum.toNat, (img.segment i).Loads → ∀ n < (img.segment i).memsz.toNat,
    readByte k'.mem.tables ((img.segment i).addr (loadBias img) n) = some (img.segmentByte (img.segment i) n)
  apart : WindowsApart img
  entry : ∃ i < img.ehdr.phnum.toNat, (img.segment i).Loads ∧ ∃ n < (img.segment i).memsz.toNat,
    x.entry = (img.segment i).addr (loadBias img) n

/-- The load itself maps every address of the segments. -/
def MapsAll (img : Image) : Prop :=
  ∀ i < img.ehdr.phnum.toNat, (img.segment i).Loads → ∀ n < (img.segment i).memsz.toNat,
    ∃ p ∈ img.pages, p.2 = alignDownPage ((img.segment i).addr (loadBias img) n)

theorem mem_pages_of_window (hi : i < img.ehdr.phnum.toNat) (hl : (img.segment i).Loads)
    (hpage : page ∈ windowPages (img.segment i) (loadBias img)) : (img.segment i, page) ∈ img.pages :=
  Image.mem_loadOrder.2 ⟨i, hi, hl, rfl, hpage⟩

theorem EndsFit.mem_pages (h : EndsFit img) (hi : i < img.ehdr.phnum.toNat) (hl : (img.segment i).Loads)
    (hn : n < (img.segment i).memsz.toNat) : alignDownPage ((img.segment i).addr (loadBias img) n) ∈ windowPages (img.segment i) (loadBias img) :=
  (mem_windowPages_iff (h.ends i hi hl) hl.2).2 ⟨n, hn, rfl⟩

theorem Valid.entry_addr (hv : Valid img) : ∃ i < img.ehdr.phnum.toNat, (img.segment i).Loads ∧ ∃ n < (img.segment i).memsz.toNat,
    img.ehdr.entry + loadBias img = (img.segment i).addr (loadBias img) n := by
  obtain ⟨i, hi, hl, hge, hlt⟩ := hv.entry
  have hwrap := (hv.valid i hi hl).noWrap
  unfold addOverflowsUlong at hwrap
  unfold Phdr.segEnd at hlt
  rw [UInt64.lt_iff_toNat_lt, UInt64.toNat_add] at hwrap hlt
  rw [ge_iff_le, UInt64.le_iff_toNat_le] at hge
  have hlt1 := (img.segment i).vaddr.toNat_lt
  have hlt2 := (img.segment i).memsz.toNat_lt
  refine ⟨i, hi, hl, img.ehdr.entry.toNat - (img.segment i).vaddr.toNat, by omega, ?_⟩
  have hsum : img.ehdr.entry = (img.segment i).vaddr + UInt64.ofNat (img.ehdr.entry.toNat - (img.segment i).vaddr.toNat) := by
    apply UInt64.toNat_inj.1
    have hlt3 := img.ehdr.entry.toNat_lt
    rw [UInt64.toNat_add, UInt64.toNat_ofNat_of_lt' (by unfold UInt64.size; omega)]
    omega
  unfold Phdr.addr
  rw [UInt64.add_assoc, UInt64.add_comm (loadBias img), ← UInt64.add_assoc, ← hsum]

theorem readByte_absent (wf : WellFormed m) (h : leaf m.tables a = none) : readByte m.tables a = none := by
  have htr := translate_leaf wf a
  rw [h, Option.map_none, Option.map_eq_none_iff] at htr
  unfold readByte
  simp [htr]

theorem elfLoad_onePage : ∃ k', elfLoad onePage ⟨bare, []⟩ = (.ok (.ok (elfExecOf onePage onePage.loadRange)), k') := by
  have hbias : loadBias onePage = 0 := by decide
  have hrun : (loadPages onePage 0 [(onePage.segment 0, 0x400000)] bare).1 = .ok [(0x400000, 0x4000)] := by decide
  apply elfLoad_of_run validateForLoad_onePage
  rw [pages_onePage, hbias]
  exact hrun

/-- A segment in the last page of the address space. -/
def topImage : Image := programImage 0x10000 2 0xFFFFFFFFFFFFF000 [segmentHeader 7 0 0xFFFFFFFFFFFFF000 64 64]

theorem pages_topImage : topImage.pages = [] :=
  @pages_of_single topImage (by decide) (by decide) [] (by decide)

def Phdr.writable (phdr : Phdr) : Bool := phdr.flags &&& PF_W != 0

def Phdr.executable (phdr : Phdr) : Bool := phdr.flags &&& PF_X != 0

/-- The entry of a page has the flags that a segment asks for. -/
structure PermittedAs (phdr : Phdr) (e : UInt64) : Prop where
  user : has e PAGE_FLAG_USER = true
  writable : has e PAGE_FLAG_WRITABLE = phdr.writable
  noExecute : has e PAGE_FLAG_NO_EXECUTE = !phdr.executable

/-- All pages of all windows are mapped with the flags of their segments. -/
def Protected (img : Image) (k' : Kernel) : Prop :=
  ∀ i < img.ehdr.phnum.toNat, (img.segment i).Loads → ∀ page ∈ windowPages (img.segment i) (loadBias img),
    ∃ e, leaf k'.mem.tables page = some (.small e) ∧ PermittedAs (img.segment i) e

/-- No later page of the load is the same. -/
def LoadedLast (img : Image) (phdr : Phdr) (page : UInt64) : Prop :=
  ∃ before after, img.pages = before ++ (phdr, page) :: after ∧ ∀ q ∈ after, q.2 ≠ page

/-- A page that is loaded for a segment has the flags that a segment asks for: it has bytes from
the file, or the flags are those of a page that is still being filled. -/
def FillsAs (phdr other : Phdr) (bias page : UInt64) : Prop :=
  (copyOf phdr bias page).isSome = true ∧ phdr.writable = other.writable ∧ phdr.executable = other.executable ∨
    copyOf phdr bias page = none ∧ other.writable = true ∧ other.executable = true

/-- The segment that loads a page last loads it as each segment that has the page asks. -/
def FlagsFit (img : Image) : Prop :=
  ∀ i < img.ehdr.phnum.toNat, (img.segment i).Loads → ∀ page ∈ windowPages (img.segment i) (loadBias img),
    ∀ phdr, LoadedLast img phdr page → FillsAs phdr (img.segment i) (loadBias img) page

theorem permittedAs_pageEntry (phdr : Phdr) (phys flags : UInt64) : PermittedAs phdr (pageEntry phys flags) ↔
    has flags PAGE_FLAG_USER = true ∧ has flags PAGE_FLAG_WRITABLE = phdr.writable ∧ has flags PAGE_FLAG_NO_EXECUTE = !phdr.executable := by
  have huser : has (pageEntry phys flags) PAGE_FLAG_USER = has flags PAGE_FLAG_USER :=
    has_pageEntry_flag phys flags (by decide) (by decide) (by decide)
  have hwritable : has (pageEntry phys flags) PAGE_FLAG_WRITABLE = has flags PAGE_FLAG_WRITABLE :=
    has_pageEntry_flag phys flags (by decide) (by decide) (by decide)
  have hnx : has (pageEntry phys flags) PAGE_FLAG_NO_EXECUTE = has flags PAGE_FLAG_NO_EXECUTE :=
    has_pageEntry_flag phys flags (by decide) (by decide) (by decide)
  constructor
  · rintro ⟨h1, h2, h3⟩
    exact ⟨huser ▸ h1, hwritable ▸ h2, hnx ▸ h3⟩
  · rintro ⟨h1, h2, h3⟩
    exact ⟨huser.trans h1, hwritable.trans h2, hnx.trans h3⟩

theorem finalFlags_spec (phdr : Phdr) : has (finalFlags phdr) PAGE_FLAG_USER = true ∧
    has (finalFlags phdr) PAGE_FLAG_WRITABLE = phdr.writable ∧ has (finalFlags phdr) PAGE_FLAG_NO_EXECUTE = !phdr.executable := by
  have hw : phdr.writable = true ↔ phdr.flags &&& PF_W ≠ 0 := by simp [Phdr.writable]
  have hx : phdr.executable = false ↔ phdr.flags &&& PF_X = 0 := by simp [Phdr.executable]
  unfold finalFlags
  simp only [← hw, ← hx]
  cases phdr.writable <;> cases phdr.executable <;> decide

/-- The flags that the load leaves at a page. -/
theorem permittedAs_pageFlags (phdr other : Phdr) (F : Frame) :
    PermittedAs other (pageEntry F.1 (pageFlags phdr bias page)) ↔ FillsAs phdr other bias page := by
  rw [permittedAs_pageEntry]
  unfold pageFlags FillsAs
  generalize copyOf phdr bias page = copy
  cases copy with
  | none =>
    have huser : has loadFlags PAGE_FLAG_USER = true := by decide
    have hw : has loadFlags PAGE_FLAG_WRITABLE = true := by decide
    have hx : has loadFlags PAGE_FLAG_NO_EXECUTE = false := by decide
    rw [if_neg (by simp), huser, hw, hx]
    constructor
    · rintro ⟨-, h1, h2⟩
      exact .inr ⟨rfl, h1.symm, by simpa using h2.symm⟩
    · rintro (⟨h, -⟩ | ⟨-, h1, h2⟩)
      · cases h
      · exact ⟨rfl, h1.symm, by rw [h2]; rfl⟩
  | some copy =>
    obtain ⟨huser, hw, hx⟩ := finalFlags_spec phdr
    simp [huser, hw, hx]

/-- A page of a window is loaded last by some segment. -/
theorem exists_loadedLast (h : p ∈ img.pages) : ∃ phdr, LoadedLast img phdr p.2 := by
  have hgen : ∀ l : List (Phdr × UInt64), (∃ r ∈ l, r.2 = p.2) →
      ∃ before phdr after, l = before ++ (phdr, p.2) :: after ∧ ∀ q ∈ after, q.2 ≠ p.2 := by
    intro l
    induction l with
    | nil => simp
    | cons q l ih =>
      intro hr
      by_cases hlater : ∃ r ∈ l, r.2 = p.2
      · obtain ⟨before, phdr, after, rfl, hne⟩ := ih hlater
        exact ⟨q :: before, phdr, after, rfl, hne⟩
      · have hq : q.2 = p.2 := by simpa [hlater] using hr
        exact ⟨[], q.1, l, by rw [← hq]; rfl, fun r hr heq => hlater ⟨r, hr, heq⟩⟩
  obtain ⟨before, phdr, after, heq, hne⟩ := hgen img.pages ⟨p, h, rfl⟩
  exact ⟨phdr, before, after, heq, hne⟩

/-- A segment that can only be read, and has no bytes in the file. -/
def zeroImage : Image := programImage 0x10000 2 0x400000 [segmentHeader 4 0 0x400000 0 64]

theorem pages_zeroImage : zeroImage.pages = [(zeroImage.segment 0, 0x400000)] :=
  @pages_of_single zeroImage (by decide) (by decide) [0x400000] (by decide)

end Tg11Kernel.Elf
