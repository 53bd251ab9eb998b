import Tg11Kernel.Elf.Fidelity
import Tg11Kernel.Elf.Symbols

/-! The reported range of an image. The base is accumulated with 0 for none yet, so that a
segment at 0 is forgotten when another one follows. The range is kept with the image in a
slot of the kernel, if there is one for it. -/

namespace Tg11Kernel.Elf

open Lib Exec Memory

variable {img : Image} {k k' : Kernel} {x : ElfExec}

/-! ### A minimum with 0 for none -/

/-- The minimum that takes 0 for no number yet. -/
def lowest (l : List ℕ) : ℕ := l.foldl (fun b a => if b = 0 ∨ a < b then a else b) 0

theorem lowest_snoc (l : List ℕ) (a : ℕ) : lowest (l ++ [a]) = if lowest l = 0 ∨ a < lowest l then a else lowest l := by
  unfold lowest
  rw [List.foldl_append]
  rfl

theorem lowest_eq_zero (l : List ℕ) : lowest l = 0 ↔ l = [] ∨ l.getLast? = some 0 := by
  induction l using List.reverseRecOn with
  | nil => simp [lowest]
  | append_singleton l a ih =>
    rw [lowest_snoc]
    split_ifs with h
    · simp
    · have hne : lowest l ≠ 0 := fun h0 => h (.inl h0)
      have hpos : a ≠ 0 := by omega
      simp [hne, hpos]

variable {l : List ℕ} {phdr : Phdr} {images : ActiveImages} {a : ActiveImage}

theorem lowest_mem (h : l ≠ []) : lowest l ∈ l := by
  induction l using List.reverseRecOn with
  | nil => exact absurd rfl h
  | append_singleton l a ih =>
    rw [lowest_snoc]
    split_ifs with hlow
    · simp
    · have hl : l ≠ [] := by
        rintro rfl
        exact hlow (.inl rfl)
      exact List.mem_append_left _ (ih hl)

theorem lowest_le (h : ∀ a ∈ l, a ≠ 0) : ∀ a ∈ l, lowest l ≤ a := by
  induction l using List.reverseRecOn with
  | nil => simp
  | append_singleton l b ih =>
    intro a ha
    have hl : ∀ a ∈ l, a ≠ 0 := fun a ha => h a (List.mem_append_left _ ha)
    rw [lowest_snoc]
    rcases List.mem_append.1 ha with ha | ha
    · have hle := ih hl a ha
      have hpos : lowest l ≠ 0 := hl _ (lowest_mem (List.ne_nil_of_mem ha))
      split_ifs <;> omega
    · rw [List.mem_singleton.1 ha]
      split_ifs <;> omega

/-- It is the minimum if and only if no number is 0, or the last one is. -/
theorem lowest_isMin_iff (h : l ≠ []) : (∀ a ∈ l, lowest l ≤ a) ↔ (∀ a ∈ l, a ≠ 0) ∨ l.getLast? = some 0 := by
  constructor
  · intro hmin
    by_cases hzero : 0 ∈ l
    · have hlow : lowest l = 0 := Nat.le_zero.1 (hmin 0 hzero)
      exact .inr (((lowest_eq_zero l).1 hlow).resolve_left h)
    · exact .inl fun a ha ha0 => hzero (ha0 ▸ ha)
  · rintro (hpos | hlast)
    · exact lowest_le hpos
    · rw [(lowest_eq_zero l).2 (.inr hlast)]
      exact fun a _ => Nat.zero_le a

/-! ### The range of an image -/

/-- The segments that take memory, in the order of their headers. -/
def Image.loading (img : Image) : List Phdr := (img.phdrs.map img.segment).filter Phdr.Loads

theorem mem_loading : phdr ∈ img.loading ↔ ∃ i < img.ehdr.phnum.toNat, img.segment i = phdr ∧ phdr.Loads := by
  unfold Image.loading
  simp only [List.mem_filter, List.mem_map, mem_phdrs, decide_eq_true_eq]
  constructor
  · rintro ⟨⟨i, hi, rfl⟩, hl⟩
    exact ⟨i, hi, rfl, hl⟩
  · rintro ⟨i, hi, rfl, hl⟩
    exact ⟨⟨i, hi, rfl⟩, hl⟩

def LoadRange.toNat (r : LoadRange) : ℕ × ℕ := (r.loadBase.toNat, r.loadEnd.toNat)

theorem widenRange_loads (r : LoadRange) (h : phdr.Loads) : (widenRange r phdr).toNat =
    (if r.toNat.1 = 0 ∨ phdr.vaddr.toNat < r.toNat.1 then phdr.vaddr.toNat else r.toNat.1, max r.toNat.2 phdr.segEnd.toNat) := by
  have hskip : ¬ (phdr.type ≠ PT_LOAD ∨ phdr.memsz = 0) := by
    rintro (ht | hz)
    · exact ht h.1
    · exact h.2 hz
  have hbase : (r.loadBase = 0 ∨ phdr.vaddr < r.loadBase) ↔ r.loadBase.toNat = 0 ∨ phdr.vaddr.toNat < r.loadBase.toNat := by
    rw [← UInt64.toNat_inj, UInt64.lt_iff_toNat_lt, UInt64.toNat_zero]
  unfold widenRange
  rw [if_neg hskip]
  apply Prod.ext
  · change (if r.loadBase = 0 ∨ phdr.vaddr < r.loadBase then phdr.vaddr else r.loadBase).toNat =
      if r.loadBase.toNat = 0 ∨ phdr.vaddr.toNat < r.loadBase.toNat then phdr.vaddr.toNat else r.loadBase.toNat
    by_cases hlow : r.loadBase = 0 ∨ phdr.vaddr < r.loadBase
    · rw [if_pos hlow, if_pos (hbase.1 hlow)]
    · rw [if_neg hlow, if_neg fun hlow' => hlow (hbase.2 hlow')]
  · change (if r.loadEnd < phdr.segEnd then phdr.segEnd else r.loadEnd).toNat = max r.loadEnd.toNat phdr.segEnd.toNat
    by_cases hend : r.loadEnd < phdr.segEnd
    · rw [if_pos hend, max_eq_right (UInt64.lt_iff_toNat_lt.1 hend).le]
    · rw [if_neg hend, max_eq_left (UInt64.le_iff_toNat_le.1 (UInt64.not_lt.1 hend))]

theorem foldl_widenRange (l : List Phdr) (h : ∀ phdr ∈ l, phdr.Loads) (r : LoadRange) : (l.foldl widenRange r).toNat =
    ((l.map fun p => p.vaddr.toNat).foldl (fun b a => if b = 0 ∨ a < b then a else b) r.toNat.1,
      (l.map fun p => p.segEnd.toNat).foldl max r.toNat.2) := by
  induction l generalizing r with
  | nil => rfl
  | cons phdr l ih =>
    rw [List.foldl_cons, ih (fun p hp => h p (List.mem_cons_of_mem _ hp)), widenRange_loads r (h phdr (by simp))]
    rfl

theorem loadRange_toNat (img : Image) : img.loadRange.toNat =
    (lowest (img.loading.map fun p => p.vaddr.toNat), (img.loading.map fun p => p.segEnd.toNat).foldl max 0) := by
  have hfold : img.loadRange = img.loading.foldl widenRange ⟨0, 0⟩ := by
    unfold Image.loadRange Image.loading
    rw [List.foldl_filter, List.foldl_map]
    congr 1
    funext r i
    by_cases hl : (img.segment i).Loads
    · rw [if_pos (decide_eq_true hl)]
    · have hskip : (img.segment i).type ≠ PT_LOAD ∨ (img.segment i).memsz = 0 := by
        by_contra hno
        rw [not_or, not_not] at hno
        exact hl hno
      rw [if_neg (by simpa using hl)]
      exact if_pos hskip
  rw [hfold, foldl_widenRange _ fun p hp => by simpa using (List.mem_filter.1 hp).2]
  rfl

/-- The range reaches from the lowest address of a segment to the highest end. -/
structure IsHull (img : Image) (lo hi : ℕ) : Prop where
  start : ∃ p ∈ img.loading, p.vaddr.toNat = lo
  stop : ∃ p ∈ img.loading, p.vaddr.toNat + p.memsz.toNat = hi
  covers : ∀ p ∈ img.loading, lo ≤ p.vaddr.toNat ∧ p.vaddr.toNat + p.memsz.toNat ≤ hi

theorem IsHull.unique {lo hi lo' hi' : ℕ} (h : IsHull img lo hi) (h' : IsHull img lo' hi') : lo = lo' ∧ hi = hi' := by
  obtain ⟨p, hp, rfl⟩ := h.start
  obtain ⟨p', hp', rfl⟩ := h'.start
  obtain ⟨q, hq, rfl⟩ := h.stop
  obtain ⟨q', hq', rfl⟩ := h'.stop
  exact ⟨le_antisymm (h.covers p' hp').1 (h'.covers p hp).1, le_antisymm (h'.covers q hq).2 (h.covers q' hq').2⟩

/-- No segment is at 0, or the last one is. -/
def ZeroLast (img : Image) : Prop := (∀ p ∈ img.loading, p.vaddr ≠ 0) ∨ ∃ p ∈ img.loading.getLast?, p.vaddr = 0

theorem foldl_max_isMax (l : List ℕ) : (∀ a ∈ l, a ≤ l.foldl max 0) ∧ (l ≠ [] → l.foldl max 0 ∈ l) := by
  induction l using List.reverseRecOn with
  | nil => simp
  | append_singleton l a ih =>
    rw [List.foldl_append, List.foldl_cons, List.foldl_nil]
    refine ⟨fun b hb => ?_, fun _ => ?_⟩
    · rcases List.mem_append.1 hb with hb | hb
      · exact le_max_of_le_left (ih.1 b hb)
      · exact List.mem_singleton.1 hb ▸ le_max_right _ _
    · rcases max_choice (l.foldl max 0) a with hm | hm <;> rw [hm]
      · by_cases hl : l = []
        · subst hl
          simp only [List.foldl_nil, max_eq_left_iff] at hm
          simp [Nat.le_zero.1 hm]
        · exact List.mem_append_left _ (ih.2 hl)
      · simp

theorem Valid.segEnd_toNat (hv : Valid img) {p : Phdr} (hp : p ∈ img.loading) : p.segEnd.toNat = p.vaddr.toNat + p.memsz.toNat := by
  obtain ⟨i, hi, rfl, hl⟩ := mem_loading.1 hp
  have hwrap := (hv.valid i hi hl).noWrap
  have hmem := (img.segment i).memsz.toNat_lt
  have hvaddr := (img.segment i).vaddr.toNat_lt
  unfold addOverflowsUlong at hwrap
  rw [UInt64.lt_iff_toNat_lt, UInt64.toNat_add] at hwrap
  unfold Phdr.segEnd
  rw [UInt64.toNat_add]
  omega

theorem Valid.loading_ne_nil (hv : Valid img) : img.loading ≠ [] := by
  obtain ⟨i, hi, hl, -⟩ := hv.entry
  exact List.ne_nil_of_mem (mem_loading.2 ⟨i, hi, rfl, hl⟩)

theorem loadEnd_isMax (hv : Valid img) : (∃ p ∈ img.loading, p.vaddr.toNat + p.memsz.toNat = img.loadRange.loadEnd.toNat) ∧
    ∀ p ∈ img.loading, p.vaddr.toNat + p.memsz.toNat ≤ img.loadRange.loadEnd.toNat := by
  have hend : img.loadRange.loadEnd.toNat = (img.loading.map fun p => p.segEnd.toNat).foldl max 0 := congrArg Prod.snd (loadRange_toNat img)
  have hmax := foldl_max_isMax (img.loading.map fun p => p.segEnd.toNat)
  rw [hend]
  constructor
  · obtain ⟨p, hp, heq⟩ := List.mem_map.1 (hmax.2 (by simpa using hv.loading_ne_nil))
    exact ⟨p, hp, by rw [← hv.segEnd_toNat hp, heq]⟩
  · intro p hp
    rw [← hv.segEnd_toNat hp]
    exact hmax.1 _ (List.mem_map_of_mem hp)

theorem loadBase_mem (hv : Valid img) : ∃ p ∈ img.loading, p.vaddr.toNat = img.loadRange.loadBase.toNat := by
  have hbase : img.loadRange.loadBase.toNat = lowest (img.loading.map fun p => p.vaddr.toNat) := congrArg Prod.fst (loadRange_toNat img)
  have hmem : lowest (img.loading.map fun p => p.vaddr.toNat) ∈ img.loading.map fun p => p.vaddr.toNat :=
    lowest_mem (by simpa using hv.loading_ne_nil)
  rw [hbase]
  exact List.mem_map.1 hmem

theorem loadRange_isHull_iff (hv : Valid img) :
    IsHull img img.loadRange.loadBase.toNat img.loadRange.loadEnd.toNat ↔ ZeroLast img := by
  have hbase : img.loadRange.loadBase.toNat = lowest (img.loading.map fun p => p.vaddr.toNat) := congrArg Prod.fst (loadRange_toNat img)
  have hiff : (∀ a ∈ img.loading.map fun p => p.vaddr.toNat, lowest (img.loading.map fun p => p.vaddr.toNat) ≤ a) ↔ ZeroLast img := by
    rw [lowest_isMin_iff (by simpa using hv.loading_ne_nil)]
    unfold ZeroLast
    simp only [List.mem_map, forall_exists_index, and_imp, forall_apply_eq_imp_iff₂, List.getLast?_map, Option.map_eq_some_iff,
      Option.mem_def, ne_eq, ← UInt64.toNat_inj, UInt64.toNat_zero]
  rw [← hiff, ← hbase]
  constructor
  · intro h a ha
    obtain ⟨p, hp, rfl⟩ := List.mem_map.1 ha
    exact (h.covers p hp).1
  · intro h
    exact ⟨loadBase_mem hv, (loadEnd_isMax hv).1, fun p hp => ⟨h _ (List.mem_map_of_mem hp), (loadEnd_isMax hv).2 p hp⟩⟩

/-! ### The slot of an image -/

/-- The kernel has a slot for these bytes: theirs, or a free one. -/
def HasSlot (images : ActiveImages) (data len : UInt64) : Prop := ∃ slot ∈ images, slot = none ∨ isActive data len slot = true

theorem isActive_iff {data len : UInt64} {slot : Option ActiveImage} :
    isActive data len slot = true ↔ ∃ a, slot = some a ∧ a.data = data ∧ a.len = len := by
  cases slot with
  | none => simp [isActive]
  | some a => simp [isActive]

theorem mem_of_findIdx? {p : Option ActiveImage → Bool} {i : ℕ} (h : images.findIdx? p = some i) (a : ActiveImage) :
    some a ∈ images.set i (some a) := by
  obtain ⟨hi, -⟩ := List.findIdx?_eq_some_iff_getElem.1 h
  exact List.mem_set hi _

theorem mem_registerActiveImage (hdata : a.data ≠ 0) (hlen : a.len ≠ 0) (hrange : a.loadBase < a.loadEnd)
    (hslot : HasSlot images a.data a.len) : some a ∈ registerActiveImage images a := by
  have hgo : ¬ (a.data = 0 ∨ a.len = 0 ∨ a.loadEnd ≤ a.loadBase) := by
    rintro (h | h | h)
    · exact hdata h
    · exact hlen h
    · exact absurd hrange (UInt64.not_lt.2 h)
  unfold registerActiveImage
  rw [if_neg hgo]
  cases hfind : images.findIdx? (isActive a.data a.len) with
  | some i => exact mem_of_findIdx? hfind a
  | none =>
    cases hfree : images.findIdx? Option.isNone with
    | some i => exact mem_of_findIdx? hfree a
    | none =>
      obtain ⟨slot, hmem, hslot⟩ := hslot
      rw [List.findIdx?_eq_none_iff] at hfind hfree
      rcases hslot with rfl | hactive
      · simpa using hfree none hmem
      · rw [hfind slot hmem] at hactive
        cases hactive

/-- Without a slot nothing is registered for these bytes. -/
theorem hasSlot_of_mem {b : ActiveImage} (h : some b ∈ registerActiveImage images a) (hdata : b.data = a.data)
    (hlen : b.len = a.len) : HasSlot images a.data a.len := by
  have hold (hb : some b ∈ images) : HasSlot images a.data a.len := ⟨some b, hb, .inr (isActive_iff.2 ⟨b, rfl, hdata, hlen⟩)⟩
  unfold registerActiveImage at h
  split_ifs at h with hno
  · exact hold h
  cases hfind : images.findIdx? (isActive a.data a.len) with
  | some i =>
    obtain ⟨hi, hactive, -⟩ := List.findIdx?_eq_some_iff_getElem.1 hfind
    exact ⟨images[i], List.getElem_mem hi, .inr hactive⟩
  | none =>
    cases hfree : images.findIdx? Option.isNone with
    | some i =>
      obtain ⟨hi, hnone, -⟩ := List.findIdx?_eq_some_iff_getElem.1 hfree
      exact ⟨images[i], List.getElem_mem hi, .inl (Option.isNone_iff_eq_none.1 hnone)⟩
    | none =>
      rw [hfind, hfree] at h
      exact hold h

/-! ### The reports -/

/-- A slot of the image has the address in its range, so that the image is asked for it. -/
def Considers (images : ActiveImages) (img : Image) (addr : UInt64) : Prop :=
  ∃ a, some a ∈ images ∧ a.data = img.base ∧ a.len = img.len ∧ a.Covers addr

/-- The range that the loader gives back, that of the inspection, and the addresses at which the
image is considered are those of the segments. -/
structure ReportsHull (img : Image) (x : ElfExec) (images : ActiveImages) : Prop where
  range : ∃ lo hi, IsHull img lo hi ∧ x.loadBase.toNat = (loadBias img).toNat + lo ∧ x.loadEnd.toNat = (loadBias img).toNat + hi
  info : ∀ info, elfGetInfo img = .ok info → IsHull img info.loadBase.toNat info.loadEnd.toNat
  considered : ∀ p ∈ img.loading, ∀ n < p.memsz.toNat, ∀ addr : UInt64,
    addr.toNat = (loadBias img).toNat + p.vaddr.toNat + n → Considers images img addr

/-- No segment at 0 is forgotten, the moved segments do not wrap, and the kernel has a slot for the image. -/
structure RangeKept (img : Image) (images : ActiveImages) : Prop where
  zero : ZeroLast img
  fits : ∀ p ∈ img.loading, (loadBias img).toNat + p.vaddr.toNat + p.memsz.toNat < 2 ^ 64
  slot : HasSlot images img.base img.len

theorem loadRange_lt (hv : Valid img) : img.loadRange.loadBase < img.loadRange.loadEnd := by
  obtain ⟨p, hp, hbase⟩ := loadBase_mem hv
  have hend := (loadEnd_isMax hv).2 p hp
  obtain ⟨i, -, rfl, hl⟩ := mem_loading.1 hp
  have hmem : (img.segment i).memsz.toNat ≠ 0 := by
    rw [← UInt64.toNat_zero, Ne, UInt64.toNat_inj]
    exact hl.2
  rw [UInt64.lt_iff_toNat_lt]
  omega

/-- The range moved by the bias, where nothing wraps. -/
theorem moved_toNat (hv : Valid img) (h : ∀ p ∈ img.loading, (loadBias img).toNat + p.vaddr.toNat + p.memsz.toNat < 2 ^ 64) :
    (img.loadRange.loadBase + loadBias img).toNat = (loadBias img).toNat + img.loadRange.loadBase.toNat ∧
      (img.loadRange.loadEnd + loadBias img).toNat = (loadBias img).toNat + img.loadRange.loadEnd.toNat := by
  obtain ⟨p, hp, hend⟩ := (loadEnd_isMax hv).1
  have hfits := h p hp
  have hlt := UInt64.lt_iff_toNat_lt.1 (loadRange_lt hv)
  rw [UInt64.toNat_add, UInt64.toNat_add, Nat.mod_eq_of_lt (by omega), Nat.mod_eq_of_lt (by omega)]
  exact ⟨Nat.add_comm _ _, Nat.add_comm _ _⟩

theorem elfExecOf_range (hv : Valid img) : (elfExecOf img img.loadRange).loadBase = img.loadRange.loadBase + loadBias img ∧
    (elfExecOf img img.loadRange).loadEnd = img.loadRange.loadEnd + loadBias img :=
  ⟨if_pos (loadRange_lt hv), if_pos (loadRange_lt hv)⟩

theorem activeImageOf_range (hv : Valid img) : (activeImageOf img img.loadRange).loadBase = img.loadRange.loadBase + loadBias img ∧
    (activeImageOf img img.loadRange).loadEnd = img.loadRange.loadEnd + loadBias img := by
  have hmove : moveRange img.loadRange (loadBias img) = ⟨img.loadRange.loadBase + loadBias img, img.loadRange.loadEnd + loadBias img⟩ :=
    if_pos (loadRange_lt hv)
  unfold activeImageOf
  rw [hmove]
  exact ⟨rfl, rfl⟩

theorem elfGetInfo_range (hc : Checked img) (hs : Segments img) {info : Info} (h : elfGetInfo img = .ok info) :
    info.loadBase = img.loadRange.loadBase ∧ info.loadEnd = img.loadRange.loadEnd := by
  have htable : img.ehdr.phoff ≠ 0 ∧ img.ehdr.phnum ≠ 0 := by
    have hwindow := hc.window
    unfold getProgramHeaderWindow tableWindow at hwindow
    rw [check_bind_ok_iff, not_or, not_or] at hwindow
    exact ⟨hwindow.1.1, hwindow.1.2.1⟩
  unfold elfGetInfo at h
  rw [bind_ok_iff] at h
  obtain ⟨ehdr, hheader, h⟩ := h
  have hw := validateElf64Image_within img
  rw [hheader] at hw
  obtain rfl := hw.of_ok.1
  rw [bind_ok_iff] at h
  obtain ⟨range, hrange, h⟩ := h
  rw [bind_ok_iff] at h
  obtain ⟨count, -, h⟩ := h
  obtain rfl := Except.ok.inj h
  unfold infoRange at hrange
  rw [if_pos htable, bind_ok_iff] at hrange
  obtain ⟨-, -, hrange⟩ := hrange
  rw [collectLoadRange_eq hs] at hrange
  obtain rfl := Except.ok.inj hrange
  exact ⟨rfl, rfl⟩

theorem reportsHull_of_kept (hc : Checked img) (hv : Valid img) (h : RangeKept img images) :
    ReportsHull img (elfExecOf img img.loadRange) (imagesAfter img images) := by
  have hhull := (loadRange_isHull_iff hv).2 h.zero
  obtain ⟨hbase, hend⟩ := moved_toNat hv h.fits
  obtain ⟨hxbase, hxend⟩ := elfExecOf_range hv
  obtain ⟨habase, haend⟩ := activeImageOf_range hv
  refine ⟨⟨_, _, hhull, by rw [hxbase, hbase], by rw [hxend, hend]⟩, ?_, ?_⟩
  · intro info hinfo
    obtain ⟨hlo, hhi⟩ := elfGetInfo_range hc hv.segments hinfo
    rw [hlo, hhi]
    exact hhull
  · intro p hp n hn addr haddr
    obtain ⟨hlo, hhi⟩ := hhull.covers p hp
    have hlen : img.len ≠ 0 := by
      rw [Ne, ← UInt64.toNat_inj, UInt64.toNat_zero]
      have hle := hc.len
      unfold sizeofEhdr at hle
      omega
    have hlt : (activeImageOf img img.loadRange).loadBase < (activeImageOf img img.loadRange).loadEnd := by
      have hrange := UInt64.lt_iff_toNat_lt.1 (loadRange_lt hv)
      rw [habase, haend, UInt64.lt_iff_toNat_lt]
      omega
    refine ⟨_, mem_registerActiveImage hc.base hlen hlt h.slot, rfl, rfl, ?_, ?_, ?_⟩
    · rw [habase, UInt64.le_iff_toNat_le]
      omega
    · rw [haend, UInt64.lt_iff_toNat_lt]
      omega
    · change loadBias img ≤ addr
      rw [UInt64.le_iff_toNat_le]
      omega

theorem rangeKept_of_reports (hv : Valid img)
    (h : ReportsHull img (elfExecOf img img.loadRange) (imagesAfter img images)) : RangeKept img images := by
  obtain ⟨lo, hi, hhull, hbase, hend⟩ := h.range
  obtain ⟨hxbase, hxend⟩ := elfExecOf_range hv
  rw [hxbase, UInt64.toNat_add] at hbase
  rw [hxend] at hend
  -- the ends agree, and so no sum has wrapped
  have hhi : hi = img.loadRange.loadEnd.toNat := by
    obtain ⟨p, hp, heq⟩ := hhull.stop
    obtain ⟨q, hq, heq'⟩ := (loadEnd_isMax hv).1
    have hle := (loadEnd_isMax hv).2 p hp
    have hle' := (hhull.covers q hq).2
    omega
  have hfits (p : Phdr) (hp : p ∈ img.loading) : (loadBias img).toNat + p.vaddr.toNat + p.memsz.toNat < 2 ^ 64 := by
    have hle := (hhull.covers p hp).2
    have htop := (img.loadRange.loadEnd + loadBias img).toNat_lt
    omega
  have hlt := UInt64.lt_iff_toNat_lt.1 (loadRange_lt hv)
  have htop := (img.loadRange.loadEnd + loadBias img).toNat_lt
  have hlo : lo = img.loadRange.loadBase.toNat := by
    rw [Nat.mod_eq_of_lt (by omega)] at hbase
    omega
  refine ⟨(loadRange_isHull_iff hv).1 (hlo ▸ hhi ▸ hhull), hfits, ?_⟩
  obtain ⟨p, hp⟩ := List.exists_mem_of_ne_nil _ hv.loading_ne_nil
  have hmem : 0 < p.memsz.toNat := by
    obtain ⟨i, -, rfl, hl⟩ := mem_loading.1 hp
    rw [Nat.pos_iff_ne_zero, ← UInt64.toNat_zero, Ne, UInt64.toNat_inj]
    exact hl.2
  have haddr : (loadBias img + p.vaddr).toNat = (loadBias img).toNat + p.vaddr.toNat + 0 := by
    have hle := hfits p hp
    rw [UInt64.toNat_add, Nat.mod_eq_of_lt (by omega), Nat.add_zero]
  obtain ⟨a, ha, hdata, hlen, -⟩ := h.considered p hp 0 hmem _ haddr
  exact hasSlot_of_mem ha hdata hlen

def noImages : ActiveImages := List.replicate ELF_ACTIVE_IMAGE_MAX none

/-- A position-independent image with a segment at 0 and one behind it. -/
def pieImage : Image := programImage 0x10000 3 0 [segmentHeader 7 0 0 64 64, segmentHeader 7 0 0x1000 64 64]

theorem elfLoad_pieImage : ∃ k', elfLoad pieImage ⟨bare, noImages⟩ = (.ok (.ok (elfExecOf pieImage pieImage.loadRange)), k') := by
  have hvalid : validateForLoad pieImage = .ok () := by decide +kernel
  have hrun : (loadPages pieImage (loadBias pieImage) pieImage.pages bare).1 = .ok [(0xFFFF900003800000, 0x4000), (0xFFFF900003801000, 0x8000)] := by
    decide +kernel
  exact elfLoad_of_run hvalid hrun

instance (img : Image) : Decidable (ZeroLast img) := inferInstanceAs (Decidable ((∀ p ∈ _, _) ∨ ∃ p ∈ _, _))

end Tg11Kernel.Elf
