import Tg11Kernel.Elf.Load
import Tg11Kernel.Elf.Bounds
import Tg11Kernel.Memory.Contents

/-! What validation says about the segments, and which pages and bytes a segment has.
Rounding an end up to a page may wrap; where it does not, the pages of a segment are those
that its addresses lie in. -/

namespace Tg11Kernel.Elf

open Lib Memory

/-! ### Checks that pass -/

section

variable {α β : Type}

variable {b : β} {p : Prop} {e : ElfError} {l : List α}

theorem bind_ok_iff {r : Read α} {f : α → Read β} : (r >>= f) = .ok b ↔ ∃ a, r = .ok a ∧ f a = .ok b := by
  cases r with
  | error e => exact ⟨nofun, fun ⟨_, h, _⟩ => nomatch h⟩
  | ok a => exact ⟨fun h => ⟨a, rfl, h⟩, fun ⟨_, ha, h⟩ => Except.ok.inj ha ▸ h⟩

theorem check_ok_iff [Decidable p] {u : Unit} : check p e = .ok u ↔ p := by
  unfold check fail
  split_ifs with hp <;> simp [hp]

theorem check_bind_ok_iff [Decidable p] {f : Unit → Read β} :
    (check p e >>= f) = .ok b ↔ p ∧ f () = .ok b := by
  rw [bind_ok_iff]
  simp only [check_ok_iff]
  exact ⟨fun ⟨_, hp, h⟩ => ⟨hp, h⟩, fun ⟨hp, h⟩ => ⟨(), hp, h⟩⟩

theorem of_forM_ok {f : α → Read Unit} (h : l.forM f = .ok ()) : ∀ a ∈ l, f a = .ok () := by
  induction l with
  | nil => exact fun a ha => absurd ha List.not_mem_nil
  | cons a l ih =>
    unfold List.forM at h
    rw [bind_ok_iff] at h
    obtain ⟨u, ha, hl⟩ := h
    intro b hb
    rcases List.mem_cons.1 hb with rfl | hb
    · exact ha
    · exact ih hl b hb

theorem of_foldlM_ok {f : β → α → Read β} {c : β} (h : l.foldlM f b = .ok c) :
    ∀ a ∈ l, ∃ b b', f b a = .ok b' := by
  induction l generalizing b with
  | nil => exact fun a ha => absurd ha List.not_mem_nil
  | cons a l ih =>
    rw [List.foldlM_cons, bind_ok_iff] at h
    obtain ⟨b', ha, hl⟩ := h
    intro d hd
    rcases List.mem_cons.1 hd with rfl | hd
    · exact ⟨b, b', ha⟩
    · exact ih hl d hd

end

/-! ### Validation -/

variable {img : Image}

/-- Program header `i` of the image. -/
def Image.segment (img : Image) (i : ℕ) : Phdr := img.phdr (img.phdrOff i)

variable {i j : ℕ} {phdr : Phdr} {l : List ℕ} {bias page : UInt64}

theorem readPhdr_eq (h : Segments img) (hi : i < img.ehdr.phnum.toNat) : img.readPhdr i = .ok (img.segment i) :=
  if_pos (h.holds (by decide) hi)

/-- What a segment to be loaded has passed. -/
structure SegmentValid (img : Image) (phdr : Phdr) : Prop where
  file : phdr.offset + phdr.filesz ≤ img.len
  memory : phdr.filesz ≤ phdr.memsz
  noWrap : ¬ addOverflowsUlong phdr.vaddr phdr.memsz
  fileNoWrap : ¬ addOverflowsUlong phdr.offset phdr.filesz

/-- What an image has passed. -/
structure Valid (img : Image) : Prop where
  segments : Segments img
  valid : ∀ i < img.ehdr.phnum.toNat, (img.segment i).Loads → SegmentValid img (img.segment i)
  apart : ∀ i j, i < j → j < img.ehdr.phnum.toNat → (img.segment i).Loads → (img.segment j).Loads →
    ¬ overlaps (img.segment i) (img.segment j)
  entry : ∃ i < img.ehdr.phnum.toNat, (img.segment i).Loads ∧ img.ehdr.entry ≥ (img.segment i).vaddr ∧
    img.ehdr.entry < (img.segment i).segEnd

theorem mem_phdrsAfter : j ∈ img.phdrsAfter i ↔ i < j ∧ j < img.ehdr.phnum.toNat := by
  unfold Image.phdrsAfter Image.phdrs
  rw [List.mem_drop_iff_getElem]
  simp only [List.length_range, List.getElem_range]
  constructor
  · rintro ⟨k, hk, rfl⟩
    omega
  · rintro ⟨hlt, hj⟩
    exact ⟨j - (i + 1), by omega, by omega⟩

theorem of_checkOverlap (hs : Segments img) (hj : j < img.ehdr.phnum.toNat)
    (h : checkOverlap img phdr j = .ok ()) (hl : (img.segment j).Loads) : ¬ overlaps phdr (img.segment j) := by
  unfold checkOverlap at h
  rw [readPhdr_eq hs hj, bind_ok_iff] at h
  obtain ⟨other, heq, h⟩ := h
  obtain rfl := Except.ok.inj heq
  rw [if_neg (not_not.2 hl), check_bind_ok_iff] at h
  exact check_ok_iff.1 h.2

theorem of_validateSegment {c c' : ℕ} (hs : Segments img) (hi : i < img.ehdr.phnum.toNat)
    (h : validateSegment img c i = .ok c') (hl : (img.segment i).Loads) :
    SegmentValid img (img.segment i) ∧
      ∀ j, i < j → j < img.ehdr.phnum.toNat → (img.segment j).Loads → ¬ overlaps (img.segment i) (img.segment j) := by
  unfold validateSegment at h
  rw [readPhdr_eq hs hi, bind_ok_iff] at h
  obtain ⟨phdr, heq, h⟩ := h
  obtain rfl := Except.ok.inj heq
  rw [if_neg (not_not.2 hl.1), check_bind_ok_iff, check_bind_ok_iff, if_neg hl.2, check_bind_ok_iff, check_bind_ok_iff,
    bind_ok_iff] at h
  obtain ⟨hfile, hmem, hwrap, hfwrap, u, -, h⟩ := h
  rw [bind_ok_iff] at h
  obtain ⟨u, hrest, -⟩ := h
  refine ⟨⟨UInt64.not_lt.1 hfile, UInt64.not_lt.1 hmem, hwrap, hfwrap⟩, ?_⟩
  intro j hij hj hlj
  exact of_checkOverlap hs hj (of_forM_ok hrest j (mem_phdrsAfter.2 ⟨hij, hj⟩)) hlj

theorem of_checkEntry (hs : Segments img) (hl : ∀ i ∈ l, i < img.ehdr.phnum.toNat) (h : checkEntry img l = .ok ()) :
    ∃ i < img.ehdr.phnum.toNat, (img.segment i).Loads ∧ img.ehdr.entry ≥ (img.segment i).vaddr ∧
      img.ehdr.entry < (img.segment i).segEnd := by
  induction l with
  | nil => cases h
  | cons i l ih =>
    have hi := hl i List.mem_cons_self
    unfold checkEntry at h
    rw [readPhdr_eq hs hi, bind_ok_iff] at h
    obtain ⟨phdr, heq, h⟩ := h
    obtain rfl := Except.ok.inj heq
    split_ifs at h with hin
    · exact ⟨i, hi, hin⟩
    · exact ih (fun j hj => hl j (List.mem_cons_of_mem _ hj)) h

/-- What `elf_load` has checked of the image as a whole. -/
structure Checked (img : Image) : Prop where
  base : img.base ≠ 0
  len : sizeofEhdr ≤ img.len.toNat
  window : getProgramHeaderWindow img.ehdr img.len = .ok ()
  segments : validateLoadSegments img = .ok ()

theorem checked_of_validateForLoad (h : validateForLoad img = .ok ()) : Checked img := by
  unfold validateForLoad at h
  rw [check_bind_ok_iff] at h
  obtain ⟨hlen, h⟩ := h
  rw [not_or, not_lt] at hlen
  have hholds : img.Holds 0 sizeofEhdr := by
    unfold Image.Holds
    simpa using hlen.2
  rw [bind_ok_iff] at h
  obtain ⟨ehdr, hehdr, h⟩ := h
  obtain rfl : img.ehdr = ehdr := by
    unfold Image.readEhdr Image.fetch at hehdr
    rw [if_pos hholds] at hehdr
    exact Except.ok.inj hehdr
  rw [check_bind_ok_iff, check_bind_ok_iff, check_bind_ok_iff, check_bind_ok_iff, bind_ok_iff] at h
  obtain ⟨-, -, -, -, u, hwindow, h⟩ := h
  exact ⟨hlen.1, hlen.2, hwindow, h⟩

theorem valid_of_validateForLoad (h : validateForLoad img = .ok ()) : Valid img := by
  obtain ⟨-, -, hwindow, h⟩ := checked_of_validateForLoad h
  have hs : Segments img := by
    have hwithin := getProgramHeaderWindow_within img
    rw [hwindow] at hwithin
    exact hwithin.of_ok
  unfold validateLoadSegments at h
  rw [bind_ok_iff] at h
  obtain ⟨u, -, h⟩ := h
  rw [bind_ok_iff] at h
  obtain ⟨c, hfold, h⟩ := h
  rw [check_bind_ok_iff] at h
  have hsegment (i : ℕ) (hi : i < img.ehdr.phnum.toNat) : ∃ b b', validateSegment img b i = .ok b' :=
    of_foldlM_ok hfold i (mem_phdrs.2 hi)
  refine ⟨hs, ?_, ?_, of_checkEntry hs (fun i hi => mem_phdrs.1 hi) h.2⟩
  · intro i hi hl
    obtain ⟨b, b', hb⟩ := hsegment i hi
    exact (of_validateSegment hs hi hb hl).1
  · intro i j hij hj hli hlj
    obtain ⟨b, b', hb⟩ := hsegment i (hij.trans hj)
    exact (of_validateSegment hs (hij.trans hj) hb hli).2 j hij hj hlj

/-! ### Validation stays inside -/

theorem checkOverlap_within (hs : Segments img) (phdr : Phdr) (hj : j < img.ehdr.phnum.toNat) :
    Within (fun _ => True) Fault.Inside (checkOverlap img phdr j) := by
  unfold checkOverlap
  apply (readPhdr_within hs hj).bind
  intro other _ _
  apply Within.ite
  · exact fun _ => .ok trivial
  · intro _
    apply check_bind
    exact fun _ => check_within.mono fun _ _ => trivial

theorem checkAlign_within (phdr : Phdr) : Within (fun _ => True) Fault.Inside (checkAlign phdr) := by
  unfold checkAlign
  apply Within.ite
  · intro _
    apply check_bind
    exact fun _ => check_within.mono fun _ _ => trivial
  · exact fun _ => .ok trivial

theorem validateSegment_within (hs : Segments img) (c : ℕ) (hi : i < img.ehdr.phnum.toNat) :
    Within (fun _ => True) Fault.Inside (validateSegment img c i) := by
  unfold validateSegment
  apply (readPhdr_within hs hi).bind
  intro phdr _ _
  apply Within.ite
  · exact fun _ => .ok trivial
  intro _
  apply check_bind
  intro _
  apply check_bind
  intro _
  apply Within.ite
  · exact fun _ => .ok trivial
  intro _
  apply check_bind
  intro _
  apply check_bind
  intro _
  apply (checkAlign_within phdr).bind
  intro _ _ _
  apply Within.bind (Within.forM fun j hj => checkOverlap_within hs phdr (mem_phdrsAfter.1 hj).2)
  exact fun _ _ _ => .ok trivial

theorem checkEntry_within (hs : Segments img) (hl : ∀ i ∈ l, i < img.ehdr.phnum.toNat) :
    Within (fun _ => True) Fault.Inside (checkEntry img l) := by
  induction l with
  | nil => exact .error nofun
  | cons i l ih =>
    unfold checkEntry
    apply (readPhdr_within hs (hl i List.mem_cons_self)).bind
    intro phdr _ _
    apply Within.ite
    · exact fun _ => .ok trivial
    · exact fun _ => ih fun j hj => hl j (List.mem_cons_of_mem i hj)

theorem validateLoadSegments_within (hs : Segments img) : Within (fun _ => True) Fault.Inside (validateLoadSegments img) := by
  have hinterp : ∀ i ∈ img.phdrs, Within (fun _ => True) Fault.Inside (checkInterp img i) := by
    intro i hi
    apply (readPhdr_within hs (mem_phdrs.1 hi)).bind
    exact fun _ _ _ => check_within.mono fun _ _ => trivial
  unfold validateLoadSegments
  apply (Within.forM hinterp).bind
  intro _ _ _
  apply Within.bind (Within.foldlM trivial fun c _ i hi => validateSegment_within hs c (mem_phdrs.1 hi))
  intro c _ _
  apply check_bind
  exact fun _ => checkEntry_within hs fun i hi => mem_phdrs.1 hi

/-- No check reads outside the image. -/
theorem validateForLoad_within (img : Image) : Within (fun _ => True) Fault.Inside (validateForLoad img) := by
  unfold validateForLoad
  apply check_bind
  intro hlen
  have hholds : img.Holds 0 sizeofEhdr := by
    unfold Image.Holds
    rw [not_or, not_lt] at hlen
    simpa using hlen.2
  apply Within.bind (fetch_within hholds)
  rintro ehdr - rfl
  iterate 4
    apply check_bind
    intro _
  apply (getProgramHeaderWindow_within img).bind
  exact fun _ _ hs => validateLoadSegments_within hs

/-! ### Rounding -/

theorem alignDownPage_toNat (v : UInt64) : (alignDownPage v).toNat = v.toNat / 4096 * 4096 := maskDown_toNat v

theorem alignUpPage_eq (v : UInt64) : alignUpPage v = alignDownPage (v + 4095) := by
  have hsum : v + MEMORY_PAGE_SIZE - 1 = v + 4095 := by
    rw [UInt64.sub_eq_add_neg, UInt64.add_assoc]
    rfl
  unfold alignUpPage alignDownPage
  rw [hsum]

theorem alignUpPage_toNat {v : UInt64} (h : v.toNat + 4095 < 2 ^ 64) : (alignUpPage v).toNat = (v.toNat + 4095) / 4096 * 4096 := by
  have hsum : (v + 4095).toNat = v.toNat + 4095 := by
    rw [UInt64.toNat_add]
    exact Nat.mod_eq_of_lt h
  rw [alignUpPage_eq, alignDownPage_toNat, hsum]

theorem aligned_alignDownPage (v : UInt64) : Aligned (alignDownPage v) := by
  rw [aligned_iff, alignDownPage_toNat]
  exact Nat.mul_mod_left _ _

/-- Moving by whole pages moves the page. -/
theorem alignDownPage_add {b : UInt64} (h : Aligned b) (v : UInt64) : alignDownPage (v + b) = alignDownPage v + b := by
  rw [aligned_iff] at h
  apply UInt64.toNat_inj.1
  rw [UInt64.toNat_add, alignDownPage_toNat, alignDownPage_toNat, UInt64.toNat_add]
  omega

theorem aligned_loadBias (img : Image) : Aligned (loadBias img) := by
  unfold loadBias
  split_ifs <;> decide

/-! ### Windows -/

/-- Address `k` of a segment. -/
def Phdr.addr (phdr : Phdr) (bias : UInt64) (k : ℕ) : UInt64 := phdr.vaddr + bias + UInt64.ofNat k

/-- A byte of the segment lies in the page. -/
def Phdr.Touches (phdr : Phdr) (bias page : UInt64) : Prop := ∃ k < phdr.memsz.toNat, alignDownPage (phdr.addr bias k) = page

/-- The end of the segment, rounded up to a page, is an address. -/
def Phdr.EndFits (phdr : Phdr) (bias : UInt64) : Prop := (phdr.vaddr + bias).toNat + phdr.memsz.toNat + 4095 < 2 ^ 64

theorem Phdr.addr_toNat (h : phdr.EndFits bias) {k : ℕ} (hk : k < phdr.memsz.toNat) :
    (phdr.addr bias k).toNat = (phdr.vaddr + bias).toNat + k := by
  unfold EndFits at h
  have hofNat : (UInt64.ofNat k).toNat = k := UInt64.toNat_ofNat_of_lt' (by unfold UInt64.size; omega)
  unfold addr
  rw [UInt64.toNat_add, hofNat, Nat.mod_eq_of_lt (by omega)]

theorem Phdr.touches_move (phdr : Phdr) (h : Aligned bias) (page : UInt64) :
    phdr.Touches bias (page + bias) ↔ phdr.Touches 0 page := by
  have hmove (k : ℕ) : alignDownPage (phdr.addr bias k) = alignDownPage (phdr.addr 0 k) + bias := by
    rw [← alignDownPage_add h]
    unfold addr
    rw [UInt64.add_zero, UInt64.add_assoc, UInt64.add_comm bias, ← UInt64.add_assoc]
  unfold Touches
  simp only [hmove, UInt64.add_left_inj]

theorem mem_pagesFrom {start stop : UInt64} (hstart : Aligned start) (hstop : Aligned stop) :
    page ∈ pagesFrom start stop ↔ Aligned page ∧ start.toNat ≤ page.toNat ∧ page.toNat < stop.toNat := by
  rw [aligned_iff] at hstart hstop ⊢
  have hlt := stop.toNat_lt
  have hsize : MEMORY_PAGE_SIZE.toNat = 4096 := rfl
  unfold pagesFrom
  split_ifs with h
  · rw [UInt64.lt_iff_toNat_lt] at h
    have hcount : ((stop - start) / MEMORY_PAGE_SIZE).toNat = (stop.toNat - start.toNat) / 4096 := by
      rw [UInt64.toNat_div, UInt64.toNat_sub_of_le _ _ (UInt64.le_iff_toNat_le.2 h.le), hsize]
    have hoff {j : ℕ} (hj : j < (stop.toNat - start.toNat) / 4096) :
        (start + MEMORY_PAGE_SIZE * UInt64.ofNat j).toNat = start.toNat + 4096 * j := by
      have hofNat : (UInt64.ofNat j).toNat = j := UInt64.toNat_ofNat_of_lt' (by unfold UInt64.size; omega)
      rw [UInt64.toNat_add, UInt64.toNat_mul, hofNat, hsize, Nat.mod_eq_of_lt (a := 4096 * j) (by omega), Nat.mod_eq_of_lt (by omega)]
    rw [hcount, List.mem_map]
    constructor
    · rintro ⟨j, hj, rfl⟩
      rw [List.mem_range] at hj
      rw [hoff hj]
      omega
    · rintro ⟨hal, hle, hpage⟩
      have hj : (page.toNat - start.toNat) / 4096 < (stop.toNat - start.toNat) / 4096 := by omega
      refine ⟨(page.toNat - start.toNat) / 4096, List.mem_range.2 hj, ?_⟩
      apply UInt64.toNat_inj.1
      rw [hoff hj]
      omega
  · rw [UInt64.lt_iff_toNat_lt] at h
    simp only [List.not_mem_nil, false_iff]
    omega

theorem aligned_of_mem_windowPages (h : page ∈ windowPages phdr bias) : Aligned page := by
  unfold windowPages at h
  rw [alignUpPage_eq] at h
  exact ((mem_pagesFrom (aligned_alignDownPage _) (aligned_alignDownPage _)).1 h).1

/-- The window, as a range of page addresses. -/
theorem mem_windowPages (h : phdr.EndFits bias) :
    page ∈ windowPages phdr bias ↔ Aligned page ∧ (phdr.vaddr + bias).toNat / 4096 * 4096 ≤ page.toNat ∧
      page.toNat < ((phdr.vaddr + bias).toNat + phdr.memsz.toNat + 4095) / 4096 * 4096 := by
  unfold Phdr.EndFits at h
  have hend : (phdr.vaddr + bias + phdr.memsz).toNat = (phdr.vaddr + bias).toNat + phdr.memsz.toNat := by
    rw [UInt64.toNat_add, Nat.mod_eq_of_lt (by omega)]
  unfold windowPages
  rw [mem_pagesFrom (aligned_alignDownPage _) (by rw [alignUpPage_eq]; exact aligned_alignDownPage _), alignDownPage_toNat,
    alignUpPage_toNat (by rw [hend]; exact h), hend]

/-- The pages of a window are those with a byte of the segment. -/
theorem mem_windowPages_iff (h : phdr.EndFits bias) (hmem : phdr.memsz ≠ 0) :
    page ∈ windowPages phdr bias ↔ phdr.Touches bias page := by
  have hpos : phdr.memsz.toNat ≠ 0 := fun heq => hmem (UInt64.toNat_inj.1 heq)
  rw [mem_windowPages h]
  constructor
  · rintro ⟨hal, hle, hlt⟩
    rw [aligned_iff] at hal
    have hk : page.toNat - (phdr.vaddr + bias).toNat < phdr.memsz.toNat := by omega
    refine ⟨page.toNat - (phdr.vaddr + bias).toNat, hk, ?_⟩
    apply UInt64.toNat_inj.1
    rw [alignDownPage_toNat, Phdr.addr_toNat h hk]
    omega
  · rintro ⟨k, hk, rfl⟩
    refine ⟨aligned_alignDownPage _, ?_⟩
    rw [alignDownPage_toNat, Phdr.addr_toNat h hk]
    omega

theorem nodup_pagesFrom (start stop : UInt64) : (pagesFrom start stop).Nodup := by
  have hlt := (stop - start).toNat_lt
  have hsize : MEMORY_PAGE_SIZE.toNat = 4096 := rfl
  unfold pagesFrom
  split_ifs
  · apply List.Nodup.map_on _ List.nodup_range
    intro i hi j hj heq
    rw [List.mem_range, UInt64.toNat_div, hsize] at hi hj
    have hofNat {k : ℕ} (hk : k < 2 ^ 52) : (MEMORY_PAGE_SIZE * UInt64.ofNat k).toNat = 4096 * k := by
      have hk' : (UInt64.ofNat k).toNat = k := UInt64.toNat_ofNat_of_lt' (by unfold UInt64.size; omega)
      rw [UInt64.toNat_mul, hk', hsize, Nat.mod_eq_of_lt (by omega)]
    have hnat := congrArg UInt64.toNat ((UInt64.add_right_inj start).1 heq)
    rw [hofNat (by omega), hofNat (by omega)] at hnat
    omega
  · exact List.nodup_nil

/-! ### The bytes of a page -/

/-- What belongs at an offset of a page of the segment. -/
def expectedByte (img : Image) (phdr : Phdr) (bias page : UInt64) (off : ℕ) : UInt8 :=
  let at' := page.toNat + off
  let start := (phdr.vaddr + bias).toNat
  if start ≤ at' ∧ at' < start + phdr.filesz.toNat then img.byte (phdr.offset + UInt64.ofNat (at' - start)) else 0

/-- The page starts before the end of the bytes from the file. -/
def Phdr.HasFile (phdr : Phdr) (bias page : UInt64) : Prop := page.toNat < (phdr.vaddr + bias).toNat + phdr.filesz.toNat

instance (phdr : Phdr) (bias page : UInt64) : Decidable (phdr.HasFile bias page) := inferInstanceAs (Decidable (_ < _))

/-- The copy puts the bytes of the file where they belong. -/
structure CopyFits (phdr : Phdr) (bias page : UInt64) (copy : Copy) : Prop where
  inside : copy.dstOff.toNat + copy.len.toNat ≤ 4096
  range : ∀ off < 4096, (copy.dstOff.toNat ≤ off ∧ off < copy.dstOff.toNat + copy.len.toNat) ↔
    ((phdr.vaddr + bias).toNat ≤ page.toNat + off ∧ page.toNat + off < (phdr.vaddr + bias).toNat + phdr.filesz.toNat)
  source : ∀ off < 4096, copy.dstOff.toNat ≤ off → off < copy.dstOff.toNat + copy.len.toNat →
    copy.src + UInt64.ofNat (off - copy.dstOff.toNat) = phdr.offset + UInt64.ofNat (page.toNat + off - (phdr.vaddr + bias).toNat)

/-- The offsets that a copy works with, as numbers. -/
structure Offsets (phdr : Phdr) (bias page : UInt64) : Prop where
  pageOff : (page - alignDownPage (phdr.vaddr + bias)).toNat = page.toNat - (phdr.vaddr + bias).toNat / 4096 * 4096
  copyEnd : (page - alignDownPage (phdr.vaddr + bias) + MEMORY_PAGE_SIZE).toNat =
    page.toNat - (phdr.vaddr + bias).toNat / 4096 * 4096 + 4096
  fileStart : (phdr.vaddr + bias - alignDownPage (phdr.vaddr + bias)).toNat = (phdr.vaddr + bias).toNat % 4096
  fileEnd : (phdr.vaddr + bias - alignDownPage (phdr.vaddr + bias) + phdr.filesz).toNat =
    (phdr.vaddr + bias).toNat % 4096 + phdr.filesz.toNat

theorem offsets (h : phdr.EndFits bias) (hfile : phdr.filesz ≤ phdr.memsz)
    (hpage : page ∈ windowPages phdr bias) : Offsets phdr bias page := by
  obtain ⟨-, hle, hlt⟩ := (mem_windowPages h).1 hpage
  unfold Phdr.EndFits at h
  rw [UInt64.le_iff_toNat_le] at hfile
  have hdown := alignDownPage_toNat (phdr.vaddr + bias)
  have hsize : MEMORY_PAGE_SIZE.toNat = 4096 := rfl
  have hoff : (page - alignDownPage (phdr.vaddr + bias)).toNat = page.toNat - (phdr.vaddr + bias).toNat / 4096 * 4096 := by
    rw [UInt64.toNat_sub_of_le _ _ (UInt64.le_iff_toNat_le.2 (by rw [hdown]; exact hle)), hdown]
  have hstart : (phdr.vaddr + bias - alignDownPage (phdr.vaddr + bias)).toNat = (phdr.vaddr + bias).toNat % 4096 := by
    rw [UInt64.toNat_sub_of_le _ _ (UInt64.le_iff_toNat_le.2 (by omega)), hdown]
    omega
  refine ⟨hoff, ?_, hstart, ?_⟩
  · rw [UInt64.toNat_add, hoff, hsize, Nat.mod_eq_of_lt (by omega)]
  · rw [UInt64.toNat_add, hstart, Nat.mod_eq_of_lt (by omega)]

theorem copyOf_cases (h : phdr.EndFits bias) (hfile : phdr.filesz ≤ phdr.memsz)
    (hpage : page ∈ windowPages phdr bias) :
    copyOf phdr bias page = none ∧ ¬ phdr.HasFile bias page ∨
      ∃ copy, copyOf phdr bias page = some copy ∧ phdr.HasFile bias page ∧ CopyFits phdr bias page copy := by
  obtain ⟨hoff, hcend, hfstart, hfend⟩ := offsets h hfile hpage
  obtain ⟨-, hle, hlt⟩ := (mem_windowPages h).1 hpage
  unfold Phdr.EndFits at h
  rw [UInt64.le_iff_toNat_le] at hfile
  unfold copyOf Phdr.HasFile
  dsimp only
  generalize hpo : page - alignDownPage (phdr.vaddr + bias) = pageOff at *
  generalize hfs : phdr.vaddr + bias - alignDownPage (phdr.vaddr + bias) = fileStart at *
  generalize hce : pageOff + MEMORY_PAGE_SIZE = copyEnd at *
  generalize hfe : fileStart + phdr.filesz = fileEnd at *
  by_cases hzero : copyEnd ≤ fileStart ∨ pageOff ≥ fileEnd
  · rw [if_pos hzero]
    rw [ge_iff_le, UInt64.le_iff_toNat_le, UInt64.le_iff_toNat_le] at hzero
    exact .inl ⟨rfl, by omega⟩
  rw [if_neg hzero]
  rw [ge_iff_le, UInt64.le_iff_toNat_le, UInt64.le_iff_toNat_le] at hzero
  have hcs : (if pageOff < fileStart then fileStart else pageOff).toNat = max pageOff.toNat fileStart.toNat := by
    split_ifs with hlt <;> rw [UInt64.lt_iff_toNat_lt] at hlt <;> omega
  have hce' : (if copyEnd > fileEnd then fileEnd else copyEnd).toNat = min copyEnd.toNat fileEnd.toNat := by
    split_ifs with hlt <;> rw [gt_iff_lt, UInt64.lt_iff_toNat_lt] at hlt <;> omega
  generalize (if pageOff < fileStart then fileStart else pageOff) = clampStart at hcs ⊢
  generalize (if copyEnd > fileEnd then fileEnd else copyEnd) = clampEnd at hce' ⊢
  have hdst : (clampStart - pageOff).toNat = clampStart.toNat - pageOff.toNat := by
    rw [UInt64.toNat_sub_of_le _ _ (UInt64.le_iff_toNat_le.2 (by omega))]
  have hlen : (clampEnd - clampStart).toNat = clampEnd.toNat - clampStart.toNat := by
    rw [UInt64.toNat_sub_of_le _ _ (UInt64.le_iff_toNat_le.2 (by omega))]
  refine .inr ⟨_, rfl, by omega, ?_, ?_, ?_⟩
  · rw [hdst, hlen]
    omega
  · intro off hoff4
    rw [hdst, hlen]
    omega
  · intro off hoff4 hge hlt'
    rw [hdst, hlen] at hlt'
    rw [hdst] at hge
    have hshift : clampStart + UInt64.ofNat (off - (clampStart - pageOff).toNat) =
        fileStart + UInt64.ofNat (page.toNat + off - (phdr.vaddr + bias).toNat) := by
      apply UInt64.toNat_inj.1
      rw [UInt64.toNat_add, UInt64.toNat_add, hdst, UInt64.toNat_ofNat_of_lt' (by unfold UInt64.size; omega),
        UInt64.toNat_ofNat_of_lt' (by unfold UInt64.size; omega)]
      omega
    rw [UInt64.add_assoc, hshift, ← UInt64.add_assoc, UInt64.sub_add_cancel]

end Tg11Kernel.Elf
