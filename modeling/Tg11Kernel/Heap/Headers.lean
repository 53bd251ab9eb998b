import Tg11Kernel.Heap.Regions

/-! Headers. `kmalloc` writes a header into the first page of its region, and `kfree` finds in
it what the region is. A header is read back as long as no one else has its frame. -/

namespace Tg11Kernel.Heap

open Lib Exec Memory

variable {m m' m'' : Mem} {s s' : Kernel} {p off off' start n virtPage : ℕ} {count flags w w' size : UInt64} {F : Frame}

/-! ### Words -/

/-- The word in a frame. -/
def WordAt (m : Mem) (F : Frame) (off : ℕ) (w : UInt64) : Prop := ∀ k < 8, m.tables.frameByte F.1 (off + k) = byteOf w.toNat k

theorem WordAt.congr (h : WordAt m F off w) (hoff : off + 8 ≤ 4096) (hget : ∀ i, m'.tables.get F i = m.tables.get F i) : WordAt m' F off w := by
  intro k hk
  rw [frameByte_congr hget (by omega)]
  exact h k hk

theorem wordAt_storeBytes (m : Mem) (F : Frame) (off : ℕ) (w : UInt64) (hoff : off + 8 ≤ 4096) : WordAt (m.storeBytes F.1 off 8 (byteOf w.toNat)) F off w := by
  intro k hk
  rw [frameByte_storeBytes m F off 8 _ (by omega), if_pos (by omega), Nat.add_sub_cancel_left]

theorem WordAt.storeBytes (h : WordAt m F off w) (off' : ℕ) (w' : UInt64) (hoff : off + 8 ≤ 4096) (hapart : off + 8 ≤ off' ∨ off' + 8 ≤ off) :
    WordAt (m.storeBytes F.1 off' 8 (byteOf w'.toNat)) F off w := by
  intro k hk
  rw [frameByte_storeBytes m F off' 8 _ (by omega), if_neg (by omega)]
  exact h k hk

theorem ofNat_toNat_of_lt (hoff : off < 4096) : (UInt64.ofNat off).toNat = off := UInt64.toNat_ofNat_of_lt' (by unfold UInt64.size; omega)

theorem offset_lt (hoff : off < 4096) : UInt64.ofNat off < 4096 := by
  have h4096 : (4096 : UInt64).toNat = 4096 := rfl
  rw [UInt64.lt_iff_toNat_lt, ofNat_toNat_of_lt hoff, h4096]
  exact hoff

theorem virtAddr_offset_toNat (hp : p < MEMORY_VIRT_PAGES) (hoff : off < 4096) :
    (virtAddr p + UInt64.ofNat off).toNat = 0xFFFF900000000000 + p * 4096 + off := by
  rw [offset_toNat (aligned_virtAddr hp) (offset_lt hoff), virtAddr_toNat hp, ofNat_toNat_of_lt hoff]

section

variable (wf : WellFormed m) (hp : p < MEMORY_VIRT_PAGES) (h : Backed m flags (virtAddr p) F)
include wf hp h

/-- A byte of a page, read through its mapping. -/
theorem readByte_backed (hoff : off < 4096) :
    readByte m.tables (virtAddr p + UInt64.ofNat off) = some (m.tables.frameByte F.1 off) := by
  have hnat := virtAddr_offset_toNat hp hoff
  have hc : Canonical (virtAddr p + UInt64.ofNat off) := by
    rw [canonical_iff, hnat]
    omega
  have hleaf := (leaf_congr wf (place_offset (aligned_virtAddr hp) (offset_lt hoff))).trans h.leaf
  have hmod : (virtAddr p + UInt64.ofNat off).toNat % 4096 = off := by
    rw [hnat]
    omega
  rw [readByte_small wf hc hleaf, Frame.of_pageEntry, hmod]

theorem readWord_apply (hoff : off + 8 ≤ 4096)
    (hw : WordAt m F off w) : readWord (virtAddr p + UInt64.ofNat off) m = (.ok w, m) := by
  have hbyte : ∀ i < 8, readByte m.tables (virtAddr p + UInt64.ofNat off + UInt64.ofNat i) = some (byteOf w.toNat i) := by
    intro i hi
    rw [UInt64.add_assoc, ← UInt64.ofNat_add, readByte_backed wf hp h (by omega), hw i hi]
  have hsome : ∀ i < 8, (readByte m.tables (virtAddr p + UInt64.ofNat off + UInt64.ofNat i)).isSome := by
    intro i hi
    rw [hbyte i hi]
    rfl
  have hword : ofBytes (fun i => (readByte m.tables (virtAddr p + UInt64.ofNat off + UInt64.ofNat i)).getD 0) 8 = w.toNat := by
    rw [ofBytes_congr (g := byteOf w.toNat) fun i hi => by rw [hbyte i hi]; rfl, ofBytes_byteOf]
    exact Nat.mod_eq_of_lt w.toNat_lt
  unfold readWord
  rw [if_pos hsome, hword, UInt64.ofNat_toNat]

theorem writeWord_apply (off : ℕ)
    (hoff : off + 8 ≤ 4096) (w : UInt64) : writeWord (virtAddr p + UInt64.ofNat off) w m = (.ok (), m.storeBytes F.1 off 8 (byteOf w.toNat)) := by
  have hnat := virtAddr_offset_toNat hp (show off < 4096 by omega)
  have hpage : (virtAddr p + UInt64.ofNat off) &&& ~~~4095 = virtAddr p := by
    apply UInt64.toNat_inj.1
    rw [maskDown_toNat, hnat, virtAddr_toNat hp]
    omega
  have hmod : (virtAddr p + UInt64.ofNat off).toNat % 4096 = off := by
    rw [hnat]
    omega
  unfold writeWord
  rw [hpage, hmod, writePage_apply wf (aligned_virtAddr hp) h.leaf, if_pos ⟨canonical_virtAddr hp, hoff⟩, Frame.of_pageEntry]

end

/-! ### Writes -/

theorem writes_trans (h : Writes m m' F) (h' : Writes m' m'' F) : Writes m m'' F where
  used := h'.used.trans h.used
  root := h'.root.trans h.root
  frame G i hG := (h'.frame G i hG).trans (h.frame G i hG)

/-- A page stays where it is when a frame without tables is written. -/
theorem Backed.writes {v : UInt64} {G : Frame} (h : Backed m flags v G) (wf : WellFormed m) (hw : Writes m m' F) (hF : ¬ m.tables.Table F) :
    Backed m' flags v G := ⟨(hw.sameLeaves wf hF v).trans h.leaf, h.owned.writes hw hF⟩

theorem MapsRun.writes (h : MapsRun virtPage start n m m') (hw : Writes m' m'' (frameOf start)) (hn : 0 < n) : MapsRun virtPage start n m m'' := by
  have howned := (h.backed 0 hn).owned
  rw [Nat.add_zero] at howned
  have hsame := hw.sameLeaves h.grows.wf howned.data.2
  have hle := h.isRun.le
  have hfresh : ¬ Data m (frameOf start) := by
    intro hdata
    have hused := hdata.1
    rw [frameOf_no (by omega), h.isRun.free start (Nat.le_refl _) (by omega)] at hused
    cases hused
  constructor
  case isRun => exact h.isRun
  case grows => exact h.grows.writes hw howned.data.2 hfresh
  case absent => exact h.absent
  case backed => exact fun i hi => (h.backed i hi).writes h.grows.wf hw howned.data.2
  case others => exact fun a ha => (hsame a).trans (h.others a ha)

/-! ### Headers -/

/-- A header in the first page of a region. -/
def HeaderAt (m : Mem) (virtPage : ℕ) (count : UInt64) : Prop :=
  ∃ F, Backed m PAGE_FLAG_WRITABLE (virtAddr virtPage) F ∧ WordAt m F 0 KMALLOC_HEADER_MAGIC ∧ WordAt m F 8 count

/-- A header is kept with its frame. -/
theorem HeaderAt.keeps (h : HeaderAt m virtPage count)
    (hkept : ∀ F, Backed m PAGE_FLAG_WRITABLE (virtAddr virtPage) F →
      Backed m' PAGE_FLAG_WRITABLE (virtAddr virtPage) F ∧ ∀ i, m'.tables.get F i = m.tables.get F i) : HeaderAt m' virtPage count := by
  obtain ⟨F, hF, hmagic, hpages⟩ := h
  obtain ⟨hF', hget⟩ := hkept F hF
  exact ⟨F, hF', hmagic.congr (by decide) hget, hpages.congr (by decide) hget⟩

/-- The four words that `kmalloc` writes. -/
def writeHeader (base pages size : UInt64) : Exec Kernel Unit := do
  Kernel.onMem (writeWord base KMALLOC_HEADER_MAGIC)
  Kernel.onMem (writeWord (base + 8) pages)
  Kernel.onMem (writeWord (base + 16) size)
  Kernel.onMem (writeWord (base + 24) 0)

theorem kmalloc_eq (size : UInt64) : kmalloc size = (do
    require (size ≠ 0)
    let base ← virtAllocPages (kmallocPages size)
    writeHeader base (kmallocPages size) size
    pure (base + kmallocHeaderSize)) := by
  unfold kmalloc writeHeader
  simp only [bind_assoc_eq]

theorem writeHeader_apply (wf : WellFormed s.mem) (hp : p < MEMORY_VIRT_PAGES) (h : Backed s.mem PAGE_FLAG_WRITABLE (virtAddr p) F)
    (pages size : UInt64) : ∃ m', writeHeader (virtAddr p) pages size s = (.ok (), ⟨m', s.virt⟩) ∧ Writes s.mem m' F ∧ HeaderAt m' p pages := by
  have hF := h.owned.data.2
  have hbase : virtAddr p = virtAddr p + UInt64.ofNat 0 := (UInt64.add_zero _).symm
  have h₁ := writes_storeBytes s.mem F 0 8 (byteOf KMALLOC_HEADER_MAGIC.toNat)
  have hrun₁ := writeWord_apply wf hp h 0 (by decide) KMALLOC_HEADER_MAGIC
  have hmagic₁ := wordAt_storeBytes s.mem F 0 KMALLOC_HEADER_MAGIC (by decide)
  rw [← hbase] at hrun₁
  generalize s.mem.storeBytes F.1 0 8 (byteOf KMALLOC_HEADER_MAGIC.toNat) = m₁ at h₁ hrun₁ hmagic₁
  have hb₁ := h.writes wf h₁ hF
  have hrun₂ := writeWord_apply (h₁.wf wf hF) hp hb₁ 8 (by decide) pages
  have h₂ := writes_trans h₁ (writes_storeBytes m₁ F 8 8 (byteOf pages.toNat))
  have hmagic₂ := hmagic₁.storeBytes 8 pages (by decide) (.inl (by decide))
  have hpages₂ := wordAt_storeBytes m₁ F 8 pages (by decide)
  generalize m₁.storeBytes F.1 8 8 (byteOf pages.toNat) = m₂ at h₂ hrun₂ hmagic₂ hpages₂
  have hb₂ := h.writes wf h₂ hF
  have hrun₃ := writeWord_apply (h₂.wf wf hF) hp hb₂ 16 (by decide) size
  have h₃ := writes_trans h₂ (writes_storeBytes m₂ F 16 8 (byteOf size.toNat))
  have hmagic₃ := hmagic₂.storeBytes 16 size (by decide) (.inl (by decide))
  have hpages₃ := hpages₂.storeBytes 16 size (by decide) (.inl (by decide))
  generalize m₂.storeBytes F.1 16 8 (byteOf size.toNat) = m₃ at h₃ hrun₃ hmagic₃ hpages₃
  have hb₃ := h.writes wf h₃ hF
  have hrun₄ := writeWord_apply (h₃.wf wf hF) hp hb₃ 24 (by decide) 0
  have h₄ := writes_trans h₃ (writes_storeBytes m₃ F 24 8 (byteOf (0 : UInt64).toNat))
  have hmagic₄ := hmagic₃.storeBytes 24 0 (by decide) (.inl (by decide))
  have hpages₄ := hpages₃.storeBytes 24 0 (by decide) (.inl (by decide))
  refine ⟨_, ?_, h₄, F, h.writes wf h₄ hF, hmagic₄, hpages₄⟩
  unfold writeHeader
  rw [bind_ok (Kernel.onMem_apply hrun₁)]
  refine (bind_ok (Kernel.onMem_apply (s := ⟨m₁, s.virt⟩) hrun₂)).trans ?_
  refine (bind_ok (Kernel.onMem_apply (s := ⟨m₂, s.virt⟩) hrun₃)).trans ?_
  exact Kernel.onMem_apply (s := ⟨m₃, s.virt⟩) hrun₄

/-- A region with a header is allocated, or nothing has changed but for tables. -/
theorem kmalloc_ends (wf : WellFormed s.mem) (size : UInt64) :
    Ends (kmalloc size) s
      (fun ptr s' => kmallocPages size ≠ 0 ∧ ∃ virtPage start, ptr = virtAddr virtPage + kmallocHeaderSize ∧
        MarksRun virtPage (kmallocPages size).toNat s.virt s'.virt ∧ MapsRun virtPage start (kmallocPages size).toNat s.mem s'.mem ∧
        HeaderAt s'.mem virtPage (kmallocPages size))
      fun s' => s'.virt = s.virt ∧ Unchanged s.mem s'.mem := by
  rw [kmalloc_eq]
  refine Ends.require_bind (fun _ => ?_) fun _ => ⟨rfl, .refl wf⟩
  apply (virtAllocPages_ends wf _).bind
  rintro _ s₁ ⟨hcount, virtPage, start, rfl, hmarks, hmaps⟩
  have hpos : 0 < (kmallocPages size).toNat := Nat.pos_of_ne_zero fun h => hcount (UInt64.toNat_inj.1 h)
  have hle := hmarks.isRun.le
  have hbacked := hmaps.backed 0 hpos
  rw [Nat.add_zero, Nat.add_zero] at hbacked
  obtain ⟨m₂, hrun, hw, hheader⟩ := writeHeader_apply hmaps.grows.wf (by omega) hbacked (kmallocPages size) size
  rw [Ends, bind_ok hrun]
  exact Ends.pure ⟨hcount, virtPage, start, rfl, hmarks, hmaps.writes hw hpos, hheader⟩

/-- The header of a region leads `kfree` to it; the header is spoiled. -/
theorem kfree_apply (wf : WellFormed s.mem) (hcount : count ≠ 0) (hle : virtPage + count.toNat ≤ MEMORY_VIRT_PAGES)
    (h : HeaderAt s.mem virtPage count) :
    ∃ F m', Backed s.mem PAGE_FLAG_WRITABLE (virtAddr virtPage) F ∧ Writes s.mem m' F ∧
      kfree (virtAddr virtPage + kmallocHeaderSize) s = virtFreePages (virtAddr virtPage) count ⟨m', s.virt⟩ := by
  obtain ⟨F, hF, hmagic, hpages⟩ := h
  have hpos : 0 < count.toNat := Nat.pos_of_ne_zero fun h => hcount (UInt64.toNat_inj.1 h)
  have hp : virtPage < MEMORY_VIRT_PAGES := by omega
  have hsize : kmallocHeaderSize = UInt64.ofNat 32 := by decide
  have hnat := virtAddr_offset_toNat hp (show 32 < 4096 by decide)
  rw [← hsize] at hnat
  have hmax : MEMORY_VIRT_PAGES = 16384 := rfl
  have hlow : (MEMORY_VIRT_BASE + kmallocHeaderSize).toNat = 0xFFFF900000000000 + 32 := by decide
  have hhigh : MEMORY_VIRT_LIMIT.toNat = 0xFFFF900004000000 := by decide
  have hzero : ¬ virtAddr virtPage + kmallocHeaderSize = 0 := by
    intro h
    rw [h, UInt64.toNat_zero] at hnat
    omega
  have hrange : ¬ (virtAddr virtPage + kmallocHeaderSize < MEMORY_VIRT_BASE + kmallocHeaderSize ∨
      virtAddr virtPage + kmallocHeaderSize ≥ MEMORY_VIRT_LIMIT) := by
    rw [UInt64.lt_iff_toNat_lt, ge_iff_le, UInt64.le_iff_toNat_le]
    omega
  have hheader : virtAddr virtPage + kmallocHeaderSize - kmallocHeaderSize = virtAddr virtPage := UInt64.add_sub_cancel _ _
  have hbase : virtAddr virtPage = virtAddr virtPage + UInt64.ofNat 0 := (UInt64.add_zero _).symm
  have hread := readWord_apply wf hp hF (by decide) hmagic
  have hread₈ := readWord_apply wf hp hF (by decide) hpages
  have hwrite := writeWord_apply wf hp hF 0 (by decide) 0
  rw [← hbase] at hread hwrite
  have hw := writes_storeBytes s.mem F 0 8 (byteOf (0 : UInt64).toNat)
  have hpages' := hpages.storeBytes 0 0 (by decide) (.inr (by decide))
  generalize s.mem.storeBytes F.1 0 8 (byteOf (0 : UInt64).toNat) = m₁ at hw hwrite hpages'
  have hread' := readWord_apply (hw.wf wf hF.owned.data.2) hp (hF.writes wf hw hF.owned.data.2) (by decide) hpages'
  refine ⟨F, m₁, hF, hw, ?_⟩
  have hbody : (Kernel.onMem (readWord (virtAddr virtPage)) >>= fun magic =>
      if magic ≠ KMALLOC_HEADER_MAGIC then pure ()
      else Kernel.onMem (readWord (virtAddr virtPage + 8)) >>= fun pages =>
        if pages = 0 then pure ()
        else Kernel.onMem (writeWord (virtAddr virtPage) 0) >>= fun _ => Kernel.onMem (readWord (virtAddr virtPage + 8)) >>= fun pages =>
          virtFreePages (virtAddr virtPage) pages) s = virtFreePages (virtAddr virtPage) count ⟨m₁, s.virt⟩ := by
    rw [bind_ok (Kernel.onMem_apply hread), if_neg (fun h => h rfl)]
    refine (bind_ok (Kernel.onMem_apply hread₈)).trans ?_
    rw [if_neg hcount]
    refine (bind_ok (Kernel.onMem_apply hwrite)).trans ?_
    exact bind_ok (Kernel.onMem_apply (s := ⟨m₁, s.virt⟩) hread')
  unfold kfree
  rw [if_neg hzero, if_neg hrange, hheader]
  exact hbody

end Tg11Kernel.Heap
