import Tg11Kernel.Mmap.Account

/-! The mappings of a program over whole runs. It maps regions, unmaps them and moves the
break in any order; its image may lie anywhere, also in the way. -/

namespace Tg11Kernel.Mmap

open Lib Exec Memory Heap Function

/-- The calls of a program, with the protection that was asked for the region at an address. -/
inductive Runs (s₀ : Process) : Process → (UInt64 → UInt64) → Prop where
  | start : Runs s₀ s₀ fun _ => 0
  | mapped {s s' : Process} {asked : UInt64 → UInt64} {base : UInt64} (addrHint len prot flags : UInt64) (hrun : Runs s₀ s asked)
      (hcall : syscallDoMmap addrHint len prot flags s = (.ok base, s')) : Runs s₀ s' (update asked base prot)
  | refused {s s' : Process} {asked : UInt64 → UInt64} (addrHint len prot flags : UInt64) (hrun : Runs s₀ s asked)
      (hcall : syscallDoMmap addrHint len prot flags s = (.fail, s')) : Runs s₀ s' asked
  | munmap {s : Process} {asked : UInt64 → UInt64} (addr len : UInt64) (hrun : Runs s₀ s asked) :
      Runs s₀ (syscallDoMunmap addr len s).2 asked
  | brk {s : Process} {asked : UInt64 → UInt64} (newBreak : UInt64) (hrun : Runs s₀ s asked) : Runs s₀ (syscallBrk newBreak s).2 asked

/-- A page was not mapped when the program started, and is mapped as it was asked for. -/
structure MappedAs (s₀ s : Process) (prot v : UInt64) : Prop where
  canonical : Canonical v
  fresh : leaf s₀.user.mem.tables v = none
  backed : ∃ F, Backed s.user.mem (mapFlags prot) v F ∧ s₀.user.mem.used F.no = false
  user : MappedWith s.user.mem.tables v PAGE_FLAG_USER
  writable : MappedWith s.user.mem.tables v PAGE_FLAG_WRITABLE ↔ prot &&& MMAP_PROT_WRITE ≠ 0
  executable : Executable s.user.mem.tables v ↔ prot &&& MMAP_PROT_EXEC ≠ 0

/-- Pages were unmapped and their frames freed, and no others. -/
structure Released (P : UInt64 → Prop) (m m' : Mem) : Prop where
  gone : ∀ v, P v → leaf m'.tables v = none
  kept : ∀ a, (∀ v, P v → place a ≠ place v) → leaf m'.tables a = leaf m.tables a
  frames : ∀ k, m'.used k = true ↔ m.used k = true ∧ ¬ ∃ v, P v ∧ (Frame.of (pagingGetPhys m.tables v)).no = k

/-- A call of `mmap` enters one region that holds the length, or changes nothing but frames of tables. -/
structure MmapCall (s : Process) (len : UInt64) (r : Outcome UInt64 × Process) : Prop where
  returns : r.1 ≠ .hang
  failed : r.1 = .fail → ∃ m, r.2 = s.withMem m ∧ Unchanged s.user.mem m
  granted : ∀ base, r.1 = .ok base → ∃ i, (s.mmapTbl i).used = false ∧ r.2.mmapTbl = update s.mmapTbl i ⟨base, pagesOf len, true⟩ ∧
    len.toNat ≤ (pagesOf len).toNat * 4096

/-- A call of `munmap` releases the region at the address, or changes nothing. -/
structure MunmapCall (s : Process) (addr : UInt64) (r : Outcome Unit × Process) : Prop where
  returns : r.1 ≠ .hang
  failed : r.1 = .fail → r.2 = s ∧ ∀ i, (s.mmapTbl i).used = true → (s.mmapTbl i).virtAddr ≠ addr
  granted : r.1 = .ok () → ∃ i m, (s.mmapTbl i).used = true ∧ (s.mmapTbl i).virtAddr = addr ∧
    (∀ j, (s.mmapTbl j).used = true → (s.mmapTbl j).virtAddr = addr → j = i) ∧
    r.2 = { s.withMem m with mmapTbl := update s.mmapTbl i .unused } ∧ Released (s.Live i) s.user.mem m

/-- The cleanup releases all regions; what remains is the memory of the start and the heap. -/
structure CleanupCall (s₀ s : Process) (r : Outcome Unit × Process) : Prop where
  returns : r.1 = .ok ()
  tbl : ∀ i, (r.2.mmapTbl i).used = false
  bump : r.2.mmapBump = MMAP_VA_BASE
  user : ∃ m, r.2.user = { s.user with mem := m } ∧ Released (fun v => ∃ i, s.Live i v) s.user.mem m ∧
    ∀ a, (∀ v, s.HeapPage v → place a ≠ place v) → leaf m.tables a = leaf s₀.user.mem.tables a

/-- The promises to a program that has asked for its regions as `asked` says. -/
structure MmapSafe (s₀ s : Process) (asked : UInt64 → UInt64) : Prop where
  disjoint : ∀ i j v, s.Live i v → s.Live j v → i = j
  elsewhere : ∀ i v, s.Live i v → ¬ s.HeapPage v
  kept : ∀ a, leaf s₀.user.mem.tables a ≠ none → leaf s.user.mem.tables a = leaf s₀.user.mem.tables a
  mapped : ∀ i v, s.Live i v → MappedAs s₀ s (asked (s.mmapTbl i).virtAddr) v
  own : ∀ v w e e' F, s.Owns v → s.Owns w → Backed s.user.mem e v F → Backed s.user.mem e' w F → v = w
  mmap : ∀ addrHint len prot flags, MmapCall s len (syscallDoMmap addrHint len prot flags s)
  munmap : ∀ addr len, MunmapCall s addr (syscallDoMunmap addr len s)
  cleanup : CleanupCall s₀ s (syscallMmapCleanup s)

variable {D : UInt64 → Prop} {s₀ s : Process} {asked φ : UInt64 → UInt64} {f : UInt64 → Frame} {m m' : Mem} {P : UInt64 → Prop} {l : List UInt64}

theorem has_mapFlags_user (prot : UInt64) : has (mapFlags prot) PAGE_FLAG_USER = true := by
  unfold mapFlags
  dsimp only
  split_ifs <;> decide

theorem has_mapFlags_writable (prot : UInt64) : has (mapFlags prot) PAGE_FLAG_WRITABLE = true ↔ prot &&& MMAP_PROT_WRITE ≠ 0 := by
  unfold mapFlags
  dsimp only
  split_ifs with hexec hwrite hwrite
  · exact iff_of_true (by decide) hwrite
  · exact iff_of_false (by decide) hwrite
  · exact iff_of_true (by decide) hwrite
  · exact iff_of_false (by decide) hwrite

theorem has_mapFlags_noExecute (prot : UInt64) : has (mapFlags prot) PAGE_FLAG_NO_EXECUTE = false ↔ prot &&& MMAP_PROT_EXEC ≠ 0 := by
  unfold mapFlags
  dsimp only
  split_ifs with hexec hwrite hwrite
  · exact iff_of_false (by decide) (not_not.2 hexec)
  · exact iff_of_false (by decide) (not_not.2 hexec)
  · exact iff_of_true (by decide) hexec
  · exact iff_of_true (by decide) hexec

/-! ### Releasing -/

theorem Released.of_drops (h : Drops l (l.map fun v => (f v).no) m m') (hl : ∀ v, P v ↔ v ∈ l)
    (hphys : ∀ v ∈ l, pagingGetPhys m.tables v = (f v).1) : Released P m m' where
  gone v hv := h.gone v ⟨v, (hl v).1 hv, rfl⟩
  kept a ha := h.kept a fun v hv => ha v ((hl v).2 hv)
  frames k := by
    rw [h.used]
    apply and_congr_right
    intro _
    apply not_congr
    rw [List.mem_map]
    constructor
    · rintro ⟨v, hv, rfl⟩
      exact ⟨v, (hl v).2 hv, by rw [hphys v hv, Frame.of_val]⟩
    · rintro ⟨v, hv, rfl⟩
      exact ⟨v, (hl v).1 hv, by rw [hphys v ((hl v).1 hv), Frame.of_val]⟩

namespace MmapInv

section

variable (h : MmapInv (fun _ => False) s₀ s asked φ f)
include h

/-- All regions of some slots are released. -/
theorem releaseAll (slots : List Slot) :
    ∃ m pages tbl, slots.forM releaseLive s = (.ok (), { s.withMem m with mmapTbl := tbl }) ∧
      Drops pages (pages.map fun v => (f v).no) s.user.mem m ∧ (∀ v, v ∈ pages ↔ ∃ i ∈ slots, s.Live i v) ∧
      (∀ i, i ∈ slots ∨ (s.mmapTbl i).used = false → (tbl i).used = false) ∧ MmapInv (fun _ => False) s₀ { s.withMem m with mmapTbl := tbl } asked φ f := by
  induction slots generalizing s with
  | nil =>
    refine ⟨s.user.mem, [], s.mmapTbl, rfl, ⟨Shrinks.refl h.holds.wf, Paths.refl _⟩, ?_, ?_, h⟩
    · simp
    · simp
  | cons slot slots ih =>
    by_cases hslot : (s.mmapTbl slot).used = true
    · obtain ⟨m₁, hrun₁, hd₁⟩ := h.releaseSlot hslot
      have hfirst : releaseLive slot s = (.ok (), { s.withMem m₁ with mmapTbl := update s.mmapTbl slot .unused }) := by
        unfold releaseLive
        rw [bind_ok (gets_apply _ _), id_eq, if_pos hslot, hrun₁]
      obtain ⟨m, pages, tbl, hrun, hd, hpages, htbl, hinv⟩ := ih (h.released hslot hd₁)
      refine ⟨m, _ ++ pages, tbl, (bind_ok hfirst).trans hrun, List.map_append ▸ hd₁.trans hd, ?_, ?_, hinv⟩
      · intro v
        rw [List.mem_append, hpages]
        constructor
        · rintro (hv | ⟨i, hi, hv⟩)
          · exact ⟨slot, List.mem_cons_self, hslot, hv⟩
          · exact ⟨i, List.mem_cons_of_mem _ hi, ((live_cleared s slot _ i v).1 hv).2⟩
        · rintro ⟨i, hi, hv⟩
          by_cases heq : i = slot
          · subst heq
            exact .inl hv.2
          · exact .inr ⟨i, (List.mem_cons.1 hi).resolve_left heq, (live_cleared s slot _ i v).2 ⟨heq, hv⟩⟩
      · intro i hi
        apply htbl
        by_cases heq : i = slot
        · right
          show (update s.mmapTbl slot MmapEntry.unused i).used = false
          rw [heq, update_self]
          rfl
        · rcases hi with hi | hi
          · exact .inl ((List.mem_cons.1 hi).resolve_left heq)
          · right
            show (update s.mmapTbl slot MmapEntry.unused i).used = false
            rwa [update_of_ne heq]
    · have hfirst : releaseLive slot s = (.ok (), s) := by
        unfold releaseLive
        rw [bind_ok (gets_apply _ _), id_eq, if_neg hslot]
        rfl
      obtain ⟨m, pages, tbl, hrun, hd, hpages, htbl, hinv⟩ := ih h
      refine ⟨m, pages, tbl, (bind_ok hfirst).trans hrun, hd, ?_, ?_, hinv⟩
      · intro v
        rw [hpages]
        constructor
        · exact fun ⟨i, hi, hv⟩ => ⟨i, List.mem_cons_of_mem _ hi, hv⟩
        · rintro ⟨i, hi, hv⟩
          refine ⟨i, (List.mem_cons.1 hi).resolve_left ?_, hv⟩
          rintro rfl
          exact hslot hv.1
      · intro i hi
        apply htbl
        rcases hi with hi | hi
        · rcases List.mem_cons.1 hi with rfl | hi
          · exact .inr (Bool.eq_false_of_not_eq_true hslot)
          · exact .inl hi
        · exact .inr hi

theorem cleanup : CleanupCall s₀ s (syscallMmapCleanup s) := by
  obtain ⟨m, pages, tbl, hrun, hd, hpages, htbl, hinv⟩ := h.releaseAll (List.finRange 16)
  have hall : ∀ i, (tbl i).used = false := fun i => htbl i (.inl (List.mem_finRange i))
  have hlive : ∀ v, (∃ i, s.Live i v) ↔ v ∈ pages := by
    intro v
    rw [hpages]
    exact ⟨fun ⟨i, hv⟩ => ⟨i, List.mem_finRange i, hv⟩, fun ⟨i, _, hv⟩ => ⟨i, hv⟩⟩
  have hcall : syscallMmapCleanup s = (.ok (), ⟨{ s.user with mem := m }, tbl, MMAP_VA_BASE⟩) := by
    unfold syscallMmapCleanup
    rw [bind_ok hrun]
    rfl
  rw [hcall]
  refine ⟨rfl, hall, rfl, m, rfl, ?_, ?_⟩
  · apply Released.of_drops hd hlive
    intro v hv
    obtain ⟨i, hv⟩ := (hlive v).2 hv
    exact (h.holds.backed v (.inl (.inr ⟨i, hv⟩))).phys (h.layout.live_iff.1 hv).2.1
  · intro a ha
    apply hinv.holds.others a
    rintro v ((hv | ⟨i, hv⟩) | hv)
    · exact ha v hv
    · have hused := hv.1
      rw [show (({ s.withMem m with mmapTbl := tbl } : Process).mmapTbl i).used = (tbl i).used from rfl, hall] at hused
      cases hused
    · exact hv.elim

theorem munmapCall (addr len : UInt64) : MunmapCall s addr (syscallDoMunmap addr len s) := by
  unfold syscallDoMunmap
  rw [bind_ok (gets_apply _ _), id_eq]
  cases hslot : s.slotAt addr with
  | none =>
    refine ⟨nofun, fun _ => ⟨rfl, ?_⟩, nofun⟩
    intro i hused haddr
    have hnone := List.find?_eq_none.1 hslot i (List.mem_finRange i)
    simp [hused, haddr] at hnone
  | some slot =>
    obtain ⟨hused, haddr⟩ := slotAt_some hslot
    obtain ⟨m, hrun, hd⟩ := h.releaseSlot hused
    show MunmapCall s addr (Mmap.releaseSlot slot s)
    rw [hrun]
    refine ⟨nofun, nofun, fun _ => ⟨slot, m, hused, haddr, ?_, rfl, ?_⟩⟩
    · exact fun j hj hj' => h.layout.slot_unique hj hused (hj'.trans haddr.symm)
    · apply Released.of_drops hd fun v => ⟨fun hv => hv.2, fun hv => ⟨hused, hv⟩⟩
      intro v hv
      have hlive : s.Live slot v := ⟨hused, hv⟩
      exact (h.holds.backed v (.inl (.inr ⟨slot, hlive⟩))).phys (h.layout.live_iff.1 hlive).2.1

theorem mmapCall (addrHint len prot flags : UInt64) : MmapCall s len (syscallDoMmap addrHint len prot flags s) := by
  have hends := syscallDoMmap_ends h.holds.wf h.layout.aligned addrHint len prot flags
  generalize syscallDoMmap addrHint len prot flags s = r at hends
  cases hends with
  | refused hr => exact ⟨nofun, fun _ => ⟨_, rfl, hr.unchanged⟩, nofun⟩
  | mapped hslot hpos =>
    refine ⟨nofun, nofun, fun base hbase => ⟨_, freeSlot_some hslot, ?_, pagesOf_covers hpos⟩⟩
    cases hbase
    rfl

/-! ### The promises -/

theorem mappedAs (hm : Permissive s₀.user.mem) {i : Slot} {v : UInt64} (hv : s.Live i v) :
    MappedAs s₀ s (asked (s.mmapTbl i).virtAddr) v := by
  have howns : s.Owns v ∨ False := .inl (.inr ⟨i, hv⟩)
  have hb := h.holds.backed v howns
  have hopened := h.holds.opened v howns
  rw [h.liveFlags i v hv] at hb hopened
  have huser : has (pageEntry (f v).1 (mapFlags (asked (s.mmapTbl i).virtAddr))) PAGE_FLAG_USER = true :=
    (has_pageEntry_flag _ _ (by decide) (by decide) (by decide)).trans (has_mapFlags_user _)
  have hwritable : has (pageEntry (f v).1 (mapFlags (asked (s.mmapTbl i).virtAddr))) PAGE_FLAG_WRITABLE = _ :=
    has_pageEntry_flag _ _ (by decide) (by decide) (by decide)
  have hnx : has (pageEntry (f v).1 (mapFlags (asked (s.mmapTbl i).virtAddr))) PAGE_FLAG_NO_EXECUTE = _ :=
    has_pageEntry_flag _ _ (by decide) (by decide) (by decide)
  refine ⟨h.layout.canonical_of_live hv, h.holds.absent v howns, ⟨f v, hb, h.holds.free v howns⟩, ?_, ?_, ?_⟩
  · exact (hopened _ (.inl rfl) (has_mapFlags_user _)).mappedWith h.holds.wf hb.leaf huser
  · rw [← has_mapFlags_writable]
    constructor
    · intro hmapped
      rw [← hwritable]
      exact has_of_mappedWith h.holds.wf hb.leaf hmapped
    · intro hflag
      exact (hopened _ (.inr rfl) hflag).mappedWith h.holds.wf hb.leaf (hwritable.trans hflag)
  · rw [executable_iff h.holds.wf (h.holds.paths.permissive hm) hb.leaf, hnx, has_mapFlags_noExecute]

theorem frame_eq {v e : UInt64} {F : Frame} (hv : s.Owns v) (hb : Backed s.user.mem e v F) : F = f v := by
  have hleaf := hb.leaf
  rw [(h.holds.backed v (.inl hv)).leaf, Option.some.injEq, Leaf.small.injEq] at hleaf
  rw [← Frame.of_pageEntry F e, ← hleaf, Frame.of_pageEntry]

theorem safe (hstart : Started s₀) : MmapSafe s₀ s asked where
  disjoint i j v hi hj := h.layout.live_unique hi hj
  elsewhere i v hv := h.not_heapPage hv
  kept a ha := by
    apply h.holds.others
    intro v hv hplace
    rw [leaf_congr hstart.wf hplace, h.holds.absent v hv] at ha
    exact ha rfl
  mapped i v hv := h.mappedAs hstart.permissive hv
  own v w e e' F hv hw hF hF' := h.holds.inj v w (.inl hv) (.inl hw) ((h.frame_eq hv hF).symm.trans (h.frame_eq hw hF'))
  mmap := h.mmapCall
  munmap := h.munmapCall
  cleanup := h.cleanup

end

end MmapInv

theorem Runs.inv (hstart : Started s₀) (hrun : Runs s₀ s asked) : ∃ φ f, MmapInv (fun _ => False) s₀ s asked φ f := by
  induction hrun with
  | start => exact ⟨fun _ => 0, fun _ => s₀.user.mem.tables.root, hstart.inv _ _ _⟩
  | @mapped s s' asked base addrHint len prot flags _ hcall ih =>
    obtain ⟨φ, f, h⟩ := ih
    have hends := syscallDoMmap_ends h.holds.wf h.layout.aligned addrHint len prot flags
    rw [hcall] at hends
    cases hends with
    | mapped hslot hpos hle hl => exact ⟨_, _, h.mapped (freeSlot_some hslot) hpos hle hl⟩
  | @refused s s' asked addrHint len prot flags _ hcall ih =>
    obtain ⟨φ, f, h⟩ := ih
    have hends := syscallDoMmap_ends h.holds.wf h.layout.aligned addrHint len prot flags
    rw [hcall] at hends
    cases hends with
    | refused hr => exact ⟨φ, f, h.restored hr⟩
  | munmap addr len _ ih =>
    obtain ⟨φ, f, h⟩ := ih
    exact ⟨φ, f, h.munmap addr len⟩
  | brk newBreak _ ih =>
    obtain ⟨φ, f, h⟩ := ih
    exact h.brk newBreak

/-- A program without an image. -/
def bareProcess : Process := ⟨⟨bare, userHeapBase, userHeapLimit, userHeapBase⟩, fun _ => .unused, MMAP_VA_BASE⟩

theorem started_bareProcess : Started bareProcess where
  wf := wellFormed_bare
  permissive := by
    intro p F i _ _ hnext
    exact absurd (show next 0 = none by decide) hnext
  base := rfl
  limit := rfl
  brk := rfl
  tbl _ := rfl
  bump := rfl

end Tg11Kernel.Mmap
