import Tg11Kernel.Mmap.Regions

/-! What a program holds after any calls: the pages below its break and those of its regions.
The addresses under the bump address all had a table once, and a table stays; as there are
fewer tables than frames the bump address never reaches the end of the lower half. -/

namespace Tg11Kernel.Mmap

open Lib Exec Memory Heap Function

/-- Every page between the start of the window and the bump address has a table. -/
def Walked (m : Mem) (bump : UInt64) : Prop :=
  ∀ v, Aligned v → MMAP_VA_BASE.toNat ≤ v.toNat → v.toNat < bump.toNat → ∃ F, m.tables.walk (path v) = some F

variable {m : Mem} {bump : UInt64}

theorem Walked.paths {m' : Mem} (h : Walked m bump) (hp : Paths m m') : Walked m' bump :=
  fun v hal hle hlt => (h v hal hle hlt).imp fun F hF => hp.walk _ F (path_le v) hF

theorem Walked.bump_le (h : Walked m bump) (wf : WellFormed m) (hbump : bump.toNat ≤ 2 ^ 47 + 2 ^ 20) :
    bump.toNat ≤ 2 ^ 47 := by
  have hbase : MMAP_VA_BASE.toNat = 2 ^ 38 := rfl
  have hmax : MEMORY_MAX_PAGES = 2 ^ 20 := rfl
  have hle : (bump.toNat - 2 ^ 38) / 2 ^ 21 ≤ MEMORY_MAX_PAGES := by
    apply @le_of_walk _ wf (2 ^ 38)
    · omega
    · intro i hi
      have hnat : (UInt64.ofNat (2 ^ 38 + i * 2 ^ 21)).toNat = 2 ^ 38 + i * 2 ^ 21 :=
        UInt64.toNat_ofNat_of_lt' (by unfold UInt64.size; omega)
      apply h
      · rw [aligned_iff, hnat]
        omega
      · rw [hnat, hbase]
        omega
      · rw [hnat]
        omega
  omega

/-- The account of a program that has asked for its regions as `asked` says: page `v` has the
flags `φ v` and the frame `f v`. The pages in `D` it got in another way. -/
structure MmapInv (D : UInt64 → Prop) (s₀ s : Process) (asked φ : UInt64 → UInt64) (f : UInt64 → Frame) : Prop where
  holds : Holds (fun v => s.Owns v ∨ D v) φ f s₀.user.mem s.user.mem
  apart : ∀ v, D v → ¬ s.Owns v
  layout : Layout s.mmapTbl s.mmapBump
  heapFlags : ∀ v, s.HeapPage v → φ v = userHeapFlags
  liveFlags : ∀ i v, s.Live i v → φ v = mapFlags (asked (s.mmapTbl i).virtAddr)
  base : s.user.base = userHeapBase
  limit : s.user.limit = userHeapLimit
  base_le : userHeapBase ≤ s.user.brk
  le_limit : s.user.brk ≤ userHeapLimit
  walked : Walked s.user.mem s.mmapBump

theorem Started.inv {s₀ : Process} (h : Started s₀) (asked φ : UInt64 → UInt64) (f : UInt64 → Frame) :
    MmapInv (fun _ => False) s₀ s₀ asked φ f := by
  have hheap : ∀ v, ¬ s₀.HeapPage v := by
    rintro v ⟨-, hle, hlt⟩
    rw [h.brk] at hlt
    exact UInt64.not_lt.2 hle hlt
  have hlive : ∀ i v, ¬ s₀.Live i v := by
    rintro i v ⟨hused, -⟩
    rw [h.tbl] at hused
    cases hused
  constructor
  case holds =>
    apply (Holds.nothing h.wf φ f).congr
    intro v
    constructor
    · rintro ((hv | ⟨i, hv⟩) | hv)
      · exact hheap v hv
      · exact hlive i v hv
      · exact hv
    · exact False.elim
  case apart => exact fun v hv => hv.elim
  case layout =>
    constructor
    case within =>
      intro i hused
      rw [h.tbl] at hused
      cases hused
    case apart =>
      intro i j hused
      rw [h.tbl] at hused
      cases hused
    case aligned =>
      rw [h.bump]
      decide
    case base_le => rw [h.bump]
    case bump_le =>
      rw [h.bump]
      decide
  case heapFlags => exact fun v hv => absurd hv (hheap v)
  case liveFlags => exact fun i v hv => absurd hv (hlive i v)
  case base => exact h.base
  case limit => exact h.limit
  case base_le => exact UInt64.le_of_eq h.brk.symm
  case le_limit =>
    rw [h.brk]
    decide
  case walked =>
    intro v _ hle hlt
    rw [h.bump] at hlt
    omega

namespace MmapInv

variable {D : UInt64 → Prop} {s₀ s : Process} {asked φ : UInt64 → UInt64} {f : UInt64 → Frame} {m : Mem} {v : UInt64} {i slot : Slot} {l : List UInt64}

theorem heapPage_lt (h : MmapInv D s₀ s asked φ f) (hv : s.HeapPage v) : v.toNat < MMAP_VA_BASE.toNat := by
  have hlimit : userHeapLimit.toNat = 0x1FFFFF0000 := rfl
  have hbase : MMAP_VA_BASE.toNat = 0x4000000000 := rfl
  have hlt := UInt64.lt_iff_toNat_lt.1 hv.2.2
  have hle := UInt64.le_iff_toNat_le.1 h.le_limit
  omega

theorem not_heapPage (h : MmapInv D s₀ s asked φ f) (hv : s.Live i v) : ¬ s.HeapPage v := by
  intro hheap
  have hlt := h.heapPage_lt hheap
  have hbounds := h.layout.live_bounds hv
  omega

theorem restored (h : MmapInv D s₀ s asked φ f) (hr : Restored s.user.mem m) : MmapInv D s₀ (s.withMem m) asked φ f where
  holds := h.holds.restored hr
  apart := h.apart
  layout := h.layout
  heapFlags := h.heapFlags
  liveFlags := h.liveFlags
  base := h.base
  limit := h.limit
  base_le := h.base_le
  le_limit := h.le_limit
  walked := h.walked.paths hr.paths

/-! ### The break -/

variable {addr : UInt64}

theorem rounds_of_le (h : addr ≤ userHeapLimit) : Rounds addr := by
  have hlimit : userHeapLimit.toNat = 0x1FFFFF0000 := rfl
  have hle := UInt64.le_iff_toNat_le.1 h
  unfold Rounds
  omega

section

variable (h : MmapInv D s₀ s asked φ f)
include h

variable {n : UInt64} {g : UInt64 → Frame}

theorem grown (hlt : s.user.brk < n) (hle : n ≤ userHeapLimit)
    (hl : Laid userHeapFlags (pageSpan (alignUpPage s.user.brk) (alignUpPage n)) g s.user.mem m) :
    MmapInv D s₀ { s with user := { s.user with mem := m, brk := n } } asked
      (fun v => if v ∈ pageSpan (alignUpPage s.user.brk) (alignUpPage n) then userHeapFlags else φ v)
      (fun v => if v ∈ pageSpan (alignUpPage s.user.brk) (alignUpPage n) then g v else f v) := by
  have hspan {v : UInt64} : v ∈ pageSpan (alignUpPage s.user.brk) (alignUpPage n) ↔ Aligned v ∧ s.user.brk ≤ v ∧ v < n :=
    mem_pageSpan_alignUpPage (rounds_of_le h.le_limit) (rounds_of_le hle)
  have hpage : ∀ v, (Aligned v ∧ userHeapBase ≤ v ∧ v < n) ↔
      s.HeapPage v ∨ v ∈ pageSpan (alignUpPage s.user.brk) (alignUpPage n) := by
    intro v
    rw [hspan]
    constructor
    · rintro ⟨hal, hbase, hn⟩
      by_cases hbrk : v < s.user.brk
      · exact .inl ⟨hal, hbase, hbrk⟩
      · exact .inr ⟨hal, UInt64.not_lt.1 hbrk, hn⟩
    · rintro (⟨hal, hbase, hbrk⟩ | ⟨hal, hbrk, hn⟩)
      · exact ⟨hal, hbase, UInt64.lt_trans hbrk hlt⟩
      · exact ⟨hal, UInt64.le_trans h.base_le hbrk, hn⟩
  have hlive : ∀ i v, s.Live i v → v ∉ pageSpan (alignUpPage s.user.brk) (alignUpPage n) := by
    intro i v hv hmem
    have hn := UInt64.lt_iff_toNat_lt.1 (hspan.1 hmem).2.2
    have hbounds := h.layout.live_bounds hv
    have hlimit : userHeapLimit.toNat = 0x1FFFFF0000 := rfl
    have hbase : MMAP_VA_BASE.toNat = 0x4000000000 := rfl
    have hle' := UInt64.le_iff_toNat_le.1 hle
    omega
  constructor
  case holds =>
    apply (h.holds.laid hl fun v hv => (hspan.1 hv).1).congr
    intro v
    constructor
    · rintro ((hv | hv) | hv)
      · rcases (hpage v).1 hv with hv | hv
        · exact .inl (.inl (.inl hv))
        · exact .inr hv
      · exact .inl (.inl (.inr hv))
      · exact .inl (.inr hv)
    · rintro (((hv | hv) | hv) | hv)
      · exact .inl (.inl ((hpage v).2 (.inl hv)))
      · exact .inl (.inr hv)
      · exact .inr hv
      · exact .inl (.inl ((hpage v).2 (.inr hv)))
  case apart =>
    rintro v hv (hnew | hlive)
    · rcases (hpage v).1 hnew with hold | hnew
      · exact h.apart v hv (.inl hold)
      · exact h.holds.not_mem_of_laid hl (.inr hv) hnew
    · exact h.apart v hv (.inr hlive)
  case heapFlags =>
    intro v hv
    rcases (hpage v).1 hv with hv | hv
    · split_ifs
      · rfl
      · exact h.heapFlags v hv
    · rw [if_pos hv]
  case liveFlags =>
    intro i v hv
    rw [if_neg (hlive i v hv)]
    exact h.liveFlags i v hv
  case layout => exact h.layout
  case base => exact h.base
  case limit => exact h.limit
  case base_le => exact UInt64.le_trans h.base_le (UInt64.le_of_lt hlt)
  case le_limit => exact hle
  case walked => exact h.walked.paths hl.paths

/-- Pages of the program have frames of their own. -/
theorem nodup_frames (hl : ∀ v ∈ l, s.Owns v) (hnodup : l.Nodup) : (l.map f).Nodup :=
  List.Nodup.map_on (fun v hv w hw heq => h.holds.inj v w (.inl (hl v hv)) (.inl (hl w hw)) heq) hnodup

theorem heapSpan (hbase : userHeapBase ≤ n) (hlt : n < s.user.brk) :
    v ∈ pageSpan (alignUpPage n) (alignUpPage s.user.brk) ↔ s.HeapPage v ∧ n ≤ v := by
  rw [mem_pageSpan_alignUpPage (rounds_of_le (UInt64.le_trans (UInt64.le_of_lt hlt) h.le_limit)) (rounds_of_le h.le_limit)]
  constructor
  · exact fun ⟨hal, hn, hbrk⟩ => ⟨⟨hal, UInt64.le_trans hbase hn, hbrk⟩, hn⟩
  · exact fun ⟨⟨hal, _, hbrk⟩, hn⟩ => ⟨hal, hn, hbrk⟩

theorem unmapRange (hbase : userHeapBase ≤ n) (hlt : n < s.user.brk) :
    ∃ m, userHeapUnmapRange (alignUpPage n) (alignUpPage s.user.brk) s.user.mem = (.ok (), m) ∧
      Drops (pageSpan (alignUpPage n) (alignUpPage s.user.brk))
        ((pageSpan (alignUpPage n) (alignUpPage s.user.brk)).map fun v => (f v).no) s.user.mem m := by
  apply @unmapRange_shrinks _ userHeapFlags _ _ h.holds.wf
  · exact fun v hv => ((h.heapSpan hbase hlt).1 hv).1.1
  · intro v hv
    have hpage := ((h.heapSpan hbase hlt).1 hv).1
    rw [← h.heapFlags v hpage]
    exact h.holds.backed v (.inl (.inl hpage))
  · apply h.nodup_frames
    · exact fun v hv => .inl ((h.heapSpan hbase hlt).1 hv).1
    · exact pageSpan_nodup _ _

theorem shrunk (hbase : userHeapBase ≤ n) (hlt : n < s.user.brk)
    (hd : Drops (pageSpan (alignUpPage n) (alignUpPage s.user.brk))
      ((pageSpan (alignUpPage n) (alignUpPage s.user.brk)).map fun v => (f v).no) s.user.mem m) :
    MmapInv D s₀ { s with user := { s.user with mem := m, brk := n } } asked φ f := by
  have hless : ∀ v, Aligned v ∧ userHeapBase ≤ v ∧ v < n → s.HeapPage v := fun v ⟨hal, hle, hn⟩ => ⟨hal, hle, UInt64.lt_trans hn hlt⟩
  constructor
  case holds =>
    apply (h.holds.drops hd fun v hv => .inl (.inl ((h.heapSpan hbase hlt).1 hv).1)).congr
    intro v
    rw [h.heapSpan hbase hlt]
    constructor
    · rintro ((hv | ⟨i, hv⟩) | hv)
      · exact ⟨.inl (.inl (hless v hv)), fun hmem => UInt64.not_lt.2 hmem.2 hv.2.2⟩
      · exact ⟨.inl (.inr ⟨i, hv⟩), fun hmem => h.not_heapPage hv hmem.1⟩
      · exact ⟨.inr hv, fun hmem => h.apart v hv (.inl hmem.1)⟩
    · rintro ⟨(hv | hv) | hv, hmem⟩
      · refine .inl (.inl ⟨hv.1, hv.2.1, ?_⟩)
        by_contra hn
        exact hmem ⟨hv, UInt64.not_lt.1 hn⟩
      · exact .inl (.inr hv)
      · exact .inr hv
  case apart =>
    rintro v hv (hheap | hlive)
    · exact h.apart v hv (.inl (hless v hheap))
    · exact h.apart v hv (.inr hlive)
  case heapFlags => exact fun v hv => h.heapFlags v (hless v hv)
  case liveFlags => exact h.liveFlags
  case layout => exact h.layout
  case base => exact h.base
  case limit => exact h.limit
  case base_le => exact hbase
  case le_limit => exact UInt64.le_trans (UInt64.le_of_lt hlt) h.le_limit
  case walked => exact h.walked.paths hd.paths

theorem brk (n : UInt64) : ∃ φ' f', MmapInv D s₀ (syscallBrk n s).2 asked φ' f' := by
  have hmoves := taskUserHeapBrk_moves (n := n) h.holds.wf fun hbase hlt => h.unmapRange (h.base ▸ hbase) hlt
  unfold syscallBrk onUser
  generalize taskUserHeapBrk n s.user = r at hmoves
  cases hmoves with
  | read => exact ⟨φ, f, h⟩
  | refused hr => exact ⟨φ, f, h.restored hr⟩
  | grown hlt hle hl => exact ⟨_, _, h.grown hlt (h.limit ▸ hle) hl⟩
  | shrunk hbase hlt hd => exact ⟨φ, f, h.shrunk (h.base ▸ hbase) hlt hd⟩

/-! ### The regions -/

theorem mapped {len prot : UInt64} (hslot : (s.mmapTbl slot).used = false)
    (hpos : pagesOf len ≠ 0) (hle : pagesOf len ≤ 256)
    (hl : Laid (mapFlags prot) (regionPages s.mmapBump (pagesOf len).toNat) g s.user.mem m) :
    MmapInv D s₀ ⟨{ s.user with mem := m }, update s.mmapTbl slot ⟨s.mmapBump, pagesOf len, true⟩, s.mmapBump + pagesOf len * MEMORY_PAGE_SIZE⟩
      (update asked s.mmapBump prot)
      (fun v => if v ∈ regionPages s.mmapBump (pagesOf len).toNat then mapFlags prot else φ v)
      (fun v => if v ∈ regionPages s.mmapBump (pagesOf len).toNat then g v else f v) := by
  have hcount : (pagesOf len).toNat ≤ 256 := UInt64.le_iff_toNat_le.1 hle
  have hpos' : 0 < (pagesOf len).toNat := Nat.pos_of_ne_zero fun hzero => hpos (UInt64.toNat_inj.1 hzero)
  have hbump := h.layout.bump_le
  have hnat := h.layout.bump_add hcount
  have hmem {v : UInt64} : v ∈ regionPages s.mmapBump (pagesOf len).toNat ↔
      Aligned v ∧ s.mmapBump.toNat ≤ v.toNat ∧ v.toNat < s.mmapBump.toNat + (pagesOf len).toNat * 4096 :=
    mem_regionPages h.layout.aligned (by omega)
  have hwf := hl.grows.wf
  have hwalked : Walked m (s.mmapBump + pagesOf len * MEMORY_PAGE_SIZE) := by
    intro v hal hbase hlt
    rw [hnat] at hlt
    by_cases hold : v.toNat < s.mmapBump.toNat
    · exact (h.walked.paths hl.paths) v hal hbase hold
    · exact hl.walked v (hmem.2 ⟨hal, Nat.not_lt.1 hold, hlt⟩)
  have hlive : ∀ i v, (⟨{ s.user with mem := m }, update s.mmapTbl slot ⟨s.mmapBump, pagesOf len, true⟩,
      s.mmapBump + pagesOf len * MEMORY_PAGE_SIZE⟩ : Process).Live i v ↔
      i = slot ∧ v ∈ regionPages s.mmapBump (pagesOf len).toNat ∨ i ≠ slot ∧ s.Live i v := by
    intro i v
    unfold Process.Live
    by_cases hi : i = slot
    · simp [hi]
    · simp [hi, update_of_ne hi]
  have hold : ∀ i v, s.Live i v → i ≠ slot ∧ v ∉ regionPages s.mmapBump (pagesOf len).toNat := by
    intro i v hv
    refine ⟨?_, fun hnew => ?_⟩
    · rintro rfl
      rw [hv.1] at hslot
      cases hslot
    · have hbounds := h.layout.live_bounds hv
      have hge := (hmem.1 hnew).2.1
      omega
  constructor
  case holds =>
    apply (h.holds.laid hl fun v hv => (hmem.1 hv).1).congr
    intro v
    constructor
    · rintro ((hv | ⟨i, hv⟩) | hv)
      · exact .inl (.inl (.inl hv))
      · rcases (hlive i v).1 hv with ⟨-, hv⟩ | ⟨-, hv⟩
        · exact .inr hv
        · exact .inl (.inl (.inr ⟨i, hv⟩))
      · exact .inl (.inr hv)
    · rintro (((hv | ⟨i, hv⟩) | hv) | hv)
      · exact .inl (.inl hv)
      · exact .inl (.inr ⟨i, (hlive i v).2 (.inr ⟨(hold i v hv).1, hv⟩)⟩)
      · exact .inr hv
      · exact .inl (.inr ⟨slot, (hlive slot v).2 (.inl ⟨rfl, hv⟩)⟩)
  case apart =>
    rintro v hv (hheap | ⟨i, hlive'⟩)
    · exact h.apart v hv (.inl hheap)
    · rcases (hlive i v).1 hlive' with ⟨-, hnew⟩ | ⟨-, hold⟩
      · exact h.holds.not_mem_of_laid hl (.inr hv) hnew
      · exact h.apart v hv (.inr ⟨i, hold⟩)
  case layout =>
    apply h.layout.enter slot hpos' hcount
    apply hwalked.bump_le hwf
    rw [hnat]
    omega
  case heapFlags =>
    intro v hv
    rw [if_neg]
    · exact h.heapFlags v hv
    · intro hnew
      have hlt := h.heapPage_lt hv
      have hge := (hmem.1 hnew).2.1
      have hbase := h.layout.base_le
      omega
  case liveFlags =>
    intro i v hv
    rcases (hlive i v).1 hv with ⟨rfl, hnew⟩ | ⟨hi, hv⟩
    · rw [if_pos hnew]
      simp
    · rw [if_neg (hold i v hv).2, h.liveFlags i v hv]
      have hne : (s.mmapTbl i).virtAddr ≠ s.mmapBump := by
        have hwithin := h.layout.within i hv.1
        have hpages := hwithin.nonempty
        have hstop := hwithin.le_bump
        unfold MmapEntry.stop at hstop
        intro heq
        rw [heq] at hstop
        omega
      simp only [update_of_ne hi, update_of_ne hne]
  case base => exact h.base
  case limit => exact h.limit
  case base_le => exact h.base_le
  case le_limit => exact h.le_limit
  case walked => exact hwalked

end

theorem live_cleared (s : Process) (slot : Slot) (u : User) (i : Slot) (v : UInt64) :
    ({ s with user := u, mmapTbl := update s.mmapTbl slot .unused } : Process).Live i v ↔ i ≠ slot ∧ s.Live i v := by
  unfold Process.Live
  by_cases hi : i = slot
  · simp [hi, MmapEntry.unused]
  · simp [hi, update_of_ne hi]

section

variable (h : MmapInv D s₀ s asked φ f) (hslot : (s.mmapTbl slot).used = true)
include h hslot

theorem nodup_live : (regionPages (s.mmapTbl slot).virtAddr (s.mmapTbl slot).pageCount.toNat).Nodup := by
  have hstop := (h.layout.within slot hslot).le_bump
  have hbump := h.layout.bump_le
  unfold MmapEntry.stop at hstop
  exact nodup_regionPages (by omega)

theorem releaseSlot :
    ∃ m, releaseSlot slot s = (.ok (), { s.withMem m with mmapTbl := update s.mmapTbl slot .unused }) ∧
      Drops (regionPages (s.mmapTbl slot).virtAddr (s.mmapTbl slot).pageCount.toNat)
        ((regionPages (s.mmapTbl slot).virtAddr (s.mmapTbl slot).pageCount.toNat).map fun v => (f v).no) s.user.mem m := by
  have hlive : ∀ v ∈ regionPages (s.mmapTbl slot).virtAddr (s.mmapTbl slot).pageCount.toNat, s.Live slot v := fun v hv => ⟨hslot, hv⟩
  have hbacked : ∀ v ∈ regionPages (s.mmapTbl slot).virtAddr (s.mmapTbl slot).pageCount.toNat,
      Backed s.user.mem (mapFlags (asked (s.mmapTbl slot).virtAddr)) v (f v) :=
    fun v hv => h.liveFlags slot v (hlive v hv) ▸ h.holds.backed v (.inl (.inr ⟨slot, hlive v hv⟩))
  obtain ⟨m, hrun, hd⟩ := dropPages_drops h.holds.wf
    (fun v hv => aligned_of_mem_regionPages (h.layout.within slot hslot).aligned hv) hbacked
    (h.nodup_frames (fun v hv => .inr ⟨slot, hlive v hv⟩) (h.nodup_live hslot))
  refine ⟨m, ?_, hd⟩
  unfold Mmap.releaseSlot
  rw [bind_ok (gets_apply _ _), id_eq, bind_ok (onUser_onMem_apply hrun)]
  rfl

theorem released (hd : Drops (regionPages (s.mmapTbl slot).virtAddr (s.mmapTbl slot).pageCount.toNat)
      ((regionPages (s.mmapTbl slot).virtAddr (s.mmapTbl slot).pageCount.toNat).map fun v => (f v).no) s.user.mem m) :
    MmapInv D s₀ { s.withMem m with mmapTbl := update s.mmapTbl slot .unused } asked φ f := by
  have hlive : ∀ v ∈ regionPages (s.mmapTbl slot).virtAddr (s.mmapTbl slot).pageCount.toNat, s.Live slot v := fun v hv => ⟨hslot, hv⟩
  have hcleared := live_cleared s slot { s.user with mem := m }
  constructor
  case holds =>
    apply (h.holds.drops hd fun v hv => .inl (.inr ⟨slot, hlive v hv⟩)).congr
    intro v
    constructor
    · rintro ((hv | ⟨i, hv⟩) | hv)
      · exact ⟨.inl (.inl hv), fun hmem => h.not_heapPage (hlive v hmem) hv⟩
      · obtain ⟨hi, hv⟩ := (hcleared i v).1 hv
        exact ⟨.inl (.inr ⟨i, hv⟩), fun hmem => hi (h.layout.live_unique hv (hlive v hmem))⟩
      · exact ⟨.inr hv, fun hmem => h.apart v hv (.inr ⟨slot, hlive v hmem⟩)⟩
    · rintro ⟨(hv | ⟨i, hv⟩) | hv, hmem⟩
      · exact .inl (.inl hv)
      · refine .inl (.inr ⟨i, (hcleared i v).2 ⟨?_, hv⟩⟩)
        rintro rfl
        exact hmem hv.2
      · exact .inr hv
  case apart =>
    rintro v hv (hheap | ⟨i, hlive'⟩)
    · exact h.apart v hv (.inl hheap)
    · exact h.apart v hv (.inr ⟨i, ((hcleared i v).1 hlive').2⟩)
  case layout => exact h.layout.release slot
  case heapFlags => exact h.heapFlags
  case liveFlags =>
    intro i v hv
    obtain ⟨hi, hv⟩ := (hcleared i v).1 hv
    show φ v = mapFlags (asked (update s.mmapTbl slot MmapEntry.unused i).virtAddr)
    rw [update_of_ne hi]
    exact h.liveFlags i v hv
  case base => exact h.base
  case limit => exact h.limit
  case base_le => exact h.base_le
  case le_limit => exact h.le_limit
  case walked => exact h.walked.paths hd.paths

end

theorem slotAt_some (h : s.slotAt addr = some slot) : (s.mmapTbl slot).used = true ∧ (s.mmapTbl slot).virtAddr = addr := by
  have hfound := List.find?_some h
  simpa using hfound

theorem munmap (h : MmapInv D s₀ s asked φ f) (addr len : UInt64) : MmapInv D s₀ (syscallDoMunmap addr len s).2 asked φ f := by
  unfold syscallDoMunmap
  rw [bind_ok (gets_apply _ _), id_eq]
  cases hslot : s.slotAt addr with
  | none => exact h
  | some slot =>
    obtain ⟨m, hrun, hd⟩ := h.releaseSlot (slotAt_some hslot).1
    show MmapInv D s₀ (Mmap.releaseSlot slot s).2 asked φ f
    rw [hrun]
    exact h.released (slotAt_some hslot).1 hd

/-! ### Another page -/

theorem laid (h : MmapInv D s₀ s asked φ f) {flags p : UInt64} {g : UInt64 → Frame} (hp : Aligned p) (hl : Laid flags [p] g s.user.mem m) :
    MmapInv (fun v => D v ∨ v = p) s₀ (s.withMem m) asked (fun v => if v ∈ [p] then flags else φ v) (fun v => if v ∈ [p] then g v else f v) := by
  have hnew : ∀ v, s.Owns v → v ∉ [p] := fun v hv => h.holds.not_mem_of_laid hl (.inl hv)
  constructor
  case holds =>
    apply (h.holds.laid hl fun v hv => List.mem_singleton.1 hv ▸ hp).congr
    intro v
    rw [List.mem_singleton]
    exact or_assoc.symm
  case apart =>
    rintro v (hv | rfl) howns
    · exact h.apart v hv howns
    · exact hnew v howns (List.mem_singleton_self v)
  case heapFlags =>
    intro v hv
    rw [if_neg (hnew v (.inl hv))]
    exact h.heapFlags v hv
  case liveFlags =>
    intro i v hv
    rw [if_neg (hnew v (.inr ⟨i, hv⟩))]
    exact h.liveFlags i v hv
  case layout => exact h.layout
  case base => exact h.base
  case limit => exact h.limit
  case base_le => exact h.base_le
  case le_limit => exact h.le_limit
  case walked => exact h.walked.paths hl.paths

end MmapInv

end Tg11Kernel.Mmap
