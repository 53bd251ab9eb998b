import Tg11Kernel.Heap.Pages

/-! The heap of a user program: a window of addresses and the break in it. The pages below
the break are mapped. Growing maps fresh frames page by page and takes them back on an
error; shrinking unmaps the pages above the new break. An error return is a return of -1. -/

namespace Tg11Kernel.Heap

open Lib Exec Memory

/-- `user_heap_base`, `user_heap_limit` and `user_heap_brk`, beside the memory. -/
structure User where
  mem : Mem
  base : UInt64
  limit : UInt64
  brk : UInt64

def onMem {α : Type} (p : Exec Mem α) : Exec User α := fun s =>
  let r := p s.mem
  (r.1, { s with mem := r.2 })

def alignUpPage (addr : UInt64) : UInt64 := (addr + 4095) &&& ~~~4095

def userHeapFlags : UInt64 := PAGE_FLAG_PRESENT ||| PAGE_FLAG_WRITABLE ||| PAGE_FLAG_USER ||| PAGE_FLAG_NO_EXECUTE

def userHeapUnmapRange (start stop : UInt64) : Exec Mem Unit := (pageSpan start stop).forM unmapHeapPage

def taskUserHeapReset : Exec User Unit := do
  let s ← gets id
  let mappedStart := alignUpPage s.base
  let mappedEnd := alignUpPage s.brk
  let _ ← (if s.base ≠ 0 ∧ s.base < s.limit ∧ mappedStart < mappedEnd then onMem (userHeapUnmapRange mappedStart mappedEnd)
    else pure ())
  modify fun s => { s with base := 0, limit := 0, brk := 0 }

def taskUserHeapConfig (base limit : UInt64) : Exec User Unit := do
  require (base ≠ 0 ∧ base < limit)
  taskUserHeapReset
  modify fun s => { s with base := base, limit := limit, brk := base }

/-- One page more. On an error the pages from `mapFrom` on are given back. -/
def growPage (mapFrom page : UInt64) : Exec Mem Unit := do
  let present ← gets fun m => pagingGetPhys m.tables page
  orElse (require (present = 0)) (userHeapUnmapRange mapFrom page)
  let phys ← physAllocPage
  orElse (require (phys ≠ 0)) (userHeapUnmapRange mapFrom page)
  orElse (pagingMapPage page phys userHeapFlags) (do
    physFreePage phys
    userHeapUnmapRange mapFrom page)
  memoryZeroPhysPage phys

def growHeap (mapFrom mapTo : UInt64) : Exec Mem Unit := (pageSpan mapFrom mapTo).forM (growPage mapFrom)

/-- A break of 0 asks where the break is. -/
def taskUserHeapBrk (newBreak : UInt64) : Exec User UInt64 := do
  let s ← gets id
  require (s.base ≠ 0 ∧ s.base < s.limit)
  if newBreak = 0 then pure s.brk
  else do
    require (s.base ≤ newBreak ∧ newBreak ≤ s.limit)
    if newBreak = s.brk then pure s.brk
    else do
      let mapFrom := alignUpPage s.brk
      let mapTo := alignUpPage newBreak
      let _ ← (if s.brk < newBreak then onMem (growHeap mapFrom mapTo) else onMem (userHeapUnmapRange mapTo mapFrom))
      modify fun s => { s with brk := newBreak }
      pure newBreak

variable {m m' : Mem} {v page mapFrom mapTo : UInt64}

/-! ### Rounding -/

/-- The address can be rounded up without wrapping. -/
def Rounds (addr : UInt64) : Prop := addr.toNat + 4096 ≤ 2 ^ 64

theorem alignUpPage_toNat {addr : UInt64} (h : Rounds addr) : (alignUpPage addr).toNat = (addr.toNat + 4095) / 4096 * 4096 := by
  have h4095 : (4095 : UInt64).toNat = 4095 := rfl
  unfold Rounds at h
  unfold alignUpPage
  rw [maskDown_toNat, UInt64.toNat_add, h4095, Nat.mod_eq_of_lt (by omega)]

theorem aligned_alignUpPage (addr : UInt64) : Aligned (alignUpPage addr) := by
  unfold alignUpPage
  rw [aligned_iff, maskDown_toNat]
  omega

theorem lt_alignUpPage {addr : UInt64} (h : Rounds addr) (hv : Aligned v) : v < alignUpPage addr ↔ v < addr := by
  rw [aligned_iff] at hv
  rw [UInt64.lt_iff_toNat_lt, UInt64.lt_iff_toNat_lt, alignUpPage_toNat h]
  omega

theorem mem_pageSpan_alignUpPage {a b : UInt64} (ha : Rounds a) (hb : Rounds b) :
    v ∈ pageSpan (alignUpPage a) (alignUpPage b) ↔ Aligned v ∧ a ≤ v ∧ v < b := by
  rw [mem_pageSpan (aligned_alignUpPage a) (aligned_alignUpPage b)]
  constructor
  · rintro ⟨hv, hle, hlt⟩
    have hb' := (lt_alignUpPage hb hv).1 (UInt64.lt_iff_toNat_lt.2 hlt)
    have ha' : ¬ v < a := fun h => by
      have hlt' := UInt64.lt_iff_toNat_lt.1 ((lt_alignUpPage ha hv).2 h)
      omega
    exact ⟨hv, UInt64.not_lt.1 ha', hb'⟩
  · rintro ⟨hv, hle, hlt⟩
    have hb' := UInt64.lt_iff_toNat_lt.1 ((lt_alignUpPage hb hv).2 hlt)
    have ha' : ¬ v < alignUpPage a := fun h => UInt64.not_lt.2 hle ((lt_alignUpPage ha hv).1 h)
    exact ⟨hv, UInt64.le_iff_toNat_le.1 (UInt64.not_lt.1 ha'), hb'⟩

/-! ### Growing -/

variable {l : List UInt64} {f : UInt64 → Frame}

/-- The error path of a page. -/
theorem undo_ends (wf : WellFormed m) (hspan : pageSpan mapFrom page = l) (hal : ∀ v ∈ l, Aligned v)
    (h : Laid userHeapFlags l f m m') : Ends (userHeapUnmapRange mapFrom page) m' (fun _ => Restored m) (Restored m) := by
  obtain ⟨m'', hrun, hdrops⟩ := unmapRange_shrinks h.grows.wf hal h.backed h.nodup
  unfold userHeapUnmapRange
  rw [hspan]
  exact .inl ⟨(), m'', hrun, h.undo wf hdrops.toShrinks, h.paths.trans hdrops.paths⟩

/-- A frame that could not be mapped goes back. -/
theorem restored_freeFrame {F : Frame} (hfree : m.used F.no = false) (hg : Grows [F.no] m m') (hF : Owned m' F)
    (hsame : SameLeaves m m') (hpaths : Paths m m') : Restored m (m'.freeFrame F.no) := by
  have hshrinks := shrinks_freeFrame hg.wf hF
  have hown : ∀ n ∈ [F.no], m.used n = false := by
    rintro n hn
    rw [List.mem_singleton.1 hn]
    exact hfree
  refine ⟨⟨hg.shrinks hown hshrinks, fun a => ?_⟩, hpaths.trans (paths_freeFrame _ _)⟩
  rw [hshrinks.kept a (fun v hv => nomatch hv), hsame a]

theorem growPage_ends (wf : WellFormed m) (hspan : pageSpan mapFrom page = l) (hal : ∀ v ∈ l, Aligned v)
    (h : Laid userHeapFlags l f m m') :
    Ends (growPage mapFrom page) m' (fun _ m'' => ∃ f', Laid userHeapFlags (l ++ [page]) f' m m'') (Restored m) := by
  unfold growPage
  apply Ends.gets_bind
  apply Ends.orElse_require_bind
  · intro _
    apply (physAllocPage_ends h.grows.wf (Restored m)).bind
    rintro phys m₁ (⟨rfl, rfl⟩ | ⟨F, rfl, htaken⟩)
    · apply Ends.orElse_require_bind
      · exact fun hne => absurd rfl hne
      · exact fun _ => undo_ends wf hspan hal h
    · apply Ends.orElse_require_bind
      · intro _
        have hwf₁ := (htaken.grows h.grows.wf).wf
        have hmap := Ends.of_post (pagingMapPage_returns page F.1 userHeapFlags m₁)
          ((pagingMapPage_post hwf₁ page F.1 userHeapFlags).and (pagingMapPage_paths hwf₁ page F.1 userHeapFlags))
        apply (hmap.orElse (E := Restored m) _).bind
        · rintro _ m₂ ⟨⟨hnone, hsets⟩, hpaths, ⟨T, hwalk⟩, hopen⟩
          have howned : Owned m₂ F := (htaken.owned h.grows.wf).grows hsets.grows
          apply (memoryZeroPhysPage_ends hsets.grows.wf howned).mono
          · rintro _ m₃ ⟨hzero, hpaths'⟩
            have hgrown := h.toGrown.snoc htaken (Zeroed.refl F m₁) hnone hsets hzero
            have hkeep := (htaken.paths.trans hpaths).trans hpaths'
            exact ⟨_, h.snoc hgrown hkeep ⟨T, hpaths'.walk _ T (path_le page) hwalk⟩ fun g hg hhas => (hopen g hg hhas).paths hg hpaths'⟩
          · exact fun _ h => h.elim
        · -- the frame goes back, then the pages before
          rintro m₂ ⟨hunchanged, hpaths⟩
          have hrun : physFreePage F.1 m₂ = (.ok (), m₂.freeFrame F.no) := physFreePage_apply F.1 m₂
          have htotal : Grows [F.no] m' m₂ := ((htaken.grows h.grows.wf).trans hunchanged.1).mono fun n hn => by rwa [List.append_nil] at hn
          have hsame : SameLeaves m' m₂ := fun a => by rw [hunchanged.2 a, htaken.tables]
          have howned : Owned m₂ F := (htaken.owned h.grows.wf).grows hunchanged.1
          rw [Ends, bind_ok hrun]
          exact undo_ends wf hspan hal (h.keeps (restored_freeFrame htaken.free htotal howned hsame (htaken.paths.trans hpaths)))
      · exact fun hne => absurd htaken.nonzero hne
  · exact fun _ => undo_ends wf hspan hal h

/-- A heap grows to its end or not at all. -/
theorem growHeap_ends (wf : WellFormed m) (hfrom : Aligned mapFrom) (hto : Aligned mapTo) :
    Ends (growHeap mapFrom mapTo) m (fun _ m' => ∃ f, Laid userHeapFlags (pageSpan mapFrom mapTo) f m m') (Restored m) := by
  apply Ends.forM (I := fun l m' => ∃ f, Laid userHeapFlags l f m m')
  · exact ⟨fun _ => m.tables.root, Laid.refl wf _⟩
  · rintro done rest page m' hl ⟨f, h⟩
    apply growPage_ends wf (pageSpan_before hfrom hto hl) _ h
    intro v hv
    apply aligned_of_mem hfrom hto
    rw [hl]
    exact List.mem_append_left _ hv

/-! ### The break -/

theorem onMem_apply {α : Type} {s : User} {p : Exec Mem α} {o : Outcome α} (h : p s.mem = (o, m)) : onMem p s = (o, { s with mem := m }) := by
  unfold onMem
  rw [h]

/-- How a call of `brk` ends. A smaller break leaves a memory with `Q`. -/
inductive BrkMoves (s : User) (n : UInt64) (Q : Mem → Prop) : Outcome UInt64 × User → Prop where
  | read : BrkMoves s n Q (.ok s.brk, s)
  | refused {m : Mem} (h : Restored s.mem m) : BrkMoves s n Q (.fail, { s with mem := m })
  | grown {m : Mem} {f : UInt64 → Frame} (hlt : s.brk < n) (hle : n ≤ s.limit)
      (hl : Laid userHeapFlags (pageSpan (alignUpPage s.brk) (alignUpPage n)) f s.mem m) : BrkMoves s n Q (.ok n, { s with mem := m, brk := n })
  | shrunk {m : Mem} (hbase : s.base ≤ n) (hlt : n < s.brk) (hm : Q m) : BrkMoves s n Q (.ok n, { s with mem := m, brk := n })

theorem Restored.refl (wf : WellFormed m) : Restored m m := ⟨⟨Grows.refl wf, fun _ => rfl⟩, Paths.refl m⟩

theorem taskUserHeapBrk_moves {s : User} {n : UInt64} {Q : Mem → Prop} (wf : WellFormed s.mem)
    (hshrink : s.base ≤ n → n < s.brk → ∃ m, userHeapUnmapRange (alignUpPage n) (alignUpPage s.brk) s.mem = (.ok (), m) ∧ Q m) :
    BrkMoves s n Q (taskUserHeapBrk n s) := by
  unfold taskUserHeapBrk
  rw [bind_ok (gets_apply _ _)]
  by_cases hwindow : s.base ≠ 0 ∧ s.base < s.limit
  · rw [id_eq, require_pos hwindow]
    show BrkMoves s n Q ((if n = 0 then _ else _ : Exec User UInt64) s)
    by_cases hzero : n = 0
    · rw [if_pos hzero]
      exact .read
    rw [if_neg hzero]
    by_cases hbounds : s.base ≤ n ∧ n ≤ s.limit
    · rw [require_pos hbounds]
      show BrkMoves s n Q ((if n = s.brk then _ else _ : Exec User UInt64) s)
      by_cases heq : n = s.brk
      · rw [if_pos heq]
        exact .read
      rw [if_neg heq]
      by_cases hlt : s.brk < n
      · rw [if_pos hlt]
        rcases growHeap_ends wf (aligned_alignUpPage s.brk) (aligned_alignUpPage n) with ⟨_, m, hrun, f, hl⟩ | ⟨m, hrun, hr⟩
        · rw [bind_ok (onMem_apply hrun)]
          exact .grown hlt hbounds.2 hl
        · rw [bind_fail (onMem_apply hrun)]
          exact .refused hr
      · have hlt' : n < s.brk := UInt64.lt_of_le_of_ne (UInt64.not_lt.1 hlt) heq
        obtain ⟨m, hrun, hm⟩ := hshrink hbounds.1 hlt'
        rw [if_neg hlt, bind_ok (onMem_apply hrun)]
        exact .shrunk hbounds.1 hlt' hm
    · rw [require_neg hbounds]
      exact .refused (.refl wf)
  · rw [id_eq, require_neg hwindow]
    exact .refused (.refl wf)

end Tg11Kernel.Heap
