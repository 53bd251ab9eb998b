import Tg11Kernel.Memory.Paths

/-! Spans of pages. The heaps of the kernel and of a user program map, zero and unmap runs
of pages one after the other; here are the loops and what they leave behind. -/

namespace Tg11Kernel.Heap

open Lib Exec Memory

def MEMORY_VIRT_BASE : UInt64 := 0xFFFF900000000000
def MEMORY_VIRT_PAGES : ℕ := 16384
def MEMORY_VIRT_LIMIT : UInt64 := MEMORY_VIRT_BASE + UInt64.ofNat MEMORY_VIRT_PAGES * MEMORY_PAGE_SIZE
def MEMORY_TEMP_PAGE_INDEX : ℕ := MEMORY_VIRT_PAGES - 1
def MEMORY_TEMP_PAGE_VADDR : UInt64 := MEMORY_VIRT_BASE + UInt64.ofNat MEMORY_TEMP_PAGE_INDEX * MEMORY_PAGE_SIZE

/-- `for (page = start; page < end; page += 4096)` -/
def pageSpan (start stop : UInt64) : List UInt64 :=
  (List.range ((stop.toNat - start.toNat + 4095) / 4096)).map fun i => start + UInt64.ofNat i * MEMORY_PAGE_SIZE

/-- A page that is mapped is unmapped, and its frame freed. -/
def unmapHeapPage (page : UInt64) : Exec Mem Unit := do
  let phys ← gets fun m => pagingGetPhys m.tables page
  if phys ≠ 0 then do
    pagingUnmapPage page
    physFreePage phys
  else pure ()

/-- A frame is emptied through the page that is reserved for that; where it cannot be mapped
there the frame stays as it is. -/
def memoryZeroPhysPage (physAddr : UInt64) : Exec Mem Unit :=
  if Aligned physAddr then do
    match ← attempt (pagingMapPage MEMORY_TEMP_PAGE_VADDR physAddr PAGE_FLAG_WRITABLE) with
    | none => pure ()
    | some _ => do
      writePage MEMORY_TEMP_PAGE_VADDR 0 4096 fun _ => 0
      pagingUnmapPage MEMORY_TEMP_PAGE_VADDR
  else pure ()

variable {m m' m'' : Mem} {start stop v page : UInt64}

/-! ### Spans -/

variable {i : ℕ} {flags : UInt64} {F G : Frame} {pages l : List UInt64} {own : List ℕ} {p : UInt64 → Exec Mem Unit}
  {f : UInt64 → Frame}

theorem pageSpan_toNat (h : start.toNat + i * 4096 < stop.toNat) :
    (start + UInt64.ofNat i * MEMORY_PAGE_SIZE).toNat = start.toNat + i * 4096 := by
  have hlt := stop.toNat_lt
  have hi : (UInt64.ofNat i).toNat = i := UInt64.toNat_ofNat_of_lt' (by unfold UInt64.size; omega)
  have hsize : MEMORY_PAGE_SIZE.toNat = 4096 := rfl
  rw [UInt64.toNat_add, UInt64.toNat_mul, hi, hsize]
  omega

theorem mem_pageSpan (hstart : Aligned start) (hstop : Aligned stop) :
    v ∈ pageSpan start stop ↔ Aligned v ∧ start.toNat ≤ v.toNat ∧ v.toNat < stop.toNat := by
  unfold pageSpan
  rw [List.mem_map]
  have hs := (aligned_iff start).1 hstart
  have he := (aligned_iff stop).1 hstop
  constructor
  · rintro ⟨i, hi, rfl⟩
    rw [List.mem_range] at hi
    have hlt : start.toNat + i * 4096 < stop.toNat := by omega
    rw [aligned_iff, pageSpan_toNat hlt]
    omega
  · rintro ⟨hv, hle, hlt⟩
    rw [aligned_iff] at hv
    refine ⟨(v.toNat - start.toNat) / 4096, List.mem_range.2 (by omega), ?_⟩
    have hlast : start.toNat + (v.toNat - start.toNat) / 4096 * 4096 < stop.toNat := by omega
    apply UInt64.toNat_inj.1
    rw [pageSpan_toNat hlast]
    omega

theorem pageSpan_nodup (start stop : UInt64) : (pageSpan start stop).Nodup := by
  have hlast : ∀ i ∈ List.range ((stop.toNat - start.toNat + 4095) / 4096), start.toNat + i * 4096 < stop.toNat := by
    intro i hi
    rw [List.mem_range] at hi
    omega
  apply List.Nodup.map_on _ List.nodup_range
  intro i hi j hj heq
  have hnat := congrArg UInt64.toNat heq
  rw [pageSpan_toNat (hlast i hi), pageSpan_toNat (hlast j hj)] at hnat
  omega

/-- A split of a range. -/
theorem range_before {k : ℕ} {done rest : List ℕ} (h : List.range k = done ++ i :: rest) : done = List.range i ∧ i < k := by
  have hlen := congrArg List.length h
  simp only [List.length_range, List.length_append, List.length_cons] at hlen
  have hget := congrArg (fun l => l[done.length]?) h
  simp only [List.getElem?_range (show done.length < k by omega), List.getElem?_append_right (Nat.le_refl _), Nat.sub_self,
    List.getElem?_cons_zero, Option.some.injEq] at hget
  have htake := congrArg (List.take done.length) h
  rw [List.take_left, List.take_range, Nat.min_eq_left (by omega), hget] at htake
  exact ⟨htake.symm, by omega⟩

/-- The pages before a page of a span are the span up to it. -/
theorem pageSpan_before (hstart : Aligned start) (hstop : Aligned stop) {done rest : List UInt64}
    (h : pageSpan start stop = done ++ page :: rest) : pageSpan start page = done := by
  have hs := (aligned_iff start).1 hstart
  have he := (aligned_iff stop).1 hstop
  have hlen : done.length < (stop.toNat - start.toNat + 4095) / 4096 := by
    have hlength := congrArg List.length h
    unfold pageSpan at hlength
    simp only [List.length_map, List.length_range, List.length_append, List.length_cons] at hlength
    omega
  have hpage : page = start + UInt64.ofNat done.length * MEMORY_PAGE_SIZE := by
    have hget := congrArg (fun l => l[done.length]?) h
    unfold pageSpan at hget
    simp only [List.getElem?_map, List.getElem?_range hlen, Option.map_some, List.getElem?_append_right (Nat.le_refl _),
      Nat.sub_self, List.getElem?_cons_zero, Option.some.injEq] at hget
    exact hget.symm
  have hnat : page.toNat = start.toNat + done.length * 4096 := by
    have hlast : start.toNat + done.length * 4096 < stop.toNat := by omega
    rw [hpage, pageSpan_toNat hlast]
  have hcount : (page.toNat - start.toNat + 4095) / 4096 = done.length := by omega
  have htake := congrArg (List.take done.length) h
  rw [List.take_left] at htake
  rw [← htake]
  unfold pageSpan
  rw [hcount, ← List.map_take, List.take_range, Nat.min_eq_left hlen.le]

theorem aligned_of_mem (hstart : Aligned start) (hstop : Aligned stop) (h : v ∈ pageSpan start stop) : Aligned v :=
  ((mem_pageSpan hstart hstop).1 h).1

/-! ### Pages with a frame -/

/-- The page is mapped to a frame that was handed out. -/
structure Backed (m : Mem) (flags v : UInt64) (F : Frame) : Prop where
  leaf : leaf m.tables v = some (.small (pageEntry F.1 flags))
  owned : Owned m F

theorem Backed.phys (h : Backed m flags v F) (hal : Aligned v) : pagingGetPhys m.tables v = F.1 := by
  rw [pagingGetPhys_eq, h.leaf, Option.map_some, Option.getD_some, phys_small_aligned hal, Frame.of_pageEntry]

theorem Backed.inj {w : UInt64} (hw : Backed m flags w G) (wf : WellFormed m) (h : Backed m flags v F)
    (hplace : place w = place v) : G = F := by
  have hleaf := leaf_congr wf hplace
  rw [hw.leaf, h.leaf, Option.some.injEq, Leaf.small.injEq] at hleaf
  rw [← Frame.of_pageEntry G flags, hleaf, Frame.of_pageEntry]

theorem Backed.shrinks (h : Backed m flags v F)
    (hs : Shrinks pages own m m') (hv : ∀ w ∈ pages, place v ≠ place w) (hF : F.no ∉ own) : Backed m' flags v F :=
  ⟨(hs.kept v hv).trans h.leaf, h.owned.shrinks hs hF⟩

/-- Pages were given back, and their tables stay. -/
structure Drops (pages : List UInt64) (own : List ℕ) (m m' : Mem) : Prop extends Shrinks pages own m m' where
  paths : Paths m m'

theorem Drops.trans {pages' : List UInt64} {own' : List ℕ} (h : Drops pages own m m') (h' : Drops pages' own' m' m'') :
    Drops (pages ++ pages') (own ++ own') m m'' :=
  ⟨h.toShrinks.trans h'.toShrinks, h.paths.trans h'.paths⟩

theorem drops_page (wf : WellFormed m) (hal : Aligned v) (h : Backed m flags v F) :
    Drops [v] [F.no] m ((m.unmapPage v).freeFrame F.no) := by
  refine ⟨shrinks_drop wf hal ?_ h.owned, (paths_unmapPage wf v).trans (paths_freeFrame _ _)⟩
  rw [h.leaf]
  exact nofun

theorem unmapHeapPage_shrinks (wf : WellFormed m) (hal : Aligned v) (h : Backed m flags v F) :
    ∃ m', unmapHeapPage v m = (.ok (), m') ∧ Drops [v] [F.no] m m' := by
  refine ⟨(m.unmapPage v).freeFrame F.no, ?_, drops_page wf hal h⟩
  have hphys := h.phys hal
  have hne : pagingGetPhys m.tables v ≠ 0 := by
    rw [hphys]
    exact h.owned.nonzero
  unfold unmapHeapPage
  rw [bind_ok (gets_apply _ _), if_pos hne, hphys]
  rfl

/-- Pages are given back one after the other, if giving one back does not concern those after it. -/
theorem forM_shrinks {own : UInt64 → List ℕ} {ready : UInt64 → Mem → Prop}
    (hp : ∀ v m, WellFormed m → ready v m → ∃ m', p v m = (.ok (), m') ∧ Drops [v] (own v) m m')
    (hkeep : l.Pairwise fun v w => ∀ m m', WellFormed m → Shrinks [v] (own v) m m' → ready v m → ready w m → ready w m')
    (wf : WellFormed m) (h : ∀ v ∈ l, ready v m) : ∃ m', l.forM p m = (.ok (), m') ∧ Drops l (l.flatMap own) m m' := by
  induction l generalizing m with
  | nil => exact ⟨m, rfl, Shrinks.refl wf, Paths.refl m⟩
  | cons v l ih =>
    rw [List.pairwise_cons] at hkeep
    have hv := h v List.mem_cons_self
    obtain ⟨m₁, hrun, hs⟩ := hp v m wf hv
    have hrest : ∀ w ∈ l, ready w m₁ := fun w hw => hkeep.1 w hw m m₁ wf hs.toShrinks hv (h w (List.mem_cons_of_mem _ hw))
    obtain ⟨m₂, hrun', hs'⟩ := ih hkeep.2 hs.wf hrest
    exact ⟨m₂, (bind_ok hrun).trans hrun', hs.trans hs'⟩

/-- A page with a frame of its own that is given back does not concern the others. -/
theorem Backed.apart (wf : WellFormed m) (hv : Backed m flags v F) (hw : Backed m flags page G) (hne : F ≠ G)
    (hs : Shrinks [v] [F.no] m m') : Backed m' flags page G := by
  apply hw.shrinks hs
  · intro u hu hplace
    rw [List.mem_singleton.1 hu] at hplace
    exact hne (hv.inj wf hw hplace.symm)
  · rw [List.mem_singleton]
    exact fun hno => hne (Frame.ext_no hno).symm

/-- Pages that have frames of their own are given back. -/
theorem forM_drops
    (hp : ∀ v m, WellFormed m → Aligned v → Backed m flags v (f v) → ∃ m', p v m = (.ok (), m') ∧ Drops [v] [(f v).no] m m')
    (wf : WellFormed m) (hal : ∀ v ∈ l, Aligned v) (h : ∀ v ∈ l, Backed m flags v (f v)) (hnodup : (l.map f).Nodup) :
    ∃ m', l.forM p m = (.ok (), m') ∧ Drops l (l.map fun v => (f v).no) m m' := by
  have hready : ∀ v m, WellFormed m → Aligned v ∧ Backed m flags v (f v) → ∃ m', p v m = (.ok (), m') ∧ Drops [v] [(f v).no] m m' :=
    fun v m wf hv => hp v m wf hv.1 hv.2
  have hkeep : l.Pairwise fun v w => ∀ m m', WellFormed m → Shrinks [v] [(f v).no] m m' → Aligned v ∧ Backed m flags v (f v) →
      Aligned w ∧ Backed m flags w (f w) → Aligned w ∧ Backed m' flags w (f w) := by
    apply (List.pairwise_map.1 hnodup).imp
    intro v w hne m m' wf hs hv hw
    exact ⟨hw.1, hv.2.apart wf hw.2 hne hs⟩
  obtain ⟨m', hrun, hs⟩ := forM_shrinks hready hkeep wf fun v hv => ⟨hal v hv, h v hv⟩
  refine ⟨m', hrun, ?_⟩
  rwa [← List.map_eq_flatMap] at hs

theorem unmapRange_shrinks (wf : WellFormed m)
    (hal : ∀ v ∈ l, Aligned v) (h : ∀ v ∈ l, Backed m flags v (f v)) (hnodup : (l.map f).Nodup) :
    ∃ m', l.forM unmapHeapPage m = (.ok (), m') ∧ Drops l (l.map fun v => (f v).no) m m' :=
  forM_drops (fun _ _ wf hal h => unmapHeapPage_shrinks wf hal h) wf hal h hnodup

/-! ### Growing -/

/-- The state after an error: only frames of tables were taken. -/
def Unchanged (m m' : Mem) : Prop := Grows [] m m' ∧ SameLeaves m m'

/-- The same, and the tables stay. -/
structure Restored (m m' : Mem) : Prop where
  unchanged : Unchanged m m'
  paths : Paths m m'

/-- A frame was emptied, or was left as it is; nothing else changed. -/
structure Zeroed (F : Frame) (m m' : Mem) : Prop where
  leaves : SameLeaves m m'
  owned : ∀ G, Owned m G → Owned m' G
  grows : ∀ (m₀ : Mem) (own : List ℕ), Grows own m₀ m → ¬ Data m₀ F → Grows own m₀ m'

theorem Zeroed.refl (F : Frame) (m : Mem) : Zeroed F m m where
  leaves _ := rfl
  owned _ hG := hG
  grows _ _ hg _ := hg

theorem Zeroed.of_grows (h : Grows [] m m') (hl : SameLeaves m m') : Zeroed F m m' where
  leaves := hl
  owned _ hG := hG.grows h
  grows m₀ own hg _ := (hg.trans h).mono fun n hn => by rwa [List.append_nil] at hn

theorem aligned_frame (F : Frame) : Aligned F.1 := by
  have hno := F.toNat_no
  rw [aligned_iff]
  omega

theorem memoryZeroPhysPage_ends (wf : WellFormed m) (hF : Owned m F) :
    Ends (memoryZeroPhysPage F.1) m (fun _ m' => Zeroed F m m' ∧ Paths m m') fun _ => False := by
  have hmap := Ends.of_post (pagingMapPage_returns MEMORY_TEMP_PAGE_VADDR F.1 PAGE_FLAG_WRITABLE m)
    ((pagingMapPage_post wf MEMORY_TEMP_PAGE_VADDR F.1 PAGE_FLAG_WRITABLE).and
      (pagingMapPage_paths wf MEMORY_TEMP_PAGE_VADDR F.1 PAGE_FLAG_WRITABLE))
  unfold memoryZeroPhysPage
  rw [if_pos (aligned_frame F)]
  apply hmap.attempt_bind
  · rintro _ m₁ ⟨⟨hnone, hsets⟩, hpaths, -⟩
    have hleaf := hsets.leaf _ rfl
    have hal : Aligned MEMORY_TEMP_PAGE_VADDR := by decide
    have hF₁ : ¬ m₁.tables.Table F := (hsets.grows.keepsData hF.data).2
    have hwrite := writePage_apply hsets.grows.wf hal hleaf 0 4096 fun _ => 0
    rw [if_pos ⟨by decide, by decide⟩, Frame.of_pageEntry] at hwrite
    have hw : Writes m₁ (m₁.storeBytes F.1 0 4096 fun _ => 0) F := writes_storeBytes m₁ F 0 4096 _
    have hwf := hw.wf hsets.grows.wf hF₁
    have hsame := hw.sameLeaves hsets.grows.wf hF₁
    have hunmap := unmapPage_sets hwf hal ((hsame _).trans hleaf)
    refine .inl ⟨(), _, (bind_ok hwrite).trans rfl, ⟨?_, ?_, ?_⟩, (hpaths.trans (hw.paths hF₁)).trans (paths_unmapPage hwf _)⟩
    · intro a
      by_cases ha : place a = place MEMORY_TEMP_PAGE_VADDR
      · rw [hunmap.leaf a ha, leaf_congr wf ha, hnone]
      · rw [hunmap.others a ha, hsame a, hsets.others a ha]
    · intro G hG
      exact ((hG.grows hsets.grows).writes hw hF₁).grows hunmap.grows
    · intro m₀ own hg hfresh
      have hg₁ : Grows own m₀ m₁ := (hg.trans hsets.grows).mono fun n hn => by rwa [List.append_nil] at hn
      exact ((hg₁.writes hw hF₁ hfresh).trans hunmap.grows).mono fun n hn => by rwa [List.append_nil] at hn
  · rintro m₁ ⟨⟨hgrows, hsame⟩, hpaths⟩
    exact .inl ⟨(), m₁, rfl, Zeroed.of_grows hgrows hsame, hpaths⟩

/-- The pages of `l` were mapped to frames of their own, page `v` to `f v`. -/
structure Grown (flags : UInt64) (l : List UInt64) (f : UInt64 → Frame) (m m' : Mem) : Prop where
  grows : Grows (l.map fun v => (f v).no) m m'
  free : ∀ v ∈ l, m.used (f v).no = false
  absent : ∀ v ∈ l, leaf m.tables v = none
  backed : ∀ v ∈ l, Backed m' flags v (f v)
  nodup : (l.map f).Nodup
  others : ∀ a, (∀ v ∈ l, place a ≠ place v) → leaf m'.tables a = leaf m.tables a

namespace Grown

variable {flags : UInt64} {l : List UInt64} {f : UInt64 → Frame}

theorem refl (wf : WellFormed m) (f : UInt64 → Frame) : Grown flags [] f m m where
  grows := Grows.refl wf
  free _ h := nomatch h
  absent _ h := nomatch h
  backed _ h := nomatch h
  nodup := List.nodup_nil
  others _ _ := rfl

theorem keeps (h : Grown flags l f m m') (hg : Grows [] m' m'') (hl : SameLeaves m' m'') : Grown flags l f m m'' where
  grows := (h.grows.trans hg).mono fun n hn => by rwa [List.append_nil] at hn
  free := h.free
  absent := h.absent
  backed v hv := ⟨(hl v).trans (h.backed v hv).leaf, (h.backed v hv).owned.grows hg⟩
  nodup := h.nodup
  others a ha := (hl a).trans (h.others a ha)

/-- Taken back, the pages and the frames are as before. -/
theorem undo (h : Grown flags l f m m') (wf : WellFormed m) (hs : Shrinks l (l.map fun v => (f v).no) m' m'') : Unchanged m m'' := by
  refine ⟨h.grows.shrinks ?_ hs, fun a => ?_⟩
  · intro n hn
    obtain ⟨v, hv, rfl⟩ := List.mem_map.1 hn
    exact h.free v hv
  · by_cases ha : ∃ v ∈ l, place a = place v
    · obtain ⟨v, hv, hplace⟩ := ha
      rw [hs.gone a ⟨v, hv, hplace⟩, leaf_congr wf hplace, h.absent v hv]
    · have hne : ∀ v ∈ l, place a ≠ place v := fun v hv heq => ha ⟨v, hv, heq⟩
      rw [hs.kept a hne, h.others a hne]

/-- A page more, on a fresh frame that is emptied before or after. -/
theorem snoc (h : Grown flags l f m m') {F : Frame} {m₁ m₂ m₃ : Mem} (htaken : Taken m' m₁ F) (hbefore : Zeroed F m₁ m₂)
    (hnone : leaf m₂.tables page = none) (hsets : SetsLeaf page (some (.small (pageEntry F.1 flags))) m₂ m₃)
    (hafter : Zeroed F m₃ m'') : Grown flags (l ++ [page]) (Function.update f page F) m m'' := by
  have hleaves : SameLeaves m' m₂ := by
    intro a
    rw [hbefore.leaves, htaken.tables]
  have hnone' : leaf m'.tables page = none := by rwa [hleaves] at hnone
  have hne : ∀ v ∈ l, place v ≠ place page := by
    intro v hv hplace
    have hleaf := (h.backed v hv).leaf
    rw [leaf_congr h.grows.wf hplace, hnone'] at hleaf
    cases hleaf
  have hpage : page ∉ l := fun hmem => hne page hmem rfl
  have hupdate : ∀ v ∈ l, Function.update f page F v = f v := fun v hv =>
    Function.update_of_ne (fun heq : v = page => hpage (by rwa [← heq])) _ _
  have hself : Function.update f page F page = F := Function.update_self ..
  have hfree : m.used F.no = false := h.grows.unused htaken.free
  have hnew : ¬ Data m F := not_data_of_free hfree
  have hmap : (l ++ [page]).map (Function.update f page F) = l.map f ++ [F] := by
    rw [List.map_append, List.map_singleton, hself, List.map_congr_left hupdate]
  have hgrows := (hbefore.grows _ _ (h.grows.trans (htaken.grows h.grows.wf)) hnew).trans hsets.grows
  constructor
  case grows =>
    have hown : (l ++ [page]).map (fun v => (Function.update f page F v).no) = l.map (fun v => (f v).no) ++ [F.no] := by
      have hno := congrArg (List.map Frame.no) hmap
      rw [List.map_map, List.map_append (f := Frame.no), List.map_map] at hno
      exact hno
    rw [hown]
    apply hafter.grows _ _ _ hnew
    exact hgrows.mono fun n hn => by rwa [List.append_nil] at hn
  case free =>
    intro v hv
    rcases List.mem_append.1 hv with hv | hv
    · rw [hupdate v hv]
      exact h.free v hv
    · rw [List.mem_singleton.1 hv, hself]
      exact hfree
  case absent =>
    intro v hv
    rcases List.mem_append.1 hv with hv | hv
    · exact h.absent v hv
    · rw [List.mem_singleton.1 hv, ← h.others page fun w hw heq => hne w hw heq.symm]
      exact hnone'
  case backed =>
    intro v hv
    rcases List.mem_append.1 hv with hv | hv
    · rw [hupdate v hv]
      have hb := h.backed v hv
      have hkept := (hbefore.owned _ (hb.owned.grows (htaken.grows h.grows.wf))).grows hsets.grows
      refine ⟨?_, hafter.owned _ hkept⟩
      rw [hafter.leaves, hsets.others v (hne v hv), hleaves]
      exact hb.leaf
    · rw [List.mem_singleton.1 hv, hself]
      have howned := (hbefore.owned _ (htaken.owned h.grows.wf)).grows hsets.grows
      exact ⟨(hafter.leaves page).trans (hsets.leaf page rfl), hafter.owned _ howned⟩
  case nodup =>
    rw [hmap]
    apply List.Nodup.append h.nodup (List.nodup_singleton F)
    intro G hG hGF
    obtain ⟨v, hv, rfl⟩ := List.mem_map.1 hG
    have hused := (h.backed v hv).owned.data.1
    rw [List.mem_singleton.1 hGF, htaken.free] at hused
    cases hused
  case others =>
    intro a ha
    have hlast := ha page (List.mem_append_right l (List.mem_singleton_self page))
    rw [hafter.leaves, hsets.others a hlast, hleaves]
    exact h.others a fun v hv => ha v (List.mem_append_left _ hv)

end Grown

/-- The pages were mapped, the tables stay, and the way to each page is open. -/
structure Laid (flags : UInt64) (l : List UInt64) (f : UInt64 → Frame) (m m' : Mem) : Prop extends Grown flags l f m m' where
  paths : Paths m m'
  walked : ∀ v ∈ l, ∃ F, m'.tables.walk (path v) = some F
  opened : ∀ v ∈ l, ∀ g, Grant g → has flags g = true → Open m' v g

namespace Laid

variable {flags : UInt64} {l : List UInt64} {f : UInt64 → Frame}

theorem refl (wf : WellFormed m) (f : UInt64 → Frame) : Laid flags [] f m m where
  toGrown := Grown.refl wf f
  paths := Paths.refl m
  walked _ h := nomatch h
  opened _ h := nomatch h

theorem keeps (h : Laid flags l f m m') (hr : Restored m' m'') : Laid flags l f m m'' where
  toGrown := h.toGrown.keeps hr.unchanged.1 hr.unchanged.2
  paths := h.paths.trans hr.paths
  walked v hv := (h.walked v hv).imp fun F hF => hr.paths.walk _ F (path_le v) hF
  opened v hv g hg hhas := (h.opened v hv g hg hhas).paths hg hr.paths

theorem snoc (h : Laid flags l f m m') {F : Frame} (hgrown : Grown flags (l ++ [page]) (Function.update f page F) m m'')
    (hpaths : Paths m' m'') (hwalk : ∃ G, m''.tables.walk (path page) = some G)
    (hopen : ∀ g, Grant g → has flags g = true → Open m'' page g) : Laid flags (l ++ [page]) (Function.update f page F) m m'' where
  toGrown := hgrown
  paths := h.paths.trans hpaths
  walked v hv := by
    rcases List.mem_append.1 hv with hv | hv
    · exact (h.walked v hv).imp fun G hG => hpaths.walk _ G (path_le v) hG
    · rwa [List.mem_singleton.1 hv]
  opened v hv g hg hhas := by
    rcases List.mem_append.1 hv with hv | hv
    · exact (h.opened v hv g hg hhas).paths hg hpaths
    · rw [List.mem_singleton.1 hv]
      exact hopen g hg hhas

end Laid

end Tg11Kernel.Heap
