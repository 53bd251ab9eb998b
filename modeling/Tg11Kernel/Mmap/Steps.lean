import Tg11Kernel.Mmap.Holdings

/-! What the calls do to the memory. A region is mapped to its end or not at all, and is taken
back as a whole. -/

namespace Tg11Kernel.Mmap

open Lib Exec Memory Heap Function

variable {m₀ m m' : Mem} {P : UInt64 → Prop} {φ : UInt64 → UInt64} {f : UInt64 → Frame} {l : List UInt64} {v base flags : UInt64}

def regionPages (base : UInt64) (n : ℕ) : List UInt64 := (List.range n).map (pageAt base)

theorem regionPages_succ (base : UInt64) (n : ℕ) : regionPages base (n + 1) = regionPages base n ++ [pageAt base n] := by
  simp [regionPages, List.range_succ]

/-! ### Taking back -/

section

variable (wf : WellFormed m)
include wf

theorem dropPage_drops {F : Frame} (hal : Aligned v) (h : Backed m flags v F) :
    ∃ m', dropPage v m = (.ok (), m') ∧ Drops [v] [F.no] m m' := by
  refine ⟨(m.unmapPage v).freeFrame F.no, ?_, drops_page wf hal h⟩
  have hphys := h.phys hal
  have hne : pagingGetPhys m.tables v ≠ 0 := by
    rw [hphys]
    exact h.owned.nonzero
  unfold dropPage
  rw [bind_ok (gets_apply _ _)]
  show (if pagingGetPhys m.tables v ≠ 0 then _ else _ : Exec Mem Unit) (m.unmapPage v) = _
  rw [if_pos hne, hphys]
  rfl

theorem dropPages_drops {n : ℕ} (hal : ∀ v ∈ regionPages base n, Aligned v)
    (h : ∀ v ∈ regionPages base n, Backed m flags v (f v)) (hnodup : ((regionPages base n).map f).Nodup) :
    ∃ m', dropPages base n m = (.ok (), m') ∧ Drops (regionPages base n) ((regionPages base n).map fun v => (f v).no) m m' := by
  obtain ⟨m', hrun, hd⟩ := forM_drops (fun v m wf hal h => dropPage_drops wf hal h) wf hal h hnodup
  have hrun' : forM ((List.range n).map (pageAt base)) dropPage m = (.ok (), m') := hrun
  rw [List.forM_map] at hrun'
  exact ⟨m', hrun', hd⟩

/-! ### Mapping -/

theorem undoRegion_ends {n : ℕ} (hal : ∀ v ∈ regionPages base n, Aligned v)
    (h : Laid flags (regionPages base n) f m m') : Ends (dropPages base n) m' (fun _ => Restored m) (Restored m) := by
  obtain ⟨m'', hrun, hd⟩ := dropPages_drops h.grows.wf hal h.backed h.nodup
  exact .inl ⟨(), m'', hrun, h.undo wf hd.toShrinks, h.paths.trans hd.paths⟩

theorem mmapPage_ends {n : ℕ} (hal : ∀ v ∈ regionPages base n, Aligned v) (h : Laid flags (regionPages base n) f m m') :
    Ends (mmapPage base flags n) m' (fun _ m'' => ∃ f', Laid flags (regionPages base (n + 1)) f' m m'') (Restored m) := by
  unfold mmapPage
  apply (physAllocPage_ends h.grows.wf (Restored m)).bind
  rintro phys m₁ (⟨rfl, rfl⟩ | ⟨F, rfl, htaken⟩)
  · apply Ends.orElse_require_bind
    · exact fun hne => absurd rfl hne
    · exact fun _ => undoRegion_ends wf hal h
  · apply Ends.orElse_require_bind
    · intro _
      have hwf₁ := (htaken.grows h.grows.wf).wf
      have hzeroes : Ends (memoryZeroPhysPage F.1) m₁ (fun _ m₂ => Zeroed F m₁ m₂ ∧ Paths m₁ m₂) (Restored m) :=
        (memoryZeroPhysPage_ends hwf₁ (htaken.owned h.grows.wf)).mono (fun _ _ h => h) fun _ h => h.elim
      apply hzeroes.bind
      rintro _ m₂ ⟨hzero, hpaths₂⟩
      have hnew : ¬ Data m' F := not_data_of_free htaken.free
      have hg₂ := hzero.grows m' [F.no] (htaken.grows h.grows.wf) hnew
      have howned₂ := hzero.owned F (htaken.owned h.grows.wf)
      have hkeep₂ := htaken.paths.trans hpaths₂
      have hmap := Ends.of_post (pagingMapPage_returns (pageAt base n) F.1 flags m₂)
        ((pagingMapPage_post hg₂.wf (pageAt base n) F.1 flags).and (pagingMapPage_paths hg₂.wf (pageAt base n) F.1 flags))
      apply (hmap.orElse (E := Restored m) _).mono
      · rintro _ m₃ ⟨⟨hnone, hsets⟩, hpaths, hwalk, hopen⟩
        have hgrown := h.toGrown.snoc htaken hzero hnone hsets (Zeroed.refl F m₃)
        rw [regionPages_succ]
        exact ⟨_, h.snoc hgrown (hkeep₂.trans hpaths) hwalk hopen⟩
      · exact fun _ h => h
      · -- the frame goes back, then the pages before
        rintro m₃ ⟨hunchanged, hpaths⟩
        have hrun : physFreePage F.1 m₃ = (.ok (), m₃.freeFrame F.no) := physFreePage_apply F.1 m₃
        have htotal : Grows [F.no] m' m₃ := (hg₂.trans hunchanged.1).mono fun n hn => by rwa [List.append_nil] at hn
        have hsame : SameLeaves m' m₃ := fun a => by rw [hunchanged.2 a, hzero.leaves a, htaken.tables]
        have howned : Owned m₃ F := howned₂.grows hunchanged.1
        rw [Ends, bind_ok hrun]
        exact undoRegion_ends wf hal (h.keeps (restored_freeFrame htaken.free htotal howned hsame (hkeep₂.trans hpaths)))
    · exact fun hne => absurd htaken.nonzero hne

/-- A region is mapped to its end or not at all. -/
theorem mmapPages_ends {n : ℕ} (hal : ∀ v ∈ regionPages base n, Aligned v) :
    Ends ((List.range n).forM (mmapPage base flags)) m (fun _ m' => ∃ f, Laid flags (regionPages base n) f m m') (Restored m) := by
  have hloop : Ends ((List.range n).forM (mmapPage base flags)) m
      (fun _ m' => ∃ f, Laid flags (regionPages base (List.range n).length) f m m') (Restored m) := by
    apply Ends.forM (I := fun l m' => ∃ f, Laid flags (regionPages base l.length) f m m')
    · exact ⟨fun _ => m.tables.root, Laid.refl wf _⟩
    · rintro done rest i m' hl ⟨f, h⟩
      obtain ⟨rfl, hi⟩ := range_before hl
      rw [List.length_append, List.length_range, List.length_singleton] at *
      apply mmapPage_ends wf _ h
      intro v hv
      apply hal v
      obtain ⟨j, hj, rfl⟩ := List.mem_map.1 hv
      exact List.mem_map.2 ⟨j, List.mem_range.2 ((List.mem_range.1 hj).trans hi), rfl⟩
  rwa [List.length_range] at hloop

end

end Tg11Kernel.Mmap
