import Tg11Kernel.Heap.User
import Tg11Kernel.Memory.Supply

/-! A heap that has frames enough grows if the pages are free, and only then. A page takes its
frame, three frames for tables at most, and three for the tables of the page through which the
frame is emptied. -/

namespace Tg11Kernel.Heap

open Lib Exec Memory

variable {m m' : Mem} {page mapFrom mapTo : UInt64} {l : List UInt64} {f : UInt64 → Frame}

theorem writePage_spends (v : UInt64) (off n : ℕ) (g : ℕ → UInt8) :
    Post (writePage v off n g) m (fun _ m' => Spends 0 m m') fun _ => False := by
  have hkeeps : (writePage v off n g m).2.used = m.used ∧ (writePage v off n g m).1 ≠ .fail := by
    unfold writePage
    split_ifs
    · cases translate m.tables v <;> exact ⟨rfl, nofun⟩
    · exact ⟨rfl, nofun⟩
  refine ⟨fun a m' heq => ?_, fun m' heq => ?_⟩ <;> rw [heq] at hkeeps
  · have hused : m'.used = m.used := hkeeps.1
    exact Spends.of_used fun k hk => by rwa [hused] at hk
  · exact absurd rfl hkeeps.2

theorem memoryZeroPhysPage_spends (wf : WellFormed m) (F : Frame) :
    Post (memoryZeroPhysPage F.1) m (fun _ m' => Spends 3 m m') fun _ => False := by
  unfold memoryZeroPhysPage
  rw [if_pos (aligned_frame F)]
  apply (pagingMapPage_supplied wf PAGE_FLAG_WRITABLE (by decide : Aligned MEMORY_TEMP_PAGE_VADDR) (aligned_frame F)).attempt_bind
  · intro _ m₁ h
    apply (writePage_spends _ _ _ _).bind fun _ h => h
    intro _ m₂ h'
    apply Post.modify
    have hspends : Spends 0 m₂ (m₂.unmapPage MEMORY_TEMP_PAGE_VADDR) := .of_used fun n hn => by rwa [unmapPage_used] at hn
    exact (h.trans h').trans hspends
  · exact fun m₁ h => Post.pure h.1

theorem getPhys_of_absent (h : leaf m.tables page = none) : pagingGetPhys m.tables page = 0 := by
  rw [pagingGetPhys_eq, h]
  rfl

theorem growPage_supplied (wf : WellFormed m) (hal : Aligned page) (h : Plenty m 7) (habsent : leaf m.tables page = none) :
    Post (growPage mapFrom page) m (fun _ m' => Spends 7 m m') fun _ => False := by
  unfold growPage
  apply Post.gets_bind
  apply Post.orElse_require_bind _ fun hpresent => absurd (getPhys_of_absent habsent) hpresent
  intro _
  apply (physAllocPage_supplied wf).bind fun _ h => h
  rintro phys m₁ (⟨-, -, hnone⟩ | ⟨F, rfl, htaken⟩)
  · exact absurd (h.mono (by omega)) hnone
  apply Post.orElse_require_bind _ fun hzero => absurd htaken.nonzero hzero
  intro _
  have hwf₁ := (htaken.grows wf).wf
  have hplenty : Plenty m₁ 6 := h.spends (.of_taken htaken)
  have habsent₁ : leaf m₁.tables page = none := by rw [htaken.tables, habsent]
  have hmap := ((pagingMapPage_post hwf₁ page F.1 userHeapFlags).and (pagingMapPage_supplied hwf₁ userHeapFlags hal (aligned_frame F))).never_fails
    fun _ h => h.2.2 ⟨hplenty.mono (by omega), habsent₁⟩
  apply (hmap.orElse fun _ h => h.elim).bind fun _ h => h
  rintro _ m₂ ⟨⟨-, hsets⟩, hs⟩
  apply (memoryZeroPhysPage_spends hsets.grows.wf F).mono _ fun _ h => h
  exact fun _ m₃ hs' => ((Spends.of_taken htaken).trans hs).trans hs'

/-- A page whose place no page before has. -/
theorem Laid.absent_next {flags : UInt64} (h : Laid flags l f m m') (hplace : ∀ v ∈ l, place page ≠ place v)
    (habsent : leaf m.tables page = none) : leaf m'.tables page = none := by rw [h.others page hplace, habsent]

/-- Free pages that have places of their own are mapped, if there are frames. -/
theorem growHeap_supplied (wf : WellFormed m) (hfrom : Aligned mapFrom) (hto : Aligned mapTo)
    (hplaces : (pageSpan mapFrom mapTo).Pairwise fun v w => place v ≠ place w) (h : Plenty m ((pageSpan mapFrom mapTo).length * 7))
    (habsent : ∀ v ∈ pageSpan mapFrom mapTo, leaf m.tables v = none) :
    Ends (growHeap mapFrom mapTo) m (fun _ m' => ∃ f, Laid userHeapFlags (pageSpan mapFrom mapTo) f m m') fun _ => False := by
  have hloop : Ends (growHeap mapFrom mapTo) m
      (fun _ m' => (∃ f, Laid userHeapFlags (pageSpan mapFrom mapTo) f m m') ∧ Spends ((pageSpan mapFrom mapTo).length * 7) m m') fun _ => False := by
    apply Ends.forM (I := fun l m' => (∃ f, Laid userHeapFlags l f m m') ∧ Spends (l.length * 7) m m')
    · exact ⟨⟨fun _ => m.tables.root, Laid.refl wf _⟩, Spends.refl m⟩
    · rintro done rest page m' hl ⟨⟨f, hlaid⟩, hs⟩
      have hmem : page ∈ pageSpan mapFrom mapTo := by
        rw [hl]
        simp
      have hal : ∀ v ∈ done, Aligned v := by
        intro v hv
        apply aligned_of_mem hfrom hto
        rw [hl]
        exact List.mem_append_left _ hv
      have hplenty : Plenty m' 7 := by
        rw [hl, List.length_append, List.length_cons] at h
        exact (h.mono (show 7 + done.length * 7 ≤ _ by omega)).spends hs
      rw [hl, List.pairwise_append] at hplaces
      have hnext := hlaid.absent_next (fun v hv heq => hplaces.2.2 v hv page List.mem_cons_self heq.symm) (habsent page hmem)
      have hgrow := (growPage_ends wf (pageSpan_before hfrom hto hl) hal hlaid).and_post
        (@growPage_supplied _ _ mapFrom hlaid.grows.wf (aligned_of_mem hfrom hto hmem) hplenty hnext)
      apply hgrow.mono
      · rintro _ m'' ⟨hlaid', hs'⟩
        refine ⟨hlaid', ?_⟩
        rw [List.length_append, List.length_singleton, Nat.add_mul, Nat.one_mul]
        exact hs.trans hs'
      · exact fun _ h => h.2
  exact hloop.mono (fun _ _ h => h.1) fun _ h => h

/-- A page that is taken stops the growth. -/
theorem growHeap_blocked (wf : WellFormed m) (hfrom : Aligned mapFrom) (hto : Aligned mapTo) (hmem : page ∈ pageSpan mapFrom mapTo)
    (h : leaf m.tables page ≠ none) : Ends (growHeap mapFrom mapTo) m (fun _ _ => False) (Restored m) := by
  apply (growHeap_ends wf hfrom hto).mono _ fun _ h => h
  rintro _ m' ⟨f, hlaid⟩
  exact h (hlaid.absent page hmem)

end Tg11Kernel.Heap
