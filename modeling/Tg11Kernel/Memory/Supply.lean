import Tg11Kernel.Memory.Mapping

/-! When there are frames enough. An operation takes a bounded number of frames, and one that
has as many does not fail for want of them: it then depends on the leaves alone. -/

namespace Tg11Kernel.Memory

open Lib Exec

/-- So many frames are free. -/
def Plenty (m : Mem) (k : ℕ) : Prop := ∃ S : Finset ℕ, k ≤ S.card ∧ ∀ n ∈ S, n < MEMORY_MAX_PAGES ∧ m.used n = false

/-- At most so many frames were taken. -/
def Spends (k : ℕ) (m m' : Mem) : Prop := ∃ U : Finset ℕ, U.card ≤ k ∧ ∀ n, m'.used n = true → m.used n = true ∨ n ∈ U

variable {m m' m'' : Mem} {j k : ℕ}

theorem Plenty.mono (h : Plenty m k) (hle : j ≤ k) : Plenty m j := by
  obtain ⟨S, hcard, hS⟩ := h
  exact ⟨S, hle.trans hcard, hS⟩

theorem Plenty.spends (h : Plenty m (k + j)) (hs : Spends j m m') : Plenty m' k := by
  obtain ⟨S, hcard, hS⟩ := h
  obtain ⟨U, hU, hused⟩ := hs
  refine ⟨S \ U, ?_, fun n hn => ?_⟩
  · have hdiff := Finset.le_card_sdiff U S
    omega
  · obtain ⟨hn, hnU⟩ := Finset.mem_sdiff.1 hn
    refine ⟨(hS n hn).1, Bool.eq_false_of_not_eq_true fun htrue => ?_⟩
    rcases hused n htrue with hold | hnew
    · rw [(hS n hn).2] at hold
      cases hold
    · exact hnU hnew

namespace Spends

theorem of_used (h : ∀ n, m'.used n = true → m.used n = true) : Spends 0 m m' := ⟨∅, Nat.le_refl 0, fun n hn => .inl (h n hn)⟩

theorem refl (m : Mem) : Spends 0 m m := of_used fun _ hn => hn

theorem mono (h : Spends j m m') (hle : j ≤ k) : Spends k m m' := by
  obtain ⟨U, hU, hused⟩ := h
  exact ⟨U, hU.trans hle, hused⟩

theorem trans (h : Spends j m m') (h' : Spends k m' m'') : Spends (j + k) m m'' := by
  obtain ⟨U, hU, hused⟩ := h
  obtain ⟨V, hV, hused'⟩ := h'
  refine ⟨U ∪ V, (Finset.card_union_le U V).trans (Nat.add_le_add hU hV), fun n hn => ?_⟩
  rcases hused' n hn with hn | hn
  · exact (hused n hn).imp_right fun hU => Finset.mem_union_left V hU
  · exact .inr (Finset.mem_union_right U hn)

theorem of_taken {F : Frame} (h : Taken m m' F) : Spends 1 m m' := by
  refine ⟨{F.no}, Nat.le_refl 1, fun n hn => ?_⟩
  rw [h.used] at hn
  split_ifs at hn with heq
  · exact .inr (Finset.mem_singleton.2 heq)
  · exact .inl hn

end Spends

/-! ### One frame -/

theorem findRun_one_none {used : ℕ → Bool} {left page start n : ℕ} (h : findRun used 1 left page 0 start = none) (hle : page ≤ n)
    (hlt : n < page + left) : used n = true := by
  induction left generalizing page with
  | zero => omega
  | succ left ih =>
    unfold findRun at h
    by_cases hused : used page = true
    · rw [if_pos hused] at h
      by_cases heq : n = page
      · rwa [heq]
      · exact ih h (by omega) (by omega)
    · simp [hused] at h

section

variable (wf : WellFormed m)
include wf

/-- The answer is 0 only if no frame is free. -/
theorem not_plenty_of_zero (h : (physAllocPage m).1 = .ok 0) : ¬ Plenty m 1 := by
  rintro ⟨S, hcard, hS⟩
  obtain ⟨n, hn⟩ := Finset.card_pos.1 hcard
  cases hrun : findRun m.used 1 MEMORY_MAX_PAGES 0 0 0 with
  | none =>
    have hused := findRun_one_none hrun (Nat.zero_le n) (by rw [Nat.zero_add]; exact (hS n hn).1)
    rw [(hS n hn).2] at hused
    cases hused
  | some p =>
    obtain ⟨-, hlt, hfree⟩ := findRun_one hrun
    rw [Nat.zero_add] at hlt
    unfold physAllocPage physAllocPages at h
    rw [if_neg one_ne_zero, hrun, Outcome.ok.injEq] at h
    have hnat := frame_toNat hlt
    rw [h, UInt64.toNat_zero] at hnat
    obtain rfl : p = 0 := by omega
    rw [wf.zero] at hfree
    cases hfree

theorem physAllocPage_supplied :
    Post physAllocPage m (fun phys m' => phys = 0 ∧ m' = m ∧ ¬ Plenty m 1 ∨ ∃ F : Frame, F.1 = phys ∧ Taken m m' F) fun _ => False := by
  refine ⟨fun a m' heq => ?_, (physAllocPage_post wf).fail⟩
  rcases (physAllocPage_post wf).ok a m' heq with ⟨rfl, rfl⟩ | h
  · exact .inl ⟨rfl, rfl, not_plenty_of_zero wf (by rw [heq])⟩
  · exact .inr h

theorem allocPageTable_supplied : Post allocPageTable m (fun _ m' => Spends 1 m m') fun m' => m' = m ∧ ¬ Plenty m 1 := by
  unfold allocPageTable
  apply (physAllocPage_supplied wf).bind fun _ h => h.elim
  rintro phys m₁ (⟨rfl, rfl, hnone⟩ | ⟨F, rfl, h⟩)
  · exact Post.require_bind (fun h => absurd rfl h) fun _ => ⟨rfl, hnone⟩
  · apply Post.require_bind
    · intro _
      have hspends : Spends 1 m m₁ := .of_taken h
      exact Post.modify_bind (Post.pure hspends)
    · exact fun hzero => absurd (not_not.1 hzero) h.nonzero

/-! ### The way to a page -/

theorem ensureNextTable_supplied (a : UInt64) :
    Post (ensureNextTable a) m (fun _ m' => Spends 1 m m') fun m' => m' = m ∧
      (¬ Plenty m 1 ∨ has (m.tables.entry a) PAGE_FLAG_PRESENT = true ∧ has (m.tables.entry a) PAGE_FLAG_HUGE = true) := by
  unfold ensureNextTable
  apply Post.gets_bind
  by_cases hpresent : has (m.tables.entry a) PAGE_FLAG_PRESENT = true
  · rw [if_pos hpresent]
    apply Post.require_bind
    · exact fun _ => Post.pure ((Spends.refl m).mono (Nat.zero_le 1))
    · exact fun hhuge => ⟨rfl, .inr ⟨hpresent, by simpa using hhuge⟩⟩
  · rw [if_neg hpresent]
    apply (allocPageTable_supplied wf).bind fun _ h => ⟨h.1, .inl h.2⟩
    intro table m₁ h
    exact Post.modify_bind (Post.pure h)

theorem descend_supplied {F : Frame} (flags i : UInt64) (index : Index) (hslot : F.1 + 8 * i = slot F index) :
    Post (descend flags F.1 i) m (fun _ m' => Spends 1 m m') fun m' => m' = m ∧
      (¬ Plenty m 1 ∨ has (m.tables.get F index) PAGE_FLAG_PRESENT = true ∧ has (m.tables.get F index) PAGE_FLAG_HUGE = true) := by
  unfold descend
  dsimp only
  rw [hslot]
  apply (ensureNextTable_supplied wf _).bind fun _ h => h
  intro table m₁ h
  exact Post.modify_bind (Post.pure h)

/-- A large page has no room for a small one. -/
theorem leaf_ne_none_of_huge {addr : UInt64} {D : Frame} (hw : m.tables.walk (dir addr) = some D)
    (hpresent : has (m.tables.get D (index 21 addr)) PAGE_FLAG_PRESENT = true)
    (hhuge : has (m.tables.get D (index 21 addr)) PAGE_FLAG_HUGE = true) : leaf m.tables addr ≠ none := by
  rw [leaf_eq wf, hw, Option.bind_some]
  unfold leafUnder
  rw [if_neg (by simp [hpresent]), if_pos hhuge]
  exact nofun

/-- A page that is not mapped can be, with three frames for tables. -/
theorem pagingMapPage_supplied {virtAddr physAddr : UInt64} (flags : UInt64) (hvirt : Aligned virtAddr)
    (hphys : Aligned physAddr) :
    Post (pagingMapPage virtAddr physAddr flags) m (fun _ m' => Spends 3 m m')
      fun m' => Spends 3 m m' ∧ ¬ (Plenty m 3 ∧ leaf m.tables virtAddr = none) := by
  have hroot : m.tables.walk [] = some m.tables.root := rfl
  unfold pagingMapPage
  refine Post.require_bind (fun _ => ?_) fun h => absurd ⟨hvirt, hphys⟩ h
  apply Post.gets_bind
  apply ((descend_post (p := []) wf flags (pml4Index virtAddr) (index 39 virtAddr) (Nat.zero_le 2) hroot (root_slot _ _)).and
    (descend_supplied wf flags (pml4Index virtAddr) (index 39 virtAddr) (root_slot _ _))).bind
  · rintro m' ⟨rfl, -, hnone | ⟨hpresent, hhuge⟩⟩
    · exact ⟨(Spends.refl m').mono (by omega), fun h => hnone (h.1.mono (by omega))⟩
    · rw [wf.noGigabyte [] _ _ (by simp) hroot hpresent] at hhuge
      cases hhuge
  rintro pdpt m₁ ⟨⟨F₁, rfl, h₁⟩, hs₁⟩
  rw [List.nil_append] at h₁
  apply ((descend_post h₁.grows.wf flags (pdptIndex virtAddr) (index 30 virtAddr) (by simp) h₁.walk (slot_index _ _ _).symm).and
    (descend_supplied h₁.grows.wf flags (pdptIndex virtAddr) (index 30 virtAddr) (slot_index _ _ _).symm)).bind
  · rintro m' ⟨rfl, -, hnone | ⟨hpresent, hhuge⟩⟩
    · exact ⟨hs₁.mono (by omega), fun h => hnone (Plenty.mono (h.1.spends (k := 2) hs₁) (by omega))⟩
    · rw [h₁.grows.wf.noGigabyte _ _ _ (by simp) h₁.walk hpresent] at hhuge
      cases hhuge
  rintro pd m₂ ⟨⟨F₂, rfl, h₂⟩, hs₂⟩
  have hs := hs₁.trans hs₂
  have hleaves := h₁.leaves.trans h₂.leaves
  have hdir : m₂.tables.walk (dir virtAddr) = some F₂ := h₂.walk
  apply ((descend_post h₂.grows.wf flags (pdIndex virtAddr) (index 21 virtAddr) (by simp) h₂.walk (slot_index _ _ _).symm).and
    (descend_supplied h₂.grows.wf flags (pdIndex virtAddr) (index 21 virtAddr) (slot_index _ _ _).symm)).bind
  · rintro m' ⟨rfl, -, hnone | ⟨hpresent, hhuge⟩⟩
    · exact ⟨hs.mono (by omega), fun h => hnone (h.1.spends (k := 1) hs)⟩
    · refine ⟨hs.mono (by omega), fun h => leaf_ne_none_of_huge h₂.grows.wf hdir hpresent hhuge ?_⟩
      rw [hleaves]
      exact h.2
  rintro pt m₃ ⟨⟨F₃, rfl, h₃⟩, hs₃⟩
  have hwalk : m₃.tables.walk (path virtAddr) = some F₃ := h₃.walk
  have hslot : F₃.1 + 8 * ptIndex virtAddr = slot F₃ (index 12 virtAddr) := (slot_index _ _ _).symm
  dsimp only
  rw [hslot]
  apply Post.gets_bind
  apply Post.require_bind
  · exact fun _ => Post.modify (hs.trans hs₃)
  · intro hpresent
    refine ⟨hs.trans hs₃, fun h => ?_⟩
    have hleaf := leaf_of_walk h₃.grows.wf hwalk
    have hget : ¬ has (m₃.tables.get F₃ (index 12 virtAddr)) PAGE_FLAG_PRESENT = false := hpresent
    rw [if_neg hget, (hleaves.trans h₃.leaves) virtAddr, h.2] at hleaf
    cases hleaf

end

end Tg11Kernel.Memory
