import Tg11Kernel.Mmap.Calls

/-! Pages that a program got since it started. Each has a fresh frame of its own, was not
mapped before, and has the flags that were asked for; every other address has the leaf it
had. Pages that are mapped are added, pages that are taken back are left out. -/

namespace Tg11Kernel.Mmap

open Lib Exec Memory Heap Function

variable {m₀ m m' : Mem} {P Q : UInt64 → Prop} {φ : UInt64 → UInt64} {f : UInt64 → Frame} {l : List UInt64} {v : UInt64}

/-- The pages in `P` are held since `m₀`, page `v` with the flags `φ v` on the frame `f v`. -/
structure Holds (P : UInt64 → Prop) (φ : UInt64 → UInt64) (f : UInt64 → Frame) (m₀ m : Mem) : Prop where
  start : WellFormed m₀
  grows : ∃ own, Grows own m₀ m ∧ ∀ n, n ∈ own ↔ ∃ v, P v ∧ (f v).no = n
  free : ∀ v, P v → m₀.used (f v).no = false
  absent : ∀ v, P v → leaf m₀.tables v = none
  backed : ∀ v, P v → Backed m (φ v) v (f v)
  aligned : ∀ v, P v → Aligned v
  inj : ∀ v w, P v → P w → f v = f w → v = w
  others : ∀ a, (∀ v, P v → place a ≠ place v) → leaf m.tables a = leaf m₀.tables a
  paths : Paths m₀ m
  opened : ∀ v, P v → ∀ g, Grant g → has (φ v) g = true → Open m v g

namespace Holds

theorem nothing (wf : WellFormed m) (φ : UInt64 → UInt64) (f : UInt64 → Frame) : Holds (fun _ => False) φ f m m where
  start := wf
  grows := ⟨[], Grows.refl wf, by simp⟩
  free _ h := h.elim
  absent _ h := h.elim
  backed _ h := h.elim
  aligned _ h := h.elim
  inj _ _ h := h.elim
  others _ _ := rfl
  paths := Paths.refl m
  opened _ h := h.elim

section

variable (h : Holds P φ f m₀ m)
include h

theorem wf : WellFormed m := by
  obtain ⟨own, hg, -⟩ := h.grows
  exact hg.wf

theorem congr (hP : ∀ v, Q v ↔ P v) : Holds Q φ f m₀ m := by
  have heq : Q = P := funext fun v => propext (hP v)
  rwa [heq]

/-- Held pages have places of their own. -/
theorem place_inj {v w : UInt64} (hv : P v) (hw : P w) (hplace : place v = place w) : v = w := by
  apply h.inj v w hv hw
  have hleaf := leaf_congr h.wf hplace
  rw [(h.backed v hv).leaf, (h.backed w hw).leaf, Option.some.injEq, Leaf.small.injEq] at hleaf
  rw [← Frame.of_pageEntry (f v) (φ v), hleaf, Frame.of_pageEntry]

theorem restored (hr : Restored m m') : Holds P φ f m₀ m' where
  start := h.start
  grows := by
    obtain ⟨own, hg, hown⟩ := h.grows
    exact ⟨own, (hg.trans hr.unchanged.1).mono fun n hn => by rwa [List.append_nil] at hn, hown⟩
  free := h.free
  absent := h.absent
  backed v hv := ⟨(hr.unchanged.2 v).trans (h.backed v hv).leaf, (h.backed v hv).owned.grows hr.unchanged.1⟩
  aligned := h.aligned
  inj := h.inj
  others a ha := (hr.unchanged.2 a).trans (h.others a ha)
  paths := h.paths.trans hr.paths
  opened v hv g hg hhas := (h.opened v hv g hg hhas).paths hg hr.paths

/-- A page that is mapped now is not one that is mapped afresh. -/
theorem not_mem_of_laid {flags : UInt64} {g : UInt64 → Frame} (hl : Laid flags l g m m') (hv : P v) : v ∉ l := by
  intro hmem
  have hleaf := (h.backed v hv).leaf
  rw [hl.absent v hmem] at hleaf
  cases hleaf

/-- Pages are mapped: they are held as well. -/
theorem laid {flags : UInt64} {g : UInt64 → Frame} (hl : Laid flags l g m m') (hal : ∀ v ∈ l, Aligned v) :
    Holds (fun v => P v ∨ v ∈ l) (fun v => if v ∈ l then flags else φ v) (fun v => if v ∈ l then g v else f v) m₀ m' := by
  obtain ⟨own, hg, hown⟩ := h.grows
  have hnew : ∀ v ∈ l, ∀ a, leaf m.tables a ≠ none → place a ≠ place v := by
    intro v hv a ha hplace
    rw [leaf_congr h.wf hplace, hl.absent v hv] at ha
    exact ha rfl
  have hne : ∀ v, P v → ∀ w ∈ l, place v ≠ place w := by
    intro v hv w hw
    apply hnew w hw
    rw [(h.backed v hv).leaf]
    exact nofun
  have hgfree : ∀ v ∈ l, m.used (g v).no = false := hl.free
  constructor
  case start => exact h.start
  case grows =>
    refine ⟨own ++ l.map fun v => (g v).no, hg.trans hl.grows, fun n => ?_⟩
    rw [List.mem_append, hown, List.mem_map]
    constructor
    · rintro (⟨v, hv, rfl⟩ | ⟨v, hv, rfl⟩)
      · exact ⟨v, .inl hv, by rw [if_neg (h.not_mem_of_laid hl hv)]⟩
      · exact ⟨v, .inr hv, by rw [if_pos hv]⟩
    · rintro ⟨v, hv, rfl⟩
      by_cases hmem : v ∈ l
      · exact .inr ⟨v, hmem, by rw [if_pos hmem]⟩
      · exact .inl ⟨v, hv.resolve_right hmem, by rw [if_neg hmem]⟩
  case free =>
    intro v hv
    by_cases hmem : v ∈ l
    · rw [if_pos hmem]
      exact hg.unused (hgfree v hmem)
    · rw [if_neg hmem]
      exact h.free v (hv.resolve_right hmem)
  case absent =>
    intro v hv
    by_cases hmem : v ∈ l
    · rw [← h.others v fun w hw hplace => hne w hw v hmem hplace.symm]
      exact hl.absent v hmem
    · exact h.absent v (hv.resolve_right hmem)
  case backed =>
    intro v hv
    by_cases hmem : v ∈ l
    · rw [if_pos hmem, if_pos hmem]
      exact hl.backed v hmem
    · rw [if_neg hmem, if_neg hmem]
      have hb := h.backed v (hv.resolve_right hmem)
      exact ⟨(hl.others v (hne v (hv.resolve_right hmem))).trans hb.leaf, hb.owned.grows hl.grows⟩
  case aligned => exact fun v hv => hv.elim (h.aligned v) (hal v)
  case inj =>
    have hmixed : ∀ v w, v ∈ l → P w → g v ≠ f w := by
      intro v w hv hw heq
      have hused := (h.backed w hw).owned.data.1
      rw [← heq, hgfree v hv] at hused
      cases hused
    intro v w hv hw heq
    by_cases hmv : v ∈ l
    · by_cases hmw : w ∈ l
      · rw [if_pos hmv, if_pos hmw] at heq
        exact List.inj_on_of_nodup_map hl.nodup hmv hmw heq
      · rw [if_pos hmv, if_neg hmw] at heq
        exact absurd heq (hmixed v w hmv (hw.resolve_right hmw))
    · by_cases hmw : w ∈ l
      · rw [if_neg hmv, if_pos hmw] at heq
        exact absurd heq.symm (hmixed w v hmw (hv.resolve_right hmv))
      · rw [if_neg hmv, if_neg hmw] at heq
        exact h.inj v w (hv.resolve_right hmv) (hw.resolve_right hmw) heq
  case others =>
    intro a ha
    rw [hl.others a fun v hv => ha v (.inr hv)]
    exact h.others a fun v hv => ha v (.inl hv)
  case paths => exact h.paths.trans hl.paths
  case opened =>
    intro v hv g' hg' hhas
    by_cases hmem : v ∈ l
    · rw [if_pos hmem] at hhas
      exact hl.opened v hmem g' hg' hhas
    · rw [if_neg hmem] at hhas
      exact (h.opened v (hv.resolve_right hmem) g' hg' hhas).paths hg' hl.paths

/-- Pages are taken back: they are held no longer. -/
theorem drops (hd : Drops l (l.map fun v => (f v).no) m m') (hl : ∀ v ∈ l, P v) :
    Holds (fun v => P v ∧ v ∉ l) φ f m₀ m' := by
  obtain ⟨own, hg, hown⟩ := h.grows
  have hfree : ∀ n ∈ l.map (fun v => (f v).no), m₀.used n = false := by
    intro n hn
    obtain ⟨v, hv, rfl⟩ := List.mem_map.1 hn
    exact h.free v (hl v hv)
  have hframe : ∀ v, P v → ((f v).no ∈ l.map (fun v => (f v).no) ↔ v ∈ l) := by
    intro v hv
    rw [List.mem_map]
    constructor
    · rintro ⟨w, hw, heq⟩
      rwa [← h.inj w v (hl w hw) hv (Frame.ext_no heq)]
    · exact fun hmem => ⟨v, hmem, rfl⟩
  constructor
  case start => exact h.start
  case grows =>
    refine ⟨_, hg.shrinks_filter hfree hd.toShrinks, fun n => ?_⟩
    rw [List.mem_filter, hown]
    constructor
    · rintro ⟨⟨v, hv, rfl⟩, hn⟩
      refine ⟨v, ⟨hv, fun hmem => ?_⟩, rfl⟩
      rw [decide_eq_true_iff] at hn
      exact hn ((hframe v hv).2 hmem)
    · rintro ⟨v, ⟨hv, hmem⟩, rfl⟩
      refine ⟨⟨v, hv, rfl⟩, ?_⟩
      rw [decide_eq_true_iff]
      exact fun hn => hmem ((hframe v hv).1 hn)
  case free => exact fun v hv => h.free v hv.1
  case absent => exact fun v hv => h.absent v hv.1
  case backed =>
    intro v hv
    apply (h.backed v hv.1).shrinks hd.toShrinks
    · intro w hw hplace
      exact hv.2 (by rwa [h.place_inj hv.1 (hl w hw) hplace])
    · exact fun hn => hv.2 ((hframe v hv.1).1 hn)
  case aligned => exact fun v hv => h.aligned v hv.1
  case inj => exact fun v w hv hw => h.inj v w hv.1 hw.1
  case others =>
    intro a ha
    by_cases hgone : ∃ v ∈ l, place a = place v
    · obtain ⟨v, hv, hplace⟩ := hgone
      rw [hd.gone a ⟨v, hv, hplace⟩, leaf_congr h.start hplace, h.absent v (hl v hv)]
    · have hkept : ∀ v ∈ l, place a ≠ place v := fun v hv heq => hgone ⟨v, hv, heq⟩
      rw [hd.kept a hkept]
      apply h.others
      intro v hv hplace
      by_cases hmem : v ∈ l
      · exact hkept v hmem hplace
      · exact ha v ⟨hv, hmem⟩ hplace
  case paths => exact h.paths.trans hd.paths
  case opened => exact fun v hv g hg hhas => (h.opened v hv.1 g hg hhas).paths hg hd.paths

end

end Holds

end Tg11Kernel.Mmap
