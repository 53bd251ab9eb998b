import Tg11Kernel.Heap.User

/-! The heap of a user program over whole runs. Between `task_user_heap_config` and the next
reset the program moves its break as it likes, and the kernel allocates elsewhere in between.
The mapped pages are those below the break in every state, except that a break in the last
page of the address space is rounded up to 0. -/

namespace Tg11Kernel.Heap

open Lib Exec Memory

/-- The page lies in the window. -/
structure User.Page (s : User) (v : UInt64) : Prop where
  aligned : Aligned v
  le : s.base ≤ v
  lt : v < s.limit

/-- The page is mapped with the flags of a user heap, to a frame that was handed out. -/
def User.Holds (s : User) (v : UInt64) (F : Frame) : Prop := Backed s.mem userHeapFlags v F

/-- The window, the break in it, and the pages below the break on frames of their own. -/
structure HeapInv (s : User) : Prop where
  wf : WellFormed s.mem
  nonzero : s.base ≠ 0
  window : s.base < s.limit
  aligned : Aligned s.base
  narrow : s.limit.toNat ≤ s.base.toNat + 2 ^ 48
  base_le : s.base ≤ s.brk
  le_limit : s.brk ≤ s.limit
  rounds : Rounds s.brk
  mapped : ∀ v, s.Page v → v < s.brk → ∃ F, s.Holds v F
  unmapped : ∀ v, s.Page v → s.brk ≤ v → leaf s.mem.tables v = none
  own : ∀ v w F, s.Page v → s.Page w → s.Holds v F → s.Holds w F → v = w

/-- What the rest of the kernel may do: it keeps the tables well formed, does not touch the
window and does not free the frames of the heap. -/
structure Elsewhere (s : User) (m : Mem) : Prop where
  wf : WellFormed m
  leaves : ∀ v, s.Page v → leaf m.tables v = leaf s.mem.tables v
  owned : ∀ v F, s.Page v → s.Holds v F → Owned m F

/-- The states of a run. The calls of `brk` in it satisfy `P`. -/
inductive HeapRun (P : User → UInt64 → Prop) (s₀ : User) : User → Prop where
  | start : HeapRun P s₀ s₀
  | brk {s : User} (n : UInt64) (hrun : HeapRun P s₀ s) (h : P s n) : HeapRun P s₀ (taskUserHeapBrk n s).2
  | elsewhere {s : User} (m : Mem) (hrun : HeapRun P s₀ s) (h : Elsewhere s m) : HeapRun P s₀ { s with mem := m }

/-- What a call of `brk` leaves alone. -/
structure BrkSafe (s : User) (n : UInt64) : Prop where
  returns : (taskUserHeapBrk n s).1 ≠ .hang
  failed : (taskUserHeapBrk n s).1 = .fail → ∃ m, (taskUserHeapBrk n s).2 = { s with mem := m } ∧ Unchanged s.mem m
  bytes : s.brk ≤ (taskUserHeapBrk n s).2.brk → ∀ a, s.base ≤ a → a < s.brk →
    readByte (taskUserHeapBrk n s).2.mem.tables a = readByte s.mem.tables a

/-- A reset unmaps the window and frees its frames and no other. -/
def ResetFrees (s : User) : Prop :=
  ∃ m, taskUserHeapReset s = (.ok (), ⟨m, 0, 0, 0⟩) ∧ (∀ v, s.Page v → leaf m.tables v = none) ∧
    ∀ k, m.used k = true ↔ s.mem.used k = true ∧ ¬ ∃ v F, s.Page v ∧ s.Holds v F ∧ F.no = k

/-- The promises of the heap, for calls of `brk` that satisfy `P`. -/
structure HeapSafe (P : User → UInt64 → Prop) (s : User) : Prop where
  base_le : s.base ≤ s.brk
  le_limit : s.brk ≤ s.limit
  mapped : ∀ v, s.Page v → (leaf s.mem.tables v ≠ none ↔ v < alignUpPage s.brk)
  holds : ∀ v, s.Page v → leaf s.mem.tables v ≠ none → ∃ F, s.Holds v F
  own : ∀ v w F, s.Page v → s.Page w → s.Holds v F → s.Holds w F → v = w
  brk : ∀ n, P s n → BrkSafe s n
  reset : ResetFrees s

/-- The break is refused, or it can be rounded up to a page. -/
def InRange (s : User) (n : UInt64) : Prop := s.limit < n ∨ Rounds n

variable {s s' : User} {m m' : Mem} {v w n : UInt64} {F : Frame}

/-! ### Pages of the window -/

section

variable (h : HeapInv s)
include h

/-- Two pages of one place are 2^48 bytes apart or the same. -/
theorem HeapInv.place_inj (hv : s.Page v) (hw : s.Page w) (hplace : place v = place w) : v = w := by
  have hav := (aligned_iff v).1 hv.aligned
  have haw := (aligned_iff w).1 hw.aligned
  have hvle := UInt64.le_iff_toNat_le.1 hv.le
  have hvlt := UInt64.lt_iff_toNat_lt.1 hv.lt
  have hwle := UInt64.le_iff_toNat_le.1 hw.le
  have hwlt := UInt64.lt_iff_toNat_lt.1 hw.lt
  have hnarrow := h.narrow
  rw [place_eq_iff_index] at hplace
  apply UInt64.toNat_inj.1
  omega

theorem HeapInv.rounds_base : Rounds s.base := by
  have hle := UInt64.le_iff_toNat_le.1 h.base_le
  have hrounds := h.rounds
  unfold Rounds at hrounds ⊢
  omega

variable {a : UInt64}

theorem HeapInv.page_of_mem {b : UInt64} (ha : Rounds a) (hb : Rounds b) (hbase : s.base ≤ a) (hlimit : b ≤ s.limit)
    (hv : v ∈ pageSpan (alignUpPage a) (alignUpPage b)) : s.Page v ∧ a ≤ v ∧ v < b := by
  obtain ⟨hal, hle, hlt⟩ := (mem_pageSpan_alignUpPage ha hb).1 hv
  exact ⟨⟨hal, UInt64.le_trans hbase hle, UInt64.lt_of_lt_of_le hlt hlimit⟩, hle, hlt⟩

/-- The page of an address below the break. -/
theorem HeapInv.page_of_lt (hle : s.base ≤ a) (hlt : a < s.brk) :
    ∃ v, s.Page v ∧ v < s.brk ∧ place a = place v := by
  have hal := (aligned_iff s.base).1 h.aligned
  have hle' := UInt64.le_iff_toNat_le.1 hle
  have hlt' := UInt64.lt_iff_toNat_lt.1 hlt
  have hlimit := UInt64.le_iff_toNat_le.1 h.le_limit
  have hdown := maskDown_toNat a
  refine ⟨a &&& ~~~4095, ⟨?_, ?_, ?_⟩, ?_, ?_⟩
  · rw [aligned_iff, hdown]
    omega
  · rw [UInt64.le_iff_toNat_le, hdown]
    omega
  · rw [UInt64.lt_iff_toNat_lt, hdown]
    omega
  · rw [UInt64.lt_iff_toNat_lt, hdown]
    omega
  · apply place_of_page
    rw [hdown]
    omega

theorem HeapInv.holds_of_leaf (hv : s.Page v) (hleaf : leaf s.mem.tables v ≠ none) : v < s.brk ∧ ∃ F, s.Holds v F := by
  have hlt : v < s.brk := by
    by_contra hge
    exact hleaf (h.unmapped v hv (UInt64.not_lt.1 hge))
  exact ⟨hlt, h.mapped v hv hlt⟩

theorem HeapInv.holds_of_entry (hv : s.Page v) (hleaf : leaf s.mem.tables v = some (.small (pageEntry F.1 userHeapFlags))) :
    s.Holds v F := by
  obtain ⟨-, G, hG⟩ := h.holds_of_leaf hv (by rw [hleaf]; exact nofun)
  have heq := hG.leaf
  rw [hleaf, Option.some.injEq, Leaf.small.injEq] at heq
  have hFG : F = G := by rw [← Frame.of_pageEntry F userHeapFlags, heq, Frame.of_pageEntry]
  rwa [hFG]

/-! ### Steps -/

theorem HeapInv.elsewhere (he : Elsewhere s m) : HeapInv { s with mem := m } := by
  have hback : ∀ v F, s.Page v → User.Holds { s with mem := m } v F → s.Holds v F := by
    intro v F hv hF
    apply h.holds_of_entry hv
    rw [← he.leaves v hv]
    exact hF.leaf
  constructor
  case mapped =>
    intro v hv hlt
    have hv' : s.Page v := ⟨hv.aligned, hv.le, hv.lt⟩
    obtain ⟨F, hF⟩ := h.mapped v hv' hlt
    exact ⟨F, (he.leaves v hv').trans hF.leaf, he.owned v F hv' hF⟩
  case unmapped =>
    intro v hv hle
    have hv' : s.Page v := ⟨hv.aligned, hv.le, hv.lt⟩
    exact (he.leaves v hv').trans (h.unmapped v hv' hle)
  case own =>
    intro v w F hv hw hF hF'
    have hv' : s.Page v := ⟨hv.aligned, hv.le, hv.lt⟩
    have hw' : s.Page w := ⟨hw.aligned, hw.le, hw.lt⟩
    exact h.own v w F hv' hw' (hback v F hv' hF) (hback w F hw' hF')
  case wf => exact he.wf
  case nonzero => exact h.nonzero
  case window => exact h.window
  case aligned => exact h.aligned
  case narrow => exact h.narrow
  case base_le => exact h.base_le
  case le_limit => exact h.le_limit
  case rounds => exact h.rounds

end

variable {own : List ℕ} {a base limit : UInt64}

theorem Elsewhere.of_grows (hg : Grows own s.mem m) (hl : ∀ v, s.Page v → leaf m.tables v = leaf s.mem.tables v) :
    Elsewhere s m where
  wf := hg.wf
  leaves := hl
  owned _ _ _ hF := hF.owned.grows hg

/-- The pages up to the new break were mapped. -/
theorem HeapInv.grown (h : HeapInv s) (hn : Rounds n) (hlt : s.brk < n) (hle : n ≤ s.limit) {f : UInt64 → Frame}
    (hg : Grown userHeapFlags (pageSpan (alignUpPage s.brk) (alignUpPage n)) f s.mem m) : HeapInv { s with mem := m, brk := n } := by
  have hspan {v : UInt64} : v ∈ pageSpan (alignUpPage s.brk) (alignUpPage n) ↔ Aligned v ∧ s.brk ≤ v ∧ v < n :=
    mem_pageSpan_alignUpPage h.rounds hn
  have hpage {v : UInt64} (hv : v ∈ pageSpan (alignUpPage s.brk) (alignUpPage n)) : s.Page v :=
    (h.page_of_mem h.rounds hn h.base_le hle hv).1
  have hkept {v : UInt64} (hv : s.Page v) (hout : v ∉ pageSpan (alignUpPage s.brk) (alignUpPage n)) :
      leaf m.tables v = leaf s.mem.tables v := by
    apply hg.others
    intro w hw hplace
    exact hout (h.place_inj hv (hpage hw) hplace ▸ hw)
  have hinside {v : UInt64} {F : Frame} (hv : v ∈ pageSpan (alignUpPage s.brk) (alignUpPage n))
      (hF : User.Holds { s with mem := m, brk := n } v F) : F = f v :=
    Backed.inj hF hg.grows.wf (hg.backed v hv) rfl
  have houtside {v : UInt64} {F : Frame} (hv : s.Page v) (hout : v ∉ pageSpan (alignUpPage s.brk) (alignUpPage n))
      (hF : User.Holds { s with mem := m, brk := n } v F) : s.Holds v F := by
    apply h.holds_of_entry hv
    rw [← hkept hv hout]
    exact hF.leaf
  have hapart {v w : UInt64} {F : Frame} (hv : v ∈ pageSpan (alignUpPage s.brk) (alignUpPage n)) (hF : s.Holds w F) : F ≠ f v := by
    rintro rfl
    have hused := hF.owned.data.1
    rw [hg.free v hv] at hused
    cases hused
  constructor
  case mapped =>
    intro v hv hvn
    have hv' : s.Page v := ⟨hv.aligned, hv.le, hv.lt⟩
    by_cases hmem : v ∈ pageSpan (alignUpPage s.brk) (alignUpPage n)
    · exact ⟨f v, hg.backed v hmem⟩
    · have hbrk : v < s.brk := by
        by_contra hge
        exact hmem (hspan.2 ⟨hv.aligned, UInt64.not_lt.1 hge, hvn⟩)
      obtain ⟨F, hF⟩ := h.mapped v hv' hbrk
      exact ⟨F, (hkept hv' hmem).trans hF.leaf, hF.owned.grows hg.grows⟩
  case unmapped =>
    intro v hv hnv
    have hv' : s.Page v := ⟨hv.aligned, hv.le, hv.lt⟩
    have hmem : v ∉ pageSpan (alignUpPage s.brk) (alignUpPage n) := fun hmem =>
      UInt64.not_lt.2 hnv (hspan.1 hmem).2.2
    exact (hkept hv' hmem).trans (h.unmapped v hv' (UInt64.le_trans (UInt64.le_of_lt hlt) hnv))
  case own =>
    intro v w F hv hw hF hF'
    have hv' : s.Page v := ⟨hv.aligned, hv.le, hv.lt⟩
    have hw' : s.Page w := ⟨hw.aligned, hw.le, hw.lt⟩
    by_cases hvm : v ∈ pageSpan (alignUpPage s.brk) (alignUpPage n) <;>
      by_cases hwm : w ∈ pageSpan (alignUpPage s.brk) (alignUpPage n)
    · exact List.inj_on_of_nodup_map hg.nodup hvm hwm ((hinside hvm hF).symm.trans (hinside hwm hF'))
    · exact absurd (hinside hvm hF) (hapart hvm (houtside hw' hwm hF'))
    · exact absurd (hinside hwm hF') (hapart hwm (houtside hv' hvm hF))
    · exact h.own v w F hv' hw' (houtside hv' hvm hF) (houtside hw' hwm hF')
  case wf => exact hg.grows.wf
  case nonzero => exact h.nonzero
  case window => exact h.window
  case aligned => exact h.aligned
  case narrow => exact h.narrow
  case base_le => exact UInt64.le_trans h.base_le (UInt64.le_of_lt hlt)
  case le_limit => exact hle
  case rounds => exact hn

/-- The pages from an address up to the break are given back. -/
theorem HeapInv.unmapRange (h : HeapInv s) (hn : Rounds n) (hbase : s.base ≤ n) :
    ∃ m, userHeapUnmapRange (alignUpPage n) (alignUpPage s.brk) s.mem = (.ok (), m) ∧
      Shrinks (pageSpan (alignUpPage n) (alignUpPage s.brk))
        ((pageSpan (alignUpPage n) (alignUpPage s.brk)).map fun v => (Frame.of (pagingGetPhys s.mem.tables v)).no) s.mem m := by
  have hbacked : ∀ v ∈ pageSpan (alignUpPage n) (alignUpPage s.brk), s.Page v ∧
      Backed s.mem userHeapFlags v (Frame.of (pagingGetPhys s.mem.tables v)) := by
    intro v hv
    obtain ⟨hpage, -, hlt⟩ := h.page_of_mem hn h.rounds hbase h.le_limit hv
    obtain ⟨F, hF⟩ := h.mapped v hpage hlt
    refine ⟨hpage, ?_⟩
    rw [Backed.phys hF hpage.aligned, Frame.of_val]
    exact hF
  have hnodup : ((pageSpan (alignUpPage n) (alignUpPage s.brk)).map fun v => Frame.of (pagingGetPhys s.mem.tables v)).Nodup := by
    apply List.Nodup.map_on _ (pageSpan_nodup _ _)
    intro v hv w hw heq
    obtain ⟨hpv, hbv⟩ := hbacked v hv
    obtain ⟨hpw, hbw⟩ := hbacked w hw
    rw [← heq] at hbw
    exact h.own v w _ hpv hpw hbv hbw
  obtain ⟨m, hrun, hdrops⟩ := unmapRange_shrinks h.wf (fun v hv => (hbacked v hv).1.aligned) (fun v hv => (hbacked v hv).2) hnodup
  exact ⟨m, hrun, hdrops.toShrinks⟩

theorem HeapInv.shrunk (h : HeapInv s) (hn : Rounds n) (hbase : s.base ≤ n) (hlt : n < s.brk)
    (hs : Shrinks (pageSpan (alignUpPage n) (alignUpPage s.brk))
      ((pageSpan (alignUpPage n) (alignUpPage s.brk)).map fun v => (Frame.of (pagingGetPhys s.mem.tables v)).no) s.mem m) :
    HeapInv { s with mem := m, brk := n } := by
  have hspan {v : UInt64} : v ∈ pageSpan (alignUpPage n) (alignUpPage s.brk) ↔ Aligned v ∧ n ≤ v ∧ v < s.brk :=
    mem_pageSpan_alignUpPage hn h.rounds
  have hpage {v : UInt64} (hv : v ∈ pageSpan (alignUpPage n) (alignUpPage s.brk)) : s.Page v :=
    (h.page_of_mem hn h.rounds hbase h.le_limit hv).1
  have hkept {v : UInt64} (hv : s.Page v) (hout : v ∉ pageSpan (alignUpPage n) (alignUpPage s.brk)) :
      leaf m.tables v = leaf s.mem.tables v := by
    apply hs.kept
    intro w hw hplace
    exact hout (h.place_inj hv (hpage hw) hplace ▸ hw)
  have hback : ∀ v F, s.Page v → User.Holds { s with mem := m, brk := n } v F → s.Holds v F := by
    intro v F hv hF
    have hleaf := hF.leaf
    have hout : v ∉ pageSpan (alignUpPage n) (alignUpPage s.brk) := by
      intro hmem
      rw [hs.gone v ⟨v, hmem, rfl⟩] at hleaf
      cases hleaf
    apply h.holds_of_entry hv
    rw [← hkept hv hout]
    exact hleaf
  constructor
  case mapped =>
    intro v hv hvn
    have hv' : s.Page v := ⟨hv.aligned, hv.le, hv.lt⟩
    have hout : v ∉ pageSpan (alignUpPage n) (alignUpPage s.brk) := fun hmem => UInt64.not_lt.2 (hspan.1 hmem).2.1 hvn
    obtain ⟨F, hF⟩ := h.mapped v hv' (UInt64.lt_trans hvn hlt)
    refine ⟨F, (hkept hv' hout).trans hF.leaf, hF.owned.shrinks hs ?_⟩
    intro hno
    obtain ⟨w, hw, hwF⟩ := List.mem_map.1 hno
    obtain ⟨G, hG⟩ := h.mapped w (hpage hw) (hspan.1 hw).2.2
    rw [Backed.phys hG (hpage hw).aligned, Frame.of_val] at hwF
    obtain rfl := Frame.ext_no hwF
    obtain rfl := h.own v w G hv' (hpage hw) hF hG
    exact hout hw
  case unmapped =>
    intro v hv hnv
    have hv' : s.Page v := ⟨hv.aligned, hv.le, hv.lt⟩
    by_cases hmem : v ∈ pageSpan (alignUpPage n) (alignUpPage s.brk)
    · exact hs.gone v ⟨v, hmem, rfl⟩
    · rw [hkept hv' hmem]
      apply h.unmapped v hv'
      by_contra hge
      exact hmem (hspan.2 ⟨hv.aligned, hnv, UInt64.not_le.1 hge⟩)
  case own =>
    intro v w F hv hw hF hF'
    have hv' : s.Page v := ⟨hv.aligned, hv.le, hv.lt⟩
    have hw' : s.Page w := ⟨hw.aligned, hw.le, hw.lt⟩
    exact h.own v w F hv' hw' (hback v F hv' hF) (hback w F hw' hF')
  case wf => exact hs.wf
  case nonzero => exact h.nonzero
  case window => exact h.window
  case aligned => exact h.aligned
  case narrow => exact h.narrow
  case base_le => exact hbase
  case le_limit => exact UInt64.le_trans (UInt64.le_of_lt hlt) h.le_limit
  case rounds => exact hn

/-- A byte of a page that is kept, in a frame that is kept. -/
theorem readByte_grows (wf : WellFormed m) (hg : Grows own m m') {e : UInt64} (hleaf : leaf m.tables a = some (.small e))
    (hleaf' : leaf m'.tables a = leaf m.tables a) (hdata : Data m (Frame.of e)) : readByte m'.tables a = readByte m.tables a := by
  by_cases hc : Canonical a
  · rw [readByte_small wf hc hleaf, readByte_small hg.wf hc (hleaf'.trans hleaf)]
    congr 1
    exact frameByte_congr (hg.data _ hdata).2 (Nat.mod_lt _ (by decide))
  · unfold readByte
    rw [if_neg hc, if_neg hc]

/-- The bytes below the break are kept. -/
theorem HeapInv.bytes_of_grows (h : HeapInv s) (hg : Grows own s.mem m)
    (hl : ∀ v, s.Page v → v < s.brk → leaf m.tables v = leaf s.mem.tables v) (hle : s.base ≤ a) (hlt : a < s.brk) :
    readByte m.tables a = readByte s.mem.tables a := by
  obtain ⟨v, hv, hvlt, hplace⟩ := h.page_of_lt hle hlt
  obtain ⟨F, hF⟩ := h.mapped v hv hvlt
  have hleaf : leaf s.mem.tables a = some (.small (pageEntry F.1 userHeapFlags)) := (leaf_congr h.wf hplace).trans hF.leaf
  have hleaf' : leaf m.tables a = leaf s.mem.tables a := by
    rw [leaf_congr hg.wf hplace, leaf_congr h.wf hplace, hl v hv hvlt]
  apply readByte_grows h.wf hg hleaf hleaf'
  rw [Frame.of_pageEntry]
  exact hF.owned.data

/-- How a call of `brk` ends. -/
inductive BrkEnds (s : User) (n : UInt64) : Outcome UInt64 × User → Prop where
  | read : BrkEnds s n (.ok s.brk, s)
  | refused {m : Mem} (h : Unchanged s.mem m) : BrkEnds s n (.fail, { s with mem := m })
  | grown {m : Mem} {f : UInt64 → Frame} (hlt : s.brk < n) (hle : n ≤ s.limit) (hn : Rounds n)
      (hg : Grown userHeapFlags (pageSpan (alignUpPage s.brk) (alignUpPage n)) f s.mem m) : BrkEnds s n (.ok n, { s with mem := m, brk := n })
  | shrunk {m : Mem} (hbase : s.base ≤ n) (hlt : n < s.brk) (hn : Rounds n)
      (hs : Shrinks (pageSpan (alignUpPage n) (alignUpPage s.brk))
        ((pageSpan (alignUpPage n) (alignUpPage s.brk)).map fun v => (Frame.of (pagingGetPhys s.mem.tables v)).no) s.mem m) :
      BrkEnds s n (.ok n, { s with mem := m, brk := n })

section

variable (h : HeapInv s)
include h

theorem HeapInv.brkEnds (hn : InRange s n) : BrkEnds s n (taskUserHeapBrk n s) := by
  have hrounds : n ≤ s.limit → Rounds n := fun hle => hn.resolve_left (UInt64.not_lt.2 hle)
  have hmoves := taskUserHeapBrk_moves h.wf (n := n) fun hbase hlt =>
    h.unmapRange (hrounds (UInt64.le_trans (UInt64.le_of_lt hlt) h.le_limit)) hbase
  generalize taskUserHeapBrk n s = r at hmoves
  cases hmoves with
  | read => exact .read
  | refused hr => exact .refused hr.unchanged
  | grown hlt hle hl => exact .grown hlt hle (hrounds hle) hl.toGrown
  | shrunk hbase hlt hs => exact .shrunk hbase hlt (hrounds (UInt64.le_trans (UInt64.le_of_lt hlt) h.le_limit)) hs

theorem HeapInv.unchanged (hu : Unchanged s.mem m) : HeapInv { s with mem := m } :=
  h.elsewhere (.of_grows hu.1 fun v _ => hu.2 v)

/-- The invariant survives a call. -/
theorem HeapInv.brk_keeps (hn : InRange s n) : HeapInv (taskUserHeapBrk n s).2 := by
  have hends := h.brkEnds hn
  generalize taskUserHeapBrk n s = r at hends
  cases hends with
  | read => exact h
  | refused hu => exact h.unchanged hu
  | grown hlt hle hrounds hg => exact h.grown hrounds hlt hle hg
  | shrunk hbase hlt hrounds hs => exact h.shrunk hrounds hbase hlt hs

theorem HeapInv.brkSafe (hn : InRange s n) : BrkSafe s n := by
  have hends := h.brkEnds hn
  suffices hsuffices : ∀ r, BrkEnds s n r → r.1 ≠ .hang ∧ (r.1 = .fail → ∃ m, r.2 = { s with mem := m } ∧ Unchanged s.mem m) ∧
      (s.brk ≤ r.2.brk → ∀ a, s.base ≤ a → a < s.brk → readByte r.2.mem.tables a = readByte s.mem.tables a) by
    obtain ⟨hreturns, hfailed, hbytes⟩ := hsuffices _ hends
    exact ⟨hreturns, hfailed, hbytes⟩
  rintro r hr
  cases hr with
  | read => exact ⟨nofun, nofun, fun _ _ _ _ => rfl⟩
  | refused hu => exact ⟨nofun, fun _ => ⟨_, rfl, hu⟩, fun _ a hle hlt => h.bytes_of_grows hu.1 (fun v _ _ => hu.2 v) hle hlt⟩
  | grown hlt hle hrounds hg =>
    refine ⟨nofun, nofun, fun _ a hbase ha => h.bytes_of_grows hg.grows ?_ hbase ha⟩
    intro v hv hvlt
    apply hg.others
    intro w hw hplace
    obtain ⟨hpage, hbrk, -⟩ := h.page_of_mem h.rounds hrounds h.base_le hle hw
    obtain rfl := h.place_inj hv hpage hplace
    exact UInt64.not_lt.2 hbrk hvlt
  | shrunk hbase hlt => exact ⟨nofun, nofun, fun hge => absurd hlt (UInt64.not_lt.2 hge)⟩

/-! ### Reset -/

theorem HeapInv.resetFrees : ResetFrees s := by
  obtain ⟨m, hrun, hs⟩ := h.unmapRange h.rounds_base (UInt64.le_refl _)
  have hspan {v : UInt64} : v ∈ pageSpan (alignUpPage s.base) (alignUpPage s.brk) ↔ Aligned v ∧ s.base ≤ v ∧ v < s.brk :=
    mem_pageSpan_alignUpPage h.rounds_base h.rounds
  have hpage {v : UInt64} (hv : v ∈ pageSpan (alignUpPage s.base) (alignUpPage s.brk)) : s.Page v :=
    (h.page_of_mem h.rounds_base h.rounds (UInt64.le_refl _) h.le_limit hv).1
  have hreset : taskUserHeapReset s = (.ok (), ⟨m, 0, 0, 0⟩) := by
    unfold taskUserHeapReset
    rw [bind_ok (gets_apply _ _)]
    by_cases hlt : alignUpPage s.base < alignUpPage s.brk
    · rw [id_eq, if_pos ⟨h.nonzero, h.window, hlt⟩, bind_ok (onMem_apply hrun)]
      rfl
    · rw [id_eq, if_neg fun hc => hlt hc.2.2]
      -- the range is empty
      have hempty : pageSpan (alignUpPage s.base) (alignUpPage s.brk) = [] := by
        apply List.eq_nil_iff_forall_not_mem.2
        intro v hv
        obtain ⟨-, hle, hlt'⟩ := (mem_pageSpan (aligned_alignUpPage _) (aligned_alignUpPage _)).1 hv
        rw [UInt64.lt_iff_toNat_lt] at hlt
        omega
      unfold userHeapUnmapRange at hrun
      rw [hempty] at hrun
      cases hrun
      rfl
  refine ⟨m, hreset, ?_, ?_⟩
  · intro v hv
    by_cases hmem : v ∈ pageSpan (alignUpPage s.base) (alignUpPage s.brk)
    · exact hs.gone v ⟨v, hmem, rfl⟩
    · rw [hs.kept v fun w hw hplace => hmem (h.place_inj hv (hpage hw) hplace ▸ hw)]
      apply h.unmapped v hv
      by_contra hge
      exact hmem (hspan.2 ⟨hv.aligned, hv.le, UInt64.not_le.1 hge⟩)
  · intro k
    rw [hs.used, List.mem_map]
    apply and_congr_right
    intro _
    apply not_congr
    constructor
    · rintro ⟨v, hv, rfl⟩
      obtain ⟨F, hF⟩ := h.mapped v (hpage hv) (hspan.1 hv).2.2
      refine ⟨v, F, hpage hv, hF, ?_⟩
      rw [Backed.phys hF (hpage hv).aligned, Frame.of_val]
    · rintro ⟨v, F, hv, hF, rfl⟩
      have hlt := (h.holds_of_leaf hv (by rw [hF.leaf]; exact nofun)).1
      refine ⟨v, hspan.2 ⟨hv.aligned, hv.le, hlt⟩, ?_⟩
      rw [Backed.phys hF hv.aligned, Frame.of_val]

/-! ### Runs -/

theorem HeapInv.safe : HeapSafe InRange s where
  base_le := h.base_le
  le_limit := h.le_limit
  mapped v hv := by
    rw [lt_alignUpPage h.rounds hv.aligned]
    constructor
    · exact fun hleaf => (h.holds_of_leaf hv hleaf).1
    · intro hlt
      obtain ⟨F, hF⟩ := h.mapped v hv hlt
      rw [hF.leaf]
      exact nofun
  holds v hv hleaf := (h.holds_of_leaf hv hleaf).2
  own := h.own
  brk _ hn := h.brkSafe hn
  reset := h.resetFrees

end

theorem HeapRun.inv {s₀ : User} (hrun : HeapRun InRange s₀ s) (h : HeapInv s₀) : HeapInv s := by
  induction hrun with
  | start => exact h
  | brk n _ hn ih => exact ih.brk_keeps hn
  | elsewhere m _ he ih => exact ih.elsewhere he

/-- The state that `task_user_heap_config` leaves. -/
structure Configured (base limit : UInt64) (s : User) : Prop where
  wf : WellFormed s.mem
  returned : ∃ s₁, taskUserHeapConfig base limit s₁ = (.ok (), s)
  aligned : Aligned base
  free : ∀ v, s.Page v → leaf s.mem.tables v = none

/-- What the state holds: a window, and the break at its start. -/
theorem Configured.fields (h : Configured base limit s) :
    s.base = base ∧ s.limit = limit ∧ s.brk = base ∧ base ≠ 0 ∧ base < limit := by
  obtain ⟨s₁, hrun⟩ := h.returned
  unfold taskUserHeapConfig at hrun
  obtain ⟨_, t, hrequire, hrun⟩ := bind_ok_iff.1 hrun
  obtain ⟨hpos, rfl⟩ := require_ok_iff.1 hrequire
  obtain ⟨_, t', -, hrun⟩ := bind_ok_iff.1 hrun
  obtain ⟨_, t'', -, hrun⟩ := bind_ok_iff.1 hrun
  cases hrun
  exact ⟨rfl, rfl, rfl, hpos⟩

theorem Configured.inv (h : Configured base limit s) (hnarrow : limit.toNat ≤ base.toNat + 2 ^ 48) : HeapInv s := by
  obtain ⟨rfl, rfl, hbrk, hzero, hlt⟩ := h.fields
  have hal := (aligned_iff s.base).1 h.aligned
  have hbound := s.base.toNat_lt
  constructor
  case mapped =>
    intro v hv hv'
    rw [hbrk] at hv'
    exact absurd hv' (UInt64.not_lt.2 hv.le)
  case unmapped => exact fun v hv _ => h.free v hv
  case own =>
    intro v w F hv _ hF _
    have hleaf := hF.leaf
    rw [h.free v hv] at hleaf
    cases hleaf
  case wf => exact h.wf
  case nonzero => exact hzero
  case window => exact hlt
  case aligned => exact h.aligned
  case narrow => exact hnarrow
  case base_le => exact UInt64.le_of_eq hbrk.symm
  case le_limit =>
    rw [hbrk]
    exact UInt64.le_of_lt hlt
  case rounds =>
    rw [hbrk]
    unfold Rounds
    omega

/-- In every run in which a break that is accepted can be rounded up, the heap keeps its promises. -/
theorem taskUserHeapBrk_safe {base limit : UInt64} {s₀ : User} (hstart : Configured base limit s₀)
    (hnarrow : limit.toNat ≤ base.toNat + 2 ^ 48) (hrun : HeapRun InRange s₀ s) : HeapSafe InRange s :=
  (hrun.inv (hstart.inv hnarrow)).safe

/-- A heap configured on an empty memory. -/
def freshUser (base limit : UInt64) : User := ⟨bare, base, limit, base⟩

theorem configured_freshUser (hbase : base ≠ 0) (hlt : base < limit) (hal : Aligned base) :
    Configured base limit (freshUser base limit) where
  wf := wellFormed_bare
  returned := by
    refine ⟨⟨bare, 0, 0, 0⟩, ?_⟩
    unfold taskUserHeapConfig
    rw [require_pos ⟨hbase, hlt⟩]
    rfl
  aligned := hal
  free v _ := leaf_bare v

/-- A heap that has grown to a page and a half. -/
theorem taskUserHeapBrk_safe_half : HeapSafe InRange (taskUserHeapBrk 0x40001800 (freshUser 0x40000000 0x40010000)).2 :=
  taskUserHeapBrk_safe (configured_freshUser (by decide) (by decide) (by decide)) (by decide)
    (.brk 0x40001800 .start (.inr (by unfold Rounds; decide)))

/-- A break at the last address is taken without mapping a page. -/
theorem taskUserHeapBrk_last (hbase : s.base = 0xFFFFFFFFFFFF0000) (hlimit : s.limit = 0xFFFFFFFFFFFFFFFF)
    (hbrk : s.brk = 0xFFFFFFFFFFFF1000) :
    taskUserHeapBrk 0xFFFFFFFFFFFFFFFF s = (.ok 0xFFFFFFFFFFFFFFFF, { s with brk := 0xFFFFFFFFFFFFFFFF }) := by
  have hspan : pageSpan (alignUpPage 0xFFFFFFFFFFFF1000) (alignUpPage 0xFFFFFFFFFFFFFFFF) = [] := by decide
  have hgrow : growHeap (alignUpPage s.brk) (alignUpPage 0xFFFFFFFFFFFFFFFF) s.mem = (.ok (), s.mem) := by
    unfold growHeap
    rw [hbrk, hspan]
    rfl
  have hbounds : s.base ≤ 0xFFFFFFFFFFFFFFFF ∧ 0xFFFFFFFFFFFFFFFF ≤ s.limit := by
    rw [hbase, hlimit]
    decide
  have hwindow : s.base ≠ 0 ∧ s.base < s.limit := by
    rw [hbase, hlimit]
    decide
  unfold taskUserHeapBrk
  rw [bind_ok (gets_apply _ _), id_eq, require_pos hwindow, pure_bind_eq]
  have hzero : ¬ (0xFFFFFFFFFFFFFFFF : UInt64) = 0 := by decide
  have hother : ¬ 0xFFFFFFFFFFFFFFFF = s.brk := by
    rw [hbrk]
    decide
  have habove : s.brk < 0xFFFFFFFFFFFFFFFF := by
    rw [hbrk]
    decide
  rw [if_neg hzero, require_pos hbounds, pure_bind_eq, if_neg hother, if_pos habove, bind_ok (onMem_apply hgrow)]
  rfl

/-- A page is mapped, and the break then set to the last address: the page lies above the
break rounded up, which is 0. -/
theorem not_taskUserHeapBrk_safe : ¬ ∀ (base limit : UInt64) (s₀ s : User), Configured base limit s₀ →
    HeapRun (fun _ _ => True) s₀ s → HeapSafe (fun _ _ => True) s := by
  intro hsafe
  have hstart : Configured 0xFFFFFFFFFFFF0000 0xFFFFFFFFFFFFFFFF (freshUser 0xFFFFFFFFFFFF0000 0xFFFFFFFFFFFFFFFF) :=
    configured_freshUser (by decide) (by decide) (by decide)
  have hrange : InRange (freshUser 0xFFFFFFFFFFFF0000 0xFFFFFFFFFFFFFFFF) 0xFFFFFFFFFFFF1000 := .inr (by unfold Rounds; decide)
  have hok : (taskUserHeapBrk 0xFFFFFFFFFFFF1000 (freshUser 0xFFFFFFFFFFFF0000 0xFFFFFFFFFFFFFFFF)).1 = .ok 0xFFFFFFFFFFFF1000 := by
    decide +kernel
  have hinv := (hstart.inv (by decide)).brk_keeps hrange
  have hends := (hstart.inv (by decide)).brkEnds hrange
  have hrun := HeapRun.brk (P := fun _ _ => True) 0xFFFFFFFFFFFF1000 (@HeapRun.start _ (freshUser 0xFFFFFFFFFFFF0000 0xFFFFFFFFFFFFFFFF)) trivial
  generalize taskUserHeapBrk 0xFFFFFFFFFFFF1000 (freshUser 0xFFFFFFFFFFFF0000 0xFFFFFFFFFFFFFFFF) = r at hok hinv hends hrun
  obtain ⟨hbase, hlimit, hbrk⟩ : r.2.base = 0xFFFFFFFFFFFF0000 ∧ r.2.limit = 0xFFFFFFFFFFFFFFFF ∧ r.2.brk = 0xFFFFFFFFFFFF1000 := by
    cases hends with
    | read => exact absurd (Outcome.ok.inj hok) (by decide)
    | refused => cases hok
    | grown => exact ⟨rfl, rfl, rfl⟩
    | shrunk => exact ⟨rfl, rfl, rfl⟩
  generalize r.2 = s at hinv hrun hbase hlimit hbrk
  have hlast := taskUserHeapBrk_last hbase hlimit hbrk
  have hsafe' := hsafe _ _ _ _ hstart (hrun.brk 0xFFFFFFFFFFFFFFFF trivial)
  rw [hlast] at hsafe'
  have hpage : s.Page 0xFFFFFFFFFFFF0000 := ⟨by decide, UInt64.le_of_eq hbase, by rw [hlimit]; decide⟩
  obtain ⟨F, hF⟩ := hinv.mapped _ hpage (by rw [hbrk]; decide)
  have hlt := (hsafe'.mapped 0xFFFFFFFFFFFF0000 ⟨hpage.aligned, hpage.le, hpage.lt⟩).1 (by rw [hF.leaf]; exact nofun)
  have hzero : alignUpPage 0xFFFFFFFFFFFFFFFF = 0 := by decide
  rw [hzero] at hlt
  exact absurd hlt (by decide)

end Tg11Kernel.Heap
