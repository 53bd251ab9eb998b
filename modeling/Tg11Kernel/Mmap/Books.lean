import Tg11Kernel.Mmap.Account
import Tg11Kernel.Heap.Supply

/-! What the calls answer when there are frames enough. Then the answers follow from the books
that the kernel keeps and from the image that the program started with: a page that is asked for
is free unless the image is in the way. -/

namespace Tg11Kernel.Mmap

open Lib Exec Memory Heap Function

/-- What the kernel notes of a program beside its memory. -/
structure Books where
  brk : UInt64
  tbl : Slot → MmapEntry
  bump : UInt64

def Process.books (s : Process) : Books := ⟨s.user.brk, s.mmapTbl, s.mmapBump⟩

inductive Call where
  | brk (newBreak : UInt64)
  | mmap (addrHint len prot flags : UInt64)
  | munmap (addr len : UInt64)

def Call.run : Call → Exec Process UInt64
  | .brk newBreak => syscallBrk newBreak
  | .mmap addrHint len prot flags => syscallDoMmap addrHint len prot flags
  | .munmap addr len => do
    syscallDoMunmap addr len
    pure 0

namespace Books

variable (image : Mem) (b : Books)

def freeSlot : Option Slot := (List.finRange 16).find? fun i => !(b.tbl i).used

def slotAt (addr : UInt64) : Option Slot := (List.finRange 16).find? fun i => (b.tbl i).used && (b.tbl i).virtAddr == addr

/-- The image is in the way of one of the pages. -/
def blocked (pages : List UInt64) : Bool := pages.any fun v => (leaf image.tables v).isSome

def brkAnswer (n : UInt64) : Outcome UInt64 :=
  if n = 0 then .ok b.brk
  else if userHeapBase ≤ n ∧ n ≤ userHeapLimit then
    if b.brk < n ∧ blocked image (pageSpan (alignUpPage b.brk) (alignUpPage n)) = true then .fail else .ok n
  else .fail

def brkNext (n : UInt64) : Books :=
  { b with
    brk := match b.brkAnswer image n with
      | .ok brk => brk
      | _ => b.brk }

def mmapAnswer (len flags : UInt64) : Outcome UInt64 :=
  if (flags &&& MMAP_MAP_ANON ≠ 0 ∧ len ≠ 0) ∧ pagesOf len ≠ 0 ∧ pagesOf len ≤ 256 ∧ b.freeSlot.isSome = true ∧
    blocked image (regionPages b.bump (pagesOf len).toNat) = false then .ok b.bump else .fail

def mmapNext (len flags : UInt64) : Books := match b.mmapAnswer image len flags, b.freeSlot with
  | .ok base, some slot => { b with tbl := update b.tbl slot ⟨base, pagesOf len, true⟩, bump := base + pagesOf len * MEMORY_PAGE_SIZE }
  | _, _ => b

def answer : Call → Outcome UInt64
  | .brk n => b.brkAnswer image n
  | .mmap _ len _ flags => b.mmapAnswer image len flags
  | .munmap addr _ => if (b.slotAt addr).isSome = true then .ok 0 else .fail

def next : Call → Books
  | .brk n => b.brkNext image n
  | .mmap _ len _ flags => b.mmapNext image len flags
  | .munmap addr _ => match b.slotAt addr with
    | some slot => { b with tbl := update b.tbl slot .unused }
    | none => b

/-- The pages a call maps at most. -/
def pages : Call → ℕ
  | .brk n => if userHeapBase ≤ n ∧ n ≤ userHeapLimit then (pageSpan (alignUpPage b.brk) (alignUpPage n)).length else 0
  | .mmap _ len _ _ => if pagesOf len ≤ 256 then (pagesOf len).toNat else 0
  | .munmap _ _ => 0

end Books

/-- Frames enough for a call: each page takes its own, three for its tables, and three for the
tables of the page through which it is emptied. -/
def Enough (s : Process) (c : Call) : Prop := Plenty s.user.mem (s.books.pages c * 7)

/-! ### Regions -/

variable {m m' : Mem} {base v w flags : UInt64} {n : ℕ} {f : UInt64 → Frame}

theorem place_eq_iff_low (hv : v.toNat < 2 ^ 48) (hw : w.toNat < 2 ^ 48) : place v = place w ↔ v.toNat / 4096 = w.toNat / 4096 := by
  refine ⟨fun h => ?_, place_of_page⟩
  rw [place_eq_iff_index] at h
  omega

theorem eq_of_place (hv : v.toNat < 2 ^ 48) (hw : w.toNat < 2 ^ 48) (hal : Aligned v) (hal' : Aligned w) (h : place v = place w) : v = w := by
  rw [place_eq_iff_low hv hw] at h
  rw [aligned_iff] at hal hal'
  apply UInt64.toNat_inj.1
  omega

theorem mmapPage_supplied (wf : WellFormed m) {i : ℕ} (hal : Aligned (pageAt base i)) (h : Plenty m 7)
    (habsent : leaf m.tables (pageAt base i) = none) : Post (mmapPage base flags i) m (fun _ m' => Spends 7 m m') fun _ => False := by
  unfold mmapPage
  apply (physAllocPage_supplied wf).bind fun _ h => h
  rintro phys m₁ (⟨-, -, hnone⟩ | ⟨F, rfl, htaken⟩)
  · exact absurd (h.mono (by omega)) hnone
  apply Post.orElse_require_bind _ fun hzero => absurd htaken.nonzero hzero
  intro _
  have hwf₁ := (htaken.grows wf).wf
  apply ((memoryZeroPhysPage_ends hwf₁ (htaken.owned wf)).post.and (memoryZeroPhysPage_spends hwf₁ F)).bind fun _ h => h.2
  rintro _ m₂ ⟨⟨hzero, -⟩, hs⟩
  have hnew : ¬ Data m F := not_data_of_free htaken.free
  have hwf₂ := (hzero.grows m [F.no] (htaken.grows wf) hnew).wf
  have htotal := (Spends.of_taken htaken).trans hs
  have habsent₂ : leaf m₂.tables (pageAt base i) = none := by rw [hzero.leaves, htaken.tables, habsent]
  have hplenty : Plenty m₂ 3 := h.spends htotal
  have hmap := (pagingMapPage_supplied hwf₂ flags hal (aligned_frame F)).never_fails fun _ h => h.2 ⟨hplenty, habsent₂⟩
  apply (hmap.orElse fun _ h => h.elim).mono _ fun _ h => h
  exact fun _ m₃ hs' => htotal.trans hs'

/-- A region whose pages are free is mapped, if there are frames. -/
theorem mmapPages_supplied (wf : WellFormed m) (hbase : Aligned base) (hlow : base.toNat + n * 4096 ≤ 2 ^ 48) (h : Plenty m (n * 7))
    (habsent : ∀ v ∈ regionPages base n, leaf m.tables v = none) :
    Ends ((List.range n).forM (mmapPage base flags)) m (fun _ m' => ∃ f, Laid flags (regionPages base n) f m m') fun _ => False := by
  have hloop : Ends ((List.range n).forM (mmapPage base flags)) m (fun _ m' => (∃ f, Laid flags (regionPages base (List.range n).length) f m m') ∧
      Spends ((List.range n).length * 7) m m') fun _ => False := by
    apply Ends.forM (I := fun l m' => (∃ f, Laid flags (regionPages base l.length) f m m') ∧ Spends (l.length * 7) m m')
    · exact ⟨⟨fun _ => m.tables.root, Laid.refl wf _⟩, Spends.refl m⟩
    · rintro done rest i m' hl ⟨⟨f, hlaid⟩, hs⟩
      obtain ⟨rfl, hi⟩ := range_before hl
      rw [List.length_append, List.length_range, List.length_singleton] at *
      have hmore : Plenty m (7 + i * 7) := h.mono (by omega)
      have hplenty : Plenty m' 7 := hmore.spends hs
      have hnext : leaf m'.tables (pageAt base i) = none := by
        apply hlaid.absent_next
        · intro v hv hplace
          have hfits : base.toNat + i * 4096 < 2 ^ 48 :=
            (Nat.add_lt_add_left (Nat.mul_lt_mul_of_pos_right hi (by decide)) _).trans_le hlow
          obtain ⟨hal, -, hlt⟩ := (mem_regionPages hbase (hfits.le.trans (by decide))).1 hv
          have hnat : (pageAt base i).toNat = base.toNat + i * 4096 := pageAt_toNat (hfits.trans (by decide))
          have heq := eq_of_place (hnat ▸ hfits) (hlt.trans hfits) (aligned_pageAt hbase i) hal hplace
          rw [← heq, hnat] at hlt
          omega
        · exact habsent _ (List.mem_map.2 ⟨i, List.mem_range.2 hi, rfl⟩)
      have hmap := (mmapPage_ends wf (fun v hv => aligned_of_mem_regionPages hbase hv) hlaid).and_post
        (mmapPage_supplied hlaid.grows.wf (aligned_pageAt hbase i) hplenty hnext)
      apply hmap.mono
      · rintro _ m'' ⟨hlaid', hs'⟩
        refine ⟨hlaid', ?_⟩
        rw [Nat.add_mul, Nat.one_mul]
        exact hs.trans hs'
      · exact fun _ h => h.2
  rw [List.length_range] at hloop
  exact hloop.mono (fun _ _ h => h.1) fun _ h => h

/-! ### Answers -/

/-- The pages that a program got in another way lie outside the heap's window and below the bump address. -/
def Aside (D : UInt64 → Prop) (bump : UInt64) : Prop := ∀ p, D p → (p < userHeapBase ∨ userHeapLimit ≤ p) ∧ p < bump

namespace MmapInv

variable {D : UInt64 → Prop} {s₀ s : Process} {asked φ : UInt64 → UInt64}

theorem lt_bump (h : MmapInv D s₀ s asked φ f) (hD : Aside D s.mmapBump) (hv : s.Owns v ∨ D v) : v.toNat < s.mmapBump.toNat := by
  have hbase := h.layout.base_le
  rcases hv with (hv | ⟨i, hv⟩) | hv
  · have hlt := h.heapPage_lt hv
    omega
  · exact (h.layout.live_bounds hv).2
  · exact UInt64.lt_iff_toNat_lt.1 (hD v hv).2

/-- A page that the program did not get yet is as the image left it. -/
theorem leaf_fresh (h : MmapInv D s₀ s asked φ f) (hD : Aside D s.mmapBump) (hal : Aligned v) (hlow : v.toNat < 2 ^ 48)
    (hv : s.user.brk ≤ v ∧ v < userHeapLimit ∨ s.mmapBump.toNat ≤ v.toNat) : leaf s.user.mem.tables v = leaf s₀.user.mem.tables v := by
  apply h.holds.others
  intro w hw hplace
  have hbump := h.lt_bump hD hw
  have hle := h.layout.bump_le
  obtain rfl := eq_of_place hlow (by omega) hal (h.holds.aligned w hw) hplace
  rcases hv with ⟨hbrk, hlimit⟩ | hv
  · rcases hw with (hw | ⟨i, hw⟩) | hw
    · exact UInt64.not_lt.2 hbrk hw.2.2
    · have hbounds := h.layout.live_bounds hw
      have hlt := UInt64.lt_iff_toNat_lt.1 hlimit
      have hlimit' : userHeapLimit.toNat = 0x1FFFFF0000 := rfl
      have hbase : MMAP_VA_BASE.toNat = 0x4000000000 := rfl
      omega
    · rcases (hD v hw).1 with hlt | hge
      · exact UInt64.not_lt.2 (UInt64.le_trans h.base_le hbrk) hlt
      · exact UInt64.not_lt.2 hge hlimit
  · omega

theorem blocked_iff {image : Mem} {l : List UInt64} (hl : ∀ v ∈ l, leaf m.tables v = leaf image.tables v) :
    Books.blocked image l = true ↔ ∃ v ∈ l, leaf m.tables v ≠ none := by
  unfold Books.blocked
  rw [List.any_eq_true]
  constructor
  · rintro ⟨v, hv, hsome⟩
    exact ⟨v, hv, by rwa [hl v hv, ← Option.isSome_iff_ne_none]⟩
  · rintro ⟨v, hv, hsome⟩
    exact ⟨v, hv, by rwa [hl v hv, ← Option.isSome_iff_ne_none] at hsome⟩

section

variable (h : MmapInv D s₀ s asked φ f) (hD : Aside D s.mmapBump)
include h hD

theorem brk_answers {n : UInt64} (henough : Enough s (.brk n)) : ∃ m, syscallBrk n s = (s.books.brkAnswer s₀.user.mem n,
      { s with user := { s.user with mem := m, brk := (s.books.brkNext s₀.user.mem n).brk } }) := by
  have hwindow : s.user.base ≠ 0 ∧ s.user.base < s.user.limit := by
    rw [h.base, h.limit]
    decide
  suffices hsuffices : ∃ m, taskUserHeapBrk n s.user = (s.books.brkAnswer s₀.user.mem n,
      { s.user with mem := m, brk := (s.books.brkNext s₀.user.mem n).brk }) by
    obtain ⟨m, hrun⟩ := hsuffices
    exact ⟨m, onUser_apply hrun⟩
  unfold taskUserHeapBrk
  rw [bind_ok (gets_apply _ _), id_eq, require_pos hwindow, pure_bind_eq, h.base, h.limit]
  unfold Books.brkNext Books.brkAnswer
  by_cases hzero : n = 0
  · rw [if_pos hzero, if_pos hzero]
    exact ⟨s.user.mem, rfl⟩
  rw [if_neg hzero, if_neg hzero]
  by_cases hbounds : userHeapBase ≤ n ∧ n ≤ userHeapLimit
  · rw [require_pos hbounds, pure_bind_eq, if_pos hbounds]
    by_cases heq : n = s.user.brk
    · rw [if_pos heq, if_neg fun hlt => absurd hlt.1 (by rw [heq]; exact UInt64.lt_irrefl _)]
      exact ⟨s.user.mem, by rw [heq]; rfl⟩
    rw [if_neg heq]
    by_cases hlt : s.user.brk < n
    · have hspan : ∀ v ∈ pageSpan (alignUpPage s.user.brk) (alignUpPage n), Aligned v ∧ s.user.brk ≤ v ∧ v < n :=
        fun v hv => (mem_pageSpan_alignUpPage (rounds_of_le h.le_limit) (rounds_of_le hbounds.2)).1 hv
      have hlow : ∀ v ∈ pageSpan (alignUpPage s.user.brk) (alignUpPage n), v.toNat < 2 ^ 48 := by
        intro v hv
        have hlt' := UInt64.lt_iff_toNat_lt.1 (hspan v hv).2.2
        have hle' := UInt64.le_iff_toNat_le.1 hbounds.2
        have hlimit : userHeapLimit.toNat = 0x1FFFFF0000 := rfl
        omega
      have hleaf : ∀ v ∈ pageSpan (alignUpPage s.user.brk) (alignUpPage n), leaf s.user.mem.tables v = leaf s₀.user.mem.tables v := by
        intro v hv
        obtain ⟨hal, hle, hlt'⟩ := hspan v hv
        exact h.leaf_fresh hD hal (hlow v hv) (.inl ⟨hle, UInt64.lt_of_lt_of_le hlt' hbounds.2⟩)
      by_cases hblocked : Books.blocked s₀.user.mem (pageSpan (alignUpPage s.user.brk) (alignUpPage n)) = true
      · obtain ⟨v, hv, htaken⟩ := (blocked_iff hleaf).1 hblocked
        rcases growHeap_blocked h.holds.wf (aligned_alignUpPage s.user.brk) (aligned_alignUpPage n) hv htaken with
          ⟨_, _, -, hfalse⟩ | ⟨m, hrun, -⟩
        · exact hfalse.elim
        · rw [if_pos hlt, bind_fail (onMem_apply hrun), if_pos ⟨hlt, hblocked⟩]
          exact ⟨m, rfl⟩
      · have habsent : ∀ v ∈ pageSpan (alignUpPage s.user.brk) (alignUpPage n), leaf s.user.mem.tables v = none := by
          intro v hv
          by_contra htaken
          exact hblocked ((blocked_iff hleaf).2 ⟨v, hv, htaken⟩)
        have hplaces : (pageSpan (alignUpPage s.user.brk) (alignUpPage n)).Pairwise fun v w => place v ≠ place w := by
          apply List.Pairwise.imp_of_mem _ (pageSpan_nodup _ _)
          intro v w hv hw hne hplace
          exact hne (eq_of_place (hlow v hv) (hlow w hw) (hspan v hv).1 (hspan w hw).1 hplace)
        have hplenty : Plenty s.user.mem ((pageSpan (alignUpPage s.user.brk) (alignUpPage n)).length * 7) := by
          unfold Enough Books.pages at henough
          dsimp only at henough
          rwa [if_pos hbounds] at henough
        rcases growHeap_supplied h.holds.wf (aligned_alignUpPage s.user.brk) (aligned_alignUpPage n) hplaces hplenty habsent with
          ⟨_, m, hrun, -⟩ | ⟨_, -, hfalse⟩
        · rw [if_pos hlt, bind_ok (onMem_apply hrun), if_neg fun hc => hblocked hc.2]
          exact ⟨m, rfl⟩
        · exact hfalse.elim
    · have hlt' : n < s.user.brk := UInt64.lt_of_le_of_ne (UInt64.not_lt.1 hlt) heq
      obtain ⟨m, hrun, -⟩ := h.unmapRange hbounds.1 hlt'
      rw [if_neg hlt, bind_ok (onMem_apply hrun), if_neg fun hc => hlt hc.1]
      exact ⟨m, rfl⟩
  · rw [require_neg hbounds, if_neg hbounds]
    exact ⟨s.user.mem, rfl⟩

theorem mmap_answers {addrHint len prot flags : UInt64} (henough : Enough s (.mmap addrHint len prot flags)) :
    (syscallDoMmap addrHint len prot flags s).1 = s.books.mmapAnswer s₀.user.mem len flags ∧
      (syscallDoMmap addrHint len prot flags s).2.books = s.books.mmapNext s₀.user.mem len flags := by
  -- without a free page at every place the books stay as they are
  have hrefused : ∀ m, ¬ ((flags &&& MMAP_MAP_ANON ≠ 0 ∧ len ≠ 0) ∧ pagesOf len ≠ 0 ∧ pagesOf len ≤ 256 ∧ s.books.freeSlot.isSome = true ∧
      Books.blocked s₀.user.mem (regionPages s.books.bump (pagesOf len).toNat) = false) →
      (Outcome.fail : Outcome UInt64) = s.books.mmapAnswer s₀.user.mem len flags ∧
        (s.withMem m).books = s.books.mmapNext s₀.user.mem len flags := by
    intro m hc
    unfold Books.mmapNext Books.mmapAnswer
    rw [if_neg hc]
    exact ⟨rfl, rfl⟩
  unfold syscallDoMmap
  by_cases hargs : flags &&& MMAP_MAP_ANON ≠ 0 ∧ len ≠ 0
  · rw [require_pos hargs, pure_bind_eq]
    dsimp only
    by_cases hcount : pagesOf len ≠ 0 ∧ pagesOf len ≤ 256
    · rw [require_pos hcount, pure_bind_eq, bind_ok (gets_apply _ _), id_eq]
      have hslots : s.books.freeSlot = s.freeSlot := rfl
      cases hslot : s.freeSlot with
      | none =>
        apply hrefused s.user.mem
        rintro ⟨-, -, -, hfree, -⟩
        rw [hslots, hslot] at hfree
        cases hfree
      | some slot =>
        rw [ofOption_some, pure_bind_eq]
        have hle := UInt64.le_iff_toNat_le.1 hcount.2
        have h256 : (256 : UInt64).toNat = 256 := rfl
        have hbump := h.layout.bump_le
        have hlow : s.mmapBump.toNat + (pagesOf len).toNat * 4096 ≤ 2 ^ 48 := by omega
        have hmem {v : UInt64} : v ∈ regionPages s.mmapBump (pagesOf len).toNat ↔ _ :=
          mem_regionPages h.layout.aligned (hlow.trans (by decide))
        have hleaf : ∀ v ∈ regionPages s.mmapBump (pagesOf len).toNat, leaf s.user.mem.tables v = leaf s₀.user.mem.tables v := by
          intro v hv
          obtain ⟨hal, hge, hlt⟩ := hmem.1 hv
          exact h.leaf_fresh hD hal (hlt.trans_le hlow) (.inr hge)
        by_cases hblocked : Books.blocked s₀.user.mem (regionPages s.mmapBump (pagesOf len).toNat) = true
        · obtain ⟨v, hv, htaken⟩ := (blocked_iff hleaf).1 hblocked
          have hal : ∀ v ∈ regionPages s.mmapBump (pagesOf len).toNat, Aligned v := fun v hv => aligned_of_mem_regionPages h.layout.aligned hv
          rcases @mmapPages_ends _ _ (mapFlags prot) h.holds.wf _ hal with ⟨_, _, -, g, hl⟩ | ⟨m, hrun, -⟩
          · exact absurd (hl.absent v hv) htaken
          · rw [bind_fail (onUser_onMem_apply hrun)]
            apply hrefused m
            rintro ⟨-, -, -, -, hfree⟩
            rw [show s.books.bump = s.mmapBump from rfl, hblocked] at hfree
            cases hfree
        · have habsent : ∀ v ∈ regionPages s.mmapBump (pagesOf len).toNat, leaf s.user.mem.tables v = none := by
            intro v hv
            by_contra htaken
            exact hblocked ((blocked_iff hleaf).2 ⟨v, hv, htaken⟩)
          have hplenty : Plenty s.user.mem ((pagesOf len).toNat * 7) := by
            unfold Enough Books.pages at henough
            dsimp only at henough
            rwa [if_pos hcount.2] at henough
          rcases @mmapPages_supplied _ _ (mapFlags prot) _ h.holds.wf h.layout.aligned hlow hplenty habsent with
            ⟨_, m, hrun, -⟩ | ⟨_, -, hfalse⟩
          · rw [bind_ok (onUser_onMem_apply hrun)]
            have hall : (flags &&& MMAP_MAP_ANON ≠ 0 ∧ len ≠ 0) ∧ pagesOf len ≠ 0 ∧ pagesOf len ≤ 256 ∧ s.books.freeSlot.isSome = true ∧
                Books.blocked s₀.user.mem (regionPages s.books.bump (pagesOf len).toNat) = false :=
              ⟨hargs, hcount.1, hcount.2, by rw [hslots, hslot]; rfl, Bool.eq_false_of_not_eq_true hblocked⟩
            unfold Books.mmapNext Books.mmapAnswer
            rw [if_pos hall, hslots, hslot]
            exact ⟨rfl, rfl⟩
          · exact hfalse.elim
    · rw [require_neg hcount]
      exact hrefused s.user.mem fun hc => hcount ⟨hc.2.1, hc.2.2.1⟩
  · rw [require_neg hargs]
    exact hrefused s.user.mem fun hc => hargs hc.1

/-- With frames enough a call answers what the books say, and the books go on as they say. -/
theorem answers {c : Call} (henough : Enough s c) :
    (c.run s).1 = s.books.answer s₀.user.mem c ∧ (c.run s).2.books = s.books.next s₀.user.mem c := by
  cases c with
  | brk n =>
    obtain ⟨m, hrun⟩ := h.brk_answers hD henough
    show (syscallBrk n s).1 = _ ∧ (syscallBrk n s).2.books = _
    rw [hrun]
    exact ⟨rfl, rfl⟩
  | mmap addrHint len prot flags => exact h.mmap_answers hD henough
  | munmap addr len =>
    have hslots : s.books.slotAt addr = s.slotAt addr := rfl
    show (((syscallDoMunmap addr len >>= fun _ => pure 0) : Exec Process UInt64) s).1 = _ ∧
      (((syscallDoMunmap addr len >>= fun _ => pure 0) : Exec Process UInt64) s).2.books = _
    unfold Books.answer Books.next
    dsimp only
    rw [hslots]
    cases hslot : s.slotAt addr with
    | none =>
      have hrun : syscallDoMunmap addr len s = (.fail, s) := by
        unfold syscallDoMunmap
        rw [bind_ok (gets_apply _ _), id_eq, hslot]
        rfl
      rw [bind_fail hrun]
      exact ⟨rfl, rfl⟩
    | some slot =>
      obtain ⟨m, hrelease, -⟩ := h.releaseSlot (slotAt_some hslot).1
      have hrun : syscallDoMunmap addr len s = (.ok (), { s.withMem m with mmapTbl := update s.mmapTbl slot .unused }) := by
        unfold syscallDoMunmap
        rw [bind_ok (gets_apply _ _), id_eq, hslot]
        exact hrelease
      rw [bind_ok hrun]
      exact ⟨rfl, rfl⟩

end

end MmapInv

end Tg11Kernel.Mmap
