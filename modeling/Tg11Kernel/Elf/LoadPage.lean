import Tg11Kernel.Elf.Segments
import Tg11Kernel.Memory.Mapping

/-! One page of a load. Making room may split a large mapping and takes the old mapping of
the page away; a fresh frame is mapped, filled, and gets the flags of the segment if the page
has bytes from the file. An error gives back all pages mapped so far. -/

namespace Tg11Kernel.Elf

open Lib Exec Memory

variable {m m' m'' : Mem}

/-! ### Rolling back -/

/-- A page that was mapped by the load, and may be given back. -/
structure CanDrop (m : Mem) (p : UInt64 × UInt64) : Prop where
  aligned : Aligned p.1
  notLarge : ∀ pde, leaf m.tables p.1 ≠ some (.large pde)
  owned : ∃ F : Frame, F.1 = p.2 ∧ Owned m F

/-- The pages mapped so far, each with its own frame. -/
structure Droppable (m : Mem) (mapped : MappedPages) : Prop where
  each : ∀ p ∈ mapped, CanDrop m p
  nodup : (mapped.map Prod.snd).Nodup

def pagesOf (mapped : MappedPages) : List UInt64 := mapped.map Prod.fst

def framesOf (mapped : MappedPages) : List ℕ := mapped.map fun p => frameNo p.2

theorem CanDrop.shrinks {p : UInt64 × UInt64} {pages : List UInt64} {own : List ℕ} (h : CanDrop m p) (hs : Shrinks pages own m m')
    (hp : frameNo p.2 ∉ own) : CanDrop m' p := by
  refine ⟨h.aligned, fun pde => ?_, ?_⟩
  · by_cases hmem : ∃ v ∈ pages, place p.1 = place v
    · rw [hs.gone _ hmem]
      exact nofun
    · rw [hs.kept _ fun v hv heq => hmem ⟨v, hv, heq⟩]
      exact h.notLarge pde
  · obtain ⟨F, hF, ho⟩ := h.owned
    refine ⟨F, hF, ho.shrinks hs ?_⟩
    unfold Frame.no
    rwa [hF]

theorem shrinks_rollback {l : MappedPages} (wf : WellFormed m) (h : ∀ p ∈ l, CanDrop m p) (hnodup : (l.map Prod.snd).Nodup) :
    Shrinks (pagesOf l) (framesOf l) m (l.foldl (fun m p => (m.unmapPage p.1).freeFrame (frameNo p.2)) m) := by
  induction l generalizing m with
  | nil => exact Shrinks.refl wf
  | cons p l ih =>
    obtain ⟨F, hF, ho⟩ := (h p List.mem_cons_self).owned
    have hdrop : Shrinks [p.1] [F.no] m ((m.unmapPage p.1).freeFrame F.no) :=
      shrinks_drop wf (h p List.mem_cons_self).aligned (h p List.mem_cons_self).notLarge ho
    have hno : F.no = frameNo p.2 := by
      unfold Frame.no
      rw [hF]
    rw [hno] at hdrop
    rw [List.map_cons, List.nodup_cons] at hnodup
    refine hdrop.trans (ih hdrop.wf ?_ hnodup.2)
    intro q hq
    have hqd := h q (List.mem_cons_of_mem _ hq)
    apply hqd.shrinks hdrop
    rw [List.mem_singleton]
    intro heq
    obtain ⟨G, hG, hGo⟩ := hqd.owned
    have hGF : G = F := by
      apply Frame.ext_no
      rw [hno, ← heq, ← hG]
      rfl
    apply hnodup.1
    rw [← hF, ← hGF, hG]
    exact List.mem_map_of_mem hq

/-- Giving back in reverse order. -/
theorem shrinks_rolledBack {mapped : MappedPages} (wf : WellFormed m) (h : Droppable m mapped) :
    Shrinks (pagesOf mapped) (framesOf mapped) m (rolledBack mapped m) := by
  have hrev := shrinks_rollback (l := mapped.reverse) wf (fun p hp => h.each p (List.mem_reverse.1 hp))
    (by rw [List.map_reverse]; exact List.nodup_reverse.2 h.nodup)
  have hpages (v : UInt64) : v ∈ pagesOf mapped.reverse ↔ v ∈ pagesOf mapped := by
    unfold pagesOf
    rw [List.map_reverse, List.mem_reverse]
  have hframes (n : ℕ) : n ∈ framesOf mapped.reverse ↔ n ∈ framesOf mapped := by
    unfold framesOf
    rw [List.map_reverse, List.mem_reverse]
  refine ⟨hrev.wf, ?_, hrev.tables, ?_, ?_, hrev.data⟩
  · intro n
    rw [← hframes]
    exact hrev.used n
  · rintro a ⟨v, hv, ha⟩
    exact hrev.gone a ⟨v, (hpages v).2 hv, ha⟩
  · intro a ha
    exact hrev.kept a fun v hv => ha v ((hpages v).1 hv)

/-! ### Making room -/

/-- The page is not part of a large one. -/
def NotLarge (page : UInt64) (m : Mem) : Prop := ∀ pde, leaf m.tables page ≠ some (.large pde)

/-- Room was made: the page was not mapped, or it was and its mapping is gone. -/
structure RoomMade (page : UInt64) (m m' : Mem) : Prop where
  grows : Grows [] m m'
  around : Around page m m'
  others : NotLarge page m → SameLeavesBut page m m'
  free : pagingGetPhys m.tables page = 0 → m' = m
  taken : pagingGetPhys m.tables page ≠ 0 → leaf m'.tables page = none
  split : pagingGetPhys m.tables page ≠ 0 → (pagingSplitHugePage page m).1 = .ok ()

/-- The split of a large page may fail for want of a frame. -/
structure NoRoom (mapped : MappedPages) (page : UInt64) (m m' : Mem) : Prop where
  eq : m' = rolledBack mapped m
  taken : pagingGetPhys m.tables page ≠ 0
  split : (pagingSplitHugePage page m).1 = .fail

theorem roomMade_unmap (wf : WellFormed m) {page e : UInt64} (hal : Aligned page) (hl : leaf m.tables page = some (.small e))
    {m₀ : Mem} (hgrows : Grows [] m₀ m) (haround : Around page m₀ m) (hsame : NotLarge page m₀ → m = m₀)
    (hne : pagingGetPhys m₀.tables page ≠ 0) (hsplit : (pagingSplitHugePage page m₀).1 = .ok ()) :
    RoomMade page m₀ (m.unmapPage page) := by
  have hsets := unmapPage_sets wf hal hl
  refine ⟨hgrows.trans hsets.grows, haround.trans (SameLeavesBut.around hsets.others), ?_, fun h => absurd h hne,
    fun _ => hsets.leaf page rfl, fun _ => hsplit⟩
  intro hsmall
  rw [← hsame hsmall]
  exact hsets.others

theorem makeRoom_post (wf : WellFormed m) (mapped : MappedPages) {page : UInt64} (hal : Aligned page) :
    Post (makeRoom mapped page) m (fun _ m' => RoomMade page m m') (NoRoom mapped page m) := by
  unfold makeRoom
  apply Post.gets_bind
  by_cases hphys : pagingGetPhys m.tables page = 0
  · rw [if_neg (not_not.2 hphys)]
    apply Post.pure
    exact ⟨Grows.refl wf, ⟨fun _ _ _ h => h, fun _ _ h => h⟩, fun _ _ _ => rfl, fun _ => rfl, fun h => absurd hphys h, fun h => absurd hphys h⟩
  rw [if_pos hphys]
  -- the page is small after the split, whatever it was before
  have hsplit : Post (orElse (pagingSplitHugePage page) (rollbackMappedPages mapped)) m
      (fun _ m₁ => Grows [] m m₁ ∧ Around page m m₁ ∧ (NotLarge page m → m₁ = m) ∧
        (pagingSplitHugePage page m).1 = .ok () ∧ ∃ e, leaf m₁.tables page = some (.small e))
      (NoRoom mapped page m) := by
    cases hl : leaf m.tables page with
    | none =>
      rw [pagingGetPhys_eq, hl] at hphys
      exact absurd rfl hphys
    | some l =>
      cases l with
      | small e =>
        have heq := pagingSplitHugePage_other hal (m := m) (by simp [hl])
        refine ⟨fun a s' h => ?_, fun s' h => ?_⟩ <;> rw [orElse_ok heq] at h <;> cases h
        exact ⟨Grows.refl wf, ⟨fun _ _ _ h => h, fun _ _ h => h⟩, fun _ => rfl, by rw [heq], e, hl⟩
      | large pde =>
        have hrun := (pagingSplitHugePage_large wf hl).and (Post.run (pagingSplitHugePage page) m)
        apply Post.orElse (hrun.mono ?_ fun _ h => h)
        · rintro s' ⟨rfl, hfail⟩
          apply Post.modify
          exact ⟨rfl, hphys, by rw [hfail]⟩
        · rintro _ m₁ ⟨h, hok⟩
          exact ⟨h.grows, h.around wf hl, fun hsmall => absurd hl (hsmall pde), by rw [hok], _, h.leaf page rfl⟩
  apply hsplit.bind fun _ h => h
  rintro - m₁ ⟨hgrows, haround, hsame, hok, e, hl⟩
  apply Post.modify_bind
  apply Post.gets_bind
  have hroom := roomMade_unmap hgrows.wf hal hl hgrows haround hsame hphys hok
  have hzero : pagingGetPhys (m₁.unmapPage page).tables page = 0 := by
    rw [pagingGetPhys_eq, hroom.taken hphys]
    rfl
  rw [require_pos hzero]
  refine ⟨fun a s' h => ?_, fun s' h => ?_⟩ <;> rw [orElse_ok (pure_apply _ _)] at h <;> cases h
  exact hroom

/-! ### Mapping a fresh frame -/

/-- A fresh frame was mapped at a page that was not mapped. -/
structure MappedFresh (mapped : MappedPages) (page : UInt64) (m : Mem) (mapped' : MappedPages) (m' : Mem) (F : Frame) : Prop where
  list : mapped' = mapped ++ [(page, F.1)]
  length : mapped.length < maxMapped
  absent : leaf m.tables page = none
  free : m.used F.no = false
  owned : Owned m' F
  grows : Grows [F.no] m m'
  others : SameLeavesBut page m m'
  leaf : Memory.leaf m'.tables page = some (.small (pageEntry F.1 loadFlags))

/-- Nothing was mapped, and all pages were given back. -/
def MapFailed (mapped : MappedPages) (m m' : Mem) : Prop := ∃ m₁, m' = rolledBack mapped m₁ ∧ Grows [] m m₁ ∧ SameLeaves m m₁

theorem mapFailed_free {mapped : MappedPages} {F : Frame} (wf : WellFormed m') (hfree : m.used F.no = false) (hgrows : Grows [F.no] m m')
    (hleaves : SameLeaves m m') (ho : Owned m' F) : MapFailed mapped m (rolledBack mapped (m'.freeFrame (frameNo F.1))) := by
  have hs : Shrinks [] [F.no] m' (m'.freeFrame (frameNo F.1)) := shrinks_freeFrame wf ho
  refine ⟨_, rfl, hgrows.shrinks (by simpa using hfree) hs, fun a => ?_⟩
  rw [hs.kept a (by simp)]
  exact hleaves a

theorem mapFresh_post (wf : WellFormed m) (mapped : MappedPages) {page : UInt64} (hal : Aligned page) :
    Post (mapFresh mapped page) m (fun mapped' m' => ∃ F, MappedFresh mapped page m mapped' m' F) (MapFailed mapped m) := by
  unfold mapFresh
  apply (physAllocPage_post wf).bind (fun _ h => h.elim)
  rintro phys m₁ (⟨rfl, rfl⟩ | ⟨F, rfl, htaken⟩)
  · -- no frame is left
    apply Post.orElse_require_bind
    · exact fun h => absurd rfl h
    · intro _
      apply Post.modify
      exact ⟨m₁, rfl, Grows.refl wf, fun _ => rfl⟩
  apply Post.orElse_require_bind _ fun h => absurd htaken.nonzero h
  intro _
  have hgrows₁ := htaken.grows wf
  have ho₁ := Taken.owned htaken wf
  have hleaves₁ : SameLeaves m m₁ := fun a => by rw [htaken.tables]
  have hmap : Post (orElse (pagingMapPage page F.1 loadFlags) (do physFreePage F.1; rollbackMappedPages mapped)) m₁
      (fun _ m₂ => leaf m₁.tables page = none ∧ SetsLeaf page (some (.small (pageEntry F.1 loadFlags))) m₁ m₂) (MapFailed mapped m) := by
    apply Post.orElse (pagingMapPage_post hgrows₁.wf page F.1 loadFlags)
    rintro m₂ ⟨hgrows₂, hleaves₂⟩
    apply Post.modify_bind
    apply Post.modify
    exact mapFailed_free hgrows₂.wf htaken.free (hgrows₁.trans hgrows₂) (hleaves₁.trans hleaves₂) (ho₁.grows hgrows₂)
  apply hmap.bind fun _ h => h
  rintro - m₂ ⟨habsent, hsets⟩
  have hgrows₂ := hgrows₁.trans hsets.grows
  have ho₂ := ho₁.grows hsets.grows
  apply Post.orElse_require_bind
  · intro hlen
    apply Post.pure
    refine ⟨F, rfl, hlen, (hleaves₁ page).symm.trans habsent, htaken.free, ho₂, hgrows₂, ?_, hsets.leaf page rfl⟩
    exact (hleaves₁.but page).trans hsets.others
  · -- the page count is exhausted, and the last page is given back as well
    intro _
    apply Post.modify_bind
    apply Post.modify_bind
    apply Post.modify
    have hl := hsets.leaf page rfl
    have hdrop : Shrinks [page] [F.no] m₂ ((m₂.unmapPage page).freeFrame (frameNo F.1)) :=
      shrinks_drop hsets.grows.wf hal (by simp [hl]) ho₂
    refine ⟨_, rfl, hgrows₂.shrinks (by simpa using htaken.free) hdrop, fun b => ?_⟩
    by_cases hb : place b = place page
    · refine (hdrop.gone b ⟨page, by simp, hb⟩).trans ?_
      rw [leaf_congr wf hb, ← hleaves₁ page, habsent]
    · refine (hdrop.kept b (by simpa using hb)).trans ?_
      rw [hsets.others b hb, hleaves₁]

theorem mapFresh_returns (mapped : MappedPages) (page : UInt64) : Ends (mapFresh mapped page) m (fun _ _ => True) fun _ => True := by
  have hback (m' : Mem) : Ends (rollbackMappedPages mapped) m' (fun _ _ => True) fun _ => True := Ends.modify trivial
  unfold mapFresh
  apply (physAllocPage_returns m).bind
  intro phys m₁ _
  apply Ends.orElse_require_bind
  · intro _
    have hfree (m' : Mem) : Ends (do physFreePage phys; rollbackMappedPages mapped) m' (fun _ _ => True) fun _ => True := hback _
    apply (Ends.orElse (pagingMapPage_returns page phys loadFlags m₁) fun m' _ => hfree m').bind
    intro _ m₂ _
    apply Ends.orElse_require_bind
    · exact fun _ => Ends.pure trivial
    · exact fun _ => hfree _
  · exact fun _ => hback m₁

/-! ### Filling -/

/-- The flags that a page ends with: those of its segment only if it has bytes of the file. -/
def pageFlags (phdr : Phdr) (bias page : UInt64) : UInt64 := if (copyOf phdr bias page).isSome = true then finalFlags phdr else loadFlags

/-- What the page holds after the copy, if there is one. -/
def filledByte (img : Image) (phdr : Phdr) (bias page : UInt64) (off : ℕ) : UInt8 :=
  match copyOf phdr bias page with
  | none => 0
  | some copy =>
    if copy.dstOff.toNat ≤ off ∧ off < copy.dstOff.toNat + copy.len.toNat then img.byte (copy.src + UInt64.ofNat (off - copy.dstOff.toNat))
    else 0

/-- A page is mapped to a frame of its own, with its flags and bytes. -/
structure PageLoaded (img : Image) (phdr : Phdr) (bias page : UInt64) (F : Frame) (m : Mem) : Prop where
  canonical : Canonical page
  owned : Owned m F
  leaf : leaf m.tables page = some (.small (pageEntry F.1 (pageFlags phdr bias page)))
  bytes : ∀ off < 4096, m.tables.frameByte F.1 off = filledByte img phdr bias page off

/-- A page that was just mapped is filled; what else is mapped stays. -/
structure Filled (img : Image) (phdr : Phdr) (bias page : UInt64) (F : Frame) (m m' : Mem) : Prop where
  loaded : PageLoaded img phdr bias page F m'
  others : SameLeavesBut page m m'
  grows : ∀ m₀ own, Grows own m₀ m → ¬ Data m₀ F → Grows own m₀ m'

theorem fillPage_post (wf : WellFormed m) (img : Image) (phdr : Phdr) (bias : UInt64) (mapped : MappedPages) {page : UInt64} {F : Frame}
    (hal : Aligned page) (ho : Owned m F) (hl : leaf m.tables page = some (.small (pageEntry F.1 loadFlags))) :
    Post (fillPage img phdr bias mapped page) m (fun _ m' => Filled img phdr bias page F m m') fun _ => False := by
  have hF := ho.data.2
  -- the zeroes
  have hzero := writes_storeBytes m F 0 4096 fun _ => 0
  have hwrite := writePage_apply wf hal hl 0 4096 fun _ => 0
  rw [Frame.of_pageEntry] at hwrite
  unfold fillPage
  by_cases hc : Canonical page
  swap
  · rw [if_neg fun h => hc h.1] at hwrite
    refine ⟨fun a s' h => ?_, fun s' h => ?_⟩ <;> rw [bind_hang hwrite] at h <;> cases h
  rw [if_pos ⟨hc, le_rfl⟩] at hwrite
  have hwf₁ := hzero.wf wf hF
  have ho₁ := Owned.writes ho hzero hF
  have hl₁ := (hzero.sameLeaves wf hF page).trans hl
  have hbytes₁ (off : ℕ) (hoff : off < 4096) : (m.storeBytes F.1 0 4096 fun _ => 0).tables.frameByte F.1 off = 0 := by
    rw [frameByte_storeBytes m F _ _ _ hoff, if_pos ⟨Nat.zero_le _, by omega⟩]
  have hgrows₁ (m₀ : Mem) (own : List ℕ) (hg : Grows own m₀ m) (hdata : ¬ Data m₀ F) :
      Grows own m₀ (m.storeBytes F.1 0 4096 fun _ => 0) := Grows.writes hg hzero hF hdata
  have hothers₁ := (hzero.sameLeaves wf hF).but page
  generalize m.storeBytes F.1 0 4096 (fun _ => 0) = m₁ at *
  cases hcopy : copyOf phdr bias page with
  | none =>
    refine ⟨fun a s' h => ?_, fun s' h => ?_⟩ <;> rw [bind_ok hwrite] at h <;> cases h
    refine ⟨⟨hc, ho₁, ?_, ?_⟩, hothers₁, hgrows₁⟩
    · unfold pageFlags
      rw [hcopy]
      exact hl₁
    · intro off hoff
      unfold filledByte
      rw [hcopy, hbytes₁ off hoff]
  | some copy =>
    have hF₁ := ho₁.data.2
    have hcopied := writes_storeBytes m₁ F copy.dstOff.toNat copy.len.toNat fun k => img.byte (copy.src + UInt64.ofNat k)
    have hwrite₂ := writePage_apply hwf₁ hal hl₁ copy.dstOff.toNat copy.len.toNat fun k => img.byte (copy.src + UInt64.ofNat k)
    rw [Frame.of_pageEntry] at hwrite₂
    by_cases hin : copy.dstOff.toNat + copy.len.toNat ≤ 4096
    swap
    · rw [if_neg fun h => hin h.2] at hwrite₂
      refine ⟨fun a s' h => ?_, fun s' h => ?_⟩ <;> rw [bind_ok hwrite] at h <;> dsimp only at h <;>
        rw [bind_hang hwrite₂] at h <;> cases h
    rw [if_pos ⟨hc, hin⟩] at hwrite₂
    have hbytes₂ (off : ℕ) (hoff : off < 4096) :=
      frameByte_storeBytes m₁ F copy.dstOff.toNat copy.len.toNat (fun k => img.byte (copy.src + UInt64.ofNat k)) hoff
    have hwf₂ := hcopied.wf hwf₁ hF₁
    have ho₂ := Owned.writes ho₁ hcopied hF₁
    have hl₂ := (hcopied.sameLeaves hwf₁ hF₁ page).trans hl₁
    have hothers₂ := hothers₁.trans ((hcopied.sameLeaves hwf₁ hF₁).but page)
    have hgrows₂ (m₀ : Mem) (own : List ℕ) (hg : Grows own m₀ m) (hdata : ¬ Data m₀ F) :=
      Grows.writes (hgrows₁ m₀ own hg hdata) hcopied hF₁ hdata
    generalize m₁.storeBytes F.1 copy.dstOff.toNat copy.len.toNat (fun k => img.byte (copy.src + UInt64.ofNat k)) = m₂ at *
    have hflags : Post (orElse (pagingSetPageFlags page (finalFlags phdr)) (rollbackMappedPages mapped)) m₂
        (fun _ m' => Filled img phdr bias page F m m') fun _ => False := by
      apply Post.orElse ((pagingSetPageFlags_post hwf₂ (finalFlags phdr) hal hl₂).mono _ fun _ h => h)
      · exact fun _ h => h.elim
      · intro _ m₃ h
        have ho₃ := ho₂.grows h.grows
        refine ⟨⟨hc, ho₃, ?_, ?_⟩, hothers₂.trans h.others, fun m₀ own hg hdata => ?_⟩
        · rw [h.leaf page rfl, pageEntry_pageEntry]
          unfold pageFlags
          rw [hcopy]
          rfl
        · intro off hoff
          rw [frameByte_congr (h.grows.data F ho₂.data).2 hoff, hbytes₂ off hoff, hbytes₁ off hoff]
          unfold filledByte
          rw [hcopy]
        · have hall := (hgrows₂ m₀ own hg hdata).trans h.grows
          rwa [List.append_nil] at hall
    refine ⟨fun a s' h => ?_, fun s' h => ?_⟩ <;> rw [bind_ok hwrite] at h <;> dsimp only at h <;> rw [bind_ok hwrite₂] at h
    · exact hflags.ok a s' h
    · exact hflags.fail s' h

/-! ### The page as a whole -/

/-- The page was loaded. -/
structure PageTaken (img : Image) (phdr : Phdr) (bias : UInt64) (mapped : MappedPages) (page : UInt64) (m : Mem)
    (mapped' : MappedPages) (m' : Mem) (F : Frame) : Prop where
  list : mapped' = mapped ++ [(page, F.1)]
  free : m.used F.no = false
  loaded : PageLoaded img phdr bias page F m'
  grows : Grows [F.no] m m'
  around : Around page m m'
  others : NotLarge page m → SameLeavesBut page m m'
  absent : pagingGetPhys m.tables page = 0 → Memory.leaf m.tables page = none
  split : pagingGetPhys m.tables page ≠ 0 → (pagingSplitHugePage page m).1 = .ok ()

/-- The page could not be loaded, and all pages were given back. A mapping that was in the way
is gone, unless it could not be split. -/
structure PageFailed (page : UInt64) (m m₁ : Mem) : Prop where
  grows : Grows [] m m₁
  around : Around page m m₁
  others : NotLarge page m → SameLeavesBut page m m₁
  same : pagingGetPhys m.tables page = 0 → SameLeaves m m₁
  taken : pagingGetPhys m.tables page ≠ 0 → (pagingSplitHugePage page m).1 = .ok () → leaf m₁.tables page = none
  unsplit : pagingGetPhys m.tables page ≠ 0 → (pagingSplitHugePage page m).1 ≠ .ok () → m₁ = m

theorem Around.of_same (h : SameLeaves m m') (page : UInt64) : Around page m m' := SameLeavesBut.around (h.but page)

section

variable (wf : WellFormed m) (img : Image) (phdr : Phdr) (bias : UInt64) (mapped : MappedPages)
include wf img phdr bias mapped

theorem loadPage_post {page : UInt64} (hal : Aligned page) :
    Post (loadPage img phdr bias mapped page) m (fun mapped' m' => ∃ F, PageTaken img phdr bias mapped page m mapped' m' F)
      (fun m' => ∃ m₁, m' = rolledBack mapped m₁ ∧ PageFailed page m m₁) := by
  unfold loadPage
  apply (makeRoom_post wf mapped hal).bind
  · rintro m' ⟨rfl, hphys, hfail⟩
    refine ⟨m, rfl, Grows.refl wf, Around.of_same (fun _ => rfl) page, fun _ _ _ => rfl, fun _ _ => rfl, fun _ hok => ?_, fun _ _ => rfl⟩
    rw [hfail] at hok
    cases hok
  rintro - m₁ hroom
  have hsame₁ (h : pagingGetPhys m.tables page = 0) : SameLeaves m m₁ := by
    rw [hroom.free h]
    exact fun _ => rfl
  apply (mapFresh_post hroom.grows.wf mapped hal).bind
  · rintro m' ⟨m₂, rfl, hgrows, hsame⟩
    refine ⟨m₂, rfl, hroom.grows.trans hgrows, hroom.around.trans (Around.of_same hsame page),
      fun h => (hroom.others h).trans (hsame.but page), fun h => (hsame₁ h).trans hsame, fun h _ => ?_,
      fun h hne => absurd (hroom.split h) hne⟩
    rw [hsame, hroom.taken h]
  rintro mapped' m₂ ⟨F, hfresh⟩
  have hfill := fillPage_post hfresh.grows.wf img phdr bias mapped' hal hfresh.owned hfresh.leaf
  apply hfill.bind (fun _ h => h.elim)
  intro _ m₃ hfilled
  apply Post.pure
  have hfree : m.used F.no = false := hroom.grows.unused hfresh.free
  have hnodata : ¬ Data m F := not_data_of_free hfree
  have hothers := hfresh.others.trans hfilled.others
  refine ⟨F, hfresh.list, hfree, hfilled.loaded, hfilled.grows m _ (hroom.grows.trans hfresh.grows) hnodata,
    hroom.around.trans (SameLeavesBut.around hothers), fun h => (hroom.others h).trans hothers, fun h => ?_, hroom.split⟩
  rw [← hsame₁ h page]
  exact hfresh.absent

/-- A page that is mapped to frame 0 is not seen at first, and stops the load. -/
theorem loadPage_zero {page : UInt64}
    (hal : Aligned page) (hzero : pagingGetPhys m.tables page = 0) (hpresent : leaf m.tables page ≠ none) :
    ∃ m', loadPage img phdr bias mapped page m = (.fail, m') := by
  have hroom : makeRoom mapped page m = (.ok (), m) := by
    unfold makeRoom
    rw [bind_ok (gets_apply _ _), if_neg (not_not.2 hzero)]
    rfl
  unfold loadPage
  rw [bind_ok hroom]
  rcases mapFresh_returns (m := m) mapped page with ⟨mapped', m', hrun, -⟩ | ⟨m', hrun, -⟩
  · obtain ⟨F, hfresh⟩ := (mapFresh_post wf mapped hal).ok _ _ hrun
    exact absurd hfresh.absent hpresent
  · exact ⟨m', bind_fail hrun⟩

end

end Tg11Kernel.Elf
