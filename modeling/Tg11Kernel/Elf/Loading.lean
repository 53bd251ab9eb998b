import Tg11Kernel.Elf.LoadPage

/-! A whole load. The pages of all segments stand in one order. After each page the pages so
far are mapped, each to a frame of its own, and only large mappings that were split have
changed elsewhere. An error gives all pages back, but no mapping that was in the way. -/

namespace Tg11Kernel.Elf

open Lib Exec Memory

variable {img : Image} {bias : UInt64} {m m' m₁ m₂ : Mem} {done : List (Phdr × UInt64)} {mapped : MappedPages}

/-! ### The order of the pages -/

/-- The pages of all segments, each with its segment. -/
def Image.loadOrder (img : Image) (bias : UInt64) : List (Phdr × UInt64) :=
  img.phdrs.flatMap fun i =>
    if (img.segment i).Loads then (windowPages (img.segment i) bias).map fun page => (img.segment i, page) else []

def loadPages (img : Image) (bias : UInt64) (l : List (Phdr × UInt64)) : Exec Mem MappedPages :=
  l.foldlM (fun mapped p => loadPage img p.1 bias mapped p.2) []

variable {p : Phdr × UInt64} {i : ℕ} {phdr : Phdr} {page other : UInt64} {F : Frame} {own : List ℕ} {mapped' : MappedPages}
  {rest l : List (Phdr × UInt64)}

theorem Image.mem_loadOrder :
    p ∈ img.loadOrder bias ↔ ∃ i < img.ehdr.phnum.toNat, (img.segment i).Loads ∧ p.1 = img.segment i ∧ p.2 ∈ windowPages p.1 bias := by
  unfold loadOrder
  rw [List.mem_flatMap]
  constructor
  · rintro ⟨i, hi, hp⟩
    split_ifs at hp with hl
    · obtain ⟨page, hpage, rfl⟩ := List.mem_map.1 hp
      exact ⟨i, mem_phdrs.1 hi, hl, rfl, hpage⟩
    · exact absurd hp List.not_mem_nil
  · rintro ⟨i, hi, hl, hseg, hpage⟩
    refine ⟨i, mem_phdrs.2 hi, ?_⟩
    rw [if_pos hl]
    rw [hseg] at hpage
    exact List.mem_map.2 ⟨p.2, hpage, Prod.ext hseg.symm rfl⟩

theorem aligned_of_mem_loadOrder (h : p ∈ img.loadOrder bias) : Aligned p.2 := by
  obtain ⟨_, _, _, _, hpage⟩ := Image.mem_loadOrder.1 h
  exact aligned_of_mem_windowPages hpage

theorem phdr_inside (h : Segments img) (hi : i < img.ehdr.phnum.toNat) : ¬ img.phdrOff i + UInt64.ofNat sizeofPhdr > img.len := by
  have hholds : img.Holds (img.phdrOff i) sizeofPhdr := h.holds (by decide) hi
  have hlt := img.len.toNat_lt
  have hsize : (UInt64.ofNat sizeofPhdr).toNat = sizeofPhdr := rfl
  unfold Image.Holds at hholds
  rw [gt_iff_lt, UInt64.lt_iff_toNat_lt, UInt64.toNat_add, hsize, Nat.mod_eq_of_lt (by omega)]
  omega

theorem loadSegment_eq (h : Segments img) (hi : i < img.ehdr.phnum.toNat) (mapped : MappedPages) :
    loadSegment img bias mapped i = (if (img.segment i).Loads then (windowPages (img.segment i) bias).map fun page => (img.segment i, page) else []).foldlM
      (fun mapped p => loadPage img p.1 bias mapped p.2) mapped := by
  have hinside := phdr_inside h hi
  have hseg : img.phdr (img.phdrOff i) = img.segment i := rfl
  unfold loadSegment
  rw [hseg]
  generalize img.segment i = phdr
  dsimp only
  by_cases htype : phdr.type = PT_LOAD
  · by_cases hmem : phdr.memsz = 0
    · have hl : ¬ phdr.Loads := fun hl => hl.2 hmem
      rw [if_neg (not_not.2 htype), require_pos hinside, pure_bind, if_pos hmem, if_neg hl]
      rfl
    · have hl : phdr.Loads := ⟨htype, hmem⟩
      rw [if_neg (not_not.2 htype), require_pos hinside, pure_bind, if_neg hmem, if_pos hl, List.foldlM_map]
  · have hl : ¬ phdr.Loads := fun hl => htype hl.1
    rw [if_pos htype, if_neg hl]
    rfl

theorem loadSegments_eq (h : Segments img) (bias : UInt64) : loadSegments img bias = loadPages img bias (img.loadOrder bias) := by
  have hgen : ∀ (l : List ℕ) (mapped : MappedPages), (∀ i ∈ l, i < img.ehdr.phnum.toNat) →
      l.foldlM (loadSegment img bias) mapped = (l.flatMap fun i =>
        if (img.segment i).Loads then (windowPages (img.segment i) bias).map fun page => (img.segment i, page) else []).foldlM
        (fun mapped p => loadPage img p.1 bias mapped p.2) mapped := by
    intro l
    induction l with
    | nil => exact fun mapped _ => rfl
    | cons i l ih =>
      intro mapped hl
      rw [List.foldlM_cons, List.flatMap_cons, List.foldlM_append, loadSegment_eq h (hl i List.mem_cons_self)]
      congr 1
      funext mapped'
      exact ih mapped' fun j hj => hl j (List.mem_cons_of_mem _ hj)
  exact hgen img.phdrs [] fun i hi => mem_phdrs.1 hi

/-! ### The pages so far -/

/-- The pages `done` are loaded. Where a page comes twice, the last time counts. -/
structure Loaded (img : Image) (bias : UInt64) (done : List (Phdr × UInt64)) (m : Mem) (mapped : MappedPages) (m' : Mem) : Prop where
  pages : pagesOf mapped = done.map Prod.snd
  canonical : ∀ q ∈ done, Canonical q.2
  droppable : Droppable m' mapped
  fresh : ∀ n ∈ framesOf mapped, m.used n = false
  grows : Grows (framesOf mapped) m m'
  small : ∀ a e, (∀ v ∈ pagesOf mapped, place a ≠ place v) → leaf m.tables a = some (.small e) → leaf m'.tables a = some (.small e)
  none : ∀ a, (∀ v ∈ pagesOf mapped, place a ≠ place v) → leaf m.tables a = none → leaf m'.tables a = none
  last : ∀ before p after, done = before ++ p :: after → (∀ q ∈ after, place p.2 ≠ place q.2) →
    ∃ F : Frame, (p.2, F.1) ∈ mapped ∧ PageLoaded img p.1 bias p.2 F m'

theorem Loaded.refl (wf : WellFormed m) : Loaded img bias [] m [] m where
  pages := rfl
  canonical _ h := absurd h List.not_mem_nil
  droppable := ⟨fun _ h => absurd h List.not_mem_nil, List.nodup_nil⟩
  fresh _ h := absurd h List.not_mem_nil
  grows := Grows.refl wf
  small _ _ _ h := h
  none _ _ h := h
  last before p after h := by simp at h

theorem PageLoaded.kept (h : PageLoaded img phdr bias page F m)
    (hg : Grows own m m') (ha : Around other m m') (hne : place page ≠ place other) : PageLoaded img phdr bias page F m' where
  canonical := h.canonical
  owned := h.owned.grows hg
  leaf := ha.small _ _ hne h.leaf
  bytes off hoff := by rw [frameByte_congr (hg.data F h.owned.data).2 hoff, h.bytes off hoff]

theorem pagesOf_append (mapped : MappedPages) (p : UInt64 × UInt64) : pagesOf (mapped ++ [p]) = pagesOf mapped ++ [p.1] := by
  unfold pagesOf
  rw [List.map_append]
  rfl

theorem framesOf_append (mapped : MappedPages) (p : UInt64 × UInt64) : framesOf (mapped ++ [p]) = framesOf mapped ++ [frameNo p.2] := by
  unfold framesOf
  rw [List.map_append]
  rfl

theorem CanDrop.kept {p : UInt64 × UInt64} (h : CanDrop m p) (hg : Grows own m m')
    (ha : Around page m m') (hpage : NotLarge page m') (wf : WellFormed m') : CanDrop m' p := by
  obtain ⟨F, hF, ho⟩ := h.owned
  refine ⟨h.aligned, fun pde hl => ?_, F, hF, ho.grows hg⟩
  by_cases hplace : place p.1 = place page
  · rw [leaf_congr wf hplace] at hl
    exact hpage pde hl
  · cases hleaf : leaf m.tables p.1 with
    | none =>
      rw [ha.none _ hplace hleaf] at hl
      cases hl
    | some l =>
      cases l with
      | small e =>
        rw [ha.small _ _ hplace hleaf] at hl
        cases hl
      | large pde => exact h.notLarge pde hleaf

/-- One more page. -/
theorem Loaded.snoc (h : Loaded img bias done m mapped m₁)
    (hal : Aligned page) (hp : PageTaken img phdr bias mapped page m₁ mapped' m₂ F) :
    Loaded img bias (done ++ [(phdr, page)]) m mapped' m₂ := by
  obtain rfl := hp.list
  have hno : frameNo F.1 = F.no := rfl
  have hfresh : m.used F.no = false := h.grows.unused hp.free
  have hnew : NotLarge page m₂ := by
    intro pde
    rw [hp.loaded.leaf]
    exact nofun
  refine ⟨?_, ?_, ⟨?_, ?_⟩, ?_, ?_, ?_, ?_, ?_⟩
  · rw [pagesOf_append, h.pages, List.map_append]
    rfl
  · intro q hq
    rcases List.mem_append.1 hq with hq | hq
    · exact h.canonical q hq
    · rw [List.mem_singleton.1 hq]
      exact hp.loaded.canonical
  · intro p hmem
    rcases List.mem_append.1 hmem with hmem | hmem
    · exact (h.droppable.each p hmem).kept hp.grows hp.around hnew hp.grows.wf
    · obtain rfl := List.mem_singleton.1 hmem
      exact ⟨hal, hnew, F, rfl, hp.loaded.owned⟩
  · rw [List.map_append, List.nodup_append]
    refine ⟨h.droppable.nodup, List.nodup_singleton _, ?_⟩
    rintro a ha b hb rfl
    obtain rfl := List.mem_singleton.1 hb
    obtain ⟨p, hpm, hpF⟩ := List.mem_map.1 ha
    obtain ⟨G, hG, hGo⟩ := (h.droppable.each p hpm).owned
    have hused := hGo.data.1
    have hGF : G = F := Subtype.ext (hG.trans hpF)
    rw [hGF, hp.free] at hused
    cases hused
  · intro n hn
    rw [framesOf_append] at hn
    rcases List.mem_append.1 hn with hn | hn
    · exact h.fresh n hn
    · rw [List.mem_singleton.1 hn]
      exact hfresh
  · rw [framesOf_append]
    exact h.grows.trans hp.grows
  · intro a e ha hl
    rw [pagesOf_append] at ha
    exact hp.around.small a e (ha page (by simp)) (h.small a e (fun v hv => ha v (List.mem_append_left _ hv)) hl)
  · intro a ha hl
    rw [pagesOf_append] at ha
    exact hp.around.none a (ha page (by simp)) (h.none a (fun v hv => ha v (List.mem_append_left _ hv)) hl)
  · intro before p after heq hlast
    rcases List.eq_nil_or_concat after with rfl | ⟨after', q, rfl⟩
    · obtain ⟨-, heq⟩ := List.append_inj' heq rfl
      obtain rfl := List.singleton_inj.1 heq
      exact ⟨F, List.mem_append_right _ List.mem_cons_self, hp.loaded⟩
    · rw [List.concat_eq_append, ← List.cons_append, ← List.append_assoc] at heq
      obtain ⟨hdone, heq⟩ := List.append_inj' heq rfl
      obtain rfl := List.singleton_inj.1 heq
      obtain ⟨G, hG, hloaded⟩ := h.last before p after' hdone fun r hr => hlast r (by simp [hr])
      have hne : place p.2 ≠ place page := hlast (phdr, page) (by simp)
      exact ⟨G, List.mem_append_left _ hG, hloaded.kept hp.grows hp.around hne⟩

/-! ### Mappings in the way -/

/-- After the pages `done` the loader comes to a page that it has not mapped itself and that
is mapped; no split fails, and the mapping is taken away. -/
def Displaces (img : Image) (bias : UInt64) (m : Mem) (done : List (Phdr × UInt64)) (page : UInt64) : Prop :=
  ∃ mapped m₁, loadPages img bias done m = (.ok mapped, m₁) ∧ (∀ q ∈ done, place page ≠ place q.2) ∧
    pagingGetPhys m₁.tables page ≠ 0 ∧ (pagingSplitHugePage page m₁).1 = .ok ()

/-- No page of the list comes to a mapping that is not the loader's own. -/
def Undisturbed (img : Image) (bias : UInt64) (m : Mem) (l : List (Phdr × UInt64)) : Prop :=
  ∀ done p rest, l = done ++ p :: rest → ¬ Displaces img bias m done p.2

/-- The pages were not mapped before, and all else is mapped as before. -/
structure Aside (pages : List UInt64) (m m' : Mem) : Prop where
  absent : ∀ v ∈ pages, leaf m.tables v = none
  others : ∀ a, (∀ v ∈ pages, place a ≠ place v) → leaf m'.tables a = leaf m.tables a

theorem Undisturbed.of_append (h : Undisturbed img bias m (done ++ rest)) : Undisturbed img bias m done := by
  rintro before p after rfl
  exact h before p (after ++ rest) (by simp)

theorem NotLarge.congr (wf : WellFormed m) (h : NotLarge other m) (hplace : place page = place other) :
    NotLarge page m := by
  intro pde
  rw [leaf_congr wf hplace]
  exact h pde

theorem Loaded.notLarge (h : Loaded img bias done m mapped m₁) (hpage : ∃ v ∈ pagesOf mapped, place page = place v) :
    NotLarge page m₁ := by
  obtain ⟨v, hv, hplace⟩ := hpage
  obtain ⟨p, hp, rfl⟩ := List.mem_map.1 hv
  exact NotLarge.congr h.grows.wf (h.droppable.each p hp).notLarge hplace

theorem Aside.absent_next (h : Aside (pagesOf mapped) m m₁) (hwf : WellFormed m)
    (hnext : (∃ v ∈ pagesOf mapped, place page = place v) ∨ leaf m₁.tables page = none) : leaf m.tables page = none := by
  by_cases hmem : ∃ v ∈ pagesOf mapped, place page = place v
  · obtain ⟨v, hv, hplace⟩ := hmem
    rw [leaf_congr hwf hplace, h.absent v hv]
  · rw [← h.others page fun v hv heq => hmem ⟨v, hv, heq⟩]
    exact hnext.resolve_left hmem

theorem Aside.snoc (h : Aside (pagesOf mapped) m m₁) (hwf : WellFormed m)
    (hl : Loaded img bias done m mapped m₁) (hp : PageTaken img phdr bias mapped page m₁ mapped' m₂ F)
    (hnext : (∃ v ∈ pagesOf mapped, place page = place v) ∨ pagingGetPhys m₁.tables page = 0) : Aside (pagesOf mapped') m m₂ := by
  have habsent : leaf m.tables page = none := h.absent_next hwf (hnext.imp id hp.absent)
  have hsmall : NotLarge page m₁ := by
    rcases hnext with hmem | hzero
    · exact hl.notLarge hmem
    · intro pde
      rw [hp.absent hzero]
      exact nofun
  obtain rfl := hp.list
  rw [pagesOf_append]
  constructor
  · intro v hv
    rcases List.mem_append.1 hv with hv | hv
    · exact h.absent v hv
    · rw [List.mem_singleton.1 hv]
      exact habsent
  · intro a ha
    rw [hp.others hsmall a (ha page (by simp))]
    exact h.others a fun v hv => ha v (List.mem_append_left _ hv)

/-! ### The run -/

theorem loadPages_snoc (h : loadPages img bias done m = (.ok mapped, m₁)) (p : Phdr × UInt64) :
    loadPages img bias (done ++ [p]) m = loadPage img p.1 bias mapped p.2 m₁ := by
  unfold loadPages at h ⊢
  rw [List.foldlM_append, bind_ok h, List.foldlM_cons]
  simp only [List.foldlM_nil, bind_pure]

/-- The load stopped at a page, and all pages before were given back. -/
def Stopped (img : Image) (bias : UInt64) (l : List (Phdr × UInt64)) (m m' : Mem) : Prop :=
  ∃ done p rest mapped m₁ m₂, l = done ++ p :: rest ∧ loadPages img bias done m = (.ok mapped, m₁) ∧
    loadPage img p.1 bias mapped p.2 m₁ = (.fail, m') ∧ Loaded img bias done m mapped m₁ ∧
    (Undisturbed img bias m done → Aside (pagesOf mapped) m m₁) ∧ PageFailed p.2 m₁ m₂ ∧ m' = rolledBack mapped m₂

theorem loadPages_post (wf : WellFormed m) (hal : ∀ p ∈ l, Aligned p.2) :
    Post (loadPages img bias l) m
      (fun mapped m' => Loaded img bias l m mapped m' ∧ (Undisturbed img bias m l → Aside (pagesOf mapped) m m'))
      (Stopped img bias l m) := by
  have hloop : Post (loadPages img bias l) m
      (fun mapped m' => loadPages img bias l m = (.ok mapped, m') ∧ Loaded img bias l m mapped m' ∧
        (Undisturbed img bias m l → Aside (pagesOf mapped) m m')) (Stopped img bias l m) := by
    apply Post.foldlM (I := fun done mapped m' => loadPages img bias done m = (.ok mapped, m') ∧ Loaded img bias done m mapped m' ∧
      (Undisturbed img bias m done → Aside (pagesOf mapped) m m'))
    · exact ⟨rfl, Loaded.refl wf, fun _ => ⟨fun v hv => absurd hv List.not_mem_nil, fun _ _ => rfl⟩⟩
    rintro done rest p mapped m₁ hl ⟨hrun, hloaded, haside⟩
    have hpage : Aligned p.2 := hal p (by simp [hl])
    apply ((loadPage_post hloaded.grows.wf img p.1 bias mapped hpage).and (Post.run _ _)).mono
    · rintro mapped' m₂ ⟨⟨F, htaken⟩, hok⟩
      refine ⟨(loadPages_snoc hrun p).trans hok, hloaded.snoc hpage htaken, fun hu => ?_⟩
      apply (haside hu.of_append).snoc wf hloaded htaken
      by_contra hnext
      rw [not_or] at hnext
      refine hu done p [] rfl ⟨mapped, m₁, hrun, fun q hq heq => hnext.1 ⟨q.2, ?_, heq⟩, hnext.2, htaken.split hnext.2⟩
      rw [hloaded.pages]
      exact List.mem_map_of_mem hq
    · rintro m' ⟨⟨m₂, rfl, hfailed⟩, hfail⟩
      exact ⟨done, p, rest, mapped, m₁, m₂, hl, hrun, hfail, hloaded, haside, hfailed, rfl⟩
  exact hloop.mono (fun _ _ h => h.2) fun _ h => h

theorem loadPages_prefix (h : loadPages img bias (done ++ rest) m = (.ok mapped, m')) :
    ∃ mapped₁ m₁, loadPages img bias done m = (.ok mapped₁, m₁) := by
  unfold loadPages at h ⊢
  rw [List.foldlM_append, Exec.bind_ok_iff] at h
  obtain ⟨mapped₁, m₁, hrun, -⟩ := h
  exact ⟨mapped₁, m₁, hrun⟩

theorem loadPages_append_fail (h : loadPages img bias done m = (.fail, m')) (rest : List (Phdr × UInt64)) :
    loadPages img bias (done ++ rest) m = (.fail, m') := by
  unfold loadPages at h ⊢
  rw [List.foldlM_append, bind_fail h]

theorem loadPages_append_hang (h : loadPages img bias done m = (.hang, m')) (rest : List (Phdr × UInt64)) :
    loadPages img bias (done ++ rest) m = (.hang, m') := by
  unfold loadPages at h ⊢
  rw [List.foldlM_append, bind_hang h]

/-! ### Giving back -/

section

variable (h : Loaded img bias done m mapped m₁)
include h

variable {page a : UInt64}

/-- After a page that could not be loaded the pages before can still be given back. -/
theorem Loaded.droppable_failed (hf : PageFailed page m₁ m₂) : Droppable m₂ mapped := by
  refine ⟨fun p hp => ?_, h.droppable.nodup⟩
  have hdrop := h.droppable.each p hp
  obtain ⟨F, hF, ho⟩ := hdrop.owned
  refine ⟨hdrop.aligned, ?_, F, hF, ho.grows hf.grows⟩
  intro pde hl
  by_cases hplace : place p.1 = place page
  · -- the page that failed is one of those before
    have hsmall : NotLarge page m₁ := NotLarge.congr h.grows.wf hdrop.notLarge hplace.symm
    rw [leaf_congr hf.grows.wf hplace] at hl
    by_cases hphys : pagingGetPhys m₁.tables page = 0
    · rw [hf.same hphys] at hl
      exact hsmall pde hl
    · by_cases hsplit : (pagingSplitHugePage page m₁).1 = .ok ()
      · rw [hf.taken hphys hsplit] at hl
        cases hl
      · rw [hf.unsplit hphys hsplit] at hl
        exact hsmall pde hl
  · cases hleaf : leaf m₁.tables p.1 with
    | none =>
      rw [hf.around.none _ hplace hleaf] at hl
      cases hl
    | some l =>
      cases l with
      | small e =>
        rw [hf.around.small _ _ hplace hleaf] at hl
        cases hl
      | large pde => exact hdrop.notLarge pde hleaf

theorem Loaded.leaf_rolledBack (hf : PageFailed page m₁ m₂)
    (hne : ∀ q ∈ done, place a ≠ place q.2) : leaf (rolledBack mapped m₂).tables a = leaf m₂.tables a := by
  apply (shrinks_rolledBack hf.grows.wf (h.droppable_failed hf)).kept a
  intro v hv
  rw [h.pages] at hv
  obtain ⟨q, hq, rfl⟩ := List.mem_map.1 hv
  exact hne q hq

theorem Loaded.leaf_eq {e : UInt64} (hne : ∀ q ∈ done, place a ≠ place q.2)
    (hl : leaf m.tables a = some (.small e)) : leaf m₁.tables a = some (.small e) := by
  apply h.small a e _ hl
  intro v hv
  rw [h.pages] at hv
  obtain ⟨q, hq, rfl⟩ := List.mem_map.1 hv
  exact hne q hq

end

theorem Stopped.grows (h : Stopped img bias l m m') : Grows [] m m' := by
  obtain ⟨done, p, rest, mapped, m₁, m₂, -, -, -, hloaded, -, hf, rfl⟩ := h
  have hdrop := hloaded.droppable_failed hf
  have hgrows := hloaded.grows.trans hf.grows
  rw [List.append_nil] at hgrows
  exact hgrows.shrinks hloaded.fresh (shrinks_rolledBack hf.grows.wf hdrop)

theorem Stopped.small (h : Stopped img bias l m m') {a e : UInt64} (hne : ∀ q ∈ l, place a ≠ place q.2)
    (hl : leaf m.tables a = some (.small e)) : leaf m'.tables a = some (.small e) := by
  obtain ⟨done, p, rest, mapped, m₁, m₂, rfl, -, -, hloaded, -, hf, rfl⟩ := h
  have hdone : ∀ q ∈ done, place a ≠ place q.2 := fun q hq => hne q (by simp [hq])
  rw [hloaded.leaf_rolledBack hf hdone]
  exact hf.around.small a e (hne p (by simp)) (hloaded.leaf_eq hdone hl)

/-- Without a displaced mapping, everything is mapped as before. -/
theorem Stopped.sameLeaves (h : Stopped img bias l m m') (wf : WellFormed m) (hu : Undisturbed img bias m l) :
    SameLeaves m m' := by
  obtain ⟨done, p, rest, mapped, m₁, m₂, hl, hrun, -, hloaded, haside, hf, rfl⟩ := h
  have hs := shrinks_rolledBack hf.grows.wf (hloaded.droppable_failed hf)
  have hout := hu done p rest hl
  rw [hl] at hu
  have haside := haside hu.of_append
  intro a
  by_cases hmem : ∃ v ∈ pagesOf mapped, place a = place v
  · obtain ⟨v, hv, hplace⟩ := hmem
    rw [hs.gone a ⟨v, hv, hplace⟩, leaf_congr wf hplace, haside.absent v hv]
  have hne : ∀ v ∈ pagesOf mapped, place a ≠ place v := fun v hv heq => hmem ⟨v, hv, heq⟩
  rw [hs.kept a hne, ← haside.others a hne]
  by_cases hphys : pagingGetPhys m₁.tables p.2 = 0
  · exact hf.same hphys a
  by_cases hsplit : (pagingSplitHugePage p.2 m₁).1 = .ok ()
  · have hown : ∃ v ∈ pagesOf mapped, place p.2 = place v := by
      by_contra hown
      refine hout ⟨mapped, m₁, hrun, fun q hq heq => hown ⟨q.2, ?_, heq⟩, hphys, hsplit⟩
      rw [hloaded.pages]
      exact List.mem_map_of_mem hq
    obtain ⟨v, hv, hplace⟩ := hown
    exact hf.others (hloaded.notLarge ⟨v, hv, hplace⟩) a fun heq => hne v hv (heq.trans hplace)
  · rw [hf.unsplit hphys hsplit]

/-- A displaced mapping was there before, -/
theorem Displaces.present (wf : WellFormed m) (hal : ∀ p ∈ done, Aligned p.2) (h : Displaces img bias m done page) :
    leaf m.tables page ≠ none := by
  obtain ⟨mapped, m₁, hrun, hne, hphys, -⟩ := h
  have hloaded := ((loadPages_post wf hal).ok _ _ hrun).1
  intro hnone
  apply hphys
  rw [pagingGetPhys_eq, hloaded.none page _ hnone]
  · rfl
  · intro v hv
    rw [hloaded.pages] at hv
    obtain ⟨q, hq, rfl⟩ := List.mem_map.1 hv
    exact hne q hq

/-- and is gone after a load that stopped. -/
theorem Stopped.lost {rest' : List (Phdr × UInt64)} {done' : List (Phdr × UInt64)} {p' : Phdr × UInt64} (h : Stopped img bias l m m')
    (hl' : l = done' ++ p' :: rest') (hd : Displaces img bias m done' p'.2) : leaf m'.tables p'.2 = none := by
  obtain ⟨done, p, rest, mapped, m₁, m₂, hl, hrun, hfail, hloaded, -, hf, rfl⟩ := h
  obtain ⟨mapped', m₁', hrun', -, hphys, hsplit⟩ := hd
  have hs := shrinks_rolledBack hf.grows.wf (hloaded.droppable_failed hf)
  have hown (hmem : p' ∈ done) : leaf (rolledBack mapped m₂).tables p'.2 = none := by
    apply hs.gone
    refine ⟨p'.2, ?_, rfl⟩
    rw [hloaded.pages]
    exact List.mem_map_of_mem hmem
  have hhere (hdone : done' = done) (hp : p' = p) : leaf (rolledBack mapped m₂).tables p'.2 = none := by
    rw [hdone, hrun] at hrun'
    obtain ⟨-, rfl⟩ : mapped = mapped' ∧ m₁ = m₁' := by simpa using hrun'
    by_cases hmem : ∃ v ∈ pagesOf mapped, place p'.2 = place v
    · exact hs.gone _ hmem
    · rw [hs.kept _ fun v hv heq => hmem ⟨v, hv, heq⟩]
      rw [hp] at hphys hsplit ⊢
      exact hf.taken hphys hsplit
  rcases List.append_eq_append_iff.1 (hl'.symm.trans hl) with ⟨between, hdone, hrest⟩ | ⟨between, hdone, hrest⟩
  · cases between with
    | nil =>
      obtain ⟨hp, -⟩ := List.cons.inj hrest
      exact hhere (by simpa using hdone.symm) hp
    | cons q between =>
      obtain ⟨rfl, -⟩ := List.cons.inj hrest
      exact hown (by simp [hdone])
  · cases between with
    | nil =>
      obtain ⟨hp, -⟩ := List.cons.inj hrest
      exact hhere (by simpa using hdone) hp.symm
    | cons q between =>
      -- the load stopped before it came to the page
      obtain ⟨rfl, -⟩ := List.cons.inj hrest
      rw [hdone, List.append_cons] at hrun'
      obtain ⟨_, _, hpre⟩ := loadPages_prefix hrun'
      rw [loadPages_snoc hrun, hfail] at hpre
      cases hpre

end Tg11Kernel.Elf
