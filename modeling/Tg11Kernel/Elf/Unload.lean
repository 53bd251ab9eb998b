import Tg11Kernel.Elf.Range
import Tg11Kernel.Heap.Pages

/-! Loading and unloading. What `elf_unload` gives back is found through the page tables, once
for each page; where two segments share a page, the frame that the first of them had is
lost. -/

namespace Tg11Kernel.Elf

open Lib Exec Memory
open Heap (Backed)

variable {img : Image} {bias : UInt64} {m m' : Mem} {mapped : MappedPages} {done : List (Phdr × UInt64)} {l : List UInt64}
  {k k' : Kernel} {v : UInt64}

/-! ### Giving pages back -/

theorem shrinks_congr {l' : List UInt64} {own own' : List ℕ} (h : Shrinks l own m m') (hl : ∀ v, v ∈ l' ↔ v ∈ l)
    (hown : ∀ n, n ∈ own' ↔ n ∈ own) : Shrinks l' own' m m' where
  wf := h.wf
  used n := by rw [h.used, hown]
  tables := h.tables
  gone a ha := h.gone a (by simpa only [hl] using ha)
  kept a ha := h.kept a (by simpa only [hl] using ha)
  data := h.data

theorem unloadPage_absent (h : leaf m.tables v = none) : unloadPage m v = m := by
  unfold unloadPage
  rw [pagingGetPhys_eq, h]
  rfl

theorem unloadPage_backed {flags : UInt64} {F : Frame} (hal : Aligned v) (h : Backed m flags v F) :
    unloadPage m v = (m.unmapPage v).freeFrame F.no := by
  unfold unloadPage
  rw [h.phys hal]
  exact if_pos h.owned.nonzero

/-- A page that comes again is not mapped any more. -/
theorem unloadPages_shrinks {f : UInt64 → Frame} (wf : WellFormed m) (hal : ∀ v ∈ l, Aligned v)
    (h : ∀ v ∈ l, ∃ flags, Backed m flags v (f v)) (hinj : ∀ v ∈ l, ∀ w ∈ l, place v = place w ∨ f v = f w → v = w) :
    Shrinks l (l.map fun v => (f v).no) m (l.foldl unloadPage m) := by
  induction l using List.reverseRecOn with
  | nil => exact Shrinks.refl wf
  | append_singleton l v ih =>
    simp only [List.mem_append, List.mem_singleton] at hal h hinj
    have hs := ih (fun w hw => hal w (.inl hw)) (fun w hw => h w (.inl hw)) fun w hw u hu => hinj w (.inl hw) u (.inl hu)
    rw [List.foldl_append, List.map_append]
    show Shrinks _ _ m (unloadPage (l.foldl unloadPage m) v)
    by_cases hv : v ∈ l
    · rw [unloadPage_absent (hs.gone v ⟨v, hv, rfl⟩)]
      have hno : (f v).no ∈ l.map fun v => (f v).no := List.mem_map_of_mem hv
      apply shrinks_congr hs
      · intro w
        simp only [List.mem_append, List.mem_singleton, or_iff_left_iff_imp]
        rintro rfl
        exact hv
      · intro n
        simp only [List.mem_append, List.map_cons, List.map_nil, List.mem_singleton, or_iff_left_iff_imp]
        rintro rfl
        exact hno
    · obtain ⟨flags, hbacked⟩ := h v (.inr rfl)
      have hbacked' : Backed (l.foldl unloadPage m) flags v (f v) := by
        apply hbacked.shrinks hs
        · exact fun w hw hplace => hv (hinj v (.inr rfl) w (.inl hw) (.inl hplace) ▸ hw)
        · intro hmem
          obtain ⟨w, hw, hno⟩ := List.mem_map.1 hmem
          exact hv (hinj v (.inr rfl) w (.inl hw) (.inr (Frame.ext_no hno).symm) ▸ hw)
      rw [unloadPage_backed (hal v (.inr rfl)) hbacked']
      exact hs.trans (Heap.drops_page hs.wf (hal v (.inr rfl)) hbacked').toShrinks

/-! ### The pages of a load -/

/-- The frames that the pages lead to. -/
def framesBehind (m : Mem) (l : List UInt64) : List ℕ := l.map fun v => (Frame.of (pagingGetPhys m.tables v)).no

/-- Each page of a load has a frame of its own behind it. -/
theorem Loaded.backed (h : Loaded img bias done m mapped m') (hal : ∀ q ∈ done, Aligned q.2) :
    ∀ v ∈ done.map Prod.snd, (v, (Frame.of (pagingGetPhys m'.tables v)).1) ∈ mapped ∧
      ∃ flags, Backed m' flags v (Frame.of (pagingGetPhys m'.tables v)) := by
  intro v hv
  have hlast : ∀ l : List (Phdr × UInt64), v ∈ l.map Prod.snd →
      ∃ before q after, l = before ++ q :: after ∧ q.2 = v ∧ v ∉ after.map Prod.snd := by
    intro l hv
    induction l with
    | nil => exact absurd hv List.not_mem_nil
    | cons q l ih =>
      by_cases hmem : v ∈ l.map Prod.snd
      · obtain ⟨before, p, after, rfl, hp⟩ := ih hmem
        exact ⟨q :: before, p, after, rfl, hp⟩
      · exact ⟨[], q, l, rfl, ((List.mem_cons.1 hv).resolve_right hmem).symm, hmem⟩
  obtain ⟨before, p, after, rfl, rfl, hafter⟩ := hlast done hv
  obtain ⟨F, hF, hpage⟩ := h.last before p after rfl fun q hq hplace => by
    have hp : p ∈ before ++ p :: after := by simp
    have hq' : q ∈ before ++ p :: after := by simp [hq]
    have heq := eq_of_place_canonical (h.canonical p hp) (h.canonical q hq') (hal p hp) (hal q hq') hplace
    exact hafter (heq ▸ List.mem_map_of_mem hq)
  have hbacked : Backed m' (pageFlags p.1 bias p.2) p.2 F := ⟨hpage.leaf, hpage.owned⟩
  have hframe : Frame.of (pagingGetPhys m'.tables p.2) = F := by
    rw [hbacked.phys (hal p (by simp))]
    exact Frame.of_val F
  rw [hframe]
  exact ⟨hF, _, hbacked⟩

theorem mem_framesBehind_dedup {n : ℕ} : n ∈ framesBehind m l.dedup ↔ n ∈ framesBehind m l := by
  simp [framesBehind]

/-- Unloading gives back the frames that the pages lead to. -/
theorem Loaded.shrinks (h : Loaded img bias done m mapped m') (hal : ∀ q ∈ done, Aligned q.2) :
    Shrinks (done.map Prod.snd) (framesBehind m' (done.map Prod.snd)) m'
      ((done.map Prod.snd).foldl unloadPage m') := by
  have hpages := h.backed hal
  apply unloadPages_shrinks h.grows.wf
  · intro v hv
    obtain ⟨q, hq, rfl⟩ := List.mem_map.1 hv
    exact hal q hq
  · exact fun v hv => (hpages v hv).2
  · intro v hv w hw heq
    rcases heq with hplace | hframe
    · obtain ⟨p, hp, rfl⟩ := List.mem_map.1 hv
      obtain ⟨q, hq, rfl⟩ := List.mem_map.1 hw
      exact eq_of_place_canonical (h.canonical p hp) (h.canonical q hq) (hal p hp) (hal q hq) hplace
    · have hmem := (hpages w hw).1
      rw [← hframe] at hmem
      exact congrArg Prod.fst (List.inj_on_of_nodup_map h.droppable.nodup (hpages v hv).1 hmem rfl)

/-- All frames of the load are given back if and only if no page comes twice. -/
theorem Loaded.frames_iff (h : Loaded img bias done m mapped m') (hal : ∀ q ∈ done, Aligned q.2) :
    Grows [] m ((done.map Prod.snd).foldl unloadPage m') ↔ (done.map Prod.snd).Nodup := by
  have hpages := h.backed hal
  have hs := h.shrinks hal
  constructor
  · intro hgrows
    -- every frame of the load is free again, and there is one for each page
    have hsub : framesOf mapped ⊆ framesBehind m' (done.map Prod.snd).dedup := by
      intro n hn
      obtain ⟨p, hp, rfl⟩ := List.mem_map.1 hn
      obtain ⟨F, hF, ho⟩ := (h.droppable.each p hp).owned
      have hno : F.no = frameNo p.2 := by
        unfold Frame.no
        rw [hF]
      by_contra hmem
      rw [← hno] at hmem hn
      rw [mem_framesBehind_dedup] at hmem
      rcases hgrows.fresh F.no ((hs.used _).2 ⟨ho.data.1, hmem⟩) with hused | ⟨G, hG, heq⟩ | hnil
      · rw [h.fresh _ hn] at hused
        cases hused
      · rw [Frame.ext_no heq] at hG
        exact ho.data.2 ((hs.tables F).1 hG)
      · exact absurd hnil List.not_mem_nil
    have hnodup : (framesOf mapped).Nodup := by
      have hmap : framesOf mapped = (mapped.map Prod.snd).map frameNo := by simp [framesOf]
      rw [hmap]
      apply h.droppable.nodup.map_on
      intro x hx y hy heq
      obtain ⟨p, hp, rfl⟩ := List.mem_map.1 hx
      obtain ⟨q, hq, rfl⟩ := List.mem_map.1 hy
      obtain ⟨F, hF, -⟩ := (h.droppable.each p hp).owned
      obtain ⟨G, hG, -⟩ := (h.droppable.each q hq).owned
      rw [← hF, ← hG] at heq ⊢
      exact congrArg Subtype.val (Frame.ext_no heq)
    have hlen : (done.map Prod.snd).length = (framesOf mapped).length := by
      rw [← h.pages]
      simp [framesOf, pagesOf]
    have hle := (List.subperm_of_subset hnodup hsub).length_le
    rw [framesBehind, List.length_map, ← hlen] at hle
    rw [← (List.dedup_sublist _).eq_of_length_le hle]
    exact List.nodup_dedup _
  · intro hnodup
    apply h.grows.shrinks h.fresh
    apply shrinks_congr hs (fun _ => Iff.rfl)
    intro n
    constructor
    · intro hn
      obtain ⟨p, hp, rfl⟩ := List.mem_map.1 hn
      have hv : p.1 ∈ done.map Prod.snd := by
        rw [← h.pages]
        exact List.mem_map_of_mem hp
      rw [← h.pages] at hnodup
      have heq := congrArg Prod.snd (List.inj_on_of_nodup_map hnodup hp (hpages p.1 hv).1 rfl)
      rw [heq]
      exact List.mem_map_of_mem (f := fun v => (Frame.of (pagingGetPhys m'.tables v)).no) hv
    · intro hn
      obtain ⟨v, hv, rfl⟩ := List.mem_map.1 hn
      exact List.mem_map_of_mem (f := fun p : UInt64 × UInt64 => frameNo p.2) (hpages v hv).1

/-! ### The whole image -/

/-- The segments to load are not empty. -/
def NoneEmpty (img : Image) : Prop := ∀ i < img.ehdr.phnum.toNat, (img.segment i).type = PT_LOAD → (img.segment i).memsz ≠ 0

theorem unloadSegments_eq (h : NoneEmpty img) (bias : UInt64) (m : Mem) :
    img.phdrs.foldl (unloadSegment img bias) m = ((img.loadOrder bias).map Prod.snd).foldl unloadPage m := by
  unfold Image.loadOrder
  rw [List.map_flatMap, List.foldl_flatMap]
  apply List.foldl_ext
  intro m i hi
  have hseg : img.phdr (img.phdrOff i) = img.segment i := rfl
  unfold unloadSegment
  rw [hseg]
  by_cases htype : (img.segment i).type = PT_LOAD
  · have hl : (img.segment i).Loads := ⟨htype, h i (mem_phdrs.1 hi) htype⟩
    rw [if_pos hl, List.map_map]
    simp [htype, Function.comp_def]
  · rw [if_neg fun hl : (img.segment i).Loads => htype hl.1]
    simp [htype]

theorem validateForUnload_ok (h : validateForLoad img = .ok ()) : validateForUnload img = .ok () := by
  unfold validateForLoad at h
  rw [check_bind_ok_iff, bind_ok_iff] at h
  obtain ⟨hbase, ehdr, hehdr, h⟩ := h
  rw [check_bind_ok_iff, check_bind_ok_iff, check_bind_ok_iff, check_bind_ok_iff, bind_ok_iff] at h
  obtain ⟨hmagic, hclass, -, -, u, hwindow, -⟩ := h
  unfold validateForUnload
  rw [check_bind_ok_iff, bind_ok_iff]
  refine ⟨hbase, ehdr, hehdr, ?_⟩
  rw [check_bind_ok_iff]
  exact ⟨⟨hmagic, hclass⟩, hwindow⟩

section Registry

variable {images : ActiveImages} {a : ActiveImage}

/-- An image that was not registered gets the first free slot, or none. -/
theorem registerActiveImage_new (h : images.findIdx? (isActive a.data a.len) = none) :
    registerActiveImage images a = images ∨ ∃ i, images[i]? = some none ∧ registerActiveImage images a = images.set i (some a) ∧
      (images.set i (some a)).findIdx? (isActive a.data a.len) = some i := by
  unfold registerActiveImage
  split_ifs
  · exact .inl rfl
  · rw [h]
    cases hfree : images.findIdx? Option.isNone with
    | none => exact .inl rfl
    | some i =>
      obtain ⟨hi, hnone, -⟩ := List.findIdx?_eq_some_iff_getElem.1 hfree
      refine .inr ⟨i, by simpa [List.getElem?_eq_getElem hi] using hnone, rfl, ?_⟩
      rw [List.findIdx?_eq_some_iff_getElem]
      refine ⟨by simpa using hi, by simp [isActive], fun j hj => ?_⟩
      rw [List.getElem_set_ne hj.ne']
      simpa using List.findIdx?_eq_none_iff.1 h _ (List.getElem_mem _)

/-- It is removed again. -/
theorem unregister_register (h : images.findIdx? (isActive a.data a.len) = none) :
    unregisterActiveImage (registerActiveImage images a) a.data a.len = images := by
  unfold unregisterActiveImage
  rcases registerActiveImage_new h with heq | ⟨i, hnone, heq, hfind⟩
  · rw [heq, h]
  · rw [heq, hfind]
    dsimp only
    obtain ⟨hi, hget⟩ := List.getElem?_eq_some_iff.1 hnone
    rw [List.set_set, ← hget, List.set_getElem_self]

/-- Its bias is found if it got a slot. -/
theorem bias_register (h : images.findIdx? (isActive a.data a.len) = none) :
    findActiveImageBias (registerActiveImage images a) a.data a.len = if registerActiveImage images a = images then 0 else a.loadBias := by
  unfold findActiveImageBias
  rcases registerActiveImage_new h with heq | ⟨i, hnone, heq, hfind⟩
  · rw [heq, if_pos rfl, List.find?_eq_none.2 (by simpa using List.findIdx?_eq_none_iff.1 h)]
  · obtain ⟨hi, hactive, hbefore⟩ := List.findIdx?_eq_some_iff_getElem.1 hfind
    have hchanged : images.set i (some a) ≠ images := by
      intro hsame
      rw [← hsame, List.getElem?_set_self (by simpa using hi)] at hnone
      cases hnone
    rw [heq, if_neg hchanged, List.find?_eq_some_iff_getElem.2 ⟨hactive, i, hi, rfl, by simpa using hbefore⟩, List.getElem_set_self]

end Registry

/-- Loading an image where nothing is mapped and unloading it again leaves nothing but page
tables if and only if no page belongs to two segments. Otherwise a frame is lost. -/
theorem elfUnload_untouched_iff (wf : WellFormed k.mem) {x : ElfExec} (h : elfLoad img k = (.ok (.ok x), k'))
    (hfree : ∀ p ∈ img.pages, leaf k.mem.tables p.2 = none) (hfull : NoneEmpty img)
    (hnew : k.images.findIdx? (isActive img.base img.len) = none)
    (hregister : loadBias img = 0 ∨ registerActiveImage k.images (activeImageOf img img.loadRange) ≠ k.images) :
    Untouched k (elfUnload img k') ↔ (img.pages.map Prod.snd).Nodup := by
  obtain ⟨hvalid, -, mapped, hrun, himages⟩ := elfLoad_ok h
  have hal : ∀ q ∈ img.pages, Aligned q.2 := fun _ hq => aligned_of_mem_pages hq
  obtain ⟨hloaded, haside⟩ := (loadPages_post wf hal).ok _ _ hrun
  have hundisturbed : Undisturbed img (loadBias img) k.mem img.pages := by
    rintro done p rest hl ⟨mapped₁, m₁, hrun₁, hne, hphys, -⟩
    have hal' : ∀ q ∈ done, Aligned q.2 := fun q hq => hal q (by simp [hl, hq])
    have hloaded₁ := ((loadPages_post wf hal').ok _ _ hrun₁).1
    apply hphys
    rw [pagingGetPhys_eq, hloaded₁.none p.2 ?_ (hfree p (by simp [hl]))]
    · rfl
    · intro v hv
      rw [hloaded₁.pages] at hv
      obtain ⟨q, hq, rfl⟩ := List.mem_map.1 hv
      exact hne q hq
  have hbias : findActiveImageBias k'.images img.base img.len = loadBias img := by
    rw [himages]
    refine (bias_register (a := activeImageOf img img.loadRange) hnew).trans ?_
    split_ifs with hsame
    · exact (hregister.resolve_right fun hchanged => hchanged hsame).symm
    · rfl
  have hunload : elfUnload img k' = ⟨(img.pages.map Prod.snd).foldl unloadPage k'.mem, k.images⟩ := by
    unfold elfUnload
    rw [validateForUnload_ok hvalid]
    dsimp only
    rw [hbias, unloadSegments_eq hfull, himages]
    exact congrArg _ (unregister_register (a := activeImageOf img img.loadRange) hnew)
  rw [hunload, ← hloaded.frames_iff hal]
  constructor
  · exact fun hu => hu.frames
  · intro hgrows
    refine ⟨fun a => ?_, hgrows, rfl⟩
    have hs := hloaded.shrinks hal
    have ha := haside hundisturbed
    rw [hloaded.pages] at ha
    by_cases hmem : ∃ v ∈ img.pages.map Prod.snd, place a = place v
    · obtain ⟨v, hv, hplace⟩ := hmem
      rw [leaf_congr wf hplace, ha.absent v hv]
      exact hs.gone a ⟨v, hv, hplace⟩
    · have hne : ∀ v ∈ img.pages.map Prod.snd, place a ≠ place v := fun v hv heq => hmem ⟨v, hv, heq⟩
      rw [← ha.others a hne]
      exact hs.kept a hne

theorem elfUnload_untouched_pieImage : ∃ k', elfLoad pieImage ⟨bare, noImages⟩ = (.ok (.ok (elfExecOf pieImage pieImage.loadRange)), k') ∧
    (Untouched ⟨bare, noImages⟩ (elfUnload pieImage k') ↔ (pieImage.pages.map Prod.snd).Nodup) := by
  obtain ⟨k', hrun⟩ := elfLoad_pieImage
  refine ⟨k', hrun, elfUnload_untouched_iff wellFormed_bare hrun (fun _ _ => leaf_bare _) ?_ (by decide) ?_⟩
  · unfold NoneEmpty
    decide +kernel
  · right
    decide +kernel

end Tg11Kernel.Elf
