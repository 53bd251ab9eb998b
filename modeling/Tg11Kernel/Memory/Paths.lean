import Tg11Kernel.Memory.Mapping

/-! Paths that stay. No operation takes a table away or a flag from a pointer: where a path
led to a table it leads there for good, and what the pointers on the way allowed they still
allow. So the addresses that were ever mapped are bounded by the frames of their tables. -/

namespace Tg11Kernel.Memory

open Lib Exec

/-- A permission that `paging_map_page` grants on the way to a page. -/
def Grant (f : UInt64) : Prop := f = PAGE_FLAG_USER ∨ f = PAGE_FLAG_WRITABLE

/-- No pointer to a table forbids execution. -/
def Permissive (m : Mem) : Prop :=
  ∀ p F i, p.length ≤ 2 → m.tables.walk p = some F → next (m.tables.get F i) ≠ none → has (m.tables.get F i) PAGE_FLAG_NO_EXECUTE = false

/-- Every path stays, and every permission of a pointer. -/
structure Paths (m m' : Mem) : Prop where
  walk : ∀ p F, p.length ≤ 3 → m.tables.walk p = some F → m'.tables.walk p = some F
  grant : ∀ p F i f, p.length ≤ 2 → m.tables.walk p = some F → next (m.tables.get F i) ≠ none → Grant f →
    has (m.tables.get F i) f = true → has (m'.tables.get F i) f = true
  permissive : Permissive m → Permissive m'

namespace Paths

variable {m m' m'' : Mem}

theorem refl (m : Mem) : Paths m m := ⟨fun _ _ _ h => h, fun _ _ _ _ _ _ _ _ h => h, id⟩

variable {p : List Index} {F : Frame} {i : Index}

/-- A path one step longer leads where its last pointer does. -/
theorem next_ne_none (h : Paths m m') (hp : p.length ≤ 2) (hw : m.tables.walk p = some F)
    (hnext : next (m.tables.get F i) ≠ none) : next (m'.tables.get F i) ≠ none := by
  obtain ⟨G, hG⟩ := Option.ne_none_iff_exists'.1 hnext
  have hlen : (p ++ [i]).length ≤ 3 := by
    rw [List.length_append, List.length_singleton]
    omega
  have hwalk := h.walk (p ++ [i]) G hlen ((walk_concat hw i).trans hG)
  rw [walk_concat (h.walk p F (hp.trans (Nat.le_succ 2)) hw)] at hwalk
  rw [hwalk]
  exact nofun

theorem trans (h : Paths m m') (h' : Paths m' m'') : Paths m m'' where
  walk p F hp hw := h'.walk p F hp (h.walk p F hp hw)
  grant p F i f hp hw hnext hf hhas :=
    h'.grant p F i f hp (h.walk p F (hp.trans (Nat.le_succ 2)) hw) (h.next_ne_none hp hw hnext) hf (h.grant p F i f hp hw hnext hf hhas)
  permissive hm := h'.permissive (h.permissive hm)

/-- Nothing but frames without tables changed. -/
theorem of_eq (hroot : m'.tables.root = m.tables.root) (h : ∀ F i, m.tables.Table F → m'.tables.get F i = m.tables.get F i) : Paths m m' where
  walk p F hp hw := by rw [(SameTree.of_eq hroot h).walk hp, hw]
  grant p F i f hp hw _ _ hhas := by rwa [h F i (table_of_walk (hp.trans (Nat.le_succ 2)) hw)]
  permissive hm p F i hp hw hnext := by
    rw [(SameTree.of_eq hroot h).walk (hp.trans (Nat.le_succ 2))] at hw
    have hget := h F i (table_of_walk (hp.trans (Nat.le_succ 2)) hw)
    rw [hget] at hnext ⊢
    exact hm p F i hp hw hnext

theorem of_tables (h : m'.tables = m.tables) : Paths m m' := of_eq (by rw [h]) fun F i _ => by rw [h]

theorem of_links {G : Frame} (h : LinksTable m.tables m'.tables p i F G) (wf : WellFormed m)
    (hnx : has (m'.tables.get F i) PAGE_FLAG_NO_EXECUTE = false) : Paths m m' where
  walk q H hq hw := by
    rw [h.walk wf.unshared hq, if_neg, hw]
    rintro rfl
    rw [walk_concat h.table, h.empty] at hw
    cases hw
  grant q H j f hq hw hnext _ hhas := by
    rw [h.frame H j (table_of_walk (hq.trans (Nat.le_succ 2)) hw)]
    · exact hhas
    · by_contra hsame
      rw [not_or, not_ne_iff, not_ne_iff] at hsame
      obtain ⟨rfl, rfl⟩ := hsame
      exact hnext h.empty
  permissive hm q H j hq hw hnext := by
    rw [h.walk wf.unshared (hq.trans (Nat.le_succ 2))] at hw
    split_ifs at hw with hnew
    · -- the new table is empty
      cases hw
      rw [hnew, List.length_append, List.length_singleton] at hq
      rw [h.blank (by omega) j] at hnext
      exact absurd (by decide) hnext
    · by_cases hsame : H ≠ F ∨ j ≠ i
      · rw [h.frame H j (table_of_walk (hq.trans (Nat.le_succ 2)) hw) hsame] at hnext ⊢
        exact hm q H j hq hw hnext
      · rw [not_or, not_ne_iff, not_ne_iff] at hsame
        rw [hsame.1, hsame.2]
        exact hnx

theorem of_sets {addr : UInt64} {e : UInt64} (h : SetsEntry m.tables m'.tables addr F e) (wf : WellFormed m) : Paths m m' where
  walk q H hq hw := (h.walk wf hq).trans hw
  grant q H j f hq hw _ _ hhas := by
    rw [h.get_upper wf (hq.trans (Nat.le_succ 2)) hw j (.inl ?_)]
    · exact hhas
    · rintro rfl
      exact absurd hq (by simp [path])
  permissive hm q H j hq hw hnext := by
    rw [h.walk wf (hq.trans (Nat.le_succ 2))] at hw
    have hget : m'.tables.get H j = m.tables.get H j := by
      apply h.get_upper wf (hq.trans (Nat.le_succ 2)) hw j (.inl _)
      rintro rfl
      exact absurd hq (by simp [path])
    rw [hget] at hnext ⊢
    exact hm q H j hq hw hnext

end Paths

theorem has_grantFlags_noExecute (flags e : UInt64) :
    has (grantFlags flags e) PAGE_FLAG_NO_EXECUTE = has e PAGE_FLAG_NO_EXECUTE := by
  have huser : has PAGE_FLAG_USER PAGE_FLAG_NO_EXECUTE = false := by decide
  have hwritable : has PAGE_FLAG_WRITABLE PAGE_FLAG_NO_EXECUTE = false := by decide
  unfold grantFlags
  dsimp only
  split_ifs <;> simp [has_or, huser, hwritable]

theorem has_tableEntry_noExecute (F : Frame) : has (tableEntry F.1) PAGE_FLAG_NO_EXECUTE = false := by
  have hmask : PAGE_ADDR_MASK &&& PAGE_FLAG_NO_EXECUTE = 0 := by decide
  have hpresent : has PAGE_FLAG_PRESENT PAGE_FLAG_NO_EXECUTE = false := by decide
  have hwritable : has PAGE_FLAG_WRITABLE PAGE_FLAG_NO_EXECUTE = false := by decide
  unfold tableEntry
  rw [has_or, has_or, has_and_of_zero hmask, hpresent, hwritable]
  rfl

variable {flags e f : UInt64} {m : Mem}

theorem has_grantFlags (h : has e f = true) : has (grantFlags flags e) f = true := by
  unfold grantFlags
  dsimp only
  split_ifs <;> simp [has_or, h]

theorem has_grantFlags_self (hf : Grant f) (h : has flags f = true) : has (grantFlags flags e) f = true := by
  rcases hf with rfl | rfl
  · unfold grantFlags
    dsimp only
    rw [if_pos h]
    split_ifs <;> simp [has_or, show has PAGE_FLAG_USER PAGE_FLAG_USER = true from rfl]
  · unfold grantFlags
    dsimp only
    rw [if_pos h]
    simp [has_or, show has PAGE_FLAG_WRITABLE PAGE_FLAG_WRITABLE = true from rfl]

section Operations

variable {m m' : Mem} {p : List Index} {F : Frame}

theorem ensureNextTable_paths (wf : WellFormed m) (i : Index) (hp : p.length ≤ 2) (hw : m.tables.walk p = some F) :
    Post (ensureNextTable (slot F i)) m (fun _ m' => Paths m m') (· = m) := by
  unfold ensureNextTable
  apply Post.gets_bind
  have hget : m.tables.entry (slot F i) = m.tables.get F i := rfl
  rw [hget]
  by_cases hpresent : has (m.tables.get F i) PAGE_FLAG_PRESENT = true
  · rw [if_pos hpresent]
    exact Post.require_bind (fun _ => Post.pure (Paths.refl m)) fun _ => rfl
  · rw [if_neg hpresent]
    apply (allocPageTable_post wf).bind (fun _ h => h)
    rintro table m₁ ⟨G, rfl, h⟩
    apply Post.modify_bind
    apply Post.pure
    apply Paths.of_links (h.links wf hp hw (next_eq_none.2 fun h => absurd h hpresent)) wf
    rw [get_setEntry, if_pos ⟨rfl, rfl⟩]
    exact has_tableEntry_noExecute G

/-- A level of the walk, with the permissions granted there. -/
theorem descend_paths (wf : WellFormed m) (flags i : UInt64) (j : Index) (hp : p.length ≤ 2) (hw : m.tables.walk p = some F)
    (hslot : F.1 + 8 * i = slot F j) :
    Post (descend flags F.1 i) m (fun _ m' => Paths m m' ∧ ∀ f, Grant f → has flags f = true → has (m'.tables.get F j) f = true) (· = m) := by
  unfold descend
  dsimp only
  rw [hslot]
  apply ((ensureNextTable_post wf j hp hw).and (ensureNextTable_paths wf j hp hw)).bind (fun _ h => h.1)
  rintro table m₁ ⟨⟨G, rfl, hdesc, hwp, hnext⟩, hpaths⟩
  apply Post.modify_bind
  apply Post.pure
  have hself : (m₁.setEntry (slot F j) (grantFlags flags (m₁.tables.get F j))).tables.get F j = grantFlags flags (m₁.tables.get F j) := by
    rw [get_setEntry, if_pos ⟨rfl, rfl⟩]
  have hpaths' : Paths m₁ (m₁.setEntry (slot F j) (grantFlags flags (m₁.tables.get F j))) := by
    constructor
    · intro q H hq hwq
      rw [(sameTree_grantFlags hdesc.grows.wf flags hp hwp hnext).walk hq, hwq]
    · intro q H k f _ _ _ _ hhas
      by_cases hsame : H = F ∧ k = j
      · rw [hsame.1, hsame.2] at hhas ⊢
        rw [hself]
        exact has_grantFlags hhas
      · rwa [get_setEntry, if_neg hsame]
    · intro hm q H k hq hwq hnextq
      rw [(sameTree_grantFlags hdesc.grows.wf flags hp hwp hnext).walk (hq.trans (Nat.le_succ 2))] at hwq
      by_cases hsame : H = F ∧ k = j
      · rw [hsame.1, hsame.2, hself, has_grantFlags_noExecute]
        apply hm p F j hp hwp
        rw [hnext]
        exact nofun
      · rw [get_setEntry, if_neg hsame] at hnextq ⊢
        exact hm q H k hq hwq hnextq
  refine ⟨hpaths.trans hpaths', fun f hf hhas => ?_⟩
  show has ((m₁.setEntry (slot F j) (grantFlags flags (m₁.tables.get F j))).tables.get F j) f = true
  rw [hself]
  exact has_grantFlags_self hf hhas

/-- The tables on the way to an address, and the permission in the pointers to them. -/
structure Opened (m : Mem) (addr f : UInt64) (pdpt pd pt : Frame) : Prop where
  walkPdpt : m.tables.walk [index 39 addr] = some pdpt
  walkPd : m.tables.walk [index 39 addr, index 30 addr] = some pd
  walkPt : m.tables.walk (path addr) = some pt
  pml4e : has (m.tables.get m.tables.root (index 39 addr)) f = true
  pdpte : has (m.tables.get pdpt (index 30 addr)) f = true
  pde : has (m.tables.get pd (index 21 addr)) f = true

/-- An access with a permission gets as far as the last table. -/
def Open (m : Mem) (addr f : UInt64) : Prop := ∃ pdpt pd pt, Opened m addr f pdpt pd pt

theorem next_of_walk {i : Index} {G : Frame} (hw : m.tables.walk p = some F) (hnext : m.tables.walk (p ++ [i]) = some G) :
    next (m.tables.get F i) = some G := by
  rwa [walk_concat hw] at hnext

variable {addr f e : UInt64}

theorem Opened.paths {pdpt pd pt : Frame} (h : Opened m addr f pdpt pd pt) (hf : Grant f) (hpaths : Paths m m') :
    Opened m' addr f pdpt pd pt := by
  have hroot : m.tables.walk [] = some m.tables.root := rfl
  have hroot' : m'.tables.root = m.tables.root := Option.some.inj (hpaths.walk [] _ (Nat.zero_le 3) hroot)
  have h4 : next (m.tables.get m.tables.root (index 39 addr)) ≠ none := by
    rw [next_of_walk hroot h.walkPdpt]
    exact nofun
  have h3 : next (m.tables.get pdpt (index 30 addr)) ≠ none := by
    rw [next_of_walk h.walkPdpt h.walkPd]
    exact nofun
  have h2 : next (m.tables.get pd (index 21 addr)) ≠ none := by
    rw [next_of_walk h.walkPd h.walkPt]
    exact nofun
  refine ⟨hpaths.walk _ _ (by simp) h.walkPdpt, hpaths.walk _ _ (by simp) h.walkPd, hpaths.walk _ _ (path_le addr) h.walkPt, ?_, ?_, ?_⟩
  · rw [hroot']
    exact hpaths.grant [] _ _ f (by simp) hroot h4 hf h.pml4e
  · exact hpaths.grant _ _ _ f (by simp) h.walkPdpt h3 hf h.pdpte
  · exact hpaths.grant _ _ _ f (by simp) h.walkPd h2 hf h.pde

theorem Open.paths (h : Open m addr f) (hf : Grant f) (hpaths : Paths m m') : Open m' addr f := by
  obtain ⟨pdpt, pd, pt, h⟩ := h
  exact ⟨pdpt, pd, pt, h.paths hf hpaths⟩

/-- What the processor reads on the way to a page. -/
structure Translated (m : Mem) (addr e : UInt64) (pdpt pd pt : Frame) : Prop where
  walkPdpt : m.tables.walk [index 39 addr] = some pdpt
  walkPd : m.tables.walk [index 39 addr, index 30 addr] = some pd
  walkPt : m.tables.walk (path addr) = some pt
  translate : ∃ phys, translate m.tables addr =
    some ⟨phys, [m.tables.get m.tables.root (index 39 addr), m.tables.get pdpt (index 30 addr), m.tables.get pd (index 21 addr), e]⟩

theorem translated_of_leaf (wf : WellFormed m) (hleaf : leaf m.tables addr = some (.small e)) :
    ∃ pdpt pd pt, Translated m addr e pdpt pd pt := by
  have hmapped := mapped_of_leaf wf hleaf
  obtain ⟨pt, hpt, -⟩ := (mapped_iff wf addr).1 hmapped
  obtain ⟨h4, h3, h2, hh, h1⟩ := hmapped
  have hpdpt := walk_pdpt wf h4
  have h3h : has (m.tables.pdpte addr) PAGE_FLAG_HUGE = false := by
    rw [m.tables.pdpte_eq] at h3 ⊢
    exact wf.noGigabyte _ _ _ (by simp) hpdpt h3
  refine ⟨_, Frame.of (m.tables.pdpte addr), pt, hpdpt, walk_dir wf h4 h3, hpt, (m.tables.pte addr &&& PAGE_ADDR_MASK) ||| (addr &&& (MEMORY_PAGE_SIZE - 1)), ?_⟩
  rw [← m.tables.pml4e_eq, ← m.tables.pdpte_eq, ← m.tables.pde_eq, ← leaf_small_pte hleaf]
  unfold translate
  simp [h4, h3, h3h, h2, hh, h1]

/-- A page that has the permission itself can be accessed with it. -/
theorem Open.mappedWith (wf : WellFormed m) (h : Open m addr f) (hleaf : leaf m.tables addr = some (.small e))
    (he : has e f = true) : MappedWith m.tables addr f := by
  obtain ⟨pdpt, pd, pt, h⟩ := h
  obtain ⟨pdpt', pd', pt', ht⟩ := translated_of_leaf wf hleaf
  obtain rfl := Option.some.inj (h.walkPdpt.symm.trans ht.walkPdpt)
  obtain rfl := Option.some.inj (h.walkPd.symm.trans ht.walkPd)
  obtain ⟨phys, htranslate⟩ := ht.translate
  refine ⟨_, htranslate, fun x hx => ?_⟩
  simp only [List.mem_cons, List.not_mem_nil, or_false] at hx
  rcases hx with rfl | rfl | rfl | rfl
  · exact h.pml4e
  · exact h.pdpte
  · exact h.pde
  · exact he

/-- A permission that is granted everywhere has the page's own entry. -/
theorem has_of_mappedWith (wf : WellFormed m) (hleaf : leaf m.tables addr = some (.small e))
    (h : MappedWith m.tables addr f) : has e f = true := by
  obtain ⟨pdpt, pd, pt, ht⟩ := translated_of_leaf wf hleaf
  obtain ⟨phys, htranslate⟩ := ht.translate
  obtain ⟨tr, htr, hall⟩ := h
  obtain rfl := Option.some.inj (htranslate.symm.trans htr)
  exact hall e (by simp)

/-- The page of the address is mapped, and no level forbids execution. -/
def Executable (t : PageTables) (addr : UInt64) : Prop :=
  ∃ tr, translate t addr = some tr ∧ ∀ e ∈ tr.entries, has e PAGE_FLAG_NO_EXECUTE = false

/-- A page that is executable has an entry that allows it. -/
theorem not_noExecute_of_executable (wf : WellFormed m) (h : Executable m.tables addr)
    (hleaf : leaf m.tables addr = some (.small e)) : has e PAGE_FLAG_NO_EXECUTE = false := by
  obtain ⟨pdpt, pd, pt, ht⟩ := translated_of_leaf wf hleaf
  obtain ⟨phys, htranslate⟩ := ht.translate
  obtain ⟨tr, htr, hall⟩ := h
  obtain rfl := Option.some.inj (htranslate.symm.trans htr)
  exact hall e (by simp)

/-- Where no pointer forbids execution, the page's own entry decides. -/
theorem executable_iff (wf : WellFormed m) (hm : Permissive m) (hleaf : leaf m.tables addr = some (.small e)) :
    Executable m.tables addr ↔ has e PAGE_FLAG_NO_EXECUTE = false := by
  have hroot : m.tables.walk [] = some m.tables.root := rfl
  obtain ⟨pdpt, pd, pt, ht⟩ := translated_of_leaf wf hleaf
  obtain ⟨phys, htranslate⟩ := ht.translate
  constructor
  · exact fun h => not_noExecute_of_executable wf h hleaf
  · intro he
    refine ⟨_, htranslate, fun x hx => ?_⟩
    simp only [List.mem_cons, List.not_mem_nil, or_false] at hx
    rcases hx with rfl | rfl | rfl | rfl
    · apply hm [] _ _ (by simp) hroot
      rw [next_of_walk hroot ht.walkPdpt]
      exact nofun
    · apply hm [index 39 addr] _ _ (by simp) ht.walkPdpt
      rw [next_of_walk ht.walkPdpt ht.walkPd]
      exact nofun
    · apply hm [index 39 addr, index 30 addr] _ _ (by simp) ht.walkPd
      rw [next_of_walk ht.walkPd ht.walkPt]
      exact nofun
    · exact he

/-- `paging_map_page` leaves the way to the page open. -/
theorem pagingMapPage_paths (wf : WellFormed m) (virtAddr physAddr flags : UInt64) :
    Post (pagingMapPage virtAddr physAddr flags) m
      (fun _ m' => Paths m m' ∧ (∃ F, m'.tables.walk (path virtAddr) = some F) ∧ ∀ f, Grant f → has flags f = true → Open m' virtAddr f)
      (fun m' => Paths m m') := by
  have hroot : m.tables.walk [] = some m.tables.root := rfl
  unfold pagingMapPage
  refine Post.require_bind (fun _ => ?_) fun _ => Paths.refl m
  apply Post.gets_bind
  apply ((descend_post (p := []) wf flags (pml4Index virtAddr) (index 39 virtAddr) (Nat.zero_le 2) hroot (root_slot _ _)).and
    (descend_paths (p := []) wf flags (pml4Index virtAddr) (index 39 virtAddr) (Nat.zero_le 2) hroot (root_slot _ _))).bind fun _ h => h.1 ▸ Paths.refl m
  rintro pdpt m₁ ⟨⟨F₁, rfl, h₁⟩, hp₁, hg₁⟩
  rw [List.nil_append] at h₁
  apply ((descend_post h₁.grows.wf flags (pdptIndex virtAddr) (index 30 virtAddr) (by simp) h₁.walk (slot_index _ _ _).symm).and
    (descend_paths h₁.grows.wf flags (pdptIndex virtAddr) (index 30 virtAddr) (by simp) h₁.walk (slot_index _ _ _).symm)).bind
      fun _ h => h.1 ▸ hp₁
  rintro pd m₂ ⟨⟨F₂, rfl, h₂⟩, hp₂, hg₂⟩
  apply ((descend_post h₂.grows.wf flags (pdIndex virtAddr) (index 21 virtAddr) (by simp) h₂.walk (slot_index _ _ _).symm).and
    (descend_paths h₂.grows.wf flags (pdIndex virtAddr) (index 21 virtAddr) (by simp) h₂.walk (slot_index _ _ _).symm)).bind
      fun _ h => h.1 ▸ hp₁.trans hp₂
  rintro pt m₃ ⟨⟨F₃, rfl, h₃⟩, hp₃, hg₃⟩
  have hpaths := (hp₁.trans hp₂).trans hp₃
  have hwalk : m₃.tables.walk (path virtAddr) = some F₃ := h₃.walk
  have hslot : F₃.1 + 8 * ptIndex virtAddr = slot F₃ (index 12 virtAddr) := (slot_index _ _ _).symm
  dsimp only
  rw [hslot]
  apply Post.gets_bind
  apply Post.require_bind _ fun _ => hpaths
  intro _
  apply Post.modify
  have hlast : Paths m₃ (m₃.setEntry (slot F₃ (index 12 virtAddr)) (pageEntry physAddr flags)) :=
    .of_sets (setsEntry_setEntry (pageEntry physAddr flags) hwalk) h₃.grows.wf
  refine ⟨hpaths.trans hlast, ⟨F₃, hlast.walk _ _ (path_le _) hwalk⟩, fun f hf hhas => ⟨F₁, F₂, F₃, ?_⟩⟩
  have hroot₁ : m₁.tables.walk [] = some m₁.tables.root := rfl
  have hsame : m₁.tables.root = m.tables.root := Option.some.inj (hp₁.walk [] _ (Nat.zero_le 3) hroot)
  have hsame₃ : m₃.tables.root = m₁.tables.root := Option.some.inj ((hp₂.trans hp₃).walk [] _ (Nat.zero_le 3) hroot₁)
  have h4 : has (m₁.tables.get m₁.tables.root (index 39 virtAddr)) f = true := by
    rw [hsame]
    exact hg₁ f hf hhas
  have hn₁ : next (m₁.tables.get m₁.tables.root (index 39 virtAddr)) ≠ none := by
    rw [next_of_walk hroot₁ h₁.walk]
    exact nofun
  have hw₁ := hp₂.walk _ _ (by simp) h₁.walk
  have hn₂ : next (m₂.tables.get F₁ (index 30 virtAddr)) ≠ none := by
    rw [next_of_walk hw₁ h₂.walk]
    exact nofun
  have hopened : Opened m₃ virtAddr f F₁ F₂ F₃ := by
    refine ⟨hp₃.walk _ _ (by simp) hw₁, hp₃.walk _ _ (by simp) h₂.walk, hwalk, ?_, ?_, hg₃ f hf hhas⟩
    · rw [hsame₃]
      exact (hp₂.trans hp₃).grant [] _ _ f (by simp) hroot₁ hn₁ hf h4
    · exact hp₃.grant _ _ _ f (by simp) hw₁ hn₂ hf (hg₂ f hf hhas)
  exact hopened.paths hf hlast

theorem paths_unmapPage (wf : WellFormed m) (addr : UInt64) : Paths m (m.unmapPage addr) := by
  unfold Mem.unmapPage
  by_cases h : Aligned addr ∧ m.tables.Mapped addr
  · obtain ⟨F, hw, hslot, -, -⟩ := (mapped_iff wf addr).1 h.2
    rw [if_pos h, hslot]
    exact .of_sets (setsEntry_setEntry 0 hw) wf
  · rw [if_neg h]
    exact Paths.refl m

theorem paths_freeFrame (m : Mem) (page : ℕ) : Paths m (m.freeFrame page) := .of_tables (freeFrame_tables m page)

theorem Taken.paths (h : Taken m m' F) : Paths m m' := .of_tables h.tables

theorem Writes.paths (h : Writes m m' F) (hF : ¬ m.tables.Table F) : Paths m m' :=
  .of_eq h.root fun G i hG => h.frame G i fun heq => hF (heq ▸ hG)

end Operations

/-! ### How many paths -/

/-- Tables stand at different paths in different frames. -/
theorem length_le_of_walk (wf : WellFormed m) {l : List (List Index)} (hnodup : l.Nodup)
    (h : ∀ p ∈ l, p.length ≤ 3 ∧ ∃ F, m.tables.walk p = some F) : l.length ≤ MEMORY_MAX_PAGES := by
  set no : List Index → ℕ := fun p => ((m.tables.walk p).map Frame.no).getD 0
  have hno : ∀ p F, m.tables.walk p = some F → no p = F.no := by
    intro p F hw
    simp [no, hw]
  have hinj : (l.map no).Nodup := by
    refine List.Nodup.map_on ?_ hnodup
    intro p hp q hq heq
    obtain ⟨hlen, F, hF⟩ := h p hp
    obtain ⟨hlen', G, hG⟩ := h q hq
    rw [hno p F hF, hno q G hG] at heq
    obtain rfl := Frame.ext_no heq
    exact wf.unshared p q F hlen hlen' hF hG
  have hsub : (l.map no).toFinset ⊆ Finset.range MEMORY_MAX_PAGES := by
    intro n hn
    obtain ⟨p, hp, rfl⟩ := List.mem_map.1 (List.mem_toFinset.1 hn)
    obtain ⟨hlen, F, hF⟩ := h p hp
    rw [hno p F hF, Finset.mem_range]
    exact (wf.used F ⟨p, hlen, hF⟩).1
  have hcard := Finset.card_le_card hsub
  rwa [List.toFinset_card_of_nodup hinj, List.length_map, Finset.card_range] at hcard

/-- Of so many regions of 2 MiB in a row that all have a table there are no more than frames. -/
theorem le_of_walk (wf : WellFormed m) {base n : ℕ} (hn : base + n * 2 ^ 21 ≤ 2 ^ 48)
    (h : ∀ i < n, ∃ F, m.tables.walk (path (UInt64.ofNat (base + i * 2 ^ 21))) = some F) : n ≤ MEMORY_MAX_PAGES := by
  have hnat : ∀ i < n, (UInt64.ofNat (base + i * 2 ^ 21)).toNat = base + i * 2 ^ 21 :=
    fun i hi => UInt64.toNat_ofNat_of_lt' (by unfold UInt64.size; omega)
  have hnodup : ((List.range n).map fun i => path (UInt64.ofNat (base + i * 2 ^ 21))).Nodup := by
    refine List.Nodup.map_on ?_ List.nodup_range
    intro i hi j hj heq
    rw [List.mem_range] at hi hj
    rw [path_eq_iff_index, hnat i hi, hnat j hj] at heq
    omega
  have hlen := length_le_of_walk wf hnodup ?_
  · rwa [List.length_map, List.length_range] at hlen
  · intro p hp
    obtain ⟨i, hi, rfl⟩ := List.mem_map.1 hp
    exact ⟨path_le _, h i (List.mem_range.1 hi)⟩

end Tg11Kernel.Memory
