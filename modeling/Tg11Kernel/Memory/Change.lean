import Tg11Kernel.Memory.Tree

/-! What a change of the tables does to the tree and to the leaves. Three kinds of change
are made: one that keeps every pointer, one that links in a fresh table, and one of an
entry of the last level. -/

namespace Tg11Kernel.Memory

open Lib

/-! ### Pointers kept -/

/-- The entry is the same, or points at the same table. -/
def Alike (e e' : UInt64) : Prop := e' = e ∨ next e ≠ none ∧ next e' = next e

theorem Alike.next {e e' : UInt64} (h : Alike e e') : next e' = next e := by
  rcases h with rfl | ⟨-, h⟩
  · rfl
  · exact h

/-- All tables have the pointers they had, and those of the last level are the same. -/
structure SameTree (t t' : PageTables) : Prop where
  root : t'.root = t.root
  upper : ∀ p F i, p.length ≤ 2 → t.walk p = some F → Alike (t.get F i) (t'.get F i)
  last : ∀ p F i, p.length = 3 → t.walk p = some F → t'.get F i = t.get F i

theorem SameTree.of_eq {t t' : PageTables} (hroot : t'.root = t.root) (h : ∀ F i, t.Table F → t'.get F i = t.get F i) :
    SameTree t t' where
  root := hroot
  upper _ _ i hp hw := .inl (h _ i (table_of_walk (hp.trans (by decide)) hw))
  last _ _ i hp hw := h _ i (table_of_walk hp.le hw)

namespace SameTree

variable {t t' : PageTables}

theorem walk (h : SameTree t t') {q : List Index} (hq : q.length ≤ 3) : t'.walk q = t.walk q := by
  unfold PageTables.walk
  rw [h.root]
  apply Radix.walk_congr (d := 3) _ hq
  intro p F hp hw i
  exact (h.upper p F i (Nat.le_of_lt_succ hp) hw).next

theorem table (h : SameTree t t') (F : Frame) : t'.Table F ↔ t.Table F := by
  constructor <;> rintro ⟨p, hp, hw⟩
  · exact ⟨p, hp, (h.walk hp).symm.trans hw⟩
  · exact ⟨p, hp, (h.walk hp).trans hw⟩

variable {m m' : Mem}

theorem wellFormed (h : SameTree m.tables m'.tables) (wf : WellFormed m)
    (hused : ∀ F, m.tables.Table F → m'.used F.no = true) (hzero : m'.used 0 = true) : WellFormed m' where
  unshared := by
    rw [h.root]
    apply wf.unshared.congr
    intro q hq
    have hwalk := h.walk hq
    unfold PageTables.walk at hwalk
    rw [h.root] at hwalk
    exact hwalk
  used F hF := by
    have hF' := (h.table F).1 hF
    exact ⟨(wf.used F hF').1, hused F hF'⟩
  noGigabyte p F i hp hw hpresent := by
    rw [h.walk (hp.trans (by decide))] at hw
    rcases h.upper p F i (hp.trans (by decide)) hw with heq | ⟨hnext, heq⟩
    · rw [heq] at hpresent ⊢
      exact wf.noGigabyte p F i hp hw hpresent
    · rw [← heq] at hnext
      obtain ⟨G, hG⟩ := Option.ne_none_iff_exists'.1 hnext
      exact (next_eq_some.1 hG).1.2
  zero := hzero

theorem leaf (h : SameTree m.tables m'.tables) (wf : WellFormed m) (wf' : WellFormed m') (addr : UInt64) :
    leaf m'.tables addr = leaf m.tables addr := by
  rw [leaf_eq wf, leaf_eq wf', h.walk (dir_le addr)]
  cases hw : m.tables.walk (dir addr) with
  | none => rfl
  | some F =>
    rw [Option.bind_some, Option.bind_some]
    have hpath := walk_concat hw (index 21 addr)
    rcases h.upper _ F (index 21 addr) le_rfl hw with heq | ⟨hnext, heq⟩
    · rw [heq]
      unfold leafUnder
      by_cases hptr : has (m.tables.get F (index 21 addr)) PAGE_FLAG_PRESENT = true ∧
          has (m.tables.get F (index 21 addr)) PAGE_FLAG_HUGE = false
      · rw [next_eq_some.2 ⟨hptr, rfl⟩] at hpath
        rw [h.last _ _ (index 12 addr) rfl hpath]
      · split_ifs with h1 h2 <;> first | rfl | exact absurd ⟨by simpa using h1, by simpa using h2⟩ hptr
    · obtain ⟨G, hG⟩ := Option.ne_none_iff_exists'.1 hnext
      rw [hG] at heq hpath
      obtain ⟨⟨hp, hh⟩, hof⟩ := next_eq_some.1 hG
      obtain ⟨⟨hp', hh'⟩, hof'⟩ := next_eq_some.1 heq
      unfold leafUnder
      rw [hof, hof', h.last _ _ (index 12 addr) rfl hpath]
      simp [hp, hh, hp', hh']

end SameTree

/-! ### A fresh table -/

/-- A table is linked in at an entry that pointed nowhere. It is blank, unless it is one of
the last level. -/
structure LinksTable (t t' : PageTables) (p : List Index) (i : Index) (F G : Frame) : Prop where
  root : t'.root = t.root
  depth : p.length ≤ 2
  table : t.walk p = some F
  empty : next (t.get F i) = none
  link : next (t'.get F i) = some G
  unused : ¬ t.Table G
  frame : ∀ u j, t.Table u → u ≠ F ∨ j ≠ i → t'.get u j = t.get u j
  blank : p.length ≤ 1 → ∀ j, t'.get G j = 0

namespace LinksTable

variable {t t' : PageTables} {p : List Index} {i : Index} {F G : Frame}

theorem links (h : LinksTable t t' p i F G) : Radix.Links next t.get t'.get t.root 3 p i F G where
  depth := Nat.lt_succ_of_le h.depth
  table := h.table
  empty := h.empty
  link := h.link
  unused := h.unused
  blank hp j := by
    rw [h.blank (by omega) j]
    rfl
  frame u j hu hne := by rw [h.frame u j hu hne]

theorem walk (h : LinksTable t t' p i F G) (hu : Radix.Unshared next t.get t.root 3) {q : List Index} (hq : q.length ≤ 3) :
    t'.walk q = if q = p ++ [i] then some G else t.walk q := by
  unfold PageTables.walk
  rw [h.root]
  exact h.links.walk_eq hu hq

theorem table_iff (h : LinksTable t t' p i F G) (hu : Radix.Unshared next t.get t.root 3) (u : Frame) :
    t'.Table u ↔ u = G ∨ t.Table u := by
  unfold PageTables.Table
  rw [h.root]
  exact h.links.table_iff hu

variable {m m' : Mem} {addr : UInt64}

theorem wellFormed (h : LinksTable m.tables m'.tables p i F G) (wf : WellFormed m)
    (hused : ∀ u, m.tables.Table u → m'.used u.no = true) (hG : G.no < MEMORY_MAX_PAGES ∧ m'.used G.no = true)
    (hzero : m'.used 0 = true) : WellFormed m' where
  unshared := by
    rw [h.root]
    exact h.links.unshared wf.unshared
  used u hu := by
    rcases (h.table_iff wf.unshared u).1 hu with rfl | hu
    · exact hG
    · exact ⟨(wf.used u hu).1, hused u hu⟩
  noGigabyte q u j hq hw hpresent := by
    rw [h.walk wf.unshared (hq.trans (by decide))] at hw
    split_ifs at hw with hqi
    · obtain rfl := Option.some.inj hw
      have hlen : p.length ≤ 1 := by
        rw [hqi, List.length_append, List.length_singleton] at hq
        omega
      rw [h.blank hlen j] at hpresent
      cases hpresent
    · by_cases hne : u ≠ F ∨ j ≠ i
      · rw [h.frame u j (table_of_walk (hq.trans (by decide)) hw) hne] at hpresent ⊢
        exact wf.noGigabyte q u j hq hw hpresent
      · simp only [not_or, not_not] at hne
        obtain ⟨rfl, rfl⟩ := hne
        exact (next_eq_some.1 h.link).1.2
  zero := hzero

/-- Off the new path the leaves stay. -/
theorem leaf_of_ne (h : LinksTable m.tables m'.tables p i F G) (wf : WellFormed m) (wf' : WellFormed m')
    (hdir : dir addr ≠ p ++ [i]) (hpath : path addr ≠ p ++ [i]) : leaf m'.tables addr = leaf m.tables addr := by
  rw [leaf_eq wf, leaf_eq wf', h.walk wf.unshared (dir_le addr), if_neg hdir]
  cases hw : m.tables.walk (dir addr) with
  | none => rfl
  | some D =>
    have hp3 : p.length ≤ 3 := h.depth.trans (Nat.le_succ 2)
    have hentry : m'.tables.get D (index 21 addr) = m.tables.get D (index 21 addr) := by
      apply h.frame D _ (table_of_walk (dir_le addr) hw)
      by_contra hsame
      simp only [not_or, not_not] at hsame
      obtain ⟨rfl, rfl⟩ := hsame
      have hdirp : dir addr = p := wf.unshared _ _ D (dir_le addr) hp3 hw h.table
      exact hpath (by rw [path_eq, hdirp])
    rw [Option.bind_some, Option.bind_some, hentry]
    have hwalk := walk_concat hw (index 21 addr)
    rw [← path_eq] at hwalk
    unfold leafUnder
    by_cases hptr : has (m.tables.get D (index 21 addr)) PAGE_FLAG_PRESENT = true ∧
        has (m.tables.get D (index 21 addr)) PAGE_FLAG_HUGE = false
    · rw [next_eq_some.2 ⟨hptr, rfl⟩] at hwalk
      rw [h.frame _ (index 12 addr) (table_of_walk (path_le addr) hwalk) (.inl ?_)]
      intro hF
      rw [hF] at hwalk
      have hpp : path addr = p := wf.unshared _ _ F (path_le addr) hp3 hwalk h.table
      have hdepth := h.depth
      rw [← hpp] at hdepth
      exact absurd hdepth (Nat.lt_irrefl 2)
    · split_ifs with h1 h2 <;> first | rfl | exact absurd ⟨by simpa using h1, by simpa using h2⟩ hptr

/-- A table linked in at a directory entry gives the leaves there. -/
theorem leaf_under (h : LinksTable m.tables m'.tables p i F G) (wf : WellFormed m) (wf' : WellFormed m')
    (hpath : path addr = p ++ [i]) :
    leaf m'.tables addr = if has (m'.tables.get G (index 12 addr)) PAGE_FLAG_PRESENT = false then none
      else some (.small (m'.tables.get G (index 12 addr))) := by
  rw [path_eq] at hpath
  obtain ⟨rfl, hi⟩ := List.append_inj' hpath rfl
  obtain rfl := List.singleton_inj.1 hi
  have hne : dir addr ≠ dir addr ++ [index 21 addr] := by simp
  obtain ⟨⟨hp, hh⟩, hof⟩ := next_eq_some.1 h.link
  rw [leaf_eq wf', h.walk wf.unshared (dir_le addr), if_neg hne, h.table, Option.bind_some]
  unfold leafUnder
  rw [hof]
  simp [hp, hh]

/-- A blank table where nothing was maps nothing. -/
theorem leaf_blank (h : LinksTable m.tables m'.tables p i F G) (wf : WellFormed m) (wf' : WellFormed m')
    (habsent : has (m.tables.get F i) PAGE_FLAG_PRESENT = false) (hblank : ∀ j, m'.tables.get G j = 0) (addr : UInt64) :
    leaf m'.tables addr = leaf m.tables addr := by
  have hnone := walk_concat h.table i
  rw [h.empty] at hnone
  by_cases hdir : dir addr = p ++ [i]
  · rw [leaf_eq wf, leaf_eq wf', h.walk wf.unshared (dir_le addr), if_pos hdir, hdir, hnone, Option.bind_some, hblank]
    rfl
  · by_cases hpath : path addr = p ++ [i]
    · rw [h.leaf_under wf wf' hpath, hblank, leaf_eq wf]
      rw [path_eq] at hpath
      obtain ⟨rfl, hi⟩ := List.append_inj' hpath rfl
      obtain rfl := List.singleton_inj.1 hi
      rw [h.table, Option.bind_some]
      unfold leafUnder
      rw [if_pos habsent]
      rfl
    · exact h.leaf_of_ne wf wf' hdir hpath

end LinksTable

/-! ### An entry of the last level -/

/-- The entry of the address in a table of the last level is replaced. -/
structure SetsEntry (t t' : PageTables) (addr : UInt64) (F : Frame) (e : UInt64) : Prop where
  root : t'.root = t.root
  holds : t.walk (path addr) = some F
  entry : t'.get F (index 12 addr) = e
  frame : ∀ u j, u ≠ F ∨ j ≠ index 12 addr → t'.get u j = t.get u j

namespace SetsEntry

variable {m m' : Mem} {addr : UInt64} {F : Frame} {e : UInt64}

section

variable (h : SetsEntry m.tables m'.tables addr F e) (wf : WellFormed m)
include h wf

/-- A table at another path is another table. -/
theorem get_upper {p : List Index} {u : Frame} (hp : p.length ≤ 3)
    (hw : m.tables.walk p = some u) (j : Index) (hne : p ≠ path addr ∨ j ≠ index 12 addr) : m'.tables.get u j = m.tables.get u j := by
  apply h.frame
  rcases hne with hne | hne
  · refine .inl fun hu => hne ?_
    rw [hu] at hw
    exact wf.unshared _ _ F hp le_rfl hw h.holds
  · exact .inr hne

theorem walk {q : List Index} (hq : q.length ≤ 3) : m'.tables.walk q = m.tables.walk q := by
  unfold PageTables.walk
  rw [h.root]
  apply Radix.walk_congr (d := 3) _ hq
  intro p u hp hw i
  rw [h.get_upper wf hp.le hw i (.inl ?_)]
  rintro rfl
  exact absurd hp (lt_irrefl 3)

theorem table (u : Frame) : m'.tables.Table u ↔ m.tables.Table u := by
  constructor <;> rintro ⟨p, hp, hw⟩
  · exact ⟨p, hp, (h.walk wf hp).symm.trans hw⟩
  · exact ⟨p, hp, (h.walk wf hp).trans hw⟩

theorem wellFormed (hused : m'.used = m.used) : WellFormed m' where
  unshared := by
    rw [h.root]
    apply wf.unshared.congr
    intro q hq
    have hwalk := h.walk wf hq
    unfold PageTables.walk at hwalk
    rw [h.root] at hwalk
    exact hwalk
  used u hu := by
    rw [hused]
    exact wf.used u ((h.table wf u).1 hu)
  noGigabyte p u i hp hw hpresent := by
    rw [h.walk wf (hp.trans (by decide))] at hw
    have hne : p ≠ path addr := by
      rintro rfl
      exact absurd hp (by simp [path])
    rw [h.get_upper wf (hp.trans (by decide)) hw i (.inl hne)] at hpresent ⊢
    exact wf.noGigabyte p u i hp hw hpresent
  zero := by
    rw [hused]
    exact wf.zero

variable {a : UInt64}

theorem leaf_of_ne (wf' : WellFormed m')
    (hne : place a ≠ place addr) : leaf m'.tables a = leaf m.tables a := by
  rw [leaf_eq wf, leaf_eq wf', h.walk wf (dir_le a)]
  cases hw : m.tables.walk (dir a) with
  | none => rfl
  | some D =>
    rw [Option.bind_some, Option.bind_some, h.get_upper wf (dir_le a) hw _ (.inl (dir_ne_path a addr))]
    have hwalk := walk_concat hw (index 21 a)
    rw [← path_eq] at hwalk
    unfold leafUnder
    by_cases hptr : has (m.tables.get D (index 21 a)) PAGE_FLAG_PRESENT = true ∧
        has (m.tables.get D (index 21 a)) PAGE_FLAG_HUGE = false
    · rw [next_eq_some.2 ⟨hptr, rfl⟩] at hwalk
      rw [h.get_upper wf (path_le a) hwalk]
      by_contra hsame
      simp only [not_or, not_not] at hsame
      exact hne (Prod.ext hsame.1 hsame.2)
    · split_ifs with h1 h2 <;> first | rfl | exact absurd ⟨by simpa using h1, by simpa using h2⟩ hptr

theorem leaf_self (wf' : WellFormed m') (heq : place a = place addr) :
    leaf m'.tables a = if has e PAGE_FLAG_PRESENT = false then none else some (.small e) := by
  obtain ⟨hpath, hindex⟩ := Prod.mk.inj heq
  have hwalk := h.holds
  rw [← hpath, path_eq] at hwalk
  rw [leaf_eq wf', h.walk wf (dir_le a)]
  cases hw : m.tables.walk (dir a) with
  | none =>
    unfold PageTables.walk at hw hwalk
    rw [Radix.walk_concat, hw] at hwalk
    cases hwalk
  | some D =>
    rw [walk_concat hw] at hwalk
    obtain ⟨⟨hp, hh⟩, hof⟩ := next_eq_some.1 hwalk
    rw [Option.bind_some, h.get_upper wf (dir_le a) hw _ (.inl (dir_ne_path a addr))]
    unfold leafUnder
    rw [hof, hindex, h.entry]
    simp [hp, hh]

end

end SetsEntry

end Tg11Kernel.Memory
