import Tg11Kernel.Ramfs.Walkers

/-! Moving a node. The state is seen as a map from absolute paths to kinds and contents. A move
that succeeds replaces, in this map, the path of the source by that of the target on everything
at or below it; it fails when the target is in use, is at or below the source, or when the source
is the root. -/

namespace Tg11Kernel.Ramfs

open Lib Exec

variable {s s' : Fs} {kids : Slot → List Slot} {i d p : Slot} {name : Name} {A B P names : List Name}

/-! ### The tree of names -/

def Fs.rooted (s : Fs) : Rooted Slot Name where
  root := 0
  live i := (s.nodes i).used = true
  up := s.up
  label i := (s.nodes i).name

@[simp] theorem rooted_root : s.rooted.root = 0 := rfl

@[simp] theorem rooted_live : s.rooted.live i ↔ (s.nodes i).used = true := Iff.rfl

@[simp] theorem rooted_up : s.rooted.up i = (s.nodes i).parent := rfl

@[simp] theorem rooted_label : s.rooted.label i = (s.nodes i).name := rfl

theorem located_iff : Located s i names ↔ s.rooted.At i names := by
  constructor <;> intro h <;> induction h with
  | root => constructor
  | child hne hused hparent _ ih => exact .child hne hused hparent ih

theorem Shape.siblings (h : Shape s kids) : s.rooted.Siblings := by
  intro i j p hi hj hui huj hpi hpj hname
  exact h.names_inj p i ((h.mem_iff i p).2 ⟨hi, hui, hpi⟩) j ((h.mem_iff j p).2 ⟨hj, huj, hpj⟩) hname

/-- Every node has an absolute path. -/
theorem Shape.exists_located (h : Shape s kids) (hi : (s.nodes i).used = true) : ∃ names, Located s i names := by
  obtain ⟨l, hl⟩ := h.ascends i hi
  induction l generalizing i with
  | nil => simp [IsChain.nil_iff] at hl
  | cons j l ih =>
    obtain ⟨hj, hl⟩ := hl
    obtain rfl := Option.some.inj hj
    rcases eq_or_ne i 0 with rfl | hne
    · exact ⟨[], Located.root⟩
    · obtain ⟨p, hp⟩ := h.parent i hne hi
      have hup : s.up i = some p := hp
      rw [hup] at hl
      obtain ⟨names, hnames⟩ := ih (h.parent_dir hi hp).1 hl
      exact ⟨_, Located.child hne hi hp hnames⟩

/-- A child stands under its parent's path. -/
theorem located_child_iff (h : Shape s kids) (hP : Located s p P) : Located s i (P ++ [name]) ↔ ChildNamed s p name i := by
  rw [located_iff]
  constructor
  · intro hi
    obtain ⟨q, hne, hused, hup, hlabel, hq⟩ := hi.parent
    obtain rfl := hq.unique_node h.siblings (located_iff.1 hP)
    exact ⟨hne, hused, hup, hlabel⟩
  · rintro ⟨hne, hused, hparent, rfl⟩
    exact .child hne hused hparent (located_iff.1 hP)

/-! ### What a move does -/

/-- A move that succeeded: `i` is the source, and it goes to the directory `d` under a new name. -/
structure Moved (s s' : Fs) (src dst : Option Path) (i d : Slot) (name : Name) : Prop where
  source : resolvePath src s = (.ok i, s)
  target : splitParentAndName dst s = (.ok (d, name), s)
  ne_root : i ≠ 0
  used : (s.nodes i).used = true
  dir_used : (s.nodes d).used = true
  dir : (s.nodes d).isDir = true
  free : (findChild d name s).1 = .ok none
  above : ∃ l, IsChain s.up (some d) l ∧ i ∉ l
  rehung : Rooted.Rehung s.rooted s'.rooted i d name
  kept : ∀ j, (s'.nodes j).isDir = (s.nodes j).isDir ∧ (s'.nodes j).size = (s.nodes j).size ∧ (s'.nodes j).data = (s.nodes j).data
  cwd : s'.cwdNode = s.cwdNode

theorem rehung_moved (hne : i ≠ d) {prev : Option Slot} :
    Rooted.Rehung s.rooted ((s.unlinked p prev i).moved i d name).rooted i d name where
  root := rfl
  live j := by
    have hkind := (moved_kind (s.unlinked p prev i) name hne j).1
    rw [unlinked_nodes] at hkind
    simp [hkind]
  up j hj := by rw [rooted_up, rooted_up, moved_nodes_of_ne hj, unlinked_nodes]
  label j hj := by rw [rooted_label, rooted_label, moved_nodes_of_ne hj, unlinked_nodes]
  up_self := by simp [moved_nodes_self hne]
  label_self := by simp [moved_nodes_self hne]

theorem mv_moves (h : WellFormed s) (src dst : Option Path) :
    Ends (mv src dst) s (fun _ s' => ∃ i d name, Moved s s' src dst i d name) (· = s) := by
  obtain ⟨kids, hshape⟩ := h.shape
  rcases h.resolvePath_reads src with ⟨i, _, hsrc, rfl, hi⟩ | ⟨_, hsrc, rfl⟩
  swap
  · exact .inr ⟨_, bind_fail hsrc, rfl⟩
  rename_i s
  rw [Ends, mv, bind_ok hsrc]
  refine Ends.require_bind (fun hne => ?_) fun _ => rfl
  rcases h.splitParentAndName_reads dst with ⟨⟨d, name⟩, _, hdst, rfl, hd, hname⟩ | ⟨_, hdst, rfl⟩
  swap
  · exact .inr ⟨_, bind_fail hdst, rfl⟩
  rename_i s
  rw [Ends, bind_ok hdst]
  refine Ends.gets_bind (Ends.require_bind (fun _ => ?_) fun _ => rfl)
  have hfind := hshape.findChild_apply d name
  rw [Ends, bind_ok hfind]
  refine Ends.require_bind (fun hnone => ?_) fun _ => rfl
  refine (hshape.requireNotBelow_reads hd).bind_ends (fun _ hup => ?_) rfl
  obtain ⟨p, l₁, l₂, hl, hunlink⟩ := hshape.unlinkNodeFromParent_apply hi hne
  rw [Ends, bind_ok hunlink]
  have hid : i ≠ d := by
    rintro rfl
    obtain ⟨l, hup, hnot⟩ := hup
    exact hnot hup.head_mem
  refine .inl ⟨(), (s.unlinked p l₁.getLast? i).moved i d name, rfl, i, d, name, hsrc, hdst, hne, hi, hd.1, hd.2, ?_, hup, rehung_moved hid, ?_, ?_⟩
  · rw [hfind, hnone]
  · intro j
    rcases eq_or_ne j i with rfl | hj
    · rw [moved_nodes_self hid, unlinked_nodes]
      exact ⟨rfl, rfl, rfl⟩
    · rw [moved_nodes_of_ne hj, unlinked_nodes]
      exact ⟨rfl, rfl, rfl⟩
  · rw [moved_cwdNode, unlinked_cwdNode]

/-! ### The map of absolute paths -/

/-- What stands at an absolute path: its kind and its bytes. -/
def Entry (s : Fs) (names : List Name) (isDir : Bool) (bytes : List UInt8) : Prop :=
  ∃ i, Located s i names ∧ (s.nodes i).isDir = isDir ∧ (s.nodes i).data.firstBytes (s.nodes i).size = bytes

/-- The absolute path of the node that a path names. -/
def NodePath (s : Fs) (path : Option Path) (A : List Name) : Prop := ∃ i, resolvePath path s = (.ok i, s) ∧ Located s i A

/-- The absolute path of the directory that a path without its last component names, and the last component. -/
def TargetPath (s : Fs) (path : Option Path) (B : List Name) : Prop :=
  ∃ text last d P, path = some text ∧ (components text).getLast? = some last ∧ resolvePath (some (dirPart text)) s = (.ok d, s) ∧
    (s.nodes d).isDir = true ∧ Located s d P ∧ B = P ++ [last]

/-- Everything at or below `A` is at or below `B` instead, and nothing else changes. -/
structure MovesSubtree (s s' : Fs) (A B : List Name) : Prop where
  entries : ∀ names isDir bytes, Entry s' names isDir bytes ↔
    (∃ rest, names = B ++ rest ∧ Entry s (A ++ rest) isDir bytes) ∨ (¬ A <+: names ∧ Entry s names isDir bytes)
  unused : ∀ isDir bytes, ¬ Entry s B isDir bytes
  cwd : s'.cwdNode = s.cwdNode

/-- The law of `fs_mv`. -/
structure MvLaw (s : Fs) (src dst : Option Path) : Prop where
  named : ∀ s', mv src dst s = (.ok (), s') → (∃ A, NodePath s src A) ∧ ∃ B, TargetPath s dst B
  moves : ∀ s' A B, mv src dst s = (.ok (), s') → NodePath s src A → TargetPath s dst B → MovesSubtree s s' A B
  refuses : ∀ A B, NodePath s src A → TargetPath s dst B → A <+: B ∨ (∃ isDir bytes, Entry s B isDir bytes) ∨ A = [] →
    mv src dst s = (.fail, s)

/-- A path that splits names its directory without its last component. -/
theorem resolvePath_of_split {path : Option Path} (h : splitParentAndName path s = (.ok (d, name), s)) :
    ∃ text, path = some text ∧ (components text).getLast? = some name ∧ resolvePath (some (dirPart text)) s = (.ok d, s) := by
  rcases path with _ | _ | ⟨c, text⟩
  · simp [splitParentAndName] at h
  · simp [splitParentAndName] at h
  · rw [splitParentAndName_cons] at h
    obtain ⟨-, init, hparts, hgoes, -⟩ := goes_of_splitLoop h
    refine ⟨_, rfl, by simp [hparts], ?_⟩
    rw [resolvePath_dirPart hparts]
    exact goes_iff.1 hgoes

namespace Moved

variable {src dst : Option Path} (h : Moved s s' src dst i d name) (hs : WellFormed s)

include h

theorem source_located (hA : NodePath s src A) : Located s i A := by
  obtain ⟨j, hj, hlocated⟩ := hA
  rw [h.source] at hj
  rwa [Outcome.ok.inj (Prod.mk.inj hj).1]

/-- The directory that the target's path names without its last component is the one the node is moved to. -/
theorem target_located (hB : TargetPath s dst B) : ∃ P, Located s d P ∧ B = P ++ [name] := by
  obtain ⟨text, last, d', P, rfl, hlast, hdir, -, hP, rfl⟩ := hB
  obtain ⟨text', heq, hname, hd⟩ := resolvePath_of_split h.target
  obtain rfl := Option.some.inj heq
  rw [hlast] at hname
  rw [hdir] at hd
  obtain rfl := Option.some.inj hname
  obtain rfl := Outcome.ok.inj (Prod.mk.inj hd).1
  exact ⟨P, hP, rfl⟩

include hs

theorem not_located (hP : Located s d P) (j : Slot) : ¬ Located s j (P ++ [name]) := by
  obtain ⟨kids, hshape⟩ := hs.shape
  rw [located_child_iff hshape hP, childNamed_iff hshape, h.free]
  simp

section

variable (hA : Located s i A) (hP : Located s d P)
include hA hP

theorem not_prefix : ¬ A <+: P := by
  obtain ⟨kids, hshape⟩ := hs.shape
  rintro ⟨rest, rfl⟩
  obtain ⟨l, hl, hnot⟩ := h.above
  exact hnot ((located_iff.1 hA).mem_up hshape.siblings (located_iff.1 hP) hl)

theorem located_iff {j : Slot} :
    Located s' j names ↔ (∃ rest, names = P ++ name :: rest ∧ Located s j (A ++ rest)) ∨ (¬ A <+: names ∧ Located s j names) := by
  obtain ⟨kids, hshape⟩ := hs.shape
  have hnew : ∀ j, ¬ s.rooted.At j (P ++ [name]) := fun j hj => h.not_located hs hP j (Ramfs.located_iff.2 hj)
  simp only [Ramfs.located_iff] at hA hP ⊢
  exact h.rehung.at_iff hshape.siblings h.ne_root h.used hA hP hnew (h.not_prefix hs (Ramfs.located_iff.2 hA) (Ramfs.located_iff.2 hP))

theorem movesSubtree : MovesSubtree s s' A (P ++ [name]) where
  entries names isDir bytes := by
    have hkept := h.kept
    constructor
    · rintro ⟨j, hj, hdir, hbytes⟩
      obtain ⟨hd, hsize, hdata⟩ := h.kept j
      rw [hd] at hdir
      rw [hsize, hdata] at hbytes
      rcases (h.located_iff hs hA hP).1 hj with ⟨rest, rfl, hold⟩ | ⟨hnot, hold⟩
      · exact .inl ⟨rest, by simp, j, hold, hdir, hbytes⟩
      · exact .inr ⟨hnot, j, hold, hdir, hbytes⟩
    · have hback : ∀ j, Located s' j names → (s.nodes j).isDir = isDir → (s.nodes j).data.firstBytes (s.nodes j).size = bytes →
          Entry s' names isDir bytes := by
        intro j hj hdir hbytes
        obtain ⟨hd, hsize, hdata⟩ := h.kept j
        exact ⟨j, hj, hd.trans hdir, by rwa [hsize, hdata]⟩
      rintro (⟨rest, rfl, j, hold, hdir, hbytes⟩ | ⟨hnot, j, hold, hdir, hbytes⟩)
      · exact hback j ((h.located_iff hs hA hP).2 (.inl ⟨rest, by simp, hold⟩)) hdir hbytes
      · exact hback j ((h.located_iff hs hA hP).2 (.inr ⟨hnot, hold⟩)) hdir hbytes
  unused isDir bytes := by
    rintro ⟨j, hj, -⟩
    exact h.not_located hs hP j hj
  cwd := h.cwd

/-- A target in use, or at or below the source, and the root as the source are refused. -/
theorem not_refused : ¬ (A <+: P ++ [name] ∨ (∃ isDir bytes, Entry s (P ++ [name]) isDir bytes) ∨ A = []) := by
  rintro (hpre | ⟨isDir, bytes, j, hj, -⟩ | rfl)
  · rcases List.prefix_concat_iff.1 hpre with rfl | hpre
    · exact h.not_located hs hP i hA
    · exact h.not_prefix hs hA hP hpre
  · exact h.not_located hs hP j hj
  · exact h.ne_root (Ramfs.located_iff.1 hA).eq_root

end

end Moved

/-- `fs_mv` moves exactly one subtree, or fails. -/
theorem mvLaw (h : WellFormed s) (src dst : Option Path) : MvLaw s src dst := by
  obtain ⟨kids, hshape⟩ := h.shape
  have hmoved : ∀ {s'}, mv src dst s = (.ok (), s') → ∃ i d name, Moved s s' src dst i d name := by
    intro s' hok
    rcases mv_moves h src dst with ⟨_, t, hrun, hmoved⟩ | ⟨t, hrun, -⟩
    · obtain rfl := (Prod.mk.inj (hrun.symm.trans hok)).2
      exact hmoved
    · simp [hrun] at hok
  refine ⟨fun s' hok => ?_, fun s' A B hok hA hB => ?_, fun A B hA hB hbad => ?_⟩
  · obtain ⟨i, d, name, hm⟩ := hmoved hok
    obtain ⟨A, hA⟩ := hshape.exists_located hm.used
    obtain ⟨P, hP⟩ := hshape.exists_located hm.dir_used
    obtain ⟨text, rfl, hlast, hdir⟩ := resolvePath_of_split hm.target
    exact ⟨⟨A, i, hm.source, hA⟩, P ++ [name], text, name, d, P, rfl, hlast, hdir, hm.dir, hP, rfl⟩
  · obtain ⟨i, d, name, hm⟩ := hmoved hok
    obtain ⟨P, hP, rfl⟩ := hm.target_located hB
    exact hm.movesSubtree h (hm.source_located hA) hP
  · rcases mv_moves h src dst with ⟨_, t, hrun, i, d, name, hm⟩ | ⟨t, hrun, rfl⟩
    · obtain ⟨P, hP, rfl⟩ := hm.target_located hB
      exact absurd hbad (hm.not_refused h (hm.source_located hA) hP)
    · exact hrun

/-- In a new tree the file `/a` is moved. -/
theorem mvLaw_touched : (mv (some (chars "/a")) (some (chars "/b")) touched).1 = .ok () ∧
    MvLaw touched (some (chars "/a")) (some (chars "/b")) :=
  ⟨by decide +kernel, mvLaw wellFormed_touched _ _⟩

/-! ### Runs of moves -/

/-- What the nodes are, wherever they hang. -/
def Fs.substance (s : Fs) (i : Slot) : Bool × Bool × ℕ × FileData :=
  ((s.nodes i).used, (s.nodes i).isDir, (s.nodes i).size, (s.nodes i).data)

theorem mv_substance (h : WellFormed s) (src dst : Option Path) :
    WellFormed (mv src dst s).2 ∧ (mv src dst s).2.substance = s.substance := by
  refine ⟨(run_ends h (.mv src dst) trivial).state.2, ?_⟩
  rcases mv_moves h src dst with ⟨_, t, hrun, i, d, name, hm⟩ | ⟨t, hrun, rfl⟩
  · rw [hrun]
    funext j
    obtain ⟨hd, hsize, hdata⟩ := hm.kept j
    unfold Fs.substance
    rw [hd, hsize, hdata, Bool.eq_iff_iff.2 (hm.rehung.live j)]
  · rw [hrun]

/-- The state after some calls of `fs_mv`, whether each moves something or fails. -/
def afterMoves (calls : List (Option Path × Option Path)) (s : Fs) : Fs := calls.foldl (fun s call => (mv call.1 call.2 s).2) s

theorem afterMoves_substance (h : WellFormed s) (calls : List (Option Path × Option Path)) :
    WellFormed (afterMoves calls s) ∧ (afterMoves calls s).substance = s.substance := by
  induction calls generalizing s with
  | nil => exact ⟨h, rfl⟩
  | cons call calls ih =>
    obtain ⟨hwf, hsame⟩ := mv_substance h call.1 call.2
    exact ⟨(ih hwf).1, (ih hwf).2.trans hsame⟩

/-- The node at one path in `s` is at the other one in `s'`. -/
def Follows (s s' : Fs) (names names' : List Name) : Prop := ∃ i, Located s i names ∧ Located s' i names'

/-- What stands at a path in `s` stands at exactly one path in `s'`. -/
def Kept (s s' : Fs) : Prop :=
  ∀ names isDir bytes, Entry s names isDir bytes → ∃! names', Follows s s' names names' ∧ Entry s' names' isDir bytes

theorem kept_of_substance (hs : WellFormed s) (hs' : WellFormed s') (h : s'.substance = s.substance) : Kept s s' := by
  rintro names isDir bytes ⟨i, hi, rfl, rfl⟩
  obtain ⟨kids, hshape⟩ := hs.shape
  obtain ⟨kids', hshape'⟩ := hs'.shape
  have hused : (s.nodes i).used = true := by
    cases hi with
    | root => exact hshape.root.1
    | child _ hused => exact hused
  have hsame := congrFun h i
  simp only [Fs.substance, Prod.mk.injEq] at hsame
  obtain ⟨husedEq, hdir, hsize, hdata⟩ := hsame
  obtain ⟨names', hnames'⟩ := hshape'.exists_located (husedEq.trans hused)
  refine ⟨names', ⟨⟨i, hi, hnames'⟩, i, hnames', hdir, by rw [hsize, hdata]⟩, ?_⟩
  rintro other ⟨⟨j, hj, hother⟩, -⟩
  obtain rfl : j = i := (located_iff.1 hj).unique_node hshape.siblings (located_iff.1 hi)
  exact (located_iff.1 hother).unique_names (located_iff.1 hnames')

/-- Calls of `fs_mv`, with any paths and however each ends, lose, double and change nothing. -/
theorem afterMoves_keeps (h : WellFormed s) (calls : List (Option Path × Option Path)) :
    Kept s (afterMoves calls s) ∧ Kept (afterMoves calls s) s := by
  obtain ⟨hwf, hsame⟩ := afterMoves_substance h calls
  exact ⟨kept_of_substance h hwf hsame, kept_of_substance hwf h hsame.symm⟩

theorem afterMoves_keeps_touched : Kept touched (afterMoves [(some (chars "/a"), some (chars "/b"))] touched) ∧
    Kept (afterMoves [(some (chars "/a"), some (chars "/b"))] touched) touched :=
  afterMoves_keeps wellFormed_touched _

end Tg11Kernel.Ramfs
