import Tg11Kernel.Ramfs.Preservation

/-! Runs of the RAM file system from `fs_init`. Every state of a run is a tree with
a working directory in it, as long as no step removes the working directory; one
such step is enough to leave it dangling. -/

namespace Tg11Kernel.Ramfs

open Lib Exec

variable {s : Fs}

/-- What the file system promises about its nodes. -/
structure TreeInvariant (s : Fs) : Prop where
  root : (s.nodes 0).used = true ∧ (s.nodes 0).isDir = true ∧ (s.nodes 0).parent = none
  cwd : (s.nodes s.cwdNode).used = true ∧ (s.nodes s.cwdNode).isDir = true
  /-- Every node is once on the list of its parent, and on no other list. -/
  children : ∃ kids : Slot → List Slot, s.links.Lists kids ∧
    ∀ i ≠ 0, (s.nodes i).used = true → ∃ p, (s.nodes i).parent = some p ∧
      ((s.nodes p).used = true ∧ (s.nodes p).isDir = true) ∧ (kids p).count i = 1 ∧ ∀ q ≠ p, i ∉ kids q
  siblings : ∀ i, ∃ l, IsChain s.links.next (some i) l
  parents : ∀ i, (s.nodes i).used = true → ∃ l, IsChain s.up (some i) l ∧ l.getLast? = some 0
  distinct : ∀ i ≠ 0, ∀ j ≠ 0, (s.nodes i).used = true → (s.nodes j).used = true →
    (s.nodes i).parent = (s.nodes j).parent → (s.nodes i).name = (s.nodes j).name → i = j
  names : ∀ i ≠ 0, (s.nodes i).used = true → ValidName (s.nodes i).name
  sizes : ∀ i, (s.nodes i).used = true → (s.nodes i).size ≤ FS_MAX_FILE_SIZE - 1

/-- The way up from a used node ends at the root, the one used node without a parent. -/
theorem Shape.ends_at_root {kids : Slot → List Slot} (h : Shape s kids) {i : Slot} {l : List Slot}
    (hl : IsChain s.up (some i) l) (hi : (s.nodes i).used = true) : l.getLast? = some 0 := by
  induction l generalizing i with
  | nil => simp at hl
  | cons a l ih =>
    obtain ⟨hia, hl⟩ := hl
    obtain rfl := Option.some.inj hia
    cases hup : s.up i with
    | none =>
      rw [hup] at hl
      have h0 : i = 0 := by
        by_contra hne
        obtain ⟨p, hp⟩ := h.parent i hne hi
        rw [show (s.nodes i).parent = none from hup] at hp
        simp at hp
      cases l with
      | nil => simp [h0]
      | cons b l => simp at hl
    | some p =>
      rw [hup] at hl
      have hlast := ih hl (h.parent_dir hi hup).1
      cases l with
      | nil => simp at hlast
      | cons b l => rwa [List.getLast?_cons_cons]

theorem WellFormed.treeInvariant (h : WellFormed s) : TreeInvariant s := by
  obtain ⟨kids, hshape⟩ := h.shape
  constructor
  case root => exact hshape.root
  case cwd => exact ⟨h.cwd_used, h.cwd_isDir⟩
  case children =>
    refine ⟨kids, hshape.chains, fun i hne hi => ?_⟩
    obtain ⟨p, hp⟩ := hshape.parent i hne hi
    have hmem := (hshape.mem_iff i p).2 ⟨hne, hi, hp⟩
    exact ⟨p, hp, hshape.dir i p hmem, List.count_eq_one_of_mem (hshape.nodup p) hmem,
      fun q hq => hshape.not_mem_of_ne hmem hq⟩
  case siblings =>
    intro i
    by_cases hi : Loose s i
    · exact ⟨[i], rfl, hshape.loose i hi⟩
    · obtain ⟨hused, hne⟩ := not_or.1 hi
      rw [Bool.not_eq_false] at hused
      obtain ⟨p, hp⟩ := hshape.parent i hne hused
      obtain ⟨l, hl, -⟩ := (hshape.chains p).exists_of_mem ((hshape.mem_iff i p).2 ⟨hne, hused, hp⟩)
      exact ⟨l, hl⟩
  case parents =>
    intro i hi
    obtain ⟨l, hl⟩ := hshape.ascends i hi
    exact ⟨l, hl, hshape.ends_at_root hl hi⟩
  case distinct =>
    intro i hi0 j hj0 hi hj hparent hname
    obtain ⟨p, hp⟩ := hshape.parent i hi0 hi
    exact hshape.names_inj p i ((hshape.mem_iff i p).2 ⟨hi0, hi, hp⟩) j
      ((hshape.mem_iff j p).2 ⟨hj0, hj, hparent ▸ hp⟩) hname
  case names => exact hshape.names
  case sizes => exact fun i _ => hshape.sizes i

/-! ### From the start -/

theorem wellFormed_reset (s : Fs) : WellFormed s.reset := by
  have hused : ∀ i, (s.reset.nodes i).used = true ↔ i = 0 := fun i => decide_eq_true_iff
  have h0 : (s.reset.nodes 0).used = true := (hused 0).2 rfl
  have hdir : (s.reset.nodes 0).isDir = true := decide_eq_true (p := (0 : Slot) = 0) rfl
  refine ⟨⟨fun _ => [], ?_⟩, h0, hdir⟩
  constructor
  case chains => exact fun p => rfl
  case mem_iff =>
    intro i p
    simp [Fs.reset]
  case root => exact ⟨h0, hdir, rfl⟩
  case ascends => exact fun i _ => ⟨[i], rfl, rfl⟩
  case loose => exact fun i _ => rfl
  case sizes => exact fun i => Nat.zero_le _
  case parent => exact fun i hne hi => absurd ((hused i).1 hi) hne
  case names => exact fun i hne hi => absurd ((hused i).1 hi) hne
  case dir => simp
  case names_inj => simp

theorem writeImage_ends (h : WellFormed s) (path : Path) (buf : FileData) (n : ℕ) :
    Ends (writeImage path buf n) s (fun _ => WellFormed) WellFormed := writeFile_ends h _ _ _

section

variable (h : WellFormed s) (elfType : ℕ) (path : Path) (baseVaddr : ℕ) (pFlags : ℕ) (code : List UInt8) (segFilesz : ℕ) (segMemsz : ℕ)
include h elfType path baseVaddr pFlags code segFilesz segMemsz

theorem seedBuiltinElfType_ends :
    Ends (seedBuiltinElfType elfType path baseVaddr pFlags code segFilesz segMemsz) s (fun _ => WellFormed)
      WellFormed := by
  refine Ends.require_bind (fun _ => ?_) fun _ => h
  refine Ends.require_bind (fun _ => ?_) fun _ => h
  exact Ends.require_bind (fun _ => writeImage_ends h _ _ _) fun _ => h

theorem seedBuiltinElfWithSymbolsType_ends (symbolName : Name) :
    Ends (seedBuiltinElfWithSymbolsType elfType path baseVaddr pFlags code segFilesz segMemsz symbolName) s
      (fun _ => WellFormed) WellFormed := by
  refine Ends.require_bind (fun _ => ?_) fun _ => h
  refine Ends.require_bind (fun _ => ?_) fun _ => h
  exact Ends.require_bind (fun _ => writeImage_ends h _ _ _) fun _ => h

end

theorem builtinElfs_ends : ∀ seed ∈ builtinElfs, ∀ s, WellFormed s → Ends seed s (fun _ => WellFormed) WellFormed := by
  intro seed hseed s h
  simp only [builtinElfs, List.mem_cons, List.not_mem_nil, or_false] at hseed
  rcases hseed with rfl | rfl | rfl | rfl | rfl | rfl | rfl | rfl | rfl | rfl
  all_goals first
    | exact seedBuiltinElfWithSymbolsType_ends h _ _ _ _ _ _ _ _
    | exact seedBuiltinElfType_ends h _ _ _ _ _ _ _

theorem seeds_end (seeds : List (M Unit))
    (hseeds : ∀ seed ∈ seeds, ∀ s, WellFormed s → Ends seed s (fun _ => WellFormed) WellFormed)
    (h : WellFormed s) :
    Ends (runSeeds seeds) s (fun _ => WellFormed) WellFormed := by
  induction seeds generalizing s with
  | nil => exact Ends.pure h
  | cons seed seeds ih =>
    have hrest : ∀ s', WellFormed s' → Ends (runSeeds seeds) s' (fun _ => WellFormed) WellFormed :=
      fun s' h' => ih (fun m hm => hseeds m (List.mem_cons_of_mem _ hm)) h'
    exact (hseeds seed (by simp) s h).attempt_bind (fun _ => hrest) hrest

theorem fsInit_ends (s : Fs) : Ends fsInit s (fun _ => WellFormed) WellFormed :=
  Ends.bind (Ends.modify (Q := fun _ => WellFormed) (wellFormed_reset s)) fun _ _ h =>
    seeds_end builtinElfs builtinElfs_ends h

/-- The states that operations lead to from `fs_init`, which runs on any memory, by
steps that `allowed` permits. -/
inductive Reachable (allowed : Fs → Op → Prop) : Fs → Prop where
  | init (s : Fs) : Reachable allowed (fsInit s).2
  | step {s : Fs} (op : Op) : Reachable allowed s → allowed s op → Reachable allowed (op.run s).2

theorem Reachable.wellFormed (h : Reachable KeepsCwd s) : WellFormed s := by
  induction h with
  | init s => exact (fsInit_ends s).state.2
  | step op _ hcwd ih => exact (run_ends ih op hcwd).state.2

/-- In a run that never removes the working directory, every state has the tree
invariant, and every operation ends in it. -/
theorem reachable_treeInvariant {s : Fs} (h : Reachable KeepsCwd s) :
    TreeInvariant s ∧ ∀ op, KeepsCwd s op → (op.run s).1 ≠ .hang :=
  ⟨h.wellFormed.treeInvariant, fun op hcwd => (run_ends h.wellFormed op hcwd).state.1⟩

/-- A directory was made, entered and left again. -/
def leftDir : Fs :=
  ((Op.cd (some dotDot)).run
    ((Op.cd (some (chars "/a"))).run ((Op.mkdir (some (chars "/a"))).run (fsInit blank).2).2).2).2

/-- Removing it keeps the tree. -/
theorem reachable_treeInvariant_leftDir : TreeInvariant ((Op.rm (some (chars "/a"))).run leftDir).2 := by
  have hs : Reachable KeepsCwd leftDir :=
    .step (.cd _) (.step (.cd _) (.step (.mkdir _) (.init blank) trivial) trivial) trivial
  have hcwd : leftDir.cwdNode = 0 := by decide +kernel
  exact (reachable_treeInvariant (.step (.rm _) hs fun idx _ h => .inl (h.trans hcwd))).1

/-- A working directory that was removed is a free node. -/
theorem removed_cwd_not_used :
    ¬ ∀ s, Reachable (fun _ _ => True) s → TreeInvariant s := by
  intro h
  have hcwd := (h _ (.step (.rm (some (chars "/a"))) (.step (.cd (some (chars "/a")))
    (.step (.mkdir (some (chars "/a"))) (.init blank) trivial) trivial) trivial)).cwd.1
  revert hcwd
  decide +kernel

end Tg11Kernel.Ramfs
