import Tg11Kernel.Ramfs.Preservation

/-! Reading and writing files in any tree. The node that relative paths start from may
be a free one, or one that was taken again; then a walk along a path still ends, and
what is written still leaves a tree behind. -/

namespace Tg11Kernel.Ramfs

open Lib Exec

variable {s : Fs} {kids : Slot → List Slot}

/-- The links spell out child lists, wherever relative paths start. -/
def Tree (s : Fs) : Prop := ∃ kids, Shape s kids

theorem WellFormed.tree (h : WellFormed s) : Tree s := h.shape

theorem Shape.withCwd (h : Shape s kids) (cwd : Slot) : Shape { s with cwdNode := cwd } kids := by
  obtain ⟨hchains, hmem, hkids, hroot, hparent, hascends, hloose, hinj, hnames, hsizes⟩ := h
  exact ⟨hchains, hmem, hkids, hroot, hparent, hascends, hloose, hinj, hnames, hsizes⟩

/-- The tree with paths that start at the root. -/
theorem Tree.wellFormed (h : Tree s) : WellFormed { s with cwdNode := 0 } := by
  obtain ⟨kids, hshape⟩ := h
  exact ⟨⟨kids, hshape.withCwd 0⟩, hshape.root.1, hshape.root.2.1⟩

/-! ### Walks -/

namespace Shape

variable (h : Shape s kids)

include h

theorem resolveLoop_ends (parts : List Name) (cur : Slot) : Reads (resolveLoop parts cur) s fun _ => True := by
  induction parts generalizing cur with
  | nil => exact Reads.pure trivial
  | cons part rest ih =>
    apply Reads.require_bind
    intro _
    split_ifs
    · exact ih cur
    · exact Reads.gets_bind (ih _)
    · apply (h.findChild_reads cur part).bind
      intro o _
      apply Reads.ofOption_bind
      intro n _
      exact ih n

theorem resolvePath_ends (path : Option Path) : Reads (resolvePath path) s fun _ => True := by
  rcases path with _ | _ | ⟨c, path⟩
  · exact Reads.gets trivial
  · exact Reads.gets trivial
  · have hstart : Reads (startNode (c :: path)) s fun _ => True := by
      unfold startNode
      split_ifs
      · exact Reads.pure trivial
      · exact Reads.gets trivial
    apply hstart.bind
    intro cur _
    exact h.resolveLoop_ends _ cur

/-- The last component can be given to a node. -/
theorem splitLoop_ends (parts : List Name) (hparts : ∀ part ∈ parts, part ≠ [] ∧ 47 ∉ part) (cur : Slot) :
    Reads (splitLoop parts cur) s fun r => ValidName r.2 := by
  induction parts generalizing cur with
  | nil => exact Reads.fail
  | cons part rest ih =>
    have ih := ih fun part hpart => hparts part (by simp [hpart])
    apply Reads.require_bind
    intro hlen
    split_ifs
    · apply Reads.require_bind
      intro hdots
      obtain ⟨hne, hslash⟩ := hparts part (by simp)
      exact Reads.pure ⟨hne, hslash, hdots.1, hdots.2, hlen⟩
    · exact ih cur
    · exact Reads.gets_bind (ih _)
    · apply (h.findChild_reads cur part).bind
      intro o _
      apply Reads.ofOption_bind
      intro n _
      apply Reads.gets_bind
      apply Reads.require_bind
      intro _
      exact ih n

theorem splitParentAndName_ends (path : Option Path) : Reads (splitParentAndName path) s fun r => ValidName r.2 := by
  rcases path with _ | _ | ⟨c, path⟩
  · exact Reads.fail
  · exact Reads.fail
  · have hstart : Reads (startNode (c :: path)) s fun _ => True := by
      unfold startNode
      split_ifs
      · exact Reads.pure trivial
      · exact Reads.gets trivial
    apply hstart.bind
    intro cur _
    exact h.splitLoop_ends _ (components_spec _) cur

end Shape

/-! ### Files -/

namespace Tree

variable (h : Tree s)

include h

/-- A node is added only below a directory, so the working directory does not matter. -/
theorem addChild_ends (p : Slot) {name : Name} (hname : ValidName name) (isDir : Bool) :
    Ends (addChild p name isDir) s (fun _ => Tree) (· = s) := by
  obtain ⟨kids, hshape⟩ := h
  apply (hshape.addChild_adds p name isDir).mono
  · rintro idx _ ⟨hp, hne, hidx, hnone, rfl⟩
    exact ⟨_, hshape.withChild hp hne hidx hname (hshape.not_mem_of_findChild hnone)⟩
  · exact fun _ hs => hs

variable (path : Option Path)

theorem touch_ends : Ends (touch path) s (fun _ => Tree) Tree := by
  obtain ⟨kids, hshape⟩ := id h
  refine (hshape.splitParentAndName_ends path).bind_ends (fun r hr => ?_) h
  apply (h.addChild_ends r.1 hr false).attempt_bind
  · exact fun _ _ hs => Ends.pure hs
  · rintro _ rfl
    refine (hshape.findChild_reads r.1 r.2).bind_ends (fun o _ => ?_) h
    refine Ends.ofOption_bind (fun n _ => ?_) fun _ => h
    exact Ends.gets_bind (Ends.require (fun _ => h) fun _ => h)

theorem resolveOrTouch_ends : Ends (resolveOrTouch path) s (fun _ => Tree) Tree := by
  obtain ⟨kids, hshape⟩ := id h
  apply Ends.attempt_bind (hshape.resolvePath_ends path)
  · exact fun _ _ hq => Ends.pure (hq.1 ▸ h)
  · rintro _ rfl
    apply (h.touch_ends path).bind
    rintro _ s' ⟨kids', hshape'⟩
    exact (hshape'.resolvePath_ends path).mono (fun _ _ hq => hq.1 ▸ ⟨kids', hshape'⟩) fun _ hs => hs ▸ ⟨kids', hshape'⟩

theorem setData (idx : Slot) (store : FileData → FileData) {n : ℕ} (hn : n ≤ FS_MAX_FILE_SIZE - 1) :
    Tree (s.update idx fun node => { node with data := store node.data, size := n }) := by
  obtain ⟨kids, hshape⟩ := (h.wellFormed.setData idx store hn).shape
  exact ⟨kids, hshape.withCwd s.cwdNode⟩

theorem writeFile_ends (data : Option (List UInt8)) (size : ℕ) :
    Ends (writeFile path data size) s (fun _ => Tree) Tree := by
  apply (h.resolveOrTouch_ends path).bind
  intro idx s' h'
  apply Ends.gets_bind
  refine Ends.require_bind (fun _ => ?_) fun _ => h'
  refine Ends.require_bind (fun _ => ?_) fun _ => h'
  exact Ends.modify (h'.setData idx (fun old => storeData old (data.getD []) (cappedSize size)) (cappedSize_le size))

theorem readFile_ends (capacity : ℕ) : Reads (readFile path capacity) s fun _ => True := by
  obtain ⟨kids, hshape⟩ := h
  apply (hshape.resolvePath_ends path).bind
  intro idx _
  apply Reads.gets_bind
  apply Reads.require_bind
  intro _
  exact Reads.pure trivial

end Tree

end Tg11Kernel.Ramfs
