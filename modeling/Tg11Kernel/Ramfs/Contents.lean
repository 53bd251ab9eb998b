import Tg11Kernel.Ramfs.Builtin

/-! What files hold. A walk along a path reads names and links only, so new data in a
file leaves every path leading where it led; a write over a file makes its first bytes
the data, and a read gives the first bytes that fit. -/

namespace Tg11Kernel.Ramfs

open Lib Exec

variable {s s' : Fs}

/-! ### Walks in two trees -/

/-- All fields of a node but its data and its size. -/
def Node.frame (n : Node) : Bool × Bool × Option Slot × Option Slot × Option Slot × Name :=
  (n.used, n.isDir, n.parent, n.firstChild, n.nextSibling, n.name)

/-- Two file systems that differ in what the files hold. -/
structure SameFrame (s s' : Fs) : Prop where
  nodes : ∀ i, (s'.nodes i).frame = (s.nodes i).frame
  cwd : s'.cwdNode = s.cwdNode

theorem SameFrame.refl (s : Fs) : SameFrame s s := ⟨fun _ => rfl, rfl⟩

theorem SameFrame.isDir (h : SameFrame s s') (i : Slot) : (s'.nodes i).isDir = (s.nodes i).isDir :=
  congrArg (fun f => f.2.1) (h.nodes i)

/-- The two states of two walks, which change nothing. -/
def Pair (s s' t t' : Fs) : Prop := t = s ∧ t' = s'

namespace SameFrame

variable (h : SameFrame s s')

include h

theorem node_bind {α : Type} {Q : α → Prop} {f : Node → M α} (i : Slot)
    (hf : ∀ c c', c.frame = (s.nodes i).frame → c'.frame = (s.nodes i).frame → Sim (Pair s s') Q (f c) (f c')) :
    Sim (Pair s s') Q (Exec.gets (fun t => t.nodes i) >>= f) (Exec.gets (fun t => t.nodes i) >>= f) := by
  refine Sim.gets_bind ?_ hf
  rintro _ _ ⟨rfl, rfl⟩
  exact ⟨rfl, h.nodes i⟩

theorem findChildLoop (name : Name) (fuel : ℕ) (o : Option Slot) :
    Sim (Pair s s') (fun _ => True) (Ramfs.findChildLoop name fuel o) (Ramfs.findChildLoop name fuel o) := by
  induction fuel generalizing o with
  | zero =>
    cases o with
    | none => exact Sim.pure trivial
    | some n => exact Sim.hang
  | succ fuel ih =>
    cases o with
    | none => exact Sim.pure trivial
    | some n =>
      refine h.node_bind n fun c c' hc hc' => ?_
      have hnode := hc.trans hc'.symm
      simp only [Node.frame, Prod.mk.injEq] at hnode
      obtain ⟨-, -, -, -, hnext, hname⟩ := hnode
      rw [hname, hnext]
      split_ifs
      · exact Sim.pure trivial
      · exact ih _

theorem findChild (parent : Slot) (name : Name) :
    Sim (Pair s s') (fun _ => True) (Ramfs.findChild parent name) (Ramfs.findChild parent name) := by
  refine h.node_bind parent fun c c' hc hc' => ?_
  have hnode := hc.trans hc'.symm
  simp only [Node.frame, Prod.mk.injEq] at hnode
  rw [hnode.2.2.2.1]
  exact h.findChildLoop name _ _

theorem parentOrSelf (cur : Slot) : Sim (Pair s s') (fun _ => True) (Ramfs.parentOrSelf cur) (Ramfs.parentOrSelf cur) := by
  refine h.node_bind cur fun c c' hc hc' => ?_
  have hnode := hc.trans hc'.symm
  simp only [Node.frame, Prod.mk.injEq] at hnode
  rw [hnode.2.2.1]
  exact Sim.pure trivial

theorem resolveLoop (parts : List Name) (cur : Slot) :
    Sim (Pair s s') (fun _ => True) (Ramfs.resolveLoop parts cur) (Ramfs.resolveLoop parts cur) := by
  induction parts generalizing cur with
  | nil => exact Sim.pure trivial
  | cons part rest ih =>
    refine Sim.require.bind fun _ _ => ?_
    split_ifs
    · exact ih cur
    · exact (h.parentOrSelf cur).bind fun up _ => ih up
    · refine (h.findChild cur part).bind fun child _ => ?_
      exact (Sim.ofOption fun _ _ => trivial).bind fun n _ => ih n

theorem resolvePath (path : Option Path) : Sim (Pair s s') (fun _ => True) (Ramfs.resolvePath path) (Ramfs.resolvePath path) := by
  have hcwd : Sim (Pair s s') (fun _ => True) (Exec.gets Fs.cwdNode) (Exec.gets Fs.cwdNode) := by
    refine Sim.gets ?_
    rintro _ _ ⟨rfl, rfl⟩
    exact ⟨h.cwd.symm, trivial⟩
  rcases path with _ | _ | ⟨c, path⟩
  · exact hcwd
  · exact hcwd
  · have hstart : Sim (Pair s s') (fun _ => True) (startNode (c :: path)) (startNode (c :: path)) := by
      unfold startNode
      split_ifs
      · exact Sim.pure trivial
      · exact hcwd
    exact hstart.bind fun cur _ => h.resolveLoop _ cur

end SameFrame

theorem resolvePath_state (path : Option Path) (s : Fs) : (resolvePath path s).2 = s :=
  ((SameFrame.refl s).resolvePath path s s ⟨rfl, rfl⟩).1.1

/-! ### Contents -/

/-- The path leads to a file of these bytes. -/
def Holds (s : Fs) (path : Path) (bytes : List UInt8) : Prop :=
  ∃ idx, (resolvePath (some path) s).1 = .ok idx ∧ (s.nodes idx).isDir = false ∧ (s.nodes idx).data.firstBytes (s.nodes idx).size = bytes

variable {path : Path} {bytes data : List UInt8}

theorem Holds.unique {bytes' : List UInt8} (h : Holds s path bytes) (h' : Holds s path bytes') : bytes = bytes' := by
  obtain ⟨idx, hidx, -, rfl⟩ := h
  obtain ⟨idx', hidx', -, rfl⟩ := h'
  obtain rfl : idx = idx' := Outcome.ok.inj (hidx.symm.trans hidx')
  rfl

theorem readFile_of_resolve {path : Option Path} {idx : Slot} (hidx : resolvePath path s = (.ok idx, s)) (hfile : (s.nodes idx).isDir = false)
    (capacity : ℕ) : readFile path capacity s = (.ok (((s.nodes idx).data.firstBytes (s.nodes idx).size).take capacity), s) := by
  have hmin : (if (s.nodes idx).size < capacity then (s.nodes idx).size else capacity) = min capacity (s.nodes idx).size := by
    split_ifs <;> omega
  rw [readFile, bind_ok hidx, Block.take_firstBytes]
  have hread : Exec.gets (fun s : Fs => s.nodes idx) s = (.ok (s.nodes idx), s) := rfl
  rw [bind_ok hread, require_pos hfile, hmin]
  rfl

theorem readFile_of_holds (h : Holds s path bytes) (capacity : ℕ) :
    readFile (some path) capacity s = (.ok (bytes.take capacity), s) := by
  obtain ⟨idx, hidx, hfile, rfl⟩ := h
  exact readFile_of_resolve (Prod.ext hidx (resolvePath_state _ s)) hfile capacity

theorem cappedSize_eq_min (size : ℕ) : cappedSize size = min size (FS_MAX_FILE_SIZE - 1) := by
  have hmax : 0 < FS_MAX_FILE_SIZE := by decide
  unfold cappedSize
  split_ifs <;> omega

theorem firstBytes_storeData (old : FileData) {size : ℕ} (hsize : size ≤ data.length) :
    (storeData old data (cappedSize size)).firstBytes (cappedSize size) = data.take (cappedSize size) := by
  have hcapped := cappedSize_eq_min size
  have hmax : 0 < FS_MAX_FILE_SIZE := by decide
  have hlen : (data.take (cappedSize size)).length = cappedSize size := by
    rw [List.length_take]
    omega
  have hstored : (storeData old data (cappedSize size)).firstBytes (data.take (cappedSize size)).length = data.take (cappedSize size) := by
    refine Block.firstBytes_eq fun i hi => ?_
    rw [hlen] at hi
    rw [Block.get_of_lt _ (by omega), storeData, if_pos hi, List.getElem_take]
    simp [show i < data.length by omega]
  rwa [hlen] at hstored

/-- A file with the first bytes of some data in it. -/
def Node.stored (data : List UInt8) (size : ℕ) (n : Node) : Node :=
  { n with data := storeData n.data data (cappedSize size), size := cappedSize size }

theorem sameFrame_stored (s : Fs) (idx : Slot) (data : List UInt8) (size : ℕ) : SameFrame s (s.update idx (Node.stored data size)) := by
  refine ⟨fun i => ?_, rfl⟩
  rcases eq_or_ne i idx with rfl | hne
  · have hnode : (s.update i (Node.stored data size)).nodes i = (s.nodes i).stored data size := Function.update_self ..
    rw [hnode]
    rfl
  · exact congrArg Node.frame (Function.update_of_ne hne _ _)

/-- A write over a file makes its contents the data, up to the size limit. -/
theorem writeFile_of_holds (h : Holds s path bytes) (data : List UInt8) :
    ∃ s', writeFile (some path) (some data) data.length s = (.ok (), s') ∧ Holds s' path (data.take (FS_MAX_FILE_SIZE - 1)) := by
  obtain ⟨idx, hidx, hfile, -⟩ := h
  have hrun : resolveOrTouch (some path) s = (.ok idx, s) := by
    rw [resolveOrTouch, bind_ok (attempt_ok (Prod.ext hidx (resolvePath_state _ s)))]
    rfl
  have hread : Exec.gets (fun s : Fs => s.nodes idx) s = (.ok (s.nodes idx), s) := rfl
  have hsame := sameFrame_stored s idx data data.length
  have hnode : (s.update idx (Node.stored data data.length)).nodes idx = (s.nodes idx).stored data data.length := Function.update_self ..
  refine ⟨s.update idx (Node.stored data data.length), ?_, idx, ?_, ?_, ?_⟩
  · rw [writeFile, bind_ok hrun, bind_ok hread, require_pos hfile, require_pos (by simp)]
    rfl
  · exact (hsame.resolvePath (some path) s _ ⟨rfl, rfl⟩).2.1.symm.trans hidx
  · exact (hsame.isDir idx).trans hfile
  · rw [hnode]
    refine (firstBytes_storeData _ le_rfl).trans ?_
    rw [cappedSize_eq_min, List.take_eq_take_iff]
    omega

/-- The file system after a start. -/
@[irreducible] def started : Fs := (fsInit blank).2

/-- The same with a new file `/a`. -/
@[irreducible] def touched : Fs := (touch (some (chars "/a")) started).2

theorem holds_touched : Holds touched (chars "/a") [] := by
  refine ⟨⟨11, by decide⟩, ?_, ?_, ?_⟩ <;> decide +kernel

/-- The same with data in the file. -/
@[irreducible] def filled (data : List UInt8) : Fs := (writeFile (some (chars "/a")) (some data) data.length touched).2

theorem holds_filled (hlen : data.length < FS_MAX_FILE_SIZE) : Holds (filled data) (chars "/a") data := by
  obtain ⟨s', hwrite, hs'⟩ := writeFile_of_holds holds_touched data
  rw [List.take_of_length_le (by omega)] at hs'
  rwa [filled, hwrite]

end Tg11Kernel.Ramfs
