import Tg11Kernel.Lib.Exec
import Tg11Kernel.Lib.Bytes

/-! The RAM file system: 256 node slots whose fields link them into a tree, and
the operations that walk paths, add nodes, unlink them and move them. Slot
numbers are `Fin 256`, and the -1 of a link is `none`. The walks along sibling and
parent links take the number of slots as fuel and hang when it does not suffice,
where the C loops would go round for ever. -/

namespace Tg11Kernel.Ramfs

open Lib

def FS_NAME_MAX : ℕ := 31
def FS_MAX_FILE_SIZE : ℕ := 8192
def FS_MAX_NODES : ℕ := 256

abbrev Slot := Fin FS_MAX_NODES

instance : OfNat Slot 0 := ⟨⟨0, by decide⟩⟩

/-- A C string: the bytes before the terminating NUL. -/
abbrev Path := List UInt8

/-- A path component, or the name of a node. -/
abbrev Name := List UInt8

/-- The `data` array of a node. -/
abbrev FileData := Block FS_MAX_FILE_SIZE

structure Node where
  used : Bool
  isDir : Bool
  parent : Option Slot
  firstChild : Option Slot
  nextSibling : Option Slot
  name : Name
  size : ℕ
  data : FileData

/-- The variables `nodes` and `cwd_node`. -/
structure Fs where
  nodes : Slot → Node
  cwdNode : Slot

/-- Memory before `fs_init`. -/
def blank : Fs := ⟨fun _ => ⟨false, false, none, none, none, [], 0, Block.zero⟩, 0⟩

/-- File system code: `fail` is a return of -1. -/
abbrev M := Exec Fs

/-- Change the fields of one node. -/
def Fs.update (s : Fs) (i : Slot) (f : Node → Node) : Fs :=
  { s with nodes := Function.update s.nodes i (f (s.nodes i)) }

def setNode (i : Slot) (f : Node → Node) : M Unit := Exec.modify fun s => s.update i f

def dot : Name := [46]
def dotDot : Name := [46, 46]

/-! ### Nodes -/

/-- What `alloc_node` leaves in a free slot; the first data byte is cleared, the
other ones stay. -/
def Node.fresh (n : Node) : Node :=
  { used := true, isDir := false, parent := none, firstChild := none, nextSibling := none,
    name := [], size := 0, data := n.data.set 0 0 }

/-- The slots from 1 on, in order. -/
def slotsAfterRoot : List Slot := (List.finRange FS_MAX_NODES).drop 1

def allocNode : M Slot := do
  let nodes ← Exec.gets Fs.nodes
  match slotsAfterRoot.find? fun i => !(nodes i).used with
  | some i => do
    setNode i Node.fresh
    pure i
  | none => Exec.fail

/-- `while (n != -1)` of `find_child` -/
def findChildLoop (name : Name) : ℕ → Option Slot → M (Option Slot)
  | _, none => pure none
  | 0, some _ => Exec.hang
  | fuel + 1, some n => do
    let node ← Exec.gets fun s => s.nodes n
    if node.name = name then pure (some n) else findChildLoop name fuel node.nextSibling

def findChild (parent : Slot) (name : Name) : M (Option Slot) := do
  let node ← Exec.gets fun s => s.nodes parent
  findChildLoop name FS_MAX_NODES node.firstChild

def addChild (parent : Slot) (name : Name) (isDir : Bool) : M Slot := do
  let node ← Exec.gets fun s => s.nodes parent
  Exec.require (node.used = true ∧ node.isDir = true)
  Exec.require (name ≠ [])
  Exec.require (name.length ≤ FS_NAME_MAX)
  Exec.require (name ≠ dot ∧ name ≠ dotDot)
  let existing ← findChild parent name
  Exec.require (existing = none)
  let idx ← allocNode
  let first ← Exec.gets fun s => (s.nodes parent).firstChild
  setNode idx fun n =>
    { n with isDir := isDir, parent := some parent, firstChild := none, nextSibling := first, name := name }
  setNode parent fun n => { n with firstChild := some idx }
  pure idx

/-- `while (cur != -1)` of `unlink_node_from_parent` -/
def unlinkLoop (idx parent : Slot) : ℕ → Option Slot → Option Slot → M Unit
  | _, _, none => Exec.fail
  | 0, _, some _ => Exec.hang
  | fuel + 1, prev, some cur => do
    let next ← Exec.gets fun s => (s.nodes cur).nextSibling
    if cur = idx then
      match prev with
      | none => setNode parent fun n => { n with firstChild := next }
      | some p => setNode p fun n => { n with nextSibling := next }
    else unlinkLoop idx parent fuel (some cur) next

def unlinkNodeFromParent (idx : Slot) : M Unit := do
  let node ← Exec.gets fun s => s.nodes idx
  Exec.require (idx ≠ 0 ∧ node.used = true)
  let parent ← Exec.ofOption node.parent
  let first ← Exec.gets fun s => (s.nodes parent).firstChild
  unlinkLoop idx parent FS_MAX_NODES none first

/-! ### Paths -/

/-- The loop that reads a path, with the component collected so far: runs of
slashes separate the components, and empty ones are skipped. -/
def componentsLoop : Path → Name → List Name
  | [], part => if part = [] then [] else [part]
  | c :: path, part =>
    if c = 47 then
      if part = [] then componentsLoop path [] else part :: componentsLoop path []
    else componentsLoop path (part ++ [c])

/-- The components of a path, the maximal runs of bytes other than a slash. -/
def components (path : Path) : List Name := componentsLoop path []

/-- Where a walk along a path begins. -/
def startNode (path : Path) : M Slot :=
  if path.head? = some 47 then pure 0 else Exec.gets Fs.cwdNode

/-- The node a `..` component leads to. -/
def parentOrSelf (cur : Slot) : M Slot := do
  let node ← Exec.gets fun s => s.nodes cur
  pure (node.parent.getD cur)

/-- The loop of `split_parent_and_name`. A component that does not fit the
buffer ends it, also the last one. -/
def splitLoop : List Name → Slot → M (Slot × Name)
  | [], _ => Exec.fail
  | part :: rest, cur => do
    Exec.require (part.length ≤ FS_NAME_MAX)
    if rest = [] then do
      Exec.require (part ≠ dot ∧ part ≠ dotDot)
      pure (cur, part)
    else if part = dot then splitLoop rest cur
    else if part = dotDot then do
      let up ← parentOrSelf cur
      splitLoop rest up
    else do
      let child ← findChild cur part
      let n ← Exec.ofOption child
      let node ← Exec.gets fun s => s.nodes n
      Exec.require (node.isDir = true)
      splitLoop rest n

def splitParentAndName (path : Option Path) : M (Slot × Name) :=
  match path with
  | none | some [] => Exec.fail
  | some path => do
    let cur ← startNode path
    splitLoop (components path) cur

/-- The loop of `resolve_path` -/
def resolveLoop : List Name → Slot → M Slot
  | [], cur => pure cur
  | part :: rest, cur => do
    Exec.require (part.length ≤ FS_NAME_MAX)
    if part = dot then resolveLoop rest cur
    else if part = dotDot then do
      let up ← parentOrSelf cur
      resolveLoop rest up
    else do
      let child ← findChild cur part
      let n ← Exec.ofOption child
      resolveLoop rest n

/-- A null or empty path is the working directory; a path of slashes only starts,
and so ends, at the root. -/
def resolvePath (path : Option Path) : M Slot :=
  match path with
  | none | some [] => Exec.gets Fs.cwdNode
  | some path => do
    let cur ← startNode path
    resolveLoop (components path) cur

/-! ### Operations -/

def mkdir (path : Option Path) : M Unit := do
  let (parent, name) ← splitParentAndName path
  let _ ← addChild parent name true

def touch (path : Option Path) : M Unit := do
  let (parent, name) ← splitParentAndName path
  match ← Exec.attempt (addChild parent name false) with
  | some _ => pure ()
  | none => do
    -- a file that exists already counts as a success
    let existing ← findChild parent name
    let n ← Exec.ofOption existing
    let node ← Exec.gets fun s => s.nodes n
    Exec.require (node.isDir = false)

/-- The number of bytes `fs_write_file` keeps: one stays for the terminator. -/
def cappedSize (size : ℕ) : ℕ := if size ≥ FS_MAX_FILE_SIZE then FS_MAX_FILE_SIZE - 1 else size

/-- The first `n` bytes replaced and a NUL put after them. -/
def storeData (old : FileData) (data : List UInt8) (n : ℕ) : FileData := fun i =>
  if i.val < n then data.getD i.val 0 else if i.val = n then 0 else old i

/-- The node at a path, or a new file there. -/
def resolveOrTouch (path : Option Path) : M Slot := do
  match ← Exec.attempt (resolvePath path) with
  | some node => pure node
  | none => do
    touch path
    resolvePath path

/-- `data` is `none` for a null pointer, otherwise it has at least `size` bytes. -/
def writeFile (path : Option Path) (data : Option (List UInt8)) (size : ℕ) : M Unit := do
  let idx ← resolveOrTouch path
  let node ← Exec.gets fun s => s.nodes idx
  Exec.require (node.isDir = false)
  Exec.require (¬ (data = none ∧ size ≠ 0))
  let n := cappedSize size
  setNode idx fun node => { node with data := storeData node.data (data.getD []) n, size := n }

/-- The bytes copied to an output buffer of `capacity` bytes; their number is
`out_size`. -/
def readFile (path : Option Path) (capacity : ℕ) : M (List UInt8) := do
  let idx ← resolvePath path
  let node ← Exec.gets fun s => s.nodes idx
  Exec.require (node.isDir = false)
  pure ((List.range (if node.size < capacity then node.size else capacity)).map node.data.get)

/-- `is_dir` and `size` -/
def stat (path : Option Path) : M (Bool × ℕ) := do
  let idx ← resolvePath path
  let node ← Exec.gets fun s => s.nodes idx
  pure (node.isDir, if node.isDir = true then 0 else node.size)

/-- `while (child != -1 && count < max_entries)` of `fs_ls`: the names, with a slash behind those of
directories, and the types. -/
def lsLoop : ℕ → Option Slot → M (List (Name × Bool))
  | 0, _ => pure []
  | _ + 1, none => pure []
  | k + 1, some child => do
    let node ← Exec.gets fun s => s.nodes child
    let rest ← lsLoop k node.nextSibling
    pure ((node.name.take FS_NAME_MAX ++ (if node.isDir then [47] else []), node.isDir) :: rest)

def ls (path : Option Path) (maxEntries : ℕ) : M (List (Name × Bool)) := do
  let dir ← resolvePath path
  let node ← Exec.gets fun s => s.nodes dir
  Exec.require (node.isDir = true)
  lsLoop maxEntries node.firstChild

/-- What `fs_rm` clears; the kind, the parent and the data stay. -/
def Node.freed (n : Node) : Node :=
  { n with used := false, firstChild := none, nextSibling := none, size := 0, name := [] }

def rm (path : Option Path) : M Unit := do
  let idx ← resolvePath path
  Exec.require (idx ≠ 0)
  let node ← Exec.gets fun s => s.nodes idx
  Exec.require (¬ (node.isDir = true ∧ node.firstChild ≠ none))
  unlinkNodeFromParent idx
  setNode idx Node.freed

def cd (path : Option Path) : M Unit := do
  let idx ← resolvePath path
  let node ← Exec.gets fun s => s.nodes idx
  Exec.require (node.isDir = true)
  Exec.modify fun s => { s with cwdNode := idx }

def cp (srcPath dstPath : Option Path) : M Unit := do
  let src ← resolvePath srcPath
  let node ← Exec.gets fun s => s.nodes src
  Exec.require (node.isDir = false)
  writeFile dstPath (some ((List.range FS_MAX_FILE_SIZE).map node.data.get)) node.size

/-- `while (p != -1)` of `fs_mv`: fail if `src` is on the way up. -/
def notBelowLoop (src : Slot) : ℕ → Option Slot → M Unit
  | _, none => pure ()
  | 0, some _ => Exec.hang
  | fuel + 1, some p => do
    Exec.require (p ≠ src)
    let node ← Exec.gets fun s => s.nodes p
    notBelowLoop src fuel node.parent

/-- A directory cannot go below itself. -/
def requireNotBelow (src dstParent : Slot) : M Unit := do
  let node ← Exec.gets fun s => s.nodes src
  if node.isDir = true then notBelowLoop src FS_MAX_NODES (some dstParent) else pure ()

def mv (srcPath dstPath : Option Path) : M Unit := do
  let src ← resolvePath srcPath
  Exec.require (src ≠ 0)
  let (dstParent, dstName) ← splitParentAndName dstPath
  let dst ← Exec.gets fun s => s.nodes dstParent
  Exec.require (dst.isDir = true)
  let existing ← findChild dstParent dstName
  Exec.require (existing = none)
  requireNotBelow src dstParent
  unlinkNodeFromParent src
  let first ← Exec.gets fun s => (s.nodes dstParent).firstChild
  setNode src fun n => { n with parent := some dstParent, nextSibling := first }
  setNode dstParent fun n => { n with firstChild := some src }
  setNode src fun n => { n with name := dstName }

/-- The operations that change the tree or the working directory. -/
inductive Op where
  | mkdir (path : Option Path)
  | touch (path : Option Path)
  | writeFile (path : Option Path) (data : Option (List UInt8)) (size : ℕ)
  | rm (path : Option Path)
  | cd (path : Option Path)
  | cp (src dst : Option Path)
  | mv (src dst : Option Path)

def Op.run : Op → M Unit
  | .mkdir path => Ramfs.mkdir path
  | .touch path => Ramfs.touch path
  | .writeFile path data size => Ramfs.writeFile path data size
  | .rm path => Ramfs.rm path
  | .cd path => Ramfs.cd path
  | .cp src dst => Ramfs.cp src dst
  | .mv src dst => Ramfs.mv src dst

end Tg11Kernel.Ramfs
