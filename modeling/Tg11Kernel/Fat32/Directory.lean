import Tg11Kernel.Fat32.Table
import Tg11Kernel.Lib.Preference

/-! Directories: 8.3 names, the fields of an entry, and the walks over a
directory's cluster chain. All walks share one loop, `walkChain`; they differ in
what they do at an entry, at the end mark and at an invalid cluster. -/

namespace Tg11Kernel.Fat32

open Lib

/-- A C string: the bytes before the terminating NUL. -/
abbrev Path := List UInt8

/-! ### Names -/

def upcase (c : UInt8) : UInt8 := if 97 ≤ c ∧ c ≤ 122 then c - 32 else c

/-- The loop of `fat32_name_to_83`, with the base and extension collected so far. -/
def nameTo83Loop : Path → Bool → List UInt8 → List UInt8 → Option (List UInt8 × List UInt8)
  | [], _, base, ext => some (base, ext)
  | ch :: name, inExt, base, ext =>
    let c := upcase ch
    if c = 47 ∨ c = 92 then none
    else if c = 46 then
      if inExt then none else nameTo83Loop name true base ext
    else if inExt = false then
      if base.length ≥ 8 then none else nameTo83Loop name inExt (base ++ [c]) ext
    else
      if ext.length ≥ 3 then none else nameTo83Loop name inExt base (ext ++ [c])

/-- Eight bytes of base and three of extension, padded with blanks. -/
def name83Of (base ext : List UInt8) : Name83 := fun i =>
  if i.val < 8 then base.getD i.val 32 else ext.getD (i.val - 8) 32

def nameTo83 (name : Path) : Option Name83 :=
  match nameTo83Loop name false [] [] with
  | some (base, ext) => if base.length = 0 then none else some (name83Of base ext)
  | none => none

/-! ### Entries -/

namespace Entry

def first (e : Entry) : UInt8 := e.get 0
def attr (e : Entry) : UInt8 := e.get 11
def name (e : Entry) : Name83 := e.slice 0 11
def size (e : Entry) : ℕ := rd32 e 28

/-- `entry_first_cluster` -/
def firstCluster (e : Entry) : ℕ := 2 ^ 16 * rd16 e 20 + rd16 e 26

/-- `entry_set_first_cluster` -/
def setFirstCluster (e : Entry) (cluster : ℕ) : Entry :=
  (((e.set 20 (byteOf cluster 2)).set 21 (byteOf cluster 3)).set 26 (byteOf cluster 0)).set 27
    (byteOf cluster 1)

def setSize (e : Entry) (size : ℕ) : Entry :=
  (((e.set 28 (byteOf size 0)).set 29 (byteOf size 1)).set 30 (byteOf size 2)).set 31 (byteOf size 3)

def setAttr (e : Entry) (attr : UInt8) : Entry := e.set 11 attr

def isDir (e : Entry) : Prop := e.attr &&& FAT32_ATTR_DIRECTORY ≠ 0

instance (e : Entry) : Decidable e.isDir := inferInstanceAs (Decidable (_ ≠ _))

/-- A zeroed entry with a name and an attribute byte. -/
def make (name83 : Name83) (attr : UInt8) : Entry := fun i =>
  if i.val < 11 then name83.get i.val else if i.val = 11 then attr else 0

/-- `entry_name_is_dot_or_dotdot`, whose first test decides all of them. -/
def nameIsDotOrDotdot (e : Entry) : Prop :=
  e.get 0 = 46 ∨ (e.get 0 = 46 ∧ e.get 1 = 46) ∨ (e.get 0 = 46 ∧ e.get 1 = 32 ∧ e.get 2 = 32) ∨
    (e.get 0 = 46 ∧ e.get 1 = 46 ∧ e.get 2 = 32)

instance (e : Entry) : Decidable e.nameIsDotOrDotdot := inferInstanceAs (Decidable (_ ∨ _ ∨ _ ∨ _))

end Entry

/-- The entry at byte `off` of a sector. -/
def entryAt (sec : Sector) (off : ℕ) : Entry := sec.slice off 32

/-- The entry of a sector replaced. -/
def putEntry (sec : Sector) (off : ℕ) (e : Entry) : Sector := sec.splice off e

/-- `for (off = 0; off < 512; off += 32)` -/
def entryOffsets : List ℕ := (List.range 16).map (32 * ·)

/-- `n` bytes from byte `i` of an entry, cut after the last one that is not blank. -/
def trimmed (e : Entry) (i n : ℕ) : List UInt8 :=
  (((List.range n).map fun j => e.get (i + j)).reverse.dropWhile (· = 32)).reverse

/-- `fat83_to_name` into a buffer no name overflows: the C string it leaves. -/
def fat83ToName (e : Entry) : List UInt8 :=
  let base := trimmed e 0 8
  let ext := trimmed e 8 3
  (if ext.length > 0 then base ++ [46] ++ ext else base).takeWhile (· ≠ 0)

/-! ### Walks -/

section Walk

variable {δ σ β : Type} (fs : Fat32State δ)

/-- What a walk does at one entry: its sector, its offset and its bytes. -/
abbrev EntryStep (σ β : Type) := σ → ℕ → ℕ → Entry → σ ⊕ β

def scanSector (step : EntryStep σ β) (lba : ℕ) (sec : Sector) (acc : σ) : σ ⊕ β :=
  foldUntil (fun acc off => step acc lba off (entryAt sec off)) acc entryOffsets

/-- Scan sectors one by one through the data cache. -/
def scanSectors (step : EntryStep σ β) : List ℕ → σ → M δ (σ ⊕ β)
  | [], acc => pure (.inl acc)
  | lba :: rest, acc => do
    let sec ← readSectorCached fs lba false
    match scanSector step lba sec acc with
    | .inl acc => scanSectors step rest acc
    | .inr b => pure (.inr b)

/-- `while (fat32_cluster_is_valid(cluster) && cluster < FAT32_EOC)`: scan the
cluster, then follow its link; `atEnd` runs at an end mark and `atExit` when the
loop test fails. -/
def walkChain (scan : ℕ → σ → M δ (σ ⊕ β)) (atEnd : ℕ → σ → M δ β) (atExit : σ → M δ β) :
    ℕ → ℕ → σ → M δ β
  | 0, cluster, acc => if inChain fs cluster then Exec.hang else atExit acc
  | fuel + 1, cluster, acc =>
    if inChain fs cluster then do
      match ← scan cluster acc with
      | .inr b => pure b
      | .inl acc => do
        let next ← nextCluster fs cluster
        if next ≥ FAT32_EOC then atEnd cluster acc else walkChain scan atEnd atExit fuel next acc
    else atExit acc

/-- Where a found entry is, and its bytes. -/
abbrev Found := ℕ × ℕ × Entry

def findStep (name83 : Name83) : EntryStep Unit (Option Found) := fun _ lba off e =>
  if e.first = 0x00 then .inr none
  else if e.first = 0xE5 then .inl ()
  else if e.attr = FAT32_ATTR_LFN then .inl ()
  else if e.name = name83 then .inr (some (lba, off, e))
  else .inl ()

def findEntryInDir (fuel dirCluster : ℕ) (name83 : Name83) : M δ Found := do
  let found ← walkChain fs (fun cluster => scanSectors fs (findStep name83) (clusterSectors fs cluster))
    (fun _ _ => Exec.fail) (fun _ => Exec.fail) fuel dirCluster ()
  Exec.ofOption found

def freeStep : EntryStep Unit (ℕ × ℕ) := fun _ lba off e =>
  if e.first = 0x00 ∨ e.first = 0xE5 then .inr (lba, off) else .inl ()

/-- A full directory grows by one zeroed cluster, whose first entry is used. -/
def growDir (fuel cluster : ℕ) : M δ (ℕ × ℕ) := do
  let newCluster ← allocCluster fs
  match ← (setClusterValue fs cluster newCluster).attempt with
  | some _ => pure (clusterToLba fs newCluster, 0)
  | none => do
    let _ ← (freeChain fs fuel newCluster).attempt
    Exec.fail

def findFreeEntryInDir (fuel dirCluster : ℕ) : M δ (ℕ × ℕ) :=
  walkChain fs (fun cluster => scanSectors fs freeStep (clusterSectors fs cluster))
    (fun cluster _ => growDir fs fuel cluster) (fun _ => Exec.fail) fuel dirCluster ()

/-- One listed name; a directory's ends in a slash. -/
def listedName (e : Entry) : List UInt8 :=
  if e.isDir then (fat83ToName e).take 38 ++ [47] else fat83ToName e

def lsStep (maxEntries : ℕ) : EntryStep (List (List UInt8)) (List (List UInt8)) := fun names _ _ e =>
  if e.first = 0x00 then .inr names
  else if e.first = 0xE5 then .inl names
  else if e.attr = FAT32_ATTR_LFN then .inl names
  else if e.nameIsDotOrDotdot then .inl names
  else if names.length + 1 ≥ maxEntries then .inr (names ++ [listedName e])
  else .inl (names ++ [listedName e])

/-- Batches need a device that reads runs of sectors. -/
def batchSize (w : Driver δ) : ℕ := if (fs.dev.bind (·.readSectors)).isSome then w.ioBatchSectors else 1

/-- `sectors_per_read` -/
def sectorsPerRead : M δ ℕ := Exec.gets (batchSize fs)

/-- `for (s = 0; s < fs.sectors_per_cluster; s += batch)` -/
def batchStarts (batch : ℕ) : List ℕ :=
  (List.range ((fs.sectorsPerCluster + batch - 1) / batch)).map (· * batch)

/-- `to_read` for the batch at `s`. -/
def toRead (batch s : ℕ) : ℕ := min (fs.sectorsPerCluster - s) batch

/-- Scan a cluster batch by batch through the scratch buffer. -/
def scanBatches (step : EntryStep σ β) (batch cluster : ℕ) : List ℕ → σ → M δ (σ ⊕ β)
  | [], acc => pure (.inl acc)
  | s :: rest, acc => do
    let lba := u32 (clusterToLba fs cluster + s)
    let buf ← readDataSectors fs lba (toRead fs batch s)
    match foldUntil (fun acc i => scanSector step (u32 (lba + i)) (buf.sector i) acc) acc
      (List.range (toRead fs batch s)) with
    | .inl acc => scanBatches step batch cluster rest acc
    | .inr b => pure (.inr b)

def lsDirCluster (fuel dirCluster maxEntries : ℕ) : M δ (List (List UInt8)) := do
  Exec.require (fs.mounted = true ∧ 0 < maxEntries)
  let batch ← sectorsPerRead fs
  walkChain fs (fun cluster => scanBatches fs (lsStep maxEntries) batch cluster (batchStarts fs batch))
    (fun _ names => pure names) (fun names => pure names) fuel dirCluster []

end Walk

/-! ### Paths -/

section Resolve

variable {δ : Type} (fs : Fat32State δ)

def isSep (c : UInt8) : Bool := c = 47 ∨ c = 92

/-- `path_next_part` with a 16-byte part buffer: the next component, empty at
the end of the path, and the rest. -/
def pathNextPart (path : Path) : Option (Path × Path) :=
  let p := path.dropWhile isSep
  let part := p.takeWhile fun c => !isSep c
  if part.length ≥ 16 then none else some (part, p.drop part.length)

def dotName : Path := [46]
def dotdotName : Path := [46, 46]

/-- The name `..` on disk. -/
def dotdot83 : Name83 := fun i => if i.val < 2 then 46 else 32

def getParentCluster (fuel dirCluster : ℕ) : M δ ℕ :=
  if dirCluster = fs.rootCluster then pure fs.rootCluster
  else do
    match ← (findEntryInDir fs fuel dirCluster dotdot83).attempt with
    | none => pure fs.rootCluster
    | some (_, _, entry) =>
      pure (if entry.firstCluster < 2 then fs.rootCluster else entry.firstCluster)

/-- Step from a directory into the directory named by one component. -/
def enterDir (fuel cur : ℕ) (part : Path) : M δ ℕ := do
  let name83 ← Exec.ofOption (nameTo83 part)
  let (_, _, entry) ← findEntryInDir fs fuel cur name83
  Exec.require entry.isDir
  Exec.require (2 ≤ entry.firstCluster)
  pure entry.firstCluster

/-- The loop of `fat32_resolve_dir_cluster`; each round takes at least one byte
of the path, so as many rounds as bytes and one more are enough. -/
def resolveDirLoop (fuel : ℕ) : ℕ → Path → ℕ → M δ ℕ
  | 0, _, _ => Exec.hang
  | n + 1, p, cur => do
    let (part, np) ← Exec.ofOption (pathNextPart p)
    if part = [] then pure cur
    else if part = dotName then resolveDirLoop fuel n np cur
    else if part = dotdotName then do
      let parent ← getParentCluster fs fuel cur
      resolveDirLoop fuel n np parent
    else do
      let cur ← enterDir fs fuel cur part
      resolveDirLoop fuel n np cur

def isRootPath (path : Option Path) : Bool := path = none ∨ path = some [] ∨ path = some [47]

def resolveDirCluster (fuel : ℕ) (path : Option Path) : M δ ℕ := do
  Exec.require (fs.mounted = true)
  if isRootPath path then pure fs.rootCluster
  else do
    let p ← Exec.ofOption path
    resolveDirLoop fs fuel (p.length + 1) p fs.rootCluster

/-- The loop of `fat32_resolve_parent_and_leaf`: the directory reached and the
last component, empty when there is none. -/
def resolveParentLoop (fuel : ℕ) : ℕ → Path → ℕ → M δ (ℕ × Path)
  | 0, _, _ => Exec.hang
  | n + 1, p, cur => do
    let (part, np) ← Exec.ofOption (pathNextPart p)
    if part = [] then pure (cur, [])
    else do
      let (check, _) ← Exec.ofOption (pathNextPart np)
      if check = [] then pure (cur, part)
      else if part = dotName then resolveParentLoop fuel n np cur
      else if part = dotdotName then do
        let parent ← getParentCluster fs fuel cur
        resolveParentLoop fuel n np parent
      else do
        let cur ← enterDir fs fuel cur part
        resolveParentLoop fuel n np cur

def resolveParentAndLeaf (fuel : ℕ) (path : Option Path) : M δ (ℕ × Name83) := do
  Exec.require (fs.mounted = true)
  let p ← Exec.ofOption path
  let (cur, last) ← resolveParentLoop fs fuel (p.length + 1) p fs.rootCluster
  Exec.require (last ≠ [] ∧ last ≠ dotName ∧ last ≠ dotdotName)
  let name83 ← Exec.ofOption (nameTo83 last)
  pure (cur, name83)

end Resolve

end Tg11Kernel.Fat32
