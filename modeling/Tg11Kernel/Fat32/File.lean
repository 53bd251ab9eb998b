import Tg11Kernel.Fat32.Directory

/-! The path operations of the driver: read, list, stat, touch, write, make a
directory, remove, and the attribute byte. Every error path sets the error text
the driver sets there. -/

namespace Tg11Kernel.Fat32

open Lib

variable {δ : Type} (fs : Fat32State δ)

/-! ### The target of a path operation -/

/-- The common start of the operations: check the arguments, then walk the path
to the directory of its last component. -/
def resolveTarget (fuel : ℕ) (path : Option Path) (argsOk : Bool) (invalidMsg resolveMsg : String) :
    M δ (ℕ × Name83) := do
  clearError
  orError (Exec.require (fs.mounted = true ∧ path.isSome = true ∧ argsOk = true)) invalidMsg
  orError (resolveParentAndLeaf fs fuel path) resolveMsg

/-- The same, followed by the lookup of the last component. -/
def lookupTarget (fuel : ℕ) (path : Option Path) (invalidMsg resolveMsg missingMsg : String) : M δ Found := do
  let (parent, name83) ← resolveTarget fs fuel path true invalidMsg resolveMsg
  orError (findEntryInDir fs fuel parent name83) missingMsg

/-! ### Reading -/

/-- The bytes of a sector. -/
def Sector.toList (sec : Sector) : List UInt8 := (List.range 512).map sec.get

theorem length_toList (sec : Sector) : (Sector.toList sec).length = 512 := by
  simp [Sector.toList]

/-- The sectors of one batch: bytes are taken until the file's size is reached. -/
def takeSectors (fileSize : ℕ) (buf : Buffer) (is : List ℕ) (written : List UInt8) : List UInt8 :=
  is.foldl (fun written i => written ++ (Sector.toList (buf.sector i)).take (fileSize - written.length)) written

/-- The batches of one cluster, while bytes are missing. -/
def readBatches (fileSize batch cluster : ℕ) : List ℕ → List UInt8 → M δ (List UInt8)
  | [], written => pure written
  | s :: rest, written =>
    if written.length < fileSize then do
      let buf ← readDataSectors fs (u32 (clusterToLba fs cluster + s)) (toRead fs batch s)
      readBatches fileSize batch cluster rest
        (takeSectors fileSize buf (List.range (toRead fs batch s)) written)
    else pure written

/-- `while (cur >= 2 && cur < FAT32_EOC && written < file_size)`: the bytes read. -/
def readClusters (fileSize batch : ℕ) : ℕ → ℕ → List UInt8 → M δ (List UInt8)
  | 0, cur, written =>
    if 2 ≤ cur ∧ cur < FAT32_EOC ∧ written.length < fileSize then Exec.hang else pure written
  | fuel + 1, cur, written =>
    if 2 ≤ cur ∧ cur < FAT32_EOC ∧ written.length < fileSize then do
      let written ← readBatches fs fileSize batch cur (batchStarts fs batch) written
      if written.length ≥ fileSize then pure written
      else do
        let next ← nextCluster fs cur
        if next ≥ FAT32_EOC then pure written else readClusters fileSize batch fuel next written
    else pure written

/-- What a read leaves: `*out_size`, and the bytes stored in the caller's buffer. -/
structure ReadResult where
  outSize : ℕ
  outData : List UInt8
  deriving DecidableEq

def readFileEntry (fuel : ℕ) (entry : Entry) (outCapacity : ℕ) : M δ ReadResult := do
  Exec.require (¬ entry.isDir)
  if entry.firstCluster < 2 then pure ⟨0, []⟩
  else do
    let batch ← sectorsPerRead fs
    let written ← readClusters fs entry.size batch fuel entry.firstCluster []
    pure ⟨min entry.size outCapacity, written.take outCapacity⟩

def lsPath (fuel : ℕ) (path : Option Path) (maxEntries : ℕ) : M δ (List (List UInt8)) := do
  let dirCluster ← resolveDirCluster fs fuel path
  lsDirCluster fs fuel dirCluster maxEntries

def readFilePath (fuel : ℕ) (path : Option Path) (outCapacity : ℕ) : M δ ReadResult := do
  let (_, _, entry) ← lookupTarget fs fuel path "read: invalid arguments or unmounted"
    "read: path resolution failed" "read: file not found"
  let result ← orError (readFileEntry fs fuel entry outCapacity) "read: file data read failed"
  clearError
  pure result

/-- `*out_is_dir` and `*out_size`. -/
structure StatResult where
  isDir : Bool
  size : ℕ
  deriving DecidableEq

def statPath (fuel : ℕ) (path : Option Path) : M δ StatResult := do
  Exec.require (fs.mounted = true)
  if isRootPath path then pure ⟨true, 0⟩
  else do
    match ← (resolveDirCluster fs fuel path).attempt with
    | some _ => pure ⟨true, 0⟩
    | none => do
      let (parent, name83) ← resolveParentAndLeaf fs fuel path
      let (_, _, entry) ← findEntryInDir fs fuel parent name83
      pure (if entry.isDir then ⟨true, 0⟩ else ⟨false, entry.size⟩)

def countFree : ℕ → ℕ → M δ ℕ
  | 0, _ => pure 0
  | n + 1, c => do
    let next ← nextCluster fs c
    let rest ← countFree n (c + 1)
    pure (rest + if next = 0 then 1 else 0)

def getFreeBytes : M δ ℕ := do
  Exec.require (fs.mounted = true)
  let freeClusters ← countFree fs (fs.maxDataCluster - 1) 2
  pure (freeClusters * (fs.sectorsPerCluster * fs.bytesPerSector))

/-! ### Creating and writing -/

/-- Read, change and write back the entry at an offset of a sector. -/
def updateEntry (lba off : ℕ) (f : Entry → Entry) (readMsg writeMsg : String) : M δ Unit := do
  let sec ← orError (readSectorCached fs lba false) readMsg
  orError (writeSectorUncached fs lba (putEntry sec off (f (entryAt sec off)))) writeMsg

def touchFilePath (fuel : ℕ) (path : Option Path) : M δ Unit := do
  let (parent, name83) ← resolveTarget fs fuel path true "touch: invalid arguments or unmounted"
    "touch: path resolution failed"
  match ← (findEntryInDir fs fuel parent name83).attempt with
  | some (_, _, entry) =>
    if entry.isDir then failWith "touch: target is a directory" else clearError
  | none => do
    let (entryLba, entryOff) ← orError (findFreeEntryInDir fs fuel parent) "touch: no free directory entry"
    updateEntry fs entryLba entryOff (fun _ => Entry.make name83 0x20)
      "touch: read directory sector failed" "touch: write directory sector failed"
    clearError

/-- `if (first_cluster >= 2) fat32_free_chain(first_cluster);`, then the error. -/
def rollback {α : Type} (fuel firstCluster : ℕ) (msg : String) : M δ α := do
  if 2 ≤ firstCluster then do
    let _ ← (freeChain fs fuel firstCluster).attempt
    failWith msg
  else failWith msg

def noClusterMsg : String := "write: no free cluster or FAT write error"

/-- Allocate and link `n` more clusters; returns the first and the last one. -/
def allocChain (fuel : ℕ) : ℕ → ℕ → ℕ → M δ (ℕ × ℕ)
  | 0, firstCluster, prevCluster => pure (firstCluster, prevCluster)
  | n + 1, firstCluster, prevCluster => do
    match ← (allocCluster fs).attempt with
    | none => rollback fs fuel firstCluster noClusterMsg
    | some curCluster => do
      let firstCluster := if firstCluster = 0 then curCluster else firstCluster
      if 2 ≤ prevCluster then do
        match ← (setClusterValue fs prevCluster curCluster).attempt with
        | none => rollback fs fuel firstCluster "write: failed to link cluster chain"
        | some _ => allocChain fuel n firstCluster curCluster
      else allocChain fuel n firstCluster curCluster

/-- The next 512 bytes of data, padded with zeros. -/
def padSector (rest : List UInt8) : Sector := fun i => rest.getD i.val 0

/-- `for (s = 0; s < fs.sectors_per_cluster && written < size; s++)`: the data
not yet written. -/
def writeSectors : List ℕ → List UInt8 → M δ (List UInt8)
  | [], rest => pure rest
  | lba :: lbas, rest =>
    if rest = [] then pure []
    else do
      orError (writeSectorUncached fs lba (padSector rest)) "write: sector write failed"
      writeSectors lbas (rest.drop 512)

/-- `while (cur_cluster >= 2 && written < size)` -/
def writeClusters : ℕ → ℕ → List UInt8 → M δ Unit
  | 0, cur, rest => if 2 ≤ cur ∧ rest ≠ [] then Exec.hang else pure ()
  | fuel + 1, cur, rest =>
    if 2 ≤ cur ∧ rest ≠ [] then do
      let rest ← writeSectors fs (clusterSectors fs cur) rest
      if rest = [] then pure ()
      else do
        let next ← orError (nextCluster fs cur) "write: failed to advance cluster chain"
        if next ≥ FAT32_EOC then pure () else writeClusters fuel next rest
    else pure ()

def neededClusters (size : ℕ) : ℕ :=
  if size = 0 then 0
  else u32 ((size + fs.sectorsPerCluster * 512 - 1) / (fs.sectorsPerCluster * 512))

/-- Look the target up, creating it when it is missing. -/
def findOrCreate (fuel : ℕ) (path : Option Path) (parent : ℕ) (name83 : Name83) : M δ Found := do
  match ← (findEntryInDir fs fuel parent name83).attempt with
  | some found => pure found
  | none => do
    match ← (touchFilePath fs fuel path).attempt with
    | some _ => orError (findEntryInDir fs fuel parent name83) "write: lookup after create failed"
    | none => do
      let text ← Exec.gets (·.lastError)
      if text = "" then failWith "write: create target entry failed" else Exec.fail

/-- Free the chain the target had. -/
def freeOldChain (fuel oldFirst : ℕ) : M δ Unit :=
  if 2 ≤ oldFirst then orError (freeChain fs fuel oldFirst) "write: failed to free previous data chain"
  else pure ()

/-- Put the end mark on the last allocated cluster. -/
def endChain (fuel firstCluster prevCluster : ℕ) : M δ Unit := do
  if 2 ≤ prevCluster then
    match ← (setClusterValue fs prevCluster 0x0FFFFFFF).attempt with
    | none => rollback fs fuel firstCluster "write: failed to terminate cluster chain"
    | some _ => pure ()
  else pure ()

/-- The target's entry once its data is written. -/
def writtenEntry (firstCluster size : ℕ) (e : Entry) : Entry :=
  ((e.setAttr 0x20).setFirstCluster firstCluster).setSize size

/-- Replace the target's data: free the old chain, build the new one, fill it,
and update the entry. -/
def replaceData (fuel : ℕ) (found : Found) (data : List UInt8) : M δ Unit := do
  freeOldChain fs fuel found.2.2.firstCluster
  let (firstCluster, prevCluster) ← allocChain fs fuel (neededClusters fs data.length) 0 0
  endChain fs fuel firstCluster prevCluster
  writeClusters fs fuel firstCluster data
  updateEntry fs found.1 found.2.1 (writtenEntry firstCluster data.length)
    "write: read directory entry sector failed" "write: update directory entry failed"

/-- `fat32_write_file_path(path, data, size)` with `size` the length of the data. -/
def writeFilePath (fuel : ℕ) (path : Option Path) (data : Option (List UInt8)) : M δ Unit := do
  let (parent, name83) ← resolveTarget fs fuel path data.isSome "write: invalid arguments or unmounted"
    "write: path resolution failed"
  let found ← findOrCreate fs fuel path parent name83
  if found.2.2.isDir then failWith "write: target is a directory"
  else do
    replaceData fs fuel found (data.getD [])
    clearError

/-! ### Directories, removal, attributes -/

/-- `fat32_free_chain(cluster); fat32_set_error(msg); return -1;` when `m` fails. -/
def orFree {α : Type} (fuel cluster : ℕ) (m : M δ α) (msg : String) : M δ α :=
  m.orElse do
    let _ ← (freeChain fs fuel cluster).attempt
    setError msg

def zeroDirSectors (fuel cluster : ℕ) : List ℕ → M δ Unit
  | [] => pure ()
  | lba :: rest => do
    orFree fs fuel cluster (writeSectorUncached fs lba Block.zero) "mkdir: zeroing directory cluster failed"
    zeroDirSectors fuel cluster rest

/-- The name `.` on disk. -/
def dot83 : Name83 := fun i => if i.val < 1 then 46 else 32

/-- The first sector of a new directory. -/
def dotSector (sec : Sector) (cluster parent : ℕ) : Sector :=
  putEntry (putEntry sec 0 ((Entry.make dot83 FAT32_ATTR_DIRECTORY).setFirstCluster cluster)) 32
    ((Entry.make dotdot83 FAT32_ATTR_DIRECTORY).setFirstCluster parent)

def mkdirPath (fuel : ℕ) (path : Option Path) : M δ Unit := do
  let (parent, name83) ← resolveTarget fs fuel path true "mkdir: invalid arguments or unmounted"
    "mkdir: path resolution failed"
  match ← (findEntryInDir fs fuel parent name83).attempt with
  | some _ => failWith "mkdir: target already exists"
  | none => do
    let (entryLba, entryOff) ← orError (findFreeEntryInDir fs fuel parent) "mkdir: no free directory entry"
    let cluster ← orError (allocCluster fs) "mkdir: no free cluster or FAT write error"
    zeroDirSectors fs fuel cluster (clusterSectors fs cluster)
    let lba := clusterToLba fs cluster
    let sec ← orFree fs fuel cluster (readSectorCached fs lba false)
      "mkdir: read new directory cluster failed"
    orFree fs fuel cluster (writeSectorUncached fs lba (dotSector sec cluster parent))
      "mkdir: write dot entries failed"
    let sec ← orFree fs fuel cluster (readSectorCached fs entryLba false)
      "mkdir: read parent directory sector failed"
    orFree fs fuel cluster (writeSectorUncached fs entryLba
      (putEntry sec entryOff ((Entry.make name83 FAT32_ATTR_DIRECTORY).setFirstCluster cluster)))
      "mkdir: write parent directory entry failed"
    clearError

/-- Free what the entry to remove owns. -/
def freeTarget (fuel : ℕ) (entry : Entry) : M δ Unit := do
  if entry.isDir then do
    orError (Exec.require (2 ≤ entry.firstCluster)) "remove: invalid directory cluster"
    let names ← orError (lsDirCluster fs fuel entry.firstCluster 2) "remove: cannot enumerate directory"
    orError (Exec.require (names.length = 0)) "remove: directory not empty"
    orError (freeChain fs fuel entry.firstCluster) "remove: failed to free directory chain"
  else if 2 ≤ entry.firstCluster then
    orError (freeChain fs fuel entry.firstCluster) "remove: failed to free file chain"
  else pure ()

def removePath (fuel : ℕ) (path : Option Path) : M δ Unit := do
  let (entryLba, entryOff, entry) ← lookupTarget fs fuel path "remove: invalid arguments or unmounted"
    "remove: path resolution failed" "remove: target not found"
  freeTarget fs fuel entry
  updateEntry fs entryLba entryOff (fun e => e.set 0 0xE5)
    "remove: read directory sector failed" "remove: write directory sector failed"
  clearError

def getAttrPath (fuel : ℕ) (path : Option Path) : M δ UInt8 := do
  let (_, _, entry) ← lookupTarget fs fuel path "attr: invalid arguments or unmounted"
    "attr: path resolution failed" "attr: target not found"
  clearError
  pure entry.attr

/-- The attribute byte after setting and clearing bits; the directory and
volume-label bits keep their old value. -/
def newAttr (oldAttr setMask clearMask : UInt8) : UInt8 :=
  let attr := (oldAttr ||| setMask) &&& ~~~clearMask
  (attr &&& ~~~(FAT32_ATTR_DIRECTORY ||| 0x08)) ||| (oldAttr &&& (FAT32_ATTR_DIRECTORY ||| 0x08))

def setAttrPath (fuel : ℕ) (path : Option Path) (setMask clearMask : UInt8) : M δ UInt8 := do
  let (entryLba, entryOff, entry) ← lookupTarget fs fuel path "attr: invalid arguments or unmounted"
    "attr: path resolution failed" "attr: target not found"
  let attr := newAttr entry.attr setMask clearMask
  if attr &&& 0x0F = FAT32_ATTR_LFN then failWith "attr: invalid attribute combination"
  else do
    updateEntry fs entryLba entryOff (fun e => e.setAttr attr)
      "attr: read directory sector failed" "attr: write directory sector failed"
    clearError
    pure attr

/-! ### The operations as data -/

/-- A call of the driver's path interface. -/
inductive PathOp where
  | ls (path : Option Path) (maxEntries : ℕ)
  | read (path : Option Path) (outCapacity : ℕ)
  | stat (path : Option Path)
  | touch (path : Option Path)
  | write (path : Option Path) (data : Option (List UInt8))
  | mkdir (path : Option Path)
  | remove (path : Option Path)
  | getAttr (path : Option Path)
  | setAttr (path : Option Path) (setMask clearMask : UInt8)
  | freeBytes

/-- What a call hands back when it returns 0. -/
inductive OpResult where
  | names (l : List (List UInt8))
  | data (r : ReadResult)
  | stat (r : StatResult)
  | attr (a : UInt8)
  | bytes (n : ℕ)
  | done
  deriving DecidableEq

def PathOp.run (fuel : ℕ) : PathOp → M δ OpResult
  | .ls path maxEntries => do pure (.names (← lsPath fs fuel path maxEntries))
  | .read path outCapacity => do pure (.data (← readFilePath fs fuel path outCapacity))
  | .stat path => do pure (.stat (← statPath fs fuel path))
  | .touch path => do
    touchFilePath fs fuel path
    pure .done
  | .write path data => do
    writeFilePath fs fuel path data
    pure .done
  | .mkdir path => do
    mkdirPath fs fuel path
    pure .done
  | .remove path => do
    removePath fs fuel path
    pure .done
  | .getAttr path => do pure (.attr (← getAttrPath fs fuel path))
  | .setAttr path setMask clearMask => do pure (.attr (← setAttrPath fs fuel path setMask clearMask))
  | .freeBytes => do pure (.bytes (← getFreeBytes fs))

end Tg11Kernel.Fat32
