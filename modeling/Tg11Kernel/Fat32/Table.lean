import Tg11Kernel.Fat32.Device

/-! The file allocation table: reading and writing one entry, freeing a chain
and allocating a cluster. A table on disk may link a chain into a cycle, so a
loop along a chain takes fuel: the number of clusters it may step through. -/

namespace Tg11Kernel.Fat32

open Lib

variable {δ : Type} (fs : Fat32State δ)

def clusterToLba (cluster : ℕ) : ℕ :=
  u32 (fs.dataStartLba + (cluster + (2 ^ 32 - 2)) % 2 ^ 32 * fs.sectorsPerCluster)

def clusterIsValid (cluster : ℕ) : Prop :=
  2 ≤ cluster ∧ fs.dataClusters ≠ 0 ∧ cluster ≤ fs.maxDataCluster

instance (cluster : ℕ) : Decidable (clusterIsValid fs cluster) :=
  inferInstanceAs (Decidable (_ ∧ _ ∧ _))

/-- The loop test `fat32_cluster_is_valid(cluster) && cluster < FAT32_EOC`. -/
def inChain (cluster : ℕ) : Prop := clusterIsValid fs cluster ∧ cluster < FAT32_EOC

instance (cluster : ℕ) : Decidable (inChain fs cluster) := inferInstanceAs (Decidable (_ ∧ _))

/-- A link that is neither a special value, nor an end mark, nor a valid cluster. -/
def badLink (value : ℕ) : Prop := 2 ≤ value ∧ value < FAT32_EOC ∧ ¬ clusterIsValid fs value

instance (value : ℕ) : Decidable (badLink fs value) := inferInstanceAs (Decidable (_ ∧ _ ∧ _))

theorem valid_of_not_badLink {fs : Fat32State δ} {value : ℕ} (h : ¬ badLink fs value) (hlt : value < FAT32_EOC) :
    value < 2 ∨ clusterIsValid fs value := by
  by_cases h2 : value < 2
  · exact .inl h2
  · exact .inr (by_contra fun hv => h ⟨by omega, hlt, hv⟩)

def fatOffset (cluster : ℕ) : ℕ := u32 (cluster * 4)

/-- The sector of table copy `k` that holds the cluster's entry. -/
def fatSector (k cluster : ℕ) : ℕ :=
  u32 (fs.fatStartLba + k * fs.sectorsPerFat + fatOffset cluster / fs.bytesPerSector)

def entOff (cluster : ℕ) : ℕ := fatOffset cluster % fs.bytesPerSector

def nextCluster (cluster : ℕ) : M δ ℕ := do
  Exec.require (clusterIsValid fs cluster)
  let sec ← readSectorCached fs (fatSector fs 0 cluster) true
  Exec.require (entOff fs cluster ≤ fs.bytesPerSector - 4)
  let value := rd32 sec (entOff fs cluster) % 2 ^ 28
  Exec.require (¬ badLink fs value)
  pure value

/-- Store a 28-bit link; the entry keeps its top four bits. -/
def putLink (sec : Sector) (off value : ℕ) : Sector :=
  (((sec.set off (byteOf value 0)).set (off + 1) (byteOf value 1)).set (off + 2) (byteOf value 2)).set
    (off + 3) ((sec.get (off + 3) &&& 0xF0) ||| (byteOf value 3 &&& 0x0F))

/-- `for (; fat_index < fs.fat_count; fat_index++)` with `n` iterations left. -/
def setEachCopy (cluster value : ℕ) : ℕ → ℕ → M δ Unit
  | 0, _ => pure ()
  | n + 1, k => do
    let sec ← readSectorCached fs (fatSector fs k cluster) true
    writeSectorUncached fs (fatSector fs k cluster) (putLink sec (entOff fs cluster) value)
    setEachCopy cluster value n (k + 1)

def setClusterValue (cluster value : ℕ) : M δ Unit := do
  Exec.require (clusterIsValid fs cluster)
  Exec.require (¬ badLink fs value)
  Exec.require (entOff fs cluster ≤ fs.bytesPerSector - 4)
  setEachCopy fs cluster value fs.fatCount 0

/-- A freed cluster below the hint becomes the hint. -/
def lowerHint (cluster : ℕ) : M δ Unit := Exec.modify fun w =>
  if ¬ clusterIsValid fs w.allocHintCluster ∨ cluster < w.allocHintCluster then
    { w with allocHintCluster := cluster }
  else w

def freeChain : ℕ → ℕ → M δ Unit
  | 0, cur => if inChain fs cur then Exec.hang else pure ()
  | fuel + 1, cur =>
    if inChain fs cur then do
      let next ← nextCluster fs cur
      setClusterValue fs cur 0
      lowerHint fs cur
      if next ≥ FAT32_EOC then pure () else freeChain fuel next
    else pure ()

/-- The sectors of a cluster, in order. -/
def clusterSectors (cluster : ℕ) : List ℕ :=
  (List.range fs.sectorsPerCluster).map fun s => u32 (clusterToLba fs cluster + s)

def zeroSectors : List ℕ → M δ Unit
  | [] => pure ()
  | lba :: rest => do
    writeSectorUncached fs lba Block.zero
    zeroSectors rest

/-- Take a free cluster: end mark, zeroed sectors, hint past it. -/
def claimCluster (c : ℕ) : M δ Unit := do
  setClusterValue fs c 0x0FFFFFFF
  zeroSectors fs (clusterSectors fs c)
  Exec.modify fun w =>
    { w with allocHintCluster := if c < fs.maxDataCluster then c + 1 else 2 }

/-- Claim the first free cluster among `c, c + 1, …` (`n` of them). -/
def allocScan : ℕ → ℕ → M δ (Option ℕ)
  | 0, _ => pure none
  | n + 1, c => do
    let val ← nextCluster fs c
    if val = 0 then do
      claimCluster fs c
      pure (some c)
    else allocScan n (c + 1)

def allocCluster : M δ ℕ := do
  let hint ← Exec.gets (·.allocHintCluster)
  let start := if clusterIsValid fs hint then hint else 2
  match ← allocScan fs (fs.maxDataCluster + 1 - start) start with
  | some c => pure c
  | none =>
    match ← allocScan fs (start - 2) 2 with
    | some c => pure c
    | none => Exec.fail

end Tg11Kernel.Fat32
