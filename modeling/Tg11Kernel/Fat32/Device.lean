import Tg11Kernel.Lib.Exec
import Tg11Kernel.Lib.Bytes

/-! The FAT32 driver's state and its three ways to the disk: single sectors
through one of two aged caches, runs of sectors past the caches, and writes that
flush both caches. The block device is a set of function pointers over its own
state `δ`, the medium. Sector numbers and cluster numbers are natural numbers,
reduced modulo 2³² where the driver computes them. -/

namespace Tg11Kernel.Fat32

open Lib

abbrev Sector := Block 512

/-- One 32-byte directory entry. -/
abbrev Entry := Block 32

/-- A name in the on-disk 8.3 form. -/
abbrev Name83 := Block 11

/-- Multi-sector scratch memory, by byte offset. -/
abbrev Buffer := ℕ → UInt8

def FAT32_ATTR_DIRECTORY : UInt8 := 0x10
def FAT32_ATTR_LFN : UInt8 := 0x0F
def FAT32_EOC : ℕ := 0x0FFFFFF8
def FAT32_MAX_IO_BATCH_SECTORS : ℕ := 32
def FAT32_DEFAULT_IO_BATCH_SECTORS : ℕ := 4
def FAT32_DATA_CACHE_SLOTS : ℕ := 8
def FAT32_FAT_CACHE_SLOTS : ℕ := 8

/-- Unsigned 32-bit arithmetic keeps the low 32 bits. -/
def u32 (n : ℕ) : ℕ := n % 2 ^ 32

theorem u32_add (a b : ℕ) : u32 (u32 a + b) = u32 (a + b) := by
  rw [u32, u32, u32, Nat.mod_add_mod]

/-- The function pointers of `struct block_device`; a null pointer is `none`. -/
structure BlockDevice (δ : Type) where
  present : Bool
  readSector : Option (ℕ → δ → Option Sector × δ)
  writeSector : Option (ℕ → Sector → δ → Bool × δ)
  readSectors : Option (ℕ → ℕ → δ → Option Buffer × δ)

/-- `struct fat32_state` without its allocation hint, the one field that changes
while a volume is mounted. -/
structure Fat32State (δ : Type) where
  mounted : Bool
  dev : Option (BlockDevice δ)
  startLba : ℕ
  bytesPerSector : ℕ
  sectorsPerCluster : ℕ
  reservedSectors : ℕ
  fatCount : ℕ
  sectorsPerFat : ℕ
  rootCluster : ℕ
  fatStartLba : ℕ
  dataStartLba : ℕ
  totalSectors : ℕ
  dataClusters : ℕ
  maxDataCluster : ℕ

structure CacheEntry where
  valid : Bool
  lba : ℕ
  age : ℕ
  data : Sector

/-- The driver's variables besides the mounted volume, and the medium. -/
structure Driver (δ : Type) where
  allocHintCluster : ℕ
  lastError : String
  ioBatchSectors : ℕ
  dataCacheEnabled : Bool
  fatCacheEnabled : Bool
  cacheAgeCounter : ℕ
  dataCache : List CacheEntry
  fatCache : List CacheEntry
  media : δ

/-- Driver code: `fail` is a return of -1. -/
abbrev M (δ : Type) := Exec (Driver δ)

variable {δ : Type}

/-! ### Error text -/

/-- Every message of the driver is shorter than the 96-byte error buffer. -/
def setError (msg : String) : M δ Unit := Exec.modify fun w => { w with lastError := msg }

def clearError : M δ Unit := setError ""

/-- `if (m() != 0) { fat32_set_error(msg); return -1; }` -/
def orError {α : Type} (m : M δ α) (msg : String) : M δ α := m.orElse (setError msg)

/-- `fat32_set_error(msg); return -1;` -/
def failWith {α : Type} (msg : String) : M δ α := do
  setError msg
  Exec.fail

/-! ### Sector caches -/

def cacheClear (cache : List CacheEntry) : List CacheEntry :=
  cache.map fun e => { e with valid := false, lba := 0, age := 0 }

def Driver.flush (w : Driver δ) : Driver δ :=
  { w with dataCache := cacheClear w.dataCache, fatCache := cacheClear w.fatCache, cacheAgeCounter := 1 }

def flushCache : M δ Unit := Exec.modify Driver.flush

/-- The slot to overwrite: the first invalid one, otherwise the oldest. -/
def victimFrom : List CacheEntry → ℕ → ℕ → ℕ → ℕ
  | [], _, slot, _ => slot
  | e :: es, i, slot, minAge =>
    if e.valid = false then i
    else if e.age < minAge then victimFrom es (i + 1) i e.age
    else victimFrom es (i + 1) slot minAge

def cacheStore (cache : List CacheEntry) (age lba : ℕ) (sec : Sector) : List CacheEntry :=
  cache.set (victimFrom cache 0 0 0xFFFFFFFF) ⟨true, lba, age, sec⟩

/-- The first valid slot that holds `lba`, with its age renewed. -/
def cacheLookup (age lba : ℕ) : List CacheEntry → Option (Sector × List CacheEntry)
  | [] => none
  | e :: es =>
    if e.valid = true ∧ e.lba = lba then some (e.data, { e with age := age } :: es)
    else (cacheLookup age lba es).map fun r => (r.1, e :: r.2)

def Driver.cache (w : Driver δ) (useFatCache : Bool) : List CacheEntry :=
  if useFatCache then w.fatCache else w.dataCache

def Driver.cacheEnabled (w : Driver δ) (useFatCache : Bool) : Bool :=
  if useFatCache then w.fatCacheEnabled else w.dataCacheEnabled

/-- Replace one cache and count one use. -/
def Driver.setCache (w : Driver δ) (useFatCache : Bool) (cache : List CacheEntry) : Driver δ :=
  if useFatCache then { w with fatCache := cache, cacheAgeCounter := u32 (w.cacheAgeCounter + 1) }
  else { w with dataCache := cache, cacheAgeCounter := u32 (w.cacheAgeCounter + 1) }

/-- The driver's variables at boot. -/
def initialDriver (media : δ) : Driver δ :=
  { allocHintCluster := 0
    lastError := ""
    ioBatchSectors := FAT32_DEFAULT_IO_BATCH_SECTORS
    dataCacheEnabled := true
    fatCacheEnabled := true
    cacheAgeCounter := 1
    dataCache := List.replicate FAT32_DATA_CACHE_SLOTS ⟨false, 0, 0, Block.zero⟩
    fatCache := List.replicate FAT32_FAT_CACHE_SLOTS ⟨false, 0, 0, Block.zero⟩
    media := media }

/-- Look `lba` up in the chosen cache, when it is enabled. -/
def lookupCached (lba : ℕ) (useFatCache : Bool) : M δ (Option Sector) := fun w =>
  if w.cacheEnabled useFatCache then
    match cacheLookup w.cacheAgeCounter lba (w.cache useFatCache) with
    | some (sec, cache) => (.ok (some sec), w.setCache useFatCache cache)
    | none => (.ok none, w)
  else (.ok none, w)

/-- Remember a sector in the chosen cache, when it is enabled. -/
def storeCached (lba : ℕ) (useFatCache : Bool) (sec : Sector) : M δ Unit := Exec.modify fun w =>
  if w.cacheEnabled useFatCache then
    w.setCache useFatCache (cacheStore (w.cache useFatCache) w.cacheAgeCounter lba sec)
  else w

/-- Every valid slot satisfies `p`. -/
def CacheAll (p : ℕ → Sector → Prop) (cache : List CacheEntry) : Prop :=
  ∀ e ∈ cache, e.valid = true → p e.lba e.data

section CacheAll

variable {p : ℕ → Sector → Prop} {cache : List CacheEntry}

theorem CacheAll.mono {q : ℕ → Sector → Prop} (h : CacheAll p cache) (hpq : ∀ lba sec, p lba sec → q lba sec) :
    CacheAll q cache := fun e he hv => hpq _ _ (h e he hv)

theorem cacheAll_clear (p : ℕ → Sector → Prop) (cache : List CacheEntry) : CacheAll p (cacheClear cache) := by
  intro e he hv
  obtain ⟨e', -, rfl⟩ := List.mem_map.1 he
  simp at hv

theorem cacheAll_store (h : CacheAll p cache) (age : ℕ) {lba : ℕ} {sec : Sector} (hp : p lba sec) :
    CacheAll p (cacheStore cache age lba sec) := by
  intro e he hv
  rcases List.mem_or_eq_of_mem_set he with he | rfl
  · exact h e he hv
  · exact hp

theorem cacheAll_lookup (h : CacheAll p cache) {age lba : ℕ} {r : Sector × List CacheEntry}
    (hr : cacheLookup age lba cache = some r) : p lba r.1 ∧ CacheAll p r.2 := by
  induction cache generalizing r with
  | nil => simp [cacheLookup] at hr
  | cons e es ih =>
    have hes : CacheAll p es := fun e' he' => h e' (by simp [he'])
    rw [cacheLookup] at hr
    split at hr
    · rename_i hit
      obtain rfl : _ = r := by simpa using hr
      have he := h e (by simp) hit.1
      refine ⟨hit.2 ▸ he, fun e' he' hv => ?_⟩
      rcases List.mem_cons.1 he' with rfl | he'
      · exact he
      · exact hes e' he' hv
    · obtain ⟨r', hr', rfl⟩ := Option.map_eq_some_iff.1 hr
      obtain ⟨h1, h2⟩ := ih hes hr'
      refine ⟨h1, fun e' he' hv => ?_⟩
      rcases List.mem_cons.1 he' with rfl | he'
      · exact h e' (by simp) hv
      · exact h2 e' he' hv

theorem cacheAll_setCache {w : Driver δ} (h : ∀ b, CacheAll p (w.cache b)) (useFat : Bool)
    (hc : CacheAll p cache) (b : Bool) : CacheAll p ((w.setCache useFat cache).cache b) := by
  have hd := h false
  have hf := h true
  cases useFat <;> cases b <;> first | exact hc | exact hd | exact hf

theorem cacheAll_initialDriver (p : ℕ → Sector → Prop) (media : δ) (b : Bool) :
    CacheAll p ((initialDriver media).cache b) := by
  intro e he hv
  have hinv : e.valid = false := by
    cases b <;> rw [List.eq_of_mem_replicate he]
  rw [hinv] at hv
  simp at hv

end CacheAll

/-! ### Device access -/

/-- Call a read function of the device. -/
def deviceRead {α : Type} (read : δ → Option α × δ) : M δ α := fun w =>
  match read w.media with
  | (some a, d) => (.ok a, { w with media := d })
  | (none, d) => (.fail, { w with media := d })

/-- Call a write function of the device. -/
def deviceWrite (write : δ → Bool × δ) : M δ Unit := fun w =>
  match write w.media with
  | (true, d) => (.ok (), { w with media := d })
  | (false, d) => (.fail, { w with media := d })

theorem deviceRead_apply {α : Type} (read : δ → Option α × δ) (w : Driver δ) :
    deviceRead read w = ((read w.media).1.elim .fail .ok, { w with media := (read w.media).2 }) := by
  rw [deviceRead]
  rcases read w.media with ⟨_ | a, d⟩ <;> rfl

theorem deviceWrite_apply (write : δ → Bool × δ) (w : Driver δ) :
    deviceWrite write w = (if (write w.media).1 then .ok () else .fail, { w with media := (write w.media).2 }) := by
  rw [deviceWrite]
  rcases write w.media with ⟨_ | _, d⟩ <;> rfl

variable (fs : Fat32State δ)

def readSectorCached (lba : ℕ) (useFatCache : Bool) : M δ Sector := do
  Exec.require (fs.mounted = true)
  let read ← Exec.ofOption (fs.dev.bind (·.readSector))
  match ← lookupCached lba useFatCache with
  | some sec => pure sec
  | none =>
    let sec ← deviceRead (read lba)
    storeCached lba useFatCache sec
    pure sec

/-- `&buffer[i * 512]` holds `sec`, the rest of the buffer is unchanged. -/
def Buffer.fill (buf : Buffer) (i : ℕ) (sec : Sector) : Buffer := fun j =>
  if i * 512 ≤ j ∧ j < i * 512 + 512 then sec.get (j - i * 512) else buf j

/-- The sector at `&buffer[i * 512]`. -/
def Buffer.sector (buf : Buffer) (i : ℕ) : Sector := fun j => buf (i * 512 + j)

/-- `for (; i < count; i++)` with `n` iterations left. -/
def readEach (lba : ℕ) : ℕ → ℕ → Buffer → M δ Buffer
  | 0, _, buf => pure buf
  | n + 1, i, buf => do
    let sec ← readSectorCached fs (u32 (lba + i)) false
    readEach lba n (i + 1) (buf.fill i sec)

/-- Fill the scratch buffer with `count` sectors; its previous contents are
never read, so it starts out blank. -/
def readDataSectors (lba count : ℕ) : M δ Buffer := do
  Exec.require (count ≠ 0)
  Exec.require (fs.mounted = true)
  let dev ← Exec.ofOption fs.dev
  match (if count > 1 then dev.readSectors else none) with
  | some readSectors => deviceRead (readSectors lba count)
  | none => readEach fs lba count 0 fun _ => 0

def writeSectorUncached (lba : ℕ) (sec : Sector) : M δ Unit := do
  Exec.require (fs.mounted = true)
  let write ← Exec.ofOption (fs.dev.bind (·.writeSector))
  deviceWrite (write lba sec)
  flushCache

/-! ### Tuning -/

def setIoBatchSectors (count : ℕ) : M δ Unit := do
  Exec.require (1 ≤ count ∧ count ≤ FAT32_MAX_IO_BATCH_SECTORS)
  Exec.modify fun w => { w with ioBatchSectors := count }

def setDataCacheEnabled (enabled : Bool) : M δ Unit :=
  Exec.modify fun w => Driver.flush { w with dataCacheEnabled := enabled }

def setFatCacheEnabled (enabled : Bool) : M δ Unit :=
  Exec.modify fun w => Driver.flush { w with fatCacheEnabled := enabled }

end Tg11Kernel.Fat32
