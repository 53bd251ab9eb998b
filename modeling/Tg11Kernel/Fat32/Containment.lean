import Tg11Kernel.Fat32.Coherence

/-! Which sectors the driver touches. The device is wrapped to log every sector
number it is asked for. On a volume of sound geometry every operation stays
inside the volume whatever the sectors contain, with one exception: reading a
file takes the first cluster number from its entry without validating it, and
reads as much of that cluster as the file's size calls for. -/

namespace Tg11Kernel.Fat32

open Lib Exec

variable {δ : Type}

/-! ### The log -/

/-- An access that logs the sector numbers it asks for. -/
def logAccess {α : Type} (lbas : List ℕ) (access : δ → α × δ) (s : δ × List ℕ) : α × (δ × List ℕ) :=
  ((access s.1).1, (access s.1).2, s.2 ++ lbas)

/-- The sector numbers of a run. -/
def runLbas (lba count : ℕ) : List ℕ := (List.range count).map fun i => u32 (lba + i)

/-- The device with a log of the sector numbers it was asked for. -/
def logged (dev : BlockDevice δ) : BlockDevice (δ × List ℕ) where
  present := dev.present
  readSector := dev.readSector.map fun read lba => logAccess [lba] (read lba)
  writeSector := dev.writeSector.map fun write lba sec => logAccess [lba] (write lba sec)
  readSectors := dev.readSectors.map fun readRun lba count => logAccess (runLbas lba count) (readRun lba count)

def Driver.log (w : Driver (δ × List ℕ)) : List ℕ := w.media.2

def InVolume (fs : Fat32State δ) (lba : ℕ) : Prop := fs.startLba ≤ lba ∧ lba < fs.startLba + fs.totalSectors

section Bounds

variable {fs : Fat32State δ}

variable {c : ℕ}

theorem inVolume_dataSector (hs : SoundGeometry fs) (hc : clusterIsValid fs c) {s : ℕ}
    (hlt : s < fs.sectorsPerCluster) : InVolume fs (u32 (clusterToLba fs c + s)) := by
  have hin := hs.data_inside c hc s hlt
  have hdata := hs.dataStart_noWrap
  have hfat := hs.fatStart_noWrap
  exact ⟨by omega, hin.2⟩

theorem inVolume_fatSector (hm : Mounted fs) (hs : SoundGeometry fs) {k : ℕ} (hk : k < fs.fatCount ∨ k = 0)
    (hc : clusterIsValid fs c) : InVolume fs (fatSector fs k c) := by
  have hk' : k < fs.fatCount := hk.elim id fun h => h ▸ hm.fatCount_pos
  obtain ⟨h1, h2⟩ := hs.copy_inside c hc k hk'
  have hin := hs.data_inside c hc 0 hm.sectorsPerCluster_pos
  have hdata := hs.dataStart_noWrap
  have hfat := hs.fatStart_noWrap
  have hmul : (k + 1) * fs.sectorsPerFat ≤ fs.fatCount * fs.sectorsPerFat := Nat.mul_le_mul_right _ hk'
  exact ⟨by omega, by omega⟩

theorem inVolume_clusterToLba (hm : Mounted fs) (hs : SoundGeometry fs) (hc : clusterIsValid fs c) :
    InVolume fs (clusterToLba fs c) := by
  have h := inVolume_dataSector hs hc hm.sectorsPerCluster_pos
  rw [hs.dataLba_noWrap c hc 0 hm.sectorsPerCluster_pos, Nat.add_zero] at h
  exact h

end Bounds

/-! ### An invariant of the log -/

/-- The log satisfies `J`, the numbers of cached sectors satisfy `C`, and the batch size is `b`. -/
structure LogInv (C : ℕ → Prop) (J : List ℕ → Prop) (b : ℕ) (w : Driver (δ × List ℕ)) : Prop where
  log : J w.log
  cached : ∀ useFat, CacheAll (fun lba _ => C lba) (w.cache useFat)
  batch : w.ioBatchSectors = b

/-- Accesses of allowed sectors keep the invariant. -/
structure LogRule (allowed C : ℕ → Prop) (J : List ℕ → Prop) : Prop where
  append : ∀ log lbas, (∀ lba ∈ lbas, allowed lba) → J log → J (log ++ lbas)
  cached : ∀ lba, allowed lba → C lba

section Invariant

variable {fs : Fat32State (δ × List ℕ)} {dev : BlockDevice δ} {allowed C : ℕ → Prop} {J : List ℕ → Prop} {b : ℕ}

/-- Two runs that are one run, from a state where the invariant holds. -/
abbrev Same (C : ℕ → Prop) (J : List ℕ → Prop) (b : ℕ) (w w' : Driver (δ × List ℕ)) : Prop :=
  w = w' ∧ LogInv C J b w

variable {w : Driver (δ × List ℕ)} {lbas : List ℕ} {batch i fileSize k : ℕ} {written : List UInt8}

theorem logInv_flush (hlog : J w.log) (hb : w.ioBatchSectors = b) : LogInv C J b w.flush :=
  ⟨hlog, fun useFat => by cases useFat <;> exact cacheAll_clear _ _, hb⟩

theorem logInv_setCache (h : LogInv C J b w) (useFat : Bool) {cache : List CacheEntry}
    (hc : CacheAll (fun lba _ => C lba) cache) : LogInv C J b (w.setCache useFat cache) :=
  ⟨by cases useFat <;> exact h.log, cacheAll_setCache h.cached useFat hc, by cases useFat <;> exact h.batch⟩

theorem logInv_lookupCached (h : LogInv C J b w) (lba : ℕ) (useFat : Bool) :
    LogInv C J b (lookupCached lba useFat w).2 := by
  rw [lookupCached]
  split
  · cases hl : cacheLookup w.cacheAgeCounter lba (w.cache useFat) with
    | none => exact h
    | some r => exact logInv_setCache h useFat (cacheAll_lookup (h.cached useFat) hl).2
  · exact h

theorem logInv_storeCached (h : LogInv C J b w) {lba : ℕ} (hl : C lba)
    (useFat : Bool) (sec : Sector) : LogInv C J b (storeCached lba useFat sec w).2 := by
  rw [storeCached, modify_apply]
  dsimp only
  split
  · exact logInv_setCache h useFat (cacheAll_store (h.cached useFat) _ hl)
  · exact h

theorem sim_deviceRead_logged {α : Type} (hJ : LogRule allowed C J) (hl : ∀ lba ∈ lbas, allowed lba)
    (access : δ → Option α × δ) :
    Sim (Same C J b) (fun _ => True) (deviceRead (logAccess lbas access)) (deviceRead (logAccess lbas access)) := by
  refine Sim.of_invariant fun w hw => ?_
  rw [deviceRead_apply]
  exact ⟨hJ.append _ _ hl hw.log, hw.cached, hw.batch⟩

theorem sim_deviceWrite_logged (hJ : LogRule allowed C J) (hl : ∀ lba ∈ lbas, allowed lba)
    (access : δ → Bool × δ) :
    Sim (Same C J b) (fun _ => True) (deviceWrite (logAccess lbas access)) (deviceWrite (logAccess lbas access)) := by
  refine Sim.of_invariant fun w hw => ?_
  rw [deviceWrite_apply]
  exact ⟨hJ.append _ _ hl hw.log, hw.cached, hw.batch⟩

section

variable (hdev : fs.dev = some (logged dev)) (hJ : LogRule allowed C J)
include hdev hJ

variable {lba : ℕ}

theorem sim_read_logged (hl : allowed lba) (useFat : Bool) :
    Sim (Same C J b) (fun _ => True) (readSectorCached fs lba useFat) (readSectorCached fs lba useFat) := by
  refine Sim.require.bind fun _ _ => (Sim.ofOption fun read hr => hr).bind fun read hr => ?_
  rw [hdev, Option.bind_some] at hr
  obtain ⟨read, -, rfl⟩ := Option.map_eq_some_iff.1 hr
  refine (Sim.of_invariant fun w hw => logInv_lookupCached hw lba useFat).bind fun o _ => ?_
  cases o with
  | some sec => exact Sim.pure trivial
  | none =>
    exact (sim_deviceRead_logged hJ (by simpa using hl) _).bind fun sec _ =>
      (Sim.of_invariant fun w hw => logInv_storeCached hw (hJ.cached _ hl) useFat sec).bind fun _ _ => Sim.pure trivial

theorem sim_write_logged (hl : allowed lba) (sec : Sector) :
    Sim (Same C J b) (fun _ => True) (writeSectorUncached fs lba sec) (writeSectorUncached fs lba sec) := by
  refine Sim.require.bind fun _ _ => (Sim.ofOption fun write hr => hr).bind fun write hr => ?_
  rw [hdev, Option.bind_some] at hr
  obtain ⟨write, -, rfl⟩ := Option.map_eq_some_iff.1 hr
  exact (sim_deviceWrite_logged hJ (by simpa using hl) _).bind fun _ _ =>
    Sim.of_invariant fun w hw => logInv_flush hw.log hw.batch

/-- The operations keep the invariant when it allows all sectors of valid clusters. -/
theorem compat_logged (hfat : ∀ {k c}, k < fs.fatCount ∨ k = 0 → clusterIsValid fs c → allowed (fatSector fs k c))
    (hdata : ∀ {c}, clusterIsValid fs c → ∀ lba ∈ clusterSectors fs c, allowed lba)
    (hfirst : ∀ {c}, clusterIsValid fs c → allowed (clusterToLba fs c)) : Compat fs (Same C J b) allowed where
  lastError_eq := fun h => h.1 ▸ rfl
  setError := fun _ h => ⟨h.1 ▸ rfl, h.2.log, h.2.cached, h.2.batch⟩
  hint_eq := fun h => h.1 ▸ rfl
  setHint := fun _ h => ⟨h.1 ▸ rfl, h.2.log, h.2.cached, h.2.batch⟩
  read := fun _ useFat hl => sim_read_logged hdev hJ hl useFat
  write := fun _ sec hl => sim_write_logged hdev hJ hl sec
  fatSector_ok := hfat
  dataSector_ok := hdata
  firstSector_ok := hfirst

theorem sim_readEach_logged (n i : ℕ) (buf : Buffer) (hl : ∀ j < i + n, allowed (u32 (lba + j))) :
    Sim (Same C J b) (fun _ => True) (readEach fs lba n i buf) (readEach fs lba n i buf) := by
  induction n generalizing i buf with
  | zero => exact Sim.pure trivial
  | succ n ih =>
    exact (sim_read_logged hdev hJ (hl i (by omega)) false).bind fun sec _ =>
      ih (i + 1) _ fun j hj => hl j (by omega)

theorem sim_readDataSectors_logged {count : ℕ} (hl : ∀ j < count, allowed (u32 (lba + j))) :
    Sim (Same C J b) (fun _ => True) (readDataSectors fs lba count) (readDataSectors fs lba count) := by
  refine Sim.require.bind fun _ _ => Sim.require.bind fun _ _ => ?_
  rw [hdev, ofOption_some, pure_bind_eq]
  split
  · rename_i readRun hr
    obtain ⟨readRun, -, rfl⟩ : ∃ r, dev.readSectors = some r ∧
        (fun lba count => logAccess (runLbas lba count) (r lba count)) = readRun := by
      split at hr
      · exact Option.map_eq_some_iff.1 hr
      · simp at hr
    refine sim_deviceRead_logged hJ (fun l hl' => ?_) _
    obtain ⟨j, hj, rfl⟩ := List.mem_map.1 hl'
    exact hl j (List.mem_range.1 hj)
  · exact sim_readEach_logged hdev hJ count 0 _ (by simpa using hl)

end

theorem sim_sectorsPerRead_logged :
    Sim (Same C J b) (fun n => n = if (fs.dev.bind (·.readSectors)).isSome then b else 1)
      (sectorsPerRead fs) (sectorsPerRead fs) :=
  Sim.gets fun w w' h => ⟨h.1 ▸ rfl, by rw [batchSize, h.2.batch]⟩

/-- Sector `i` of the batch at `s` is a sector of the cluster. -/
theorem mem_clusterSectors_batch {c s : ℕ} (hi : i < toRead fs batch s) :
    u32 (u32 (clusterToLba fs c + s) + i) ∈ clusterSectors fs c := by
  rw [toRead] at hi
  refine List.mem_map.2 ⟨s + i, List.mem_range.2 (by omega), ?_⟩
  rw [u32_add, Nat.add_assoc]

theorem sim_lsDirCluster_logged (h : Compat fs (Same C J b) allowed) (hdev : fs.dev = some (logged dev))
    (hJ : LogRule allowed C J) (fuel c max : ℕ) :
    Sim (Same C J b) (fun _ => True) (lsDirCluster fs fuel c max) (lsDirCluster fs fuel c max) := by
  refine Sim.require.bind fun _ _ => sim_sectorsPerRead_logged.bind fun batch _ => ?_
  refine h.sim_walkChain (P := fun _ => True) (fun c acc hc => ?_) (fun _ _ _ => Sim.pure trivial)
    (fun _ => Sim.pure trivial) fuel c []
  generalize batchStarts fs batch = starts
  induction starts generalizing acc with
  | nil => exact Sim.pure fun _ _ => trivial
  | cons s rest ih =>
    refine (sim_readDataSectors_logged hdev hJ fun i hi => h.dataSector_ok hc _ (mem_clusterSectors_batch hi)).bind
      fun buf _ => ?_
    split
    · exact ih _
    · exact Sim.pure fun _ _ => trivial

/-! ### The first cluster of a file -/

/-- How many sectors of its first cluster a file of this size makes the driver fetch: whole batches. -/
def fetched (fs : Fat32State δ) (batch fileSize : ℕ) : ℕ :=
  min fs.sectorsPerCluster ((fileSize + 512 * batch - 1) / (512 * batch) * batch)

theorem lt_fetched {fs : Fat32State δ} (hb : 1 ≤ batch) (hi : i < toRead fs batch (k * batch))
    (hk : 512 * (k * batch) < fileSize) : k * batch + i < fetched fs batch fileSize := by
  have hceil : k + 1 ≤ (fileSize + 512 * batch - 1) / (512 * batch) := by
    rw [Nat.le_div_iff_mul_le (by omega), Nat.succ_mul k, Nat.mul_left_comm]
    omega
  have hmul := Nat.mul_le_mul_right batch hceil
  rw [Nat.succ_mul] at hmul
  rw [toRead] at hi
  rw [fetched]
  omega

theorem length_takeSectors (fileSize : ℕ) (buf : Buffer) (is : List ℕ)
    (hw : written.length ≤ fileSize) :
    (takeSectors fileSize buf is written).length = min fileSize (written.length + 512 * is.length) := by
  induction is generalizing written with
  | nil => simp [takeSectors, hw]
  | cons i is ih =>
    have hlen : (written ++ (Sector.toList (buf.sector i)).take (fileSize - written.length)).length =
        min fileSize (written.length + 512) := by
      rw [List.length_append, List.length_take, length_toList]
      omega
    rw [takeSectors, List.foldl_cons, ← takeSectors, ih (by omega), hlen, List.length_cons]
    omega

/-- Until the size is reached, batch `k` starts with `512 * (k * batch)` bytes read. -/
theorem length_takeSectors_batch {fs : Fat32State δ} (buf : Buffer)
    (hw : written.length = min fileSize (512 * (k * batch))) (hnext : (k + 1) * batch ≤ fs.sectorsPerCluster) :
    (takeSectors fileSize buf (List.range (toRead fs batch (k * batch))) written).length =
      min fileSize (512 * ((k + 1) * batch)) := by
  rw [Nat.succ_mul k batch] at hnext ⊢
  rw [length_takeSectors _ _ _ (by omega), List.length_range, toRead]
  omega

/-- The offsets of the batches from number `k` on, when `n` are left. -/
def startsFrom (batch k n : ℕ) : List ℕ := (List.range' k n).map (· * batch)

theorem batchStarts_eq (fs : Fat32State δ) (batch : ℕ) :
    batchStarts fs batch = startsFrom batch 0 ((fs.sectorsPerCluster + batch - 1) / batch) := by
  rw [batchStarts, startsFrom, List.range_eq_range']

theorem succ_mul_le_of_lt_ceil {spc : ℕ} (hb : 1 ≤ batch) (hk : k + 1 < (spc + batch - 1) / batch) :
    (k + 1) * batch ≤ spc := by
  rw [Nat.lt_div_iff_mul_lt (by omega)] at hk
  omega

theorem sim_readBatches_logged (hdev : fs.dev = some (logged dev)) (hJ : LogRule allowed C J) {cur : ℕ}
    (hb : 1 ≤ batch) (hl : ∀ s < fetched fs batch fileSize, allowed (u32 (clusterToLba fs cur + s))) (n k : ℕ)
    (hk : k + n = (fs.sectorsPerCluster + batch - 1) / batch) (written : List UInt8)
    (hw : written.length = min fileSize (512 * (k * batch))) :
    Sim (Same C J b) (fun _ => True) (readBatches fs fileSize batch cur (startsFrom batch k n) written)
      (readBatches fs fileSize batch cur (startsFrom batch k n) written) := by
  induction n generalizing k written with
  | zero => exact Sim.pure trivial
  | succ n ih =>
    rw [startsFrom, List.range'_succ, List.map_cons, ← startsFrom, readBatches]
    split
    · refine (sim_readDataSectors_logged hdev hJ fun i hi => ?_).bind fun buf _ => ?_
      · rw [u32_add, Nat.add_assoc]
        exact hl _ (lt_fetched hb hi (by omega))
      · cases n with
        | zero => exact Sim.pure trivial
        | succ n =>
          exact ih (k + 1) (by omega) _ (length_takeSectors_batch buf hw (succ_mul_le_of_lt_ceil hb (by omega)))
    · exact Sim.pure trivial

section

variable (h : Compat fs (Same C J b) allowed) (hdev : fs.dev = some (logged dev)) (hJ : LogRule allowed C J)
include h hdev hJ

variable {cur : ℕ}

theorem sim_readBatches_valid (hv : clusterIsValid fs cur) (fileSize batch : ℕ) (starts : List ℕ)
    (written : List UInt8) :
    Sim (Same C J b) (fun _ => True) (readBatches fs fileSize batch cur starts written)
      (readBatches fs fileSize batch cur starts written) := by
  induction starts generalizing written with
  | nil => exact Sim.pure trivial
  | cons s rest ih =>
    rw [readBatches]
    split
    · exact (sim_readDataSectors_logged hdev hJ fun i hi => h.dataSector_ok hv _ (mem_clusterSectors_batch hi)).bind
        fun buf _ => ih _
    · exact Sim.pure trivial

/-- Every later cluster of a file was validated when its link was followed. -/
theorem sim_readClusters_logged (fileSize batch fuel : ℕ) (hc : cur < 2 ∨ clusterIsValid fs cur)
    (written : List UInt8) :
    Sim (Same C J b) (fun _ => True) (readClusters fs fileSize batch fuel cur written)
      (readClusters fs fileSize batch fuel cur written) := by
  induction fuel generalizing cur written with
  | zero =>
    rw [readClusters]
    split
    · exact Sim.hang
    · exact Sim.pure trivial
  | succ fuel ih =>
    rw [readClusters]
    split
    · rename_i hcur
      have hv := hc.resolve_left (by omega)
      refine (sim_readBatches_valid h hdev hJ hv fileSize batch _ written).bind fun written' _ => ?_
      split
      · exact Sim.pure trivial
      refine (h.sim_nextCluster cur).bind fun next hnext => ?_
      split
      · exact Sim.pure trivial
      · exact ih (valid_of_not_badLink hnext (by omega)) written'
    · exact Sim.pure trivial

end

/-- Every sector of the first cluster that reading the file fetches is in the volume. -/
def FirstClusterInside (fs : Fat32State δ) (batch : ℕ) (entry : Entry) : Prop :=
  ¬ entry.isDir → 2 ≤ entry.firstCluster → entry.firstCluster < FAT32_EOC →
    ∀ s < fetched fs batch entry.size, InVolume fs (u32 (clusterToLba fs entry.firstCluster + s))

section

variable (h : Compat fs (Same C J b) allowed) (hdev : fs.dev = some (logged dev)) (hJ : LogRule allowed C J)
include h hdev hJ

/-- The rest of a file after one of its clusters. -/
theorem sim_followLink_logged (fileSize batch fuel cur : ℕ) (written : List UInt8) : Sim (Same C J b) (fun _ => True)
      (nextCluster fs cur >>= fun next =>
        if next ≥ FAT32_EOC then pure written else readClusters fs fileSize batch fuel next written)
      (nextCluster fs cur >>= fun next =>
        if next ≥ FAT32_EOC then pure written else readClusters fs fileSize batch fuel next written) := by
  refine (h.sim_nextCluster cur).bind fun next hnext => ?_
  split
  · exact Sim.pure trivial
  · exact sim_readClusters_logged h hdev hJ _ _ _ (valid_of_not_badLink hnext (by omega)) written

theorem sim_readFileEntry_logged (hb : 1 ≤ b) (fuel : ℕ) (entry : Entry) (cap : ℕ)
    (hl : ¬ entry.isDir → 2 ≤ entry.firstCluster → entry.firstCluster < FAT32_EOC →
      ∀ s < fetched fs (if (fs.dev.bind (·.readSectors)).isSome then b else 1) entry.size,
        allowed (u32 (clusterToLba fs entry.firstCluster + s))) :
    Sim (Same C J b) (fun _ => True) (readFileEntry fs fuel entry cap) (readFileEntry fs fuel entry cap) := by
  refine Sim.require.bind fun _ hdir => ?_
  split
  · exact Sim.pure trivial
  refine sim_sectorsPerRead_logged.bind fun batch hbatch => ?_
  rw [← hbatch] at hl
  have hb' : 1 ≤ batch := by rw [hbatch]; split <;> omega
  refine Sim.bind (Q := fun _ => True) ?_ fun _ _ => Sim.pure trivial
  cases fuel with
  | zero =>
    rw [readClusters]
    split
    · exact Sim.hang
    · exact Sim.pure trivial
  | succ fuel =>
    rw [readClusters]
    split
    · rename_i hcur
      rw [batchStarts_eq]
      refine (sim_readBatches_logged hdev hJ hb' (hl hdir hcur.1 hcur.2.1) _ 0 (by omega) [] (by simp)).bind
        fun written _ => ?_
      split
      · exact Sim.pure trivial
      · exact sim_followLink_logged h hdev hJ _ _ _ _ written
    · exact Sim.pure trivial

end

end Invariant

/-! ### Reads leave a trace -/

/-- A device whose reads succeed. -/
structure ReadsOk (dev : BlockDevice δ) : Prop where
  read : ∃ read, dev.readSector = some read ∧ ∀ lba d, (read lba d).1 ≠ none
  readRun : ∀ readRun, dev.readSectors = some readRun → ∀ lba count d, (readRun lba count d).1 ≠ none

section Trace

variable {fs : Fat32State (δ × List ℕ)} {dev : BlockDevice δ}

/-- The sector is in the volume, or the log shows that it was asked for. -/
def Seen (fs : Fat32State (δ × List ℕ)) (lba : ℕ) (w : Driver (δ × List ℕ)) : Prop := InVolume fs lba ∨ lba ∈ w.log

def CacheSeen (fs : Fat32State (δ × List ℕ)) (w : Driver (δ × List ℕ)) : Prop :=
  ∀ useFat, CacheAll (fun lba _ => Seen fs lba w) (w.cache useFat)

/-- `m` returns, and every sector in `P` outside the volume is in the log afterwards. -/
def Traced (fs : Fat32State (δ × List ℕ)) {α : Type} (P : ℕ → Prop) (m : M (δ × List ℕ) α) : Prop :=
  ∀ w, CacheSeen fs w → ∃ a w', m w = (.ok a, w') ∧ CacheSeen fs w' ∧ (∀ lba, P lba → Seen fs lba w') ∧
    ∀ lba ∈ w.log, lba ∈ w'.log

namespace Traced

variable {α β : Type} {P Q : ℕ → Prop} {m : M (δ × List ℕ) α} {f : α → M (δ × List ℕ) β}

theorem pure (a : α) (hP : ∀ lba, ¬ P lba) : Traced fs P (Pure.pure a) :=
  fun w hw => ⟨a, w, rfl, hw, fun lba h => absurd h (hP lba), fun _ h => h⟩

theorem bind (h : Traced fs P m) (hf : ∀ a, Traced fs Q (f a)) : Traced fs (fun lba => P lba ∨ Q lba) (m >>= f) := by
  intro w hw
  obtain ⟨a, w₁, h₁, hw₁, hP, hlog₁⟩ := h w hw
  obtain ⟨b, w₂, h₂, hw₂, hQ, hlog₂⟩ := hf a w₁ hw₁
  refine ⟨b, w₂, (bind_ok h₁).trans h₂, hw₂, fun lba hl => ?_, fun lba hl => hlog₂ lba (hlog₁ lba hl)⟩
  rcases hl with hl | hl
  · exact (hP lba hl).imp id (hlog₂ lba)
  · exact hQ lba hl

theorem mono (h : Traced fs P m) (hPQ : ∀ lba, Q lba → P lba) : Traced fs Q m := by
  intro w hw
  obtain ⟨a, w₁, h₁, hw₁, hP, hlog⟩ := h w hw
  exact ⟨a, w₁, h₁, hw₁, fun lba hl => hP lba (hPQ lba hl), hlog⟩

end Traced

variable {w : Driver (δ × List ℕ)} {batch : ℕ}

theorem CacheSeen.log_mono (hw : CacheSeen fs w) (lbas : List ℕ) (d : δ) :
    CacheSeen fs { w with media := (d, w.log ++ lbas) } :=
  fun useFat => (hw useFat).mono fun _ _ h => h.imp id fun h => List.mem_append_left _ h

theorem traced_deviceRead {α : Type} {access : δ → Option α × δ} (hok : ∀ d, (access d).1 ≠ none) (lbas : List ℕ) :
    Traced fs (fun lba => lba ∈ lbas) (deviceRead (logAccess lbas access)) := by
  intro w hw
  obtain ⟨a, ha⟩ := Option.ne_none_iff_exists'.1 (hok w.media.1)
  refine ⟨a, _, ?_, hw.log_mono lbas (access w.media.1).2, fun lba hl => ?_, fun lba hl => List.mem_append_left _ hl⟩
  · rw [deviceRead_apply, logAccess, ha]
    rfl
  · exact .inr (List.mem_append_right _ hl)

theorem CacheSeen.setCache (hw : CacheSeen fs w) (useFat : Bool) {cache : List CacheEntry}
    (hc : CacheAll (fun lba _ => Seen fs lba w) cache) : CacheSeen fs (w.setCache useFat cache) := by
  have hlog : (w.setCache useFat cache).log = w.log := by cases useFat <;> rfl
  rw [CacheSeen]
  simp only [Seen, hlog]
  exact cacheAll_setCache hw useFat hc

theorem traced_lookupCached (hw : CacheSeen fs w) (lba : ℕ) (useFat : Bool) :
    ∃ o w', lookupCached lba useFat w = (.ok o, w') ∧ CacheSeen fs w' ∧ w'.log = w.log ∧
      (o.isSome = true → Seen fs lba w) := by
  rw [lookupCached]
  split
  · cases hl : cacheLookup w.cacheAgeCounter lba (w.cache useFat) with
    | none => exact ⟨none, w, rfl, hw, rfl, by simp⟩
    | some r =>
      obtain ⟨hseen, hc⟩ := cacheAll_lookup (hw useFat) hl
      exact ⟨some r.1, _, rfl, hw.setCache useFat hc, by cases useFat <;> rfl, fun _ => hseen⟩
  · exact ⟨none, w, rfl, hw, rfl, by simp⟩

theorem traced_storeCached (hw : CacheSeen fs w) {lba : ℕ} (hl : Seen fs lba w)
    (useFat : Bool) (sec : Sector) :
    ∃ w', storeCached lba useFat sec w = (.ok (), w') ∧ CacheSeen fs w' ∧ w'.log = w.log := by
  rw [storeCached, modify_apply]
  split
  · exact ⟨_, rfl, hw.setCache useFat (cacheAll_store (hw useFat) _ hl), by cases useFat <;> rfl⟩
  · exact ⟨w, rfl, hw, rfl⟩

section

variable (hm : fs.mounted = true) (hdev : fs.dev = some (logged dev)) (hr : ReadsOk dev)
include hm hdev hr

theorem traced_readSectorCached
    (lba : ℕ) (useFat : Bool) : Traced fs (fun l => l = lba) (readSectorCached fs lba useFat) := by
  obtain ⟨read, hread, hok⟩ := hr.read
  intro w hw
  have hdev' : fs.dev.bind (·.readSector) = some fun lba => logAccess [lba] (read lba) := by
    rw [hdev, Option.bind_some, logged, hread, Option.map_some]
  obtain ⟨o, w₁, h₁, hw₁, hlog₁, ho⟩ := traced_lookupCached hw lba useFat
  rw [readSectorCached, require_pos hm, pure_bind_eq, hdev', ofOption_some, pure_bind_eq, bind_ok h₁]
  cases o with
  | some sec =>
    have hseen : Seen fs lba w₁ := (ho rfl).imp id fun h => hlog₁ ▸ h
    exact ⟨sec, w₁, rfl, hw₁, fun l hl => hl ▸ hseen, fun l hl => hlog₁ ▸ hl⟩
  | none =>
    obtain ⟨sec, w₂, h₂, hw₂, hP, hlog₂⟩ := traced_deviceRead (hok lba) [lba] w₁ hw₁
    obtain ⟨w₃, h₃, hw₃, hlog₃⟩ := traced_storeCached hw₂ (hP lba (by simp)) useFat sec
    refine ⟨sec, w₃, (bind_ok h₂).trans ((bind_ok h₃).trans rfl), hw₃, fun l hl => ?_, fun l hl => ?_⟩
    · exact (hP l (by simp [hl])).imp id fun h => hlog₃ ▸ h
    · rw [hlog₃]
      exact hlog₂ l (hlog₁ ▸ hl)

theorem traced_readEach (lba n i : ℕ) (buf : Buffer) :
    Traced fs (fun l => ∃ j, i ≤ j ∧ j < i + n ∧ l = u32 (lba + j)) (readEach fs lba n i buf) := by
  induction n generalizing i buf with
  | zero => exact Traced.pure _ fun l ⟨j, h₁, h₂, _⟩ => by omega
  | succ n ih =>
    refine ((traced_readSectorCached hm hdev hr _ false).bind fun sec => ih (i + 1) _).mono ?_
    rintro l ⟨j, h₁, h₂, rfl⟩
    by_cases hj : j = i
    · exact .inl (by rw [hj])
    · exact .inr ⟨j, by omega, by omega, rfl⟩

theorem traced_readDataSectors (lba : ℕ) {count : ℕ} (hc : count ≠ 0) :
    Traced fs (fun l => ∃ j < count, l = u32 (lba + j)) (readDataSectors fs lba count) := by
  rw [readDataSectors, require_pos hc, require_pos hm, pure_bind_eq, pure_bind_eq, hdev, ofOption_some, pure_bind_eq]
  split
  · rename_i readRun hmatch
    obtain ⟨readRun, hrun, rfl⟩ : ∃ r, dev.readSectors = some r ∧
        (fun lba count => logAccess (runLbas lba count) (r lba count)) = readRun := by
      split at hmatch
      · exact Option.map_eq_some_iff.1 hmatch
      · simp at hmatch
    refine (traced_deviceRead (hr.readRun readRun hrun lba count) (runLbas lba count)).mono ?_
    rintro l ⟨j, hj, rfl⟩
    exact List.mem_map.2 ⟨j, List.mem_range.2 hj, rfl⟩
  · refine (traced_readEach hm hdev hr lba count 0 _).mono ?_
    rintro l ⟨j, hj, rfl⟩
    exact ⟨j, by omega, by omega, rfl⟩

end

/-- No sector is fetched from batch `k` on once the size is reached. -/
theorem fetched_le (fs : Fat32State δ) (fileSize : ℕ) {k : ℕ} (hb : 1 ≤ batch)
    (hk : fileSize ≤ 512 * (k * batch) ∨ fs.sectorsPerCluster ≤ k * batch) : fetched fs batch fileSize ≤ k * batch := by
  rcases hk with hk | hk
  · refine (Nat.min_le_right _ _).trans (Nat.mul_le_mul_right _ (Nat.le_of_lt_succ ?_))
    rw [Nat.div_lt_iff_lt_mul (by omega), Nat.succ_mul k, Nat.mul_left_comm]
    omega
  · exact (Nat.min_le_left _ _).trans hk

theorem traced_readBatches (hm : fs.mounted = true) (hdev : fs.dev = some (logged dev)) (hr : ReadsOk dev)
    {fileSize cur : ℕ} (hb : 1 ≤ batch) (n k : ℕ) (hk : k + n = (fs.sectorsPerCluster + batch - 1) / batch)
    (written : List UInt8) (hw : written.length = min fileSize (512 * (k * batch))) :
    Traced fs (fun l => ∃ s, k * batch ≤ s ∧ s < fetched fs batch fileSize ∧ l = u32 (clusterToLba fs cur + s))
      (readBatches fs fileSize batch cur (startsFrom batch k n) written) := by
  have hcover := le_ceilDiv_mul fs.sectorsPerCluster hb
  induction n generalizing k written with
  | zero =>
    rw [← hk, Nat.add_zero] at hcover
    refine Traced.pure _ ?_
    rintro l ⟨s, h₁, h₂, -⟩
    have := fetched_le fs fileSize hb (.inr hcover)
    omega
  | succ n ih =>
    have hlt : k * batch < fs.sectorsPerCluster := by
      have hk' : k < (fs.sectorsPerCluster + batch - 1) / batch := by omega
      rw [Nat.lt_div_iff_mul_lt (by omega)] at hk'
      omega
    rw [startsFrom, List.range'_succ, List.map_cons, ← startsFrom, readBatches]
    split
    · have hrest : ∀ buf, Traced fs
          (fun l => ∃ s, (k + 1) * batch ≤ s ∧ s < fetched fs batch fileSize ∧ l = u32 (clusterToLba fs cur + s))
          (readBatches fs fileSize batch cur (startsFrom batch (k + 1) n)
            (takeSectors fileSize buf (List.range (toRead fs batch (k * batch))) written)) := by
        intro buf
        cases n with
        | zero =>
          rw [← hk, Nat.zero_add] at hcover
          refine Traced.pure _ ?_
          rintro l ⟨s, h₁, h₂, -⟩
          have := fetched_le fs fileSize hb (.inr hcover)
          omega
        | succ n =>
          exact ih (k + 1) (by omega) _ (length_takeSectors_batch buf hw (succ_mul_le_of_lt_ceil hb (by omega)))
      refine ((traced_readDataSectors hm hdev hr _ (by rw [toRead]; omega)).bind hrest).mono ?_
      rintro l ⟨s, h₁, h₂, rfl⟩
      have hspc : s < fs.sectorsPerCluster := lt_of_lt_of_le h₂ (Nat.min_le_left _ _)
      by_cases hs : (k + 1) * batch ≤ s
      · exact .inr ⟨s, hs, h₂, rfl⟩
      · refine .inl ⟨s - k * batch, ?_, ?_⟩
        · rw [Nat.succ_mul k] at hs
          rw [toRead]
          omega
        · rw [u32_add, Nat.add_assoc, Nat.add_sub_cancel' h₁]
    · refine Traced.pure _ ?_
      rintro l ⟨s, h₁, h₂, -⟩
      have := fetched_le fs fileSize hb (.inl (show fileSize ≤ 512 * (k * batch) by omega))
      omega

end Trace

/-! ### Containment -/

section Containment

variable {fs : Fat32State (δ × List ℕ)} {dev : BlockDevice δ}

def LogInside (fs : Fat32State (δ × List ℕ)) (log : List ℕ) : Prop := ∀ lba ∈ log, InVolume fs lba

variable {C : ℕ → Prop} {w : Driver (δ × List ℕ)} {fuel : ℕ} {path : Option Path} {found : Found}

theorem logRule_inside (hC : ∀ lba, InVolume fs lba → C lba) :
    LogRule (InVolume fs) C (LogInside fs) where
  append := fun _ _ hl hlog lba h => (List.mem_append.1 h).elim (hlog lba) (hl lba)
  cached := hC

theorem logRule_member (lba : ℕ) : LogRule (fun _ => True) (fun _ => True) fun log => lba ∈ log where
  append := fun _ lbas _ h => List.mem_append_left lbas h
  cached := fun _ _ => trivial

theorem compat_inside (hm : Mounted fs) (hs : SoundGeometry fs) (hdev : fs.dev = some (logged dev))
    (hC : ∀ lba, InVolume fs lba → C lba) (b : ℕ) : ListCompat fs (Same C (LogInside fs) b) (InVolume fs) := by
  have h : Compat fs (Same C (LogInside fs) b) (InVolume fs) := by
    refine compat_logged hdev (logRule_inside hC) (fun hk hc => inVolume_fatSector hm hs hk hc) (fun hc lba hl => ?_)
      fun hc => inVolume_clusterToLba hm hs hc
    obtain ⟨s, hlt, rfl⟩ := List.mem_map.1 hl
    exact inVolume_dataSector hs hc (List.mem_range.1 hlt)
  exact { h with list := sim_lsDirCluster_logged h hdev (logRule_inside hC) }

theorem compat_member (hdev : fs.dev = some (logged dev)) (lba b : ℕ) :
    Compat fs (Same (fun _ => True) (fun log => lba ∈ log) b) fun _ => True :=
  compat_logged hdev (logRule_member lba) (fun _ _ => trivial) (fun _ _ _ => trivial) fun _ => trivial

/-- Where the path leads, if to an entry, the first cluster of that entry is inside. -/
def ReadInside (fs : Fat32State (δ × List ℕ)) (fuel : ℕ) (path : Option Path) (w : Driver (δ × List ℕ)) : Prop :=
  ∀ found w', lookupTarget fs fuel path "read: invalid arguments or unmounted" "read: path resolution failed"
    "read: file not found" w = (.ok found, w') → FirstClusterInside fs (batchSize fs w) found.2.2

theorem readFilePath_inside (hm : Mounted fs) (hs : SoundGeometry fs) (hdev : fs.dev = some (logged dev)) (fuel : ℕ)
    (path : Option Path) (cap : ℕ) (hb : 1 ≤ w.ioBatchSectors) (hlog : LogInside fs w.log)
    (hread : ReadInside fs fuel path w) : LogInside fs (readFilePath fs fuel path cap w).2.log := by
  have hw : LogInv (fun _ => True) (LogInside fs) w.ioBatchSectors w :=
    ⟨hlog, fun _ _ _ _ => trivial, rfl⟩
  have hc := (compat_inside hm hs hdev (C := fun _ => True) (fun _ _ => trivial) w.ioBatchSectors).toCompat
  have hinv := (hc.sim_lookupTarget fuel path "read: invalid arguments or unmounted" "read: path resolution failed"
    "read: file not found").invariant hw
  rw [readFilePath, bind_apply]
  rcases hl : lookupTarget fs fuel path "read: invalid arguments or unmounted" "read: path resolution failed"
    "read: file not found" w with ⟨found | _ | _, w₁⟩ <;> rw [hl] at hinv
  · have hentry := sim_readFileEntry_logged hc hdev (logRule_inside fun _ _ => trivial) hb fuel found.2.2 cap
      (hread found w₁ hl)
    exact (((hc.sim_orError hentry _).bind fun _ _ => hc.sim_clearError.bind fun _ _ => Sim.pure trivial).invariant
      hinv).log
  · exact hinv.log
  · exact hinv.log

/-- A lookup that returns had fuel for its walk. -/
theorem fuel_ne_zero_of_lookupTarget {m₁ m₂ m₃ : String}
    {w' : Driver (δ × List ℕ)} (h : lookupTarget fs fuel path m₁ m₂ m₃ w = (.ok found, w')) : fuel ≠ 0 := by
  rintro rfl
  rw [lookupTarget, bind_ok_iff] at h
  obtain ⟨⟨parent, name83⟩, t, -, h⟩ := h
  dsimp only at h
  rw [orError, orElse_ok_iff, findEntryInDir, walkChain] at h
  split at h
  · rw [bind_hang (hang_apply _)] at h
    simp at h
  · rw [bind_fail (fail_apply _)] at h
    simp at h

/-- A file's first cluster is read before its link is looked at, so a sector of
it that is fetched is in the log at the end. -/
theorem readFilePath_fetched (cap : ℕ) (hm : Mounted fs) (hdev : fs.dev = some (logged dev)) (hr : ReadsOk dev)
    {w₁ : Driver (δ × List ℕ)}
    (hb : 1 ≤ w₁.ioBatchSectors) (hcache : CacheSeen fs w₁)
    (hfound : lookupTarget fs fuel path "read: invalid arguments or unmounted" "read: path resolution failed"
      "read: file not found" w = (.ok found, w₁))
    (hdir : ¬ found.2.2.isDir) (h2 : 2 ≤ found.2.2.firstCluster) (heoc : found.2.2.firstCluster < FAT32_EOC) {s : ℕ}
    (hs : s < fetched fs (batchSize fs w₁) found.2.2.size) :
    Seen fs (u32 (clusterToLba fs found.2.2.firstCluster + s)) (readFilePath fs fuel path cap w).2 := by
  obtain ⟨fuel, rfl⟩ := Nat.exists_eq_succ_of_ne_zero (fuel_ne_zero_of_lookupTarget hfound)
  obtain ⟨entryLba, entryOff, entry⟩ := found
  dsimp only at hdir h2 heoc hs ⊢
  have hsize : 0 < entry.size := by
    refine Nat.pos_of_ne_zero fun h0 => ?_
    have hb' : 1 ≤ batchSize fs w₁ := by rw [batchSize]; split <;> omega
    have := fetched_le fs entry.size (k := 0) hb' (.inl (by omega))
    rw [Nat.zero_mul] at this
    omega
  have hb' : 1 ≤ batchSize fs w₁ := by rw [batchSize]; split <;> omega
  generalize hlba : u32 (clusterToLba fs entry.firstCluster + s) = lba
  obtain ⟨written, w₂, hbatches, -, hseen, -⟩ := traced_readBatches hm.mounted hdev hr hb' _ 0 (Nat.zero_add _) []
    (by simp) w₁ hcache
  rcases hseen lba ⟨s, by omega, hs, hlba.symm⟩ with hin | hmem
  · exact .inl hin
  have hc := compat_member hdev lba w₂.ioBatchSectors
  have hw₂ : LogInv (fun _ => True) (fun log => lba ∈ log) w₂.ioBatchSectors w₂ := ⟨hmem, fun _ _ _ _ => trivial, rfl⟩
  refine .inr (LogInv.log (C := fun _ => True) (J := fun log => lba ∈ log) (b := w₂.ioBatchSectors) ?_)
  rw [readFilePath, bind_ok hfound]
  refine bind_state (orElse_state ?_ fun t ht => (hc.sim_setError _).invariant ht) fun _ t ht =>
    (hc.sim_clearError.bind fun _ _ => Sim.pure (Q := fun _ => True) trivial).invariant ht
  rw [readFileEntry, require_pos hdir, pure_bind_eq, if_neg (by omega)]
  have hbatch : sectorsPerRead fs w₁ = (.ok (batchSize fs w₁), w₁) := rfl
  rw [bind_ok hbatch]
  refine bind_state ?_ fun _ t ht => ht
  rw [readClusters, if_pos ⟨h2, heoc, hsize⟩, batchStarts_eq, bind_ok hbatches]
  split
  · exact hw₂
  · exact (sim_followLink_logged hc hdev (logRule_member lba) _ _ _ _ _).invariant hw₂

/-- Every operation stays in the volume, a read on the condition that the first
cluster of its file is inside; and when the device's reads succeed and nothing
from outside is cached, a read that stays in the volume meets the condition. -/
theorem pathOp_inside (hm : Mounted fs) (hs : SoundGeometry fs) (hdev : fs.dev = some (logged dev)) (fuel : ℕ)
    (o : PathOp) {w : Driver (δ × List ℕ)} (hb : 1 ≤ w.ioBatchSectors) (hlog : LogInside fs w.log) :
    ((∀ path cap, o = .read path cap → ReadInside fs fuel path w) → LogInside fs (o.run fs fuel w).2.log) ∧
      (ReadsOk dev → (∀ useFat, CacheAll (fun lba _ => InVolume fs lba) (w.cache useFat)) →
        LogInside fs (o.run fs fuel w).2.log → ∀ path cap, o = .read path cap → ReadInside fs fuel path w) := by
  constructor
  · intro hread
    by_cases ho : ∃ path cap, o = .read path cap
    · obtain ⟨path, cap, rfl⟩ := ho
      have h := readFilePath_inside hm hs hdev fuel path cap hb hlog (hread path cap rfl)
      exact bind_state (I := fun t => LogInside fs (Driver.log t)) h fun _ _ ht => ht
    · have hc := compat_inside hm hs hdev (C := fun _ => True) (fun _ _ => trivial) w.ioBatchSectors
      have hsim := hc.sim_run fuel o fun path cap h => absurd ⟨path, cap, h⟩ ho
      exact (hsim.invariant ⟨hlog, fun _ _ _ _ => trivial, rfl⟩).log
  · rintro hr hcache hin path cap rfl found w₁ hfound hdir h2 heoc s hlt
    have hc := (compat_inside hm hs hdev (fun _ h => h) w.ioBatchSectors).toCompat
    have hinv := (hc.sim_lookupTarget fuel path "read: invalid arguments or unmounted" "read: path resolution failed"
      "read: file not found").invariant ⟨hlog, hcache, rfl⟩
    rw [hfound] at hinv
    have hseen : CacheSeen fs w₁ := fun useFat => (hinv.cached useFat).mono fun _ _ h => .inl h
    have hbatch : batchSize fs w₁ = batchSize fs w := by rw [batchSize, batchSize, hinv.batch]
    have hfinal := readFilePath_fetched cap hm hdev hr (hinv.batch.symm ▸ hb) hseen hfound hdir h2 heoc
      (hbatch.symm ▸ hlt)
    refine hfinal.elim id fun hmem => hin _ ?_
    exact bind_state (I := fun t => _ ∈ Driver.log t) hmem fun _ _ ht => ht

end Containment

/-! ### A file that starts outside the volume -/

/-- The file `A` of one byte, whose first cluster is 4096. -/
def strayDisk : ℕ → Sector := fun lba =>
  if lba = 2 then putEntry Block.zero 0 (((Entry.make (name83Of [65] []) 0x20).setFirstCluster 4096).setSize 1)
  else Block.zero

theorem pathOp_inside_strayDisk :
    ((∀ path cap, PathOp.read (some [65]) 1 = .read path cap →
        ReadInside (smallVolume (logged diskDevice)) 1 path (initialDriver (strayDisk, []))) →
      LogInside (smallVolume (logged diskDevice))
        ((PathOp.read (some [65]) 1).run (smallVolume (logged diskDevice)) 1 (initialDriver (strayDisk, []))).2.log) ∧
    (ReadsOk diskDevice →
      (∀ useFat, CacheAll (fun lba _ => InVolume (smallVolume (logged diskDevice)) lba)
        ((initialDriver (strayDisk, ([] : List ℕ))).cache useFat)) →
      LogInside (smallVolume (logged diskDevice))
        ((PathOp.read (some [65]) 1).run (smallVolume (logged diskDevice)) 1 (initialDriver (strayDisk, []))).2.log →
      ∀ path cap, PathOp.read (some [65]) 1 = .read path cap →
        ReadInside (smallVolume (logged diskDevice)) 1 path (initialDriver (strayDisk, []))) :=
  pathOp_inside (smallVolume_mounted _) (smallVolume_sound _) rfl 1 _ (Nat.le_of_ble_eq_true rfl)
    fun _ h => absurd h List.not_mem_nil

/-- The sector read for the file is past the end of the 102 sectors of the volume. -/
theorem read_not_inside :
    ¬ ∀ fs : Fat32State ((ℕ → Sector) × List ℕ), Mounted fs → SoundGeometry fs → fs.dev = some (logged diskDevice) →
      ∀ (fuel : ℕ) (o : PathOp) (w : Driver ((ℕ → Sector) × List ℕ)), LogInside fs w.log →
        LogInside fs (o.run fs fuel w).2.log := by
  intro h
  have hin := h (smallVolume (logged diskDevice)) (smallVolume_mounted _) (smallVolume_sound _) rfl 1
    (.read (some [65]) 1) (initialDriver (strayDisk, [])) fun _ hl => absurd hl List.not_mem_nil
  have hmem : 4096 ∈ ((PathOp.read (some [65]) 1).run (smallVolume (logged diskDevice)) 1
      (initialDriver (strayDisk, []))).2.log := by decide +kernel
  exact absurd (hin 4096 hmem).2 (by decide)

end Tg11Kernel.Fat32
