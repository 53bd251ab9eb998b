import Tg11Kernel.Fat32.Mount
import Tg11Kernel.Fat32.Simulation

/-! The caches and the batch size cannot be observed. A driver state is described
by its view (the medium, the allocation hint and the error text) as long as every
valid cache slot holds what the medium holds. On a faithful device a read
evaluates to the medium's contents and a write to the device's answer, whatever
the caches hold, so runs that agree on the view agree on everything. -/

namespace Tg11Kernel.Fat32

open Lib Exec

variable {δ : Type}

/-! ### Coherence -/

/-- A device that reads back what was last written; a failed write leaves the
sectors unchanged, and reading a run equals reading its sectors one by one. -/
structure Faithful (dev : BlockDevice δ) (content : δ → ℕ → Sector) : Prop where
  read_eq : ∃ read, dev.readSector = some read ∧ ∀ lba d, read lba d = (some (content d lba), d)
  readRun_eq : ∀ readSectors, dev.readSectors = some readSectors → ∀ lba count d,
    ∃ buf, readSectors lba count d = (some buf, d) ∧ ∀ i < count, buf.sector i = content d (u32 (lba + i))
  write_ok : ∀ write, dev.writeSector = some write → ∀ lba sec d, (write lba sec d).1 = true →
    content (write lba sec d).2 = Function.update (content d) lba sec
  write_fail : ∀ write, dev.writeSector = some write → ∀ lba sec d, (write lba sec d).1 = false →
    content (write lba sec d).2 = content d

/-- The valid slots hold what the disk holds. -/
def CacheOk (disk : ℕ → Sector) (cache : List CacheEntry) : Prop := CacheAll (fun lba sec => sec = disk lba) cache

/-- What an operation can observe of a driver state. -/
structure View (δ : Type) where
  media : δ
  hint : ℕ
  error : String

def Driver.view (w : Driver δ) : View δ := ⟨w.media, w.allocHintCluster, w.lastError⟩

/-- The state has the view `v`, its caches are coherent and its batch size is not zero. -/
structure At (content : δ → ℕ → Sector) (v : View δ) (w : Driver δ) : Prop where
  view_eq : w.view = v
  batch_pos : 1 ≤ w.ioBatchSectors
  cache_ok : ∀ useFat, CacheOk (content v.media) (w.cache useFat)

variable {content : δ → ℕ → Sector}

namespace At

variable {v : View δ} {w : Driver δ}

theorem media_eq (h : At content v w) : w.media = v.media := congrArg View.media h.view_eq

theorem hint_eq (h : At content v w) : w.allocHintCluster = v.hint := congrArg View.hint h.view_eq

theorem error_eq (h : At content v w) : w.lastError = v.error := congrArg View.error h.view_eq

theorem setError (h : At content v w) (msg : String) :
    At content { v with error := msg } { w with lastError := msg } :=
  ⟨by rw [← h.view_eq]; rfl, h.batch_pos, h.cache_ok⟩

theorem setHint (h : At content v w) (c : ℕ) :
    At content { v with hint := c } { w with allocHintCluster := c } :=
  ⟨by rw [← h.view_eq]; rfl, h.batch_pos, h.cache_ok⟩

theorem setCache (h : At content v w) (useFat : Bool) {cache : List CacheEntry}
    (hc : CacheOk (content v.media) cache) : At content v (w.setCache useFat cache) := by
  refine ⟨?_, ?_, cacheAll_setCache h.cache_ok useFat hc⟩
  · rw [← h.view_eq]
    cases useFat <;> rfl
  · cases useFat <;> exact h.batch_pos

theorem flush (hw : w.view = v) (hb : 1 ≤ w.ioBatchSectors) : At content v w.flush :=
  ⟨hw, hb, fun b => by cases b <;> exact cacheAll_clear _ _⟩

end At

/-! ### Reads and writes -/

section Access

variable {fs : Fat32State δ} {dev : BlockDevice δ} {v : View δ}

theorem evals_lookupCached (lba : ℕ) (useFat : Bool) {w : Driver δ} (hw : At content v w) :
    ∃ o w', lookupCached lba useFat w = (.ok o, w') ∧ At content v w' ∧ ∀ sec, o = some sec → sec = content v.media lba := by
  rw [lookupCached]
  split
  · cases hl : cacheLookup w.cacheAgeCounter lba (w.cache useFat) with
    | none => exact ⟨none, w, rfl, hw, by simp⟩
    | some r =>
      obtain ⟨h1, h2⟩ := cacheAll_lookup (hw.cache_ok useFat) hl
      exact ⟨some r.1, _, rfl, hw.setCache useFat h2, by rintro _ ⟨⟩; exact h1⟩
  · exact ⟨none, w, rfl, hw, by simp⟩

theorem evals_storeCached (lba : ℕ) (useFat : Bool) :
    Evals (At content v) (storeCached lba useFat (content v.media lba)) (.ok ()) (At content v) := by
  refine Evals.modify fun w hw => ?_
  split
  · exact hw.setCache useFat (cacheAll_store (hw.cache_ok useFat) _ rfl)
  · exact hw

/-- A cached read returns the sector on the medium. -/
theorem evals_readSectorCached (hm : fs.mounted = true) (hdev : fs.dev = some dev) (hf : Faithful dev content)
    (v : View δ) (lba : ℕ) (useFat : Bool) :
    Evals (At content v) (readSectorCached fs lba useFat) (.ok (content v.media lba)) (At content v) := by
  obtain ⟨read, hread, hreads⟩ := hf.read_eq
  rw [readSectorCached, hdev, Option.bind_some, hread, ofOption_some]
  refine (Evals.require hm).bind ((Evals.pure read).bind fun w hw => ?_)
  obtain ⟨o, w₁, h₁, hw₁, ho⟩ := evals_lookupCached lba useFat hw
  rw [bind_ok h₁]
  cases o with
  | some sec => exact ⟨w₁, by rw [ho sec rfl]; rfl, hw₁⟩
  | none =>
    have hdevice : deviceRead (read lba) w₁ = (.ok (content v.media lba), w₁) := by
      rw [deviceRead, hreads, hw₁.media_eq]
      simp only [← hw₁.media_eq]
    obtain ⟨w₂, h₂, hw₂⟩ := evals_storeCached lba useFat w₁ hw₁
    exact ⟨w₂, (bind_ok hdevice).trans ((bind_ok h₂).trans rfl), hw₂⟩

/-- A write leaves the medium as the device leaves it, and coherent caches: they
are flushed when it succeeds, and still right when it fails. -/
theorem evals_writeSectorUncached (hm : fs.mounted = true) (hdev : fs.dev = some dev) (hf : Faithful dev content)
    {write : ℕ → Sector → δ → Bool × δ} (hwrite : dev.writeSector = some write) (v : View δ) (lba : ℕ) (sec : Sector) :
    Evals (At content v) (writeSectorUncached fs lba sec) (if (write lba sec v.media).1 then .ok () else .fail)
      (At content { v with media := (write lba sec v.media).2 }) := by
  rw [writeSectorUncached, hdev, Option.bind_some, hwrite, ofOption_some]
  refine (Evals.require hm).bind ((Evals.pure write).bind fun w hw => ?_)
  have hdevice := deviceWrite_apply (write lba sec) w
  rw [hw.media_eq] at hdevice
  have hview : Driver.view { w with media := (write lba sec v.media).2 } =
      { v with media := (write lba sec v.media).2 } := by
    rw [← hw.view_eq]
    rfl
  by_cases hok : (write lba sec v.media).1 = true
  · rw [if_pos hok] at hdevice ⊢
    exact ⟨_, bind_ok hdevice, At.flush hview hw.batch_pos⟩
  · rw [if_neg hok] at hdevice ⊢
    refine ⟨_, bind_fail hdevice, hview, hw.batch_pos, fun useFat => ?_⟩
    rw [hf.write_fail write hwrite lba sec v.media (by simpa using hok)]
    exact hw.cache_ok useFat

/-! ### Runs of sectors -/

theorem sector_fill (buf : Buffer) (i : ℕ) (sec : Sector) (j : ℕ) :
    (buf.fill i sec).sector j = if j = i then sec else buf.sector j := by
  funext k
  have hk := k.isLt
  by_cases hj : j = i
  · subst hj
    rw [if_pos rfl, Buffer.sector, Buffer.fill, if_pos (by omega), Block.get_of_lt _ (by omega)]
    congr 2
    omega
  · rw [if_neg hj, Buffer.sector, Buffer.fill, if_neg (by omega)]
    rfl

theorem evals_readEach (hm : fs.mounted = true) (hdev : fs.dev = some dev) (hf : Faithful dev content)
    (v : View δ) (lba n i : ℕ) (buf : Buffer)
    (hbuf : ∀ j < i, buf.sector j = content v.media (u32 (lba + j))) :
    ∃ buf', Evals (At content v) (readEach fs lba n i buf) (.ok buf') (At content v) ∧
      ∀ j < i + n, buf'.sector j = content v.media (u32 (lba + j)) := by
  induction n generalizing i buf with
  | zero => exact ⟨buf, Evals.pure buf, hbuf⟩
  | succ n ih =>
    obtain ⟨buf', h, hb⟩ := ih (i + 1) (buf.fill i (content v.media (u32 (lba + i)))) fun j hj => by
      rw [sector_fill]
      split
      · rename_i hji
        rw [hji]
      · exact hbuf j (by omega)
    refine ⟨buf', (evals_readSectorCached hm hdev hf v _ false).bind h, fun j hj => hb j (by omega)⟩

/-- A run of sectors reads as its sectors do, through the device's own run or one by one. -/
theorem evals_readDataSectors (hm : fs.mounted = true) (hdev : fs.dev = some dev) (hf : Faithful dev content)
    (v : View δ) (lba count : ℕ) (hc : count ≠ 0) :
    ∃ buf, Evals (At content v) (readDataSectors fs lba count) (.ok buf) (At content v) ∧
      ∀ j < count, buf.sector j = content v.media (u32 (lba + j)) := by
  have hone := evals_readEach hm hdev hf v lba count 0 (fun _ => 0) (by simp)
  rw [Nat.zero_add] at hone
  simp only [readDataSectors, hdev, ofOption_some, pure_bind_eq, require_pos hc, require_pos hm]
  cases hr : (if count > 1 then dev.readSectors else none) with
  | none => exact hone
  | some readSectors =>
    have hr' : dev.readSectors = some readSectors := by
      split at hr
      · exact hr
      · simp at hr
    obtain ⟨buf, hb, hbs⟩ := hf.readRun_eq readSectors hr' lba count v.media
    refine ⟨buf, fun w hw => ⟨w, ?_, hw⟩, hbs⟩
    change deviceRead (readSectors lba count) w = _
    rw [deviceRead, hw.media_eq, hb]
    simp only [← hw.media_eq]

/-! ### Batches -/

/-- The sectors of the batches that start at the given offsets of a cluster. -/
def batchSectors (fs : Fat32State δ) (batch cluster : ℕ) (starts : List ℕ) : List ℕ :=
  starts.flatMap fun s => (List.range (toRead fs batch s)).map fun i => u32 (clusterToLba fs cluster + (s + i))

/-- Whatever the batch size, the batches of a cluster are its sectors in order. -/
theorem batchSectors_batchStarts (fs : Fat32State δ) {batch : ℕ} (hb : 1 ≤ batch) (cluster : ℕ) :
    batchSectors fs batch cluster (batchStarts fs batch) = clusterSectors fs cluster := by
  have hflat := flatMap_batches fs.sectorsPerCluster batch ((fs.sectorsPerCluster + batch - 1) / batch)
  rw [Nat.min_eq_left (le_ceilDiv_mul _ hb)] at hflat
  rw [clusterSectors, ← hflat, List.map_flatMap, batchSectors, batchStarts, List.flatMap_map]
  simp only [toRead, List.map_map, Function.comp_def]

theorem toRead_ne_zero {batch s : ℕ} (hb : 1 ≤ batch) (hs : s ∈ batchStarts fs batch) : toRead fs batch s ≠ 0 := by
  obtain ⟨k, hk, rfl⟩ := List.mem_map.1 hs
  rw [List.mem_range, Nat.lt_div_iff_mul_lt (by omega)] at hk
  rw [toRead]
  omega

section Scan

variable {σ β : Type}

/-- Scan sectors of a disk. -/
def scanDisk (step : EntryStep σ β) (disk : ℕ → Sector) (lbas : List ℕ) (acc : σ) : σ ⊕ β :=
  foldUntil (fun acc lba => scanSector step lba (disk lba) acc) acc lbas

theorem scanDisk_append (step : EntryStep σ β) (disk : ℕ → Sector) (lbas lbas' : List ℕ) (acc : σ) :
    scanDisk step disk (lbas ++ lbas') acc =
      Sum.andThen (scanDisk step disk lbas acc) fun acc => scanDisk step disk lbas' acc := foldUntil_append _ _ _ _

theorem evals_scanSectors (hm : fs.mounted = true) (hdev : fs.dev = some dev) (hf : Faithful dev content)
    (v : View δ) (step : EntryStep σ β) (lbas : List ℕ) (acc : σ) :
    Evals (At content v) (scanSectors fs step lbas acc) (.ok (scanDisk step (content v.media) lbas acc))
      (At content v) := by
  induction lbas generalizing acc with
  | nil => exact Evals.pure _
  | cons lba rest ih =>
    refine (evals_readSectorCached hm hdev hf v lba false).bind ?_
    rw [scanDisk, foldUntil_cons]
    cases scanSector step lba (content v.media lba) acc with
    | inl acc' => exact ih acc'
    | inr b => exact Evals.pure _

theorem evals_scanBatches (hm : fs.mounted = true) (hdev : fs.dev = some dev) (hf : Faithful dev content)
    (v : View δ) (step : EntryStep σ β) (batch cluster : ℕ) (starts : List ℕ)
    (hs : ∀ s ∈ starts, toRead fs batch s ≠ 0) (acc : σ) :
    Evals (At content v) (scanBatches fs step batch cluster starts acc)
      (.ok (scanDisk step (content v.media) (batchSectors fs batch cluster starts) acc)) (At content v) := by
  induction starts generalizing acc with
  | nil => exact Evals.pure _
  | cons s rest ih =>
    obtain ⟨buf, hbuf, hsec⟩ := evals_readDataSectors hm hdev hf v (u32 (clusterToLba fs cluster + s)) _ (hs s (by simp))
    refine hbuf.bind ?_
    have hfold : foldUntil (fun acc i => scanSector step (u32 (u32 (clusterToLba fs cluster + s) + i)) (buf.sector i) acc)
          acc (List.range (toRead fs batch s)) =
        scanDisk step (content v.media) ((List.range (toRead fs batch s)).map fun i =>
          u32 (clusterToLba fs cluster + (s + i))) acc := by
      rw [scanDisk, foldUntil_map]
      refine foldUntil_congr (fun i hi acc => ?_) acc
      rw [hsec i (List.mem_range.1 hi), u32_add, Nat.add_assoc]
    rw [hfold, batchSectors, List.flatMap_cons, scanDisk_append]
    cases scanDisk step (content v.media) ((List.range (toRead fs batch s)).map fun i =>
        u32 (clusterToLba fs cluster + (s + i))) acc with
    | inl acc' => exact ih (fun s hs' => hs s (by simp [hs'])) acc'
    | inr b => exact Evals.pure _

end Scan

/-- The bytes of sectors of a disk, up to the size of the file. -/
def readDisk (fileSize : ℕ) (disk : ℕ → Sector) (lbas : List ℕ) (written : List UInt8) : List UInt8 :=
  lbas.foldl (fun written lba => written ++ (Sector.toList (disk lba)).take (fileSize - written.length)) written

theorem readDisk_append (fileSize : ℕ) (disk : ℕ → Sector) (lbas lbas' : List ℕ) (written : List UInt8) :
    readDisk fileSize disk (lbas ++ lbas') written =
      readDisk fileSize disk lbas' (readDisk fileSize disk lbas written) := List.foldl_append

/-- Nothing is added once the size is reached. -/
theorem readDisk_full {fileSize : ℕ} (disk : ℕ → Sector) (lbas : List ℕ) {written : List UInt8}
    (h : fileSize ≤ written.length) : readDisk fileSize disk lbas written = written := by
  induction lbas with
  | nil => rfl
  | cons lba rest ih =>
    rw [readDisk, List.foldl_cons, Nat.sub_eq_zero_of_le h, List.take_zero, List.append_nil]
    exact ih

theorem evals_readBatches (hm : fs.mounted = true) (hdev : fs.dev = some dev) (hf : Faithful dev content)
    (v : View δ) (fileSize batch cluster : ℕ) (starts : List ℕ)
    (hs : ∀ s ∈ starts, toRead fs batch s ≠ 0) (written : List UInt8) :
    Evals (At content v) (readBatches fs fileSize batch cluster starts written)
      (.ok (readDisk fileSize (content v.media) (batchSectors fs batch cluster starts) written)) (At content v) := by
  induction starts generalizing written with
  | nil => exact Evals.pure _
  | cons s rest ih =>
    rw [readBatches]
    split
    · obtain ⟨buf, hbuf, hsec⟩ :=
        evals_readDataSectors hm hdev hf v (u32 (clusterToLba fs cluster + s)) _ (hs s (by simp))
      refine hbuf.bind ?_
      have htake : takeSectors fileSize buf (List.range (toRead fs batch s)) written =
          readDisk fileSize (content v.media) ((List.range (toRead fs batch s)).map fun i =>
            u32 (clusterToLba fs cluster + (s + i))) written := by
        rw [takeSectors, readDisk, List.foldl_map]
        refine List.foldl_ext _ _ _ fun acc i hi => ?_
        rw [hsec i (List.mem_range.1 hi), u32_add, Nat.add_assoc]
      rw [htake, batchSectors, List.flatMap_cons, readDisk_append]
      exact ih (fun s hs' => hs s (by simp [hs'])) _
    · rename_i hfull
      rw [readDisk_full _ _ (by omega)]
      exact Evals.pure _

end Access

/-! ### Operations -/

/-- Both states have coherent caches and the same view. -/
def SameView (content : δ → ℕ → Sector) (w w' : Driver δ) : Prop := ∃ v, At content v w ∧ At content v w'

section Operations

variable {fs : Fat32State δ}

/-- A mounted volume is on a faithful device. -/
def OnFaithful (fs : Fat32State δ) (content : δ → ℕ → Sector) : Prop :=
  fs.mounted = true → ∃ dev, fs.dev = some dev ∧ Faithful dev content

theorem sim_readSectorCached (hdev : OnFaithful fs content) (lba : ℕ) (useFat : Bool) :
    Sim (SameView content) (fun _ => True) (readSectorCached fs lba useFat) (readSectorCached fs lba useFat) := by
  refine Sim.require.bind fun _ hm => ?_
  obtain ⟨dev, hd, hf⟩ := hdev hm
  have h := fun v => evals_readSectorCached hm hd hf v lba useFat
  rw [readSectorCached, require_pos hm, pure_bind_eq] at h
  exact Sim.of_evals fun v => ⟨_, _, h v, h v⟩

theorem sim_writeSectorUncached (hdev : OnFaithful fs content) (lba : ℕ) (sec : Sector) :
    Sim (SameView content) (fun _ => True) (writeSectorUncached fs lba sec) (writeSectorUncached fs lba sec) := by
  refine Sim.require.bind fun _ hm => ?_
  obtain ⟨dev, hd, hf⟩ := hdev hm
  cases hw : dev.writeSector with
  | none =>
    rw [hd, Option.bind_some, hw]
    exact Sim.fail
  | some write =>
    have h := fun v => evals_writeSectorUncached hm hd hf hw v lba sec
    rw [writeSectorUncached, require_pos hm, pure_bind_eq] at h
    exact Sim.of_evals fun v => ⟨_, _, h v, h v⟩

/-- The batch size may differ between the two runs. -/
theorem sim_sectorsPerRead_bind {α : Type} {f : ℕ → M δ α}
    (hf : ∀ b b', 1 ≤ b → 1 ≤ b' → Sim (SameView content) (fun _ => True) (f b) (f b')) :
    Sim (SameView content) (fun _ => True) (sectorsPerRead fs >>= f) (sectorsPerRead fs >>= f) := by
  refine Sim.gets_bind (T := fun b => 1 ≤ b) ?_ hf
  rintro w w' ⟨v, hw, hw'⟩
  have := hw.batch_pos
  have := hw'.batch_pos
  constructor <;> rw [batchSize] <;> split <;> omega

theorem compat_sameView (hdev : OnFaithful fs content) : Compat fs (SameView content) fun _ => True where
  lastError_eq := by
    rintro w w' ⟨v, hw, hw'⟩
    rw [hw.error_eq, hw'.error_eq]
  setError := by
    rintro w w' msg ⟨v, hw, hw'⟩
    exact ⟨_, hw.setError msg, hw'.setError msg⟩
  hint_eq := by
    rintro w w' ⟨v, hw, hw'⟩
    rw [hw.hint_eq, hw'.hint_eq]
  setHint := by
    rintro w w' c ⟨v, hw, hw'⟩
    exact ⟨_, hw.setHint c, hw'.setHint c⟩
  read := fun lba useFat _ => sim_readSectorCached hdev lba useFat
  write := fun lba sec _ => sim_writeSectorUncached hdev lba sec
  fatSector_ok := fun _ _ => trivial
  dataSector_ok := fun _ _ _ => trivial
  firstSector_ok := fun _ => trivial

theorem sim_lsDirCluster (hdev : OnFaithful fs content) (fuel c max : ℕ) :
    Sim (SameView content) (fun _ => True) (lsDirCluster fs fuel c max) (lsDirCluster fs fuel c max) := by
  refine Sim.require.bind fun _ hm => sim_sectorsPerRead_bind fun b b' hb hb' => ?_
  obtain ⟨dev, hd, hf⟩ := hdev hm.1
  refine (compat_sameView hdev).sim_walkChain (P := fun _ => True) (fun c acc _ => ?_)
    (fun _ _ _ => Sim.pure trivial) (fun _ => Sim.pure trivial) fuel c []
  have h := fun (v : View δ) (b : ℕ) (hb : 1 ≤ b) => evals_scanBatches hm.1 hd hf v (lsStep max) b c
    (batchStarts fs b) (fun s hs => toRead_ne_zero hb hs) acc
  refine (Sim.of_evals fun v => ⟨_, v, h v b hb, ?_⟩).mono fun _ _ _ _ => trivial
  rw [batchSectors_batchStarts fs hb, ← batchSectors_batchStarts fs hb' c]
  exact h v b' hb'

theorem listCompat_sameView (hdev : OnFaithful fs content) : ListCompat fs (SameView content) fun _ => True :=
  { compat_sameView hdev with list := sim_lsDirCluster hdev }

theorem sim_readClusters (hdev : OnFaithful fs content) (hm : fs.mounted = true) (fileSize : ℕ) {b b' : ℕ}
    (hb : 1 ≤ b) (hb' : 1 ≤ b') (fuel cur : ℕ) (written : List UInt8) :
    Sim (SameView content) (fun _ => True) (readClusters fs fileSize b fuel cur written)
      (readClusters fs fileSize b' fuel cur written) := by
  obtain ⟨dev, hd, hf⟩ := hdev hm
  induction fuel generalizing cur written with
  | zero =>
    rw [readClusters, readClusters]
    split
    · exact Sim.hang
    · exact Sim.pure trivial
  | succ fuel ih =>
    rw [readClusters, readClusters]
    split
    · have h := fun (v : View δ) (b : ℕ) (hb : 1 ≤ b) => evals_readBatches hm hd hf v fileSize b cur
        (batchStarts fs b) (fun s hs => toRead_ne_zero hb hs) written
      refine Sim.bind (Sim.of_evals fun v => ⟨_, v, h v b hb, ?_⟩) fun written' _ => ?_
      · rw [batchSectors_batchStarts fs hb, ← batchSectors_batchStarts fs hb' cur]
        exact h v b' hb'
      split
      · exact Sim.pure trivial
      refine ((compat_sameView hdev).sim_nextCluster cur).bind fun next _ => ?_
      split
      · exact Sim.pure trivial
      · exact ih next written'
    · exact Sim.pure trivial

theorem sim_readFileEntry (hdev : OnFaithful fs content) (hm : fs.mounted = true) (fuel : ℕ) (entry : Entry)
    (cap : ℕ) :
    Sim (SameView content) (fun _ => True) (readFileEntry fs fuel entry cap) (readFileEntry fs fuel entry cap) := by
  refine Sim.require.bind fun _ _ => ?_
  split
  · exact Sim.pure trivial
  · exact sim_sectorsPerRead_bind fun b b' hb hb' =>
      (sim_readClusters hdev hm _ hb hb' fuel _ []).bind fun _ _ => Sim.pure trivial

theorem sim_pathOp (hdev : OnFaithful fs content) (fuel : ℕ) (o : PathOp) :
    Sim (SameView content) (fun _ => True) (o.run fs fuel) (o.run fs fuel) :=
  (listCompat_sameView hdev).sim_run fuel o fun path cap _ =>
    (compat_sameView hdev).sim_readFilePath fuel path cap fun hm entry => sim_readFileEntry hdev hm fuel entry cap

end Operations

/-! ### Runs -/

/-- A call that changes how the driver caches or batches. -/
inductive Tuning where
  | flushCache
  | setIoBatchSectors (count : ℕ)
  | setDataCacheEnabled (enabled : Bool)
  | setFatCacheEnabled (enabled : Bool)

def Tuning.run : Tuning → M δ Unit
  | .flushCache => Fat32.flushCache
  | .setIoBatchSectors count => Fat32.setIoBatchSectors count
  | .setDataCacheEnabled enabled => Fat32.setDataCacheEnabled enabled
  | .setFatCacheEnabled enabled => Fat32.setFatCacheEnabled enabled

theorem At.tuning {v : View δ} {w : Driver δ} (h : At content v w) (t : Tuning) : At content v (t.run w).2 := by
  cases t with
  | flushCache => exact At.flush h.view_eq h.batch_pos
  | setIoBatchSectors count =>
    by_cases hc : 1 ≤ count ∧ count ≤ FAT32_MAX_IO_BATCH_SECTORS
    · rw [Tuning.run, Fat32.setIoBatchSectors, require_pos hc]
      exact ⟨h.view_eq, hc.1, h.cache_ok⟩
    · rw [Tuning.run, Fat32.setIoBatchSectors, require_neg hc]
      exact h
  | setDataCacheEnabled enabled => exact At.flush h.view_eq h.batch_pos
  | setFatCacheEnabled enabled => exact At.flush h.view_eq h.batch_pos

inductive Event where
  | op (o : PathOp)
  | tune (t : Tuning)

/-- The operations of a run, without the tuning calls between them. -/
def pathOps (es : List Event) : List PathOp := es.filterMap fun
  | .op o => some o
  | .tune _ => none

/-- What a run shows after each operation: its result, the error text and the
medium. A run ends at an operation that does not return. -/
def runEvents (fs : Fat32State δ) (fuel : ℕ) : List Event → Driver δ → List (Outcome OpResult × String × δ)
  | [], _ => []
  | .tune t :: es, w => runEvents fs fuel es (t.run w).2
  | .op o :: es, w =>
    let (r, w) := o.run fs fuel w
    (r, w.lastError, w.media) :: if r = .hang then [] else runEvents fs fuel es w

theorem runEvents_op (fs : Fat32State δ) (fuel : ℕ) (o : PathOp) (es : List Event) (w : Driver δ) :
    runEvents fs fuel (.op o :: es) w =
      ((o.run fs fuel w).1, (o.run fs fuel w).2.lastError, (o.run fs fuel w).2.media) ::
        if (o.run fs fuel w).1 = .hang then [] else runEvents fs fuel es (o.run fs fuel w).2 := rfl

/-- Tuning calls may be left out of a run. -/
theorem runEvents_pathOps {fs : Fat32State δ} (hdev : OnFaithful fs content) (fuel : ℕ) (es : List Event)
    {w w' : Driver δ} (hw : SameView content w w') :
    runEvents fs fuel es w = runEvents fs fuel ((pathOps es).map .op) w' := by
  induction es generalizing w w' with
  | nil => rfl
  | cons e es ih =>
    cases e with
    | tune t =>
      obtain ⟨v, hv, hv'⟩ := hw
      exact ih ⟨v, hv.tuning t, hv'⟩
    | op o =>
      obtain ⟨hR, hout, -⟩ := sim_pathOp hdev fuel o w w' hw
      obtain ⟨v, hv, hv'⟩ := id hR
      have hcons : pathOps (.op o :: es) = o :: pathOps es := rfl
      rw [hcons, List.map_cons, runEvents_op, runEvents_op, hout, hv.error_eq, hv'.error_eq, hv.media_eq, hv'.media_eq, ih hR]

/-- Two runs of the same operations from the same image show the same, whatever
the caches, the batch sizes and the flushes in between. -/
theorem tuning_invisible {fs : Fat32State δ} (hdev : OnFaithful fs content) (fuel : ℕ) {es es' : List Event}
    (hops : pathOps es = pathOps es') {v : View δ} {w w' : Driver δ} (hw : At content v w) (hw' : At content v w') :
    runEvents fs fuel es w = runEvents fs fuel es' w' := by
  rw [runEvents_pathOps hdev fuel es ⟨v, hw, hw'⟩, hops, ← runEvents_pathOps hdev fuel es' ⟨v, hw', hw'⟩]

/-! ### A disk -/

/-- A device that is its own contents. -/
def diskDevice : BlockDevice (ℕ → Sector) where
  present := true
  readSector := some fun lba d => (some (d lba), d)
  writeSector := some fun lba sec d => (true, Function.update d lba sec)
  readSectors := some fun lba _ d => (some fun j => (d (u32 (lba + j / 512))).get (j % 512), d)

theorem diskDevice_faithful : Faithful diskDevice id where
  read_eq := ⟨_, rfl, fun _ _ => rfl⟩
  readRun_eq := by
    rintro _ ⟨⟩ lba count d
    refine ⟨_, rfl, fun i _ => ?_⟩
    funext j
    have hj := j.isLt
    rw [Buffer.sector, show (i * 512 + j.val) / 512 = i by omega, show (i * 512 + j.val) % 512 = j.val by omega,
      Block.get_of_lt _ hj, id]
  write_ok := by
    rintro _ ⟨⟩ lba sec d -
    rfl
  write_fail := by
    rintro _ ⟨⟩ lba sec d h
    simp at h

theorem smallVolume_onFaithful : OnFaithful (smallVolume diskDevice) id := fun _ => ⟨_, rfl, diskDevice_faithful⟩

theorem at_initialDriver (content : δ → ℕ → Sector) (media : δ) :
    At content ⟨media, 0, ""⟩ (initialDriver media) :=
  ⟨rfl, Nat.le_of_ble_eq_true rfl, cacheAll_initialDriver _ media⟩

theorem tuning_invisible_smallVolume :
    runEvents (smallVolume diskDevice) 200 [.op (.ls none 8), .op (.mkdir (some [65]))] (initialDriver fun _ => Block.zero) =
      runEvents (smallVolume diskDevice) 200 [.tune (.setIoBatchSectors 7), .op (.ls none 8), .tune .flushCache,
        .op (.mkdir (some [65])), .tune (.setFatCacheEnabled false)] (initialDriver fun _ => Block.zero) := by
  have hops : pathOps [.op (.ls none 8), .op (.mkdir (some [65]))] =
      pathOps [.tune (.setIoBatchSectors 7), .op (.ls none 8), .tune .flushCache,
        .op (.mkdir (some [65])), .tune (.setFatCacheEnabled false)] := rfl
  exact tuning_invisible smallVolume_onFaithful 200 hops (at_initialDriver id _) (at_initialDriver id _)

end Tg11Kernel.Fat32
