import Tg11Kernel.Fat32.Table

/-! Mounting a volume. The geometry every later access relies on is computed here
from the boot record with unsigned 32-bit arithmetic. `SoundGeometry` says what
the driver needs of it; a mount guarantees it exactly for the boot records that
satisfy `GeometryFits`, which `fat32_mount` itself does not check. -/

namespace Tg11Kernel.Fat32

open Lib

variable {δ : Type}

/-! ### The boot record -/

def bootIsFat32 (sec : Sector) : Prop :=
  (sec.get 510 = 0x55 ∧ sec.get 511 = 0xAA) ∧
  (sec.get 82 = 70 ∧ sec.get 83 = 65 ∧ sec.get 84 = 84 ∧ sec.get 85 = 51 ∧ sec.get 86 = 50) ∧
  rd16 sec 11 = 512 ∧
  (sec.get 13 ≠ 0 ∧ sec.get 13 &&& (sec.get 13 - 1) = 0) ∧
  (rd16 sec 14 ≠ 0 ∧ sec.get 16 ≠ 0) ∧
  rd32 sec 32 ≠ 0 ∧
  rd32 sec 36 ≠ 0 ∧
  2 ≤ rd32 sec 44 ∧
  rd16 sec 19 = 0 ∧
  rd16 sec 22 = 0

instance (sec : Sector) : Decidable (bootIsFat32 sec) := inferInstanceAs (Decidable (_ ∧ _))

/-- The fields `fat32_mount` takes from the boot record. -/
def readBootRecord (fs : Fat32State δ) (dev : BlockDevice δ) (startLba : ℕ) (sec : Sector) : Fat32State δ :=
  { fs with
    dev := some dev
    startLba := startLba
    bytesPerSector := rd16 sec 11
    sectorsPerCluster := (sec.get 13).toNat
    reservedSectors := rd16 sec 14
    fatCount := (sec.get 16).toNat
    sectorsPerFat := rd32 sec 36
    rootCluster := rd32 sec 44
    totalSectors := if rd16 sec 19 ≠ 0 then rd16 sec 19 else rd32 sec 32 }

def dataStartRel (fs : Fat32State δ) : ℕ := u32 (fs.reservedSectors + fs.fatCount * fs.sectorsPerFat)

def dataSectors (fs : Fat32State δ) : ℕ := fs.totalSectors - dataStartRel fs

def setDataClusters (fs : Fat32State δ) : Fat32State δ :=
  { fs with dataClusters := dataSectors fs / fs.sectorsPerCluster }

def setMaxDataCluster (fs : Fat32State δ) : Fat32State δ :=
  { fs with maxDataCluster := u32 (fs.dataClusters + 1) }

/-- The last assignments: the two areas, and the volume counts as mounted. -/
def setAreas (fs : Fat32State δ) : Fat32State δ :=
  let fatStartLba := u32 (fs.startLba + fs.reservedSectors)
  { fs with
    fatStartLba := fatStartLba
    dataStartLba := u32 (fatStartLba + fs.fatCount * fs.sectorsPerFat)
    mounted := true }

/-! ### Mounting -/

/-- Code that may also change the mounted volume. -/
abbrev MountM (δ : Type) := Exec (Fat32State δ × Driver δ)

def onDriver {α : Type} (m : M δ α) : MountM δ α := fun s => ((m s.2).1, (s.1, (m s.2).2))

def setVolume (f : Fat32State δ → Fat32State δ) : MountM δ Unit := Exec.modify fun s => (f s.1, s.2)

/-- `if (m() != 0) { fat32_set_error(msg); return -1; }` -/
def orMountError {α : Type} (m : MountM δ α) (msg : String) : MountM δ α := m.orElse (onDriver (setError msg))

/-- `if (!p(fs)) { fat32_set_error(msg); return -1; }` -/
def checkVolume (p : Fat32State δ → Prop) [DecidablePred p] (msg : String) : MountM δ Unit := do
  let fs ← Exec.gets (·.1)
  orMountError (Exec.require (p fs)) msg

/-- The boot record: sector 0 itself, or the first sector of the first partition. -/
def findBootRecord (read : ℕ → δ → Option Sector × δ) : MountM δ (ℕ × Sector) := do
  let sec ← orMountError (onDriver (deviceRead (read 0))) "mount: read boot sector failed"
  if bootIsFat32 sec then pure (0, sec)
  else do
    orMountError (Exec.require (sec.get 510 = 0x55 ∧ sec.get 511 = 0xAA)) "mount: invalid MBR signature"
    let partLba := rd32 sec (446 + 8)
    orMountError (Exec.require (partLba ≠ 0)) "mount: no active FAT partition"
    let sec ← orMountError (onDriver (deviceRead (read partLba))) "mount: read partition boot failed"
    orMountError (Exec.require (bootIsFat32 sec)) "mount: partition is not FAT32"
    pure (partLba, sec)

def mount (dev : Option (BlockDevice δ)) : MountM δ Unit := do
  setVolume fun fs => { fs with mounted := false }
  onDriver clearError
  let dev ← orMountError (Exec.ofOption dev) "mount: device not present"
  orMountError (Exec.require (dev.present = true)) "mount: device not present"
  let read ← orMountError (Exec.ofOption dev.readSector) "mount: device not present"
  let (startLba, sec) ← findBootRecord read
  setVolume fun fs => readBootRecord fs dev startLba sec
  checkVolume (fun fs => fs.bytesPerSector = 512) "mount: unsupported sector size"
  checkVolume (fun fs => fs.sectorsPerCluster ≠ 0 ∧ fs.fatCount ≠ 0 ∧ fs.sectorsPerFat ≠ 0 ∧ 2 ≤ fs.rootCluster)
    "mount: invalid FAT32 BPB fields"
  checkVolume (fun fs => fs.totalSectors ≠ 0) "mount: total sectors is zero"
  checkVolume (fun fs => dataStartRel fs < fs.totalSectors) "mount: data area outside volume"
  checkVolume (fun fs => fs.sectorsPerCluster ≤ dataSectors fs) "mount: data area too small"
  setVolume setDataClusters
  checkVolume (fun fs => fs.dataClusters ≠ 0) "mount: zero data clusters"
  setVolume setMaxDataCluster
  onDriver (Exec.modify fun w => { w with allocHintCluster := 2 })
  checkVolume (fun fs => clusterIsValid fs fs.rootCluster) "mount: root cluster out of range"
  setVolume setAreas
  onDriver flushCache
  onDriver clearError

/-! ### What a mount guarantees -/

/-- The facts about a mounted volume that hold for every boot record. -/
structure Mounted (fs : Fat32State δ) : Prop where
  mounted : fs.mounted = true
  bytesPerSector : fs.bytesPerSector = 512
  sectorsPerCluster_pos : 0 < fs.sectorsPerCluster
  fatCount_pos : 0 < fs.fatCount
  dataClusters_pos : 0 < fs.dataClusters
  maxDataCluster : fs.maxDataCluster = fs.dataClusters + 1
  rootCluster : clusterIsValid fs fs.rootCluster

/-- The sector numbers the driver computes for valid clusters: each table entry
lies in its own copy of the table, each data sector in the data area of the
volume, two clusters share no sector, and no 32-bit computation wraps. -/
structure SoundGeometry (fs : Fat32State δ) : Prop where
  copy_inside : ∀ c, clusterIsValid fs c → ∀ k < fs.fatCount,
    fs.fatStartLba + k * fs.sectorsPerFat ≤ fatSector fs k c ∧
      fatSector fs k c < fs.fatStartLba + (k + 1) * fs.sectorsPerFat
  data_inside : ∀ c, clusterIsValid fs c → ∀ s < fs.sectorsPerCluster,
    fs.dataStartLba ≤ u32 (clusterToLba fs c + s) ∧
      u32 (clusterToLba fs c + s) < fs.startLba + fs.totalSectors
  data_distinct : ∀ c c', clusterIsValid fs c → clusterIsValid fs c' → ∀ s < fs.sectorsPerCluster,
    ∀ s' < fs.sectorsPerCluster,
    u32 (clusterToLba fs c + s) = u32 (clusterToLba fs c' + s') → c = c' ∧ s = s'
  fatStart_noWrap : fs.fatStartLba = fs.startLba + fs.reservedSectors
  dataStart_noWrap : fs.dataStartLba = fs.fatStartLba + fs.fatCount * fs.sectorsPerFat
  dataStartRel_noWrap : dataStartRel fs = fs.reservedSectors + fs.fatCount * fs.sectorsPerFat
  fatOffset_noWrap : ∀ c, clusterIsValid fs c → fatOffset c = c * 4
  fatSector_noWrap : ∀ c, clusterIsValid fs c → ∀ k < fs.fatCount,
    fatSector fs k c = fs.fatStartLba + k * fs.sectorsPerFat + c * 4 / fs.bytesPerSector
  clusterToLba_noWrap : ∀ c, clusterIsValid fs c →
    clusterToLba fs c = fs.dataStartLba + (c - 2) * fs.sectorsPerCluster
  dataLba_noWrap : ∀ c, clusterIsValid fs c → ∀ s < fs.sectorsPerCluster,
    u32 (clusterToLba fs c + s) = clusterToLba fs c + s

/-- What the assignments of `fat32_mount` and its checks leave behind. -/
structure Computed (fs : Fat32State δ) : Prop where
  bytesPerSector : fs.bytesPerSector = 512
  sectorsPerCluster_pos : 0 < fs.sectorsPerCluster
  fatCount_pos : 0 < fs.fatCount
  fatStart : fs.fatStartLba = u32 (fs.startLba + fs.reservedSectors)
  dataStart : fs.dataStartLba = u32 (fs.fatStartLba + fs.fatCount * fs.sectorsPerFat)
  dataStartRel_lt : dataStartRel fs < fs.totalSectors
  totalSectors_lt : fs.totalSectors < 2 ^ 32
  dataClusters_pos : 0 < fs.dataClusters
  dataClusters : fs.dataClusters = dataSectors fs / fs.sectorsPerCluster
  maxDataCluster : fs.maxDataCluster = fs.dataClusters + 1

section Arithmetic

variable {fs : Fat32State δ}

theorem u32_of_lt {n : ℕ} (h : n < 2 ^ 32) : u32 n = n := Nat.mod_eq_of_lt h

theorem lt_of_u32_eq {n m : ℕ} (h : u32 n = m) : m < 2 ^ 32 := h ▸ Nat.mod_lt _ (by decide)

theorem clusterIsValid_iff (h : Computed fs) (c : ℕ) : clusterIsValid fs c ↔ 2 ≤ c ∧ c ≤ fs.dataClusters + 1 := by
  have hd := h.dataClusters_pos
  simp only [clusterIsValid, h.maxDataCluster]
  omega

/-- With the data area inside the volume, the last cluster ends inside it too. -/
theorem dataClusters_mul_le (h : Computed fs) :
    dataStartRel fs + fs.dataClusters * fs.sectorsPerCluster ≤ fs.totalSectors := by
  have hlt := h.dataStartRel_lt
  have hle : fs.dataClusters * fs.sectorsPerCluster ≤ dataSectors fs := by
    rw [h.dataClusters]
    exact Nat.div_mul_le_self _ _
  rw [dataSectors] at hle
  omega

/-- The condition on the arithmetic of the geometry. -/
def Fits (fs : Fat32State δ) : Prop :=
  dataStartRel fs = fs.reservedSectors + fs.fatCount * fs.sectorsPerFat ∧
  fs.dataClusters + 1 < 2 ^ 30 ∧
  fs.dataClusters + 2 ≤ 128 * fs.sectorsPerFat ∧
  fs.startLba + dataStartRel fs + fs.dataClusters * fs.sectorsPerCluster ≤ 2 ^ 32

theorem fits_of_sound (h : Computed fs) (hs : SoundGeometry fs) : Fits fs := by
  have hd := h.dataClusters_pos
  have hlast : clusterIsValid fs (fs.dataClusters + 1) := (clusterIsValid_iff h _).2 ⟨by omega, le_refl _⟩
  have hoff := hs.fatOffset_noWrap _ hlast
  obtain ⟨-, hcopy⟩ := hs.copy_inside _ hlast 0 h.fatCount_pos
  have hsector := hs.fatSector_noWrap _ hlast 0 h.fatCount_pos
  have hlba := hs.clusterToLba_noWrap _ hlast
  have hend := hs.dataLba_noWrap _ hlast (fs.sectorsPerCluster - 1) (by have := h.sectorsPerCluster_pos; omega)
  have hmul : (fs.dataClusters + 1 - 2) * fs.sectorsPerCluster + fs.sectorsPerCluster =
      fs.dataClusters * fs.sectorsPerCluster := by
    rw [← Nat.succ_mul]
    congr 1
    omega
  refine ⟨hs.dataStartRel_noWrap, ?_, ?_, ?_⟩
  · have := lt_of_u32_eq hoff
    omega
  · rw [hsector, h.bytesPerSector] at hcopy
    omega
  · have := lt_of_u32_eq hend
    rw [hs.dataStartRel_noWrap]
    have := hs.fatStart_noWrap
    have := hs.dataStart_noWrap
    have := h.sectorsPerCluster_pos
    omega

theorem sound_of_fits (h : Computed fs) (hf : Fits fs) : SoundGeometry fs := by
  obtain ⟨hrel, hcount, hcover, hend⟩ := hf
  have hd := h.dataClusters_pos
  have hspc := h.sectorsPerCluster_pos
  have hone : fs.sectorsPerCluster ≤ fs.dataClusters * fs.sectorsPerCluster := Nat.le_mul_of_pos_left _ hd
  have hin := dataClusters_mul_le h
  have htotal := h.totalSectors_lt
  have hfat : fs.fatStartLba = fs.startLba + fs.reservedSectors := by
    rw [h.fatStart, u32_of_lt (by omega)]
  have hdata : fs.dataStartLba = fs.fatStartLba + fs.fatCount * fs.sectorsPerFat := by
    rw [h.dataStart, u32_of_lt (by omega)]
  have hoff : ∀ c, clusterIsValid fs c → fatOffset c = c * 4 := by
    intro c hc
    have := (clusterIsValid_iff h c).1 hc
    exact u32_of_lt (by omega)
  have hentry : ∀ c, clusterIsValid fs c → c * 4 / 512 < fs.sectorsPerFat := by
    intro c hc
    have := (clusterIsValid_iff h c).1 hc
    omega
  have hsector : ∀ c, clusterIsValid fs c → ∀ k < fs.fatCount,
      fatSector fs k c = fs.fatStartLba + k * fs.sectorsPerFat + c * 4 / 512 := by
    intro c hc k hk
    have hmul : (k + 1) * fs.sectorsPerFat ≤ fs.fatCount * fs.sectorsPerFat := Nat.mul_le_mul_right _ hk
    have := hentry c hc
    rw [Nat.succ_mul] at hmul
    rw [fatSector, hoff c hc, h.bytesPerSector, u32_of_lt (by omega)]
  have hbase : ∀ c, clusterIsValid fs c →
      (c - 2) * fs.sectorsPerCluster + fs.sectorsPerCluster ≤ fs.dataClusters * fs.sectorsPerCluster := by
    intro c hc
    have := (clusterIsValid_iff h c).1 hc
    rw [← Nat.succ_mul]
    exact Nat.mul_le_mul_right _ (by omega)
  have hlba : ∀ c, clusterIsValid fs c →
      clusterToLba fs c = fs.dataStartLba + (c - 2) * fs.sectorsPerCluster := by
    intro c hc
    have := (clusterIsValid_iff h c).1 hc
    have := hbase c hc
    rw [clusterToLba, show (c + (2 ^ 32 - 2)) % 2 ^ 32 = c - 2 by omega, u32_of_lt (by omega)]
  have hsec : ∀ c, clusterIsValid fs c → ∀ s < fs.sectorsPerCluster,
      u32 (clusterToLba fs c + s) = clusterToLba fs c + s := by
    intro c hc s hs
    have := hbase c hc
    rw [hlba c hc, u32_of_lt (by omega)]
  refine ⟨fun c hc k hk => ?_, fun c hc s hs => ?_, fun c c' hc hc' s hs s' hs' heq => ?_, hfat, hdata, hrel,
    hoff, fun c hc k hk => ?_, hlba, hsec⟩
  · have := hentry c hc
    rw [hsector c hc k hk, Nat.succ_mul]
    omega
  · have := hbase c hc
    rw [hsec c hc s hs, hlba c hc]
    omega
  · rw [hsec c hc s hs, hsec c' hc' s' hs', hlba c hc, hlba c' hc', Nat.add_assoc, Nat.add_assoc,
      Nat.add_left_cancel_iff] at heq
    have hcc := (clusterIsValid_iff h c).1 hc
    have hcc' := (clusterIsValid_iff h c').1 hc'
    have hq : c - 2 = c' - 2 := by
      have hdiv := congrArg (· / fs.sectorsPerCluster) heq
      simpa only [Nat.mul_comm _ fs.sectorsPerCluster, Nat.mul_add_div hspc, Nat.div_eq_of_lt hs,
        Nat.div_eq_of_lt hs', Nat.add_zero] using hdiv
    have : c = c' := by omega
    subst this
    exact ⟨rfl, by omega⟩
  · rw [hsector c hc k hk, h.bytesPerSector]

theorem sound_iff_fits (h : Computed fs) : SoundGeometry fs ↔ Fits fs := ⟨fits_of_sound h, sound_of_fits h⟩

end Arithmetic

/-! ### Runs of a mount -/

section Run

variable {s s' : Fat32State δ × Driver δ} {u : Unit}

theorem orMountError_ok_iff {α : Type} {m : MountM δ α} {msg : String} {a : α} :
    orMountError m msg s = (.ok a, s') ↔ m s = (.ok a, s') := Exec.orElse_ok_iff

theorem checkVolume_ok_iff {p : Fat32State δ → Prop} [DecidablePred p] {msg : String} :
    checkVolume p msg s = (.ok u, s') ↔ p s.1 ∧ s' = s := by
  rw [checkVolume, Exec.bind_ok (Exec.gets_apply _ _), orMountError_ok_iff, Exec.require_ok_iff]

theorem onDriver_ok_iff {α : Type} {m : M δ α} {a : α} :
    onDriver m s = (.ok a, s') ↔ m s.2 = (.ok a, s'.2) ∧ s'.1 = s.1 := by
  simp only [onDriver, Prod.ext_iff]
  constructor <;> simp +contextual

theorem setVolume_ok_iff {f : Fat32State δ → Fat32State δ} : setVolume f s = (.ok u, s') ↔ s' = (f s.1, s.2) := by
  simp [setVolume, eq_comm]

/-- The boot record in use, read from the medium `d`: the partition it starts and the sector. -/
def bootRecord (read : ℕ → δ → Option Sector × δ) (d : δ) : Option (ℕ × Sector) :=
  match read 0 d with
  | (none, _) => none
  | (some sec, d) =>
    if bootIsFat32 sec then some (0, sec) else (read (rd32 sec 454) d).1.map fun sec' => (rd32 sec 454, sec')

theorem deviceRead_ok_iff {α : Type} {read : δ → Option α × δ} {a : α} {w w' : Driver δ} :
    deviceRead read w = (.ok a, w') ↔ (read w.media).1 = some a ∧ w' = { w with media := (read w.media).2 } := by
  rw [deviceRead]
  rcases read w.media with ⟨_ | b, d⟩ <;> simp [eq_comm]

theorem findBootRecord_ok {read : ℕ → δ → Option Sector × δ} {r : ℕ × Sector}
    (h : findBootRecord read s = (.ok r, s')) :
    bootRecord read s.2.media = some r ∧ bootIsFat32 r.2 ∧ r.1 < 2 ^ 32 ∧ s'.1 = s.1 ∧
      s'.2 = { s.2 with media := s'.2.media } := by
  rw [findBootRecord, Exec.bind_ok_iff] at h
  obtain ⟨sec, t, ht, h⟩ := h
  rw [orMountError_ok_iff, onDriver_ok_iff, deviceRead_ok_iff] at ht
  obtain ⟨⟨hsec, ht2⟩, ht1⟩ := ht
  have hread : read 0 s.2.media = (some sec, t.2.media) := Prod.ext hsec (by rw [ht2])
  split at h
  · rename_i hb
    obtain ⟨rfl, rfl⟩ : (0, sec) = r ∧ t = s' := by simpa using h
    exact ⟨by simp only [bootRecord, hread, if_pos hb], hb, by simp, ht1, by rw [ht2]⟩
  · rename_i hb
    simp only [Exec.bind_ok_iff, orMountError_ok_iff, Exec.require_ok_iff, onDriver_ok_iff,
      deviceRead_ok_iff] at h
    obtain ⟨_, t₁, ⟨-, rfl⟩, _, t₂, ⟨-, rfl⟩, sec', t₃, ⟨⟨hsec', ht3'⟩, ht3⟩, _, t₄, ⟨hb', rfl⟩, h⟩ := h
    obtain ⟨rfl, rfl⟩ : (rd32 sec (446 + 8), sec') = r ∧ t₄ = s' := by simpa using h
    refine ⟨?_, hb', rd32_lt _ _, ht3.trans ht1, by rw [ht3', ht2]⟩
    simp only [bootRecord, hread, if_neg hb, hsec', Option.map_some]

/-- The volume computed from a boot record. -/
def volumeOf (fs : Fat32State δ) (dev : BlockDevice δ) (startLba : ℕ) (sec : Sector) : Fat32State δ :=
  setAreas (setMaxDataCluster (setDataClusters (readBootRecord { fs with mounted := false } dev startLba sec)))

/-- A successful mount computed its geometry from a boot record that passed every check. -/
theorem mount_ok {dev : Option (BlockDevice δ)} (h : mount dev s = (.ok u, s')) :
    ∃ d read startLba sec, dev = some d ∧ d.readSector = some read ∧
      bootRecord read s.2.media = some (startLba, sec) ∧ startLba < 2 ^ 32 ∧ bootIsFat32 sec ∧
      s'.1 = volumeOf s.1 d startLba sec ∧ Computed s'.1 ∧ clusterIsValid s'.1 s'.1.rootCluster ∧
      s'.2 = Driver.flush { s.2 with allocHintCluster := 2, lastError := "", media := s'.2.media } := by
  simp only [mount, Exec.bind_ok_iff, setVolume_ok_iff, orMountError_ok_iff, Exec.ofOption_ok_iff,
    Exec.require_ok_iff, checkVolume_ok_iff, onDriver_ok_iff, and_assoc, exists_and_left, exists_eq_left,
    exists_const] at h
  obtain ⟨_, t, hclear, h₁, d, hdev, -, read, hread, ⟨startLba, sec⟩, t₁, hboot, hbps, hspc, hcount, -, -, -, hrel, -,
    hclusters, _, t₂, hhint, hmax, hroot, _, t₃, hflush, hareas, hdone, hend⟩ := h
  obtain ⟨hrec, hfat, hlt, h₂, hmedia₁⟩ := findBootRecord_ok hboot
  have hmedia : t.2.media = s.2.media := congrArg (fun r => r.2.media) hclear.symm
  rw [hmedia] at hrec
  rw [h₁] at h₂
  dsimp only at hbps hspc hcount hrel hclusters hmax hareas h₂
  rw [h₂] at hbps hspc hcount hrel hclusters hmax
  -- every field but the last cluster number is read off the assignments
  have hvol : s'.1 = volumeOf s.1 d startLba sec := by rw [hend, hareas, hmax, volumeOf]
  have htotal : (volumeOf s.1 d startLba sec).totalSectors < 2 ^ 32 := by
    change (if rd16 sec 19 ≠ 0 then rd16 sec 19 else rd32 sec 32) < 2 ^ 32
    have := rd16_lt sec 19
    have := rd32_lt sec 32
    split <;> omega
  have hvalid : clusterIsValid (volumeOf s.1 d startLba sec) (volumeOf s.1 d startLba sec).rootCluster := by
    rw [hmax] at hroot
    exact hroot
  have hmaxEq : (volumeOf s.1 d startLba sec).maxDataCluster = (volumeOf s.1 d startLba sec).dataClusters + 1 := by
    have hle : (volumeOf s.1 d startLba sec).dataClusters < 2 ^ 32 := by
      refine lt_of_le_of_lt (Nat.div_le_self _ _) (lt_of_le_of_lt (Nat.sub_le _ _) htotal)
    -- a wrap would leave no valid cluster number, but the root is valid
    have hmod : (volumeOf s.1 d startLba sec).maxDataCluster =
        ((volumeOf s.1 d startLba sec).dataClusters + 1) % 2 ^ 32 := rfl
    obtain ⟨h2, -, hle'⟩ := hvalid
    omega
  refine ⟨d, read, startLba, sec, hdev, hread, hrec, hlt, hfat, hvol, ?_, ?_, ?_⟩
  · rw [hvol]
    exact ⟨hbps, Nat.pos_of_ne_zero hspc, Nat.pos_of_ne_zero hcount, rfl, rfl, hrel, htotal,
      Nat.pos_of_ne_zero hclusters, rfl, hmaxEq⟩
  · rw [hvol]
    exact hvalid
  · obtain ⟨-, hclear'⟩ := Prod.mk.inj hclear
    obtain ⟨-, hhint'⟩ := Prod.mk.inj hhint
    obtain ⟨-, hflush'⟩ := Prod.mk.inj hflush
    obtain ⟨-, hdone'⟩ := Prod.mk.inj hdone
    rw [← hdone', ← hflush', ← hhint', hmedia₁, ← hclear']
    rfl

/-- The condition on a boot record under which the geometry computed from it is sound. -/
def GeometryFits (startLba : ℕ) (sec : Sector) : Prop :=
  let dataStart := rd16 sec 14 + (sec.get 16).toNat * rd32 sec 36
  let clusters := (rd32 sec 32 - dataStart) / (sec.get 13).toNat
  dataStart < rd32 sec 32 ∧ clusters + 1 < 2 ^ 30 ∧ clusters + 2 ≤ 128 * rd32 sec 36 ∧
    startLba + dataStart + clusters * (sec.get 13).toNat ≤ 2 ^ 32

theorem fits_volumeOf_iff {d : BlockDevice δ} {fs : Fat32State δ} {startLba : ℕ} {sec : Sector}
    (hb : bootIsFat32 sec) (hc : Computed (volumeOf fs d startLba sec)) :
    Fits (volumeOf fs d startLba sec) ↔ GeometryFits startLba sec := by
  have htotal : (volumeOf fs d startLba sec).totalSectors = rd32 sec 32 := if_neg (by simp [hb.2.2.2.2.2.2.2.2.1])
  have hrel : dataStartRel (volumeOf fs d startLba sec) =
      u32 (rd16 sec 14 + (sec.get 16).toNat * rd32 sec 36) := rfl
  have hclusters : (volumeOf fs d startLba sec).dataClusters =
      (rd32 sec 32 - dataStartRel (volumeOf fs d startLba sec)) / (sec.get 13).toNat := by
    rw [hc.dataClusters, dataSectors, htotal]
    rfl
  have hlt := hc.dataStartRel_lt
  rw [htotal] at hlt
  have h32 := rd32_lt sec 32
  simp only [Fits, GeometryFits, hclusters, hrel] at hlt ⊢
  change u32 _ = rd16 sec 14 + (sec.get 16).toNat * rd32 sec 36 ∧ _ + 1 < 2 ^ 30 ∧ _ + 2 ≤ 128 * rd32 sec 36 ∧
    startLba + u32 _ + _ * (sec.get 13).toNat ≤ 2 ^ 32 ↔ _
  generalize rd16 sec 14 + (sec.get 16).toNat * rd32 sec 36 = start at *
  constructor
  · rintro ⟨heq, h⟩
    rw [heq] at h hlt
    exact ⟨hlt, h⟩
  · rintro ⟨hlt', h⟩
    have heq : u32 start = start := u32_of_lt (by omega)
    rw [heq]
    exact ⟨rfl, h⟩

/-- A mount yields sound geometry exactly from the boot records that fit. -/
theorem mount_sound_iff {dev : Option (BlockDevice δ)} (h : mount dev s = (.ok u, s')) :
    ∃ d read startLba sec, dev = some d ∧ d.readSector = some read ∧
      bootRecord read s.2.media = some (startLba, sec) ∧
      (SoundGeometry s'.1 ↔ GeometryFits startLba sec) := by
  obtain ⟨d, read, startLba, sec, hdev, hread, hrec, -, hfat, hvol, hc, -, -⟩ := mount_ok h
  refine ⟨d, read, startLba, sec, hdev, hread, hrec, ?_⟩
  rw [sound_iff_fits hc, hvol]
  exact fits_volumeOf_iff hfat (hvol ▸ hc)

end Run

/-! ### A table too short for its data area -/

/-- One table copy of one sector, which covers 128 clusters, before a data area of 1022. -/
def shortTableBoot : Sector := fun i =>
  if i.val = 12 then 2 else if i.val = 13 then 1 else if i.val = 14 then 1 else if i.val = 16 then 1
  else if i.val = 33 then 4 else if i.val = 36 then 1 else if i.val = 44 then 2
  else if i.val = 82 then 70 else if i.val = 83 then 65 else if i.val = 84 then 84 else if i.val = 85 then 51
  else if i.val = 86 then 50 else if i.val = 510 then 0x55 else if i.val = 511 then 0xAA else 0

def shortTableDevice : BlockDevice Unit :=
  { present := true
    readSector := some fun _ d => (some shortTableBoot, d)
    writeSector := none
    readSectors := none }

def unmountedVolume {δ : Type} : Fat32State δ :=
  { mounted := false, dev := none, startLba := 0, bytesPerSector := 0, sectorsPerCluster := 0, reservedSectors := 0,
    fatCount := 0, sectorsPerFat := 0, rootCluster := 0, fatStartLba := 0, dataStartLba := 0, totalSectors := 0,
    dataClusters := 0, maxDataCluster := 0 }

def shortTableMount : Outcome Unit × Fat32State Unit × Driver Unit :=
  mount (some shortTableDevice) (unmountedVolume, initialDriver ())

theorem mount_sound_iff_shortTable :
    shortTableMount.1 = .ok () ∧ ∃ d read startLba sec, some shortTableDevice = some d ∧ d.readSector = some read ∧
      bootRecord read () = some (startLba, sec) ∧
      (SoundGeometry shortTableMount.2.1 ↔ GeometryFits startLba sec) := by
  have hok : shortTableMount.1 = .ok () := by decide
  have h : mount (some shortTableDevice) (unmountedVolume, initialDriver ()) = (.ok (), shortTableMount.2) :=
    Prod.ext hok rfl
  exact ⟨hok, mount_sound_iff h⟩

/-- The entry of cluster 200 lies in the data area, past the end of the table. -/
theorem mount_not_sound :
    ¬ ∀ (dev : Option (BlockDevice Unit)) (s s' : Fat32State Unit × Driver Unit),
      mount dev s = (.ok (), s') → SoundGeometry s'.1 := by
  intro h
  have hok : shortTableMount.1 = .ok () := by decide
  have hs : SoundGeometry shortTableMount.2.1 :=
    h (some shortTableDevice) (unmountedVolume, initialDriver ()) shortTableMount.2 (Prod.ext hok rfl)
  have hvalid : clusterIsValid shortTableMount.2.1 200 := by decide
  have hinside := hs.copy_inside 200 hvalid 0 (by decide)
  exact absurd hinside.2 (by decide)

/-! ### A small volume -/

/-- A volume of 100 clusters of one sector. -/
def smallVolume (dev : BlockDevice δ) : Fat32State δ :=
  { mounted := true, dev := some dev, startLba := 0, bytesPerSector := 512, sectorsPerCluster := 1,
    reservedSectors := 1, fatCount := 1, sectorsPerFat := 1, rootCluster := 2, fatStartLba := 1, dataStartLba := 2,
    totalSectors := 102, dataClusters := 100, maxDataCluster := 101 }

theorem smallVolume_mounted (dev : BlockDevice δ) : Mounted (smallVolume dev) :=
  ⟨rfl, rfl, Nat.one_pos, Nat.one_pos, by simp [smallVolume], rfl, by simp [clusterIsValid, smallVolume]⟩

theorem smallVolume_sound (dev : BlockDevice δ) : SoundGeometry (smallVolume dev) :=
  sound_of_fits ⟨rfl, Nat.one_pos, Nat.one_pos, rfl, rfl, by simp [dataStartRel, smallVolume, u32],
    by simp [smallVolume], by simp [smallVolume], by simp [dataSectors, dataStartRel, smallVolume, u32], rfl⟩
    (by simp [Fits, dataStartRel, smallVolume, u32])

end Tg11Kernel.Fat32
