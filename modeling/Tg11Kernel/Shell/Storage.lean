import Tg11Kernel.Fat32.RoundTrip
import Tg11Kernel.Ramfs.Contents

/-! The two file systems behind the commands. A command works on the RAM file system or,
in FAT mode, on the mounted volume; reading and writing a file look the same in both,
but for the size limit of the one and the room on the other. -/

namespace Tg11Kernel.Shell

open Lib Exec

abbrev Path := List UInt8

/-- The state of the two file systems. -/
structure Storage (δ : Type) where
  ramfs : Ramfs.Fs
  fat : Fat32.Driver δ

variable {δ : Type}

namespace Storage

def onRamfs {α : Type} (m : Ramfs.M α) : Exec (Storage δ) α := fun w =>
  let r := m w.ramfs
  (r.1, { w with ramfs := r.2 })

def onFat {α : Type} (m : Fat32.M δ α) : Exec (Storage δ) α := fun w =>
  let r := m w.fat
  (r.1, { w with fat := r.2 })

section Operations

variable (fs : Fat32.Fat32State δ) (fuel : ℕ) (useFat : Bool)

/-- `fat32_read_file_path` or `fs_read_file`: the size reported, and the bytes stored in the caller's buffer. -/
def readFile (path : Path) (capacity : ℕ) : Exec (Storage δ) (ℕ × List UInt8) :=
  if useFat then do
    let result ← onFat (Fat32.readFilePath fs fuel (some path) capacity)
    pure (result.outSize, result.outData)
  else do
    let bytes ← onRamfs (Ramfs.readFile (some path) capacity)
    pure (bytes.length, bytes)

/-- `fat32_write_file_path` or `fs_write_file` -/
def writeFile (path : Path) (data : List UInt8) : Exec (Storage δ) Unit :=
  if useFat then onFat (Fat32.writeFilePath fs fuel (some path) (some data))
  else onRamfs (Ramfs.writeFile (some path) (some data) data.length)

end Operations

/-! ### Contents -/

variable {fs : Fat32.Fat32State δ} {dev : Fat32.BlockDevice δ} {content : δ → ℕ → Fat32.Sector} {fuel : ℕ} {useFat : Bool}
  {w w' : Storage δ} {path : Path} {bytes : List UInt8}

/-- The path leads to a file of these bytes. -/
def Holds (content : δ → ℕ → Fat32.Sector) (fs : Fat32.Fat32State δ) (fuel : ℕ) (useFat : Bool) (w : Storage δ) (path : Path)
    (bytes : List UInt8) : Prop :=
  if useFat then Fat32.Holds content fs fuel w.fat path bytes else Ramfs.Holds w.ramfs path bytes

/-- In FAT mode, a consistent volume on a device that works is mounted. -/
def InOrder (content : δ → ℕ → Fat32.Sector) (dev : Fat32.BlockDevice δ) (fs : Fat32.Fat32State δ) (fuel : ℕ) (useFat : Bool)
    (w : Storage δ) : Prop :=
  useFat = true → Fat32.InOrder content dev fs fuel w.fat

/-- The same files with the same bytes. -/
structure Same (content : δ → ℕ → Fat32.Sector) (w w' : Storage δ) : Prop where
  ramfs : w'.ramfs = w.ramfs
  fat : ∀ disk, Fat32.OnDisk content disk w.fat → Fat32.OnDisk content disk w'.fat

/-- The bytes that a write leaves in a file. -/
def kept (useFat : Bool) (data : List UInt8) : List UInt8 := if useFat then data else data.take (Ramfs.FS_MAX_FILE_SIZE - 1)

section

variable (h : Holds content fs fuel useFat w path bytes)
include h

theorem Holds.unique {bytes' : List UInt8} (h' : Holds content fs fuel useFat w path bytes') : bytes = bytes' := by
  cases useFat with
  | false => exact Ramfs.Holds.unique h h'
  | true => exact Fat32.Holds.unique h h'

theorem Holds.same (hw : Same content w w') : Holds content fs fuel useFat w' path bytes := by
  cases useFat with
  | false =>
    have hfile : Ramfs.Holds w.ramfs path bytes := h
    rw [← hw.ramfs] at hfile
    exact hfile
  | true => exact Fat32.Holds.congr h hw.fat

theorem Holds.nil_of_bare (hfat : useFat = true) (hbare : Fat32.Bare content fs fuel w.fat path) : bytes = [] := by
  subst hfat
  exact Fat32.Holds.nil_of_bare h hbare

end

theorem InOrder.same (h : InOrder content dev fs fuel useFat w) (hw : Same content w w') : InOrder content dev fs fuel useFat w' := by
  intro hfat
  obtain ⟨disk, hdisk, hc⟩ := (h hfat).consistent
  exact { h hfat with consistent := ⟨disk, hw.fat disk hdisk, hc⟩ }

section

variable (h : Holds content fs fuel useFat w path bytes) (hs : InOrder content dev fs fuel useFat w)
include h hs

/-- A read gives the first bytes of a file. -/
theorem readFile_of_holds (capacity : ℕ) :
    ∃ w', readFile fs fuel useFat path capacity w = (.ok (min bytes.length capacity, bytes.take capacity), w') ∧ Same content w w' := by
  cases useFat with
  | false =>
    have hrun : onRamfs (Ramfs.readFile (some path) capacity) w = (.ok (bytes.take capacity), w) := by
      rw [onRamfs, Ramfs.readFile_of_holds h capacity]
    refine ⟨w, ?_, rfl, fun _ hd => hd⟩
    rw [readFile, if_neg (by decide), bind_ok hrun, List.length_take, Nat.min_comm]
    rfl
  | true =>
    obtain ⟨d, hread, hd⟩ := Fat32.Holds.readFilePath h (hs rfl) capacity
    have hrun : onFat (Fat32.readFilePath fs fuel (some path) capacity) w =
        (.ok ⟨min bytes.length capacity, bytes.take capacity⟩, { w with fat := d }) := by
      rw [onFat, hread]
    refine ⟨{ w with fat := d }, ?_, rfl, hd⟩
    rw [readFile, if_pos rfl, bind_ok hrun]
    rfl

/-- A successful write makes the file hold the data. Only a write of something to a volume can fail; it leaves
a file that had no cluster as it was, and takes away the contents of any other one. -/
theorem writeFile_of_holds {data : List UInt8} (hlen : data.length < 2 ^ 32) :
    Ends (writeFile fs fuel useFat path data) w (fun _ w' => Holds content fs fuel useFat w' path (kept useFat data))
      fun w' => useFat = true ∧ data ≠ [] ∧ (Fat32.Bare content fs fuel w.fat path ∧ Holds content fs fuel useFat w' path bytes ∨
        ¬ Fat32.Bare content fs fuel w.fat path ∧ ∀ bytes', ¬ Holds content fs fuel useFat w' path bytes') := by
  cases useFat with
  | false =>
    obtain ⟨s', hwrite, hs'⟩ := Ramfs.writeFile_of_holds h data
    refine .inl ⟨(), { w with ramfs := s' }, ?_, hs'⟩
    rw [writeFile, if_neg (by decide), onRamfs, hwrite]
  | true =>
    rcases Fat32.Holds.writeFilePath h (hs rfl) hlen with ⟨_, d, hwrite, hd⟩ | ⟨d, hwrite, hne⟩
    · refine .inl ⟨(), { w with fat := d }, ?_, hd⟩
      rw [writeFile, if_pos rfl, onFat, hwrite]
    · refine .inr ⟨{ w with fat := d }, ?_, rfl, hne⟩
      rw [writeFile, if_pos rfl, onFat, hwrite]

end

/-! ### After a start -/

def noContent : Unit → ℕ → Fat32.Sector := fun _ _ => Block.zero

/-- Data in the file `/a` of the RAM file system. -/
def filled (data : List UInt8) : Storage Unit := ⟨Ramfs.filled data, Fat32.initialDriver ()⟩

theorem holds_filled (fs : Fat32.Fat32State Unit) (fuel : ℕ) {data : List UInt8} (hlen : data.length < Ramfs.FS_MAX_FILE_SIZE) :
    Holds noContent fs fuel false (filled data) (Ramfs.chars "/a") data := by
  unfold Holds
  rw [if_neg (by decide)]
  exact Ramfs.holds_filled hlen

theorem inOrder_ramfs (w : Storage Unit) (fs : Fat32.Fat32State Unit) (fuel : ℕ) :
    InOrder noContent Fat32.shortTableDevice fs fuel false w := by simp [InOrder]

end Storage

end Tg11Kernel.Shell
