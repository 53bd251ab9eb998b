import Tg11Kernel.Elf.Symbols
import Tg11Kernel.Ramfs.Laws
import Tg11Kernel.Lib.Layout
import Mathlib.Tactic.IntervalCases

/-! The programs that the file system starts with, as files. A builder writes the fields of a header, the
code and, for some, tables with one symbol into a zeroed buffer. The fields do not meet, so each number
is read back from the image where it was written, and the headers are those of the one segment. -/

namespace Tg11Kernel.Elf

open Lib
open Ramfs (FS_MAX_FILE_SIZE payloadOff shstrtab symbolLayout elfFields symbolFields sectionFields wr16 wr32 wr64 leBytes buildImage
  alignUpValue)

/-- A program to be put into the file system, without symbols or with one that is named. -/
structure Seed where
  elfType : ℕ
  path : Ramfs.Path
  baseVaddr : ℕ
  pFlags : ℕ
  code : List UInt8
  segFilesz : ℕ
  segMemsz : ℕ
  symbolName : Option (List UInt8)

namespace Seed

def run (r : Seed) : Ramfs.M Unit :=
  match r.symbolName with
  | none => Ramfs.seedBuiltinElfType r.elfType r.path r.baseVaddr r.pFlags r.code r.segFilesz r.segMemsz
  | some name => Ramfs.seedBuiltinElfWithSymbolsType r.elfType r.path r.baseVaddr r.pFlags r.code r.segFilesz r.segMemsz name

/-- The size of the segment in the file, and in memory. -/
def filesz (r : Seed) : ℕ := (Ramfs.segSizes r.code.length r.segFilesz r.segMemsz).1

def memsz (r : Seed) : ℕ := (Ramfs.segSizes r.code.length r.segFilesz r.segMemsz).2

/-- What the builder writes before the tables. -/
def headerFields (r : Seed) : List Ramfs.Field := elfFields r.elfType r.baseVaddr r.pFlags r.filesz r.memsz

def fields (r : Seed) : List Ramfs.Field :=
  match r.symbolName with
  | none => r.headerFields ++ [(payloadOff, r.code)]
  | some name =>
    let l := symbolLayout r.filesz name
    r.headerFields ++
      [wr64 40 l.shoff, wr16 58 0x40, wr16 60 5, wr16 62 1, (payloadOff, r.code), (l.shstrtabOff, shstrtab),
        (l.strtabOff, [0] ++ name ++ [0])] ++
      symbolFields (l.symtabOff + 24) 0 0x03 r.baseVaddr r.code.length ++
      symbolFields (l.symtabOff + 48) 1 0x12 r.baseVaddr r.code.length ++
      sectionFields l r.baseVaddr r.pFlags r.code.length

def imageSize (r : Seed) : ℕ :=
  match r.symbolName with
  | none => payloadOff + r.filesz
  | some name => (symbolLayout r.filesz name).imageSize

/-- What the callers promise: an executable or shared image, at a page, with room for the segment, and a
symbol name that is a C string. -/
structure Admissible (r : Seed) : Prop where
  type : r.elfType = 2 ∨ r.elfType = 3
  aligned : r.baseVaddr % 4096 = 0
  room : r.baseVaddr + r.memsz ≤ 2 ^ 47
  name : ∀ name, r.symbolName = some name → 0 ∉ name

/-! ### The file -/

variable {r : Seed} {s s' : Ramfs.Fs}

theorem get_buildImage (fields : List Ramfs.Field) {i : ℕ} (hi : i < FS_MAX_FILE_SIZE) : (buildImage fields).get i = written fields i := by
  unfold buildImage written
  suffices ∀ (b : Ramfs.FileData) (v : UInt8), b.get i = v → (fields.foldl (fun buf field => Ramfs.putBytes buf field.1 field.2) b).get i =
      fields.foldl (fun b f => if f.1 ≤ i ∧ i < f.1 + f.2.length then f.2.getD (i - f.1) 0 else b) v by
    exact this _ _ (Block.get_zero i)
  intro b v hb
  induction fields generalizing b v with
  | nil => exact hb
  | cons f fields ih =>
    refine ih _ _ ?_
    rw [Block.get_of_lt _ hi] at hb ⊢
    unfold Ramfs.putBytes
    beta_reduce
    split_ifs
    · rfl
    · exact hb

theorem sizes (r : Seed) : r.code.length ≤ r.filesz ∧ r.filesz ≤ r.memsz := by
  unfold filesz memsz Ramfs.segSizes
  dsimp only
  split_ifs <;> omega

/-- What a builder has checked when it writes the file. -/
structure Accepted (r : Seed) : Prop where
  filesz : 0 < r.filesz
  imageSize : r.imageSize ≤ FS_MAX_FILE_SIZE
  name : ∀ name, r.symbolName = some name → name ≠ []

theorem accepted_of_run (h : r.run s = (.ok (), s')) :
    r.Accepted ∧ Ramfs.writeImage r.path (buildImage r.fields) r.imageSize s = (.ok (), s') := by
  have hmax : FS_MAX_FILE_SIZE = 8192 := rfl
  have hoff : payloadOff = 256 := rfl
  unfold run at h
  cases hname : r.symbolName with
  | none =>
    simp only [hname, Ramfs.seedBuiltinElfType, Exec.bind_ok_iff, Exec.require_ok_iff] at h
    obtain ⟨-, _, ⟨-, rfl⟩, -, _, ⟨hpos, rfl⟩, -, _, ⟨hfits, rfl⟩, hwrite⟩ := h
    refine ⟨⟨?_, ?_, by simp [hname]⟩, ?_⟩
    · unfold filesz
      omega
    · unfold imageSize filesz
      rw [hname]
      dsimp only
      omega
    · unfold imageSize fields
      rw [hname]
      exact hwrite
  | some name =>
    simp only [hname, Ramfs.seedBuiltinElfWithSymbolsType, Exec.bind_ok_iff, Exec.require_ok_iff] at h
    obtain ⟨-, _, ⟨hne, rfl⟩, -, _, ⟨hpos, rfl⟩, -, _, ⟨hfits, rfl⟩, hwrite⟩ := h
    refine ⟨⟨?_, ?_, by simpa [hname] using hne⟩, ?_⟩
    · unfold filesz
      omega
    · unfold imageSize
      rw [hname]
      exact hfits
    · unfold imageSize fields
      rw [hname]
      exact hwrite

/-- The bytes that the file keeps. -/
def stored (r : Seed) : List UInt8 := (List.range (min r.imageSize (FS_MAX_FILE_SIZE - 1))).map (written r.fields)

theorem readFile_run (hs : Ramfs.WellFormed s) (h : r.run s = (.ok (), s')) {capacity : ℕ} (hcap : FS_MAX_FILE_SIZE ≤ capacity) :
    Ramfs.readFile (some r.path) capacity s' = (.ok r.stored, s') := by
  obtain ⟨hacc, hwrite⟩ := accepted_of_run h
  unfold Ramfs.writeImage at hwrite
  rcases Ramfs.writeFile_stores hs (some r.path) (some ((List.range r.imageSize).map (buildImage r.fields).get)) r.imageSize with
    ⟨_, _, hrun, -, s₁, idx, ht, hfile, rfl⟩ | ⟨_, hrun, -⟩
  swap
  · rw [hwrite] at hrun
    simp at hrun
  obtain rfl := (Prod.mk.inj (hrun.symm.trans hwrite)).2
  have hread := Ramfs.readFile_stored ht hfile (by simp : r.imageSize ≤ ((List.range r.imageSize).map (buildImage r.fields).get).length) capacity
  refine hread.trans ?_
  congr 2
  have hle := hacc.imageSize
  rw [Ramfs.cappedSize_eq_min, List.take_take, ← List.map_take, List.take_range, stored]
  have hmin : min (min capacity (min r.imageSize (FS_MAX_FILE_SIZE - 1))) r.imageSize = min r.imageSize (FS_MAX_FILE_SIZE - 1) := by omega
  rw [hmin]
  refine List.map_congr_left fun i hi => get_buildImage _ ?_
  have hlt := List.mem_range.1 hi
  omega

end Seed

/-! ### Reading what was written -/

/-- The image shows what was written, as far as it goes. -/
structure Shows (img : Image) (fields : List Ramfs.Field) : Prop where
  apart : (fields.map area).Pairwise Apart
  byte : ∀ i < img.len.toNat, img.byte (UInt64.ofNat i) = written fields i

section Shows

variable {img : Image} {fields : List Ramfs.Field} {off : UInt64} {o n v : ℕ}

theorem offset_toNat_add (img : Image) (hoff : off.toNat = o) (hin : o + n ≤ img.len.toNat) {k : ℕ} (hk : k < n) :
    (off + UInt64.ofNat k).toNat = o + k := by
  have hlen := img.len.toNat_lt
  rw [UInt64.toNat_add, UInt64.toNat_ofNat', hoff]
  omega

theorem word_eq_ofBytes (img : Image) (off : UInt64) (n : ℕ) : img.word off n = ofBytes (fun k => img.byte (off + UInt64.ofNat k)) n := by
  induction n generalizing off with
  | zero => rfl
  | succ n ih =>
    have hshift : (fun k => img.byte (off + 1 + UInt64.ofNat k)) = fun k => img.byte (off + UInt64.ofNat (k + 1)) := by
      funext k
      rw [UInt64.add_assoc, UInt64.add_comm 1, UInt64.ofNat_add]
      rfl
    rw [Image.word, ofBytes, ih, hshift]
    simp

section

variable (h : Shows img fields)
include h

theorem Shows.byteAt (hoff : off.toNat = o) (hin : o < img.len.toNat) : img.byte off = written fields o := by
  rw [← h.byte o hin, ← hoff, UInt64.ofNat_toNat]

theorem Shows.number (hmem : (o, leBytes n v) ∈ fields) (hoff : off.toNat = o) (hin : o + n ≤ img.len.toNat) :
    img.word off n = v % 2 ^ (8 * n) := by
  rw [word_eq_ofBytes, ← ofBytes_byteOf]
  refine ofBytes_congr fun k hk => ?_
  have hmem' := @written_mem fields _ k h.apart hmem (by simpa [leBytes] using hk)
  rw [h.byteAt (offset_toNat_add img hoff hin hk) (by omega), hmem']
  simp [leBytes, hk]

/-- Where nothing was written there is a zero. -/
theorem Shows.zero (hoff : off.toNat = o) (hin : o + n ≤ img.len.toNat) (hzero : ∀ k < n, written fields (o + k) = 0) :
    img.word off n = 0 := by
  have hbytes : ofBytes (fun k => img.byte (off + UInt64.ofNat k)) n = ofBytes (byteOf 0) n := by
    refine ofBytes_congr fun k hk => ?_
    rw [h.byteAt (offset_toNat_add img hoff hin hk) (by omega), hzero k hk]
    simp [byteOf]
  rw [word_eq_ofBytes, hbytes, ofBytes_byteOf, Nat.zero_mod]

theorem Shows.half (hmem : wr16 o v ∈ fields) (hoff : off.toNat = o) (hin : o + 2 ≤ img.len.toNat) :
    img.half off = UInt16.ofNat v := by
  apply UInt16.toNat_inj.1
  rw [Image.half, h.number hmem hoff hin, UInt16.toNat_ofNat', UInt16.toNat_ofNat']
  exact Nat.mod_mod _ _

theorem Shows.word32 (hmem : wr32 o v ∈ fields) (hoff : off.toNat = o) (hin : o + 4 ≤ img.len.toNat) :
    img.word32 off = UInt32.ofNat v := by
  apply UInt32.toNat_inj.1
  rw [Image.word32, h.number hmem hoff hin, UInt32.toNat_ofNat', UInt32.toNat_ofNat']
  exact Nat.mod_mod _ _

theorem Shows.xword (hmem : wr64 o v ∈ fields) (hoff : off.toNat = o) (hin : o + 8 ≤ img.len.toNat) :
    img.xword off = UInt64.ofNat v := by
  apply UInt64.toNat_inj.1
  rw [Image.xword, h.number hmem hoff hin, UInt64.toNat_ofNat', UInt64.toNat_ofNat']
  exact Nat.mod_mod _ _

end

end Shows

/-! ### The header -/

namespace Seed

variable {r : Seed} {img : Image}

/-- The image shows the program, and at least its headers. -/
structure Shown (r : Seed) (img : Image) : Prop where
  base : img.base ≠ 0
  len : payloadOff ≤ img.len.toNat
  shows : Shows img r.fields

/-- The segment of a program. -/
def segment (r : Seed) : Phdr where
  type := PT_LOAD
  flags := UInt32.ofNat r.pFlags
  offset := 0x100
  vaddr := UInt64.ofNat r.baseVaddr
  filesz := UInt64.ofNat r.filesz
  memsz := UInt64.ofNat r.memsz
  align := 0x100

theorem mem_fields {f : Ramfs.Field} (hf : f ∈ r.headerFields) : f ∈ r.fields := by
  unfold fields
  cases r.symbolName <;> simp [hf]

/-- What the header says. -/
structure HeaderIs (r : Seed) (ehdr : Ehdr) : Prop where
  ident : ehdr.ident = elfMagic
  eiClass : ehdr.eiClass = ELFCLASS64
  eiData : ehdr.eiData = ELFDATA2LSB
  eiVersion : ehdr.eiVersion = EV_CURRENT
  type : ehdr.type = UInt16.ofNat r.elfType
  machine : ehdr.machine = EM_X86_64
  version : ehdr.version = EV_CURRENT.toUInt32
  entry : ehdr.entry = UInt64.ofNat r.baseVaddr
  phoff : ehdr.phoff = 0x40
  ehsize : ehdr.ehsize = 0x40
  phentsize : ehdr.phentsize = 0x38
  phnum : ehdr.phnum = 1

section

variable (h : r.Shown img)
include h

theorem Shown.ident {off : UInt64} (i : ℕ) (hoff : off.toNat = i) (hi : i < 7) :
    img.byte off = [0x7F, 0x45, 0x4C, 0x46, 2, 1, 1].getD i 0 := by
  have hlen := h.len
  have hoff256 : payloadOff = 256 := rfl
  have hmem : (0, [0x7F, 0x45, 0x4C, 0x46, 2, 1, 1]) ∈ r.fields := mem_fields (by simp [headerFields, elfFields])
  have hbyte := @written_mem _ _ i h.shows.apart hmem hi
  rw [Nat.zero_add] at hbyte
  rw [h.shows.byteAt hoff (by omega), hbyte]

theorem Shown.header : r.HeaderIs img.ehdr := by
  have hlen := h.len
  have hoff256 : payloadOff = 256 := rfl
  have hmem : ∀ f ∈ r.headerFields, f ∈ r.fields := fun f => mem_fields
  simp only [headerFields, elfFields, List.forall_mem_cons] at hmem
  obtain ⟨-, htype, hmachine, hversion, hentry, hphoff, hehsize, hphentsize, hphnum, -⟩ := hmem
  exact
    { ident := by
        have h0 := h.ident 0 (rfl : (0 : UInt64).toNat = 0) (by decide)
        have h1 := h.ident 1 (rfl : (1 : UInt64).toNat = 1) (by decide)
        have h2 := h.ident 2 (rfl : (2 : UInt64).toNat = 2) (by decide)
        have h3 := h.ident 3 (rfl : (3 : UInt64).toNat = 3) (by decide)
        simp [Image.ehdr, elfMagic, h0, h1, h2, h3]
      eiClass := h.ident 4 rfl (by decide)
      eiData := h.ident 5 rfl (by decide)
      eiVersion := h.ident 6 rfl (by decide)
      type := h.shows.half htype rfl (by omega)
      machine := h.shows.half hmachine rfl (by omega)
      version := h.shows.word32 hversion rfl (by omega)
      entry := h.shows.xword hentry rfl (by omega)
      phoff := h.shows.xword hphoff rfl (by omega)
      ehsize := h.shows.half hehsize rfl (by omega)
      phentsize := h.shows.half hphentsize rfl (by omega)
      phnum := h.shows.half hphnum rfl (by omega) }

theorem Shown.validate (hr : r.Admissible) : validateElf64Image img = .ok img.ehdr := by
  have hheader := h.header
  have hlen : sizeofEhdr ≤ img.len.toNat := le_trans (by decide) h.len
  have hholds : img.Holds 0 sizeofEhdr := by
    unfold Image.Holds
    simpa using hlen
  have htype : img.ehdr.type = ET_EXEC ∨ img.ehdr.type = ET_DYN := by
    rw [hheader.type]
    rcases hr.type with htype | htype <;> rw [htype]
    · exact .inl rfl
    · exact .inr rfl
  have hehsize : sizeofEhdr ≤ img.ehdr.ehsize.toNat := by
    rw [hheader.ehsize]
    decide
  unfold validateElf64Image Image.readEhdr
  rw [check_eq h.base, ok_bind, check_eq hlen, ok_bind, fetch_eq hholds, ok_bind, check_eq hheader.ident, ok_bind, check_eq hheader.eiClass,
    ok_bind, check_eq hheader.eiData, ok_bind, check_eq hheader.eiVersion, ok_bind, check_eq htype, ok_bind, check_eq hheader.machine, ok_bind,
    check_eq hheader.version, ok_bind, check_eq hehsize, ok_bind]
  rfl

theorem Shown.window : getProgramHeaderWindow img.ehdr img.len = .ok () := by
  have hheader := h.header
  have hlen := h.len
  have hoff256 : payloadOff = 256 := rfl
  have h40 : (0x40 : UInt64).toNat = 64 := rfl
  have hlt : (0x40 : UInt64) < img.len := by
    rw [UInt64.lt_iff_toNat_lt]
    omega
  have hroom : (1 : UInt16).toUInt64 ≤ (img.len - 0x40) / (0x38 : UInt16).toUInt64 := by
    have hone : (1 : UInt16).toUInt64.toNat = 1 := rfl
    have hentsize : (0x38 : UInt16).toUInt64.toNat = 56 := rfl
    rw [UInt64.le_iff_toNat_le, UInt64.toNat_div, UInt64.toNat_sub_of_le _ _ (UInt64.le_of_lt hlt), hone, hentsize]
    omega
  unfold getProgramHeaderWindow tableWindow
  rw [hheader.phoff, hheader.phnum, hheader.phentsize, check_eq (by decide), ok_bind, check_eq hlt, ok_bind, check_eq hroom]

theorem Shown.segments : Segments img := by
  have hwithin := getProgramHeaderWindow_within img
  rw [h.window] at hwithin
  exact hwithin.of_ok

theorem Shown.segment : img.segment 0 = r.segment := by
  have hlen := h.len
  have hoff256 : payloadOff = 256 := rfl
  have hmem : ∀ f ∈ r.headerFields, f ∈ r.fields := fun f => mem_fields
  simp only [headerFields, elfFields, List.forall_mem_cons] at hmem
  obtain ⟨-, -, -, -, -, -, -, -, -, htype, hflags, hoffset, hvaddr, -, hfilesz, hmemsz, halign, -⟩ := hmem
  have hphdr : img.phdrOff 0 = 0x40 := by
    unfold Image.phdrOff
    rw [h.header.phoff, h.header.phentsize]
    rfl
  unfold Image.segment Image.phdr Seed.segment
  rw [hphdr, h.shows.word32 htype rfl (by omega), h.shows.word32 hflags rfl (by omega), h.shows.xword hoffset rfl (by omega),
    h.shows.xword hvaddr rfl (by omega), h.shows.xword hfilesz rfl (by omega), h.shows.xword hmemsz rfl (by omega),
    h.shows.xword halign rfl (by omega)]
  rfl

theorem Shown.readPhdr : img.readPhdr 0 = .ok r.segment := by
  have hphnum : 0 < img.ehdr.phnum.toNat := by
    rw [h.header.phnum]
    decide
  rw [readPhdr_eq h.segments hphnum, h.segment]

theorem Shown.phdrs : img.phdrs = [0] := by
  unfold Image.phdrs
  rw [h.header.phnum]
  rfl

end

/-! ### The segment -/

/-- The numbers of the segment are those that were written. -/
theorem Admissible.toNat (hr : r.Admissible) : r.segment.vaddr.toNat = r.baseVaddr ∧ r.segment.filesz.toNat = r.filesz ∧
    r.segment.memsz.toNat = r.memsz := by
  have hroom := hr.room
  have hsizes := r.sizes
  unfold segment
  dsimp only
  rw [UInt64.toNat_ofNat', UInt64.toNat_ofNat', UInt64.toNat_ofNat']
  omega

theorem checkAlign_segment (hr : r.Admissible) : checkAlign r.segment = .ok () := by
  have hmask : r.segment.vaddr &&& (0x100 - 1) = 0x100 &&& (0x100 - 1) := by
    have haligned := hr.aligned
    apply UInt64.toNat_inj.1
    rw [lowMask_toNat _ (by decide : (0x100 - 1 : UInt64).toNat = 2 ^ 8 - 1), lowMask_toNat _ (by decide : (0x100 - 1 : UInt64).toNat = 2 ^ 8 - 1),
      hr.toNat.1]
    simp
    omega
  have hlarge : r.segment.align > 1 := (by decide : (0x100 : UInt64) > 1)
  have hpower : isPowerOfTwoUlong r.segment.align := (by decide : isPowerOfTwoUlong 0x100)
  unfold checkAlign
  rw [if_pos hlarge, check_eq hpower, ok_bind]
  exact check_eq hmask

section

variable (h : r.Shown img) (hr : r.Admissible) (hpos : 0 < r.filesz) (hin : payloadOff + r.filesz ≤ img.len.toNat)
include h hr hpos hin

theorem Shown.validateSegment : Elf.validateSegment img 0 0 = .ok 1 := by
  obtain ⟨hvaddr, hfilesz, hmemsz⟩ := hr.toNat
  have hroom := hr.room
  have hsizes := r.sizes
  have hlen := img.len.toNat_lt
  have hoff256 : payloadOff = 256 := rfl
  have hoffset : r.segment.offset.toNat = 256 := rfl
  have hfile : ¬ r.segment.offset + r.segment.filesz > img.len := by
    rw [gt_iff_lt, UInt64.lt_iff_toNat_lt, UInt64.toNat_add, hoffset, hfilesz]
    omega
  have hmem : ¬ r.segment.memsz < r.segment.filesz := by
    rw [UInt64.lt_iff_toNat_lt]
    omega
  have hzero : r.segment.memsz ≠ 0 := by
    rw [ne_eq, ← UInt64.toNat_inj, UInt64.toNat_zero]
    omega
  have hwrap : ¬ addOverflowsUlong r.segment.vaddr r.segment.memsz := by
    unfold addOverflowsUlong
    rw [UInt64.lt_iff_toNat_lt, UInt64.toNat_add]
    omega
  have hfwrap : ¬ addOverflowsUlong r.segment.offset r.segment.filesz := by
    unfold addOverflowsUlong
    rw [UInt64.lt_iff_toNat_lt, UInt64.toNat_add, hoffset, hfilesz]
    omega
  have hafter : img.phdrsAfter 0 = [] := by
    unfold Image.phdrsAfter
    rw [h.phdrs]
    rfl
  have hload : ¬ r.segment.type ≠ PT_LOAD := not_not.2 rfl
  unfold Elf.validateSegment
  rw [h.readPhdr, ok_bind, if_neg hload, check_eq hfile, ok_bind, check_eq hmem, ok_bind, if_neg hzero, check_eq hwrap, ok_bind, check_eq hfwrap,
    ok_bind, checkAlign_segment hr, ok_bind, hafter]
  rfl

theorem Shown.validateLoadSegments : Elf.validateLoadSegments img = .ok () := by
  obtain ⟨hvaddr, hfilesz, hmemsz⟩ := hr.toNat
  have hroom := hr.room
  have hsizes := r.sizes
  have hinterp : checkInterp img 0 = .ok () := by
    unfold checkInterp
    rw [h.readPhdr, ok_bind]
    exact check_eq (by decide : PT_LOAD ≠ PT_INTERP)
  have hentry : r.segment.Loads ∧ img.ehdr.entry ≥ r.segment.vaddr ∧ img.ehdr.entry < r.segment.segEnd := by
    rw [h.header.entry]
    refine ⟨⟨rfl, ?_⟩, UInt64.le_refl _, ?_⟩
    · rw [ne_eq, ← UInt64.toNat_inj, UInt64.toNat_zero]
      omega
    · change r.segment.vaddr < r.segment.vaddr + r.segment.memsz
      rw [UInt64.lt_iff_toNat_lt, UInt64.toNat_add]
      omega
  have hinterps : [0].forM (checkInterp img) = .ok () := by
    unfold List.forM
    rw [hinterp]
    rfl
  have hcount : [0].foldlM (Elf.validateSegment img) 0 = .ok 1 := by
    rw [List.foldlM_cons, h.validateSegment hr hpos hin]
    rfl
  have hentries : checkEntry img [0] = .ok () := by
    unfold checkEntry
    rw [h.readPhdr, ok_bind, if_pos hentry]
  unfold Elf.validateLoadSegments
  rw [h.phdrs, hinterps, ok_bind, hcount, ok_bind, check_eq (by decide), ok_bind, hentries]

end

end Seed

/-! ### Where the fields lie -/

section Areas

variable {r : Seed} {name : List UInt8}

/-- The header fields of an image without symbols. -/
def headerAreas : List (ℕ × ℕ) :=
  [(0, 7), (16, 2), (18, 2), (20, 4), (24, 8), (32, 8), (52, 2), (54, 2), (56, 2), (64, 4), (68, 4), (72, 8), (80, 8), (88, 8), (96, 8), (104, 8),
    (112, 8)]

/-- The header fields for the section table. -/
def tableAreas : List (ℕ × ℕ) := [(40, 8), (58, 2), (60, 2), (62, 2)]

def symbolAreas : List (ℕ × ℕ) := [(0, 4), (4, 1), (6, 2), (8, 8), (16, 8)]

def sectionAreas : List (ℕ × ℕ) :=
  [(64, 4), (68, 4), (88, 8), (96, 8), (112, 8), (128, 4), (132, 4), (136, 8), (144, 8), (152, 8), (160, 8), (176, 8), (192, 4), (196, 4), (216, 8),
    (224, 8), (240, 8), (256, 4), (260, 4), (280, 8), (288, 8), (296, 4), (300, 4), (304, 8), (312, 8)]

theorem laid_headerAreas : Laid 0 256 (headerAreas ++ tableAreas) := ⟨by decide, by decide⟩

theorem laid_symbolAreas : Laid 0 24 symbolAreas := ⟨by decide, by decide⟩

theorem laid_sectionAreas : Laid 64 320 sectionAreas := ⟨by decide, by decide⟩

theorem length_leBytes (n v : ℕ) : (leBytes n v).length = n := by simp [leBytes]

theorem areas_headerFields (r : Seed) : r.headerFields.map area = headerAreas := by
  simp [Seed.headerFields, elfFields, area, wr16, wr32, wr64, length_leBytes, headerAreas]

theorem areas_symbolFields (off nameOff : ℕ) (info : UInt8) (baseVaddr codeSize : ℕ) :
    (symbolFields off nameOff info baseVaddr codeSize).map area = symbolAreas.map fun x => (off + x.1, x.2) := by
  simp [symbolFields, area, wr16, wr32, wr64, length_leBytes, symbolAreas]

theorem areas_sectionFields (l : Ramfs.SymbolLayout) (baseVaddr pFlags codeSize : ℕ) :
    (sectionFields l baseVaddr pFlags codeSize).map area = sectionAreas.map fun x => (l.shoff + x.1, x.2) := by
  simp [sectionFields, area, wr32, wr64, length_leBytes, sectionAreas, Nat.add_assoc]

theorem alignUpValue_spec (v : ℕ) : v ≤ alignUpValue v 8 ∧ alignUpValue v 8 < v + 8 ∧ alignUpValue v 8 % 8 = 0 := by
  unfold alignUpValue
  rw [if_neg (by decide)]
  omega

/-- The tables follow the segment in order. -/
structure InOrder (filesz : ℕ) (name : List UInt8) (l : Ramfs.SymbolLayout) : Prop where
  names : payloadOff + filesz ≤ l.shstrtabOff
  strtab : l.shstrtabOff + shstrtab.length ≤ l.strtabOff
  symtab : l.strtabOff + (name.length + 2) ≤ l.symtabOff
  sections : l.symtabOff + 72 ≤ l.shoff
  size : l.imageSize = l.shoff + 320
  strtabSize : l.strtabSize = name.length + 2
  symtabSize : l.symtabSize = 72

theorem inOrder (filesz : ℕ) (name : List UInt8) : InOrder filesz name (symbolLayout filesz name) where
  names := (alignUpValue_spec _).1
  strtab := (alignUpValue_spec _).1
  symtab := (alignUpValue_spec _).1
  sections := (alignUpValue_spec _).1
  size := rfl
  strtabSize := rfl
  symtabSize := rfl

theorem areas_fields (hname : r.symbolName = some name) : r.fields.map area =
    (headerAreas ++ tableAreas) ++ ([(payloadOff, r.code.length)] ++ ([((symbolLayout r.filesz name).shstrtabOff, shstrtab.length)] ++
      ([((symbolLayout r.filesz name).strtabOff, name.length + 2)] ++
        ((symbolAreas.map fun x => ((symbolLayout r.filesz name).symtabOff + 24 + x.1, x.2)) ++
          ((symbolAreas.map fun x => ((symbolLayout r.filesz name).symtabOff + 48 + x.1, x.2)) ++
            sectionAreas.map fun x => ((symbolLayout r.filesz name).shoff + x.1, x.2)))))) := by
  unfold Seed.fields
  rw [hname]
  simp only [List.map_append, areas_headerFields, areas_symbolFields, areas_sectionFields]
  simp [area, wr16, wr64, length_leBytes, tableAreas]

theorem apart_fields (r : Seed) : (r.fields.map area).Pairwise Apart := by
  have hcode := r.sizes
  cases hname : r.symbolName with
  | none =>
    have hareas : r.fields.map area = headerAreas ++ [(payloadOff, r.code.length)] := by
      unfold Seed.fields
      rw [hname, List.map_append, areas_headerFields]
      rfl
    rw [hareas]
    have hheader : Laid 0 256 headerAreas := ⟨by decide, by decide⟩
    exact (hheader.append (laid_singleton payloadOff _) ⟨by decide, by decide, le_self_add⟩).apart
  | some name =>
    have ho := inOrder r.filesz name
    have hsh := ho.names
    have hstr := ho.strtab
    have hsym := ho.symtab
    have hsec := ho.sections
    rw [areas_fields hname]
    have h6 := (laid_symbolAreas.shift ((symbolLayout r.filesz name).symtabOff + 48)).append
      (laid_sectionAreas.shift (symbolLayout r.filesz name).shoff) ⟨by omega, by omega, by omega⟩
    have h5 := (laid_symbolAreas.shift ((symbolLayout r.filesz name).symtabOff + 24)).append h6 ⟨by omega, by omega, by omega⟩
    have h4 := (laid_singleton (symbolLayout r.filesz name).strtabOff (name.length + 2)).append h5 ⟨by omega, by omega, by omega⟩
    have h3 := (laid_singleton (symbolLayout r.filesz name).shstrtabOff shstrtab.length).append h4 ⟨by omega, by omega, by omega⟩
    have h2 := (laid_singleton payloadOff r.code.length).append h3 ⟨by omega, by omega, by omega⟩
    exact (laid_headerAreas.append h2 ⟨by omega, by decide, by omega⟩).apart

/-- Where a field can be in an image with symbols. -/
theorem place_of_mem (hname : r.symbolName = some name) {f : Ramfs.Field} (hf : f ∈ r.fields) :
    f.1 + f.2.length ≤ 256 ∨ f.1 = 256 ∧ f.2.length = r.code.length ∨
      (symbolLayout r.filesz name).shstrtabOff ≤ f.1 ∧ f.1 + f.2.length ≤ (symbolLayout r.filesz name).symtabOff ∨
      (symbolLayout r.filesz name).symtabOff + 24 ≤ f.1 ∧ f.1 + f.2.length ≤ (symbolLayout r.filesz name).symtabOff + 72 ∨
      (symbolLayout r.filesz name).shoff + 64 ≤ f.1 := by
  have ho := inOrder r.filesz name
  have hstr := ho.strtab
  have hsym := ho.symtab
  have hmem : area f ∈ r.fields.map area := List.mem_map_of_mem hf
  rw [areas_fields hname] at hmem
  simp only [List.mem_append, List.mem_singleton] at hmem
  rcases hmem with hmem | hmem | hmem | hmem | hmem | hmem | hmem
  · exact .inl (laid_headerAreas.bounds _ (List.mem_append.2 hmem)).2
  · obtain ⟨hoff, hlen⟩ := Prod.mk.inj hmem
    exact .inr (.inl ⟨hoff, hlen⟩)
  · obtain ⟨hoff, hlen⟩ := Prod.mk.inj hmem
    omega
  · obtain ⟨hoff, hlen⟩ := Prod.mk.inj hmem
    omega
  · have hb : _ ∧ _ ≤ _ := (laid_symbolAreas.shift _).bounds _ hmem
    unfold area at hb
    dsimp only at hb
    omega
  · have hb : _ ∧ _ ≤ _ := (laid_symbolAreas.shift _).bounds _ hmem
    unfold area at hb
    dsimp only at hb
    omega
  · have hb : _ ∧ _ ≤ _ := (laid_sectionAreas.shift _).bounds _ hmem
    unfold area at hb
    dsimp only at hb
    omega

theorem mem_code (r : Seed) : (payloadOff, r.code) ∈ r.fields := by
  unfold Seed.fields
  cases r.symbolName <;> simp

/-- The segment in the file is the code, and zeros behind it. -/
theorem written_code (r : Seed) {k : ℕ} (hk : k < r.filesz) : written r.fields (payloadOff + k) = r.code.getD k 0 := by
  have hoff256 : payloadOff = 256 := rfl
  by_cases hcode : k < r.code.length
  · exact written_mem (apart_fields r) (mem_code r) hcode
  · rw [List.getD_eq_default _ _ (not_lt.1 hcode)]
    refine written_uncovered fun f hf => ?_
    cases hname : r.symbolName with
    | none =>
      have hmem : area f ∈ r.fields.map area := List.mem_map_of_mem hf
      unfold Seed.fields at hmem
      rw [hname, List.map_append, areas_headerFields, List.mem_append] at hmem
      rcases hmem with hmem | hmem
      · have hb : _ ∧ _ ≤ _ := laid_headerAreas.bounds _ (List.mem_append.2 (.inl hmem))
        unfold area at hb
        dsimp only at hb
        omega
      · obtain ⟨hoff, hlen⟩ : f.1 = payloadOff ∧ f.2.length = r.code.length := Prod.mk.inj (List.mem_singleton.1 hmem)
        omega
    | some name =>
      have ho := inOrder r.filesz name
      have hsh := ho.names
      have hstr := ho.strtab
      have hsym := ho.symtab
      have hsec := ho.sections
      rcases place_of_mem hname hf with hp | hp | hp | hp | hp <;> omega

/-- Nothing is written to the first symbol and the first section. -/
theorem written_gap (hname : r.symbolName = some name) {i : ℕ}
    (hi : (symbolLayout r.filesz name).symtabOff ≤ i ∧ i < (symbolLayout r.filesz name).symtabOff + 24 ∨
      (symbolLayout r.filesz name).shoff ≤ i ∧ i < (symbolLayout r.filesz name).shoff + 64) : written r.fields i = 0 := by
  have hoff256 : payloadOff = 256 := rfl
  have hsizes := r.sizes
  have ho := inOrder r.filesz name
  have hsh := ho.names
  have hstr := ho.strtab
  have hsym := ho.symtab
  have hsec := ho.sections
  refine written_uncovered fun f hf => ?_
  rcases place_of_mem hname hf with hp | hp | hp | hp | hp <;> omega

end Areas

end Tg11Kernel.Elf
