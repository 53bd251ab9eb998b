import Tg11Kernel.Memory.Paging

/-! ELF images. An image is a buffer with a length; what lies around the buffer can be
read as well, but a read that leaves the image is a fault here. The headers are read as
wholes, and every offset is a 64-bit number that wraps. -/

namespace Tg11Kernel.Elf

/-! ### Reading -/

/-- The bytes from `base` on, of which `len` belong to the image. -/
structure Image where
  base : UInt64
  len : UInt64
  byte : UInt64 → UInt8

/-- `ELF_ERR_*` -/
inductive ElfError where
  | null
  | magic
  | elfClass
  | type
  | arch
  | phdr
  | map
  | range
  | shdr
  | nosym
  | overlap
  | entry
  | interp
  deriving DecidableEq

/-- A run ends early with an error return, or by a read outside the image. -/
inductive Fault where
  | outside
  | error (e : ElfError)
  deriving DecidableEq

abbrev Read := Except Fault

def fail {α : Type} (e : ElfError) : Read α := .error (.error e)

/-- An error return unless the condition holds. -/
def check (p : Prop) [Decidable p] (e : ElfError) : Read Unit := if p then .ok () else fail e

namespace Image

/-- An image of the given bytes. -/
def ofBytes (base : UInt64) (bytes : List UInt8) : Image where
  base := base
  len := UInt64.ofNat bytes.length
  byte off := bytes.getD off.toNat 0

variable (img : Image)

/-- The little-endian number in the `n` bytes at an offset. -/
def word (off : UInt64) : ℕ → ℕ
  | 0 => 0
  | n + 1 => (img.byte off).toNat + 256 * word (off + 1) n

def half (off : UInt64) : UInt16 := UInt16.ofNat (img.word off 2)
def word32 (off : UInt64) : UInt32 := UInt32.ofNat (img.word off 4)
def xword (off : UInt64) : UInt64 := UInt64.ofNat (img.word off 8)

/-- The `n` bytes at an offset belong to the image. -/
def Holds (off : UInt64) (n : ℕ) : Prop := off.toNat + n ≤ img.len.toNat

instance (off : UInt64) (n : ℕ) : Decidable (img.Holds off n) := inferInstanceAs (Decidable (_ ≤ _))

/-- A read of `n` bytes at an offset, with what they mean. -/
def fetch {α : Type} (off : UInt64) (n : ℕ) (value : α) : Read α :=
  if img.Holds off n then .ok value else .error .outside

def readByte (off : UInt64) : Read UInt8 := img.fetch off 1 (img.byte off)
def readHalf (off : UInt64) : Read UInt16 := img.fetch off 2 (img.half off)
def readWord (off : UInt64) : Read UInt32 := img.fetch off 4 (img.word32 off)
def readXword (off : UInt64) : Read UInt64 := img.fetch off 8 (img.xword off)

end Image

/-! ### Headers -/

def sizeofEhdr : ℕ := 64
def sizeofPhdr : ℕ := 56
def sizeofShdr : ℕ := 64
def sizeofSym : ℕ := 24

def ELFCLASS64 : UInt8 := 2
def ELFDATA2LSB : UInt8 := 1
def EV_CURRENT : UInt8 := 1
def ET_EXEC : UInt16 := 2
def ET_DYN : UInt16 := 3
def EM_X86_64 : UInt16 := 62
def PT_LOAD : UInt32 := 1
def PT_INTERP : UInt32 := 3
def PF_X : UInt32 := 1
def PF_W : UInt32 := 2
def SHT_SYMTAB : UInt32 := 2
def SHT_STRTAB : UInt32 := 3
def SHT_NOBITS : UInt32 := 8
def SHT_DYNSYM : UInt32 := 11
def SHN_UNDEF : UInt16 := 0
def STT_NOTYPE : UInt8 := 0
def STT_OBJECT : UInt8 := 1
def STT_FUNC : UInt8 := 2

structure Ehdr where
  ident : List UInt8
  eiClass : UInt8
  eiData : UInt8
  eiVersion : UInt8
  type : UInt16
  machine : UInt16
  version : UInt32
  entry : UInt64
  phoff : UInt64
  shoff : UInt64
  ehsize : UInt16
  phentsize : UInt16
  phnum : UInt16
  shentsize : UInt16
  shnum : UInt16
  shstrndx : UInt16

structure Phdr where
  type : UInt32
  flags : UInt32
  offset : UInt64
  vaddr : UInt64
  filesz : UInt64
  memsz : UInt64
  align : UInt64

structure Shdr where
  name : UInt32
  type : UInt32
  flags : UInt64
  addr : UInt64
  offset : UInt64
  size : UInt64
  link : UInt32
  info : UInt32
  entsize : UInt64

namespace Image

variable (img : Image)

def ehdr : Ehdr where
  ident := [img.byte 0, img.byte 1, img.byte 2, img.byte 3]
  eiClass := img.byte 4
  eiData := img.byte 5
  eiVersion := img.byte 6
  type := img.half 16
  machine := img.half 18
  version := img.word32 20
  entry := img.xword 24
  phoff := img.xword 32
  shoff := img.xword 40
  ehsize := img.half 52
  phentsize := img.half 54
  phnum := img.half 56
  shentsize := img.half 58
  shnum := img.half 60
  shstrndx := img.half 62

def phdr (off : UInt64) : Phdr where
  type := img.word32 off
  flags := img.word32 (off + 4)
  offset := img.xword (off + 8)
  vaddr := img.xword (off + 16)
  filesz := img.xword (off + 32)
  memsz := img.xword (off + 40)
  align := img.xword (off + 48)

def shdr (off : UInt64) : Shdr where
  name := img.word32 off
  type := img.word32 (off + 4)
  flags := img.xword (off + 8)
  addr := img.xword (off + 16)
  offset := img.xword (off + 24)
  size := img.xword (off + 32)
  link := img.word32 (off + 40)
  info := img.word32 (off + 44)
  entsize := img.xword (off + 56)

/-- The offset of an entry of the program header table. -/
def phdrOff (i : ℕ) : UInt64 := img.ehdr.phoff + UInt64.ofNat i * img.ehdr.phentsize.toUInt64

def shdrOff (i : ℕ) : UInt64 := img.ehdr.shoff + UInt64.ofNat i * img.ehdr.shentsize.toUInt64

def readEhdr : Read Ehdr := img.fetch 0 sizeofEhdr img.ehdr

def readPhdr (i : ℕ) : Read Phdr := img.fetch (img.phdrOff i) sizeofPhdr (img.phdr (img.phdrOff i))

/-- `section_header_at`, read -/
def readShdr (i : ℕ) : Read Shdr := img.fetch (img.shdrOff i) sizeofShdr (img.shdr (img.shdrOff i))

/-- The indices of the program header table. -/
def phdrs : List ℕ := List.range img.ehdr.phnum.toNat

def shdrs : List ℕ := List.range img.ehdr.shnum.toNat

end Image

/-! ### Validation -/

def elfMagic : List UInt8 := [0x7F, 0x45, 0x4C, 0x46]

def validateElf64Image (img : Image) : Read Ehdr := do
  check (img.base ≠ 0) .null
  check (sizeofEhdr ≤ img.len.toNat) .magic
  let ehdr ← img.readEhdr
  check (ehdr.ident = elfMagic) .magic
  check (ehdr.eiClass = ELFCLASS64) .elfClass
  check (ehdr.eiData = ELFDATA2LSB) .elfClass
  check (ehdr.eiVersion = EV_CURRENT) .elfClass
  check (ehdr.type = ET_EXEC ∨ ehdr.type = ET_DYN) .type
  check (ehdr.machine = EM_X86_64) .arch
  check (ehdr.version = EV_CURRENT.toUInt32) .arch
  check (sizeofEhdr ≤ ehdr.ehsize.toNat) .elfClass
  pure ehdr

/-- A table of `num` entries of `entsize` bytes each, of which `size` are used, fits behind `off`. -/
def tableWindow (len off : UInt64) (num entsize : UInt16) (size : ℕ) (e : ElfError) : Read Unit := do
  check (¬ (off = 0 ∨ num = 0 ∨ entsize.toNat < size)) e
  check (off < len) e
  check (num.toUInt64 ≤ (len - off) / entsize.toUInt64) e

def validateSectionHeaders (ehdr : Ehdr) (len : UInt64) : Read Unit :=
  tableWindow len ehdr.shoff ehdr.shnum ehdr.shentsize sizeofShdr .shdr

def getProgramHeaderWindow (ehdr : Ehdr) (len : UInt64) : Read Unit :=
  tableWindow len ehdr.phoff ehdr.phnum ehdr.phentsize sizeofPhdr .phdr

/-! ### The range of the segments -/

/-- The lowest address and the end of the segments; a base of 0 is none yet. -/
structure LoadRange where
  loadBase : UInt64
  loadEnd : UInt64

def widenRange (r : LoadRange) (phdr : Phdr) : LoadRange :=
  if phdr.type ≠ PT_LOAD ∨ phdr.memsz = 0 then r
  else
    let segEnd := phdr.vaddr + phdr.memsz
    { loadBase := if r.loadBase = 0 ∨ phdr.vaddr < r.loadBase then phdr.vaddr else r.loadBase
      loadEnd := if segEnd > r.loadEnd then segEnd else r.loadEnd }

def collectLoadRange (img : Image) : Read LoadRange :=
  img.phdrs.foldlM (fun r i => do
    let phdr ← img.readPhdr i
    pure (widenRange r phdr)) ⟨0, 0⟩

end Tg11Kernel.Elf
