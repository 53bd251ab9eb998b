import Tg11Kernel.Ramfs.Tree

/-! What `fs_init` puts into a fresh file system: small ELF programs, each image
built in a zeroed buffer by writing header fields, code and, for some, a symbol
table at fixed offsets. -/

namespace Tg11Kernel.Ramfs

open Lib

/-! ### Image buffers -/

/-- The bytes from `off` on replaced. -/
def putBytes (buf : FileData) (off : ℕ) (bytes : List UInt8) : FileData := fun i =>
  if off ≤ i.val ∧ i.val < off + bytes.length then bytes.getD (i.val - off) 0 else buf i

/-- The `n` low bytes of a number, the lowest first. -/
def leBytes (n v : ℕ) : List UInt8 := (List.range n).map (byteOf v)

/-- A write of `wr16_le`, `wr32_le` or `wr64_le`, or a copy, at an offset. -/
abbrev Field := ℕ × List UInt8

def wr16 (off v : ℕ) : Field := (off, leBytes 2 v)
def wr32 (off v : ℕ) : Field := (off, leBytes 4 v)
def wr64 (off v : ℕ) : Field := (off, leBytes 8 v)

/-- A zeroed buffer after the writes. -/
def buildImage (fields : List Field) : FileData :=
  fields.foldl (fun buf field => putBytes buf field.1 field.2) Block.zero

/-- `align` is a power of two. -/
def alignUpValue (v align : ℕ) : ℕ := if align = 0 then v else (v + align - 1) / align * align

/-- A path or a symbol name written out. -/
def chars (s : String) : List UInt8 := s.toList.map fun c => UInt8.ofNat c.toNat

def payloadOff : ℕ := 0x100

/-- The ELF header without its section fields, and the one program header. -/
def elfFields (elfType baseVaddr pFlags segFilesz segMemsz : ℕ) : List Field :=
  [(0, [0x7F, 0x45, 0x4C, 0x46, 2, 1, 1]),
    wr16 16 elfType, wr16 18 62, wr32 20 1, wr64 24 baseVaddr, wr64 32 0x40, wr16 52 0x40, wr16 54 0x38, wr16 56 1,
    wr32 0x40 1, wr32 0x44 pFlags, wr64 0x48 payloadOff, wr64 0x50 baseVaddr, wr64 0x58 0, wr64 0x60 segFilesz,
    wr64 0x68 segMemsz, wr64 0x70 0x100]

/-- The sizes a segment gets: at least the code in the file, at least the file in memory. -/
def segSizes (codeSize segFilesz segMemsz : ℕ) : ℕ × ℕ :=
  let filesz := if segFilesz < codeSize then codeSize else segFilesz
  (filesz, if segMemsz < filesz then filesz else segMemsz)

def writeImage (path : Path) (buf : FileData) (imageSize : ℕ) : M Unit :=
  writeFile (some path) (some ((List.range imageSize).map buf.get)) imageSize

def seedBuiltinElfType (elfType : ℕ) (path : Path) (baseVaddr pFlags : ℕ) (code : List UInt8)
    (segFilesz segMemsz : ℕ) : M Unit := do
  Exec.require (code.length ≠ 0)
  let (filesz, memsz) := segSizes code.length segFilesz segMemsz
  Exec.require (¬ (filesz = 0 ∨ memsz = 0))
  Exec.require (filesz ≤ FS_MAX_FILE_SIZE - payloadOff)
  writeImage path (buildImage (elfFields elfType baseVaddr pFlags filesz memsz ++ [(payloadOff, code)]))
    (payloadOff + filesz)

def seedBuiltinElf (path : Path) (baseVaddr pFlags : ℕ) (code : List UInt8) (segFilesz segMemsz : ℕ) : M Unit :=
  seedBuiltinElfType 2 path baseVaddr pFlags code segFilesz segMemsz

/-- The section name table, with the NUL the compiler adds. -/
def shstrtab : List UInt8 :=
  [0] ++ chars ".shstrtab" ++ [0] ++ chars ".text" ++ [0] ++ chars ".strtab" ++ [0] ++ chars ".symtab" ++ [0, 0]

/-- Where the tables of an image with symbols lie. -/
structure SymbolLayout where
  shstrtabOff : ℕ
  strtabOff : ℕ
  strtabSize : ℕ
  symtabOff : ℕ
  symtabSize : ℕ
  shoff : ℕ
  imageSize : ℕ

def symbolLayout (filesz : ℕ) (symbolName : Name) : SymbolLayout :=
  -- the leading and the trailing NUL of the table count
  let strtabSize := symbolName.length + 2
  let symtabSize := 3 * 24
  let shstrtabOff := alignUpValue (payloadOff + filesz) 8
  let strtabOff := alignUpValue (shstrtabOff + shstrtab.length) 8
  let symtabOff := alignUpValue (strtabOff + strtabSize) 8
  let shoff := alignUpValue (symtabOff + symtabSize) 8
  { shstrtabOff, strtabOff, strtabSize, symtabOff, symtabSize, shoff, imageSize := shoff + 5 * 64 }

/-- One symbol of the symbol table: a section symbol has no name. -/
def symbolFields (off nameOff : ℕ) (info : UInt8) (baseVaddr codeSize : ℕ) : List Field :=
  [wr32 off nameOff, (off + 4, [info]), wr16 (off + 6) 2, wr64 (off + 8) baseVaddr, wr64 (off + 16) codeSize]

def sectionFields (l : SymbolLayout) (baseVaddr pFlags codeSize : ℕ) : List Field :=
  let h := l.shoff
  [wr32 (h + 64) 1, wr32 (h + 64 + 4) 3, wr64 (h + 64 + 24) l.shstrtabOff, wr64 (h + 64 + 32) shstrtab.length,
    wr64 (h + 64 + 48) 1,
    wr32 (h + 128) 11, wr32 (h + 128 + 4) 1, wr64 (h + 128 + 8) (if pFlags % 2 = 1 then 0x6 else 0x2),
    wr64 (h + 128 + 16) baseVaddr, wr64 (h + 128 + 24) payloadOff, wr64 (h + 128 + 32) codeSize,
    wr64 (h + 128 + 48) 16,
    wr32 (h + 192) 17, wr32 (h + 192 + 4) 3, wr64 (h + 192 + 24) l.strtabOff, wr64 (h + 192 + 32) l.strtabSize,
    wr64 (h + 192 + 48) 1,
    wr32 (h + 256) 25, wr32 (h + 256 + 4) 2, wr64 (h + 256 + 24) l.symtabOff, wr64 (h + 256 + 32) l.symtabSize,
    wr32 (h + 256 + 40) 3, wr32 (h + 256 + 44) 2, wr64 (h + 256 + 48) 8, wr64 (h + 256 + 56) 24]

def seedBuiltinElfWithSymbolsType (elfType : ℕ) (path : Path) (baseVaddr pFlags : ℕ) (code : List UInt8)
    (segFilesz segMemsz : ℕ) (symbolName : Name) : M Unit := do
  Exec.require (symbolName ≠ [])
  let (filesz, memsz) := segSizes code.length segFilesz segMemsz
  Exec.require (¬ (filesz = 0 ∨ memsz = 0))
  let l := symbolLayout filesz symbolName
  Exec.require (l.imageSize ≤ FS_MAX_FILE_SIZE)
  writeImage path
    (buildImage
      (elfFields elfType baseVaddr pFlags filesz memsz ++
        [wr64 40 l.shoff, wr16 58 0x40, wr16 60 5, wr16 62 1, (payloadOff, code), (l.shstrtabOff, shstrtab),
          (l.strtabOff, [0] ++ symbolName ++ [0])] ++
        symbolFields (l.symtabOff + 24) 0 0x03 baseVaddr code.length ++
        symbolFields (l.symtabOff + 48) 1 0x12 baseVaddr code.length ++
        sectionFields l baseVaddr pFlags code.length))
    l.imageSize

def seedBuiltinElfWithSymbols (path : Path) (baseVaddr pFlags : ℕ) (code : List UInt8) (segFilesz segMemsz : ℕ)
    (symbolName : Name) : M Unit :=
  seedBuiltinElfWithSymbolsType 2 path baseVaddr pFlags code segFilesz segMemsz symbolName

/-! ### The programs -/

def appCode : List UInt8 :=
  [0xB8, 0x2A, 0x00, 0x00, 0x00, 0xC3]

def appwCode : List UInt8 :=
  [0xB8, 0x07, 0x00, 0x00, 0x00, 0x89, 0x05, 0x07, 0x00, 0x00, 0x00, 0x8B, 0x05, 0x01, 0x00, 0x00,
   0x00, 0xC3, 0x00, 0x00, 0x00, 0x00]

def app2pCode : List UInt8 :=
  [0xB8, 0x63, 0x00, 0x00, 0x00, 0xC3]

def panicCode : List UInt8 :=
  [0x55, 0x48, 0x89, 0xE5, 0x0F, 0x0B]

def bssCode : List UInt8 :=
  [0x8B, 0x05, 0x10, 0x00, 0x00, 0x00, 0x83, 0xC0, 0x0D, 0x89, 0x05, 0x07, 0x00, 0x00, 0x00, 0x8B,
   0x05, 0x01, 0x00, 0x00, 0x00, 0xC3]

def pieCode : List UInt8 :=
  [0xB8, 0x7B, 0x00, 0x00, 0x00, 0xC3]

def helloCode : List UInt8 :=
  [0xB8, 0x01, 0x00, 0x00, 0x00, 0x48, 0x8D, 0x3D, 0x10, 0x00, 0x00, 0x00, 0xBE, 0x06, 0x00, 0x00,
   0x00, 0x0F, 0x05, 0xB8, 0x3C, 0x00, 0x00, 0x00, 0x31, 0xFF, 0x0F, 0x05, 0x68, 0x65, 0x6C, 0x6C,
   0x6F, 0x0A]

def argcCode : List UInt8 :=
  [0x89, 0xF8, 0x83, 0xF8, 0x09, 0x76, 0x05, 0xB8, 0x09, 0x00, 0x00, 0x00, 0x83, 0xC0, 0x30, 0x88,
   0x05, 0x21, 0x00, 0x00, 0x00, 0xB8, 0x01, 0x00, 0x00, 0x00, 0xBF, 0x01, 0x00, 0x00, 0x00, 0x48,
   0x8D, 0x35, 0x10, 0x00, 0x00, 0x00, 0xBA, 0x02, 0x00, 0x00, 0x00, 0x0F, 0x05, 0xB8, 0x3C, 0x00,
   0x00, 0x00, 0x31, 0xFF, 0x0F, 0x05, 0x3F, 0x0A]

def brkCode : List UInt8 :=
  [0xB8, 0x0C, 0x00, 0x00, 0x00, 0x48, 0xBF, 0x00, 0x00, 0x01, 0x00, 0x18, 0x00, 0x00, 0x00, 0x0F,
   0x05, 0x48, 0xBB, 0x00, 0x00, 0x01, 0x00, 0x18, 0x00, 0x00, 0x00, 0x48, 0x39, 0xD8, 0x75, 0x35,
   0x48, 0xBB, 0x00, 0x00, 0x00, 0x00, 0x18, 0x00, 0x00, 0x00, 0x48, 0x89, 0xDF, 0xB8, 0x0C, 0x00,
   0x00, 0x00, 0x0F, 0x05, 0xB8, 0x01, 0x00, 0x00, 0x00, 0xBF, 0x01, 0x00, 0x00, 0x00, 0x48, 0x8D,
   0x35, 0x34, 0x00, 0x00, 0x00, 0xBA, 0x03, 0x00, 0x00, 0x00, 0x0F, 0x05, 0xB8, 0x3C, 0x00, 0x00,
   0x00, 0x31, 0xFF, 0x0F, 0x05, 0xB8, 0x01, 0x00, 0x00, 0x00, 0xBF, 0x01, 0x00, 0x00, 0x00, 0x48,
   0x8D, 0x35, 0x16, 0x00, 0x00, 0x00, 0xBA, 0x02, 0x00, 0x00, 0x00, 0x0F, 0x05, 0xB8, 0x3C, 0x00,
   0x00, 0x00, 0xBF, 0x01, 0x00, 0x00, 0x00, 0x0F, 0x05, 0x4F, 0x4B, 0x0A, 0x45, 0x0A]

def argvCode : List UInt8 :=
  [0x83, 0xFF, 0x02, 0x7C, 0x3A, 0x48, 0x31, 0xC9, 0x80, 0x3C, 0x0E, 0x00, 0x74, 0x05, 0x48, 0xFF,
   0xC1, 0xEB, 0xF5, 0x48, 0x85, 0xC9, 0x74, 0x27, 0xB8, 0x01, 0x00, 0x00, 0x00, 0xBF, 0x01, 0x00,
   0x00, 0x00, 0x48, 0x89, 0xCA, 0x0F, 0x05, 0xB8, 0x01, 0x00, 0x00, 0x00, 0xBF, 0x01, 0x00, 0x00,
   0x00, 0x48, 0x8D, 0x35, 0x10, 0x00, 0x00, 0x00, 0xBA, 0x01, 0x00, 0x00, 0x00, 0x0F, 0x05, 0xB8,
   0x3C, 0x00, 0x00, 0x00, 0x31, 0xFF, 0x0F, 0x05, 0x0A]

/-- The ELF fixtures, in the order they are written. -/
def builtinElfs : List (M Unit) :=
  [seedBuiltinElfWithSymbols (chars "/app.elf") 0xFFFF900003000000 5 appCode appCode.length appCode.length
      (chars "_start"),
    seedBuiltinElf (chars "/appw.elf") 0xFFFF900003010000 7 appwCode appwCode.length appwCode.length,
    seedBuiltinElf (chars "/app2p.elf") 0xFFFF900003020000 5 app2pCode 0x1100 0x1800,
    seedBuiltinElfWithSymbols (chars "/panic.elf") 0xFFFF900003030000 5 panicCode panicCode.length panicCode.length
      (chars "_crash"),
    seedBuiltinElfWithSymbols (chars "/bss.elf") 0xFFFF900003040000 7 bssCode bssCode.length (bssCode.length + 4)
      (chars "_bsscheck"),
    seedBuiltinElfWithSymbolsType 3 (chars "/pie.elf") 0 5 pieCode pieCode.length pieCode.length (chars "_start"),
    seedBuiltinElfWithSymbols (chars "/hello.elf") 0xFFFF900003060000 5 helloCode helloCode.length helloCode.length
      (chars "_start"),
    seedBuiltinElfWithSymbols (chars "/argc.elf") 0xFFFF900003070000 7 argcCode argcCode.length argcCode.length
      (chars "_start"),
    seedBuiltinElfWithSymbols (chars "/brk.elf") 0xFFFF900003080000 7 brkCode brkCode.length brkCode.length
      (chars "_start"),
    seedBuiltinElfWithSymbols (chars "/argv.elf") 0x100900000 5 argvCode argvCode.length argvCode.length
      (chars "_start")]

/-- Every slot cleared; the data arrays keep what they held after their first byte. -/
def Fs.reset (s : Fs) : Fs where
  nodes i :=
    { used := i = 0, isDir := i = 0, parent := none, firstChild := none, nextSibling := none,
      name := if i = 0 then [47] else [], size := 0, data := (s.nodes i).data.set 0 0 }
  cwdNode := 0

/-- The results of the seeds are ignored. -/
def runSeeds : List (M Unit) → M Unit
  | [] => pure ()
  | seed :: seeds => do
    let _ ← Exec.attempt seed
    runSeeds seeds

def fsInit : M Unit := do
  Exec.modify Fs.reset
  runSeeds builtinElfs

end Tg11Kernel.Ramfs
