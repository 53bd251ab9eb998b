import Tg11Kernel.Elf.Image
import Tg11Kernel.Lib.Report

/-! Inspection of an image: its header, program headers, sections and symbols. A visitor
answers each call with whether to stop, knowing all the calls so far. -/

namespace Tg11Kernel.Elf

open Lib

/-! ### Strings -/

/-- A string in the image, or the empty constant. -/
abbrev Name := Option UInt64

/-- The loop of `string_at`: a NUL among so many bytes from `i` on. -/
def findNul (img : Image) (base : UInt64) : ℕ → UInt64 → Read Bool
  | 0, _ => .ok false
  | n + 1, i => do
    let b ← img.readByte (base + i)
    if b = 0 then .ok true else findNul img base n (i + 1)

def stringAt (img : Image) (base size offset : UInt64) : Read Name :=
  if offset ≥ size then .ok none
  else do
    let found ← findNul img base (size.toNat - offset.toNat) offset
    .ok (if found = true then some (base + offset) else none)

/-- `name[0]` -/
def firstByte (img : Image) : Name → Read UInt8
  | none => .ok 0
  | some p => img.readByte p

/-! ### Symbol tables -/

/-- A symbol table with its strings. -/
structure SymTable where
  offset : UInt64
  entsize : UInt64
  count : UInt64
  strOffset : UInt64
  strSize : UInt64

def isSymTable (shdr : Shdr) : Prop :=
  (shdr.type = SHT_SYMTAB ∨ shdr.type = SHT_DYNSYM) ∧ ¬ (shdr.entsize.toNat < sizeofSym ∨ shdr.size < shdr.entsize)

instance (shdr : Shdr) : Decidable (isSymTable shdr) := inferInstanceAs (Decidable (_ ∧ _))

/-- The symbol table of a section, if it is one. Only `count_symbols` is strict: it asks
for a string table as well. -/
def symTableAt (img : Image) (strict : Bool) (i : ℕ) : Read (Option SymTable) := do
  let symtab ← img.readShdr i
  if ¬ isSymTable symtab then .ok none
  else do
    check (¬ symtab.offset + symtab.size > img.len) .shdr
    check (¬ symtab.link ≥ img.ehdr.shnum.toUInt32) .shdr
    let strtab ← img.readShdr symtab.link.toNat
    check (strict = true → strtab.type = SHT_STRTAB) .shdr
    check (¬ strtab.offset + strtab.size > img.len) .shdr
    .ok (some
      { offset := symtab.offset
        entsize := symtab.entsize
        count := symtab.size / symtab.entsize
        strOffset := strtab.offset
        strSize := strtab.size })

/-- The offset and the name of a symbol that has a name and is defined. -/
def namedSymbol (img : Image) (table : SymTable) (j : ℕ) : Read (Option (UInt64 × Name)) := do
  let sym := table.offset + UInt64.ofNat j * table.entsize
  let stName ← img.readWord sym
  let name ← stringAt img table.strOffset table.strSize stName.toUInt64
  let first ← firstByte img name
  if first = 0 then .ok none
  else do
    let shndx ← img.readHalf (sym + 6)
    if shndx = SHN_UNDEF then .ok none else .ok (some (sym, name))

/-- The indices of the symbols of a table. -/
def SymTable.syms (table : SymTable) : List ℕ := List.range table.count.toNat

/-- `elf_symbol_t` -/
structure Symbol where
  name : Name
  value : UInt64
  size : UInt64
  info : UInt8
  shndx : UInt16

def readSymbol (img : Image) (sym : UInt64) (name : Name) : Read Symbol := do
  let value ← img.readXword (sym + 8)
  let size ← img.readXword (sym + 16)
  let info ← img.readByte (sym + 4)
  let shndx ← img.readHalf (sym + 6)
  .ok { name, value, size, info, shndx }

/-- The loop over the sections: the body runs for each symbol table. -/
def foldTables {β : Type} (img : Image) (strict : Bool) (body : β → SymTable → Read β) (b : β) : Read β :=
  img.shdrs.foldlM (fun b i => do
    let table ← symTableAt img strict i
    match table with
    | none => .ok b
    | some table => body b table) b

def countTable (img : Image) (count : UInt64) (table : SymTable) : Read UInt64 :=
  table.syms.foldlM (fun count j => do
    let found ← namedSymbol img table j
    .ok (if found.isSome = true then count + 1 else count)) count

def countSymbols (img : Image) : Read UInt64 := do
  validateSectionHeaders img.ehdr img.len
  let count ← foldTables img true (countTable img) 0
  check (count ≠ 0) .nosym
  .ok count

/-! ### The header -/

/-- `elf_info_t` -/
structure Info where
  type : UInt16
  machine : UInt16
  phnum : UInt16
  shnum : UInt16
  entry : UInt64
  loadBase : UInt64
  loadEnd : UInt64
  symbolCount : UInt64

/-- The count of symbols, 0 where there are none. -/
def countOrZero : Read UInt64 → Read UInt64
  | .error (.error .nosym) => .ok 0
  | r => r

/-- The range of the segments, 0 where there are no program headers. -/
def infoRange (img : Image) (ehdr : Ehdr) : Read LoadRange :=
  if ehdr.phoff ≠ 0 ∧ ehdr.phnum ≠ 0 then do
    getProgramHeaderWindow ehdr img.len
    collectLoadRange img
  else .ok { loadBase := 0, loadEnd := 0 }

def elfGetInfo (img : Image) : Read Info := do
  let ehdr ← validateElf64Image img
  let range ← infoRange img ehdr
  let symbolCount ← countOrZero (countSymbols img)
  .ok
    { type := ehdr.type
      machine := ehdr.machine
      phnum := ehdr.phnum
      shnum := ehdr.shnum
      entry := ehdr.entry
      loadBase := range.loadBase
      loadEnd := range.loadEnd
      symbolCount }

/-! ### Visitors -/

/-- A visitor's answer to its last call, given all the calls: whether to stop. -/
abbrev Visitor (ι : Type) := List ι → Bool

def callVisitor {ι : Type} (visit : Visitor ι) (i : ι) : Report ι Fault Bool := do
  Report.report i
  let calls ← Report.reported
  pure (visit calls)

/-- `elf_program_header_info_t` -/
structure ProgramHeaderInfo where
  index : ℕ
  phdr : Phdr

def visitProgramHeader (img : Image) (visit : Visitor ProgramHeaderInfo) (i : ℕ) : Report ProgramHeaderInfo Fault Bool := do
  let phdr ← Report.lift (img.readPhdr i)
  callVisitor visit ⟨i, phdr⟩

def elfVisitProgramHeaders (img : Image) (visit : Visitor ProgramHeaderInfo) : Report ProgramHeaderInfo Fault Unit := do
  let ehdr ← Report.lift (validateElf64Image img)
  Report.lift (getProgramHeaderWindow ehdr img.len)
  let _ ← Report.untilStop (visitProgramHeader img visit) img.phdrs
  pure ()

/-- `elf_section_info_t` -/
structure SectionInfo where
  index : ℕ
  name : Name
  shdr : Shdr

/-- The section that holds the names of the sections, if there is one. -/
def sectionNames (img : Image) : Read (Option Shdr) :=
  if img.ehdr.shstrndx < img.ehdr.shnum then do
    let shstr ← img.readShdr img.ehdr.shstrndx.toNat
    check (shstr.type = SHT_STRTAB) .shdr
    check (¬ shstr.offset + shstr.size > img.len) .shdr
    .ok (some shstr)
  else .ok none

/-- The names may have no address that is not 0. -/
def sectionName (img : Image) (shstr : Option Shdr) (shdr : Shdr) : Read Name :=
  match shstr with
  | none => .ok none
  | some shstr =>
    if img.base + shstr.offset = 0 then .ok none
    else stringAt img shstr.offset shstr.size shdr.name.toUInt64

def visitSection (img : Image) (visit : Visitor SectionInfo) (shstr : Option Shdr) (i : ℕ) :
    Report SectionInfo Fault Bool := do
  let shdr ← Report.lift (img.readShdr i)
  Report.lift (check (¬ (shdr.offset + shdr.size > img.len ∧ shdr.type ≠ SHT_NOBITS)) .shdr)
  let name ← Report.lift (sectionName img shstr shdr)
  callVisitor visit ⟨i, name, shdr⟩

def elfVisitSections (img : Image) (visit : Visitor SectionInfo) : Report SectionInfo Fault Unit := do
  let ehdr ← Report.lift (validateElf64Image img)
  Report.lift (validateSectionHeaders ehdr img.len)
  let shstr ← Report.lift (sectionNames img)
  let _ ← Report.untilStop (visitSection img visit shstr) img.shdrs
  pure ()

def visitSymbol (img : Image) (visit : Visitor Symbol) (table : SymTable) (j : ℕ) : Report Symbol Fault Bool := do
  let found ← Report.lift (namedSymbol img table j)
  match found with
  | none => pure false
  | some (sym, name) => do
    let symbol ← Report.lift (readSymbol img sym name)
    callVisitor visit symbol

/-- The visitor's calls for one section, if it is a symbol table. -/
def visitTable (img : Image) (visit : Visitor Symbol) (i : ℕ) : Report Symbol Fault Bool := do
  let table ← Report.lift (symTableAt img false i)
  match table with
  | none => pure false
  | some table => Report.untilStop (visitSymbol img visit table) table.syms

def elfVisitSymbols (img : Image) (visit : Visitor Symbol) : Report Symbol Fault Unit := do
  let ehdr ← Report.lift (validateElf64Image img)
  Report.lift (validateSectionHeaders ehdr img.len)
  let stopped ← Report.untilStop (visitTable img visit) img.shdrs
  let calls ← Report.reported
  Report.lift (check (stopped = true ∨ calls ≠ []) .nosym)

/-! ### The symbol of an address -/

/-- The best symbol so far. -/
structure Best where
  symbol : Symbol
  offset : UInt64
  containing : Bool

/-- A symbol at or below the address is weighed against the best one. -/
def Best.weigh (addr : UInt64) (best : Option Best) (symbol : Symbol) : Option Best :=
  let new (containing : Bool) : Option Best := some { symbol, offset := addr - symbol.value, containing }
  if symbol.size ≠ 0 ∧ addr < symbol.value + symbol.size then
    match best with
    | none => new true
    | some b => if b.containing = false ∨ symbol.value > b.symbol.value then new true else best
  else
    match best with
    | none => new false
    | some b => if b.containing = false ∧ symbol.value > b.symbol.value then new false else best

/-- One symbol of the search. -/
def weighSymbol (img : Image) (addr : UInt64) (table : SymTable) (best : Option Best) (j : ℕ) : Read (Option Best) := do
  let found ← namedSymbol img table j
  match found with
  | none => .ok best
  | some (sym, name) => do
    let value ← img.readXword (sym + 8)
    if addr < value then .ok best
    else do
      let info ← img.readByte (sym + 4)
      let type := info &&& 0x0F
      if type ≠ STT_FUNC ∧ type ≠ STT_OBJECT ∧ type ≠ STT_NOTYPE then .ok best
      else do
        let symbol ← readSymbol img sym name
        .ok (Best.weigh addr best symbol)

def elfFindSymbolByAddr (img : Image) (addr : UInt64) : Read (Symbol × UInt64) := do
  let ehdr ← validateElf64Image img
  validateSectionHeaders ehdr img.len
  let best ← foldTables img false (fun best table => table.syms.foldlM (weighSymbol img addr table) best) none
  match best with
  | none => fail .nosym
  | some best => .ok (best.symbol, best.offset)

end Tg11Kernel.Elf
