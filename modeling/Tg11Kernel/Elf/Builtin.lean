import Tg11Kernel.Elf.Fidelity
import Tg11Kernel.Elf.Written

/-! The programs that the file system starts with, read back by the loader. Their tables are those that the
symbol search looks for. The builders accept an image that fills the whole of a file, but a file keeps
one byte less. -/

namespace Tg11Kernel.Elf

open Lib
open Ramfs (FS_MAX_FILE_SIZE payloadOff shstrtab symbolLayout symbolFields sectionFields wr16 wr32 wr64)

/-! ### The tables -/

/-- A string and a NUL stand at an address of the image. -/
def Image.Spells (img : Image) (p : UInt64) (name : List UInt8) : Prop := ∀ k ≤ name.length, img.byte (p + UInt64.ofNat k) = name.getD k 0

namespace Seed

variable {r : Seed} {img : Image} {name : List UInt8}

/-- The whole image with its symbols. -/
structure Whole (r : Seed) (img : Image) (name : List UInt8) : Prop extends r.Shown img where
  symbol : r.symbolName = some name
  whole : img.len.toNat = r.imageSize
  size : r.imageSize ≤ FS_MAX_FILE_SIZE

/-- The sizes that the offsets are compared with. -/
theorem Whole.bounds (h : r.Whole img name) : InOrder r.filesz name (symbolLayout r.filesz name) ∧
    img.len.toNat = (symbolLayout r.filesz name).shoff + 320 ∧ (symbolLayout r.filesz name).shoff + 320 ≤ 8192 := by
  have ho := inOrder r.filesz name
  have hwhole := h.whole
  have hsize : r.imageSize ≤ 8192 := h.size
  have himage : r.imageSize = (symbolLayout r.filesz name).imageSize := by
    unfold imageSize
    rw [h.symbol]
  have hsz := ho.size
  exact ⟨ho, by omega, by omega⟩

/-- The fields that only an image with symbols has. -/
theorem mem_symbolFields (hname : r.symbolName = some name) {f : Ramfs.Field}
    (hf : f ∈ [wr64 40 (symbolLayout r.filesz name).shoff, wr16 58 0x40, wr16 60 5, wr16 62 1, (payloadOff, r.code),
        ((symbolLayout r.filesz name).shstrtabOff, shstrtab), ((symbolLayout r.filesz name).strtabOff, [0] ++ name ++ [0])] ∨
      f ∈ symbolFields ((symbolLayout r.filesz name).symtabOff + 24) 0 0x03 r.baseVaddr r.code.length ∨
      f ∈ symbolFields ((symbolLayout r.filesz name).symtabOff + 48) 1 0x12 r.baseVaddr r.code.length ∨
      f ∈ sectionFields (symbolLayout r.filesz name) r.baseVaddr r.pFlags r.code.length) : f ∈ r.fields := by
  unfold fields
  rw [hname]
  simp only [List.mem_append]
  tauto

theorem Shown.tables (h : r.Shown img) (hname : r.symbolName = some name) : img.ehdr.shoff = UInt64.ofNat (symbolLayout r.filesz name).shoff ∧
    img.ehdr.shentsize = 0x40 ∧ img.ehdr.shnum = 5 := by
  have hlen := h.len
  have hoff256 : payloadOff = 256 := rfl
  have hshoff : wr64 40 (symbolLayout r.filesz name).shoff ∈ r.fields := mem_symbolFields hname (.inl (by simp))
  have hshentsize : wr16 58 0x40 ∈ r.fields := mem_symbolFields hname (.inl (by simp))
  have hshnum : wr16 60 5 ∈ r.fields := mem_symbolFields hname (.inl (by simp))
  exact ⟨h.shows.xword hshoff rfl (by omega), h.shows.half hshentsize rfl (by omega), h.shows.half hshnum rfl (by omega)⟩

section

variable (h : r.Whole img name)
include h

theorem Whole.shdrOff {i : ℕ} (hi : i < 5) : (img.shdrOff i).toNat = (symbolLayout r.filesz name).shoff + 64 * i := by
  obtain ⟨-, -, hmax⟩ := h.bounds
  obtain ⟨hshoff, hshentsize, -⟩ := h.tables h.symbol
  have hentsize : (0x40 : UInt16).toUInt64.toNat = 64 := rfl
  unfold Image.shdrOff
  rw [hshoff, hshentsize, UInt64.toNat_add, UInt64.toNat_mul, hentsize, UInt64.toNat_ofNat', UInt64.toNat_ofNat']
  omega

theorem Whole.shdrs : img.shdrs = [0, 1, 2, 3, 4] := by
  unfold Image.shdrs
  rw [(h.tables h.symbol).2.2]
  rfl

theorem Whole.validateSectionHeaders : Elf.validateSectionHeaders img.ehdr img.len = .ok () := by
  obtain ⟨ho, hlen, hmax⟩ := h.bounds
  obtain ⟨hshoff, hshentsize, hshnum⟩ := h.tables h.symbol
  have hsh := ho.names
  have hstr := ho.strtab
  have hsym := ho.symtab
  have hsec := ho.sections
  have hoff256 : payloadOff = 256 := rfl
  have hoff : (UInt64.ofNat (symbolLayout r.filesz name).shoff).toNat = (symbolLayout r.filesz name).shoff := by
    rw [UInt64.toNat_ofNat']
    omega
  have hzero : ¬ (UInt64.ofNat (symbolLayout r.filesz name).shoff = 0 ∨ (5 : UInt16) = 0 ∨ (0x40 : UInt16).toNat < sizeofShdr) := by
    rintro (hz | hz | hz)
    · rw [← UInt64.toNat_inj, hoff, UInt64.toNat_zero] at hz
      omega
    · exact absurd hz (by decide)
    · exact absurd hz (by decide)
  have hlt : UInt64.ofNat (symbolLayout r.filesz name).shoff < img.len := by
    rw [UInt64.lt_iff_toNat_lt, hoff]
    omega
  have hroom : (5 : UInt16).toUInt64 ≤ (img.len - UInt64.ofNat (symbolLayout r.filesz name).shoff) / (0x40 : UInt16).toUInt64 := by
    have hfive : (5 : UInt16).toUInt64.toNat = 5 := rfl
    have hentsize : (0x40 : UInt16).toUInt64.toNat = 64 := rfl
    rw [UInt64.le_iff_toNat_le, UInt64.toNat_div, UInt64.toNat_sub_of_le _ _ (UInt64.le_of_lt hlt), hfive, hentsize, hoff]
    omega
  unfold Elf.validateSectionHeaders tableWindow
  rw [hshoff, hshentsize, hshnum, check_eq hzero, ok_bind, check_eq hlt, ok_bind, check_eq hroom]

/-- A field of a section header. -/
theorem Whole.sectionOff {i k : ℕ} (hi : i < 5) (hk : k < 64) {v : UInt64} (hv : v.toNat = k) :
    (img.shdrOff i + v).toNat = (symbolLayout r.filesz name).shoff + 64 * i + k := by
  obtain ⟨-, -, hmax⟩ := h.bounds
  rw [UInt64.toNat_add, h.shdrOff hi, hv]
  omega

theorem Whole.mem_sections :
    ∀ f ∈ sectionFields (symbolLayout r.filesz name) r.baseVaddr r.pFlags r.code.length, f ∈ r.fields := fun _ hf =>
  mem_symbolFields h.symbol (.inr (.inr (.inr hf)))

/-- No section but the last one is a symbol table. -/
theorem Whole.noTable {i : ℕ} (hi : i < 4) : ¬ isSymTable (img.section i) := by
  obtain ⟨ho, hlen, hmax⟩ := h.bounds
  have hmem := h.mem_sections
  simp only [sectionFields, List.forall_mem_cons] at hmem
  obtain ⟨-, htype₁, -, -, -, -, htype₂, -, -, -, -, -, -, htype₃, -⟩ := hmem
  have h4 : (4 : UInt64).toNat = 4 := rfl
  have htype : (img.section i).type = 0 ∨ (img.section i).type = 1 ∨ (img.section i).type = 3 := by
    have hread : (img.section i).type = img.word32 (img.shdrOff i + 4) := rfl
    have hoff := h.sectionOff (by omega : i < 5) (by decide : 4 < 64) h4
    rw [hread]
    interval_cases i
    · left
      have hzero := h.shows.zero (n := 4) hoff (by omega) fun k hk => written_gap h.symbol (.inr (by omega))
      rw [Image.word32, hzero]
      rfl
    · exact .inr (.inr (h.shows.word32 htype₁ hoff (by omega)))
    · exact .inr (.inl (h.shows.word32 htype₂ hoff (by omega)))
    · exact .inr (.inr (h.shows.word32 htype₃ hoff (by omega)))
  rintro ⟨hsym | hsym, -⟩ <;> rw [hsym] at htype <;> revert htype <;> decide

end

/-- The table of the symbols and the one of their names. -/
structure TableRead (img : Image) (l : Ramfs.SymbolLayout) : Prop where
  type : (img.section 4).type = SHT_SYMTAB
  offset : (img.section 4).offset = UInt64.ofNat l.symtabOff
  size : (img.section 4).size = 72
  link : (img.section 4).link = 3
  entsize : (img.section 4).entsize = 24
  strOffset : (img.section 3).offset = UInt64.ofNat l.strtabOff
  strSize : (img.section 3).size = UInt64.ofNat l.strtabSize

section

variable (h : r.Whole img name)
include h

theorem Whole.tableRead : TableRead img (symbolLayout r.filesz name) := by
  obtain ⟨ho, hlen, hmax⟩ := h.bounds
  have hmem := h.mem_sections
  simp only [sectionFields, List.forall_mem_cons] at hmem
  obtain ⟨-, -, -, -, -, -, -, -, -, -, -, -, -, -, hstrOffset, hstrSize, -, -, htype, hoffset, hsize, hlink, -, -, hentsize, -⟩ := hmem
  have hlast {k : ℕ} (hk : k < 64) {v : UInt64} (hv : v.toNat = k) := h.sectionOff (by decide : 4 < 5) hk hv
  have hnames {k : ℕ} (hk : k < 64) {v : UInt64} (hv : v.toNat = k) := h.sectionOff (by decide : 3 < 5) hk hv
  exact
    { type := h.shows.word32 htype (hlast (by decide : 4 < 64) rfl) (by omega)
      offset := h.shows.xword hoffset (hlast (by decide : 24 < 64) rfl) (by omega)
      size := h.shows.xword hsize (hlast (by decide : 32 < 64) rfl) (by omega)
      link := h.shows.word32 hlink (hlast (by decide : 40 < 64) rfl) (by omega)
      entsize := h.shows.xword hentsize (hlast (by decide : 56 < 64) rfl) (by omega)
      strOffset := h.shows.xword hstrOffset (hnames (by decide : 24 < 64) rfl) (by omega)
      strSize := h.shows.xword hstrSize (hnames (by decide : 32 < 64) rfl) (by omega) }

/-! ### The symbol -/

theorem Whole.isTable : isSymTable (img.section 4) := by
  have ht := h.tableRead
  unfold isSymTable
  rw [ht.type, ht.entsize, ht.size]
  decide

theorem Whole.symTables : img.symTables = [img.symTable 4] := by
  unfold Image.symTables
  rw [h.shdrs]
  simp [h.noTable (by decide : 0 < 4), h.noTable (by decide : 1 < 4), h.noTable (by decide : 2 < 4), h.noTable (by decide : 3 < 4), h.isTable]

theorem Whole.syms : (img.symTable 4).syms = [0, 1, 2] := by
  have ht := h.tableRead
  have hcount : (img.symTable 4).count = 3 := by
    unfold Image.symTable
    dsimp only
    rw [ht.size, ht.entsize]
    decide
  unfold SymTable.syms
  rw [hcount]
  rfl

theorem Whole.symbols :
    img.symbols = [img.symbol (img.symTable 4) 0, img.symbol (img.symTable 4) 1, img.symbol (img.symTable 4) 2] := by
  unfold Image.symbols
  rw [h.symTables, List.flatMap_singleton, h.syms]
  rfl

theorem Whole.tablesInside (hr : r.Admissible) : TablesInside img := by
  obtain ⟨ho, hlen, hmax⟩ := h.bounds
  have ht := h.tableRead
  have hstr := ho.symtab
  have hsec := ho.sections
  have hstrSize := ho.strtabSize
  have honly {i : ℕ} (hi : i < img.ehdr.shnum.toNat) (hsym : isSymTable (img.section i)) : i = 4 := by
    have hfive : (5 : UInt16).toNat = 5 := rfl
    rw [(h.tables h.symbol).2.2, hfive] at hi
    by_contra hne
    exact h.noTable (by omega) hsym
  have hlink : (img.section 4).link.toNat = 3 := by
    rw [ht.link]
    rfl
  refine ⟨h.validate hr, h.validateSectionHeaders, fun i hi hsym => ?_, fun i hi hsym => ?_, fun i hi hsym => ?_⟩
  · have h72 : (72 : UInt64).toNat = 72 := rfl
    rw [honly hi hsym, ht.offset, ht.size]
    unfold InImage
    rw [UInt64.toNat_ofNat', h72]
    omega
  · rw [honly hi hsym, hlink, (h.tables h.symbol).2.2]
    decide
  · rw [honly hi hsym, hlink, ht.strOffset, ht.strSize]
    unfold InImage
    rw [UInt64.toNat_ofNat', UInt64.toNat_ofNat']
    omega

/-- The string table is a NUL, the name and a NUL. -/
theorem Whole.strings {off : UInt64} {k : ℕ} (hk : k < name.length + 2)
    (hoff : off.toNat = (symbolLayout r.filesz name).strtabOff + k) : img.byte off = ([0] ++ name ++ [0]).getD k 0 := by
  obtain ⟨ho, hlen, hmax⟩ := h.bounds
  have hstr := ho.symtab
  have hsec := ho.sections
  have hmem : ((symbolLayout r.filesz name).strtabOff, [0] ++ name ++ [0]) ∈ r.fields := mem_symbolFields h.symbol (.inl (by simp))
  have htable : ([0] ++ name ++ [0]).length = name.length + 2 := by simp
  have hbyte := @written_mem _ _ k (apart_fields r) hmem (htable ▸ hk)
  rw [h.shows.byteAt hoff (by omega)]
  exact hbyte

/-- The entry of a symbol. -/
theorem Whole.symOff {j k : ℕ} (hj : j < 3) (hk : k < 24) {v : UInt64} (hv : v.toNat = k) :
    ((img.symTable 4).sym j + v).toNat = (symbolLayout r.filesz name).symtabOff + 24 * j + k := by
  obtain ⟨ho, hlen, hmax⟩ := h.bounds
  have hsec := ho.sections
  have ht := h.tableRead
  have h24 : (24 : UInt64).toNat = 24 := rfl
  have hsym : (img.symTable 4).sym j = (img.section 4).offset + UInt64.ofNat j * (img.section 4).entsize := rfl
  rw [hsym, ht.offset, ht.entsize, UInt64.toNat_add, UInt64.toNat_add, UInt64.toNat_mul, hv, h24, UInt64.toNat_ofNat', UInt64.toNat_ofNat']
  omega

end

/-- The symbol of the code. -/
def codeSymbol (r : Seed) (name : List UInt8) : Symbol where
  name := some (UInt64.ofNat (symbolLayout r.filesz name).strtabOff + 1)
  value := UInt64.ofNat r.baseVaddr
  size := UInt64.ofNat r.code.length
  info := 0x12
  shndx := 2

/-- The first two symbols have no name. -/
theorem Whole.unnamed (h : r.Whole img name) {j : ℕ} (hj : j < 2) : ¬ img.Named (img.symbol (img.symTable 4) j) := by
  obtain ⟨ho, hlen, hmax⟩ := h.bounds
  have hstr := ho.symtab
  have hsec := ho.sections
  have ht := h.tableRead
  have hmem : ∀ f ∈ symbolFields ((symbolLayout r.filesz name).symtabOff + 24) 0 0x03 r.baseVaddr r.code.length, f ∈ r.fields :=
    fun f hf => mem_symbolFields h.symbol (.inr (.inl hf))
  simp only [symbolFields, List.forall_mem_cons] at hmem
  have hoff : ((img.symTable 4).sym j).toNat = (symbolLayout r.filesz name).symtabOff + 24 * j := by
    simpa using h.symOff (by omega : j < 3) (by decide : 0 < 24) (rfl : (0 : UInt64).toNat = 0)
  have hname : img.word32 ((img.symTable 4).sym j) = 0 := by
    interval_cases j
    · have hzero := h.shows.zero (n := 4) hoff (by omega) fun k hk => written_gap h.symbol (.inl (by omega))
      rw [Image.word32, hzero]
      rfl
    · exact h.shows.word32 hmem.1 hoff (by omega)
  have hfirst : img.byte ((img.symTable 4).strOffset + 0) = 0 := by
    have hstrOffset : (img.symTable 4).strOffset = (img.section (img.section 4).link.toNat).offset := rfl
    have hlink : (img.section 4).link.toNat = 3 := by
      rw [ht.link]
      rfl
    refine (h.strings (by omega : 0 < name.length + 2) ?_).trans rfl
    rw [hstrOffset, hlink, ht.strOffset, UInt64.add_zero, UInt64.toNat_ofNat']
    omega
  have hzero : (0 : UInt32).toUInt64 = 0 := rfl
  unfold Image.Named Image.symbol Image.nameAt
  dsimp only
  rw [hname, hzero]
  split_ifs
  · simpa using hfirst
  · simp

theorem Whole.symbol_code (h : r.Whole img name) : img.symbol (img.symTable 4) 2 = r.codeSymbol name := by
  obtain ⟨ho, hlen, hmax⟩ := h.bounds
  have hstr := ho.symtab
  have hsec := ho.sections
  have hstrSize := ho.strtabSize
  have ht := h.tableRead
  have hmem : ∀ f ∈ symbolFields ((symbolLayout r.filesz name).symtabOff + 48) 1 0x12 r.baseVaddr r.code.length, f ∈ r.fields :=
    fun f hf => mem_symbolFields h.symbol (.inr (.inr (.inl hf)))
  simp only [symbolFields, List.forall_mem_cons] at hmem
  obtain ⟨hname, hinfo, hshndx, hvalue, hsize, -⟩ := hmem
  have hoff {k : ℕ} (hk : k < 24) {v : UInt64} (hv : v.toNat = k) := h.symOff (by decide : 2 < 3) hk hv
  have hlink : (img.section 4).link.toNat = 3 := by
    rw [ht.link]
    rfl
  have hname' : img.word32 ((img.symTable 4).sym 2) = 1 := by
    have h0 := hoff (by decide : 0 < 24) (rfl : (0 : UInt64).toNat = 0)
    rw [UInt64.add_zero] at h0
    exact h.shows.word32 hname h0 (by omega)
  have hinfo' : img.byte ((img.symTable 4).sym 2 + 4) = 0x12 := by
    have h4 := hoff (by decide : 4 < 24) (rfl : (4 : UInt64).toNat = 4)
    rw [h.shows.byteAt h4 (by omega)]
    exact @written_mem _ _ 0 (apart_fields r) hinfo (by simp)
  have hstrings : (img.symTable 4).strOffset = UInt64.ofNat (symbolLayout r.filesz name).strtabOff ∧
      (img.symTable 4).strSize = UInt64.ofNat (symbolLayout r.filesz name).strtabSize := by
    unfold Image.symTable
    dsimp only
    rw [hlink]
    exact ⟨ht.strOffset, ht.strSize⟩
  have hterminated : img.Terminated (UInt64.ofNat (symbolLayout r.filesz name).strtabOff)
      (UInt64.ofNat (symbolLayout r.filesz name).strtabSize) 1 := by
    refine ⟨name.length + 1, ?_, ?_, (h.strings (by omega : name.length + 1 < name.length + 2) ?_).trans ?_⟩
    · rw [UInt64.toNat_ofNat']
      omega
    · rw [UInt64.toNat_one]
      omega
    · rw [UInt64.toNat_add, UInt64.toNat_ofNat', UInt64.toNat_ofNat']
      omega
    · simp
  have hone : (1 : UInt32).toUInt64 = 1 := rfl
  unfold Image.symbol Image.nameAt codeSymbol
  rw [hname', hone, hstrings.1, hstrings.2, if_pos hterminated, hinfo', h.shows.xword hvalue (hoff (by decide : 8 < 24) rfl) (by omega),
    h.shows.xword hsize (hoff (by decide : 16 < 24) rfl) (by omega), h.shows.half hshndx (hoff (by decide : 6 < 24) rfl) (by omega)]
  rfl

/-- The name of the symbol is the one that the builder was given. -/
theorem Whole.spells (h : r.Whole img name) : img.Spells (UInt64.ofNat (symbolLayout r.filesz name).strtabOff + 1) name := by
  obtain ⟨ho, hlen, hmax⟩ := h.bounds
  have hstr := ho.symtab
  have hsec := ho.sections
  intro k hk
  rw [h.strings (by omega : k + 1 < name.length + 2)]
  · rcases Nat.lt_or_eq_of_le hk with hlt | rfl
    · simp [List.getElem?_append_left hlt]
    · simp
  · rw [UInt64.toNat_add, UInt64.toNat_add, UInt64.toNat_ofNat', UInt64.toNat_ofNat', UInt64.toNat_one]
    omega

theorem Whole.find (h : r.Whole img name) (hr : r.Admissible) (hne : name ≠ []) {addr : UInt64} (haddr : r.baseVaddr ≤ addr.toNat) :
    elfFindSymbolByAddr img addr = .ok (r.codeSymbol name, addr - UInt64.ofNat r.baseVaddr) := by
  have hvalue : (UInt64.ofNat r.baseVaddr).toNat = r.baseVaddr := hr.toNat.1
  have hconsidered : Considered img addr (r.codeSymbol name) := by
    refine ⟨?_, (by decide : (2 : UInt16) ≠ SHN_UNDEF), .inl (by decide : (0x12 : UInt8) &&& 0x0F = STT_FUNC), ?_⟩
    · have hfirst := h.spells 0 (Nat.zero_le _)
      unfold Image.Named codeSymbol
      dsimp only
      have hzero : UInt64.ofNat 0 = 0 := rfl
      rw [hzero, UInt64.add_zero] at hfirst
      rw [hfirst]
      intro h0
      obtain ⟨c, rest, rfl⟩ := List.exists_cons_of_ne_nil hne
      exact hr.name _ h.symbol (by simpa using Or.inl h0.symm)
    · unfold codeSymbol
      rw [UInt64.le_iff_toNat_le, hvalue]
      exact haddr
  have hfilter (s₀ s₁ s₂ : Symbol) (h₀ : ¬ Considered img addr s₀) (h₁ : ¬ Considered img addr s₁) (h₂ : Considered img addr s₂) :
      [s₀, s₁, s₂].filter (Considered img addr) = [s₂] := by
    simp [h₀, h₁, h₂]
  have hnone (j : ℕ) (hj : j < 2) : ¬ Considered img addr (img.symbol (img.symTable 4) j) := mt Considered.named (h.unnamed hj)
  have hcandidates : img.candidates addr = [r.codeSymbol name] := by
    unfold Image.candidates
    rw [h.symbols, h.symbol_code]
    exact hfilter _ _ _ (hnone 0 (by decide)) (hnone 1 (by decide)) hconsidered
  rw [elfFindSymbolByAddr_eq (h.tablesInside hr) addr, hcandidates, favourite_singleton]
  rfl

end Seed

/-! ### Loading back -/

namespace Seed

variable {r : Seed} {img : Image} {s s' : Ramfs.Fs} {ptr : UInt64}

/-- The image is one that the loader takes: its one segment is the code and zeros, and the addresses of the
code have the symbol with the offset in it. -/
structure LoadsBack (r : Seed) (img : Image) : Prop where
  header : validateElf64Image img = .ok img.ehdr
  window : getProgramHeaderWindow img.ehdr img.len = .ok ()
  segments : Elf.validateLoadSegments img = .ok ()
  single : img.ehdr.phnum = 1
  segment : img.segment 0 = r.segment
  bytes : ∀ k < r.memsz, img.segmentByte (img.segment 0) k = r.code.getD k 0
  symbol : ∀ name, r.symbolName = some name → ∀ addr : UInt64, r.baseVaddr ≤ addr.toNat → addr.toNat < r.baseVaddr + r.code.length →
    ∃ t p, elfFindSymbolByAddr img addr = .ok (t, addr - UInt64.ofNat r.baseVaddr) ∧ t.name = some p ∧ img.Spells p name

/-- A file can keep the image, or it loses only a byte that is not looked at. -/
def Fits (r : Seed) : Prop := r.imageSize < FS_MAX_FILE_SIZE ∨ r.symbolName.isSome ∧ r.code = []

theorem filesz_le (r : Seed) : payloadOff + r.filesz ≤ r.imageSize ∧ (r.symbolName.isSome → payloadOff + r.filesz + 320 ≤ r.imageSize) := by
  unfold imageSize
  cases r.symbolName with
  | none => simp
  | some name =>
    have ho := inOrder r.filesz name
    have hsh := ho.names
    have hstr := ho.strtab
    have hsym := ho.symtab
    have hsec := ho.sections
    have hsz := ho.size
    dsimp only
    omega

theorem len_stored (r : Seed) (ptr : UInt64) : (Image.ofBytes ptr r.stored).len.toNat = min r.imageSize (FS_MAX_FILE_SIZE - 1) := by
  have hmax : FS_MAX_FILE_SIZE = 8192 := rfl
  unfold Image.ofBytes stored
  dsimp only
  rw [List.length_map, List.length_range, UInt64.toNat_ofNat']
  omega

theorem shown_stored (r : Seed) (hptr : ptr ≠ 0) : r.Shown (Image.ofBytes ptr r.stored) where
  base := hptr
  len := by
    have hmax : FS_MAX_FILE_SIZE = 8192 := rfl
    have hoff256 : payloadOff = 256 := rfl
    have hle := r.filesz_le.1
    rw [len_stored]
    omega
  shows := by
    refine ⟨apart_fields r, fun i hi => ?_⟩
    have hmax : FS_MAX_FILE_SIZE = 8192 := rfl
    rw [len_stored] at hi
    have hi64 : (UInt64.ofNat i).toNat = i := by
      rw [UInt64.toNat_ofNat']
      omega
    unfold Image.ofBytes stored
    dsimp only
    rw [hi64]
    simp [hi]

/-- The segment is the code and zeros. -/
theorem Shown.segmentByte (h : r.Shown img) (hr : r.Admissible) (hin : payloadOff + r.filesz ≤ img.len.toNat) (k : ℕ) :
    img.segmentByte (img.segment 0) k = r.code.getD k 0 := by
  have hlen := img.len.toNat_lt
  have hoff256 : payloadOff = 256 := rfl
  have hoffset : r.segment.offset.toNat = 256 := rfl
  rw [h.segment]
  unfold Image.segmentByte
  rw [hr.toNat.2.1]
  split_ifs with hk
  · have hoff : (r.segment.offset + UInt64.ofNat k).toNat = payloadOff + k := by
      rw [UInt64.toNat_add, UInt64.toNat_ofNat']
      omega
    rw [h.shows.byteAt hoff (by omega), written_code r hk]
  · have hcode := r.sizes.1
    rw [List.getD_eq_default _ _ (by omega)]

theorem loadsBack_of_fits (hacc : r.Accepted) (hr : r.Admissible) (hptr : ptr ≠ 0) (hfits : r.Fits) :
    r.LoadsBack (Image.ofBytes ptr r.stored) := by
  have hmax : FS_MAX_FILE_SIZE = 8192 := rfl
  have hshown := shown_stored r hptr
  have hlen := r.len_stored ptr
  obtain ⟨hle, htables⟩ := r.filesz_le
  have hsize := hacc.imageSize
  have hin : payloadOff + r.filesz ≤ (Image.ofBytes ptr r.stored).len.toNat := by
    rcases hfits with hlt | ⟨hsome, -⟩
    · omega
    · have hroom := htables hsome
      omega
  refine ⟨hshown.validate hr, hshown.window, hshown.validateLoadSegments hr hacc.filesz hin, hshown.header.phnum, hshown.segment,
    fun k _ => hshown.segmentByte hr hin k, fun name hname addr hlow hhigh => ?_⟩
  rcases hfits with hlt | ⟨-, hnil⟩
  · have hwhole : r.Whole (Image.ofBytes ptr r.stored) name := ⟨hshown, hname, by omega, hsize⟩
    exact ⟨_, _, hwhole.find hr (hacc.name name hname) hlow, rfl, hwhole.spells⟩
  · rw [hnil, List.length_nil] at hhigh
    omega

theorem fits_of_loadsBack (hacc : r.Accepted) (hr : r.Admissible) (hptr : ptr ≠ 0) (h : r.LoadsBack (Image.ofBytes ptr r.stored)) : r.Fits := by
  have hmax : FS_MAX_FILE_SIZE = 8192 := rfl
  have hshown := shown_stored r hptr
  have hlen := r.len_stored ptr
  have hsize := hacc.imageSize
  by_contra hno
  unfold Fits at hno
  rw [not_or, not_lt, not_and] at hno
  obtain ⟨hfull, hcode⟩ := hno
  cases hname : r.symbolName with
  | none =>
    have himage : r.imageSize = payloadOff + r.filesz := by
      unfold imageSize
      rw [hname]
    have hoff256 : payloadOff = 256 := rfl
    have hpos := hacc.filesz
    have hmemsz := r.sizes.2
    have hload : ((Image.ofBytes ptr r.stored).segment 0).Loads := by
      rw [hshown.segment]
      refine ⟨rfl, ?_⟩
      rw [ne_eq, ← UInt64.toNat_inj, hr.toNat.2.2, UInt64.toNat_zero]
      omega
    have hphnum : 0 < (Image.ofBytes ptr r.stored).ehdr.phnum.toNat := by
      rw [h.single]
      decide
    have hsegments := h.segments
    unfold Elf.validateLoadSegments at hsegments
    rw [bind_ok_iff] at hsegments
    obtain ⟨_, -, hsegments⟩ := hsegments
    rw [bind_ok_iff] at hsegments
    obtain ⟨count, hcount, -⟩ := hsegments
    obtain ⟨c, c', hvalid⟩ := of_foldlM_ok hcount 0 (by simp [hshown.phdrs])
    have hfile := (of_validateSegment hshown.segments hphnum hvalid hload).1.file
    have hoffset : r.segment.offset.toNat = 256 := rfl
    rw [hshown.segment, UInt64.le_iff_toNat_le, UInt64.toNat_add, hoffset, hr.toNat.2.1] at hfile
    omega
  | some name =>
    have himage : r.imageSize = (symbolLayout r.filesz name).shoff + 320 := by
      unfold imageSize
      rw [hname]
      exact (inOrder r.filesz name).size
    have hbase : (UInt64.ofNat r.baseVaddr).toNat = r.baseVaddr := hr.toNat.1
    have hpos : 0 < r.code.length := List.length_pos_iff.2 (hcode (by simp [hname]))
    obtain ⟨t, p, hfind, -⟩ := h.symbol name hname (UInt64.ofNat r.baseVaddr) (by omega) (by omega)
    unfold elfFindSymbolByAddr at hfind
    rw [h.header, ok_bind, bind_ok_iff] at hfind
    obtain ⟨_, hsections, -⟩ := hfind
    have hwithin := validateSectionHeaders_within (Image.ofBytes ptr r.stored)
    rw [hsections] at hwithin
    have hinside := hwithin.of_ok.inside
    obtain ⟨hshoff, hshentsize, hshnum⟩ := hshown.tables hname
    have hfive : (5 : UInt16).toNat = 5 := rfl
    have hentsize : (0x40 : UInt16).toNat = 64 := rfl
    rw [hshoff, hshentsize, hshnum, hfive, hentsize, UInt64.toNat_ofNat'] at hinside
    omega

end Seed

variable {r : Seed} {s s' : Ramfs.Fs}

/-- A program that a builder has put into the file system is read back and loads, with its symbol, if and only if
the file could keep the image, but for a byte that is not looked at. -/
theorem seed_loadsBack_iff (hs : Ramfs.WellFormed s) (hr : r.Admissible) (h : r.run s = (.ok (), s')) {ptr : UInt64} (hptr : ptr ≠ 0)
    {capacity : ℕ} (hcap : FS_MAX_FILE_SIZE ≤ capacity) :
    (∃ data, Ramfs.readFile (some r.path) capacity s' = (.ok data, s') ∧ r.LoadsBack (Image.ofBytes ptr data)) ↔ r.Fits := by
  have hread := Seed.readFile_run hs h hcap
  have hacc := (Seed.accepted_of_run h).1
  constructor
  · rintro ⟨data, hdata, hloads⟩
    obtain rfl : r.stored = data := Outcome.ok.inj (Prod.mk.inj (hread.symm.trans hdata)).1
    exact Seed.fits_of_loadsBack hacc hr hptr hloads
  · exact fun hfits => ⟨_, hread, Seed.loadsBack_of_fits hacc hr hptr hfits⟩

/-- A program of one instruction, with a symbol. -/
def retSeed : Seed := ⟨2, Ramfs.chars "/a", 0x400000, 5, [0xC3], 1, 1, some (Ramfs.chars "_start")⟩

theorem seed_loadsBack_ret : ∃ s', retSeed.run Ramfs.started = (.ok (), s') ∧
    ((∃ data, Ramfs.readFile (some retSeed.path) 8192 s' = (.ok data, s') ∧ retSeed.LoadsBack (Image.ofBytes 0x10000 data)) ↔ retSeed.Fits) := by
  have hrun : retSeed.run Ramfs.started = (.ok (), (retSeed.run Ramfs.started).2) := Prod.ext (by decide +kernel) rfl
  exact ⟨_, hrun, seed_loadsBack_iff Ramfs.wellFormed_started ⟨.inl rfl, by decide, by decide, by simp [retSeed]; decide⟩ hrun (by decide) (by decide)⟩

/-- An image of 8192 bytes loses its last one. -/
def fullSeed : Seed := ⟨2, Ramfs.chars "/a", 0x400000, 5, [0xC3], 7936, 7936, none⟩

theorem not_seed_loadsBack : ¬ ∀ (s s' : Ramfs.Fs) (r : Seed) (ptr : UInt64), Ramfs.WellFormed s → r.Admissible → r.run s = (.ok (), s') →
    ptr ≠ 0 → ∃ data, Ramfs.readFile (some r.path) FS_MAX_FILE_SIZE s' = (.ok data, s') ∧ r.LoadsBack (Image.ofBytes ptr data) := by
  intro h
  have hadmissible : fullSeed.Admissible := ⟨.inl rfl, by decide, by decide, by simp [fullSeed]⟩
  have hrun : fullSeed.run Ramfs.started = (.ok (), (fullSeed.run Ramfs.started).2) := Prod.ext (by decide +kernel) rfl
  have hptr : (0x10000 : UInt64) ≠ 0 := by decide
  obtain ⟨data, hdata, hloads⟩ := h _ _ fullSeed _ Ramfs.wellFormed_started hadmissible hrun hptr
  have hread := Seed.readFile_run Ramfs.wellFormed_started hrun le_rfl
  obtain rfl : fullSeed.stored = data := Outcome.ok.inj (Prod.mk.inj (hread.symm.trans hdata)).1
  rcases Seed.fits_of_loadsBack (Seed.accepted_of_run hrun).1 hadmissible hptr hloads with hlt | ⟨hsome, -⟩
  · exact absurd hlt (by decide)
  · exact absurd hsome (by decide)

end Tg11Kernel.Elf
