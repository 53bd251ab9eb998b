import Tg11Kernel.Elf.Inspect
import Mathlib.Algebra.Order.Group.Nat

/-! Inspection stays inside the image. The tables of headers are checked without
wrapping, so headers are always read inside; a section is checked by the sum of its
offset and size, which may wrap. Where it does not for the sections that are
consulted, every symbol and every string is read inside as well. -/

namespace Tg11Kernel.Elf

open Lib

variable {img : Image}

/-- Not a read outside the image. -/
def Fault.Inside (f : Fault) : Prop := f ≠ .outside

variable {p : Prop} {e : ElfError} {off base : UInt64} {n size i j : ℕ} {num entsize : UInt16} {name : Name}
  {table : SymTable} {best : Option Best}

theorem check_within [Decidable p] : Within (fun _ => p) Fault.Inside (check p e) := by
  unfold check
  split_ifs with hp
  · exact .ok hp
  · exact .error nofun

theorem check_bind {α : Type} [Decidable p] {Q : α → Prop} {f : Unit → Read α}
    (hf : p → Within Q Fault.Inside (f ())) : Within Q Fault.Inside (check p e >>= f) :=
  check_within.bind fun _ _ hp => hf hp

theorem fetch_within {α : Type} {value : α} (h : img.Holds off n) :
    Within (fun a => a = value) Fault.Inside (img.fetch off n value) := by
  unfold Image.fetch
  rw [if_pos h]
  exact .ok rfl

/-! ### Tables of headers -/

/-- A product of a count and a size that the division has let through. -/
theorem mul_le_of_le_div {n d q : UInt64} (h : n ≤ d / q) : n.toNat * q.toNat ≤ d.toNat := by
  rw [UInt64.le_iff_toNat_le, UInt64.toNat_div] at h
  exact (Nat.mul_le_mul_right _ h).trans (Nat.div_mul_le_self ..)

/-- The table's entries lie inside the image. -/
structure TableFits (img : Image) (off : UInt64) (num entsize : UInt16) (size : ℕ) : Prop where
  size : size ≤ entsize.toNat
  inside : off.toNat + num.toNat * entsize.toNat ≤ img.len.toNat

theorem tableWindow_within :
    Within (fun _ => TableFits img off num entsize size) Fault.Inside (tableWindow img.len off num entsize size e) := by
  unfold tableWindow
  apply check_bind
  intro hsize
  apply check_bind
  intro hoff
  apply check_within.mono
  intro _ hnum
  simp only [not_or, not_lt] at hsize
  refine ⟨hsize.2.2, ?_⟩
  have hmul := mul_le_of_le_div hnum
  rw [UInt64.toNat_sub_of_le _ _ (UInt64.le_of_lt hoff)] at hmul
  simp only [UInt16.toNat_toUInt64] at hmul
  rw [UInt64.lt_iff_toNat_lt] at hoff
  omega

/-- The offset of an entry does not wrap. -/
theorem entry_toNat {entsize : UInt64} (hi : i < n) (h : off.toNat + n * entsize.toNat < 2 ^ 64)
    (hpos : 0 < entsize.toNat) : (off + UInt64.ofNat i * entsize).toNat = off.toNat + i * entsize.toNat := by
  have hmul : i * entsize.toNat ≤ n * entsize.toNat := Nat.mul_le_mul_right _ hi.le
  have hlt : i < 2 ^ 64 := by
    have hle : i * 1 ≤ i * entsize.toNat := Nat.mul_le_mul_left _ hpos
    omega
  rw [UInt64.toNat_add, UInt64.toNat_mul, UInt64.toNat_ofNat_of_lt' hlt]
  rw [Nat.mod_eq_of_lt (a := i * entsize.toNat) (by omega), Nat.mod_eq_of_lt (by omega)]

theorem TableFits.holds (h : TableFits img off num entsize size)
    (hsize : 0 < size) (hi : i < num.toNat) : img.Holds (off + UInt64.ofNat i * entsize.toUInt64) size := by
  have hlen := img.len.toNat_lt
  have hlast : (i + 1) * entsize.toNat ≤ num.toNat * entsize.toNat := Nat.mul_le_mul_right _ hi
  have hoff : (off + UInt64.ofNat i * entsize.toUInt64).toNat = off.toNat + i * entsize.toUInt64.toNat :=
    entry_toNat hi (by simpa using h.inside.trans_lt hlen) (by simpa using hsize.trans_le h.size)
  unfold Image.Holds
  rw [hoff, UInt16.toNat_toUInt64]
  have hfits := h.inside
  have hent := h.size
  rw [Nat.succ_mul] at hlast
  omega

/-! ### The image header -/

theorem validateElf64Image_within (img : Image) :
    Within (fun ehdr => ehdr = img.ehdr ∧ sizeofEhdr ≤ img.len.toNat) Fault.Inside (validateElf64Image img) := by
  unfold validateElf64Image
  apply check_bind
  intro _
  apply check_bind
  intro hlen
  have hholds : img.Holds 0 sizeofEhdr := by
    unfold Image.Holds
    simpa using hlen
  apply Within.bind (fetch_within hholds)
  rintro ehdr - rfl
  iterate 8
    apply check_bind
    intro _
  exact .ok ⟨rfl, hlen⟩

/-! ### Strings -/

/-- The name starts inside the image and ends with a NUL there, or is the empty constant. -/
def NameOk (img : Image) : Name → Prop
  | none => True
  | some p => p < img.len ∧ ∃ q, p ≤ q ∧ q < img.len ∧ img.byte q = 0

/-- The bytes of a section belong to the image, as far as its header says. -/
def InImage (img : Image) (off size : UInt64) : Prop := off.toNat + size.toNat ≤ img.len.toNat

theorem readByte_within (h : off.toNat < img.len.toNat) :
    Within (fun b => b = img.byte off) Fault.Inside (img.readByte off) := fetch_within h

theorem findNul_within {i : UInt64} (h : base.toNat + i.toNat + n ≤ img.len.toNat) :
    Within (fun found => found = true → ∃ q : UInt64, (base + i).toNat ≤ q.toNat ∧ q < img.len ∧ img.byte q = 0)
      Fault.Inside (findNul img base n i) := by
  have hlen := img.len.toNat_lt
  induction n generalizing i with
  | zero => exact .ok nofun
  | succ n ih =>
    have hoff : (base + i).toNat = base.toNat + i.toNat := by
      rw [UInt64.toNat_add, Nat.mod_eq_of_lt (by omega)]
    have hi : (i + 1).toNat = i.toNat + 1 := by
      rw [UInt64.toNat_add, UInt64.toNat_one, Nat.mod_eq_of_lt (by omega)]
    have hinside : (base + i).toNat < img.len.toNat := by omega
    unfold findNul
    apply (readByte_within hinside).bind
    rintro b - rfl
    apply Within.ite
    · intro hzero
      exact .ok fun _ => ⟨base + i, le_rfl, hinside, hzero⟩
    · intro _
      apply (ih (by omega)).mono
      intro found hfound htrue
      obtain ⟨q, hle, hq, hzero⟩ := hfound htrue
      refine ⟨q, ?_, hq, hzero⟩
      have hnext : (base + (i + 1)).toNat = base.toNat + (i.toNat + 1) := by
        rw [UInt64.toNat_add, hi, Nat.mod_eq_of_lt (by omega)]
      omega

theorem stringAt_within {size : UInt64} (offset : UInt64) (h : InImage img base size) :
    Within (NameOk img) Fault.Inside (stringAt img base size offset) := by
  unfold stringAt
  apply Within.ite
  · intro _
    exact .ok trivial
  · intro hlt
    rw [ge_iff_le, UInt64.le_iff_toNat_le, not_le] at hlt
    unfold InImage at h
    have hlen := img.len.toNat_lt
    have hbounds : base.toNat + offset.toNat + (size.toNat - offset.toNat) ≤ img.len.toNat := by omega
    apply (findNul_within hbounds).bind
    intro found _ hfound
    cases found with
    | false => exact .ok trivial
    | true =>
      obtain ⟨q, hle, hq, hzero⟩ := hfound rfl
      have hp : base + offset < img.len := by
        rw [UInt64.lt_iff_toNat_lt] at hq ⊢
        omega
      exact .ok ⟨hp, q, UInt64.le_iff_toNat_le.2 hle, hq, hzero⟩

theorem firstByte_within (h : NameOk img name) : Within (fun _ => True) Fault.Inside (firstByte img name) := by
  cases name with
  | none => exact .ok trivial
  | some p => exact (readByte_within (UInt64.lt_iff_toNat_lt.1 h.1)).mono fun _ _ => trivial

/-! ### Symbols -/

/-- The sum of offset and size, if it passes for the end of a section inside the image, has not wrapped. -/
def EndsInside (img : Image) (shdr : Shdr) : Prop :=
  shdr.offset + shdr.size ≤ img.len → shdr.offset.toNat + shdr.size.toNat < 2 ^ 64

theorem EndsInside.inImage {shdr : Shdr} (h : EndsInside img shdr) (hle : shdr.offset + shdr.size ≤ img.len) :
    InImage img shdr.offset shdr.size := by
  have hsum := h hle
  rw [UInt64.le_iff_toNat_le, UInt64.toNat_add, Nat.mod_eq_of_lt hsum] at hle
  exact hle

/-- Section `i` of the image. -/
def Image.section (img : Image) (i : ℕ) : Shdr := img.shdr (img.shdrOff i)

/-- No symbol table that is consulted, nor its string table, has an end that wraps into the image. -/
def SymbolTablesEnd (img : Image) : Prop :=
  ∀ i < img.ehdr.shnum.toNat, isSymTable (img.section i) → EndsInside img (img.section i) ∧
    ((img.section i).link.toNat < img.ehdr.shnum.toNat → EndsInside img (img.section (img.section i).link.toNat))

/-- The symbols and strings of a table lie inside the image. -/
structure SymTable.Fits (img : Image) (table : SymTable) : Prop where
  size : sizeofSym ≤ table.entsize.toNat
  symbols : table.offset.toNat + table.count.toNat * table.entsize.toNat ≤ img.len.toNat
  strings : InImage img table.strOffset table.strSize

/-- The section headers lie inside the image. -/
def Sections (img : Image) : Prop := TableFits img img.ehdr.shoff img.ehdr.shnum img.ehdr.shentsize sizeofShdr

theorem readShdr_within (h : Sections img) (hi : i < img.ehdr.shnum.toNat) :
    Within (fun shdr => shdr = img.section i) Fault.Inside (img.readShdr i) :=
  fetch_within (h.holds (by decide) hi)

theorem symTableAt_within (h : Sections img) (hends : SymbolTablesEnd img) (strict : Bool)
    (hi : i < img.ehdr.shnum.toNat) :
    Within (fun table => ∀ t, table = some t → t.Fits img) Fault.Inside (symTableAt img strict i) := by
  unfold symTableAt
  apply (readShdr_within h hi).bind
  intro symtab _ hsymtab
  apply Within.ite
  · intro _
    apply Within.ok
    simp
  · intro hsym
    rw [not_not] at hsym
    obtain ⟨hend, hlink⟩ := hends i hi (hsymtab ▸ hsym)
    rw [← hsymtab] at hend hlink
    apply check_bind
    intro hle
    apply check_bind
    intro hnum
    have hnum' : symtab.link.toNat < img.ehdr.shnum.toNat := by
      rw [ge_iff_le, UInt32.le_iff_toNat_le, not_le] at hnum
      simpa using hnum
    apply (readShdr_within h hnum').bind
    intro strtab _ hstrtab
    rw [← hstrtab] at hlink
    apply check_bind
    intro _
    apply check_bind
    intro hle'
    apply Within.ok
    intro t ht
    obtain rfl := Option.some.inj ht
    have hin := hend.inImage (UInt64.not_lt.1 hle)
    have hsize : sizeofSym ≤ symtab.entsize.toNat := not_lt.1 (not_or.1 hsym.2).1
    have hmul := mul_le_of_le_div (UInt64.le_refl (symtab.size / symtab.entsize))
    refine ⟨hsize, ?_, (hlink hnum').inImage (UInt64.not_lt.1 hle')⟩
    unfold InImage at hin
    dsimp only
    omega

/-- The offset of a symbol of a table. -/
def SymTable.sym (table : SymTable) (j : ℕ) : UInt64 := table.offset + UInt64.ofNat j * table.entsize

/-- A field of a symbol lies inside the image. -/
theorem SymTable.Fits.holds (h : table.Fits img) (hj : j < table.count.toNat) (k n : ℕ)
    (hkn : k + n ≤ sizeofSym) : img.Holds (table.sym j + UInt64.ofNat k) n := by
  have hlen := img.len.toNat_lt
  have hsize := h.size
  have hfits := h.symbols
  have hlast : (j + 1) * table.entsize.toNat ≤ table.count.toNat * table.entsize.toNat := Nat.mul_le_mul_right _ hj
  rw [Nat.succ_mul] at hlast
  unfold sizeofSym at hkn hsize
  have hoff : (table.sym j).toNat = table.offset.toNat + j * table.entsize.toNat := entry_toNat hj (by omega) (by omega)
  have hk : (UInt64.ofNat k).toNat = k := UInt64.toNat_ofNat_of_lt' (by unfold UInt64.size; omega)
  unfold Image.Holds
  rw [UInt64.toNat_add, hoff, hk, Nat.mod_eq_of_lt (by omega)]
  omega

/-- A symbol found has its fields inside the image, and its name. -/
def SymbolOk (img : Image) (sym : UInt64) (name : Name) : Prop :=
  NameOk img name ∧ ∀ k n, k + n ≤ sizeofSym → img.Holds (sym + UInt64.ofNat k) n

theorem namedSymbol_within (h : table.Fits img) (hj : j < table.count.toNat) :
    Within (fun found => ∀ sym name, found = some (sym, name) → SymbolOk img sym name) Fault.Inside
      (namedSymbol img table j) := by
  have hfields := h.holds hj
  unfold namedSymbol
  have hfirst : img.Holds (table.sym j) 4 := by simpa using hfields 0 4 (by decide)
  apply (fetch_within hfirst).bind
  intro stName _ _
  apply (stringAt_within stName.toUInt64 h.strings).bind
  intro name _ hname
  apply (firstByte_within hname).bind
  intro first _ _
  apply Within.ite
  · intro _
    apply Within.ok
    simp
  · intro _
    apply (fetch_within (hfields 6 2 (by decide))).bind
    intro shndx _ _
    apply Within.ite
    · intro _
      apply Within.ok
      simp
    · intro _
      apply Within.ok
      intro sym name' heq
      obtain ⟨rfl, rfl⟩ := Prod.mk.inj (Option.some.inj heq)
      exact ⟨hname, hfields⟩

theorem readSymbol_within {sym : UInt64} (h : SymbolOk img sym name) :
    Within (fun symbol => NameOk img symbol.name) Fault.Inside (readSymbol img sym name) := by
  unfold readSymbol
  apply (fetch_within (h.2 8 8 (by decide))).bind
  intro value _ _
  apply (fetch_within (h.2 16 8 (by decide))).bind
  intro size _ _
  apply (fetch_within (h.2 4 1 (by decide))).bind
  intro info _ _
  apply (fetch_within (h.2 6 2 (by decide))).bind
  intro shndx _ _
  exact Within.ok h.1

/-! ### The functions -/

theorem validateSectionHeaders_within (img : Image) : Within (fun _ => Sections img) Fault.Inside (validateSectionHeaders img.ehdr img.len) :=
  tableWindow_within

theorem sections_of_valid (h : validateSectionHeaders img.ehdr img.len = .ok ()) : Sections img := by
  have hw := validateSectionHeaders_within img
  rw [h] at hw
  exact hw.of_ok

theorem mem_shdrs : i ∈ img.shdrs ↔ i < img.ehdr.shnum.toNat := List.mem_range

theorem mem_syms : j ∈ table.syms ↔ j < table.count.toNat := List.mem_range

/-- A loop over the symbol tables, with what its body does for one table. -/
theorem foldTables_within {β : Type} {T : β → Prop} (hends : SymbolTablesEnd img) (hsections : Sections img) (strict : Bool)
    {body : β → SymTable → Read β} {b : β} (hb : T b)
    (hbody : ∀ b, T b → ∀ table : SymTable, table.Fits img → Within T Fault.Inside (body b table)) :
    Within T Fault.Inside (foldTables img strict body b) := by
  unfold foldTables
  apply Within.foldlM hb
  intro b hb i hi
  apply (symTableAt_within hsections hends strict (mem_shdrs.1 hi)).bind
  intro table _ htable
  cases table with
  | none => exact Within.ok hb
  | some table => exact hbody b hb table (htable table rfl)

theorem countTable_within (hfits : table.Fits img) (count : UInt64) :
    Within (fun _ => True) Fault.Inside (countTable img count table) := by
  unfold countTable
  apply Within.foldlM trivial
  intro count' _ j hj
  apply (namedSymbol_within hfits (mem_syms.1 hj)).bind
  intro found _ _
  exact Within.ok trivial

theorem countSymbols_within (hends : SymbolTablesEnd img) : Within (fun _ => True) Fault.Inside (countSymbols img) := by
  unfold countSymbols
  apply (validateSectionHeaders_within img).bind
  intro _ _ hsections
  have hloop : Within (fun _ => True) Fault.Inside (foldTables img true (countTable img) 0) := by
    apply foldTables_within hends hsections true trivial
    intro count _ table hfits
    exact countTable_within hfits count
  apply hloop.bind
  intro count _ _
  apply check_bind
  intro _
  exact Within.ok trivial

/-- The program headers lie inside the image. -/
def Segments (img : Image) : Prop := TableFits img img.ehdr.phoff img.ehdr.phnum img.ehdr.phentsize sizeofPhdr

theorem getProgramHeaderWindow_within (img : Image) :
    Within (fun _ => Segments img) Fault.Inside (getProgramHeaderWindow img.ehdr img.len) := tableWindow_within

theorem mem_phdrs : i ∈ img.phdrs ↔ i < img.ehdr.phnum.toNat := List.mem_range

theorem readPhdr_within (h : Segments img) (hi : i < img.ehdr.phnum.toNat) :
    Within (fun phdr => phdr = img.phdr (img.phdrOff i)) Fault.Inside (img.readPhdr i) :=
  fetch_within (h.holds (by decide) hi)

theorem collectLoadRange_within (h : Segments img) : Within (fun _ => True) Fault.Inside (collectLoadRange img) := by
  unfold collectLoadRange
  apply Within.foldlM trivial
  intro r _ i hi
  apply (readPhdr_within h (mem_phdrs.1 hi)).bind
  intro phdr _ _
  exact Within.ok trivial

theorem countOrZero_within {r : Read UInt64} (h : Within (fun _ => True) Fault.Inside r) :
    Within (fun _ => True) Fault.Inside (countOrZero r) := by
  unfold countOrZero
  split
  · exact Within.ok trivial
  · exact h

theorem infoRange_within (img : Image) : Within (fun _ => True) Fault.Inside (infoRange img img.ehdr) := by
  unfold infoRange
  apply Within.ite
  · intro _
    apply (getProgramHeaderWindow_within img).bind
    intro _ _ hsegments
    exact collectLoadRange_within hsegments
  · intro _
    exact Within.ok trivial

theorem elfGetInfo_within (hends : SymbolTablesEnd img) : Within (fun _ => True) Fault.Inside (elfGetInfo img) := by
  unfold elfGetInfo
  apply (validateElf64Image_within img).bind
  rintro ehdr - ⟨rfl, _⟩
  apply (infoRange_within img).bind
  intro range _ _
  apply (countOrZero_within (countSymbols_within hends)).bind
  intro count _ _
  exact Within.ok trivial

theorem callVisitor_keeps {ι : Type} {P : ι → Prop} {visit : Visitor ι} {i : ι} (h : P i) :
    Report.Keeps P (fun _ => True) Fault.Inside (callVisitor visit i) := by
  unfold callVisitor
  apply (Report.Keeps.report h).bind
  intro _ _
  apply Report.Keeps.reported.bind
  intro calls _
  exact Report.Keeps.pure trivial

theorem elfVisitProgramHeaders_keeps (visit : Visitor ProgramHeaderInfo) :
    Report.Keeps (fun _ => True) (fun _ => True) Fault.Inside (elfVisitProgramHeaders img visit) := by
  unfold elfVisitProgramHeaders
  apply (Report.Keeps.lift (validateElf64Image_within img)).bind
  rintro ehdr ⟨rfl, _⟩
  apply (Report.Keeps.lift (getProgramHeaderWindow_within img)).bind
  intro _ hsegments
  have hloop : Report.Keeps (fun _ => True) (fun _ => True) Fault.Inside
      (Report.untilStop (visitProgramHeader img visit) img.phdrs) := by
    apply Report.Keeps.untilStop
    intro i hi
    unfold visitProgramHeader
    apply (Report.Keeps.lift (readPhdr_within hsegments (mem_phdrs.1 hi))).bind
    intro phdr _
    exact callVisitor_keeps trivial
  apply hloop.bind
  intro _ _
  exact Report.Keeps.pure trivial

/-- The section of the names does not have an end that wraps into the image. -/
def SectionNamesEnd (img : Image) : Prop :=
  img.ehdr.shstrndx < img.ehdr.shnum → (img.section img.ehdr.shstrndx.toNat).type = SHT_STRTAB →
    EndsInside img (img.section img.ehdr.shstrndx.toNat)

theorem sectionNames_within (h : Sections img) (hends : SectionNamesEnd img) :
    Within (fun shstr => ∀ s, shstr = some s → InImage img s.offset s.size) Fault.Inside (sectionNames img) := by
  unfold sectionNames
  apply Within.ite
  · intro hlt
    apply (readShdr_within h (UInt16.lt_iff_toNat_lt.1 hlt)).bind
    intro shstr _ hshstr
    have hend := hends hlt
    rw [← hshstr] at hend
    apply check_bind
    intro htype
    apply check_bind
    intro hle
    apply Within.ok
    intro s hs
    obtain rfl := Option.some.inj hs
    exact (hend htype).inImage (UInt64.not_lt.1 hle)
  · intro _
    apply Within.ok
    simp

theorem sectionName_within {shstr : Option Shdr} (h : ∀ s, shstr = some s → InImage img s.offset s.size) (shdr : Shdr) :
    Within (NameOk img) Fault.Inside (sectionName img shstr shdr) := by
  cases shstr with
  | none => exact Within.ok trivial
  | some shstr =>
    unfold sectionName
    apply Within.ite
    · intro _
      exact Within.ok trivial
    · intro _
      exact stringAt_within _ (h shstr rfl)

theorem elfVisitSections_keeps (hends : SectionNamesEnd img) (visit : Visitor SectionInfo) :
    Report.Keeps (fun info => NameOk img info.name) (fun _ => True) Fault.Inside (elfVisitSections img visit) := by
  unfold elfVisitSections
  apply (Report.Keeps.lift (validateElf64Image_within img)).bind
  rintro ehdr ⟨rfl, _⟩
  apply (Report.Keeps.lift (validateSectionHeaders_within img)).bind
  intro _ hsections
  apply (Report.Keeps.lift (sectionNames_within hsections hends)).bind
  intro shstr hshstr
  have hloop : Report.Keeps (fun info => NameOk img info.name) (fun _ => True) Fault.Inside
      (Report.untilStop (visitSection img visit shstr) img.shdrs) := by
    apply Report.Keeps.untilStop
    intro i hi
    unfold visitSection
    apply (Report.Keeps.lift (readShdr_within hsections (mem_shdrs.1 hi))).bind
    intro shdr _
    apply (Report.Keeps.lift check_within).bind
    intro _ _
    apply (Report.Keeps.lift (sectionName_within hshstr shdr)).bind
    intro name hname
    exact callVisitor_keeps hname
  apply hloop.bind
  intro _ _
  exact Report.Keeps.pure trivial

theorem visitTable_keeps (hends : SymbolTablesEnd img) (hsections : Sections img) (visit : Visitor Symbol)
    (hi : i ∈ img.shdrs) :
    Report.Keeps (fun symbol => NameOk img symbol.name) (fun _ => True) Fault.Inside (visitTable img visit i) := by
  unfold visitTable
  apply (Report.Keeps.lift (symTableAt_within hsections hends false (mem_shdrs.1 hi))).bind
  intro table htable
  cases table with
  | none => exact Report.Keeps.pure trivial
  | some table =>
    apply Report.Keeps.untilStop
    intro j hj
    unfold visitSymbol
    apply (Report.Keeps.lift (namedSymbol_within (htable table rfl) (mem_syms.1 hj))).bind
    intro found hfound
    rcases found with _ | ⟨sym, name⟩
    · exact Report.Keeps.pure trivial
    · apply (Report.Keeps.lift (readSymbol_within (hfound sym name rfl))).bind
      intro symbol hsymbol
      exact callVisitor_keeps hsymbol

theorem elfVisitSymbols_keeps (hends : SymbolTablesEnd img) (visit : Visitor Symbol) :
    Report.Keeps (fun symbol => NameOk img symbol.name) (fun _ => True) Fault.Inside (elfVisitSymbols img visit) := by
  unfold elfVisitSymbols
  apply (Report.Keeps.lift (validateElf64Image_within img)).bind
  rintro ehdr ⟨rfl, _⟩
  apply (Report.Keeps.lift (validateSectionHeaders_within img)).bind
  intro _ hsections
  have hloop : Report.Keeps (fun symbol => NameOk img symbol.name) (fun _ => True) Fault.Inside
      (Report.untilStop (visitTable img visit) img.shdrs) :=
    Report.Keeps.untilStop fun i hi => visitTable_keeps hends hsections visit hi
  apply hloop.bind
  intro stopped _
  apply Report.Keeps.reported.bind
  intro calls _
  apply Report.Keeps.lift
  exact check_within.mono fun _ _ => trivial

/-- The best symbol so far has a name of the image. -/
def BestOk (img : Image) (best : Option Best) : Prop := ∀ b, best = some b → NameOk img b.symbol.name

theorem BestOk.weigh {symbol : Symbol} (addr : UInt64) (h : BestOk img best) (hs : NameOk img symbol.name) :
    BestOk img (Best.weigh addr best symbol) := by
  have hnew (containing : Bool) : BestOk img (some { symbol, offset := addr - symbol.value, containing }) := by
    intro b hb
    obtain rfl := Option.some.inj hb
    exact hs
  unfold Best.weigh
  split
  · cases best with
    | none => exact hnew true
    | some b =>
      dsimp only
      split
      · exact hnew true
      · exact h
  · cases best with
    | none => exact hnew false
    | some b =>
      dsimp only
      split
      · exact hnew false
      · exact h

theorem weighSymbol_within (hfits : table.Fits img) (addr : UInt64)
    (h : BestOk img best) (hj : j < table.count.toNat) :
    Within (BestOk img) Fault.Inside (weighSymbol img addr table best j) := by
  unfold weighSymbol
  apply (namedSymbol_within hfits hj).bind
  intro found _ hfound
  rcases found with _ | ⟨sym, name⟩
  · exact Within.ok h
  · have hok := hfound sym name rfl
    apply (fetch_within (hok.2 8 8 (by decide))).bind
    intro value _ _
    apply Within.ite
    · intro _
      exact Within.ok h
    · intro _
      apply (fetch_within (hok.2 4 1 (by decide))).bind
      intro info _ _
      apply Within.ite
      · intro _
        exact Within.ok h
      · intro _
        apply (readSymbol_within hok).bind
        intro symbol _ hsymbol
        exact Within.ok (h.weigh addr hsymbol)

theorem elfFindSymbolByAddr_within (hends : SymbolTablesEnd img) (addr : UInt64) :
    Within (fun found => NameOk img found.1.name) Fault.Inside (elfFindSymbolByAddr img addr) := by
  unfold elfFindSymbolByAddr
  apply (validateElf64Image_within img).bind
  rintro ehdr - ⟨rfl, _⟩
  apply (validateSectionHeaders_within img).bind
  intro _ _ hsections
  have hloop : Within (BestOk img) Fault.Inside
      (foldTables img false (fun best table => table.syms.foldlM (weighSymbol img addr table) best) none) := by
    apply foldTables_within hends hsections false nofun
    intro best hbest table hfits
    apply Within.foldlM hbest
    intro best' hbest' j hj
    exact weighSymbol_within hfits addr hbest' (mem_syms.1 hj)
  apply hloop.bind
  intro best _ hbest
  cases best with
  | none => exact Within.error nofun
  | some best => exact Within.ok (hbest best rfl)

/-! ### Inspection as a whole -/

/-- No read of the five functions leaves the image, whatever the visitor answers and
whichever address is looked up, and every name they give lies inside the image. -/
structure InspectsInside (img : Image) : Prop where
  info : Within (fun _ => True) Fault.Inside (elfGetInfo img)
  programHeaders : ∀ visit : Visitor ProgramHeaderInfo, Within (fun _ => True) Fault.Inside (elfVisitProgramHeaders img visit []).1
  sections : ∀ visit : Visitor SectionInfo, Within (fun _ => True) Fault.Inside (elfVisitSections img visit []).1 ∧
    ∀ info ∈ (elfVisitSections img visit []).2, NameOk img info.name
  symbols : ∀ visit : Visitor Symbol, Within (fun _ => True) Fault.Inside (elfVisitSymbols img visit []).1 ∧
    ∀ symbol ∈ (elfVisitSymbols img visit []).2, NameOk img symbol.name
  found : ∀ addr : UInt64, Within (fun found => NameOk img found.1.name) Fault.Inside (elfFindSymbolByAddr img addr)

/-- No table of symbols or of strings that is consulted has an end that wraps into the image. -/
structure TablesEnd (img : Image) : Prop where
  symbols : SymbolTablesEnd img
  names : SectionNamesEnd img

/-- The bytes of a number, the lowest first. -/
def littleEndian : ℕ → ℕ → List UInt8
  | 0, _ => []
  | n + 1, v => UInt8.ofNat v :: littleEndian n (v / 256)

/-- A header and one section, which holds the names of the sections. -/
def stringsImage (offset size : ℕ) : Image :=
  let ident := elfMagic ++ [ELFCLASS64, ELFDATA2LSB, EV_CURRENT] ++ List.replicate 9 0
  let ehdr := littleEndian 2 2 ++ littleEndian 2 62 ++ littleEndian 4 1 ++ littleEndian 8 0 ++ littleEndian 8 0 ++
    littleEndian 8 64 ++ littleEndian 4 0 ++ littleEndian 2 64 ++ littleEndian 2 0 ++ littleEndian 2 0 ++
    littleEndian 2 64 ++ littleEndian 2 1 ++ littleEndian 2 0
  let shdr := littleEndian 4 0 ++ littleEndian 4 3 ++ littleEndian 8 0 ++ littleEndian 8 0 ++ littleEndian 8 offset ++
    littleEndian 8 size ++ littleEndian 4 0 ++ littleEndian 4 0 ++ littleEndian 8 0 ++ littleEndian 8 0
  Image.ofBytes 0x1000 (ident ++ ehdr ++ shdr)

instance (img : Image) (shdr : Shdr) : Decidable (EndsInside img shdr) := inferInstanceAs (Decidable (_ → _))

instance (img : Image) : Decidable (SymbolTablesEnd img) := inferInstanceAs (Decidable (∀ i < _, _ → _ ∧ (_ → _)))

instance (img : Image) : Decidable (SectionNamesEnd img) := inferInstanceAs (Decidable (_ → _ → _))

end Tg11Kernel.Elf
