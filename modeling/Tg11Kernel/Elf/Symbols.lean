import Tg11Kernel.Elf.Collision
import Tg11Kernel.Lib.Preference

/-! The symbol of an address. The search ranks the symbols at or below the address: one
that contains the address goes first. It tests the end of a symbol with a sum that wraps,
so that a symbol whose end is past the top passes for one that only precedes. -/

namespace Tg11Kernel.Elf

open Lib

variable {img : Image} {table : SymTable} {addr : UInt64} {i j : ℕ}

/-! ### The symbols of an image -/

namespace Image

/-- A NUL ends the string at an offset of a string table. -/
def Terminated (img : Image) (base size offset : UInt64) : Prop :=
  ∃ i < size.toNat, offset.toNat ≤ i ∧ img.byte (base + UInt64.ofNat i) = 0

instance (img : Image) (base size offset : UInt64) : Decidable (img.Terminated base size offset) :=
  inferInstanceAs (Decidable (∃ i < _, _ ∧ _))

def nameAt (img : Image) (base size offset : UInt64) : Name :=
  if img.Terminated base size offset then some (base + offset) else none

/-- Symbol `j` of a table. -/
def symbol (img : Image) (table : SymTable) (j : ℕ) : Symbol where
  name := img.nameAt table.strOffset table.strSize (img.word32 (table.sym j)).toUInt64
  value := img.xword (table.sym j + 8)
  size := img.xword (table.sym j + 16)
  info := img.byte (table.sym j + 4)
  shndx := img.half (table.sym j + 6)

/-- The table in section `i`, with the strings of the section it links to. -/
def symTable (img : Image) (i : ℕ) : SymTable where
  offset := (img.section i).offset
  entsize := (img.section i).entsize
  count := (img.section i).size / (img.section i).entsize
  strOffset := (img.section (img.section i).link.toNat).offset
  strSize := (img.section (img.section i).link.toNat).size

def symTables (img : Image) : List SymTable := (img.shdrs.filter fun i => isSymTable (img.section i)).map img.symTable

def symbols (img : Image) : List Symbol := img.symTables.flatMap fun table => table.syms.map (img.symbol table)

/-- The name of the symbol is not empty. -/
def Named (img : Image) (s : Symbol) : Prop :=
  match s.name with
  | none => False
  | some p => img.byte p ≠ 0

instance (img : Image) (s : Symbol) : Decidable (img.Named s) := by
  unfold Named
  cases s.name <;> infer_instance

end Image

/-- `ELF64_ST_TYPE` -/
def Symbol.type (s : Symbol) : UInt8 := s.info &&& 0x0F

/-- A symbol that may describe the address. -/
structure Considered (img : Image) (addr : UInt64) (s : Symbol) : Prop where
  named : img.Named s
  defined : s.shndx ≠ SHN_UNDEF
  type : s.type = STT_FUNC ∨ s.type = STT_OBJECT ∨ s.type = STT_NOTYPE
  below : s.value ≤ addr

instance (img : Image) (addr : UInt64) (s : Symbol) : Decidable (Considered img addr s) :=
  decidable_of_iff (img.Named s ∧ s.shndx ≠ SHN_UNDEF ∧ (s.type = STT_FUNC ∨ s.type = STT_OBJECT ∨ s.type = STT_NOTYPE) ∧ s.value ≤ addr)
    ⟨fun ⟨h₁, h₂, h₃, h₄⟩ => ⟨h₁, h₂, h₃, h₄⟩, fun h => ⟨h.named, h.defined, h.type, h.below⟩⟩

def Image.candidates (img : Image) (addr : UInt64) : List Symbol := img.symbols.filter (Considered img addr)

/-- The section headers lie inside the image, and so do the symbols and the strings of every symbol table. -/
structure TablesInside (img : Image) : Prop where
  header : validateElf64Image img = .ok img.ehdr
  sections : validateSectionHeaders img.ehdr img.len = .ok ()
  symbols : ∀ i < img.ehdr.shnum.toNat, isSymTable (img.section i) → InImage img (img.section i).offset (img.section i).size
  link : ∀ i < img.ehdr.shnum.toNat, isSymTable (img.section i) → (img.section i).link.toNat < img.ehdr.shnum.toNat
  strings : ∀ i < img.ehdr.shnum.toNat, isSymTable (img.section i) →
    InImage img (img.section (img.section i).link.toNat).offset (img.section (img.section i).link.toNat).size

theorem TablesInside.tableFits (h : TablesInside img) : Sections img := sections_of_valid h.sections

/-! ### Reading inside -/

variable {off size base offset : UInt64} {n : ℕ} {contents : UInt64 → UInt64 → Image} {s : Symbol}

theorem fetch_eq {α : Type} {value : α} (h : img.Holds off n) : img.fetch off n value = .ok value := if_pos h

theorem readByte_eq (h : img.Holds off 1) : img.readByte off = .ok (img.byte off) := if_pos h
theorem readHalf_eq (h : img.Holds off 2) : img.readHalf off = .ok (img.half off) := if_pos h
theorem readWord_eq (h : img.Holds off 4) : img.readWord off = .ok (img.word32 off) := if_pos h
theorem readXword_eq (h : img.Holds off 8) : img.readXword off = .ok (img.xword off) := if_pos h

theorem readShdr_eq (h : Sections img) (hi : i < img.ehdr.shnum.toNat) : img.readShdr i = .ok (img.section i) :=
  fetch_eq (h.holds (by decide) hi)

theorem ok_bind {α β : Type} {a : α} {f : α → Read β} : ((.ok a : Read α) >>= f) = f a := rfl

theorem check_eq {p : Prop} [Decidable p] {e : ElfError} (h : p) : check p e = .ok () := if_pos h

theorem inImage_end (h : InImage img off size) : ¬ off + size > img.len := by
  have hlen := img.len.toNat_lt
  unfold InImage at h
  rw [gt_iff_lt, UInt64.not_lt, UInt64.le_iff_toNat_le, UInt64.toNat_add]
  omega

theorem symTableAt_eq (h : TablesInside img) (hi : i < img.ehdr.shnum.toNat) :
    symTableAt img false i = .ok (if isSymTable (img.section i) then some (img.symTable i) else none) := by
  unfold symTableAt
  rw [readShdr_eq h.tableFits hi]
  by_cases hsym : isSymTable (img.section i)
  · have hlink := h.link i hi hsym
    have hlink' : ¬ (img.section i).link ≥ img.ehdr.shnum.toUInt32 := by
      rw [ge_iff_le, UInt32.le_iff_toNat_le, not_le]
      simpa using hlink
    have hstrict : false = true → (img.section (img.section i).link.toNat).type = SHT_STRTAB := nofun
    rw [ok_bind, if_neg (not_not.2 hsym), if_pos hsym, check_eq (inImage_end (h.symbols i hi hsym)), ok_bind, check_eq hlink', ok_bind,
      readShdr_eq h.tableFits hlink, ok_bind, check_eq hstrict, ok_bind, check_eq (inImage_end (h.strings i hi hsym))]
    rfl
  · rw [ok_bind, if_pos hsym, if_neg hsym]

theorem TablesInside.fits (h : TablesInside img) (hi : i < img.ehdr.shnum.toNat) (hsym : isSymTable (img.section i)) :
    (img.symTable i).Fits img := by
  have hsize : sizeofSym ≤ (img.section i).entsize.toNat := not_lt.1 (not_or.1 hsym.2).1
  refine ⟨hsize, ?_, h.strings i hi hsym⟩
  have hin := h.symbols i hi hsym
  have hmul := mul_le_of_le_div (UInt64.le_refl ((img.section i).size / (img.section i).entsize))
  unfold InImage at hin
  dsimp only [Image.symTable]
  omega

theorem findNul_eq (hin : InImage img base size) (hn : offset.toNat + n = size.toNat) :
    findNul img base n offset = .ok (decide (img.Terminated base size offset)) := by
  have hlen := img.len.toNat_lt
  have hin' := hin
  unfold InImage at hin'
  induction n generalizing offset with
  | zero =>
    have hno : ¬ img.Terminated base size offset := by
      rintro ⟨i, hi, hle, -⟩
      omega
    rw [decide_eq_false hno]
    rfl
  | succ n ih =>
    have hoff : (base + offset).toNat = base.toNat + offset.toNat := by
      rw [UInt64.toNat_add, Nat.mod_eq_of_lt (by omega)]
    have hnext : (offset + 1).toNat = offset.toNat + 1 := by
      rw [UInt64.toNat_add, UInt64.toNat_one, Nat.mod_eq_of_lt (by omega)]
    have hinside : img.Holds (base + offset) 1 := by
      unfold Image.Holds
      omega
    unfold findNul Image.readByte
    rw [fetch_eq hinside]
    change (if img.byte (base + offset) = 0 then _ else _) = _
    by_cases hzero : img.byte (base + offset) = 0
    · have hyes : img.Terminated base size offset := ⟨offset.toNat, by omega, le_rfl, by rw [UInt64.ofNat_toNat]; exact hzero⟩
      rw [if_pos hzero, decide_eq_true hyes]
    · rw [if_neg hzero, ih (by omega)]
      have hiff : img.Terminated base size (offset + 1) ↔ img.Terminated base size offset := by
        constructor
        · rintro ⟨i, hi, hle, hb⟩
          exact ⟨i, hi, by omega, hb⟩
        · rintro ⟨i, hi, hle, hb⟩
          rcases Nat.eq_or_lt_of_le hle with heq | hlt
          · rw [← heq, UInt64.ofNat_toNat] at hb
            exact absurd hb hzero
          · exact ⟨i, hi, by omega, hb⟩
      simp only [hiff]

theorem stringAt_eq (hin : InImage img base size) :
    stringAt img base size offset = .ok (img.nameAt base size offset) := by
  unfold stringAt Image.nameAt
  by_cases hoff : offset ≥ size
  · have hno : ¬ img.Terminated base size offset := by
      rintro ⟨i, hi, hle, -⟩
      rw [ge_iff_le, UInt64.le_iff_toNat_le] at hoff
      omega
    rw [if_pos hoff, if_neg hno]
  · rw [if_neg hoff]
    rw [ge_iff_le, UInt64.le_iff_toNat_le, not_le] at hoff
    rw [findNul_eq hin (by omega)]
    by_cases h : img.Terminated base size offset
    · rw [if_pos h, decide_eq_true h]
      rfl
    · rw [if_neg h, decide_eq_false h]
      rfl

/-- A name that is not empty starts inside the image. -/
theorem firstByte_nameAt (hin : InImage img base size) :
    ∃ b, firstByte img (img.nameAt base size offset) = .ok b ∧
      ∀ s : Symbol, s.name = img.nameAt base size offset → (b ≠ 0 ↔ img.Named s) := by
  unfold Image.nameAt
  by_cases h : img.Terminated base size offset
  · rw [if_pos h]
    obtain ⟨i, hi, hle, -⟩ := h
    have hlen := img.len.toNat_lt
    unfold InImage at hin
    have hinside : img.Holds (base + offset) 1 := by
      unfold Image.Holds
      rw [UInt64.toNat_add, Nat.mod_eq_of_lt (by omega)]
      omega
    refine ⟨img.byte (base + offset), fetch_eq hinside, fun s hs => ?_⟩
    unfold Image.Named
    rw [hs]
  · rw [if_neg h]
    refine ⟨0, rfl, fun s hs => ?_⟩
    unfold Image.Named
    rw [hs]
    simp

/-- The fields of a symbol lie inside the image. -/
structure FieldsInside (img : Image) (sym : UInt64) : Prop where
  name : img.Holds sym 4
  info : img.Holds (sym + 4) 1
  shndx : img.Holds (sym + 6) 2
  value : img.Holds (sym + 8) 8
  size : img.Holds (sym + 16) 8

theorem SymTable.Fits.fields (h : table.Fits img) (hj : j < table.count.toNat) : FieldsInside img (table.sym j) where
  name := by simpa using h.holds hj 0 4 (by decide)
  info := h.holds hj 4 1 (by decide)
  shndx := h.holds hj 6 2 (by decide)
  value := h.holds hj 8 8 (by decide)
  size := h.holds hj 16 8 (by decide)

theorem readSymbol_eq (h : FieldsInside img (table.sym j)) :
    readSymbol img (table.sym j) (img.symbol table j).name = .ok (img.symbol table j) := by
  unfold readSymbol
  rw [readXword_eq h.value, ok_bind, readXword_eq h.size, ok_bind, readByte_eq h.info, ok_bind, readHalf_eq h.shndx, ok_bind]
  rfl

theorem namedSymbol_eq (h : table.Fits img) (hj : j < table.count.toNat) :
    namedSymbol img table j = .ok (if img.Named (img.symbol table j) ∧ (img.symbol table j).shndx ≠ SHN_UNDEF
      then some (table.sym j, (img.symbol table j).name) else none) := by
  have hfields := h.fields hj
  obtain ⟨b, hb, hnamed⟩ := @firstByte_nameAt img _ _ (img.word32 (table.sym j)).toUInt64 h.strings
  have hnamed := hnamed (img.symbol table j) rfl
  have hsym : table.offset + UInt64.ofNat j * table.entsize = table.sym j := rfl
  have hshndx : (img.symbol table j).shndx = img.half (table.sym j + 6) := rfl
  unfold namedSymbol
  dsimp only
  rw [hsym, hshndx, readWord_eq hfields.name, ok_bind, stringAt_eq h.strings, ok_bind, hb, ok_bind]
  by_cases hzero : b = 0
  · rw [if_pos hzero, if_neg]
    rintro ⟨hn, -⟩
    exact hnamed.2 hn hzero
  · rw [if_neg hzero, readHalf_eq hfields.shndx, ok_bind]
    by_cases hundef : img.half (table.sym j + 6) = SHN_UNDEF
    · rw [if_pos hundef, if_neg fun hd => hd.2 hundef]
    · rw [if_neg hundef, if_pos ⟨hnamed.1 hzero, hundef⟩]
      rfl

theorem weighSymbol_eq (h : table.Fits img) (hj : j < table.count.toNat) (best : Option Best) :
    weighSymbol img addr table best j =
      .ok (if Considered img addr (img.symbol table j) then Best.weigh addr best (img.symbol table j) else best) := by
  have hfields := h.fields hj
  have hvalue : img.xword (table.sym j + 8) = (img.symbol table j).value := rfl
  have htype : img.byte (table.sym j + 4) &&& 0x0F = (img.symbol table j).type := rfl
  unfold weighSymbol
  rw [namedSymbol_eq h hj, ok_bind]
  by_cases hn : img.Named (img.symbol table j) ∧ (img.symbol table j).shndx ≠ SHN_UNDEF
  · rw [if_pos hn]
    dsimp only
    rw [readXword_eq hfields.value, ok_bind, hvalue]
    by_cases hbelow : addr < (img.symbol table j).value
    · have hno : ¬ Considered img addr (img.symbol table j) := fun hc => absurd hc.below (UInt64.not_le.2 hbelow)
      rw [if_pos hbelow, if_neg hno]
    · rw [if_neg hbelow, readByte_eq hfields.info, ok_bind, htype]
      by_cases hother : (img.symbol table j).type ≠ STT_FUNC ∧ (img.symbol table j).type ≠ STT_OBJECT ∧
          (img.symbol table j).type ≠ STT_NOTYPE
      · have hno : ¬ Considered img addr (img.symbol table j) := by
          rintro ⟨-, -, (ht | ht | ht), -⟩
          · exact hother.1 ht
          · exact hother.2.1 ht
          · exact hother.2.2 ht
        rw [if_pos hother, if_neg hno]
      · have hc : Considered img addr (img.symbol table j) := by
          refine ⟨hn.1, hn.2, ?_, UInt64.not_lt.1 hbelow⟩
          by_contra hno
          simp only [not_or] at hno
          exact hother hno
        rw [if_neg hother, if_pos hc, readSymbol_eq hfields, ok_bind]
  · have hno : ¬ Considered img addr (img.symbol table j) := fun hc => hn ⟨hc.named, hc.defined⟩
    rw [if_neg hn, if_neg hno]

/-! ### The search -/

theorem foldlM_eq {α β : Type} {f : β → α → Read β} {g : β → α → β} {l : List α} (b : β) (h : ∀ b, ∀ a ∈ l, f b a = .ok (g b a)) :
    l.foldlM f b = .ok (l.foldl g b) := by
  induction l generalizing b with
  | nil => rfl
  | cons a l ih =>
    rw [List.foldlM_cons, h b a (by simp), ok_bind, List.foldl_cons]
    exact ih _ fun b' a' ha' => h b' a' (List.mem_cons_of_mem _ ha')

/-- The sum of value and size, as the code forms it, is past the address. -/
def Symbol.SeemsToContain (s : Symbol) (addr : UInt64) : Prop := s.size ≠ 0 ∧ addr < s.value + s.size

instance (s : Symbol) (addr : UInt64) : Decidable (s.SeemsToContain addr) := inferInstanceAs (Decidable (_ ∧ _))

/-- Where the symbol starts. -/
def Symbol.start (s : Symbol) : ℕ := s.value.toNat

/-- The entry that the search keeps for a symbol. -/
def bestOf (addr : UInt64) (s : Symbol) : Best where
  symbol := s
  offset := addr - s.value
  containing := decide (s.SeemsToContain addr)

theorem weigh_bestOf (best : Option Symbol) (s : Symbol) :
    Best.weigh addr (best.map (bestOf addr)) s = (prefer (Symbol.SeemsToContain · addr) Symbol.start best s).map (bestOf addr) := by
  unfold Best.weigh
  by_cases hs : s.SeemsToContain addr
  · rw [if_pos (show s.size ≠ 0 ∧ addr < s.value + s.size from hs)]
    cases best with
    | none => simp [prefer, bestOf, hs]
    | some b =>
      have hstart : b.start < s.start ↔ b.value < s.value := UInt64.lt_iff_toNat_lt.symm
      by_cases hb : b.SeemsToContain addr <;> by_cases hlt : b.value < s.value <;> simp [prefer, bestOf, hs, hb, hlt, hstart]
  · rw [if_neg (show ¬ (s.size ≠ 0 ∧ addr < s.value + s.size) from hs)]
    cases best with
    | none => simp [prefer, bestOf, hs]
    | some b =>
      have hstart : b.start < s.start ↔ b.value < s.value := UInt64.lt_iff_toNat_lt.symm
      by_cases hb : b.SeemsToContain addr <;> by_cases hlt : b.value < s.value <;> simp [prefer, bestOf, hs, hb, hlt, hstart]

theorem foldl_weigh (l : List Symbol) :
    l.foldl (Best.weigh addr) none = (favourite (Symbol.SeemsToContain · addr) Symbol.start l).map (bestOf addr) := by
  rw [← foldl_prefer]
  have hhom : l.foldl (Best.weigh addr) (Option.map (bestOf addr) none) = _ := List.foldl_hom (Option.map (bestOf addr)) weigh_bestOf
  exact hhom

theorem foldTables_elim {β : Type} (img : Image) (strict : Bool) (body : β → SymTable → Read β) (b : β) : foldTables img strict body b =
    img.shdrs.foldlM (fun b i => symTableAt img strict i >>= fun table => table.elim (.ok b) (body b)) b := by
  refine congrArg (fun step => img.shdrs.foldlM step b) ?_
  funext b i
  refine congrArg (symTableAt img strict i >>= ·) ?_
  funext table
  cases table <;> rfl

theorem foldTables_weigh (h : TablesInside img) :
    foldTables img false (fun best table => table.syms.foldlM (weighSymbol img addr table) best) none =
      .ok ((img.candidates addr).foldl (Best.weigh addr) none) := by
  have hstep (best : Option Best) (i : ℕ) (hi : i ∈ img.shdrs) :
      (symTableAt img false i >>= fun table => table.elim (.ok best) fun table => table.syms.foldlM (weighSymbol img addr table) best) =
        .ok (if isSymTable (img.section i) then (img.symTable i).syms.foldl (fun best j =>
          if Considered img addr (img.symbol (img.symTable i) j) then Best.weigh addr best (img.symbol (img.symTable i) j) else best) best
          else best) := by
    rw [symTableAt_eq h (mem_shdrs.1 hi), ok_bind]
    by_cases hsym : isSymTable (img.section i)
    · rw [if_pos hsym, if_pos hsym]
      have hfits := h.fits (mem_shdrs.1 hi) hsym
      exact foldlM_eq best fun b j hj => weighSymbol_eq hfits (mem_syms.1 hj) b
    · rw [if_neg hsym, if_neg hsym, Option.elim_none]
  rw [foldTables_elim]
  apply (foldlM_eq none hstep).trans
  unfold Image.candidates Image.symbols Image.symTables
  rw [List.foldl_filter, List.foldl_flatMap, List.foldl_map, List.foldl_filter]
  simp only [List.foldl_map, decide_eq_true_eq]

theorem elfFindSymbolByAddr_eq (h : TablesInside img) (addr : UInt64) : elfFindSymbolByAddr img addr =
    match favourite (Symbol.SeemsToContain · addr) Symbol.start (img.candidates addr) with
    | none => fail .nosym
    | some s => .ok (s, addr - s.value) := by
  unfold elfFindSymbolByAddr
  rw [h.header, ok_bind, h.sections, ok_bind, foldTables_weigh h, ok_bind, foldl_weigh]
  cases favourite (Symbol.SeemsToContain · addr) Symbol.start (img.candidates addr) <;> rfl

/-! ### Active images -/

/-- What `elf_symbolize_active_addr` gives back. -/
structure Symbolized where
  symbol : Symbol
  offset : UInt64
  imageBase : UInt64
  imageEnd : UInt64

/-- One slot: an image whose range does not have the address, or that has no symbol for it, is passed over. -/
def symbolizeSlot (contents : UInt64 → UInt64 → Image) (addr : UInt64) : Option ActiveImage → Read (Option Symbolized)
  | none => .ok none
  | some a =>
    if addr < a.loadBase ∨ addr ≥ a.loadEnd then .ok none
    else if a.loadBias ≠ 0 ∧ addr < a.loadBias then .ok none
    else
      let queryAddr := if a.loadBias ≠ 0 then addr - a.loadBias else addr
      match elfFindSymbolByAddr (contents a.data a.len) queryAddr with
      | .error .outside => .error .outside
      | .error (.error _) => .ok none
      | .ok (symbol, offset) => .ok (some { symbol, offset, imageBase := a.loadBase, imageEnd := a.loadEnd })

/-- The images are taken in the order of their slots; `contents` gives the bytes of each. -/
def elfSymbolizeActiveAddr (contents : UInt64 → UInt64 → Image) : ActiveImages → UInt64 → Read Symbolized
  | [], _ => fail .nosym
  | slot :: slots, addr => do
    let found ← symbolizeSlot contents addr slot
    match found with
    | some found => .ok found
    | none => elfSymbolizeActiveAddr contents slots addr

theorem elfSymbolizeActiveAddr_append {before slots : ActiveImages}
    (h : ∀ slot ∈ before, symbolizeSlot contents addr slot = .ok none) :
    elfSymbolizeActiveAddr contents (before ++ slots) addr = elfSymbolizeActiveAddr contents slots addr := by
  induction before with
  | nil => rfl
  | cons slot before ih =>
    rw [List.cons_append, elfSymbolizeActiveAddr, h slot (by simp), ok_bind]
    exact ih fun s hs => h s (List.mem_cons_of_mem _ hs)

/-- The address is in the range of the image and not below its bias. -/
structure ActiveImage.Covers (a : ActiveImage) (addr : UInt64) : Prop where
  base : a.loadBase ≤ addr
  stop : addr < a.loadEnd
  bias : a.loadBias ≤ addr

theorem symbolizeSlot_covers {a : ActiveImage} (h : a.Covers addr) :
    symbolizeSlot contents addr (some a) = match elfFindSymbolByAddr (contents a.data a.len) (addr - a.loadBias) with
      | .error .outside => .error .outside
      | .error (.error _) => .ok none
      | .ok (symbol, offset) => .ok (some { symbol, offset, imageBase := a.loadBase, imageEnd := a.loadEnd }) := by
  have hrange : ¬ (addr < a.loadBase ∨ addr ≥ a.loadEnd) := by
    rintro (hlt | hge)
    · exact absurd h.base (UInt64.not_le.2 hlt)
    · exact absurd h.stop (UInt64.not_lt.2 hge)
  have hbias : ¬ (a.loadBias ≠ 0 ∧ addr < a.loadBias) := fun hb => absurd h.bias (UInt64.not_le.2 hb.2)
  have hquery : (if a.loadBias ≠ 0 then addr - a.loadBias else addr) = addr - a.loadBias := by
    by_cases hzero : a.loadBias = 0
    · rw [if_neg (not_not.2 hzero), hzero, UInt64.sub_zero]
    · rw [if_pos hzero]
  unfold symbolizeSlot
  dsimp only
  rw [if_neg hrange, if_neg hbias, hquery]

/-! ### The best symbol -/

/-- The address lies inside the symbol. -/
def Symbol.Contains (s : Symbol) (addr : UInt64) : Prop := s.value ≤ addr ∧ addr.toNat - s.value.toNat < s.size.toNat

/-- The end of the symbol can be represented. -/
def Symbol.EndFits (s : Symbol) : Prop := s.value.toNat + s.size.toNat < 2 ^ 64

instance (s : Symbol) (addr : UInt64) : Decidable (s.Contains addr) := inferInstanceAs (Decidable (_ ∧ _))

instance (s : Symbol) : Decidable s.EndFits := inferInstanceAs (Decidable (_ < _))

/-- The symbol that an address should get: one that contains it goes first, the last to start wins. -/
def Image.Best (img : Image) (addr : UInt64) (s : Symbol) : Prop :=
  Preferred (Symbol.Contains · addr) Symbol.start (img.candidates addr) s

/-- What a search should answer. -/
inductive BestAnswer (img : Image) (addr : UInt64) : Read (Symbol × UInt64) → Prop
  | found {s : Symbol} (h : img.Best addr s) : BestAnswer img addr (.ok (s, addr - s.value))
  | none (h : img.candidates addr = []) : BestAnswer img addr (fail .nosym)

/-- The kernel gives an address inside a registered image the best symbol for its address in the
image, and goes on to the other slots where the image has none. -/
def SymbolizesBest (img : Image) (addr : UInt64) : Prop :=
  ∀ (contents : UInt64 → UInt64 → Image) (before after : ActiveImages) (a : ActiveImage) (active : UInt64),
    contents a.data a.len = img → a.Covers active → active - a.loadBias = addr →
    (∀ slot ∈ before, symbolizeSlot contents active slot = .ok none) →
      (∃ s, img.Best addr s ∧ elfSymbolizeActiveAddr contents (before ++ some a :: after) active =
        .ok { symbol := s, offset := addr - s.value, imageBase := a.loadBase, imageEnd := a.loadEnd }) ∨
      (img.candidates addr = [] ∧ elfSymbolizeActiveAddr contents (before ++ some a :: after) active =
        elfSymbolizeActiveAddr contents after active)

theorem seemsToContain_iff (h : s.value ≤ addr) : s.SeemsToContain addr ↔ s.Contains addr ∧ s.EndFits := by
  have haddr := addr.toNat_lt
  have hsize : s.size ≠ 0 ↔ s.size.toNat ≠ 0 := by rw [Ne, ← UInt64.toNat_inj, UInt64.toNat_zero]
  rw [UInt64.le_iff_toNat_le] at h
  unfold Symbol.SeemsToContain Symbol.Contains Symbol.EndFits
  rw [hsize, UInt64.lt_iff_toNat_lt, UInt64.toNat_add, UInt64.le_iff_toNat_le]
  have hvalue := s.value.toNat_lt
  have hsize' := s.size.toNat_lt
  by_cases hfits : s.value.toNat + s.size.toNat < 2 ^ 64
  · rw [Nat.mod_eq_of_lt hfits]
    omega
  · have hwrap : (s.value.toNat + s.size.toNat) % 2 ^ 64 = s.value.toNat + s.size.toNat - 2 ^ 64 := by omega
    rw [hwrap]
    omega

/-- No symbol that the search misplaces would be the best one. -/
def Resolvable (img : Image) (addr : UInt64) : Prop :=
  RanksAs (Symbol.Contains · addr) (fun s => s.Contains addr ∧ s.EndFits) Symbol.start (img.candidates addr)

theorem value_le_of_candidate (h : s ∈ img.candidates addr) : s.value ≤ addr := by
  have hc : Considered img addr s := by simpa using (List.mem_filter.1 h).2
  exact hc.below

theorem best_iff (h : favourite (Symbol.SeemsToContain · addr) Symbol.start (img.candidates addr) = some s) :
    img.Best addr s ↔ Resolvable img addr := by
  have hseems (t : Symbol) (ht : t ∈ img.candidates addr) : t.SeemsToContain addr ↔ t.Contains addr ∧ t.EndFits :=
    seemsToContain_iff (value_le_of_candidate ht)
  unfold Resolvable
  rw [← RanksAs.congr hseems]
  exact preferred_iff (fun t ht hq => ((hseems t ht).1 hq).1) h

theorem find_cases (h : TablesInside img) (addr : UInt64) :
    (img.candidates addr = [] ∧ elfFindSymbolByAddr img addr = fail .nosym) ∨
      ∃ s, elfFindSymbolByAddr img addr = .ok (s, addr - s.value) ∧ img.candidates addr ≠ [] ∧ (img.Best addr s ↔ Resolvable img addr) := by
  have hfind := elfFindSymbolByAddr_eq h addr
  cases hs : favourite (Symbol.SeemsToContain · addr) Symbol.start (img.candidates addr) with
  | none =>
    rw [hs] at hfind
    exact .inl ⟨favourite_eq_none.1 hs, hfind⟩
  | some s =>
    rw [hs] at hfind
    refine .inr ⟨s, hfind, fun hnil => ?_, best_iff hs⟩
    rw [favourite_eq_none.2 hnil] at hs
    cases hs

theorem resolvable_of_nil (h : img.candidates addr = []) : Resolvable img addr := by
  unfold Resolvable
  rw [h]
  exact .inr ⟨by simp, by simp⟩

theorem symbolizesBest_of_resolvable (h : TablesInside img) (hr : Resolvable img addr) : SymbolizesBest img addr := by
  rintro contents before after a active rfl hcovers rfl hbefore
  rw [elfSymbolizeActiveAddr_append hbefore, elfSymbolizeActiveAddr, symbolizeSlot_covers hcovers]
  rcases find_cases h (active - a.loadBias) with ⟨hnil, hfind⟩ | ⟨s, hfind, -, hbest⟩
  · rw [hfind]
    exact .inr ⟨hnil, rfl⟩
  · rw [hfind]
    exact .inl ⟨s, hbest.2 hr, rfl⟩

theorem bestAnswer_iff (h : TablesInside img) (addr : UInt64) : BestAnswer img addr (elfFindSymbolByAddr img addr) ↔ Resolvable img addr := by
  rcases find_cases h addr with ⟨hnil, hfind⟩ | ⟨s, hfind, hne, hbest⟩
  · rw [hfind]
    exact ⟨fun _ => resolvable_of_nil hnil, fun _ => .none hnil⟩
  · rw [hfind]
    constructor
    · generalize hr : (.ok (s, addr - s.value) : Read (Symbol × UInt64)) = r
      rintro (⟨ht⟩ | ⟨hnil⟩)
      · obtain ⟨rfl, -⟩ := Prod.mk.inj (Except.ok.inj hr)
        exact hbest.1 ht
      · exact absurd hnil hne
    · exact fun hr => .found (hbest.2 hr)

/-- The answers are the best ones if and only if no symbol that the search misplaces would be. -/
theorem symbolizes_best_iff (h : TablesInside img) (addr : UInt64) :
    BestAnswer img addr (elfFindSymbolByAddr img addr) ∧ SymbolizesBest img addr ↔ Resolvable img addr :=
  ⟨fun hb => (bestAnswer_iff h addr).1 hb.1, fun hr => ⟨(bestAnswer_iff h addr).2 hr, symbolizesBest_of_resolvable h hr⟩⟩

/-! ### Two symbols -/

/-- `Elf64_Sym` of a function with the name at offset 1. -/
def symbolEntry (value size : ℕ) : List UInt8 :=
  littleEndian 4 1 ++ [STT_FUNC, 0] ++ littleEndian 2 1 ++ littleEndian 8 value ++ littleEndian 8 size

def sectionEntry (type offset size entsize link : ℕ) : List UInt8 :=
  littleEndian 4 0 ++ littleEndian 4 type ++ littleEndian 8 0 ++ littleEndian 8 0 ++ littleEndian 8 offset ++ littleEndian 8 size ++
    littleEndian 4 link ++ littleEndian 4 0 ++ littleEndian 8 0 ++ littleEndian 8 entsize

/-- A header, a symbol table and the strings of it. -/
def symbolsImage (entries : List (List UInt8)) : Image :=
  let ident := elfMagic ++ [ELFCLASS64, ELFDATA2LSB, EV_CURRENT] ++ List.replicate 9 0
  let ehdr := littleEndian 2 2 ++ littleEndian 2 62 ++ littleEndian 4 1 ++ littleEndian 8 0 ++ littleEndian 8 0 ++
    littleEndian 8 64 ++ littleEndian 4 0 ++ littleEndian 2 64 ++ littleEndian 2 56 ++ littleEndian 2 0 ++
    littleEndian 2 64 ++ littleEndian 2 2 ++ littleEndian 2 0
  let shdrs := sectionEntry 2 200 (24 * entries.length) 24 1 ++ sectionEntry 3 192 3 0 0
  Image.ofBytes 0x10000 (ident ++ ehdr ++ shdrs ++ [0, 0x61, 0, 0, 0, 0, 0, 0] ++ entries.flatten)

/-- The first symbol reaches up to the top, the second is empty. -/
def wrappingSymbols : Image := symbolsImage [symbolEntry 0x1000 (2 ^ 64 - 1), symbolEntry 0x2000 0]

theorem header_of_isOk (h : (validateElf64Image img).isOk = true) : validateElf64Image img = .ok img.ehdr := by
  have hw := validateElf64Image_within img
  cases hv : validateElf64Image img with
  | error e =>
    rw [hv] at h
    cases h
  | ok ehdr =>
    rw [hv] at hw
    rw [hw.of_ok.1]

instance (img : Image) (off size : UInt64) : Decidable (InImage img off size) := inferInstanceAs (Decidable (_ ≤ _))

instance (img : Image) (addr : UInt64) : Decidable (Resolvable img addr) := inferInstanceAs (Decidable ((_ ∧ _) ∨ (_ ∧ (_ → _))))

theorem tablesInside_wrappingSymbols : TablesInside wrappingSymbols where
  header := header_of_isOk (by decide +kernel)
  sections := by decide +kernel
  symbols := by decide +kernel
  link := by decide
  strings := by decide +kernel

theorem symbolizes_best_wrappingSymbols : BestAnswer wrappingSymbols 0x1FFF (elfFindSymbolByAddr wrappingSymbols 0x1FFF) ∧
    SymbolizesBest wrappingSymbols 0x1FFF ↔ Resolvable wrappingSymbols 0x1FFF :=
  symbolizes_best_iff tablesInside_wrappingSymbols 0x1FFF

/-- The address 0x3000 lies in the first symbol, but gets the second. -/
theorem not_symbolizes_best : ¬ ∀ (img : Image) (addr : UInt64), TablesInside img →
    BestAnswer img addr (elfFindSymbolByAddr img addr) ∧ SymbolizesBest img addr := by
  intro h
  have hbest := (bestAnswer_iff tablesInside_wrappingSymbols 0x3000).1 (h wrappingSymbols 0x3000 tablesInside_wrappingSymbols).1
  have hno : ¬ Resolvable wrappingSymbols 0x3000 := by decide
  exact hno hbest

end Tg11Kernel.Elf
