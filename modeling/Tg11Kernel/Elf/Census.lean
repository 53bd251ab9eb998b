import Tg11Kernel.Elf.Symbols

/-! The count of the symbols and the visit of them. Two loops go over the same tables. They
agree on what counts as a symbol, but only the count asks for a string table of the right
type, and only the visit reads a symbol as a whole. -/

namespace Tg11Kernel.Elf

open Lib

variable {img : Image} {table : SymTable} {i j : ℕ}

/-! ### What the two loops share -/

/-- The ranges of a symbol table and of its strings pass the checks, as the code forms them. -/
structure Image.Linked (img : Image) (i : ℕ) : Prop where
  symbols : ¬ (img.section i).offset + (img.section i).size > img.len
  link : ¬ (img.section i).link ≥ img.ehdr.shnum.toUInt32
  strings : ¬ (img.section (img.section i).link.toNat).offset + (img.section (img.section i).link.toNat).size > img.len

/-- The section that a symbol table links to is a string table. -/
def Image.LinksStrings (img : Image) (i : ℕ) : Prop := (img.section (img.section i).link.toNat).type = SHT_STRTAB

/-- A symbol that has a name and is defined. -/
def SymTable.Counts (img : Image) (table : SymTable) (j : ℕ) : Prop :=
  match namedSymbol img table j with
  | .ok found => found.isSome = true
  | .error _ => False

instance (img : Image) (table : SymTable) (j : ℕ) : Decidable (table.Counts img j) := by
  unfold SymTable.Counts
  cases namedSymbol img table j <;> infer_instance

/-- The number of symbols in the tables that count. -/
def Image.census (img : Image) : ℕ := (img.symTables.map fun table => table.syms.countP fun j => table.Counts img j).sum

/-- The headers are valid, every symbol table passes the checks that both loops make, and the
name and the section of every symbol lie inside the image. -/
structure Readable (img : Image) : Prop where
  header : validateElf64Image img = .ok img.ehdr
  sections : validateSectionHeaders img.ehdr img.len = .ok ()
  linked : ∀ i ∈ img.shdrs, isSymTable (img.section i) → img.Linked i
  names : ∀ table ∈ img.symTables, ∀ j ∈ table.syms, ∃ found, namedSymbol img table j = .ok found

/-- Every symbol table has its names in a string table. -/
def StringsTyped (img : Image) : Prop := ∀ i ∈ img.shdrs, isSymTable (img.section i) → img.LinksStrings i

/-- Every symbol that counts lies inside the image as a whole. -/
def SymbolsWhole (img : Image) : Prop :=
  ∀ table ∈ img.symTables, ∀ j ∈ table.syms, table.Counts img j → FieldsInside img (table.sym j)

theorem counts_iff {found : Option (UInt64 × Name)} (h : namedSymbol img table j = .ok found) : table.Counts img j ↔ found.isSome = true := by
  unfold SymTable.Counts
  rw [h]

theorem mem_symTables : table ∈ img.symTables ↔ ∃ i ∈ img.shdrs, isSymTable (img.section i) ∧ img.symTable i = table := by
  unfold Image.symTables
  simp [and_assoc]

theorem symTableAt_spec (h : Sections img) (hi : i ∈ img.shdrs) (strict : Bool) [Decidable (img.Linked i ∧ (strict = true → img.LinksStrings i))] :
    symTableAt img strict i = if isSymTable (img.section i) then
        if img.Linked i ∧ (strict = true → img.LinksStrings i) then .ok (some (img.symTable i)) else fail .shdr
      else .ok none := by
  unfold symTableAt
  rw [readShdr_eq h (mem_shdrs.1 hi), ok_bind]
  by_cases hsym : isSymTable (img.section i)
  · rw [if_neg (not_not.2 hsym), if_pos hsym]
    by_cases hsize : (img.section i).offset + (img.section i).size > img.len
    · rw [if_neg fun hg => hg.1.symbols hsize]
      simp [check, hsize, fail, bind, Except.bind]
    rw [check_eq hsize, ok_bind]
    by_cases hlink : (img.section i).link ≥ img.ehdr.shnum.toUInt32
    · rw [if_neg fun hg => hg.1.link hlink]
      simp only [check, not_not.2 hlink, if_false, fail, bind, Except.bind]
    have hlink' : (img.section i).link.toNat < img.ehdr.shnum.toNat := by
      rw [ge_iff_le, UInt32.le_iff_toNat_le, not_le] at hlink
      simpa using hlink
    rw [check_eq hlink, ok_bind, readShdr_eq h hlink', ok_bind]
    by_cases htype : strict = true → img.LinksStrings i
    · have htype' : strict = true → (img.section (img.section i).link.toNat).type = SHT_STRTAB := htype
      rw [check_eq htype', ok_bind]
      by_cases hstr : (img.section (img.section i).link.toNat).offset + (img.section (img.section i).link.toNat).size > img.len
      · rw [if_neg fun hg => hg.1.strings hstr]
        simp only [check, not_not.2 hstr, if_false, fail, bind, Except.bind]
      · rw [check_eq hstr, ok_bind, if_pos ⟨⟨hsize, hlink, hstr⟩, htype⟩]
        rfl
    · have htype' : ¬ (strict = true → (img.section (img.section i).link.toNat).type = SHT_STRTAB) := htype
      rw [if_neg fun hg => htype hg.2]
      simp only [check, if_neg htype', fail, bind, Except.bind]
  · rw [if_pos hsym, if_neg hsym]

/-! ### Errors -/

/-- The loops do not end with the error for no symbols. -/
def Fault.Other (f : Fault) : Prop := f ≠ .error .nosym

variable {e : ElfError}

theorem check_other {α : Type} {p : Prop} [Decidable p] {Q : α → Prop} {f : Unit → Read α} (he : e ≠ .nosym)
    (hf : Within Q Fault.Other (f ())) : Within Q Fault.Other (check p e >>= f) := by
  unfold check
  split_ifs
  · exact hf
  · exact .error fun h => he (Fault.error.inj h)

variable {off : UInt64}

theorem tableWindow_other {len : UInt64} {num entsize : UInt16} {size : ℕ} (he : e ≠ .nosym) :
    Within (fun _ => True) Fault.Other (tableWindow len off num entsize size e) := by
  unfold tableWindow
  apply check_other he
  apply check_other he
  unfold check
  split_ifs
  · exact .ok trivial
  · exact .error fun h => he (Fault.error.inj h)

variable {n : ℕ}

theorem fetch_other {α : Type} {value : α} : Within (fun _ => True) Fault.Other (img.fetch off n value) := by
  unfold Image.fetch
  split_ifs
  · exact .ok trivial
  · exact .error nofun

theorem validateElf64Image_other : Within (fun _ => True) Fault.Other (validateElf64Image img) := by
  unfold validateElf64Image
  apply check_other (by decide)
  apply check_other (by decide)
  apply fetch_other.bind
  intro ehdr _ _
  iterate 8 apply check_other (by decide)
  exact .ok trivial

variable {base : UInt64}

theorem findNul_other {k : UInt64} : Within (fun _ => True) Fault.Other (findNul img base n k) := by
  induction n generalizing k with
  | zero => exact .ok trivial
  | succ n ih =>
    unfold findNul
    apply fetch_other.bind
    intro b _ _
    split_ifs
    · exact .ok trivial
    · exact ih

theorem stringAt_other {size offset : UInt64} : Within (fun _ => True) Fault.Other (stringAt img base size offset) := by
  unfold stringAt
  split_ifs
  · exact .ok trivial
  · apply findNul_other.bind
    exact fun _ _ _ => .ok trivial

variable {name : Name}

theorem firstByte_other : Within (fun _ => True) Fault.Other (firstByte img name) := by
  cases name with
  | none => exact .ok trivial
  | some p => exact fetch_other

theorem namedSymbol_other : Within (fun _ => True) Fault.Other (namedSymbol img table j) := by
  unfold namedSymbol
  apply fetch_other.bind
  intro stName _ _
  apply stringAt_other.bind
  intro name _ _
  apply firstByte_other.bind
  intro first _ _
  split_ifs
  · exact .ok trivial
  · apply fetch_other.bind
    intro shndx _ _
    split_ifs <;> exact .ok trivial

/-- The outcome of a symbol, as it is known once the symbol was read. -/
theorem namedSymbol_known : Within (fun found => namedSymbol img table j = .ok found) Fault.Other (namedSymbol img table j) := by
  have hw := @namedSymbol_other img table j
  cases hr : namedSymbol img table j with
  | ok found => exact .ok rfl
  | error e =>
    rw [hr] at hw
    exact .error hw.of_error

theorem readSymbol_known (hname : img.Holds (table.sym j) 4) :
    Within (fun _ => FieldsInside img (table.sym j)) Fault.Other (readSymbol img (table.sym j) name) := by
  have hfetch {α : Type} {off : UInt64} {n : ℕ} {value : α} : Within (fun _ => img.Holds off n) Fault.Other (img.fetch off n value) := by
    unfold Image.fetch
    split_ifs with hin
    · exact .ok hin
    · exact .error nofun
  unfold readSymbol
  apply hfetch.bind
  intro _ _ hvalue
  apply hfetch.bind
  intro _ _ hsize
  apply hfetch.bind
  intro _ _ hinfo
  apply hfetch.bind
  intro _ _ hshndx
  exact .ok ⟨hname, hinfo, hshndx, hvalue, hsize⟩

theorem namedSymbol_some {sym : UInt64} (h : namedSymbol img table j = .ok (some (sym, name))) :
    sym = table.sym j ∧ img.Holds (table.sym j) 4 := by
  have hword : img.Holds (table.sym j) 4 := by
    by_contra hout
    have hread : img.readWord (table.sym j) = .error .outside := if_neg hout
    have hsym : table.offset + UInt64.ofNat j * table.entsize = table.sym j := rfl
    unfold namedSymbol at h
    dsimp only at h
    rw [hsym, hread] at h
    cases h
  have hw : Within (fun found => ∀ x, found = some x → x.1 = table.sym j) Fault.Other (namedSymbol img table j) := by
    unfold namedSymbol
    apply fetch_other.bind
    intro stName _ _
    apply stringAt_other.bind
    intro name' _ _
    apply firstByte_other.bind
    intro first _ _
    split_ifs
    · exact .ok nofun
    · apply fetch_other.bind
      intro shndx _ _
      split_ifs
      · exact .ok nofun
      · apply Within.ok
        rintro x hx
        cases hx
        rfl
  rw [h] at hw
  exact ⟨hw.of_ok _ rfl, hword⟩

/-! ### The count -/

theorem countTable_known {count : UInt64} :
    Within (fun _ => ∀ j ∈ table.syms, ∃ found, namedSymbol img table j = .ok found) Fault.Other (countTable img count table) := by
  unfold countTable
  apply Within.foldlM_all
  intro count j _
  apply namedSymbol_known.bind
  intro found hfound _
  exact .ok ⟨found, hfound⟩

theorem foldTables_known {β : Type} {R : SymTable → Prop} {body : β → SymTable → Read β} (h : Sections img) (strict : Bool)
    (hbody : ∀ b table, Within (fun _ => R table) Fault.Other (body b table)) (b : β) :
    Within (fun _ => ∀ i ∈ img.shdrs, isSymTable (img.section i) → img.Linked i ∧ (strict = true → img.LinksStrings i) ∧ R (img.symTable i))
      Fault.Other (foldTables img strict body b) := by
  classical
  unfold foldTables
  apply Within.foldlM_all
  intro b i hi
  rw [symTableAt_spec h hi]
  split_ifs with hsym hgood
  · exact (hbody b _).mono fun _ hR _ => ⟨hgood.1, hgood.2, hR⟩
  · exact .error nofun
  · exact .ok fun hyes => absurd hyes hsym

theorem foldTables_eq {β : Type} (h : Sections img) (strict : Bool) (body : β → SymTable → Read β) (b : β)
    (hgood : ∀ i ∈ img.shdrs, isSymTable (img.section i) → img.Linked i ∧ (strict = true → img.LinksStrings i)) :
    foldTables img strict body b = img.symTables.foldlM body b := by
  classical
  have hloop (l : List ℕ) (hl : ∀ i ∈ l, i ∈ img.shdrs) (b : β) :
      l.foldlM (fun b i => symTableAt img strict i >>= fun table => table.elim (.ok b) (body b)) b =
        ((l.filter fun i => isSymTable (img.section i)).map img.symTable).foldlM body b := by
    induction l generalizing b with
    | nil => rfl
    | cons i l ih =>
      have hi := hl i (by simp)
      have ih := ih fun k hk => hl k (List.mem_cons_of_mem _ hk)
      rw [List.foldlM_cons, symTableAt_spec h hi]
      by_cases hsym : isSymTable (img.section i)
      · rw [if_pos hsym, if_pos (hgood i hi hsym), ok_bind, List.filter_cons_of_pos (by simpa using hsym), List.map_cons,
          List.foldlM_cons]
        exact congrArg _ (funext ih)
      · rw [if_neg hsym, ok_bind, List.filter_cons_of_neg (by simpa using hsym)]
        exact ih b
  rw [foldTables_elim]
  exact hloop img.shdrs (fun _ hi => hi) b

theorem countTable_eq (hnames : ∀ j ∈ table.syms, ∃ found, namedSymbol img table j = .ok found) (count : UInt64) :
    countTable img count table = .ok (count + UInt64.ofNat (table.syms.countP fun j => table.Counts img j)) := by
  have hstep (count : UInt64) (j : ℕ) (hj : j ∈ table.syms) : (do
      let found ← namedSymbol img table j
      .ok (if found.isSome = true then count + 1 else count) : Read UInt64) =
        .ok (if table.Counts img j then count + 1 else count) := by
    obtain ⟨found, hfound⟩ := hnames j hj
    simp only [counts_iff hfound]
    rw [hfound]
    rfl
  unfold countTable
  rw [foldlM_eq count hstep]
  congr 1
  generalize table.syms = l
  induction l generalizing count with
  | nil => simp
  | cons j l ih =>
    rw [List.foldl_cons, ih, List.countP_cons]
    by_cases hj : table.Counts img j
    · simp [hj, UInt64.ofNat_add, UInt64.add_assoc, UInt64.add_comm]
    · simp [hj]

theorem countTables_eq {tables : List SymTable} (hnames : ∀ table ∈ tables, ∀ j ∈ table.syms, ∃ found, namedSymbol img table j = .ok found)
    (count : UInt64) : tables.foldlM (countTable img) count =
      .ok (count + UInt64.ofNat (tables.map fun table => table.syms.countP fun j => table.Counts img j).sum) := by
  induction tables generalizing count with
  | nil => simp [pure, Except.pure]
  | cons table tables ih =>
    rw [List.foldlM_cons, countTable_eq (hnames table (by simp)), ok_bind, ih fun t ht => hnames t (List.mem_cons_of_mem _ ht),
      List.map_cons, List.sum_cons, UInt64.ofNat_add, UInt64.add_assoc]

theorem Readable.fits (h : Readable img) : Sections img := sections_of_valid h.sections

theorem countOrZero_eq (h : Readable img) (htyped : StringsTyped img) :
    countOrZero (countSymbols img) = .ok (UInt64.ofNat img.census) := by
  have hgood (i : ℕ) (hi : i ∈ img.shdrs) (hsym : isSymTable (img.section i)) : img.Linked i ∧ (true = true → img.LinksStrings i) :=
    ⟨h.linked i hi hsym, fun _ => htyped i hi hsym⟩
  unfold countSymbols
  rw [h.sections, ok_bind, foldTables_eq h.fits true _ _ hgood, countTables_eq h.names, ok_bind, UInt64.zero_add]
  change countOrZero (check (UInt64.ofNat img.census ≠ 0) .nosym >>= fun _ => .ok (UInt64.ofNat img.census)) = _
  by_cases hzero : UInt64.ofNat img.census = 0
  · rw [hzero]
    rfl
  · rw [check_eq hzero]
    rfl

/-- A count that does not fail passed all the checks. -/
theorem of_countOrZero {n : UInt64} (hheader : validateElf64Image img = .ok img.ehdr) (h : countOrZero (countSymbols img) = .ok n) :
    Readable img ∧ StringsTyped img := by
  have herror {e : Fault} (he : e.Other) : countOrZero (.error e) = .error e := by
    unfold countOrZero
    split
    · next heq =>
      cases heq
      exact absurd rfl he
    · rfl
  have hsections : validateSectionHeaders img.ehdr img.len = .ok () := by
    have hw : Within (fun _ => True) Fault.Other (validateSectionHeaders img.ehdr img.len) := tableWindow_other (by decide)
    cases hv : validateSectionHeaders img.ehdr img.len with
    | ok => rfl
    | error e =>
      rw [hv] at hw
      unfold countSymbols at h
      rw [hv] at h
      have hfail := (herror hw.of_error).symm.trans h
      cases hfail
  have hfits := sections_of_valid hsections
  have hw := foldTables_known hfits true (fun count table => @countTable_known img table count) (0 : UInt64)
  unfold countSymbols at h
  rw [hsections, ok_bind] at h
  cases hfold : foldTables img true (countTable img) 0 with
  | error e =>
    rw [hfold] at hw h
    have hfail := (herror hw.of_error).symm.trans h
    cases hfail
  | ok count =>
    rw [hfold] at hw
    have hall := hw.of_ok
    refine ⟨⟨hheader, hsections, fun i hi hsym => (hall i hi hsym).1, ?_⟩, fun i hi hsym => (hall i hi hsym).2.1 rfl⟩
    intro table htable
    obtain ⟨i, hi, hsym, rfl⟩ := mem_symTables.1 htable
    exact (hall i hi hsym).2.2

/-! ### The visit -/

theorem visitSymbol_known : Report.Keeps (fun _ => True)
    (fun stop => stop = false ∧ (∃ found, namedSymbol img table j = .ok found) ∧ (table.Counts img j → FieldsInside img (table.sym j)))
    Fault.Other (visitSymbol img (fun _ => false) table j) := by
  apply (Report.Keeps.lift namedSymbol_known).bind
  intro found hfound
  cases found with
  | none =>
    exact Report.Keeps.pure ⟨rfl, ⟨none, hfound⟩, fun hcounts => nomatch (counts_iff hfound).1 hcounts⟩
  | some x =>
    obtain ⟨sym, name⟩ := x
    obtain ⟨rfl, hname⟩ := namedSymbol_some hfound
    apply (Report.Keeps.lift (readSymbol_known hname)).bind
    intro symbol hfields
    apply (Report.Keeps.report trivial).bind
    intro _ _
    apply Report.Keeps.reported.bind
    intro calls _
    exact Report.Keeps.pure ⟨rfl, ⟨_, hfound⟩, fun _ => hfields⟩

theorem visitTable_known (h : Sections img) (hi : i ∈ img.shdrs) : Report.Keeps (fun _ => True)
    (fun stop => stop = false ∧ (isSymTable (img.section i) → img.Linked i ∧ ∀ j ∈ (img.symTable i).syms,
      (∃ found, namedSymbol img (img.symTable i) j = .ok found) ∧
        ((img.symTable i).Counts img j → FieldsInside img ((img.symTable i).sym j))))
    Fault.Other (visitTable img (fun _ => false) i) := by
  classical
  unfold visitTable
  rw [symTableAt_spec h hi]
  split_ifs with hsym hgood
  · apply (Report.Keeps.lift (Within.ok (Q := (· = some (img.symTable i))) rfl)).bind
    rintro _ rfl
    apply (Report.Keeps.untilStop_all fun j _ => visitSymbol_known).mono
    rintro stop ⟨hstop, hall⟩
    exact ⟨hstop, fun _ => ⟨hgood.1, hall⟩⟩
  · exact (Report.Keeps.lift (Within.error (Q := fun _ => False) nofun)).bind nofun
  · apply (Report.Keeps.lift (Within.ok (Q := (· = none)) rfl)).bind
    rintro _ rfl
    exact Report.Keeps.pure ⟨rfl, fun hyes => absurd hyes hsym⟩

/-- The visitor's call for a symbol that counts. -/
def callOf (img : Image) (table : SymTable) (j : ℕ) : List Symbol :=
  match namedSymbol img table j with
  | .ok (some (sym, name)) => [{ name, value := img.xword (sym + 8), size := img.xword (sym + 16), info := img.byte (sym + 4), shndx := img.half (sym + 6) }]
  | _ => []

def Image.calls (img : Image) : List Symbol := img.symTables.flatMap fun table => table.syms.flatMap (callOf img table)

theorem length_callOf : (callOf img table j).length = if table.Counts img j then 1 else 0 := by
  unfold callOf
  cases hfound : namedSymbol img table j with
  | error e =>
    have hno : ¬ table.Counts img j := fun hcounts => by
      unfold SymTable.Counts at hcounts
      rw [hfound] at hcounts
      exact hcounts
    rw [if_neg hno]
    rfl
  | ok found =>
    simp only [counts_iff hfound]
    cases found <;> rfl

theorem length_calls (img : Image) : img.calls.length = img.census := by
  have htable (table : SymTable) : (table.syms.flatMap (callOf img table)).length = table.syms.countP fun j => table.Counts img j := by
    rw [List.length_flatMap]
    simp only [length_callOf]
    generalize table.syms = l
    induction l with
    | nil => rfl
    | cons j l ih =>
      rw [List.map_cons, List.sum_cons, ih, List.countP_cons]
      by_cases hj : table.Counts img j <;> simp [hj, Nat.add_comm]
  unfold Image.calls Image.census
  rw [List.length_flatMap]
  simp only [htable]

theorem visitSymbol_eq (hknown : ∃ found, namedSymbol img table j = .ok found) (hwhole : table.Counts img j → FieldsInside img (table.sym j))
    (calls : List Symbol) : visitSymbol img (fun _ => false) table j calls = (.ok false, calls ++ callOf img table j) := by
  obtain ⟨found, hfound⟩ := hknown
  have hlift : (Report.lift (namedSymbol img table j) : Report Symbol Fault _) calls = (.ok found, calls) := by
    unfold Report.lift
    rw [hfound]
  unfold visitSymbol callOf
  rw [Report.bind_ok hlift, hfound]
  cases found with
  | none =>
    rw [List.append_nil]
    rfl
  | some x =>
    obtain ⟨sym, name⟩ := x
    obtain ⟨rfl, -⟩ := namedSymbol_some hfound
    have hin := hwhole ((counts_iff hfound).2 rfl)
    dsimp only
    unfold readSymbol
    rw [readXword_eq hin.value, ok_bind, readXword_eq hin.size, ok_bind, readByte_eq hin.info, ok_bind, readHalf_eq hin.shndx, ok_bind]
    rfl

theorem visitTables_eq (h : Readable img) (hwhole : SymbolsWhole img) :
    Report.untilStop (visitTable img fun _ => false) img.shdrs [] = (.ok false, img.calls) := by
  classical
  have hstep (i : ℕ) (hi : i ∈ img.shdrs) (calls : List Symbol) : visitTable img (fun _ => false) i calls =
      (.ok false, calls ++ if isSymTable (img.section i) then (img.symTable i).syms.flatMap (callOf img (img.symTable i)) else []) := by
    unfold visitTable
    rw [symTableAt_spec h.fits hi]
    by_cases hsym : isSymTable (img.section i)
    · have htable : img.symTable i ∈ img.symTables := mem_symTables.2 ⟨i, hi, hsym, rfl⟩
      rw [if_pos hsym, if_pos hsym, if_pos ⟨h.linked i hi hsym, nofun⟩, Report.bind_ok (Report.lift_ok _ calls)]
      exact Report.untilStop_eq calls fun j hj items => visitSymbol_eq (h.names _ htable j hj) (hwhole _ htable j hj) items
    · rw [if_neg hsym, if_neg hsym, Report.bind_ok (Report.lift_ok _ calls), List.append_nil]
      rfl
  rw [Report.untilStop_eq [] hstep, List.nil_append]
  unfold Image.calls Image.symTables
  rw [List.flatMap_map]
  congr 1
  generalize img.shdrs = l
  induction l with
  | nil => rfl
  | cons i l ih =>
    by_cases hsym : isSymTable (img.section i)
    · rw [List.flatMap_cons, ih, if_pos hsym, List.filter_cons_of_pos (by simpa using hsym), List.flatMap_cons]
    · rw [List.flatMap_cons, ih, if_neg hsym, List.filter_cons_of_neg (by simpa using hsym), List.nil_append]

variable {calls : List Symbol}

/-- A visit that ends without an error went over whole symbols. -/
theorem of_visitTables {stopped : Bool} (hheader : validateElf64Image img = .ok img.ehdr)
    (hsections : validateSectionHeaders img.ehdr img.len = .ok ())
    (h : Report.untilStop (visitTable img fun _ => false) img.shdrs [] = (.ok stopped, calls)) : Readable img ∧ SymbolsWhole img := by
  have hfits := sections_of_valid hsections
  have hkeeps := (Report.Keeps.untilStop_all fun i hi => visitTable_known hfits hi) [] (by simp)
  rw [h] at hkeeps
  obtain ⟨-, hall⟩ := hkeeps.2.of_ok
  refine ⟨⟨hheader, hsections, fun i hi hsym => (hall i hi hsym).1, ?_⟩, ?_⟩
  · intro table htable
    obtain ⟨i, hi, hsym, rfl⟩ := mem_symTables.1 htable
    exact fun j hj => ((hall i hi hsym).2 j hj).1
  · intro table htable
    obtain ⟨i, hi, hsym, rfl⟩ := mem_symTables.1 htable
    exact fun j hj => ((hall i hi hsym).2 j hj).2

/-- The outcome of a visit that goes to the end. -/
def visitOutcome (calls : List Symbol) : Read Unit :=
  match calls with
  | [] => fail .nosym
  | _ :: _ => .ok ()

theorem elfVisitSymbols_eq (h : Readable img) (hwhole : SymbolsWhole img) :
    elfVisitSymbols img (fun _ => false) [] = (visitOutcome img.calls, img.calls) := by
  have hheader : (Report.lift (validateElf64Image img) : Report Symbol Fault Ehdr) [] = (.ok img.ehdr, []) := by
    unfold Report.lift
    rw [h.header]
  have hsections : (Report.lift (validateSectionHeaders img.ehdr img.len) : Report Symbol Fault Unit) [] = (.ok (), []) := by
    unfold Report.lift
    rw [h.sections]
  unfold elfVisitSymbols
  rw [Report.bind_ok hheader, Report.bind_ok hsections, Report.bind_ok (visitTables_eq h hwhole)]
  change (check (false = true ∨ img.calls ≠ []) .nosym, img.calls) = _
  cases img.calls <;> rfl

/-- A visit that is not stopped by an error of the tables went over whole symbols. -/
theorem of_elfVisitSymbols {outcome : Read Unit} (h : elfVisitSymbols img (fun _ => false) [] = (outcome, calls))
    (hend : ∀ e, outcome = .error e → ¬ e.Other) : Readable img ∧ SymbolsWhole img := by
  have hother {α : Type} {r : Read α} {f : α → Report Symbol Fault Unit} {e : Fault} (hr : r = .error e) (he : e.Other)
      (hrun : (Report.lift r >>= f) [] = (outcome, calls)) : False := by
    subst hr
    exact hend e (Prod.mk.inj hrun).1.symm he
  unfold elfVisitSymbols at h
  cases hheader : validateElf64Image img with
  | error e =>
    have hw := @validateElf64Image_other img
    rw [hheader] at hw
    exact (hother hheader hw.of_error h).elim
  | ok ehdr =>
    obtain rfl : ehdr = img.ehdr := by
      have hw := validateElf64Image_within img
      rw [hheader] at hw
      exact hw.of_ok.1
    rw [hheader, Report.bind_ok (Report.lift_ok _ [])] at h
    cases hsections : validateSectionHeaders img.ehdr img.len with
    | error e =>
      have hw : Within (fun _ => True) Fault.Other (validateSectionHeaders img.ehdr img.len) := tableWindow_other (by decide)
      rw [hsections] at hw
      exact (hother hsections hw.of_error h).elim
    | ok =>
      rw [hsections, Report.bind_ok (Report.lift_ok _ [])] at h
      have hfits := sections_of_valid hsections
      cases hrun : Report.untilStop (visitTable img fun _ => false) img.shdrs [] with
      | mk result calls' =>
        cases result with
        | ok stopped => exact of_visitTables hheader hsections hrun
        | error e =>
          have hkeeps := (Report.Keeps.untilStop_all fun i hi => visitTable_known hfits hi) [] (by simp)
          rw [hrun] at hkeeps
          rw [Report.bind_error hrun] at h
          exact absurd hkeeps.2.of_error (hend e (Prod.mk.inj h).1.symm)

/-! ### Where they agree -/

/-- `elf_get_info` and a visit that is never stopped agree on the number of symbols. -/
structure CountsAgree (img : Image) : Prop where
  counted : ∀ info, elfGetInfo img = .ok info → ∃ calls : List Symbol, calls.length = info.symbolCount.toNat ∧
    elfVisitSymbols img (fun _ => false) [] = (visitOutcome calls, calls)
  visited : ∀ calls, elfVisitSymbols img (fun _ => false) [] = (.ok (), calls) →
    (∃ info, elfGetInfo img = .ok info ∧ info.symbolCount.toNat = calls.length) ∨ ∃ e, infoRange img img.ehdr = .error e

/-- Where the tables can be read, they have their names in string tables if and only if the symbols that
count are whole, where there are any, and the counter does not wrap. -/
def CountsAgreeWhen (img : Image) : Prop :=
  Readable img → (infoRange img img.ehdr).isOk = true →
    (StringsTyped img → SymbolsWhole img ∧ img.census < 2 ^ 64) ∧
      (SymbolsWhole img → 0 < img.census → StringsTyped img ∧ img.census < 2 ^ 64)

theorem elfGetInfo_ok {info : Info} (h : elfGetInfo img = .ok info) : validateElf64Image img = .ok img.ehdr ∧
    (infoRange img img.ehdr).isOk = true ∧ countOrZero (countSymbols img) = .ok info.symbolCount := by
  unfold elfGetInfo at h
  cases hheader : validateElf64Image img with
  | error e =>
    rw [hheader] at h
    cases h
  | ok ehdr =>
    obtain rfl : ehdr = img.ehdr := by
      have hw := validateElf64Image_within img
      rw [hheader] at hw
      exact hw.of_ok.1
    rw [hheader, ok_bind] at h
    cases hrange : infoRange img img.ehdr with
    | error e =>
      rw [hrange] at h
      cases h
    | ok range =>
      rw [hrange, ok_bind] at h
      cases hcount : countOrZero (countSymbols img) with
      | error e =>
        rw [hcount] at h
        cases h
      | ok n =>
        rw [hcount, ok_bind] at h
        cases h
        exact ⟨rfl, rfl, rfl⟩

theorem elfGetInfo_eq (h : Readable img) (htyped : StringsTyped img) (hrange : (infoRange img img.ehdr).isOk = true) :
    ∃ info, elfGetInfo img = .ok info ∧ info.symbolCount = UInt64.ofNat img.census := by
  cases hr : infoRange img img.ehdr with
  | error e =>
    rw [hr] at hrange
    cases hrange
  | ok range =>
    unfold elfGetInfo
    rw [h.header, ok_bind, hr, ok_bind, countOrZero_eq h htyped, ok_bind]
    exact ⟨_, rfl, rfl⟩

theorem visitOutcome_other {e : Fault} (h : visitOutcome calls = .error e) : ¬ e.Other := by
  cases calls with
  | nil =>
    cases h
    exact not_not.2 rfl
  | cons s calls => cases h

theorem toNat_census_iff : (UInt64.ofNat img.census).toNat = img.census ↔ img.census < 2 ^ 64 := by
  rw [UInt64.toNat_ofNat']
  exact ⟨fun h => h ▸ Nat.mod_lt _ (by decide), Nat.mod_eq_of_lt⟩

/-- The count and the visit agree if and only if their different checks come to the same. -/
theorem countsAgree_iff (img : Image) : CountsAgree img ↔ CountsAgreeWhen img := by
  constructor
  · intro hagree h hrange
    constructor
    · intro htyped
      obtain ⟨info, hinfo, hcount⟩ := elfGetInfo_eq h htyped hrange
      obtain ⟨calls, hlength, hvisit⟩ := hagree.counted info hinfo
      obtain ⟨-, hwhole⟩ := of_elfVisitSymbols hvisit fun e he => visitOutcome_other he
      have hcalls : calls = img.calls := (Prod.mk.inj (hvisit.symm.trans (elfVisitSymbols_eq h hwhole))).2
      rw [hcalls, length_calls, hcount] at hlength
      exact ⟨hwhole, toNat_census_iff.1 hlength.symm⟩
    · intro hwhole hpos
      have hvisit := elfVisitSymbols_eq h hwhole
      have hsome : visitOutcome img.calls = .ok () := by
        rw [← length_calls, List.length_pos_iff] at hpos
        cases hcalls : img.calls with
        | nil => exact absurd hcalls hpos
        | cons s calls => rfl
      rw [hsome] at hvisit
      rcases hagree.visited _ hvisit with ⟨info, hinfo, hlength⟩ | ⟨e, he⟩
      · obtain ⟨-, -, hcount⟩ := elfGetInfo_ok hinfo
        obtain ⟨-, htyped⟩ := of_countOrZero h.header hcount
        rw [countOrZero_eq h htyped] at hcount
        rw [← Except.ok.inj hcount, length_calls] at hlength
        exact ⟨htyped, toNat_census_iff.1 hlength⟩
      · rw [he] at hrange
        cases hrange
  · intro hwhen
    constructor
    · intro info hinfo
      obtain ⟨hheader, hrange, hcount⟩ := elfGetInfo_ok hinfo
      obtain ⟨h, htyped⟩ := of_countOrZero hheader hcount
      obtain ⟨hwhole, hlt⟩ := (hwhen h hrange).1 htyped
      rw [countOrZero_eq h htyped] at hcount
      refine ⟨img.calls, ?_, elfVisitSymbols_eq h hwhole⟩
      rw [length_calls, ← Except.ok.inj hcount, toNat_census_iff.2 hlt]
    · intro calls hvisit
      obtain ⟨h, hwhole⟩ := of_elfVisitSymbols hvisit nofun
      have heq := hvisit.symm.trans (elfVisitSymbols_eq h hwhole)
      obtain ⟨hsome, rfl⟩ := Prod.mk.inj heq
      cases hr : infoRange img img.ehdr with
      | error e => exact .inr ⟨e, rfl⟩
      | ok range =>
        have hpos : 0 < img.census := by
          rw [← length_calls, List.length_pos_iff]
          intro hnil
          rw [hnil] at hsome
          cases hsome
        obtain ⟨htyped, hlt⟩ := (hwhen h (by rw [hr]; rfl)).2 hwhole hpos
        obtain ⟨info, hinfo, hcount⟩ := elfGetInfo_eq h htyped (by rw [hr]; rfl)
        refine .inl ⟨info, hinfo, ?_⟩
        rw [hcount, length_calls, toNat_census_iff.2 hlt]

/-- The section with the names of the one symbol has the type of program data. -/
def untypedNames : Image :=
  let img := symbolsImage [symbolEntry 0x1000 8]
  { img with byte := fun off => if off = 132 then 1 else img.byte off }

/-- The visit finds the symbol, the count refuses the table. -/
theorem not_countsAgree : ¬ ∀ img : Image, CountsAgree img := by
  intro hall
  have hrun : (elfVisitSymbols untypedNames (fun _ => false) []).1 = .ok () ∧ (elfGetInfo untypedNames).isOk = false ∧
      (infoRange untypedNames untypedNames.ehdr).isOk = true := by decide +kernel
  obtain ⟨hvisit, hinfo, hrange⟩ := hrun
  generalize hr : elfVisitSymbols untypedNames (fun _ => false) [] = r at hvisit
  obtain ⟨outcome, calls⟩ := r
  obtain rfl : outcome = .ok () := hvisit
  rcases (hall untypedNames).visited calls hr with ⟨info, hget, -⟩ | ⟨e, he⟩
  · rw [hget] at hinfo
    cases hinfo
  · rw [he] at hrange
    cases hrange

end Tg11Kernel.Elf
