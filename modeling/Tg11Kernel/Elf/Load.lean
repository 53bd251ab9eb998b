import Tg11Kernel.Elf.Image
import Tg11Kernel.Memory.Map

/-! Loading and unloading an image. A load validates the program headers, then takes each
page of each segment: it makes room, maps a fresh frame, fills it and sets its flags. On an
error all pages mapped so far are given back. The image is a value: its bytes are those it
had when the load began. -/

namespace Tg11Kernel.Elf

open Lib Exec Memory

/-! ### Arithmetic -/

def alignUpPage (v : UInt64) : UInt64 := (v + MEMORY_PAGE_SIZE - 1) &&& ~~~(MEMORY_PAGE_SIZE - 1)

/-- `v & ~(MEMORY_PAGE_SIZE - 1)` -/
def alignDownPage (v : UInt64) : UInt64 := v &&& ~~~(MEMORY_PAGE_SIZE - 1)

def addOverflowsUlong (a b : UInt64) : Prop := a + b < a

def isPowerOfTwoUlong (v : UInt64) : Prop := v ≠ 0 ∧ v &&& (v - 1) = 0

instance (a b : UInt64) : Decidable (addOverflowsUlong a b) := inferInstanceAs (Decidable (_ < _))

instance (v : UInt64) : Decidable (isPowerOfTwoUlong v) := inferInstanceAs (Decidable (_ ∧ _))

/-! ### Validation -/

/-- The segment takes memory. -/
def Phdr.Loads (phdr : Phdr) : Prop := phdr.type = PT_LOAD ∧ phdr.memsz ≠ 0

instance (phdr : Phdr) : Decidable phdr.Loads := inferInstanceAs (Decidable (_ ∧ _))

def Phdr.segEnd (phdr : Phdr) : UInt64 := phdr.vaddr + phdr.memsz

/-- The windows of two segments meet, as far as the ends do not wrap. -/
def overlaps (phdr other : Phdr) : Prop :=
  alignDownPage phdr.vaddr < alignUpPage other.segEnd ∧ alignDownPage other.vaddr < alignUpPage phdr.segEnd

instance (phdr other : Phdr) : Decidable (overlaps phdr other) := inferInstanceAs (Decidable (_ ∧ _))

def checkInterp (img : Image) (i : ℕ) : Read Unit := do
  let phdr ← img.readPhdr i
  check (phdr.type ≠ PT_INTERP) .interp

/-- A later segment is compared with `phdr`. -/
def checkOverlap (img : Image) (phdr : Phdr) (j : ℕ) : Read Unit := do
  let other ← img.readPhdr j
  if ¬ other.Loads then .ok ()
  else do
    check (¬ addOverflowsUlong other.vaddr other.memsz) .range
    check (¬ overlaps phdr other) .overlap

/-- The headers behind header `i`. -/
def Image.phdrsAfter (img : Image) (i : ℕ) : List ℕ := img.phdrs.drop (i + 1)

def checkAlign (phdr : Phdr) : Read Unit :=
  if phdr.align > 1 then do
    check (isPowerOfTwoUlong phdr.align) .phdr
    check (phdr.vaddr &&& (phdr.align - 1) = phdr.offset &&& (phdr.align - 1)) .phdr
  else .ok ()

/-- One header is checked; the count is that of the segments to load. -/
def validateSegment (img : Image) (loadCount i : ℕ) : Read ℕ := do
  let phdr ← img.readPhdr i
  if phdr.type ≠ PT_LOAD then .ok loadCount
  else do
    check (¬ phdr.offset + phdr.filesz > img.len) .range
    check (¬ phdr.memsz < phdr.filesz) .range
    if phdr.memsz = 0 then .ok (loadCount + 1)
    else do
      check (¬ addOverflowsUlong phdr.vaddr phdr.memsz) .range
      check (¬ addOverflowsUlong phdr.offset phdr.filesz) .range
      checkAlign phdr
      (img.phdrsAfter i).forM (checkOverlap img phdr)
      .ok (loadCount + 1)

/-- The entry lies in a segment. -/
def checkEntry (img : Image) : List ℕ → Read Unit
  | [] => fail .entry
  | i :: l => do
    let phdr ← img.readPhdr i
    if phdr.Loads ∧ img.ehdr.entry ≥ phdr.vaddr ∧ img.ehdr.entry < phdr.segEnd then .ok () else checkEntry img l

def validateLoadSegments (img : Image) : Read Unit := do
  img.phdrs.forM (checkInterp img)
  let loadCount ← img.phdrs.foldlM (validateSegment img) 0
  check (loadCount ≠ 0) .phdr
  checkEntry img img.phdrs

/-- The address that position-independent images are moved by. -/
def pieBias : UInt64 := 0xFFFF900003800000

def loadBias (img : Image) : UInt64 := if img.ehdr.type = ET_DYN then pieBias else 0

/-- The checks of `elf_load` before anything is mapped. -/
def validateForLoad (img : Image) : Read Unit := do
  check (¬ (img.base = 0 ∨ img.len.toNat < sizeofEhdr)) .null
  let ehdr ← img.readEhdr
  check (ehdr.ident = elfMagic) .magic
  check (ehdr.eiClass = ELFCLASS64) .elfClass
  check (ehdr.type = ET_EXEC ∨ ehdr.type = ET_DYN) .type
  check (ehdr.machine = EM_X86_64) .arch
  getProgramHeaderWindow ehdr img.len
  validateLoadSegments img

/-! ### Pages -/

/-- The pages from `start` up to `stop`. -/
def pagesFrom (start stop : UInt64) : List UInt64 :=
  if start < stop then
    (List.range ((stop - start) / MEMORY_PAGE_SIZE).toNat).map fun j => start + MEMORY_PAGE_SIZE * UInt64.ofNat j
  else []

/-- The pages of a segment. -/
def windowPages (phdr : Phdr) (bias : UInt64) : List UInt64 :=
  pagesFrom (alignDownPage (phdr.vaddr + bias)) (alignUpPage (phdr.vaddr + bias + phdr.memsz))

/-- `mapped_virt` and `mapped_phys` -/
abbrev MappedPages := List (UInt64 × UInt64)

/-- The last page mapped is given back first. -/
def rolledBack (mapped : MappedPages) (m : Mem) : Mem :=
  mapped.reverse.foldl (fun m p => (m.unmapPage p.1).freeFrame (frameNo p.2)) m

def rollbackMappedPages (mapped : MappedPages) : Exec Mem Unit := modify (rolledBack mapped)

def maxMapped : ℕ := 1024

/-- A mapping in the way is removed: a large one is split first. -/
def makeRoom (mapped : MappedPages) (page : UInt64) : Exec Mem Unit := do
  let phys ← gets fun m => pagingGetPhys m.tables page
  if phys ≠ 0 then do
    orElse (pagingSplitHugePage page) (rollbackMappedPages mapped)
    pagingUnmapPage page
    let phys ← gets fun m => pagingGetPhys m.tables page
    orElse (require (phys = 0)) (rollbackMappedPages mapped)
  else pure ()

def loadFlags : UInt64 := PAGE_FLAG_PRESENT ||| PAGE_FLAG_WRITABLE ||| PAGE_FLAG_USER

/-- A fresh frame for a page, with the list that has it added. -/
def mapFresh (mapped : MappedPages) (page : UInt64) : Exec Mem MappedPages := do
  let phys ← physAllocPage
  orElse (require (phys ≠ 0)) (rollbackMappedPages mapped)
  orElse (pagingMapPage page phys loadFlags) (do
    physFreePage phys
    rollbackMappedPages mapped)
  orElse (require (mapped.length < maxMapped)) (do
    pagingUnmapPage page
    physFreePage phys
    rollbackMappedPages mapped)
  pure (mapped ++ [(page, phys)])

/-- The flags of a segment's pages. -/
def finalFlags (phdr : Phdr) : UInt64 :=
  let flags := PAGE_FLAG_PRESENT ||| PAGE_FLAG_USER
  let flags := if phdr.flags &&& PF_W ≠ 0 then flags ||| PAGE_FLAG_WRITABLE else flags
  if phdr.flags &&& PF_X = 0 then flags ||| PAGE_FLAG_NO_EXECUTE else flags

/-- The bytes of the file that fall into a page: where they go in the page, how many, and
where they stand in the image. -/
structure Copy where
  dstOff : UInt64
  len : UInt64
  src : UInt64

/-- None for a page of zeros only. -/
def copyOf (phdr : Phdr) (bias page : UInt64) : Option Copy :=
  let start := alignDownPage (phdr.vaddr + bias)
  let pageOff := page - start
  let copyEnd := pageOff + MEMORY_PAGE_SIZE
  let segFileStart := phdr.vaddr + bias - start
  let segFileEnd := segFileStart + phdr.filesz
  if copyEnd ≤ segFileStart ∨ pageOff ≥ segFileEnd then none
  else
    let clampStart := if pageOff < segFileStart then segFileStart else pageOff
    let clampEnd := if copyEnd > segFileEnd then segFileEnd else copyEnd
    some
      { dstOff := clampStart - pageOff
        len := clampEnd - clampStart
        src := phdr.offset - segFileStart + clampStart }

/-- A page is zeroed and filled. The flags are set only behind the copy. -/
def fillPage (img : Image) (phdr : Phdr) (bias : UInt64) (mapped : MappedPages) (page : UInt64) : Exec Mem Unit := do
  writePage page 0 4096 fun _ => 0
  match copyOf phdr bias page with
  | none => pure ()
  | some copy => do
    writePage page copy.dstOff.toNat copy.len.toNat fun k => img.byte (copy.src + UInt64.ofNat k)
    orElse (pagingSetPageFlags page (finalFlags phdr)) (rollbackMappedPages mapped)

def loadPage (img : Image) (phdr : Phdr) (bias : UInt64) (mapped : MappedPages) (page : UInt64) : Exec Mem MappedPages := do
  makeRoom mapped page
  let mapped ← mapFresh mapped page
  fillPage img phdr bias mapped page
  pure mapped

/-- The check of the header's end never fails behind `getProgramHeaderWindow`; it would not roll back. -/
def loadSegment (img : Image) (bias : UInt64) (mapped : MappedPages) (i : ℕ) : Exec Mem MappedPages := do
  let phdr := img.phdr (img.phdrOff i)
  if phdr.type ≠ PT_LOAD then pure mapped
  else do
    require (¬ img.phdrOff i + UInt64.ofNat sizeofPhdr > img.len)
    if phdr.memsz = 0 then pure mapped else (windowPages phdr bias).foldlM (loadPage img phdr bias) mapped

def loadSegments (img : Image) (bias : UInt64) : Exec Mem MappedPages := img.phdrs.foldlM (loadSegment img bias) []

/-! ### Active images -/

/-- `elf_active_image` -/
structure ActiveImage where
  data : UInt64
  len : UInt64
  loadBias : UInt64
  loadBase : UInt64
  loadEnd : UInt64
  deriving DecidableEq

def ELF_ACTIVE_IMAGE_MAX : ℕ := 8

/-- The slots of `elf_active_images`; a slot that is not used is empty. -/
abbrev ActiveImages := List (Option ActiveImage)

/-- The slot is used for these bytes. -/
def isActive (data len : UInt64) (slot : Option ActiveImage) : Bool :=
  match slot with
  | some a => a.data == data && a.len == len
  | none => false

def findActiveImageBias (images : ActiveImages) (data len : UInt64) : UInt64 :=
  match images.find? (isActive data len) with
  | some (some a) => a.loadBias
  | _ => 0

/-- The slot of the same bytes is taken again, or the first free one; with none free
nothing is registered. -/
def registerActiveImage (images : ActiveImages) (a : ActiveImage) : ActiveImages :=
  if a.data = 0 ∨ a.len = 0 ∨ a.loadEnd ≤ a.loadBase then images
  else
    match images.findIdx? (isActive a.data a.len) with
    | some i => images.set i (some a)
    | none =>
      match images.findIdx? Option.isNone with
      | some i => images.set i (some a)
      | none => images

def unregisterActiveImage (images : ActiveImages) (data len : UInt64) : ActiveImages :=
  match images.findIdx? (isActive data len) with
  | some i => images.set i none
  | none => images

/-! ### The loader -/

/-- What the loader works on. -/
structure Kernel where
  mem : Mem
  images : ActiveImages

/-- `elf_exec_t` -/
structure ElfExec where
  entry : UInt64
  loadBase : UInt64
  loadEnd : UInt64

/-- A range that is not empty is moved by the bias. -/
def moveRange (r : LoadRange) (bias : UInt64) : LoadRange :=
  if r.loadEnd > r.loadBase then { loadBase := r.loadBase + bias, loadEnd := r.loadEnd + bias } else r

def elfExecOf (img : Image) (r : LoadRange) : ElfExec where
  entry := img.ehdr.entry + loadBias img
  loadBase := if r.loadEnd > r.loadBase then r.loadBase + loadBias img else 0
  loadEnd := if r.loadEnd > r.loadBase then r.loadEnd + loadBias img else 0

def activeImageOf (img : Image) (r : LoadRange) : ActiveImage where
  data := img.base
  len := img.len
  loadBias := loadBias img
  loadBase := (moveRange r (loadBias img)).loadBase
  loadEnd := (moveRange r (loadBias img)).loadEnd

def elfLoad (img : Image) : Exec Kernel (Except ElfError ElfExec) := fun k =>
  match validateForLoad img with
  | .error .outside => (.hang, k)
  | .error (.error e) => (.ok (.error e), k)
  | .ok () =>
    match loadSegments img (loadBias img) k.mem with
    | (.hang, m) => (.hang, { k with mem := m })
    | (.fail, m) => (.ok (.error .map), { k with mem := m })
    | (.ok _, m) =>
      match collectLoadRange img with
      | .error _ => (.hang, { k with mem := m })
      | .ok r => (.ok (.ok (elfExecOf img r)), { mem := m, images := registerActiveImage k.images (activeImageOf img r) })

/-! ### Unloading -/

def unloadPage (m : Mem) (page : UInt64) : Mem :=
  let phys := pagingGetPhys m.tables page
  if phys ≠ 0 then (m.unmapPage page).freeFrame (frameNo phys) else m

def unloadSegment (img : Image) (bias : UInt64) (m : Mem) (i : ℕ) : Mem :=
  let phdr := img.phdr (img.phdrOff i)
  if phdr.type ≠ PT_LOAD then m else (windowPages phdr bias).foldl unloadPage m

/-- The checks of `elf_unload`. -/
def validateForUnload (img : Image) : Read Unit := do
  check (¬ (img.base = 0 ∨ img.len.toNat < sizeofEhdr)) .null
  let ehdr ← img.readEhdr
  check (ehdr.ident = elfMagic ∧ ehdr.eiClass = ELFCLASS64) .magic
  getProgramHeaderWindow ehdr img.len

def elfUnload (img : Image) (k : Kernel) : Kernel :=
  match validateForUnload img with
  | .error _ => k
  | .ok () =>
    { mem := img.phdrs.foldl (unloadSegment img (findActiveImageBias k.images img.base img.len)) k.mem
      images := unregisterActiveImage k.images img.base img.len }

end Tg11Kernel.Elf
