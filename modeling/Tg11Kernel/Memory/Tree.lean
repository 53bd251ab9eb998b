import Tg11Kernel.Memory.Map
import Tg11Kernel.Lib.Radix

/-! The tables as a tree. A frame is an aligned physical address and a table has 512 entries.
An address names a path of four indices; its large or small entry is its leaf. The tree is
well formed if no table is shared and the allocator has marked every table used. -/

namespace Tg11Kernel.Memory

open Lib

/-! ### Bits -/

theorem and_or (a b c : UInt64) : (a ||| b) &&& c = a &&& c ||| b &&& c :=
  UInt64.toBitVec_inj.1 BitVec.and_or_distrib_right

variable {e f a addr : UInt64} {F G : Frame} {t : PageTables} {p : List Index} {m : Mem}

theorem has_iff : has e f = true ↔ e &&& f ≠ 0 := by simp [has]

theorem has_or (a b f : UInt64) : has (a ||| b) f = (has a f || has b f) := by
  rw [Bool.eq_iff_iff, Bool.or_eq_true, has_iff, has_iff, has_iff, and_or, ne_eq, UInt64.or_eq_zero_iff, not_and_or]

theorem has_and {m : UInt64} (h : m &&& f = f) : has (a &&& m) f = has a f := by
  unfold has
  rw [UInt64.and_assoc, h]

theorem has_and_of_zero {m : UInt64} (h : m &&& f = 0) : has (a &&& m) f = false := by
  unfold has
  rw [UInt64.and_assoc, h, UInt64.and_zero]
  rfl

theorem addrMask_toNat (a : UInt64) : (a &&& PAGE_ADDR_MASK).toNat = a.toNat / 2 ^ 12 % 2 ^ 40 * 2 ^ 12 :=
  and_toNat_of_mask a (by decide)

/-! ### Frames and indices -/

/-- An aligned physical address. -/
abbrev Frame := { a : UInt64 // a &&& PAGE_ADDR_MASK = a }

abbrev Index := Fin 512

def Frame.of (a : UInt64) : Frame := ⟨a &&& PAGE_ADDR_MASK, by rw [UInt64.and_assoc, UInt64.and_self]⟩

theorem Frame.of_eq (h : a &&& PAGE_ADDR_MASK = a) : Frame.of a = ⟨a, h⟩ := Subtype.ext h

theorem Frame.toNat_eq (F : Frame) : F.1.toNat = F.1.toNat / 2 ^ 12 % 2 ^ 40 * 2 ^ 12 := by
  rw [← addrMask_toNat, F.2]

/-- The number of a frame. -/
def Frame.no (F : Frame) : ℕ := frameNo F.1

theorem Frame.toNat_no (F : Frame) : F.1.toNat = F.no * 4096 := by
  have hdvd : 4096 ∣ F.1.toNat := by
    rw [F.toNat_eq]
    exact Dvd.intro_left _ rfl
  unfold Frame.no
  rw [frameNo_eq, Nat.div_mul_cancel hdvd]

theorem Frame.no_lt (F : Frame) : F.no < 2 ^ 40 := by
  have heq := F.toNat_eq
  have hno := F.toNat_no
  omega

theorem Frame.ext_no (h : F.no = G.no) : F = G := by
  apply Subtype.ext
  apply UInt64.toNat_inj.1
  rw [F.toNat_no, G.toNat_no, h]

/-- Where entry `i` of a table stands. -/
def slot (F : Frame) (i : Index) : UInt64 := F.1 + 8 * UInt64.ofNat i

theorem slot_toNat (F : Frame) (i : Index) : (slot F i).toNat = F.no * 4096 + 8 * i := by
  have hno := F.toNat_no
  have hlt := F.no_lt
  have hi := i.isLt
  have hofNat : (UInt64.ofNat i).toNat = i := UInt64.toNat_ofNat_of_lt' (by unfold UInt64.size; omega)
  have height : (8 : UInt64).toNat = 8 := rfl
  unfold slot
  rw [UInt64.toNat_add, UInt64.toNat_mul, hofNat, hno, height, Nat.mod_eq_of_lt (a := 8 * _) (by omega), Nat.mod_eq_of_lt (by omega)]

theorem slot_inj {i j : Index} : slot F i = slot G j ↔ F = G ∧ i = j := by
  constructor
  · intro h
    have hnat := congrArg UInt64.toNat h
    rw [slot_toNat, slot_toNat] at hnat
    have hi := i.isLt
    have hj := j.isLt
    exact ⟨Frame.ext_no (by omega), Fin.ext (by omega)⟩
  · rintro ⟨rfl, rfl⟩
    rfl

/-- The index that an address has at a level, by the lowest bit of the level. -/
def index (shift : UInt64) (addr : UInt64) : Index :=
  ⟨((addr >>> shift) &&& 0x1FF).toNat, by
    have hmask : (0x1FF : UInt64).toNat = 2 ^ 9 - 1 := rfl
    rw [UInt64.toNat_and, hmask, Nat.and_two_pow_sub_one_eq_mod]
    exact Nat.mod_lt _ (by decide)⟩

theorem slot_index (F : Frame) (shift addr : UInt64) : slot F (index shift addr) = F.1 + 8 * ((addr >>> shift) &&& 0x1FF) := by
  unfold slot index
  rw [UInt64.ofNat_toNat]

/-- The indices down to the last table. -/
def path (addr : UInt64) : List Index := [index 39 addr, index 30 addr, index 21 addr]

/-- The place of an address in the tree. -/
def place (addr : UInt64) : List Index × Index := (path addr, index 12 addr)

/-! ### The tree -/

namespace PageTables

variable (t : PageTables)

def root : Frame := Frame.of t.cr3

/-- Entry `i` of a table. -/
def get (F : Frame) (i : Index) : UInt64 := t.entry (slot F i)

end PageTables

/-- The table that an entry points at. -/
def next (e : UInt64) : Option Frame :=
  if has e PAGE_FLAG_PRESENT = true ∧ has e PAGE_FLAG_HUGE = false then some (Frame.of e) else none

namespace PageTables

variable (t : PageTables)

def walk (p : List Index) : Option Frame := Radix.walk next t.get t.root p

/-- A frame that holds a table. -/
def Table (F : Frame) : Prop := Radix.Table next t.get t.root 3 F

/-- The entry at the end of a path. -/
def lookupAt (p : List Index) (i : Index) : Option UInt64 := (t.walk p).map fun F => t.get F i

end PageTables

/-- What an address is mapped by. -/
inductive Leaf where
  | large (pde : UInt64)
  | small (pte : UInt64)
  deriving DecidableEq

/-- The leaf of an address, as the software walks find it. -/
def leaf (t : PageTables) (addr : UInt64) : Option Leaf :=
  if has (t.pml4e addr) PAGE_FLAG_PRESENT = false then none
  else if has (t.pdpte addr) PAGE_FLAG_PRESENT = false then none
  else if has (t.pde addr) PAGE_FLAG_PRESENT = false then none
  else if has (t.pde addr) PAGE_FLAG_HUGE = true then some (.large (t.pde addr))
  else if has (t.pte addr) PAGE_FLAG_PRESENT = false then none
  else some (.small (t.pte addr))

/-- Where a leaf takes an address. -/
def Leaf.phys (addr : UInt64) : Leaf → UInt64
  | .large pde => (pde &&& PAGE_LARGE_ADDR_MASK) ||| (addr &&& 0x1FFFFF)
  | .small pte => (pte &&& PAGE_ADDR_MASK) ||| (addr &&& (MEMORY_PAGE_SIZE - 1))

theorem pagingGetPhys_eq (t : PageTables) (addr : UInt64) : pagingGetPhys t addr = ((leaf t addr).map (Leaf.phys addr)).getD 0 := by
  unfold pagingGetPhys leaf
  simp only [Bool.not_eq_true']
  split_ifs <;> rfl

/-- The tables are a tree of frames that are marked used, of which none is shared, and no
entry maps a gigabyte. Frame 0 is never handed out. -/
structure WellFormed (m : Mem) : Prop where
  unshared : Radix.Unshared next m.tables.get m.tables.root 3
  used : ∀ F, m.tables.Table F → F.no < MEMORY_MAX_PAGES ∧ m.used F.no = true
  noGigabyte : ∀ p F i, p.length ≤ 1 → m.tables.walk p = some F → has (m.tables.get F i) PAGE_FLAG_PRESENT = true →
    has (m.tables.get F i) PAGE_FLAG_HUGE = false
  zero : m.used 0 = true

/-! ### Walks -/

namespace PageTables

variable (t : PageTables) (addr : UInt64)

theorem pml4e_eq : t.pml4e addr = t.get t.root (index 39 addr) := by
  unfold get
  rw [slot_index]
  rfl

theorem pdpte_eq : t.pdpte addr = t.get (Frame.of (t.pml4e addr)) (index 30 addr) := by
  unfold get
  rw [slot_index]
  rfl

theorem pde_eq : t.pde addr = t.get (Frame.of (t.pdpte addr)) (index 21 addr) := by
  unfold get
  rw [slot_index]
  rfl

theorem pte_eq : t.pte addr = t.get (Frame.of (t.pde addr)) (index 12 addr) := by
  unfold get
  rw [slot_index]
  rfl

theorem pdSlot_eq : t.pdSlot addr = slot (Frame.of (t.pdpte addr)) (index 21 addr) := by
  rw [slot_index]
  rfl

theorem ptSlot_eq : t.ptSlot addr = slot (Frame.of (t.pde addr)) (index 12 addr) := by
  rw [slot_index]
  rfl

end PageTables

/-- The indices down to the page directory. -/
def dir (addr : UInt64) : List Index := [index 39 addr, index 30 addr]

theorem dir_le (addr : UInt64) : (dir addr).length ≤ 3 := Nat.le_succ 2

theorem path_le (addr : UInt64) : (path addr).length ≤ 3 := Nat.le_refl 3

theorem dir_ne_path (a b : UInt64) : dir a ≠ path b := fun h => absurd (congrArg List.length h) (by simp [dir, path])

theorem path_eq (addr : UInt64) : path addr = dir addr ++ [index 21 addr] := rfl

theorem next_eq_some :
    next e = some F ↔ (has e PAGE_FLAG_PRESENT = true ∧ has e PAGE_FLAG_HUGE = false) ∧ Frame.of e = F := by
  unfold next
  split_ifs with h <;> simp [h]

theorem next_eq_none : next e = none ↔ (has e PAGE_FLAG_PRESENT = true → has e PAGE_FLAG_HUGE = true) := by
  unfold next
  split_ifs with h
  · simp [h]
  · simpa using h

theorem walk_concat (h : t.walk p = some F) (i : Index) :
    t.walk (p ++ [i]) = next (t.get F i) := by
  unfold PageTables.walk at h ⊢
  rw [Radix.walk_concat, h]
  rfl

theorem walk_nil (t : PageTables) : t.walk [] = some t.root := rfl

theorem table_of_walk (hp : p.length ≤ 3) (h : t.walk p = some F) : t.Table F :=
  ⟨p, hp, h⟩

/-- The leaf under a directory entry. -/
def leafUnder (t : PageTables) (pde : UInt64) (i : Index) : Option Leaf :=
  if has pde PAGE_FLAG_PRESENT = false then none
  else if has pde PAGE_FLAG_HUGE = true then some (.large pde)
  else if has (t.get (Frame.of pde) i) PAGE_FLAG_PRESENT = false then none
  else some (.small (t.get (Frame.of pde) i))

theorem walk_pdpt (wf : WellFormed m) (h : has (m.tables.pml4e addr) PAGE_FLAG_PRESENT = true) :
    m.tables.walk [index 39 addr] = some (Frame.of (m.tables.pml4e addr)) := by
  have hwalk := walk_concat (walk_nil m.tables) (index 39 addr)
  rw [m.tables.pml4e_eq] at h ⊢
  have hhuge := wf.noGigabyte [] _ _ (by decide) (walk_nil _) h
  rw [List.nil_append, next_eq_some.2 ⟨⟨h, hhuge⟩, rfl⟩] at hwalk
  exact hwalk

theorem walk_dir (wf : WellFormed m) (h4 : has (m.tables.pml4e addr) PAGE_FLAG_PRESENT = true)
    (h3 : has (m.tables.pdpte addr) PAGE_FLAG_PRESENT = true) : m.tables.walk (dir addr) = some (Frame.of (m.tables.pdpte addr)) := by
  have hpdpt := walk_pdpt wf h4
  have hwalk := walk_concat hpdpt (index 30 addr)
  rw [m.tables.pdpte_eq] at h3 ⊢
  have hhuge := wf.noGigabyte _ _ _ le_rfl hpdpt h3
  rw [next_eq_some.2 ⟨⟨h3, hhuge⟩, rfl⟩] at hwalk
  exact hwalk

theorem walk_dir_none (wf : WellFormed m)
    (h : has (m.tables.pml4e addr) PAGE_FLAG_PRESENT = false ∨ has (m.tables.pdpte addr) PAGE_FLAG_PRESENT = false) :
    m.tables.walk (dir addr) = none := by
  have hnone {e : UInt64} (he : has e PAGE_FLAG_PRESENT = false) : next e = none :=
    next_eq_none.2 fun hp => by rw [he] at hp; cases hp
  by_cases h4 : has (m.tables.pml4e addr) PAGE_FLAG_PRESENT = true
  · rcases h with h | h
    · rw [h] at h4
      cases h4
    · have hwalk := walk_concat (walk_pdpt wf h4) (index 30 addr)
      rw [← m.tables.pdpte_eq, hnone h] at hwalk
      exact hwalk
  · have hfirst := hnone (by simpa using h4)
    rw [m.tables.pml4e_eq] at hfirst
    unfold PageTables.walk dir
    rw [Radix.walk_cons, hfirst]
    rfl

/-- The leaf is found along the tree. -/
theorem leaf_eq (wf : WellFormed m) (addr : UInt64) :
    leaf m.tables addr = (m.tables.walk (dir addr)).bind fun F => leafUnder m.tables (m.tables.get F (index 21 addr)) (index 12 addr) := by
  unfold leaf
  by_cases h4 : has (m.tables.pml4e addr) PAGE_FLAG_PRESENT = true
  · rw [if_neg (by simp [h4])]
    by_cases h3 : has (m.tables.pdpte addr) PAGE_FLAG_PRESENT = true
    · rw [if_neg (by simp [h3]), walk_dir wf h4 h3, Option.bind_some, ← m.tables.pde_eq]
      unfold leafUnder
      rw [← m.tables.pte_eq]
    · rw [if_pos (by simpa using h3), walk_dir_none wf (.inr (by simpa using h3))]
      rfl
  · rw [if_pos (by simpa using h4), walk_dir_none wf (.inl (by simpa using h4))]
    rfl

end Tg11Kernel.Memory
