import Tg11Kernel.Lib.Bytes
import Mathlib.Algebra.GroupWithZero.Nat

/-! The variables of the shell scripts: a table of eight names and values in fixed
blocks, its two writers, and the prompt that one of the variables mirrors. A text is
the bytes of a C string before its NUL. -/

namespace Tg11Kernel.Shell

open Lib

def SCRIPT_VAR_MAX : ℕ := 8

instance : NeZero SCRIPT_VAR_MAX := ⟨by decide⟩

abbrev Text := List UInt8

/-- A text written out. -/
def chars (s : String) : Text := s.toList.map Char.toUInt8

/-- `script_var_count`, `script_var_names` and `script_var_values`. -/
structure Table where
  count : ℤ
  names : Fin SCRIPT_VAR_MAX → Block 16
  values : Fin SCRIPT_VAR_MAX → Block 96

namespace Table

/-- The first slot below the count with the name. -/
def find (t : Table) (name : Text) : Option (Fin SCRIPT_VAR_MAX) :=
  (List.finRange SCRIPT_VAR_MAX).find? fun i => (i.val : ℤ) < t.count ∧ (t.names i).text = name

/-- `slot = script_var_count++`, with its name. The count is never below zero but after a
restore from locals that nothing wrote. -/
def add (t : Table) (name : Text) : Option (Table × Fin SCRIPT_VAR_MAX) :=
  if h : 0 ≤ t.count ∧ t.count < SCRIPT_VAR_MAX then
    let slot : Fin SCRIPT_VAR_MAX := ⟨t.count.toNat, by omega⟩
    some ({ t with
      count := t.count + 1
      names := Function.update t.names slot ((t.names slot).copyText name) }, slot)
  else none

/-- The table that `script_set_var` leaves, or `none` where it returns early. -/
def setVar (t : Table) (name value : Text) : Option Table :=
  if name = [] then none
  else
    let found := match t.find name with
      | some slot => some (t, slot)
      | none => t.add name
    found.map fun (t, slot) => { t with values := Function.update t.values slot ((t.values slot).copyText value) }

/-- Move the entries after `i` one slot down. -/
def closeGap {β : Type} (i : Fin SCRIPT_VAR_MAX) (count : ℤ) (entries : Fin SCRIPT_VAR_MAX → β) :
    Fin SCRIPT_VAR_MAX → β := fun j =>
  if i ≤ j ∧ (j.val : ℤ) + 1 < count then entries (j + 1) else entries j

/-- The table that `cmd_unset` leaves, or `none` where the name is not found. -/
def unset (t : Table) (name : Text) : Option Table :=
  if name = [] then none
  else (t.find name).map fun i =>
    { count := t.count - 1
      names := closeGap i t.count t.names
      values := closeGap i t.count t.values }

/-- The table after an assignment, which may have been refused. -/
def assign (t : Table) (name value : Text) : Table := (t.setVar name value).getD t

def drop (t : Table) (name : Text) : Table := (t.unset name).getD t

/-- The count is in bounds and every entry below it is a C string. -/
structure Valid (t : Table) : Prop where
  nonneg : 0 ≤ t.count
  bounded : t.count ≤ SCRIPT_VAR_MAX
  names : ∀ i : Fin SCRIPT_VAR_MAX, (i.val : ℤ) < t.count → (t.names i).Terminated
  values : ∀ i : Fin SCRIPT_VAR_MAX, (i.val : ℤ) < t.count → (t.values i).Terminated

variable {t u : Table}

variable {name : Text} {i : Fin SCRIPT_VAR_MAX}

theorem find_lt (h : t.find name = some i) : (i.val : ℤ) < t.count := by
  have hpass := List.find?_some h
  simp only [decide_eq_true_eq] at hpass
  exact hpass.1

theorem Valid.add {slot : Fin SCRIPT_VAR_MAX} (h : t.Valid) (hadd : t.add name = some (u, slot)) :
    u.count = t.count + 1 ∧ (slot.val : ℤ) = t.count ∧ u.count ≤ SCRIPT_VAR_MAX ∧ u.values = t.values ∧
      ∀ i : Fin SCRIPT_VAR_MAX, (i.val : ℤ) < u.count → (u.names i).Terminated := by
  unfold Table.add at hadd
  split_ifs at hadd with hroom
  obtain ⟨rfl, rfl⟩ := Prod.mk.inj (Option.some.inj hadd)
  have hslot : ((t.count.toNat : ℕ) : ℤ) = t.count := Int.toNat_of_nonneg hroom.1
  have hlt : t.count.toNat < SCRIPT_VAR_MAX := by omega
  refine ⟨rfl, hslot, hroom.2, rfl, fun i hi => ?_⟩
  dsimp only at hi ⊢
  rcases eq_or_ne i ⟨t.count.toNat, hlt⟩ with rfl | hne
  · rw [Function.update_self]
    exact Block.terminated_copyText _ _ (by decide)
  · rw [Function.update_of_ne hne]
    have hi' : i.val ≠ t.count.toNat := fun heq => hne (Fin.ext heq)
    exact h.names i (by omega)

theorem Valid.setVar {value : Text} (h : t.Valid) (hset : t.setVar name value = some u) : u.Valid := by
  unfold Table.setVar at hset
  split_ifs at hset with hname
  rcases hfind : t.find name with _ | slot
  · rw [hfind] at hset
    obtain ⟨⟨v, slot⟩, hadd, rfl⟩ := Option.map_eq_some_iff.1 hset
    obtain ⟨hcount, hslot, hbound, hvalues, hnames⟩ := h.add hadd
    have hnonneg := h.nonneg
    refine ⟨by dsimp only; omega, hbound, hnames, fun i hi => ?_⟩
    dsimp only at hi ⊢
    rcases eq_or_ne i slot with rfl | hne
    · rw [Function.update_self]
      exact Block.terminated_copyText _ _ (by decide)
    · rw [Function.update_of_ne hne, hvalues]
      have hi' : i.val ≠ slot.val := fun heq => hne (Fin.ext heq)
      exact h.values i (by omega)
  · rw [hfind] at hset
    obtain rfl : _ = u := Option.some.inj hset
    refine ⟨h.nonneg, h.bounded, h.names, fun i hi => ?_⟩
    dsimp only at hi ⊢
    rcases eq_or_ne i slot with rfl | hne
    · rw [Function.update_self]
      exact Block.terminated_copyText _ _ (by decide)
    · rw [Function.update_of_ne hne]
      exact h.values i hi

theorem closeGap_terminated {n : ℕ} {count : ℤ} {entries : Fin SCRIPT_VAR_MAX → Block n}
    (hcount : count ≤ SCRIPT_VAR_MAX) (h : ∀ j : Fin SCRIPT_VAR_MAX, (j.val : ℤ) < count → (entries j).Terminated)
    (j : Fin SCRIPT_VAR_MAX) (hj : (j.val : ℤ) < count - 1) : (closeGap i count entries j).Terminated := by
  unfold closeGap
  split_ifs with hmove
  · have hroom : j.val + 1 < SCRIPT_VAR_MAX := by omega
    have hnext : (j + 1).val = j.val + 1 := Fin.val_add_one_of_lt' hroom
    apply h
    omega
  · apply h
    omega

theorem Valid.unset (h : t.Valid) (hunset : t.unset name = some u) : u.Valid := by
  unfold Table.unset at hunset
  split_ifs at hunset with hname
  obtain ⟨i, hfind, rfl⟩ := Option.map_eq_some_iff.1 hunset
  have hi := find_lt hfind
  have hbound := h.bounded
  refine ⟨by dsimp only; omega, by dsimp only; omega, fun j hj => ?_, fun j hj => ?_⟩
  · exact closeGap_terminated h.bounded h.names j hj
  · exact closeGap_terminated h.bounded h.values j hj

theorem Valid.assign (h : t.Valid) (name value : Text) : (t.assign name value).Valid := by
  unfold Table.assign
  rcases hset : t.setVar name value with _ | u
  · exact h
  · exact h.setVar hset

theorem Valid.drop (h : t.Valid) (name : Text) : (t.drop name).Valid := by
  unfold Table.drop
  rcases hunset : t.unset name with _ | u
  · exact h
  · exact h.unset hunset

end Table

/-- What the shell's script commands read and write. -/
structure Shell where
  table : Table
  ps1Buf : Block 64
  runSourceMode : Bool
  scriptDepth : ℕ

/-- Before the first command. -/
def booted : Shell where
  table := { count := 0, names := fun _ => .zero, values := fun _ => .zero }
  ps1Buf := Block.zero.copyText (chars "> ")
  runSourceMode := false
  scriptDepth := 0

def scriptSetVar (name value : Text) (s : Shell) : Shell :=
  match s.table.setVar name value with
  | none => s
  | some table =>
    { s with
      table
      ps1Buf := if name = chars "PS1" then s.ps1Buf.copyText value else s.ps1Buf }

def cmdUnset (name : Text) (s : Shell) : Shell :=
  match s.table.unset name with
  | none => s
  | some table =>
    { s with
      table
      ps1Buf := if name = chars "PS1" then s.ps1Buf.copyText (chars "> ") else s.ps1Buf }

section Fields

variable (name value : Text) (s : Shell)

@[simp] theorem scriptSetVar_table : (scriptSetVar name value s).table = s.table.assign name value := by
  unfold scriptSetVar Table.assign
  cases s.table.setVar name value <;> rfl

@[simp] theorem scriptSetVar_runSourceMode : (scriptSetVar name value s).runSourceMode = s.runSourceMode := by
  unfold scriptSetVar
  cases s.table.setVar name value <;> rfl

@[simp] theorem scriptSetVar_scriptDepth : (scriptSetVar name value s).scriptDepth = s.scriptDepth := by
  unfold scriptSetVar
  cases s.table.setVar name value <;> rfl

@[simp] theorem cmdUnset_table : (cmdUnset name s).table = s.table.drop name := by
  unfold cmdUnset Table.drop
  cases s.table.unset name <;> rfl

@[simp] theorem cmdUnset_runSourceMode : (cmdUnset name s).runSourceMode = s.runSourceMode := by
  unfold cmdUnset
  cases s.table.unset name <;> rfl

@[simp] theorem cmdUnset_scriptDepth : (cmdUnset name s).scriptDepth = s.scriptDepth := by
  unfold cmdUnset
  cases s.table.unset name <;> rfl

end Fields

theorem booted_valid : booted.table.Valid := by
  refine ⟨le_refl 0, by decide, fun i hi => ?_, fun i hi => ?_⟩
  · exact absurd hi (by simp [booted])
  · exact absurd hi (by simp [booted])

end Tg11Kernel.Shell
