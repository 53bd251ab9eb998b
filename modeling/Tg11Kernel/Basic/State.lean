import Tg11Kernel.Basic.Text
import Tg11Kernel.Ramfs.Tree

/-! The state of the BASIC interpreter: the variables, the arrays, the functions that
`DEF FN` stored, the file channels, the stacks of the statements and what the
interpreter shares with the rest of the kernel, the RAM file system and the console.
A history is kept beside it, of the function calls and of the divisions; no
statement reads it. -/

namespace Tg11Kernel.Basic

open Lib

def BASIC_MAX_LINES : ℕ := 256
def BASIC_MAX_STEPS : ℕ := 20000
def BASIC_MAX_CALL_DEPTH : ℕ := 32
def BASIC_MAX_FOR_DEPTH : ℕ := 16
def BASIC_MAX_WHILE_DEPTH : ℕ := 16
def BASIC_ARRAY_MAX : ℕ := 128
def BASIC_MAX_DEF_FN : ℕ := 16
def BASIC_MAX_FILES : ℕ := 4
def BASIC_FILE_BUF : ℕ := 8192

/-- `struct basic_line`; a line without a label has the label -1. -/
structure Line where
  label : Int32
  text : Text

/-- `struct basic_for_frame` -/
structure ForFrame where
  varIdx : Letter
  endValue : Int32
  stepValue : Int32
  bodyPc : ℕ

/-- `char body[128]` -/
abbrev Body := { body : Text // body.length < 128 }

/-- `struct basic_def_fn` -/
structure DefFn where
  fnLetter : Letter
  paramVar : Letter
  body : Body

inductive FileMode where
  | input
  | output
  | append
  deriving DecidableEq

/-- A channel number less one. -/
abbrev Chan := Fin BASIC_MAX_FILES

/-- `struct basic_file_chan`; `buf` holds the first `buf_len` bytes. -/
structure FileChan where
  active : Bool
  mode : FileMode
  path : Text
  buf : Text
  bufPos : ℕ

/-- What reaches the screen. -/
inductive Output where
  | write (text : Text)
  | clear
  deriving DecidableEq

/-- A call of a function, and the functions whose bodies were being evaluated then. -/
structure FnCall where
  fn : Letter
  active : List Letter
  deriving DecidableEq

/-- The operands of a division or a remainder. -/
structure Division where
  dividend : Int32
  divisor : Int32
  deriving DecidableEq

/-- What has been evaluated: `active` are the functions whose bodies are being evaluated
now, `calls` all calls so far, `attempts` the operands of all division operators so far
and `divisions` those that the machine was told to divide. -/
structure History where
  active : List Letter
  calls : List FnCall
  attempts : List Division
  divisions : List Division

def History.attempt (h : History) (d : Division) : History := { h with attempts := d :: h.attempts }

def History.divide (h : History) (d : Division) : History := { h with divisions := d :: h.divisions }

def History.enter (h : History) (fn : Letter) : History :=
  { h with active := fn :: h.active, calls := ⟨fn, h.active⟩ :: h.calls }

def History.leave (h : History) : History := { h with active := h.active.tail }

/-- The local variables of `basic_run`, the static variables, and the kernel around them.
`input` is what the console gives to each call of `terminal_read_line`. -/
structure Interp where
  vars : Letter → Int32
  strVars : Letter → Text
  arrays : Letter → ℕ → Int32
  arraySizes : Letter → ℕ
  randState : UInt32
  defFns : List DefFn
  files : Chan → FileChan
  fs : Ramfs.Fs
  output : List Output
  input : ℕ → Option Text
  linesRead : ℕ
  pc : ℕ
  callStack : List ℕ
  forStack : List ForFrame
  whileStack : List ℕ
  dataLine : ℕ
  dataOffset : ℕ
  errFlag : Bool
  history : History

/-- Interpreter code: `fail` is a return of -1, or at a statement the way to the cleanup
after an error. A division that traps does not come back: it hangs. -/
abbrev M := Exec Interp

def setVar (i : Letter) (v : Int32) : M Unit := Exec.modify fun s => { s with vars := Function.update s.vars i v }

def setStrVar (i : Letter) (t : Text) : M Unit := Exec.modify fun s => { s with strVars := Function.update s.strVars i t }

def setFile (c : Chan) (f : FileChan → FileChan) : M Unit :=
  Exec.modify fun s => { s with files := Function.update s.files c (f (s.files c)) }

def terminalWrite (t : Text) : M Unit := Exec.modify fun s => { s with output := s.output ++ [.write t] }

def terminalWriteLine (t : Text) : M Unit := terminalWrite (t ++ [('\n' : UInt8)])

def screenClear : M Unit := Exec.modify fun s => { s with output := s.output ++ [.clear] }

/-- The next line that is typed, in a buffer of 96 bytes. -/
def terminalReadLine : M Text := do
  let n ← Exec.gets Interp.linesRead
  Exec.modify fun s => { s with linesRead := n + 1 }
  let input ← Exec.gets Interp.input
  let line ← Exec.ofOption (input n)
  pure (copyString BASIC_MAX_STRING_LEN line)

/-- A file system operation. -/
def onRamfs {α : Type} (m : Ramfs.M α) : M α := fun s =>
  let r := m s.fs
  (r.1, { s with fs := r.2 })

/-! ### Divisions -/

def Division.Traps (d : Division) : Prop := d.dividend = Int32.minValue ∧ d.divisor = -1

instance (d : Division) : Decidable d.Traps := inferInstanceAs (Decidable (_ ∧ _))

def logAttempt (d : Division) : M Unit :=
  Exec.modify fun s => { s with history := s.history.attempt d }

/-- The divide instruction: it raises an exception on the pair whose quotient does not fit. -/
def machineDivide (op : Int32 → Int32 → Int32) (d : Division) : M Int32 := do
  Exec.modify fun s => { s with history := s.history.divide d }
  if d.Traps then Exec.hang else pure (op d.dividend d.divisor)

/-- `if (rhs == 0) return -1; lhs /= rhs;`, and the same with `%=` -/
def divide (op : Int32 → Int32 → Int32) (lhs rhs : Int32) : M Int32 := do
  logAttempt ⟨lhs, rhs⟩
  Exec.require (rhs ≠ 0)
  machineDivide op ⟨lhs, rhs⟩

end Tg11Kernel.Basic
