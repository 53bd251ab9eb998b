import Tg11Kernel.Shell.Arithmetic

/-! The expansion of a command line. `Piece` is a form of the line or a byte that is copied, and
`Reads` says how a line is read as pieces; each piece stands for a text. The scanner writes
these texts one after the other into a buffer, with names cut to 15 bytes and default texts
to 63. -/

namespace Tg11Kernel.Shell

open Lib Exec
open Autorun (uintToDec)

/-! ### The scanner -/

/-- Code that writes into `out`; the state is what has been written. -/
abbrev Writer := Exec Text

/-- `if (o + 1 >= out_size) return -1; out[o++] = c;` along a text -/
def emit (size : ℕ) : Text → Writer Unit
  | [] => pure ()
  | c :: text => do
    let out ← Exec.gets id
    Exec.require (out.length + 1 < size)
    Exec.modify (· ++ [c])
    emit size text

def nameBytes (s : Text) : Text := s.takeWhile isNameByte

/-- What `$?` writes. -/
def exitText (code : Int32) : Text :=
  if code < 0 then ('-' : UInt8) :: magnitudeText 16 (-code).toInt else magnitudeText 16 code.toInt

/-- `char def[64]` -/
def DEFAULT_MAX : ℕ := 63

/-- The value of a variable, or the empty text. -/
def Table.valueText (t : Table) (name : Text) : Text := (t.value name).getD []

section Scan

-- `command` is `execute_substitution_command`: it runs a command and returns what that printed
variable (command : Text → Option Text) (t : Table) (code : Int32) (size : ℕ)

/-- The form behind `${`; the text that is left. -/
def expandBraces (s : Text) : Writer Text := do
  let isLen := peek s = ('#' : UInt8)
  let s := if isLen then s.tail else s
  let val := t.valueText ((nameBytes s).take NAME_MAX)
  let s := s.dropWhile isNameByte
  if isLen then
    Exec.require (peek s = ('}' : UInt8))
    emit size (uintToDec val.length)
    pure s.tail
  else if peek s = (':' : UInt8) ∧ peek s.tail = ('-' : UInt8) then
    let text := (s.drop 2).takeWhile (· ≠ ('}' : UInt8))
    let s := (s.drop 2).dropWhile (· ≠ ('}' : UInt8))
    Exec.require (peek s = ('}' : UInt8))
    emit size (if val ≠ [] then val else text.take DEFAULT_MAX)
    pure s.tail
  else
    Exec.require (peek s = ('}' : UInt8))
    emit size val
    pure s.tail

/-- Where the bracket counter ends: the bytes inside and what is left behind the last `))`. -/
def innerOf : ℕ → ℕ → Text → Option (Text × Text)
  | _, _, [] => none
  | room, depth, c :: s =>
    let depth := if c = ('(' : UInt8) ∧ peek s = ('(' : UInt8) then depth + 1 else depth
    if c = (')' : UInt8) ∧ peek s = (')' : UInt8) ∧ depth = 1 then some ([], s.tail)
    else
      let depth := if c = (')' : UInt8) ∧ peek s = (')' : UInt8) then depth - 1 else depth
      match room with
      | 0 => none
      | room + 1 => (innerOf room depth s).map fun (inner, rest) => (c :: inner, rest)

/-- The form behind `$((`. -/
def expandArithmetic (s : Text) : Writer Text := do
  let (inner, s) ← Exec.ofOption (innerOf 127 1 s)
  match evalArithmetic t inner with
  | none => Exec.hang
  | some value => do
    emit size value
    pure s

/-- The form behind `$(`. -/
def expandCommand (s : Text) : Writer Text := do
  let inner := s.takeWhile (· ≠ (')' : UInt8))
  Exec.require (inner.length < 128)
  let s := s.dropWhile (· ≠ (')' : UInt8))
  Exec.require (peek s = (')' : UInt8))
  let value ← Exec.ofOption (command inner)
  emit size value
  pure s.tail

/-- A `~` in front of a path, at the start of a word. -/
def isTilde (front s : Text) : Bool :=
  peek s = ('~' : UInt8) ∧ (peek s.tail = ('/' : UInt8) ∨ s.tail = [] ∨ peek s.tail = (' ' : UInt8)) ∧
    (front = [] ∨ front.getLast? = some (' ' : UInt8) ∨ front.getLast? = some ('=' : UInt8))

/-- One round of the loop behind the bytes `front`; the text that is left. -/
def expandAt (front s : Text) : Writer Text :=
  if peek s = ('$' : UInt8) ∧ peek s.tail = ('?' : UInt8) then do
    emit size (exitText code)
    pure (s.drop 2)
  else if peek s = ('$' : UInt8) ∧ peek s.tail = ('{' : UInt8) then expandBraces t size (s.drop 2)
  else if peek s = ('$' : UInt8) ∧ nameBytes s.tail ≠ [] then do
    emit size (t.valueText ((nameBytes s.tail).take NAME_MAX))
    pure (s.tail.dropWhile isNameByte)
  else if peek s = ('$' : UInt8) ∧ peek s.tail = ('(' : UInt8) ∧ peek (s.drop 2) = ('(' : UInt8) then expandArithmetic t size (s.drop 3)
  else if peek s = ('$' : UInt8) ∧ peek s.tail = ('(' : UInt8) then expandCommand command size (s.drop 2)
  else if isTilde front s then do
    emit size [('/' : UInt8)]
    pure s.tail
  else do
    emit size [peek s]
    pure s.tail

/-- `while (in[i] != '\0')`; `i` is how much of the line is not left. -/
def expandLoop (line : Text) : ℕ → Text → Writer Unit
  | 0, _ => Exec.hang
  | k + 1, s =>
    if s = [] then pure ()
    else do
      let s ← expandAt command t code size (line.take (line.length - s.length)) s
      expandLoop line k s

/-- `expand_command_substitutions`; every round takes a byte of the line. -/
def expandCommandSubstitutions (line : Text) : Writer Unit := do
  Exec.require (size ≠ 0)
  expandLoop command t code size line (line.length + 1) line

end Scan

/-! ### The forms -/

/-- A form, or a byte that is copied. -/
inductive Piece where
  | exitCode
  | value (name : Text)
  | braced (name : Text)
  | length (name : Text)
  | orElse (name text : Text)
  | tilde
  | byte (c : UInt8)

namespace Piece

/-- How a piece is written. -/
def text : Piece → Text
  | exitCode => chars "$?"
  | value name => ('$' : UInt8) :: name
  | braced name => chars "$\x7b" ++ (name ++ chars "\x7d")
  | length name => chars "$\x7b#" ++ (name ++ chars "\x7d")
  | orElse name text => chars "$\x7b" ++ (name ++ (chars ":-" ++ (text ++ chars "\x7d")))
  | tilde => [('~' : UInt8)]
  | byte c => [c]

/-- The piece is read between these texts: the longest name is taken, and a byte is no part of
a form. -/
def Stands (front rest : Text) : Piece → Prop
  | exitCode => True
  | value name => name ≠ [] ∧ (∀ c ∈ name, isNameByte c = true) ∧ isNameByte (peek rest) = false
  | braced name => ∀ c ∈ name, isNameByte c = true
  | length name => ∀ c ∈ name, isNameByte c = true
  | orElse name text => (∀ c ∈ name, isNameByte c = true) ∧ ∀ c ∈ text, c ≠ ('}' : UInt8)
  | tilde => isTilde front (('~' : UInt8) :: rest) = true
  | byte c => (c = ('$' : UInt8) → peek rest ≠ ('?' : UInt8) ∧ peek rest ≠ ('{' : UInt8) ∧ peek rest ≠ ('(' : UInt8) ∧
      isNameByte (peek rest) = false) ∧ (c = ('~' : UInt8) → isTilde front (c :: rest) = false)

/-- What a piece stands for. -/
def meaning (t : Table) (code : Int32) : Piece → Text
  | exitCode => decimalText code.toInt
  | value name => t.valueText name
  | braced name => t.valueText name
  | length name => uintToDec (t.valueText name).length
  | orElse name text => if t.valueText name ≠ [] then t.valueText name else text
  | tilde => [('/' : UInt8)]
  | byte c => [c]

/-- What the scanner writes for it. -/
def written (t : Table) (code : Int32) : Piece → Text
  | exitCode => exitText code
  | value name => t.valueText (name.take NAME_MAX)
  | braced name => t.valueText (name.take NAME_MAX)
  | length name => uintToDec (t.valueText (name.take NAME_MAX)).length
  | orElse name text => if t.valueText (name.take NAME_MAX) ≠ [] then t.valueText (name.take NAME_MAX) else text.take DEFAULT_MAX
  | tilde => [('/' : UInt8)]
  | byte c => [c]

/-- Nothing of the piece is cut, and the exit code has a sign that can be taken off. -/
def Short (code : Int32) : Piece → Prop
  | exitCode => code ≠ Int32.minValue
  | value name => name.length ≤ NAME_MAX
  | braced name => name.length ≤ NAME_MAX
  | length name => name.length ≤ NAME_MAX
  | orElse name text => name.length ≤ NAME_MAX ∧ text.length ≤ DEFAULT_MAX
  | tilde => True
  | byte _ => True

end Piece

/-- The pieces that a line begins with, and the text that is left behind them. -/
inductive Reads (line : Text) : List Piece → Text → Prop
  | start : Reads line [] line
  | step {ps : List Piece} {piece : Piece} {rest : Text} (h : Reads line ps (piece.text ++ rest))
      (hp : piece.Stands (ps.flatMap Piece.text) rest) : Reads line (ps ++ [piece]) rest

/-- No command and no arithmetic is read in the line. -/
def NoSubstitution (line : Text) : Prop := ∀ ps rest, Reads line ps rest → ¬ chars "$(" <+: rest

/-- The expansion is right: it stays in its buffer, it returns 0 just where the line is made
of pieces and their meanings fit, and then they are what it wrote. -/
structure Expands (line : Text) (t : Table) (code : Int32) (size : ℕ) (r : Outcome Unit × Text) : Prop where
  bounded : r.1 = .ok () → r.2.length + 1 ≤ size
  bounded_fail : r.2.length ≤ size
  returns : r.1 ≠ .hang
  succeeds : r.1 = .ok () ↔ ∃ ps, Reads line ps [] ∧ (ps.flatMap (Piece.meaning t code)).length + 1 ≤ size
  output : ∀ ps, Reads line ps [] → r.1 = .ok () → r.2 = ps.flatMap (Piece.meaning t code)

/-- The expansion of the line is right with every table and every size of the buffer. -/
def ExpandsAlways (command : Text → Option Text) (line : Text) (code : Int32) : Prop :=
  ∀ t size, Expands line t code size (expandCommandSubstitutions command t code size line [])

/-- Nothing in the line is cut. -/
def Uncut (line : Text) (code : Int32) : Prop := ∀ ps, Reads line ps [] → ∀ piece ∈ ps, piece.Short code

end Tg11Kernel.Shell
