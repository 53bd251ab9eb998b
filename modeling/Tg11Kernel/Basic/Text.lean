import Tg11Kernel.Lib.Exec
import Mathlib.Algebra.GroupWithZero.Nat
import Mathlib.Data.Fin.Basic

/-! The texts of the BASIC interpreter and the scanners that read them. A text is
the bytes of a C string before its NUL, so the byte at the end of a text reads as
0. A scanner takes a text and returns what it read and the text after it, or
`none` where the C function returns -1 and leaves the pointer. Numbers are 32-bit
and wrap. -/

namespace Tg11Kernel.Basic

abbrev Text := List UInt8

instance coeChar : Coe Char UInt8 := ⟨Char.toUInt8⟩

/-- A text written out. -/
def chars (s : String) : Text := s.toList.map Char.toUInt8

def BASIC_MAX_STRING_LEN : ℕ := 96

/-- `*s` -/
def peek (s : Text) : UInt8 := s.headD 0

/-- The bytes before a NUL. -/
def cString (s : Text) : Text := s.takeWhile (· ≠ 0)

/-! ### Characters -/

def isSpace (c : UInt8) : Bool := c = (' ' : UInt8) ∨ c = ('\t' : UInt8)

def isDigit (c : UInt8) : Bool := ('0' : UInt8) ≤ c ∧ c ≤ ('9' : UInt8)

def isAlpha (c : UInt8) : Bool := ('a' : UInt8) ≤ c ∧ c ≤ ('z' : UInt8) ∨ ('A' : UInt8) ≤ c ∧ c ≤ ('Z' : UInt8)

def up (c : UInt8) : UInt8 := if ('a' : UInt8) ≤ c ∧ c ≤ ('z' : UInt8) then c - ('a' : UInt8) + ('A' : UInt8) else c

def isIdentTail (c : UInt8) : Bool := isAlpha c || isDigit c || c = ('_' : UInt8)

/-- One of the 26 variables of each kind. -/
abbrev Letter := Fin 26

instance neZeroLetters : NeZero 26 := ⟨by decide⟩

/-- `b_up(c) - 'A'`; for a letter it is below 26, so the checks of the range never fail. -/
def letterOf (c : UInt8) : Letter := Fin.ofNat 26 (up c - ('A' : UInt8)).toNat

theorem forall_byte {Q : UInt8 → Prop} (h : ∀ i : Fin 256, Q (UInt8.ofFin i)) (c : UInt8) : Q c := by
  simpa using h c.toFin

/-! ### Words -/

def skipSpaces (s : Text) : Text := s.dropWhile isSpace

def startsWithCi : Text → Text → Bool
  | _, [] => true
  | s, p :: rest => up (peek s) = up p && startsWithCi s.tail rest

/-- The name, not followed by more of an identifier. -/
def nameMatchesCi (s name : Text) : Bool := startsWithCi s name && !isIdentTail (peek (s.drop name.length))

/-- The rest of an identifier. -/
def skipIdent (s : Text) : Text := s.dropWhile isIdentTail

/-! ### Numbers -/

/-- `v = v * 10 + (*s - '0')` along the digits -/
def digitsValue (digits : Text) : Int32 :=
  digits.foldl (fun v c => v * 10 + (c - ('0' : UInt8)).toUInt32.toInt32) 0

/-- The digits after a sign. -/
def parseDigits (sign : Int32) (s : Text) : Option (Int32 × Text) :=
  if isDigit (peek s) then some (digitsValue (s.takeWhile isDigit) * sign, s.dropWhile isDigit) else none

def parseInt (s : Text) : Option (Int32 × Text) :=
  let s := skipSpaces s
  if peek s = ('-' : UInt8) then parseDigits (-1) s.tail else parseDigits 1 s

def digitsFromText (sign : Int32) (p : Text) : Option Int32 :=
  let digits := p.takeWhile isDigit
  if digits = [] then none else some (digitsValue digits * sign)

/-- The number at the start of a text. -/
def parseIntFromText (s : Text) : Option Int32 :=
  let p := skipSpaces s
  if peek p = ('-' : UInt8) then digitsFromText (-1) p.tail else digitsFromText 1 p

/-- The digits of a number, the last one first, in a buffer of `room` bytes. -/
def revDigits : ℕ → UInt32 → Text
  | 0, _ => []
  | room + 1, u => if u = 0 then [] else (('0' : UInt8) + (u % 10).toUInt8) :: revDigits room (u / 10)

/-- The sign and the digits; `-v` wraps, so the magnitude is right for every number. -/
def numeral (room : ℕ) (v : Int32) : Text :=
  if v = 0 then [('0' : UInt8)]
  else if v < 0 then ('-' : UInt8) :: (revDigits room (-v).toUInt32).reverse
  else (revDigits room v.toUInt32).reverse

/-- The text has at most 11 bytes, so the output buffers of 16 and 96 bytes do not cut it. -/
def intToText (v : Int32) : Text := numeral 16 v

/-! ### Variables and literals -/

/-- A variable, whether it is a string variable, and the text after it. -/
def parseVarRef (s : Text) : Option (Letter × Bool × Text) :=
  let s := skipSpaces s
  if isAlpha (peek s) then
    let rest := skipIdent s.tail
    if peek rest = ('$' : UInt8) then some (letterOf (peek s), true, rest.tail)
    else some (letterOf (peek s), false, rest)
  else none

/-- The same scan, which refuses a string variable. -/
def parseVar (s : Text) : Option (Letter × Text) :=
  match parseVarRef s with
  | some (i, false, rest) => some (i, rest)
  | _ => none

/-- `b_copy_string` into a buffer of `room` bytes. -/
def copyString (room : ℕ) (s : Text) : Text := (cString s).take (room - 1)

def trimSpaces (s : Text) : Text := ((skipSpaces s).reverse.dropWhile isSpace).reverse

/-- A literal between quotes, copied to a buffer of `room` bytes. -/
def parseStringLiteral (room : ℕ) (s : Text) : Option (Text × Text) :=
  let s := skipSpaces s
  if peek s = ('"' : UInt8) then
    let rest := s.tail.dropWhile (· ≠ ('"' : UInt8))
    if peek rest = ('"' : UInt8) then some ((s.tail.takeWhile (· ≠ ('"' : UInt8))).take (room - 1), rest.tail) else none
  else none

end Tg11Kernel.Basic
