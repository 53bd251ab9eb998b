import Tg11Kernel.Shell.Prompt
import Tg11Kernel.Shell.Autorun

/-! Integer arithmetic in the shell, for `$((...))` and for `calc`. The numbers have 64 bits and
wrap. A division by zero gives 0; the least number divided by -1 is a trap, and the machine
does not come back. -/

namespace Tg11Kernel.Shell

open Lib
open Line (isDigit)
open Autorun (uintToDec)

/-- `*p` -/
def peek (p : Text) : UInt8 := p.headD 0

/-- `while (*p == ' ') p++` -/
def skipBlanks (p : Text) : Text := p.dropWhile (· = (' ' : UInt8))

def isLetter (c : UInt8) : Bool := ('a' : UInt8) ≤ c ∧ c ≤ ('z' : UInt8) ∨ ('A' : UInt8) ≤ c ∧ c ≤ ('Z' : UInt8)

/-- A byte of the name of a variable. -/
def isNameByte (c : UInt8) : Bool := isLetter c || isDigit c || c = ('_' : UInt8)

/-- The size of `char vname[16]` without its NUL. -/
def NAME_MAX : ℕ := 15

/-- The value of a variable, if it is set. -/
def Table.value (t : Table) (name : Text) : Option Text := (t.find name).map fun i => (t.values i).text

/-! ### Evaluation -/

/-- `val = val * 10 + (*p - '0')` along the digits -/
def digitsValue (digits : Text) : Int64 := digits.foldl (fun val c => val * 10 + (c.toUInt64.toInt64 - 48)) 0

/-- The number that the value of a variable begins with. -/
def valueNumber (sv : Text) : Int64 :=
  if peek sv = ('-' : UInt8) then -digitsValue (sv.tail.takeWhile isDigit) else digitsValue (sv.takeWhile isDigit)

/-- A value and the text behind it, or `none` where the evaluation does not come back. -/
abbrev Reading := Option (Int64 × Text)

/-- `val / d` and `val % d`; the divide instruction traps where the quotient does not fit. -/
def machineDivide (op : Int64 → Int64 → Int64) (val d : Int64) : Option Int64 :=
  if d = 0 then some 0 else if val = Int64.minValue ∧ d = -1 then none else some (op val d)

section Arith

variable (t : Table)

/-- `eval_arith_factor`, with the evaluation of an expression in parentheses. -/
def evalArithFactor (inner : Text → Reading) (p : Text) : Reading := do
  let p := skipBlanks p
  let neg := peek p = ('-' : UInt8)
  let p := if peek p = ('-' : UInt8) ∨ peek p = ('+' : UInt8) then skipBlanks p.tail else p
  let (val, p) ← (if peek p = ('(' : UInt8) then do
      let (val, p) ← inner p.tail
      let p := skipBlanks p
      some (val, if peek p = (')' : UInt8) then p.tail else p)
    else if isDigit (peek p) then some (digitsValue (p.takeWhile isDigit), p.dropWhile isDigit)
    else if isLetter (peek p) ∨ peek p = ('_' : UInt8) then
      let name := (p.takeWhile isNameByte).take NAME_MAX
      some (((t.value name).map valueNumber).getD 0, p.drop name.length)
    else some (0, p))
  some (if neg then -val else val, p)

/-- The loop of `eval_arith_term`. -/
def termLoop (factor : Text → Reading) : ℕ → Int64 → Text → Reading
  | 0, _, _ => none
  | k + 1, val, p =>
    let p := skipBlanks p
    if peek p = ('*' : UInt8) then do
      let (d, p) ← factor p.tail
      termLoop factor k (val * d) p
    else if peek p = ('/' : UInt8) then do
      let (d, p) ← factor p.tail
      let val ← machineDivide (· / ·) val d
      termLoop factor k val p
    else if peek p = ('%' : UInt8) then do
      let (d, p) ← factor p.tail
      let val ← machineDivide (· % ·) val d
      termLoop factor k val p
    else some (val, p)

def evalArithTerm (factor : Text → Reading) (k : ℕ) (p : Text) : Reading := do
  let (val, p) ← factor p
  termLoop factor k val p

/-- The loop of `eval_arith_expr_inner`. -/
def exprLoop (term : Text → Reading) : ℕ → Int64 → Text → Reading
  | 0, _, _ => none
  | k + 1, val, p =>
    let p := skipBlanks p
    if peek p = ('+' : UInt8) then do
      let (d, p) ← term p.tail
      exprLoop term k (val + d) p
    else if peek p = ('-' : UInt8) then do
      let (d, p) ← term p.tail
      exprLoop term k (val - d) p
    else some (val, p)

/-- `eval_arith_expr_inner`; `n` bounds how deep the parentheses nest and how long the loops are. -/
def evalArithExprInner : ℕ → Text → Reading
  | 0, _ => none
  | n + 1, p => do
    let term := evalArithTerm (evalArithFactor t (evalArithExprInner n)) n
    let (val, p) ← term p
    exprLoop term n val p

/-- The expression is in a text of `p.length` bytes. -/
def evalArith (p : Text) : Option Int64 := (evalArithExprInner t (p.length + 1) p).map Prod.fst

end Arith

/-! ### Printing -/

/-- `while (v > 0) { tmp[ti++] = '0' + v % 10; v /= 10; }`, in a buffer of `room` bytes -/
def lowDigits : ℕ → ℕ → Text
  | 0, _ => []
  | room + 1, v => if v = 0 then [] else (('0' : UInt8) + UInt8.ofNat (v % 10)) :: lowDigits room (v / 10)

/-- The digits of a number whose sign is written; nothing where it is still negative. -/
def magnitudeText (room : ℕ) (v : ℤ) : Text := if v = 0 then [('0' : UInt8)] else (lowDigits room v.toNat).reverse

/-- `eval_arithmetic` -/
def evalArithmetic (t : Table) (expr : Text) : Option Text :=
  (evalArith t expr).map fun val =>
    if val < 0 then ('-' : UInt8) :: magnitudeText 24 (-val).toInt else magnitudeText 24 val.toInt

/-- The decimal text of a number. -/
def decimalText (z : ℤ) : Text := if z < 0 then ('-' : UInt8) :: uintToDec z.natAbs else uintToDec z.natAbs

theorem uintToDec_eq (n : ℕ) :
    uintToDec n = if n < 10 then [('0' : UInt8) + UInt8.ofNat n] else uintToDec (n / 10) ++ [('0' : UInt8) + UInt8.ofNat (n % 10)] := by
  have hdigit : ∀ d : Fin 10, (Nat.digitChar d).toNat.toUInt8 = '0' + UInt8.ofNat d := by decide
  unfold uintToDec
  rw [Nat.toDigits_eq_if (by decide)]
  split_ifs with hn
  · exact congrArg (fun c => [c]) (hdigit ⟨n, hn⟩)
  · rw [List.map_append, List.map_singleton, hdigit ⟨n % 10, Nat.mod_lt _ (by decide)⟩]

theorem lowDigits_reverse {room v : ℕ} (hpos : 0 < v) (hroom : v < 10 ^ room) : (lowDigits room v).reverse = uintToDec v := by
  induction room generalizing v with
  | zero => omega
  | succ room ih =>
    rw [lowDigits, if_neg (by omega), List.reverse_cons, uintToDec_eq]
    split_ifs with hv
    · rw [Nat.div_eq_of_lt hv, Nat.mod_eq_of_lt hv]
      have hnone : lowDigits room 0 = [] := by cases room <;> rfl
      rw [hnone]
      rfl
    · rw [ih (by omega) (by rw [Nat.pow_succ] at hroom; omega)]

theorem magnitudeText_eq {room : ℕ} {v : ℤ} (hnonneg : 0 ≤ v) (hroom : v.toNat < 10 ^ room) :
    magnitudeText room v = uintToDec v.toNat := by
  unfold magnitudeText
  split_ifs with hzero
  · rw [hzero]
    rfl
  · exact lowDigits_reverse (by omega) hroom

end Tg11Kernel.Shell
