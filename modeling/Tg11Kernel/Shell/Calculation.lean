import Tg11Kernel.Shell.Forms

/-! Expressions, how they are written and what their values are. The evaluator, which descends
through factors, terms and sums, computes the value of every expression in which no sign stands
behind a sign, and does not come back from a division that traps. In a command line, a counter of
bracket pairs finds the end of an expression first. -/

namespace Tg11Kernel.Shell

open Lib Exec
open Line (isDigit)
open Autorun (uintToDec)

/-- The lines that `cmd_calc` prints. -/
def cmdCalc (t : Table) (args : Text) : Option (List Text) :=
  if args = [] then some [chars "Usage: calc <expression>", chars "  e.g. calc 2+3*4  calc (10-3)/2"]
  else (evalArith t args).map fun result =>
    if result < 0 then [('-' : UInt8) :: uintToDec (-result).toUInt64.toNat] else [uintToDec result.toUInt64.toNat]

/-! ### Expressions -/

inductive Sign where
  | plus
  | minus

def Sign.char : Sign → UInt8
  | plus => '+'
  | minus => '-'

inductive MulOp where
  | times
  | divide
  | modulo

namespace MulOp

def char : MulOp → UInt8
  | times => '*'
  | divide => '/'
  | modulo => '%'

def apply : MulOp → Int64 → Int64 → Int64
  | times, x, y => x * y
  | divide, x, y => if y = 0 then 0 else x / y
  | modulo, x, y => if y = 0 then 0 else x % y

/-- The machine divides, and cannot. -/
def Traps : MulOp → Int64 → Int64 → Prop
  | times, _, _ => False
  | divide, x, y => x = Int64.minValue ∧ y = -1
  | modulo, x, y => x = Int64.minValue ∧ y = -1

def step : MulOp → Int64 → Int64 → Option Int64
  | times, x, y => some (x * y)
  | divide, x, y => machineDivide (· / ·) x y
  | modulo, x, y => machineDivide (· % ·) x y

end MulOp

theorem Sign.char_ne_blank (s : Sign) : s.char ≠ (' ' : UInt8) := by cases s <;> decide

theorem Sign.char_not_name (s : Sign) : isNameByte s.char = false := by cases s <;> decide

theorem MulOp.char_ne_blank (op : MulOp) : op.char ≠ (' ' : UInt8) := by cases op <;> decide

theorem MulOp.char_not_name (op : MulOp) : isNameByte op.char = false := by cases op <;> decide

theorem Sign.char_ne (s : Sign) (op : MulOp) : s.char ≠ op.char := by cases s <;> cases op <;> decide

inductive Level where
  | factor
  | term
  | sum

/-- An expression at a level of precedence, with its blanks. -/
inductive Expression : Level → Type
  | num (digits : Text) : Expression .factor
  | var (name : Text) : Expression .factor
  | paren (e : Expression .sum) : Expression .factor
  | sign (s : Sign) (e : Expression .factor) : Expression .factor
  | lead (e : Expression .factor) : Expression .factor
  | single (e : Expression .factor) : Expression .term
  | mul (op : MulOp) (a : Expression .term) (b : Expression .factor) : Expression .term
  | trail (e : Expression .term) : Expression .term
  | chain (e : Expression .term) : Expression .sum
  | add (s : Sign) (a : Expression .sum) (b : Expression .term) : Expression .sum

/-- The number that digits write. -/
def decimalValue (digits : Text) : ℕ := digits.foldl (fun n c => n * 10 + (c - ('0' : UInt8)).toNat) 0

/-- The text writes an integer. -/
def IsInteger (text : Text) : Prop :=
  ∃ digits : Text, digits ≠ [] ∧ (∀ c ∈ digits, isDigit c = true) ∧ (text = digits ∨ text = ('-' : UInt8) :: digits)

def integerValue (text : Text) : ℤ := if peek text = ('-' : UInt8) then -(decimalValue text.tail : ℤ) else decimalValue text

namespace Expression

def text : {l : Level} → Expression l → Text
  | _, num digits => digits
  | _, var name => name
  | _, paren e => ('(' : UInt8) :: (e.text ++ [(')' : UInt8)])
  | _, sign s e => s.char :: e.text
  | _, lead e => (' ' : UInt8) :: e.text
  | _, single e => e.text
  | _, mul op a b => a.text ++ op.char :: b.text
  | _, trail e => e.text ++ [(' ' : UInt8)]
  | _, chain e => e.text
  | _, add s a b => a.text ++ s.char :: b.text

def signed : Sign → Int64 → Int64
  | .plus, x => x
  | .minus, x => -x

variable (t : Table)

/-- The value, in 64 bits. -/
def value : {l : Level} → Expression l → Int64
  | _, num digits => Int64.ofNat (decimalValue digits)
  | _, var name => Int64.ofInt (integerValue (t.valueText name))
  | _, paren e => e.value
  | _, sign s e => signed s e.value
  | _, lead e => e.value
  | _, single e => e.value
  | _, mul op a b => op.apply a.value b.value
  | _, trail e => e.value
  | _, chain e => e.value
  | _, add s a b => a.value + signed s b.value

/-- Literals are decimal, and the variables are set to integers. -/
def WellFormed : {l : Level} → Expression l → Prop
  | _, num digits => digits ≠ [] ∧ ∀ c ∈ digits, isDigit c = true
  | _, var name => (isLetter (peek name) = true ∨ peek name = ('_' : UInt8)) ∧ (∀ c ∈ name, isNameByte c = true) ∧
      ∃ text, t.value name = some text ∧ IsInteger text
  | _, paren e => e.WellFormed
  | _, sign _ e => e.WellFormed
  | _, lead e => e.WellFormed
  | _, single e => e.WellFormed
  | _, mul _ a b => a.WellFormed ∧ b.WellFormed
  | _, trail e => e.WellFormed
  | _, chain e => e.WellFormed
  | _, add _ a b => a.WellFormed ∧ b.WellFormed

/-- No division traps. -/
def Safe : {l : Level} → Expression l → Prop
  | _, num _ => True
  | _, var _ => True
  | _, paren e => e.Safe
  | _, sign _ e => e.Safe
  | _, lead e => e.Safe
  | _, single e => e.Safe
  | _, mul op a b => a.Safe ∧ b.Safe ∧ ¬ op.Traps (a.value t) (b.value t)
  | _, trail e => e.Safe
  | _, chain e => e.Safe
  | _, add _ a b => a.Safe ∧ b.Safe

/-- The value, if the machine gets there. -/
def run : {l : Level} → Expression l → Option Int64
  | _, num digits => some (Int64.ofNat (decimalValue digits))
  | _, var name => some (Int64.ofInt (integerValue (t.valueText name)))
  | _, paren e => e.run
  | _, sign s e => e.run.map (signed s)
  | _, lead e => e.run
  | _, single e => e.run
  | _, mul op a b => a.run.bind fun x => b.run.bind fun y => op.step x y
  | _, trail e => e.run
  | _, chain e => e.run
  | _, add s a b => a.run.bind fun x => b.run.map fun y => x + signed s y

/-- No sign in front. -/
def Unsigned : {l : Level} → Expression l → Prop
  | _, sign _ _ => False
  | _, lead e => e.Unsigned
  | _, _ => True

/-- No sign behind a sign. -/
def SingleSigned : {l : Level} → Expression l → Prop
  | _, num _ => True
  | _, var _ => True
  | _, paren e => e.SingleSigned
  | _, sign _ e => e.Unsigned ∧ e.SingleSigned
  | _, lead e => e.SingleSigned
  | _, single e => e.SingleSigned
  | _, mul _ a b => a.SingleSigned ∧ b.SingleSigned
  | _, trail e => e.SingleSigned
  | _, chain e => e.SingleSigned
  | _, add _ a b => a.SingleSigned ∧ b.SingleSigned

end Expression

/-- The bytes of a text, each with the next one. -/
def pairs (u : Text) : List (UInt8 × UInt8) := u.zip u.tail

def openPair : UInt8 × UInt8 := ('(', '(')
def closePair : UInt8 × UInt8 := (')', ')')

/-- With `d` brackets open, the pairs that close leave one open up to the end, and none but that one there. -/
def Balance (d : ℕ) (l : List (UInt8 × UInt8)) : Prop :=
  (∀ i, (l.take i).count closePair < d + (l.take i).count openPair) ∧ l.count closePair + 1 = d + l.count openPair

/-- Among the pairs of the text and a `)` behind it, those that close never outnumber those that open, and in the end they
are as many. -/
def Balanced (u : Text) : Prop :=
  (∀ i, ((pairs (u ++ [(')' : UInt8)])).take i).count closePair ≤ ((pairs (u ++ [(')' : UInt8)])).take i).count openPair) ∧
    (pairs (u ++ [(')' : UInt8)])).count closePair = (pairs (u ++ [(')' : UInt8)])).count openPair

/-- Wherever `$((e))` stands in a line, it is replaced by the decimal text of the value of `e`, nothing of it is left, and
`calc` prints the same text. -/
structure Computes (t : Table) (e : Expression .sum) : Prop where
  expands : ∀ (command : Text → Option Text) code size front rest,
    expandAt command t code size front (chars "$((" ++ (e.text ++ (chars "))" ++ rest))) =
      (emit size (decimalText (e.value t).toInt) >>= fun _ => pure rest)
  prints : cmdCalc t e.text = some [decimalText (e.value t).toInt]

section Scanning

variable {t : Table} {inner : Text → Reading} {factor term : Text → Reading} {p rest word digits text : Text} {c d : UInt8} {k : ℕ} {x : Int64}

/-! ### Words -/

theorem peek_append (hword : word ≠ []) (rest : Text) : peek (word ++ rest) = peek word := by
  cases word with
  | nil => exact absurd rfl hword
  | cons c word => rfl

theorem peek_mem (hword : word ≠ []) : peek word ∈ word := by
  cases word with
  | nil => exact absurd rfl hword
  | cons c word => exact List.mem_cons_self

theorem ne_of_false {f : UInt8 → Bool} (hc : f c = true) (hd : f d = false) : c ≠ d := by
  rintro rfl
  rw [hc] at hd
  exact nomatch hd

theorem not_digit (h : isNameByte c = false) : isDigit c = false := by
  unfold isNameByte at h
  simp only [Bool.or_eq_false_iff] at h
  exact h.1.2

theorem not_digit_of_first (h : isLetter c = true ∨ c = '_') : isDigit c = false := by
  rcases h with h | rfl
  · have hall : ∀ i : Fin 256, isLetter (UInt8.ofFin i) = true → isDigit (UInt8.ofFin i) = false := by decide +kernel
    exact hall c.toFin h
  · decide

/-! ### Numbers -/

theorem digitsValue_eq (h : ∀ c ∈ digits, isDigit c = true) : digitsValue digits = Int64.ofNat (decimalValue digits) := by
  have hdigit : ∀ i : Fin 256, isDigit (UInt8.ofFin i) = true →
      (UInt8.ofFin i).toUInt64.toInt64 - 48 = Int64.ofNat (UInt8.ofFin i - ('0' : UInt8)).toNat := by decide +kernel
  induction digits using List.reverseRecOn with
  | nil => rfl
  | append_singleton l c ih =>
    have hl : ∀ c ∈ l, isDigit c = true := fun c hc => h c (List.mem_append_left _ hc)
    have hc : c.toUInt64.toInt64 - 48 = Int64.ofNat (c - ('0' : UInt8)).toNat :=
      hdigit c.toFin (h c (List.mem_append_right _ (List.mem_singleton_self c)))
    have hvalue : decimalValue (l ++ [c]) = decimalValue l * 10 + (c - ('0' : UInt8)).toNat := by
      unfold decimalValue
      rw [List.foldl_append]
      rfl
    rw [hvalue, Int64.ofNat_add, Int64.ofNat_mul, ← ih hl, ← hc]
    unfold digitsValue
    rw [List.foldl_append]
    rfl

theorem valueNumber_eq (h : IsInteger text) : valueNumber text = Int64.ofInt (integerValue text) := by
  obtain ⟨digits, hne, hdigits, htext⟩ := h
  have hall : digits.takeWhile isDigit = digits := List.takeWhile_eq_self_iff.2 hdigits
  rcases htext with rfl | rfl
  · have hminus : ¬ peek text = '-' := ne_of_false (hdigits _ (peek_mem hne)) (by decide)
    rw [valueNumber, integerValue, if_neg hminus, if_neg hminus, hall, digitsValue_eq hdigits, Int64.ofInt_eq_ofNat]
  · have hminus : peek (('-' : UInt8) :: digits) = ('-' : UInt8) := rfl
    rw [valueNumber, integerValue, if_pos hminus, if_pos hminus, List.tail_cons, hall, digitsValue_eq hdigits, Int64.ofInt_neg,
      Int64.ofInt_eq_ofNat]

/-! ### Blanks -/

theorem skipBlanks_blank (p : Text) : skipBlanks ((' ' : UInt8) :: p) = skipBlanks p := List.dropWhile_cons_of_pos (by decide)

theorem skipBlanks_of_ne (h : peek p ≠ ' ') : skipBlanks p = p := by
  cases p with
  | nil => rfl
  | cons c p =>
    have hc : c ≠ ' ' := h
    exact List.dropWhile_cons_of_neg (by simpa using hc)

theorem skipBlanks_cons (h : c ≠ ' ') : skipBlanks (c :: p) = c :: p := skipBlanks_of_ne (show peek (c :: p) ≠ _ from h)

theorem peek_skipBlanks (p : Text) : peek (skipBlanks p) ≠ (' ' : UInt8) := by
  induction p with
  | nil => decide
  | cons c p ih =>
    by_cases hc : c = ' '
    · rw [hc, skipBlanks_blank]
      exact ih
    · rw [skipBlanks_cons hc]
      exact hc

theorem skipBlanks_skipBlanks (p : Text) : skipBlanks (skipBlanks p) = skipBlanks p := skipBlanks_of_ne (peek_skipBlanks p)

/-! ### Factors -/

/-- A factor behind its sign. -/
def atom (t : Table) (inner : Text → Reading) (p : Text) : Reading :=
  if peek p = ('(' : UInt8) then
    (inner p.tail).map fun x => (x.1, if peek (skipBlanks x.2) = (')' : UInt8) then (skipBlanks x.2).tail else skipBlanks x.2)
  else if isDigit (peek p) then some (digitsValue (p.takeWhile isDigit), p.dropWhile isDigit)
  else if isLetter (peek p) ∨ peek p = ('_' : UInt8) then
    some (((t.value ((p.takeWhile isNameByte).take NAME_MAX)).map valueNumber).getD 0, p.drop ((p.takeWhile isNameByte).take NAME_MAX).length)
  else some (0, p)

theorem evalArithFactor_eq (p : Text) : evalArithFactor t inner p =
    (atom t inner (if peek (skipBlanks p) = ('-' : UInt8) ∨ peek (skipBlanks p) = ('+' : UInt8) then skipBlanks (skipBlanks p).tail
      else skipBlanks p)).map fun x => (if peek (skipBlanks p) = ('-' : UInt8) then -x.1 else x.1, x.2) := by
  unfold evalArithFactor atom
  dsimp only
  generalize (if peek (skipBlanks p) = ('-' : UInt8) ∨ peek (skipBlanks p) = ('+' : UInt8) then skipBlanks (skipBlanks p).tail
    else skipBlanks p) = q
  by_cases hparen : peek q = '('
  · rw [if_pos hparen, if_pos hparen]
    cases inner q.tail <;> rfl
  · rw [if_neg hparen, if_neg hparen]
    by_cases hdigit : isDigit (peek q) = true
    · rw [if_pos hdigit]
      rfl
    · rw [if_neg hdigit]
      by_cases hletter : isLetter (peek q) = true ∨ peek q = '_'
      · rw [if_pos hletter]
        rfl
      · rw [if_neg hletter]
        rfl

theorem evalArithFactor_blank (p : Text) : evalArithFactor t inner ((' ' : UInt8) :: p) = evalArithFactor t inner p := by
  rw [evalArithFactor_eq, evalArithFactor_eq p, skipBlanks_blank]

theorem evalArithFactor_plain (hblank : peek p ≠ ' ') (hminus : peek p ≠ '-') (hplus : peek p ≠ '+') :
    evalArithFactor t inner p = atom t inner p := by
  rw [evalArithFactor_eq, skipBlanks_of_ne hblank, if_neg (not_or.2 ⟨hminus, hplus⟩)]
  simp only [if_neg hminus]
  cases atom t inner p <;> rfl

theorem evalArithFactor_sign (s : Sign) (hminus : peek (skipBlanks p) ≠ ('-' : UInt8)) (hplus : peek (skipBlanks p) ≠ ('+' : UInt8)) :
    evalArithFactor t inner (s.char :: p) = (evalArithFactor t inner p).map fun x => (Expression.signed s x.1, x.2) := by
  rw [evalArithFactor_eq p, if_neg (not_or.2 ⟨hminus, hplus⟩)]
  simp only [if_neg hminus]
  cases s with
  | plus =>
    have hskip : skipBlanks (Sign.plus.char :: p) = Sign.plus.char :: p := skipBlanks_cons (by decide)
    rw [evalArithFactor_eq, hskip, if_pos (.inr rfl), List.tail_cons]
    cases atom t inner (skipBlanks p) <;> rfl
  | minus =>
    have hskip : skipBlanks (Sign.minus.char :: p) = Sign.minus.char :: p := skipBlanks_cons (by decide)
    rw [evalArithFactor_eq, hskip, if_pos (.inl rfl), List.tail_cons]
    cases atom t inner (skipBlanks p) <;> rfl

/-! ### Loops -/

theorem termLoop_op (op : MulOp) (k : ℕ) (x : Int64) (p : Text) : termLoop factor (k + 1) x (op.char :: p) =
    (factor p).bind fun y => (op.step x y.1).bind fun v => termLoop factor k v y.2 := by
  have hskip : skipBlanks (op.char :: p) = op.char :: p := skipBlanks_cons op.char_ne_blank
  rw [termLoop, hskip]
  cases op <;> rfl

theorem termLoop_blank (k : ℕ) (x : Int64) (p : Text) : termLoop factor k x ((' ' : UInt8) :: p) = termLoop factor k x p := by
  cases k with
  | zero => rfl
  | succ k => rw [termLoop, termLoop, skipBlanks_blank]

theorem termLoop_stop (h : ∀ op : MulOp, peek (skipBlanks rest) ≠ op.char) : termLoop factor (k + 1) x rest = some (x, skipBlanks rest) := by
  have htimes : ¬ peek (skipBlanks rest) = ('*' : UInt8) := h .times
  have hdivide : ¬ peek (skipBlanks rest) = ('/' : UInt8) := h .divide
  have hmodulo : ¬ peek (skipBlanks rest) = ('%' : UInt8) := h .modulo
  rw [termLoop]
  dsimp only
  rw [if_neg htimes, if_neg hdivide, if_neg hmodulo]

theorem exprLoop_op (s : Sign) (k : ℕ) (x : Int64) (p : Text) : exprLoop term (k + 1) x (s.char :: p) =
    (term p).bind fun y => exprLoop term k (x + Expression.signed s y.1) y.2 := by
  have hskip : skipBlanks (s.char :: p) = s.char :: p := skipBlanks_cons s.char_ne_blank
  rw [exprLoop, hskip]
  cases s with
  | plus => rfl
  | minus =>
    show (term p >>= fun y => exprLoop term k (x - y.1) y.2) = _
    simp only [Int64.sub_eq_add_neg]
    rfl

theorem exprLoop_skip (k : ℕ) (x : Int64) (p : Text) : exprLoop term k x (skipBlanks p) = exprLoop term k x p := by
  cases k with
  | zero => rfl
  | succ k => rw [exprLoop, exprLoop, skipBlanks_skipBlanks]

theorem exprLoop_stop (h : ∀ s : Sign, peek (skipBlanks rest) ≠ s.char) : exprLoop term (k + 1) x rest = some (x, skipBlanks rest) := by
  have hplus : ¬ peek (skipBlanks rest) = ('+' : UInt8) := h .plus
  have hminus : ¬ peek (skipBlanks rest) = ('-' : UInt8) := h .minus
  rw [exprLoop]
  dsimp only
  rw [if_neg hplus, if_neg hminus]

end Scanning

namespace Expression

variable {t : Table} {l : Level} {p rest name : Text} {n : ℕ} {v : Int64}

/-! ### Evaluation -/

theorem step_eq_some {op : MulOp} {x y : Int64} : op.step x y = some v ↔ ¬ op.Traps x y ∧ v = op.apply x y := by
  have hdivide : ∀ f : Int64 → Int64 → Int64, machineDivide f x y = some v ↔
      ¬ (x = Int64.minValue ∧ y = -1) ∧ v = if y = 0 then 0 else f x y := by
    intro f
    unfold machineDivide
    split_ifs with hzero htrap
    · subst hzero
      rw [Option.some_inj]
      exact ⟨fun h => ⟨fun ht => absurd ht.2 (by decide), h.symm⟩, fun h => h.2.symm⟩
    · exact ⟨nofun, fun h => absurd htrap h.1⟩
    · rw [Option.some_inj]
      exact ⟨fun h => ⟨htrap, h.symm⟩, fun h => h.2.symm⟩
  cases op with
  | times => exact ⟨fun h => ⟨not_false, (Option.some.inj h).symm⟩, fun h => congrArg some h.2.symm⟩
  | divide => exact hdivide _
  | modulo => exact hdivide _

/-- The machine gets to the value just where no division traps. -/
theorem run_eq_some (e : Expression l) : e.run t = some v ↔ e.Safe t ∧ v = e.value t := by
  induction e generalizing v with
  | num digits => exact ⟨fun h => ⟨trivial, (Option.some.inj h).symm⟩, fun h => congrArg some h.2.symm⟩
  | var name => exact ⟨fun h => ⟨trivial, (Option.some.inj h).symm⟩, fun h => congrArg some h.2.symm⟩
  | paren e ih => exact ih
  | sign s e ih =>
    rw [run, Option.map_eq_some_iff]
    constructor
    · rintro ⟨x, hx, rfl⟩
      obtain ⟨hsafe, rfl⟩ := ih.1 hx
      exact ⟨hsafe, rfl⟩
    · rintro ⟨hsafe, rfl⟩
      exact ⟨_, ih.2 ⟨hsafe, rfl⟩, rfl⟩
  | lead e ih => exact ih
  | single e ih => exact ih
  | mul op a b iha ihb =>
    rw [run, Option.bind_eq_some_iff]
    constructor
    · rintro ⟨x, hx, hrest⟩
      obtain ⟨y, hy, hstep⟩ := Option.bind_eq_some_iff.1 hrest
      obtain ⟨ha, rfl⟩ := iha.1 hx
      obtain ⟨hb, rfl⟩ := ihb.1 hy
      obtain ⟨htraps, rfl⟩ := step_eq_some.1 hstep
      exact ⟨⟨ha, hb, htraps⟩, rfl⟩
    · rintro ⟨⟨ha, hb, htraps⟩, rfl⟩
      exact ⟨_, iha.2 ⟨ha, rfl⟩, Option.bind_eq_some_iff.2 ⟨_, ihb.2 ⟨hb, rfl⟩, step_eq_some.2 ⟨htraps, rfl⟩⟩⟩
  | trail e ih => exact ih
  | chain e ih => exact ih
  | add s a b iha ihb =>
    rw [run, Option.bind_eq_some_iff]
    constructor
    · rintro ⟨x, hx, hrest⟩
      obtain ⟨y, hy, rfl⟩ := Option.map_eq_some_iff.1 hrest
      obtain ⟨ha, rfl⟩ := iha.1 hx
      obtain ⟨hb, rfl⟩ := ihb.1 hy
      exact ⟨⟨ha, hb⟩, rfl⟩
    · rintro ⟨⟨ha, hb⟩, rfl⟩
      exact ⟨_, iha.2 ⟨ha, rfl⟩, Option.map_eq_some_iff.2 ⟨_, ihb.2 ⟨hb, rfl⟩, rfl⟩⟩

theorem text_pos {e : Expression l} (h : e.WellFormed t) : 0 < e.text.length := by
  induction e with
  | num digits => exact List.length_pos_of_ne_nil h.1
  | var name =>
    cases name with
    | nil => exact absurd h.1 (by decide)
    | cons c name => exact Nat.succ_pos _
  | paren e ih => exact Nat.succ_pos _
  | sign s e ih => exact Nat.succ_pos _
  | lead e ih => exact Nat.succ_pos _
  | single e ih => exact ih h
  | mul op a b iha ihb =>
    have ha := iha h.1
    rw [text, List.length_append]
    omega
  | trail e ih =>
    have he := ih h
    rw [text, List.length_append]
    omega
  | chain e ih => exact ih h
  | add s a b iha ihb =>
    have ha := iha h.1
    rw [text, List.length_append]
    omega

/-- An expression without a sign in front begins with none. -/
theorem peek_unsigned : (e : Expression .factor) → e.Unsigned → e.WellFormed t → ∀ rest : Text,
    peek (skipBlanks (e.text ++ rest)) ≠ ('-' : UInt8) ∧ peek (skipBlanks (e.text ++ rest)) ≠ ('+' : UInt8)
  | num digits, _, h, rest => by
    have hfirst : isDigit (peek (digits ++ rest)) = true := by
      rw [peek_append h.1]
      exact h.2 _ (peek_mem h.1)
    rw [text, skipBlanks_of_ne (ne_of_false hfirst (by decide))]
    exact ⟨ne_of_false hfirst (by decide), ne_of_false hfirst (by decide)⟩
  | var name, _, h, rest => by
    have hne : name ≠ [] := by
      rintro rfl
      exact absurd h.1 (by decide)
    have hfirst : isNameByte (peek (name ++ rest)) = true := by
      rw [peek_append hne]
      exact h.2.1 _ (peek_mem hne)
    rw [text, skipBlanks_of_ne (ne_of_false hfirst (by decide))]
    exact ⟨ne_of_false hfirst (by decide), ne_of_false hfirst (by decide)⟩
  | paren e, _, _, rest => by
    have hfirst : peek ((paren e).text ++ rest) = ('(' : UInt8) := rfl
    rw [skipBlanks_of_ne (by rw [hfirst]; decide), hfirst]
    decide
  | sign _ _, h, _, _ => h.elim
  | lead e, hu, h, rest => by
    rw [text, List.cons_append, skipBlanks_blank]
    exact peek_unsigned e hu h rest

/-- The text behind an expression does not go on with a word or a product. -/
structure Clear (rest : Text) : Prop where
  word : isNameByte (peek rest) = false
  product : ∀ op : MulOp, peek (skipBlanks rest) ≠ op.char

/-- What the evaluator does with the text of an expression. The loops of terms and sums are left in the middle: they
have taken fewer steps than the text has bytes. -/
def Evaluates (t : Table) : {l : Level} → Expression l → Prop
  | .factor, e => ∀ n rest, e.text.length ≤ n → isNameByte (peek rest) = false →
      evalArithFactor t (evalArithExprInner t n) (e.text ++ rest) = (e.run t).map fun v => (v, rest)
  | .term, e => ∃ j < e.text.length, ∀ n k rest, e.text.length ≤ n → isNameByte (peek rest) = false →
      evalArithTerm (evalArithFactor t (evalArithExprInner t n)) (j + k) (e.text ++ rest) =
        (e.run t).bind fun v => termLoop (evalArithFactor t (evalArithExprInner t n)) k v rest
  | .sum, e => ∃ j < e.text.length, ∀ n k rest, e.text.length ≤ n → Clear rest →
      ((evalArithTerm (evalArithFactor t (evalArithExprInner t n)) n (e.text ++ rest)).bind fun x =>
          exprLoop (evalArithTerm (evalArithFactor t (evalArithExprInner t n)) n) (j + k) x.1 x.2) =
        (e.run t).bind fun v => exprLoop (evalArithTerm (evalArithFactor t (evalArithExprInner t n)) n) k v rest

theorem evaluates_num {digits : Text} (h : (num digits).WellFormed t) : Evaluates t (num digits) := by
  intro n rest hn hrest
  have hfirst : isDigit (peek (digits ++ rest)) = true := by
    rw [peek_append h.1]
    exact h.2 _ (peek_mem h.1)
  obtain ⟨htake, hdrop⟩ := takeWhile_run h.2 (not_digit hrest)
  rw [text, evalArithFactor_plain (ne_of_false hfirst (by decide)) (ne_of_false hfirst (by decide)) (ne_of_false hfirst (by decide)),
    atom, if_neg (ne_of_false hfirst (by decide)), if_pos hfirst, htake, hdrop, digitsValue_eq h.2]
  rfl

theorem evaluates_var (ht : t.Valid) (h : (var name).WellFormed t) : Evaluates t (var name) := by
  obtain ⟨hletter, hname, text, hvalue, hinteger⟩ := h
  intro n rest hn hrest
  have hne : name ≠ [] := by
    rintro rfl
    exact absurd hletter (by decide)
  have hfirst : isNameByte (peek (name ++ rest)) = true := by
    rw [peek_append hne]
    exact hname _ (peek_mem hne)
  have hlen : name.length ≤ NAME_MAX := by
    obtain ⟨i, hfind, -⟩ := Option.map_eq_some_iff.1 hvalue
    have hpass := List.find?_some hfind
    simp only [decide_eq_true_eq] at hpass
    have hlt := Block.length_text_lt (ht.names i hpass.1)
    rw [hpass.2] at hlt
    exact Nat.le_of_lt_succ hlt
  obtain ⟨htake, -⟩ := takeWhile_run hname hrest
  have hletter' : isLetter (peek (name ++ rest)) = true ∨ peek (name ++ rest) = ('_' : UInt8) := by rwa [peek_append hne]
  have hdigit : ¬ isDigit (peek (name ++ rest)) = true := by
    rw [not_digit_of_first hletter']
    exact Bool.false_ne_true
  rw [Expression.text, evalArithFactor_plain (ne_of_false hfirst (by decide)) (ne_of_false hfirst (by decide))
    (ne_of_false hfirst (by decide)), atom, if_neg (ne_of_false hfirst (by decide)), if_neg hdigit, if_pos hletter', htake,
    List.take_of_length_le hlen, hvalue, List.drop_left, Option.map_some, Option.getD_some, valueNumber_eq hinteger, run,
    Table.valueText, hvalue]
  rfl

/-- A term is evaluated to its end where no product goes on. -/
theorem term_whole {e : Expression .term} (h : Evaluates t e) (hn : e.text.length ≤ n) (hrest : Clear rest) :
    evalArithTerm (evalArithFactor t (evalArithExprInner t n)) n (e.text ++ rest) = (e.run t).map fun v => (v, skipBlanks rest) := by
  obtain ⟨j, hj, hloop⟩ := h
  obtain ⟨k, rfl⟩ : ∃ k, n = j + (k + 1) := ⟨n - j - 1, by omega⟩
  rw [hloop _ (k + 1) rest hn hrest.word]
  cases e.run t with
  | none => rfl
  | some v => exact termLoop_stop hrest.product

/-- So is a sum, where neither a product nor a sum goes on. -/
theorem sum_whole {e : Expression .sum} (h : Evaluates t e) (hn : e.text.length ≤ n) (hrest : Clear rest)
    (hsum : ∀ s : Sign, peek (skipBlanks rest) ≠ s.char) :
    evalArithExprInner t (n + 1) (e.text ++ rest) = (e.run t).map fun v => (v, skipBlanks rest) := by
  obtain ⟨j, hj, hloop⟩ := h
  have hk : n = j + (n - j - 1 + 1) := by omega
  have hrun := hloop n (n - j - 1 + 1) rest hn hrest
  rw [← hk] at hrun
  show (evalArithTerm (evalArithFactor t (evalArithExprInner t n)) n (e.text ++ rest)).bind _ = _
  refine hrun.trans ?_
  cases e.run t with
  | none => rfl
  | some v => exact exprLoop_stop hsum

theorem evaluates_paren {e : Expression .sum} (h : Evaluates t e) : Evaluates t (paren e) := by
  intro n rest hn hrest
  rw [text, List.length_cons, List.length_append, List.length_singleton] at hn
  obtain ⟨n, rfl⟩ : ∃ m, n = m + 1 := ⟨n - 1, by omega⟩
  have hsplit : (paren e).text ++ rest = ('(' : UInt8) :: (e.text ++ (')' : UInt8) :: rest) := by
    rw [text, List.cons_append, List.append_assoc]
    rfl
  have hfirst : peek (('(' : UInt8) :: (e.text ++ (')' : UInt8) :: rest)) = ('(' : UInt8) := rfl
  have hskip : skipBlanks ((')' : UInt8) :: rest) = (')' : UInt8) :: rest := skipBlanks_cons (by decide)
  have hclear : Clear ((')' : UInt8) :: rest) := by
    refine ⟨show isNameByte (')' : UInt8) = false by decide, fun op => ?_⟩
    rw [hskip]
    cases op <;> exact show (')' : UInt8) ≠ _ by decide
  have hinner := @sum_whole t ((')' : UInt8) :: rest) n e h (by omega) hclear (by
    intro s
    rw [hskip]
    cases s <;> exact show (')' : UInt8) ≠ _ by decide)
  rw [hsplit, evalArithFactor_plain (by rw [hfirst]; decide) (by rw [hfirst]; decide) (by rw [hfirst]; decide), atom, if_pos hfirst,
    List.tail_cons, hinner, hskip, run]
  cases e.run t with
  | none => rfl
  | some v =>
    show some (v, if peek (skipBlanks ((')' : UInt8) :: rest)) = (')' : UInt8) then (skipBlanks ((')' : UInt8) :: rest)).tail
      else skipBlanks ((')' : UInt8) :: rest)) = _
    rw [hskip, if_pos (show peek ((')' : UInt8) :: rest) = (')' : UInt8) from rfl)]
    rfl

theorem evaluates_mul {op : MulOp} {a : Expression .term} {b : Expression .factor} (ha : Evaluates t a) (hb : Evaluates t b) :
    Evaluates t (mul op a b) := by
  obtain ⟨j, hj, hloop⟩ := ha
  have hlen : (mul op a b).text.length = a.text.length + (b.text.length + 1) := by rw [text, List.length_append, List.length_cons]
  refine ⟨j + 1, by omega, fun n k rest hn hrest => ?_⟩
  have hop : isNameByte (peek (op.char :: (b.text ++ rest))) = false := op.char_not_name
  rw [text, List.append_assoc, List.cons_append, show j + 1 + k = j + (k + 1) by omega, hloop n (k + 1) _ (by omega) hop, run,
    Option.bind_assoc]
  congr 1
  funext x
  rw [termLoop_op, hb n rest (by omega) hrest]
  cases b.run t with
  | none => rfl
  | some y => rfl

theorem evaluates_add {s : Sign} {a : Expression .sum} {b : Expression .term} (ha : Evaluates t a) (hb : Evaluates t b) :
    Evaluates t (add s a b) := by
  obtain ⟨j, hj, hloop⟩ := ha
  have hlen : (add s a b).text.length = a.text.length + (b.text.length + 1) := by rw [text, List.length_append, List.length_cons]
  refine ⟨j + 1, by omega, fun n k rest hn hrest => ?_⟩
  have hclear : Clear (s.char :: (b.text ++ rest)) := by
    have hskip : skipBlanks (s.char :: (b.text ++ rest)) = s.char :: (b.text ++ rest) := skipBlanks_cons s.char_ne_blank
    refine ⟨s.char_not_name, fun op => ?_⟩
    rw [hskip]
    exact s.char_ne op
  rw [text, List.append_assoc, List.cons_append, show j + 1 + k = j + (k + 1) by omega, hloop n (k + 1) _ (by omega) hclear, run,
    Option.bind_assoc]
  congr 1
  funext x
  rw [exprLoop_op, term_whole hb (by omega) hrest]
  cases b.run t with
  | none => rfl
  | some y => exact exprLoop_skip k _ rest

/-- The evaluator computes every expression in which no sign stands behind a sign. -/
theorem evaluates (ht : t.Valid) (e : Expression l) (hw : e.WellFormed t) (hs : e.SingleSigned) : Evaluates t e := by
  induction e with
  | num digits => exact evaluates_num hw
  | var name => exact evaluates_var ht hw
  | paren e ih => exact evaluates_paren (ih hw hs)
  | sign s e ih =>
    intro n rest hn hrest
    obtain ⟨hminus, hplus⟩ := peek_unsigned e hs.1 hw rest
    rw [text, List.length_cons] at hn
    rw [text, List.cons_append, evalArithFactor_sign s hminus hplus, ih hw hs.2 n rest (by omega) hrest, run, Option.map_map, Option.map_map]
    rfl
  | lead e ih =>
    intro n rest hn hrest
    rw [text, List.length_cons] at hn
    rw [text, List.cons_append, evalArithFactor_blank]
    exact ih hw hs n rest (by omega) hrest
  | single e ih =>
    refine ⟨0, text_pos hw, fun n k rest hn hrest => ?_⟩
    rw [evalArithTerm, text, ih hw hs n rest hn hrest, Nat.zero_add, run]
    cases e.run t <;> rfl
  | mul op a b iha ihb => exact evaluates_mul (iha hw.1 hs.1) (ihb hw.2 hs.2)
  | trail e ih =>
    obtain ⟨j, hj, hloop⟩ := ih hw hs
    have hlen : (trail e).text.length = e.text.length + 1 := by rw [text, List.length_append, List.length_singleton]
    refine ⟨j, by omega, fun n k rest hn hrest => ?_⟩
    rw [text, List.append_assoc, List.singleton_append, hloop n k ((' ' : UInt8) :: rest) (by omega)
      (show isNameByte (' ' : UInt8) = false by decide), run]
    simp only [termLoop_blank]
  | chain e ih =>
    refine ⟨0, text_pos hw, fun n k rest hn hrest => ?_⟩
    rw [text, term_whole (ih hw hs) hn hrest, Nat.zero_add, run]
    cases e.run t with
    | none => rfl
    | some v => exact exprLoop_skip k v rest
  | add s a b iha ihb => exact evaluates_add (iha hw.1 hs.1) (ihb hw.2 hs.2)

theorem evalArith_eq (ht : t.Valid) (e : Expression .sum) (hw : e.WellFormed t) (hs : e.SingleSigned) : evalArith t e.text = e.run t := by
  have hclear : Clear [] := ⟨by decide, fun op => by cases op <;> exact by decide⟩
  have hrun := @sum_whole t [] e.text.length e (evaluates ht e hw hs) (Nat.le_refl _) hclear fun s => by cases s <;> exact by decide
  rw [List.append_nil] at hrun
  rw [evalArith, hrun, Option.map_map]
  cases e.run t <;> rfl

end Expression

/-! ### Brackets -/

section Brackets

variable {x : UInt8 × UInt8} {l : List (UInt8 × UInt8)} {d room : ℕ} {u v s rest : Text} {c : UInt8}

/-- How a pair moves the counter. -/
def shift (x : UInt8 × UInt8) (d : ℕ) : ℕ := if x = openPair then d + 1 else if x = closePair then d - 1 else d

theorem shift_pos (hd : 0 < d) (hx : ¬ (x = closePair ∧ d = 1)) : 0 < shift x d := by
  unfold shift
  split_ifs with hopen hclose
  · omega
  · have hne : d ≠ 1 := fun h => hx ⟨hclose, h⟩
    omega
  · exact hd

theorem pairs_cons (c : UInt8) (hu : u ≠ []) : pairs (c :: u) = (c, peek u) :: pairs u := by
  cases u with
  | nil => exact absurd rfl hu
  | cons d u => rfl

theorem balance_nil : Balance d [] ↔ d = 1 := by
  unfold Balance
  simp
  omega

theorem forall_take {α : Type} {Q : List α → Prop} {a : α} {as : List α} :
    (∀ i, Q ((a :: as).take i)) ↔ Q [] ∧ ∀ i, Q (a :: as.take i) := by
  refine ⟨fun h => ⟨h 0, fun i => h (i + 1)⟩, fun h i => ?_⟩
  cases i with
  | zero => exact h.1
  | succ i => exact h.2 i

theorem balance_cons (hd : 0 < d) : Balance d (x :: l) ↔ ¬ (x = closePair ∧ d = 1) ∧ Balance (shift x d) l := by
  have hne : openPair ≠ closePair := by decide
  unfold Balance shift
  rw [@forall_take _ (fun m => m.count closePair < d + m.count openPair)]
  by_cases hopen : x = openPair
  · subst hopen
    simp only [List.count_cons_self, List.count_cons_of_ne hne, if_pos, List.count_nil]
    refine ⟨fun h => ⟨fun hx => hne hx.1, fun i => ?_, ?_⟩, fun h => ⟨⟨hd, fun i => ?_⟩, ?_⟩⟩
    · have hi := h.1.2 i
      omega
    · omega
    · have hi := h.2.1 i
      omega
    · omega
  · rw [if_neg hopen]
    by_cases hclose : x = closePair
    · subst hclose
      simp only [List.count_cons_self, List.count_cons_of_ne hne.symm, if_pos, List.count_nil, true_and]
      refine ⟨fun h => ?_, fun h => ⟨⟨hd, fun i => ?_⟩, ?_⟩⟩
      · have hzero := h.1.2 0
        rw [List.take_zero, List.count_nil, List.count_nil] at hzero
        refine ⟨by omega, fun i => ?_, by omega⟩
        have hi := h.1.2 i
        omega
      · have hi := h.2.1 i
        omega
      · have hzero := h.2.1 0
        omega
    · simp only [List.count_cons_of_ne hopen, List.count_cons_of_ne hclose, if_neg hclose, List.count_nil]
      exact ⟨fun h => ⟨fun hx => hclose hx.1, h.1.2, h.2⟩, fun h => ⟨⟨hd, h.2.1⟩, h.2.2⟩⟩

theorem innerOf_cons (room d : ℕ) (c : UInt8) (s : Text) : innerOf room d (c :: s) =
    if (c, peek s) = closePair ∧ d = 1 then some ([], s.tail)
    else match room with
      | 0 => none
      | room + 1 => (innerOf room (shift (c, peek s) d) s).map fun x => (c :: x.1, x.2) := by
  have hpair : ∀ a b : UInt8, (c, peek s) = (a, b) ↔ c = a ∧ peek s = b := fun a b => Prod.mk.injEq _ _ _ _ ▸ Iff.rfl
  rw [innerOf]
  unfold shift openPair closePair
  simp only [hpair]
  by_cases hopen : c = '(' ∧ peek s = '('
  · have hclose : ¬ (c = ')' ∧ peek s = ')') := by
      rw [hopen.1]
      exact fun h => absurd h.1 (by decide)
    have hdeep : ¬ (c = ')' ∧ peek s = ')' ∧ d + 1 = 1) := fun h => hclose ⟨h.1, h.2.1⟩
    have hstop : ¬ ((c = ')' ∧ peek s = ')') ∧ d = 1) := fun h => hclose h.1
    cases room with
    | zero => simp only [if_pos hopen, if_neg hdeep, if_neg hstop]
    | succ room => simp only [if_pos hopen, if_neg hclose, if_neg hdeep, if_neg hstop]
  · cases room with
    | zero => simp only [if_neg hopen, and_assoc]
    | succ room => simp only [if_neg hopen, and_assoc]

theorem innerOf_balance (hd : 0 < d) (hroom : u.length ≤ room) (h : Balance d (pairs (u ++ [(')' : UInt8)]))) :
    innerOf room d (u ++ (chars "))" ++ rest)) = some (u, rest) := by
  induction u generalizing d room with
  | nil =>
    obtain rfl := balance_nil.1 h
    exact (innerOf_cons room 1 _ _).trans (if_pos ⟨rfl, rfl⟩)
  | cons c u ih =>
    obtain ⟨room, rfl⟩ : ∃ r, room = r + 1 := ⟨room - 1, by rw [List.length_cons] at hroom; omega⟩
    rw [List.cons_append, pairs_cons c (by simp), balance_cons hd] at h
    have hpeek : peek (u ++ (chars "))" ++ rest)) = peek (u ++ [(')' : UInt8)]) := by cases u <;> rfl
    rw [List.cons_append, innerOf_cons, hpeek, if_neg h.1]
    show (innerOf room _ _).map _ = _
    rw [ih (shift_pos hd h.1) (Nat.le_of_succ_le_succ hroom) h.2]
    rfl

theorem balance_of_innerOf (hd : 0 < d) (h : innerOf room d (u ++ chars "))") = some (v, [])) : Balance d (pairs (u ++ [(')' : UInt8)])) := by
  induction u generalizing d room v with
  | nil =>
    refine balance_nil.2 ?_
    by_contra hne
    have hsecond : ∀ room d, innerOf room d [(')' : UInt8)] = none := by
      intro room d
      rw [innerOf_cons, if_neg fun h => absurd h.1 (by decide)]
      cases room with
      | zero => rfl
      | succ room =>
        show Option.map _ (innerOf room _ []) = none
        rw [innerOf]
        rfl
    rw [show ([] : Text) ++ chars "))" = (')' : UInt8) :: [(')' : UInt8)] from rfl, innerOf_cons, if_neg fun h => hne h.2] at h
    cases room with
    | zero => exact nomatch h
    | succ room =>
      dsimp only at h
      rw [hsecond] at h
      exact nomatch h
  | cons c u ih =>
    rw [List.cons_append, innerOf_cons] at h
    have hpeek : peek (u ++ chars "))") = peek (u ++ [(')' : UInt8)]) := by cases u <;> rfl
    rw [List.cons_append, pairs_cons c (by simp), balance_cons hd, ← hpeek]
    by_cases hstop : (c, peek (u ++ chars "))")) = closePair ∧ d = 1
    · rw [if_pos hstop] at h
      have hlen := congrArg List.length (Prod.mk.inj (Option.some.inj h)).2
      rw [List.length_tail, List.length_append, show (chars "))").length = 2 from rfl, List.length_nil] at hlen
      omega
    · rw [if_neg hstop] at h
      refine ⟨hstop, ?_⟩
      cases room with
      | zero => exact nomatch h
      | succ room =>
        obtain ⟨⟨w, r⟩, hinner, hpair⟩ := Option.map_eq_some_iff.1 h
        obtain ⟨-, rfl⟩ := Prod.mk.inj hpair
        exact ih (shift_pos hd hstop) hinner

theorem balanced_iff : Balanced u ↔ Balance 1 (pairs (u ++ [(')' : UInt8)])) := by
  unfold Balanced Balance
  refine ⟨fun h => ⟨fun i => ?_, ?_⟩, fun h => ⟨fun i => ?_, ?_⟩⟩
  · have hi := h.1 i
    omega
  · omega
  · have hi := h.1 i
    omega
  · omega

end Brackets

/-! ### Printing -/

section Printing

/-- The value of `$((...))` is printed but for the least number. -/
theorem printed_iff (x : Int64) :
    (if x < 0 then ('-' : UInt8) :: magnitudeText 24 (-x).toInt else magnitudeText 24 x.toInt) = decimalText x.toInt ↔ x ≠ Int64.minValue := by
  have hlow := x.le_toInt
  have hhigh := x.toInt_lt
  unfold decimalText
  by_cases hneg : x.toInt < 0
  · have hneg' : x < 0 := by
      rw [Int64.lt_iff_toInt_lt]
      exact hneg
    rw [if_pos hneg, if_pos hneg', List.cons.injEq]
    by_cases hmin : x = Int64.minValue
    · subst hmin
      exact iff_of_false (fun h => absurd h.2 (by decide +kernel)) fun h => h rfl
    · have hne : x.toInt ≠ -9223372036854775808 := fun heq => hmin (Int64.toInt.inj (heq.trans (by decide)))
      have hminus : (-x).toInt = -x.toInt := by
        rw [Int64.toInt_neg]
        exact Int.bmod_eq_of_le (by omega) (by omega)
      have habs : (-x.toInt).toNat = x.toInt.natAbs := by omega
      rw [hminus, magnitudeText_eq (by omega) (by omega), habs]
      exact iff_of_true ⟨rfl, rfl⟩ hmin
  · have hneg' : ¬ x < 0 := by
      rw [Int64.lt_iff_toInt_lt]
      exact hneg
    have habs : x.toInt.toNat = x.toInt.natAbs := by omega
    rw [if_neg hneg, if_neg hneg', magnitudeText_eq (by omega) (by omega), habs]
    refine iff_of_true rfl ?_
    rintro rfl
    exact hneg (by decide)

/-- The value of `calc` always is. -/
theorem calc_printed (x : Int64) :
    (if x < 0 then [('-' : UInt8) :: uintToDec (-x).toUInt64.toNat] else [uintToDec x.toUInt64.toNat]) = [decimalText x.toInt] := by
  have hnat : ∀ y : Int64, y.toUInt64.toNat = y.toBitVec.toNat := fun _ => rfl
  have hint : x.toInt = x.toBitVec.toInt := rfl
  have hbits := x.toBitVec.isLt
  have hcond := BitVec.toInt_eq_toNat_cond x.toBitVec
  unfold decimalText
  by_cases hneg : x.toInt < 0
  · have hneg' : x < 0 := by
      rw [Int64.lt_iff_toInt_lt]
      exact hneg
    have habs : (-x).toUInt64.toNat = x.toInt.natAbs := by
      rw [hnat, Int64.toBitVec_neg, BitVec.toNat_neg, hint]
      split_ifs at hcond <;> omega
    rw [if_pos hneg, if_pos hneg', habs]
  · have hneg' : ¬ x < 0 := by
      rw [Int64.lt_iff_toInt_lt]
      exact hneg
    have habs : x.toUInt64.toNat = x.toInt.natAbs := by
      rw [hnat, hint]
      split_ifs at hcond <;> omega
    rw [if_neg hneg, if_neg hneg', habs]

end Printing

/-! ### In a command line -/

section Line

variable {command : Text → Option Text} {t : Table} {code : Int32} {size : ℕ} {front u inner value rest : Text} {e : Expression .sum}

theorem expandAt_arithmetic (u : Text) : expandAt command t code size front (chars "$((" ++ u) = expandArithmetic t size u := by
  unfold expandAt
  rw [if_neg fun h => absurd h.2 (show ¬ ('(' : UInt8) = ('?' : UInt8) by decide),
    if_neg fun h => absurd h.2 (show ¬ ('(' : UInt8) = ('{' : UInt8) by decide),
    if_neg fun h => h.2 (List.takeWhile_cons_of_neg (by decide)), if_pos ⟨rfl, rfl, rfl⟩]
  rfl

theorem expandArithmetic_eq (hinner : innerOf 127 1 u = some (inner, rest)) (hvalue : evalArithmetic t inner = some value) :
    expandArithmetic t size u = (emit size value >>= fun _ => pure rest) := by
  unfold expandArithmetic
  rw [hinner, ofOption_some, pure_bind_eq]
  dsimp only
  rw [hvalue]

/-- What is written when nothing is left behind it. -/
theorem expandArithmetic_ok (h : expandArithmetic t size u [] = (.ok [], value)) (hroom : value.length < size) :
    ∃ inner, innerOf 127 1 u = some (inner, []) ∧ evalArithmetic t inner = some value := by
  obtain ⟨⟨inner, rest⟩, out, hcount, hprint⟩ := bind_ok_iff.1 h
  obtain ⟨hinner, rfl⟩ := ofOption_ok_iff.1 hcount
  dsimp only at hprint
  cases hvalue : evalArithmetic t inner with
  | none =>
    rw [hvalue] at hprint
    exact nomatch (Prod.mk.inj hprint).1
  | some w =>
    rw [hvalue] at hprint
    obtain ⟨_, o, hemit, hpure⟩ := bind_ok_iff.1 hprint
    obtain ⟨hrest, rfl⟩ := Prod.mk.inj hpure
    obtain rfl : rest = [] := Outcome.ok.inj hrest
    refine ⟨inner, hinner, ?_⟩
    by_cases hfits : w.length < size
    · have hemitted := @emit_fits size w [] (by rw [List.length_nil]; omega)
      rw [hemitted] at hemit
      have hout : w = _ := (List.nil_append w).symm.trans (Prod.mk.inj hemit).2
      rw [hvalue, ← hout]
    · obtain ⟨o, hover, -⟩ := @emit_over size w [] (by rw [List.length_nil]; omega) (by rw [List.length_nil]; omega)
      rw [hover] at hemit
      exact nomatch (Prod.mk.inj hemit).1

theorem computes_iff (ht : t.Valid) (hw : e.WellFormed t) (hs : e.SingleSigned) (hlen : e.text.length < 128) :
    Computes t e ↔ Balanced e.text ∧ e.Safe t ∧ e.value t ≠ Int64.minValue := by
  have harith : ∀ value, evalArithmetic t e.text = some value ↔ e.Safe t ∧
      (if e.value t < 0 then ('-' : UInt8) :: magnitudeText 24 (-e.value t).toInt else magnitudeText 24 (e.value t).toInt) = value := by
    intro value
    rw [evalArithmetic, Expression.evalArith_eq ht e hw hs, Option.map_eq_some_iff]
    constructor
    · rintro ⟨x, hx, rfl⟩
      obtain ⟨hsafe, rfl⟩ := (Expression.run_eq_some e).1 hx
      exact ⟨hsafe, rfl⟩
    · rintro ⟨hsafe, rfl⟩
      exact ⟨_, (Expression.run_eq_some e).2 ⟨hsafe, rfl⟩, rfl⟩
  constructor
  · intro h
    have hrun := congrFun (h.expands (fun _ => none) 0 ((decimalText (e.value t).toInt).length + 1) [] []) []
    rw [expandAt_arithmetic, List.append_nil, bind_ok (emit_fits (by rw [List.length_nil]; omega))] at hrun
    obtain ⟨inner, hinner, hvalue⟩ := expandArithmetic_ok hrun (Nat.lt_succ_self _)
    have hbalance := balance_of_innerOf Nat.one_pos hinner
    have hwhole := @innerOf_balance 1 127 e.text [] Nat.one_pos (by omega) hbalance
    rw [List.append_nil, hinner] at hwhole
    obtain ⟨rfl, -⟩ := Prod.mk.inj (Option.some.inj hwhole)
    obtain ⟨hsafe, hprint⟩ := (harith _).1 hvalue
    exact ⟨balanced_iff.2 hbalance, hsafe, (printed_iff _).1 hprint⟩
  · rintro ⟨hbalanced, hsafe, hmin⟩
    refine ⟨fun command code size front rest => ?_, ?_⟩
    · rw [expandAt_arithmetic]
      exact expandArithmetic_eq (innerOf_balance Nat.one_pos (by omega) (balanced_iff.1 hbalanced)) ((harith _).2 ⟨hsafe, (printed_iff _).2 hmin⟩)
    · have hpos := Expression.text_pos hw
      have hne : e.text ≠ [] := List.ne_nil_of_length_pos hpos
      rw [cmdCalc, if_neg hne, Expression.evalArith_eq ht e hw hs, (Expression.run_eq_some e).2 ⟨hsafe, rfl⟩, Option.map_some, calc_printed]

/-- `1+2*3` -/
def small : Expression .sum :=
  .add .plus (.chain (.single (.num (chars "1")))) (.mul .times (.single (.num (chars "2"))) (.num (chars "3")))

/-- `(1)` -/
def bracketed : Expression .sum := .chain (.single (.paren (.chain (.single (.num (chars "1"))))))

theorem digits_wellFormed {t : Table} {digits : Text} (hne : digits ≠ []) (h : digits.all isDigit = true) :
    (Expression.num digits).WellFormed t := ⟨hne, List.all_eq_true.1 h⟩

theorem computes_small : Computes booted.table small := by
  have hw : small.WellFormed booted.table := ⟨digits_wellFormed (by decide) (by decide), digits_wellFormed (by decide) (by decide),
    digits_wellFormed (by decide) (by decide)⟩
  have hs : small.SingleSigned := ⟨trivial, trivial, trivial⟩
  refine (computes_iff booted_valid hw hs (by decide)).2 ⟨⟨fun i => ?_, by decide⟩, ⟨trivial, trivial, trivial, id⟩, by decide⟩
  have hnone : closePair ∉ (pairs (small.text ++ [(')' : UInt8)])).take i := fun h => absurd (List.mem_of_mem_take h) (by decide)
  rw [List.count_eq_zero_of_not_mem hnone]
  exact Nat.zero_le _

/-- `$(((1)))` leaves a `)` in the command line. -/
theorem not_computes : bracketed.WellFormed booted.table ∧ ¬ Computes booted.table bracketed := by
  refine ⟨digits_wellFormed (by decide) (by decide), fun h => ?_⟩
  have hrun := congrArg Prod.fst (congrFun (h.expands (fun _ => none) 0 512 [] []) [])
  exact absurd hrun (by decide +kernel)

end Line

end Tg11Kernel.Shell
