import Tg11Kernel.Basic.State

/-! The expression parsers, which evaluate as they read. They call one another, and a
call of a stored function starts them again on the body of the function, so nothing
in the text bounds them: `parsers n` may nest `n` deep and hangs where that does not
suffice. The loop over the operators of one level takes `n` too; an operator has a
byte, so it is the nesting that runs out. -/

namespace Tg11Kernel.Basic

open Lib

/-- The parsers that the others call. -/
structure Parsers where
  factor : Text → M (Int32 × Text)
  expr : Text → M (Int32 × Text)
  stringExpr : Text → M (Text × Text)

/-! ### Pieces -/

/-- Skip blanks and the byte `c`, or return -1. -/
def expect (c : UInt8) (s : Text) : M Text := do
  let s := skipSpaces s
  Exec.require (peek s = c)
  pure s.tail

/-- `b_name_matches_ci(s, name)` with a parenthesis after the name. -/
def callsBuiltin (s name : Text) : Bool :=
  nameMatchesCi s name && peek (skipSpaces (s.drop name.length)) = ('(' : UInt8)

def arrayGet (i : Letter) (pos : Int32) : M Int32 := do
  let size ← Exec.gets fun s => s.arraySizes i
  Exec.require (0 ≤ pos ∧ pos.toInt.toNat < size)
  Exec.gets fun s => s.arrays i pos.toInt.toNat

def arraySet (i : Letter) (pos value : Int32) : M Unit := do
  let size ← Exec.gets fun s => s.arraySizes i
  Exec.require (0 ≤ pos ∧ pos.toInt.toNat < size)
  Exec.modify fun s =>
    { s with arrays := Function.update s.arrays i (Function.update (s.arrays i) pos.toInt.toNat value) }

section Parse

variable (p : Parsers)

def parseBuiltinParenExpr (s : Text) : M (Int32 × Text) := do
  let s ← expect '(' s
  let (v, s) ← p.expr s
  let s ← expect ')' s
  pure (v, s)

def parseBuiltinParenString (s : Text) : M (Text × Text) := do
  let s ← expect '(' s
  let (tmp, s) ← p.stringExpr s
  let s ← expect ')' s
  pure (tmp, s)

/-- The variable at `s`, or the array element that a parenthesis after it selects. -/
def parseVarValue (s : Text) : M (Int32 × Text) := do
  let (i, isString, s) ← Exec.ofOption (parseVarRef s)
  Exec.require (isString = false)
  let s := skipSpaces s
  if peek s = ('(' : UInt8) then do
    let (pos, s) ← p.expr s.tail
    let s ← expect ')' s
    let v ← arrayGet i pos
    pure (v, s)
  else do
    let vars ← Exec.gets Interp.vars
    pure (vars i, s)

def parseValue (s : Text) : M (Int32 × Text) :=
  let s := skipSpaces s
  if isAlpha (peek s) then parseVarValue p s else Exec.ofOption (parseInt s)

/-! ### String expressions -/

/-- `src` from the position `start` on, which counts from 1, at most `length` bytes. -/
def midOf (src : Text) (start length : Int32) : Text :=
  let start := if start < 1 then 1 else start
  let length := if length < 0 then 0 else length
  ((src.drop (start - 1).toInt.toNat).take length.toInt.toNat).take (BASIC_MAX_STRING_LEN - 1)

/-- A count between 0 and the length of `src`. -/
def clampCount (src : Text) (count : Int32) : ℕ :=
  let count := if count < 0 then 0 else count
  if count.toInt.toNat > src.length then src.length else count.toInt.toNat

def leftOf (src : Text) (count : Int32) : Text := (src.take (clampCount src count)).take (BASIC_MAX_STRING_LEN - 1)

def rightOf (src : Text) (count : Int32) : Text :=
  (src.drop (src.length - clampCount src count)).take (BASIC_MAX_STRING_LEN - 1)

/-- The character of a code; the code 0 ends the string before it begins. -/
def chrOf (v : Int32) : Text :=
  let c := (v &&& 0xFF).toUInt32.toUInt8
  if c = 0 then [] else [c]

def parseChr (s : Text) : M (Text × Text) := do
  let (v, s) ← parseBuiltinParenExpr p s
  pure (chrOf v, s)

def parseStr (s : Text) : M (Text × Text) := do
  let (v, s) ← parseBuiltinParenExpr p s
  pure (intToText v, s)

/-- The third argument of `MID$`, if there is one. -/
def parseMidLength (s : Text) : M (Int32 × Text) :=
  let s := skipSpaces s
  if peek s = (',' : UInt8) then p.expr s.tail else pure (Int32.ofNat BASIC_MAX_STRING_LEN, s)

def parseMid (s : Text) : M (Text × Text) := do
  let s ← expect '(' s
  let (src, s) ← p.stringExpr s
  let s ← expect ',' s
  let (start, s) ← p.expr s
  let (length, s) ← parseMidLength p s
  let s ← expect ')' s
  pure (midOf src start length, s)

/-- `LEFT$` and `RIGHT$`, with the substring that they take. -/
def parseSide (side : Text → Int32 → Text) (s : Text) : M (Text × Text) := do
  let s ← expect '(' s
  let (src, s) ← p.stringExpr s
  let s ← expect ',' s
  let (count, s) ← p.expr s
  let s ← expect ')' s
  pure (side src count, s)

/-- The value of a string variable. -/
def parseStrVar (s : Text) : M (Text × Text) := do
  let (i, isString, rest) ← Exec.ofOption (parseVarRef s)
  Exec.require (isString = true)
  let strVars ← Exec.gets Interp.strVars
  pure (copyString BASIC_MAX_STRING_LEN (strVars i), rest)

/-- One operand of `+`. -/
def parseStringPart (s : Text) : M (Text × Text) :=
  if peek s = ('"' : UInt8) then Exec.ofOption (parseStringLiteral BASIC_MAX_STRING_LEN s)
  else if isAlpha (peek s) then
    if callsBuiltin s (chars "CHR$") then parseChr p (s.drop 4)
    else if callsBuiltin s (chars "STR$") then parseStr p (s.drop 4)
    else if callsBuiltin s (chars "MID$") then parseMid p (s.drop 4)
    else if callsBuiltin s (chars "LEFT$") then parseSide p leftOf (s.drop 5)
    else if callsBuiltin s (chars "RIGHT$") then parseSide p rightOf (s.drop 6)
    else parseStrVar s
  else Exec.fail

/-- `for (;;)` of `b_parse_string_expr`; the text `out` is cut to its buffer. -/
def stringLoop : ℕ → Text → Text → M (Text × Text)
  | 0, _, _ => Exec.hang
  | n + 1, out, s => do
    let (part, s) ← parseStringPart p (skipSpaces s)
    let out := (out ++ part).take (BASIC_MAX_STRING_LEN - 1)
    let s := skipSpaces s
    if peek s = ('+' : UInt8) then stringLoop n out s.tail else pure (out, s)

/-! ### Factors -/

def absOf (v : Int32) : Int32 := if v < 0 then -v else v

def parseAbs (s : Text) : M (Int32 × Text) := do
  let (v, s) ← parseBuiltinParenExpr p s
  pure (absOf v, s)

def nextRand (state : UInt32) : UInt32 := state * 1664525 + 1013904223

/-- The next random number below `n`, or 0 if `n` is not positive. -/
def drawBelow (n : Int32) : M Int32 :=
  if n ≤ 0 then pure 0
  else do
    Exec.modify fun s => { s with randState := nextRand s.randState }
    let r ← Exec.gets Interp.randState
    pure (r % n.toUInt32).toInt32

def parseRnd (s : Text) : M (Int32 × Text) := do
  let (n, s) ← parseBuiltinParenExpr p s
  let v ← drawBelow n
  pure (v, s)

def parseLen (s : Text) : M (Int32 × Text) := do
  let (tmp, s) ← parseBuiltinParenString p s
  pure (Int32.ofNat tmp.length, s)

def parseVal (s : Text) : M (Int32 × Text) := do
  let (tmp, s) ← parseBuiltinParenString p s
  pure ((parseIntFromText tmp).getD 0, s)

def parseAsc (s : Text) : M (Int32 × Text) := do
  let (tmp, s) ← parseBuiltinParenString p s
  pure ((peek tmp).toUInt32.toInt32, s)

/-- The channel that a file number names. -/
def chanOf (fnum : Int32) : Option Chan :=
  if h : 1 ≤ fnum.toInt ∧ fnum.toInt ≤ BASIC_MAX_FILES then some ⟨fnum.toInt.toNat - 1, by omega⟩ else none

def FileChan.atEnd (f : FileChan) : Bool := !f.active || f.buf.length ≤ f.bufPos

def eofOf (files : Chan → FileChan) (fnum : Int32) : Int32 :=
  match chanOf fnum with
  | some c => if (files c).atEnd then -1 else 0
  | none => -1

def parseEof (s : Text) : M (Int32 × Text) := do
  let (fnum, s) ← parseBuiltinParenExpr p s
  let files ← Exec.gets Interp.files
  pure (eofOf files fnum, s)

/-- The first position from `hi` on where `needle` stands in `haystack`. -/
def findFrom (needle : Text) : ℕ → Text → Option ℕ
  | _, [] => none
  | hi, c :: rest => if needle.isPrefixOf (c :: rest) then some hi else findFrom needle (hi + 1) rest

/-- The position counts from 1, and 0 says that there is none. -/
def instrOf (haystack needle : Text) : Int32 :=
  if needle = [] then 1
  else match findFrom needle 0 haystack with
    | some hi => Int32.ofNat hi + 1
    | none => 0

def parseInstr (s : Text) : M (Int32 × Text) := do
  let s ← expect '(' s
  let (haystack, s) ← p.stringExpr s
  let s ← expect ',' s
  let (needle, s) ← p.stringExpr s
  let s ← expect ')' s
  pure (instrOf haystack needle, s)

/-- The argument is in the variable of the parameter, and the call on record. -/
def Interp.entered (s : Interp) (f : DefFn) (arg : Int32) : Interp :=
  { s with vars := Function.update s.vars f.paramVar arg, history := s.history.enter f.fnLetter }

/-- The parameter has its old value again. -/
def Interp.left (s : Interp) (f : DefFn) (oldVal : Int32) : Interp :=
  { s with vars := Function.update s.vars f.paramVar oldVal, history := s.history.leave }

/-- The body with the argument in the variable of the parameter, which is restored
on the error return too. -/
def callFn (f : DefFn) (s : Text) : M (Int32 × Text) := do
  let (arg, s) ← parseBuiltinParenExpr p s
  let vars ← Exec.gets Interp.vars
  Exec.modify fun s => s.entered f arg
  let r ← Exec.attempt (p.expr f.body.val)
  Exec.modify fun s => s.left f (vars f.paramVar)
  let (v, _) ← Exec.ofOption r
  pure (v, s)

/-- `FN`, a letter, and no more of an identifier. -/
def isFnName (s : Text) : Bool :=
  up (peek s) = ('F' : UInt8) ∧ up (peek (s.drop 1)) = ('N' : UInt8) ∧ isAlpha (peek (s.drop 2)) ∧
    isIdentTail (peek (s.drop 3)) = false

def parseFn (s : Text) : M (Int32 × Text) := do
  let defFns ← Exec.gets Interp.defFns
  let f ← Exec.ofOption (defFns.find? fun f => f.fnLetter = letterOf (peek (s.drop 2)))
  callFn p f (s.drop 3)

/-- What stands where a name begins: a builtin, a stored function, a variable. -/
def parseNamed (s : Text) : M (Int32 × Text) :=
  if callsBuiltin s (chars "ABS") then parseAbs p (s.drop 3)
  else if callsBuiltin s (chars "RND") then parseRnd p (s.drop 3)
  else if callsBuiltin s (chars "LEN") then parseLen p (s.drop 3)
  else if callsBuiltin s (chars "VAL") then parseVal p (s.drop 3)
  else if callsBuiltin s (chars "ASC") then parseAsc p (s.drop 3)
  else if callsBuiltin s (chars "EOF") then parseEof p (s.drop 3)
  else if callsBuiltin s (chars "INSTR") then parseInstr p (s.drop 5)
  else if isFnName s then parseFn p s
  else parseValue p s

/-- What a run of signs stands before. -/
def parsePrimary (s : Text) : M (Int32 × Text) :=
  if peek s = ('(' : UInt8) then parseBuiltinParenExpr p s
  else if isAlpha (peek s) then parseNamed p s
  else parseValue p s

/-- `while (*s == '+' || *s == '-')`: the sign and the text after the run. -/
def signRun (sign : Int32) : Text → Int32 × Text
  | [] => (sign, [])
  | c :: s =>
    if c = ('-' : UInt8) then signRun (-sign) s
    else if c = ('+' : UInt8) ∨ isSpace c = true then signRun sign s
    else (sign, c :: s)

def parseNot (s : Text) : M (Int32 × Text) := do
  let (v, s) ← p.factor (skipSpaces (s.drop 3))
  pure (~~~v, s)

def parseSigned (s : Text) : M (Int32 × Text) := do
  let (sign, s) := signRun 1 s
  let (v, s) ← parsePrimary p s
  pure (v * sign, s)

def parseFactor (s : Text) : M (Int32 × Text) :=
  let s := skipSpaces s
  if nameMatchesCi s (chars "NOT") then parseNot p s else parseSigned p s

/-! ### Terms and expressions -/

/-- An operator of a level: how long it is, and what it does. -/
structure Infix where
  length : ℕ
  apply : Int32 → Int32 → M Int32

def total (op : Int32 → Int32 → Int32) (lhs rhs : Int32) : M Int32 := pure (op lhs rhs)

def termOp (s : Text) : Option Infix :=
  if peek s = ('*' : UInt8) then some ⟨1, total (· * ·)⟩
  else if peek s = ('/' : UInt8) then some ⟨1, divide (· / ·)⟩
  else if peek s = ('%' : UInt8) then some ⟨1, divide (· % ·)⟩
  else none

def exprOp (s : Text) : Option Infix :=
  if peek s = ('+' : UInt8) then some ⟨1, total (· + ·)⟩
  else if peek s = ('-' : UInt8) then some ⟨1, total (· - ·)⟩
  else if nameMatchesCi s (chars "AND") then some ⟨3, total (· &&& ·)⟩
  else if nameMatchesCi s (chars "OR") then some ⟨2, total (· ||| ·)⟩
  else if nameMatchesCi s (chars "XOR") then some ⟨3, total (· ^^^ ·)⟩
  else none

/-- `for (;;)` of a level, with its operators and the parser of its operands. -/
def levelLoop (op : Text → Option Infix) (operand : Text → M (Int32 × Text)) : ℕ → Int32 → Text → M (Int32 × Text)
  | 0, _, _ => Exec.hang
  | n + 1, lhs, s =>
    let s := skipSpaces s
    match op s with
    | none => pure (lhs, s)
    | some o => do
      let (rhs, s) ← operand (s.drop o.length)
      let lhs ← o.apply lhs rhs
      levelLoop op operand n lhs s

def parseTerm (n : ℕ) (s : Text) : M (Int32 × Text) := do
  let (lhs, s) ← parseFactor p s
  levelLoop termOp (parseFactor p) n lhs s

def parseExpr (n : ℕ) (s : Text) : M (Int32 × Text) := do
  let (lhs, s) ← parseTerm p n s
  levelLoop exprOp (parseTerm p n) n lhs s

def parseStringExpr (n : ℕ) (s : Text) : M (Text × Text) := stringLoop p n [] (skipSpaces s)

end Parse

/-- The parsers that may nest `n` deep. -/
def parsers : ℕ → Parsers
  | 0 => ⟨fun _ => Exec.hang, fun _ => Exec.hang, fun _ => Exec.hang⟩
  | n + 1 => ⟨parseFactor (parsers n), parseExpr (parsers n) n, parseStringExpr (parsers n) (n + 1)⟩

end Tg11Kernel.Basic
