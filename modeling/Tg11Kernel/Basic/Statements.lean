import Tg11Kernel.Basic.Expr

/-! The statements of BASIC and the run of a program. A statement is recognised by the
word that it begins with, in the order of the source, so that a word which an earlier
test accepts never reaches a later one. -/

namespace Tg11Kernel.Basic

open Lib

/-! ### Lines -/

/-- The text of a line after its label. -/
def statementStart (line : Text) : Text :=
  let s := skipSpaces line
  if isDigit (peek s) = true ∨ peek s = ('-' : UInt8) then
    match parseInt s with
    | some (_, t) => if isSpace (peek t) then skipSpaces t else s
    | none => s
  else s

def notEol (c : UInt8) : Bool := c ≠ ('\n' : UInt8) ∧ c ≠ ('\r' : UInt8)

/-- One end of a line is skipped. -/
def afterEol : Text → Text
  | [] => []
  | c :: p => if c = ('\r' : UInt8) ∧ peek p = ('\n' : UInt8) then p.tail else p

/-- The first lines of a text, as many as the table holds. -/
def splitLines : ℕ → Text → List Text
  | 0, _ => []
  | room + 1, p => if p = [] then [] else p.takeWhile notEol :: splitLines room (afterEol (p.dropWhile notEol))

def lineLabel (line : Text) : Int32 :=
  match parseInt line with
  | some (label, q) => if isSpace (peek q) then label else -1
  | none => -1

def programLines (text : Text) : List Line :=
  (splitLines BASIC_MAX_LINES (cString text)).map fun line => ⟨lineLabel line, line⟩

/-- What a statement does to the run. -/
inductive Flow where
  | go
  | exit
  deriving DecidableEq

def nextLine : M Flow := do
  Exec.modify fun s => { s with pc := s.pc + 1 }
  pure .go

def jump (pc : ℕ) : M Flow := do
  Exec.modify fun s => { s with pc := pc }
  pure .go

section Run

variable (lines : List Line)

def textAt (pc : ℕ) : Text :=
  match lines[pc]? with
  | some line => line.text
  | none => []

/-! ### Errors -/

/-- The label of a line, or its number where it has no label. -/
def placeText (pc : ℕ) : Text :=
  match lines[pc]? with
  | some line => if 0 ≤ line.label then chars "L" ++ numeral 16 line.label else chars "PC" ++ numeral 16 (Int32.ofNat pc)
  | none => chars "PC?"

def runtimeError (message : String) : M Unit := do
  let pc ← Exec.gets Interp.pc
  terminalWrite (chars "[basic " ++ placeText lines pc ++ chars "] ")
  terminalWriteLine (chars message)
  if pc < lines.length then do
    terminalWrite (chars "  -> ")
    terminalWriteLine (textAt lines pc)
  else pure ()

/-- `B_RT_ERR`, before it goes to the cleanup -/
def rtErr (message : String) : M Unit := do
  runtimeError lines message
  Exec.modify fun s => { s with errFlag := true }

def rtFail {α : Type} (message : String) : M α := do
  rtErr lines message
  Exec.fail

/-- Where a parser returns -1 the statement is an error. -/
def orErr {α : Type} (m : M α) (message : String) : M α := Exec.orElse m (rtErr lines message)

def check (c : Prop) [Decidable c] (message : String) : M Unit := orErr lines (Exec.require c) message

/-! ### Searches in the program -/

/-- The first `closes` that no `opens` before it takes, from line `i` on. -/
def findMatching (opens closes : Text) : ℕ → ℕ → List Line → Option ℕ
  | _, _, [] => none
  | depth, i, line :: rest =>
    let s := statementStart line.text
    if startsWithCi s opens then findMatching opens closes (depth + 1) (i + 1) rest
    else if startsWithCi s closes then
      if depth = 0 then some i else findMatching opens closes (depth - 1) (i + 1) rest
    else findMatching opens closes depth (i + 1) rest

def findMatchingNext (forPc : ℕ) : Option ℕ :=
  findMatching (chars "FOR") (chars "NEXT") 0 (forPc + 1) (lines.drop (forPc + 1))

def findMatchingWend (whilePc : ℕ) : Option ℕ :=
  findMatching (chars "WHILE") (chars "WEND") 0 (whilePc + 1) (lines.drop (whilePc + 1))

def findLabel (label : Int32) : Option ℕ := lines.findIdx? fun line => line.label = label

/-- The label at place `pick`, which counts from 1, of a list with commas. -/
def parseLabelListPick : ℕ → Text → Option Int32
  | 0, _ => none
  | pick + 1, s =>
    match parseInt s with
    | none => none
    | some (label, s) =>
      if pick = 0 then some label
      else if peek (skipSpaces s) = (',' : UInt8) then parseLabelListPick pick (skipSpaces s).tail
      else none

/-! ### DATA -/

/-- The items of a `DATA` line. -/
def dataStart (line : Line) : Option Text :=
  let s := statementStart line.text
  if startsWithCi s (chars "DATA") then some (skipSpaces (s.drop 4)) else none

/-- The text after an item: blanks and one comma are skipped. -/
def afterItem (s : Text) : Text :=
  let s := skipSpaces s
  if peek s = (',' : UInt8) then s.tail else s

def trimEnd (s : Text) : Text := (s.reverse.dropWhile isSpace).reverse

/-- An item, whether it stands between quotes, and the text after it. -/
def dataItem (item : Text) : Text × Bool × Text :=
  if peek item = ('"' : UInt8) then
    let rest := item.tail.dropWhile (· ≠ ('"' : UInt8))
    ((item.tail.takeWhile (· ≠ ('"' : UInt8))).take (BASIC_MAX_STRING_LEN - 1), true, afterItem rest.tail)
  else
    (trimEnd ((item.takeWhile (· ≠ (',' : UInt8))).take (BASIC_MAX_STRING_LEN - 1)), false,
      afterItem (item.dropWhile (· ≠ (',' : UInt8))))

def isDataGap (c : UInt8) : Bool := isSpace c || c = (',' : UInt8)

/-- The next item at or after an offset in line `li`, with the place after it. -/
def nextDataItem : ℕ → List Line → ℕ → Option (Text × Bool × ℕ × ℕ)
  | _, [], _ => none
  | li, line :: rest, offset =>
    match dataStart line with
    | none => nextDataItem (li + 1) rest 0
    | some start =>
      let item := (start.drop offset).dropWhile isDataGap
      if item = [] then nextDataItem (li + 1) rest 0
      else
        let (token, isString, after) := dataItem item
        some (token, isString, li, start.length - after.length)

/-- A search that fails in a line has cleared the offset. -/
def readNextDataItem : M (Text × Bool) := do
  let li ← Exec.gets Interp.dataLine
  let offset ← Exec.gets Interp.dataOffset
  match nextDataItem li (lines.drop li) offset with
  | some (token, isString, li, offset) => do
    Exec.modify fun s => { s with dataLine := li, dataOffset := offset }
    pure (token, isString)
  | none => do
    Exec.modify fun s => { s with dataOffset := if li < lines.length then 0 else offset }
    Exec.fail

/-- The cursor goes to the first line, or to the line of a label that is not negative. -/
def dataResetCursor (label : Int32) : M Unit := do
  let i ← Exec.ofOption (if 0 ≤ label then findLabel lines label else some 0)
  Exec.modify fun s => { s with dataLine := i, dataOffset := 0 }

variable (p : Parsers) (n : ℕ)

/-! ### Output and input -/

/-- `b_print_int` -/
def printInt (v : Int32) : M Unit := terminalWrite (numeral 15 v)

/-- `TAB(v)` and `SPC(v)` -/
def printSpaces (message : String) (s : Text) : M Text := do
  let (v, s) ← orErr lines (parseBuiltinParenExpr p s) message
  Exec.modify fun t => { t with output := t.output ++ List.replicate v.toInt.toNat (.write [(' ' : UInt8)]) }
  pure s

/-- A string, or else a number. -/
def printValue (s : Text) : M Text := do
  match ← Exec.attempt (p.stringExpr s) with
  | some (t, s) => do
    terminalWrite t
    pure s
  | none => do
    let (v, s) ← orErr lines (p.expr s) "PRINT parse error"
    printInt v
    pure s

def printItem (s : Text) : M Text :=
  if callsBuiltin s (chars "TAB") then printSpaces lines p "PRINT TAB parse error" (s.drop 3)
  else if callsBuiltin s (chars "SPC") then printSpaces lines p "PRINT SPC parse error" (s.drop 3)
  else printValue lines p s

/-- `while (keep_printing)`; the value is the separator that the text ends with, or 0. -/
def printLoop : ℕ → Text → M UInt8
  | 0, _ => Exec.hang
  | k + 1, s => do
    let s ← printItem lines p (skipSpaces s)
    let s := skipSpaces s
    if peek s = (',' : UInt8) ∨ peek s = (';' : UInt8) then do
      let _ ← (if peek s = (',' : UInt8) then terminalWrite [(' ' : UInt8)] else pure ())
      if skipSpaces s.tail = [] then pure (peek s) else printLoop k (skipSpaces s.tail)
    else pure 0

def printStatement (s : Text) : M Flow := do
  let s := skipSpaces (s.drop 5)
  if s = [] then do
    terminalWrite [('\n' : UInt8)]
    nextLine
  else do
    let trailingSep ← printLoop lines p n s
    let _ ← (if trailingSep ≠ (';' : UInt8) then terminalWrite [('\n' : UInt8)] else pure ())
    nextLine

/-- `READ` stores an item. -/
def storeItem (i : Letter) (isString : Bool) (token : Text) (tokenIsString : Bool) : M Unit :=
  if isString then setStrVar i (copyString BASIC_MAX_STRING_LEN token)
  else do
    check lines (tokenIsString = false) "READ type mismatch (string -> number)"
    let (v, tp) ← orErr lines (p.expr token) "READ numeric parse error"
    check lines (skipSpaces tp = []) "READ numeric trailing text"
    setVar i v

def readLoop : ℕ → Text → M Unit
  | 0, _ => Exec.hang
  | k + 1, s => do
    let (i, isString, s) ← orErr lines (Exec.ofOption (parseVarRef s)) "READ var parse error"
    let (token, tokenIsString) ← orErr lines (readNextDataItem lines) "READ out of DATA"
    storeItem lines p i isString token tokenIsString
    let s := skipSpaces s
    if peek s = (',' : UInt8) then readLoop k (skipSpaces s.tail) else pure ()

def readStatement (s : Text) : M Flow := do
  readLoop lines p n (skipSpaces (s.drop 4))
  nextLine

def restoreStatement (s : Text) : M Flow := do
  let s := skipSpaces (s.drop 7)
  let label ← (if s = [] then pure (-1)
    else orErr lines (do
      let (label, _) ← Exec.ofOption (parseInt s)
      pure label) "RESTORE label parse error")
  orErr lines (dataResetCursor lines label) "RESTORE label not found"
  nextLine

/-- The prompt of `INPUT`, and the text after it. -/
def inputPrompt (s : Text) : M (Text × Text) :=
  if peek s = ('"' : UInt8) then do
    let (prompt, s) ← orErr lines (Exec.ofOption (parseStringLiteral BASIC_MAX_STRING_LEN s)) "INPUT prompt error"
    let s := skipSpaces s
    pure (prompt, if peek s = (';' : UInt8) ∨ peek s = (',' : UInt8) then s.tail else s)
  else pure ([], s)

/-- A typed line becomes the value of a variable. -/
def storeInput (i : Letter) (isString : Bool) (inbuf : Text) : M Unit :=
  if isString then
    if peek inbuf = ('"' : UInt8) then do
      let (tmp, _) ← orErr lines (Exec.ofOption (parseStringLiteral BASIC_MAX_STRING_LEN inbuf)) "INPUT string parse error"
      setStrVar i (copyString BASIC_MAX_STRING_LEN tmp)
    else setStrVar i (copyString BASIC_MAX_STRING_LEN inbuf)
  else do
    let (v, sp) ← orErr lines (p.expr inbuf) "INPUT number parse error"
    check lines (skipSpaces sp = []) "INPUT trailing text"
    setVar i v

def inputStatement (s : Text) : M Flow := do
  let (prompt, s) ← inputPrompt lines (skipSpaces (s.drop 5))
  let (i, isString, _) ← orErr lines (Exec.ofOption (parseVarRef s)) "INPUT var error"
  terminalWrite (if prompt = [] then chars "? " else prompt)
  let line ← orErr lines terminalReadLine "INPUT read error"
  storeInput lines p i isString (trimSpaces line)
  nextLine

/-! ### Arrays and assignments -/

/-- The new array has `size + 1` elements, all 0. -/
def dimArray (i : Letter) (size : Int32) : M Unit :=
  Exec.modify fun s =>
    { s with
      arraySizes := Function.update s.arraySizes i (size.toInt.toNat + 1)
      arrays := Function.update s.arrays i fun k => if k < size.toInt.toNat + 1 then 0 else s.arrays i k }

def dimLoop : ℕ → Text → M Unit
  | 0, _ => Exec.hang
  | k + 1, s => do
    let (i, s) ← orErr lines (Exec.ofOption (parseVar s)) "DIM var parse error"
    let s ← orErr lines (expect '(' s) "DIM missing '('"
    let (size, s) ← orErr lines (p.expr s) "DIM size parse error"
    let s ← orErr lines (expect ')' s) "DIM missing ')'"
    check lines (0 ≤ size ∧ size.toInt < BASIC_ARRAY_MAX) "DIM size out of range"
    dimArray i size
    let s := skipSpaces s
    if peek s = (',' : UInt8) then dimLoop k s.tail else pure ()

def dimStatement (s : Text) : M Flow := do
  dimLoop lines p n (skipSpaces (s.drop 3))
  nextLine

/-- The index of a target in parentheses; -1 where there is none. -/
def targetIndex (isString : Bool) (indexMessage parenMessage : String) (s : Text) : M (Int32 × Text) :=
  if isString = false ∧ peek s = ('(' : UInt8) then do
    let (index, t) ← orErr lines (p.expr s.tail) indexMessage
    let t ← orErr lines (expect ')' t) parenMessage
    pure (index, skipSpaces t)
  else pure (-1, s)

/-- The right-hand side of a string assignment: a literal or a string variable, and no more. -/
def stringRhs (literalMessage valueMessage : String) (s : Text) : M Text :=
  let s := skipSpaces s
  if peek s = ('"' : UInt8) then do
    let (sbuf, _) ← orErr lines (Exec.ofOption (parseStringLiteral BASIC_MAX_STRING_LEN s)) literalMessage
    pure sbuf
  else if isAlpha (peek s) then do
    let (sbuf, _) ← orErr lines (parseStrVar s) valueMessage
    pure sbuf
  else rtFail lines valueMessage

/-- An index that is not negative selects an array element. -/
def storeNumber (i : Letter) (index v : Int32) (rangeMessage : String) : M Unit :=
  if 0 ≤ index then orErr lines (arraySet i index v) rangeMessage else setVar i v

/-- What stands after the `=` is stored. -/
def assign (i : Letter) (isString : Bool) (index : Int32) (literalMessage stringMessage numberMessage rangeMessage : String)
    (s : Text) : M Flow :=
  if isString then do
    let sbuf ← stringRhs lines literalMessage stringMessage s
    setStrVar i (copyString BASIC_MAX_STRING_LEN sbuf)
    nextLine
  else do
    let (v, _) ← orErr lines (p.expr s) numberMessage
    storeNumber lines i index v rangeMessage
    nextLine

def letStatement (s : Text) : M Flow := do
  let (i, isString, s) ← orErr lines (Exec.ofOption (parseVarRef (skipSpaces (s.drop 3)))) "LET var error"
  let (index, s) ← targetIndex lines p isString "LET array index parse error" "LET array missing ')'" (skipSpaces s)
  check lines (peek s = ('=' : UInt8)) "LET missing '='"
  assign lines p i isString index "LET string literal error" "LET string value error" "LET value error"
    "LET array index out of range" s.tail

def assignStatement (s : Text) : M Flow :=
  if isAlpha (peek s) then
    match parseVarRef s with
    | none => rtFail lines "unknown statement"
    | some (i, isString, s) => do
      let (index, s) ← targetIndex lines p isString "assignment array index parse error" "assignment array missing ')'"
        (skipSpaces s)
      if peek s = ('=' : UInt8) then
        assign lines p i isString index "assignment string literal error" "assignment string value error"
          "assignment value error" "assignment array index out of range" s.tail
      else rtFail lines "unknown statement"
  else rtFail lines "unknown statement"

/-- The variable and the value of `ADD`, `SUB`, `MUL`, `DIV` and `MOD`. -/
def updateArgs (s : Text) : M (Letter × Int32) := do
  let (i, s) ← Exec.ofOption (parseVar s)
  let (v, _) ← p.expr s
  pure (i, v)

def updateStatement (op : Int32 → Int32 → M Int32) (message : String) (s : Text) : M Flow := do
  let (i, v) ← orErr lines (updateArgs p (skipSpaces (s.drop 3))) message
  let vars ← Exec.gets Interp.vars
  let r ← op (vars i) v
  setVar i r
  nextLine

/-! ### Loops -/

def forStep (s : Text) : M Int32 :=
  if startsWithCi s (chars "STEP") then do
    let (step, _) ← orErr lines (p.expr (skipSpaces (s.drop 4))) "FOR STEP parse error"
    pure step
  else pure 1

/-- The loop is over before it begins. -/
def forDone (value endValue step : Int32) : Bool := 0 < step ∧ endValue < value ∨ step < 0 ∧ value < endValue

def pushFor (f : ForFrame) : M Flow := do
  let forStack ← Exec.gets Interp.forStack
  check lines (forStack.length < BASIC_MAX_FOR_DEPTH) "FOR stack overflow"
  Exec.modify fun s => { s with forStack := f :: s.forStack }
  nextLine

def forStatement (s : Text) : M Flow := do
  let pc ← Exec.gets Interp.pc
  let (i, s) ← orErr lines (Exec.ofOption (parseVar (skipSpaces (s.drop 3)))) "FOR var error"
  let s ← orErr lines (expect '=' s) "FOR missing '='"
  let (startValue, s) ← orErr lines (p.expr s) "FOR start value error"
  let s := skipSpaces s
  check lines (startsWithCi s (chars "TO") = true) "FOR missing TO"
  let (endValue, s) ← orErr lines (p.expr (skipSpaces (s.drop 2))) "FOR end value error"
  let step ← forStep lines p (skipSpaces s)
  check lines (step ≠ 0) "FOR STEP cannot be zero"
  setVar i startValue
  if forDone startValue endValue step then do
    let nextPc ← orErr lines (Exec.ofOption (findMatchingNext lines pc)) "FOR missing NEXT"
    jump (nextPc + 1)
  else pushFor lines ⟨i, endValue, step, pc + 1⟩

/-- The variable that `NEXT` names. -/
def nextVar (s : Text) : M (Option Letter) :=
  if isAlpha (peek s) then do
    let (i, _) ← orErr lines (Exec.ofOption (parseVar s)) "NEXT var parse error"
    pure (some i)
  else pure none

def nextStatement (s : Text) : M Flow := do
  let name ← nextVar lines (skipSpaces (s.drop 4))
  let forStack ← Exec.gets Interp.forStack
  match forStack with
  | [] => rtFail lines "NEXT without FOR"
  | f :: rest => do
    check lines (∀ i, name = some i → f.varIdx = i) "NEXT var mismatch"
    let vars ← Exec.gets Interp.vars
    let v := vars f.varIdx + f.stepValue
    setVar f.varIdx v
    if 0 < f.stepValue ∧ v ≤ f.endValue ∨ f.stepValue < 0 ∧ f.endValue ≤ v then jump f.bodyPc
    else do
      Exec.modify fun s => { s with forStack := rest }
      nextLine

def whileStatement (s : Text) : M Flow := do
  let pc ← Exec.gets Interp.pc
  let (cond, _) ← orErr lines (p.expr (skipSpaces (s.drop 5))) "WHILE condition error"
  if cond ≠ 0 then do
    let whileStack ← Exec.gets Interp.whileStack
    check lines (whileStack.length < BASIC_MAX_WHILE_DEPTH) "WHILE nested too deep"
    Exec.modify fun s => { s with whileStack := pc :: s.whileStack }
    nextLine
  else do
    let wendPc ← orErr lines (Exec.ofOption (findMatchingWend lines pc)) "WHILE without WEND"
    jump (wendPc + 1)

def wendStatement : M Flow := do
  let whileStack ← Exec.gets Interp.whileStack
  match whileStack with
  | [] => rtFail lines "WEND without WHILE"
  | whilePc :: rest => do
    let ws := statementStart (textAt lines whilePc)
    let (cond, _) ← orErr lines (p.expr (skipSpaces (ws.drop 5))) "WEND condition re-eval error"
    if cond ≠ 0 then jump (whilePc + 1)
    else do
      Exec.modify fun s => { s with whileStack := rest }
      nextLine

/-! ### Functions -/

/-- The first 127 bytes. -/
def bodyOf (s : Text) : Body := ⟨s.take 127, Nat.lt_succ_of_le (List.length_take_le ..)⟩

/-- The definition replaces the one of the same letter, or takes a free place. -/
def storeFn (f : DefFn) (defFns : List DefFn) : Option (List DefFn) :=
  match defFns.findIdx? fun g => g.fnLetter = f.fnLetter with
  | some i => some (defFns.set i f)
  | none => if defFns.length < BASIC_MAX_DEF_FN then some (defFns ++ [f]) else none

def defStatement (s : Text) : M Flow := do
  let s := skipSpaces (s.drop 3)
  check lines (up (peek s) = ('F' : UInt8) ∧ up (peek (s.drop 1)) = ('N' : UInt8) ∧ isAlpha (peek (s.drop 2)) = true)
    "DEF FN syntax error"
  let fn := letterOf (peek (s.drop 2))
  let s ← orErr lines (expect '(' (s.drop 3)) "DEF FN missing ("
  let s := skipSpaces s
  check lines (isAlpha (peek s) = true) "DEF FN missing param"
  let pv := letterOf (peek s)
  let s ← orErr lines (expect ')' s.tail) "DEF FN missing )"
  let s ← orErr lines (expect '=' s) "DEF FN missing ="
  let defFns ← Exec.gets Interp.defFns
  let defFns ← orErr lines (Exec.ofOption (storeFn ⟨fn, pv, bodyOf (skipSpaces s)⟩ defFns)) "Too many DEF FN"
  Exec.modify fun s => { s with defFns := defFns }
  nextLine

/-! ### Jumps -/

/-- A label at `s` and the line that has it. -/
def target (parseMessage notFoundMessage : String) (s : Text) : M ℕ := do
  let (label, _) ← orErr lines (Exec.ofOption (parseInt s)) parseMessage
  orErr lines (Exec.ofOption (findLabel lines label)) notFoundMessage

def gotoStatement (s : Text) : M Flow := do
  let pc ← target lines "GOTO parse error" "GOTO label not found" (skipSpaces (s.drop 4))
  jump pc

/-- The line after this one is put on the stack. -/
def pushCall (message : String) : M Unit := do
  let callStack ← Exec.gets Interp.callStack
  check lines (callStack.length < BASIC_MAX_CALL_DEPTH) message
  Exec.modify fun s => { s with callStack := (s.pc + 1) :: s.callStack }

def gosubStatement (s : Text) : M Flow := do
  let pc ← target lines "GOSUB parse error" "GOSUB label not found" (skipSpaces (s.drop 5))
  pushCall lines "GOSUB stack overflow"
  jump pc

/-- Whether the list after `ON` is one of `GOSUB`, and the list. -/
def onKind (s : Text) : Option (Bool × Text) :=
  if startsWithCi s (chars "GOTO") then some (false, skipSpaces (s.drop 4))
  else if startsWithCi s (chars "GOSUB") then some (true, skipSpaces (s.drop 5))
  else none

def onStatement (s : Text) : M Flow := do
  let (selector, s) ← orErr lines (p.expr (skipSpaces (s.drop 2))) "ON selector parse error"
  let (doGosub, s) ← orErr lines (Exec.ofOption (onKind (skipSpaces s))) "ON missing GOTO/GOSUB"
  match parseLabelListPick selector.toInt.toNat s with
  | none => nextLine
  | some label => do
    let pc ← orErr lines (Exec.ofOption (findLabel lines label)) "ON target label not found"
    let _ ← (if doGosub then pushCall lines "ON GOSUB stack overflow" else pure ())
    jump pc

def returnStatement : M Flow := do
  let callStack ← Exec.gets Interp.callStack
  match callStack with
  | [] => rtFail lines "RETURN without GOSUB"
  | pc :: rest => do
    Exec.modify fun s => { s with callStack := rest }
    jump pc

/-- The comparison at `s`, and the text after it. -/
def parseCmp (s : Text) : Option ((Int32 → Int32 → Bool) × Text) :=
  let c := peek s
  let d := peek s.tail
  if c = ('=' : UInt8) ∧ d = ('=' : UInt8) then some (fun a b => a = b, s.drop 2)
  else if c = ('=' : UInt8) then some (fun a b => a = b, s.drop 1)
  else if c = ('!' : UInt8) ∧ d = ('=' : UInt8) then some (fun a b => a ≠ b, s.drop 2)
  else if c = ('<' : UInt8) ∧ d = ('>' : UInt8) then some (fun a b => a ≠ b, s.drop 2)
  else if c = ('>' : UInt8) ∧ d = ('=' : UInt8) then some (fun a b => b ≤ a, s.drop 2)
  else if c = ('<' : UInt8) ∧ d = ('=' : UInt8) then some (fun a b => a ≤ b, s.drop 2)
  else if c = ('>' : UInt8) then some (fun a b => b < a, s.drop 1)
  else if c = ('<' : UInt8) then some (fun a b => a < b, s.drop 1)
  else none

def ifStatement (s : Text) : M Flow := do
  let (lhs, s) ← orErr lines (p.expr (skipSpaces (s.drop 2))) "IF lhs error"
  let (cmp, s) ← orErr lines (Exec.ofOption (parseCmp (skipSpaces s))) "IF operator error"
  let (rhs, s) ← orErr lines (p.expr s) "IF rhs error"
  let s := skipSpaces s
  check lines (startsWithCi s (chars "THEN") = true) "IF missing THEN"
  let (label, _) ← orErr lines (Exec.ofOption (parseInt (skipSpaces (s.drop 4)))) "IF THEN label error"
  if cmp lhs rhs then do
    let pc ← orErr lines (Exec.ofOption (findLabel lines label)) "IF target label not found"
    jump pc
  else nextLine

/-! ### Files -/

/-- The mode after the name of a file, and the text after it. -/
def openMode (s : Text) : M (FileMode × Text) :=
  if startsWithCi s (chars "FOR") then
    let s := skipSpaces (s.drop 3)
    if startsWithCi s (chars "INPUT") then pure (.input, s.drop 5)
    else if startsWithCi s (chars "OUTPUT") then pure (.output, s.drop 6)
    else if startsWithCi s (chars "APPEND") then pure (.append, s.drop 6)
    else rtFail lines "OPEN mode error"
  else pure (.input, s)

/-- The channel after a `#`, and the text after its number. -/
def fileNumber (missing numberMessage rangeMessage : String) (s : Text) : M (Chan × Text) := do
  check lines (peek s = ('#' : UInt8)) missing
  let (fnum, s) ← orErr lines (p.expr s.tail) numberMessage
  let c ← orErr lines (Exec.ofOption (chanOf fnum)) rangeMessage
  pure (c, s)

/-- `fs_read_file` into the buffer of a channel. -/
def readPath (path : Text) : M Text := onRamfs (Ramfs.readFile (some path) (BASIC_FILE_BUF - 1))

/-- The buffer of a new channel is filled from its file. A file that does not exist is
an error for input only. -/
def fillChan (c : Chan) (fname : Text) (mode : FileMode) : M Unit :=
  match mode with
  | .input => do
    match ← Exec.attempt (readPath fname) with
    | some buf => setFile c fun f => { f with buf := buf }
    | none => do
      setFile c fun f => { f with active := false }
      rtFail lines "OPEN cannot read file"
  | .output => pure ()
  | .append => do
    match ← Exec.attempt (readPath fname) with
    | some buf => setFile c fun f => { f with buf := buf, bufPos := buf.length }
    | none => pure ()

def openStatement (s : Text) : M Flow := do
  let (fname, s) ← orErr lines (Exec.ofOption (parseStringLiteral 64 (skipSpaces (s.drop 4)))) "OPEN filename error"
  let (mode, s) ← openMode lines (skipSpaces s)
  let s := skipSpaces s
  let s := if startsWithCi s (chars "AS") then skipSpaces (s.drop 2) else s
  let (c, _) ← fileNumber lines p "OPEN missing #" "OPEN file number error" "OPEN file number out of range (1-4)" s
  let files ← Exec.gets Interp.files
  check lines ((files c).active = false) "OPEN file already open"
  setFile c fun _ => ⟨true, mode, copyString 64 fname, [], 0⟩
  fillChan lines c fname mode
  nextLine

/-- What was written to a channel goes to its file; whether that works is not looked at. -/
def flushChan (c : Chan) : M Unit := do
  let files ← Exec.gets Interp.files
  let _ ← (if (files c).mode ≠ .input then
      Exec.ignore (Exec.attempt (onRamfs
        (Ramfs.writeFile (some (files c).path) (some (files c).buf) (files c).buf.length)))
    else pure ())
  setFile c fun f => { f with active := false }

def closeStatement (s : Text) : M Flow := do
  let (c, _) ← fileNumber lines p "CLOSE missing #" "CLOSE file number error" "CLOSE file number out of range"
    (skipSpaces (s.drop 5))
  let files ← Exec.gets Interp.files
  check lines ((files c).active = true) "CLOSE file not open"
  flushChan c
  nextLine

/-- An item of `PRINT #`: a literal, a string variable or a number. -/
def printFileItem (s : Text) : M (Text × Text) :=
  if peek s = ('"' : UInt8) then Exec.ofOption (parseStringLiteral BASIC_MAX_STRING_LEN s)
  else do
    let strVars ← Exec.gets Interp.strVars
    match parseVarRef s with
    | some (i, true, rest) =>
      if peek s.tail = ('$' : UInt8) ∨ isIdentTail (peek s.tail) = false then pure (cString (strVars i), rest)
      else do
        let (v, s) ← p.expr s
        pure (intToText v, s)
    | _ => do
      let (v, s) ← p.expr s
      pure (intToText v, s)

/-- The text that `PRINT #` writes, in a buffer of 256 bytes. -/
def printFileLoop : ℕ → Text → Text → M Text
  | 0, _, _ => Exec.hang
  | k + 1, out, s =>
    if s ≠ [] ∧ out.length + 1 < 256 then do
      match ← Exec.attempt (printFileItem p s) with
      | none => pure out
      | some (piece, s) =>
        let out := out ++ piece.take (255 - out.length)
        let s := skipSpaces s
        if peek s = (';' : UInt8) then printFileLoop k out (skipSpaces s.tail)
        else if peek s = (',' : UInt8) then printFileLoop k (out ++ [('\t' : UInt8)]) (skipSpaces s.tail)
        else pure out
    else pure out

/-- `if (*s == ',') s++` between blanks -/
def skipComma (s : Text) : Text :=
  let s := skipSpaces s
  skipSpaces (if peek s = (',' : UInt8) then s.tail else s)

def printFileStatement (s : Text) : M Flow := do
  let (c, s) ← fileNumber lines p "PRINT# file number error" "PRINT# file number error" "PRINT# file number out of range"
    (skipSpaces (s.drop 5))
  let files ← Exec.gets Interp.files
  check lines ((files c).active = true ∧ (files c).mode ≠ .input) "PRINT# file not open for output"
  let out ← printFileLoop p n [] (skipComma s)
  setFile c fun f => { f with buf := f.buf ++ (out ++ [('\n' : UInt8)]).take (BASIC_FILE_BUF - 1 - f.buf.length) }
  nextLine

/-- A line of a channel without its returns, at most `room` bytes, and what is left. -/
def channelLine : ℕ → Text → Text × Text
  | _, [] => ([], [])
  | room, c :: rest =>
    if c = ('\n' : UInt8) ∨ room = 0 then ([], c :: rest)
    else if c = ('\r' : UInt8) then channelLine room rest
    else
      let (line, left) := channelLine (room - 1) rest
      (c :: line, left)

def inputFileStatement (s : Text) : M Flow := do
  let (c, s) ← fileNumber lines p "INPUT# file number error" "INPUT# file number error" "INPUT# file number out of range"
    (skipSpaces (s.drop 5))
  let files ← Exec.gets Interp.files
  check lines ((files c).active = true ∧ (files c).mode = .input) "INPUT# file not open for input"
  let (i, isString, _) ← orErr lines (Exec.ofOption (parseVarRef (skipComma s))) "INPUT# variable error"
  let (line, left) := channelLine (BASIC_MAX_STRING_LEN - 1) ((files c).buf.drop (files c).bufPos)
  let left := if left.head? = some ('\n' : UInt8) then left.tail else left
  setFile c fun f => { f with bufPos := f.buf.length - left.length }
  if isString then do
    setStrVar i (copyString BASIC_MAX_STRING_LEN line)
    nextLine
  else do
    let (v, _) ← orErr lines (p.expr (cString line)) "INPUT# numeric parse error"
    setVar i v
    nextLine

/-! ### The run -/

/-- The variables and arrays as a run begins with them. -/
def Interp.cleared (s : Interp) : Interp :=
  { s with vars := fun _ => 0, strVars := fun _ => [], arrays := fun _ _ => 0, arraySizes := fun _ => 0 }

/-- `RUN` starts again; the functions, the channels and the stack of `WHILE` stay. -/
def runStatement : M Flow := do
  Exec.modify fun s =>
    { s.cleared with callStack := [], forStack := [], dataLine := 0, dataOffset := 0, pc := 0 }
  pure .go

def listStatement : M Flow := do
  Exec.modify fun s => { s with output := s.output ++ lines.map fun line => .write (line.text ++ [('\n' : UInt8)]) }
  nextLine

def clearStatement : M Flow := do
  screenClear
  nextLine

/-- The tests in the order of the source. -/
def dispatch (s : Text) : M Flow :=
  if startsWithCi s (chars "REM") then nextLine
  else if startsWithCi s (chars "END") || startsWithCi s (chars "STOP") then pure .exit
  else if startsWithCi s (chars "CLS") || startsWithCi s (chars "CLEAR") then clearStatement
  else if startsWithCi s (chars "LIST") then listStatement lines
  else if startsWithCi s (chars "RUN") then runStatement
  else if startsWithCi s (chars "PRINT") then printStatement lines p n s
  else if startsWithCi s (chars "DATA") then nextLine
  else if startsWithCi s (chars "READ") then readStatement lines p n s
  else if startsWithCi s (chars "RESTORE") then restoreStatement lines s
  else if startsWithCi s (chars "DIM") then dimStatement lines p n s
  else if startsWithCi s (chars "LET") then letStatement lines p s
  else if startsWithCi s (chars "INPUT") then inputStatement lines p s
  else if startsWithCi s (chars "FOR") then forStatement lines p s
  else if startsWithCi s (chars "NEXT") then nextStatement lines s
  else if startsWithCi s (chars "WHILE") && isSpace (peek (s.drop 5)) then whileStatement lines p s
  else if startsWithCi s (chars "WEND") then wendStatement lines p
  else if startsWithCi s (chars "DEF") && isSpace (peek (s.drop 3)) then defStatement lines s
  else if startsWithCi s (chars "ADD") then updateStatement lines p (total (· + ·)) "ADD parse error" s
  else if startsWithCi s (chars "SUB") then updateStatement lines p (total (· - ·)) "SUB parse error" s
  else if startsWithCi s (chars "MUL") then updateStatement lines p (total (· * ·)) "MUL parse error" s
  else if startsWithCi s (chars "DIV") then
    updateStatement lines p (fun a b => orErr lines (divide (· / ·) a b) "DIV by zero") "DIV parse error" s
  else if startsWithCi s (chars "MOD") then
    updateStatement lines p (fun a b => orErr lines (divide (· % ·) a b) "MOD by zero") "MOD parse error" s
  else if startsWithCi s (chars "GOTO") then gotoStatement lines s
  else if startsWithCi s (chars "ON") then onStatement lines p s
  else if startsWithCi s (chars "GOSUB") then gosubStatement lines s
  else if startsWithCi s (chars "RETURN") then returnStatement lines
  else if startsWithCi s (chars "IF") then ifStatement lines p s
  else if startsWithCi s (chars "OPEN") then openStatement lines p s
  else if startsWithCi s (chars "CLOSE") then closeStatement lines p s
  else if startsWithCi s (chars "PRINT") && peek (skipSpaces (s.drop 5)) = ('#' : UInt8) then printFileStatement lines p n s
  else if startsWithCi s (chars "INPUT") && peek (skipSpaces (s.drop 5)) = ('#' : UInt8) then inputFileStatement lines p s
  else assignStatement lines p s

/-- The statement of the current line. -/
def statement : M Flow := do
  let pc ← Exec.gets Interp.pc
  let s := statementStart (textAt lines pc)
  if s = [] ∨ peek s = ('#' : UInt8) then nextLine else dispatch lines p n s

/-- `while (pc >= 0 && pc < line_count)`, with the number of steps that are left. -/
def runLoop : ℕ → M Flow
  | 0 => do
    let pc ← Exec.gets Interp.pc
    if pc < lines.length then rtFail lines "stopped: too many steps" else pure .go
  | steps + 1 => do
    let pc ← Exec.gets Interp.pc
    if pc < lines.length then do
      match ← statement lines p n with
      | .exit => pure .exit
      | .go => runLoop steps
    else pure .go

end Run

/-- `b_cleanup` closes the channels that were left open. -/
def cleanup : M Unit :=
  (List.finRange BASIC_MAX_FILES).forM fun c => do
    let files ← Exec.gets Interp.files
    if (files c).active then flushChan c else pure ()

/-- What `basic_run` sets before the program is read. -/
def Interp.start (s : Interp) : Interp :=
  { s.cleared with
    defFns := [], files := fun c => { s.files c with active := false }, pc := 0, callStack := [], forStack := [],
    whileStack := [], dataLine := 0, dataOffset := 0, errFlag := false, history := ⟨[], [], [], []⟩ }

/-- `END` and `STOP` return at once; the other ends go through the cleanup. `n` bounds how
deep the parsers nest. -/
def basicRun (n : ℕ) (text : Text) : M Int32 := do
  Exec.modify Interp.start
  match ← Exec.attempt (runLoop (programLines text) (parsers n) n BASIC_MAX_STEPS) with
  | some .exit => pure 0
  | _ => do
    cleanup
    let errFlag ← Exec.gets Interp.errFlag
    pure (if errFlag then -1 else 0)

end Tg11Kernel.Basic
