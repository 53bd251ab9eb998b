import Tg11Kernel.Basic.Variables
import Tg11Kernel.Basic.Recursion
import Tg11Kernel.Basic.Trees

/-! The rule of assignments: the cell which the target names gets the value that `PRINT`
shows for the right-hand side, or else the statement is an error and no variable changes.
`Right` says that a statement follows it, and `Target.Stores` where the code does. -/

namespace Tg11Kernel.Basic

open Lib Lib.Exec

variable {n : ℕ} {α β : Type} {s t u : Interp} {lines : List Line} {text rhs after : Text}

/-! ### What `PRINT` shows -/

inductive Value where
  | number (v : Int32)
  | string (t : Text)

def Value.shown : Value → Text
  | .number v => numeral 15 v
  | .string t => t

/-- A string, or else a number. -/
def readValue (p : Parsers) (text : Text) : M (Value × Text) := do
  match ← Exec.attempt (p.stringExpr text) with
  | some (t, rest) => pure (.string t, rest)
  | none => do
    let (v, rest) ← p.expr text
    pure (.number v, rest)

/-- The value of a text that is read to its end. -/
def wholeValue (p : Parsers) (text : Text) : M Value := do
  let (value, rest) ← readValue p text
  Exec.require (skipSpaces rest = [])
  pure value

def readNumber (p : Parsers) (text : Text) : M Int32 := do
  match ← wholeValue p text with
  | .number v => pure v
  | .string _ => Exec.fail

def readString (p : Parsers) (text : Text) : M Text := do
  match ← wholeValue p text with
  | .string t => pure t
  | .number _ => Exec.fail

/-! ### The rule -/

/-- What stands before the `=`; an index is the text between the parentheses. -/
inductive Target where
  | scalar (i : Letter)
  | element (i : Letter) (index : Text)
  | string (i : Letter)

/-- The text writes the target, with a name of any length. -/
inductive Target.Spelled : Target → Text → Prop where
  | scalar {c : UInt8} {name : Text} (hc : isAlpha c = true) (hname : ∀ d ∈ name, isIdentTail d = true) :
      Spelled (.scalar (letterOf c)) (c :: name)
  | element {c : UInt8} {name b index : Text} (hc : isAlpha c = true) (hname : ∀ d ∈ name, isIdentTail d = true) (hb : Blanks b) :
      Spelled (.element (letterOf c) index) (c :: (name ++ (b ++ ('(' : UInt8) :: (index ++ [(')' : UInt8)]))))
  | string {c : UInt8} {name : Text} (hc : isAlpha c = true) (hname : ∀ d ∈ name, isIdentTail d = true) :
      Spelled (.string (letterOf c)) (c :: (name ++ [('$' : UInt8)]))

/-- One cell and its new value. -/
inductive Store where
  | scalar (i : Letter) (v : Int32)
  | element (i : Letter) (k : ℕ) (v : Int32)
  | string (i : Letter) (t : Text)

def Interp.stored (s : Interp) : Store → Interp
  | .scalar i v => { s with vars := Function.update s.vars i v }
  | .element i k v => { s with arrays := Function.update s.arrays i (Function.update (s.arrays i) k v) }
  | .string i t => { s with strVars := Function.update s.strVars i t }

/-- The cell of the target and the value for it. The index is evaluated before the
right-hand side `rhs`, with the text `after` behind it. -/
def Target.rule (p : Parsers) (after rhs : Text) : Target → M Store
  | .scalar i => do
    let v ← readNumber p rhs
    pure (.scalar i v)
  | .element i index => do
    let (k, _) ← p.expr (index ++ after)
    let v ← readNumber p rhs
    let size ← Exec.gets fun s => s.arraySizes i
    Exec.require (0 ≤ k ∧ k.toInt.toNat < size)
    pure (.element i k.toInt.toNat v)
  | .string i => do
    let t ← readString p rhs
    pure (.string i t)

/-- All variables and arrays. -/
def Interp.cells (s : Interp) : (Letter → Int32) × (Letter → Text) × (Letter → ℕ → Int32) × (Letter → ℕ) :=
  (s.vars, s.strVars, s.arrays, s.arraySizes)

/-- A reported error that has changed no variable. -/
structure Refused (s : Interp) (r : Outcome α × Interp) : Prop where
  outcome : r.1 = .fail
  errFlag : r.2.errFlag = true
  cells : r.2.cells = s.cells

/-- The statement follows the rule: one cell has its value, nothing else has changed but the
random numbers, and the next line is next; or the statement is refused. -/
structure Right (rule : M Store) (m : M Flow) (s : Interp) : Prop where
  stores : ∀ w u, rule s = (.ok w, u) → ∃ t, Undisturbed s t ∧ m s = (.ok .go, { t.stored w with pc := s.pc + 1 })
  refuses : (rule s).1 = .fail → Refused s (m s)

/-! ### Where the code follows it -/

/-- The literal or the string variable that a text begins with, and what follows it. -/
def firstString (strVars : Letter → Text) (text : Text) : Option (Text × Text) :=
  let s := skipSpaces text
  if peek s = ('"' : UInt8) then parseStringLiteral BASIC_MAX_STRING_LEN s
  else match parseVarRef s with
    | some (i, true, rest) => some (copyString BASIC_MAX_STRING_LEN (strVars i), rest)
    | _ => none

/-- An expression ends where the right-hand side ends, an index is not negative, and a
string that the right-hand side begins with is what `PRINT` shows for all of it. -/
def Target.Stores (p : Parsers) (after rhs : Text) (s : Interp) : Target → Prop
  | .scalar _ => ∀ v rest t, p.expr rhs s = (.ok (v, rest), t) → skipSpaces rest = []
  | .element i index => ∀ k v rest rest' t u, p.expr (index ++ after) s = (.ok (k, rest), t) → p.expr rhs t = (.ok (v, rest'), u) →
      0 ≤ k ∧ (k.toInt.toNat < s.arraySizes i → skipSpaces rest' = [])
  | .string _ => ∀ t rest, firstString s.strVars rhs = some (t, rest) → (readString p rhs s).1 = .ok t

/-- Words that a statement is recognised by wherever a text begins with them. -/
def statementWords : List String :=
  ["REM", "END", "STOP", "CLS", "CLEAR", "LIST", "RUN", "PRINT", "DATA", "READ", "RESTORE", "DIM", "LET", "INPUT", "FOR", "NEXT",
    "WEND", "ADD", "SUB", "MUL", "DIV", "MOD", "GOTO", "ON", "GOSUB", "RETURN", "IF", "OPEN", "CLOSE"]

/-- The text is taken for a statement other than an assignment. -/
def beginsKeyword (text : Text) : Bool :=
  statementWords.any (fun word => startsWithCi text (chars word)) ||
    (startsWithCi text (chars "WHILE") && isSpace (peek (text.drop 5))) ||
    (startsWithCi text (chars "DEF") && isSpace (peek (text.drop 3)))

/-- Whatever is got from a text, in any state, what is then left of it is `after`. -/
def ReadsUpTo (m : M (α × Text)) (after : Text) : Prop :=
  ∀ s a rest t, m s = (.ok (a, rest), t) → skipSpaces rest = after

/-! ### Reading numbers and strings -/

theorem Undisturbed.cells (h : Undisturbed s t) : t.cells = s.cells := by
  obtain ⟨r, h, rfl⟩ := h
  rfl

/-- For a number the code leaves out the attempt at a string. -/
theorem readNumber_eq (hn : 2 ≤ n) (text : Text) (s : Interp) (hends : (readNumber (parsers n) text s).1 ≠ .hang) :
    (∃ v rest t, (parsers n).expr text s = (.ok (v, rest), t) ∧
      readNumber (parsers n) text s = (Exec.require (skipSpaces rest = []) >>= fun _ => pure v) t) ∨
    (readNumber (parsers n) text s).1 = .fail ∧ ((parsers n).expr text s).1 = .fail := by
  obtain ⟨n, rfl⟩ : ∃ k, n = k + 2 := ⟨n - 2, by omega⟩
  by_cases hstart : StringStart text
  · have hfails := expr_fails_of_stringStart n hstart
    refine .inr ⟨?_, hfails s⟩
    rcases hm : (parsers (n + 2)).stringExpr text s with ⟨⟨t, rest⟩ | _ | _, u⟩
    · have hvalue : readValue (parsers (n + 2)) text s = (.ok (.string t, rest), u) := bind_ok (attempt_ok hm)
      unfold readNumber wholeValue
      rw [bind_assoc_eq, bind_ok hvalue]
      by_cases hwhole : skipSpaces rest = []
      · dsimp only
        rw [require_pos hwhole]
        rfl
      · dsimp only
        rw [require_neg hwhole]
        rfl
    · have hvalue : (readValue (parsers (n + 2)) text s).1 = .fail := by
        unfold readValue
        rw [bind_ok (attempt_fail hm)]
        dsimp only
        rw [bind_fail (Prod.ext (hfails u) rfl)]
      unfold readNumber wholeValue
      rw [bind_assoc_eq, bind_fail (Prod.ext hvalue rfl)]
    · have hvalue : readValue (parsers (n + 2)) text s = (.hang, u) := bind_hang (attempt_hang hm)
      unfold readNumber wholeValue at hends
      rw [bind_assoc_eq, bind_hang hvalue] at hends
      exact absurd rfl hends
  · have hnone := stringExpr_of_not_stringStart (n := n + 1) hstart s
    have hvalue : readValue (parsers (n + 2)) text s = ((parsers (n + 2)).expr text >>= fun r => pure (Value.number r.1, r.2)) s :=
      bind_ok (attempt_fail hnone)
    rcases hm : (parsers (n + 2)).expr text s with ⟨⟨v, rest⟩ | _ | _, u⟩
    · refine .inl ⟨v, rest, u, rfl, ?_⟩
      rw [bind_ok hm] at hvalue
      unfold readNumber wholeValue
      rw [bind_assoc_eq, bind_ok hvalue]
      dsimp only
      rw [bind_assoc_eq]
      rfl
    · rw [bind_fail hm] at hvalue
      refine .inr ⟨?_, rfl⟩
      unfold readNumber wholeValue
      rw [bind_assoc_eq, bind_fail hvalue]
    · rw [bind_hang hm] at hvalue
      unfold readNumber wholeValue at hends
      rw [bind_assoc_eq, bind_hang hvalue] at hends
      exact absurd rfl hends

/-! ### Rules that do not come back -/

/-- Where the program does not come back, a division traps or a function is called in itself. -/
def HangsStuck (m : M α) : Prop := ∀ s, (m s).1 = .hang → Stuck (m s).2

namespace HangsStuck

end HangsStuck

/-! ### Refusals -/

theorem rtErr_keeps (lines : List Line) (message : String) : Exec.Keeps Interp.cells (rtErr lines message) := by
  have hwrite : ∀ text, Exec.Keeps Interp.cells (terminalWrite text) := fun _ => .modify fun _ => rfl
  unfold rtErr runtimeError terminalWriteLine
  apply Exec.Keeps.bind
  · apply Exec.Keeps.gets_bind
    intro pc
    apply (hwrite _).bind
    intro _
    apply (hwrite _).bind
    intro _
    split_ifs
    · exact (hwrite _).bind fun _ => hwrite _
    · exact .pure
  · intro _
    exact .modify fun _ => rfl

theorem refused_orErr {m : M α} (message : String) (hm : (m t).1 = .fail) (hcells : (m t).2.cells = s.cells) :
    Refused s (orErr lines m message t) := by
  obtain ⟨u, hu, hflag⟩ := rtErr_reports lines message (m t).2
  have hkeep := rtErr_keeps lines message (m t).2
  rw [hu] at hkeep
  rw [orErr, orElse_fail (Prod.ext hm rfl) hu]
  exact ⟨rfl, hflag, hkeep.trans hcells⟩

theorem Refused.bind {m : M α} {f : α → M β} (h : Refused s (m t)) : Refused s ((m >>= f) t) := by
  rw [bind_fail (Prod.ext h.outcome rfl)]
  exact ⟨rfl, h.errFlag, h.cells⟩

theorem refused_rtFail (message : String) (hcells : t.cells = s.cells) : Refused s ((rtFail lines message : M α) t) := by
  obtain ⟨u, hu, hflag⟩ := rtErr_reports lines message t
  have hkeep := rtErr_keeps lines message t
  rw [hu] at hkeep
  rw [rtFail, bind_ok hu]
  exact ⟨rfl, hflag, hkeep.trans hcells⟩

theorem check_neg {c : Prop} [Decidable c] (message : String) (hc : ¬ c) (f : Unit → M α) :
    (check lines c message >>= f) = rtFail lines message := by
  unfold check orErr Exec.orElse
  rw [require_neg hc]
  show (rtErr lines message >>= fun _ => Exec.fail) >>= f = _
  rw [bind_assoc_eq]
  rfl

theorem Leaves.cells_of_fail {m : M α} (h : Leaves m) (hm : (m s).1 = .fail) : (m s).2.cells = s.cells :=
  ((h s).fail (m s).2 (Prod.ext hm rfl)).cells

theorem Right.of_ok {rule : M Store} {m : M Flow} {store : Store} (hrule : rule s = (.ok store, u))
    (hm : ∃ t, Undisturbed s t ∧ m s = (.ok .go, { t.stored store with pc := s.pc + 1 })) : Right rule m s where
  stores store' u' h := by
    rw [hrule] at h
    cases h
    exact hm
  refuses h := by
    rw [hrule] at h
    cases h

theorem Right.of_fail {rule : M Store} {m : M Flow} (hrule : (rule s).1 = .fail) (hm : Refused s (m s)) : Right rule m s where
  stores store u h := by
    rw [h] at hrule
    cases hrule
  refuses _ := hm

theorem not_right {rule : M Store} {m : M Flow} (hrule : (rule s).1 = .fail) (hm : (m s).1 = .ok .go) : ¬ Right rule m s := by
  intro h
  have hfail := (h.refuses hrule).outcome
  rw [hm] at hfail
  cases hfail

end Tg11Kernel.Basic
