import Tg11Kernel.Basic.Kinds

/-! Expressions as trees. A tree has a value under an assignment of the variables, found
from left to right, and texts that print it: an operand that binds less tightly than its
place asks for stands in parentheses, and blanks stand where the words need them and
anywhere else between two tokens. What stands before and after a tree in a larger text
decides which words the scanners see. -/

namespace Tg11Kernel.Basic

open Lib Lib.Exec

/-! ### Trees and their values -/

inductive Op where
  | add
  | sub
  | mul
  | div
  | rem
  | and
  | or
  | xor
  deriving DecidableEq

abbrev Literal := { n : ℕ // n < 2 ^ 31 }

theorem two_lt_literals : 2 < 2 ^ 31 := by decide

theorem seven_lt_literals : 7 < 2 ^ 31 := by decide

inductive ExprTree where
  | lit (n : Literal)
  | var (i : Letter)
  | neg (t : ExprTree)
  | not (t : ExprTree)
  | bin (op : Op) (l r : ExprTree)

/-- Why a tree has no value. -/
inductive Trouble where
  | byZero
  | overflow
  deriving DecidableEq

/-- A division, which truncates, or its remainder. -/
def quotient (op : Int32 → Int32 → Int32) (x y : Int32) : Except Trouble Int32 :=
  if y = 0 then .error .byZero
  else if x = Int32.minValue ∧ y = -1 then .error .overflow
  else .ok (op x y)

def Op.value : Op → Int32 → Int32 → Except Trouble Int32
  | .add, x, y => .ok (x + y)
  | .sub, x, y => .ok (x - y)
  | .mul, x, y => .ok (x * y)
  | .div, x, y => quotient (· / ·) x y
  | .rem, x, y => quotient (· % ·) x y
  | .and, x, y => .ok (x &&& y)
  | .or, x, y => .ok (x ||| y)
  | .xor, x, y => .ok (x ^^^ y)

def ExprTree.eval (vars : Letter → Int32) : ExprTree → Except Trouble Int32
  | .lit n => .ok (Int32.ofNat n)
  | .var i => .ok (vars i)
  | .neg t => t.eval vars >>= fun v => .ok (-v)
  | .not t => t.eval vars >>= fun v => .ok (~~~v)
  | .bin op l r => l.eval vars >>= fun x => r.eval vars >>= fun y => op.value x y

/-! ### Printed trees -/

/-- How tightly a text binds: a name, a number or a parenthesis, then what may stand after
a sign, after `NOT`, and the two levels of operators. -/
inductive Level where
  | primary
  | signed
  | factor
  | term
  | expr
  deriving DecidableEq

def Level.rank : Level → ℕ
  | .primary => 0
  | .signed => 1
  | .factor => 2
  | .term => 3
  | .expr => 4

/-- The level of the operand on the right. -/
def Level.below : Level → Level
  | .primary => .primary
  | .signed => .primary
  | .factor => .signed
  | .term => .factor
  | .expr => .term

def Op.level : Op → Level
  | .mul | .div | .rem => .term
  | _ => .expr

def Op.text : Op → Text
  | .add => chars "+"
  | .sub => chars "-"
  | .mul => chars "*"
  | .div => chars "/"
  | .rem => chars "%"
  | .and => chars "AND"
  | .or => chars "OR"
  | .xor => chars "XOR"

/-- The operator has letters. -/
def Op.isWord : Op → Bool
  | .and | .or | .xor => true
  | _ => false

def Blanks (a : Text) : Prop := ∀ c ∈ a, isSpace c = true

/-- The number that the digits are. -/
def digitsNat (digits : Text) : ℕ := digits.foldl (fun v c => v * 10 + (c - ('0' : UInt8)).toNat) 0

/-- The text prints the tree at a place of the level. -/
inductive Prints : Level → ExprTree → Text → Prop where
  | lit {n : Literal} {digits : Text} (hne : digits ≠ []) (hdigits : ∀ c ∈ digits, isDigit c = true)
      (hn : digitsNat digits = n) : Prints .primary (.lit n) digits
  | var {c : UInt8} (hc : isAlpha c = true) : Prints .primary (.var (letterOf c)) [c]
  | paren {t : ExprTree} {a s b : Text} (ha : Blanks a) (hs : Prints .expr t s) (hb : Blanks b) :
      Prints .primary t (('(' : UInt8) :: (a ++ (s ++ (b ++ [(')' : UInt8)]))))
  | neg {t : ExprTree} {a s : Text} (ha : Blanks a) (hs : Prints .signed t s) :
      Prints .signed (.neg t) (('-' : UInt8) :: (a ++ s))
  | not {t : ExprTree} {a s : Text} (ha : Blanks a) (hne : a ≠ []) (hs : Prints .factor t s) :
      Prints .factor (.not t) (chars "NOT" ++ (a ++ s))
  | bin {level : Level} {op : Op} {l r : ExprTree} {a b s u : Text} (hop : op.level = level)
      (hs : Prints level l s) (ha : Blanks a) (hb : Blanks b) (hword : op.isWord = true → a ≠ [] ∧ b ≠ [])
      (hu : Prints level.below r u) : Prints level (.bin op l r) (s ++ (a ++ (op.text ++ (b ++ u))))
  | up {level : Level} {t : ExprTree} {s : Text} (hs : Prints level.below t s) : Prints level t s

/-! ### One text for each tree -/

def decimal (n : ℕ) : Text :=
  if n < 10 then [('0' : UInt8) + UInt8.ofNat n] else decimal (n / 10) ++ [('0' : UInt8) + UInt8.ofNat (n % 10)]

/-- The level of a tree that has no parentheses around it. -/
def ExprTree.level : ExprTree → Level
  | .lit _ => .primary
  | .var _ => .primary
  | .neg _ => .signed
  | .not _ => .factor
  | .bin op _ _ => op.level

/-- A text of a level at a place, in parentheses if it binds less tightly. -/
def fit (place level : Level) (s : Text) : Text :=
  if level.rank ≤ place.rank then s else ('(' : UInt8) :: (s ++ [(')' : UInt8)])

/-- The tree printed with the parentheses that it needs, and words separated by spaces. -/
def ExprTree.text : ExprTree → Text
  | .lit n => decimal n
  | .var i => [('A' : UInt8) + UInt8.ofNat i]
  | .neg t => ('-' : UInt8) :: fit .signed t.level t.text
  | .not t => chars "NOT" ++ (' ' : UInt8) :: fit .factor t.level t.text
  | .bin op l r =>
    fit op.level l.level l.text ++ (' ' : UInt8) :: (op.text ++ (' ' : UInt8) :: fit op.level.below r.level r.text)

variable {level place : Level} {t : ExprTree} {s a text name : Text} {c : UInt8}

theorem Prints.lift (h : Prints level t s) (hrank : level.rank ≤ place.rank) :
    Prints place t s := by
  have hstep : ∀ place : Level, place ≠ .primary → place.below.rank + 1 = place.rank := by
    intro place hne
    cases place <;> first | rfl | exact absurd rfl hne
  induction hk : place.rank - level.rank generalizing place with
  | zero =>
    have heq : level = place := by
      cases level <;> cases place <;> first | rfl | simp [Level.rank] at hrank hk
    exact heq ▸ h
  | succ k ih =>
    have hne : place ≠ .primary := by
      rintro rfl
      simp [Level.rank] at hk
    have hrank' := hstep place hne
    exact .up (ih (by omega) (by omega))

theorem Prints.fit (h : Prints level t s) : Prints place t (fit place level s) := by
  unfold Basic.fit
  split_ifs with hrank
  · exact h.lift hrank
  · have hexpr : Prints .expr t s := h.lift (by cases level <;> decide)
    have hparen : Prints .primary t (('(' : UInt8) :: ([] ++ (s ++ ([] ++ [(')' : UInt8)])))) :=
      .paren (by simp [Blanks]) hexpr (by simp [Blanks])
    exact hparen.lift (by cases place <;> decide)

theorem digitsNat_snoc (digits : Text) (c : UInt8) :
    digitsNat (digits ++ [c]) = digitsNat digits * 10 + (c - ('0' : UInt8)).toNat := by
  simp [digitsNat]

theorem decimal_digits (n : ℕ) : decimal n ≠ [] ∧ (∀ c ∈ decimal n, isDigit c = true) ∧ digitsNat (decimal n) = n := by
  have hdigit : ∀ d : Fin 10, isDigit (('0' : UInt8) + UInt8.ofNat d) = true ∧
      (('0' : UInt8) + UInt8.ofNat d - ('0' : UInt8)).toNat = d := by decide
  induction n using decimal.induct with
  | case1 n hn =>
    obtain ⟨hd, hv⟩ := hdigit ⟨n, hn⟩
    rw [decimal, if_pos hn]
    exact ⟨by simp, by simpa using hd, by simpa [digitsNat] using hv⟩
  | case2 n hn ih =>
    obtain ⟨hd, hv⟩ := hdigit ⟨n % 10, Nat.mod_lt n (by omega)⟩
    rw [decimal, if_neg hn]
    refine ⟨by simp, ?_, ?_⟩
    · intro c hc
      obtain hc | hc := List.mem_append.1 hc
      · exact ih.2.1 c hc
      · rw [List.mem_singleton.1 hc]
        exact hd
    · rw [digitsNat_snoc, ih.2.2, hv]
      show n / 10 * 10 + n % 10 = n
      omega

theorem prints_text (t : ExprTree) : Prints t.level t t.text := by
  have hspace : Blanks [(' ' : UInt8)] := by
    intro c hc
    rw [List.mem_singleton.1 hc]
    rfl
  induction t with
  | lit n => exact .lit (decimal_digits n).1 (decimal_digits n).2.1 (decimal_digits n).2.2
  | var i =>
    have hletter : ∀ i : Letter, isAlpha (('A' : UInt8) + UInt8.ofNat i) = true ∧
        letterOf (('A' : UInt8) + UInt8.ofNat i) = i := by decide
    have hvar := Prints.var (hletter i).1
    rwa [(hletter i).2] at hvar
  | neg t ih => exact .neg (a := []) (by simp [Blanks]) ih.fit
  | not t ih => exact .not hspace (by simp) ih.fit
  | bin op l r ihl ihr => exact .bin rfl ihl.fit hspace hspace (by simp) ihr.fit


/-! ### Blanks, and what stands around a tree -/

theorem skipSpaces_blanks (ha : Blanks a) (text : Text) : skipSpaces (a ++ text) = skipSpaces text :=
  List.dropWhile_append_of_pos ha

/-- What stands after a printed tree is not more of its last name or number, nor an index. -/
structure Follow (rest : Text) : Prop where
  identTail : isIdentTail (peek rest) = false
  dollar : peek rest ≠ ('$' : UInt8)
  paren : peek (skipSpaces rest) ≠ ('(' : UInt8)

theorem Follow.nil : Follow [] := ⟨by decide, by decide, by decide⟩

theorem isIdentTail_of_isSpace : isSpace c = true → isIdentTail c = false ∧ c ≠ '$' :=
  forall_byte (Q := fun c => isSpace c = true → isIdentTail c = false ∧ c ≠ '$') (by decide +kernel) c

theorem Follow.blanks (ha : Blanks a) (hspace : isSpace (peek text) = false) (hparen : peek text ≠ '(')
    (h : a = [] → isIdentTail (peek text) = false ∧ peek text ≠ '$') : Follow (a ++ text) := by
  have hskip : skipSpaces (a ++ text) = text := by rw [skipSpaces_blanks ha, skipSpaces_of_not_isSpace hspace]
  have hhead : isIdentTail (peek (a ++ text)) = false ∧ peek (a ++ text) ≠ '$' := by
    cases a with
    | nil => exact h rfl
    | cons c a => exact isIdentTail_of_isSpace (ha c (by simp))
  exact ⟨hhead.1, hhead.2, by rwa [hskip]⟩

/-- No word of two letters or more begins here. -/
def NoWord (text : Text) : Prop := isAlpha (peek text) = true → isIdentTail (peek text.tail) = false

theorem NoWord.not_startsWithCi (h : NoWord text)
    (hname : isAlpha (peek name) = true ∧ isAlpha (peek name.tail) = true) : startsWithCi text name = false := by
  match name with
  | [] => exact absurd hname.1 (by decide)
  | [_] => exact absurd hname.2 (by simp [peek]; decide)
  | c :: d :: name =>
    rw [Bool.eq_false_iff]
    intro hstart
    simp only [startsWithCi, Bool.and_eq_true, decide_eq_true_eq] at hstart
    have hfirst := h (isAlpha_of_up hstart.1 hname.1)
    have hsecond := isIdentTail_of_isAlpha (isAlpha_of_up hstart.2.1 hname.2)
    rw [hfirst] at hsecond
    cases hsecond

theorem NoWord.not_nameMatchesCi (h : NoWord text)
    (hname : isAlpha (peek name) = true ∧ isAlpha (peek name.tail) = true) : nameMatchesCi text name = false := by
  simp [nameMatchesCi, h.not_startsWithCi hname]

theorem NoWord.not_callsBuiltin (h : NoWord text)
    (hname : isAlpha (peek name) = true ∧ isAlpha (peek name.tail) = true) : ¬ callsBuiltin text name = true := by
  simp [callsBuiltin, h.not_nameMatchesCi hname]

theorem NoWord.not_isFnName (h : NoWord text) : ¬ isFnName text = true := by
  intro hfn
  simp only [isFnName, decide_eq_true_eq] at hfn
  have hfirst := h (isAlpha_of_up (d := 'F') (hfn.1.trans (by decide)) (by decide))
  have hsecond := isIdentTail_of_isAlpha (isAlpha_of_up (d := 'N') (hfn.2.1.trans (by decide)) (by decide))
  rw [List.drop_one, hfirst] at hsecond
  cases hsecond

/-- A single letter is a variable. -/
theorem parseNamed_of_noWord (h : NoWord text) (p : Parsers) : parseNamed p text = parseValue p text := by
  unfold parseNamed
  rw [if_neg (h.not_callsBuiltin (by decide)), if_neg (h.not_callsBuiltin (by decide)),
    if_neg (h.not_callsBuiltin (by decide)), if_neg (h.not_callsBuiltin (by decide)),
    if_neg (h.not_callsBuiltin (by decide)), if_neg (h.not_callsBuiltin (by decide)),
    if_neg (h.not_callsBuiltin (by decide)), if_neg h.not_isFnName]

/-! ### How a printed tree begins -/

theorem not_isSpace_of_isDigit : isDigit c = true → isSpace c = false ∧ isAlpha c = false ∧
    c ≠ '(' ∧ c ≠ '-' ∧ c ≠ '+' :=
  forall_byte (Q := fun c => isDigit c = true → isSpace c = false ∧ isAlpha c = false ∧
    c ≠ '(' ∧ c ≠ '-' ∧ c ≠ '+') (by decide +kernel) c

theorem ne_sign_of_isAlpha : isAlpha c = true → c ≠ '(' ∧ c ≠ '-' ∧ c ≠ '+' :=
  forall_byte (Q := fun c => isAlpha c = true → c ≠ '(' ∧ c ≠ '-' ∧ c ≠ '+') (by decide +kernel) c

/-- The first byte of a number. -/
theorem digits_cons {digits : Text} (hne : digits ≠ []) (hdigits : ∀ c ∈ digits, isDigit c = true) :
    ∃ c u, digits = c :: u ∧ isDigit c = true := by
  cases digits with
  | nil => exact absurd rfl hne
  | cons c u => exact ⟨c, u, rfl, hdigits c (by simp)⟩

theorem Prints.start (h : Prints level t text) :
    ∃ c u, text = c :: u ∧ isSpace c = false := by
  induction h with
  | lit hne hdigits _ =>
    obtain ⟨c, u, rfl, hc⟩ := digits_cons hne hdigits
    exact ⟨c, u, rfl, (not_isSpace_of_isDigit hc).1⟩
  | var hc => exact ⟨_, [], rfl, not_isSpace_of_isAlpha hc⟩
  | paren => exact ⟨_, _, rfl, by decide⟩
  | neg => exact ⟨_, _, rfl, by decide⟩
  | not => exact ⟨_, _, rfl, by decide⟩
  | bin _ _ _ _ _ _ ihs _ =>
    obtain ⟨c, u, rfl, hc⟩ := ihs
    exact ⟨c, _, rfl, hc⟩
  | up _ ih => exact ih

/-- What a run of signs stands before begins with no sign. -/
theorem Prints.start_primary (h : Prints level t text) (hl : level = .primary) :
    ∃ c u, text = c :: u ∧ isSpace c = false ∧ c ≠ '-' ∧ c ≠ '+' := by
  induction h with
  | lit hne hdigits _ =>
    obtain ⟨c, u, rfl, hc⟩ := digits_cons hne hdigits
    obtain ⟨hspace, _, _, hminus, hplus⟩ := not_isSpace_of_isDigit hc
    exact ⟨c, u, rfl, hspace, hminus, hplus⟩
  | var hc => exact ⟨_, [], rfl, not_isSpace_of_isAlpha hc, (ne_sign_of_isAlpha hc).2⟩
  | paren => exact ⟨_, _, rfl, by decide, by decide, by decide⟩
  | neg => cases hl
  | not => cases hl
  | @bin level op _ _ _ _ _ _ hop _ _ _ _ _ _ _ =>
    subst hl
    cases op <;> cases hop
  | up _ ih =>
    subst hl
    exact ih rfl

theorem Prints.noWord {rest : Text} (h : Prints level t text)
    (hl : level = .primary ∨ level = .signed) (hrest : Follow rest) : NoWord (text ++ rest) := by
  induction h with
  | lit hne hdigits _ =>
    obtain ⟨c, u, rfl, hc⟩ := digits_cons hne hdigits
    intro ha
    rw [show peek (c :: u ++ rest) = c from rfl, (not_isSpace_of_isDigit hc).2.1] at ha
    cases ha
  | var hc => exact fun _ => hrest.identTail
  | paren => exact fun ha => absurd (show isAlpha ('(' : UInt8) = true from ha) (by decide)
  | neg => exact fun ha => absurd (show isAlpha ('-' : UInt8) = true from ha) (by decide)
  | not => rcases hl with hl | hl <;> cases hl
  | @bin level op _ _ _ _ _ _ hop _ _ _ _ _ _ _ =>
    obtain rfl | rfl := hl <;> cases op <;> cases hop
  | up _ ih =>
    obtain rfl | rfl := hl
    · exact ih (.inl rfl)
    · exact ih (.inl rfl)

end Tg11Kernel.Basic
