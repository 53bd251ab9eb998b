import Tg11Kernel.Basic.Trees

/-! String expressions as trees, with numbers as their arguments. A tree yields a text
where each argument has a value and each text on the way fits in a buffer, and there are
texts that print it. A `+` needs no parentheses, since joining texts is associative. -/

namespace Tg11Kernel.Basic

open Lib

/-! ### The usual definitions -/

/-- A count between 0 and the length of the text. -/
def clamped (t : Text) (count : ℤ) : ℕ := (min (max count 0) t.length).toNat

def leftPart (t : Text) (count : ℤ) : Text := t.take (clamped t count)

def rightPart (t : Text) (count : ℤ) : Text := t.drop (t.length - clamped t count)

/-- All from a position on, which counts from 1. -/
def midPart (t : Text) (start : ℤ) : Text := t.drop (max start 1 - 1).toNat

def signedDecimal (v : ℤ) : Text := if v < 0 then ('-' : UInt8) :: decimal v.natAbs else decimal v.natAbs

/-- The integer that a text begins with after blanks, 0 if there is none. -/
def leadingInt (t : Text) : ℤ :=
  let p := skipSpaces t
  if peek p = ('-' : UInt8) then -(digitsNat (p.tail.takeWhile isDigit) : ℤ) else digitsNat (p.takeWhile isDigit)

/-- The first position at which one text stands in another, from 1 on, or 0. -/
def Position (haystack needle : Text) (pos : ℕ) : Prop :=
  (∃ i, pos = i + 1 ∧ i ≤ haystack.length ∧ needle <+: haystack.drop i ∧ ∀ j < i, ¬ needle <+: haystack.drop j) ∨
    pos = 0 ∧ ∀ i ≤ haystack.length, ¬ needle <+: haystack.drop i

/-! ### Trees -/

/-- What can stand between two quotes. -/
abbrev Quoted := { t : Text // ∀ c ∈ t, c ≠ ('"' : UInt8) ∧ c ≠ 0 }

inductive Side where
  | left
  | right
  deriving DecidableEq

def Side.word : Side → Text
  | .left => chars "LEFT$"
  | .right => chars "RIGHT$"

def Side.part : Side → Text → ℤ → Text
  | .left => leftPart
  | .right => rightPart

inductive StrTree where
  | lit (t : Quoted)
  | var (i : Letter)
  | cat (l r : StrTree)
  | side (d : Side) (t : StrTree) (count : ExprTree)
  | mid (t : StrTree) (start : ExprTree)
  | midLength (t : StrTree) (start length : ExprTree)
  | str (v : ExprTree)
  | chr (v : ExprTree)

/-- The text of a tree in a state, with every text on the way in a buffer of 96 bytes and
every code that is made a character between 1 and 255. -/
inductive StrTree.Yields (vars : Letter → Int32) (strVars : Letter → Text) : StrTree → Text → Prop where
  | lit {t : Quoted} (hfits : t.val.length < BASIC_MAX_STRING_LEN) : Yields vars strVars (.lit t) t
  | var {i : Letter} (hfits : (cString (strVars i)).length < BASIC_MAX_STRING_LEN) : Yields vars strVars (.var i) (cString (strVars i))
  | cat {l r : StrTree} {x y : Text} (hl : Yields vars strVars l x) (hr : Yields vars strVars r y) (hfits : (x ++ y).length < BASIC_MAX_STRING_LEN) :
      Yields vars strVars (.cat l r) (x ++ y)
  | side {d : Side} {t : StrTree} {count : ExprTree} {x : Text} {k : Int32} (ht : Yields vars strVars t x)
      (hcount : count.eval vars = .ok k) : Yields vars strVars (.side d t count) (d.part x k.toInt)
  | mid {t : StrTree} {start : ExprTree} {x : Text} {k : Int32} (ht : Yields vars strVars t x) (hstart : start.eval vars = .ok k) :
      Yields vars strVars (.mid t start) (midPart x k.toInt)
  | midLength {t : StrTree} {start length : ExprTree} {x : Text} {k m : Int32} (ht : Yields vars strVars t x)
      (hstart : start.eval vars = .ok k) (hlength : length.eval vars = .ok m) :
      Yields vars strVars (.midLength t start length) ((midPart x k.toInt).take m.toInt.toNat)
  | str {e : ExprTree} {v : Int32} (hv : e.eval vars = .ok v) : Yields vars strVars (.str e) (signedDecimal v.toInt)
  | chr {e : ExprTree} {v : Int32} (hv : e.eval vars = .ok v) (hcode : 1 ≤ v.toInt ∧ v.toInt ≤ 255) :
      Yields vars strVars (.chr e) [UInt8.ofNat v.toInt.toNat]

/-! ### Printed trees -/

/-- One operand, or operands with `+` between them. -/
inductive StrLevel where
  | part
  | sum
  deriving DecidableEq

/-- What stands between the parentheses after a word. -/
def called (word a inside : Text) : Text := word ++ (a ++ ('(' : UInt8) :: (inside ++ [(')' : UInt8)]))

/-- The text prints the tree, with blanks between any two tokens. -/
inductive Spells : StrLevel → StrTree → Text → Prop where
  | lit {t : Quoted} : Spells .part (.lit t) (('"' : UInt8) :: (t ++ [('"' : UInt8)]))
  | var {c : UInt8} {name : Text} (hc : isAlpha c = true) (hname : ∀ d ∈ name, isIdentTail d = true) :
      Spells .part (.var (letterOf c)) (c :: (name ++ [('$' : UInt8)]))
  | side {d : Side} {t : StrTree} {count : ExprTree} {a b c e f x u : Text} (ha : Blanks a) (hb : Blanks b) (hx : Spells .sum t x)
      (hc : Blanks c) (he : Blanks e) (hu : Prints .expr count u) (hf : Blanks f) :
      Spells .part (.side d t count) (called d.word a (b ++ (x ++ (c ++ (',' : UInt8) :: (e ++ (u ++ f))))))
  | mid {t : StrTree} {start : ExprTree} {a b c e f x u : Text} (ha : Blanks a) (hb : Blanks b) (hx : Spells .sum t x)
      (hc : Blanks c) (he : Blanks e) (hu : Prints .expr start u) (hf : Blanks f) :
      Spells .part (.mid t start) (called (chars "MID$") a (b ++ (x ++ (c ++ (',' : UInt8) :: (e ++ (u ++ f))))))
  | midLength {t : StrTree} {start length : ExprTree} {a b c e f g h x u w : Text} (ha : Blanks a) (hb : Blanks b)
      (hx : Spells .sum t x) (hc : Blanks c) (he : Blanks e) (hu : Prints .expr start u) (hf : Blanks f) (hg : Blanks g)
      (hw : Prints .expr length w) (hh : Blanks h) :
      Spells .part (.midLength t start length)
        (called (chars "MID$") a (b ++ (x ++ (c ++ (',' : UInt8) :: (e ++ (u ++ (f ++ (',' : UInt8) :: (g ++ (w ++ h)))))))))
  | str {v : ExprTree} {a b c u : Text} (ha : Blanks a) (hb : Blanks b) (hu : Prints .expr v u) (hc : Blanks c) :
      Spells .part (.str v) (called (chars "STR$") a (b ++ (u ++ c)))
  | chr {v : ExprTree} {a b c u : Text} (ha : Blanks a) (hb : Blanks b) (hu : Prints .expr v u) (hc : Blanks c) :
      Spells .part (.chr v) (called (chars "CHR$") a (b ++ (u ++ c)))
  | cat {l r : StrTree} {a b x y : Text} (hx : Spells .sum l x) (ha : Blanks a) (hb : Blanks b) (hy : Spells .sum r y) :
      Spells .sum (.cat l r) (x ++ (a ++ ('+' : UInt8) :: (b ++ y)))
  | up {t : StrTree} {x : Text} (hx : Spells .part t x) : Spells .sum t x

/-! ### One text for each tree -/

def StrTree.text : StrTree → Text
  | .lit t => ('"' : UInt8) :: (t ++ [('"' : UInt8)])
  | .var i => [('A' : UInt8) + UInt8.ofNat i, ('$' : UInt8)]
  | .cat l r => l.text ++ ('+' : UInt8) :: r.text
  | .side d t count => called d.word [] (t.text ++ (',' : UInt8) :: count.text)
  | .mid t start => called (chars "MID$") [] (t.text ++ (',' : UInt8) :: start.text)
  | .midLength t start length =>
    called (chars "MID$") [] (t.text ++ (',' : UInt8) :: (start.text ++ (',' : UInt8) :: length.text))
  | .str v => called (chars "STR$") [] v.text
  | .chr v => called (chars "CHR$") [] v.text

theorem Blanks.nil : Blanks [] := by simp [Blanks]

theorem prints_expr_text (t : ExprTree) : Prints .expr t t.text := (prints_text t).lift (by cases t.level <;> decide)

theorem spells_text (t : StrTree) : Spells .sum t t.text := by
  have hnil := Blanks.nil
  induction t with
  | lit t => exact .up .lit
  | var i =>
    have hletter : ∀ i : Letter, isAlpha (('A' : UInt8) + UInt8.ofNat i) = true ∧
        letterOf (('A' : UInt8) + UInt8.ofNat i) = i := by decide
    have hvar := Spells.var (hletter i).1 (List.forall_mem_nil fun d => isIdentTail d = true)
    rw [(hletter i).2] at hvar
    exact .up hvar
  | cat l r ihl ihr => exact .cat ihl hnil hnil ihr
  | side d t count ih =>
    have hside := Spells.side (d := d) hnil hnil ih hnil hnil (prints_expr_text count) hnil
    simp only [List.nil_append, List.append_nil] at hside
    exact .up hside
  | mid t start ih =>
    have hmid := Spells.mid hnil hnil ih hnil hnil (prints_expr_text start) hnil
    simp only [List.nil_append, List.append_nil] at hmid
    exact .up hmid
  | midLength t start length ih =>
    have hmid := Spells.midLength hnil hnil ih hnil hnil (prints_expr_text start) hnil hnil (prints_expr_text length) hnil
    simp only [List.nil_append, List.append_nil] at hmid
    exact .up hmid
  | str v =>
    have hstr := Spells.str hnil hnil (prints_expr_text v) hnil
    simp only [List.nil_append, List.append_nil] at hstr
    exact .up hstr
  | chr v =>
    have hchr := Spells.chr hnil hnil (prints_expr_text v) hnil
    simp only [List.nil_append, List.append_nil] at hchr
    exact .up hchr

end Tg11Kernel.Basic
