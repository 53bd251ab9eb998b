import Tg11Kernel.Basic.Programs
import Tg11Kernel.Basic.StringEvaluation
import Tg11Kernel.Basic.Strings

/-! The statements of loops, each executed once. Where the lines from a number on give the
commands of a program that is properly nested, the textual search finds the line that
closes a loop, and a statement does what its command asks for: `FOR` and `WHILE` skip their
loop or put a frame on their stack, `NEXT` and `WEND` go back or take it off. -/

namespace Tg11Kernel.Basic

open Lib Lib.Exec

variable {lines : List Line} {n pc : ℕ} {s t : Interp} {v w : Vars} {h : History} {c : Command} {text rest : Text}

/-! ### The lines of a program -/

/-- The lines from a number on give the commands. -/
def Listed (lines : List Line) (pc : ℕ) (cs : List Command) : Prop :=
  ∀ (j : ℕ) (c : Command), cs[j]? = some c → ∃ line, lines[pc + j]? = some line ∧ Spelled c (statementStart line.text)

namespace Listed

variable {cs ds : List Command}

theorem head (hl : Listed lines pc (c :: cs)) : ∃ line, lines[pc]? = some line ∧ Spelled c (statementStart line.text) := hl 0 c rfl

theorem tail (hl : Listed lines pc (c :: cs)) : Listed lines (pc + 1) cs := by
  intro j d hd
  rw [Nat.add_assoc, Nat.add_comm 1]
  exact hl (j + 1) d hd

theorem left (hl : Listed lines pc (cs ++ ds)) : Listed lines pc cs := by
  intro j d hd
  obtain ⟨hj, -⟩ := List.getElem?_eq_some_iff.1 hd
  exact hl j d (by rw [List.getElem?_append_left hj, hd])

theorem right (hl : Listed lines pc (cs ++ ds)) : Listed lines (pc + cs.length) ds := by
  intro j d hd
  rw [Nat.add_assoc]
  exact hl (cs.length + j) d (by rw [List.getElem?_append_right (Nat.le_add_right ..), Nat.add_sub_cancel_left, hd])

end Listed

/-! ### The line that closes a loop -/

inductive LoopKind where
  | forNext
  | whileWend

def LoopKind.opens : LoopKind → Text
  | .forNext => chars "FOR"
  | .whileWend => chars "WHILE"

def LoopKind.closes : LoopKind → Text
  | .forNext => chars "NEXT"
  | .whileWend => chars "WEND"

def Command.opens : LoopKind → Command → Bool
  | .forNext, .enter .. => true
  | .whileWend, .whilst _ => true
  | _, _ => false

def Command.closes : LoopKind → Command → Bool
  | .forNext, .next _ => true
  | .whileWend, .wend => true
  | _, _ => false

theorem Spelled.opens (hc : Spelled c text) (k : LoopKind) : startsWithCi text k.opens = c.opens k := by
  cases hc <;> cases k <;> rfl

theorem Spelled.closes (hc : Spelled c text) (k : LoopKind) : startsWithCi text k.closes = c.closes k := by
  cases hc <;> cases k <;> rfl

theorem findMatching_line (k : LoopKind) {cs : List Command} (hl : Listed lines pc (c :: cs)) (d : ℕ) :
    findMatching k.opens k.closes d pc (lines.drop pc) =
      if c.opens k then findMatching k.opens k.closes (d + 1) (pc + 1) (lines.drop (pc + 1))
      else if c.closes k then if d = 0 then some pc else findMatching k.opens k.closes (d - 1) (pc + 1) (lines.drop (pc + 1))
      else findMatching k.opens k.closes d (pc + 1) (lines.drop (pc + 1)) := by
  obtain ⟨line, hline, hspelled⟩ := hl.head
  obtain ⟨hlt, rfl⟩ := List.getElem?_eq_some_iff.1 hline
  rw [List.drop_eq_getElem_cons hlt, findMatching]
  simp only [hspelled.opens, hspelled.closes]

/-- The search from a line on. -/
def matching (k : LoopKind) (lines : List Line) (d pc : ℕ) : Option ℕ := findMatching k.opens k.closes d pc (lines.drop pc)

section Matching

variable (k : LoopKind) (d : ℕ) {cs : List Command}

theorem matching_opens (hl : Listed lines pc (c :: cs)) (hc : c.opens k = true) : matching k lines d pc = matching k lines (d + 1) (pc + 1) := by
  unfold matching
  rw [findMatching_line k hl, if_pos hc]

theorem matching_closes (hl : Listed lines pc (c :: cs)) (ho : c.opens k = false) (hc : c.closes k = true) :
    matching k lines (d + 1) pc = matching k lines d (pc + 1) ∧ matching k lines 0 pc = some pc := by
  unfold matching
  rw [findMatching_line k hl, findMatching_line k hl]
  simp [ho, hc]

theorem matching_other (hl : Listed lines pc (c :: cs)) (ho : c.opens k = false) (hc : c.closes k = false) :
    matching k lines d pc = matching k lines d (pc + 1) := by
  unfold matching
  rw [findMatching_line k hl]
  simp [ho, hc]

end Matching

/-- The search passes over a program that is properly nested. -/
theorem matching_block (k : LoopKind) (b : Block) {pc : ℕ} (hl : Listed lines pc b.commands) (d : ℕ) :
    matching k lines d pc = matching k lines d (pc + b.size) := by
  induction b generalizing pc d with
  | done => rfl
  | assign i e rest ih =>
    rw [matching_other k d hl (by cases k <;> rfl) (by cases k <;> rfl), ih hl.tail, Block.size_assign, Nat.add_comm rest.size,
      ← Nat.add_assoc]
  | loop i first last step body rest ihbody ihrest =>
    have hbody : Listed lines (pc + 1) body.commands := hl.tail.left
    have hnext : Listed lines (pc + 1 + body.size) (.next i :: rest.commands) := hl.tail.right
    have hsize : pc + (body.size + rest.size + 2) = pc + 1 + body.size + 1 + rest.size := by omega
    rw [Block.size_loop, hsize, ← ihrest hnext.tail]
    cases k with
    | forNext => rw [matching_opens _ d hl rfl, ihbody hbody, (matching_closes _ d hnext rfl rfl).1]
    | whileWend => rw [matching_other _ d hl rfl rfl, ihbody hbody, matching_other _ d hnext rfl rfl]
  | whilst c body rest ihbody ihrest =>
    have hbody : Listed lines (pc + 1) body.commands := hl.tail.left
    have hwend : Listed lines (pc + 1 + body.size) (.wend :: rest.commands) := hl.tail.right
    have hsize : pc + (body.size + rest.size + 2) = pc + 1 + body.size + 1 + rest.size := by omega
    rw [Block.size_whilst, hsize, ← ihrest hwend.tail]
    cases k with
    | forNext => rw [matching_other _ d hl rfl rfl, ihbody hbody, matching_other _ d hwend rfl rfl]
    | whileWend => rw [matching_opens _ d hl rfl, ihbody hbody, (matching_closes _ d hwend rfl rfl).1]

variable {i : Letter} {body : Block} {a b d u f : Text} {letter : UInt8} {e step first last : ExprTree} {x z y : Int32} {size : ℕ}

theorem findMatchingNext_loop {rest : Block}
    (hl : Listed lines (pc + 1) (body.commands ++ .next i :: rest.commands)) :
    findMatchingNext lines pc = some (pc + 1 + body.size) := by
  show matching .forNext lines 0 (pc + 1) = _
  have hnext : Listed lines (pc + 1 + body.size) (.next i :: rest.commands) := hl.right
  rw [matching_block _ _ hl.left, (matching_closes _ 0 hnext rfl rfl).2]

theorem findMatchingWend_loop {rest : Block} (hl : Listed lines (pc + 1) (body.commands ++ .wend :: rest.commands)) :
    findMatchingWend lines pc = some (pc + 1 + body.size) := by
  show matching .whileWend lines 0 (pc + 1) = _
  have hwend : Listed lines (pc + 1 + body.size) (.wend :: rest.commands) := hl.right
  rw [matching_block _ _ hl.left, (matching_closes _ 0 hwend rfl rfl).2]

/-! ### Reading a statement -/

/-- A state with other variables at another line. -/
def Interp.moved (s : Interp) (v : Vars) (pc : ℕ) (h : History) : Interp := { s with vars := v, pc := pc, history := h }

theorem parseVarRef_blanks (ha : Blanks a) (hletter : isAlpha letter = true) (hrest : Follow rest) :
    parseVarRef (skipSpaces (a ++ letter :: rest)) = some (letterOf letter, false, rest) := by
  rw [skipSpaces_byte ha (not_isSpace_of_isAlpha hletter)]
  exact parseVarRef_letter hletter hrest

theorem parseVar_blanks (ha : Blanks a) (hletter : isAlpha letter = true) (hrest : Follow rest) :
    parseVar (skipSpaces (a ++ letter :: rest)) = some (letterOf letter, rest) := by
  unfold parseVar
  rw [parseVarRef_blanks ha hletter hrest]

theorem follow_equals (hb : Blanks b) (rest : Text) : Follow (b ++ ('=' : UInt8) :: rest) :=
  Follow.blanks hb (show isSpace ('=' : UInt8) = false by decide) (show ('=' : UInt8) ≠ '(' by decide) fun _ =>
    ⟨(show isIdentTail ('=' : UInt8) = false by decide), (show ('=' : UInt8) ≠ '$' by decide)⟩

theorem StopsExpr.blanks (hd : Blanks rest) : StopsExpr rest := by
  have hskip := skipSpaces_all hd
  have hfollow : Follow (rest ++ []) := Follow.blanks hd (by decide) (by decide) fun _ => by decide
  rw [List.append_nil] at hfollow
  exact ⟨⟨hfollow, by rw [hskip]; rfl⟩, by rw [hskip]; rfl⟩

theorem StopsExpr.word {word : Text} (hd : Blanks d) (hne : d ≠ []) (hword : word = chars "TO" ∨ word = chars "STEP") (rest : Text) :
    StopsExpr (d ++ (word ++ rest)) := by
  have hskip : skipSpaces (d ++ (word ++ rest)) = word ++ rest := by
    rw [skipSpaces_blanks hd]
    rcases hword with rfl | rfl <;> rfl
  have hfollow : Follow (d ++ (word ++ rest)) := by
    rcases hword with rfl | rfl
    · exact Follow.blanks hd (show isSpace ('T' : UInt8) = false by decide) (show ('T' : UInt8) ≠ '(' by decide)
        fun hnil => absurd hnil hne
    · exact Follow.blanks hd (show isSpace ('S' : UInt8) = false by decide) (show ('S' : UInt8) ≠ '(' by decide)
        fun hnil => absurd hnil hne
  refine ⟨⟨hfollow, ?_⟩, ?_⟩
  · rw [hskip]
    rcases hword with rfl | rfl <;> rfl
  · rw [hskip]
    rcases hword with rfl | rfl <;> rfl

/-- An expression in a statement: only the history changes. -/
theorem expr_moved (hu : Prints .expr e u) (ha : Blanks a) (hrest : StopsExpr rest)
    (hn : u.length + 1 < n) (hx : e.eval v = .ok x) (s : Interp) (pc : ℕ) (h : History) :
    ∃ h', (parsers n).expr (a ++ (u ++ rest)) (s.moved v pc h) = (.ok (x, skipSpaces rest), s.moved v pc h') :=
  expr_stops (s := s.moved v pc h) hu ha hrest hn hx

/-! ### One statement -/

theorem orErr_expect {c : UInt8} (message : String) (hb : Blanks b) (hc : isSpace c = false) (rest : Text) (t : Interp) :
    orErr lines (expect c (b ++ c :: rest)) message t = (.ok rest, t) := by
  rw [expect_byte hb hc]
  exact orErr_ok message rfl

theorem statement_assign (hc : Spelled (.assign i e) text)
    (hline : statementStart (textAt lines pc) = text) (hn : text.length < n) (he : e.eval v = .ok x) (s : Interp) (h : History) :
    ∃ h', statement lines (parsers n) n (s.moved v pc h) = (.ok .go, s.moved (Function.update v i x) (pc + 1) h') := by
  cases hc with
  | @assign letter _ a b c u d ha hletter hb hc hu hd =>
    have hlength : (chars "LET").length = 3 := rfl
    simp only [List.length_append, List.length_cons, hlength] at hn
    obtain ⟨h', hread⟩ := expr_moved hu hc (.blanks hd) (show u.length + 1 < n by omega) he s pc h
    have hvar := orErr_some lines "LET var error" (parseVarRef_blanks ha hletter (follow_equals hb (c ++ (u ++ d)))) (s.moved v pc h)
    have hequals := skipSpaces_byte hb (show isSpace ('=' : UInt8) = false by decide) (c ++ (u ++ d))
    refine ⟨h', ?_⟩
    rw [statement_of_start (t := s.moved v pc h) hline (by rfl)]
    show letStatement lines (parsers n) (chars "LET" ++ _) _ = _
    unfold letStatement
    show (orErr lines (Exec.ofOption (parseVarRef (skipSpaces (a ++ letter :: _)))) _ >>= _) _ = _
    rw [bind_ok hvar]
    dsimp only
    rw [hequals]
    show (orErr lines ((parsers n).expr (c ++ (u ++ d))) _ >>= _) _ = _
    rw [bind_ok (orErr_ok _ hread)]
    rfl

/-- The step is read, and the history alone changes. -/
def ReadsStep (lines : List Line) (n : ℕ) (v : Vars) (z : Int32) (rest : Text) : Prop :=
  ∀ (s : Interp) (pc : ℕ) (h : History), ∃ h', forStep lines (parsers n) (skipSpaces rest) (s.moved v pc h) = (.ok z, s.moved v pc h')

theorem readsStep_blanks (lines : List Line) (hf : Blanks f) : ReadsStep lines n v 1 f := by
  intro s pc h
  exact ⟨h, by rw [skipSpaces_all hf]; rfl⟩

theorem readsStep_step (lines : List Line) {g x k : Text} (hf : Blanks f) (hg : Blanks g) (hx : Prints .expr step x)
    (hk : Blanks k) (hn : x.length + 1 < n) (hz : step.eval v = .ok z) :
    ReadsStep lines n v z (f ++ (chars "STEP" ++ (g ++ (x ++ k)))) := by
  intro s pc h
  obtain ⟨h', hread⟩ := expr_moved hx hg (.blanks hk) hn hz s pc h
  have hskip : skipSpaces (f ++ (chars "STEP" ++ (g ++ (x ++ k)))) = chars "STEP" ++ (g ++ (x ++ k)) := by
    rw [skipSpaces_blanks hf]
    rfl
  refine ⟨h', ?_⟩
  rw [hskip]
  show (orErr lines ((parsers n).expr (skipSpaces (g ++ (x ++ k)))) _ >>= _) _ = _
  rw [expr_skipSpaces, bind_ok (orErr_ok _ hread)]
  rfl

/-- The end of `FOR`: the loop is skipped, or its frame is on the stack. -/
def enterLoop (lines : List Line) (i : Letter) (x y z : Int32) (pc : ℕ) : M Flow := do
  setVar i x
  if forDone x y z then do
    let nextPc ← orErr lines (Exec.ofOption (findMatchingNext lines pc)) "FOR missing NEXT"
    jump (nextPc + 1)
  else pushFor lines ⟨i, y, z, pc + 1⟩

theorem forStatement_apply (pc : ℕ) {c e w r : Text} (ha : Blanks a)
    (hletter : isAlpha letter = true) (hb : Blanks b) (hc : Blanks c) (hu : Prints .expr first u) (hd : Blanks d) (hne : d ≠ [])
    (he : Blanks e) (hw : Prints .expr last w) (hr : StopsExpr r) (hn : u.length + 1 < n ∧ w.length + 1 < n)
    (hx : first.eval v = .ok x) (hy : last.eval v = .ok y) (hstep : ReadsStep lines n v z r) (hz : z ≠ 0) (s : Interp) (h : History) :
    ∃ h', forStatement lines (parsers n)
      (chars "FOR" ++ (a ++ letter :: (b ++ ('=' : UInt8) :: (c ++ (u ++ (d ++ (chars "TO" ++ (e ++ (w ++ r)))))))))
      (s.moved v pc h) = enterLoop lines (letterOf letter) x y z pc (s.moved v pc h') := by
  have hto : skipSpaces (d ++ (chars "TO" ++ (e ++ (w ++ r)))) = chars "TO" ++ (e ++ (w ++ r)) := by
    rw [skipSpaces_blanks hd]
    rfl
  obtain ⟨h₁, hfirst⟩ := expr_moved hu hc (.word hd hne (.inl rfl) (e ++ (w ++ r))) hn.1 hx s pc h
  obtain ⟨h₂, hlast⟩ := expr_moved hw he hr hn.2 hy s pc h₁
  obtain ⟨h₃, hstep⟩ := hstep s pc h₂
  rw [hto] at hfirst
  have hvar := orErr_some lines "FOR var error"
    (parseVar_blanks ha hletter (follow_equals hb (c ++ (u ++ (d ++ (chars "TO" ++ (e ++ (w ++ r)))))))) (s.moved v pc h)
  refine ⟨h₃, ?_⟩
  unfold forStatement
  rw [bind_ok (gets_apply Interp.pc _)]
  show (orErr lines (Exec.ofOption (parseVar (skipSpaces (a ++ letter :: _)))) _ >>= _) _ = _
  rw [bind_ok hvar]
  dsimp only
  rw [bind_ok (orErr_expect _ hb (by decide) _ _), bind_ok (orErr_ok _ hfirst)]
  dsimp only
  have hword : startsWithCi (skipSpaces (chars "TO" ++ (e ++ (w ++ r)))) (chars "TO") = true := rfl
  rw [bind_ok (check_ok _ hword _)]
  show (orErr lines ((parsers n).expr (skipSpaces (e ++ (w ++ r)))) _ >>= _) _ = _
  rw [expr_skipSpaces, bind_ok (orErr_ok _ hlast)]
  dsimp only
  rw [skipSpaces_skipSpaces, bind_ok hstep, bind_ok (check_ok _ hz _)]
  rfl

/-- Where a `FOR` with so many passes left goes on. -/
def Interp.inFor (s : Interp) (v : Vars) (pc size : ℕ) (f : ForFrame) (m : ℕ) (h : History) : Interp :=
  if m = 0 then s.moved v (pc + size + 2) h else Interp.moved { s with forStack := f :: s.forStack } v (pc + 1) h

theorem forDone_iff (hz : z ≠ 0) : forDone x y z = true ↔ iterations x.toInt y.toInt z.toInt = 0 := by
  have hzero : z.toInt ≠ 0 := fun h => hz (Int32.toInt_inj.1 h)
  unfold forDone
  simp only [decide_eq_true_eq, Int32.lt_iff_toInt_lt, toInt_zero]
  rcases lt_or_gt_of_ne hzero with hneg | hpos
  · have hcount := iterations_neg (a := x.toInt) (b := y.toInt) hneg
    omega
  · have hcount := iterations_pos (a := x.toInt) (b := y.toInt) hpos
    omega

theorem enterLoop_apply (hz : z ≠ 0) (hnext : findMatchingNext lines pc = some (pc + 1 + size))
    (hroom : s.forStack.length < BASIC_MAX_FOR_DEPTH) (h : History) :
    enterLoop lines i x y z pc (s.moved v pc h) =
      (.ok .go, s.inFor (Function.update v i x) pc size ⟨i, y, z, pc + 1⟩ (iterations x.toInt y.toInt z.toInt) h) := by
  have hdone := forDone_iff (x := x) (y := y) hz
  unfold enterLoop Interp.inFor
  show (if forDone x y z = true then _ else _ : M Flow) (s.moved (Function.update v i x) pc h) = _
  split_ifs with hd hm hm
  · rw [bind_ok (orErr_some lines _ hnext _)]
    show (Outcome.ok Flow.go, s.moved (Function.update v i x) (pc + 1 + size + 1) h) = _
    rw [show pc + 1 + size + 1 = pc + size + 2 by omega]
  · exact absurd (hdone.1 hd) hm
  · exact absurd (hdone.2 hm) hd
  · unfold pushFor
    rw [bind_ok (gets_apply Interp.forStack _)]
    show (check lines (s.forStack.length < BASIC_MAX_FOR_DEPTH) _ >>= _) _ = _
    rw [bind_ok (check_ok _ hroom _)]
    rfl

theorem statement_enter (hc : Spelled (.enter i first last step) text)
    (hline : statementStart (textAt lines pc) = text) (hn : text.length < n) (hx : first.eval v = .ok x) (hy : last.eval v = .ok y)
    (hz : step.eval v = .ok z) (hne : z ≠ 0) (hnext : findMatchingNext lines pc = some (pc + 1 + size))
    (hroom : s.forStack.length < BASIC_MAX_FOR_DEPTH) (h : History) :
    ∃ h', statement lines (parsers n) n (s.moved v pc h) =
      (.ok .go, s.inFor (Function.update v i x) pc size ⟨i, y, z, pc + 1⟩ (iterations x.toInt y.toInt z.toInt) h') := by
  have hlength : (chars "FOR").length = 3 := rfl
  have hto : (chars "TO").length = 2 := rfl
  cases hc with
  | @enter letter _ _ a b c u d e w f ha hletter hb hc hu hd hne' he hw hf =>
    simp only [List.length_append, List.length_cons, hlength, hto] at hn
    obtain rfl : (1 : Int32) = z := Except.ok.inj hz
    obtain ⟨h', happly⟩ := forStatement_apply pc ha hletter hb hc hu hd hne' he hw (.blanks hf)
      (show u.length + 1 < n ∧ w.length + 1 < n by omega) hx hy (readsStep_blanks lines hf) hne s h
    refine ⟨h', ?_⟩
    rw [statement_of_start (t := s.moved v pc h) hline (by rfl)]
    show forStatement lines (parsers n) (chars "FOR" ++ _) _ = _
    rw [happly, enterLoop_apply hne hnext hroom]
  | @enterStep letter _ _ _ a b c u d e w f g x k ha hletter hb hc hu hd hne' he hw hf hne'' hg hx' hk =>
    have hstep : (chars "STEP").length = 4 := rfl
    simp only [List.length_append, List.length_cons, hlength, hto, hstep] at hn
    obtain ⟨h', happly⟩ := forStatement_apply pc ha hletter hb hc hu hd hne' he hw
      (.word hf hne'' (.inr rfl) (g ++ (x ++ k))) (show u.length + 1 < n ∧ w.length + 1 < n by omega) hx hy
      (readsStep_step lines hf hg hx' hk (show x.length + 1 < n by omega) hz) hne s h
    refine ⟨h', ?_⟩
    rw [statement_of_start (t := s.moved v pc h) hline (by rfl)]
    show forStatement lines (parsers n) (chars "FOR" ++ _) _ = _
    rw [happly, enterLoop_apply hne hnext hroom]

/-! ### The next pass -/

/-- The value is a 32-bit number. -/
def InRange (e : ℤ) : Prop := -2 ^ 31 ≤ e ∧ e < 2 ^ 31

instance (e : ℤ) : Decidable (InRange e) := inferInstanceAs (Decidable (_ ∧ _))

/-- The test of `NEXT`. -/
def Continues (value endValue step : Int32) : Prop := 0 < step ∧ value ≤ endValue ∨ step < 0 ∧ endValue ≤ value

instance (value endValue step : Int32) : Decidable (Continues value endValue step) := inferInstanceAs (Decidable (_ ∨ _))

theorem toInt_add_of_inRange {a : Int32} (hr : InRange (a.toInt + z.toInt)) : (a + z).toInt = a.toInt + z.toInt := by
  unfold InRange at hr
  rw [Int32.toInt_add, Int.bmod_eq_of_le (by omega) (by omega)]

section Passes

variable {a y z : Int32} {m : ℕ}

section

variable (hz : z ≠ 0) (hcount : iterations a.toInt y.toInt z.toInt = m + 1)
include hz hcount

/-- Where a pass is left, the next value is between two 32-bit numbers. -/
theorem inRange_of_passes (hm : m ≠ 0) : InRange (a.toInt + z.toInt) := by
  have hzero : z.toInt ≠ 0 := fun h => hz (Int32.toInt_inj.1 h)
  have hsucc := iterations_succ hzero hcount
  have ha := a.toInt_lt
  have ha' := a.le_toInt
  have hy := y.toInt_lt
  have hy' := y.le_toInt
  unfold InRange
  rcases lt_or_gt_of_ne hzero with hneg | hpos
  · have hnext := iterations_neg (a := a.toInt + z.toInt) (b := y.toInt) hneg
    omega
  · have hnext := iterations_pos (a := a.toInt + z.toInt) (b := y.toInt) hpos
    omega

theorem continues_iff (hr : InRange (a.toInt + z.toInt)) : Continues (a + z) y z ↔ m ≠ 0 := by
  have hzero : z.toInt ≠ 0 := fun h => hz (Int32.toInt_inj.1 h)
  have hsucc := iterations_succ hzero hcount
  unfold Continues
  simp only [Int32.lt_iff_toInt_lt, Int32.le_iff_toInt_le, toInt_zero, toInt_add_of_inRange hr]
  rcases lt_or_gt_of_ne hzero with hneg | hpos
  · have hnext := iterations_neg (a := a.toInt + z.toInt) (b := y.toInt) hneg
    omega
  · have hnext := iterations_pos (a := a.toInt + z.toInt) (b := y.toInt) hpos
    omega

/-- A counter that passes the limit wraps to the other side of the end value. -/
theorem continues_of_not_inRange (hr : ¬ InRange (a.toInt + z.toInt)) : Continues (a + z) y z := by
  have hzero : z.toInt ≠ 0 := fun h => hz (Int32.toInt_inj.1 h)
  have ha := a.toInt_lt
  have ha' := a.le_toInt
  have hy := y.toInt_lt
  have hy' := y.le_toInt
  have hz₁ := z.toInt_lt
  have hz₂ := z.le_toInt
  unfold InRange at hr
  unfold Continues
  simp only [Int32.lt_iff_toInt_lt, Int32.le_iff_toInt_le, toInt_zero, Int32.toInt_add, Int.bmod_def]
  rcases lt_or_gt_of_ne hzero with hneg | hpos
  · have hhere := iterations_neg (a := a.toInt) (b := y.toInt) hneg
    refine .inr ⟨hneg, ?_⟩
    split_ifs <;> omega
  · have hhere := iterations_pos (a := a.toInt) (b := y.toInt) hpos
    refine .inl ⟨hpos, ?_⟩
    split_ifs <;> omega

end

end Passes

theorem nextVar_spelled (lines : List Line) (hc : Spelled (.next i) text) (t : Interp) :
    ∃ name, nextVar lines (skipSpaces (text.drop 4)) t = (.ok name, t) ∧ ∀ j, name = some j → i = j := by
  cases hc with
  | @next _ a ha =>
    refine ⟨none, ?_, nofun⟩
    show nextVar lines (skipSpaces a) t = _
    rw [skipSpaces_all ha]
    rfl
  | @nextVar letter a b ha hletter hb =>
    have hfollow : Follow b := (StopsExpr.blanks hb).follow.1
    have hstart : isAlpha (peek (skipSpaces (a ++ letter :: b))) = true := by
      rw [skipSpaces_byte ha (not_isSpace_of_isAlpha hletter)]
      exact hletter
    refine ⟨some (letterOf letter), ?_, fun j hj => Option.some.inj hj⟩
    show nextVar lines (skipSpaces (a ++ letter :: b)) t = _
    unfold nextVar
    rw [if_pos hstart, bind_ok (orErr_some lines _ (parseVar_blanks ha hletter hfollow) t)]
    rfl

theorem statement_next {u : Vars} (hc : Spelled (.next i) text)
    (hline : statementStart (textAt lines (pc + 1 + size)) = text) (s : Interp) (h : History) :
    statement lines (parsers n) n (Interp.moved { s with forStack := ⟨i, y, z, pc + 1⟩ :: s.forStack } u (pc + 1 + size) h) =
      (.ok .go, if Continues (u i + z) y z then
          Interp.moved { s with forStack := ⟨i, y, z, pc + 1⟩ :: s.forStack } (Function.update u i (u i + z)) (pc + 1) h
        else s.moved (Function.update u i (u i + z)) (pc + size + 2) h) := by
  obtain ⟨name, hname, hsame⟩ := nextVar_spelled lines hc
    (Interp.moved { s with forStack := ⟨i, y, z, pc + 1⟩ :: s.forStack } u (pc + 1 + size) h)
  have hdispatch : ∀ t, dispatch lines (parsers n) n text t = nextStatement lines text t := by
    cases hc <;> exact fun _ => rfl
  have halpha : isAlpha (peek text) = true := by cases hc <;> rfl
  rw [statement_of_start hline halpha, hdispatch]
  unfold nextStatement
  rw [bind_ok hname, bind_ok (gets_apply Interp.forStack _)]
  show (check lines (∀ j, name = some j → i = j) _ >>= _) _ = _
  rw [bind_ok (check_ok _ hsame _), bind_ok (gets_apply Interp.vars _)]
  show (if Continues (u i + z) y z then _ else _ : M Flow) _ = _
  split_ifs with hcontinues
  · rfl
  · show (Outcome.ok Flow.go, s.moved (Function.update u i (u i + z)) (pc + 1 + size + 1) h) = _
    rw [show pc + 1 + size + 1 = pc + size + 2 by omega]

/-! ### Conditions -/

/-- Where a `WHILE` with this value of its condition goes on. -/
def Interp.inWhile (s : Interp) (v : Vars) (pc size : ℕ) (x : Int32) (h : History) : Interp :=
  if x = 0 then s.moved v (pc + size + 2) h else Interp.moved { s with whileStack := pc :: s.whileStack } v (pc + 1) h

theorem condition_reads {c : ExprTree} (hc : Spelled (.whilst c) text) (hn : text.length < n) (hx : c.eval v = .ok x)
    (s : Interp) (pc : ℕ) (h : History) :
    ∃ h' rest, (parsers n).expr (skipSpaces (text.drop 5)) (s.moved v pc h) = (.ok (x, rest), s.moved v pc h') := by
  cases hc with
  | @whilst _ a u b ha hne hu hb =>
    have hlength : (chars "WHILE").length = 5 := rfl
    simp only [List.length_append, hlength] at hn
    obtain ⟨h', hread⟩ := expr_moved hu ha (.blanks hb) (show u.length + 1 < n by omega) hx s pc h
    refine ⟨h', skipSpaces b, ?_⟩
    show (parsers n).expr (skipSpaces (a ++ (u ++ b))) _ = _
    rw [expr_skipSpaces, hread]

theorem dispatch_whilst {c : ExprTree} {p : Parsers} (hc : Spelled (.whilst c) text) (t : Interp) :
    dispatch lines p n text t = whileStatement lines p text t := by
  cases hc with
  | @whilst _ a u b ha hne =>
    obtain ⟨d, a, rfl⟩ := List.exists_cons_of_ne_nil hne
    have hspace : isSpace d = true := ha d (List.mem_cons_self ..)
    show (if isSpace d = true then whileStatement lines p (chars "WHILE" ++ _) else _ : M Flow) t = _
    rw [if_pos hspace]

theorem statement_whilst {c : ExprTree} (hc : Spelled (.whilst c) text)
    (hline : statementStart (textAt lines pc) = text) (hn : text.length < n) (hx : c.eval v = .ok x)
    (hwend : findMatchingWend lines pc = some (pc + 1 + size)) (hroom : s.whileStack.length < BASIC_MAX_WHILE_DEPTH) (h : History) :
    ∃ h', statement lines (parsers n) n (s.moved v pc h) = (.ok .go, s.inWhile v pc size x h') := by
  obtain ⟨h', rest, hread⟩ := condition_reads hc hn hx s pc h
  have halpha : isAlpha (peek text) = true := by cases hc; rfl
  refine ⟨h', ?_⟩
  rw [statement_of_start (t := s.moved v pc h) hline halpha, dispatch_whilst hc]
  unfold whileStatement Interp.inWhile
  rw [bind_ok (gets_apply Interp.pc _), bind_ok (orErr_ok _ hread)]
  dsimp only
  by_cases hzero : x = 0
  · rw [if_neg (not_not.2 hzero), if_pos hzero]
    show (orErr lines (Exec.ofOption (findMatchingWend lines pc)) _ >>= _) _ = _
    rw [bind_ok (orErr_some lines _ hwend _)]
    show (Outcome.ok Flow.go, s.moved v (pc + 1 + size + 1) h') = _
    rw [show pc + 1 + size + 1 = pc + size + 2 by omega]
  · rw [if_pos hzero, if_neg hzero, bind_ok (gets_apply Interp.whileStack _)]
    show (check lines (s.whileStack.length < BASIC_MAX_WHILE_DEPTH) _ >>= _) _ = _
    rw [bind_ok (check_ok _ hroom _)]
    rfl

theorem statement_wend {c : ExprTree} {text' : Text} (hc : Spelled (.whilst c) text)
    (hline : statementStart (textAt lines pc) = text) (hwend : Spelled .wend text')
    (hline' : statementStart (textAt lines (pc + 1 + size)) = text') (hn : text.length < n) (hx : c.eval v = .ok x) (s : Interp)
    (h : History) :
    ∃ h', statement lines (parsers n) n (Interp.moved { s with whileStack := pc :: s.whileStack } v (pc + 1 + size) h) =
      (.ok .go, s.inWhile v pc size x h') := by
  obtain ⟨h', rest, hread⟩ := condition_reads hc hn hx { s with whileStack := pc :: s.whileStack } (pc + 1 + size) h
  have hdispatch : ∀ t, dispatch lines (parsers n) n text' t = wendStatement lines (parsers n) t := by
    cases hwend
    exact fun _ => rfl
  have halpha : isAlpha (peek text') = true := by cases hwend; rfl
  refine ⟨h', ?_⟩
  rw [statement_of_start hline' halpha, hdispatch]
  unfold wendStatement Interp.inWhile
  rw [bind_ok (gets_apply Interp.whileStack _)]
  show (orErr lines ((parsers n).expr (skipSpaces ((statementStart (textAt lines pc)).drop 5))) _ >>= _) _ = _
  rw [hline, bind_ok (orErr_ok _ hread)]
  dsimp only
  by_cases hzero : x = 0
  · rw [if_neg (not_not.2 hzero), if_pos hzero]
    show (Outcome.ok Flow.go, s.moved v (pc + 1 + size + 1) h') = _
    rw [show pc + 1 + size + 1 = pc + size + 2 by omega]
  · rw [if_pos hzero, if_neg hzero]
    rfl

end Tg11Kernel.Basic
