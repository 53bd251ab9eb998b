import Tg11Kernel.Basic.Trees
import Tg11Kernel.Basic.Statements

/-! Programs of assignments and loops, properly nested. A program is a list of commands,
one for each line, and a line spells its command with blanks between any two words. The
rule of the loops says which lines are executed, one after the other: it counts the
passes of a `FOR` before it begins, in the integers, and evaluates the condition of a
`WHILE` before each pass. -/

namespace Tg11Kernel.Basic

/-! ### Programs and their lines -/

/-- Statements one after the other. -/
inductive Block where
  | done
  | assign (i : Letter) (e : ExprTree) (rest : Block)
  | loop (i : Letter) (first last step : ExprTree) (body rest : Block)
  | whilst (c : ExprTree) (body rest : Block)

inductive Command where
  | assign (i : Letter) (e : ExprTree)
  | enter (i : Letter) (first last step : ExprTree)
  | next (i : Letter)
  | whilst (c : ExprTree)
  | wend

namespace Block

def commands : Block → List Command
  | .done => []
  | .assign i e rest => .assign i e :: rest.commands
  | .loop i first last step body rest => .enter i first last step :: (body.commands ++ .next i :: rest.commands)
  | .whilst c body rest => .whilst c :: (body.commands ++ .wend :: rest.commands)

/-- The number of its lines. -/
def size (b : Block) : ℕ := b.commands.length

def Assigns (i : Letter) : Block → Prop
  | .done => False
  | .assign j _ rest => j = i ∨ rest.Assigns i
  | .loop j _ _ _ body rest => j = i ∨ body.Assigns i ∨ rest.Assigns i
  | .whilst _ body rest => body.Assigns i ∨ rest.Assigns i

/-- No loop assigns its variable in its body. -/
def Proper : Block → Prop
  | .done => True
  | .assign _ _ rest => rest.Proper
  | .loop i _ _ _ body rest => ¬ body.Assigns i ∧ body.Proper ∧ rest.Proper
  | .whilst _ body rest => body.Proper ∧ rest.Proper

/-- How deep `FOR` nests. -/
def forDepth : Block → ℕ
  | .done => 0
  | .assign _ _ rest => rest.forDepth
  | .loop _ _ _ _ body rest => max (body.forDepth + 1) rest.forDepth
  | .whilst _ body rest => max body.forDepth rest.forDepth

/-- How deep `WHILE` nests. -/
def whileDepth : Block → ℕ
  | .done => 0
  | .assign _ _ rest => rest.whileDepth
  | .loop _ _ _ _ body rest => max body.whileDepth rest.whileDepth
  | .whilst _ body rest => max (body.whileDepth + 1) rest.whileDepth

@[simp] theorem size_assign (i : Letter) (e : ExprTree) (rest : Block) : (Block.assign i e rest).size = rest.size + 1 := rfl

@[simp] theorem size_loop (i : Letter) (first last step : ExprTree) (body rest : Block) :
    (Block.loop i first last step body rest).size = body.size + rest.size + 2 := by
  simp [size, commands]
  omega

@[simp] theorem size_whilst (c : ExprTree) (body rest : Block) : (Block.whilst c body rest).size = body.size + rest.size + 2 := by
  simp [size, commands]
  omega

end Block

/-- The text is a statement that gives the command. -/
inductive Spelled : Command → Text → Prop where
  | assign {letter : UInt8} {t : ExprTree} {a b c u d : Text} (ha : Blanks a) (hletter : isAlpha letter = true) (hb : Blanks b)
      (hc : Blanks c) (hu : Prints .expr t u) (hd : Blanks d) :
      Spelled (.assign (letterOf letter) t) (chars "LET" ++ (a ++ letter :: (b ++ ('=' : UInt8) :: (c ++ (u ++ d)))))
  | enter {letter : UInt8} {first last : ExprTree} {a b c u d e w f : Text} (ha : Blanks a) (hletter : isAlpha letter = true)
      (hb : Blanks b) (hc : Blanks c) (hu : Prints .expr first u) (hd : Blanks d) (hne : d ≠ []) (he : Blanks e)
      (hw : Prints .expr last w) (hf : Blanks f) :
      Spelled (.enter (letterOf letter) first last (.lit ⟨1, by decide⟩))
        (chars "FOR" ++ (a ++ letter :: (b ++ ('=' : UInt8) :: (c ++ (u ++ (d ++ (chars "TO" ++ (e ++ (w ++ f)))))))))
  | enterStep {letter : UInt8} {first last step : ExprTree} {a b c u d e w f g x k : Text} (ha : Blanks a)
      (hletter : isAlpha letter = true) (hb : Blanks b) (hc : Blanks c) (hu : Prints .expr first u) (hd : Blanks d) (hne : d ≠ [])
      (he : Blanks e) (hw : Prints .expr last w) (hf : Blanks f) (hne' : f ≠ []) (hg : Blanks g) (hx : Prints .expr step x)
      (hk : Blanks k) :
      Spelled (.enter (letterOf letter) first last step)
        (chars "FOR" ++ (a ++ letter :: (b ++ ('=' : UInt8) ::
          (c ++ (u ++ (d ++ (chars "TO" ++ (e ++ (w ++ (f ++ (chars "STEP" ++ (g ++ (x ++ k)))))))))))))
  | next {i : Letter} {a : Text} (ha : Blanks a) : Spelled (.next i) (chars "NEXT" ++ a)
  | nextVar {letter : UInt8} {a b : Text} (ha : Blanks a) (hletter : isAlpha letter = true) (hb : Blanks b) :
      Spelled (.next (letterOf letter)) (chars "NEXT" ++ (a ++ letter :: b))
  | whilst {c : ExprTree} {a u b : Text} (ha : Blanks a) (hne : a ≠ []) (hu : Prints .expr c u) (hb : Blanks b) :
      Spelled (.whilst c) (chars "WHILE" ++ (a ++ (u ++ b)))
  | wend {a : Text} (ha : Blanks a) : Spelled .wend (chars "WEND" ++ a)

/-! ### One text for each program -/

def letterName (i : Letter) : UInt8 := ('A' : UInt8) + UInt8.ofNat i

theorem letterName_spec (i : Letter) : isAlpha (letterName i) = true ∧ letterOf (letterName i) = i := by
  have hall : ∀ i : Letter, isAlpha (letterName i) = true ∧ letterOf (letterName i) = i := by decide
  exact hall i

/-- The command with single blanks between its words. -/
def Command.text : Command → Text
  | .assign i e => chars "LET" ++ (chars " " ++ letterName i :: (chars " " ++ ('=' : UInt8) :: (chars " " ++ (e.text ++ []))))
  | .enter i first last step =>
    chars "FOR" ++ (chars " " ++ letterName i :: (chars " " ++ ('=' : UInt8) :: (chars " " ++ (first.text ++ (chars " " ++
      (chars "TO" ++ (chars " " ++ (last.text ++ (chars " " ++ (chars "STEP" ++ (chars " " ++ (step.text ++ []))))))))))))
  | .next i => chars "NEXT" ++ (chars " " ++ letterName i :: [])
  | .whilst c => chars "WHILE" ++ (chars " " ++ (c.text ++ []))
  | .wend => chars "WEND" ++ []

theorem blanks_space : Blanks (chars " ") := by
  intro c hc
  rw [List.mem_singleton.1 hc]
  rfl

theorem spelled_text (c : Command) : Spelled c c.text := by
  have hnil : Blanks [] := by simp [Blanks]
  have hspace := blanks_space
  have hne : chars " " ≠ [] := List.cons_ne_nil _ _
  have hprints : ∀ t : ExprTree, Prints .expr t t.text := fun t => (prints_text t).lift (by cases t.level <;> decide)
  cases c with
  | assign i e =>
    obtain ⟨halpha, hletter⟩ := letterName_spec i
    have hspelled := Spelled.assign hspace halpha hspace hspace (hprints e) hnil
    rwa [hletter] at hspelled
  | enter i first last step =>
    obtain ⟨halpha, hletter⟩ := letterName_spec i
    have hspelled := Spelled.enterStep hspace halpha hspace hspace (hprints first) hspace hne hspace (hprints last) hspace hne hspace
      (hprints step) hnil
    rwa [hletter] at hspelled
  | next i =>
    obtain ⟨halpha, hletter⟩ := letterName_spec i
    have hspelled := Spelled.nextVar hspace halpha hnil
    rwa [hletter] at hspelled
  | whilst c => exact .whilst hspace hne (hprints c) hnil
  | wend => exact .wend hnil

/-- The program as lines without labels. -/
def Block.lines (b : Block) : List Line := b.commands.map fun c => ⟨-1, c.text⟩

/-! ### The rule -/

abbrev Vars := Letter → Int32

/-- The lines that are executed, each with the variables before it. -/
abbrev Trace := List (ℕ × Vars)

/-- How often the body of a `FOR` runs, with the quotient rounded down. -/
def iterations (first last step : ℤ) : ℕ :=
  if (last - first).fdiv step < 0 then 0 else ((last - first).fdiv step).toNat + 1

/-- What is left to do: statements, passes of a `FOR`, or a `WHILE` until its condition is 0. -/
inductive Task where
  | block (b : Block)
  | passes (i : Letter) (step : Int32) (m : ℕ) (body : Block)
  | cycles (c : ExprTree) (body : Block)

/-- How a program runs whose first line has the number `pc`, or what is left of a loop whose
first line has it: the variables before and after it, the lines that are executed, and
the values in the integers that the counters have when their loops are over. -/
inductive Rule : Task → ℕ → Vars → Vars → Trace → List ℤ → Prop where
  | done {pc : ℕ} {v : Vars} : Rule (.block .done) pc v v [] []
  | assign {pc : ℕ} {v w : Vars} {i : Letter} {e : ExprTree} {rest : Block} {x : Int32} {tr : Trace} {ex : List ℤ}
      (he : e.eval v = .ok x) (hrest : Rule (.block rest) (pc + 1) (Function.update v i x) w tr ex) :
      Rule (.block (.assign i e rest)) pc v w ((pc, v) :: tr) ex
  | loop {pc : ℕ} {v u w : Vars} {i : Letter} {first last step : ExprTree} {body rest : Block} {x y z : Int32} {tr tr' : Trace}
      {ex ex' : List ℤ} (hfirst : first.eval v = .ok x) (hlast : last.eval v = .ok y) (hstep : step.eval v = .ok z) (hz : z ≠ 0)
      (hpasses : Rule (.passes i z (iterations x.toInt y.toInt z.toInt) body) pc (Function.update v i x) u tr ex)
      (hrest : Rule (.block rest) (pc + body.size + 2) u w tr' ex') :
      Rule (.block (.loop i first last step body rest)) pc v w ((pc, v) :: (tr ++ tr'))
        ((x.toInt + iterations x.toInt y.toInt z.toInt * z.toInt) :: (ex ++ ex'))
  | passed {pc : ℕ} {v : Vars} {i : Letter} {z : Int32} {body : Block} : Rule (.passes i z 0 body) pc v v [] []
  | pass {pc m : ℕ} {v u w : Vars} {i : Letter} {z : Int32} {body : Block} {tr tr' : Trace} {ex ex' : List ℤ}
      (hbody : Rule (.block body) (pc + 1) v u tr ex)
      (hagain : Rule (.passes i z m body) pc (Function.update u i (u i + z)) w tr' ex') :
      Rule (.passes i z (m + 1) body) pc v w (tr ++ (pc + 1 + body.size, u) :: tr') (ex ++ ex')
  | whilst {pc : ℕ} {v u w : Vars} {c : ExprTree} {body rest : Block} {tr tr' : Trace} {ex ex' : List ℤ}
      (hcycles : Rule (.cycles c body) pc v u tr ex) (hrest : Rule (.block rest) (pc + body.size + 2) u w tr' ex') :
      Rule (.block (.whilst c body rest)) pc v w ((pc, v) :: (tr ++ tr')) (ex ++ ex')
  | cycled {pc : ℕ} {v : Vars} {c : ExprTree} {body : Block} (hc : c.eval v = .ok 0) : Rule (.cycles c body) pc v v [] []
  | cycle {pc : ℕ} {v u w : Vars} {c : ExprTree} {body : Block} {x : Int32} {tr tr' : Trace} {ex ex' : List ℤ}
      (hc : c.eval v = .ok x) (hx : x ≠ 0) (hbody : Rule (.block body) (pc + 1) v u tr ex)
      (hagain : Rule (.cycles c body) pc u w tr' ex') :
      Rule (.cycles c body) pc v w (tr ++ (pc + 1 + body.size, u) :: tr') (ex ++ ex')

/-! ### What the rule keeps -/

/-- The variables that a task may assign. -/
def Task.Assigns (i : Letter) : Task → Prop
  | .block b => b.Assigns i
  | .passes j _ _ body => j = i ∨ body.Assigns i
  | .cycles _ body => body.Assigns i

theorem Rule.unassigned {task : Task} {pc : ℕ} {v w : Vars} {tr : Trace} {ex : List ℤ} (h : Rule task pc v w tr ex) {i : Letter}
    (hi : ¬ task.Assigns i) : w i = v i := by
  induction h with
  | done => rfl
  | passed => rfl
  | cycled => rfl
  | @assign _ _ _ j _ _ _ _ _ _ _ ih =>
    have hne : i ≠ j := fun hij => hi (.inl hij.symm)
    rw [ih fun hrest => hi (.inr hrest), Function.update_of_ne hne]
  | @loop _ _ _ _ j _ _ _ _ _ _ _ _ _ _ _ _ _ _ _ _ _ _ ihpasses ihrest =>
    have hne : i ≠ j := fun hij => hi (.inl hij.symm)
    rw [ihrest fun hrest => hi (.inr (.inr hrest)), ihpasses, Function.update_of_ne hne]
    rintro (hij | hbody)
    · exact hi (.inl hij)
    · exact hi (.inr (.inl hbody))
  | @pass _ _ _ _ _ j _ _ _ _ _ _ _ _ ihbody ihagain =>
    have hne : i ≠ j := fun hij => hi (.inl hij.symm)
    rw [ihagain hi, Function.update_of_ne hne, ihbody fun hbody => hi (.inr hbody)]
  | whilst _ _ ihcycles ihrest =>
    rw [ihrest fun hrest => hi (.inr hrest), ihcycles fun hbody => hi (.inl hbody)]
  | cycle _ _ _ _ ihbody ihagain => rw [ihagain hi, ihbody hi]

/-! ### Counting -/

section Iterations

variable {a b s : ℤ}

theorem iterations_pos (hs : 0 < s) : 0 < iterations a b s ↔ a ≤ b := by
  unfold iterations
  rw [Int.fdiv_eq_ediv_of_nonneg _ hs.le]
  have hsign : 0 ≤ (b - a) / s ↔ 0 ≤ b - a := Int.ediv_nonneg_iff_of_pos hs
  split_ifs with h <;> omega

theorem iterations_neg (hs : s < 0) : 0 < iterations a b s ↔ b ≤ a := by
  have hflip : (b - a).fdiv s = (a - b).fdiv (-s) := by
    rw [← Int.neg_fdiv_neg, Int.neg_sub]
  have h := iterations_pos (a := b) (b := a) (show 0 < -s by omega)
  unfold iterations at h ⊢
  rwa [hflip]

theorem iterations_succ {m : ℕ} (hs : s ≠ 0) (h : iterations a b s = m + 1) : iterations (a + s) b s = m := by
  have hstep : (b - (a + s)).fdiv s = (b - a).fdiv s - 1 := by
    have hadd := Int.add_mul_fdiv_right (b - a) (-1) hs
    rw [show b - (a + s) = b - a + -1 * s by omega, hadd]
    rfl
  unfold iterations at h ⊢
  rw [hstep]
  split_ifs at h ⊢ <;> omega

end Iterations

end Tg11Kernel.Basic
