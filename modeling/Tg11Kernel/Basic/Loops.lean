import Tg11Kernel.Basic.LoopSteps

/-! Loops run as the rule says. The interpreter walks along the lines that the rule lists, by
induction on the rule: a loop that is under way has its frame on a stack, and what is left
of it is the task before the interpreter. The counter wraps, so this holds exactly where
every counter is still a 32-bit number after its loop. -/

namespace Tg11Kernel.Basic

open Lib Lib.Exec

variable {lines : List Line} {n pc : ℕ} {s t : Interp} {v w : Vars} {c : Command}

/-! ### Walks of the interpreter -/

/-- The interpreter executes these lines one after the other, with these variables. -/
inductive Walk (lines : List Line) (n : ℕ) : Interp → Trace → Interp → Prop where
  | here {s : Interp} : Walk lines n s [] s
  | step {s t u : Interp} {tr : Trace} (hpc : s.pc < lines.length) (hstep : statement lines (parsers n) n s = (.ok .go, t))
      (hrest : Walk lines n t tr u) : Walk lines n s ((s.pc, s.vars) :: tr) u

namespace Walk

variable {tr tr' : Trace} {u : Interp}

theorem append (hs : Walk lines n s tr t) (ht : Walk lines n t tr' u) : Walk lines n s (tr ++ tr') u := by
  induction hs with
  | here => exact ht
  | step hpc hstep _ ih => exact .step hpc hstep (ih ht)

theorem split (h : Walk lines n s (tr ++ tr') u) : ∃ t, Walk lines n s tr t ∧ Walk lines n t tr' u := by
  induction tr generalizing s with
  | nil => exact ⟨s, .here, h⟩
  | cons e tr ih =>
    cases h with
    | step hpc hstep hrest =>
      obtain ⟨t, hleft, hright⟩ := ih hrest
      exact ⟨t, .step hpc hstep hleft, hright⟩

/-- There is one walk of a length. -/
theorem unique (hs : Walk lines n s tr t) (hs' : Walk lines n s tr u) : t = u := by
  induction hs with
  | here =>
    cases hs'
    rfl
  | step _ hstep _ ih =>
    cases hs' with
    | step _ hstep' hrest =>
      rw [hstep] at hstep'
      cases hstep'
      exact ih hrest

theorem runLoop (h : Walk lines n s tr t) (k : ℕ) :
    runLoop lines (parsers n) n (tr.length + k) s = Basic.runLoop lines (parsers n) n k t := by
  induction h with
  | here => rw [List.length_nil, Nat.zero_add]
  | step hpc hstep _ ih => rw [List.length_cons, Nat.add_right_comm, runLoop_step hpc hstep, ih]

theorem first {e : ℕ × Vars} (h : Walk lines n s (e :: tr) t) : s.pc = e.1 ∧ ∃ u, statement lines (parsers n) n s = (.ok .go, u) ∧ Walk lines n u tr t := by
  cases h with
  | step hpc hstep hrest => exact ⟨rfl, _, hstep, hrest⟩

end Walk

/-! ### A task of the rule -/

/-- The lines of a task are those of the program, it is proper, and the stacks have room for it. -/
def Task.Laid (lines : List Line) (s : Interp) (pc : ℕ) : Task → Prop
  | .block b => Listed lines pc b.commands ∧ b.Proper ∧ s.forStack.length + b.forDepth ≤ BASIC_MAX_FOR_DEPTH ∧
      s.whileStack.length + b.whileDepth ≤ BASIC_MAX_WHILE_DEPTH
  | .passes i z _ body => Listed lines (pc + 1) (body.commands ++ [.next i]) ∧ z ≠ 0 ∧ ¬ body.Assigns i ∧ body.Proper ∧
      s.forStack.length + (body.forDepth + 1) ≤ BASIC_MAX_FOR_DEPTH ∧ s.whileStack.length + body.whileDepth ≤ BASIC_MAX_WHILE_DEPTH
  | .cycles c body => Listed lines pc (.whilst c :: (body.commands ++ [.wend])) ∧ body.Proper ∧
      s.forStack.length + body.forDepth ≤ BASIC_MAX_FOR_DEPTH ∧ s.whileStack.length + (body.whileDepth + 1) ≤ BASIC_MAX_WHILE_DEPTH

/-- Where the interpreter is with a task before it. -/
def Task.Begins (s : Interp) (pc : ℕ) (v : Vars) : Task → Interp → Prop
  | .block _, t => ∃ h, t = s.moved v pc h
  | .passes i z m body, t => ∃ y h, iterations (v i).toInt y.toInt z.toInt = m ∧ t = s.inFor v pc body.size ⟨i, y, z, pc + 1⟩ m h
  | .cycles c body, t => ∃ x h, c.eval v = .ok x ∧ t = s.inWhile v pc body.size x h

/-- The line after a task. -/
def Task.after (pc : ℕ) : Task → ℕ
  | .block b => pc + b.size
  | .passes _ _ _ body => pc + body.size + 2
  | .cycles _ body => pc + body.size + 2

/-- The values that the counters have after the task, with the one of the loop that is under way. -/
def Task.exits (v : Vars) (ex : List ℤ) : Task → List ℤ
  | .block _ => ex
  | .passes i z m _ => ((v i).toInt + m * z.toInt) :: ex
  | .cycles _ _ => ex

theorem textAt_of_getElem? {line : Line} (hline : lines[pc]? = some line) : textAt lines pc = line.text := by
  unfold textAt
  rw [hline]

/-- The line of a command, in the program and as a statement. -/
theorem Listed.line {cs : List Command} (hl : Listed lines pc (c :: cs)) (hn : ∀ line ∈ lines, (statementStart line.text).length < n) :
    pc < lines.length ∧ ∃ text, statementStart (textAt lines pc) = text ∧ Spelled c text ∧ text.length < n := by
  obtain ⟨line, hline, hspelled⟩ := hl.head
  obtain ⟨hlt, -⟩ := List.getElem?_eq_some_iff.1 hline
  exact ⟨hlt, _, by rw [textAt_of_getElem? hline], hspelled, hn line (List.mem_of_getElem? hline)⟩

variable {tr : Trace} {i : Letter} {u : Vars} {y z : Int32} {m : ℕ} {ex : List ℤ} {task : Task}

theorem Walk.moved {h : History} (hpc : pc < lines.length)
    (hstep : statement lines (parsers n) n (s.moved v pc h) = (.ok .go, t)) {u : Interp} (hrest : Walk lines n t tr u) :
    Walk lines n (s.moved v pc h) ((pc, v) :: tr) u := Walk.step (s := s.moved v pc h) hpc hstep hrest

section Laid

variable {i : Letter} {first last step e c : ExprTree} {body rest : Block} {z : Int32} {m : ℕ}

theorem laid_assign (hl : Task.Laid lines s pc (.block (.assign i e rest))) : Task.Laid lines s (pc + 1) (.block rest) :=
  ⟨hl.1.tail, hl.2.1, hl.2.2.1, hl.2.2.2⟩

theorem laid_passes (hl : Task.Laid lines s pc (.block (.loop i first last step body rest))) (hz : z ≠ 0) :
    Task.Laid lines s pc (.passes i z m body) := by
  obtain ⟨hlisted, ⟨hfree, hproper, -⟩, hfor, hwhile⟩ := hl
  have hlines : Listed lines (pc + 1) (body.commands ++ [.next i] ++ rest.commands) := by
    rw [List.append_assoc]
    exact hlisted.tail
  rw [Block.forDepth] at hfor
  rw [Block.whileDepth] at hwhile
  exact ⟨hlines.left, hz, hfree, hproper, by omega, by omega⟩

theorem laid_afterLoop (hl : Task.Laid lines s pc (.block (.loop i first last step body rest))) :
    Task.Laid lines s (pc + body.size + 2) (.block rest) := by
  obtain ⟨hlisted, ⟨-, -, hproper⟩, hfor, hwhile⟩ := hl
  have hlines : Listed lines (pc + 1 + body.size + 1) rest.commands := (Listed.right hlisted.tail).tail
  rw [show pc + 1 + body.size + 1 = pc + body.size + 2 by omega] at hlines
  rw [Block.forDepth] at hfor
  rw [Block.whileDepth] at hwhile
  exact ⟨hlines, hproper, by omega, by omega⟩

theorem laid_body (hl : Task.Laid lines s pc (.passes i z m body)) (f : ForFrame) :
    Task.Laid lines { s with forStack := f :: s.forStack } (pc + 1) (.block body) := by
  obtain ⟨hlisted, -, -, hproper, hfor, hwhile⟩ := hl
  refine ⟨hlisted.left, hproper, ?_, hwhile⟩
  show (f :: s.forStack).length + _ ≤ _
  rw [List.length_cons]
  omega

theorem laid_cycles (hl : Task.Laid lines s pc (.block (.whilst c body rest))) : Task.Laid lines s pc (.cycles c body) := by
  obtain ⟨hlisted, ⟨hproper, -⟩, hfor, hwhile⟩ := hl
  have hlines : Listed lines pc (.whilst c :: (body.commands ++ [.wend]) ++ rest.commands) := by
    rw [List.cons_append, List.append_assoc]
    exact hlisted
  rw [Block.forDepth] at hfor
  rw [Block.whileDepth] at hwhile
  exact ⟨hlines.left, hproper, by omega, by omega⟩

theorem laid_afterWhile (hl : Task.Laid lines s pc (.block (.whilst c body rest))) :
    Task.Laid lines s (pc + body.size + 2) (.block rest) := by
  obtain ⟨hlisted, ⟨-, hproper⟩, hfor, hwhile⟩ := hl
  have hlines : Listed lines (pc + 1 + body.size + 1) rest.commands := (Listed.right hlisted.tail).tail
  rw [show pc + 1 + body.size + 1 = pc + body.size + 2 by omega] at hlines
  rw [Block.forDepth] at hfor
  rw [Block.whileDepth] at hwhile
  exact ⟨hlines, hproper, by omega, by omega⟩

theorem laid_cycle (hl : Task.Laid lines s pc (.cycles c body)) :
    Task.Laid lines { s with whileStack := pc :: s.whileStack } (pc + 1) (.block body) := by
  obtain ⟨hlisted, hproper, hfor, hwhile⟩ := hl
  refine ⟨hlisted.tail.left, hproper, hfor, ?_⟩
  show (pc :: s.whileStack).length + _ ≤ _
  rw [List.length_cons]
  omega

end Laid

/-! ### The steps between tasks -/

section Steps

variable {i : Letter} {first last step e c : ExprTree} {body rest : Block} {x y z : Int32} {m : ℕ}
variable (hn : ∀ line ∈ lines, (statementStart line.text).length < n)

include hn

theorem step_assign (hl : Task.Laid lines s pc (.block (.assign i e rest))) (hx : e.eval v = .ok x) (h : History) :
    pc < lines.length ∧
      ∃ h', statement lines (parsers n) n (s.moved v pc h) = (.ok .go, s.moved (Function.update v i x) (pc + 1) h') := by
  obtain ⟨hpc, text, hline, hspelled, hlength⟩ := Listed.line hl.1 hn
  exact ⟨hpc, statement_assign hspelled hline hlength hx s h⟩

theorem step_enter (hl : Task.Laid lines s pc (.block (.loop i first last step body rest))) (hx : first.eval v = .ok x)
    (hy : last.eval v = .ok y) (hz : step.eval v = .ok z) (hne : z ≠ 0) (h : History) :
    pc < lines.length ∧ ∃ h', statement lines (parsers n) n (s.moved v pc h) =
      (.ok .go, s.inFor (Function.update v i x) pc body.size ⟨i, y, z, pc + 1⟩ (iterations x.toInt y.toInt z.toInt) h') := by
  obtain ⟨hpc, text, hline, hspelled, hlength⟩ := Listed.line hl.1 hn
  have hroom := hl.2.2.1
  rw [Block.forDepth] at hroom
  exact ⟨hpc, statement_enter hspelled hline hlength hx hy hz hne (findMatchingNext_loop hl.1.tail) (by omega) h⟩

theorem step_next (hl : Task.Laid lines s pc (.passes i z m body)) (u : Vars) (h : History) :
    pc + 1 + body.size < lines.length ∧
      statement lines (parsers n) n (Interp.moved { s with forStack := ⟨i, y, z, pc + 1⟩ :: s.forStack } u (pc + 1 + body.size) h) =
        (.ok .go, if Continues (u i + z) y z then
            Interp.moved { s with forStack := ⟨i, y, z, pc + 1⟩ :: s.forStack } (Function.update u i (u i + z)) (pc + 1) h
          else s.moved (Function.update u i (u i + z)) (pc + body.size + 2) h) := by
  obtain ⟨hpc, text, hline, hspelled, -⟩ := Listed.line (Listed.right hl.1) hn
  exact ⟨hpc, statement_next hspelled hline s h⟩

theorem step_whilst (hl : Task.Laid lines s pc (.block (.whilst c body rest))) (hx : c.eval v = .ok x) (h : History) :
    pc < lines.length ∧ ∃ h', statement lines (parsers n) n (s.moved v pc h) = (.ok .go, s.inWhile v pc body.size x h') := by
  obtain ⟨hpc, text, hline, hspelled, hlength⟩ := Listed.line hl.1 hn
  have hroom := hl.2.2.2
  rw [Block.whileDepth] at hroom
  exact ⟨hpc, statement_whilst hspelled hline hlength hx (findMatchingWend_loop hl.1.tail) (by omega) h⟩

theorem step_wend (hl : Task.Laid lines s pc (.cycles c body)) (hx : c.eval v = .ok x) (h : History) :
    pc + 1 + body.size < lines.length ∧ ∃ h', statement lines (parsers n) n
      (Interp.moved { s with whileStack := pc :: s.whileStack } v (pc + 1 + body.size) h) = (.ok .go, s.inWhile v pc body.size x h') := by
  obtain ⟨-, text, hline, hspelled, hlength⟩ := Listed.line hl.1 hn
  obtain ⟨hpc, text', hline', hwend, -⟩ := Listed.line (Listed.right hl.1.tail) hn
  exact ⟨hpc, statement_wend hspelled hline hwend hline' hlength hx s h⟩

end Steps

/-- The state after `NEXT` where the next value is a 32-bit number. -/
theorem inFor_next {size : ℕ} (hz : z ≠ 0)
    (hcount : iterations (u i).toInt y.toInt z.toInt = m + 1) (hr : InRange ((u i).toInt + z.toInt)) (h : History) :
    (if Continues (u i + z) y z then
        Interp.moved { s with forStack := ⟨i, y, z, pc + 1⟩ :: s.forStack } (Function.update u i (u i + z)) (pc + 1) h
      else s.moved (Function.update u i (u i + z)) (pc + size + 2) h) =
      s.inFor (Function.update u i (u i + z)) pc size ⟨i, y, z, pc + 1⟩ m h := by
  have hgo := continues_iff hz hcount hr
  unfold Interp.inFor
  by_cases hm : m = 0
  · rw [if_neg fun hc => hgo.1 hc hm, if_pos hm]
  · rw [if_pos (hgo.2 hm), if_neg hm]

/-- The count of the passes from the next value on. -/
theorem iterations_next (hz : z ≠ 0)
    (hcount : iterations (u i).toInt y.toInt z.toInt = m + 1) (hr : InRange ((u i).toInt + z.toInt)) :
    iterations ((Function.update u i (u i + z)) i).toInt y.toInt z.toInt = m := by
  have hzero : z.toInt ≠ 0 := fun h => hz (Int32.toInt_inj.1 h)
  rw [Function.update_self, toInt_add_of_inRange hr]
  exact iterations_succ hzero hcount

theorem exits_next (hr : InRange ((u i).toInt + z.toInt)) :
    ((Function.update u i (u i + z)) i).toInt + m * z.toInt = (u i).toInt + (m + 1 : ℕ) * z.toInt := by
  rw [Function.update_self, toInt_add_of_inRange hr]
  push_cast
  ring

/-- A loop that the rule runs has a condition with a value. -/
theorem Rule.condition {c : ExprTree} {body : Block} (hrule : Rule (.cycles c body) pc v w tr ex) :
    ∃ x, c.eval v = .ok x := by
  cases hrule with
  | cycled hc => exact ⟨0, hc⟩
  | cycle hc => exact ⟨_, hc⟩

/-- With every counter a 32-bit number after its loop, the interpreter follows the rule. -/
theorem Rule.walks (hn : ∀ line ∈ lines, (statementStart line.text).length < n)
    (hrule : Rule task pc v w tr ex) : ∀ {s t : Interp}, task.Laid lines s pc → task.Begins s pc v t →
      (∀ e ∈ task.exits v ex, InRange e) → ∃ h, Walk lines n t tr (s.moved w (task.after pc) h) := by
  induction hrule with
  | done =>
    rintro s _ - ⟨h, rfl⟩ -
    exact ⟨h, .here⟩
  | @assign pc _ _ i e rest x _ _ he _ ih =>
    rintro s _ hl ⟨h, rfl⟩ hex
    obtain ⟨hpc, h₁, hstep⟩ := step_assign hn hl he h
    obtain ⟨h₂, hwalk⟩ := ih (laid_assign hl) ⟨h₁, rfl⟩ hex
    have hafter : pc + 1 + rest.size = pc + (Block.assign i e rest).size := by
      rw [Block.size_assign]
      omega
    refine ⟨h₂, .moved hpc hstep ?_⟩
    simp only [Task.after] at hwalk ⊢
    rwa [← hafter]
  | @loop pc _ u _ i first last step body rest x y z tr tr' ex ex' hfirst hlast hstep hz _ _ ihpasses ihrest =>
    rintro s _ hl ⟨h, rfl⟩ hex
    simp only [Task.exits, List.forall_mem_cons, List.forall_mem_append] at hex ihpasses ihrest
    obtain ⟨hpc, h₁, henter⟩ := step_enter hn hl hfirst hlast hstep hz h
    obtain ⟨h₂, hpasses⟩ := ihpasses (laid_passes hl hz) ⟨y, h₁, by rw [Function.update_self], rfl⟩
      ⟨by rw [Function.update_self]; exact hex.1, hex.2.1⟩
    obtain ⟨h₃, hrest⟩ := ihrest (laid_afterLoop hl) ⟨h₂, rfl⟩ hex.2.2
    have hafter : pc + body.size + 2 + rest.size = pc + (Block.loop i first last step body rest).size := by
      rw [Block.size_loop]
      omega
    refine ⟨h₃, .moved hpc henter (hpasses.append ?_)⟩
    simp only [Task.after] at hrest ⊢
    rwa [← hafter]
  | passed =>
    rintro s _ - ⟨y, h, -, rfl⟩ -
    exact ⟨h, .here⟩
  | @pass pc m v u _ i z body _ _ _ _ hbody _ ihbody ihagain =>
    rintro s _ hl ⟨y, h, hcount, rfl⟩ hex
    simp only [Task.exits, List.forall_mem_cons, List.forall_mem_append] at hex ihbody ihagain
    obtain ⟨hexit, hexbody, hexagain⟩ := hex
    have hsame : u i = v i := hbody.unassigned hl.2.2.1
    have hz : z ≠ 0 := hl.2.1
    rw [← hsame] at hcount hexit
    have hr : InRange ((u i).toInt + z.toInt) := by
      by_cases hm : m = 0
      · subst hm
        simpa using hexit
      · exact inRange_of_passes hz hcount hm
    obtain ⟨h₁, hwalk⟩ := ihbody (laid_body hl ⟨i, y, z, pc + 1⟩) ⟨h, rfl⟩ hexbody
    obtain ⟨hpc, hnext⟩ := step_next (y := y) hn hl u h₁
    rw [inFor_next hz hcount hr] at hnext
    obtain ⟨h₂, hagain⟩ := ihagain ⟨hl.1, hl.2.1, hl.2.2⟩ ⟨y, h₁, iterations_next hz hcount hr, rfl⟩
      ⟨by rw [exits_next hr]; exact hexit, hexagain⟩
    exact ⟨h₂, hwalk.append (.moved hpc hnext hagain)⟩
  | @whilst pc _ u _ c body rest _ _ ex ex' hcycles _ ihcycles ihrest =>
    rintro s _ hl ⟨h, rfl⟩ hex
    simp only [Task.exits, List.forall_mem_append] at hex ihcycles ihrest
    obtain ⟨x, hx⟩ := hcycles.condition
    obtain ⟨hpc, h₁, hwhile⟩ := step_whilst hn hl hx h
    obtain ⟨h₂, hwalk⟩ := ihcycles (laid_cycles hl) ⟨x, h₁, hx, rfl⟩ hex.1
    obtain ⟨h₃, hrest⟩ := ihrest (laid_afterWhile hl) ⟨h₂, rfl⟩ hex.2
    have hafter : pc + body.size + 2 + rest.size = pc + (Block.whilst c body rest).size := by
      rw [Block.size_whilst]
      omega
    refine ⟨h₃, .moved hpc hwhile (hwalk.append ?_)⟩
    simp only [Task.after] at hrest ⊢
    rwa [← hafter]
  | @cycled _ v c body hc =>
    rintro s _ - ⟨x, h, hx, rfl⟩ -
    obtain rfl : x = 0 := Except.ok.inj (hx.symm.trans hc)
    exact ⟨h, .here⟩
  | @cycle pc v u _ c body x _ _ ex ex' hc hx _ hcycles ihbody ihagain =>
    rintro s _ hl ⟨x', h, hx', rfl⟩ hex
    simp only [Task.exits, List.forall_mem_append] at hex ihbody ihagain
    obtain rfl : x' = x := Except.ok.inj (hx'.symm.trans hc)
    obtain ⟨y, hy⟩ := hcycles.condition
    obtain ⟨h₁, hwalk⟩ := ihbody (laid_cycle hl) ⟨h, rfl⟩ hex.1
    obtain ⟨hpc, h₂, hwend⟩ := step_wend hn hl hy h₁
    obtain ⟨h₃, hagain⟩ := ihagain hl ⟨y, h₂, hy, rfl⟩ hex.2
    have hbegin : s.inWhile v pc body.size x' h = Interp.moved { s with whileStack := pc :: s.whileStack } v (pc + 1) h := if_neg hx
    rw [hbegin]
    exact ⟨h₃, hwalk.append (.moved hpc hwend hagain)⟩

/-- A walk along a program begins at its first line. -/
theorem Rule.starts {b : Block} (hrule : Rule (.block b) pc v w tr ex) {t' : Interp}
    (hwalk : Walk lines n t tr t') (hend : t'.pc = pc + b.size) : t.pc = pc := by
  cases hrule with
  | done =>
    cases hwalk
    exact hend
  | assign => exact hwalk.first.1
  | loop => exact hwalk.first.1
  | whilst => exact hwalk.first.1

/-- Where the interpreter follows the rule to its end, every counter was a 32-bit number after
its loop: with another one it would not have left the loop. -/
theorem Rule.inRange (hn : ∀ line ∈ lines, (statementStart line.text).length < n)
    (hrule : Rule task pc v w tr ex) : ∀ {s t t' : Interp}, task.Laid lines s pc → task.Begins s pc v t → Walk lines n t tr t' →
      t'.pc = task.after pc → ∀ e ∈ task.exits v ex, InRange e := by
  induction hrule with
  | done => exact fun _ _ _ _ => nofun
  | @assign pc _ _ i e rest x _ _ he _ ih =>
    rintro s _ t' hl ⟨h, rfl⟩ hwalk hend
    obtain ⟨-, u, hstep, hrest⟩ := hwalk.first
    obtain ⟨-, h₁, hstep'⟩ := step_assign hn hl he h
    rw [hstep'] at hstep
    cases hstep
    have hafter : pc + (Block.assign i e rest).size = pc + 1 + rest.size := by
      rw [Block.size_assign]
      omega
    exact ih (laid_assign hl) ⟨h₁, rfl⟩ hrest (hend.trans hafter)
  | @loop pc v u _ i first last step body rest x y z tr tr' ex ex' hfirst hlast hstep hz hpasses hrest ihpasses ihrest =>
    rintro s _ t' hl ⟨h, rfl⟩ hwalk hend
    obtain ⟨-, t₀, henter, hwalk⟩ := hwalk.first
    obtain ⟨-, h₁, henter'⟩ := step_enter hn hl hfirst hlast hstep hz h
    rw [henter'] at henter
    cases henter
    obtain ⟨t₁, hleft, hright⟩ := hwalk.split
    have hafter : pc + (Block.loop i first last step body rest).size = pc + body.size + 2 + rest.size := by
      rw [Block.size_loop]
      omega
    have hmiddle := hrest.starts hright (hend.trans hafter)
    have hbegin : Task.Begins s pc (Function.update v i x) (.passes i z _ body) (s.inFor (Function.update v i x) pc body.size _ _ h₁) :=
      ⟨y, h₁, by rw [Function.update_self], rfl⟩
    have hexits := ihpasses (laid_passes hl hz) hbegin hleft hmiddle
    obtain ⟨h₂, hpasses⟩ := hpasses.walks hn (laid_passes hl hz) hbegin hexits
    obtain rfl := hleft.unique hpasses
    have hexits' := ihrest (laid_afterLoop hl) ⟨h₂, rfl⟩ hright (hend.trans hafter)
    simp only [Task.exits, List.forall_mem_cons, List.forall_mem_append, Function.update_self] at hexits hexits' ⊢
    exact ⟨hexits.1, hexits.2, hexits'⟩
  | @passed pc v i z body =>
    rintro s _ t' - - - - e he
    simp only [Task.exits, List.mem_singleton, Nat.cast_zero, zero_mul, add_zero] at he
    rw [he]
    exact ⟨(v i).le_toInt, (v i).toInt_lt⟩
  | @pass pc m v u _ i z body _ _ _ _ hbody hpasses ihbody ihagain =>
    rintro s _ t' hl ⟨y, h, hcount, rfl⟩ hwalk hend
    obtain ⟨t₁, hleft, hright⟩ := hwalk.split
    obtain ⟨hmiddle, t₂, hnext, hagain⟩ := hright.first
    have hexits := ihbody (laid_body hl ⟨i, y, z, pc + 1⟩) ⟨h, rfl⟩ hleft hmiddle
    obtain ⟨h₁, hbodywalk⟩ := hbody.walks hn (laid_body hl ⟨i, y, z, pc + 1⟩) ⟨h, rfl⟩ hexits
    obtain rfl := hleft.unique hbodywalk
    have hsame : u i = v i := hbody.unassigned hl.2.2.1
    have hz : z ≠ 0 := hl.2.1
    rw [← hsame] at hcount
    obtain ⟨-, hnext'⟩ := step_next (y := y) hn hl u h₁
    obtain rfl := (Prod.mk.inj (hnext'.symm.trans hnext)).2
    have hr : InRange ((u i).toInt + z.toInt) := by
      by_contra hout
      by_cases hm : m = 0
      · subst hm
        cases hpasses
        cases hagain
        rw [if_pos (continues_of_not_inRange hz hcount hout)] at hend
        have hpc : pc + 1 = pc + body.size + 2 := hend
        omega
      · exact hout (inRange_of_passes hz hcount hm)
    rw [inFor_next hz hcount hr] at hagain
    have hexits' := ihagain ⟨hl.1, hl.2.1, hl.2.2⟩ ⟨y, h₁, iterations_next hz hcount hr, rfl⟩ hagain hend
    simp only [Task.exits, List.forall_mem_cons, List.forall_mem_append] at hexits hexits' ⊢
    rw [exits_next hr, hsame] at hexits'
    exact ⟨hexits'.1, hexits, hexits'.2⟩
  | @whilst pc _ u _ c body rest _ _ ex ex' hcycles hrest ihcycles ihrest =>
    rintro s _ t' hl ⟨h, rfl⟩ hwalk hend
    obtain ⟨x, hx⟩ := hcycles.condition
    obtain ⟨-, t₀, hwhile, hwalk⟩ := hwalk.first
    obtain ⟨-, h₁, hwhile'⟩ := step_whilst hn hl hx h
    rw [hwhile'] at hwhile
    cases hwhile
    obtain ⟨t₁, hleft, hright⟩ := hwalk.split
    have hafter : pc + (Block.whilst c body rest).size = pc + body.size + 2 + rest.size := by
      rw [Block.size_whilst]
      omega
    have hmiddle := hrest.starts hright (hend.trans hafter)
    have hexits := ihcycles (laid_cycles hl) ⟨x, h₁, hx, rfl⟩ hleft hmiddle
    obtain ⟨h₂, hcycles⟩ := hcycles.walks hn (laid_cycles hl) ⟨x, h₁, hx, rfl⟩ hexits
    obtain rfl := hleft.unique hcycles
    have hexits' := ihrest (laid_afterWhile hl) ⟨h₂, rfl⟩ hright (hend.trans hafter)
    exact List.forall_mem_append.2 ⟨hexits, hexits'⟩
  | cycled => exact fun _ _ _ _ => nofun
  | @cycle pc v u _ c body x _ _ ex ex' hc hx hbody hcycles ihbody ihagain =>
    rintro s _ t' hl ⟨x', h, hx', rfl⟩ hwalk hend
    obtain rfl : x' = x := Except.ok.inj (hx'.symm.trans hc)
    have hbegin : s.inWhile v pc body.size x' h = Interp.moved { s with whileStack := pc :: s.whileStack } v (pc + 1) h := if_neg hx
    rw [hbegin] at hwalk
    obtain ⟨t₁, hleft, hright⟩ := hwalk.split
    obtain ⟨hmiddle, t₂, hwend, hagain⟩ := hright.first
    have hexits := ihbody (laid_cycle hl) ⟨h, rfl⟩ hleft hmiddle
    obtain ⟨h₁, hbodywalk⟩ := hbody.walks hn (laid_cycle hl) ⟨h, rfl⟩ hexits
    obtain rfl := hleft.unique hbodywalk
    obtain ⟨y, hy⟩ := hcycles.condition
    obtain ⟨-, h₂, hwend'⟩ := step_wend hn hl hy h₁
    obtain rfl := (Prod.mk.inj (hwend'.symm.trans hwend)).2
    exact List.forall_mem_append.2 ⟨hexits, ihagain hl ⟨y, h₂, hy, rfl⟩ hagain hend⟩

/-! ### The loops of a program -/

/-- The interpreter executes the lines of the trace and is then after the program, with both
stacks as they were; a run is there after as many steps. -/
def FollowsRule (lines : List Line) (n : ℕ) (s : Interp) (pc size : ℕ) (v w : Vars) (tr : Trace) : Prop :=
  ∀ h, ∃ h', Walk lines n (s.moved v pc h) tr (s.moved w (pc + size) h') ∧ ∀ k,
    runLoop lines (parsers n) n (tr.length + k) (s.moved v pc h) = runLoop lines (parsers n) n k (s.moved w (pc + size) h')

/-- A program stands in the lines, and the stacks have room for its loops. -/
structure Hosted (lines : List Line) (n : ℕ) (s : Interp) (pc : ℕ) (b : Block) : Prop where
  short : ∀ line ∈ lines, line.text.length < n
  listed : Listed lines pc b.commands
  proper : b.Proper
  forRoom : s.forStack.length + b.forDepth ≤ BASIC_MAX_FOR_DEPTH
  whileRoom : s.whileStack.length + b.whileDepth ≤ BASIC_MAX_WHILE_DEPTH

section Hosted

variable {b : Block} {tr : Trace} {ex : List ℤ}

section

variable (hb : Hosted lines n s pc b)
include hb

theorem Hosted.laid : Task.Laid lines s pc (.block b) := ⟨hb.listed, hb.proper, hb.forRoom, hb.whileRoom⟩

theorem Hosted.statements : ∀ line ∈ lines, (statementStart line.text).length < n :=
  fun line hline => (statementStart_le line.text).trans_lt (hb.short line hline)

theorem followsRule_of_inRange (hrule : Rule (.block b) pc v w tr ex) (hex : ∀ e ∈ ex, InRange e) :
    FollowsRule lines n s pc b.size v w tr := by
  intro h
  obtain ⟨h', hwalk⟩ := hrule.walks hb.statements hb.laid ⟨h, rfl⟩ hex
  exact ⟨h', hwalk, hwalk.runLoop⟩

theorem inRange_of_followsRule (hrule : Rule (.block b) pc v w tr ex)
    (hfollows : FollowsRule lines n s pc b.size v w tr) : ∀ e ∈ ex, InRange e := by
  obtain ⟨h', hwalk, -⟩ := hfollows s.history
  exact hrule.inRange hb.statements hb.laid ⟨s.history, rfl⟩ hwalk rfl

end

end Hosted

theorem listed_lines (b : Block) : Listed b.lines 0 b.commands := by
  intro j c hc
  refine ⟨⟨-1, c.text⟩, ?_, ?_⟩
  · rw [Nat.zero_add, Block.lines, List.getElem?_map, hc]
    rfl
  · have halpha : isAlpha (peek c.text) = true := by cases c <;> rfl
    rw [show statementStart c.text = c.text from statementStart_of_isAlpha halpha]
    exact spelled_text c

/-- Loops run as the rule says, with the count of the passes and the values of the counter
found in the integers, exactly if every counter is still a 32-bit number after its loop.
Every program can be written, and one that has all lines ends after them, within the steps
that a run has. -/
theorem loops_iff (b : Block) : Listed b.lines 0 b.commands ∧ ∀ (lines : List Line) (n pc : ℕ) (s : Interp) (v w : Vars) (tr : Trace)
    (ex : List ℤ), Hosted lines n s pc b → Rule (.block b) pc v w tr ex →
      (FollowsRule lines n s pc b.size v w tr ↔ ∀ e ∈ ex, InRange e) ∧
      ((∀ e ∈ ex, InRange e) → lines.length = pc + b.size → tr.length < BASIC_MAX_STEPS → ∀ h, ∃ h',
        runLoop lines (parsers n) n BASIC_MAX_STEPS (s.moved v pc h) = (.ok .go, s.moved w (pc + b.size) h')) := by
  refine ⟨listed_lines b, fun lines n pc s v w tr ex hb hrule => ⟨⟨inRange_of_followsRule hb hrule, followsRule_of_inRange hb hrule⟩, ?_⟩⟩
  intro hex hlength hsteps h
  obtain ⟨h', -, hrun⟩ := followsRule_of_inRange hb hrule hex h
  obtain ⟨k, hk⟩ : ∃ k, BASIC_MAX_STEPS = tr.length + (k + 1) := ⟨BASIC_MAX_STEPS - tr.length - 1, by omega⟩
  refine ⟨h', ?_⟩
  rw [hk, hrun, runLoop, bind_ok (gets_apply Interp.pc _), if_neg]
  · rfl
  · show ¬ pc + b.size < lines.length
    omega

/-- `FOR I = 1 TO 2 STEP 1`, `LET A = A + I`, `NEXT I` -/
def countedLoop : Block :=
  .loop 8 (.lit ⟨1, by decide⟩) (.lit ⟨2, two_lt_literals⟩) (.lit ⟨1, by decide⟩) (.assign 0 (.bin .add (.var 0) (.var 8)) .done) .done

theorem loops_iff_counted : ∃ w tr, w 0 = 3 ∧ tr.length = 5 ∧
    FollowsRule countedLoop.lines 40 (booted Ramfs.blank fun _ => none) 0 3 (fun _ => 0) w tr := by
  have hhosted : Hosted countedLoop.lines 40 (booted Ramfs.blank fun _ => none) 0 countedLoop :=
    ⟨by decide +kernel, listed_lines _, by simp [countedLoop, Block.Proper, Block.Assigns], by decide, by decide⟩
  have hrule : ∃ w tr ex, w 0 = 3 ∧ tr.length = 5 ∧ (∀ e ∈ ex, InRange e) ∧ Rule (.block countedLoop) 0 (fun _ => 0) w tr ex :=
    ⟨_, _, _, rfl, rfl, by decide, .loop rfl rfl rfl (by decide) (.pass (.assign rfl .done) (.pass (.assign rfl .done) .passed)) .done⟩
  obtain ⟨w, tr, ex, hw, htr, hex, hrule⟩ := hrule
  exact ⟨w, tr, hw, htr, (((loops_iff countedLoop).2 _ _ _ _ _ _ _ _ hhosted hrule).1).2 hex⟩

/-- `FOR I = 2147483647 TO 2147483647 STEP 1`, `NEXT I` -/
def lastLoop : Block :=
  .loop 8 (.lit ⟨2147483647, by decide⟩) (.lit ⟨2147483647, by decide⟩) (.lit ⟨1, by decide⟩) .done .done

/-- A loop up to the greatest number does not end. -/
theorem not_followsRule : ¬ ∀ (b : Block) (lines : List Line) (n pc : ℕ) (s : Interp) (v w : Vars) (tr : Trace) (ex : List ℤ),
    Hosted lines n s pc b → Rule (.block b) pc v w tr ex → tr.length < BASIC_MAX_STEPS → FollowsRule lines n s pc b.size v w tr := by
  intro hall
  have hhosted : Hosted lastLoop.lines 60 (booted Ramfs.blank fun _ => none) 0 lastLoop :=
    ⟨by decide +kernel, listed_lines _, by simp [lastLoop, Block.Proper, Block.Assigns], by decide, by decide⟩
  have hrule : ∃ w tr ex, tr.length < BASIC_MAX_STEPS ∧ 2147483648 ∈ ex ∧ Rule (.block lastLoop) 0 (fun _ => 0) w tr ex :=
    ⟨_, _, _, by decide, by decide, .loop rfl rfl rfl (by decide) (.pass .done .passed) .done⟩
  obtain ⟨w, tr, ex, hsteps, hexit, hrule⟩ := hrule
  have hrange := inRange_of_followsRule hhosted hrule (hall _ _ _ _ _ _ _ _ _ hhosted hrule hsteps)
  exact absurd (hrange _ hexit) (by decide)

end Tg11Kernel.Basic
