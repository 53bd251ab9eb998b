import Tg11Kernel.Basic.Steps

/-! A statement that fails has reported an error. Inside a statement every parser and every
check is wrapped in an error message, so the way to the cleanup always goes through one. -/

namespace Tg11Kernel.Basic

open Lib Lib.Exec

variable {k n : ℕ} {α β : Type} {lines : List Line} {p : Parsers} {text : Text}

/-- An error return has set the flag. -/
def Reports (m : M α) : Prop := ∀ s t, m s = (.fail, t) → t.errFlag = true

namespace Reports

variable {m : M α} {f : α → M β} {message : String}

theorem of_ne_fail (h : ∀ s, (m s).1 ≠ .fail) : Reports m := fun s _ hm => absurd (congrArg Prod.fst hm) (h s)

theorem pure {a : α} : Reports (Pure.pure a : M α) := of_ne_fail fun _ => by rintro ⟨⟩

theorem hang : Reports (Exec.hang : M α) := of_ne_fail fun _ => by rintro ⟨⟩

theorem gets {g : Interp → α} : Reports (Exec.gets g) := of_ne_fail fun _ => by rintro ⟨⟩

theorem modify {g : Interp → Interp} : Reports (Exec.modify g) := of_ne_fail fun _ => by rintro ⟨⟩

theorem attempt : Reports (Exec.attempt m) := by
  apply of_ne_fail
  intro s
  rw [attempt_apply]
  rcases m s with ⟨_ | _ | _, t⟩ <;> rintro ⟨⟩

theorem bind (h : Reports m) (hf : ∀ a, Reports (f a)) : Reports (m >>= f) := by
  intro s t ht
  rcases hm : m s with ⟨a | _ | _, u⟩
  · rw [bind_ok hm] at ht
    exact hf a u t ht
  · rw [bind_fail hm] at ht
    cases ht
    exact h s _ hm
  · rw [bind_hang hm] at ht
    cases ht

theorem ite {c : Prop} [Decidable c] {m' : M α} (h : Reports m) (h' : Reports m') : Reports (if c then m else m') := by
  split_ifs
  · exact h
  · exact h'

/-- What is done in between does not fail. -/
theorem modify_bind {g : Interp → Interp} {f : Unit → M β} (hf : Reports (f ())) : Reports (Exec.modify g >>= f) :=
  modify.bind fun _ => hf

theorem gets_bind {g : Interp → α} (hf : ∀ a, Reports (f a)) : Reports (Exec.gets g >>= f) := gets.bind hf

theorem orErr : Reports (orErr lines m message) := by
  intro s t ht
  unfold Basic.orErr at ht
  rcases hm : m s with ⟨a | _ | _, u⟩
  · rw [orElse_ok hm] at ht
    cases ht
  · obtain ⟨v, hv, hflag⟩ := rtErr_reports lines message u
    rw [orElse_fail hm hv] at ht
    cases ht
    exact hflag
  · rw [orElse_hang hm] at ht
    cases ht

theorem orErr_bind (hf : ∀ a, Reports (f a)) :
    Reports (Basic.orErr lines m message >>= f) := orErr.bind hf

theorem rtFail : Reports (rtFail lines message : M α) := by
  intro s t ht
  obtain ⟨u, hu, hflag⟩ := rtErr_reports lines message s
  unfold Basic.rtFail at ht
  rw [bind_ok hu] at ht
  cases ht
  exact hflag

end Reports

theorem nextLine_reports : Reports nextLine := Reports.modify_bind Reports.pure

theorem jump_reports (pc : ℕ) : Reports (jump pc) := Reports.modify_bind Reports.pure

/-! ### PRINT -/

theorem printSpaces_reports (message : String) : Reports (printSpaces lines p message text) :=
  Reports.orErr_bind fun _ => Reports.modify_bind Reports.pure

theorem printValue_reports : Reports (printValue lines p text) := by
  unfold printValue
  apply Reports.attempt.bind
  intro r
  cases r with
  | none => exact Reports.orErr_bind fun _ => Reports.modify_bind Reports.pure
  | some r => exact Reports.modify_bind Reports.pure

theorem printItem_reports : Reports (printItem lines p text) :=
  Reports.ite (printSpaces_reports _) (Reports.ite (printSpaces_reports _) printValue_reports)

theorem printLoop_reports : Reports (printLoop lines p k text) := by
  induction k generalizing text with
  | zero => exact Reports.hang
  | succ k ih =>
    unfold printLoop
    apply printItem_reports.bind
    intro s₁
    apply Reports.ite
    · exact (Reports.ite Reports.modify Reports.pure).bind fun _ => Reports.ite Reports.pure ih
    · exact Reports.pure

theorem printStatement_reports : Reports (printStatement lines p n text) := by
  unfold printStatement
  apply Reports.ite
  · exact Reports.modify_bind nextLine_reports
  · exact printLoop_reports.bind fun _ => (Reports.ite Reports.modify Reports.pure).bind fun _ => nextLine_reports

/-! ### READ, RESTORE and INPUT -/

theorem storeItem_reports (i : Letter) (isString tokenIsString : Bool) :
    Reports (storeItem lines p i isString text tokenIsString) :=
  Reports.ite Reports.modify (Reports.orErr_bind fun _ => Reports.orErr_bind fun _ => Reports.orErr_bind fun _ => Reports.modify)

theorem readLoop_reports : Reports (readLoop lines p k text) := by
  induction k generalizing text with
  | zero => exact Reports.hang
  | succ k ih =>
    unfold readLoop
    apply Reports.orErr_bind
    rintro ⟨i, isString, s₁⟩
    apply Reports.orErr_bind
    rintro ⟨token, tokenIsString⟩
    exact (storeItem_reports i isString tokenIsString).bind fun _ => Reports.ite ih Reports.pure

theorem readStatement_reports : Reports (readStatement lines p n text) := readLoop_reports.bind fun _ => nextLine_reports

theorem restoreStatement_reports : Reports (restoreStatement lines text) :=
  (Reports.ite Reports.pure Reports.orErr).bind fun _ => Reports.orErr_bind fun _ => nextLine_reports

theorem inputPrompt_reports : Reports (inputPrompt lines text) := Reports.ite (Reports.orErr_bind fun _ => Reports.pure) Reports.pure

theorem storeInput_reports (i : Letter) (isString : Bool) : Reports (storeInput lines p i isString text) :=
  Reports.ite (Reports.ite (Reports.orErr_bind fun _ => Reports.modify) Reports.modify) (Reports.orErr_bind fun _ => Reports.orErr_bind fun _ => Reports.modify)

theorem inputStatement_reports : Reports (inputStatement lines p text) := by
  unfold inputStatement
  apply inputPrompt_reports.bind
  rintro ⟨prompt, s₁⟩
  apply Reports.orErr_bind
  rintro ⟨i, isString, rest⟩
  exact Reports.modify_bind (Reports.orErr_bind fun _ => (storeInput_reports i isString).bind fun _ => nextLine_reports)

/-! ### DIM and assignments -/

theorem dimLoop_reports : Reports (dimLoop lines p k text) := by
  induction k generalizing text with
  | zero => exact Reports.hang
  | succ k ih =>
    unfold dimLoop
    apply Reports.orErr_bind
    rintro ⟨i, s₁⟩
    exact Reports.orErr_bind fun _ => Reports.orErr_bind fun _ => Reports.orErr_bind fun _ => Reports.orErr_bind fun _ => Reports.modify_bind (Reports.ite ih Reports.pure)

theorem dimStatement_reports : Reports (dimStatement lines p n text) := dimLoop_reports.bind fun _ => nextLine_reports

theorem targetIndex_reports (isString : Bool) (indexMessage parenMessage : String) :
    Reports (targetIndex lines p isString indexMessage parenMessage text) :=
  Reports.ite (Reports.orErr_bind fun _ => Reports.orErr_bind fun _ => Reports.pure) Reports.pure

theorem stringRhs_reports (literalMessage valueMessage : String) : Reports (stringRhs lines literalMessage valueMessage text) :=
  Reports.ite (Reports.orErr_bind fun _ => Reports.pure) (Reports.ite (Reports.orErr_bind fun _ => Reports.pure) Reports.rtFail)

theorem assign_reports (i : Letter) (isString : Bool) (index : Int32)
    (literalMessage stringMessage numberMessage rangeMessage : String) :
    Reports (assign lines p i isString index literalMessage stringMessage numberMessage rangeMessage text) := by
  apply Reports.ite
  · exact (stringRhs_reports _ _).bind fun _ => Reports.modify_bind nextLine_reports
  · exact Reports.orErr_bind fun _ => (Reports.ite Reports.orErr Reports.modify).bind fun _ => nextLine_reports

theorem letStatement_reports : Reports (letStatement lines p text) := by
  unfold letStatement
  apply Reports.orErr_bind
  rintro ⟨i, isString, s₁⟩
  apply (targetIndex_reports _ _ _).bind
  rintro ⟨index, s₂⟩
  exact Reports.orErr_bind fun _ => assign_reports _ _ _ _ _ _ _

theorem assignStatement_reports : Reports (assignStatement lines p text) := by
  unfold assignStatement
  apply Reports.ite
  · split
    · exact Reports.rtFail
    · apply (targetIndex_reports _ _ _).bind
      rintro ⟨index, s₂⟩
      exact Reports.ite (assign_reports _ _ _ _ _ _ _) Reports.rtFail
  · exact Reports.rtFail

theorem updateStatement_reports {op : Int32 → Int32 → M Int32} (hop : ∀ a b, Reports (op a b)) (message : String) :
    Reports (updateStatement lines p op message text) := by
  unfold updateStatement
  apply Reports.orErr_bind
  rintro ⟨i, v⟩
  exact Reports.gets_bind fun _ => (hop _ _).bind fun _ => Reports.modify_bind nextLine_reports

theorem total_reports (op : Int32 → Int32 → Int32) (a b : Int32) : Reports (total op a b) := Reports.pure

/-! ### Loops and functions -/

theorem forStep_reports : Reports (forStep lines p text) := Reports.ite (Reports.orErr_bind fun _ => Reports.pure) Reports.pure

theorem forStatement_reports : Reports (forStatement lines p text) := by
  unfold forStatement
  apply Reports.gets_bind
  intro pc
  apply Reports.orErr_bind
  rintro ⟨i, s₁⟩
  apply Reports.orErr_bind
  intro s₂
  apply Reports.orErr_bind
  rintro ⟨startValue, s₃⟩
  apply Reports.orErr_bind
  intro _
  apply Reports.orErr_bind
  rintro ⟨endValue, s₄⟩
  apply forStep_reports.bind
  intro step
  apply Reports.orErr_bind
  intro _
  apply Reports.modify_bind
  apply Reports.ite
  · exact Reports.orErr_bind fun _ => jump_reports _
  · exact Reports.gets_bind fun _ => Reports.orErr_bind fun _ => Reports.modify_bind nextLine_reports

theorem nextStatement_reports : Reports (nextStatement lines text) := by
  unfold nextStatement nextVar
  apply (Reports.ite (Reports.orErr_bind fun _ => Reports.pure) Reports.pure).bind
  intro name
  apply Reports.gets_bind
  intro forStack
  cases forStack with
  | nil => exact Reports.rtFail
  | cons f rest =>
    exact Reports.orErr_bind fun _ => Reports.gets_bind fun _ => Reports.modify_bind (Reports.ite (jump_reports _) (Reports.modify_bind nextLine_reports))

theorem whileStatement_reports : Reports (whileStatement lines p text) := by
  unfold whileStatement
  apply Reports.gets_bind
  intro pc
  apply Reports.orErr_bind
  rintro ⟨cond, s₁⟩
  apply Reports.ite
  · exact Reports.gets_bind fun _ => Reports.orErr_bind fun _ => Reports.modify_bind nextLine_reports
  · exact Reports.orErr_bind fun _ => jump_reports _

theorem wendStatement_reports : Reports (wendStatement lines p) := by
  unfold wendStatement
  apply Reports.gets_bind
  intro whileStack
  cases whileStack with
  | nil => exact Reports.rtFail
  | cons whilePc rest => exact Reports.orErr_bind fun _ => Reports.ite (jump_reports _) (Reports.modify_bind nextLine_reports)

theorem defStatement_reports : Reports (defStatement lines text) :=
  Reports.orErr_bind fun _ => Reports.orErr_bind fun _ => Reports.orErr_bind fun _ => Reports.orErr_bind fun _ => Reports.orErr_bind fun _ =>
    Reports.gets_bind fun _ => Reports.orErr_bind fun _ => Reports.modify_bind nextLine_reports

/-! ### Jumps -/

theorem target_reports (parseMessage notFoundMessage : String) : Reports (target lines parseMessage notFoundMessage text) :=
  Reports.orErr_bind fun _ => Reports.orErr

theorem gotoStatement_reports : Reports (gotoStatement lines text) := (target_reports _ _).bind fun _ => jump_reports _

theorem pushCall_reports (message : String) : Reports (pushCall lines message) := Reports.gets_bind fun _ => Reports.orErr_bind fun _ => Reports.modify

theorem gosubStatement_reports : Reports (gosubStatement lines text) :=
  (target_reports _ _).bind fun _ => (pushCall_reports _).bind fun _ => jump_reports _

theorem onStatement_reports : Reports (onStatement lines p text) := by
  unfold onStatement
  apply Reports.orErr_bind
  rintro ⟨selector, s₁⟩
  apply Reports.orErr_bind
  rintro ⟨doGosub, s₂⟩
  dsimp only
  split
  · exact nextLine_reports
  · exact Reports.orErr_bind fun _ => (Reports.ite (pushCall_reports _) Reports.pure).bind fun _ => jump_reports _

theorem returnStatement_reports : Reports (returnStatement lines) := by
  unfold returnStatement
  apply Reports.gets_bind
  intro callStack
  cases callStack with
  | nil => exact Reports.rtFail
  | cons pc rest => exact Reports.modify_bind (jump_reports pc)

theorem ifStatement_reports : Reports (ifStatement lines p text) := by
  unfold ifStatement
  apply Reports.orErr_bind
  rintro ⟨lhs, s₁⟩
  apply Reports.orErr_bind
  rintro ⟨cmp, s₂⟩
  apply Reports.orErr_bind
  rintro ⟨rhs, s₃⟩
  exact Reports.orErr_bind fun _ => Reports.orErr_bind fun _ => Reports.ite (Reports.orErr_bind fun _ => jump_reports _) nextLine_reports

/-! ### Files -/

theorem fileNumber_reports (missing numberMessage rangeMessage : String) :
    Reports (fileNumber lines p missing numberMessage rangeMessage text) :=
  Reports.orErr_bind fun _ => Reports.orErr_bind fun _ => Reports.orErr_bind fun _ => Reports.pure

theorem openMode_reports : Reports (openMode lines text) := Reports.ite (Reports.ite Reports.pure (Reports.ite Reports.pure (Reports.ite Reports.pure Reports.rtFail))) Reports.pure

theorem fillChan_reports (c : Chan) (fname : Text) (mode : FileMode) : Reports (fillChan lines c fname mode) := by
  cases mode with
  | input =>
    apply Reports.attempt.bind
    intro r
    cases r with
    | none => exact Reports.modify_bind Reports.rtFail
    | some buf => exact Reports.modify
  | output => exact Reports.pure
  | append =>
    apply Reports.attempt.bind
    intro r
    cases r with
    | none => exact Reports.pure
    | some buf => exact Reports.modify

theorem openStatement_reports : Reports (openStatement lines p text) := by
  unfold openStatement
  apply Reports.orErr_bind
  rintro ⟨fname, s₁⟩
  apply openMode_reports.bind
  rintro ⟨mode, s₂⟩
  apply (fileNumber_reports _ _ _).bind
  rintro ⟨c, s₃⟩
  exact Reports.gets_bind fun _ => Reports.orErr_bind fun _ => Reports.modify_bind ((fillChan_reports c fname mode).bind fun _ => nextLine_reports)

theorem flushChan_reports (c : Chan) : Reports (flushChan c) :=
  Reports.gets_bind fun _ => (Reports.ite (Reports.attempt.bind fun _ => Reports.pure) Reports.pure).bind fun _ => Reports.modify

theorem closeStatement_reports : Reports (closeStatement lines p text) := by
  unfold closeStatement
  apply (fileNumber_reports _ _ _).bind
  rintro ⟨c, s₁⟩
  exact Reports.gets_bind fun _ => Reports.orErr_bind fun _ => (flushChan_reports c).bind fun _ => nextLine_reports

theorem printFileLoop_reports {out : Text} : Reports (printFileLoop p k out text) := by
  induction k generalizing out text with
  | zero => exact Reports.hang
  | succ k ih =>
    unfold printFileLoop
    apply Reports.ite
    · apply Reports.attempt.bind
      intro r
      cases r with
      | none => exact Reports.pure
      | some r => exact Reports.ite ih (Reports.ite ih Reports.pure)
    · exact Reports.pure

theorem printFileStatement_reports : Reports (printFileStatement lines p n text) := by
  unfold printFileStatement
  apply (fileNumber_reports _ _ _).bind
  rintro ⟨c, s₁⟩
  exact Reports.gets_bind fun _ => Reports.orErr_bind fun _ => printFileLoop_reports.bind fun _ =>
    Reports.modify_bind nextLine_reports

theorem inputFileStatement_reports : Reports (inputFileStatement lines p text) := by
  unfold inputFileStatement
  apply (fileNumber_reports _ _ _).bind
  rintro ⟨c, s₁⟩
  apply Reports.gets_bind
  intro files
  apply Reports.orErr_bind
  intro _
  apply Reports.orErr_bind
  rintro ⟨i, isString, s₂⟩
  apply Reports.modify_bind
  apply Reports.ite
  · exact Reports.modify_bind nextLine_reports
  · exact Reports.orErr_bind fun _ => Reports.modify_bind nextLine_reports

/-! ### The run -/

theorem dispatch_reports : Reports (dispatch lines p n text) := by
  have hdivide : ∀ (op : Int32 → Int32 → Int32) (message : String) (a b : Int32),
      Reports (orErr lines (divide op a b) message) := fun _ _ _ _ => Reports.orErr
  unfold dispatch
  refine Reports.ite nextLine_reports ?_
  refine Reports.ite Reports.pure ?_
  refine Reports.ite (Reports.modify_bind nextLine_reports) ?_
  refine Reports.ite (Reports.modify_bind nextLine_reports) ?_
  refine Reports.ite (Reports.modify_bind Reports.pure) ?_
  refine Reports.ite printStatement_reports ?_
  refine Reports.ite nextLine_reports ?_
  refine Reports.ite readStatement_reports ?_
  refine Reports.ite restoreStatement_reports ?_
  refine Reports.ite dimStatement_reports ?_
  refine Reports.ite letStatement_reports ?_
  refine Reports.ite inputStatement_reports ?_
  refine Reports.ite forStatement_reports ?_
  refine Reports.ite nextStatement_reports ?_
  refine Reports.ite whileStatement_reports ?_
  refine Reports.ite wendStatement_reports ?_
  refine Reports.ite defStatement_reports ?_
  refine Reports.ite (updateStatement_reports (total_reports _) _) ?_
  refine Reports.ite (updateStatement_reports (total_reports _) _) ?_
  refine Reports.ite (updateStatement_reports (total_reports _) _) ?_
  refine Reports.ite (updateStatement_reports (hdivide _ _) _) ?_
  refine Reports.ite (updateStatement_reports (hdivide _ _) _) ?_
  refine Reports.ite gotoStatement_reports ?_
  refine Reports.ite onStatement_reports ?_
  refine Reports.ite gosubStatement_reports ?_
  refine Reports.ite returnStatement_reports ?_
  refine Reports.ite ifStatement_reports ?_
  refine Reports.ite openStatement_reports ?_
  refine Reports.ite closeStatement_reports ?_
  refine Reports.ite printFileStatement_reports ?_
  exact Reports.ite inputFileStatement_reports assignStatement_reports

theorem runLoop_reports (steps : ℕ) : Reports (runLoop lines p n steps) := by
  induction steps with
  | zero => exact Reports.gets_bind fun _ => Reports.ite Reports.rtFail Reports.pure
  | succ steps ih =>
    unfold runLoop
    apply Reports.gets_bind
    intro pc
    apply Reports.ite
    · have hstatement : Reports (statement lines p n) := Reports.gets_bind fun _ => Reports.ite nextLine_reports dispatch_reports
      apply hstatement.bind
      intro flow
      cases flow with
      | go => exact ih
      | exit => exact Reports.pure
    · exact Reports.pure

end Tg11Kernel.Basic
