import Tg11Kernel.Basic.Statements
import Tg11Kernel.Basic.Variables

/-! Which statements move the cursor of the DATA items: `READ`, `RESTORE` and `RUN`, and no
other one. -/

namespace Tg11Kernel.Basic

open Lib Lib.Exec

variable {n : ℕ} {α β : Type} {p : Parsers} {lines : List Line} {text : Text}

/-- Where the next item is looked for. -/
def Interp.cursor (s : Interp) : ℕ × ℕ := (s.dataLine, s.dataOffset)

/-- However the program ends, the cursor stays. -/
def Stays {α : Type} (m : M α) : Prop := Exec.Keeps Interp.cursor m

namespace Stays

variable {m : M α} {f : α → M β}

theorem pure {a : α} : Stays (Pure.pure a : M α) := Keeps.pure

theorem fail : Stays (Exec.fail : M α) := Keeps.fail

theorem hang : Stays (Exec.hang : M α) := Keeps.hang

theorem gets {g : Interp → α} : Stays (Exec.gets g) := Keeps.gets

variable {g : Interp → Interp} {c : Prop}

theorem modify (h : ∀ s, (g s).cursor = s.cursor) : Stays (Exec.modify g) := Keeps.modify h

theorem modify_bind {f : Unit → M β} (h : ∀ s, (g s).cursor = s.cursor) (hf : Stays (f ())) :
    Stays (Exec.modify g >>= f) := Keeps.bind (modify h) fun _ => hf

theorem bind (h : Stays m) (hf : ∀ a, Stays (f a)) : Stays (m >>= f) := Keeps.bind h hf

theorem ofOption {o : Option α} : Stays (Exec.ofOption o) := Keeps.ofOption

theorem require [Decidable c] : Stays (Exec.require c) := Keeps.require

theorem ite [Decidable c] {m' : M α} (h : Stays m) (h' : Stays m') : Stays (if c then m else m') :=
  Keeps.ite h h'

theorem attempt (h : Stays m) : Stays (Exec.attempt m) := Keeps.attempt h

end Stays

theorem stays_divide (op : Int32 → Int32 → Int32) (x y : Int32) : Stays (divide op x y) := by
  have hmachine : Stays (machineDivide op ⟨x, y⟩) := .modify_bind (fun _ => rfl) (.ite .hang .pure)
  exact .modify_bind (fun _ => rfl) (Stays.require.bind fun _ => hmachine)

theorem stays_evalBody (f : DefFn) (arg : Int32) {body : M (Int32 × Text)} (h : Stays body) : Stays (evalBody f arg body) :=
  Stays.gets.bind fun _ => .modify_bind (fun _ => rfl) (h.attempt.bind fun _ => .modify_bind (fun _ => rfl) .ofOption)

theorem stays_draw : Stays (Exec.modify fun s : Interp => { s with randState := nextRand s.randState }) :=
  Stays.modify fun s => show (s.dataLine, s.dataOffset) = _ from rfl

theorem stays_closed : Closed @Stays where
  pure _ := .pure
  fail := .fail
  hang := .hang
  bind := .bind
  gets _ _ := .gets
  draw := stays_draw
  divide := stays_divide
  enter f arg _ := stays_evalBody f arg

theorem parsers_stay (n : ℕ) : (parsers n).All @Stays := stays_closed.parsers n

/-! ### Errors and jumps -/

theorem write_stays : Stays (terminalWrite text) := .modify fun _ => rfl

variable {message : String} {i : Letter}

theorem rtErr_stays : Stays (rtErr lines message) := by
  have hplace : Stays (runtimeError lines message) := Stays.gets.bind fun _ => write_stays.bind fun _ => write_stays.bind fun _ =>
    .ite (write_stays.bind fun _ => write_stays) .pure
  exact hplace.bind fun _ => .modify fun _ => rfl

theorem rtFail_stays : Stays (rtFail lines message : M α) := rtErr_stays.bind fun _ => .fail

theorem Stays.orErr {m : M α} (h : Stays m) : Stays (Basic.orErr lines m message) :=
  Keeps.orElse h rtErr_stays

theorem check_stays {c : Prop} [Decidable c] : Stays (check lines c message) := Stays.require.orErr

theorem expect_stays {c : UInt8} : Stays (orErr lines (expect c text) message) :=
  (stays_closed.expect c text).orErr

theorem option_stays {o : Option α} : Stays (orErr lines (Exec.ofOption o) message) := Stays.ofOption.orErr

theorem nextLine_stays : Stays nextLine := .modify_bind (fun _ => rfl) .pure

theorem jump_stays {pc : ℕ} : Stays (jump pc) := .modify_bind (fun _ => rfl) .pure

theorem setVar_stays {v : Int32} : Stays (setVar i v) := .modify fun _ => rfl

theorem setStrVar_stays : Stays (setStrVar i text) := .modify fun _ => rfl

theorem setFile_stays {c : Chan} {f : FileChan → FileChan} : Stays (setFile c f) := .modify fun _ => rfl

theorem onRamfs_stays {m : Ramfs.M α} : Stays (onRamfs m) := fun _ => rfl

section Statements

variable (hp : p.All @Stays)

include hp

variable {message number range : String} {isString : Bool} {c : Chan}

theorem Parsers.All.exprErr (text : Text) : Stays (orErr lines (p.expr text) message) := (hp.expr text).orErr

/-! ### Output and input -/

theorem printSpaces_stays : Stays (printSpaces lines p message text) :=
  (stays_closed.parenExpr hp text).orErr.bind fun _ => .modify_bind (fun _ => rfl) .pure

theorem printValue_stays : Stays (printValue lines p text) := by
  apply (hp.stringExpr text).attempt.bind
  rintro (_ | _)
  · exact (hp.exprErr text).bind fun _ => write_stays.bind fun _ => .pure
  · exact write_stays.bind fun _ => .pure

theorem printLoop_stays (k : ℕ) : Stays (printLoop lines p k text) := by
  induction k generalizing text with
  | zero => exact .hang
  | succ k ih =>
    have hitem : ∀ text, Stays (printItem lines p text) := fun _ =>
      .ite (printSpaces_stays hp) (.ite (printSpaces_stays hp) (printValue_stays hp))
    exact (hitem _).bind fun _ => .ite ((Stays.ite write_stays .pure).bind fun _ => .ite .pure ih) .pure

theorem printStatement_stays : Stays (printStatement lines p n text) :=
  .ite (write_stays.bind fun _ => nextLine_stays)
    ((printLoop_stays hp n).bind fun _ => (Stays.ite write_stays .pure).bind fun _ => nextLine_stays)

theorem inputStatement_stays : Stays (inputStatement lines p text) := by
  have hprompt : ∀ text, Stays (inputPrompt lines text) := fun _ => .ite (option_stays.bind fun _ => .pure) .pure
  have hline : Stays (orErr lines terminalReadLine "INPUT read error") :=
    Stays.orErr (Stays.gets.bind fun _ => .modify_bind (fun _ => rfl) (Stays.gets.bind fun _ => Stays.ofOption.bind fun _ => .pure))
  have hstore : ∀ i isString text, Stays (storeInput lines p i isString text) := fun _ _ text =>
    .ite (.ite (option_stays.bind fun _ => setStrVar_stays) setStrVar_stays)
      ((hp.exprErr text).bind fun _ => check_stays.bind fun _ => setVar_stays)
  exact (hprompt _).bind fun _ => option_stays.bind fun _ => write_stays.bind fun _ => hline.bind fun _ =>
    (hstore _ _ _).bind fun _ => nextLine_stays

/-! ### Arrays and assignments -/

theorem dimLoop_stays (k : ℕ) : Stays (dimLoop lines p k text) := by
  induction k generalizing text with
  | zero => exact .hang
  | succ k ih =>
    exact option_stays.bind fun _ => expect_stays.bind fun _ => (hp.exprErr _).bind fun _ => expect_stays.bind fun _ =>
      check_stays.bind fun _ => .modify_bind (fun _ => rfl) (.ite ih .pure)

theorem targetIndex_stays {indexMessage parenMessage : String} :
    Stays (targetIndex lines p isString indexMessage parenMessage text) :=
  .ite ((hp.exprErr _).bind fun _ => expect_stays.bind fun _ => .pure) .pure

theorem assign_stays {i : Letter} {index : Int32} {literal string : String} :
    Stays (assign lines p i isString index literal string number range text) := by
  have hrhs : Stays (stringRhs lines literal string text) :=
    .ite (option_stays.bind fun _ => .pure) (.ite ((stays_closed.parseStrVar _).orErr.bind fun _ => .pure) rtFail_stays)
  have hset : ∀ v, Stays (arraySet i index v) := fun _ =>
    Stays.gets.bind fun _ => Stays.require.bind fun _ => .modify fun _ => rfl
  exact .ite (hrhs.bind fun _ => setStrVar_stays.bind fun _ => nextLine_stays)
    ((hp.exprErr text).bind fun _ => (Stays.ite (hset _).orErr setVar_stays).bind fun _ => nextLine_stays)

theorem letStatement_stays : Stays (letStatement lines p text) :=
  option_stays.bind fun _ => (targetIndex_stays hp).bind fun _ => check_stays.bind fun _ => assign_stays hp

theorem assignStatement_stays : Stays (assignStatement lines p text) := by
  refine .ite ?_ rtFail_stays
  split
  · exact rtFail_stays
  · exact (targetIndex_stays hp).bind fun _ => .ite (assign_stays hp) rtFail_stays

theorem updateStatement_stays {op : Int32 → Int32 → M Int32} (hop : ∀ x y, Stays (op x y)) :
    Stays (updateStatement lines p op message text) := by
  have hargs : ∀ text, Stays (updateArgs p text) := fun _ => Stays.ofOption.bind fun _ => (hp.expr _).bind fun _ => .pure
  exact (hargs _).orErr.bind fun _ => Stays.gets.bind fun _ => (hop _ _).bind fun _ => setVar_stays.bind fun _ => nextLine_stays

/-! ### Loops and functions -/

theorem forStatement_stays : Stays (forStatement lines p text) := by
  have hstep : ∀ text, Stays (forStep lines p text) := fun _ => .ite ((hp.exprErr _).bind fun _ => .pure) .pure
  have hpush : ∀ f, Stays (pushFor lines f) := fun _ =>
    Stays.gets.bind fun _ => check_stays.bind fun _ => .modify_bind (fun _ => rfl) nextLine_stays
  exact Stays.gets.bind fun _ => option_stays.bind fun _ => expect_stays.bind fun _ => (hp.exprErr _).bind fun _ =>
    check_stays.bind fun _ => (hp.exprErr _).bind fun _ => (hstep _).bind fun _ => check_stays.bind fun _ =>
    setVar_stays.bind fun _ => .ite (option_stays.bind fun _ => jump_stays) (hpush _)

omit hp in
theorem nextStatement_stays : Stays (nextStatement lines text) := by
  have hname : ∀ text, Stays (nextVar lines text) := fun _ => .ite (option_stays.bind fun _ => .pure) .pure
  apply (hname _).bind
  intro name
  apply Stays.gets.bind
  rintro (_ | ⟨f, rest⟩)
  · exact rtFail_stays
  · exact check_stays.bind fun _ => Stays.gets.bind fun _ => setVar_stays.bind fun _ =>
      .ite jump_stays (.modify_bind (fun _ => rfl) nextLine_stays)

theorem whileStatement_stays : Stays (whileStatement lines p text) :=
  Stays.gets.bind fun _ => (hp.exprErr _).bind fun _ =>
    .ite (Stays.gets.bind fun _ => check_stays.bind fun _ => .modify_bind (fun _ => rfl) nextLine_stays)
      (option_stays.bind fun _ => jump_stays)

theorem wendStatement_stays : Stays (wendStatement lines p) := by
  apply Stays.gets.bind
  rintro (_ | ⟨whilePc, rest⟩)
  · exact rtFail_stays
  · exact (hp.exprErr _).bind fun _ => .ite jump_stays (.modify_bind (fun _ => rfl) nextLine_stays)

omit hp in
theorem defStatement_stays : Stays (defStatement lines text) :=
  check_stays.bind fun _ => expect_stays.bind fun _ => check_stays.bind fun _ => expect_stays.bind fun _ =>
    expect_stays.bind fun _ => Stays.gets.bind fun _ => option_stays.bind fun _ => .modify_bind (fun _ => rfl) nextLine_stays

/-! ### Jumps -/

omit hp in
theorem target_stays {parseMessage notFoundMessage : String} : Stays (target lines parseMessage notFoundMessage text) :=
  option_stays.bind fun _ => option_stays

omit hp in
theorem pushCall_stays : Stays (pushCall lines message) :=
  Stays.gets.bind fun _ => check_stays.bind fun _ => .modify fun _ => rfl

theorem onStatement_stays : Stays (onStatement lines p text) := by
  apply (hp.exprErr _).bind
  rintro ⟨selector, s⟩
  apply option_stays.bind
  rintro ⟨doGosub, s⟩
  dsimp only
  split
  · exact nextLine_stays
  · exact option_stays.bind fun _ => (Stays.ite pushCall_stays .pure).bind fun _ => jump_stays

omit hp in
theorem returnStatement_stays : Stays (returnStatement lines) := by
  apply Stays.gets.bind
  rintro (_ | ⟨pc, rest⟩)
  · exact rtFail_stays
  · exact .modify_bind (fun _ => rfl) jump_stays

theorem ifStatement_stays : Stays (ifStatement lines p text) :=
  (hp.exprErr _).bind fun _ => option_stays.bind fun _ => (hp.exprErr _).bind fun _ => check_stays.bind fun _ =>
    option_stays.bind fun _ => .ite (option_stays.bind fun _ => jump_stays) nextLine_stays

/-! ### Files -/

theorem fileNumber_stays {missing : String} : Stays (fileNumber lines p missing number range text) :=
  check_stays.bind fun _ => (hp.exprErr _).bind fun _ => option_stays.bind fun _ => .pure

omit hp in
theorem fillChan_stays {mode : FileMode} : Stays (fillChan lines c text mode) := by
  have hread : Stays (Exec.attempt (readPath text)) := onRamfs_stays.attempt
  cases mode with
  | input =>
    apply hread.bind
    rintro (_ | buf)
    · exact setFile_stays.bind fun _ => rtFail_stays
    · exact setFile_stays
  | output => exact .pure
  | append =>
    apply hread.bind
    rintro (_ | buf)
    · exact .pure
    · exact setFile_stays

theorem openStatement_stays : Stays (openStatement lines p text) := by
  have hmode : ∀ text, Stays (openMode lines text) := fun _ => .ite (.ite .pure (.ite .pure (.ite .pure rtFail_stays))) .pure
  exact option_stays.bind fun _ => (hmode _).bind fun _ => (fileNumber_stays hp).bind fun _ => Stays.gets.bind fun _ =>
    check_stays.bind fun _ => setFile_stays.bind fun _ => fillChan_stays.bind fun _ => nextLine_stays

omit hp in
theorem flushChan_stays : Stays (flushChan c) := by
  have hwrite : ∀ f : FileChan, Stays (Exec.ignore (Exec.attempt (onRamfs
      (Ramfs.writeFile (some f.path) (some f.buf) f.buf.length)))) := fun _ => Keeps.ignore onRamfs_stays.attempt
  exact Stays.gets.bind fun _ => (Stays.ite (hwrite _) .pure).bind fun _ => setFile_stays

theorem closeStatement_stays : Stays (closeStatement lines p text) :=
  (fileNumber_stays hp).bind fun _ => Stays.gets.bind fun _ => check_stays.bind fun _ => flushChan_stays.bind fun _ => nextLine_stays

theorem printFileItem_stays : Stays (printFileItem p text) := by
  refine .ite .ofOption (Stays.gets.bind fun strVars => ?_)
  have hnumber : Stays (p.expr text >>= fun r => pure (intToText r.1, r.2)) := (hp.expr text).bind fun _ => .pure
  split
  · exact .ite .pure hnumber
  · exact hnumber

theorem printFileLoop_stays (k : ℕ) (out : Text) : Stays (printFileLoop p k out text) := by
  induction k generalizing out text with
  | zero => exact .hang
  | succ k ih =>
    refine .ite ((printFileItem_stays hp).attempt.bind ?_) .pure
    rintro (_ | ⟨piece, s⟩)
    · exact .pure
    · exact .ite (ih _) (.ite (ih _) .pure)

theorem printFileStatement_stays : Stays (printFileStatement lines p n text) :=
  (fileNumber_stays hp).bind fun _ => Stays.gets.bind fun _ => check_stays.bind fun _ => (printFileLoop_stays hp n []).bind fun _ =>
    setFile_stays.bind fun _ => nextLine_stays

theorem inputFileStatement_stays : Stays (inputFileStatement lines p text) :=
  (fileNumber_stays hp).bind fun _ => Stays.gets.bind fun _ => check_stays.bind fun _ => option_stays.bind fun _ =>
    setFile_stays.bind fun _ => .ite (setStrVar_stays.bind fun _ => nextLine_stays)
      ((hp.exprErr _).bind fun _ => setVar_stays.bind fun _ => nextLine_stays)

/-! ### The dispatch -/

/-- The statement is one of the three that move the cursor. -/
def movesCursor (text : Text) : Bool :=
  startsWithCi text (chars "RUN") || startsWithCi text (chars "READ") || startsWithCi text (chars "RESTORE")

theorem dispatch_stays (h : movesCursor text = false) : Stays (dispatch lines p n text) := by
  have hmoves := h
  simp only [movesCursor, Bool.or_eq_false_iff] at hmoves
  obtain ⟨⟨hrun, hread⟩, hrestore⟩ := hmoves
  have hdivide : ∀ (op : Int32 → Int32 → Int32) message x y, Stays (orErr lines (divide op x y) message) :=
    fun op _ x y => (stays_closed.divide op x y).orErr
  have hlist : Stays (listStatement lines) := .modify_bind (fun _ => rfl) nextLine_stays
  have hclear : Stays clearStatement := .modify_bind (fun _ => rfl) nextLine_stays
  unfold dispatch
  rw [hrun, hread, hrestore]
  refine .ite nextLine_stays (.ite .pure (.ite hclear (.ite hlist ?_)))
  rw [if_neg Bool.false_ne_true]
  refine .ite (printStatement_stays hp) (.ite nextLine_stays ?_)
  rw [if_neg Bool.false_ne_true, if_neg Bool.false_ne_true]
  refine .ite ((dimLoop_stays hp n).bind fun _ => nextLine_stays) (.ite (letStatement_stays hp) (.ite (inputStatement_stays hp) ?_))
  refine .ite (forStatement_stays hp) (.ite nextStatement_stays (.ite (whileStatement_stays hp) (.ite (wendStatement_stays hp) ?_)))
  refine .ite defStatement_stays (.ite (updateStatement_stays hp fun _ _ => .pure) (.ite (updateStatement_stays hp fun _ _ => .pure) ?_))
  refine .ite (updateStatement_stays hp fun _ _ => .pure) (.ite (updateStatement_stays hp fun x y => hdivide _ _ x y) ?_)
  refine .ite (updateStatement_stays hp fun x y => hdivide _ _ x y) (.ite (target_stays.bind fun _ => jump_stays) ?_)
  refine .ite (onStatement_stays hp) (.ite (target_stays.bind fun _ => pushCall_stays.bind fun _ => jump_stays) ?_)
  refine .ite returnStatement_stays (.ite (ifStatement_stays hp) (.ite (openStatement_stays hp) (.ite (closeStatement_stays hp) ?_)))
  exact .ite (printFileStatement_stays hp) (.ite (inputFileStatement_stays hp) (assignStatement_stays hp))

end Statements

end Tg11Kernel.Basic
