import Tg11Kernel.Basic.Steps

/-! The promise of each statement, and of a run. -/

namespace Tg11Kernel.Basic

open Lib Lib.Exec Relation

variable {n size : ℕ} {P : Prop} {α β : Type} {b s t : Interp} {text : Text} {lines : List Line}

/-- What a statement promises that began in `b`. -/
abbrev Runs (size n : ℕ) (b : Interp) (m : M α) (t : Interp) : Prop := Promise (Ready size n b) m t fun _ => True

theorem Plain.runs {m : M α} (h : Plain m) (t : Interp) : Runs size n b m t := h.promise t

theorem runs_expr (hb : Later b t) (hlen : text.length ≤ size) :
    Reads (Ready size n b) ((parsers n).expr text) t text :=
  ((parsersOk n).expr t text).imp fun h => h.room_at hb hlen

theorem runs_parenExpr (hb : Later b t) (hlen : text.length ≤ size) :
    Reads (Ready size n b) (parseBuiltinParenExpr (parsers n) text) t text :=
  (parseBuiltinParenExpr_reads (parsersOk n) t text).imp fun h => Nat.lt_succ_of_lt (h.room_at hb hlen)

theorem length_drop_le (k : ℕ) (text : Text) : (text.drop k).length ≤ text.length := by
  rw [List.length_drop]
  omega

theorem length_tail_le (text : Text) : text.tail.length ≤ text.length := by
  rw [List.length_tail]
  omega

theorem length_skipDrop_le (k : ℕ) (text : Text) : (skipSpaces (text.drop k)).length ≤ text.length :=
  (length_skipSpaces_le _).trans (length_drop_le k text)

theorem length_skipTail_le (text : Text) : (skipSpaces text.tail).length ≤ text.length :=
  (length_skipSpaces_le _).trans (length_tail_le text)

/-! ### PRINT -/

theorem printSpaces_promise (hb : Later b t) (hlen : text.length ≤ size) (message : String) :
    Promise (Ready size n b) (printSpaces lines (parsers n) message text) t fun rest => rest.length < text.length := by
  unfold printSpaces
  apply Promise.next hb (Promise.orErr message (runs_parenExpr hb hlen))
  rintro ⟨v, s₁⟩ u h₁ hu
  apply Promise.modify_next hu rfl rfl
  intro _
  exact Contract.pure h₁

/-- The string parser fails with a changed state only where the number parser returns -1. -/
theorem printValue_promise (hn : 2 ≤ n) (hb : Later b t) (hlen : text.length ≤ size) :
    Promise (Ready size n b) (printValue lines (parsers n) text) t fun rest => rest.length < text.length := by
  have hstring : Reads (Ready size n b) ((parsers n).stringExpr text) t text :=
    ((parsersOk n).stringExpr t text).imp fun h => h.room_at hb hlen
  unfold printValue
  apply hstring.attempt_bind
  · rintro ⟨str, rest⟩ u hrest hview hwalk
    apply Promise.next (hb.trans (congrArg Prod.fst hview) hwalk) ((terminalWrite_plain _).promise u)
    intro _ _ _ _
    exact Contract.pure hrest
  · intro u hu hframe hwalk
    have hlater := hb.trans hframe hwalk
    apply Promise.next hlater (Promise.orErr _ (runs_expr hlater hlen))
    rintro ⟨v, rest⟩ w hrest hw
    apply Promise.next hw ((terminalWrite_plain _).promise w)
    intro _ _ _ _
    exact Contract.pure hrest
  · intro u o w hu hrun ho
    obtain ⟨n, rfl⟩ : ∃ k, n = k + 2 := ⟨n - 2, by omega⟩
    by_cases hstart : StringStart text
    · -- no number begins here
      have hexpr : Fails (orErr lines ((parsers (n + 2)).expr text) "PRINT parse error") := orErr_fails (expr_fails_of_stringStart n hstart) _
      have hfails := Fails.bind (f := fun r => printInt r.1 >>= fun _ => pure r.2) hexpr
      exact absurd ((congrArg Prod.fst hrun).symm.trans (hfails u)) ho
    · rw [stringExpr_of_not_stringStart hstart] at hu
      cases hu
      rfl

theorem printItem_promise (hn : 2 ≤ n) (hb : Later b t) (hlen : text.length ≤ size) :
    Promise (Ready size n b) (printItem lines (parsers n) text) t fun rest => rest.length < text.length := by
  have hdrop := length_drop_le 3 text
  unfold printItem
  split_ifs
  · exact (printSpaces_promise hb (hdrop.trans hlen) _).mono fun _ h => h.trans_le hdrop
  · exact (printSpaces_promise hb (hdrop.trans hlen) _).mono fun _ h => h.trans_le hdrop
  · exact printValue_promise hn hb hlen

/-- An item takes a byte. -/
theorem printLoop_promise (hn : 2 ≤ n) (k : ℕ) (hb : Later b t) (hlen : text.length ≤ size) :
    Promise (text.length < k ∧ Ready size n b) (printLoop lines (parsers n) k text) t fun _ => True := by
  induction k generalizing t text with
  | zero => exact Contract.hang_of fun h => Nat.not_lt_zero _ h.1
  | succ k ih =>
    unfold printLoop
    have hskip := length_skipSpaces_le text
    apply Promise.next hb ((printItem_promise hn hb (hskip.trans hlen)).imp And.right)
    intro s₁ u h₁ hu
    have hskip₁ := length_skipSpaces_le s₁
    have htail := length_skipTail_le (skipSpaces s₁)
    dsimp only
    by_cases hsep : peek (skipSpaces s₁) = ',' ∨ peek (skipSpaces s₁) = ';'
    · rw [if_pos hsep]
      have hcomma : Plain (if peek (skipSpaces s₁) = ',' then terminalWrite [(' ' : UInt8)] else pure ()) :=
        Plain.ite (terminalWrite_plain _) Plain.pure
      apply Promise.next hu (hcomma.promise u)
      intro _ v _ hv
      split_ifs
      · exact Contract.pure trivial
      · exact (ih hv (by omega)).imp fun h => ⟨by omega, h.2⟩
    · rw [if_neg hsep]
      exact Contract.pure trivial

theorem printStatement_promise (hn : 2 ≤ n) (hb : Later b t) (hlen : text.length ≤ size) :
    Runs size n b (printStatement lines (parsers n) n text) t := by
  have hskip := length_skipDrop_le 5 text
  unfold printStatement
  dsimp only
  split_ifs
  · exact ((terminalWrite_plain _).bind fun _ => nextLine_plain).runs t
  · have hloop : Runs size n b (printLoop lines (parsers n) n (skipSpaces (text.drop 5))) t := by
      apply (printLoop_promise hn n hb (hskip.trans hlen)).imp
      intro hready
      have hroom := hready.room
      exact ⟨by omega, hready⟩
    apply Promise.next hb hloop
    intro sep u _ hu
    apply Promise.next hu ((Plain.ite (terminalWrite_plain _) Plain.pure).promise u)
    intro _ v _ _
    exact nextLine_plain.runs v

/-! ### READ, RESTORE and INPUT -/

theorem readNextDataItem_plain : Plain (readNextDataItem lines) := by
  unfold readNextDataItem
  apply Plain.gets.bind
  intro li
  apply Plain.gets.bind
  intro offset
  split
  · exact (Plain.modify fun _ => ⟨rfl, rfl⟩).bind fun _ => Plain.pure
  · exact (Plain.modify fun _ => ⟨rfl, rfl⟩).bind fun _ => Plain.fail

theorem trimEnd_le (text : Text) : (trimEnd text).length ≤ text.length := by
  unfold trimEnd
  rw [List.length_reverse]
  exact (List.length_dropWhile_le ..).trans (List.length_reverse ..).le

theorem dataItem_le (item : Text) : (dataItem item).1.length ≤ 95 := by
  unfold dataItem
  split_ifs
  · exact List.length_take_le ..
  · exact (trimEnd_le _).trans (List.length_take_le ..)

theorem nextDataItem_le {li offset : ℕ} {ls : List Line} {r : Text × Bool × ℕ × ℕ} (h : nextDataItem li ls offset = some r) :
    r.1.length ≤ 95 := by
  induction ls generalizing li offset with
  | nil => cases h
  | cons line rest ih =>
    unfold nextDataItem at h
    split at h
    · exact ih h
    · simp only at h
      split_ifs at h
      · exact ih h
      · cases h
        exact dataItem_le _

/-- An item fits its buffer. -/
theorem readNextDataItem_promise (t : Interp) : Promise P (readNextDataItem lines) t fun r => r.1.length ≤ 95 := by
  have hplain : Plain (readNextDataItem lines) := readNextDataItem_plain
  obtain ⟨hwalk, hok, hfail, hhang⟩ := hplain.promise (P := P) t
  refine ⟨hwalk, fun a u hu => ⟨(hok a u hu).1, ?_⟩, hfail, hhang⟩
  unfold readNextDataItem at hu
  obtain ⟨li, v, -, hu⟩ := bind_ok_iff.1 hu
  obtain ⟨offset, w, -, hu⟩ := bind_ok_iff.1 hu
  rcases hitem : nextDataItem li (lines.drop li) offset with _ | ⟨token, isString, li', offset'⟩ <;> rw [hitem] at hu
  · obtain ⟨_, x, -, hu⟩ := bind_ok_iff.1 hu
    cases hu
  · obtain ⟨_, x, -, hu⟩ := bind_ok_iff.1 hu
    cases hu
    exact nextDataItem_le hitem

theorem storeItem_promise (h95 : 95 ≤ size) (hb : Later b t) (i : Letter) (isString tokenIsString : Bool) (hlen : text.length ≤ 95) :
    Runs size n b (storeItem lines (parsers n) i isString text tokenIsString) t := by
  unfold storeItem
  split_ifs
  · exact (setStrVar_plain _ _).runs t
  · apply Promise.next hb (check_promise _ _)
    intro _ u _ hu
    apply Promise.next hu (Promise.orErr _ (runs_expr hu (hlen.trans h95)))
    rintro ⟨v, tp⟩ w _ hw
    apply Promise.next hw (check_promise _ _)
    intro _ x _ _
    exact (setVar_plain _ _).runs x

theorem readLoop_promise (h95 : 95 ≤ size) (k : ℕ) (hb : Later b t) :
    Promise (text.length < k ∧ Ready size n b) (readLoop lines (parsers n) k text) t fun _ => True := by
  induction k generalizing t text with
  | zero => exact Contract.hang_of fun h => Nat.not_lt_zero _ h.1
  | succ k ih =>
    unfold readLoop
    apply Promise.next hb (orErr_ofOption _)
    rintro ⟨i, isString, s₁⟩ u heq hu
    have h₁ := parseVarRef_shorter heq
    apply Promise.next hu (Promise.orErr _ (readNextDataItem_promise u))
    rintro ⟨token, tokenIsString⟩ v htoken hv
    apply Promise.next hv ((storeItem_promise h95 hv i isString tokenIsString htoken).imp And.right)
    intro _ w _ hw
    have hskip := length_skipSpaces_le s₁
    have htail := length_skipTail_le (skipSpaces s₁)
    dsimp only
    split_ifs
    · exact (ih hw).imp fun h => ⟨by omega, h.2⟩
    · exact Contract.pure trivial

theorem readStatement_promise (h95 : 95 ≤ size) (hb : Later b t) (hlen : text.length ≤ size) :
    Runs size n b (readStatement lines (parsers n) n text) t := by
  have hskip := length_skipDrop_le 4 text
  unfold readStatement
  have hloop : Runs size n b (readLoop lines (parsers n) n (skipSpaces (text.drop 4))) t := by
    apply (readLoop_promise h95 n hb).imp
    intro hready
    have hroom := hready.room
    exact ⟨by omega, hready⟩
  apply Promise.next hb hloop
  intro _ u _ _
  exact nextLine_plain.runs u

theorem orErr_plain {m : M α} (h : Plain m) (message : String) : Plain (orErr lines m message) := by
  intro s
  unfold orErr Exec.orElse
  obtain ⟨hhist, hfs, hends⟩ := h s
  rw [bind_apply, attempt_apply]
  rcases hm : m s with ⟨a | _ | _, t⟩ <;> rw [hm] at hhist hfs hends
  · exact ⟨hhist, hfs, by rintro ⟨⟩⟩
  · obtain ⟨hhist', hfs', hends'⟩ := ((rtErr_plain message).bind fun _ => Plain.fail) t
    exact ⟨hhist'.trans hhist, hfs'.trans hfs, hends'⟩
  · exact absurd rfl hends

theorem rtFail_plain (message : String) : Plain (rtFail lines message : M α) :=
  (rtErr_plain message).bind fun _ => Plain.fail

theorem check_plain (c : Prop) [Decidable c] (message : String) : Plain (check lines c message) := by
  apply orErr_plain
  by_cases hc : c
  · rw [require_pos hc]
    exact Plain.pure
  · rw [require_neg hc]
    exact Plain.fail

theorem restoreStatement_plain (text : Text) : Plain (restoreStatement lines text) := by
  unfold restoreStatement
  apply (Plain.ite Plain.pure (orErr_plain (Plain.ofOption.bind fun _ => Plain.pure) _)).bind
  intro label
  have hreset : Plain (dataResetCursor lines label) := Plain.ofOption.bind fun _ => Plain.modify fun _ => ⟨rfl, rfl⟩
  exact (orErr_plain hreset _).bind fun _ => nextLine_plain

theorem inputPrompt_plain (text : Text) : Plain (inputPrompt lines text) := by
  unfold inputPrompt
  split_ifs
  · exact (orErr_plain Plain.ofOption _).bind fun _ => Plain.pure
  · exact Plain.pure

theorem copyString_le (room : ℕ) (text : Text) : (copyString room text).length ≤ room - 1 := List.length_take_le ..

theorem trimSpaces_le (text : Text) : (trimSpaces text).length ≤ text.length :=
  (trimEnd_le _).trans (length_skipSpaces_le text)

theorem terminalReadLine_promise (t : Interp) : Promise P terminalReadLine t fun line => line.length ≤ 95 := by
  unfold terminalReadLine
  apply Contract.gets_bind
  apply Contract.modify_bind (.other rfl rfl) rfl
  apply Contract.gets_bind
  apply Contract.ofOption_bind
  intro line _
  exact Contract.pure (copyString_le ..)

theorem storeInput_promise (h95 : 95 ≤ size) (hb : Later b t) (i : Letter) (isString : Bool) (hlen : text.length ≤ 95) :
    Runs size n b (storeInput lines (parsers n) i isString text) t := by
  unfold storeInput
  split_ifs
  · exact ((orErr_plain Plain.ofOption _).bind fun _ => setStrVar_plain _ _).runs t
  · exact (setStrVar_plain _ _).runs t
  · apply Promise.next hb (Promise.orErr _ (runs_expr hb (hlen.trans h95)))
    rintro ⟨v, sp⟩ u _ hu
    exact ((check_plain _ _).bind fun _ => setVar_plain _ _).runs u

theorem inputStatement_promise (h95 : 95 ≤ size) (hb : Later b t) : Runs size n b (inputStatement lines (parsers n) text) t := by
  unfold inputStatement
  apply Promise.next hb ((inputPrompt_plain _).promise t)
  rintro ⟨prompt, s₁⟩ u _ hu
  apply Promise.next hu (orErr_ofOption _)
  rintro ⟨i, isString, _⟩ v _ hv
  apply Promise.next hv ((terminalWrite_plain _).promise v)
  intro _ w _ hw
  apply Promise.next hw (Promise.orErr _ (terminalReadLine_promise w))
  intro line x hline hx
  apply Promise.next hx (storeInput_promise h95 hx i isString ((trimSpaces_le line).trans hline))
  intro _ y _ _
  exact nextLine_plain.runs y

/-! ### DIM and assignments -/

theorem dimLoop_promise (k : ℕ) (hb : Later b t) (hlen : text.length ≤ size) :
    Promise (text.length < k ∧ Ready size n b) (dimLoop lines (parsers n) k text) t fun _ => True := by
  induction k generalizing t text with
  | zero => exact Contract.hang_of fun h => Nat.not_lt_zero _ h.1
  | succ k ih =>
    unfold dimLoop
    apply Promise.next hb (orErr_ofOption _)
    rintro ⟨i, s₁⟩ u heq hu
    have h₁ := parseVar_shorter heq
    apply Promise.next hu (Promise.orErr _ (expect_promise (by decide)))
    intro s₂ v h₂ hv
    apply Promise.next hv (Promise.orErr _ ((runs_expr hv (by omega)).imp And.right))
    rintro ⟨len, s₃⟩ w h₃ hw
    apply Promise.next hw (Promise.orErr _ (expect_promise (by decide)))
    intro s₄ x h₄ hx
    apply Promise.next hx (check_promise _ _)
    intro _ y _ hy
    apply Promise.modify_next hy rfl rfl
    intro hz
    have hskip := length_skipSpaces_le s₄
    have htail := length_tail_le (skipSpaces s₄)
    dsimp only at h₂ h₃ h₄ ⊢
    split_ifs
    · exact (ih hz (by omega)).imp fun h => ⟨by omega, h.2⟩
    · exact Contract.pure trivial

theorem dimStatement_promise (hb : Later b t) (hlen : text.length ≤ size) :
    Runs size n b (dimStatement lines (parsers n) n text) t := by
  have hskip := length_skipDrop_le 3 text
  unfold dimStatement
  have hloop : Runs size n b (dimLoop lines (parsers n) n (skipSpaces (text.drop 3))) t := by
    apply (dimLoop_promise n hb (hskip.trans hlen)).imp
    intro hready
    have hroom := hready.room
    exact ⟨by omega, hready⟩
  apply Promise.next hb hloop
  intro _ u _ _
  exact nextLine_plain.runs u

theorem targetIndex_promise (hb : Later b t) (hlen : text.length ≤ size) (isString : Bool) (indexMessage parenMessage : String) :
    Promise (Ready size n b) (targetIndex lines (parsers n) isString indexMessage parenMessage text) t
      fun r => r.2.length ≤ text.length := by
  unfold targetIndex
  split_ifs
  · have htail := length_tail_le text
    apply Promise.next hb (Promise.orErr _ (runs_expr hb (htail.trans hlen)))
    rintro ⟨index, s₁⟩ u h₁ hu
    apply Promise.next hu (Promise.orErr _ (expect_promise (by decide)))
    intro s₂ v h₂ _
    apply Contract.pure
    exact (length_skipSpaces_le s₂).trans (h₂.trans (h₁.le.trans htail))
  · exact Contract.pure (Nat.le_refl _)

theorem parseStrVar_plain (text : Text) : Plain (parseStrVar text) := by
  unfold parseStrVar
  apply Plain.ofOption.bind
  rintro ⟨i, isString, rest⟩
  have hrequire : Plain (Exec.require (isString = true)) := by
    cases isString with
    | true => exact Plain.pure
    | false => exact Plain.fail
  exact hrequire.bind fun _ => Plain.gets.bind fun _ => Plain.pure

theorem stringRhs_plain (literalMessage valueMessage : String) (text : Text) :
    Plain (stringRhs lines literalMessage valueMessage text) := by
  unfold stringRhs
  dsimp only
  split_ifs
  · exact (orErr_plain Plain.ofOption _).bind fun _ => Plain.pure
  · exact (orErr_plain (parseStrVar_plain _) _).bind fun _ => Plain.pure
  · exact rtFail_plain _

theorem arraySet_plain (i : Letter) (pos v : Int32) : Plain (arraySet i pos v) := by
  unfold arraySet
  apply Plain.gets.bind
  intro len
  by_cases h : 0 ≤ pos ∧ pos.toInt.toNat < len
  · rw [require_pos h]
    exact Plain.pure.bind fun _ => Plain.modify fun _ => ⟨rfl, rfl⟩
  · rw [require_neg h]
    exact Plain.fail

theorem storeNumber_plain (i : Letter) (index v : Int32) (rangeMessage : String) :
    Plain (storeNumber lines i index v rangeMessage) :=
  Plain.ite (orErr_plain (arraySet_plain i index v) _) (setVar_plain i v)

section

variable (hb : Later b t) (hlen : text.length ≤ size)
include hb hlen

theorem assign_promise (i : Letter) (isString : Bool) (index : Int32)
    (literalMessage stringMessage numberMessage rangeMessage : String) :
    Runs size n b (assign lines (parsers n) i isString index literalMessage stringMessage numberMessage rangeMessage text) t := by
  unfold assign
  split_ifs
  · exact ((stringRhs_plain _ _ _).bind fun _ => (setStrVar_plain _ _).bind fun _ => nextLine_plain).runs t
  · apply Promise.next hb (Promise.orErr _ (runs_expr hb hlen))
    rintro ⟨v, s₁⟩ u _ _
    exact ((storeNumber_plain i index v _).bind fun _ => nextLine_plain).runs u

theorem letStatement_promise : Runs size n b (letStatement lines (parsers n) text) t := by
  have hskip := length_skipDrop_le 3 text
  unfold letStatement
  apply Promise.next hb (orErr_ofOption _)
  rintro ⟨i, isString, s₁⟩ u heq hu
  have h₁ := parseVarRef_shorter heq
  have hskip₁ := length_skipSpaces_le s₁
  apply Promise.next hu (targetIndex_promise hu (by omega) _ _ _)
  rintro ⟨index, s₂⟩ v h₂ hv
  apply Promise.next hv (check_promise _ _)
  intro _ w _ hw
  have htail := length_tail_le s₂
  exact assign_promise hw (by dsimp only at h₂; omega) ..

theorem assignStatement_promise : Runs size n b (assignStatement lines (parsers n) text) t := by
  unfold assignStatement
  split_ifs
  · split
    · exact (rtFail_plain _).runs t
    · rename_i i isString s₁ heq
      have h₁ := parseVarRef_shorter heq
      have hskip₁ := length_skipSpaces_le s₁
      apply Promise.next hb (targetIndex_promise hb (by omega) _ _ _)
      rintro ⟨index, s₂⟩ u h₂ hu
      have htail := length_tail_le s₂
      dsimp only at h₂ ⊢
      split_ifs
      · exact assign_promise hu (by omega) ..
      · exact (rtFail_plain _).runs u
  · exact (rtFail_plain _).runs t

/-- Only the operator may be a division. -/
theorem updateStatement_promise {op : Int32 → Int32 → M Int32}
    (hop : ∀ x y u, Runs size n b (op x y) u) (message : String) :
    Runs size n b (updateStatement lines (parsers n) op message text) t := by
  have hskip := length_skipDrop_le 3 text
  have hargs : Runs size n b (updateArgs (parsers n) (skipSpaces (text.drop 3))) t := by
    unfold updateArgs
    apply Contract.ofOption_bind
    rintro ⟨i, s₁⟩ heq
    have h₁ := parseVar_shorter heq
    apply Promise.next hb (runs_expr hb (by omega))
    rintro ⟨v, s₂⟩ u _ _
    exact Contract.pure trivial
  unfold updateStatement
  apply Promise.next hb (Promise.orErr _ hargs)
  rintro ⟨i, v⟩ u _ hu
  apply Contract.gets_bind
  apply Promise.next hu (hop _ _ u)
  intro r w _ _
  exact ((setVar_plain i r).bind fun _ => nextLine_plain).runs w

end

theorem divide_runs (op : Int32 → Int32 → Int32) (message : String) (x y : Int32) (u : Interp) :
    Runs size n b (orErr lines (divide op x y) message) u := Promise.orErr message (divide_promise op x y u)

/-! ### Loops and functions -/

theorem forStep_promise (hb : Later b t) (hlen : text.length ≤ size) : Runs size n b (forStep lines (parsers n) text) t := by
  have hskip := length_skipDrop_le 4 text
  unfold forStep
  split_ifs
  · apply Promise.next hb (Promise.orErr _ (runs_expr hb (hskip.trans hlen)))
    rintro ⟨step, s₁⟩ u _ _
    exact Contract.pure trivial
  · exact Contract.pure trivial

theorem pushFor_plain (f : ForFrame) : Plain (pushFor lines f) := by
  apply Plain.gets.bind
  intro forStack
  exact (check_plain _ _).bind fun _ => (Plain.modify fun _ => ⟨rfl, rfl⟩).bind fun _ => nextLine_plain

theorem forStatement_promise (hb : Later b t) (hlen : text.length ≤ size) :
    Runs size n b (forStatement lines (parsers n) text) t := by
  have hskip := length_skipDrop_le 3 text
  unfold forStatement
  apply Contract.gets_bind
  apply Promise.next hb (orErr_ofOption _)
  rintro ⟨i, s₁⟩ u heq hu
  have h₁ := parseVar_shorter heq
  apply Promise.next hu (Promise.orErr _ (expect_promise (by decide)))
  intro s₂ v h₂ hv
  apply Promise.next hv (Promise.orErr _ (runs_expr hv (by omega)))
  rintro ⟨startValue, s₃⟩ w h₃ hw
  have hskip₃ := length_skipSpaces_le s₃
  have hdrop := length_skipDrop_le 2 (skipSpaces s₃)
  apply Promise.next hw (check_promise _ _)
  intro _ x _ hx
  apply Promise.next hx (Promise.orErr _ (runs_expr hx (by dsimp only at h₂ h₃; omega)))
  rintro ⟨endValue, s₄⟩ y h₄ hy
  have hskip₄ := length_skipSpaces_le s₄
  apply Promise.next hy (forStep_promise hy (by dsimp only at h₂ h₃ h₄; omega))
  intro step z _ _
  apply Plain.runs
  apply (check_plain _ _).bind
  intro _
  apply (setVar_plain _ _).bind
  intro _
  apply Plain.ite
  · exact (orErr_plain Plain.ofOption _).bind fun _ => jump_plain _
  · exact pushFor_plain _

theorem nextVar_plain (text : Text) : Plain (nextVar lines text) :=
  Plain.ite ((orErr_plain Plain.ofOption _).bind fun _ => Plain.pure) Plain.pure

theorem nextStatement_plain (text : Text) : Plain (nextStatement lines text) := by
  unfold nextStatement
  apply (nextVar_plain _).bind
  intro name
  apply Plain.gets.bind
  intro forStack
  cases forStack with
  | nil => exact rtFail_plain _
  | cons f rest =>
    apply (check_plain _ _).bind
    intro _
    apply Plain.gets.bind
    intro vars
    apply (setVar_plain _ _).bind
    intro _
    apply Plain.ite
    · exact jump_plain _
    · exact (Plain.modify fun _ => ⟨rfl, rfl⟩).bind fun _ => nextLine_plain

theorem whileStatement_promise (hb : Later b t) (hlen : text.length ≤ size) :
    Runs size n b (whileStatement lines (parsers n) text) t := by
  have hskip := length_skipDrop_le 5 text
  unfold whileStatement
  apply Contract.gets_bind
  apply Promise.next hb (Promise.orErr _ (runs_expr hb (hskip.trans hlen)))
  rintro ⟨cond, s₁⟩ u _ _
  apply Plain.runs
  apply Plain.ite
  · apply Plain.gets.bind
    intro whileStack
    exact (check_plain _ _).bind fun _ => (Plain.modify fun _ => ⟨rfl, rfl⟩).bind fun _ => nextLine_plain
  · exact (orErr_plain Plain.ofOption _).bind fun _ => jump_plain _

theorem statementStart_le (line : Text) : (statementStart line).length ≤ line.length := by
  have hskip := length_skipSpaces_le line
  unfold statementStart
  dsimp only
  split_ifs
  · split
    · rename_i v rest heq
      have hlt := parseInt_shorter heq
      have hrest := length_skipSpaces_le rest
      split_ifs
      · omega
      · exact hskip
    · exact hskip
  · exact hskip

theorem textAt_le (hlines : ∀ line ∈ lines, line.text.length ≤ size) (pc : ℕ) : (textAt lines pc).length ≤ size := by
  unfold textAt
  split
  · rename_i line heq
    exact hlines line (List.mem_of_getElem? heq)
  · exact Nat.zero_le _

theorem wendStatement_promise (hlines : ∀ line ∈ lines, line.text.length ≤ size) (hb : Later b t) :
    Runs size n b (wendStatement lines (parsers n)) t := by
  unfold wendStatement
  apply Contract.gets_bind
  split
  · exact (rtFail_plain _).runs t
  · rename_i whilePc rest heq
    have htext := textAt_le hlines whilePc
    have hstart := statementStart_le (textAt lines whilePc)
    have hskip := length_skipDrop_le 5 (statementStart (textAt lines whilePc))
    apply Promise.next hb (Promise.orErr _ (runs_expr hb (by omega)))
    rintro ⟨cond, s₁⟩ u _ _
    apply Plain.runs
    apply Plain.ite
    · exact jump_plain _
    · exact (Plain.modify fun _ => ⟨rfl, rfl⟩).bind fun _ => nextLine_plain

theorem expect_plain (c : UInt8) (text : Text) : Plain (expect c text) := by
  unfold expect
  dsimp only
  by_cases h : peek (skipSpaces text) = c
  · rw [require_pos h]
    exact Plain.pure.bind fun _ => Plain.pure
  · rw [require_neg h]
    exact Plain.fail

theorem defStatement_plain (text : Text) : Plain (defStatement lines text) := by
  unfold defStatement
  apply (check_plain _ _).bind
  intro _
  apply (orErr_plain (expect_plain _ _) _).bind
  intro s₁
  apply (check_plain _ _).bind
  intro _
  apply (orErr_plain (expect_plain _ _) _).bind
  intro s₂
  apply (orErr_plain (expect_plain _ _) _).bind
  intro s₃
  apply Plain.gets.bind
  intro defFns
  exact (orErr_plain Plain.ofOption _).bind fun _ => (Plain.modify fun _ => ⟨rfl, rfl⟩).bind fun _ => nextLine_plain

/-! ### Jumps -/

theorem target_plain (parseMessage notFoundMessage : String) (text : Text) :
    Plain (target lines parseMessage notFoundMessage text) :=
  (orErr_plain Plain.ofOption _).bind fun _ => orErr_plain Plain.ofOption _

theorem gotoStatement_plain (text : Text) : Plain (gotoStatement lines text) :=
  (target_plain _ _ _).bind fun _ => jump_plain _

theorem pushCall_plain (message : String) : Plain (pushCall lines message) :=
  Plain.gets.bind fun _ => (check_plain _ _).bind fun _ => Plain.modify fun _ => ⟨rfl, rfl⟩

theorem gosubStatement_plain (text : Text) : Plain (gosubStatement lines text) :=
  (target_plain _ _ _).bind fun _ => (pushCall_plain _).bind fun _ => jump_plain _

theorem onStatement_promise (hb : Later b t) (hlen : text.length ≤ size) :
    Runs size n b (onStatement lines (parsers n) text) t := by
  have hskip := length_skipDrop_le 2 text
  unfold onStatement
  apply Promise.next hb (Promise.orErr _ (runs_expr hb (hskip.trans hlen)))
  rintro ⟨selector, s₁⟩ u _ _
  apply Plain.runs
  apply (orErr_plain Plain.ofOption _).bind
  rintro ⟨doGosub, s₂⟩
  dsimp only
  split
  · exact nextLine_plain
  · apply (orErr_plain Plain.ofOption _).bind
    intro pc
    exact (Plain.ite (pushCall_plain _) Plain.pure).bind fun _ => jump_plain _

theorem returnStatement_plain : Plain (returnStatement lines) := by
  unfold returnStatement
  apply Plain.gets.bind
  intro callStack
  cases callStack with
  | nil => exact rtFail_plain _
  | cons pc rest =>
    have hpop : Plain (Exec.modify fun s : Interp => { s with callStack := rest }) := Plain.modify fun _ => ⟨rfl, rfl⟩
    exact hpop.bind fun _ => jump_plain pc

theorem parseCmp_shorter {r : (Int32 → Int32 → Bool) × Text} (h : parseCmp text = some r) : r.2.length ≤ text.length := by
  have hone := length_drop_le 1 text
  have htwo := length_drop_le 2 text
  unfold parseCmp at h
  dsimp only at h
  split_ifs at h
  all_goals
    cases h
    assumption

theorem ifStatement_promise (hb : Later b t) (hlen : text.length ≤ size) :
    Runs size n b (ifStatement lines (parsers n) text) t := by
  have hskip := length_skipDrop_le 2 text
  unfold ifStatement
  apply Promise.next hb (Promise.orErr _ (runs_expr hb (hskip.trans hlen)))
  rintro ⟨lhs, s₁⟩ u h₁ hu
  have hskip₁ := length_skipSpaces_le s₁
  apply Promise.next hu (orErr_ofOption _)
  rintro ⟨cmp, s₂⟩ v heq hv
  have h₂ := parseCmp_shorter heq
  apply Promise.next hv (Promise.orErr _ (runs_expr hv (by dsimp only at h₁ h₂; omega)))
  rintro ⟨rhs, s₃⟩ w _ _
  apply Plain.runs
  apply (check_plain _ _).bind
  intro _
  apply (orErr_plain Plain.ofOption _).bind
  rintro ⟨label, s₄⟩
  exact Plain.ite ((orErr_plain Plain.ofOption _).bind fun _ => jump_plain _) nextLine_plain

/-! ### Files -/

theorem fileNumber_promise (hb : Later b t) (hlen : text.length ≤ size) (missing numberMessage rangeMessage : String) :
    Runs size n b (fileNumber lines (parsers n) missing numberMessage rangeMessage text) t := by
  have htail := length_tail_le text
  unfold fileNumber
  apply Promise.next hb (check_promise _ _)
  intro _ u _ hu
  apply Promise.next hu (Promise.orErr _ (runs_expr hu (htail.trans hlen)))
  rintro ⟨fnum, s₁⟩ v _ _
  exact ((orErr_plain Plain.ofOption _).bind fun _ => Plain.pure).runs v

/-- Whether an operation of the file system fails or not, it is over. -/
theorem attempt_onRamfs_promise {m : Ramfs.M α} (hmove : DiskMove t.fs (m t.fs).2) (hends : P → (m t.fs).1 ≠ .hang) :
    Promise P (Exec.attempt (onRamfs m)) t fun _ => True := by
  rcases hm : m t.fs with ⟨o, fs⟩
  have hrun : onRamfs m t = (o, { t with fs := fs }) := by
    unfold onRamfs
    rw [hm]
  rw [hm] at hmove hends
  have hwalk : ReflTransGen Move t { t with fs := fs } := .single (.disk rfl hmove)
  cases o with
  | ok a => exact Contract.of_eq (attempt_ok hrun) hwalk (fun _ _ => ⟨rfl, trivial⟩) (fun _ => rfl) nofun
  | fail => exact Contract.of_eq (attempt_fail hrun) hwalk (fun _ _ => ⟨rfl, trivial⟩) (fun _ => rfl) nofun
  | hang => exact Contract.of_eq (attempt_hang hrun) hwalk nofun nofun fun _ => ⟨rfl, fun hP => absurd rfl (hends hP)⟩

theorem attempt_readPath_promise (hb : Later b t) (path : Text) : Runs size n b (Exec.attempt (readPath path)) t := by
  apply attempt_onRamfs_promise (.read _ _ rfl)
  intro hready
  have hends := (hready.tree_at hb).readFile_ends (some path) (BASIC_FILE_BUF - 1)
  exact (Exec.Ends.state (I := fun _ => True) (hends.mono (fun _ _ _ => trivial) fun _ _ => trivial)).1

theorem fillChan_promise (hb : Later b t) (c : Chan) (fname : Text) (mode : FileMode) :
    Runs size n b (fillChan lines c fname mode) t := by
  cases mode with
  | input =>
    apply Promise.next hb (attempt_readPath_promise hb fname)
    intro r u _ _
    cases r with
    | none => exact ((setFile_plain _ _).bind fun _ => rtFail_plain _).runs u
    | some buf => exact (setFile_plain _ _).runs u
  | output => exact Contract.pure trivial
  | append =>
    apply Promise.next hb (attempt_readPath_promise hb fname)
    intro r u _ _
    cases r with
    | none => exact Contract.pure trivial
    | some buf => exact (setFile_plain _ _).runs u

theorem openMode_promise (text : Text) (t : Interp) :
    Promise P (openMode lines text) t fun r => r.2.length ≤ text.length := by
  have hskip := length_skipDrop_le 3 text
  have hfive := length_drop_le 5 (skipSpaces (text.drop 3))
  have hsix := length_drop_le 6 (skipSpaces (text.drop 3))
  unfold openMode
  dsimp only
  split_ifs
  · exact Contract.pure (hfive.trans hskip)
  · exact Contract.pure (hsix.trans hskip)
  · exact Contract.pure (hsix.trans hskip)
  · exact Promise.rtFail _
  · exact Contract.pure (Nat.le_refl _)

theorem openStatement_promise (hb : Later b t) (hlen : text.length ≤ size) :
    Runs size n b (openStatement lines (parsers n) text) t := by
  have hskip := length_skipDrop_le 4 text
  unfold openStatement
  apply Promise.next hb (orErr_ofOption _)
  rintro ⟨fname, s₁⟩ u heq hu
  have h₁ := parseStringLiteral_shorter heq
  have hskip₁ := length_skipSpaces_le s₁
  apply Promise.next hu (openMode_promise _ u)
  rintro ⟨mode, s₂⟩ v h₂ hv
  have hskip₂ := length_skipSpaces_le s₂
  have hdrop₂ := length_skipDrop_le 2 (skipSpaces s₂)
  have h₃ : (if startsWithCi (skipSpaces s₂) (chars "AS") then skipSpaces ((skipSpaces s₂).drop 2) else skipSpaces s₂).length ≤ size := by
    dsimp only at h₂
    split_ifs <;> omega
  apply Promise.next hv (fileNumber_promise hv h₃ _ _ _)
  rintro ⟨c, _⟩ w _ hw
  apply Contract.gets_bind
  apply Promise.next hw (check_promise _ _)
  intro _ x _ hx
  apply Promise.next hx ((setFile_plain _ _).promise x)
  intro _ y _ hy
  apply Promise.next hy (fillChan_promise hy c fname mode)
  intro _ z _ _
  exact nextLine_plain.runs z

theorem flushChan_promise (hb : Later b t) (c : Chan) : Runs size n b (flushChan c) t := by
  unfold flushChan
  apply Contract.gets_bind
  have hwrite : Runs size n b (if (t.files c).mode ≠ .input then
      Exec.ignore (Exec.attempt (onRamfs
        (Ramfs.writeFile (some (t.files c).path) (some (t.files c).buf) (t.files c).buf.length)))
    else pure ()) t := by
    split_ifs
    · have hends : Ready size n b → _ := fun hready =>
        ((hready.tree_at hb).writeFile_ends (some (t.files c).path) (some (t.files c).buf) (t.files c).buf.length).state.1
      apply Promise.next hb (attempt_onRamfs_promise (.write _ _ _ rfl) hends)
      intro _ u _ _
      exact Contract.pure trivial
    · exact Contract.pure trivial
  apply Promise.next hb hwrite
  intro _ u _ _
  exact (setFile_plain _ _).runs u

theorem closeStatement_promise (hb : Later b t) (hlen : text.length ≤ size) :
    Runs size n b (closeStatement lines (parsers n) text) t := by
  have hskip := length_skipDrop_le 5 text
  unfold closeStatement
  apply Promise.next hb (fileNumber_promise hb (hskip.trans hlen) _ _ _)
  rintro ⟨c, _⟩ u _ hu
  apply Contract.gets_bind
  apply Promise.next hu (check_promise _ _)
  intro _ v _ hv
  apply Promise.next hv (flushChan_promise hv c)
  intro _ w _ _
  exact nextLine_plain.runs w

/-! ### The dispatch -/

theorem clearStatement_plain : Plain clearStatement := by
  have hclear : Plain screenClear := Plain.modify fun _ => ⟨rfl, rfl⟩
  exact hclear.bind fun _ => nextLine_plain

theorem modify_bind_plain {g : Interp → Interp} {f : Unit → M β} (hg : ∀ s, (g s).history = s.history ∧ (g s).fs = s.fs)
    (hf : Plain (f ())) : Plain (Exec.modify g >>= f) := (Plain.modify hg).bind fun _ => hf

theorem listStatement_plain : Plain (listStatement lines) := by
  unfold listStatement
  exact modify_bind_plain (fun _ => ⟨rfl, rfl⟩) nextLine_plain

theorem runStatement_plain : Plain runStatement := by
  unfold runStatement
  exact modify_bind_plain (fun _ => ⟨rfl, rfl⟩) Plain.pure

theorem Promise.ite {c : Prop} [Decidable c] {m m' : M α} {Q : α → Prop} (h : c → Promise P m s Q) (h' : ¬ c → Promise P m' s Q) :
    Promise P (if c then m else m') s Q := by
  split_ifs with hc
  · exact h hc
  · exact h' hc

section

variable (hn : 2 ≤ n) (hlines : ∀ line ∈ lines, line.text.length ≤ size) (h95 : 95 ≤ size)
include hn hlines h95

/-- The last two tests never apply: an earlier one takes every statement that begins with
their words. -/
theorem dispatch_promise (hb : Later b t)
    (hlen : text.length ≤ size) : Runs size n b (dispatch lines (parsers n) n text) t := by
  unfold dispatch
  refine Promise.ite (fun _ => nextLine_plain.runs t) fun _ => ?_
  refine Promise.ite (fun _ => Contract.pure trivial) fun _ => ?_
  refine Promise.ite (fun _ => clearStatement_plain.runs t) fun _ => ?_
  refine Promise.ite (fun _ => listStatement_plain.runs t) fun _ => ?_
  refine Promise.ite (fun _ => runStatement_plain.runs t) fun _ => ?_
  refine Promise.ite (fun _ => printStatement_promise hn hb hlen) fun hprint => ?_
  refine Promise.ite (fun _ => nextLine_plain.runs t) fun _ => ?_
  refine Promise.ite (fun _ => readStatement_promise h95 hb hlen) fun _ => ?_
  refine Promise.ite (fun _ => (restoreStatement_plain text).runs t) fun _ => ?_
  refine Promise.ite (fun _ => dimStatement_promise hb hlen) fun _ => ?_
  refine Promise.ite (fun _ => letStatement_promise hb hlen) fun _ => ?_
  refine Promise.ite (fun _ => inputStatement_promise h95 hb) fun hinput => ?_
  refine Promise.ite (fun _ => forStatement_promise hb hlen) fun _ => ?_
  refine Promise.ite (fun _ => (nextStatement_plain text).runs t) fun _ => ?_
  refine Promise.ite (fun _ => whileStatement_promise hb hlen) fun _ => ?_
  refine Promise.ite (fun _ => wendStatement_promise hlines hb) fun _ => ?_
  refine Promise.ite (fun _ => (defStatement_plain text).runs t) fun _ => ?_
  refine Promise.ite (fun _ => updateStatement_promise hb hlen (fun _ _ _ => Contract.pure trivial) _) fun _ => ?_
  refine Promise.ite (fun _ => updateStatement_promise hb hlen (fun _ _ _ => Contract.pure trivial) _) fun _ => ?_
  refine Promise.ite (fun _ => updateStatement_promise hb hlen (fun _ _ _ => Contract.pure trivial) _) fun _ => ?_
  refine Promise.ite (fun _ => updateStatement_promise hb hlen (divide_runs _ _) _) fun _ => ?_
  refine Promise.ite (fun _ => updateStatement_promise hb hlen (divide_runs _ _) _) fun _ => ?_
  refine Promise.ite (fun _ => (gotoStatement_plain text).runs t) fun _ => ?_
  refine Promise.ite (fun _ => onStatement_promise hb hlen) fun _ => ?_
  refine Promise.ite (fun _ => (gosubStatement_plain text).runs t) fun _ => ?_
  refine Promise.ite (fun _ => returnStatement_plain.runs t) fun _ => ?_
  refine Promise.ite (fun _ => ifStatement_promise hb hlen) fun _ => ?_
  refine Promise.ite (fun _ => openStatement_promise hb hlen) fun _ => ?_
  refine Promise.ite (fun _ => closeStatement_promise hb hlen) fun _ => ?_
  refine Promise.ite (fun h => absurd (Bool.and_eq_true_iff.1 h).1 hprint) fun _ => ?_
  refine Promise.ite (fun h => absurd (Bool.and_eq_true_iff.1 h).1 hinput) fun _ => ?_
  exact assignStatement_promise hb hlen

theorem statement_promise (hb : Later b t) : Runs size n b (statement lines (parsers n) n) t := by
  have hstart := (statementStart_le (textAt lines t.pc)).trans (textAt_le hlines t.pc)
  unfold statement
  apply Contract.gets_bind
  dsimp only
  split_ifs
  · exact nextLine_plain.runs t
  · exact dispatch_promise hn hlines h95 hb hstart

/-- The steps are counted, so the promise goes from one statement to the next. -/
theorem runLoop_promise (steps : ℕ) (hb : Later b t) : Runs size n b (runLoop lines (parsers n) n steps) t := by
  induction steps generalizing t with
  | zero =>
    apply Contract.gets_bind
    split_ifs
    · exact Promise.rtFail _
    · exact Contract.pure trivial
  | succ steps ih =>
    unfold runLoop
    apply Contract.gets_bind
    split_ifs
    · apply Promise.next hb (statement_promise hn hlines h95 hb)
      intro flow u _ hu
      cases flow with
      | go => exact ih hu
      | exit => exact Contract.pure trivial
    · exact Contract.pure trivial

end

end Tg11Kernel.Basic
