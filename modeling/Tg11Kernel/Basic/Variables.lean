import Tg11Kernel.Basic.Expr

/-! Evaluation leaves the variables. An expression may draw random numbers, and a call of a
function puts its argument in a variable, but that variable has its old value again when the
call is over, also where the body of the function returns -1. Only an evaluation that does
not come back leaves an argument behind. -/

namespace Tg11Kernel.Basic

open Lib Lib.Exec

variable {n : ℕ} {α β : Type} {s t u : Interp}

/-- All is the same but for the random numbers and the history. -/
def Undisturbed (s t : Interp) : Prop := ∃ r h, t = { s with randState := r, history := h }

theorem Undisturbed.refl (s : Interp) : Undisturbed s s := ⟨s.randState, s.history, rfl⟩

theorem Undisturbed.trans (h : Undisturbed s t) (h' : Undisturbed t u) : Undisturbed s u := by
  obtain ⟨r, h, rfl⟩ := h
  obtain ⟨r', h', rfl⟩ := h'
  exact ⟨r', h', rfl⟩

theorem Undisturbed.pc (h : Undisturbed s t) : t.pc = s.pc := by
  obtain ⟨r, h, rfl⟩ := h
  rfl

theorem Undisturbed.arraySizes (h : Undisturbed s t) : t.arraySizes = s.arraySizes := by
  obtain ⟨r, h, rfl⟩ := h
  rfl

/-- A program that returns disturbs nothing. -/
def Leaves (m : M α) : Prop := ∀ s, Post m s (fun _ => Undisturbed s) (Undisturbed s)

namespace Leaves

variable {m : M α} {f : α → M β}

theorem pure {a : α} : Leaves (Pure.pure a : M α) := fun s => Post.pure (.refl s)

theorem fail : Leaves (Exec.fail : M α) := fun s => Post.error (.refl s)

theorem hang : Leaves (Exec.hang : M α) := fun _ => Post.hang

theorem gets {g : Interp → α} : Leaves (Exec.gets g) := by
  intro s
  constructor
  · rintro _ _ ⟨⟩
    exact .refl s
  · rintro _ ⟨⟩

theorem modify {g : Interp → Interp} (h : ∀ s, Undisturbed s (g s)) : Leaves (Exec.modify g) := fun s => Post.modify (h s)

theorem bind (h : Leaves m) (hf : ∀ a, Leaves (f a)) : Leaves (m >>= f) := fun s =>
  (h s).bind (fun _ hs => hs) fun a t ht => (hf a t).mono (fun _ _ hu => ht.trans hu) fun _ hu => ht.trans hu

theorem ofOption {o : Option α} : Leaves (Exec.ofOption o) := by
  cases o with
  | none => exact fail
  | some a => exact pure

theorem require {c : Prop} [Decidable c] : Leaves (Exec.require c) := by
  by_cases hc : c
  · rw [require_pos hc]
    exact pure
  · rw [require_neg hc]
    exact fail

/-- An error return is a value then. -/
theorem attempt (h : Leaves m) (s : Interp) : Post (Exec.attempt m) s (fun _ => Undisturbed s) fun _ => False := by
  have hs := h s
  rcases hm : m s with ⟨a | _ | _, t⟩
  · refine ⟨fun o u hu => ?_, fun u hu => ?_⟩ <;> rw [attempt_ok hm] at hu <;> cases hu
    exact hs.ok a t hm
  · refine ⟨fun o u hu => ?_, fun u hu => ?_⟩ <;> rw [attempt_fail hm] at hu <;> cases hu
    exact hs.fail t hm
  · refine ⟨fun o u hu => ?_, fun u hu => ?_⟩ <;> rw [attempt_hang hm] at hu <;> cases hu

theorem ite {c : Prop} [Decidable c] {m' : M α} (h : Leaves m) (h' : Leaves m') : Leaves (if c then m else m') := by
  split_ifs
  · exact h
  · exact h'

end Leaves

/-- `callFn` behind its argument. -/
def evalBody (f : DefFn) (arg : Int32) (body : M (Int32 × Text)) : M (Int32 × Text) := do
  let vars ← Exec.gets Interp.vars
  Exec.modify fun s => s.entered f arg
  let r ← Exec.attempt body
  Exec.modify fun s => s.left f (vars f.paramVar)
  Exec.ofOption r

theorem callFn_eq (p : Parsers) (f : DefFn) (text : Text) : callFn p f text = (do
    let (arg, rest) ← parseBuiltinParenExpr p text
    let (v, _) ← evalBody f arg (p.expr f.body.val)
    pure (v, rest)) := by
  unfold callFn evalBody
  congr 1
  funext ⟨arg, rest⟩ s
  dsimp only
  simp only [bind_assoc_eq]

/-! ### What the parsers are made of -/

/-- A property of programs that holds of all that the parsers are made of. They read the
state but for its history, draw random numbers, divide, and evaluate the body of a function
with its argument in a variable. -/
structure Closed (C : ∀ {α : Type}, M α → Prop) : Prop where
  pure : ∀ {α : Type} (a : α), C (Pure.pure a : M α)
  fail : ∀ {α : Type}, C (Exec.fail : M α)
  hang : ∀ {α : Type}, C (Exec.hang : M α)
  bind : ∀ {α β : Type} {m : M α} {f : α → M β}, C m → (∀ a, C (f a)) → C (m >>= f)
  gets : ∀ {α : Type} (g : Interp → α), (∀ s h, g { s with history := h } = g s) → C (Exec.gets g)
  draw : C (Exec.modify fun s : Interp => { s with randState := nextRand s.randState })
  divide : ∀ (op : Int32 → Int32 → Int32) (x y : Int32), C (divide op x y)
  enter : ∀ (f : DefFn) (arg : Int32) (body : M (Int32 × Text)), C body → C (evalBody f arg body)

namespace Closed

variable {C : ∀ {α : Type}, M α → Prop} (h : Closed @C)

include h

theorem ite {c : Prop} [Decidable c] {m m' : M α} (hm : C m) (hm' : C m') : C (if c then m else m') := by
  split_ifs
  · exact hm
  · exact hm'

theorem ofOption (o : Option α) : C (Exec.ofOption o) := by
  cases o with
  | none => exact h.fail
  | some a => exact h.pure a

theorem require (c : Prop) [Decidable c] : C (Exec.require c) := h.ite (h.pure ()) h.fail

theorem expect (c : UInt8) (text : Text) : C (expect c text) := h.bind (h.require _) fun _ => h.pure _

theorem arrayGet (i : Letter) (pos : Int32) : C (arrayGet i pos) :=
  h.bind (h.gets _ fun _ _ => rfl) fun _ => h.bind (h.require _) fun _ => h.gets _ fun _ _ => rfl

theorem drawBelow (v : Int32) : C (drawBelow v) :=
  h.ite (h.pure _) (h.bind h.draw fun _ => h.bind (h.gets _ fun _ _ => rfl) fun _ => h.pure _)

end Closed

/-- The property holds of the parsers that the others call. -/
structure Parsers.All (C : ∀ {α : Type}, M α → Prop) (p : Parsers) : Prop where
  factor : ∀ text, C (p.factor text)
  expr : ∀ text, C (p.expr text)
  stringExpr : ∀ text, C (p.stringExpr text)

namespace Closed

variable {C : ∀ {α : Type}, M α → Prop} (h : Closed @C) {p : Parsers} (hp : p.All @C) (text : Text)

include h hp

theorem parenExpr : C (parseBuiltinParenExpr p text) :=
  h.bind (h.expect _ _) fun _ => h.bind (hp.expr _) fun _ => h.bind (h.expect _ _) fun _ => h.pure _

theorem parenString : C (parseBuiltinParenString p text) :=
  h.bind (h.expect _ _) fun _ => h.bind (hp.stringExpr _) fun _ => h.bind (h.expect _ _) fun _ => h.pure _

theorem parseVarValue : C (parseVarValue p text) := by
  apply h.bind (h.ofOption _)
  rintro ⟨i, isString, rest⟩
  apply h.bind (h.require _)
  intro _
  apply h.ite
  · exact h.bind (hp.expr _) fun _ => h.bind (h.expect _ _) fun _ => h.bind (h.arrayGet _ _) fun _ => h.pure _
  · exact h.bind (h.gets _ fun _ _ => rfl) fun _ => h.pure _

theorem parseValue : C (parseValue p text) := h.ite (h.parseVarValue hp _) (h.ofOption _)

omit hp in
theorem parseStrVar : C (parseStrVar text) :=
  h.bind (h.ofOption _) fun _ => h.bind (h.require _) fun _ => h.bind (h.gets _ fun _ _ => rfl) fun _ => h.pure _

theorem parseMid : C (parseMid p text) := by
  have hlength : ∀ text, C (parseMidLength p text) := fun _ => h.ite (hp.expr _) (h.pure _)
  exact h.bind (h.expect _ _) fun _ => h.bind (hp.stringExpr _) fun _ => h.bind (h.expect _ _) fun _ =>
    h.bind (hp.expr _) fun _ => h.bind (hlength _) fun _ => h.bind (h.expect _ _) fun _ => h.pure _

theorem parseSide (side : Text → Int32 → Text) : C (parseSide p side text) :=
  h.bind (h.expect _ _) fun _ => h.bind (hp.stringExpr _) fun _ => h.bind (h.expect _ _) fun _ =>
    h.bind (hp.expr _) fun _ => h.bind (h.expect _ _) fun _ => h.pure _

theorem parseStringPart : C (parseStringPart p text) := by
  unfold Basic.parseStringPart
  split_ifs
  · exact h.ofOption _
  · exact h.bind (h.parenExpr hp _) fun _ => h.pure _
  · exact h.bind (h.parenExpr hp _) fun _ => h.pure _
  · exact h.parseMid hp _
  · exact h.parseSide hp _ _
  · exact h.parseSide hp _ _
  · exact h.parseStrVar _
  · exact h.fail

theorem stringLoop (k : ℕ) (out : Text) : C (stringLoop p k out text) := by
  induction k generalizing out text with
  | zero => exact h.hang
  | succ k ih => exact h.bind (h.parseStringPart hp _) fun _ => h.ite (ih _ _) (h.pure _)

theorem callFn (f : DefFn) : C (callFn p f text) := by
  rw [callFn_eq]
  exact h.bind (h.parenExpr hp _) fun r => h.bind (h.enter f r.1 _ (hp.expr _)) fun _ => h.pure _

theorem parseInstr : C (parseInstr p text) :=
  h.bind (h.expect _ _) fun _ => h.bind (hp.stringExpr _) fun _ => h.bind (h.expect _ _) fun _ =>
    h.bind (hp.stringExpr _) fun _ => h.bind (h.expect _ _) fun _ => h.pure _

theorem parseNamed : C (parseNamed p text) := by
  unfold Basic.parseNamed
  split_ifs
  · exact h.bind (h.parenExpr hp _) fun _ => h.pure _
  · exact h.bind (h.parenExpr hp _) fun _ => h.bind (h.drawBelow _) fun _ => h.pure _
  · exact h.bind (h.parenString hp _) fun _ => h.pure _
  · exact h.bind (h.parenString hp _) fun _ => h.pure _
  · exact h.bind (h.parenString hp _) fun _ => h.pure _
  · exact h.bind (h.parenExpr hp _) fun _ => h.bind (h.gets _ fun _ _ => rfl) fun _ => h.pure _
  · exact h.parseInstr hp _
  · exact h.bind (h.gets _ fun _ _ => rfl) fun _ => h.bind (h.ofOption _) fun _ => h.callFn hp _ _
  · exact h.parseValue hp _

theorem parsePrimary : C (parsePrimary p text) := h.ite (h.parenExpr hp _) (h.ite (h.parseNamed hp _) (h.parseValue hp _))

theorem parseFactor : C (parseFactor p text) := by
  have hnot : ∀ text, C (parseNot p text) := fun _ => h.bind (hp.factor _) fun _ => h.pure _
  have hsigned : ∀ text, C (parseSigned p text) := fun _ => h.bind (h.parsePrimary hp _) fun _ => h.pure _
  exact h.ite (hnot _) (hsigned _)

omit hp in
theorem levelLoop {op : Text → Option Infix} {operand : Text → M (Int32 × Text)}
    (hop : ∀ text o, op text = some o → ∀ x y, C (o.apply x y)) (hoperand : ∀ text, C (operand text)) (k : ℕ) (lhs : Int32) :
    C (levelLoop op operand k lhs text) := by
  induction k generalizing lhs text with
  | zero => exact h.hang
  | succ k ih =>
    unfold Basic.levelLoop
    dsimp only
    cases hfound : op (skipSpaces text) with
    | none => exact h.pure _
    | some o => exact h.bind (hoperand _) fun _ => h.bind (hop _ _ hfound _ _) fun _ => ih _ _

omit hp in
theorem termOp {o : Infix} (ho : termOp text = some o) (x y : Int32) : C (o.apply x y) := by
  unfold Basic.termOp at ho
  split_ifs at ho <;> cases ho
  · exact h.pure _
  · exact h.divide _ x y
  · exact h.divide _ x y

omit hp in
theorem exprOp {o : Infix} (ho : exprOp text = some o) (x y : Int32) : C (o.apply x y) := by
  unfold Basic.exprOp at ho
  split_ifs at ho <;> cases ho <;> exact h.pure _

theorem parseTerm (k : ℕ) : C (parseTerm p k text) :=
  h.bind (h.parseFactor hp _) fun _ => h.levelLoop _ (fun text _ ho => h.termOp text ho) (h.parseFactor hp) k _

theorem parseExpr (k : ℕ) : C (parseExpr p k text) :=
  h.bind (h.parseTerm hp _ k) fun _ => h.levelLoop _ (fun text _ ho => h.exprOp text ho) (fun text => h.parseTerm hp text k) k _

omit hp in
/-- What holds of the pieces holds of the parsers, however deep they nest. -/
theorem parsers (n : ℕ) : (parsers n).All @C := by
  induction n with
  | zero => exact ⟨fun _ => h.hang, fun _ => h.hang, fun _ => h.hang⟩
  | succ n ih => exact ⟨h.parseFactor ih, fun text => h.parseExpr ih text n, fun text => h.stringLoop ih _ _ _⟩

end Closed

/-! ### Nothing is disturbed -/

/-- The variable of the parameter has its old value again. -/
theorem left_undisturbed {f : DefFn} {arg : Int32} (h : Undisturbed (s.entered f arg) t) :
    Undisturbed s (t.left f (s.vars f.paramVar)) := by
  obtain ⟨r, hist, rfl⟩ := h
  refine ⟨r, hist.leave, ?_⟩
  have hvars : Function.update (Function.update s.vars f.paramVar arg) f.paramVar (s.vars f.paramVar) = s.vars := by
    rw [Function.update_idem, Function.update_eq_self]
  unfold Interp.left Interp.entered
  dsimp only
  rw [hvars]

theorem leaves_evalBody (f : DefFn) (arg : Int32) {body : M (Int32 × Text)} (h : Leaves body) : Leaves (evalBody f arg body) := by
  intro s
  apply Post.gets_bind
  apply Post.modify_bind
  apply (h.attempt (s.entered f arg)).bind fun _ h => h.elim
  intro r t ht
  exact Post.modify_bind ((Leaves.ofOption _).mono (fun _ _ h => (left_undisturbed ht).trans h)
    fun _ h => (left_undisturbed ht).trans h)

theorem leaves_divide (op : Int32 → Int32 → Int32) (x y : Int32) : Leaves (divide op x y) := by
  have hattempt : Leaves (logAttempt ⟨x, y⟩) := .modify fun s => ⟨s.randState, s.history.attempt ⟨x, y⟩, rfl⟩
  have hdivide : Leaves (Exec.modify fun s : Interp => { s with history := s.history.divide ⟨x, y⟩ }) :=
    .modify fun s => ⟨s.randState, s.history.divide ⟨x, y⟩, rfl⟩
  have hmachine : Leaves (machineDivide op ⟨x, y⟩) := hdivide.bind fun _ => .ite .hang .pure
  exact hattempt.bind fun _ => Leaves.require.bind fun _ => hmachine

theorem leaves_closed : Closed @Leaves where
  pure _ := .pure
  fail := .fail
  hang := .hang
  bind := .bind
  gets _ _ := .gets
  draw := .modify fun s => ⟨nextRand s.randState, s.history, rfl⟩
  divide := leaves_divide
  enter f arg _ := leaves_evalBody f arg

theorem parsers_leave (n : ℕ) : (parsers n).All @Leaves := leaves_closed.parsers n

end Tg11Kernel.Basic
