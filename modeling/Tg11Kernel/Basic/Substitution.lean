import Tg11Kernel.Basic.Variables
import Tg11Kernel.Basic.Kinds
import Tg11Kernel.Basic.Statements

/-! Calls of stored functions. A call yields the value of the stored body where the variable
of the parameter has the value of the argument, and after it that variable, like all others,
is as it was. The history has no part in any of this: it is a ghost. -/

namespace Tg11Kernel.Basic

open Lib Lib.Exec

variable {n : ℕ} {α β : Type} {s t : Interp} {text : Text}

/-! ### The history is a ghost -/

/-- States that differ in their history at most. -/
def Alike (s t : Interp) : Prop := ∃ h, t = { s with history := h }

/-- From states that differ in their history the program does the same. -/
def Blind (m : M α) : Prop := Sim Alike (fun _ => True) m m

theorem blind_modify {g : Interp → Interp} (hg : ∀ s h, ∃ h', g { s with history := h } = { g s with history := h' }) :
    Blind (Exec.modify g) := by
  apply Sim.modify _ trivial
  rintro s _ ⟨h, rfl⟩
  exact hg s h

theorem blind_gets {g : Interp → α} (hg : ∀ s h, g { s with history := h } = g s) : Blind (Exec.gets g) := by
  apply Sim.gets
  rintro s _ ⟨h, rfl⟩
  exact ⟨(hg s h).symm, trivial⟩

theorem Blind.bind {m : M α} {f : α → M β} (hm : Blind m) (hf : ∀ a, Blind (f a)) : Blind (m >>= f) :=
  Sim.bind hm fun a _ => hf a

theorem blind_divide (op : Int32 → Int32 → Int32) (x y : Int32) : Blind (divide op x y) := by
  have hattempt : Blind (logAttempt ⟨x, y⟩) := blind_modify fun s h => ⟨h.attempt ⟨x, y⟩, rfl⟩
  have hrequire : Blind (Exec.require (y ≠ 0)) := Sim.require.mono fun _ _ => trivial
  have hdivide : Blind (Exec.modify fun s : Interp => { s with history := s.history.divide ⟨x, y⟩ }) :=
    blind_modify fun s h => ⟨h.divide ⟨x, y⟩, rfl⟩
  have hmachine : Blind (machineDivide op ⟨x, y⟩) := by
    apply hdivide.bind
    intro _
    split_ifs
    · exact Sim.hang
    · exact Sim.pure trivial
  exact hattempt.bind fun _ => hrequire.bind fun _ => hmachine

theorem blind_evalBody (f : DefFn) (arg : Int32) {body : M (Int32 × Text)} (h : Blind body) : Blind (evalBody f arg body) := by
  have hattempt : Blind (Exec.attempt body) := h.attempt.mono fun _ _ => trivial
  have henter : Blind (Exec.modify fun s => s.entered f arg) := blind_modify fun s h => ⟨h.enter f.fnLetter, rfl⟩
  have hleave : ∀ v, Blind (Exec.modify fun s => s.left f v) := fun v => blind_modify fun s h => ⟨h.leave, rfl⟩
  have hresult : ∀ r : Option (Int32 × Text), Blind (Exec.ofOption r) := fun _ => Sim.ofOption fun _ _ => trivial
  exact (blind_gets fun _ _ => rfl).bind fun vars => henter.bind fun _ => hattempt.bind fun r => (hleave _).bind fun _ => hresult r

theorem blind_closed : Closed @Blind where
  pure _ := Sim.pure trivial
  fail := Sim.fail
  hang := Sim.hang
  bind := .bind
  gets _ hg := blind_gets hg
  draw := blind_modify fun _ h => ⟨h, rfl⟩
  divide := blind_divide
  enter f arg _ := blind_evalBody f arg

theorem expr_alike (n : ℕ) (text : Text) (h : Alike s t) : ((parsers n).expr text s).1 = ((parsers n).expr text t).1 :=
  ((blind_closed.parsers n).expr text s t h).2.1

/-! ### A call -/

/-- The variable of the parameter has a value. -/
def Interp.withParam (s : Interp) (f : DefFn) (arg : Int32) : Interp := { s with vars := Function.update s.vars f.paramVar arg }

theorem evalBody_value (f : DefFn) (arg : Int32) (body : M (Int32 × Text)) (s : Interp) :
    (evalBody f arg body s).1 = (body (s.entered f arg)).1 := by
  show ((Exec.attempt body >>= fun r => Exec.modify (fun u => u.left f (s.vars f.paramVar)) >>= fun _ => Exec.ofOption r)
    (s.entered f arg)).1 = _
  rcases hm : body (s.entered f arg) with ⟨r | _ | _, t⟩
  · rw [bind_ok (attempt_ok hm)]
    rfl
  · rw [bind_ok (attempt_fail hm)]
    rfl
  · rw [bind_hang (attempt_hang hm)]

theorem expect_skipped {c : UInt8} {rest : Text} (h : skipSpaces text = c :: rest) : expect c text = pure rest := by
  unfold expect
  rw [h]
  show (Exec.require (c = c) >>= fun _ => pure rest) = _
  rw [require_pos rfl]
  rfl

/-- What is left of the text is what stands behind the argument. -/
theorem callFn_value {f : DefFn} {inner after rest : Text} {arg : Int32} (hopen : skipSpaces text = ('(' : UInt8) :: inner)
    (harg : (parsers n).expr inner s = (.ok (arg, after), t)) (hclose : skipSpaces after = (')' : UInt8) :: rest) :
    (callFn (parsers n) f text s).1 =
      ((parsers n).expr f.body.val (t.withParam f arg)).1.map fun r => (r.1, rest) := by
  have hparen : parseBuiltinParenExpr (parsers n) text s = (.ok (arg, rest), t) := by
    unfold parseBuiltinParenExpr
    rw [expect_skipped hopen, pure_bind_eq, bind_ok harg]
    dsimp only
    rw [expect_skipped hclose]
    rfl
  have halike : Alike (t.withParam f arg) (t.entered f arg) := ⟨_, rfl⟩
  rw [callFn_eq, bind_ok hparen]
  dsimp only
  rw [bind_pure_apply, expr_alike n f.body.val halike, ← evalBody_value f arg ((parsers n).expr f.body.val) t]

theorem callFn_fails {inner : Text} (hopen : skipSpaces text = ('(' : UInt8) :: inner)
    (harg : ((parsers n).expr inner s).1 = .fail) (f : DefFn) : (callFn (parsers n) f text s).1 = .fail := by
  have hparen : (parseBuiltinParenExpr (parsers n) text s).1 = .fail := by
    unfold parseBuiltinParenExpr
    rw [expect_skipped hopen, pure_bind_eq, bind_fail (Prod.ext harg rfl)]
  unfold callFn
  rw [bind_fail (Prod.ext hparen rfl)]

/-- The function that a call names. -/
def Interp.fnAt (s : Interp) (text : Text) : Option DefFn := s.defFns.find? fun f => f.fnLetter = letterOf (peek (text.drop 2))

theorem isAlpha_of_isFnName (h : isFnName text = true) : up (peek text) = ('F' : UInt8) ∧ isAlpha (peek text) = true := by
  unfold isFnName at h
  simp only [decide_eq_true_eq] at h
  exact ⟨h.1, isAlpha_of_up (c := peek text) (d := ('F' : UInt8)) (h.1.trans (by decide)) (by decide)⟩

/-- Where a call stands, nothing else is read. -/
theorem factor_call (hcall : isFnName text = true) (s : Interp) :
    (parsers (n + 1)).factor text s = parseFn (parsers n) text s := by
  obtain ⟨hup, halpha⟩ := isAlpha_of_isFnName hcall
  have hnot : ∀ word : Text, ('F' : UInt8) ≠ up (peek word) → word ≠ [] → ¬ nameMatchesCi text word = true := by
    intro word hc hne
    obtain ⟨c, name, rfl⟩ := List.exists_cons_of_ne_nil hne
    exact not_nameMatchesCi (by rw [hup]; exact hc)
  have hbuiltin : ∀ word : Text, ('F' : UInt8) ≠ up (peek word) → word ≠ [] → ¬ callsBuiltin text word = true := by
    intro word hc hne h
    unfold callsBuiltin at h
    simp only [Bool.and_eq_true] at h
    exact hnot word hc hne h.1
  have hnamed : parseNamed (parsers n) text = parseFn (parsers n) text := by
    unfold parseNamed
    rw [if_neg (hbuiltin _ (by decide) (by decide)), if_neg (hbuiltin _ (by decide) (by decide)), if_neg (hbuiltin _ (by decide) (by decide)),
      if_neg (hbuiltin _ (by decide) (by decide)), if_neg (hbuiltin _ (by decide) (by decide)), if_neg (hbuiltin _ (by decide) (by decide)),
      if_neg (hbuiltin _ (by decide) (by decide)), if_pos hcall]
  have hparen : ¬ peek text = '(' := by
    intro h
    rw [h] at halpha
    exact absurd halpha (by decide)
  show parseFactor (parsers n) text s = _
  unfold parseFactor
  rw [skipSpaces_of_not_isSpace (not_isSpace_of_isAlpha halpha), if_neg (hnot _ (by decide) (by decide))]
  unfold parseSigned
  rw [signRun_of_isAlpha halpha]
  dsimp only
  unfold parsePrimary
  rw [if_neg hparen, if_pos halpha, hnamed]
  simp only [Int32.mul_one]
  exact congrFun (bind_pure _) s

/-! ### The stored body -/

/-! ### Evaluation -/

/-- What evaluation does in a state: whatever it returns, all is as it was but for the random
numbers, and a call is the value of the stored body where the parameter has the value of the
argument. -/
structure Substitutes (n : ℕ) (s : Interp) : Prop where
  expr : ∀ text, Post ((parsers n).expr text) s (fun _ => Undisturbed s) (Undisturbed s)
  stringExpr : ∀ text, Post ((parsers n).stringExpr text) s (fun _ => Undisturbed s) (Undisturbed s)
  call : ∀ text f inner after rest arg t, isFnName text = true → s.fnAt text = some f →
    skipSpaces (text.drop 3) = ('(' : UInt8) :: inner → (parsers n).expr inner s = (.ok (arg, after), t) →
    skipSpaces after = (')' : UInt8) :: rest →
    ((parsers (n + 1)).factor text s).1 = ((parsers n).expr f.body.val (t.withParam f arg)).1.map fun r => (r.1, rest)
  undefined : ∀ text, isFnName text = true → s.fnAt text = none → ((parsers (n + 1)).factor text s).1 = .fail
  argument : ∀ text inner, isFnName text = true → skipSpaces (text.drop 3) = ('(' : UInt8) :: inner →
    ((parsers n).expr inner s).1 = .fail → ((parsers (n + 1)).factor text s).1 = .fail

theorem evaluation_substitutes (n : ℕ) (s : Interp) : Substitutes n s where
  expr text := (parsers_leave n).expr text s
  stringExpr text := (parsers_leave n).stringExpr text s
  call text f inner after rest arg t hcall hfn hopen harg hclose := by
    have hfound : s.defFns.find? (fun f => f.fnLetter = letterOf (peek (text.drop 2))) = some f := hfn
    rw [factor_call hcall, parseFn, bind_ok (gets_apply Interp.defFns s), hfound]
    exact callFn_value hopen harg hclose
  undefined text hcall hfn := by
    have hfound : s.defFns.find? (fun f => f.fnLetter = letterOf (peek (text.drop 2))) = none := hfn
    rw [factor_call hcall, parseFn, bind_ok (gets_apply Interp.defFns s), hfound]
    rfl
  argument text inner hcall hopen hfail := by
    rw [factor_call hcall, parseFn, bind_ok (gets_apply Interp.defFns s)]
    cases s.defFns.find? fun f => f.fnLetter = letterOf (peek (text.drop 2)) with
    | none => rfl
    | some f => exact callFn_fails hopen hfail f

end Tg11Kernel.Basic
