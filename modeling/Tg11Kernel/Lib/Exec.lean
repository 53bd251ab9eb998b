import Mathlib.Logic.Basic

/-! Stateful programs with three outcomes. A program maps a state to an outcome
and a final state: `ok` with a value, `fail` for an error return, `hang` for a
loop that used up its fuel. The state survives a failure, so an error path that
leaves a half-done update behind is visible. Four ways to reason about them are
developed: evaluation laws for one run, evaluation from every state that an
assertion describes, assertions about the ends of runs whose outcome is open, and
the rule that relates two runs. -/

namespace Tg11Kernel.Lib

/-- How a run ends. -/
inductive Outcome (α : Type) where
  | ok (a : α)
  | fail
  | hang
  deriving DecidableEq

def Outcome.map {α β : Type} (f : α → β) : Outcome α → Outcome β
  | .ok a => .ok (f a)
  | .fail => .fail
  | .hang => .hang

/-- A program over the state `σ` with results in `α`. -/
def Exec (σ α : Type) := σ → Outcome α × σ

namespace Exec

variable {σ α β : Type}

protected def pure (a : α) : Exec σ α := fun s => (.ok a, s)

protected def bind (m : Exec σ α) (f : α → Exec σ β) : Exec σ β := fun s =>
  match m s with
  | (.ok a, s') => f a s'
  | (.fail, s') => (.fail, s')
  | (.hang, s') => (.hang, s')

instance : Monad (Exec σ) where
  pure := Exec.pure
  bind := Exec.bind

def fail : Exec σ α := fun s => (.fail, s)

def hang : Exec σ α := fun s => (.hang, s)

/-- Read a component of the state. -/
def gets (f : σ → α) : Exec σ α := fun s => (.ok (f s), s)

def modify (f : σ → σ) : Exec σ Unit := fun s => (.ok (), f s)

/-- Return unless the condition holds. -/
def require (p : Prop) [Decidable p] : Exec σ Unit := if p then pure () else fail

def ofOption : Option α → Exec σ α
  | some a => pure a
  | none => fail

/-- Run `m` and hand its error return to the caller as a value. -/
def attempt (m : Exec σ α) : Exec σ (Option α) := fun s =>
  match m s with
  | (.ok a, s') => (.ok (some a), s')
  | (.fail, s') => (.ok none, s')
  | (.hang, s') => (.hang, s')

/-- Run `m`; on its error return run `h` and return the error. -/
def orElse (m : Exec σ α) (h : Exec σ Unit) : Exec σ α := do
  match ← attempt m with
  | some a => pure a
  | none => do h; fail

/-- Run `m` and drop its value. -/
def ignore (m : Exec σ α) : Exec σ Unit := do
  let _ ← m
  pure ()

/-! ### Evaluation -/

section Eval

variable {m : Exec σ α} {f : α → Exec σ β} {s s' : σ} {a : α}

@[simp] theorem pure_apply (a : α) (s : σ) : (pure a : Exec σ α) s = (.ok a, s) := rfl

@[simp] theorem fail_apply (s : σ) : (fail : Exec σ α) s = (.fail, s) := rfl

@[simp] theorem hang_apply (s : σ) : (hang : Exec σ α) s = (.hang, s) := rfl

@[simp] theorem gets_apply (f : σ → α) (s : σ) : gets f s = (.ok (f s), s) := rfl

@[simp] theorem modify_apply (f : σ → σ) (s : σ) : modify f s = (.ok (), f s) := rfl

@[simp] theorem ofOption_some (a : α) : (ofOption (some a) : Exec σ α) = pure a := rfl

@[simp] theorem ofOption_none : (ofOption none : Exec σ α) = fail := rfl

theorem bind_apply (m : Exec σ α) (f : α → Exec σ β) (s : σ) : (m >>= f) s = match m s with
      | (.ok a, s') => f a s'
      | (.fail, s') => (.fail, s')
      | (.hang, s') => (.hang, s') := rfl

theorem bind_ok (h : m s = (.ok a, s')) : (m >>= f) s = f a s' := by
  rw [bind_apply, h]

theorem bind_fail (h : m s = (.fail, s')) : (m >>= f) s = (.fail, s') := by
  rw [bind_apply, h]

theorem bind_hang (h : m s = (.hang, s')) : (m >>= f) s = (.hang, s') := by
  rw [bind_apply, h]

@[simp] theorem pure_bind_eq (a : α) (f : α → Exec σ β) : (pure a >>= f) = f a := rfl

@[simp] theorem fail_bind_eq (f : α → Exec σ β) : ((fail : Exec σ α) >>= f) = fail := rfl

theorem bind_assoc_eq {γ : Type} (m : Exec σ α) (f : α → Exec σ β) (g : β → Exec σ γ) :
    (m >>= f >>= g) = (m >>= fun a => f a >>= g) := by
  funext s
  simp only [bind_apply]
  rcases m s with ⟨_ | _ | _, s'⟩ <;> rfl

instance : LawfulMonad (Exec σ) := LawfulMonad.mk' _
  (fun m => by
    funext s
    show (m >>= fun a => pure a) s = m s
    simp only [bind_apply]
    rcases m s with ⟨_ | _ | _, s'⟩ <;> rfl)
  (fun _ _ => rfl)
  (fun m f g => bind_assoc_eq m f g)

theorem bind_pure_apply (m : Exec σ α) (f : α → β) (s : σ) :
    (m >>= fun a => pure (f a)) s = ((m s).1.map f, (m s).2) := by
  rw [bind_apply]
  rcases m s with ⟨_ | _ | _, s'⟩ <;> rfl

variable {p : Prop} {h : Exec σ Unit} {o : Option α} {I : σ → Prop}

theorem require_pos [Decidable p] (h : p) : (require p : Exec σ Unit) = pure () :=
  if_pos h

theorem require_neg [Decidable p] (h : ¬ p) : (require p : Exec σ Unit) = fail :=
  if_neg h

theorem attempt_apply (m : Exec σ α) (s : σ) : attempt m s = match m s with
      | (.ok a, s') => (.ok (some a), s')
      | (.fail, s') => (.ok none, s')
      | (.hang, s') => (.hang, s') := rfl

theorem attempt_ok (h : m s = (.ok a, s')) : attempt m s = (.ok (some a), s') := by
  rw [attempt_apply, h]

theorem attempt_fail (h : m s = (.fail, s')) : attempt m s = (.ok none, s') := by
  rw [attempt_apply, h]

theorem attempt_hang (h : m s = (.hang, s')) : attempt m s = (.hang, s') := by
  rw [attempt_apply, h]

theorem orElse_ok (hm : m s = (.ok a, s')) : orElse m h s = (.ok a, s') := by
  rw [orElse, bind_ok (attempt_ok hm)]
  rfl

theorem orElse_fail {s'' : σ} (hm : m s = (.fail, s'))
    (hh : h s' = (.ok (), s'')) : orElse m h s = (.fail, s'') := by
  rw [orElse, bind_ok (attempt_fail hm)]
  exact bind_ok hh

theorem orElse_hang (hm : m s = (.hang, s')) : orElse m h s = (.hang, s') := by
  rw [orElse, bind_hang (attempt_hang hm)]

theorem bind_ok_iff {b : β} : (m >>= f) s = (.ok b, s') ↔ ∃ a t, m s = (.ok a, t) ∧ f a t = (.ok b, s') := by
  rw [bind_apply]
  rcases m s with ⟨a | _ | _, t⟩ <;> simp [and_assoc]

theorem require_ok_iff [Decidable p] {u : Unit} :
    (require p : Exec σ Unit) s = (.ok u, s') ↔ p ∧ s' = s := by
  by_cases hp : p
  · rw [require_pos hp]; simp [hp, eq_comm]
  · rw [require_neg hp]; simp [hp]

theorem ofOption_ok_iff : (ofOption o : Exec σ α) s = (.ok a, s') ↔ o = some a ∧ s' = s := by
  cases o <;> simp [eq_comm]

theorem orElse_ok_iff : orElse m h s = (.ok a, s') ↔ m s = (.ok a, s') := by
  rw [orElse, bind_apply, attempt_apply]
  rcases m s with ⟨a | _ | _, t⟩
  · simp
  · simp only [Prod.mk.injEq, reduceCtorEq, false_and, iff_false]
    rw [bind_ok_iff]
    simp
  · simp

/-- A property of the final state of a part, if the rest brings it back, holds of the whole. -/
theorem bind_state_of (h : I (m s).2) (hf : ∀ a, (m s).1 = .ok a → I (f a (m s).2).2) :
    I ((m >>= f) s).2 := by
  rw [bind_apply]
  rcases hm : m s with ⟨a | _ | _, t⟩ <;> rw [hm] at h hf
  · exact hf a rfl
  · exact h
  · exact h

/-- A property of the final state of a part, if the rest keeps it, holds of the whole. -/
theorem bind_state (h : I (m s).2) (hf : ∀ a t, I t → I (f a t).2) : I ((m >>= f) s).2 :=
  bind_state_of h fun a _ => hf a _ h

theorem require_bind_state [Decidable p] {f : Unit → Exec σ β} (h : I s)
    (hf : p → I (f () s).2) : I ((require p >>= f) s).2 := by
  by_cases hp : p
  · rw [require_pos hp]
    exact hf hp
  · rw [require_neg hp]
    exact h

theorem ofOption_bind_state (h : I s) (hf : ∀ a, o = some a → I (f a s).2) :
    I ((ofOption o >>= f) s).2 := by
  cases o with
  | none => exact h
  | some a => exact hf a rfl

/-- The error path starts from what the program left. -/
theorem orElse_state_of {J : σ → Prop} {h' : Exec σ Unit} (h : I (m s).2) (hJ : ∀ t, I t → J t)
    (hh : ∀ t, I t → J (h' t).2) : J ((orElse m h') s).2 := by
  rcases hm : m s with ⟨a | _ | _, t⟩ <;> rw [hm] at h
  · rw [orElse_ok hm]
    exact hJ t h
  · rw [orElse, bind_ok (attempt_fail hm)]
    exact bind_state (hh t h) fun _ _ h => h
  · rw [orElse_hang hm]
    exact hJ t h

theorem orElse_state {h' : Exec σ Unit} (h : I (m s).2) (hh : ∀ t, I t → I (h' t).2) :
    I ((orElse m h') s).2 := orElse_state_of h (fun _ ht => ht) hh

end Eval

/-! ### Evaluation up to an assertion -/

/-- From every state in `P`, `m` ends with the outcome `o` in a state in `Q`. -/
def Evals (P : σ → Prop) (m : Exec σ α) (o : Outcome α) (Q : σ → Prop) : Prop :=
  ∀ s, P s → ∃ s', m s = (o, s') ∧ Q s'

namespace Evals

variable {P Q T : σ → Prop} {m : Exec σ α} {f : α → Exec σ β} {a : α} {o : Outcome β}

theorem pure (a : α) : Evals P (Pure.pure a : Exec σ α) (.ok a) P := fun s hs => ⟨s, rfl, hs⟩

theorem fail : Evals P (Exec.fail : Exec σ α) .fail P := fun s hs => ⟨s, rfl, hs⟩

theorem bind (h : Evals P m (.ok a) Q) (hf : Evals Q (f a) o T) : Evals P (m >>= f) o T := by
  intro s hs
  obtain ⟨s₁, h₁, hs₁⟩ := h s hs
  obtain ⟨s₂, h₂, hs₂⟩ := hf s₁ hs₁
  exact ⟨s₂, (bind_ok h₁).trans h₂, hs₂⟩

theorem bind_fail (h : Evals P m .fail Q) : Evals P (m >>= f) .fail Q := by
  intro s hs
  obtain ⟨s₁, h₁, hs₁⟩ := h s hs
  exact ⟨s₁, Exec.bind_fail h₁, hs₁⟩

theorem bind_hang (h : Evals P m .hang Q) : Evals P (m >>= f) .hang Q := by
  intro s hs
  obtain ⟨s₁, h₁, hs₁⟩ := h s hs
  exact ⟨s₁, Exec.bind_hang h₁, hs₁⟩

theorem modify {g : σ → σ} (h : ∀ s, P s → Q (g s)) : Evals P (Exec.modify g) (.ok ()) Q :=
  fun s hs => ⟨g s, rfl, h s hs⟩

variable {p : Prop}

theorem require [Decidable p] (hp : p) : Evals P (Exec.require p) (.ok ()) P := by
  rw [require_pos hp]
  exact pure ()

theorem require_fail [Decidable p] (hp : ¬ p) : Evals P (Exec.require p) .fail P := by
  rw [require_neg hp]
  exact fail

theorem attempt (h : Evals P m (.ok a) Q) : Evals P (Exec.attempt m) (.ok (some a)) Q := by
  intro s hs
  obtain ⟨s₁, h₁, hs₁⟩ := h s hs
  exact ⟨s₁, attempt_ok h₁, hs₁⟩

theorem attempt_fail (h : Evals P m .fail Q) : Evals P (Exec.attempt m) (.ok none) Q := by
  intro s hs
  obtain ⟨s₁, h₁, hs₁⟩ := h s hs
  exact ⟨s₁, Exec.attempt_fail h₁, hs₁⟩

theorem orElse {h' : Exec σ Unit} (h : Evals P m (.ok a) Q) : Evals P (Exec.orElse m h') (.ok a) Q := by
  intro s hs
  obtain ⟨s₁, h₁, hs₁⟩ := h s hs
  exact ⟨s₁, orElse_ok h₁, hs₁⟩

/-- Two assertions about the same final state agree on the outcome. -/
theorem outcome_eq {o o' : Outcome α} (h : Evals P m o Q) (h' : Evals P m o' T) {s : σ} (hs : P s) : o = o' := by
  obtain ⟨s₁, h₁, -⟩ := h s hs
  obtain ⟨s₂, h₂, -⟩ := h' s hs
  rw [h₁] at h₂
  exact congrArg Prod.fst h₂

end Evals

/-! ### Runs that end -/

/-- From `s`, `m` ends: with a value and a state in `Q`, or by an error return in
a state in `E`. -/
def Ends (m : Exec σ α) (s : σ) (Q : α → σ → Prop) (E : σ → Prop) : Prop :=
  (∃ a s', m s = (.ok a, s') ∧ Q a s') ∨ ∃ s', m s = (.fail, s') ∧ E s'

namespace Ends

variable {m : Exec σ α} {f : α → Exec σ β} {s : σ} {Q : α → σ → Prop} {T : β → σ → Prop} {E : σ → Prop}

theorem pure {a : α} (h : Q a s) : Ends (Pure.pure a : Exec σ α) s Q E := .inl ⟨a, s, rfl, h⟩

theorem fail (h : E s) : Ends (Exec.fail : Exec σ α) s Q E := .inr ⟨s, rfl, h⟩

theorem bind (h : Ends m s Q E) (hf : ∀ a s', Q a s' → Ends (f a) s' T E) : Ends (m >>= f) s T E := by
  rcases h with ⟨a, s', hm, hq⟩ | ⟨s', hm, he⟩
  · rw [Ends, bind_ok hm]
    exact hf a s' hq
  · exact .inr ⟨s', Exec.bind_fail hm, he⟩

theorem gets_bind {γ : Type} {g : σ → γ} {f : γ → Exec σ β} (h : Ends (f (g s)) s T E) :
    Ends (Exec.gets g >>= f) s T E := h

theorem modify {g : σ → σ} {Q : Unit → σ → Prop} (h : Q () (g s)) : Ends (Exec.modify g) s Q E :=
  .inl ⟨(), g s, rfl, h⟩

variable {p : Prop} {E' : σ → Prop}

theorem require [Decidable p] {Q : Unit → σ → Prop} (h : p → Q () s) (he : ¬ p → E s) :
    Ends (Exec.require p) s Q E := by
  by_cases hp : p
  · rw [require_pos hp]
    exact pure (h hp)
  · rw [require_neg hp]
    exact fail (he hp)

theorem require_bind [Decidable p] {f : Unit → Exec σ β} (hf : p → Ends (f ()) s T E)
    (he : ¬ p → E s) : Ends (Exec.require p >>= f) s T E := by
  by_cases hp : p
  · rw [require_pos hp]
    exact hf hp
  · rw [require_neg hp]
    exact fail (he hp)

theorem ofOption_bind {o : Option α} (hf : ∀ a, o = some a → Ends (f a) s T E) (he : o = none → E s) :
    Ends (Exec.ofOption o >>= f) s T E := by
  cases o with
  | none => exact fail (he rfl)
  | some a => exact hf a rfl

theorem mono {Q' : α → σ → Prop} (h : Ends m s Q E) (hQ : ∀ a s', Q a s' → Q' a s')
    (hE : ∀ s', E s' → E' s') : Ends m s Q' E' := by
  rcases h with ⟨a, s', hm, hq⟩ | ⟨s', hm, he⟩
  · exact .inl ⟨a, s', hm, hQ a s' hq⟩
  · exact .inr ⟨s', hm, hE s' he⟩

theorem attempt_bind {f : Option α → Exec σ β} (h : Ends m s Q E')
    (hok : ∀ a s', Q a s' → Ends (f (some a)) s' T E) (hfail : ∀ s', E' s' → Ends (f none) s' T E) :
    Ends (Exec.attempt m >>= f) s T E := by
  rcases h with ⟨a, s', hm, hq⟩ | ⟨s', hm, he⟩
  · rw [Ends, bind_ok (attempt_ok hm)]
    exact hok a s' hq
  · rw [Ends, bind_ok (attempt_fail hm)]
    exact hfail s' he

theorem state {I : σ → Prop} (h : Ends m s (fun _ => I) I) : (m s).1 ≠ .hang ∧ I (m s).2 := by
  rcases h with ⟨a, s', hm, hq⟩ | ⟨s', hm, he⟩ <;> rw [hm]
  · exact ⟨nofun, hq⟩
  · exact ⟨nofun, he⟩

end Ends

/-- However `m` ends from `s`: a value and its state satisfy `Q`, the state of an error
return satisfies `E`, and of a run that hangs nothing is said. -/
structure Post (m : Exec σ α) (s : σ) (Q : α → σ → Prop) (E : σ → Prop) : Prop where
  ok : ∀ a s', m s = (.ok a, s') → Q a s'
  fail : ∀ s', m s = (.fail, s') → E s'

namespace Post

variable {m : Exec σ α} {f : α → Exec σ β} {s : σ} {Q : α → σ → Prop} {T : β → σ → Prop} {E : σ → Prop}

theorem pure {a : α} (h : Q a s) : Post (Pure.pure a : Exec σ α) s Q E where
  ok _ _ heq := by cases heq; exact h
  fail _ heq := by cases heq

theorem error (h : E s) : Post (Exec.fail : Exec σ α) s Q E where
  ok _ _ heq := by cases heq
  fail _ heq := by cases heq; exact h

theorem hang : Post (Exec.hang : Exec σ α) s Q E where
  ok _ _ heq := by cases heq
  fail _ heq := by cases heq

variable {Q' : α → σ → Prop} {E' : σ → Prop} {g : σ → σ} {p : Prop}

theorem and (h : Post m s Q E) (h' : Post m s Q' E') :
    Post m s (fun a t => Q a t ∧ Q' a t) (fun t => E t ∧ E' t) where
  ok a t heq := ⟨h.ok a t heq, h'.ok a t heq⟩
  fail t heq := ⟨h.fail t heq, h'.fail t heq⟩

theorem run (m : Exec σ α) (s : σ) : Post m s (fun a s' => m s = (.ok a, s')) fun s' => m s = (.fail, s') := ⟨fun _ _ h => h, fun _ h => h⟩

theorem modify {Q : Unit → σ → Prop} (h : Q () (g s)) : Post (Exec.modify g) s Q E where
  ok _ _ heq := by cases heq; exact h
  fail _ heq := by cases heq

theorem gets_bind {γ : Type} {g : σ → γ} {f : γ → Exec σ β} (h : Post (f (g s)) s T E) : Post (Exec.gets g >>= f) s T E where
  ok := h.ok
  fail := h.fail

theorem modify_bind {f : Unit → Exec σ β} (h : Post (f ()) (g s) T E) : Post (Exec.modify g >>= f) s T E where
  ok := h.ok
  fail := h.fail

theorem bind (h : Post m s Q E') (hE : ∀ s', E' s' → E s') (hf : ∀ a s', Q a s' → Post (f a) s' T E) :
    Post (m >>= f) s T E := by
  rcases hm : m s with ⟨a | _ | _, s'⟩
  · have hpost := hf a s' (h.ok a s' hm)
    exact ⟨fun b t ht => hpost.ok b t ((bind_ok hm).symm.trans ht), fun t ht => hpost.fail t ((bind_ok hm).symm.trans ht)⟩
  · refine ⟨fun b t ht => ?_, fun t ht => ?_⟩ <;> rw [bind_fail hm] at ht <;> cases ht
    exact hE s' (h.fail s' hm)
  · refine ⟨fun b t ht => ?_, fun t ht => ?_⟩ <;> rw [bind_hang hm] at ht <;> cases ht

theorem require_bind [Decidable p] {f : Unit → Exec σ β} (hf : p → Post (f ()) s T E) (he : ¬ p → E s) :
    Post (Exec.require p >>= f) s T E := by
  by_cases hp : p
  · rw [require_pos hp]
    exact hf hp
  · rw [require_neg hp]
    exact error (he hp)

theorem mono (h : Post m s Q E) (hQ : ∀ a s', Q a s' → Q' a s')
    (hE : ∀ s', E s' → E' s') : Post m s Q' E' :=
  ⟨fun a s' hm => hQ a s' (h.ok a s' hm), fun s' hm => hE s' (h.fail s' hm)⟩

theorem never_fails (h : Post m s Q E) (hE : ∀ s', ¬ E s') : Post m s Q fun _ => False := h.mono (fun _ _ hq => hq) hE

/-- The error path starts where the program failed. -/
theorem orElse {h' : Exec σ Unit} (h : Post m s Q E') (hh : ∀ s', E' s' → Post h' s' (fun _ => E) E) :
    Post (Exec.orElse m h') s Q E := by
  rcases hm : m s with ⟨a | _ | _, s'⟩
  · have heq := orElse_ok (h := h') hm
    exact ⟨fun b t ht => h.ok b t (hm.trans (heq.symm.trans ht)), fun t ht => by rw [heq] at ht; cases ht⟩
  · have hpost := hh s' (h.fail s' hm)
    rcases hr : h' s' with ⟨_ | _ | _, t'⟩
    · have heq := orElse_fail hm hr
      refine ⟨fun b t ht => ?_, fun t ht => ?_⟩ <;> rw [heq] at ht <;> cases ht
      exact hpost.ok _ _ hr
    · have heq : Exec.orElse m h' s = (.fail, t') := by
        rw [Exec.orElse, bind_ok (attempt_fail hm)]
        exact bind_fail hr
      refine ⟨fun b t ht => ?_, fun t ht => ?_⟩ <;> rw [heq] at ht <;> cases ht
      exact hpost.fail _ hr
    · have heq : Exec.orElse m h' s = (.hang, t') := by
        rw [Exec.orElse, bind_ok (attempt_fail hm)]
        exact bind_hang hr
      refine ⟨fun b t ht => ?_, fun t ht => ?_⟩ <;> rw [heq] at ht <;> cases ht
  · have heq := orElse_hang (h := h') hm
    refine ⟨fun b t ht => ?_, fun t ht => ?_⟩ <;> rw [heq] at ht <;> cases ht

theorem attempt_bind {f : Option α → Exec σ β} (h : Post m s Q E') (hok : ∀ a s', Q a s' → Post (f (some a)) s' T E)
    (hfail : ∀ s', E' s' → Post (f none) s' T E) : Post (Exec.attempt m >>= f) s T E := by
  have hattempt : Post (Exec.attempt m) s (fun o s' => (∃ a, o = some a ∧ Q a s') ∨ o = none ∧ E' s') fun _ => False := by
    rcases hm : m s with ⟨a | _ | _, s'⟩
    · refine ⟨fun b t ht => ?_, fun t ht => ?_⟩ <;> rw [attempt_ok hm] at ht <;> cases ht
      exact .inl ⟨a, rfl, h.ok a s' hm⟩
    · refine ⟨fun b t ht => ?_, fun t ht => ?_⟩ <;> rw [attempt_fail hm] at ht <;> cases ht
      exact .inr ⟨rfl, h.fail s' hm⟩
    · refine ⟨fun b t ht => ?_, fun t ht => ?_⟩ <;> rw [attempt_hang hm] at ht <;> cases ht
  apply hattempt.bind fun _ h => h.elim
  rintro o s' (⟨a, rfl, hq⟩ | ⟨rfl, he⟩)
  · exact hok a s' hq
  · exact hfail s' he

/-- A fold, with an invariant that knows the items done so far. -/
theorem foldlM {γ : Type} {f : β → γ → Exec σ β} {l : List γ} {b : β} {I : List γ → β → σ → Prop} (h : I [] b s)
    (hf : ∀ (done rest : List γ) (c : γ) (b : β) (s : σ), l = done ++ c :: rest → I done b s → Post (f b c) s (I (done ++ [c])) E) :
    Post (l.foldlM f b) s (I l) E := by
  have hgen : ∀ (rest done : List γ) (b : β) (s : σ), l = done ++ rest → I done b s → Post (rest.foldlM f b) s (I l) E := by
    intro rest
    induction rest with
    | nil =>
      intro done b s hl hI
      rw [List.append_nil] at hl
      rw [hl]
      exact pure hI
    | cons c rest ih =>
      intro done b s hl hI
      rw [List.foldlM_cons]
      apply (hf done rest c b s hl hI).bind fun _ h => h
      intro b' s' hI'
      exact ih (done ++ [c]) b' s' (by rw [hl, List.append_assoc]; rfl) hI'
  exact hgen l [] b s rfl h

/-- A check with an error path in front of a program. -/
theorem orElse_require_bind [Decidable p] {h' : Exec σ Unit} {f : Unit → Exec σ β} (hf : p → Post (f ()) s T E)
    (he : ¬ p → Post h' s (fun _ => E) E) : Post (Exec.orElse (Exec.require p) h' >>= f) s T E := by
  by_cases hp : p
  · rw [require_pos hp]
    exact hf hp
  · have hpost : Post (Exec.orElse (Exec.require p) h') s (fun _ _ => False) E := by
      rw [require_neg hp]
      apply orElse (error (E := (· = s)) rfl)
      rintro s' rfl
      exact he hp
    exact hpost.bind (fun _ h => h) fun _ _ h => h.elim

end Post

namespace Ends

variable {m : Exec σ α} {f : α → Exec σ β} {s : σ} {Q : α → σ → Prop} {T : β → σ → Prop} {E : σ → Prop}

variable {Q' : α → σ → Prop} {E' : σ → Prop}

theorem of_post (h : Ends m s Q' E') (hp : Post m s Q E) : Ends m s Q E := by
  rcases h with ⟨a, s', hm, -⟩ | ⟨s', hm, -⟩
  · exact .inl ⟨a, s', hm, hp.ok a s' hm⟩
  · exact .inr ⟨s', hm, hp.fail s' hm⟩

theorem post (h : Ends m s Q E) : Post m s Q E := by
  rcases h with ⟨a, s', hm, hq⟩ | ⟨s', hm, he⟩
  · refine ⟨fun b t ht => ?_, fun t ht => ?_⟩ <;> rw [hm] at ht <;> cases ht
    exact hq
  · refine ⟨fun b t ht => ?_, fun t ht => ?_⟩ <;> rw [hm] at ht <;> cases ht
    exact he

theorem and_post (h : Ends m s Q E) (hp : Post m s Q' E') :
    Ends m s (fun a t => Q a t ∧ Q' a t) fun t => E t ∧ E' t := by
  rcases h with ⟨a, s', hm, hq⟩ | ⟨s', hm, he⟩
  · exact .inl ⟨a, s', hm, hq, hp.ok a s' hm⟩
  · exact .inr ⟨s', hm, he, hp.fail s' hm⟩

/-- The error path starts where the program failed. -/
theorem orElse {h' : Exec σ Unit} (h : Ends m s Q E') (hh : ∀ s', E' s' → Ends h' s' (fun _ => E) E) :
    Ends (Exec.orElse m h') s Q E := by
  rcases h with ⟨a, s', hm, hq⟩ | ⟨s', hm, he⟩
  · exact .inl ⟨a, s', orElse_ok hm, hq⟩
  · rcases hh s' he with ⟨_, t, hrun, ht⟩ | ⟨t, hrun, ht⟩
    · exact .inr ⟨t, orElse_fail hm hrun, ht⟩
    · refine .inr ⟨t, ?_, ht⟩
      rw [Exec.orElse, bind_ok (attempt_fail hm)]
      exact Exec.bind_fail hrun

/-- A check with an error path in front of a program. -/
theorem orElse_require_bind {p : Prop} [Decidable p] {h' : Exec σ Unit} {f : Unit → Exec σ β} (hf : p → Ends (f ()) s T E)
    (he : ¬ p → Ends h' s (fun _ => E) E) : Ends (Exec.orElse (Exec.require p) h' >>= f) s T E := by
  have hcheck : Ends (Exec.require p) s (fun _ s' => s' = s ∧ p) fun s' => s' = s ∧ ¬ p := require (fun hp => ⟨rfl, hp⟩) fun hp => ⟨rfl, hp⟩
  apply (orElse hcheck _).bind
  · rintro _ _ ⟨rfl, hp⟩
    exact hf hp
  · rintro _ ⟨rfl, hp⟩
    exact he hp

/-- A loop, with an invariant that knows the items done so far. -/
theorem forM {γ : Type} {f : γ → Exec σ Unit} {l : List γ} {I : List γ → σ → Prop} (h : I [] s)
    (hf : ∀ (done rest : List γ) (c : γ) (s : σ), l = done ++ c :: rest → I done s → Ends (f c) s (fun _ => I (done ++ [c])) E) :
    Ends (l.forM f) s (fun _ => I l) E := by
  have hgen : ∀ (rest done : List γ) (s : σ), l = done ++ rest → I done s → Ends (rest.forM f) s (fun _ => I l) E := by
    intro rest
    induction rest with
    | nil =>
      intro done s hl hI
      rw [List.append_nil] at hl
      rw [hl]
      exact pure hI
    | cons c rest ih =>
      intro done s hl hI
      apply (hf done rest c s hl hI).bind
      intro _ s' hI'
      exact ih (done ++ [c]) s' (by rw [hl, List.append_assoc]; rfl) hI'
  exact hgen l [] s rfl h

end Ends

/-- From `s`, `m` ends and changes nothing; a value it returns satisfies `Q`. -/
def Reads (m : Exec σ α) (s : σ) (Q : α → Prop) : Prop := Ends m s (fun a s' => s' = s ∧ Q a) (· = s)

namespace Reads

variable {m : Exec σ α} {f : α → Exec σ β} {s : σ} {Q : α → Prop} {T : β → Prop}

theorem pure {a : α} (h : Q a) : Reads (Pure.pure a : Exec σ α) s Q := Ends.pure ⟨rfl, h⟩

theorem fail : Reads (Exec.fail : Exec σ α) s Q := Ends.fail rfl

theorem gets {g : σ → α} (h : Q (g s)) : Reads (Exec.gets g) s Q := .inl ⟨g s, s, rfl, rfl, h⟩

theorem gets_bind {γ : Type} {g : σ → γ} {f : γ → Exec σ β} (h : Reads (f (g s)) s T) :
    Reads (Exec.gets g >>= f) s T := h

theorem bind (h : Reads m s Q) (hf : ∀ a, Q a → Reads (f a) s T) : Reads (m >>= f) s T :=
  Ends.bind h fun a _ hq => hq.1 ▸ hf a hq.2

theorem require_bind {p : Prop} [Decidable p] {f : Unit → Exec σ β} (hf : p → Reads (f ()) s T) :
    Reads (Exec.require p >>= f) s T := Ends.require_bind hf fun _ => rfl

theorem ofOption_bind {o : Option α} (hf : ∀ a, o = some a → Reads (f a) s T) :
    Reads (Exec.ofOption o >>= f) s T := Ends.ofOption_bind hf fun _ => rfl

theorem bind_ends {T : β → σ → Prop} {E : σ → Prop} (h : Reads m s Q) (hf : ∀ a, Q a → Ends (f a) s T E)
    (he : E s) : Ends (m >>= f) s T E :=
  Ends.bind (h.mono (fun _ _ hq => hq) fun _ hs => hs ▸ he) fun a _ hq => hq.1 ▸ hf a hq.2

end Reads

/-! ### Frames -/

/-- However `m` ends, it leaves the part `f` of the state as it was. -/
def Keeps {τ : Type} (f : σ → τ) (m : Exec σ α) : Prop := ∀ s, f (m s).2 = f s

namespace Keeps

variable {τ : Type} {g : σ → τ} {m : Exec σ α} {f : α → Exec σ β}

theorem pure {a : α} : Keeps g (Pure.pure a : Exec σ α) := fun _ => rfl

theorem fail : Keeps g (Exec.fail : Exec σ α) := fun _ => rfl

theorem hang : Keeps g (Exec.hang : Exec σ α) := fun _ => rfl

theorem gets {h : σ → α} : Keeps g (Exec.gets h) := fun _ => rfl

theorem modify {h : σ → σ} (hg : ∀ s, g (h s) = g s) : Keeps g (Exec.modify h) := hg

theorem bind (hm : Keeps g m) (hf : ∀ a, Keeps g (f a)) : Keeps g (m >>= f) := fun s =>
  bind_state (I := fun t => g t = g s) (hm s) fun a t ht => (hf a t).trans ht

theorem gets_bind {γ : Type} {h : σ → γ} {f : γ → Exec σ β} (hf : ∀ c, Keeps g (f c)) :
    Keeps g (Exec.gets h >>= f) := fun s => hf (h s) s

variable {p : Prop} {o : Option α}

theorem require [Decidable p] : Keeps g (Exec.require p) := by
  by_cases hp : p
  · rw [require_pos hp]
    exact pure
  · rw [require_neg hp]
    exact fail

theorem ofOption : Keeps g (Exec.ofOption o) := by
  cases o with
  | none => exact fail
  | some a => exact pure

theorem require_bind [Decidable p] {f : Unit → Exec σ β} (hf : p → Keeps g (f ())) :
    Keeps g (Exec.require p >>= f) := by
  by_cases hp : p
  · rw [require_pos hp]
    exact hf hp
  · rw [require_neg hp]
    exact fail

theorem ofOption_bind (hf : ∀ a, o = some a → Keeps g (f a)) : Keeps g (Exec.ofOption o >>= f) := by
  cases o with
  | none => exact fail
  | some a => exact hf a rfl

theorem orElse {h : Exec σ Unit} (hm : Keeps g m) (hh : Keeps g h) : Keeps g (Exec.orElse m h) := fun s =>
  orElse_state (I := fun t => g t = g s) (hm s) fun t ht => (hh t).trans ht

theorem ignore (hm : Keeps g m) : Keeps g (Exec.ignore m) := hm.bind fun _ => pure

theorem attempt (hm : Keeps g m) : Keeps g (Exec.attempt m) := by
  intro s
  have hs := hm s
  rw [attempt_apply]
  rcases h : m s with ⟨a | _ | _, t⟩ <;> rw [h] at hs <;> exact hs

theorem ite [Decidable p] {m' : Exec σ α} (hm : Keeps g m) (hm' : Keeps g m') : Keeps g (if p then m else m') := by
  by_cases hp : p
  · rw [if_pos hp]
    exact hm
  · rw [if_neg hp]
    exact hm'

theorem comp {τ' : Type} (h : Keeps g m) (k : τ → τ') : Keeps (fun s => k (g s)) m := fun s => congrArg k (h s)

end Keeps

/-! ### Invariants -/

/-- However `m` ends, it leads from states in `I` to states in `I`. -/
def Preserves (I : σ → Prop) (m : Exec σ α) : Prop := ∀ s, I s → I (m s).2

namespace Preserves

variable {I : σ → Prop} {m : Exec σ α} {f : α → Exec σ β}

theorem pure {a : α} : Preserves I (Pure.pure a : Exec σ α) := fun _ hs => hs

theorem hang : Preserves I (Exec.hang : Exec σ α) := fun _ hs => hs

variable {g : σ → σ}

theorem modify (hg : ∀ s, I s → I (g s)) : Preserves I (Exec.modify g) := hg

theorem gets {h : σ → α} : Preserves I (Exec.gets h) := fun _ hs => hs

theorem bind (hm : Preserves I m) (hf : ∀ a, Preserves I (f a)) : Preserves I (m >>= f) := fun s hs =>
  bind_state (hm s hs) fun a t ht => hf a t ht

theorem ignore (hm : Preserves I m) : Preserves I (Exec.ignore m) := hm.bind fun _ => pure

theorem gets_bind {γ : Type} {h : σ → γ} {f : γ → Exec σ β} (hf : ∀ s, I s → I (f (h s) s).2) :
    Preserves I (Exec.gets h >>= f) := hf

theorem modify_bind {f : Unit → Exec σ β} (hg : ∀ s, I s → I (g s)) (hf : Preserves I (f ())) :
    Preserves I (Exec.modify g >>= f) := (modify hg).bind fun _ => hf

theorem read_bind {γ : Type} {h : σ → γ} {f : γ → Exec σ β} (hf : ∀ c, Preserves I (f c)) : Preserves I (Exec.gets h >>= f) :=
  gets.bind hf

theorem ofOption_bind {o : Option α} (hf : ∀ a, o = some a → Preserves I (f a)) : Preserves I (Exec.ofOption o >>= f) :=
  fun s hs => ofOption_bind_state hs fun a ha => hf a ha s hs

end Preserves

/-! ### Two runs side by side -/

/-- From related states, `m` and `m'` end in related states with the same
outcome, and a value they return satisfies `Q`. With `R` the identity on the
states of an invariant this is the preservation of the invariant. -/
def Sim (R : σ → σ → Prop) (Q : α → Prop) (m m' : Exec σ α) : Prop :=
  ∀ s s', R s s' → R (m s).2 (m' s').2 ∧ (m s).1 = (m' s').1 ∧ ∀ a, (m s).1 = .ok a → Q a

namespace Sim

variable {R : σ → σ → Prop} {Q : α → Prop} {P : β → Prop} {m m' : Exec σ α}

theorem pure {a : α} (h : Q a) : Sim R Q (Pure.pure a : Exec σ α) (Pure.pure a) := by
  intro s s' hs
  refine ⟨hs, rfl, ?_⟩
  rintro b hb
  obtain rfl : a = b := by simpa using hb
  exact h

theorem fail : Sim R Q (Exec.fail : Exec σ α) Exec.fail :=
  fun _ _ hs => ⟨hs, rfl, fun _ h => by simp at h⟩

theorem hang : Sim R Q (Exec.hang : Exec σ α) Exec.hang :=
  fun _ _ hs => ⟨hs, rfl, fun _ h => by simp at h⟩

theorem mono {Q' : α → Prop} (h : Sim R Q m m') (hQ : ∀ a, Q a → Q' a) : Sim R Q' m m' := by
  intro s s' hs
  obtain ⟨h1, h2, h3⟩ := h s s' hs
  exact ⟨h1, h2, fun a ha => hQ a (h3 a ha)⟩

theorem bind {f f' : α → Exec σ β} (h : Sim R Q m m') (hf : ∀ a, Q a → Sim R P (f a) (f' a)) :
    Sim R P (m >>= f) (m' >>= f') := by
  intro s s' hs
  obtain ⟨h1, h2, h3⟩ := h s s' hs
  simp only [bind_apply]
  rcases hm : m s with ⟨a | _ | _, t⟩ <;> rcases hm' : m' s' with ⟨a' | _ | _, t'⟩ <;>
    rw [hm, hm'] at h1 h2 <;> rw [hm] at h3 <;> simp only [reduceCtorEq, Outcome.ok.injEq] at h2
  · subst h2
    exact hf a (h3 a rfl) t t' h1
  · exact ⟨h1, rfl, fun _ h => by simp at h⟩
  · exact ⟨h1, rfl, fun _ h => by simp at h⟩

theorem gets_bind {γ : Type} {g : σ → γ} {f : γ → Exec σ α} {T : γ → Prop} (hg : ∀ s s', R s s' → T (g s) ∧ T (g s'))
    (hf : ∀ c c', T c → T c' → Sim R Q (f c) (f c')) : Sim R Q (Exec.gets g >>= f) (Exec.gets g >>= f) :=
  fun s s' hs => hf (g s) (g s') (hg s s' hs).1 (hg s s' hs).2 s s' hs

theorem gets {f : σ → α} (h : ∀ s s', R s s' → f s = f s' ∧ Q (f s)) : Sim R Q (Exec.gets f) (Exec.gets f) := by
  intro s s' hs
  obtain ⟨he, hq⟩ := h s s' hs
  refine ⟨hs, by simp [he], ?_⟩
  rintro b hb
  obtain rfl : f s = b := by simpa using hb
  exact hq

theorem modify {f f' : σ → σ} {Q : Unit → Prop} (h : ∀ s s', R s s' → R (f s) (f' s'))
    (hQ : Q ()) : Sim R Q (Exec.modify f) (Exec.modify f') :=
  fun s s' hs => ⟨h s s' hs, rfl, fun _ _ => hQ⟩

theorem ofOption {o : Option α} (h : ∀ a, o = some a → Q a) :
    Sim R Q (Exec.ofOption o : Exec σ α) (Exec.ofOption o) := by
  cases o with
  | none => exact fail
  | some a => exact pure (h a rfl)

theorem require {p : Prop} [Decidable p] : Sim R (fun _ => p) (Exec.require p : Exec σ Unit) (Exec.require p) := by
  by_cases hp : p
  · rw [require_pos hp]; exact pure hp
  · rw [require_neg hp]; exact fail

theorem attempt (h : Sim R Q m m') : Sim R (fun o => ∀ a, o = some a → Q a) (Exec.attempt m) (Exec.attempt m') := by
  intro s s' hs
  obtain ⟨h1, h2, h3⟩ := h s s' hs
  simp only [attempt_apply]
  rcases hm : m s with ⟨a | _ | _, t⟩ <;> rcases hm' : m' s' with ⟨a' | _ | _, t'⟩ <;>
    rw [hm, hm'] at h1 h2 <;> rw [hm] at h3 <;> simp only [reduceCtorEq, Outcome.ok.injEq] at h2
  · subst h2
    refine ⟨h1, rfl, fun o ho b hb => ?_⟩
    obtain rfl : some a = o := by simpa using ho
    exact h3 b (by simpa using hb)
  · refine ⟨h1, rfl, fun o ho b hb => ?_⟩
    obtain rfl : none = o := by simpa using ho
    simp at hb
  · exact ⟨h1, rfl, fun _ h => by simp at h⟩

theorem orElse {h : Exec σ Unit} (hm : Sim R Q m m') (hh : Sim R (fun _ => True) h h) :
    Sim R Q (Exec.orElse m h) (Exec.orElse m' h) := by
  refine hm.attempt.bind fun o ho => ?_
  cases o with
  | some a => exact pure (ho a rfl)
  | none => exact hh.bind fun _ _ => fail

variable {I : σ → Prop}

theorem of_invariant (h : ∀ s, I s → I (m s).2) :
    Sim (fun s s' => s = s' ∧ I s) (fun _ => True) m m := by
  rintro s s' ⟨rfl, hs⟩
  exact ⟨⟨rfl, h s hs⟩, rfl, fun _ _ => trivial⟩

theorem invariant (h : Sim (fun s s' => s = s' ∧ I s) Q m m) {s : σ} (hs : I s) : I (m s).2 :=
  (h s s ⟨rfl, hs⟩).1.2

/-- Programs that evaluate alike from every assertion `A v` are related by
`A v` holding on both sides. -/
theorem of_evals {ν : Type} {A : ν → σ → Prop} (h : ∀ v, ∃ o v', Evals (A v) m o (A v') ∧ Evals (A v) m' o (A v')) :
    Sim (fun s s' => ∃ v, A v s ∧ A v s') (fun _ => True) m m' := by
  rintro s s' ⟨v, hs, hs'⟩
  obtain ⟨o, v', h₁, h₂⟩ := h v
  obtain ⟨t, ht, htv⟩ := h₁ s hs
  obtain ⟨t', ht', htv'⟩ := h₂ s' hs'
  exact ⟨⟨v', by rwa [ht], by rwa [ht']⟩, by rw [ht, ht'], fun _ _ => trivial⟩

end Sim

end Exec

end Tg11Kernel.Lib
