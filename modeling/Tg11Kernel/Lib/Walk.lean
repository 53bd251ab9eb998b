import Tg11Kernel.Lib.Exec
import Mathlib.Logic.Relation

/-! Programs as walks. A relation says what one elementary move of a system does to its
state; a program walks when it leads along such moves, however it ends. The moves of a
program are found once. What every move preserves, the program preserves. -/

namespace Tg11Kernel.Lib.Exec

open Relation

variable {σ α β : Type} {Move : σ → σ → Prop}

/-- From `s`, the program leads along moves. -/
def Leads (Move : σ → σ → Prop) (m : Exec σ α) (s : σ) : Prop := ReflTransGen Move s (m s).2

/-- From every state, the program leads along moves. -/
def Walks (Move : σ → σ → Prop) (m : Exec σ α) : Prop := ∀ s, Leads Move m s

theorem Leads.bind {m : Exec σ α} {f : α → Exec σ β} {s : σ} (hm : Leads Move m s)
    (hf : ∀ a t, ReflTransGen Move s t → Leads Move (f a) t) : Leads Move (m >>= f) s := by
  unfold Leads at hm ⊢
  rw [bind_apply]
  rcases hms : m s with ⟨a | _ | _, t⟩ <;> rw [hms] at hm
  · exact hm.trans (hf a t hm)
  · exact hm
  · exact hm

namespace Walks

variable {m : Exec σ α} {f : α → Exec σ β}

theorem pure {a : α} : Walks Move (Pure.pure a : Exec σ α) := fun _ => .refl

theorem fail : Walks Move (Exec.fail : Exec σ α) := fun _ => .refl

theorem hang : Walks Move (Exec.hang : Exec σ α) := fun _ => .refl

theorem gets {g : σ → α} : Walks Move (Exec.gets g) := fun _ => .refl

theorem modify {g : σ → σ} (hg : ∀ s, Move s (g s)) : Walks Move (Exec.modify g) := fun s => .single (hg s)

theorem bind (hm : Walks Move m) (hf : ∀ a, Walks Move (f a)) : Walks Move (m >>= f) :=
  fun s => (hm s).bind fun a t _ => hf a t

theorem read_bind {γ : Type} {g : σ → γ} {f : γ → Exec σ β} (hf : ∀ c, Walks Move (f c)) : Walks Move (Exec.gets g >>= f) :=
  gets.bind hf

theorem modify_bind {g : σ → σ} {f : Unit → Exec σ β} (hg : ∀ s, Move s (g s)) (hf : Walks Move (f ())) :
    Walks Move (Exec.modify g >>= f) := (modify hg).bind fun _ => hf

theorem ofOption_bind {o : Option α} (hf : ∀ a, o = some a → Walks Move (f a)) : Walks Move (Exec.ofOption o >>= f) := by
  cases o with
  | none => exact fail
  | some a => exact hf a rfl

theorem ignore (hm : Walks Move m) : Walks Move (Exec.ignore m) := hm.bind fun _ => pure

theorem mono {Move' : σ → σ → Prop} (h : Walks Move m) (hmove : ∀ s t, Move s t → Move' s t) : Walks Move' m :=
  fun s => ReflTransGen.mono hmove _ _ (h s)

end Walks

/-- What every move preserves, a walk preserves. -/
theorem invariant_of_moves {I : σ → Prop} (hmove : ∀ s t, I s → Move s t → I t) {s t : σ} (h : ReflTransGen Move s t) (hs : I s) :
    I t := by
  induction h with
  | refl => exact hs
  | tail _ hstep ih => exact hmove _ _ ih hstep

end Tg11Kernel.Lib.Exec

/-! Contracts. What a program does from one state is promised in four parts. However
it ends, it leads along moves. If it returns a value, the value satisfies `Q` and a
view of the state is as it was. An error return keeps a part of the view, its frame, and
a run that hangs keeps another part, which it holds. If a condition `P` holds, the
program hangs only in a state that `Stuck` describes. The other parts do not depend on
`P`, so what holds of a run that had too little fuel can still be used. -/

namespace Tg11Kernel.Lib.Exec

open Relation

variable {σ τ ρ κ α β : Type} {Move : σ → σ → Prop} {view : σ → τ} {frame : τ → ρ} {held : τ → κ} {Stuck : σ → Prop}
  {P P' : Prop}

structure Contract (Move : σ → σ → Prop) (view : σ → τ) (frame : τ → ρ) (held : τ → κ) (Stuck : σ → Prop) (P : Prop)
    (m : Exec σ α) (s : σ) (Q : α → Prop) : Prop where
  walk : Leads Move m s
  ok : ∀ a t, m s = (.ok a, t) → view t = view s ∧ Q a
  fail : ∀ t, m s = (.fail, t) → frame (view t) = frame (view s)
  hang : ∀ t, m s = (.hang, t) → held (view t) = held (view s) ∧ (P → Stuck t)

namespace Contract

variable {m : Exec σ α} {f : α → Exec σ β} {s : σ} {Q : α → Prop} {T : β → Prop}

/-- One run, when its outcome is known. -/
theorem of_eq {o : Outcome α} {t : σ} (h : m s = (o, t)) (hwalk : ReflTransGen Move s t)
    (hok : ∀ a, o = .ok a → view t = view s ∧ Q a) (hfail : o = .fail → frame (view t) = frame (view s))
    (hhang : o = .hang → held (view t) = held (view s) ∧ (P → Stuck t)) : Contract Move view frame held Stuck P m s Q where
  walk := by
    unfold Leads
    rwa [h]
  ok a u hu := by
    rw [h] at hu
    cases hu
    exact hok a rfl
  fail u hu := by
    rw [h] at hu
    cases hu
    exact hfail rfl
  hang u hu := by
    rw [h] at hu
    cases hu
    exact hhang rfl

theorem pure {a : α} (h : Q a) : Contract Move view frame held Stuck P (Pure.pure a : Exec σ α) s Q :=
  of_eq (pure_apply a s) .refl (fun b hb => by cases hb; exact ⟨rfl, h⟩) nofun nofun

theorem error : Contract Move view frame held Stuck P (Exec.fail : Exec σ α) s Q :=
  of_eq (fail_apply s) .refl nofun (fun _ => rfl) nofun

theorem hang_of (h : ¬ P) : Contract Move view frame held Stuck P (Exec.hang : Exec σ α) s Q :=
  of_eq (hang_apply s) .refl nofun nofun fun _ => ⟨rfl, fun hP => (h hP).elim⟩

theorem gets {g : σ → α} (h : Q (g s)) : Contract Move view frame held Stuck P (Exec.gets g) s Q :=
  of_eq (gets_apply g s) .refl (fun b hb => by cases hb; exact ⟨rfl, h⟩) nofun nofun

theorem imp (h : Contract Move view frame held Stuck P' m s Q) (hP : P → P') : Contract Move view frame held Stuck P m s Q :=
  ⟨h.walk, h.ok, h.fail, fun t ht => ⟨(h.hang t ht).1, fun hp => (h.hang t ht).2 (hP hp)⟩⟩

theorem mono {Q' : α → Prop} (h : Contract Move view frame held Stuck P m s Q) (hQ : ∀ a, Q a → Q' a) :
    Contract Move view frame held Stuck P m s Q' :=
  ⟨h.walk, fun a t hm => ⟨(h.ok a t hm).1, hQ a (h.ok a t hm).2⟩, h.fail, h.hang⟩

/-- A run that goes on as another one, from a state where the view is the same unless an
error is returned. -/
theorem of_rest {m : Exec σ β} {m' : Exec σ β} {t : σ} (heq : m s = m' t) (hwalk : ReflTransGen Move s t)
    (hview : ∀ o u, m' t = (o, u) → o ≠ .fail → view t = view s) (hframe : frame (view t) = frame (view s))
    (h : Contract Move view frame held Stuck P m' t T) : Contract Move view frame held Stuck P m s T := by
  obtain ⟨hwalk', hok, hfail, hhang⟩ := h
  apply of_eq (heq.trans (Prod.ext rfl rfl)) (hwalk.trans hwalk')
  · intro b hb
    obtain ⟨hview', ht⟩ := hok b _ (Prod.ext hb rfl)
    exact ⟨hview'.trans (hview (.ok b) _ (Prod.ext hb rfl) nofun), ht⟩
  · intro hb
    exact (hfail _ (Prod.ext hb rfl)).trans hframe
  · intro hb
    obtain ⟨hheld, hstuck⟩ := hhang _ (Prod.ext hb rfl)
    exact ⟨hheld.trans (congrArg held (hview .hang _ (Prod.ext hb rfl) nofun)), hstuck⟩

theorem bind (h : Contract Move view frame held Stuck P m s Q)
    (hf : ∀ a t, Q a → view t = view s → ReflTransGen Move s t → Contract Move view frame held Stuck P (f a) t T) :
    Contract Move view frame held Stuck P (m >>= f) s T := by
  obtain ⟨hwalk, hok, hfail, hhang⟩ := h
  unfold Leads at hwalk
  rcases hm : m s with ⟨a | _ | _, t⟩ <;> rw [hm] at hwalk
  · obtain ⟨hview, hq⟩ := hok a t hm
    exact of_rest (bind_ok hm) hwalk (fun _ _ _ _ => hview) (congrArg frame hview) (hf a t hq hview hwalk)
  · exact of_eq (bind_fail hm) hwalk nofun (fun _ => hfail t hm) nofun
  · exact of_eq (bind_hang hm) hwalk nofun nofun fun _ => hhang t hm

theorem gets_bind {γ : Type} {g : σ → γ} {f : γ → Exec σ β} (h : Contract Move view frame held Stuck P (f (g s)) s T) :
    Contract Move view frame held Stuck P (Exec.gets g >>= f) s T := ⟨h.walk, h.ok, h.fail, h.hang⟩

theorem modify_bind {g : σ → σ} {f : Unit → Exec σ β} (hmove : Move s (g s)) (hview : view (g s) = view s)
    (hf : Contract Move view frame held Stuck P (f ()) (g s) T) : Contract Move view frame held Stuck P (Exec.modify g >>= f) s T :=
  of_rest (bind_ok (modify_apply g s)) (.single hmove) (fun _ _ _ _ => hview) (congrArg frame hview) hf

theorem require_bind {c : Prop} [Decidable c] {f : Unit → Exec σ β} (hf : c → Contract Move view frame held Stuck P (f ()) s T) :
    Contract Move view frame held Stuck P (Exec.require c >>= f) s T := by
  by_cases hc : c
  · rw [require_pos hc]
    exact hf hc
  · rw [require_neg hc]
    exact error

theorem ofOption {o : Option α} (h : ∀ a, o = some a → Q a) : Contract Move view frame held Stuck P (Exec.ofOption o) s Q := by
  cases o with
  | none => exact error
  | some a => exact pure (h a rfl)

theorem ofOption_bind {o : Option α} (hf : ∀ a, o = some a → Contract Move view frame held Stuck P (f a) s T) :
    Contract Move view frame held Stuck P (Exec.ofOption o >>= f) s T := by
  cases o with
  | none => exact error
  | some a => exact hf a rfl

/-- The error path may do what it likes, if it leads along moves, keeps the frame and comes back. -/
theorem orElse {h' : Exec σ Unit} (h : Contract Move view frame held Stuck P m s Q) (hwalk' : Walks Move h')
    (hframe' : ∀ t, frame (view (h' t).2) = frame (view t)) (hends : ∀ t, (h' t).1 ≠ .hang) :
    Contract Move view frame held Stuck P (Exec.orElse m h') s Q := by
  obtain ⟨hwalk, hok, hfail, hhang⟩ := h
  unfold Leads at hwalk
  rcases hm : m s with ⟨a | _ | _, t⟩ <;> rw [hm] at hwalk
  · apply of_eq (orElse_ok hm) hwalk
    · intro b hb
      cases hb
      exact hok a t hm
    · intro hfailed
      cases hfailed
    · intro hhung
      cases hhung
  · have hrun : (h' >>= fun _ => (Exec.fail : Exec σ α)) t = (.fail, (h' t).2) := by
      rcases hh : h' t with ⟨_ | _ | _, v⟩
      · exact bind_ok hh
      · exact bind_fail hh
      · exact absurd (congrArg Prod.fst hh) (hends t)
    have heq : Exec.orElse m h' s = (.fail, (h' t).2) := by
      rw [Exec.orElse, bind_ok (attempt_fail hm)]
      exact hrun
    apply of_eq heq (hwalk.trans (hwalk' t))
    · intro _ hdone
      cases hdone
    · intro _
      exact (hframe' t).trans (hfail t hm)
    · intro hhung
      cases hhung
  · apply of_eq (orElse_hang hm) hwalk
    · intro _ hdone
      cases hdone
    · intro hfailed
      cases hfailed
    · exact fun _ => hhang t hm

/-- After a failure only the frame is known, so the rest has to fail or to have the view as
it was. -/
theorem attempt_bind {f : Option α → Exec σ β} (h : Contract Move view frame held Stuck P m s Q)
    (hok : ∀ a t, Q a → view t = view s → ReflTransGen Move s t → Contract Move view frame held Stuck P (f (some a)) t T)
    (hfail : ∀ t, m s = (.fail, t) → frame (view t) = frame (view s) → ReflTransGen Move s t →
      Contract Move view frame held Stuck P (f none) t T)
    (hview : ∀ t o u, m s = (.fail, t) → f none t = (o, u) → o ≠ .fail → view t = view s) :
    Contract Move view frame held Stuck P (Exec.attempt m >>= f) s T := by
  obtain ⟨hwalk, hvalue, hframe, hhang⟩ := h
  unfold Leads at hwalk
  rcases hm : m s with ⟨a | _ | _, t⟩ <;> rw [hm] at hwalk
  · obtain ⟨hviewt, hq⟩ := hvalue a t hm
    exact of_rest (bind_ok (attempt_ok hm)) hwalk (fun _ _ _ _ => hviewt) (congrArg frame hviewt) (hok a t hq hviewt hwalk)
  · exact of_rest (bind_ok (attempt_fail hm)) hwalk (fun o u hu ho => hview t o u hm hu ho) (hframe t hm)
      (hfail t hm (hframe t hm) hwalk)
  · exact of_eq (bind_hang (attempt_hang hm)) hwalk nofun nofun fun _ => hhang t hm

/-- A program that moves, keeps the view and comes back. -/
theorem of_ends (hwalk : Leads Move m s) (hview : view (m s).2 = view s) (hends : (m s).1 ≠ .hang) :
    Contract Move view frame held Stuck P m s fun _ => True :=
  of_eq (Prod.ext rfl rfl) hwalk (fun _ _ => ⟨hview, trivial⟩) (fun _ => congrArg frame hview) fun h => absurd h hends

end Contract

end Tg11Kernel.Lib.Exec
