import Tg11Kernel.Basic.Statements
import Tg11Kernel.Lib.Walk

/-! What the evaluation of an expression does to the history. Every program of the
interpreter moves along a few kinds of steps. A parser that returns a value has
refused no division and has left every function that it entered, and its text is
shorter. With room for the text and for the bodies of the functions that are not yet
being evaluated, a parser hangs only at a division that traps or in a function that is
called while its own body is being evaluated. -/

namespace Tg11Kernel.Basic

open Lib Lib.Exec Relation

variable {s t : Interp} {n : ℕ} {P : Prop} {α β : Type}

/-! ### Moves -/

/-- The file system operations of the interpreter. -/
inductive DiskMove (a b : Ramfs.Fs) : Prop where
  | read (path : Option Ramfs.Path) (capacity : ℕ) (h : b = (Ramfs.readFile path capacity a).2)
  | write (path : Option Ramfs.Path) (data : Option Text) (size : ℕ) (h : b = (Ramfs.writeFile path data size a).2)

/-- The steps, by what they do to the history and the file system. -/
inductive Move (s t : Interp) : Prop where
  | other (h : t.history = s.history) (hfs : t.fs = s.fs)
  | refuse (d : Division) (hd : d.divisor = 0) (h : t.history = s.history.attempt d) (hfs : t.fs = s.fs)
  | divide (d : Division) (hd : d.divisor ≠ 0) (h : t.history = (s.history.attempt d).divide d) (hfs : t.fs = s.fs)
  | enter (fn : Letter) (h : t.history = s.history.enter fn) (hfs : t.fs = s.fs)
  | leave (h : t.history = s.history.leave) (hfs : t.fs = s.fs)
  | disk (h : t.history = s.history) (hfs : DiskMove s.fs t.fs)

/-- The divisions by 0 that were asked for. -/
def History.refused (h : History) : List Division := h.attempts.filter fun d => d.divisor = 0

/-- What a program that returns a value has left as it was. -/
def Interp.view (s : Interp) : List Letter × List Division := (s.history.active, s.history.refused)

/-- A function was called while its body was being evaluated. -/
def Reentered (s : Interp) : Prop := ∃ c ∈ s.history.calls, c.fn ∈ c.active

/-- A division was asked for that the machine cannot do. -/
def Trapped (s : Interp) : Prop := ∃ d ∈ s.history.attempts, d.Traps

def Stuck (s : Interp) : Prop := Reentered s ∨ Trapped s

theorem Move.calls (h : Move s t) : s.history.calls ⊆ t.history.calls := by
  cases h with
  | enter fn h hfs =>
    rw [h]
    exact List.subset_cons_self ..
  | _ => simp_all [History.attempt, History.divide, History.leave]

theorem Move.attempts (h : Move s t) : s.history.attempts ⊆ t.history.attempts := by
  cases h with
  | refuse d _ h hfs =>
    rw [h]
    exact List.subset_cons_self ..
  | divide d _ h hfs =>
    rw [h]
    exact List.subset_cons_self ..
  | _ => simp_all [History.enter, History.leave]

theorem Move.stuck (h : Move s t) : Stuck s → Stuck t := by
  rintro (⟨c, hc, hactive⟩ | ⟨d, hd, htrap⟩)
  · exact .inl ⟨c, h.calls hc, hactive⟩
  · exact .inr ⟨d, h.attempts hd, htrap⟩

/-- A run with this contract moves, and leaves the functions that it enters. It returns a
value in `Q`, or hangs, only if no division was refused, and where `P` holds it hangs only
for a trap or a function in itself. -/
abbrev Promise (P : Prop) (m : M α) (s : Interp) (Q : α → Prop) : Prop :=
  Contract Move Interp.view Prod.fst Prod.snd Stuck P m s Q

theorem Promise.plain {m : M α} (hkeep : ∀ s, ((m s).2.history, (m s).2.fs) = (s.history, s.fs)) (hends : ∀ s, (m s).1 ≠ .hang)
    (s : Interp) : Promise P m s fun _ => True := by
  have h := hkeep s
  simp only [Prod.mk.injEq] at h
  apply Contract.of_ends (.single (.other h.1 h.2)) _ (hends s)
  unfold Interp.view
  rw [h.1]

/-! ### Divisions -/

theorem divide_promise (op : Int32 → Int32 → Int32) (a b : Int32) (s : Interp) : Promise P (divide op a b) s fun _ => True := by
  by_cases hb : b = 0
  · have heq : divide op a b s = (.fail, { s with history := s.history.attempt ⟨a, b⟩ }) := by
      unfold divide
      rw [require_neg (not_not.2 hb)]
      rfl
    exact Contract.of_eq heq (.single (.refuse ⟨a, b⟩ hb rfl rfl)) nofun (fun _ => rfl) nofun
  · have hview : ({ s with history := (s.history.attempt ⟨a, b⟩).divide ⟨a, b⟩ } : Interp).view = s.view := by
      unfold Interp.view History.refused History.divide History.attempt
      simp [hb]
    have hmove : Move s { s with history := (s.history.attempt ⟨a, b⟩).divide ⟨a, b⟩ } := .divide ⟨a, b⟩ hb rfl rfl
    by_cases htrap : Division.Traps ⟨a, b⟩
    · have heq : divide op a b s = (.hang, { s with history := (s.history.attempt ⟨a, b⟩).divide ⟨a, b⟩ }) := by
        unfold divide machineDivide
        rw [require_pos hb, if_pos htrap]
        rfl
      apply Contract.of_eq heq (.single hmove) nofun nofun
      intro _
      exact ⟨congrArg Prod.snd hview, fun _ => .inr ⟨⟨a, b⟩, List.mem_cons_self .., htrap⟩⟩
    · have heq : divide op a b s = (.ok (op a b), { s with history := (s.history.attempt ⟨a, b⟩).divide ⟨a, b⟩ }) := by
        unfold divide machineDivide
        rw [require_pos hb, if_neg htrap]
        rfl
      apply Contract.of_eq heq (.single hmove)
      · intro _ _
        exact ⟨hview, trivial⟩
      · exact nofun
      · exact nofun

/-! ### Room -/

/-- How many functions are not being evaluated. -/
def Interp.free (s : Interp) : ℕ := (Finset.univ.filter fun fn => fn ∉ s.history.active).card

/-- Room for the text and, for each function that is not being evaluated, for a body. -/
def Room (n : ℕ) (t : Interp) (s : Text) : Prop := s.length + 129 * t.free < n

theorem free_eq (h : t.view.1 = s.view.1) : t.free = s.free := by
  have hactive : t.history.active = s.history.active := h
  unfold Interp.free
  rw [hactive]

theorem Room.mono {s' : Text} {text : Text} (h : Room n s text) (hview : t.view = s.view) (hlen : s'.length ≤ text.length) :
    Room n t s' := by
  unfold Room at h ⊢
  rw [free_eq (congrArg Prod.fst hview)]
  omega

theorem Room.deeper {s' text : Text} (h : Room (n + 1) s text) (hview : t.view = s.view) (hlen : s'.length < text.length) :
    Room n t s' := by
  unfold Room at h ⊢
  rw [free_eq (congrArg Prod.fst hview)]
  omega

theorem free_enter {fn : Letter} (h : fn ∉ s.history.active) (ht : t.history = s.history.enter fn) : t.free + 1 = s.free := by
  have hset : (Finset.univ.filter fun g => g ∉ t.history.active) = (Finset.univ.filter fun g => g ∉ s.history.active).erase fn := by
    ext g
    rw [ht]
    simp [History.enter, not_or]
  unfold Interp.free
  rw [hset, Finset.card_erase_add_one (by simpa using h)]

end Tg11Kernel.Basic
