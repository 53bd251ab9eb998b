import Tg11Kernel.Basic.Run

/-! The divisions of a run. Every division operator that is evaluated is on record with
its operands, and so is every division that the machine was told to do. The interpreter
looks at the divisor only, so the machine divides whatever was asked for, except by 0. -/

namespace Tg11Kernel.Basic

open Lib Lib.Exec Relation

variable {n : ℕ} {s t : Interp}

/-- A division whose quotient is not a number of 32 bits. -/
def Division.Undefined (d : Division) : Prop := d.divisor = 0 ∨ d.Traps

/-- The machine does the divisions that were asked for and not refused. -/
def History.Divided (h : History) : Prop := h.divisions = h.attempts.filter fun d => d.divisor ≠ 0

theorem Move.divided (h : Move s t) (hs : s.history.Divided) : t.history.Divided := by
  unfold History.Divided at hs ⊢
  cases h with
  | refuse d hd h =>
    rw [h]
    simpa [History.attempt, hd] using hs
  | divide d hd h =>
    rw [h]
    simp [History.attempt, History.divide, hd, hs]
  | other h =>
    rw [h]
    exact hs
  | enter fn h =>
    rw [h]
    exact hs
  | leave h =>
    rw [h]
    exact hs
  | disk h =>
    rw [h]
    exact hs

/-- The record of a run, and what an attempt to divide by 0 makes of its end. -/
theorem basicRun_divisions (hn : 2 ≤ n) (text : Text) (hfs : Ramfs.Tree s.fs) : (basicRun n text s).2.history.Divided ∧
      ((∃ d ∈ (basicRun n text s).2.history.attempts, d.divisor = 0) → (basicRun n text s).1 = .ok (-1)) := by
  obtain ⟨hwalk, hok, hfail, hhang⟩ := runLoop_start hn text s
  unfold Leads at hwalk
  rcases hrun : runLoop (programLines text) (parsers n) n BASIC_MAX_STEPS s.start with ⟨flow | _ | _, t⟩ <;> rw [hrun] at hwalk
  all_goals
    have hdivided : t.history.Divided :=
      invariant_of_moves (I := fun u => u.history.Divided) (fun _ _ hu hmove => hmove.divided hu) hwalk rfl
    have htree := tree_of_runLoop hn hfs hrun
  · have hrefused : t.history.refused = [] := congrArg Prod.snd (hok flow t hrun).1
    have hnone : ¬ ∃ d ∈ t.history.attempts, d.divisor = 0 := by
      rintro ⟨d, hd, hzero⟩
      have hmem : d ∈ t.history.refused := List.mem_filter.2 ⟨hd, decide_eq_true hzero⟩
      rw [hrefused] at hmem
      cases hmem
    cases flow with
    | go =>
      obtain ⟨u, hu, hhist⟩ := basicRun_of_go htree hrun
      rw [hu, hhist]
      exact ⟨hdivided, fun h => absurd h hnone⟩
    | exit =>
      rw [basicRun_of_exit hrun]
      exact ⟨hdivided, fun h => absurd h hnone⟩
  · obtain ⟨u, hu, hhist⟩ := basicRun_of_fail htree hrun
    rw [hu, hhist]
    exact ⟨hdivided, fun _ => rfl⟩
  · have hrefused : t.history.refused = [] := (hhang t hrun).1
    rw [basicRun_of_hang hrun]
    refine ⟨hdivided, fun ⟨d, hd, hzero⟩ => ?_⟩
    have hmem : d ∈ t.history.refused := List.mem_filter.2 ⟨hd, decide_eq_true hzero⟩
    rw [hrefused] at hmem
    cases hmem

/-- What the machine was told to divide it can divide, and an undefined division is an
error of the run. -/
structure DividesSafely (r : Outcome Int32 × Interp) : Prop where
  defined : ∀ d ∈ r.2.history.divisions, d.divisor ≠ 0 ∧ ¬ d.Traps
  reported : (∃ d ∈ r.2.history.attempts, d.Undefined) → r.1 = .ok (-1)

/-- A run divides safely exactly when it never divides the least number by -1. -/
theorem basicRun_dividesSafely_iff (hn : 2 ≤ n) (text : Text) (hfs : Ramfs.Tree s.fs) :
    DividesSafely (basicRun n text s) ↔ ∀ d ∈ (basicRun n text s).2.history.attempts, ¬ d.Traps := by
  obtain ⟨hdivided, hzero⟩ := basicRun_divisions hn text hfs
  have hmem : ∀ d, d ∈ (basicRun n text s).2.history.divisions ↔
      d ∈ (basicRun n text s).2.history.attempts ∧ d.divisor ≠ 0 := by
    intro d
    rw [hdivided]
    simp
  constructor
  · rintro hsafe d hd htrap
    have hne : d.divisor ≠ 0 := by
      rw [htrap.2]
      decide
    exact (hsafe.defined d ((hmem d).2 ⟨hd, hne⟩)).2 htrap
  · intro hnot
    constructor
    case defined =>
      intro d hd
      obtain ⟨hattempt, hne⟩ := (hmem d).1 hd
      exact ⟨hne, hnot d hattempt⟩
    case reported =>
      rintro ⟨d, hd, hundefined⟩
      exact hzero ⟨d, hd, hundefined.resolve_right (hnot d hd)⟩

/-- A division by 0 is refused. -/
theorem basicRun_dividesSafely_zero :
    DividesSafely (basicRun 20 (chars "10 PRINT 7/0") (booted (Ramfs.fsInit Ramfs.blank).2 fun _ => none)) := by
  apply (basicRun_dividesSafely_iff (by decide) _ (tree_booted tree_fsInit _)).2
  decide +kernel

/-- The quotient of the least number and -1 is computed. -/
theorem basicRun_not_dividesSafely :
    ¬ ∀ (text : Text) (s : Interp) (n : ℕ), Ramfs.Tree s.fs → DividesSafely (basicRun n text s) := by
  intro h
  have hsafe := h (chars "10 PRINT -2147483648/-1") (booted (Ramfs.fsInit Ramfs.blank).2 fun _ => none) 20
    (tree_booted tree_fsInit _)
  have hall := hsafe.defined
  revert hall
  decide +kernel

end Tg11Kernel.Basic
