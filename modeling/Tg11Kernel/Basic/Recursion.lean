import Tg11Kernel.Basic.Run

/-! Functions that call themselves. The steps of a program are counted, and so is the
depth of its subroutines and loops, but not the depth of its functions: an expression
that never calls a function in its own body is evaluated, and one that does may go on
for ever. -/

namespace Tg11Kernel.Basic

open Lib Lib.Exec

variable {n : ℕ} {s t : Interp} {text : Text}

/-! ### Runs that end -/

/-- An expression in any state of the variables ends, unless it divides the least number
by -1 or calls a function in its own body. -/
theorem expr_ends (hn : text.length + 129 * 26 < n) (t : Interp) (hstuck : ¬ Stuck ((parsers n).expr text t).2) :
    ((parsers n).expr text t).1 ≠ .hang := by
  intro hhang
  have hfree := free_le t
  have hroom : Room n t text := by
    unfold Room
    omega
  exact hstuck ((((parsersOk n).expr t text).hang _ (Prod.ext hhang rfl)).2 hroom)

theorem stringExpr_ends (hn : text.length + 129 * 26 < n) (t : Interp) (hstuck : ¬ Stuck ((parsers n).stringExpr text t).2) :
    ((parsers n).stringExpr text t).1 ≠ .hang := by
  intro hhang
  have hfree := free_le t
  have hroom : Room n t text := by
    unfold Room
    omega
  exact hstuck ((((parsersOk n).stringExpr t text).hang _ (Prod.ext hhang rfl)).2 hroom)

/-- What ends: the run of a program, and every expression in every state. -/
structure Terminates (text : Text) (s : Interp) (n : ℕ) : Prop where
  run : ¬ Stuck (basicRun n text s).2 → (basicRun n text s).1 ≠ .hang
  expr : ∀ t, ¬ Stuck ((parsers n).expr text t).2 → ((parsers n).expr text t).1 ≠ .hang
  stringExpr : ∀ t, ¬ Stuck ((parsers n).stringExpr text t).2 → ((parsers n).stringExpr text t).1 ≠ .hang

/-- In a run that neither divides the least number by -1 nor calls a function in its own
body, nothing goes on for ever. -/
theorem basicRun_terminates (hn : nestingBound text < n) (hfs : Ramfs.Tree s.fs) : Terminates text s n := by
  have hbound : text.length + 129 * 26 < n := by
    unfold nestingBound at hn
    omega
  have htwo : 2 ≤ n := by omega
  constructor
  case run =>
    intro hstuck hhang
    obtain ⟨hwalk, hok, hfail, hloop⟩ := runLoop_start htwo text s
    rcases hrun : runLoop (programLines text) (parsers n) n BASIC_MAX_STEPS s.start with ⟨flow | _ | _, t⟩
    · cases flow with
      | go =>
        obtain ⟨u, hu, -⟩ := basicRun_of_go (tree_of_runLoop htwo hfs hrun) hrun
        rw [hu] at hhang
        cases hhang
      | exit =>
        rw [basicRun_of_exit hrun] at hhang
        cases hhang
    · obtain ⟨u, hu, -⟩ := basicRun_of_fail (tree_of_runLoop htwo hfs hrun) hrun
      rw [hu] at hhang
      cases hhang
    · rw [basicRun_of_hang hrun] at hstuck
      exact hstuck ((hloop t hrun).2 (ready_start hfs hn))
  case expr => exact expr_ends hbound
  case stringExpr => exact stringExpr_ends hbound

instance (t : Interp) : Decidable (Stuck t) := inferInstanceAs (Decidable ((∃ c ∈ _, _) ∨ ∃ d ∈ _, _))

/-- A function that calls another one. -/
theorem basicRun_terminates_nested :
    (basicRun 3600 (chars "10 DEF FNA(X)=X+1\n20 DEF FNB(X)=FNA(X)*2\n30 PRINT FNB(FNA(4))")
      (booted (Ramfs.fsInit Ramfs.blank).2 fun _ => none)).1 ≠ .hang := by
  apply (basicRun_terminates (by decide +kernel) (tree_booted tree_fsInit _)).run
  decide +kernel

/-! ### A function in itself -/

variable {p : Parsers}

/-- `10 DEF FNA(X)=FNA(X)`, `20 PRINT FNA(X)` -/
def selfCalling : Text := chars "10 DEF FNA(X)=FNA(X)\n20 PRINT FNA(X)"

def selfFn : DefFn := ⟨0, 23, ⟨chars "FNA(X)", by decide⟩⟩

theorem parseFactor_call (p : Parsers) :
    parseFactor p (chars "FNA(X)") = parseFn p (chars "FNA(X)") >>= fun r => pure (r.1 * 1, r.2) := rfl

theorem parseFn_selfFn (ht : t.defFns = [selfFn]) : parseFn p (chars "FNA(X)") t = callFn p selfFn (chars "(X)") t := by
  unfold parseFn
  rw [bind_ok (gets_apply Interp.defFns t), ht]
  rfl

theorem callFn_selfFn (m : ℕ) (t : Interp) : callFn (parsers (m + 2)) selfFn (chars "(X)") t =
      (Exec.attempt ((parsers (m + 2)).expr (chars "FNA(X)")) >>= fun r => do
        Exec.modify fun s => s.left selfFn (t.vars 23)
        let (v, _) ← Exec.ofOption r
        pure (v, [])) (t.entered selfFn (t.vars 23 * 1)) := rfl

/-- However deep the parsers may nest. -/
theorem expr_selfFn_hangs (n : ℕ) (ht : t.defFns = [selfFn]) : ((parsers n).expr (chars "FNA(X)") t).1 = .hang := by
  induction n generalizing t with
  | zero => rfl
  | succ n ih =>
    have hcall : (callFn (parsers n) selfFn (chars "(X)") t).1 = .hang := by
      obtain rfl | rfl | ⟨m, rfl⟩ : n = 0 ∨ n = 1 ∨ ∃ m, n = m + 2 := by
        rcases n with _ | _ | m <;> simp
      · rfl
      · rfl
      · have hbody := ih (t := t.entered selfFn (t.vars 23 * 1)) ht
        rw [callFn_selfFn, bind_hang (attempt_hang (Prod.ext hbody rfl))]
    have hfn : parseFn (parsers n) (chars "FNA(X)") t = (.hang, _) := Prod.ext ((congrArg Prod.fst (parseFn_selfFn ht)).trans hcall) rfl
    have hfactor : parseFactor (parsers n) (chars "FNA(X)") t = (.hang, _) := (congrFun (parseFactor_call _) t).trans (bind_hang hfn)
    have hterm : parseTerm (parsers n) n (chars "FNA(X)") t = (.hang, _) := bind_hang hfactor
    have hexpr : parseExpr (parsers n) n (chars "FNA(X)") t = (.hang, _) := bind_hang hterm
    exact congrArg Prod.fst hexpr

theorem defStatement_selfCalling (t : Interp) :
    defStatement (programLines selfCalling) (chars "DEF FNA(X)=FNA(X)") { t with defFns := [] } =
      (.ok .go, { t with defFns := [selfFn], pc := t.pc + 1 }) := rfl

theorem statement_selfCalling (p : Parsers) (n : ℕ) (fs : Ramfs.Fs) (input : ℕ → Option Text) :
    statement (programLines selfCalling) p n (booted fs input).start =
      defStatement (programLines selfCalling) (chars "DEF FNA(X)=FNA(X)") (booted fs input).start := rfl

theorem not_stringStart_selfFn : ¬ StringStart (chars "FNA(X)") := by
  unfold StringStart
  decide

theorem statement_print_selfFn (ht : t.defFns = [selfFn]) (hpc : t.pc = 1) :
    (statement (programLines selfCalling) (parsers n) n t).1 = .hang := by
  have hprint : statement (programLines selfCalling) (parsers n) n t =
      printStatement (programLines selfCalling) (parsers n) n (chars "PRINT FNA(X)") t := by
    unfold statement
    rw [bind_ok (gets_apply Interp.pc t), hpc]
    rfl
  have hloop : (printLoop (programLines selfCalling) (parsers n) n (chars "FNA(X)") t).1 = .hang := by
    cases n with
    | zero => rfl
    | succ m =>
      have hstring : (parsers (m + 1)).stringExpr (chars "FNA(X)") t = (.fail, t) :=
        stringExpr_of_not_stringStart not_stringStart_selfFn t
      have hexpr : (parsers (m + 1)).expr (chars "FNA(X)") t = (.hang, _) := Prod.ext (expr_selfFn_hangs (m + 1) ht) rfl
      have hvalue : (printValue (programLines selfCalling) (parsers (m + 1)) (chars "FNA(X)") t).1 = .hang := by
        unfold printValue
        rw [bind_ok (attempt_fail hstring)]
        exact congrArg Prod.fst (bind_hang (orElse_hang hexpr))
      exact congrArg Prod.fst (bind_hang (Prod.ext hvalue rfl))
  rw [hprint]
  exact congrArg Prod.fst (bind_hang (Prod.ext hloop rfl))

theorem basicRun_selfCalling (n : ℕ) (fs : Ramfs.Fs) (input : ℕ → Option Text) :
    (basicRun n selfCalling (booted fs input)).1 = .hang := by
  have hdef : statement (programLines selfCalling) (parsers n) n (booted fs input).start = (.ok .go, _) :=
    (statement_selfCalling (parsers n) n fs input).trans (defStatement_selfCalling (booted fs input).start)
  have hprint := statement_print_selfFn (n := n) (t := { (booted fs input).start with defFns := [selfFn], pc := 1 }) rfl rfl
  have hsecond : ∀ steps, (runLoop (programLines selfCalling) (parsers n) n (steps + 1)
      { (booted fs input).start with defFns := [selfFn], pc := 1 }).1 = .hang := by
    intro steps
    unfold runLoop
    rw [bind_ok (gets_apply Interp.pc _), if_pos (show 1 < (programLines selfCalling).length by decide), bind_hang (Prod.ext hprint rfl)]
  have hloop : ∀ steps, (runLoop (programLines selfCalling) (parsers n) n (steps + 2) (booted fs input).start).1 = .hang := by
    intro steps
    have hpc : (booted fs input).start.pc = 0 := rfl
    unfold runLoop
    rw [bind_ok (gets_apply Interp.pc _), hpc, if_pos (show 0 < (programLines selfCalling).length by decide), bind_ok hdef]
    exact hsecond steps
  rw [basicRun_of_hang (Prod.ext (hloop 19998) rfl)]

/-- A program that goes on for ever. -/
theorem not_basicRun_terminates : ¬ ∀ (text : Text) (s : Interp), Ramfs.Tree s.fs → ∃ n, (basicRun n text s).1 ≠ .hang := by
  intro h
  obtain ⟨n, hn⟩ := h selfCalling (booted (Ramfs.fsInit Ramfs.blank).2 fun _ => none) (tree_booted tree_fsInit _)
  exact hn (basicRun_selfCalling n _ _)

end Tg11Kernel.Basic
