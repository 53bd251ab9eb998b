import Tg11Kernel.Shell.Variables

/-! Scripts that run scripts. What an invocation executes is a tree: its assignments
and the invocations it makes, in the order they happen, up to its last line or to
where an error, the timeout or a cancel stops it. An invocation by `run` should give
the variables back as they were, and one by `source` should keep what the script
assigned. Both are decided from one global flag that the invocations inside change,
and where the two decisions differ the table is restored from locals nobody wrote. -/

namespace Tg11Kernel.Shell

/-- The two commands that start a script. -/
inductive Mode
  | run
  | source
  deriving DecidableEq

/-- How far an invocation gets before its first line: it stops at its arguments, it
cannot read the file, or it begins. -/
inductive Start
  | refused
  | unread
  | begun
  deriving DecidableEq

/-- What a script executes: its assignments and invocations, with what each of the
invocations executes. -/
inductive Script
  | done
  | setVar (name value : Text) (rest : Script)
  | unset (name : Text) (rest : Script)
  | invoke (mode : Mode) (start : Start) (body rest : Script)

/-- What the locals of each invocation hold when it is entered, by its place in the tree. -/
abbrev Locals := List Bool → Table

def Locals.body (locals : Locals) : Locals := fun place => locals (true :: place)

def Locals.rest (locals : Locals) : Locals := fun place => locals (false :: place)

def SCRIPT_DEPTH_MAX : ℕ := 3

/-! ### The commands -/

/-- The lines of a script, between the two changes of the depth. -/
def runLines (body : Shell → Shell) (s : Shell) : Shell :=
  let s := body { s with scriptDepth := s.scriptDepth + 1 }
  { s with scriptDepth := s.scriptDepth - 1 }

/-- `locals` is the table that the locals `old_*` hold before the save. -/
def cmdRun (locals : Table) (start : Start) (body : Shell → Shell) (s : Shell) : Shell :=
  if start = .refused then s
  else if SCRIPT_DEPTH_MAX ≤ s.scriptDepth then s
  else
    let old := if s.runSourceMode then locals else s.table
    if start = .unread then s
    else
      let s := runLines body s
      if s.runSourceMode then s else { s with table := old }

def cmdSource (locals : Table) (start : Start) (body : Shell → Shell) (s : Shell) : Shell :=
  let s := cmdRun locals start body { s with runSourceMode := true }
  { s with runSourceMode := false }

def invocation : Mode → Table → Start → (Shell → Shell) → Shell → Shell
  | .run => cmdRun
  | .source => cmdSource

def exec : Locals → Script → Shell → Shell
  | _, .done, s => s
  | locals, .setVar name value rest, s => exec locals.rest rest (scriptSetVar name value s)
  | locals, .unset name rest, s => exec locals.rest rest (cmdUnset name s)
  | locals, .invoke mode start body rest, s =>
    exec locals.rest rest (invocation mode (locals []) start (exec locals.body body) s)

/-! ### The scopes that scripts should have -/

/-- The lines of an invocation are executed. -/
def Begins (depth : ℕ) (start : Start) : Prop := start = .begun ∧ depth < SCRIPT_DEPTH_MAX

instance (depth : ℕ) (start : Start) : Decidable (Begins depth start) := inferInstanceAs (Decidable (_ ∧ _))

/-- The table that a script's own assignments produce: those of a script it sources
are its own, those of a script it runs are not. -/
def produced : ℕ → Script → Table → Table
  | _, .done, t => t
  | depth, .setVar name value rest, t => produced depth rest (t.assign name value)
  | depth, .unset name rest, t => produced depth rest (t.drop name)
  | depth, .invoke .run _ _ rest, t => produced depth rest t
  | depth, .invoke .source start body rest, t =>
    produced depth rest (if Begins depth start then produced (depth + 1) body t else t)

/-- What an invocation may do to the table. -/
def Returned (depth : ℕ) (start : Start) (body : Script) (t u : Table) : Mode → Prop
  | .run => u = t
  | .source => u = (if Begins depth start then produced (depth + 1) body t else t) ∧ u.Valid

/-- The state in which the lines of an invocation begin. -/
def entered (mode : Mode) (s : Shell) : Shell :=
  { s with
    runSourceMode := s.runSourceMode || mode = .source
    scriptDepth := s.scriptDepth + 1 }

/-- Every invocation made leaves the table as it should. -/
def Scoped : Locals → Script → Shell → Prop
  | _, .done, _ => True
  | locals, .setVar name value rest, s => Scoped locals.rest rest (scriptSetVar name value s)
  | locals, .unset name rest, s => Scoped locals.rest rest (cmdUnset name s)
  | locals, .invoke mode start body rest, s =>
    let t := invocation mode (locals []) start (exec locals.body body) s
    (Begins s.scriptDepth start → Scoped locals.body body (entered mode s)) ∧
      Returned s.scriptDepth start body s.table t.table mode ∧ Scoped locals.rest rest t

/-! ### When they have them -/

/-- The table after all assignments made anywhere inside. -/
def written : ℕ → Script → Table → Table
  | _, .done, t => t
  | depth, .setVar name value rest, t => written depth rest (t.assign name value)
  | depth, .unset name rest, t => written depth rest (t.drop name)
  | depth, .invoke _ start body rest, t =>
    written depth rest (if Begins depth start then written (depth + 1) body t else t)

/-- Inside a sourced script: nothing is sourced, not even in vain, and the assignments
that a script makes when it is run cancel out. -/
def Undisturbed : ℕ → Script → Table → Prop
  | _, .done, _ => True
  | depth, .setVar name value rest, t => Undisturbed depth rest (t.assign name value)
  | depth, .unset name rest, t => Undisturbed depth rest (t.drop name)
  | _, .invoke .source _ _ _, _ => False
  | depth, .invoke .run start body rest, t =>
    (Begins depth start → Undisturbed (depth + 1) body t ∧ written (depth + 1) body t = t) ∧
      Undisturbed depth rest t

/-- Every script sourced from outside all sourced scripts is undisturbed. -/
def Separated : ℕ → Script → Table → Prop
  | _, .done, _ => True
  | depth, .setVar name value rest, t => Separated depth rest (t.assign name value)
  | depth, .unset name rest, t => Separated depth rest (t.drop name)
  | depth, .invoke .run start body rest, t =>
    (Begins depth start → Separated (depth + 1) body t) ∧ Separated depth rest t
  | depth, .invoke .source start body rest, t =>
    (Begins depth start → Undisturbed (depth + 1) body t) ∧
      Separated depth rest (if Begins depth start then written (depth + 1) body t else t)

/-! ### One invocation -/

section Invocation

variable {old : Table} {start : Start} {body : Shell → Shell} {s : Shell}

theorem entered_run (s : Shell) : entered .run s = { s with scriptDepth := s.scriptDepth + 1 } := by
  simp [entered]

theorem entered_source (s : Shell) : entered .source s = entered .run { s with runSourceMode := true } := by
  simp [entered]

theorem runLines_eq (body : Shell → Shell) (s : Shell) :
    runLines body s = { body (entered .run s) with scriptDepth := (body (entered .run s)).scriptDepth - 1 } := by
  rw [entered_run]
  rfl

theorem cmdRun_idle (h : ¬ Begins s.scriptDepth start) : cmdRun old start body s = s := by
  unfold cmdRun
  cases start with
  | refused => rfl
  | unread =>
    by_cases hdeep : SCRIPT_DEPTH_MAX ≤ s.scriptDepth
    · rw [if_neg (by decide), if_pos hdeep]
    · rw [if_neg (by decide), if_neg hdeep]
      exact if_pos rfl
  | begun =>
    have hdeep : SCRIPT_DEPTH_MAX ≤ s.scriptDepth := not_lt.1 fun hlt => h ⟨rfl, hlt⟩
    rw [if_neg (by decide), if_pos hdeep]

theorem cmdRun_begun (h : Begins s.scriptDepth start) : cmdRun old start body s =
      if (runLines body s).runSourceMode then runLines body s
      else { runLines body s with table := if s.runSourceMode then old else s.table } := by
  obtain ⟨rfl, hdepth⟩ := h
  unfold cmdRun
  rw [if_neg (by decide), if_neg (by omega)]
  rfl

theorem cmdRun_sourced (h : Begins s.scriptDepth start) (hon : (body (entered .run s)).runSourceMode = true) :
    cmdRun old start body s = runLines body s := by
  rw [cmdRun_begun h, if_pos (by rw [runLines_eq]; exact hon)]

theorem cmdRun_restored (h : Begins s.scriptDepth start) (hoff : (body (entered .run s)).runSourceMode = false) :
    cmdRun old start body s = { runLines body s with table := if s.runSourceMode then old else s.table } := by
  rw [cmdRun_begun h, if_neg (by rw [runLines_eq]; simp [hoff])]

theorem cmdRun_scriptDepth (h : ∀ s, (body s).scriptDepth = s.scriptDepth) :
    (cmdRun old start body s).scriptDepth = s.scriptDepth := by
  by_cases hbegins : Begins s.scriptDepth start
  · have hlines : (runLines body s).scriptDepth = s.scriptDepth := by
      rw [runLines_eq]
      dsimp only
      rw [h, entered_run]
      exact Nat.add_sub_cancel _ _
    rw [cmdRun_begun hbegins]
    split_ifs <;> exact hlines
  · rw [cmdRun_idle hbegins]

theorem cmdRun_off (hs : s.runSourceMode = false) (h : ∀ s, s.runSourceMode = false → (body s).runSourceMode = false) :
    (cmdRun old start body s).runSourceMode = false := by
  by_cases hbegins : Begins s.scriptDepth start
  · have hoff : (body (entered .run s)).runSourceMode = false := by
      apply h
      rw [entered_run]
      exact hs
    rw [cmdRun_restored hbegins hoff, runLines_eq]
    exact hoff
  · rw [cmdRun_idle hbegins]
    exact hs

/-- In a sourced script a script that keeps the flag up and the table is harmless. -/
theorem cmdRun_undisturbed (hs : s.runSourceMode = true) (h : Begins s.scriptDepth start →
      (body (entered .run s)).runSourceMode = true ∧ (body (entered .run s)).table = s.table) :
    (cmdRun old start body s).runSourceMode = true ∧ (cmdRun old start body s).table = s.table := by
  by_cases hbegins : Begins s.scriptDepth start
  · obtain ⟨hon, htable⟩ := h hbegins
    rw [cmdRun_sourced hbegins hon, runLines_eq]
    exact ⟨hon, htable⟩
  · rw [cmdRun_idle hbegins]
    exact ⟨hs, rfl⟩

end Invocation

/-! ### Whole scripts -/

variable (locals : Locals) (script : Script) (s : Shell)

theorem exec_scriptDepth :
    (exec locals script s).scriptDepth = s.scriptDepth := by
  induction script generalizing locals s with
  | done => rfl
  | setVar name value rest ih => rw [exec, ih, scriptSetVar_scriptDepth]
  | unset name rest ih => rw [exec, ih, cmdUnset_scriptDepth]
  | invoke mode start body rest ihBody ihRest =>
    rw [exec, ihRest]
    cases mode with
    | run => exact cmdRun_scriptDepth (ihBody locals.body)
    | source =>
      have hrun := @cmdRun_scriptDepth (locals []) start _ { s with runSourceMode := true } (ihBody locals.body)
      exact hrun

/-- Outside a sourced script the flag is down after every command. -/
theorem exec_off (hs : s.runSourceMode = false) :
    (exec locals script s).runSourceMode = false := by
  induction script generalizing locals s with
  | done => exact hs
  | setVar name value rest ih => exact ih _ _ ((scriptSetVar_runSourceMode name value s).trans hs)
  | unset name rest ih => exact ih _ _ ((cmdUnset_runSourceMode name s).trans hs)
  | invoke mode start body rest ihBody ihRest =>
    apply ihRest
    cases mode with
    | run => exact cmdRun_off hs (ihBody locals.body)
    | source => rfl

theorem written_valid (depth : ℕ) (script : Script) {t : Table} (h : t.Valid) : (written depth script t).Valid := by
  induction script generalizing depth t with
  | done => exact h
  | setVar name value rest ih => exact ih _ (h.assign name value)
  | unset name rest ih => exact ih _ (h.drop name)
  | invoke mode start body rest ihBody ihRest =>
    apply ihRest
    split_ifs
    · exact ihBody _ h
    · exact h

/-- In an undisturbed script all assignments made inside are its own. -/
theorem Undisturbed.produced {depth : ℕ} {script : Script} {t : Table} (h : Undisturbed depth script t) :
    produced depth script t = written depth script t := by
  induction script generalizing depth t with
  | done => rfl
  | setVar name value rest ih => exact ih h
  | unset name rest ih => exact ih h
  | invoke mode start body rest ihBody ihRest =>
    cases mode with
    | source => exact h.elim
    | run =>
      obtain ⟨hbody, hrest⟩ := h
      have hsame : (if Begins depth start then written (depth + 1) body t else t) = t := by
        split_ifs with hbegins
        · exact (hbody hbegins).2
        · rfl
      rw [Shell.produced, written, hsame]
      exact ihRest hrest

/-- An undisturbed script keeps the flag up, so nothing inside it restores anything. -/
theorem exec_undisturbed (hs : s.runSourceMode = true)
    (h : Undisturbed s.scriptDepth script s.table) :
    (exec locals script s).runSourceMode = true ∧ (exec locals script s).table = written s.scriptDepth script s.table ∧
      Scoped locals script s := by
  induction script generalizing locals s with
  | done => exact ⟨hs, rfl, trivial⟩
  | setVar name value rest ih =>
    have hrest := ih locals.rest (scriptSetVar name value s)
    simp only [scriptSetVar_runSourceMode, scriptSetVar_scriptDepth, scriptSetVar_table] at hrest
    exact hrest hs h
  | unset name rest ih =>
    have hrest := ih locals.rest (cmdUnset name s)
    simp only [cmdUnset_runSourceMode, cmdUnset_scriptDepth, cmdUnset_table] at hrest
    exact hrest hs h
  | invoke mode start body rest ihBody ihRest =>
    cases mode with
    | source => exact h.elim
    | run =>
      obtain ⟨hbody, hrest⟩ := h
      have hafter : (if Begins s.scriptDepth start then written (s.scriptDepth + 1) body s.table else s.table) = s.table := by
        split_ifs with hbegins
        · exact (hbody hbegins).2
        · rfl
      have hlines := ihBody locals.body (entered .run s)
      rw [entered_run] at hlines
      obtain ⟨hon, htable⟩ := @cmdRun_undisturbed (locals []) start (exec locals.body body) s hs fun hbegins => by
        obtain ⟨hinside, hcancel⟩ := hbody hbegins
        rw [entered_run]
        exact ⟨(hlines hs hinside).1, (hlines hs hinside).2.1.trans hcancel⟩
      have hdepth := @cmdRun_scriptDepth (locals []) start _ s (exec_scriptDepth locals.body body)
      have hnext := ihRest locals.rest (cmdRun (locals []) start (exec locals.body body) s) hon
      rw [hdepth, htable] at hnext
      obtain ⟨hflag, hall, hscoped⟩ := hnext hrest
      rw [written, hafter]
      refine ⟨hflag, hall, fun hbegins => ?_, htable, hscoped⟩
      rw [entered_run]
      exact (hlines hs (hbody hbegins).1).2.2

/-- Outside a sourced script, `run` restores what it saved. -/
theorem cmdRun_restores {old : Table} {start : Start} {body : Shell → Shell} {s : Shell} (hs : s.runSourceMode = false)
    (h : ∀ s, s.runSourceMode = false → (body s).runSourceMode = false) :
    (cmdRun old start body s).table = s.table := by
  by_cases hbegins : Begins s.scriptDepth start
  · have hoff : (body (entered .run s)).runSourceMode = false := by
      apply h
      rw [entered_run]
      exact hs
    rw [cmdRun_restored hbegins hoff, if_neg (by simp [hs])]
  · rw [cmdRun_idle hbegins]

/-- Outside a sourced script, `source` keeps what an undisturbed script assigned. -/
theorem cmdSource_table {start : Start} {body : Script} {s : Shell}
    (h : Begins s.scriptDepth start → Undisturbed (s.scriptDepth + 1) body s.table) :
    (cmdSource (locals []) start (exec locals.body body) s).table =
      if Begins s.scriptDepth start then written (s.scriptDepth + 1) body s.table else s.table := by
  have hexec := exec_undisturbed locals.body body (entered .source s)
  split_ifs with hbegins
  · obtain ⟨hon, htable, -⟩ := hexec (by simp [entered]) (h hbegins)
    rw [entered_source] at hon htable
    have hrun := @cmdRun_sourced (locals []) start (exec locals.body body) { s with runSourceMode := true } hbegins hon
    rw [cmdSource, hrun, runLines_eq]
    exact htable
  · have hrun := @cmdRun_idle (locals []) start (exec locals.body body) { s with runSourceMode := true } hbegins
    rw [cmdSource, hrun]

theorem cmdSource_scriptDepth (start : Start) (body : Script) (s : Shell) :
    (cmdSource (locals []) start (exec locals.body body) s).scriptDepth = s.scriptDepth := by
  have hrun := @cmdRun_scriptDepth (locals []) start _ { s with runSourceMode := true } (exec_scriptDepth locals.body body)
  exact hrun

theorem scoped_separated (hs : s.runSourceMode = false)
    (hvalid : s.table.Valid) (h : Separated s.scriptDepth script s.table) : Scoped locals script s := by
  induction script generalizing locals s with
  | done => trivial
  | setVar name value rest ih =>
    have hrest := ih locals.rest (scriptSetVar name value s)
    simp only [scriptSetVar_runSourceMode, scriptSetVar_scriptDepth, scriptSetVar_table] at hrest
    exact hrest hs (hvalid.assign name value) h
  | unset name rest ih =>
    have hrest := ih locals.rest (cmdUnset name s)
    simp only [cmdUnset_runSourceMode, cmdUnset_scriptDepth, cmdUnset_table] at hrest
    exact hrest hs (hvalid.drop name) h
  | invoke mode start body rest ihBody ihRest =>
    cases mode with
    | run =>
      obtain ⟨hbody, hrest⟩ := h
      have htable := @cmdRun_restores (locals []) start _ s hs (exec_off locals.body body)
      have hdepth := @cmdRun_scriptDepth (locals []) start _ s (exec_scriptDepth locals.body body)
      have hoff := @cmdRun_off (locals []) start _ s hs (exec_off locals.body body)
      refine ⟨fun hbegins => ?_, htable, ?_⟩
      · have hlines := ihBody locals.body (entered .run s)
        rw [entered_run] at hlines ⊢
        exact hlines hs hvalid (hbody hbegins)
      · have hnext := ihRest locals.rest (cmdRun (locals []) start (exec locals.body body) s) hoff
        rw [hdepth, htable] at hnext
        exact hnext hvalid hrest
    | source =>
      obtain ⟨hbody, hrest⟩ := h
      have htable := cmdSource_table locals hbody
      have hdepth := cmdSource_scriptDepth locals start body s
      have hafter : (if Begins s.scriptDepth start then written (s.scriptDepth + 1) body s.table else s.table).Valid := by
        split_ifs
        · exact written_valid _ _ hvalid
        · exact hvalid
      refine ⟨fun hbegins => ?_, ⟨?_, ?_⟩, ?_⟩
      · exact (exec_undisturbed _ _ _ (by simp [entered]) (hbody hbegins)).2.2
      · refine htable.trans ?_
        split_ifs with hbegins
        · exact (hbody hbegins).produced.symm
        · rfl
      · exact Eq.subst htable.symm hafter
      · have hnext := ihRest locals.rest (cmdSource (locals []) start (exec locals.body body) s) rfl
        rw [hdepth, htable] at hnext
        exact hnext hafter hrest

/-! ### What the locals may hold -/

/-- A table that no assignment can make. -/
def spoiled : Table := { booted.table with count := 9 }

theorem not_valid_spoiled : ¬ spoiled.Valid := fun h => absurd h.bounded (by decide)

/-- The locals hold the same everywhere. -/
def allSpoiled : Locals := fun _ => spoiled

theorem undisturbed_of_scoped (hs : s.runSourceMode = true) (hvalid : s.table.Valid)
    (h : Scoped allSpoiled script s) (hon : (exec allSpoiled script s).runSourceMode = true) :
    Undisturbed s.scriptDepth script s.table := by
  induction script generalizing s with
  | done => trivial
  | setVar name value rest ih =>
    have hrest := ih (scriptSetVar name value s)
    simp only [scriptSetVar_runSourceMode, scriptSetVar_scriptDepth, scriptSetVar_table] at hrest
    exact hrest hs (hvalid.assign name value) h hon
  | unset name rest ih =>
    have hrest := ih (cmdUnset name s)
    simp only [cmdUnset_runSourceMode, cmdUnset_scriptDepth, cmdUnset_table] at hrest
    exact hrest hs (hvalid.drop name) h hon
  | invoke mode start body rest ihBody ihRest =>
    cases mode with
    | source =>
      have hoff := exec_off allSpoiled rest (cmdSource spoiled start (exec allSpoiled body) s) rfl
      have hboth : true = false := hon.symm.trans hoff
      exact absurd hboth (by decide)
    | run =>
      obtain ⟨hbody, hsame, hrest⟩ := h
      have htable : (cmdRun spoiled start (exec allSpoiled body) s).table = s.table := hsame
      have hdepth := @cmdRun_scriptDepth spoiled start _ s (exec_scriptDepth allSpoiled body)
      -- otherwise the script run would have restored the locals of its own invocation
      have hkept : Begins s.scriptDepth start → (exec allSpoiled body (entered .run s)).runSourceMode = true := by
        intro hbegins
        by_contra hoff
        have hrun := @cmdRun_restored spoiled start _ s hbegins (Bool.eq_false_iff.2 hoff)
        rw [hrun, if_pos hs] at htable
        exact not_valid_spoiled (Eq.subst htable.symm hvalid)
      have hflag : (cmdRun spoiled start (exec allSpoiled body) s).runSourceMode = true := by
        by_cases hbegins : Begins s.scriptDepth start
        · rw [cmdRun_sourced hbegins (hkept hbegins), runLines_eq]
          exact hkept hbegins
        · rw [cmdRun_idle hbegins]
          exact hs
      refine ⟨fun hbegins => ?_, ?_⟩
      · have hon' := hkept hbegins
        have hinside := hbody hbegins
        have hlines := ihBody (entered .run s)
        have hexec := exec_undisturbed allSpoiled body (entered .run s)
        rw [cmdRun_sourced hbegins hon', runLines_eq] at htable
        rw [entered_run] at hlines hexec hon' hinside htable
        have hundisturbed := hlines hs hvalid hinside hon'
        exact ⟨hundisturbed, (hexec hs hundisturbed).2.1.symm.trans htable⟩
      · have hnext := ihRest (cmdRun spoiled start (exec allSpoiled body) s) hflag
        rw [hdepth, htable] at hnext
        exact hnext hvalid hrest hon

theorem separated_of_scoped (hs : s.runSourceMode = false) (hvalid : s.table.Valid)
    (h : Scoped allSpoiled script s) : Separated s.scriptDepth script s.table := by
  induction script generalizing s with
  | done => trivial
  | setVar name value rest ih =>
    have hrest := ih (scriptSetVar name value s)
    simp only [scriptSetVar_runSourceMode, scriptSetVar_scriptDepth, scriptSetVar_table] at hrest
    exact hrest hs (hvalid.assign name value) h
  | unset name rest ih =>
    have hrest := ih (cmdUnset name s)
    simp only [cmdUnset_runSourceMode, cmdUnset_scriptDepth, cmdUnset_table] at hrest
    exact hrest hs (hvalid.drop name) h
  | invoke mode start body rest ihBody ihRest =>
    obtain ⟨hbody, hreturned, hrest⟩ := h
    cases mode with
    | run =>
      have htable := @cmdRun_restores spoiled start _ s hs (exec_off allSpoiled body)
      have hdepth := @cmdRun_scriptDepth spoiled start _ s (exec_scriptDepth allSpoiled body)
      have hoff := @cmdRun_off spoiled start _ s hs (exec_off allSpoiled body)
      refine ⟨fun hbegins => ?_, ?_⟩
      · have hinside := hbody hbegins
        have hlines := ihBody (entered .run s)
        rw [entered_run] at hlines hinside
        exact hlines hs hvalid hinside
      · have hnext := ihRest (cmdRun spoiled start (exec allSpoiled body) s) hoff
        rw [hdepth, htable] at hnext
        exact hnext hvalid hrest
    | source =>
      have hafter : (cmdSource spoiled start (exec allSpoiled body) s).table.Valid := hreturned.2
      have hundisturbed : Begins s.scriptDepth start → Undisturbed (s.scriptDepth + 1) body s.table := by
        intro hbegins
        have hkept : (exec allSpoiled body (entered .source s)).runSourceMode = true := by
          by_contra hoff
          rw [entered_source] at hoff
          have hrun := @cmdRun_restored spoiled start _ { s with runSourceMode := true } hbegins (Bool.eq_false_iff.2 hoff)
          rw [cmdSource, hrun] at hafter
          exact not_valid_spoiled hafter
        exact undisturbed_of_scoped body (entered .source s) (by simp [entered]) hvalid (hbody hbegins) hkept
      have htable := cmdSource_table allSpoiled hundisturbed
      have hdepth := cmdSource_scriptDepth allSpoiled start body s
      refine ⟨hundisturbed, ?_⟩
      have hnext := ihRest (cmdSource spoiled start (exec allSpoiled body) s) rfl hafter hrest
      have hdepth' : (cmdSource spoiled start (exec allSpoiled body) s).scriptDepth = s.scriptDepth := hdepth
      rw [hdepth'] at hnext
      rw [← htable]
      exact hnext

/-- The variables are scoped as they should, whatever the stack holds, exactly in the
sessions in which every sourced script sources nothing and runs only scripts whose
assignments cancel out. -/
theorem scoped_iff (session : Script) :
    (∀ locals, Scoped locals session booted) ↔ Separated 0 session booted.table := by
  constructor
  · intro h
    exact separated_of_scoped session booted rfl booted_valid (h allSpoiled)
  · intro h locals
    exact scoped_separated locals session booted rfl booted_valid h

/-- A sourced script sources another one: the first ends with the table of its locals. -/
theorem not_scoped : ¬ ∀ session locals, Scoped locals session booted := by
  intro h
  have hsession := (h (.invoke .source .begun (.invoke .source .begun .done .done) .done) allSpoiled).2.1
  exact not_valid_spoiled hsession.2

end Tg11Kernel.Shell
