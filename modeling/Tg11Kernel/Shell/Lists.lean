import Tg11Kernel.Shell.Expansion

/-! Command lists: segments with `;`, `&&` and `||` between them. A segment is run or left out by
the exit code of the one that was run last. A segment that is rejected before a command
begins leaves the exit code as it was, and the next operator sees an older one. -/

namespace Tg11Kernel.Shell

open Lib

variable {σ : Type}

/-! ### The shell -/

/-- The variables of the shell that a list reads, and the rest of the machine. -/
structure Session (σ : Type) where
  lastExitCode : Int32
  suppressPrompt : Bool
  editorActive : Bool
  scriptModeActive : Bool
  prompted : Bool
  world : σ

/-- What `run_command_single` calls: its expansions, which may be refused, and what is done with
the expanded line, a background job, a pipe, a redirection or `run_command_dispatch`. That
`refuses` where it returns with an error before it starts a job or dispatches a command. -/
structure Commands (σ : Type) where
  expandSubstitutions : Text → Session σ → Option Text
  expandGlyphs : Text → Session σ → Option Text
  resolveAliases : Text → Session σ → Option Text
  expandGlobs : Text → Session σ → Option Text
  execute : Text → Session σ → Session σ
  refuses : Text → Session σ → Bool

def terminalPrompt (s : Session σ) : Session σ := if s.suppressPrompt then s else { s with prompted := true }

/-- `if (!editor_active && !script_mode_active) terminal_prompt();` -/
def promptUnlessBusy (s : Session σ) : Session σ := if s.editorActive || s.scriptModeActive then s else terminalPrompt s

section Commands

variable (c : Commands σ)

/-- The line that is left to execute; a line that globbing makes too long stays as it is. -/
def prepare (text : Text) (s : Session σ) : Option Text := do
  let expanded ← c.expandSubstitutions text s
  let expandedGlyphs ← c.expandGlyphs expanded s
  let resolved ← c.resolveAliases expandedGlyphs s
  some ((c.expandGlobs resolved s).getD resolved)

/-- `run_command_single`. A refusal prints a message. -/
def runCommandSingle (text : Text) (s : Session σ) : Session σ :=
  if text = [] then s
  else match prepare c text s with
    | none => promptUnlessBusy { s with prompted := false }
    | some [] => promptUnlessBusy s
    | some line => c.execute line s

/-! ### Lists -/

/-- What stands between two segments. -/
inductive Op where
  | seq
  | and
  | or
  deriving DecidableEq

def Op.text : Op → Text
  | seq => [(';' : UInt8)]
  | and => [('&' : UInt8), ('&' : UInt8)]
  | or => [('|' : UInt8), ('|' : UInt8)]

/-- The operator at a byte, with what follows it. -/
def separator (inQ : Bool) (b : UInt8) (rest : Text) : Option Op :=
  if inQ then none
  else if b = (';' : UInt8) then some .seq
  else if b = ('&' : UInt8) ∧ peek rest = ('&' : UInt8) then some .and
  else if b = ('|' : UInt8) ∧ peek rest = ('|' : UInt8) then some .or
  else none

/-- `if (full_copy[ci] == '"') in_q = !in_q;` -/
def quoteAfter (inQ : Bool) (b : UInt8) : Bool := if b = ('"' : UInt8) then !inQ else inQ

/-- Whether there is a chaining operator. -/
def hasChain : Bool → Text → Bool
  | _, [] => false
  | q, b :: rest => (separator (quoteAfter q b) b rest).isSome || hasChain (quoteAfter q b) rest

/-- The segment without the blanks around it. -/
def trim (seg : Text) : Text := ((skipBlanks seg).reverse.dropWhile (· = (' ' : UInt8))).reverse

/-- Whether the operator before a segment lets it run after a success or a failure. -/
def Op.selects (op : Op) (succeeded : Bool) : Bool :=
  match op with
  | .seq => true
  | .and => succeeded
  | .or => !succeeded

/-- The segments that were executed, with their numbers. -/
abbrev Executed := List (ℕ × Text)

/-- Segment number `i` after the operator `op`. -/
def runSegment (i : ℕ) (op : Op) (seg : Text) (r : Session σ × Executed) : Session σ × Executed :=
  if trim seg = [] then r
  else if op.selects (r.1.lastExitCode = 0) then (runCommandSingle c (trim seg) r.1, r.2 ++ [(i, trim seg)])
  else r

/-- The loop over the line; `skip` is set at the second byte of an operator. -/
def splitLoop : Text → Bool → Bool → ℕ → Op → Text → Session σ × Executed → Session σ × Executed
  | [], _, _, i, op, seg, r => runSegment c i op seg r
  | _ :: rest, true, inQ, i, op, seg, r => splitLoop rest false inQ i op seg r
  | b :: rest, false, inQ, i, op, seg, r =>
    match separator (quoteAfter inQ b) b rest with
    | some op' => splitLoop rest (op' ≠ .seq) (quoteAfter inQ b) (i + 1) op' [] (runSegment c i op seg r)
    | none => splitLoop rest false (quoteAfter inQ b) i op (seg ++ [b]) r

/-- `run_command` -/
def runCommand (line : Text) (s : Session σ) : Session σ × Executed :=
  if line = [] then (terminalPrompt s, [])
  else if hasChain false line = false then (runCommandSingle c line s, [(0, line)])
  else
    let r := splitLoop c line false false 0 .seq [] ({ s with suppressPrompt := true }, [])
    (promptUnlessBusy { r.1 with suppressPrompt := false }, r.2)

/-! ### The rule -/

/-- A segment as it stands before the text `next`, from one quote state to another: no operator
stands in it outside of quotes. -/
inductive Segment (next : Text) : Bool → Text → Bool → Prop where
  | nil {q : Bool} : Segment next q [] q
  | quote {q q' : Bool} {t : Text} (h : Segment next (!q) t q') : Segment next q (('"' : UInt8) :: t) q'
  | byte {q q' : Bool} {b : UInt8} {t : Text} (hb : b ≠ ('"' : UInt8))
      (hsep : q = false → b ≠ (';' : UInt8) ∧ (b = ('&' : UInt8) → peek (t ++ next) ≠ ('&' : UInt8)) ∧
        (b = ('|' : UInt8) → peek (t ++ next) ≠ ('|' : UInt8))) (h : Segment next q t q') : Segment next q (b :: t) q'

/-- A line as a list of segments, each with the operator before it. -/
inductive Lists : Op → Text → List (Op × Text) → Prop where
  | last {op : Op} {seg : Text} {q : Bool} (h : Segment [] false seg q) : Lists op seg [(op, seg)]
  | cons {op op' : Op} {seg line : Text} {segs : List (Op × Text)} (h : Segment (op'.text ++ line) false seg false)
      (hrest : Lists op' line segs) : Lists op (seg ++ (op'.text ++ line)) ((op, seg) :: segs)

/-- Rejected before a command begins. -/
def rejected (text : Text) (s : Session σ) : Bool :=
  match prepare c text s with
  | none => true
  | some line => line ≠ [] && c.refuses line s

/-- Rejected with an exit code that says success. -/
def rejectedQuietly (text : Text) (s : Session σ) : Bool := rejected c text s && (runCommandSingle c text s).lastExitCode = 0

/-- The segments that the rule executes. `quiet` says that the last one was rejected with the exit
code 0; it counts as failed, and any other one by its exit code. -/
def ruleExecutes : List (Op × Text) → ℕ → Bool → Session σ → Executed
  | [], _, _, _ => []
  | (op, text) :: segs, i, quiet, s =>
    if text = [] then ruleExecutes segs (i + 1) quiet s
    else if op.selects (!quiet && s.lastExitCode = 0) then
      (i, text) :: ruleExecutes segs (i + 1) (rejectedQuietly c text s) (runCommandSingle c text s)
    else ruleExecutes segs (i + 1) quiet s

/-- The texts of the segments: those of a list are trimmed, and a line that is one segment is not. -/
def segmentTexts : List (Op × Text) → List (Op × Text)
  | [(op, seg)] => [(op, seg)]
  | segs => segs.map fun p => (p.1, trim p.2)

/-- How the segments of a line begin: a list suppresses the prompts. -/
def segmentStart (segs : List (Op × Text)) (s : Session σ) : Session σ :=
  if segs.length = 1 then s else { s with suppressPrompt := true }

/-- The prompt is as it is after a single command. -/
def Prompted (s : Session σ) : Prop :=
  s.suppressPrompt = false ∧ (s.editorActive = false → s.scriptModeActive = false → s.prompted = true)

/-- A list is run by the rule. -/
structure ShortCircuits (line : Text) (segs : List (Op × Text)) (s : Session σ) : Prop where
  executes : (runCommand c line s).2 = ruleExecutes c (segmentTexts segs) 0 false (segmentStart segs s)
  prompted : 2 ≤ segs.length → Prompted (runCommand c line s).1

/-- No segment that the rule executes is rejected with the exit code 0 and has `&&` or `||` behind it. -/
def Settled : List (Op × Text) → Bool → Session σ → Prop
  | [], _, _ => True
  | (op, text) :: segs, quiet, s =>
    if text = [] then Settled segs quiet s
    else (quiet = true → op = .seq) ∧
      if op.selects (!quiet && s.lastExitCode = 0) then Settled segs (rejectedQuietly c text s) (runCommandSingle c text s)
      else Settled segs quiet s

/-! ### Every line is a list -/

/-- A text is a segment, or one stands before its first operator. -/
theorem segment_or_op (q : Bool) (line : Text) : (∃ q', Segment [] q line q') ∨
    ∃ (seg : Text) (op : Op) (rest : Text), line = seg ++ (op.text ++ rest) ∧ Segment (op.text ++ rest) q seg false := by
  induction line generalizing q with
  | nil => exact .inl ⟨q, .nil⟩
  | cons b t ih =>
    by_cases hb : b = '"'
    · subst hb
      rcases ih (!q) with ⟨q', h⟩ | ⟨seg, op, rest, rfl, h⟩
      · exact .inl ⟨q', .quote h⟩
      · exact .inr ⟨('"' : UInt8) :: seg, op, rest, rfl, .quote h⟩
    by_cases hsep : q = false → b ≠ ';' ∧ (b = '&' → peek t ≠ '&') ∧
        (b = '|' → peek t ≠ '|')
    · rcases ih q with ⟨q', h⟩ | ⟨seg, op, rest, rfl, h⟩
      · exact .inl ⟨q', .byte hb (by rwa [List.append_nil]) h⟩
      · exact .inr ⟨b :: seg, op, rest, rfl, .byte hb hsep h⟩
    · obtain ⟨rfl, hop⟩ : q = false ∧ ¬ (b ≠ ';' ∧ (b = '&' → peek t ≠ '&') ∧
          (b = '|' → peek t ≠ '|')) := Classical.not_imp.1 hsep
      by_cases hsemi : b = ';'
      · exact .inr ⟨[], .seq, t, by rw [hsemi]; rfl, .nil⟩
      by_cases hand : b = '&' ∧ peek t = '&'
      · obtain ⟨rfl, ht⟩ := hand
        cases t with
        | nil => exact absurd ht (by decide)
        | cons d t => exact .inr ⟨[], .and, t, by rw [show d = '&' from ht]; rfl, .nil⟩
      by_cases hor : b = '|' ∧ peek t = '|'
      · obtain ⟨rfl, ht⟩ := hor
        cases t with
        | nil => exact absurd ht (by decide)
        | cons d t => exact .inr ⟨[], .or, t, by rw [show d = '|' from ht]; rfl, .nil⟩
      · exact absurd ⟨hsemi, fun hb ht => hand ⟨hb, ht⟩, fun hb ht => hor ⟨hb, ht⟩⟩ hop

theorem exists_lists (op : Op) (line : Text) : ∃ segs, Lists op line segs := by
  induction hn : line.length using Nat.strong_induction_on generalizing op line with
  | _ n ih =>
    rcases segment_or_op false line with ⟨q', h⟩ | ⟨seg, op', rest, rfl, h⟩
    · exact ⟨_, .last h⟩
    · have hpos : 0 < op'.text.length := by cases op' <;> decide
      rw [List.length_append, List.length_append] at hn
      obtain ⟨segs, hrest⟩ := ih rest.length (by omega) op' rest rfl
      exact ⟨_, .cons h hrest⟩

/-! ### The loop runs the segments -/

/-- The segments of a line one after the other. -/
def runSegments : List (Op × Text) → ℕ → Session σ × Executed → Session σ × Executed
  | [], _, r => r
  | (op, seg) :: segs, i, r => runSegments segs (i + 1) (runSegment c i op seg r)

/-- The segments that the code executes. -/
def executes : List (Op × Text) → ℕ → Session σ → Executed
  | [], _, _ => []
  | (op, text) :: segs, i, s =>
    if text = [] then executes segs (i + 1) s
    else if op.selects (s.lastExitCode = 0) then (i, text) :: executes segs (i + 1) (runCommandSingle c text s)
    else executes segs (i + 1) s

end Commands

variable {c : Commands σ} {q q' : Bool} {i : ℕ} {b : UInt8} {op : Op} {seg next line rest : Text} {segs : List (Op × Text)}
  {s : Session σ} {r : Session σ × Executed}

theorem separator_quote (rest : Text) (q : Bool) : separator q ('"' : UInt8) rest = none := by
  cases q <;> rfl

theorem separator_none (hsep : q = false → b ≠ ';' ∧ (b = '&' → peek rest ≠ '&') ∧
    (b = '|' → peek rest ≠ '|')) : separator q b rest = none := by
  cases q with
  | true => rfl
  | false =>
    obtain ⟨hsemi, hand, hor⟩ := hsep rfl
    unfold separator
    rw [if_neg Bool.false_ne_true, if_neg hsemi, if_neg fun h => hand h.1 h.2, if_neg fun h => hor h.1 h.2]

theorem splitLoop_segment (h : Segment next q seg q') (acc : Text) :
    splitLoop c (seg ++ next) false q i op acc r = splitLoop c next false q' i op (acc ++ seg) r := by
  induction h generalizing acc with
  | nil => rw [List.append_nil, List.nil_append]
  | @quote q q' t _ ih =>
    rw [List.cons_append, splitLoop, separator_quote]
    show splitLoop c (t ++ next) false (!q) i op (acc ++ [('"' : UInt8)]) r = _
    rw [ih, List.append_assoc]
    rfl
  | @byte q q' b t hb hsep _ ih =>
    rw [List.cons_append, splitLoop, quoteAfter, if_neg hb, separator_none hsep]
    show splitLoop c (t ++ next) false q i op (acc ++ [b]) r = _
    rw [ih, List.append_assoc]
    rfl

theorem splitLoop_op (op' : Op) (line acc : Text) : splitLoop c (op'.text ++ line) false false i op acc r =
    splitLoop c line false false (i + 1) op' [] (runSegment c i op acc r) := by
  cases op' <;> rfl

theorem splitLoop_lists (h : Lists op line segs) (i : ℕ) (r : Session σ × Executed) :
    splitLoop c line false false i op [] r = runSegments c segs i r := by
  induction h generalizing i r with
  | @last op seg q h =>
    have hall := @splitLoop_segment σ c false q i op seg [] r h []
    rw [List.append_nil] at hall
    rw [hall]
    rfl
  | @cons op op' seg line segs h _ ih =>
    rw [splitLoop_segment h, splitLoop_op, ih]
    rfl

theorem runSegments_executes (segs : List (Op × Text)) (i : ℕ) (s : Session σ) (log : Executed) :
    (runSegments c segs i (s, log)).2 = log ++ executes c (segs.map fun p => (p.1, trim p.2)) i s := by
  induction segs generalizing i s log with
  | nil => exact (List.append_nil log).symm
  | cons p segs ih =>
    obtain ⟨op, seg⟩ := p
    rw [runSegments, List.map_cons, executes, runSegment]
    dsimp only
    split_ifs
    · exact ih ..
    · rw [ih, List.append_assoc]
      rfl
    · exact ih ..

/-! ### Chains -/

theorem hasChain_segment (h : Segment next q seg q') : hasChain q (seg ++ next) = hasChain q' next := by
  induction h with
  | nil => rfl
  | @quote q q' t _ ih =>
    rw [List.cons_append, hasChain, separator_quote]
    exact ih
  | @byte q q' b t hb hsep _ ih =>
    rw [List.cons_append, hasChain, quoteAfter, if_neg hb, separator_none hsep]
    exact ih

theorem hasChain_op (op : Op) (line : Text) : hasChain false (op.text ++ line) = true := by
  cases op <;> rfl

/-! ### The two selections -/

theorem le_of_executes (segs : List (Op × Text)) (i : ℕ) (s : Session σ) : ∀ p ∈ executes c segs i s, i ≤ p.1 := by
  induction segs generalizing i s with
  | nil => nofun
  | cons p segs ih =>
    obtain ⟨op, text⟩ := p
    have hlater : ∀ s, ∀ p ∈ executes c segs (i + 1) s, i ≤ p.1 := fun s p hp => Nat.le_of_succ_le (ih (i + 1) s p hp)
    unfold executes
    split_ifs
    · exact hlater _
    · exact List.forall_mem_cons.2 ⟨Nat.le_refl _, hlater _⟩
    · exact hlater _

theorem le_of_ruleExecutes (segs : List (Op × Text)) (i : ℕ) (quiet : Bool) (s : Session σ) :
    ∀ p ∈ ruleExecutes c segs i quiet s, i ≤ p.1 := by
  induction segs generalizing i quiet s with
  | nil => nofun
  | cons p segs ih =>
    obtain ⟨op, text⟩ := p
    have hlater : ∀ quiet s, ∀ p ∈ ruleExecutes c segs (i + 1) quiet s, i ≤ p.1 := fun quiet s p hp =>
      Nat.le_of_succ_le (ih (i + 1) quiet s p hp)
    unfold ruleExecutes
    split_ifs
    · exact hlater _ _
    · exact List.forall_mem_cons.2 ⟨Nat.le_refl _, hlater _ _⟩
    · exact hlater _ _

/-- The code executes what the rule executes just where the segments are settled. -/
theorem executes_iff (segs : List (Op × Text)) (i : ℕ) {quiet : Bool} (hquiet : quiet = true → s.lastExitCode = 0) :
    executes c segs i s = ruleExecutes c segs i quiet s ↔ Settled c segs quiet s := by
  induction segs generalizing i quiet s with
  | nil => exact iff_of_true rfl trivial
  | cons p segs ih =>
    obtain ⟨op, text⟩ := p
    unfold executes ruleExecutes Settled
    by_cases hnil : text = []
    · rw [if_pos hnil, if_pos hnil, if_pos hnil]
      exact ih (i + 1) hquiet
    rw [if_neg hnil, if_neg hnil, if_neg hnil]
    have hrun : ((i, text) :: executes c segs (i + 1) (runCommandSingle c text s) =
        (i, text) :: ruleExecutes c segs (i + 1) (rejectedQuietly c text s) (runCommandSingle c text s)) ↔
        Settled c segs (rejectedQuietly c text s) (runCommandSingle c text s) := by
      rw [List.cons.injEq]
      refine (and_iff_right rfl).trans (ih (i + 1) fun h => ?_)
      unfold rejectedQuietly at h
      simp only [Bool.and_eq_true, decide_eq_true_eq] at h
      exact h.2
    cases quiet with
    | false =>
      have hsame : (!false && decide (s.lastExitCode = 0)) = decide (s.lastExitCode = 0) := rfl
      have hrest : executes c segs (i + 1) s = ruleExecutes c segs (i + 1) false s ↔ Settled c segs false s := ih (i + 1) nofun
      have hloud : (false = true → op = .seq) := nofun
      rw [hsame]
      by_cases hselects : op.selects (decide (s.lastExitCode = 0)) = true
      · rw [if_pos hselects, if_pos hselects, if_pos hselects]
        exact hrun.trans (and_iff_right hloud).symm
      · rw [if_neg hselects, if_neg hselects, if_neg hselects]
        exact hrest.trans (and_iff_right hloud).symm
    | true =>
      have hzero : decide (s.lastExitCode = 0) = true := decide_eq_true (hquiet rfl)
      rw [hzero]
      cases op with
      | seq => exact hrun.trans (and_iff_right fun _ => rfl).symm
      | and =>
        refine iff_of_false (fun h => ?_) fun h => absurd (h.1 rfl) (by decide)
        have hlists : (i, text) :: executes c segs (i + 1) (runCommandSingle c text s) = ruleExecutes c segs (i + 1) true s := h
        have hmem : (i, text) ∈ ruleExecutes c segs (i + 1) true s := hlists ▸ List.mem_cons_self ..
        exact Nat.not_succ_le_self i (le_of_ruleExecutes segs (i + 1) true s _ hmem)
      | or =>
        refine iff_of_false (fun h => ?_) fun h => absurd (h.1 rfl) (by decide)
        have hlists : executes c segs (i + 1) s =
            (i, text) :: ruleExecutes c segs (i + 1) (rejectedQuietly c text s) (runCommandSingle c text s) := h
        have hmem : (i, text) ∈ executes c segs (i + 1) s := hlists ▸ List.mem_cons_self ..
        exact Nat.not_succ_le_self i (le_of_executes segs (i + 1) s _ hmem)

theorem prompted_promptUnlessBusy (s : Session σ) : Prompted (promptUnlessBusy { s with suppressPrompt := false }) := by
  unfold promptUnlessBusy terminalPrompt
  by_cases hbusy : (s.editorActive || s.scriptModeActive) = true
  · rw [if_pos hbusy]
    refine ⟨rfl, fun heditor hscript => ?_⟩
    have heditor' : s.editorActive = false := heditor
    have hscript' : s.scriptModeActive = false := hscript
    rw [heditor', hscript'] at hbusy
    cases hbusy
  · rw [if_neg hbusy]
    exact ⟨rfl, fun _ _ => rfl⟩

theorem shortCircuits_one (h : Segment [] false line q) (s : Session σ) : ShortCircuits c line [(.seq, line)] s := by
  refine ⟨?_, fun htwo => absurd htwo (Nat.lt_irrefl 1)⟩
  unfold runCommand segmentTexts ruleExecutes
  by_cases hnil : line = []
  · rw [if_pos hnil, if_pos hnil]
    rfl
  · have hchain : hasChain false line = false := by
      rw [← List.append_nil line, hasChain_segment h]
      rfl
    rw [if_neg hnil, if_neg hnil, if_pos hchain]
    rfl

theorem settled_one (line : Text) (s : Session σ) : Settled c [(.seq, line)] false s := by
  unfold Settled
  split_ifs
  · exact trivial
  · exact ⟨nofun, trivial⟩
  · exact ⟨nofun, trivial⟩

/-- A list is run by the rule just where no segment that was rejected with the exit code 0
decides about another one. -/
theorem shortCircuits_iff (c : Commands σ) (h : Lists .seq line segs) (s : Session σ) :
    ShortCircuits c line segs s ↔ Settled c (segmentTexts segs) false (segmentStart segs s) := by
  have hlists := h
  cases h with
  | last h => exact iff_of_true (shortCircuits_one h s) (settled_one line _)
  | @cons _ op' seg line segs hseg hrest =>
    obtain ⟨p, segs, rfl⟩ : ∃ p segs', segs = p :: segs' := by cases hrest <;> exact ⟨_, _, rfl⟩
    have hnil : ¬ seg ++ (op'.text ++ line) = [] := by cases op' <;> simp [Op.text]
    have hchain : ¬ hasChain false (seg ++ (op'.text ++ line)) = false := by
      rw [hasChain_segment hseg, hasChain_op]
      decide
    have hstart : segmentStart ((.seq, seg) :: p :: segs) s = { s with suppressPrompt := true } := if_neg (by simp)
    have hruns : (runCommand c (seg ++ (op'.text ++ line)) s).2 =
        executes c (segmentTexts ((.seq, seg) :: p :: segs)) 0 { s with suppressPrompt := true } := by
      unfold runCommand
      rw [if_neg hnil, if_neg hchain]
      show (splitLoop c (seg ++ (op'.text ++ line)) false false 0 .seq [] ({ s with suppressPrompt := true }, [])).2 = _
      rw [splitLoop_lists hlists, runSegments_executes]
      rfl
    have hprompt : Prompted (runCommand c (seg ++ (op'.text ++ line)) s).1 := by
      unfold runCommand
      rw [if_neg hnil, if_neg hchain]
      exact prompted_promptUnlessBusy _
    have hiff : executes c (segmentTexts ((.seq, seg) :: p :: segs)) 0 { s with suppressPrompt := true } =
        ruleExecutes c (segmentTexts ((.seq, seg) :: p :: segs)) 0 false { s with suppressPrompt := true } ↔
        Settled c (segmentTexts ((.seq, seg) :: p :: segs)) false { s with suppressPrompt := true } := executes_iff _ 0 nofun
    rw [hstart, ← hiff]
    constructor
    · intro hright
      rw [← hruns, hright.executes, hstart]
    · intro hsame
      exact ⟨by rw [hruns, hsame, hstart], fun _ => hprompt⟩

/-- Commands that all succeed, with the expansion of the shell; no variable is set. -/
def succeeding : Commands Unit where
  expandSubstitutions text s :=
    let r := expandCommandSubstitutions (fun _ => none) booted.table s.lastExitCode INPUT_BUFFER_SIZE text []
    if r.1 = .ok () then some r.2 else none
  expandGlyphs text _ := some text
  resolveAliases text _ := some text
  expandGlobs text _ := some text
  execute _ s := { s with lastExitCode := 0 }
  refuses _ _ := false

/-- A prompt after a command that succeeded. -/
def ready : Session Unit := ⟨0, false, false, false, true, ()⟩

theorem shortCircuits_and : ShortCircuits succeeding (chars "a&&b") [(.seq, chars "a"), (.and, chars "b")] ready := by
  have hlists : Lists .seq (chars "a&&b") [(.seq, chars "a"), (.and, chars "b")] :=
    @Lists.cons .seq .and (chars "a") (chars "b") _ (.byte (by decide) (fun _ => by decide) .nil)
      (.last (.byte (by decide) (fun _ => by decide) .nil))
  refine (shortCircuits_iff succeeding hlists ready).2 ?_
  exact ⟨nofun, nofun, trivial⟩

/-- The first segment is a `$` and an open brace, a bad substitution, and the second one is executed. -/
theorem not_shortCircuits : Lists .seq (chars "$\x7b&&b") [(.seq, chars "$\x7b"), (.and, chars "b")] ∧
    rejected succeeding (chars "$\x7b") ready = true ∧
    ¬ ShortCircuits succeeding (chars "$\x7b&&b") [(.seq, chars "$\x7b"), (.and, chars "b")] ready := by
  refine ⟨@Lists.cons .seq .and (chars "$\x7b") (chars "b") _
    (.byte (by decide) (fun _ => by decide) (.byte (by decide) (fun _ => by decide) .nil))
    (.last (.byte (by decide) (fun _ => by decide) .nil)), by decide +kernel, fun h => ?_⟩
  exact absurd h.executes (by decide +kernel)

end Tg11Kernel.Shell
