import Tg11Kernel.Basic.Evaluation
import Tg11Kernel.Basic.Channels
import Tg11Kernel.Ramfs.Laws

/-! A program that writes strings to a file and reads them back. It opens a channel for
output, prints each string to it, closes it, opens it for input, and reads a line for each
string. The word `PRINT` is recognised before `PRINT #`, so that the first string is an
error, and only the program without strings runs to its end. -/

namespace Tg11Kernel.Basic

open Lib Lib.Exec

variable {n : ℕ} {p : Parsers} {s t u : Interp} {c : Chan} {path text : Text} {lines : List Line} {strings : List Text}

/-! ### The program -/

/-- The digit of a file number. -/
def chanDigit (c : Chan) : UInt8 := ('1' : UInt8) + UInt8.ofNat c

def modeText : FileMode → Text
  | .input => chars "INPUT"
  | .output => chars "OUTPUT"
  | .append => chars "APPEND"

def openText (path : Text) (mode : FileMode) (c : Chan) : Text :=
  chars "OPEN \"" ++ (path ++ (('"' : UInt8) :: (chars " FOR " ++ (modeText mode ++ (chars " AS #" ++ [chanDigit c])))))

def closeText (c : Chan) : Text := chars "CLOSE #" ++ [chanDigit c]

def printText (c : Chan) (string : Text) : Text :=
  chars "PRINT #" ++ (chanDigit c :: (chars ", \"" ++ (string ++ [('"' : UInt8)])))

def inputText (c : Chan) : Text := chars "INPUT #" ++ (chanDigit c :: chars ", A$")

/-- The lines that write the strings and read them back into `A$`. -/
def storeAndLoad (c : Chan) (path : Text) (strings : List Text) : List Text :=
  openText path .output c :: (strings.map (printText c) ++ (closeText c :: openText path .input c :: strings.map fun _ => inputText c))

/-- Lines in one text. -/
def programText (ls : List Text) : Text := ls.flatMap fun line => line ++ [('\n' : UInt8)]

/-- What stands between quotes in one line of a program. -/
def Quotable (text : Text) : Prop := ∀ c ∈ text, c ≠ 0 ∧ notEol c = true ∧ c ≠ ('"' : UInt8)

/-- The strings fit the channel, each in a line of at most 95 bytes that does not begin with a blank. -/
structure Storable (strings : List Text) : Prop where
  quotable : ∀ string ∈ strings, Quotable string
  length : ∀ string ∈ strings, string.length ≤ 95
  start : ∀ string ∈ strings, isSpace (peek string) = false
  total : (strings.map fun string => string.length + 1).sum < BASIC_FILE_BUF

/-- The first statements of a run, as many as `k`. -/
def runSteps (lines : List Line) (p : Parsers) (n : ℕ) : ℕ → M Unit
  | 0 => pure ()
  | k + 1 => do
    let _ ← statement lines p n
    runSteps lines p n k

/-- The state after the first `k` statements of the program, where they all succeed. -/
def Reaches (n : ℕ) (text : Text) (s : Interp) (k : ℕ) (t : Interp) : Prop :=
  runSteps (programLines text) (parsers n) n k s.start = (.ok (), t)

/-- The program runs without an error, each `INPUT #` has read its string, and then nothing is left. -/
structure RoundTrips (n : ℕ) (c : Chan) (path : Text) (strings : List Text) (s : Interp) : Prop where
  ends : (basicRun n (programText (storeAndLoad c path strings)) s).1 = .ok 0
  read : ∀ i : Fin strings.length, ∃ t, Reaches n (programText (storeAndLoad c path strings)) s (strings.length + 4 + i) t ∧
    t.strVars 0 = strings.get i
  eof : ∃ t, Reaches n (programText (storeAndLoad c path strings)) s (2 * strings.length + 3) t ∧
    eofOf t.files (Int32.ofNat (c + 1)) = -1

/-! ### Its lines -/

/-- No line ends inside, and no NUL. -/
def OneLine (line : Text) : Prop := ∀ c ∈ line, c ≠ 0 ∧ notEol c = true

theorem OneLine.append {text text' : Text} (h : OneLine text) (h' : OneLine text') : OneLine (text ++ text') :=
  List.forall_mem_append.2 ⟨h, h'⟩

theorem Quotable.oneLine (h : Quotable text) : OneLine text := fun d hd => ⟨(h d hd).1, (h d hd).2.1⟩

instance (line : Text) : Decidable (OneLine line) := inferInstanceAs (Decidable (∀ c ∈ line, c ≠ 0 ∧ notEol c = true))

theorem splitLines_line {line rest : Text} (hline : OneLine line) (room : ℕ) :
    splitLines (room + 1) (line ++ ('\n' : UInt8) :: rest) = line :: splitLines room rest := by
  have heol : ∀ d ∈ line, notEol d = true := fun d hd => (hline d hd).2
  have htake : (line ++ ('\n' : UInt8) :: rest).takeWhile notEol = line := by
    rw [List.takeWhile_append_of_pos heol, takeWhile_stops (by rfl), List.append_nil]
  have hdrop : (line ++ ('\n' : UInt8) :: rest).dropWhile notEol = ('\n' : UInt8) :: rest := by
    rw [List.dropWhile_append_of_pos heol, dropWhile_stops (by rfl)]
  have hafter : afterEol (('\n' : UInt8) :: rest) = rest := by
    rw [afterEol, if_neg fun h => absurd h.1 (by decide)]
  rw [splitLines, if_neg (by simp), htake, hdrop, hafter]

variable {ls : List Text} {string : Text} {k : ℕ} {fs : Ramfs.Fs}

theorem programLines_text (h : ∀ line ∈ ls, OneLine line) :
    programLines (programText ls) = (ls.take BASIC_MAX_LINES).map fun line => ⟨lineLabel line, line⟩ := by
  have hnul : cString (programText ls) = programText ls := by
    apply List.takeWhile_eq_self_iff.2
    intro d hd
    obtain ⟨line, hline, hd⟩ := List.mem_flatMap.1 hd
    rcases List.mem_append.1 hd with hd | hd
    · simpa using (h line hline d hd).1
    · rw [List.mem_singleton.1 hd]
      rfl
  have hsplit : ∀ room, splitLines room (programText ls) = ls.take room := by
    clear hnul
    induction ls with
    | nil =>
      intro room
      cases room <;> rfl
    | cons line ls ih =>
      intro room
      cases room with
      | zero => rfl
      | succ room =>
        have hcons : programText (line :: ls) = line ++ ('\n' : UInt8) :: programText ls := by simp [programText]
        rw [hcons, splitLines_line (h line (by simp)), ih fun l hl => h l (by simp [hl])]
        rfl
  rw [programLines, hnul, hsplit]

theorem textAt_text (h : ∀ line ∈ ls, OneLine line) (k : ℕ) :
    textAt (programLines (programText ls)) k = ((ls.take BASIC_MAX_LINES)[k]?).getD [] := by
  rw [programLines_text h, textAt, List.getElem?_map]
  cases (ls.take BASIC_MAX_LINES)[k]? <;> rfl

theorem length_text (h : ∀ line ∈ ls, OneLine line) :
    (programLines (programText ls)).length = min BASIC_MAX_LINES ls.length := by
  rw [programLines_text h, List.length_map, List.length_take]

theorem oneLine_openText (hpath : Quotable path) (mode : FileMode) (c : Chan) : OneLine (openText path mode c) := by
  have hmode : ∀ mode : FileMode, ∀ c : Chan, OneLine (('"' : UInt8) :: (chars " FOR " ++ (modeText mode ++ (chars " AS #" ++ [chanDigit c])))) := by
    intro mode
    cases mode <;> decide +kernel
  exact OneLine.append (by decide +kernel) (hpath.oneLine.append (hmode mode c))

theorem oneLine_printText (h : Quotable string) (c : Chan) : OneLine (printText c string) := by
  have hdigit : ∀ c : Chan, OneLine (chars "PRINT #" ++ (chanDigit c :: chars ", \"")) := by decide +kernel
  have hwhole : OneLine (chars "PRINT #" ++ (chanDigit c :: chars ", \"") ++ (string ++ [('"' : UInt8)])) :=
    (hdigit c).append (h.oneLine.append (by decide +kernel))
  simpa [printText] using hwhole

theorem oneLine_closeText : ∀ c : Chan, OneLine (closeText c) := by decide +kernel

theorem oneLine_inputText : ∀ c : Chan, OneLine (inputText c) := by decide +kernel

theorem oneLine_storeAndLoad (hpath : Quotable path) (hstrings : Storable strings) : ∀ line ∈ storeAndLoad c path strings, OneLine line := by
  intro line hline
  simp only [storeAndLoad, List.mem_cons, List.mem_append, List.mem_map] at hline
  obtain rfl | ⟨string, hstring, rfl⟩ | rfl | rfl | ⟨_, _, rfl⟩ := hline
  · exact oneLine_openText hpath _ c
  · exact oneLine_printText (hstrings.quotable string hstring) c
  · exact oneLine_closeText c
  · exact oneLine_openText hpath _ c
  · exact oneLine_inputText c

/-! ### Its statements -/

theorem statementStart_of_isAlpha (ha : isAlpha (peek text) = true) : statementStart text = text := by
  have hdigit : ¬ (isDigit (peek text) = true ∨ peek text = '-') := by
    rintro (hdigit | hminus)
    · rw [(not_isSpace_of_isDigit hdigit).2.1] at ha
      cases ha
    · exact (ne_sign_of_isAlpha ha).2.1 hminus
  unfold statementStart
  rw [skipSpaces_of_not_isSpace (not_isSpace_of_isAlpha ha), if_neg hdigit]

/-- A statement begins with a letter where it is not empty and no comment. -/
theorem statement_of_start (hline : statementStart (textAt lines t.pc) = text) (ha : isAlpha (peek text) = true) :
    statement lines p n t = dispatch lines p n text t := by
  have hne : ¬ (text = [] ∨ peek text = '#') := by
    rintro (rfl | hhash)
    · exact absurd ha (by decide)
    · rw [hhash] at ha
      exact absurd ha (by decide)
  unfold statement
  rw [bind_ok (gets_apply Interp.pc t), hline]
  simp only [if_neg hne]

theorem statement_of_isAlpha (hline : textAt lines t.pc = text) (ha : isAlpha (peek text) = true) :
    statement lines p n t = dispatch lines p n text t :=
  statement_of_start (by rw [hline, statementStart_of_isAlpha ha]) ha

theorem orErr_ok {α : Type} {m : M α} {a : α} (message : String) (h : m s = (.ok a, t)) : orErr lines m message s = (.ok a, t) :=
  orElse_ok h

theorem orErr_some (lines : List Line) {α : Type} {o : Option α} {a : α} (message : String) (ho : o = some a) (t : Interp) :
    orErr lines (Exec.ofOption o) message t = (.ok a, t) := by
  rw [ho]
  exact orErr_ok message rfl

theorem check_ok {q : Prop} [Decidable q] (message : String) (h : q) (s : Interp) : check lines q message s = (.ok (), s) :=
  orErr_ok message (by rw [require_pos h]; rfl)

/-- A file number is read, and its channel found. -/
theorem fileNumber_digit (hn : 2 < n) (c : Chan) (missing numberMessage rangeMessage : String) (s : Interp) :
    ∃ h, fileNumber lines (parsers n) missing numberMessage rangeMessage [('#' : UInt8), chanDigit c] s =
      (.ok (c, []), { s with history := h }) := by
  have hdigit : ∀ c : Chan, isDigit (chanDigit c) = true ∧ digitsNat [chanDigit c] = c + 1 := by decide
  have hchan : ∀ c : Chan, chanOf (Int32.ofNat (c + 1)) = some c := by decide
  have hsmall : (c : ℕ) + 1 < 2 ^ 31 := by
    have hc : (c : ℕ) < 4 := c.isLt
    omega
  have htree : Prints .expr (.lit ⟨c + 1, hsmall⟩) [chanDigit c] :=
    (Prints.lit (by simp) (by simpa using (hdigit c).1) (hdigit c).2).lift (by decide)
  obtain ⟨h, hvalue⟩ := expr_gives htree (by simpa using hn) s
  have hexpr : (parsers n).expr [chanDigit c] s = (.ok (Int32.ofNat (c + 1), []), { s with history := h }) := hvalue
  refine ⟨h, ?_⟩
  unfold fileNumber
  rw [bind_ok (check_ok missing (by rfl) s)]
  show (orErr lines ((parsers n).expr [chanDigit c]) numberMessage >>= _) s = _
  rw [bind_ok (orErr_ok numberMessage hexpr)]
  have hfound : Exec.ofOption (chanOf (Int32.ofNat (c + 1))) { s with history := h } = (.ok c, { s with history := h }) := by
    rw [hchan]
    rfl
  exact bind_ok (orErr_ok rangeMessage hfound)

theorem parseStringLiteral_quoted (hpath : Quotable path) (hlength : path.length < 64) (rest : Text) :
    parseStringLiteral 64 (('"' : UInt8) :: (path ++ ('"' : UInt8) :: rest)) = some (path, rest) := by
  have hquote : ∀ d ∈ path, (decide (d ≠ ('"' : UInt8))) = true := fun d hd => by simpa using (hpath d hd).2.2
  have htake : (path ++ ('"' : UInt8) :: rest).takeWhile (· ≠ ('"' : UInt8)) = path := by
    rw [List.takeWhile_append_of_pos hquote, takeWhile_stops (by rfl), List.append_nil]
  have hdrop : (path ++ ('"' : UInt8) :: rest).dropWhile (· ≠ ('"' : UInt8)) = ('"' : UInt8) :: rest := by
    rw [List.dropWhile_append_of_pos hquote, dropWhile_stops (by rfl)]
  unfold parseStringLiteral
  rw [skipSpaces_of_not_isSpace (by rfl)]
  simp only [peek, List.headD_cons, List.tail_cons, if_pos, htake, hdrop, List.take_of_length_le (show path.length ≤ 64 - 1 by omega)]

theorem copyString_fits {room : ℕ} (hnul : ∀ c ∈ text, c ≠ 0) (hfits : text.length ≤ room - 1) : copyString room text = text := by
  have hwhole : cString text = text := List.takeWhile_eq_self_iff.2 fun c hc => by simpa using hnul c hc
  rw [copyString, hwhole, List.take_of_length_le hfits]

theorem copyString_path (hpath : Quotable path) (hlength : path.length < 64) : copyString 64 path = path :=
  copyString_fits (fun d hd => (hpath d hd).1) (by omega)

section

variable (hn : 2 < n) (hpath : Quotable path) (hlength : path.length < 64)
include hn hpath hlength

/-- `OPEN` on a channel that is closed comes to the buffer of the channel. -/
theorem openStatement_apply (mode : FileMode)
    (hclosed : (t.files c).active = false) : ∃ h, openStatement lines (parsers n) (openText path mode c) t =
      (fillChan lines c path mode >>= fun _ => nextLine)
        { t with history := h, files := Function.update t.files c ⟨true, mode, path, [], 0⟩ } := by
  have hname : orErr lines (Exec.ofOption (parseStringLiteral 64 (skipSpaces ((openText path mode c).drop 4)))) "OPEN filename error" t =
      (.ok (path, chars " FOR " ++ (modeText mode ++ (chars " AS #" ++ [chanDigit c]))), t) := by
    apply orErr_ok
    show Exec.ofOption (parseStringLiteral 64 (('"' : UInt8) :: (path ++ ('"' : UInt8) :: _))) t = _
    rw [parseStringLiteral_quoted hpath hlength]
    rfl
  have hmode : openMode lines (skipSpaces (chars " FOR " ++ (modeText mode ++ (chars " AS #" ++ [chanDigit c])))) t =
      (.ok (mode, chars " AS #" ++ [chanDigit c]), t) := by
    cases mode <;> rfl
  obtain ⟨h, hnumber⟩ := fileNumber_digit hn c "OPEN missing #" "OPEN file number error" "OPEN file number out of range (1-4)" t
  have has : (if startsWithCi (skipSpaces (chars " AS #" ++ [chanDigit c])) (chars "AS") then
      skipSpaces ((skipSpaces (chars " AS #" ++ [chanDigit c])).drop 2) else skipSpaces (chars " AS #" ++ [chanDigit c])) =
      [('#' : UInt8), chanDigit c] := rfl
  refine ⟨h, ?_⟩
  unfold openStatement
  rw [bind_ok hname]
  show (openMode lines (skipSpaces (chars " FOR " ++ (modeText mode ++ (chars " AS #" ++ [chanDigit c])))) >>= _) t = _
  rw [bind_ok hmode]
  show (fileNumber lines (parsers n) _ _ _ [('#' : UInt8), chanDigit c] >>= _) t = _
  rw [bind_ok hnumber]
  show (check lines ((t.files c).active = false) "OPEN file already open" >>= _) { t with history := h } = _
  rw [bind_ok (check_ok _ hclosed _), copyString_path hpath hlength]
  rfl

/-- The channel is open for output, and the next line is next. -/
theorem statement_openOutput
    (hline : textAt lines t.pc = openText path .output c) (hclosed : (t.files c).active = false) :
    ∃ h, statement lines (parsers n) n t =
      (.ok .go, { t with history := h, files := Function.update t.files c ⟨true, .output, path, [], 0⟩, pc := t.pc + 1 }) := by
  obtain ⟨h, hopen⟩ := openStatement_apply hn hpath hlength .output hclosed
  refine ⟨h, ?_⟩
  rw [statement_of_isAlpha hline (by rfl)]
  exact hopen

/-- The channel holds what the file holds. -/
theorem statement_openInput
    (hline : textAt lines t.pc = openText path .input c) (hclosed : (t.files c).active = false) {buf : Text}
    (hread : Ramfs.readFile (some path) (BASIC_FILE_BUF - 1) t.fs = (.ok buf, t.fs)) :
    ∃ h, statement lines (parsers n) n t =
      (.ok .go, { t with history := h, files := Function.update t.files c ⟨true, .input, path, buf, 0⟩, pc := t.pc + 1 }) := by
  obtain ⟨h, hopen⟩ := openStatement_apply hn hpath hlength .input hclosed
  refine ⟨h, ?_⟩
  rw [statement_of_isAlpha hline (by rfl)]
  refine hopen.trans ?_
  have hbuf : readPath path { t with history := h, files := Function.update t.files c ⟨true, .input, path, [], 0⟩ } =
      (.ok buf, { t with history := h, files := Function.update t.files c ⟨true, .input, path, [], 0⟩ }) := by
    unfold readPath
    rw [onRamfs_apply, hread]
  unfold fillChan
  show ((Exec.attempt (readPath path) >>= _) >>= _) _ = _
  rw [bind_assoc_eq, bind_ok (attempt_ok hbuf)]
  show (Outcome.ok Flow.go, _) = _
  simp [Function.update_idem]

end

/-- The channel is written to its file and closed. -/
theorem statement_close (hn : 2 < n) (htree : Ramfs.Tree t.fs) (hline : textAt lines t.pc = closeText c)
    (hopen : (t.files c).active = true) :
    ∃ h, statement lines (parsers n) n t =
      (.ok .go, { ({ t with history := h }).flushed c with pc := t.pc + 1 }) := by
  obtain ⟨h, hnumber⟩ := fileNumber_digit hn c "CLOSE missing #" "CLOSE file number error" "CLOSE file number out of range" t
  refine ⟨h, ?_⟩
  rw [statement_of_isAlpha hline (by rfl)]
  show closeStatement lines (parsers n) (closeText c) t = _
  unfold closeStatement
  show (fileNumber lines (parsers n) _ _ _ [('#' : UInt8), chanDigit c] >>= _) t = _
  rw [bind_ok hnumber]
  show (check lines ((t.files c).active = true) "CLOSE file not open" >>= _) { t with history := h } = _
  have hflush : flushChan c { t with history := h } = (.ok (), ({ t with history := h } : Interp).flushed c) :=
    flushChan_apply (t := { t with history := h }) htree c
  rw [bind_ok (check_ok _ hopen _), bind_ok hflush]
  rfl

theorem expr_fails_of_hash (hc : peek text = '#') : Fails ((parsers (n + 1)).expr text) := by
  apply Fails.bind
  apply Fails.bind
  unfold parseFactor
  have hnot : ¬ nameMatchesCi text (chars "NOT") = true := not_nameMatchesCi (by rw [hc]; decide)
  rw [skipSpaces_of_not_isSpace (by rw [hc]; rfl), if_neg hnot]
  exact parseSigned_fails _ hc (by decide) (by decide) (by decide) (by decide) (by decide)

/-- `PRINT #` is a `PRINT` of something that is neither a string nor a number. -/
theorem statement_print_fails (hn : 2 < n) (hline : textAt lines t.pc = printText c string) :
    (statement lines (parsers n) n t).1 = .fail := by
  obtain ⟨n, rfl⟩ : ∃ m, n = m + 1 := ⟨n - 1, by omega⟩
  rw [statement_of_isAlpha hline (by rfl)]
  obtain ⟨rest, hrest⟩ : ∃ rest, printText c string = chars "PRINT " ++ ('#' : UInt8) :: rest := ⟨_, rfl⟩
  have hstring : (parsers (n + 1)).stringExpr (('#' : UInt8) :: rest) t = (.fail, t) := by
    apply stringExpr_of_not_stringStart
    unfold StringStart
    rw [skipSpaces_of_not_isSpace (by rfl)]
    rintro (hquote | ⟨ha, -⟩)
    · exact absurd (show ('#' : UInt8) = ('"' : UInt8) from hquote) (by decide)
    · exact absurd (show isAlpha ('#' : UInt8) = true from ha) (by decide)
  have hvalue : (printValue lines (parsers (n + 1)) (('#' : UInt8) :: rest) t).1 = .fail := by
    unfold printValue
    rw [bind_ok (attempt_fail hstring)]
    exact (orErr_fails (expr_fails_of_hash rfl) _).bind t
  have hloop : (printLoop lines (parsers (n + 1)) (n + 1) (('#' : UInt8) :: rest) t).1 = .fail := by
    show ((printValue lines (parsers (n + 1)) (('#' : UInt8) :: rest) >>= _) t).1 = _
    rw [bind_fail (Prod.ext hvalue rfl)]
  rw [hrest]
  show ((printLoop lines (parsers (n + 1)) (n + 1) (('#' : UInt8) :: rest) >>= _) t).1 = _
  rw [bind_fail (Prod.ext hloop rfl)]

/-! ### The round trip -/

theorem runLoop_step (hpc : t.pc < lines.length) (hstep : statement lines p n t = (.ok .go, u)) :
    runLoop lines p n (k + 1) t = runLoop lines p n k u := by
  rw [runLoop, bind_ok (gets_apply Interp.pc t), if_pos hpc, bind_ok hstep]

theorem runLoop_fails (hpc : t.pc < lines.length) (hstep : (statement lines p n t).1 = .fail) :
    (runLoop lines p n (k + 1) t).1 = .fail := by
  rw [runLoop, bind_ok (gets_apply Interp.pc t), if_pos hpc, bind_fail (Prod.ext hstep rfl)]

/-- With a string the program ends with an error. -/
theorem basicRun_storeAndLoad_fails (hn : 2 < n) (hfs : Ramfs.Tree s.fs) (hpath : Quotable path) (hlength : path.length < 64)
    (hstrings : Storable strings) (hne : strings ≠ []) :
    (basicRun n (programText (storeAndLoad c path strings)) s).1 = .ok (-1) := by
  obtain ⟨string, others, rfl⟩ := List.exists_cons_of_ne_nil hne
  have hone := oneLine_storeAndLoad (c := c) hpath hstrings
  have hfirst := textAt_text hone 0
  have hsecond := textAt_text hone 1
  have hcount : 1 < (programLines (programText (storeAndLoad c path (string :: others)))).length := by
    rw [length_text hone]
    simp [storeAndLoad, BASIC_MAX_LINES]
  generalize hall : programText (storeAndLoad c path (string :: others)) = text at *
  obtain ⟨h, hopen⟩ := statement_openOutput (t := s.start) hn hpath hlength hfirst rfl
  have hfail : ∃ t, runLoop (programLines text) (parsers n) n BASIC_MAX_STEPS s.start = (.fail, t) := by
    have hsteps : BASIC_MAX_STEPS = 19998 + 1 + 1 := rfl
    rw [hsteps, runLoop_step (show s.start.pc < _ from Nat.lt_of_succ_lt hcount) hopen]
    exact ⟨_, Prod.ext (runLoop_fails hcount (statement_print_fails hn hsecond)) rfl⟩
  obtain ⟨t, hfail⟩ := hfail
  obtain ⟨u, hrun, -⟩ := basicRun_of_fail (tree_of_runLoop (by omega) hfs hfail) hfail
  rw [hrun]


/-- What was written is read. -/
theorem readFile_written (h : Ramfs.WellFormed fs) (hwrite : (Ramfs.writeFile (some path) (some []) 0 fs).1 = .ok ())
    (capacity : ℕ) : Ramfs.readFile (some path) capacity (Ramfs.writeFile (some path) (some []) 0 fs).2 =
      (.ok [], (Ramfs.writeFile (some path) (some []) 0 fs).2) := by
  rcases Ramfs.writeFile_stores h (some path) (some []) 0 with ⟨_, _, hrun, -, s₁, idx, ht, hfile, rfl⟩ | ⟨_, hrun, -⟩
  · have hread := Ramfs.readFile_stored ht hfile (show 0 ≤ ([] : Text).length from le_rfl) capacity
    rw [hrun]
    simpa using hread
  · rw [hrun] at hwrite
    cases hwrite

/-- Without strings there is nothing to print or to read. -/
theorem roundTrips_nil (hn : 2 < n) (hfs : Ramfs.WellFormed s.fs) (hpath : Quotable path) (hlength : path.length < 64)
    (hwrite : (Ramfs.writeFile (some path) (some []) 0 s.fs).1 = .ok ()) : RoundTrips n c path [] s := by
  have hnone : Storable [] := ⟨by simp, by simp, by simp, by decide⟩
  have hone := oneLine_storeAndLoad (c := c) hpath hnone
  have htext := textAt_text hone
  have hcount : (programLines (programText (storeAndLoad c path []))).length = 3 := length_text hone
  -- the three lines one after the other
  obtain ⟨h₁, hopen⟩ := statement_openOutput (t := s.start) hn hpath hlength (htext 0) rfl
  set t₁ : Interp := { s.start with
    history := h₁, files := Function.update s.start.files c ⟨true, .output, path, [], 0⟩, pc := s.start.pc + 1 } with ht₁
  have hchan : t₁.files c = ⟨true, .output, path, [], 0⟩ := by simp [ht₁]
  obtain ⟨h₂, hclose⟩ := statement_close (t := t₁) hn hfs.tree (htext 1) (by rw [hchan])
  set t₂ : Interp := { ({ t₁ with history := h₂ }).flushed c with pc := t₁.pc + 1 } with ht₂
  have hfs₂ : t₂.fs = (Ramfs.writeFile (some path) (some []) 0 s.fs).2 := by
    show (if (t₁.files c).mode ≠ .input then ((t₁.files c).store t₁.fs).2 else t₁.fs) = _
    rw [hchan]
    rfl
  have hclosed : (t₂.files c).active = false := by simp [ht₂, Interp.flushed]
  have hread : Ramfs.readFile (some path) (BASIC_FILE_BUF - 1) t₂.fs = (.ok [], t₂.fs) := by
    rw [hfs₂]
    exact readFile_written hfs hwrite _
  obtain ⟨h₃, hload⟩ := statement_openInput (t := t₂) hn hpath hlength (htext 2) hclosed hread
  set t₃ : Interp := { t₂ with history := h₃, files := Function.update t₂.files c ⟨true, .input, path, [], 0⟩, pc := t₂.pc + 1 } with ht₃
  have hloop : runLoop (programLines (programText (storeAndLoad c path []))) (parsers n) n BASIC_MAX_STEPS s.start = (.ok .go, t₃) := by
    have hsteps : BASIC_MAX_STEPS = 19996 + 1 + 1 + 1 + 1 := rfl
    have hpc : s.start.pc = 0 ∧ t₁.pc = 1 ∧ t₂.pc = 2 ∧ t₃.pc = 3 := ⟨rfl, rfl, rfl, rfl⟩
    rw [hsteps, runLoop_step (by omega) hopen, runLoop_step (by omega) hclose, runLoop_step (by omega) hload, runLoop,
      bind_ok (gets_apply Interp.pc t₃), if_neg (by omega)]
    rfl
  have htree : Ramfs.Tree t₃.fs := tree_of_runLoop (by omega) hfs.tree hloop
  obtain ⟨u, hrun, -⟩ := basicRun_of_go htree hloop
  refine ⟨?_, fun i => absurd i.isLt (Nat.not_lt_zero _), t₃, ?_, ?_⟩
  · rw [hrun]
    rfl
  · show runSteps _ _ _ 3 _ = _
    rw [runSteps, bind_ok hopen, runSteps, bind_ok hclose, runSteps, bind_ok hload]
    rfl
  · have hfound : ∀ c : Chan, chanOf (Int32.ofNat (c + 1)) = some c := by decide
    rw [eofOf, hfound]
    simp [ht₃, FileChan.atEnd]

/-- The strings come back exactly if there are none. -/
theorem roundTrips_iff (hn : 2 < n) (hfs : Ramfs.WellFormed s.fs) (hpath : Quotable path) (hlength : path.length < 64)
    (hwrite : (Ramfs.writeFile (some path) (some []) 0 s.fs).1 = .ok ()) (hstrings : Storable strings) :
    RoundTrips n c path strings s ↔ strings = [] := by
  constructor
  · intro h
    by_contra hne
    have hends := h.ends
    rw [basicRun_storeAndLoad_fails hn hfs.tree hpath hlength hstrings hne] at hends
    exact absurd (Outcome.ok.inj hends) (by decide)
  · rintro rfl
    exact roundTrips_nil hn hfs hpath hlength hwrite

theorem wellFormed_booted (h : Ramfs.WellFormed fs) (input : ℕ → Option Text) : Ramfs.WellFormed (booted fs input).fs := h

theorem wellFormed_newSystem : Ramfs.WellFormed newSystem.fs := by
  have hwell : Ramfs.WellFormed (Ramfs.fsInit Ramfs.blank).2 := (Ramfs.fsInit_ends Ramfs.blank).state.2
  exact wellFormed_booted hwell _

theorem roundTrips_iff_empty : RoundTrips 3 ⟨0, by decide⟩ (chars "/A") [] newSystem := by
  have hpath : Quotable (chars "/A") := by
    unfold Quotable
    decide +kernel
  have hnone : Storable [] := ⟨by simp, by simp, by simp, by decide⟩
  exact (roundTrips_iff (s := newSystem) (by decide) wellFormed_newSystem hpath (by decide +kernel) (by decide +kernel) hnone).2 rfl

/-- One string is enough. -/
theorem not_roundTrips : ¬ ∀ (n : ℕ) (c : Chan) (path : Text) (strings : List Text) (s : Interp), 2 < n → Ramfs.WellFormed s.fs →
    Quotable path → path.length < 64 → (Ramfs.writeFile (some path) (some []) 0 s.fs).1 = .ok () → Storable strings →
    RoundTrips n c path strings s := by
  intro hall
  have hstrings : Storable [chars "HELLO"] := by
    refine ⟨?_, ?_, ?_, by decide⟩ <;> simp only [List.mem_singleton, forall_eq]
    · unfold Quotable
      decide +kernel
    · decide
    · decide
  have hpath : Quotable (chars "/A") := by
    unfold Quotable
    decide +kernel
  have hround := hall 3 ⟨0, by decide⟩ (chars "/A") [chars "HELLO"] newSystem (by decide) wellFormed_newSystem hpath (by decide +kernel) (by decide +kernel) hstrings
  have hends := hround.ends
  rw [basicRun_storeAndLoad_fails (s := newSystem) (by decide) wellFormed_newSystem.tree hpath (by decide) hstrings (by simp)] at hends
  exact absurd (Outcome.ok.inj hends) (by decide)

end Tg11Kernel.Basic
