import Tg11Kernel.Shell.Completion

/-! The prompt of the shell: what every key does to the line. A key comes as its
scancode, and the modifiers that are held are part of the state. The lengths, the cursor and
the NUL of the line are kept in every run of keys, and no access is outside its array,
provided that no path of a file on a FAT drive is too long for the array that takes it and
that no command leaves the text editor open behind a line that is not empty any more. -/

namespace Tg11Kernel.Shell

open Lib Exec

/-- What a command left behind: `input_buffer` and `cursor_pos`, the clipboard, the modifiers that were
polled, and whether it opened the text editor. -/
structure Ran where
  inputBuffer : Block INPUT_BUFFER_SIZE
  cursorPos : ℕ
  clipboard : Clipboard
  keys : Modifiers
  editorActive : Bool

/-- The text editor is not left open behind a cursor that is not at the start. -/
def Ran.Tidy (r : Ran) : Prop := r.editorActive = true → r.cursorPos = 0

/-- What a key did in the text editor, and whether it closed it. -/
structure Edited where
  clipboard : Clipboard
  keys : Modifiers
  closed : Bool

/-- A key: its scancode, what the file systems answer meanwhile, and what the command does that it
starts or the text editor does with it. -/
structure Key where
  scancode : UInt8
  answers : Answers
  ran : Ran
  edited : Edited

namespace Line

/-! ### Scancodes -/

def baseChars : List (UInt8 × Char) := [
    (0x02, '1'), (0x03, '2'), (0x04, '3'), (0x05, '4'), (0x06, '5'), (0x07, '6'), (0x08, '7'), (0x09, '8'), (0x0A, '9'),
    (0x0B, '0'), (0x0C, '-'), (0x0D, '='), (0x10, 'q'), (0x11, 'w'), (0x12, 'e'), (0x13, 'r'), (0x14, 't'), (0x15, 'y'),
    (0x16, 'u'), (0x17, 'i'), (0x18, 'o'), (0x19, 'p'), (0x1A, '['), (0x1B, ']'), (0x1E, 'a'), (0x1F, 's'), (0x20, 'd'),
    (0x21, 'f'), (0x22, 'g'), (0x23, 'h'), (0x24, 'j'), (0x25, 'k'), (0x26, 'l'), (0x27, ';'), (0x28, '\''), (0x29, '`'),
    (0x2B, '\\'), (0x2C, 'z'), (0x2D, 'x'), (0x2E, 'c'), (0x2F, 'v'), (0x30, 'b'), (0x31, 'n'), (0x32, 'm'), (0x33, ','),
    (0x34, '.'), (0x35, '/'), (0x37, '*'), (0x39, ' '), (0x47, '7'), (0x48, '8'), (0x49, '9'), (0x4A, '-'), (0x4B, '4'),
    (0x4C, '5'), (0x4D, '6'), (0x4E, '+'), (0x4F, '1'), (0x50, '2'), (0x51, '3'), (0x52, '0'), (0x53, '.')]

def shiftedChars : List (UInt8 × Char) := [
    (0x02, '!'), (0x03, '@'), (0x04, '#'), (0x05, '$'), (0x06, '%'), (0x07, '^'), (0x08, '&'), (0x09, '*'), (0x0A, '('),
    (0x0B, ')'), (0x0C, '_'), (0x0D, '+'), (0x10, 'Q'), (0x11, 'W'), (0x12, 'E'), (0x13, 'R'), (0x14, 'T'), (0x15, 'Y'),
    (0x16, 'U'), (0x17, 'I'), (0x18, 'O'), (0x19, 'P'), (0x1A, '\x7b'), (0x1B, '\x7d'), (0x1E, 'A'), (0x1F, 'S'),
    (0x20, 'D'), (0x21, 'F'), (0x22, 'G'), (0x23, 'H'), (0x24, 'J'), (0x25, 'K'), (0x26, 'L'), (0x27, ':'), (0x28, '"'),
    (0x29, '~'), (0x2B, '|'), (0x2C, 'Z'), (0x2D, 'X'), (0x2E, 'C'), (0x2F, 'V'), (0x30, 'B'), (0x31, 'N'), (0x32, 'M'),
    (0x33, '<'), (0x34, '>'), (0x35, '?'), (0x37, '*'), (0x39, ' ')]

/-- The character of a scancode in a table, or a NUL. -/
def charOf (table : List (UInt8 × Char)) (sc : UInt8) : UInt8 := ((table.lookup sc).map Char.toUInt8).getD 0

/-- `translate_scancode` -/
def translateScancode (keys : Modifiers) (sc : UInt8) : UInt8 :=
  let base := charOf baseChars sc
  let isLetter : Bool := ('a' : UInt8) ≤ base ∧ base ≤ ('z' : UInt8)
  let useShift := if isLetter && keys.capsLockOn then !keys.shiftHeld else keys.shiftHeld
  if useShift ∧ charOf shiftedChars sc ≠ 0 then charOf shiftedChars sc else base

/-! ### Submission -/

/-- `run_command`: what the command leaves, and then an empty line and a prompt, unless the text
editor is open. -/
def runCommand (r : Ran) : Exec Line Unit := do
  let s ← Exec.state
  if s.inputLength = 0 then Exec.modify prompt
  else
    let _ ← input.readFirst s.inputLength
    Exec.modify fun s => { s with
      inputBuffer := r.inputBuffer, cursorPos := r.cursorPos, clipboard := r.clipboard, keys := r.keys
      editorActive := r.editorActive }
    dropLine
    if r.editorActive then pure () else Exec.modify prompt

/-- The line is not found in the history. -/
def refuse : Exec Line Bool := do
  dropLine
  Exec.modify prompt
  pure false

/-- `!!`, with the rest of the line behind it. -/
def repeatLast : Exec Line Bool := do
  let s ← Exec.state
  if 2 ≤ s.historyCount then
    let typed ← input.readText
    let suffix := pushText INPUT_BUFFER_SIZE [] (if typed[2]? = some (' ' : UInt8) then typed.drop 3 else [])
    let last ← readEntry (s.historyCount - 2)
    let text := pushText INPUT_BUFFER_SIZE [] last
    fill (if suffix ≠ [] ∧ text.length + 1 + suffix.length < INPUT_BUFFER_SIZE then text ++ (' ' : UInt8) :: suffix else text)
    let _ ← input.readText
    pure true
  else refuse

/-- `n = n * 10 + (c - '0')` along the digits -/
def entryNumber (digits : Text) : Int32 :=
  digits.foldl (fun n c => n * 10 + (c - ('0' : UInt8)).toUInt32.toInt32) 0

def isDigit (c : UInt8) : Bool := ('0' : UInt8) ≤ c ∧ c ≤ ('9' : UInt8)

/-- `!N` -/
def repeatEntry : Exec Line Bool := do
  let s ← Exec.state
  let line ← input.readText
  let n := (entryNumber (line.tail.takeWhile isDigit)).toInt
  if 1 ≤ n ∧ n ≤ (s.historyCount : ℤ) - 1 then
    let entry ← readEntry (n.toNat - 1)
    fill (pushText INPUT_BUFFER_SIZE [] entry)
    let _ ← input.readText
    pure true
  else refuse

/-- History expansion. It returns whether there is a command to run. -/
def expandHistory : Exec Line Bool := do
  let first ← input.readAt 0
  let second ← input.readAt 1
  let third ← input.readAt 2
  if first ≠ ('!' : UInt8) then pure true
  else if second = ('!' : UInt8) ∧ (third = 0 ∨ third = (' ' : UInt8)) then repeatLast
  else if ('1' : UInt8) ≤ second ∧ second ≤ ('9' : UInt8) then repeatEntry
  else pure true

/-- `submit_current_line` -/
def submitCurrentLine (r : Ran) : Exec Line Unit := do
  let s ← Exec.state
  input.writeAt s.inputLength 0
  Exec.modify fun s => { s with historyPos := none }
  historyPush
  if ← expandHistory then runCommand r else pure ()

/-! ### Moving the cursor -/

/-- `char_is_word` -/
def charIsWord (c : UInt8) : Bool :=
  (('A' : UInt8) ≤ c ∧ c ≤ ('Z' : UInt8)) ∨ (('a' : UInt8) ≤ c ∧ c ≤ ('z' : UInt8)) ∨ isDigit c ∨ c = ('_' : UInt8)

/-- `while (i > 0 && p(input_buffer[i - 1])) i--` -/
def backWhile (p : UInt8 → Bool) : ℕ → Exec Line ℕ
  | 0 => pure 0
  | i + 1 => do
    let c ← input.readAt i
    if p c then backWhile p i else pure (i + 1)

/-- `while (i < input_length && p(input_buffer[i])) i++`, where `k` places are left. -/
def forwardWhile (p : UInt8 → Bool) (i : ℕ) : ℕ → Exec Line ℕ
  | 0 => pure i
  | k + 1 => do
    let c ← input.readAt i
    if p c then forwardWhile p (i + 1) k else pure i

/-- The cursor moves, with the selection when shift is held. -/
def moveCursor (target : Exec Line ℕ) : Exec Line Unit := do
  Exec.modify beginSelectionIfNeeded
  let p ← target
  Exec.modify fun s => { s with cursorPos := p }.finishSelectionMove
  redraw

/-- Where the left arrow leads. -/
def leftOf : Exec Line ℕ := do
  let s ← Exec.state
  if s.keys.ctrlHeld then
    let i ← backWhile (fun c => !charIsWord c) s.cursorPos
    backWhile charIsWord i
  else pure (s.cursorPos - 1)

/-- Where the right arrow leads. -/
def rightOf : Exec Line ℕ := do
  let s ← Exec.state
  if s.keys.ctrlHeld then
    let i ← forwardWhile charIsWord s.cursorPos (s.inputLength - s.cursorPos)
    forwardWhile (fun c => !charIsWord c) i (s.inputLength - i)
  else pure (s.cursorPos + 1)

/-! ### The keys -/

def setKeys (f : Modifiers → Modifiers) : Exec Line Unit := Exec.modify fun s => { s with keys := f s.keys }

/-- `insert_character` -/
def insertCharacter (c : UInt8) : Exec Line Unit := do
  let s ← Exec.state
  if INPUT_BUFFER_SIZE - 1 ≤ s.inputLength ∧ ¬ s.hasSelection then pure () else insertText [c]

/-- Do something with a key, which is used up then. -/
def used (m : Exec Line Unit) : Exec Line Bool := do
  m
  pure true

/-- `rsearch_match = rsearch_find(…)`, where `count` entries are searched, and the screen. -/
def searchAgain (count : ℕ) : Exec Line Unit := do
  let found ← rsearchFind count
  Exec.modify fun s => { s with rsearchMatch := found }
  rsearchRedraw

/-- `rsearch_term[--rsearch_len] = '\0'` -/
def shortenTerm : Exec Line Unit := do
  Exec.modify fun s => { s with rsearchLen := s.rsearchLen - 1 }
  let s ← Exec.state
  term.writeAt s.rsearchLen 0

/-- `rsearch_term[rsearch_len++] = c; rsearch_term[rsearch_len] = '\0'` -/
def lengthenTerm (c : UInt8) : Exec Line Unit := do
  let s ← Exec.state
  term.writeAt s.rsearchLen c
  Exec.modify fun s => { s with rsearchLen := s.rsearchLen + 1 }
  term.writeAt (s.rsearchLen + 1) 0

/-- A key of the reverse search. It returns whether the key is used up. -/
def rsearchKey (k : Key) : Exec Line Bool := do
  let s ← Exec.state
  if k.scancode = 0xE0 then used (setKeys fun m => { m with extendedKey := true })
  else if k.scancode = 0x1D ∨ k.scancode = 0x9D then used (setKeys fun m => { m with ctrlHeld := decide (k.scancode = 0x1D) })
  else if k.scancode = 0x2A ∨ k.scancode = 0x36 then used (setKeys fun m => { m with shiftHeld := true })
  else if k.scancode = 0xAA ∨ k.scancode = 0xB6 then used (setKeys fun m => { m with shiftHeld := false })
  else if 0x80 ≤ k.scancode then pure true
  else if s.keys.extendedKey then used (setKeys fun m => { m with extendedKey := false })
  else if s.keys.ctrlHeld ∧ k.scancode = 0x13 then
    match s.rsearchMatch with
    | some (i + 1) => used (searchAgain (i + 1))
    | _ => used rsearchRedraw
  else if k.scancode = 0x01 then used rsearchCancel
  else if k.scancode = 0x1C then do
    rsearchAccept
    used (submitCurrentLine k.ran)
  else if k.scancode = 0x0E then
    if 0 < s.rsearchLen then do
      shortenTerm
      used (searchAgain s.historyCount)
    else used rsearchRedraw
  else if s.keys.ctrlHeld ∧ (k.scancode = 0x2E ∨ k.scancode = 0x22) then used rsearchCancel
  else if translateScancode s.keys k.scancode ≠ 0 ∧ s.rsearchLen < 62 then do
    lengthenTerm (translateScancode s.keys k.scancode)
    used (searchAgain s.historyCount)
  else do
    rsearchAccept
    pure false

/-- The delete key. -/
def deleteForward : Exec Line Unit := do
  let s ← Exec.state
  if s.hasSelection then deleteSelection
  else if s.cursorPos < s.inputLength then deleteRange s.cursorPos (s.cursorPos + 1)
  else pure ()

/-- A key behind the prefix `0xE0`. Ctrl+Shift+R boots the machine again. -/
def extendedScancode (k : Key) : Exec Line Unit := do
  let s ← Exec.state
  if k.scancode = 0x1D then setKeys fun m => { m with ctrlHeld := true }
  else if k.scancode = 0x9D then setKeys fun m => { m with ctrlHeld := false }
  else if k.scancode = 0x38 then setKeys fun m => { m with altHeld := true }
  else if k.scancode = 0xB8 then setKeys fun m => { m with altHeld := false }
  else if k.scancode = 0x13 ∧ s.keys.ctrlHeld ∧ s.keys.shiftHeld then pure ()
  else if k.scancode = 0x1C then submitCurrentLine k.ran
  else if k.scancode = 0x35 then insertCharacter ('/' : UInt8)
  else if k.scancode = 0x48 then handleArrowUp
  else if k.scancode = 0x50 then handleArrowDown
  else if k.scancode = 0x4B ∧ 0 < s.cursorPos then moveCursor leftOf
  else if k.scancode = 0x4D ∧ s.cursorPos < s.inputLength then moveCursor rightOf
  else if k.scancode = 0x47 then moveCursor (pure 0)
  else if k.scancode = 0x4F then moveCursor (pure s.inputLength)
  else if k.scancode = 0x53 then deleteForward
  else pure ()

/-- `terminal_abort_input_line` -/
def abortInputLine : Exec Line Unit := do
  Exec.modify fun s => { s with inputLength := 0, cursorPos := 0 }
  input.writeAt 0 0
  Exec.modify fun s => s.clearSelection.prompt

/-- Ctrl+C -/
def interrupt : Exec Line Unit := do
  let s ← Exec.state
  if s.inputLength = 0 then pure () else abortInputLine

/-- Ctrl+L -/
def clearScreen : Exec Line Unit := do
  let s ← Exec.state
  input.writeAt s.inputLength 0
  showLine

/-- Ctrl+U -/
def killBefore : Exec Line Unit := do
  let s ← Exec.state
  if 0 < s.cursorPos then deleteRange 0 s.cursorPos else pure ()

/-- Ctrl+K -/
def killAfter : Exec Line Unit := do
  let s ← Exec.state
  if s.cursorPos < s.inputLength then deleteRange s.cursorPos s.inputLength else pure ()

/-- Ctrl+W -/
def killWord : Exec Line Unit := do
  let s ← Exec.state
  if 0 < s.cursorPos then do
    let i ← backWhile (fun c => decide (c = (' ' : UInt8))) s.cursorPos
    let i ← backWhile (fun c => decide (c ≠ (' ' : UInt8))) i
    deleteRange i s.cursorPos
  else pure ()

/-- Ctrl+R -/
def startSearch : Exec Line Unit := do
  Exec.modify fun s => { s with rsearchActive := true, rsearchLen := 0 }
  term.writeAt 0 0
  Exec.modify fun s => { s with rsearchMatch := none }
  rsearchRedraw

/-- Ctrl+A -/
def selectAll : Exec Line Unit := do
  Exec.modify fun s => { s with selectionActive := true, selectionAnchor := 0, cursorPos := s.inputLength }
  redraw

/-- Ctrl+V -/
def pasteClipboard : Exec Line Unit := do
  let s ← Exec.state
  insertText (s.clipboard.bytes.firstBytes s.clipboard.length)

/-- Control and a letter, or `none` where the key goes on as a character. -/
def ctrlScancode (sc : UInt8) : Option (Exec Line Unit) :=
  if sc = 0x26 then some clearScreen
  else if sc = 0x2E then some interrupt
  else if sc = 0x16 then some killBefore
  else if sc = 0x25 then some killAfter
  else if sc = 0x11 then some killWord
  else if sc = 0x13 then some startSearch
  else if sc = 0x1E then some selectAll
  else if sc = 0x2D then some (copySelection true)
  else if sc = 0x2F then some pasteClipboard
  else none

/-- Enter, or a character. -/
def characterScancode (k : Key) : Exec Line Unit := do
  let s ← Exec.state
  let c := translateScancode s.keys k.scancode
  if k.scancode = 0x1C then submitCurrentLine k.ran
  else if c = 0 ∨ INPUT_BUFFER_SIZE - 1 ≤ s.inputLength then pure ()
  else insertCharacter c

/-- A key that is neither extended nor taken by the reverse search. Escape and F12 are watched for a
panic, and Ctrl+Shift+Q shuts the machine down. -/
def plainScancode (k : Key) : Exec Line Unit := do
  let s ← Exec.state
  if k.scancode = 0x2A ∨ k.scancode = 0x36 then setKeys fun m => { m with shiftHeld := true }
  else if k.scancode = 0xAA ∨ k.scancode = 0xB6 then setKeys fun m => { m with shiftHeld := false }
  else if k.scancode = 0x1D then setKeys fun m => { m with ctrlHeld := true }
  else if k.scancode = 0x9D then setKeys fun m => { m with ctrlHeld := false }
  else if k.scancode = 0x38 then setKeys fun m => { m with altHeld := true }
  else if k.scancode = 0xB8 then setKeys fun m => { m with altHeld := false }
  else if k.scancode = 0x10 ∧ s.keys.ctrlHeld ∧ s.keys.shiftHeld then pure ()
  else if k.scancode = 0x01 ∨ k.scancode = 0x81 ∨ k.scancode = 0x58 ∨ k.scancode = 0xD8 then pure ()
  else if k.scancode = 0x3A then setKeys fun m => { m with capsLockOn := !m.capsLockOn }
  else if k.scancode = 0x0F then handleTab k.answers
  else if 0x80 ≤ k.scancode then pure ()
  else if k.scancode = 0x0E then handleBackspace
  else match if s.keys.ctrlHeld then ctrlScancode k.scancode else none with
  | some m => m
  | none => characterScancode k

/-- `editor_handle_scancode`, with `editor_close` where the key closes the editor. -/
def editorScancode (e : Edited) : Exec Line Unit := do
  Exec.modify fun s => { s with clipboard := e.clipboard, keys := e.keys }
  if e.closed then
    Exec.modify fun s => { s with editorActive := false, inputLength := 0, cursorPos := 0 }
    input.writeAt 0 0
    Exec.modify prompt
  else pure ()

/-- `handle_scancode` -/
def handleScancode (k : Key) : Exec Line Unit := do
  let s ← Exec.state
  if s.editorActive then editorScancode k.edited
  else
    let used ← if s.rsearchActive then rsearchKey k else pure false
    let s ← Exec.state
    if used then pure ()
    else if k.scancode = 0xE0 then setKeys fun m => { m with extendedKey := true }
    else if s.keys.extendedKey then do
      setKeys fun m => { m with extendedKey := false }
      extendedScancode k
    else plainScancode k

/-! ### Submission is safe -/

section Safety

variable {s : Line}

theorem Filled.terminated (h : Filled s) : s.inputBuffer.Terminated := terminated_of_ended h.length h.ended

theorem Sound.filled (h : Sound s) : Filled s := { h with }

variable {r : Ran} {text : Text} {i : ℕ} {k : Key} {keys : List Key}

theorem runCommand_safe (hr : r.Tidy) (h : Filled s) : Safe (runCommand r) s := by
  apply Ends.state_bind
  apply Ends.ite
  · intro hempty
    apply Ends.modify
    apply h.toKept.prompt hempty
    rw [← hempty]
    exact h.ended
  · intro _
    apply Buffer.readFirst_bind h.length.le
    apply Ends.modify_bind
    apply (dropLine_ends (s := { s with
      inputBuffer := r.inputBuffer, cursorPos := r.cursorPos, clipboard := r.clipboard, keys := r.keys
      editorActive := r.editorActive }) { h with }).bind
    intro _ t hdrop
    apply Ends.ite
    · intro hopen
      apply Ends.pure
      apply hdrop.toKept.sound
      · rw [hdrop.cursor_eq]
        exact (hr hopen).le.trans (Nat.zero_le _)
      · rw [hdrop.length_eq]
        exact hdrop.ended
    · exact fun _ => Ends.modify (hdrop.toKept.prompt hdrop.length_eq hdrop.ended)

/-- Where an expansion of the history leaves the line. -/
def Expanded (run : Bool) (t : Line) : Prop := if run then Filled t else Sound t

theorem refuse_ends (h : Kept s) : Ends refuse s Expanded fun _ => False := by
  apply (dropLine_ends h).bind
  intro _ t hdrop
  apply Ends.modify_bind
  exact Ends.pure (hdrop.toKept.prompt hdrop.length_eq hdrop.ended)

theorem fill_expanded (h : Kept s) (ht : text.length < INPUT_BUFFER_SIZE) :
    Ends (do fill text; let _ ← input.readText; pure true) s Expanded fun _ => False := by
  apply (fill_ends h ht).bind
  rintro _ t ⟨hfill, -, -⟩
  exact Buffer.readText_bind hfill.terminated (Ends.pure hfill)

theorem length_pushText_nil (text : Text) : (pushText INPUT_BUFFER_SIZE [] text).length < INPUT_BUFFER_SIZE :=
  (length_pushText (Nat.zero_le _)).trans_lt (by decide)

theorem length_withSuffix {suffix : Text} (ht : text.length < INPUT_BUFFER_SIZE) :
    (if suffix ≠ [] ∧ text.length + 1 + suffix.length < INPUT_BUFFER_SIZE then text ++ (' ' : UInt8) :: suffix
      else text).length < INPUT_BUFFER_SIZE := by
  split_ifs with hroom
  · rw [List.length_append, List.length_cons]
    omega
  · exact ht

theorem repeatLast_ends (h : Sound s) : Ends repeatLast s Expanded fun _ => False := by
  apply Ends.state_bind
  apply Ends.ite
  · intro _
    apply Buffer.readText_bind h.terminated
    apply readEntry_bind h.toKept
    intro _
    exact fill_expanded h.toKept (length_withSuffix (length_pushText_nil _))
  · exact fun _ => refuse_ends h.toKept

theorem repeatEntry_ends (h : Sound s) : Ends repeatEntry s Expanded fun _ => False := by
  apply Ends.state_bind
  apply Buffer.readText_bind h.terminated
  apply Ends.ite
  · intro _
    apply readEntry_bind h.toKept
    exact fun _ => fill_expanded h.toKept (length_pushText_nil _)
  · exact fun _ => refuse_ends h.toKept

theorem expandHistory_ends (h : Sound s) : Ends expandHistory s Expanded fun _ => False := by
  apply Buffer.readAt_bind (by decide)
  apply Buffer.readAt_bind (by decide)
  apply Buffer.readAt_bind (by decide)
  apply Ends.ite
  · exact fun _ => Ends.pure h.filled
  · intro _
    apply Ends.ite
    · exact fun _ => repeatLast_ends h
    · intro _
      apply Ends.ite
      · exact fun _ => repeatEntry_ends h
      · exact fun _ => Ends.pure h.filled

theorem submitCurrentLine_safe (hr : r.Tidy) (h : Sound s) : Safe (submitCurrentLine r) s := by
  have hlength := h.length
  have hended : Sound (input.put (s.inputBuffer.set s.inputLength 0) s) :=
    { h with ended := Block.get_set_self _ 0 hlength }
  apply Ends.state_bind
  apply Buffer.writeAt_bind hlength
  apply Ends.modify_bind
  apply (historyPush_safe (s := { input.put (s.inputBuffer.set s.inputLength 0) s with historyPos := none }) { hended with }).bind
  intro t ht
  apply (expandHistory_ends ht).bind
  intro run u hu
  cases run with
  | true => exact runCommand_safe hr hu
  | false => exact Ends.pure hu

/-! ### Moving is safe -/

theorem backWhile_ends (p : UInt8 → Bool) (hi : i ≤ INPUT_BUFFER_SIZE) :
    Ends (backWhile p i) s (fun j t => t = s ∧ j ≤ i) fun _ => False := by
  induction i with
  | zero => exact Ends.pure ⟨rfl, le_rfl⟩
  | succ i ih =>
    apply Buffer.readAt_bind hi
    apply Ends.ite
    · intro _
      apply (ih (Nat.le_of_succ_le hi)).mono
      · exact fun j t h => ⟨h.1, h.2.trans (Nat.le_succ i)⟩
      · exact fun _ h => h
    · exact fun _ => Ends.pure ⟨rfl, le_rfl⟩

theorem forwardWhile_ends (p : UInt8 → Bool) {k : ℕ} (hk : i + k ≤ INPUT_BUFFER_SIZE) :
    Ends (forwardWhile p i k) s (fun j t => t = s ∧ j ≤ i + k) fun _ => False := by
  induction k generalizing i with
  | zero => exact Ends.pure ⟨rfl, le_rfl⟩
  | succ k ih =>
    apply Buffer.readAt_bind (by omega)
    apply Ends.ite
    · intro _
      apply (ih (by omega)).mono
      · rintro j _ ⟨rfl, hj⟩
        exact ⟨rfl, by omega⟩
      · exact fun _ h => h
    · exact fun _ => Ends.pure ⟨rfl, by omega⟩

theorem moveCursor_safe {target : Exec Line ℕ} (h : Sound s)
    (htarget : ∀ t, Sound t → t.inputLength = s.inputLength → t.cursorPos = s.cursorPos →
      Ends target t (fun p u => u = t ∧ p ≤ s.inputLength) fun _ => False) : Safe (moveCursor target) s := by
  have hbegin : s.beginSelectionIfNeeded.inputLength = s.inputLength ∧ s.beginSelectionIfNeeded.cursorPos = s.cursorPos := by
    unfold beginSelectionIfNeeded
    split_ifs <;> exact ⟨rfl, rfl⟩
  apply Ends.modify_bind
  apply (htarget _ h.beginSelectionIfNeeded hbegin.1 hbegin.2).bind
  rintro p _ ⟨rfl, hp⟩
  apply Ends.modify_bind
  apply redraw_safe
  apply Sound.finishSelectionMove
  exact h.beginSelectionIfNeeded.move (hp.trans hbegin.1.ge)

theorem leftOf_ends (h : Sound s) : Ends leftOf s (fun p t => t = s ∧ p ≤ s.inputLength) fun _ => False := by
  have hcursor := h.cursor
  have hlength := h.length
  apply Ends.state_bind
  apply Ends.ite
  · intro _
    apply (backWhile_ends _ (by omega)).bind
    rintro i _ ⟨rfl, hi⟩
    apply (backWhile_ends _ (by omega)).mono
    · exact fun j t hj => ⟨hj.1, hj.2.trans (hi.trans hcursor)⟩
    · exact fun _ h => h
  · exact fun _ => Ends.pure ⟨rfl, by omega⟩

theorem rightOf_ends (h : Sound s) (hright : s.cursorPos < s.inputLength) :
    Ends rightOf s (fun p t => t = s ∧ p ≤ s.inputLength) fun _ => False := by
  have hlength := h.length
  apply Ends.state_bind
  apply Ends.ite
  · intro _
    apply (forwardWhile_ends _ (by omega)).bind
    rintro i _ ⟨rfl, hi⟩
    apply (forwardWhile_ends _ (by omega)).mono
    · exact fun j t hj => ⟨hj.1, by omega⟩
    · exact fun _ h => h
  · exact fun _ => Ends.pure ⟨rfl, hright⟩

/-! ### Every key is safe -/

theorem setKeys_safe (f : Modifiers → Modifiers) (h : Sound s) : Safe (setKeys f) s := Ends.modify { h with }

theorem insertCharacter_safe (c : UInt8) (h : Sound s) : Safe (insertCharacter c) s := by
  apply Ends.state_bind
  apply Ends.ite
  · exact fun _ => Ends.pure h
  · exact fun _ => insertText_safe [c] h

theorem searchAgain_safe (count : ℕ) (h : Sound s) : Safe (searchAgain count) s := by
  apply (rsearchFind_ends count h).bind
  intro found t ht
  apply Ends.modify_bind
  apply rsearchRedraw_safe
  exact { ht with }

theorem shortenTerm_safe (h : Sound s) : Safe shortenTerm s := by
  have hterm : s.rsearchLen - 1 < 63 := (Nat.sub_le _ _).trans_lt h.term
  apply Ends.modify_bind
  apply Ends.state_bind
  apply Buffer.writeAt_ends (hterm.trans (by decide))
  exact { h with term := hterm }

theorem lengthenTerm_safe (c : UInt8) (h : Sound s) (hlt : s.rsearchLen < 62) : Safe (lengthenTerm c) s := by
  apply Ends.state_bind
  apply Buffer.writeAt_bind (by omega)
  apply Ends.modify_bind
  apply Buffer.writeAt_ends (by omega)
  exact { h with term := Nat.succ_lt_succ hlt }

/-- After a key of the reverse search: if the key is not used up, the match was accepted. -/
def Searched (s : Line) (used : Bool) (t : Line) : Prop :=
  Sound t ∧ (used = false → t.line = s.acceptedLine ∧ t.keys = s.keys ∧ s.keys.extendedKey = false)

theorem used_ends {m : Exec Line Unit} {t : Line} (hm : Safe m t) : Ends (used m) t (Searched s) fun _ => False := by
  apply Ends.bind hm
  exact fun _ u hu => Ends.pure ⟨hu, nofun⟩

theorem rsearchKey_ends (hr : k.ran.Tidy) (h : Sound s) : Ends (rsearchKey k) s (Searched s) fun _ => False := by
  apply Ends.state_bind
  apply Ends.ite
  · exact fun _ => used_ends (setKeys_safe _ h)
  intro _
  apply Ends.ite
  · exact fun _ => used_ends (setKeys_safe _ h)
  intro _
  apply Ends.ite
  · exact fun _ => used_ends (setKeys_safe _ h)
  intro _
  apply Ends.ite
  · exact fun _ => used_ends (setKeys_safe _ h)
  intro _
  apply Ends.ite
  · exact fun _ => Ends.pure ⟨h, nofun⟩
  intro _
  apply Ends.ite
  · exact fun _ => used_ends (setKeys_safe _ h)
  intro hextended
  apply Ends.ite
  · intro _
    split
    · exact used_ends (searchAgain_safe _ h)
    · exact used_ends (rsearchRedraw_safe h)
  intro _
  apply Ends.ite
  · exact fun _ => used_ends (rsearchCancel_safe h)
  intro _
  apply Ends.ite
  · intro _
    apply (rsearchAccept_ends h).bind
    exact fun _ t ht => used_ends (submitCurrentLine_safe hr ht.1)
  intro _
  apply Ends.ite
  · intro _
    apply Ends.ite
    · intro _
      apply Ends.bind (shortenTerm_safe h)
      exact fun _ t ht => used_ends (searchAgain_safe _ ht)
    · exact fun _ => used_ends (rsearchRedraw_safe h)
  intro _
  apply Ends.ite
  · exact fun _ => used_ends (rsearchCancel_safe h)
  intro _
  apply Ends.ite
  · intro hc
    apply Ends.bind (lengthenTerm_safe _ h hc.2)
    exact fun _ t ht => used_ends (searchAgain_safe _ ht)
  · intro _
    apply (rsearchAccept_ends h).bind
    rintro _ t ⟨ht, hline, hkeys⟩
    exact Ends.pure ⟨ht, fun _ => ⟨hline, hkeys, by simpa using hextended⟩⟩

theorem deleteForward_safe (h : Sound s) : Safe deleteForward s := by
  apply Ends.state_bind
  apply Ends.ite
  · exact fun _ => deleteSelection_safe h
  · intro _
    apply Ends.ite
    · exact fun _ => deleteRange_safe h
    · exact fun _ => Ends.pure h

theorem extendedScancode_safe (hr : k.ran.Tidy) (h : Sound s) : Safe (extendedScancode k) s := by
  apply Ends.state_bind
  apply Ends.ite
  · exact fun _ => setKeys_safe _ h
  intro _
  apply Ends.ite
  · exact fun _ => setKeys_safe _ h
  intro _
  apply Ends.ite
  · exact fun _ => setKeys_safe _ h
  intro _
  apply Ends.ite
  · exact fun _ => setKeys_safe _ h
  intro _
  apply Ends.ite
  · exact fun _ => Ends.pure h
  intro _
  apply Ends.ite
  · exact fun _ => submitCurrentLine_safe hr h
  intro _
  apply Ends.ite
  · exact fun _ => insertCharacter_safe _ h
  intro _
  apply Ends.ite
  · exact fun _ => handleArrowUp_safe h
  intro _
  apply Ends.ite
  · exact fun _ => handleArrowDown_safe h
  intro _
  apply Ends.ite
  · intro _
    apply moveCursor_safe h
    intro t ht hlength _
    rw [← hlength]
    exact leftOf_ends ht
  intro _
  apply Ends.ite
  · intro hright
    apply moveCursor_safe h
    intro t ht hlength hcursor
    rw [← hlength]
    exact rightOf_ends ht (by rw [hlength, hcursor]; exact hright.2)
  intro _
  apply Ends.ite
  · exact fun _ => moveCursor_safe h fun _ _ _ _ => Ends.pure ⟨rfl, Nat.zero_le _⟩
  intro _
  apply Ends.ite
  · exact fun _ => moveCursor_safe h fun _ _ _ _ => Ends.pure ⟨rfl, le_rfl⟩
  intro _
  apply Ends.ite
  · exact fun _ => deleteForward_safe h
  · exact fun _ => Ends.pure h

theorem emptied (h : Kept s) : Sound (Line.clearSelection
    (input.put ((s.inputBuffer).set 0 0) { s with inputLength := 0, cursorPos := 0 })) := by
  have hpos : 0 < INPUT_BUFFER_SIZE := by decide
  exact { h with
    length := hpos
    anchor := hpos
    cursor := le_rfl
    ended := Block.get_set_self _ 0 hpos }

section

variable (h : Sound s)
include h

theorem abortInputLine_safe : Safe abortInputLine s := by
  apply Ends.modify_bind
  apply Buffer.writeAt_bind (by decide)
  apply Ends.modify
  exact (emptied h.toKept).toKept.prompt rfl (emptied h.toKept).ended

theorem interrupt_safe : Safe interrupt s := by
  apply Ends.state_bind
  apply Ends.ite
  · exact fun _ => Ends.pure h
  · exact fun _ => abortInputLine_safe h

theorem clearScreen_safe : Safe clearScreen s := by
  have hlength := h.length
  apply Ends.state_bind
  apply Buffer.writeAt_bind hlength
  exact showLine_safe { h with ended := Block.get_set_self _ 0 hlength }

theorem killBefore_safe : Safe killBefore s := by
  apply Ends.state_bind
  apply Ends.ite
  · exact fun _ => deleteRange_safe h
  · exact fun _ => Ends.pure h

theorem killAfter_safe : Safe killAfter s := by
  apply Ends.state_bind
  apply Ends.ite
  · exact fun _ => deleteRange_safe h
  · exact fun _ => Ends.pure h

theorem killWord_safe : Safe killWord s := by
  have hlength := h.length
  have hcursor := h.cursor
  apply Ends.state_bind
  apply Ends.ite
  · intro _
    apply (backWhile_ends _ (by omega)).bind
    rintro i _ ⟨rfl, hi⟩
    apply (backWhile_ends _ (by omega)).bind
    rintro j _ ⟨rfl, -⟩
    exact deleteRange_safe h
  · exact fun _ => Ends.pure h

theorem startSearch_safe : Safe startSearch s := by
  apply Ends.modify_bind
  apply Buffer.writeAt_bind (by decide)
  apply Ends.modify_bind
  apply rsearchRedraw_safe
  exact { h with term := (by decide : 0 < 63) }

theorem selectAll_safe : Safe selectAll s := by
  apply Ends.modify_bind
  apply redraw_safe
  exact { h with
    anchor := (by decide : 0 < INPUT_BUFFER_SIZE)
    cursor := le_rfl }

theorem ctrlScancode_safe {sc : UInt8} {m : Exec Line Unit} (hm : ctrlScancode sc = some m) : Safe m s := by
  unfold ctrlScancode at hm
  split_ifs at hm <;> cases hm
  · exact clearScreen_safe h
  · exact interrupt_safe h
  · exact killBefore_safe h
  · exact killAfter_safe h
  · exact killWord_safe h
  · exact startSearch_safe h
  · exact selectAll_safe h
  · exact copySelection_safe true h
  · exact Ends.state_bind (insertText_safe _ h)

end

theorem characterScancode_safe (hr : k.ran.Tidy) (h : Sound s) : Safe (characterScancode k) s := by
  apply Ends.state_bind
  apply Ends.ite
  · exact fun _ => submitCurrentLine_safe hr h
  · intro _
    apply Ends.ite
    · exact fun _ => Ends.pure h
    · exact fun _ => insertCharacter_safe _ h

theorem plainScancode_safe (hr : k.ran.Tidy) (htab : k.scancode = 0x0F → TabFits k.answers s.line) (h : Sound s) :
    Safe (plainScancode k) s := by
  apply Ends.state_bind
  apply Ends.ite
  · exact fun _ => setKeys_safe _ h
  intro _
  apply Ends.ite
  · exact fun _ => setKeys_safe _ h
  intro _
  apply Ends.ite
  · exact fun _ => setKeys_safe _ h
  intro _
  apply Ends.ite
  · exact fun _ => setKeys_safe _ h
  intro _
  apply Ends.ite
  · exact fun _ => setKeys_safe _ h
  intro _
  apply Ends.ite
  · exact fun _ => setKeys_safe _ h
  intro _
  apply Ends.ite
  · exact fun _ => Ends.pure h
  intro _
  apply Ends.ite
  · exact fun _ => Ends.pure h
  intro _
  apply Ends.ite
  · exact fun _ => setKeys_safe _ h
  intro _
  apply Ends.ite
  · exact fun hsc => handleTab_safe h (htab hsc)
  intro _
  apply Ends.ite
  · exact fun _ => Ends.pure h
  intro _
  apply Ends.ite
  · exact fun _ => handleBackspace_safe h
  intro _
  split
  · next m hm =>
    split_ifs at hm
    exact ctrlScancode_safe h hm
  · exact characterScancode_safe hr h

theorem editorScancode_safe (e : Edited) (h : Sound s) : Safe (editorScancode e) s := by
  have hset : Kept { s with clipboard := e.clipboard, keys := e.keys, editorActive := false } := { h with }
  apply Ends.modify_bind
  apply Ends.ite
  · intro _
    apply Ends.modify_bind
    apply Buffer.writeAt_bind (by decide)
    apply Ends.modify
    exact (emptied hset).toKept.prompt rfl (emptied hset).ended
  · exact fun _ => Ends.pure { h with }

/-- The line that the tab key completes. A reverse search is accepted first. -/
def tabLine (s : Line) : Text := if s.rsearchActive then s.acceptedLine else s.line

/-- What a key must not meet: a path that does not fit, and a command that leaves the text editor
open behind a cursor that is not at the start. -/
structure KeyFits (k : Key) (s : Line) : Prop where
  tidy : k.ran.Tidy
  tab : k.scancode = 0x0F → s.editorActive = false → s.keys.extendedKey = false → TabFits k.answers s.tabLine

theorem handleScancode_safe (hk : KeyFits k s) (h : Sound s) : Safe (handleScancode k) s := by
  have hrest : ∀ t : Line, Sound t →
      (t.keys.extendedKey = false → s.keys.extendedKey = false ∧ t.line = s.tabLine) → s.editorActive = false →
      Safe (if k.scancode = 0xE0 then setKeys fun m => { m with extendedKey := true }
        else if t.keys.extendedKey then do
          setKeys fun m => { m with extendedKey := false }
          extendedScancode k
        else plainScancode k) t := by
    intro t ht htab hactive
    apply Ends.ite
    · exact fun _ => setKeys_safe _ ht
    · intro _
      apply Ends.ite
      · intro _
        apply (setKeys_safe _ ht).bind
        exact fun u hu => extendedScancode_safe hk.tidy hu
      · intro hplain
        obtain ⟨hextended, hline⟩ := htab (by simpa using hplain)
        apply plainScancode_safe hk.tidy _ ht
        intro hsc
        rw [hline]
        exact hk.tab hsc hactive hextended
  apply Ends.state_bind
  apply Ends.ite
  · exact fun _ => editorScancode_safe _ h
  · intro hactive
    have hclosed : s.editorActive = false := by simpa using hactive
    by_cases hsearch : s.rsearchActive = true
    · rw [if_pos hsearch]
      apply (rsearchKey_ends hk.tidy h).bind
      rintro used t ⟨ht, hfalse⟩
      apply Ends.state_bind
      cases used with
      | true => exact Ends.pure ht
      | false =>
        obtain ⟨hline, hkeys, hextended⟩ := hfalse rfl
        apply hrest t ht _ hclosed
        intro _
        exact ⟨hextended, by rw [hline, tabLine, if_pos hsearch]⟩
    · rw [if_neg hsearch]
      apply hrest s h _ hclosed
      intro hextended
      exact ⟨hextended, by rw [tabLine, if_neg hsearch]⟩

/-! ### Runs of keys -/

/-- The keys are handled one after the other. -/
def run (keys : List Key) : Exec Line Unit := keys.forM handleScancode

/-- No key of the run meets what it must not meet. -/
def RunFits : Line → List Key → Prop
  | _, [] => True
  | s, k :: keys => KeyFits k s ∧ ∀ t, handleScancode k s = (.ok (), t) → RunFits t keys

theorem RunFits.take (h : RunFits s keys) (n : ℕ) : RunFits s (keys.take n) := by
  induction keys generalizing s n with
  | nil => simpa using h
  | cons k keys ih =>
    cases n with
    | zero => exact trivial
    | succ n => exact ⟨h.1, fun t ht => ih (h.2 t ht) n⟩

theorem run_safe (h : Sound s) (hfits : RunFits s keys) : Safe (run keys) s := by
  induction keys generalizing s with
  | nil => exact Ends.pure h
  | cons k keys ih =>
    rcases handleScancode_safe hfits.1 h with ⟨_, t, hrun, ht⟩ | ⟨_, -, hfalse⟩
    · have hrest := ih ht (hfits.2 t hrun)
      change Ends (handleScancode k >>= fun _ => keys.forM handleScancode) s _ _
      rw [Ends, bind_ok hrun]
      exact hrest
    · exact hfalse.elim

end Safety

/-- The variables before the first key, behind the first prompt. -/
def start : Line where
  inputBuffer := .zero
  inputLength := 0
  cursorPos := 0
  selectionActive := false
  selectionAnchor := 0
  history _ := .zero
  historyCount := 0
  historyStart := 0
  historyPos := none
  historyDraft := .zero
  historyDraftLen := 0
  rsearchActive := false
  rsearchTerm := .zero
  rsearchLen := 0
  rsearchMatch := none
  clipboard := ⟨.zero, 0, editorBuffer_pos⟩
  keys := ⟨false, false, false, false, false⟩
  editorActive := false

theorem sound_start : Sound start where
  length := by decide
  anchor := by decide
  entries _ := ⟨⟨0, by decide⟩, rfl⟩
  draft := by decide
  term := by decide
  cursor := le_rfl
  ended := Block.get_zero 0

/-- After every run of keys the line ends inside its array with a NUL and the cursor is in the
line, and no key accessed anything outside an array. -/
def LineKept : Prop := ∀ keys : List Key, ∃ t, run keys start = (.ok (), t) ∧ InLine t

/-- The line is kept between any two keys of a run in which every path fits and no command leaves the
text editor open behind a cursor that is not at the start. -/
theorem line_kept (keys : List Key) (h : RunFits start keys) (n : ℕ) :
    ∃ t, run (keys.take n) start = (.ok (), t) ∧ InLine t := by
  rcases run_safe sound_start (h.take n) with ⟨_, t, hrun, ht⟩ | ⟨_, -, hfalse⟩
  · exact ⟨t, hrun, ht.inLine⟩
  · exact hfalse.elim

/-! ### Runs that are kept, and one that is not -/

/-- A command that leaves nothing behind. -/
def quiet : Ran := ⟨.zero, 0, ⟨.zero, 0, editorBuffer_pos⟩, ⟨false, false, false, false, false⟩, false⟩

/-- A directory on the FAT drive whose path takes the whole array: nine directories of twelve bytes each and a
last one of nine. -/
def longPath : CText 128 :=
  ⟨(List.replicate 9 (chars "/AAAAAAAA.AAA")).flatten ++ chars "/AAAAAA.AA", by decide +kernel⟩

def longDirectory : Answers where
  fatModeActive := true
  resolvePath _ := some longPath
  fatLs _ := some [⟨chars "A.TXT", by decide⟩]
  statIsDir _ := false
  fsLs _ := none
  aliasNames := []

def press (sc : UInt8) : Key := ⟨sc, longDirectory, quiet, ⟨⟨.zero, 0, by decide⟩, ⟨false, false, false, false, false⟩, false⟩⟩

/-- `cd` and the enter key. -/
theorem line_kept_cd : ∃ t, run ([press 0x2E, press 0x20, press 0x1C].take 3) start = (.ok (), t) ∧ InLine t := by
  apply line_kept
  refine ⟨⟨nofun, ?_⟩, fun _ _ => ⟨⟨nofun, ?_⟩, fun _ _ => ⟨⟨nofun, ?_⟩, fun _ _ => trivial⟩⟩⟩ <;>
    exact fun hsc => absurd hsc (by decide)

/-- `ls`, a space and the tab key in the directory with the long path. -/
theorem not_lineKept : ¬ LineKept := by
  intro h
  obtain ⟨t, hrun, -⟩ := h [press 0x26, press 0x1F, press 0x39, press 0x0F]
  have hfail : (run [press 0x26, press 0x1F, press 0x39, press 0x0F] start).1 = .fail := by decide +kernel
  rw [hrun] at hfail
  cases hfail

end Line

end Tg11Kernel.Shell
