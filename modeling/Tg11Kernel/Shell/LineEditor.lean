import Tg11Kernel.Lib.Buffer
import Tg11Kernel.Shell.Editor
import Tg11Kernel.Shell.Variables

/-! The line that is typed at the prompt of the shell. It is kept in one array with its
length and the place of the cursor, and next to it are the selection, the lines of the
history, the draft that browsing the history puts aside, the term of a reverse search
and the clipboard, which the text editor shares. Every access to an array is checked,
and one outside is an error return. What is drawn on the screen is left out. -/

namespace Tg11Kernel.Shell

open Lib Exec

def INPUT_BUFFER_SIZE : ℕ := 128

def HISTORY_SIZE : ℕ := 16

instance : NeZero HISTORY_SIZE := ⟨by decide⟩

instance coeChar : Coe Char UInt8 := ⟨Char.toUInt8⟩

/-- `shift_held`, `ctrl_held`, `alt_held`, `caps_lock_on` and `extended_key`. -/
structure Modifiers where
  shiftHeld : Bool
  ctrlHeld : Bool
  altHeld : Bool
  capsLockOn : Bool
  extendedKey : Bool

/-- `editor_clipboard`: the text that was cut or copied leaves room for a NUL. -/
structure Clipboard where
  bytes : Block EDITOR_BUFFER_SIZE
  length : ℕ
  length_lt : length < EDITOR_BUFFER_SIZE

/-- The variables of the line editor. -/
structure Line where
  inputBuffer : Block INPUT_BUFFER_SIZE
  inputLength : ℕ
  cursorPos : ℕ
  selectionActive : Bool
  selectionAnchor : ℕ
  history : Fin HISTORY_SIZE → Block INPUT_BUFFER_SIZE
  historyCount : ℕ
  historyStart : ℕ
  historyPos : Option ℕ
  historyDraft : Block INPUT_BUFFER_SIZE
  historyDraftLen : ℕ
  rsearchActive : Bool
  rsearchTerm : Block 64
  rsearchLen : ℕ
  rsearchMatch : Option ℕ
  clipboard : Clipboard
  keys : Modifiers
  editorActive : Bool

namespace Line

/-! ### The arrays -/

def input : Buffer Line INPUT_BUFFER_SIZE where
  get := inputBuffer
  put b s := { s with inputBuffer := b }
  get_put _ _ := rfl
  put_put _ _ _ := rfl
  put_get _ := rfl

def draft : Buffer Line INPUT_BUFFER_SIZE where
  get := historyDraft
  put b s := { s with historyDraft := b }
  get_put _ _ := rfl
  put_put _ _ _ := rfl
  put_get _ := rfl

def term : Buffer Line 64 where
  get := rsearchTerm
  put b s := { s with rsearchTerm := b }
  get_put _ _ := rfl
  put_put _ _ _ := rfl
  put_get _ := rfl

/-- `history[k]` -/
def entry (k : Fin HISTORY_SIZE) : Buffer Line INPUT_BUFFER_SIZE where
  get s := s.history k
  put b s := { s with history := Function.update s.history k b }
  get_put b s := Function.update_self k b s.history
  put_put b c s := by rw [Function.update_idem]
  put_get s := by rw [Function.update_eq_self]

/-- `(history_start + i) % HISTORY_SIZE` -/
def slot (s : Line) (i : ℕ) : Fin HISTORY_SIZE := Fin.ofNat HISTORY_SIZE (s.historyStart + i)

/-! ### The selection -/

/-- `terminal_has_selection` -/
def hasSelection (s : Line) : Bool := s.selectionActive && s.selectionAnchor ≠ s.cursorPos

/-- `terminal_selection_start` -/
def selectionStart (s : Line) : ℕ := min s.selectionAnchor s.cursorPos

/-- `terminal_selection_end` -/
def selectionEnd (s : Line) : ℕ := max s.selectionAnchor s.cursorPos

/-- `terminal_clear_selection` -/
def clearSelection (s : Line) : Line := { s with selectionActive := false, selectionAnchor := s.cursorPos }

/-- `terminal_begin_selection_if_needed` -/
def beginSelectionIfNeeded (s : Line) : Line :=
  if s.keys.shiftHeld ∧ ¬ s.selectionActive then { s with selectionActive := true, selectionAnchor := s.cursorPos } else s

/-- `terminal_finish_selection_move` -/
def finishSelectionMove (s : Line) : Line :=
  if ¬ s.keys.shiftHeld then s.clearSelection
  else if s.selectionAnchor = s.cursorPos then { s with selectionActive := false }
  else s

/-- `terminal_prompt`, which starts a line behind a new prompt. -/
def prompt (s : Line) : Line := { s with cursorPos := 0 }.clearSelection

/-! ### Editing -/

/-- `terminal_redraw_input_line` -/
def redraw : Exec Line Unit := do
  let s ← Exec.state
  let _ ← input.readFirst (min s.inputLength (INPUT_BUFFER_SIZE - 1))
  Exec.modify fun s => { s with selectionAnchor := if s.selectionActive then s.selectionAnchor else s.cursorPos }

/-- The end of a deletion: the line is `width` bytes shorter, with the cursor where they were. -/
def shorten (start width : ℕ) : Exec Line Unit := do
  Exec.modify fun s => { s with inputLength := s.inputLength - width }
  let s ← Exec.state
  input.writeAt s.inputLength 0
  Exec.modify fun s => { s with cursorPos := start }.clearSelection

/-- `terminal_delete_range` -/
def deleteRange (start stop : ℕ) : Exec Line Unit := do
  let s ← Exec.state
  if stop ≤ start ∨ s.inputLength < start then pure ()
  else
    let width := min stop s.inputLength - start
    (List.range' start (s.inputLength - width - start)).forM fun i => do
      let c ← input.readAt (i + width)
      input.writeAt i c
    shorten start width
    redraw

/-- `terminal_delete_selection` -/
def deleteSelection : Exec Line Unit := do
  let s ← Exec.state
  if s.hasSelection then deleteRange s.selectionStart s.selectionEnd else pure ()

/-- Put a text in the clipboard, with its NUL. -/
def setClipboard (text : Text) : Exec Line Unit :=
  if h : text.length < EDITOR_BUFFER_SIZE then
    Exec.modify fun s => { s with clipboard := ⟨(s.clipboard.bytes.store text).set text.length 0, text.length, h⟩ }
  else Exec.fail

/-- `terminal_copy_selection` -/
def copySelection (cut : Bool) : Exec Line Unit := do
  let s ← Exec.state
  if ¬ s.hasSelection then pure ()
  else
    let bytes ← input.readFirst s.selectionEnd
    setClipboard (bytes.drop s.selectionStart)
    if cut then deleteRange s.selectionStart s.selectionEnd else pure ()

/-- Open a gap of `width` bytes at the cursor. -/
def openGap (width : ℕ) : Exec Line Unit := do
  let s ← Exec.state
  ((List.range (s.inputLength - s.cursorPos)).map (s.inputLength - ·)).forM fun i => do
    let c ← input.readAt (i - 1)
    input.writeAt (i + width - 1) c

/-- `terminal_insert_text` -/
def insertText (text : Text) : Exec Line Unit :=
  if text = [] then pure ()
  else do
    deleteSelection
    let s ← Exec.state
    if INPUT_BUFFER_SIZE ≤ s.inputLength + text.length then pure ()
    else
      openGap text.length
      input.writeFrom s.cursorPos text
      Exec.modify fun s => { s with inputLength := s.inputLength + text.length, cursorPos := s.cursorPos + text.length }
      let s ← Exec.state
      input.writeAt s.inputLength 0
      Exec.modify clearSelection
      redraw

/-- `handle_backspace` -/
def handleBackspace : Exec Line Unit := do
  let s ← Exec.state
  if s.hasSelection then deleteSelection
  else if s.cursorPos = 0 then pure ()
  else
    Exec.modify fun s => { s with cursorPos := s.cursorPos - 1 }
    (List.range' (s.cursorPos - 1) (s.inputLength - s.cursorPos)).forM fun i => do
      let c ← input.readAt (i + 1)
      input.writeAt i c
    shorten (s.cursorPos - 1) 1
    let s ← Exec.state
    let _ ← input.readFirst s.inputLength
    pure ()

/-- `clear_input_line` -/
def clearInputLine : Exec Line Unit := do
  Exec.modify fun s => { s with inputLength := 0, cursorPos := 0 }
  input.writeAt 0 0
  Exec.modify clearSelection

/-- The line is dropped: `input_length = 0; input_buffer[0] = '\0'`. -/
def dropLine : Exec Line Unit := do
  Exec.modify fun s => { s with inputLength := 0 }
  input.writeAt 0 0

/-- Put a text in the line from the start on, with its NUL. -/
def fill (text : Text) : Exec Line Unit := do
  input.writeFrom 0 text
  Exec.modify fun s => { s with inputLength := text.length }
  input.writeAt text.length 0

/-- `draw_from_buffer` -/
def drawFromBuffer : Exec Line Unit := do
  Exec.modify fun s => { s with cursorPos := s.inputLength }.clearSelection
  redraw

/-! ### The history -/

/-- The entries `history_count - 1`, … of the ring, where `i` counts from the oldest one. -/
def readEntry (i : ℕ) : Exec Line Text := do
  let s ← Exec.state
  (entry (s.slot i)).readText

/-- Store the line with its NUL in a slot of the ring. -/
def storeEntry (k : Fin HISTORY_SIZE) : Exec Line Unit := do
  let s ← Exec.state
  (List.range (s.inputLength + 1)).forM fun i => do
    let c ← input.readAt i
    (entry k).writeAt i c

/-- `history_push` -/
def historyPush : Exec Line Unit := do
  let s ← Exec.state
  if s.inputLength = 0 then pure ()
  else
    let same ← if 0 < s.historyCount then do
        let last ← readEntry (s.historyCount - 1)
        let text ← input.readText
        pure (decide (last = text))
      else pure false
    if same then pure ()
    else if s.historyCount < HISTORY_SIZE then
      storeEntry (s.slot s.historyCount)
      Exec.modify fun s => { s with historyCount := s.historyCount + 1 }
    else
      storeEntry (s.slot 0)
      Exec.modify fun s => { s with historyStart := (s.historyStart + 1) % HISTORY_SIZE }

/-- Show an entry of the history. -/
def showEntry (i : ℕ) : Exec Line Unit := do
  let text ← readEntry i
  clearInputLine
  fill text
  drawFromBuffer

/-- `handle_arrow_up` -/
def handleArrowUp : Exec Line Unit := do
  let s ← Exec.state
  if s.historyCount = 0 then pure ()
  else match s.historyPos with
  | none =>
    (List.range (s.inputLength + 1)).forM fun i => do
      let c ← input.readAt i
      draft.writeAt i c
    Exec.modify fun s => { s with historyDraftLen := s.inputLength, historyPos := some (s.historyCount - 1) }
    showEntry (s.historyCount - 1)
  | some 0 => pure ()
  | some (i + 1) =>
    Exec.modify fun s => { s with historyPos := some i }
    showEntry i

/-- `handle_arrow_down` -/
def handleArrowDown : Exec Line Unit := do
  let s ← Exec.state
  match s.historyPos with
  | none => pure ()
  | some i =>
    if i + 1 < s.historyCount then
      Exec.modify fun s => { s with historyPos := some (i + 1) }
      showEntry (i + 1)
    else
      Exec.modify fun s => { s with historyPos := none }
      clearInputLine
      let text ← draft.readFirst s.historyDraftLen
      fill text
      drawFromBuffer

/-! ### The reverse search -/

/-- `ascii_lower` -/
def asciiLower (c : UInt8) : UInt8 := if ('A' : UInt8) ≤ c ∧ c ≤ ('Z' : UInt8) then c + (('a' : UInt8) - ('A' : UInt8)) else c

/-- `string_contains_ci` -/
def containsCi (text needle : Text) : Bool :=
  needle ≠ [] && text.tails.any fun t => (needle.map asciiLower).isPrefixOf (t.map asciiLower)

/-- The newest of the first `count` entries that contains the term. -/
def searchEntries (needle : Text) : ℕ → Exec Line (Option ℕ)
  | 0 => pure none
  | i + 1 => do
    let text ← readEntry i
    if containsCi text needle then pure (some i) else searchEntries needle i

/-- `rsearch_find`, where the search starts at `from = count - 1`. -/
def rsearchFind (count : ℕ) : Exec Line (Option ℕ) := do
  let s ← Exec.state
  if s.rsearchLen = 0 ∨ s.historyCount = 0 then pure none
  else
    term.writeAt s.rsearchLen 0
    let needle ← term.readText
    searchEntries needle count

/-- `rsearch_redraw` -/
def rsearchRedraw : Exec Line Unit := do
  let s ← Exec.state
  let _ ← term.readFirst s.rsearchLen
  match s.rsearchMatch with
  | some i => ignore (readEntry i)
  | none => pure ()

/-- `rsearch_accept` -/
def rsearchAccept : Exec Line Unit := do
  Exec.modify fun s => { s with rsearchActive := false }
  let s ← Exec.state
  match s.rsearchMatch with
  | some i =>
    let text ← readEntry i
    fill text
    Exec.modify fun s => { s with cursorPos := s.inputLength }
  | none => pure ()
  redraw

/-- `rsearch_cancel` -/
def rsearchCancel : Exec Line Unit := do
  Exec.modify fun s => { s with rsearchActive := false }
  redraw

/-! ### What holds between two keys -/

/-- The bytes of the line. -/
def line (s : Line) : Text := s.inputBuffer.firstBytes s.inputLength

/-- The lengths fit their arrays and the entries of the history end inside theirs. -/
structure Kept (s : Line) : Prop where
  length : s.inputLength < INPUT_BUFFER_SIZE
  anchor : s.selectionAnchor < INPUT_BUFFER_SIZE
  entries : ∀ k, (s.history k).Terminated
  draft : s.historyDraftLen < INPUT_BUFFER_SIZE
  term : s.rsearchLen < 63

/-- The line ends inside its array with a NUL, and the cursor is in the line. -/
structure InLine (s : Line) : Prop where
  length : s.inputLength < INPUT_BUFFER_SIZE
  cursor : s.cursorPos ≤ s.inputLength
  ended : s.inputBuffer.get s.inputLength = 0

/-- All that the operations rely on. -/
structure Sound (s : Line) : Prop extends Kept s where
  cursor : s.cursorPos ≤ s.inputLength
  ended : s.inputBuffer.get s.inputLength = 0

theorem Sound.inLine {s : Line} (h : Sound s) : InLine s := ⟨h.length, h.cursor, h.ended⟩

theorem terminated_of_ended {n i : ℕ} {b : Block n} (hi : i < n) (hended : b.get i = 0) : b.Terminated := by
  refine ⟨⟨i, hi⟩, ?_⟩
  rw [← Block.get_of_lt b hi]
  exact hended

theorem Sound.terminated {s : Line} (h : Sound s) : s.inputBuffer.Terminated := terminated_of_ended h.length h.ended

/-- From `s`, every access is inside, and the line is sound afterwards. -/
def Safe (m : Exec Line Unit) (s : Line) : Prop := Ends m s (fun _ => Sound) fun _ => False

variable {s : Line}

theorem Safe.bind {m : Exec Line Unit} {f : Unit → Exec Line Unit} (h : Safe m s) (hf : ∀ t, Sound t → Safe (f ()) t) :
    Safe (m >>= f) s := Ends.bind h fun _ t ht => hf t ht

theorem Kept.sound (h : Kept s) (hcursor : s.cursorPos ≤ s.inputLength) (hended : s.inputBuffer.get s.inputLength = 0) : Sound s :=
  { toKept := h, cursor := hcursor, ended := hended }

theorem Sound.clearSelection (h : Sound s) : Sound s.clearSelection :=
  { h with anchor := h.cursor.trans_lt h.length }

theorem Sound.beginSelectionIfNeeded (h : Sound s) : Sound s.beginSelectionIfNeeded := by
  unfold Line.beginSelectionIfNeeded
  split_ifs
  · exact { h with anchor := h.cursor.trans_lt h.length }
  · exact h

theorem Sound.finishSelectionMove (h : Sound s) : Sound s.finishSelectionMove := by
  unfold Line.finishSelectionMove
  split_ifs
  · exact { h with }
  · exact h
  · exact h.clearSelection

theorem Sound.move (h : Sound s) {p : ℕ} (hp : p ≤ s.inputLength) : Sound { s with cursorPos := p } :=
  { h with cursor := hp }

theorem Sound.selectionEnd_lt (h : Sound s) : s.selectionEnd < INPUT_BUFFER_SIZE :=
  max_lt h.anchor (h.cursor.trans_lt h.length)

theorem Kept.prompt (h : Kept s) (hlength : s.inputLength = 0) (hended : s.inputBuffer.get 0 = 0) : Sound s.prompt :=
  { h with
    anchor := (by decide : 0 < INPUT_BUFFER_SIZE)
    cursor := Nat.zero_le _
    ended := by
      change s.inputBuffer.get s.inputLength = 0
      rw [hlength]
      exact hended }

/-! ### Editing is safe -/

theorem redraw_apply (s : Line) :
    redraw s = (.ok (), { s with selectionAnchor := if s.selectionActive then s.selectionAnchor else s.cursorPos }) := by
  have hread : min s.inputLength (INPUT_BUFFER_SIZE - 1) ≤ INPUT_BUFFER_SIZE := (min_le_right _ _).trans (Nat.sub_le _ _)
  rw [redraw, bind_ok (state_apply s), Buffer.readFirst, require_pos hread]
  rfl

theorem redraw_safe (h : Sound s) : Safe redraw s := by
  refine .inl ⟨(), _, redraw_apply s, { h with anchor := ?_ }⟩
  change (if s.selectionActive then s.selectionAnchor else s.cursorPos) < INPUT_BUFFER_SIZE
  split_ifs
  · exact h.anchor
  · exact h.cursor.trans_lt h.length

theorem shorten_safe {start width : ℕ} (h : Kept s) (hstart : start ≤ s.inputLength - width) : Safe (shorten start width) s := by
  have hlength : s.inputLength - width < INPUT_BUFFER_SIZE := (Nat.sub_le _ _).trans_lt h.length
  apply Ends.modify_bind
  apply Ends.state_bind
  apply Buffer.writeAt_bind hlength
  apply Ends.modify
  exact { h with
    length := hlength
    anchor := hstart.trans_lt hlength
    cursor := hstart
    ended := Block.get_set_self _ 0 hlength }

/-- A loop that moves bytes in the line changes nothing else. -/
theorem moves_ends {l : List ℕ} {f g : ℕ → ℕ} {E : Line → Prop} (h : ∀ i ∈ l, f i < INPUT_BUFFER_SIZE ∧ g i < INPUT_BUFFER_SIZE) :
    Ends (l.forM fun i => do
      let c ← input.readAt (f i)
      input.writeAt (g i) c) s (fun _ => input.Writes s) E := by
  apply Buffer.forM_writes
  intro i hi b
  obtain ⟨hread, hwrite⟩ := h i hi
  apply Buffer.readAt_bind hread
  apply Buffer.writeAt_ends hwrite
  exact Buffer.Writes.trans ⟨b, rfl⟩ ⟨_, rfl⟩

theorem deleteRange_safe {start stop : ℕ} (h : Sound s) : Safe (deleteRange start stop) s := by
  have hlength := h.length
  apply Ends.state_bind
  apply Ends.ite
  · intro _
    exact Ends.pure h
  · intro hrange
    rw [not_or, not_le, not_lt] at hrange
    obtain ⟨hlt, hstart⟩ := hrange
    have hwidth : start ≤ s.inputLength - (min stop s.inputLength - start) := by omega
    generalize min stop s.inputLength - start = width at hwidth ⊢
    apply (moves_ends (f := fun i => i + width) (g := fun i => i) ?_).bind
    · rintro _ _ ⟨b, rfl⟩
      have hkept : Kept (input.put b s) := { h with }
      apply (shorten_safe hkept hwidth).bind
      exact fun t ht => redraw_safe ht
    · intro i hi
      rw [List.mem_range'_1] at hi
      constructor <;> omega

theorem deleteSelection_safe (h : Sound s) : Safe deleteSelection s := by
  apply Ends.state_bind
  apply Ends.ite
  · exact fun _ => deleteRange_safe h
  · exact fun _ => Ends.pure h

theorem setClipboard_safe {text : Text} (h : Sound s) (ht : text.length < EDITOR_BUFFER_SIZE) : Safe (setClipboard text) s := by
  unfold setClipboard
  rw [dif_pos ht]
  exact Ends.modify { h with }

theorem copySelection_safe (cut : Bool) (h : Sound s) : Safe (copySelection cut) s := by
  have hstop := h.selectionEnd_lt
  apply Ends.state_bind
  apply Ends.ite
  · exact fun _ => Ends.pure h
  · intro _
    apply Buffer.readFirst_bind hstop.le
    apply (setClipboard_safe h _).bind
    · intro t ht
      apply Ends.ite
      · exact fun _ => deleteRange_safe ht
      · exact fun _ => Ends.pure ht
    · rw [List.length_drop, Block.length_firstBytes]
      exact (Nat.sub_le _ _).trans_lt (hstop.trans (by decide))

theorem insertText_safe (text : Text) (h : Sound s) : Safe (insertText text) s := by
  apply Ends.ite
  · exact fun _ => Ends.pure h
  · intro _
    apply Safe.bind (deleteSelection_safe h)
    intro s h
    have hcursor := h.cursor
    apply Ends.state_bind
    apply Ends.ite
    · exact fun _ => Ends.pure h
    · intro hroom
      rw [not_le] at hroom
      have hgap : Ends (openGap text.length) s (fun _ => input.Writes s) fun _ => False := by
        apply Ends.state_bind
        apply moves_ends (f := fun i => i - 1) (g := fun i => i + text.length - 1)
        intro i hi
        obtain ⟨j, hj, rfl⟩ := List.mem_map.1 hi
        rw [List.mem_range] at hj
        constructor <;> omega
      apply hgap.bind
      rintro _ _ ⟨b, rfl⟩
      have hwrite : s.cursorPos + text.length ≤ INPUT_BUFFER_SIZE := by omega
      apply (Buffer.writeFrom_ends hwrite).bind
      rintro _ _ ⟨c, rfl, -, -⟩
      apply Ends.modify_bind
      apply Ends.state_bind
      apply Buffer.writeAt_bind hroom
      apply Ends.modify_bind
      apply redraw_safe
      apply Sound.clearSelection
      exact { h with
        length := hroom
        cursor := Nat.add_le_add_right hcursor _
        ended := Block.get_set_self _ 0 hroom }

theorem handleBackspace_safe (h : Sound s) : Safe handleBackspace s := by
  have hlength := h.length
  have hcursor := h.cursor
  apply Ends.state_bind
  apply Ends.ite
  · exact fun _ => deleteSelection_safe h
  · intro _
    apply Ends.ite
    · exact fun _ => Ends.pure h
    · intro hpos
      apply Ends.modify_bind
      apply (moves_ends (f := fun i => i + 1) (g := fun i => i) ?_).bind
      · rintro _ _ ⟨b, rfl⟩
        have hkept : Kept (input.put b { s with cursorPos := s.cursorPos - 1 }) := { h with }
        apply (shorten_safe hkept (Nat.sub_le_sub_right hcursor 1)).bind
        intro t ht
        apply Ends.state_bind
        apply Buffer.readFirst_bind ht.length.le
        exact Ends.pure ht
      · intro i hi
        rw [List.mem_range'_1] at hi
        constructor <;> omega

/-! ### Browsing and searching are safe -/

theorem clearInputLine_safe (h : Kept s) : Safe clearInputLine s := by
  have hpos : 0 < INPUT_BUFFER_SIZE := by decide
  apply Ends.modify_bind
  apply Buffer.writeAt_bind hpos
  apply Ends.modify
  exact { h with
    length := hpos
    anchor := hpos
    cursor := le_rfl
    ended := Block.get_set_self _ 0 hpos }

/-- The line is empty and the cursor is where it was. -/
structure Dropped (s t : Line) : Prop extends Kept t where
  length_eq : t.inputLength = 0
  ended : t.inputBuffer.get 0 = 0
  cursor_eq : t.cursorPos = s.cursorPos

theorem dropLine_ends (h : Kept s) : Ends dropLine s (fun _ => Dropped s) fun _ => False := by
  have hpos : 0 < INPUT_BUFFER_SIZE := by decide
  apply Ends.modify_bind
  apply Buffer.writeAt_ends hpos
  exact { h with
    length := hpos
    length_eq := rfl
    ended := Block.get_set_self _ 0 hpos
    cursor_eq := rfl }

/-- The line ends inside its array, and the cursor is anywhere. -/
structure Filled (t : Line) : Prop extends Kept t where
  ended : t.inputBuffer.get t.inputLength = 0

theorem fill_ends {text : Text} (h : Kept s) (ht : text.length < INPUT_BUFFER_SIZE) :
    Ends (fill text) s (fun _ t => Filled t ∧ t.line = text ∧ t.keys = s.keys) fun _ => False := by
  have hwrite : 0 + text.length ≤ INPUT_BUFFER_SIZE := by omega
  apply (Buffer.writeFrom_ends hwrite).bind
  rintro _ _ ⟨b, rfl, htext, -⟩
  apply Ends.modify_bind
  apply Buffer.writeAt_ends ht
  refine ⟨?_, ?_, rfl⟩
  · exact { h with
      length := ht
      ended := Block.get_set_self _ 0 ht }
  · change (b.set text.length 0).firstBytes text.length = text
    rw [Block.firstBytes_set]
    apply Block.firstBytes_eq
    intro i hi
    simpa using htext i hi

theorem drawFromBuffer_safe (h : Filled s) : Safe drawFromBuffer s := by
  apply Ends.modify_bind
  apply redraw_safe
  exact { h with
    anchor := h.length
    cursor := le_rfl }

theorem readEntry_bind {β : Type} {T : β → Line → Prop} {E : Line → Prop} {i : ℕ} {f : Text → Exec Line β} (h : Kept s)
    (hf : (s.history (s.slot i)).text.length < INPUT_BUFFER_SIZE → Ends (f (s.history (s.slot i)).text) s T E) :
    Ends (readEntry i >>= f) s T E := by
  have hentry := h.entries (s.slot i)
  have hrun : readEntry i s = (.ok ((entry (s.slot i)).get s).text, s) := by
    rw [readEntry, bind_ok (state_apply s), Buffer.readText_apply hentry]
  rw [Ends, bind_ok hrun]
  exact hf (Block.length_text_lt hentry)

theorem Sound.setEntry {k : Fin HISTORY_SIZE} {b : Block INPUT_BUFFER_SIZE} (h : Sound s) (hb : b.Terminated) :
    Sound ((entry k).put b s) := by
  refine { h with entries := fun j => ?_ }
  change (Function.update s.history k b j).Terminated
  by_cases hj : j = k
  · rw [hj, Function.update_self]
    exact hb
  · rw [Function.update_of_ne hj]
    exact h.entries j

/-- The copy of the line ends where the line ends. -/
theorem storeEntry_safe (k : Fin HISTORY_SIZE) (h : Sound s) : Safe (storeEntry k) s := by
  have hlength := h.length
  apply Ends.state_bind
  apply (Ends.forM (I := fun done t => ∃ b : Block INPUT_BUFFER_SIZE, t = (entry k).put b s ∧
    ∀ i ∈ done, b.get i = s.inputBuffer.get i) ⟨s.history k, ((entry k).put_get s).symm, nofun⟩ _).mono
  · rintro _ _ ⟨b, rfl, hcopied⟩
    apply h.setEntry
    apply terminated_of_ended hlength
    rw [hcopied _ (List.mem_range.2 (Nat.lt_succ_self _))]
    exact h.ended
  · exact fun _ h => h
  · rintro done rest i _ hl ⟨b, rfl, hcopied⟩
    have hi : i < INPUT_BUFFER_SIZE := by
      have hmem : i ∈ List.range (s.inputLength + 1) := by simp [hl]
      rw [List.mem_range] at hmem
      omega
    apply Buffer.readAt_bind hi
    apply Buffer.writeAt_ends hi
    refine ⟨b.set i (s.inputBuffer.get i), ?_, ?_⟩
    · rw [Buffer.get_put, Buffer.put_put]
      rfl
    · intro j hj
      rw [Block.get_set b _ hi]
      split_ifs with hij
      · rw [hij]
      · apply hcopied
        simpa [hij] using hj

theorem historyPush_safe (h : Sound s) : Safe historyPush s := by
  have hstore : ∀ (k : Fin HISTORY_SIZE) (g : Line → Line), (∀ t, Sound t → Sound (g t)) →
      Safe (storeEntry k >>= fun _ => Exec.modify g) s := by
    intro k g hg
    apply (storeEntry_safe k h).bind
    exact fun t ht => Ends.modify (hg t ht)
  have hend : ∀ same : Bool, Safe (if same then pure ()
      else if s.historyCount < HISTORY_SIZE then do
        storeEntry (s.slot s.historyCount)
        Exec.modify fun s => { s with historyCount := s.historyCount + 1 }
      else do
        storeEntry (s.slot 0)
        Exec.modify fun s => { s with historyStart := (s.historyStart + 1) % HISTORY_SIZE }) s := by
    intro same
    apply Ends.ite
    · exact fun _ => Ends.pure h
    · intro _
      apply Ends.ite
      · exact fun _ => hstore _ _ fun t ht => { ht with }
      · exact fun _ => hstore _ _ fun t ht => { ht with }
  apply Ends.state_bind
  apply Ends.ite
  · exact fun _ => Ends.pure h
  · intro _
    by_cases hcount : 0 < s.historyCount
    · rw [if_pos hcount]
      apply readEntry_bind h.toKept
      intro _
      apply Buffer.readText_bind h.terminated
      exact hend _
    · rw [if_neg hcount]
      exact hend false

theorem showEntry_safe (i : ℕ) (h : Kept s) : Safe (showEntry i) s := by
  apply readEntry_bind h
  intro ht
  apply (clearInputLine_safe h).bind
  intro t hclear
  apply (fill_ends hclear.toKept ht).bind
  exact fun _ u hfill => drawFromBuffer_safe hfill.1

theorem handleArrowUp_safe (h : Sound s) : Safe handleArrowUp s := by
  have hlength := h.length
  apply Ends.state_bind
  apply Ends.ite
  · exact fun _ => Ends.pure h
  · intro _
    split
    · apply (Buffer.forM_writes (a := draft) (s := s) _).bind
      · rintro _ _ ⟨b, rfl⟩
        apply Ends.modify_bind
        apply showEntry_safe
        exact { h with draft := hlength }
      · intro i hi b
        rw [List.mem_range] at hi
        have hi' : i < INPUT_BUFFER_SIZE := by omega
        apply Buffer.readAt_bind hi'
        apply Buffer.writeAt_ends hi'
        exact Buffer.Writes.trans ⟨b, rfl⟩ ⟨_, rfl⟩
    · exact Ends.pure h
    · apply Ends.modify_bind
      apply showEntry_safe
      exact { h with }

theorem handleArrowDown_safe (h : Sound s) : Safe handleArrowDown s := by
  apply Ends.state_bind
  split
  · exact Ends.pure h
  · apply Ends.ite
    · intro _
      apply Ends.modify_bind
      apply showEntry_safe
      exact { h with }
    · intro _
      apply Ends.modify_bind
      have hdraft := h.draft
      apply (clearInputLine_safe (s := { s with historyPos := none }) { h with }).bind
      intro t hclear
      apply Buffer.readFirst_bind hdraft.le
      apply (fill_ends hclear.toKept _).bind
      · exact fun _ u hfill => drawFromBuffer_safe hfill.1
      · rw [Block.length_firstBytes]
        exact hdraft

theorem searchEntries_ends (needle : Text) (count : ℕ) (h : Kept s) :
    Ends (searchEntries needle count) s (fun _ t => t = s) fun _ => False := by
  induction count with
  | zero => exact Ends.pure rfl
  | succ i ih =>
    apply readEntry_bind h
    intro _
    apply Ends.ite
    · exact fun _ => Ends.pure rfl
    · exact fun _ => ih

theorem Sound.setTerm {b : Block 64} (h : Sound s) : Sound (Line.term.put b s) := { h with }

theorem rsearchFind_ends (count : ℕ) (h : Sound s) : Ends (rsearchFind count) s (fun _ => Sound) fun _ => False := by
  have hterm : s.rsearchLen < 64 := h.term.trans (by decide)
  apply Ends.state_bind
  apply Ends.ite
  · exact fun _ => Ends.pure h
  · intro _
    apply Buffer.writeAt_bind hterm
    apply Buffer.readText_bind
    · rw [Buffer.get_put]
      exact terminated_of_ended hterm (Block.get_set_self _ 0 hterm)
    · apply (searchEntries_ends _ count h.setTerm.toKept).mono
      · rintro _ _ rfl
        exact h.setTerm
      · exact fun _ h => h

theorem rsearchRedraw_safe (h : Sound s) : Safe rsearchRedraw s := by
  apply Ends.state_bind
  apply Buffer.readFirst_bind (h.term.le.trans (by decide))
  split
  · apply readEntry_bind h.toKept
    exact fun _ => Ends.pure h
  · exact Ends.pure h

/-- The line that accepting the search leaves. -/
def acceptedLine (s : Line) : Text :=
  match s.rsearchMatch with
  | some i => (s.history (s.slot i)).text
  | none => s.line

theorem rsearchAccept_ends (h : Sound s) :
    Ends rsearchAccept s (fun _ t => Sound t ∧ t.line = s.acceptedLine ∧ t.keys = s.keys) fun _ => False := by
  have hoff : Sound { s with rsearchActive := false } := { h with }
  have hdraw : ∀ t : Line, Sound t → t.line = s.acceptedLine → t.keys = s.keys →
      Ends redraw t (fun _ t => Sound t ∧ t.line = s.acceptedLine ∧ t.keys = s.keys) fun _ => False := by
    intro t ht hline hkeys
    rcases redraw_safe ht with ⟨_, u, hrun, hu⟩ | ⟨_, -, hfalse⟩
    · have heq := hrun
      rw [redraw_apply] at heq
      cases heq
      exact .inl ⟨_, _, hrun, hu, hline, hkeys⟩
    · exact hfalse.elim
  apply Ends.modify_bind
  apply Ends.state_bind
  split
  · next i hmatch =>
    have haccepted : s.acceptedLine = (s.history (s.slot i)).text := by
      rw [acceptedLine, show s.rsearchMatch = some i from hmatch]
    apply readEntry_bind hoff.toKept
    intro ht
    apply (fill_ends hoff.toKept ht).bind
    rintro _ t ⟨hfill, hline, hkeys⟩
    exact hdraw _ { hfill with cursor := le_rfl } (hline.trans haccepted.symm) hkeys
  · next hmatch =>
    have haccepted : s.acceptedLine = s.line := by
      rw [acceptedLine, show s.rsearchMatch = none from hmatch]
    exact hdraw _ hoff haccepted.symm rfl

theorem rsearchCancel_safe (h : Sound s) : Safe rsearchCancel s := by
  apply Ends.modify_bind
  apply redraw_safe
  exact { h with }

end Line

end Tg11Kernel.Shell
