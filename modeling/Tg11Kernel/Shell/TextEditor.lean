import Tg11Kernel.Shell.Prompt

/-! The text mode of the editor, key by key. The text is in one buffer without a gap, with the
cursor, a selection between an anchor and the cursor, the clipboard that the prompt shares, and
a search. Every edit is a loop that moves bytes. -/

namespace Tg11Kernel.Shell

open Lib
open Line (charIsWord translateScancode)

/-- The `editor_find_` variables. -/
structure Find where
  active : Bool
  query : Text
  lastQuery : Text
  /-- Where the match starts and ends, if it is valid. -/
  found : Option (ℕ × ℕ)

structure TextEditor extends Editor where
  cursor : ℕ
  selectionActive : Bool
  selectionAnchor : ℕ
  clipboard : Clipboard
  find : Find
  keys : Modifiers
  editorActive : Bool

/-- A key, with the size of the screen, and whether a save works that it asks for. -/
structure Press where
  scancode : UInt8
  rows : ℕ
  width : ℕ
  saved : Bool

def asciiUpper (c : UInt8) : UInt8 := if ('a' : UInt8) ≤ c ∧ c ≤ ('z' : UInt8) then c - (('a' : UInt8) - ('A' : UInt8)) else c

/-! ### Places in a text -/

section Places

variable (text : Text)

/-- `while (index > 0 && p(buffer[index - 1])) index--` -/
def backWhile (p : UInt8 → Bool) : ℕ → ℕ
  | 0 => 0
  | i + 1 => if p (text.getD i 0) then backWhile p i else i + 1

/-- `while (index < length && p(buffer[index])) index++` -/
def forwardWhile (p : UInt8 → Bool) (index : ℕ) : ℕ := index + ((text.drop index).takeWhile p).length

/-- `editor_line_start` -/
def lineStart (index : ℕ) : ℕ := backWhile text (· ≠ ('\n' : UInt8)) (min index text.length)

/-- `editor_line_end` -/
def lineEnd (index : ℕ) : ℕ := forwardWhile text (· ≠ ('\n' : UInt8)) (min index text.length)

/-- `editor_move_word_left` -/
def moveWordLeft (index : ℕ) : ℕ := backWhile text charIsWord (backWhile text (fun c => !charIsWord c) index)

/-- `editor_move_word_right` -/
def moveWordRight (index : ℕ) : ℕ := forwardWhile text (fun c => !charIsWord c) (forwardWhile text charIsWord index)

variable (width : ℕ)

/-- The loop of `editor_next_visual_row` along the text from `index` on. -/
def rowScan : Text → ℕ → ℕ → ℕ
  | [], index, _ => index
  | c :: rest, index, col => if c = ('\n' : UInt8) ∨ width ≤ col + 1 then index + 1 else rowScan rest (index + 1) (col + 1)

def nextVisualRow (index : ℕ) : ℕ := if text.length ≤ index then text.length else rowScan width (text.drop index) index 0

/-- The loop of `editor_prev_visual_row`; every round goes at least one byte on. -/
def prevLoop (index : ℕ) : ℕ → ℕ → ℕ → ℕ
  | 0, prev, _ => prev
  | k + 1, prev, next =>
    if next < index then
      let row := nextVisualRow text width next
      if index ≤ row then next else prevLoop index k next row
    else prev

def prevVisualRow (index : ℕ) : ℕ :=
  if index = 0 then 0 else prevLoop text width (min index text.length) (min index text.length) 0 0

/-- The loop of `editor_visual_row_start`. -/
def startLoop (index : ℕ) : ℕ → ℕ → ℕ
  | 0, row => row
  | k + 1, row =>
    if row < index then
      let next := nextVisualRow text width row
      if index < next then row else startLoop index k next
    else row

def visualRowStart (index : ℕ) : ℕ := startLoop text width (min index text.length) (min index text.length) 0

def visualRowCol (index : ℕ) : ℕ := min index text.length - visualRowStart text width (min index text.length)

def visualRowLength (row : ℕ) : ℕ :=
  if text.length ≤ row then 0
  else
    let stop := nextVisualRow text width row
    if row < stop ∧ text.getD (stop - 1) 0 = ('\n' : UInt8) then stop - row - 1 else stop - row

/-- The loop of `editor_move_visual_rows`. -/
def rowsLoop (step : ℕ → ℕ) : ℕ → ℕ → ℕ
  | 0, row => row
  | k + 1, row => if step row = row then row else rowsLoop step k (step row)

def moveVisualRows (rows : ℕ) (down : Bool) (index : ℕ) : ℕ :=
  let step := if down then nextVisualRow text width else prevVisualRow text width
  let row := rowsLoop step rows (visualRowStart text width (min index text.length))
  row + min (visualRowCol text width index) (visualRowLength text width row)

/-- One line up, if there is one. -/
def lineUp (cursor : ℕ) : ℕ :=
  let start := lineStart text cursor
  if start = 0 then cursor
  else
    let prevStart := lineStart text (start - 1)
    prevStart + min (cursor - start) (start - 1 - prevStart)

def lineDown (cursor : ℕ) : ℕ :=
  let stop := lineEnd text cursor
  if text.length ≤ stop then cursor
  else
    let nextStart := stop + 1
    nextStart + min (cursor - lineStart text cursor) (lineEnd text nextStart - nextStart)

end Places

namespace TextEditor

/-! ### The selection -/

def hasSelection (e : TextEditor) : Bool := e.selectionActive && e.selectionAnchor ≠ e.cursor

def selectionStart (e : TextEditor) : ℕ := min e.selectionAnchor e.cursor

def selectionEnd (e : TextEditor) : ℕ := max e.selectionAnchor e.cursor

def clearSelection (e : TextEditor) : TextEditor := { e with selectionActive := false, selectionAnchor := e.cursor }

def beginSelectionIfNeeded (e : TextEditor) : TextEditor :=
  if e.keys.shiftHeld ∧ ¬ e.selectionActive then { e with selectionActive := true, selectionAnchor := e.cursor } else e

def finishSelectionMove (e : TextEditor) : TextEditor :=
  if ¬ e.keys.shiftHeld then e.clearSelection
  else if e.selectionAnchor = e.cursor then { e with selectionActive := false }
  else e

/-! ### Edits -/

/-- `editor_find_invalidate_match` -/
def invalidateMatch (e : TextEditor) : TextEditor := { e with find := { e.find with found := none } }

/-- `editor_render`, which puts the cursor back in the text; `editor_status_line` ends with it. -/
def render (e : TextEditor) : TextEditor := { e with cursor := min e.cursor e.length }

/-- The text without `width` bytes at `start`, and the cursor there. -/
def closeGap (start width : ℕ) (e : TextEditor) : TextEditor :=
  clearSelection (invalidateMatch { e with
    buffer := (e.buffer.moveDown start width (e.length - width - start)).set (e.length - width) 0
    length := e.length - width
    cursor := start
    dirty := true })

/-- `editor_delete_range` -/
def deleteRange (start stop : ℕ) (e : TextEditor) : TextEditor :=
  if stop ≤ start ∨ e.length < start then e else closeGap start (min stop e.length - start) e

def deleteSelection (e : TextEditor) : TextEditor :=
  if e.hasSelection then deleteRange e.selectionStart e.selectionEnd e else e

/-- Put a text in the clipboard, with its NUL; what is selected has the room. -/
def setClipboard (text : Text) (e : TextEditor) : TextEditor :=
  if h : text.length < EDITOR_BUFFER_SIZE then
    { e with clipboard := ⟨(e.clipboard.bytes.store text).set text.length 0, text.length, h⟩ }
  else e

/-- The bytes of the selection. -/
def selected (e : TextEditor) : Text := (e.buffer.firstBytes e.selectionEnd).drop e.selectionStart

/-- `editor_copy_selection` -/
def copySelection (cut : Bool) (e : TextEditor) : TextEditor :=
  if ¬ e.hasSelection then render e
  else
    let copied := setClipboard e.selected e
    render (if cut then deleteRange e.selectionStart e.selectionEnd copied else copied)

/-- `editor_insert_text`. What it returns only chooses between two messages. -/
def insertText (s : Text) (e : TextEditor) : TextEditor :=
  if s = [] then e
  else
    let e := deleteSelection e
    if EDITOR_BUFFER_SIZE ≤ e.length + s.length then e
    else clearSelection (invalidateMatch { e with
      buffer := ((e.buffer.moveUp e.cursor s.length (e.length - e.cursor)).overwrite e.cursor s).set (e.length + s.length) 0
      cursor := e.cursor + s.length
      length := e.length + s.length
      dirty := true })

def clipboardText (e : TextEditor) : Text := e.clipboard.bytes.firstBytes e.clipboard.length

/-- Ctrl+V -/
def paste (e : TextEditor) : TextEditor := render (insertText e.clipboardText e)

def newline (e : TextEditor) : TextEditor := render (insertText [('\n' : UInt8)] e)

/-- A key with a character. -/
def typeCharacter (c : UInt8) (e : TextEditor) : TextEditor :=
  if EDITOR_BUFFER_SIZE ≤ e.length + 1 then render e else render (insertText [c] e)

def backspace (e : TextEditor) : TextEditor :=
  if e.hasSelection then render (deleteSelection e)
  else if e.cursor = 0 then e
  else render (closeGap (e.cursor - 1) 1 e)

def delete (e : TextEditor) : TextEditor :=
  render (if e.hasSelection then deleteSelection e
    else if e.cursor < e.length then deleteRange e.cursor (e.cursor + 1) e else e)

/-! ### Moves and the search -/

def move (p : ℕ) (e : TextEditor) : TextEditor := render (finishSelectionMove { beginSelectionIfNeeded e with cursor := p })

/-- `editor_find_match_at` -/
def matchAt (e : TextEditor) (index : ℕ) : Bool :=
  e.find.query ≠ [] ∧ index + e.find.query.length ≤ e.length ∧
    ((e.text.drop index).take e.find.query.length).map asciiUpper = e.find.query.map asciiUpper

/-- Go to the first of the places with a match. -/
def findIn (places : List ℕ) (e : TextEditor) : TextEditor :=
  if e.find.query = [] then render e
  else
    let e := { e with find := { e.find with lastQuery := e.find.query } }
    match places.find? e.matchAt with
    | some i => render { e with cursor := i, find := { e.find with found := some (i, i + e.find.query.length) } }
    | none => render (invalidateMatch e)

/-- `editor_find_next` -/
def findNext (advance : Bool) (e : TextEditor) : TextEditor :=
  let start := match e.find.found with
    | some (_, stop) => if advance ∧ e.cursor < stop then stop else e.cursor
    | none => e.cursor
  let count := e.length + 1 - e.find.query.length
  findIn (List.range' start (count - start) ++ List.range (min start count)) e

/-- `editor_find_prev` -/
def findPrev (e : TextEditor) : TextEditor :=
  let start := if e.cursor = 0 then e.length else e.cursor
  findIn ((List.range start).reverse ++ (List.range' start (e.length - start)).reverse) e

/-- `editor_find_open` -/
def findOpen (e : TextEditor) : TextEditor :=
  let query := if e.find.query = [] then e.find.lastQuery else e.find.query
  render { e with find := { e.find with query := query, active := true } }

def setFindActive (active : Bool) (e : TextEditor) : TextEditor := { e with find := { e.find with active := active } }

def setQuery (query : Text) (e : TextEditor) : TextEditor := { e with find := { e.find with query := query } }

/-! ### Keys -/

def setKeys (f : Modifiers → Modifiers) (e : TextEditor) : TextEditor := { e with keys := f e.keys }

/-- `editor_close` -/
def close (e : TextEditor) : TextEditor := setFindActive false { e with editorActive := false }

/-- A key behind 0xE0. -/
def extendedKey (k : Press) (e : TextEditor) : TextEditor :=
  let rows := if 1 < k.rows then k.rows - 1 else k.rows
  if e.find.active then e
  else match k.scancode with
  | 0x1D => setKeys (fun m => { m with ctrlHeld := true }) e
  | 0x9D => setKeys (fun m => { m with ctrlHeld := false }) e
  | 0x38 => setKeys (fun m => { m with altHeld := true }) e
  | 0xB8 => setKeys (fun m => { m with altHeld := false }) e
  | 0x4B => move (if e.keys.ctrlHeld then moveWordLeft e.text e.cursor else e.cursor - 1) e
  | 0x4D => move (if e.keys.ctrlHeld then moveWordRight e.text e.cursor else if e.cursor < e.length then e.cursor + 1 else e.cursor) e
  | 0x47 => move (if e.keys.ctrlHeld then 0 else lineStart e.text e.cursor) e
  | 0x4F => move (if e.keys.ctrlHeld then e.length else lineEnd e.text e.cursor) e
  | 0x49 => move (moveVisualRows e.text k.width rows false e.cursor) e
  | 0x51 => move (moveVisualRows e.text k.width rows true e.cursor) e
  | 0x48 => move (lineUp e.text e.cursor) e
  | 0x50 => move (lineDown e.text e.cursor) e
  | 0x53 => delete e
  | _ => e

/-- A key while a search is typed. -/
def findKey (k : Press) (e : TextEditor) : TextEditor :=
  let c := translateScancode e.keys k.scancode
  match k.scancode with
  | 0x01 => render (setFindActive false e)
  | 0x1C =>
    let e := setFindActive false e
    if e.keys.shiftHeld then findPrev e else findNext e.find.found.isSome e
  | 0x0E => render (setQuery e.find.query.dropLast e)
  | _ =>
    if (0x20 : UInt8) ≤ c ∧ c ≤ (0x7E : UInt8) ∧ e.find.query.length + 1 < 64 then render (setQuery (e.find.query ++ [c]) e)
    else e

/-- A save, after which the editor may close. -/
def save (saved closes : Bool) (e : TextEditor) : TextEditor :=
  if saved then
    let e := { e with dirty := false }
    if closes then close e else render e
  else render e

/-- A key with Ctrl, if it is one that the editor knows. -/
def ctrlKey (k : Press) (e : TextEditor) : Option TextEditor :=
  match k.scancode with
  | 0x1E => some (render { e with selectionActive := true, selectionAnchor := 0, cursor := e.length })
  | 0x2E => some (copySelection false e)
  | 0x2D => some (copySelection true e)
  | 0x2F => some (paste e)
  | 0x21 => some (findOpen e)
  | _ => none

/-- A key that edits or closes. -/
def editKey (k : Press) (e : TextEditor) : TextEditor :=
  let c := if k.scancode = 0x0F then ('\t' : UInt8) else translateScancode e.keys k.scancode
  match k.scancode with
  | 0x01 => close e
  | 0x0E => backspace e
  | 0x1C => newline e
  | _ => if c = 0 then e else typeCharacter c e

/-- A key that is pressed and is no modifier. -/
def plainKey (k : Press) (e : TextEditor) : TextEditor :=
  if e.find.active then findKey k e
  else if k.scancode = 0x44 then save k.saved true e
  else if k.scancode = 0x1F ∧ e.keys.ctrlHeld then save k.saved false e
  else if e.keys.ctrlHeld then (ctrlKey k e).getD (editKey k e)
  else editKey k e

/-- `editor_handle_scancode` in text mode; the keys of the panic hotkey are left out where they do nothing else. -/
def handleScancode (k : Press) (e : TextEditor) : TextEditor :=
  if k.scancode = 0xE0 then setKeys (fun m => { m with extendedKey := true }) e
  else if e.keys.extendedKey then extendedKey k (setKeys (fun m => { m with extendedKey := false }) e)
  else match k.scancode with
  | 0x2A => setKeys (fun m => { m with shiftHeld := true }) e
  | 0x36 => setKeys (fun m => { m with shiftHeld := true }) e
  | 0xAA => setKeys (fun m => { m with shiftHeld := false }) e
  | 0xB6 => setKeys (fun m => { m with shiftHeld := false }) e
  | 0x1D => setKeys (fun m => { m with ctrlHeld := true }) e
  | 0x9D => setKeys (fun m => { m with ctrlHeld := false }) e
  | 0x38 => setKeys (fun m => { m with altHeld := true }) e
  | 0xB8 => setKeys (fun m => { m with altHeld := false }) e
  | 0x58 => e
  | 0x3A => setKeys (fun m => { m with capsLockOn := !m.capsLockOn }) e
  | _ =>
    if k.scancode = 0x11 ∧ e.keys.ctrlHeld ∧ e.keys.shiftHeld then close e
    else if 0x80 ≤ k.scancode then e
    else plainKey k e

/-! ### What edits are for -/

/-- The ends of the selection, if there is one. -/
def selection (e : TextEditor) : Option (ℕ × ℕ) := if e.hasSelection then some (e.selectionStart, e.selectionEnd) else none

/-- What an insertion replaces: the selection, or nothing at the cursor. -/
def replaced (e : TextEditor) : ℕ × ℕ := e.selection.getD (e.cursor, e.cursor)

/-- The part of the text from `start` to `stop` is replaced, and the cursor is behind it. -/
structure Spliced (e e' : TextEditor) (s : Text) (start stop : ℕ) : Prop where
  text : e'.text = e.text.take start ++ s ++ e.text.drop stop
  cursor : e'.cursor = start + s.length
  selection : e'.selection = none

structure Unchanged (e e' : TextEditor) : Prop where
  text : e'.text = e.text
  cursor : e'.cursor = e.cursor
  selection : e'.selection = e.selection

/-- There is room for the text in place of what it replaces. -/
def Fits (e : TextEditor) (s : Text) : Prop := e.length - (e.replaced.2 - e.replaced.1) + s.length < EDITOR_BUFFER_SIZE

/-- The text is inserted if it fits, and otherwise nothing changes. -/
structure Inserts (s : Text) (e e' : TextEditor) : Prop where
  fits : Fits e s → Spliced e e' s e.replaced.1 e.replaced.2
  full : ¬ Fits e s → Unchanged e e'

inductive Operation where
  | type (c : UInt8)
  | newline
  | paste
  | delete
  | backspace
  | cut
  | copy

namespace Operation

def apply : Operation → TextEditor → TextEditor
  | type c => typeCharacter c
  | newline => TextEditor.newline
  | paste => TextEditor.paste
  | delete => TextEditor.delete
  | backspace => TextEditor.backspace
  | cut => copySelection true
  | copy => copySelection false

/-- The operation did what it is for. -/
def Right : Operation → TextEditor → TextEditor → Prop
  | type c, e, e' => Inserts [c] e e'
  | newline, e, e' => Inserts [('\n' : UInt8)] e e'
  | paste, e, e' => Inserts e.clipboardText e e'
  | delete, e, e' =>
    match e.selection with
    | some (start, stop) => Spliced e e' [] start stop
    | none => if e.cursor < e.length then Spliced e e' [] e.cursor (e.cursor + 1) else Unchanged e e'
  | backspace, e, e' =>
    match e.selection with
    | some (start, stop) => Spliced e e' [] start stop
    | none => if 0 < e.cursor then Spliced e e' [] (e.cursor - 1) e.cursor else Unchanged e e'
  | cut, e, e' =>
    match e.selection with
    | some (start, stop) => Spliced e e' [] start stop ∧ e'.clipboardText = (e.text.take stop).drop start
    | none => Unchanged e e' ∧ e'.clipboardText = e.clipboardText
  | copy, e, e' =>
    Unchanged e e' ∧ e'.clipboardText = match e.selection with
      | some (start, stop) => (e.text.take stop).drop start
      | none => e.clipboardText

/-- Nothing that is selected is lost to a text that is not inserted. -/
def Admits (e : TextEditor) : Operation → Prop
  | type _ => e.hasSelection = true → e.length + 1 < EDITOR_BUFFER_SIZE
  | paste => e.hasSelection = true → e.clipboardText ≠ [] ∧ Fits e e.clipboardText
  | _ => True

end Operation

/-- The text ends in its buffer with a NUL, and the cursor and the anchor are in it. -/
structure Sound (e : TextEditor) : Prop where
  length : e.length < EDITOR_BUFFER_SIZE
  cursor : e.cursor ≤ e.length
  anchor : e.selectionAnchor ≤ e.length
  ended : e.buffer.get e.length = 0

/-- In this state the operation does what it is for, and so does a paste behind a cut. -/
structure Splices (op : Operation) (e : TextEditor) : Prop extends Sound e where
  right : op.Right e (op.apply e)
  restores : e.hasSelection = true → (paste (copySelection true e)).text = e.text

/-- A file is opened in text mode; what was cut or copied before, the modifiers and the search are still there. -/
def opened (e : Editor) (clipboard : Clipboard) (keys : Modifiers) (lastQuery : Text) : TextEditor :=
  { e with
    hexMode := false
    cursor := e.length
    selectionActive := false
    selectionAnchor := e.length
    clipboard := clipboard
    find := ⟨false, [], lastQuery, none⟩
    keys := keys
    editorActive := true }

/-- The states between two keys, with what `editor_open_file` has read for a start. -/
inductive Reached : TextEditor → Prop
  | opened {e : Editor} (clipboard : Clipboard) (keys : Modifiers) (lastQuery : Text) (hlength : e.length < EDITOR_BUFFER_SIZE)
      (hended : e.buffer.get e.length = 0) : Reached (opened e clipboard keys lastQuery)
  | pressed {e : TextEditor} (h : Reached e) (hactive : e.editorActive = true) (k : Press) : Reached (handleScancode k e)

end TextEditor

/-! ### Places are in the text -/

section Places

variable {text : Text} {p : UInt8 → Bool} {width index row next k : ℕ}

theorem backWhile_le (text : Text) (p : UInt8 → Bool) (i : ℕ) : backWhile text p i ≤ i := by
  induction i with
  | zero => exact Nat.le_refl _
  | succ i ih =>
    rw [backWhile]
    split_ifs
    · exact ih.trans (Nat.le_succ i)
    · exact Nat.le_refl _

theorem forwardWhile_le (h : index ≤ text.length) : forwardWhile text p index ≤ text.length := by
  have hlen := (List.takeWhile_prefix p (l := text.drop index)).length_le
  rw [List.length_drop] at hlen
  unfold forwardWhile
  omega

theorem lineStart_le (text : Text) (index : ℕ) : lineStart text index ≤ min index text.length := backWhile_le _ _ _

theorem lineEnd_le (text : Text) (index : ℕ) : lineEnd text index ≤ text.length := forwardWhile_le (Nat.min_le_right _ _)

theorem moveWordLeft_le (text : Text) (index : ℕ) : moveWordLeft text index ≤ index := (backWhile_le _ _ _).trans (backWhile_le _ _ _)

theorem moveWordRight_le (h : index ≤ text.length) : moveWordRight text index ≤ text.length := forwardWhile_le (forwardWhile_le h)

theorem rowScan_le (width : ℕ) (rest : Text) (index col : ℕ) : rowScan width rest index col ≤ index + rest.length := by
  induction rest generalizing index col with
  | nil => exact Nat.le_refl _
  | cons c rest ih =>
    rw [rowScan, List.length_cons]
    split_ifs
    · omega
    · have hrest := ih (index + 1) (col + 1)
      omega

theorem nextVisualRow_le (text : Text) (width index : ℕ) : nextVisualRow text width index ≤ text.length := by
  unfold nextVisualRow
  split_ifs with h
  · exact Nat.le_refl _
  · have hscan := rowScan_le width (text.drop index) index 0
    rw [List.length_drop] at hscan
    omega

theorem prevLoop_le (hindex : index ≤ text.length) (hrow : row ≤ text.length) : prevLoop text width index k row next ≤ text.length := by
  induction k generalizing row next with
  | zero => exact hrow
  | succ k ih =>
    rw [prevLoop]
    split_ifs with hnext
    · dsimp only
      split_ifs
      · omega
      · exact ih (by omega)
    · exact hrow

theorem prevVisualRow_le (text : Text) (width index : ℕ) : prevVisualRow text width index ≤ text.length := by
  unfold prevVisualRow
  split_ifs
  · exact Nat.zero_le _
  · exact prevLoop_le (Nat.min_le_right _ _) (Nat.zero_le _)

theorem startLoop_le (hrow : row ≤ text.length) : startLoop text width index k row ≤ text.length := by
  induction k generalizing row with
  | zero => exact hrow
  | succ k ih =>
    rw [startLoop]
    split_ifs
    · dsimp only
      split_ifs
      · exact hrow
      · exact ih (nextVisualRow_le _ _ _)
    · exact hrow

theorem rowsLoop_le {step : ℕ → ℕ} (hstep : ∀ row, step row ≤ text.length) (hrow : row ≤ text.length) :
    rowsLoop step k row ≤ text.length := by
  induction k generalizing row with
  | zero => exact hrow
  | succ k ih =>
    rw [rowsLoop]
    split_ifs
    · exact hrow
    · exact ih (hstep row)

theorem visualRowLength_le (text : Text) (width : ℕ) (hrow : row ≤ text.length) : row + visualRowLength text width row ≤ text.length := by
  have hnext := nextVisualRow_le text width row
  unfold visualRowLength
  split_ifs
  · exact hrow
  · dsimp only
    split_ifs <;> omega

theorem moveVisualRows_le (text : Text) (width rows : ℕ) (down : Bool) (index : ℕ) :
    moveVisualRows text width rows down index ≤ text.length := by
  have hstep : ∀ row, (if down then nextVisualRow text width else prevVisualRow text width) row ≤ text.length := by
    intro row
    cases down with
    | true => exact nextVisualRow_le _ _ _
    | false => exact prevVisualRow_le _ _ _
  have hrow := @rowsLoop_le text (visualRowStart text width (min index text.length)) rows _ hstep (startLoop_le (Nat.zero_le _))
  have hlast := visualRowLength_le text width hrow
  unfold moveVisualRows
  dsimp only
  omega

theorem lineUp_le (h : index ≤ text.length) : lineUp text index ≤ text.length := by
  have hstart := lineStart_le text index
  have hprev := lineStart_le text (lineStart text index - 1)
  unfold lineUp
  dsimp only
  split_ifs <;> omega

theorem lineDown_le (h : index ≤ text.length) : lineDown text index ≤ text.length := by
  have hnext := lineEnd_le text (lineEnd text index + 1)
  unfold lineDown
  dsimp only
  split_ifs <;> omega

end Places

namespace TextEditor

variable {e : TextEditor} {s : Text} {start stop width p : ℕ} {c : UInt8}

/-! ### Keys keep the state in order -/

theorem length_text (e : TextEditor) : e.text.length = e.length := Block.length_firstBytes _ _

namespace Sound

section

variable (h : Sound e)
include h

theorem render : Sound e.render := ⟨h.length, Nat.min_le_right _ _, h.anchor, h.ended⟩

theorem render_eq : e.render = e := by
  unfold TextEditor.render
  rw [Nat.min_eq_left h.cursor]

theorem clearSelection : Sound e.clearSelection := ⟨h.length, h.cursor, h.cursor, h.ended⟩

theorem move (hp : p ≤ e.length) : Sound (e.move p) := by
  have hbegin : Sound { e.beginSelectionIfNeeded with cursor := p } := by
    unfold beginSelectionIfNeeded
    split_ifs
    · exact ⟨h.length, hp, h.cursor, h.ended⟩
    · exact ⟨h.length, hp, h.anchor, h.ended⟩
  have hfinish : Sound (finishSelectionMove { e.beginSelectionIfNeeded with cursor := p }) := by
    unfold finishSelectionMove
    split_ifs
    · exact ⟨hbegin.length, hbegin.cursor, hbegin.anchor, hbegin.ended⟩
    · exact hbegin
    · exact hbegin.clearSelection
  exact hfinish.render

theorem closeGap (hfits : start + width ≤ e.length) : Sound (closeGap start width e) := by
  have hlength := h.length
  have hstart : start ≤ e.length - width := by omega
  refine ⟨?_, hstart, hstart, ?_⟩
  · show e.length - width < EDITOR_BUFFER_SIZE
    omega
  · exact Block.get_set_self _ _ (by omega)

theorem deleteRange (start stop : ℕ) : Sound (deleteRange start stop e) := by
  unfold TextEditor.deleteRange
  split_ifs with hnone
  · exact h
  · exact h.closeGap (by omega)

theorem deleteSelection : Sound e.deleteSelection := by
  unfold TextEditor.deleteSelection
  split_ifs
  · exact h.deleteRange _ _
  · exact h

theorem setClipboard (text : Text) : Sound (setClipboard text e) := by
  unfold TextEditor.setClipboard
  split_ifs
  · exact ⟨h.length, h.cursor, h.anchor, h.ended⟩
  · exact h

theorem copySelection (cut : Bool) : Sound (copySelection cut e) := by
  unfold TextEditor.copySelection
  dsimp only
  split_ifs
  · exact ((h.setClipboard _).deleteRange _ _).render
  · exact (h.setClipboard _).render
  · exact h.render

theorem insertText (s : Text) : Sound (insertText s e) := by
  unfold TextEditor.insertText
  split_ifs with hempty
  · exact h
  · have hdel := h.deleteSelection
    dsimp only
    split_ifs with hfull
    · exact hdel
    · have hcursor := hdel.cursor
      have hin : e.deleteSelection.cursor + s.length ≤ e.deleteSelection.length + s.length := Nat.add_le_add_right hcursor _
      exact ⟨Nat.lt_of_not_le hfull, hin, hin, Block.get_set_self _ _ (Nat.lt_of_not_le hfull)⟩

theorem typeCharacter (c : UInt8) : Sound (typeCharacter c e) := by
  unfold TextEditor.typeCharacter
  split_ifs
  · exact h.render
  · exact (h.insertText _).render

theorem backspace : Sound e.backspace := by
  have hcursor := h.cursor
  unfold TextEditor.backspace
  split_ifs with hsel hzero
  · exact h.deleteSelection.render
  · exact h
  · exact (h.closeGap (by omega)).render

theorem delete : Sound e.delete := by
  unfold TextEditor.delete
  split_ifs
  · exact h.deleteSelection.render
  · exact (h.deleteRange _ _).render
  · exact h.render

theorem findIn (places : List ℕ) : Sound (findIn places e) := by
  unfold TextEditor.findIn
  split_ifs
  · exact h.render
  · dsimp only
    split
    · exact render ⟨h.length, by
        rename_i i hfind
        have hmatch := List.find?_some hfind
        simp only [matchAt, decide_eq_true_eq] at hmatch
        exact (Nat.le_add_right _ _).trans hmatch.2.1, h.anchor, h.ended⟩
    · exact render ⟨h.length, h.cursor, h.anchor, h.ended⟩

theorem setKeys (f : Modifiers → Modifiers) : Sound (setKeys f e) := ⟨h.length, h.cursor, h.anchor, h.ended⟩

theorem close : Sound e.close := ⟨h.length, h.cursor, h.anchor, h.ended⟩

theorem setFindActive (active : Bool) : Sound (setFindActive active e) := ⟨h.length, h.cursor, h.anchor, h.ended⟩

theorem setQuery (query : Text) : Sound (setQuery query e) := ⟨h.length, h.cursor, h.anchor, h.ended⟩

variable (k : Press)

theorem extendedKey : Sound (extendedKey k e) := by
  have hcursor := h.cursor
  have htext := length_text e
  have hin : e.cursor ≤ e.text.length := by omega
  have hleft := moveWordLeft_le e.text e.cursor
  have hright := moveWordRight_le hin
  have hstart := lineStart_le e.text e.cursor
  have hend := lineEnd_le e.text e.cursor
  have hup := lineUp_le hin
  have hdown := lineDown_le hin
  have hpage := fun rows down => moveVisualRows_le e.text k.width rows down e.cursor
  rw [htext] at hright hend hup hdown hpage
  unfold TextEditor.extendedKey
  dsimp only
  split_ifs
  all_goals first | exact h | skip
  all_goals split
  all_goals first
    | exact h
    | exact h.setKeys _
    | exact h.delete
    | exact h.move (hpage _ _)
    | exact h.move hup
    | exact h.move hdown
    | exact h.move (by omega)
    | exact h.move (by split_ifs <;> omega)

theorem findKey : Sound (findKey k e) := by
  unfold TextEditor.findKey
  dsimp only
  split
  · exact (h.setFindActive _).render
  · split_ifs
    · exact (h.setFindActive _).findIn _
    · exact (h.setFindActive _).findIn _
  · exact (h.setQuery _).render
  · split_ifs
    · exact (h.setQuery _).render
    · exact h

theorem save (saved closes : Bool) : Sound (save saved closes e) := by
  have hclean : Sound { e with dirty := false } := ⟨h.length, h.cursor, h.anchor, h.ended⟩
  unfold TextEditor.save
  split_ifs
  · exact hclean.close
  · exact hclean.render
  · exact h.render

theorem editKey : Sound (editKey k e) := by
  have htyped : ∀ c : UInt8, Sound (if c = 0 then e else TextEditor.typeCharacter c e) := by
    intro c
    split_ifs
    · exact h
    · exact h.typeCharacter c
  unfold TextEditor.editKey
  dsimp only
  split
  · exact h.close
  · exact h.backspace
  · exact (h.insertText _).render
  · exact htyped _

theorem ctrlKey : ∀ e' ∈ ctrlKey k e, Sound e' := by
  intro e' he'
  unfold TextEditor.ctrlKey at he'
  split at he'
  · obtain rfl := Option.some.inj he'
    exact render ⟨h.length, Nat.le_refl _, Nat.zero_le _, h.ended⟩
  · obtain rfl := Option.some.inj he'
    exact h.copySelection false
  · obtain rfl := Option.some.inj he'
    exact h.copySelection true
  · obtain rfl := Option.some.inj he'
    exact (h.insertText _).render
  · obtain rfl := Option.some.inj he'
    exact render ⟨h.length, h.cursor, h.anchor, h.ended⟩
  · exact nomatch he'

theorem plainKey : Sound (plainKey k e) := by
  unfold TextEditor.plainKey
  split_ifs
  · exact h.findKey k
  · exact h.save _ _
  · exact h.save _ _
  · cases hctrl : TextEditor.ctrlKey k e with
    | none => exact h.editKey k
    | some e' => exact h.ctrlKey k e' hctrl
  · exact h.editKey k

theorem handleScancode : Sound (handleScancode k e) := by
  have hplain : Sound (if k.scancode = 0x11 ∧ e.keys.ctrlHeld ∧ e.keys.shiftHeld then e.close
      else if 0x80 ≤ k.scancode then e else TextEditor.plainKey k e) := by
    split_ifs
    · exact h.close
    · exact h
    · exact h.plainKey k
  unfold TextEditor.handleScancode
  by_cases hprefix : k.scancode = 0xE0
  · rw [if_pos hprefix]
    exact h.setKeys _
  · rw [if_neg hprefix]
    by_cases hextended : e.keys.extendedKey = true
    · rw [if_pos hextended]
      exact (h.setKeys _).extendedKey k
    · rw [if_neg hextended]
      split
      all_goals first
        | exact h
        | exact h.setKeys _
        | exact hplain

end

end Sound

theorem Reached.sound (h : Reached e) : Sound e := by
  induction h with
  | opened clipboard keys lastQuery hlength hended => exact ⟨hlength, Nat.le_refl _, Nat.le_refl _, hended⟩
  | pressed _ _ k ih => exact ih.handleScancode k

/-! ### Edits are splices -/

theorem selection_of_has (h : e.hasSelection = true) : e.selection = some (e.selectionStart, e.selectionEnd) := if_pos h

theorem selection_of_not (h : ¬ e.hasSelection = true) : e.selection = none := if_neg h

theorem replaced_of_has (h : e.hasSelection = true) : e.replaced = (e.selectionStart, e.selectionEnd) := by
  rw [replaced, selection_of_has h]
  rfl

theorem replaced_of_not (h : ¬ e.hasSelection = true) : e.replaced = (e.cursor, e.cursor) := by
  rw [replaced, selection_of_not h]
  rfl

theorem Sound.range (h : Sound e) (hsel : e.hasSelection = true) : e.selectionStart < e.selectionEnd ∧ e.selectionEnd ≤ e.length := by
  have hcursor := h.cursor
  have hanchor := h.anchor
  have hne : e.selectionAnchor ≠ e.cursor := by
    simp only [hasSelection, Bool.and_eq_true, decide_eq_true_eq] at hsel
    exact hsel.2
  unfold selectionStart selectionEnd
  omega

theorem Unchanged.refl (e : TextEditor) : Unchanged e e := ⟨rfl, rfl, rfl⟩

theorem closeGap_spliced (h : Sound e) (hfits : start + width ≤ e.length) : Spliced e (closeGap start width e) [] start (start + width) := by
  have hlength := h.length
  refine ⟨?_, rfl, rfl⟩
  have hcount : e.length - width - start = e.length - (start + width) := by omega
  have hmoved := @Block.firstBytes_moveDown _ e.buffer start (start + width) e.length (Nat.le_add_right _ _) hfits hlength.le
  rw [Nat.add_sub_cancel_left] at hmoved
  show ((e.buffer.moveDown start width (e.length - width - start)).set (e.length - width) 0).firstBytes (e.length - width) = _
  rw [Block.firstBytes_set, hcount, hmoved, List.append_nil]
  rfl

theorem deleteRange_spliced (h : Sound e) (hlt : start < stop) (hstop : stop ≤ e.length) : Spliced e (deleteRange start stop e) [] start stop := by
  have hgap := closeGap_spliced h (show start + (stop - start) ≤ e.length by omega)
  rw [show start + (stop - start) = stop by omega] at hgap
  unfold deleteRange
  rwa [if_neg (by omega), Nat.min_eq_left hstop]

theorem deleteSelection_spliced (h : Sound e) (hsel : e.hasSelection = true) :
    Spliced e e.deleteSelection [] e.selectionStart e.selectionEnd := by
  obtain ⟨hlt, hstop⟩ := h.range hsel
  unfold deleteSelection
  rw [if_pos hsel]
  exact deleteRange_spliced h hlt hstop

theorem deleteSelection_of_not (hsel : ¬ e.hasSelection = true) : e.deleteSelection = e := if_neg hsel

/-- What is before the cursor and behind it once the selection is deleted. -/
theorem deleteSelection_parts (h : Sound e) : e.deleteSelection.cursor = e.replaced.1 ∧
    e.deleteSelection.length = e.length - (e.replaced.2 - e.replaced.1) ∧
    e.deleteSelection.text.take e.replaced.1 = e.text.take e.replaced.1 ∧
    e.deleteSelection.text.drop e.replaced.1 = e.text.drop e.replaced.2 := by
  by_cases hsel : e.hasSelection = true
  · obtain ⟨hlt, hstop⟩ := h.range hsel
    have hspliced := deleteSelection_spliced h hsel
    have htext := length_text e
    have htake : (e.text.take e.selectionStart).length = e.selectionStart := by
      rw [List.length_take, htext]
      omega
    rw [replaced_of_has hsel]
    refine ⟨hspliced.cursor, ?_, ?_, ?_⟩
    · rw [← length_text, hspliced.text, List.append_nil, List.length_append, htake, List.length_drop, htext]
      dsimp only
      omega
    · rw [hspliced.text, List.append_nil, List.take_left' htake]
    · rw [hspliced.text, List.append_nil, List.drop_left' htake]
  · rw [deleteSelection_of_not hsel, replaced_of_not hsel]
    exact ⟨rfl, by rw [Nat.sub_self, Nat.sub_zero], rfl, rfl⟩

theorem insertText_spliced (h : Sound e) (hne : s ≠ []) (hfits : Fits e s) :
    Spliced e (insertText s e) s e.replaced.1 e.replaced.2 := by
  have hdel := h.deleteSelection
  obtain ⟨hcursor, hlength, htake, hdrop⟩ := deleteSelection_parts h
  have hroom : e.deleteSelection.length + s.length < EDITOR_BUFFER_SIZE := by
    rw [hlength]
    exact hfits
  unfold insertText
  rw [if_neg hne]
  dsimp only
  rw [if_neg (Nat.not_le.2 hroom)]
  refine ⟨?_, by rw [← hcursor]; rfl, rfl⟩
  show (Block.set _ (e.deleteSelection.length + s.length) 0).firstBytes (e.deleteSelection.length + s.length) = _
  rw [Block.firstBytes_set, Block.firstBytes_moveUp hdel.cursor hroom.le, hcursor]
  show e.deleteSelection.text.take e.replaced.1 ++ s ++ e.deleteSelection.text.drop e.replaced.1 = _
  rw [htake, hdrop]

theorem insertText_full (h : Sound e) (hne : s ≠ []) (hfull : ¬ Fits e s) : insertText s e = e.deleteSelection := by
  obtain ⟨-, hlength, -, -⟩ := deleteSelection_parts h
  unfold insertText
  rw [if_neg hne]
  dsimp only
  rw [if_pos]
  rw [hlength]
  exact Nat.not_lt.1 hfull

theorem fits_nil (h : Sound e) : Fits e [] := (Nat.sub_le _ _).trans_lt h.length

theorem fits_singleton (h : Sound e) (hsel : e.hasSelection = true) (c : UInt8) : Fits e [c] := by
  obtain ⟨hlt, hstop⟩ := h.range hsel
  have hlength := h.length
  unfold Fits
  rw [replaced_of_has hsel, List.length_singleton]
  dsimp only
  omega

theorem spliced_nil (hsel : ¬ e.hasSelection = true) : Spliced e e [] e.replaced.1 e.replaced.2 := by
  rw [replaced_of_not hsel]
  refine ⟨?_, rfl, selection_of_not hsel⟩
  rw [List.append_nil, List.take_append_drop]

theorem not_spliced (hsel : e.hasSelection = true) : ¬ Spliced e e s start stop := by
  intro h
  have hnone := h.selection
  rw [selection_of_has hsel] at hnone
  exact nomatch hnone

/-- An insertion over a selection is right where there is something to insert, and room for it. -/
theorem inserts_iff (h : Sound e) (s : Text) :
    Inserts s e (render (insertText s e)) ↔ (e.hasSelection = true → s ≠ [] ∧ Fits e s) := by
  rw [(h.insertText s).render_eq]
  by_cases hsel : e.hasSelection = true
  · refine ⟨fun hins _ => ?_, fun hok => ?_⟩
    · have hne : s ≠ [] := by
        rintro rfl
        have hspliced := hins.fits (fits_nil h)
        rw [insertText, if_pos rfl] at hspliced
        exact not_spliced hsel hspliced
      refine ⟨hne, ?_⟩
      by_contra hfull
      have hsame := (hins.full hfull).selection
      rw [insertText_full h hne hfull, (deleteSelection_spliced h hsel).selection, selection_of_has hsel] at hsame
      exact nomatch hsame
    · obtain ⟨hne, hfits⟩ := hok hsel
      exact ⟨insertText_spliced h hne, fun hfull => absurd hfits hfull⟩
  · refine ⟨fun _ hhas => absurd hhas hsel, fun _ => ⟨fun hfits => ?_, fun hfull => ?_⟩⟩
    · by_cases hne : s = []
      · subst hne
        rw [insertText, if_pos rfl]
        exact spliced_nil hsel
      · exact insertText_spliced h hne hfits
    · by_cases hne : s = []
      · subst hne
        exact absurd (fits_nil h) hfull
      · rw [insertText_full h hne hfull, deleteSelection_of_not hsel]
        exact Unchanged.refl e

/-- A character is refused where the buffer is full, also if it would replace a selection. -/
theorem type_iff (h : Sound e) (c : UInt8) :
    Inserts [c] e (typeCharacter c e) ↔ (e.hasSelection = true → e.length + 1 < EDITOR_BUFFER_SIZE) := by
  unfold typeCharacter
  split_ifs with hfull
  · rw [h.render_eq]
    by_cases hsel : e.hasSelection = true
    · exact iff_of_false (fun hins => not_spliced hsel (hins.fits (fits_singleton h hsel c))) fun hroom => absurd (hroom hsel) (Nat.not_lt.2 hfull)
    · refine iff_of_true ⟨fun hfits => absurd hfits ?_, fun _ => Unchanged.refl e⟩ fun hhas => absurd hhas hsel
      unfold Fits
      rw [replaced_of_not hsel, Nat.sub_self, Nat.sub_zero, List.length_singleton]
      exact Nat.not_lt.2 hfull
  · rw [inserts_iff h]
    exact iff_of_true (fun hsel => ⟨List.cons_ne_nil _ _, fits_singleton h hsel c⟩) fun _ => Nat.lt_of_not_le hfull

theorem newline_inserts (h : Sound e) : Inserts [('\n' : UInt8)] e e.newline :=
  (inserts_iff h _).2 fun hsel => ⟨List.cons_ne_nil _ _, fits_singleton h hsel _⟩

theorem delete_right (h : Sound e) : Operation.delete.Right e e.delete := by
  have hcursor := h.cursor
  unfold delete
  by_cases hsel : e.hasSelection = true
  · simp only [Operation.Right]
    rw [selection_of_has hsel, if_pos hsel, h.deleteSelection.render_eq]
    exact deleteSelection_spliced h hsel
  · simp only [Operation.Right]
    rw [selection_of_not hsel, if_neg hsel]
    dsimp only
    split_ifs with hend
    · rw [(h.deleteRange _ _).render_eq]
      exact deleteRange_spliced h (Nat.lt_succ_self _) hend
    · rw [h.render_eq]
      exact Unchanged.refl e

theorem backspace_right (h : Sound e) : Operation.backspace.Right e e.backspace := by
  have hcursor := h.cursor
  unfold backspace
  by_cases hsel : e.hasSelection = true
  · simp only [Operation.Right]
    rw [selection_of_has hsel, if_pos hsel, h.deleteSelection.render_eq]
    exact deleteSelection_spliced h hsel
  · simp only [Operation.Right]
    rw [selection_of_not hsel, if_neg hsel]
    dsimp only
    split_ifs with hpos hzero hzero
    · omega
    · have hfits : e.cursor - 1 + 1 ≤ e.length := by omega
      have hgap := closeGap_spliced h hfits
      rw [Nat.sub_add_cancel hpos] at hgap
      rwa [(h.closeGap hfits).render_eq]
    · exact Unchanged.refl e
    · omega

/-- The clipboard takes what is selected, and nothing else changes. -/
theorem setClipboard_selected (h : Sound e) (hsel : e.hasSelection = true) :
    Unchanged e (setClipboard e.selected e) ∧ (setClipboard e.selected e).length = e.length ∧
      (setClipboard e.selected e).clipboardText = (e.text.take e.selectionEnd).drop e.selectionStart := by
  obtain ⟨hlt, hstop⟩ := h.range hsel
  have hlength := h.length
  have hselected : e.selected = (e.text.take e.selectionEnd).drop e.selectionStart := by
    unfold selected Editor.text
    rw [Block.take_firstBytes, Nat.min_eq_left hstop]
  have hfits : e.selected.length < EDITOR_BUFFER_SIZE := by
    rw [selected, List.length_drop, Block.length_firstBytes]
    omega
  unfold setClipboard
  rw [dif_pos hfits]
  refine ⟨⟨rfl, rfl, rfl⟩, rfl, ?_⟩
  show ((e.clipboard.bytes.store e.selected).set e.selected.length 0).firstBytes e.selected.length = _
  rw [Block.firstBytes_set, Block.firstBytes_store _ hfits.le, hselected]

theorem clipboardText_closeGap (start width : ℕ) (e : TextEditor) : (closeGap start width e).clipboardText = e.clipboardText := rfl

theorem clipboardText_deleteRange (start stop : ℕ) (e : TextEditor) : (deleteRange start stop e).clipboardText = e.clipboardText := by
  unfold deleteRange
  split_ifs
  · rfl
  · exact clipboardText_closeGap _ _ e

/-- A cut takes the selection out and puts it in the clipboard. -/
theorem cut_selected (h : Sound e) (hsel : e.hasSelection = true) :
    Spliced e (copySelection true e) [] e.selectionStart e.selectionEnd ∧
      (copySelection true e).clipboardText = (e.text.take e.selectionEnd).drop e.selectionStart := by
  obtain ⟨hlt, hstop⟩ := h.range hsel
  obtain ⟨hsame, hlen, hclip⟩ := setClipboard_selected h hsel
  have hset := h.setClipboard e.selected
  have hcut := deleteRange_spliced hset hlt (by rwa [hlen])
  unfold copySelection
  rw [if_neg (not_not.2 hsel)]
  dsimp only
  rw [if_pos rfl, (hset.deleteRange _ _).render_eq]
  exact ⟨⟨by rw [hcut.text, hsame.text], hcut.cursor, hcut.selection⟩, by rw [clipboardText_deleteRange, hclip]⟩

theorem copySelection_of_not (h : Sound e) (hsel : ¬ e.hasSelection = true) (cut : Bool) : copySelection cut e = e := by
  unfold copySelection
  rw [if_pos hsel, h.render_eq]

theorem cut_right (h : Sound e) : Operation.cut.Right e (copySelection true e) := by
  simp only [Operation.Right]
  by_cases hsel : e.hasSelection = true
  · rw [selection_of_has hsel]
    exact cut_selected h hsel
  · rw [selection_of_not hsel, copySelection_of_not h hsel]
    exact ⟨Unchanged.refl e, rfl⟩

theorem copy_right (h : Sound e) : Operation.copy.Right e (copySelection false e) := by
  simp only [Operation.Right]
  by_cases hsel : e.hasSelection = true
  · obtain ⟨hsame, -, hclip⟩ := setClipboard_selected h hsel
    have hcopy : copySelection false e = setClipboard e.selected e := by
      unfold copySelection
      rw [if_neg (not_not.2 hsel)]
      dsimp only
      rw [if_neg Bool.false_ne_true, (h.setClipboard _).render_eq]
    rw [selection_of_has hsel, hcopy]
    exact ⟨hsame, hclip⟩
  · rw [selection_of_not hsel, copySelection_of_not h hsel]
    exact ⟨Unchanged.refl e, rfl⟩

/-- A paste puts back what was cut. -/
theorem paste_cut (h : Sound e) (hsel : e.hasSelection = true) : (paste (copySelection true e)).text = e.text := by
  obtain ⟨hlt, hstop⟩ := h.range hsel
  obtain ⟨hcut, hclip⟩ := cut_selected h hsel
  have hs := h.copySelection true
  have htext := length_text e
  have hlength := h.length
  have hnot : ¬ (copySelection true e).hasSelection = true := by
    intro hhas
    have hnone := hcut.selection
    rw [selection_of_has hhas] at hnone
    exact nomatch hnone
  have htake : (e.text.take e.selectionStart).length = e.selectionStart := by
    rw [List.length_take, htext]
    omega
  have hcliplen : (copySelection true e).clipboardText.length = e.selectionEnd - e.selectionStart := by
    rw [hclip, List.length_drop, List.length_take, htext]
    omega
  have hcutlen : (copySelection true e).length = e.length - (e.selectionEnd - e.selectionStart) := by
    rw [← length_text, hcut.text, List.append_nil, List.length_append, htake, List.length_drop, htext]
    omega
  have hne : (copySelection true e).clipboardText ≠ [] := by
    intro hnil
    rw [hnil, List.length_nil] at hcliplen
    omega
  have hfits : Fits (copySelection true e) (copySelection true e).clipboardText := by
    unfold Fits
    rw [replaced_of_not hnot, Nat.sub_self, Nat.sub_zero, hcutlen, hcliplen]
    omega
  have hpaste := insertText_spliced hs hne hfits
  rw [paste, (hs.insertText _).render_eq, hpaste.text, replaced_of_not hnot, hcut.cursor, hcut.text, hclip, List.length_nil, Nat.add_zero,
    List.append_nil, List.take_left' htake, List.drop_left' htake]
  have hmiddle : e.text.take e.selectionStart ++ (e.text.take e.selectionEnd).drop e.selectionStart = e.text.take e.selectionEnd := by
    have hfront := List.take_append_drop e.selectionStart (e.text.take e.selectionEnd)
    rwa [List.take_take, Nat.min_eq_left hlt.le] at hfront
  rw [hmiddle, List.take_append_drop]

/-- In every state that keys lead to, an operation is a splice just where it loses nothing that is selected. -/
theorem splices_iff (h : Reached e) (op : Operation) : Splices op e ↔ op.Admits e := by
  have hs := h.sound
  have hright : op.Right e (op.apply e) ↔ op.Admits e := by
    cases op with
    | type c => exact type_iff hs c
    | newline => exact iff_of_true (newline_inserts hs) trivial
    | paste => exact inserts_iff hs _
    | delete => exact iff_of_true (delete_right hs) trivial
    | backspace => exact iff_of_true (backspace_right hs) trivial
    | cut => exact iff_of_true (cut_right hs) trivial
    | copy => exact iff_of_true (copy_right hs) trivial
  exact ⟨fun hsplices => hright.1 hsplices.right, fun hadmits => { hs with right := hright.2 hadmits, restores := paste_cut hs }⟩

/-- A file of this many bytes `x`. -/
def filled (length : ℕ) : Editor := ⟨false, false, [], fun i => if i.val < length then ('x' : UInt8) else 0, length, false⟩

def noKeys : Modifiers := ⟨false, true, false, false, false⟩

theorem reached_filled {length : ℕ} (h : length < EDITOR_BUFFER_SIZE) :
    Reached (opened (filled length) ⟨.zero, 0, by decide⟩ noKeys []) := by
  refine .opened _ _ _ h ?_
  show (filled length).buffer.get length = 0
  rw [Block.get_of_lt _ h]
  exact if_neg (Nat.lt_irrefl _)

theorem splices_newline : Splices .newline (opened (filled 3) ⟨.zero, 0, by decide⟩ noKeys []) :=
  (splices_iff (reached_filled (by decide)) .newline).2 trivial

/-- The file that fills the buffer, with everything selected. -/
def allSelected : TextEditor := handleScancode ⟨0x1E, 25, 80, false⟩ (opened (filled 4095) ⟨.zero, 0, editorBuffer_pos⟩ noKeys [])

/-- With everything selected in a full buffer, a character is refused that would replace it. -/
theorem not_splices : Reached allSelected ∧ ¬ Splices (.type 'b') allSelected := by
  have hreached : Reached allSelected := (reached_filled (by decide)).pressed rfl _
  refine ⟨hreached, fun h => ?_⟩
  have hroom := (type_iff hreached.sound 'b').1 h.right rfl
  exact absurd hroom (by decide)

end TextEditor

end Tg11Kernel.Shell
