import Tg11Kernel.Shell.Storage

/-! Output redirected to a file. What a command prints is captured in one buffer and then
written to the file; to append, the file is read in front of it into a second buffer of the
same size, as far as the captured output leaves room, and written back. -/

namespace Tg11Kernel.Shell

open Lib Exec
open Ramfs (FS_MAX_FILE_SIZE)

/-- The buffer that output is captured in. Its last byte is left for a NUL. -/
structure Capture where
  buf : Block FS_MAX_FILE_SIZE
  len : ℕ
  len_lt : len < FS_MAX_FILE_SIZE

namespace Capture

def empty (c : Capture) : Capture := ⟨c.buf.set 0 0, 0, by decide⟩

/-- `terminal_putc` while output is captured. -/
def putc (c : Capture) (ch : UInt8) : Capture :=
  if h : c.len + 1 < FS_MAX_FILE_SIZE then ⟨(c.buf.set c.len ch).set (c.len + 1) 0, c.len + 1, h⟩ else c

def bytes (c : Capture) : List UInt8 := c.buf.firstBytes c.len

theorem bytes_putc (c : Capture) (ch : UInt8) : (c.putc ch).bytes = if c.len + 1 < FS_MAX_FILE_SIZE then c.bytes ++ [ch] else c.bytes := by
  unfold putc
  split_ifs with hroom
  · have hlt := c.len_lt
    rw [bytes, Block.firstBytes_set, Block.firstBytes_succ, Block.firstBytes_set, Block.get_set_self _ _ hlt, bytes]
  · rfl

theorem length_bytes (c : Capture) : c.bytes.length = c.len := Block.length_firstBytes _ _

end Capture

/-- The state that a redirected command works on. -/
structure Console (δ : Type) where
  storage : Storage δ
  capturing : Bool
  capture : Capture

namespace Redirection

variable {δ : Type}

def onStorage {α : Type} (m : Exec (Storage δ) α) : Exec (Console δ) α := fun d =>
  let r := m d.storage
  (r.1, { d with storage := r.2 })

/-- The bytes read from a file that is appended to, none when it cannot be read. -/
def readExisting (fs : Fat32.Fat32State δ) (fuel : ℕ) (useFat : Bool) (path : Path) (len : ℕ) : Exec (Storage δ) (ℕ × List UInt8) := do
  let found ← (Storage.readFile fs fuel useFat path (FS_MAX_FILE_SIZE - len - 1)).attempt
  pure (found.getD (0, []))

/-- The contents of `existing` after the loop that adds the output; `garbage` is what the array held. -/
def merge (garbage : Block FS_MAX_FILE_SIZE) (existing : ℕ × List UInt8) (output : List UInt8) : List UInt8 :=
  (garbage.store existing.2).firstBytes existing.1 ++ output.take (FS_MAX_FILE_SIZE - existing.1)

/-- A call whose result is not looked at. -/
def unchecked {σ : Type} (m : Exec σ Unit) : Exec σ Unit := do
  let _ ← m.attempt
  pure ()

/-- What `>` and `>>` do with the output. -/
def writeOutput (fs : Fat32.Fat32State δ) (fuel : ℕ) (garbage : Block FS_MAX_FILE_SIZE) (useFat hasAppend : Bool) (path : Path)
    (output : List UInt8) : Exec (Storage δ) Unit :=
  if hasAppend then do
    let existing ← readExisting fs fuel useFat path output.length
    unchecked (Storage.writeFile fs fuel useFat path (merge garbage existing output))
  else unchecked (Storage.writeFile fs fuel useFat path output)

/-- The start of a capture. -/
def begin : Exec (Console δ) Unit := Exec.modify fun d => { d with capturing := true, capture := d.capture.empty }

/-- The part of `run_command_single` after the operator and the file name are found. `dispatch` runs the
command, `resolve` is `fat_resolve_path` and `fs` the volume that is mounted after it; where it returns -1
only a message is printed. -/
def runRedirected (fs : Fat32.Fat32State δ) (fuel : ℕ) (garbage : Block FS_MAX_FILE_SIZE) (resolve : Path → Option Path)
    (fatModeActive hasAppend : Bool) (redirFile : Path) (dispatch : Exec (Console δ) Unit) : Exec (Console δ) Unit := do
  begin
  dispatch
  Exec.modify fun d => { d with capturing := false }
  let output ← Exec.gets fun d => d.capture.bytes
  if fatModeActive then
    match resolve redirFile with
    | none => pure ()
    | some fullRedir => onStorage (writeOutput fs fuel garbage true hasAppend fullRedir output)
  else onStorage (writeOutput fs fuel garbage false hasAppend redirFile output)

/-! ### What an append leaves -/

variable {content : δ → ℕ → Fat32.Sector} {dev : Fat32.BlockDevice δ} {fs : Fat32.Fat32State δ} {fuel : ℕ} {useFat : Bool}
  {target : Path} {bytes output : List UInt8} {w : Storage δ} {garbage : Block FS_MAX_FILE_SIZE}

/-- The bytes that are left for the old contents. -/
def room (output : List UInt8) : ℕ := FS_MAX_FILE_SIZE - output.length - 1

/-- The file system takes data for the file. -/
def Accepts (fs : Fat32.Fat32State δ) (fuel : ℕ) (useFat : Bool) (w : Storage δ) (path : Path) (data : List UInt8) : Prop :=
  (Storage.writeFile fs fuel useFat path data w).1 = .ok ()

/-- The file system takes all of the data. -/
def Fits (fs : Fat32.Fat32State δ) (fuel : ℕ) (useFat : Bool) (w : Storage δ) (path : Path) (data : List UInt8) : Prop :=
  Storage.kept useFat data = data ∧ data.length < 2 ^ 32 ∧ Accepts fs fuel useFat w path data

/-- The state in which the merged data is written. -/
def afterRead (fs : Fat32.Fat32State δ) (fuel : ℕ) (useFat : Bool) (path : Path) (output : List UInt8) (w : Storage δ) : Storage δ :=
  (Storage.readFile fs fuel useFat path (room output) w).2

/-- All old bytes are kept, and all new ones added, if they fit. -/
def Appends (content : δ → ℕ → Fat32.Sector) (fs : Fat32.Fat32State δ) (fuel : ℕ) (useFat : Bool) (path : Path)
    (bytes output : List UInt8) (w w' : Storage δ) : Prop :=
  ∃ after, Storage.Holds content fs fuel useFat w' path after ∧ bytes <+: after ∧
    (Fits fs fuel useFat (afterRead fs fuel useFat path output w) path (bytes ++ output) → after = bytes ++ output)

theorem room_add (hout : output.length < FS_MAX_FILE_SIZE) : room output + output.length + 1 = FS_MAX_FILE_SIZE := by
  unfold room
  omega

/-- An append writes as much of the file as fits before the output, and the output. -/
theorem writeOutput_run (h : Storage.Holds content fs fuel useFat w target bytes) (hs : Storage.InOrder content dev fs fuel useFat w)
    (hout : output.length < FS_MAX_FILE_SIZE) :
    writeOutput fs fuel garbage useFat true target output w =
        unchecked (Storage.writeFile fs fuel useFat target (bytes.take (room output) ++ output)) (afterRead fs fuel useFat target output w) ∧
      Storage.Same content w (afterRead fs fuel useFat target output w) := by
  obtain ⟨w₁, hread, hsame⟩ := Storage.readFile_of_holds h hs (room output)
  have hafter : afterRead fs fuel useFat target output w = w₁ := by rw [afterRead, hread]
  have hexisting : readExisting fs fuel useFat target output.length w =
      (.ok (min bytes.length (room output), bytes.take (room output)), w₁) := by
    rw [readExisting, ← room, bind_ok (attempt_ok hread)]
    rfl
  have hlen : (bytes.take (room output)).length = min bytes.length (room output) := by rw [List.length_take, Nat.min_comm]
  have hroom := room_add hout
  have hmin := Nat.min_le_right bytes.length (room output)
  have hmerge : merge garbage (min bytes.length (room output), bytes.take (room output)) output = bytes.take (room output) ++ output := by
    have hfits : (bytes.take (room output)).length ≤ FS_MAX_FILE_SIZE := by omega
    have hall : output.length ≤ FS_MAX_FILE_SIZE - min bytes.length (room output) := by omega
    have hstored := garbage.firstBytes_store hfits
    rw [hlen] at hstored
    rw [merge, hstored, List.take_of_length_le hall]
  rw [hafter, writeOutput, if_pos rfl, bind_ok hexisting, hmerge]
  exact ⟨rfl, hsame⟩

theorem prefix_take_append_iff (l m : List UInt8) (n : ℕ) : l <+: l.take n ++ m ↔ l.drop n <+: m := by
  have hsplit := List.take_append_drop n l
  constructor
  · intro h
    nth_rewrite 1 [← hsplit] at h
    exact (List.prefix_append_right_inj _).1 h
  · intro h
    nth_rewrite 1 [← hsplit]
    exact (List.prefix_append_right_inj _).2 h

theorem take_append_eq_iff (l m : List UInt8) (n : ℕ) : l.take n ++ m = l ++ m ↔ l.length ≤ n := by
  rw [List.append_left_inj, List.take_eq_self_iff]

/-- When an append loses nothing. Where the data that it writes is taken, the old bytes that it leaves out are
the first of the output, and none is left out if the file system would take all; where the data is refused,
all would be, and the file has no cluster to lose. -/
def CanAppend (content : δ → ℕ → Fat32.Sector) (fs : Fat32.Fat32State δ) (fuel : ℕ) (useFat : Bool) (path : Path)
    (bytes output : List UInt8) (w : Storage δ) : Prop :=
  (Accepts fs fuel useFat w path (bytes.take (room output) ++ output) →
    bytes.drop (room output) <+: output ∧ (Fits fs fuel useFat w path (bytes ++ output) → bytes.length ≤ room output)) ∧
  (¬ Accepts fs fuel useFat w path (bytes.take (room output) ++ output) →
    Fat32.Bare content fs fuel w.fat path ∧ ¬ Fits fs fuel useFat w path (bytes ++ output))

theorem writeOutput_appends (h : Storage.Holds content fs fuel useFat w target bytes)
    (hs : Storage.InOrder content dev fs fuel useFat w) (hout : output.length < FS_MAX_FILE_SIZE) :
    ∃ w', writeOutput fs fuel garbage useFat true target output w = (.ok (), w') ∧
      (Appends content fs fuel useFat target bytes output w w' ↔
        CanAppend content fs fuel useFat target bytes output (afterRead fs fuel useFat target output w)) := by
  obtain ⟨hrun, hsame⟩ := @writeOutput_run _ content dev fs fuel useFat target bytes output w garbage h hs hout
  have hroom := room_add hout
  have hlen : (bytes.take (room output) ++ output).length < FS_MAX_FILE_SIZE := by
    rw [List.length_append, List.length_take]
    omega
  have hmax : FS_MAX_FILE_SIZE < 2 ^ 32 := by decide
  have hkept : Storage.kept useFat (bytes.take (room output) ++ output) = bytes.take (room output) ++ output := by
    unfold Storage.kept
    split_ifs
    · rfl
    · exact List.take_of_length_le (by omega)
  have hwrite := Storage.writeFile_of_holds (h.same hsame) (hs.same hsame) (hlen.trans hmax)
  rw [hkept] at hwrite
  unfold CanAppend Appends
  rcases hwrite with ⟨_, w', hok, hw'⟩ | ⟨w', hfail, hfat, hne, hlost⟩
  · refine ⟨w', hrun.trans (by rw [unchecked, bind_ok (attempt_ok hok)]; rfl), ?_⟩
    have haccepts : Accepts fs fuel useFat (afterRead fs fuel useFat target output w) target (bytes.take (room output) ++ output) := by
      rw [Accepts, hok]
    rw [← prefix_take_append_iff bytes output, ← take_append_eq_iff bytes output]
    constructor
    · rintro ⟨after, hafter, hpre, hall⟩
      obtain rfl := hafter.unique hw'
      exact ⟨fun _ => ⟨hpre, hall⟩, fun hno => absurd haccepts hno⟩
    · rintro ⟨hand, -⟩
      exact ⟨_, hw', hand haccepts⟩
  · refine ⟨w', hrun.trans (by rw [unchecked, bind_ok (attempt_fail hfail)]; rfl), ?_⟩
    have hrefuses : ¬ Accepts fs fuel useFat (afterRead fs fuel useFat target output w) target (bytes.take (room output) ++ output) := by
      rw [Accepts, hfail]
      simp
    rcases hlost with ⟨hbare, hold⟩ | ⟨hbare, hgone⟩
    · constructor
      · rintro ⟨after, hafter, -, hall⟩
        refine ⟨fun hyes => absurd hyes hrefuses, fun _ => ⟨hbare, fun hfits => hne ?_⟩⟩
        -- nothing is added to nothing
        have heq : bytes ++ output = bytes := (hall hfits).symm.trans (hafter.unique hold)
        have hnone : output = [] := by simpa using heq
        rw [(h.same hsame).nil_of_bare hfat hbare, hnone]
        simp
      · rintro ⟨-, hand⟩
        exact ⟨bytes, hold, List.prefix_rfl, fun hfits => absurd hfits (hand hrefuses).2⟩
    · constructor
      · rintro ⟨after, hafter, -⟩
        exact absurd hafter (hgone after)
      · rintro ⟨-, hand⟩
        exact absurd (hand hrefuses).1 hbare

theorem accepts_ramfs (h : Storage.Holds content fs fuel false w target bytes) (data : List UInt8) : Accepts fs fuel false w target data := by
  obtain ⟨s', hwrite, -⟩ := Ramfs.writeFile_of_holds h data
  rw [Accepts, Storage.writeFile, if_neg (by decide), Storage.onRamfs, hwrite]

theorem canAppend_ramfs_iff (h : Storage.Holds content fs fuel false w target bytes) (hout : output.length < FS_MAX_FILE_SIZE) :
    CanAppend content fs fuel false target bytes output w ↔ bytes.drop (room output) <+: output := by
  constructor
  · exact fun hand => (hand.1 (accepts_ramfs h _)).1
  · refine fun hpre => ⟨fun _ => ⟨hpre, fun hfits => ?_⟩, fun hno => absurd (accepts_ramfs h _) hno⟩
    have hall : (bytes ++ output).take (FS_MAX_FILE_SIZE - 1) = bytes ++ output := hfits.1
    have hlen := (List.take_eq_self_iff _).1 hall
    have hroom := room_add hout
    rw [List.length_append] at hlen
    omega

/-- Appending keeps a file, in both file systems, exactly when the output and the file fit the buffer
together, or the bytes that are left out do no harm. -/
theorem append_keeps_iff {resolve : Path → Option Path} {redirFile : Path} {dispatch : Exec (Console δ) Unit} {d d₁ : Console δ}
    (htarget : if useFat then resolve redirFile = some target else redirFile = target)
    (hdispatch : (begin >>= fun _ => dispatch) d = (.ok (), d₁))
    (h : Storage.Holds content fs fuel useFat d₁.storage target bytes) (hs : Storage.InOrder content dev fs fuel useFat d₁.storage) :
    ∃ d', runRedirected fs fuel garbage resolve useFat true redirFile dispatch d = (.ok (), d') ∧
      (Appends content fs fuel useFat target bytes d₁.capture.bytes d₁.storage d'.storage ↔
        CanAppend content fs fuel useFat target bytes d₁.capture.bytes
          (afterRead fs fuel useFat target d₁.capture.bytes d₁.storage)) := by
  have hout : d₁.capture.bytes.length < FS_MAX_FILE_SIZE := by
    rw [Capture.length_bytes]
    exact d₁.capture.len_lt
  obtain ⟨w', hwrite, hiff⟩ := @writeOutput_appends _ content dev fs fuel useFat target bytes _ _ garbage h hs hout
  let d₂ : Console δ := { d₁ with capturing := false }
  have hstore : onStorage (writeOutput fs fuel garbage useFat true target d₁.capture.bytes) d₂ = (.ok (), { d₂ with storage := w' }) := by
    rw [onStorage]
    dsimp only [d₂]
    rw [hwrite]
  refine ⟨{ d₂ with storage := w' }, ?_, hiff⟩
  have hstart : ∀ k : List UInt8 → Exec (Console δ) Unit, (do
      begin
      dispatch
      Exec.modify fun d => { d with capturing := false }
      let output ← Exec.gets fun d => d.capture.bytes
      k output : Exec (Console δ) Unit) d = k d₁.capture.bytes d₂ := by
    intro k
    rw [← bind_assoc_eq, bind_ok hdispatch]
    rfl
  rw [runRedirected, hstart]
  cases useFat with
  | false =>
    have hfile : redirFile = target := htarget
    rw [if_neg (by decide), hfile]
    exact hstore
  | true =>
    have hresolved : resolve redirFile = some target := htarget
    rw [if_pos rfl, hresolved]
    exact hstore

def console (data : List UInt8) : Console Unit := ⟨Storage.filled data, false, ⟨Block.zero, 0, by decide⟩⟩

/-- A command that prints one byte. -/
def printByte (ch : UInt8) : Exec (Console Unit) Unit := Exec.modify fun d => { d with capture := d.capture.putc ch }

/-- The console when that command has run. -/
def printed (data : List UInt8) (ch : UInt8) : Console Unit := ⟨Storage.filled data, true, (console data).capture.empty.putc ch⟩

theorem begin_printByte (data : List UInt8) (ch : UInt8) :
    (begin >>= fun _ => printByte ch) (console data) = (.ok (), printed data ch) := rfl

theorem bytes_printed (data : List UInt8) (ch : UInt8) : (printed data ch).capture.bytes = [ch] := by
  have hroom : (console data).capture.empty.len + 1 < FS_MAX_FILE_SIZE := (show 0 + 1 < FS_MAX_FILE_SIZE by decide)
  rw [printed, Capture.bytes_putc, if_pos hroom]
  rfl

/-- A byte is added to a file of three. -/
theorem append_keeps_short : ∃ d', runRedirected (Fat32.smallVolume Fat32.shortTableDevice) 0 Block.zero (fun _ => none) false true (Ramfs.chars "/a")
      (printByte 4) (console [1, 2, 3]) = (.ok (), d') ∧
    Appends Storage.noContent (Fat32.smallVolume Fat32.shortTableDevice) 0 false (Ramfs.chars "/a") [1, 2, 3] [4] (Storage.filled [1, 2, 3])
      d'.storage := by
  have hholds := Storage.holds_filled (Fat32.smallVolume Fat32.shortTableDevice) 0 (show [1, 2, 3].length < FS_MAX_FILE_SIZE by decide)
  have htarget : if false = true then (none : Option Path) = some (Ramfs.chars "/a") else Ramfs.chars "/a" = Ramfs.chars "/a" := by simp
  obtain ⟨d', hrun, hiff⟩ := @append_keeps_iff _ _ _ (Fat32.smallVolume Fat32.shortTableDevice) 0 false _ _ Block.zero (fun _ => none) _ _ _ _
    htarget (begin_printByte [1, 2, 3] 4) hholds (Storage.inOrder_ramfs _ _ _)
  refine ⟨d', hrun, ?_⟩
  rw [bytes_printed] at hiff
  refine hiff.2 ((canAppend_ramfs_iff ?_ (by decide)).2 (by decide))
  obtain ⟨-, hsame⟩ := @writeOutput_run _ _ _ _ _ _ _ _ [4] _ Block.zero hholds (Storage.inOrder_ramfs _ _ _) (by decide)
  exact hholds.same hsame

/-- A byte is added to a full file: the file loses its last byte. -/
theorem not_append_keeps : ¬ ∀ (fs : Fat32.Fat32State Unit) (bytes : List UInt8) (path : Path) (dispatch : Exec (Console Unit) Unit)
    (d d₁ d' : Console Unit), (begin >>= fun _ => dispatch) d = (.ok (), d₁) → Storage.Holds Storage.noContent fs 0 false d₁.storage path bytes →
    runRedirected fs 0 Block.zero (fun _ => none) false true path dispatch d = (.ok (), d') →
    Appends Storage.noContent fs 0 false path bytes d₁.capture.bytes d₁.storage d'.storage := by
  intro hall
  have hlen : (List.replicate 8191 (0 : UInt8)).length = 8191 := List.length_replicate
  have hholds := Storage.holds_filled (Fat32.smallVolume Fat32.shortTableDevice) 0 (hlen.trans_lt (by decide))
  have htarget : if false = true then (none : Option Path) = some (Ramfs.chars "/a") else Ramfs.chars "/a" = Ramfs.chars "/a" := by simp
  have hdispatch := begin_printByte (List.replicate 8191 0) 1
  obtain ⟨d', hrun, hiff⟩ := @append_keeps_iff _ _ _ (Fat32.smallVolume Fat32.shortTableDevice) 0 false _ _ Block.zero (fun _ => none) _ _ _ _
    htarget hdispatch hholds (Storage.inOrder_ramfs _ _ _)
  have hcan := hiff.1 (hall _ _ _ _ _ _ _ hdispatch hholds hrun)
  rw [bytes_printed] at hcan
  obtain ⟨-, hsame⟩ := @writeOutput_run _ _ _ _ _ _ _ _ [1] _ Block.zero hholds (Storage.inOrder_ramfs _ _ _) (by decide)
  have hpre := (canAppend_ramfs_iff (hholds.same hsame) (by decide)).1 hcan
  -- the last byte of the file is not the byte printed
  have hdrop : (List.replicate 8191 (0 : UInt8)).drop (room [1]) = [0] := by
    rw [List.drop_replicate]
    rfl
  rw [hdrop] at hpre
  simp at hpre

end Redirection

end Tg11Kernel.Shell
