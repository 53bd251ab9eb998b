import Tg11Kernel.Shell.LineEditor

/-! Completion of the line by the tab key. A first word is completed to the name of a
command or of an alias, and any later word to the name of a file in the directory that
its front names. What the file systems say is an input: the directory may hold
anything. The texts are built in arrays of 128 bytes on the stack, and one of them, the
path of a file on a FAT drive, can be overrun. -/

namespace Tg11Kernel.Shell

open Lib Exec

def FS_NAME_MAX : ℕ := 31

def FS_MAX_LIST : ℕ := 64

/-- The C strings that an array of `n` bytes can hold. -/
abbrev CText (n : ℕ) := {t : Text // t.length < n ∧ 0 ∉ t}

/-- What the file systems and the alias table answer: `fat_mode_active`, `fat_resolve_path` into an
array of 128 bytes and `fat32_ls_path` with `none` where they return -1, the type that
`fat32_stat_path` reports, `fs_ls` with the types of the entries, and the names of the aliases. -/
structure Answers where
  fatModeActive : Bool
  resolvePath : Text → Option (CText 128)
  fatLs : Text → Option (List (CText 40))
  statIsDir : Text → Bool
  fsLs : Text → Option (List (CText (FS_NAME_MAX + 2) × Bool))
  aliasNames : List (CText 16)

namespace Line

/-- `cmd_list` -/
def cmdList : List Text := [
    "help", "man", "alias", "unalias", "version", "echo", "glyph", "charmap", "color", "serial", "display", "themes",
    "theme", "ethemes", "etheme", "clear", "pause", "wait", "reboot", "panic", "quit", "exit", "shutdown", "set", "pwd",
    "ls", "dirname", "dir", "tree", "cd", "mkdir", "touch", "write", "cat", "type", "rm", "del", "cp", "copy", "mv",
    "move", "ren", "edit", "hexedit", "run", "basic", "cls", "grep", "find", "wc", "head", "tail", "xxd", "sort",
    "uniq", "tee", "tr", "seq", "diff", "cmp", "calc", "hexdump", "memmap", "memstat", "pagetest", "pagefault",
    "gpfault", "udfault", "doublefault", "exceptstat", "dumpstack", "selftest", "elfinfo", "elfsegs", "elfsects",
    "elfsym", "elfaddr", "elfcheck", "exec", "exectrace", "execstress", "elfselftest", "tasks", "tasktest", "taskspin",
    "shellspawn", "shellwatch", "taskprotect", "tasklog", "taskkill", "taskstop", "taskcont", "ticks", "motd",
    "autorun", "ataid", "readsec", "writesec", "drives", "fatmount", "mtn", "mnt", "mount", "fatwhere", "fatstress",
    "fatperf", "ramfs", "ramfs2fat", "fatunmount", "umtn", "umnt", "umount", "fatls", "fatcat", "fattouch", "fatwrite",
    "fatattr", "fatrm", "netinfo", "netreinit", "ping", "arp", "udpsend", "dhcp", "nslookup", "wget", "date", "uptime",
    "jobs", "sleep", "env", "whoami", "hostname", "history", "unset", "source", "read", "df", "stat", "cut", "rev",
    "printf", "true", "false", "test", "which", "type", "basename", "yes", "nl", "factor", "du", "xargs", "less",
    "more", "tac", "expr", "watch", "paste", "column", "strings", "rmdir", "time", "gui"].map chars

/-- The part before a NUL. -/
def cText (t : Text) : Text := t.takeWhile (· ≠ 0)

/-- `for (j = 0; text[j] && n + 1 < size; j++) out[n++] = text[j]` -/
def pushText (size : ℕ) (out text : Text) : Text := out ++ text.take (size - 1 - out.length)

/-- `if (n > 0 && out[n - 1] != '/') out[n++] = '/'`, without a check of the room. -/
def closeDir (out : Text) : Text := if out ≠ [] ∧ out.getLast? ≠ some ('/' : UInt8) then out ++ [('/' : UInt8)] else out

/-- The common start of the matches so far and of one more. -/
def commonPrefix : Text → Text → Text
  | c :: p, d :: t => if d = c then c :: commonPrefix p t else []
  | _, _ => []

/-! ### The word and its directory -/

/-- The line after its last space: `partial`, without the bytes that do not fit. -/
def lastWord (line : Text) : Text := ((line.reverse.takeWhile (· ≠ (' ' : UInt8))).reverse).take 127

/-- The line up to its last space. -/
def beforeWord (line : Text) : Text := (line.reverse.dropWhile (· ≠ (' ' : UInt8))).reverse

/-- `prefix_part`: the word after its last slash. -/
def prefixPart (word : Text) : Text := (word.reverse.takeWhile (· ≠ ('/' : UInt8))).reverse

/-- `dir_path`: the word up to its last slash, or a dot. -/
def dirPath (word : Text) : Text :=
  if ('/' : UInt8) ∈ word then (word.reverse.dropWhile (· ≠ ('/' : UInt8))).reverse else [('.' : UInt8)]

/-- `child_path`, or `none` where its NUL is written behind the array. -/
def childPath (full name : Text) : Option Text :=
  let path := pushText 128 (closeDir (pushText 128 [] full)) name
  if path.length < 128 then some path else none

/-- `completed`, before its last byte. -/
def completedPath (before dir tail : Text) : Text :=
  let front := pushText INPUT_BUFFER_SIZE [] before
  let front := if dir = [('.' : UInt8)] then front else closeDir (pushText INPUT_BUFFER_SIZE front dir)
  pushText INPUT_BUFFER_SIZE front tail

/-! ### The key -/

section Key

variable (a : Answers)

/-- The entries of a directory on the FAT drive with their types. -/
def fatEntries (dir : Text) : Exec Line (List (Text × Bool)) :=
  match a.resolvePath dir with
  | none => pure []
  | some full =>
    match a.fatLs full.val with
    | none => pure []
    | some names => Exec.ofOption <| (names.take FS_MAX_LIST).mapM fun name =>
        (childPath full.val (pushText (FS_NAME_MAX + 2) [] name.val)).map fun path =>
          (pushText (FS_NAME_MAX + 2) [] name.val, a.statIsDir path)

/-- The entries of the directory, or `none` where `fs_ls` returns an error. -/
def listEntries (dir : Text) : Exec Line (Option (List (Text × Bool))) :=
  if a.fatModeActive then do
    let entries ← fatEntries a dir
    pure (some entries)
  else pure ((a.fsLs dir).map fun entries => (entries.take FS_MAX_LIST).map fun e => (e.1.val, e.2))

/-- Put a text in the line and the cursor behind it. -/
def replaceLine (text : Text) : Exec Line Unit := do
  clearInputLine
  fill text
  Exec.modify fun s => { s with cursorPos := s.inputLength }

/-- The line again, behind a new prompt. -/
def showLine : Exec Line Unit := do
  Exec.modify prompt
  let s ← Exec.state
  let _ ← input.readFirst s.inputLength
  Exec.modify fun s => { s with cursorPos := s.inputLength }

/-- Put `completed` in the line. -/
def putCompleted (completed : Text) : Exec Line Unit := do
  Exec.require (completed.length < INPUT_BUFFER_SIZE)
  replaceLine completed

/-- The first word. -/
def completeCommand : Exec Line Unit := do
  let typed ← input.readText
  match (cmdList ++ a.aliasNames.map Subtype.val).filter (typed.isPrefixOf ·) with
  | [] => pure ()
  | [last] => replaceLine (last ++ [(' ' : UInt8)])
  | first :: rest =>
    Exec.require (first.length < INPUT_BUFFER_SIZE)
    let common := rest.foldl commonPrefix first
    let s ← Exec.state
    if s.inputLength < common.length then replaceLine common else showLine

/-- Another word of the line. -/
def completePath (line : Text) : Exec Line Unit := do
  let word := lastWord line
  let dir := cText (dirPath word)
  match ← listEntries a dir with
  | none => pure ()
  | some entries =>
    match entries.filter fun e => (cText (prefixPart word)).isPrefixOf e.1 with
    | [] => pure ()
    | [last] =>
      putCompleted (pushText INPUT_BUFFER_SIZE (completedPath (beforeWord line) dir last.1)
        [if last.2 then ('/' : UInt8) else (' ' : UInt8)])
    | first :: rest =>
      Exec.require (first.1.length < 128)
      let common := rest.foldl (fun p e => commonPrefix p e.1) first.1
      if (prefixPart word).length < common.length then putCompleted (completedPath (beforeWord line) dir common)
      else showLine

/-- `handle_tab` -/
def handleTab : Exec Line Unit := do
  let s ← Exec.state
  let line ← input.readFirst s.inputLength
  if (' ' : UInt8) ∈ line then completePath a line else completeCommand a

end Key

/-! ### The lengths -/

section Lengths

variable {line word dir before tail out text full name : Text} {size : ℕ}

theorem length_cmdList : ∀ c ∈ cmdList, c.length < 32 := by decide +kernel

theorem length_cText (t : Text) : (cText t).length ≤ t.length := (List.takeWhile_prefix _).length_le

theorem length_pushText (h : out.length ≤ size - 1) : (pushText size out text).length ≤ size - 1 := by
  rw [pushText, List.length_append, List.length_take]
  omega

theorem pushText_of_length (h : out.length + text.length ≤ size - 1) : pushText size out text = out ++ text := by
  rw [pushText, List.take_of_length_le (by omega)]

theorem length_closeDir (h : out.length < 127) : (closeDir out).length ≤ 127 := by
  unfold closeDir
  split_ifs
  · rw [List.length_append, List.length_singleton]
    omega
  · omega

theorem closeDir_of_getLast (h : out.getLast? = some ('/' : UInt8)) : closeDir out = out := by
  unfold closeDir
  rw [if_neg]
  exact fun hout => hout.2 h

theorem length_commonPrefix (p t : Text) : (commonPrefix p t).length ≤ p.length := by
  induction p generalizing t with
  | nil => exact le_rfl
  | cons c p ih =>
    cases t with
    | nil => exact Nat.zero_le _
    | cons d t =>
      rw [commonPrefix]
      split_ifs
      · exact Nat.succ_le_succ (ih t)
      · exact Nat.zero_le _

theorem length_foldl_commonPrefix {α : Type} (f : α → Text) (l : List α) (p : Text) :
    (l.foldl (fun p e => commonPrefix p (f e)) p).length ≤ p.length := by
  induction l generalizing p with
  | nil => exact le_rfl
  | cons e l ih => exact (ih _).trans (length_commonPrefix p (f e))

theorem length_beforeWord (line : Text) : (beforeWord line).length + (lastWord line).length ≤ line.length := by
  have hsplit := congrArg List.length (List.takeWhile_append_dropWhile (p := fun c => decide (c ≠ (' ' : UInt8))) (l := line.reverse))
  rw [List.length_append, List.length_reverse] at hsplit
  rw [beforeWord, lastWord, List.length_reverse, List.length_take, List.length_reverse]
  omega

theorem length_dirPath (h : ('/' : UInt8) ∈ word) : (dirPath word).length ≤ word.length := by
  rw [dirPath, if_pos h, List.length_reverse]
  exact (List.dropWhile_suffix _).length_le.trans List.length_reverse.le

theorem getLast_dirPath (h : ('/' : UInt8) ∈ word) : (dirPath word).getLast? = some ('/' : UInt8) := by
  rw [dirPath, if_pos h, List.getLast?_reverse]
  rcases hrest : word.reverse.dropWhile (· ≠ ('/' : UInt8)) with _ | ⟨c, rest⟩
  · rw [List.dropWhile_eq_nil_iff] at hrest
    simpa using hrest _ (List.mem_reverse.2 h)
  · have hhead := List.head_dropWhile_not (fun c => decide (c ≠ ('/' : UInt8))) (l := word.reverse) (by rw [hrest]; exact List.cons_ne_nil _ _)
    simp only [hrest, List.head_cons] at hhead
    simpa using hhead

/-- The directory is a dot, or it ends with a slash, or a NUL cuts it. -/
theorem cText_dirPath (word : Text) : cText (dirPath word) = [('.' : UInt8)] ∨
    (cText (dirPath word)).length ≤ word.length ∧ (cText (dirPath word)).getLast? = some ('/' : UInt8) ∨
    (cText (dirPath word)).length < word.length := by
  by_cases hslash : ('/' : UInt8) ∈ word
  · have hle := length_dirPath hslash
    rcases (length_cText (dirPath word)).lt_or_eq with hlt | heq
    · exact .inr (.inr (by omega))
    · have hall : cText (dirPath word) = dirPath word := (List.takeWhile_prefix _).eq_of_length heq
      rw [hall]
      exact .inr (.inl ⟨hle, getLast_dirPath hslash⟩)
  · left
    rw [dirPath, if_neg hslash]
    decide

theorem length_completedPath (hline : before.length + word.length < INPUT_BUFFER_SIZE) :
    (completedPath before (cText (dirPath word)) tail).length < INPUT_BUFFER_SIZE := by
  have hsize : INPUT_BUFFER_SIZE = 128 := rfl
  have hbefore : pushText INPUT_BUFFER_SIZE [] before = before := pushText_of_length (by rw [List.length_nil]; omega)
  suffices hfront : ∀ front : Text, front.length ≤ 127 → (pushText INPUT_BUFFER_SIZE front tail).length < INPUT_BUFFER_SIZE by
    apply hfront
    rw [hbefore]
    split_ifs with hdot
    · omega
    · rcases cText_dirPath word with h | ⟨hle, hlast⟩ | hlt
      · exact absurd h hdot
      · rw [pushText_of_length (by omega), closeDir_of_getLast]
        · rw [List.length_append]
          omega
        · rw [List.getLast?_append, hlast]
          rfl
      · apply length_closeDir
        rw [pushText_of_length (by omega), List.length_append]
        omega
  intro front hfront
  have hle : (pushText INPUT_BUFFER_SIZE front tail).length ≤ INPUT_BUFFER_SIZE - 1 := length_pushText (by omega)
  omega

/-- The NUL of the path is behind its array exactly when the directory fills the array and a slash
is added to it. -/
theorem childPath_eq_none_iff (hfull : full.length < 128) :
    childPath full name = none ↔ full.length = 127 ∧ full.getLast? ≠ some ('/' : UInt8) := by
  have hcopy : pushText 128 [] full = full := pushText_of_length (by rw [List.length_nil]; omega)
  unfold childPath
  rw [hcopy]
  constructor
  · intro hnone
    by_contra hfits
    have hclosed : (closeDir full).length ≤ 127 := by
      by_cases hlast : full.getLast? = some ('/' : UInt8)
      · rw [closeDir_of_getLast hlast]
        omega
      · apply length_closeDir
        have hne : full.length ≠ 127 := fun heq => hfits ⟨heq, hlast⟩
        omega
    have hlength : (pushText 128 (closeDir full) name).length ≤ 128 - 1 := length_pushText hclosed
    rw [if_pos (by omega)] at hnone
    cases hnone
  · rintro ⟨hlength, hlast⟩
    have hclosed : closeDir full = full ++ [('/' : UInt8)] := by
      unfold closeDir
      rw [if_pos]
      refine ⟨?_, hlast⟩
      rintro rfl
      cases hlength
    rw [if_neg]
    rw [hclosed, pushText, List.length_append, List.length_append, List.length_singleton]
    omega

end Lengths

/-! ### The key is safe -/

section Safety

variable {a : Answers} {s : Line}

/-- The paths of the files in a directory on the FAT drive fit: if the directory is not empty, its
own path with a slash leaves room for a NUL. -/
def PathsFit (a : Answers) (dir : Text) : Prop :=
  ∀ full names, a.fatModeActive = true → a.resolvePath dir = some full → a.fatLs full.val = some names → names ≠ [] →
    full.val.length = 127 → full.val.getLast? = some ('/' : UInt8)

/-- The key completes a path only where the paths fit. -/
def TabFits (a : Answers) (line : Text) : Prop := (' ' : UInt8) ∈ line → PathsFit a (cText (dirPath (lastWord line)))

variable {text dir : Text} {E : Line → Prop}

theorem replaceLine_safe (h : Sound s) (ht : text.length < INPUT_BUFFER_SIZE) : Safe (replaceLine text) s := by
  apply (clearInputLine_safe h.toKept).bind
  intro t hclear
  apply (fill_ends hclear.toKept ht).bind
  rintro _ u ⟨hfill, -, -⟩
  apply Ends.modify
  exact { hfill with cursor := le_rfl }

theorem showLine_safe (h : Sound s) : Safe showLine s := by
  apply Ends.modify_bind
  apply Ends.state_bind
  apply Buffer.readFirst_bind h.length.le
  apply Ends.modify
  exact { h with
    anchor := (by decide : 0 < INPUT_BUFFER_SIZE)
    cursor := le_rfl }

theorem putCompleted_safe (h : Sound s) (ht : text.length < INPUT_BUFFER_SIZE) : Safe (putCompleted text) s := by
  unfold putCompleted
  rw [require_pos ht]
  exact replaceLine_safe h ht

theorem completeCommand_safe (a : Answers) (h : Sound s) : Safe (completeCommand a) s := by
  apply Buffer.readText_bind h.terminated
  have hshort : ∀ c ∈ cmdList ++ a.aliasNames.map Subtype.val, c.length < 32 := by
    intro c hc
    rcases List.mem_append.1 hc with hc | hc
    · exact length_cmdList c hc
    · obtain ⟨name, -, rfl⟩ := List.mem_map.1 hc
      exact name.2.1.trans (by decide)
  have hsize : INPUT_BUFFER_SIZE = 128 := rfl
  split
  · exact Ends.pure h
  · next last hfound =>
    have hlast := hshort last (List.mem_filter.1 (by rw [hfound]; exact List.mem_singleton_self last)).1
    apply replaceLine_safe h
    rw [List.length_append, List.length_singleton]
    omega
  · next first rest _ hfound =>
    have hfirst := hshort first (List.mem_filter.1 (by rw [hfound]; exact List.mem_cons_self)).1
    have hcommon := length_foldl_commonPrefix id rest first
    rw [require_pos (by omega)]
    apply Ends.state_bind
    apply Ends.ite
    · exact fun _ => replaceLine_safe h (hcommon.trans_lt (by omega))
    · exact fun _ => showLine_safe h

/-- The entries that are listed, where every path fits. -/
theorem exists_entries {full : Text} {l : List (CText 40)}
    (h : ∀ name ∈ l, childPath full (pushText (FS_NAME_MAX + 2) [] name.val) ≠ none) :
    ∃ entries : List (Text × Bool), (l.mapM fun name => (childPath full (pushText (FS_NAME_MAX + 2) [] name.val)).map
      fun path => (pushText (FS_NAME_MAX + 2) [] name.val, a.statIsDir path)) = some entries ∧
      ∀ e ∈ entries, e.1.length < 128 := by
  induction l with
  | nil => exact ⟨[], rfl, nofun⟩
  | cons name l ih =>
    obtain ⟨entries, hentries, hshort⟩ := ih fun n hn => h n (List.mem_cons_of_mem _ hn)
    obtain ⟨path, hchild⟩ := Option.ne_none_iff_exists'.1 (h name List.mem_cons_self)
    refine ⟨(pushText (FS_NAME_MAX + 2) [] name.val, a.statIsDir path) :: entries, ?_, ?_⟩
    · rw [List.mapM_cons, hentries, hchild]
      rfl
    · intro e he
      rcases List.mem_cons.1 he with rfl | he
      · have hlength : (pushText (FS_NAME_MAX + 2) [] name.val).length ≤ FS_NAME_MAX + 2 - 1 := length_pushText (Nat.zero_le _)
        exact hlength.trans_lt (by decide)
      · exact hshort e he

theorem fatEntries_ends (hfat : a.fatModeActive = true) (h : PathsFit a dir) :
    Ends (fatEntries a dir) s (fun entries t => t = s ∧ ∀ e ∈ entries, e.1.length < 128) E := by
  unfold fatEntries
  split
  · exact Ends.pure ⟨rfl, nofun⟩
  · next full hfull =>
    split
    · exact Ends.pure ⟨rfl, nofun⟩
    · next names hnames =>
      have hpath : ∀ name ∈ names.take FS_MAX_LIST, childPath full.val (pushText (FS_NAME_MAX + 2) [] name.val) ≠ none := by
        intro name hmem hnone
        obtain ⟨hlength, hlast⟩ := (childPath_eq_none_iff full.2.1).1 hnone
        exact hlast (h full names hfat hfull hnames (List.ne_nil_of_mem (List.mem_of_mem_take hmem)) hlength)
      obtain ⟨entries, hentries, hshort⟩ := exists_entries (a := a) hpath
      rw [hentries]
      exact Ends.pure ⟨rfl, hshort⟩

/-- A listing leaves the line alone, and its names are short. -/
theorem listEntries_ends (h : PathsFit a dir) :
    Ends (listEntries a dir) s (fun r t => t = s ∧ ∀ entries, r = some entries → ∀ e ∈ entries, e.1.length < 128) E := by
  apply Ends.ite
  · intro hfat
    apply (fatEntries_ends hfat h).bind
    rintro entries _ ⟨rfl, hshort⟩
    apply Ends.pure
    refine ⟨rfl, ?_⟩
    rintro _ ⟨⟩
    exact hshort
  · intro _
    apply Ends.pure
    refine ⟨rfl, ?_⟩
    intro entries hentries e he
    obtain ⟨listed, -, rfl⟩ := Option.map_eq_some_iff.1 hentries
    obtain ⟨f, -, rfl⟩ := List.mem_map.1 he
    exact f.1.2.1.trans (by decide)

theorem completePath_safe (h : Sound s) (hfits : PathsFit a (cText (dirPath (lastWord s.line)))) : Safe (completePath a s.line) s := by
  have hsize : INPUT_BUFFER_SIZE = 128 := rfl
  have hline : (beforeWord s.line).length + (lastWord s.line).length < INPUT_BUFFER_SIZE := by
    have hle := length_beforeWord s.line
    rw [line, Block.length_firstBytes] at hle
    exact hle.trans_lt h.length
  apply (listEntries_ends hfits).bind
  rintro listed s ⟨rfl, hshort⟩
  split
  · exact Ends.pure h
  · next entries =>
    split
    · exact Ends.pure h
    · next last _ =>
      apply putCompleted_safe h
      have hcompleted : (completedPath (beforeWord s.line) (cText (dirPath (lastWord s.line))) last.1).length <
          INPUT_BUFFER_SIZE := length_completedPath hline
      exact (length_pushText (Nat.le_pred_of_lt hcompleted)).trans_lt (by decide)
    · next first rest _ hfound =>
      have hmem : first ∈ entries := (List.mem_filter.1 (by rw [hfound]; exact List.mem_cons_self)).1
      rw [require_pos (hshort entries rfl first hmem)]
      apply Ends.ite
      · exact fun _ => putCompleted_safe h (length_completedPath hline)
      · exact fun _ => showLine_safe h

theorem handleTab_safe (h : Sound s) (hfits : TabFits a s.line) : Safe (handleTab a) s := by
  apply Ends.state_bind
  apply Buffer.readFirst_bind h.length.le
  apply Ends.ite
  · exact fun hspace => completePath_safe h (hfits hspace)
  · exact fun _ => completeCommand_safe a h

end Safety

end Line

end Tg11Kernel.Shell
