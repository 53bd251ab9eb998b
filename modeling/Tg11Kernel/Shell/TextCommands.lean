import Tg11Kernel.Shell.Arithmetic
import Tg11Kernel.Shell.Startup
import Tg11Kernel.Lib.Lines

/-! The commands `diff`, `head` and `tail`, which read a text line by line. -/

namespace Tg11Kernel.Shell

open Lib
open Autorun (uintToDec)
open Startup (readToken)

namespace TextCommands

/-! ### Input -/

/-- What the commands read: `pipe_stdin_buf`, empty where nothing is piped, and the file of a path, for
a buffer of that many bytes. -/
structure Source where
  stdin : Text
  file : Text → ℕ → Option Text

/-- `read_file_or_pipe` -/
def readFileOrPipe (src : Source) (path : Text) (cap : ℕ) : Option Text :=
  if path = [] then if src.stdin = [] then none else some (src.stdin.take cap)
  else src.file path cap

/-- `sizeof(data) - 1`, for `FS_MAX_FILE_SIZE` of 8192 -/
def readMax : ℕ := 8191

/-- The C string that starts a buffer. -/
def cstr (buf : Text) : Text := buf.takeWhile (· ≠ 0)

/-- `if (ll > 0 && buf[ll - 1] == '\r') ll--;` -/
def stripCr (line : Text) : Text := if line.getLast? = some ('\r' : UInt8) then line.dropLast else line

/-- The lines of a content. -/
def textLines (content : Text) : List Text := (Lines.lines ('\n' : UInt8) content).map stripCr

/-! ### `diff` -/

/-- A line of the output: a number with the two lines, or a message. -/
inductive DiffLine where
  | changed (lineNo : ℕ) (l1 l2 : Text)
  | message (text : Text)

def identical : DiffLine := .message (chars "Files are identical.")

def DiffLine.number : DiffLine → Option ℕ
  | changed lineNo _ _ => some lineNo
  | message _ => none

/-- The bytes from the cursor on that one round copies, without a `\r` at their end. -/
def lineAt (data : Text) (i : ℕ) : Text := stripCr (((data.drop i).takeWhile (· ≠ ('\n' : UInt8))).take 511)

/-- `i1 += l1len + (i1 + l1len < size1 ? 1 : 0); if (i1 > size1) i1 = size1 + 1;` -/
def behind (data : Text) (i : ℕ) : ℕ :=
  let j := i + ((lineAt data i).length + if i + (lineAt data i).length < data.length then 1 else 0)
  if data.length < j then data.length + 1 else j

/-- The line at a cursor, and the cursor behind it. -/
def extract (data : Text) (i : ℕ) : Text × ℕ := if i ≤ data.length then (lineAt data i, behind data i) else ([], i)

/-- The loop, for that many rounds, with the output so far; nothing when it has not ended. -/
def diffLoop (data1 data2 : Text) : ℕ → ℕ → ℕ → ℕ → List DiffLine → Option (List DiffLine)
  | 0, _, _, _, _ => none
  | n + 1, i1, i2, lineNo, out =>
    if i1 ≤ data1.length ∨ i2 ≤ data2.length then
      let (l1, i1) := extract data1 i1
      let (l2, i2) := extract data2 i2
      if data1.length + 1 < i1 ∧ data2.length + 1 < i2 then some out
      else
        let out := if cstr l1 = cstr l2 then out else out ++ [.changed lineNo (cstr l1) (cstr l2)]
        if data1.length < i1 ∧ data2.length < i2 then some out else diffLoop data1 data2 n i1 i2 (lineNo + 1) out
    else some out

/-- What is printed when the files are read. -/
def diffFiles (n : ℕ) (data1 data2 : Text) : Option (List DiffLine) :=
  (diffLoop data1 data2 n 0 0 1 []).map fun out => if out = [] then [identical] else out

/-- `cmd_diff` -/
def cmdDiff (n : ℕ) (src : Source) (args : Text) : Option (List DiffLine) :=
  match readToken args 128 with
  | none => some [.message (chars "Usage: diff <file1> <file2>")]
  | some (path1, p) =>
    if path1 = [] then some [.message (chars "Usage: diff <file1> <file2>")]
    else match readToken p 128 with
      | none => some [.message (chars "Usage: diff <file1> <file2>")]
      | some (path2, _) =>
        if path2 = [] then some [.message (chars "Usage: diff <file1> <file2>")]
        else match readFileOrPipe src path1 readMax with
          | none => some [.message (chars "diff: cannot read " ++ path1)]
          | some data1 => match readFileOrPipe src path2 readMax with
            | none => some [.message (chars "diff: cannot read " ++ path2)]
            | some data2 => diffFiles n data1 data2

/-! ### `head` and `tail` -/

/-- The count, 10 where none is given, and what stands behind it. -/
def readCount (args : Text) : Int32 × Text :=
  match args with
  | [] => (10, [])
  | c :: p =>
    if c = ('-' : UInt8) then (Line.entryNumber (p.takeWhile Line.isDigit), (p.dropWhile Line.isDigit).dropWhile (· = 32))
    else (10, args)

/-- The line buffer of 512 bytes for the bytes from `line_start` up to `i`, as it is printed. -/
def printed (piece : Text) : Text := cstr (stripCr (piece.take 511))

/-- The loop of `cmd_head`: `cur` holds the bytes from `line_start` up to `i`. -/
def headLoop (n : ℕ) : Text → Text → ℕ → List Text
  | cur, [], lineNo => if lineNo < n then [printed cur] else []
  | cur, c :: rest, lineNo =>
    if lineNo < n then
      if c = ('\n' : UInt8) then printed cur :: headLoop n [] rest (lineNo + 1) else headLoop n (cur ++ [c]) rest lineNo
    else []

/-- A count below zero prints nothing. -/
def headLines (n : Int32) (content : Text) : List Text := headLoop n.toInt.toNat [] content 0

/-- `total_lines` -/
def totalLines (content : Text) : ℕ :=
  content.count ('\n' : UInt8) + if content ≠ [] ∧ content.getLast? ≠ some ('\n' : UInt8) then 1 else 0

/-- `start_line` -/
def startLine (n : Int32) (content : Text) : ℕ := (Int32.ofNat (totalLines content) - n).toInt.toNat

/-- The second loop of `cmd_tail`. -/
def tailLoop (start : ℕ) : Text → Text → ℕ → List Text
  | cur, [], lineNo => if start ≤ lineNo then [printed cur] else []
  | cur, c :: rest, lineNo =>
    if c = ('\n' : UInt8) then (if start ≤ lineNo then [printed cur] else []) ++ tailLoop start [] rest (lineNo + 1)
    else tailLoop start (cur ++ [c]) rest lineNo

def tailLines (n : Int32) (content : Text) : List Text := tailLoop (startLine n content) [] content 0

/-- What `head` and `tail` do behind the count; `name` is the name of the command, `loop` its loops. -/
def showLines (name : Text) (loop : Int32 → Text → List Text) (src : Source) (n : Int32) (p : Text) : List Text :=
  let path := ((readToken p 128).map Prod.fst).getD []
  if path = [] then if src.stdin = [] then [chars "Usage: " ++ name ++ chars " [-N] <file>"] else loop n src.stdin
  else match src.file path readMax with
    | none => [name ++ chars ": cannot read file"]
    | some data => loop n data

def cmdHead (src : Source) (args : Text) : List Text := showLines (chars "head") headLines src (readCount args).1 (readCount args).2

def cmdTail (src : Source) (args : Text) : List Text := showLines (chars "tail") tailLines src (readCount args).1 (readCount args).2


/-! ### `diff` does not end -/

section Diff

variable {data data1 data2 : Text}

theorem length_stripCr_le (line : Text) : (stripCr line).length ≤ line.length := by
  unfold stripCr
  split_ifs
  · rw [List.length_dropLast]
    omega
  · exact le_rfl

/-- A cursor that is not behind the end stays there: the step past a newline is only taken inside. -/
theorem behind_le {i : ℕ} (h : i ≤ data.length) : behind data i ≤ data.length := by
  have hcopied : (lineAt data i).length ≤ data.length - i := by
    calc (lineAt data i).length ≤ (((data.drop i).takeWhile (· ≠ ('\n' : UInt8))).take 511).length := length_stripCr_le _
      _ ≤ ((data.drop i).takeWhile (· ≠ ('\n' : UInt8))).length := List.length_take_le' _ _
      _ ≤ (data.drop i).length := (List.takeWhile_prefix _).length_le
      _ = data.length - i := List.length_drop
  have hinside : i + ((lineAt data i).length + if i + (lineAt data i).length < data.length then 1 else 0) ≤ data.length := by
    split_ifs <;> omega
  unfold behind
  rw [if_neg (Nat.not_lt.2 hinside)]
  exact hinside

/-- No number of rounds is enough. -/
theorem diffLoop_none (n : ℕ) {i1 i2 : ℕ} (h1 : i1 ≤ data1.length) (h2 : i2 ≤ data2.length) (lineNo : ℕ) (out : List DiffLine) :
    diffLoop data1 data2 n i1 i2 lineNo out = none := by
  induction n generalizing i1 i2 lineNo out with
  | zero => rfl
  | succ n ih =>
    have hb1 := behind_le h1
    have hb2 := behind_le h2
    rw [diffLoop, if_pos (.inl h1), extract, if_pos h1, extract, if_pos h2]
    dsimp only
    rw [if_neg (by omega), if_neg (by omega)]
    exact ih hb1 hb2 _ _

/-- The two words of the arguments. -/
structure Names (args path1 path2 : Text) : Prop where
  read : ∃ p rest, readToken args 128 = some (path1, p) ∧ readToken p 128 = some (path2, rest)
  ne1 : path1 ≠ []
  ne2 : path2 ≠ []

/-- The positions at which two sequences of lines differ, the first one being 1. -/
def differing (ls1 ls2 : List Text) : List ℕ :=
  ((List.range (max ls1.length ls2.length)).filter fun k => ls1[k]? ≠ ls2[k]?).map (· + 1)

/-- `diff` ends; it says that the files are identical exactly when they have the same lines, and its numbers
are those of the lines that differ. -/
def DiffRight (src : Source) (args content1 content2 : Text) : Prop :=
  ∃ n out, cmdDiff n src args = some out ∧ (identical ∈ out ↔ textLines content1 = textLines content2) ∧
    out.filterMap DiffLine.number = differing (textLines content1) (textLines content2)

theorem cmdDiff_none (n : ℕ) {src : Source} {args path1 path2 content1 content2 : Text} (hargs : Names args path1 path2)
    (h1 : src.file path1 readMax = some content1) (h2 : src.file path2 readMax = some content2) : cmdDiff n src args = none := by
  obtain ⟨⟨p, rest, hfirst, hsecond⟩, hne1, hne2⟩ := hargs
  have hread1 : readFileOrPipe src path1 readMax = some content1 := (if_neg hne1).trans h1
  have hread2 : readFileOrPipe src path2 readMax = some content2 := (if_neg hne2).trans h2
  unfold cmdDiff
  rw [hfirst]
  dsimp only
  rw [if_neg hne1, hsecond]
  dsimp only
  rw [if_neg hne2, hread1]
  dsimp only
  rw [hread2]
  dsimp only
  rw [diffFiles, diffLoop_none n (Nat.zero_le _) (Nat.zero_le _)]
  rfl

/-- Two readable files are never compared: the loop does not end. -/
theorem not_diffRight {src : Source} {args path1 path2 content1 content2 : Text} (hargs : Names args path1 path2)
    (h1 : src.file path1 readMax = some content1) (h2 : src.file path2 readMax = some content2) :
    ¬ DiffRight src args content1 content2 := by
  rintro ⟨n, out, hrun, -⟩
  rw [cmdDiff_none n hargs h1 h2] at hrun
  cases hrun

/-- Every path leads to the same file. -/
def sameFile (content : Text) : Source := ⟨[], fun _ _ => some content⟩

theorem names_a_b : Names (chars "a b") (chars "a") (chars "b") where
  read := ⟨chars " b", [], by decide +kernel, by decide +kernel⟩
  ne1 := by decide +kernel
  ne2 := by decide +kernel

theorem not_diffRight_empty : ¬ DiffRight (sameFile []) (chars "a b") [] [] := not_diffRight names_a_b rfl rfl

/-- Two files with the same content are enough. -/
theorem not_diffs_right : ¬ ∀ (src : Source) (args path1 path2 content1 content2 : Text), Names args path1 path2 →
    src.file path1 readMax = some content1 → src.file path2 readMax = some content2 → DiffRight src args content1 content2 := by
  intro hall
  obtain ⟨n, out, hrun, -⟩ := hall (sameFile []) _ _ _ [] [] names_a_b rfl rfl
  rw [cmdDiff_none n names_a_b rfl rfl] at hrun
  cases hrun

end Diff

/-! ### The loops of `head` and `tail` -/

section Loops

variable {content cur rest line : Text} {n lineNo start : ℕ}

theorem headLoop_eq : headLoop n cur rest lineNo = ((Lines.pieces ('\n' : UInt8) cur rest).take (n - lineNo)).map printed := by
  induction rest generalizing cur lineNo with
  | nil =>
    rw [headLoop, Lines.pieces_nil]
    split_ifs with h
    · rw [List.take_of_length_le (by rw [List.length_singleton]; omega)]
      rfl
    · rw [Nat.sub_eq_zero_of_le (Nat.not_lt.1 h)]
      rfl
  | cons c rest ih =>
    rw [headLoop]
    split_ifs with h hc
    · subst hc
      obtain ⟨k, hk⟩ : ∃ k, n - lineNo = k + 1 := ⟨n - lineNo - 1, by omega⟩
      have hk' : n - (lineNo + 1) = k := by omega
      rw [Lines.pieces_sep, hk, List.take_succ_cons, List.map_cons, ih, hk']
    · rw [Lines.pieces_cons hc, ih]
    · rw [Nat.sub_eq_zero_of_le (Nat.not_lt.1 h)]
      rfl

theorem tailLoop_eq : tailLoop start cur rest lineNo = ((Lines.pieces ('\n' : UInt8) cur rest).drop (start - lineNo)).map printed := by
  induction rest generalizing cur lineNo with
  | nil =>
    rw [tailLoop, Lines.pieces_nil]
    split_ifs with h
    · rw [Nat.sub_eq_zero_of_le h]
      rfl
    · rw [List.drop_of_length_le (by rw [List.length_singleton]; omega)]
      rfl
  | cons c rest ih =>
    rw [tailLoop]
    split_ifs with hc h
    · subst hc
      rw [Lines.pieces_sep, Nat.sub_eq_zero_of_le h, ih, Nat.sub_eq_zero_of_le (by omega)]
      rfl
    · subst hc
      obtain ⟨k, hk⟩ : ∃ k, start - lineNo = k + 1 := ⟨start - lineNo - 1, by omega⟩
      have hk' : start - (lineNo + 1) = k := by omega
      rw [Lines.pieces_sep, hk, List.drop_succ_cons, ih, hk', List.nil_append]
    · rw [Lines.pieces_cons hc, ih]

theorem totalLines_eq : totalLines content = (textLines content).length := by
  rw [textLines, List.length_map, Lines.length_lines, totalLines]
  congr 1
  by_cases hnil : content = []
  · rw [if_neg (fun h => h.1 hnil), if_pos (.inl hnil)]
  · by_cases hlast : content.getLast? = some ('\n' : UInt8)
    · rw [if_neg (fun h => h.2 hlast), if_pos (.inr hlast)]
    · rw [if_pos ⟨hnil, hlast⟩, if_neg (by simp [hnil, hlast])]

/-- The content is not empty, and no newline ends it: every piece is a line. -/
def Unended (content : Text) : Prop := content ≠ [] ∧ content.getLast? ≠ some ('\n' : UInt8)

theorem pieces_unended (h : Unended content) : Lines.pieces ('\n' : UInt8) [] content = Lines.lines ('\n' : UInt8) content := by
  rw [Lines.pieces_eq, if_neg (not_or.2 h), List.append_nil]

theorem pieces_ended (h : ¬ Unended content) : Lines.pieces ('\n' : UInt8) [] content = Lines.lines ('\n' : UInt8) content ++ [[]] := by
  rw [Lines.pieces_eq, if_pos (not_not.1 fun hnot => h (not_or.1 hnot))]

/-- The line is printed as it is: it holds no NUL, and the buffer has room for it. -/
def Shown (line : Text) : Prop :=
  (0 : UInt8) ∉ stripCr line ∧
    (line.length ≤ 511 ∨ line.length = 512 ∧ line.getLast? = some ('\r' : UInt8) ∧ (line.take 511).getLast? ≠ some ('\r' : UInt8))

theorem cstr_eq_self : cstr line = line ↔ (0 : UInt8) ∉ line := by
  rw [cstr, List.takeWhile_eq_self_iff]
  constructor
  · intro h hzero
    simpa using h 0 hzero
  · intro h c hc
    exact decide_eq_true fun heq => h (heq ▸ hc)

theorem length_cstr_le (line : Text) : (cstr line).length ≤ line.length := (List.takeWhile_prefix _).length_le

theorem printed_iff : printed line = stripCr line ↔ Shown line := by
  unfold printed Shown
  by_cases hshort : line.length ≤ 511
  · rw [List.take_of_length_le hshort, cstr_eq_self]
    simp [hshort]
  · have htake : (line.take 511).length = 511 := by
      rw [List.length_take]
      omega
    have hlong : line.length = 512 → line.getLast? = some ('\r' : UInt8) → stripCr line = line.take 511 := by
      intro hlen hcr
      rw [stripCr, if_pos hcr, List.dropLast_eq_take, hlen]
    constructor
    · intro heq
      have hle : (stripCr line).length ≤ (stripCr (line.take 511)).length := heq ▸ length_cstr_le _
      have hcut := length_stripCr_le (line.take 511)
      have hcr : line.getLast? = some ('\r' : UInt8) := by
        by_contra hnot
        rw [stripCr, if_neg hnot] at hle
        omega
      have hlen : line.length = 512 := by
        rw [stripCr, if_pos hcr, List.length_dropLast] at hle
        omega
      have hnot : (line.take 511).getLast? ≠ some ('\r' : UInt8) := by
        intro hcr'
        rw [hlong hlen hcr, htake, stripCr, if_pos hcr', List.length_dropLast, htake] at hle
        omega
      refine ⟨?_, .inr ⟨hlen, hcr, hnot⟩⟩
      have hsame : stripCr (line.take 511) = line.take 511 := if_neg hnot
      rw [hsame, hlong hlen hcr] at heq
      rw [hlong hlen hcr]
      exact cstr_eq_self.1 heq
    · rintro ⟨hzero, hle | ⟨hlen, hcr, hnot⟩⟩
      · exact absurd hle hshort
      · have hsame : stripCr (line.take 511) = line.take 511 := if_neg hnot
        rw [hlong hlen hcr] at hzero ⊢
        rw [hsame]
        exact cstr_eq_self.2 hzero

/-- All lines are printed as they are, and no empty piece behind the last newline. -/
def Faithful (content : Text) : Prop := Unended content ∧ ∀ line ∈ Lines.lines ('\n' : UInt8) content, Shown line

theorem map_printed (h : Faithful content) : (Lines.pieces ('\n' : UInt8) [] content).map printed = textLines content := by
  rw [pieces_unended h.1]
  exact List.map_congr_left fun line hline => printed_iff.2 (h.2 line hline)

theorem headLoop_take (h : Faithful content) : headLoop n [] content 0 = (textLines content).take n := by
  rw [headLoop_eq, Nat.sub_zero, List.map_take, map_printed h]

theorem tailLoop_drop (h : Faithful content) : tailLoop start [] content 0 = (textLines content).drop start := by
  rw [tailLoop_eq, Nat.sub_zero, List.map_drop, map_printed h]

theorem faithful_of_tailLoop (h : tailLoop 0 [] content 0 = textLines content) : Faithful content := by
  rw [tailLoop_eq, Nat.sub_zero, List.drop_zero] at h
  have hend : Unended content := by
    by_contra hnot
    have hlength := congrArg List.length h
    rw [pieces_ended hnot, textLines, List.length_map, List.length_map, List.length_append, List.length_singleton] at hlength
    omega
  rw [pieces_unended hend] at h
  exact ⟨hend, fun line hline => printed_iff.1 (List.map_inj_left.1 h line hline)⟩

theorem length_textLines_le (content : Text) : (textLines content).length ≤ content.length + 1 := by
  rw [textLines, List.length_map, Lines.length_lines]
  have hcount := List.count_le_length (a := ('\n' : UInt8)) (l := content)
  split_ifs <;> omega

theorem startLine_eq {n : Int32} (hlength : content.length ≤ readMax) (hn : 0 ≤ n.toInt) :
    startLine n content = (textLines content).length - n.toInt.toNat := by
  have hle := length_textLines_le content
  have hlt := n.toInt_lt
  rw [readMax] at hlength
  have htotal : (Int32.ofNat (textLines content).length).toInt = (textLines content).length := Int32.toInt_ofNat_of_lt (by omega)
  rw [startLine, totalLines_eq, Int32.toInt_sub, htotal, Int.bmod_eq_of_le (by omega) (by omega)]
  omega

end Loops

/-! ### The arguments -/

section Arguments

variable {path content : Text} {src : Source} {n : ℕ}

/-- A word that `read_token` takes. -/
structure IsPath (path : Text) : Prop where
  ne : path ≠ []
  word : ∀ c ∈ path, c ≠ 0 ∧ c ≠ 32
  short : path.length ≤ 127

/-- `-N file` -/
def fileArgs (n : ℕ) (path : Text) : Text := ('-' : UInt8) :: (uintToDec n ++ (32 :: path))

/-- `-N` -/
def pipeArgs (n : ℕ) : Text := ('-' : UInt8) :: uintToDec n

/-- The content comes through a pipe. -/
def piped (content : Text) : Source := ⟨content, fun _ _ => none⟩

theorem entryNumber_uintToDec (n : ℕ) : Line.entryNumber (uintToDec n) = Int32.ofNat n ∧ ∀ c ∈ uintToDec n, Line.isDigit c = true := by
  have hdigit : ∀ d : Fin 10, (('0' : UInt8) + UInt8.ofNat d - ('0' : UInt8)).toUInt32.toInt32 = Int32.ofNat d ∧
      Line.isDigit (('0' : UInt8) + UInt8.ofNat d) = true := by decide
  induction n using Nat.strong_induction_on with
  | _ n ih =>
    rw [uintToDec_eq]
    split_ifs with h
    · obtain ⟨hvalue, hd⟩ := hdigit ⟨n, h⟩
      constructor
      · show 0 * 10 + (('0' : UInt8) + UInt8.ofNat n - ('0' : UInt8)).toUInt32.toInt32 = Int32.ofNat n
        rw [hvalue, Int32.zero_mul, Int32.zero_add]
      · simpa using hd
    · obtain ⟨hvalue, hd⟩ := hdigit ⟨n % 10, Nat.mod_lt _ (by decide)⟩
      obtain ⟨hrest, hall⟩ := ih (n / 10) (by omega)
      constructor
      · rw [Line.entryNumber, List.foldl_append]
        change Line.entryNumber (uintToDec (n / 10)) * 10 + (('0' : UInt8) + UInt8.ofNat (n % 10) - ('0' : UInt8)).toUInt32.toInt32 = Int32.ofNat n
        rw [hrest, hvalue]
        calc Int32.ofNat (n / 10) * 10 + Int32.ofNat (n % 10) = Int32.ofNat (n / 10 * 10 + n % 10) := by
              rw [Int32.ofNat_add, Int32.ofNat_mul]
              rfl
          _ = Int32.ofNat n := by rw [Nat.div_add_mod']
      · intro c hc
        rcases List.mem_append.1 hc with hc | hc
        · exact hall c hc
        · rw [List.mem_singleton.1 hc]
          exact hd

theorem readCount_count {n : ℕ} {rest : Text} (hrest : rest.takeWhile Line.isDigit = []) :
    readCount (('-' : UInt8) :: (uintToDec n ++ rest)) = (Int32.ofNat n, rest.dropWhile (· = 32)) := by
  obtain ⟨hvalue, hdigits⟩ := entryNumber_uintToDec n
  have htake : (uintToDec n ++ rest).takeWhile Line.isDigit = uintToDec n := by
    rw [List.takeWhile_append_of_pos hdigits, hrest, List.append_nil]
  have hdrop : (uintToDec n ++ rest).dropWhile Line.isDigit = rest := by
    rw [List.dropWhile_append_of_pos hdigits, ← List.takeWhile_append_dropWhile (p := Line.isDigit) (l := rest), hrest, List.nil_append,
      List.dropWhile_idempotent]
  rw [readCount, if_pos rfl, htake, hvalue, hdrop]

theorem readToken_path (h : IsPath path) : readToken path 128 = some (path, []) := by
  have hdrop : path.dropWhile (fun c => decide (c = 32)) = path := by
    cases hpath : path with
    | nil => rfl
    | cons c rest =>
      have hne := (h.word c (by rw [hpath]; exact List.mem_cons_self)).2
      exact List.dropWhile_cons_of_neg (by simpa using hne)
  have hall : ∀ c ∈ path, (decide (c ≠ 0 ∧ c ≠ 32)) = true := fun c hc => decide_eq_true (h.word c hc)
  have htake : path.takeWhile (fun c => decide (c ≠ 0 ∧ c ≠ 32)) = path := List.takeWhile_eq_self_iff.2 hall
  have hrest : path.dropWhile (fun c => decide (c ≠ 0 ∧ c ≠ 32)) = [] := List.dropWhile_eq_nil_iff.2 hall
  unfold readToken
  dsimp only
  rw [hdrop, htake, hrest, if_neg (Nat.not_lt.2 (Nat.succ_le_succ h.short))]

variable {name : Text} {loop : Int32 → Text → List Text}

theorem showLines_file {n : Int32} (hpath : IsPath path) (hfile : src.file path readMax = some content) :
    showLines name loop src n path = loop n content := by
  rw [showLines, readToken_path hpath, Option.map_some, Option.getD_some]
  dsimp only
  rw [if_neg hpath.ne, hfile]

theorem showLines_pipe {n : Int32} (hne : content ≠ []) : showLines name loop (piped content) n [] = loop n content := if_neg hne

theorem readCount_fileArgs (hpath : IsPath path) : readCount (fileArgs n path) = (Int32.ofNat n, path) := by
  have hskip : (32 :: path).dropWhile (fun c : UInt8 => decide (c = 32)) = path := by
    rw [List.dropWhile_cons_of_pos (by decide)]
    cases hcases : path with
    | nil => rfl
    | cons c rest =>
      have hne := (hpath.word c (by rw [hcases]; exact List.mem_cons_self)).2
      exact List.dropWhile_cons_of_neg (by simpa using hne)
  rw [fileArgs, readCount_count (List.takeWhile_cons_of_neg (by decide)), hskip]

theorem readCount_pipeArgs : readCount (pipeArgs n) = (Int32.ofNat n, []) := by
  have hcount : readCount (('-' : UInt8) :: (uintToDec n ++ [])) = (Int32.ofNat n, []) := readCount_count rfl
  rw [List.append_nil] at hcount
  exact hcount

/-- `head` and `tail` print the first and the last lines, a file and a pipe give the same output, and the
two parts of a file together are all its lines. -/
structure HeadTailRight (src : Source) (path content : Text) (n : ℕ) : Prop where
  head : cmdHead src (fileArgs n path) = (textLines content).take n
  tail : cmdTail src (fileArgs n path) = (textLines content).drop ((textLines content).length - n)
  pipe : cmdHead (piped content) (pipeArgs n) = cmdHead src (fileArgs n path) ∧
    cmdTail (piped content) (pipeArgs n) = cmdTail src (fileArgs n path)
  rejoin : ∀ k ≤ (textLines content).length,
    cmdHead src (fileArgs k path) ++ cmdTail src (fileArgs ((textLines content).length - k) path) = textLines content

/-- An `int` holds the count, or a number that is not less than that of the lines all the same. -/
def Countable (n : ℕ) (content : Text) : Prop :=
  min (Int32.ofNat n).toInt.toNat (textLines content).length = min n (textLines content).length

theorem countable_of_lt (h : n < 2 ^ 31) : Countable n content := by
  rw [Countable, Int32.toInt_ofNat_of_lt h, Int.toNat_natCast]

theorem isPath_f : IsPath (chars "f") where
  ne := by decide +kernel
  word := List.forall_mem_singleton.2 (by decide)
  short := by decide +kernel

end Arguments

end TextCommands

end Tg11Kernel.Shell
