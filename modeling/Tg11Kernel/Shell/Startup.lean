import Tg11Kernel.Shell.Variables
import Tg11Kernel.Lib.Fields
import Tg11Kernel.Lib.Radix
import Tg11Kernel.Lib.Stack
import Mathlib.Algebra.Order.BigOperators.Group.List
import Mathlib.Algebra.Order.Group.Nat
import Mathlib.Algebra.Group.Action.Defs

/-! The command `exec` and the stack that a program starts with. The words of the command line become
the strings of `argv`, packed from the top of the stack window downward; the frame with `argc`, the
pointers to the strings, the environment and the auxiliary vector goes below them. -/

namespace Tg11Kernel.Shell

open Lib

namespace Startup

/-! ### Arguments -/

/-- `read_token`: the next word and what stands behind it, if the buffer has room for the word. -/
def readToken (s : Text) (outSize : ℕ) : Option (Text × Text) :=
  let s := s.dropWhile (· = 32)
  let token := s.takeWhile fun c => c ≠ 0 ∧ c ≠ 32
  if token.length + 1 > outSize then none else some (token, s.dropWhile fun c => c ≠ 0 ∧ c ≠ 32)

/-- The loop that fills `exec_args`, with room for that many more. -/
def readArgs (room : ℕ) (p : Text) : Except Text (List Text) :=
  match readToken p 64 with
  | none => .error (chars "exec: argument token too long")
  | some (tok, rest) =>
    if tok = [] then .ok []
    else match room with
      | 0 => .error (chars "exec: too many args (max 7)")
      | room + 1 => (readArgs room rest).map (tok :: ·)

/-- The path and the arguments. -/
def readCommand (args : Text) : Except Text (Text × List Text) :=
  match readToken args 128 with
  | none => .error (chars "Usage: exec <path> [args...]")
  | some (path, p) =>
    if path = [] then .error (chars "Usage: exec <path> [args...]")
    else (readArgs 7 p).map fun xs => (path, xs)

/-! ### The stack window -/

def USER_STACK_PAGES : ℕ := 8

def userStackSpan : UInt64 := 8 * 4096
def userStackBase : UInt64 := 0x0000002000000000
def userStackTop : UInt64 := userStackBase + userStackSpan

/-- The pages of the window. The kernel writes them through an alias of its own, which has the
same frames in the same order. -/
abbrev StackPages := Block (USER_STACK_PAGES * 4096)

/-- What the kernel writes at an address of the window. -/
def offset (addr : UInt64) : ℕ := (addr - userStackBase).toNat

/-- `str_cursor` or `user_rsp`, the pointers of `argv_user_ptrs` so far and the pages. -/
structure Frame where
  cursor : UInt64
  ptrs : List UInt64
  stack : StackPages

/-- One string with its NUL, below those packed before. -/
def packString (s : Text) (f : Frame) : Except Text Frame :=
  let slen := UInt64.ofNat s.length + 1
  if f.cursor < userStackBase + slen then .error (chars "[exec] argv strings overflow stack")
  else .ok ⟨f.cursor - slen, (f.cursor - slen) :: f.ptrs, f.stack.poke (offset (f.cursor - slen)) (s ++ [0])⟩

/-- Round down to a word, and by one more word if the frame would not end at a multiple of 16. -/
def alignCursor (cursor frameQwords : UInt64) : UInt64 :=
  let cursor := cursor &&& ~~~7
  if cursor &&& 15 ≠ frameQwords * 8 &&& 15 then cursor - 8 else cursor

def push (w : UInt64) (f : Frame) : Frame :=
  { f with
    cursor := f.cursor - 8
    stack := f.stack.poke (offset (f.cursor - 8)) (Block.wordBytes w) }

/-- The startup frame. The strings are packed from the last one to the first, and so are the pointers. -/
def startupFrame (entry : UInt64) (argv : List Text) (stack : StackPages) : Except Text Frame := do
  let argc := UInt64.ofNat argv.length
  let frameQwords := argc + 9
  let f ← argv.foldrM packString ⟨userStackTop, [], stack⟩
  let cursor := alignCursor f.cursor frameQwords
  if cursor < userStackBase + frameQwords * 8 then .error (chars "[exec] insufficient stack for startup frame")
  else
    let f := { f with cursor }
    let f := push 0 f |> push 0
    let f := push entry f |> push 9
    let f := push 4096 f |> push 6
    let f := push 0 f
    let f := push 0 f
    let f := f.ptrs.foldr push f
    .ok (push argc f)

/-- The arguments of `task_exec_user`, and the stack at that time. -/
structure ExecCall where
  entry : UInt64
  rsp : UInt64
  argc : UInt64
  argv1 : UInt64
  stack : StackPages

/-- The command, up to the call. The file is read and loaded, the window and the heap are set up by
`prepare`, which gives the entry point and the pages, or the message that it ends with. -/
def cmdExec (prepare : Text → Except Text (UInt64 × StackPages)) (args : Text) : Except Text ExecCall := do
  let (path, execArgs) ← readCommand args
  let (entry, stack) ← prepare path
  let f ← startupFrame entry (path :: execArgs) stack
  .ok ⟨entry, f.cursor, UInt64.ofNat (1 + execArgs.length), f.ptrs.getD 1 0, f.stack⟩

/-! ### What the arguments are -/

/-- The words of a command line, which a NUL ends. -/
def words (s : Text) : List Text := fields (· = 32) (s.takeWhile (· ≠ 0))

/-- There is room for the words. -/
structure Fits (path : Text) (xs : List Text) : Prop where
  path : path.length < 128
  count : xs.length ≤ 7
  args : ∀ x ∈ xs, x.length < 64

theorem of_mem_words {s x : Text} (h : x ∈ words s) : x ≠ [] ∧ ∀ c ∈ x, c ≠ 0 ∧ c ≠ 32 := by
  obtain ⟨hne, hsep⟩ := of_mem_fields h
  refine ⟨hne, fun c hc => ⟨?_, ?_⟩⟩
  · simpa using List.mem_takeWhile_imp (mem_of_mem_fields h hc)
  · simpa using hsep c hc

theorem words_dropWhile (s : Text) : words (s.dropWhile (· = 32)) = words s := by
  induction s with
  | nil => rfl
  | cons c s ih =>
    by_cases hc : c = 32
    · subst hc
      have hcons : words (32 :: s) = words s := by simp [words, fields_cons_sep]
      rw [hcons, ← ih]
      simp
    · rw [List.dropWhile_cons_of_neg (by simpa using hc)]

/-- The next word and the words behind it. -/
theorem words_append {token rest : Text} (htoken : ∀ c ∈ token, c ≠ 0 ∧ c ≠ 32) (hrest : ∀ c ∈ rest.head?, c = 0 ∨ c = 32)
    (hfirst : token = [] → rest.head? ≠ some 32) : words (token ++ rest) = if token = [] then [] else token :: words rest := by
  have hfield : ∀ c ∈ token, decide (c = 32) = false := fun c hc => by simpa using (htoken c hc).2
  have htake : (token ++ rest).takeWhile (· ≠ 0) = token ++ rest.takeWhile (· ≠ 0) :=
    List.takeWhile_append_of_pos fun c hc => by simpa using (htoken c hc).1
  have hend : rest.takeWhile (· ≠ 0) = [] ∨ ∃ more, rest = 32 :: more := by
    cases rest with
    | nil => simp
    | cons c rest => rcases hrest c rfl with rfl | rfl <;> simp
  unfold words
  rw [htake]
  split_ifs with hnil
  · rcases hend with hend | ⟨more, rfl⟩
    · rw [hend, hnil]
      simp
    · simp [hnil] at hfirst
  · rcases hend with hend | ⟨more, rfl⟩
    · rw [hend, List.append_nil, fields_of_forall_not hfield hnil, fields_nil]
    · simp [fields_field_append hfield hnil, fields_cons_sep]

theorem readToken_eq (s : Text) (outSize : ℕ) : ∃ token rest, words s = (if token = [] then [] else token :: words rest) ∧
    readToken s outSize = if token.length + 1 > outSize then none else some (token, rest) := by
  refine ⟨_, _, ?_, rfl⟩
  have hsplit := words_dropWhile s
  rw [← @List.takeWhile_append_dropWhile _ (fun c => decide (c ≠ 0 ∧ c ≠ 32)) (s.dropWhile (· = 32))] at hsplit
  rw [← hsplit]
  refine words_append (fun c hc => by simpa using List.mem_takeWhile_imp hc) (fun c hc => ?_) fun hnil h32 => ?_
  · have hnot := List.head?_dropWhile_not (fun c => decide (c ≠ 0 ∧ c ≠ 32)) (s.dropWhile (· = 32))
    rw [Option.mem_def.1 hc] at hnot
    simpa [or_iff_not_imp_left] using hnot
  · have hnot := List.head?_dropWhile_not (fun c => decide (c = 32)) s
    rw [List.dropWhile_eq_self_iff.2 fun hlen => by simpa using List.takeWhile_eq_nil_iff.1 hnil hlen] at h32
    rw [h32] at hnot
    simp at hnot

theorem readToken_nil {s : Text} {n : ℕ} (h : words s = []) (hn : 0 < n) : ∃ rest, readToken s n = some ([], rest) := by
  obtain ⟨token, rest, hwords, hread⟩ := readToken_eq s n
  obtain rfl : token = [] := by
    by_contra hne
    simp [h, hne] at hwords
  exact ⟨rest, by rw [hread, if_neg (by simpa using hn.ne')]⟩

theorem readToken_cons {s x : Text} {xs : List Text} {n : ℕ} (h : words s = x :: xs) :
    x ≠ [] ∧ ∃ rest, words rest = xs ∧ readToken s n = if x.length + 1 > n then none else some (x, rest) := by
  obtain ⟨token, rest, hwords, hread⟩ := readToken_eq s n
  by_cases hne : token = []
  · simp [h, hne] at hwords
  · rw [h, if_neg hne] at hwords
    obtain ⟨rfl, rfl⟩ := List.cons.inj hwords
    exact ⟨hne, rest, rfl, hread⟩

theorem readArgs_nil {p : Text} (h : words p = []) (room : ℕ) : readArgs room p = .ok [] := by
  obtain ⟨rest, hread⟩ := readToken_nil h (by decide : 0 < 64)
  rw [readArgs, hread]
  rfl

/-- A word more is read if it fits its buffer and there is a buffer for it. -/
theorem readArgs_cons {p x : Text} {ws xs : List Text} (h : words p = x :: ws) (room : ℕ) : ∃ rest, words rest = ws ∧
    (readArgs room p = .ok xs ↔ x.length < 64 ∧ ∃ room' ys, room = room' + 1 ∧ xs = x :: ys ∧ readArgs room' rest = .ok ys) := by
  obtain ⟨hne, rest, hrest, hread⟩ := readToken_cons (n := 64) h
  refine ⟨rest, hrest, ?_⟩
  rw [readArgs, hread]
  by_cases hlong : x.length + 1 > 64
  · have hge : ¬ x.length < 64 := by omega
    simp [hlong, hge]
  · have hlt : x.length < 64 := by omega
    cases room with
    | zero => simp [hlong, hne]
    | succ room => cases hmore : readArgs room rest <;> simp [hlong, hne, hlt, hmore, Except.map, eq_comm]

theorem readArgs_iff {room : ℕ} {p : Text} {xs : List Text} :
    readArgs room p = .ok xs ↔ words p = xs ∧ xs.length ≤ room ∧ ∀ x ∈ xs, x.length < 64 := by
  induction hw : words p generalizing room p xs with
  | nil =>
    rw [readArgs_nil hw]
    constructor
    · rintro ⟨⟩
      simp
    · rintro ⟨rfl, -⟩
      rfl
  | cons x ws ih =>
    obtain ⟨rest, hrest, hcons⟩ := @readArgs_cons p x ws xs hw room
    rw [hcons]
    constructor
    · rintro ⟨hx, room, ys, rfl, rfl, hys⟩
      obtain ⟨rfl, hlen, hall⟩ := (ih hrest).1 hys
      exact ⟨rfl, by simpa using hlen, by simpa [hx] using hall⟩
    · rintro ⟨rfl, hlen, hall⟩
      obtain ⟨hx, hall⟩ := List.forall_mem_cons.1 hall
      obtain ⟨room, rfl⟩ : ∃ room', room = room' + 1 := ⟨room - 1, by simp at hlen; omega⟩
      exact ⟨hx, room, ws, rfl, rfl, (ih hrest).2 ⟨rfl, by simpa using hlen, hall⟩⟩

/-- What the command accepts: the words of its line, if they fit. -/
theorem readCommand_iff {args path : Text} {xs : List Text} : readCommand args = .ok (path, xs) ↔ words args = path :: xs ∧ Fits path xs := by
  cases hw : words args with
  | nil =>
    obtain ⟨rest, hread⟩ := readToken_nil hw (by decide : 0 < 128)
    simp [readCommand, hread]
  | cons x ws =>
    obtain ⟨hne, rest, rfl, hread⟩ := readToken_cons (n := 128) hw
    by_cases hlong : x.length + 1 > 128
    · simp [readCommand, hread, hlong]
      rintro rfl rfl hfits
      have hlt := hfits.path
      omega
    · have hmap : readCommand args = .ok (path, xs) ↔ readArgs 7 rest = .ok xs ∧ x = path := by
        cases hargs : readArgs 7 rest <;> simp [readCommand, hread, hlong, hne, hargs, Except.map, and_comm]
      rw [hmap, readArgs_iff, List.cons.injEq]
      constructor
      · rintro ⟨⟨hwords, hcount, hall⟩, rfl⟩
        exact ⟨⟨rfl, hwords⟩, by omega, hcount, hall⟩
      · rintro ⟨⟨rfl, hwords⟩, hfits⟩
        exact ⟨⟨hwords, hfits.count, hfits.args⟩, rfl⟩

/-! ### Addresses of the window -/

variable {a k : UInt64}

theorem offset_sub (h : k.toNat ≤ offset a) : offset (a - k) = offset a - k.toNat := by
  have hcomm : a - k - userStackBase = a - userStackBase - k := by
    rw [UInt64.sub_eq_add_neg, UInt64.sub_eq_add_neg, UInt64.sub_eq_add_neg, UInt64.sub_eq_add_neg, UInt64.add_assoc, UInt64.add_assoc,
      UInt64.add_comm (-k)]
  unfold offset at *
  rw [hcomm, UInt64.toNat_sub_of_le _ _ (UInt64.le_iff_toNat_le.2 h)]

theorem offset_add (h : offset a + k.toNat < 2 ^ 64) : offset (a + k) = offset a + k.toNat := by
  have hcomm : a + k - userStackBase = a - userStackBase + k := by
    rw [UInt64.sub_eq_add_neg, UInt64.sub_eq_add_neg, UInt64.add_assoc, UInt64.add_assoc, UInt64.add_comm k]
  unfold offset at *
  rw [hcomm, UInt64.toNat_add, Nat.mod_eq_of_lt h]

theorem toNat_eq (h : offset a ≤ 32768) : a.toNat = userStackBase.toNat + offset a := by
  have hback : a = a - userStackBase + userStackBase := (UInt64.sub_add_cancel _ _).symm
  have hbase : userStackBase.toNat = 137438953472 := rfl
  have hsum : a.toNat = (offset a + userStackBase.toNat) % 2 ^ 64 := by
    conv_lhs => rw [hback, UInt64.toNat_add]
    rfl
  omega

theorem offset_eq (h : userStackBase.toNat ≤ a.toNat) : offset a = a.toNat - userStackBase.toNat :=
  UInt64.toNat_sub_of_le _ _ (UInt64.le_iff_toNat_le.2 h)

theorem offset_top : offset userStackTop = 32768 := by decide

theorem toNat_ofNat {n : ℕ} (h : n < 2 ^ 32) : (UInt64.ofNat n).toNat = n := by
  rw [UInt64.toNat_ofNat']
  omega

theorem lt_base_iff (h : offset a ≤ 32768) (hk : k.toNat < 2 ^ 32) : a < userStackBase + k ↔ offset a < k.toNat := by
  have hbase : userStackBase.toNat = 137438953472 := rfl
  rw [UInt64.lt_iff_toNat_lt, UInt64.toNat_add, toNat_eq h]
  omega

/-! ### The strings -/

/-- The bytes of a string, with its NUL. -/
def bytes (s : Text) : List UInt8 := s ++ [0]

/-- Where a string is. -/
def stringArea (p : UInt64) (s : Text) : ℕ × ℕ := (offset p, (bytes s).length)

/-- The strings so far lie next to each other, from the cursor to the top, and the pointers lead to them. -/
structure Packed (argv : List Text) (f : Frame) : Prop where
  cursor : offset f.cursor + (argv.map fun s => (bytes s).length).sum = 32768
  length : f.ptrs.length = argv.length
  ptrs : List.zipWith stringArea f.ptrs argv = areas (offset f.cursor) (argv.map fun s => (bytes s).length)
  holds : f.stack.Holds (offset f.cursor) (argv.flatMap bytes)

theorem packed_nil (stack : StackPages) : Packed [] ⟨userStackTop, [], stack⟩ where
  cursor := by simp [offset_top]
  length := rfl
  ptrs := rfl
  holds := Block.holds_nil (by simp [offset_top, USER_STACK_PAGES])

theorem packString_packed {s : Text} {argv : List Text} {f : Frame} (h : Packed argv f)
    (hroom : ((s :: argv).map fun s => (bytes s).length).sum ≤ 32768) : ∃ f', packString s f = .ok f' ∧ Packed (s :: argv) f' := by
  have hcursor := h.cursor
  have hsize : (bytes s).length = s.length + 1 := by simp [bytes]
  rw [List.map_cons, List.sum_cons] at hroom
  have hslen : (UInt64.ofNat s.length + 1).toNat = (bytes s).length := by
    rw [UInt64.toNat_add, UInt64.toNat_ofNat', hsize]
    simp
    omega
  have hfits : ¬ f.cursor < userStackBase + (UInt64.ofNat s.length + 1) := by
    rw [lt_base_iff (by omega) (by omega)]
    omega
  have hoff : offset (f.cursor - (UInt64.ofNat s.length + 1)) + (bytes s).length = offset f.cursor := by
    rw [offset_sub (by omega)]
    omega
  refine ⟨_, if_neg hfits, ?_, by simp [h.length], ?_, ?_⟩
  · rw [List.map_cons, List.sum_cons]
    dsimp only
    omega
  · rw [List.zipWith_cons_cons, h.ptrs, List.map_cons, areas, hoff, stringArea]
  · exact (hoff ▸ h.holds).push

theorem packStrings (argv : List Text) (stack : StackPages) (hroom : (argv.map fun s => (bytes s).length).sum ≤ 32768) :
    ∃ f, argv.foldrM packString ⟨userStackTop, [], stack⟩ = .ok f ∧ Packed argv f := by
  induction argv with
  | nil => exact ⟨_, rfl, packed_nil stack⟩
  | cons s argv ih =>
    obtain ⟨f, hf, hpacked⟩ := ih (by simp at hroom ⊢; omega)
    obtain ⟨f', hf', hpacked'⟩ := packString_packed hpacked hroom
    refine ⟨f', ?_, hpacked'⟩
    rw [List.foldrM_cons, hf]
    exact hf'

/-! ### The frame -/

/-- The words that are pushed, from the last one on. -/
def frameWords (entry : UInt64) (ptrs : List UInt64) : List UInt64 :=
  UInt64.ofNat ptrs.length :: (ptrs ++ [0, 0, 6, 4096, 9, entry, 0, 0])

/-- Words were pushed, and what lay above the cursor is still there. -/
structure Pushed (ws : List UInt64) (f f' : Frame) : Prop where
  ptrs : f'.ptrs = f.ptrs
  cursor : offset f'.cursor + 8 * ws.length = offset f.cursor
  holds : f'.stack.Holds (offset f'.cursor) (ws.flatMap Block.wordBytes)
  above : ∀ {off l}, offset f.cursor ≤ off → f.stack.Holds off l → f'.stack.Holds off l

theorem pushed_nil {f : Frame} (h : offset f.cursor ≤ 32768) : Pushed [] f f := ⟨rfl, rfl, Block.holds_nil h, fun _ h => h⟩

theorem Pushed.push {ws : List UInt64} {f f' : Frame} (h : Pushed ws f f') (w : UInt64) (hroom : 8 ≤ offset f'.cursor) :
    Pushed (w :: ws) f (push w f') := by
  have hoff : offset (f'.cursor - 8) + (Block.wordBytes w).length = offset f'.cursor := by
    have h8 : (8 : UInt64).toNat = 8 := rfl
    rw [offset_sub (h8 ▸ hroom), h8, Block.length_wordBytes]
    omega
  have hcursor := h.cursor
  rw [Block.length_wordBytes] at hoff
  refine ⟨h.ptrs, ?_, ?_, fun hle hheld => (h.above hle hheld).poke_below ?_⟩
  · rw [List.length_cons]
    change offset (f'.cursor - 8) + _ = _
    omega
  · have hheld := h.holds
    rw [← hoff] at hheld
    exact Block.Holds.push (by rwa [Block.length_wordBytes])
  · rw [Block.length_wordBytes]
    omega

theorem pushed_foldr (ws : List UInt64) {f : Frame} (htop : offset f.cursor ≤ 32768) (hroom : 8 * ws.length ≤ offset f.cursor) :
    Pushed ws f (ws.foldr Startup.push f) := by
  induction ws with
  | nil => exact pushed_nil htop
  | cons w ws ih =>
    rw [List.length_cons] at hroom
    have hrest := ih (by omega)
    have hcursor := hrest.cursor
    exact hrest.push w (by omega)

/-- The cursor goes down to where a frame below it ends at a multiple of 16. -/
theorem alignCursor_spec {q : UInt64} (hlow : 16 ≤ offset a) (htop : offset a ≤ 32768) (hq : q.toNat < 2 ^ 32) :
    offset (alignCursor a q) ≤ offset a ∧ offset a < offset (alignCursor a q) + 16 ∧ offset (alignCursor a q) % 16 = 8 * q.toNat % 16 := by
  have hbase : userStackBase.toNat = 137438953472 := rfl
  have haddr := toNat_eq htop
  have hdown : (a &&& ~~~7).toNat = a.toNat / 8 * 8 := andMask_toNat a (by decide : 3 ≤ 64) (by decide)
  have hoff : offset (a &&& ~~~7) = offset a / 8 * 8 := by
    rw [offset_eq (by omega), hdown]
    omega
  have hlow15 : ∀ v : UInt64, (v &&& 15).toNat = v.toNat % 16 := fun v => lowMask_toNat v (by decide : (15 : UInt64).toNat = 2 ^ 4 - 1)
  have hmul : (q * 8).toNat = q.toNat * 8 := by
    rw [UInt64.toNat_mul]
    exact Nat.mod_eq_of_lt (by simp; omega)
  have hcond : (a &&& ~~~7) &&& 15 ≠ q * 8 &&& 15 ↔ offset a / 8 * 8 % 16 ≠ 8 * q.toNat % 16 := by
    rw [ne_eq, ← UInt64.toNat_inj, hlow15, hlow15, hdown, hmul]
    omega
  unfold alignCursor
  dsimp only
  split_ifs with h
  · rw [hcond] at h
    have h8 : (8 : UInt64).toNat = 8 := rfl
    rw [offset_sub (by rw [hoff]; omega), hoff]
    omega
  · rw [hcond] at h
    rw [hoff]
    omega

/-! ### What the program finds -/

/-- What the program reads at an address of its stack. -/
def readByte (stack : StackPages) (addr : UInt64) : UInt8 := stack.get (offset addr)

def readWord (stack : StackPages) (addr : UInt64) : UInt64 := stack.rd64 (offset addr)

/-- A string that a NUL ends. -/
def IsString (stack : StackPages) (p : UInt64) (s : Text) : Prop :=
  0 ∉ s ∧ ∀ i ≤ s.length, readByte stack (p + UInt64.ofNat i) = s.getD i 0

/-- The words of the frame and the strings, as areas of the window. -/
def pieces (rsp : UInt64) (ptrs : List UInt64) (argv : List Text) : List (ℕ × ℕ) :=
  (List.range (ptrs.length + 9)).map (fun i => (offset rsp + 8 * i, 8)) ++ List.zipWith stringArea ptrs argv

/-- The stack at the entry of a program, with `argv` behind the pointers. Each piece ends before the
next one starts, so no two of them meet. -/
structure SysVFrame (c : ExecCall) (argv : List Text) (ptrs : List UInt64) : Prop where
  aligned : c.rsp.toNat % 16 = 0
  argc : c.argc = UInt64.ofNat argv.length
  argv1 : c.argv1 = ptrs.getD 1 0
  length : ptrs.length = argv.length
  words : ∀ (i : ℕ) (w : UInt64), (frameWords c.entry ptrs)[i]? = some w → readWord c.stack (c.rsp + 8 * UInt64.ofNat i) = w
  strings : ∀ (j : ℕ) (p : UInt64) (s : Text), ptrs[j]? = some p → argv[j]? = some s → IsString c.stack p s
  inside : ∀ x ∈ pieces c.rsp ptrs argv, x.1 + x.2 ≤ USER_STACK_PAGES * 4096
  apart : (pieces c.rsp ptrs argv).Pairwise Before

/-- A string that was packed. -/
theorem isString_of_holds {stack : StackPages} {p : UInt64} {s : Text} (hnul : 0 ∉ s) (h : stack.Holds (offset p) (bytes s)) :
    IsString stack p s := by
  have hin := h.inside
  have hlen : (bytes s).length = s.length + 1 := by simp [bytes]
  have htop : USER_STACK_PAGES * 4096 = 32768 := rfl
  refine ⟨hnul, fun i hi => ?_⟩
  have hi64 : (UInt64.ofNat i).toNat = i := toNat_ofNat (by omega)
  rw [readByte, offset_add (by rw [hi64]; omega), hi64, h.get i (by omega), bytes]
  rcases Nat.lt_or_eq_of_le hi with hlt | rfl
  · exact List.getD_append _ _ _ _ hlt
  · simp

theorem pieces_eq {argv : List Text} {f : Frame} (h : Packed argv f) (rsp : UInt64) : pieces rsp f.ptrs argv =
    areas (offset rsp) (List.replicate (argv.length + 9) 8) ++ areas (offset f.cursor) (argv.map fun s => (bytes s).length) := by
  rw [pieces, h.ptrs, h.length, areas_replicate]

/-- The words go below the strings, from a cursor that was aligned for them. -/
theorem sysVFrame_of_pushed {entry cursor : UInt64} {argv : List Text} {f f' : Frame} (hnul : ∀ s ∈ argv, 0 ∉ s) (h : Packed argv f)
    (hbelow : offset cursor ≤ offset f.cursor) (hmod : offset cursor % 16 = 8 * (argv.length + 9) % 16)
    (hpushed : Pushed (frameWords entry f.ptrs) { f with cursor } f') :
    SysVFrame ⟨entry, f'.cursor, UInt64.ofNat argv.length, f'.ptrs.getD 1 0, f'.stack⟩ argv f'.ptrs := by
  have hptrs : f'.ptrs = f.ptrs := hpushed.ptrs
  have hwords : (frameWords entry f.ptrs).length = argv.length + 9 := by simp [frameWords, h.length]
  have htop : USER_STACK_PAGES * 4096 = 32768 := rfl
  have hcursor := h.cursor
  have hlow : offset f'.cursor + 8 * (argv.length + 9) = offset cursor := hwords ▸ hpushed.cursor
  rw [hptrs]
  have hpieces : (argv.length + 9) * 8 = (List.replicate (argv.length + 9) 8).sum := by simp
  refine ⟨?_, rfl, rfl, h.length, fun i w hw => ?_, fun j p s hp hs => ?_, fun x hx => ?_, ?_⟩
  · have hbase : userStackBase.toNat = 137438953472 := rfl
    dsimp only
    rw [toNat_eq (by omega)]
    omega
  · have hi : i < argv.length + 9 := hwords ▸ (List.getElem?_eq_some_iff.1 hw).1
    have hoff : (8 * UInt64.ofNat i).toNat = 8 * i := by
      have h8 : (8 : UInt64).toNat = 8 := rfl
      rw [UInt64.toNat_mul, toNat_ofNat (by omega), h8]
      omega
    dsimp only
    rw [readWord, offset_add (by omega), hoff]
    exact hpushed.holds.words hw
  · have harea : (areas (offset f.cursor) (argv.map fun s => (bytes s).length))[j]? = some (stringArea p s) := by
      rw [← h.ptrs, List.getElem?_zipWith, hp, hs]
    have hheld := hpushed.above hbelow h.holds
    exact isString_of_holds (hnul s (List.mem_of_getElem? hs)) (hheld.flatMap hs harea)
  · dsimp only at hx
    rw [pieces_eq h, List.mem_append] at hx
    rcases hx with hx | hx
    · have hin := (inside_areas hx).2
      omega
    · have hin := (inside_areas hx).2
      omega
  · dsimp only
    rw [pieces_eq h]
    exact pairwise_areas_append (by omega)

theorem startupFrame_spec (entry : UInt64) {argv : List Text} (stack : StackPages) (hnul : ∀ s ∈ argv, 0 ∉ s)
    (hroom : (argv.map fun s => (bytes s).length).sum + 8 * argv.length + 88 ≤ 32768) :
    ∃ f, startupFrame entry argv stack = .ok f ∧
      SysVFrame ⟨entry, f.cursor, UInt64.ofNat argv.length, f.ptrs.getD 1 0, f.stack⟩ argv f.ptrs := by
  obtain ⟨f, hf, hpacked⟩ := packStrings argv stack (by omega)
  have hcursor := hpacked.cursor
  have hargc : (UInt64.ofNat argv.length + 9).toNat = argv.length + 9 := by
    have h9 : (9 : UInt64).toNat = 9 := rfl
    rw [UInt64.toNat_add, toNat_ofNat (by omega), h9]
    omega
  have hbytes : ((UInt64.ofNat argv.length + 9) * 8).toNat = (argv.length + 9) * 8 := by
    have h8 : (8 : UInt64).toNat = 8 := rfl
    rw [UInt64.toNat_mul, hargc, h8]
    omega
  obtain ⟨hle, hlt, hmod⟩ := @alignCursor_spec f.cursor (UInt64.ofNat argv.length + 9) (by omega) (by omega) (by omega)
  rw [hargc] at hmod
  have hwords : (frameWords entry f.ptrs).length = argv.length + 9 := by simp [frameWords, hpacked.length]
  have hpushed := @pushed_foldr (frameWords entry f.ptrs) { f with cursor := alignCursor f.cursor (UInt64.ofNat argv.length + 9) }
    (hle.trans (by omega)) (by dsimp only; omega)
  refine ⟨_, ?_, sysVFrame_of_pushed hnul hpacked hle hmod hpushed⟩
  have hfits : ¬ alignCursor f.cursor (UInt64.ofNat argv.length + 9) < userStackBase + (UInt64.ofNat argv.length + 9) * 8 := by
    rw [lt_base_iff (by omega) (by omega)]
    omega
  simp only [startupFrame, hf, frameWords, hpacked.length, List.foldr_append, List.foldr_cons, List.foldr_nil]
  exact if_neg hfits

/-! ### The command -/

/-- Words that fit leave room for the frame. -/
theorem Fits.room {path : Text} {xs : List Text} (h : Fits path xs) :
    ((path :: xs).map fun s => (bytes s).length).sum + 8 * (path :: xs).length + 88 ≤ 32768 := by
  have hpath := h.path
  have hcount := h.count
  have hsum : (xs.map fun s => (bytes s).length).sum ≤ (xs.map fun s => (bytes s).length).length • 64 := by
    refine List.sum_le_card_nsmul _ 64 fun n hn => ?_
    obtain ⟨x, hx, rfl⟩ := List.mem_map.1 hn
    have hx' := h.args x hx
    simp only [bytes, List.length_append, List.length_singleton]
    omega
  rw [List.length_map, smul_eq_mul] at hsum
  simp only [List.map_cons, List.sum_cons, List.length_cons, bytes, List.length_append, List.length_nil]
  unfold bytes at hsum
  simp only [List.length_append, List.length_cons, List.length_nil] at hsum
  omega

theorem cmdExec_eq {prepare : Text → Except Text (UInt64 × StackPages)} {args path : Text} {xs : List Text} {entry : UInt64}
    {stack : StackPages} (hwords : words args = path :: xs) (hfits : Fits path xs) (hprepare : prepare path = .ok (entry, stack)) :
    ∃ c ptrs, cmdExec prepare args = .ok c ∧ c.entry = entry ∧ SysVFrame c (path :: xs) ptrs := by
  have hnul : ∀ s ∈ path :: xs, 0 ∉ s := fun s hs h0 => ((of_mem_words (hwords ▸ hs)).2 0 h0).1 rfl
  obtain ⟨f, hf, hframe⟩ := startupFrame_spec entry stack hnul hfits.room
  refine ⟨_, _, ?_, rfl, hframe⟩
  have hread := readCommand_iff.2 ⟨hwords, hfits⟩
  simp only [cmdExec, hread, bind, Except.bind, hprepare, hf, List.length_cons, Nat.add_comm]

/-- The startup frame of a program is a correct one: whatever the words of the command line are, the call
happens with `argc`, the strings, an empty environment and the auxiliary vector on an aligned stack. It happens
for the lines whose words fit and that name a program that loads, and for no others. -/
theorem cmdExec_frame (prepare : Text → Except Text (UInt64 × StackPages)) (args : Text) :
    (∀ c, cmdExec prepare args = .ok c → ∃ path xs stack ptrs, words args = path :: xs ∧ Fits path xs ∧
      prepare path = .ok (c.entry, stack) ∧ SysVFrame c (path :: xs) ptrs) ∧
    ∀ path xs entry stack, words args = path :: xs → Fits path xs → prepare path = .ok (entry, stack) →
      ∃ c, cmdExec prepare args = .ok c ∧ c.entry = entry := by
  constructor
  · intro c hc
    cases hread : readCommand args with
    | error msg => simp [cmdExec, hread, bind, Except.bind] at hc
    | ok command =>
      obtain ⟨path, xs⟩ := command
      cases hprepare : prepare path with
      | error msg => simp [cmdExec, hread, hprepare, bind, Except.bind] at hc
      | ok prepared =>
        obtain ⟨entry, stack⟩ := prepared
        obtain ⟨hwords, hfits⟩ := readCommand_iff.1 hread
        obtain ⟨c', ptrs, hc', rfl, hframe⟩ := cmdExec_eq hwords hfits hprepare
        obtain rfl : c' = c := Except.ok.inj (hc'.symm.trans hc)
        exact ⟨path, xs, stack, ptrs, hwords, hfits, hprepare, hframe⟩
  · intro path xs entry stack hwords hfits hprepare
    obtain ⟨c, ptrs, hc, hentry, -⟩ := cmdExec_eq hwords hfits hprepare
    exact ⟨c, hc, hentry⟩

theorem cmdExec_frame_echo : ∃ c ptrs, cmdExec (fun _ => .ok (0x400000, Block.zero)) (chars "/bin/echo  a bc") = .ok c ∧
    c.entry = 0x400000 ∧ SysVFrame c [chars "/bin/echo", chars "a", chars "bc"] ptrs := by
  have hwords : words (chars "/bin/echo  a bc") = [chars "/bin/echo", chars "a", chars "bc"] := by decide
  have hframe := cmdExec_frame (fun _ => .ok (0x400000, Block.zero)) (chars "/bin/echo  a bc")
  obtain ⟨c, hc, hentry⟩ := hframe.2 _ _ _ _ hwords ⟨by decide, by decide, by decide⟩ rfl
  obtain ⟨path, xs, stack, ptrs, hwords', -, -, hsys⟩ := hframe.1 c hc
  rw [hwords, List.cons.injEq] at hwords'
  obtain ⟨rfl, rfl⟩ := hwords'
  exact ⟨c, ptrs, hc, hentry, hsys⟩

end Startup

end Tg11Kernel.Shell
