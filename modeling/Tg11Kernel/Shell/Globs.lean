import Tg11Kernel.Lib.Glob
import Tg11Kernel.Ramfs.Files
import Tg11Kernel.Ramfs.Laws
import Tg11Kernel.Shell.Forms

/-! The expansion of wildcards in a command line. A token with a `*` or `?` outside of quotes is
replaced by the names in a directory that its last part matches. The directory is listed from the
RAM file system, with a slash behind the names of directories, and tokens are cut to 127 bytes. -/

namespace Tg11Kernel.Shell

open Lib Exec
open Ramfs (Fs Path Name Slot Tree Shape)

/-! ### The scanner -/

/-- `while (*name) { if (p(name)) return 1; name++; } return 0;` -/
def anySuffix (p : Text → Bool) : Text → Bool
  | [] => false
  | c :: name => p (c :: name) || anySuffix p name

def globMatch : Text → Text → Bool
  | [], name => name = []
  | c :: pattern, name =>
    if c = ('*' : UInt8) then pattern = [] || anySuffix (globMatch pattern) name
    else
      match name with
      | [] => false
      | d :: name => (c = ('?' : UInt8) || c = d) && globMatch pattern name

/-- A token, whether it has a wildcard outside of quotes, and whether they are open at its end. -/
structure Token where
  bytes : Text
  hasGlob : Bool
  inQuotes : Bool

/-- `while (ii < in_len && (in[ii] != ' ' || in_quotes))`; a token and what is left of the line. -/
def scanToken : Bool → Text → Token × Text
  | inQuotes, [] => (⟨[], false, inQuotes⟩, [])
  | inQuotes, c :: line =>
    if c = (' ' : UInt8) ∧ ¬ inQuotes then (⟨[], false, inQuotes⟩, c :: line)
    else
      let inQuotes := if c = ('"' : UInt8) then !inQuotes else inQuotes
      let (token, rest) := scanToken inQuotes line
      (⟨c :: token.bytes, ((c = ('*' : UInt8) || c = ('?' : UInt8)) && !inQuotes) || token.hasGlob, token.inQuotes⟩, rest)

/-- The room in `char token[128]` -/
def TOKEN_MAX : ℕ := 127

/-- `token` -/
def Token.text (t : Token) : Text := t.bytes.take TOKEN_MAX

/-- A token up to its last slash, and with it. -/
def front (token : Text) : Text := (token.reverse.dropWhile (· ≠ ('/' : UInt8))).reverse

/-- `pattern`, behind the last slash. -/
def pattern (token : Text) : Text := (token.reverse.takeWhile (· ≠ ('/' : UInt8))).reverse

/-- `names[j][0] == '.' && pattern[0] != '.'` -/
def isHidden (pattern name : Text) : Bool := peek name = ('.' : UInt8) && peek pattern ≠ ('.' : UInt8)

/-- The names in a listing that match a token, as paths. -/
def matching (token : Text) (names : List Text) : List Text :=
  (names.filter fun name => !isHidden (pattern token) name && globMatch (pattern token) name).map (front token ++ ·)

/-- The words in place of a token. -/
def expandToken (s : Fs) (t : Token) : Outcome (List Text) :=
  if ¬ t.hasGlob ∨ t.inQuotes then .ok [t.text]
  else
    match (Ramfs.ls (some (front t.text).dropLast) FS_MAX_LIST s).1 with
    | .ok names =>
      let words := matching t.text (names.map Prod.fst)
      .ok (if words = [] then [t.text] else words)
    | .fail => .ok [t.text]
    | .hang => .hang

def unwords (words : List Text) : Text := [(' ' : UInt8)].intercalate words

/-- `while (ii < in_len)`; behind the last blanks the token is empty. -/
def globLoop (s : Fs) (size : ℕ) : ℕ → Text → Writer Unit
  | 0, _ => Exec.hang
  | k + 1, line =>
    if line = [] then pure ()
    else do
      emit size (line.takeWhile (· = (' ' : UInt8)))
      let (token, rest) := scanToken false (line.dropWhile (· = (' ' : UInt8)))
      match expandToken s token with
      | .ok words => do
        emit size (unwords words)
        globLoop s size k rest
      | .fail | .hang => Exec.hang

/-- `expand_globs`; every round takes a byte of the line. -/
def expandGlobs (s : Fs) (size : ℕ) (line : Text) : Writer Unit := globLoop s size (line.length + 1) line

/-! ### What a wildcard stands for -/

def wild (c : UInt8) : Wild UInt8 := if c = ('*' : UInt8) then .many else if c = ('?' : UInt8) then .one else .letter c

def Stands (pattern name : Text) : Prop := Wild.Matches (pattern.map wild) name

/-- Where two stars at the end are taken for one byte at least: what is before them stands for the
whole name, and for no front of it. -/
def Slips (pattern name : Text) : Prop :=
  ∃ q, pattern = q ++ [('*' : UInt8), ('*' : UInt8)] ∧ Stands q name ∧ ∀ w d v, name = w ++ d :: v → ¬ Stands q w

/-- A name in a directory, and whether it is one of a directory. -/
abbrev Entry := Name × Bool

/-- The entries of the directory at a path, if there is one. -/
abbrev Listing := Option Path → Option (List Entry)

def ramListing (s : Fs) : Listing := fun path =>
  match (Ramfs.resolvePath path s).1 with
  | .ok d =>
    if (s.nodes d).isDir then
      some (((List.finRange Ramfs.FS_MAX_NODES).filter fun i => i ≠ 0 ∧ (s.nodes i).used ∧ (s.nodes i).parent = some d).map
        fun i => ((s.nodes i).name, (s.nodes i).isDir))
    else none
  | .fail | .hang => none

/-- The file system that commands act on: a FAT drive while one is active. -/
def acts (s : Fs) (fat : Option Listing) : Listing := fat.getD (ramListing s)

/-- The directory that a token names in front of its last slash. -/
def directory (token : Text) : Option Path :=
  if front token = [] then none else if front token = [('/' : UInt8)] then some [('/' : UInt8)] else some (front token).dropLast

def Token.IsGlob (t : Token) : Prop := t.hasGlob = true ∧ t.inQuotes = false

/-- An entry that a token stands for. -/
structure Wanted (files : Listing) (t : Token) (e : Entry) : Prop where
  glob : t.IsGlob
  listed : ∃ es, files (directory t.bytes) = some es ∧ e ∈ es
  shown : isHidden (pattern t.bytes) e.1 = false
  stands : Stands (pattern t.bytes) e.1

/-- A text that stays one token. -/
def Whole (w : Text) : Prop := ∀ c ∈ w, c ≠ (' ' : UInt8) ∧ c ≠ ('"' : UInt8)

/-- A path of an entry in the directory of the token; behind a directory a slash may stand. -/
structure Names (token : Text) (e : Entry) (w : Text) : Prop where
  path : w = front token ++ e.1 ∨ e.2 = true ∧ w = front token ++ e.1 ++ [('/' : UInt8)]
  whole : Whole w

/-- The words are the entries that the token stands for, each once, or the token if there are none. -/
structure Replaces (files : Listing) (t : Token) (words : List Text) : Prop where
  kept : (∀ e, ¬ Wanted files t e) → words = [t.bytes]
  each : (∃ e, Wanted files t e) → ∃ es : List Entry, es.Nodup ∧ (∀ e, e ∈ es ↔ Wanted files t e) ∧ List.Forall₂ (Names t.bytes) es words

/-- The tokens of a line, each with the blanks before it. -/
def tokensLoop : ℕ → Text → List (Text × Token)
  | 0, _ => []
  | k + 1, line =>
    if line = [] then []
    else
      let (token, rest) := scanToken false (line.dropWhile (· = (' ' : UInt8)))
      (line.takeWhile (· = (' ' : UInt8)), token) :: tokensLoop k rest

def tokens (line : Text) : List (Text × Token) := tokensLoop (line.length + 1) line

/-- What is written in place of a token. -/
def wordsOf (s : Fs) (t : Token) : List Text :=
  match expandToken s t with
  | .ok words => words
  | .fail | .hang => []

/-- The line is made of tokens, and each is replaced by what it stands for. -/
structure Expanded (s : Fs) (fat : Option Listing) (line : Text) : Prop where
  spelled : ((tokens line).flatMap fun p => p.1 ++ p.2.bytes) = line
  written : ∀ size, expandGlobs s size line = emit size ((tokens line).flatMap fun p => p.1 ++ unwords (wordsOf s p.2))
  replaced : ∀ p ∈ tokens line, Replaces (acts s fat) p.2 (wordsOf s p.2)

/-- The directory that is listed for a token is the one that the token names. -/
structure Direct (s : Fs) (fat : Option Listing) (t : Token) : Prop where
  short : t.bytes.length ≤ TOKEN_MAX
  ram : fat = none
  root : front t.bytes = [('/' : UInt8)] → s.cwdNode = 0

/-- The name that a listing shows. -/
def shown (e : Entry) : Text := e.1 ++ (if e.2 then [('/' : UInt8)] else [])

/-- An entry is listed, and found by the name that the listing shows. -/
structure Found (s : Fs) (t : Token) (e : Entry) : Prop where
  listed : ∃ names, (Ramfs.ls (some (front t.bytes).dropLast) FS_MAX_LIST s).1 = .ok names ∧ (shown e, e.2) ∈ names
  stands : Stands (pattern t.bytes) (shown e)
  found : ¬ Slips (pattern t.bytes) (shown e)

/-- The entries that are found are those that the token stands for, and their paths are tokens. -/
structure Sees (s : Fs) (t : Token) : Prop where
  found : ∀ es, ramListing s (directory t.bytes) = some es → ∀ e ∈ es, isHidden (pattern t.bytes) e.1 = false →
    (Found s t e ↔ Stands (pattern t.bytes) e.1)
  whole : ∀ e, Wanted (ramListing s) t e → Whole (front t.bytes ++ e.1)

/-- Nothing is found, and the token, which is kept, is the path of the only entry that it stands for. -/
structure SpelledOut (s : Fs) (t : Token) : Prop where
  missed : ∀ es, ramListing s (directory t.bytes) = some es → ∀ e ∈ es, isHidden (pattern t.bytes) e.1 = false → ¬ Found s t e
  only : ∃ e, (∀ e', Wanted (ramListing s) t e' ↔ e' = e) ∧ e.1 = pattern t.bytes
  whole : Whole t.bytes

def Clean (s : Fs) (t : Token) : Prop := t.bytes.length ≤ TOKEN_MAX ∧ (t.IsGlob → Sees s t ∨ SpelledOut s t)

def CleanLine (s : Fs) (line : Text) : Prop := ∀ p ∈ tokens line, Clean s p.2

/-! ### Matching -/

section Matching

variable {c d : UInt8} {p q name : Text}

theorem anySuffix_iff {f : Text → Bool} : anySuffix f name = true ↔ ∃ t, t <:+ name ∧ t ≠ [] ∧ f t = true := by
  induction name with
  | nil =>
    refine ⟨fun h => absurd h Bool.false_ne_true, ?_⟩
    rintro ⟨t, ht, hne, -⟩
    exact absurd (List.suffix_nil.1 ht) hne
  | cons c name ih =>
    rw [anySuffix, Bool.or_eq_true, ih]
    constructor
    · rintro (h | ⟨t, ht, hne, h⟩)
      · exact ⟨_, List.suffix_refl _, List.cons_ne_nil c name, h⟩
      · exact ⟨t, ht.trans (List.suffix_cons c name), hne, h⟩
    · rintro ⟨t, ht, hne, h⟩
      rcases List.suffix_cons_iff.1 ht with rfl | ht
      · exact .inl h
      · exact .inr ⟨t, ht, hne, h⟩

theorem wild_of_ne (hc : c ≠ '*') : wild c = if c = '?' then .one else .letter c := if_neg hc

theorem globMatch_star : globMatch (('*' : UInt8) :: p) name = true ↔ p = [] ∨ ∃ t, t <:+ name ∧ t ≠ [] ∧ globMatch p t = true := by
  have hround : globMatch (('*' : UInt8) :: p) name = (decide (p = []) || anySuffix (globMatch p) name) := by
    cases name with
    | nil => exact if_pos rfl
    | cons d name => exact if_pos rfl
  rw [hround, Bool.or_eq_true, anySuffix_iff, decide_eq_true_iff]

/-- A byte that is no star takes one byte of the name. -/
def Takes (c d : UInt8) : Prop := c = ('?' : UInt8) ∨ c = d

theorem not_globMatch_nil (hc : c ≠ '*') : ¬ globMatch (c :: p) [] = true := by
  rw [globMatch, if_neg hc]
  exact Bool.false_ne_true

theorem globMatch_cons (hc : c ≠ '*') : globMatch (c :: p) (d :: name) = true ↔ Takes c d ∧ globMatch p name = true := by
  rw [globMatch, if_neg hc, Bool.and_eq_true, Bool.or_eq_true, decide_eq_true_iff, decide_eq_true_iff]
  rfl

theorem stands_nil : Stands [] name ↔ name = [] := Wild.matches_nil_iff

theorem stands_star : Stands (('*' : UInt8) :: p) name ↔ ∃ t, t <:+ name ∧ Stands p t := Wild.matches_many_iff

theorem not_stands_nil (hc : c ≠ '*') : ¬ Stands (c :: p) [] := by
  unfold Stands
  rw [List.map_cons, wild_of_ne hc]
  split_ifs
  · exact Wild.not_matches_one
  · exact Wild.not_matches_letter

theorem stands_cons (hc : c ≠ '*') : Stands (c :: p) (d :: name) ↔ Takes c d ∧ Stands p name := by
  unfold Stands Takes
  rw [List.map_cons, wild_of_ne hc]
  split_ifs with hq
  · rw [Wild.matches_one_iff]
    exact ⟨fun h => ⟨.inl hq, h⟩, And.right⟩
  · rw [Wild.matches_letter_iff, or_iff_right hq]

/-- Two stars at the end leave at least one byte of the name to themselves. -/
theorem globMatch_stars (q name : Text) : globMatch (q ++ [('*' : UInt8), ('*' : UInt8)]) name = true ↔
    ∃ w d v, name = w ++ d :: v ∧ Stands q w := by
  induction q generalizing name with
  | nil =>
    rw [List.nil_append, globMatch_star, or_iff_right (List.cons_ne_nil _ _)]
    constructor
    · rintro ⟨t, ht, hne, -⟩
      cases name with
      | nil => exact absurd (List.suffix_nil.1 ht) hne
      | cons d v => exact ⟨[], d, v, rfl, .nil⟩
    · rintro ⟨w, d, v, rfl, -⟩
      exact ⟨d :: v, List.suffix_append w _, List.cons_ne_nil d v, globMatch_star.2 (.inl rfl)⟩
  | cons c q ih =>
    rw [List.cons_append]
    by_cases hc : c = '*'
    · subst hc
      rw [globMatch_star, or_iff_right (List.append_ne_nil_of_right_ne_nil q (List.cons_ne_nil _ _))]
      constructor
      · rintro ⟨t, ⟨s, rfl⟩, -, h⟩
        obtain ⟨w, d, v, rfl, hq⟩ := (ih t).1 h
        exact ⟨s ++ w, d, v, (List.append_assoc s w (d :: v)).symm, stands_star.2 ⟨w, List.suffix_append s w, hq⟩⟩
      · rintro ⟨w, d, v, rfl, hq⟩
        obtain ⟨t, ⟨s, rfl⟩, hrest⟩ := stands_star.1 hq
        refine ⟨t ++ d :: v, ⟨s, (List.append_assoc s t (d :: v)).symm⟩, List.append_ne_nil_of_right_ne_nil t (List.cons_ne_nil d v), ?_⟩
        exact (ih _).2 ⟨t, d, v, rfl, hrest⟩
    · cases name with
      | nil =>
        refine iff_of_false (not_globMatch_nil hc) ?_
        rintro ⟨w, d, v, h, -⟩
        exact List.append_ne_nil_of_right_ne_nil w (List.cons_ne_nil d v) h.symm
      | cons e name =>
        rw [globMatch_cons hc, ih]
        constructor
        · rintro ⟨htakes, w, d, v, rfl, hq⟩
          exact ⟨e :: w, d, v, rfl, (stands_cons hc).2 ⟨htakes, hq⟩⟩
        · rintro ⟨w, d, v, h, hq⟩
          cases w with
          | nil => exact absurd hq (not_stands_nil hc)
          | cons b w =>
            rw [List.cons_append, List.cons.injEq] at h
            obtain ⟨rfl, rfl⟩ := h
            obtain ⟨htakes, hq⟩ := (stands_cons hc).1 hq
            exact ⟨htakes, w, d, v, rfl, hq⟩

theorem eq_stars (h : Stands p []) : p = List.replicate p.length ('*' : UInt8) := by
  refine List.eq_replicate_of_mem fun c hc => ?_
  have hmany := Wild.forall_many h (wild c) (List.mem_map_of_mem hc)
  by_contra hne
  rw [wild_of_ne hne] at hmany
  split_ifs at hmany

/-- Elsewhere the matcher is right: behind a star there is something to match. -/
theorem globMatch_stands (p name : Text) (hp : ∀ q, p ≠ q ++ [('*' : UInt8), ('*' : UInt8)]) : globMatch p name = true ↔ Stands p name := by
  induction p generalizing name with
  | nil =>
    rw [globMatch, decide_eq_true_iff]
    exact stands_nil.symm
  | cons c p ih =>
    have hrest : ∀ q, p ≠ q ++ [('*' : UInt8), ('*' : UInt8)] := fun q h => hp (c :: q) (by rw [h, List.cons_append])
    by_cases hc : c = '*'
    · subst hc
      rw [globMatch_star, stands_star]
      constructor
      · rintro (rfl | ⟨t, ht, -, h⟩)
        · exact ⟨[], List.nil_suffix, .nil⟩
        · exact ⟨t, ht, (ih t hrest).1 h⟩
      · rintro ⟨t, ht, h⟩
        by_cases hnil : p = []
        · exact .inl hnil
        · refine .inr ⟨t, ht, ?_, (ih t hrest).2 h⟩
          rintro rfl
          obtain ⟨n, hn⟩ := Nat.exists_eq_succ_of_ne_zero (mt List.length_eq_zero_iff.1 hnil)
          refine hp (List.replicate n ('*' : UInt8)) ?_
          rw [eq_stars h, hn, ← List.replicate_succ]
          exact List.replicate_add n 2 ('*' : UInt8)
    · cases name with
      | nil => exact iff_of_false (not_globMatch_nil hc) (not_stands_nil hc)
      | cons d name => rw [globMatch_cons hc, stands_cons hc, ih name hrest]

theorem stands_stars : Stands (q ++ [('*' : UInt8), ('*' : UInt8)]) name ↔ ∃ w t, name = w ++ t ∧ Stands q w := by
  unfold Stands
  rw [List.map_append, Wild.matches_append_iff]
  constructor
  · rintro ⟨w, t, h, hq, -⟩
    exact ⟨w, t, h, hq⟩
  · rintro ⟨w, t, h, hq⟩
    exact ⟨w, t, h, hq, .many [] (Wild.matches_many t)⟩

theorem stands_of_slips (h : Slips p name) : Stands p name := by
  obtain ⟨q, rfl, hq, -⟩ := h
  exact stands_stars.2 ⟨name, [], (List.append_nil name).symm, hq⟩

/-- `glob_match` is right but for the stars at the end. -/
theorem globMatch_iff (p name : Text) : globMatch p name = true ↔ Stands p name ∧ ¬ Slips p name := by
  by_cases hp : ∃ q, p = q ++ [('*' : UInt8), ('*' : UInt8)]
  · obtain ⟨q, rfl⟩ := hp
    rw [globMatch_stars]
    constructor
    · rintro ⟨w, d, v, rfl, hq⟩
      refine ⟨stands_stars.2 ⟨w, d :: v, rfl, hq⟩, ?_⟩
      rintro ⟨q', h, -, hnone⟩
      rw [List.append_cancel_right h] at hq
      exact hnone w d v rfl hq
    · rintro ⟨h, hslips⟩
      obtain ⟨w, t, rfl, hq⟩ := stands_stars.1 h
      cases t with
      | cons d v => exact ⟨w, d, v, rfl, hq⟩
      | nil =>
        rw [List.append_nil] at hslips ⊢
        by_contra hnone
        exact hslips ⟨q, rfl, hq, fun u d v hname hu => hnone ⟨u, d, v, hname, hu⟩⟩
  · rw [globMatch_stands p name fun q h => hp ⟨q, h⟩]
    refine (and_iff_left ?_).symm
    rintro ⟨q, h, -⟩
    exact hp ⟨q, h⟩

end Matching

/-! ### The tokens of a line -/

section Tokens

variable {s : Fs} {line : Text} {c : UInt8} {k size : ℕ} {inQuotes : Bool}

theorem emit_append (size : ℕ) (a b : Text) : emit size (a ++ b) = (emit size a >>= fun _ => emit size b) := by
  induction a with
  | nil => rfl
  | cons c a ih =>
    rw [List.cons_append, emit, emit, ih]
    simp only [bind_assoc_eq]

theorem scanToken_of_ne (hc : c ≠ ' ') : (scanToken false (c :: line)).1.bytes =
    c :: (scanToken (if c = '"' then true else false) line).1.bytes := by
  rw [scanToken, if_neg fun h => hc h.1]
  rfl

theorem scanToken_bytes (inQuotes : Bool) (line : Text) : (scanToken inQuotes line).1.bytes ++ (scanToken inQuotes line).2 = line := by
  induction line generalizing inQuotes with
  | nil => rfl
  | cons c line ih =>
    rw [scanToken]
    by_cases hend : c = ' ' ∧ ¬ inQuotes
    · rw [if_pos hend]
      rfl
    · rw [if_neg hend]
      exact congrArg (c :: ·) (ih _)

/-- A round takes a blank or a byte of a token. -/
theorem length_scanToken (h : line ≠ []) : (scanToken false (line.dropWhile (· = (' ' : UInt8)))).2.length < line.length := by
  cases line with
  | nil => exact absurd rfl h
  | cons c line =>
    by_cases hc : c = ' '
    · have hdrop := (List.dropWhile_suffix (· = (' ' : UInt8)) (l := line)).length_le
      have hbytes := congrArg List.length (scanToken_bytes false (line.dropWhile (· = (' ' : UInt8))))
      rw [List.length_append] at hbytes
      rw [List.dropWhile_cons_of_pos (p := fun c : UInt8 => decide (c = (' ' : UInt8))) (decide_eq_true hc), List.length_cons]
      omega
    · have hbytes := congrArg List.length (scanToken_bytes false (c :: line))
      rw [List.length_append, scanToken_of_ne hc, List.length_cons, List.length_cons] at hbytes
      rw [List.dropWhile_cons_of_neg (p := fun c : UInt8 => decide (c = (' ' : UInt8))) (by rwa [decide_eq_true_iff]), List.length_cons]
      omega

theorem tokensLoop_of_ne (h : line ≠ []) : tokensLoop (k + 1) line = (line.takeWhile (· = (' ' : UInt8)),
    (scanToken false (line.dropWhile (· = (' ' : UInt8)))).1) :: tokensLoop k (scanToken false (line.dropWhile (· = (' ' : UInt8)))).2 := by
  rw [tokensLoop, if_neg h]

theorem tokensLoop_spelled (h : line.length < k) : ((tokensLoop k line).flatMap fun p => p.1 ++ p.2.bytes) = line := by
  induction k generalizing line with
  | zero => exact absurd h (Nat.not_lt_zero _)
  | succ k ih =>
    by_cases hnil : line = []
    · subst hnil
      rfl
    · have hshort := length_scanToken hnil
      rw [tokensLoop_of_ne hnil, List.flatMap_cons, ih (by omega), List.append_assoc, scanToken_bytes, List.takeWhile_append_dropWhile]

theorem globLoop_of_ne (h : line ≠ []) : globLoop s size (k + 1) line = (emit size (line.takeWhile (· = (' ' : UInt8))) >>= fun _ =>
    match expandToken s (scanToken false (line.dropWhile (· = (' ' : UInt8)))).1 with
    | .ok words => emit size (unwords words) >>= fun _ => globLoop s size k (scanToken false (line.dropWhile (· = (' ' : UInt8)))).2
    | .fail | .hang => Exec.hang) := by
  rw [globLoop, if_neg h]

/-- The line is written token by token. -/
theorem globLoop_eq (hs : ∀ t, expandToken s t = .ok (wordsOf s t)) (h : line.length < k) :
    globLoop s size k line = emit size ((tokensLoop k line).flatMap fun p => p.1 ++ unwords (wordsOf s p.2)) := by
  induction k generalizing line with
  | zero => exact absurd h (Nat.not_lt_zero _)
  | succ k ih =>
    by_cases hnil : line = []
    · subst hnil
      rfl
    · have hshort := length_scanToken hnil
      rw [globLoop_of_ne hnil, tokensLoop_of_ne hnil, List.flatMap_cons, List.append_assoc, emit_append, hs]
      dsimp only
      rw [ih (by omega), emit_append]

end Tokens

/-! ### The listing -/

section Listings

variable {s : Fs} {kids : Slot → List Slot} {path : Option Path} {d : Slot} {e e' : Entry} {k : ℕ}

/-- The entry of a node in the directory that it is in. -/
def entryOf (s : Fs) (i : Slot) : Entry := ((s.nodes i).name, (s.nodes i).isDir)

theorem lsLoop_apply {o : Option Slot} {l : List Slot} (h : IsChain s.links.next o l) (hl : ∀ i ∈ l, (s.nodes i).name.length ≤ Ramfs.FS_NAME_MAX) :
    Ramfs.lsLoop k o s = (.ok ((l.take k).map fun i => (shown (entryOf s i), (s.nodes i).isDir)), s) := by
  induction l generalizing o k with
  | nil =>
    obtain rfl := IsChain.nil_iff.1 h
    cases k <;> rfl
  | cons i l ih =>
    obtain ⟨rfl, h⟩ := h
    cases k with
    | zero => rfl
    | succ k =>
      obtain ⟨hi, hl⟩ := List.forall_mem_cons.1 hl
      have hrest : Ramfs.lsLoop k (s.nodes i).nextSibling s = (.ok ((l.take k).map fun i => (shown (entryOf s i), (s.nodes i).isDir)), s) := ih h hl
      rw [Ramfs.lsLoop, bind_ok (gets_apply _ s), bind_ok hrest, List.take_of_length_le hi, List.take_succ_cons, List.map_cons]
      rfl

/-- The entries of the directory at a path, in the order of a listing; none if there is no directory. -/
structure Enumerates (s : Fs) (path : Option Path) (es : List Entry) : Prop where
  mem_iff : ∀ e, e ∈ es ↔ ∃ l, ramListing s path = some l ∧ e ∈ l
  nodup : es.Nodup
  inj : ∀ e ∈ es, ∀ e' ∈ es, e.1 = e'.1 → e = e'
  name : ∀ e ∈ es, e.1 ≠ [] ∧ ('/' : UInt8) ∉ e.1
  shown : (Ramfs.ls path FS_MAX_LIST s).1 = .ok ((es.take FS_MAX_LIST).map fun e => (shown e, e.2)) ∨
    es = [] ∧ (Ramfs.ls path FS_MAX_LIST s).1 = .fail

theorem Enumerates.of_none (hnone : ramListing s path = none) (hls : (Ramfs.ls path FS_MAX_LIST s).1 = .fail) : Enumerates s path [] where
  mem_iff e := by
    refine iff_of_false List.not_mem_nil ?_
    rintro ⟨l, hl, -⟩
    rw [hnone] at hl
    exact nomatch hl
  nodup := List.nodup_nil
  inj e he := nomatch he
  name e he := nomatch he
  shown := .inr ⟨rfl, hls⟩

theorem enumerates_kids (h : Shape s kids) (hpath : Ramfs.resolvePath path s = (.ok d, s)) (hdir : (s.nodes d).isDir = true) :
    Enumerates s path ((kids d).map (entryOf s)) where
  mem_iff e := by
    have hlisting : ramListing s path = some (((List.finRange Ramfs.FS_MAX_NODES).filter fun i =>
        i ≠ 0 ∧ (s.nodes i).used ∧ (s.nodes i).parent = some d).map (entryOf s)) := by
      unfold ramListing
      rw [hpath]
      exact if_pos hdir
    rw [hlisting]
    simp only [Option.some.injEq, exists_eq_left', List.mem_map, List.mem_filter, List.mem_finRange, true_and, decide_eq_true_eq, h.mem_iff]
  nodup := by
    refine List.Nodup.map_on ?_ (h.nodup d)
    intro i hi j hj hij
    exact h.names_inj d i hi j hj (congrArg Prod.fst hij)
  inj := by
    intro e he e' he' hname
    obtain ⟨i, hi, rfl⟩ := List.mem_map.1 he
    obtain ⟨j, hj, rfl⟩ := List.mem_map.1 he'
    rw [h.names_inj d i hi j hj hname]
  name := by
    intro e he
    obtain ⟨i, hi, rfl⟩ := List.mem_map.1 he
    obtain ⟨hne, hused, -⟩ := (h.mem_iff i d).1 hi
    have hvalid := h.names i hne hused
    exact ⟨hvalid.ne_nil, hvalid.no_slash⟩
  shown := by
    have hnames : ∀ i ∈ kids d, (s.nodes i).name.length ≤ Ramfs.FS_NAME_MAX := by
      intro i hi
      obtain ⟨hne, hused, -⟩ := (h.mem_iff i d).1 hi
      exact (h.names i hne hused).length_le
    refine .inl ?_
    have hloop : Ramfs.lsLoop FS_MAX_LIST (s.nodes d).firstChild s =
        (.ok (((kids d).take FS_MAX_LIST).map fun i => (Shell.shown (entryOf s i), (s.nodes i).isDir)), s) := lsLoop_apply (h.chains d) hnames
    rw [Ramfs.ls, bind_ok hpath, bind_ok (gets_apply _ s), require_pos hdir, pure_bind_eq, hloop, ← List.map_take, List.map_map]
    rfl

theorem exists_enumerates (h : Tree s) (path : Option Path) : ∃ es, Enumerates s path es := by
  obtain ⟨kids, h⟩ := h
  rcases h.resolvePath_ends path with ⟨d, s', hpath, rfl, -⟩ | ⟨s', hpath, rfl⟩
  · by_cases hdir : (s'.nodes d).isDir = true
    · exact ⟨_, enumerates_kids h hpath hdir⟩
    · refine ⟨[], .of_none ?_ ?_⟩
      · unfold ramListing
        rw [hpath]
        exact if_neg hdir
      · rw [Ramfs.ls, bind_ok hpath, bind_ok (gets_apply _ s'), require_neg hdir]
        rfl
  · refine ⟨[], .of_none ?_ ?_⟩
    · unfold ramListing
      rw [hpath]
    · rw [Ramfs.ls, bind_fail hpath]

theorem expandToken_ok (h : Tree s) (t : Token) : expandToken s t = .ok (wordsOf s t) := by
  have hok : ∃ words, expandToken s t = .ok words := by
    obtain ⟨es, hes⟩ := exists_enumerates h (some (front t.text).dropLast)
    unfold expandToken
    split_ifs
    · exact ⟨_, rfl⟩
    · rcases hes.shown with hls | ⟨-, hls⟩
      · rw [hls]
        exact ⟨_, rfl⟩
      · rw [hls]
        exact ⟨_, rfl⟩
  obtain ⟨words, hwords⟩ := hok
  unfold wordsOf
  rw [hwords]

end Listings

/-! ### The words for a token -/

section Words

variable {s : Fs} {t : Token} {es : List Entry} {e e' : Entry} {fat : Option Listing} {p token : Text}

theorem front_append_pattern (token : Text) : front token ++ pattern token = token := by
  rw [front, pattern, ← List.reverse_append, List.takeWhile_append_dropWhile, List.reverse_reverse]

theorem slash_not_mem_pattern (token : Text) : ('/' : UInt8) ∉ pattern token := by
  intro h
  have hmem := List.mem_takeWhile_imp (List.mem_reverse.1 h)
  exact absurd rfl (of_decide_eq_true hmem)

theorem stands_self (p : Text) : Stands p p := by
  refine Wild.matches_self wild (fun a b h => ?_) p
  unfold wild at h
  split_ifs at h
  exact Wild.letter.inj h

theorem text_of_short (h : t.bytes.length ≤ TOKEN_MAX) : t.text = t.bytes := List.take_of_length_le h

/-- The directory before the last slash is the one that is listed, but for the root. -/
theorem resolvePath_directory (h : front token = [('/' : UInt8)] → s.cwdNode = 0) :
    Ramfs.resolvePath (directory token) s = Ramfs.resolvePath (some (front token).dropLast) s := by
  unfold directory
  split_ifs with hnil hroot
  · rw [hnil]
    rfl
  · rw [hroot]
    show ((.ok 0, s) : Outcome Slot × Fs) = (.ok s.cwdNode, s)
    rw [h hroot]
  · rfl

theorem ramListing_directory (h : front token = [('/' : UInt8)] → s.cwdNode = 0) :
    ramListing s (directory token) = ramListing s (some (front token).dropLast) := by
  unfold ramListing
  rw [resolvePath_directory h]

theorem isHidden_shown (h : e.1 ≠ []) : isHidden p (shown e) = isHidden p e.1 := by
  obtain ⟨_ | ⟨c, name⟩, isDir⟩ := e
  · exact absurd rfl h
  · rfl

/-- A path names an entry of the directory by the name that a listing shows or by its own. -/
theorem eq_of_shown (he : ('/' : UInt8) ∉ e.1) (he' : ('/' : UInt8) ∉ e'.1)
    (h : shown e = e'.1 ∨ shown e = e'.1 ++ [('/' : UInt8)]) : e.1 = e'.1 := by
  obtain ⟨name, _ | _⟩ := e
  · have hshown : shown (name, false) = name := List.append_nil name
    rw [hshown] at h
    rcases h with h | h
    · exact h
    · exact absurd (h ▸ List.mem_append_right e'.1 List.mem_cons_self) he
  · have hshown : shown (name, true) = name ++ [('/' : UInt8)] := rfl
    rw [hshown] at h
    rcases h with h | h
    · exact absurd (h ▸ List.mem_append_right name List.mem_cons_self) he'
    · exact List.append_cancel_right h

theorem eq_of_forall₂ {α : Type} {R : α → α → Prop} {l l' : List α} (h : List.Forall₂ R l l') (hR : ∀ a ∈ l, ∀ b ∈ l', R a b → a = b) :
    l = l' := by
  induction h with
  | nil => rfl
  | @cons a b l l' hab _ ih =>
    rw [hR a List.mem_cons_self b List.mem_cons_self hab,
      ih fun a ha b hb => hR a (List.mem_cons_of_mem _ ha) b (List.mem_cons_of_mem _ hb)]

/-- The entries that the code takes. -/
def taken (p : Text) (es : List Entry) : List Entry :=
  (es.take FS_MAX_LIST).filter fun e => !isHidden p e.1 && globMatch p (shown e)

theorem mem_taken : e ∈ taken p es ↔ e ∈ es.take FS_MAX_LIST ∧ isHidden p e.1 = false ∧ globMatch p (shown e) = true := by
  rw [taken, List.mem_filter, Bool.and_eq_true, Bool.not_eq_true']

theorem mem_of_taken (h : e ∈ taken p es) : e ∈ es := List.mem_of_mem_take (mem_taken.1 h).1

theorem matching_shown (hes : ∀ e ∈ es, e.1 ≠ []) (token : Text) :
    matching token ((es.take FS_MAX_LIST).map shown) = (taken (pattern token) es).map fun e => front token ++ shown e := by
  unfold matching taken
  rw [List.filter_map, List.map_map]
  congr 1
  refine List.filter_congr fun e he => ?_
  rw [Function.comp_apply, isHidden_shown (hes e (List.mem_of_mem_take he))]

/-- What is written is the token or the entries that the code takes. -/
theorem wordsOf_eq (hglob : t.IsGlob) (hshort : t.bytes.length ≤ TOKEN_MAX) (hes : Enumerates s (some (front t.bytes).dropLast) es) :
    wordsOf s t = if taken (pattern t.bytes) es = [] then [t.bytes]
      else (taken (pattern t.bytes) es).map fun e => front t.bytes ++ shown e := by
  have hnot : ¬ (¬ t.hasGlob = true ∨ t.inQuotes = true) := by
    rintro (h | h)
    · exact h hglob.1
    · rw [hglob.2] at h
      exact Bool.false_ne_true h
  unfold wordsOf expandToken
  rw [if_neg hnot, text_of_short hshort]
  rcases hes.shown with hls | ⟨rfl, hls⟩
  · rw [hls]
    dsimp only
    rw [List.map_map]
    have hwords := matching_shown (fun e he => (hes.name e he).1) t.bytes
    rw [show (Prod.fst ∘ fun e => (shown e, e.2)) = shown from rfl, hwords]
    simp only [List.map_eq_nil_iff]
  · rw [hls]
    rfl

theorem found_iff (hes : Enumerates s (some (front t.bytes).dropLast) es) :
    Found s t e ↔ e ∈ es.take FS_MAX_LIST ∧ globMatch (pattern t.bytes) (shown e) = true := by
  rw [globMatch_iff]
  constructor
  · rintro ⟨⟨names, hnames, he⟩, hstands, hfound⟩
    refine ⟨?_, hstands, hfound⟩
    rcases hes.shown with hls | ⟨-, hls⟩
    · rw [hls] at hnames
      obtain rfl := Outcome.ok.inj hnames
      obtain ⟨e', he', heq⟩ := List.mem_map.1 he
      obtain ⟨hshown, hdir⟩ := Prod.ext_iff.1 heq
      have hname : e'.1 = e.1 := by
        dsimp only at hshown hdir
        unfold shown at hshown
        rw [hdir] at hshown
        exact List.append_cancel_right hshown
      rwa [← Prod.ext hname hdir]
    · rw [hls] at hnames
      exact nomatch hnames
  · rintro ⟨he, hstands, hfound⟩
    refine ⟨?_, hstands, hfound⟩
    rcases hes.shown with hls | ⟨rfl, -⟩
    · exact ⟨_, hls, List.mem_map_of_mem he⟩
    · exact absurd he List.not_mem_nil

section Glob

variable (hes : Enumerates s (some (front t.bytes).dropLast) es) (hroot : front t.bytes = [('/' : UInt8)] → s.cwdNode = 0)

include hes hroot

theorem wanted_iff : Wanted (ramListing s) t e ↔
    t.IsGlob ∧ e ∈ es ∧ isHidden (pattern t.bytes) e.1 = false ∧ Stands (pattern t.bytes) e.1 := by
  rw [hes.mem_iff, ← ramListing_directory hroot]
  constructor
  · rintro ⟨hglob, hlisted, hshown, hstands⟩
    exact ⟨hglob, hlisted, hshown, hstands⟩
  · rintro ⟨hglob, hlisted, hshown, hstands⟩
    exact ⟨hglob, hlisted, hshown, hstands⟩

/-- An entry whose path is the token itself is one that the token stands for. -/
theorem wanted_of_pattern (hglob : t.IsGlob) (h : e ∈ taken (pattern t.bytes) es) (hname : shown e = pattern t.bytes) :
    Wanted (ramListing s) t e := by
  have hmem := mem_of_taken h
  have hslash : ('/' : UInt8) ∉ shown e := by
    rw [hname]
    exact slash_not_mem_pattern t.bytes
  have hbare : shown e = e.1 := by
    obtain ⟨name, _ | _⟩ := e
    · exact List.append_nil name
    · exact absurd (List.mem_append_right name List.mem_cons_self) hslash
  refine (wanted_iff hes hroot).2 ⟨hglob, hmem, (mem_taken.1 h).2.1, ?_⟩
  rw [← hbare, hname]
  exact stands_self _

theorem sees_iff (hglob : t.IsGlob) : Sees s t ↔
    (∀ e, e ∈ taken (pattern t.bytes) es ↔ Wanted (ramListing s) t e) ∧ ∀ e, Wanted (ramListing s) t e → Whole (front t.bytes ++ e.1) := by
  constructor
  · rintro ⟨hfound, hwhole⟩
    refine ⟨fun e => ?_, hwhole⟩
    rw [wanted_iff hes hroot, mem_taken]
    constructor
    · rintro ⟨htake, hhidden, hmatch⟩
      have hmem := List.mem_of_mem_take htake
      obtain ⟨l, hl, hel⟩ := (hes.mem_iff e).1 hmem
      rw [← ramListing_directory hroot] at hl
      exact ⟨hglob, hmem, hhidden, (hfound l hl e hel hhidden).1 ((found_iff hes).2 ⟨htake, hmatch⟩)⟩
    · rintro ⟨-, hmem, hhidden, hstands⟩
      obtain ⟨l, hl, hel⟩ := (hes.mem_iff e).1 hmem
      rw [← ramListing_directory hroot] at hl
      obtain ⟨htake, hmatch⟩ := (found_iff hes).1 ((hfound l hl e hel hhidden).2 hstands)
      exact ⟨htake, hhidden, hmatch⟩
  · rintro ⟨hiff, hwhole⟩
    refine ⟨fun l hl e hel hhidden => ?_, hwhole⟩
    rw [ramListing_directory hroot] at hl
    have hmem := (hes.mem_iff e).2 ⟨l, hl, hel⟩
    have he := hiff e
    rw [wanted_iff hes hroot, mem_taken] at he
    rw [found_iff hes]
    constructor
    · rintro ⟨htake, hmatch⟩
      exact (he.1 ⟨htake, hhidden, hmatch⟩).2.2.2
    · intro hstands
      obtain ⟨htake, -, hmatch⟩ := he.2 ⟨hglob, hmem, hhidden, hstands⟩
      exact ⟨htake, hmatch⟩

theorem spelledOut_iff : SpelledOut s t ↔ taken (pattern t.bytes) es = [] ∧
    (∃ e, (∀ e', Wanted (ramListing s) t e' ↔ e' = e) ∧ e.1 = pattern t.bytes) ∧ Whole t.bytes := by
  constructor
  · rintro ⟨hmissed, honly, hwhole⟩
    refine ⟨List.eq_nil_iff_forall_not_mem.2 fun e he => ?_, honly, hwhole⟩
    obtain ⟨htake, hhidden, hmatch⟩ := mem_taken.1 he
    obtain ⟨l, hl, hel⟩ := (hes.mem_iff e).1 (List.mem_of_mem_take htake)
    rw [← ramListing_directory hroot] at hl
    exact hmissed l hl e hel hhidden ((found_iff hes).2 ⟨htake, hmatch⟩)
  · rintro ⟨hnone, honly, hwhole⟩
    refine ⟨fun l _ e _ hhidden hfound => ?_, honly, hwhole⟩
    obtain ⟨htake, hmatch⟩ := (found_iff hes).1 hfound
    exact List.eq_nil_iff_forall_not_mem.1 hnone e (mem_taken.2 ⟨htake, hhidden, hmatch⟩)

section

variable (hglob : t.IsGlob) (hshort : t.bytes.length ≤ TOKEN_MAX)
include hglob hshort

theorem sees_of_replaces (h : Replaces (ramListing s) t (wordsOf s t)) : Sees s t ∨ SpelledOut s t := by
  rw [sees_iff hes hroot hglob, spelledOut_iff hes hroot]
  have hwords := wordsOf_eq hglob hshort hes
  have hsplit := front_append_pattern t.bytes
  by_cases hnone : taken (pattern t.bytes) es = []
  · rw [if_pos hnone] at hwords
    by_cases hsome : ∃ e, Wanted (ramListing s) t e
    · obtain ⟨es', -, hmem, hall⟩ := h.each hsome
      rw [hwords] at hall
      cases hall with
      | @cons e _ l _ hname hrest =>
        cases hrest
        refine .inr ⟨hnone, ⟨e, fun e' => by rw [← hmem, List.mem_singleton], ?_⟩, hname.whole⟩
        rcases hname.path with hpath | ⟨-, hpath⟩
        · exact (List.append_cancel_left (hsplit.trans hpath)).symm
        · rw [List.append_assoc] at hpath
          have hpattern := List.append_cancel_left (hsplit.trans hpath)
          have hslash := slash_not_mem_pattern t.bytes
          rw [hpattern] at hslash
          exact absurd (List.mem_append_right e.1 List.mem_cons_self) hslash
    · refine .inl ⟨fun e => ?_, fun e he => absurd ⟨e, he⟩ hsome⟩
      rw [hnone]
      exact iff_of_false List.not_mem_nil fun he => hsome ⟨e, he⟩
  · rw [if_neg hnone] at hwords
    have hsome : ∃ e, Wanted (ramListing s) t e := by
      by_contra hno
      have hkept := h.kept fun e he => hno ⟨e, he⟩
      rw [hwords] at hkept
      obtain ⟨e, htaken, hpath⟩ := List.map_eq_singleton_iff.1 hkept
      have he : e ∈ taken (pattern t.bytes) es := by
        rw [htaken]
        exact List.mem_singleton_self e
      have hname : shown e = pattern t.bytes := List.append_cancel_left (hpath.trans hsplit.symm)
      exact hno ⟨e, wanted_of_pattern hes hroot hglob he hname⟩
    obtain ⟨es', -, hmem, hall⟩ := h.each hsome
    rw [hwords, List.forall₂_map_right_iff] at hall
    have hsame : es' = taken (pattern t.bytes) es := by
      refine eq_of_forall₂ hall fun e he e' he' hname => ?_
      have hin := ((wanted_iff hes hroot).1 ((hmem e).1 he)).2.1
      have hin' := mem_of_taken he'
      have hshown : shown e' = e.1 ∨ shown e' = e.1 ++ [('/' : UInt8)] := by
        rcases hname.path with hpath | ⟨-, hpath⟩
        · exact .inl (List.append_cancel_left hpath)
        · rw [List.append_assoc] at hpath
          exact .inr (List.append_cancel_left hpath)
      exact (hes.inj e' hin' e hin (eq_of_shown (hes.name e' hin').2 (hes.name e hin).2 hshown)).symm
    subst hsame
    refine .inl ⟨hmem, fun e he c hc => ?_⟩
    have hname := List.forall₂_same.1 hall e ((hmem e).2 he)
    refine hname.whole c ?_
    unfold shown
    rw [← List.append_assoc]
    exact List.mem_append_left _ hc

theorem replaces_of_sees (h : Sees s t) : Replaces (ramListing s) t (wordsOf s t) := by
  obtain ⟨hiff, hwhole⟩ := (sees_iff hes hroot hglob).1 h
  have hwords := wordsOf_eq hglob hshort hes
  constructor
  · intro hno
    rw [hwords, if_pos (List.eq_nil_iff_forall_not_mem.2 fun e he => hno e ((hiff e).1 he))]
  · rintro ⟨e, he⟩
    have hne : taken (pattern t.bytes) es ≠ [] := List.ne_nil_of_mem ((hiff e).2 he)
    refine ⟨taken (pattern t.bytes) es, (hes.nodup.sublist (List.take_sublist _ _)).filter _, hiff, ?_⟩
    rw [hwords, if_neg hne, List.forall₂_map_right_iff, List.forall₂_same]
    intro e he
    have hplain := hwhole e ((hiff e).1 he)
    obtain ⟨name, _ | _⟩ := e
    · have hshown : shown (name, false) = name := List.append_nil name
      rw [hshown]
      exact ⟨.inl rfl, hplain⟩
    · refine ⟨.inr ⟨rfl, (List.append_assoc _ _ _).symm⟩, fun c hc => ?_⟩
      rcases List.mem_append.1 ((List.append_assoc _ name [('/' : UInt8)]).symm ▸ hc) with hc | hc
      · exact hplain c hc
      · rw [List.mem_singleton.1 hc]
        decide

theorem replaces_of_spelledOut (h : SpelledOut s t) : Replaces (ramListing s) t (wordsOf s t) := by
  obtain ⟨hnone, ⟨e, honly, hname⟩, hwhole⟩ := (spelledOut_iff hes hroot).1 h
  have hwords := wordsOf_eq hglob hshort hes
  rw [if_pos hnone] at hwords
  constructor
  · exact fun hno => absurd ((honly e).2 rfl) (hno e)
  · intro _
    refine ⟨[e], List.nodup_singleton e, fun e' => by rw [List.mem_singleton, honly], ?_⟩
    rw [hwords]
    refine .cons ⟨.inl ?_, hwhole⟩ .nil
    rw [hname, front_append_pattern]

end

end Glob

/-- A token is replaced by what it stands for just where the listing and the matcher see that. -/
theorem replaces_iff (h : Tree s) (hdirect : t.IsGlob → Direct s fat t) : Replaces (acts s fat) t (wordsOf s t) ↔ Clean s t := by
  by_cases hglob : t.IsGlob
  · obtain ⟨hshort, rfl, hroot⟩ := hdirect hglob
    obtain ⟨es, hes⟩ := exists_enumerates h (some (front t.bytes).dropLast)
    constructor
    · exact fun hr => ⟨hshort, fun _ => sees_of_replaces hes hroot hglob hshort hr⟩
    · rintro ⟨-, hclean⟩
      rcases hclean hglob with hsees | hspelled
      · exact replaces_of_sees hes hroot hglob hshort hsees
      · exact replaces_of_spelledOut hes hroot hglob hshort hspelled
  · have hplain : ¬ t.hasGlob = true ∨ t.inQuotes = true := by
      by_contra hno
      obtain ⟨hhas, hquotes⟩ := not_or.1 hno
      exact hglob ⟨not_not.1 hhas, Bool.eq_false_of_not_eq_true hquotes⟩
    have hwords : wordsOf s t = [t.text] := by
      unfold wordsOf expandToken
      rw [if_pos hplain]
    have hnone : ∀ e, ¬ Wanted (acts s fat) t e := fun e he => hglob he.glob
    rw [hwords]
    constructor
    · intro hr
      refine ⟨?_, fun hg => absurd hg hglob⟩
      have hlen := congrArg List.length (List.singleton_inj.1 (hr.kept hnone))
      rw [Token.text, List.length_take] at hlen
      omega
    · rintro ⟨hshort, -⟩
      rw [text_of_short hshort]
      exact ⟨fun _ => rfl, fun ⟨e, he⟩ => absurd he (hnone e)⟩

end Words

/-- The matcher is right but for stars at the end, and, where the directory that a wildcard token
names is the one that is listed, a line is expanded as it should be just if each token is. -/
theorem globs_iff {s : Fs} (h : Tree s) (fat : Option Listing) (line : Text) (hdirect : ∀ p ∈ tokens line, p.2.IsGlob → Direct s fat p.2) :
    (∀ pattern name, (globMatch pattern name = true ↔ Stands pattern name) ↔ ¬ Slips pattern name) ∧
      (Expanded s fat line ↔ CleanLine s line) := by
  constructor
  · intro pattern name
    rw [globMatch_iff]
    refine ⟨fun hiff hslips => (hiff.2 (stands_of_slips hslips)).2 hslips, fun hslips => and_iff_left hslips⟩
  · constructor
    · exact fun hexpanded p hp => (replaces_iff h (hdirect p hp)).1 (hexpanded.replaced p hp)
    · intro hclean
      refine ⟨tokensLoop_spelled (Nat.lt_succ_self _), fun size => ?_, fun p hp => (replaces_iff h (hdirect p hp)).2 (hclean p hp)⟩
      exact globLoop_eq (expandToken_ok h) (Nat.lt_succ_self _)

/-- The line `ls *` -/
def listAll : Text := [('l' : UInt8), ('s' : UInt8), (' ' : UInt8), ('*' : UInt8)]

theorem globs_listAll : Expanded Ramfs.touched none listAll ↔ CleanLine Ramfs.touched listAll := by
  refine (globs_iff Ramfs.wellFormed_touched.tree none listAll fun p hp _ => ?_).2
  have htokens : tokens listAll = [([], ⟨[('l' : UInt8), ('s' : UInt8)], false, false⟩), ([(' ' : UInt8)], ⟨[('*' : UInt8)], true, false⟩)] := rfl
  rw [htokens] at hp
  rcases List.mem_cons.1 hp with rfl | hp
  · exact ⟨by decide, rfl, fun h => absurd h (by decide)⟩
  · obtain rfl := List.mem_singleton.1 hp
    exact ⟨by decide, rfl, fun h => absurd h (by decide)⟩

/-- `a**` is not taken for `a`. -/
theorem not_globs : ¬ (globMatch [('a' : UInt8), ('*' : UInt8), ('*' : UInt8)] [('a' : UInt8)] = true ↔
    Stands [('a' : UInt8), ('*' : UInt8), ('*' : UInt8)] [('a' : UInt8)]) := by
  intro h
  have hstands : Stands [('a' : UInt8), ('*' : UInt8), ('*' : UInt8)] [('a' : UInt8)] := .letter _ (.many [] (.many [] .nil))
  exact absurd (h.2 hstands) (by decide)

end Tg11Kernel.Shell
