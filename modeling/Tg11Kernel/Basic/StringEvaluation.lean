import Tg11Kernel.Basic.StringTrees
import Tg11Kernel.Basic.Evaluation

/-! The value of a printed string tree. The string parser reads any text that prints a
tree to its end and returns the text that the tree yields; an operand is read by its
rule and the operands of `+` by a loop, so that what holds of a text is that the loop goes
on after it with its value. -/

namespace Tg11Kernel.Basic

open Lib Lib.Exec

variable {s : Interp} {n : ℕ} {p : Parsers} {src text rest : Text}

/-! ### Numbers as the source has them -/

theorem toInt_zero : (0 : Int32).toInt = 0 := rfl

theorem toInt_ofNat_of_lt {m : ℕ} (hm : m < 2 ^ 31) : (Int32.ofNat m).toInt = m := by
  have hsize : Int32.size = 2 ^ 32 := rfl
  rw [Int32.toInt_ofNat', hsize, Int.bmod_eq_of_le (by omega) (by omega)]

/-- A negative number counts as 0. -/
theorem toNat_nonneg (v : Int32) : (if v < 0 then 0 else v).toInt.toNat = v.toInt.toNat := by
  split_ifs with hneg
  · rw [Int32.lt_iff_toInt_lt, toInt_zero] at hneg
    rw [toInt_zero]
    omega
  · rfl

theorem clampCount_eq (src : Text) (count : Int32) : clampCount src count = clamped src count.toInt := by
  unfold clampCount clamped
  simp only [toNat_nonneg]
  split_ifs <;> omega

theorem clamped_le (src : Text) (count : ℤ) : clamped src count ≤ src.length := by
  unfold clamped
  omega

theorem leftOf_eq (h : src.length < BASIC_MAX_STRING_LEN) (count : Int32) : leftOf src count = leftPart src count.toInt := by
  unfold leftOf leftPart
  have hle := clamped_le src count.toInt
  rw [clampCount_eq, List.take_of_length_le]
  rw [List.length_take]
  omega

theorem rightOf_eq (h : src.length < BASIC_MAX_STRING_LEN) (count : Int32) : rightOf src count = rightPart src count.toInt := by
  unfold rightOf rightPart
  rw [clampCount_eq, List.take_of_length_le]
  rw [List.length_drop]
  omega

/-- The place before a start, which is at least 1. -/
theorem toNat_start (v : Int32) : ((if v < 1 then 1 else v) - 1).toInt.toNat = (max v.toInt 1 - 1).toNat := by
  have hone : (1 : Int32).toInt = 1 := rfl
  have hlt := v.toInt_lt
  split_ifs with hstart
  · rw [Int32.lt_iff_toInt_lt, hone] at hstart
    rw [Int32.sub_self, toInt_zero]
    omega
  · rw [Int32.lt_iff_toInt_lt, hone] at hstart
    rw [Int32.toInt_sub, hone, Int.bmod_eq_of_le (by omega) (by omega)]
    omega

theorem midOf_eq (h : src.length < BASIC_MAX_STRING_LEN) (start length : Int32) :
    midOf src start length = (midPart src start.toInt).take length.toInt.toNat := by
  unfold midOf midPart
  simp only [toNat_nonneg, toNat_start]
  rw [List.take_of_length_le]
  rw [List.length_take, List.length_drop]
  omega

/-- Without a length the rest of the text is taken. -/
theorem midOf_rest (h : src.length < BASIC_MAX_STRING_LEN) (start : Int32) :
    midOf src start (Int32.ofNat BASIC_MAX_STRING_LEN) = midPart src start.toInt := by
  rw [midOf_eq h, List.take_of_length_le]
  have hlength : (Int32.ofNat BASIC_MAX_STRING_LEN).toInt.toNat = BASIC_MAX_STRING_LEN := rfl
  rw [hlength, midPart, List.length_drop]
  omega

theorem length_revDigits_le (room : ℕ) (u : UInt32) : (revDigits room u).length ≤ room := by
  induction room generalizing u with
  | zero => exact Nat.le_refl _
  | succ room ih =>
    unfold revDigits
    split_ifs
    · exact Nat.zero_le _
    · exact Nat.succ_le_succ (ih _)

theorem revDigits_reverse (room : ℕ) {u : UInt32} (hu : u ≠ 0) (hroom : u.toNat < 10 ^ room) :
    (revDigits room u).reverse = decimal u.toNat := by
  induction room generalizing u with
  | zero =>
    refine absurd (UInt32.toNat_inj.1 ?_) hu
    rw [UInt32.toNat_zero]
    simpa using hroom
  | succ room ih =>
    have hten : (10 : UInt32).toNat = 10 := rfl
    have hdigit : (u % 10).toUInt8 = UInt8.ofNat (u.toNat % 10) := by
      have hmod : (u % 10).toNat = u.toNat % 10 := by rw [UInt32.toNat_mod, hten]
      rw [← hmod]
      rfl
    have hquotient : (u / 10).toNat = u.toNat / 10 := by rw [UInt32.toNat_div, hten]
    rw [revDigits, if_neg hu, List.reverse_cons, decimal, hdigit]
    split_ifs with hsmall
    · have hzero : u / 10 = 0 := by
        apply UInt32.toNat_inj.1
        rw [hquotient, UInt32.toNat_zero]
        omega
      have hnone : revDigits room 0 = [] := by cases room <;> rfl
      rw [hzero, hnone, Nat.mod_eq_of_lt hsmall]
      rfl
    · have hne : u / 10 ≠ 0 := by
        intro hzero
        rw [hzero, UInt32.toNat_zero] at hquotient
        omega
      rw [ih hne (by rw [hquotient]; rw [Nat.pow_succ] at hroom; omega), hquotient]

/-- The 32 bits of a number. -/
theorem toInt_eq_toNat (v : Int32) :
    v.toInt = if v.toUInt32.toNat < 2 ^ 31 then (v.toUInt32.toNat : ℤ) else v.toUInt32.toNat - 2 ^ 32 := by
  have hbits : v.toInt = (v.toUInt32.toNat : ℤ).bmod (2 ^ 32) := BitVec.toInt_eq_toNat_bmod _
  have hsize : v.toUInt32.toNat < 2 ^ 32 := v.toUInt32.toNat_lt
  rw [hbits, Int.bmod_def]
  split_ifs <;> omega

/-- The magnitude fits, also of the least number. -/
theorem numeral_eq {room : ℕ} (hroom : 10 ≤ room) (v : Int32) : numeral room v = signedDecimal v.toInt := by
  have hbits := toInt_eq_toNat v
  have hsize : v.toUInt32.toNat < 2 ^ 32 := v.toUInt32.toNat_lt
  have hten : (2 : ℕ) ^ 32 ≤ 10 ^ room := le_trans (by decide) (Nat.pow_le_pow_right (by decide) hroom)
  unfold numeral signedDecimal
  by_cases hzero : v = 0
  · subst hzero
    rw [if_pos rfl, if_neg (by decide)]
    decide +kernel
  · have hpos : v.toUInt32.toNat ≠ 0 := by
      intro hw
      rw [hw] at hbits
      exact hzero (Int32.toInt_inj.1 hbits)
    have hne : v.toUInt32 ≠ 0 := by
      intro hw
      rw [hw] at hpos
      exact hpos rfl
    rw [if_neg hzero]
    simp only [Int32.lt_iff_toInt_lt, toInt_zero]
    split_ifs with hneg
    · have hmagnitude : (-v).toUInt32.toNat = v.toInt.natAbs := by
        rw [Int32.toUInt32_neg, UInt32.toNat_neg, show UInt32.size = 2 ^ 32 from rfl]
        omega
      have hneg' : (-v).toUInt32 ≠ 0 := by
        intro hw
        rw [hw, UInt32.toNat_zero] at hmagnitude
        omega
      rw [revDigits_reverse room hneg' (by omega), hmagnitude]
    · have hmagnitude : v.toUInt32.toNat = v.toInt.natAbs := by omega
      rw [revDigits_reverse room hne (by omega), hmagnitude]

theorem intToText_eq (v : Int32) : intToText v = signedDecimal v.toInt := numeral_eq (by decide) v

theorem length_intToText_le (v : Int32) : (intToText v).length ≤ 17 := by
  have hneg := length_revDigits_le 16 (-v).toUInt32
  have hpos := length_revDigits_le 16 v.toUInt32
  unfold intToText numeral
  split_ifs
  · show 1 ≤ 17
    omega
  · rw [List.length_cons, List.length_reverse]
    omega
  · rw [List.length_reverse]
    omega

/-- The code is below 256, so that its low byte is the code. -/
theorem chrOf_eq {v : Int32} (hcode : 1 ≤ v.toInt ∧ v.toInt ≤ 255) : chrOf v = [UInt8.ofNat v.toInt.toNat] := by
  have hsmall : ∀ k : Fin 256, k.val ≠ 0 → chrOf (Int32.ofNat k) = [UInt8.ofNat k] := by decide +kernel
  have hv : v = Int32.ofNat v.toInt.toNat := by
    rw [← Int32.toInt_inj, toInt_ofNat_of_lt (by omega)]
    omega
  have hchr := hsmall ⟨v.toInt.toNat, by omega⟩ (show v.toInt.toNat ≠ 0 by omega)
  rw [← hv] at hchr
  exact hchr

/-! ### Calls -/

theorem startsWithCi_self (word u : Text) : startsWithCi (word ++ u) word = true := by
  induction word with
  | nil => cases u <;> rfl
  | cons c word ih => simp [startsWithCi, peek, ih]

variable {word a b u x : Text} {c : UInt8} {e : ExprTree} {t : StrTree}

theorem callsBuiltin_word (ha : Blanks a) (u : Text) :
    callsBuiltin (word ++ (a ++ ('(' : UInt8) :: u)) word = true := by
  have htail : isIdentTail (peek (a ++ ('(' : UInt8) :: u)) = false := by
    cases a with
    | nil => rfl
    | cons c a => exact (isIdentTail_of_isSpace (ha c (by simp))).1
  rw [callsBuiltin, nameMatchesCi, startsWithCi_self, List.drop_left, htail, skipSpaces_byte ha (by decide)]
  rfl

/-- What follows an argument. -/
def EndsArg (c : UInt8) : Prop := c = (')' : UInt8) ∨ c = (',' : UInt8)

theorem EndsArg.stops (h : EndsArg c) (hb : Blanks b) (rest : Text) :
    skipSpaces (b ++ c :: rest) = c :: rest ∧ StopsExpr (b ++ c :: rest) := by
  have hbyte : isSpace c = false ∧ c ≠ '(' ∧ isIdentTail c = false ∧ c ≠ '$' := by
    rcases h with rfl | rfl <;> decide
  have hskip := skipSpaces_byte hb hbyte.1 rest
  have hfollow : Follow (b ++ c :: rest) := Follow.blanks hb hbyte.1 hbyte.2.1 fun _ => hbyte.2.2
  refine ⟨hskip, ⟨hfollow, ?_⟩, ?_⟩
  · rw [hskip]
    rcases h with rfl | rfl <;> rfl
  · rw [hskip]
    rcases h with rfl | rfl <;> rfl

/-- A number as an argument. -/
theorem expr_reads {v : Int32} (hu : Prints .expr e u) (ha : Blanks a) (hb : Blanks b)
    (hc : EndsArg c) (hn : u.length + 1 < n) (hv : e.eval s.vars = .ok v) (rest : Text) :
    ∃ h, (parsers n).expr (a ++ (u ++ (b ++ c :: rest))) s = (.ok (v, c :: rest), { s with history := h }) := by
  obtain ⟨hskip, hstops⟩ := hc.stops hb rest
  have hread := expr_stops hu ha hstops hn hv
  rwa [hskip] at hread

/-- A number in parentheses. -/
theorem parenExpr_reads {c : Text} {v : Int32} (ha : Blanks a) (hb : Blanks b) (hu : Prints .expr e u)
    (hc : Blanks c) (hn : u.length + 1 < n) (hv : e.eval s.vars = .ok v) (rest : Text) :
    ∃ h, parseBuiltinParenExpr (parsers n) (a ++ ('(' : UInt8) :: (b ++ (u ++ (c ++ (')' : UInt8) :: rest)))) s =
      (.ok (v, rest), { s with history := h }) := by
  obtain ⟨h, hread⟩ := expr_reads hu hb hc (.inl rfl) hn hv rest
  refine ⟨h, ?_⟩
  unfold parseBuiltinParenExpr
  rw [expect_byte ha (by decide), pure_bind_eq, bind_ok hread]
  show (expect (')' : UInt8) ([] ++ (')' : UInt8) :: rest) >>= fun s => pure (v, s)) _ = _
  rw [expect_byte .nil (by decide)]
  rfl

/-! ### The loop over the operands -/

/-- What the loop does after it has joined an operand. -/
def afterPart (p : Parsers) (k : ℕ) (out s : Text) : M (Text × Text) :=
  if peek (skipSpaces s) = ('+' : UInt8) then stringLoop p k out (skipSpaces s).tail else pure (out, skipSpaces s)

theorem stringLoop_skipSpaces (k : ℕ) (out text : Text) : stringLoop p k out (skipSpaces text) = stringLoop p k out text := by
  cases k with
  | zero => rfl
  | succ k =>
    unfold stringLoop
    rw [skipSpaces_skipSpaces]

/-- An operand is joined where the buffer has room for it. -/
theorem stringLoop_part {k : ℕ} {out v rest : Text} {t : Interp} (hpart : parseStringPart p (skipSpaces text) s = (.ok (v, rest), t))
    (hfits : (out ++ v).length < BASIC_MAX_STRING_LEN) : stringLoop p (k + 1) out text s = afterPart p k (out ++ v) rest t := by
  have hcut : (out ++ v).take (BASIC_MAX_STRING_LEN - 1) = out ++ v := List.take_of_length_le (by omega)
  unfold stringLoop
  rw [bind_ok hpart]
  simp only [hcut]
  rfl

/-- What the parser of a level does with a printed tree. -/
def StrMeans : StrLevel → StrTree → Text → Prop
  | .part, t, text => ∀ (n : ℕ) (s : Interp) (rest v : Text), text.length < n → peek (skipSpaces rest) ≠ ('(' : UInt8) →
      t.Yields s.vars s.strVars v →
      ∃ h, parseStringPart (parsers n) (text ++ rest) s = (.ok (v, rest), { s with history := h })
  | .sum, t, text => ∀ (n k : ℕ) (s : Interp) (out a rest v : Text), text.length < n → text.length ≤ k → Blanks a →
      peek (skipSpaces rest) ≠ ('(' : UInt8) → t.Yields s.vars s.strVars v → (out ++ v).length < BASIC_MAX_STRING_LEN →
      ∃ j h, k ≤ j + text.length ∧
        stringLoop (parsers n) k out (a ++ (text ++ rest)) s = afterPart (parsers n) j (out ++ v) rest { s with history := h }

theorem StrTree.Yields.length_lt {vars : Letter → Int32} {strVars : Letter → Text} {v : Text}
    (h : t.Yields vars strVars v) : v.length < BASIC_MAX_STRING_LEN := by
  induction h with
  | lit hfits => exact hfits
  | var hfits => exact hfits
  | cat _ _ hfits => exact hfits
  | @side d _ _ x k _ _ ih =>
    cases d with
    | left => exact (List.take_sublist _ _).length_le.trans_lt ih
    | right => exact (List.drop_sublist _ _).length_le.trans_lt ih
  | mid _ _ ih => exact (List.drop_sublist _ _).length_le.trans_lt ih
  | midLength _ _ _ ih => exact (List.take_sublist _ _).length_le.trans_lt ((List.drop_sublist _ _).length_le.trans_lt ih)
  | @str _ v _ =>
    rw [← intToText_eq]
    exact (length_intToText_le v).trans_lt (by decide)
  | chr => exact (show 1 < BASIC_MAX_STRING_LEN by decide)

/-- A whole string expression as an argument. -/
theorem StrMeans.reads {v : Text} (h : StrMeans .sum t text) (hn : text.length + 1 < n) (ha : Blanks a)
    (hparen : peek (skipSpaces rest) ≠ ('(' : UInt8)) (hplus : peek (skipSpaces rest) ≠ ('+' : UInt8))
    (hv : t.Yields s.vars s.strVars v) :
    ∃ h, (parsers n).stringExpr (a ++ (text ++ rest)) s = (.ok (v, skipSpaces rest), { s with history := h }) := by
  obtain ⟨n, rfl⟩ : ∃ m, n = m + 1 := ⟨n - 1, by omega⟩
  obtain ⟨j, h, -, hloop⟩ := h n (n + 1) s [] a rest v (by omega) (by omega) ha hparen hv hv.length_lt
  refine ⟨h, ?_⟩
  show stringLoop (parsers n) (n + 1) [] (skipSpaces _) s = _
  rw [stringLoop_skipSpaces, hloop, afterPart, if_neg hplus]
  rfl

/-! ### The operands -/

/-- What begins with a letter is a call or a variable. -/
theorem parseStringPart_letter (ha : isAlpha (peek text) = true) : parseStringPart p text =
    if callsBuiltin text (chars "CHR$") then parseChr p (text.drop 4)
    else if callsBuiltin text (chars "STR$") then parseStr p (text.drop 4)
    else if callsBuiltin text (chars "MID$") then parseMid p (text.drop 4)
    else if callsBuiltin text (chars "LEFT$") then parseSide p leftOf (text.drop 5)
    else if callsBuiltin text (chars "RIGHT$") then parseSide p rightOf (text.drop 6)
    else parseStrVar text := by
  have hquote : peek text ≠ '"' := by
    intro h
    rw [h] at ha
    exact absurd ha (by decide)
  unfold parseStringPart
  rw [if_neg hquote, if_pos ha]

section Words

variable {a : Text}

theorem parseStringPart_chr (ha : Blanks a) (u : Text) :
    parseStringPart p (chars "CHR$" ++ (a ++ ('(' : UInt8) :: u)) = parseChr p (a ++ ('(' : UInt8) :: u) := by
  rw [parseStringPart_letter (by rfl), if_pos (callsBuiltin_word ha u)]
  rfl

theorem parseStringPart_str (ha : Blanks a) (u : Text) :
    parseStringPart p (chars "STR$" ++ (a ++ ('(' : UInt8) :: u)) = parseStr p (a ++ ('(' : UInt8) :: u) := by
  rw [parseStringPart_letter (by rfl), if_neg (show ¬ callsBuiltin (chars "STR$" ++ _) (chars "CHR$") = true from Bool.false_ne_true), if_pos (callsBuiltin_word ha u)]
  rfl

theorem parseStringPart_mid (ha : Blanks a) (u : Text) :
    parseStringPart p (chars "MID$" ++ (a ++ ('(' : UInt8) :: u)) = parseMid p (a ++ ('(' : UInt8) :: u) := by
  rw [parseStringPart_letter (by rfl), if_neg (show ¬ callsBuiltin (chars "MID$" ++ _) (chars "CHR$") = true from Bool.false_ne_true),
    if_neg (show ¬ callsBuiltin (chars "MID$" ++ _) (chars "STR$") = true from Bool.false_ne_true), if_pos (callsBuiltin_word ha u)]
  rfl

/-- The substring that the source takes. -/
def Side.take : Side → Text → Int32 → Text
  | .left => leftOf
  | .right => rightOf

theorem Side.take_eq (d : Side) (h : src.length < BASIC_MAX_STRING_LEN) (count : Int32) : d.take src count = d.part src count.toInt := by
  cases d with
  | left => exact leftOf_eq h count
  | right => exact rightOf_eq h count

theorem parseStringPart_side (d : Side) (ha : Blanks a) (u : Text) :
    parseStringPart p (d.word ++ (a ++ ('(' : UInt8) :: u)) = parseSide p d.take (a ++ ('(' : UInt8) :: u) := by
  cases d with
  | left =>
    show parseStringPart p (chars "LEFT$" ++ _) = _
    rw [parseStringPart_letter (by rfl), if_neg (show ¬ callsBuiltin (chars "LEFT$" ++ _) (chars "CHR$") = true from Bool.false_ne_true),
      if_neg (show ¬ callsBuiltin (chars "LEFT$" ++ _) (chars "STR$") = true from Bool.false_ne_true),
      if_neg (show ¬ callsBuiltin (chars "LEFT$" ++ _) (chars "MID$") = true from Bool.false_ne_true), if_pos (callsBuiltin_word ha u)]
    rfl
  | right =>
    show parseStringPart p (chars "RIGHT$" ++ _) = _
    rw [parseStringPart_letter (by rfl), if_neg (show ¬ callsBuiltin (chars "RIGHT$" ++ _) (chars "CHR$") = true from Bool.false_ne_true),
      if_neg (show ¬ callsBuiltin (chars "RIGHT$" ++ _) (chars "STR$") = true from Bool.false_ne_true),
      if_neg (show ¬ callsBuiltin (chars "RIGHT$" ++ _) (chars "MID$") = true from Bool.false_ne_true),
      if_neg (show ¬ callsBuiltin (chars "RIGHT$" ++ _) (chars "LEFT$") = true from Bool.false_ne_true), if_pos (callsBuiltin_word ha u)]
    rfl

end Words

/-- A word of letters and the `$` after it end where the identifier ends. -/
theorem skipIdent_eq_drop (hword : ∀ c ∈ word, isAlpha c = true)
    (h : startsWithCi text (word ++ [('$' : UInt8)]) = true) : skipIdent text = text.drop word.length := by
  induction word generalizing text with
  | nil =>
    simp only [List.nil_append, startsWithCi, Bool.and_true, decide_eq_true_eq] at h
    exact dropWhile_stops (by rw [eq_dollar_of_up h]; decide)
  | cons c word ih =>
    simp only [List.cons_append, startsWithCi, Bool.and_eq_true, decide_eq_true_eq] at h
    have ha := isAlpha_of_up h.1 (hword c (List.mem_cons_self ..))
    cases text with
    | nil => exact absurd ha (by decide)
    | cons d text =>
      rw [skipIdent, List.dropWhile_cons_of_pos (isIdentTail_of_isAlpha (show isAlpha d = true from ha))]
      exact ih (fun e he => hword e (List.mem_cons_of_mem _ he)) h.2

section Variable

variable {c : UInt8} {name : Text} (hc : isAlpha c = true) (hname : ∀ d ∈ name, isIdentTail d = true)

include hc hname

/-- A string variable is no call, also where it has the name of a function. -/
theorem not_callsBuiltin_var {word : Text} (hword : ∀ d ∈ word, isAlpha d = true) (hparen : peek (skipSpaces rest) ≠ ('(' : UInt8)) :
    ¬ callsBuiltin (c :: (name ++ ('$' : UInt8) :: rest)) (word ++ [('$' : UInt8)]) = true := by
  intro hcall
  have hident : skipIdent (c :: (name ++ ('$' : UInt8) :: rest)) = ('$' : UInt8) :: rest := by
    rw [skipIdent, List.dropWhile_cons_of_pos (isIdentTail_of_isAlpha hc), List.dropWhile_append_of_pos hname]
    exact dropWhile_stops (show isIdentTail ('$' : UInt8) = false by decide)
  unfold callsBuiltin nameMatchesCi at hcall
  simp only [Bool.and_eq_true, decide_eq_true_eq] at hcall
  obtain ⟨⟨hstart, -⟩, hopen⟩ := hcall
  have hdrop := skipIdent_eq_drop hword hstart
  rw [hident] at hdrop
  rw [List.length_append, ← List.drop_drop, ← hdrop] at hopen
  exact hparen hopen

theorem parseVarRef_dollar : parseVarRef (c :: (name ++ ('$' : UInt8) :: rest)) = some (letterOf c, true, rest) := by
  have hskip : skipSpaces (c :: (name ++ ('$' : UInt8) :: rest)) = c :: (name ++ ('$' : UInt8) :: rest) :=
    skipSpaces_of_not_isSpace (not_isSpace_of_isAlpha hc)
  have hident : skipIdent (name ++ ('$' : UInt8) :: rest) = ('$' : UInt8) :: rest := by
    rw [skipIdent, List.dropWhile_append_of_pos hname]
    exact dropWhile_stops (show isIdentTail ('$' : UInt8) = false by decide)
  unfold parseVarRef
  rw [hskip]
  show (if isAlpha c = true then if peek (skipIdent (name ++ _)) = ('$' : UInt8) then _ else _ else _) = _
  rw [if_pos hc, hident, if_pos (by rfl)]
  show some (letterOf c, true, (skipIdent (name ++ _)).tail) = _
  rw [hident]
  rfl

theorem parseStringPart_var (hparen : peek (skipSpaces rest) ≠ ('(' : UInt8)) (s : Interp) :
    parseStringPart p (c :: (name ++ ('$' : UInt8) :: rest)) s =
      (.ok (copyString BASIC_MAX_STRING_LEN (s.strVars (letterOf c)), rest), s) := by
  have hnot : ∀ whole word : Text, whole = word ++ [('$' : UInt8)] → (∀ d ∈ word, isAlpha d = true) →
      ¬ callsBuiltin (c :: (name ++ ('$' : UInt8) :: rest)) whole = true := by
    rintro _ word rfl hword
    exact not_callsBuiltin_var hc hname hword hparen
  rw [parseStringPart_letter (show isAlpha (peek (c :: _)) = true from hc), if_neg (hnot (chars "CHR$") (chars "CHR") rfl (by decide +kernel)),
    if_neg (hnot (chars "STR$") (chars "STR") rfl (by decide +kernel)), if_neg (hnot (chars "MID$") (chars "MID") rfl (by decide +kernel)),
    if_neg (hnot (chars "LEFT$") (chars "LEFT") rfl (by decide +kernel)), if_neg (hnot (chars "RIGHT$") (chars "RIGHT") rfl (by decide +kernel))]
  unfold parseStrVar
  rw [parseVarRef_dollar hc hname]
  rfl

end Variable

theorem parseStringPart_lit {t : Quoted} (hfits : t.val.length < BASIC_MAX_STRING_LEN) (rest : Text) :
    parseStringPart p (('"' : UInt8) :: (t ++ ('"' : UInt8) :: rest)) = pure (t.val, rest) := by
  have hquote : ∀ d ∈ t.val, decide (d ≠ ('"' : UInt8)) = true := fun d hd => by simpa using (t.property d hd).1
  have htake : (t ++ ('"' : UInt8) :: rest).takeWhile (· ≠ ('"' : UInt8)) = t := by
    rw [List.takeWhile_append_of_pos hquote, takeWhile_stops (by rfl), List.append_nil]
  have hdrop : (t ++ ('"' : UInt8) :: rest).dropWhile (· ≠ ('"' : UInt8)) = ('"' : UInt8) :: rest := by
    rw [List.dropWhile_append_of_pos hquote, dropWhile_stops (by rfl)]
  unfold parseStringPart parseStringLiteral
  rw [if_pos (by rfl), skipSpaces_of_not_isSpace (by rfl)]
  simp only [peek, List.headD_cons, List.tail_cons, if_pos, htake, hdrop,
    List.take_of_length_le (show t.val.length ≤ BASIC_MAX_STRING_LEN - 1 by omega), ofOption_some]

theorem called_append (word a inside rest : Text) :
    called word a inside ++ rest = word ++ (a ++ ('(' : UInt8) :: (inside ++ (')' : UInt8) :: rest)) := by
  simp [called]

theorem length_called (word a inside : Text) : (called word a inside).length = word.length + a.length + inside.length + 2 := by
  simp [called]
  omega

theorem Spells.start (h : Spells .part t x) : ∃ c u, x = c :: u ∧ isSpace c = false := by
  cases h with
  | lit => exact ⟨_, _, rfl, by decide⟩
  | var hc => exact ⟨_, _, rfl, not_isSpace_of_isAlpha hc⟩
  | @side d => cases d <;> exact ⟨_, _, rfl, by decide⟩
  | mid => exact ⟨_, _, rfl, by decide⟩
  | midLength => exact ⟨_, _, rfl, by decide⟩
  | str => exact ⟨_, _, rfl, by decide⟩
  | chr => exact ⟨_, _, rfl, by decide⟩

section Means

variable {t l r : StrTree} {e start length : ExprTree} {a b c d f g x y u w : Text}

theorem StrMeans.lit {t : Quoted} : StrMeans .part (.lit t) (('"' : UInt8) :: (t ++ [('"' : UInt8)])) := by
  intro n s rest v _ _ hv
  cases hv with
  | lit hfits =>
    refine ⟨s.history, ?_⟩
    simp only [List.cons_append, List.append_assoc, List.nil_append]
    rw [parseStringPart_lit hfits]
    rfl

theorem StrMeans.var {c : UInt8} {name : Text} (hc : isAlpha c = true) (hname : ∀ d ∈ name, isIdentTail d = true) :
    StrMeans .part (.var (letterOf c)) (c :: (name ++ [('$' : UInt8)])) := by
  intro n s rest v _ hparen hv
  cases hv with
  | var hfits =>
    refine ⟨s.history, ?_⟩
    simp only [List.cons_append, List.append_assoc, List.nil_append]
    rw [parseStringPart_var hc hname hparen, copyString, List.take_of_length_le (by omega)]

theorem StrMeans.chr (ha : Blanks a) (hb : Blanks b) (hu : Prints .expr e u) (hc : Blanks c) :
    StrMeans .part (.chr e) (called (chars "CHR$") a (b ++ (u ++ c))) := by
  intro n s rest v hn _ hv
  cases hv with
  | chr hv hcode =>
    rw [length_called, List.length_append, List.length_append] at hn
    obtain ⟨h, hread⟩ := parenExpr_reads ha hb hu hc (show u.length + 1 < n by omega) hv rest
    refine ⟨h, ?_⟩
    rw [called_append, parseStringPart_chr ha, List.append_assoc, List.append_assoc]
    unfold parseChr
    rw [bind_ok hread, ← chrOf_eq hcode]
    rfl

theorem StrMeans.str (ha : Blanks a) (hb : Blanks b) (hu : Prints .expr e u) (hc : Blanks c) :
    StrMeans .part (.str e) (called (chars "STR$") a (b ++ (u ++ c))) := by
  intro n s rest v hn _ hv
  cases hv with
  | str hv =>
    rw [length_called, List.length_append, List.length_append] at hn
    obtain ⟨h, hread⟩ := parenExpr_reads ha hb hu hc (show u.length + 1 < n by omega) hv rest
    refine ⟨h, ?_⟩
    rw [called_append, parseStringPart_str ha, List.append_assoc, List.append_assoc]
    unfold parseStr
    rw [bind_ok hread, ← intToText_eq]
    rfl

/-- A string and what separates it from the next argument. -/
theorem StrMeans.before {v : Text} {c : UInt8} (h : StrMeans .sum t x) (hn : x.length + 1 < n) (ha : Blanks a) (hb : Blanks b)
    (hc : EndsArg c) (hv : t.Yields s.vars s.strVars v) (rest : Text) :
    ∃ h, (parsers n).stringExpr (a ++ (x ++ (b ++ c :: rest))) s = (.ok (v, c :: rest), { s with history := h }) := by
  have hbyte : isSpace c = false ∧ c ≠ '(' ∧ c ≠ '+' := by
    rcases hc with rfl | rfl <;> decide
  have hskip := skipSpaces_byte hb hbyte.1 rest
  have hparen : peek (skipSpaces (b ++ c :: rest)) ≠ ('(' : UInt8) := by
    rw [hskip]
    exact hbyte.2.1
  have hplus : peek (skipSpaces (b ++ c :: rest)) ≠ ('+' : UInt8) := by
    rw [hskip]
    exact hbyte.2.2
  obtain ⟨h, hread⟩ := h.reads hn ha hparen hplus hv
  exact ⟨h, by rw [hread, hskip]⟩

theorem StrMeans.side (k : Side) (ha : Blanks a) (hb : Blanks b) (hx : StrMeans .sum t x) (hc : Blanks c) (hd : Blanks d)
    (hu : Prints .expr e u) (hf : Blanks f) :
    StrMeans .part (.side k t e) (called k.word a (b ++ (x ++ (c ++ (',' : UInt8) :: (d ++ (u ++ f)))))) := by
  intro n s rest v hn _ hv
  cases hv with
  | @side _ _ _ src count ht hcount =>
    rw [length_called] at hn
    simp only [List.length_append, List.length_cons] at hn
    obtain ⟨h₁, hstring⟩ := hx.before (n := n) (by omega) hb hc (.inr rfl) ht (d ++ (u ++ (f ++ (')' : UInt8) :: rest)))
    obtain ⟨h₂, hnumber⟩ := expr_reads (s := { s with history := h₁ }) hu hd hf (.inl rfl) (show u.length + 1 < n by omega) hcount rest
    refine ⟨h₂, ?_⟩
    rw [called_append, parseStringPart_side k ha]
    simp only [List.append_assoc, List.cons_append]
    unfold parseSide
    rw [expect_byte ha (by decide), pure_bind_eq, bind_ok hstring]
    dsimp only
    rw [expect_here (by decide), pure_bind_eq, bind_ok hnumber]
    dsimp only
    rw [expect_here (by decide), pure_bind_eq, k.take_eq ht.length_lt]
    rfl

section

variable (ha : Blanks a) (hb : Blanks b) (hx : StrMeans .sum t x) (hc : Blanks c) (hd : Blanks d) (hu : Prints .expr start u) (hf : Blanks f)
include ha hb hx hc hd hu hf

theorem StrMeans.mid :
    StrMeans .part (.mid t start) (called (chars "MID$") a (b ++ (x ++ (c ++ (',' : UInt8) :: (d ++ (u ++ f)))))) := by
  intro n s rest v hn _ hv
  cases hv with
  | mid ht hstart =>
    rw [length_called] at hn
    simp only [List.length_append, List.length_cons] at hn
    obtain ⟨h₁, hstring⟩ := hx.before (n := n) (by omega) hb hc (.inr rfl) ht (d ++ (u ++ (f ++ (')' : UInt8) :: rest)))
    obtain ⟨h₂, hnumber⟩ := expr_reads (s := { s with history := h₁ }) hu hd hf (.inl rfl) (show u.length + 1 < n by omega) hstart rest
    refine ⟨h₂, ?_⟩
    rw [called_append, parseStringPart_mid ha]
    simp only [List.append_assoc, List.cons_append]
    unfold parseMid
    rw [expect_byte ha (by decide), pure_bind_eq, bind_ok hstring]
    dsimp only
    rw [expect_here (by decide), pure_bind_eq, bind_ok hnumber]
    show (expect (')' : UInt8) ((')' : UInt8) :: rest) >>= fun s => pure (midOf _ _ (Int32.ofNat BASIC_MAX_STRING_LEN), s)) _ = _
    rw [expect_here (by decide), pure_bind_eq, midOf_rest ht.length_lt]
    rfl

theorem StrMeans.midLength (hg : Blanks g) (hw : Prints .expr length w) (hy : Blanks y) :
    StrMeans .part (.midLength t start length)
      (called (chars "MID$") a (b ++ (x ++ (c ++ (',' : UInt8) :: (d ++ (u ++ (f ++ (',' : UInt8) :: (g ++ (w ++ y))))))))) := by
  intro n s rest v hn _ hv
  cases hv with
  | midLength ht hstart hlength =>
    rw [length_called] at hn
    simp only [List.length_append, List.length_cons] at hn
    obtain ⟨h₁, hstring⟩ := hx.before (n := n) (by omega) hb hc (.inr rfl) ht
      (d ++ (u ++ (f ++ (',' : UInt8) :: (g ++ (w ++ (y ++ (')' : UInt8) :: rest))))))
    obtain ⟨h₂, hnumber⟩ := expr_reads (s := { s with history := h₁ }) hu hd hf (.inr rfl) (show u.length + 1 < n by omega) hstart
      (g ++ (w ++ (y ++ (')' : UInt8) :: rest)))
    obtain ⟨h₃, hcount⟩ := expr_reads (s := { s with history := h₂ }) hw hg hy (.inl rfl) (show w.length + 1 < n by omega) hlength rest
    refine ⟨h₃, ?_⟩
    rw [called_append, parseStringPart_mid ha]
    simp only [List.append_assoc, List.cons_append]
    unfold parseMid
    rw [expect_byte ha (by decide), pure_bind_eq, bind_ok hstring]
    dsimp only
    rw [expect_here (by decide), pure_bind_eq, bind_ok hnumber]
    show ((parsers n).expr (g ++ (w ++ (y ++ (')' : UInt8) :: rest))) >>= _) { s with history := h₂ } = _
    rw [bind_ok hcount]
    dsimp only
    rw [expect_here (by decide), pure_bind_eq, midOf_eq ht.length_lt]
    rfl

end

theorem StrMeans.cat (hx : StrMeans .sum l x) (ha : Blanks a) (hb : Blanks b) (hy : StrMeans .sum r y) :
    StrMeans .sum (.cat l r) (x ++ (a ++ ('+' : UInt8) :: (b ++ y))) := by
  intro n k s out blanks rest v hn hk hblanks hparen hv hfits
  cases hv with
  | @cat _ _ v₁ v₂ hl hr _ =>
    simp only [List.length_append, List.length_cons] at hn hk hfits
    have hskip : skipSpaces (a ++ ('+' : UInt8) :: (b ++ (y ++ rest))) = ('+' : UInt8) :: (b ++ (y ++ rest)) :=
      skipSpaces_byte ha (by decide) _
    obtain ⟨j, h, hj, hleft⟩ := hx n k s out blanks (a ++ ('+' : UInt8) :: (b ++ (y ++ rest))) v₁ (by omega) (by omega) hblanks
      (by rw [hskip]; exact (by decide : ('+' : UInt8) ≠ ('(' : UInt8))) hl (by rw [List.length_append]; omega)
    obtain ⟨i, h', hi, hright⟩ := hy n j { s with history := h } (out ++ v₁) b rest v₂ (by omega) (by omega) hb hparen hr
      (by simp only [List.length_append]; omega)
    refine ⟨i, h', by simp only [List.length_append, List.length_cons]; omega, ?_⟩
    simp only [List.append_assoc, List.cons_append]
    rw [hleft, afterPart, hskip, if_pos (by rfl)]
    show stringLoop _ _ _ (b ++ (y ++ rest)) _ = _
    rw [hright, List.append_assoc]

theorem StrMeans.up (htext : Spells .part t x) (hx : StrMeans .part t x) : StrMeans .sum t x := by
  intro n k s out blanks rest v hn hk hblanks hparen hv hfits
  obtain ⟨c, u, rfl, hspace⟩ := htext.start
  obtain ⟨k, rfl⟩ : ∃ m, k = m + 1 := ⟨k - 1, by rw [List.length_cons] at hk; omega⟩
  obtain ⟨h, hpart⟩ := hx n s rest v hn hparen hv
  refine ⟨k, h, by rw [List.length_cons]; omega, stringLoop_part ?_ hfits⟩
  rwa [List.cons_append, skipSpaces_byte hblanks hspace]

end Means

theorem Spells.means {level : StrLevel} (h : Spells level t x) : StrMeans level t x := by
  induction h with
  | lit => exact .lit
  | var hc hname => exact .var hc hname
  | side ha hb _ hc he hu hf ih => exact .side _ ha hb ih hc he hu hf
  | mid ha hb _ hc he hu hf ih => exact .mid ha hb ih hc he hu hf
  | midLength ha hb _ hc he hu hf hg hw hh ih => exact .midLength ha hb ih hc he hu hf hg hw hh
  | str ha hb hu hc => exact .str ha hb hu hc
  | chr ha hb hu hc => exact .chr ha hb hu hc
  | cat _ ha hb _ ihx ihy => exact .cat ihx ha hb ihy
  | up hx ih => exact .up hx ih

end Tg11Kernel.Basic
