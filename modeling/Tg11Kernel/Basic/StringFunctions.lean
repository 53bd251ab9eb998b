import Tg11Kernel.Basic.StringEvaluation

/-! The functions of a string. `LEN`, `ASC`, `INSTR` and `VAL` read a printed string tree as
their argument and return what the usual definitions say of the text that it yields. -/

namespace Tg11Kernel.Basic

open Lib Lib.Exec

variable {s : Interp} {n : ℕ} {text : Text}

/-! ### A function alone -/

/-- The number parser reads the whole text and returns the number. -/
def ReadsNumber (s : Interp) (text : Text) (r : Int32) : Prop :=
  ∀ n, text.length + 1 < n → ∃ h, (parsers n).expr text s = (.ok (r, []), { s with history := h })

/-- The string parser reads the whole text and returns the string. -/
def ReadsString (s : Interp) (text v : Text) : Prop :=
  ∀ n, text.length + 1 < n → ∃ h, (parsers n).stringExpr text s = (.ok (v, []), { s with history := h })

/-- A builtin alone is an expression. -/
theorem expr_of_named {t : Interp} {v : Int32} (ha : isAlpha (peek text) = true) (hnot : nameMatchesCi text (chars "NOT") = false)
    (h : parseNamed (parsers (n + 1)) text s = (.ok (v, []), t)) : (parsers (n + 2)).expr text s = (.ok (v, []), t) := by
  have hparen : peek text ≠ '(' := (ne_sign_of_isAlpha ha).1
  have hprimary : parsePrimary (parsers (n + 1)) text s = (.ok (v, []), t) := by
    unfold parsePrimary
    rw [if_neg hparen, if_pos ha, h]
  have hfactor : parseFactor (parsers (n + 1)) text s = (.ok (v, []), t) := by
    unfold parseFactor parseSigned
    rw [skipSpaces_of_not_isSpace (not_isSpace_of_isAlpha ha), hnot, if_neg Bool.false_ne_true, signRun_of_isAlpha ha]
    show (parsePrimary (parsers (n + 1)) text >>= fun r => pure (r.1 * 1, r.2)) s = _
    rw [bind_ok hprimary, Int32.mul_one]
    rfl
  have hterm : parseTerm (parsers (n + 1)) (n + 1) text s = (.ok (v, []), t) := by
    unfold parseTerm
    rw [bind_ok hfactor]
    rfl
  show parseExpr (parsers (n + 1)) (n + 1) text s = _
  unfold parseExpr
  rw [bind_ok hterm]
  rfl

section Functions

variable {t : StrTree} {a b c d e x v : Text}

/-- A string in parentheses. -/
theorem parenString_reads (ha : Blanks a) (hb : Blanks b) (hx : Spells .sum t x) (hc : Blanks c) (hn : x.length + 1 < n)
    (hv : t.Yields s.vars s.strVars v) (rest : Text) :
    ∃ h, parseBuiltinParenString (parsers n) (a ++ ('(' : UInt8) :: (b ++ (x ++ (c ++ (')' : UInt8) :: rest)))) s =
      (.ok (v, rest), { s with history := h }) := by
  obtain ⟨h, hread⟩ := hx.means.before hn hb hc (.inl rfl) hv rest
  refine ⟨h, ?_⟩
  unfold parseBuiltinParenString
  rw [expect_byte ha (by decide), pure_bind_eq, bind_ok hread]
  dsimp only
  rw [expect_here (by decide)]
  rfl

/-- A function of a string that is its only argument. -/
theorem readsNumber_called (word : Text) (f : Text → Int32) (ha : Blanks a) (hb : Blanks b) (hx : Spells .sum t x) (hc : Blanks c)
    (hv : t.Yields s.vars s.strVars v) (halpha : isAlpha (peek (called word a (b ++ (x ++ c)))) = true)
    (hnot : nameMatchesCi (called word a (b ++ (x ++ c))) (chars "NOT") = false)
    (hword : ∀ p u, parseNamed p (word ++ (a ++ ('(' : UInt8) :: u)) =
      (parseBuiltinParenString p (a ++ ('(' : UInt8) :: u) >>= fun r => pure (f r.1, r.2))) :
    ReadsNumber s (called word a (b ++ (x ++ c))) (f v) := by
  intro n hn
  rw [length_called, List.length_append, List.length_append] at hn
  obtain ⟨n, rfl⟩ : ∃ m, n = m + 2 := ⟨n - 2, by omega⟩
  obtain ⟨h, hread⟩ := parenString_reads ha hb hx hc (show x.length + 1 < n + 1 by omega) hv []
  refine ⟨h, expr_of_named halpha hnot ?_⟩
  have hwhole := called_append word a (b ++ (x ++ c)) []
  rw [List.append_nil, List.append_assoc, List.append_assoc] at hwhole
  rw [hwhole, hword, bind_ok hread]
  rfl

section

variable (ha : Blanks a) (p : Parsers) (u : Text)
include ha p u

theorem parseNamed_len : parseNamed p (chars "LEN" ++ (a ++ ('(' : UInt8) :: u)) =
    (parseBuiltinParenString p (a ++ ('(' : UInt8) :: u) >>= fun r => pure (Int32.ofNat r.1.length, r.2)) := by
  unfold parseNamed
  rw [if_neg (show ¬ callsBuiltin (chars "LEN" ++ _) (chars "ABS") = true from Bool.false_ne_true),
    if_neg (show ¬ callsBuiltin (chars "LEN" ++ _) (chars "RND") = true from Bool.false_ne_true), if_pos (callsBuiltin_word ha u)]
  rfl

theorem parseNamed_val : parseNamed p (chars "VAL" ++ (a ++ ('(' : UInt8) :: u)) =
    (parseBuiltinParenString p (a ++ ('(' : UInt8) :: u) >>= fun r => pure ((parseIntFromText r.1).getD 0, r.2)) := by
  unfold parseNamed
  rw [if_neg (show ¬ callsBuiltin (chars "VAL" ++ _) (chars "ABS") = true from Bool.false_ne_true),
    if_neg (show ¬ callsBuiltin (chars "VAL" ++ _) (chars "RND") = true from Bool.false_ne_true),
    if_neg (show ¬ callsBuiltin (chars "VAL" ++ _) (chars "LEN") = true from Bool.false_ne_true), if_pos (callsBuiltin_word ha u)]
  rfl

theorem parseNamed_asc : parseNamed p (chars "ASC" ++ (a ++ ('(' : UInt8) :: u)) =
    (parseBuiltinParenString p (a ++ ('(' : UInt8) :: u) >>= fun r => pure ((peek r.1).toUInt32.toInt32, r.2)) := by
  unfold parseNamed
  rw [if_neg (show ¬ callsBuiltin (chars "ASC" ++ _) (chars "ABS") = true from Bool.false_ne_true),
    if_neg (show ¬ callsBuiltin (chars "ASC" ++ _) (chars "RND") = true from Bool.false_ne_true),
    if_neg (show ¬ callsBuiltin (chars "ASC" ++ _) (chars "LEN") = true from Bool.false_ne_true),
    if_neg (show ¬ callsBuiltin (chars "ASC" ++ _) (chars "VAL") = true from Bool.false_ne_true), if_pos (callsBuiltin_word ha u)]
  rfl

theorem parseNamed_instr :
    parseNamed p (chars "INSTR" ++ (a ++ ('(' : UInt8) :: u)) = parseInstr p (a ++ ('(' : UInt8) :: u) := by
  unfold parseNamed
  rw [if_neg (show ¬ callsBuiltin (chars "INSTR" ++ _) (chars "ABS") = true from Bool.false_ne_true),
    if_neg (show ¬ callsBuiltin (chars "INSTR" ++ _) (chars "RND") = true from Bool.false_ne_true),
    if_neg (show ¬ callsBuiltin (chars "INSTR" ++ _) (chars "LEN") = true from Bool.false_ne_true),
    if_neg (show ¬ callsBuiltin (chars "INSTR" ++ _) (chars "VAL") = true from Bool.false_ne_true),
    if_neg (show ¬ callsBuiltin (chars "INSTR" ++ _) (chars "ASC") = true from Bool.false_ne_true),
    if_neg (show ¬ callsBuiltin (chars "INSTR" ++ _) (chars "EOF") = true from Bool.false_ne_true), if_pos (callsBuiltin_word ha u)]
  rfl

end

theorem readsNumber_instr {t' : StrTree} {y w : Text} (ha : Blanks a) (hb : Blanks b) (hx : Spells .sum t x) (hc : Blanks c)
    (hv : t.Yields s.vars s.strVars v) (hd : Blanks d) (hy : Spells .sum t' y) (he : Blanks e) (hw : t'.Yields s.vars s.strVars w) :
    ReadsNumber s (called (chars "INSTR") a (b ++ (x ++ (c ++ (',' : UInt8) :: (d ++ (y ++ e)))))) (instrOf v w) := by
  intro n hn
  rw [length_called] at hn
  simp only [List.length_append, List.length_cons] at hn
  obtain ⟨n, rfl⟩ : ∃ m, n = m + 2 := ⟨n - 2, by omega⟩
  obtain ⟨h₁, hfirst⟩ := hx.means.before (n := n + 1) (by omega) hb hc (.inr rfl) hv (d ++ (y ++ (e ++ [(')' : UInt8)])))
  obtain ⟨h₂, hsecond⟩ := hy.means.before (s := { s with history := h₁ }) (n := n + 1) (by omega) hd he (.inl rfl) hw []
  refine ⟨h₂, expr_of_named (by rfl) (by rfl) ?_⟩
  have hwhole := called_append (chars "INSTR") a (b ++ (x ++ (c ++ (',' : UInt8) :: (d ++ (y ++ e))))) []
  simp only [List.append_nil, List.append_assoc, List.cons_append] at hwhole
  rw [hwhole, parseNamed_instr ha]
  unfold parseInstr
  rw [expect_byte ha (by decide), pure_bind_eq, bind_ok hfirst]
  dsimp only
  rw [expect_here (by decide), pure_bind_eq, bind_ok hsecond]
  dsimp only
  rw [expect_here (by decide)]
  rfl

end Functions

/-! ### What the functions return -/

theorem digitsFromText_eq (sign : Int32) (t : Text) :
    (digitsFromText sign t).getD 0 = Int32.ofNat (digitsNat (t.takeWhile isDigit)) * sign := by
  have hdigits : ∀ c ∈ t.takeWhile isDigit, isDigit c = true := fun _ hc => List.mem_takeWhile_imp hc
  unfold digitsFromText
  simp only
  split_ifs with hnone
  · rw [hnone]
    show (0 : Int32) = 0 * sign
    rw [Int32.zero_mul]
  · rw [Option.getD_some, digitsValue_eq hdigits]

/-- The sum of the digits wraps. -/
theorem parseIntFromText_eq (t : Text) : (parseIntFromText t).getD 0 = Int32.ofInt (leadingInt t) := by
  unfold parseIntFromText leadingInt
  simp only
  split_ifs
  · rw [digitsFromText_eq, Int32.mul_neg, Int32.mul_one, Int32.ofInt_neg]
    rfl
  · rw [digitsFromText_eq, Int32.mul_one]
    rfl

theorem peek_toInt32 (v : Text) : (peek v).toUInt32.toInt32 = Int32.ofNat (peek v).toNat :=
  forall_byte (Q := fun c => c.toUInt32.toInt32 = Int32.ofNat c.toNat) (by decide +kernel) (peek v)

/-- The search finds the first place. -/
theorem findFrom_cases {needle : Text} (hne : needle ≠ []) (hi : ℕ) (t : Text) :
    (∃ i, findFrom needle hi t = some (hi + i) ∧ i ≤ t.length ∧ needle <+: t.drop i ∧ ∀ j < i, ¬ needle <+: t.drop j) ∨
      findFrom needle hi t = none ∧ ∀ i ≤ t.length, ¬ needle <+: t.drop i := by
  induction t generalizing hi with
  | nil =>
    refine .inr ⟨rfl, fun i _ hprefix => hne ?_⟩
    rw [List.drop_nil] at hprefix
    exact List.prefix_nil.1 hprefix
  | cons c t ih =>
    unfold findFrom
    split_ifs with hhere
    · exact .inl ⟨0, rfl, Nat.zero_le _, List.isPrefixOf_iff_prefix.1 hhere, nofun⟩
    · have hzero : ¬ needle <+: (c :: t).drop 0 := fun h => hhere (List.isPrefixOf_iff_prefix.2 h)
      rcases ih (hi + 1) with ⟨i, hfound, hi', hprefix, hfirst⟩ | ⟨hnone, hall⟩
      · refine .inl ⟨i + 1, by rw [hfound, Nat.add_assoc, Nat.add_comm 1], Nat.succ_le_succ hi', hprefix, ?_⟩
        rintro (_ | j) hj
        · exact hzero
        · exact hfirst j (Nat.lt_of_succ_lt_succ hj)
      · refine .inr ⟨hnone, ?_⟩
        rintro (_ | i) hi'
        · exact hzero
        · exact hall i (Nat.le_of_succ_le_succ hi')

theorem instrOf_position (haystack needle : Text) : ∃ pos, Position haystack needle pos ∧ instrOf haystack needle = Int32.ofNat pos := by
  unfold instrOf
  split_ifs with hempty
  · exact ⟨1, .inl ⟨0, rfl, Nat.zero_le _, hempty ▸ List.nil_prefix, nofun⟩, rfl⟩
  · rcases findFrom_cases hempty 0 haystack with ⟨i, hfound, hi, hprefix, hfirst⟩ | ⟨hnone, hall⟩
    · refine ⟨i + 1, .inl ⟨i, rfl, hi, hprefix, hfirst⟩, ?_⟩
      rw [hfound, Nat.zero_add]
      exact (Int32.ofNat_add i 1).symm
    · refine ⟨0, .inr ⟨rfl, hall⟩, ?_⟩
      rw [hnone]
      rfl

theorem readsString_spelled {t : StrTree} {v : Text} (htext : Spells .sum t text) (hv : t.Yields s.vars s.strVars v) :
    ReadsString s text v := by
  intro n hn
  obtain ⟨h, hread⟩ := htext.means.reads hn .nil (show peek (skipSpaces []) ≠ _ by decide) (show peek (skipSpaces []) ≠ _ by decide) hv
  simp only [List.nil_append, List.append_nil] at hread
  exact ⟨h, hread⟩

/-- A string expression means its text: every tree can be printed, and of any text that
prints it the parser reads all and returns what the tree yields. The functions of a string
return its length, its first code, the first place of another string in it and the integer
that it begins with, the last one as far as 32 bits hold it. -/
theorem stringExpr_correct (t : StrTree) : Spells .sum t t.text ∧ ∀ (text v : Text) (s : Interp), Spells .sum t text →
    t.Yields s.vars s.strVars v →
      ReadsString s text v ∧ ∀ a b c, Blanks a → Blanks b → Blanks c →
        ReadsNumber s (called (chars "LEN") a (b ++ (text ++ c))) (Int32.ofNat v.length) ∧
        ReadsNumber s (called (chars "ASC") a (b ++ (text ++ c))) (Int32.ofNat (peek v).toNat) ∧
        ReadsNumber s (called (chars "VAL") a (b ++ (text ++ c))) (Int32.ofInt (leadingInt v)) ∧
        ∀ t' text' v' d e, Spells .sum t' text' → t'.Yields s.vars s.strVars v' → Blanks d → Blanks e →
          ∃ pos, Position v v' pos ∧
            ReadsNumber s (called (chars "INSTR") a (b ++ (text ++ (c ++ (',' : UInt8) :: (d ++ (text' ++ e)))))) (Int32.ofNat pos) := by
  refine ⟨spells_text t, fun text v s htext hv => ⟨readsString_spelled htext hv, fun a b c ha hb hc => ⟨?_, ?_, ?_, ?_⟩⟩⟩
  · exact readsNumber_called (chars "LEN") (fun v => Int32.ofNat v.length) ha hb htext hc hv (by rfl) (by rfl) (parseNamed_len ha)
  · rw [← peek_toInt32]
    exact readsNumber_called (chars "ASC") (fun v => (peek v).toUInt32.toInt32) ha hb htext hc hv (by rfl) (by rfl) (parseNamed_asc ha)
  · rw [← parseIntFromText_eq]
    exact readsNumber_called (chars "VAL") (fun v => (parseIntFromText v).getD 0) ha hb htext hc hv (by rfl) (by rfl) (parseNamed_val ha)
  · intro t' text' v' d e htext' hv' hd he
    obtain ⟨pos, hpos, heq⟩ := instrOf_position v v'
    refine ⟨pos, hpos, ?_⟩
    rw [← heq]
    exact readsNumber_instr ha hb htext hc hv hd htext' he hv'

/-- `LEFT$("AB" + "1", 2) + STR$(-7)` -/
def joinedTree : StrTree :=
  .cat (.side .left (.cat (.lit ⟨chars "AB", by decide +kernel⟩) (.lit ⟨chars "1", by decide +kernel⟩)) (.lit ⟨2, two_lt_literals⟩))
    (.str (.neg (.lit ⟨7, seven_lt_literals⟩)))

theorem stringExpr_correct_joined : ∃ h, (parsers 40).stringExpr (chars "LEFT$(\"AB\"+\"1\",2)+STR$(-7)") (booted Ramfs.blank fun _ => none) =
    (.ok (chars "AB-7", []), { booted Ramfs.blank fun _ => none with history := h }) := by
  have htext : joinedTree.text = chars "LEFT$(\"AB\"+\"1\",2)+STR$(-7)" := by decide +kernel
  have hyields : joinedTree.Yields (fun _ => 0) (fun _ => []) (chars "AB-7") := by
    have hvalue : Side.left.part (chars "AB" ++ chars "1") (2 : Int32).toInt ++ signedDecimal (-7 : Int32).toInt = chars "AB-7" := by
      decide +kernel
    have hinside : StrTree.Yields (fun _ => 0) (fun _ => [])
        (.cat (.lit ⟨chars "AB", by decide +kernel⟩) (.lit ⟨chars "1", by decide +kernel⟩)) (chars "AB" ++ chars "1") :=
      .cat (.lit (by decide +kernel)) (.lit (by decide +kernel)) (by decide +kernel)
    rw [← hvalue]
    exact .cat (.side hinside rfl) (.str rfl) (by decide +kernel)
  have hcorrect := stringExpr_correct joinedTree
  rw [htext] at hcorrect
  exact (hcorrect.2 _ _ _ hcorrect.1 hyields).1 40 (by decide +kernel)

/-- The integer of ten digits does not fit. -/
theorem not_val_leadingInt : ¬ ∀ (t : StrTree) (text v : Text) (s : Interp), Spells .sum t text → t.Yields s.vars s.strVars v →
    ∃ r : Int32, r.toInt = leadingInt v ∧ ReadsNumber s (called (chars "VAL") [] text) r := by
  intro hall
  have hlit : ∀ c ∈ chars "4294967296", c ≠ ('"' : UInt8) ∧ c ≠ 0 := by decide +kernel
  have hfits : (chars "4294967296").length < BASIC_MAX_STRING_LEN := by decide +kernel
  have hbig : leadingInt (chars "4294967296") = 4294967296 := by decide +kernel
  obtain ⟨r, hr, -⟩ := hall (.lit ⟨chars "4294967296", hlit⟩) _ (chars "4294967296") (booted Ramfs.blank fun _ => none) (.up .lit) (.lit hfits)
  have hlt := r.toInt_lt
  rw [hbig] at hr
  omega

end Tg11Kernel.Basic
