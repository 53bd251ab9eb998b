import Tg11Kernel.Basic.StringFunctions

/-! Numerals: what `PRINT` and `STR$` print, the parsers read back. The magnitude and the digits are
summed modulo 2 ^ 32, which is enough for the least number too. -/

namespace Tg11Kernel.Basic

open Lib Lib.Exec

variable {s : Interp} {p : Parsers} {n : ℕ} {text rest : Text}

/-! ### The number parser -/

variable {v : Int32}

theorem ofNat_natAbs_of_nonneg (h : 0 ≤ v.toInt) : Int32.ofNat v.toInt.natAbs = v := by
  rw [← Int32.ofInt_eq_ofNat, Int.natAbs_of_nonneg h, Int32.ofInt_toInt]

theorem ofNat_natAbs_of_neg (h : v.toInt < 0) : Int32.ofNat v.toInt.natAbs * (-1) = v := by
  have habs : (v.toInt.natAbs : ℤ) = -v.toInt := by omega
  rw [Int32.mul_neg, Int32.mul_one, ← Int32.ofInt_eq_ofNat, habs, Int32.ofInt_neg, Int32.ofInt_toInt, Int32.neg_neg]

theorem up_of_isDigit {c : UInt8} : isDigit c = true → up c ≠ up ('N' : UInt8) :=
  forall_byte (Q := fun c => isDigit c = true → up c ≠ up ('N' : UInt8)) (by decide +kernel) c

/-- A decimal text with or without its sign is one factor. -/
theorem parseFactor_numeral (v : Int32) (hrest : Follow rest) : parseFactor p (signedDecimal v.toInt ++ rest) = pure (v, rest) := by
  obtain ⟨hne, hdigits, hvalue⟩ := decimal_digits v.toInt.natAbs
  have hprimary := parsePrimary_digits hne hdigits hrest p
  obtain ⟨c, u, hcons, hc⟩ := digits_cons hne hdigits
  obtain ⟨hspace, halpha, -, hminus, hplus⟩ := not_isSpace_of_isDigit hc
  have hrun : ∀ sign, signRun sign (decimal v.toInt.natAbs ++ rest) = (sign, decimal v.toInt.natAbs ++ rest) := by
    intro sign
    rw [hcons, List.cons_append, signRun, if_neg hminus, if_neg]
    rintro (h | h)
    · exact hplus h
    · rw [hspace] at h
      cases h
  rw [hvalue] at hprimary
  unfold signedDecimal
  split_ifs with hneg
  · have hskip : skipSpaces (('-' : UInt8) :: decimal v.toInt.natAbs ++ rest) = ('-' : UInt8) :: (decimal v.toInt.natAbs ++ rest) := rfl
    unfold parseFactor parseSigned
    rw [hskip, if_neg (show ¬ nameMatchesCi (('-' : UInt8) :: _) (chars "NOT") = true from Bool.false_ne_true), signRun, if_pos rfl, hrun]
    dsimp only
    rw [hprimary]
    show (pure (Int32.ofNat v.toInt.natAbs * (-1), rest) : M (Int32 × Text)) = _
    rw [ofNat_natAbs_of_neg hneg]
  · have hskip : skipSpaces (decimal v.toInt.natAbs ++ rest) = decimal v.toInt.natAbs ++ rest := by
      rw [hcons]
      exact skipSpaces_of_not_isSpace hspace
    have hnot : ¬ nameMatchesCi (decimal v.toInt.natAbs ++ rest) (chars "NOT") = true := by
      rw [hcons]
      exact not_nameMatchesCi (up_of_isDigit hc)
    unfold parseFactor parseSigned
    rw [hskip, if_neg hnot, hrun]
    dsimp only
    rw [hprimary]
    show (pure (Int32.ofNat v.toInt.natAbs * 1, rest) : M (Int32 × Text)) = _
    rw [Int32.mul_one, ofNat_natAbs_of_nonneg (not_lt.1 hneg)]

/-- The decimal text of a number before what ends an expression. -/
theorem expr_numeral (v : Int32) (hrest : StopsExpr rest) :
    (parsers (n + 2)).expr (signedDecimal v.toInt ++ rest) = pure (v, skipSpaces rest) := by
  have hterm : parseTerm (parsers (n + 1)) (n + 1) (signedDecimal v.toInt ++ rest) = pure (v, skipSpaces rest) := by
    unfold parseTerm
    rw [parseFactor_numeral v hrest.follow.1, pure_bind_eq]
    unfold levelLoop
    dsimp only
    rw [hrest.follow.2]
  show parseExpr (parsers (n + 1)) (n + 1) _ = _
  unfold parseExpr
  rw [hterm, pure_bind_eq]
  unfold levelLoop
  dsimp only
  rw [skipSpaces_skipSpaces, hrest.none]

/-- The text is an expression for the number, before whatever ends it. -/
def Denotes (s : Interp) (text : Text) (v : Int32) : Prop :=
  ∀ n rest, text.length + 1 < n → StopsExpr rest →
    ∃ h, (parsers n).expr (text ++ rest) s = (.ok (v, skipSpaces rest), { s with history := h })

theorem denotes_numeral (s : Interp) (v : Int32) : Denotes s (signedDecimal v.toInt) v := by
  intro n rest hn hrest
  obtain ⟨n, rfl⟩ : ∃ m, n = m + 2 := ⟨n - 2, by omega⟩
  exact ⟨s.history, by rw [expr_numeral v hrest]; rfl⟩

theorem denotes_printed {t : ExprTree} (htext : Prints .expr t text) (hv : t.eval s.vars = .ok v) : Denotes s text v :=
  fun _ _ hn hrest => expr_stops (a := []) htext .nil hrest hn hv

theorem Denotes.reads (h : Denotes s text v) : ReadsNumber s text v := by
  intro n hn
  have hread := h n [] hn ⟨⟨.nil, rfl⟩, rfl⟩
  rwa [List.append_nil] at hread

/-! ### `VAL(STR$(n))` -/

theorem leadingInt_signedDecimal (v : ℤ) : leadingInt (signedDecimal v) = v := by
  obtain ⟨hne, hdigits, hvalue⟩ := decimal_digits v.natAbs
  obtain ⟨c, u, hcons, hc⟩ := digits_cons hne hdigits
  obtain ⟨hspace, -, -, hminus, -⟩ := not_isSpace_of_isDigit hc
  have htake : (decimal v.natAbs).takeWhile isDigit = decimal v.natAbs := List.takeWhile_eq_self_iff.2 hdigits
  have hskip : skipSpaces (decimal v.natAbs) = decimal v.natAbs := by
    rw [hcons]
    exact skipSpaces_of_not_isSpace hspace
  have hpeek : peek (decimal v.natAbs) ≠ ('-' : UInt8) := by
    rw [hcons]
    exact hminus
  unfold leadingInt signedDecimal
  split_ifs with hneg
  · show (if ('-' : UInt8) = ('-' : UInt8) then -(digitsNat ((decimal v.natAbs).takeWhile isDigit) : ℤ) else _) = v
    rw [if_pos rfl, htake, hvalue]
    omega
  · dsimp only
    rw [hskip, if_neg hpeek, htake, hvalue]
    omega

/-- `STR$` of the number. -/
theorem stringExpr_str (h : Denotes s text v) (hn : text.length + 2 < n) (rest : Text) :
    ∃ h, (parsers n).stringExpr (chars "STR$" ++ (('(' : UInt8) :: (text ++ (')' : UInt8) :: (')' : UInt8) :: rest))) s =
      (.ok (intToText v, (')' : UInt8) :: rest), { s with history := h }) := by
  obtain ⟨n, rfl⟩ : ∃ m, n = m + 1 := ⟨n - 1, by omega⟩
  obtain ⟨hskip, hstops⟩ := EndsArg.stops (c := (')' : UInt8)) (.inl rfl) .nil (')' :: rest)
  obtain ⟨h, hread⟩ := h n (')' :: (')' : UInt8) :: rest) (by omega) hstops
  refine ⟨h, ?_⟩
  have hpart : parseStringPart (parsers n) (chars "STR$" ++ (('(' : UInt8) :: (text ++ (')' : UInt8) :: (')' : UInt8) :: rest))) s =
      (.ok (intToText v, (')' : UInt8) :: rest), { s with history := h }) := by
    have hstr := parseStringPart_str (p := parsers n) .nil (text ++ (')' : UInt8) :: (')' : UInt8) :: rest)
    rw [List.nil_append] at hstr
    rw [hstr]
    have hparen : parseBuiltinParenExpr (parsers n) (('(' : UInt8) :: (text ++ (')' : UInt8) :: (')' : UInt8) :: rest)) s =
        (.ok (v, (')' : UInt8) :: rest), { s with history := h }) := by
      unfold parseBuiltinParenExpr
      rw [expect_here (by decide), pure_bind_eq, bind_ok hread]
      rfl
    unfold parseStr
    rw [bind_ok hparen]
    rfl
  show stringLoop (parsers n) (n + 1) [] (skipSpaces _) s = _
  rw [stringLoop_skipSpaces, stringLoop_part hpart ((length_intToText_le v).trans_lt (by decide))]
  rfl

/-- `VAL` reads the digits of `STR$` back, and multiplies by the sign. -/
theorem Denotes.val_str (h : Denotes s text v) :
    ReadsNumber s (called (chars "VAL") [] (called (chars "STR$") [] text)) v := by
  intro n hn
  have hwhole : called (chars "VAL") [] (called (chars "STR$") [] text) =
      chars "VAL" ++ ('(' : UInt8) :: (chars "STR$" ++ ('(' : UInt8) :: (text ++ [(')' : UInt8), (')' : UInt8)])) := by
    simp [called]
  obtain ⟨n, rfl⟩ : ∃ m, n = m + 2 := ⟨n - 2, by omega⟩
  rw [length_called, length_called] at hn
  obtain ⟨h, hread⟩ := stringExpr_str (n := n + 1) h (by omega) []
  refine ⟨h, expr_of_named (by rfl) (by rfl) ?_⟩
  have hparen : parseBuiltinParenString (parsers (n + 1)) (('(' : UInt8) :: (chars "STR$" ++ ('(' : UInt8) :: (text ++ [(')' : UInt8), (')' : UInt8)]))) s =
      (.ok (intToText v, []), { s with history := h }) := by
    unfold parseBuiltinParenString
    rw [expect_here (by decide), pure_bind_eq, bind_ok hread]
    rfl
  have hval := parseNamed_val .nil (parsers (n + 1)) (chars "STR$" ++ ('(' : UInt8) :: (text ++ [(')' : UInt8), (')' : UInt8)]))
  rw [List.nil_append] at hval
  rw [hwhole, hval, bind_ok hparen]
  show (Outcome.ok ((parseIntFromText (intToText v)).getD 0, []), { s with history := h }) = _
  rw [parseIntFromText_eq, intToText_eq, leadingInt_signedDecimal, Int32.ofInt_toInt]

/-! ### The two number parsers -/

/-- The one parser also returns the text behind the number. -/
theorem parseInt_eq (text : Text) : (parseInt text).map Prod.fst = parseIntFromText text := by
  have hdigits : ∀ sign t, (parseDigits sign t).map Prod.fst = digitsFromText sign t := by
    intro sign t
    have hsome : isDigit (peek t) = true ↔ t.takeWhile isDigit ≠ [] := by
      cases t with
      | nil => decide
      | cons c t => simp [peek, List.takeWhile_cons]
    unfold parseDigits digitsFromText
    dsimp only
    by_cases hnone : t.takeWhile isDigit = []
    · rw [if_pos hnone, if_neg (fun h => hsome.1 h hnone)]
      rfl
    · rw [if_neg hnone, if_pos (hsome.2 hnone)]
      rfl
  unfold parseInt parseIntFromText
  dsimp only
  split_ifs
  · exact hdigits _ _
  · exact hdigits _ _

/-! ### Round trips -/

/-- What the printers and the parsers do with a number. -/
structure PrintedBack (s : Interp) (v : Int32) : Prop where
  toText : intToText v = signedDecimal v.toInt
  printed : printInt v s = (.ok (), { s with output := s.output ++ [.write (signedDecimal v.toInt)] })
  readBack : ReadsNumber s (signedDecimal v.toInt) v
  valStr : ReadsNumber s (called (chars "VAL") [] (called (chars "STR$") [] (signedDecimal v.toInt))) v
  valStrExpr : ∀ t text, Prints .expr t text → t.eval s.vars = .ok v →
    ReadsNumber s (called (chars "VAL") [] (called (chars "STR$") [] text)) v

/-- Every number is printed as its decimal text and read back, and both parsers accept the same texts. -/
theorem numerals_roundTrip : (∀ s v, PrintedBack s v) ∧ ∀ text, parseIntFromText text = (parseInt text).map Prod.fst := by
  refine ⟨fun s v => ⟨intToText_eq v, ?_, (denotes_numeral s v).reads, (denotes_numeral s v).val_str, fun t text htext hv => ?_⟩,
    fun text => (parseInt_eq text).symm⟩
  · rw [printInt, numeral_eq (by decide)]
    rfl
  · exact (denotes_printed htext hv).val_str

end Tg11Kernel.Basic
