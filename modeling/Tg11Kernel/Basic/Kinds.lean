import Tg11Kernel.Basic.Expr

/-! A text has one kind of value. Where a string expression has something to read, a
literal or a string variable or a string function, the number parser returns -1; where it
has nothing to read, the string parser returns -1 at once. `PRINT` tries the
one after the other. -/

namespace Tg11Kernel.Basic

open Lib Lib.Exec

variable {n : ℕ} {p : Parsers} {s t : Interp} {text : Text} {α β : Type}

/-- The program always returns -1. -/
def Fails (m : M α) : Prop := ∀ s, (m s).1 = .fail

namespace Fails

theorem fail : Fails (Exec.fail : M α) := fun _ => rfl

variable {m : M α} {f : α → M β} {c : Prop}

theorem bind (h : Fails m) : Fails (m >>= f) := by
  intro s
  rw [bind_fail (Prod.ext (h s) rfl)]

theorem require_bind [Decidable c] {f : Unit → M β} (hc : ¬ c) : Fails (Exec.require c >>= f) := by
  rw [require_neg hc]
  exact fail

theorem ofOption_bind {o : Option α} (h : ∀ a, Fails (f a)) : Fails (Exec.ofOption o >>= f) := by
  cases o with
  | none => exact fail
  | some a => exact h a

theorem ite [Decidable c] {m' : M α} (h : c → Fails m) (h' : ¬ c → Fails m') : Fails (if c then m else m') := by
  split_ifs with hc
  · exact h hc
  · exact h' hc

end Fails

/-! ### Bytes -/

variable {c : UInt8} {name : Text}

theorem not_isSpace_of_isAlpha : isAlpha c = true → isSpace c = false :=
  forall_byte (Q := fun c => isAlpha c = true → isSpace c = false) (by decide +kernel) c

theorem isIdentTail_of_isAlpha (h : isAlpha c = true) : isIdentTail c = true := by
  unfold isIdentTail
  rw [h]
  rfl

theorem isAlpha_of_up {d : UInt8} (h : up c = up d) (hd : isAlpha d = true) : isAlpha c = true := by
  have hup : ∀ c : UInt8, isAlpha c = isAlpha (up c) := forall_byte (by decide +kernel)
  rw [hup c, h, ← hup d, hd]

theorem eq_dollar_of_up : up c = up ('$' : UInt8) → c = '$' :=
  forall_byte (Q := fun c => up c = up ('$' : UInt8) → c = '$') (by decide +kernel) c

theorem skipSpaces_of_not_isSpace (h : isSpace (peek text) = false) : skipSpaces text = text := by
  cases text with
  | nil => rfl
  | cons c rest => exact List.dropWhile_cons_of_neg (by simpa [peek] using h)

theorem not_isSpace_skipSpaces (text : Text) : isSpace (peek (skipSpaces text)) = false := by
  induction text with
  | nil => decide
  | cons c rest ih =>
    by_cases hc : isSpace c = true
    · rw [skipSpaces, List.dropWhile_cons_of_pos hc]
      exact ih
    · rw [skipSpaces, List.dropWhile_cons_of_neg hc]
      simpa [peek] using hc

@[simp] theorem skipSpaces_skipSpaces (text : Text) : skipSpaces (skipSpaces text) = skipSpaces text :=
  skipSpaces_of_not_isSpace (not_isSpace_skipSpaces text)

/-! ### Where a string begins -/

/-- A literal, or an identifier that a `$` ends. -/
def StringStart (text : Text) : Prop :=
  peek (skipSpaces text) = ('"' : UInt8) ∨
    isAlpha (peek (skipSpaces text)) = true ∧ peek (skipIdent (skipSpaces text).tail) = ('$' : UInt8)

theorem skipIdent_of_startsWithCi (hname : ∀ c ∈ name, isAlpha c = true)
    (h : startsWithCi text (name ++ [('$' : UInt8)]) = true) : peek (skipIdent text) = '$' := by
  induction name generalizing text with
  | nil =>
    have hd : peek text = '$' := by
      simp only [List.nil_append, startsWithCi, Bool.and_true, decide_eq_true_eq] at h
      exact eq_dollar_of_up h
    cases text with
    | nil => cases hd
    | cons c rest =>
      obtain rfl : c = '$' := hd
      rfl
  | cons c name ih =>
    simp only [List.cons_append, startsWithCi, Bool.and_eq_true, decide_eq_true_eq] at h
    have ha := isAlpha_of_up h.1 (hname c (List.mem_cons_self ..))
    cases text with
    | nil => exact absurd ha (by decide)
    | cons d rest =>
      rw [skipIdent, List.dropWhile_cons_of_pos (isIdentTail_of_isAlpha (show isAlpha d = true from ha))]
      exact ih (fun e he => hname e (List.mem_cons_of_mem _ he)) h.2

/-- A string function begins a string. -/
theorem not_callsBuiltin_of_not_stringStart (hnot : ¬ StringStart text) {word : Text}
    (hword : word = c :: (name ++ [('$' : UInt8)])) (hc : isAlpha c = true) (hname : ∀ d ∈ name, isAlpha d = true) :
    ¬ callsBuiltin (skipSpaces text) word = true := by
  intro h
  subst hword
  unfold callsBuiltin nameMatchesCi at h
  simp only [startsWithCi, Bool.and_eq_true, decide_eq_true_eq] at h
  obtain ⟨⟨⟨hup, hrest⟩, -⟩, -⟩ := h
  exact hnot (.inr ⟨isAlpha_of_up hup hc, skipIdent_of_startsWithCi hname hrest⟩)

theorem parseStrVar_of_not_stringStart (h : ¬ StringStart text) (s : Interp) :
    parseStrVar (skipSpaces text) s = (.fail, s) := by
  have hdollar : isAlpha (peek (skipSpaces text)) = true → peek (skipIdent (skipSpaces text).tail) ≠ '$' :=
    fun ha hd => h (.inr ⟨ha, hd⟩)
  unfold parseStrVar parseVarRef
  simp only [skipSpaces_skipSpaces]
  by_cases ha : isAlpha (peek (skipSpaces text)) = true
  · rw [if_pos ha, if_neg (hdollar ha)]
    rfl
  · rw [if_neg ha]
    rfl

/-- Where no string begins, the string parser reads nothing. -/
theorem stringExpr_of_not_stringStart (h : ¬ StringStart text) (s : Interp) :
    (parsers (n + 1)).stringExpr text s = (.fail, s) := by
  have hpart : parseStringPart (parsers n) (skipSpaces text) s = (.fail, s) := by
    unfold parseStringPart
    rw [if_neg fun hquote => h (.inl hquote)]
    by_cases ha : isAlpha (peek (skipSpaces text)) = true
    · have hchr := not_callsBuiltin_of_not_stringStart h (show chars "CHR$" = _ :: (chars "HR" ++ _) from rfl) (by decide) (by decide +kernel)
      have hstr := not_callsBuiltin_of_not_stringStart h (show chars "STR$" = _ :: (chars "TR" ++ _) from rfl) (by decide) (by decide +kernel)
      have hmid := not_callsBuiltin_of_not_stringStart h (show chars "MID$" = _ :: (chars "ID" ++ _) from rfl) (by decide) (by decide +kernel)
      have hleft := not_callsBuiltin_of_not_stringStart h (show chars "LEFT$" = _ :: (chars "EFT" ++ _) from rfl) (by decide) (by decide +kernel)
      have hright := not_callsBuiltin_of_not_stringStart h (show chars "RIGHT$" = _ :: (chars "IGHT" ++ _) from rfl) (by decide) (by decide +kernel)
      rw [if_pos ha, if_neg hchr, if_neg hstr, if_neg hmid, if_neg hleft, if_neg hright]
      exact parseStrVar_of_not_stringStart h s
    · rw [if_neg ha]
      rfl
  show stringLoop (parsers n) (n + 1) [] (skipSpaces text) s = _
  unfold stringLoop
  rw [skipSpaces_skipSpaces]
  exact bind_fail hpart

/-! ### A string is no number -/

/-- The first byte after a name of letters, where an identifier with a `$` begins. -/
theorem drop_of_startsWithCi (hname : ∀ c ∈ name, isAlpha c = true)
    (h : startsWithCi text name = true) (hd : peek (skipIdent text) = '$') :
    peek (skipIdent (text.drop name.length)) = '$' := by
  induction name generalizing text with
  | nil => exact hd
  | cons c name ih =>
    simp only [startsWithCi, Bool.and_eq_true, decide_eq_true_eq] at h
    have ha := isAlpha_of_up h.1 (hname c (List.mem_cons_self ..))
    cases text with
    | nil => exact absurd ha (by decide)
    | cons d rest =>
      rw [skipIdent, List.dropWhile_cons_of_pos (isIdentTail_of_isAlpha (show isAlpha d = true from ha))] at hd
      exact ih (fun e he => hname e (List.mem_cons_of_mem _ he)) h.2 hd

theorem peek_of_skipIdent (h : isIdentTail (peek text) = false) (hd : peek (skipIdent text) = '$') :
    peek text = '$' := by
  cases text with
  | nil => exact hd
  | cons c rest =>
    have hc : isIdentTail c = false := h
    rwa [skipIdent, List.dropWhile_cons_of_neg (by rw [hc]; decide)] at hd

/-- A name that ends where the identifier ends is followed by the `$`. -/
theorem dollar_of_nameMatchesCi (hname : ∀ c ∈ name, isAlpha c = true) (h : nameMatchesCi text name = true)
    (hd : peek (skipIdent text) = '$') : peek (text.drop name.length) = '$' := by
  unfold nameMatchesCi at h
  simp only [Bool.and_eq_true, Bool.not_eq_true'] at h
  exact peek_of_skipIdent h.2 (drop_of_startsWithCi hname h.1 hd)

theorem not_callsBuiltin_of_dollar (hname : ∀ c ∈ name, isAlpha c = true)
    (hd : peek (skipIdent text) = '$') : ¬ callsBuiltin text name = true := by
  intro h
  unfold callsBuiltin at h
  simp only [Bool.and_eq_true, decide_eq_true_eq] at h
  have hdollar := dollar_of_nameMatchesCi hname h.1 hd
  have hskip : skipSpaces (text.drop name.length) = text.drop name.length := skipSpaces_of_not_isSpace (by rw [hdollar]; decide)
  rw [hskip, hdollar] at h
  exact absurd h.2 (by decide)

section Number

variable (ha : isAlpha (peek text) = true) (hd : peek (skipIdent text.tail) = ('$' : UInt8))

include ha hd

theorem dollar_of_tail : peek (skipIdent text) = '$' := by
  cases text with
  | nil => exact absurd ha (by decide)
  | cons c rest =>
    rw [skipIdent, List.dropWhile_cons_of_pos (isIdentTail_of_isAlpha (show isAlpha c = true from ha))]
    exact hd

theorem parseValue_fails (p : Parsers) : Fails (parseValue p text) := by
  have hskip := skipSpaces_of_not_isSpace (not_isSpace_of_isAlpha ha)
  have href : parseVarRef text = some (letterOf (peek text), true, (skipIdent text.tail).tail) := by
    unfold parseVarRef
    simp only [hskip, ha, hd, if_true]
  unfold parseValue parseVarValue
  simp only [hskip, ha, if_true]
  rw [href, ofOption_some, pure_bind_eq]
  exact Fails.require_bind Bool.true_eq_false.mp

theorem parseFn_fails (p : Parsers) (hfn : isFnName text = true) : Fails (parseFn p text) := by
  have hdrop : peek (text.drop 3) = '$' := by
    unfold isFnName at hfn
    simp only [decide_eq_true_eq] at hfn
    obtain ⟨hf, hn, hletter, htail⟩ := hfn
    have hstart : startsWithCi text [('F' : UInt8), ('N' : UInt8), peek (text.drop 2)] = true := by
      simp only [startsWithCi, hf, Bool.and_true, Bool.and_eq_true, decide_eq_true_eq]
      refine ⟨by decide, ?_, ?_⟩
      · rw [← List.drop_one, hn]
        decide
      · rw [← List.drop_one, ← List.drop_one, List.drop_drop]
    apply peek_of_skipIdent htail
    have hname : ∀ c ∈ [('F' : UInt8), ('N' : UInt8), peek (text.drop 2)], isAlpha c = true := by
      intro c hc
      simp only [List.mem_cons, List.not_mem_nil, or_false] at hc
      obtain rfl | rfl | rfl := hc
      · decide
      · decide
      · exact hletter
    exact drop_of_startsWithCi hname hstart (dollar_of_tail ha hd)
  have hnone : Fails (parseBuiltinParenExpr p (text.drop 3)) := by
    unfold parseBuiltinParenExpr expect
    rw [bind_assoc_eq]
    apply Fails.require_bind
    rw [skipSpaces_of_not_isSpace (by rw [hdrop]; decide), hdrop]
    decide
  have hcall : ∀ f, Fails (callFn p f (text.drop 3)) := fun _ => Fails.bind hnone
  intro s
  exact Fails.ofOption_bind hcall s

theorem parseNamed_fails (p : Parsers) : Fails (parseNamed p text) := by
  have hdollar := dollar_of_tail ha hd
  unfold parseNamed
  rw [if_neg (not_callsBuiltin_of_dollar (by decide +kernel) hdollar), if_neg (not_callsBuiltin_of_dollar (by decide +kernel) hdollar),
    if_neg (not_callsBuiltin_of_dollar (by decide +kernel) hdollar), if_neg (not_callsBuiltin_of_dollar (by decide +kernel) hdollar),
    if_neg (not_callsBuiltin_of_dollar (by decide +kernel) hdollar), if_neg (not_callsBuiltin_of_dollar (by decide +kernel) hdollar),
    if_neg (not_callsBuiltin_of_dollar (by decide +kernel) hdollar)]
  apply Fails.ite
  · exact parseFn_fails ha hd p
  · intro _
    exact parseValue_fails ha hd p

end Number

/-- Nothing that is not a sign, a parenthesis, a letter or a digit begins a primary. -/
theorem parseSigned_fails (p : Parsers) (hc : peek text = c) (hspace : isSpace c = false)
    (hsign : c ≠ '-' ∧ c ≠ '+') (hparen : c ≠ '(') (halpha : isAlpha c = false)
    (hdigit : isDigit c = false) : Fails (parseSigned p text) := by
  have hrun : signRun 1 text = (1, text) := by
    cases text with
    | nil => rfl
    | cons d rest =>
      obtain rfl : d = c := hc
      unfold signRun
      rw [if_neg hsign.1, if_neg (by simp [hsign.2, hspace])]
  have hprimary : Fails (parsePrimary p text) := by
    unfold parsePrimary parseValue parseInt parseDigits
    simp only [skipSpaces_of_not_isSpace (by rw [hc, hspace] : isSpace (peek text) = false), hc, hparen, halpha, hsign.1, hdigit,
      if_false, Bool.false_eq_true]
    exact Fails.fail
  unfold parseSigned
  rw [hrun]
  exact Fails.bind hprimary

theorem not_nameMatchesCi (hc : up (peek text) ≠ up c) : ¬ nameMatchesCi text (c :: name) = true := by
  intro h
  unfold nameMatchesCi at h
  simp only [startsWithCi, Bool.and_eq_true, decide_eq_true_eq] at h
  exact hc h.1.1

theorem parseFactor_fails_of_dollar (p : Parsers) (hc : peek text = '$') : Fails (parseFactor p text) := by
  have hskip := skipSpaces_of_not_isSpace (by rw [hc]; decide : isSpace (peek text) = false)
  have hnot : ¬ nameMatchesCi text (chars "NOT") = true := not_nameMatchesCi (by rw [hc]; decide)
  unfold parseFactor
  rw [hskip, if_neg hnot]
  exact parseSigned_fails _ hc (by decide) (by decide) (by decide) (by decide) (by decide)

theorem signRun_of_isAlpha (ha : isAlpha (peek text) = true) : signRun 1 text = (1, text) := by
  cases text with
  | nil => rfl
  | cons c rest =>
    have hc : isAlpha c = true := ha
    have hspace := not_isSpace_of_isAlpha hc
    unfold signRun
    rw [if_neg (by rintro rfl; exact absurd hc (by decide)), if_neg]
    rintro (rfl | h)
    · exact absurd hc (by decide)
    · rw [hspace] at h
      cases h

/-- Where a string begins, the number parser returns -1. -/
theorem expr_fails_of_stringStart (n : ℕ) (h : StringStart text) : Fails ((parsers (n + 2)).expr text) := by
  apply Fails.bind
  apply Fails.bind
  unfold parseFactor
  obtain hquote | ⟨ha, hd⟩ := h
  · have hnot : ¬ nameMatchesCi (skipSpaces text) (chars "NOT") = true := not_nameMatchesCi (by rw [hquote]; decide)
    rw [if_neg hnot]
    exact parseSigned_fails _ hquote (by decide) (by decide) (by decide) (by decide) (by decide)
  · have hdollar := dollar_of_tail ha hd
    apply Fails.ite
    · intro hnot
      have hdrop : peek ((skipSpaces text).drop 3) = '$' :=
        dollar_of_nameMatchesCi (show ∀ c ∈ chars "NOT", isAlpha c = true by decide +kernel) hnot hdollar
      unfold parseNot
      rw [skipSpaces_of_not_isSpace (by rw [hdrop]; decide)]
      exact Fails.bind (parseFactor_fails_of_dollar (parsers n) hdrop)
    · intro _
      unfold parseSigned parsePrimary
      rw [signRun_of_isAlpha ha]
      apply Fails.bind
      show Fails (if peek (skipSpaces text) = '(' then _ else _)
      rw [if_neg (by intro hp; rw [hp] at ha; exact absurd ha (by decide)), if_pos ha]
      exact parseNamed_fails ha hd _

end Tg11Kernel.Basic
