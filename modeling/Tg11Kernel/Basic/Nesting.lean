import Tg11Kernel.Basic.History
import Mathlib.Data.List.TakeWhile

/-! How deep the parsers nest. A parser that returns a value has read something, so
every parser that it calls reads a shorter text, or the body of a function that it has
just entered. By induction on the depth, `parsers n` keep their promise wherever there
is room for the text in `n`. -/

namespace Tg11Kernel.Basic

open Lib Lib.Exec Relation

variable {n k : ℕ} {P : Prop} {α β : Type} {s t : Interp} {text : Text}

/-! ### Texts that are left -/

theorem length_skipSpaces_le (text : Text) : (skipSpaces text).length ≤ text.length := List.length_dropWhile_le ..

theorem length_skipIdent_le (text : Text) : (skipIdent text).length ≤ text.length := List.length_dropWhile_le ..

variable {c : UInt8} {v : Int32} {rest : Text} {i : Letter}

theorem length_pos_of_peek (hc : c ≠ 0) (h : peek text = c) : 0 < text.length := by
  cases text with
  | nil => exact absurd h.symm hc
  | cons a rest => simp

theorem length_pos_of_isAlpha (h : isAlpha (peek text) = true) : 0 < text.length := by
  cases text with
  | nil => revert h; decide
  | cons a rest => simp

theorem parseDigits_shorter {sign : Int32} (h : parseDigits sign text = some (v, rest)) :
    rest.length < text.length := by
  unfold parseDigits at h
  split_ifs at h with hd
  simp only [Option.some.injEq, Prod.mk.injEq] at h
  obtain ⟨-, rfl⟩ := h
  cases text with
  | nil => revert hd; decide
  | cons a text =>
    have hle : (text.dropWhile isDigit).length ≤ text.length := List.length_dropWhile_le ..
    rw [List.dropWhile_cons_of_pos (show isDigit a = true from hd), List.length_cons]
    omega

theorem parseInt_shorter (h : parseInt text = some (v, rest)) : rest.length < text.length := by
  have hskip := length_skipSpaces_le text
  simp only [parseInt] at h
  split_ifs at h
  · have hlt := parseDigits_shorter h
    rw [List.length_tail] at hlt
    omega
  · have hlt := parseDigits_shorter h
    omega

theorem parseVarRef_shorter {isString : Bool} (h : parseVarRef text = some (i, isString, rest)) :
    rest.length < text.length := by
  have hskip := length_skipSpaces_le text
  have hident := length_skipIdent_le (skipSpaces text).tail
  simp only [parseVarRef] at h
  split_ifs at h with ha hs
  all_goals
    have hpos := length_pos_of_isAlpha ha
    rw [List.length_tail] at hident
    simp only [Option.some.injEq, Prod.mk.injEq] at h
    obtain ⟨-, -, rfl⟩ := h
  · rw [List.length_tail]
    omega
  · omega

theorem parseVar_shorter (h : parseVar text = some (i, rest)) : rest.length < text.length := by
  unfold parseVar at h
  split at h
  · rename_i j rest' heq
    simp only [Option.some.injEq, Prod.mk.injEq] at h
    obtain ⟨-, rfl⟩ := h
    exact parseVarRef_shorter heq
  · cases h

theorem parseStringLiteral_shorter {room : ℕ} {content : Text} (h : parseStringLiteral room text = some (content, rest)) :
    rest.length < text.length := by
  have hskip := length_skipSpaces_le text
  simp only [parseStringLiteral] at h
  split_ifs at h with hquote hend
  simp only [Option.some.injEq, Prod.mk.injEq] at h
  obtain ⟨-, rfl⟩ := h
  have hpos := length_pos_of_peek (by decide) hquote
  have hdrop := List.length_dropWhile_le (fun c => decide (c ≠ ('"' : UInt8))) (skipSpaces text).tail
  rw [List.length_tail] at hdrop
  rw [List.length_tail]
  omega

theorem signRun_le (sign : Int32) (text : Text) : (signRun sign text).2.length ≤ text.length := by
  induction text generalizing sign with
  | nil => exact Nat.le_refl _
  | cons c text ih =>
    unfold signRun
    split_ifs
    · exact (ih _).trans (Nat.le_succ _)
    · exact (ih _).trans (Nat.le_succ _)
    · exact Nat.le_refl _

/-! ### The parsers that are called -/

/-- What the parsers promise on a text: they read some of it. -/
abbrev Reads (P : Prop) (m : M (α × Text)) (s : Interp) (text : Text) : Prop :=
  Promise P m s fun r => r.2.length < text.length

structure ParsersOk (n : ℕ) (p : Parsers) : Prop where
  factor : ∀ t text, Reads (Room n t text) (p.factor text) t text
  expr : ∀ t text, Reads (Room n t text) (p.expr text) t text
  stringExpr : ∀ t text, Reads (Room n t text) (p.stringExpr text) t text

theorem expect_bind (hc : c ≠ 0) {f : Text → M β} {T : β → Prop}
    (hf : ∀ rest, rest.length < text.length → Promise P (f rest) s T) : Promise P (expect c text >>= f) s T := by
  unfold expect
  rw [bind_assoc_eq]
  apply Contract.require_bind
  intro hpeek
  apply hf
  have hskip := length_skipSpaces_le text
  have hpos := length_pos_of_peek hc hpeek
  rw [List.length_tail]
  omega

variable {p : Parsers} (hp : ParsersOk n p)

section Parse

include hp

variable {rest : Text} {u w : Interp} {f : DefFn} {arg old : Int32} {op : Text → Option Infix} {operand : Text → M (Int32 × Text)}

/-- A call of a parser on a text that is shorter than the caller's. -/
theorem ParsersOk.expr_at (hlen : rest.length < text.length) (hview : t.view = s.view) :
    Reads (Room (n + 1) s text) (p.expr rest) t rest := (hp.expr t rest).imp fun hroom => hroom.deeper hview hlen

theorem ParsersOk.stringExpr_at (hlen : rest.length < text.length) (hview : t.view = s.view) :
    Reads (Room (n + 1) s text) (p.stringExpr rest) t rest := (hp.stringExpr t rest).imp fun hroom => hroom.deeper hview hlen

theorem parseBuiltinParenExpr_reads (t : Interp) (text : Text) :
    Reads (Room (n + 1) t text) (parseBuiltinParenExpr p text) t text := by
  unfold parseBuiltinParenExpr
  apply expect_bind (by decide)
  intro s₁ h₁
  apply (hp.expr_at h₁ rfl).bind
  rintro ⟨v, s₂⟩ u h₂ _ _
  apply expect_bind (by decide)
  intro s₃ h₃
  apply Contract.pure
  exact h₃.trans (h₂.trans h₁)

theorem parseBuiltinParenString_reads (t : Interp) (text : Text) :
    Reads (Room (n + 1) t text) (parseBuiltinParenString p text) t text := by
  unfold parseBuiltinParenString
  apply expect_bind (by decide)
  intro s₁ h₁
  apply (hp.stringExpr_at h₁ rfl).bind
  rintro ⟨v, s₂⟩ u h₂ _ _
  apply expect_bind (by decide)
  intro s₃ h₃
  apply Contract.pure
  exact h₃.trans (h₂.trans h₁)

/-! ### Values -/

omit hp in
theorem arrayGet_promise (i : Letter) (pos : Int32) (t : Interp) : Promise P (arrayGet i pos) t fun _ => True := by
  unfold arrayGet
  apply Contract.gets_bind
  apply Contract.require_bind
  intro _
  exact Contract.gets trivial

theorem parseVarValue_reads (t : Interp) (text : Text) : Reads (Room (n + 1) t text) (parseVarValue p text) t text := by
  unfold parseVarValue
  apply Contract.ofOption_bind
  rintro ⟨i, isString, s₁⟩ heq
  have h₁ := parseVarRef_shorter heq
  have hskip := length_skipSpaces_le s₁
  apply Contract.require_bind
  intro _
  dsimp only
  split_ifs
  · have htail : (skipSpaces s₁).tail.length < text.length := by
      rw [List.length_tail]
      omega
    apply (hp.expr_at htail rfl).bind
    rintro ⟨pos, s₂⟩ u h₂ _ _
    apply expect_bind (by decide)
    intro s₃ h₃
    apply (arrayGet_promise i pos u).bind
    intro v w _ _ _
    apply Contract.pure
    exact h₃.trans (h₂.trans htail)
  · apply Contract.gets_bind
    apply Contract.pure
    exact Nat.lt_of_le_of_lt hskip h₁

theorem parseValue_reads (t : Interp) (text : Text) : Reads (Room (n + 1) t text) (parseValue p text) t text := by
  have hskip := length_skipSpaces_le text
  simp only [parseValue]
  split_ifs
  · apply ((parseVarValue_reads hp t (skipSpaces text)).imp fun hroom => hroom.mono rfl hskip).mono
    intro r hr
    exact hr.trans_le hskip
  · apply Contract.ofOption
    rintro ⟨v, rest⟩ heq
    exact (parseInt_shorter heq).trans_le hskip

/-! ### Strings -/

/-- What a builtin makes of its argument. -/
theorem parenExpr_map (f : Int32 → β) (t : Interp) (text : Text) :
    Reads (Room (n + 1) t text) (do let (v, s) ← parseBuiltinParenExpr p text; pure (f v, s)) t text := by
  apply (parseBuiltinParenExpr_reads hp t text).bind
  rintro ⟨v, s₁⟩ u h₁ _ _
  exact Contract.pure h₁

theorem parenString_map (f : Text → β) (t : Interp) (text : Text) :
    Reads (Room (n + 1) t text) (do let (tmp, s) ← parseBuiltinParenString p text; pure (f tmp, s)) t text := by
  apply (parseBuiltinParenString_reads hp t text).bind
  rintro ⟨v, s₁⟩ u h₁ _ _
  exact Contract.pure h₁

theorem parseMidLength_promise (hlen : rest.length < text.length) (hview : t.view = s.view) :
    Promise (Room (n + 1) s text) (parseMidLength p rest) t fun r => r.2.length ≤ rest.length := by
  have hskip := length_skipSpaces_le rest
  simp only [parseMidLength]
  split_ifs
  · have htail : (skipSpaces rest).tail.length ≤ rest.length := by
      rw [List.length_tail]
      omega
    apply (hp.expr_at (Nat.lt_of_le_of_lt htail hlen) hview).mono
    intro r hr
    exact hr.le.trans htail
  · exact Contract.pure hskip

theorem parseMid_reads (t : Interp) (text : Text) : Reads (Room (n + 1) t text) (parseMid p text) t text := by
  unfold parseMid
  apply expect_bind (by decide)
  intro s₁ h₁
  apply (hp.stringExpr_at h₁ rfl).bind
  rintro ⟨src, s₂⟩ u h₂ hu _
  apply expect_bind (by decide)
  intro s₃ h₃
  apply (hp.expr_at (h₃.trans (h₂.trans h₁)) hu).bind
  rintro ⟨start, s₄⟩ v h₄ hv _
  have hlen₄ : s₄.length < text.length := h₄.trans (h₃.trans (h₂.trans h₁))
  apply (parseMidLength_promise hp hlen₄ (hv.trans hu)).bind
  rintro ⟨length, s₅⟩ w h₅ _ _
  apply expect_bind (by decide)
  intro s₆ h₆
  apply Contract.pure
  exact h₆.trans (Nat.lt_of_le_of_lt h₅ hlen₄)

theorem parseSide_reads (side : Text → Int32 → Text) (t : Interp) (text : Text) :
    Reads (Room (n + 1) t text) (parseSide p side text) t text := by
  unfold parseSide
  apply expect_bind (by decide)
  intro s₁ h₁
  apply (hp.stringExpr_at h₁ rfl).bind
  rintro ⟨src, s₂⟩ u h₂ hu _
  apply expect_bind (by decide)
  intro s₃ h₃
  apply (hp.expr_at (h₃.trans (h₂.trans h₁)) hu).bind
  rintro ⟨count, s₄⟩ v h₄ _ _
  apply expect_bind (by decide)
  intro s₅ h₅
  apply Contract.pure
  exact h₅.trans (h₄.trans (h₃.trans (h₂.trans h₁)))

omit hp in
theorem parseStrVar_reads (t : Interp) (text : Text) : Reads P (parseStrVar text) t text := by
  unfold parseStrVar
  apply Contract.ofOption_bind
  rintro ⟨i, isString, rest⟩ heq
  apply Contract.require_bind
  intro _
  apply Contract.gets_bind
  exact Contract.pure (parseVarRef_shorter heq)

omit hp in
/-- A parser that starts further on in the text. -/
theorem reads_drop {m : Text → M (α × Text)} (h : ∀ t text, Reads (Room (n + 1) t text) (m text) t text) (k : ℕ) (t : Interp)
    (text : Text) : Reads (Room (n + 1) t text) (m (text.drop k)) t text := by
  have hdrop : (text.drop k).length ≤ text.length := by
    rw [List.length_drop]
    omega
  apply ((h t (text.drop k)).imp fun hroom => hroom.mono rfl hdrop).mono
  intro r hr
  exact hr.trans_le hdrop

theorem parseStringPart_reads (t : Interp) (text : Text) : Reads (Room (n + 1) t text) (parseStringPart p text) t text := by
  unfold parseStringPart
  split_ifs
  · apply Contract.ofOption
    rintro ⟨content, rest⟩ heq
    exact parseStringLiteral_shorter heq
  · exact reads_drop (parenExpr_map hp chrOf) 4 t text
  · exact reads_drop (parenExpr_map hp intToText) 4 t text
  · exact reads_drop (parseMid_reads hp) 4 t text
  · exact reads_drop (parseSide_reads hp leftOf) 5 t text
  · exact reads_drop (parseSide_reads hp rightOf) 6 t text
  · exact parseStrVar_reads t text
  · exact Contract.error

/-- Each operand takes a byte, so `k` operands are enough for a text that is shorter. -/
theorem stringLoop_reads (k : ℕ) (out : Text) (t : Interp) (text : Text) :
    Reads (text.length < k ∧ Room (n + 1) t text) (stringLoop p k out text) t text := by
  induction k generalizing out t text with
  | zero => exact Contract.hang_of fun h => Nat.not_lt_zero _ h.1
  | succ k ih =>
    unfold stringLoop
    have hskip := length_skipSpaces_le text
    apply ((parseStringPart_reads hp t (skipSpaces text)).imp fun h => h.2.mono rfl hskip).bind
    rintro ⟨part, s₁⟩ u h₁ hu _
    have hskip₁ := length_skipSpaces_le s₁
    dsimp only at h₁ ⊢
    split_ifs
    · have htail : (skipSpaces s₁).tail.length < text.length := by
        rw [List.length_tail]
        omega
      apply ((ih _ u (skipSpaces s₁).tail).imp fun h => ⟨by omega, h.2.mono hu htail.le⟩).mono
      intro r hr
      exact hr.trans htail
    · apply Contract.pure
      show (skipSpaces s₁).length < text.length
      omega

/-! ### Factors -/

omit hp in
theorem drawBelow_promise (v : Int32) (t : Interp) : Promise P (drawBelow v) t fun _ => True := by
  unfold drawBelow
  split_ifs
  · exact Contract.pure trivial
  · have hview : ∀ r, ({ t with randState := r } : Interp).view = t.view := fun _ => rfl
    apply Contract.modify_bind (.other rfl rfl) (hview _)
    apply Contract.gets_bind
    exact Contract.pure trivial

theorem parseRnd_reads (t : Interp) (text : Text) : Reads (Room (n + 1) t text) (parseRnd p text) t text := by
  unfold parseRnd
  apply (parseBuiltinParenExpr_reads hp t text).bind
  rintro ⟨v, s₁⟩ u h₁ _ _
  apply (drawBelow_promise v u).bind
  intro w x _ _ _
  exact Contract.pure h₁

theorem parseEof_reads (t : Interp) (text : Text) : Reads (Room (n + 1) t text) (parseEof p text) t text := by
  unfold parseEof
  apply (parseBuiltinParenExpr_reads hp t text).bind
  rintro ⟨v, s₁⟩ u h₁ _ _
  apply Contract.gets_bind
  exact Contract.pure h₁

theorem parseInstr_reads (t : Interp) (text : Text) : Reads (Room (n + 1) t text) (parseInstr p text) t text := by
  unfold parseInstr
  apply expect_bind (by decide)
  intro s₁ h₁
  apply (hp.stringExpr_at h₁ rfl).bind
  rintro ⟨haystack, s₂⟩ u h₂ hu _
  apply expect_bind (by decide)
  intro s₃ h₃
  apply (hp.stringExpr_at (h₃.trans (h₂.trans h₁)) hu).bind
  rintro ⟨needle, s₄⟩ v h₄ _ _
  apply expect_bind (by decide)
  intro s₅ h₅
  apply Contract.pure
  exact h₅.trans (h₄.trans (h₃.trans (h₂.trans h₁)))

/-- The body of a function is evaluated after the function was entered. A function that
is being evaluated already has gone wrong; any other one has room for its body. -/
theorem body_promise (f : DefFn) (ht : t.history = u.history.enter f.fnLetter) (hview : u.view = s.view) :
    Promise (Room (n + 1) s text) (p.expr f.body.val) t fun _ => True := by
  have hbody := hp.expr t f.body.val
  refine ⟨hbody.walk, fun a w hw => ⟨(hbody.ok a w hw).1, trivial⟩, hbody.fail, fun w hw => ⟨(hbody.hang w hw).1, fun hroom => ?_⟩⟩
  by_cases hactive : f.fnLetter ∈ u.history.active
  · have hstuck : Stuck t := by
      refine .inl ⟨⟨f.fnLetter, u.history.active⟩, ?_, hactive⟩
      rw [ht]
      exact List.mem_cons_self ..
    have hwalk := hbody.walk
    unfold Leads at hwalk
    rw [hw] at hwalk
    exact invariant_of_moves (fun _ _ hs hmove => hmove.stuck hs) hwalk hstuck
  · apply (hbody.hang w hw).2
    have hfree := free_enter hactive ht
    have hlen := f.body.property
    rw [free_eq (congrArg Prod.fst hview)] at hfree
    unfold Room at hroom ⊢
    omega

omit hp in
/-- After a function was left, the view is the one before it was entered. -/
theorem left_view (h : w.view = (u.entered f arg).view) :
    (w.left f old).view = u.view := by
  have hactive : w.history.active = f.fnLetter :: u.history.active := congrArg Prod.fst h
  have hrefused : w.history.refused = u.history.refused := congrArg Prod.snd h
  show (w.history.active.tail, w.history.refused) = _
  rw [hactive, hrefused]
  rfl

omit hp in
theorem left_active (h : w.view.1 = (u.entered f arg).view.1) :
    (w.left f old).view.1 = u.view.1 := by
  show w.history.active.tail = _
  rw [show w.history.active = f.fnLetter :: u.history.active from h]
  rfl

theorem callFn_reads (f : DefFn) (t : Interp) (text : Text) : Reads (Room (n + 1) t text) (callFn p f text) t text := by
  unfold callFn
  apply (parseBuiltinParenExpr_reads hp t text).bind
  rintro ⟨arg, s₁⟩ u h₁ hu _
  apply Contract.gets_bind
  -- the view changes in between, so the parts are put together here
  have henter : Move u (u.entered f arg) := .enter f.fnLetter rfl rfl
  obtain ⟨hwalk, hok, hfail, hhang⟩ := body_promise (t := u.entered f arg) hp f rfl hu
  unfold Leads at hwalk
  rcases hbody : p.expr f.body.val (u.entered f arg) with ⟨⟨v, rest⟩ | _ | _, w⟩ <;> rw [hbody] at hwalk
  · apply Contract.of_eq (o := .ok (v, s₁)) (t := w.left f (u.vars f.paramVar))
    · show ((Exec.attempt (p.expr f.body.val) >>= _) (u.entered f arg)) = _
      rw [bind_ok (attempt_ok hbody)]
      rfl
    · exact (ReflTransGen.head henter hwalk).tail (.leave rfl rfl)
    · intro a ha
      cases ha
      exact ⟨left_view (hok _ _ hbody).1, h₁⟩
    · exact nofun
    · exact nofun
  · apply Contract.of_eq (o := .fail) (t := w.left f (u.vars f.paramVar))
    · show ((Exec.attempt (p.expr f.body.val) >>= _) (u.entered f arg)) = _
      rw [bind_ok (attempt_fail hbody)]
      rfl
    · exact (ReflTransGen.head henter hwalk).tail (.leave rfl rfl)
    · exact nofun
    · intro _
      exact left_active (hfail w hbody)
    · exact nofun
  · apply Contract.of_eq (o := .hang) (t := w)
    · show ((Exec.attempt (p.expr f.body.val) >>= _) (u.entered f arg)) = _
      exact bind_hang (attempt_hang hbody)
    · exact ReflTransGen.head henter hwalk
    · exact nofun
    · exact nofun
    · intro _
      exact hhang w hbody

theorem parseFn_reads (t : Interp) (text : Text) : Reads (Room (n + 1) t text) (parseFn p text) t text := by
  unfold parseFn
  apply Contract.gets_bind
  apply Contract.ofOption_bind
  intro f _
  exact reads_drop (callFn_reads hp f) 3 t text

theorem parseNamed_reads (t : Interp) (text : Text) : Reads (Room (n + 1) t text) (parseNamed p text) t text := by
  unfold parseNamed
  split_ifs
  · exact reads_drop (parenExpr_map hp absOf) 3 t text
  · exact reads_drop (parseRnd_reads hp) 3 t text
  · exact reads_drop (parenString_map hp fun tmp => Int32.ofNat tmp.length) 3 t text
  · exact reads_drop (parenString_map hp fun tmp => (parseIntFromText tmp).getD 0) 3 t text
  · exact reads_drop (parenString_map hp fun tmp => (peek tmp).toUInt32.toInt32) 3 t text
  · exact reads_drop (parseEof_reads hp) 3 t text
  · exact reads_drop (parseInstr_reads hp) 5 t text
  · exact parseFn_reads hp t text
  · exact parseValue_reads hp t text

theorem parsePrimary_reads (t : Interp) (text : Text) : Reads (Room (n + 1) t text) (parsePrimary p text) t text := by
  unfold parsePrimary
  split_ifs
  · exact parseBuiltinParenExpr_reads hp t text
  · exact parseNamed_reads hp t text
  · exact parseValue_reads hp t text

omit hp in
theorem length_lt_of_startsWithCi {name : Text} (hname : ∀ c ∈ name, up c ≠ 0) (h : startsWithCi text name = true) :
    name.length ≤ text.length := by
  induction name generalizing text with
  | nil => exact Nat.zero_le _
  | cons c name ih =>
    unfold startsWithCi at h
    simp only [Bool.and_eq_true, decide_eq_true_eq] at h
    cases text with
    | nil => exact absurd h.1.symm (hname c (List.mem_cons_self ..))
    | cons d text => exact Nat.succ_le_succ (ih (fun e he => hname e (List.mem_cons_of_mem _ he)) h.2)

theorem parseNot_reads (hnot : 3 ≤ text.length) (t : Interp) : Reads (Room (n + 1) t text) (parseNot p text) t text := by
  unfold parseNot
  have hlen : (skipSpaces (text.drop 3)).length < text.length := by
    have hskip := length_skipSpaces_le (text.drop 3)
    rw [List.length_drop] at hskip
    omega
  apply ((hp.factor t _).imp fun hroom => hroom.deeper rfl hlen).bind
  rintro ⟨v, s₁⟩ u h₁ _ _
  apply Contract.pure
  exact h₁.trans hlen

theorem parseSigned_reads (t : Interp) (text : Text) : Reads (Room (n + 1) t text) (parseSigned p text) t text := by
  unfold parseSigned
  have hsign := signRun_le 1 text
  apply ((parsePrimary_reads hp t _).imp fun hroom => hroom.mono rfl hsign).bind
  rintro ⟨v, s₁⟩ u h₁ _ _
  apply Contract.pure
  exact h₁.trans_le hsign

theorem parseFactor_reads (t : Interp) (text : Text) : Reads (Room (n + 1) t text) (parseFactor p text) t text := by
  have hskip := length_skipSpaces_le text
  simp only [parseFactor]
  split_ifs with hnot
  · have hlen : 3 ≤ (skipSpaces text).length := by
      unfold nameMatchesCi at hnot
      exact length_lt_of_startsWithCi (by decide +kernel) (Bool.and_eq_true_iff.1 hnot).1
    apply ((parseNot_reads hp hlen t).imp fun hroom => hroom.mono rfl hskip).mono
    intro r hr
    exact hr.trans_le hskip
  · apply ((parseSigned_reads hp t _).imp fun hroom => hroom.mono rfl hskip).mono
    intro r hr
    exact hr.trans_le hskip

/-! ### Levels -/

omit hp in
/-- The operators of a level stand in the text, and keep the promise. -/
structure LevelOps (op : Text → Option Infix) : Prop where
  length : ∀ text o, op text = some o → 1 ≤ o.length ∧ 0 < text.length
  apply : ∀ (P : Prop) text o, op text = some o → ∀ a b t, Promise P (o.apply a b) t fun _ => True

omit hp in
theorem termOp_ok : LevelOps termOp := by
  constructor
  case length =>
    intro text o h
    unfold termOp at h
    split_ifs at h with h₁ h₂ h₃
    all_goals cases h
    · exact ⟨Nat.le_refl _, length_pos_of_peek (by decide) h₁⟩
    · exact ⟨Nat.le_refl _, length_pos_of_peek (by decide) h₂⟩
    · exact ⟨Nat.le_refl _, length_pos_of_peek (by decide) h₃⟩
  case apply =>
    intro P text o h a b t
    unfold termOp at h
    split_ifs at h
    all_goals cases h
    · exact Contract.pure trivial
    · exact divide_promise _ a b t
    · exact divide_promise _ a b t

omit hp in
theorem exprOp_ok : LevelOps exprOp := by
  have hword : ∀ {text : Text} (name : Text), (∀ c ∈ name, up c ≠ 0) → 0 < name.length → nameMatchesCi text name = true →
      0 < text.length := by
    intro text name hname hpos h
    unfold nameMatchesCi at h
    exact hpos.trans_le (length_lt_of_startsWithCi hname (Bool.and_eq_true_iff.1 h).1)
  constructor
  case length =>
    intro text o h
    unfold exprOp at h
    split_ifs at h with h₁ h₂ h₃ h₄ h₅
    all_goals cases h
    · exact ⟨Nat.le_refl _, length_pos_of_peek (by decide) h₁⟩
    · exact ⟨Nat.le_refl _, length_pos_of_peek (by decide) h₂⟩
    · exact ⟨by decide, hword _ (by decide +kernel) (by decide) h₃⟩
    · exact ⟨by decide, hword _ (by decide +kernel) (by decide) h₄⟩
    · exact ⟨by decide, hword _ (by decide +kernel) (by decide) h₅⟩
  case apply =>
    intro P text o h a b t
    unfold exprOp at h
    split_ifs at h
    all_goals
      cases h
      exact Contract.pure trivial

omit hp in
/-- An operator takes a byte, so a loop over fewer bytes than it has turns comes to its end. -/
theorem levelLoop_promise (hop : LevelOps op)
    (hoperand : ∀ t text, Reads (Room (n + 1) t text) (operand text) t text) (k : ℕ) (lhs : Int32) (t : Interp) (text : Text) :
    Promise (text.length < k ∧ Room (n + 1) t text) (levelLoop op operand k lhs text) t fun r => r.2.length ≤ text.length := by
  induction k generalizing lhs t text with
  | zero => exact Contract.hang_of fun h => Nat.not_lt_zero _ h.1
  | succ k ih =>
    unfold levelLoop
    have hskip := length_skipSpaces_le text
    dsimp only
    cases ho : op (skipSpaces text) with
    | none => exact Contract.pure hskip
    | some o =>
      obtain ⟨hone, hpos⟩ := hop.length _ _ ho
      have hdrop : ((skipSpaces text).drop o.length).length < text.length := by
        rw [List.length_drop]
        omega
      apply ((hoperand t _).imp fun h => h.2.mono rfl hdrop.le).bind
      rintro ⟨rhs, s₁⟩ u h₁ hu _
      apply (hop.apply _ _ _ ho lhs rhs u).bind
      intro v w _ hw _
      have hlen : s₁.length < text.length := h₁.trans hdrop
      apply ((ih v w s₁).imp fun h => ⟨by omega, h.2.mono (hw.trans hu) hlen.le⟩).mono
      intro r hr
      exact hr.trans hlen.le

omit hp in
/-- An operand, and then the loop over the operators after it. -/
theorem level_reads (hop : LevelOps op)
    (hoperand : ∀ t text, Reads (Room (n + 1) t text) (operand text) t text) (t : Interp) (text : Text) :
    Reads (Room (n + 1) t text) (do let (lhs, s) ← operand text; levelLoop op operand n lhs s) t text := by
  apply (hoperand t text).bind
  rintro ⟨lhs, s₁⟩ u h₁ hu _
  apply ((levelLoop_promise hop hoperand n lhs u s₁).imp fun h => ⟨?_, h.mono hu h₁.le⟩).mono
  · intro r hr
    exact Nat.lt_of_le_of_lt hr h₁
  · unfold Room at h
    dsimp only at h₁
    omega

theorem parseTerm_reads (t : Interp) (text : Text) : Reads (Room (n + 1) t text) (parseTerm p n text) t text :=
  level_reads termOp_ok (parseFactor_reads hp) t text

theorem parseExpr_reads (t : Interp) (text : Text) : Reads (Room (n + 1) t text) (parseExpr p n text) t text :=
  level_reads exprOp_ok (parseTerm_reads hp) t text

theorem parseStringExpr_reads (t : Interp) (text : Text) :
    Reads (Room (n + 1) t text) (parseStringExpr p (n + 1) text) t text := by
  unfold parseStringExpr
  have hskip := length_skipSpaces_le text
  apply ((stringLoop_reads hp (n + 1) [] t (skipSpaces text)).imp fun h => ⟨?_, h.mono rfl hskip⟩).mono
  · intro r hr
    exact hr.trans_le hskip
  · unfold Room at h
    omega

end Parse

/-- However deep they may nest. -/
theorem parsersOk (n : ℕ) : ParsersOk n (parsers n) := by
  induction n with
  | zero =>
    have hzero : ∀ t text, ¬ Room 0 t text := fun _ _ => Nat.not_lt_zero _
    exact ⟨fun t text => Contract.hang_of (hzero t text), fun t text => Contract.hang_of (hzero t text),
      fun t text => Contract.hang_of (hzero t text)⟩
  | succ n ih => exact ⟨parseFactor_reads ih, parseExpr_reads ih, parseStringExpr_reads ih⟩

end Tg11Kernel.Basic
