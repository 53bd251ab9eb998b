import Tg11Kernel.Basic.AssignmentRule
import Tg11Kernel.Basic.StringEvaluation
import Tg11Kernel.Basic.Strings

/-! Assignments with `LET` and without. The two copies of the code differ in their messages
only. Both take a negative index for no index at all, leave what stands behind an expression
unread, and read of a string only the literal or the variable that it begins with. -/

namespace Tg11Kernel.Basic

open Lib Lib.Exec

variable {n : ℕ} {α β : Type} {p : Parsers} {s t u : Interp} {lines : List Line} {text rhs after : Text}

/-! ### The two copies -/

/-- The messages of one copy. -/
structure Wording where
  index : String
  paren : String
  equals : String
  literal : String
  string : String
  number : String
  range : String

/-- An assignment behind the name of its target. -/
def assignTo (lines : List Line) (p : Parsers) (w : Wording) (i : Letter) (isString : Bool) (text : Text) : M Flow := do
  let (index, text) ← targetIndex lines p isString w.index w.paren (skipSpaces text)
  check lines (peek text = ('=' : UInt8)) w.equals
  assign lines p i isString index w.literal w.string w.number w.range text.tail

def letWording : Wording :=
  ⟨"LET array index parse error", "LET array missing ')'", "LET missing '='", "LET string literal error", "LET string value error",
    "LET value error", "LET array index out of range"⟩

def plainWording : Wording :=
  ⟨"assignment array index parse error", "assignment array missing ')'", "unknown statement", "assignment string literal error",
    "assignment string value error", "assignment value error", "assignment array index out of range"⟩

theorem parseVarRef_skipSpaces (text : Text) : parseVarRef (skipSpaces text) = parseVarRef text := by
  unfold parseVarRef
  rw [skipSpaces_skipSpaces]

variable {i : Letter} {isString : Bool} {rest a front : Text} {c : UInt8} {target : Target}

theorem letStatement_eq {b : Text} (hb : Blanks b)
    (href : parseVarRef text = some (i, isString, rest)) :
    letStatement lines p (chars "LET" ++ (b ++ text)) = assignTo lines p letWording i isString rest := by
  have hname : parseVarRef (skipSpaces ((chars "LET" ++ (b ++ text)).drop 3)) = some (i, isString, rest) := by
    rw [← href, ← parseVarRef_skipSpaces text, ← skipSpaces_blanks hb text]
    rfl
  funext s
  unfold letStatement
  rw [bind_ok (orErr_some lines "LET var error" hname s)]
  rfl

theorem assignStatement_eq (ha : isAlpha (peek text) = true)
    (href : parseVarRef text = some (i, isString, rest)) :
    assignStatement lines p text = assignTo lines p plainWording i isString rest := by
  unfold assignStatement assignTo
  rw [if_pos ha, href]
  funext s
  show (targetIndex lines p isString plainWording.index plainWording.paren (skipSpaces rest) >>= _) s = _
  rw [bind_apply, bind_apply]
  rcases targetIndex lines p isString plainWording.index plainWording.paren (skipSpaces rest) s with ⟨⟨index, text⟩ | _ | _, t⟩
  · dsimp only
    split_ifs with heq
    · rw [bind_ok (check_ok _ heq t)]
      rfl
    · rw [check_neg _ heq]
      rfl
  · rfl
  · rfl

theorem dispatch_assign (h : beginsKeyword text = false) : dispatch lines p n text = assignStatement lines p text := by
  unfold beginsKeyword statementWords at h
  simp only [List.any_cons, List.any_nil, Bool.or_false, Bool.or_eq_false_iff] at h
  obtain ⟨⟨hwords, hwhile⟩, hdef⟩ := h
  unfold dispatch
  simp only [hwords, hwhile, hdef, Bool.or_self, Bool.false_and, Bool.false_eq_true, if_false]

/-! ### Numbers -/

section Number

variable {i : Letter} {a : Text} {index v : Int32} {rest : Text} (w : Wording)

theorem targetIndex_none (ha : Blanks a) (isString : Bool) (s : Interp) :
    targetIndex lines p isString w.index w.paren (skipSpaces (a ++ ('=' : UInt8) :: rhs)) s = (.ok (-1, ('=' : UInt8) :: rhs), s) := by
  have hparen : ¬ (isString = false ∧ peek (('=' : UInt8) :: rhs) = ('(' : UInt8)) := fun h =>
    absurd (show ('=' : UInt8) = ('(' : UInt8) from h.2) (by decide)
  rw [skipSpaces_byte ha (by decide)]
  unfold targetIndex
  rw [if_neg hparen]
  rfl

/-- Without an index the rest is the value. -/
theorem assignTo_plain (ha : Blanks a) (isString : Bool) (s : Interp) :
    assignTo lines p w i isString (a ++ ('=' : UInt8) :: rhs) s =
      assign lines p i isString (-1) w.literal w.string w.number w.range rhs s := by
  unfold assignTo
  rw [bind_ok (targetIndex_none w ha isString s)]
  exact bind_ok (check_ok _ (by rfl) s)

theorem assign_ok (h : p.expr rhs t = (.ok (v, rest), u)) (index : Int32) :
    assign lines p i false index w.literal w.string w.number w.range rhs t =
      (storeNumber lines i index v w.range >>= fun _ => nextLine) u := by
  show (orErr lines (p.expr rhs) w.number >>= _) t = _
  rw [bind_ok (orErr_ok _ h)]

theorem assign_refused (hp : p.All @Leaves) (h : (p.expr rhs t).1 = .fail) (hcells : t.cells = s.cells) (index : Int32) :
    Refused s (assign lines p i false index w.literal w.string w.number w.range rhs t) :=
  (refused_orErr w.number h (((hp.expr rhs).cells_of_fail h).trans hcells)).bind

theorem readNumber_whole (hread : readNumber p rhs s = (Exec.require (skipSpaces rest = []) >>= fun _ => pure v) t)
    (hwhole : skipSpaces rest = []) : readNumber p rhs s = (.ok v, t) := by
  rw [hread, require_pos hwhole]
  rfl

theorem readNumber_rest (hread : readNumber p rhs s = (Exec.require (skipSpaces rest = []) >>= fun _ => pure v) t)
    (hwhole : ¬ skipSpaces rest = []) : readNumber p rhs s = (.fail, t) := by
  rw [hread, require_neg hwhole]
  rfl

/-- A variable gets its value, or nothing changes, unless a part of the text is left. -/
theorem right_scalar_iff (hn : 2 ≤ n) (ha : Blanks a) (hends : ((Target.scalar i).rule (parsers n) after rhs s).1 ≠ .hang) :
    Right ((Target.scalar i).rule (parsers n) after rhs) (assignTo lines (parsers n) w i false (a ++ ('=' : UInt8) :: rhs)) s ↔
    (Target.scalar i).Stores (parsers n) after rhs s := by
  have hread : (readNumber (parsers n) rhs s).1 ≠ .hang := by
    intro h
    rw [Target.rule, bind_hang (Prod.ext h rfl)] at hends
    exact hends rfl
  obtain ⟨v, rest, t, hexpr, hrule⟩ | ⟨hrule, hexpr⟩ := readNumber_eq hn rhs s hread
  · have ht := ((parsers_leave n).expr rhs s).ok _ t hexpr
    have hrun : assignTo lines (parsers n) w i false (a ++ ('=' : UInt8) :: rhs) s =
        (.ok .go, { t.stored (.scalar i v) with pc := s.pc + 1 }) := by
      rw [assignTo_plain w ha, assign_ok w hexpr, ← ht.pc]
      rfl
    by_cases hwhole : skipSpaces rest = []
    · have hstore : (Target.scalar i).rule (parsers n) after rhs s = (.ok (.scalar i v), t) := by
        rw [Target.rule, bind_ok (readNumber_whole hrule hwhole)]
        rfl
      refine iff_of_true (Right.of_ok hstore ⟨t, ht, hrun⟩) fun v' rest' t' h => ?_
      rw [hexpr] at h
      cases h
      exact hwhole
    · have hnone : ((Target.scalar i).rule (parsers n) after rhs s).1 = .fail := by
        rw [Target.rule, bind_fail (readNumber_rest hrule hwhole)]
      exact iff_of_false (not_right hnone (congrArg Prod.fst hrun)) fun h => hwhole (h v rest t hexpr)
  · have hnone : ((Target.scalar i).rule (parsers n) after rhs s).1 = .fail := by
      rw [Target.rule, bind_fail (Prod.ext hrule rfl)]
    refine iff_of_true (Right.of_fail hnone ?_) fun v rest t h => ?_
    · rw [assignTo_plain w ha]
      exact assign_refused w (parsers_leave n) hexpr rfl _
    · rw [h] at hexpr
      cases hexpr

/-! ### Elements -/

section Element

variable {b inner : Text} {k : Int32}

/-- An index that is read up to its parenthesis. -/
theorem targetIndex_ok (hb : Blanks b) (ha : Blanks a) (hexpr : p.expr inner s = (.ok (k, rest), t))
    (hrest : skipSpaces rest = (')' : UInt8) :: (a ++ ('=' : UInt8) :: rhs)) :
    targetIndex lines p false w.index w.paren (skipSpaces (b ++ ('(' : UInt8) :: inner)) s = (.ok (k, ('=' : UInt8) :: rhs), t) := by
  have hclose : expect (')' : UInt8) rest = pure (a ++ ('=' : UInt8) :: rhs) := by
    unfold expect
    rw [hrest]
    show (Exec.require ((')' : UInt8) = (')' : UInt8)) >>= _) = _
    rw [require_pos rfl]
    rfl
  have hparen : orErr lines (expect (')' : UInt8) rest) w.paren t = (.ok (a ++ ('=' : UInt8) :: rhs), t) := by
    rw [hclose]
    exact orErr_ok _ rfl
  rw [skipSpaces_byte hb (by decide)]
  unfold targetIndex
  rw [if_pos ⟨rfl, rfl⟩]
  show (orErr lines (p.expr inner) w.index >>= _) s = _
  rw [bind_ok (orErr_ok _ hexpr)]
  show (orErr lines (expect (')' : UInt8) rest) w.paren >>= _) t = _
  rw [bind_ok hparen, skipSpaces_byte ha (by decide)]
  rfl

theorem assignTo_index (hb : Blanks b) (ha : Blanks a) (hexpr : p.expr inner s = (.ok (k, rest), t))
    (hrest : skipSpaces rest = (')' : UInt8) :: (a ++ ('=' : UInt8) :: rhs)) :
    assignTo lines p w i false (b ++ ('(' : UInt8) :: inner) s =
      assign lines p i false k w.literal w.string w.number w.range rhs t := by
  unfold assignTo
  rw [bind_ok (targetIndex_ok w hb ha hexpr hrest)]
  exact bind_ok (check_ok _ (by rfl) t)

theorem assignTo_index_refused (hp : p.All @Leaves) (hb : Blanks b) (hexpr : (p.expr inner s).1 = .fail) :
    Refused s (assignTo lines p w i false (b ++ ('(' : UInt8) :: inner) s) := by
  unfold assignTo
  apply Refused.bind
  rw [skipSpaces_byte hb (by decide)]
  unfold targetIndex
  rw [if_pos ⟨rfl, rfl⟩]
  exact (refused_orErr w.index hexpr ((hp.expr inner).cells_of_fail hexpr)).bind

/-- The range is looked at after the right-hand side. -/
def elementStore (i : Letter) (k v : Int32) : M Store := do
  let size ← Exec.gets fun s => s.arraySizes i
  Exec.require (0 ≤ k ∧ k.toInt.toNat < size)
  pure (.element i k.toInt.toNat v)

variable {c : Prop}

theorem rule_element {index : Text} [Decidable c] (hexpr : p.expr (index ++ after) s = (.ok (k, rest), t))
    (hread : readNumber p rhs t = (Exec.require c >>= fun _ => pure v) u) :
    (Target.element i index).rule p after rhs s = (Exec.require c >>= fun _ => elementStore i k v) u := by
  show (p.expr (index ++ after) >>= fun r => readNumber p rhs >>= fun v => elementStore i r.1 v) s = _
  rw [bind_ok hexpr, bind_apply, hread, ← bind_apply, bind_assoc_eq]
  rfl

theorem elementStore_ok (h : 0 ≤ k ∧ k.toInt.toNat < u.arraySizes i) (v : Int32) :
    elementStore i k v u = (.ok (.element i k.toInt.toNat v), u) := by
  unfold elementStore
  rw [bind_ok (gets_apply (fun s : Interp => s.arraySizes i) u), require_pos h]
  rfl

theorem elementStore_fail (h : ¬ (0 ≤ k ∧ k.toInt.toNat < u.arraySizes i)) (v : Int32) :
    elementStore i k v u = (.fail, u) := by
  unfold elementStore
  rw [bind_ok (gets_apply (fun s : Interp => s.arraySizes i) u), require_neg h]
  rfl

theorem storeNumber_ok (h : 0 ≤ k ∧ k.toInt.toNat < u.arraySizes i) (v : Int32) :
    (storeNumber lines i k v w.range >>= fun _ => nextLine) u =
      (.ok .go, { u.stored (.element i k.toInt.toNat v) with pc := u.pc + 1 }) := by
  have hset : arraySet i k v u = (.ok (), u.stored (.element i k.toInt.toNat v)) := by
    unfold arraySet
    rw [bind_ok (gets_apply (fun s : Interp => s.arraySizes i) u), require_pos h]
    rfl
  unfold storeNumber
  rw [if_pos h.1, bind_ok (orErr_ok _ hset)]
  rfl

theorem storeNumber_refused (hk : 0 ≤ k) (hrange : ¬ k.toInt.toNat < u.arraySizes i) (hcells : u.cells = s.cells) (v : Int32) :
    Refused s ((storeNumber lines i k v w.range >>= fun _ => nextLine) u) := by
  have hset : arraySet i k v u = (.fail, u) := by
    unfold arraySet
    rw [bind_ok (gets_apply (fun s : Interp => s.arraySizes i) u), require_neg fun h => hrange h.2]
    rfl
  apply Refused.bind
  unfold storeNumber
  rw [if_pos hk]
  exact refused_orErr _ (congrArg Prod.fst hset) ((congrArg (fun r => r.2.cells) hset).trans hcells)

/-- A negative index is none, so that the variable is written. -/
theorem storeNumber_neg (hk : ¬ 0 ≤ k) (v : Int32) :
    ((storeNumber lines i k v w.range >>= fun _ => nextLine) u).1 = .ok .go := by
  unfold storeNumber
  rw [if_neg hk]
  rfl

/-- The index and the value are read; what is left of the text, the sign and the range decide. -/
theorem right_index_iff {rule : M Store} {m : M Flow} [Decidable c] (hu : Undisturbed s u)
    (hrule : rule s = (Exec.require c >>= fun _ => elementStore i k v) u)
    (hm : m s = (storeNumber lines i k v w.range >>= fun _ => nextLine) u) :
    Right rule m s ↔ 0 ≤ k ∧ (k.toInt.toNat < u.arraySizes i → c) := by
  by_cases hk : 0 ≤ k
  · by_cases hrange : k.toInt.toNat < u.arraySizes i
    · have hrun := hm.trans (storeNumber_ok w ⟨hk, hrange⟩ v)
      by_cases hc : c
      · rw [require_pos hc] at hrule
        refine iff_of_true (Right.of_ok (hrule.trans (elementStore_ok ⟨hk, hrange⟩ v)) ⟨u, hu, ?_⟩) ⟨hk, fun _ => hc⟩
        rw [hrun, hu.pc]
      · rw [require_neg hc] at hrule
        exact iff_of_false (not_right (congrArg Prod.fst hrule) (congrArg Prod.fst hrun)) fun h => hc (h.2 hrange)
    · have hnone : (rule s).1 = .fail := by
        rw [hrule]
        by_cases hc : c
        · rw [require_pos hc]
          exact congrArg Prod.fst (elementStore_fail (fun h => hrange h.2) v)
        · rw [require_neg hc]
          rfl
      refine iff_of_true (Right.of_fail hnone ?_) ⟨hk, fun h => absurd h hrange⟩
      rw [hm]
      exact storeNumber_refused w hk hrange hu.cells v
  · have hnone : (rule s).1 = .fail := by
      rw [hrule]
      by_cases hc : c
      · rw [require_pos hc]
        exact congrArg Prod.fst (elementStore_fail (fun h => hk h.1) v)
      · rw [require_neg hc]
        rfl
    refine iff_of_false (not_right hnone ?_) fun h => hk h.1
    rw [hm]
    exact storeNumber_neg w hk v

theorem right_element_iff {index : Text} (hn : 2 ≤ n) (hb : Blanks b) (ha : Blanks a)
    (hafter : after = (')' : UInt8) :: (a ++ ('=' : UInt8) :: rhs)) (hindex : ReadsUpTo ((parsers n).expr (index ++ after)) after)
    (hends : ((Target.element i index).rule (parsers n) after rhs s).1 ≠ .hang) :
    Right ((Target.element i index).rule (parsers n) after rhs)
      (assignTo lines (parsers n) w i false (b ++ ('(' : UInt8) :: (index ++ after))) s ↔
    (Target.element i index).Stores (parsers n) after rhs s := by
  have hleave := parsers_leave n
  rcases hexpr : (parsers n).expr (index ++ after) s with ⟨⟨k, rest⟩ | _ | _, t⟩
  · have hrest := hindex s k rest t hexpr
    have ht := (hleave.expr _ s).ok _ t hexpr
    have hread : (readNumber (parsers n) rhs t).1 ≠ .hang := by
      intro h
      rw [Target.rule, bind_ok hexpr] at hends
      dsimp only at hends
      rw [bind_hang (Prod.ext h rfl)] at hends
      exact hends rfl
    rw [hafter] at hrest
    obtain ⟨v, rest', u, hvalue, hrule⟩ | ⟨hrule, hvalue⟩ := readNumber_eq hn rhs t hread
    · have hu := ht.trans ((hleave.expr rhs t).ok _ u hvalue)
      have hrun : assignTo lines (parsers n) w i false (b ++ ('(' : UInt8) :: (index ++ after)) s =
          (storeNumber lines i k v w.range >>= fun _ => nextLine) u :=
        (assignTo_index w hb ha hexpr hrest).trans (assign_ok w hvalue k)
      have hstep := rule_element (i := i) hexpr hrule
      have hstores : (Target.element i index).Stores (parsers n) after rhs s ↔
          0 ≤ k ∧ (k.toInt.toNat < u.arraySizes i → skipSpaces rest' = []) := by
        rw [hu.arraySizes]
        refine ⟨fun h => h k v rest rest' t u hexpr hvalue, fun h k' v' _ _ t' u' hk' hv' => ?_⟩
        rw [hexpr] at hk'
        cases hk'
        rw [hvalue] at hv'
        cases hv'
        exact h
      rw [hstores]
      exact right_index_iff w hu hstep hrun
    · refine iff_of_true ?_ fun k' v' _ _ t' u' h hv => ?_
      · have hnone : ((Target.element i index).rule (parsers n) after rhs s).1 = .fail := by
          rw [Target.rule, bind_ok hexpr]
          dsimp only
          rw [bind_fail (Prod.ext hrule rfl)]
        apply Right.of_fail hnone
        rw [assignTo_index w hb ha hexpr hrest]
        exact assign_refused w hleave hvalue ht.cells k
      · rw [hexpr] at h
        cases h
        rw [hv] at hvalue
        cases hvalue
  · refine iff_of_true ?_ fun k' v' _ _ t' u' h _ => ?_
    · have hnone : ((Target.element i index).rule (parsers n) after rhs s).1 = .fail := by
        rw [Target.rule, bind_fail hexpr]
      exact Right.of_fail hnone (assignTo_index_refused w hleave hb (congrArg Prod.fst hexpr))
    · rw [hexpr] at h
      cases h
  · rw [Target.rule, bind_hang hexpr] at hends
    exact absurd rfl hends

end Element

end Number

/-! ### Strings -/

section String

variable {i : Letter} {a part rest : Text} (w : Wording)

theorem mem_copyString {room : ℕ} {c : UInt8} (h : c ∈ copyString room text) : c ≠ 0 := by
  simpa using List.mem_takeWhile_imp (List.mem_of_mem_take h)

/-- A literal or the value of a variable goes into a string variable as it is. -/
theorem copyString_firstString (hnul : ∀ c ∈ rhs, c ≠ 0) (h : firstString s.strVars rhs = some (part, rest)) :
    copyString BASIC_MAX_STRING_LEN part = part := by
  unfold firstString at h
  dsimp only at h
  split_ifs at h with hquote
  · unfold parseStringLiteral at h
    simp only [skipSpaces_skipSpaces, hquote, if_true] at h
    split_ifs at h
    simp only [Option.some.injEq, Prod.mk.injEq] at h
    obtain ⟨rfl, -⟩ := h
    apply copyString_fits
    · intro c hc
      have hmem := (List.takeWhile_sublist _).subset (List.mem_of_mem_take hc)
      exact hnul c ((List.dropWhile_sublist _).subset (List.mem_of_mem_tail hmem))
    · exact List.length_take_le ..
  · split at h
    · simp only [Option.some.injEq, Prod.mk.injEq] at h
      obtain ⟨rfl, -⟩ := h
      exact copyString_fits (fun _ hc => mem_copyString hc) (copyString_le ..)
    · cases h

theorem isAlpha_of_parseVarRef {r : Letter × Bool × Text} (h : parseVarRef text = some r) : isAlpha (peek (skipSpaces text)) = true := by
  unfold parseVarRef at h
  dsimp only at h
  split_ifs at h <;> assumption

theorem stringRhs_some (literalMessage valueMessage : String) (h : firstString s.strVars rhs = some (part, rest)) :
    stringRhs lines literalMessage valueMessage rhs s = (.ok part, s) := by
  unfold firstString at h
  unfold stringRhs
  dsimp only at h ⊢
  split_ifs at h with hquote
  · rw [if_pos hquote, bind_ok (orErr_some lines literalMessage h s)]
    rfl
  · rw [if_neg hquote]
    split at h
    · rename_i i tail href
      have halpha := isAlpha_of_parseVarRef href
      rw [skipSpaces_skipSpaces] at halpha
      simp only [Option.some.injEq, Prod.mk.injEq] at h
      obtain ⟨rfl, rfl⟩ := h
      have hvar : parseStrVar (skipSpaces rhs) s = (.ok (copyString BASIC_MAX_STRING_LEN (s.strVars i), tail), s) := by
        unfold parseStrVar
        rw [href]
        rfl
      rw [if_pos halpha, bind_ok (orErr_ok _ hvar)]
      rfl
    · cases h

theorem stringRhs_none (literalMessage valueMessage : String) (h : firstString s.strVars rhs = none) :
    Refused s (stringRhs lines literalMessage valueMessage rhs s) := by
  unfold firstString at h
  unfold stringRhs
  dsimp only at h ⊢
  split_ifs at h with hquote
  · rw [if_pos hquote, h]
    exact (refused_orErr (m := (Exec.ofOption none : M (Text × Text))) literalMessage rfl rfl).bind
  · rw [if_neg hquote]
    split_ifs with halpha
    · have hvar : parseStrVar (skipSpaces rhs) s = (.fail, s) := by
        unfold parseStrVar
        rcases href : parseVarRef (skipSpaces rhs) with _ | ⟨i, isString, tail⟩
        · rfl
        · cases isString with
          | false => rfl
          | true =>
            rw [href] at h
            cases h
      exact (refused_orErr valueMessage (congrArg Prod.fst hvar) (congrArg (fun r => r.2.cells) hvar)).bind
    · exact refused_rtFail valueMessage rfl

/-- Where the code finds no string, `PRINT` shows none. -/
theorem readString_none (hn : 2 ≤ n) (h : firstString s.strVars rhs = none) (hends : (readString (parsers n) rhs s).1 ≠ .hang) :
    (readString (parsers n) rhs s).1 = .fail := by
  obtain ⟨n, rfl⟩ : ∃ k, n = k + 2 := ⟨n - 2, by omega⟩
  have hstring : (parsers (n + 2)).stringExpr rhs s = (.fail, s) := by
    by_cases hstart : StringStart rhs
    · have hquote : peek (skipSpaces rhs) = ('"' : UInt8) := by
        obtain hquote | ⟨halpha, hdollar⟩ := hstart
        · exact hquote
        · have href : parseVarRef (skipSpaces rhs) =
              some (letterOf (peek (skipSpaces rhs)), true, (skipIdent (skipSpaces rhs).tail).tail) := by
            unfold parseVarRef
            simp only [skipSpaces_skipSpaces, halpha, hdollar, if_true]
          unfold firstString at h
          dsimp only at h
          split_ifs at h with hquote
          · exact hquote
          · rw [href] at h
            cases h
      unfold firstString at h
      dsimp only at h
      rw [if_pos hquote] at h
      have hpart : parseStringPart (parsers (n + 1)) (skipSpaces rhs) s = (.fail, s) := by
        unfold parseStringPart
        rw [if_pos hquote, h]
        rfl
      show stringLoop (parsers (n + 1)) (n + 2) [] (skipSpaces rhs) s = _
      unfold stringLoop
      rw [skipSpaces_skipSpaces]
      exact bind_fail hpart
    · exact stringExpr_of_not_stringStart hstart s
  have hvalue : readValue (parsers (n + 2)) rhs s = ((parsers (n + 2)).expr rhs >>= fun r => pure (Value.number r.1, r.2)) s :=
    bind_ok (attempt_fail hstring)
  unfold readString wholeValue at hends ⊢
  rw [bind_assoc_eq] at hends ⊢
  rcases hm : (parsers (n + 2)).expr rhs s with ⟨⟨v, rest⟩ | _ | _, u⟩
  · rw [bind_ok hm] at hvalue
    rw [bind_ok hvalue]
    dsimp only
    by_cases hwhole : skipSpaces rest = []
    · rw [require_pos hwhole]
      rfl
    · rw [require_neg hwhole]
      rfl
  · rw [bind_fail hm] at hvalue
    rw [bind_fail hvalue]
  · rw [bind_hang hm] at hvalue
    rw [bind_hang hvalue] at hends
    exact absurd rfl hends

theorem rule_string (hread : readString p rhs s = (.ok part, t)) :
    (Target.string i).rule p after rhs s = (.ok (.string i part), t) := by
  rw [Target.rule, bind_ok hread]
  rfl

theorem right_string_iff (hn : 2 ≤ n) (ha : Blanks a) (hnul : ∀ c ∈ rhs, c ≠ 0)
    (hends : ((Target.string i).rule (parsers n) after rhs s).1 ≠ .hang) :
    Right ((Target.string i).rule (parsers n) after rhs) (assignTo lines (parsers n) w i true (a ++ ('=' : UInt8) :: rhs)) s ↔
    (Target.string i).Stores (parsers n) after rhs s := by
  have hread : (readString (parsers n) rhs s).1 ≠ .hang := by
    intro h
    rw [Target.rule, bind_hang (Prod.ext h rfl)] at hends
    exact hends rfl
  cases hfirst : firstString s.strVars rhs with
  | none =>
    have hfail := readString_none hn hfirst hread
    have hnone : ((Target.string i).rule (parsers n) after rhs s).1 = .fail := by
      rw [Target.rule, bind_fail (Prod.ext hfail rfl)]
    refine iff_of_true (Right.of_fail hnone ?_) fun t rest h => ?_
    · rw [assignTo_plain w ha]
      exact (stringRhs_none w.literal w.string hfirst).bind
    · rw [hfirst] at h
      cases h
  | some found =>
    obtain ⟨part, rest⟩ := found
    have hrun : assignTo lines (parsers n) w i true (a ++ ('=' : UInt8) :: rhs) s =
        (.ok .go, { s.stored (.string i part) with pc := s.pc + 1 }) := by
      rw [assignTo_plain w ha]
      show (stringRhs lines w.literal w.string rhs >>= _) s = _
      rw [bind_ok (stringRhs_some w.literal w.string hfirst), copyString_firstString hnul hfirst]
      rfl
    constructor
    · intro hright t rest' h
      rw [hfirst] at h
      cases h
      rcases hm : readString (parsers n) rhs s with ⟨shown | _ | _, u⟩
      · obtain ⟨v, -, hv⟩ := hright.stores _ u (rule_string hm)
        rw [hrun] at hv
        have hcell := congrArg (fun r => r.2.strVars i) hv
        simp only [Interp.stored, Function.update_self] at hcell
        rw [hcell]
      · have hnone : ((Target.string i).rule (parsers n) after rhs s).1 = .fail := by
          rw [Target.rule, bind_fail hm]
        have hfail := (hright.refuses hnone).outcome
        rw [hrun] at hfail
        cases hfail
      · rw [hm] at hread
        exact absurd rfl hread
    · intro h
      exact Right.of_ok (rule_string (Prod.ext (h part rest hfirst) rfl)) ⟨s, .refl s, hrun⟩

end String

/-! ### Statements -/

/-- What stands behind an index. -/
def closing (a rhs : Text) : Text := (')' : UInt8) :: (a ++ ('=' : UInt8) :: rhs)

/-- An index is an expression: the parser stops at the parenthesis behind it. -/
def Target.IndexRead (p : Parsers) (after : Text) : Target → Prop
  | .element _ index => ReadsUpTo (p.expr (index ++ after)) after
  | _ => True

theorem parseVarRef_name {name : Text} (hc : isAlpha c = true) (hname : ∀ d ∈ name, isIdentTail d = true)
    (htail : isIdentTail (peek rest) = false) (hdollar : peek rest ≠ '$') :
    parseVarRef (c :: (name ++ rest)) = some (letterOf c, false, rest) := by
  have hskip : skipSpaces (c :: (name ++ rest)) = c :: (name ++ rest) := skipSpaces_of_not_isSpace (not_isSpace_of_isAlpha hc)
  have hident : skipIdent (name ++ rest) = rest := by
    rw [skipIdent, List.dropWhile_append_of_pos hname]
    exact dropWhile_stops htail
  unfold parseVarRef
  rw [hskip]
  show (if isAlpha c = true then if peek (skipIdent (name ++ rest)) = ('$' : UInt8) then _ else _ else _) = _
  rw [if_pos hc, hident, if_neg hdollar]
  show some (letterOf c, false, skipIdent (name ++ rest)) = _
  rw [hident]

/-- No name goes on behind blanks, and no `$` stands there. -/
theorem name_ends (ha : Blanks a) (hc : isIdentTail c = false ∧ c ≠ '$') (rest : Text) :
    isIdentTail (peek (a ++ c :: rest)) = false ∧ peek (a ++ c :: rest) ≠ ('$' : UInt8) := by
  cases a with
  | nil => exact hc
  | cons d a => exact isIdentTail_of_isSpace (ha d (by simp))

/-- The name is read, and what is done with the rest follows the rule under the condition. -/
theorem Target.Spelled.assignTo_iff (h : target.Spelled front) (hn : 2 ≤ n) (ha : Blanks a)
    (hnul : ∀ c ∈ rhs, c ≠ 0) (hindex : target.IndexRead (parsers n) (closing a rhs))
    (hends : (target.rule (parsers n) (closing a rhs) rhs s).1 ≠ .hang) :
    ∃ i isString rest, parseVarRef (front ++ (a ++ ('=' : UInt8) :: rhs)) = some (i, isString, rest) ∧
      ∀ lines w, Right (target.rule (parsers n) (closing a rhs) rhs) (assignTo lines (parsers n) w i isString rest) s ↔
        target.Stores (parsers n) (closing a rhs) rhs s := by
  have hequals := name_ends ha (show isIdentTail ('=' : UInt8) = false ∧ ('=' : UInt8) ≠ ('$' : UInt8) by decide) rhs
  cases h with
  | scalar hc hname =>
    exact ⟨_, false, a ++ ('=' : UInt8) :: rhs, parseVarRef_name hc hname hequals.1 hequals.2, fun _ w => right_scalar_iff w hn ha hends⟩
  | @element c name b index hc hname hb =>
    have hopen := name_ends hb (show isIdentTail ('(' : UInt8) = false ∧ ('(' : UInt8) ≠ ('$' : UInt8) by decide) (index ++ closing a rhs)
    have hname := parseVarRef_name hc hname hopen.1 hopen.2
    refine ⟨_, false, b ++ ('(' : UInt8) :: (index ++ closing a rhs), ?_, fun _ w => right_element_iff w hn hb ha rfl hindex hends⟩
    simpa [closing] using hname
  | @string c name hc hname =>
    have href : parseVarRef (c :: (name ++ ('$' : UInt8) :: (a ++ ('=' : UInt8) :: rhs))) =
        some (letterOf c, true, a ++ ('=' : UInt8) :: rhs) := parseVarRef_dollar hc hname
    refine ⟨_, true, a ++ ('=' : UInt8) :: rhs, ?_, fun _ w => right_string_iff w hn ha hnul hends⟩
    simpa using href

theorem Target.Spelled.start (h : target.Spelled front) (rest : Text) :
    isAlpha (peek (front ++ rest)) = true := by
  cases h with
  | scalar hc => exact hc
  | element hc => exact hc
  | string hc => exact hc

theorem Right.congr {rule : M Store} {m m' : M Flow} (h : m s = m' s) : Right rule m s ↔ Right rule m' s := by
  constructor <;> intro hright <;> refine ⟨fun w u hw => ?_, fun hfail => ?_⟩
  · rw [← h]
    exact hright.stores w u hw
  · rw [← h]
    exact hright.refuses hfail
  · rw [h]
    exact hright.stores w u hw
  · rw [h]
    exact hright.refuses hfail

/-- Both forms follow the rule exactly if the index is not negative, the expression is the
whole right-hand side, and the first string of it is what `PRINT` shows for all of it. The
form without `LET` is reached unless the statement begins with the word of another one. -/
theorem assignment_iff {target : Target} {front a : Text} (hfront : target.Spelled front) (hn : 2 ≤ n) (ha : Blanks a)
    (hnul : ∀ c ∈ rhs, c ≠ 0) (hindex : target.IndexRead (parsers n) (closing a rhs))
    (hends : (target.rule (parsers n) (closing a rhs) rhs s).1 ≠ .hang) :
    (∀ lines b, Blanks b → statementStart (textAt lines s.pc) = chars "LET" ++ (b ++ (front ++ (a ++ ('=' : UInt8) :: rhs))) →
      (Right (target.rule (parsers n) (closing a rhs) rhs) (statement lines (parsers n) n) s ↔
        target.Stores (parsers n) (closing a rhs) rhs s)) ∧
    ∀ lines, statementStart (textAt lines s.pc) = front ++ (a ++ ('=' : UInt8) :: rhs) →
      beginsKeyword (front ++ (a ++ ('=' : UInt8) :: rhs)) = false →
      (Right (target.rule (parsers n) (closing a rhs) rhs) (statement lines (parsers n) n) s ↔
        target.Stores (parsers n) (closing a rhs) rhs s) := by
  obtain ⟨i, isString, rest, href, hiff⟩ := hfront.assignTo_iff hn ha hnul hindex hends
  have hstart := hfront.start (a ++ ('=' : UInt8) :: rhs)
  constructor
  · intro lines b hb hline
    have hrun : statement lines (parsers n) n s = assignTo lines (parsers n) letWording i isString rest s := by
      rw [statement_of_start hline (by rfl)]
      exact congrFun (letStatement_eq hb href) s
    rw [Right.congr hrun]
    exact hiff lines letWording
  · intro lines hline hword
    have hrun : statement lines (parsers n) n s = assignTo lines (parsers n) plainWording i isString rest s := by
      rw [statement_of_start hline hstart, dispatch_assign hword, assignStatement_eq hstart href]
    rw [Right.congr hrun]
    exact hiff lines plainWording

/-- `A(2) = 5` where the array has four elements. -/
theorem assignment_iff_element :
    Right ((Target.element 0 (chars "2")).rule (parsers 5) (closing [(' ' : UInt8)] (chars " 5")) (chars " 5"))
      (statement [⟨-1, chars "LET A(2) = 5"⟩] (parsers 5) 5)
      { booted Ramfs.blank (fun _ => none) with arraySizes := fun _ => 4 } ∧
    Right ((Target.element 0 (chars "2")).rule (parsers 5) (closing [(' ' : UInt8)] (chars " 5")) (chars " 5"))
      (statement [⟨-1, chars "A(2) = 5"⟩] (parsers 5) 5)
      { booted Ramfs.blank (fun _ => none) with arraySizes := fun _ => 4 } := by
  have hblank : Blanks [(' ' : UInt8)] := by simp [Blanks, isSpace]
  have hindex : ReadsUpTo ((parsers 5).expr (chars "2" ++ closing [(' ' : UInt8)] (chars " 5"))) (closing [(' ' : UInt8)] (chars " 5")) := by
    intro s k rest t h
    have hread : (parsers 5).expr (chars "2" ++ closing [(' ' : UInt8)] (chars " 5")) s =
        (.ok (2, closing [(' ' : UInt8)] (chars " 5")), s) := rfl
    rw [hread] at h
    cases h
    rfl
  have hstores : (Target.element 0 (chars "2")).Stores (parsers 5) (closing [(' ' : UInt8)] (chars " 5")) (chars " 5")
      { booted Ramfs.blank (fun _ => none) with arraySizes := fun _ => 4 } := by
    intro k v rest rest' t u hk hv
    have hread : ∀ s, (parsers 5).expr (chars "2" ++ closing [(' ' : UInt8)] (chars " 5")) s =
        (.ok (2, closing [(' ' : UInt8)] (chars " 5")), s) := fun _ => rfl
    have hvalue : ∀ s, (parsers 5).expr (chars " 5") s = (.ok (5, []), s) := fun _ => rfl
    rw [hread] at hk
    cases hk
    rw [hvalue] at hv
    cases hv
    exact ⟨by decide, fun _ => rfl⟩
  have hspelled : (Target.element 0 (chars "2")).Spelled (chars "A(2)") :=
    @Target.Spelled.element ('A' : UInt8) [] [] (chars "2") rfl (by simp) Blanks.nil
  have hends : ((Target.element 0 (chars "2")).rule (parsers 5) (closing [(' ' : UInt8)] (chars " 5")) (chars " 5")
      { booted Ramfs.blank (fun _ => none) with arraySizes := fun _ => 4 }).1 ≠ .hang := by
    intro h
    cases h
  have hboth := assignment_iff hspelled (by decide) hblank (show ∀ c ∈ chars " 5", c ≠ 0 by decide +kernel) hindex hends
  exact ⟨(hboth.1 _ [(' ' : UInt8)] hblank rfl).2 hstores, (hboth.2 _ rfl (by decide +kernel)).2 hstores⟩

/-- `A(-1) = 5` writes the variable `A`. -/
theorem not_assignment : ¬ Right ((Target.element 0 (chars "-1")).rule (parsers 5) (closing [(' ' : UInt8)] (chars " 5")) (chars " 5"))
    (statement [⟨-1, chars "A(-1) = 5"⟩] (parsers 5) 5) (booted Ramfs.blank fun _ => none) := not_right rfl rfl

end Tg11Kernel.Basic
