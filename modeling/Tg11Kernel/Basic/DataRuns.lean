import Tg11Kernel.Basic.Cursor
import Tg11Kernel.Basic.DataItems

/-! The items that `READ` gets in a run. From the start, or from the last `RESTORE`, they are
the items of the DATA lines in their order, and the cursor stands before those that are
left, wherever the run has jumped in between. -/

namespace Tg11Kernel.Basic

open Lib Lib.Exec

variable {n a li : ℕ} {L : Int32 → Prop} {p : Parsers} {s₀ s t : Interp} {line : Line} {lines : List Line} {text behind : Text}
  {iss : List (List Item)} {items rest : List Item} {i : Letter}

/-! ### READ, one variable at a time -/

/-- The item that a variable gets, and the text behind the variable. -/
def readVar (lines : List Line) (p : Parsers) (text : Text) : M (Item × Text) := do
  let (i, isString, s) ← orErr lines (Exec.ofOption (parseVarRef text)) "READ var parse error"
  let item ← orErr lines (readNextDataItem lines) "READ out of DATA"
  storeItem lines p i isString item.1 item.2
  pure (item, skipSpaces s)

/-- At a statement, or in a `READ` before this text. -/
inductive Place where
  | statement
  | reading (text : Text)

/-- A `RESTORE` goes to line `li`: the first one, or the one with its label. -/
inductive Restores (L : Int32 → Prop) (lines : List Line) (text : Text) : ℕ → Prop where
  | first (h : skipSpaces (text.drop 7) = []) : Restores L lines text 0
  | label {label : Int32} {rest : Text} {li : ℕ} (hne : skipSpaces (text.drop 7) ≠ [])
      (h : parseInt (skipSpaces (text.drop 7)) = some (label, rest)) (hL : L label) (hfound : findLabel lines label = some li) :
      Restores L lines text li

/-- A run from `s₀` on: where it stands, the line that items are read from, and the items that
have been read since then. The labels of its `RESTORE`s are in `L`. -/
inductive DataRun (L : Int32 → Prop) (lines : List Line) (n : ℕ) (s₀ : Interp) : Place → ℕ → List Item → Interp → Prop where
  | start : DataRun L lines n s₀ .statement 0 [] s₀.start
  | read {a : ℕ} {items : List Item} {s : Interp} {line : Line} (h : DataRun L lines n s₀ .statement a items s)
      (hline : lines[s.pc]? = some line) (hread : startsWithCi (statementStart line.text) (chars "READ") = true) :
      DataRun L lines n s₀ (.reading (skipSpaces ((statementStart line.text).drop 4))) a items s
  | item {a : ℕ} {items : List Item} {s t : Interp} {text rest : Text} {item : Item} (h : DataRun L lines n s₀ (.reading text) a items s)
      (hitem : readVar lines (parsers n) text s = (.ok (item, rest), t)) (hmore : peek rest = (',' : UInt8)) :
      DataRun L lines n s₀ (.reading (skipSpaces rest.tail)) a (items ++ [item]) t
  | last {a : ℕ} {items : List Item} {s t : Interp} {text rest : Text} {item : Item} (h : DataRun L lines n s₀ (.reading text) a items s)
      (hitem : readVar lines (parsers n) text s = (.ok (item, rest), t)) (hlast : peek rest ≠ (',' : UInt8)) :
      DataRun L lines n s₀ .statement a (items ++ [item]) { t with pc := t.pc + 1 }
  | restore {a li : ℕ} {items : List Item} {s t : Interp} {line : Line} (h : DataRun L lines n s₀ .statement a items s)
      (hline : lines[s.pc]? = some line) (hrestore : startsWithCi (statementStart line.text) (chars "RESTORE") = true)
      (hto : Restores L lines (statementStart line.text) li) (hstep : statement lines (parsers n) n s = (.ok .go, t)) :
      DataRun L lines n s₀ .statement li [] t
  | run {a : ℕ} {items : List Item} {s t : Interp} {line : Line} (h : DataRun L lines n s₀ .statement a items s)
      (hline : lines[s.pc]? = some line) (hrun : startsWithCi (statementStart line.text) (chars "RUN") = true)
      (hstep : statement lines (parsers n) n s = (.ok .go, t)) : DataRun L lines n s₀ .statement 0 [] t
  | other {a : ℕ} {items : List Item} {s t : Interp} {line : Line} (h : DataRun L lines n s₀ .statement a items s)
      (hline : lines[s.pc]? = some line) (hother : movesCursor (statementStart line.text) = false)
      (hstep : statement lines (parsers n) n s = (.ok .go, t)) : DataRun L lines n s₀ .statement a items t

/-- The number that an item is. -/
def itemNumber (p : Parsers) (token : Text) : M Int32 := do
  let (v, rest) ← p.expr token
  Exec.require (skipSpaces rest = [])
  pure v

/-- What the next variable of a `READ` gets when these items are left. -/
structure Delivers (lines : List Line) (p : Parsers) (text : Text) (rest : List Item) (s : Interp) : Prop where
  beyond : rest = [] → Refused s (readVar lines p text s)
  mismatch : ∀ i behind token, parseVarRef text = some (i, false, behind) → rest.head? = some (token, true) →
    Refused s (readVar lines p text s)
  string : ∀ i behind item, parseVarRef text = some (i, true, behind) → rest.head? = some item →
    ∃ t, readVar lines p text s = (.ok (item, skipSpaces behind), t) ∧
      t.cells = { s with strVars := Function.update s.strVars i item.1 }.cells
  number : ∀ i behind token, parseVarRef text = some (i, false, behind) → rest.head? = some (token, false) → ∃ u, u.cells = s.cells ∧
    (∀ v w, itemNumber p token u = (.ok v, w) → ∃ t, readVar lines p text s = (.ok ((token, false), skipSpaces behind), t) ∧
      t.cells = { s with vars := Function.update s.vars i v }.cells) ∧
    ((itemNumber p token u).1 = .fail → Refused s (readVar lines p text s))

/-- In a `READ` the next variable gets the next item. -/
def Place.Next (lines : List Line) (p : Parsers) (rest : List Item) (s : Interp) : Place → Prop
  | .statement => True
  | .reading text => Delivers lines p text rest s

/-! ### The next variable -/

theorem storeItem_stays (hp : p.All @Stays) {isString quoted : Bool} {token : Text} : Stays (storeItem lines p i isString token quoted) :=
  .ite setStrVar_stays (check_stays.bind fun _ => (hp.exprErr token).bind fun _ => check_stays.bind fun _ => setVar_stays)

theorem readVar_of_item {isString : Bool} {item : Item} (href : parseVarRef text = some (i, isString, behind))
    (hitem : readNextDataItem lines s = (.ok item, t)) :
    readVar lines p text s = (storeItem lines p i isString item.1 item.2 >>= fun _ => pure (item, skipSpaces behind)) t := by
  unfold readVar
  rw [bind_ok (orErr_some lines _ href s)]
  dsimp only
  rw [bind_ok (orErr_ok _ hitem)]

/-- What a variable got was the first item, and the cursor stands before the others. -/
theorem readVar_ok {item : Item} (hlines : List.Forall₂ LineItems lines iss) (hs : s.Remaining lines iss items)
    (h : readVar lines (parsers n) text s = (.ok (item, behind), t)) : ∃ rest, items = item :: rest ∧ t.Remaining lines iss rest := by
  unfold readVar at h
  obtain ⟨⟨i, isString, after⟩, u, href, hbehind⟩ := bind_ok_iff.1 h
  rw [orErr, orElse_ok_iff, ofOption_ok_iff] at href
  obtain ⟨-, rfl⟩ := href
  obtain ⟨item', v, hread, hbehind⟩ := bind_ok_iff.1 hbehind
  rw [orErr, orElse_ok_iff] at hread
  obtain ⟨_, w, hstore, hbehind⟩ := bind_ok_iff.1 hbehind
  cases hbehind
  cases items with
  | nil =>
    obtain ⟨offset, hnone⟩ := readNext_nil hlines hs
    rw [hnone] at hread
    cases hread
  | cons first rest =>
    obtain ⟨li, offset, hfirst, hbefore, -⟩ := readNext_cons hlines hs
    rw [hfirst] at hread
    cases hread
    have hstays : Stays (storeItem lines (parsers n) i isString item.1 item.2) := storeItem_stays (parsers_stay n)
    have hcursor : t.cursor = (li, offset) := (congrArg (fun r => r.2.cursor) hstore).symm.trans (hstays _)
    simp only [Interp.cursor, Prod.mk.injEq] at hcursor
    obtain ⟨rfl, rfl⟩ := hcursor
    exact ⟨rest, rfl, hbefore⟩

theorem storeItem_number (hp : p.All @Leaves) {token : Text} :
    (∀ v t, itemNumber p token s = (.ok v, t) → ∃ u, storeItem lines p i false token false s = (.ok (), u) ∧
      u.cells = { s with vars := Function.update s.vars i v }.cells) ∧
    ((itemNumber p token s).1 = .fail → Refused s (storeItem lines p i false token false s)) := by
  have hstore : storeItem lines p i false token false s = (do
      let (v, tp) ← orErr lines (p.expr token) "READ numeric parse error"
      check lines (skipSpaces tp = []) "READ numeric trailing text"
      setVar i v) s := bind_ok (check_ok _ rfl s)
  rw [hstore]
  unfold itemNumber
  rcases hm : p.expr token s with ⟨⟨v, tail⟩ | _ | _, u⟩
  · have hcells : u.cells = s.cells := (((hp.expr token) s).ok _ u hm).cells
    rw [bind_ok (orErr_ok _ hm), bind_ok hm]
    dsimp only
    by_cases hwhole : skipSpaces tail = []
    · rw [require_pos hwhole, bind_ok (check_ok _ hwhole u)]
      refine ⟨fun w t h => ?_, nofun⟩
      cases h
      refine ⟨_, rfl, ?_⟩
      simp only [Interp.cells, Prod.mk.injEq] at hcells ⊢
      obtain ⟨hvars, hrest⟩ := hcells
      exact ⟨congrArg (fun f => Function.update f i v) hvars, hrest⟩
    · rw [require_neg hwhole, check_neg _ hwhole]
      exact ⟨nofun, fun _ => refused_rtFail _ hcells⟩
  · have hcells := Leaves.cells_of_fail (hp.expr token) (congrArg Prod.fst hm)
    refine ⟨fun w t h => ?_, fun _ => (refused_orErr _ (congrArg Prod.fst hm) hcells).bind⟩
    rw [bind_fail hm] at h
    cases h
  · rw [bind_hang hm]
    exact ⟨nofun, nofun⟩

theorem delivers (hlines : List.Forall₂ LineItems lines iss) (hs : s.Remaining lines iss items) (text : Text) :
    Delivers lines (parsers n) text items s where
  beyond h := by
    subst h
    obtain ⟨offset, hnone⟩ := readNext_nil hlines hs
    unfold readVar
    cases href : parseVarRef text with
    | none => exact (refused_orErr (m := (Exec.ofOption none : M (Letter × Bool × Text))) _ rfl rfl).bind
    | some r =>
      rw [bind_ok (orErr_some lines _ rfl s)]
      exact (refused_orErr _ (congrArg Prod.fst hnone) (congrArg (fun r => r.2.cells) hnone)).bind
  mismatch i behind token href hhead := by
    obtain ⟨rest, rfl⟩ := List.head?_eq_some_iff.1 hhead
    obtain ⟨li, offset, hfirst, -⟩ := readNext_cons hlines hs
    have hstore : storeItem lines (parsers n) i false token true = rtFail lines "READ type mismatch (string -> number)" :=
      check_neg _ (by decide) _
    rw [readVar_of_item href hfirst]
    dsimp only
    rw [hstore]
    exact Refused.bind (t := { s with dataLine := li, dataOffset := offset }) (refused_rtFail _ rfl)
  string i behind item href hhead := by
    obtain ⟨rest, rfl⟩ := List.head?_eq_some_iff.1 hhead
    obtain ⟨li, offset, hfirst, -, x, htext⟩ := readNext_cons hlines hs
    rw [readVar_of_item href hfirst]
    refine ⟨_, rfl, ?_⟩
    show (s.vars, Function.update s.strVars i (copyString BASIC_MAX_STRING_LEN item.1), s.arrays, s.arraySizes) = _
    rw [htext.copy]
    rfl
  number i behind token href hhead := by
    obtain ⟨rest, rfl⟩ := List.head?_eq_some_iff.1 hhead
    obtain ⟨li, offset, hfirst, -⟩ := readNext_cons hlines hs
    rw [readVar_of_item href hfirst]
    obtain ⟨hstores, hrefuses⟩ := @storeItem_number (parsers n) { s with dataLine := li, dataOffset := offset } lines i (parsers_leave n) token
    refine ⟨{ s with dataLine := li, dataOffset := offset }, rfl, fun v w h => ?_, fun h => ?_⟩
    · obtain ⟨u, hu, hcells⟩ := hstores v w h
      exact ⟨u, bind_ok hu, hcells⟩
    · have hrefused := hrefuses h
      exact Refused.bind ⟨hrefused.outcome, hrefused.errFlag, hrefused.cells⟩

/-! ### The statements -/

/-- Two words differ where both have a letter. -/
def clash (word other : Text) : Bool := (word.zip other).any fun (c, d) => up c ≠ up d

theorem startsWithCi_clash {word other : Text} (h : startsWithCi text word = true) (hclash : clash word other = true) :
    startsWithCi text other = false := by
  induction word generalizing text other with
  | nil => cases hclash
  | cons c word ih =>
    cases other with
    | nil => cases hclash
    | cons d other =>
      have hword : up (peek text) = up c ∧ startsWithCi text.tail word = true := by simpa [startsWithCi] using h
      have hdiffer : up c ≠ up d ∨ clash word other = true := by simpa [clash] using hclash
      unfold startsWithCi
      obtain hdiffer | hdiffer := hdiffer
      · rw [hword.1, decide_eq_false hdiffer, Bool.false_and]
      · rw [ih hword.2 hdiffer, Bool.and_false]

/-- A statement is recognised by its word where all words that are looked for before differ. -/
theorem isAlpha_of_word {word : Text} {c : UInt8} {rest : Text} (h : startsWithCi text word = true) (hword : word = c :: rest)
    (hc : isAlpha c = true) : isAlpha (peek text) = true := by
  subst hword
  unfold startsWithCi at h
  simp only [Bool.and_eq_true, decide_eq_true_eq] at h
  exact isAlpha_of_up h.1 hc

theorem statement_restore (hline : lines[s.pc]? = some line)
    (hrestore : startsWithCi (statementStart line.text) (chars "RESTORE") = true) :
    statement lines p n s = restoreStatement lines (statementStart line.text) s := by
  have hother : ∀ word ∈ ["REM", "END", "STOP", "CLS", "CLEAR", "LIST", "RUN", "PRINT", "DATA", "READ"],
      startsWithCi (statementStart line.text) (chars word) = false := by
    intro word hword
    apply startsWithCi_clash hrestore
    revert word
    decide +kernel
  have htext : statementStart (textAt lines s.pc) = statementStart line.text := by rw [textAt, hline]
  rw [statement_of_start htext (isAlpha_of_word hrestore rfl rfl)]
  simp only [List.forall_mem_cons] at hother
  unfold dispatch
  simp only [hother, hrestore, Bool.or_self, Bool.false_eq_true, if_false, if_true]

theorem statement_run (hline : lines[s.pc]? = some line)
    (hrun : startsWithCi (statementStart line.text) (chars "RUN") = true) : statement lines p n s = runStatement s := by
  have hother : ∀ word ∈ ["REM", "END", "STOP", "CLS", "CLEAR", "LIST"], startsWithCi (statementStart line.text) (chars word) = false := by
    intro word hword
    apply startsWithCi_clash hrun
    revert word
    decide +kernel
  have htext : statementStart (textAt lines s.pc) = statementStart line.text := by rw [textAt, hline]
  rw [statement_of_start htext (isAlpha_of_word hrun rfl rfl)]
  simp only [List.forall_mem_cons] at hother
  unfold dispatch
  simp only [hother, hrun, Bool.or_self, Bool.false_eq_true, if_false, if_true]

theorem statement_stays (hp : p.All @Stays) (hline : lines[s.pc]? = some line) (hother : movesCursor (statementStart line.text) = false) :
    (statement lines p n s).2.cursor = s.cursor := by
  unfold statement
  rw [bind_ok (gets_apply Interp.pc s), textAt, hline]
  dsimp only
  split_ifs
  · exact nextLine_stays s
  · exact dispatch_stays hp hother s

theorem restoreStatement_apply (h : Restores (0 ≤ ·) lines text li) (s : Interp) :
    restoreStatement lines text s = (.ok .go, { s with dataLine := li, dataOffset := 0, pc := s.pc + 1 }) := by
  unfold restoreStatement
  cases h with
  | first hnone =>
    dsimp only
    rw [if_pos hnone]
    rfl
  | @label label _ li hne hlabel hpos hfound =>
    have hreset : orErr lines (dataResetCursor lines label) "RESTORE label not found" s = (.ok (), { s with dataLine := li, dataOffset := 0 }) := by
      apply orErr_ok
      unfold dataResetCursor
      rw [if_pos hpos, hfound]
      rfl
    dsimp only
    rw [if_neg hne, hlabel]
    show (orErr lines (dataResetCursor lines label) _ >>= _) s = _
    rw [bind_ok hreset]
    rfl

/-! ### Runs -/

/-- What is left behind the items of a run. -/
theorem DataRun.remaining {place : Place} (hlines : List.Forall₂ LineItems lines iss) (h : DataRun (0 ≤ ·) lines n s₀ place a items s) :
    ∃ rest, itemsFrom iss a = items ++ rest ∧ s.Remaining lines iss rest := by
  induction h with
  | start => exact ⟨_, rfl, before_line hlines 0⟩
  | read _ _ _ ih => exact ih
  | item _ hitem _ ih =>
    obtain ⟨rest, hall, hs⟩ := ih
    obtain ⟨rest, rfl, ht⟩ := readVar_ok hlines hs hitem
    exact ⟨rest, by rw [hall, List.append_assoc]; rfl, ht⟩
  | last _ hitem _ ih =>
    obtain ⟨rest, hall, hs⟩ := ih
    obtain ⟨rest, rfl, ht⟩ := readVar_ok hlines hs hitem
    exact ⟨rest, by rw [hall, List.append_assoc]; rfl, ht⟩
  | restore _ hline hrestore hto hstep =>
    rw [statement_restore hline hrestore, restoreStatement_apply hto] at hstep
    cases hstep
    exact ⟨_, rfl, before_line hlines _⟩
  | run _ hline hrun hstep =>
    rw [statement_run hline hrun] at hstep
    cases hstep
    exact ⟨_, rfl, before_line hlines 0⟩
  | other _ hline hother hstep ih =>
    obtain ⟨rest, hall, hs⟩ := ih
    have hcursor := statement_stays (n := n) (parsers_stay n) hline hother
    rw [hstep] at hcursor
    simp only [Interp.cursor, Prod.mk.injEq] at hcursor
    refine ⟨rest, hall, ?_⟩
    unfold Interp.Remaining
    rw [hcursor.1, hcursor.2]
    exact hs

/-- An item of one byte, alone in its line. -/
theorem lineItems_byte {label : Int32} {front : Text} {c : UInt8} (hstart : statementStart front = chars "DATA " ++ [c])
    (hc : c ≠ ',' ∧ c ≠ '"' ∧ c ≠ 0) (hspace : isSpace c = false) : LineItems ⟨label, front⟩ [([c], false)] := by
  have hitem : ItemText ([c], false) [c] := .plain (by simp) (by simpa using hc) hspace hspace (Nat.lt_of_sub_eq_succ rfl)
  have hlist : ItemList [([c], false)] ([(' ' : UInt8)] ++ ([c] ++ [])) :=
    .last (by simp [Blanks, isSpace]) hitem (by simp [Blanks])
  unfold LineItems
  dsimp only
  rw [hstart, if_pos (by rfl)]
  exact hlist

end Tg11Kernel.Basic
