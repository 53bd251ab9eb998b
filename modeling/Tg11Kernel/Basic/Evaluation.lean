import Tg11Kernel.Basic.Trees
import Tg11Kernel.Basic.Run

/-! The value of a printed tree. The expression parsers read any text that prints a tree to
its end and return the value of the tree. They return -1 for a division by zero only, and
do not return from a division whose quotient does not fit. A level of operators is read
by a loop, so that what holds of a text is that the loop goes on after it with its value. -/

namespace Tg11Kernel.Basic

open Lib Lib.Exec

/-! ### Evaluating while reading -/

section Gives

variable {α β : Type} {o : Except Trouble Int32} {s : Interp}

/-- The program does what a value asks for: it goes on as `f` with the value, and only
the record of the divisions has changed; it returns -1 or traps where there is none. -/
def Gives (o : Except Trouble Int32) (m : M α) (f : Int32 → M α) (s : Interp) : Prop :=
  match o with
  | .ok v => ∃ h, m s = f v { s with history := h }
  | .error .byZero => (m s).1 = .fail
  | .error .overflow => (m s).1 = .hang

variable {m : M α} {f : Int32 → M α}

theorem Gives.of_eq {v : Int32} (h : m s = f v s) : Gives (.ok v) m f s := ⟨s.history, h⟩

/-- What follows the program follows what it goes on as. -/
theorem Gives.bind (g : α → M β) (h : Gives o m f s) :
    Gives o (m >>= g) (fun v => f v >>= g) s := by
  match o with
  | .ok v =>
    obtain ⟨history, hm⟩ := h
    refine ⟨history, ?_⟩
    show (m >>= g) s = (f v >>= g) { s with history := history }
    rw [bind_apply, bind_apply, hm]
  | .error .byZero => rw [Gives, bind_fail (Prod.ext h rfl)]
  | .error .overflow => rw [Gives, bind_hang (Prod.ext h rfl)]

/-- The value decides how a larger value is found. -/
theorem Gives.chain {f' : Int32 → M α} {g : Int32 → Except Trouble Int32} (h : Gives o m f s)
    (hf : ∀ v history, Gives (g v) (f v) f' { s with history := history }) : Gives (o >>= g) m f' s := by
  match o with
  | .ok v =>
    obtain ⟨history, hm⟩ := h
    have hv := hf v history
    change Gives (g v) m f' s
    revert hv
    cases g v with
    | ok w =>
      rintro ⟨history', hw⟩
      exact ⟨history', hm.trans hw⟩
    | error e => cases e <;> (intro he; rw [Gives, hm]; exact he)
  | .error .byZero => exact h
  | .error .overflow => exact h

end Gives

/-- What the parser does with an operator. -/
def Op.act : Op → Int32 → Int32 → M Int32
  | .add => total (· + ·)
  | .sub => total (· - ·)
  | .mul => total (· * ·)
  | .div => divide (· / ·)
  | .rem => divide (· % ·)
  | .and => total (· &&& ·)
  | .or => total (· ||| ·)
  | .xor => total (· ^^^ ·)

theorem divide_gives (op : Int32 → Int32 → Int32) (x y : Int32) (s : Interp) :
    Gives (quotient op x y) (divide op x y) pure s := by
  unfold quotient
  split_ifs with hzero htrap
  · show (divide op x y s).1 = .fail
    simp [divide, logAttempt, hzero, require_neg, bind_apply]
  · show (divide op x y s).1 = .hang
    obtain ⟨rfl, rfl⟩ := htrap
    rfl
  · refine ⟨(s.history.attempt ⟨x, y⟩).divide ⟨x, y⟩, ?_⟩
    have htraps : ¬ Division.Traps ⟨x, y⟩ := htrap
    unfold divide machineDivide
    rw [require_pos hzero, if_neg htraps]
    rfl

theorem Op.act_gives (op : Op) (x y : Int32) (s : Interp) : Gives (op.value x y) (op.act x y) pure s := by
  cases op with
  | div => exact divide_gives _ x y s
  | rem => exact divide_gives _ x y s
  | _ => exact .of_eq rfl

/-! ### Bytes after blanks -/

variable {a digits text rest : Text} {c : UInt8} {q : UInt8 → Bool} {o : Op} {n : ℕ}

theorem skipSpaces_byte (ha : Blanks a) (hc : isSpace c = false) (rest : Text) :
    skipSpaces (a ++ c :: rest) = c :: rest := by
  rw [skipSpaces_blanks ha]
  exact skipSpaces_of_not_isSpace hc

theorem skipSpaces_all (ha : Blanks a) : skipSpaces a = [] := by
  have hall := skipSpaces_blanks ha []
  rwa [List.append_nil] at hall

theorem expect_byte (ha : Blanks a) (hc : isSpace c = false) (rest : Text) :
    expect c (a ++ c :: rest) = pure rest := by
  unfold expect
  rw [skipSpaces_byte ha hc]
  show (Exec.require (c = c) >>= fun _ => pure rest) = _
  rw [require_pos rfl]
  rfl

theorem expect_here (hc : isSpace c = false) (rest : Text) : expect c (c :: rest) = pure rest :=
  expect_byte (show Blanks [] by simp [Blanks]) hc rest

/-! ### Names and numbers -/

theorem digitsValue_eq (hdigits : ∀ c ∈ digits, isDigit c = true) :
    digitsValue digits = Int32.ofNat (digitsNat digits) := by
  have hbyte : ∀ c : UInt8, (c - ('0' : UInt8)).toUInt32.toInt32 = Int32.ofNat (c - ('0' : UInt8)).toNat :=
    forall_byte (by decide +kernel)
  have hfold : ∀ a : ℕ, digits.foldl (fun v c => v * 10 + (c - ('0' : UInt8)).toUInt32.toInt32) (Int32.ofNat a) =
      Int32.ofNat (digits.foldl (fun v c => v * 10 + (c - ('0' : UInt8)).toNat) a) := by
    induction digits with
    | nil => intro a; rfl
    | cons c digits ih =>
      intro a
      rw [List.foldl_cons, List.foldl_cons, ← ih fun d hd => hdigits d (by simp [hd]), hbyte, Int32.ofNat_add, Int32.ofNat_mul]
      rfl
  exact hfold 0

theorem dropWhile_stops (h : q (peek text) = false) : text.dropWhile q = text := by
  cases text with
  | nil => rfl
  | cons c text => exact List.dropWhile_cons_of_neg (by simpa [peek] using h)

theorem takeWhile_stops (h : q (peek text) = false) : text.takeWhile q = [] := by
  cases text with
  | nil => rfl
  | cons c text => exact List.takeWhile_cons_of_neg (by simpa [peek] using h)

theorem parseInt_digits (hne : digits ≠ []) (hdigits : ∀ c ∈ digits, isDigit c = true)
    (hrest : Follow rest) : parseInt (digits ++ rest) = some (Int32.ofNat (digitsNat digits), rest) := by
  obtain ⟨c, u, rfl, hc⟩ := digits_cons hne hdigits
  obtain ⟨hspace, _, _, hminus, _⟩ := not_isSpace_of_isDigit hc
  have hend : isDigit (peek rest) = false := by
    have htail := hrest.identTail
    simp only [isIdentTail, Bool.or_eq_false_iff] at htail
    exact htail.1.2
  have htake : (c :: u ++ rest).takeWhile isDigit = c :: u := by
    rw [List.takeWhile_append_of_pos hdigits, takeWhile_stops hend, List.append_nil]
  have hdrop : (c :: u ++ rest).dropWhile isDigit = rest := by
    rw [List.dropWhile_append_of_pos hdigits, dropWhile_stops hend]
  have hskip : skipSpaces (c :: u ++ rest) = c :: u ++ rest := skipSpaces_of_not_isSpace hspace
  unfold parseInt
  rw [hskip]
  show (if c = '-' then _ else parseDigits 1 (c :: u ++ rest)) = _
  rw [if_neg hminus, parseDigits, if_pos (show isDigit (peek (c :: u ++ rest)) = true from hc), htake, hdrop,
    digitsValue_eq hdigits, Int32.mul_one]

theorem parsePrimary_digits (hne : digits ≠ []) (hdigits : ∀ c ∈ digits, isDigit c = true)
    (hrest : Follow rest) (p : Parsers) :
    parsePrimary p (digits ++ rest) = pure (Int32.ofNat (digitsNat digits), rest) := by
  have hread := parseInt_digits hne hdigits hrest
  obtain ⟨c, u, rfl, hc⟩ := digits_cons hne hdigits
  obtain ⟨hspace, halpha, hparen, _, _⟩ := not_isSpace_of_isDigit hc
  have hskip : skipSpaces (c :: u ++ rest) = c :: u ++ rest := skipSpaces_of_not_isSpace hspace
  unfold parsePrimary parseValue
  rw [if_neg (show ¬ peek (c :: u ++ rest) = ('(' : UInt8) from hparen),
    if_neg (show ¬ isAlpha (peek (c :: u ++ rest)) = true by rw [show peek (c :: u ++ rest) = c from rfl, halpha]; nofun), hskip]
  show (if isAlpha c = true then _ else _) = _
  rw [if_neg (by rw [halpha]; nofun), hread]
  rfl

theorem parseVarRef_letter (hc : isAlpha c = true) (hrest : Follow rest) :
    parseVarRef (c :: rest) = some (letterOf c, false, rest) := by
  have hskip : skipSpaces (c :: rest) = c :: rest := skipSpaces_of_not_isSpace (not_isSpace_of_isAlpha hc)
  have hident : skipIdent rest = rest := dropWhile_stops hrest.identTail
  unfold parseVarRef
  rw [hskip]
  show (if isAlpha c = true then if peek (skipIdent rest) = ('$' : UInt8) then _ else _ else _) = _
  rw [if_pos hc, hident, if_neg hrest.dollar]
  show some (letterOf c, false, skipIdent rest) = _
  rw [hident]

theorem parsePrimary_letter (hc : isAlpha c = true) (hrest : Follow rest) (p : Parsers) (s : Interp) :
    parsePrimary p (c :: rest) s = (.ok (s.vars (letterOf c), skipSpaces rest), s) := by
  have hword : NoWord (c :: rest) := fun _ => hrest.identTail
  have hskip : skipSpaces (c :: rest) = c :: rest := skipSpaces_of_not_isSpace (not_isSpace_of_isAlpha hc)
  have hvalue : parseVarValue p (c :: rest) s = (.ok (s.vars (letterOf c), skipSpaces rest), s) := by
    unfold parseVarValue
    rw [parseVarRef_letter hc hrest]
    show (if peek (skipSpaces rest) = ('(' : UInt8) then _ else _ : M _) s = _
    rw [if_neg hrest.paren]
    rfl
  unfold parsePrimary
  rw [if_neg (show ¬ peek (c :: rest) = ('(' : UInt8) from (ne_sign_of_isAlpha hc).1), if_pos (show isAlpha (peek (c :: rest)) = true from hc),
    parseNamed_of_noWord hword]
  unfold parseValue
  rw [hskip]
  show (if isAlpha c = true then _ else _ : M _) s = _
  rw [if_pos hc, hvalue]

/-! ### One level after another -/

section Levels

variable {op : Text → Option Infix} {operand parse : ℕ → Text → M (Int32 × Text)} {Q : Text → Prop}
variable {t l r : ExprTree} {text a b u : Text}

/-- The parser reads the text, with blanks before it, and leaves what follows but for blanks. -/
def ReadsAs (parse : ℕ → Text → M (Int32 × Text)) (Q : Text → Prop) (t : ExprTree) (text : Text) : Prop :=
  ∀ (n : ℕ) (s : Interp) (a rest : Text), text.length < n → Blanks a → Q rest →
    ∃ rest', skipSpaces rest' = skipSpaces rest ∧
      Gives (t.eval s.vars) (parse n (a ++ (text ++ rest))) (fun v => pure (v, rest')) s

/-- The parser reads the text and is then in its loop, with no more steps behind it than
the text has bytes. -/
def Chains (op : Text → Option Infix) (operand parse : ℕ → Text → M (Int32 × Text)) (Q : Text → Prop)
    (t : ExprTree) (text : Text) : Prop :=
  ∀ (n : ℕ) (s : Interp) (a rest : Text), text.length < n → Blanks a → Q rest →
    ∃ k, n ≤ k + text.length ∧
      Gives (t.eval s.vars) (parse n (a ++ (text ++ rest))) (fun v => levelLoop op (operand n) k v rest) s

theorem levelLoop_congr {operand : Text → M (Int32 × Text)} {text text' : Text} (h : skipSpaces text = skipSpaces text')
    (k : ℕ) (v : Int32) : levelLoop op operand k v text = levelLoop op operand k v text' := by
  cases k with
  | zero => rfl
  | succ k => simp only [levelLoop, h]

/-- An operand alone. -/
theorem ReadsAs.chains (hparse : ∀ n text, parse n text = operand n text >>= fun r => levelLoop op (operand n) n r.1 r.2)
    (h : ReadsAs operand Q t text) : Chains op operand parse Q t text := by
  intro n s a rest hn ha hrest
  obtain ⟨rest', hskip, hgives⟩ := h n s a rest hn ha hrest
  refine ⟨n, by omega, ?_⟩
  rw [hparse]
  simp only [← levelLoop_congr hskip]
  exact hgives.bind _

/-- No operator of the level follows. -/
theorem Chains.stops (h : Chains op operand parse Q t text) {n : ℕ} {rest : Text} (s : Interp) (hn : text.length < n)
    (ha : Blanks a) (hrest : Q rest) (hop : op (skipSpaces rest) = none) :
    Gives (t.eval s.vars) (parse n (a ++ (text ++ rest))) (fun v => pure (v, skipSpaces rest)) s := by
  obtain ⟨k, hk, hgives⟩ := h n s a rest hn ha hrest
  obtain ⟨k, rfl⟩ : ∃ j, k = j + 1 := ⟨k - 1, by omega⟩
  have hstop : ∀ v, levelLoop op (operand n) (k + 1) v rest = pure (v, skipSpaces rest) := by
    intro v
    simp only [levelLoop, hop]
  simpa only [hstop] using hgives

theorem Chains.reads (h : Chains op operand parse Q t text) :
    ReadsAs parse (fun rest => Q rest ∧ op (skipSpaces rest) = none) t text :=
  fun _ s _ rest hn ha hrest => ⟨skipSpaces rest, skipSpaces_skipSpaces rest, h.stops s hn ha hrest.1 hrest.2⟩

theorem Op.text_cons (o : Op) : ∃ c u, o.text = c :: u ∧ isSpace c = false ∧ c ≠ '(' ∧
    (o.isWord = false → isIdentTail c = false ∧ c ≠ '$') := by
  cases o <;> exact ⟨_, _, rfl, by decide, by decide, by decide⟩

/-- An operator and its operand on the right. -/
theorem Chains.bin {o : Op} (ha : Blanks a) (hb : Blanks b) (hl : Chains op operand parse Q l text)
    (hr : ReadsAs operand Q r u) (hnext : ∀ rest, Q rest → Q (a ++ (o.text ++ (b ++ (u ++ rest)))))
    (hop : ∀ rest, op (o.text ++ (b ++ (u ++ rest))) = some ⟨o.text.length, o.act⟩) :
    Chains op operand parse Q (.bin o l r) (text ++ (a ++ (o.text ++ (b ++ u)))) := by
  intro n s c rest hn hc hrest
  obtain ⟨first, others, hcons, hspace, _, _⟩ := o.text_cons
  have hlength : 1 ≤ o.text.length := by rw [hcons]; simp
  simp only [List.length_append] at hn
  obtain ⟨k, hk, hleft⟩ := hl n s c _ (by omega) hc (hnext rest hrest)
  obtain ⟨k, rfl⟩ : ∃ j, k = j + 1 := ⟨k - 1, by omega⟩
  refine ⟨k, by simp only [List.length_append]; omega, ?_⟩
  have hloop : ∀ x, levelLoop op (operand n) (k + 1) x (a ++ (o.text ++ (b ++ (u ++ rest)))) =
      operand n (b ++ (u ++ rest)) >>= fun r => o.act x r.1 >>= fun v => levelLoop op (operand n) k v r.2 := by
    intro x
    have hskip : skipSpaces (a ++ (o.text ++ (b ++ (u ++ rest)))) = o.text ++ (b ++ (u ++ rest)) := by
      rw [skipSpaces_blanks ha, skipSpaces_of_not_isSpace (by rw [hcons]; exact hspace)]
    simp only [levelLoop, hskip, hop, List.drop_left]
  simp only [List.append_assoc]
  apply hleft.chain
  intro x history
  rw [hloop]
  obtain ⟨rest', hskip, hright⟩ := hr n { s with history := history } b rest (by omega) hb hrest
  apply (hright.bind _).chain
  intro y history'
  simp only [← levelLoop_congr hskip]
  exact (o.act_gives x y _).bind fun v => levelLoop op (operand n) k v rest'

end Levels

/-! ### Operators -/

/-- What stands after a term. -/
def FollowTerm (rest : Text) : Prop := Follow rest ∧ termOp (skipSpaces rest) = none

theorem termOp_of_term (h : o.level = .term) (text : Text) : termOp (o.text ++ text) = some ⟨o.text.length, o.act⟩ := by
  cases o <;> first | rfl | cases h

theorem termOp_of_expr (h : o.level = .expr) (text : Text) : termOp (o.text ++ text) = none := by
  cases o <;> first | rfl | cases h

theorem exprOp_of_expr (h : o.level = .expr) (htail : o.isWord = true → isIdentTail (peek text) = false) :
    exprOp (o.text ++ text) = some ⟨o.text.length, o.act⟩ := by
  have hmatch : ∀ name, o.isWord = true → isIdentTail (peek ((name ++ text).drop name.length)) = false := by
    intro name hword
    rw [List.drop_left]
    exact htail hword
  cases o with
  | add => rfl
  | sub => rfl
  | and =>
    have hname : nameMatchesCi (chars "AND" ++ text) (chars "AND") = true := by
      rw [nameMatchesCi, hmatch _ rfl]
      rfl
    simp only [exprOp, Op.text, hname]
    rfl
  | or =>
    have hname : nameMatchesCi (chars "OR" ++ text) (chars "OR") = true := by
      rw [nameMatchesCi, hmatch _ rfl]
      rfl
    simp only [exprOp, Op.text, hname]
    rfl
  | xor =>
    have hname : nameMatchesCi (chars "XOR" ++ text) (chars "XOR") = true := by
      rw [nameMatchesCi, hmatch _ rfl]
      rfl
    simp only [exprOp, Op.text, hname]
    rfl
  | _ => cases h

theorem Op.follow (o : Op) (ha : Blanks a) (hword : o.isWord = true → a ≠ []) (text : Text) : Follow (a ++ (o.text ++ text)) := by
  obtain ⟨c, u, hcons, hspace, hparen, hhead⟩ := o.text_cons
  rw [hcons]
  apply Follow.blanks ha (show isSpace (peek (c :: u ++ text)) = false from hspace) hparen
  intro hnil
  apply hhead
  rw [Bool.eq_false_iff]
  exact fun hw => hword hw hnil

theorem Op.followTerm (h : o.level = .expr) (ha : Blanks a) (hword : o.isWord = true → a ≠ []) (text : Text) :
    FollowTerm (a ++ (o.text ++ text)) := by
  obtain ⟨c, u, hcons, hspace, _, _⟩ := o.text_cons
  have hskip : skipSpaces (a ++ (o.text ++ text)) = o.text ++ text := by
    rw [skipSpaces_blanks ha, skipSpaces_of_not_isSpace (by rw [hcons]; exact hspace)]
  exact ⟨o.follow ha hword text, by rw [hskip]; exact termOp_of_expr h text⟩

/-! ### The parsers read what is printed -/

/-- `b_parse_factor` from the run of signs on. -/
def parseAfterSign (p : Parsers) (sign : Int32) (s : Text) : M (Int32 × Text) := do
  let (sign, s) := signRun sign s
  let (v, s) ← parsePrimary p s
  pure (v * sign, s)

/-- What the parser of a level does with a printed tree. -/
def Means : Level → ExprTree → Text → Prop
  | .primary, t, text => ∀ (n : ℕ) (s : Interp) (rest : Text), text.length < n → Follow rest →
      ∃ rest', skipSpaces rest' = skipSpaces rest ∧
        Gives (t.eval s.vars) (parsePrimary (parsers n) (text ++ rest)) (fun v => pure (v, rest')) s
  | .signed, t, text => ∀ (n : ℕ) (s : Interp) (sign : Int32) (a rest : Text), text.length < n → Blanks a → Follow rest →
      ∃ rest', skipSpaces rest' = skipSpaces rest ∧
        Gives (t.eval s.vars) (parseAfterSign (parsers n) sign (a ++ (text ++ rest))) (fun v => pure (v * sign, rest')) s
  | .factor, t, text => ReadsAs (fun n => parseFactor (parsers n)) Follow t text
  | .term, t, text => Chains termOp (fun n => parseFactor (parsers n)) (fun n => parseTerm (parsers n) n) Follow t text
  | .expr, t, text => Chains exprOp (fun n => parseTerm (parsers n) n) (fun n => parseExpr (parsers n) n) FollowTerm t text

section Means

variable {t : ExprTree} {text a b : Text}

theorem follow_paren (hb : Blanks b) (rest : Text) :
    skipSpaces (b ++ (')' : UInt8) :: rest) = (')' : UInt8) :: rest ∧ FollowTerm (b ++ (')' : UInt8) :: rest) := by
  have hskip : skipSpaces (b ++ (')' : UInt8) :: rest) = (')' : UInt8) :: rest := by
    rw [skipSpaces_blanks hb]
    rfl
  have hfollow : Follow (b ++ (')' : UInt8) :: rest) :=
    Follow.blanks hb (by decide : isSpace (')' : UInt8) = false) (by decide : (')' : UInt8) ≠ ('(' : UInt8)) fun _ =>
      ⟨(by decide : isIdentTail (')' : UInt8) = false), (by decide : (')' : UInt8) ≠ ('$' : UInt8))⟩
  exact ⟨hskip, hfollow, by rw [hskip]; rfl⟩

theorem Means.paren (ha : Blanks a) (hb : Blanks b) (h : Means .expr t text) :
    Means .primary t (('(' : UInt8) :: (a ++ (text ++ (b ++ [(')' : UInt8)])))) := by
  intro n s rest hn hrest
  simp only [List.length_cons, List.length_append, List.length_nil] at hn
  obtain ⟨n, rfl⟩ : ∃ m, n = m + 1 := ⟨n - 1, by omega⟩
  obtain ⟨hskip, hfollow⟩ := follow_paren hb rest
  have hinside := h.stops s (show text.length < n by omega) ha hfollow (by rw [hskip]; rfl)
  have hopen : parsePrimary (parsers (n + 1)) (('(' : UInt8) :: (a ++ (text ++ (b ++ (')' : UInt8) :: rest)))) =
      parseExpr (parsers n) n (a ++ (text ++ (b ++ (')' : UInt8) :: rest))) >>= fun r =>
        expect (')' : UInt8) r.2 >>= fun s => pure (r.1, s) := rfl
  have hclose : expect (')' : UInt8) (skipSpaces (b ++ (')' : UInt8) :: rest)) = pure rest := by
    rw [hskip]
    rfl
  refine ⟨rest, rfl, ?_⟩
  simp only [List.cons_append, List.append_assoc, List.nil_append]
  rw [hopen]
  have hwhole := hinside.bind fun r => expect (')' : UInt8) r.2 >>= fun s => pure (r.1, s)
  have hend : (fun v : Int32 => (pure (v, skipSpaces (b ++ (')' : UInt8) :: rest)) : M (Int32 × Text)) >>= fun r =>
      expect (')' : UInt8) r.2 >>= fun s => pure (r.1, s)) = fun v => pure (v, rest) := by
    funext v
    show (expect (')' : UInt8) (skipSpaces (b ++ (')' : UInt8) :: rest)) >>= fun s => pure (v, s)) = _
    rw [hclose]
    rfl
  rwa [hend] at hwhole

theorem signRun_blanks {sign : Int32} (ha : Blanks a) (text : Text) : signRun sign (a ++ text) = signRun sign text := by
  induction a with
  | nil => rfl
  | cons c a ih =>
    have hc : isSpace c = true := ha c (by simp)
    have hminus : c ≠ '-' := by rintro rfl; exact absurd hc (by decide)
    rw [List.cons_append, signRun, if_neg hminus, if_pos (.inr hc)]
    exact ih fun d hd => ha d (by simp [hd])

theorem Means.neg (ha : Blanks a) (h : Means .signed t text) : Means .signed (.neg t) (('-' : UInt8) :: (a ++ text)) := by
  intro n s sign blanks rest hn hblanks hrest
  simp only [List.length_cons, List.length_append] at hn
  obtain ⟨rest', hskip, hgives⟩ := h n s (-sign) a rest (by omega) ha hrest
  have hsign : parseAfterSign (parsers n) sign (blanks ++ (('-' : UInt8) :: (a ++ text) ++ rest)) =
      parseAfterSign (parsers n) (-sign) (a ++ (text ++ rest)) := by
    unfold parseAfterSign
    rw [signRun_blanks hblanks, List.cons_append, signRun, if_pos rfl, List.append_assoc]
  refine ⟨rest', hskip, ?_⟩
  rw [hsign]
  apply hgives.chain
  intro v history
  apply Gives.of_eq
  rw [Int32.mul_neg, Int32.neg_mul]

/-- The run of signs ends at a primary. -/
theorem Means.signed (htext : Prints .primary t text) (h : Means .primary t text) : Means .signed t text := by
  intro n s sign blanks rest hn hblanks hrest
  obtain ⟨rest', hskip, hgives⟩ := h n s rest hn hrest
  obtain ⟨c, u, rfl, hspace, hminus, hplus⟩ := htext.start_primary rfl
  have hsign : signRun sign (blanks ++ (c :: u ++ rest)) = (sign, c :: u ++ rest) := by
    rw [signRun_blanks hblanks, List.cons_append, signRun, if_neg hminus, if_neg]
    rintro (hc | hc)
    · exact hplus hc
    · rw [hspace] at hc
      cases hc
  refine ⟨rest', hskip, ?_⟩
  unfold parseAfterSign
  rw [hsign]
  exact hgives.bind fun r => pure (r.1 * sign, r.2)

theorem Means.factor (htext : Prints .signed t text) (h : Means .signed t text) : Means .factor t text := by
  intro n s blanks rest hn hblanks hrest
  obtain ⟨rest', hskip, hgives⟩ := h n s 1 [] rest hn (by simp [Blanks]) hrest
  obtain ⟨c, u, rfl, hspace⟩ := htext.start
  have hword := (htext.noWord (.inr rfl) hrest).not_nameMatchesCi (show _ ∧ _ by decide : _ ∧ isAlpha (peek (chars "NOT").tail) = true)
  have hstart : skipSpaces (blanks ++ (c :: u ++ rest)) = c :: u ++ rest := by
    rw [skipSpaces_blanks hblanks]
    exact skipSpaces_of_not_isSpace hspace
  refine ⟨rest', hskip, ?_⟩
  show Gives _ (parseFactor (parsers n) _) _ _
  unfold parseFactor
  rw [hstart]
  show Gives _ (if nameMatchesCi (c :: u ++ rest) (chars "NOT") = true then _ else parseAfterSign (parsers n) 1 (c :: u ++ rest)) _ _
  rw [hword, if_neg (by simp)]
  simp only [Int32.mul_one] at hgives
  exact hgives

theorem Means.not (ha : Blanks a) (hne : a ≠ []) (htext : Prints .factor t text) (h : Means .factor t text) :
    Means .factor (.not t) (chars "NOT" ++ (a ++ text)) := by
  intro n s blanks rest hn hblanks hrest
  have hlength : (chars "NOT").length = 3 := rfl
  simp only [List.length_append, hlength] at hn
  obtain ⟨n, rfl⟩ : ∃ m, n = m + 1 := ⟨n - 1, by omega⟩
  obtain ⟨rest', hskip, hgives⟩ := h n s [] rest (by omega) (by simp [Blanks]) hrest
  obtain ⟨c, u, rfl, hspace⟩ := htext.start
  have htail : isIdentTail (peek (a ++ (c :: u ++ rest))) = false := by
    cases a with
    | nil => exact absurd rfl hne
    | cons d a => exact (isIdentTail_of_isSpace (ha d (by simp))).1
  have hname : nameMatchesCi (chars "NOT" ++ (a ++ (c :: u ++ rest))) (chars "NOT") = true := by
    rw [nameMatchesCi, List.drop_left, htail]
    rfl
  have hstart : skipSpaces (blanks ++ (chars "NOT" ++ (a ++ (c :: u ++ rest)))) = chars "NOT" ++ (a ++ (c :: u ++ rest)) := by
    rw [skipSpaces_blanks hblanks]
    rfl
  have hoperand : skipSpaces ((chars "NOT" ++ (a ++ (c :: u ++ rest))).drop 3) = c :: u ++ rest := by
    rw [List.drop_left' hlength, skipSpaces_blanks ha]
    exact skipSpaces_of_not_isSpace hspace
  refine ⟨rest', hskip, ?_⟩
  show Gives _ (parseFactor (parsers (n + 1)) _) _ _
  unfold parseFactor
  simp only [List.append_assoc]
  rw [hstart, if_pos hname, parseNot, hoperand]
  apply (hgives.bind fun r => pure (~~~r.1, r.2)).chain
  intro v history
  exact .of_eq rfl

theorem Prints.means {level : Level} (h : Prints level t text) : Means level t text := by
  induction h with
  | lit hne hdigits hn =>
    intro n s rest _ hrest
    refine ⟨rest, rfl, .of_eq ?_⟩
    rw [parsePrimary_digits hne hdigits hrest, hn]
  | var hc =>
    intro n s rest _ hrest
    exact ⟨skipSpaces rest, skipSpaces_skipSpaces rest, .of_eq (parsePrimary_letter hc hrest _ s)⟩
  | paren ha _ hb ih => exact .paren ha hb ih
  | neg ha _ ih => exact .neg ha ih
  | not ha hne hs ih => exact .not ha hne hs ih
  | @bin level op l r a b s u hop hs ha hb hword hu ihs ihu =>
    have hblank : op.isWord = true → ∀ rest, isIdentTail (peek (b ++ (u ++ rest))) = false := by
      intro hw rest
      obtain ⟨d, b, rfl⟩ := List.exists_cons_of_ne_nil (hword hw).2
      exact (isIdentTail_of_isSpace (hb d (by simp))).1
    have hleft : op.isWord = true → a ≠ [] := fun hw => (hword hw).1
    cases level with
    | term =>
      apply Chains.bin ha hb ihs ihu
      · exact fun rest _ => op.follow ha hleft _
      · exact fun rest => termOp_of_term hop _
    | expr =>
      apply Chains.bin ha hb ihs (Chains.reads ihu)
      · exact fun rest _ => Op.followTerm hop ha hleft _
      · exact fun rest => exprOp_of_expr hop fun hw => hblank hw rest
    | _ => cases op <;> cases hop
  | @up level t s hs ih =>
    cases level with
    | primary => exact ih
    | signed => exact .signed hs ih
    | factor => exact .factor hs ih
    | term => exact ReadsAs.chains (fun _ _ => rfl) ih
    | expr => exact ReadsAs.chains (fun _ _ => rfl) (Chains.reads ih)

end Means

theorem expr_gives {t : ExprTree} (htext : Prints .expr t text) (hn : text.length + 1 < n) (s : Interp) :
    Gives (t.eval s.vars) ((parsers n).expr text) (fun v => pure (v, [])) s := by
  obtain ⟨n, rfl⟩ : ∃ m, n = m + 1 := ⟨n - 1, by omega⟩
  have hread := Chains.stops htext.means s (show text.length < n by omega) (show Blanks [] by simp [Blanks])
    (show FollowTerm [] from ⟨.nil, rfl⟩) rfl
  simp only [List.nil_append, List.append_nil] at hread
  exact hread

/-- What ends an expression. -/
structure StopsExpr (rest : Text) : Prop where
  follow : FollowTerm rest
  none : exprOp (skipSpaces rest) = none

/-- An expression before what ends it: only the history changes. -/
theorem expr_stops {e : ExprTree} {u : Text} {s : Interp} {x : Int32} (hu : Prints .expr e u) (ha : Blanks a)
    (hrest : StopsExpr rest) (hn : u.length + 1 < n) (hx : e.eval s.vars = .ok x) :
    ∃ h, (parsers n).expr (a ++ (u ++ rest)) s = (.ok (x, skipSpaces rest), { s with history := h }) := by
  obtain ⟨n, rfl⟩ : ∃ m, n = m + 1 := ⟨n - 1, by omega⟩
  have hread := Chains.stops hu.means s (show u.length < n by omega) ha hrest.follow hrest.none
  rw [hx] at hread
  exact hread

theorem expr_skipSpaces (n : ℕ) (text : Text) : (parsers n).expr (skipSpaces text) = (parsers n).expr text := by
  cases n with
  | zero => rfl
  | succ n =>
    show parseExpr (parsers n) n (skipSpaces text) = parseExpr (parsers n) n text
    unfold parseExpr parseTerm parseFactor
    rw [skipSpaces_skipSpaces]

/-- An expression means its value: every tree has a text, and on any text of it the parser
returns the value and has read all of it, or returns -1 exactly if the evaluation of the
tree divides by zero. -/
theorem expr_correct (t : ExprTree) : Prints .expr t t.text ∧ ∀ text, Prints .expr t text →
    ∀ (n : ℕ) (s : Interp), text.length + 1 < n → t.eval s.vars ≠ .error .overflow →
      (∀ v, t.eval s.vars = .ok v → ∃ h, (parsers n).expr text s = (.ok (v, []), { s with history := h })) ∧
      (((parsers n).expr text s).1 = .fail ↔ t.eval s.vars = .error .byZero) := by
  refine ⟨(prints_text t).lift (by cases t.level <;> decide), fun text htext n s hn hover => ?_⟩
  have hgives := expr_gives htext hn s
  revert hgives hover
  cases t.eval s.vars with
  | ok v =>
    rintro - ⟨h, hv⟩
    refine ⟨?_, ?_⟩
    · rintro _ ⟨⟩
      exact ⟨h, hv⟩
    · rw [hv]
      exact ⟨nofun, nofun⟩
  | error e =>
    cases e with
    | byZero => exact fun _ hfail => ⟨nofun, fun _ => rfl, fun _ => hfail⟩
    | overflow => exact fun hover => absurd rfl hover

/-- `NOT -A AND (7 - 10) % 4` -/
def maskedTree : ExprTree :=
  .bin .and (.not (.neg (.var 0))) (.bin .rem (.bin .sub (.lit ⟨7, seven_lt_literals⟩) (.lit ⟨10, by decide⟩)) (.lit ⟨4, by decide⟩))

theorem expr_correct_masked : ∃ h, (parsers 30).expr (chars "NOT -A AND (7 - 10) % 4") (booted Ramfs.blank fun _ => none) =
    (.ok (-3, []), { booted Ramfs.blank fun _ => none with history := h }) := by
  have htext : maskedTree.text = chars "NOT -A AND (7 - 10) % 4" := by decide +kernel
  have heval : maskedTree.eval (fun _ => 0) = .ok (-3) := rfl
  have hcorrect := expr_correct maskedTree
  rw [htext] at hcorrect
  have hvalue : maskedTree.eval (booted Ramfs.blank fun _ => none).vars ≠ .error .overflow := by
    rw [show (booted Ramfs.blank fun _ => none).vars = fun _ => 0 from rfl, heval]
    nofun
  exact (hcorrect.2 _ hcorrect.1 30 _ (by decide) hvalue).1 (-3) heval

end Tg11Kernel.Basic
