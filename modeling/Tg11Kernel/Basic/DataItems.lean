import Tg11Kernel.Basic.Strings
import Tg11Kernel.Basic.AssignmentRule

/-! The items of DATA lines. A cursor, a line and an offset in its text, stands before some
of the items of a program; the next item is the first of these, and the cursor that is left
stands before the others. -/

namespace Tg11Kernel.Basic

open Lib Lib.Exec

variable {n : ℕ} {p : Parsers} {s t : Interp} {line : Line} {lines : List Line}

/-! ### Items -/

/-- The text of an item, and whether it stands between quotes. -/
abbrev Item := Text × Bool

/-- How an item is written, in less than 96 bytes. -/
inductive ItemText : Item → Text → Prop where
  | plain {t : Text} (hne : t ≠ []) (hbytes : ∀ c ∈ t, c ≠ (',' : UInt8) ∧ c ≠ ('"' : UInt8) ∧ c ≠ 0) (hfirst : isSpace (peek t) = false)
      (hlast : isSpace (peek t.reverse) = false) (hfits : t.length < BASIC_MAX_STRING_LEN) : ItemText (t, false) t
  | quoted {t : Text} (hbytes : ∀ c ∈ t, c ≠ ('"' : UInt8) ∧ c ≠ 0) (hfits : t.length < BASIC_MAX_STRING_LEN) :
      ItemText (t, true) (('"' : UInt8) :: (t ++ [('"' : UInt8)]))

/-- Items with commas between them and blanks around them. -/
inductive ItemList : List Item → Text → Prop where
  | nil {a : Text} (ha : Blanks a) : ItemList [] a
  | last {a b x : Text} {i : Item} (ha : Blanks a) (hx : ItemText i x) (hb : Blanks b) : ItemList [i] (a ++ (x ++ b))
  | cons {a b x text : Text} {i j : Item} {is : List Item} (ha : Blanks a) (hx : ItemText i x) (hb : Blanks b)
      (hrest : ItemList (j :: is) text) : ItemList (i :: j :: is) (a ++ (x ++ (b ++ (',' : UInt8) :: text)))

/-- The items of a line; a line that is no DATA line has none. -/
def LineItems (line : Line) (is : List Item) : Prop :=
  if startsWithCi (statementStart line.text) (chars "DATA") = true then ItemList is ((statementStart line.text).drop 4) else is = []

/-! ### One item -/

variable {x b rest a text : Text} {i : Item} {is : List Item}

theorem trimEnd_blanks (hlast : isSpace (peek x.reverse) = false) (hb : Blanks b) : trimEnd (x ++ b) = x := by
  unfold trimEnd
  rw [List.reverse_append, List.dropWhile_append_of_pos fun c hc => hb c (List.mem_reverse.1 hc), dropWhile_stops hlast,
    List.reverse_reverse]

/-- What a list of items leaves behind the first one. -/
def Behind (rest : Text) : Prop := rest = [] ∨ ∃ u, rest = (',' : UInt8) :: u

theorem afterItem_behind (hb : Blanks b) (hrest : Behind rest) : afterItem (b ++ rest) = rest.tail := by
  obtain rfl | ⟨u, rfl⟩ := hrest
  · rw [List.append_nil, afterItem, skipSpaces_all hb]
    rfl
  · rw [afterItem, skipSpaces_byte hb (by decide)]
    rfl

theorem ItemText.cons (h : ItemText i x) : ∃ c u, x = c :: u ∧ isDataGap c = false := by
  cases h with
  | plain hne hbytes hfirst =>
    obtain ⟨c, u, rfl⟩ := List.exists_cons_of_ne_nil hne
    have hc : isSpace c = false := hfirst
    refine ⟨c, u, rfl, ?_⟩
    simp [isDataGap, hc, (hbytes c (by simp)).1]
  | quoted => exact ⟨_, _, rfl, by decide⟩

theorem ItemText.skip (h : ItemText i x) (ha : Blanks a) (rest : Text) :
    skipSpaces (a ++ (x ++ rest)) = x ++ rest := by
  obtain ⟨c, u, rfl, hc⟩ := h.cons
  simp only [isDataGap, Bool.or_eq_false_iff] at hc
  exact skipSpaces_byte ha hc.1 _

theorem dataItem_text (hx : ItemText i x) (hb : Blanks b) (hrest : Behind rest) :
    dataItem (x ++ (b ++ rest)) = (i.1, i.2, rest.tail) := by
  cases hx with
  | plain hne hbytes hfirst hlast hfits =>
    obtain ⟨c, u, rfl⟩ := List.exists_cons_of_ne_nil hne
    have hquote : ¬ peek (c :: u ++ (b ++ rest)) = ('"' : UInt8) := (hbytes c (by simp)).2.1
    have hkeep : ∀ d ∈ c :: u ++ b, decide (d ≠ ',') = true := by
      intro d hd
      rcases List.mem_append.1 hd with hd | hd
      · simpa using (hbytes d hd).1
      · have hspace := hb d hd
        simp only [decide_eq_true_eq]
        rintro rfl
        exact absurd hspace (by decide)
    have hstop : decide (peek rest ≠ ',') = false ∨ rest = [] := by
      obtain rfl | ⟨v, rfl⟩ := hrest
      · exact .inr rfl
      · exact .inl rfl
    have htake : (c :: u ++ (b ++ rest)).takeWhile (· ≠ (',' : UInt8)) = c :: u ++ b := by
      rw [← List.append_assoc, List.takeWhile_append_of_pos hkeep]
      obtain hstop | rfl := hstop
      · rw [takeWhile_stops hstop, List.append_nil]
      · rw [List.takeWhile_nil, List.append_nil]
    have hdrop : (c :: u ++ (b ++ rest)).dropWhile (· ≠ (',' : UInt8)) = rest := by
      rw [← List.append_assoc, List.dropWhile_append_of_pos hkeep]
      obtain hstop | rfl := hstop
      · rw [dropWhile_stops hstop]
      · rfl
    have hcut : (c :: u ++ b).take (BASIC_MAX_STRING_LEN - 1) = c :: u ++ b.take (BASIC_MAX_STRING_LEN - 1 - (c :: u).length) := by
      rw [List.take_append, List.take_of_length_le (by omega)]
    have hblank : Blanks (b.take (BASIC_MAX_STRING_LEN - 1 - (c :: u).length)) := fun d hd => hb d (List.mem_of_mem_take hd)
    unfold dataItem
    rw [if_neg hquote, htake, hdrop, hcut, trimEnd_blanks hlast hblank]
    have hafter := afterItem_behind (show Blanks [] by simp [Blanks]) hrest
    rw [List.nil_append] at hafter
    rw [hafter]
  | @quoted t hbytes hfits =>
    have hkeep : ∀ d ∈ t, decide (d ≠ ('"' : UInt8)) = true := fun d hd => by simpa using (hbytes d hd).1
    have htake : (t ++ ('"' : UInt8) :: (b ++ rest)).takeWhile (· ≠ ('"' : UInt8)) = t := by
      rw [List.takeWhile_append_of_pos hkeep, takeWhile_stops (by rfl), List.append_nil]
    have hdrop : (t ++ ('"' : UInt8) :: (b ++ rest)).dropWhile (· ≠ ('"' : UInt8)) = ('"' : UInt8) :: (b ++ rest) := by
      rw [List.dropWhile_append_of_pos hkeep, dropWhile_stops (by rfl)]
    have htext : ('"' : UInt8) :: (t ++ [('"' : UInt8)]) ++ (b ++ rest) = ('"' : UInt8) :: (t ++ ('"' : UInt8) :: (b ++ rest)) := by simp
    rw [htext]
    unfold dataItem
    rw [if_pos (by rfl), List.tail_cons, htake, hdrop]
    dsimp only [List.tail_cons]
    rw [afterItem_behind hb hrest, List.take_of_length_le (show t.length ≤ BASIC_MAX_STRING_LEN - 1 from Nat.le_pred_of_lt hfits)]

theorem ItemText.copy (h : ItemText i x) : copyString BASIC_MAX_STRING_LEN i.1 = i.1 := by
  cases h with
  | plain hne hbytes hfirst hlast hfits => exact copyString_fits (fun c hc => (hbytes c hc).2.2) (Nat.le_pred_of_lt hfits)
  | quoted hbytes hfits => exact copyString_fits (fun c hc => (hbytes c hc).2) (Nat.le_pred_of_lt hfits)

/-! ### The items before a cursor -/

theorem ItemList.gap_nil (h : ItemList [] text) : text.dropWhile isDataGap = [] := by
  cases h with
  | nil ha =>
    apply List.dropWhile_eq_nil_iff.2
    intro c hc
    simp [isDataGap, ha c hc]

theorem dropWhile_gap (ha : Blanks a) {c : UInt8} (hc : isDataGap c = false) (u : Text) :
    (a ++ c :: u).dropWhile isDataGap = c :: u := by
  rw [List.dropWhile_append_of_pos fun d hd => by simp [isDataGap, ha d hd]]
  exact List.dropWhile_cons_of_neg (by rw [hc]; exact Bool.false_ne_true)

/-- The first item of a text, and what is left of the list behind it. -/
theorem ItemList.gap_cons (h : ItemList (i :: is) text) : ∃ x b rest,
    text.dropWhile isDataGap = x ++ (b ++ rest) ∧ ItemText i x ∧ Blanks b ∧ Behind rest ∧ ItemList is rest.tail ∧ rest.tail <:+ text := by
  cases h with
  | @last a b x i ha hx hb =>
    obtain ⟨c, u, rfl, hc⟩ := hx.cons
    refine ⟨c :: u, b, [], ?_, hx, hb, .inl rfl, .nil (by simp [Blanks]), List.nil_suffix⟩
    rw [List.append_nil]
    exact dropWhile_gap ha hc _
  | @cons a b x text i j is ha hx hb hrest =>
    obtain ⟨c, u, rfl, hc⟩ := hx.cons
    refine ⟨c :: u, b, (',' : UInt8) :: text, dropWhile_gap ha hc _, hx, hb, .inr ⟨_, rfl⟩, hrest, ?_⟩
    exact ⟨a ++ (c :: u ++ (b ++ [(',' : UInt8)])), by simp⟩

/-- The items of a line from an offset in the text behind `DATA` on. -/
def ItemsAt (line : Line) (offset : ℕ) (is : List Item) : Prop :=
  match dataStart line with
  | none => is = []
  | some start => ItemList is (start.drop offset)

theorem ItemList.skipSpaces (h : ItemList is text) : ItemList is (skipSpaces text) := by
  cases h with
  | nil ha =>
    rw [skipSpaces_all ha]
    exact .nil (by simp [Blanks])
  | last ha hx hb =>
    have hlist := ItemList.last (show Blanks [] by simp [Blanks]) hx hb
    rwa [List.nil_append, ← hx.skip ha] at hlist
  | cons ha hx hb hrest =>
    have hlist := ItemList.cons (show Blanks [] by simp [Blanks]) hx hb hrest
    rwa [List.nil_append, ← hx.skip ha] at hlist

theorem LineItems.itemsAt (h : LineItems line is) : ItemsAt line 0 is := by
  unfold LineItems at h
  unfold ItemsAt dataStart
  dsimp only
  split_ifs at h with hdata
  · rw [if_pos hdata]
    exact h.skipSpaces
  · rw [if_neg hdata]
    exact h

/-! ### The next item -/

theorem drop_of_suffix {after : Text} (h : after <:+ text) : text.drop (text.length - after.length) = after := by
  obtain ⟨front, rfl⟩ := h
  rw [List.length_append, Nat.add_sub_cancel, List.drop_left]

/-- In the line of the cursor. -/
theorem nextDataItem_here {offset : ℕ} (h : ItemsAt line offset (i :: is)) (li : ℕ) (rest : List Line) :
    ∃ offset', nextDataItem li (line :: rest) offset = some (i.1, i.2, li, offset') ∧ ItemsAt line offset' is ∧ ∃ x, ItemText i x := by
  unfold ItemsAt at h ⊢
  unfold nextDataItem
  cases hstart : dataStart line with
  | none =>
    rw [hstart] at h
    cases h
  | some start =>
    rw [hstart] at h
    obtain ⟨x, b, tail, hgap, hx, hb, hbehind, hlist, hsuffix⟩ := h.gap_cons
    have hne : ¬ (start.drop offset).dropWhile isDataGap = [] := by
      obtain ⟨c, u, rfl, -⟩ := hx.cons
      rw [hgap]
      simp
    refine ⟨start.length - tail.tail.length, ?_, ?_, x, hx⟩
    · dsimp only
      rw [if_neg hne, hgap, dataItem_text hx hb hbehind]
    · show ItemList is (start.drop (start.length - tail.tail.length))
      rw [drop_of_suffix (hsuffix.trans (List.drop_suffix offset start))]
      exact hlist

/-- The line of the cursor has no more items. -/
theorem nextDataItem_skip {offset : ℕ} (h : ItemsAt line offset []) (li : ℕ) (rest : List Line) :
    nextDataItem li (line :: rest) offset = nextDataItem (li + 1) rest 0 := by
  unfold ItemsAt at h
  conv_lhs => unfold nextDataItem
  cases hstart : dataStart line with
  | none => rfl
  | some start =>
    rw [hstart] at h
    have hgap : (start.drop offset).dropWhile isDataGap = [] := h.gap_nil
    dsimp only
    rw [if_pos hgap]

/-- The items of the lines behind line `li` of a program. -/
def itemsFrom (iss : List (List Item)) (li : ℕ) : List Item := (iss.drop li).flatten

/-- Line `li` and an offset in it stand before these items. -/
def Before (lines : List Line) (iss : List (List Item)) (li offset : ℕ) (items : List Item) : Prop :=
  match lines[li]? with
  | none => items = []
  | some line => ∃ is, ItemsAt line offset is ∧ items = is ++ itemsFrom iss (li + 1)

variable {iss : List (List Item)} {items : List Item} {li offset : ℕ}

theorem itemsFrom_of_le (h : iss.length ≤ li) : itemsFrom iss li = [] := by
  rw [itemsFrom, List.drop_eq_nil_of_le h]
  rfl

section

variable (h : List.Forall₂ LineItems lines iss)
include h

/-- A line stands before its own items and those behind it. -/
theorem before_line (li : ℕ) : Before lines iss li 0 (itemsFrom iss li) := by
  unfold Before
  cases hline : lines[li]? with
  | none =>
    rw [List.getElem?_eq_none_iff] at hline
    exact itemsFrom_of_le (h.length_eq ▸ hline)
  | some line =>
    obtain ⟨hlt, rfl⟩ := List.getElem?_eq_some_iff.1 hline
    have hlt' : li < iss.length := h.length_eq ▸ hlt
    refine ⟨iss[li], (h.get hlt hlt').itemsAt, ?_⟩
    rw [itemsFrom, List.drop_eq_getElem_cons hlt']
    rfl

theorem next_nil (hbefore : Before lines iss li offset []) : nextDataItem li (lines.drop li) offset = none := by
  induction hk : lines.length - li generalizing li offset with
  | zero =>
    rw [List.drop_eq_nil_of_le (by omega)]
    rfl
  | succ k ih =>
    have hlt : li < lines.length := by omega
    unfold Before at hbefore
    rw [List.getElem?_eq_getElem hlt] at hbefore
    obtain ⟨is, hat, hitems⟩ := hbefore
    obtain ⟨rfl, hrest⟩ := List.append_eq_nil_iff.1 hitems.symm
    have hnext := before_line h (li + 1)
    rw [hrest] at hnext
    rw [List.drop_eq_getElem_cons hlt, nextDataItem_skip hat]
    exact ih hnext (by omega)

/-- The first of the items, and the cursor stands before the others. -/
theorem next_cons {i : Item} (hbefore : Before lines iss li offset (i :: items)) :
    ∃ li' offset', nextDataItem li (lines.drop li) offset = some (i.1, i.2, li', offset') ∧ Before lines iss li' offset' items ∧
      ∃ x, ItemText i x := by
  induction hk : lines.length - li generalizing li offset with
  | zero =>
    unfold Before at hbefore
    rw [List.getElem?_eq_none (by omega)] at hbefore
    cases hbefore
  | succ k ih =>
    have hlt : li < lines.length := by omega
    unfold Before at hbefore
    rw [List.getElem?_eq_getElem hlt] at hbefore
    obtain ⟨is, hat, hitems⟩ := hbefore
    rw [List.drop_eq_getElem_cons hlt]
    cases is with
    | nil =>
      have hnext := before_line h (li + 1)
      rw [← List.nil_append (itemsFrom iss (li + 1)), ← hitems] at hnext
      rw [nextDataItem_skip hat]
      exact ih hnext (by omega)
    | cons j is =>
      simp only [List.cons_append, List.cons.injEq] at hitems
      obtain ⟨rfl, rfl⟩ := hitems
      obtain ⟨offset', hfound, hat', htext⟩ := nextDataItem_here hat li (lines.drop (li + 1))
      refine ⟨li, offset', hfound, ?_, htext⟩
      unfold Before
      rw [List.getElem?_eq_getElem hlt]
      exact ⟨is, hat', rfl⟩

end

/-! ### The cursor of the interpreter -/

/-- Before the cursor are these items. -/
def Interp.Remaining (s : Interp) (lines : List Line) (iss : List (List Item)) (items : List Item) : Prop :=
  Before lines iss s.dataLine s.dataOffset items

theorem readNext_nil (h : List.Forall₂ LineItems lines iss) (hs : s.Remaining lines iss []) :
    ∃ offset, readNextDataItem lines s = (.fail, { s with dataOffset := offset }) := by
  unfold readNextDataItem
  rw [bind_ok (gets_apply Interp.dataLine s), bind_ok (gets_apply Interp.dataOffset s), next_nil h hs]
  exact ⟨_, rfl⟩

theorem readNext_cons (h : List.Forall₂ LineItems lines iss) (hs : s.Remaining lines iss (i :: items)) :
    ∃ li offset, readNextDataItem lines s = (.ok i, { s with dataLine := li, dataOffset := offset }) ∧
      Before lines iss li offset items ∧ ∃ x, ItemText i x := by
  obtain ⟨li, offset, hfound, hbefore, htext⟩ := next_cons h hs
  unfold readNextDataItem
  rw [bind_ok (gets_apply Interp.dataLine s), bind_ok (gets_apply Interp.dataOffset s), hfound]
  exact ⟨li, offset, rfl, hbefore, htext⟩

end Tg11Kernel.Basic
