import Tg11Kernel.Lib.Bubble
import Tg11Kernel.Shell.Calculation
import Tg11Kernel.Shell.TextCommands

/-! The command `sort`. Its table takes the empty piece behind a final newline as one more line, which
is left out again where it ends up last. -/

namespace Tg11Kernel.Shell

open Lib
open Startup (readToken)

namespace Sorting

open TextCommands

/-! ### The command -/

/-- `reverse` and `numeric` -/
structure Flags where
  reverse : Bool
  numeric : Bool
  deriving DecidableEq

def Flags.letter (f : Flags) (c : UInt8) : Flags :=
  if c = ('r' : UInt8) then { f with reverse := true } else if c = ('n' : UInt8) then { f with numeric := true } else f

/-- Where the scan of the flags is: before a `-`, behind one, or at the blanks after its letters. -/
inductive Scan where
  | start
  | letters
  | blanks

/-- `while (*p == '-')`: the flags, and what stands behind them. -/
def readFlags : Scan → Flags → Text → Flags × Text
  | _, f, [] => (f, [])
  | .letters, f, c :: p => if c = 32 then readFlags .blanks f p else readFlags .letters (f.letter c) p
  | .blanks, f, c :: p =>
    if c = 32 then readFlags .blanks f p else if c = ('-' : UInt8) then readFlags .letters f p else (f, c :: p)
  | .start, f, c :: p => if c = ('-' : UInt8) then readFlags .letters f p else (f, c :: p)

/-- The loop that fills `lines`, with the free entries; `cur` holds the bytes from `start` up to `i`. -/
def splitLoop : ℕ → Text → Text → List Text
  | room, cur, [] => if 0 < room then [cstr cur] else []
  | room, cur, c :: rest =>
    if c = ('\n' : UInt8) then
      if 0 < room then cstr cur :: splitLoop (room - 1) [] rest else splitLoop room [] rest
    else splitLoop room (cur ++ [c]) rest

/-- The number that a line begins with. -/
def leadingNumber (line : Text) : Int64 := valueNumber (skipBlanks line)

def cmpNumeric (a b : Text) : Ordering :=
  if leadingNumber a < leadingNumber b then .lt else if leadingNumber b < leadingNumber a then .gt else .eq

/-- A `char` has a sign. -/
def cmpText : Text → Text → Ordering
  | [], [] => .eq
  | [], _ :: _ => .lt
  | _ :: _, [] => .gt
  | c :: a, d :: b => if c.toInt8 < d.toInt8 then .lt else if d.toInt8 < c.toInt8 then .gt else cmpText a b

/-- `cmp` -/
def Flags.cmp (f : Flags) (a b : Text) : Ordering :=
  if f.reverse then (if f.numeric then cmpNumeric a b else cmpText a b).swap
  else if f.numeric then cmpNumeric a b else cmpText a b

def Flags.gt (f : Flags) (a b : Text) : Bool := decide (f.cmp a b = .gt)

/-- `if (lines[i2][0] != '\0' || i2 < line_count - 1)` -/
def printLoop : List Text → List Text
  | [] => []
  | [line] => if line = [] then [] else [line]
  | line :: lines => line :: printLoop lines

/-- The lines that are printed for a content. -/
def sortLines (f : Flags) (data : Text) : List Text := printLoop (Bubble.sort f.gt (splitLoop 512 [] data))

/-- `cmd_sort`; a token that does not fit leaves the buffer of the path without an end. -/
def cmdSort (src : Source) (args : Text) : Option (List Text) :=
  match readToken (readFlags .start ⟨false, false⟩ args).2 128 with
  | none => none
  | some (pp, _) => match readFileOrPipe src pp readMax with
    | none => some [chars "sort: cannot read input"]
    | some data => some (sortLines (readFlags .start ⟨false, false⟩ args).1 data)

/-! ### The order of the lines -/

/-- The numbers that the bytes are. -/
def byteKey (line : Text) : List ℕ := line.map UInt8.toNat

/-- The numbers that the bytes are as a `char`. -/
def charKey (line : Text) : List ℤ := line.map fun c => c.toInt8.toInt

/-- The number that a line begins with, 0 where there is none. -/
def leadingValue (line : Text) : ℤ :=
  if peek (skipBlanks line) = ('-' : UInt8) then -(decimalValue ((skipBlanks line).tail.takeWhile Line.isDigit) : ℤ)
  else decimalValue ((skipBlanks line).takeWhile Line.isDigit)

/-- The order by bytes, or by the leading number. -/
def KeyLe (numeric : Bool) (a b : Text) : Prop := if numeric then leadingValue a ≤ leadingValue b else byteKey a ≤ byteKey b

/-- The order that the flags ask for. -/
def Flags.Ordered (f : Flags) (a b : Text) : Prop := if f.reverse then KeyLe f.numeric b a else KeyLe f.numeric a b

instance decidableKeyLe (numeric : Bool) : DecidableRel (KeyLe numeric) := fun a b =>
  inferInstanceAs (Decidable (if numeric then leadingValue a ≤ leadingValue b else byteKey a ≤ byteKey b))

instance decidableOrdered (f : Flags) : DecidableRel f.Ordered := fun a b =>
  inferInstanceAs (Decidable (if f.reverse then KeyLe f.numeric b a else KeyLe f.numeric a b))

/-- The order that the command sorts by. -/
def Flags.Below (f : Flags) (a b : Text) : Prop := f.cmp a b ≠ .gt

instance decidableBelow (f : Flags) : DecidableRel f.Below := fun a b => inferInstanceAs (Decidable (f.cmp a b ≠ .gt))

variable {f : Flags} {a b line content : Text} {lines : List Text}

/-! ### The comparison -/

theorem charKey_injective : Function.Injective charKey := by
  refine List.map_injective_iff.2 fun c d h => ?_
  calc c = c.toInt8.toUInt8 := c.toUInt8_toInt8.symm
    _ = d.toInt8.toUInt8 := by rw [Int8.toInt_inj.1 h]
    _ = d := d.toUInt8_toInt8

theorem byteKey_injective : Function.Injective byteKey := List.map_injective_iff.2 fun _ _ h => UInt8.toNat_inj.1 h

theorem cmpText_eq_gt : cmpText a b = .gt ↔ charKey b < charKey a := by
  induction a generalizing b with
  | nil => cases b <;> simp [cmpText, charKey]
  | cons c a ih =>
    cases b with
    | nil => simp [cmpText, charKey]
    | cons d b =>
      have hkeys : charKey (d :: b) < charKey (c :: a) ↔ d.toInt8.toInt < c.toInt8.toInt ∨ d.toInt8.toInt = c.toInt8.toInt ∧ charKey b < charKey a :=
        List.cons_lt_cons_iff
      rw [hkeys, cmpText]
      split_ifs with hlt hgt
      · have hcd := Int8.lt_iff_toInt_lt.1 hlt
        simp only [reduceCtorEq, false_iff, not_or, not_and]
        omega
      · simp [Int8.lt_iff_toInt_lt.1 hgt]
      · rw [Int8.lt_iff_toInt_lt] at hlt hgt
        rw [ih]
        exact ⟨fun h => .inr ⟨by omega, h⟩, fun h => (h.resolve_left hgt).2⟩

theorem cmpText_ne_gt : cmpText a b ≠ .gt ↔ charKey a ≤ charKey b := (not_congr cmpText_eq_gt).trans not_lt

theorem cmpNumeric_ne_gt : cmpNumeric a b ≠ .gt ↔ (leadingNumber a).toInt ≤ (leadingNumber b).toInt := by
  unfold cmpNumeric
  split_ifs with hlt hgt
  · have hle := Int64.lt_iff_toInt_lt.1 hlt
    simp only [ne_eq, reduceCtorEq, not_false_eq_true, true_iff]
    omega
  · have hlt' := Int64.lt_iff_toInt_lt.1 hgt
    simp only [ne_eq, not_true_eq_false, false_iff]
    omega
  · have hle := mt Int64.lt_iff_toInt_lt.2 hgt
    simp only [ne_eq, reduceCtorEq, not_false_eq_true, true_iff]
    omega

theorem swap_cmpText (a b : Text) : (cmpText a b).swap = cmpText b a := by
  induction a generalizing b with
  | nil => cases b <;> rfl
  | cons c a ih =>
    cases b with
    | nil => rfl
    | cons d b =>
      rw [cmpText, cmpText, ← ih]
      split_ifs with hlt hgt
      · exact absurd hlt (Int8.lt_asymm hgt)
      · rfl
      · rfl
      · rfl

theorem swap_cmpNumeric (a b : Text) : (cmpNumeric a b).swap = cmpNumeric b a := by
  unfold cmpNumeric
  split_ifs with hlt hgt
  · exact absurd hlt (Int64.lt_asymm hgt)
  · rfl
  · rfl
  · rfl

theorem below_iff : f.Below a b ↔ if f.reverse then
    (if f.numeric then (leadingNumber b).toInt ≤ (leadingNumber a).toInt else charKey b ≤ charKey a) else
    (if f.numeric then (leadingNumber a).toInt ≤ (leadingNumber b).toInt else charKey a ≤ charKey b) := by
  unfold Flags.Below Flags.cmp
  split_ifs
  · rw [swap_cmpNumeric, cmpNumeric_ne_gt]
  · rw [swap_cmpText, cmpText_ne_gt]
  · exact cmpNumeric_ne_gt
  · exact cmpText_ne_gt

theorem below_preorder (f : Flags) : Bubble.TotalPreorder f.Below where
  trans h h' := by
    rw [below_iff] at h h' ⊢
    split_ifs at h h' ⊢
    · exact h'.trans h
    · exact le_trans h' h
    · exact h.trans h'
    · exact le_trans h h'
  total a b := by
    rw [below_iff, below_iff]
    split_ifs
    · exact le_total _ _
    · exact le_total _ _
    · exact le_total _ _
    · exact le_total _ _

theorem gt_iff (a b : Text) : f.gt a b = true ↔ ¬ f.Below a b := by
  rw [Flags.gt, decide_eq_true_iff, Flags.Below, not_not]

/-! ### The two orders -/

/-- The leading number of the line fits 64 bits. -/
def Fits (line : Text) : Prop := -2 ^ 63 ≤ leadingValue line ∧ leadingValue line < 2 ^ 63

theorem leadingNumber_eq (h : Fits line) : (leadingNumber line).toInt = leadingValue line := by
  have hdigits : ∀ t : Text, ∀ c ∈ t.takeWhile Line.isDigit, Line.isDigit c = true := fun _ _ hc => List.mem_takeWhile_imp hc
  have hwraps : leadingNumber line = Int64.ofInt (leadingValue line) := by
    unfold leadingNumber valueNumber leadingValue
    split_ifs
    · rw [digitsValue_eq (hdigits _), Int64.ofInt_neg, Int64.ofInt_eq_ofNat]
    · rw [digitsValue_eq (hdigits _), Int64.ofInt_eq_ofNat]
  rw [hwraps]
  exact Int64.toInt_ofInt_of_le h.1 h.2

/-- No two of the lines change places when the bytes are read as a `char`. -/
def Agree (f : Flags) (lines : List Text) : Prop :=
  f.numeric = false → ∀ a ∈ lines, ∀ b ∈ lines, charKey a ≤ charKey b → byteKey a ≤ byteKey b

theorem ordered_of_below (hfits : f.numeric = true → ∀ line ∈ lines, Fits line) (hagree : Agree f lines) (ha : a ∈ lines) (hb : b ∈ lines)
    (h : f.Below a b) : f.Ordered a b := by
  rw [below_iff] at h
  unfold Flags.Ordered KeyLe
  cases hnumeric : f.numeric with
  | false =>
    rw [hnumeric] at h
    simp only [Bool.false_eq_true, if_false] at h ⊢
    split_ifs at h ⊢
    · exact hagree hnumeric b hb a ha h
    · exact hagree hnumeric a ha b hb h
  | true =>
    rw [hnumeric, leadingNumber_eq (hfits hnumeric a ha), leadingNumber_eq (hfits hnumeric b hb)] at h
    exact h

/-- Lines of the same key are the same ones in both orders. -/
theorem same_iff (hfits : f.numeric = true → ∀ line ∈ lines, Fits line) (ha : a ∈ lines) (hb : b ∈ lines) :
    f.Below a b ∧ f.Below b a ↔ f.Ordered a b ∧ f.Ordered b a := by
  rw [below_iff, below_iff]
  unfold Flags.Ordered KeyLe
  cases hnumeric : f.numeric with
  | false =>
    have hchar : charKey a ≤ charKey b ∧ charKey b ≤ charKey a ↔ a = b :=
      ⟨fun h => charKey_injective (le_antisymm h.1 h.2), fun h => h ▸ ⟨le_rfl, le_rfl⟩⟩
    have hbyte : byteKey a ≤ byteKey b ∧ byteKey b ≤ byteKey a ↔ a = b :=
      ⟨fun h => byteKey_injective (le_antisymm h.1 h.2), fun h => h ▸ ⟨le_rfl, le_rfl⟩⟩
    simp only [Bool.false_eq_true, if_false]
    split_ifs
    · exact and_comm.trans (hchar.trans (hbyte.symm.trans and_comm))
    · exact hchar.trans hbyte.symm
  | true =>
    rw [leadingNumber_eq (hfits hnumeric a ha), leadingNumber_eq (hfits hnumeric b hb)]
    simp only [if_true]

/-! ### The table and the output -/

theorem splitLoop_eq (room : ℕ) (cur rest : Text) :
    splitLoop room cur rest = ((Lines.pieces ('\n' : UInt8) cur rest).take room).map cstr := by
  induction rest generalizing room cur with
  | nil =>
    rw [splitLoop, Lines.pieces_nil]
    split_ifs with h
    · obtain ⟨k, rfl⟩ : ∃ k, room = k + 1 := ⟨room - 1, by omega⟩
      rw [List.take_succ_cons, List.take_nil]
      rfl
    · rw [Nat.eq_zero_of_not_pos h]
      rfl
  | cons c rest ih =>
    rw [splitLoop]
    split_ifs with hc h
    · subst hc
      obtain ⟨k, rfl⟩ : ∃ k, room = k + 1 := ⟨room - 1, by omega⟩
      rw [Lines.pieces_sep, List.take_succ_cons, List.map_cons, ih, Nat.add_sub_cancel]
    · rw [ih, Nat.eq_zero_of_not_pos h]
      rfl
    · rw [Lines.pieces_cons hc, ih]

theorem printLoop_append (zs : List Text) (x : Text) : printLoop (zs ++ [x]) = if x = [] then zs else zs ++ [x] := by
  induction zs with
  | nil =>
    rw [List.nil_append, printLoop]
  | cons z zs ih =>
    have hstep : printLoop (z :: (zs ++ [x])) = z :: printLoop (zs ++ [x]) := by
      cases zs <;> rfl
    rw [List.cons_append, hstep, ih]
    split_ifs <;> rfl

/-- The lines of the content; a newline at the end ends the last one. -/
def contentLines (content : Text) : List Text := Lines.lines ('\n' : UInt8) content

/-- The output is a sorted permutation of the lines, in which lines of the same key keep their order. -/
structure Sorts (f : Flags) (lines out : List Text) : Prop where
  perm : out.Perm lines
  sorted : out.Pairwise f.Ordered
  stable : ∀ x ∈ lines, out.filter (Bubble.same f.Ordered x) = lines.filter (Bubble.same f.Ordered x)

variable {out : List Text}

/-- What is sorted by the command's order is sorted as the flags ask for exactly if the orders agree. -/
theorem sorts_iff (hfits : f.numeric = true → ∀ line ∈ lines, Fits line) (hsort : Bubble.SortOf f.Below lines out) :
    Sorts f lines out ↔ Agree f lines := by
  have hle := below_preorder f
  have hmem : ∀ x, x ∈ out ↔ x ∈ lines := fun x => hsort.mem_iff hle
  constructor
  · intro h hnumeric
    have hforward : out.Pairwise fun a b => charKey a ≤ charKey b → byteKey a ≤ byteKey b := by
      cases hreverse : f.reverse with
      | false =>
        refine h.sorted.imp fun hab _ => ?_
        unfold Flags.Ordered KeyLe at hab
        simpa [hreverse, hnumeric] using hab
      | true =>
        refine (hsort.sorted.and h.sorted).imp fun hab hchar => ?_
        have hbelow := below_iff.1 hab.1
        simp only [hreverse, hnumeric, if_true, Bool.false_eq_true, if_false] at hbelow
        rw [charKey_injective (le_antisymm hchar hbelow)]
    have hbackward : out.Pairwise (flip fun a b => charKey a ≤ charKey b → byteKey a ≤ byteKey b) := by
      cases hreverse : f.reverse with
      | false =>
        refine (hsort.sorted.and h.sorted).imp fun hab hchar => ?_
        have hbelow := below_iff.1 hab.1
        simp only [hreverse, hnumeric, Bool.false_eq_true, if_false] at hbelow
        rw [charKey_injective (le_antisymm hchar hbelow)]
      | true =>
        refine h.sorted.imp fun hab _ => ?_
        unfold Flags.Ordered KeyLe at hab
        simpa [hreverse, hnumeric] using hab
    have hall := List.Pairwise.forall_of_forall_of_flip (fun x _ _ => le_rfl) hforward hbackward
    exact fun a ha b hb => hall ((hmem a).2 ha) ((hmem b).2 hb)
  · intro hagree
    refine ⟨hsort.perm hle, ?_, fun x hx => ?_⟩
    · exact hsort.sorted.imp_of_mem fun ha hb hab => ordered_of_below hfits hagree ((hmem _).1 ha) ((hmem _).1 hb) hab
    · have hclass : ∀ y ∈ lines, Bubble.same f.Ordered x y = Bubble.same f.Below x y :=
        fun y hy => decide_eq_decide.2 (same_iff hfits hx hy).symm
      rw [List.filter_congr fun y hy => hclass y ((hmem y).1 hy), List.filter_congr hclass]
      exact hsort.stable x

/-- No entry of the table is left for an empty piece behind the lines. -/
def Full (content : Text) : Prop := Unended content ∨ (contentLines content).length = 512

/-- The table has room for the lines, they hold no NUL, the orders agree, and the empty line that is left out
at the end is the piece behind the last newline, where that is in the table. -/
structure Sortable (f : Flags) (content : Text) : Prop where
  few : (contentLines content).length ≤ 512
  whole : ∀ line ∈ contentLines content, (0 : UInt8) ∉ line
  agree : Agree f (contentLines content)
  ofFull : Full content → ¬ Bubble.LastGreatest f.Below (contentLines content) []
  ofFree : ¬ Full content → ∀ line ∈ contentLines content, f.Below line []

section Table

variable (hfew : (contentLines content).length ≤ 512) (hwhole : ∀ line ∈ contentLines content, (0 : UInt8) ∉ line)
include hfew hwhole

theorem cstr_whole : (contentLines content).map cstr = contentLines content :=
  (List.map_congr_left fun line hline => cstr_eq_self.2 (hwhole line hline)).trans (List.map_id _)

theorem table_full (h : Full content) : splitLoop 512 [] content = contentLines content := by
  rw [splitLoop_eq]
  by_cases hend : Unended content
  · rw [pieces_unended hend]
    change ((contentLines content).take 512).map cstr = _
    rw [List.take_of_length_le hfew]
    exact cstr_whole hfew hwhole
  · rw [pieces_ended hend]
    change ((contentLines content ++ [[]]).take 512).map cstr = _
    rw [List.take_append_of_le_length (h.resolve_left hend).ge, List.take_of_length_le hfew]
    exact cstr_whole hfew hwhole

theorem table_free (h : ¬ Full content) : splitLoop 512 [] content = contentLines content ++ [[]] := by
  obtain ⟨hend, hne⟩ := not_or.1 h
  have hlength : (Lines.lines ('\n' : UInt8) content ++ [[]]).length ≤ 512 := by
    unfold contentLines at hne hfew
    rw [List.length_append, List.length_singleton]
    omega
  rw [splitLoop_eq, pieces_ended hend, List.take_of_length_le hlength, List.map_append]
  exact congrArg (· ++ [[]]) (cstr_whole hfew hwhole)

end Table

/-- What is printed are lines of the table. -/
theorem printed_mem (h : line ∈ sortLines f content) : (0 : UInt8) ∉ line := by
  have hle := below_preorder f
  have hsort := Bubble.sort_spec hle gt_iff (splitLoop 512 [] content)
  have hin : line ∈ Bubble.sort f.gt (splitLoop 512 [] content) := by
    revert h
    unfold sortLines
    rcases List.eq_nil_or_concat' (Bubble.sort f.gt (splitLoop 512 [] content)) with hnil | ⟨zs, x, hzs⟩
    · rw [hnil]
      exact id
    · rw [hzs, printLoop_append]
      split_ifs
      · exact fun h => List.mem_append_left _ h
      · exact id
  rw [hsort.mem_iff hle, splitLoop_eq] at hin
  obtain ⟨piece, -, rfl⟩ := List.mem_map.1 hin
  exact fun hzero => absurd (List.mem_takeWhile_imp hzero) (by decide)

theorem length_sortLines_le : (sortLines f content).length ≤ 512 := by
  have hle := below_preorder f
  have hsort := Bubble.sort_spec hle gt_iff (splitLoop 512 [] content)
  have htable : (Bubble.sort f.gt (splitLoop 512 [] content)).length ≤ 512 := by
    rw [(hsort.perm hle).length_eq, splitLoop_eq, List.length_map, List.length_take]
    exact min_le_left _ _
  unfold sortLines
  rcases List.eq_nil_or_concat' (Bubble.sort f.gt (splitLoop 512 [] content)) with hnil | ⟨zs, x, hzs⟩
  · rw [hnil]
    exact Nat.zero_le _
  · rw [hzs] at htable ⊢
    rw [printLoop_append]
    rw [List.length_append] at htable
    split_ifs
    · omega
    · rw [List.length_append]
      exact htable

section

variable (hfew : (contentLines content).length ≤ 512) (hwhole : ∀ line ∈ contentLines content, (0 : UInt8) ∉ line)
include hfew hwhole

/-- A full table holds the lines of the content, so none may be left out. -/
theorem sortLines_full (hfull : Full content) :
    ((sortLines f content).length = (contentLines content).length ↔ ¬ Bubble.LastGreatest f.Below (contentLines content) []) ∧
      (¬ Bubble.LastGreatest f.Below (contentLines content) [] → Bubble.SortOf f.Below (contentLines content) (sortLines f content)) := by
  have hle := below_preorder f
  have hsort := Bubble.sort_spec hle gt_iff (splitLoop 512 [] content)
  unfold sortLines
  rw [table_full hfew hwhole hfull] at hsort ⊢
  have hlength := (hsort.perm hle).length_eq
  rcases List.eq_nil_or_concat' (Bubble.sort f.gt (contentLines content)) with hnil | ⟨zs, x, hzs⟩
  · rw [hnil] at hsort hlength ⊢
    refine ⟨⟨fun _ => ?_, fun _ => hlength⟩, fun _ => hsort⟩
    rintro ⟨as, bs, heq, -⟩
    rw [heq] at hlength
    simp at hlength
  · rw [hzs] at hsort hlength ⊢
    rw [printLoop_append, hsort.lastGreatest_iff hle]
    rw [List.length_append, List.length_singleton] at hlength
    split_ifs with hx
    · exact ⟨⟨fun h => by omega, fun h => absurd hx.symm h⟩, fun h => absurd hx.symm h⟩
    · rw [List.length_append, List.length_singleton]
      exact ⟨⟨fun _ h => hx h.symm, fun _ => hlength⟩, fun _ => hsort⟩

/-- Otherwise the table holds an empty line more, which must be the one that is left out. -/
theorem sortLines_free (hfree : ¬ Full content) :
    ((sortLines f content).length = (contentLines content).length ↔ ∀ line ∈ contentLines content, f.Below line []) ∧
      ((∀ line ∈ contentLines content, f.Below line []) → Bubble.SortOf f.Below (contentLines content) (sortLines f content)) := by
  have hle := below_preorder f
  have hsort := Bubble.sort_spec hle gt_iff (splitLoop 512 [] content)
  unfold sortLines
  rw [table_free hfew hwhole hfree] at hsort ⊢
  have hlength := (hsort.perm hle).length_eq
  rw [List.length_append, List.length_singleton] at hlength
  rcases List.eq_nil_or_concat' (Bubble.sort f.gt (contentLines content ++ [[]])) with hnil | ⟨zs, x, hzs⟩
  · rw [hnil] at hlength
    simp at hlength
  · rw [hzs] at hsort hlength ⊢
    rw [List.length_append, List.length_singleton] at hlength
    have hlast : (∀ line ∈ contentLines content, f.Below line []) ↔ x = [] := by
      constructor
      · intro hall
        exact ((hsort.lastGreatest_iff hle).1 ⟨_, [], rfl, hall, fun b hb => absurd hb List.not_mem_nil⟩).symm
      · rintro rfl line hline
        exact hsort.le_last hle (List.mem_append_left _ hline)
    rw [printLoop_append, hlast]
    split_ifs with hx
    · subst hx
      exact ⟨⟨fun _ => rfl, fun _ => by omega⟩, fun _ => hsort.of_append⟩
    · rw [List.length_append, List.length_singleton]
      exact ⟨⟨fun h => by omega, fun h => absurd h hx⟩, fun h => absurd h hx⟩

end

theorem sortLines_iff (hfits : f.numeric = true → ∀ line ∈ contentLines content, Fits line) :
    Sorts f (contentLines content) (sortLines f content) ↔ Sortable f content := by
  constructor
  · intro h
    have hlength := h.perm.length_eq
    have hfew : (contentLines content).length ≤ 512 := hlength ▸ length_sortLines_le
    have hwhole : ∀ line ∈ contentLines content, (0 : UInt8) ∉ line := fun line hline => printed_mem (h.perm.mem_iff.2 hline)
    by_cases hfull : Full content
    · obtain ⟨hlengths, hsort⟩ := sortLines_full (f := f) hfew hwhole hfull
      have hlast := hlengths.1 hlength
      exact ⟨hfew, hwhole, (sorts_iff hfits (hsort hlast)).1 h, fun _ => hlast, fun hfree => absurd hfull hfree⟩
    · obtain ⟨hlengths, hsort⟩ := sortLines_free (f := f) hfew hwhole hfull
      have hlast := hlengths.1 hlength
      exact ⟨hfew, hwhole, (sorts_iff hfits (hsort hlast)).1 h, fun h => absurd h hfull, fun _ => hlast⟩
  · intro h
    by_cases hfull : Full content
    · exact (sorts_iff hfits ((sortLines_full h.few h.whole hfull).2 (h.ofFull hfull))).2 h.agree
    · exact (sorts_iff hfits ((sortLines_free h.few h.whole hfull).2 (h.ofFree hfull))).2 h.agree

/-! ### The command -/

/-- The arguments ask for these flags and this path; an empty path stands for the pipe. -/
def Takes (args : Text) (f : Flags) (path : Text) : Prop :=
  (readFlags .start ⟨false, false⟩ args).1 = f ∧ ∃ rest, readToken (readFlags .start ⟨false, false⟩ args).2 128 = some (path, rest)

/-- The command prints a sorted permutation of the lines. -/
def SortRight (f : Flags) (src : Source) (args content : Text) : Prop :=
  ∃ out, cmdSort src args = some out ∧ Sorts f (contentLines content) out

variable {src : Source} {args path : Text}

theorem cmdSort_eq (hargs : Takes args f path) (hread : readFileOrPipe src path readMax = some content) :
    cmdSort src args = some (sortLines f content) := by
  obtain ⟨hflags, rest, hpath⟩ := hargs
  unfold cmdSort
  rw [hpath]
  dsimp only
  rw [hread, hflags]

/-- The command is right exactly for the contents that are sortable in the mode. -/
theorem sort_iff (hargs : Takes args f path) (hread : readFileOrPipe src path readMax = some content)
    (hfits : f.numeric = true → ∀ line ∈ contentLines content, Fits line) : SortRight f src args content ↔ Sortable f content := by
  have hrun := cmdSort_eq hargs hread
  rw [← sortLines_iff hfits]
  constructor
  · rintro ⟨out, hout, hsorts⟩
    rw [hrun] at hout
    rwa [Option.some.inj hout]
  · exact fun h => ⟨_, hrun, h⟩

theorem takes_r_f : Takes (chars "-r f") ⟨true, false⟩ (chars "f") := by
  refine ⟨?_, [], ?_⟩ <;> decide +kernel

/-- In reverse order the empty piece is the last one. -/
theorem sort_right_reverse : SortRight ⟨true, false⟩ (sameFile [97, 10, 98, 10]) (chars "-r f") [97, 10, 98, 10] := by
  have hlines : contentLines [97, 10, 98, 10] = [[97], [98]] := by decide
  have hread : readFileOrPipe (sameFile [97, 10, 98, 10]) (chars "f") readMax = some [97, 10, 98, 10] := by decide +kernel
  refine (sort_iff takes_r_f hread fun h => absurd h Bool.false_ne_true).2 ⟨?_, ?_, ?_, ?_, ?_⟩
  · rw [hlines]
    decide
  · rw [hlines]
    exact List.forall_mem_cons.2 ⟨by decide, List.forall_mem_singleton.2 (by decide)⟩
  · intro _
    rw [hlines]
    refine List.forall_mem_cons.2 ⟨?_, List.forall_mem_singleton.2 ?_⟩
    · exact List.forall_mem_cons.2 ⟨by decide, List.forall_mem_singleton.2 (by decide)⟩
    · exact List.forall_mem_cons.2 ⟨by decide, List.forall_mem_singleton.2 (by decide)⟩
  · intro hfull
    have hnot : ¬ Full [97, 10, 98, 10] := by
      unfold Full Unended
      decide
    exact absurd hfull hnot
  · intro _
    rw [hlines]
    exact List.forall_mem_cons.2 ⟨by decide, List.forall_mem_singleton.2 (by decide)⟩

theorem takes_f : Takes (chars "f") ⟨false, false⟩ (chars "f") := by
  refine ⟨?_, [], ?_⟩ <;> decide +kernel

/-- A file with a line and its newline is enough: an empty line comes first. -/
theorem not_sortRight : ¬ ∀ (f : Flags) (src : Source) (args path content : Text), Takes args f path →
    readFileOrPipe src path readMax = some content → content.length ≤ readMax →
    (f.numeric = true → ∀ line ∈ contentLines content, Fits line) → SortRight f src args content := by
  intro hall
  have hread : readFileOrPipe (sameFile [97, 10]) (chars "f") readMax = some [97, 10] := by decide +kernel
  obtain ⟨out, hout, hsorts⟩ := hall ⟨false, false⟩ (sameFile [97, 10]) (chars "f") (chars "f") [97, 10] takes_f hread (by decide)
    fun h => absurd h Bool.false_ne_true
  rw [cmdSort_eq takes_f hread] at hout
  have hlength := hsorts.perm.length_eq
  rw [← Option.some.inj hout] at hlength
  exact absurd hlength (by decide)

end Sorting

end Tg11Kernel.Shell
