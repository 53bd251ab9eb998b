import Tg11Kernel.Fat32.Directory
import Tg11Kernel.Lib.Padding

/-! The two forms of a name. A string is folded into eight and three bytes that are padded
with blanks; a directory entry is shown without the blanks at the ends. The first byte of an
entry is its state as well, and blanks that the string itself has at an end are lost. -/

namespace Tg11Kernel.Fat32

open Lib

/-! ### Folding -/

theorem upcase_upcase (c : UInt8) : upcase (upcase c) = upcase c := by
  unfold upcase
  by_cases h : 97 ≤ c ∧ c ≤ 122
  · rw [if_pos h, if_neg]
    rw [UInt8.le_iff_toNat_le, UInt8.le_iff_toNat_le] at h ⊢
    have h97 : (97 : UInt8).toNat = 97 := rfl
    have h122 : (122 : UInt8).toNat = 122 := rfl
    have h32 : (32 : UInt8).toNat = 32 := rfl
    rw [UInt8.toNat_sub_of_le _ _ (UInt8.le_iff_toNat_le.2 (by omega))]
    omega
  · rw [if_neg h, if_neg h]

variable {c : UInt8} {n m : Path} {base ext b x base' ext' : List UInt8} {name83 : Name83} {e : Entry} {i : ℕ}

/-- Folding reaches no byte outside the letters. -/
theorem upcase_eq_iff {d : UInt8} (hd : d < 65 ∨ 122 < d) : upcase c = d ↔ c = d := by
  unfold upcase
  rw [UInt8.lt_iff_toNat_lt, UInt8.lt_iff_toNat_lt] at hd
  have h65 : (65 : UInt8).toNat = 65 := rfl
  have h97 : (97 : UInt8).toNat = 97 := rfl
  have h122 : (122 : UInt8).toNat = 122 := rfl
  have h32 : (32 : UInt8).toNat = 32 := rfl
  split_ifs with h
  · rw [UInt8.le_iff_toNat_le, UInt8.le_iff_toNat_le] at h
    rw [← UInt8.toNat_inj, ← UInt8.toNat_inj, UInt8.toNat_sub_of_le _ _ (UInt8.le_iff_toNat_le.2 (by omega))]
    omega
  · rfl

/-- A byte that may stand in the base or the extension. -/
def Letter (c : UInt8) : Prop := c ≠ 46 ∧ c ≠ 47 ∧ c ≠ 92

/-- The string is accepted, with this base and this extension. -/
structure Spells (n : Path) (base ext : List UInt8) : Prop where
  letters : ∀ c ∈ base ++ ext, Letter c
  baseLength : base.length ≤ 8
  extLength : ext.length ≤ 3
  spelling : n.map upcase = base ∧ ext = [] ∨ n.map upcase = base ++ 46 :: ext

theorem nameTo83Loop_ext (hext : ext.length ≤ 3) :
    nameTo83Loop n true base ext = some (b, x) ↔
      (∀ c ∈ n.map upcase, Letter c) ∧ b = base ∧ x = ext ++ n.map upcase ∧ x.length ≤ 3 := by
  induction n generalizing ext with
  | nil =>
    simp only [nameTo83Loop, Option.some.injEq, Prod.mk.injEq, List.map_nil, List.append_nil]
    constructor
    · rintro ⟨rfl, rfl⟩
      simp [hext]
    · rintro ⟨-, rfl, rfl, -⟩
      exact ⟨rfl, rfl⟩
  | cons ch n ih =>
    simp only [nameTo83Loop, List.map_cons, List.forall_mem_cons]
    generalize upcase ch = c
    by_cases hslash : c = 47 ∨ c = 92
    · simp only [if_pos hslash]
      refine ⟨nofun, fun h => ?_⟩
      rcases hslash with rfl | rfl
      · exact absurd rfl h.1.1.2.1
      · exact absurd rfl h.1.1.2.2
    · by_cases hdot : c = 46
      · simp only [if_neg hslash, if_pos hdot, if_true]
        exact ⟨nofun, fun h => absurd hdot h.1.1.1⟩
      · have hletter : Letter c := ⟨hdot, fun h => hslash (.inl h), fun h => hslash (.inr h)⟩
        simp only [if_neg hslash, if_neg hdot]
        by_cases hlen : ext.length ≥ 3
        · simp only [Bool.true_eq_false, if_false, if_pos hlen]
          refine ⟨nofun, fun h => ?_⟩
          have hx := h.2.2.2
          rw [h.2.2.1, List.length_append, List.length_cons] at hx
          omega
        · simp only [Bool.true_eq_false, if_false, if_neg hlen]
          rw [ih (by simp; omega)]
          simp [hletter]

theorem nameTo83Loop_before_dot (hbase : base.length ≤ 8) :
    nameTo83Loop n false base [] = some (b, x) ↔ ∃ s, b = base ++ s ∧ (∀ c ∈ s ++ x, Letter c) ∧ b.length ≤ 8 ∧ x.length ≤ 3 ∧
      (n.map upcase = s ∧ x = [] ∨ n.map upcase = s ++ 46 :: x) := by
  induction n generalizing base with
  | nil =>
    simp only [nameTo83Loop, Option.some.injEq, Prod.mk.injEq, List.map_nil]
    constructor
    · rintro ⟨rfl, rfl⟩
      exact ⟨[], by simp, by simp, hbase, by simp, .inl ⟨rfl, rfl⟩⟩
    · rintro ⟨s, rfl, -, -, -, ⟨rfl, rfl⟩ | h⟩
      · simp
      · simp at h
  | cons ch n ih =>
    simp only [nameTo83Loop, List.map_cons]
    generalize upcase ch = c
    by_cases hslash : c = 47 ∨ c = 92
    · simp only [if_pos hslash]
      refine ⟨nofun, ?_⟩
      rintro ⟨s, -, hs, -, -, ⟨hn, -⟩ | hn⟩
      · have hc := hs c (by simp [← hn])
        rcases hslash with rfl | rfl
        · exact absurd rfl hc.2.1
        · exact absurd rfl hc.2.2
      · cases s with
        | nil =>
          obtain ⟨rfl, -⟩ := List.cons.inj hn
          simp at hslash
        | cons d s =>
          obtain ⟨rfl, -⟩ := List.cons.inj hn
          have hc := hs c (by simp)
          rcases hslash with rfl | rfl
          · exact absurd rfl hc.2.1
          · exact absurd rfl hc.2.2
    · by_cases hdot : c = 46
      · simp only [if_neg hslash, if_pos hdot, Bool.false_eq_true, if_false]
        rw [nameTo83Loop_ext (by simp)]
        constructor
        · rintro ⟨hl, rfl, rfl, hlen⟩
          exact ⟨[], by simp, by simpa using hl, hbase, hlen, .inr (by simp [hdot])⟩
        · rintro ⟨s, rfl, hs, hlen, hx, ⟨hn, -⟩ | hn⟩
          · exact absurd hdot (hs c (by simp [← hn])).1
          · cases s with
            | nil =>
              obtain ⟨-, rfl⟩ := List.cons.inj hn
              exact ⟨by simpa using hs, by simp, by simp, hx⟩
            | cons d s =>
              obtain ⟨rfl, -⟩ := List.cons.inj hn
              exact absurd hdot (hs c (by simp)).1
      · have hletter : Letter c := ⟨hdot, fun h => hslash (.inl h), fun h => hslash (.inr h)⟩
        simp only [if_neg hslash, if_neg hdot, if_true]
        by_cases hlen : base.length ≥ 8
        · simp only [if_pos hlen]
          refine ⟨nofun, ?_⟩
          rintro ⟨s, rfl, -, hb, -, hn⟩
          rw [List.length_append] at hb
          obtain rfl : s = [] := List.eq_nil_of_length_eq_zero (by omega)
          simp [hdot] at hn
        · simp only [if_neg hlen]
          rw [ih (by simp; omega)]
          constructor
          · rintro ⟨s, rfl, hs, hb, hx, hn⟩
            refine ⟨c :: s, by simp, ?_, hb, hx, ?_⟩
            · simpa [hletter] using hs
            · simpa using hn
          · rintro ⟨s, rfl, hs, hb, hx, hn⟩
            cases s with
            | nil => simp [hdot] at hn
            | cons d s =>
              obtain rfl : c = d := by
                rcases hn with ⟨hn, -⟩ | hn <;> exact (List.cons.inj hn).1
              exact ⟨s, by simp, fun a ha => hs a (by simp at ha ⊢; tauto), by simpa using hb, hx, by simpa using hn⟩

theorem nameTo83Loop_iff : nameTo83Loop n false [] [] = some (base, ext) ↔ Spells n base ext := by
  rw [nameTo83Loop_before_dot (by simp)]
  constructor
  · rintro ⟨s, rfl, hs, hb, hx, hn⟩
    exact ⟨hs, hb, hx, hn⟩
  · rintro ⟨hs, hb, hx, hn⟩
    exact ⟨base, rfl, hs, hb, hx, hn⟩

theorem nameTo83_iff : nameTo83 n = some name83 ↔
    ∃ base ext, Spells n base ext ∧ base ≠ [] ∧ name83 = name83Of base ext := by
  unfold nameTo83
  rcases h : nameTo83Loop n false [] [] with _ | ⟨base, ext⟩
  · refine ⟨nofun, ?_⟩
    rintro ⟨base, ext, hs, -⟩
    rw [nameTo83Loop_iff.2 hs] at h
    cases h
  · have hs := nameTo83Loop_iff.1 h
    have huniq {b x : List UInt8} (hb : Spells n b x) : b = base ∧ x = ext := by
      have heq := nameTo83Loop_iff.2 hb
      rw [h] at heq
      simpa [eq_comm] using heq
    dsimp only
    by_cases hbase : base = []
    · rw [if_pos (by simp [hbase])]
      refine ⟨nofun, ?_⟩
      rintro ⟨b, x, hb, hne, -⟩
      exact absurd ((huniq hb).1.trans hbase) hne
    · rw [if_neg (by simpa using hbase), Option.some.injEq]
      constructor
      · rintro rfl
        exact ⟨base, ext, hs, hbase, rfl⟩
      · rintro ⟨b, x, hb, -, rfl⟩
        rw [(huniq hb).1, (huniq hb).2]

theorem Spells.unique (h : Spells n base ext) (h' : Spells n base' ext') :
    base' = base ∧ ext' = ext := by
  have heq := nameTo83Loop_iff.2 h'
  rw [nameTo83Loop_iff.2 h] at heq
  simpa [eq_comm] using heq

/-- The letters of an accepted string are folded. -/
theorem Spells.mem (h : Spells n base ext) (hc : c ∈ base ++ ext) : c ∈ n.map upcase := by
  rcases h.spelling with ⟨hn, rfl⟩ | hn
  · simpa [hn] using hc
  · rw [hn]
    rcases List.mem_append.1 hc with hc | hc <;> simp [hc]

theorem Spells.folded (h : Spells n base ext) (hc : c ∈ base ++ ext) : upcase c = c := by
  obtain ⟨d, -, rfl⟩ := List.mem_map.1 (h.mem hc)
  exact upcase_upcase d

/-! ### The string of an entry -/

theorem trimmed_eq (e : Entry) (i n : ℕ) : trimmed e i n = trim 32 ((List.range n).map fun j => e.get (i + j)) := rfl

theorem get_name (h : e.name = name83) (hi : i < 11) : e.get i = name83.get i := by
  rw [← h, Entry.name, Block.get_slice _ _ hi, Nat.zero_add]

theorem get_base (base ext : List UInt8) (hi : i < 8) : (name83Of base ext).get i = base.getD i 32 := by
  unfold name83Of
  rw [Block.get_mk (by omega)]
  exact if_pos hi

theorem get_ext (base ext : List UInt8) (hi : i < 3) : (name83Of base ext).get (8 + i) = ext.getD i 32 := by
  unfold name83Of
  rw [Block.get_mk (by omega), if_neg (by simp), Nat.add_sub_cancel_left]

/-- The base and the extension of an entry are those of the string, without blanks at the ends. -/
theorem fat83ToName_eq (hs : Spells n base ext) (hn : ∀ c ∈ n, c ≠ 0)
    (he : e.name = name83Of base ext) :
    fat83ToName e = if trim 32 ext = [] then trim 32 base else trim 32 base ++ 46 :: trim 32 ext := by
  have hbase : trimmed e 0 8 = trim 32 base := by
    rw [trimmed_eq, ← trim_field hs.baseLength]
    congr 1
    apply List.map_congr_left
    intro i hi
    rw [List.mem_range] at hi
    rw [Nat.zero_add, get_name he (by omega), get_base _ _ hi]
  have hext : trimmed e 8 3 = trim 32 ext := by
    rw [trimmed_eq, ← trim_field hs.extLength]
    congr 1
    apply List.map_congr_left
    intro i hi
    rw [List.mem_range] at hi
    rw [get_name he (by omega), get_ext _ _ hi]
  have hzero : ∀ c ∈ base ++ ext, c ≠ 0 := by
    rintro c hc rfl
    obtain ⟨d, hd, hzero⟩ := List.mem_map.1 (hs.mem hc)
    exact hn d hd ((upcase_eq_iff (.inl (by decide))).1 hzero)
  unfold fat83ToName
  rw [hbase, hext]
  have hb : ∀ c ∈ trim 32 base, c ≠ 0 := fun c hc => hzero c (List.mem_append_left _ (mem_of_mem_trim hc))
  have hx : ∀ c ∈ trim 32 ext, c ≠ 0 := fun c hc => hzero c (List.mem_append_right _ (mem_of_mem_trim hc))
  by_cases hnil : trim 32 ext = []
  · simp only [hnil, List.length_nil, gt_iff_lt, lt_self_iff_false, if_false, if_true]
    rw [List.takeWhile_eq_self_iff]
    simpa using hb
  · have hpos : (trim 32 ext).length > 0 := List.length_pos_iff.2 hnil
    dsimp only
    rw [if_pos hpos, if_neg hnil, List.append_assoc, List.singleton_append, List.takeWhile_eq_self_iff]
    intro c hc
    rcases List.mem_append.1 hc with hc | hc
    · simpa using hb c hc
    · rcases List.mem_cons.1 hc with rfl | hc
      · rfl
      · simpa using hx c hc

theorem name83Of_trim (base ext : List UInt8) : name83Of (trim 32 base) (trim 32 ext) = name83Of base ext := by
  funext i
  simp only [name83Of, getD_trim]

theorem Spells.trimmed (h : Spells n base ext) :
    Spells (if trim 32 ext = [] then trim 32 base else trim 32 base ++ 46 :: trim 32 ext) (trim 32 base) (trim 32 ext) where
  letters c hc := by
    apply h.letters
    rcases List.mem_append.1 hc with hc | hc
    · exact List.mem_append_left _ (mem_of_mem_trim hc)
    · exact List.mem_append_right _ (mem_of_mem_trim hc)
  baseLength := length_trim_le.trans h.baseLength
  extLength := length_trim_le.trans h.extLength
  spelling := by
    have hb : (trim 32 base).map upcase = trim 32 base := by
      rw [List.map_congr_left fun c hc => h.folded (List.mem_append_left _ (mem_of_mem_trim hc)), List.map_id']
    have hx : (trim 32 ext).map upcase = trim 32 ext := by
      rw [List.map_congr_left fun c hc => h.folded (List.mem_append_right _ (mem_of_mem_trim hc)), List.map_id']
    split_ifs with hnil
    · exact .inl ⟨hb, hnil⟩
    · refine .inr ?_
      rw [List.map_append, List.map_cons, hb, hx]
      rfl

/-- A name without a base is refused. -/
theorem nameTo83_trimmed (h : Spells n base ext) :
    nameTo83 (if trim 32 ext = [] then trim 32 base else trim 32 base ++ 46 :: trim 32 ext) = some (name83Of base ext) ↔
      trim 32 base ≠ [] := by
  rw [nameTo83_iff]
  constructor
  · rintro ⟨b, x, hs, hne, -⟩
    rwa [(h.trimmed.unique hs).1] at hne
  · exact fun hne => ⟨_, _, h.trimmed, hne, (name83Of_trim base ext).symm⟩

/-! ### Strings up to case -/

/-- Without the dot of an empty extension. -/
def undot (n : Path) : Path := if n.getLast? = some 46 then n.dropLast else n

/-- Equal up to letter case and the dot of an empty extension. -/
def SameName (n m : Path) : Prop := undot (n.map upcase) = undot (m.map upcase)

theorem Spells.undot_eq (h : Spells n base ext) :
    undot (n.map upcase) = if ext = [] then base else base ++ 46 :: ext := by
  have hlast {l : List UInt8} (hl : ∀ c ∈ l, Letter c) : l.getLast? ≠ some 46 := fun heq =>
    (hl 46 (List.mem_of_getLast? heq)).1 rfl
  have hbase : ∀ c ∈ base, Letter c := fun c hc => h.letters c (List.mem_append_left _ hc)
  have hext : ∀ c ∈ ext, Letter c := fun c hc => h.letters c (List.mem_append_right _ hc)
  unfold undot
  rcases h.spelling with ⟨hn, rfl⟩ | hn
  · rw [hn, if_neg (hlast hbase), if_pos rfl]
  · rw [hn]
    by_cases hnil : ext = []
    · subst hnil
      simp
    · rw [if_neg hnil, if_neg]
      rw [List.getLast?_append, List.getLast?_cons_of_ne_nil hnil]
      cases hl : ext.getLast? with
      | none => exact absurd (List.getLast?_eq_none_iff.1 hl) hnil
      | some c =>
        intro heq
        exact hlast hext (hl.trans (by simpa using heq))

theorem sameName_iff (h : Spells n base ext) (h' : Spells m base' ext') :
    SameName n m ↔ base = base' ∧ ext = ext' := by
  have hdot {b x : List UInt8} {n : Path} (hs : Spells n b x) : (46 : UInt8) ∉ b := fun hc =>
    (hs.letters 46 (List.mem_append_left _ hc)).1 rfl
  have htake {b x : List UInt8} {n : Path} (hs : Spells n b x) :
      (if x = [] then b else b ++ 46 :: x).takeWhile (· ≠ 46) = b := by
    have hall : ∀ c ∈ b, decide (c ≠ 46) = true := fun c hc => by
      simpa using fun heq : c = 46 => hdot hs (heq ▸ hc)
    split_ifs
    · exact List.takeWhile_eq_self_iff.2 hall
    · rw [List.takeWhile_append_of_pos hall]
      simp
  unfold SameName
  rw [h.undot_eq, h'.undot_eq]
  constructor
  · intro heq
    have hb : base = base' := by rw [← htake h, heq, htake h']
    subst hb
    refine ⟨rfl, ?_⟩
    split_ifs at heq with hx hx'
    · rw [hx, hx']
    · simp at heq
    · simp at heq
    · simpa using heq
  · rintro ⟨rfl, rfl⟩
    rfl

/-! ### The laws of names -/

/-- Eleven blanks. -/
def blank83 : Name83 := fun _ => 32

/-- A scan takes the entry for a live ordinary one. -/
structure SeenLive (e : Entry) : Prop where
  inUse : e.first ≠ 0x00
  notDeleted : e.first ≠ 0xE5
  notDot : ¬ e.nameIsDotOrDotdot
  notBlank : e.name ≠ blank83

/-- What is expected of two strings that are accepted. -/
structure NamesLaw (n m : Path) (name name' : Name83) : Prop where
  live : ∀ e : Entry, e.name = name → SeenLive e
  roundTrip : ∀ e : Entry, e.name = name → nameTo83 (fat83ToName e) = some name
  same : name = name' ↔ SameName n m

/-- The bytes before and behind the first dot. -/
def basePart (n : Path) : Path := n.takeWhile (· ≠ 46)

def extPart (n : Path) : Path := (n.dropWhile (· ≠ 46)).drop 1

/-- The string does not begin as a deleted entry does, something stands in its base, and two
strings of the same bytes have as many blanks at the ends of base and extension. -/
structure NamesFit (n m : Path) : Prop where
  first : n.head? ≠ some 0xE5
  base : ∃ c ∈ basePart n, c ≠ 32
  blanks : nameTo83 n = nameTo83 m →
    pads 32 (basePart n) = pads 32 (basePart m) ∧ pads 32 (extPart n) = pads 32 (extPart m)

theorem Spells.parts (h : Spells n base ext) :
    (basePart n).map upcase = base ∧ (extPart n).map upcase = ext := by
  have hdot (c : UInt8) : upcase c ≠ 46 ↔ c ≠ 46 := not_congr (upcase_eq_iff (.inl (by decide)))
  have hbase : (basePart n).map upcase = (n.map upcase).takeWhile (· ≠ 46) := by
    unfold basePart
    rw [List.takeWhile_map]
    simp only [Function.comp_def, hdot]
  have hext : (extPart n).map upcase = ((n.map upcase).dropWhile (· ≠ 46)).drop 1 := by
    unfold extPart
    rw [List.dropWhile_map, List.map_drop]
    simp only [Function.comp_def, hdot]
  have hall : ∀ c ∈ base, decide (c ≠ 46) = true := fun c hc => by
    simpa using (h.letters c (List.mem_append_left _ hc)).1
  rw [hbase, hext]
  rcases h.spelling with ⟨hn, rfl⟩ | hn
  · rw [hn, List.takeWhile_eq_self_iff.2 hall, List.dropWhile_eq_nil_iff.2 hall]
    simp
  · rw [hn, List.takeWhile_append_of_pos hall, List.dropWhile_append_of_pos hall]
    simp

theorem pads_map_upcase (l : List UInt8) : pads 32 (l.map upcase) = pads 32 l := by
  unfold pads List.rtakeWhile
  rw [← List.map_reverse, List.takeWhile_map, List.length_reverse, List.length_map, List.length_reverse]
  congr 2
  funext c
  simp [upcase_eq_iff (c := c) (d := 32) (.inl (by decide))]

theorem trim_base_ne_nil (h : Spells n base ext) : trim 32 base ≠ [] ↔ ∃ c ∈ basePart n, c ≠ 32 := by
  rw [Ne, trim_eq_nil_iff, ← h.parts.1]
  simp [upcase_eq_iff (d := 32) (.inl (by decide))]

/-- Two strings have the same bytes if their parts agree up to blanks at the ends. -/
theorem name83Of_eq_iff (h : Spells n base ext) (h' : Spells m base' ext') :
    name83Of base ext = name83Of base' ext' ↔ trim 32 base = trim 32 base' ∧ trim 32 ext = trim 32 ext' := by
  constructor
  · intro heq
    rw [trim_eq_iff h.baseLength h'.baseLength, trim_eq_iff h.extLength h'.extLength]
    constructor
    · intro i hi
      rw [← get_base base ext hi, heq, get_base _ _ hi]
    · intro i hi
      rw [← get_ext base ext hi, heq, get_ext _ _ hi]
  · rintro ⟨hb, hx⟩
    rw [← name83Of_trim base, hb, hx, name83Of_trim]

theorem first_name83 (h : Spells n base ext) (hne : base ≠ []) :
    ∃ c n', n = c :: n' ∧ (name83Of base ext).get 0 = upcase c ∧ Letter (upcase c) := by
  obtain ⟨d, base, rfl⟩ := List.exists_cons_of_ne_nil hne
  cases n with
  | nil => rcases h.spelling with ⟨hn, -⟩ | hn <;> simp at hn
  | cons c n =>
    have hd : upcase c = d := by rcases h.spelling with ⟨hn, -⟩ | hn <;> exact (List.cons.inj hn).1
    refine ⟨c, n, rfl, ?_, ?_⟩
    · rw [get_base _ _ (by decide), hd]
      rfl
    · rw [hd]
      exact h.letters d (by simp)

/-- The laws hold of two accepted strings exactly under these conditions. -/
theorem namesLaw_iff {n m : Path} {name name' : Name83} (hn : ∀ c ∈ n, c ≠ 0) (h : nameTo83 n = some name) (h' : nameTo83 m = some name') :
    NamesLaw n m name name' ↔ NamesFit n m := by
  obtain ⟨base, ext, hs, hne, rfl⟩ := nameTo83_iff.1 h
  obtain ⟨base', ext', hs', -, rfl⟩ := nameTo83_iff.1 h'
  obtain ⟨c, n', rfl, hfirst, hletter⟩ := first_name83 hs hne
  -- an entry of the name, to read what the laws say of all
  have hmake : (Entry.make (name83Of base ext) 0).name = name83Of base ext := by
    funext i
    have hi := i.isLt
    unfold Entry.name Entry.make Block.slice
    rw [Block.get_mk (by omega), if_pos (by simpa using hi)]
    simp [Block.get_of_lt]
  have htrip {e : Entry} (he : e.name = name83Of base ext) : nameTo83 (fat83ToName e) = some (name83Of base ext) ↔ trim 32 base ≠ [] := by
    rw [fat83ToName_eq hs hn he]
    exact nameTo83_trimmed hs
  have hE5 : upcase c = 0xE5 ↔ c = 0xE5 := upcase_eq_iff (.inr (by decide))
  constructor
  · rintro ⟨hlive, hround, hsame⟩
    refine ⟨?_, (trim_base_ne_nil hs).1 ((htrip hmake).1 (hround _ hmake)), ?_⟩
    · intro hhead
      obtain rfl : c = 0xE5 := by simpa using hhead
      apply (hlive _ hmake).notDeleted
      unfold Entry.first
      rw [get_name hmake (by decide), hfirst]
      rfl
    · intro heq
      rw [h, h', Option.some.injEq] at heq
      obtain ⟨hb, hx⟩ := (sameName_iff hs hs').1 (hsame.1 heq)
      rw [← pads_map_upcase, ← pads_map_upcase (basePart m), ← pads_map_upcase (extPart _), ← pads_map_upcase (extPart m),
        hs.parts.1, hs.parts.2, hs'.parts.1, hs'.parts.2, hb, hx]
      exact ⟨rfl, rfl⟩
  · rintro ⟨hhead, hbase, hblanks⟩
    have hnil := (trim_base_ne_nil hs).2 hbase
    refine ⟨fun e he => ?_, fun e he => (htrip he).2 hnil, ?_⟩
    · have hget : e.get 0 = upcase c := by rw [get_name he (by decide), hfirst]
      have h46 : ¬ e.get 0 = 46 := by
        rw [hget]
        exact hletter.1
      refine ⟨?_, ?_, ?_, ?_⟩
      · unfold Entry.first
        rw [hget, Ne, upcase_eq_iff (.inl (by decide))]
        exact hn c List.mem_cons_self
      · unfold Entry.first
        rw [hget, Ne, hE5]
        simpa using hhead
      · unfold Entry.nameIsDotOrDotdot
        simp [h46]
      · rw [he]
        intro hblank
        apply hnil
        rw [trim_eq_nil_iff]
        intro a ha
        obtain ⟨i, hi, rfl⟩ := List.getElem_of_mem ha
        have hi8 := hi.trans_le hs.baseLength
        have hget := get_base base ext hi8
        rw [hblank, List.getD_eq_getElem _ _ hi] at hget
        rw [← hget]
        unfold blank83
        rw [Block.get_mk (by omega)]
    · rw [sameName_iff hs hs', name83Of_eq_iff hs hs']
      constructor
      · intro htrim
        have heq : nameTo83 (c :: n') = nameTo83 m := by rw [h, h', (name83Of_eq_iff hs hs').2 htrim]
        obtain ⟨hpb, hpx⟩ := hblanks heq
        rw [← pads_map_upcase, ← pads_map_upcase (basePart m), hs.parts.1, hs'.parts.1] at hpb
        rw [← pads_map_upcase, ← pads_map_upcase (extPart m), hs.parts.2, hs'.parts.2] at hpx
        exact ⟨eq_of_trim htrim.1 hpb, eq_of_trim htrim.2 hpx⟩
      · rintro ⟨rfl, rfl⟩
        exact ⟨rfl, rfl⟩

/-- `a.b` and `A.b` -/
theorem namesLaw_example : ∃ name name', nameTo83 [97, 46, 98] = some name ∧ nameTo83 [65, 46, 98] = some name' ∧
    (NamesLaw [97, 46, 98] [65, 46, 98] name name' ↔ NamesFit [97, 46, 98] [65, 46, 98]) :=
  ⟨_, _, rfl, rfl, namesLaw_iff (by simp) rfl rfl⟩

/-- The byte 0xE5 begins a name that every scan takes for a deleted entry. -/
theorem not_namesLaw : ¬ ∀ (n m : Path) (name name' : Name83), (∀ c ∈ n, c ≠ 0) → (∀ c ∈ m, c ≠ 0) → nameTo83 n = some name →
    nameTo83 m = some name' → NamesLaw n m name name' := by
  intro h
  have hlaw := h [0xE5] [0xE5] _ _ (by simp) (by simp) rfl rfl
  exact ((namesLaw_iff (by simp) rfl rfl).1 hlaw).first rfl

end Tg11Kernel.Fat32
