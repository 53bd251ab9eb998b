import Mathlib.Data.Finset.Card
import Mathlib.Data.Finset.Dedup
import Mathlib.Data.List.Basic

/-! Tables with a fixed number of slots. A key that the table has gets the new value, another
one a free slot, and the first slot when none is free. The table has each key once, and the
value of a key that it has is the last one that was put. A key is forgotten only in the first
slot, by more new keys than there are free slots. -/

namespace Tg11Kernel.Lib.Assoc

variable {κ ν : Type} [DecidableEq κ]

abbrev Table (κ ν : Type) := List (Option (κ × ν))

def holds (k : κ) (e : Option (κ × ν)) : Bool := e.any fun p => decide (p.1 = k)

/-- Where a key is put. -/
def slot (t : Table κ ν) (k : κ) : ℕ :=
  match t.findIdx? (holds k) with
  | some i => i
  | none => (t.findIdx? Option.isNone).getD 0

def put (t : Table κ ν) (k : κ) (v : ν) : Table κ ν := t.set (slot t k) (some (k, v))

def find (t : Table κ ν) (k : κ) : Option ν := t.findSome? fun e => e.bind fun p => if p.1 = k then some p.2 else none

def puts (t : Table κ ν) (l : List (κ × ν)) : Table κ ν := l.foldl (fun t p => put t p.1 p.2) t

/-- The value that was put last for a key. -/
def last (k : κ) (l : List (κ × ν)) : Option ν := (l.reverse.find? fun p => decide (p.1 = k)).map (·.2)

/-- Each key has one slot. -/
def Unique (t : Table κ ν) : Prop :=
  ∀ (i j : ℕ) (k : κ) (v w : ν), t[i]? = some (some (k, v)) → t[j]? = some (some (k, w)) → i = j

/-- The keys of a list that the table does not have. -/
def newKeys (t : Table κ ν) (l : List (κ × ν)) : Finset κ := (l.map Prod.fst).toFinset.filter fun k => find t k = none

section Basics

variable {t : Table κ ν} {k k' : κ} {v v' : ν} {i : ℕ} {l l' : List (κ × ν)} {p : κ × ν}

@[simp] theorem holds_none : holds k (none : Option (κ × ν)) = false := rfl

@[simp] theorem holds_some : holds k (some p) = decide (p.1 = k) := rfl

@[simp] theorem puts_nil : puts t [] = t := rfl

@[simp] theorem puts_cons : puts t (p :: l) = puts (put t p.1 p.2) l := rfl

@[simp] theorem puts_append : puts t (l ++ l') = puts (puts t l) l' := List.foldl_append

@[simp] theorem length_put : (put t k v).length = t.length := List.length_set

@[simp] theorem last_nil : last k ([] : List (κ × ν)) = none := rfl

theorem last_append_singleton : last k (l ++ [p]) = if p.1 = k then some p.2 else last k l := by
  unfold last
  rw [List.reverse_append, List.reverse_singleton, List.singleton_append, List.find?_cons]
  by_cases h : p.1 = k <;> simp [h]

theorem last_eq_none_iff : last k l = none ↔ k ∉ l.map Prod.fst := by
  unfold last
  simp only [Option.map_eq_none_iff, List.find?_eq_none, List.mem_reverse, decide_eq_true_eq, List.mem_map, not_exists, not_and]

theorem find_eq_none_iff : find t k = none ↔ ∀ (i : ℕ) (v : ν), t[i]? ≠ some (some (k, v)) := by
  unfold find
  rw [List.findSome?_eq_none_iff]
  constructor
  · intro h i v hi
    simpa using h _ (List.mem_of_getElem? hi)
  · intro h e he
    obtain ⟨i, hi⟩ := List.getElem?_of_mem he
    rcases e with _ | ⟨k', v⟩
    · rfl
    · by_cases hk : k' = k
      · subst hk
        exact absurd hi (h i v)
      · simp [hk]

theorem exists_of_find (h : find t k = some v) : ∃ i : ℕ, t[i]? = some (some (k, v)) := by
  obtain ⟨e, he, hv⟩ := List.exists_of_findSome?_eq_some h
  obtain ⟨i, hi⟩ := List.getElem?_of_mem he
  rcases e with _ | ⟨k', v'⟩
  · cases hv
  · by_cases hk : k' = k
    · subst hk
      obtain rfl : v' = v := by simpa using hv
      exact ⟨i, hi⟩
    · simp [hk] at hv

theorem Unique.find_iff (h : Unique t) : find t k = some v ↔ ∃ i : ℕ, t[i]? = some (some (k, v)) := by
  constructor
  · exact exists_of_find
  · rintro ⟨i, hi⟩
    cases hfind : find t k with
    | none => exact absurd hi (find_eq_none_iff.1 hfind i v)
    | some w =>
      obtain ⟨j, hj⟩ := exists_of_find hfind
      obtain rfl := h i j k v w hi hj
      rw [hi] at hj
      simpa using hj.symm

end Basics

/-! ### Putting -/

section Put

variable {t : Table κ ν} {k k' : κ} {v v' : ν} {i : ℕ} {l : List (κ × ν)} {p : κ × ν}

/-- Where a key goes that the table has. -/
theorem Unique.slot_eq (h : Unique t) (hi : t[i]? = some (some (k, v))) : slot t k = i := by
  unfold slot
  cases hidx : t.findIdx? (holds k) with
  | none =>
    rw [List.findIdx?_eq_none_iff] at hidx
    simpa using hidx _ (List.mem_of_getElem? hi)
  | some j =>
    rw [List.findIdx?_eq_some_iff_getElem] at hidx
    obtain ⟨hj, hholds, -⟩ := hidx
    rcases he : t[j] with _ | ⟨k', w⟩
    · simp [he] at hholds
    · obtain rfl : k' = k := by simpa [he] using hholds
      exact h j i k' w v (by rw [List.getElem?_eq_getElem hj, he]) hi

/-- Where a new key goes. -/
theorem slot_new (h : find t k = none) : t[slot t k]? = some none ∨ none ∉ t ∧ slot t k = 0 := by
  have hnew : t.findIdx? (holds k) = none := by
    rw [List.findIdx?_eq_none_iff]
    intro e he
    obtain ⟨i, hi⟩ := List.getElem?_of_mem he
    rcases e with _ | ⟨k', v⟩
    · rfl
    · have hne : k' ≠ k := by
        rintro rfl
        exact find_eq_none_iff.1 h i v hi
      simpa using hne
  unfold slot
  rw [hnew]
  cases hfree : t.findIdx? Option.isNone with
  | none =>
    rw [List.findIdx?_eq_none_iff] at hfree
    exact .inr ⟨fun hnone => by simpa using hfree _ hnone, rfl⟩
  | some j =>
    rw [List.findIdx?_eq_some_iff_getElem] at hfree
    obtain ⟨hj, hnone, -⟩ := hfree
    left
    show t[j]? = some none
    rw [List.getElem?_eq_getElem hj, Option.isNone_iff_eq_none.1 hnone]

theorem Unique.slot_lt (h : Unique t) (ht : t ≠ []) (k : κ) : slot t k < t.length := by
  cases hfind : find t k with
  | none =>
    rcases slot_new hfind with hfree | ⟨-, hzero⟩
    · exact (List.getElem?_eq_some_iff.1 hfree).1
    · rw [hzero]
      exact List.length_pos_iff.2 ht
  | some v =>
    obtain ⟨i, hi⟩ := exists_of_find hfind
    rw [h.slot_eq hi]
    exact (List.getElem?_eq_some_iff.1 hi).1

theorem put_self (hlt : slot t k < t.length) : (put t k v)[slot t k]? = some (some (k, v)) := by
  unfold put
  rw [List.getElem?_set_self hlt]

theorem put_ne (h : i ≠ slot t k) : (put t k v)[i]? = t[i]? := by
  unfold put
  rw [List.getElem?_set_ne h.symm]

/-- What is in the table behind a change was put, or was there in another slot. -/
theorem put_cases (h : (put t k v)[i]? = some (some (k', v'))) :
    i = slot t k ∧ k' = k ∧ v' = v ∨ i ≠ slot t k ∧ t[i]? = some (some (k', v')) := by
  by_cases hi : i = slot t k
  · have hlt : slot t k < t.length := by
      have hlt' := (List.getElem?_eq_some_iff.1 h).1
      rw [length_put] at hlt'
      omega
    rw [hi, put_self hlt] at h
    obtain ⟨rfl, rfl⟩ : k = k' ∧ v = v' := by simpa using h
    exact .inl ⟨hi, rfl, rfl⟩
  · rw [put_ne hi] at h
    exact .inr ⟨hi, h⟩

theorem Unique.put (h : Unique t) (k : κ) (v : ν) : Unique (put t k v) := by
  intro i j k' w w' hi hj
  rcases put_cases hi with ⟨rfl, rfl, -⟩ | ⟨-, hold⟩
  · rcases put_cases hj with ⟨rfl, -⟩ | ⟨-, hold⟩
    · rfl
    · exact h.slot_eq hold
  · rcases put_cases hj with ⟨rfl, rfl, -⟩ | ⟨-, hold'⟩
    · exact (h.slot_eq hold).symm
    · exact h i j k' w w' hold hold'

theorem Unique.puts (h : Unique t) (l : List (κ × ν)) : Unique (puts t l) := by
  induction l generalizing t with
  | nil => exact h
  | cons p l ih => exact ih (h.put p.1 p.2)

theorem puts_ne_nil (h : t ≠ []) (l : List (κ × ν)) : puts t l ≠ [] := by
  induction l generalizing t with
  | nil => exact h
  | cons p l ih =>
    apply ih
    rw [← List.length_pos_iff] at h ⊢
    rwa [length_put]

/-- A key that is found was put last with the value, or was there before. -/
theorem Unique.find_puts (h : Unique t) (hfind : find (Assoc.puts t l) k = some v) :
    last k l = some v ∨ last k l = none ∧ find t k = some v := by
  induction l using List.reverseRecOn generalizing v with
  | nil => exact .inr ⟨rfl, hfind⟩
  | append_singleton l p ih =>
    have hunique := h.puts l
    rw [puts_append, puts_cons, puts_nil] at hfind
    obtain ⟨i, hi⟩ := exists_of_find hfind
    rw [last_append_singleton]
    rcases put_cases hi with ⟨-, rfl, rfl⟩ | ⟨hne, hi⟩
    · exact .inl (if_pos rfl)
    · have hkey : p.1 ≠ k := by
        rintro rfl
        exact hne (hunique.slot_eq hi).symm
      rw [if_neg hkey]
      exact ih (hunique.find_iff.2 ⟨i, hi⟩)

/-- The last value is found right behind. -/
theorem Unique.find_put (h : Unique t) (ht : t ≠ []) : find (Assoc.put t k v) k = some v :=
  (h.put k v).find_iff.2 ⟨_, put_self (h.slot_lt ht k)⟩

/-- The other keys of a table that has room, or has the key. -/
theorem find_put_ne (h : Unique t) (hk : k' ≠ k) (hroom : find t k ≠ none ∨ none ∈ t) : find (put t k v) k' = find t k' := by
  have hslot : ∀ w, t[slot t k]? ≠ some (some (k', w)) := by
    intro w hw
    cases hfind : find t k with
    | none =>
      rcases slot_new hfind with hfree | ⟨hfull, -⟩
      · rw [hfree] at hw
        simp at hw
      · rcases hroom with hknown | hfree
        · exact hknown hfind
        · exact hfull hfree
    | some u =>
      obtain ⟨i, hi⟩ := exists_of_find hfind
      rw [h.slot_eq hi, hi] at hw
      simp only [Option.some.injEq, Prod.mk.injEq] at hw
      exact hk hw.1.symm
  cases hfind : find t k' with
  | none =>
    rw [find_eq_none_iff] at hfind ⊢
    intro i w hi
    rcases put_cases hi with ⟨-, hkey, -⟩ | ⟨-, hi⟩
    · exact hk hkey
    · exact hfind i w hi
  | some w =>
    obtain ⟨i, hi⟩ := exists_of_find hfind
    have hne : i ≠ slot t k := by
      rintro rfl
      exact hslot w hi
    exact (h.put k v).find_iff.2 ⟨i, by rw [put_ne hne, hi]⟩

end Put

/-! ### Keys that stay -/

section Stay

variable {t : Table κ ν} {k : κ} {v : ν} {i : ℕ} {l : List (κ × ν)} {p : κ × ν}

/-- A key of the table stays when the new keys find free slots. -/
theorem at_put (h : Unique t) (hi : t[i]? = some (some (k, v))) (hk : p.1 ≠ k) (hsafe : i ≠ 0 ∨ find t p.1 ≠ none ∨ none ∈ t) :
    (put t p.1 p.2)[i]? = some (some (k, v)) := by
  have hne : i ≠ slot t p.1 := by
    rintro rfl
    cases hfind : find t p.1 with
    | none =>
      rcases slot_new hfind with hfree | ⟨hfull, hzero⟩
      · rw [hfree] at hi
        simp at hi
      · rcases hsafe with hpos | hknown | hfree
        · exact hpos hzero
        · exact hknown hfind
        · exact hfull hfree
    | some w =>
      obtain ⟨j, hj⟩ := exists_of_find hfind
      rw [h.slot_eq hj, hj] at hi
      simp only [Option.some.injEq, Prod.mk.injEq] at hi
      exact hk hi.1
  rw [put_ne hne, hi]

theorem newKeys_cons_known (h : Unique t) (hp : find t p.1 ≠ none) : newKeys (put t p.1 p.2) l = newKeys t (p :: l) := by
  obtain ⟨w, hw⟩ := Option.ne_none_iff_exists'.1 hp
  have hself : find (put t p.1 p.2) p.1 ≠ none := by
    obtain ⟨i, hi⟩ := exists_of_find hw
    have hlt := (List.getElem?_eq_some_iff.1 hi).1
    rw [h.find_put fun hnil => by simp [hnil] at hlt]
    simp
  ext k
  by_cases hk : k = p.1
  · subst hk
    simp [newKeys, hp, hself]
  · simp [newKeys, hk, find_put_ne h hk (.inl hp)]

theorem newKeys_cons_new (h : Unique t) (hp : find t p.1 = none) (hfree : none ∈ t) :
    newKeys t (p :: l) = insert p.1 (newKeys (put t p.1 p.2) l) ∧ p.1 ∉ newKeys (put t p.1 p.2) l := by
  have hself : find (put t p.1 p.2) p.1 ≠ none := by
    rw [h.find_put (List.ne_nil_of_mem hfree)]
    simp
  constructor
  · ext k
    by_cases hk : k = p.1
    · subst hk
      simp [newKeys, hp]
    · simp [newKeys, hk, find_put_ne h hk (.inr hfree)]
  · simp [newKeys, hself]

theorem count_put_known [DecidableEq ν] (h : Unique t) (hp : find t p.1 ≠ none) :
    (put t p.1 p.2).count none = t.count none := by
  obtain ⟨w, hw⟩ := Option.ne_none_iff_exists'.1 hp
  obtain ⟨i, hi⟩ := exists_of_find hw
  obtain ⟨hlt, hget⟩ := List.getElem?_eq_some_iff.1 hi
  unfold put
  rw [h.slot_eq hi, List.count_set hlt, hget]
  simp

theorem count_put_new [DecidableEq ν] (hp : find t p.1 = none) (hfree : none ∈ t) :
    (put t p.1 p.2).count none + 1 = t.count none := by
  rcases slot_new hp with hslot | ⟨hfull, -⟩
  · obtain ⟨hlt, hget⟩ := List.getElem?_eq_some_iff.1 hslot
    have hpos := List.count_pos_iff.2 hfree
    unfold put
    rw [List.count_set hlt, hget]
    simp
    omega
  · exact absurd hfree hfull

/-- A key stays when it is not in the first slot, or the new keys find free slots. -/
def Stays [DecidableEq ν] (k : κ) (t : Table κ ν) (l : List (κ × ν)) : Prop :=
  (∀ v, t[0]? ≠ some (some (k, v))) ∨ (newKeys t l).card ≤ t.count none

theorem find_puts_iff [DecidableEq ν] (h : Unique t) (hi : t[i]? = some (some (k, v))) (hl : k ∉ l.map Prod.fst) :
    find (puts t l) k = some v ↔ Stays k t l := by
  have hfirst : (∀ v, t[0]? ≠ some (some (k, v))) ↔ i ≠ 0 := by
    constructor
    · rintro hne rfl
      exact hne v hi
    · intro hne w hw
      exact hne (h i 0 k v w hi hw)
  unfold Stays
  rw [hfirst]
  clear hfirst
  induction l generalizing t with
  | nil => simp [newKeys, h.find_iff.2 ⟨i, hi⟩]
  | cons p l ih =>
    have hk : p.1 ≠ k := fun heq => hl (by simp [heq])
    have hrest : k ∉ l.map Prod.fst := fun hmem => hl (List.mem_cons_of_mem _ hmem)
    by_cases hsafe : i ≠ 0 ∨ find t p.1 ≠ none ∨ none ∈ t
    · have hfound := ih (h.put p.1 p.2) (at_put h hi hk hsafe) hrest
      apply hfound.trans
      by_cases hpos : i ≠ 0
      · simp [hpos]
      · by_cases hknown : find t p.1 ≠ none
        · rw [newKeys_cons_known h hknown, count_put_known h hknown]
        · have hfree : none ∈ t := (hsafe.resolve_left hpos).resolve_left hknown
          obtain ⟨hkeys, hnot⟩ := newKeys_cons_new (l := l) h (not_not.1 hknown) hfree
          have hcount := count_put_new (not_not.1 hknown) hfree
          rw [hkeys, Finset.card_insert_of_notMem hnot]
          omega
    · push Not at hsafe
      obtain ⟨rfl, hnew, hfull⟩ := hsafe
      have hslot : slot t p.1 = 0 := by
        rcases slot_new hnew with hfree | ⟨-, hzero⟩
        · exact absurd (List.mem_of_getElem? hfree) hfull
        · exact hzero
      have hgone : find (put t p.1 p.2) k = none := by
        rw [find_eq_none_iff]
        intro j w hj
        rcases put_cases hj with ⟨-, hkey, -⟩ | ⟨hne, hj⟩
        · exact hk hkey.symm
        · exact hne ((h j 0 k w v hj hi).trans hslot.symm)
      have hlost : find (puts (put t p.1 p.2) l) k ≠ some v := by
        intro hfind
        rcases (h.put p.1 p.2).find_puts hfind with hlast | ⟨-, hthere⟩
        · rw [last_eq_none_iff.2 hrest] at hlast
          cases hlast
        · rw [hgone] at hthere
          cases hthere
      have hmem : p.1 ∈ newKeys t (p :: l) := by simp [newKeys, hnew]
      have hcard := Finset.card_pos.2 ⟨_, hmem⟩
      have hnone : t.count none = 0 := List.count_eq_zero.2 hfull
      rw [puts_cons]
      constructor
      · exact fun hfind => absurd hfind hlost
      · omega

/-- The key is put, and stays behind the last time. -/
def Lasting [DecidableEq ν] (k : κ) (t : Table κ ν) (l : List (κ × ν)) : Prop :=
  ∃ before v after, l = before ++ (k, v) :: after ∧ k ∉ after.map Prod.fst ∧ Stays k (puts t (before ++ [(k, v)])) after

/-- A list with the key has a last place of it. -/
theorem exists_last (h : k ∈ l.map Prod.fst) : ∃ before v after, l = before ++ (k, v) :: after ∧ k ∉ after.map Prod.fst := by
  induction l with
  | nil => cases h
  | cons p l ih =>
    by_cases hl : k ∈ l.map Prod.fst
    · obtain ⟨before, v, after, rfl, hafter⟩ := ih hl
      exact ⟨p :: before, v, after, rfl, hafter⟩
    · obtain rfl : k = p.1 := by
        rw [List.map_cons, List.mem_cons] at h
        exact h.resolve_right hl
      exact ⟨[], p.2, l, rfl, hl⟩

/-- A key that the table does not have is found behind the list exactly when it lasts. -/
theorem find_isSome_iff [DecidableEq ν] (h : Unique t) (ht : t ≠ []) (hnew : find t k = none) :
    (find (puts t l) k).isSome ↔ Lasting k t l := by
  have hput : ∀ before v, ∃ i : ℕ, (puts t (before ++ [(k, v)]))[i]? = some (some (k, v)) := by
    intro before v
    rw [puts_append]
    exact exists_of_find ((h.puts before).find_put (puts_ne_nil ht before))
  have hsplit : ∀ before v after, puts t (before ++ (k, v) :: after) = puts (puts t (before ++ [(k, v)])) after := by
    intro before v after
    rw [← puts_append, List.append_assoc, List.singleton_append]
  constructor
  · intro hsome
    obtain ⟨v, hv⟩ := Option.isSome_iff_exists.1 hsome
    have hmem : k ∈ l.map Prod.fst := by
      by_contra hnot
      rcases h.find_puts hv with hlast | ⟨-, hthere⟩
      · rw [last_eq_none_iff.2 hnot] at hlast
        cases hlast
      · rw [hnew] at hthere
        cases hthere
    obtain ⟨before, w, after, rfl, hafter⟩ := exists_last hmem
    obtain ⟨i, hi⟩ := hput before w
    refine ⟨before, w, after, rfl, hafter, (find_puts_iff (h.puts _) hi hafter).1 ?_⟩
    rw [hsplit] at hv
    rcases (h.puts _).find_puts hv with hlast | ⟨-, hthere⟩
    · rw [last_eq_none_iff.2 hafter] at hlast
      cases hlast
    · rw [(h.puts _).find_iff.2 ⟨i, hi⟩] at hthere
      rw [hv, ← hthere]
  · rintro ⟨before, v, after, rfl, hafter, hstays⟩
    obtain ⟨i, hi⟩ := hput before v
    rw [hsplit, (find_puts_iff (h.puts _) hi hafter).2 hstays]
    rfl

end Stay

end Tg11Kernel.Lib.Assoc
