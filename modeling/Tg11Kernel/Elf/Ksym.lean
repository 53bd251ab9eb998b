import Mathlib.Algebra.GroupWithZero.Nat
import Mathlib.Data.List.Basic
import Mathlib.Order.Basic

/-! The lookup of a kernel symbol by an address: a binary search over the table that is generated
from the kernel's ELF file when the kernel is built. -/

namespace Tg11Kernel.Elf

/-- `ksym_entry_t` -/
structure KsymEntry where
  addr : UInt64
  nameOff : UInt64

/-- `ksym_table` with `ksym_table_count`, and `ksym_names`. The count is an `unsigned long`, and the
entries are written in the order of `nm --numeric-sort`. -/
structure KsymTable where
  entries : Array KsymEntry
  names : List UInt8
  fits : entries.size < 2 ^ 64
  sorted : entries.toList.Pairwise fun e e' => e.addr ≤ e'.addr

/-- A read outside the table, or a search that has not ended. -/
inductive KsymFault where
  | outside
  | endless
  deriving DecidableEq

namespace KsymTable

variable (t : KsymTable) (addr : UInt64)

/-- `ksym_table_count` -/
def count : UInt64 := UInt64.ofNat t.entries.size

/-- `ksym_table[i]` -/
def entry (i : UInt64) : Except KsymFault KsymEntry :=
  match t.entries[i.toNat]? with
  | some e => .ok e
  | none => .error .outside

/-- The string at `ksym_names + off`. -/
def nameAt (off : UInt64) : List UInt8 := (t.names.drop off.toNat).takeWhile (· ≠ 0)

/-- The loop, for that many rounds. -/
def search : ℕ → UInt64 → UInt64 → Except KsymFault UInt64
  | 0, lo, hi => if lo < hi then .error .endless else .ok lo
  | n + 1, lo, hi =>
    if lo < hi then do
      let mid := lo + (hi - lo + 1) / 2
      let e ← t.entry mid
      if e.addr ≤ addr then search n mid hi else search n lo (mid - 1)
    else .ok lo

/-- `ksym_lookup`: the name and the offset, or NULL. A round makes the range shorter, so there are no
more rounds than entries. -/
def ksymLookup : Except KsymFault (Option (List UInt8 × UInt64)) :=
  if t.count = 0 then .ok none
  else do
    let first ← t.entry 0
    if addr < first.addr then .ok none
    else do
      let lo ← t.search addr t.entries.size 0 (t.count - 1)
      let e ← t.entry lo
      .ok (some (t.nameAt e.nameOff, addr - e.addr))

/-! ### The search -/

/-- `e` is the last entry whose address is at most `addr`. -/
structure Last (i : ℕ) (e : KsymEntry) : Prop where
  get : t.entries[i]? = some e
  le : e.addr ≤ addr
  last : ∀ j e', i < j → t.entries[j]? = some e' → addr < e'.addr

/-- The last entry is in the range. -/
structure Bounds (lo hi : UInt64) : Prop where
  le : lo.toNat ≤ hi.toNat
  inside : hi.toNat < t.entries.size
  low : ∀ e, t.entries[lo.toNat]? = some e → e.addr ≤ addr
  high : ∀ j e, hi.toNat < j → t.entries[j]? = some e → addr < e.addr

variable {t addr} {lo hi : UInt64}

theorem mono {i j : ℕ} {e e' : KsymEntry} (hij : i < j) (he : t.entries[i]? = some e) (he' : t.entries[j]? = some e') : e.addr ≤ e'.addr := by
  obtain ⟨hi, rfl⟩ := Array.getElem?_eq_some_iff.1 he
  obtain ⟨hj, rfl⟩ := Array.getElem?_eq_some_iff.1 he'
  exact List.pairwise_iff_getElem.1 t.sorted i j hi hj hij

theorem entry_ok {i : UInt64} (h : i.toNat < t.entries.size) : ∃ e, t.entry i = .ok e ∧ t.entries[i.toNat]? = some e := by
  have hget : t.entries[i.toNat]? = some t.entries[i.toNat] := Array.getElem?_eq_getElem h
  refine ⟨t.entries[i.toNat], ?_, hget⟩
  rw [entry, hget]

section

variable (h : Bounds t addr lo hi)
include h

theorem Bounds.mid (hlt : lo < hi) : (lo + (hi - lo + 1) / 2).toNat = lo.toNat + (hi.toNat - lo.toNat + 1) / 2 := by
  have hfits := t.fits
  have hin := h.inside
  have hle := h.le
  have hsub : (hi - lo).toNat = hi.toNat - lo.toNat := UInt64.toNat_sub_of_le hi lo (UInt64.le_of_lt hlt)
  have hone : (hi - lo + 1).toNat = hi.toNat - lo.toNat + 1 := by
    rw [UInt64.toNat_add, hsub, show (1 : UInt64).toNat = 1 from rfl]
    omega
  rw [UInt64.toNat_add, UInt64.toNat_div, hone, show (2 : UInt64).toNat = 2 from rfl]
  omega

/-- One round keeps the last entry in the range, and makes the range shorter. -/
theorem Bounds.round (hlt : lo < hi) (n : ℕ) : ∃ lo' hi', Bounds t addr lo' hi' ∧
    hi'.toNat - lo'.toNat < hi.toNat - lo.toNat ∧ t.search addr (n + 1) lo hi = t.search addr n lo' hi' := by
  have hmid := h.mid hlt
  have hlt' := UInt64.lt_iff_toNat_lt.1 hlt
  have hin := h.inside
  rw [search, if_pos hlt]
  generalize lo + (hi - lo + 1) / 2 = mid at hmid ⊢
  obtain ⟨e, hok, hget⟩ := entry_ok (t := t) (i := mid) (by omega)
  have hstep : ∀ next : KsymEntry → Except KsymFault UInt64, (t.entry mid >>= next) = next e := by
    intro next
    rw [hok]
    rfl
  rw [hstep]
  by_cases hle : e.addr ≤ addr
  · refine ⟨mid, hi, ⟨by omega, hin, ?_, h.high⟩, by omega, if_pos hle⟩
    intro e' he'
    rw [hget] at he'
    cases he'
    exact hle
  · have hpred : (mid - 1).toNat = mid.toNat - 1 := by
      have hone : (1 : UInt64) ≤ mid := by
        rw [UInt64.le_iff_toNat_le, show (1 : UInt64).toNat = 1 from rfl]
        omega
      exact UInt64.toNat_sub_of_le mid 1 hone
    refine ⟨lo, mid - 1, ⟨by omega, by omega, h.low, ?_⟩, by omega, if_neg hle⟩
    intro j e' hj he'
    rcases Nat.lt_or_eq_of_le (show mid.toNat ≤ j by omega) with hmj | rfl
    · exact UInt64.lt_of_lt_of_le (UInt64.not_le.1 hle) (mono hmj hget he')
    · rw [hget] at he'
      cases he'
      exact UInt64.not_le.1 hle

theorem Bounds.done (hlt : ¬ lo < hi) : ∃ e, t.entry lo = .ok e ∧ t.Last addr lo.toNat e := by
  have heq : lo.toNat = hi.toNat := Nat.le_antisymm h.le (Nat.le_of_not_lt fun hl => hlt (UInt64.lt_iff_toNat_lt.2 hl))
  obtain ⟨e, hok, hget⟩ := entry_ok (t := t) (i := lo) (heq ▸ h.inside)
  exact ⟨e, hok, hget, h.low e hget, fun j e' hj => h.high j e' (heq ▸ hj)⟩

theorem Bounds.search {n : ℕ} (hn : hi.toNat - lo.toNat ≤ n) :
    ∃ k e, t.search addr n lo hi = .ok k ∧ t.entry k = .ok e ∧ t.Last addr k.toNat e := by
  induction n generalizing lo hi with
  | zero =>
    have hlt : ¬ lo < hi := fun hl => by
      have hl' := UInt64.lt_iff_toNat_lt.1 hl
      omega
    obtain ⟨e, hok, hlast⟩ := h.done hlt
    exact ⟨lo, e, if_neg hlt, hok, hlast⟩
  | succ n ih =>
    by_cases hlt : lo < hi
    · obtain ⟨lo', hi', hbounds, hshort, hround⟩ := h.round hlt n
      rw [hround]
      exact ih hbounds (by omega)
    · obtain ⟨e, hok, hlast⟩ := h.done hlt
      exact ⟨lo, e, if_neg hlt, hok, hlast⟩

end

/-- The whole table is a range to start from, unless it is empty or the address is below its first entry. -/
theorem bounds_whole {e : KsymEntry} (hget : t.entries[0]? = some e) (hle : e.addr ≤ addr) : Bounds t addr 0 (t.count - 1) := by
  obtain ⟨hpos, -⟩ := Array.getElem?_eq_some_iff.1 hget
  have hfits := t.fits
  have hcount : t.count.toNat = t.entries.size := UInt64.toNat_ofNat_of_lt' hfits
  have hlast : (t.count - 1).toNat = t.entries.size - 1 := by
    have hone : (1 : UInt64) ≤ t.count := by
      rw [UInt64.le_iff_toNat_le, hcount]
      exact hpos
    rw [UInt64.toNat_sub_of_le _ _ hone, hcount]
    rfl
  refine ⟨Nat.zero_le _, by omega, ?_, ?_⟩
  · intro e' he'
    rw [show (0 : UInt64).toNat = 0 from rfl, hget] at he'
    cases he'
    exact hle
  · intro j e' hj he'
    obtain ⟨hj', -⟩ := Array.getElem?_eq_some_iff.1 he'
    omega

/-! ### The answer -/

/-- There is no entry to find: the table is empty, or the address is below its first entry. -/
def Below (t : KsymTable) (addr : UInt64) : Prop := ∀ e, t.entries[0]? = some e → addr < e.addr

/-- The answer for an address, as the table says it. -/
inductive Answers (t : KsymTable) (addr : UInt64) : Option (List UInt8 × UInt64) → Prop where
  | null (h : t.Below addr) : Answers t addr none
  | found {i : ℕ} {e : KsymEntry} (h : t.Last addr i e) : Answers t addr (some (t.nameAt e.nameOff, addr - e.addr))

theorem Last.not_below {i : ℕ} {e : KsymEntry} (h : t.Last addr i e) : ¬ t.Below addr := by
  intro hbelow
  have hle : ∃ e₀, t.entries[0]? = some e₀ ∧ e₀.addr ≤ e.addr := by
    rcases Nat.eq_zero_or_pos i with rfl | hpos
    · exact ⟨e, h.get, UInt64.le_refl _⟩
    · obtain ⟨hi, -⟩ := Array.getElem?_eq_some_iff.1 h.get
      have hget : t.entries[0]? = some t.entries[0] := Array.getElem?_eq_getElem (by omega)
      exact ⟨_, hget, mono hpos hget h.get⟩
  obtain ⟨e₀, hget, hle⟩ := hle
  exact UInt64.not_le.2 (hbelow e₀ hget) (UInt64.le_trans hle h.le)

theorem ksymLookup_answers (t : KsymTable) (addr : UInt64) : ∃ r, t.ksymLookup addr = .ok r ∧ Answers t addr r := by
  by_cases hcount : t.count = 0
  · refine ⟨none, if_pos hcount, .null fun e he => ?_⟩
    obtain ⟨hpos, -⟩ := Array.getElem?_eq_some_iff.1 he
    have hsize : t.count.toNat = t.entries.size := UInt64.toNat_ofNat_of_lt' t.fits
    rw [hcount] at hsize
    exact absurd hsize.symm (Nat.ne_of_gt hpos)
  · have hpos : 0 < t.entries.size := by
      by_contra hzero
      rw [Nat.not_lt, Nat.le_zero] at hzero
      exact hcount (by rw [count, hzero]; rfl)
    obtain ⟨e, hok, hget⟩ := entry_ok (t := t) (i := 0) hpos
    rw [ksymLookup, if_neg hcount, hok]
    by_cases hlt : addr < e.addr
    · refine ⟨none, if_pos hlt, .null fun e' he' => ?_⟩
      have heq : some e = some e' := hget.symm.trans he'
      cases heq
      exact hlt
    · obtain ⟨k, e', hsearch, hentry, hlast⟩ := (bounds_whole hget (UInt64.not_lt.1 hlt)).search (n := t.entries.size) (by
        have hinside := (bounds_whole hget (UInt64.not_lt.1 hlt)).inside
        omega)
      refine ⟨_, ?_, .found hlast⟩
      show (if addr < e.addr then _ else _) = _
      rw [if_neg hlt, hsearch]
      show (t.entry k >>= _) = _
      rw [hentry]
      rfl

/-- The search ends and reads no entry outside the table; it gives the last entry whose address is at
most the given one, and NULL exactly when there is none. -/
theorem ksymLookup_correct (t : KsymTable) (addr : UInt64) : ∃ r, t.ksymLookup addr = .ok r ∧
    (r = none ↔ t.entries.size = 0 ∨ ∃ e, t.entries[0]? = some e ∧ addr < e.addr) ∧
    ∀ name offset, r = some (name, offset) → ∃ i e, t.Last addr i e ∧ name = t.nameAt e.nameOff ∧ offset = addr - e.addr := by
  obtain ⟨r, hok, hanswers⟩ := ksymLookup_answers t addr
  refine ⟨r, hok, ?_, ?_⟩
  · have hbelow : t.Below addr ↔ t.entries.size = 0 ∨ ∃ e, t.entries[0]? = some e ∧ addr < e.addr := by
      rcases Nat.eq_zero_or_pos t.entries.size with hzero | hpos
      · simp [Below, hzero]
      · have hget : t.entries[0]? = some t.entries[0] := Array.getElem?_eq_getElem hpos
        constructor
        · exact fun h => .inr ⟨_, hget, h _ hget⟩
        · rintro (hzero | ⟨e, he, hlt⟩) e' he'
          · exact absurd hzero (Nat.ne_of_gt hpos)
          · have heq : some e = some e' := he.symm.trans he'
            cases heq
            exact hlt
    rw [← hbelow]
    cases hanswers with
    | null h => exact iff_of_true rfl h
    | found h => exact iff_of_false (by simp) h.not_below
  · intro name offset heq
    cases hanswers with
    | null => cases heq
    | found h =>
      cases heq
      exact ⟨_, _, h, rfl, rfl⟩

end KsymTable

end Tg11Kernel.Elf
