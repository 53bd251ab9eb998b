import Mathlib.Data.List.Basic
import Mathlib.Data.List.MinMax

/-! Left folds with an early exit: the loop `for x in l` whose body either goes
on with a new accumulator (`inl`) or leaves with a result (`inr`). A fold over a
concatenation is the fold over the first part followed by the fold over the
second, so how a sequence is cut into batches does not matter. -/

namespace Tg11Kernel.Lib

variable {σ α β γ : Type}

def foldUntil (f : σ → α → σ ⊕ β) : σ → List α → σ ⊕ β
  | acc, [] => .inl acc
  | acc, a :: l =>
    match f acc a with
    | .inl acc => foldUntil f acc l
    | .inr b => .inr b

/-- Go on with `g` unless the first part already left. -/
def Sum.andThen (r : σ ⊕ β) (g : σ → σ ⊕ β) : σ ⊕ β :=
  match r with
  | .inl acc => g acc
  | .inr b => .inr b

@[simp] theorem andThen_inl (acc : σ) (g : σ → σ ⊕ β) : Sum.andThen (.inl acc) g = g acc := rfl

@[simp] theorem andThen_inr (b : β) (g : σ → σ ⊕ β) : Sum.andThen (.inr b) g = .inr b := rfl

section

variable (f : σ → α → σ ⊕ β) (acc : σ)
include f acc

@[simp] theorem foldUntil_nil : foldUntil f acc [] = .inl acc := rfl

theorem foldUntil_cons (a : α) (l : List α) :
    foldUntil f acc (a :: l) = Sum.andThen (f acc a) fun acc => foldUntil f acc l := by
  rw [foldUntil]
  cases f acc a <;> rfl

theorem foldUntil_append (l l' : List α) :
    foldUntil f acc (l ++ l') = Sum.andThen (foldUntil f acc l) fun acc => foldUntil f acc l' := by
  induction l generalizing acc with
  | nil => rfl
  | cons a l ih =>
    rw [List.cons_append, foldUntil_cons, foldUntil_cons]
    cases f acc a with
    | inl acc' => exact ih acc'
    | inr b => rfl

end

theorem foldUntil_map (f : σ → γ → σ ⊕ β) (g : α → γ) (acc : σ) (l : List α) :
    foldUntil f acc (l.map g) = foldUntil (fun acc a => f acc (g a)) acc l := by
  induction l generalizing acc with
  | nil => rfl
  | cons a l ih =>
    rw [List.map_cons, foldUntil_cons, foldUntil_cons]
    cases f acc (g a) with
    | inl acc' => exact ih acc'
    | inr b => rfl

/-- A scan of groups is the scan of all their elements in order. -/
theorem foldUntil_flatMap (f : σ → γ → σ ⊕ β) (g : α → List γ) (acc : σ) (l : List α) :
    foldUntil f acc (l.flatMap g) = foldUntil (fun acc a => foldUntil f acc (g a)) acc l := by
  induction l generalizing acc with
  | nil => rfl
  | cons a l ih =>
    rw [List.flatMap_cons, foldUntil_append, foldUntil_cons]
    cases foldUntil f acc (g a) with
    | inl acc' => exact ih acc'
    | inr b => rfl

theorem foldUntil_congr {f g : σ → α → σ ⊕ β} {l : List α} (h : ∀ a ∈ l, ∀ acc, f acc a = g acc a)
    (acc : σ) : foldUntil f acc l = foldUntil g acc l := by
  induction l generalizing acc with
  | nil => rfl
  | cons a l ih =>
    rw [foldUntil_cons, foldUntil_cons, h a (by simp)]
    cases g acc a with
    | inl acc' => exact ih (fun b hb => h b (by simp [hb])) acc'
    | inr b => rfl

/-- `⌈n / b⌉` batches of `b` cover `n`. -/
theorem le_ceilDiv_mul (n : ℕ) {b : ℕ} (hb : 1 ≤ b) : n ≤ (n + b - 1) / b * b := by
  have hdiv := Nat.div_add_mod (n + b - 1) b
  have hlt := Nat.mod_lt (n + b - 1) hb
  rw [Nat.mul_comm] at hdiv
  omega

/-- Batches of `b` indices, the last one cut off at `n`, run through the indices in order. -/
theorem flatMap_batches (n b m : ℕ) :
    ((List.range m).flatMap fun k => (List.range (min (n - k * b) b)).map (k * b + ·)) =
      List.range (min n (m * b)) := by
  induction m with
  | zero => simp
  | succ m ih =>
    rw [List.range_succ, List.flatMap_append, ih, List.flatMap_singleton, Nat.succ_mul]
    by_cases h : m * b ≤ n
    · rw [Nat.min_eq_right h, ← List.range_add]
      congr 1
      omega
    · rw [show min (n - m * b) b = 0 by omega, List.range_zero, List.map_nil, List.append_nil]
      congr 1
      omega

end Tg11Kernel.Lib

/-! The best item of a list in two ranks. An item of the upper rank is better than any
other; among items of one rank the largest key wins, and the first of those. -/

namespace Tg11Kernel.Lib

variable {α κ : Type} [LinearOrder κ] {p q : α → Prop} [DecidablePred p] [DecidablePred q] {key : α → κ} {l : List α} {a : α}

/-- One item is weighed against the best one so far. -/
def prefer (p : α → Prop) [DecidablePred p] (key : α → κ) (best : Option α) (a : α) : Option α :=
  match best with
  | none => some a
  | some b => if (p a ∧ ¬ p b) ∨ ((p a ↔ p b) ∧ key b < key a) then some a else some b

/-- The first item of the upper rank with the largest key; without one, the first item with the largest key. -/
def favourite (p : α → Prop) [DecidablePred p] (key : α → κ) (l : List α) : Option α :=
  ((l.filter p).argmax key).or (l.argmax key)

theorem exists_upper_argmax (key : α → κ) (h : ∃ b ∈ l, p b) : ∃ m, (l.filter p).argmax key = some m ∧ p m := by
  obtain ⟨b, hb, hpb⟩ := h
  cases hm : (l.filter p).argmax key with
  | none =>
    have hmem : b ∈ l.filter p := List.mem_filter.2 ⟨hb, decide_eq_true hpb⟩
    rw [List.argmax_eq_none.1 hm] at hmem
    simp at hmem
  | some m => exact ⟨m, rfl, by simpa using (List.mem_filter.1 (List.argmax_mem hm)).2⟩

theorem favourite_of_upper (h : ∃ b ∈ l, p b) : favourite p key l = (l.filter p).argmax key := by
  obtain ⟨m, hm, -⟩ := exists_upper_argmax key h
  unfold favourite
  rw [hm, Option.some_or]

theorem filter_snoc (p : α → Prop) [DecidablePred p] (l : List α) (a : α) :
    (l ++ [a]).filter p = if p a then l.filter p ++ [a] else l.filter p := by
  by_cases hpa : p a <;> simp [List.filter_cons, hpa]

theorem filter_eq_nil_of_lower (h : ¬ ∃ b ∈ l, p b) : l.filter p = [] := by
  simp only [not_exists, not_and] at h
  simpa [List.filter_eq_nil_iff] using h

theorem favourite_of_lower (h : ¬ ∃ b ∈ l, p b) : favourite p key l = l.argmax key := by
  unfold favourite
  rw [filter_eq_nil_of_lower h, List.argmax_nil, Option.none_or]

/-- An argmax weighed against one more item. -/
theorem argmax_snoc (key : α → κ) (l : List α) (a : α) : (l ++ [a]).argmax key = match l.argmax key with
      | none => some a
      | some b => if key b < key a then some a else some b := by
  rw [List.argmax_concat]
  cases l.argmax key <;> rfl

/-- The fold computes the favourite. -/
theorem foldl_prefer (p : α → Prop) [DecidablePred p] (key : α → κ) (l : List α) :
    l.foldl (prefer p key) none = favourite p key l := by
  induction l using List.reverseRecOn with
  | nil => rfl
  | append_singleton l a ih =>
    rw [List.foldl_append, ih, List.foldl_cons, List.foldl_nil]
    by_cases hl : ∃ b ∈ l, p b
    · have hla : ∃ b ∈ l ++ [a], p b := hl.imp fun b hb => ⟨List.mem_append_left _ hb.1, hb.2⟩
      obtain ⟨m, hm, hpm⟩ := exists_upper_argmax key hl
      rw [favourite_of_upper hl, favourite_of_upper hla, filter_snoc]
      by_cases hpa : p a
      · rw [if_pos hpa, argmax_snoc, hm]
        simp [prefer, hpa, hpm]
      · rw [if_neg hpa, hm]
        simp [prefer, hpa, hpm]
    · rw [favourite_of_lower hl]
      by_cases hpa : p a
      · have hla : ∃ b ∈ l ++ [a], p b := ⟨a, by simp, hpa⟩
        rw [favourite_of_upper hla, filter_snoc, if_pos hpa, filter_eq_nil_of_lower hl, List.nil_append, List.argmax_singleton]
        cases hm : l.argmax key with
        | none => rfl
        | some m =>
          have hpm : ¬ p m := fun hpm => hl ⟨m, List.argmax_mem hm, hpm⟩
          simp [prefer, hpa, hpm]
      · have hla : ¬ ∃ b ∈ l ++ [a], p b := by
          rintro ⟨b, hb, hpb⟩
          rcases List.mem_append.1 hb with hb | hb
          · exact hl ⟨b, hb, hpb⟩
          · exact hpa (List.mem_singleton.1 hb ▸ hpb)
        rw [favourite_of_lower hla, argmax_snoc]
        cases hm : l.argmax key with
        | none => rfl
        | some m =>
          have hpm : ¬ p m := fun hpm => hl ⟨m, List.argmax_mem hm, hpm⟩
          simp [prefer, hpa, hpm]

theorem favourite_singleton (p : α → Prop) [DecidablePred p] (key : α → κ) (a : α) : favourite p key [a] = some a :=
  (foldl_prefer p key [a]).symm

theorem favourite_eq_none : favourite p key l = none ↔ l = [] := by
  unfold favourite
  rw [Option.or_eq_none_iff, List.argmax_eq_none, List.argmax_eq_none]
  constructor
  · exact fun h => h.2
  · rintro rfl
    exact ⟨rfl, rfl⟩

/-- An item of the list that is of the upper rank if any is, with the largest key of its rank. -/
structure Preferred (p : α → Prop) (key : α → κ) (l : List α) (a : α) : Prop where
  mem : a ∈ l
  upper : (∃ b ∈ l, p b) → p a
  largest : ∀ b ∈ l, (p a → p b) → key b ≤ key a

/-- Ranking by `q`, a part of `p`, does for ranking by `p`: what `q` misses is below an item of `q`, and
where `q` has no item at all, the first with the largest key is in `p` unless none is. -/
def RanksAs (p q : α → Prop) (key : α → κ) (l : List α) : Prop :=
  ((∃ b ∈ l, q b) ∧ ∀ c ∈ l, p c → ∃ b ∈ l, q b ∧ key c ≤ key b) ∨
    ((¬ ∃ b ∈ l, q b) ∧ ((∃ c ∈ l, p c) → ∀ a ∈ l.argmax key, p a))

omit [DecidablePred p] [DecidablePred q] in
theorem RanksAs.congr {r : α → Prop} (h : ∀ a ∈ l, q a ↔ r a) : RanksAs p q key l ↔ RanksAs p r key l := by
  have hex : (∃ b ∈ l, q b) ↔ ∃ b ∈ l, r b := exists_congr fun b => and_congr_right fun hb => h b hb
  have hall : (∀ c ∈ l, p c → ∃ b ∈ l, q b ∧ key c ≤ key b) ↔ ∀ c ∈ l, p c → ∃ b ∈ l, r b ∧ key c ≤ key b :=
    forall₃_congr fun c _ _ => exists_congr fun b => and_congr_right fun hb => and_congr_left' (h b hb)
  unfold RanksAs
  rw [hex, hall]

omit [DecidablePred p] in
theorem preferred_iff (hqp : ∀ a ∈ l, q a → p a) (h : favourite q key l = some a) : Preferred p key l a ↔ RanksAs p q key l := by
  by_cases hq : ∃ b ∈ l, q b
  · rw [favourite_of_upper hq] at h
    obtain ⟨hal, hqa⟩ := List.mem_filter.1 (List.argmax_mem h)
    have hqa : q a := by simpa using hqa
    have hmax (b : α) (hb : b ∈ l) (hqb : q b) : key b ≤ key a :=
      List.le_of_mem_argmax (List.mem_filter.2 ⟨hb, decide_eq_true hqb⟩) h
    constructor
    · intro hpref
      exact .inl ⟨hq, fun c hc hpc => ⟨a, hal, hqa, hpref.largest c hc fun _ => hpc⟩⟩
    · rintro (⟨-, hall⟩ | ⟨hno, -⟩)
      · refine ⟨hal, fun _ => hqp a hal hqa, fun b hb hpb => ?_⟩
        obtain ⟨c, hc, hqc, hbc⟩ := hall b hb (hpb (hqp a hal hqa))
        exact hbc.trans (hmax c hc hqc)
      · exact absurd hq hno
  · rw [favourite_of_lower hq] at h
    constructor
    · intro hpref
      refine .inr ⟨hq, fun hex c hc => ?_⟩
      rw [h] at hc
      exact Option.some.inj hc ▸ hpref.upper hex
    · rintro (⟨hyes, -⟩ | ⟨-, hall⟩)
      · exact absurd hyes hq
      · exact ⟨List.argmax_mem h, fun hex => hall hex a h, fun b hb _ => List.le_of_mem_argmax hb h⟩

end Tg11Kernel.Lib
