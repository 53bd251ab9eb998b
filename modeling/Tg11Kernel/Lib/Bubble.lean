import Mathlib.Data.List.Basic

/-! Bubble sort with a last round that exchanges nothing. It sorts by any total preorder, and what the
preorder does not tell apart stays in its order. -/

namespace Tg11Kernel.Lib.Bubble

variable {α : Type*}

/-! ### The rounds -/

/-- One round over the first `n + 1` elements: the list after it, and whether it has exchanged any two. -/
def pass (gt : α → α → Bool) : ℕ → List α → List α × Bool
  | n + 1, a :: b :: l =>
    if gt a b then (b :: (pass gt n (a :: l)).1, true) else (a :: (pass gt n (b :: l)).1, (pass gt n (b :: l)).2)
  | _, l => (l, false)

/-- Each round is shorter than the one before, and one that exchanges nothing is the last. -/
def rounds (gt : α → α → Bool) : ℕ → List α → List α
  | 0, l => l
  | n + 1, l => if (pass gt (n + 1) l).2 then rounds gt n (pass gt (n + 1) l).1 else (pass gt (n + 1) l).1

def sort (gt : α → α → Bool) (l : List α) : List α := rounds gt (l.length - 1) l

/-- What a round carries on behind an element: what it leaves, and what it holds at the end. -/
def carry (gt : α → α → Bool) : α → List α → List α × α
  | a, [] => ([], a)
  | a, b :: l => if gt a b then (b :: (carry gt a l).1, (carry gt a l).2) else (a :: (carry gt b l).1, (carry gt b l).2)

/-! ### Sorted lists -/

structure TotalPreorder (le : α → α → Prop) : Prop where
  trans : ∀ {a b c}, le a b → le b c → le a c
  total : ∀ a b, le a b ∨ le b a

variable {le : α → α → Prop} [DecidableRel le] {gt : α → α → Bool} {xs ys zs : List α} {a b x y : α}

theorem TotalPreorder.refl (h : TotalPreorder le) (a : α) : le a a := or_self_iff.1 (h.total a a)

/-- The elements that the preorder does not tell from `x`. -/
def same (le : α → α → Prop) [DecidableRel le] (x y : α) : Bool := decide (le x y ∧ le y x)

/-- The second list is the first one in order, and equal elements have kept theirs. -/
structure SortOf (le : α → α → Prop) [DecidableRel le] (xs zs : List α) : Prop where
  sorted : zs.Pairwise le
  stable : ∀ x, zs.filter (same le x) = xs.filter (same le x)

/-- An element above all others, and the last of those. -/
def LastGreatest (le : α → α → Prop) (xs : List α) (x : α) : Prop :=
  ∃ as bs, xs = as ++ x :: bs ∧ (∀ a ∈ as, le a x) ∧ ∀ b ∈ bs, ¬ le x b

/-- Without what stands last in both. -/
theorem SortOf.of_append (h : SortOf le (xs ++ [x]) (zs ++ [x])) : SortOf le xs zs where
  sorted := (List.pairwise_append.1 h.sorted).1
  stable y := by
    have hclass := h.stable y
    rw [List.filter_append, List.filter_append] at hclass
    exact List.append_cancel_right hclass

section Sorted

variable (hle : TotalPreorder le)
include hle

theorem same_self (x : α) : same le x x = true := decide_eq_true ⟨hle.refl x, hle.refl x⟩

theorem SortOf.mem_iff (h : SortOf le xs zs) : x ∈ zs ↔ x ∈ xs := by
  have hself := same_self hle x
  constructor
  · intro hx
    have hfilter := List.mem_filter.2 ⟨hx, hself⟩
    rw [h.stable x] at hfilter
    exact (List.mem_filter.1 hfilter).1
  · intro hx
    have hfilter := List.mem_filter.2 ⟨hx, hself⟩
    rw [← h.stable x] at hfilter
    exact (List.mem_filter.1 hfilter).1

theorem SortOf.perm (h : SortOf le xs zs) : zs.Perm xs := by
  classical
  refine List.perm_iff_count.2 fun x => ?_
  have hself := same_self hle x
  rw [← List.count_filter hself, h.stable x, List.count_filter hself]

theorem SortOf.le_last (h : SortOf le xs (zs ++ [x])) (hy : y ∈ xs) : le y x := by
  rcases List.mem_append.1 ((h.mem_iff hle).2 hy) with hy | hy
  · exact (List.pairwise_append.1 h.sorted).2.2 y hy x List.mem_cons_self
  · rw [List.mem_singleton.1 hy]
    exact hle.refl x

/-- The class of the last element ends with it. -/
theorem SortOf.lastGreatest (h : SortOf le xs (zs ++ [x])) : LastGreatest le xs x := by
  have hbelow : ∀ y ∈ xs, le y x := fun y hy => h.le_last hle hy
  have hclass := (h.stable x).symm
  rw [List.filter_append, List.filter_cons_of_pos (same_self hle x), List.filter_nil] at hclass
  obtain ⟨as, rest, rfl, -, hrest⟩ := List.filter_eq_append_iff.1 hclass
  obtain ⟨bs, cs, rfl, -, -, hcs⟩ := List.filter_eq_cons_iff.1 hrest
  refine ⟨as ++ bs, cs, (List.append_assoc _ _ _).symm, fun a ha => hbelow a ?_, fun c hc hxc => ?_⟩
  · rcases List.mem_append.1 ha with ha | ha <;> simp [ha]
  · exact List.filter_eq_nil_iff.1 hcs c hc (decide_eq_true ⟨hxc, hbelow c (by simp [hc])⟩)

theorem SortOf.lastGreatest_iff (h : SortOf le xs (zs ++ [x])) : LastGreatest le xs y ↔ y = x := by
  constructor
  · rintro ⟨as, bs, rfl, has, hbs⟩
    have hx : x ∈ as ++ y :: bs := (h.mem_iff hle).1 (by simp)
    have hxy : le x y := by
      rcases List.mem_append.1 hx with hx | hx
      · exact has x hx
      · rcases List.mem_cons.1 hx with rfl | hx
        · exact hle.refl x
        · exact (hle.total x y).resolve_right (hbs x hx)
    have hyx : le y x := h.le_last hle (by simp)
    have hnone : bs.filter (same le y) = [] := List.filter_eq_nil_iff.2 fun b hb hsame => hbs b hb (of_decide_eq_true hsame).1
    have hclass := h.stable y
    have hself : same le y x = true := decide_eq_true ⟨hyx, hxy⟩
    rw [List.filter_append, List.filter_cons_of_pos hself, List.filter_nil, List.filter_append,
      List.filter_cons_of_pos (same_self hle y), hnone] at hclass
    exact (List.singleton_inj.1 (List.append_inj' hclass rfl).2).symm
  · rintro rfl
    exact h.lastGreatest hle

end Sorted

/-! ### One round -/

section Round

variable (hle : TotalPreorder le) (hgt : ∀ a b, gt a b = true ↔ ¬ le a b)

theorem length_carry (a : α) (xs : List α) : (carry gt a xs).1.length = xs.length := by
  induction xs generalizing a with
  | nil => rfl
  | cons b xs ih =>
    rw [carry]
    split_ifs <;> rw [List.length_cons, List.length_cons, ih]

theorem pass_eq (a : α) (xs ys : List α) :
    (pass gt xs.length (a :: (xs ++ ys))).1 = (carry gt a xs).1 ++ (carry gt a xs).2 :: ys := by
  induction xs generalizing a with
  | nil => cases ys <;> rfl
  | cons b xs ih =>
    rw [List.length_cons, List.cons_append, pass, carry]
    split_ifs
    · rw [ih]
      rfl
    · rw [ih]
      rfl

/-- A round that exchanges nothing has found the elements in order. -/
theorem pass_unchanged (a : α) (xs ys : List α) (h : (pass gt xs.length (a :: (xs ++ ys))).2 = false) :
    (carry gt a xs).1 ++ [(carry gt a xs).2] = a :: xs ∧ (a :: xs).IsChain fun x y => gt x y = false := by
  induction xs generalizing a with
  | nil => exact ⟨rfl, .singleton a⟩
  | cons b xs ih =>
    rw [List.length_cons, List.cons_append, pass] at h
    rw [carry]
    split_ifs at h ⊢ with hab
    obtain ⟨heq, hchain⟩ := ih b h
    rw [List.cons_append, heq]
    exact ⟨rfl, .cons_cons (Bool.eq_false_iff.2 hab) hchain⟩

include hle hgt

theorem le_carry (a : α) (xs : List α) : le a (carry gt a xs).2 ∧ ∀ x ∈ (carry gt a xs).1, le x (carry gt a xs).2 := by
  induction xs generalizing a with
  | nil => exact ⟨hle.refl a, fun x hx => absurd hx List.not_mem_nil⟩
  | cons b xs ih =>
    rw [carry]
    split_ifs with hab
    · obtain ⟨hlast, hall⟩ := ih a
      have hba : le b a := (hle.total a b).resolve_left ((hgt a b).1 hab)
      exact ⟨hlast, List.forall_mem_cons.2 ⟨hle.trans hba hlast, hall⟩⟩
    · obtain ⟨hlast, hall⟩ := ih b
      have hle_ab : le a b := by
        by_contra hnot
        exact hab ((hgt a b).2 hnot)
      exact ⟨hle.trans hle_ab hlast, List.forall_mem_cons.2 ⟨hle.trans hle_ab hlast, hall⟩⟩

/-- Only different elements pass one another. -/
theorem filter_carry (x a : α) (xs : List α) :
    ((carry gt a xs).1 ++ [(carry gt a xs).2]).filter (same le x) = (a :: xs).filter (same le x) := by
  induction xs generalizing a with
  | nil => rfl
  | cons b xs ih =>
    rw [carry]
    split_ifs with hab
    · have hnot : ¬ (same le x a = true ∧ same le x b = true) := by
        rintro ⟨ha, hb⟩
        exact (hgt a b).1 hab (hle.trans (of_decide_eq_true ha).2 (of_decide_eq_true hb).1)
      by_cases ha : same le x a = true
      · have hb : ¬ same le x b = true := fun hb => hnot ⟨ha, hb⟩
        rw [List.cons_append, List.filter_cons_of_neg hb, ih, List.filter_cons_of_pos ha, List.filter_cons_of_pos ha,
          List.filter_cons_of_neg hb]
      · rw [List.cons_append, List.filter_cons, ih, List.filter_cons_of_neg ha, ← List.filter_cons, List.filter_cons_of_neg ha]
    · rw [List.cons_append, List.filter_cons, ih, ← List.filter_cons]

/-! ### The whole sort -/

/-- Every round moves the greatest element behind the others. -/
theorem rounds_spec (n : ℕ) {a : α} {xs : List α} (hn : xs.length = n) (ys : List α) :
    ∃ zs, rounds gt n (a :: (xs ++ ys)) = zs ++ ys ∧ SortOf le (a :: xs) zs := by
  induction n generalizing a xs ys with
  | zero =>
    rw [List.length_eq_zero_iff] at hn
    subst hn
    exact ⟨[a], rfl, List.pairwise_singleton le a, fun _ => rfl⟩
  | succ n ih =>
    have hround := @pass_eq α gt a xs ys
    rw [hn] at hround
    rw [rounds, hround]
    split_ifs with hswapped
    · have hlength := @length_carry α gt a xs
      obtain ⟨c, front, hfront⟩ := List.exists_cons_of_length_eq_add_one (hlength.trans hn)
      rw [hfront, List.length_cons, hn] at hlength
      obtain ⟨zs, hzs, hsort⟩ := ih (a := c) (Nat.succ.inj hlength) ((carry gt a xs).2 :: ys)
      rw [← hfront] at hsort
      refine ⟨zs ++ [(carry gt a xs).2], ?_, ?_, ?_⟩
      · rw [hfront, List.cons_append, hzs, List.append_assoc]
        rfl
      · refine List.pairwise_append.2 ⟨hsort.sorted, List.pairwise_singleton _ _, fun x hx y hy => ?_⟩
        rw [List.mem_singleton.1 hy]
        exact (le_carry hle hgt a xs).2 x ((hsort.mem_iff hle).1 hx)
      · intro x
        rw [List.filter_append, hsort.stable x, ← List.filter_append, filter_carry hle hgt]
    · have hnone : (pass gt xs.length (a :: (xs ++ ys))).2 = false := by
        rw [hn]
        exact Bool.eq_false_iff.2 hswapped
      obtain ⟨heq, hchain⟩ := pass_unchanged a xs ys hnone
      have hordered : (a :: xs).IsChain le := by
        refine hchain.imp fun x y hxy => ?_
        by_contra hnot
        rw [(hgt x y).2 hnot] at hxy
        cases hxy
      have : IsTrans α le := ⟨fun _ _ _ => hle.trans⟩
      refine ⟨a :: xs, ?_, hordered.pairwise, fun _ => rfl⟩
      rw [← heq, List.append_assoc]
      rfl

theorem sort_spec (xs : List α) : SortOf le xs (sort gt xs) := by
  cases xs with
  | nil => exact ⟨.nil, fun _ => rfl⟩
  | cons a xs =>
    obtain ⟨zs, hzs, hsort⟩ := rounds_spec hle hgt xs.length (a := a) rfl []
    rw [List.append_nil, List.append_nil] at hzs
    rw [sort, List.length_cons, Nat.add_sub_cancel, hzs]
    exact hsort

end Round

end Tg11Kernel.Lib.Bubble
