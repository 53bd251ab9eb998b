import Tg11Kernel.Lib.Chain

/-! Rooted trees by their way up. Every node but the root has a parent and a label, and a node
stands at the labels on the way down to it. Where siblings have different labels, a path of
labels belongs to one node; a node that is hung up elsewhere under a new label takes everything
below it along, and nothing else moves. -/

namespace Tg11Kernel.Lib

structure Rooted (ι κ : Type) where
  root : ι
  live : ι → Prop
  up : ι → Option ι
  label : ι → κ

namespace Rooted

variable {ι κ : Type} {T : Rooted ι κ} {i j p : ι} {names rest : List κ}

/-- The labels on the way down to a node. -/
inductive At (T : Rooted ι κ) : ι → List κ → Prop
  | root : At T T.root []
  | child {i p : ι} {names : List κ} (hne : i ≠ T.root) (hlive : T.live i) (hup : T.up i = some p) (hp : At T p names) :
      At T i (names ++ [T.label i])

/-- Siblings have different labels. -/
def Siblings (T : Rooted ι κ) : Prop :=
  ∀ i j p, i ≠ T.root → j ≠ T.root → T.live i → T.live j → T.up i = some p → T.up j = some p → T.label i = T.label j → i = j

namespace At

theorem eq_root (h : T.At i []) : i = T.root := by
  generalize hnil : ([] : List κ) = names at h
  cases h with
  | root => rfl
  | child => simp at hnil

/-- The node one step up. -/
theorem parent {x : κ} (h : T.At i (names ++ [x])) : ∃ p, i ≠ T.root ∧ T.live i ∧ T.up i = some p ∧ T.label i = x ∧ T.At p names := by
  generalize hcons : names ++ [x] = all at h
  cases h with
  | root => simp at hcons
  | child hne hlive hup hp =>
    obtain ⟨rfl, hx⟩ := List.append_inj' hcons rfl
    exact ⟨_, hne, hlive, hup, (List.singleton_inj.1 hx).symm, hp⟩

theorem unique_names {names' : List κ} (h : T.At i names) (h' : T.At i names') : names = names' := by
  induction h generalizing names' with
  | root =>
    cases h' with
    | root => rfl
    | child hne => exact absurd rfl hne
  | child hne hlive hup hp ih =>
    cases h' with
    | root => exact absurd rfl hne
    | child hne' hlive' hup' hp' =>
      obtain rfl := Option.some.inj (hup.symm.trans hup')
      rw [ih hp']

theorem unique_node (hs : T.Siblings) (h : T.At i names) (h' : T.At j names) : i = j := by
  induction h generalizing j with
  | root => exact h'.eq_root.symm
  | child hne hlive hup hp ih =>
    obtain ⟨q, hne', hlive', hup', hlabel, hq⟩ := h'.parent
    obtain rfl := ih hq
    exact hs _ _ _ hne hne' hlive hlive' hup hup' hlabel.symm

/-- The nodes that a path leads through are on the way up. -/
theorem mem_up (hs : T.Siblings) (ha : T.At j names) (h : T.At i (names ++ rest)) {l : List ι} (hl : IsChain T.up (some i) l) :
    j ∈ l := by
  induction rest using List.reverseRecOn generalizing i l with
  | nil =>
    rw [List.append_nil] at h
    rw [ha.unique_node hs h]
    exact hl.head_mem
  | append_singleton rest x ih =>
    rw [← List.append_assoc] at h
    obtain ⟨p, -, -, hup, -, hp⟩ := h.parent
    cases l with
    | nil => simp [IsChain.nil_iff] at hl
    | cons a l =>
      obtain ⟨hi, hl⟩ := hl
      obtain rfl := Option.some.inj hi
      rw [hup] at hl
      exact List.mem_cons_of_mem _ (ih hp hl)

end At

/-! ### Hanging a node up elsewhere -/

/-- Two trees that differ in the parent and the label of one node. -/
structure Rehung (T T' : Rooted ι κ) (a d : ι) (x : κ) : Prop where
  root : T'.root = T.root
  live : ∀ i, T'.live i ↔ T.live i
  up : ∀ i ≠ a, T'.up i = T.up i
  label : ∀ i ≠ a, T'.label i = T.label i
  up_self : T'.up a = some d
  label_self : T'.label a = x

section Rehung

variable {T' : Rooted ι κ} {a d : ι} {x : κ} {A P : List κ} (h : Rehung T T' a d x) (hs : T.Siblings) (ha : a ≠ T.root) (hlive : T.live a)
  (hA : T.At a A) (hP : T.At d P) (hnew : ∀ i, ¬ T.At i (P ++ [x])) (hbelow : ¬ A <+: P)

include h hs hA

/-- What is not below the node stays where it is. -/
theorem Rehung.stays (hi : T.At i names) (hnot : ¬ A <+: names) : T'.At i names := by
  induction hi with
  | root =>
    rw [← h.root]
    exact At.root
  | @child i p names hne hlivei hup hp ih =>
    have hia : i ≠ a := by
      rintro rfl
      exact hnot (by rw [(At.child hne hlivei hup hp).unique_names hA])
    have hp' := ih fun hpre => hnot (hpre.trans (List.prefix_append _ _))
    rw [← h.label i hia]
    exact At.child (by rwa [h.root]) ((h.live i).2 hlivei) (by rwa [h.up i hia]) hp'

include ha hlive hP hbelow

theorem Rehung.moves (hi : T.At i (A ++ rest)) : T'.At i (P ++ x :: rest) := by
  induction rest using List.reverseRecOn generalizing i with
  | nil =>
    rw [List.append_nil] at hi
    obtain rfl := hi.unique_node hs hA
    have hself := At.child (by rwa [h.root]) ((h.live i).2 hlive) h.up_self (h.stays hs hA hP hbelow)
    rwa [h.label_self] at hself
  | append_singleton rest y ih =>
    have hall := hi
    rw [← List.append_assoc] at hi
    obtain ⟨p, hne, hlivei, hup, rfl, hp⟩ := hi.parent
    have hia : i ≠ a := by
      rintro rfl
      have hlen := congrArg List.length (hall.unique_names hA)
      simp at hlen
    have hp' := At.child (by rwa [h.root]) ((h.live i).2 hlivei) (by rwa [h.up i hia]) (ih hp)
    rw [h.label i hia] at hp'
    simpa using hp'

include hnew

/-- The paths of the tree afterwards: the path of the node is replaced on everything at or below it. -/
theorem Rehung.at_iff : T'.At i names ↔ (∃ rest, names = P ++ x :: rest ∧ T.At i (A ++ rest)) ∨ (¬ A <+: names ∧ T.At i names) := by
  constructor
  · intro hi
    induction hi with
    | root =>
      rw [h.root]
      refine .inr ⟨fun hpre => ?_, At.root⟩
      rw [List.prefix_nil] at hpre
      subst hpre
      exact ha hA.eq_root
    | @child i p names hne hlivei hup hp ih =>
      rw [h.root] at hne
      rw [h.live] at hlivei
      rcases eq_or_ne i a with rfl | hia
      · -- the node itself, at its new parent
        obtain rfl := Option.some.inj (h.up_self.symm.trans hup)
        rw [h.label_self]
        rcases ih with ⟨rest, -, hold⟩ | ⟨-, hold⟩
        · exact absurd ⟨rest, hold.unique_names hP⟩ hbelow
        · obtain rfl := hold.unique_names hP
          exact .inl ⟨[], rfl, by rwa [List.append_nil]⟩
      · rw [h.up i hia] at hup
        rw [h.label i hia]
        rcases ih with ⟨rest, rfl, hold⟩ | ⟨hnot, hold⟩
        · have hchild := At.child hne hlivei hup hold
          exact .inl ⟨rest ++ [T.label i], by simp, by rwa [← List.append_assoc]⟩
        · refine .inr ⟨fun hpre => ?_, At.child hne hlivei hup hold⟩
          rcases List.prefix_concat_iff.1 hpre with rfl | hpre
          · exact hia ((At.child hne hlivei hup hold).unique_node hs hA)
          · exact hnot hpre
  · rintro (⟨rest, rfl, hi⟩ | ⟨hnot, hi⟩)
    · exact h.moves hs ha hlive hA hP hbelow hi
    · exact h.stays hs hA hi hnot

end Rehung

end Rooted

end Tg11Kernel.Lib

/-! Intrusive lists. Every owner points at the first member of its list and every
member at the one after it, so the lists of all owners are chains of one link
function. An edit of one list rewrites one or two links; it leaves the other
lists alone because no member is in two of them. -/

namespace Tg11Kernel.Lib

variable {ι α : Type}

/-- The heads of the lists, and the links of the members. -/
@[ext] structure Links (ι α : Type) where
  first : ι → Option α
  next : α → Option α

namespace Links

/-- The members of every owner's list, in order. -/
def Lists (L : Links ι α) (lists : ι → List α) : Prop := ∀ p, IsChain L.next (L.first p) (lists p)

/-- Only the heads and the links of members matter. -/
theorem Lists.of_next {L L' : Links ι α} {lists : ι → List α} (h : L.Lists lists) (hfirst : L'.first = L.first)
    (hnext : ∀ p, ∀ a ∈ lists p, L'.next a = L.next a) : L'.Lists lists := by
  intro p
  rw [hfirst]
  exact (h p).congr (hnext p)

variable [DecidableEq ι] [DecidableEq α] {L : Links ι α} {lists : ι → List α} {p : ι} {a b : α} {l₁ l₂ : List α}

/-- `a` becomes the first member of `p`. -/
def push (L : Links ι α) (p : ι) (a : α) : Links ι α where
  first := Function.update L.first p (some a)
  next := Function.update L.next a (L.first p)

/-- The link to `a`, at the member before it or else at the head, goes past it. -/
def unlink (L : Links ι α) (p : ι) (prev : Option α) (a : α) : Links ι α :=
  match prev with
  | none => { L with first := Function.update L.first p (L.next a) }
  | some b => { L with next := Function.update L.next b (L.next a) }

theorem Lists.push (h : L.Lists lists) (ha : ∀ q, a ∉ lists q) :
    (L.push p a).Lists (Function.update lists p (a :: lists p)) := by
  have hold : ∀ q, IsChain (L.push p a).next (L.first q) (lists q) := by
    intro q
    refine (h q).congr fun b hb => Function.update_of_ne ?_ _ _
    rintro rfl
    exact ha q hb
  intro q
  by_cases hq : q = p
  · subst hq
    rw [Function.update_self]
    refine ⟨Function.update_self .., ?_⟩
    rw [show (L.push q a).next a = L.first q from Function.update_self ..]
    exact hold q
  · rw [Function.update_of_ne hq, show (L.push p a).first q = L.first q from Function.update_of_ne hq _ _]
    exact hold q

/-- A link that goes past the next place leaves that place out. -/
theorem isChain_bypass {next : α → Option α} {o : Option α} (h : IsChain next o (l₁ ++ b :: a :: l₂)) :
    IsChain (Function.update next b (next a)) o (l₁ ++ b :: l₂) := by
  have hnodup := h.nodup
  induction l₁ generalizing o with
  | nil =>
    obtain ⟨rfl, -, h⟩ := h
    refine ⟨rfl, ?_⟩
    rw [Function.update_self]
    refine h.congr fun c hc => Function.update_of_ne ?_ _ _
    rintro rfl
    simp [hc] at hnodup
  | cons c l₁ ih =>
    obtain ⟨rfl, h⟩ := h
    rw [List.cons_append, List.nodup_cons] at hnodup
    refine ⟨rfl, ?_⟩
    rw [Function.update_of_ne fun hcb => hnodup.1 (by simp [hcb])]
    exact ih h hnodup.2

theorem Lists.unlink (h : L.Lists lists) (hp : lists p = l₁ ++ a :: l₂) (hd : ∀ b ∈ lists p, ∀ q ≠ p, b ∉ lists q) :
    (L.unlink p l₁.getLast? a).Lists (Function.update lists p (l₁ ++ l₂)) := by
  have hchain := h p
  rw [hp] at hchain
  intro q
  cases hlast : l₁.getLast? with
  | none =>
    obtain rfl := List.getLast?_eq_none_iff.1 hlast
    by_cases hq : q = p
    · subst hq
      simpa only [Links.unlink, Function.update_self, List.nil_append] using hchain.2
    · simpa only [Links.unlink, Function.update_of_ne hq] using h q
  | some b =>
    obtain ⟨l, rfl⟩ := List.getLast?_eq_some_iff.1 hlast
    by_cases hq : q = p
    · subst hq
      simp only [List.append_assoc, List.singleton_append] at hchain
      simpa only [Links.unlink, Function.update_self, List.append_assoc, List.singleton_append]
        using isChain_bypass hchain
    · simp only [Links.unlink, Function.update_of_ne hq]
      refine (h q).congr fun c hc => Function.update_of_ne ?_ _ _
      rintro rfl
      exact hd c (by simp [hp]) q hq hc

end Links

end Tg11Kernel.Lib
