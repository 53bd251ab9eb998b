import Mathlib.Data.List.Basic

/-! Code that reports items on the way and may stop with an error; the items reported
before an error are kept. A rule says what holds of all the items, of a value and of an
error. -/

namespace Tg11Kernel.Lib

/-- The items so far go in, an outcome and the items at the end come out. -/
def Report (ι ε α : Type) := List ι → Except ε α × List ι

/-- An outcome with a value in `Q` or an error in `E`. -/
inductive Within {ε α : Type} (Q : α → Prop) (E : ε → Prop) : Except ε α → Prop
  | ok {a : α} (h : Q a) : Within Q E (.ok a)
  | error {e : ε} (h : E e) : Within Q E (.error e)

namespace Within

variable {ε α β : Type} {Q : α → Prop} {T : β → Prop} {E : ε → Prop}

theorem of_ok {a : α} : Within Q E (.ok a : Except ε α) → Q a
  | .ok h => h

theorem of_error {e : ε} : Within Q E (.error e : Except ε α) → E e
  | .error h => h

variable {m : Except ε α} {b : β}

theorem bind {f : α → Except ε β} (h : Within Q E m) (hf : ∀ a, m = .ok a → Q a → Within T E (f a)) :
    Within T E (m >>= f) := by
  cases h with
  | ok h => exact hf _ rfl h
  | error h => exact .error h

theorem mono {Q' : α → Prop} (h : Within Q E m) (hQ : ∀ a, Q a → Q' a) : Within Q' E m := by
  cases h with
  | ok h => exact .ok (hQ _ h)
  | error h => exact .error h

theorem ite {p : Prop} [Decidable p] {m' : Except ε α} (h : p → Within Q E m) (h' : ¬ p → Within Q E m') :
    Within Q E (if p then m else m') := by
  split_ifs with hp
  · exact h hp
  · exact h' hp

theorem forM {γ : Type} {f : γ → Except ε Unit} {l : List γ} (hf : ∀ c ∈ l, Within (fun _ => True) E (f c)) :
    Within (fun _ => True) E (l.forM f) := by
  induction l with
  | nil => exact .ok trivial
  | cons c l ih =>
    apply (hf c List.mem_cons_self).bind
    exact fun _ _ _ => ih fun d hd => hf d (List.mem_cons_of_mem c hd)

theorem foldlM {γ : Type} {f : β → γ → Except ε β} {l : List γ} (hb : T b)
    (hf : ∀ b, T b → ∀ c ∈ l, Within T E (f b c)) : Within T E (l.foldlM f b) := by
  induction l generalizing b with
  | nil => exact .ok hb
  | cons c l ih =>
    rw [List.foldlM_cons]
    apply bind (hf b hb c (by simp))
    intro b' _ hb'
    exact ih hb' fun b'' hb'' d hd => hf b'' hb'' d (List.mem_cons_of_mem _ hd)

/-- Every step of a fold that ends knows something of its item. -/
theorem foldlM_all {γ : Type} {R : γ → Prop} {f : β → γ → Except ε β} {l : List γ}
    (hf : ∀ b, ∀ c ∈ l, Within (fun _ => R c) E (f b c)) : Within (fun _ => ∀ c ∈ l, R c) E (l.foldlM f b) := by
  induction l generalizing b with
  | nil => exact .ok nofun
  | cons c l ih =>
    rw [List.foldlM_cons]
    apply bind (hf b c (by simp))
    intro b' _ hc
    apply (ih fun b'' d hd => hf b'' d (List.mem_cons_of_mem _ hd)).mono
    intro _ hl d hd
    rcases List.mem_cons.1 hd with rfl | hd
    · exact hc
    · exact hl d hd

end Within

namespace Report

variable {ι ε α β : Type}

instance : Monad (Report ι ε) where
  pure a := fun l => (.ok a, l)
  bind m f := fun l =>
    match m l with
    | (.ok a, l') => f a l'
    | (.error e, l') => (.error e, l')

def report (i : ι) : Report ι ε Unit := fun l => (.ok (), l ++ [i])

/-- What was reported so far. -/
def reported : Report ι ε (List ι) := fun l => (.ok l, l)

/-- Code that reports nothing. -/
def lift (r : Except ε α) : Report ι ε α := fun l => (r, l)

/-- Calls the body for one item after the other, until it answers to stop. -/
def untilStop (body : α → Report ι ε Bool) : List α → Report ι ε Bool
  | [] => pure false
  | a :: l => do
    let stop ← body a
    if stop = true then pure true else untilStop body l

variable {m : Report ι ε α} {f : α → Report ι ε β} {l l' : List ι}

theorem bind_ok {a : α} (h : m l = (.ok a, l')) : (m >>= f) l = f a l' := by
  change (match m l with
    | (.ok a, l') => f a l'
    | (.error e, l') => (.error e, l')) = f a l'
  rw [h]

theorem bind_error {e : ε} (h : m l = (.error e, l')) :
    (m >>= f) l = (.error e, l') := by
  change (match m l with
    | (.ok a, l') => f a l'
    | (.error e, l') => (.error e, l')) = (.error e, l')
  rw [h]

theorem lift_ok (a : α) (l : List ι) : (lift (.ok a) : Report ι ε α) l = (.ok a, l) := rfl

/-- A body that never stops adds its items for each argument. -/
theorem untilStop_eq {body : α → Report ι ε Bool} {g : α → List ι} {l : List α} (items : List ι)
    (h : ∀ a ∈ l, ∀ items, body a items = (.ok false, items ++ g a)) :
    untilStop body l items = (.ok false, items ++ l.flatMap g) := by
  induction l generalizing items with
  | nil =>
    rw [List.flatMap_nil, List.append_nil]
    rfl
  | cons a l ih =>
    unfold untilStop
    rw [bind_ok (h a (by simp) items)]
    rw [if_neg (by simp), ih _ fun b hb => h b (List.mem_cons_of_mem _ hb), List.flatMap_cons, List.append_assoc]

/-- If all items so far satisfy `P`, so do all at the end, and the outcome is within bounds. -/
def Keeps (P : ι → Prop) (Q : α → Prop) (E : ε → Prop) (m : Report ι ε α) : Prop :=
  ∀ l : List ι, (∀ i ∈ l, P i) → (∀ i ∈ (m l).2, P i) ∧ Within Q E (m l).1

namespace Keeps

variable {P : ι → Prop} {Q : α → Prop} {T : β → Prop} {E : ε → Prop}

theorem pure {a : α} (h : Q a) : Keeps P Q E (Pure.pure a : Report ι ε α) := fun _ hl => ⟨hl, .ok h⟩

theorem lift {r : Except ε α} (h : Within Q E r) : Keeps P Q E (Report.lift r : Report ι ε α) := fun _ hl => ⟨hl, h⟩

theorem report {i : ι} (h : P i) : Keeps P (fun _ => True) E (Report.report i : Report ι ε Unit) := by
  intro l hl
  refine ⟨fun j hj => ?_, .ok trivial⟩
  rcases List.mem_append.1 hj with hj | hj
  · exact hl j hj
  · rw [List.mem_singleton.1 hj]
    exact h

theorem reported : Keeps P (fun _ => True) E (Report.reported : Report ι ε (List ι)) := fun _ hl => ⟨hl, .ok trivial⟩

variable {m : Report ι ε α} {body : α → Report ι ε Bool} {l : List α}

theorem bind {f : α → Report ι ε β} (h : Keeps P Q E m) (hf : ∀ a, Q a → Keeps P T E (f a)) :
    Keeps P T E (m >>= f) := by
  intro l hl
  have hm := h l hl
  have hbind : (m >>= f) l = match m l with
      | (.ok a, l') => f a l'
      | (.error e, l') => (.error e, l') := rfl
  rw [hbind]
  generalize m l = r at hm ⊢
  obtain ⟨out, l'⟩ := r
  cases out with
  | ok a => exact hf a hm.2.of_ok l' hm.1
  | error e => exact ⟨hm.1, .error hm.2.of_error⟩

theorem untilStop (h : ∀ a ∈ l, Keeps P (fun _ => True) E (body a)) :
    Keeps P (fun _ => True) E (Report.untilStop body l) := by
  induction l with
  | nil => exact pure trivial
  | cons a l ih =>
    apply bind (h a (by simp))
    intro stop _
    split_ifs
    · exact pure trivial
    · exact ih fun b hb => h b (List.mem_cons_of_mem _ hb)

theorem mono {Q' : α → Prop} (h : Keeps P Q E m) (hQ : ∀ a, Q a → Q' a) : Keeps P Q' E m :=
  fun l hl => ⟨(h l hl).1, (h l hl).2.mono hQ⟩

/-- A body that never stops runs for every item. -/
theorem untilStop_all {R : α → Prop}
    (h : ∀ a ∈ l, Keeps P (fun stop => stop = false ∧ R a) E (body a)) :
    Keeps P (fun stop => stop = false ∧ ∀ a ∈ l, R a) E (Report.untilStop body l) := by
  induction l with
  | nil => exact pure ⟨rfl, nofun⟩
  | cons a l ih =>
    apply bind (h a (by simp))
    rintro stop ⟨rfl, ha⟩
    rw [if_neg (by simp)]
    apply (ih fun b hb => h b (List.mem_cons_of_mem _ hb)).mono
    rintro stop ⟨hstop, hl⟩
    refine ⟨hstop, fun b hb => ?_⟩
    rcases List.mem_cons.1 hb with rfl | hb
    · exact ha
    · exact hl b hb

end Keeps

end Report

end Tg11Kernel.Lib
