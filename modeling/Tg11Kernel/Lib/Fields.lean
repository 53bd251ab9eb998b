import Mathlib.Data.List.DropRight

/-! The fields of a text: its maximal runs without a separator. They do not depend on how many
separators stand between them, before them or after them. The stem of a text is what stands
before its last field. -/

namespace Tg11Kernel.Lib

variable {α : Type*} (sep : α → Bool)

def fields (l : List α) : List (List α) := (l.splitOnP sep).filter fun field => !field.isEmpty

/-- The text before the last field. -/
def stem (l : List α) : List α := (l.rdropWhile sep).rdropWhile fun c => !sep c

variable {sep} {l m field last : List α} {init : List (List α)} {c : α}

@[simp] theorem fields_nil : fields sep ([] : List α) = [] := by
  simp [fields]

theorem fields_append_cons (hc : sep c = true) : fields sep (l ++ c :: m) = fields sep l ++ fields sep m := by
  simp [fields, List.splitOnP_append_cons l m hc]

theorem fields_cons_sep (hc : sep c = true) : fields sep (c :: l) = fields sep l := by
  simpa using @fields_append_cons α sep [] l c hc

theorem fields_of_forall_not (hl : ∀ c ∈ l, sep c = false) (hne : l ≠ []) : fields sep l = [l] := by
  simp [fields, List.splitOnP_eq_singleton hl, hne]

theorem fields_field_append (hfield : ∀ c ∈ field, sep c = false) (hne : field ≠ []) (hc : sep c = true) :
    fields sep (field ++ c :: l) = field :: fields sep l := by
  rw [fields_append_cons hc, fields_of_forall_not hfield hne]
  rfl

/-- A loop that collects a field until a separator comes, and skips empty ones, finds the fields. -/
theorem fields_of_loop {loop : List α → List α → List (List α)} (hnil : ∀ field, loop [] field = if field = [] then [] else [field])
    (hcons : ∀ c l field, loop (c :: l) field =
      if sep c = true then if field = [] then loop l [] else field :: loop l [] else loop l (field ++ [c]))
    (l field : List α) (hfield : ∀ c ∈ field, sep c = false) : loop l field = fields sep (field ++ l) := by
  induction l generalizing field with
  | nil =>
    rw [hnil, List.append_nil]
    split_ifs with hempty
    · rw [hempty, fields_nil]
    · rw [fields_of_forall_not hfield hempty]
  | cons c l ih =>
    rw [hcons]
    split_ifs with hc hempty
    · rw [hempty, ih [] nofun, List.nil_append, List.nil_append, fields_cons_sep hc]
    · rw [ih [] nofun, fields_field_append hfield hempty hc, List.nil_append]
    · rw [ih (field ++ [c]), List.append_assoc, List.singleton_append]
      intro d hd
      rcases List.mem_append.1 hd with hd | hd
      · exact hfield d hd
      · rw [List.mem_singleton.1 hd]
        exact Bool.eq_false_iff.2 hc

theorem fields_of_forall (hl : ∀ c ∈ l, sep c = true) : fields sep l = [] := by
  induction l with
  | nil => simp
  | cons c l ih =>
    rw [fields_cons_sep (hl c (by simp))]
    exact ih fun d hd => hl d (by simp [hd])

theorem fields_append_seps (hm : ∀ c ∈ m, sep c = true) : fields sep (l ++ m) = fields sep l := by
  cases m with
  | nil => simp
  | cons c m =>
    have hrest : fields sep m = [] := fields_of_forall fun d hd => hm d (by simp [hd])
    rw [fields_append_cons (hm c (by simp)), hrest, List.append_nil]

theorem fields_append_field (hl : ∀ h : l ≠ [], sep (l.getLast h) = true) (hfield : ∀ c ∈ field, sep c = false) (hne : field ≠ []) :
    fields sep (l ++ field) = fields sep l ++ [field] := by
  rcases List.eq_nil_or_concat' l with rfl | ⟨l, c, rfl⟩
  · simp [fields_of_forall_not hfield hne]
  · have hc : sep c = true := by simpa using hl
    rw [List.append_assoc, List.singleton_append, fields_append_cons hc, fields_append_cons hc, fields_of_forall_not hfield hne]
    simp

theorem fields_dropWhile (l : List α) : fields sep (l.dropWhile sep) = fields sep l := by
  induction l with
  | nil => rfl
  | cons c l ih =>
    by_cases hc : sep c = true
    · rw [List.dropWhile_cons_of_pos hc, ih, fields_cons_sep hc]
    · rw [List.dropWhile_cons_of_neg hc]

/-- A field is not empty and has no separator. -/
theorem of_mem_fields (h : field ∈ fields sep l) : field ≠ [] ∧ ∀ c ∈ field, sep c = false := by
  have hsplit : ∀ part ∈ l.splitOnP sep, ∀ c ∈ part, sep c = false := by
    clear h
    induction l with
    | nil => simp
    | cons c l ih =>
      rw [List.splitOnP_cons_eq_if_modifyHead]
      by_cases hc : sep c = true
      · simpa [hc] using ih
      · rcases hl : l.splitOnP sep with _ | ⟨head, tail⟩
        · exact absurd hl (List.splitOnP_ne_nil sep l)
        · rw [hl] at ih
          obtain ⟨hhead, htail⟩ := List.forall_mem_cons.1 ih
          rw [if_neg hc, List.modifyHead_cons, List.forall_mem_cons]
          exact ⟨by simpa [hc] using hhead, htail⟩
  obtain ⟨hmem, hne⟩ := List.mem_filter.1 h
  exact ⟨by simpa using hne, hsplit field hmem⟩

/-- What is in a field is in the text. -/
theorem mem_of_mem_fields (h : field ∈ fields sep l) (hc : c ∈ field) : c ∈ l := by
  have hsplit : ∀ part ∈ l.splitOnP sep, ∀ c ∈ part, c ∈ l := by
    clear h
    induction l with
    | nil => simp
    | cons d l ih =>
      rw [List.splitOnP_cons_eq_if_modifyHead]
      rcases hl : l.splitOnP sep with _ | ⟨head, tail⟩
      · exact absurd hl (List.splitOnP_ne_nil sep l)
      · rw [hl] at ih
        split_ifs <;> simp at ih ⊢ <;> tauto
  exact hsplit field (List.mem_filter.1 h).1 c hc

/-- Fields with a separator after each have themselves for fields. -/
theorem fields_flatMap (hc : sep c = true) {parts : List (List α)}
    (h : ∀ part ∈ parts, part ≠ [] ∧ ∀ d ∈ part, sep d = false) : fields sep (parts.flatMap fun part => part ++ [c]) = parts := by
  induction parts with
  | nil => simp
  | cons part parts ih =>
    obtain ⟨hne, hpart⟩ := h part (by simp)
    rw [List.flatMap_cons, List.append_assoc, List.singleton_append, fields_field_append hpart hne hc,
      ih fun other ho => h other (by simp [ho])]

/-- Separators in front of the fields, instead of behind them. -/
theorem fields_flatMap_cons (hc : sep c = true) {parts : List (List α)}
    (h : ∀ part ∈ parts, part ≠ [] ∧ ∀ d ∈ part, sep d = false) : fields sep (parts.flatMap (c :: ·)) = parts := by
  induction parts with
  | nil => simp
  | cons part parts ih =>
    obtain ⟨⟨hne, hfield⟩, hrest⟩ := List.forall_mem_cons.1 h
    rw [List.flatMap_cons, List.cons_append, fields_cons_sep hc]
    cases parts with
    | nil => rw [List.flatMap_nil, List.append_nil, fields_of_forall_not hfield hne]
    | cons next parts =>
      have hih := ih hrest
      rw [List.flatMap_cons, List.cons_append, fields_cons_sep hc] at hih
      rw [List.flatMap_cons, List.cons_append, fields_field_append hfield hne hc, hih]

/-- What is left without the separators at the end has a field at its end. -/
theorem fields_eq_stem_append (hl : l.rdropWhile sep ≠ []) :
    fields sep l = fields sep (stem sep l) ++ [(l.rdropWhile sep).rtakeWhile fun c => !sep c] := by
  have hseps : fields sep l = fields sep (l.rdropWhile sep) := by
    nth_rewrite 1 [← @List.rdropWhile_append_rtakeWhile α sep l]
    exact fields_append_seps fun c hc => List.mem_rtakeWhile_imp hc
  have hfield : ∀ c ∈ (l.rdropWhile sep).rtakeWhile (fun c => !sep c), sep c = false := by
    intro c hc
    simpa using List.mem_rtakeWhile_imp hc
  have hne : (l.rdropWhile sep).rtakeWhile (fun c => !sep c) ≠ [] := by
    intro hnil
    have hlast := List.rtakeWhile_eq_nil_iff.1 hnil hl
    have hnot := List.rdropWhile_last_not sep l hl
    simp [hnot] at hlast
  have hend : ∀ h : stem sep l ≠ [], sep ((stem sep l).getLast h) = true := by
    intro h
    have hnot := List.rdropWhile_last_not (fun c => !sep c) (l.rdropWhile sep) h
    rwa [Bool.not_eq_true', Bool.not_eq_false] at hnot
  rw [hseps, ← fields_append_field hend hfield hne]
  exact congrArg _ List.rdropWhile_append_rtakeWhile.symm

/-- The fields before the last one are those of the stem. -/
theorem fields_stem (h : fields sep l = init ++ [last]) : fields sep (stem sep l) = init := by
  have hl : l.rdropWhile sep ≠ [] := by
    intro hnil
    rw [fields_of_forall (List.rdropWhile_eq_nil_iff.1 hnil)] at h
    simp at h
  rw [fields_eq_stem_append hl] at h
  exact (List.append_inj' h rfl).1

theorem isPrefix_stem (l : List α) : stem sep l <+: l := (List.rdropWhile_prefix _ _).trans (List.rdropWhile_prefix _ _)

theorem head?_stem (h : stem sep l ≠ []) : (stem sep l).head? = l.head? := by
  obtain ⟨rest, hrest⟩ := @isPrefix_stem α sep l
  conv_rhs => rw [← hrest, List.head?_append_of_ne_nil _ h]

/-- A text whose only field has nothing before it does not start with a separator. -/
theorem head_of_stem_nil (hstem : stem sep l = []) (hne : fields sep l ≠ []) (hc : l.head? = some c) : sep c = false := by
  have hl : l.rdropWhile sep ≠ [] := by
    intro hnil
    exact hne (fields_of_forall (List.rdropWhile_eq_nil_iff.1 hnil))
  have hhead : (l.rdropWhile sep).head? = some c := by
    obtain ⟨rest, hrest⟩ := List.rdropWhile_prefix sep l
    rwa [← hrest, List.head?_append_of_ne_nil _ hl] at hc
  have hall := List.rdropWhile_eq_nil_iff.1 hstem c (List.mem_of_head? hhead)
  simpa using hall

end Tg11Kernel.Lib

/-! Paths as lists of names, two of which are special: one stays where it is and one goes up.
The normal form of a path has neither, and from the root it leads where the path leads. A fold
that stops at a bound computes the same as the fold without, as long as the bound is kept. -/

namespace Tg11Kernel.Lib

section Lexical

variable {α : Type*} [DecidableEq α] (here up : α)

/-- One name further. At the root, going up stays there. -/
def walk (parts : List α) (name : α) : List α := if name = here then parts else if name = up then parts.dropLast else parts ++ [name]

/-- The path without the special names. -/
def normalise (names : List α) : List α := names.foldl (walk here up) []

variable {here up} {parts names : List α} {name other : α}

theorem foldl_walk_plain (h : ∀ name ∈ names, name ≠ here ∧ name ≠ up) : names.foldl (walk here up) parts = parts ++ names := by
  induction names generalizing parts with
  | nil => simp
  | cons name names ih =>
    obtain ⟨⟨hhere, hup⟩, hrest⟩ := List.forall_mem_cons.1 h
    rw [List.foldl_cons, walk, if_neg hhere, if_neg hup, ih hrest, List.append_assoc, List.singleton_append]

theorem normalise_plain (h : ∀ name ∈ names, name ≠ here ∧ name ≠ up) : normalise here up names = names := foldl_walk_plain h

theorem mem_walk (h : name ∈ walk here up parts other) : name ∈ parts ∨ name = other ∧ name ≠ here ∧ name ≠ up := by
  unfold walk at h
  split_ifs at h with hhere hup
  · exact .inl h
  · exact .inl (List.dropLast_subset _ h)
  · rcases List.mem_append.1 h with h | h
    · exact .inl h
    · obtain rfl := List.mem_singleton.1 h
      exact .inr ⟨rfl, hhere, hup⟩

/-- The names of a normal form are names of the path, and none of them is special. -/
theorem mem_normalise (h : name ∈ normalise here up names) : name ∈ names ∧ name ≠ here ∧ name ≠ up := by
  have hfold : ∀ (names parts : List α), name ∈ names.foldl (walk here up) parts → name ∈ parts ∨ name ∈ names ∧ name ≠ here ∧ name ≠ up := by
    intro names
    induction names with
    | nil => exact fun parts h => .inl h
    | cons other names ih =>
      intro parts h
      rcases ih _ h with h | ⟨hmem, hplain⟩
      · rcases mem_walk h with h | ⟨rfl, hplain⟩
        · exact .inl h
        · exact .inr ⟨List.mem_cons_self, hplain⟩
      · exact .inr ⟨List.mem_cons_of_mem _ hmem, hplain⟩
  exact (hfold names [] h).resolve_left List.not_mem_nil

end Lexical

/-! ### Folds with a bound -/

section Bounded

variable {α β : Type*} {f : β → α → β} {step : β → α → Option β} {ok : β → Prop} {fits : α → Prop} {b r : β} {l : List α}

/-- A fold that stops where an element does not fit or the value is out of bounds. -/
theorem foldlM_bounded (hstep : ∀ b a r, ok b → (step b a = some r ↔ (fits a ∧ ok (f b a)) ∧ r = f b a)) (hb : ok b) :
    l.foldlM step b = some r ↔ ((∀ a ∈ l, fits a) ∧ ∀ k, ok ((l.take k).foldl f b)) ∧ r = l.foldl f b := by
  induction l generalizing b with
  | nil => simpa [hb] using eq_comm
  | cons a l ih =>
    rw [List.foldlM_cons, Option.bind_eq_bind, Option.bind_eq_some_iff]
    constructor
    · rintro ⟨b', hb', hr⟩
      obtain ⟨⟨hfits, hok⟩, rfl⟩ := (hstep b a b' hb).1 hb'
      obtain ⟨⟨hall, hprefix⟩, rfl⟩ := (ih hok).1 hr
      refine ⟨⟨List.forall_mem_cons.2 ⟨hfits, hall⟩, fun k => ?_⟩, rfl⟩
      cases k with
      | zero => exact hb
      | succ k => exact hprefix k
    · rintro ⟨⟨hall, hprefix⟩, rfl⟩
      obtain ⟨hfits, hall⟩ := List.forall_mem_cons.1 hall
      have hok : ok (f b a) := by simpa using hprefix 1
      refine ⟨f b a, (hstep b a _ hb).2 ⟨⟨hfits, hok⟩, rfl⟩, (ih hok).2 ⟨⟨hall, fun k => ?_⟩, rfl⟩⟩
      simpa using hprefix (k + 1)

end Bounded

end Tg11Kernel.Lib
