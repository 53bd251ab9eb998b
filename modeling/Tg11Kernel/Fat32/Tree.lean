import Tg11Kernel.Fat32.Lookup

/-! The tree of directories on a disk and what makes a volume consistent: the live
entries start chains that end, two chains share no cluster, and nothing follows the
end mark of a directory. Paths are walked along directories only, so two disks with
the same directories resolve every path alike. -/

namespace Tg11Kernel.Fat32

open Lib Exec

variable {δ : Type} {fs : Fat32State δ} {dev : BlockDevice δ} {content : δ → ℕ → Sector} {disk disk' : ℕ → Sector}

/-! ### Names -/

/-- The names of a directory's links to itself and to its parent. -/
def DotName (name83 : Name83) : Prop := name83 = dot83 ∨ name83 = dotdot83

theorem upcase_ne_dot {c : UInt8} (h : c ≠ 46) : upcase c ≠ 46 := by
  unfold upcase
  split_ifs with hcase
  · intro heq
    have h97 : (97 : UInt8).toNat ≤ c.toNat := UInt8.le_iff_toNat_le.1 hcase.1
    have h122 : c.toNat ≤ (122 : UInt8).toNat := UInt8.le_iff_toNat_le.1 hcase.2
    have hval := congrArg UInt8.toNat heq
    rw [UInt8.toNat_sub_of_le _ _ (UInt8.le_iff_toNat_le.2 (le_trans (by decide) h97))] at hval
    simp at h97 h122 hval
    omega
  · exact h

variable {name : Path} {name83 : Name83} {d fuel cur : ℕ} {l : List ℕ}

/-- No dot gets into the base of a name. -/
theorem nameTo83Loop_base {inExt : Bool} {base ext base' ext' : List UInt8} (hbase : 46 ∉ base)
    (h : nameTo83Loop name inExt base ext = some (base', ext')) : 46 ∉ base' := by
  induction name generalizing inExt base ext with
  | nil =>
    obtain ⟨rfl, -⟩ := Prod.mk.inj (Option.some.inj h)
    exact hbase
  | cons ch name ih =>
    rw [nameTo83Loop] at h
    split_ifs at h with hsep hdot hext hnot hlen hlen
    · exact ih hbase h
    · refine ih ?_ h
      simp only [List.mem_append, List.mem_singleton, not_or]
      exact ⟨hbase, fun heq => hdot heq.symm⟩
    · exact ih hbase h

theorem not_dotName (h : nameTo83 name = some name83) : ¬ DotName name83 := by
  unfold nameTo83 at h
  rcases hloop : nameTo83Loop name false [] [] with _ | ⟨base, ext⟩
  · rw [hloop] at h
    simp at h
  · rw [hloop] at h
    dsimp only at h
    split_ifs at h with hlen
    obtain rfl : _ = name83 := Option.some.inj h
    have hbase := nameTo83Loop_base (by simp) hloop
    obtain ⟨b, base, rfl⟩ := List.exists_cons_of_ne_nil (fun hnil => hlen (by rw [hnil]; rfl) : base ≠ [])
    have hfirst : name83Of (b :: base) ext ⟨0, by omega⟩ = b := by simp [name83Of]
    rintro (heq | heq)
    · rw [heq] at hfirst
      exact hbase (by simp [← hfirst, dot83])
    · rw [heq] at hfirst
      exact hbase (by simp [← hfirst, dotdot83])

/-! ### The tree -/

/-- The slots of a directory before its end mark. -/
def usedSlots (disk : ℕ → Sector) (slots : List Slot) : List Slot :=
  slots.takeWhile fun s => (slotEntry disk s).first ≠ 0x00

/-- Only the places of the end marks matter to where a directory ends. -/
theorem usedSlots_congr {slots : List Slot}
    (h : ∀ t ∈ slots, (slotEntry disk' t).first = 0x00 ↔ (slotEntry disk t).first = 0x00) :
    usedSlots disk' slots = usedSlots disk slots := by
  induction slots with
  | nil => rfl
  | cons t slots ih =>
    have hrest := ih fun u hu => h u (by simp [hu])
    unfold usedSlots at hrest ⊢
    by_cases hend : (slotEntry disk t).first = 0x00
    · rw [List.takeWhile_cons_of_neg (by simp [(h t (by simp)).2 hend]), List.takeWhile_cons_of_neg (by simp [hend])]
    · have hend' : (slotEntry disk' t).first ≠ 0x00 := fun heq => hend ((h t (by simp)).1 heq)
      rw [List.takeWhile_cons_of_pos (by simpa using hend'), List.takeWhile_cons_of_pos (by simpa using hend), hrest]

/-- An entry that is neither deleted nor part of a long name. -/
def Entry.InUse (e : Entry) : Prop := e.first ≠ 0xE5 ∧ e.attr ≠ FAT32_ATTR_LFN

/-- The directories, by their first cluster. -/
inductive Dir (fs : Fat32State δ) (disk : ℕ → Sector) : ℕ → Prop
  | root : Dir fs disk fs.rootCluster
  | sub {d : ℕ} {l : List ℕ} {s : Slot} (hd : Dir fs disk d) (hl : Chain fs disk d l)
      (hs : s ∈ usedSlots disk (dirSlots fs l)) (huse : (slotEntry disk s).InUse) (hdot : ¬ DotName (slotEntry disk s).name)
      (hdir : (slotEntry disk s).isDir) (hc : 2 ≤ (slotEntry disk s).firstCluster) : Dir fs disk (slotEntry disk s).firstCluster

/-- A live entry of the volume. -/
def Live (fs : Fat32State δ) (disk : ℕ → Sector) (s : Slot) : Prop :=
  (∃ d l, Dir fs disk d ∧ Chain fs disk d l ∧ s ∈ usedSlots disk (dirSlots fs l)) ∧ (slotEntry disk s).InUse

/-- A live entry other than a directory's links to itself and its parent. -/
def Owner (fs : Fat32State δ) (disk : ℕ → Sector) (s : Slot) : Prop := Live fs disk s ∧ ¬ DotName (slotEntry disk s).name

/-- The start of a chain in use. -/
def Head (fs : Fat32State δ) (disk : ℕ → Sector) (c : ℕ) : Prop :=
  c = fs.rootCluster ∨ ∃ s, Owner fs disk s ∧ (slotEntry disk s).firstCluster = c ∧ 2 ≤ c

/-- Live entries start disjoint chains that end, and directories end where they say. -/
structure Consistent (fs : Fat32State δ) (disk : ℕ → Sector) : Prop where
  root : ∃ l, Chain fs disk fs.rootCluster l
  chain : ∀ s, Live fs disk s → (slotEntry disk s).firstCluster = 0 ∨ ∃ l, Chain fs disk (slotEntry disk s).firstCluster l
  dot : ∀ s, Live fs disk s → DotName (slotEntry disk s).name →
    (slotEntry disk s).firstCluster = 0 ∨ Dir fs disk (slotEntry disk s).firstCluster
  single : ∀ s t, Owner fs disk s → Owner fs disk t → (slotEntry disk s).firstCluster ≠ 0 →
    (slotEntry disk s).firstCluster = (slotEntry disk t).firstCluster → s = t
  notRoot : ∀ s, Owner fs disk s → (slotEntry disk s).firstCluster ≠ fs.rootCluster
  disjoint : ∀ c d l l', Head fs disk c → Head fs disk d → c ≠ d → Chain fs disk c l → Chain fs disk d l' → l.Disjoint l'
  ended : ∀ d l, Dir fs disk d → Chain fs disk d l →
    ∀ s ∈ (dirSlots fs l).dropWhile (fun s => (slotEntry disk s).first ≠ 0x00), (slotEntry disk s).first = 0x00

namespace Consistent

variable (h : Consistent fs disk)

include h

theorem dir_chain {d : ℕ} (hd : Dir fs disk d) : ∃ l, Chain fs disk d l := by
  cases hd with
  | root => exact h.root
  | sub hd hl hs huse hdot hdir hc =>
    rcases h.chain _ ⟨⟨_, _, hd, hl, hs⟩, huse⟩ with hzero | hchain
    · omega
    · exact hchain

end Consistent

theorem live_of_lookup (hd : Dir fs disk d) (hl : Chain fs disk d l) {found : Found}
    (hfound : lookup disk name83 (dirSlots fs l) = some found) :
    Live fs disk (found.1, found.2.1) ∧ found.2.2 = slotEntry disk (found.1, found.2.1) ∧ found.2.2.name = name83 := by
  obtain ⟨hmem, heq, hfirst, hattr, hname⟩ := lookup_some hfound
  refine ⟨⟨⟨d, l, hd, hl, hmem⟩, ?_⟩, heq, hname⟩
  rw [← heq]
  exact ⟨hfirst, hattr⟩

theorem Dir.head (hd : Dir fs disk d) :
    d = fs.rootCluster ∨ ∃ s, Owner fs disk s ∧ (slotEntry disk s).firstCluster = d ∧ 2 ≤ d ∧ (slotEntry disk s).isDir := by
  cases hd with
  | root => exact .inl rfl
  | @sub d l s hd hl hs huse hdot hdir hc => exact .inr ⟨s, ⟨⟨⟨d, l, hd, hl, hs⟩, huse⟩, hdot⟩, rfl, hc, hdir⟩

theorem Dir.isHead (hd : Dir fs disk d) : Head fs disk d := by
  rcases hd.head with hroot | ⟨s, hs, heq, hc, -⟩
  · exact .inl hroot
  · exact .inr ⟨s, hs, heq, hc⟩

theorem Consistent.file_disjoint (h : Consistent fs disk) {s : Slot} (hs : Owner fs disk s) (hfile : ¬ (slotEntry disk s).isDir)
    (hl : Chain fs disk (slotEntry disk s).firstCluster l) {l' : List ℕ} (hd : Dir fs disk d)
    (hl' : Chain fs disk d l') : l.Disjoint l' := by
  refine h.disjoint _ _ _ _ (.inr ⟨s, hs, rfl, hl.two_le⟩) hd.isHead (fun heq => ?_) hl hl'
  rcases hd.head with hroot | ⟨t, ht, heq', -, hdir⟩
  · exact h.notRoot s hs (heq.trans hroot)
  · have hslot := h.single s t hs ht (by have := hl.two_le; omega) (heq.trans heq'.symm)
    exact hfile (hslot ▸ hdir)

/-! ### Two disks on which a program does the same -/

/-- On both disks `m` has the same outcome and changes nothing. -/
def Alike (content : δ → ℕ → Sector) (disk disk' : ℕ → Sector) {α : Type} (m : M δ α) (Q : α → Prop) : Prop :=
  ∃ o, Evals (OnDisk content disk) m o (OnDisk content disk) ∧ Evals (OnDisk content disk') m o (OnDisk content disk') ∧
    ∀ a, o = .ok a → Q a

namespace Alike

variable {α β : Type} {m : M δ α} {f : α → M δ β} {Q : α → Prop} {T : β → Prop}

theorem pure {a : α} (h : Q a) : Alike content disk disk' (Pure.pure a : M δ α) Q := by
  refine ⟨.ok a, Evals.pure a, Evals.pure a, ?_⟩
  rintro b hb
  obtain rfl : a = b := by simpa using hb
  exact h

theorem fail : Alike content disk disk' (Exec.fail : M δ α) Q := ⟨.fail, Evals.fail, Evals.fail, by simp⟩

theorem hang : Alike content disk disk' (Exec.hang : M δ α) Q :=
  ⟨.hang, fun w hw => ⟨w, rfl, hw⟩, fun w hw => ⟨w, rfl, hw⟩, by simp⟩

theorem bind (h : Alike content disk disk' m Q) (hf : ∀ a, Q a → Alike content disk disk' (f a) T) :
    Alike content disk disk' (m >>= f) T := by
  obtain ⟨o, h₁, h₂, hQ⟩ := h
  cases o with
  | ok a =>
    obtain ⟨o', h₁', h₂', hT⟩ := hf a (hQ a rfl)
    exact ⟨o', h₁.bind h₁', h₂.bind h₂', hT⟩
  | fail => exact ⟨.fail, h₁.bind_fail, h₂.bind_fail, by simp⟩
  | hang => exact ⟨.hang, h₁.bind_hang, h₂.bind_hang, by simp⟩

theorem require_bind {p : Prop} [Decidable p] {f : Unit → M δ β} (hf : p → Alike content disk disk' (f ()) T) :
    Alike content disk disk' (Exec.require p >>= f) T := by
  by_cases hp : p
  · rw [require_pos hp]
    exact hf hp
  · rw [require_neg hp]
    exact fail

theorem ofOption_bind {o : Option α} (hf : ∀ a, o = some a → Alike content disk disk' (f a) T) :
    Alike content disk disk' (Exec.ofOption o >>= f) T := by
  cases o with
  | none => exact fail
  | some a => exact hf a rfl

end Alike

/-! ### Paths -/

/-- The subdirectory that a found entry leads to. -/
def subdirOf (found : Option Found) : Option ℕ :=
  found.bind fun found => if found.2.2.isDir ∧ 2 ≤ found.2.2.firstCluster then some found.2.2.firstCluster else none

theorem subdirOf_file {found : Found} (h : ¬ found.2.2.isDir) : subdirOf (some found) = none :=
  if_neg fun hand => h hand.1

/-- The parent that a found link leads to. -/
def parentOf (found : Option Found) : Option ℕ := found.map fun found => found.2.2.firstCluster

/-- The directories of `disk` are found on `disk'` in the same places. -/
def SameTree (fs : Fat32State δ) (disk disk' : ℕ → Sector) : Prop :=
  ∀ d, Dir fs disk d → ∃ l l', Chain fs disk d l ∧ Chain fs disk' d l' ∧
    (∀ name83, subdirOf (lookup disk' name83 (dirSlots fs l')) = subdirOf (lookup disk name83 (dirSlots fs l))) ∧
    parentOf (lookup disk' dotdot83 (dirSlots fs l')) = parentOf (lookup disk dotdot83 (dirSlots fs l))

/-- A found subdirectory is a directory of the tree. -/
theorem dir_of_subdirOf {c : ℕ} (hd : Dir fs disk d) (hl : Chain fs disk d l)
    (hname : ¬ DotName name83) (h : subdirOf (lookup disk name83 (dirSlots fs l)) = some c) : Dir fs disk c := by
  rcases hfound : lookup disk name83 (dirSlots fs l) with _ | found
  · simp [hfound, subdirOf] at h
  · obtain ⟨hmem, heq, hfirst, hattr, hname83⟩ := lookup_some hfound
    rw [hfound, subdirOf, Option.bind_some] at h
    split_ifs at h with hdir
    obtain rfl : found.2.2.firstCluster = c := by simpa using h
    rw [heq] at hdir hfirst hattr hname83 ⊢
    exact Dir.sub hd hl hmem ⟨hfirst, hattr⟩ (hname83 ▸ hname) hdir.1 hdir.2

/-- So is the parent that a link names. -/
theorem dir_of_parentOf (h : Consistent fs disk) (hd : Dir fs disk d) (hl : Chain fs disk d l) :
    Dir fs disk ((parentOf (lookup disk dotdot83 (dirSlots fs l))).elim fs.rootCluster
      fun c => if c < 2 then fs.rootCluster else c) := by
  rcases hfound : lookup disk dotdot83 (dirSlots fs l) with _ | found
  · exact Dir.root
  · obtain ⟨hlive, heq, hname⟩ := live_of_lookup hd hl hfound
    simp only [parentOf, Option.map_some, Option.elim_some]
    split_ifs with hlt
    · exact Dir.root
    · rw [heq] at hlt hname ⊢
      rcases h.dot _ hlive (.inr hname) with hzero | hdir
      · omega
      · exact hdir

/-- The walk steps into a found subdirectory. -/
theorem evals_enterFound {found : Option Found}
    (h : Evals (OnDisk content disk) (findEntryInDir fs fuel cur name83) (found.elim .fail .ok) (OnDisk content disk)) :
    Evals (OnDisk content disk) (do
      let (_, _, entry) ← findEntryInDir fs fuel cur name83
      Exec.require entry.isDir
      Exec.require (2 ≤ entry.firstCluster)
      Pure.pure entry.firstCluster) ((subdirOf found).elim .fail .ok) (OnDisk content disk) := by
  cases found with
  | none => exact Evals.bind_fail h
  | some found =>
    refine Evals.bind h ?_
    by_cases hdir : found.2.2.isDir
    · by_cases hc : 2 ≤ found.2.2.firstCluster
      · rw [subdirOf, Option.bind_some, if_pos ⟨hdir, hc⟩]
        exact (Evals.require hdir).bind ((Evals.require hc).bind (Evals.pure _))
      · rw [subdirOf, Option.bind_some, if_neg fun hand => hc hand.2]
        exact (Evals.require hdir).bind (Evals.require_fail hc).bind_fail
    · rw [subdirOf, Option.bind_some, if_neg fun hand => hdir hand.1]
      exact (Evals.require_fail hdir).bind_fail

/-- The parent is read off the found link, or it is the root. -/
theorem evals_parentFound {found : Option Found}
    (h : Evals (OnDisk content disk) (findEntryInDir fs fuel cur dotdot83) (found.elim .fail .ok) (OnDisk content disk)) :
    Evals (OnDisk content disk) (do
      match ← (findEntryInDir fs fuel cur dotdot83).attempt with
      | none => Pure.pure fs.rootCluster
      | some (_, _, entry) =>
        Pure.pure (if entry.firstCluster < 2 then fs.rootCluster else entry.firstCluster))
      (.ok ((parentOf found).elim fs.rootCluster fun c => if c < 2 then fs.rootCluster else c)) (OnDisk content disk) := by
  cases found with
  | none => exact (Evals.attempt_fail h).bind (Evals.pure _)
  | some found => exact (Evals.attempt h).bind (Evals.pure _)

section Resolve

variable (ho : Online fs dev content) (h : Consistent fs disk) (hsame : SameTree fs disk disk') {fuel : ℕ}
  (hf : fs.dataClusters ≤ fuel)

include ho h hsame hf

variable {cur : ℕ}

omit h in
theorem alike_enterDir (hcur : Dir fs disk cur) (part : Path) :
    Alike content disk disk' (enterDir fs fuel cur part) (Dir fs disk) := by
  refine Alike.ofOption_bind fun name83 hname => ?_
  obtain ⟨l, l', hl, hl', hsub, -⟩ := hsame cur hcur
  have hfind := evals_findEntryInDir ho hl ((hl.length_le ho.toMounted).trans hf) name83
  have hfind' := evals_findEntryInDir ho hl' ((hl'.length_le ho.toMounted).trans hf) name83
  have hsub := hsub name83
  refine ⟨_, evals_enterFound hfind, hsub ▸ evals_enterFound hfind', ?_⟩
  intro c hc
  rcases hfound : subdirOf (lookup disk name83 (dirSlots fs l)) with _ | d
  · simp [hfound] at hc
  · obtain rfl : d = c := by simpa [hfound] using hc
    exact dir_of_subdirOf hcur hl (not_dotName hname) hfound

theorem alike_getParentCluster (hcur : Dir fs disk cur) :
    Alike content disk disk' (getParentCluster fs fuel cur) (Dir fs disk) := by
  unfold getParentCluster
  split_ifs
  · exact Alike.pure Dir.root
  obtain ⟨l, l', hl, hl', -, hparent⟩ := hsame cur hcur
  have hfind := evals_findEntryInDir ho hl ((hl.length_le ho.toMounted).trans hf) dotdot83
  have hfind' := evals_findEntryInDir ho hl' ((hl'.length_le ho.toMounted).trans hf) dotdot83
  refine ⟨_, evals_parentFound hfind, hparent ▸ evals_parentFound hfind', ?_⟩
  intro c hc
  exact Outcome.ok.inj hc ▸ dir_of_parentOf h hcur hl

theorem alike_resolveParentLoop (n : ℕ) (p : Path) (hcur : Dir fs disk cur) :
    Alike content disk disk' (resolveParentLoop fs fuel n p cur) fun r => Dir fs disk r.1 := by
  induction n generalizing p cur with
  | zero => exact Alike.hang
  | succ n ih =>
    rw [resolveParentLoop]
    refine Alike.ofOption_bind ?_
    rintro ⟨part, np⟩ -
    dsimp only
    by_cases hend : part = []
    · rw [if_pos hend]
      exact Alike.pure hcur
    rw [if_neg hend]
    refine Alike.ofOption_bind ?_
    rintro ⟨check, _⟩ -
    dsimp only
    split_ifs
    · exact Alike.pure hcur
    · exact ih _ hcur
    · exact (alike_getParentCluster ho h hsame hf hcur).bind fun parent hparent => ih _ hparent
    · exact (alike_enterDir ho hsame hf hcur _).bind fun sub hsub => ih _ hsub

theorem alike_resolveParentAndLeaf (path : Option Path) :
    Alike content disk disk' (resolveParentAndLeaf fs fuel path) fun r => Dir fs disk r.1 ∧ ¬ DotName r.2 := by
  refine Alike.require_bind fun _ => Alike.ofOption_bind fun p _ => ?_
  refine (alike_resolveParentLoop ho h hsame hf _ p Dir.root).bind fun r hr => ?_
  exact Alike.require_bind fun _ => Alike.ofOption_bind fun name83 hname => Alike.pure ⟨hr, not_dotName hname⟩

end Resolve

end Tg11Kernel.Fat32
