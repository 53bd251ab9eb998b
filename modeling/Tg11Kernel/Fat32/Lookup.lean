import Tg11Kernel.Fat32.Data

/-! Directories as lists of slots. A walk over a directory's chain is a scan of its
slots; a lookup finds the first entry of a name before the end mark. Rewriting one
entry changes that slot and no other. -/

namespace Tg11Kernel.Fat32

open Lib Exec

variable {δ : Type} {fs : Fat32State δ} {dev : BlockDevice δ} {content : δ → ℕ → Sector} {disk disk' : ℕ → Sector}

/-- The slots of the clusters of a directory, in order. -/
def dirSlots (fs : Fat32State δ) (l : List ℕ) : List Slot := l.flatMap (clusterSlots fs)

@[simp] theorem dirSlots_cons (c : ℕ) (l : List ℕ) : dirSlots fs (c :: l) = clusterSlots fs c ++ dirSlots fs l :=
  List.flatMap_cons

variable {s : Slot} {l : List ℕ} {c : ℕ} {name83 : Name83} {slots : List Slot}

theorem mem_slotsOf {lbas : List ℕ} : s ∈ slotsOf lbas ↔ s.1 ∈ lbas ∧ s.2 ∈ entryOffsets := by
  constructor
  · intro hs
    obtain ⟨lba, hlba, hmem⟩ := List.mem_flatMap.1 hs
    obtain ⟨off, hoff, rfl⟩ := List.mem_map.1 hmem
    exact ⟨hlba, hoff⟩
  · rintro ⟨hlba, hoff⟩
    exact List.mem_flatMap.2 ⟨s.1, hlba, List.mem_map.2 ⟨s.2, hoff, rfl⟩⟩

theorem mem_dirSlots :
    s ∈ dirSlots fs l ↔ (∃ c ∈ l, s.1 ∈ clusterSectors fs c) ∧ s.2 ∈ entryOffsets := by
  constructor
  · intro hs
    obtain ⟨c, hc, hmem⟩ := List.mem_flatMap.1 hs
    obtain ⟨hlba, hoff⟩ := mem_slotsOf.1 hmem
    exact ⟨⟨c, hc, hlba⟩, hoff⟩
  · rintro ⟨⟨c, hc, hlba⟩, hoff⟩
    exact List.mem_flatMap.2 ⟨c, hc, mem_slotsOf.2 ⟨hlba, hoff⟩⟩

theorem mem_entryOffsets {off : ℕ} : off ∈ entryOffsets ↔ ∃ i < 16, off = 32 * i := by
  simp [entryOffsets, eq_comm]

/-! ### Walks along a chain -/

section Walk

variable {σ β : Type} {step : EntryStep σ β} {atEnd : ℕ → σ → M δ β} {atExit : σ → M δ β}

/-- What a step does at a slot of the disk. -/
def slotStep (step : EntryStep σ β) (disk : ℕ → Sector) (acc : σ) (s : Slot) : σ ⊕ β := step acc s.1 s.2 (slotEntry disk s)

theorem scanDisk_clusterSlots (c : ℕ) (acc : σ) :
    scanDisk step disk (clusterSectors fs c) acc = foldUntil (slotStep step disk) acc (clusterSlots fs c) :=
  scanDisk_eq step disk _ acc

/-- A walk leaves within the chain, or passes all slots and ends at the last cluster. -/
theorem evals_walkChain (h : Online fs dev content) {fuel c : ℕ} {l : List ℕ} (hl : Chain fs disk c l) (hf : l.length ≤ fuel)
    {acc : σ} {o : Outcome β} {Q : Driver δ → Prop} (hend : Evals (OnDisk content disk)
      ((foldUntil (slotStep step disk) acc (dirSlots fs l)).elim (atEnd (l.getLastD 0)) pure) o Q) :
    Evals (OnDisk content disk) (walkChain fs (fun c => scanSectors fs step (clusterSectors fs c)) atEnd atExit fuel c acc) o Q := by
  induction fuel generalizing c l acc with
  | zero => exact absurd (List.length_eq_zero_iff.1 (Nat.le_zero.1 hf)) hl.ne_nil
  | succ fuel ih =>
    have hc := hl.inChain
    have hscan := evals_scanCluster h disk step c acc
    rw [scanDisk_clusterSlots] at hscan
    rw [walkChain, if_pos hc]
    refine hscan.bind ?_
    obtain ⟨l', rfl⟩ : ∃ l', l = c :: l' := by
      rcases hl.cases with ⟨-, rfl⟩ | ⟨l', -, rfl, -⟩
      · exact ⟨[], rfl⟩
      · exact ⟨l', rfl⟩
    rw [dirSlots_cons, foldUntil_append] at hend
    rcases hfold : foldUntil (slotStep step disk) acc (clusterSlots fs c) with acc' | b
    · rw [hfold, andThen_inl] at hend
      refine (evals_nextCluster_ok h disk hc.1 hl.not_badLink).bind ?_
      rcases hl.cases with ⟨heoc, hnil⟩ | ⟨_, hl', hcons, -⟩
      · rw [if_pos heoc]
        cases hnil
        exact hend
      · rw [if_neg (not_le.2 hl'.inChain.2)]
        cases hcons
        have hlast : (c :: l').getLastD 0 = l'.getLastD 0 := by
          cases l' with
          | nil => exact absurd rfl hl'.ne_nil
          | cons a l' => simp [List.getLastD]
        rw [hlast] at hend
        exact ih hl' (by simpa using hf) hend
    · rw [hfold, andThen_inr] at hend
      exact hend

end Walk

/-! ### Lookups -/

/-- An entry in use, of this name. -/
def Entry.Matches (e : Entry) (name83 : Name83) : Prop := e.first ≠ 0xE5 ∧ e.attr ≠ FAT32_ATTR_LFN ∧ e.name = name83

instance (e : Entry) (name83 : Name83) : Decidable (e.Matches name83) := inferInstanceAs (Decidable (_ ∧ _ ∧ _))

/-- The first entry of a name, before the end mark. -/
def lookup (disk : ℕ → Sector) (name83 : Name83) : List Slot → Option Found
  | [] => none
  | s :: slots =>
    if (slotEntry disk s).first = 0x00 then none
    else if (slotEntry disk s).Matches name83 then some (s.1, s.2, slotEntry disk s)
    else lookup disk name83 slots

theorem slotStep_findStep (name83 : Name83) (s : Slot) : slotStep (findStep name83) disk () s =
      if (slotEntry disk s).first = 0x00 then .inr none
      else if (slotEntry disk s).Matches name83 then .inr (some (s.1, s.2, slotEntry disk s))
      else .inl () := by
  unfold slotStep findStep Entry.Matches
  split_ifs <;> first | rfl | simp_all

theorem foldUntil_findStep (disk : ℕ → Sector) (name83 : Name83) (slots : List Slot) :
    foldUntil (slotStep (findStep name83) disk) () slots = .inr (lookup disk name83 slots) ∨
      (foldUntil (slotStep (findStep name83) disk) () slots = .inl () ∧ lookup disk name83 slots = none) := by
  induction slots with
  | nil => exact .inr ⟨rfl, rfl⟩
  | cons s slots ih =>
    rw [foldUntil_cons, slotStep_findStep, lookup]
    split_ifs
    · exact .inl rfl
    · exact .inl rfl
    · exact ih

/-- `fat32_find_entry_in_dir` on a chain. -/
theorem evals_findEntryInDir (h : Online fs dev content) {fuel : ℕ} (hl : Chain fs disk c l) (hf : l.length ≤ fuel)
    (name83 : Name83) :
    Evals (OnDisk content disk) (findEntryInDir fs fuel c name83) ((lookup disk name83 (dirSlots fs l)).elim .fail .ok)
      (OnDisk content disk) := by
  unfold findEntryInDir
  rcases foldUntil_findStep disk name83 (dirSlots fs l) with hfold | ⟨hfold, hnone⟩
  · refine (evals_walkChain h hl hf (by rw [hfold]; exact Evals.pure _)).bind ?_
    cases lookup disk name83 (dirSlots fs l) with
    | none => exact Evals.fail
    | some found => exact Evals.pure found
  · rw [hnone]
    exact (evals_walkChain h hl hf (by rw [hfold]; exact Evals.fail)).bind_fail

/-- A found entry is in use, in a slot of the directory. -/
theorem lookup_some {found : Found} (hfound : lookup disk name83 slots = some found) :
    (found.1, found.2.1) ∈ slots.takeWhile (fun s => (slotEntry disk s).first ≠ 0x00) ∧
      found.2.2 = slotEntry disk (found.1, found.2.1) ∧ found.2.2.Matches name83 := by
  induction slots with
  | nil => simp [lookup] at hfound
  | cons s slots ih =>
    rw [lookup] at hfound
    split_ifs at hfound with hend hmatch
    · obtain rfl : _ = found := Option.some.inj hfound
      rw [List.takeWhile_cons_of_pos (by simpa using hend)]
      exact ⟨List.mem_cons_self, rfl, hmatch⟩
    · obtain ⟨hmem, heq, hname⟩ := ih hfound
      rw [List.takeWhile_cons_of_pos (by simpa using hend)]
      exact ⟨List.mem_cons_of_mem _ hmem, heq, hname⟩

/-- When the entry of one slot changes but not its name, a lookup finds the same slot. -/
theorem lookup_changed
    (hsame : ∀ t ∈ slots, t ≠ s → slotEntry disk' t = slotEntry disk t)
    (hused : (slotEntry disk s).first ≠ 0x00 ∧ (slotEntry disk' s).first ≠ 0x00)
    (hmatch : (slotEntry disk' s).Matches name83 ↔ (slotEntry disk s).Matches name83) :
    lookup disk' name83 slots =
      (lookup disk name83 slots).map fun found => if (found.1, found.2.1) = s then (s.1, s.2, slotEntry disk' s) else found := by
  induction slots with
  | nil => rfl
  | cons t slots ih =>
    have hrest := ih fun u hu => hsame u (by simp [hu])
    by_cases hts : t = s
    · rw [lookup, lookup, hts, if_neg hused.1, if_neg hused.2]
      by_cases hname : (slotEntry disk s).Matches name83
      · rw [if_pos hname, if_pos (hmatch.2 hname)]
        simp
      · rw [if_neg hname, if_neg fun hand => hname (hmatch.1 hand), hrest]
    · rw [lookup, lookup, hsame t (by simp) hts]
      split_ifs
      · rfl
      · rw [Option.map_some, if_neg hts]
      · exact hrest

/-! ### Rewriting an entry -/

/-- The disk with another entry in a slot. -/
def setEntry (s : Slot) (e : Entry) (disk : ℕ → Sector) : ℕ → Sector :=
  Function.update disk s.1 (putEntry (disk s.1) s.2 e)

theorem setEntry_of_ne {lba : ℕ} (h : lba ≠ s.1) (e : Entry) (disk : ℕ → Sector) : setEntry s e disk lba = disk lba :=
  Function.update_of_ne h _ _

theorem slotEntry_setEntry_self (hs : s.2 ∈ entryOffsets) (e : Entry) (disk : ℕ → Sector) :
    slotEntry (setEntry s e disk) s = e := by
  obtain ⟨i, hi, hoff⟩ := mem_entryOffsets.1 hs
  rw [slotEntry, setEntry, Function.update_self, entryAt, putEntry, Block.slice_splice_self _ _ _ (by omega)]

theorem slotEntry_setEntry_of_ne {t : Slot} (hs : s.2 ∈ entryOffsets) (ht : t.2 ∈ entryOffsets) (hne : t ≠ s) (e : Entry)
    (disk : ℕ → Sector) : slotEntry (setEntry s e disk) t = slotEntry disk t := by
  by_cases hlba : t.1 = s.1
  · obtain ⟨i, hi, hoff⟩ := mem_entryOffsets.1 hs
    obtain ⟨j, hj, hoff'⟩ := mem_entryOffsets.1 ht
    have hij : i ≠ j := by
      rintro rfl
      exact hne (Prod.ext hlba (hoff'.trans hoff.symm))
    rw [slotEntry, slotEntry, setEntry, hlba, Function.update_self, entryAt, putEntry,
      Block.slice_splice_disjoint _ _ _ (by omega) _ (by omega), entryAt]
  · rw [slotEntry, slotEntry, setEntry_of_ne hlba]

theorem evals_updateEntry (h : Online fs dev content) (ha : AlwaysWrites dev) (s : Slot) (f : Entry → Entry)
    (readMsg writeMsg : String) (disk : ℕ → Sector) :
    Evals (OnDisk content disk) (updateEntry fs s.1 s.2 f readMsg writeMsg) (.ok ())
      (OnDisk content (setEntry s (f (slotEntry disk s)) disk)) :=
  (evals_read h disk s.1 false).orElse.bind ((stores_write h disk s.1 _).evals ha).orElse

theorem fatVal_setEntry (h : Online fs dev content) (hc : clusterIsValid fs c) (hs : s.1 ∈ clusterSectors fs c)
    (e : Entry) (disk : ℕ → Sector) {d : ℕ} (hd : clusterIsValid fs d) : fatVal fs (setEntry s e disk) d = fatVal fs disk d := by
  have hnot : fatSector fs 0 d ≠ s.1 := fun heq => notInTable_of_mem h hc hs 0 h.fatCount_pos d hd heq.symm
  rw [fatVal, fatVal, fatEntry, fatEntry, setEntry_of_ne hnot]

end Tg11Kernel.Fat32
