import Tg11Kernel.Fat32.Volume
import Tg11Kernel.Lib.Chain
import Mathlib.Order.Interval.Finset.Nat

/-! When the walks along cluster chains end. Reading a file ends because every
cluster adds bytes, freeing a chain because a freed cluster has no link. The
walks over directories have no such measure: they end exactly when the chain does
not come back to a cluster it has passed before a cluster at which the scan
stops. -/

namespace Tg11Kernel.Fat32

open Lib Exec

variable {δ : Type} {fs : Fat32State δ} {dev : BlockDevice δ} {content : δ → ℕ → Sector} {disk : ℕ → Sector}

/-! ### Walks -/

/-- The valid clusters. -/
def validClusters (fs : Fat32State δ) : Finset ℕ := Finset.Icc 2 (fs.dataClusters + 1)

theorem mem_validClusters (h : Mounted fs) (c : ℕ) : c ∈ validClusters fs ↔ clusterIsValid fs c := by
  have hpos := h.dataClusters_pos
  rw [validClusters, Finset.mem_Icc, clusterIsValid, h.maxDataCluster]
  omega

theorem card_validClusters (fs : Fat32State δ) : (validClusters fs).card = fs.dataClusters := by
  rw [validClusters, Nat.card_Icc]
  omega

/-- The link of a cluster, unless it is an end mark or bad. -/
def linkTo (fs : Fat32State δ) (disk : ℕ → Sector) (c : ℕ) : Option ℕ :=
  if badLink fs (fatVal fs disk c) ∨ FAT32_EOC ≤ fatVal fs disk c then none else some (fatVal fs disk c)

section Walk

variable {σ β : Type}

/-- One round of a walk, on a cluster and what was collected before it. -/
def walkStep (fs : Fat32State δ) (disk : ℕ → Sector) (step : EntryStep σ β) (p : ℕ × σ) : Option (ℕ × σ) :=
  if inChain fs p.1 then
    match scanDisk step disk (clusterSectors fs p.1) p.2 with
    | .inl acc => (linkTo fs disk p.1).map fun next => (next, acc)
    | .inr _ => none
  else none

theorem inChain_of_walkStep {step : EntryStep σ β} {p : ℕ × σ} (h : walkStep fs disk step p ≠ none) :
    inChain fs p.1 := by
  by_contra hn
  exact h (if_neg hn)

/-- A walk runs out of fuel exactly when it gets to a cluster of the chain after that many rounds. -/
theorem walkChain_hang_iff (h : Online fs dev content) (step : EntryStep σ β)
    {scan : ℕ → σ → M δ (σ ⊕ β)} {atEnd : ℕ → σ → M δ β} {atExit : σ → M δ β}
    (hscan : ∀ c acc, Evals (OnDisk content disk) (scan c acc)
      (.ok (scanDisk step disk (clusterSectors fs c) acc)) (OnDisk content disk))
    (hend : ∀ c acc w, OnDisk content disk w → (atEnd c acc w).1 ≠ .hang)
    (hexit : ∀ acc w, OnDisk content disk w → (atExit acc w).1 ≠ .hang) (fuel c : ℕ) (acc : σ) {w : Driver δ}
    (hw : OnDisk content disk w) :
    (walkChain fs scan atEnd atExit fuel c acc w).1 = .hang ↔
      ∃ p, stepN (walkStep fs disk step) fuel (c, acc) = some p ∧ inChain fs p.1 := by
  induction fuel generalizing c acc w with
  | zero =>
    rw [walkChain]
    split
    · rename_i hc
      exact ⟨fun _ => ⟨(c, acc), rfl, hc⟩, fun _ => rfl⟩
    · rename_i hc
      refine ⟨fun hh => absurd hh (hexit acc w hw), ?_⟩
      rintro ⟨p, ⟨⟩, hp⟩
      exact absurd hp hc
  | succ fuel ih =>
    rw [walkChain]
    split
    · rename_i hc
      obtain ⟨w₁, h₁, hw₁⟩ := hscan c acc w hw
      rw [bind_ok h₁]
      cases hs : scanDisk step disk (clusterSectors fs c) acc with
      | inr b =>
        have hnone : walkStep fs disk step (c, acc) = none := by rw [walkStep, if_pos hc, hs]
        rw [stepN_succ_of_none hnone]
        simp
      | inl acc' =>
        obtain ⟨w₂, h₂, hw₂⟩ := evals_nextCluster h disk c w₁ hw₁
        dsimp only
        by_cases hb : badLink fs (fatVal fs disk c)
        · rw [nextResult, if_neg (fun hand => hand.2 hb)] at h₂
          have hnone : walkStep fs disk step (c, acc) = none := by
            rw [walkStep, if_pos hc, hs]
            simp [linkTo, hb]
          rw [bind_fail h₂, stepN_succ_of_none hnone]
          simp
        · rw [nextResult, if_pos ⟨hc.1, hb⟩] at h₂
          rw [bind_ok h₂]
          split
          · rename_i heoc
            have hnone : walkStep fs disk step (c, acc) = none := by
              rw [walkStep, if_pos hc, hs]
              simp [linkTo, heoc]
            rw [stepN_succ_of_none hnone]
            simp [hend c acc' w₂ hw₂]
          · rename_i heoc
            have hsome : walkStep fs disk step (c, acc) = some (fatVal fs disk c, acc') := by
              rw [walkStep, if_pos hc, hs]
              simp [linkTo, hb, heoc]
            rw [stepN_succ_of_some hsome]
            exact ih _ _ hw₂
    · rename_i hc
      have hnone : walkStep fs disk step (c, acc) = none := if_neg hc
      rw [stepN_succ_of_none hnone]
      simp [hexit acc w hw]

end Walk

/-- With nothing collected, a walk is a walk on clusters: it hangs exactly when the chain comes back. -/
theorem stepN_unit_iff (h : Mounted fs) {β : Type} (step : EntryStep Unit β) (c : ℕ) :
    (∃ p, stepN (walkStep fs disk step) (fs.dataClusters + 1) (c, ()) = some p ∧ inChain fs p.1) ↔
      Lasso (walkStep fs disk step) (c, ()) := by
  constructor
  · rintro ⟨p, hp, -⟩
    refine lasso_of_stepN_ne_none (s := (validClusters fs).map ⟨fun c => (c, ()), fun _ _ => by simp⟩) ?_ ?_
      (by rw [hp]; simp : stepN (walkStep fs disk step) (fs.dataClusters + 1) (c, ()) ≠ none)
    · rintro ⟨d, ⟨⟩⟩ hd
      exact Finset.mem_map.2 ⟨d, (mem_validClusters h d).2 (inChain_of_walkStep hd).1, rfl⟩
    · rw [Finset.card_map, card_validClusters]
      omega
  · intro hl
    obtain ⟨p, hp⟩ := Option.ne_none_iff_exists'.1 (hl.stepN_ne_none (fs.dataClusters + 1))
    have hne : walkStep fs disk step p ≠ none := by
      intro hnone
      refine hl.stepN_ne_none (fs.dataClusters + 1 + 1) ?_
      rw [stepN_add, hp, Option.bind_some]
      exact stepN_succ_of_none hnone
    exact ⟨p, hp, inChain_of_walkStep hne⟩

/-! ### Freeing -/

/-- Clusters with a link. -/
def linked (fs : Fat32State δ) (disk : ℕ → Sector) : Finset ℕ := (validClusters fs).filter fun c => fatVal fs disk c ≠ 0

variable {c max : ℕ} {w : Driver δ} {acc : List (List UInt8)}

theorem linked_setFat_zero (h : Online fs dev content) (hc : clusterIsValid fs c) :
    linked fs (setFat fs c 0 disk) = (linked fs disk).erase c := by
  ext d
  simp only [linked, Finset.mem_filter, Finset.mem_erase]
  by_cases hd : d ∈ validClusters fs
  · rw [fatVal_setFat h hc ((mem_validClusters h.toMounted d).1 hd)]
    by_cases hcd : c = d
    · simp [hcd]
    · simp [hcd, Ne.symm hcd, hd]
  · simp [hd]

theorem not_inChain_of_lt (hc : c < 2) : ¬ inChain fs c := fun h => by
  have := h.1.1
  omega

theorem freeChain_of_not_inChain (fuel : ℕ) (hc : ¬ inChain fs c) : freeChain fs fuel c = pure () := by
  cases fuel <;> rw [freeChain, if_neg hc]

/-- Freeing takes at most one round more than there are linked clusters. -/
theorem freeChain_ne_hang (h : Online fs dev content) (fuel cur : ℕ) (hf : (linked fs disk).card + 1 ≤ fuel)
    (hw : OnDisk content disk w) : (freeChain fs fuel cur w).1 ≠ .hang := by
  induction fuel generalizing cur disk w with
  | zero => omega
  | succ fuel ih =>
    rw [freeChain]
    split
    · rename_i hc
      obtain ⟨w₁, h₁, hw₁⟩ := evals_nextCluster h disk cur w hw
      by_cases hb : badLink fs (fatVal fs disk cur)
      · rw [nextResult, if_neg (fun hand => hand.2 hb)] at h₁
        rw [bind_fail h₁]
        simp
      rw [nextResult, if_pos ⟨hc.1, hb⟩] at h₁
      rw [bind_ok h₁]
      rcases stores_setClusterValue h disk hc.1 (show ¬ badLink fs 0 from fun hbad => by simp [badLink] at hbad) w₁ hw₁
        with ⟨ho, hw₂⟩ | ⟨ho, -, -⟩
      · rw [bind_ok (Prod.ext ho rfl)]
        obtain ⟨w₃, h₃, hw₃⟩ := evals_lowerHint (setFat fs cur 0 disk) cur _ hw₂
        rw [bind_ok h₃]
        split
        · simp
        · by_cases hv : fatVal fs disk cur = 0
          · -- a cluster without a link leads to 0, where the loop ends
            rw [hv, freeChain_of_not_inChain fuel (not_inChain_of_lt (by omega))]
            simp
          · refine ih _ ?_ hw₃
            have hmem : cur ∈ linked fs disk := by
              rw [linked, Finset.mem_filter, mem_validClusters h.toMounted]
              exact ⟨hc.1, hv⟩
            have hpos := Finset.card_pos.2 ⟨cur, hmem⟩
            rw [linked_setFat_zero h hc.1, Finset.card_erase_of_mem hmem]
            omega
      · rw [bind_fail (Prod.ext ho rfl)]
        simp
    · simp

theorem card_linked_le (fs : Fat32State δ) (disk : ℕ → Sector) : (linked fs disk).card ≤ fs.dataClusters := by
  rw [← card_validClusters fs]
  exact Finset.card_filter_le _ _

/-! ### Reading -/

theorem length_readDisk (fileSize : ℕ) (disk : ℕ → Sector) (lbas : List ℕ) {written : List UInt8}
    (hw : written.length ≤ fileSize) :
    (readDisk fileSize disk lbas written).length = min fileSize (written.length + 512 * lbas.length) := by
  induction lbas generalizing written with
  | nil => simp [readDisk, hw]
  | cons lba rest ih =>
    have hlen : (written ++ (Sector.toList (disk lba)).take (fileSize - written.length)).length =
        min fileSize (written.length + 512) := by
      rw [List.length_append, List.length_take, length_toList]
      omega
    rw [readDisk, List.foldl_cons, ← readDisk, ih (by omega), hlen, List.length_cons]
    omega

section

variable (h : Online fs dev content)
include h

variable {w : Driver δ}

/-- Every cluster read adds bytes, so a read takes at most as many rounds as bytes are missing. -/
theorem readClusters_ne_hang {fileSize batch : ℕ} (hb : 1 ≤ batch) (fuel cur : ℕ)
    (written : List UInt8) (hwr : written.length ≤ fileSize) (hf : fileSize - written.length ≤ fuel)
    (hw : OnDisk content disk w) : (readClusters fs fileSize batch fuel cur written w).1 ≠ .hang := by
  induction fuel generalizing cur written w with
  | zero =>
    rw [readClusters, if_neg (by omega)]
    simp
  | succ fuel ih =>
    rw [readClusters]
    split
    · obtain ⟨w₁, h₁, hw₁⟩ := evals_readCluster h disk fileSize hb cur written w hw
      have hlen := length_readDisk fileSize disk (clusterSectors fs cur) hwr
      have hspc : 1 ≤ (clusterSectors fs cur).length := by
        rw [clusterSectors, List.length_map, List.length_range]
        exact h.sectorsPerCluster_pos
      rw [bind_ok h₁]
      split
      · simp
      obtain ⟨w₂, h₂, hw₂⟩ := evals_nextCluster h disk cur w₁ hw₁
      cases hr : nextResult fs disk cur with
      | ok next =>
        rw [hr] at h₂
        rw [bind_ok h₂]
        split
        · simp
        · exact ih next _ (by omega) (by omega) hw₂
      | fail =>
        rw [hr] at h₂
        rw [bind_fail h₂]
        simp
      | hang =>
        rw [nextResult] at hr
        split at hr <;> simp at hr
    · simp

theorem readFileEntry_ne_hang (entry : Entry) (cap : ℕ)
    (hw : OnDisk content disk w) : (readFileEntry fs entry.size entry cap w).1 ≠ .hang := by
  rw [readFileEntry]
  by_cases hdir : entry.isDir
  · rw [require_neg (not_not.2 hdir), fail_bind_eq]
    simp
  rw [require_pos hdir, pure_bind_eq]
  split
  · simp
  obtain ⟨v, hv, hd⟩ := hw
  have hbatch : sectorsPerRead fs w = (.ok (batchSize fs w), w) := rfl
  have hb : 1 ≤ batchSize fs w := by
    have := hv.batch_pos
    rw [batchSize]
    split <;> omega
  have hne := readClusters_ne_hang h hb entry.size entry.firstCluster [] (Nat.zero_le entry.size) (Nat.sub_le _ _)
    ⟨v, hv, hd⟩
  rw [bind_ok hbatch, bind_apply]
  rcases hr : readClusters fs entry.size (batchSize fs w) entry.size entry.firstCluster [] w with ⟨_ | _ | _, w₁⟩
  · simp
  · simp
  · rw [hr] at hne
    exact absurd rfl hne

/-! ### Directories -/

theorem growDir_ne_hang {fuel : ℕ} (hf : fs.dataClusters + 1 ≤ fuel) (c : ℕ)
    (hw : OnDisk content disk w) : (growDir fs fuel c w).1 ≠ .hang := by
  have hfree : ∀ {d new w'}, OnDisk content d w' → (((freeChain fs fuel new).attempt >>= fun _ =>
      (Exec.fail : M δ (ℕ × ℕ))) w').1 ≠ .hang := by
    intro d new w' hw'
    have hne := freeChain_ne_hang h fuel new (by have := card_linked_le fs d; omega) hw'
    rw [bind_apply, attempt_apply]
    rcases hr : freeChain fs fuel new w' with ⟨_ | _ | _, t⟩
    · simp
    · simp
    · rw [hr] at hne
      exact absurd rfl hne
  rw [growDir]
  rcases allocCluster_cases h disk hw with ⟨new, ho, hnew, -, hd⟩ | ⟨ho, -⟩ | ⟨ho, -⟩
  · rw [bind_ok (Prod.ext ho rfl)]
    by_cases hc : clusterIsValid fs c
    · rcases stores_setClusterValue h _ hc (not_badLink_of_valid hnew) _ hd with ⟨ho', -⟩ | ⟨ho', ⟨d, hd'⟩, -⟩
      · rw [bind_ok (attempt_ok (Prod.ext ho' rfl))]
        simp
      · rw [bind_ok (attempt_fail (Prod.ext ho' rfl))]
        exact hfree hd'
    · rw [setClusterValue, require_neg hc, fail_bind_eq, bind_ok (attempt_fail (fail_apply _))]
      exact hfree hd
  · rw [bind_fail (Prod.ext ho rfl)]
    simp
  · rw [bind_fail (Prod.ext ho rfl)]
    simp

/-- Looking an entry up runs out of rounds exactly when the chain comes back before the scan stops. -/
theorem findEntryInDir_hang_iff (c : ℕ) (name83 : Name83) (hw : OnDisk content disk w) :
    (findEntryInDir fs (fs.dataClusters + 1) c name83 w).1 = .hang ↔
      Lasso (walkStep fs disk (findStep name83)) (c, ()) := by
  have hwalk : (walkChain fs (fun cluster => scanSectors fs (findStep name83) (clusterSectors fs cluster))
      (fun _ _ => Exec.fail) (fun _ => Exec.fail) (fs.dataClusters + 1) c () w).1 = .hang ↔ _ :=
    walkChain_hang_iff h (findStep name83) (fun c acc => evals_scanCluster h disk (findStep name83) c acc)
      (fun _ _ _ _ => by simp) (fun _ _ _ => by simp) (fs.dataClusters + 1) c () hw
  rw [← stepN_unit_iff h.toMounted, ← hwalk, findEntryInDir, bind_apply]
  rcases walkChain fs (fun cluster => scanSectors fs (findStep name83) (clusterSectors fs cluster))
    (fun _ _ => Exec.fail) (fun _ => Exec.fail) (fs.dataClusters + 1) c () w with ⟨found | _ | _, t⟩
  · cases found <;> simp
  · simp
  · simp

theorem findFreeEntryInDir_hang_iff (c : ℕ) (hw : OnDisk content disk w) :
    (findFreeEntryInDir fs (fs.dataClusters + 1) c w).1 = .hang ↔ Lasso (walkStep fs disk freeStep) (c, ()) := by
  rw [← stepN_unit_iff h.toMounted, findFreeEntryInDir]
  exact walkChain_hang_iff h freeStep (fun c acc => evals_scanCluster h disk freeStep c acc)
    (fun c _ _ hw' => growDir_ne_hang h (le_refl _) c hw') (fun _ _ _ => by simp) (fs.dataClusters + 1) c () hw

end

/-! ### Listing -/

/-- The name an entry adds to a listing. -/
def listed (e : Entry) : Option (List UInt8) :=
  if e.first = 0xE5 ∨ e.attr = FAT32_ATTR_LFN ∨ e.nameIsDotOrDotdot then none else some (listedName e)

def clusterNames (fs : Fat32State δ) (disk : ℕ → Sector) (c : ℕ) : List (List UInt8) :=
  (clusterSlots fs c).filterMap fun s => listed (slotEntry disk s)

/-- A scan that only an end entry stops. -/
def endStep : EntryStep Unit Unit := fun _ _ _ e => if e.first = 0x00 then .inr () else .inl ()

/-- The names in the first `n` clusters of a chain. -/
def namesAlong (fs : Fat32State δ) (disk : ℕ → Sector) : ℕ → ℕ → List (List UInt8)
  | 0, _ => []
  | n + 1, c => clusterNames fs disk c ++
    match walkStep fs disk endStep (c, ()) with
    | some (d, _) => namesAlong fs disk n d
    | none => []

theorem foldUntil_endStep (slots : List Slot) (disk : ℕ → Sector) :
    (foldUntil (fun acc s => endStep acc s.1 s.2 (slotEntry disk s)) () slots = .inl ()) ↔
      ∀ s ∈ slots, (slotEntry disk s).first ≠ 0x00 := by
  induction slots with
  | nil => simp
  | cons s rest ih =>
    rw [foldUntil_cons, endStep]
    by_cases h0 : (slotEntry disk s).first = 0x00
    · simp [h0]
    · rw [if_neg h0, andThen_inl, ih]
      simp [h0]

/-- A listing goes on as long as it meets no end entry and is not full. -/
theorem foldUntil_lsStep (max : ℕ) (slots : List Slot) (disk : ℕ → Sector) {acc' : List (List UInt8)}
    (hacc : acc.length < max) :
    foldUntil (fun acc s => lsStep max acc s.1 s.2 (slotEntry disk s)) acc slots = .inl acc' ↔
      (∀ s ∈ slots, (slotEntry disk s).first ≠ 0x00) ∧
        acc' = acc ++ (slots.filterMap fun s => listed (slotEntry disk s)) ∧ acc'.length < max := by
  induction slots generalizing acc with
  | nil =>
    rw [foldUntil_nil]
    constructor
    · rintro ⟨⟩
      exact ⟨by simp, by simp, hacc⟩
    · rintro ⟨-, rfl, -⟩
      simp
  | cons s rest ih =>
    rw [foldUntil_cons, List.filterMap_cons, List.forall_mem_cons]
    generalize slotEntry disk s = e at *
    by_cases h0 : e.first = 0x00
    · rw [lsStep, if_pos h0]
      simp [h0]
    by_cases hskip : e.first = 0xE5 ∨ e.attr = FAT32_ATTR_LFN ∨ e.nameIsDotOrDotdot
    · have hstep : lsStep max acc s.1 s.2 e = .inl acc := by
        rw [lsStep, if_neg h0]
        by_cases h1 : e.first = 0xE5
        · rw [if_pos h1]
        by_cases h2 : e.attr = FAT32_ATTR_LFN
        · rw [if_neg h1, if_pos h2]
        · rw [if_neg h1, if_neg h2, if_pos ((hskip.resolve_left h1).resolve_left h2)]
      rw [hstep, andThen_inl, ih hacc, listed, if_pos hskip]
      simp only [ne_eq, h0, not_false_eq_true, true_and]
    · have hlisted : listed e = some (listedName e) := if_neg hskip
      simp only [not_or] at hskip
      rw [lsStep, if_neg h0, if_neg hskip.1, if_neg hskip.2.1, if_neg hskip.2.2, hlisted]
      by_cases hfull : acc.length + 1 ≥ max
      · rw [if_pos hfull, andThen_inr]
        constructor
        · simp
        · rintro ⟨-, rfl, hlt⟩
          simp at hlt
          omega
      · rw [if_neg hfull, andThen_inl, ih (by simp; omega), List.append_assoc, List.singleton_append]
        simp only [ne_eq, h0, not_false_eq_true, true_and]

theorem walkStep_eq_some_iff {σ β : Type} {step : EntryStep σ β} {d : ℕ} {acc acc' : σ} :
    walkStep fs disk step (c, acc) = some (d, acc') ↔
      inChain fs c ∧
        foldUntil (fun acc s => step acc s.1 s.2 (slotEntry disk s)) acc (clusterSlots fs c) = .inl acc' ∧
          linkTo fs disk c = some d := by
  rw [walkStep, scanDisk_eq, ← clusterSlots]
  by_cases hc : inChain fs c
  · rw [if_pos hc]
    cases foldUntil (fun acc s => step acc s.1 s.2 (slotEntry disk s)) acc (clusterSlots fs c) with
    | inl a =>
      cases linkTo fs disk c with
      | none => simp
      | some n => simp [hc, and_comm]
    | inr b => simp
  · simp [hc]

theorem walkStep_lsStep (hacc : acc.length < max) (d : ℕ)
    (acc' : List (List UInt8)) :
    walkStep fs disk (lsStep max) (c, acc) = some (d, acc') ↔
      walkStep fs disk endStep (c, ()) = some (d, ()) ∧ acc' = acc ++ clusterNames fs disk c ∧ acc'.length < max := by
  rw [walkStep_eq_some_iff, walkStep_eq_some_iff, foldUntil_lsStep max _ disk hacc, foldUntil_endStep, clusterNames]
  tauto

/-- A listing gets as far as the chain goes before an end entry, while it is not full. -/
theorem stepN_lsStep (n c : ℕ) (hacc : acc.length < max) (d : ℕ)
    (acc' : List (List UInt8)) :
    stepN (walkStep fs disk (lsStep max)) n (c, acc) = some (d, acc') ↔
      stepN (walkStep fs disk endStep) n (c, ()) = some (d, ()) ∧ acc' = acc ++ namesAlong fs disk n c ∧
        acc'.length < max := by
  induction n generalizing c acc with
  | zero =>
    simp only [stepN, Option.some.injEq, Prod.mk.injEq, namesAlong, List.append_nil, and_true]
    constructor
    · rintro ⟨rfl, rfl⟩
      exact ⟨rfl, rfl, hacc⟩
    · rintro ⟨rfl, rfl, -⟩
      exact ⟨rfl, rfl⟩
  | succ n ih =>
    simp only [stepN, Option.bind_eq_some_iff, Prod.exists, namesAlong]
    constructor
    · rintro ⟨e, acc₁, hstep, hrest⟩
      obtain ⟨hend, rfl, hlt⟩ := (walkStep_lsStep hacc e acc₁).1 hstep
      obtain ⟨h₁, h₂, h₃⟩ := (ih e hlt).1 hrest
      exact ⟨⟨e, (), hend, h₁⟩, by rw [h₂, hend, List.append_assoc], h₃⟩
    · rintro ⟨⟨e, ⟨⟩, hend, hrest⟩, hacc', hlt⟩
      rw [hend, ← List.append_assoc] at hacc'
      have hlt₁ : (acc ++ clusterNames fs disk c).length < max := by
        rw [hacc', List.length_append] at hlt
        omega
      exact ⟨e, _, (walkStep_lsStep hacc e _).2 ⟨hend, rfl, hlt₁⟩, (ih e hlt₁).2 ⟨hrest, hacc', hlt⟩⟩

/-- Listing runs out of rounds exactly when the chain comes back before an end
entry and what it lists on the way does not fill the caller's array. -/
theorem lsDirCluster_hang_iff (h : Online fs dev content) (c max : ℕ) (hw : OnDisk content disk w) :
    (lsDirCluster fs (fs.dataClusters + 1) c max w).1 = .hang ↔
      Lasso (walkStep fs disk endStep) (c, ()) ∧ (namesAlong fs disk (fs.dataClusters + 1) c).length < max := by
  rw [lsDirCluster]
  by_cases hmax : 0 < max
  · rw [require_pos ⟨h.mounted, hmax⟩, pure_bind_eq]
    obtain ⟨v, hv, hd⟩ := id hw
    have hb : 1 ≤ batchSize fs w := by
      have := hv.batch_pos
      rw [batchSize]
      split <;> omega
    have hbatch : sectorsPerRead fs w = (.ok (batchSize fs w), w) := rfl
    rw [bind_ok hbatch, walkChain_hang_iff h (lsStep max)
      (fun c acc => evals_scanClusterBatches h disk (lsStep max) hb c acc) (fun _ _ _ _ => by simp)
      (fun _ _ _ => by simp) _ c [] hw, ← stepN_unit_iff h.toMounted]
    constructor
    · rintro ⟨⟨d, acc'⟩, hstep, hin⟩
      obtain ⟨h₁, rfl, hlt⟩ := (stepN_lsStep _ c (by simpa using hmax) d acc').1 hstep
      exact ⟨⟨(d, ()), h₁, hin⟩, by simpa using hlt⟩
    · rintro ⟨⟨⟨d, ⟨⟩⟩, h₁, hin⟩, hlt⟩
      exact ⟨(d, _), (stepN_lsStep _ c (by simpa using hmax) d _).2 ⟨h₁, rfl, by simpa using hlt⟩, hin⟩
  · rw [require_neg (fun hand => hmax hand.2), fail_bind_eq]
    simp
    omega

/-! ### The five walks -/

/-- Within as many rounds as there are clusters and one more, a read and a free
always end; a lookup, the search for a free entry and a listing end exactly when
the chain does not come back before the scan stops. -/
theorem walks_end_iff (h : Online fs dev content) {w : Driver δ} (hw : OnDisk content disk w) (dir : ℕ)
    (name83 : Name83) (max : ℕ) (entry : Entry) (cap first : ℕ) :
    ((findEntryInDir fs (fs.dataClusters + 1) dir name83 w).1 ≠ .hang ↔
        ¬ Lasso (walkStep fs disk (findStep name83)) (dir, ())) ∧
      ((findFreeEntryInDir fs (fs.dataClusters + 1) dir w).1 ≠ .hang ↔
        ¬ Lasso (walkStep fs disk freeStep) (dir, ())) ∧
      ((lsDirCluster fs (fs.dataClusters + 1) dir max w).1 ≠ .hang ↔
        (Lasso (walkStep fs disk endStep) (dir, ()) →
          max ≤ (namesAlong fs disk (fs.dataClusters + 1) dir).length)) ∧
      (readFileEntry fs entry.size entry cap w).1 ≠ .hang ∧
      (freeChain fs (fs.dataClusters + 1) first w).1 ≠ .hang := by
  refine ⟨not_congr (findEntryInDir_hang_iff h dir name83 hw), not_congr (findFreeEntryInDir_hang_iff h dir hw), ?_,
    readFileEntry_ne_hang h entry cap hw, freeChain_ne_hang h _ first ?_ hw⟩
  · rw [Ne, lsDirCluster_hang_iff h dir max hw]
    simp only [not_and, not_lt]
  · have := card_linked_le fs disk
    omega

/-! ### A directory that is its own continuation -/

/-- The root directory is full, and its only cluster is linked to itself. -/
def loopDisk : ℕ → Sector := fun lba => if lba = 1 then Block.zero.set 8 2 else fun _ => 66

theorem walks_end_iff_loopDisk :
    ((findEntryInDir (smallVolume diskDevice) 101 2 dot83 (initialDriver loopDisk)).1 ≠ .hang ↔
        ¬ Lasso (walkStep (smallVolume diskDevice) loopDisk (findStep dot83)) (2, ())) ∧
      ((findFreeEntryInDir (smallVolume diskDevice) 101 2 (initialDriver loopDisk)).1 ≠ .hang ↔
        ¬ Lasso (walkStep (smallVolume diskDevice) loopDisk freeStep) (2, ())) ∧
      ((lsDirCluster (smallVolume diskDevice) 101 2 8 (initialDriver loopDisk)).1 ≠ .hang ↔
        (Lasso (walkStep (smallVolume diskDevice) loopDisk endStep) (2, ()) →
          8 ≤ (namesAlong (smallVolume diskDevice) loopDisk 101 2).length)) ∧
      (readFileEntry (smallVolume diskDevice) (Entry.size Block.zero) Block.zero 8 (initialDriver loopDisk)).1 ≠ .hang ∧
      (freeChain (smallVolume diskDevice) 101 2 (initialDriver loopDisk)).1 ≠ .hang :=
  walks_end_iff smallVolume_online (onDisk_initialDriver loopDisk) 2 dot83 8 Block.zero 8 2

/-- Looking a missing name up in that directory never ends. -/
theorem lookup_does_not_end :
    ¬ ∀ (fs : Fat32State (ℕ → Sector)) (disk : ℕ → Sector) (w : Driver (ℕ → Sector)), Online fs diskDevice id →
      OnDisk id disk w → ∀ dir name83, (findEntryInDir fs (fs.dataClusters + 1) dir name83 w).1 ≠ .hang := by
  intro h
  refine h (smallVolume diskDevice) loopDisk (initialDriver loopDisk) smallVolume_online (onDisk_initialDriver loopDisk)
    2 dot83 ((findEntryInDir_hang_iff smallVolume_online 2 dot83 (onDisk_initialDriver loopDisk)).2 ?_)
  have hback : walkStep (smallVolume diskDevice) loopDisk (findStep dot83) (2, ()) = some (2, ()) := by
    decide
  exact ⟨0, 1, (2, ()), Nat.one_pos, rfl, stepN_succ_of_some hback⟩

end Tg11Kernel.Fat32
