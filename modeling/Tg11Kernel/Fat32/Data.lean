import Tg11Kernel.Fat32.Chains

/-! The bytes of a file. They are stored sector by sector along its chain, the last
sector filled up with zeros, and read back in batches up to the size in its entry. -/

namespace Tg11Kernel.Fat32

open Lib Exec

variable {δ : Type} {fs : Fat32State δ} {dev : BlockDevice δ} {content : δ → ℕ → Sector} {disk : ℕ → Sector}

/-- The sectors of the clusters of a chain, in order. -/
def chainSectors (fs : Fat32State δ) (l : List ℕ) : List ℕ := l.flatMap (clusterSectors fs)

@[simp] theorem chainSectors_cons (c : ℕ) (l : List ℕ) :
    chainSectors fs (c :: l) = clusterSectors fs c ++ chainSectors fs l := List.flatMap_cons

variable {l lbas : List ℕ} {lba : ℕ}

theorem mem_chainSectors : lba ∈ chainSectors fs l ↔ ∃ c ∈ l, lba ∈ clusterSectors fs c :=
  List.mem_flatMap

theorem length_clusterSectors (fs : Fat32State δ) (c : ℕ) : (clusterSectors fs c).length = fs.sectorsPerCluster := by
  simp [clusterSectors]

theorem length_chainSectors (fs : Fat32State δ) (l : List ℕ) :
    (chainSectors fs l).length = l.length * fs.sectorsPerCluster := by
  induction l with
  | nil => simp [chainSectors]
  | cons c l ih =>
    rw [chainSectors_cons, List.length_append, length_clusterSectors, ih, List.length_cons, Nat.succ_mul, Nat.add_comm]

theorem nodup_clusterSectors (h : Online fs dev content) {c : ℕ} (hc : clusterIsValid fs c) : (clusterSectors fs c).Nodup := by
  refine List.Nodup.map_on (fun s hs s' hs' heq => ?_) List.nodup_range
  exact (h.data_distinct c c hc hc s (List.mem_range.1 hs) s' (List.mem_range.1 hs') heq).2

theorem nodup_chainSectors (h : Online fs dev content) (hl : ∀ c ∈ l, clusterIsValid fs c) (hnodup : l.Nodup) :
    (chainSectors fs l).Nodup := by
  induction l with
  | nil => exact List.nodup_nil
  | cons c l ih =>
    obtain ⟨hnot, hnodup⟩ := List.nodup_cons.1 hnodup
    rw [chainSectors_cons]
    refine List.Nodup.append (nodup_clusterSectors h (hl c (by simp))) (ih (fun d hd => hl d (by simp [hd])) hnodup) ?_
    intro lba hlba hlba'
    obtain ⟨d, hd, hmem⟩ := mem_chainSectors.1 hlba'
    exact hnot (clusterSectors_disjoint h (hl c (by simp)) (hl d (by simp [hd])) hlba hmem ▸ hd)

/-! ### Storing -/

/-- The disk after data is stored in sectors, as far as there is data. -/
def stored : List ℕ → List UInt8 → (ℕ → Sector) → ℕ → Sector
  | [], _, disk => disk
  | lba :: lbas, rest, disk =>
    if rest = [] then disk else stored lbas (rest.drop 512) (Function.update disk lba (padSector rest))

@[simp] theorem stored_nil (lbas : List ℕ) (disk : ℕ → Sector) : stored lbas [] disk = disk := by
  cases lbas with
  | nil => rfl
  | cons lba lbas => exact if_pos rfl

theorem stored_append (lbas lbas' : List ℕ) (rest : List UInt8) (disk : ℕ → Sector) :
    stored (lbas ++ lbas') rest disk = stored lbas' (rest.drop (512 * lbas.length)) (stored lbas rest disk) := by
  induction lbas generalizing rest disk with
  | nil => rfl
  | cons lba lbas ih =>
    rw [List.cons_append, stored, stored]
    split_ifs with hrest
    · simp [hrest]
    · rw [ih, List.drop_drop, List.length_cons]
      congr 2
      omega

theorem stored_of_not_mem (hl : lba ∉ lbas) (rest : List UInt8) (disk : ℕ → Sector) :
    stored lbas rest disk lba = disk lba := by
  induction lbas generalizing rest disk with
  | nil => rfl
  | cons a lbas ih =>
    rw [stored]
    split_ifs
    · rfl
    · rw [ih (by simp_all), Function.update_of_ne (by rintro rfl; simp at hl)]

section

variable (h : Online fs dev content)
include h

theorem evals_writeSectors (ha : AlwaysWrites dev) (lbas : List ℕ) (rest : List UInt8) (disk : ℕ → Sector) :
    Evals (OnDisk content disk) (writeSectors fs lbas rest) (.ok (rest.drop (512 * lbas.length)))
      (OnDisk content (stored lbas rest disk)) := by
  induction lbas generalizing rest disk with
  | nil => exact Evals.pure rest
  | cons lba lbas ih =>
    rw [writeSectors, stored]
    split_ifs with hrest
    · simpa [hrest] using Evals.pure (P := OnDisk content disk) ([] : List UInt8)
    · have hnext := ih (rest.drop 512) (Function.update disk lba (padSector rest))
      rw [List.drop_drop, show 512 + 512 * lbas.length = 512 * (lba :: lbas).length by simp; omega] at hnext
      exact ((stores_write h disk lba (padSector rest)).evals ha).orElse.bind hnext

variable {l : List ℕ} {fuel c : ℕ}

/-- Storing data in clusters touches no link. -/
theorem fatVal_stored (hl : ∀ c ∈ l, clusterIsValid fs c) (rest : List UInt8)
    (disk : ℕ → Sector) {d : ℕ} (hd : clusterIsValid fs d) :
    fatVal fs (stored (chainSectors fs l) rest disk) d = fatVal fs disk d := by
  have hnot : fatSector fs 0 d ∉ chainSectors fs l := by
    intro hmem
    obtain ⟨c, hc, hlba⟩ := mem_chainSectors.1 hmem
    exact notInTable_of_mem h (hl c hc) hlba 0 h.fatCount_pos d hd rfl
  rw [fatVal, fatVal, fatEntry, fatEntry, stored_of_not_mem hnot]

theorem frame_stored (hl : ∀ c ∈ l, clusterIsValid fs c) (rest : List UInt8)
    (disk : ℕ → Sector) : Frame fs {c | c ∈ l} disk (stored (chainSectors fs l) rest disk) := by
  intro d hd hn
  refine ⟨fatVal_stored h hl rest disk hd, fun lba hlba => stored_of_not_mem (fun hmem => hn ?_) rest disk⟩
  obtain ⟨c, hc, hlba'⟩ := mem_chainSectors.1 hmem
  exact clusterSectors_disjoint h hd (hl c hc) hlba hlba' ▸ hc

/-- Data that fits the chain is stored along it. -/
theorem evals_writeClusters (ha : AlwaysWrites dev) (hl : Chain fs disk c l)
    (hf : l.length ≤ fuel) {rest : List UInt8} (hrest : rest.length ≤ 512 * (chainSectors fs l).length) :
    Evals (OnDisk content disk) (writeClusters fs fuel c rest) (.ok ()) (OnDisk content (stored (chainSectors fs l) rest disk)) := by
  induction fuel generalizing c l disk rest with
  | zero => exact absurd (List.length_eq_zero_iff.1 (Nat.le_zero.1 hf)) hl.ne_nil
  | succ fuel ih =>
    rw [writeClusters]
    by_cases hnil : rest = []
    · rw [if_neg fun hand => hand.2 hnil, hnil, stored_nil]
      exact Evals.pure ()
    rw [if_pos ⟨hl.two_le, hnil⟩]
    have hc := hl.inChain
    refine (evals_writeSectors h ha (clusterSectors fs c) rest disk).bind ?_
    have hone : ∀ d, d ∈ [c] → clusterIsValid fs d := by
      intro d hd
      obtain rfl : d = c := by simpa using hd
      exact hc.1
    have hsame : ∀ d, clusterIsValid fs d → fatVal fs (stored (clusterSectors fs c) rest disk) d = fatVal fs disk d := by
      intro d hd
      have hkeep := fatVal_stored h hone rest disk hd
      rwa [chainSectors_cons, chainSectors, List.flatMap_nil, List.append_nil] at hkeep
    split_ifs with hdone
    · -- the data ends in this cluster
      have hall : stored (chainSectors fs l) rest disk = stored (clusterSectors fs c) rest disk := by
        rcases hl.cases with ⟨-, rfl⟩ | ⟨l', -, rfl, -⟩
        · rw [chainSectors_cons, stored_append, hdone, stored_nil]
        · rw [chainSectors_cons, stored_append, hdone, stored_nil]
      rw [hall]
      exact Evals.pure ()
    · rcases hl.cases with ⟨-, rfl⟩ | ⟨l', hl', rfl, -⟩
      · refine absurd (List.drop_eq_nil_of_le ?_) hdone
        simpa [chainSectors] using hrest
      · have hnext := evals_nextCluster_ok h (stored (clusterSectors fs c) rest disk) hc.1 (by rw [hsame c hc.1]; exact hl.not_badLink)
        rw [hsame c hc.1] at hnext
        refine hnext.orElse.bind ?_
        rw [if_neg (not_le.2 hl'.inChain.2), chainSectors_cons, stored_append]
        refine ih (hl'.congr fun d hd => hsame d (hl'.2 d hd).1) (by simpa using hf) ?_
        rw [chainSectors_cons, List.length_append] at hrest
        rw [List.length_drop]
        omega

/-! ### Reading -/

/-- Reading along a chain: all its sectors, up to the size. -/
theorem evals_readClusters {batch : ℕ} (hb : 1 ≤ batch) {size : ℕ}
    (hl : Chain fs disk c l) (hf : l.length ≤ fuel) (written : List UInt8) :
    Evals (OnDisk content disk) (readClusters fs size batch fuel c written) (.ok (readDisk size disk (chainSectors fs l) written))
      (OnDisk content disk) := by
  induction fuel generalizing c l written with
  | zero => exact absurd (List.length_eq_zero_iff.1 (Nat.le_zero.1 hf)) hl.ne_nil
  | succ fuel ih =>
    rw [readClusters]
    have hc := hl.inChain
    by_cases hfull : written.length < size
    · rw [if_pos ⟨hl.two_le, hc.2, hfull⟩]
      refine (evals_readCluster h disk size hb c written).bind ?_
      split_ifs with hdone
      · have hall : readDisk size disk (chainSectors fs l) written = readDisk size disk (clusterSectors fs c) written := by
          rcases hl.cases with ⟨-, rfl⟩ | ⟨l', -, rfl, -⟩
          · rw [chainSectors_cons, readDisk_append, readDisk_full disk _ hdone]
          · rw [chainSectors_cons, readDisk_append, readDisk_full disk _ hdone]
        rw [hall]
        exact Evals.pure _
      · refine (evals_nextCluster_ok h disk hc.1 hl.not_badLink).bind ?_
        rcases hl.cases with ⟨heoc, rfl⟩ | ⟨l', hl', rfl, -⟩
        · rw [if_pos heoc, chainSectors_cons, readDisk_append]
          exact Evals.pure _
        · rw [if_neg (not_le.2 hl'.inChain.2), chainSectors_cons, readDisk_append]
          exact ih hl' (by simpa using hf) _
    · rw [if_neg fun hand => hfull hand.2.2, readDisk_full disk _ (not_lt.1 hfull)]
      exact Evals.pure written

end

theorem readDisk_nil (size : ℕ) (disk : ℕ → Sector) (written : List UInt8) : readDisk size disk [] written = written := rfl

theorem readDisk_cons (size : ℕ) (disk : ℕ → Sector) (lba : ℕ) (lbas : List ℕ) (written : List UInt8) :
    readDisk size disk (lba :: lbas) written =
      readDisk size disk lbas (written ++ (Sector.toList (disk lba)).take (size - written.length)) := rfl

theorem readDisk_congr {size : ℕ} {disk' : ℕ → Sector} (h : ∀ lba ∈ lbas, disk' lba = disk lba)
    (written : List UInt8) : readDisk size disk' lbas written = readDisk size disk lbas written := by
  induction lbas generalizing written with
  | nil => rw [readDisk_nil, readDisk_nil]
  | cons lba lbas ih =>
    rw [readDisk_cons, readDisk_cons, h lba (by simp)]
    exact ih (fun l hl => h l (by simp [hl])) _

theorem toList_padSector (rest : List UInt8) : (Sector.toList (padSector rest)).take rest.length = rest.take 512 := by
  refine List.ext_getElem? fun i => ?_
  rw [List.getElem?_take, List.getElem?_take]
  by_cases hi : i < 512
  · rw [if_pos hi]
    split_ifs with hlen
    · rw [Sector.toList, List.getElem?_map, List.getElem?_range hi, Option.map_some, List.getElem?_eq_getElem hlen]
      simp [padSector, Block.get_of_lt _ hi, hlen]
    · rw [List.getElem?_eq_none (by omega)]
  · rw [if_neg hi]
    split_ifs
    · rw [List.getElem?_eq_none (by rw [length_toList]; omega)]
    · rfl

/-- What was stored is read back. -/
theorem readDisk_stored (hnodup : lbas.Nodup) {rest : List UInt8} (hlen : rest.length ≤ 512 * lbas.length)
    (written : List UInt8) (disk : ℕ → Sector) :
    readDisk (written.length + rest.length) (stored lbas rest disk) lbas written = written ++ rest := by
  induction lbas generalizing rest written disk with
  | nil =>
    obtain rfl : rest = [] := List.length_eq_zero_iff.1 (by simpa using hlen)
    simp [readDisk]
  | cons lba lbas ih =>
    obtain ⟨hnot, hnodup⟩ := List.nodup_cons.1 hnodup
    by_cases hnil : rest = []
    · rw [hnil, List.length_nil, Nat.add_zero, readDisk_full _ _ (le_refl _), List.append_nil]
    have hfirst : stored (lba :: lbas) rest disk lba = padSector rest := by
      rw [stored, if_neg hnil, stored_of_not_mem hnot, Function.update_self]
    have hbytes : written ++ (Sector.toList (padSector rest)).take (written.length + rest.length - written.length) =
        written ++ rest.take 512 := by
      rw [Nat.add_sub_cancel_left, toList_padSector]
    rw [readDisk_cons, hfirst, hbytes, stored, if_neg hnil]
    have hrest : (rest.drop 512).length ≤ 512 * lbas.length := by
      rw [List.length_drop]
      rw [List.length_cons] at hlen
      omega
    have hnext := ih hnodup hrest (written ++ rest.take 512) (Function.update disk lba (padSector rest))
    have hsize : (written ++ rest.take 512).length + (rest.drop 512).length = written.length + rest.length := by
      simp only [List.length_append, List.length_take, List.length_drop]
      omega
    rw [hsize, List.append_assoc, List.take_append_drop] at hnext
    exact hnext

end Tg11Kernel.Fat32
