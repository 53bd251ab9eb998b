import Tg11Kernel.Fat32.Chains

/-! The search for a free cluster. It tries every valid cluster, from the hint to the last
one and then from the first one to the hint, and it reads each entry through the function
that follows links. An entry that is no link, such as a bad-cluster mark, ends the search
where it is met. -/

namespace Tg11Kernel.Fat32

open Lib Exec

variable {δ : Type} {fs : Fat32State δ} {dev : BlockDevice δ} {content : δ → ℕ → Sector} {disk disk' : ℕ → Sector}

/-! ### The search -/

/-- A valid cluster whose entry is zero. -/
def Free (fs : Fat32State δ) (disk : ℕ → Sector) (c : ℕ) : Prop := clusterIsValid fs c ∧ fatVal fs disk c = 0

instance (fs : Fat32State δ) (disk : ℕ → Sector) (c : ℕ) : Decidable (Free fs disk c) := inferInstanceAs (Decidable (_ ∧ _))

/-- The cluster at which `fat32_alloc_cluster` starts. -/
def scanStart (fs : Fat32State δ) (hint : ℕ) : ℕ := if clusterIsValid fs hint then hint else 2

/-- The clusters in the order in which `fat32_alloc_cluster` tries them. -/
def scanOrder (fs : Fat32State δ) (hint : ℕ) : List ℕ :=
  List.range' (scanStart fs hint) (fs.maxDataCluster + 1 - scanStart fs hint) ++ List.range' 2 (scanStart fs hint - 2)

/-- What a search along a list of clusters finds: the first free one, if no bad link is met before. -/
def found (fs : Fat32State δ) (disk : ℕ → Sector) : List ℕ → Outcome (Option ℕ)
  | [] => .ok none
  | c :: l =>
    if badLink fs (fatVal fs disk c) then .fail
    else if fatVal fs disk c = 0 then .ok (some c)
    else found fs disk l

/-- The disk after a search. -/
def afterFound (fs : Fat32State δ) (disk : ℕ → Sector) : Outcome (Option ℕ) → ℕ → Sector
  | .ok (some c) => claimed fs c disk
  | _ => disk

/-- What an allocation returns after a search. -/
def foundCluster : Outcome (Option ℕ) → Outcome ℕ
  | .ok (some c) => .ok c
  | .ok none => .fail
  | .fail => .fail
  | .hang => .hang

/-- Along the list a free cluster comes before any bad link. -/
def ReachesFree (fs : Fat32State δ) (disk : ℕ → Sector) (l : List ℕ) : Prop :=
  ∃ before c after, l = before ++ c :: after ∧ fatVal fs disk c = 0 ∧ ∀ d ∈ before, ¬ badLink fs (fatVal fs disk d)

theorem scanStart_valid (hm : Mounted fs) (hint : ℕ) : 2 ≤ scanStart fs hint ∧ scanStart fs hint ≤ fs.maxDataCluster := by
  have hroot := hm.rootCluster
  rw [scanStart]
  split_ifs with hv
  · exact ⟨hv.1, hv.2.2⟩
  · exact ⟨le_refl 2, hroot.1.trans hroot.2.2⟩

theorem mem_scanOrder (hm : Mounted fs) (hint c : ℕ) : c ∈ scanOrder fs hint ↔ clusterIsValid fs c := by
  have hstart := scanStart_valid hm hint
  have hne := hm.rootCluster.2.1
  simp only [scanOrder, List.mem_append, List.mem_range'_1, clusterIsValid]
  omega

theorem found_append (l l' : List ℕ) :
    found fs disk (l ++ l') = if found fs disk l = .ok none then found fs disk l' else found fs disk l := by
  induction l with
  | nil => simp [found]
  | cons c l ih =>
    simp only [List.cons_append, found]
    split_ifs <;> simp_all

theorem found_ne_hang (l : List ℕ) : found fs disk l ≠ .hang := by
  induction l with
  | nil => simp [found]
  | cons c l ih =>
    rw [found]
    split_ifs
    · simp
    · simp
    · exact ih

variable {c lba i : ℕ} {w : Driver δ}

/-- A cluster that is found is on the list and free. -/
theorem mem_of_found {l : List ℕ} (h : found fs disk l = .ok (some c)) : c ∈ l ∧ fatVal fs disk c = 0 := by
  induction l with
  | nil => simp [found] at h
  | cons d l ih =>
    rw [found] at h
    split_ifs at h with hbad hzero
    · obtain rfl : d = c := by simpa using h
      exact ⟨by simp, hzero⟩
    · obtain ⟨hmem, hc⟩ := ih h
      exact ⟨by simp [hmem], hc⟩

theorem reachesFree_cons (c : ℕ) (l : List ℕ) : ReachesFree fs disk (c :: l) ↔
      fatVal fs disk c = 0 ∨ (¬ badLink fs (fatVal fs disk c) ∧ ReachesFree fs disk l) := by
  constructor
  · rintro ⟨before, d, after, hl, hd, hbefore⟩
    cases before with
    | nil =>
      obtain ⟨rfl, -⟩ := List.cons.inj hl
      exact .inl hd
    | cons e before =>
      obtain ⟨rfl, hrest⟩ := List.cons.inj hl
      exact .inr ⟨hbefore c (by simp), before, d, after, hrest, hd, fun x hx => hbefore x (by simp [hx])⟩
  · rintro (hc | ⟨hc, before, d, after, rfl, hd, hbefore⟩)
    · exact ⟨[], c, l, rfl, hc, by simp⟩
    · exact ⟨c :: before, d, after, rfl, hd, by simpa [hc] using hbefore⟩

/-- The search succeeds exactly where it reaches a free cluster. -/
theorem found_iff (l : List ℕ) : (∃ c, found fs disk l = .ok (some c)) ↔ ReachesFree fs disk l := by
  induction l with
  | nil => simp [found, ReachesFree]
  | cons c l ih =>
    rw [reachesFree_cons, found, ← ih]
    by_cases hzero : fatVal fs disk c = 0
    · have hbad : ¬ badLink fs 0 := not_badLink_of_lt (by omega)
      simp [hzero, hbad]
    · by_cases hbad : badLink fs (fatVal fs disk c)
      · simp [hzero, hbad]
      · simp [hzero, hbad]

/-! ### The driver's search -/

theorem evals_allocScan (h : Online fs dev content) (ha : AlwaysWrites dev) (disk : ℕ → Sector) (n c : ℕ)
    (hv : ∀ d ∈ List.range' c n, clusterIsValid fs d) :
    Evals (OnDisk content disk) (allocScan fs n c) (found fs disk (List.range' c n))
      (OnDisk content (afterFound fs disk (found fs disk (List.range' c n)))) := by
  induction n generalizing c with
  | zero => exact Evals.pure none
  | succ n ih =>
    have hc : clusterIsValid fs c := hv c (by simp)
    have hrest : ∀ d ∈ List.range' (c + 1) n, clusterIsValid fs d := by
      intro d hd
      apply hv
      rw [List.range'_succ]
      exact List.mem_cons_of_mem _ hd
    rw [List.range'_succ, found, allocScan]
    by_cases hbad : badLink fs (fatVal fs disk c)
    · have hnext := evals_nextCluster h disk c
      rw [nextResult, if_neg (fun hand => hand.2 hbad)] at hnext
      rw [if_pos hbad]
      exact hnext.bind_fail
    · rw [if_neg hbad]
      refine (evals_nextCluster_ok h disk hc hbad).bind ?_
      by_cases hzero : fatVal fs disk c = 0
      · rw [if_pos hzero, if_pos hzero]
        exact ((stores_claimCluster h disk hc).evals ha).bind (Evals.pure _)
      · rw [if_neg hzero, if_neg hzero]
        exact ih (c + 1) hrest

/-- `fat32_alloc_cluster` takes what the search along its order finds. -/
theorem allocCluster_found (h : Online fs dev content) (ha : AlwaysWrites dev) (hw : OnDisk content disk w) :
    ∃ w', allocCluster fs w = (foundCluster (found fs disk (scanOrder fs w.allocHintCluster)), w') ∧
      OnDisk content (afterFound fs disk (found fs disk (scanOrder fs w.allocHintCluster))) w' := by
  have hgets : Exec.gets (fun w : Driver δ => w.allocHintCluster) w = (.ok w.allocHintCluster, w) := rfl
  have hmem : ∀ d ∈ scanOrder fs w.allocHintCluster, clusterIsValid fs d :=
    fun d hd => (mem_scanOrder h.toMounted w.allocHintCluster d).1 hd
  rw [allocCluster, bind_ok hgets]
  rw [scanOrder] at hmem ⊢
  obtain ⟨w₁, h₁, hw₁⟩ := evals_allocScan h ha disk _ _ (fun d hd => hmem d (List.mem_append_left _ hd)) w hw
  rw [found_append]
  rcases hfirst : found fs disk (List.range' (scanStart fs w.allocHintCluster)
    (fs.maxDataCluster + 1 - scanStart fs w.allocHintCluster)) with (_ | c) | _ | _
  · rw [hfirst] at h₁ hw₁
    obtain ⟨w₂, h₂, hw₂⟩ := evals_allocScan h ha disk _ _ (fun d hd => hmem d (List.mem_append_right _ hd)) w₁ hw₁
    rw [if_pos rfl]
    refine ⟨w₂, (bind_ok h₁).trans ?_, hw₂⟩
    rcases hrest : found fs disk (List.range' 2 (scanStart fs w.allocHintCluster - 2)) with (_ | c) | _ | _
    · rw [hrest] at h₂
      exact bind_ok h₂
    · rw [hrest] at h₂
      exact bind_ok h₂
    · rw [hrest] at h₂
      exact bind_fail h₂
    · exact absurd hrest (found_ne_hang _)
  · rw [hfirst] at h₁ hw₁
    exact ⟨w₁, bind_ok h₁, hw₁⟩
  · rw [hfirst] at h₁ hw₁
    exact ⟨w₁, bind_fail h₁, hw₁⟩
  · exact absurd hfirst (found_ne_hang _)

/-- `fat32_get_free_bytes` counts, unless an entry is no link. -/
theorem evals_countFree (h : Online fs dev content) (disk : ℕ → Sector) (n c : ℕ)
    (hv : ∀ d ∈ List.range' c n, clusterIsValid fs d) :
    Evals (OnDisk content disk) (countFree fs n c)
      (if ∀ d ∈ List.range' c n, ¬ badLink fs (fatVal fs disk d) then
        .ok ((List.range' c n).countP fun d => fatVal fs disk d = 0) else .fail) (OnDisk content disk) := by
  induction n generalizing c with
  | zero => exact Evals.pure 0
  | succ n ih =>
    have hc : clusterIsValid fs c := hv c (by simp)
    have hrest : ∀ d ∈ List.range' (c + 1) n, clusterIsValid fs d := by
      intro d hd
      apply hv
      rw [List.range'_succ]
      exact List.mem_cons_of_mem _ hd
    rw [List.range'_succ, countFree]
    by_cases hbad : badLink fs (fatVal fs disk c)
    · have hnext := evals_nextCluster h disk c
      rw [nextResult, if_neg (fun hand => hand.2 hbad)] at hnext
      rw [if_neg (fun hall => hall c (by simp) hbad)]
      exact hnext.bind_fail
    · refine (evals_nextCluster_ok h disk hc hbad).bind ?_
      have htail := ih (c + 1) hrest
      have hcons : (∀ d ∈ c :: List.range' (c + 1) n, ¬ badLink fs (fatVal fs disk d)) ↔
          ∀ d ∈ List.range' (c + 1) n, ¬ badLink fs (fatVal fs disk d) :=
        List.forall_mem_cons.trans (and_iff_right hbad)
      by_cases hall : ∀ d ∈ List.range' (c + 1) n, ¬ badLink fs (fatVal fs disk d)
      · rw [if_pos hall] at htail
        rw [if_pos (hcons.2 hall), List.countP_cons]
        simp only [decide_eq_true_eq]
        exact htail.bind (Evals.pure _)
      · rw [if_neg hall] at htail
        rw [if_neg (hcons.not.2 hall)]
        exact htail.bind_fail

/-! ### What the calls promise -/

/-- The cluster was free; it holds the end mark in every copy of the table, its sectors are
zero, and no other entry and no other byte has changed. -/
structure Claims (fs : Fat32State δ) (disk : ℕ → Sector) (c : ℕ) (disk' : ℕ → Sector) : Prop where
  free : Free fs disk c
  endMark : ∀ k < fs.fatCount, fatEntry fs disk' k c % 2 ^ 28 = 0x0FFFFFFF
  zero : ∀ lba ∈ clusterSectors fs c, disk' lba = Block.zero
  entry : ∀ k < fs.fatCount, ∀ d, clusterIsValid fs d → d ≠ c → fatEntry fs disk' k d = fatEntry fs disk k d
  byte : ∀ lba, lba ∉ clusterSectors fs c → ∀ i,
    (∀ k < fs.fatCount, lba = fatSector fs k c → i < entOff fs c ∨ entOff fs c + 4 ≤ i) → (disk' lba).get i = (disk lba).get i

/-- `fat32_alloc_cluster` succeeds exactly where a cluster is free, and claims a free one. -/
structure AllocComplete (content : δ → ℕ → Sector) (fs : Fat32State δ) (disk : ℕ → Sector) (w : Driver δ) : Prop where
  succeeds_iff : (∃ c, (allocCluster fs w).1 = .ok c) ↔ ∃ c, Free fs disk c
  claims : ∀ c, (allocCluster fs w).1 = .ok c → ∃ disk', OnDisk content disk' (allocCluster fs w).2 ∧ Claims fs disk c disk'

/-- `fat32_get_free_bytes` succeeds with the size of the free clusters. -/
def FreeBytesExact (fs : Fat32State δ) (disk : ℕ → Sector) (w : Driver δ) : Prop :=
  (getFreeBytes fs w).1 =
    .ok (((validClusters fs).filter fun c => fatVal fs disk c = 0).card * (fs.sectorsPerCluster * fs.bytesPerSector))

/-- Setting a link changes only the four bytes of its entries. -/
theorem get_setCopies (value n k : ℕ) (hn : k + n ≤ fs.fatCount) (disk : ℕ → Sector)
    (hi : ∀ k < fs.fatCount, lba = fatSector fs k c → i < entOff fs c ∨ entOff fs c + 4 ≤ i) :
    (setCopies fs c value n k disk lba).get i = (disk lba).get i := by
  induction n generalizing k disk with
  | zero => rfl
  | succ n ih =>
    rw [setCopies, ih (k + 1) (by omega), setCopy]
    by_cases hl : lba = fatSector fs k c
    · have hout := hi k (by omega) hl
      rw [← hl, Function.update_self, putLink]
      rw [Block.get_set_ne _ _ (by omega), Block.get_set_ne _ _ (by omega), Block.get_set_ne _ _ (by omega),
        Block.get_set_ne _ _ (by omega)]
    · rw [Function.update_of_ne hl]

theorem rd32_congr {sec sec' : Sector} {off : ℕ} (h : ∀ i, off ≤ i → i < off + 4 → sec.get i = sec'.get i) :
    rd32 sec off = rd32 sec' off := by
  rw [rd32, rd32, h off (by omega) (by omega), h (off + 1) (by omega) (by omega), h (off + 2) (by omega) (by omega),
    h (off + 3) (by omega) (by omega)]

theorem get_claimed (hl : lba ∉ clusterSectors fs c)
    (hi : ∀ k < fs.fatCount, lba = fatSector fs k c → i < entOff fs c ∨ entOff fs c + 4 ≤ i) :
    (claimed fs c disk lba).get i = (disk lba).get i := by
  rw [claimed, zeroAt, if_neg hl, setFat]
  exact get_setCopies 0x0FFFFFFF _ 0 (by omega) disk hi

theorem claims_claimed (h : Online fs dev content) (hc : Free fs disk c) : Claims fs disk c (claimed fs c disk) := by
  have hnot : ∀ k < fs.fatCount, ∀ d, clusterIsValid fs d → fatSector fs k d ∉ clusterSectors fs c :=
    fun k hk d hd hmem => notInTable_of_mem h hc.1 hmem k hk d hd rfl
  constructor
  · exact hc
  · intro k hk
    rw [fatEntry, claimed, zeroAt, if_neg (hnot k hk c hc.1), ← fatEntry, fatEntry_setFat h hc.1 hc.1 _ hk, if_pos rfl]
    rfl
  · exact fun lba hl => claimed_sector hl disk
  · intro k hk d hd hne
    apply rd32_congr
    intro i hge hlt
    apply get_claimed (hnot k hk d hd)
    intro k' hk' hsec
    rcases entries_disjoint h hc.1 hd hk' hk (fun heq => hne heq.2.symm) with hother | hoff
    · exact absurd hsec.symm hother
    · omega
  · exact fun lba hl i hi => get_claimed hl hi

/-! ### When the calls keep it -/

theorem allocComplete_iff (h : Online fs dev content) (ha : AlwaysWrites dev) (hw : OnDisk content disk w) :
    AllocComplete content fs disk w ↔
      ((∃ c, Free fs disk c) → ReachesFree fs disk (scanOrder fs w.allocHintCluster)) := by
  obtain ⟨w', hrun, hw'⟩ := allocCluster_found h ha hw
  have hok : ∀ c, (allocCluster fs w).1 = .ok c ↔ found fs disk (scanOrder fs w.allocHintCluster) = .ok (some c) := by
    intro c
    rw [hrun]
    rcases found fs disk (scanOrder fs w.allocHintCluster) with (_ | d) | _ | _ <;> simp [foundCluster]
  have hfree : ∀ c, (allocCluster fs w).1 = .ok c → Free fs disk c := by
    intro c hc
    obtain ⟨hmem, hzero⟩ := mem_of_found ((hok c).1 hc)
    exact ⟨(mem_scanOrder h.toMounted _ c).1 hmem, hzero⟩
  have hreach : (∃ c, (allocCluster fs w).1 = .ok c) ↔ ReachesFree fs disk (scanOrder fs w.allocHintCluster) := by
    rw [← found_iff]
    exact exists_congr hok
  constructor
  · intro hcomplete hex
    exact hreach.1 (hcomplete.succeeds_iff.2 hex)
  · intro hcond
    constructor
    · constructor
      · rintro ⟨c, hc⟩
        exact ⟨c, hfree c hc⟩
      · exact fun hex => hreach.2 (hcond hex)
    · intro c hc
      rw [(hok c).1 hc] at hw'
      rw [hrun]
      exact ⟨_, hw', claims_claimed h (hfree c hc)⟩

theorem count_validClusters (hm : Mounted fs) (p : ℕ → Prop) [DecidablePred p] :
    (List.range' 2 (fs.maxDataCluster - 1)).countP (fun c => p c) = ((validClusters fs).filter p).card := by
  have hset : validClusters fs = (List.range' 2 (fs.maxDataCluster - 1)).toFinset := by
    ext c
    rw [validClusters, Finset.mem_Icc, List.mem_toFinset, List.mem_range'_1, hm.maxDataCluster]
    omega
  have hnodup : (List.range' 2 (fs.maxDataCluster - 1)).Nodup := List.nodup_range'
  have hfilter : (List.range' 2 (fs.maxDataCluster - 1)).toFinset.filter p =
      ((List.range' 2 (fs.maxDataCluster - 1)).filter fun c => p c).toFinset := by
    ext c
    simp
  rw [hset, hfilter, List.toFinset_card_of_nodup (hnodup.filter _), List.countP_eq_length_filter]

theorem freeBytesExact_iff (h : Online fs dev content) (hw : OnDisk content disk w) :
    FreeBytesExact fs disk w ↔ ∀ c, clusterIsValid fs c → ¬ badLink fs (fatVal fs disk c) := by
  have hmem : ∀ c, c ∈ List.range' 2 (fs.maxDataCluster - 1) ↔ clusterIsValid fs c := by
    intro c
    have hne := h.rootCluster.2.1
    rw [List.mem_range'_1, clusterIsValid]
    omega
  have hcount := evals_countFree h disk _ 2 fun d hd => (hmem d).1 hd
  have hall : (∀ d ∈ List.range' 2 (fs.maxDataCluster - 1), ¬ badLink fs (fatVal fs disk d)) ↔
      ∀ c, clusterIsValid fs c → ¬ badLink fs (fatVal fs disk c) := by
    simp only [hmem]
  rw [FreeBytesExact, getFreeBytes, require_pos h.mounted, pure_bind_eq]
  by_cases hgood : ∀ c, clusterIsValid fs c → ¬ badLink fs (fatVal fs disk c)
  · rw [if_pos (hall.2 hgood), count_validClusters h.toMounted] at hcount
    obtain ⟨w', hrun, -⟩ := hcount w hw
    rw [bind_ok hrun]
    exact iff_of_true rfl hgood
  · rw [if_neg (hall.not.2 hgood)] at hcount
    obtain ⟨w', hrun, -⟩ := hcount w hw
    rw [bind_fail hrun]
    simpa using hgood

/-- The search along its order needs a free cluster before every bad link; the count needs that
there is no bad link at all. -/
theorem allocation_iff (h : Online fs dev content) (ha : AlwaysWrites dev) {w : Driver δ} (hw : OnDisk content disk w) :
    (AllocComplete content fs disk w ↔
        ((∃ c, Free fs disk c) → ReachesFree fs disk (scanOrder fs w.allocHintCluster))) ∧
      (FreeBytesExact fs disk w ↔ ∀ c, clusterIsValid fs c → ¬ badLink fs (fatVal fs disk c)) ∧
      (AllocComplete content fs disk w ∧ FreeBytesExact fs disk w ↔
        ∀ c, clusterIsValid fs c → ¬ badLink fs (fatVal fs disk c)) := by
  have halloc := allocComplete_iff h ha hw
  have hbytes := freeBytesExact_iff h hw
  refine ⟨halloc, hbytes, fun hboth => hbytes.1 hboth.2, fun hgood => ⟨halloc.2 ?_, hbytes.2 hgood⟩⟩
  rintro ⟨c, hc⟩
  obtain ⟨before, after, hsplit⟩ := List.append_of_mem ((mem_scanOrder h.toMounted w.allocHintCluster c).2 hc.1)
  refine ⟨before, c, after, hsplit, hc.2, fun d hd => hgood d ?_⟩
  rw [← mem_scanOrder h.toMounted w.allocHintCluster, hsplit]
  exact List.mem_append_left _ hd

/-- A disk whose first cluster is marked bad; all others are free. -/
def markedDisk : ℕ → Sector := fun lba =>
  if lba = 1 then (((Block.zero.set 8 0xF7).set 9 0xFF).set 10 0xFF).set 11 0x0F else Block.zero

theorem writes_diskDevice : AlwaysWrites diskDevice := ⟨_, rfl, fun _ _ _ => rfl⟩

theorem marked_two : fatVal (smallVolume diskDevice) markedDisk 2 = 0x0FFFFFF7 := by decide

theorem badLink_marked : badLink (smallVolume diskDevice) (fatVal (smallVolume diskDevice) markedDisk 2) := by
  rw [marked_two]
  decide

theorem allocation_marked :
    (AllocComplete id (smallVolume diskDevice) markedDisk (initialDriver markedDisk) ↔
        ((∃ c, Free (smallVolume diskDevice) markedDisk c) →
          ReachesFree (smallVolume diskDevice) markedDisk (scanOrder (smallVolume diskDevice) 0))) ∧
      (FreeBytesExact (smallVolume diskDevice) markedDisk (initialDriver markedDisk) ↔
        ∀ c, clusterIsValid (smallVolume diskDevice) c →
          ¬ badLink (smallVolume diskDevice) (fatVal (smallVolume diskDevice) markedDisk c)) ∧
      (AllocComplete id (smallVolume diskDevice) markedDisk (initialDriver markedDisk) ∧
          FreeBytesExact (smallVolume diskDevice) markedDisk (initialDriver markedDisk) ↔
        ∀ c, clusterIsValid (smallVolume diskDevice) c →
          ¬ badLink (smallVolume diskDevice) (fatVal (smallVolume diskDevice) markedDisk c)) :=
  allocation_iff smallVolume_online writes_diskDevice (onDisk_initialDriver markedDisk)

/-- A hundred clusters but one are free, and neither call succeeds. -/
theorem not_allocation : ¬ AllocComplete id (smallVolume diskDevice) markedDisk (initialDriver markedDisk) ∧
    ¬ FreeBytesExact (smallVolume diskDevice) markedDisk (initialDriver markedDisk) := by
  constructor
  · intro hcomplete
    have hfree : Free (smallVolume diskDevice) markedDisk 3 := by decide
    obtain ⟨before, c, after, hl, hzero, hbefore⟩ :=
      (allocComplete_iff smallVolume_online writes_diskDevice (onDisk_initialDriver markedDisk)).1 hcomplete ⟨3, hfree⟩
    have horder : scanOrder (smallVolume diskDevice) (initialDriver markedDisk).allocHintCluster = 2 :: List.range' 3 99 := rfl
    rw [horder] at hl
    cases before with
    | nil =>
      obtain ⟨rfl, -⟩ := List.cons.inj hl
      rw [marked_two] at hzero
      exact absurd hzero (by decide)
    | cons d before =>
      obtain ⟨rfl, -⟩ := List.cons.inj hl
      exact hbefore 2 (by simp) badLink_marked
  · intro hexact
    exact (freeBytesExact_iff smallVolume_online (onDisk_initialDriver markedDisk)).1 hexact 2 (by decide) badLink_marked

end Tg11Kernel.Fat32
