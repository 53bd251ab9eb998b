import Tg11Kernel.Fat32.Termination

/-! Cluster chains on a disk: the clusters of a file or a directory, each linked to
the next and the last one to an end mark. What the driver does to chains is known by
the clusters it may change: freeing a chain clears its links, and allocating one takes
free clusters, zeroes them and links them. All other clusters keep their link and
their sectors. -/

namespace Tg11Kernel.Fat32

open Lib Exec

variable {δ : Type} {fs : Fat32State δ} {dev : BlockDevice δ} {content : δ → ℕ → Sector} {disk disk' disk'' : ℕ → Sector}

theorem eoc_le_endMark : FAT32_EOC ≤ 0x0FFFFFFF := by decide

/-! ### Chains -/

/-- The cluster after `c`, unless `c` has an end mark. -/
def link (fs : Fat32State δ) (disk : ℕ → Sector) (c : ℕ) : Option ℕ :=
  if FAT32_EOC ≤ fatVal fs disk c then none else some (fatVal fs disk c)

/-- `l` is the chain that starts with `c`: valid clusters up to an end mark. -/
def Chain (fs : Fat32State δ) (disk : ℕ → Sector) (c : ℕ) (l : List ℕ) : Prop :=
  IsChain (link fs disk) (some c) l ∧ ∀ d ∈ l, inChain fs d

namespace Chain

variable {c : ℕ} {l l' : List ℕ}

section

variable (h : Chain fs disk c l)
include h

theorem unique (h' : Chain fs disk c l') : l = l' := h.1.unique h'.1

theorem nodup : l.Nodup := h.1.nodup

theorem head_mem : c ∈ l := h.1.head_mem

theorem inChain : inChain fs c := h.2 c h.head_mem

theorem ne_nil : l ≠ [] := List.ne_nil_of_mem h.head_mem

theorem two_le : 2 ≤ c := h.inChain.1.1

/-- A chain is its first cluster, and nothing or another chain. -/
theorem cases : (FAT32_EOC ≤ fatVal fs disk c ∧ l = [c]) ∨
      ∃ l', Chain fs disk (fatVal fs disk c) l' ∧ l = c :: l' ∧ c ∉ l' := by
  have hnodup := h.nodup
  obtain ⟨hchain, hin⟩ := h
  cases l with
  | nil => exact absurd hchain (by simp)
  | cons d l =>
    obtain ⟨hd, hrest⟩ := hchain
    obtain rfl : c = d := Option.some.inj hd
    rw [link] at hrest
    split_ifs at hrest with heoc
    · cases l with
      | nil => exact .inl ⟨heoc, rfl⟩
      | cons e l => exact absurd hrest.1 (by simp)
    · exact .inr ⟨l, ⟨hrest, fun d hd => hin d (by simp [hd])⟩, rfl, (List.nodup_cons.1 hnodup).1⟩

theorem congr (hl : ∀ d ∈ l, fatVal fs disk' d = fatVal fs disk d) : Chain fs disk' c l := by
  refine ⟨h.1.congr fun d hd => ?_, h.2⟩
  rw [link, link, hl d hd]

theorem link_ne_zero {d : ℕ} (hd : d ∈ l) : fatVal fs disk d ≠ 0 := by
  induction l generalizing c with
  | nil => simp at hd
  | cons e l ih =>
    rcases h.cases with ⟨heoc, hl⟩ | ⟨l', hl', hl, -⟩
    · obtain ⟨rfl, rfl⟩ := List.cons.inj hl
      obtain rfl : d = e := by simpa using hd
      rw [FAT32_EOC] at heoc
      omega
    · obtain ⟨rfl, rfl⟩ := List.cons.inj hl
      rcases List.mem_cons.1 hd with rfl | hd
      · have := hl'.two_le
        omega
      · exact ih hl' hd

theorem length_le (hm : Mounted fs) : l.length ≤ fs.dataClusters := by
  have hsub : l.toFinset ⊆ validClusters fs := by
    intro d hd
    exact (mem_validClusters hm d).2 (h.2 d (List.mem_toFinset.1 hd)).1
  have hcard := Finset.card_le_card hsub
  rwa [List.toFinset_card_of_nodup h.nodup, card_validClusters] at hcard

theorem not_badLink : ¬ badLink fs (fatVal fs disk c) := by
  rcases h.cases with ⟨heoc, -⟩ | ⟨l', hl', -, -⟩
  · exact fun hbad => absurd hbad.2.1 (not_lt.2 heoc)
  · exact not_badLink_of_valid hl'.inChain.1

end

end Chain

/-! ### What may change -/

/-- The cluster has the same link and the same sectors on both disks. -/
structure Agree (fs : Fat32State δ) (disk disk' : ℕ → Sector) (c : ℕ) : Prop where
  link : fatVal fs disk' c = fatVal fs disk c
  sector : ∀ lba ∈ clusterSectors fs c, disk' lba = disk lba

/-- Only the clusters in `F` may differ. -/
def Frame (fs : Fat32State δ) (F : Set ℕ) (disk disk' : ℕ → Sector) : Prop :=
  ∀ c, clusterIsValid fs c → c ∉ F → Agree fs disk disk' c

namespace Frame

variable {F G : Set ℕ}

theorem refl (F : Set ℕ) (disk : ℕ → Sector) : Frame fs F disk disk := fun _ _ _ => ⟨rfl, fun _ _ => rfl⟩

theorem mono (h : Frame fs F disk disk') (hFG : F ⊆ G) : Frame fs G disk disk' :=
  fun c hc hn => h c hc fun hF => hn (hFG hF)

theorem trans (h : Frame fs F disk disk') (h' : Frame fs F disk' disk'') : Frame fs F disk disk'' := by
  intro c hc hn
  obtain ⟨hlink, hsector⟩ := h c hc hn
  obtain ⟨hlink', hsector'⟩ := h' c hc hn
  exact ⟨hlink'.trans hlink, fun lba hlba => (hsector' lba hlba).trans (hsector lba hlba)⟩

end Frame

section

variable (h : Online fs dev content)
include h

variable {c d : ℕ}

theorem setFat_sector (hc : clusterIsValid fs c) (hd : clusterIsValid fs d) (value : ℕ)
    (disk : ℕ → Sector) {lba : ℕ} (hl : lba ∈ clusterSectors fs d) : setFat fs c value disk lba = disk lba :=
  setFat_of_notInTable hc value disk (notInTable_of_mem h hd hl)

theorem frame_setFat (hc : clusterIsValid fs c) (value : ℕ) (disk : ℕ → Sector) :
    Frame fs {c} disk (setFat fs c value disk) := by
  intro d hd hne
  refine ⟨?_, fun lba hl => setFat_sector h hc hd value disk hl⟩
  rw [fatVal_setFat h hc hd, if_neg fun heq => hne heq.symm]

theorem fatVal_setFat_self {value : ℕ} (hc : clusterIsValid fs c) (hv : value < 2 ^ 28)
    (disk : ℕ → Sector) : fatVal fs (setFat fs c value disk) c = value := by
  rw [fatVal_setFat h hc hc, if_pos rfl, Nat.mod_eq_of_lt hv]

/-- Zeroing the sectors of a cluster touches no link. -/
theorem fatVal_zeroAt (hc : clusterIsValid fs c) (hd : clusterIsValid fs d)
    (disk : ℕ → Sector) : fatVal fs (zeroAt (clusterSectors fs c) disk) d = fatVal fs disk d := by
  have hnot : fatSector fs 0 d ∉ clusterSectors fs c := fun hmem =>
    notInTable_of_mem h hc hmem 0 h.fatCount_pos d hd rfl
  rw [fatVal, fatVal, fatEntry, fatEntry, zeroAt, if_neg hnot]

theorem frame_claimed (hc : clusterIsValid fs c) (disk : ℕ → Sector) :
    Frame fs {c} disk (claimed fs c disk) := by
  intro d hd hne
  obtain ⟨hlink, hsector⟩ := frame_setFat h hc 0x0FFFFFFF disk d hd hne
  refine ⟨?_, fun lba hl => ?_⟩
  · rw [claimed, fatVal_zeroAt h hc hd, hlink]
  · have hnot : lba ∉ clusterSectors fs c := fun hmem => hne (clusterSectors_disjoint h hd hc hl hmem)
    rw [claimed, zeroAt, if_neg hnot, hsector lba hl]

theorem fatVal_claimed (hc : clusterIsValid fs c) (disk : ℕ → Sector) :
    fatVal fs (claimed fs c disk) c = 0x0FFFFFFF := by
  rw [claimed, fatVal_zeroAt h hc hc, fatVal_setFat_self h hc (by norm_num)]

end

variable {c fuel : ℕ} {w : Driver δ} {l : List ℕ}

theorem claimed_sector {lba : ℕ} (hl : lba ∈ clusterSectors fs c) (disk : ℕ → Sector) : claimed fs c disk lba = Block.zero :=
  if_pos hl

/-! ### Freeing -/

/-- The disk after the links of some clusters are cleared. -/
def freed (fs : Fat32State δ) (l : List ℕ) (disk : ℕ → Sector) : ℕ → Sector :=
  l.foldl (fun disk c => setFat fs c 0 disk) disk

section

variable (h : Online fs dev content)
include h

variable {l : List ℕ} {d : ℕ}

theorem freed_sector (hl : ∀ c ∈ l, clusterIsValid fs c) (disk : ℕ → Sector) {lba : ℕ}
    (hd : clusterIsValid fs d) (hlba : lba ∈ clusterSectors fs d) : freed fs l disk lba = disk lba := by
  induction l generalizing disk with
  | nil => rfl
  | cons c l ih =>
    rw [freed, List.foldl_cons, ← freed, ih fun c hc => hl c (by simp [hc])]
    exact setFat_sector h (hl c (by simp)) hd 0 disk hlba

theorem fatVal_freed (hl : ∀ c ∈ l, clusterIsValid fs c) (disk : ℕ → Sector)
    (hd : clusterIsValid fs d) : fatVal fs (freed fs l disk) d = if d ∈ l then 0 else fatVal fs disk d := by
  induction l generalizing disk with
  | nil => rfl
  | cons c l ih =>
    rw [freed, List.foldl_cons, ← freed, ih fun c hc => hl c (by simp [hc]), fatVal_setFat h (hl c (by simp)) hd]
    by_cases hmem : d ∈ l
    · simp [hmem]
    · by_cases hcd : c = d
      · simp [hcd]
      · simp [hmem, hcd, Ne.symm hcd]

theorem frame_freed (hl : ∀ c ∈ l, clusterIsValid fs c) (disk : ℕ → Sector) :
    Frame fs {c | c ∈ l} disk (freed fs l disk) := by
  intro d hd hn
  refine ⟨?_, fun lba hlba => freed_sector h hl disk hd hlba⟩
  rw [fatVal_freed h hl disk hd]
  exact if_neg hn

/-- `fat32_free_chain` on a chain. -/
theorem evals_freeChain (ha : AlwaysWrites dev) {fuel c : ℕ} (hl : Chain fs disk c l)
    (hf : l.length ≤ fuel) :
    Evals (OnDisk content disk) (freeChain fs fuel c) (.ok ()) (OnDisk content (freed fs l disk)) := by
  induction fuel generalizing c l disk with
  | zero => exact absurd (List.length_eq_zero_iff.1 (Nat.le_zero.1 hf)) hl.ne_nil
  | succ fuel ih =>
    have hc := hl.inChain
    have hnext := evals_nextCluster_ok h disk hc.1 hl.not_badLink
    have hzero : ¬ badLink fs 0 := not_badLink_of_lt (by omega)
    have hclear := (stores_setClusterValue h disk hc.1 hzero).evals ha
    have hhint : Evals (OnDisk content (setFat fs c 0 disk)) (lowerHint fs c) (.ok ()) _ := evals_lowerHint _ c
    rw [freeChain, if_pos hc]
    refine hnext.bind (hclear.bind (hhint.bind ?_))
    rcases hl.cases with ⟨heoc, rfl⟩ | ⟨l', hl', rfl, hmem⟩
    · rw [if_pos heoc]
      exact Evals.pure ()
    · rw [if_neg (not_le.2 hl'.inChain.2)]
      have hrest : Chain fs (setFat fs c 0 disk) (fatVal fs disk c) l' := by
        refine hl'.congr fun d hd => ?_
        rw [fatVal_setFat h hc.1 (hl'.2 d hd).1, if_neg]
        rintro rfl
        exact hmem hd
      exact ih hrest (by simpa using hf)

end

/-! ### Allocation -/

/-- `l` is a chain of clusters that were free, zeroed and linked in this order. -/
structure Taken (fs : Fat32State δ) (disk : ℕ → Sector) (l : List ℕ) (disk' : ℕ → Sector) : Prop where
  frame : Frame fs {c | c ∈ l} disk disk'
  free : ∀ c ∈ l, clusterIsValid fs c ∧ fatVal fs disk c = 0
  zero : ∀ c ∈ l, ∀ lba ∈ clusterSectors fs c, disk' lba = Block.zero
  chain : ∀ c, l.head? = some c → Chain fs disk' c l

/-- Only sectors of free clusters differ. -/
structure Scrubbed (fs : Fat32State δ) (disk disk' : ℕ → Sector) : Prop where
  link : ∀ c, clusterIsValid fs c → fatVal fs disk' c = fatVal fs disk c
  sector : ∀ c, clusterIsValid fs c → fatVal fs disk c ≠ 0 → ∀ lba ∈ clusterSectors fs c, disk' lba = disk lba

namespace Taken

variable {l : List ℕ}

theorem nil (disk : ℕ → Sector) : Taken fs disk [] disk where
  frame := Frame.refl _ disk
  free := by simp
  zero := by simp
  chain := by simp

/-- Freeing what was taken leaves the table as it was. -/
theorem scrubbed (h : Online fs dev content) (ht : Taken fs disk l disk') : Scrubbed fs disk (freed fs l disk') := by
  have hvalid : ∀ c ∈ l, clusterIsValid fs c := fun c hc => (ht.free c hc).1
  constructor
  · intro c hc
    rw [fatVal_freed h hvalid disk' hc]
    split_ifs with hmem
    · exact (ht.free c hmem).2.symm
    · exact (ht.frame c hc hmem).link
  · intro c hc hne lba hl
    have hmem : c ∉ l := fun hmem => hne (ht.free c hmem).2
    rw [freed_sector h hvalid disk' hc hl]
    exact (ht.frame c hc hmem).sector lba hl

variable {c : ℕ}

theorem not_mem (ht : Taken fs disk l disk') (hzero : fatVal fs disk' c = 0) : c ∉ l := by
  intro hmem
  cases l with
  | nil => simp at hmem
  | cons a l => exact (ht.chain a rfl).link_ne_zero hmem hzero

/-- The first cluster is claimed. -/
theorem single (h : Online fs dev content) (ht : Taken fs disk [] disk') (hc : clusterIsValid fs c) (hlt : c < FAT32_EOC)
    (hzero : fatVal fs disk' c = 0) : Taken fs disk [c] (claimed fs c disk') where
  frame := (ht.frame.mono (by simp)).trans ((frame_claimed h hc disk').mono (by simp))
  free := by
    rintro d hd
    obtain rfl : d = c := by simpa using hd
    exact ⟨hc, (ht.frame d hc (by simp)).link.symm.trans hzero⟩
  zero := by
    rintro d hd lba hl
    obtain rfl : d = c := by simpa using hd
    exact claimed_sector hl disk'
  chain := by
    rintro d hd
    obtain rfl : c = d := by simpa using hd
    refine ⟨⟨rfl, ?_⟩, ?_⟩
    · rw [link, fatVal_claimed h hc, if_pos eoc_le_endMark]
      rfl
    · intro d hd
      obtain rfl : d = c := by simpa using hd
      exact ⟨hc, hlt⟩

/-- Another cluster is claimed and linked from the last one. -/
theorem snoc (h : Online fs dev content) {p : ℕ} (ht : Taken fs disk (l ++ [p]) disk') (hc : clusterIsValid fs c)
    (hlt : c < FAT32_EOC) (hzero : fatVal fs disk' c = 0) :
    Taken fs disk (l ++ [p] ++ [c]) (setFat fs p c (claimed fs c disk')) := by
  have hnot := ht.not_mem hzero
  have hp : clusterIsValid fs p := (ht.free p (by simp)).1
  have hne : p ≠ c := by
    rintro rfl
    exact hnot (by simp)
  have hframe : Frame fs {d | d ∈ l ++ [p] ++ [c]} disk' (setFat fs p c (claimed fs c disk')) :=
    ((frame_claimed h hc disk').mono (by rintro d rfl; simp)).trans ((frame_setFat h hp c _).mono (by rintro d rfl; simp))
  have hlink : ∀ d, clusterIsValid fs d → d ≠ p → fatVal fs (setFat fs p c (claimed fs c disk')) d = fatVal fs (claimed fs c disk') d := by
    intro d hd hdp
    rw [fatVal_setFat h hp hd, if_neg (Ne.symm hdp)]
  have hsmall : c < 2 ^ 28 := by
    rw [FAT32_EOC] at hlt
    omega
  constructor
  · exact (ht.frame.mono fun d hd => List.mem_append_left _ hd).trans hframe
  · intro d hd
    rcases List.mem_append.1 hd with hd | hd
    · exact ht.free d hd
    · obtain rfl : d = c := by simpa using hd
      exact ⟨hc, ((ht.frame d hc hnot).link).symm.trans hzero⟩
  · intro d hd lba hl
    rcases List.mem_append.1 hd with hd | hd
    · have hvalid := (ht.free d hd).1
      have hdc : d ≠ c := fun heq => hnot (heq ▸ hd)
      rw [setFat_sector h hp hvalid c _ hl, (frame_claimed h hc disk' d hvalid hdc).sector lba hl]
      exact ht.zero d hd lba hl
    · obtain rfl : d = c := by simpa using hd
      rw [setFat_sector h hp hc _ _ hl]
      exact claimed_sector hl disk'
  · intro a ha
    have hhead : (l ++ [p]).head? = some a := by
      cases l with
      | nil => exact ha
      | cons b l => exact ha
    have hold := ht.chain a hhead
    have hnodup := hold.nodup
    refine ⟨?_, ?_⟩
    · rw [List.append_assoc]
      apply hold.1.snoc
      · intro b hb
        have hvalid := (ht.free b (by simp [hb])).1
        have hbp : b ≠ p := by
          rintro rfl
          exact (List.nodup_append.1 hnodup).2.2 b hb b (by simp) rfl
        have hbc : b ≠ c := by
          rintro rfl
          exact hnot (by simp [hb])
        rw [link, link, hlink b hvalid hbp, (frame_claimed h hc disk' b hvalid hbc).link]
      · rw [link, fatVal_setFat_self h hp hsmall, if_neg (not_le.2 hlt)]
      · rw [link, hlink c hc (Ne.symm hne), fatVal_claimed h hc, if_pos eoc_le_endMark]
    · intro d hd
      rcases List.mem_append.1 hd with hd | hd
      · exact hold.2 d hd
      · obtain rfl : d = c := by simpa using hd
        exact ⟨hc, hlt⟩

theorem two_le (ht : Taken fs disk l disk') (hc : c ∈ l) : 2 ≤ c := (ht.free c hc).1.1

end Taken

/-- One allocation on a device that writes. -/
theorem allocCluster_ends (h : Online fs dev content) (ha : AlwaysWrites dev) (disk : ℕ → Sector)
    (hw : OnDisk content disk w) :
    Ends (allocCluster fs) w
      (fun c w' => clusterIsValid fs c ∧ fatVal fs disk c = 0 ∧ OnDisk content (claimed fs c disk) w')
      (OnDisk content disk) := by
  rcases allocCluster_cases h disk hw with ⟨c, ho, hc, hzero, hd⟩ | ⟨ho, hd⟩ | ⟨-, -, hn⟩
  · exact .inl ⟨c, _, Prod.ext ho rfl, hc, hzero, hd⟩
  · exact .inr ⟨_, Prod.ext ho rfl, hd⟩
  · exact absurd ha hn

theorem lt_eoc (hm : fs.maxDataCluster < FAT32_EOC) (hc : clusterIsValid fs c) : c < FAT32_EOC := by
  have := hc.2.2
  omega

theorem failWith_ends {α : Type} (hw : OnDisk content disk w) (msg : String) {Q : α → Driver δ → Prop} {E : Driver δ → Prop}
    (hE : ∀ w', OnDisk content disk w' → E w') : Ends (failWith msg : M δ α) w Q E := by
  obtain ⟨w', h', hw'⟩ := evals_setError disk msg w hw
  exact .inr ⟨w', (bind_ok h').trans rfl, hE w' hw'⟩

/-- What was taken is given back, and the table is as it was. -/
theorem rollback_ends {α : Type} (h : Online fs dev content) (ha : AlwaysWrites dev) (hf : fs.dataClusters ≤ fuel)
    (ht : Taken fs disk l disk') (msg : String) (hw : OnDisk content disk' w) {Q : α → Driver δ → Prop} :
    Ends (rollback fs fuel (l.headD 0) msg : M δ α) w Q fun w' => ∃ d, Scrubbed fs disk d ∧ OnDisk content d w' := by
  unfold rollback
  cases l with
  | nil =>
    rw [List.headD_nil, if_neg (by omega)]
    exact failWith_ends hw msg fun w' hw' => ⟨disk', ht.scrubbed h, hw'⟩
  | cons c l =>
    have hchain := ht.chain c rfl
    rw [List.headD_cons, if_pos hchain.two_le]
    obtain ⟨w₁, h₁, hw₁⟩ := evals_freeChain h ha hchain ((hchain.length_le h.toMounted).trans hf) w hw
    rw [Ends, bind_ok (attempt_ok h₁)]
    exact failWith_ends hw₁ msg fun w' hw' => ⟨_, ht.scrubbed h, hw'⟩

/-- `n` clusters more are taken, or none of them. -/
theorem allocChain_ends (h : Online fs dev content) (ha : AlwaysWrites dev) (hm : fs.maxDataCluster < FAT32_EOC)
    (hf : fs.dataClusters ≤ fuel) (n : ℕ) (ht : Taken fs disk l disk') (hw : OnDisk content disk' w) :
    Ends (allocChain fs fuel n (l.headD 0) (l.getLastD 0)) w
      (fun r w' => ∃ l' d, l'.length = l.length + n ∧ r = (l'.headD 0, l'.getLastD 0) ∧ Taken fs disk l' d ∧ OnDisk content d w')
      (fun w' => n ≠ 0 ∧ ∃ d, Scrubbed fs disk d ∧ OnDisk content d w') := by
  induction n generalizing l disk' w with
  | zero => exact Ends.pure ⟨l, disk', rfl, rfl, ht, hw⟩
  | succ n ih =>
    rw [allocChain]
    apply (allocCluster_ends h ha disk' hw).attempt_bind
    · rintro c w₁ ⟨hc, hzero, hw₁⟩
      have hlt := lt_eoc hm hc
      rcases List.eq_nil_or_concat' l with rfl | ⟨l₀, p, rfl⟩
      · -- the first cluster
        have hfirst : (if ([] : List ℕ).headD 0 = 0 then c else ([] : List ℕ).headD 0) = [c].headD 0 := rfl
        dsimp only
        rw [hfirst, if_neg (by simp)]
        have hcons := ih (Taken.single h ht hc hlt hzero) hw₁
        refine hcons.mono ?_ fun _ hd => ⟨n.succ_ne_zero, hd.2⟩
        rintro r w' ⟨l', d, hlen, hr, ht', hd⟩
        exact ⟨l', d, by rw [hlen]; simp; omega, hr, ht', hd⟩
      · -- linked from the last one
        have hp : p ∈ l₀ ++ [p] := by simp
        have hhead : 2 ≤ (l₀ ++ [p]).headD 0 := by
          cases l₀ with
          | nil => exact ht.two_le (by simp)
          | cons a l₀ => exact ht.two_le (by simp)
        have hlast : (l₀ ++ [p]).getLastD 0 = p := by simp
        have hheads : (l₀ ++ [p] ++ [c]).headD 0 = (l₀ ++ [p]).headD 0 := by cases l₀ <;> rfl
        have hfirst : (if (l₀ ++ [p]).headD 0 = 0 then c else (l₀ ++ [p]).headD 0) = (l₀ ++ [p]).headD 0 := if_neg (by omega)
        dsimp only
        rw [hlast, hfirst, if_pos (ht.two_le hp)]
        have hlink := (stores_setClusterValue h (claimed fs c disk') (ht.free p hp).1 (not_badLink_of_valid hc)).evals ha
        obtain ⟨w₂, h₂, hw₂⟩ := hlink w₁ hw₁
        rw [Ends, bind_ok (attempt_ok h₂)]
        have hcons := ih (ht.snoc h hc hlt hzero) hw₂
        rw [hheads, List.getLastD_concat] at hcons
        refine hcons.mono ?_ fun _ hd => ⟨n.succ_ne_zero, hd.2⟩
        rintro r w' ⟨l', d, hlen, hr, ht', hd⟩
        exact ⟨l', d, by rw [hlen]; simp; omega, hr, ht', hd⟩
    · intro w₁ hw₁
      exact (rollback_ends h ha hf ht noClusterMsg hw₁).mono (fun _ _ hq => hq) fun _ hd => ⟨n.succ_ne_zero, hd⟩

end Tg11Kernel.Fat32
