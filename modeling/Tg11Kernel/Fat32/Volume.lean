import Tg11Kernel.Fat32.Coherence

/-! The driver on the contents of a disk. On a faithful device a state is known
by the sectors the device holds; the functions of the driver are evaluated on
those sectors: the table as a function from clusters to 28-bit links, a directory
cluster as a list of slots. -/

namespace Tg11Kernel.Fat32

open Lib Exec

variable {δ : Type}

/-! ### States and disks -/

/-- A mounted volume of sound geometry on a faithful device. -/
structure Online (fs : Fat32State δ) (dev : BlockDevice δ) (content : δ → ℕ → Sector) : Prop extends
    Mounted fs, SoundGeometry fs where
  dev_eq : fs.dev = some dev
  faithful : Faithful dev content

/-- Coherent caches over a device that holds `disk`. -/
def OnDisk (content : δ → ℕ → Sector) (disk : ℕ → Sector) (w : Driver δ) : Prop :=
  ∃ v, At content v w ∧ content v.media = disk

/-- No write of the device fails. -/
def AlwaysWrites (dev : BlockDevice δ) : Prop :=
  ∃ write, dev.writeSector = some write ∧ ∀ lba sec d, (write lba sec d).1 = true

/-- `m` takes the disk to `disk'`; it fails only where the device fails. -/
def Stores (dev : BlockDevice δ) (content : δ → ℕ → Sector) (disk : ℕ → Sector) (m : M δ Unit) (disk' : ℕ → Sector) :
    Prop :=
  ∀ w, OnDisk content disk w → ((m w).1 = .ok () ∧ OnDisk content disk' (m w).2) ∨
    ((m w).1 = .fail ∧ (∃ d, OnDisk content d (m w).2) ∧ ¬ AlwaysWrites dev)

section Disk

variable {fs : Fat32State δ} {dev : BlockDevice δ} {content : δ → ℕ → Sector} {disk disk' disk'' : ℕ → Sector}

theorem evals_onDisk {α : Type} {m : M δ α} {o : Outcome α}
    (h : ∀ v, content v.media = disk → Evals (At content v) m o (At content v)) :
    Evals (OnDisk content disk) m o (OnDisk content disk) := by
  rintro w ⟨v, hw, hv⟩
  obtain ⟨w', h', hw'⟩ := h v hv w hw
  exact ⟨w', h', v, hw', hv⟩

theorem evals_read (h : Online fs dev content) (disk : ℕ → Sector) (lba : ℕ) (useFat : Bool) :
    Evals (OnDisk content disk) (readSectorCached fs lba useFat) (.ok (disk lba)) (OnDisk content disk) :=
  evals_onDisk fun v hv => hv ▸ evals_readSectorCached h.mounted h.dev_eq h.faithful v lba useFat

theorem evals_setError (disk : ℕ → Sector) (msg : String) :
    Evals (OnDisk content disk) (Fat32.setError msg) (.ok ()) (OnDisk content disk) :=
  Evals.modify fun _ ⟨_, hw, hv⟩ => ⟨_, hw.setError msg, hv⟩

theorem evals_setHint (disk : ℕ → Sector) (f : Driver δ → ℕ) :
    Evals (OnDisk content disk) (Exec.modify fun w => { w with allocHintCluster := f w }) (.ok ())
      (OnDisk content disk) :=
  Evals.modify fun w ⟨_, hw, hv⟩ => ⟨_, hw.setHint (f w), hv⟩

namespace Stores

variable {m : M δ Unit} {f : Unit → M δ Unit}

theorem pure (disk : ℕ → Sector) : Stores dev content disk (Pure.pure ()) disk := fun _ hw => .inl ⟨rfl, hw⟩

theorem bind (h : Stores dev content disk m disk') (hf : Stores dev content disk' (f ()) disk'') :
    Stores dev content disk (m >>= f) disk'' := by
  intro w hw
  rcases h w hw with ⟨ho, hd⟩ | ⟨ho, hd, hn⟩
  · rw [bind_ok (Prod.ext ho rfl)]
    exact hf _ hd
  · rw [bind_fail (Prod.ext ho rfl)]
    exact .inr ⟨rfl, hd, hn⟩

theorem evals_bind {α : Type} {m : M δ α} {a : α} {f : α → M δ Unit}
    (h : Evals (OnDisk content disk) m (.ok a) (OnDisk content disk))
    (hf : Stores dev content disk (f a) disk') : Stores dev content disk (m >>= f) disk' := by
  intro w hw
  obtain ⟨w', h', hw'⟩ := h w hw
  rw [bind_ok h']
  exact hf w' hw'

theorem of_evals (h : Evals (OnDisk content disk) m (.ok ()) (OnDisk content disk')) :
    Stores dev content disk m disk' := by
  intro w hw
  obtain ⟨w', h', hw'⟩ := h w hw
  rw [h']
  exact .inl ⟨rfl, hw'⟩

theorem evals (h : Stores dev content disk m disk') (ha : AlwaysWrites dev) :
    Evals (OnDisk content disk) m (.ok ()) (OnDisk content disk') := by
  intro w hw
  rcases h w hw with ⟨ho, hd⟩ | ⟨-, -, hn⟩
  · exact ⟨_, Prod.ext ho rfl, hd⟩
  · exact absurd ha hn

end Stores

theorem stores_write (h : Online fs dev content) (disk : ℕ → Sector) (lba : ℕ) (sec : Sector) :
    Stores dev content disk (writeSectorUncached fs lba sec) (Function.update disk lba sec) := by
  rintro w ⟨v, hw, hv⟩
  cases hwrite : dev.writeSector with
  | none =>
    have hfail : writeSectorUncached fs lba sec w = (.fail, w) := by
      rw [writeSectorUncached, require_pos h.mounted, pure_bind_eq, h.dev_eq, Option.bind_some, hwrite]
      rfl
    rw [hfail]
    refine .inr ⟨rfl, ⟨disk, v, hw, hv⟩, ?_⟩
    rintro ⟨write, hsome, -⟩
    rw [hwrite] at hsome
    simp at hsome
  | some write =>
    obtain ⟨w', h', hw'⟩ := evals_writeSectorUncached h.mounted h.dev_eq h.faithful hwrite v lba sec w hw
    rw [h']
    cases hok : (write lba sec v.media).1 with
    | true => exact .inl ⟨rfl, _, hw', by rw [h.faithful.write_ok write hwrite lba sec v.media hok, hv]⟩
    | false =>
      refine .inr ⟨rfl, ⟨_, _, hw', rfl⟩, ?_⟩
      rintro ⟨write', hsome, hall⟩
      obtain rfl : write = write' := Option.some.inj (hwrite.symm.trans hsome)
      rw [hall] at hok
      simp at hok

end Disk

/-! ### The table -/

section Table

variable {fs : Fat32State δ}

/-- The 32 bits of a cluster's entry in copy `k` of the table. -/
def fatEntry (fs : Fat32State δ) (disk : ℕ → Sector) (k c : ℕ) : ℕ := rd32 (disk (fatSector fs k c)) (entOff fs c)

/-- The link of a cluster. -/
def fatVal (fs : Fat32State δ) (disk : ℕ → Sector) (c : ℕ) : ℕ := fatEntry fs disk 0 c % 2 ^ 28

def setCopy (fs : Fat32State δ) (c value k : ℕ) (disk : ℕ → Sector) : ℕ → Sector :=
  Function.update disk (fatSector fs k c) (putLink (disk (fatSector fs k c)) (entOff fs c) value)

/-- The disk after setting the entry in `n` copies from copy `k` on. -/
def setCopies (fs : Fat32State δ) (c value : ℕ) : ℕ → ℕ → (ℕ → Sector) → ℕ → Sector
  | 0, _, disk => disk
  | n + 1, k, disk => setCopies fs c value n (k + 1) (setCopy fs c value k disk)

/-- The disk after setting the entry in all copies. -/
def setFat (fs : Fat32State δ) (c value : ℕ) (disk : ℕ → Sector) : ℕ → Sector :=
  setCopies fs c value fs.fatCount 0 disk

theorem nibble_or (a b : UInt8) : ((a &&& 0xF0) ||| (b &&& 0x0F)).toNat % 16 = b.toNat % 16 := by
  have h16 : ∀ n : ℕ, n % 16 = n &&& 15 := fun n => (Nat.and_two_pow_sub_one_eq_mod n 4).symm
  rw [UInt8.toNat_or, UInt8.toNat_and, UInt8.toNat_and, h16, h16, Nat.and_or_distrib_right, Nat.and_assoc,
    Nat.and_assoc]
  simp

variable {off : ℕ}

theorem rd32_putLink_self (sec : Sector) (h : off + 4 ≤ 512) (value : ℕ) :
    rd32 (putLink sec off value) off % 2 ^ 28 = value % 2 ^ 28 := by
  have h0 : (putLink sec off value).get off = byteOf value 0 := by
    rw [putLink, Block.get_set_ne _ _ (by omega), Block.get_set_ne _ _ (by omega), Block.get_set_ne _ _ (by omega),
      Block.get_set_self _ _ (by omega)]
  have h1 : (putLink sec off value).get (off + 1) = byteOf value 1 := by
    rw [putLink, Block.get_set_ne _ _ (by omega), Block.get_set_ne _ _ (by omega), Block.get_set_self _ _ (by omega)]
  have h2 : (putLink sec off value).get (off + 2) = byteOf value 2 := by
    rw [putLink, Block.get_set_ne _ _ (by omega), Block.get_set_self _ _ (by omega)]
  have h3 : ((putLink sec off value).get (off + 3)).toNat % 16 = (byteOf value 3).toNat % 16 := by
    rw [putLink, Block.get_set_self _ _ (by omega), nibble_or]
  rw [rd32, h0, h1, h2]
  rw [byteOf_toNat] at h3 ⊢
  rw [byteOf_toNat, byteOf_toNat]
  omega

theorem rd32_putLink_ne (sec : Sector) {off' : ℕ} (h : off + 4 ≤ off' ∨ off' + 4 ≤ off) (value : ℕ) :
    rd32 (putLink sec off value) off' = rd32 sec off' := by
  have hget : ∀ i, i < off ∨ off + 4 ≤ i → (putLink sec off value).get i = sec.get i := by
    intro i hi
    rw [putLink, Block.get_set_ne _ _ (by omega), Block.get_set_ne _ _ (by omega), Block.get_set_ne _ _ (by omega),
      Block.get_set_ne _ _ (by omega)]
  rw [rd32, rd32, hget _ (by omega), hget _ (by omega), hget _ (by omega), hget _ (by omega)]

section Entries

variable {dev : BlockDevice δ} {content : δ → ℕ → Sector}

section

variable (h : Online fs dev content)
include h

variable {c k k' c' : ℕ}

theorem entOff_eq (hc : clusterIsValid fs c) : entOff fs c = c * 4 % 512 := by
  rw [entOff, h.fatOffset_noWrap c hc, h.bytesPerSector]

theorem fatSector_eq (hc : clusterIsValid fs c) (hk : k < fs.fatCount) :
    fatSector fs k c = fs.fatStartLba + k * fs.sectorsPerFat + c * 4 / 512 := by
  rw [h.fatSector_noWrap c hc k hk, h.bytesPerSector]

theorem entOff_add_le (hc : clusterIsValid fs c) : entOff fs c + 4 ≤ 512 := by
  rw [entOff_eq h hc]
  omega

theorem entry_in_copy (hc : clusterIsValid fs c) : c * 4 / 512 < fs.sectorsPerFat := by
  have hin := (h.copy_inside c hc 0 h.fatCount_pos).2
  rw [fatSector_eq h hc h.fatCount_pos] at hin
  omega

/-- Entries of different clusters or copies do not overlap. -/
theorem entries_disjoint (hc : clusterIsValid fs c)
    (hc' : clusterIsValid fs c') (hk : k < fs.fatCount) (hk' : k' < fs.fatCount) (hne : ¬ (k = k' ∧ c = c')) :
    fatSector fs k c ≠ fatSector fs k' c' ∨ entOff fs c + 4 ≤ entOff fs c' ∨ entOff fs c' + 4 ≤ entOff fs c := by
  have hin := entry_in_copy h hc
  have hin' := entry_in_copy h hc'
  rw [fatSector_eq h hc hk, fatSector_eq h hc' hk', entOff_eq h hc, entOff_eq h hc']
  by_cases hkk : k = k'
  · subst hkk
    have : c ≠ c' := fun hcc => hne ⟨rfl, hcc⟩
    omega
  · refine .inl fun heq => hkk ?_
    -- two copies are `sectorsPerFat` sectors apart
    have hdiv : ∀ q r, r < fs.sectorsPerFat → (q * fs.sectorsPerFat + r) / fs.sectorsPerFat = q := by
      intro q r hr
      rw [Nat.mul_comm, Nat.mul_add_div (by omega), Nat.div_eq_of_lt hr, Nat.add_zero]
    rw [← hdiv k _ hin, ← hdiv k' _ hin']
    congr 1
    omega

theorem fatEntry_setCopy (disk : ℕ → Sector) (hc : clusterIsValid fs c)
    (hc' : clusterIsValid fs c') (hk : k < fs.fatCount) (hk' : k' < fs.fatCount) (value : ℕ) :
    fatEntry fs (setCopy fs c value k disk) k' c' % 2 ^ 28 =
      if k = k' ∧ c = c' then value % 2 ^ 28 else fatEntry fs disk k' c' % 2 ^ 28 := by
  rw [fatEntry, fatEntry, setCopy]
  split
  · rename_i heq
    obtain ⟨rfl, rfl⟩ := heq
    rw [Function.update_self, rd32_putLink_self _ (entOff_add_le h hc)]
  · rename_i hne
    rcases entries_disjoint h hc hc' hk hk' hne with hsec | hoff
    · rw [Function.update_of_ne hsec.symm]
    · by_cases hsec : fatSector fs k' c' = fatSector fs k c
      · rw [hsec, Function.update_self, rd32_putLink_ne _ hoff]
      · rw [Function.update_of_ne hsec]

theorem fatEntry_setCopies (hc : clusterIsValid fs c)
    (hc' : clusterIsValid fs c') (value n k : ℕ) (hn : k + n ≤ fs.fatCount) (hk' : k' < fs.fatCount)
    (disk : ℕ → Sector) :
    fatEntry fs (setCopies fs c value n k disk) k' c' % 2 ^ 28 =
      if c = c' ∧ k ≤ k' ∧ k' < k + n then value % 2 ^ 28 else fatEntry fs disk k' c' % 2 ^ 28 := by
  induction n generalizing k disk with
  | zero => rw [setCopies, if_neg (by omega)]
  | succ n ih =>
    rw [setCopies, ih (k + 1) (by omega), fatEntry_setCopy h disk hc hc' (by omega) hk']
    by_cases hcc : c = c'
    · by_cases hkk : k = k'
      · rw [if_neg (by omega), if_pos ⟨hkk, hcc⟩, if_pos (by omega)]
      · rw [if_neg (fun hand : k = k' ∧ c = c' => hkk hand.1)]
        congr 1
        simp only [eq_iff_iff]
        omega
    · rw [if_neg (by tauto), if_neg (by tauto), if_neg (by tauto)]

/-- Setting a link changes that link and no other, in every copy. -/
theorem fatEntry_setFat (hc : clusterIsValid fs c)
    (hc' : clusterIsValid fs c') (value : ℕ) (hk : k < fs.fatCount) (disk : ℕ → Sector) :
    fatEntry fs (setFat fs c value disk) k c' % 2 ^ 28 =
      if c = c' then value % 2 ^ 28 else fatEntry fs disk k c' % 2 ^ 28 := by
  rw [setFat, fatEntry_setCopies h hc hc' value _ 0 (by omega) hk]
  congr 1
  simp only [eq_iff_iff]
  omega

theorem fatVal_setFat (hc : clusterIsValid fs c) (hc' : clusterIsValid fs c')
    (value : ℕ) (disk : ℕ → Sector) :
    fatVal fs (setFat fs c value disk) c' = if c = c' then value % 2 ^ 28 else fatVal fs disk c' :=
  fatEntry_setFat h hc hc' value h.fatCount_pos disk

end

/-- A sector outside the table. -/
def NotInTable (fs : Fat32State δ) (lba : ℕ) : Prop :=
  ∀ k < fs.fatCount, ∀ c, clusterIsValid fs c → lba ≠ fatSector fs k c

variable {c lba value : ℕ} {w : Driver δ}

theorem setCopies_of_notInTable (hc : clusterIsValid fs c) (value n k : ℕ) (hn : k + n ≤ fs.fatCount)
    (disk : ℕ → Sector) (hl : NotInTable fs lba) : setCopies fs c value n k disk lba = disk lba := by
  induction n generalizing k disk with
  | zero => rfl
  | succ n ih =>
    rw [setCopies, ih (k + 1) (by omega), setCopy, Function.update_of_ne (hl k (by omega) c hc)]

theorem setFat_of_notInTable (hc : clusterIsValid fs c) (value : ℕ) (disk : ℕ → Sector)
    (hl : NotInTable fs lba) : setFat fs c value disk lba = disk lba :=
  setCopies_of_notInTable hc value _ 0 (by omega) disk hl

theorem fatSector_lt_dataStart (h : Online fs dev content) {k : ℕ} (hc : clusterIsValid fs c) (hk : k < fs.fatCount) :
    fatSector fs k c < fs.dataStartLba := by
  have hin := (h.copy_inside c hc k hk).2
  have hmul : (k + 1) * fs.sectorsPerFat ≤ fs.fatCount * fs.sectorsPerFat := Nat.mul_le_mul_right _ hk
  rw [h.dataStart_noWrap]
  omega

/-- The sectors of a valid cluster are not in the table. -/
theorem notInTable_of_mem (h : Online fs dev content) (hc : clusterIsValid fs c)
    (hl : lba ∈ clusterSectors fs c) : NotInTable fs lba := by
  obtain ⟨s, hs, rfl⟩ := List.mem_map.1 hl
  intro k hk c' hc'
  have h1 := fatSector_lt_dataStart h hc' hk
  have h2 := (h.data_inside c hc s (List.mem_range.1 hs)).1
  omega

/-- A sector of one cluster is a sector of no other. -/
theorem clusterSectors_disjoint (h : Online fs dev content) {c' : ℕ} (hc : clusterIsValid fs c)
    (hc' : clusterIsValid fs c') (hl : lba ∈ clusterSectors fs c) (hl' : lba ∈ clusterSectors fs c') : c = c' := by
  obtain ⟨s, hs, rfl⟩ := List.mem_map.1 hl
  obtain ⟨s', hs', heq⟩ := List.mem_map.1 hl'
  exact (h.data_distinct c c' hc hc' s (List.mem_range.1 hs) s' (List.mem_range.1 hs') heq.symm).1

/-! ### Table operations -/

/-- What `fat32_next_cluster` returns. -/
def nextResult (fs : Fat32State δ) (disk : ℕ → Sector) (c : ℕ) : Outcome ℕ :=
  if clusterIsValid fs c ∧ ¬ badLink fs (fatVal fs disk c) then .ok (fatVal fs disk c) else .fail

section

variable (h : Online fs dev content)
include h

theorem evals_nextCluster (disk : ℕ → Sector) (c : ℕ) :
    Evals (OnDisk content disk) (nextCluster fs c) (nextResult fs disk c) (OnDisk content disk) := by
  rw [nextCluster, nextResult]
  by_cases hc : clusterIsValid fs c
  · have hoff : entOff fs c ≤ fs.bytesPerSector - 4 := by
      have := entOff_add_le h hc
      rw [h.bytesPerSector]
      omega
    refine (Evals.require hc).bind ((evals_read h disk _ true).bind ((Evals.require hoff).bind ?_))
    by_cases hb : badLink fs (fatVal fs disk c)
    · rw [if_neg (fun hand => hand.2 hb)]
      exact (Evals.require_fail (not_not.2 hb)).bind_fail
    · rw [if_pos ⟨hc, hb⟩]
      exact (Evals.require hb).bind (Evals.pure _)
  · rw [if_neg (fun hand => hc hand.1)]
    exact (Evals.require_fail hc).bind_fail

variable {c : ℕ}

theorem evals_nextCluster_ok (disk : ℕ → Sector) (hc : clusterIsValid fs c)
    (hb : ¬ badLink fs (fatVal fs disk c)) :
    Evals (OnDisk content disk) (nextCluster fs c) (.ok (fatVal fs disk c)) (OnDisk content disk) := by
  have := evals_nextCluster h disk c
  rwa [nextResult, if_pos ⟨hc, hb⟩] at this

theorem stores_setEachCopy (c value n k : ℕ) (disk : ℕ → Sector) :
    Stores dev content disk (setEachCopy fs c value n k) (setCopies fs c value n k disk) := by
  induction n generalizing k disk with
  | zero => exact Stores.pure disk
  | succ n ih =>
    exact Stores.evals_bind (evals_read h disk _ true) ((stores_write h disk _ _).bind (ih (k + 1) _))

theorem stores_setClusterValue (disk : ℕ → Sector) {value : ℕ} (hc : clusterIsValid fs c)
    (hb : ¬ badLink fs value) : Stores dev content disk (setClusterValue fs c value) (setFat fs c value disk) := by
  have hoff : entOff fs c ≤ fs.bytesPerSector - 4 := by
    have := entOff_add_le h hc
    rw [h.bytesPerSector]
    omega
  rw [setClusterValue, require_pos hc, require_pos hb, require_pos hoff]
  exact stores_setEachCopy h c value _ 0 disk

end

theorem evals_lowerHint (disk : ℕ → Sector) (c : ℕ) :
    Evals (OnDisk content disk) (lowerHint fs c) (.ok ()) (OnDisk content disk) := by
  refine Evals.modify fun w hw => ?_
  split
  · obtain ⟨v, hv, hd⟩ := hw
    exact ⟨_, hv.setHint c, hd⟩
  · exact hw

/-! ### Allocation -/

/-- The disk with some sectors zeroed. -/
def zeroAt (lbas : List ℕ) (disk : ℕ → Sector) : ℕ → Sector := fun lba =>
  if lba ∈ lbas then Block.zero else disk lba

theorem stores_zeroSectors (h : Online fs dev content) (lbas : List ℕ) (disk : ℕ → Sector) :
    Stores dev content disk (zeroSectors fs lbas) (zeroAt lbas disk) := by
  induction lbas generalizing disk with
  | nil =>
    have hnil : zeroAt [] disk = disk := by
      funext lba
      simp [zeroAt]
    rw [hnil]
    exact Stores.pure disk
  | cons lba rest ih =>
    have hcons : zeroAt (lba :: rest) disk = zeroAt rest (Function.update disk lba Block.zero) := by
      funext l
      by_cases hl : l = lba
      · simp [zeroAt, hl]
      · simp [zeroAt, hl]
    rw [hcons]
    exact (stores_write h disk lba Block.zero).bind (ih _)

/-- The disk after a cluster is claimed: an end mark in the table, and zeroed sectors. -/
def claimed (fs : Fat32State δ) (c : ℕ) (disk : ℕ → Sector) : ℕ → Sector :=
  zeroAt (clusterSectors fs c) (setFat fs c 0x0FFFFFFF disk)

theorem not_badLink_endMark (fs : Fat32State δ) : ¬ badLink fs 0x0FFFFFFF := fun h => by
  have := h.2.1
  rw [FAT32_EOC] at this
  omega

theorem not_badLink_of_lt (hv : value < 2) : ¬ badLink fs value := fun h => by
  have := h.1
  omega

theorem not_badLink_of_valid (hv : clusterIsValid fs value) : ¬ badLink fs value := fun h => h.2.2 hv

theorem stores_claimCluster (h : Online fs dev content) (disk : ℕ → Sector) (hc : clusterIsValid fs c) :
    Stores dev content disk (claimCluster fs c) (claimed fs c disk) :=
  (stores_setClusterValue h disk hc (not_badLink_endMark fs)).bind ((stores_zeroSectors h _ _).bind
    (Stores.of_evals (evals_setHint _ fun _ => if c < fs.maxDataCluster then c + 1 else 2)))

/-- What an allocation does: it claims a free cluster, or finds none, or a write fails. -/
def Allocates (dev : BlockDevice δ) (content : δ → ℕ → Sector) (fs : Fat32State δ) (disk : ℕ → Sector)
    (r : Outcome ℕ × Driver δ) : Prop :=
  (∃ c, r.1 = .ok c ∧ clusterIsValid fs c ∧ fatVal fs disk c = 0 ∧ OnDisk content (claimed fs c disk) r.2) ∨
    (r.1 = .fail ∧ OnDisk content disk r.2) ∨
    (r.1 = .fail ∧ (∃ d, OnDisk content d r.2) ∧ ¬ AlwaysWrites dev)

theorem allocScan_cases (h : Online fs dev content) (disk : ℕ → Sector) (n c : ℕ)
    (hw : OnDisk content disk w) :
    (∃ w', allocScan fs n c w = (.ok none, w') ∧ OnDisk content disk w') ∨
      ∃ o w', allocScan fs n c w = (o, w') ∧ Allocates dev content fs disk
        (match o with | .ok (some c) => .ok c | .ok none => .hang | .fail => .fail | .hang => .hang, w') := by
  induction n generalizing c w with
  | zero => exact .inl ⟨w, rfl, hw⟩
  | succ n ih =>
    rw [allocScan]
    obtain ⟨w₁, h₁, hw₁⟩ := evals_nextCluster h disk c w hw
    by_cases hc : clusterIsValid fs c ∧ ¬ badLink fs (fatVal fs disk c)
    · rw [nextResult, if_pos hc] at h₁
      rw [bind_ok h₁]
      split
      · rename_i hzero
        rcases stores_claimCluster h disk hc.1 w₁ hw₁ with ⟨ho, hd⟩ | ⟨ho, hd, hn⟩
        · rw [bind_ok (Prod.ext ho rfl)]
          exact .inr ⟨_, _, rfl, .inl ⟨c, rfl, hc.1, hzero, hd⟩⟩
        · rw [bind_fail (Prod.ext ho rfl)]
          exact .inr ⟨_, _, rfl, .inr (.inr ⟨rfl, hd, hn⟩)⟩
      · exact ih (c + 1) hw₁
    · rw [nextResult, if_neg hc] at h₁
      rw [bind_fail h₁]
      exact .inr ⟨_, _, rfl, .inr (.inl ⟨rfl, hw₁⟩)⟩

theorem allocates_not_hang {disk : ℕ → Sector} {r : Outcome ℕ × Driver δ} (h : Allocates dev content fs disk r) :
    r.1 ≠ .hang := by
  rcases h with ⟨c, h, -⟩ | ⟨h, -⟩ | ⟨h, -⟩ <;> rw [h] <;> simp

theorem allocCluster_cases (h : Online fs dev content) (disk : ℕ → Sector) (hw : OnDisk content disk w) :
    Allocates dev content fs disk (allocCluster fs w) := by
  have hgets : Exec.gets (fun w : Driver δ => w.allocHintCluster) w = (.ok w.allocHintCluster, w) := rfl
  rw [allocCluster, bind_ok hgets]
  rcases allocScan_cases h disk (fs.maxDataCluster + 1 - if clusterIsValid fs w.allocHintCluster then
    w.allocHintCluster else 2) (if clusterIsValid fs w.allocHintCluster then w.allocHintCluster else 2) hw with
    ⟨w₁, h₁, hw₁⟩ | ⟨o, w₁, h₁, ha⟩
  · rw [bind_ok h₁]
    rcases allocScan_cases h disk ((if clusterIsValid fs w.allocHintCluster then w.allocHintCluster else 2) - 2) 2 hw₁
      with ⟨w₂, h₂, hw₂⟩ | ⟨o, w₂, h₂, ha⟩
    · dsimp only
      rw [bind_ok h₂]
      exact .inr (.inl ⟨rfl, hw₂⟩)
    · dsimp only
      rcases o with ⟨_ | c⟩ | _ | _
      · exact absurd rfl (allocates_not_hang ha)
      · rw [bind_ok h₂]
        exact ha
      · rw [bind_fail h₂]
        exact ha
      · exact absurd rfl (allocates_not_hang ha)
  · rcases o with ⟨_ | c⟩ | _ | _
    · exact absurd rfl (allocates_not_hang ha)
    · rw [bind_ok h₁]
      exact ha
    · rw [bind_fail h₁]
      exact ha
    · exact absurd rfl (allocates_not_hang ha)

end Entries

end Table

/-! ### Slots -/

/-- The place of a directory entry: its sector and its offset. -/
abbrev Slot := ℕ × ℕ

def slotsOf (lbas : List ℕ) : List Slot := lbas.flatMap fun lba => entryOffsets.map fun off => (lba, off)

/-- The slots of a directory cluster, in order. -/
def clusterSlots (fs : Fat32State δ) (c : ℕ) : List Slot := slotsOf (clusterSectors fs c)

def slotEntry (disk : ℕ → Sector) (s : Slot) : Entry := entryAt (disk s.1) s.2

/-- A scan of sectors is a scan of their slots. -/
theorem scanDisk_eq {σ β : Type} (step : EntryStep σ β) (disk : ℕ → Sector) (lbas : List ℕ) (acc : σ) :
    scanDisk step disk lbas acc = foldUntil (fun acc s => step acc s.1 s.2 (slotEntry disk s)) acc (slotsOf lbas) := by
  rw [scanDisk, slotsOf, foldUntil_flatMap]
  refine foldUntil_congr (fun lba _ acc => ?_) acc
  rw [foldUntil_map]
  rfl

section Scans

variable {fs : Fat32State δ} {dev : BlockDevice δ} {content : δ → ℕ → Sector} {σ β : Type}

section

variable (h : Online fs dev content) (disk : ℕ → Sector)
include h disk

theorem evals_scanCluster (step : EntryStep σ β) (c : ℕ) (acc : σ) :
    Evals (OnDisk content disk) (scanSectors fs step (clusterSectors fs c) acc)
      (.ok (scanDisk step disk (clusterSectors fs c) acc)) (OnDisk content disk) :=
  evals_onDisk fun v hv => hv ▸ evals_scanSectors h.mounted h.dev_eq h.faithful v step _ acc

variable {batch : ℕ}

theorem evals_scanClusterBatches (step : EntryStep σ β) (hb : 1 ≤ batch) (c : ℕ) (acc : σ) :
    Evals (OnDisk content disk) (scanBatches fs step batch c (batchStarts fs batch) acc)
      (.ok (scanDisk step disk (clusterSectors fs c) acc)) (OnDisk content disk) := by
  rw [← batchSectors_batchStarts fs hb c]
  exact evals_onDisk fun v hv => hv ▸ evals_scanBatches h.mounted h.dev_eq h.faithful v step batch c _
    (fun s hs => toRead_ne_zero hb hs) acc

theorem evals_readCluster (fileSize : ℕ) (hb : 1 ≤ batch) (c : ℕ) (written : List UInt8) :
    Evals (OnDisk content disk) (readBatches fs fileSize batch c (batchStarts fs batch) written)
      (.ok (readDisk fileSize disk (clusterSectors fs c) written)) (OnDisk content disk) := by
  rw [← batchSectors_batchStarts fs hb c]
  exact evals_onDisk fun v hv => hv ▸ evals_readBatches h.mounted h.dev_eq h.faithful v fileSize batch c _
    (fun s hs => toRead_ne_zero hb hs) written

end

/-- Any batch size a state may have is positive. -/
theorem evals_sectorsPerRead_bind {α : Type} {disk : ℕ → Sector} {f : ℕ → M δ α} {o : Outcome α}
    {Q : Driver δ → Prop} (hf : ∀ b, 1 ≤ b → Evals (OnDisk content disk) (f b) o Q) :
    Evals (OnDisk content disk) (sectorsPerRead fs >>= f) o Q := by
  intro w hw
  obtain ⟨v, hv, hd⟩ := hw
  have hb : 1 ≤ batchSize fs w := by
    have := hv.batch_pos
    rw [batchSize]
    split <;> omega
  exact hf _ hb w ⟨v, hv, hd⟩

end Scans

theorem smallVolume_online : Online (smallVolume diskDevice) diskDevice id :=
  { smallVolume_mounted diskDevice, smallVolume_sound diskDevice with
    dev_eq := rfl
    faithful := diskDevice_faithful }

theorem onDisk_initialDriver (disk : ℕ → Sector) : OnDisk id disk (initialDriver disk) :=
  ⟨_, at_initialDriver id disk, rfl⟩

end Tg11Kernel.Fat32
