import Tg11Kernel.Fat32.Tree

/-! Writing over a file that exists. Its chain is freed, a new one is allocated and
filled, and its entry is updated; the clusters involved were the file's own or free,
so everything else stays as it was, and the new data is read back. -/

namespace Tg11Kernel.Fat32

open Lib Exec

variable {δ : Type} {fs : Fat32State δ} {dev : BlockDevice δ} {content : δ → ℕ → Sector} {disk disk' : ℕ → Sector}

/-! ### The written entry -/

section WrittenEntry

variable (first size : ℕ) (e : Entry)

theorem get_writtenEntry {i : ℕ} (hi : i < 20) (hattr : i ≠ 11) : (writtenEntry first size e).get i = e.get i := by
  rw [writtenEntry, Entry.setSize, Entry.setFirstCluster, Entry.setAttr]
  repeat rw [Block.get_set_ne _ _ (by omega)]

theorem first_writtenEntry : (writtenEntry first size e).first = e.first := get_writtenEntry first size e (by omega) (by omega)

theorem attr_writtenEntry : (writtenEntry first size e).attr = 0x20 := by
  rw [Entry.attr, writtenEntry, Entry.setSize, Entry.setFirstCluster, Entry.setAttr]
  iterate 8 rw [Block.get_set_ne _ _ (by omega)]
  exact Block.get_set_self _ _ (by omega)

theorem name_writtenEntry : (writtenEntry first size e).name = e.name := by
  refine Block.ext_get fun i hi => ?_
  rw [Entry.name, Entry.name, Block.get_slice _ _ hi, Block.get_slice _ _ hi, get_writtenEntry _ _ _ (by omega) (by omega)]

theorem not_isDir_writtenEntry : ¬ (writtenEntry first size e).isDir := by
  rw [Entry.isDir, attr_writtenEntry]
  decide

theorem firstCluster_setSize : (e.setSize size).firstCluster = e.firstCluster := by
  rw [Entry.firstCluster, Entry.firstCluster, rd16, rd16, rd16, rd16, Entry.setSize]
  repeat rw [Block.get_set_ne _ _ (by omega)]

theorem firstCluster_setFirstCluster {first : ℕ} (h : first < 2 ^ 32) : (e.setFirstCluster first).firstCluster = first := by
  have h20 : (e.setFirstCluster first).get 20 = byteOf first 2 := by
    rw [Entry.setFirstCluster, Block.get_set_ne _ _ (by omega), Block.get_set_ne _ _ (by omega), Block.get_set_ne _ _ (by omega),
      Block.get_set_self _ _ (by omega)]
  have h21 : (e.setFirstCluster first).get 21 = byteOf first 3 := by
    rw [Entry.setFirstCluster, Block.get_set_ne _ _ (by omega), Block.get_set_ne _ _ (by omega), Block.get_set_self _ _ (by omega)]
  have h26 : (e.setFirstCluster first).get 26 = byteOf first 0 := by
    rw [Entry.setFirstCluster, Block.get_set_ne _ _ (by omega), Block.get_set_self _ _ (by omega)]
  have h27 : (e.setFirstCluster first).get 27 = byteOf first 1 := by
    rw [Entry.setFirstCluster, Block.get_set_self _ _ (by omega)]
  rw [Entry.firstCluster, rd16, rd16, h20, h21, h26, h27, byteOf_toNat, byteOf_toNat, byteOf_toNat, byteOf_toNat]
  omega

theorem firstCluster_writtenEntry {first : ℕ} (h : first < 2 ^ 32) : (writtenEntry first size e).firstCluster = first := by
  rw [writtenEntry, firstCluster_setSize, firstCluster_setFirstCluster _ h]

theorem size_writtenEntry {size : ℕ} (h : size < 2 ^ 32) : (writtenEntry first size e).size = size := by
  have h28 : (writtenEntry first size e).get 28 = byteOf size 0 := by
    rw [writtenEntry, Entry.setSize, Block.get_set_ne _ _ (by omega), Block.get_set_ne _ _ (by omega),
      Block.get_set_ne _ _ (by omega), Block.get_set_self _ _ (by omega)]
  have h29 : (writtenEntry first size e).get (28 + 1) = byteOf size 1 := by
    rw [writtenEntry, Entry.setSize, Block.get_set_ne _ _ (by omega), Block.get_set_ne _ _ (by omega), Block.get_set_self _ _ (by omega)]
  have h30 : (writtenEntry first size e).get (28 + 2) = byteOf size 2 := by
    rw [writtenEntry, Entry.setSize, Block.get_set_ne _ _ (by omega), Block.get_set_self _ _ (by omega)]
  have h31 : (writtenEntry first size e).get (28 + 3) = byteOf size 3 := by
    rw [writtenEntry, Entry.setSize, Block.get_set_self _ _ (by omega)]
  rw [Entry.size, rd32, h28, h29, h30, h31, byteOf_toNat, byteOf_toNat, byteOf_toNat, byteOf_toNat]
  omega

end WrittenEntry

/-! ### Replacing the data -/

/-- The chain of an entry, empty when it has none. -/
def OwnChain (fs : Fat32State δ) (disk : ℕ → Sector) (c : ℕ) (l : List ℕ) : Prop := (c < 2 ∧ l = []) ∨ Chain fs disk c l

namespace OwnChain

variable {c : ℕ} {l : List ℕ}

theorem valid (h : OwnChain fs disk c l) : ∀ d ∈ l, clusterIsValid fs d := by
  rcases h with ⟨-, rfl⟩ | h
  · simp
  · exact fun d hd => (h.2 d hd).1

theorem unique {l' : List ℕ} (h : OwnChain fs disk c l) (h' : OwnChain fs disk c l') : l = l' := by
  rcases h with ⟨hlt, rfl⟩ | h <;> rcases h' with ⟨hlt', rfl⟩ | h'
  · rfl
  · have := h'.two_le
    omega
  · have := h.two_le
    omega
  · exact h.unique h'

end OwnChain

/-- What replacing the data of the file in slot `s` does: `old` was its chain and `new` is. -/
structure Replaced (fs : Fat32State δ) (disk : ℕ → Sector) (s : Slot) (data : List UInt8) (old new : List ℕ)
    (disk' : ℕ → Sector) : Prop where
  length : new.length = neededClusters fs data.length
  taken : ∀ c ∈ new, clusterIsValid fs c ∧ (c ∈ old ∨ fatVal fs disk c = 0)
  chain : ∀ c, new.head? = some c → Chain fs disk' c new
  link : ∀ c, clusterIsValid fs c → c ∉ old → c ∉ new → fatVal fs disk' c = fatVal fs disk c
  freed : ∀ c ∈ old, c ∉ new → fatVal fs disk' c = 0
  sector : ∀ c, clusterIsValid fs c → c ∉ old → c ∉ new → ∀ lba ∈ clusterSectors fs c, lba ≠ s.1 → disk' lba = disk lba
  slots : ∀ c, clusterIsValid fs c → c ∉ old → c ∉ new → ∀ t : Slot, t.1 ∈ clusterSectors fs c → t.2 ∈ entryOffsets → t ≠ s →
    slotEntry disk' t = slotEntry disk t
  entry : slotEntry disk' s = writtenEntry (new.headD 0) data.length (slotEntry disk s)
  bytes : readDisk data.length disk' (chainSectors fs new) [] = data

theorem Chain.congr_link {c : ℕ} {l : List ℕ} (h : Chain fs disk c l) (hl : ∀ d ∈ l, Fat32.link fs disk' d = Fat32.link fs disk d) :
    Chain fs disk' c l := ⟨h.1.congr hl, h.2⟩

/-- The clusters needed hold the data. -/
theorem le_neededClusters (h : Mounted fs) {n : ℕ} (hn : n < 2 ^ 32) :
    n ≤ 512 * (neededClusters fs n * fs.sectorsPerCluster) := by
  unfold neededClusters
  split_ifs with hzero
  · omega
  · have hpos := h.sectorsPerCluster_pos
    have hceil := le_ceilDiv_mul n (show 1 ≤ fs.sectorsPerCluster * 512 by omega)
    have hle : (n + fs.sectorsPerCluster * 512 - 1) / (fs.sectorsPerCluster * 512) ≤ n := by
      rw [Nat.div_le_iff_le_mul_add_pred (by omega)]
      have := Nat.le_mul_of_pos_left n (show 0 < fs.sectorsPerCluster * 512 by omega)
      omega
    rw [u32, Nat.mod_eq_of_lt (by omega)]
    calc n ≤ (n + fs.sectorsPerCluster * 512 - 1) / (fs.sectorsPerCluster * 512) * (fs.sectorsPerCluster * 512) := hceil
      _ = _ := by ring

section Replace

variable (h : Online fs dev content) (ha : AlwaysWrites dev) {fuel : ℕ} (hf : fs.dataClusters ≤ fuel)

include h ha hf

theorem evals_freeOldChain {c : ℕ} {old : List ℕ} (hold : OwnChain fs disk c old) :
    Evals (OnDisk content disk) (freeOldChain fs fuel c) (.ok ()) (OnDisk content (freed fs old disk)) := by
  unfold freeOldChain
  rcases hold with ⟨hlt, rfl⟩ | hchain
  · rw [if_neg (by omega)]
    exact Evals.pure ()
  · rw [if_pos hchain.two_le]
    exact (evals_freeChain h ha hchain ((hchain.length_le h.toMounted).trans hf)).orElse

omit hf in
/-- The last cluster taken has its end mark already. -/
theorem evals_endChain (fuel : ℕ) {new : List ℕ} (ht : Taken fs disk new disk') :
    ∃ d, Evals (OnDisk content disk') (endChain fs fuel (new.headD 0) (new.getLastD 0)) (.ok ()) (OnDisk content d) ∧
      Frame fs {c | c ∈ new} disk' d ∧ ∀ c, new.head? = some c → Chain fs d c new := by
  rcases List.eq_nil_or_concat' new with rfl | ⟨l, p, rfl⟩
  · refine ⟨disk', ?_, Frame.refl _ _, by simp⟩
    rw [endChain, if_neg (by simp)]
    exact Evals.pure ()
  · have hp : p ∈ l ++ [p] := by simp
    have hvalid := (ht.free p hp).1
    refine ⟨setFat fs p 0x0FFFFFFF disk', ?_, (frame_setFat h hvalid _ _).mono (by rintro d rfl; simp), ?_⟩
    · rw [endChain, List.getLastD_concat, if_pos (ht.two_le hp)]
      exact (((stores_setClusterValue h disk' hvalid (not_badLink_endMark fs)).evals ha).attempt).bind (Evals.pure ())
    · intro c hc
      have hchain := ht.chain c hc
      have hlast : link fs disk' p = none := IsChain.nil_iff.1 hchain.1.of_append_cons
      refine hchain.congr_link fun d hd => ?_
      rcases eq_or_ne d p with rfl | hne
      · rw [hlast, link, fatVal_setFat_self h hvalid (by decide), if_pos eoc_le_endMark]
      · rw [link, link, fatVal_setFat h hvalid (ht.free d hd).1, if_neg (Ne.symm hne)]

/-- The data of a file is replaced, or its chain is freed and nothing else has changed but free sectors. -/
theorem replaceData_ends (hm : fs.maxDataCluster < FAT32_EOC) {s : Slot} {cs : ℕ} (hcs : clusterIsValid fs cs)
    (hs : s.1 ∈ clusterSectors fs cs) (hoff : s.2 ∈ entryOffsets) {old : List ℕ}
    (hold : OwnChain fs disk (slotEntry disk s).firstCluster old) (hnot : cs ∉ old) (hlink : fatVal fs disk cs ≠ 0)
    {data : List UInt8} (hlen : data.length < 2 ^ 32) {w : Driver δ} (hw : OnDisk content disk w) :
    Ends (replaceData fs fuel (s.1, s.2, slotEntry disk s) data) w
      (fun _ w' => ∃ new d, Replaced fs disk s data old new d ∧ OnDisk content d w')
      (fun w' => data ≠ [] ∧ ∃ d, Scrubbed fs (freed fs old disk) d ∧ OnDisk content d w') := by
  have hvalid := hold.valid
  obtain ⟨w₁, h₁, hw₁⟩ := evals_freeOldChain h ha hf hold w hw
  rw [Ends, replaceData, bind_ok h₁]
  have hempty : neededClusters fs data.length ≠ 0 → data ≠ [] := by
    rintro hne rfl
    simp [neededClusters] at hne
  have halloc := allocChain_ends h ha hm hf (neededClusters fs data.length) (Taken.nil (freed fs old disk)) hw₁
  apply (halloc.mono (fun _ _ hq => hq) fun _ hd => ⟨hempty hd.1, hd.2⟩).bind
  rintro _ w₂ ⟨new, d₂, hcount, rfl, ht, hw₂⟩
  rw [List.length_nil, Nat.zero_add] at hcount
  have hnew : ∀ c ∈ new, clusterIsValid fs c := fun c hc => (ht.free c hc).1
  obtain ⟨d₃, hend, hframe₃, hchain₃⟩ := evals_endChain h ha fuel ht
  obtain ⟨w₃, h₃, hw₃⟩ := hend w₂ hw₂
  dsimp only
  rw [Ends, bind_ok h₃]
  have hfit : data.length ≤ 512 * (chainSectors fs new).length := by
    rw [length_chainSectors, hcount]
    exact le_neededClusters h.toMounted hlen
  -- the data goes to the new clusters
  have hwrite : Evals (OnDisk content d₃) (writeClusters fs fuel (new.headD 0) data) (.ok ())
      (OnDisk content (stored (chainSectors fs new) data d₃)) := by
    cases new with
    | nil =>
      obtain rfl : data = [] := List.length_eq_zero_iff.1 (by simpa [chainSectors] using hfit)
      cases fuel <;> exact Evals.pure ()
    | cons c new =>
      have hchain := hchain₃ c rfl
      exact evals_writeClusters h ha hchain ((hchain.length_le h.toMounted).trans hf) hfit
  obtain ⟨w₄, h₄, hw₄⟩ := hwrite w₃ hw₃
  rw [bind_ok h₄]
  have hframe : Frame fs {c | c ∈ old ∨ c ∈ new} disk (stored (chainSectors fs new) data d₃) := by
    have hfreed := (frame_freed h hvalid disk).mono fun c (hc : c ∈ old) => (Or.inl hc : c ∈ old ∨ c ∈ new)
    have htaken := ht.frame.mono fun c (hc : c ∈ new) => (Or.inr hc : c ∈ old ∨ c ∈ new)
    have hended := hframe₃.mono fun c (hc : c ∈ new) => (Or.inr hc : c ∈ old ∨ c ∈ new)
    have hstored := (frame_stored h hnew data d₃).mono fun c (hc : c ∈ new) => (Or.inr hc : c ∈ old ∨ c ∈ new)
    exact ((hfreed.trans htaken).trans hended).trans hstored
  have hfree : ∀ c ∈ new, clusterIsValid fs c ∧ (c ∈ old ∨ fatVal fs disk c = 0) := by
    intro c hc
    obtain ⟨hcv, hzero⟩ := ht.free c hc
    rw [fatVal_freed h hvalid disk hcv] at hzero
    split_ifs at hzero with hmem
    · exact ⟨hcv, .inl hmem⟩
    · exact ⟨hcv, .inr hzero⟩
  have hcs' : cs ∉ new := fun hmem => (hfree cs hmem).2.elim hnot hlink
  have hentry : slotEntry (stored (chainSectors fs new) data d₃) s = slotEntry disk s := by
    rw [slotEntry, slotEntry, (hframe cs hcs (by rintro (hmem | hmem); exacts [hnot hmem, hcs' hmem])).sector s.1 hs]
  have hupdate := evals_updateEntry h ha s (writtenEntry (new.headD 0) data.length)
    "write: read directory entry sector failed" "write: update directory entry failed" (stored (chainSectors fs new) data d₃)
  obtain ⟨w₅, h₅, hw₅⟩ := hupdate w₄ hw₄
  rw [hentry] at hw₅
  refine .inl ⟨(), w₅, h₅, new, _, ?_, hw₅⟩
  have hlinks : ∀ c, clusterIsValid fs c →
      fatVal fs (setEntry s (writtenEntry (new.headD 0) data.length (slotEntry disk s)) (stored (chainSectors fs new) data d₃)) c =
        fatVal fs (stored (chainSectors fs new) data d₃) c := fun c hc => fatVal_setEntry h hcs hs _ _ hc
  constructor
  · exact hcount
  · exact hfree
  · intro c hc
    refine (hchain₃ c hc).congr fun d hd => ?_
    rw [hlinks d (hnew d hd), fatVal_stored h hnew data d₃ (hnew d hd)]
  · intro c hc hco hcn
    rw [hlinks c hc]
    exact (hframe c hc (by rintro (hmem | hmem); exacts [hco hmem, hcn hmem])).link
  · intro c hco hcn
    have hc := hvalid c hco
    rw [hlinks c hc, fatVal_stored h hnew data d₃ hc, (hframe₃ c hc hcn).link, (ht.frame c hc hcn).link,
      fatVal_freed h hvalid disk hc, if_pos hco]
  · intro c hc hco hcn lba hl hne
    rw [setEntry_of_ne hne]
    exact (hframe c hc (by rintro (hmem | hmem); exacts [hco hmem, hcn hmem])).sector lba hl
  · intro c hc hco hcn t hl ht hne
    rw [slotEntry_setEntry_of_ne hoff ht hne, slotEntry, slotEntry,
      (hframe c hc (by rintro (hmem | hmem); exacts [hco hmem, hcn hmem])).sector t.1 hl]
  · exact slotEntry_setEntry_self hoff _ _
  · have hkeep : ∀ lba ∈ chainSectors fs new,
        setEntry s (writtenEntry (new.headD 0) data.length (slotEntry disk s)) (stored (chainSectors fs new) data d₃) lba =
          stored (chainSectors fs new) data d₃ lba := by
      intro lba hl
      obtain ⟨c, hc, hmem⟩ := mem_chainSectors.1 hl
      refine setEntry_of_ne ?_ _ _
      rintro rfl
      exact hcs' (clusterSectors_disjoint h (hnew c hc) hcs hmem hs ▸ hc)
    rw [readDisk_congr hkeep]
    have hnodup : new.Nodup := by
      cases new with
      | nil => exact List.nodup_nil
      | cons c new => exact (hchain₃ c rfl).nodup
    have hread := readDisk_stored (nodup_chainSectors h hnew hnodup) hfit [] d₃
    rwa [List.length_nil, Nat.zero_add, List.nil_append] at hread

end Replace

end Tg11Kernel.Fat32
