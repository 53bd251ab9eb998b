import Tg11Kernel.Fat32.Replace
import Mathlib.Data.List.TakeWhile

/-! Files on a consistent volume. A file is a slot that a path leads to and the bytes
along its chain; reading gives its first bytes, and a successful write over it makes
its bytes the data and leaves all other files where and as they are. -/

namespace Tg11Kernel.Fat32

open Lib Exec

variable {δ : Type} {fs : Fat32State δ} {dev : BlockDevice δ} {content : δ → ℕ → Sector} {disk disk' : ℕ → Sector} {fuel : ℕ}

/-- The path leads to the entry in slot `s`. -/
def Leads (content : δ → ℕ → Sector) (fs : Fat32State δ) (fuel : ℕ) (disk : ℕ → Sector) (path : Option Path) (s : Slot) : Prop :=
  path.isSome = true ∧ ∃ parent name83 l, Evals (OnDisk content disk) (resolveParentAndLeaf fs fuel path) (.ok (parent, name83)) (OnDisk content disk) ∧
    Dir fs disk parent ∧ ¬ DotName name83 ∧ Chain fs disk parent l ∧
    lookup disk name83 (dirSlots fs l) = some (s.1, s.2, slotEntry disk s)

/-- All bytes that an entry promises are on its chain. -/
def Stored (fs : Fat32State δ) (disk : ℕ → Sector) (e : Entry) (bytes : List UInt8) : Prop :=
  ∃ l, OwnChain fs disk e.firstCluster l ∧ e.size ≤ 512 * (chainSectors fs l).length ∧
    bytes = readDisk e.size disk (chainSectors fs l) []

variable {e : Entry} {bytes data : List UInt8} {path : Option Path} {s : Slot} {old : List ℕ} {w : Driver δ}

theorem Stored.length (h : Stored fs disk e bytes) : bytes.length = e.size := by
  obtain ⟨l, -, hsize, rfl⟩ := h
  rw [length_readDisk _ _ _ (by simp), List.length_nil]
  omega

theorem Stored.unique {bytes' : List UInt8} (h : Stored fs disk e bytes) (h' : Stored fs disk e bytes') :
    bytes = bytes' := by
  obtain ⟨l, hl, -, rfl⟩ := h
  obtain ⟨l', hl', -, rfl⟩ := h'
  rw [hl.unique hl']

theorem Leads.owner (h : Leads content fs fuel disk path s) : Owner fs disk s := by
  obtain ⟨-, parent, name83, l, -, hdir, hdot, hl, hfound⟩ := h
  obtain ⟨hlive, -, hname⟩ := live_of_lookup hdir hl hfound
  exact ⟨hlive, fun hand => hdot (hname ▸ hand)⟩

/-- Where a live slot is. -/
theorem Live.cluster (h : Live fs disk s) :
    ∃ d l c, Dir fs disk d ∧ Chain fs disk d l ∧ c ∈ l ∧ s.1 ∈ clusterSectors fs c ∧ s.2 ∈ entryOffsets := by
  obtain ⟨⟨d, l, hd, hl, hs⟩, -⟩ := h
  obtain ⟨⟨c, hc, hlba⟩, hoff⟩ := mem_dirSlots.1 ((List.takeWhile_subset _) hs)
  exact ⟨d, l, c, hd, hl, hc, hlba, hoff⟩

theorem Live.first_ne (h : Live fs disk s) : (slotEntry disk s).first ≠ 0x00 := by
  obtain ⟨⟨d, l, -, -, hs⟩, -⟩ := h
  simpa using List.mem_takeWhile_imp hs

/-! ### Reading -/

section Read

variable (h : Online fs dev content)

include h

variable {bytes : List UInt8} {path : Option Path} {s : Slot}

/-- The bytes of an entry are read up to the capacity. -/
theorem evals_readFileEntry (hf : fs.dataClusters ≤ fuel) {e : Entry} (hfile : ¬ e.isDir)
    (hbytes : Stored fs disk e bytes) (cap : ℕ) :
    Evals (OnDisk content disk) (readFileEntry fs fuel e cap) (.ok ⟨min bytes.length cap, bytes.take cap⟩) (OnDisk content disk) := by
  have hlen := hbytes.length
  obtain ⟨l, hl, hsize, rfl⟩ := hbytes
  unfold readFileEntry
  refine (Evals.require hfile).bind ?_
  rcases hl with ⟨hlt, rfl⟩ | hchain
  · rw [if_pos hlt]
    have hzero : e.size = 0 := by simpa [chainSectors] using hsize
    rw [hlen, hzero]
    have hnil : readDisk 0 disk (chainSectors fs []) [] = [] := rfl
    rw [hnil, Nat.zero_min, List.take_nil]
    exact Evals.pure _
  · rw [if_neg (by have := hchain.two_le; omega), hlen]
    refine evals_sectorsPerRead_bind fun b hb => ?_
    exact (evals_readClusters h hb hchain ((hchain.length_le h.toMounted).trans hf) []).bind (Evals.pure _)

theorem evals_resolveTarget (hpath : Leads content fs fuel disk path s) (argsOk : Bool) (hargs : argsOk = true)
    (invalidMsg resolveMsg : String) :
    ∃ parent name83 l, Evals (OnDisk content disk) (resolveTarget fs fuel path argsOk invalidMsg resolveMsg) (.ok (parent, name83))
        (OnDisk content disk) ∧ Dir fs disk parent ∧ Chain fs disk parent l ∧
      lookup disk name83 (dirSlots fs l) = some (s.1, s.2, slotEntry disk s) := by
  obtain ⟨hsome, parent, name83, l, hresolve, hdir, hdot, hl, hfound⟩ := hpath
  refine ⟨parent, name83, l, ?_, hdir, hl, hfound⟩
  exact (evals_setError disk "").bind ((Evals.require ⟨h.mounted, hsome, hargs⟩).orElse.bind hresolve.orElse)

/-- `fat32_read_file_path` gives the first bytes of a file. -/
theorem evals_readFilePath (hf : fs.dataClusters ≤ fuel) (hpath : Leads content fs fuel disk path s)
    (hfile : ¬ (slotEntry disk s).isDir) (hbytes : Stored fs disk (slotEntry disk s) bytes) (cap : ℕ) :
    Evals (OnDisk content disk) (readFilePath fs fuel path cap) (.ok ⟨min bytes.length cap, bytes.take cap⟩) (OnDisk content disk) := by
  obtain ⟨parent, name83, l, hresolve, -, hl, hfound⟩ := evals_resolveTarget h hpath true rfl
    "read: invalid arguments or unmounted" "read: path resolution failed"
  have hfind := evals_findEntryInDir h hl ((hl.length_le h.toMounted).trans hf) name83
  rw [hfound] at hfind
  have htarget : Evals (OnDisk content disk) (lookupTarget fs fuel path "read: invalid arguments or unmounted"
      "read: path resolution failed" "read: file not found") (.ok (s.1, s.2, slotEntry disk s)) (OnDisk content disk) :=
    hresolve.bind (Evals.orElse hfind)
  unfold readFilePath
  refine htarget.bind ?_
  exact (evals_readFileEntry h hf hfile hbytes cap).orElse.bind ((evals_setError disk "").bind (Evals.pure _))

end Read

/-! ### What a write leaves alone -/

/-- What is left when the file in slot `s`, whose chain was `old`, has changed: every other cluster in use,
every other slot of a cluster in use, and an entry of the same name for a file. -/
structure Elsewhere (fs : Fat32State δ) (disk : ℕ → Sector) (s : Slot) (old : List ℕ) (disk' : ℕ → Sector) : Prop where
  link : ∀ c, clusterIsValid fs c → c ∉ old → fatVal fs disk c ≠ 0 → fatVal fs disk' c = fatVal fs disk c
  sector : ∀ c, clusterIsValid fs c → c ∉ old → fatVal fs disk c ≠ 0 → ∀ lba ∈ clusterSectors fs c, lba ≠ s.1 → disk' lba = disk lba
  slots : ∀ c, clusterIsValid fs c → c ∉ old → fatVal fs disk c ≠ 0 → ∀ t : Slot, t.1 ∈ clusterSectors fs c → t.2 ∈ entryOffsets →
    t ≠ s → slotEntry disk' t = slotEntry disk t
  first : (slotEntry disk' s).first = (slotEntry disk s).first
  name : (slotEntry disk' s).name = (slotEntry disk s).name
  attr : (slotEntry disk' s).attr ≠ FAT32_ATTR_LFN
  file : ¬ (slotEntry disk' s).isDir

theorem Replaced.elsewhere {new : List ℕ} (hr : Replaced fs disk s data old new disk') :
    Elsewhere fs disk s old disk' := by
  have hnew : ∀ c, c ∉ old → fatVal fs disk c ≠ 0 → c ∉ new := fun c hno hne hmem => (hr.taken c hmem).2.elim hno hne
  refine ⟨fun c hc hno hne => hr.link c hc hno (hnew c hno hne), fun c hc hno hne => hr.sector c hc hno (hnew c hno hne),
    fun c hc hno hne => hr.slots c hc hno (hnew c hno hne), ?_, ?_, ?_, ?_⟩ <;> rw [hr.entry]
  · exact first_writtenEntry _ _ _
  · exact name_writtenEntry _ _ _
  · rw [attr_writtenEntry]
    decide
  · exact not_isDir_writtenEntry _ _ _

/-- A write that fails gives the chain of the file back and changes free clusters only. -/
theorem Scrubbed.elsewhere (h : Online fs dev content) (hr : Scrubbed fs (freed fs old disk) disk')
    (hvalid : ∀ c ∈ old, clusterIsValid fs c) (hs : Owner fs disk s) (hfile : ¬ (slotEntry disk s).isDir) {cs : ℕ}
    (hcs : clusterIsValid fs cs) (hlba : s.1 ∈ clusterSectors fs cs) (hnot : cs ∉ old) (hlink : fatVal fs disk cs ≠ 0) :
    Elsewhere fs disk s old disk' ∧ slotEntry disk' s = slotEntry disk s := by
  have hlinks : ∀ c, clusterIsValid fs c → c ∉ old → fatVal fs (freed fs old disk) c = fatVal fs disk c := by
    intro c hc hno
    rw [fatVal_freed h hvalid disk hc, if_neg hno]
  have hsector : ∀ c, clusterIsValid fs c → c ∉ old → fatVal fs disk c ≠ 0 → ∀ lba ∈ clusterSectors fs c, disk' lba = disk lba := by
    intro c hc hno hne lba hmem
    rw [hr.sector c hc (by rwa [hlinks c hc hno]) lba hmem, freed_sector h hvalid disk hc hmem]
  have hentry : slotEntry disk' s = slotEntry disk s := by
    rw [slotEntry, slotEntry, hsector cs hcs hnot hlink s.1 hlba]
  refine ⟨?_, hentry⟩
  constructor
  · exact fun c hc hno _ => (hr.link c hc).trans (hlinks c hc hno)
  · exact fun c hc hno hne lba hmem _ => hsector c hc hno hne lba hmem
  · intro c hc hno hne t hmem _ _
    rw [slotEntry, slotEntry, hsector c hc hno hne t.1 hmem]
  · rw [hentry]
  · rw [hentry]
  · rw [hentry]
    exact hs.1.2.2
  · rwa [hentry]

namespace Elsewhere

variable {s : Slot} {old : List ℕ}

section Apart

variable (hr : Elsewhere fs disk s old disk') (hc : Consistent fs disk) (hs : Owner fs disk s)
  (hfile : ¬ (slotEntry disk s).isDir) (hold : OwnChain fs disk (slotEntry disk s).firstCluster old)

include hr hc hs hfile hold

variable {d : ℕ} {l : List ℕ} {t : Slot}

omit hr in
theorem not_mem_dir (hd : Dir fs disk d) (hl : Chain fs disk d l) {c : ℕ} (hmem : c ∈ l) : c ∉ old := by
  rcases hold with ⟨-, rfl⟩ | hchain
  · simp
  · exact fun hold => hc.file_disjoint hs hfile hchain hd hl hold hmem

theorem dir_chain (hd : Dir fs disk d) (hl : Chain fs disk d l) : Chain fs disk' d l :=
  hl.congr fun c hmem => hr.link c (hl.2 c hmem).1 (not_mem_dir hc hs hfile hold hd hl hmem) (hl.link_ne_zero hmem)

theorem dir_slots (hd : Dir fs disk d) (hl : Chain fs disk d l) :
    ∀ t ∈ dirSlots fs l, t ≠ s → slotEntry disk' t = slotEntry disk t := by
  intro t ht hne
  obtain ⟨⟨c, hmem, hlba⟩, hoff⟩ := mem_dirSlots.1 ht
  exact hr.slots c (hl.2 c hmem).1 (not_mem_dir hc hs hfile hold hd hl hmem) (hl.link_ne_zero hmem) t hlba hoff hne

omit hc hfile hold in
theorem first_ne : (slotEntry disk s).first ≠ 0x00 ∧ (slotEntry disk' s).first ≠ 0x00 := by
  rw [hr.first]
  exact ⟨hs.1.first_ne, hs.1.first_ne⟩

omit hc hfile hold in
theorem matches_iff (name83 : Name83) : (slotEntry disk' s).Matches name83 ↔ (slotEntry disk s).Matches name83 := by
  obtain ⟨hfirst, hattr⟩ := hs.1.2
  rw [Entry.Matches, Entry.Matches, hr.first, hr.name]
  exact ⟨fun hand => ⟨hfirst, hattr, hand.2.2⟩, fun hand => ⟨hfirst, hr.attr, hand.2.2⟩⟩

theorem lookup_eq (hd : Dir fs disk d) (hl : Chain fs disk d l) (name83 : Name83) :
    lookup disk' name83 (dirSlots fs l) =
      (lookup disk name83 (dirSlots fs l)).map fun found => if (found.1, found.2.1) = s then (s.1, s.2, slotEntry disk' s) else found :=
  lookup_changed (hr.dir_slots hc hs hfile hold hd hl) (hr.first_ne hs) (hr.matches_iff hs name83)

theorem sameTree : SameTree fs disk disk' := by
  intro d hd
  obtain ⟨l, hl⟩ := hc.dir_chain hd
  refine ⟨l, l, hl, hr.dir_chain hc hs hfile hold hd hl, fun name83 => ?_, ?_⟩
  · rw [hr.lookup_eq hc hs hfile hold hd hl]
    rcases hfound : lookup disk name83 (dirSlots fs l) with _ | found
    · rfl
    · obtain ⟨-, heq, -⟩ := live_of_lookup hd hl hfound
      rw [Option.map_some]
      by_cases hslot : (found.1, found.2.1) = s
      · have hbefore : ¬ found.2.2.isDir := by rwa [heq, hslot]
        rw [if_pos hslot, subdirOf_file hbefore, @subdirOf_file (s.1, s.2, slotEntry disk' s) hr.file]
      · rw [if_neg hslot]
  · rw [hr.lookup_eq hc hs hfile hold hd hl]
    rcases hfound : lookup disk dotdot83 (dirSlots fs l) with _ | found
    · rfl
    · obtain ⟨-, heq, hname⟩ := live_of_lookup hd hl hfound
      have hslot : (found.1, found.2.1) ≠ s := by
        intro hslot
        rw [heq, hslot] at hname
        exact hs.2 (.inr hname)
      rw [Option.map_some, if_neg hslot]

theorem usedSlots_eq (hd : Dir fs disk d) (hl : Chain fs disk d l) :
    usedSlots disk' (dirSlots fs l) = usedSlots disk (dirSlots fs l) := by
  refine usedSlots_congr fun t ht => ?_
  rcases eq_or_ne t s with rfl | hne
  · rw [hr.first]
  · rw [hr.dir_slots hc hs hfile hold hd hl t ht hne]

theorem slotEntry_of_mem (hd : Dir fs disk d) (hl : Chain fs disk d l)
    (ht : t ∈ usedSlots disk (dirSlots fs l)) (hne : t ≠ s) : slotEntry disk' t = slotEntry disk t :=
  hr.dir_slots hc hs hfile hold hd hl t (List.takeWhile_subset _ ht) hne

theorem dir (hd : Dir fs disk d) : Dir fs disk' d := by
  induction hd with
  | root => exact Dir.root
  | @sub d l t hd hl ht huse hdot hdir htwo ih =>
    have hne : t ≠ s := by
      rintro rfl
      exact hfile hdir
    have heq := hr.slotEntry_of_mem hc hs hfile hold hd hl ht hne
    rw [← hr.usedSlots_eq hc hs hfile hold hd hl] at ht
    rw [← heq] at huse hdot hdir htwo ⊢
    exact Dir.sub ih (hr.dir_chain hc hs hfile hold ‹_› hl) ht huse hdot hdir htwo

/-- Every path leads to the slot it led to before. -/
theorem leads (ho : Online fs dev content) (hf : fs.dataClusters ≤ fuel) {path : Option Path}
    (hpath : Leads content fs fuel disk path t) {w : Driver δ} (hw : OnDisk content disk w) : Leads content fs fuel disk' path t := by
  obtain ⟨o, hrun, hrun', -⟩ := alike_resolveParentAndLeaf ho hc (hr.sameTree hc hs hfile hold) hf path
  obtain ⟨hsome, parent, name83, l, hresolve, hdir, hdot, hl, hfound⟩ := hpath
  obtain rfl : o = .ok (parent, name83) := hrun.outcome_eq hresolve hw
  refine ⟨hsome, parent, name83, l, hrun', hr.dir hc hs hfile hold hdir, hdot, hr.dir_chain hc hs hfile hold hdir hl, ?_⟩
  rw [hr.lookup_eq hc hs hfile hold hdir hl, hfound, Option.map_some]
  split_ifs with hslot
  · rw [← hslot]
  · obtain ⟨hmem, -, -⟩ := lookup_some hfound
    rw [hr.slotEntry_of_mem hc hs hfile hold hdir hl hmem hslot]

end Apart

end Elsewhere

namespace Replaced

variable {s : Slot} {data : List UInt8} {old new : List ℕ}

/-- The file has the data. -/
theorem stored (hm : Mounted fs) (hr : Replaced fs disk s data old new disk') (hlen : data.length < 2 ^ 32) :
    Stored fs disk' (slotEntry disk' s) data := by
  have hfirst : OwnChain fs disk' (new.headD 0) new := by
    cases new with
    | nil => exact .inl ⟨by simp, rfl⟩
    | cons c new => exact .inr (hr.chain c rfl)
  have hlt : new.headD 0 < 2 ^ 32 := by
    rcases hfirst with ⟨hlt, -⟩ | hchain
    · omega
    · have := hchain.inChain.2
      rw [FAT32_EOC] at this
      omega
  rw [hr.entry]
  refine ⟨new, ?_, ?_, ?_⟩
  · rwa [firstCluster_writtenEntry _ _ hlt]
  · rw [size_writtenEntry _ _ hlen, length_chainSectors, hr.length]
    exact le_neededClusters hm hlen
  · rw [size_writtenEntry _ _ hlen, hr.bytes]

end Replaced

/-! ### Writing over a file -/

theorem Consistent.ownChain (hc : Consistent fs disk) (hs : Live fs disk s) :
    ∃ l, OwnChain fs disk (slotEntry disk s).firstCluster l := by
  rcases hc.chain s hs with hzero | ⟨l, hl⟩
  · exact ⟨[], .inl ⟨by omega, rfl⟩⟩
  · exact ⟨l, .inr hl⟩

/-- A write over a file replaces its data, or gives back its clusters and fails. -/
theorem writeFilePath_ends (h : Online fs dev content) (ha : AlwaysWrites dev) (hm : fs.maxDataCluster < FAT32_EOC)
    (hf : fs.dataClusters ≤ fuel) (hc : Consistent fs disk) (hpath : Leads content fs fuel disk path s)
    (hfile : ¬ (slotEntry disk s).isDir) (hlen : data.length < 2 ^ 32) (hw : OnDisk content disk w) :
    ∃ old, OwnChain fs disk (slotEntry disk s).firstCluster old ∧
      Ends (writeFilePath fs fuel path (some data)) w
        (fun _ w' => ∃ new d, Replaced fs disk s data old new d ∧ OnDisk content d w')
        (fun w' => data ≠ [] ∧ ∃ d, Scrubbed fs (freed fs old disk) d ∧ OnDisk content d w') := by
  have hs := hpath.owner
  obtain ⟨old, hold⟩ := hc.ownChain hs.1
  refine ⟨old, hold, ?_⟩
  obtain ⟨d, ld, cs, hd, hld, hcs, hlba, hoff⟩ := hs.1.cluster
  have hnot : cs ∉ old := by
    rcases hold with ⟨-, rfl⟩ | hchain
    · simp
    · exact fun hmem => hc.file_disjoint hs hfile hchain hd hld hmem hcs
  obtain ⟨parent, name83, l, hresolve, -, hl, hfound⟩ := evals_resolveTarget h hpath (some data).isSome rfl
    "write: invalid arguments or unmounted" "write: path resolution failed"
  have hfind := evals_findEntryInDir h hl ((hl.length_le h.toMounted).trans hf) name83
  rw [hfound] at hfind
  have htarget : Evals (OnDisk content disk) (findOrCreate fs fuel path parent name83) (.ok (s.1, s.2, slotEntry disk s))
      (OnDisk content disk) := (Evals.attempt hfind).bind (Evals.pure _)
  obtain ⟨w₁, h₁, hw₁⟩ := hresolve w hw
  obtain ⟨w₂, h₂, hw₂⟩ := htarget w₁ hw₁
  rw [Ends, writeFilePath, bind_ok h₁]
  dsimp only
  rw [bind_ok h₂, if_neg hfile]
  apply (replaceData_ends h ha hf hm (hld.2 cs hcs).1 hlba hoff hold hnot (hld.link_ne_zero hcs) hlen hw₂).bind
  rintro _ w₃ ⟨new, d', hr, hw₃⟩
  obtain ⟨w₄, h₄, hw₄⟩ := evals_setError d' "" w₃ hw₃
  exact .inl ⟨(), w₄, h₄, new, d', hr, hw₄⟩

/-! ### Contents -/

/-- The path leads to a file of these bytes. -/
def Holds (content : δ → ℕ → Sector) (fs : Fat32State δ) (fuel : ℕ) (w : Driver δ) (path : Path) (bytes : List UInt8) : Prop :=
  ∃ disk s, OnDisk content disk w ∧ Leads content fs fuel disk (some path) s ∧ ¬ (slotEntry disk s).isDir ∧
    Stored fs disk (slotEntry disk s) bytes

/-- The file that the path leads to has no cluster. -/
def Bare (content : δ → ℕ → Sector) (fs : Fat32State δ) (fuel : ℕ) (w : Driver δ) (path : Path) : Prop :=
  ∃ disk s, OnDisk content disk w ∧ Leads content fs fuel disk (some path) s ∧ (slotEntry disk s).firstCluster < 2

/-- A consistent volume on a device that works. -/
structure InOrder (content : δ → ℕ → Sector) (dev : BlockDevice δ) (fs : Fat32State δ) (fuel : ℕ) (w : Driver δ) : Prop where
  online : Online fs dev content
  writes : AlwaysWrites dev
  below : fs.maxDataCluster < FAT32_EOC
  enough : fs.dataClusters ≤ fuel
  consistent : ∃ disk, OnDisk content disk w ∧ Consistent fs disk

theorem OnDisk.unique (h : OnDisk content disk w) (h' : OnDisk content disk' w) : disk = disk' := by
  obtain ⟨v, hv, rfl⟩ := h
  obtain ⟨v', hv', rfl⟩ := h'
  rw [← hv.view_eq, ← hv'.view_eq]

theorem Leads.unique {t : Slot} (h : Leads content fs fuel disk path s) (h' : Leads content fs fuel disk path t)
    (hw : OnDisk content disk w) : s = t := by
  obtain ⟨-, parent, name83, l, hresolve, -, -, hl, hfound⟩ := h
  obtain ⟨-, parent', name83', l', hresolve', -, -, hl', hfound'⟩ := h'
  obtain ⟨rfl, rfl⟩ := Prod.mk.inj (Outcome.ok.inj (hresolve.outcome_eq hresolve' hw))
  obtain rfl := hl.unique hl'
  have heq := Option.some.inj (hfound.symm.trans hfound')
  simp only [Prod.mk.injEq] at heq
  exact Prod.ext heq.1 heq.2.1

namespace Holds

variable {w : Driver δ} {path : Path} {bytes : List UInt8}

section

variable (h : Holds content fs fuel w path bytes)
include h

theorem unique {bytes' : List UInt8} (h' : Holds content fs fuel w path bytes') : bytes = bytes' := by
  obtain ⟨disk, s, hw, hpath, -, hbytes⟩ := h
  obtain ⟨disk', s', hw', hpath', -, hbytes'⟩ := h'
  obtain rfl := hw.unique hw'
  obtain rfl := hpath.unique hpath' hw
  exact hbytes.unique hbytes'

theorem nil_of_bare (hbare : Bare content fs fuel w path) : bytes = [] := by
  obtain ⟨disk, s, hw, hpath, -, hbytes⟩ := h
  obtain ⟨disk', s', hw', hpath', hlt⟩ := hbare
  obtain rfl := hw.unique hw'
  obtain rfl := hpath.unique hpath' hw
  have hlen := hbytes.length
  obtain ⟨l, hl, hsize, -⟩ := hbytes
  obtain rfl := hl.unique (.inl ⟨hlt, rfl⟩)
  have hzero : (slotEntry disk s).size = 0 := by simpa [chainSectors] using hsize
  exact List.length_eq_zero_iff.1 (hlen.trans hzero)

theorem congr {w' : Driver δ}
    (hw : ∀ disk, OnDisk content disk w → OnDisk content disk w') : Holds content fs fuel w' path bytes := by
  obtain ⟨disk, s, hdisk, hrest⟩ := h
  exact ⟨disk, s, hw disk hdisk, hrest⟩

theorem readFilePath (hs : InOrder content dev fs fuel w) (capacity : ℕ) :
    ∃ w', Fat32.readFilePath fs fuel (some path) capacity w = (.ok ⟨min bytes.length capacity, bytes.take capacity⟩, w') ∧
      ∀ disk, OnDisk content disk w → OnDisk content disk w' := by
  obtain ⟨disk, s, hw, hpath, hfile, hbytes⟩ := h
  obtain ⟨w', hrun, hw'⟩ := evals_readFilePath hs.online hs.enough hpath hfile hbytes capacity w hw
  refine ⟨w', hrun, fun d hd => ?_⟩
  obtain rfl := hw.unique hd
  exact hw'

/-- A successful write over a file makes its contents the data. One that fails, which emptying never does,
leaves a file that had no cluster as it was, and any other one without its chain. -/
theorem writeFilePath (hs : InOrder content dev fs fuel w) {data : List UInt8} (hlen : data.length < 2 ^ 32) :
    Ends (Fat32.writeFilePath fs fuel (some path) (some data)) w (fun _ w' => Holds content fs fuel w' path data)
      fun w' => data ≠ [] ∧ (Bare content fs fuel w path ∧ Holds content fs fuel w' path bytes ∨
        ¬ Bare content fs fuel w path ∧ ∀ bytes', ¬ Holds content fs fuel w' path bytes') := by
  obtain ⟨disk, s, hw, hpath, hfile, hbytes⟩ := h
  obtain ⟨disk', hw', hc⟩ := hs.consistent
  obtain rfl := hw.unique hw'
  have howner := hpath.owner
  obtain ⟨old, hold, hends⟩ := writeFilePath_ends hs.online hs.writes hs.below hs.enough hc hpath hfile hlen hw
  refine hends.mono ?_ ?_
  · rintro _ w₁ ⟨new, d, hr, hd⟩
    refine ⟨d, s, hd, hr.elsewhere.leads hc howner hfile hold hs.online hs.enough hpath hw, ?_, hr.stored hs.online.toMounted hlen⟩
    exact hr.elsewhere.file
  · rintro w₁ ⟨hne, d, hr, hd⟩
    refine ⟨hne, ?_⟩
    obtain ⟨p, lp, cs, hp, hlp, hcs, hlba, -⟩ := howner.1.cluster
    have hnot := Elsewhere.not_mem_dir hc howner hfile hold hp hlp hcs
    obtain ⟨helse, hentry⟩ := hr.elsewhere hs.online hold.valid howner hfile (hlp.2 cs hcs).1 hlba hnot (hlp.link_ne_zero hcs)
    have hleads := helse.leads hc howner hfile hold hs.online hs.enough hpath hw
    rcases hold with ⟨hlt, rfl⟩ | hchain
    · refine .inl ⟨⟨disk, s, hw, hpath, hlt⟩, d, s, hd, hleads, helse.file, ?_⟩
      obtain ⟨l, hl, hsize, rfl⟩ := hbytes
      obtain rfl := hl.unique (.inl ⟨hlt, rfl⟩)
      rw [hentry]
      exact ⟨[], .inl ⟨hlt, rfl⟩, hsize, (readDisk_congr (by simp [chainSectors]) []).symm⟩
    · refine .inr ⟨?_, ?_⟩
      · rintro ⟨disk', t, hw', hpath', hlt⟩
        obtain rfl := hw.unique hw'
        obtain rfl := hpath.unique hpath' hw
        have := hchain.two_le
        omega
      · rintro bytes' ⟨d', t, hd', hpath', -, l, hl, -⟩
        obtain rfl := hd.unique hd'
        obtain rfl := hleads.unique hpath' hd
        rw [hentry] at hl
        -- its first cluster is free now
        have hzero : fatVal fs d (slotEntry disk s).firstCluster = 0 := by
          rw [hr.link _ (hchain.2 _ hchain.head_mem).1, fatVal_freed hs.online (fun c hc => (hchain.2 c hc).1) disk
            (hchain.2 _ hchain.head_mem).1, if_pos hchain.head_mem]
        rcases hl with ⟨hlt, -⟩ | hl
        · have := hchain.two_le
          omega
        · exact hl.link_ne_zero hl.head_mem hzero

end

end Holds

end Tg11Kernel.Fat32
