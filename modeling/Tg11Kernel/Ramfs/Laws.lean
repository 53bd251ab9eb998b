import Tg11Kernel.Ramfs.Creation
import Tg11Kernel.Ramfs.Reachable

/-! Laws of the RAM file system. An operation that fails changes nothing, but for a write
without data that has made its file before; and what is written is read back, with every
other file as it was, up to the size that a node holds. -/

namespace Tg11Kernel.Ramfs

open Lib Exec

variable {s s' s₁ : Fs} {path : Option Path} {idx : Slot}

/-! ### What a write does -/

/-- The node that a write works on. -/
def Target (s s₁ : Fs) (path : Option Path) (idx : Slot) : Prop :=
  (s₁ = s ∧ resolvePath path s = (.ok idx, s)) ∨ Created s s₁ path idx

theorem Created.isDir (h : Created s s' path idx) : (s'.nodes idx).isDir = false := by
  obtain ⟨-, -, p, name, hp, -, hidx, -, -, rfl⟩ := h
  simp [Fs.withChild, update_of_ne (ne_of_used_of_free hp.1 hidx).symm]

theorem Created.ne (h : Created s s' path idx) : s' ≠ s := by
  obtain ⟨-, -, p, name, hp, -, hidx, -, -, rfl⟩ := h
  intro heq
  have hused : ((s.withChild p idx name false).nodes idx).used = true := by
    simp [Fs.withChild, update_of_ne (ne_of_used_of_free hp.1 hidx).symm, Node.fresh]
  rw [heq, hidx] at hused
  simp at hused

theorem Target.found (h : Target s s₁ path idx) : resolvePath path s₁ = (.ok idx, s₁) := by
  rcases h with ⟨rfl, h⟩ | h
  · exact h
  · exact h.found

/-- The path names no node, and a file can be made there. -/
def CanTouch (s : Fs) (path : Option Path) : Prop := (resolvePath path s).1 = .fail ∧ (touch path s).1 = .ok ()

theorem writeFile_stores (h : WellFormed s) (path : Option Path) (data : Option (List UInt8)) (size : ℕ) :
    Ends (writeFile path data size) s
      (fun _ s' => ¬ (data = none ∧ size ≠ 0) ∧ ∃ s₁ idx, Target s s₁ path idx ∧ (s₁.nodes idx).isDir = false ∧
        s' = s₁.update idx (Node.stored (data.getD []) size))
      (fun s' => s' = s ∧ ¬ CanTouch s path ∨ data = none ∧ size ≠ 0 ∧ CanTouch s path ∧ ∃ idx, Created s s' path idx) := by
  have hrefused : (touch path s).1 = .fail → ¬ CanTouch s path := by
    rintro hfail ⟨-, hok⟩
    rw [hfail] at hok
    simp at hok
  refine ((resolveOrTouch_leads h path).mono (fun _ _ hq => hq) fun _ hs => .inl ⟨hs.1, hrefused hs.2⟩).bind ?_
  rintro idx s₁ (⟨rfl, hidx⟩ | ⟨hcreated, htouch⟩)
  · have hthere : ¬ CanTouch s₁ path := by
      rintro ⟨hfail, -⟩
      rw [hidx] at hfail
      simp at hfail
    refine Ends.gets_bind (Ends.require_bind (fun hfile => ?_) fun _ => .inl ⟨rfl, hthere⟩)
    refine Ends.require_bind (fun hnull => Ends.modify ?_) fun _ => .inl ⟨rfl, hthere⟩
    exact ⟨hnull, _, idx, .inl ⟨rfl, hidx⟩, hfile, rfl⟩
  · refine Ends.gets_bind (Ends.require_bind (fun hfile => ?_) fun hdir => absurd hcreated.isDir hdir)
    refine Ends.require_bind (fun hnull => Ends.modify ⟨hnull, s₁, idx, .inr hcreated, hfile, rfl⟩) fun hnull => .inr ?_
    obtain ⟨hnone, hsize⟩ := not_not.1 hnull
    exact ⟨hnone, hsize, ⟨hcreated.missing, htouch⟩, idx, hcreated⟩

/-! ### Failures -/

def writeText (path : Option Path) (text : List UInt8) : M Unit := writeFile path (some text) text.length

/-- The calls that change the file system. -/
inductive Call where
  | op (o : Op)
  | writeText (path : Option Path) (text : List UInt8)

def Call.run : Call → M Unit
  | .op o => o.run
  | .writeText path text => Ramfs.writeText path text

/-- A write of no data but of some size, to a path that names no node and for which `fs_touch` makes one. -/
def Call.MakesEmptyFile (s : Fs) : Call → Prop
  | .op (.writeFile path none size) => size ≠ 0 ∧ CanTouch s path
  | _ => False

theorem writeFile_data_fails (h : WellFormed s) (path : Option Path) (data : List UInt8) (size : ℕ)
    (hfail : (writeFile path (some data) size s).1 = .fail) : (writeFile path (some data) size s).2 = s := by
  rcases writeFile_stores h path (some data) size with ⟨_, s', hrun, -⟩ | ⟨s', hrun, ⟨rfl, -⟩ | ⟨hnone, -⟩⟩
  · simp [hrun] at hfail
  · rw [hrun]
  · simp at hnone

theorem state_of_ends {m : M Unit} {Q : Unit → Fs → Prop} (h : Ends m s Q (· = s)) (hfail : (m s).1 = .fail) : (m s).2 = s := by
  rcases h with ⟨_, s', hrun, -⟩ | ⟨s', hrun, rfl⟩
  · simp [hrun] at hfail
  · rw [hrun]

theorem cp_fails (h : WellFormed s) (src dst : Option Path) (hfail : (cp src dst s).1 = .fail) : (cp src dst s).2 = s := by
  rcases h.resolvePath_reads src with ⟨idx, _, hidx, rfl, -⟩ | ⟨_, hidx, rfl⟩
  · rename_i s
    have hread : Exec.gets (fun s : Fs => s.nodes idx) s = (.ok (s.nodes idx), s) := rfl
    rw [cp, bind_ok hidx, bind_ok hread] at hfail ⊢
    by_cases hfile : (s.nodes idx).isDir = false
    · rw [require_pos hfile] at hfail ⊢
      exact writeFile_data_fails h dst _ _ hfail
    · rw [require_neg hfile]
      rfl
  · rw [cp, bind_fail hidx]

theorem writeFile_none_fails_iff (h : WellFormed s) (path : Option Path) (size : ℕ) :
    ((writeFile path none size s).1 = .fail → (writeFile path none size s).2 = s) ↔ ¬ (size ≠ 0 ∧ CanTouch s path) := by
  rcases writeFile_stores h path none size with ⟨_, s', hrun, hnull, -⟩ | ⟨s', hrun, ⟨rfl, hno⟩ | ⟨-, hsize, hyes, idx, hcreated⟩⟩
  · rw [hrun]
    exact iff_of_true (by simp) fun hand => hnull ⟨rfl, hand.1⟩
  · rw [hrun]
    exact iff_of_true (fun _ => rfl) fun hand => hno hand.2
  · rw [hrun]
    exact iff_of_false (fun hall => hcreated.ne (hall rfl)) fun hnot => hnot ⟨hsize, hyes⟩

/-- An operation that fails changes nothing, but for a write without data that has made its file before. -/
theorem fails_unchanged_iff (h : WellFormed s) (call : Call) :
    ((call.run s).1 = .fail → (call.run s).2 = s) ↔ ¬ call.MakesEmptyFile s := by
  cases call with
  | writeText path text => exact iff_of_true (writeFile_data_fails h path text _) not_false
  | op o =>
    cases o with
    | mkdir path => exact iff_of_true (state_of_ends (mkdir_ends h path)) not_false
    | touch path => exact iff_of_true (state_of_ends (touch_ends h path)) not_false
    | rm path => exact iff_of_true (state_of_ends (rm_ends h path)) not_false
    | cd path => exact iff_of_true (state_of_ends (cd_ends h path)) not_false
    | cp src dst => exact iff_of_true (cp_fails h src dst) not_false
    | mv src dst => exact iff_of_true (state_of_ends (mv_ends h src dst)) not_false
    | writeFile path data size =>
      cases data with
      | some data => exact iff_of_true (writeFile_data_fails h path data size) not_false
      | none => exact writeFile_none_fails_iff h path size

theorem wellFormed_started : WellFormed started := by
  unfold started
  exact (Reachable.init blank).wellFormed

/-- Data is refused for a directory. -/
theorem fails_unchanged_root : (Ramfs.writeText (some (chars "/")) (chars "x") started).1 = .fail ∧
    (Ramfs.writeText (some (chars "/")) (chars "x") started).2 = started := by
  have hfail : (Ramfs.writeText (some (chars "/")) (chars "x") started).1 = .fail := by decide +kernel
  exact ⟨hfail, (fails_unchanged_iff wellFormed_started (.writeText (some (chars "/")) (chars "x"))).2 not_false hfail⟩

/-- A write of one byte from a null pointer fails and leaves an empty file. -/
theorem not_fails_unchanged : ¬ ∀ s, WellFormed s → ∀ call : Call, (call.run s).1 = .fail → (call.run s).2 = s := by
  intro hall
  have hcan : CanTouch started (some (chars "/a")) := by
    unfold CanTouch
    decide +kernel
  have hfail : (writeFile (some (chars "/a")) none 1 started).1 = .fail := by decide +kernel
  refine (writeFile_none_fails_iff wellFormed_started (some (chars "/a")) 1).1 (fun _ => ?_) ⟨by decide, hcan⟩
  exact hall _ wellFormed_started (.op (.writeFile (some (chars "/a")) none 1)) hfail

/-! ### Reading what was written -/

/-- The names on the way from the root down to a node. -/
inductive Located (s : Fs) : Slot → List Name → Prop
  | root : Located s 0 []
  | child {i p : Slot} {names : List Name} (hne : i ≠ 0) (hused : (s.nodes i).used = true) (hparent : (s.nodes i).parent = some p)
      (hp : Located s p names) : Located s i (names ++ [(s.nodes i).name])

/-- After a write its data is read back, every path leads where it led, all other nodes are what they were, and
only the file written may be new. -/
structure WriteLaw (s s' : Fs) (path : Option Path) (data : List UInt8) : Prop where
  read : ∀ capacity, data.length ≤ capacity → readFile path capacity s' = (.ok data, s')
  leads : ∀ p i, resolvePath p s = (.ok i, s) → resolvePath p s' = (.ok i, s')
  others : ∀ i, (s.nodes i).used = true → resolvePath path s' ≠ (.ok i, s') →
    (s'.nodes i).isDir = (s.nodes i).isDir ∧ (s'.nodes i).size = (s.nodes i).size ∧ (s'.nodes i).data = (s.nodes i).data
  kept : ∀ i names, Located s i names → Located s' i names
  grows : ∀ i names, Located s' i names → Located s i names ∨ resolvePath path s' = (.ok i, s')

/-- After a copy both paths lead to what the source was. -/
def CopyLaw (s s' : Fs) (src dst : Option Path) : Prop :=
  ∃ bytes : List UInt8, ∀ capacity, readFile src capacity s = (.ok (bytes.take capacity), s) ∧
    readFile dst capacity s' = (.ok (bytes.take capacity), s') ∧ readFile src capacity s' = (.ok (bytes.take capacity), s')

namespace SameFrame

variable (h : SameFrame s s')

include h

theorem symm : SameFrame s' s := ⟨fun i => (h.nodes i).symm, h.cwd.symm⟩

theorem leads {i : Slot} (hi : Ramfs.resolvePath path s = (.ok i, s)) : Ramfs.resolvePath path s' = (.ok i, s') := by
  have hsame := (h.resolvePath path s s' ⟨rfl, rfl⟩).2.1
  rw [hi] at hsame
  exact Prod.ext hsame.symm (resolvePath_state path s')

theorem located {i : Slot} {names : List Name} (hi : Located s i names) : Located s' i names := by
  induction hi with
  | root => exact Located.root
  | @child i p names hne hused hparent _ ih =>
    have hnode := h.nodes i
    simp only [Node.frame, Prod.mk.injEq] at hnode
    obtain ⟨hu, -, hp, -, -, hn⟩ := hnode
    rw [← hn]
    exact Located.child hne (hu.trans hused) (hp.trans hparent) ih

end SameFrame

namespace Created

variable (h : Created s s₁ path idx)

include h

theorem node {i : Slot} (hi : (s.nodes i).used = true) :
    (s₁.nodes i).isDir = (s.nodes i).isDir ∧ (s₁.nodes i).size = (s.nodes i).size ∧ (s₁.nodes i).data = (s.nodes i).data ∧
      (s₁.nodes i).used = (s.nodes i).used ∧ (s₁.nodes i).parent = (s.nodes i).parent ∧ (s₁.nodes i).name = (s.nodes i).name := by
  obtain ⟨-, -, p, name, -, -, hidx, -, -, rfl⟩ := h
  rw [withChild_nodes_of_ne (ne_of_used_of_free hi hidx)]
  exact ⟨rfl, rfl, rfl, rfl, rfl, rfl⟩

theorem leads (hs : WellFormed s) {p : Option Path} {i : Slot} (hi : resolvePath p s = (.ok i, s)) : resolvePath p s₁ = (.ok i, s₁) := by
  obtain ⟨-, -, q, name, hq, hne, hidx, hname, hnone, rfl⟩ := h
  obtain ⟨kids, hshape⟩ := hs.shape
  rcases p with _ | _ | ⟨c, p⟩
  · obtain rfl : s.cwdNode = i := Outcome.ok.inj (Prod.mk.inj hi).1
    rfl
  · obtain rfl : s.cwdNode = i := Outcome.ok.inj (Prod.mk.inj hi).1
    rfl
  · rw [resolvePath_cons] at hi ⊢
    exact goes_iff.1 (goes_withChild hshape hq hne hidx hname (hshape.not_mem_of_findChild hnone) false (hs.start_used _) (goes_iff.2 hi))

theorem located {i : Slot} {names : List Name} (hi : Located s i names) : Located s₁ i names := by
  induction hi with
  | root => exact Located.root
  | @child i p names hne hused hparent _ ih =>
    obtain ⟨-, -, -, hu, hp, hn⟩ := h.node hused
    rw [← hn]
    exact Located.child hne (hu.trans hused) (hp.trans hparent) ih

/-- Only the new node is new. -/
theorem grows (hs : WellFormed s) {i : Slot} {names : List Name} (hi : Located s₁ i names) : i = idx ∨ Located s i names := by
  obtain ⟨kids, hshape⟩ := hs.shape
  induction hi with
  | root => exact .inr Located.root
  | @child i p names hne hused hparent _ ih =>
    rcases eq_or_ne i idx with rfl | hi
    · exact .inl rfl
    obtain ⟨-, -, q, name, hq, -, hidx, -, -, rfl⟩ := h
    rw [withChild_nodes_of_ne hi] at hused hparent ⊢
    dsimp only at hused hparent ⊢
    rcases ih with rfl | hp
    · have hfree := (hshape.parent_dir hused hparent).1
      rw [hidx] at hfree
      simp at hfree
    · exact .inr (Located.child hne hused hparent hp)

end Created

/-- What a write leaves, where its data is read back. -/
theorem writeLaw_of_target (h : WellFormed s) (ht : Target s s₁ path idx) (hfile : (s₁.nodes idx).isDir = false) {data : List UInt8}
    {size : ℕ} (hread : ∀ capacity, data.length ≤ capacity →
      readFile path capacity (s₁.update idx (Node.stored data size)) = (.ok data, s₁.update idx (Node.stored data size))) :
    WriteLaw s (s₁.update idx (Node.stored data size)) path data := by
  have hsame := sameFrame_stored s₁ idx data size
  have hfound := hsame.leads ht.found
  refine ⟨hread, fun p i hi => ?_, fun i hused hne => ?_, fun i names hi => ?_, fun i names hi => ?_⟩
  · rcases ht with ⟨rfl, -⟩ | hcreated
    · exact hsame.leads hi
    · exact hsame.leads (hcreated.leads h hi)
  · have hi : i ≠ idx := by
      rintro rfl
      exact hne hfound
    rw [update_of_ne hi]
    rcases ht with ⟨rfl, -⟩ | hcreated
    · exact ⟨rfl, rfl, rfl⟩
    · obtain ⟨hdir, hsize, hdata, -⟩ := hcreated.node hused
      exact ⟨hdir, hsize, hdata⟩
  · rcases ht with ⟨rfl, -⟩ | hcreated
    · exact hsame.located hi
    · exact hsame.located (hcreated.located hi)
  · have hi₁ := hsame.symm.located hi
    rcases ht with ⟨rfl, -⟩ | hcreated
    · exact .inl hi₁
    · rcases hcreated.grows h hi₁ with rfl | hold
      · exact .inr hfound
      · exact .inl hold

/-- A file that was written is read up to the size that was kept. -/
theorem readFile_stored (ht : Target s s₁ path idx) (hfile : (s₁.nodes idx).isDir = false) {data : List UInt8} {size : ℕ}
    (hsize : size ≤ data.length) (capacity : ℕ) :
    readFile path capacity (s₁.update idx (Node.stored data size)) =
      (.ok ((data.take (cappedSize size)).take capacity), s₁.update idx (Node.stored data size)) := by
  have hsame := sameFrame_stored s₁ idx data size
  rw [readFile_of_resolve (hsame.leads ht.found) ((hsame.isDir idx).trans hfile), update_self, ← firstBytes_storeData _ hsize]
  rfl

theorem writeLaw_iff (h : WellFormed s) {data : List UInt8} (hwrite : writeFile path (some data) data.length s = (.ok (), s')) :
    WriteLaw s s' path data ↔ data.length < FS_MAX_FILE_SIZE := by
  rcases writeFile_stores h path (some data) data.length with ⟨_, _, hrun, -, s₁, idx, ht, hfile, rfl⟩ | ⟨_, hrun, -⟩
  swap
  · rw [hwrite] at hrun
    simp at hrun
  obtain rfl : s₁.update idx (Node.stored data data.length) = s' := (Prod.mk.inj (hrun.symm.trans hwrite)).2
  have hread := fun capacity => @readFile_stored s s₁ path idx ht hfile data data.length le_rfl capacity
  have hcapped := cappedSize_eq_min data.length
  have hmax : 0 < FS_MAX_FILE_SIZE := by decide
  constructor
  · intro hlaw
    have hback := (hread data.length).symm.trans (hlaw.read data.length le_rfl)
    have hlen := congrArg List.length (Outcome.ok.inj (Prod.mk.inj hback).1)
    rw [List.length_take, List.length_take] at hlen
    omega
  · intro hlt
    refine writeLaw_of_target h ht hfile fun capacity hcap => ?_
    have hkept : data.take (cappedSize data.length) = data := List.take_of_length_le (by omega)
    have hall := hread capacity
    rwa [hkept, List.take_of_length_le hcap] at hall

theorem copyLaw (h : WellFormed s) {src dst : Option Path} (hcopy : cp src dst s = (.ok (), s')) : CopyLaw s s' src dst := by
  rcases h.resolvePath_reads src with ⟨i, _, hsrc, rfl, hused⟩ | ⟨_, hsrc, rfl⟩
  swap
  · rw [cp, bind_fail hsrc] at hcopy
    simp at hcopy
  rename_i s
  have hread : Exec.gets (fun s : Fs => s.nodes i) s = (.ok (s.nodes i), s) := rfl
  rw [cp, bind_ok hsrc, bind_ok hread] at hcopy
  by_cases hfile : (s.nodes i).isDir = false
  swap
  · rw [require_neg hfile, bind_fail (fail_apply s)] at hcopy
    simp at hcopy
  rw [require_pos hfile, pure_bind_eq] at hcopy
  obtain ⟨kids, hshape⟩ := h.shape
  have hbound := hshape.sizes i
  have hcapped : cappedSize (s.nodes i).size = (s.nodes i).size := by
    rw [cappedSize_eq_min]
    omega
  have hmax : (s.nodes i).size ≤ FS_MAX_FILE_SIZE := hbound.trans (Nat.sub_le _ _)
  rcases writeFile_stores h dst (some ((s.nodes i).data.firstBytes FS_MAX_FILE_SIZE)) (s.nodes i).size with
    ⟨_, t, hrun, -, s₁, idx, ht, hdst, heq⟩ | ⟨_, hrun, -⟩
  swap
  · rw [Block.firstBytes, hcopy] at hrun
    simp at hrun
  obtain rfl : t = s' := (Prod.mk.inj (hrun.symm.trans hcopy)).2
  rw [Option.getD_some] at heq
  subst heq
  have hback := fun capacity => @readFile_stored s s₁ dst idx ht hdst ((s.nodes i).data.firstBytes FS_MAX_FILE_SIZE) (s.nodes i).size
    (by rwa [Block.length_firstBytes]) capacity
  rw [hcapped, Block.take_firstBytes, Nat.min_eq_left hmax] at hback
  have hsame := sameFrame_stored s₁ idx ((s.nodes i).data.firstBytes FS_MAX_FILE_SIZE) (s.nodes i).size
  obtain ⟨hsrc₁, hdir₁, hsize₁, hdata₁⟩ : resolvePath src s₁ = (.ok i, s₁) ∧ (s₁.nodes i).isDir = (s.nodes i).isDir ∧ (s₁.nodes i).size = (s.nodes i).size ∧
      (s₁.nodes i).data = (s.nodes i).data := by
    rcases ht with ⟨rfl, -⟩ | hcreated
    · exact ⟨hsrc, rfl, rfl, rfl⟩
    · obtain ⟨hd, hs, hb, -⟩ := hcreated.node hused
      exact ⟨hcreated.leads h hsrc, hd, hs, hb⟩
  refine ⟨(s.nodes i).data.firstBytes (s.nodes i).size, fun capacity => ⟨readFile_of_resolve hsrc hfile capacity, hback capacity, ?_⟩⟩
  rcases eq_or_ne i idx with rfl | hne
  · -- the source is the file that was written
    have hdst' := readFile_of_resolve (hsame.leads ht.found) ((hsame.isDir i).trans hdst) capacity
    rw [← hback capacity]
    exact (readFile_of_resolve (hsame.leads hsrc₁) ((hsame.isDir i).trans hdst) capacity).trans hdst'.symm
  · have hnode : (s₁.update idx (Node.stored ((s.nodes i).data.firstBytes FS_MAX_FILE_SIZE) (s.nodes i).size)).nodes i = s₁.nodes i :=
      update_of_ne hne
    have hread' := readFile_of_resolve (hsame.leads hsrc₁) (by rw [hnode, hdir₁, hfile]) capacity
    rwa [hnode, hsize₁, hdata₁] at hread'

/-- The laws of writing and copying, in every tree: a copy always keeps them, and a write exactly up to the
size that a node holds. -/
theorem write_laws (h : WellFormed s) :
    (∀ path data s', writeFile path (some data) data.length s = (.ok (), s') → (WriteLaw s s' path data ↔ data.length < FS_MAX_FILE_SIZE)) ∧
      ∀ src dst s', cp src dst s = (.ok (), s') → CopyLaw s s' src dst :=
  ⟨fun _ _ _ hwrite => writeLaw_iff h hwrite, fun _ _ _ hcopy => copyLaw h hcopy⟩

/-- A new file of one byte. -/
theorem write_laws_new : ∃ s', writeFile (some (chars "/a")) (some [1]) 1 started = (.ok (), s') ∧
    WriteLaw started s' (some (chars "/a")) [1] := by
  have hok : (writeFile (some (chars "/a")) (some [1]) 1 started).1 = .ok () := by decide +kernel
  exact ⟨_, Prod.ext hok rfl, ((write_laws wellFormed_started).1 _ [1] _ (Prod.ext hok rfl)).2 (by decide)⟩

theorem wellFormed_touched : WellFormed touched := by
  unfold touched
  exact (run_ends wellFormed_started (.touch (some (chars "/a"))) trivial).state.2

/-- A write of 8192 bytes succeeds and keeps 8191 of them. -/
theorem not_write_laws : ¬ ∀ s, WellFormed s → ∀ path data s', writeFile path (some data) data.length s = (.ok (), s') →
    WriteLaw s s' path data := by
  intro hall
  obtain ⟨s', hwrite, -⟩ := writeFile_of_holds holds_touched (List.replicate FS_MAX_FILE_SIZE 0)
  have hlt := (writeLaw_iff wellFormed_touched hwrite).1 (hall _ wellFormed_touched _ _ _ hwrite)
  rw [List.length_replicate] at hlt
  omega

end Tg11Kernel.Ramfs
