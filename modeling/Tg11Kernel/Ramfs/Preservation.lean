import Tg11Kernel.Ramfs.Invariant

/-! The operations keep the tree well formed. Two changes of the tree account for
all of them: a node is placed under a directory, where it was free before or
somewhere else, and a node without children is removed. -/

namespace Tg11Kernel.Ramfs

open Lib Exec

variable {s s' : Fs} {kids kids' : Slot → List Slot} {p q i idx : Slot} {f : Node → Node}

@[simp] theorem update_cwdNode : (s.update i f).cwdNode = s.cwdNode := rfl

@[simp] theorem update_self : (s.update i f).nodes i = f (s.nodes i) := Function.update_self ..

theorem update_of_ne (h : idx ≠ i) : (s.update i f).nodes idx = s.nodes idx := Function.update_of_ne h _ _

theorem links_update : (s.update i f).links = ⟨Function.update s.links.first i (f (s.nodes i)).firstChild,
        Function.update s.links.next i (f (s.nodes i)).nextSibling⟩ := by
  ext j : 2 <;> by_cases hj : j = i
  · subst hj
    simp [Fs.links]
  · simp [Fs.links, update_of_ne hj, Function.update_of_ne hj]
  · subst hj
    simp [Fs.links]
  · simp [Fs.links, update_of_ne hj, Function.update_of_ne hj]

theorem ne_of_used_of_free (hi : (s.nodes i).used = true) (hidx : (s.nodes idx).used = false) : i ≠ idx := by
  rintro rfl
  rw [hi] at hidx
  simp at hidx

/-- The states differ in their links and in the fields of one node. -/
structure SameBut (idx : Slot) (s s' : Fs) : Prop where
  used : ∀ j ≠ idx, (s'.nodes j).used = (s.nodes j).used
  isDir : ∀ j ≠ idx, (s'.nodes j).isDir = (s.nodes j).isDir
  parent : ∀ j ≠ idx, (s'.nodes j).parent = (s.nodes j).parent
  name : ∀ j ≠ idx, (s'.nodes j).name = (s.nodes j).name
  size : ∀ j ≠ idx, (s'.nodes j).size = (s.nodes j).size

section

variable (h : Shape s kids) (hsame : SameBut idx s s') (hchains : s'.links.Lists kids') (hloose : ∀ j, Loose s' j → (s'.nodes j).nextSibling = none)
include h hsame hchains hloose

/-- A node placed under a directory that is not below it, by a name that is free there. -/
theorem Shape.place (hmem : ∀ j ≠ idx, ∀ r, j ∈ kids' r ↔ j ∈ kids r) (hidx : ∀ r, idx ∈ kids' r ↔ r = q)
    (hne : idx ≠ 0) (hused : (s'.nodes idx).used = true) (hparent : (s'.nodes idx).parent = some q)
    (hdir : ∀ j ∈ kids idx, (s'.nodes idx).isDir = true)
    (hq : (s.nodes q).used = true ∧ (s.nodes q).isDir = true)
    (hup : ∃ l, IsChain s.up (some q) l ∧ idx ∉ l) (hname : ValidName (s'.nodes idx).name)
    (hnew : ∀ j ∈ kids q, j ≠ idx → (s.nodes j).name ≠ (s'.nodes idx).name)
    (hsize : (s'.nodes idx).size ≤ FS_MAX_FILE_SIZE - 1) : Shape s' kids' := by
  obtain ⟨up, hup, hnot⟩ := hup
  have hqne : q ≠ idx := by
    rintro rfl
    exact hnot hup.head_mem
  constructor
  case chains => exact hchains
  case mem_iff =>
    intro j r
    by_cases hj : j = idx
    · subst hj
      simp only [hidx, hparent, hne, hused, Option.some.injEq, ne_eq, not_false_eq_true, true_and, eq_comm]
    · rw [hmem j hj, hsame.used j hj, hsame.parent j hj, h.mem_iff]
  case dir =>
    intro j r hj
    by_cases hr : r = idx
    · subst hr
      refine ⟨hused, ?_⟩
      by_cases hjr : j = r
      · subst hjr
        exact absurd ((hidx j).1 hj).symm hqne
      · exact hdir j ((hmem j hjr r).1 hj)
    · rw [hsame.used r hr, hsame.isDir r hr]
      by_cases hji : j = idx
      · subst hji
        rw [(hidx r).1 hj]
        exact hq
      · exact h.dir j r ((hmem j hji r).1 hj)
  case root =>
    rw [hsame.used 0 hne.symm, hsame.isDir 0 hne.symm, hsame.parent 0 hne.symm]
    exact h.root
  case parent =>
    intro j hj0 hj
    by_cases hji : j = idx
    · subst hji
      exact ⟨q, hparent⟩
    · rw [hsame.used j hji] at hj
      rw [hsame.parent j hji]
      exact h.parent j hj0 hj
  case ascends =>
    -- a way up that passes the placed node goes on from its new parent
    intro j hj
    have hne' : ∀ b ≠ idx, s'.up b = s.up b := hsame.parent
    have hup' : IsChain s.up (s'.up idx) up := by rwa [show s'.up idx = some q from hparent]
    by_cases hji : j = idx
    · subst hji
      refine ⟨j :: up, rfl, hup'.congr fun b hb => hne' b ?_⟩
      rintro rfl
      exact hnot hb
    · rw [hsame.used j hji] at hj
      obtain ⟨l, hl⟩ := h.ascends j hj
      exact hl.redirect hne' hup' hnot
  case loose => exact hloose
  case names_inj =>
    intro r j hj k hk hjk
    by_cases hji : j = idx <;> by_cases hki : k = idx
    · rw [hji, hki]
    · subst hji
      obtain rfl := (hidx r).1 hj
      rw [hsame.name k hki] at hjk
      exact absurd hjk.symm (hnew k ((hmem k hki r).1 hk) hki)
    · subst hki
      obtain rfl := (hidx r).1 hk
      rw [hsame.name j hji] at hjk
      exact absurd hjk (hnew j ((hmem j hji r).1 hj) hji)
    · rw [hsame.name j hji, hsame.name k hki] at hjk
      exact h.names_inj r j ((hmem j hji r).1 hj) k ((hmem k hki r).1 hk) hjk
  case names =>
    intro j hj0 hj
    by_cases hji : j = idx
    · rw [hji]
      exact hname
    · rw [hsame.used j hji] at hj
      rw [hsame.name j hji]
      exact h.names j hj0 hj
  case sizes =>
    intro j
    by_cases hji : j = idx
    · rw [hji]
      exact hsize
    · rw [hsame.size j hji]
      exact h.sizes j

/-- A node without children removed. -/
theorem Shape.remove (hmem : ∀ j r, j ∈ kids' r ↔ j ≠ idx ∧ j ∈ kids r) (hne : idx ≠ 0) (hempty : kids idx = [])
    (hused : (s'.nodes idx).used = false) (hup : s'.up = s.up)
    (hsize : (s'.nodes idx).size ≤ FS_MAX_FILE_SIZE - 1) : Shape s' kids' := by
  have hlive : ∀ j, (s'.nodes j).used = true → j ≠ idx := by
    rintro j hj rfl
    rw [hused] at hj
    simp at hj
  constructor
  case chains => exact hchains
  case mem_iff =>
    intro j r
    rw [hmem, h.mem_iff]
    by_cases hj : j = idx
    · subst hj
      simp [hused]
    · simp [hj, hsame.used j hj, hsame.parent j hj]
  case dir =>
    intro j r hj
    have hjr := ((hmem j r).1 hj).2
    have hr : r ≠ idx := by
      rintro rfl
      rw [hempty] at hjr
      simp at hjr
    rw [hsame.used r hr, hsame.isDir r hr]
    exact h.dir j r hjr
  case root =>
    rw [hsame.used 0 hne.symm, hsame.isDir 0 hne.symm, hsame.parent 0 hne.symm]
    exact h.root
  case parent =>
    intro j hj0 hj
    have hji := hlive j hj
    rw [hsame.used j hji] at hj
    rw [hsame.parent j hji]
    exact h.parent j hj0 hj
  case ascends =>
    intro j hj
    rw [hsame.used j (hlive j hj)] at hj
    rw [hup]
    exact h.ascends j hj
  case loose => exact hloose
  case names_inj =>
    intro r j hj k hk hjk
    obtain ⟨hji, hj⟩ := (hmem j r).1 hj
    obtain ⟨hki, hk⟩ := (hmem k r).1 hk
    rw [hsame.name j hji, hsame.name k hki] at hjk
    exact h.names_inj r j hj k hk hjk
  case names =>
    intro j hj0 hj
    have hji := hlive j hj
    rw [hsame.used j hji] at hj
    rw [hsame.name j hji]
    exact h.names j hj0 hj
  case sizes =>
    intro j
    by_cases hji : j = idx
    · rw [hji]
      exact hsize
    · rw [hsame.size j hji]
      exact h.sizes j

end

/-! ### Adding a node -/

theorem ne_zero_of_mem_slotsAfterRoot : ∀ i ∈ slotsAfterRoot, i ≠ 0 := by
  intro i hi
  have hlist : List.finRange FS_MAX_NODES = 0 :: slotsAfterRoot := by
    rw [slotsAfterRoot, List.drop_one]
    exact (List.cons_head_tail (List.finRange_eq_nil_iff.not.2 (by decide))).symm
  have hnodup := List.nodup_finRange FS_MAX_NODES
  rw [hlist] at hnodup
  exact fun hzero => (List.nodup_cons.1 hnodup).1 (hzero ▸ hi)

theorem allocNode_ends (s : Fs) :
    Ends allocNode s (fun i s' => i ≠ 0 ∧ (s.nodes i).used = false ∧ s' = s.update i Node.fresh) (· = s) := by
  apply Ends.gets_bind
  cases hfind : slotsAfterRoot.find? fun i => !(s.nodes i).used with
  | none => exact Ends.fail rfl
  | some i =>
    have hunused := List.find?_some hfind
    exact .inl ⟨i, _, rfl, ne_zero_of_mem_slotsAfterRoot i (List.mem_of_find?_eq_some hfind), by simpa using hunused, rfl⟩

namespace Shape

theorem not_mem_of_loose (h : Shape s kids) (hi : Loose s i) (r : Slot) : i ∉ kids r := by
  intro hr
  obtain ⟨hne, hused, -⟩ := (h.mem_iff i r).1 hr
  rcases hi with hi | hi
  · rw [hused] at hi
    simp at hi
  · exact hne hi

theorem kids_nil_of_free (h : Shape s kids) (hi : (s.nodes i).used = false) : kids i = [] := by
  refine List.eq_nil_iff_forall_not_mem.2 fun j hj => ?_
  rw [(h.dir j i hj).1] at hi
  simp at hi

theorem firstChild_eq_none (h : Shape s kids) (hi : kids i = []) : (s.nodes i).firstChild = none := by
  have hchain := h.chains i
  rwa [hi, IsChain.nil_iff] at hchain

/-- Every node on the way up from a used directory is one. -/
theorem dir_of_mem_up (h : Shape s kids) {l : List Slot} (hl : IsChain s.up (some p) l)
    (hp : (s.nodes p).used = true ∧ (s.nodes p).isDir = true) :
    ∀ j ∈ l, (s.nodes j).used = true ∧ (s.nodes j).isDir = true := by
  induction l generalizing p with
  | nil => simp
  | cons a l ih =>
    obtain ⟨hpa, hl⟩ := hl
    obtain rfl := Option.some.inj hpa
    intro j hj
    rcases List.mem_cons.1 hj with rfl | hj
    · exact hp
    · cases hup : s.up p with
      | none =>
        rw [hup] at hl
        cases l with
        | nil => simp at hj
        | cons b l => simp at hl
      | some q =>
        rw [hup] at hl
        exact ih hl (h.parent_dir hp.1 hup) j hj

end Shape

/-- The state after `add_child` took the slot `idx`. -/
def Fs.withChild (s : Fs) (parent idx : Slot) (name : Name) (isDir : Bool) : Fs :=
  ((s.update idx Node.fresh).update idx fun n =>
    { n with isDir := isDir, parent := some parent, firstChild := none,
             nextSibling := (s.nodes parent).firstChild, name := name }).update parent
    fun n => { n with firstChild := some idx }

section WithChild

variable {name : Name} {isDir : Bool}

theorem withChild_nodes_of_ne {j : Slot} (hj : j ≠ idx) : (s.withChild p idx name isDir).nodes j =
    { s.nodes j with firstChild := if j = p then some idx else (s.nodes j).firstChild } := by
  by_cases hjp : j = p
  · subst hjp
    simp [Fs.withChild, update_of_ne hj]
  · simp [Fs.withChild, update_of_ne hj, update_of_ne hjp, hjp]

theorem sameBut_withChild : SameBut idx s (s.withChild p idx name isDir) := by
  constructor <;> intro j hj <;> rw [withChild_nodes_of_ne hj]

theorem Shape.withChild (h : Shape s kids) (hp : (s.nodes p).used = true ∧ (s.nodes p).isDir = true) (hne : idx ≠ 0)
    (hidx : (s.nodes idx).used = false) (hname : ValidName name) (hnew : ∀ j ∈ kids p, (s.nodes j).name ≠ name) :
    Shape (s.withChild p idx name isDir) (Function.update kids p (idx :: kids p)) := by
  have hpi : p ≠ idx := ne_of_used_of_free hp.1 hidx
  have hnode : (s.withChild p idx name isDir).nodes idx =
      ⟨true, isDir, some p, none, (s.nodes p).firstChild, name, 0, (s.nodes idx).data.set 0 0⟩ := by
    simp [Fs.withChild, update_of_ne hpi.symm, Node.fresh]
  have hnil := h.kids_nil_of_free hidx
  have hlinks : (s.withChild p idx name isDir).links = s.links.push p idx := by
    ext j : 2 <;> by_cases hj : j = idx
    · subst hj
      simp [Fs.links, Links.push, hnode, Function.update_of_ne hpi.symm, h.firstChild_eq_none hnil]
    · rcases eq_or_ne j p with rfl | hjp
      · simp [Fs.links, Links.push, withChild_nodes_of_ne hj]
      · simp [Fs.links, Links.push, withChild_nodes_of_ne hj, hjp]
    · subst hj
      simp [Fs.links, Links.push, hnode]
    · simp [Fs.links, Links.push, withChild_nodes_of_ne hj, Function.update_of_ne hj]
  obtain ⟨up, hup⟩ := h.ascends p hp.1
  apply h.place (q := p) (sameBut_withChild : SameBut idx s _)
  case hchains =>
    rw [hlinks]
    exact h.chains.push fun r => h.not_mem_of_loose (.inl hidx) r
  case hloose =>
    intro j hj
    have hji : j ≠ idx := by
      rintro rfl
      simp [Loose, hnode, hne] at hj
    rw [Loose, withChild_nodes_of_ne hji] at hj
    rw [withChild_nodes_of_ne hji]
    exact h.loose j hj
  case hmem =>
    intro j hj r
    by_cases hr : r = p
    · subst hr
      simp [hj]
    · rw [Function.update_of_ne hr]
  case hidx =>
    intro r
    by_cases hr : r = p
    · subst hr
      simp
    · simp [hr, h.not_mem_of_loose (.inl hidx) r]
  case hup => exact ⟨up, hup, fun hmem => ne_of_used_of_free (h.dir_of_mem_up hup hp idx hmem).1 hidx rfl⟩
  case hdir =>
    rw [hnil]
    simp
  case hsize =>
    rw [hnode]
    exact Nat.zero_le _
  case hnew =>
    intro j hj _
    rw [hnode]
    exact hnew j hj
  all_goals first | exact hne | exact hp | rw [hnode]
  exact hname

end WithChild

theorem Shape.not_mem_of_findChild (h : Shape s kids) (hfind : (findChild p name s).1 = .ok none) :
    ∀ j ∈ kids p, (s.nodes j).name ≠ name := by
  rw [h.findChild_apply] at hfind
  intro j hj
  simpa using List.find?_eq_none.1 (Outcome.ok.inj hfind) j hj

/-- A node is added only to a directory that has no child of its name. -/
theorem Shape.addChild_adds (h : Shape s kids) (p : Slot) (name : Name) (isDir : Bool) : Ends (addChild p name isDir) s
      (fun idx s' => ((s.nodes p).used = true ∧ (s.nodes p).isDir = true) ∧ idx ≠ 0 ∧ (s.nodes idx).used = false ∧
        (findChild p name s).1 = .ok none ∧ s' = s.withChild p idx name isDir) (· = s) := by
  refine Ends.gets_bind ?_
  refine Ends.require_bind (fun hp => ?_) fun _ => rfl
  refine Ends.require_bind (fun _ => ?_) fun _ => rfl
  refine Ends.require_bind (fun _ => ?_) fun _ => rfl
  refine Ends.require_bind (fun _ => ?_) fun _ => rfl
  have hfind := h.findChild_apply p name
  rw [Ends, bind_ok hfind]
  refine Ends.require_bind (fun hnone => ?_) fun _ => rfl
  refine (allocNode_ends s).bind ?_
  rintro idx _ ⟨hne, hidx, rfl⟩
  refine .inl ⟨idx, s.withChild p idx name isDir, ?_, hp, hne, hidx, ?_, rfl⟩
  · rw [Fs.withChild, ← update_of_ne (ne_of_used_of_free hp.1 hidx) (f := Node.fresh)]
    rfl
  · rw [hfind, hnone]

/-- A change of another node keeps the working directory. -/
theorem WellFormed.of_sameBut (h : WellFormed s) (hsame : SameBut idx s s') (hcwd : s'.cwdNode = s.cwdNode)
    (hne : s.cwdNode ≠ idx) (hshape : Shape s' kids') : WellFormed s' := by
  refine ⟨⟨kids', hshape⟩, ?_, ?_⟩
  · rw [hcwd, hsame.used _ hne]
    exact h.cwd_used
  · rw [hcwd, hsame.isDir _ hne]
    exact h.cwd_isDir

theorem addChild_ends (h : WellFormed s) (p : Slot) {name : Name} (hname : ValidName name) (isDir : Bool) :
    Ends (addChild p name isDir) s (fun _ => WellFormed) (· = s) := by
  obtain ⟨kids, hshape⟩ := h.shape
  apply (hshape.addChild_adds p name isDir).mono
  · rintro idx _ ⟨hp, hne, hidx, hnone, rfl⟩
    exact h.of_sameBut sameBut_withChild rfl (ne_of_used_of_free h.cwd_used hidx)
      (hshape.withChild hp hne hidx hname (hshape.not_mem_of_findChild hnone))
  · exact fun _ hs => hs

theorem mkdir_ends (h : WellFormed s) (path : Option Path) : Ends (mkdir path) s (fun _ => WellFormed) (· = s) := by
  refine (h.splitParentAndName_reads path).bind_ends (fun r hr => ?_) rfl
  exact (addChild_ends h r.1 hr.2 true).bind fun _ _ hs => Ends.pure hs

theorem touch_ends (h : WellFormed s) (path : Option Path) : Ends (touch path) s (fun _ => WellFormed) (· = s) := by
  refine (h.splitParentAndName_reads path).bind_ends (fun r hr => ?_) rfl
  refine (addChild_ends h r.1 hr.2 false).attempt_bind (fun _ _ hs => Ends.pure hs) ?_
  rintro _ rfl
  obtain ⟨kids, hshape⟩ := h.shape
  refine (hshape.findChild_reads r.1 r.2).bind_ends (fun o _ => ?_) rfl
  exact Ends.ofOption_bind (fun n _ => Ends.gets_bind (Ends.require (fun _ => h) fun _ => rfl))
    fun _ => rfl

/-! ### Taking a node off its list -/

/-- The state after `unlink_node_from_parent` went past `idx`, from the member
before it or else from the head. -/
def Fs.unlinked (s : Fs) (parent : Slot) (prev : Option Slot) (idx : Slot) : Fs :=
  match prev with
  | none => s.update parent fun n => { n with firstChild := (s.nodes idx).nextSibling }
  | some b => s.update b fun n => { n with nextSibling := (s.nodes idx).nextSibling }

section Unlinked

variable {prev : Option Slot} {l₁ l₂ : List Slot}

theorem unlinked_nodes (j : Slot) : (s.unlinked p prev idx).nodes j = { s.nodes j with
      firstChild := ((s.unlinked p prev idx).nodes j).firstChild
      nextSibling := ((s.unlinked p prev idx).nodes j).nextSibling } := by
  cases prev with
  | none =>
    rcases eq_or_ne j p with rfl | hj
    · simp [Fs.unlinked]
    · simp [Fs.unlinked, update_of_ne hj]
  | some b =>
    rcases eq_or_ne j b with rfl | hj
    · simp [Fs.unlinked]
    · simp [Fs.unlinked, update_of_ne hj]

@[simp] theorem unlinked_cwdNode : (s.unlinked p prev idx).cwdNode = s.cwdNode := by
  cases prev <;> rfl

theorem links_unlinked : (s.unlinked p prev idx).links = s.links.unlink p prev idx := by
  cases prev with
  | none =>
    rw [Fs.unlinked, links_update]
    exact Links.ext rfl (Function.update_eq_self ..)
  | some b =>
    rw [Fs.unlinked, links_update]
    exact Links.ext (Function.update_eq_self ..) rfl

theorem unlinkLoop_apply {o : Option Slot} {fuel : ℕ} (hchain : IsChain s.links.next o (l₁ ++ idx :: l₂))
    (hlen : (l₁ ++ idx :: l₂).length ≤ fuel) :
    unlinkLoop idx p fuel prev o s = (.ok (), s.unlinked p (l₁.getLast?.or prev) idx) := by
  have hnodup := hchain.nodup
  induction l₁ generalizing o prev fuel with
  | nil =>
    obtain ⟨rfl, hchain⟩ := hchain
    cases fuel with
    | zero => simp at hlen
    | succ fuel =>
      rw [unlinkLoop, bind_ok (gets_apply _ s), if_pos rfl]
      cases prev <;> rfl
  | cons c l₁ ih =>
    obtain ⟨rfl, hchain⟩ := hchain
    rw [List.cons_append, List.nodup_cons] at hnodup
    have hc : c ≠ idx := by
      rintro rfl
      exact hnodup.1 (by simp)
    cases fuel with
    | zero => simp at hlen
    | succ fuel =>
      rw [unlinkLoop, bind_ok (gets_apply _ s), if_neg hc]
      refine (ih hchain (Nat.le_of_succ_le_succ hlen) hnodup.2).trans ?_
      cases l₁ with
      | nil => rfl
      | cons d l₁ => simp [List.getLast?_cons]

end Unlinked

section Cut

variable {l₁ l₂ : List Slot}

/-- The links of the nodes that are on no list stay. -/
theorem unlinked_nextSibling (hl : kids p = l₁ ++ i :: l₂) {j : Slot} (hj : j ∉ kids p) :
    ((s.unlinked p l₁.getLast? i).nodes j).nextSibling = (s.nodes j).nextSibling := by
  cases hlast : l₁.getLast? with
  | none =>
    rcases eq_or_ne j p with rfl | hne
    · simp [Fs.unlinked]
    · rw [Fs.unlinked, update_of_ne hne]
  | some b =>
    have hb : b ∈ kids p := by
      rw [hl]
      exact List.mem_append_left _ (List.mem_of_getLast? hlast)
    have hne : j ≠ b := by
      rintro rfl
      exact hj hb
    rw [Fs.unlinked, update_of_ne hne]

variable (h : Shape s kids) (hl : kids p = l₁ ++ i :: l₂)

include h hl

theorem Shape.chains_unlinked : (s.unlinked p l₁.getLast? i).links.Lists (Function.update kids p (l₁ ++ l₂)) := by
  rw [links_unlinked]
  exact h.chains.unlink hl fun b hb r hr => h.not_mem_of_ne hb hr

theorem Shape.mem_unlinked (j r : Slot) : j ∈ Function.update kids p (l₁ ++ l₂) r ↔ j ≠ i ∧ j ∈ kids r := by
  have hnodup := h.nodup p
  rw [hl] at hnodup
  have hi : i ∈ kids p := by simp [hl]
  by_cases hr : r = p
  · subst hr
    rw [Function.update_self, hl]
    simp only [List.nodup_middle, List.nodup_cons] at hnodup
    constructor
    · intro hj
      refine ⟨?_, ?_⟩
      · rintro rfl
        exact hnodup.1 hj
      · simp only [List.mem_append, List.mem_cons] at hj ⊢
        tauto
    · rintro ⟨hne, hj⟩
      simp only [List.mem_append, List.mem_cons] at hj ⊢
      tauto
  · rw [Function.update_of_ne hr]
    constructor
    · intro hj
      refine ⟨?_, hj⟩
      rintro rfl
      exact h.not_mem_of_ne hi hr hj
    · exact And.right

end Cut

/-- A used node other than the root is on the list of its parent, and is taken off it. -/
theorem Shape.unlinkNodeFromParent_apply (h : Shape s kids) (hi : (s.nodes i).used = true) (hne : i ≠ 0) :
    ∃ p l₁ l₂, kids p = l₁ ++ i :: l₂ ∧
      unlinkNodeFromParent i s = (.ok (), s.unlinked p l₁.getLast? i) := by
  obtain ⟨p, hp⟩ := h.parent i hne hi
  obtain ⟨l₁, l₂, hl⟩ := List.append_of_mem ((h.mem_iff i p).2 ⟨hne, hi, hp⟩)
  have hchain := h.chains p
  refine ⟨p, l₁, l₂, hl, ?_⟩
  rw [unlinkNodeFromParent, bind_ok (gets_apply _ s), require_pos ⟨hne, hi⟩, pure_bind_eq, hp,
    ofOption_some, pure_bind_eq, bind_ok (gets_apply _ s)]
  rw [hl] at hchain
  refine (unlinkLoop_apply hchain (length_le_maxNodes hchain)).trans ?_
  rw [Option.or_none]

/-! ### Removing a node -/

/-- The nodes of a list that lost one of them, and of the removed node itself. -/
theorem Shape.removed {l₁ l₂ : List Slot} (h : Shape s kids) (hl : kids p = l₁ ++ i :: l₂) (hnil : kids i = []) :
    Shape ((s.unlinked p l₁.getLast? i).update i Node.freed) (Function.update kids p (l₁ ++ l₂)) := by
  have hi : i ∈ kids p := by simp [hl]
  have hne : i ≠ 0 := ((h.mem_iff i p).1 hi).1
  have hnodes : ∀ j ≠ i, ((s.unlinked p l₁.getLast? i).update i Node.freed).nodes j =
      (s.unlinked p l₁.getLast? i).nodes j := fun j hj => update_of_ne hj
  have hmem := h.mem_unlinked hl
  have hchain := h.chains_unlinked hl
  have hnil' : Function.update kids p (l₁ ++ l₂) i = [] := by
    refine List.eq_nil_iff_forall_not_mem.2 fun j hj => ?_
    have hj' := ((hmem j i).1 hj).2
    rw [hnil] at hj'
    simp at hj'
  have hfirst : ((s.unlinked p l₁.getLast? i).nodes i).firstChild = none := by
    have hchain' := hchain i
    rwa [hnil', IsChain.nil_iff] at hchain'
  have hsame : SameBut i s ((s.unlinked p l₁.getLast? i).update i Node.freed) := by
    constructor <;> intro j hj <;> rw [hnodes j hj, unlinked_nodes]
  apply h.remove hsame
  case hchains =>
    refine hchain.of_next ?_ ?_
    · rw [links_update]
      exact Function.update_eq_iff.2 ⟨hfirst.symm, fun _ _ => rfl⟩
    · intro r j hj
      rw [links_update]
      exact Function.update_of_ne ((hmem j r).1 hj).1 _ _
  case hloose =>
    intro j hj
    rcases eq_or_ne j i with rfl | hji
    · rw [update_self]
      rfl
    · rw [Loose, hnodes j hji, unlinked_nodes] at hj
      rw [hnodes j hji, unlinked_nextSibling hl (h.not_mem_of_loose hj p)]
      exact h.loose j hj
  case hmem => exact hmem
  case hup =>
    funext j
    rcases eq_or_ne j i with rfl | hji
    · rw [Fs.up, update_self, unlinked_nodes]
      rfl
    · rw [Fs.up, hnodes j hji, unlinked_nodes]
      rfl
  case hsize =>
    rw [update_self]
    exact Nat.zero_le _
  case hused =>
    rw [update_self]
    rfl
  case hempty => exact hnil
  case hne => exact hne

/-- A removal fails and changes nothing, or keeps the tree where it is not of the working directory. -/
theorem rm_ends (h : WellFormed s) (path : Option Path) : Ends (rm path) s
      (fun _ s' => (∀ idx, resolvePath path s = (.ok idx, s) → idx = s.cwdNode → idx = 0 ∨ (s.nodes idx).firstChild ≠ none) →
        WellFormed s')
      (· = s) := by
  rw [rm]
  rcases h.resolvePath_reads path with ⟨idx, _, hres, rfl, hused⟩ | ⟨_, hres, rfl⟩
  swap
  · exact .inr ⟨_, bind_fail hres, rfl⟩
  rename_i s
  obtain ⟨kids, hshape⟩ := h.shape
  rw [Ends, bind_ok hres]
  refine Ends.require_bind (fun hne => Ends.gets_bind ?_) fun _ => rfl
  refine Ends.require_bind (fun hempty => ?_) fun _ => rfl
  obtain ⟨p, l₁, l₂, hl, hunlink⟩ := hshape.unlinkNodeFromParent_apply hused hne
  -- a file owns no list, and a directory is only removed without children
  have hfirst : (s.nodes idx).firstChild = none := by
    by_cases hdir : (s.nodes idx).isDir = true
    · by_contra hfirst
      exact hempty ⟨hdir, hfirst⟩
    · apply hshape.firstChild_eq_none
      exact List.eq_nil_iff_forall_not_mem.2 fun j hj => hdir (hshape.dir j idx hj).2
  have hnil : kids idx = [] := (hshape.chains idx).unique (IsChain.nil_iff.2 hfirst)
  have hshape' := hshape.removed hl hnil
  refine .inl ⟨(), _, bind_ok hunlink, fun hcwd => ?_⟩
  have hne' : s.cwdNode ≠ idx := by
    intro heq
    rcases hcwd idx hres heq.symm with h0 | hchild
    · exact hne h0
    · exact hchild hfirst
  refine ⟨⟨_, hshape'⟩, ?_, ?_⟩
  · rw [update_cwdNode, unlinked_cwdNode, update_of_ne hne', unlinked_nodes]
    exact h.cwd_used
  · rw [update_cwdNode, unlinked_cwdNode, update_of_ne hne', unlinked_nodes]
    exact h.cwd_isDir

/-! ### Moving a node -/

theorem notBelowLoop_reads {src : Slot} {o : Option Slot} {l : List Slot} {fuel : ℕ} (hl : IsChain s.up o l)
    (hlen : l.length ≤ fuel) : Reads (notBelowLoop src fuel o) s fun _ => src ∉ l := by
  induction l generalizing o fuel with
  | nil =>
    obtain rfl := IsChain.nil_iff.1 hl
    cases fuel <;> exact Reads.pure (by simp)
  | cons p l ih =>
    obtain ⟨rfl, hl⟩ := hl
    cases fuel with
    | zero => simp at hlen
    | succ fuel =>
      refine Reads.require_bind fun hp => Reads.gets_bind ?_
      refine (ih hl (Nat.le_of_succ_le_succ hlen)).mono (fun _ _ hq => ⟨hq.1, ?_⟩) fun _ hs => hs
      simp [hq.2, Ne.symm hp]

/-- A node that passed the check is not on the way up from its new parent: a file is
on no way up. -/
theorem Shape.requireNotBelow_reads (h : Shape s kids) {src dst : Slot}
    (hdst : (s.nodes dst).used = true ∧ (s.nodes dst).isDir = true) :
    Reads (requireNotBelow src dst) s fun _ => ∃ l, IsChain s.up (some dst) l ∧ src ∉ l := by
  obtain ⟨l, hl⟩ := h.ascends dst hdst.1
  refine Reads.gets_bind ?_
  split_ifs with hdir
  · refine (notBelowLoop_reads hl (length_le_maxNodes hl)).mono (fun _ _ hq => ⟨hq.1, l, hl, hq.2⟩) fun _ hs => hs
  · exact Reads.pure ⟨l, hl, fun hsrc => hdir (h.dir_of_mem_up hl hdst src hsrc).2⟩

/-- The state after a node that is on no list was put on one, under a new name. -/
def Fs.moved (s : Fs) (src dst : Slot) (name : Name) : Fs :=
  ((s.update src fun n =>
    { n with parent := some dst, nextSibling := (s.nodes dst).firstChild }).update dst fun n =>
    { n with firstChild := some src }).update src fun n => { n with name := name }

section Moved

variable {src dst : Slot} {name : Name}

theorem moved_nodes_of_ne {j : Slot} (hj : j ≠ src) : (s.moved src dst name).nodes j =
    { s.nodes j with firstChild := if j = dst then some src else (s.nodes j).firstChild } := by
  rw [Fs.moved, update_of_ne hj]
  rcases eq_or_ne j dst with rfl | hjd
  · rw [update_self, update_of_ne hj, if_pos rfl]
  · rw [update_of_ne hjd, update_of_ne hj, if_neg hjd]

theorem moved_nodes_self (hne : src ≠ dst) : (s.moved src dst name).nodes src =
    { s.nodes src with parent := some dst, nextSibling := (s.nodes dst).firstChild, name := name } := by
  rw [Fs.moved, update_self, update_of_ne hne, update_self]

@[simp] theorem moved_cwdNode : (s.moved src dst name).cwdNode = s.cwdNode := rfl

/-- A move changes no node's kind, not even that of the moved one. -/
theorem moved_kind (s : Fs) (name : Name) (hne : src ≠ dst) (j : Slot) :
    ((s.moved src dst name).nodes j).used = (s.nodes j).used ∧
      ((s.moved src dst name).nodes j).isDir = (s.nodes j).isDir := by
  rcases eq_or_ne j src with rfl | hj
  · rw [moved_nodes_self hne]
    exact ⟨rfl, rfl⟩
  · rw [moved_nodes_of_ne hj]
    exact ⟨rfl, rfl⟩

theorem links_moved (hne : src ≠ dst) : (s.moved src dst name).links = s.links.push dst src := by
  ext j : 2 <;> rcases eq_or_ne j src with rfl | hj
  · simp [Fs.links, Links.push, moved_nodes_self hne, Function.update_of_ne hne]
  · rcases eq_or_ne j dst with rfl | hjd
    · simp [Fs.links, Links.push, moved_nodes_of_ne hj]
    · simp [Fs.links, Links.push, moved_nodes_of_ne hj, hjd]
  · simp [Fs.links, Links.push, moved_nodes_self hne]
  · simp [Fs.links, Links.push, moved_nodes_of_ne hj, Function.update_of_ne hj]

theorem sameBut_moved {prev : Option Slot} : SameBut src s ((s.unlinked p prev src).moved src dst name) := by
  constructor <;> intro j hj <;> rw [moved_nodes_of_ne hj, unlinked_nodes]

theorem Shape.moved {l₁ l₂ : List Slot} (h : Shape s kids) (hl : kids p = l₁ ++ src :: l₂)
    (hdst : (s.nodes dst).used = true ∧ (s.nodes dst).isDir = true)
    (hup : ∃ l, IsChain s.up (some dst) l ∧ src ∉ l) (hname : ValidName name)
    (hnew : ∀ j ∈ kids dst, (s.nodes j).name ≠ name) :
    ∃ kids', Shape ((s.unlinked p l₁.getLast? src).moved src dst name) kids' := by
  have hsrc := (h.mem_iff src p).1 (show src ∈ kids p by simp [hl])
  have hne : src ≠ dst := by
    rintro rfl
    obtain ⟨l, hup, hnot⟩ := hup
    exact hnot hup.head_mem
  have hmem := h.mem_unlinked hl
  have hoff : ∀ r, src ∉ Function.update kids p (l₁ ++ l₂) r := fun r hr => ((hmem src r).1 hr).1 rfl
  have hself : ((s.unlinked p l₁.getLast? src).moved src dst name).nodes src = _ := moved_nodes_self hne
  rw [unlinked_nodes src] at hself
  refine ⟨Function.update (Function.update kids p (l₁ ++ l₂)) dst
    (src :: Function.update kids p (l₁ ++ l₂) dst), ?_⟩
  apply h.place (q := dst) (sameBut_moved : SameBut src s _)
  case hchains =>
    rw [links_moved hne]
    exact (h.chains_unlinked hl).push hoff
  case hloose =>
    intro j hj
    have hjs : j ≠ src := by
      rintro rfl
      rw [Loose, hself] at hj
      simp [hsrc.1, hsrc.2.1] at hj
    rw [Loose, moved_nodes_of_ne hjs, unlinked_nodes] at hj
    rw [moved_nodes_of_ne hjs]
    exact (unlinked_nextSibling hl (h.not_mem_of_loose hj p)).trans (h.loose j hj)
  case hmem =>
    intro j hj r
    rcases eq_or_ne r dst with rfl | hr
    · rw [Function.update_self, List.mem_cons, hmem]
      simp [hj]
    · rw [Function.update_of_ne hr, hmem]
      simp [hj]
  case hidx =>
    intro r
    rcases eq_or_ne r dst with rfl | hr
    · simp
    · rw [Function.update_of_ne hr]
      simp [hoff r, hr]
  case hdir =>
    intro j hj
    rw [hself]
    exact (h.dir j src hj).2
  case hnew =>
    intro j hj _
    rw [hself]
    exact hnew j hj
  all_goals first | exact hsrc.1 | exact hdst | exact hup | rw [hself]
  · exact hsrc.2.1
  · exact hname
  · exact h.sizes src

end Moved

theorem mv_ends (h : WellFormed s) (src dst : Option Path) : Ends (mv src dst) s (fun _ => WellFormed) (· = s) := by
  refine (h.resolvePath_reads src).bind_ends (fun i hi => ?_) rfl
  refine Ends.require_bind (fun hne => ?_) fun _ => rfl
  refine (h.splitParentAndName_reads dst).bind_ends ?_ rfl
  rintro ⟨d, name⟩ ⟨hd, hname⟩
  obtain ⟨kids, hshape⟩ := h.shape
  refine Ends.gets_bind (Ends.require_bind (fun _ => ?_) fun _ => rfl)
  refine (hshape.findChild_reads d name).bind_ends (fun o hnew => ?_) rfl
  refine Ends.require_bind (fun hnone => ?_) fun _ => rfl
  subst hnone
  refine (hshape.requireNotBelow_reads hd).bind_ends (fun _ hup => ?_) rfl
  obtain ⟨p, l₁, l₂, hl, hunlink⟩ := hshape.unlinkNodeFromParent_apply hi hne
  rw [Ends, bind_ok hunlink]
  have hid : i ≠ d := by
    rintro rfl
    obtain ⟨l, hup, hnot⟩ := hup
    exact hnot hup.head_mem
  have hcwd := moved_kind (s.unlinked p l₁.getLast? i) name hid s.cwdNode
  rw [unlinked_nodes] at hcwd
  refine .inl ⟨(), (s.unlinked p l₁.getLast? i).moved i d name, rfl, hshape.moved hl hd hup hname hnew, ?_, ?_⟩
  · rw [moved_cwdNode, unlinked_cwdNode, hcwd.1]
    exact h.cwd_used
  · rw [moved_cwdNode, unlinked_cwdNode, hcwd.2]
    exact h.cwd_isDir

/-! ### Data and the working directory -/

theorem cappedSize_le (n : ℕ) : cappedSize n ≤ FS_MAX_FILE_SIZE - 1 := by
  unfold cappedSize FS_MAX_FILE_SIZE
  split_ifs <;> omega

section

variable (h : WellFormed s)
include h

/-- New data in a node is no change of the tree. -/
theorem WellFormed.setData (idx : Slot) (store : FileData → FileData) {n : ℕ} (hn : n ≤ FS_MAX_FILE_SIZE - 1) :
    WellFormed (s.update idx fun node => { node with data := store node.data, size := n }) := by
  obtain ⟨⟨kids, hshape⟩, hused, hdir⟩ := h
  have hsame : ∀ j, (s.update idx fun node => { node with data := store node.data, size := n }).nodes j =
      { s.nodes j with
        data := if j = idx then store (s.nodes j).data else (s.nodes j).data
        size := if j = idx then n else (s.nodes j).size } := by
    intro j
    rcases eq_or_ne j idx with rfl | hj
    · simp
    · simp [update_of_ne hj, hj]
  have hlinks : (s.update idx fun node => { node with data := store node.data, size := n }).links = s.links := by
    ext j : 2 <;> simp only [Fs.links, hsame]
  have hup : (s.update idx fun node => { node with data := store node.data, size := n }).up = s.up := by
    funext j
    simp only [Fs.up, hsame]
  refine ⟨⟨kids, ?_⟩, ?_, ?_⟩
  · constructor
    case chains =>
      rw [hlinks]
      exact hshape.chains
    case ascends =>
      rw [hup]
      simpa only [hsame] using hshape.ascends
    case sizes =>
      intro j
      rw [hsame]
      show (if j = idx then n else (s.nodes j).size) ≤ _
      split_ifs
      · exact hn
      · exact hshape.sizes j
    all_goals simp only [hsame]
    · exact hshape.mem_iff
    · exact hshape.dir
    · exact hshape.root
    · exact hshape.parent
    · exact fun i hi => hshape.loose i (by simpa only [Loose, hsame] using hi)
    · exact hshape.names_inj
    · exact hshape.names
  · rw [update_cwdNode, hsame]
    exact hused
  · rw [update_cwdNode, hsame]
    exact hdir

theorem resolveOrTouch_ends (path : Option Path) : Ends (resolveOrTouch path) s (fun _ => WellFormed) WellFormed := by
  refine Ends.attempt_bind (h.resolvePath_reads path) (fun _ _ hq => Ends.pure (hq.1 ▸ h)) ?_
  rintro _ rfl
  refine ((touch_ends h path).mono (fun _ _ hs => hs) fun _ hs => hs ▸ h).bind fun _ s' h' => ?_
  exact (h'.resolvePath_reads path).mono (fun _ _ hq => hq.1 ▸ h') fun _ hs => hs ▸ h'

theorem writeFile_ends (path : Option Path) (data : Option (List UInt8)) (size : ℕ) :
    Ends (writeFile path data size) s (fun _ => WellFormed) WellFormed := by
  refine (resolveOrTouch_ends h path).bind fun idx s' h' => Ends.gets_bind ?_
  refine Ends.require_bind (fun _ => ?_) fun _ => h'
  refine Ends.require_bind (fun _ => ?_) fun _ => h'
  exact Ends.modify (h'.setData idx (fun old => storeData old (data.getD []) (cappedSize size)) (cappedSize_le size))

theorem cd_ends (path : Option Path) : Ends (cd path) s (fun _ => WellFormed) (· = s) := by
  refine (h.resolvePath_reads path).bind_ends (fun idx hidx => Ends.gets_bind ?_) rfl
  refine Ends.require_bind (fun hdir => ?_) fun _ => rfl
  obtain ⟨kids, hshape⟩ := h.shape
  refine Ends.modify ⟨⟨kids, ?_⟩, hidx, hdir⟩
  obtain ⟨hchains, hmem, hkids, hroot, hparent, hascends, hloose, hinj, hnames, hsizes⟩ := hshape
  exact ⟨hchains, hmem, hkids, hroot, hparent, hascends, hloose, hinj, hnames, hsizes⟩

theorem cp_ends (src dst : Option Path) : Ends (cp src dst) s (fun _ => WellFormed) WellFormed := by
  refine (h.resolvePath_reads src).bind_ends (fun idx _ => Ends.gets_bind ?_) h
  exact Ends.require_bind (fun _ => writeFile_ends h dst _ _) fun _ => h

end

/-! ### Runs -/

/-- The step does not remove the working directory: a removal whose path leads
there finds the root or a directory with children, and fails. -/
def KeepsCwd (s : Fs) : Op → Prop
  | .rm path => ∀ idx, resolvePath path s = (.ok idx, s) → idx = s.cwdNode →
      idx = 0 ∨ (s.nodes idx).firstChild ≠ none
  | _ => True

/-- One step keeps the tree. -/
theorem run_ends (h : WellFormed s) (op : Op) (hcwd : KeepsCwd s op) :
    Ends op.run s (fun _ => WellFormed) WellFormed := by
  cases op with
  | mkdir path => exact (mkdir_ends h path).mono (fun _ _ hs => hs) fun _ hs => hs ▸ h
  | touch path => exact (touch_ends h path).mono (fun _ _ hs => hs) fun _ hs => hs ▸ h
  | writeFile path data size => exact writeFile_ends h path data size
  | rm path => exact (rm_ends h path).mono (fun _ _ hs => hs hcwd) fun _ hs => hs ▸ h
  | cd path => exact (cd_ends h path).mono (fun _ _ hs => hs) fun _ hs => hs ▸ h
  | cp src dst => exact cp_ends h src dst
  | mv src dst => exact (mv_ends h src dst).mono (fun _ _ hs => hs) fun _ hs => hs ▸ h

end Tg11Kernel.Ramfs
