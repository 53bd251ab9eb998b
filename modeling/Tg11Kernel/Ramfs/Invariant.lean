import Tg11Kernel.Ramfs.Builtin
import Tg11Kernel.Lib.Rooted

/-! The shape of the tree. A state is well formed when its links spell out the
child lists that the `parent` fields describe, and every walk upwards ends. The
walks along links then end and find what the lists say, and every operation
leaves a well-formed state behind. Only removing the working directory takes
away the node that relative paths start from. -/

namespace Tg11Kernel.Ramfs

open Lib Exec

/-- The child lists of a state: owners and members are slots. -/
def Fs.links (s : Fs) : Links Slot Slot where
  first p := (s.nodes p).firstChild
  next i := (s.nodes i).nextSibling

/-- The way up. -/
def Fs.up (s : Fs) (i : Slot) : Option Slot := (s.nodes i).parent

structure ValidName (name : Name) : Prop where
  ne_nil : name ≠ []
  no_slash : 47 ∉ name
  ne_dot : name ≠ dot
  ne_dotDot : name ≠ dotDot
  length_le : name.length ≤ FS_NAME_MAX

/-- The root and the free nodes are on no list. -/
def Loose (s : Fs) (i : Slot) : Prop := (s.nodes i).used = false ∨ i = 0

/-- The child lists of the used nodes, as the `parent` fields describe them. -/
structure Shape (s : Fs) (kids : Slot → List Slot) : Prop where
  chains : s.links.Lists kids
  mem_iff : ∀ i p, i ∈ kids p ↔ i ≠ 0 ∧ (s.nodes i).used = true ∧ (s.nodes i).parent = some p
  dir : ∀ i p, i ∈ kids p → (s.nodes p).used = true ∧ (s.nodes p).isDir = true
  root : (s.nodes 0).used = true ∧ (s.nodes 0).isDir = true ∧ (s.nodes 0).parent = none
  parent : ∀ i ≠ 0, (s.nodes i).used = true → ∃ p, (s.nodes i).parent = some p
  ascends : ∀ i, (s.nodes i).used = true → ∃ l, IsChain s.up (some i) l
  loose : ∀ i, Loose s i → (s.nodes i).nextSibling = none
  names_inj : ∀ p, ∀ i ∈ kids p, ∀ j ∈ kids p, (s.nodes i).name = (s.nodes j).name → i = j
  names : ∀ i ≠ 0, (s.nodes i).used = true → ValidName (s.nodes i).name
  sizes : ∀ i, (s.nodes i).size ≤ FS_MAX_FILE_SIZE - 1

/-- The tree and the node that relative paths start from. -/
structure WellFormed (s : Fs) : Prop where
  shape : ∃ kids, Shape s kids
  cwd_used : (s.nodes s.cwdNode).used = true
  cwd_isDir : (s.nodes s.cwdNode).isDir = true

variable {s : Fs} {kids : Slot → List Slot} {p i : Slot} {name : Name}

/-! ### Walks along links -/

theorem length_le_maxNodes {next : Slot → Option Slot} {o : Option Slot} {l : List Slot} (h : IsChain next o l) :
    l.length ≤ FS_MAX_NODES := by
  simpa only [Fintype.card_fin] using h.length_le

theorem findChildLoop_apply {fuel : ℕ} {o : Option Slot} {l : List Slot} (h : IsChain s.links.next o l)
    (hl : l.length ≤ fuel) :
    findChildLoop name fuel o s = (.ok (l.find? fun i => (s.nodes i).name = name), s) := by
  induction l generalizing o fuel with
  | nil =>
    obtain rfl := IsChain.nil_iff.1 h
    cases fuel <;> rfl
  | cons i l ih =>
    obtain ⟨rfl, h⟩ := h
    cases fuel with
    | zero => simp at hl
    | succ fuel =>
      rw [findChildLoop, bind_ok (gets_apply _ s), List.find?_cons]
      by_cases hname : (s.nodes i).name = name
      · simp [hname]
      · simp only [hname, if_false, decide_false]
        exact ih h (Nat.le_of_succ_le_succ hl)

namespace Shape

variable (h : Shape s kids)

include h

theorem findChild_apply (p : Slot) (name : Name) :
    findChild p name s = (.ok ((kids p).find? fun i => (s.nodes i).name = name), s) :=
  findChildLoop_apply (h.chains p) (length_le_maxNodes (h.chains p))

theorem used_of_mem (hi : i ∈ kids p) : (s.nodes i).used = true := ((h.mem_iff i p).1 hi).2.1

theorem nodup (p : Slot) : (kids p).Nodup := (h.chains p).nodup

theorem not_mem_of_ne {q : Slot} (hi : i ∈ kids p) (hq : q ≠ p) : i ∉ kids q := by
  intro hiq
  have hp := ((h.mem_iff i p).1 hi).2.2
  rw [((h.mem_iff i q).1 hiq).2.2] at hp
  exact hq (Option.some.inj hp)

theorem parent_dir {i p : Slot} (hi : (s.nodes i).used = true) (hp : (s.nodes i).parent = some p) :
    (s.nodes p).used = true ∧ (s.nodes p).isDir = true := by
  have hne : i ≠ 0 := by
    rintro rfl
    rw [h.root.2.2] at hp
    simp at hp
  exact h.dir i p ((h.mem_iff i p).2 ⟨hne, hi, hp⟩)

/-- A lookup gives the child of that name, if there is one. -/
theorem findChild_reads (p : Slot) (name : Name) : Reads (findChild p name) s fun o => match o with
      | some i => i ∈ kids p ∧ (s.nodes i).name = name
      | none => ∀ i ∈ kids p, (s.nodes i).name ≠ name := by
  refine .inl ⟨_, s, h.findChild_apply p name, rfl, ?_⟩
  cases hfind : (kids p).find? fun i => (s.nodes i).name = name with
  | some i =>
    have hname := List.find?_some hfind
    exact ⟨List.mem_of_find?_eq_some hfind, by simpa using hname⟩
  | none =>
    intro i hi
    simpa using List.find?_eq_none.1 hfind i hi

theorem parentOrSelf_reads {cur : Slot} (hcur : (s.nodes cur).used = true) (hdir : (s.nodes cur).isDir = true) :
    Reads (parentOrSelf cur) s fun n => (s.nodes n).used = true ∧ (s.nodes n).isDir = true := by
  refine Reads.gets_bind (Reads.pure ?_)
  cases hp : (s.nodes cur).parent with
  | none => exact ⟨hcur, hdir⟩
  | some p => exact h.parent_dir hcur hp

/-- A walk along a path stays on used nodes. -/
theorem resolveLoop_reads (parts : List Name) {cur : Slot} (hcur : (s.nodes cur).used = true) :
    Reads (resolveLoop parts cur) s fun n => (s.nodes n).used = true := by
  induction parts generalizing cur with
  | nil => exact Reads.pure hcur
  | cons part rest ih =>
    refine Reads.require_bind fun _ => ?_
    split_ifs
    · exact ih hcur
    · refine Reads.gets_bind (ih ?_)
      cases hp : (s.nodes cur).parent with
      | none => exact hcur
      | some p => exact (h.parent_dir hcur hp).1
    · refine (h.findChild_reads cur part).bind fun o ho => Reads.ofOption_bind fun n hn => ih ?_
      subst hn
      exact h.used_of_mem ho.1

/-- A parent found for a new name is a directory, and the name can be given. -/
theorem splitLoop_reads (parts : List Name) (hparts : ∀ part ∈ parts, part ≠ [] ∧ 47 ∉ part) {cur : Slot}
    (hcur : (s.nodes cur).used = true ∧ (s.nodes cur).isDir = true) :
    Reads (splitLoop parts cur) s fun r =>
      ((s.nodes r.1).used = true ∧ (s.nodes r.1).isDir = true) ∧ ValidName r.2 := by
  induction parts generalizing cur with
  | nil => exact Reads.fail
  | cons part rest ih =>
    have ih := @ih fun part hpart => hparts part (by simp [hpart])
    refine Reads.require_bind fun hlen => ?_
    split_ifs
    · refine Reads.require_bind fun hdots => Reads.pure ⟨hcur, ?_⟩
      obtain ⟨hne, hslash⟩ := hparts part (by simp)
      exact ⟨hne, hslash, hdots.1, hdots.2, hlen⟩
    · exact ih hcur
    · exact (h.parentOrSelf_reads hcur.1 hcur.2).bind fun up hup => ih hup
    · refine (h.findChild_reads cur part).bind fun o ho => Reads.ofOption_bind fun n hn => ?_
      subst hn
      exact Reads.gets_bind (Reads.require_bind fun hdir => ih ⟨h.used_of_mem ho.1, hdir⟩)

end Shape

/-! ### Paths -/

theorem componentsLoop_spec (path : Path) (part : Name) (hpart : 47 ∉ part) :
    ∀ c ∈ componentsLoop path part, c ≠ [] ∧ 47 ∉ c := by
  induction path generalizing part with
  | nil =>
    intro c hc
    rw [componentsLoop] at hc
    split_ifs at hc with hnil
    · simp at hc
    · rw [List.mem_singleton.1 hc]
      exact ⟨hnil, hpart⟩
  | cons ch path ih =>
    intro c hc
    rw [componentsLoop] at hc
    split_ifs at hc with hslash hnil
    · exact ih [] (by simp) c hc
    · rcases List.mem_cons.1 hc with rfl | hc
      · exact ⟨hnil, hpart⟩
      · exact ih [] (by simp) c hc
    · exact ih (part ++ [ch]) (by simp [hpart, Ne.symm hslash]) c hc

theorem components_spec (path : Path) : ∀ c ∈ components path, c ≠ [] ∧ 47 ∉ c :=
  componentsLoop_spec path [] (by simp)

namespace WellFormed

variable (h : WellFormed s)

include h

theorem startNode_reads (path : Path) :
    Reads (startNode path) s fun n => (s.nodes n).used = true ∧ (s.nodes n).isDir = true := by
  obtain ⟨kids, hshape⟩ := h.shape
  unfold startNode
  split_ifs
  · exact Reads.pure ⟨hshape.root.1, hshape.root.2.1⟩
  · exact Reads.gets ⟨h.cwd_used, h.cwd_isDir⟩

/-- A path that resolves leads to a used node. -/
theorem resolvePath_reads (path : Option Path) : Reads (resolvePath path) s fun n => (s.nodes n).used = true := by
  obtain ⟨kids, hshape⟩ := h.shape
  rcases path with _ | _ | ⟨c, path⟩
  · exact Reads.gets h.cwd_used
  · exact Reads.gets h.cwd_used
  · exact (h.startNode_reads _).bind fun cur hcur => hshape.resolveLoop_reads _ hcur.1

theorem splitParentAndName_reads (path : Option Path) : Reads (splitParentAndName path) s fun r =>
      ((s.nodes r.1).used = true ∧ (s.nodes r.1).isDir = true) ∧ ValidName r.2 := by
  obtain ⟨kids, hshape⟩ := h.shape
  rcases path with _ | _ | ⟨c, path⟩
  · exact Reads.fail
  · exact Reads.fail
  · exact (h.startNode_reads _).bind fun cur hcur => hshape.splitLoop_reads _ (components_spec _) hcur

end WellFormed

end Tg11Kernel.Ramfs
