import Tg11Kernel.Ramfs.Contents
import Tg11Kernel.Ramfs.Preservation
import Mathlib.Data.List.Find

/-! New files. A walk is the sequence of nodes that the components of a path lead through,
and it stays what it was when a node is added to a tree; the path that a file was made for
leads to it. -/

namespace Tg11Kernel.Ramfs

open Lib Exec

variable {s s' : Fs} {kids : Slot → List Slot} {p idx cur n : Slot} {name : Name}

/-! ### Walks -/

theorem findChild_state (p : Slot) (name : Name) (s : Fs) : (findChild p name s).2 = s :=
  ((SameFrame.refl s).findChild p name s s ⟨rfl, rfl⟩).1.1

/-- The components of a path lead from one node to another. -/
inductive Goes (s : Fs) : Slot → List Name → Slot → Prop
  | nil (cur : Slot) : Goes s cur [] cur
  | dot {cur n : Slot} {rest : List Name} (h : Goes s cur rest n) : Goes s cur (Ramfs.dot :: rest) n
  | up {cur n : Slot} {rest : List Name} (h : Goes s ((s.nodes cur).parent.getD cur) rest n) : Goes s cur (dotDot :: rest) n
  | down {cur c n : Slot} {part : Name} {rest : List Name} (hdot : part ≠ Ramfs.dot) (hdots : part ≠ dotDot)
      (hlen : part.length ≤ FS_NAME_MAX) (hc : (findChild cur part s).1 = .ok (some c)) (h : Goes s c rest n) :
      Goes s cur (part :: rest) n

theorem goes_iff {parts : List Name} : Goes s cur parts n ↔ resolveLoop parts cur s = (.ok n, s) := by
  constructor
  · intro h
    induction h with
    | nil => rfl
    | dot _ ih =>
      rw [resolveLoop, require_pos (by decide), pure_bind_eq, if_pos rfl]
      exact ih
    | up _ ih =>
      rw [resolveLoop, require_pos (by decide), pure_bind_eq, if_neg (by decide), if_pos rfl]
      exact ih
    | @down cur c n part rest hdot hdots hlen hc _ ih =>
      rw [resolveLoop, require_pos hlen, pure_bind_eq, if_neg hdot, if_neg hdots, bind_ok (Prod.ext hc (findChild_state cur part s)),
        ofOption_some, pure_bind_eq]
      exact ih
  · intro h
    induction parts generalizing cur with
    | nil =>
      obtain rfl : cur = n := Outcome.ok.inj (Prod.mk.inj h).1
      exact Goes.nil _
    | cons part rest ih =>
      rw [resolveLoop] at h
      obtain ⟨u, t, hreq, h⟩ := bind_ok_iff.1 h
      obtain ⟨hlen, rfl⟩ := require_ok_iff.1 hreq
      by_cases hdot : part = dot
      · rw [if_pos hdot] at h
        exact hdot ▸ Goes.dot (ih h)
      · rw [if_neg hdot] at h
        by_cases hdots : part = dotDot
        · rw [if_pos hdots] at h
          exact hdots ▸ Goes.up (ih h)
        · rw [if_neg hdots] at h
          obtain ⟨child, t', hchild, h⟩ := bind_ok_iff.1 h
          obtain ⟨c, t'', hsome, h⟩ := bind_ok_iff.1 h
          obtain ⟨rfl, rfl⟩ := ofOption_ok_iff.1 hsome
          have hstate := findChild_state cur part t
          rw [hchild] at hstate
          obtain rfl : t'' = t := hstate
          exact Goes.down hdot hdots hlen (congrArg Prod.fst hchild) (ih h)

namespace Goes

theorem unique {parts : List Name} {m : Slot} (h : Goes s cur parts n) (h' : Goes s cur parts m) : n = m :=
  Outcome.ok.inj (Prod.mk.inj ((goes_iff.1 h).symm.trans (goes_iff.1 h'))).1

theorem append {parts rest : List Name} {m : Slot} (h : Goes s cur parts n) (h' : Goes s n rest m) : Goes s cur (parts ++ rest) m := by
  induction h with
  | nil => exact h'
  | dot _ ih => exact Goes.dot (ih h')
  | up _ ih => exact Goes.up (ih h')
  | down hdot hdots hlen hc _ ih => exact Goes.down hdot hdots hlen hc (ih h')

end Goes

/-- The parent that a path is split into is where all components but the last lead. -/
theorem goes_of_splitLoop {parts : List Name} (h : splitLoop parts cur s = (.ok (p, name), s')) :
    s' = s ∧ ∃ init, parts = init ++ [name] ∧ Goes s cur init p ∧ name ≠ dot ∧ name ≠ dotDot ∧ name.length ≤ FS_NAME_MAX := by
  induction parts generalizing cur with
  | nil => simp [splitLoop] at h
  | cons part rest ih =>
    rw [splitLoop] at h
    obtain ⟨_, t, hreq, hrun⟩ := bind_ok_iff.1 h
    obtain ⟨hlen, rfl⟩ := require_ok_iff.1 hreq
    by_cases hrest : rest = []
    · rw [if_pos hrest] at hrun
      obtain ⟨_, t', hreq', hrun'⟩ := bind_ok_iff.1 hrun
      obtain ⟨⟨hdot, hdots⟩, rfl⟩ := require_ok_iff.1 hreq'
      simp only [pure_apply, Prod.mk.injEq, Outcome.ok.injEq] at hrun'
      obtain ⟨⟨rfl, rfl⟩, rfl⟩ := hrun'
      exact ⟨rfl, [], by rw [hrest]; rfl, Goes.nil _, hdot, hdots, hlen⟩
    · rw [if_neg hrest] at hrun
      by_cases hdot : part = dot
      · rw [if_pos hdot] at hrun
        obtain ⟨hs, init, rfl, hgoes, hlast⟩ := ih hrun
        exact ⟨hs, part :: init, rfl, hdot ▸ Goes.dot hgoes, hlast⟩
      · rw [if_neg hdot] at hrun
        by_cases hdots : part = dotDot
        · rw [if_pos hdots] at hrun
          obtain ⟨hs, init, rfl, hgoes, hlast⟩ := ih hrun
          exact ⟨hs, part :: init, rfl, hdots ▸ Goes.up hgoes, hlast⟩
        · rw [if_neg hdots] at hrun
          obtain ⟨child, t₁, hchild, hrun₁⟩ := bind_ok_iff.1 hrun
          obtain ⟨c, t₂, hsome, hrun₂⟩ := bind_ok_iff.1 hrun₁
          obtain ⟨rfl, rfl⟩ := ofOption_ok_iff.1 hsome
          obtain rfl : t₂ = t := by
            have hstate := findChild_state cur part t
            rwa [hchild] at hstate
          obtain ⟨node, t₃, hnode, hrun₃⟩ := bind_ok_iff.1 hrun₂
          obtain ⟨-, rfl⟩ := Prod.mk.inj hnode
          obtain ⟨_, t₄, hreq', hrun₄⟩ := bind_ok_iff.1 hrun₃
          obtain ⟨-, rfl⟩ := require_ok_iff.1 hreq'
          obtain ⟨hs, init, rfl, hgoes, hlast⟩ := ih hrun₄
          exact ⟨hs, part :: init, rfl, Goes.down hdot hdots hlen (congrArg Prod.fst hchild) hgoes, hlast⟩

/-! ### Walks in a tree with a new node -/

section WithChild

variable (h : Shape s kids) (hp : (s.nodes p).used = true ∧ (s.nodes p).isDir = true) (hne : idx ≠ 0)
  (hidx : (s.nodes idx).used = false) (hname : ValidName name) (hnew : ∀ j ∈ kids p, (s.nodes j).name ≠ name) (isDir : Bool)

include h hp hne hidx hname hnew

theorem findChild_withChild (q : Slot) (part : Name) : (findChild q part (s.withChild p idx name isDir)).1 =
      if q = p ∧ part = name then .ok (some idx) else (findChild q part s).1 := by
  have hpi : p ≠ idx := ne_of_used_of_free hp.1 hidx
  have hshape : Shape (s.withChild p idx name isDir) _ := h.withChild hp hne hidx hname hnew
  have hold : ∀ j ∈ kids q, ((s.withChild p idx name isDir).nodes j).name = (s.nodes j).name := by
    intro j hj
    have hji : j ≠ idx := by
      rintro rfl
      exact h.not_mem_of_loose (.inl hidx) q hj
    rw [withChild_nodes_of_ne hji]
  have hfind : (kids q).find? (fun i => ((s.withChild p idx name isDir).nodes i).name = part) =
      (kids q).find? fun i => (s.nodes i).name = part := by
    refine List.find?_congr fun j hj => ?_
    rw [hold j hj]
  have hnode : ((s.withChild p idx name isDir).nodes idx).name = name := by
    simp [Fs.withChild, update_of_ne hpi.symm]
  rw [hshape.findChild_apply, h.findChild_apply]
  dsimp only
  rcases eq_or_ne q p with rfl | hq
  · rw [Function.update_self, List.find?_cons, hnode]
    by_cases hpart : part = name
    · rw [if_pos ⟨rfl, hpart⟩]
      simp [hpart]
    · rw [if_neg fun hand => hpart hand.2, hfind]
      simp [Ne.symm hpart]
  · rw [Function.update_of_ne hq, hfind, if_neg fun hand => hq hand.1]

/-- A walk that ends goes the same way. -/
theorem goes_withChild {parts : List Name} (hcur : (s.nodes cur).used = true) (hgoes : Goes s cur parts n) :
    Goes (s.withChild p idx name isDir) cur parts n := by
  induction hgoes with
  | nil => exact Goes.nil _
  | dot _ ih => exact Goes.dot (ih hcur)
  | @up cur n rest hgoes ih =>
    have hup : ((s.nodes cur).parent.getD cur) = (((s.withChild p idx name isDir).nodes cur).parent.getD cur) := by
      rw [withChild_nodes_of_ne (ne_of_used_of_free hcur hidx)]
    have hused : (s.nodes ((s.nodes cur).parent.getD cur)).used = true := by
      cases hparent : (s.nodes cur).parent with
      | none => exact hcur
      | some q => exact (h.parent_dir hcur hparent).1
    have hrest := ih hused
    rw [hup] at hrest
    exact Goes.up hrest
  | @down cur c n part rest hdot hdots hlen hc hgoes ih =>
    have hchild := hc
    rw [h.findChild_apply] at hchild
    have hmem : c ∈ kids cur := List.mem_of_find?_eq_some (Outcome.ok.inj hchild)
    refine Goes.down hdot hdots hlen ?_ (ih (h.used_of_mem hmem))
    rw [findChild_withChild h hp hne hidx hname hnew, if_neg, hc]
    rintro ⟨rfl, rfl⟩
    have hpass := List.find?_some (Outcome.ok.inj hchild)
    exact hnew c hmem (by simpa using hpass)

end WithChild

/-! ### Paths -/

/-- Where the walk along a path starts. -/
def Fs.start (s : Fs) (path : Path) : Slot := if path.head? = some 47 then 0 else s.cwdNode

theorem startNode_apply (path : Path) (s : Fs) : startNode path s = (.ok (s.start path), s) := by
  unfold startNode Fs.start
  split_ifs <;> rfl

theorem resolvePath_cons (c : UInt8) (path : Path) (s : Fs) :
    resolvePath (some (c :: path)) s = resolveLoop (components (c :: path)) (s.start (c :: path)) s := by
  rw [resolvePath, bind_ok (startNode_apply _ s)]
  simp

theorem splitParentAndName_cons (c : UInt8) (path : Path) (s : Fs) :
    splitParentAndName (some (c :: path)) s = splitLoop (components (c :: path)) (s.start (c :: path)) s := by
  rw [splitParentAndName, bind_ok (startNode_apply _ s)]
  simp

theorem WellFormed.start_used (h : WellFormed s) (path : Path) : (s.nodes (s.start path)).used = true := by
  obtain ⟨kids, hshape⟩ := h.shape
  unfold Fs.start
  split_ifs
  · exact hshape.root.1
  · exact h.cwd_used

/-- A file was made for a path that led nowhere. -/
structure Created (s s' : Fs) (path : Option Path) (idx : Slot) : Prop where
  missing : (resolvePath path s).1 = .fail
  found : resolvePath path s' = (.ok idx, s')
  placed : ∃ p name, ((s.nodes p).used = true ∧ (s.nodes p).isDir = true) ∧ idx ≠ 0 ∧ (s.nodes idx).used = false ∧
    ValidName name ∧ (findChild p name s).1 = .ok none ∧ s' = s.withChild p idx name false

/-- What `fs_write_file` makes of a path: the node there, or a new file. -/
theorem resolveOrTouch_leads (h : WellFormed s) (path : Option Path) : Ends (resolveOrTouch path) s
      (fun idx s' => (s' = s ∧ resolvePath path s = (.ok idx, s)) ∨ (Created s s' path idx ∧ (touch path s).1 = .ok ()))
      (fun s' => s' = s ∧ (touch path s).1 = .fail) := by
  rcases h.resolvePath_reads path with ⟨idx, _, hres, rfl, -⟩ | ⟨_, hres, rfl⟩
  · refine .inl ⟨idx, _, ?_, .inl ⟨rfl, hres⟩⟩
    rw [resolveOrTouch, bind_ok (attempt_ok hres)]
    rfl
  rename_i s
  rw [Ends, resolveOrTouch, bind_ok (attempt_fail hres)]
  dsimp only
  rcases h.splitParentAndName_reads path with ⟨⟨p, name⟩, _, hsplit, rfl, hp, hname⟩ | ⟨_, hsplit, rfl⟩
  swap
  · have htouch : touch path _ = (.fail, _) := bind_fail hsplit
    exact .inr ⟨_, bind_fail htouch, rfl, congrArg Prod.fst htouch⟩
  rename_i s
  rcases path with _ | _ | ⟨c, path⟩
  · simp [resolvePath] at hres
  · simp [resolvePath] at hres
  obtain ⟨-, init, hparts, hgoes, hdot, hdots, hlen⟩ := goes_of_splitLoop ((splitParentAndName_cons c path s).symm.trans hsplit)
  obtain ⟨kids, hshape⟩ := h.shape
  rcases hshape.addChild_adds p name false with ⟨idx, _, hadd, -, hne, hidx, hnone, rfl⟩ | ⟨_, hadd, rfl⟩
  · have htouch : touch (some (c :: path)) s = (.ok (), s.withChild p idx name false) := by
      rw [touch, bind_ok hsplit]
      dsimp only
      rw [bind_ok (attempt_ok hadd)]
      rfl
    have hnew := hshape.not_mem_of_findChild hnone
    have hwalk := goes_withChild hshape hp hne hidx hname hnew false (h.start_used _) hgoes
    have hlast : Goes (s.withChild p idx name false) p [name] idx := by
      refine Goes.down hdot hdots hlen ?_ (Goes.nil idx)
      rw [findChild_withChild hshape hp hne hidx hname hnew, if_pos ⟨rfl, rfl⟩]
    have hfound : resolvePath (some (c :: path)) (s.withChild p idx name false) = (.ok idx, s.withChild p idx name false) := by
      rw [resolvePath_cons, hparts]
      exact goes_iff.1 (hwalk.append hlast)
    refine .inl ⟨idx, s.withChild p idx name false, ?_, .inr ⟨⟨congrArg Prod.fst hres, hfound, p, name, hp, hne, hidx, hname, hnone, rfl⟩, ?_⟩⟩
    · rw [bind_ok htouch]
      exact hfound
    · rw [htouch]
  · rename_i s
    have htouch : touch (some (c :: path)) s = (.fail, s) := by
      rw [touch, bind_ok hsplit]
      dsimp only
      rw [bind_ok (attempt_fail hadd)]
      dsimp only
      rw [bind_ok (hshape.findChild_apply p name)]
      rcases hfind : (kids p).find? fun i => (s.nodes i).name = name with _ | n
      · rfl
      · -- the path would lead to that child
        have hchild : (findChild p name s).1 = .ok (some n) := by rw [hshape.findChild_apply, hfind]
        have hlast : Goes s p [name] n := Goes.down hdot hdots hlen hchild (Goes.nil n)
        have hall := goes_iff.1 (hgoes.append hlast)
        rw [← hparts, ← resolvePath_cons, hres] at hall
        simp at hall
    exact .inr ⟨s, bind_fail htouch, rfl, congrArg Prod.fst htouch⟩

end Tg11Kernel.Ramfs
