import Tg11Kernel.Lib.Fields
import Tg11Kernel.Ramfs.Laws

/-! The two walks along a path. The one that splits off the last component asks at every
component whether it stands on a directory, the one that resolves a path does not ask. They
agree but where a path goes up from a file: the second walk leaves the file for its
directory, the first one fails. -/

namespace Tg11Kernel.Ramfs

open Lib Exec

variable {s : Fs} {kids : Slot → List Slot} {p cur n : Slot} {path : Path} {name last part : Name} {init parts : List Name}

/-! ### Components -/

theorem components_eq (path : Path) : components path = fields (· = 47) path := by
  refine fields_of_loop (fun _ => rfl) (fun c path part => ?_) path [] nofun
  simp only [componentsLoop, decide_eq_true_eq]

/-- The path without its last component. -/
def dirPart (path : Path) : Path := stem (· = 47) path

/-- The path without its last component is walked from the same node. -/
theorem resolvePath_dirPart (h : components path = init ++ [last]) (s : Fs) :
    resolvePath (some (dirPart path)) s = resolveLoop init (s.start path) s := by
  rw [components_eq] at h
  have hinit := fields_stem h
  rcases hstem : dirPart path with _ | ⟨c, rest⟩
  · rw [← dirPart, hstem, fields_nil] at hinit
    subst hinit
    have hhead : path.head? ≠ some 47 := by
      intro hhead
      have hsep := head_of_stem_nil hstem (by simp [h]) hhead
      simp at hsep
    rw [Fs.start, if_neg hhead]
    rfl
  · have hhead := @head?_stem _ (· = 47) path (by rw [← dirPart, hstem]; simp)
    rw [resolvePath_cons, ← hstem, components_eq, dirPart, hinit, Fs.start, Fs.start, hhead]

/-! ### Walks -/

namespace Goes

/-- A walk along two parts has a node between them. -/
theorem of_append {front back : List Name} (h : Goes s cur (front ++ back) n) : ∃ m, Goes s cur front m ∧ Goes s m back n := by
  induction front generalizing cur with
  | nil => exact ⟨cur, Goes.nil cur, h⟩
  | cons part front ih =>
    rw [List.cons_append] at h
    cases h with
    | dot h =>
      obtain ⟨m, hfront, hback⟩ := ih h
      exact ⟨m, Goes.dot hfront, hback⟩
    | up h =>
      obtain ⟨m, hfront, hback⟩ := ih h
      exact ⟨m, Goes.up hfront, hback⟩
    | down hdot hdots hlen hc h =>
      obtain ⟨m, hfront, hback⟩ := ih h
      exact ⟨m, Goes.down hdot hdots hlen hc hfront, hback⟩

theorem short (h : Goes s cur parts n) : ∀ part ∈ parts, part.length ≤ FS_NAME_MAX := by
  induction h with
  | nil => simp
  | dot _ ih => simpa using ⟨by decide, ih⟩
  | up _ ih => simpa using ⟨by decide, ih⟩
  | down _ _ hlen _ _ ih => simpa using ⟨hlen, ih⟩

/-- A last component that is a name leads to a child. -/
theorem last_iff (hdot : name ≠ Ramfs.dot) (hdots : name ≠ dotDot) :
    Goes s p [name] n ↔ name.length ≤ FS_NAME_MAX ∧ (findChild p name s).1 = .ok (some n) := by
  constructor
  · intro h
    cases h with
    | dot => exact absurd rfl hdot
    | up => exact absurd rfl hdots
    | down _ _ hlen hc h =>
      cases h
      exact ⟨hlen, hc⟩
  · rintro ⟨hlen, hc⟩
    exact Goes.down hdot hdots hlen hc (Goes.nil n)

end Goes

theorem findChild_isDir (h : Shape s kids) (hc : (findChild p name s).1 = .ok (some n)) : (s.nodes p).isDir = true := by
  rw [h.findChild_apply] at hc
  exact (h.dir n p (List.mem_of_find?_eq_some (Outcome.ok.inj hc))).2

/-- On its way to a directory the walk stands on a file and goes up from there. -/
def UpFromFile (s : Fs) (cur : Slot) (parts : List Name) : Prop :=
  ∃ front back file n, parts = front ++ dotDot :: back ∧ Goes s cur front file ∧ (s.nodes file).isDir = false ∧
    Goes s file (dotDot :: back) n ∧ (s.nodes n).isDir = true

/-- Every node that a first part of the components leads to is a directory. -/
def OnDirs (s : Fs) (cur : Slot) (parts : List Name) : Prop :=
  ∀ front back file, parts = front ++ back → Goes s cur front file → (s.nodes file).isDir = true

theorem onDirs_nil_iff : OnDirs s cur [] ↔ (s.nodes cur).isDir = true := by
  constructor
  · intro h
    exact h [] [] cur rfl (Goes.nil cur)
  · intro h front back file hparts hgoes
    obtain ⟨rfl, -⟩ := List.append_eq_nil_iff.1 hparts.symm
    cases hgoes
    exact h

/-- One component on. -/
theorem onDirs_cons_iff {rest : List Name} (hstep : ∀ front file, Goes s cur (part :: front) file ↔ Goes s n front file) :
    OnDirs s cur (part :: rest) ↔ (s.nodes cur).isDir = true ∧ OnDirs s n rest := by
  constructor
  · intro h
    refine ⟨h [] _ cur rfl (Goes.nil cur), fun front back file hparts hgoes => ?_⟩
    exact h (part :: front) back file (by rw [hparts]; rfl) ((hstep front file).2 hgoes)
  · rintro ⟨hcur, h⟩ front back file hparts hgoes
    cases front with
    | nil =>
      cases hgoes
      exact hcur
    | cons a front =>
      obtain ⟨rfl, hrest⟩ := List.cons.inj hparts
      exact h front back file hrest ((hstep front file).1 hgoes)

/-- A walk that leaves a file for a directory goes up. -/
theorem upFromFile_of_file (h : Shape s kids) {back : List Name} (hfile : (s.nodes cur).isDir = false) (hgoes : Goes s cur back n)
    (hn : (s.nodes n).isDir = true) : UpFromFile s cur back := by
  induction hgoes with
  | nil => simp [hn] at hfile
  | dot hgoes ih =>
    obtain ⟨front, back, file, m, rfl, hfront, hup⟩ := ih hfile hn
    exact ⟨dot :: front, back, file, m, rfl, Goes.dot hfront, hup⟩
  | @up cur n rest hgoes ih => exact ⟨[], rest, cur, n, rfl, Goes.nil cur, hfile, Goes.up hgoes, hn⟩
  | down _ _ _ hc =>
    have hdir := findChild_isDir h hc
    simp [hfile] at hdir

/-- A walk to a directory stays on directories if it does not go up from a file. -/
theorem onDirs_iff (h : Shape s kids) (hgoes : Goes s cur parts n) (hn : (s.nodes n).isDir = true) :
    OnDirs s cur parts ↔ ¬ UpFromFile s cur parts := by
  constructor
  · rintro hon ⟨front, back, file, m, hparts, hfront, hfile, -⟩
    have hdir := hon front _ file hparts hfront
    simp [hfile] at hdir
  · intro hnot front back file hparts hfront
    by_contra hfile
    rw [Bool.not_eq_true] at hfile
    subst hparts
    obtain ⟨m, hfront', hback⟩ := hgoes.of_append
    obtain rfl := hfront.unique hfront'
    obtain ⟨front', back', file', n', rfl, hfront₂, hup⟩ := upFromFile_of_file h hfile hback hn
    exact hnot ⟨front ++ front', back', file', n', by simp, hfront.append hfront₂, hup⟩

theorem goes_dot_iff : Goes s cur (dot :: parts) n ↔ Goes s cur parts n := by
  constructor
  · intro h
    cases h with
    | dot h => exact h
    | down hdot => exact absurd rfl hdot
  · exact Goes.dot

theorem goes_up_iff : Goes s cur (dotDot :: parts) n ↔ Goes s ((s.nodes cur).parent.getD cur) parts n := by
  constructor
  · intro h
    cases h with
    | up h => exact h
    | down _ hdots => exact absurd rfl hdots
  · exact Goes.up

theorem goes_down_iff {c : Slot} (hdot : part ≠ dot) (hdots : part ≠ dotDot) (hlen : part.length ≤ FS_NAME_MAX)
    (hc : (findChild cur part s).1 = .ok (some c)) : Goes s cur (part :: parts) n ↔ Goes s c parts n := by
  constructor
  · intro h
    cases h with
    | dot => exact absurd rfl hdot
    | up => exact absurd rfl hdots
    | down _ _ _ hc' h =>
      obtain rfl := Option.some.inj (Outcome.ok.inj (hc.symm.trans hc'))
      exact h
  · exact Goes.down hdot hdots hlen hc

/-- The walk that splits off the last component stays on directories. -/
theorem splitLoop_iff (h : Shape s kids) (hcur : (s.nodes cur).used = true ∧ (s.nodes cur).isDir = true) (hdot : last ≠ dot)
    (hdots : last ≠ dotDot) :
    splitLoop (init ++ [last]) cur s = (.ok (p, name), s) ↔
      (Goes s cur init p ∧ OnDirs s cur init) ∧ last.length ≤ FS_NAME_MAX ∧ name = last := by
  induction init generalizing cur with
  | nil =>
    rw [List.nil_append, splitLoop, onDirs_nil_iff]
    by_cases hlen : last.length ≤ FS_NAME_MAX
    · rw [require_pos hlen, pure_bind_eq, if_pos rfl, require_pos ⟨hdot, hdots⟩, pure_bind_eq]
      constructor
      · intro hrun
        simp only [pure_apply, Prod.mk.injEq, Outcome.ok.injEq, and_true] at hrun
        obtain ⟨rfl, rfl⟩ := hrun
        exact ⟨⟨Goes.nil cur, hcur.2⟩, hlen, rfl⟩
      · rintro ⟨⟨hgoes, -⟩, -, rfl⟩
        cases hgoes
        rfl
    · rw [require_neg hlen]
      refine iff_of_false (fun hrun => ?_) fun hand => hlen hand.2.1
      simp at hrun
  | cons part init ih =>
    rw [List.cons_append, splitLoop]
    by_cases hlen : part.length ≤ FS_NAME_MAX
    swap
    · rw [require_neg hlen]
      refine iff_of_false (fun hrun => ?_) fun hand => hlen (hand.1.1.short part (by simp))
      simp at hrun
    rw [require_pos hlen, pure_bind_eq, if_neg (by simp)]
    by_cases hpdot : part = dot
    · rw [if_pos hpdot, ih hcur, hpdot, goes_dot_iff, onDirs_cons_iff fun front file => goes_dot_iff, and_iff_right hcur.2]
    rw [if_neg hpdot]
    by_cases hpdots : part = dotDot
    · rw [if_pos hpdots, hpdots, goes_up_iff, onDirs_cons_iff fun front file => goes_up_iff, and_iff_right hcur.2]
      have hup : parentOrSelf cur s = (.ok ((s.nodes cur).parent.getD cur), s) := rfl
      rw [bind_ok hup, ih]
      cases hp : (s.nodes cur).parent with
      | none => exact hcur
      | some q => exact h.parent_dir hcur.1 hp
    rw [if_neg hpdots]
    have hstate := findChild_state cur part s
    have hfind := h.findChild_apply cur part
    rw [bind_ok hfind]
    rcases hchild : (kids cur).find? fun i => (s.nodes i).name = part with _ | c
    · refine iff_of_false (fun hrun => ?_) fun hand => ?_
      · simp [ofOption_none] at hrun
      · obtain ⟨⟨hgoes, -⟩, -⟩ := hand
        cases hgoes with
        | dot => exact hpdot rfl
        | up => exact hpdots rfl
        | down _ _ _ hc =>
          rw [hfind, hchild] at hc
          simp at hc
    · have hc : (findChild cur part s).1 = .ok (some c) := by rw [hfind, hchild]
      have hstep : ∀ front file, Goes s cur (part :: front) file ↔ Goes s c front file :=
        fun front file => goes_down_iff hpdot hpdots hlen hc
      have hread : Exec.gets (fun s : Fs => s.nodes c) s = (.ok (s.nodes c), s) := rfl
      rw [ofOption_some, pure_bind_eq, bind_ok hread, hstep, onDirs_cons_iff hstep, and_iff_right hcur.2]
      by_cases hdir : (s.nodes c).isDir = true
      · rw [require_pos hdir, pure_bind_eq, ih ⟨h.used_of_mem (List.mem_of_find?_eq_some hchild), hdir⟩]
      · rw [require_neg hdir]
        refine iff_of_false (fun hrun => ?_) fun hand => hdir (hand.1.2 [] _ c rfl (Goes.nil c))
        simp at hrun

/-! ### Agreement -/

/-- A child of a directory, under its name. -/
def ChildNamed (s : Fs) (p : Slot) (name : Name) (n : Slot) : Prop :=
  n ≠ 0 ∧ (s.nodes n).used = true ∧ (s.nodes n).parent = some p ∧ (s.nodes n).name = name

/-- The two walks agree on a path: the split gives the directory that the path without its last component leads
to; then the path leads to the child of the last component's name; and where the split fails, the path leads nowhere. -/
structure WalkersAgree (s : Fs) (path : Path) : Prop where
  splits : ∀ p name, splitParentAndName (some path) s = (.ok (p, name), s) ↔
    (resolvePath (some (dirPart path)) s = (.ok p, s) ∧ (s.nodes p).isDir = true) ∧ (∀ c ∈ components path, c.length ≤ FS_NAME_MAX) ∧
      (components path).getLast? = some name
  finds : ∀ p name n, splitParentAndName (some path) s = (.ok (p, name), s) →
    (resolvePath (some path) s = (.ok n, s) ↔ ChildNamed s p name n)
  misses : ∀ p name, splitParentAndName (some path) s = (.ok (p, name), s) → (∀ n, ¬ ChildNamed s p name n) →
    resolvePath (some path) s = (.fail, s)
  fails : splitParentAndName (some path) s = (.fail, s) → ∀ n, resolvePath (some path) s ≠ (.ok n, s)

theorem childNamed_iff (h : Shape s kids) : ChildNamed s p name n ↔ (findChild p name s).1 = .ok (some n) := by
  rw [h.findChild_apply]
  constructor
  · rintro ⟨hne, hused, hparent, hname⟩
    have hmem := (h.mem_iff n p).2 ⟨hne, hused, hparent⟩
    rcases hfind : (kids p).find? fun i => (s.nodes i).name = name with _ | m
    · have hmiss := List.find?_eq_none.1 hfind n hmem
      simp [hname] at hmiss
    · have hm := List.find?_some hfind
      have hnames : (s.nodes m).name = (s.nodes n).name := by rw [hname]; simpa using hm
      rw [h.names_inj p m (List.mem_of_find?_eq_some hfind) n hmem hnames]
  · intro hfind
    have hfind := Outcome.ok.inj hfind
    obtain ⟨hne, hused, hparent⟩ := (h.mem_iff n p).1 (List.mem_of_find?_eq_some hfind)
    exact ⟨hne, hused, hparent, by simpa using List.find?_some hfind⟩

section Path

variable (h : WellFormed s) (hpath : components path = init ++ [last]) (hdot : last ≠ dot) (hdots : last ≠ dotDot)

include hpath

theorem path_ne_nil : path ≠ [] := by
  rintro rfl
  simp [components_eq] at hpath

theorem resolvePath_path (s : Fs) : resolvePath (some path) s = resolveLoop (init ++ [last]) (s.start path) s := by
  rcases path with _ | ⟨c, path⟩
  · exact absurd rfl (path_ne_nil hpath)
  · rw [resolvePath_cons, hpath]

include h hdot hdots

theorem splitPath_iff : splitParentAndName (some path) s = (.ok (p, name), s) ↔
    (Goes s (s.start path) init p ∧ OnDirs s (s.start path) init) ∧ last.length ≤ FS_NAME_MAX ∧ name = last := by
  obtain ⟨kids, hshape⟩ := h.shape
  have hcur : (s.nodes (s.start path)).used = true ∧ (s.nodes (s.start path)).isDir = true := by
    rcases h.startNode_reads path with ⟨n, t, hrun, -, hn⟩ | ⟨t, hrun, -⟩
    · rw [startNode_apply] at hrun
      obtain ⟨hstart, rfl⟩ := Prod.mk.inj hrun
      rwa [Outcome.ok.inj hstart]
    · simp [startNode_apply] at hrun
  rw [← splitLoop_iff hshape hcur hdot hdots, ← hpath]
  rcases path with _ | ⟨c, path⟩
  · exact absurd rfl (path_ne_nil hpath)
  · rw [splitParentAndName_cons]

/-- A path that leads to a node has a directory before its last component. -/
theorem resolvePath_iff : resolvePath (some path) s = (.ok n, s) ↔
    ∃ p, Goes s (s.start path) init p ∧ last.length ≤ FS_NAME_MAX ∧ (findChild p last s).1 = .ok (some n) := by
  rw [resolvePath_path hpath, ← goes_iff]
  constructor
  · intro hgoes
    obtain ⟨p, hinit, hlast⟩ := hgoes.of_append
    exact ⟨p, hinit, (Goes.last_iff hdot hdots).1 hlast⟩
  · rintro ⟨p, hinit, hlast⟩
    exact hinit.append ((Goes.last_iff hdot hdots).2 hlast)

/-- The two walks agree on a path exactly if the path, without its last component, does not go up from a file on its
way to a directory, or if its last component is too long. -/
theorem walkersAgree_iff : WalkersAgree s path ↔ ¬ (UpFromFile s (s.start path) init ∧ last.length ≤ FS_NAME_MAX) := by
  obtain ⟨kids, hshape⟩ := h.shape
  have hsplit := fun p name => @splitPath_iff s p path name last init h hpath hdot hdots
  constructor
  · rintro hagree ⟨hup, hlen⟩
    obtain ⟨front, back, file, n, hinit, hfront, -, hback, hn⟩ := id hup
    have hgoes : Goes s (s.start path) init n := hinit ▸ hfront.append hback
    have hdir : resolvePath (some (dirPart path)) s = (.ok n, s) := by
      rw [resolvePath_dirPart hpath]
      exact goes_iff.1 hgoes
    have hshort : ∀ c ∈ components path, c.length ≤ FS_NAME_MAX := by
      rw [hpath]
      intro c hc
      rcases List.mem_append.1 hc with hc | hc
      · exact hgoes.short c hc
      · rwa [List.mem_singleton.1 hc]
    have hok := (hagree.splits n last).2 ⟨⟨hdir, hn⟩, hshort, by simp [hpath]⟩
    exact (onDirs_iff hshape hgoes hn).1 ((hsplit n last).1 hok).1.2 hup
  · intro hnot
    have hon : ∀ {p}, Goes s (s.start path) init p → (s.nodes p).isDir = true → last.length ≤ FS_NAME_MAX →
        OnDirs s (s.start path) init :=
      fun hgoes hp hlen => (onDirs_iff hshape hgoes hp).2 fun hup => hnot ⟨hup, hlen⟩
    have hchild : ∀ {p name n}, splitParentAndName (some path) s = (.ok (p, name), s) →
        (resolvePath (some path) s = (.ok n, s) ↔ ChildNamed s p name n) := by
      intro p name n hok
      obtain ⟨⟨hgoes, -⟩, hlen, rfl⟩ := (hsplit p name).1 hok
      rw [resolvePath_iff h hpath hdot hdots, childNamed_iff hshape]
      constructor
      · rintro ⟨q, hq, -, hc⟩
        rwa [hgoes.unique hq]
      · intro hc
        exact ⟨p, hgoes, hlen, hc⟩
    refine ⟨fun p name => ?_, fun p name n hok => hchild hok, fun p name hok hnone => ?_, fun hfail n hn => ?_⟩
    · rw [hsplit, resolvePath_dirPart hpath, ← goes_iff, hpath]
      constructor
      · rintro ⟨⟨hgoes, hdirs⟩, hlen, rfl⟩
        refine ⟨⟨hgoes, hdirs init [] p (by simp) hgoes⟩, fun c hc => ?_, by simp⟩
        rcases List.mem_append.1 hc with hc | hc
        · exact hgoes.short c hc
        · rwa [List.mem_singleton.1 hc]
      · rintro ⟨⟨hgoes, hp⟩, hshort, hname⟩
        have hlen := hshort last (by simp)
        exact ⟨⟨hgoes, hon hgoes hp hlen⟩, hlen, by simpa using hname.symm⟩
    · rcases h.resolvePath_reads (some path) with ⟨n, t, hrun, rfl, -⟩ | ⟨t, hrun, rfl⟩
      · exact absurd ((hchild hok).1 hrun) (hnone n)
      · exact hrun
    · obtain ⟨p, hgoes, hlen, hc⟩ := (resolvePath_iff h hpath hdot hdots).1 hn
      have hok := (hsplit p last).2 ⟨⟨hgoes, hon hgoes (findChild_isDir hshape hc) hlen⟩, hlen, rfl⟩
      rw [hok] at hfail
      simp at hfail

end Path

/-- A file in the root that is not there yet. -/
theorem walkersAgree_missing : components (chars "/x") = [] ++ [chars "x"] ∧ WalkersAgree started (chars "/x") := by
  have hpath : components (chars "/x") = [] ++ [chars "x"] := by decide
  refine ⟨hpath, (walkersAgree_iff wellFormed_started hpath (by decide) (by decide)).2 ?_⟩
  rintro ⟨⟨front, back, file, n, hparts, -⟩, -⟩
  simp at hparts

/-- From the file "/a" a path can go up and down again. -/
theorem not_walkersAgree : ¬ ∀ s, WellFormed s → ∀ path init last, components path = init ++ [last] → last ≠ dot → last ≠ dotDot →
    WalkersAgree s path := by
  intro hall
  have hagree := hall touched wellFormed_touched (chars "/a/../a") [chars "a", dotDot] (chars "a") (by decide) (by decide) (by decide)
  have hfail : (splitParentAndName (some (chars "/a/../a")) touched).1 = .fail := by decide +kernel
  have hfound : (resolvePath (some (chars "/a/../a")) touched).1 = .ok ⟨11, by decide⟩ := by decide +kernel
  rcases wellFormed_touched.splitParentAndName_reads (some (chars "/a/../a")) with ⟨r, t, hrun, -⟩ | ⟨t, hrun, rfl⟩
  · simp [hrun] at hfail
  · exact hagree.fails hrun _ (Prod.ext hfound (resolvePath_state _ _))

end Tg11Kernel.Ramfs
