import Tg11Kernel.Ramfs.Moving

/-! The working directory as a path. `fs_get_pwd` climbs to the root, which puts the nodes
on a stack, and stores their names from the top of it; the path that it stores leads
back to the directory. -/

namespace Tg11Kernel.Ramfs

open Lib

/-! ### Printing -/

/-- The buffer, and how much of it is filled. -/
structure PwdOutput where
  buffer : ℕ → UInt8
  out : ℕ

def PwdOutput.put (o : PwdOutput) (c : UInt8) : PwdOutput := ⟨Function.update o.buffer o.out c, o.out + 1⟩

/-- The loop that stores a name. One byte stays for the terminator. -/
def putName (bufferSize : ℕ) : Name → PwdOutput → PwdOutput
  | [], o => o
  | c :: name, o => if o.out + 1 ≥ bufferSize then o else putName bufferSize name (o.put c)

/-- The loop that stores every name behind a slash. -/
def putNames (bufferSize : ℕ) : List Name → PwdOutput → PwdOutput
  | [], o => o
  | name :: names, o => if o.out + 1 ≥ bufferSize then o else putNames bufferSize names (putName bufferSize name (o.put 47))

/-- `while (n > 0 && depth < FS_MAX_NODES)`: what is put on the stack. -/
def Fs.pwdStack (s : Fs) : ℕ → Option Slot → List Slot
  | _, none => []
  | 0, some _ => []
  | left + 1, some n => if n = 0 then [] else n :: s.pwdStack left (s.nodes n).parent

/-- The buffer afterwards. -/
def getPwd (buffer : ℕ → UInt8) (bufferSize : ℕ) : M (ℕ → UInt8) := Exec.gets fun s =>
  if bufferSize = 0 then buffer
  else if s.cwdNode = 0 then
    if bufferSize ≥ 2 then Function.update (Function.update buffer 0 47) 1 0 else Function.update buffer 0 0
  else
    let stack := s.pwdStack FS_MAX_NODES (some s.cwdNode)
    let o := putNames bufferSize (stack.reverse.map fun i => (s.nodes i).name) ⟨buffer, 0⟩
    Function.update o.buffer o.out 0

variable {s : Fs} {kids : Slot → List Slot} {i : Slot} {names : List Name} {size : ℕ} {buffer : ℕ → UInt8} {o : PwdOutput} {text : Path}

/-! ### What is stored -/

/-- The text was stored from the start of the buffer on. -/
def PwdOutput.Stored (o : PwdOutput) (text : Path) : Prop := o.out = text.length ∧ ∀ i < text.length, text[i]? = some (o.buffer i)

theorem PwdOutput.Stored.put (h : o.Stored text) (c : UInt8) : (o.put c).Stored (text ++ [c]) := by
  obtain ⟨hout, hbytes⟩ := h
  refine ⟨by simp [PwdOutput.put, hout], fun i hi => ?_⟩
  rw [List.length_append, List.length_singleton] at hi
  unfold PwdOutput.put
  dsimp only
  by_cases hlast : i = text.length
  · rw [hlast, ← hout, Function.update_self, hout]
    simp
  · rw [Function.update_of_ne (by omega), List.getElem?_append_left (by omega), hbytes i (by omega)]

theorem putName_stored (name : Name) (h : o.Stored text) (hroom : text.length + name.length < size) :
    (putName size name o).Stored (text ++ name) := by
  induction name generalizing o text with
  | nil => simpa [putName] using h
  | cons c name ih =>
    rw [List.length_cons] at hroom
    have hput := ih (h.put c) (by simp; omega)
    rw [List.append_assoc] at hput
    rw [putName, if_neg (by rw [h.1]; omega)]
    exact hput

theorem putNames_stored (names : List Name) (h : o.Stored text) (hroom : text.length + (names.flatMap (47 :: ·)).length < size) :
    (putNames size names o).Stored (text ++ names.flatMap (47 :: ·)) := by
  induction names generalizing o text with
  | nil => simpa [putNames] using h
  | cons name names ih =>
    rw [List.flatMap_cons, List.length_append, List.length_cons] at hroom
    have hname : (putName size name (o.put 47)).Stored (text ++ [47] ++ name) := putName_stored name (h.put 47) (by simp; omega)
    have hput := ih hname (by rw [List.length_append, List.length_append, List.length_singleton]; omega)
    rw [putNames, if_neg (by rw [h.1]; omega)]
    simpa using hput

/-- Only bytes of the buffer were stored, and one is left. -/
def PwdOutput.Within (o : PwdOutput) (size : ℕ) (buffer : ℕ → UInt8) : Prop := o.out < size ∧ ∀ i, size ≤ i → o.buffer i = buffer i

theorem PwdOutput.Within.put (h : o.Within size buffer) (hroom : o.out + 1 < size) (c : UInt8) : (o.put c).Within size buffer := by
  refine ⟨hroom, fun i hi => ?_⟩
  unfold PwdOutput.put
  dsimp only
  rw [Function.update_of_ne (by omega)]
  exact h.2 i hi

theorem putName_within (name : Name) (h : o.Within size buffer) : (putName size name o).Within size buffer := by
  induction name generalizing o with
  | nil => exact h
  | cons c name ih =>
    rw [putName]
    split_ifs with hfull
    · exact h
    · exact ih (h.put (Nat.lt_of_not_le hfull) c)

theorem putNames_within (names : List Name) (h : o.Within size buffer) : (putNames size names o).Within size buffer := by
  induction names generalizing o with
  | nil => exact h
  | cons name names ih =>
    rw [putNames]
    split_ifs with hfull
    · exact h
    · exact ih (putName_within name (h.put (Nat.lt_of_not_le hfull) 47))

/-! ### The way up -/

/-- The stack spells the names from the top down. -/
theorem pwdStack_names (h : Located s i names) {left : ℕ} (hleft : names.length ≤ left) :
    (s.pwdStack left (some i)).reverse.map (fun j => (s.nodes j).name) = names := by
  induction h generalizing left with
  | root => cases left <;> simp [Fs.pwdStack]
  | @child i p names hne hused hparent hp ih =>
    rw [List.length_append, List.length_singleton] at hleft
    cases left with
    | zero => omega
    | succ left =>
      rw [Fs.pwdStack, if_neg hne, hparent, List.reverse_cons, List.map_append, ih (by omega)]
      rfl

section

variable (h : Located s i names) (hs : Shape s kids)
include h hs

/-- A node has as many ancestors as its path has names. -/
theorem Located.length_lt : names.length < FS_MAX_NODES := by
  have hchain : ∀ {i names}, Located s i names → ∃ l, IsChain s.up (some i) l ∧ l.length = names.length + 1 := by
    intro i names hi
    induction hi with
    | root => exact ⟨[0], ⟨rfl, hs.root.2.2⟩, rfl⟩
    | @child i p names hne hused hparent hp ih =>
      obtain ⟨l, hl, hlen⟩ := ih
      have hup : s.up i = some p := hparent
      exact ⟨i :: l, ⟨rfl, hup ▸ hl⟩, by simp [hlen]⟩
  obtain ⟨l, hl, hlen⟩ := hchain h
  have hmax := length_le_maxNodes hl
  omega

theorem Located.goes : Goes s 0 names i := by
  induction h with
  | root => exact Goes.nil 0
  | @child i p names hne hused hparent hp ih =>
    have hname := hs.names i hne hused
    have hfind := (childNamed_iff hs).1 ⟨hne, hused, hparent, rfl⟩
    exact ih.append (Goes.down hname.ne_dot hname.ne_dotDot hname.length_le hfind (Goes.nil i))

theorem Located.validName : ∀ name ∈ names, ValidName name := by
  induction h with
  | root => simp
  | @child i p names hne hused hparent hp ih =>
    intro name hname
    rcases List.mem_append.1 hname with hname | hname
    · exact ih name hname
    · rw [List.mem_singleton.1 hname]
      exact hs.names i hne hused

end

/-! ### The path of a directory -/

/-- A slash, or every name behind one. -/
def pathOf (names : List Name) : Path := if names = [] then [47] else names.flatMap (47 :: ·)

theorem components_pathOf (h : ∀ name ∈ names, ValidName name) : components (pathOf names) = names := by
  have hparts : ∀ name ∈ names, name ≠ [] ∧ ∀ c ∈ name, decide (c = 47) = false := by
    intro name hname
    refine ⟨(h name hname).ne_nil, fun c hc => decide_eq_false ?_⟩
    rintro rfl
    exact (h name hname).no_slash hc
  rw [components_eq]
  unfold pathOf
  split_ifs with hroot
  · rw [hroot]
    exact fields_of_forall (by simp)
  · exact fields_flatMap_cons (by simp) hparts

theorem head?_pathOf (names : List Name) : (pathOf names).head? = some 47 := by
  cases names <;> simp [pathOf]

theorem resolvePath_pathOf (h : Located s i names) (hs : Shape s kids) : resolvePath (some (pathOf names)) s = (.ok i, s) := by
  have hgoes := goes_iff.1 (h.goes hs)
  obtain ⟨rest, hpath⟩ : ∃ rest, pathOf names = 47 :: rest := List.head?_eq_some_iff.1 (head?_pathOf names)
  have hstart : s.start (47 :: rest) = 0 := if_pos rfl
  rw [hpath, resolvePath_cons, hstart, ← hpath, components_pathOf (h.validName hs)]
  exact hgoes

theorem cd_of_resolvePath {path : Option Path} (h : resolvePath path s = (.ok i, s)) (hdir : (s.nodes i).isDir = true) :
    cd path s = (.ok (), { s with cwdNode := i }) := by
  unfold cd
  rw [Exec.bind_ok h, Exec.bind_ok (Exec.gets_apply _ s), Exec.require_pos hdir]
  rfl

/-! ### The round trip -/

/-- The path of a node: it leads there from the root, and its components are names. -/
structure PathOf (s : Fs) (i : Slot) (path : Path) : Prop where
  absolute : path.head? = some 47
  leads : resolvePath (some path) s = (.ok i, s)
  names : ∃ names, path = pathOf names ∧ Located s i names ∧ ∀ name ∈ names, ValidName name

/-- A buffer that is large enough holds the text afterwards, and a NUL behind it. -/
def Prints (s : Fs) (text : Path) : Prop :=
  ∀ buffer size, text.length < size → ∃ buffer', getPwd buffer size s = (.ok buffer', s) ∧
    (∀ i < text.length, text[i]? = some (buffer' i)) ∧ buffer' text.length = 0

/-- The working directory and its path. -/
structure PwdRoundTrip (s : Fs) : Prop where
  pwd : ∃ path, PathOf s s.cwdNode path ∧ Prints s path ∧ cd (some path) s = (.ok (), s)
  /-- Every directory has a path, and after any path to it the canonical one is printed. -/
  cd : ∀ d, (s.nodes d).used = true → (s.nodes d).isDir = true → ∃ path, PathOf s d path ∧
    ∀ q, resolvePath q s = (.ok d, s) → cd q s = (.ok (), { s with cwdNode := d }) ∧ Prints { s with cwdNode := d } path
  inside : ∀ buffer size, ∃ buffer', getPwd buffer size s = (.ok buffer', s) ∧ ∀ i, size ≤ i → buffer' i = buffer i

theorem located_zero_iff : Located s i [] ↔ i = 0 := by
  constructor
  · intro h
    generalize hnames : ([] : List Name) = names at h
    cases h with
    | root => rfl
    | child => simp at hnames
  · rintro rfl
    exact Located.root

theorem Located.names_eq_nil (h : Located s 0 names) : names = [] := by
  generalize hi : (0 : Slot) = i at h
  cases h with
  | root => rfl
  | child hne => exact absurd hi.symm hne

theorem prints_of_located (h : Located s s.cwdNode names) (hlen : names.length < FS_MAX_NODES) : Prints s (pathOf names) := by
  intro buffer size hroom
  refine ⟨_, rfl, ?_⟩
  dsimp only
  have hsize : size ≠ 0 := by omega
  by_cases hroot : s.cwdNode = 0
  · rw [hroot] at h
    rw [h.names_eq_nil, if_neg hsize, if_pos hroot]
    have htwo : size ≥ 2 := by
      rw [h.names_eq_nil] at hroom
      exact hroom
    rw [if_pos htwo]
    refine ⟨fun i hi => ?_, rfl⟩
    obtain rfl : i = 0 := Nat.lt_one_iff.1 hi
    rfl
  · have hne : names ≠ [] := by
      rintro rfl
      exact hroot (located_zero_iff.1 h)
    have hpath : pathOf names = names.flatMap (47 :: ·) := if_neg hne
    rw [if_neg hsize, if_neg hroot, pwdStack_names h (Nat.le_of_lt hlen)]
    rw [hpath] at hroom ⊢
    have hempty : PwdOutput.Stored ⟨buffer, 0⟩ [] := ⟨rfl, nofun⟩
    obtain ⟨hout, hbytes⟩ := putNames_stored names hempty (by simpa using hroom)
    rw [List.nil_append] at hout hbytes
    rw [hout]
    refine ⟨fun i hi => ?_, Function.update_self ..⟩
    rw [hbytes i hi, Function.update_of_ne (by omega)]

theorem getPwd_inside (s : Fs) (buffer : ℕ → UInt8) (size : ℕ) :
    ∃ buffer', getPwd buffer size s = (.ok buffer', s) ∧ ∀ i, size ≤ i → buffer' i = buffer i := by
  refine ⟨_, rfl, fun i hi => ?_⟩
  dsimp only
  split_ifs with hsize hroot htwo
  · rfl
  · rw [Function.update_of_ne (by omega), Function.update_of_ne (by omega)]
  · rw [Function.update_of_ne (by omega)]
  · have hempty : PwdOutput.Within ⟨buffer, 0⟩ size buffer := ⟨Nat.pos_of_ne_zero hsize, fun _ _ => rfl⟩
    obtain ⟨hout, hbytes⟩ := putNames_within ((s.pwdStack FS_MAX_NODES (some s.cwdNode)).reverse.map fun i => (s.nodes i).name) hempty
    rw [Function.update_of_ne (by omega), hbytes i hi]

theorem Located.withCwd (h : Located s i names) (d : Slot) : Located { s with cwdNode := d } i names := by
  induction h with
  | root => exact Located.root
  | child hne hused hparent _ ih => exact Located.child hne hused hparent ih

/-- In every tree the working directory can be printed, and the path leads back. -/
theorem getPwd_roundTrip (h : WellFormed s) : PwdRoundTrip s := by
  obtain ⟨kids, hs⟩ := h.shape
  constructor
  case pwd =>
    obtain ⟨names, hnames⟩ := hs.exists_located h.cwd_used
    have hleads := resolvePath_pathOf hnames hs
    exact ⟨pathOf names, ⟨head?_pathOf names, hleads, names, rfl, hnames, hnames.validName hs⟩, prints_of_located hnames (hnames.length_lt hs),
      cd_of_resolvePath hleads h.cwd_isDir⟩
  case cd =>
    intro d hused hdir
    obtain ⟨names, hnames⟩ := hs.exists_located hused
    refine ⟨pathOf names, ⟨head?_pathOf names, resolvePath_pathOf hnames hs, names, rfl, hnames, hnames.validName hs⟩, fun q hq => ?_⟩
    exact ⟨cd_of_resolvePath hq hdir, prints_of_located (hnames.withCwd d) (hnames.length_lt hs)⟩
  case inside => exact getPwd_inside s

/-- A file beside the root. -/
theorem getPwd_roundTrip_touched : PwdRoundTrip touched := getPwd_roundTrip wellFormed_touched

end Tg11Kernel.Ramfs
