import Tg11Kernel.Lib.Fields
import Tg11Kernel.Lib.Walk
import Tg11Kernel.Shell.LineEditor

/-! The drives and the paths on them. A path may name a drive first, with a letter and a colon or
with a component like `hd1`; without that it is on the active drive, and relative to the
directory there. Resolving it mounts the drive and writes the path out in normal form. -/

namespace Tg11Kernel.Shell

open Lib Exec
open Line (asciiLower)

def BLOCKDEV_MAX_DRIVES : ℕ := 4

instance : NeZero BLOCKDEV_MAX_DRIVES := ⟨by decide⟩

abbrev Drive := Fin BLOCKDEV_MAX_DRIVES

/-- What the devices answer. -/
structure Disks where
  present : Drive → Bool
  /-- `fat32_mount(dev) == 0` -/
  mounts : Drive → Bool

structure Drives where
  registered : Drive → Bool
  /-- The drive whose volume is mounted, and the one that the user works on. -/
  mountedDrive : Option Drive
  activeDrive : Option Drive
  isMounted : Bool
  cwd : Text
  driveCwd : Drive → Text
  preferFatRoot : Bool

namespace Drives

def booted : Drives := ⟨fun _ => false, none, none, false, chars "/", fun _ => chars "/", false⟩

/-- The volume of the drive is mounted. -/
def on (s : Drives) (d : Drive) : Bool := s.mountedDrive = some d && s.isMounted

def prefer (generic : Bool) (s : Drives) : Drives := if generic then { s with preferFatRoot := true } else s

/-- The directory is noted for the drive that is left. -/
def leave (s : Drives) : Drives :=
  match s.mountedDrive with
  | some old => if s.isMounted then { s with driveCwd := Function.update s.driveCwd old (s.cwd.take 127) } else s
  | none => s

def enter (d : Drive) (generic : Bool) (s : Drives) : Drives :=
  let dir := if s.driveCwd d = [] then chars "/" else s.driveCwd d
  { s.prefer generic with mountedDrive := some d, driveCwd := Function.update s.driveCwd d dir, cwd := dir.take 127 }

/-- `fat32_mount`; where it fails, nothing is mounted. -/
def mount (disks : Disks) (d : Drive) : Exec Drives Unit := do
  Exec.modify fun s => { s with isMounted := false }
  require (disks.mounts d = true)
  Exec.modify fun s => { s with isMounted := true }

/-- `fat_mount_drive_now` -/
def mountDriveNow (disks : Disks) (d : Drive) (generic : Bool) : Exec Drives Unit := do
  require (disks.present d = true)
  if ← Exec.gets fun s => s.on d then Exec.modify (prefer generic)
  else do
    Exec.modify leave
    mount disks d
    Exec.modify (enter d generic)

/-! ### Drive prefixes -/

def digitDrive (c : UInt8) : Option Drive :=
  if ('0' : UInt8) ≤ c ∧ c ≤ ('3' : UInt8) then some (Fin.ofNat BLOCKDEV_MAX_DRIVES (c - ('0' : UInt8)).toNat) else none

def letterDrive (c : UInt8) : Option Drive :=
  if ('a' : UInt8) ≤ c ∧ c ≤ ('d' : UInt8) then some (Fin.ofNat BLOCKDEV_MAX_DRIVES (c - ('a' : UInt8)).toNat) else none

/-- `parse_mount_target_drive` -/
def parseMountTargetDrive (token : Text) : Option Drive :=
  if 16 ≤ token.length then none
  else
    match token.map asciiLower with
    | [slash, h, d, n] => if [slash, h, d] = chars "/hd" then digitDrive n else none
    | [h, d, n] => if [h, d] = chars "hd" then digitDrive n else none
    | [c, colon] => if colon = (':' : UInt8) then letterDrive c else none
    | [n] => digitDrive n
    | _ => none

def isSep (c : UInt8) : Bool := c = ('/' : UInt8) ∨ c = ('\\' : UInt8)

def dropSep : Text → Text
  | [] => []
  | c :: p => if isSep c then p else c :: p

/-- `parse_drive_prefixed_path`: the drive, if the input names one, and the path on it. -/
def parseDrivePrefixedPath : Text → Option (Option Drive × Text)
  | [] => some (none, [])
  | c :: p =>
    if p.head? = some (':' : UInt8) then do
      let drive ← parseMountTargetDrive [c, (':' : UInt8)]
      pure (some drive, dropSep p.tail)
    else if isSep c then
      let token := p.takeWhile fun d => !isSep d
      if 16 ≤ token.length then none
      else if token = [] then some (none, c :: p)
      else
        match parseMountTargetDrive token with
        | none => some (none, c :: p)
        | some drive => some (some drive, dropSep (p.dropWhile fun d => !isSep d))
    else some (none, c :: p)

/-! ### Components -/

def MAX_DEPTH : ℕ := 24

def here : Text := chars "."
def up : Text := chars ".."

/-- The loop that reads a path, with the token so far: runs of separators stand between the tokens. -/
def tokensLoop : Text → Text → List Text
  | [], token => if token = [] then [] else [token]
  | c :: path, token =>
    if isSep c then
      if token = [] then tokensLoop path [] else token :: tokensLoop path []
    else tokensLoop path (token ++ [c])

/-- `fat_append_component` -/
def appendComponent (parts : List Text) (component : Text) : Option (List Text) :=
  if MAX_DEPTH ≤ parts.length ∨ 16 ≤ component.length then none else some (parts ++ [component])

/-- What `fat_push_from_path` does with a token. -/
def pushToken (parts : List Text) (token : Text) : Option (List Text) :=
  if 16 ≤ token.length then none
  else if token = here then some parts
  else if token = up then some parts.dropLast
  else appendComponent parts token

def pushFromPath (parts : List Text) (path : Text) : Option (List Text) := (tokensLoop path []).foldlM pushToken parts

def putChar (outSize : ℕ) (out : Text) (c : UInt8) : Option Text := if outSize ≤ out.length + 1 then none else some (out ++ [c])

/-- `fat_build_path_from_parts` -/
def buildPathFromParts (parts : List Text) (outSize : ℕ) : Option Text :=
  if outSize < 2 then none else ((chars "/").intercalate parts).foldlM (putChar outSize) (chars "/")

/-! ### Resolution -/

/-- The active drive, when it is a mount root but is not what is mounted. -/
def stale (s : Drives) : Option Drive := (s.activeDrive <|> s.mountedDrive).filter fun d => !s.on d && s.registered d

def fallback (s : Drives) : Option Drive := (List.finRange BLOCKDEV_MAX_DRIVES).find? s.registered

/-- The drive that a path is on is mounted. -/
def selectDrive (disks : Disks) : Option Drive → Exec Drives Unit
  | some d => do
    require ((← Exec.gets fun s => s.registered d) = true)
    mountDriveNow disks d true
  | none => do
    match ← Exec.gets stale with
    | some d => mountDriveNow disks d true
    | none =>
      if ← Exec.gets Drives.isMounted then pure ()
      else do
        let d ← Exec.ofOption (← Exec.gets fallback)
        mountDriveNow disks d true

/-- What is written out once the drive is mounted. -/
def resolvedText (cwd : Text) (drive : Option Drive) (input p : Text) (outSize : ℕ) : Option Text := do
  if input = [] then
    if outSize < cwd.length + 1 then none else some cwd
  else
    let parts ← if drive = none ∧ p.head?.any isSep = false then pushFromPath [] cwd else some []
    let parts ← pushFromPath parts p
    buildPathFromParts parts outSize

/-- `fat_resolve_path` -/
def resolvePath (disks : Disks) (outSize : ℕ) (input : Text) : Exec Drives Text := do
  let (drive, p) ← Exec.ofOption (parseDrivePrefixedPath input)
  selectDrive disks drive
  let cwd ← Exec.gets Drives.cwd
  Exec.ofOption (resolvedText cwd drive input p outSize)

/-- `cd` changes to the directory that was resolved. -/
def changeTo (out : Text) (s : Drives) : Drives :=
  let dir := out.take 127
  { s with
    cwd := dir
    driveCwd := match s.mountedDrive with
      | some d => Function.update s.driveCwd d dir
      | none => s.driveCwd
    activeDrive := s.mountedDrive }

/-! ### The meaning of a path -/

/-- How an input is read: the drive that it names, if any, and the path on that drive. A letter and a colon have to name
one; a component in front may. -/
inductive Names : Text → Option Drive → Text → Prop
  | letter {c : UInt8} {p : Text} {d : Drive} (hc : isSep c = false) (hdrive : parseMountTargetDrive [c, (':' : UInt8)] = some d) :
      Names (c :: (':' : UInt8) :: p) (some d) p
  | component {c : UInt8} {name p : Text} {d : Drive} (hc : isSep c = true) (hname : ∀ x ∈ name, isSep x = false)
      (hp : ∀ x ∈ p.head?, isSep x = true) (hdrive : parseMountTargetDrive name = some d) : Names (c :: (name ++ p)) (some d) p
  | absolute {c : UInt8} {p : Text} (hc : isSep c = true) (hname : parseMountTargetDrive (p.takeWhile fun x => !isSep x) = none) :
      Names (c :: p) none (c :: p)
  | relative {p : Text} (hp : p.head?.any isSep = false) (hcolon : p.tail.head? ≠ some (':' : UInt8)) : Names p none p

/-- The path to be put in normal form. -/
def meant (cwd : Text) (drive : Option Drive) (rest : Text) : Text :=
  if drive = none ∧ rest.head?.any isSep = false then cwd ++ ('/' : UInt8) :: rest else rest

/-- The components of the normal form. -/
def normalForm (cwd : Text) (drive : Option Drive) (rest : Text) : List Text := normalise here up (fields isSep (meant cwd drive rest))

/-- A slash, and the components with slashes between them. -/
def pathText (parts : List Text) : Text := chars "/" ++ (chars "/").intercalate parts

/-- Neither a component, nor the depth on the way, nor the result is too long. -/
structure Fits (outSize : ℕ) (cwd : Text) (drive : Option Drive) (rest : Text) : Prop where
  short : ∀ name ∈ fields isSep (meant cwd drive rest), name.length < 16
  shallow : ∀ k, (normalise here up ((fields isSep (meant cwd drive rest)).take k)).length ≤ MAX_DEPTH
  room : (pathText (normalForm cwd drive rest)).length < outSize

def Mountable (disks : Disks) (s : Drives) (d : Drive) : Prop := disks.present d = true ∧ (s.on d = true ∨ disks.mounts d = true)

/-- The drive is a mount root that can be mounted; without one named, the active drive is, or another one is in its place. -/
def Usable (disks : Disks) (s : Drives) : Option Drive → Prop
  | some d => s.registered d = true ∧ Mountable disks s d
  | none =>
    match stale s with
    | some d => Mountable disks s d
    | none => s.isMounted = true ∨ ∃ d, fallback s = some d ∧ Mountable disks s d

/-- The directory that a relative path starts from. -/
def directory (disks : Disks) (s : Drives) (drive : Option Drive) : Text := (selectDrive disks drive s).2.cwd

structure Plain (name : Text) : Prop where
  ne_nil : name ≠ []
  no_sep : ∀ c ∈ name, isSep c = false
  ne_here : name ≠ here
  ne_up : name ≠ up
  short : name.length < 16

/-- A path in normal form. -/
def IsPath (path : Text) : Prop := ∃ parts : List Text, (∀ name ∈ parts, Plain name) ∧ parts.length ≤ MAX_DEPTH ∧ path = pathText parts

/-- Path resolution does what it is for: it fails for the given reasons only, its result is the normal form of what was
meant, on the drive that was meant, and resolves to itself. -/
structure Resolves (disks : Disks) (outSize : ℕ) (input : Text) (s : Drives) : Prop where
  succeeds : (∃ out t, resolvePath disks outSize input s = (.ok out, t)) ↔
    ∃ drive rest, Names input drive rest ∧ Usable disks s drive ∧ Fits outSize (directory disks s drive) drive rest
  means : ∀ out t, resolvePath disks outSize input s = (.ok out, t) →
    ∃ drive rest, Names input drive rest ∧ (∀ d, drive = some d → t.mountedDrive = some d) ∧ out = pathText (normalForm t.cwd drive rest)
  canonical : ∀ out t, resolvePath disks outSize input s = (.ok out, t) → IsPath out
  again : ∀ out t disks' size, resolvePath disks outSize input s = (.ok out, t) → out.length < size →
    ∃ t', resolvePath disks' size out { t with activeDrive := t.mountedDrive } = (.ok out, t') ∧ t'.mountedDrive = t.mountedDrive

/-- A separator and a colon in front. -/
def Colon (input : Text) : Prop := input.head?.any isSep = true ∧ input.tail.head? = some (':' : UInt8)

/-- Where the input could be resolved, no colon stands behind a separator in front, and what the result begins with is
neither the name of a drive nor begins with a colon. -/
def Unambiguous (disks : Disks) (outSize : ℕ) (input : Text) (s : Drives) : Prop :=
  ∀ drive rest, Names input drive rest → Usable disks s drive → Fits outSize (directory disks s drive) drive rest →
    ¬ Colon input ∧ ∀ first ∈ (normalForm (directory disks s drive) drive rest).head?,
      parseMountTargetDrive first = none ∧ first.head? ≠ some (':' : UInt8)

/-- The states that boot, mounting and unmounting, resolution and `cd` lead to. Other commands leave the directories or set
them to the root. -/
inductive Produced : Drives → Prop
  | boot : Produced booted
  | mounted {s : Drives} {disks : Disks} {d : Drive} {generic : Bool} (h : Produced s) : Produced (mountDriveNow disks d generic s).2
  | resolved {s : Drives} {disks : Disks} {outSize : ℕ} {input : Text} (h : Produced s) : Produced (resolvePath disks outSize input s).2
  | changed {s t : Drives} {disks : Disks} {input out : Text} (h : Produced s) (hrun : resolvePath disks 128 input s = (.ok out, t)) :
      Produced (changeTo out t)
  | other {s t : Drives} (h : Produced s) (hcwd : t.cwd = s.cwd ∨ t.cwd = chars "/")
      (hdrives : ∀ d, t.driveCwd d = s.driveCwd d ∨ t.driveCwd d = chars "/") : Produced t

variable {disks disks' : Disks} {outSize size : ℕ} {input out cwd path token name p rest : Text} {drive : Option Drive} {d : Drive}
  {generic : Bool} {s t : Drives} {parts r : List Text} {c : UInt8}

/-! ### Components and texts -/

theorem tokensLoop_eq (path : Text) : tokensLoop path [] = fields isSep path :=
  fields_of_loop (fun _ => rfl) (fun _ _ _ => rfl) path [] nofun

theorem isSep_slash : isSep ('/' : UInt8) = true := by decide

theorem pathText_cons (name : Text) (parts : List Text) : pathText (name :: parts) = (name :: parts).flatMap (('/' : UInt8) :: ·) := by
  induction parts generalizing name with
  | nil => simp [pathText, chars]
  | cons other parts ih =>
    rw [List.flatMap_cons, ← ih other]
    simp [pathText, chars, List.intercalate]

theorem fields_pathText (h : ∀ name ∈ parts, Plain name) : fields isSep (pathText parts) = parts := by
  cases parts with
  | nil => exact fields_cons_sep isSep_slash
  | cons name parts =>
    rw [pathText_cons]
    exact fields_flatMap_cons isSep_slash fun name hname => ⟨(h name hname).ne_nil, (h name hname).no_sep⟩

theorem normalise_parts (h : ∀ name ∈ parts, Plain name) : normalise here up parts = parts :=
  normalise_plain fun name hname => ⟨(h name hname).ne_here, (h name hname).ne_up⟩

/-- The components of a normal form are those of a path in normal form. -/
theorem plain_normalise (hshort : ∀ name ∈ fields isSep path, name.length < 16) :
    ∀ name ∈ normalise here up (fields isSep path), Plain name := by
  intro name hname
  obtain ⟨hmem, hhere, hup⟩ := mem_normalise hname
  obtain ⟨hne, hsep⟩ := of_mem_fields hmem
  exact ⟨hne, hsep, hhere, hup, hshort name hmem⟩

/-! ### Bounds -/

theorem pushToken_iff (parts : List Text) (token : Text) (r : List Text) (hparts : parts.length ≤ MAX_DEPTH) :
    pushToken parts token = some r ↔ (token.length < 16 ∧ (walk here up parts token).length ≤ MAX_DEPTH) ∧ r = walk here up parts token := by
  have hdrop : parts.dropLast.length ≤ MAX_DEPTH := by
    rw [List.length_dropLast]
    omega
  unfold pushToken walk appendComponent
  by_cases hlong : 16 ≤ token.length
  · simp [hlong]
  have hshort : token.length < 16 := by omega
  rw [if_neg hlong]
  split_ifs with hhere hup hfull
  · simpa [hshort, hparts] using eq_comm
  · rw [Option.some_inj]
    exact ⟨fun h => ⟨⟨hshort, hdrop⟩, h.symm⟩, fun h => h.2.symm⟩
  · have hmax : MAX_DEPTH ≤ parts.length := hfull.resolve_right hlong
    simp
    omega
  · have hroom : parts.length + 1 ≤ MAX_DEPTH := by omega
    simpa [hshort, hroom] using eq_comm

theorem foldlM_pushToken (tokens : List Text) : tokens.foldlM pushToken [] = some r ↔
    ((∀ token ∈ tokens, token.length < 16) ∧ ∀ k, (normalise here up (tokens.take k)).length ≤ MAX_DEPTH) ∧ r = normalise here up tokens :=
  foldlM_bounded pushToken_iff (Nat.zero_le _)

theorem pushFromPath_eq (parts : List Text) (path : Text) : pushFromPath parts path = (fields isSep path).foldlM pushToken parts := by
  rw [pushFromPath, tokensLoop_eq]

theorem buildPathFromParts_iff : buildPathFromParts parts outSize = some out ↔ (pathText parts).length < outSize ∧ out = pathText parts := by
  have hone : (chars "/").length = 1 := rfl
  have hlen : (pathText parts).length = 1 + ((chars "/").intercalate parts).length := by rw [pathText, List.length_append, hone]
  unfold buildPathFromParts
  split_ifs with hsmall
  · simp
    omega
  have hput : ∀ (b : Text) (a : UInt8) (r : Text), b.length < outSize →
      (putChar outSize b a = some r ↔ (True ∧ (b ++ [a]).length < outSize) ∧ r = b ++ [a]) := by
    intro b a r _
    rw [putChar, List.length_append, List.length_singleton]
    split_ifs with hfull
    · simp
      omega
    · simpa [Nat.lt_of_not_le hfull] using eq_comm
  have hfold : ∀ l : Text, l.foldl (fun b a => b ++ [a]) (chars "/") = chars "/" ++ l := by
    intro l
    induction l using List.reverseRecOn with
    | nil => rfl
    | append_singleton l a ih => rw [List.foldl_append, ih, List.foldl_cons, List.foldl_nil, List.append_assoc]
  have hrun := @foldlM_bounded UInt8 Text (fun b a => b ++ [a]) (putChar outSize) (fun b => b.length < outSize) (fun _ => True)
    (chars "/") out ((chars "/").intercalate parts) hput (by rw [hone]; omega)
  rw [hrun, hfold, ← pathText]
  refine and_congr_left fun _ => ⟨fun h => ?_, fun h => ⟨fun _ _ => trivial, fun k => ?_⟩⟩
  · have hall := h.2 ((chars "/").intercalate parts).length
    rwa [List.take_length, hfold, ← pathText] at hall
  · rw [hfold, List.length_append, List.length_take, hone]
    omega

/-! ### Drives -/

theorem mountDriveNow_apply (disks : Disks) (d : Drive) (generic : Bool) (s : Drives) :
    mountDriveNow disks d generic s =
      if disks.present d then
        if s.on d then (.ok (), s.prefer generic)
        else if disks.mounts d then (.ok (), enter d generic { s.leave with isMounted := true })
        else (.fail, { s.leave with isMounted := false })
      else (.fail, s) := by
  unfold mountDriveNow mount Exec.require
  cases hpresent : disks.present d <;> cases hon : s.on d <;> cases hmounts : disks.mounts d <;> simp [bind_apply, hon]

theorem mountDriveNow_ok_iff : (∃ t, mountDriveNow disks d generic s = (.ok (), t)) ↔ Mountable disks s d := by
  rw [mountDriveNow_apply, Mountable]
  cases disks.present d <;> cases s.on d <;> cases disks.mounts d <;> simp

theorem on_iff : s.on d = true ↔ s.mountedDrive = some d ∧ s.isMounted = true := by simp [on]

@[simp] theorem isMounted_prefer (s : Drives) (generic : Bool) : (s.prefer generic).isMounted = s.isMounted := by
  unfold prefer
  split_ifs <;> rfl

@[simp] theorem mountedDrive_prefer (s : Drives) (generic : Bool) : (s.prefer generic).mountedDrive = s.mountedDrive := by
  unfold prefer
  split_ifs <;> rfl

theorem mountDriveNow_ok (h : mountDriveNow disks d generic s = (.ok (), t)) : t.isMounted = true ∧ t.mountedDrive = some d := by
  rw [mountDriveNow_apply] at h
  split_ifs at h with hpresent hon hmounts
  · obtain rfl := (Prod.mk.inj h).2
    rw [isMounted_prefer, mountedDrive_prefer]
    exact (on_iff.1 hon).symm
  · obtain rfl := (Prod.mk.inj h).2
    exact ⟨isMounted_prefer _ _, rfl⟩
  · exact nomatch (Prod.mk.inj h).1
  · exact nomatch (Prod.mk.inj h).1

theorem selectDrive_ok_iff : (∃ t, selectDrive disks drive s = (.ok (), t)) ↔ Usable disks s drive := by
  cases drive with
  | some d =>
    show (∃ t, (Exec.require (s.registered d = true) >>= fun _ => mountDriveNow disks d true) s = (.ok (), t)) ↔ _
    by_cases hreg : s.registered d = true
    · rw [require_pos hreg, pure_bind_eq, mountDriveNow_ok_iff]
      simp [Usable, hreg]
    · rw [require_neg hreg, fail_bind_eq]
      simp [Usable, hreg]
  | none =>
    rw [selectDrive, Usable, bind_ok (gets_apply _ _)]
    cases stale s with
    | some d => exact mountDriveNow_ok_iff
    | none =>
      show (∃ t, (Exec.gets Drives.isMounted >>= fun on => if on = true then _ else _) s = (.ok (), t)) ↔ _
      rw [bind_ok (gets_apply _ _)]
      by_cases hmounted : s.isMounted = true
      · simp [hmounted]
      · rw [if_neg hmounted]
        show (∃ t, (Exec.gets fallback >>= fun o => Exec.ofOption o >>= fun d => mountDriveNow disks d true) s = (.ok (), t)) ↔ _
        rw [bind_ok (gets_apply _ _)]
        cases fallback s with
        | none => simp [hmounted]
        | some d =>
          rw [ofOption_some, pure_bind_eq, mountDriveNow_ok_iff]
          simp [hmounted]

/-- Whatever drive was asked for, a volume is mounted then, and it is that of the drive. -/
theorem selectDrive_ok (h : selectDrive disks drive s = (.ok (), t)) : t.isMounted = true ∧ ∀ d, drive = some d → t.mountedDrive = some d := by
  cases drive with
  | some d =>
    rw [selectDrive, bind_ok (gets_apply _ _)] at h
    obtain ⟨_, s', -, hmount⟩ := bind_ok_iff.1 h
    obtain ⟨hmounted, hdrive⟩ := mountDriveNow_ok hmount
    refine ⟨hmounted, fun d' hd' => ?_⟩
    rw [hdrive, hd']
  | none =>
    refine ⟨?_, nofun⟩
    rw [selectDrive, bind_ok (gets_apply _ _)] at h
    cases hstale : stale s with
    | some d =>
      rw [hstale] at h
      exact (mountDriveNow_ok h).1
    | none =>
      rw [hstale] at h
      dsimp only at h
      rw [bind_ok (gets_apply _ _)] at h
      by_cases hmounted : s.isMounted = true
      · rw [if_pos hmounted] at h
        obtain rfl := (Prod.mk.inj h).2
        exact hmounted
      · rw [if_neg hmounted, bind_ok (gets_apply _ _)] at h
        obtain ⟨d, s', -, hmount⟩ := bind_ok_iff.1 h
        exact (mountDriveNow_ok hmount).1

/-! ### Directories -/

/-- What a directory buffer holds. -/
def Directory (path : Text) : Prop := IsPath path ∧ path.length < 128

structure Sound (s : Drives) : Prop where
  cwd : Directory s.cwd
  driveCwd : ∀ d, Directory (s.driveCwd d)

theorem directory_root : Directory (chars "/") := ⟨⟨[], nofun, Nat.zero_le _, rfl⟩, by decide⟩

theorem Directory.take (h : Directory path) : path.take 127 = path := List.take_of_length_le (Nat.le_of_lt_succ h.2)

theorem directory_update {f : Drive → Text} (hf : ∀ d, Directory (f d)) (hpath : Directory path) (old d : Drive) :
    Directory (Function.update f old path d) := by
  by_cases hd : d = old
  · rw [hd, Function.update_self]
    exact hpath
  · rw [Function.update_of_ne hd]
    exact hf d

namespace Sound

theorem prefer (h : Sound s) (generic : Bool) : Sound (s.prefer generic) := by
  unfold Drives.prefer
  split_ifs
  · exact ⟨h.cwd, h.driveCwd⟩
  · exact h

theorem leave (h : Sound s) : Sound s.leave := by
  unfold Drives.leave
  cases s.mountedDrive with
  | none => exact h
  | some old =>
    dsimp only
    split_ifs
    · rw [h.cwd.take]
      exact ⟨h.cwd, directory_update h.driveCwd h.cwd old⟩
    · exact h

theorem enter (h : Sound s) (d : Drive) (generic : Bool) : Sound (enter d generic s) := by
  have hdir : Directory (if s.driveCwd d = [] then chars "/" else s.driveCwd d) := by
    split_ifs
    · exact directory_root
    · exact h.driveCwd d
  refine ⟨?_, fun d' => directory_update h.driveCwd hdir d d'⟩
  show Directory ((if s.driveCwd d = [] then chars "/" else s.driveCwd d).take 127)
  rwa [hdir.take]

theorem mountDriveNow (h : Sound s) (disks : Disks) (d : Drive) (generic : Bool) : Sound (mountDriveNow disks d generic s).2 := by
  have hleft : ∀ b, Sound { s.leave with isMounted := b } := fun _ => ⟨h.leave.cwd, h.leave.driveCwd⟩
  rw [mountDriveNow_apply]
  split_ifs
  · exact h.prefer generic
  · exact (hleft true).enter d generic
  · exact hleft false
  · exact h

end Sound

/-- The moves that leave the directories in order. -/
def InOrder (s t : Drives) : Prop := Sound s → Sound t

theorem Sound.leads {α : Type} {m : Exec Drives α} (hm : Walks InOrder m) (h : Sound s) : Sound (m s).2 := by
  have hleads : Relation.ReflTransGen InOrder s (m s).2 := hm s
  generalize (m s).2 = t at hleads
  induction hleads with
  | refl => exact h
  | tail _ hmove ih => exact hmove ih

theorem walks_mountDriveNow : Walks InOrder (mountDriveNow disks d generic) := fun _ => .single fun h => h.mountDriveNow disks d generic

theorem walks_require {q : Prop} [Decidable q] : Walks InOrder (Exec.require q) := by
  by_cases hq : q
  · rw [require_pos hq]
    exact .pure
  · rw [require_neg hq]
    exact .fail

theorem walks_selectDrive : Walks InOrder (selectDrive disks drive) := by
  cases drive with
  | some d => exact .read_bind fun _ => walks_require.bind fun _ => walks_mountDriveNow
  | none =>
    refine .read_bind fun o => ?_
    cases o with
    | some d => exact walks_mountDriveNow
    | none =>
      refine .read_bind fun mounted => ?_
      cases mounted with
      | true => exact .pure
      | false => exact .read_bind fun o => .ofOption_bind fun d _ => walks_mountDriveNow

theorem walks_resolvePath : Walks InOrder (resolvePath disks outSize input) := by
  refine .ofOption_bind fun x _ => walks_selectDrive.bind fun _ => .read_bind fun cwd => ?_
  cases resolvedText cwd x.1 input x.2 outSize with
  | none => exact .fail
  | some out => exact .pure

/-! ### Prefixes -/

theorem fields_dropSep (p : Text) : fields isSep (dropSep p) = fields isSep p := by
  cases p with
  | nil => rfl
  | cons c p =>
    rw [dropSep]
    split_ifs with hc
    · exact (fields_cons_sep hc).symm
    · rfl

theorem fields_name (hname : ∀ x ∈ name, isSep x = false) (hne : name ≠ []) (hp : ∀ x ∈ p.head?, isSep x = true) :
    fields isSep (name ++ p) = name :: fields isSep p := by
  cases p with
  | nil => rw [List.append_nil, fields_of_forall_not hname hne, fields_nil]
  | cons c p =>
    have hc : isSep c = true := hp c rfl
    rw [fields_field_append hname hne hc, fields_cons_sep hc]

theorem takeWhile_name (hname : ∀ x ∈ name, isSep x = false) (hp : ∀ x ∈ p.head?, isSep x = true) :
    (name ++ p).takeWhile (fun x => !isSep x) = name ∧ (name ++ p).dropWhile (fun x => !isSep x) = p := by
  have hpos : ∀ x ∈ name, (!isSep x) = true := by
    intro x hx
    rw [hname x hx]
    rfl
  rw [List.takeWhile_append_of_pos hpos, List.dropWhile_append_of_pos hpos]
  cases p with
  | nil => simp
  | cons c p =>
    have hc : isSep c = true := hp c rfl
    simp [hc]

theorem first_token (q : Text) :
    (∀ x ∈ q.takeWhile fun x => !isSep x, isSep x = false) ∧ ∀ x ∈ (q.dropWhile fun x => !isSep x).head?, isSep x = true := by
  refine ⟨fun x hx => by simpa using List.mem_takeWhile_imp hx, fun x hx => ?_⟩
  have hhead := List.head?_dropWhile_not (fun x => !isSep x) q
  rw [Option.mem_def.1 hx] at hhead
  simpa using hhead

theorem parse_length (h : parseMountTargetDrive token = some d) : token.length < 16 := by
  by_contra hlong
  rw [parseMountTargetDrive, if_pos (by omega)] at h
  exact nomatch h

theorem parse_sep_colon (hc : isSep c = true) : parseMountTargetDrive [c, (':' : UInt8)] = none := by
  rcases of_decide_eq_true hc with rfl | rfl <;> decide

theorem names_of_parse (h : parseDrivePrefixedPath input = some (drive, p)) :
    ¬ Colon input ∧ ∃ rest, Names input drive rest ∧ fields isSep p = fields isSep rest ∧ (drive = none → p = rest) := by
  cases input with
  | nil =>
    obtain ⟨rfl, rfl⟩ := Prod.mk.inj (Option.some.inj h)
    exact ⟨(fun hcolon => nomatch hcolon.1), [], .relative rfl nofun, rfl, fun _ => rfl⟩
  | cons c q =>
    rw [parseDrivePrefixedPath] at h
    by_cases hcolon : q.head? = some (':' : UInt8)
    · rw [if_pos hcolon] at h
      obtain ⟨q, rfl⟩ := List.head?_eq_some_iff.1 hcolon
      obtain ⟨d, hd, hr⟩ := Option.bind_eq_some_iff.1 h
      obtain ⟨rfl, rfl⟩ := Prod.mk.inj (Option.some.inj hr)
      have hc : isSep c = false := by
        by_contra hsep
        rw [parse_sep_colon (by simpa using hsep)] at hd
        exact nomatch hd
      exact ⟨fun h => by simp [Colon, hc] at h, q, .letter hc hd, fields_dropSep q, nofun⟩
    · rw [if_neg hcolon] at h
      refine ⟨fun h => hcolon h.2, ?_⟩
      by_cases hsep : isSep c = true
      · rw [if_pos hsep] at h
        dsimp only at h
        split_ifs at h with hlong hnil
        · obtain ⟨rfl, rfl⟩ := Prod.mk.inj (Option.some.inj h)
          exact ⟨c :: q, .absolute hsep (by rw [hnil]; rfl), rfl, fun _ => rfl⟩
        · cases hparse : parseMountTargetDrive (q.takeWhile fun x => !isSep x) with
          | none =>
            rw [hparse] at h
            obtain ⟨rfl, rfl⟩ := Prod.mk.inj (Option.some.inj h)
            exact ⟨c :: q, .absolute hsep hparse, rfl, fun _ => rfl⟩
          | some d =>
            rw [hparse] at h
            obtain ⟨rfl, rfl⟩ := Prod.mk.inj (Option.some.inj h)
            obtain ⟨hname, hp⟩ := first_token q
            have hnames := @Names.component c _ _ d hsep hname hp hparse
            rw [List.takeWhile_append_dropWhile] at hnames
            exact ⟨_, hnames, fields_dropSep _, nofun⟩
      · rw [if_neg hsep] at h
        obtain ⟨rfl, rfl⟩ := Prod.mk.inj (Option.some.inj h)
        exact ⟨c :: q, .relative (by simpa using hsep) hcolon, rfl, fun _ => rfl⟩

theorem parse_of_names (h : Names input drive rest) (hcolon : ¬ Colon input) (hshort : ∀ name ∈ fields isSep rest, name.length < 16) :
    ∃ p, parseDrivePrefixedPath input = some (drive, p) ∧ fields isSep p = fields isSep rest ∧ (drive = none → p = rest) := by
  cases h with
  | letter hc hdrive =>
    refine ⟨dropSep rest, ?_, fields_dropSep rest, nofun⟩
    rw [parseDrivePrefixedPath, if_pos List.head?_cons, hdrive]
    rfl
  | @component c name _ d hc hname hp hdrive =>
    have hq : (name ++ rest).head? ≠ some (':' : UInt8) := fun h => hcolon ⟨by simpa using hc, h⟩
    obtain ⟨htake, hdrop⟩ := takeWhile_name hname hp
    have hlen : ¬ 16 ≤ name.length := Nat.not_le.2 (parse_length hdrive)
    have hne : name ≠ [] := by
      rintro rfl
      exact nomatch hdrive
    refine ⟨dropSep rest, ?_, fields_dropSep rest, nofun⟩
    rw [parseDrivePrefixedPath, if_neg hq, if_pos hc]
    simp only [htake, hdrop]
    rw [if_neg hlen, if_neg hne, hdrive]
  | @absolute c q hc hname =>
    have hq : q.head? ≠ some (':' : UInt8) := fun h => hcolon ⟨by simpa using hc, h⟩
    have hlen : ¬ 16 ≤ (q.takeWhile fun x => !isSep x).length := by
      by_cases hnil : (q.takeWhile fun x => !isSep x) = []
      · rw [hnil]
        decide
      · refine Nat.not_le.2 (hshort _ ?_)
        obtain ⟨hfirst, hrest⟩ := first_token q
        have hfields := fields_name hfirst hnil hrest
        rw [List.takeWhile_append_dropWhile] at hfields
        rw [fields_cons_sep hc, hfields]
        exact List.mem_cons_self
    refine ⟨c :: q, ?_, rfl, fun _ => rfl⟩
    rw [parseDrivePrefixedPath, if_neg hq, if_pos hc]
    dsimp only
    rw [if_neg hlen, hname]
    split_ifs <;> rfl
  | relative hp hcolon' =>
    cases input with
    | nil => exact ⟨[], rfl, rfl, fun _ => rfl⟩
    | cons c q =>
      have hq : q.head? ≠ some (':' : UInt8) := hcolon'
      refine ⟨c :: q, ?_, rfl, fun _ => rfl⟩
      rw [parseDrivePrefixedPath, if_neg hq, if_neg (by simpa using hp)]

/-! ### Results -/

theorem fields_meant (cwd : Text) (drive : Option Drive) (rest : Text) : fields isSep (meant cwd drive rest) =
      (if drive = none ∧ rest.head?.any isSep = false then fields isSep cwd else []) ++ fields isSep rest := by
  unfold meant
  split_ifs
  · rw [fields_append_cons isSep_slash]
  · rw [List.nil_append]

theorem resolvedText_nil (hcwd : IsPath cwd) :
    resolvedText cwd none [] [] outSize = some out ↔ Fits outSize cwd none [] ∧ out = pathText (normalForm cwd none []) := by
  obtain ⟨parts, hparts, hdepth, rfl⟩ := hcwd
  have hfields : fields isSep (meant (pathText parts) none []) = parts := by
    rw [fields_meant, if_pos ⟨rfl, rfl⟩, fields_nil, List.append_nil, fields_pathText hparts]
  have hnormal : normalForm (pathText parts) none [] = parts := by rw [normalForm, hfields, normalise_parts hparts]
  rw [resolvedText, if_pos rfl]
  split_ifs with hsmall
  · refine ⟨nofun, fun h => ?_⟩
    have hroom := h.1.room
    rw [hnormal] at hroom
    omega
  · rw [hnormal, Option.some_inj]
    refine ⟨fun h => ⟨⟨?_, fun k => ?_, ?_⟩, h.symm⟩, fun h => h.2.symm⟩
    · rw [hfields]
      exact fun name hname => (hparts name hname).short
    · rw [hfields, normalise_parts fun name hname => hparts name (List.mem_of_mem_take hname), List.length_take]
      omega
    · rw [hnormal]
      omega

theorem resolvedText_iff (hinput : input ≠ []) (hfields : fields isSep p = fields isSep rest) (hp : drive = none → p = rest) :
    resolvedText cwd drive input p outSize = some out ↔ Fits outSize cwd drive rest ∧ out = pathText (normalForm cwd drive rest) := by
  have hpush : ((if drive = none ∧ p.head?.any isSep = false then pushFromPath [] cwd else some []) >>= fun parts => pushFromPath parts p) =
      (fields isSep (meant cwd drive rest)).foldlM pushToken [] := by
    rw [fields_meant, List.foldlM_append]
    simp only [pushFromPath_eq, hfields]
    by_cases hdrive : drive = none
    · rw [hp hdrive]
      split_ifs <;> rfl
    · rw [if_neg fun h => hdrive h.1, if_neg fun h => hdrive h.1]
      rfl
  have hrun : resolvedText cwd drive input p outSize =
      (fields isSep (meant cwd drive rest)).foldlM pushToken [] >>= fun parts => buildPathFromParts parts outSize := by
    rw [resolvedText, if_neg hinput, ← hpush]
    dsimp only
    split_ifs
    · rw [bind_assoc]
    · rfl
  rw [hrun, Option.bind_eq_bind, Option.bind_eq_some_iff]
  constructor
  · rintro ⟨r, hr, hout⟩
    obtain ⟨⟨hshort, hshallow⟩, rfl⟩ := (foldlM_pushToken _).1 hr
    obtain ⟨hroom, rfl⟩ := buildPathFromParts_iff.1 hout
    exact ⟨⟨hshort, hshallow, hroom⟩, rfl⟩
  · rintro ⟨hfits, rfl⟩
    exact ⟨_, (foldlM_pushToken _).2 ⟨⟨hfits.short, hfits.shallow⟩, rfl⟩, buildPathFromParts_iff.2 ⟨hfits.room, rfl⟩⟩

theorem resolvePath_eq_ok : resolvePath disks outSize input s = (.ok out, t) ↔
    ∃ drive p, parseDrivePrefixedPath input = some (drive, p) ∧ selectDrive disks drive s = (.ok (), t) ∧
      resolvedText t.cwd drive input p outSize = some out := by
  constructor
  · intro h
    obtain ⟨⟨drive, p⟩, s₁, hprefix, hselected⟩ := bind_ok_iff.1 h
    obtain ⟨hparse, rfl⟩ := ofOption_ok_iff.1 hprefix
    obtain ⟨_, s₂, hselect, hread⟩ := bind_ok_iff.1 hselected
    rw [bind_ok (gets_apply _ _)] at hread
    obtain ⟨htext, rfl⟩ := ofOption_ok_iff.1 hread
    exact ⟨drive, p, hparse, hselect, htext⟩
  · rintro ⟨drive, p, hparse, hselect, htext⟩
    unfold resolvePath
    rw [hparse, ofOption_some, pure_bind_eq]
    show (selectDrive disks drive >>= fun _ => _) s = _
    rw [bind_ok hselect, bind_ok (gets_apply _ _), htext]
    rfl

/-- Resolution succeeds when the input is read, the drive is selected and nothing is too long. -/
theorem resolvePath_ok_iff (h : Sound s) : resolvePath disks outSize input s = (.ok out, t) ↔
    ¬ Colon input ∧ ∃ drive rest, Names input drive rest ∧ selectDrive disks drive s = (.ok (), t) ∧
      Fits outSize t.cwd drive rest ∧ out = pathText (normalForm t.cwd drive rest) := by
  have hdir : ∀ drive, selectDrive disks drive s = (.ok (), t) → IsPath t.cwd := by
    intro drive hselect
    have hsound := h.leads (@walks_selectDrive disks drive)
    rw [hselect] at hsound
    exact hsound.cwd.1
  have htext : ∀ drive p rest, parseDrivePrefixedPath input = some (drive, p) → selectDrive disks drive s = (.ok (), t) →
      fields isSep p = fields isSep rest → (drive = none → p = rest) →
      (resolvedText t.cwd drive input p outSize = some out ↔ Fits outSize t.cwd drive rest ∧ out = pathText (normalForm t.cwd drive rest)) := by
    intro drive p rest hparse hselect hfields hp
    by_cases hinput : input = []
    · subst hinput
      obtain ⟨rfl, rfl⟩ := Prod.mk.inj (Option.some.inj hparse)
      rw [← hp rfl]
      exact resolvedText_nil (hdir none hselect)
    · exact resolvedText_iff hinput hfields hp
  rw [resolvePath_eq_ok]
  constructor
  · rintro ⟨drive, p, hparse, hselect, hout⟩
    obtain ⟨hcolon, rest, hnames, hfields, hp⟩ := names_of_parse hparse
    exact ⟨hcolon, drive, rest, hnames, hselect, (htext drive p rest hparse hselect hfields hp).1 hout⟩
  · rintro ⟨hcolon, drive, rest, hnames, hselect, hfits, rfl⟩
    have hshort : ∀ name ∈ fields isSep rest, name.length < 16 := by
      intro name hname
      refine hfits.short name ?_
      rw [fields_meant]
      exact List.mem_append_right _ hname
    obtain ⟨p, hparse, hfields, hp⟩ := parse_of_names hnames hcolon hshort
    exact ⟨drive, p, hparse, hselect, (htext drive p rest hparse hselect hfields hp).2 ⟨hfits, rfl⟩⟩

theorem Fits.isPath (h : Fits outSize cwd drive rest) : IsPath (pathText (normalForm cwd drive rest)) := by
  refine ⟨_, plain_normalise h.short, ?_, rfl⟩
  have hall := h.shallow (fields isSep (meant cwd drive rest)).length
  rwa [List.take_length] at hall

theorem Produced.sound (h : Produced s) : Sound s := by
  induction h with
  | boot => exact ⟨directory_root, fun _ => directory_root⟩
  | mounted _ ih => exact ih.leads walks_mountDriveNow
  | resolved _ ih => exact ih.leads walks_resolvePath
  | @changed s t disks input out _ hrun ih =>
    have ht := ih.leads (@walks_resolvePath disks 128 input)
    rw [hrun] at ht
    obtain ⟨-, drive, rest, -, -, hfits, rfl⟩ := (resolvePath_ok_iff ih).1 hrun
    have hdir : Directory (pathText (normalForm t.cwd drive rest)) := ⟨hfits.isPath, hfits.room⟩
    unfold changeTo
    rw [hdir.take]
    refine ⟨hdir, fun d => ?_⟩
    show Directory ((match t.mountedDrive with
      | some d => Function.update t.driveCwd d (pathText (normalForm t.cwd drive rest))
      | none => t.driveCwd) d)
    cases t.mountedDrive with
    | none => exact ht.driveCwd d
    | some old => exact directory_update ht.driveCwd hdir old d
  | other _ hcwd hdrives ih =>
    refine ⟨?_, fun d => ?_⟩
    · rcases hcwd with hcwd | hcwd <;> rw [hcwd]
      · exact ih.cwd
      · exact directory_root
    · rcases hdrives d with hd | hd <;> rw [hd]
      · exact ih.driveCwd d
      · exact directory_root

/-! ### Resolving again -/

theorem pathText_tail (first : Text) (parts : List Text) :
    pathText (first :: parts) = ('/' : UInt8) :: (first ++ parts.flatMap (('/' : UInt8) :: ·)) := by
  rw [pathText_cons, List.flatMap_cons]
  rfl

theorem head?_flatMap (parts : List Text) : ∀ x ∈ (parts.flatMap (('/' : UInt8) :: ·)).head?, isSep x = true := by
  cases parts with
  | nil => nofun
  | cons name parts =>
    intro x hx
    obtain rfl : ('/' : UInt8) = x := Option.some.inj hx
    exact isSep_slash

theorem takeWhile_first (hfirst : Plain name) (parts : List Text) :
    (name ++ parts.flatMap (('/' : UInt8) :: ·)).takeWhile (fun x => !isSep x) = name :=
  (takeWhile_name hfirst.no_sep (head?_flatMap parts)).1

/-- A path that resolves to itself begins with no drive and no colon. -/
theorem first_of_again (h : Sound s) (hparts : ∀ name ∈ parts, Plain name)
    (hrun : resolvePath disks size (pathText parts) s = (.ok (pathText parts), t)) :
    ∀ first ∈ parts.head?, parseMountTargetDrive first = none ∧ first.head? ≠ some (':' : UInt8) := by
  cases parts with
  | nil => nofun
  | cons first parts =>
    intro first' hfirst'
    obtain rfl : first = first' := Option.some.inj hfirst'
    have hfirst : Plain first := hparts first List.mem_cons_self
    obtain ⟨hcolon, drive, rest, hnames, -, hfits, hout⟩ := (resolvePath_ok_iff h).1 hrun
    have hwhile := takeWhile_first hfirst parts
    constructor
    · have hfields := fields_pathText hparts
      rw [pathText_tail] at hnames hfields
      generalize first ++ parts.flatMap (('/' : UInt8) :: ·) = q at hnames hfields hwhile
      cases hnames with
      | letter hc hdrive => exact nomatch isSep_slash.symm.trans hc
      | @component _ name p d hc hname hp hdrive =>
        obtain rfl : name = first := (takeWhile_name hname hp).1.symm.trans hwhile
        rw [fields_cons_sep isSep_slash, fields_name hname hfirst.ne_nil hp, List.cons.injEq] at hfields
        have hnormal : normalForm t.cwd (some d) rest = parts := by
          rw [normalForm, meant, if_neg nofun, hfields.2, normalise_parts fun name hname => hparts name (List.mem_cons_of_mem _ hname)]
        rw [hnormal] at hout
        have hsame := congrArg (fields isSep) hout
        rw [fields_pathText hparts, fields_pathText fun name hname => hparts name (List.mem_cons_of_mem _ hname)] at hsame
        exact absurd hsame (List.cons_ne_self _ _)
      | absolute hc hname => rwa [hwhile] at hname
      | relative hp hcolon' => exact nomatch isSep_slash.symm.trans hp
    · intro hhead
      refine hcolon ⟨?_, ?_⟩
      · rw [pathText_tail]
        exact isSep_slash
      · rw [pathText_tail, List.tail_cons, List.head?_append_of_ne_nil _ hfirst.ne_nil, hhead]

theorem resolvePath_again (h : Sound s) (hmounted : s.isMounted = true) (hactive : s.activeDrive = s.mountedDrive)
    (hparts : ∀ name ∈ parts, Plain name) (hdepth : parts.length ≤ MAX_DEPTH) (hroom : (pathText parts).length < size)
    (hfirst : ∀ first ∈ parts.head?, parseMountTargetDrive first = none ∧ first.head? ≠ some (':' : UInt8)) :
    resolvePath disks size (pathText parts) s = (.ok (pathText parts), s) := by
  have hselect : selectDrive disks none s = (.ok (), s) := by
    have hstale : stale s = none := by
      rw [stale, hactive]
      cases hdrive : s.mountedDrive with
      | none => rfl
      | some d =>
        have hon : s.on d = true := on_iff.2 ⟨hdrive, hmounted⟩
        simp [hon]
    rw [selectDrive, bind_ok (gets_apply _ _), hstale]
    show (Exec.gets Drives.isMounted >>= fun on => if on = true then _ else _) s = _
    rw [bind_ok (gets_apply _ _), if_pos hmounted]
    rfl
  have hhead : (pathText parts).head?.any isSep = true := isSep_slash
  have hmeant : meant s.cwd none (pathText parts) = pathText parts := if_neg fun h => by
    rw [hhead] at h
    exact nomatch h.2
  have hnormal : normalForm s.cwd none (pathText parts) = parts := by
    rw [normalForm, hmeant, fields_pathText hparts, normalise_parts hparts]
  have hread : ¬ Colon (pathText parts) ∧ Names (pathText parts) none (pathText parts) := by
    cases parts with
    | nil => exact ⟨(fun h => nomatch h.2), .absolute isSep_slash rfl⟩
    | cons first parts =>
      have hplain : Plain first := hparts first List.mem_cons_self
      obtain ⟨hdrive, hcolon⟩ := hfirst first rfl
      rw [pathText_tail]
      refine ⟨fun h => hcolon ?_, .absolute isSep_slash ?_⟩
      · have htail := h.2
        rwa [List.tail_cons, List.head?_append_of_ne_nil _ hplain.ne_nil] at htail
      · rw [takeWhile_first hplain, hdrive]
  refine (resolvePath_ok_iff h).2 ⟨hread.1, none, _, hread.2, hselect, ⟨?_, fun k => ?_, ?_⟩, by rw [hnormal]⟩
  · rw [hmeant, fields_pathText hparts]
    exact fun name hname => (hparts name hname).short
  · rw [hmeant, fields_pathText hparts, normalise_parts fun name hname => hparts name (List.mem_of_mem_take hname), List.length_take]
    omega
  · rwa [hnormal]

/-- Resolution is right just where the input and its result are not mistaken for something else. -/
theorem resolves_iff (h : Produced s) : Resolves disks outSize input s ↔ Unambiguous disks outSize input s := by
  have hsound := h.sound
  constructor
  · intro hres drive rest hnames husable hfits
    obtain ⟨out, t, hrun⟩ := hres.succeeds.2 ⟨drive, rest, hnames, husable, hfits⟩
    have hcolon := ((resolvePath_ok_iff hsound).1 hrun).1
    obtain ⟨t, hselect⟩ := selectDrive_ok_iff.2 husable
    have ht := hsound.leads (@walks_selectDrive disks drive)
    rw [hselect] at ht
    rw [directory, hselect] at hfits ⊢
    dsimp only at hfits ⊢
    have hrun := (resolvePath_ok_iff hsound).2 ⟨hcolon, drive, rest, hnames, hselect, hfits, rfl⟩
    obtain ⟨t', hagain, -⟩ := hres.again _ t disks _ hrun (Nat.lt_succ_self _)
    have ht' : Sound { t with activeDrive := t.mountedDrive } := ⟨ht.cwd, ht.driveCwd⟩
    exact ⟨hcolon, first_of_again ht' (plain_normalise hfits.short) hagain⟩
  · intro hun
    have hspec : ∀ out t, resolvePath disks outSize input s = (.ok out, t) → Sound t ∧ t.isMounted = true ∧ ∃ drive rest,
        Names input drive rest ∧ (∀ d, drive = some d → t.mountedDrive = some d) ∧ Fits outSize t.cwd drive rest ∧
        out = pathText (normalForm t.cwd drive rest) ∧
        ∀ first ∈ (normalForm t.cwd drive rest).head?, parseMountTargetDrive first = none ∧ first.head? ≠ some (':' : UInt8) := by
      intro out t hrun
      obtain ⟨-, drive, rest, hnames, hselect, hfits, rfl⟩ := (resolvePath_ok_iff hsound).1 hrun
      have ht := hsound.leads (@walks_selectDrive disks drive)
      rw [hselect] at ht
      obtain ⟨hmounted, hdrive⟩ := selectDrive_ok hselect
      have hfirst := hun drive rest hnames (selectDrive_ok_iff.1 ⟨t, hselect⟩)
      rw [directory, hselect] at hfirst
      exact ⟨ht, hmounted, drive, rest, hnames, hdrive, hfits, rfl, (hfirst hfits).2⟩
    refine ⟨⟨?_, ?_⟩, ?_, ?_, ?_⟩
    · rintro ⟨out, t, hrun⟩
      obtain ⟨-, drive, rest, hnames, hselect, hfits, -⟩ := (resolvePath_ok_iff hsound).1 hrun
      refine ⟨drive, rest, hnames, selectDrive_ok_iff.1 ⟨t, hselect⟩, ?_⟩
      rwa [directory, hselect]
    · rintro ⟨drive, rest, hnames, husable, hfits⟩
      obtain ⟨hcolon, -⟩ := hun drive rest hnames husable hfits
      obtain ⟨t, hselect⟩ := selectDrive_ok_iff.2 husable
      rw [directory, hselect] at hfits
      exact ⟨_, t, (resolvePath_ok_iff hsound).2 ⟨hcolon, drive, rest, hnames, hselect, hfits, rfl⟩⟩
    · intro out t hrun
      obtain ⟨-, -, drive, rest, hnames, hdrive, -, hout, -⟩ := hspec out t hrun
      exact ⟨drive, rest, hnames, hdrive, hout⟩
    · intro out t hrun
      obtain ⟨-, -, drive, rest, -, -, hfits, rfl, -⟩ := hspec out t hrun
      exact hfits.isPath
    · intro out t disks' size hrun hsize
      obtain ⟨ht, hmounted, drive, rest, -, -, hfits, rfl, hfirst⟩ := hspec out t hrun
      have hall := hfits.shallow (fields isSep (meant t.cwd drive rest)).length
      rw [List.take_length] at hall
      have hagain := @resolvePath_again disks' size { t with activeDrive := t.mountedDrive } _ ⟨ht.cwd, ht.driveCwd⟩ hmounted rfl
        (plain_normalise hfits.short) hall hsize hfirst
      exact ⟨_, hagain, rfl⟩

/-! ### Runs -/

def allDisks : Disks := ⟨fun _ => true, fun _ => true⟩

/-- Drive 1 is mounted after boot. -/
def mountedOne : Drives := { (mountDriveNow allDisks 1 true booted).2 with registered := fun d => d = 1, activeDrive := some 1 }

theorem produced_mountedOne : Produced mountedOne := (@Produced.mounted booted allDisks 1 true .boot).other (.inl rfl) fun _ => .inl rfl

theorem resolves_plain : Resolves allDisks 128 (chars "docs/../a") mountedOne := by
  refine (resolves_iff produced_mountedOne).2 fun drive rest hnames _ _ => ?_
  have hread : drive = none ∧ rest = chars "docs/../a" := by
    generalize htext : chars "docs/../a" = text at hnames ⊢
    cases hnames with
    | letter hc hdrive =>
      have hsecond : some ('o' : UInt8) = some (':' : UInt8) := congrArg (fun l => l.tail.head?) htext
      exact absurd hsecond (by decide)
    | component hc hname hp hdrive =>
      obtain rfl := (List.cons.inj htext).1
      exact absurd hc (by decide)
    | absolute hc hname =>
      obtain rfl := (List.cons.inj htext).1
      exact absurd hc (by decide)
    | relative hp hcolon => exact ⟨rfl, rfl⟩
  obtain ⟨rfl, rfl⟩ := hread
  refine ⟨fun h => absurd h.1 (by decide), fun first hfirst => ?_⟩
  obtain rfl : chars "a" = first := Option.some.inj (show some (chars "a") = some first from hfirst)
  exact ⟨by decide, by decide⟩

/-- `0` in the root of drive 1 is `/0`, and that is the root of drive 0. -/
theorem not_resolves : Produced mountedOne ∧ ¬ Resolves allDisks 128 (chars "0") mountedOne := by
  refine ⟨produced_mountedOne, fun h => ?_⟩
  have hparts : ∀ name ∈ [chars "0"], Plain name := by
    intro name hname
    obtain rfl := List.mem_singleton.1 hname
    exact ⟨by decide, List.forall_mem_singleton.2 (by decide), by decide, by decide, by decide⟩
  have hrun : resolvePath allDisks 128 (chars "0") mountedOne = (.ok (pathText [chars "0"]), mountedOne) := rfl
  obtain ⟨t', hagain, -⟩ := h.again _ _ allDisks 128 hrun (by decide)
  have hsound : Sound { mountedOne with activeDrive := mountedOne.mountedDrive } :=
    ⟨produced_mountedOne.sound.cwd, produced_mountedOne.sound.driveCwd⟩
  exact absurd (first_of_again hsound hparts hagain (chars "0") rfl).1 (by decide)

end Drives

end Tg11Kernel.Shell
