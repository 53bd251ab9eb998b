import Tg11Kernel.Shell.Storage

/-! The text editor. A file is read into one buffer, and a save writes the buffer as the
whole file. The read takes no more than fits the buffer and reports that as its size, so
the rest of a longer file is neither shown nor written back. -/

namespace Tg11Kernel.Shell

open Lib Exec

def EDITOR_BUFFER_SIZE : ℕ := 4096

theorem editorBuffer_pos : 0 < EDITOR_BUFFER_SIZE := by decide

/-- The `editor_` variables that loading and saving use. -/
structure Editor where
  useFat : Bool
  hexMode : Bool
  targetPath : Path
  buffer : Block EDITOR_BUFFER_SIZE
  length : ℕ
  dirty : Bool

structure Desk (δ : Type) where
  storage : Storage δ
  editor : Editor

namespace Editor

variable {δ : Type}

def onStorage {α : Type} (m : Exec (Storage δ) α) : Exec (Desk δ) α := fun d =>
  let r := m d.storage
  (r.1, { d with storage := r.2 })

def set (f : Editor → Editor) : Exec (Desk δ) Unit := Exec.modify fun d => { d with editor := f d.editor }

/-- In text mode the last byte of the buffer is left for a NUL. -/
def capacity (hexMode : Bool) : ℕ := if hexMode then EDITOR_BUFFER_SIZE else EDITOR_BUFFER_SIZE - 1

/-- The path to save to. `resolve` is `fat_resolve_path`, with `none` where it returns -1; it may
mount the drive that the path names. -/
def setTarget (resolve : Path → Option Path) (useFat : Bool) (path : Path) : Exec (Desk δ) Unit :=
  if useFat then do
    let target ← Exec.ofOption (resolve path)
    set fun e => { e with targetPath := target }
  else set fun e => { e with targetPath := path.take 127 }

section Operations

variable (fs : Fat32.Fat32State δ) (fuel : ℕ)

/-- `editor_open_file`, where `fs` is the volume that is mounted after the path is resolved. A read
that fails leaves an empty buffer. -/
def openFile (resolve : Path → Option Path) (fatModeActive hexMode : Bool) (path : Path) : Exec (Desk δ) Unit := do
  set fun e => { e with useFat := fatModeActive, hexMode := hexMode }
  setTarget resolve fatModeActive path
  set fun e => { e with length := 0, dirty := false }
  let e ← Exec.gets Desk.editor
  match ← (onStorage (Storage.readFile fs fuel e.useFat e.targetPath (capacity hexMode))).attempt with
  | some (size, bytes) => set fun e => { e with buffer := e.buffer.store bytes, length := size }
  | none => pure ()
  if hexMode then pure () else set fun e => { e with buffer := e.buffer.set e.length 0 }

/-- The bytes in the buffer. -/
def text (e : Editor) : List UInt8 := e.buffer.firstBytes e.length

/-- `editor_save` -/
def save : Exec (Desk δ) Unit := do
  let e ← Exec.gets Desk.editor
  onStorage (Storage.writeFile fs fuel e.useFat e.targetPath e.text)
  set fun e => { e with dirty := false }

end Operations

/-- What the keys can do to an open file: any change of the buffer and of its length. -/
structure Edited (e e' : Editor) : Prop where
  useFat : e'.useFat = e.useFat
  targetPath : e'.targetPath = e.targetPath
  length_le : e'.length ≤ EDITOR_BUFFER_SIZE

/-! ### Loading and saving -/

variable {content : δ → ℕ → Fat32.Sector} {dev : Fat32.BlockDevice δ} {fs fs₀ : Fat32.Fat32State δ} {fuel : ℕ} {useFat : Bool}
  {target : Path} {bytes : List UInt8}

/-- A read that the device answers gives the first bytes, and one that it does not answer fails. -/
def Loads (content : δ → ℕ → Fat32.Sector) (fs : Fat32.Fat32State δ) (fuel : ℕ) (useFat : Bool) (w : Storage δ) (path : Path)
    (bytes : List UInt8) (capacity : ℕ) (answered : Bool) : Prop :=
  ∃ w', Storage.readFile fs fuel useFat path capacity w =
      (if answered then .ok (min bytes.length capacity, bytes.take capacity) else .fail, w') ∧ Storage.Same content w w'

theorem loads_of_holds {w : Storage δ} (h : Storage.Holds content fs fuel useFat w target bytes)
    (hs : Storage.InOrder content dev fs fuel useFat w) (capacity : ℕ) : Loads content fs fuel useFat w target bytes capacity true :=
  Storage.readFile_of_holds h hs capacity

/-- The number of bytes that a read delivers at most. -/
def delivered (hexMode answered : Bool) : ℕ := if answered then capacity hexMode else 0

theorem capacity_le (hexMode : Bool) : capacity hexMode ≤ EDITOR_BUFFER_SIZE := by cases hexMode <;> decide

/-- The editor shows the first bytes of the file, as many as were delivered. -/
theorem openFile_run {resolve : Path → Option Path} {path : Path} (hexMode : Bool) {answered : Bool} {d : Desk δ}
    (htarget : if useFat then resolve path = some target else path = target) (hpath : path.length < 128)
    (hload : Loads content fs fuel useFat d.storage target bytes (capacity hexMode) answered) :
    ∃ d₁, openFile fs fuel resolve useFat hexMode path d = (.ok (), d₁) ∧ Storage.Same content d.storage d₁.storage ∧
      d₁.editor.useFat = useFat ∧ d₁.editor.targetPath = target ∧ d₁.editor.length ≤ EDITOR_BUFFER_SIZE ∧
      d₁.editor.text = bytes.take (delivered hexMode answered) := by
  obtain ⟨w, hread, hsame⟩ := hload
  have hset : ∀ d : Desk δ, setTarget resolve useFat path d = (.ok (), { d with editor := { d.editor with targetPath := target } }) := by
    intro d
    cases useFat with
    | false =>
      obtain rfl : path = target := htarget
      rw [setTarget, if_neg (by decide), List.take_of_length_le (by omega)]
      rfl
    | true =>
      have hresolved : resolve path = some target := htarget
      rw [setTarget, if_pos rfl, hresolved]
      rfl
  have hcap := capacity_le hexMode
  let e₀ : Editor := { d.editor with useFat := useFat, hexMode := hexMode, targetPath := target, length := 0, dirty := false }
  have hstart : ∀ (k : Editor → Exec (Desk δ) Unit), (do
      set fun e => { e with useFat := useFat, hexMode := hexMode }
      setTarget resolve useFat path
      set fun e => { e with length := 0, dirty := false }
      let e ← Exec.gets Desk.editor
      k e : Exec (Desk δ) Unit) d = k e₀ { d with editor := e₀ } := by
    intro k
    have hfirst : set (fun e => { e with useFat := useFat, hexMode := hexMode }) d =
        (.ok (), { d with editor := { d.editor with useFat := useFat, hexMode := hexMode } }) := rfl
    rw [bind_ok hfirst, bind_ok (hset _)]
    rfl
  rw [openFile, hstart]
  have hload : onStorage (Storage.readFile fs fuel useFat target (capacity hexMode)) { d with editor := e₀ } =
      (if answered then .ok (min bytes.length (capacity hexMode), bytes.take (capacity hexMode)) else .fail,
        { storage := w, editor := e₀ }) := by
    rw [onStorage, hread]
  have hfinish : ∀ e₁ : Editor, e₁.useFat = useFat → e₁.targetPath = target → e₁.length ≤ capacity hexMode →
      e₁.text = bytes.take (delivered hexMode answered) →
      ∃ d₁, (if hexMode then pure () else set fun e => { e with buffer := e.buffer.set e.length 0 } : Exec (Desk δ) Unit)
          { storage := w, editor := e₁ } = (.ok (), d₁) ∧ Storage.Same content d.storage d₁.storage ∧
        d₁.editor.useFat = useFat ∧ d₁.editor.targetPath = target ∧ d₁.editor.length ≤ EDITOR_BUFFER_SIZE ∧
        d₁.editor.text = bytes.take (delivered hexMode answered) := by
    intro e₁ hfat htarget hlen htext
    cases hexMode with
    | true => exact ⟨_, rfl, hsame, hfat, htarget, hlen.trans hcap, htext⟩
    | false => exact ⟨_, rfl, hsame, hfat, htarget, hlen.trans hcap, (Block.firstBytes_set _ _ _).trans htext⟩
  cases answered with
  | false =>
    rw [bind_ok (attempt_fail hload)]
    exact hfinish e₀ rfl rfl (Nat.zero_le _) (by simp [text, e₀, delivered, Block.firstBytes])
  | true =>
    rw [bind_ok (attempt_ok hload)]
    have hlen : (bytes.take (capacity hexMode)).length = min bytes.length (capacity hexMode) := by
      rw [List.length_take, Nat.min_comm]
    refine hfinish { e₀ with buffer := e₀.buffer.store (bytes.take (capacity hexMode)), length := min bytes.length (capacity hexMode) }
      rfl rfl (Nat.min_le_right _ _) ?_
    rw [text]
    dsimp only
    rw [← hlen]
    exact Block.firstBytes_store _ (by omega)

/-- A successful save makes the text the contents of the file, and to save no text never fails. -/
theorem save_ends {d : Desk δ} (hfat : d.editor.useFat = useFat) (htarget : d.editor.targetPath = target)
    (hlen : d.editor.length ≤ EDITOR_BUFFER_SIZE) (h : Storage.Holds content fs fuel useFat d.storage target bytes)
    (hs : Storage.InOrder content dev fs fuel useFat d.storage) :
    Ends (save fs fuel) d (fun _ d' => Storage.Holds content fs fuel useFat d'.storage target d.editor.text)
      fun _ => d.editor.text ≠ [] := by
  have hsize : d.editor.text.length ≤ EDITOR_BUFFER_SIZE := by rwa [text, Block.length_firstBytes]
  have hkept : Storage.kept useFat d.editor.text = d.editor.text := by
    unfold Storage.kept
    split_ifs
    · rfl
    · exact List.take_of_length_le (hsize.trans (by decide))
  have hwrite := Storage.writeFile_of_holds h hs (hsize.trans_lt (by decide))
  rw [hkept] at hwrite
  have hread : Exec.gets Desk.editor d = (.ok d.editor, d) := rfl
  rw [Ends, save, bind_ok hread, hfat, htarget]
  rcases hwrite with ⟨_, w, hrun, hw⟩ | ⟨w, hrun, hne⟩
  · have hstored : onStorage (Storage.writeFile fs fuel useFat target d.editor.text) d = (.ok (), { d with storage := w }) := by
      rw [onStorage, hrun]
    rw [bind_ok hstored]
    exact .inl ⟨(), _, rfl, hw⟩
  · have hfailed : onStorage (Storage.writeFile fs fuel useFat target d.editor.text) d = (.fail, { d with storage := w }) := by
      rw [onStorage, hrun]
    rw [bind_fail hfailed]
    exact .inr ⟨_, rfl, hne.2.1⟩

/-! ### What a save preserves -/

/-- Whatever was edited, a successful save keeps the bytes that were not loaded, and with no edit it
keeps the whole file. -/
def Preserves (content : δ → ℕ → Fat32.Sector) (fs : Fat32.Fat32State δ) (fuel : ℕ) (target : Path) (bytes : List UInt8) (d : Desk δ) :
    Prop :=
  ∀ e, Edited d.editor e → ∀ d', save fs fuel { d with editor := e } = (.ok (), d') →
    ∃ after, Storage.Holds content fs fuel d.editor.useFat d'.storage target after ∧
      bytes.drop d.editor.length <:+ after ∧ (e = d.editor → after = bytes)

theorem length_text (e : Editor) : e.text.length = e.length := Block.length_firstBytes _ _

section Preserves

variable {d : Desk δ} {n : ℕ} (hfat : d.editor.useFat = useFat) (htarget : d.editor.targetPath = target)
  (htext : d.editor.text = bytes.take n) (h : Storage.Holds content fs fuel useFat d.storage target bytes)
  (hs : Storage.InOrder content dev fs fuel useFat d.storage)

include hfat htarget htext h hs

theorem preserves_of_length_le (hlen : bytes.length ≤ n) : Preserves content fs fuel target bytes d := by
  rw [List.take_of_length_le hlen] at htext
  intro e he d' hsave
  have hends := save_ends (he.useFat.trans hfat) (he.targetPath.trans htarget) he.length_le (d := { d with editor := e }) h hs
  rcases hends with ⟨_, d₂, hrun, hd₂⟩ | ⟨_, hrun, -⟩
  · obtain rfl : d₂ = d' := congrArg Prod.snd (hrun.symm.trans hsave)
    refine ⟨e.text, hfat ▸ hd₂, ?_, ?_⟩
    · rw [← length_text, htext, List.drop_length]
      exact List.nil_suffix
    · rintro rfl
      exact htext
  · simp [hrun] at hsave

/-- Deleting the text and saving deletes what was not loaded, too. -/
theorem not_preserves (hlen : n < bytes.length) : ¬ Preserves content fs fuel target bytes d := by
  intro hpreserves
  have hlength : d.editor.length = n := by
    rw [← length_text, htext, List.length_take]
    omega
  let e : Editor := { d.editor with length := 0 }
  have he : Edited d.editor e := ⟨rfl, rfl, Nat.zero_le _⟩
  have hempty : e.text = [] := rfl
  have hends := save_ends (he.useFat.trans hfat) (he.targetPath.trans htarget) he.length_le (d := { d with editor := e }) h hs
  rcases hends with ⟨_, d', hrun, hd'⟩ | ⟨_, -, hne⟩
  · obtain ⟨after, hafter, hsuffix, -⟩ := hpreserves e he d' hrun
    rw [hfat] at hafter
    obtain rfl : after = [] := (hafter.unique hd').trans hempty
    have hdrop := hsuffix.length_le
    rw [List.length_drop, List.length_nil] at hdrop
    omega
  · exact hne hempty

end Preserves

/-- Editing preserves a file, in both file systems and both modes, exactly when the read delivers the
whole of it: when it is no longer than the buffer takes, or empty where the device does not answer. -/
theorem editing_preserves_iff {resolve : Path → Option Path} {path : Path} {hexMode answered : Bool} {d : Desk δ}
    (htarget : if useFat then resolve path = some target else path = target) (hpath : path.length < 128)
    (h : Storage.Holds content fs fuel useFat d.storage target bytes) (hs : Storage.InOrder content dev fs fuel useFat d.storage)
    (hload : Loads content fs₀ fuel useFat d.storage target bytes (capacity hexMode) answered) :
    (∀ d₁, openFile fs₀ fuel resolve useFat hexMode path d = (.ok (), d₁) → Preserves content fs fuel target bytes d₁) ↔
      bytes.length ≤ if answered then capacity hexMode else 0 := by
  obtain ⟨d₁, hrun, hsame, hfat, htarget₁, -, htext⟩ := openFile_run hexMode htarget hpath hload
  have h₁ := h.same hsame
  have hs₁ := hs.same hsame
  constructor
  · intro hall
    by_contra hlt
    exact not_preserves hfat htarget₁ htext h₁ hs₁ (not_le.1 hlt) (hall d₁ hrun)
  · intro hle d₂ hrun₂
    obtain rfl : d₁ = d₂ := congrArg Prod.snd (hrun.symm.trans hrun₂)
    exact preserves_of_length_le hfat htarget₁ htext h₁ hs₁ hle

/-- The editor after a start. -/
def desk (data : List UInt8) : Desk Unit := ⟨Storage.filled data, ⟨false, false, [], Block.zero, 0, false⟩⟩

/-- A file of three bytes survives. -/
theorem editing_preserves_short :
    (openFile (Fat32.smallVolume Fat32.shortTableDevice) 0 (fun _ => none) false false (Ramfs.chars "/a") (desk [1, 2, 3])).1 = .ok () ∧
      Preserves Storage.noContent (Fat32.smallVolume Fat32.shortTableDevice) 0 (Ramfs.chars "/a") [1, 2, 3]
        (openFile (Fat32.smallVolume Fat32.shortTableDevice) 0 (fun _ => none) false false (Ramfs.chars "/a") (desk [1, 2, 3])).2 := by
  have hholds := Storage.holds_filled (Fat32.smallVolume Fat32.shortTableDevice) 0 (show [1, 2, 3].length < Ramfs.FS_MAX_FILE_SIZE by decide)
  have horder := Storage.inOrder_ramfs (desk [1, 2, 3]).storage (Fat32.smallVolume Fat32.shortTableDevice) 0
  have hloads : Loads Storage.noContent (Fat32.smallVolume Fat32.shortTableDevice) 0 false (desk [1, 2, 3]).storage (Ramfs.chars "/a")
      [1, 2, 3] (capacity false) true := loads_of_holds hholds horder (capacity false)
  have htarget : if false = true then (none : Option Path) = some (Ramfs.chars "/a") else Ramfs.chars "/a" = Ramfs.chars "/a" := by simp
  obtain ⟨d₁, hrun, -⟩ := @openFile_run _ _ _ _ _ _ _ (fun _ => none) _ false true _ htarget (by decide) hloads
  rw [hrun]
  exact ⟨rfl, (@editing_preserves_iff _ _ _ (Fat32.smallVolume Fat32.shortTableDevice) _ _ false _ _ _ _ _ true _ rfl (by decide)
    hholds horder hloads).2 (by decide) d₁ hrun⟩

/-- The last of 4096 bytes is lost, in text mode, when all text is deleted. -/
theorem not_editing_preserves : ¬ ∀ (fs : Fat32.Fat32State Unit) (hexMode : Bool) (path : Path) (bytes : List UInt8) (d : Desk Unit),
    Storage.Holds Storage.noContent fs 0 false d.storage path bytes → path.length < 128 →
    ∀ d₁, openFile fs 0 (fun _ => none) false hexMode path d = (.ok (), d₁) → Preserves Storage.noContent fs 0 path bytes d₁ := by
  intro hall
  have hlen : (List.replicate EDITOR_BUFFER_SIZE (0 : UInt8)).length = EDITOR_BUFFER_SIZE := List.length_replicate
  have hholds := Storage.holds_filled (Fat32.smallVolume Fat32.shortTableDevice) 0 (hlen.trans_lt (by decide))
  have horder := Storage.inOrder_ramfs (desk (List.replicate EDITOR_BUFFER_SIZE 0)).storage (Fat32.smallVolume Fat32.shortTableDevice) 0
  have htarget : if false = true then (none : Option Path) = some (Ramfs.chars "/a") else Ramfs.chars "/a" = Ramfs.chars "/a" := by simp
  have hloads : Loads Storage.noContent (Fat32.smallVolume Fat32.shortTableDevice) 0 false (desk (List.replicate EDITOR_BUFFER_SIZE 0)).storage
      (Ramfs.chars "/a") (List.replicate EDITOR_BUFFER_SIZE 0) (capacity false) true := loads_of_holds hholds horder (capacity false)
  obtain ⟨d₁, hrun, hsame, hfat, htarget, -, htext⟩ := @openFile_run _ _ _ _ _ _ _ (fun _ => none) _ false true _ htarget (by decide) hloads
  refine not_preserves hfat htarget htext (hholds.same hsame) (horder.same hsame) ?_ (hall _ false _ _ _ hholds (by decide) d₁ hrun)
  rw [hlen]
  decide

end Editor

end Tg11Kernel.Shell
