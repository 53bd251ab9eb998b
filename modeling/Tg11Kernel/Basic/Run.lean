import Tg11Kernel.Basic.Promises
import Tg11Kernel.Basic.Reports
import Tg11Kernel.Ramfs.Reachable

/-! A whole run. What its statements promise and report goes through `basic_run`: the
variables are set, the statements are run one after the other, and unless the run ended
with `END` or `STOP` the cleanup closes the channels and returns -1 after an error. -/

namespace Tg11Kernel.Basic

open Lib Lib.Exec Relation

variable {n : ℕ} {s t : Interp} {text : Text}

/-! ### Lines -/

theorem length_afterEol_le (p : Text) : (afterEol p).length ≤ p.length := by
  cases p with
  | nil => exact Nat.le_refl _
  | cons c p =>
    show (if _ then p.tail else p).length ≤ p.length + 1
    split_ifs
    · exact (length_tail_le p).trans (Nat.le_succ _)
    · exact Nat.le_succ _

theorem length_le_of_mem_splitLines {room : ℕ} {p line : Text} (h : line ∈ splitLines room p) : line.length ≤ p.length := by
  induction room generalizing p with
  | zero => cases h
  | succ room ih =>
    unfold splitLines at h
    split_ifs at h
    · cases h
    · obtain rfl | h := List.mem_cons.1 h
      · exact (List.takeWhile_sublist _).length_le
      · have hrest : (p.dropWhile notEol).length ≤ p.length := List.length_dropWhile_le ..
        exact (ih h).trans ((length_afterEol_le _).trans hrest)

theorem length_le_of_mem_programLines {line : Line} (h : line ∈ programLines text) : line.text.length ≤ text.length := by
  unfold programLines at h
  obtain ⟨l, hl, rfl⟩ := List.mem_map.1 h
  exact (length_le_of_mem_splitLines hl).trans (List.takeWhile_sublist _).length_le

/-! ### The cleanup -/

theorem onRamfs_apply {α : Type} (m : Ramfs.M α) (t : Interp) : onRamfs m t = ((m t.fs).1, { t with fs := (m t.fs).2 }) := rfl

theorem onRamfs_ends {α : Type} {m : Ramfs.M α} {Q : α → Ramfs.Fs → Prop} {E : Ramfs.Fs → Prop} (h : Ends m t.fs Q E) :
    Ends (onRamfs m) t (fun a u => u = { t with fs := u.fs } ∧ Q a u.fs) fun u => u = { t with fs := u.fs } ∧ E u.fs := by
  obtain ⟨a, fs, hm, hq⟩ | ⟨fs, hm, he⟩ := h
  · exact .inl ⟨a, { t with fs := fs }, by rw [onRamfs_apply, hm], rfl, hq⟩
  · exact .inr ⟨{ t with fs := fs }, by rw [onRamfs_apply, hm], rfl, he⟩

/-- The channels are closed, and neither the history nor the error flag changes. -/
structure Closing (s t : Interp) : Prop where
  history : t.history = s.history
  errFlag : t.errFlag = s.errFlag
  tree : Ramfs.Tree t.fs

theorem flushChan_ends (h : Ramfs.Tree s.fs) (c : Chan) : Ends (flushChan c) s (fun _ => Closing s) fun _ => False := by
  unfold flushChan
  apply Ends.gets_bind
  have hwrite : Ends (if (s.files c).mode ≠ .input then
      Exec.ignore (Exec.attempt (onRamfs
        (Ramfs.writeFile (some (s.files c).path) (some (s.files c).buf) (s.files c).buf.length)))
    else pure ()) s (fun _ => Closing s) fun _ => False := by
    split_ifs
    · apply (onRamfs_ends (h.writeFile_ends _ _ _)).attempt_bind
      · rintro _ u ⟨hu, htree⟩
        rw [hu]
        exact Ends.pure ⟨rfl, rfl, htree⟩
      · rintro u ⟨hu, htree⟩
        rw [hu]
        exact Ends.pure ⟨rfl, rfl, htree⟩
    · exact Ends.pure ⟨rfl, rfl, h⟩
  apply hwrite.bind
  rintro _ u ⟨hhist, hflag, htree⟩
  exact Ends.modify ⟨hhist, hflag, htree⟩

theorem closing_forM (l : List Chan) (h : Ramfs.Tree s.fs) :
    Ends (l.forM fun c => do
      let files ← Exec.gets Interp.files
      if (files c).active then flushChan c else pure ()) s (fun _ => Closing s) fun _ => False := by
  induction l generalizing s with
  | nil => exact Ends.pure ⟨rfl, rfl, h⟩
  | cons c l ih =>
    have hhead : Ends (do
        let files ← Exec.gets Interp.files
        if (files c).active then flushChan c else pure ()) s (fun _ => Closing s) fun _ => False := by
      apply Ends.gets_bind
      split_ifs
      · exact flushChan_ends h c
      · exact Ends.pure ⟨rfl, rfl, h⟩
    apply hhead.bind
    rintro _ u ⟨hhist, hflag, htree⟩
    apply (ih htree).mono
    · rintro _ v ⟨hhist', hflag', htree'⟩
      exact ⟨hhist'.trans hhist, hflag'.trans hflag, htree'⟩
    · exact fun _ hf => hf

theorem cleanup_ends (h : Ramfs.Tree s.fs) : ∃ t, cleanup s = (.ok (), t) ∧ Closing s t := by
  obtain ⟨_, t, ht, hclosing⟩ | ⟨_, _, hfalse⟩ := closing_forM (List.finRange BASIC_MAX_FILES) h
  · exact ⟨t, ht, hclosing⟩
  · exact hfalse.elim

/-! ### The run -/

/-- The interpreter after the kernel has started. -/
def booted (fs : Ramfs.Fs) (input : ℕ → Option Text) : Interp :=
  { vars := fun _ => 0, strVars := fun _ => [], arrays := fun _ _ => 0, arraySizes := fun _ => 0, randState := 0x12345678,
    defFns := [], files := fun _ => ⟨false, .input, [], [], 0⟩, fs := fs, output := [], input := input, linesRead := 0,
    pc := 0, callStack := [], forStack := [], whileStack := [], dataLine := 0, dataOffset := 0, errFlag := false,
    history := ⟨[], [], [], []⟩ }

theorem tree_booted {fs : Ramfs.Fs} (h : Ramfs.Tree fs) (input : ℕ → Option Text) : Ramfs.Tree (booted fs input).fs := h

theorem tree_fsInit : Ramfs.Tree (Ramfs.fsInit Ramfs.blank).2 := by
  have hwell : Ramfs.WellFormed (Ramfs.fsInit Ramfs.blank).2 := (Ramfs.fsInit_ends Ramfs.blank).state.2
  exact hwell.tree

/-- How deep the parsers may have to nest: through every byte of a line or of an item, and
through a body of each function. -/
def nestingBound (text : Text) : ℕ := text.length + 95 + 129 * 26

theorem free_le (t : Interp) : t.free ≤ 26 := (Finset.card_le_univ _).trans_eq (Fintype.card_fin 26)

theorem ready_start (hfs : Ramfs.Tree s.fs) (hn : nestingBound text < n) : Ready (text.length + 95) n s.start := by
  have hfree := free_le s.start
  unfold nestingBound at hn
  exact ⟨by omega, hfs⟩

/-- The statements of a run. -/
theorem runLoop_start (hn : 2 ≤ n) (text : Text) (s : Interp) :
    Runs (text.length + 95) n s.start (runLoop (programLines text) (parsers n) n BASIC_MAX_STEPS) s.start :=
  runLoop_promise hn (fun _ h => (length_le_of_mem_programLines h).trans (Nat.le_add_right ..)) (Nat.le_add_left ..) _ (Later.refl _)

/-- A run of the statements that moves leaves a tree. -/
theorem tree_of_runLoop {o : Outcome Flow} (hn : 2 ≤ n) (hfs : Ramfs.Tree s.fs)
    (h : runLoop (programLines text) (parsers n) n BASIC_MAX_STEPS s.start = (o, t)) : Ramfs.Tree t.fs := by
  have hwalk := (runLoop_start hn text s).walk
  unfold Leads at hwalk
  rw [h] at hwalk
  exact invariant_of_moves (I := fun u => Ramfs.Tree u.fs) (fun _ _ hs hmove => hmove.tree hs) hwalk hfs

theorem basicRun_of_hang (h : runLoop (programLines text) (parsers n) n BASIC_MAX_STEPS s.start = (.hang, t)) :
    basicRun n text s = (.hang, t) := by
  unfold basicRun
  rw [bind_ok (modify_apply Interp.start s), bind_hang (attempt_hang h)]

theorem basicRun_of_exit (h : runLoop (programLines text) (parsers n) n BASIC_MAX_STEPS s.start = (.ok .exit, t)) :
    basicRun n text s = (.ok 0, t) := by
  unfold basicRun
  rw [bind_ok (modify_apply Interp.start s), bind_ok (attempt_ok h)]
  rfl

/-- Without an `END` the cleanup keeps the history, and the flag decides. -/
theorem basicRun_of_go (hfs : Ramfs.Tree t.fs)
    (h : runLoop (programLines text) (parsers n) n BASIC_MAX_STEPS s.start = (.ok .go, t)) :
    ∃ u, basicRun n text s = (.ok (if t.errFlag then -1 else 0), u) ∧ u.history = t.history := by
  obtain ⟨u, hu, hclosing⟩ := cleanup_ends hfs
  refine ⟨u, ?_, hclosing.history⟩
  unfold basicRun
  rw [← hclosing.errFlag, bind_ok (modify_apply Interp.start s), bind_ok (attempt_ok h)]
  exact bind_ok hu

theorem basicRun_of_fail (hfs : Ramfs.Tree t.fs)
    (h : runLoop (programLines text) (parsers n) n BASIC_MAX_STEPS s.start = (.fail, t)) :
    ∃ u, basicRun n text s = (.ok (-1), u) ∧ u.history = t.history := by
  obtain ⟨u, hu, hclosing⟩ := cleanup_ends hfs
  refine ⟨u, ?_, hclosing.history⟩
  have hflag : u.errFlag = true := hclosing.errFlag.trans (runLoop_reports BASIC_MAX_STEPS _ _ h)
  have hrun : basicRun n text s = (.ok (if u.errFlag then -1 else 0), u) := by
    unfold basicRun
    rw [bind_ok (modify_apply Interp.start s), bind_ok (attempt_fail h)]
    exact bind_ok hu
  rw [hrun, hflag]
  rfl

end Tg11Kernel.Basic
