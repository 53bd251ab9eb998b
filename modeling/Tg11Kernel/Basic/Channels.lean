import Tg11Kernel.Basic.Run

/-! The channels at the end of a run. Every end but `END` and `STOP` goes through the cleanup,
which writes the channels that are open for output and closes all of them; `END` and `STOP`
return at once and leave them as they are. -/

namespace Tg11Kernel.Basic

open Lib Lib.Exec Relation

variable {n : ℕ} {s t u : Interp} {text : Text} {fs fs' : Ramfs.Fs} {c : Chan}

/-- How the statements end, and the state that they leave. -/
def atExit (n : ℕ) (text : Text) (s : Interp) : Outcome Flow × Interp :=
  runLoop (programLines text) (parsers n) n BASIC_MAX_STEPS s.start

/-! ### What is to be written -/

/-- The channel has content for its file. -/
def FileChan.Pending (f : FileChan) : Prop := f.active = true ∧ f.mode ≠ .input

instance (f : FileChan) : Decidable f.Pending := inferInstanceAs (Decidable (_ ∧ _))

/-- The content goes to the file. -/
def FileChan.store (f : FileChan) : Ramfs.M Unit := Ramfs.writeFile (some f.path) (some f.buf) f.buf.length

/-- The channels that are open for output, among some. -/
def pendingOf (files : Chan → FileChan) (l : List Chan) : List FileChan := (l.map files).filter fun f => f.Pending

/-- The channels that are open for `OUTPUT` or `APPEND`. -/
def Interp.pending (t : Interp) : List FileChan := pendingOf t.files (List.finRange BASIC_MAX_FILES)

/-- Content was written to its path, for one channel after the other. -/
inductive Written : Ramfs.Fs → List FileChan → Ramfs.Fs → Prop
  | nil (fs : Ramfs.Fs) : Written fs [] fs
  | cons {fs fs₁ fs' : Ramfs.Fs} {f : FileChan} {l : List FileChan} (h : f.store fs = (.ok (), fs₁)) (hl : Written fs₁ l fs') :
      Written fs (f :: l) fs'

/-- The file system takes the content of one channel after the other. -/
def Accepts : Ramfs.Fs → List FileChan → Prop
  | _, [] => True
  | fs, f :: l => (f.store fs).1 = .ok () ∧ Accepts (f.store fs).2 l

/-- The file system after the attempts to write. -/
def storeAll (fs : Ramfs.Fs) (l : List FileChan) : Ramfs.Fs := l.foldl (fun fs f => (f.store fs).2) fs

theorem written_iff {l : List FileChan} : Written fs l fs' ↔ Accepts fs l ∧ fs' = storeAll fs l := by
  induction l generalizing fs with
  | nil =>
    constructor
    · rintro ⟨⟩
      exact ⟨trivial, rfl⟩
    · rintro ⟨-, rfl⟩
      exact .nil _
  | cons f l ih =>
    constructor
    · intro h
      cases h with
      | cons hstore hl =>
        obtain ⟨haccepts, rfl⟩ := ih.1 hl
        refine ⟨⟨by rw [hstore], ?_⟩, ?_⟩
        · rwa [hstore]
        · rw [storeAll, storeAll, List.foldl_cons, hstore]
    · rintro ⟨⟨hok, haccepts⟩, rfl⟩
      exact .cons (Prod.ext hok rfl) (ih.2 ⟨haccepts, rfl⟩)

/-- Every channel that was open for output has been written, and all channels are closed. -/
structure Flushed (t u : Interp) : Prop where
  inactive : ∀ c, (u.files c).active = false
  written : Written t.fs t.pending u.fs

/-! ### The cleanup -/

/-- The state after a channel is flushed. -/
def Interp.flushed (t : Interp) (c : Chan) : Interp :=
  { t with
    files := Function.update t.files c { t.files c with active := false }
    fs := if (t.files c).mode ≠ .input then ((t.files c).store t.fs).2 else t.fs }

theorem flushChan_apply (h : Ramfs.Tree t.fs) (c : Chan) : flushChan c t = (.ok (), t.flushed c) := by
  have hread : Exec.gets Interp.files t = (.ok t.files, t) := rfl
  rw [flushChan, bind_ok hread, Interp.flushed]
  by_cases hmode : (t.files c).mode ≠ .input
  · rw [if_pos hmode, if_pos hmode]
    have hstore : Exec.ignore (Exec.attempt (onRamfs (t.files c).store)) t = (.ok (), { t with fs := ((t.files c).store t.fs).2 }) := by
      rcases h.writeFile_ends (some (t.files c).path) (some (t.files c).buf) (t.files c).buf.length with ⟨a, fs, hrun, -⟩ | ⟨fs, hrun, -⟩
      · have hon : onRamfs (t.files c).store t = (.ok a, { t with fs := fs }) := by rw [onRamfs_apply, FileChan.store, hrun]
        rw [Exec.ignore, bind_ok (attempt_ok hon), FileChan.store, hrun]
        rfl
      · have hon : onRamfs (t.files c).store t = (.fail, { t with fs := fs }) := by rw [onRamfs_apply, FileChan.store, hrun]
        rw [Exec.ignore, bind_ok (attempt_fail hon), FileChan.store, hrun]
        rfl
    exact bind_ok hstore
  · rw [if_neg hmode, if_neg hmode]
    rfl

theorem tree_flushed (h : Ramfs.Tree t.fs) (c : Chan) : Ramfs.Tree (t.flushed c).fs := by
  obtain ⟨_, u, hrun, hclosing⟩ | ⟨_, _, hfalse⟩ := flushChan_ends h c
  · rw [flushChan_apply h c] at hrun
    obtain ⟨-, rfl⟩ := Prod.mk.inj hrun
    exact hclosing.tree
  · exact hfalse.elim

/-- The channels behind the loop of the cleanup. -/
structure ClosedBy (l : List Chan) (t u : Interp) : Prop where
  inside : ∀ c ∈ l, (u.files c).active = false
  outside : ∀ c ∉ l, u.files c = t.files c
  fs : u.fs = storeAll t.fs (pendingOf t.files l)

theorem closeLoop_spec {l : List Chan} (hl : l.Nodup) (h : Ramfs.Tree t.fs) : ∃ u, (l.forM fun c => do
      let files ← Exec.gets Interp.files
      if (files c).active then flushChan c else pure ()) t = (.ok (), u) ∧ ClosedBy l t u := by
  induction l generalizing t with
  | nil => exact ⟨t, rfl, by simp, by simp, rfl⟩
  | cons c l ih =>
    obtain ⟨hc, hl⟩ := List.nodup_cons.1 hl
    have hread : Exec.gets Interp.files t = (.ok t.files, t) := rfl
    by_cases hactive : (t.files c).active = true
    · obtain ⟨u, hrun, hu⟩ := ih hl (tree_flushed h c)
      have hother : ∀ d, d ≠ c → (t.flushed c).files d = t.files d := fun d hd => Function.update_of_ne hd ..
      have hsame : pendingOf (t.flushed c).files l = pendingOf t.files l := by
        unfold pendingOf
        congr 1
        apply List.map_congr_left
        intro d hd
        exact hother d fun hdc => hc (hdc ▸ hd)
      have hhead : (do
          let files ← Exec.gets Interp.files
          if (files c).active then flushChan c else pure ()) t = (.ok (), t.flushed c) := by
        rw [bind_ok hread, if_pos hactive, flushChan_apply h c]
      refine ⟨u, (bind_ok hhead).trans hrun, fun d hd => ?_, fun d hd => ?_, ?_⟩
      · rcases List.mem_cons.1 hd with rfl | hd
        · rw [hu.outside d hc]
          simp [Interp.flushed]
        · exact hu.inside d hd
      · rw [List.mem_cons, not_or] at hd
        rw [hu.outside d hd.2, hother d hd.1]
      · rw [hu.fs, hsame, pendingOf, pendingOf, List.map_cons]
        by_cases hmode : (t.files c).mode ≠ .input
        · rw [List.filter_cons_of_pos (by simpa using ⟨hactive, hmode⟩), storeAll, storeAll, List.foldl_cons, Interp.flushed, if_pos hmode]
        · rw [List.filter_cons_of_neg (by simpa using fun hand => hmode hand.2), Interp.flushed, if_neg hmode]
    · obtain ⟨u, hrun, hu⟩ := ih hl h
      have hinactive : (t.files c).active = false := by simpa using hactive
      have hhead : (do
          let files ← Exec.gets Interp.files
          if (files c).active then flushChan c else pure ()) t = (.ok (), t) := by
        rw [bind_ok hread, if_neg hactive]
        rfl
      refine ⟨u, (bind_ok hhead).trans hrun, fun d hd => ?_, fun d hd => ?_, ?_⟩
      · rcases List.mem_cons.1 hd with rfl | hd
        · rw [hu.outside d hc, hinactive]
        · exact hu.inside d hd
      · rw [List.mem_cons, not_or] at hd
        exact hu.outside d hd.2
      · rw [hu.fs, pendingOf, pendingOf, List.map_cons, List.filter_cons_of_neg]
        simpa using fun hand => hactive hand.1

theorem cleanup_spec (h : Ramfs.Tree t.fs) : ∃ u, cleanup t = (.ok (), u) ∧ (∀ c, (u.files c).active = false) ∧ u.fs = storeAll t.fs t.pending := by
  obtain ⟨u, hrun, hu⟩ := closeLoop_spec (List.nodup_finRange BASIC_MAX_FILES) h
  exact ⟨u, hrun, fun c => hu.inside c (List.mem_finRange c), hu.fs⟩

/-! ### The end of a run -/

/-- A run that ends without `END` ends with the cleanup. -/
theorem basicRun_of_cleanup (hexit : (atExit n text s).1 ≠ .ok .exit) (hhang : (atExit n text s).1 ≠ .hang)
    (h : Ramfs.Tree (atExit n text s).2.fs) : ∃ r u, basicRun n text s = (.ok r, u) ∧ (∀ c, (u.files c).active = false) ∧
      u.fs = storeAll (atExit n text s).2.fs (atExit n text s).2.pending := by
  obtain ⟨u, hclean, hinactive, hfs⟩ := cleanup_spec h
  have hmodify : Exec.modify Interp.start s = (.ok (), s.start) := rfl
  have hend : (do
      cleanup
      let errFlag ← Exec.gets Interp.errFlag
      pure (if errFlag then -1 else 0) : M Int32) (atExit n text s).2 = (.ok (if u.errFlag then -1 else 0), u) := by
    rw [bind_ok hclean]
    rfl
  refine ⟨if u.errFlag then -1 else 0, u, ?_, hinactive, hfs⟩
  unfold basicRun
  rw [bind_ok hmodify]
  rcases hloop : runLoop (programLines text) (parsers n) n BASIC_MAX_STEPS s.start with ⟨flow | _ | _, t⟩
  · rw [atExit, hloop] at hend hexit
    rw [bind_ok (attempt_ok hloop)]
    cases flow with
    | exit => exact absurd rfl hexit
    | go => exact hend
  · rw [atExit, hloop] at hend
    rw [bind_ok (attempt_fail hloop)]
    exact hend
  · rw [atExit, hloop] at hhang
    exact absurd rfl hhang

theorem pendingOf_nil {files : Chan → FileChan} {l : List Chan} (h : ∀ c, (files c).active = false) : pendingOf files l = [] := by
  rw [pendingOf, List.filter_eq_nil_iff]
  intro f hf
  obtain ⟨c, -, rfl⟩ := List.mem_map.1 hf
  simp [FileChan.Pending, h c]

/-- When a run returns, the channels are flushed exactly if it did not end with `END` or `STOP` while one was open, and
the file system took what was to be written. -/
theorem basicRun_flushed_iff (hn : 2 ≤ n) (hfs : Ramfs.Tree s.fs) {r : Int32} (hrun : basicRun n text s = (.ok r, u)) :
    Flushed (atExit n text s).2 u ↔ ((atExit n text s).1 = .ok .exit → ∀ c, ((atExit n text s).2.files c).active = false) ∧
      Accepts (atExit n text s).2.fs (atExit n text s).2.pending := by
  have htree : Ramfs.Tree (atExit n text s).2.fs := tree_of_runLoop hn hfs rfl
  by_cases hexit : (atExit n text s).1 = .ok .exit
  · have hend : basicRun n text s = (.ok 0, (atExit n text s).2) := basicRun_of_exit (Prod.ext hexit rfl)
    rw [hrun] at hend
    obtain rfl := (Prod.mk.inj hend).2
    constructor
    · intro h
      refine ⟨fun _ => h.inactive, ?_⟩
      rw [Interp.pending, pendingOf_nil h.inactive]
      trivial
    · rintro ⟨hclosed, -⟩
      refine ⟨hclosed hexit, ?_⟩
      rw [Interp.pending, pendingOf_nil (hclosed hexit)]
      exact .nil _
  · have hhang : (atExit n text s).1 ≠ .hang := by
      intro hhang
      have hend : basicRun n text s = (.hang, (atExit n text s).2) := basicRun_of_hang (Prod.ext hhang rfl)
      rw [hend] at hrun
      simp at hrun
    obtain ⟨r', u', hrun', hinactive, hu⟩ := basicRun_of_cleanup hexit hhang htree
    obtain ⟨-, rfl⟩ := Prod.mk.inj (hrun'.symm.trans hrun)
    constructor
    · intro h
      exact ⟨fun h' => absurd h' hexit, (written_iff.1 h.written).1⟩
    · rintro ⟨-, haccepts⟩
      exact ⟨hinactive, written_iff.2 ⟨haccepts, hu⟩⟩

instance decidableAccepts (fs : Ramfs.Fs) : (l : List FileChan) → Decidable (Accepts fs l)
  | [] => .isTrue trivial
  | f :: l => @instDecidableAnd _ _ _ (decidableAccepts (f.store fs).2 l)

/-- A program that opens a channel and runs off its last line. -/
def openOnly : Text := chars "10 OPEN \"/A\" FOR OUTPUT AS #1"

/-- The same with an `END`. -/
def openEnd : Text := chars "10 OPEN \"/A\" FOR OUTPUT AS #1\n20 END"

def newSystem : Interp := booted (Ramfs.fsInit Ramfs.blank).2 fun _ => none

theorem basicRun_flushed_openOnly : ∃ u, basicRun 4 openOnly newSystem = (.ok 0, u) ∧ Flushed (atExit 4 openOnly newSystem).2 u := by
  have hrun : (basicRun 4 openOnly newSystem).1 = .ok 0 := by decide +kernel
  have hpair : basicRun 4 openOnly newSystem = (.ok 0, (basicRun 4 openOnly newSystem).2) := by rw [← hrun]
  refine ⟨_, hpair, (basicRun_flushed_iff (by decide) (tree_booted tree_fsInit _) hpair).2 ⟨?_, ?_⟩⟩
  · decide +kernel
  · decide +kernel

/-- The channel stays open behind the `END`, and its file is not written. -/
theorem not_basicRun_flushed : ¬ ∀ (n : ℕ) (text : Text) (s u : Interp) (r : Int32), 2 ≤ n → Ramfs.Tree s.fs → basicRun n text s = (.ok r, u) →
    Flushed (atExit n text s).2 u := by
  intro hall
  have hrun : (basicRun 4 openEnd newSystem).1 = .ok 0 := by decide +kernel
  have hpair : basicRun 4 openEnd newSystem = (.ok 0, (basicRun 4 openEnd newSystem).2) := by rw [← hrun]
  have hopen : ((basicRun 4 openEnd newSystem).2.files ⟨0, by decide⟩).active = true := by decide +kernel
  have hflushed := hall 4 openEnd newSystem _ 0 (by decide) (tree_booted tree_fsInit _) hpair
  rw [hflushed.inactive ⟨0, by decide⟩] at hopen
  exact Bool.false_ne_true hopen

end Tg11Kernel.Basic
