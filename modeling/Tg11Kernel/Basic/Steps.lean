import Tg11Kernel.Basic.Nesting
import Tg11Kernel.Basic.Kinds
import Tg11Kernel.Ramfs.Files

/-! What a statement does to the history, and a whole run. The promise of the parsers
goes through every statement: where there is room for the lines of the program and the
file system is a tree, a statement hangs only at a division that traps or in a function
that is called in itself, and a statement that goes on has refused no division. -/

namespace Tg11Kernel.Basic

open Lib Lib.Exec Relation

variable {n k size : ℕ} {P : Prop} {α β : Type} {b s t : Interp} {text : Text} {lines : List Line}

/-! ### From the start of a statement -/

/-- A state later in the same statement. -/
def Later (b t : Interp) : Prop := t.view.1 = b.view.1 ∧ ReflTransGen Move b t

/-- Room for texts up to a size, and a file system that is a tree. -/
structure Ready (size n : ℕ) (b : Interp) : Prop where
  room : size + 129 * b.free < n
  tree : Ramfs.Tree b.fs

theorem Later.refl (b : Interp) : Later b b := ⟨rfl, .refl⟩

theorem Later.trans (h : Later b s) (hview : t.view.1 = s.view.1) (hwalk : ReflTransGen Move s t) : Later b t :=
  ⟨hview.trans h.1, h.2.trans hwalk⟩

theorem Later.other (h : Later b s) (hhist : t.history = s.history) (hfs : t.fs = s.fs) : Later b t := by
  apply h.trans _ (.single (.other hhist hfs))
  show t.history.active = s.history.active
  rw [hhist]

theorem DiskMove.tree {a c : Ramfs.Fs} (h : DiskMove a c) (ha : Ramfs.Tree a) : Ramfs.Tree c := by
  cases h with
  | read path capacity h =>
    rw [h]
    exact ((ha.readFile_ends path capacity).mono (fun _ _ hq => hq.1 ▸ ha) fun _ hs => hs ▸ ha).state.2
  | write path data size h =>
    rw [h]
    exact (ha.writeFile_ends path data size).state.2

theorem Move.tree (h : Move s t) (hs : Ramfs.Tree s.fs) : Ramfs.Tree t.fs := by
  cases h with
  | disk _ hfs => exact hfs.tree hs
  | _ => simp_all

theorem Ready.tree_at (h : Ready size n b) (hlater : Later b t) : Ramfs.Tree t.fs :=
  invariant_of_moves (I := fun u => Ramfs.Tree u.fs) (fun _ _ hs hmove => hmove.tree hs) hlater.2 h.tree

theorem Ready.room_at (h : Ready size n b) (hlater : Later b t) (hlen : text.length ≤ size) : Room n t text := by
  have hroom := h.room
  unfold Room
  rw [free_eq hlater.1]
  omega

variable {m : M α} {f : α → M β} {Q : α → Prop} {T : β → Prop} {g : Interp → Interp} {o : Option α}

/-- The rest of a statement goes on from a later state. -/
theorem Promise.next (hlater : Later b s) (h : Promise P m s Q)
    (hf : ∀ a t, Q a → Later b t → Promise P (f a) t T) : Promise P (m >>= f) s T :=
  h.bind fun a t hq hview hwalk => hf a t hq (hlater.trans (congrArg Prod.fst hview) hwalk)

theorem Promise.modify_next {f : Unit → M β} (hlater : Later b s)
    (hhist : (g s).history = s.history) (hfs : (g s).fs = s.fs) (hf : Later b (g s) → Promise P (f ()) (g s) T) :
    Promise P (Exec.modify g >>= f) s T := by
  apply Contract.modify_bind (.other hhist hfs)
  · unfold Interp.view
    rw [hhist]
  · exact hf (hlater.other hhist hfs)

/-- A program that touches neither the history nor the file system. -/
def Plain (m : M α) : Prop := ∀ s, (m s).2.history = s.history ∧ (m s).2.fs = s.fs ∧ (m s).1 ≠ .hang

theorem Plain.promise (h : Plain m) (s : Interp) : Promise P m s fun _ => True :=
  Promise.plain (fun s => by rw [(h s).1, (h s).2.1]) (fun s => (h s).2.2) s

theorem Plain.walks (h : Plain m) : Walks Move m := fun s => .single (.other (h s).1 (h s).2.1)

theorem Plain.frame (h : Plain m) (s : Interp) : (m s).2.view.1 = s.view.1 := by
  show (m s).2.history.active = s.history.active
  rw [(h s).1]

theorem Plain.modify (h : ∀ s, (g s).history = s.history ∧ (g s).fs = s.fs) : Plain (Exec.modify g) :=
  fun s => ⟨(h s).1, (h s).2, by rintro ⟨⟩⟩

theorem Plain.bind (h : Plain m) (hf : ∀ a, Plain (f a)) : Plain (m >>= f) := by
  intro s
  obtain ⟨hhist, hfs, hends⟩ := h s
  rw [bind_apply]
  rcases hm : m s with ⟨a | _ | _, t⟩ <;> rw [hm] at hhist hfs hends
  · obtain ⟨hhist', hfs', hends'⟩ := hf a t
    exact ⟨hhist'.trans hhist, hfs'.trans hfs, hends'⟩
  · exact ⟨hhist, hfs, nofun⟩
  · exact absurd rfl hends

theorem Plain.pure {a : α} : Plain (Pure.pure a : M α) := fun _ => ⟨rfl, rfl, by rintro ⟨⟩⟩

theorem Plain.gets {g : Interp → α} : Plain (Exec.gets g) := fun _ => ⟨rfl, rfl, by rintro ⟨⟩⟩

theorem Plain.fail : Plain (Exec.fail : M α) := fun _ => ⟨rfl, rfl, by rintro ⟨⟩⟩

theorem Plain.ofOption : Plain (Exec.ofOption o) := by
  cases o with
  | none => exact fail
  | some a => exact pure

theorem Plain.ite {c : Prop} [Decidable c] {m' : M α} (h : Plain m) (h' : Plain m') : Plain (if c then m else m') := by
  split_ifs
  · exact h
  · exact h'

/-! ### Errors -/

theorem terminalWrite_plain (u : Text) : Plain (terminalWrite u) := Plain.modify fun _ => ⟨rfl, rfl⟩

variable (message : String)

theorem runtimeError_plain : Plain (runtimeError lines message) := by
  unfold runtimeError terminalWriteLine
  apply Plain.gets.bind
  intro pc
  apply (terminalWrite_plain _).bind
  intro _
  apply (terminalWrite_plain _).bind
  intro _
  apply Plain.ite
  · exact (terminalWrite_plain _).bind fun _ => terminalWrite_plain _
  · exact Plain.pure

theorem runtimeError_ok (t : Interp) : (runtimeError lines message t).1 = .ok () := by
  unfold runtimeError
  simp only [bind_apply, gets_apply, terminalWrite, terminalWriteLine, modify_apply]
  split_ifs <;> rfl

/-- An error is always reported. -/
theorem rtErr_reports (lines : List Line) (message : String) (t : Interp) : ∃ u, rtErr lines message t = (.ok (), u) ∧ u.errFlag = true := by
  unfold rtErr
  rw [bind_ok (Prod.ext (runtimeError_ok message t) rfl)]
  exact ⟨_, rfl, rfl⟩

theorem orErr_fails (h : Fails m) (message : String) : Fails (orErr lines m message) := by
  intro s
  obtain ⟨u, hu, -⟩ := rtErr_reports lines message (m s).2
  exact congrArg Prod.fst (orElse_fail (Prod.ext (h s) rfl) hu)

theorem rtErr_plain : Plain (rtErr lines message) :=
  (runtimeError_plain message).bind fun _ => Plain.modify fun _ => ⟨rfl, rfl⟩

theorem Promise.orErr (h : Promise P m s Q) :
    Promise P (orErr lines m message) s Q :=
  h.orElse (rtErr_plain message).walks (rtErr_plain message).frame fun t => (rtErr_plain message t).2.2

theorem Promise.rtFail : Promise P (rtFail lines message : M α) s Q :=
  ((rtErr_plain message).promise s).bind fun _ _ _ _ _ => Contract.error

theorem orErr_ofOption : Promise P (orErr lines (Exec.ofOption o) message) s fun a => o = some a :=
  Promise.orErr message (Contract.ofOption fun _ h => h)

theorem check_promise (c : Prop) [Decidable c] (message : String) : Promise P (check lines c message) s fun _ => c := by
  apply Promise.orErr message
  by_cases hc : c
  · rw [require_pos hc]
    exact Contract.pure hc
  · rw [require_neg hc]
    exact Contract.error

theorem expect_promise {c : UInt8} (hc : c ≠ 0) : Promise P (expect c text) s fun rest => rest.length ≤ text.length := by
  have h : Promise P (expect c text >>= pure) s fun rest => rest.length ≤ text.length :=
    expect_bind hc fun rest hrest => Contract.pure hrest.le
  rwa [bind_pure] at h

theorem nextLine_plain : Plain nextLine := (Plain.modify fun _ => ⟨rfl, rfl⟩).bind fun _ => Plain.pure

theorem jump_plain (pc : ℕ) : Plain (jump pc) := (Plain.modify fun _ => ⟨rfl, rfl⟩).bind fun _ => Plain.pure

theorem setVar_plain (i : Letter) (v : Int32) : Plain (setVar i v) := Plain.modify fun _ => ⟨rfl, rfl⟩

theorem setStrVar_plain (i : Letter) (u : Text) : Plain (setStrVar i u) := Plain.modify fun _ => ⟨rfl, rfl⟩

theorem setFile_plain (c : Chan) (f : FileChan → FileChan) : Plain (setFile c f) := Plain.modify fun _ => ⟨rfl, rfl⟩

end Tg11Kernel.Basic
