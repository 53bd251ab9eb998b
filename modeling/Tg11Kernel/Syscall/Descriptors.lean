import Tg11Kernel.Syscall.Pipe
import Tg11Kernel.Lib.Holders

/-! The descriptors and the pipes agree. A pipe end is open exactly as long as one
descriptor stands for it, and a pipe with an open end is not made anew. The two
tables are updated by hand in `syscall_do_pipe`, on its error path, on a close and
in the cleanup; every other call leaves both as they are. -/

namespace Tg11Kernel.Syscall

open Lib Memory Exec

variable {ρ : Type} {out : Outside ρ} {s s' : Kernel ρ}

/-- What `Kernel.ends` shows of the tables. -/
abbrev Ends := (FdSlot → FdType × Option PipeIdx) × (PipeIdx → Bool × Bool)

/-- The pipe that a descriptor stands for an end of. -/
def holdsEnd (type : FdType) (kinds : FdSlot → FdType × Option PipeIdx) (slot : FdSlot) : Option PipeIdx :=
  if (kinds slot).1 = type then (kinds slot).2 else none

/-- Each open end of a pipe has one descriptor, and a closed end none. -/
structure Matched (e : Ends) : Prop where
  read : Held (holdsEnd .pipeRead e.1) fun pi => (e.2 pi).1
  write : Held (holdsEnd .pipeWrite e.1) fun pi => (e.2 pi).2

/-! ### Updates of the tables -/

section Update

variable {kinds : FdSlot → FdType × Option PipeIdx} {opens : PipeIdx → Bool × Bool} {slot : FdSlot} {pi : PipeIdx}
  {type : FdType}

theorem holdsEnd_update (kind : FdType × Option PipeIdx) : holdsEnd type (Function.update kinds slot kind) =
    Function.update (holdsEnd type kinds) slot (if kind.1 = type then kind.2 else none) := by
  funext i
  rcases eq_or_ne i slot with rfl | hne
  · simp [holdsEnd]
  · simp [holdsEnd, Function.update_of_ne hne]

theorem opens_update {α : Type} (v : Bool × Bool) (f : Bool × Bool → α) :
    (fun pj => f (Function.update opens pi v pj)) = Function.update (fun pj => f (opens pj)) pi (f v) := by
  funext pj
  exact Function.apply_update (fun _ => f) opens pi v pj

theorem setFd_bind {α : Type} (f : FdEntry → FdEntry) (m : Unit → M ρ α) (s : Kernel ρ) :
    (setFd slot f >>= m) s = m () (setFd slot f s).2 := rfl

theorem setPipe_bind {α : Type} (f : PipeBuf → PipeBuf) (m : Unit → M ρ α) (s : Kernel ρ) :
    (setPipe pi f >>= m) s = m () (setPipe pi f s).2 := rfl

theorem setFd_fds (f : FdEntry → FdEntry) (s : Kernel ρ) :
    (setFd slot f s).2.fds = Function.update s.fds slot (f (s.fds slot)) := rfl

theorem setPipe_fds (f : PipeBuf → PipeBuf) (s : Kernel ρ) : (setPipe pi f s).2.fds = s.fds := rfl

theorem setPipe_pipes (f : PipeBuf → PipeBuf) (s : Kernel ρ) :
    (setPipe pi f s).2.pipes = Function.update s.pipes pi (f (s.pipes pi)) := rfl

theorem setFd_ends_eq (f : FdEntry → FdEntry) (s : Kernel ρ) : (setFd slot f s).2.ends =
    (Function.update s.ends.1 slot ((f (s.fds slot)).type, (f (s.fds slot)).pipeIdx), s.ends.2) := by
  refine Prod.ext ?_ rfl
  funext i
  exact Function.apply_update (fun _ (e : FdEntry) => (e.type, e.pipeIdx)) s.fds slot _ i

theorem setPipe_ends_eq (f : PipeBuf → PipeBuf) (s : Kernel ρ) : (setPipe pi f s).2.ends =
    (s.ends.1, Function.update s.ends.2 pi ((f (s.pipes pi)).readOpen, (f (s.pipes pi)).writeOpen)) := by
  refine Prod.ext rfl ?_
  funext pj
  exact Function.apply_update (fun _ (p : PipeBuf) => (p.readOpen, p.writeOpen)) s.pipes pi _ pj

/-- A descriptor that stands for no pipe end becomes another such one. -/
theorem Matched.setOther (h : Matched (kinds, opens)) {kind : FdType × Option PipeIdx}
    (hold : ∀ type ∈ [FdType.pipeRead, FdType.pipeWrite], holdsEnd type kinds slot = none)
    (hnew : kind.1 ≠ .pipeRead ∧ kind.1 ≠ .pipeWrite) : Matched (Function.update kinds slot kind, opens) := by
  constructor
  · simp only [holdsEnd_update, hnew.1, if_false]
    exact h.read.idle (hold _ (by simp))
  · simp only [holdsEnd_update, hnew.2, if_false]
    exact h.write.idle (hold _ (by simp))

end Update

/-! ### Calls that leave the ends alone -/

theorem syscallReadFd_ends (fd userPtr count : UInt64) :
    Keeps Kernel.ends (syscallReadFd out fd userPtr count : M ρ ℕ) := by
  rw [syscallReadFd]
  split_ifs
  · exact Keeps.pure
  · exact ends_of_handles (syscallReadUser_handles userPtr count)
  · refine (openSlot_keeps fd).bind fun slot => ?_
    by_cases hcount : min count.toNat SYS_READ_MAX_BYTES = 0
    · simp only [hcount, if_true]
      exact Keeps.pure
    · simp only [hcount, if_false]
      refine Keeps.gets_bind fun e => ?_
      split_ifs
      · exact Keeps.ofOption_bind fun pi _ => pipeRead_ends pi userPtr _
      · exact fileRead_ends slot userPtr _

theorem syscallWriteFd_ends (fd userPtr lenOrZero : UInt64) :
    Keeps Kernel.ends (syscallWriteFd out fd userPtr lenOrZero : M ρ ℕ) := by
  rw [syscallWriteFd]
  split_ifs
  · exact ends_of_handles (syscallWriteUser_handles userPtr lenOrZero)
  · refine Keeps.ofOption_bind fun slot _ => Keeps.gets_bind fun e => Keeps.require_bind fun _ => ?_
    exact Keeps.ofOption_bind fun pi _ => pipeWrite_ends pi userPtr _

theorem syscallLseekFd_ends (fd offset whence : UInt64) :
    Keeps Kernel.ends (syscallLseekFd fd offset whence : M ρ ℕ) := by
  refine Keeps.ofOption_bind fun slot _ => Keeps.gets_bind fun e => Keeps.require_bind fun _ => ?_
  refine Keeps.bind (fun _ => rfl) fun r => Keeps.require_bind fun _ => ?_
  exact Keeps.ofOption_bind fun newPos _ => (setFd_ends slot _ fun _ => by rfl).bind fun _ => Keeps.pure

/-! ### Opening and closing -/

section Change

variable {slot slotR slotW : FdSlot} {pi : PipeIdx}

theorem mem_freeSlots {fds : FdSlot → FdEntry} : slot ∈ freeSlots fds ↔ (fds slot).type = .none := by
  simp [freeSlots]

theorem holdsEnd_of_none {type : FdType} (h : (s.fds slot).type = .none) (htype : type ≠ .none) :
    holdsEnd type s.ends.1 slot = none :=
  if_neg fun heq => htype (heq.symm.trans h)

/-- The two free descriptors are different ones. -/
theorem twoFreeSlots_spec {fds : FdSlot → FdEntry} (h : twoFreeSlots fds = some (slotR, slotW)) :
    (fds slotR).type = .none ∧ (fds slotW).type = .none ∧ slotR ≠ slotW := by
  have hnodup : (freeSlots fds).Nodup := (List.nodup_finRange _).filter _
  rw [twoFreeSlots] at h
  split at h
  · rename_i r w rest heq
    obtain ⟨rfl, rfl⟩ : r = slotR ∧ w = slotW := by simpa using h
    rw [heq, List.nodup_cons] at hnodup
    refine ⟨mem_freeSlots.1 (by simp [heq]), mem_freeSlots.1 (by simp [heq]), fun hrw => hnodup.1 ?_⟩
    rw [hrw]
    exact List.mem_cons_self
  · simp at h

theorem freePipe_closed (h : freePipe s.pipes = some pi) : (s.pipes pi).readOpen = false ∧ (s.pipes pi).writeOpen = false := by
  simpa using List.find?_some h

theorem syscallOpenUser_matched (userPath : UInt64) (h : Matched s.ends) :
    Matched (syscallOpenUser userPath s).2.ends := by
  have hcopy : Keeps Kernel.ends (userCopyCstr userPath SYSCALL_PATH_MAX : M ρ (List UInt8)) :=
    Keeps.require_bind fun _ => ends_of_handles (userCopyCstrLoop_handles _ _)
  refine Exec.bind_state (I := fun t : Kernel ρ => Matched t.ends) (by rw [hcopy s]; exact h) fun path t ht => ?_
  refine Exec.require_bind_state (I := fun t : Kernel ρ => Matched t.ends) ht fun _ => ?_
  refine Exec.bind_state (I := fun t : Kernel ρ => Matched t.ends) ht fun ⟨isDir, _⟩ t ht => ?_
  refine Exec.require_bind_state (I := fun t : Kernel ρ => Matched t.ends) ht fun _ => ?_
  rw [bind_ok (gets_apply _ t)]
  refine Exec.ofOption_bind_state (I := fun t : Kernel ρ => Matched t.ends) ht fun slot hslot => ?_
  have hfree := mem_freeSlots.1 (List.mem_of_head? hslot)
  rw [setFd_bind, Exec.pure_apply, setFd_ends_eq]
  exact ht.setOther (fun type htype => holdsEnd_of_none hfree (by rintro rfl; simp at htype)) (by simp)

/-- The end that a descriptor stands for is closed and the descriptor freed. -/
theorem closeSlot_matched (h : Matched s.ends) : Matched ((closePipeEnd (s.fds slot) >>= fun _ =>
    setFd slot fun _ => { type := .none, pos := 0, path := [], pipeIdx := none }) s).2.ends := by
  rw [closePipeEnd]
  split
  · -- the read end: its one descriptor lets it go
    rename_i pi htype hidx
    rw [setPipe_bind, setFd_ends_eq, setPipe_ends_eq]
    constructor
    · rw [holdsEnd_update, opens_update _ Prod.fst]
      exact h.read.drop (by simp [holdsEnd, Kernel.ends, htype, hidx])
    · rw [holdsEnd_update, opens_update _ Prod.snd]
      simp only [reduceCtorEq, if_false]
      rw [show (s.pipes pi).writeOpen = (s.ends.2 pi).2 from rfl, Function.update_eq_self]
      exact h.write.idle (by simp [holdsEnd, Kernel.ends, htype])
  · rename_i pi htype hidx
    rw [setPipe_bind, setFd_ends_eq, setPipe_ends_eq]
    constructor
    · rw [holdsEnd_update, opens_update _ Prod.fst]
      simp only [reduceCtorEq, if_false]
      rw [show (s.pipes pi).readOpen = (s.ends.2 pi).1 from rfl, Function.update_eq_self]
      exact h.read.idle (by simp [holdsEnd, Kernel.ends, htype])
    · rw [holdsEnd_update, opens_update _ Prod.snd]
      exact h.write.drop (by simp [holdsEnd, Kernel.ends, htype, hidx])
  · -- no pipe end
    rename_i hread hwrite
    rw [pure_bind_eq, setFd_ends_eq]
    refine h.setOther (fun type htype => ?_) (by simp)
    rw [holdsEnd]
    split_ifs with hkind
    · cases hidx : (s.fds slot).pipeIdx with
      | none => rfl
      | some pi =>
        rcases List.mem_pair.1 htype with rfl | rfl
        · exact absurd hidx (hread pi hkind)
        · exact absurd hidx (hwrite pi hkind)
    · rfl

theorem syscallCloseFd_matched (fd : UInt64) (h : Matched s.ends) : Matched (syscallCloseFd fd s).2.ends := by
  refine Exec.bind_state (I := fun t : Kernel ρ => Matched t.ends) (by rw [@openSlot_keeps ρ _ Kernel.ends fd s]; exact h) fun slot t ht => ?_
  rw [bind_ok (gets_apply _ t), ← Exec.bind_assoc_eq]
  exact Exec.bind_state (I := fun t : Kernel ρ => Matched t.ends) (closeSlot_matched ht) fun _ _ ht => ht

theorem cleanupSlot_matched (slot : FdSlot) (h : Matched s.ends) : Matched (cleanupSlot slot s).2.ends := by
  rw [cleanupSlot, bind_ok (gets_apply _ s)]
  split_ifs
  · exact h
  · exact closeSlot_matched h

theorem cleanupSlots_matched (slots : List FdSlot) (h : Matched s.ends) : Matched (cleanupSlots slots s).2.ends := by
  induction slots generalizing s with
  | nil => exact h
  | cons slot slots ih =>
    exact Exec.bind_state (I := fun t : Kernel ρ => Matched t.ends) (cleanupSlot_matched slot h) fun _ _ ht => ih ht

theorem openPipe_ends (pi : PipeIdx) (slotR slotW : FdSlot) (s : Kernel ρ) : (openPipe pi slotR slotW s).2.ends =
    (Function.update (Function.update s.ends.1 slotR (.pipeRead, some pi)) slotW (.pipeWrite, some pi),
      Function.update s.ends.2 pi (true, true)) := by
  rw [openPipe, setPipe_bind, setFd_bind, setFd_ends_eq, setFd_ends_eq, setPipe_ends_eq]

/-- Both ends are opened, each with a descriptor of its own. -/
theorem openPipe_matched (h : Matched s.ends) (hpi : (s.pipes pi).readOpen = false ∧ (s.pipes pi).writeOpen = false)
    (hR : (s.fds slotR).type = .none) (hW : (s.fds slotW).type = .none) (hne : slotR ≠ slotW) :
    Matched (openPipe pi slotR slotW s).2.ends := by
  rw [openPipe_ends]
  constructor
  · rw [holdsEnd_update, holdsEnd_update, opens_update _ Prod.fst]
    refine (h.read.take (holdsEnd_of_none hR (by simp)) hpi.1).idle ?_
    rw [Function.update_of_ne hne.symm, holdsEnd_of_none hW (by simp)]
  · rw [holdsEnd_update, holdsEnd_update, opens_update _ Prod.snd]
    refine (h.write.idle (holdsEnd_of_none hR (by simp))).take ?_ hpi.2
    rw [Function.update_of_ne hne.symm, holdsEnd_of_none hW (by simp)]

/-- Both descriptors are freed again and both ends closed. -/
theorem abandonPipe_matched (h : Matched s.ends) (hR : s.ends.1 slotR = (.pipeRead, some pi))
    (hW : s.ends.1 slotW = (.pipeWrite, some pi)) (hne : slotR ≠ slotW) : Matched (abandonPipe pi slotR slotW s).2.ends := by
  rw [abandonPipe, setFd_bind, setFd_bind, setPipe_ends_eq, setFd_ends_eq, setFd_ends_eq]
  constructor
  · rw [holdsEnd_update, holdsEnd_update, opens_update _ Prod.fst]
    refine (h.read.drop (i := slotR) (by simp [holdsEnd, hR])).idle ?_
    rw [Function.update_of_ne hne.symm, holdsEnd, hW]
    rfl
  · rw [holdsEnd_update, holdsEnd_update, opens_update _ Prod.snd]
    refine (h.write.idle (i := slotR) (by simp [holdsEnd, hR])).drop ?_
    rw [Function.update_of_ne hne.symm, holdsEnd, hW]
    rfl

/-- A new pipe is published or given up as a whole. -/
theorem syscallDoPipe_matched (userArray : UInt64) (h : Matched s.ends) : Matched (syscallDoPipe userArray s).2.ends := by
  refine Exec.require_bind_state (I := fun t : Kernel ρ => Matched t.ends) h fun _ => ?_
  rw [bind_ok (gets_apply _ s)]
  refine Exec.ofOption_bind_state (I := fun t : Kernel ρ => Matched t.ends) h fun pi hpi => ?_
  rw [bind_ok (gets_apply _ s)]
  refine Exec.ofOption_bind_state (I := fun t : Kernel ρ => Matched t.ends) h fun ⟨slotR, slotW⟩ hslots => ?_
  obtain ⟨hR, hW, hne⟩ := twoFreeSlots_spec hslots
  have hopen := openPipe_matched h (freePipe_closed hpi) hR hW hne
  have hends := openPipe_ends pi slotR slotW s
  have hok : openPipe pi slotR slotW s = (.ok (), (openPipe pi slotR slotW s).2) := rfl
  dsimp only
  rw [bind_ok hok]
  generalize (openPipe pi slotR slotW s).2 = t at hopen hends
  refine Exec.bind_state (I := fun t : Kernel ρ => Matched t.ends) ?_ fun _ _ ht => ht
  -- writing the array changes neither table, so the error path finds what was set up
  refine Exec.orElse_state_of (I := fun t' : Kernel ρ => t'.ends = t.ends) (J := fun t' : Kernel ρ => Matched t'.ends)
    (ends_of_handles (publishPipe_handles userArray slotR slotW) t) (fun t' ht' => ht' ▸ hopen) fun t' ht' => ?_
  refine abandonPipe_matched (ht' ▸ hopen) ?_ ?_ hne
  · rw [ht', hends]
    simp [Function.update_of_ne hne]
  · rw [ht', hends]
    simp

/-! ### All calls -/

theorem call_matched (c : Call) (h : Matched s.ends) : Matched (c.run out s).2.ends := by
  rw [Call.run, syscallDispatch]
  split_ifs
  · rw [ends_of_handles (syscallWriteUser_handles c.a1 c.a2) s]
    exact h
  · rw [syscallReadFd_ends c.a1 c.a2 c.a3 s]
    exact h
  · rw [syscallWriteFd_ends c.a1 c.a2 c.a3 s]
    exact h
  · exact syscallOpenUser_matched c.a1 h
  · exact syscallCloseFd_matched c.a1 h
  · rw [syscallLseekFd_ends c.a1 c.a2 c.a3 s]
    exact h
  · exact syscallDoPipe_matched c.a1 h
  · rw [show (syscallDoPoll out c.a1 s).2 = s from syscallDoPoll_keeps c.a1 s]
    exact h
  · exact h
  · exact h

theorem closePipeEnd_apply (e : FdEntry) (s : Kernel ρ) :
    (closePipeEnd e s).1 = .ok () ∧ (closePipeEnd e s).2.fds = s.fds := by
  obtain ⟨_ | _ | _ | _, _, _, _ | pi⟩ := e <;> exact ⟨rfl, rfl⟩

theorem cleanupSlot_apply (slot : FdSlot) (s : Kernel ρ) : (cleanupSlot slot s).1 = .ok () ∧
    ∀ i, ((cleanupSlot slot s).2.fds i).type = if i = slot then .none else (s.fds i).type := by
  rw [cleanupSlot, bind_ok (gets_apply _ s)]
  split_ifs with hfree
  · refine ⟨rfl, fun i => ?_⟩
    split_ifs with hi
    · rw [hi]
      exact hfree
    · rfl
  · obtain ⟨hok, hfds⟩ := closePipeEnd_apply (s.fds slot) s
    rw [bind_ok (Prod.ext hok rfl)]
    refine ⟨rfl, fun i => ?_⟩
    rw [setFd_fds, hfds]
    split_ifs with hi
    · rw [hi, Function.update_self]
    · rw [Function.update_of_ne hi]

/-- The cleanup frees every descriptor it goes over. -/
theorem cleanupSlots_type (slots : List FdSlot) (s : Kernel ρ) (i : FdSlot) (hi : i ∈ slots ∨ (s.fds i).type = .none) :
    ((cleanupSlots slots s).2.fds i).type = .none := by
  induction slots generalizing s with
  | nil => exact hi.resolve_left (by simp)
  | cons slot slots ih =>
    obtain ⟨hok, htype⟩ := cleanupSlot_apply slot s
    rw [cleanupSlots, bind_ok (Prod.ext hok rfl)]
    refine ih _ ?_
    rw [htype i]
    by_cases hslot : i = slot
    · exact .inr (if_pos hslot)
    · rw [if_neg hslot]
      exact hi.imp_left fun h => (List.mem_cons.1 h).resolve_left hslot

end Change

/-! ### Runs -/

/-- The states that calls and cleanups lead to from boot, between which the rest of
the system may change everything but the two tables. -/
inductive Reachable (out : Outside ρ) : Kernel ρ → Prop
  | boot (tables : PageTables) (frames : UInt64 → UInt8) (ramfs : Ramfs.Fs) (rest : ρ) :
      Reachable out (Kernel.boot tables frames ramfs rest)
  | call {s : Kernel ρ} (c : Call) (h : Reachable out s) : Reachable out (c.run out s).2
  | cleanup {s : Kernel ρ} (h : Reachable out s) : Reachable out (syscallFdCleanup s).2
  | outside {s s' : Kernel ρ} (h : Reachable out s) (hsame : s'.handles = s.handles) : Reachable out s'

theorem Reachable.matched (h : Reachable out s) : Matched s.ends := by
  induction h with
  | boot => exact ⟨Held.empty, Held.empty⟩
  | call c _ ih => exact call_matched c ih
  | cleanup _ ih => exact cleanupSlots_matched _ ih
  | @outside s s' _ hsame ih =>
    obtain ⟨hfds, hpipes⟩ := Prod.mk.inj hsame
    rw [Kernel.ends, hfds, hpipes]
    exact ih

/-- The descriptor stands for an end of the pipe. -/
def StandsFor (s : Kernel ρ) (slot : FdSlot) (type : FdType) (pi : PipeIdx) : Prop :=
  (s.fds slot).type = type ∧ (s.fds slot).pipeIdx = some pi

theorem holdsEnd_eq_some {slot : FdSlot} {type : FdType} {pi : PipeIdx} :
    holdsEnd type s.ends.1 slot = some pi ↔ StandsFor s slot type pi := by
  rw [holdsEnd, StandsFor]
  show (if (s.fds slot).type = type then (s.fds slot).pipeIdx else none) = some pi ↔ _
  split_ifs with h <;> simp [h]

/-- The end of a pipe is open exactly if one descriptor stands for it, and otherwise
none does. -/
def EndAgrees (s : Kernel ρ) (type : FdType) (opened : PipeIdx → Bool) : Prop :=
  ∀ pi, (opened pi = true ↔ ∃! slot, StandsFor s slot type pi) ∧ (opened pi = false → ∀ slot, ¬ StandsFor s slot type pi)

theorem endAgrees_of_held {type : FdType} {opened : PipeIdx → Bool} (h : Held (holdsEnd type s.ends.1) opened) :
    EndAgrees s type opened := by
  intro pi
  have hlive := h.live_iff (k := pi)
  have hdead := (h pi).2
  simp only [holdsEnd_eq_some, ne_eq] at hlive hdead
  exact ⟨hlive, hdead⟩

/-- What `SYS_PIPE` may change: one pipe, and two descriptors that were free and name it. -/
structure MadeOnly (pj : PipeIdx) (slotR slotW : FdSlot) (s s' : Kernel ρ) : Prop where
  pipes : ∀ pi ≠ pj, s'.pipes pi = s.pipes pi
  fds : ∀ i, i ≠ slotR → i ≠ slotW → s'.fds i = s.fds i
  read : (s'.fds slotR).pipeIdx = some pj
  write : (s'.fds slotW).pipeIdx = some pj

section Made

variable {pi pj : PipeIdx} {slotR slotW : FdSlot}

theorem openPipe_madeOnly (hne : slotR ≠ slotW) (s : Kernel ρ) : MadeOnly pj slotR slotW s (openPipe pj slotR slotW s).2 := by
  rw [openPipe, setPipe_bind, setFd_bind]
  refine ⟨fun pi hpi => Function.update_of_ne hpi .., fun i hR hW => ?_, ?_, ?_⟩
  · rw [setFd_fds, setFd_fds, Function.update_of_ne hW, Function.update_of_ne hR]
    rfl
  · rw [setFd_fds, setFd_fds, Function.update_of_ne hne, Function.update_self]
  · rw [setFd_fds, Function.update_self]

theorem MadeOnly.abandon (hne : slotR ≠ slotW) (h : MadeOnly pj slotR slotW s s') :
    MadeOnly pj slotR slotW s (abandonPipe pj slotR slotW s').2 := by
  rw [abandonPipe, setFd_bind, setFd_bind]
  refine ⟨fun pi hpi => ?_, fun i hR hW => ?_, ?_, ?_⟩
  · rw [setPipe_pipes, Function.update_of_ne hpi]
    exact h.pipes pi hpi
  · rw [setPipe_fds, setFd_fds, setFd_fds, Function.update_of_ne hW, Function.update_of_ne hR]
    exact h.fds i hR hW
  · rw [setPipe_fds, setFd_fds, setFd_fds, Function.update_of_ne hne, Function.update_self]
    exact h.read
  · rw [setPipe_fds, setFd_fds, setFd_fds, Function.update_self, Function.update_of_ne hne.symm]
    exact h.write

theorem syscallDoPipe_made (userArray : UInt64) (s : Kernel ρ) : (syscallDoPipe userArray s).2 = s ∨
    ∃ pj slotR slotW, freePipe s.pipes = some pj ∧ (s.fds slotR).type = .none ∧ (s.fds slotW).type = .none ∧
      MadeOnly pj slotR slotW s (syscallDoPipe userArray s).2 := by
  let I : Kernel ρ → Prop := fun s' => s' = s ∨ ∃ pj slotR slotW, freePipe s.pipes = some pj ∧
    (s.fds slotR).type = .none ∧ (s.fds slotW).type = .none ∧ MadeOnly pj slotR slotW s s'
  refine Exec.require_bind_state (I := I) (.inl rfl) fun _ => ?_
  rw [bind_ok (gets_apply _ s)]
  refine Exec.ofOption_bind_state (I := I) (.inl rfl) fun pj hpj => ?_
  rw [bind_ok (gets_apply _ s)]
  refine Exec.ofOption_bind_state (I := I) (.inl rfl) fun ⟨slotR, slotW⟩ hslots => ?_
  obtain ⟨hR, hW, hne⟩ := twoFreeSlots_spec hslots
  have hok : openPipe pj slotR slotW s = (.ok (), (openPipe pj slotR slotW s).2) := rfl
  have hmade := @openPipe_madeOnly ρ pj slotR slotW hne s
  dsimp only
  rw [bind_ok hok]
  generalize (openPipe pj slotR slotW s).2 = t at hmade
  refine Exec.bind_state (I := I) (.inr ⟨pj, slotR, slotW, hpj, hR, hW, ?_⟩) fun _ _ ht => ht
  refine Exec.orElse_state (I := fun t' => MadeOnly pj slotR slotW s t') ?_ fun t' ht' => ht'.abandon hne
  obtain ⟨hfds, hpipes⟩ := Prod.mk.inj (publishPipe_handles userArray slotR slotW t)
  exact ⟨by rw [hpipes]; exact hmade.pipes, by rw [hfds]; exact hmade.fds, by rw [hfds]; exact hmade.read,
    by rw [hfds]; exact hmade.write⟩

/-- A pipe with an open end is left alone by `SYS_PIPE`, and no descriptor for it is made. -/
theorem syscallDoPipe_of_open (userArray : UInt64) (hopen : (s.pipes pi).readOpen = true ∨ (s.pipes pi).writeOpen = true) :
    (syscallDoPipe userArray s).2.pipes pi = s.pipes pi ∧
      ∀ slot type, type ≠ .none → (StandsFor (syscallDoPipe userArray s).2 slot type pi ↔ StandsFor s slot type pi) := by
  rcases syscallDoPipe_made userArray s with hsame | ⟨pj, slotR, slotW, hfree, hR, hW, hmade⟩
  · rw [hsame]
    exact ⟨rfl, fun _ _ _ => Iff.rfl⟩
  have hne : pi ≠ pj := by
    rintro rfl
    obtain ⟨hr, hw⟩ := freePipe_closed hfree
    simp [hr, hw] at hopen
  refine ⟨hmade.pipes pi hne, fun slot type htype => ?_⟩
  have hother {i : FdSlot} (hi : (s.fds i).type = .none) (hidx : ((syscallDoPipe userArray s).2.fds i).pipeIdx = some pj) :
      StandsFor (syscallDoPipe userArray s).2 i type pi ↔ StandsFor s i type pi := by
    refine iff_of_false (fun h => hne ?_) fun h => htype (h.1.symm.trans hi)
    exact (Option.some.inj (hidx.symm.trans h.2)).symm
  by_cases hslotR : slot = slotR
  · exact hslotR ▸ hother hR hmade.read
  by_cases hslotW : slot = slotW
  · exact hslotW ▸ hother hW hmade.write
  · rw [StandsFor, StandsFor, hmade.fds slot hslotR hslotW]

end Made

end Tg11Kernel.Syscall
