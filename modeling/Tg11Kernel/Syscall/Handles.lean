import Tg11Kernel.Syscall.UserAccess

/-! What each call does to the descriptors and the pipes. The copy loops leave both
alone, and a transfer changes one pipe's buffer or one descriptor's position. -/

namespace Tg11Kernel.Syscall

open Lib Memory Exec

variable {ρ : Type} {out : Outside ρ} {s : Kernel ρ}

/-- The two tables. -/
def Kernel.handles (s : Kernel ρ) : (FdSlot → FdEntry) × (PipeIdx → PipeBuf) := (s.fds, s.pipes)

/-- What the tables say about who uses which pipe: the kinds of the descriptors, and
the open ends. -/
def Kernel.ends (s : Kernel ρ) : (FdSlot → FdType × Option PipeIdx) × (PipeIdx → Bool × Bool) :=
  (fun i => ((s.fds i).type, (s.fds i).pipeIdx), fun pi => ((s.pipes pi).readOpen, (s.pipes pi).writeOpen))

/-- The buffer of a pipe. -/
def Kernel.stream (pi : PipeIdx) (s : Kernel ρ) : Block PIPE_BUF_SIZE × ℕ × ℕ :=
  ((s.pipes pi).data, (s.pipes pi).head, (s.pipes pi).count)

theorem ends_of_handles {α : Type} {m : M ρ α} (h : Keeps Kernel.handles m) : Keeps Kernel.ends m :=
  h.comp fun hd => (fun i => ((hd.1 i).type, (hd.1 i).pipeIdx), fun pi => ((hd.2 pi).readOpen, (hd.2 pi).writeOpen))

theorem stream_of_handles {α : Type} {m : M ρ α} (pi : PipeIdx) (h : Keeps Kernel.handles m) :
    Keeps (Kernel.stream pi) m :=
  h.comp fun hd => ((hd.2 pi).data, (hd.2 pi).head, (hd.2 pi).count)

/-! ### Copy loops -/

section Copy

theorem checkAddr_handles (addr : UInt64) : Keeps Kernel.handles (checkAddr addr : M ρ Unit) :=
  Keeps.gets_bind fun _ => Keeps.require

theorem load_handles (addr : UInt64) : Keeps Kernel.handles (load addr : M ρ UInt8) := by
  intro s
  rw [load]
  cases translate s.tables addr <;> rfl

theorem store_handles (addr : UInt64) (byte : UInt8) : Keeps Kernel.handles (store addr byte : M ρ Unit) := by
  intro s
  rw [store]
  cases translate s.tables addr <;> rfl

theorem checkedLoad_handles (addr : UInt64) : Keeps Kernel.handles (checkedLoad addr : M ρ UInt8) :=
  (checkAddr_handles addr).bind fun _ => load_handles addr

theorem userCopyAscii_handles (n : ℕ) (src : UInt64) :
    Keeps Kernel.handles (userCopyAscii n src : M ρ (List UInt8)) := by
  induction n generalizing src with
  | zero => exact Keeps.pure
  | succ n ih => exact (checkedLoad_handles src).bind fun _ => (ih _).bind fun _ => Keeps.pure

theorem userCopyCstrLoop_handles (n : ℕ) (src : UInt64) :
    Keeps Kernel.handles (userCopyCstrLoop n src : M ρ (List UInt8)) := by
  induction n generalizing src with
  | zero => exact Keeps.fail
  | succ n ih =>
    refine (checkedLoad_handles src).bind fun ch => ?_
    split_ifs
    · exact Keeps.pure
    · exact (ih _).bind fun _ => Keeps.pure

theorem scanChunk_handles (n : ℕ) (cursor : UInt64) :
    Keeps Kernel.handles (scanChunk n cursor : M ρ (List UInt8 × Bool)) := by
  induction n generalizing cursor with
  | zero => exact Keeps.pure
  | succ n ih =>
    refine (checkedLoad_handles cursor).bind fun ch => ?_
    split_ifs
    · exact Keeps.pure
    · exact (ih _).bind fun _ => Keeps.pure

theorem userCopyOut_handles (dst : UInt64) (bytes : List UInt8) :
    Keeps Kernel.handles (userCopyOut dst bytes : M ρ Unit) := by
  induction bytes generalizing dst with
  | nil => exact Keeps.pure
  | cons byte bytes ih => exact (checkAddr_handles dst).bind fun _ => (store_handles dst byte).bind fun _ => ih _

theorem terminalWrite_handles (chunk : List UInt8) : Keeps Kernel.handles (terminalWrite out chunk) := fun _ => rfl

theorem writeBytesLoop_handles (fuel remaining : ℕ) (cursor : UInt64) (total : ℕ) :
    Keeps Kernel.handles (writeBytesLoop out fuel remaining cursor total) := by
  induction fuel generalizing remaining cursor total with
  | zero =>
    rw [writeBytesLoop]
    split_ifs
    · exact Keeps.hang
    · exact Keeps.pure
  | succ fuel ih =>
    rw [writeBytesLoop]
    split_ifs
    · exact (userCopyAscii_handles _ _).bind fun _ => (terminalWrite_handles _).bind fun _ => ih _ _ _
    · exact Keeps.pure

theorem writeCstrLoop_handles (chunks : ℕ) (cursor : UInt64) (total : ℕ) :
    Keeps Kernel.handles (writeCstrLoop out chunks cursor total) := by
  induction chunks generalizing cursor total with
  | zero => exact Keeps.pure
  | succ chunks ih =>
    refine (scanChunk_handles _ _).bind fun r => Keeps.bind ?_ fun _ => ?_
    · rw [flushChunk]
      split_ifs
      · exact terminalWrite_handles _
      · exact Keeps.pure
    · split_ifs
      · exact Keeps.pure
      · exact ih _ _

theorem syscallWriteUser_handles (userPtr lenOrZero : UInt64) :
    Keeps Kernel.handles (syscallWriteUser out userPtr lenOrZero) := by
  refine Keeps.require_bind fun _ => ?_
  split_ifs
  · exact writeCstrLoop_handles _ _ _
  · exact writeBytesLoop_handles _ _ _ _

theorem syscallReadUser_handles (userPtr capacity : UInt64) :
    Keeps Kernel.handles (syscallReadUser out userPtr capacity) := by
  refine Keeps.require_bind fun _ => Keeps.bind ?_ fun line => ?_
  · intro s
    rw [terminalReadLine]
    rcases out.terminalReadLine (maxLine capacity.toNat + 1) s.rest with ⟨_ | line, rest⟩ <;> rfl
  · exact (userCopyOut_handles _ _).bind fun _ => (userCopyOut_handles _ _).bind fun _ => Keeps.pure

theorem pipeDrain_handles (pi : PipeIdx) (userPtr : UInt64) (n i : ℕ) :
    Keeps Kernel.handles (pipeDrain pi userPtr n i : M ρ Unit) := by
  induction n generalizing i with
  | zero => exact Keeps.pure
  | succ n ih => exact Keeps.gets_bind fun p => (userCopyOut_handles _ _).bind fun _ => ih _

theorem publishPipe_handles (userArray : UInt64) (slotR slotW : FdSlot) :
    Keeps Kernel.handles (publishPipe userArray slotR slotW : M ρ Unit) :=
  (userCopyOut_handles _ _).bind fun _ => userCopyOut_handles _ _

end Copy

/-! ### Updates -/

section Update

variable {pi pj : PipeIdx} {slot : FdSlot}

/-- A change of one pipe's buffer. -/
theorem setPipe_ends (pi : PipeIdx) (f : PipeBuf → PipeBuf)
    (hf : ∀ p, ((f p).readOpen, (f p).writeOpen) = (p.readOpen, p.writeOpen)) :
    Keeps Kernel.ends (setPipe pi f : M ρ Unit) := by
  intro s
  show (_, _) = (_, _)
  congr 1
  funext pj
  show ((Function.update s.pipes pi (f (s.pipes pi)) pj).readOpen, (Function.update s.pipes pi (f (s.pipes pi)) pj).writeOpen) = _
  rcases eq_or_ne pj pi with rfl | hne
  · rw [Function.update_self]
    exact hf _
  · rw [Function.update_of_ne hne]

theorem setPipe_stream_of_ne (h : pi ≠ pj) (f : PipeBuf → PipeBuf) :
    Keeps (Kernel.stream pi) (setPipe pj f : M ρ Unit) := by
  intro s
  simp only [Kernel.stream, setPipe, modify_apply, Function.update_of_ne h]

theorem setPipe_stream (f : PipeBuf → PipeBuf) (hf : ∀ p, ((f p).data, (f p).head, (f p).count) = (p.data, p.head, p.count)) :
    Keeps (Kernel.stream pi) (setPipe pj f : M ρ Unit) := by
  intro s
  rcases eq_or_ne pi pj with rfl | hne
  · simp only [Kernel.stream, setPipe, modify_apply, Function.update_self]
    exact hf _
  · exact setPipe_stream_of_ne hne f s

/-- A change of one descriptor that leaves its kind. -/
theorem setFd_ends (slot : FdSlot) (f : FdEntry → FdEntry) (hf : ∀ e, ((f e).type, (f e).pipeIdx) = (e.type, e.pipeIdx)) :
    Keeps Kernel.ends (setFd slot f : M ρ Unit) := by
  intro s
  show (_, _) = (_, _)
  congr 1
  funext i
  show ((Function.update s.fds slot (f (s.fds slot)) i).type, (Function.update s.fds slot (f (s.fds slot)) i).pipeIdx) = _
  rcases eq_or_ne i slot with rfl | hne
  · rw [Function.update_self]
    exact hf _
  · rw [Function.update_of_ne hne]

theorem setFd_stream (slot : FdSlot) (f : FdEntry → FdEntry) : Keeps (Kernel.stream pi) (setFd slot f : M ρ Unit) :=
  fun _ => rfl

theorem closePipeEnd_stream (e : FdEntry) : Keeps (Kernel.stream pi) (closePipeEnd e : M ρ Unit) := by
  rw [closePipeEnd]
  split <;> first | exact setPipe_stream _ fun _ => by rfl | exact Keeps.pure

theorem syscallCloseFd_stream (fd : UInt64) : Keeps (Kernel.stream pi) (syscallCloseFd fd : M ρ ℕ) := by
  refine (openSlot_keeps fd).bind fun slot => Keeps.gets_bind fun e => (closePipeEnd_stream e).bind fun _ => ?_
  exact (setFd_stream slot _).bind fun _ => Keeps.pure

theorem cleanupSlots_stream (slots : List FdSlot) : Keeps (Kernel.stream pi) (cleanupSlots slots : M ρ Unit) := by
  induction slots with
  | nil => exact Keeps.pure
  | cons slot slots ih =>
    refine Keeps.bind (Keeps.gets_bind fun e => ?_) fun _ => ih
    split_ifs
    · exact Keeps.pure
    · exact (closePipeEnd_stream e).bind fun _ => setFd_stream slot _

end Update

/-! ### Transfers -/

theorem fileRead_ends (slot : FdSlot) (userPtr : UInt64) (count : ℕ) :
    Keeps Kernel.ends (fileRead slot userPtr count : M ρ ℕ) := by
  refine Keeps.gets_bind fun e => Keeps.require_bind fun _ => Keeps.bind (fun _ => rfl) fun tmp => ?_
  split_ifs
  · exact Keeps.pure
  · refine (ends_of_handles (userCopyOut_handles _ _)).bind fun _ => ?_
    exact (setFd_ends slot _ fun _ => by rfl).bind fun _ => Keeps.pure

theorem fileRead_stream (pi : PipeIdx) (slot : FdSlot) (userPtr : UInt64) (count : ℕ) :
    Keeps (Kernel.stream pi) (fileRead slot userPtr count : M ρ ℕ) := by
  refine Keeps.gets_bind fun e => Keeps.require_bind fun _ => Keeps.bind (fun _ => rfl) fun tmp => ?_
  split_ifs
  · exact Keeps.pure
  · exact (stream_of_handles pi (userCopyOut_handles _ _)).bind fun _ =>
      (setFd_stream slot _).bind fun _ => Keeps.pure

theorem pipeRead_ends (pi : PipeIdx) (userPtr : UInt64) (count : ℕ) :
    Keeps Kernel.ends (pipeRead pi userPtr count : M ρ ℕ) := by
  refine Keeps.gets_bind fun p => ?_
  split_ifs
  all_goals first
    | exact Keeps.pure
    | exact (ends_of_handles (pipeDrain_handles _ _ _ _)).bind fun _ =>
        (setPipe_ends pi _ fun _ => by rfl).bind fun _ => Keeps.pure

theorem pipeFill_ends (pi : PipeIdx) (userPtr : UInt64) (n i : ℕ) :
    Keeps Kernel.ends (pipeFill pi userPtr n i : M ρ Unit) := by
  induction n generalizing i with
  | zero => exact Keeps.pure
  | succ n ih =>
    exact (ends_of_handles (checkedLoad_handles _)).bind fun ch => (setPipe_ends pi _ fun _ => by rfl).bind fun _ => ih _

theorem pipeWrite_ends (pi : PipeIdx) (userPtr : UInt64) (len : ℕ) :
    Keeps Kernel.ends (pipeWrite pi userPtr len : M ρ ℕ) := by
  refine Keeps.gets_bind fun p => Keeps.require_bind fun _ => ?_
  dsimp only
  split_ifs
  all_goals first
    | exact Keeps.pure
    | exact (pipeFill_ends _ _ _ _).bind fun _ => (setPipe_ends pi _ fun _ => by rfl).bind fun _ => Keeps.pure

theorem pipeRead_stream_of_ne {pi pj : PipeIdx} (h : pi ≠ pj) (userPtr : UInt64) (count : ℕ) :
    Keeps (Kernel.stream pi) (pipeRead pj userPtr count : M ρ ℕ) := by
  refine Keeps.gets_bind fun p => ?_
  split_ifs
  all_goals first
    | exact Keeps.pure
    | exact (stream_of_handles pi (pipeDrain_handles _ _ _ _)).bind fun _ =>
        (setPipe_stream_of_ne h _).bind fun _ => Keeps.pure

theorem pipeFill_stream_of_ne {pi pj : PipeIdx} (h : pi ≠ pj) (userPtr : UInt64) (n i : ℕ) :
    Keeps (Kernel.stream pi) (pipeFill pj userPtr n i : M ρ Unit) := by
  induction n generalizing i with
  | zero => exact Keeps.pure
  | succ n ih =>
    exact (stream_of_handles pi (checkedLoad_handles _)).bind fun ch => (setPipe_stream_of_ne h _).bind fun _ => ih _

theorem pipeWrite_stream_of_ne {pi pj : PipeIdx} (h : pi ≠ pj) (userPtr : UInt64) (len : ℕ) :
    Keeps (Kernel.stream pi) (pipeWrite pj userPtr len : M ρ ℕ) := by
  refine Keeps.gets_bind fun p => Keeps.require_bind fun _ => ?_
  dsimp only
  split_ifs
  all_goals first
    | exact Keeps.pure
    | exact (pipeFill_stream_of_ne h _ _ _).bind fun _ => (setPipe_stream_of_ne h _).bind fun _ => Keeps.pure

end Tg11Kernel.Syscall
