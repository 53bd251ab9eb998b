import Tg11Kernel.Syscall.Handles
import Tg11Kernel.Lib.Circle

/-! Pipes are FIFO byte streams. A write puts bytes behind the last one and counts
them only when all of them arrived; a read hands out the first bytes and drops
them only when all of them were delivered. So over a run the bytes accepted are
the bytes delivered followed by the bytes still buffered, whatever happens to the
caller's memory between and during the calls. -/

namespace Tg11Kernel.Syscall

open Lib Memory Exec

variable {ρ : Type} {out : Outside ρ} {s s' : Kernel ρ} {pi : PipeIdx}

/-- The bytes in a pipe, in the order in which they leave. -/
def Kernel.buffered (s : Kernel ρ) (pi : PipeIdx) : List UInt8 :=
  ring (s.pipes pi).data (s.pipes pi).head (s.pipes pi).count

theorem buffered_of_stream (h : s'.stream pi = s.stream pi) : s'.buffered pi = s.buffered pi := by
  simp only [Kernel.stream, Prod.mk.injEq] at h
  rw [Kernel.buffered, Kernel.buffered, h.1, h.2.1, h.2.2]

/-- The bytes of the accesses that a call added. -/
def movedBytes (s s' : Kernel ρ) : List UInt8 := (newAccesses s s').map Access.byte

theorem newAccesses_of_append {acc : List Access} (h : s'.accesses = s.accesses ++ acc) : newAccesses s s' = acc := by
  rw [newAccesses, h, List.drop_left]

/-! ### Transfers -/

/-- One byte loaded and put behind those that are in the pipe. -/
def Kernel.filled (s : Kernel ρ) (pi : PipeIdx) (userPtr : UInt64) (i : ℕ) : Kernel ρ :=
  { s.noting ⟨userPtr + UInt64.ofNat i, false, s.byteAt (userPtr + UInt64.ofNat i)⟩ with
    pipes := Function.update s.pipes pi { s.pipes pi with
      data := (s.pipes pi).data.set (((s.pipes pi).head + ((s.pipes pi).count + i)) % PIPE_BUF_SIZE)
        (s.byteAt (userPtr + UInt64.ofNat i)) } }

/-- A fill writes its bytes behind those that are there, as far as it gets; none of
them counts yet. -/
theorem pipeFill_spec (userPtr : UInt64) (n i : ℕ) (s : Kernel ρ) (hroom : (s.pipes pi).count + i + n ≤ PIPE_BUF_SIZE) :
    ∃ acc, (pipeFill pi userPtr n i s).2.accesses = s.accesses ++ acc ∧
      (((pipeFill pi userPtr n i s).2.pipes pi).head = (s.pipes pi).head ∧
        ((pipeFill pi userPtr n i s).2.pipes pi).count = (s.pipes pi).count) ∧
      (∀ k ≤ (s.pipes pi).count + i,
        ring ((pipeFill pi userPtr n i s).2.pipes pi).data (s.pipes pi).head k = ring (s.pipes pi).data (s.pipes pi).head k) ∧
      ∀ u, (pipeFill pi userPtr n i s).1 = .ok u → acc.length = n ∧
        ring ((pipeFill pi userPtr n i s).2.pipes pi).data (s.pipes pi).head ((s.pipes pi).count + i + n) =
          ring (s.pipes pi).data (s.pipes pi).head ((s.pipes pi).count + i) ++ acc.map Access.byte := by
  induction n generalizing i s with
  | zero => exact ⟨[], by simp [pipeFill], ⟨rfl, rfl⟩, fun _ _ => rfl, fun _ _ => ⟨rfl, by simp [pipeFill]⟩⟩
  | succ n ih =>
    rw [pipeFill]
    by_cases hread : userAddrReadable s.tables (userPtr + UInt64.ofNat i) = true
    · -- the byte goes behind the ones before it, and the rest follows from there
      have hstep : (setPipe pi fun p =>
            { p with data := p.data.set ((p.head + (p.count + i)) % PIPE_BUF_SIZE) (s.byteAt (userPtr + UInt64.ofNat i)) })
          (s.noting ⟨userPtr + UInt64.ofNat i, false, s.byteAt (userPtr + UInt64.ofNat i)⟩) =
          (.ok (), s.filled pi userPtr i) := rfl
      rw [bind_ok (checkedLoad_pos hread), bind_ok hstep]
      have hpipe : (s.filled pi userPtr i).pipes pi = { s.pipes pi with
          data := (s.pipes pi).data.set (((s.pipes pi).head + ((s.pipes pi).count + i)) % PIPE_BUF_SIZE)
            (s.byteAt (userPtr + UInt64.ofNat i)) } := Function.update_self ..
      obtain ⟨acc, hacc, hsame, hold, hnew⟩ := ih (i + 1) (s.filled pi userPtr i) (by rw [hpipe]; simp only; omega)
      rw [hpipe] at hsame hold hnew
      refine ⟨⟨userPtr + UInt64.ofNat i, false, s.byteAt (userPtr + UInt64.ofNat i)⟩ :: acc, ?_, hsame, ?_, ?_⟩
      · rw [hacc]
        simp [Kernel.filled, Kernel.noting]
      · intro k hk
        rw [hold k (by simp only; omega)]
        exact ring_set _ hk (by omega)
      · intro u hu
        obtain ⟨hlen, hring⟩ := hnew u hu
        refine ⟨by rw [List.length_cons, hlen], ?_⟩
        simp only at hring
        rw [show (s.pipes pi).count + i + (n + 1) = (s.pipes pi).count + (i + 1) + n by omega, hring,
          show (s.pipes pi).count + (i + 1) = (s.pipes pi).count + i + 1 by omega, ring_set_succ _ (by omega)]
        simp
    · rw [bind_fail (checkedLoad_neg hread)]
      exact ⟨[], by simp, ⟨rfl, rfl⟩, fun _ _ => rfl, fun u hu => by simp at hu⟩

/-- A drain stores the bytes from the head on, as far as it gets. -/
theorem pipeDrain_spec (userPtr : UInt64) (n i : ℕ) (s : Kernel ρ) :
    ∃ acc, (pipeDrain pi userPtr n i s).2.accesses = s.accesses ++ acc ∧
      ∀ u, (pipeDrain pi userPtr n i s).1 = .ok u →
        acc.map Access.byte = ring (s.pipes pi).data ((s.pipes pi).head + i) n := by
  induction n generalizing i s with
  | zero => exact ⟨[], by simp [pipeDrain], fun _ _ => rfl⟩
  | succ n ih =>
    rw [pipeDrain, bind_ok (gets_apply _ s)]
    by_cases hread : userAddrReadable s.tables (userPtr + UInt64.ofNat i) = true
    · rw [bind_ok (userCopyOut_one_pos hread _)]
      let byte := (s.pipes pi).data.get (((s.pipes pi).head + i) % PIPE_BUF_SIZE)
      obtain ⟨acc, hacc, hring⟩ := ih (i + 1) (s.storing (userPtr + UInt64.ofNat i) byte)
      refine ⟨⟨userPtr + UInt64.ofNat i, true, byte⟩ :: acc, ?_, fun u hu => ?_⟩
      · rw [hacc]
        simp only [Kernel.storing, Kernel.noting, List.append_assoc, List.singleton_append]
      · rw [List.map_cons, hring u hu, Nat.add_comm n 1, ring_add, ring_succ, ring_zero, List.nil_append, Nat.add_zero]
        refine congrArg₂ _ rfl (List.map_congr_left fun j _ => ?_)
        rw [Nat.mod_add_mod, Nat.add_assoc _ i 1]
        rfl
    · rw [bind_fail (userCopyOut_one_neg hread _)]
      exact ⟨[], by simp, fun u hu => by simp at hu⟩

/-- The first `k` bytes of a pipe dropped. -/
def Kernel.drained (s : Kernel ρ) (pi : PipeIdx) (k : ℕ) : Kernel ρ :=
  { s with pipes := Function.update s.pipes pi { s.pipes pi with
      head := ((s.pipes pi).head + k) % PIPE_BUF_SIZE
      count := (s.pipes pi).count - k } }

/-- `k` more bytes of a pipe counted. -/
def Kernel.counted (s : Kernel ρ) (pi : PipeIdx) (k : ℕ) : Kernel ρ :=
  { s with pipes := Function.update s.pipes pi { s.pipes pi with count := (s.pipes pi).count + k } }

@[simp] theorem drained_pipes (s : Kernel ρ) (pi : PipeIdx) (k : ℕ) : (s.drained pi k).pipes pi =
    { s.pipes pi with head := ((s.pipes pi).head + k) % PIPE_BUF_SIZE, count := (s.pipes pi).count - k } :=
  Function.update_self ..

@[simp] theorem counted_pipes (s : Kernel ρ) (pi : PipeIdx) (k : ℕ) :
    (s.counted pi k).pipes pi = { s.pipes pi with count := (s.pipes pi).count + k } :=
  Function.update_self ..

/-- The bytes moved left the pipe in front; or the run gave up and left the pipe alone. -/
def Pops (pi : PipeIdx) (s : Kernel ρ) (r : Outcome ℕ × Kernel ρ) : Prop :=
  (∃ n s', r = (.ok n, s') ∧ (movedBytes s s').length = n ∧ s.buffered pi = movedBytes s s' ++ s'.buffered pi ∧
    (s'.pipes pi).count ≤ (s.pipes pi).count) ∨
  ((∀ n, r.1 ≠ .ok n) ∧ r.2.stream pi = s.stream pi)

/-- The bytes moved are now behind those in the pipe; or the run gave up and what is
buffered is as it was. -/
def Pushes (pi : PipeIdx) (s : Kernel ρ) (r : Outcome ℕ × Kernel ρ) : Prop :=
  (∃ n s', r = (.ok n, s') ∧ (movedBytes s s').length = n ∧ s'.buffered pi = s.buffered pi ++ movedBytes s s' ∧
    (s'.pipes pi).count ≤ PIPE_BUF_SIZE) ∨
  ((∀ n, r.1 ≠ .ok n) ∧ r.2.buffered pi = s.buffered pi ∧ (r.2.pipes pi).count = (s.pipes pi).count)

theorem movedBytes_self (s : Kernel ρ) : movedBytes s s = [] := by
  rw [movedBytes, newAccesses_of_append (List.append_nil _).symm, List.map_nil]

theorem Pops.idle : Pops pi s (.ok 0, s) :=
  .inl ⟨0, s, rfl, by rw [movedBytes_self, List.length_nil], by rw [movedBytes_self, List.nil_append], le_rfl⟩

theorem Pushes.idle (h : (s.pipes pi).count ≤ PIPE_BUF_SIZE) : Pushes pi s (.ok 0, s) :=
  .inl ⟨0, s, rfl, by rw [movedBytes_self, List.length_nil], by rw [movedBytes_self, List.append_nil], h⟩

theorem pipeRead_pops (userPtr : UInt64) (count : ℕ) (s : Kernel ρ) : Pops pi s (pipeRead pi userPtr count s) := by
  rw [pipeRead, bind_ok (gets_apply _ s)]
  by_cases hzero : (s.pipes pi).count = 0
  · rw [if_pos hzero]
    exact Pops.idle
  rw [if_neg hzero, ite_lt_eq_min]
  obtain ⟨acc, hacc, hring⟩ := @pipeDrain_spec ρ pi userPtr (min count (s.pipes pi).count) 0 s
  have hkept := pipeDrain_handles pi userPtr (min count (s.pipes pi).count) 0 s
  rcases hdrain : pipeDrain pi userPtr (min count (s.pipes pi).count) 0 s with ⟨u | _ | _, s₁⟩ <;>
    rw [hdrain] at hacc hring hkept
  · have hpipes : s₁.pipes = s.pipes := congrArg Prod.snd hkept
    rw [bind_ok hdrain]
    have hmoved : movedBytes s (s₁.drained pi (min count (s.pipes pi).count)) = acc.map Access.byte :=
      congrArg _ (newAccesses_of_append hacc)
    rw [hring u rfl, Nat.add_zero] at hmoved
    refine .inl ⟨_, s₁.drained pi (min count (s.pipes pi).count), rfl, ?_, ?_, ?_⟩
    · rw [hmoved, length_ring]
    · rw [hmoved, Kernel.buffered, Kernel.buffered, drained_pipes, hpipes, ← ring_add,
        Nat.add_sub_cancel' (Nat.min_le_right _ _)]
    · rw [drained_pipes, hpipes]
      exact Nat.sub_le _ _
  · rw [bind_fail hdrain]
    exact .inr ⟨fun _ heq => (by cases heq), congrArg (fun hd : (FdSlot → FdEntry) × (PipeIdx → PipeBuf) =>
      ((hd.2 pi).data, (hd.2 pi).head, (hd.2 pi).count)) hkept⟩
  · rw [Exec.bind_hang hdrain]
    exact .inr ⟨fun _ heq => (by cases heq), congrArg (fun hd : (FdSlot → FdEntry) × (PipeIdx → PipeBuf) =>
      ((hd.2 pi).data, (hd.2 pi).head, (hd.2 pi).count)) hkept⟩

theorem pipeWrite_pushes (userPtr : UInt64) (len : ℕ) (s : Kernel ρ) (hcount : (s.pipes pi).count ≤ PIPE_BUF_SIZE) :
    Pushes pi s (pipeWrite pi userPtr len s) := by
  rw [pipeWrite, bind_ok (gets_apply _ s)]
  by_cases hopen : (s.pipes pi).readOpen = true
  swap
  · rw [require_neg hopen]
    exact .inr ⟨fun _ heq => (by cases heq), rfl, rfl⟩
  rw [require_pos hopen, pure_bind_eq]
  by_cases hlen : len = 0
  · rw [if_pos hlen]
    exact Pushes.idle hcount
  rw [if_neg hlen, ite_lt_eq_min]
  generalize hk : min (min len SYS_WRITE_MAX_BYTES) (PIPE_BUF_SIZE - (s.pipes pi).count) = k
  by_cases hzero : k = 0
  · rw [if_pos hzero]
    exact Pushes.idle hcount
  rw [if_neg hzero]
  have hroom : (s.pipes pi).count + 0 + k ≤ PIPE_BUF_SIZE := by omega
  obtain ⟨acc, hacc, ⟨hhead, hsame⟩, hold, hnew⟩ := @pipeFill_spec ρ pi userPtr k 0 s hroom
  rcases hfill : pipeFill pi userPtr k 0 s with ⟨u | _ | _, s₁⟩ <;> rw [hfill] at hacc hhead hsame hold hnew
  · rw [bind_ok hfill]
    have hmoved : movedBytes s (s₁.counted pi k) = acc.map Access.byte := congrArg _ (newAccesses_of_append hacc)
    obtain ⟨hlen, hring⟩ := hnew u rfl
    rw [Nat.add_zero] at hring
    refine .inl ⟨_, s₁.counted pi k, rfl, ?_, ?_, ?_⟩
    · rw [hmoved, List.length_map, hlen]
    · rw [hmoved, Kernel.buffered, Kernel.buffered, counted_pipes, hhead, hsame]
      exact hring
    · rw [counted_pipes, hsame]
      exact hroom
  all_goals
    first | rw [bind_fail hfill] | rw [Exec.bind_hang hfill]
    refine .inr ⟨fun _ heq => (by cases heq), ?_, hsame⟩
    rw [Kernel.buffered, Kernel.buffered, hhead, hsame]
    exact hold _ (Nat.le_add_right _ _)

/-! ### Calls -/

/-- A system call with its arguments. -/
structure Call where
  num : ℕ
  a1 : UInt64
  a2 : UInt64
  a3 : UInt64
  a4 : UInt64

def Call.run (out : Outside ρ) (c : Call) : M ρ ℕ := syscallDispatch out c.num c.a1 c.a2 c.a3 c.a4

/-- The pipe that a descriptor number stands for an end of. -/
def Kernel.endOf (s : Kernel ρ) (type : FdType) (fd : UInt64) : Option PipeIdx :=
  match syscallFdSlotFromFd fd with
  | none => none
  | some slot => if (s.fds slot).type = type then (s.fds slot).pipeIdx else none

/-- The bytes that a successful call of one kind moves through one kind of end of a pipe. -/
def moved (out : Outside ρ) (num : ℕ) (type : FdType) (pi : PipeIdx) (c : Call) (s : Kernel ρ) : List UInt8 :=
  match c.run out s with
  | (.ok _, s') => if c.num = num ∧ s.endOf type c.a1 = some pi then movedBytes s s' else []
  | _ => []

/-- The bytes that a write to the pipe accepted. -/
def accepted (out : Outside ρ) (pi : PipeIdx) : Call → Kernel ρ → List UInt8 := moved out SYS_WRITE .pipeWrite pi

/-- The bytes that a read from the pipe delivered. -/
def delivered (out : Outside ρ) (pi : PipeIdx) : Call → Kernel ρ → List UInt8 := moved out SYS_READ .pipeRead pi

/-- The call makes a new pipe out of this one. -/
def Remakes (pi : PipeIdx) (c : Call) (s : Kernel ρ) : Prop := c.num = SYS_PIPE ∧ freePipe s.pipes = some pi

section Moved

variable {c : Call} {num : ℕ} {type : FdType}

theorem moved_of_num_ne (h : c.num ≠ num) (s : Kernel ρ) : moved out num type pi c s = [] := by
  rw [moved]
  rcases c.run out s with ⟨_ | _ | _, s'⟩ <;> simp [h]

theorem moved_of_endOf_ne (h : s.endOf type c.a1 ≠ some pi) : moved out num type pi c s = [] := by
  rw [moved]
  rcases c.run out s with ⟨_ | _ | _, s'⟩ <;> simp [h]

theorem moved_of_not_ok (h : ∀ n, (c.run out s).1 ≠ .ok n) : moved out num type pi c s = [] := by
  rw [moved]
  rcases hrun : c.run out s with ⟨n | _ | _, s'⟩
  · exact absurd (congrArg Prod.fst hrun) (h n)
  · rfl
  · rfl

theorem moved_of_ok {n : ℕ} (hrun : c.run out s = (.ok n, s')) (hnum : c.num = num)
    (hend : s.endOf type c.a1 = some pi) : moved out num type pi c s = movedBytes s s' := by
  simp only [moved, hrun, hnum, hend, and_self, if_true]

variable {fd : UInt64}

theorem endOf_of_slot {slot : FdSlot} (h : syscallFdSlotFromFd fd = some slot) :
    s.endOf type fd = if (s.fds slot).type = type then (s.fds slot).pipeIdx else none := by
  simp only [Kernel.endOf, h]

theorem endOf_of_none (h : syscallFdSlotFromFd fd = none) : s.endOf type fd = none := by
  simp only [Kernel.endOf, h]

theorem slotFromFd_old (h : fd ≥ 0x1000) : syscallFdSlotFromFd fd = none := by
  refine dif_pos (.inr ?_)
  have hle : (0x1000 : UInt64).toNat ≤ fd.toNat := UInt64.le_iff_toNat_le.1 h
  exact le_trans (by decide) hle

theorem slotFromFd_console (h : fd.toNat < 3) : syscallFdSlotFromFd fd = none := dif_pos (.inl h)

end Moved

/-- From `s` to `s'` the given bytes entered the pipe behind those in it, and the given
bytes left it in front. -/
structure Streams (pi : PipeIdx) (s s' : Kernel ρ) (acc del : List UInt8) : Prop where
  bytes : s.buffered pi ++ acc = del ++ s'.buffered pi
  count : (s'.pipes pi).count ≤ PIPE_BUF_SIZE

theorem Streams.of_stream (hcount : (s.pipes pi).count ≤ PIPE_BUF_SIZE) (h : s'.stream pi = s.stream pi) :
    Streams pi s s' [] [] := by
  refine ⟨by rw [List.append_nil, List.nil_append, buffered_of_stream h], ?_⟩
  rw [show (s'.pipes pi).count = (s.pipes pi).count from congrArg (fun st => st.2.2) h]
  exact hcount

/-! ### Calls that leave a pipe alone -/

theorem syscallOpenUser_stream (userPath : UInt64) : Keeps (Kernel.stream pi) (syscallOpenUser userPath : M ρ ℕ) := by
  have hcopy : Keeps (Kernel.stream pi) (userCopyCstr userPath SYSCALL_PATH_MAX : M ρ (List UInt8)) :=
    Keeps.require_bind fun _ => stream_of_handles pi (userCopyCstrLoop_handles _ _)
  refine hcopy.bind fun path => Keeps.require_bind fun _ => Keeps.bind (fun _ => rfl) fun r => ?_
  refine Keeps.require_bind fun _ => Keeps.gets_bind fun fds => Keeps.ofOption_bind fun slot _ => ?_
  exact (setFd_stream slot _).bind fun _ => Keeps.pure

theorem syscallLseekFd_stream (fd offset whence : UInt64) :
    Keeps (Kernel.stream pi) (syscallLseekFd fd offset whence : M ρ ℕ) := by
  refine Keeps.ofOption_bind fun slot _ => Keeps.gets_bind fun e => Keeps.require_bind fun _ => ?_
  refine Keeps.bind (fun _ => rfl) fun r => Keeps.require_bind fun _ => ?_
  exact Keeps.ofOption_bind fun newPos _ => (setFd_stream slot _).bind fun _ => Keeps.pure

/-- A new pipe is made out of another one. -/
theorem syscallDoPipe_stream (userArray : UInt64) (h : freePipe s.pipes ≠ some pi) :
    (syscallDoPipe userArray s).2.stream pi = s.stream pi := by
  rw [syscallDoPipe]
  by_cases hptr : userArray ≠ 0
  swap
  · rw [require_neg hptr]
    rfl
  rw [require_pos hptr, pure_bind_eq, bind_ok (gets_apply _ s)]
  cases hfree : freePipe s.pipes with
  | none => rfl
  | some pj =>
    have hne : pi ≠ pj := fun heq => h (heq ▸ hfree)
    rw [ofOption_some, pure_bind_eq]
    refine (Keeps.gets_bind fun fds => Keeps.ofOption_bind fun slots _ => ?_ : Keeps (Kernel.stream pi) _) s
    have hopen : Keeps (Kernel.stream pi) (openPipe pj slots.1 slots.2 : M ρ Unit) :=
      (setPipe_stream_of_ne hne _).bind fun _ => (setFd_stream _ _).bind fun _ => setFd_stream _ _
    have habandon : Keeps (Kernel.stream pi) (abandonPipe pj slots.1 slots.2 : M ρ Unit) :=
      (setFd_stream _ _).bind fun _ => (setFd_stream _ _).bind fun _ => setPipe_stream _ fun _ => by rfl
    have hpublish := stream_of_handles pi (@publishPipe_handles ρ userArray slots.1 slots.2)
    exact hopen.bind fun _ => (hpublish.orElse habandon).bind fun _ => Keeps.pure

/-! ### Reads and writes -/

/-- A read works on the pipe its descriptor is an end of. -/
theorem syscallReadFd_pops (fd userPtr count : UInt64) (s : Kernel ρ) :
    (s.endOf .pipeRead fd ≠ some pi ∧ (syscallReadFd out fd userPtr count s).2.stream pi = s.stream pi) ∨
      (s.endOf .pipeRead fd = some pi ∧ Pops pi s (syscallReadFd out fd userPtr count s)) := by
  rw [syscallReadFd]
  by_cases hfd : fd = 0
  · rw [if_pos hfd, endOf_of_none (slotFromFd_console (by rw [hfd]; decide))]
    refine .inl ⟨by simp, ?_⟩
    split_ifs
    · rfl
    · exact stream_of_handles pi (syscallReadUser_handles _ _) s
  rw [if_neg hfd]
  cases hslot : syscallFdSlotFromFd fd with
  | none =>
    rw [endOf_of_none hslot, bind_fail (by rw [openSlot_apply, hslot])]
    exact .inl ⟨by simp, rfl⟩
  | some slot =>
    rw [endOf_of_slot hslot]
    have hopen := openSlot_apply fd s
    rw [hslot] at hopen
    by_cases htype : (s.fds slot).type = .none
    · simp only [htype, if_true] at hopen
      rw [bind_fail hopen]
      exact .inl ⟨by simp [htype], rfl⟩
    simp only [htype, if_false] at hopen
    rw [bind_ok hopen]
    by_cases hcount : min count.toNat SYS_READ_MAX_BYTES = 0
    · rw [if_pos hcount]
      by_cases hend : (if (s.fds slot).type = .pipeRead then (s.fds slot).pipeIdx else none) = some pi
      · exact .inr ⟨hend, Pops.idle⟩
      · exact .inl ⟨hend, rfl⟩
    rw [if_neg hcount, bind_ok (gets_apply _ s)]
    by_cases hread : (s.fds slot).type = .pipeRead
    · rw [if_pos hread, if_pos hread]
      cases (s.fds slot).pipeIdx with
      | none => exact .inl ⟨by simp, rfl⟩
      | some pj =>
        by_cases hpj : pj = pi
        · subst hpj
          exact .inr ⟨rfl, pipeRead_pops userPtr _ s⟩
        · exact .inl ⟨by simp [hpj], pipeRead_stream_of_ne (Ne.symm hpj) userPtr _ s⟩
    · rw [if_neg hread, if_neg hread]
      exact .inl ⟨by simp, fileRead_stream pi slot userPtr _ s⟩

/-- A write works on the pipe its descriptor is an end of. -/
theorem syscallWriteFd_pushes (fd userPtr lenOrZero : UInt64) (s : Kernel ρ) (hcount : (s.pipes pi).count ≤ PIPE_BUF_SIZE) :
    (s.endOf .pipeWrite fd ≠ some pi ∧ (syscallWriteFd out fd userPtr lenOrZero s).2.stream pi = s.stream pi) ∨
      (s.endOf .pipeWrite fd = some pi ∧ Pushes pi s (syscallWriteFd out fd userPtr lenOrZero s)) := by
  rw [syscallWriteFd]
  by_cases hfd : fd = 1 ∨ fd = 2
  · rw [if_pos hfd, endOf_of_none (slotFromFd_console (by rcases hfd with rfl | rfl <;> decide))]
    exact .inl ⟨by simp, stream_of_handles pi (syscallWriteUser_handles _ _) s⟩
  rw [if_neg hfd]
  cases hslot : syscallFdSlotFromFd fd with
  | none =>
    rw [endOf_of_none hslot]
    exact .inl ⟨by simp, rfl⟩
  | some slot =>
    rw [endOf_of_slot hslot, ofOption_some, pure_bind_eq, bind_ok (gets_apply _ s)]
    by_cases hwrite : (s.fds slot).type = .pipeWrite
    · rw [if_pos hwrite, require_pos hwrite, pure_bind_eq]
      cases (s.fds slot).pipeIdx with
      | none => exact .inl ⟨by simp, rfl⟩
      | some pj =>
        by_cases hpj : pj = pi
        · subst hpj
          exact .inr ⟨rfl, pipeWrite_pushes userPtr _ s hcount⟩
        · exact .inl ⟨by simp [hpj], pipeWrite_stream_of_ne (Ne.symm hpj) userPtr _ s⟩
    · rw [if_neg hwrite, require_neg hwrite]
      exact .inl ⟨by simp, rfl⟩

/-- Only reads and writes move bytes through a pipe, and a call that fails moves none. -/
theorem call_streams (c : Call) (hcount : (s.pipes pi).count ≤ PIPE_BUF_SIZE) (hkeep : ¬ Remakes pi c s) :
    Streams pi s (c.run out s).2 (accepted out pi c s) (delivered out pi c s) := by
  have quiet (hw : c.num = SYS_WRITE → s.endOf .pipeWrite c.a1 ≠ some pi)
      (hr : c.num = SYS_READ → s.endOf .pipeRead c.a1 ≠ some pi) (hstream : (c.run out s).2.stream pi = s.stream pi) :
      Streams pi s (c.run out s).2 (accepted out pi c s) (delivered out pi c s) := by
    have hacc : accepted out pi c s = [] := by
      by_cases hnum : c.num = SYS_WRITE
      · exact moved_of_endOf_ne (hw hnum)
      · exact moved_of_num_ne hnum s
    have hdel : delivered out pi c s = [] := by
      by_cases hnum : c.num = SYS_READ
      · exact moved_of_endOf_ne (hr hnum)
      · exact moved_of_num_ne hnum s
    rw [hacc, hdel]
    exact Streams.of_stream hcount hstream
  have hrun : c.run out s = syscallDispatch out c.num c.a1 c.a2 c.a3 c.a4 s := rfl
  rw [syscallDispatch] at hrun
  by_cases hold : c.num = SYS_WRITE ∧ c.a1 ≥ 0x1000
  · rw [if_pos hold] at hrun
    refine quiet (fun _ => by simp [endOf_of_none (slotFromFd_old hold.2)]) (fun h => absurd (hold.1.symm.trans h) (by decide)) ?_
    rw [hrun]
    exact stream_of_handles pi (syscallWriteUser_handles _ _) s
  rw [if_neg hold] at hrun
  by_cases hread : c.num = SYS_READ
  · rw [if_pos hread] at hrun
    have hnum : c.num ≠ SYS_WRITE := by rw [hread]; decide
    rcases @syscallReadFd_pops ρ out pi c.a1 c.a2 c.a3 s with ⟨hend, hstream⟩ | ⟨hend, ⟨n, s', hok, -, hbuf, hle⟩ | ⟨hno, hstream⟩⟩
    · exact quiet (fun h => absurd h hnum) (fun _ => hend) (by rw [hrun]; exact hstream)
    · rw [accepted, moved_of_num_ne hnum, delivered, moved_of_ok (hrun.trans hok) hread hend, hrun, hok]
      exact ⟨by rw [List.append_nil]; exact hbuf, hle.trans hcount⟩
    · rw [← hrun] at hno hstream
      rw [accepted, moved_of_num_ne hnum, delivered, moved_of_not_ok hno]
      exact Streams.of_stream hcount hstream
  rw [if_neg hread] at hrun
  by_cases hwrite : c.num = SYS_WRITE
  · rw [if_pos hwrite] at hrun
    rcases @syscallWriteFd_pushes ρ out pi c.a1 c.a2 c.a3 s hcount with
      ⟨hend, hstream⟩ | ⟨hend, ⟨n, s', hok, -, hbuf, hle⟩ | ⟨hno, hbuf, hsame⟩⟩
    · exact quiet (fun _ => hend) (fun h => absurd h hread) (by rw [hrun]; exact hstream)
    · rw [accepted, moved_of_ok (hrun.trans hok) hwrite hend, delivered, moved_of_num_ne hread, hrun, hok]
      exact ⟨hbuf.symm, hle⟩
    · rw [← hrun] at hno hbuf hsame
      rw [accepted, moved_of_not_ok hno, delivered, moved_of_num_ne hread]
      exact ⟨by rw [List.append_nil, List.nil_append, hbuf], by rw [hsame]; exact hcount⟩
  rw [if_neg hwrite] at hrun
  refine quiet (fun h => absurd h hwrite) (fun h => absurd h hread) ?_
  rw [hrun]
  by_cases hpipe : c.num = SYS_PIPE
  · rw [hpipe, if_neg (by decide), if_neg (by decide), if_neg (by decide), if_pos rfl]
    exact syscallDoPipe_stream c.a1 fun hfree => hkeep ⟨hpipe, hfree⟩
  rw [if_neg hpipe]
  split_ifs
  · exact syscallOpenUser_stream c.a1 s
  · exact syscallCloseFd_stream c.a1 s
  · exact syscallLseekFd_stream c.a1 c.a2 c.a3 s
  · exact congrArg (Kernel.stream pi) (syscallDoPoll_keeps c.a1 s)
  · rfl
  · rfl

variable {c : Call} {n : ℕ}

/-- A write that returns `n` accepted `n` bytes. -/
theorem length_accepted (hcount : (s.pipes pi).count ≤ PIPE_BUF_SIZE)
    (hok : (c.run out s).1 = .ok n) (hnum : c.num = SYS_WRITE) (hend : s.endOf .pipeWrite c.a1 = some pi) :
    (accepted out pi c s).length = n := by
  have hold : ¬ (c.num = SYS_WRITE ∧ c.a1 ≥ 0x1000) := fun h => by simp [endOf_of_none (slotFromFd_old h.2)] at hend
  have hrun : c.run out s = syscallWriteFd out c.a1 c.a2 c.a3 s := by
    rw [Call.run, syscallDispatch, if_neg hold, if_neg (by rw [hnum]; decide), if_pos hnum]
  rcases @syscallWriteFd_pushes ρ out pi c.a1 c.a2 c.a3 s hcount with ⟨hne, -⟩ | ⟨-, ⟨m, s', hm, hlen, -⟩ | ⟨hno, -⟩⟩
  · exact absurd hend hne
  · rw [accepted, moved_of_ok (hrun.trans hm) hnum hend, hlen]
    rw [hrun, hm] at hok
    exact Outcome.ok.inj hok
  · exact absurd (hrun ▸ hok) (hno n)

/-- A read that returns `n` delivered `n` bytes. -/
theorem length_delivered (hok : (c.run out s).1 = .ok n) (hnum : c.num = SYS_READ)
    (hend : s.endOf .pipeRead c.a1 = some pi) : (delivered out pi c s).length = n := by
  have hrun : c.run out s = syscallReadFd out c.a1 c.a2 c.a3 s := by
    rw [Call.run, syscallDispatch, if_neg fun h => absurd (hnum.symm.trans h.1) (by decide), if_pos hnum]
  rcases @syscallReadFd_pops ρ out pi c.a1 c.a2 c.a3 s with ⟨hne, -⟩ | ⟨-, ⟨m, s', hm, hlen, -⟩ | ⟨hno, -⟩⟩
  · exact absurd hend hne
  · rw [delivered, moved_of_ok (hrun.trans hm) hnum hend, hlen]
    rw [hrun, hm] at hok
    exact Outcome.ok.inj hok
  · exact absurd (hrun ▸ hok) (hno n)

/-! ### Runs -/

/-- A pipe from the call that made it on: the bytes accepted and delivered by calls of
any kind, between which the rest of the system may change everything but the tables
of descriptors and pipes. -/
inductive PipeRun (out : Outside ρ) (pi : PipeIdx) : Kernel ρ → List UInt8 → List UInt8 → Prop
  | opened {s : Kernel ρ} {n : ℕ} (c : Call) (hmake : Remakes pi c s) (hok : (c.run out s).1 = .ok n) :
      PipeRun out pi (c.run out s).2 [] []
  | call {s : Kernel ρ} {acc del : List UInt8} (c : Call) (h : PipeRun out pi s acc del) (hkeep : ¬ Remakes pi c s) :
      PipeRun out pi (c.run out s).2 (acc ++ accepted out pi c s) (del ++ delivered out pi c s)
  | cleanup {s : Kernel ρ} {acc del : List UInt8} (h : PipeRun out pi s acc del) :
      PipeRun out pi (syscallFdCleanup s).2 acc del
  | outside {s s' : Kernel ρ} {acc del : List UInt8} (h : PipeRun out pi s acc del) (hsame : s'.handles = s.handles) :
      PipeRun out pi s' acc del

theorem openPipe_pipes (s : Kernel ρ) (slotR slotW : FdSlot) : (openPipe pi slotR slotW s).2.pipes pi =
    { s.pipes pi with head := 0, count := 0, readOpen := true, writeOpen := true } :=
  Function.update_self ..

/-- A new pipe is empty. -/
theorem count_of_remakes (hmake : Remakes pi c s) (hrun : c.run out s = (.ok n, s')) :
    (s'.pipes pi).count = 0 := by
  obtain ⟨hnum, hfree⟩ := hmake
  rw [Call.run, syscallDispatch, hnum, if_neg fun h => absurd h.1 (by decide), if_neg (by decide), if_neg (by decide), if_neg (by decide),
    if_neg (by decide), if_neg (by decide), if_pos rfl, syscallDoPipe, Exec.bind_ok_iff] at hrun
  obtain ⟨_, _, hptr, hrun⟩ := hrun
  obtain ⟨-, rfl⟩ := Exec.require_ok_iff.1 hptr
  rw [bind_ok (gets_apply _ _), hfree, ofOption_some, pure_bind_eq,
    bind_ok (gets_apply _ _), Exec.bind_ok_iff] at hrun
  obtain ⟨slots, _, hslots, hrun⟩ := hrun
  obtain ⟨-, rfl⟩ := Exec.ofOption_ok_iff.1 hslots
  rw [Exec.bind_ok_iff] at hrun
  obtain ⟨_, s₁, hopen, hrun⟩ := hrun
  rw [Exec.bind_ok_iff] at hrun
  obtain ⟨_, s₂, hpublish, hrun⟩ := hrun
  have hkept := @publishPipe_handles ρ c.a1 slots.1 slots.2 s₁
  rw [Exec.orElse_ok_iff.1 hpublish] at hkept
  obtain rfl : s₂ = s' := congrArg Prod.snd hrun
  have hpipes : s₂.pipes = s₁.pipes := congrArg Prod.snd hkept
  rw [hpipes, show s₁ = (openPipe pi slots.1 slots.2 _).2 from (congrArg Prod.snd hopen).symm, openPipe_pipes]

section Short

/-- The first pipe is made, three bytes are written to it and two are read. -/
def shortCalls : Call × Call × Call :=
  (⟨SYS_PIPE, 0x6000, 0, 0, 0⟩, ⟨SYS_WRITE, 4, 0x5061, 3, 0⟩, ⟨SYS_READ, 3, 0x7000, 2, 0⟩)

def firstPipe : PipeIdx := ⟨0, pipeMax_pos⟩

def afterMake : Kernel Unit := (shortCalls.1.run quietOutside (Kernel.boot (lowTables (PAGE_FLAG_WRITABLE ||| PAGE_FLAG_USER))
  (fun p => UInt8.ofNat p.toNat) Ramfs.blank ())).2

def afterWrite : Kernel Unit := (shortCalls.2.1.run quietOutside afterMake).2

def afterRead : Kernel Unit := (shortCalls.2.2.run quietOutside afterWrite).2

end Short

end Tg11Kernel.Syscall
