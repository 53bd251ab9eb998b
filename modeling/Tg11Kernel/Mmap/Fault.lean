import Tg11Kernel.Heap.Supply

/-! The exception handler, as far as it serves page faults of a user program: a page that is
missing in the lower half is mapped to a fresh frame and the instruction is tried again.
Everything else stops the program or the kernel, which is an error return here. -/

namespace Tg11Kernel.Mmap

open Lib Exec Memory Heap

/-- `pf_recovery_t` -/
structure PfRecovery where
  faultingAddress : UInt64
  isPresent : Bool
  isWrite : Bool
  isUser : Bool
  isReserved : Bool
  isExec : Bool
  recoverable : Bool
  recoveryType : ℕ

def pfRecoveryAnalyze (cr2 errorCode : UInt64) : PfRecovery :=
  let userSpaceLimit : UInt64 := 0x800000000000
  let r : PfRecovery := ⟨cr2, has errorCode 0x01, has errorCode 0x02, has errorCode 0x04, has errorCode 0x08, has errorCode 0x10, false, 0⟩
  if r.isUser = false then r
  else if r.isPresent = true then r
  else if r.isReserved = true then r
  else if cr2 ≥ userSpaceLimit then r
  else { r with recoverable := true, recoveryType := 1 }

def demandFlags : UInt64 := PAGE_FLAG_PRESENT ||| PAGE_FLAG_USER ||| PAGE_FLAG_WRITABLE ||| PAGE_FLAG_NO_EXECUTE

def pageOf (addr : UInt64) : UInt64 := addr &&& ~~~(MEMORY_PAGE_SIZE - 1)

def pfRecoveryAttempt (r : PfRecovery) : Exec Mem Unit := do
  require (r.recoverable = true ∧ r.recoveryType = 1)
  let pageVirt := pageOf r.faultingAddress
  require (pageVirt ≠ 0)
  let phys ← physAllocPage
  require (phys ≠ 0)
  orElse (pagingMapPage pageVirt phys demandFlags) (physFreePage phys)

def exceptionHandler (vector cs cr2 errorCode : UInt64) : Exec Mem Unit :=
  if vector &&& 0xFF = 14 ∧ cs &&& 3 = 3 then pfRecoveryAttempt (pfRecoveryAnalyze cr2 errorCode) else fail

/-- A fault that the handler tries to serve. -/
structure Demands (vector cs cr2 errorCode : UInt64) : Prop where
  pageFault : vector &&& 0xFF = 14
  ring : cs &&& 3 = 3
  user : has errorCode 0x04 = true
  absent : has errorCode 0x01 = false
  valid : has errorCode 0x08 = false
  low : cr2 < 0x800000000000
  nonzero : pageOf cr2 ≠ 0

variable {m m' : Mem} {vector cs cr2 errorCode : UInt64}

theorem aligned_pageOf (addr : UInt64) : Aligned (pageOf addr) := by
  unfold pageOf Aligned
  rw [UInt64.and_assoc, UInt64.not_and_self, UInt64.and_zero]

/-- The handler serves a demand and refuses the rest without a change. -/
theorem exceptionHandler_of_demands (h : Demands vector cs cr2 errorCode) : exceptionHandler vector cs cr2 errorCode = (do
    let phys ← physAllocPage
    require (phys ≠ 0)
    orElse (pagingMapPage (pageOf cr2) phys demandFlags) (physFreePage phys)) := by
  unfold exceptionHandler pfRecoveryAnalyze
  rw [if_pos ⟨h.pageFault, h.ring⟩]
  have hlow : ¬ cr2 ≥ 0x800000000000 := UInt64.not_le.2 h.low
  simp only [h.user, h.absent, h.valid, hlow, Bool.true_eq_false, Bool.false_eq_true, if_false]
  unfold pfRecoveryAttempt
  simp only [and_self, require_pos, pure_bind_eq]
  rw [require_pos h.nonzero, pure_bind_eq]

theorem exceptionHandler_of_not_demands (h : ¬ Demands vector cs cr2 errorCode) : exceptionHandler vector cs cr2 errorCode m = (.fail, m) := by
  unfold exceptionHandler
  by_cases hvector : vector &&& 0xFF = 14 ∧ cs &&& 3 = 3
  · rw [if_pos hvector]
    unfold pfRecoveryAnalyze
    dsimp only
    split_ifs with huser hpresent hreserved hhigh
    · rfl
    · rfl
    · rfl
    · rfl
    · have hzero : ¬ pageOf cr2 ≠ 0 := fun hne =>
        h ⟨hvector.1, hvector.2, by simpa using huser, by simpa using hpresent, by simpa using hreserved, UInt64.not_le.1 hhigh, hne⟩
      unfold pfRecoveryAttempt
      rw [require_pos ⟨rfl, rfl⟩, pure_bind_eq]
      dsimp only
      rw [require_neg hzero]
      rfl
  · rw [if_neg hvector]
    rfl

theorem place_pageOf (addr : UInt64) : place (pageOf addr) = place addr := by
  have hmask : pageOf addr = addr &&& ~~~4095 := rfl
  apply place_of_page
  rw [hmask, maskDown_toNat]
  omega

theorem leaf_pageOf (wf : WellFormed m) (addr : UInt64) : leaf m.tables (pageOf addr) = leaf m.tables addr :=
  leaf_congr wf (place_pageOf addr)

/-! ### What a fault does -/

/-- The page is mapped on a fresh frame, or nothing changes but frames of tables. -/
theorem exceptionHandler_ends (wf : WellFormed m) : Ends (exceptionHandler vector cs cr2 errorCode) m
    (fun _ m' => Demands vector cs cr2 errorCode ∧ ∃ f, Laid demandFlags [pageOf cr2] f m m') (Restored m) := by
  by_cases hd : Demands vector cs cr2 errorCode
  · rw [exceptionHandler_of_demands hd]
    apply (physAllocPage_ends wf (Restored m)).bind
    rintro phys m₁ (⟨rfl, rfl⟩ | ⟨F, rfl, htaken⟩)
    · exact Ends.require_bind (fun h => absurd rfl h) fun _ => .refl wf
    apply Ends.require_bind _ fun h => absurd htaken.nonzero h
    intro _
    have hwf₁ := (htaken.grows wf).wf
    have hmap := Ends.of_post (pagingMapPage_returns (pageOf cr2) F.1 demandFlags m₁)
      ((pagingMapPage_post hwf₁ (pageOf cr2) F.1 demandFlags).and (pagingMapPage_paths hwf₁ (pageOf cr2) F.1 demandFlags))
    apply (hmap.orElse (E := Restored m) _).mono
    · rintro _ m₂ ⟨⟨hnone, hsets⟩, hpaths, hwalk, hopen⟩
      have hempty : Laid demandFlags [] (fun _ => F) m m := Laid.refl wf _
      have hgrown := hempty.toGrown.snoc htaken (Zeroed.refl F m₁) hnone hsets (Zeroed.refl F m₂)
      exact ⟨hd, _, hempty.snoc hgrown (htaken.paths.trans hpaths) hwalk hopen⟩
    · exact fun _ h => h
    · rintro m₂ ⟨hunchanged, hpaths⟩
      have hrun : physFreePage F.1 m₂ = (.ok (), m₂.freeFrame F.no) := physFreePage_apply F.1 m₂
      have htotal : Grows [F.no] m m₂ := ((htaken.grows wf).trans hunchanged.1).mono fun n hn => by rwa [List.append_nil] at hn
      have hsame : SameLeaves m m₂ := fun a => by rw [hunchanged.2 a, htaken.tables]
      have howned : Owned m₂ F := (htaken.owned wf).grows hunchanged.1
      exact .inl ⟨(), _, hrun, restored_freeFrame htaken.free htotal howned hsame (htaken.paths.trans hpaths)⟩
  · exact .inr ⟨m, exceptionHandler_of_not_demands hd, .refl wf⟩

/-- With frames enough a missing page is mapped. -/
theorem exceptionHandler_supplied (wf : WellFormed m) (hd : Demands vector cs cr2 errorCode) (h : Plenty m 4)
    (habsent : leaf m.tables cr2 = none) : Post (exceptionHandler vector cs cr2 errorCode) m (fun _ _ => True) fun _ => False := by
  rw [exceptionHandler_of_demands hd]
  apply (physAllocPage_supplied wf).bind fun _ h => h
  rintro phys m₁ (⟨-, -, hnone⟩ | ⟨F, rfl, htaken⟩)
  · exact absurd (h.mono (by omega)) hnone
  apply Post.require_bind _ fun h => absurd htaken.nonzero h
  intro _
  have hplenty : Plenty m₁ 3 := h.spends (.of_taken htaken)
  have habsent₁ : leaf m₁.tables (pageOf cr2) = none := by rw [htaken.tables, leaf_pageOf wf, habsent]
  have hmap := (pagingMapPage_supplied (htaken.grows wf).wf demandFlags (aligned_pageOf cr2) (aligned_frame F)).never_fails
    fun _ h => h.2 ⟨hplenty, habsent₁⟩
  exact (hmap.orElse fun _ h => h.elim).mono (fun _ _ _ => trivial) fun _ h => h

end Tg11Kernel.Mmap
