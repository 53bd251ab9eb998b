import Tg11Kernel.Mmap.Books
import Tg11Kernel.Mmap.Fault
import Tg11Kernel.Mmap.Isolation

/-! Two executions of a program that make the same calls. One of them also touches pages that
are missing, and the fault handler maps them. A page in the heap's window or beyond the bump
address is then in the way of a later call; elsewhere the calls do not see it. -/

namespace Tg11Kernel.Mmap

open Lib Exec Memory Heap Function

/-- The error code of a load or a store of a user program to a missing page. -/
def accessError (store : Bool) : UInt64 := if store = true then 0x06 else 0x04

def handleFault (vector cs cr2 errorCode : UInt64) : Exec Process Unit := onUser (onMem (exceptionHandler vector cs cr2 errorCode))

/-- The two executions. The pages that the second touches satisfy `P`. -/
inductive Twins (P : Process → UInt64 → Prop) (s₀ : Process) : Process → Process → Prop where
  | start : Twins P s₀ s₀ s₀
  | call {s t : Process} (c : Call) (hrun : Twins P s₀ s t) (hs : Enough s c) (ht : Enough t c) : Twins P s₀ (c.run s).2 (c.run t).2
  | access {s t : Process} (addr cs : UInt64) (store : Bool) (hrun : Twins P s₀ s t) (hring : cs &&& 3 = 3) (hlow : 4096 ≤ addr)
      (hhigh : addr < 0x800000000000) (habsent : leaf t.user.mem.tables addr = none) (hplenty : Plenty t.user.mem 4) (hP : P t addr) :
      Twins P s₀ s (handleFault 14 cs addr (accessError store) t).2

/-- One page is mapped: to a frame that was free, for the user, writable and not executable. -/
structure FaultServed (page : UInt64) (m m' : Mem) : Prop where
  absent : leaf m.tables page = none
  frame : ∃ F : Frame, m.used F.no = false ∧ Backed m' demandFlags page F
  user : MappedWith m'.tables page PAGE_FLAG_USER
  writable : MappedWith m'.tables page PAGE_FLAG_WRITABLE
  notExecutable : ¬ Executable m'.tables page
  others : ∀ a, place a ≠ place page → leaf m'.tables a = leaf m.tables a

/-- A fault is served with one page, or changes nothing. -/
structure FaultCall (t : Process) (cr2 : UInt64) (r : Outcome Unit × Process) : Prop where
  returns : r.1 ≠ .hang
  served : r.1 = .ok () → ∃ m, r.2 = t.withMem m ∧ FaultServed (pageOf cr2) t.user.mem m
  failed : r.1 = .fail → r.2 = t

/-- What demand paging promises: the calls answer the same, and a fault maps its page or nothing.
The error code of a fault tells whether the page is missing. -/
structure Undisturbed (s t : Process) : Prop where
  calls : ∀ c, Enough s c → Enough t c → (c.run s).1 = (c.run t).1
  faults : ∀ vector cs cr2 errorCode, Plenty t.user.mem 4 → (has errorCode 0x01 = false → leaf t.user.mem.tables cr2 = none) →
    FaultCall t cr2 (handleFault vector cs cr2 errorCode t)

/-- The page that is touched lies outside the heap's window and below the bump address. -/
def Clear (t : Process) (addr : UInt64) : Prop := (pageOf addr < t.user.base ∨ t.user.limit ≤ pageOf addr) ∧ pageOf addr < t.mmapBump

variable {D : UInt64 → Prop} {s₀ s t : Process} {asked φ : UInt64 → UInt64} {f : UInt64 → Frame} {m m' : Mem} {cr2 : UInt64}

theorem FaultServed.of_laid {page : UInt64} {g : UInt64 → Frame} (h : Laid demandFlags [page] g m m') : FaultServed page m m' := by
  have hmem := List.mem_singleton_self page
  have hb := h.backed page hmem
  have hflag : ∀ {f : UInt64}, (PAGE_FLAGS_MASK ||| PAGE_FLAG_NO_EXECUTE) &&& f = f → PAGE_ADDR_MASK &&& f = 0 → PAGE_FLAG_PRESENT &&& f = 0 →
      has demandFlags f = true → has (pageEntry (g page).1 demandFlags) f = true :=
    fun hf haddr hpresent hhas => (has_pageEntry_flag _ _ hf haddr hpresent).trans hhas
  refine ⟨h.absent page hmem, ⟨g page, h.free page hmem, hb⟩, ?_, ?_, ?_, ?_⟩
  · exact (h.opened page hmem _ (.inl rfl) (by decide)).mappedWith h.grows.wf hb.leaf (hflag (by decide) (by decide) (by decide) (by decide))
  · exact (h.opened page hmem _ (.inr rfl) (by decide)).mappedWith h.grows.wf hb.leaf (hflag (by decide) (by decide) (by decide) (by decide))
  · intro hexec
    have hnx := not_noExecute_of_executable h.grows.wf hexec hb.leaf
    rw [hflag (by decide) (by decide) (by decide) (by decide)] at hnx
    cases hnx
  · exact fun a ha => h.others a fun v hv => List.mem_singleton.1 hv ▸ ha

theorem faultCall (wf : WellFormed t.user.mem) {vector cs errorCode : UInt64} (hplenty : Plenty t.user.mem 4)
    (htells : has errorCode 0x01 = false → leaf t.user.mem.tables cr2 = none) : FaultCall t cr2 (handleFault vector cs cr2 errorCode t) := by
  by_cases hd : Demands vector cs cr2 errorCode
  · rcases (exceptionHandler_ends wf).and_post (exceptionHandler_supplied wf hd hplenty (htells hd.absent)) with
      ⟨_, m, hrun, ⟨-, g, hl⟩, -⟩ | ⟨_, -, -, hfalse⟩
    · have hcall : handleFault vector cs cr2 errorCode t = (.ok (), t.withMem m) := onUser_onMem_apply hrun
      rw [hcall]
      exact ⟨nofun, fun _ => ⟨m, rfl, .of_laid hl⟩, nofun⟩
    · exact hfalse.elim
  · have hcall : handleFault vector cs cr2 errorCode t = (.fail, t) := onUser_onMem_apply (exceptionHandler_of_not_demands hd)
    rw [hcall]
    exact ⟨nofun, nofun, fun _ => rfl⟩

/-! ### Side by side -/

/-- The accounts of the two executions. `D` are the pages that the second touched. -/
structure Paired (s₀ s t : Process) (D : UInt64 → Prop) : Prop where
  left : ∃ asked φ f, MmapInv (fun _ => False) s₀ s asked φ f
  right : ∃ asked φ f, MmapInv D s₀ t asked φ f
  books : s.books = t.books
  aside : Aside D t.mmapBump

theorem MmapInv.call (h : MmapInv D s₀ s asked φ f) (c : Call) : ∃ asked φ f, MmapInv D s₀ (c.run s).2 asked φ f := by
  cases c with
  | brk n =>
    obtain ⟨φ', f', h'⟩ := h.brk n
    exact ⟨asked, φ', f', h'⟩
  | mmap addrHint len prot flags =>
    have hends := syscallDoMmap_ends h.holds.wf h.layout.aligned addrHint len prot flags
    show ∃ asked φ f, MmapInv D s₀ (syscallDoMmap addrHint len prot flags s).2 asked φ f
    generalize syscallDoMmap addrHint len prot flags s = r at hends
    cases hends with
    | refused hr => exact ⟨asked, φ, f, h.restored hr⟩
    | mapped hslot hpos hle hl => exact ⟨_, _, _, h.mapped (freeSlot_some hslot) hpos hle hl⟩
  | munmap addr len =>
    refine ⟨asked, φ, f, ?_⟩
    have hmunmap := h.munmap addr len
    show MmapInv D s₀ (((syscallDoMunmap addr len >>= fun _ => pure 0) : Exec Process UInt64) s).2 asked φ f
    rcases hrun : syscallDoMunmap addr len s with ⟨_ | _ | _, s'⟩ <;> rw [hrun] at hmunmap
    · rw [bind_ok hrun]
      exact hmunmap
    · rw [bind_fail hrun]
      exact hmunmap
    · rw [bind_hang hrun]
      exact hmunmap

/-- The bump address never moves down. -/
theorem MmapInv.bump_le (h : MmapInv D s₀ s asked φ f) (c : Call) : s.mmapBump ≤ (c.run s).2.mmapBump := by
  cases c with
  | brk n => exact UInt64.le_refl _
  | mmap addrHint len prot flags =>
    have hends := syscallDoMmap_ends h.holds.wf h.layout.aligned addrHint len prot flags
    show s.mmapBump ≤ (syscallDoMmap addrHint len prot flags s).2.mmapBump
    generalize syscallDoMmap addrHint len prot flags s = r at hends
    cases hends with
    | refused hr => exact UInt64.le_refl _
    | mapped hslot hpos hle hl =>
      rw [UInt64.le_iff_toNat_le, h.layout.bump_add (UInt64.le_iff_toNat_le.1 hle)]
      exact Nat.le_add_right _ _
  | munmap addr len =>
    have hslot : (syscallDoMunmap addr len s).2.mmapBump = s.mmapBump := by
      unfold syscallDoMunmap
      rw [bind_ok (gets_apply _ _), id_eq]
      cases hslot : s.slotAt addr with
      | none => rfl
      | some slot =>
        obtain ⟨m, hrun, -⟩ := h.releaseSlot (slotAt_some hslot).1
        show (Mmap.releaseSlot slot s).2.mmapBump = s.mmapBump
        rw [hrun]
        rfl
    show s.mmapBump ≤ (((syscallDoMunmap addr len >>= fun _ => pure 0) : Exec Process UInt64) s).2.mmapBump
    rcases hrun : syscallDoMunmap addr len s with ⟨_ | _ | _, s'⟩ <;> rw [hrun] at hslot
    · rw [bind_ok hrun]
      exact UInt64.le_of_eq hslot.symm
    · rw [bind_fail hrun]
      exact UInt64.le_of_eq hslot.symm
    · rw [bind_hang hrun]
      exact UInt64.le_of_eq hslot.symm

namespace Paired

theorem answer_eq (h : Paired s₀ s t D) {c : Call} (hs : Enough s c) (ht : Enough t c) : (c.run s).1 = (c.run t).1 := by
  obtain ⟨_, _, _, hl⟩ := h.left
  obtain ⟨_, _, _, hr⟩ := h.right
  have hnone : Aside (fun _ => False) s.mmapBump := fun _ hp => hp.elim
  rw [(hl.answers hnone hs).1, (hr.answers h.aside ht).1, h.books]

theorem call (h : Paired s₀ s t D) {c : Call} (hs : Enough s c) (ht : Enough t c) : Paired s₀ (c.run s).2 (c.run t).2 D := by
  obtain ⟨_, _, _, hl⟩ := h.left
  obtain ⟨_, _, _, hr⟩ := h.right
  have hnone : Aside (fun _ => False) s.mmapBump := fun _ hp => hp.elim
  refine ⟨hl.call c, hr.call c, ?_, fun p hp => ⟨(h.aside p hp).1, UInt64.lt_of_lt_of_le (h.aside p hp).2 (hr.bump_le c)⟩⟩
  rw [(hl.answers hnone hs).2, (hr.answers h.aside ht).2, h.books]

theorem fault (h : Paired s₀ s t D) {vector cs errorCode : UInt64} (hclear : Clear t cr2) :
    ∃ D', Paired s₀ s (handleFault vector cs cr2 errorCode t).2 D' := by
  obtain ⟨asked, φ, f, hr⟩ := h.right
  rcases @exceptionHandler_ends _ vector cs cr2 errorCode hr.holds.wf with
    ⟨_, m, hrun, -, g, hl⟩ | ⟨m, hrun, hrestored⟩
  · have hcall : handleFault vector cs cr2 errorCode t = (.ok (), t.withMem m) := onUser_onMem_apply hrun
    rw [hcall]
    refine ⟨fun v => D v ∨ v = pageOf cr2, h.left, ⟨_, _, _, hr.laid (aligned_pageOf cr2) hl⟩, h.books, ?_⟩
    rintro p (hp | rfl)
    · exact h.aside p hp
    · exact ⟨hr.base ▸ hr.limit ▸ hclear.1, hclear.2⟩
  · have hcall : handleFault vector cs cr2 errorCode t = (.fail, t.withMem m) := onUser_onMem_apply hrun
    rw [hcall]
    exact ⟨D, h.left, ⟨asked, φ, f, hr.restored hrestored⟩, h.books, h.aside⟩

theorem undisturbed (h : Paired s₀ s t D) : Undisturbed s t where
  calls _ hs ht := h.answer_eq hs ht
  faults _ _ _ _ hplenty htells := by
    obtain ⟨_, _, _, hr⟩ := h.right
    exact faultCall hr.holds.wf hplenty htells

end Paired

theorem Twins.paired (hstart : Started s₀) (hrun : Twins Clear s₀ s t) : ∃ D, Paired s₀ s t D := by
  induction hrun with
  | start =>
    have hinv := hstart.inv (fun _ => 0) (fun _ => 0) fun _ => s₀.user.mem.tables.root
    exact ⟨fun _ => False, ⟨_, _, _, hinv⟩, ⟨_, _, _, hinv⟩, rfl, fun _ hp => hp.elim⟩
  | call c _ hs ht ih =>
    obtain ⟨D, h⟩ := ih
    exact ⟨D, h.call hs ht⟩
  | access addr cs store _ _ _ _ _ _ hclear ih =>
    obtain ⟨D, h⟩ := ih
    exact h.fault hclear

theorem plenty_of_range {first k : ℕ} (hlt : first + k ≤ MEMORY_MAX_PAGES) (h : ∀ n < k, m.used (first + n) = false) : Plenty m k := by
  refine ⟨(Finset.range k).map ⟨fun n => first + n, fun _ _ h => Nat.add_left_cancel h⟩, by simp, ?_⟩
  intro n hn
  obtain ⟨k', hk', rfl⟩ := Finset.mem_map.1 hn
  rw [Finset.mem_range] at hk'
  exact ⟨(Nat.add_lt_add_left hk' _).trans_le hlt, h k' hk'⟩

theorem plenty_bare : Plenty bareProcess.user.mem 7 := @plenty_of_range _ 100 _ (by decide) (by decide)

end Tg11Kernel.Mmap
