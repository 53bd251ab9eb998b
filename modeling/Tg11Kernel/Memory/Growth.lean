import Tg11Kernel.Memory.Change

/-! What the page-table operations do to a memory whose tables are well formed. Frames are
only taken, tables are only added, and what lies in the other frames stays. Each
operation has its own account of the leaves. -/

namespace Tg11Kernel.Memory

open Lib Exec

/-! ### Growth -/

/-- A frame in use that holds no table. -/
def Data (m : Mem) (F : Frame) : Prop := m.used F.no = true ∧ ¬ m.tables.Table F

theorem not_data_of_free {m : Mem} {F : Frame} (h : m.used F.no = false) : ¬ Data m F := fun hdata => Bool.false_ne_true (h.symm.trans hdata.1)

/-- From `m` to `m'` only frames of tables were taken, and those in `own`. -/
structure Grows (own : List ℕ) (m m' : Mem) : Prop where
  wf : WellFormed m'
  used : ∀ n, m.used n = true → m'.used n = true
  tables : ∀ F, m.tables.Table F → m'.tables.Table F
  fresh : ∀ n, m'.used n = true → m.used n = true ∨ (∃ F, m'.tables.Table F ∧ F.no = n) ∨ n ∈ own
  data : ∀ F, Data m F → ¬ m'.tables.Table F ∧ ∀ i, m'.tables.get F i = m.tables.get F i

/-- Every address has the leaf it had. -/
def SameLeaves (m m' : Mem) : Prop := ∀ a, leaf m'.tables a = leaf m.tables a

/-- Every address outside the page of `addr` has the leaf it had. -/
def SameLeavesBut (addr : UInt64) (m m' : Mem) : Prop := ∀ a, place a ≠ place addr → leaf m'.tables a = leaf m.tables a

theorem SameLeaves.but {m m' : Mem} (h : SameLeaves m m') (addr : UInt64) : SameLeavesBut addr m m' := fun a _ => h a

theorem SameLeaves.trans {m m' m'' : Mem} (h : SameLeaves m m') (h' : SameLeaves m' m'') : SameLeaves m m'' :=
  fun a => (h' a).trans (h a)

theorem SameLeavesBut.trans {addr : UInt64} {m m' m'' : Mem} (h : SameLeavesBut addr m m') (h' : SameLeavesBut addr m' m'') :
    SameLeavesBut addr m m'' := fun a ha => (h' a ha).trans (h a ha)

namespace Grows

variable {own own' : List ℕ} {m m' m'' : Mem}

theorem refl (wf : WellFormed m) : Grows [] m m where
  wf := wf
  used _ h := h
  tables _ h := h
  fresh _ h := .inl h
  data _ h := ⟨h.2, fun _ => rfl⟩

theorem unused (h : Grows own m m') {n : ℕ} (hfree : m'.used n = false) : m.used n = false :=
  Bool.eq_false_iff.2 fun hused => Bool.false_ne_true (hfree.symm.trans (h.used n hused))

theorem keepsData (h : Grows own m m') {F : Frame} (hF : Data m F) : Data m' F := ⟨h.used _ hF.1, (h.data F hF).1⟩

theorem trans (h : Grows own m m') (h' : Grows own' m' m'') : Grows (own ++ own') m m'' where
  wf := h'.wf
  used n hn := h'.used n (h.used n hn)
  tables F hF := h'.tables F (h.tables F hF)
  fresh n hn := by
    rcases h'.fresh n hn with hn | ⟨F, hF, rfl⟩ | hn
    · rcases h.fresh n hn with hn | ⟨F, hF, rfl⟩ | hn
      · exact .inl hn
      · exact .inr (.inl ⟨F, h'.tables F hF, rfl⟩)
      · exact .inr (.inr (List.mem_append_left _ hn))
    · exact .inr (.inl ⟨F, hF, rfl⟩)
    · exact .inr (.inr (List.mem_append_right _ hn))
  data F hF := by
    have hF' := h.keepsData hF
    exact ⟨(h'.data F hF').1, fun i => ((h'.data F hF').2 i).trans ((h.data F hF).2 i)⟩

theorem mono (h : Grows own m m') (hsub : ∀ n ∈ own, n ∈ own') : Grows own' m m' where
  wf := h.wf
  used := h.used
  tables := h.tables
  fresh n hn := (h.fresh n hn).imp id (Or.imp id (hsub n))
  data := h.data

/-- Nothing but pointers kept and frames without tables changed. -/
theorem of_sameTree (wf : WellFormed m) (h : SameTree m.tables m'.tables) (hused : m'.used = m.used)
    (hdata : ∀ F, Data m F → ∀ i, m'.tables.get F i = m.tables.get F i) : Grows [] m m' where
  wf := h.wellFormed wf (fun F hF => by rw [hused]; exact (wf.used F hF).2) (by rw [hused]; exact wf.zero)
  used n hn := by rwa [hused]
  tables F hF := (h.table F).2 hF
  fresh n hn := .inl (by rwa [hused] at hn)
  data F hF := ⟨fun hF' => hF.2 ((h.table F).1 hF'), hdata F hF⟩

theorem of_setsEntry {addr : UInt64} {F : Frame} {e : UInt64} (wf : WellFormed m) (h : SetsEntry m.tables m'.tables addr F e)
    (hused : m'.used = m.used) : Grows [] m m' where
  wf := h.wellFormed wf hused
  used n hn := by rwa [hused]
  tables F hF := (h.table wf F).2 hF
  fresh n hn := .inl (by rwa [hused] at hn)
  data G hG := by
    refine ⟨fun hG' => hG.2 ((h.table wf G).1 hG'), fun i => h.frame G i (.inl ?_)⟩
    rintro rfl
    exact hG.2 (table_of_walk (path_le addr) h.holds)

end Grows

/-! ### Single words and bytes -/

theorem get_setEntry (m : Mem) (F G : Frame) (i j : Index) (e : UInt64) :
    (m.setEntry (slot F i) e).tables.get G j = if G = F ∧ j = i then e else m.tables.get G j := by
  unfold Mem.setEntry PageTables.setEntry PageTables.get
  dsimp only
  simp only [slot_inj]

/-- The words of a frame. -/
theorem in_frame_iff (F G : Frame) (i : Index) : (F.1 ≤ slot G i ∧ slot G i - F.1 < MEMORY_PAGE_SIZE) ↔ G = F := by
  have hF := F.toNat_no
  have hG := slot_toNat G i
  have hi := i.isLt
  have hsize : MEMORY_PAGE_SIZE.toNat = 4096 := rfl
  constructor
  · rintro ⟨hle, hlt⟩
    have hsub := UInt64.toNat_sub_of_le _ _ hle
    rw [UInt64.le_iff_toNat_le] at hle
    rw [UInt64.lt_iff_toNat_lt, hsub, hsize] at hlt
    exact Frame.ext_no (by omega)
  · rintro rfl
    have hle : G.1 ≤ slot G i := by
      rw [UInt64.le_iff_toNat_le]
      omega
    refine ⟨hle, ?_⟩
    rw [UInt64.lt_iff_toNat_lt, UInt64.toNat_sub_of_le _ _ hle, hsize]
    omega

theorem slot_sub_toNat (F : Frame) (i : Index) : (slot F i - F.1).toNat = 8 * i := by
  have hF := F.toNat_no
  have hG := slot_toNat F i
  rw [UInt64.toNat_sub_of_le _ _ ((in_frame_iff F F i).2 rfl).1]
  omega

theorem get_storeBytes_ne (m : Mem) {F G : Frame} (h : G ≠ F) (i : Index) (off n : ℕ) (f : ℕ → UInt8) :
    (m.storeBytes F.1 off n f).tables.get G i = m.tables.get G i := by
  unfold Mem.storeBytes PageTables.storeBytes PageTables.get
  dsimp only
  rw [if_neg fun hin => h ((in_frame_iff F G i).1 hin)]

theorem get_zero (m : Mem) (F : Frame) (i : Index) : (m.storeBytes F.1 0 4096 fun _ => 0).tables.get F i = 0 := by
  have hi := i.isLt
  unfold Mem.storeBytes PageTables.storeBytes PageTables.get
  dsimp only
  rw [if_pos ((in_frame_iff F F i).2 rfl), slot_sub_toNat]
  have hbytes : ofBytes (fun j => if 0 ≤ 8 * i.val + j ∧ 8 * i.val + j < 0 + 4096 then (0 : UInt8)
      else byteOf (m.tables.entry (slot F i)).toNat j) 8 = ofBytes (fun _ => 0) 8 := by
    apply ofBytes_congr
    intro j hj
    rw [if_pos (by omega)]
  rw [hbytes]
  rfl

end Tg11Kernel.Memory
