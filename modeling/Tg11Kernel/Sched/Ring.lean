import Tg11Kernel.Sched.Switch
import Tg11Kernel.Sched.Table
import Tg11Kernel.Lib.Circle

/-! The scheduler's circle. The used slots form one circle from slot 0, exactly the
current task is running, and slot 0 never stops; so a search along the circle always
ends, and finds a ready task whenever the current one gives up for good. -/

namespace Tg11Kernel.Sched

open Lib Exec

variable {κ : Type} {live : κ → Prop} {s s' : Scheduler κ} {l l₁ l₂ : List Slot} {t p : Slot} {fuel : ℕ}

/-- What the fields of the slots say apart from the links. `live` holds of a context
that goes on to a task's own code. -/
structure Sound (live : κ → Prop) (s : Scheduler κ) : Prop where
  free : ∀ i, (s.tasks i).id = 0 → (s.tasks i).state = .zombie
  ids : ∀ i j, (s.tasks i).id ≠ 0 → (s.tasks i).id = (s.tasks j).id → i = j
  fresh : ∀ i, (s.tasks i).id < s.nextId
  current : (s.tasks s.current).id ≠ 0
  running : ∀ i, (s.tasks i).state = .running ↔ i = s.current
  kernel : (s.tasks kernelSlot).state = .ready ∨ (s.tasks kernelSlot).state = .running
  saved : ∀ i, (s.tasks i).state = .ready ∨ (s.tasks i).state = .stopped → ∃ c, (s.tasks i).rsp = some c ∧ live c
  protect : s.protectMode kernelSlot = .default

/-- The circle goes through the used slots, in the order of `l` behind slot 0. -/
structure OnRing (live : κ → Prop) (s : Scheduler κ) (l : List Slot) : Prop where
  circle : Circle s.next kernelSlot l
  used : ∀ i, i ∈ kernelSlot :: l ↔ (s.tasks i).id ≠ 0
  sound : Sound live s

theorem OnRing.length_lt (h : OnRing live s l) : l.length < TASK_MAX := by
  have hcard := List.Nodup.length_le_card h.circle.nodup
  rwa [List.length_cons, Fintype.card_fin] at hcard

theorem OnRing.kernelSlot_not_mem (h : OnRing live s l) : kernelSlot ∉ l := (List.nodup_cons.1 h.circle.nodup).1

/-! ### Updates -/

/-- Two states that agree on all that soundness looks at. -/
structure SameTasks (s s' : Scheduler κ) : Prop where
  id : ∀ i, (s'.tasks i).id = (s.tasks i).id
  state : ∀ i, (s'.tasks i).state = (s.tasks i).state
  rsp : ∀ i, (s'.tasks i).rsp = (s.tasks i).rsp
  current : s'.current = s.current
  nextId : s'.nextId = s.nextId
  protect : s'.protectMode kernelSlot = s.protectMode kernelSlot

theorem SameTasks.sound (h : SameTasks s s') (hs : Sound live s) : Sound live s' := by
  constructor
  · intro i
    rw [h.id, h.state]
    exact hs.free i
  · intro i j
    rw [h.id, h.id]
    exact hs.ids i j
  · intro i
    rw [h.id, h.nextId]
    exact hs.fresh i
  · rw [h.id, h.current]
    exact hs.current
  · intro i
    rw [h.state, h.current]
    exact hs.running i
  · rw [h.state]
    exact hs.kernel
  · intro i
    rw [h.state, h.rsp]
    exact hs.saved i
  · rw [h.protect]
    exact hs.protect

/-- An update of a slot that leaves those fields. -/
theorem sameTasks_setTask {f : Task κ → Task κ} (hf : ∀ x, ((f x).id, (f x).state, (f x).rsp) = (x.id, x.state, x.rsp)) :
    SameTasks s (s.setTask t f) := by
  have htasks : ∀ i, (((s.setTask t f).tasks i).id, ((s.setTask t f).tasks i).state, ((s.setTask t f).tasks i).rsp) =
      ((s.tasks i).id, (s.tasks i).state, (s.tasks i).rsp) := by
    intro i
    rcases eq_or_ne i t with rfl | hne
    · rw [setTask_tasks_self, hf]
    · rw [setTask_tasks_of_ne hne]
  simp only [Prod.mk.injEq] at htasks
  exact ⟨fun i => (htasks i).1, fun i => (htasks i).2.1, fun i => (htasks i).2.2, rfl, rfl, rfl⟩

theorem OnRing.of_same (h : OnRing live s l) (hsame : SameTasks s s') (hnext : s'.next = s.next) : OnRing live s' l := by
  refine ⟨by rw [hnext]; exact h.circle, fun i => ?_, hsame.sound h.sound⟩
  rw [hsame.id]
  exact h.used i

/-! ### Taking a task out -/

theorem unlinkLoop_of_mem (h : Arc s.next kernelSlot p (l₁ ++ t :: l₂)) (hnodup : (p :: (l₁ ++ t :: l₂)).Nodup)
    (hroot : kernelSlot ∉ l₁) (hfuel : l₁.length < fuel) :
    unlinkLoop t fuel p s = (.ok (), s.setTask (Arc.lastOf p l₁) fun x => { x with next := s.next t }) := by
  induction l₁ generalizing p fuel with
  | nil =>
    obtain ⟨fuel, rfl⟩ : ∃ k, fuel = k + 1 := ⟨fuel - 1, by simp at hfuel; omega⟩
    unfold unlinkLoop
    rw [bind_ok (gets_apply _ s), h.1, if_pos rfl, bind_ok (gets_apply _ s)]
    rfl
  | cons b l₁ ih =>
    obtain ⟨fuel, rfl⟩ : ∃ k, fuel = k + 1 := ⟨fuel - 1, by simp at hfuel; omega⟩
    have hb : b ≠ t := by
      rintro rfl
      simp at hnodup
    have hroot' : b ≠ kernelSlot ∧ kernelSlot ∉ l₁ := by
      simp only [List.mem_cons, not_or] at hroot
      exact ⟨Ne.symm hroot.1, hroot.2⟩
    unfold unlinkLoop
    rw [bind_ok (gets_apply _ s), h.1, if_neg fun heq => hb (Option.some.inj heq)]
    simp only [hroot'.1, if_false]
    apply ih h.2 (List.nodup_cons.1 hnodup).2 hroot'.2
    simp at hfuel
    omega

theorem unlinkLoop_of_not_mem (h : Arc s.next kernelSlot p l) (ht : t ∉ l) (hne : t ≠ kernelSlot) (hroot : kernelSlot ∉ l)
    (hfuel : l.length < fuel) : unlinkLoop t fuel p s = (.ok (), s) := by
  induction l generalizing p fuel with
  | nil =>
    obtain ⟨fuel, rfl⟩ : ∃ k, fuel = k + 1 := ⟨fuel - 1, by simp at hfuel; omega⟩
    unfold unlinkLoop
    rw [bind_ok (gets_apply _ s), show s.next p = some kernelSlot from h,
      if_neg fun heq => hne (Option.some.inj heq).symm]
    simp
  | cons b l ih =>
    obtain ⟨fuel, rfl⟩ : ∃ k, fuel = k + 1 := ⟨fuel - 1, by simp at hfuel; omega⟩
    simp only [List.mem_cons, not_or] at ht hroot
    unfold unlinkLoop
    rw [bind_ok (gets_apply _ s), h.1, if_neg fun heq => ht.1 (Option.some.inj heq).symm]
    simp only [Ne.symm hroot.1, if_false]
    apply ih h.2 ht.2 hroot.2
    simp at hfuel
    omega

theorem Sound.reclaimed (h : Sound live s) (ht : t ≠ kernelSlot) (hcur : t ≠ s.current) : Sound live (s.reclaimed t) := by
  have hself : (s.reclaimed t).tasks t =
      { rsp := none, stackBase := 0, id := 0, state := .zombie, entry := 0, arg := 0, name := [], next := none } :=
    Function.update_self ..
  have hother : ∀ i, i ≠ t → (s.reclaimed t).tasks i = s.tasks i := fun i hi => Function.update_of_ne hi ..
  constructor
  · intro i
    rcases eq_or_ne i t with rfl | hi
    · simp [hself]
    · rw [hother i hi]
      exact h.free i
  · intro i j hi hij
    have hit : i ≠ t := by
      rintro rfl
      simp [hself] at hi
    have hjt : j ≠ t := by
      rintro rfl
      rw [hij, hself] at hi
      exact hi rfl
    rw [hother i hit] at hi hij
    rw [hother j hjt] at hij
    exact h.ids i j hi hij
  · intro i
    rcases eq_or_ne i t with rfl | hi
    · rw [hself]
      exact UInt32.lt_of_le_of_lt UInt32.zero_le (h.fresh i)
    · rw [hother i hi]
      exact h.fresh i
  · rw [show (s.reclaimed t).current = s.current from rfl, hother _ hcur.symm]
    exact h.current
  · intro i
    rcases eq_or_ne i t with rfl | hi
    · simp [hself, show (s.reclaimed i).current = s.current from rfl, hcur]
    · rw [hother i hi]
      exact h.running i
  · rw [hother _ ht.symm]
    exact h.kernel
  · intro i
    rcases eq_or_ne i t with rfl | hi
    · simp [hself]
    · rw [hother i hi]
      exact h.saved i
  · show Function.update s.protectMode t _ kernelSlot = _
    rw [Function.update_of_ne ht.symm]
    exact h.protect

/-- A slot off the circle is reclaimed. -/
theorem OnRing.reclaimed (hcircle : Circle s.next kernelSlot l) (hused : ∀ i ≠ t, i ∈ kernelSlot :: l ↔ (s.tasks i).id ≠ 0)
    (hs : Sound live s) (hl : t ∉ l) (ht : t ≠ kernelSlot) (hcur : t ≠ s.current) : OnRing live (s.reclaimed t) l := by
  refine ⟨hcircle.congr fun d hd => ?_, fun i => ?_, hs.reclaimed ht hcur⟩
  · have hdt : d ≠ t := by
      rintro rfl
      exact (List.mem_cons.1 hd).elim ht hl
    exact congrArg Task.next (Function.update_of_ne hdt ..)
  · rcases eq_or_ne i t with rfl | hi
    · apply iff_of_false
      · simp [ht, hl]
      · simp [show (s.reclaimed i).tasks i = _ from Function.update_self ..]
    · rw [show (s.reclaimed t).tasks i = s.tasks i from Function.update_of_ne hi ..]
      exact hused i hi

/-- What removing a task leaves: the slot is free, and the others have their tasks. -/
structure Removed (live : κ → Prop) (t : Slot) (s s' : Scheduler κ) : Prop where
  ring : ∃ l, OnRing live s' l
  slot : (s'.tasks t).id = 0
  current : s'.current = s.current
  nextId : s'.nextId = s.nextId

theorem OnRing.removeTask (h : OnRing live s l) (ht : t ≠ kernelSlot) (hcur : t ≠ s.current) (hfuel : TASK_MAX ≤ fuel) :
    ∃ s', Sched.removeTask fuel t s = (.ok (), s') ∧ Removed live t s s' := by
  have hlen := h.length_lt
  unfold Sched.removeTask unlinkTask
  rw [if_neg ht]
  by_cases hl : t ∈ l
  · obtain ⟨l₁, l₂, rfl⟩ := List.append_of_mem hl
    simp only [List.length_append] at hlen
    have hroot : kernelSlot ∉ l₁ := fun hmem => h.kernelSlot_not_mem (List.mem_append_left _ hmem)
    have hbypass := h.circle.bypass
    have hnotmem : t ∉ l₁ ++ l₂ := by
      have hnodup := (List.nodup_cons.1 h.circle.nodup).2
      rw [List.nodup_middle] at hnodup
      exact (List.nodup_cons.1 hnodup).1
    rw [bind_ok (unlinkLoop_of_mem h.circle.arc h.circle.nodup hroot (by omega))]
    have hsame : SameTasks s (s.setTask (Arc.lastOf kernelSlot l₁) fun x => { x with next := s.next t }) :=
      sameTasks_setTask fun _ => rfl
    refine ⟨_, reclaimTaskSlot_apply ht, ⟨l₁ ++ l₂, ?_⟩, ?_, rfl, rfl⟩
    · apply OnRing.reclaimed _ _ (hsame.sound h.sound) hnotmem ht hcur
      · rw [setTask_next]
        exact hbypass
      · intro i hi
        rw [hsame.id, ← h.used i]
        simp [hi]
    · simp [Scheduler.reclaimed]
  · rw [bind_ok (unlinkLoop_of_not_mem h.circle.arc hl ht h.kernelSlot_not_mem (by omega))]
    exact ⟨_, reclaimTaskSlot_apply ht, ⟨l, OnRing.reclaimed h.circle (fun i _ => h.used i) h.sound hl ht hcur⟩,
      by simp [Scheduler.reclaimed], rfl, rfl⟩

/-- Only removals by a loop over the slots: the current task stays. -/
theorem OnRing.removeEach (h : OnRing live s l) (picked : Scheduler κ → Slot → Bool)
    (hpicked : ∀ s i, picked s i = true → i ≠ s.current) (hfuel : TASK_MAX ≤ fuel) (slots : List Slot)
    (hslots : ∀ i ∈ slots, i ≠ kernelSlot) :
    ∃ n s', Sched.removeEach fuel picked slots s = (.ok n, s') ∧ (∃ l', OnRing live s' l') ∧ s'.nextId = s.nextId := by
  induction slots generalizing s l with
  | nil => exact ⟨0, s, rfl, ⟨l, h⟩, rfl⟩
  | cons i slots ih =>
    have htail : ∀ j ∈ slots, j ≠ kernelSlot := fun j hj => hslots j (List.mem_cons_of_mem _ hj)
    unfold Sched.removeEach
    rw [bind_ok (gets_apply _ s)]
    by_cases hpick : picked s i = true
    · obtain ⟨s₁, hrun, ⟨l₁, hring⟩, -, -, hid⟩ := h.removeTask (hslots i (by simp)) (hpicked s i hpick) hfuel
      obtain ⟨n, s₂, hrest, hring₂, hid₂⟩ := ih hring htail
      rw [id, if_pos hpick, bind_ok hrun, bind_ok hrest]
      exact ⟨n + 1, s₂, rfl, hring₂, hid₂.trans hid⟩
    · rw [id, if_neg hpick]
      exact ih h htail

/-! ### Making a task -/

theorem OnRing.claimSlot (h : OnRing live s l) (hfuel : TASK_MAX ≤ fuel) :
    Ends (Sched.claimSlot fuel) s (fun t s' => t ≠ kernelSlot ∧ (∃ l', OnRing live s' l') ∧ (s'.tasks t).id = 0 ∧
      s'.nextId = s.nextId) (· = s) := by
  unfold Sched.claimSlot
  apply Ends.gets_bind
  cases hfree : slotsAfterKernel.find? fun i => decide ((s.tasks i).id = 0) with
  | some t =>
    have hid : (s.tasks t).id = 0 := by simpa using List.find?_some hfree
    exact Ends.pure ⟨mem_slotsAfterKernel.1 (List.mem_of_find?_eq_some hfree), ⟨l, h⟩, hid, rfl⟩
  | none =>
    apply Ends.ofOption_bind
    · intro t hzombie
      have ht := mem_slotsAfterKernel.1 (List.mem_of_find?_eq_some hzombie)
      have hstate : (s.tasks t).state = .zombie := by
        have hfound := List.find?_some hzombie
        simp at hfound
        exact hfound.1
      have hcur : t ≠ s.current := by
        intro heq
        have hrun := (h.sound.running t).2 heq
        rw [hstate] at hrun
        simp at hrun
      obtain ⟨s', hrun, hring, hslot, -, hid⟩ := h.removeTask ht hcur hfuel
      refine .inl ⟨t, s', ?_, ht, hring, hslot, hid⟩
      rw [bind_ok hrun]
      rfl
    · intro _
      rfl

/-- A free slot `t` has got a new task, linked in behind slot 0. -/
structure Created (live : κ → Prop) (t : Slot) (s s' : Scheduler κ) : Prop where
  id : (s'.tasks t).id = s.nextId
  state : (s'.tasks t).state = .ready
  rsp : ∃ c, (s'.tasks t).rsp = some c ∧ live c
  others : ∀ i ≠ t, ((s'.tasks i).id, (s'.tasks i).state, (s'.tasks i).rsp) =
    ((s.tasks i).id, (s.tasks i).state, (s.tasks i).rsp)
  next : s'.next = Function.update (Function.update s.next t (s.next kernelSlot)) kernelSlot (some t)
  current : s'.current = s.current
  nextId : s'.nextId = s.nextId + 1
  protect : s'.protectMode kernelSlot = s.protectMode kernelSlot

theorem Sound.created (h : Sound live s) (hnew : Created live t s s') (ht : t ≠ kernelSlot) (hfree : (s.tasks t).id = 0)
    (hwrap : s.nextId.toNat + 1 < 2 ^ 32) : Sound live s' := by
  have hothers : ∀ i ≠ t, (s'.tasks i).id = (s.tasks i).id ∧ (s'.tasks i).state = (s.tasks i).state ∧
      (s'.tasks i).rsp = (s.tasks i).rsp := by
    intro i hi
    have heq := hnew.others i hi
    simpa only [Prod.mk.injEq] using heq
  have hcur : s.current ≠ t := by
    intro heq
    apply h.current
    rw [heq]
    exact hfree
  have hsucc : s.nextId < s.nextId + 1 := by
    rw [UInt32.lt_iff_toNat_lt, UInt32.toNat_add]
    exact lt_of_lt_of_eq (Nat.lt_succ_self _) (Nat.mod_eq_of_lt hwrap).symm
  -- the new id is above all others, so it is none of them
  have hidne : ∀ i ≠ t, (s'.tasks i).id ≠ s.nextId := by
    intro i hi heq
    have hlt := h.fresh i
    rw [← (hothers i hi).1, heq] at hlt
    exact UInt32.lt_irrefl _ hlt
  constructor
  · intro i hi
    rcases eq_or_ne i t with rfl | hit
    · rw [hnew.id] at hi
      have hlt := h.fresh i
      rw [hi, hfree] at hlt
      exact absurd hlt (UInt32.lt_irrefl _)
    · rw [(hothers i hit).1] at hi
      rw [(hothers i hit).2.1]
      exact h.free i hi
  · intro i j hi hij
    by_cases hit : i = t <;> by_cases hjt : j = t
    · rw [hit, hjt]
    · rw [hit, hnew.id] at hij
      exact absurd hij.symm (hidne j hjt)
    · rw [hjt, hnew.id] at hij
      exact absurd hij (hidne i hit)
    · rw [(hothers i hit).1] at hi hij
      rw [(hothers j hjt).1] at hij
      exact h.ids i j hi hij
  · intro i
    rw [hnew.nextId]
    rcases eq_or_ne i t with rfl | hit
    · rw [hnew.id]
      exact hsucc
    · rw [(hothers i hit).1]
      exact UInt32.lt_trans (h.fresh i) hsucc
  · rw [hnew.current, (hothers _ hcur).1]
    exact h.current
  · intro i
    rw [hnew.current]
    rcases eq_or_ne i t with rfl | hit
    · simp [hnew.state, Ne.symm hcur]
    · rw [(hothers i hit).2.1]
      exact h.running i
  · rw [(hothers _ ht.symm).2.1]
    exact h.kernel
  · intro i
    rcases eq_or_ne i t with rfl | hit
    · exact fun _ => hnew.rsp
    · rw [(hothers i hit).2.1, (hothers i hit).2.2]
      exact h.saved i
  · rw [hnew.protect]
    exact h.protect

theorem OnRing.created (h : OnRing live s l) (hnew : Created live t s s') (ht : t ≠ kernelSlot) (hfree : (s.tasks t).id = 0)
    (hwrap : s.nextId.toNat + 1 < 2 ^ 32) : OnRing live s' (t :: l) := by
  have hnotmem : t ∉ kernelSlot :: l := fun hmem => (h.used t).1 hmem hfree
  refine ⟨?_, fun i => ?_, h.sound.created hnew ht hfree hwrap⟩
  · rw [hnew.next]
    exact h.circle.insert hnotmem
  · rcases eq_or_ne i t with rfl | hit
    · apply iff_of_true
      · simp
      · rw [hnew.id]
        intro heq
        have hlt := h.sound.fresh i
        rw [heq, hfree] at hlt
        exact UInt32.lt_irrefl _ hlt
    · have hid := congrArg Prod.fst (hnew.others i hit)
      rw [show (s'.tasks i).id = (s.tasks i).id from hid, ← h.used i]
      simp [hit]

theorem OnRing.taskCreate (h : OnRing live s l) {fresh : κ} (hlive : live fresh) (hfuel : TASK_MAX ≤ fuel)
    (name : Option (List UInt8)) (entry arg stack : UInt64) :
    Ends (Sched.taskCreate fuel fresh name entry arg stack) s
      (fun _ s' => (s.nextId.toNat + 1 < 2 ^ 32 → ∃ l', OnRing live s' l') ∧ s'.nextId = s.nextId + 1)
      fun s' => (∃ l', OnRing live s' l') ∧ s'.nextId = s.nextId := by
  unfold Sched.taskCreate
  refine Ends.bind ((h.claimSlot hfuel).mono (fun _ _ hq => hq) ?_) ?_
  · rintro s' rfl
    exact ⟨⟨l, h⟩, rfl⟩
  rintro t s₁ ⟨ht, ⟨l₁, hring⟩, hfree, hid⟩
  have hsame : SameTasks s₁ (s₁.setTask t fun task => { task with stackBase := stack }) := sameTasks_setTask fun _ => rfl
  have hring₂ : OnRing live (s₁.setTask t fun task => { task with stackBase := stack }) l₁ :=
    hring.of_same hsame (setTask_next_of_eq fun _ => rfl)
  rw [Ends, bind_ok (show setTask t _ s₁ = (.ok (), s₁.setTask t fun task => { task with stackBase := stack }) from rfl)]
  apply Ends.require_bind
  · intro hstack
    refine .inl ⟨_, _, rfl, fun hwrap => ⟨t :: l₁, hring.created ?_ ht hfree (by rw [hid]; exact hwrap)⟩, ?_⟩
    · constructor
      · simp [Scheduler.setTask, ht]
      · simp [Scheduler.setTask, ht]
      · simp [Scheduler.setTask, ht, hlive]
      · intro i hi
        rcases eq_or_ne i kernelSlot with rfl | hk
        · simp [Scheduler.setTask, ht.symm]
        · simp [Scheduler.setTask, hi, hk]
      · funext i
        rcases eq_or_ne i kernelSlot with rfl | hk
        · simp [Scheduler.setTask, Scheduler.next]
        · rcases eq_or_ne i t with rfl | hi
          · simp [Scheduler.setTask, Scheduler.next, ht, ht.symm]
          · simp [Scheduler.setTask, Scheduler.next, hi, hk]
      · rfl
      · rfl
      · simp [Scheduler.setTask, ht.symm]
    · simp [Scheduler.setTask, hid]
  · intro _
    exact ⟨⟨l₁, hring₂⟩, hid⟩

/-! ### Removing, stopping, protecting -/

theorem Sound.protected_kernel (h : Sound live s) : isProtectedTask s kernelSlot = true := by
  simp [isProtectedTask, h.protect]

section

variable (h : OnRing live s l)
include h

theorem OnRing.taskKill (hfuel : TASK_MAX ≤ fuel) (id : UInt32) :
    Ends (Sched.taskKill fuel id) s (fun _ s' => (∃ l', OnRing live s' l') ∧ s'.nextId = s.nextId) (· = s) := by
  unfold Sched.taskKill
  apply Ends.gets_bind
  apply Ends.ofOption_bind
  · intro t _
    apply Ends.require_bind
    · intro hallowed
      rw [not_or] at hallowed
      have ht : t ≠ kernelSlot := by
        rintro rfl
        exact hallowed.1 h.sound.protected_kernel
      obtain ⟨s', hrun, hring, -, -, hid⟩ := h.removeTask ht hallowed.2 hfuel
      exact .inl ⟨(), s', hrun, hring, hid⟩
    · intro _
      rfl
  · intro _
    rfl

theorem OnRing.taskKillAll (hfuel : TASK_MAX ≤ fuel) :
    ∃ n s', Sched.taskKillAll fuel s = (.ok n, s') ∧ (∃ l', OnRing live s' l') ∧ s'.nextId = s.nextId := by
  apply h.removeEach _ _ hfuel
  · intro i hi
    exact mem_slotsAfterKernel.1 hi
  · intro s i hpick
    simp only [decide_eq_true_eq] at hpick
    exact hpick.1

theorem OnRing.taskReapZombies (hfuel : TASK_MAX ≤ fuel) :
    ∃ s', Sched.taskReapZombies fuel s = (.ok (), s') ∧ (∃ l', OnRing live s' l') ∧ s'.nextId = s.nextId := by
  unfold Sched.taskReapZombies
  obtain ⟨n, s', hrun, hring⟩ := h.removeEach
    (fun s i => i ≠ s.current ∧ (s.tasks i).id ≠ 0 ∧ (s.tasks i).state = .zombie)
    (fun s i hpick => by simp only [decide_eq_true_eq] at hpick; exact hpick.1) hfuel slotsAfterKernel
    fun i hi => mem_slotsAfterKernel.1 hi
  rw [bind_ok hrun]
  exact ⟨s', rfl, hring⟩

/-- A task that is not running is stopped or made ready. -/
theorem OnRing.setState {state : TaskState} (hold : (s.tasks t).state = .ready ∨ (s.tasks t).state = .stopped)
    (hnew : state = .ready ∨ state = .stopped) (ht : t ≠ kernelSlot) :
    OnRing live (s.setTask t fun x => { x with state }) l := by
  have hid : ∀ i, ((s.setTask t fun x => { x with state }).tasks i).id = (s.tasks i).id := by
    intro i
    rcases eq_or_ne i t with rfl | hi
    · rw [setTask_tasks_self]
    · rw [setTask_tasks_of_ne hi]
  refine ⟨?_, fun i => ?_, ?_⟩
  · rw [setTask_next_of_eq fun _ => by rfl]
    exact h.circle
  · rw [hid]
    exact h.used i
  constructor
  · intro i hi
    rw [hid] at hi
    have hzombie := h.sound.free i hi
    rcases eq_or_ne i t with rfl | hit
    · rcases hold with hold | hold <;> simp [hold] at hzombie
    · rw [setTask_tasks_of_ne hit]
      exact hzombie
  · intro i j
    rw [hid, hid]
    exact h.sound.ids i j
  · intro i
    rw [hid]
    exact h.sound.fresh i
  · rw [hid]
    exact h.sound.current
  · intro i
    rcases eq_or_ne i t with rfl | hit
    · rw [setTask_tasks_self, setTask_current, ← h.sound.running i]
      rcases hold with hold | hold <;> rcases hnew with rfl | rfl <;> simp [hold]
    · rw [setTask_tasks_of_ne hit]
      exact h.sound.running i
  · rw [setTask_tasks_of_ne ht.symm]
    exact h.sound.kernel
  · intro i
    rcases eq_or_ne i t with rfl | hit
    · rw [setTask_tasks_self]
      exact fun _ => h.sound.saved i hold
    · rw [setTask_tasks_of_ne hit]
      exact h.sound.saved i
  · exact h.sound.protect

theorem OnRing.taskStop (id : UInt32) :
    Ends (Sched.taskStop id) s (fun _ s' => OnRing live s' l ∧ s'.nextId = s.nextId) (· = s) := by
  unfold Sched.taskStop
  apply Ends.gets_bind
  apply Ends.ofOption_bind
  · intro t _
    apply Ends.require_bind
    · intro hallowed
      simp only [not_or, not_and_or, not_not] at hallowed
      obtain ⟨hprot, hcur, hstate⟩ := hallowed
      have ht : t ≠ kernelSlot := by
        rintro rfl
        exact hprot h.sound.protected_kernel
      have hready : (s.tasks t).state = .ready := hstate.resolve_right fun hrun => hcur ((h.sound.running t).1 hrun)
      exact .inl ⟨(), _, rfl, h.setState (.inl hready) (.inr rfl) ht, rfl⟩
    · intro _
      rfl
  · intro _
    rfl

theorem OnRing.taskContinue (id : UInt32) :
    Ends (Sched.taskContinue id) s (fun _ s' => OnRing live s' l ∧ s'.nextId = s.nextId) (· = s) := by
  unfold Sched.taskContinue
  apply Ends.gets_bind
  apply Ends.ofOption_bind
  · intro t _
    apply Ends.require_bind
    · intro hstopped
      have ht : t ≠ kernelSlot := by
        rintro rfl
        rcases h.sound.kernel with hk | hk <;> simp [hk] at hstopped
      exact .inl ⟨(), _, rfl, h.setState (.inr hstopped) (.inl rfl) ht, rfl⟩
    · intro _
      rfl
  · intro _
    rfl

theorem OnRing.setProtectMode (ht : t ≠ kernelSlot) (mode : ProtectMode) :
    OnRing live { s with protectMode := Function.update s.protectMode t mode } l := by
  have hsame : SameTasks s { s with protectMode := Function.update s.protectMode t mode } :=
    ⟨fun _ => rfl, fun _ => rfl, fun _ => rfl, rfl, rfl, Function.update_of_ne ht.symm ..⟩
  exact h.of_same hsame rfl

theorem OnRing.taskSetProtectionById (id : UInt32) (enabled : Bool) :
    Ends (Sched.taskSetProtectionById id enabled) s (fun _ s' => OnRing live s' l ∧ s'.nextId = s.nextId) (· = s) := by
  unfold Sched.taskSetProtectionById
  apply Ends.require_bind
  · intro _
    apply Ends.gets_bind
    apply Ends.ofOption_bind
    · intro t _
      apply Ends.require_bind
      · intro ht
        exact .inl ⟨(), _, rfl, h.setProtectMode ht _, rfl⟩
      · intro _
        rfl
    · intro _
      rfl
  · intro _
    rfl

theorem OnRing.taskSetProtectionByName (name : List UInt8) (enabled : Bool) :
    Ends (Sched.taskSetProtectionByName name enabled) s (fun _ s' => OnRing live s' l ∧ s'.nextId = s.nextId) (· = s) := by
  unfold Sched.taskSetProtectionByName
  apply Ends.require_bind
  · intro _
    apply Ends.gets_bind
    apply Ends.ofOption_bind
    · intro t hfound
      have ht := mem_slotsAfterKernel.1 (List.mem_of_find?_eq_some hfound)
      exact .inl ⟨(), _, rfl, h.setProtectMode ht _, rfl⟩
    · intro _
      rfl
  · intro _
    rfl

end

end Tg11Kernel.Sched
