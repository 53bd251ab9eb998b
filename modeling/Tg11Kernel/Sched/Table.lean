import Tg11Kernel.Sched.Task

/-! What the operations that do not leave the running task write to the table. Every
one of them is a sequence of the changes listed here, so a property that these keep
is kept by all, whatever the links look like. -/

namespace Tg11Kernel.Sched

open Lib Exec

variable {κ : Type} {s s' : Scheduler κ} {t p : Slot} {fuel : ℕ}

@[simp] theorem setTask_tasks_self (f : Task κ → Task κ) : (s.setTask t f).tasks t = f (s.tasks t) :=
  Function.update_self ..

theorem setTask_tasks_of_ne {i : Slot} (h : i ≠ t) (f : Task κ → Task κ) : (s.setTask t f).tasks i = s.tasks i :=
  Function.update_of_ne h ..

section

variable (f : Task κ → Task κ)
include f

@[simp] theorem setTask_current : (s.setTask t f).current = s.current := rfl

@[simp] theorem setTask_nextId : (s.setTask t f).nextId = s.nextId := rfl

@[simp] theorem setTask_protectMode : (s.setTask t f).protectMode = s.protectMode := rfl

theorem setTask_next : (s.setTask t f).next = Function.update s.next t (f (s.tasks t)).next := by
  funext i
  exact Function.apply_update (fun _ (x : Task κ) => x.next) s.tasks t _ i

end

/-- An update that leaves the link. -/
theorem setTask_next_of_eq {f : Task κ → Task κ} (h : ∀ x, (f x).next = x.next) : (s.setTask t f).next = s.next := by
  rw [setTask_next, h]
  exact Function.update_eq_self ..

theorem setState_id {i : Slot} (state : TaskState) : ((s.setTask t fun x => { x with state }).tasks i).id = (s.tasks i).id := by
  rcases eq_or_ne i t with rfl | hi
  · rw [setTask_tasks_self]
  · rw [setTask_tasks_of_ne hi]

/-- A slot as `reclaim_task_slot` leaves it. -/
def Scheduler.reclaimed (s : Scheduler κ) (t : Slot) : Scheduler κ :=
  { s.setTask t fun _ =>
      { rsp := none, stackBase := 0, id := 0, state := .zombie, entry := 0, arg := 0, name := [], next := none } with
    protectMode := Function.update s.protectMode t .default }

/-- A slot as `task_create` fills it. -/
def Scheduler.filled (s : Scheduler κ) (t : Slot) (fresh : κ) (name : List UInt8) (entry arg : UInt64) : Scheduler κ :=
  { s.setTask t fun task => { task with rsp := some fresh, id := s.nextId, state := .ready, entry, arg, name } with
    nextId := s.nextId + 1 }

theorem mem_slotsAfterKernel {i : Slot} : i ∈ slotsAfterKernel ↔ i ≠ kernelSlot := by
  revert i
  decide

theorem reclaimTaskSlot_apply (ht : t ≠ kernelSlot) : reclaimTaskSlot t s = (.ok (), s.reclaimed t) := by
  unfold reclaimTaskSlot
  rw [if_neg ht]
  rfl

/-- `t` may be reclaimed: it is not the current task, or it is a zombie. -/
def Removable (s : Scheduler κ) (t : Slot) : Prop := t ≠ s.current ∨ (s.tasks t).state = .zombie

/-- One write to the slots there are. -/
inductive Change (s : Scheduler κ) : Scheduler κ → Prop
  | link (t : Slot) (next : Option Slot) : Change s (s.setTask t fun x => { x with next })
  | stack (t : Slot) (stackBase : UInt64) : Change s (s.setTask t fun x => { x with stackBase })
  | reclaim (t : Slot) (h : Removable s t) : Change s (s.reclaimed t)
  | stop (t : Slot) (h : t ≠ s.current) (hs : (s.tasks t).state = .ready ∨ (s.tasks t).state = .running) :
      Change s (s.setTask t fun x => { x with state := .stopped })
  | cont (t : Slot) (h : (s.tasks t).state = .stopped) : Change s (s.setTask t fun x => { x with state := .ready })
  | protect (protectMode : Slot → ProtectMode) : Change s { s with protectMode }
  | preemption (preemptEnabled : Bool) : Change s { s with preemptEnabled }
  | user (userTaskSavedRsp : UInt64) : Change s { s with userTaskSavedRsp }

abbrev Changes : Scheduler κ → Scheduler κ → Prop := Relation.ReflTransGen Change

/-- Changes, or a new task in a free slot among them. -/
inductive Result (fresh : κ) (s s' : Scheduler κ) : Prop
  | kept (h : Changes s s')
  | made (u : Scheduler κ) (t : Slot) (name : List UInt8) (entry arg : UInt64) (h : Changes s u)
      (hfree : (u.tasks t).id = 0) (h' : Changes (u.filled t fresh name entry arg) s')

/-- The search for the task before `t` writes at most its link. -/
theorem unlinkLoop_state (t : Slot) (fuel : ℕ) (p : Slot) (s : Scheduler κ) :
    (unlinkLoop t fuel p s).2 = s ∨ ∃ q next, (unlinkLoop t fuel p s).2 = s.setTask q fun x => { x with next } := by
  induction fuel generalizing p with
  | zero => exact .inl rfl
  | succ fuel ih =>
    unfold unlinkLoop
    rw [bind_ok (gets_apply _ s)]
    by_cases hfound : s.next p = some t
    · rw [if_pos hfound]
      exact .inr ⟨p, s.next t, rfl⟩
    · rw [if_neg hfound]
      cases hp : s.next p with
      | none => exact .inl rfl
      | some p' =>
        by_cases hroot : p' = kernelSlot
        · simp [hroot]
        · simp only [hroot, if_false]
          exact ih p'

theorem changes_removeTask (h : Removable s t) : Changes s (removeTask fuel t s).2 := by
  have hunlink : (unlinkTask fuel t s).2 = s ∨ ∃ q next, (unlinkTask fuel t s).2 = s.setTask q fun x => { x with next } := by
    unfold unlinkTask
    split_ifs
    · exact .inl rfl
    · exact unlinkLoop_state t fuel kernelSlot s
  have hreclaim : ∀ u : Scheduler κ, Removable u t → Changes s u → Changes s (reclaimTaskSlot t u).2 := by
    intro u hu hs
    by_cases ht : t = kernelSlot
    · unfold reclaimTaskSlot
      rw [if_pos ht]
      exact hs
    · rw [reclaimTaskSlot_apply ht]
      exact hs.tail (.reclaim t hu)
  unfold removeTask
  rcases hunlink with hsame | ⟨q, next, hlink⟩
  · apply Exec.bind_state_of
    · rw [hsame]
    · intro _ _
      rw [hsame]
      exact hreclaim s h .refl
  · have hone : Changes s (s.setTask q fun x => { x with next }) := .single (.link q next)
    apply Exec.bind_state_of
    · rw [hlink]
      exact hone
    · intro _ _
      rw [hlink]
      apply hreclaim _ _ hone
      apply h.imp id
      intro hz
      rcases eq_or_ne t q with rfl | htq
      · rw [setTask_tasks_self]
        exact hz
      · rw [setTask_tasks_of_ne htq]
        exact hz

theorem removeTask_id {u : Scheduler κ} (ht : t ≠ kernelSlot) (h : removeTask fuel t s = (.ok (), u)) : (u.tasks t).id = 0 := by
  obtain ⟨_, v, -, hreclaim⟩ := Exec.bind_ok_iff.1 h
  rw [reclaimTaskSlot_apply ht] at hreclaim
  simp only [Prod.mk.injEq] at hreclaim
  rw [← hreclaim.2]
  simp [Scheduler.reclaimed]

/-- The slots picked are never that of the current task. -/
theorem changes_removeEach (picked : Scheduler κ → Slot → Bool) (hpicked : ∀ s i, picked s i = true → i ≠ s.current)
    (slots : List Slot) (s : Scheduler κ) : Changes s (removeEach fuel picked slots s).2 := by
  induction slots generalizing s with
  | nil => exact .refl
  | cons i slots ih =>
    unfold removeEach
    rw [bind_ok (gets_apply _ s)]
    by_cases hpick : picked s i = true
    · rw [id, if_pos hpick]
      apply Exec.bind_state (changes_removeTask (.inl (hpicked s i hpick)))
      intro _ u hu
      apply Exec.bind_state (hu.trans (ih u))
      exact fun _ _ hv => hv
    · rw [id, if_neg hpick]
      exact ih s

/-- The slot claimed is free. -/
theorem changes_claimSlot (fuel : ℕ) (s : Scheduler κ) : Changes s (claimSlot fuel s).2 ∧
    ∀ t, (claimSlot fuel s).1 = .ok t → ((claimSlot fuel s).2.tasks t).id = 0 := by
  unfold claimSlot
  rw [bind_ok (gets_apply _ s)]
  cases hfree : slotsAfterKernel.find? fun i => decide ((s.tasks i).id = 0) with
  | some t =>
    refine ⟨.refl, ?_⟩
    rintro t' ⟨⟩
    simpa using List.find?_some hfree
  | none =>
    cases hzombie : slotsAfterKernel.find? fun i => decide ((s.tasks i).state = .zombie ∧ (s.tasks i).id ≠ 0) with
    | none => exact ⟨.refl, nofun⟩
    | some t =>
      have hstate : (s.tasks t).state = .zombie := by
        have hfound := List.find?_some hzombie
        simp at hfound
        exact hfound.1
      have ht := mem_slotsAfterKernel.1 (List.mem_of_find?_eq_some hzombie)
      simp only [ofOption_some, pure_bind_eq]
      constructor
      · apply Exec.bind_state (changes_removeTask (.inr hstate))
        exact fun _ _ hu => hu
      · intro t' hrun
        obtain ⟨u, hu⟩ : ∃ u, (removeTask fuel t >>= fun _ => pure t) s = (.ok t', u) := ⟨_, Prod.ext hrun rfl⟩
        obtain ⟨_, v, hremove, hclaimed⟩ := Exec.bind_ok_iff.1 hu
        simp only [Exec.pure_apply, Prod.mk.injEq, Outcome.ok.injEq] at hclaimed
        obtain ⟨rfl, rfl⟩ := hclaimed
        exact hu ▸ removeTask_id ht hremove

theorem result_taskCreate (fresh : κ) (name : Option (List UInt8)) (entry arg stack : UInt64) :
    Result fresh s (taskCreate fuel fresh name entry arg stack s).2 := by
  have hclaim := changes_claimSlot fuel s
  unfold taskCreate
  apply Exec.bind_state_of (.kept hclaim.1)
  intro t ht
  have hfree := hclaim.2 t ht
  generalize (claimSlot fuel s).2 = u at hclaim hfree ⊢
  have hstack : Changes s (u.setTask t fun task => { task with stackBase := stack }) := hclaim.1.tail (.stack t stack)
  apply Exec.require_bind_state (.kept hstack)
  intro _
  have hfree₁ : ((u.setTask t fun task => { task with stackBase := stack }).tasks t).id = 0 := by
    rw [setTask_tasks_self]
    exact hfree
  apply Result.made _ t (copyName (name.getD taskName)) entry arg hstack hfree₁
  exact ((Relation.ReflTransGen.single (.protect _)).tail (.link t _)).tail (.link kernelSlot _)

theorem changes_taskReapZombies : Changes s (taskReapZombies fuel s).2 := by
  unfold taskReapZombies
  apply Exec.bind_state
  · apply changes_removeEach
    intro s i hpick
    simp only [decide_eq_true_eq] at hpick
    exact hpick.1
  · exact fun _ _ hu => hu

theorem changes_taskKill (id : UInt32) : Changes s (taskKill fuel id s).2 := by
  unfold taskKill
  rw [bind_ok (gets_apply _ s)]
  apply Exec.ofOption_bind_state .refl
  intro t _
  apply Exec.require_bind_state .refl
  intro hallowed
  exact changes_removeTask (.inl fun hcur => hallowed (.inr hcur))

theorem changes_taskKillAll : Changes s (taskKillAll fuel s).2 := by
  apply changes_removeEach
  intro s i hpick
  simp only [decide_eq_true_eq] at hpick
  exact hpick.1

theorem changes_taskStop (id : UInt32) : Changes s (taskStop id s).2 := by
  unfold taskStop
  rw [bind_ok (gets_apply _ s)]
  apply Exec.ofOption_bind_state .refl
  intro t _
  apply Exec.require_bind_state .refl
  intro hallowed
  have hcur : t ≠ s.current := fun hcur => hallowed (.inr (.inl hcur))
  have hstate : (s.tasks t).state = .ready ∨ (s.tasks t).state = .running := by
    by_contra hstate
    exact hallowed (.inr (.inr (not_or.1 hstate)))
  exact .single (.stop t hcur hstate)

theorem changes_taskContinue (id : UInt32) : Changes s (taskContinue id s).2 := by
  unfold taskContinue
  rw [bind_ok (gets_apply _ s)]
  apply Exec.ofOption_bind_state .refl
  intro t _
  apply Exec.require_bind_state .refl
  intro hstopped
  exact .single (.cont t hstopped)

theorem changes_taskSetProtectionById (id : UInt32) (enabled : Bool) :
    Changes s (taskSetProtectionById id enabled s).2 := by
  unfold taskSetProtectionById
  apply Exec.require_bind_state .refl
  intro _
  rw [bind_ok (gets_apply _ s)]
  apply Exec.ofOption_bind_state .refl
  intro t _
  apply Exec.require_bind_state .refl
  intro _
  exact .single (.protect _)

theorem changes_taskSetProtectionByName (name : List UInt8) (enabled : Bool) :
    Changes s (taskSetProtectionByName name enabled s).2 := by
  unfold taskSetProtectionByName
  apply Exec.require_bind_state .refl
  intro _
  rw [bind_ok (gets_apply _ s)]
  apply Exec.ofOption_bind_state .refl
  intro t _
  exact .single (.protect _)

theorem TableOp.changes (fresh : κ) {op : TableOp} (hop : op.creates = false) (s : Scheduler κ) :
    Changes s (op.run fuel fresh s).2 := by
  cases op with
  | create name entry arg stack => simp [TableOp.creates] at hop
  | reapZombies => exact changes_taskReapZombies
  | kill id => exact changes_taskKill id
  | killAll => exact Exec.bind_state changes_taskKillAll fun _ _ hu => hu
  | stop id => exact changes_taskStop id
  | cont id => exact changes_taskContinue id
  | setProtectionById id enabled => exact changes_taskSetProtectionById id enabled
  | setProtectionByName name enabled => exact changes_taskSetProtectionByName name enabled
  | setPreemption enabled => exact .single (.preemption enabled)
  | enterUser rsp => exact .single (.user rsp)

theorem TableOp.result (fresh : κ) (op : TableOp) (s : Scheduler κ) : Result fresh s (op.run fuel fresh s).2 := by
  cases hop : op.creates with
  | false => exact .kept (op.changes fresh hop s)
  | true =>
    cases op with
    | create name entry arg stack => exact Exec.bind_state (result_taskCreate fresh name entry arg stack) fun _ _ hu => hu
    | _ => simp [TableOp.creates] at hop

/-! ### The search, on any links -/

theorem scanReady_cases (old : Slot) (fuel : ℕ) (head : Option Slot) (s : Scheduler κ) :
    scanReady old fuel head s = (.hang, s) ∨
      ∃ next, scanReady old fuel head s = (.ok next, s) ∧ (next = old ∨ (s.tasks next).state = .ready) := by
  induction fuel generalizing head with
  | zero => exact .inl rfl
  | succ fuel ih =>
    cases head with
    | none => exact .inl rfl
    | some next =>
      unfold scanReady
      rw [bind_ok (gets_apply _ s)]
      by_cases hfound : next = old ∨ (s.tasks next).state = .ready
      · rw [if_pos hfound]
        exact .inr ⟨next, rfl, hfound⟩
      · rw [if_neg hfound]
        exact ih _

end Tg11Kernel.Sched
