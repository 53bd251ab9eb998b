import Tg11Kernel.Sched.RoundRobin

/-! The disable count. A tick that switches counts up before the switch, and the
count goes down only behind it, when the tick's own task is resumed. A task that is
fresh or gave up by itself goes on with preemption disabled; the count stays at zero
as long as no tick switches. -/

namespace Tg11Kernel.Sched

open Lib Exec

variable {s s' : Scheduler Suspended} {old next i : Slot} {fuel n : ℕ}

/-- Preemption is enabled, and no task is suspended inside a tick. -/
structure Calm (s : Scheduler Suspended) : Prop where
  count : s.preemptDisableCount = 0
  saved : ∀ i, (s.tasks i).rsp ≠ some .ticked

variable {f : Task Suspended → Task Suspended} {place : Suspended}

theorem Calm.setTask (h : Calm s) (old : Slot)
    (hf : ∀ x : Task Suspended, x.rsp ≠ some .ticked → (f x).rsp ≠ some .ticked) : Calm (s.setTask old f) := by
  refine ⟨h.count, fun i => ?_⟩
  rcases eq_or_ne i old with rfl | hi
  · rw [setTask_tasks_self]
    exact hf _ (h.saved i)
  · rw [setTask_tasks_of_ne hi]
    exact h.saved i

theorem Calm.change (h : Calm s) (hstep : Change s s') : Calm s' := by
  cases hstep with
  | link t next => exact h.setTask t fun _ hx => hx
  | stack t stackBase => exact h.setTask t fun _ hx => hx
  | reclaim t _ =>
    have hset := h.setTask t (f := fun _ =>
      { rsp := none, stackBase := 0, id := 0, state := .zombie, entry := 0, arg := 0, name := [], next := none })
      fun _ _ => nofun
    exact ⟨hset.count, hset.saved⟩
  | stop t _ _ => exact h.setTask t fun _ hx => hx
  | cont t _ => exact h.setTask t fun _ hx => hx
  | protect protectMode => exact ⟨h.count, h.saved⟩
  | preemption preemptEnabled => exact ⟨h.count, h.saved⟩
  | user userTaskSavedRsp => exact ⟨h.count, h.saved⟩

theorem Calm.changes (h : Calm s) (hsteps : Changes s s') : Calm s' := by
  induction hsteps with
  | refl => exact h
  | tail _ hstep ih => exact ih.change hstep

theorem Calm.result (h : Calm s) (hresult : Result .started s s') : Calm s' := by
  cases hresult with
  | kept hsteps => exact h.changes hsteps
  | made u t name entry arg hsteps _ hsteps' =>
    have hu := h.changes hsteps
    have hset := hu.setTask t (f := fun task =>
      { task with rsp := some .started, id := u.nextId, state := .ready, entry, arg, name }) fun _ _ => nofun
    have hfilled : Calm (u.filled t .started name entry arg) := ⟨hset.count, hset.saved⟩
    exact hfilled.changes hsteps'

/-! ### The operations -/

theorem calm_setTask
    (hf : ∀ x : Task Suspended, x.rsp ≠ some .ticked → (f x).rsp ≠ some .ticked) : Preserves Calm (setTask old f) :=
  Preserves.modify fun _ hs => hs.setTask old hf

theorem calm_setState (state : TaskState) : Preserves Calm (setState old state) := calm_setTask fun _ hx => hx

theorem calm_goOn {c : Suspended} (hc : c ≠ .ticked) : Preserves Calm (goOn c) := by
  cases c with
  | started => exact Preserves.pure
  | yielded => exact Preserves.gets_bind fun s hs => calm_setState _ s hs
  | ticked => exact absurd rfl hc
  | exited => exact Preserves.hang

theorem calm_taskSwitch (hplace : place ≠ .ticked) : Preserves Calm (taskSwitch old next place) := by
  unfold taskSwitch
  apply Preserves.bind
  · exact calm_setTask fun _ _ h => hplace (Option.some.inj h)
  · intro _
    apply Preserves.gets_bind
    intro s hs
    cases hrsp : (s.tasks next).rsp with
    | none => exact hs
    | some there =>
      refine calm_goOn ?_ s hs
      rintro rfl
      exact hs.saved next hrsp

theorem calm_doSwitchToNext (hplace : place ≠ .ticked) :
    Preserves Calm (doSwitchToNext fuel old place) := by
  unfold doSwitchToNext
  apply Preserves.gets_bind
  intro s hs
  rcases scanReady_cases old fuel (s.next old) s with hscan | ⟨next, hscan, -⟩
  · rw [Exec.bind_hang hscan]
    exact hs
  rw [bind_ok hscan]
  have hcurrent : ∀ i, Preserves Calm (setCurrent i) := fun i => Preserves.modify fun _ ht => ⟨ht.count, ht.saved⟩
  split_ifs
  · refine Preserves.gets_bind (fun t ht => ?_) s hs
    split_ifs
    · exact Preserves.bind (calm_setState _) (fun _ => Preserves.bind (hcurrent _) fun _ => calm_goOn hplace) t ht
    · exact ht
  · exact Preserves.bind (calm_setState _) (fun _ => Preserves.bind (hcurrent _) fun _ => calm_taskSwitch hplace) s hs

theorem calm_taskYield : Preserves Calm (taskYield fuel) := by
  apply Preserves.gets_bind
  intro s hs
  exact Preserves.bind (calm_setState _) (fun _ => calm_doSwitchToNext (by decide)) s hs

theorem calm_taskExit : Preserves Calm (taskExit fuel) := by
  apply Preserves.gets_bind
  intro s hs
  split_ifs
  · exact ⟨hs.count, hs.saved⟩
  · exact hs
  · exact Preserves.bind (calm_setState _) (fun _ => calm_doSwitchToNext (by decide)) s hs

/-- A tick that has no reason to switch leaves everything as it is. -/
theorem taskPreemptTick_state (hs : ¬ s.Switches) : (taskPreemptTick fuel s).2 = s := by
  unfold taskPreemptTick
  rw [bind_ok (gets_apply _ s)]
  by_cases hoff : s.preemptEnabled = false ∨ s.preemptDisableCount > 0
  · rw [if_pos hoff]
    rfl
  rw [if_neg hoff]
  by_cases huser : s.userTaskSavedRsp ≠ 0
  · rw [if_pos huser]
    rfl
  rw [if_neg huser]
  simp only [not_or, Bool.not_eq_false, not_lt] at hoff
  rcases scanReady_cases s.current fuel (s.next s.current) s with hscan | ⟨next, hscan, hnext⟩
  · rw [Exec.bind_hang hscan]
  · rw [bind_ok hscan]
    by_cases hsame : next = s.current
    · rw [if_pos hsame]
      rfl
    · exact absurd ⟨hoff.1, hoff.2, not_not.1 huser, next, hsame, hnext.resolve_left hsame⟩ hs

theorem Calm.run (h : Calm s) (op : Op) (htick : op = .preemptTick → ¬ s.Switches) : Calm (op.run fuel s).2 := by
  cases op with
  | table op => exact h.result (op.result .started s)
  | yield => exact calm_taskYield s h
  | exit => exact calm_taskExit s h
  | preemptTick =>
    rw [show (Op.preemptTick.run fuel s).2 = s from taskPreemptTick_state (htick rfl)]
    exact h

/-! ### Runs without a switching tick -/

/-- The states of runs in which every tick found nothing to do, with so many tasks made. -/
inductive Quiet (fuel : ℕ) : ℕ → Scheduler Suspended → Prop
  | init : Quiet fuel 0 (taskInit Suspended)
  | step {n : ℕ} {s : Scheduler Suspended} (op : Op) (h : Quiet fuel n s) (htick : op = .preemptTick → ¬ s.Switches) :
      Quiet fuel (n + if op.creates fuel s = true then 1 else 0) (op.run fuel s).2

theorem Quiet.reachable (h : Quiet fuel n s) : Reachable fuel n s := by
  induction h with
  | init => exact .init
  | step op _ _ ih => exact .step op ih

theorem Quiet.calm (h : Quiet fuel n s) : Calm s := by
  induction h with
  | init => exact ⟨rfl, fun _ => nofun⟩
  | step op _ htick ih => exact ih.run op htick

/-- The next tick switches away when it should. -/
def TickSwitches (fuel : ℕ) (s : Scheduler Suspended) : Prop :=
  s.preemptEnabled = true → s.userTaskSavedRsp = 0 → (∃ i ≠ s.current, (s.tasks i).state = .ready) →
    (Op.preemptTick.run fuel s).2.current ≠ s.current

theorem OnRing.tickSwitches {live : Suspended → Prop} {l : List Slot} (hlive : GoesOn live) (hticked : live .ticked)
    (h : OnRing live s l) (hfuel : TASK_MAX ≤ fuel) (hcount : s.preemptDisableCount = 0) : TickSwitches fuel s := by
  intro hon huser hready
  obtain ⟨s', hrun, hswitched⟩ := h.taskPreemptTick_switches hlive hticked hfuel ⟨hon, hcount.le, huser, hready⟩
  rw [show Op.preemptTick.run fuel s = (.ok (), s') from hrun]
  exact hswitched.moved hready

/-- As long as no tick switches, preemption is enabled wherever a task runs its own
code; and the first tick that does switch leaves it disabled. -/
theorem quiet_preempt_disable_count (h : Quiet fuel n s) (hfuel : TASK_MAX ≤ fuel) :
    s.preemptDisableCount = 0 ∧
      (n < 2 ^ 32 - 2 → TickSwitches fuel s ∧ (s.Switches → (Op.preemptTick.run fuel s).2.preemptDisableCount = 1)) := by
  refine ⟨h.calm.count, fun hn => ?_⟩
  obtain ⟨⟨l, hring⟩, -⟩ := h.reachable.onRing hfuel hn
  refine ⟨hring.tickSwitches goesOn_ne_exited nofun hfuel h.calm.count, fun hs => ?_⟩
  obtain ⟨s', hrun, hswitched⟩ := hring.taskPreemptTick_switches goesOn_ne_exited nofun hfuel hs
  obtain ⟨c, -, hcount, hrsp⟩ := hswitched.count
  rw [show Op.preemptTick.run fuel s = (.ok (), s') from hrun, hcount, h.calm.count]
  -- the task that goes on is not suspended in a tick
  have hticked : c ≠ .ticked := by
    rintro rfl
    exact h.calm.saved _ (hrsp (hswitched.moved hs.2.2.2))
  cases c <;> first | rfl | exact absurd rfl hticked

/-- The state with one new task. -/
def createdRun : Scheduler Suspended := ((Op.table (.create none 0 0 4096)).run TASK_MAX (taskInit Suspended)).2

theorem created_creates : (Op.table (.create none 0 0 4096)).creates TASK_MAX (taskInit Suspended) = true := by decide

theorem quiet_preempt_disable_count_created :
    createdRun.preemptDisableCount = 0 ∧ TickSwitches TASK_MAX createdRun ∧
      (Op.preemptTick.run TASK_MAX createdRun).2.preemptDisableCount = 1 := by
  have hinit : Quiet TASK_MAX 0 (taskInit Suspended) := .init
  have hcreate := hinit.step (.table (.create none 0 0 4096)) nofun
  rw [if_pos created_creates] at hcreate
  have hquiet := quiet_preempt_disable_count hcreate le_rfl
  have hswitches : createdRun.Switches := by
    refine ⟨by decide, by decide, by decide, ⟨1, by decide⟩, by decide, by decide⟩
  exact ⟨hquiet.1, (hquiet.2 (by decide)).1, (hquiet.2 (by decide)).2 hswitches⟩

/-- The tick that switches to the new task leaves preemption disabled there: the next
tick does not switch away, although task 0 is ready. -/
theorem tick_leaves_preemption_disabled : ∃ s, Reachable TASK_MAX 1 s ∧ s.preemptDisableCount = 1 ∧
    s.preemptEnabled = true ∧ s.userTaskSavedRsp = 0 ∧ kernelSlot ≠ s.current ∧ (s.tasks kernelSlot).state = .ready ∧
    (Op.preemptTick.run TASK_MAX s).2.current = s.current := by
  have hinit : Reachable TASK_MAX 0 (taskInit Suspended) := .init
  have hcreate := hinit.step (.table (.create none 0 0 4096))
  rw [if_pos created_creates] at hcreate
  exact ⟨_, hcreate.step .preemptTick, by decide, by decide, by decide, by decide,
    by decide, by decide⟩

end Tg11Kernel.Sched
