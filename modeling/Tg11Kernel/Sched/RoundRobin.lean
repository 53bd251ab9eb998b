import Tg11Kernel.Sched.Ring

/-! Switches keep the circle. While the running task looks for the next one it is
marked as ready or as gone; the search goes once round the circle, and either way it
ends with exactly one running task on it, whose own code goes on. -/

namespace Tg11Kernel.Sched

open Lib Exec

variable {κ : Type} {s s' : Scheduler κ} {l : List Slot} {old next i : Slot} {fuel : ℕ}

/-! ### The search -/

/-- The search from `old` once round the circle: it comes back when no other task is ready. -/
theorem scanReady_of_arc {a : Slot} (h : Arc s.next old a l) (hold : old ∉ l) (hfuel : l.length < fuel) :
    ∃ next, scanReady old fuel (s.next a) s = (.ok next, s) ∧
      (next = old ∧ (∀ i ∈ l, (s.tasks i).state ≠ .ready) ∨ next ∈ l ∧ (s.tasks next).state = .ready) := by
  induction l generalizing a fuel with
  | nil =>
    obtain ⟨fuel, rfl⟩ : ∃ k, fuel = k + 1 := ⟨fuel - 1, by simp at hfuel; omega⟩
    refine ⟨old, ?_, .inl ⟨rfl, by simp⟩⟩
    rw [show s.next a = some old from h]
    unfold scanReady
    rw [bind_ok (gets_apply _ s), if_pos (.inl rfl)]
    rfl
  | cons b l ih =>
    obtain ⟨fuel, rfl⟩ : ∃ k, fuel = k + 1 := ⟨fuel - 1, by simp at hfuel; omega⟩
    simp only [List.mem_cons, not_or] at hold
    rw [h.1]
    unfold scanReady
    rw [bind_ok (gets_apply _ s)]
    by_cases hready : (s.tasks b).state = .ready
    · rw [if_pos (.inr hready)]
      exact ⟨b, rfl, .inr ⟨by simp, hready⟩⟩
    · rw [if_neg (by simp [Ne.symm hold.1, hready])]
      obtain ⟨next, hrun, hnext⟩ := ih h.2 hold.2 (by simp at hfuel; omega)
      refine ⟨next, hrun, ?_⟩
      rcases hnext with ⟨rfl, hnone⟩ | ⟨hmem, hstate⟩
      · exact .inl ⟨rfl, by simpa [hready] using hnone⟩
      · exact .inr ⟨List.mem_cons_of_mem _ hmem, hstate⟩

theorem scanReady_of_circle (h : Circle s.next kernelSlot l) (hold : old ∈ kernelSlot :: l) (hfuel : TASK_MAX ≤ fuel) :
    ∃ next, scanReady old fuel (s.next old) s = (.ok next, s) ∧
      (next = old ∧ (∀ i ∈ kernelSlot :: l, i ≠ old → (s.tasks i).state ≠ .ready) ∨
        next ∈ kernelSlot :: l ∧ next ≠ old ∧ (s.tasks next).state = .ready) := by
  obtain ⟨l', hcircle, hperm⟩ := h.rotate hold
  have hnotmem : old ∉ l' := (List.nodup_cons.1 hcircle.nodup).1
  have hlen := List.Nodup.length_le_card hcircle.nodup
  rw [List.length_cons, Fintype.card_fin] at hlen
  have hshort : l'.length < fuel := by omega
  obtain ⟨next, hrun, hnext⟩ := scanReady_of_arc hcircle.arc hnotmem hshort
  refine ⟨next, hrun, ?_⟩
  rcases hnext with ⟨rfl, hnone⟩ | ⟨hmem, hstate⟩
  · refine .inl ⟨rfl, fun i hi hne => hnone i ?_⟩
    exact (List.mem_cons.1 (hperm.mem_iff.2 hi)).resolve_left hne
  · refine .inr ⟨hperm.mem_iff.1 (List.mem_cons_of_mem _ hmem), ?_, hstate⟩
    rintro rfl
    exact hnotmem hmem

/-! ### Between two tasks -/

/-- The running task `old` has been marked: as ready, or for good as a zombie. -/
structure Leaving (live : κ → Prop) (s : Scheduler κ) (old : Slot) (l : List Slot) : Prop where
  circle : Circle s.next kernelSlot l
  used : ∀ i, i ∈ kernelSlot :: l ↔ (s.tasks i).id ≠ 0
  free : ∀ i, (s.tasks i).id = 0 → (s.tasks i).state = .zombie
  ids : ∀ i j, (s.tasks i).id ≠ 0 → (s.tasks i).id = (s.tasks j).id → i = j
  fresh : ∀ i, (s.tasks i).id < s.nextId
  current : s.current = old ∧ (s.tasks old).id ≠ 0
  running : ∀ i, (s.tasks i).state ≠ .running
  kernel : (s.tasks kernelSlot).state = .ready
  saved : ∀ i ≠ old, (s.tasks i).state = .ready ∨ (s.tasks i).state = .stopped → ∃ c, (s.tasks i).rsp = some c ∧ live c
  protect : s.protectMode kernelSlot = .default
  leaving : (s.tasks old).state = .ready ∨ (s.tasks old).state = .zombie

/-- The running task marks itself. -/
theorem OnRing.leave {live : κ → Prop} (h : OnRing live s l) {state : TaskState}
    (hstate : state = .ready ∨ state = .zombie ∧ s.current ≠ kernelSlot) :
    Leaving live (s.setTask s.current fun x => { x with state }) s.current l := by
  have hother : ∀ i ≠ s.current, (s.tasks i).state ≠ .running := fun i hi hrun => hi ((h.sound.running i).1 hrun)
  constructor
  · rw [setTask_next_of_eq fun _ => by rfl]
    exact h.circle
  · intro i
    rw [setState_id]
    exact h.used i
  · intro i hi
    rw [setState_id] at hi
    have hcur : i ≠ s.current := by
      rintro rfl
      exact h.sound.current hi
    rw [setTask_tasks_of_ne hcur]
    exact h.sound.free i hi
  · intro i j
    rw [setState_id, setState_id]
    exact h.sound.ids i j
  · intro i
    rw [setState_id]
    exact h.sound.fresh i
  · exact ⟨rfl, by rw [setState_id]; exact h.sound.current⟩
  · intro i
    rcases eq_or_ne i s.current with rfl | hi
    · rw [setTask_tasks_self]
      rcases hstate with rfl | ⟨rfl, -⟩ <;> simp
    · rw [setTask_tasks_of_ne hi]
      exact hother i hi
  · rcases eq_or_ne kernelSlot s.current with hk | hk
    · rw [← hk, setTask_tasks_self]
      exact hstate.resolve_right fun hgone => hgone.2 hk.symm
    · rw [setTask_tasks_of_ne hk]
      exact h.sound.kernel.resolve_right (hother _ hk)
  · intro i hi
    rw [setTask_tasks_of_ne hi]
    exact h.sound.saved i
  · exact h.sound.protect
  · rw [setTask_tasks_self]
    exact hstate.imp id And.left

/-- The state behind a switch: `next` runs, and `old` is left at a place. -/
def Scheduler.switched (s : Scheduler κ) (old next : Slot) (place : κ) (d : ℤ) : Scheduler κ :=
  { (s.setTask next fun x => { x with state := .running }).setTask old fun x => { x with rsp := some place } with
    current := next
    preemptDisableCount := s.preemptDisableCount + d }

/-- The state behind a search that found no other task. -/
def Scheduler.kept (s : Scheduler κ) (old : Slot) (d : ℤ) : Scheduler κ :=
  { s.setTask old fun x => { x with state := .running } with
    current := old
    preemptDisableCount := s.preemptDisableCount + d }

theorem kept_tasks (d : ℤ) : (s.kept old d).tasks = (s.setTask old fun x => { x with state := .running }).tasks := rfl

theorem switched_tasks (place : κ) (d : ℤ) : (s.switched old next place d).tasks =
    ((s.setTask next fun x => { x with state := .running }).setTask old fun x => { x with rsp := some place }).tasks := rfl

theorem kept_next (d : ℤ) : (s.kept old d).next = s.next :=
  show (s.setTask old fun x => { x with state := .running }).next = s.next from setTask_next_of_eq fun _ => by rfl

theorem switched_next (place : κ) (d : ℤ) : (s.switched old next place d).next = s.next := by
  have hlinks : (s.switched old next place d).next =
      ((s.setTask next fun x => { x with state := .running }).setTask old fun x => { x with rsp := some place }).next := rfl
  rw [hlinks, setTask_next_of_eq fun _ => by rfl, setTask_next_of_eq fun _ => by rfl]

theorem Leaving.kept {live : κ → Prop} (h : Leaving live s old l) (hready : (s.tasks old).state = .ready) (d : ℤ) :
    OnRing live (s.kept old d) l := by
  have hself : ((s.kept old d).tasks old) = { s.tasks old with state := .running } := by
    rw [kept_tasks, setTask_tasks_self]
  have hother : ∀ i ≠ old, (s.kept old d).tasks i = s.tasks i := by
    intro i hi
    rw [kept_tasks, setTask_tasks_of_ne hi]
  have hid : ∀ i, ((s.kept old d).tasks i).id = (s.tasks i).id := fun i => setState_id _
  refine ⟨?_, fun i => ?_, ?_⟩
  · rw [kept_next]
    exact h.circle
  · rw [hid]
    exact h.used i
  constructor
  · intro i hi
    rw [hid] at hi
    rcases eq_or_ne i old with rfl | hne
    · exact absurd hi h.current.2
    · rw [hother i hne]
      exact h.free i hi
  · intro i j
    rw [hid, hid]
    exact h.ids i j
  · intro i
    rw [hid]
    exact h.fresh i
  · rw [hid]
    exact h.current.2
  · intro i
    rcases eq_or_ne i old with rfl | hne
    · rw [hself]
      exact iff_of_true rfl rfl
    · rw [hother i hne]
      exact iff_of_false (h.running i) hne
  · rcases eq_or_ne kernelSlot old with hk | hk
    · rw [hk, hself]
      exact .inr rfl
    · rw [hother _ hk]
      exact .inl h.kernel
  · intro i
    rcases eq_or_ne i old with rfl | hne
    · rw [hself]
      simp
    · rw [hother i hne]
      exact h.saved i hne
  · exact h.protect

theorem Leaving.switched {live : κ → Prop} {place : κ} (h : Leaving live s old l) (hne : next ≠ old)
    (hready : (s.tasks next).state = .ready) (hplace : (s.tasks old).state = .ready → live place) (d : ℤ) :
    OnRing live (s.switched old next place d) l := by
  have hnext : (s.switched old next place d).tasks next = { s.tasks next with state := .running } := by
    rw [switched_tasks, setTask_tasks_of_ne hne, setTask_tasks_self]
  have hold : (s.switched old next place d).tasks old = { s.tasks old with rsp := some place } := by
    rw [switched_tasks, setTask_tasks_self, setTask_tasks_of_ne hne.symm]
  have hother : ∀ i ≠ old, i ≠ next → (s.switched old next place d).tasks i = s.tasks i := by
    intro i hi hi'
    rw [switched_tasks, setTask_tasks_of_ne hi, setTask_tasks_of_ne hi']
  have hid : ∀ i, ((s.switched old next place d).tasks i).id = (s.tasks i).id := by
    intro i
    rcases eq_or_ne i old with rfl | hi
    · rw [hold]
    rcases eq_or_ne i next with rfl | hi'
    · rw [hnext]
    · rw [hother i hi hi']
  have hstate : ∀ i ≠ next, ((s.switched old next place d).tasks i).state = (s.tasks i).state := by
    intro i hi
    rcases eq_or_ne i old with rfl | hi'
    · rw [hold]
    · rw [hother i hi' hi]
  have hnextid : (s.tasks next).id ≠ 0 := by
    intro hzero
    have hzombie := h.free next hzero
    rw [hready] at hzombie
    simp at hzombie
  refine ⟨?_, fun i => ?_, ?_⟩
  · rw [switched_next]
    exact h.circle
  · rw [hid]
    exact h.used i
  constructor
  · intro i hi
    rw [hid] at hi
    have hin : i ≠ next := by
      rintro rfl
      exact hnextid hi
    rw [hstate i hin]
    exact h.free i hi
  · intro i j
    rw [hid, hid]
    exact h.ids i j
  · intro i
    rw [hid]
    exact h.fresh i
  · rw [hid]
    exact hnextid
  · intro i
    rcases eq_or_ne i next with rfl | hi
    · rw [hnext]
      exact iff_of_true rfl rfl
    · rw [hstate i hi]
      exact iff_of_false (h.running i) hi
  · rcases eq_or_ne kernelSlot next with hk | hk
    · rw [hk, hnext]
      exact .inr rfl
    · rw [hstate _ hk]
      exact .inl h.kernel
  · intro i hi
    rcases eq_or_ne i next with rfl | hin
    · rw [hnext] at hi
      simp at hi
    rw [hstate i hin] at hi
    rcases eq_or_ne i old with rfl | hio
    · rw [hold]
      -- a stopped task is not leaving
      exact ⟨place, rfl, hplace (h.leaving.resolve_right fun hz => by simp [hz] at hi)⟩
    · rw [hother i hio hin]
      exact h.saved i hio hi
  · exact h.protect

/-! ### The operations that switch -/

/-- What going on there adds to the disable count. -/
def Suspended.delta : Suspended → ℤ
  | .ticked => -1
  | _ => 0

/-- A task already marked as running goes on. -/
theorem goOn_apply {s : Scheduler Suspended} {c : Suspended} (hc : c ≠ .exited) (h : (s.tasks s.current).state = .running) :
    goOn c s = (.ok (), { s with preemptDisableCount := s.preemptDisableCount + c.delta }) := by
  have hsame : s.setTask s.current (fun t => { t with state := .running }) = s := by
    unfold Scheduler.setTask
    rw [← h, Function.update_eq_self]
  have hmark : markCurrent s = (.ok (), s) := by
    unfold markCurrent
    rw [bind_ok (gets_apply _ s)]
    exact congrArg (Prod.mk (Outcome.ok ())) hsame
  cases c with
  | started => simp [goOn, Suspended.delta]
  | yielded => simp [goOn, Suspended.delta, hmark]
  | ticked =>
    show (markCurrent >>= fun _ => addDisableCount (-1)) s = _
    rw [bind_ok hmark]
    rfl
  | exited => exact absurd rfl hc

theorem taskSwitch_apply {s : Scheduler Suspended} {place c : Suspended} (hc : (s.tasks next).rsp = some c) (hne : next ≠ old) :
    taskSwitch old next place s = goOn c (s.setTask old fun x => { x with rsp := some place }) := by
  have hrsp : ((s.setTask old fun x => { x with rsp := some place }).tasks next).rsp = some c := by
    rw [setTask_tasks_of_ne hne, hc]
  unfold taskSwitch setTask
  rw [bind_ok (modify_apply _ s), bind_ok (gets_apply _ _), hrsp]

/-- Contexts of tasks that can go on, a fresh one and one that yielded among them. -/
structure GoesOn (live : Suspended → Prop) : Prop where
  started : live .started
  yielded : live .yielded
  exited : ¬ live .exited

/-- What a switch away from `old` leaves. -/
structure Switched (live : Suspended → Prop) (old : Slot) (l : List Slot) (s s' : Scheduler Suspended) : Prop where
  ring : OnRing live s' l
  nextId : s'.nextId = s.nextId
  count : ∃ c, live c ∧ s'.preemptDisableCount = s.preemptDisableCount + c.delta ∧
    (s'.current ≠ old → (s.tasks s'.current).rsp = some c)
  moved : (∃ i ≠ old, (s.tasks i).state = .ready) → s'.current ≠ old

variable {live : Suspended → Prop} {s s' : Scheduler Suspended}

theorem Leaving.doSwitchToNext (hlive : GoesOn live) (h : Leaving live s old l) {place : Suspended}
    (hplace : (s.tasks old).state = .ready → live place) (hfuel : TASK_MAX ≤ fuel) :
    ∃ s', Sched.doSwitchToNext fuel old place s = (.ok (), s') ∧ Switched live old l s s' := by
  have hne_exited : ∀ c, live c → c ≠ .exited := by
    rintro c hc rfl
    exact hlive.exited hc
  have hon : old ∈ kernelSlot :: l := (h.used old).2 h.current.2
  obtain ⟨next, hscan, hnext⟩ := scanReady_of_circle h.circle hon hfuel
  unfold Sched.doSwitchToNext
  rw [bind_ok (gets_apply _ s), bind_ok hscan]
  rcases hnext with ⟨rfl, hnone⟩ | ⟨hmem, hne, hready⟩
  · -- slot 0 is ready, so it must be the task that keeps running
    have hold : (s.tasks next).state = .ready := by
      by_contra hstate
      refine hnone kernelSlot (by simp) ?_ h.kernel
      rintro rfl
      exact hstate h.kernel
    have hring := h.kept hold place.delta
    refine ⟨s.kept next place.delta, ?_, hring, rfl, ⟨place, hplace hold, rfl, fun hne => absurd rfl hne⟩, ?_⟩
    · rw [if_pos rfl, bind_ok (gets_apply _ s), if_pos (.inl hold)]
      exact goOn_apply (s := { s.setTask next fun t => { t with state := .running } with current := next })
        (hne_exited place (hplace hold)) (by simp)
    · rintro ⟨i, hi, hready⟩ _
      refine hnone i ((h.used i).2 fun hzero => ?_) hi hready
      have hzombie := h.free i hzero
      rw [hready] at hzombie
      simp at hzombie
  · obtain ⟨c, hc, hcl⟩ := h.saved next hne (.inl hready)
    have hring := h.switched hne hready hplace c.delta
    refine ⟨s.switched old next place c.delta, ?_, hring, rfl, ⟨c, hcl, rfl, fun _ => hc⟩, fun _ => hne⟩
    rw [if_neg hne]
    have hswitch : taskSwitch old next place { s.setTask next fun x => { x with state := .running } with current := next } =
        (.ok (), s.switched old next place c.delta) := by
      rw [taskSwitch_apply (c := c) _ hne]
      · apply goOn_apply (hne_exited c hcl)
        simp [setTask_tasks_of_ne hne]
      · rw [setTask_tasks_self]
        exact hc
    exact hswitch

theorem OnRing.taskYield (hlive : GoesOn live) (h : OnRing live s l) (hfuel : TASK_MAX ≤ fuel) :
    ∃ s', Sched.taskYield fuel s = (.ok (), s') ∧ Switched live s.current l s s' := by
  have hleave := h.leave (.inl rfl)
  obtain ⟨s', hrun, hring, hid, ⟨c, hc, hcount, hrsp⟩, hmoved⟩ := hleave.doSwitchToNext hlive (fun _ => hlive.yielded) hfuel
  refine ⟨s', ?_, hring, hid, ⟨c, hc, hcount, fun hne => ?_⟩, ?_⟩
  · unfold Sched.taskYield Sched.setState Sched.setTask
    rw [bind_ok (gets_apply _ s), bind_ok (modify_apply _ s)]
    exact hrun
  · rw [← setTask_tasks_of_ne hne]
    exact hrsp hne
  · rintro ⟨i, hi, hready⟩
    exact hmoved ⟨i, hi, by rwa [setTask_tasks_of_ne hi]⟩

/-- Either the task stays, or it is gone and another one goes on. -/
theorem OnRing.taskExit (hlive : GoesOn live) (h : OnRing live s l) (hfuel : TASK_MAX ≤ fuel) :
    ∃ s', Sched.taskExit fuel s = (.ok (), s') ∧ OnRing live s' l ∧ s'.nextId = s.nextId := by
  unfold Sched.taskExit
  rw [bind_ok (gets_apply _ s)]
  by_cases huser : s.userTaskSavedRsp ≠ 0
  · rw [if_pos huser]
    have hsame : SameTasks s { s with userTaskSavedRsp := 0 } :=
      ⟨fun _ => rfl, fun _ => rfl, fun _ => rfl, rfl, rfl, rfl⟩
    exact ⟨{ s with userTaskSavedRsp := 0 }, rfl, h.of_same hsame rfl, rfl⟩
  rw [if_neg huser]
  by_cases hk : s.current = kernelSlot
  · rw [if_pos hk]
    exact ⟨s, rfl, h, rfl⟩
  · rw [if_neg hk]
    have hleave := h.leave (.inr ⟨rfl, hk⟩)
    have hnever : ∀ state : TaskState, state = .zombie → state = .ready → live .exited := by
      rintro state rfl ⟨⟩
    obtain ⟨s', hrun, hring, hid, -, -⟩ := hleave.doSwitchToNext hlive (hnever _ (by simp)) hfuel
    exact ⟨s', hrun, hring, hid⟩

theorem OnRing.ready_mem (h : OnRing live s l) (hready : (s.tasks i).state = .ready) : i ∈ kernelSlot :: l := by
  rw [h.used]
  intro hzero
  have hzombie := h.sound.free i hzero
  rw [hready] at hzombie
  simp at hzombie

theorem OnRing.taskPreemptTick_stays (h : OnRing live s l) (hfuel : TASK_MAX ≤ fuel) (hs : ¬ s.Switches) :
    Sched.taskPreemptTick fuel s = (.ok (), s) := by
  unfold Sched.taskPreemptTick
  rw [bind_ok (gets_apply _ s)]
  by_cases hoff : s.preemptEnabled = false ∨ s.preemptDisableCount > 0
  · rw [if_pos hoff]
    rfl
  rw [if_neg hoff]
  by_cases huser : s.userTaskSavedRsp ≠ 0
  · rw [if_pos huser]
    rfl
  rw [if_neg huser]
  simp only [not_or, Bool.not_eq_false, not_lt] at hoff
  have hon : s.current ∈ kernelSlot :: l := (h.used _).2 h.sound.current
  obtain ⟨next, hscan, hnext⟩ := scanReady_of_circle h.circle hon hfuel
  rw [bind_ok hscan]
  rcases hnext with ⟨rfl, -⟩ | ⟨-, hne, hready⟩
  · rw [if_pos rfl]
    rfl
  · exact absurd ⟨hoff.1, hoff.2, not_not.1 huser, next, hne, hready⟩ hs

theorem OnRing.taskPreemptTick_switches (hlive : GoesOn live) (hticked : live .ticked) (h : OnRing live s l)
    (hfuel : TASK_MAX ≤ fuel) (hs : s.Switches) :
    ∃ s', Sched.taskPreemptTick fuel s = (.ok (), s') ∧
      Switched live s.current l { s with preemptDisableCount := s.preemptDisableCount + 1 } s' := by
  obtain ⟨hon, hcount, huser, i, hi, hready⟩ := hs
  have hcur : s.current ∈ kernelSlot :: l := (h.used _).2 h.sound.current
  obtain ⟨next, hscan, hnext⟩ := scanReady_of_circle h.circle hcur hfuel
  have hne : next ≠ s.current := by
    rcases hnext with ⟨rfl, hnone⟩ | ⟨-, hne, -⟩
    · exact absurd hready (hnone i (h.ready_mem hready) hi)
    · exact hne
  have hsame : SameTasks s { s with preemptDisableCount := s.preemptDisableCount + 1 } :=
    ⟨fun _ => rfl, fun _ => rfl, fun _ => rfl, rfl, rfl, rfl⟩
  have hleave := (h.of_same hsame rfl).leave (.inl rfl)
  obtain ⟨s', hrun, hring, hid, ⟨c, hc, hcount', hrsp⟩, hmoved⟩ := hleave.doSwitchToNext hlive (fun _ => hticked) hfuel
  refine ⟨s', ?_, hring, hid, ⟨c, hc, hcount', fun hne => ?_⟩, ?_⟩
  · unfold Sched.taskPreemptTick
    rw [bind_ok (gets_apply _ s), if_neg (by simp [hon, hcount]), if_neg (by simp [huser]), bind_ok hscan,
      if_neg hne]
    exact hrun
  · rw [← setTask_tasks_of_ne hne]
    exact hrsp hne
  · intro _
    exact hmoved ⟨i, hi, by rwa [setTask_tasks_of_ne hi]⟩

/-! ### Runs -/

/-- The circle is kept, and so is the next id. -/
def Keeping (live : Suspended → Prop) (s s' : Scheduler Suspended) : Prop :=
  (∃ l, OnRing live s' l) ∧ s'.nextId = s.nextId

/-- What an operation leaves when it ends. -/
structure Stepped (live : Suspended → Prop) (fuel : ℕ) (op : Op) (s : Scheduler Suspended) : Prop where
  ends : (op.run fuel s).1 ≠ .hang
  ring : ∃ l, OnRing live (op.run fuel s).2 l
  nextId : (op.run fuel s).2.nextId = s.nextId + if op.creates fuel s = true then 1 else 0

theorem stepped_of_ends {op : Op} (hop : op.creates fuel s = false)
    (h : Ends (op.run fuel) s (fun _ => Keeping live s) (Keeping live s)) : Stepped live fuel op s := by
  obtain ⟨hends, hring, hid⟩ := h.state
  exact ⟨hends, hring, by simp [hid, hop]⟩

theorem OnRing.keeping (h : OnRing live s l) : Keeping live s s := ⟨⟨l, h⟩, rfl⟩

theorem OnRing.keeping_of_same {s' : Scheduler Suspended} (h : OnRing live s l) (hsame : SameTasks s s') (hnext : s'.next = s.next) :
    Keeping live s s' := ⟨⟨l, h.of_same hsame hnext⟩, hsame.nextId⟩

theorem OnRing.runTable (hlive : GoesOn live) (h : OnRing live s l) (hfuel : TASK_MAX ≤ fuel) (op : TableOp)
    (hwrap : (Op.table op).creates fuel s = true → s.nextId.toNat + 1 < 2 ^ 32) : Stepped live fuel (.table op) s := by
  cases op with
  | create name entry arg stack =>
    have hcreate := h.taskCreate hlive.started hfuel name entry arg stack
    rcases hcreate with ⟨id, s', hrun, hring, hid⟩ | ⟨s', hrun, hring, hid⟩
    · have hop : (Op.table (.create name entry arg stack)).run fuel s = (.ok (), s') := bind_ok hrun
      have hmade : (Op.table (.create name entry arg stack)).creates fuel s = true := by simp [Op.creates, hop]
      refine ⟨by simp [hop], ?_, by simp [hop, hid, hmade]⟩
      rw [hop]
      exact hring (hwrap hmade)
    · have hop : (Op.table (.create name entry arg stack)).run fuel s = (.fail, s') := bind_fail hrun
      exact ⟨by simp [hop], by rwa [hop], by simp [hop, hid, Op.creates]⟩
  | reapZombies =>
    obtain ⟨s', hrun, hkeep⟩ := h.taskReapZombies hfuel
    exact stepped_of_ends rfl (.inl ⟨(), s', hrun, hkeep⟩)
  | kill id =>
    apply stepped_of_ends rfl
    apply (h.taskKill hfuel id).mono fun _ _ hq => hq
    rintro s' rfl
    exact h.keeping
  | killAll =>
    obtain ⟨n, s', hrun, hkeep⟩ := h.taskKillAll hfuel
    exact stepped_of_ends rfl (.inl ⟨(), s', bind_ok hrun, hkeep⟩)
  | stop id =>
    apply stepped_of_ends rfl
    apply (h.taskStop id).mono fun _ _ hq => ⟨⟨l, hq.1⟩, hq.2⟩
    rintro s' rfl
    exact h.keeping
  | cont id =>
    apply stepped_of_ends rfl
    apply (h.taskContinue id).mono fun _ _ hq => ⟨⟨l, hq.1⟩, hq.2⟩
    rintro s' rfl
    exact h.keeping
  | setProtectionById id enabled =>
    apply stepped_of_ends rfl
    apply (h.taskSetProtectionById id enabled).mono fun _ _ hq => ⟨⟨l, hq.1⟩, hq.2⟩
    rintro s' rfl
    exact h.keeping
  | setProtectionByName name enabled =>
    apply stepped_of_ends rfl
    apply (h.taskSetProtectionByName name enabled).mono fun _ _ hq => ⟨⟨l, hq.1⟩, hq.2⟩
    rintro s' rfl
    exact h.keeping
  | setPreemption enabled =>
    have hsame : SameTasks s { s with preemptEnabled := enabled } := ⟨fun _ => rfl, fun _ => rfl, fun _ => rfl, rfl, rfl, rfl⟩
    exact stepped_of_ends rfl (.inl ⟨(), _, rfl, h.keeping_of_same hsame rfl⟩)
  | enterUser rsp =>
    have hsame : SameTasks s { s with userTaskSavedRsp := rsp } := ⟨fun _ => rfl, fun _ => rfl, fun _ => rfl, rfl, rfl, rfl⟩
    exact stepped_of_ends rfl (.inl ⟨(), _, rfl, h.keeping_of_same hsame rfl⟩)

/-- Every operation keeps the circle; a tick needs a context to suspend the task in. -/
theorem OnRing.run (hlive : GoesOn live) (h : OnRing live s l) (hfuel : TASK_MAX ≤ fuel) (op : Op)
    (hwrap : op.creates fuel s = true → s.nextId.toNat + 1 < 2 ^ 32) (htick : op = .preemptTick → live .ticked ∨ ¬ s.Switches) :
    Stepped live fuel op s := by
  cases op with
  | table op => exact h.runTable hlive hfuel op hwrap
  | yield =>
    obtain ⟨s', hrun, hs⟩ := h.taskYield hlive hfuel
    exact stepped_of_ends rfl (.inl ⟨(), s', hrun, ⟨l, hs.ring⟩, hs.nextId⟩)
  | exit =>
    obtain ⟨s', hrun, hring, hid⟩ := h.taskExit hlive hfuel
    exact stepped_of_ends rfl (.inl ⟨(), s', hrun, ⟨l, hring⟩, hid⟩)
  | preemptTick =>
    by_cases hs : s.Switches
    · obtain ⟨s', hrun, hsw⟩ := h.taskPreemptTick_switches hlive ((htick rfl).resolve_right fun hn => hn hs) hfuel hs
      exact stepped_of_ends rfl (.inl ⟨(), s', hrun, ⟨l, hsw.ring⟩, hsw.nextId⟩)
    · exact stepped_of_ends rfl (.inl ⟨(), s, h.taskPreemptTick_stays hfuel hs, h.keeping⟩)

theorem onRing_taskInit : OnRing live (taskInit Suspended) [] := by
  refine ⟨Circle.single rfl, fun i => ?_, ?_⟩
  · simp [taskInit]
  constructor
  · intro i
    simp [taskInit]
  · intro i j
    simp only [taskInit]
    grind
  · intro i
    simp only [taskInit]
    split <;> decide
  · simp [taskInit]
  · intro i
    simp only [taskInit]
    grind
  · simp [taskInit]
  · intro i
    simp only [taskInit]
    grind
  · rfl

theorem goesOn_ne_exited : GoesOn (· ≠ .exited) := ⟨nofun, nofun, fun h => h rfl⟩

/-- So many ids have been given out. -/
theorem Reachable.onRing {n : ℕ} (h : Reachable fuel n s) (hfuel : TASK_MAX ≤ fuel) (hn : n < 2 ^ 32 - 2) :
    (∃ l, OnRing (· ≠ .exited) s l) ∧ s.nextId.toNat = n + 2 := by
  induction h with
  | init => exact ⟨⟨[], onRing_taskInit⟩, rfl⟩
  | @step n s op h ih =>
    obtain ⟨⟨l, hring⟩, hid⟩ := ih (by omega)
    have hstep : Stepped (· ≠ .exited) fuel op s := by
      apply hring.run goesOn_ne_exited hfuel op
      · intro hmade
        simp only [hmade, if_true] at hn
        omega
      · exact fun _ => .inl nofun
    refine ⟨hstep.ring, ?_⟩
    rw [hstep.nextId]
    split_ifs with hmade
    · simp only [hmade, if_true] at hn
      rw [UInt32.toNat_add, hid]
      exact Nat.mod_eq_of_lt (by simp; omega)
    · simpa using hid

/-- The links from slot 0 form one circle through exactly the used slots, whose ids
differ; the running one is the current task, and slot 0 has not stopped. -/
structure RingInvariant {κ : Type} (s : Scheduler κ) : Prop where
  circle : ∃ l, Circle s.next kernelSlot l ∧ ∀ i, i ∈ kernelSlot :: l ↔ (s.tasks i).id ≠ 0
  ids : ∀ i j, (s.tasks i).id ≠ 0 → (s.tasks i).id = (s.tasks j).id → i = j
  current : (s.tasks s.current).id ≠ 0
  running : ∀ i, (s.tasks i).state = .running ↔ i = s.current
  kernel : (s.tasks kernelSlot).state = .ready ∨ (s.tasks kernelSlot).state = .running

theorem OnRing.ends (hlive : GoesOn live) (hticked : live .ticked) (h : OnRing live s l) (hfuel : TASK_MAX ≤ fuel) (op : Op) :
    (op.run fuel s).1 ≠ .hang := by
  by_cases hmade : op.creates fuel s = true
  · unfold Op.creates at hmade
    split at hmade
    · rw [of_decide_eq_true hmade]
      nofun
    · simp at hmade
  · exact (h.run hlive hfuel op (fun h => absurd h hmade) fun _ => .inl hticked).ends

/-- Every reachable state has the ring invariant, and no operation halts in it or runs
round the circle for ever. -/
theorem reachable_ringInvariant {n : ℕ} (h : Reachable fuel n s) (hn : n < 2 ^ 32 - 2) (hfuel : TASK_MAX ≤ fuel) :
    RingInvariant s ∧ ∀ op : Op, (op.run fuel s).1 ≠ .hang := by
  obtain ⟨⟨l, hring⟩, -⟩ := h.onRing hfuel hn
  refine ⟨⟨⟨l, hring.circle, hring.used⟩, hring.sound.ids, hring.sound.current, hring.sound.running, hring.sound.kernel⟩, ?_⟩
  exact hring.ends goesOn_ne_exited nofun hfuel

/-- A new task, yielded to. -/
def oneTaskRun : Scheduler Suspended :=
  (Op.yield.run TASK_MAX ((Op.table (.create none 0 0 4096)).run TASK_MAX (taskInit Suspended)).2).2

theorem reachable_ringInvariant_oneTask : RingInvariant oneTaskRun ∧ oneTaskRun.current = ⟨1, by decide⟩ ∧
    ∀ op : Op, (op.run TASK_MAX oneTaskRun).1 ≠ .hang := by
  have hmade : (Op.table (.create none 0 0 4096)).creates TASK_MAX (taskInit Suspended) = true := by decide
  have hinit : Reachable TASK_MAX 0 (taskInit Suspended) := .init
  have hcreate := hinit.step (.table (.create none 0 0 4096))
  rw [if_pos hmade] at hcreate
  have hyield := hcreate.step .yield
  have hinv := reachable_ringInvariant hyield (by decide) le_rfl
  exact ⟨hinv.1, by decide, hinv.2⟩

end Tg11Kernel.Sched
