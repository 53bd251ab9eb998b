import Tg11Kernel.Sched.Statements
import Tg11Kernel.Sched.Table

/-! Ticks inside a switch. Between its statements a switch has a task marked as running
that is not on the CPU yet, and a tick that strikes there may save the wrong context or
wake a task that has exited. A run avoids this as long as no tick switches at those
statements and no chosen task exits before it is marked; then every suspended task
keeps the context that it suspended itself with. -/

namespace Tg11Kernel.Sched

open Lib

/-! ### Where it is safe to switch -/

/-- In `task_exit`, behind the mark. -/
def Point.leaves : Point → Bool
  | .gone => true
  | .looking caller _ | .scanning caller _ _ | .advancing caller _ _ | .alone caller _ | .keeping caller _
  | .kept caller _ | .marking caller _ _ | .publishing caller _ _ | .switching caller _ _ | .returned caller
  | .halted caller => caller = .exit
  | _ => false

/-- `current_task` is the next task, which is not on the CPU yet. -/
def Point.switches : Point → Bool
  | .switching .. => true
  | _ => false

/-- The local variables of the task in slot `o`. -/
def Point.Locals (o : Slot) : Point → Prop
  | .yielding old | .looking _ old | .scanning _ old _ | .alone _ old | .kept _ old => old = o
  | .keeping caller old => old = o ∧ caller = .yield
  | .advancing _ old next | .marking _ old next | .publishing _ old next | .switching _ old next => old = o ∧ next ≠ o
  | _ => True

/-- What `current_task` is while the task in slot `o` is at the point. -/
def Point.current (o : Slot) : Point → Slot
  | .switching _ _ next => next
  | _ => o

theorem Point.current_of_not_switches {p : Point} {o : Slot} (h : p.switches = false) : p.current o = o := by
  cases p <;> first | rfl | simp [Point.switches] at h

/-- A place where the task in slot `o` can go on, exited or not. -/
def Resumable (o : Slot) (exited : Bool) : Place → Prop
  | .started => exited = false
  | .returned caller => exited = decide (caller = .exit)
  | .interrupted p => exited = false ∧ p.Locals o ∧ p.leaves = false ∧ p.switches = false

/-! ### The invariant of the table -/

variable {s s' : Scheduler Context} {owner : UInt32} {suspended : UInt32 → Option Context} {exited : UInt32 → Bool}
  {o t : Slot}

/-- The task in slot `o` is on the CPU, and every other one is suspended with a context
of its own; exactly the exited tasks are zombies. -/
structure Intact (s : Scheduler Context) (suspended : UInt32 → Option Context) (exited : UInt32 → Bool) (o : Slot) : Prop where
  ids : ∀ i j, (s.tasks i).id ≠ 0 → (s.tasks i).id = (s.tasks j).id → i = j
  fresh : s.nextId ≠ 0 → ∀ i, (s.tasks i).id < s.nextId
  free : ∀ i, (s.tasks i).id = 0 → (s.tasks i).rsp = none ∧ (s.tasks i).state = .zombie
  used : (s.tasks o).id ≠ 0
  saved : ∀ i ≠ o, (s.tasks i).id ≠ 0 → ∃ c, (s.tasks i).rsp = some c ∧ suspended (s.tasks i).id = some c ∧
    c.owner = (s.tasks i).id ∧ Resumable i (exited (s.tasks i).id) c.place
  zombie : ∀ i, (s.tasks i).id ≠ 0 → (exited (s.tasks i).id = true ↔ (s.tasks i).state = .zombie)

namespace Intact

section

variable (h : Intact s suspended exited o)
include h

/-- Only the tasks and the next id matter. -/
theorem congr (htasks : s'.tasks = s.tasks) (hid : s'.nextId = s.nextId) : Intact s' suspended exited o := by
  constructor
  · rw [htasks]
    exact h.ids
  · rw [htasks, hid]
    exact h.fresh
  · rw [htasks]
    exact h.free
  · rw [htasks]
    exact h.used
  · rw [htasks]
    exact h.saved
  · rw [htasks]
    exact h.zombie

theorem setTask {f : Task Context → Task Context}
    (hid : ∀ x, (f x).id = x.id) (hrsp : t ≠ o → (f (s.tasks t)).rsp = (s.tasks t).rsp)
    (hfree : (s.tasks t).id = 0 → (f (s.tasks t)).rsp = none ∧ (f (s.tasks t)).state = .zombie)
    (hstate : (s.tasks t).id ≠ 0 → (exited (s.tasks t).id = true ↔ (f (s.tasks t)).state = .zombie)) :
    Intact (s.setTask t f) suspended exited o := by
  have hids : ∀ i, ((s.setTask t f).tasks i).id = (s.tasks i).id := by
    intro i
    rcases eq_or_ne i t with rfl | hi
    · rw [setTask_tasks_self, hid]
    · rw [setTask_tasks_of_ne hi]
  constructor
  · intro i j
    rw [hids, hids]
    exact h.ids i j
  · intro hn i
    rw [hids]
    exact h.fresh hn i
  · intro i hi
    rw [hids] at hi
    rcases eq_or_ne i t with rfl | hne
    · rw [setTask_tasks_self]
      exact hfree hi
    · rw [setTask_tasks_of_ne hne]
      exact h.free i hi
  · rw [hids]
    exact h.used
  · intro i hi hused
    rw [hids] at hused ⊢
    rcases eq_or_ne i t with rfl | hne
    · rw [setTask_tasks_self, hrsp hi]
      exact h.saved i hi hused
    · rw [setTask_tasks_of_ne hne]
      exact h.saved i hi hused
  · intro i hused
    rw [hids] at hused ⊢
    rcases eq_or_ne i t with rfl | hne
    · rw [setTask_tasks_self]
      exact hstate hused
    · rw [setTask_tasks_of_ne hne]
      exact h.zombie i hused

/-- A task that has not exited gets another state. -/
theorem setState (hused : (s.tasks t).id ≠ 0) (hlive : exited (s.tasks t).id = false)
    {state : TaskState} (hstate : state ≠ .zombie) : Intact (s.setTask t fun x => { x with state }) suspended exited o := by
  apply h.setTask (f := fun x => { x with state }) (fun _ => rfl) (fun _ => rfl) (fun hzero => absurd hzero hused)
  intro _
  simp [hlive, hstate]

/-- An update of other fields of a task. -/
theorem setTask_of_same {f : Task Context → Task Context}
    (hf : ∀ x, ((f x).id, (f x).state, (f x).rsp) = (x.id, x.state, x.rsp)) : Intact (s.setTask t f) suspended exited o := by
  simp only [Prod.mk.injEq] at hf
  apply h.setTask fun x => (hf x).1
  · exact fun _ => (hf _).2.2
  · rw [(hf _).2.1, (hf _).2.2]
    exact h.free t
  · rw [(hf _).2.1]
    exact h.zombie t

theorem reclaimed (ht : t ≠ o) : Intact (s.reclaimed t) suspended exited o := by
  have hself : (s.reclaimed t).tasks t =
      { rsp := none, stackBase := 0, id := 0, state := .zombie, entry := 0, arg := 0, name := [], next := none } :=
    Function.update_self ..
  have hother : ∀ i ≠ t, (s.reclaimed t).tasks i = s.tasks i := fun i hi => Function.update_of_ne hi ..
  have hne : ∀ i, ((s.reclaimed t).tasks i).id ≠ 0 → i ≠ t := by
    rintro i hused rfl
    rw [hself] at hused
    exact hused rfl
  constructor
  · intro i j hi hij
    have hit := hne i hi
    have hjt := hne j (hij ▸ hi)
    rw [hother i hit] at hi hij
    rw [hother j hjt] at hij
    exact h.ids i j hi hij
  · intro hn i
    rcases eq_or_ne i t with rfl | hi
    · rw [hself]
      exact UInt32.lt_of_le_of_lt UInt32.zero_le (h.fresh hn i)
    · rw [hother i hi]
      exact h.fresh hn i
  · intro i hzero
    rcases eq_or_ne i t with rfl | hi
    · rw [hself]
      exact ⟨rfl, rfl⟩
    · rw [hother i hi] at hzero ⊢
      exact h.free i hzero
  · rw [hother o ht.symm]
    exact h.used
  · intro i hi hused
    have hit := hne i hused
    rw [hother i hit] at hused ⊢
    exact h.saved i hi hused
  · intro i hused
    have hit := hne i hused
    rw [hother i hit] at hused ⊢
    exact h.zombie i hused

theorem used_of_not_zombie (hstate : (s.tasks t).state ≠ .zombie) : (s.tasks t).id ≠ 0 :=
  fun hzero => hstate (h.free t hzero).2

theorem live_of_not_zombie (hstate : (s.tasks t).state ≠ .zombie) : exited (s.tasks t).id = false := by
  rw [← Bool.not_eq_true, h.zombie t (h.used_of_not_zombie hstate)]
  exact hstate

/-- The running task suspends itself, for the one in slot `next`. -/
theorem suspend (hid : (s.tasks o).id = owner) (hused : (s.tasks t).id ≠ 0) {place : Place}
    (hplace : Resumable o (exited owner) place) (clock : ℕ) :
    Intact (s.setTask o fun x => { x with rsp := some ⟨owner, clock, place⟩ })
      (Function.update suspended owner (some ⟨owner, clock, place⟩)) exited t := by
  have hids : ∀ i, ((s.setTask o fun x => { x with rsp := some ⟨owner, clock, place⟩ }).tasks i).id = (s.tasks i).id := by
    intro i
    rcases eq_or_ne i o with rfl | hi
    · rw [setTask_tasks_self]
    · rw [setTask_tasks_of_ne hi]
  constructor
  · intro i j
    rw [hids, hids]
    exact h.ids i j
  · intro hn i
    rw [hids]
    exact h.fresh hn i
  · intro i hzero
    rw [hids] at hzero
    have hi : i ≠ o := by
      rintro rfl
      exact h.used hzero
    rw [setTask_tasks_of_ne hi]
    exact h.free i hzero
  · rw [hids]
    exact hused
  · intro i _ hi
    rw [hids] at hi ⊢
    rcases eq_or_ne i o with rfl | hio
    · rw [setTask_tasks_self, hid, Function.update_self]
      exact ⟨_, rfl, rfl, rfl, hplace⟩
    · have hne : (s.tasks i).id ≠ owner := fun heq => hio (h.ids i o hi (heq.trans hid.symm))
      rw [setTask_tasks_of_ne hio, Function.update_of_ne hne]
      exact h.saved i hio hi
  · intro i hi
    rw [hids] at hi ⊢
    rcases eq_or_ne i o with rfl | hio
    · rw [setTask_tasks_self]
      exact h.zombie i hi
    · rw [setTask_tasks_of_ne hio]
      exact h.zombie i hi

/-- The running task sets its state to zombie. -/
theorem exit (hid : (s.tasks o).id = owner) :
    Intact (s.setTask o fun x => { x with state := .zombie }) suspended (Function.update exited owner true) o := by
  have hothers : ∀ i ≠ o, (s.tasks i).id ≠ 0 → (s.tasks i).id ≠ owner := fun i hio hi heq =>
    hio (h.ids i o hi (heq.trans hid.symm))
  constructor
  · intro i j
    rw [setState_id, setState_id]
    exact h.ids i j
  · intro hn i
    rw [setState_id]
    exact h.fresh hn i
  · intro i hzero
    rw [setState_id] at hzero
    have hi : i ≠ o := by
      rintro rfl
      exact h.used hzero
    rw [setTask_tasks_of_ne hi]
    exact h.free i hzero
  · rw [setState_id]
    exact h.used
  · intro i hio hi
    rw [setState_id] at hi ⊢
    rw [setTask_tasks_of_ne hio, Function.update_of_ne (hothers i hio hi)]
    exact h.saved i hio hi
  · intro i hi
    rw [setState_id] at hi ⊢
    rcases eq_or_ne i o with rfl | hio
    · rw [setTask_tasks_self, hid, Function.update_self]
      exact iff_of_true rfl rfl
    · rw [setTask_tasks_of_ne hio, Function.update_of_ne (hothers i hio hi)]
      exact h.zombie i hi

/-- A change by a running task that has not exited. -/
theorem change (hcur : s.current = o) (hlive : exited (s.tasks o).id = false)
    (hstep : Change s s') : Intact s' suspended exited o := by
  cases hstep with
  | link t next => exact h.setTask_of_same fun _ => rfl
  | stack t stackBase => exact h.setTask_of_same fun _ => rfl
  | reclaim t ht =>
    apply h.reclaimed
    rintro rfl
    rcases ht with hne | hzombie
    · exact hne hcur.symm
    · rw [← h.zombie t h.used, hlive] at hzombie
      simp at hzombie
  | stop t _ hs =>
    have hstate : (s.tasks t).state ≠ .zombie := by rcases hs with hs | hs <;> simp [hs]
    exact h.setState (h.used_of_not_zombie hstate) (h.live_of_not_zombie hstate) nofun
  | cont t hs =>
    have hstate : (s.tasks t).state ≠ .zombie := by simp [hs]
    exact h.setState (h.used_of_not_zombie hstate) (h.live_of_not_zombie hstate) nofun
  | protect _ => exact h.congr rfl rfl
  | preemption _ => exact h.congr rfl rfl
  | user _ => exact h.congr rfl rfl

end

end Intact

/-- A change leaves the current task and the next id, and what a task's id is while it is there. -/
theorem Change.frame (hstep : Change s s') :
    s'.current = s.current ∧ s'.nextId = s.nextId ∧ ((s'.tasks t).id = (s.tasks t).id ∨ (s'.tasks t).id = 0) := by
  have hset : ∀ (i : Slot) (f : Task Context → Task Context), (∀ x, (f x).id = x.id ∨ (f x).id = 0) →
      (((s.setTask i f).tasks t).id = (s.tasks t).id ∨ ((s.setTask i f).tasks t).id = 0) := by
    intro i f hf
    rcases eq_or_ne t i with rfl | hne
    · rw [setTask_tasks_self]
      exact hf _
    · rw [setTask_tasks_of_ne hne]
      exact .inl rfl
  cases hstep with
  | link i next => exact ⟨rfl, rfl, hset i _ fun _ => .inl rfl⟩
  | stack i stackBase => exact ⟨rfl, rfl, hset i _ fun _ => .inl rfl⟩
  | reclaim i _ => exact ⟨rfl, rfl, hset i (fun _ => _) fun _ => .inr rfl⟩
  | stop i _ _ => exact ⟨rfl, rfl, hset i _ fun _ => .inl rfl⟩
  | cont i _ => exact ⟨rfl, rfl, hset i _ fun _ => .inl rfl⟩
  | protect _ => exact ⟨rfl, rfl, .inl rfl⟩
  | preemption _ => exact ⟨rfl, rfl, .inl rfl⟩
  | user _ => exact ⟨rfl, rfl, .inl rfl⟩

/-- The running task's own operations keep it where it is. -/
structure Running (s : Scheduler Context) (suspended : UInt32 → Option Context) (exited : UInt32 → Bool) (o : Slot)
    (owner : UInt32) : Prop where
  intact : Intact s suspended exited o
  current : s.current = o
  id : (s.tasks o).id = owner
  live : exited owner = false

namespace Running

theorem change (h : Running s suspended exited o owner) (hstep : Change s s') : Running s' suspended exited o owner := by
  have hintact := h.intact.change h.current (h.id ▸ h.live) hstep
  obtain ⟨hcur, -, hid⟩ := hstep.frame (t := o)
  exact ⟨hintact, hcur.trans h.current, (hid.resolve_right hintact.used).trans h.id, h.live⟩

theorem changes (h : Running s suspended exited o owner) (hsteps : Changes s s') :
    Running s' suspended exited o owner ∧ s'.nextId = s.nextId := by
  induction hsteps with
  | refl => exact ⟨h, rfl⟩
  | tail _ hstep ih => exact ⟨ih.1.change hstep, (hstep.frame (t := o)).2.1.trans ih.2⟩

theorem lt_add_one {n : UInt32} (h : n + 1 ≠ 0) : n < n + 1 := by
  rw [UInt32.lt_iff_toNat_lt, UInt32.toNat_add]
  have hlt := n.toNat_lt
  have hne : n.toNat + 1 ≠ 2 ^ 32 := by
    intro heq
    apply h
    rw [← UInt32.toNat_inj, UInt32.toNat_add, UInt32.toNat_one, heq]
    rfl
  rw [UInt32.toNat_one, Nat.mod_eq_of_lt (by omega)]
  omega

theorem filled (h : Running s suspended exited o owner) (hfree : (s.tasks t).id = 0) (hn : s.nextId ≠ 0) (clock : ℕ)
    (name : List UInt8) (entry arg : UInt64) :
    Running (s.filled t ⟨s.nextId, clock, .started⟩ name entry arg)
      (Function.update suspended s.nextId (some ⟨s.nextId, clock, .started⟩)) (Function.update exited s.nextId false)
      o owner := by
  have hself : (s.filled t ⟨s.nextId, clock, .started⟩ name entry arg).tasks t =
      { s.tasks t with rsp := some ⟨s.nextId, clock, .started⟩, id := s.nextId, state := .ready, entry, arg, name } :=
    Function.update_self ..
  have hother : ∀ i ≠ t, (s.filled t ⟨s.nextId, clock, .started⟩ name entry arg).tasks i = s.tasks i := fun i hi =>
    Function.update_of_ne hi ..
  have hto : o ≠ t := by
    rintro rfl
    exact h.intact.used hfree
  -- the new id is above those there are
  have hids : ∀ i, (s.tasks i).id ≠ s.nextId := by
    intro i heq
    have hlt := h.intact.fresh hn i
    rw [heq] at hlt
    exact UInt32.lt_irrefl _ hlt
  have howner : owner ≠ s.nextId := h.id ▸ hids o
  refine ⟨?_, h.current, ?_, ?_⟩
  · constructor
    · intro i j hi hij
      by_cases hit : i = t <;> by_cases hjt : j = t
      · rw [hit, hjt]
      · rw [hit, hself, hother j hjt] at hij
        exact absurd hij.symm (hids j)
      · rw [hjt, hself, hother i hit] at hij
        exact absurd hij (hids i)
      · rw [hother i hit] at hi hij
        rw [hother j hjt] at hij
        exact h.intact.ids i j hi hij
    · intro hn' i
      rcases eq_or_ne i t with rfl | hi
      · rw [hself]
        exact lt_add_one hn'
      · rw [hother i hi]
        exact UInt32.lt_trans (h.intact.fresh hn i) (lt_add_one hn')
    · intro i hzero
      have hi : i ≠ t := by
        rintro rfl
        rw [hself] at hzero
        exact hn hzero
      rw [hother i hi] at hzero ⊢
      exact h.intact.free i hzero
    · rw [hother o hto]
      exact h.intact.used
    · intro i hi hused
      rcases eq_or_ne i t with rfl | hit
      · rw [hself]
        exact ⟨_, rfl, Function.update_self .., rfl, Function.update_self ..⟩
      · rw [hother i hit] at hused ⊢
        rw [Function.update_of_ne (hids i), Function.update_of_ne (hids i)]
        exact h.intact.saved i hi hused
    · intro i hused
      rcases eq_or_ne i t with rfl | hit
      · rw [hself]
        simp
      · rw [hother i hit] at hused ⊢
        rw [Function.update_of_ne (hids i)]
        exact h.intact.zombie i hused
  · rw [hother o hto]
    exact h.id
  · rw [Function.update_of_ne howner]
    exact h.live

end Running

/-! ### The machine -/

/-- The machine runs the task in slot `o`, and the table is intact. -/
structure Machine.Runs (m : Machine) (o : Slot) : Prop where
  intact : Intact m.sched m.suspended m.exited o
  id : (m.sched.tasks o).id = m.owner
  current : m.sched.current = m.point.current o
  locals : m.point.Locals o
  exited : m.exited m.owner = m.point.leaves

namespace Machine.Runs

variable {m m' : Machine} {fuel : ℕ} {next : Slot}

/-- A new point with other local variables. -/
theorem goTo (h : m.Runs o) {p : Point} (hcur : p.current o = m.point.current o) (hlocals : p.Locals o)
    (hleaves : p.leaves = m.point.leaves) : (m.goTo p).Runs o :=
  ⟨h.intact, h.id, h.current.trans hcur.symm, hlocals, h.exited.trans hleaves.symm⟩

/-- A task that has not exited gets another state. -/
theorem setState (h : m.Runs o) (state : TaskState) (hused : (m.sched.tasks t).id ≠ 0)
    (hlive : m.exited (m.sched.tasks t).id = false) (hstate : state ≠ .zombie) : (m.setState t state).Runs o := by
  exact ⟨h.intact.setState hused hlive hstate, (setState_id state).trans h.id, h.current, h.locals, h.exited⟩

/-- The CPU is on the stack of the task in slot `o`, from a place where that can go on. -/
theorem resume {c : Context} (h : Intact m.sched m.suspended m.exited o) (hcur : m.sched.current = o)
    (hid : (m.sched.tasks o).id = c.owner) (hresume : Resumable o (m.exited c.owner) c.place) : (m.resume c).Runs o := by
  unfold Machine.resume
  cases hplace : c.place with
  | started =>
    rw [hplace] at hresume
    exact ⟨h, hid, hcur, trivial, hresume⟩
  | returned caller =>
    rw [hplace] at hresume
    exact ⟨h, hid, hcur, trivial, hresume⟩
  | interrupted p =>
    rw [hplace] at hresume
    obtain ⟨hlive, hlocals, hleaves, hswitches⟩ := hresume
    have hrunning : Intact (m.sched.setTask o fun x => { x with state := .running }) m.suspended m.exited o :=
      h.setState h.used (hid ▸ hlive) nofun
    refine ⟨?_, ?_, ?_, hlocals, hlive.trans hleaves.symm⟩
    · rw [hcur]
      exact hrunning.congr rfl rfl
    · exact (setState_id .running).trans hid
    · exact hcur.trans (Point.current_of_not_switches hswitches).symm

/-- The CPU goes over to the task in slot `next`, from a place where `o` can go on. -/
theorem taskSwitch (h : Intact m.sched m.suspended m.exited o) (hid : (m.sched.tasks o).id = m.owner)
    (hcur : m.sched.current = next) (hne : next ≠ o) {place : Place} (hplace : Resumable o (m.exited m.owner) place)
    (hstep : m.taskSwitch o next place = some m') : m'.Runs next := by
  unfold Machine.taskSwitch at hstep
  dsimp only at hstep
  rw [setTask_tasks_of_ne hne] at hstep
  cases hrsp : (m.sched.tasks next).rsp with
  | none =>
    rw [hrsp] at hstep
    simp at hstep
  | some c =>
    rw [hrsp] at hstep
    obtain rfl := Option.some.inj hstep
    have hused : (m.sched.tasks next).id ≠ 0 := by
      intro hzero
      rw [(h.free next hzero).1] at hrsp
      simp at hrsp
    obtain ⟨c', hrsp', -, howner, hresume⟩ := h.saved next hne hused
    obtain rfl : c = c' := Option.some.inj (hrsp.symm.trans hrsp')
    have hsuspend := h.suspend hid hused hplace m.clock
    have hresumed : ((m.sched.setTask o fun x => { x with rsp := some ⟨m.owner, m.clock, place⟩ }).tasks next).id = c.owner := by
      rw [setTask_tasks_of_ne hne, howner]
    exact resume (m := { m with
      sched := m.sched.setTask o fun x => { x with rsp := some ⟨m.owner, m.clock, place⟩ }
      suspended := Function.update m.suspended m.owner (some ⟨m.owner, m.clock, place⟩)
      clock := m.clock + 1 }) hsuspend hcur hresumed (howner ▸ hresume)

end Machine.Runs

/-- Steps that do no harm: a tick does not switch in `task_exit` behind the mark, nor before
`task_switch` when `current_task` is the next task already; the task chosen is no zombie
when it is marked as running; and the ids have not wrapped. -/
def Machine.Harmless (m : Machine) : Action → Prop
  | .tick => m.sched.Switches → m.point.leaves = false ∧ m.point.switches = false
  | .go =>
    match m.point with
    | .marking _ _ next => (m.sched.tasks next).state ≠ .zombie
    | _ => True
  | .table op => op.creates = true → m.sched.nextId ≠ 0
  | _ => True

namespace Machine.Runs

variable {m m' : Machine} {fuel : ℕ} {next : Slot}

section

variable (h : m.Runs o)
include h

theorem live (hleaves : m.point.leaves = false) : m.exited (m.sched.tasks o).id = false := by
  rw [h.id, h.exited, hleaves]

theorem go (hharm : m.Harmless .go) (hstep : m.go = some m') : ∃ o', m'.Runs o' := by
  rcases m with ⟨s, owner, point, suspended, exited, clock⟩
  cases point with
  | own => simp [Machine.go] at hstep
  | yielding old =>
    obtain rfl := Option.some.inj hstep
    obtain rfl : old = o := h.locals
    exact ⟨old, (h.setState .ready h.intact.used (h.live rfl) nofun).goTo rfl rfl rfl⟩
  | exiting =>
    obtain rfl := Option.some.inj hstep
    obtain rfl : s.current = o := h.current
    exact ⟨s.current, h.intact.exit h.id, (setState_id .zombie).trans h.id, rfl, trivial, Function.update_self ..⟩
  | gone =>
    obtain rfl := Option.some.inj hstep
    exact ⟨o, h.goTo rfl h.current rfl⟩
  | looking caller old =>
    obtain rfl := Option.some.inj hstep
    exact ⟨o, h.goTo rfl h.locals rfl⟩
  | scanning caller old next =>
    obtain rfl : old = o := h.locals
    cases next with
    | none => simp [Machine.go] at hstep
    | some next =>
      unfold Machine.go at hstep
      dsimp only at hstep
      split_ifs at hstep with hscan hfound
      · obtain rfl := Option.some.inj hstep
        exact ⟨old, h.goTo rfl ⟨rfl, hscan.1⟩ rfl⟩
      · obtain rfl := Option.some.inj hstep
        exact ⟨old, h.goTo rfl rfl rfl⟩
      · obtain rfl := Option.some.inj hstep
        exact ⟨old, h.goTo rfl ⟨rfl, hfound⟩ rfl⟩
  | advancing caller old next =>
    obtain rfl := Option.some.inj hstep
    exact ⟨o, h.goTo rfl h.locals.1 rfl⟩
  | alone caller old =>
    obtain rfl : old = o := h.locals
    unfold Machine.go at hstep
    dsimp only at hstep
    split_ifs at hstep with hstate
    · obtain rfl := Option.some.inj hstep
      have hid : (s.tasks old).id = owner := h.id
      have hzombie : (s.tasks old).state ≠ .zombie := by rcases hstate with hstate | hstate <;> simp [hstate]
      have hlive : exited owner = false := hid ▸ h.intact.live_of_not_zombie hzombie
      have hcaller : decide (caller = .exit) = false := h.exited.symm.trans hlive
      refine ⟨old, h.goTo rfl ⟨rfl, ?_⟩ rfl⟩
      cases caller with
      | yield => rfl
      | exit => simp at hcaller
    · obtain rfl := Option.some.inj hstep
      exact ⟨old, h.goTo rfl trivial rfl⟩
  | keeping caller old =>
    obtain rfl := Option.some.inj hstep
    obtain ⟨rfl, rfl⟩ : old = o ∧ caller = .yield := h.locals
    exact ⟨old, (h.setState .running h.intact.used (h.live rfl) nofun).goTo rfl rfl rfl⟩
  | kept caller old =>
    obtain rfl := Option.some.inj hstep
    obtain rfl : old = o := h.locals
    exact ⟨old, h.intact.congr rfl rfl, h.id, rfl, trivial, h.exited⟩
  | marking caller old next =>
    obtain rfl := Option.some.inj hstep
    have hstate : (s.tasks next).state ≠ .zombie := hharm
    have hmarked := h.setState .running (h.intact.used_of_not_zombie hstate) (h.intact.live_of_not_zombie hstate) nofun
    exact ⟨o, hmarked.goTo rfl h.locals rfl⟩
  | publishing caller old next =>
    obtain rfl := Option.some.inj hstep
    exact ⟨o, h.intact.congr rfl rfl, h.id, rfl, h.locals, h.exited⟩
  | switching caller old next =>
    obtain ⟨rfl, hne⟩ : old = o ∧ next ≠ o := h.locals
    have hplace : Resumable old (exited owner) (.returned caller) := h.exited
    exact ⟨next, taskSwitch h.intact h.id h.current hne hplace hstep⟩
  | returned caller =>
    cases caller with
    | yield =>
      obtain rfl := Option.some.inj hstep
      obtain rfl : s.current = o := h.current
      exact ⟨s.current, (h.setState .running h.intact.used (h.live rfl) nofun).goTo rfl trivial rfl⟩
    | exit =>
      obtain rfl := Option.some.inj hstep
      exact ⟨o, h.goTo rfl trivial rfl⟩
  | halted caller =>
    obtain rfl := Option.some.inj hstep
    exact ⟨o, h⟩

/-- Where a tick may switch, the task in slot `o` is suspended as it is. -/
theorem resumable (hleaves : m.point.leaves = false) (hswitches : m.point.switches = false) :
    Resumable o (m.exited m.owner) (.interrupted m.point) :=
  ⟨h.exited.trans hleaves, h.locals, hleaves, hswitches⟩

theorem doSwitchToNext (hleaves : m.point.leaves = false) (hswitches : m.point.switches = false)
    (hstep : m.doSwitchToNext fuel o (.interrupted m.point) = some m') : ∃ o', m'.Runs o' := by
  have hcur : m.sched.current = o := h.current.trans (Point.current_of_not_switches hswitches)
  have hresumable := h.resumable hleaves hswitches
  unfold Machine.doSwitchToNext at hstep
  rcases scanReady_cases o fuel (m.sched.next o) m.sched with hscan | ⟨next, hscan, hnext⟩
  · rw [hscan] at hstep
    simp at hstep
  rw [hscan] at hstep
  dsimp only at hstep
  split_ifs at hstep with hsame
  · obtain rfl := Option.some.inj hstep
    have hkept := h.setState .running h.intact.used (h.live hleaves) nofun
    exact ⟨o, resume (hkept.intact.congr rfl rfl) rfl hkept.id hresumable⟩
  · have hready := hnext.resolve_left hsame
    have hzombie : (m.sched.tasks next).state ≠ .zombie := by simp [hready]
    have hnextrun := h.setState .running (h.intact.used_of_not_zombie hzombie) (h.intact.live_of_not_zombie hzombie) nofun
    exact ⟨next, taskSwitch (m := (m.setState next .running).setCurrent next) (hnextrun.intact.congr rfl rfl) hnextrun.id rfl
      hsame hresumable hstep⟩

theorem tick (hharm : m.Harmless .tick) (hstep : m.tick fuel = some m') : ∃ o', m'.Runs o' := by
  unfold Machine.tick at hstep
  dsimp only at hstep
  split_ifs at hstep with hoff
  · obtain rfl := Option.some.inj hstep
    exact ⟨o, h⟩
  simp only [not_or, Bool.not_eq_false, not_lt, ne_eq, not_not] at hoff
  rcases scanReady_cases m.sched.current fuel (m.sched.next m.sched.current) m.sched with hscan | ⟨next, hscan, hnext⟩
  · rw [hscan] at hstep
    simp at hstep
  rw [hscan] at hstep
  dsimp only at hstep
  split_ifs at hstep with hsame
  · obtain rfl := Option.some.inj hstep
    exact ⟨o, h⟩
  obtain ⟨hleaves, hswitches⟩ := hharm ⟨hoff.1, hoff.2.1, hoff.2.2, next, hsame, hnext.resolve_left hsame⟩
  obtain rfl : m.sched.current = o := h.current.trans (Point.current_of_not_switches hswitches)
  have hcounted : Machine.Runs { m with sched := { m.sched with preemptDisableCount := m.sched.preemptDisableCount + 1 } }
      m.sched.current := ⟨h.intact.congr rfl rfl, h.id, h.current, h.locals, h.exited⟩
  have hready := hcounted.setState .ready h.intact.used (h.live hleaves) nofun
  exact hready.doSwitchToNext hleaves hswitches hstep

theorem running (hown : m.point = .own) : Running m.sched m.suspended m.exited o m.owner := by
  refine ⟨h.intact, ?_, h.id, ?_⟩
  · rw [h.current, hown]
    rfl
  · rw [h.exited, hown]
    rfl

theorem table (hown : m.point = .own) (op : TableOp) (hharm : m.Harmless (.table op))
    (hstep : m.table fuel op = some m') : ∃ o', m'.Runs o' := by
  have hrunning := h.running hown
  have hruns : ∀ (s : Scheduler Context) suspended exited clock, Running s suspended exited o m.owner →
      Machine.Runs { m with sched := s, suspended, exited, clock } o := by
    intro s suspended exited clock hs
    refine ⟨hs.intact, hs.id, ?_, ?_, ?_⟩
    · rw [hown]
      exact hs.current
    · rw [hown]
      trivial
    · rw [hown]
      exact hs.live
  have hresult : Result ⟨m.sched.nextId, m.clock, .started⟩ m.sched (op.run fuel ⟨m.sched.nextId, m.clock, .started⟩ m.sched).2 :=
    op.result _ m.sched
  have hkept : op.creates = false → Changes m.sched (op.run fuel ⟨m.sched.nextId, m.clock, .started⟩ m.sched).2 :=
    fun hop => op.changes _ hop m.sched
  unfold Machine.table at hstep
  dsimp only at hstep
  generalize op.run fuel ⟨m.sched.nextId, m.clock, .started⟩ m.sched = r at hresult hkept hstep
  obtain ⟨outcome, s⟩ := r
  have hended : (if s.nextId = m.sched.nextId then some { m with sched := s } else some { m with
      sched := s
      suspended := Function.update m.suspended m.sched.nextId (some ⟨m.sched.nextId, m.clock, .started⟩)
      exited := Function.update m.exited m.sched.nextId false
      clock := m.clock + 1 }) = some m' := by
    cases outcome with
    | hang => simp at hstep
    | _ => exact hstep
  have hunmade : Changes m.sched s → ∃ o', m'.Runs o' := by
    intro hsteps
    obtain ⟨hs, hid⟩ := hrunning.changes hsteps
    rw [if_pos hid] at hended
    obtain rfl := Option.some.inj hended
    exact ⟨o, hruns s m.suspended m.exited m.clock hs⟩
  cases hresult with
  | kept hsteps => exact hunmade hsteps
  | made u t name entry arg hsteps hfree hsteps' =>
    cases hop : op.creates with
    | false => exact hunmade (hkept hop)
    | true =>
      obtain ⟨hu, hid⟩ := hrunning.changes hsteps
      have hn : u.nextId ≠ 0 := hid ▸ hharm hop
      have hfilled := hu.filled hfree hn m.clock name entry arg
      rw [hid] at hfilled
      obtain ⟨hs, hid'⟩ := hfilled.changes hsteps'
      have hmade : s.nextId ≠ m.sched.nextId := by
        rw [hid', ← hid]
        show u.nextId + 1 ≠ u.nextId
        simp
      rw [if_neg hmade] at hended
      obtain rfl := Option.some.inj hended
      exact ⟨o, hruns s _ _ (m.clock + 1) hs⟩

theorem exit (hown : m.point = .own) : m.exit.Runs o := by
  unfold Machine.exit
  split_ifs
  · exact ⟨h.intact.congr rfl rfl, h.id, h.current, h.locals, h.exited⟩
  · exact h
  · exact h.goTo (by rw [hown]; rfl) trivial (by rw [hown]; rfl)

theorem step (a : Action) (hharm : m.Harmless a) (hstep : m.step fuel a = some m') : ∃ o', m'.Runs o' := by
  unfold Machine.step at hstep
  cases a with
  | table op =>
    dsimp only at hstep
    split_ifs at hstep with hown
    exact h.table hown op hharm hstep
  | yield =>
    dsimp only at hstep
    split_ifs at hstep with hown
    obtain rfl := Option.some.inj hstep
    have hcur : m.sched.current = o := (h.running hown.1).current
    refine ⟨o, h.goTo ?_ hcur ?_⟩
    · rw [hown.1]
      rfl
    · rw [hown.1]
      rfl
  | exit =>
    dsimp only at hstep
    split_ifs at hstep with hown
    obtain rfl := Option.some.inj hstep
    exact ⟨o, h.exit hown⟩
  | go => exact h.go hharm hstep
  | tick => exact h.tick hharm hstep

end

end Machine.Runs

theorem Machine.runs_init : Machine.init.Runs kernelSlot := by
  refine ⟨?_, rfl, rfl, trivial, rfl⟩
  constructor
  · intro i j
    simp only [Machine.init, taskInit]
    grind
  · intro _ i
    simp only [Machine.init, taskInit]
    split <;> decide
  · intro i
    simp only [Machine.init, taskInit]
    grind
  · simp [Machine.init, taskInit]
  · intro i
    simp only [Machine.init, taskInit]
    grind
  · intro i
    simp only [Machine.init, taskInit]
    grind

/-! ### Runs -/

/-- The states of runs in which no step does harm. -/
inductive Machine.Reaches (fuel : ℕ) : Machine → Prop
  | init : Reaches fuel Machine.init
  | step {m m' : Machine} (a : Action) (h : Reaches fuel m) (hharm : m.Harmless a) (hstep : m.step fuel a = some m') :
      Reaches fuel m'

/-- Every task that is not on the CPU has saved the context that it last suspended with,
no two have saved the same, and no task that has exited is ready or running. -/
structure Machine.ContextsKept (m : Machine) : Prop where
  own : ∀ i, (m.sched.tasks i).id ≠ 0 → (m.sched.tasks i).id ≠ m.owner →
    ∃ c, (m.sched.tasks i).rsp = some c ∧ m.suspended (m.sched.tasks i).id = some c ∧ c.owner = (m.sched.tasks i).id
  distinct : ∀ i j, i ≠ j → (m.sched.tasks i).id ≠ 0 → (m.sched.tasks i).id ≠ m.owner → (m.sched.tasks j).id ≠ 0 →
    (m.sched.tasks j).id ≠ m.owner → (m.sched.tasks i).rsp ≠ (m.sched.tasks j).rsp
  zombies : ∀ i, (m.sched.tasks i).id ≠ 0 → m.exited (m.sched.tasks i).id = true →
    (m.sched.tasks i).state ≠ .ready ∧ (m.sched.tasks i).state ≠ .running

theorem Machine.Runs.contextsKept {m : Machine} (h : m.Runs o) : m.ContextsKept := by
  have hown : ∀ i, (m.sched.tasks i).id ≠ 0 → (m.sched.tasks i).id ≠ m.owner →
      ∃ c, (m.sched.tasks i).rsp = some c ∧ m.suspended (m.sched.tasks i).id = some c ∧ c.owner = (m.sched.tasks i).id := by
    intro i hused hne
    have hio : i ≠ o := by
      rintro rfl
      exact hne h.id
    obtain ⟨c, hrsp, hsaved, howner, -⟩ := h.intact.saved i hio hused
    exact ⟨c, hrsp, hsaved, howner⟩
  refine ⟨hown, ?_, ?_⟩
  · intro i j hij hi hi' hj hj' heq
    obtain ⟨c, hrsp, -, howner⟩ := hown i hi hi'
    obtain ⟨d, hrsp', -, howner'⟩ := hown j hj hj'
    rw [hrsp, hrsp'] at heq
    obtain rfl := Option.some.inj heq
    exact hij (h.intact.ids i j hi (howner.symm.trans howner'))
  · intro i hused hexited
    rw [(h.intact.zombie i hused).1 hexited]
    exact ⟨nofun, nofun⟩

theorem Machine.Reaches.runs {fuel : ℕ} {m : Machine} (h : Machine.Reaches fuel m) : ∃ o, m.Runs o := by
  induction h with
  | init => exact ⟨kernelSlot, Machine.runs_init⟩
  | step a _ hharm hstep ih =>
    obtain ⟨o, ho⟩ := ih
    exact ho.step a hharm hstep

/-- In runs without a harmful step no context is lost. -/
theorem reaches_contextsKept {fuel : ℕ} {m : Machine} (h : Machine.Reaches fuel m) : m.ContextsKept := by
  obtain ⟨o, ho⟩ := h.runs
  exact ho.contextsKept

def create : Action := .table (.create none 0 0 4096)

/-- A tick strikes in the first task's `task_yield`, and it is suspended there. -/
theorem reaches_contextsKept_interrupted : ∃ m : Machine, Machine.init.run TASK_MAX [create, .yield, .go, .tick] = some m ∧
    m.owner = 2 ∧ m.ContextsKept := by
  have hcreate := Machine.Reaches.init.step create (fun _ => by decide)
    (Option.some_get (show (Machine.init.step TASK_MAX create).isSome = true by decide)).symm
  have hyield := hcreate.step .yield trivial (Option.some_get (by decide)).symm
  have hgo := hyield.step .go trivial (Option.some_get (by decide)).symm
  have htick := hgo.step .tick (fun _ => ⟨rfl, rfl⟩) (Option.some_get (by decide)).symm
  exact ⟨_, by rfl, by rfl, reaches_contextsKept htick⟩

/-- The statements of a switch up to `task_switch`, the next task being ready at once. -/
def upToSwitch : List Action := [.yield, .go, .go, .go, .go, .go]

/-- A tick strikes when `current_task` is the next task already, and saves the first
task's context there. -/
def lostRun : List Action := [create, create] ++ upToSwitch ++ [.tick]

/-- A tick strikes in `task_exit` behind the mark, and makes the task ready again. -/
def wokenRun : List Action := [create] ++ upToSwitch ++ [.go, .exit, .go, .tick]

theorem tick_loses_context :
    (∃ m, Machine.Possible TASK_MAX m ∧ ¬ m.ContextsKept ∧
      ∃ i c, (m.sched.tasks i).id ≠ 0 ∧ (m.sched.tasks i).id ≠ m.owner ∧ (m.sched.tasks i).rsp = some c ∧
        c.owner ≠ (m.sched.tasks i).id) ∧
    ∃ m, Machine.Possible TASK_MAX m ∧ ¬ m.ContextsKept ∧
      ∃ i, (m.sched.tasks i).id ≠ 0 ∧ m.exited (m.sched.tasks i).id = true ∧ (m.sched.tasks i).state = .ready := by
  have hlost : ∃ m, Machine.init.run TASK_MAX lostRun = some m ∧ ∃ i c, (m.sched.tasks i).id ≠ 0 ∧
      (m.sched.tasks i).id ≠ m.owner ∧ (m.sched.tasks i).rsp = some c ∧ c.owner ≠ (m.sched.tasks i).id :=
    ⟨_, (Option.some_get (by decide)).symm, ⟨2, by decide⟩,
      ⟨1, 2, .interrupted (.switching .yield kernelSlot ⟨2, by decide⟩)⟩, by decide⟩
  have hwoken : ∃ m, Machine.init.run TASK_MAX wokenRun = some m ∧ ∃ i, (m.sched.tasks i).id ≠ 0 ∧
      m.exited (m.sched.tasks i).id = true ∧ (m.sched.tasks i).state = .ready :=
    ⟨_, (Option.some_get (by decide)).symm, ⟨1, by decide⟩, by decide⟩
  constructor
  · obtain ⟨m, hrun, i, c, hused, hne, hrsp, howner⟩ := hlost
    refine ⟨m, Machine.Possible.init.run hrun, ?_, i, c, hused, hne, hrsp, howner⟩
    intro hkept
    obtain ⟨d, hd, -, hown⟩ := hkept.own i hused hne
    rw [hrsp] at hd
    obtain rfl := Option.some.inj hd
    exact howner hown
  · obtain ⟨m, hrun, i, hused, hexited, hready⟩ := hwoken
    exact ⟨m, Machine.Possible.init.run hrun, fun hkept => (hkept.zombies i hused hexited).1 hready, i, hused, hexited, hready⟩

end Tg11Kernel.Sched
