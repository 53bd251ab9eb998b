import Tg11Kernel.Sched.Task

/-! Switches statement by statement. `task_yield`, `task_exit` and `do_switch_to_next`
run with interrupts enabled, so a tick can strike between any two of their statements;
the tick itself runs with interrupts disabled, as one step, and so does the rest of it
when the task that it suspended is resumed. The other operations are atomic, and no
system call yields, so no task switch happens while a user program is active. Which
task a saved context belongs to, what it last suspended with and whether it has exited
are recorded beside the table, by task id. -/

namespace Tg11Kernel.Sched

open Lib

/-- The function that called `do_switch_to_next`. -/
inductive Caller where
  | yield
  | exit
  deriving DecidableEq

/-- The statement that a task runs next, with the local variables of the functions it
is in. -/
inductive Point where
  /-- The task's own code. -/
  | own
  /-- `old->state = TASK_STATE_READY;` -/
  | yielding (old : Slot)
  /-- `current_task->state = TASK_STATE_ZOMBIE;` -/
  | exiting
  /-- `do_switch_to_next(current_task);` -/
  | gone
  /-- `task_t *next = old->next;` -/
  | looking (caller : Caller) (old : Slot)
  /-- `next != old && next->state != TASK_STATE_READY` -/
  | scanning (caller : Caller) (old : Slot) (next : Option Slot)
  /-- `next = next->next;` -/
  | advancing (caller : Caller) (old next : Slot)
  /-- `old->state == TASK_STATE_READY || old->state == TASK_STATE_RUNNING` -/
  | alone (caller : Caller) (old : Slot)
  /-- `old->state = TASK_STATE_RUNNING;` -/
  | keeping (caller : Caller) (old : Slot)
  /-- `current_task = old;` -/
  | kept (caller : Caller) (old : Slot)
  /-- `next->state = TASK_STATE_RUNNING;` -/
  | marking (caller : Caller) (old next : Slot)
  /-- `current_task = next;` -/
  | publishing (caller : Caller) (old next : Slot)
  /-- `task_switch(old, next);` -/
  | switching (caller : Caller) (old next : Slot)
  /-- Behind `do_switch_to_next`. -/
  | returned (caller : Caller)
  /-- `for (;;) arch_halt();` -/
  | halted (caller : Caller)
  deriving DecidableEq

/-- Where a suspended task goes on. -/
inductive Place where
  | started
  | returned (caller : Caller)
  /-- Behind the switch of a tick that struck before a statement. -/
  | interrupted (point : Point)
  deriving DecidableEq

/-- What a saved stack pointer leads to: the stack of a task, as it was at one time. -/
structure Context where
  owner : UInt32
  stamp : ℕ
  place : Place
  deriving DecidableEq

/-- The table, and the task whose stack the CPU is on. -/
structure Machine where
  sched : Scheduler Context
  owner : UInt32
  point : Point
  suspended : UInt32 → Option Context
  exited : UInt32 → Bool
  clock : ℕ

namespace Machine

def setState (m : Machine) (i : Slot) (state : TaskState) : Machine :=
  { m with sched := m.sched.setTask i fun t => { t with state } }

def setCurrent (m : Machine) (i : Slot) : Machine := { m with sched := { m.sched with current := i } }

def goTo (m : Machine) (point : Point) : Machine := { m with point }

/-- The CPU is on the stack `c` leads to. -/
def resume (m : Machine) (c : Context) : Machine :=
  match c.place with
  | .started => { m with owner := c.owner, point := .own }
  | .returned caller => { m with owner := c.owner, point := .returned caller }
  | .interrupted point =>
    let m := m.setState m.sched.current .running
    { m with
      sched := { m.sched with preemptDisableCount := m.sched.preemptDisableCount - 1 }
      owner := c.owner
      point }

/-- `task_switch(old, next)`, called from a place: nothing follows a null stack pointer. -/
def taskSwitch (m : Machine) (old next : Slot) (place : Place) : Option Machine :=
  let c : Context := ⟨m.owner, m.clock, place⟩
  let s := m.sched.setTask old fun t => { t with rsp := some c }
  match (s.tasks next).rsp with
  | none => none
  | some there =>
    some ({ m with
      sched := s
      suspended := Function.update m.suspended m.owner (some c)
      clock := m.clock + 1 }.resume there)

/-- The statement at the task's point. -/
def go (m : Machine) : Option Machine :=
  let s := m.sched
  match m.point with
  | .own => none
  | .yielding old => some ((m.setState old .ready).goTo (.looking .yield old))
  | .exiting =>
    some ({ m.setState s.current .zombie with exited := Function.update m.exited m.owner true }.goTo .gone)
  | .gone => some (m.goTo (.looking .exit s.current))
  | .looking caller old => some (m.goTo (.scanning caller old (s.next old)))
  | .scanning _ _ none => none
  | .scanning caller old (some next) =>
    if next ≠ old ∧ (s.tasks next).state ≠ .ready then some (m.goTo (.advancing caller old next))
    else if next = old then some (m.goTo (.alone caller old))
    else some (m.goTo (.marking caller old next))
  | .advancing caller old next => some (m.goTo (.scanning caller old (s.next next)))
  | .alone caller old =>
    if (s.tasks old).state = .ready ∨ (s.tasks old).state = .running then some (m.goTo (.keeping caller old))
    else some (m.goTo (.halted caller))
  | .keeping caller old => some ((m.setState old .running).goTo (.kept caller old))
  | .kept caller old => some ((m.setCurrent old).goTo (.returned caller))
  | .marking caller old next => some ((m.setState next .running).goTo (.publishing caller old next))
  | .publishing caller old next => some ((m.setCurrent next).goTo (.switching caller old next))
  | .switching caller old next => m.taskSwitch old next (.returned caller)
  | .returned .yield => some ((m.setState s.current .running).goTo .own)
  | .returned .exit => some (m.goTo (.halted .exit))
  | .halted _ => some m

/-- `do_switch_to_next(old)` in one step. -/
def doSwitchToNext (fuel : ℕ) (m : Machine) (old : Slot) (place : Place) : Option Machine :=
  match (scanReady old fuel (m.sched.next old) m.sched).1 with
  | .ok next =>
    if next = old then
      let t := m.sched.tasks old
      if t.state = .ready ∨ t.state = .running then
        some (((m.setState old .running).setCurrent old).resume ⟨m.owner, m.clock, place⟩)
      else none
    else ((m.setState next .running).setCurrent next).taskSwitch old next place
  | _ => none

/-- `task_preempt_tick`, at any point. -/
def tick (fuel : ℕ) (m : Machine) : Option Machine :=
  let s := m.sched
  if s.preemptEnabled = false ∨ s.preemptDisableCount > 0 ∨ s.userTaskSavedRsp ≠ 0 then some m
  else
    match (scanReady s.current fuel (s.next s.current) s).1 with
    | .ok next =>
      if next = s.current then some m
      else
        let m := { m with sched := { s with preemptDisableCount := s.preemptDisableCount + 1 } }
        (m.setState s.current .ready).doSwitchToNext fuel s.current (.interrupted m.point)
    | _ => none

/-- An operation of the task's own code; a task that it makes has its context from the start. -/
def table (fuel : ℕ) (m : Machine) (op : TableOp) : Option Machine :=
  let fresh : Context := ⟨m.sched.nextId, m.clock, .started⟩
  match op.run fuel fresh m.sched with
  | (.hang, _) => none
  | (_, s) =>
    if s.nextId = m.sched.nextId then some { m with sched := s }
    else some
      { m with
        sched := s
        suspended := Function.update m.suspended m.sched.nextId (some fresh)
        exited := Function.update m.exited m.sched.nextId false
        clock := m.clock + 1 }

/-- `task_exit` up to its first write, in the task that runs. -/
def exit (m : Machine) : Machine :=
  if m.sched.userTaskSavedRsp ≠ 0 then { m with sched := { m.sched with userTaskSavedRsp := 0 } }
  else if m.sched.current = kernelSlot then m
  else m.goTo .exiting

end Machine

inductive Action where
  | table (op : TableOp)
  | yield
  | exit
  | go
  | tick

/-- One step, if the running task can make it. -/
def Machine.step (fuel : ℕ) (m : Machine) : Action → Option Machine
  | .table op => if m.point = .own then m.table fuel op else none
  | .yield =>
    if m.point = .own ∧ m.sched.userTaskSavedRsp = 0 then some (m.goTo (.yielding m.sched.current)) else none
  | .exit => if m.point = .own then some m.exit else none
  | .go => m.go
  | .tick => m.tick fuel

/-- The machine after `task_init`. -/
def Machine.init : Machine where
  sched := taskInit Context
  owner := 1
  point := .own
  suspended := fun _ => none
  exited := fun _ => false
  clock := 0

/-- The states of all runs. -/
inductive Machine.Possible (fuel : ℕ) : Machine → Prop
  | init : Possible fuel Machine.init
  | step {m m' : Machine} (a : Action) (h : Possible fuel m) (hstep : m.step fuel a = some m') : Possible fuel m'

/-- So many steps in a row. -/
def Machine.run (fuel : ℕ) : List Action → Machine → Option Machine
  | [], m => some m
  | a :: as, m => (m.step fuel a).bind (Machine.run fuel as)

theorem Machine.Possible.run {fuel : ℕ} {m m' : Machine} {as : List Action} (h : Machine.Possible fuel m)
    (hrun : m.run fuel as = some m') : Machine.Possible fuel m' := by
  induction as generalizing m with
  | nil => exact Option.some.inj hrun ▸ h
  | cons a as ih =>
    obtain ⟨m₁, hstep, hrest⟩ := Option.bind_eq_some_iff.1 hrun
    exact ih (h.step a hstep) hrest

end Tg11Kernel.Sched
