import Tg11Kernel.Sched.Task

/-! Context switches, each as one step. A suspended task is known by the place where
it goes on: a switch leaves that place behind, and runs what stands there in the
task it goes to, up to that task's own code. -/

namespace Tg11Kernel.Sched

open Lib

/-- The place where a suspended task goes on: at its entry, or behind
`do_switch_to_next` in one of the three callers. -/
inductive Suspended where
  | started
  | yielded
  | ticked
  | exited
  deriving DecidableEq

/-- `current_task->state = TASK_STATE_RUNNING;` -/
def markCurrent {κ : Type} : M κ Unit := do
  let current ← Exec.gets fun s => s.current
  setState current .running

def setCurrent {κ : Type} (i : Slot) : M κ Unit := Exec.modify fun s => { s with current := i }

def addDisableCount {κ : Type} (d : ℤ) : M κ Unit :=
  Exec.modify fun s => { s with preemptDisableCount := s.preemptDisableCount + d }

/-- The rest of the function behind the call of `do_switch_to_next`, or the trampoline. -/
def goOn : Suspended → M Suspended Unit
  | .started => pure ()
  | .yielded => markCurrent
  | .ticked => do
    markCurrent
    addDisableCount (-1)
  | .exited => Exec.hang

def taskSwitch (old next : Slot) (place : Suspended) : M Suspended Unit := do
  setTask old fun t => { t with rsp := some place }
  let rsp ← Exec.gets fun s => (s.tasks next).rsp
  match rsp with
  | none => Exec.hang
  | some there => goOn there

/-- Called from `place`. -/
def doSwitchToNext (fuel : ℕ) (old : Slot) (place : Suspended) : M Suspended Unit := do
  let head ← Exec.gets fun s => s.next old
  let next ← scanReady old fuel head
  if next = old then do
    let t ← Exec.gets fun s => s.tasks old
    if t.state = .ready ∨ t.state = .running then do
      setState old .running
      setCurrent old
      goOn place
    -- no runnable tasks left
    else Exec.hang
  else do
    setState next .running
    setCurrent next
    taskSwitch old next place

def taskYield (fuel : ℕ) : M Suspended Unit := do
  let old ← Exec.gets fun s => s.current
  setState old .ready
  doSwitchToNext fuel old .yielded

def taskExit (fuel : ℕ) : M Suspended Unit := do
  let s ← Exec.gets fun s => s
  if s.userTaskSavedRsp ≠ 0 then Exec.modify fun s => { s with userTaskSavedRsp := 0 }
  else if s.current = kernelSlot then pure ()
  else do
    setState s.current .zombie
    doSwitchToNext fuel s.current .exited

def taskPreemptTick (fuel : ℕ) : M Suspended Unit := do
  let s ← Exec.gets fun s => s
  if s.preemptEnabled = false ∨ s.preemptDisableCount > 0 then pure ()
  else if s.userTaskSavedRsp ≠ 0 then pure ()
  else do
    let next ← scanReady s.current fuel (s.next s.current)
    if next = s.current then pure ()
    else do
      addDisableCount 1
      setState s.current .ready
      doSwitchToNext fuel s.current .ticked

/-! ### Runs -/

inductive Op where
  | table (op : TableOp)
  | yield
  | exit
  | preemptTick

def Op.run (fuel : ℕ) : Op → M Suspended Unit
  | .table op => op.run fuel .started
  | .yield => taskYield fuel
  | .exit => taskExit fuel
  | .preemptTick => taskPreemptTick fuel

/-- The operation made a task. -/
def Op.creates (fuel : ℕ) (op : Op) (s : Scheduler Suspended) : Bool :=
  match op with
  | .table (.create ..) => (op.run fuel s).1 = .ok ()
  | _ => false

/-- The states of runs with so many tasks made. -/
inductive Reachable (fuel : ℕ) : ℕ → Scheduler Suspended → Prop
  | init : Reachable fuel 0 (taskInit Suspended)
  | step {n : ℕ} {s : Scheduler Suspended} (op : Op) (h : Reachable fuel n s) :
      Reachable fuel (n + if op.creates fuel s = true then 1 else 0) (op.run fuel s).2

end Tg11Kernel.Sched
