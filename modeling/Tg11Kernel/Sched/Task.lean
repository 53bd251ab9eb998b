import Tg11Kernel.Lib.Exec
import Mathlib.Algebra.GroupWithZero.Nat
import Mathlib.Data.List.FinRange
import Mathlib.Logic.Function.Basic

/-! Kernel tasks. Eight slots hold the tasks, threaded into a circle from slot 0 for
the round robin; a slot with id 0 is free. Here are the operations that change the
table without leaving the running task. What a saved stack pointer leads to is a
parameter `κ`; following a null pointer or going round a broken circle for ever is
a hang. -/

namespace Tg11Kernel.Sched

open Lib

def TASK_MAX : ℕ := 8

/-- `TASK_STATE_*` -/
inductive TaskState where
  | ready
  | running
  | zombie
  | stopped
  deriving DecidableEq

abbrev Slot := Fin TASK_MAX

/-- `&tasks[0]` -/
def kernelSlot : Slot := ⟨0, by decide⟩

/-- `task_t`: an `rsp` of 0 is `none`. -/
structure Task (κ : Type) where
  rsp : Option κ
  stackBase : UInt64
  id : UInt32
  state : TaskState
  entry : UInt64
  arg : UInt64
  name : List UInt8
  next : Option Slot

/-- An entry of `task_protect_mode`. -/
inductive ProtectMode where
  | default
  | forceOn
  | forceOff
  deriving DecidableEq

structure Scheduler (κ : Type) where
  tasks : Slot → Task κ
  current : Slot
  protectMode : Slot → ProtectMode
  nextId : UInt32
  preemptEnabled : Bool
  preemptDisableCount : ℤ
  userTaskSavedRsp : UInt64

/-- Scheduler code: `fail` is a return of -1. -/
abbrev M (κ : Type) := Exec (Scheduler κ)

variable {κ : Type}

def Scheduler.setTask (s : Scheduler κ) (i : Slot) (f : Task κ → Task κ) : Scheduler κ :=
  { s with tasks := Function.update s.tasks i (f (s.tasks i)) }

def setTask (i : Slot) (f : Task κ → Task κ) : M κ Unit := Exec.modify fun s => s.setTask i f

def setState (i : Slot) (state : TaskState) : M κ Unit := setTask i fun t => { t with state }

def setNext (i : Slot) (next : Option Slot) : M κ Unit := setTask i fun t => { t with next }

def setProtectMode (i : Slot) (mode : ProtectMode) : M κ Unit :=
  Exec.modify fun s => { s with protectMode := Function.update s.protectMode i mode }

/-- A link of the circle. -/
def Scheduler.next (s : Scheduler κ) (i : Slot) : Option Slot := (s.tasks i).next

/-- The slots from 1 on. -/
def slotsAfterKernel : List Slot := (List.finRange TASK_MAX).tail

def kernelName : List UInt8 := [107, 101, 114, 110, 101, 108]
def shellName : List UInt8 := [115, 104, 101, 108, 108]
def serialName : List UInt8 := [115, 101, 114, 105, 97, 108]
def taskName : List UInt8 := [116, 97, 115, 107]

/-- `copy_name` into 24 bytes. -/
def copyName (src : List UInt8) : List UInt8 := (src.takeWhile (· ≠ 0)).take 23

def findTaskById (s : Scheduler κ) (id : UInt32) : Option Slot := (List.finRange TASK_MAX).find? fun i => (s.tasks i).id = id

def isProtectedTask (s : Scheduler κ) (i : Slot) : Bool :=
  match s.protectMode i with
  | .forceOn => true
  | .forceOff => false
  | .default => i = kernelSlot ∨ (s.tasks i).name = shellName ∨ (s.tasks i).name = serialName

/-! ### The circle -/

/-- The loop of `unlink_task`: `p` goes round until its link is `t`. -/
def unlinkLoop (t : Slot) : ℕ → Slot → M κ Unit
  | 0, _ => Exec.hang
  | fuel + 1, p => do
    let pNext ← Exec.gets fun s => s.next p
    if pNext = some t then do
      let tNext ← Exec.gets fun s => s.next t
      setNext p tNext
    else
      match pNext with
      | none => Exec.hang
      | some p' => if p' = kernelSlot then pure () else unlinkLoop t fuel p'

def unlinkTask (fuel : ℕ) (t : Slot) : M κ Unit :=
  if t = kernelSlot then pure () else unlinkLoop t fuel kernelSlot

def reclaimTaskSlot (t : Slot) : M κ Unit :=
  if t = kernelSlot then pure ()
  else do
    setTask t fun _ =>
      { rsp := none, stackBase := 0, id := 0, state := .zombie, entry := 0, arg := 0, name := [], next := none }
    setProtectMode t .default

def removeTask (fuel : ℕ) (t : Slot) : M κ Unit := do
  unlinkTask fuel t
  reclaimTaskSlot t

/-! ### Creating and removing tasks -/

/-- A free slot, or one reclaimed from a zombie. -/
def claimSlot (fuel : ℕ) : M κ Slot := do
  let tasks ← Exec.gets fun s => s.tasks
  match slotsAfterKernel.find? fun i => (tasks i).id = 0 with
  | some t => pure t
  | none => do
    let t ← Exec.ofOption (slotsAfterKernel.find? fun i => (tasks i).state = .zombie ∧ (tasks i).id ≠ 0)
    removeTask fuel t
    pure t

/-- `fresh` is the context built on the new stack, `stack` what `virt_alloc_pages` returns. -/
def taskCreate (fuel : ℕ) (fresh : κ) (name : Option (List UInt8)) (entry arg stack : UInt64) : M κ UInt32 := do
  let t ← claimSlot fuel
  setTask t fun task => { task with stackBase := stack }
  Exec.require (stack ≠ 0)
  let id ← Exec.gets fun s => s.nextId
  Exec.modify fun s => { s with nextId := s.nextId + 1 }
  setTask t fun task =>
    { task with rsp := some fresh, id, state := .ready, entry, arg, name := copyName (name.getD taskName) }
  setProtectMode t .default
  let head ← Exec.gets fun s => s.next kernelSlot
  setNext t head
  setNext kernelSlot (some t)
  pure id

/-- A loop over slots that removes those of a kind. -/
def removeEach (fuel : ℕ) (picked : Scheduler κ → Slot → Bool) : List Slot → M κ ℕ
  | [] => pure 0
  | i :: slots => do
    let s ← Exec.gets id
    if picked s i = true then do
      removeTask fuel i
      let n ← removeEach fuel picked slots
      pure (n + 1)
    else removeEach fuel picked slots

def taskReapZombies (fuel : ℕ) : M κ Unit := do
  let _ ← removeEach fuel (fun s i => i ≠ s.current ∧ (s.tasks i).id ≠ 0 ∧ (s.tasks i).state = .zombie) slotsAfterKernel
  pure ()

def taskKill (fuel : ℕ) (id : UInt32) : M κ Unit := do
  let s ← Exec.gets fun s => s
  let t ← Exec.ofOption (findTaskById s id)
  Exec.require (¬ (isProtectedTask s t = true ∨ t = s.current))
  removeTask fuel t

def taskKillAll (fuel : ℕ) : M κ ℕ :=
  removeEach fuel (fun s i => i ≠ s.current ∧ (s.tasks i).id ≠ 0 ∧ ¬ isProtectedTask s i = true) slotsAfterKernel

/-! ### Stopping, protection -/

def taskStop (id : UInt32) : M κ Unit := do
  let s ← Exec.gets fun s => s
  let t ← Exec.ofOption (findTaskById s id)
  Exec.require (¬ (isProtectedTask s t = true ∨ t = s.current ∨
    (s.tasks t).state ≠ .ready ∧ (s.tasks t).state ≠ .running))
  setState t .stopped

def taskContinue (id : UInt32) : M κ Unit := do
  let s ← Exec.gets fun s => s
  let t ← Exec.ofOption (findTaskById s id)
  Exec.require ((s.tasks t).state = .stopped)
  setState t .ready

def protectModeOf (enabled : Bool) : ProtectMode := if enabled = true then .forceOn else .forceOff

def taskSetProtectionById (id : UInt32) (enabled : Bool) : M κ Unit := do
  Exec.require (id ≠ 0)
  let s ← Exec.gets fun s => s
  let t ← Exec.ofOption (findTaskById s id)
  Exec.require (t ≠ kernelSlot)
  setProtectMode t (protectModeOf enabled)

def taskSetProtectionByName (name : List UInt8) (enabled : Bool) : M κ Unit := do
  Exec.require (name ≠ [])
  let tasks ← Exec.gets fun s => s.tasks
  let t ← Exec.ofOption (slotsAfterKernel.find? fun i => (tasks i).id ≠ 0 ∧ (tasks i).name = name)
  setProtectMode t (protectModeOf enabled)

def taskSetPreemption (enabled : Bool) : M κ Unit := Exec.modify fun s => { s with preemptEnabled := enabled }

/-- Ring-3 code is entered, and the kernel stack to come back to is recorded. -/
def enterUser (rsp : UInt64) : M κ Unit := Exec.modify fun s => { s with userTaskSavedRsp := rsp }

def discard {α : Type} (m : M κ α) : M κ Unit := do
  let _ ← m
  pure ()

/-- The operations that do not leave the running task, with what `virt_alloc_pages`
returns to a `task_create`. -/
inductive TableOp where
  | create (name : Option (List UInt8)) (entry arg stack : UInt64)
  | reapZombies
  | kill (id : UInt32)
  | killAll
  | stop (id : UInt32)
  | cont (id : UInt32)
  | setProtectionById (id : UInt32) (enabled : Bool)
  | setProtectionByName (name : List UInt8) (enabled : Bool)
  | setPreemption (enabled : Bool)
  | enterUser (rsp : UInt64)

def TableOp.run (fuel : ℕ) (fresh : κ) : TableOp → M κ Unit
  | .create name entry arg stack => discard (taskCreate fuel fresh name entry arg stack)
  | .reapZombies => taskReapZombies fuel
  | .kill id => taskKill fuel id
  | .killAll => discard (taskKillAll fuel)
  | .stop id => taskStop id
  | .cont id => taskContinue id
  | .setProtectionById id enabled => taskSetProtectionById id enabled
  | .setProtectionByName name enabled => taskSetProtectionByName name enabled
  | .setPreemption enabled => taskSetPreemption enabled
  | .enterUser rsp => Sched.enterUser rsp

def TableOp.creates : TableOp → Bool
  | .create .. => true
  | _ => false

/-! ### Looking for the next task -/

/-- `while (next != old && next->state != TASK_STATE_READY) next = next->next;` -/
def scanReady (old : Slot) : ℕ → Option Slot → M κ Slot
  | 0, _ => Exec.hang
  | _ + 1, none => Exec.hang
  | fuel + 1, some next => do
    let t ← Exec.gets fun s => s.tasks next
    if next = old ∨ t.state = .ready then pure next else scanReady old fuel t.next

/-- A tick switches when nothing holds it back and another task is ready. -/
def Scheduler.Switches (s : Scheduler κ) : Prop :=
  s.preemptEnabled = true ∧ s.preemptDisableCount ≤ 0 ∧ s.userTaskSavedRsp = 0 ∧
    ∃ i ≠ s.current, (s.tasks i).state = .ready

/-- The state after `task_init`: one task, which is running. -/
def taskInit (κ : Type) : Scheduler κ where
  tasks := fun i =>
    { rsp := none
      stackBase := 0
      id := if i = kernelSlot then 1 else 0
      state := if i = kernelSlot then .running else .zombie
      entry := 0
      arg := 0
      name := if i = kernelSlot then kernelName else []
      next := if i = kernelSlot then some kernelSlot else none }
  current := kernelSlot
  protectMode := fun _ => .default
  nextId := 2
  preemptEnabled := true
  preemptDisableCount := 0
  userTaskSavedRsp := 0

end Tg11Kernel.Sched
