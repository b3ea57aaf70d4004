import Mathlib.Data.Fintype.Sum
import Mathlib.Tactic.DeriveFintype
import InferenceOS.Lib.Program
import InferenceOS.Status

/-! The scheduler, `scheduler/scheduler.c`, and its wait queues, `scheduler/wait_queue.c`. The ends of a wait queue lie
    in the structure that owns it; the model keeps the ends of all queues in one map, whose keys `κ` are the queues.
    Interrupts are off during each call. -/

namespace InferenceOS
open Program

abbrev processMaxCount : Nat := 32

instance : NeZero processMaxCount := ⟨by decide⟩

/-- A pointer into the process table. -/
abbrev ProcessRef : Type := Fin processMaxCount

abbrev schedulerMaxTasks : Nat := 64

instance : NeZero schedulerMaxTasks := ⟨by decide⟩

/-- `IOS_SCHEDULER_KERNEL_PRIORITY_RECOVERY`, the highest priority. -/
def highestPriority : Nat := 4

/-- `IOS_SCHEDULER_USER_PRIORITY`, the lowest priority. -/
def userPriority : Nat := 0

/-- A pointer to a task: `&idle_task` or `&tasks[index]`. -/
inductive TaskRef where
  | idle
  | slot (index : Fin schedulerMaxTasks)
  deriving DecidableEq, Repr, Fintype

/-- `enum ios_scheduler_task_kind`; `none` is 0. -/
inductive TaskKind where
  | none | userProcess | kernelWork | idle
  deriving DecidableEq, Repr

inductive TaskState where
  | unused | runnable | running | blocked | exited
  deriving DecidableEq, Repr

structure SchedulerTask (κ : Type) where
  taskId : Nat
  kind : TaskKind
  state : TaskState
  priority : Nat
  process : Option ProcessRef
  waitQueue : Option κ
  waitNext : Option TaskRef

structure WaitQueue where
  head : Option TaskRef
  tail : Option TaskRef
  deriving DecidableEq, Repr

/-- The static variables of the scheduler, and the wait queues. -/
structure Scheduler (κ : Type) where
  tasks : TaskRef → SchedulerTask κ
  queues : κ → WaitQueue
  currentTask : Option TaskRef
  lastSelected : Nat → Nat
  nextTaskId : Nat
  ready : Bool

namespace Scheduler
variable {κ : Type}

/-- A task after `memset`. -/
def zeroTask : SchedulerTask κ := ⟨0, .none, .unused, 0, none, none, none⟩

/-- `scheduler_initialize`, with empty wait queues. -/
def schedulerInitialize : Scheduler κ where
  tasks t := match t with
    | .idle => { (zeroTask : SchedulerTask κ) with kind := .idle, state := .runnable, priority := userPriority }
    | .slot _ => zeroTask
  queues _ := ⟨none, none⟩
  currentTask := none
  lastSelected _ := 0
  nextTaskId := 1
  ready := true

/-- The scheduler with another task. -/
def setTask (s : Scheduler κ) (t : TaskRef) (task : SchedulerTask κ) : Scheduler κ :=
  { s with tasks := Function.update s.tasks t task }

/-- The first slot with the given property. -/
def firstSlot (p : Fin schedulerMaxTasks → Bool) : Option (Fin schedulerMaxTasks) := (List.finRange schedulerMaxTasks).find? p

/-- `allocate_task`; the caller fills the rest of the task in. -/
def allocateTask (s : Scheduler κ) : Option (TaskRef × Scheduler κ) :=
  (firstSlot fun i => (s.tasks (.slot i)).state = .unused).map fun i =>
    (.slot i, { s.setTask (.slot i) { (zeroTask : SchedulerTask κ) with taskId := s.nextTaskId } with
      nextTaskId := s.nextTaskId + 1 })

/-- The slots from the one after the last selected, round the table. -/
def slotsAfter (start : Nat) : List (Fin schedulerMaxTasks) :=
  (List.range schedulerMaxTasks).map fun offset => Fin.ofNat schedulerMaxTasks (start + (offset + 1))

/-- `select_runnable`, from `priority` downwards. -/
def selectFrom (s : Scheduler κ) (priority : Nat) : TaskRef × Scheduler κ :=
  match (slotsAfter (s.lastSelected priority)).find? fun i =>
      (s.tasks (.slot i)).state = .runnable ∧ (s.tasks (.slot i)).priority = priority with
  | some i => (.slot i, { s with lastSelected := Function.update s.lastSelected priority i.1 })
  | none =>
    match priority with
    | 0 => (.idle, s)
    | priority + 1 => s.selectFrom priority

def selectRunnable (s : Scheduler κ) : TaskRef × Scheduler κ := s.selectFrom highestPriority

/-- The task that runs next, and runs. -/
def switch (s : Scheduler κ) : Scheduler κ :=
  let (selected, s) := s.selectRunnable
  { s.setTask selected { s.tasks selected with state := .running } with currentTask := some selected }

/-- `scheduler_add_process`; `runnable` tells whether the process is. -/
def schedulerAddProcess (process : ProcessRef) (runnable : Bool) : Program IosError (Scheduler κ) Unit := do
  let s ← get
  failIf (s.ready = false ∨ runnable = false) .invalidArgument
  match s.allocateTask with
  | none => fail .noSpace
  | some (task, allocated) =>
    modify fun _ => allocated.setTask task { allocated.tasks task with
      kind := .userProcess, state := .runnable, priority := userPriority, process := some process }

def schedulerSelectNext (s : Scheduler κ) : Scheduler κ :=
  switch (match s.currentTask with
    | some current =>
      if (s.tasks current).state = .running then s.setTask current { s.tasks current with state := .runnable } else s
    | none => s)

variable [DecidableEq κ]

/-- The scheduler with other ends of a queue. -/
def setQueue (s : Scheduler κ) (queue : κ) (ends : WaitQueue) : Scheduler κ :=
  { s with queues := Function.update s.queues queue ends }

/-- The new task behind the last one of a queue. -/
def enqueue (s : Scheduler κ) (queue : κ) (task : TaskRef) : Scheduler κ :=
  match (s.queues queue).tail with
  | none => s.setQueue queue ⟨some task, some task⟩
  | some last => (s.setTask last { s.tasks last with waitNext := some task }).setQueue queue ⟨(s.queues queue).head, some task⟩

def schedulerBlockCurrent (queue : κ) : Program IosError (Scheduler κ) Unit := do
  let s ← get
  match s.currentTask with
  | none => fail .invalidState
  | some current => do
    failIf (s.ready = false ∨ current = .idle ∨ (s.tasks current).state ≠ .running ∨
      (s.tasks current).waitQueue.isSome) .invalidState
    modify fun s => s.setTask current { s.tasks current with state := .blocked, waitQueue := some queue, waitNext := none }
    modify fun s => s.enqueue queue current
    modify switch

/-- The loop of `wait_queue_remove` from `current` on. A queue has each task once, so that `fuel` outlasts it. -/
def waitQueueRemoveFrom (queue : κ) (task : TaskRef) : Nat → Option TaskRef → Option TaskRef → Scheduler κ → Scheduler κ
  | fuel + 1, previous, some current, s =>
    if current = task then
      let next := (s.tasks current).waitNext
      let ends := s.queues queue
      let s := match previous with
        | none => s.setQueue queue ⟨next, ends.tail⟩
        | some previous => s.setTask previous { s.tasks previous with waitNext := next }
      let s := if ends.tail = some current then s.setQueue queue ⟨(s.queues queue).head, previous⟩ else s
      s.setTask current { s.tasks current with waitNext := none, waitQueue := none }
    else waitQueueRemoveFrom queue task fuel (some current) (s.tasks current).waitNext s
  | _, _, _, s => s

def waitQueueRemove (queue : κ) (task : TaskRef) (s : Scheduler κ) : Scheduler κ :=
  waitQueueRemoveFrom queue task (schedulerMaxTasks + 2) none (s.queues queue).head s

def schedulerWakeTask (task : TaskRef) : Program IosError (Scheduler κ) Unit := do
  let s ← get
  failIf (s.ready = false ∨ (s.tasks task).state ≠ .blocked) .invalidState
  modify fun s => match (s.tasks task).waitQueue with
    | some queue => s.waitQueueRemove queue task
    | none => s
  modify fun s => s.setTask task { s.tasks task with state := .runnable }

def waitQueueWakeOne (queue : κ) (s : Scheduler κ) : Option TaskRef × Scheduler κ :=
  match (s.queues queue).head with
  | none => (none, s)
  | some task =>
    let next := (s.tasks task).waitNext
    let s := s.setQueue queue ⟨next, if next.isNone then none else (s.queues queue).tail⟩
    let s := s.setTask task { s.tasks task with waitNext := none, waitQueue := none }
    match schedulerWakeTask task s with
    | (.ok (), s) => (some task, s)
    | (.error _, s) => (none, s)

/-- The loop of `wait_queue_wake_all`: `fuel` outlasts it. -/
def wakeAllFrom (queue : κ) : Nat → Scheduler κ → Scheduler κ
  | 0, s => s
  | fuel + 1, s =>
    match waitQueueWakeOne queue s with
    | (some _, s) => wakeAllFrom queue fuel s
    | (none, s) => s

def waitQueueWakeAll (queue : κ) (s : Scheduler κ) : Scheduler κ := wakeAllFrom queue (schedulerMaxTasks + 2) s

end Scheduler
end InferenceOS
