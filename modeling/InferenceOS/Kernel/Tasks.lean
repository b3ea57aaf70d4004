import InferenceOS.Kernel.Scheduler
import InferenceOS.Kernel.Virtual

/-! The rest of `scheduler/scheduler.c`: kernel work, preemption and exit, with the fields of a process that they use.
    A function that calls back is two steps, before the callback and after it; `working` lists the kernel work that has
    been called and has not returned. A failed `IOS_ASSERT` halts the machine: the model sets a flag and goes on. -/

namespace InferenceOS
open Program Function

/-- The registers that `struct x86_64_user_context` and `struct x86_64_interrupt_frame` have in common. -/
structure GeneralRegisters where
  r15 : BitVec 64
  r14 : BitVec 64
  r13 : BitVec 64
  r12 : BitVec 64
  r11 : BitVec 64
  r10 : BitVec 64
  r9 : BitVec 64
  r8 : BitVec 64
  rdi : BitVec 64
  rsi : BitVec 64
  rbp : BitVec 64
  rdx : BitVec 64
  rcx : BitVec 64
  rbx : BitVec 64
  rax : BitVec 64
  deriving DecidableEq

structure UserContext extends GeneralRegisters where
  instructionPointer : Nat
  flags : BitVec 64
  stackPointer : Nat
  deriving DecidableEq

/-- `struct x86_64_interrupt_frame` with the two words behind it that an interrupt from user mode pushes. -/
structure InterruptFrame extends GeneralRegisters where
  rip : Nat
  cs : BitVec 64
  rflags : BitVec 64
  userStack : Nat
  userStackSegment : BitVec 64
  deriving DecidableEq

inductive ProcessState where
  | unused | created | runnable | exited
  deriving DecidableEq, Repr

/-- The fields of `struct ios_process` that the scheduler and `process_activate` use. -/
structure ScheduledProcess where
  state : ProcessState
  rootAddress : Nat
  kernelStackAddress : Nat
  kernelStackPages : Nat
  exitStatus : BitVec 64
  userContext : UserContext

/-- The scheduler with its other static variables and the processes. -/
structure TaskSystem (κ : Type) where
  scheduler : Scheduler κ
  exitStatus : TaskRef → BitVec 64
  deferredExitTask : Option TaskRef
  ticks : Nat
  processes : ProcessRef → ScheduledProcess
  working : List TaskRef
  halted : Bool

def userCodeSelector : BitVec 64 := 0x23

def userDataSelector : BitVec 64 := 0x1b

def userFlagsSanitize (flags : BitVec 64) : BitVec 64 :=
  (flags &&& ~~~((3 : BitVec 64) <<< 12 ||| 1 <<< 14 ||| 1 <<< 17)) ||| 0x202

def InterruptFrame.fromUser (frame : InterruptFrame) : Bool := frame.cs &&& 3 = 3

def saveUserInterruptContext (frame : InterruptFrame) : UserContext where
  toGeneralRegisters := frame.toGeneralRegisters
  instructionPointer := frame.rip
  flags := userFlagsSanitize frame.rflags
  stackPointer := frame.userStack

/-- What `load_user_interrupt_context` asserts of a context. -/
def UserContext.isLoadable (context : UserContext) : Bool :=
  virtualUserRangeIsValid context.instructionPointer 1 ∧ virtualUserRangeIsValid context.stackPointer 1

/-- `load_user_interrupt_context`; the frame is written as a whole. -/
def loadUserInterruptContext (context : UserContext) : InterruptFrame where
  toGeneralRegisters := context.toGeneralRegisters
  rip := context.instructionPointer
  cs := userCodeSelector
  rflags := userFlagsSanitize context.flags
  userStack := context.stackPointer
  userStackSegment := userDataSelector

/-- The checks of `process_activate`; the processor's registers that it sets are no part of the model. -/
def ScheduledProcess.isActivatable (process : ScheduledProcess) : Bool :=
  process.state = .runnable ∧ process.rootAddress ≠ 0 ∧ process.kernelStackAddress ≠ 0 ∧ process.kernelStackPages ≠ 0 ∧
    process.kernelStackPages ≤ (2 ^ 64 - 1) / pageSize

namespace Scheduler
variable {κ : Type}

def selectRunnableUser (s : Scheduler κ) : Option (Fin schedulerMaxTasks × Scheduler κ) :=
  ((slotsAfter (s.lastSelected userPriority)).find? fun i =>
    (s.tasks (.slot i)).state = .runnable ∧ (s.tasks (.slot i)).kind = .userProcess).map fun i =>
      (i, { s with lastSelected := update s.lastSelected userPriority i.1 })

/-- `scheduler_add_kernel_work`; `given` tells whether there are a function and a place for the task. -/
def schedulerAddKernelWork (priority : Nat) (given : Bool) : Program IosError (Scheduler κ) TaskRef := do
  let s ← get
  failIf (s.ready = false ∨ given = false ∨ priority < 1 ∨ highestPriority < priority) .invalidArgument
  match s.allocateTask with
  | none => fail .noSpace
  | some (task, allocated) => do
    modify fun _ => allocated.setTask task { allocated.tasks task with kind := .kernelWork, state := .blocked, priority }
    pure task

end Scheduler

namespace TaskSystem
variable {κ : Type}

/-- `scheduler_initialize`; the process table is that of the caller. -/
def schedulerInitialize (processes : ProcessRef → ScheduledProcess) : TaskSystem κ where
  scheduler := Scheduler.schedulerInitialize
  exitStatus _ := 0
  deferredExitTask := none
  ticks := 0
  processes := processes
  working := []
  halted := false

/-- Run a call of the scheduler. -/
def onScheduler {α : Type} (call : Program IosError (Scheduler κ) α) : Program IosError (TaskSystem κ) α :=
  zoom TaskSystem.scheduler (fun s scheduler => { s with scheduler }) call

def assert (c : Prop) [Decidable c] (s : TaskSystem κ) : TaskSystem κ := if c then s else { s with halted := true }

/-- The exit statuses after `memset` of the task that an allocation takes. -/
def clearedExitStatus (s : TaskSystem κ) : TaskRef → BitVec 64 :=
  match s.scheduler.allocateTask with
  | some (task, _) => update s.exitStatus task 0
  | none => s.exitStatus

def schedulerAddProcess (process : ProcessRef) : Program IosError (TaskSystem κ) Unit := do
  let s ← get
  onScheduler (Scheduler.schedulerAddProcess process ((s.processes process).state = .runnable))
  modify fun t => { t with exitStatus := s.clearedExitStatus }

def schedulerAddKernelWork (priority : Nat) (given : Bool) : Program IosError (TaskSystem κ) TaskRef := do
  let s ← get
  let task ← onScheduler (Scheduler.schedulerAddKernelWork priority given)
  modify fun t => { t with exitStatus := s.clearedExitStatus }
  pure task

def schedulerSelectNext (s : TaskSystem κ) : TaskSystem κ :=
  let s := s.assert (s.scheduler.ready = true)
  { s with scheduler := s.scheduler.schedulerSelectNext }

def schedulerOnQuantum (s : TaskSystem κ) : TaskSystem κ :=
  let s := s.assert (s.scheduler.ready = true)
  schedulerSelectNext { s with ticks := s.ticks + 1 }

/-- `scheduler_on_timer_interrupt` up to the call of the tick function; the frame is not null. -/
def timerTick (s : TaskSystem κ) : TaskSystem κ :=
  let s := s.assert (s.scheduler.ready = true)
  { s with ticks := s.ticks + 1 }

/-- The system with other fields of a process. -/
def setProcess (s : TaskSystem κ) (process : ProcessRef) (entry : ScheduledProcess) : TaskSystem κ :=
  { s with processes := update s.processes process entry }

/-- `scheduler_on_timer_interrupt` once a task is selected. -/
def timerResume (frame : InterruptFrame) (i : Fin schedulerMaxTasks) (s : TaskSystem κ) : InterruptFrame × TaskSystem κ :=
  let selected := s.scheduler.tasks (.slot i)
  let s := { s with
    scheduler := { s.scheduler.setTask (.slot i) { selected with state := .running } with currentTask := some (.slot i) } }
  match selected.process with
  | none => (frame, s.assert False)
  | some process =>
    let s := s.assert ((s.processes process).isActivatable = true)
    let context := (s.processes process).userContext
    (loadUserInterruptContext context, s.assert (context.isLoadable = true))

/-- `scheduler_on_timer_interrupt` after the tick function. -/
def timerPreempt (frame : InterruptFrame) (s : TaskSystem κ) : InterruptFrame × TaskSystem κ :=
  match s.scheduler.currentTask with
  | none => (frame, s)
  | some current =>
    match (s.scheduler.tasks current).process with
    | none => (frame, s)
    | some departing =>
      if frame.fromUser = false ∨ (s.scheduler.tasks current).kind ≠ .userProcess ∨ (s.scheduler.tasks current).state ≠ .running then
        (frame, s)
      else
        let s := s.setProcess departing { s.processes departing with userContext := saveUserInterruptContext frame }
        let stopped := s.scheduler.setTask current { s.scheduler.tasks current with state := .runnable }
        match stopped.selectRunnableUser with
        | none => (frame, assert False { s with scheduler := stopped })
        | some (i, scheduler) => timerResume frame i { s with scheduler }

/-- `scheduler_on_timer_interrupt` with a tick function. -/
def schedulerOnTimerInterrupt (tick : TaskSystem κ → TaskSystem κ) (frame : InterruptFrame) (s : TaskSystem κ) :
    InterruptFrame × TaskSystem κ := timerPreempt frame (tick s.timerTick)

/-- `scheduler_run_current` with a current task, up to a callback or to user mode. -/
def runTask (current : TaskRef) (s : TaskSystem κ) : TaskSystem κ :=
  let task := s.scheduler.tasks current
  if current = .idle then s
  else if task.kind = .userProcess then s.assert (∃ process ∈ task.process, (s.processes process).isActivatable = true)
  else if task.kind = .kernelWork then { s with working := current :: s.working }
  else s

/-- `scheduler_run_current` up to a callback or to user mode. -/
def schedulerRunCurrent (s : TaskSystem κ) : TaskSystem κ :=
  let s := s.assert (s.scheduler.ready = true)
  let s := if s.scheduler.currentTask = none then s.schedulerSelectNext else s
  match s.scheduler.currentTask with
  | none => s
  | some current => runTask current s

/-- `scheduler_run_current` after kernel work has returned. -/
def workReturned (s : TaskSystem κ) : TaskSystem κ :=
  match s.working with
  | [] => s
  | work :: working =>
    let task := s.scheduler.tasks work
    let scheduler := if task.state = .running then s.scheduler.setTask work { task with state := .blocked } else s.scheduler
    { s with scheduler := { scheduler with currentTask := none }, working }

variable [DecidableEq κ]

def schedulerExitCurrent (exitStatus : BitVec 64) : Program IosError (TaskSystem κ) Unit := do
  let s ← get
  match s.scheduler.currentTask with
  | none => fail .invalidState
  | some current => do
    failIf (s.scheduler.ready = false ∨ current = .idle ∨ (s.scheduler.tasks current).kind ≠ .userProcess ∨
      s.deferredExitTask.isSome) .invalidState
    modify fun s => match (s.scheduler.tasks current).waitQueue with
      | some queue => { s with scheduler := s.scheduler.waitQueueRemove queue current }
      | none => s
    modify fun s => { s with
      scheduler := s.scheduler.setTask current { s.scheduler.tasks current with state := .exited }
      exitStatus := update s.exitStatus current exitStatus
      deferredExitTask := some current }
    modify fun s => match (s.scheduler.tasks current).process with
      | some process => s.setProcess process { s.processes process with exitStatus }
      | none => s
    modify fun s => { s with scheduler := s.scheduler.switch }

/-- `process_mark_exited`, as far as the scheduler sees it: the handles that it closes may be the last ones of
    endpoints, whose wait queues `woken` are woken. -/
def processMarkExited (process : ProcessRef) (exitStatus : BitVec 64) (woken : List κ) (s : TaskSystem κ) : TaskSystem κ :=
  let s := s.assert ((s.processes process).state ≠ .unused)
  let s := { s with scheduler := woken.foldl (fun scheduler queue => scheduler.waitQueueWakeAll queue) s.scheduler }
  s.setProcess process { s.processes process with
    kernelStackAddress := 0, kernelStackPages := 0, rootAddress := 0, exitStatus, state := .exited }

def schedulerFinishSwitch (woken : List κ) (s : TaskSystem κ) : TaskSystem κ :=
  if s.scheduler.ready = false then s
  else
    match s.deferredExitTask with
    | none => s
    | some task =>
      let s := { s with deferredExitTask := none }
      match (s.scheduler.tasks task).process with
      | some process => processMarkExited process (s.exitStatus task) woken s
      | none => s.assert False

end TaskSystem
end InferenceOS
