import Mathlib.Data.Fintype.Card
import InferenceOS.Theorems.SchedulerSteps

/-! Every run of the scheduler. The functions that other code calls come in any order, also from inside kernel work: a
    work function that has been called returns in a step of its own. -/

namespace InferenceOS
open Program

/-- A call of the scheduler, or a change of the process table by other code. -/
inductive SchedulerCall (κ : Type) where
  | addProcess (process : ProcessRef)
  | addKernelWork (priority : Nat) (given : Bool)
  | selectNext
  | onQuantum
  | timerTick
  | timerPreempt (frame : InterruptFrame)
  | block (queue : κ)
  | wakeTask (task : TaskRef)
  | wakeOne (queue : κ)
  | wakeAll (queue : κ)
  | exit (exitStatus : BitVec 64)
  | finishSwitch (woken : List κ)
  | runCurrent
  | workReturned
  | setProcesses (processes : ProcessRef → ScheduledProcess)

namespace SchedulerCall
variable {κ : Type} [DecidableEq κ]

/-- The state after a call. -/
def run : SchedulerCall κ → TaskSystem κ → TaskSystem κ
  | .addProcess process, s => (TaskSystem.schedulerAddProcess process s).2
  | .addKernelWork priority given, s => (TaskSystem.schedulerAddKernelWork priority given s).2
  | .selectNext, s => s.schedulerSelectNext
  | .onQuantum, s => s.schedulerOnQuantum
  | .timerTick, s => s.timerTick
  | .timerPreempt frame, s => (s.timerPreempt frame).2
  | .block queue, s => (TaskSystem.onScheduler (Scheduler.schedulerBlockCurrent queue) s).2
  | .wakeTask task, s => (TaskSystem.onScheduler (Scheduler.schedulerWakeTask task) s).2
  | .wakeOne queue, s => { s with scheduler := (s.scheduler.waitQueueWakeOne queue).2 }
  | .wakeAll queue, s => { s with scheduler := s.scheduler.waitQueueWakeAll queue }
  | .exit exitStatus, s => (TaskSystem.schedulerExitCurrent exitStatus s).2
  | .finishSwitch woken, s => s.schedulerFinishSwitch woken
  | .runCurrent, s => s.schedulerRunCurrent
  | .workReturned, s => s.workReturned
  | .setProcesses processes, s => { s with processes }

end SchedulerCall

/-- The states that runs of allowed calls reach. -/
inductive SchedulerRun {κ : Type} [DecidableEq κ] (allowed : TaskSystem κ → SchedulerCall κ → Prop) : TaskSystem κ → Prop where
  | initialized {processes : ProcessRef → ScheduledProcess} : SchedulerRun allowed (TaskSystem.schedulerInitialize processes)
  | called {s : TaskSystem κ} {call : SchedulerCall κ} : SchedulerRun allowed s → allowed s call → SchedulerRun allowed (call.run s)

namespace SchedulerCall
open Scheduler
variable {κ : Type} [DecidableEq κ] {s : TaskSystem κ}

def adds : SchedulerCall κ → TaskSystem κ → Nat
  | .addProcess process, s => if (TaskSystem.schedulerAddProcess process s).1.isOk then 1 else 0
  | .addKernelWork priority given, s => if (TaskSystem.schedulerAddKernelWork priority given s).1.isOk then 1 else 0
  | _, _ => 0

def exits : SchedulerCall κ → TaskSystem κ → Nat
  | .exit exitStatus, s => if (TaskSystem.schedulerExitCurrent exitStatus s).1.isOk then 1 else 0
  | _, _ => 0

def ReturnsInPlace (s : TaskSystem κ) : Prop :=
  ∀ work ∈ s.working.head?, s.scheduler.currentTask = none ∨ s.scheduler.currentTask = some work

def Tidy (s : TaskSystem κ) : SchedulerCall κ → Prop
  | .workReturned => ReturnsInPlace s
  | _ => True

omit [DecidableEq κ] in
theorem workReturned_steps (h : Formed s.scheduler) : Stepped s.scheduler 0 0 s.workReturned.scheduler ∧
    (ReturnsInPlace s → RunsCurrent s.scheduler → RunsCurrent s.workReturned.scheduler) := by
  unfold TaskSystem.workReturned
  cases hw : s.working with
  | nil => exact ⟨h.same, fun _ => id⟩
  | cons work working =>
    dsimp only
    split
    · rename_i hrunning
      have hset := @continues_setState κ s.scheduler work .blocked (fun _ _ => Or.inr (Or.inl hrunning)) (Or.inr (Or.inr rfl))
      refine ⟨.continued ⟨⟨hset.ready, hset.task, hset.unused⟩, hset.exited⟩ nofun, fun _ hr t => ?_⟩
      have hn : TaskState.blocked ≠ .running := nofun
      exact ⟨fun hx => absurd hx (hr.stop ((hr work).mp hrunning) hn t), nofun⟩
    · rename_i hrunning
      refine ⟨.continued ⟨⟨rfl, fun _ => ⟨rfl, rfl, rfl⟩, fun _ => Iff.rfl⟩, fun _ => Iff.rfl⟩ nofun, fun hplace hr t => ?_⟩
      refine ⟨fun hx => ?_, nofun⟩
      have hcurrent := (hr t).mp hx
      rcases hplace work (by rw [hw]; rfl) with hnone | hwork
      · exact absurd (hcurrent.symm.trans hnone) nofun
      · exact absurd ((hr work).mpr hwork) hrunning

omit [DecidableEq κ] in
theorem timerPreempt_steps (h : Formed s.scheduler) (frame : InterruptFrame) :
    Stepped s.scheduler 0 0 (s.timerPreempt frame).2.scheduler ∧
      (RunsCurrent s.scheduler → RunsCurrent (s.timerPreempt frame).2.scheduler) := by
  rcases TaskSystem.timerPreempt_scheduler h frame with hx | ⟨current, departing, i, hc, hi, -, hx⟩
  all_goals rw [hx]
  · exact ⟨h.same, id⟩
  · refine ⟨.continued (preempted_continues hi hc.2.2.2.2) fun t ht => ?_, fun hr => hr.preempted hc.1⟩
    obtain rfl := Option.some.inj ht
    rw [preempted_apply, if_pos rfl]

theorem run_steps (h : Formed s.scheduler) : ∀ call : SchedulerCall κ,
    Stepped s.scheduler (call.adds s) (call.exits s) (call.run s).scheduler ∧
      (Tidy s call → RunsCurrent s.scheduler → RunsCurrent (call.run s).scheduler)
  | .addProcess process => by
    dsimp only [run, adds, exits]
    rcases wp_cases (@TaskSystem.addProcess_spec κ s process) with ⟨_, _, hr, i, task, hadded, -⟩ | ⟨_, _, hr, hspec⟩
    all_goals rw [hr]
    · exact ⟨.added hadded, fun _ => hadded.runsCurrent⟩
    · rw [hspec.1]
      exact ⟨h.same, fun _ => id⟩
  | .addKernelWork priority given => by
    dsimp only [run, adds, exits]
    rcases wp_cases (@TaskSystem.addKernelWork_spec κ s priority given) with ⟨_, _, hr, i, task, hadded, -⟩ | ⟨_, _, hr, hspec⟩
    all_goals rw [hr]
    · exact ⟨.added hadded, fun _ => hadded.runsCurrent⟩
    · rw [hspec]
      exact ⟨h.same, fun _ => id⟩
  | .selectNext => by
    dsimp only [run, adds, exits, TaskSystem.schedulerSelectNext]
    rw [TaskSystem.assert_scheduler]
    exact ⟨h.selected, fun _ => RunsCurrent.selectNext⟩
  | .onQuantum => by
    dsimp only [run, adds, exits, TaskSystem.schedulerOnQuantum, TaskSystem.schedulerSelectNext]
    rw [TaskSystem.assert_scheduler, TaskSystem.assert_scheduler]
    exact ⟨h.selected, fun _ => RunsCurrent.selectNext⟩
  | .timerTick => by
    dsimp only [run, adds, exits, TaskSystem.timerTick]
    rw [TaskSystem.assert_scheduler]
    exact ⟨h.same, fun _ => id⟩
  | .timerPreempt frame => by
    obtain ⟨hs, hr⟩ := timerPreempt_steps h frame
    exact ⟨hs, fun _ => hr⟩
  | .block queue => by
    dsimp only [run, adds, exits, TaskSystem.onScheduler, zoom]
    rcases wp_cases (@block_spec κ s.scheduler queue _) with ⟨_, _, hr, current, hc, hu⟩ | ⟨_, _, hr, hspec⟩
    all_goals rw [hr]
    · rw [hu]
      exact ⟨block_steps hc, fun _ hr => hr.block hc⟩
    · rw [hspec.1]
      exact ⟨h.same, fun _ => id⟩
  | .wakeTask task => ⟨h.woken wakes_wakeTask, fun _ hr => hr.wakes wakes_wakeTask⟩
  | .wakeOne queue => ⟨h.woken wakes_wakeOne, fun _ hr => hr.wakes wakes_wakeOne⟩
  | .wakeAll queue => ⟨h.woken wakes_wakeAll, fun _ hr => hr.wakes wakes_wakeAll⟩
  | .exit exitStatus => by
    dsimp only [run, adds, exits]
    rcases wp_cases (@TaskSystem.exit_spec _ _ _ exitStatus h) with ⟨_, _, hr, i, v, hc, hv, hu⟩ | ⟨_, _, hr, hspec⟩
    all_goals rw [hr]
    · have hw : Wakes s.scheduler v := by
        rw [hv]
        split
        · exact wakes_remove
        · exact Wakes.refl
      dsimp only
      rw [hu]
      exact ⟨.exited hc hw, fun _ hr => hr.exit hc hw⟩
    · rw [hspec]
      exact ⟨h.same, fun _ => id⟩
  | .finishSwitch woken => by
    have hw : Wakes s.scheduler (s.schedulerFinishSwitch woken).scheduler := by
      unfold TaskSystem.schedulerFinishSwitch
      split
      · exact Wakes.refl
      · split
        · exact Wakes.refl
        · dsimp only
          split
          · unfold TaskSystem.processMarkExited TaskSystem.setProcess
            dsimp only
            rw [TaskSystem.assert_scheduler]
            exact wakes_foldl
          · rw [TaskSystem.assert_scheduler]
            exact Wakes.refl
    exact ⟨h.woken hw, fun _ hr => hr.wakes hw⟩
  | .runCurrent => by
    dsimp only [run, adds, exits]
    rcases TaskSystem.schedulerRunCurrent_scheduler (s := s) with hx | hx
    all_goals rw [hx]
    · exact ⟨h.same, fun _ => id⟩
    · exact ⟨h.selected, fun _ => RunsCurrent.selectNext⟩
  | .workReturned => workReturned_steps h
  | .setProcesses processes => ⟨h.same, fun _ => id⟩

end SchedulerCall

namespace SchedulerRun
open Scheduler
variable {κ : Type} [DecidableEq κ] {s : TaskSystem κ}

theorem formed {allowed : TaskSystem κ → SchedulerCall κ → Prop} (h : SchedulerRun allowed s) : Formed s.scheduler := by
  induction h with
  | initialized => exact ⟨rfl, rfl, fun i hi => absurd rfl hi, nofun⟩
  | @called s call _ _ ih => exact ih.stepped (SchedulerCall.run_steps ih call).1

/-- In the runs in which kernel work returns in place the current task is the one that runs; any other return of kernel
    work leaves a task behind that runs and is not current. -/
theorem running_iff_current (h : SchedulerRun SchedulerCall.Tidy s) : RunsCurrent s.scheduler ∧
    ∀ call : SchedulerCall κ, RunsCurrent (call.run s).scheduler ↔ SchedulerCall.Tidy s call := by
  have hruns : RunsCurrent s.scheduler := by
    induction h with
    | initialized =>
      intro t
      cases t <;> exact ⟨nofun, nofun⟩
    | @called s call hrun hallowed ih => exact (SchedulerCall.run_steps hrun.formed call).2 hallowed ih
  refine ⟨hruns, fun call => ⟨fun hafter => ?_, fun htidy => (SchedulerCall.run_steps h.formed call).2 htidy hruns⟩⟩
  cases call with
  | workReturned =>
    intro work hwork
    rcases hc : s.scheduler.currentTask with _ | current
    · exact Or.inl rfl
    · refine Or.inr ?_
      by_contra hne
      -- the current task still runs after the return, when there is no current task any more
      have hcurrent : current ≠ work := fun hx => hne (by rw [hx])
      have hstate := hruns.state hc
      have hstill : ((SchedulerCall.workReturned.run s).scheduler.tasks current).state = .running ∧
          (SchedulerCall.workReturned.run s).scheduler.currentTask = none := by
        dsimp only [SchedulerCall.run]
        unfold TaskSystem.workReturned
        cases hw : s.working with
        | nil =>
          rw [hw] at hwork
          cases hwork
        | cons work' working =>
          rw [hw] at hwork
          obtain rfl := Option.some.inj hwork
          refine ⟨?_, rfl⟩
          dsimp only
          split
          · show ((s.scheduler.setTask _ _).tasks current).state = .running
            rw [setTask_tasks, if_neg hcurrent]
            exact hstate
          · exact hstate
      have := (hafter current).mp hstill.1
      rw [hstill.2] at this
      cases this
  | _ => trivial

/-- The fields of a process that was launched. -/
def launched : ScheduledProcess where
  state := .runnable
  rootAddress := 0x100000
  kernelStackAddress := 0x200000
  kernelStackPages := 4
  exitStatus := 0
  userContext := ⟨⟨0, 0, 0, 0, 0, 0, 0, 0, 0, 0, 0, 0, 0, 0, 0⟩, 0x10000400000, 0x202, 0x7fffffff0000⟩

def workBlocks : List (SchedulerCall Unit) :=
  [.addProcess 0, .addKernelWork 1 true, .wakeTask (.slot 1), .runCurrent, .block (), .workReturned]

theorem foldl {allowed : TaskSystem κ → SchedulerCall κ → Prop} : ∀ {calls : List (SchedulerCall κ)} {s : TaskSystem κ},
    SchedulerRun allowed s → (∀ call ∈ calls, ∀ s, allowed s call) →
      SchedulerRun allowed (calls.foldl (fun s call => call.run s) s)
  | [], _, h, _ => h
  | call :: calls, s, h, ha =>
    @foldl allowed calls (call.run s) (h.called (ha call List.mem_cons_self s)) fun c hc => ha c (List.mem_cons_of_mem _ hc)

/-- While the work has blocked and a process runs, the return of the work would lose the process. -/
theorem running_iff_current_blocked : ∃ s : TaskSystem Unit, SchedulerRun SchedulerCall.Tidy s ∧
    s.scheduler.currentTask = some (.slot 0) ∧ s.working = [.slot 1] ∧ RunsCurrent s.scheduler ∧
    ¬RunsCurrent (SchedulerCall.workReturned.run s).scheduler ∧ RunsCurrent (SchedulerCall.selectNext.run s).scheduler := by
  have htidy : ∀ call ∈ workBlocks.dropLast, ∀ s, SchedulerCall.Tidy s call := by
    intro call hcall s
    simp only [workBlocks, List.dropLast, List.mem_cons, List.not_mem_nil, or_false] at hcall
    rcases hcall with rfl | rfl | rfl | rfl | rfl
    all_goals trivial
  have hrun : SchedulerRun SchedulerCall.Tidy (workBlocks.dropLast.foldl (fun s call => call.run s)
    (TaskSystem.schedulerInitialize fun _ => launched)) := foldl .initialized htidy
  generalize hs : workBlocks.dropLast.foldl (fun s call => call.run s) (TaskSystem.schedulerInitialize fun _ => launched) = s at hrun
  have hplace : s.scheduler.currentTask = some (.slot 0) ∧ s.working = [.slot 1] := by
    rw [← hs]
    decide +kernel
  obtain ⟨hruns, hnext⟩ := running_iff_current hrun
  refine ⟨s, hrun, hplace.1, hplace.2, hruns, fun hafter => ?_, (hnext .selectNext).mpr trivial⟩
  have hin := (hnext .workReturned).mp hafter (.slot 1) (by rw [hplace.2]; rfl)
  rw [hplace.1] at hin
  revert hin
  decide

/-- The process that took over from the work runs, is not current and is never picked again. -/
theorem lost_after_work : ∃ s : TaskSystem Unit, SchedulerRun (fun _ _ => True) s ∧ ¬RunsCurrent s.scheduler := by
  refine ⟨workBlocks.foldl (fun s call => call.run s) (TaskSystem.schedulerInitialize fun _ => launched),
    foldl .initialized fun _ _ _ => trivial, fun hx => ?_⟩
  have hlost : ((workBlocks.foldl (fun s call => call.run s) (TaskSystem.schedulerInitialize fun _ => launched)).scheduler.tasks
      (.slot 0)).state = .running ∧
      (workBlocks.foldl (fun s call => call.run s) (TaskSystem.schedulerInitialize fun _ => launched)).scheduler.currentTask =
        none := by decide +kernel
  have := (hx (.slot 0)).mp hlost.1
  rw [hlost.2] at this
  cases this

end SchedulerRun

/-- The states that runs reach, with the numbers of tasks added and exited so far. -/
inductive TaskCounts {κ : Type} [DecidableEq κ] : TaskSystem κ → Nat → Nat → Prop where
  | initialized {processes : ProcessRef → ScheduledProcess} : TaskCounts (TaskSystem.schedulerInitialize processes) 0 0
  | called {s : TaskSystem κ} {added exited : Nat} {call : SchedulerCall κ} : TaskCounts s added exited →
      TaskCounts (call.run s) (added + call.adds s) (exited + call.exits s)

namespace Scheduler
variable {κ : Type} {s u : Scheduler κ}
variable {i : Fin schedulerMaxTasks}

def usedSlots (s : Scheduler κ) : Finset (Fin schedulerMaxTasks) := Finset.univ.filter fun i => (s.tasks (.slot i)).state ≠ .unused

def exitedSlots (s : Scheduler κ) : Finset (Fin schedulerMaxTasks) := Finset.univ.filter fun i => (s.tasks (.slot i)).state = .exited

/-- The slots of tasks that have not exited. -/
def liveSlots (s : Scheduler κ) : Finset (Fin schedulerMaxTasks) := s.usedSlots \ s.exitedSlots

theorem mem_usedSlots : i ∈ s.usedSlots ↔ (s.tasks (.slot i)).state ≠ .unused := by
  simp [usedSlots]

theorem mem_exitedSlots : i ∈ s.exitedSlots ↔ (s.tasks (.slot i)).state = .exited := by
  simp [exitedSlots]

theorem exitedSlots_subset : s.exitedSlots ⊆ s.usedSlots := by
  intro i hi
  rw [mem_usedSlots, mem_exitedSlots.mp hi]
  nofun

theorem card_liveSlots : s.liveSlots.card = s.usedSlots.card - s.exitedSlots.card :=
  Finset.card_sdiff_of_subset exitedSlots_subset

theorem Retains.usedSlots (h : Retains s u) : u.usedSlots = s.usedSlots := by
  ext i
  rw [mem_usedSlots, mem_usedSlots, ne_eq, h.unused]

theorem Continues.exitedSlots (h : Continues s u) : u.exitedSlots = s.exitedSlots := by
  ext i
  rw [mem_exitedSlots, mem_exitedSlots, h.exited]

theorem Added.usedSlots {task : SchedulerTask κ} (h : Added s u i task) :
    u.usedSlots = insert i s.usedSlots ∧ i ∉ s.usedSlots := by
  refine ⟨?_, fun hi => mem_usedSlots.mp hi h.unused⟩
  ext j
  rw [mem_usedSlots, Finset.mem_insert, mem_usedSlots, h.apply]
  split
  · rename_i hj
    refine ⟨fun _ => Or.inl (TaskRef.slot.inj hj), fun _ => ?_⟩
    rcases h.state with hs | hs
    all_goals
      rw [hs]
      nofun
  · rename_i hj
    rw [or_iff_right fun hx => hj (congrArg TaskRef.slot hx)]

theorem Added.exitedSlots {task : SchedulerTask κ} (h : Added s u i task) : u.exitedSlots = s.exitedSlots := by
  ext j
  rw [mem_exitedSlots, mem_exitedSlots, h.apply]
  split
  · rename_i hj
    rw [hj, h.unused]
    rcases h.state with hs | hs
    all_goals
      rw [hs]
      exact ⟨nofun, nofun⟩
  · rfl

theorem Stepped.counts {added exited : Nat} (h : Stepped s added exited u) (hf : Formed s) :
    u.usedSlots.card = s.usedSlots.card + added ∧ u.exitedSlots.card = s.exitedSlots.card + exited := by
  cases h with
  | continued hc =>
    rw [hc.toRetains.usedSlots, hc.exitedSlots]
    exact ⟨rfl, rfl⟩
  | added ha =>
    rw [ha.usedSlots.1, Finset.card_insert_of_notMem ha.usedSlots.2, ha.exitedSlots]
    exact ⟨rfl, rfl⟩
  | @exited v i hc hw =>
    have hv := hf.wakes hw
    have hcurrent := hw.statics.1.trans hc
    have hnot : i ∉ s.exitedSlots := fun hx => by
      have hx := mem_exitedSlots.mp hx
      rw [hf.current _ hc] at hx
      cases hx
    have hexited : (v.setTask (.slot i) { v.tasks (.slot i) with state := .exited }).switch.exitedSlots =
        insert i s.exitedSlots := by
      rw [switch_continues.exitedSlots]
      ext j
      rw [mem_exitedSlots, Finset.mem_insert, setTask_tasks]
      split
      · rename_i hj
        exact ⟨fun _ => Or.inl (TaskRef.slot.inj hj), fun _ => rfl⟩
      · rename_i hj
        rw [or_iff_right fun hx => hj (congrArg TaskRef.slot hx), ← hw.continues.exitedSlots, mem_exitedSlots]
    have hn : TaskState.exited ≠ .unused := nofun
    rw [hexited, Finset.card_insert_of_notMem hnot, (hv.stop hcurrent hn).usedSlots, hw.continues.toRetains.usedSlots]
    exact ⟨rfl, rfl⟩

end Scheduler

namespace TaskCounts
open Scheduler SchedulerRun
variable {κ : Type} [DecidableEq κ] {s : TaskSystem κ} {added exited : Nat}

theorem run (h : TaskCounts s added exited) : SchedulerRun (fun _ _ => True) s := by
  induction h with
  | initialized => exact .initialized
  | called _ ih => exact ih.called trivial

theorem counts (h : TaskCounts s added exited) :
    s.scheduler.usedSlots.card = added ∧ s.scheduler.exitedSlots.card = exited := by
  induction h with
  | initialized => exact ⟨rfl, rfl⟩
  | @called s added exited call hrun ih =>
    have hstep := (SchedulerCall.run_steps hrun.run.formed call).1.counts hrun.run.formed
    rw [ih.1, ih.2] at hstep
    exact hstep

theorem noSpace_iff (h : TaskCounts s added exited) {process : ProcessRef} (hp : (s.processes process).state = .runnable) :
    (TaskSystem.schedulerAddProcess process s).1 = .error .noSpace ↔ added = schedulerMaxTasks := by
  have hspec := @TaskSystem.addProcess_spec κ s process
  have hall : (∀ i, (s.scheduler.tasks (.slot i)).state ≠ .unused) ↔ added = schedulerMaxTasks := by
    rw [← h.counts.1]
    constructor
    · intro hx
      rw [Finset.card_eq_iff_eq_univ _ |>.mpr]
      · rfl
      · exact Finset.eq_univ_of_forall fun i => mem_usedSlots.mpr (hx i)
    · intro hx i
      exact mem_usedSlots.mp ((Finset.card_eq_iff_eq_univ _).mp hx ▸ Finset.mem_univ i)
  rw [← hall]
  unfold wp at hspec
  split at hspec
  all_goals
    rename_i hr
    rw [hr]
  · obtain ⟨i, task, hadded, -⟩ := hspec
    exact ⟨nofun, fun hx => absurd hadded.unused (hx i)⟩
  · obtain ⟨rfl, hfull, hready⟩ := hspec
    refine ⟨fun hx => hfull (Except.error.inj hx), fun _ => ?_⟩
    rw [hready h.run.formed.ready hp]

/-- A process is refused only when all slots hold tasks that have not exited, as long as fewer tasks were added than there
    are slots or no task has exited, and in no other state. -/
theorem refused_only_when_full (h : TaskCounts s added exited) {process : ProcessRef} (hp : (s.processes process).state = .runnable) :
    ((TaskSystem.schedulerAddProcess process s).1 = .error .noSpace → s.scheduler.liveSlots.card = schedulerMaxTasks) ↔
      added < schedulerMaxTasks ∨ exited = 0 := by
  obtain ⟨hused, hexited⟩ := h.counts
  have hle : added ≤ schedulerMaxTasks := by
    rw [← hused]
    exact Finset.card_le_univ _
  have hsub : exited ≤ added := by
    rw [← hused, ← hexited]
    exact Finset.card_le_card exitedSlots_subset
  rw [h.noSpace_iff hp, card_liveSlots, hused, hexited]
  omega

theorem add (h : TaskCounts s added exited) (hlt : added < schedulerMaxTasks) {process : ProcessRef}
    (hp : (s.processes process).state = .runnable) : ∃ u : TaskSystem κ, TaskCounts u (added + 1) exited ∧ u.processes = s.processes := by
  have hrefused := h.noSpace_iff hp
  have hcalled := @TaskCounts.called κ _ s added exited (.addProcess process) h
  have hspec := @TaskSystem.addProcess_spec κ s process
  have hprocesses : (TaskSystem.schedulerAddProcess process s).2.processes = s.processes := by
    refine @of_wp IosError (TaskSystem κ) Unit _ s (fun u => u.processes = s.processes) ?_
    unfold TaskSystem.schedulerAddProcess TaskSystem.onScheduler
    simp only [wp_bind, wp_get, wp_zoom, wp_modify]
    exact wp_mono Scheduler.addProcess_spec (fun _ _ _ => trivial) fun _ _ _ => trivial
  unfold wp at hspec
  split at hspec
  all_goals
    rename_i hr
    rw [hr] at hrefused hprocesses
  · dsimp only [SchedulerCall.run, SchedulerCall.adds, SchedulerCall.exits] at hcalled
    rw [hr] at hcalled
    exact ⟨_, hcalled, hprocesses⟩
  · rw [hspec.2.2 h.run.formed.ready hp] at hrefused
    exact absurd (hrefused.mp rfl) hlt.ne

def programExits : List (SchedulerCall Unit) :=
  [.addProcess 0, .selectNext, .exit 0, .finishSwitch [], .setProcesses fun _ => launched]

theorem foldl : ∀ {calls : List (SchedulerCall κ)} {s : TaskSystem κ} {added exited : Nat}, TaskCounts s added exited →
    ∃ added' exited', TaskCounts (calls.foldl (fun s call => call.run s) s) added' exited'
  | [], _, _, _, h => ⟨_, _, h⟩
  | call :: calls, s, _, _, h => @TaskCounts.foldl calls (call.run s) _ _ h.called

theorem addedAfterExit : ∀ n < schedulerMaxTasks, ∃ s : TaskSystem Unit, TaskCounts s (n + 1) 1 ∧ s.processes = fun _ => launched := by
  have hfirst : TaskCounts (programExits.foldl (fun s call => call.run s) (TaskSystem.schedulerInitialize fun _ => launched)) 1 1 := by
    obtain ⟨added, exited, h⟩ := @TaskCounts.foldl Unit _ programExits _ _ _ (@TaskCounts.initialized Unit _ fun _ => launched)
    obtain ⟨hused, hexited⟩ := h.counts
    have hone : (programExits.foldl (fun s call => call.run s) (TaskSystem.schedulerInitialize fun _ => launched)).scheduler.usedSlots.card
        = 1 ∧ (programExits.foldl (fun s call => call.run s) (TaskSystem.schedulerInitialize fun _ => launched)).scheduler.exitedSlots.card
        = 1 := by decide +kernel
    rw [hone.1] at hused
    rw [hone.2] at hexited
    rwa [← hused, ← hexited] at h
  intro n
  induction n with
  | zero => exact fun _ => ⟨_, hfirst, rfl⟩
  | succ n ih =>
    intro hn
    obtain ⟨s, hs, hp⟩ := ih (Nat.lt_of_succ_lt hn)
    obtain ⟨u, hu, hpu⟩ := @add Unit _ s _ _ hs hn 0 (by rw [hp]; rfl)
    exact ⟨u, hu, hpu.trans hp⟩

theorem refused_only_when_full_exits : ∃ s : TaskSystem Unit, TaskCounts s 3 1 ∧
    (((TaskSystem.schedulerAddProcess 0 s).1 = .error .noSpace → s.scheduler.liveSlots.card = schedulerMaxTasks) ↔ 3 < schedulerMaxTasks) := by
  obtain ⟨s, hs, hp⟩ := addedAfterExit 2 (by decide)
  have hrunnable : (s.processes 0).state = .runnable := by
    rw [hp]
    rfl
  refine ⟨s, hs, (refused_only_when_full hs hrunnable).trans ?_⟩
  rw [or_iff_left Nat.one_ne_zero]

/-- After one program has exited and all other slots were given away, a process is refused. -/
theorem refused_with_an_exited_task : ∃ s : TaskSystem Unit, SchedulerRun (fun _ _ => True) s ∧ (s.processes 0).state = .runnable ∧
    (TaskSystem.schedulerAddProcess 0 s).1 = .error .noSpace ∧ s.scheduler.liveSlots.card = 63 := by
  obtain ⟨s, hs, hp⟩ := addedAfterExit 63 (by decide)
  have hrunnable : (s.processes 0).state = .runnable := by
    rw [hp]
    rfl
  refine ⟨s, hs.run, hrunnable, (hs.noSpace_iff hrunnable).mpr rfl, ?_⟩
  rw [card_liveSlots, hs.counts.1, hs.counts.2]

end TaskCounts
end InferenceOS
