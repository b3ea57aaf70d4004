import InferenceOS.Theorems.SchedulerRuns

/-! The wait queues over every run of the scheduler. Beside the state stands the list of the tasks of each queue, in the
    order in which they came; what a call does to the lists is all that it does to the queues. -/

namespace InferenceOS
open Program Function

namespace SchedulerCall
variable {κ : Type} [DecidableEq κ]

/-- The tasks that wait in each queue after a call, those that have waited longest first. -/
def waiting (s : TaskSystem κ) (members : κ → List TaskRef) : SchedulerCall κ → κ → List TaskRef
  | .block queue =>
    match (Scheduler.schedulerBlockCurrent queue s.scheduler).1, s.scheduler.currentTask with
    | .ok (), some current => update members queue (members queue ++ [current])
    | _, _ => members
  | .wakeTask task =>
    match (Scheduler.schedulerWakeTask task s.scheduler).1 with
    | .ok () => fun queue => (members queue).erase task
    | .error _ => members
  | .wakeOne queue => update members queue (members queue).tail
  | .wakeAll queue => update members queue []
  | .exit exitStatus =>
    match (TaskSystem.schedulerExitCurrent exitStatus s).1, s.scheduler.currentTask with
    | .ok (), some current => fun queue => (members queue).erase current
    | _, _ => members
  | .finishSwitch woken =>
    match s.deferredExitTask.bind fun task => (s.scheduler.tasks task).process with
    | some _ => woken.foldl (fun members queue => update members queue []) members
    | none => members
  | _ => members

end SchedulerCall

/-- The states that runs reach, with the tasks that wait in each queue. -/
inductive QueueRun {κ : Type} [DecidableEq κ] : TaskSystem κ → (κ → List TaskRef) → Prop where
  | initialized {processes : ProcessRef → ScheduledProcess} : QueueRun (TaskSystem.schedulerInitialize processes) fun _ => []
  | called {s : TaskSystem κ} {members : κ → List TaskRef} {call : SchedulerCall κ} : QueueRun s members →
      QueueRun (call.run s) (call.waiting s members)

namespace Scheduler
variable {κ : Type} {s : Scheduler κ} {members : κ → List TaskRef} {current : TaskRef} {i : Fin schedulerMaxTasks}

theorem sameQueues_setState {t : TaskRef} (hw : (s.tasks t).waitQueue = none) {state : TaskState} :
    SameQueues s (s.setTask t { s.tasks t with state }) := sameQueues_setTask hw hw

theorem Queued.preempted (h : Queued s members) (hc : (s.tasks current).state = .running) (hi : s.Candidate current i) :
    Queued (s.preempted current i) members := by
  have hrunning := h.not_waiting (show (s.tasks current).state ≠ .blocked by rw [hc]; nofun)
  have hstop := @sameQueues_setState κ s current hrunning .runnable
  have hrunnable := (h.same hstop).not_waiting (t := .slot i) (by rw [(stop_candidate.mpr hi).1]; nofun)
  have hboth := hstop.trans (@sameQueues_setState κ _ (.slot i) hrunnable .running)
  exact h.same ⟨hboth.queues, hboth.waitQueue, hboth.waiting⟩

variable [DecidableEq κ]

theorem Queued.foldl_wakeAll : ∀ {woken : List κ} {s : Scheduler κ} {members : κ → List TaskRef}, Queued s members → s.ready = true →
    Queued (woken.foldl (fun s queue => s.waitQueueWakeAll queue) s)
      (woken.foldl (fun members queue => update members queue []) members)
  | [], _, _, h, _ => h
  | queue :: woken, s, members, h, hready => by
    obtain ⟨hqueued, hready'⟩ := @Queued.wakeAll κ s members queue _ h hready
    exact @Queued.foldl_wakeAll woken _ _ hqueued hready'

end Scheduler

namespace SchedulerCall
open Scheduler
variable {κ : Type} [DecidableEq κ] {s : TaskSystem κ} {members : κ → List TaskRef}

theorem queued_run (hf : Formed s.scheduler) (h : Queued s.scheduler members) : ∀ call : SchedulerCall κ,
    Queued (call.run s).scheduler (call.waiting s members)
  | .addProcess process => by
    dsimp only [run, waiting]
    rcases wp_cases (@TaskSystem.addProcess_spec κ s process) with ⟨_, _, hr, i, task, hadded, -⟩ | ⟨_, _, hr, hspec⟩
    all_goals rw [hr]
    · exact h.same (hadded.same (h.not_waiting (by rw [hadded.unused]; nofun)))
    · rw [hspec.1]
      exact h
  | .addKernelWork priority given => by
    dsimp only [run, waiting]
    rcases wp_cases (@TaskSystem.addKernelWork_spec κ s priority given) with ⟨_, _, hr, i, task, hadded, -⟩ | ⟨_, _, hr, hspec⟩
    all_goals rw [hr]
    · exact h.same (hadded.same (h.not_waiting (by rw [hadded.unused]; nofun)))
    · rw [hspec]
      exact h
  | .selectNext => by
    dsimp only [run, waiting, TaskSystem.schedulerSelectNext]
    rw [TaskSystem.assert_scheduler]
    exact h.selectNext
  | .onQuantum => by
    dsimp only [run, waiting, TaskSystem.schedulerOnQuantum, TaskSystem.schedulerSelectNext]
    rw [TaskSystem.assert_scheduler, TaskSystem.assert_scheduler]
    exact h.selectNext
  | .timerTick => by
    dsimp only [run, waiting, TaskSystem.timerTick]
    rw [TaskSystem.assert_scheduler]
    exact h
  | .timerPreempt frame => by
    rcases TaskSystem.timerPreempt_scheduler hf frame with hx | ⟨current, departing, i, hc, hi, -, hx⟩
    all_goals
      dsimp only [run, waiting]
      rw [hx]
    · exact h
    · exact h.preempted hc.2.2.2.2 hi
  | .block queue => by
    dsimp only [run, waiting, TaskSystem.onScheduler, zoom]
    rcases wp_cases (@block_spec κ s.scheduler queue _) with ⟨_, _, hr, current, hc, hu⟩ | ⟨_, _, hr, hspec⟩
    all_goals rw [hr]
    · rw [hc.1, hu]
      exact (h.block hc).1
    · rw [hspec.1]
      exact h
  | .wakeTask task => by
    dsimp only [run, waiting, TaskSystem.onScheduler, zoom]
    rcases wp_cases (h.wakeTask (t := task)) with ⟨_, _, hr, ⟨members', hqueued, heq⟩, -⟩ | ⟨_, _, hr, hspec⟩
    all_goals rw [hr]
    · rwa [funext heq] at hqueued
    · rw [hspec]
      exact h
  | .wakeOne queue => (h.wakeOne hf.ready).2.1
  | .wakeAll queue => (h.wakeAll hf.ready).1
  | .exit exitStatus => by
    dsimp only [run, waiting]
    rcases wp_cases (@TaskSystem.exit_spec _ _ _ exitStatus hf) with ⟨_, _, hr, i, v, hc, hv, hu⟩ | ⟨_, _, hr, hspec⟩
    all_goals rw [hr]
    · -- the current task runs and so waits in no queue
      have hw := h.not_waiting (show (s.scheduler.tasks (.slot i)).state ≠ .blocked by rw [hf.current _ hc]; nofun)
      rw [hw] at hv
      have hmembers : (fun queue => (members queue).erase (.slot i)) = members := by
        funext queue
        refine List.erase_of_not_mem fun hx => ?_
        have := (h.mem queue _).mp hx
        rw [hw] at this
        cases this
      rw [hc, hu, hv]
      dsimp only
      rw [hmembers]
      exact (h.same (sameQueues_setState hw)).switch
    · rw [hspec]
      exact h
  | .finishSwitch woken => by
    dsimp only [run, waiting]
    unfold TaskSystem.schedulerFinishSwitch
    rw [if_neg (by rw [hf.ready]; nofun)]
    cases s.deferredExitTask with
    | none => exact h
    | some task =>
      dsimp only [Option.bind_some]
      cases (s.scheduler.tasks task).process with
      | none =>
        dsimp only
        rw [TaskSystem.assert_scheduler]
        exact h
      | some process =>
        unfold TaskSystem.processMarkExited TaskSystem.setProcess
        dsimp only
        rw [TaskSystem.assert_scheduler]
        exact h.foldl_wakeAll hf.ready
  | .runCurrent => by
    dsimp only [run, waiting]
    rcases TaskSystem.schedulerRunCurrent_scheduler (s := s) with hx | hx
    all_goals rw [hx]
    · exact h
    · exact h.selectNext
  | .workReturned => by
    dsimp only [run, waiting]
    unfold TaskSystem.workReturned
    cases s.working with
    | nil => exact h
    | cons work working =>
      dsimp only
      split
      · rename_i hrunning
        have hset := @sameQueues_setState κ s.scheduler work (h.not_waiting (by rw [hrunning]; nofun)) .blocked
        exact h.same ⟨hset.queues, hset.waitQueue, hset.waiting⟩
      · exact h.same ⟨rfl, fun _ => rfl, fun _ _ => rfl⟩
  | .setProcesses processes => h

end SchedulerCall

namespace QueueRun
open Scheduler
variable {κ : Type} [DecidableEq κ] {s : TaskSystem κ} {members : κ → List TaskRef}

theorem run (h : QueueRun s members) : SchedulerRun (fun _ _ => True) s := by
  induction h with
  | initialized => exact .initialized
  | called _ ih => exact ih.called trivial

theorem queued (h : QueueRun s members) : Queued s.scheduler members := by
  induction h with
  | initialized => exact ⟨fun _ => rfl, fun _ => rfl, fun _ => List.nodup_nil, fun q t => by cases t <;> exact ⟨nofun, nofun⟩,
      fun t => by cases t <;> nofun, rfl⟩
  | called hrun ih => exact SchedulerCall.queued_run hrun.run.formed ih _

theorem wakeOne_state (h : QueueRun s members) (q : κ) (t : TaskRef) : ((s.scheduler.waitQueueWakeOne q).2.tasks t).state =
    if (members q).head? = some t then .runnable else (s.scheduler.tasks t).state := by
  have hhead := (h.queued.linked q).head_eq
  cases hm : members q with
  | nil =>
    rw [hm] at hhead
    rw [wakeOne_nil hhead, List.head?_nil, if_neg nofun]
  | cons first rest =>
    rw [hm] at hhead
    have hblocked := h.queued.blocked first (h.queued.waits (q := q) (by rw [hm]; exact List.mem_cons_self))
    rw [wakeOne_cons hhead h.run.formed.ready hblocked, setTask_tasks, setQueue_tasks, List.head?_cons]
    split
    · rename_i ht
      rw [if_pos (by rw [ht])]
    · rename_i ht
      rw [if_neg fun hx => ht (Option.some.inj hx).symm]

/-- The queues of every reachable state: acyclic lists of the tasks that are blocked there, which are woken in the order
    in which they came, also after a task left from the middle. -/
theorem wait_queues (h : QueueRun s members) :
    (∀ q, Linked s.scheduler.next (s.scheduler.queues q).head (members q) ∧
      (s.scheduler.queues q).tail = (members q).getLast? ∧ (members q).Nodup) ∧
    (∀ q t, t ∈ members q ↔ (s.scheduler.tasks t).state = .blocked ∧ (s.scheduler.tasks t).waitQueue = some q) ∧
    (∀ q q' t, t ∈ members q → t ∈ members q' → q = q') ∧
    (∀ q, (s.scheduler.waitQueueWakeOne q).1 = (members q).head? ∧ ∀ t, ((s.scheduler.waitQueueWakeOne q).2.tasks t).state =
      if (members q).head? = some t then .runnable else (s.scheduler.tasks t).state) ∧
    ∀ t u, schedulerWakeTask t s.scheduler = (.ok (), u) → ∀ q, Linked u.next (u.queues q).head ((members q).erase t) ∧
      (u.queues q).tail = ((members q).erase t).getLast? := by
  have hqueued := h.queued
  refine ⟨fun q => ⟨hqueued.linked q, hqueued.tail q, hqueued.nodup q⟩, fun q t => ⟨fun ht => ?_, fun ht => ?_⟩,
    fun q q' t => hqueued.unique, fun q => ⟨(hqueued.wakeOne h.run.formed.ready).1, h.wakeOne_state q⟩, fun t u hu q => ?_⟩
  · exact ⟨hqueued.blocked t (hqueued.waits ht), (hqueued.mem q t).mp ht⟩
  · exact (hqueued.mem q t).mpr ht.2
  · obtain ⟨⟨members', hqueued', heq⟩, -⟩ := wp_ok (hqueued.wakeTask (t := t)) hu
    rw [← heq q]
    exact ⟨hqueued'.linked q, hqueued'.tail q⟩

def runCalls (calls : List (SchedulerCall κ)) (r : TaskSystem κ × (κ → List TaskRef)) : TaskSystem κ × (κ → List TaskRef) :=
  calls.foldl (fun r call => (call.run r.1, call.waiting r.1 r.2)) r

theorem runCalls_run : ∀ {calls : List (SchedulerCall κ)} {r : TaskSystem κ × (κ → List TaskRef)}, QueueRun r.1 r.2 →
    QueueRun (runCalls calls r).1 (runCalls calls r).2
  | [], _, h => h
  | call :: calls, r, h => @runCalls_run calls (call.run r.1, call.waiting r.1 r.2) h.called

def twoWaiting : TaskSystem Unit × (Unit → List TaskRef) :=
  runCalls [.addProcess 0, .addProcess 1, .selectNext, .block (), .block ()]
    (TaskSystem.schedulerInitialize fun _ => SchedulerRun.launched, fun _ => [])

theorem wait_queues_two : twoWaiting.2 () = [.slot 1, .slot 0] ∧
    (twoWaiting.1.scheduler.waitQueueWakeOne ()).1 = (twoWaiting.2 ()).head? :=
  ⟨by decide +kernel, ((wait_queues (s := twoWaiting.1) (runCalls_run .initialized)).2.2.2.1 ()).1⟩

end QueueRun
end InferenceOS
