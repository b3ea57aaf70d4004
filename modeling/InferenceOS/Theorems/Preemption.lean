import InferenceOS.Lib.RoundRobin
import InferenceOS.Theorems.SchedulerRuns

/-! Preemption from user mode. The user tasks that can run take turns in the cyclic order of their slots, and each goes on
    with the context that was saved for it. -/

namespace InferenceOS
open Program Function
variable {i : Fin schedulerMaxTasks}

namespace Scheduler
variable {κ : Type} {s u : Scheduler κ} {i j : Fin schedulerMaxTasks}

/-- `select_runnable` finds a runnable task of the highest priority, or the idle task when there is none. -/
def SelectsHighest (s : Scheduler κ) : Prop :=
  (∃ i, s.selectRunnable.1 = .slot i ∧ (s.tasks (.slot i)).state = .runnable ∧
    ∀ j, (s.tasks (.slot j)).state = .runnable → (s.tasks (.slot j)).priority ≤ (s.tasks (.slot i)).priority) ∨
  s.selectRunnable.1 = .idle ∧ ∀ j, (s.tasks (.slot j)).state ≠ .runnable

theorem selectFrom_highest : ∀ {priority : Nat},
    (∀ j, (s.tasks (.slot j)).state = .runnable → (s.tasks (.slot j)).priority ≤ priority) →
    (∃ i, (s.selectFrom priority).1 = .slot i ∧ (s.tasks (.slot i)).state = .runnable ∧
      ∀ j, (s.tasks (.slot j)).state = .runnable → (s.tasks (.slot j)).priority ≤ (s.tasks (.slot i)).priority) ∨
    (s.selectFrom priority).1 = .idle ∧ ∀ j, (s.tasks (.slot j)).state ≠ .runnable
  | priority => by
    intro hle
    unfold selectFrom
    split
    · rename_i i hfound
      have hi := List.find?_some hfound
      rw [decide_eq_true_iff] at hi
      exact Or.inl ⟨i, rfl, hi.1, fun j hj => by rw [hi.2]; exact hle j hj⟩
    · rename_i hnone
      have hne : ∀ j, (s.tasks (.slot j)).state = .runnable → (s.tasks (.slot j)).priority ≠ priority := by
        intro j hj hp
        have hx := List.find?_eq_none.mp hnone j (mem_slotsAfter j)
        rw [decide_eq_true_iff] at hx
        exact hx ⟨hj, hp⟩
      split
      · exact Or.inr ⟨rfl, fun j hj => hne j hj (Nat.le_zero.mp (hle j hj))⟩
      · exact selectFrom_highest fun j hj => Nat.lt_succ_iff.mp (Nat.lt_of_le_of_ne (hle j hj) (hne j hj))

theorem Formed.selectsHighest (h : Formed s) : SelectsHighest s := by
  refine selectFrom_highest fun j hj => ?_
  rcases h.slot j (by rw [hj]; nofun) with ⟨-, hp, -⟩ | ⟨-, -, hp⟩
  · rw [hp]
    exact Nat.zero_le _
  · exact hp

def Live (s : Scheduler κ) (i : Fin schedulerMaxTasks) : Prop :=
  (s.tasks (.slot i)).state ≠ .unused ∧ (s.tasks (.slot i)).state ≠ .exited

instance : Decidable (s.Live i) := inferInstanceAs (Decidable (_ ∧ _))

def OneTaskEach (s : Scheduler κ) : Prop := ∀ i j process, s.Live i → s.Live j → (s.tasks (.slot i)).process = some process →
  (s.tasks (.slot j)).process = some process → i = j

theorem OneTaskEach.retains (h : OneTaskEach s) (hr : Retains s u) (hl : ∀ i, u.Live i → s.Live i) : OneTaskEach u := by
  intro i j process hi hj hpi hpj
  rw [(hr.task (.slot i)).2.2] at hpi
  rw [(hr.task (.slot j)).2.2] at hpj
  exact h i j process (hl i hi) (hl j hj) hpi hpj

theorem Continues.live (h : Continues s u) : u.Live i ↔ s.Live i := by
  unfold Live
  rw [ne_eq, ne_eq, h.unused, h.exited]

theorem Added.oneTaskEach {task : SchedulerTask κ} (ha : Added s u i task) (h : OneTaskEach s)
    (hfree : ∀ process, task.process = some process → ∀ j, s.Live j → (s.tasks (.slot j)).process ≠ some process) :
    OneTaskEach u := by
  have hlive : ∀ j, j ≠ i → u.Live j → s.Live j ∧ u.tasks (.slot j) = s.tasks (.slot j) := by
    intro j hj hl
    have hsame : u.tasks (.slot j) = s.tasks (.slot j) := by
      rw [ha.apply, if_neg fun hx => hj (TaskRef.slot.inj hx)]
    unfold Live at hl ⊢
    rw [hsame] at hl
    exact ⟨hl, hsame⟩
  have hnew : u.tasks (.slot i) = task := by rw [ha.apply, if_pos rfl]
  intro j k process hj hk hpj hpk
  by_cases hji : j = i
  · by_cases hki : k = i
    · rw [hji, hki]
    · obtain ⟨hl, hsame⟩ := hlive k hki hk
      rw [hji, hnew] at hpj
      rw [hsame] at hpk
      exact absurd hpk (hfree process hpj k hl)
  · obtain ⟨hlj, hsamej⟩ := hlive j hji hj
    rw [hsamej] at hpj
    by_cases hki : k = i
    · rw [hki, hnew] at hpk
      exact absurd hpj (hfree process hpk j hlj)
    · obtain ⟨hl, hsame⟩ := hlive k hki hk
      rw [hsame] at hpk
      exact h j k process hlj hl hpj hpk

end Scheduler

namespace SchedulerCall
open Scheduler
variable {κ : Type} [DecidableEq κ] {s : TaskSystem κ}

/-- A process is added to the scheduler once. -/
def Launches (s : TaskSystem κ) : SchedulerCall κ → Prop
  | .addProcess process => ∀ i, s.scheduler.Live i → (s.scheduler.tasks (.slot i)).process ≠ some process
  | _ => True

omit [DecidableEq κ] in
theorem oneTaskEach_stepped (hf : Formed s.scheduler) {u : Scheduler κ} {exited : Nat} (h : OneTaskEach s.scheduler)
    (hs : Stepped s.scheduler 0 exited u) : OneTaskEach u := by
  cases hs with
  | continued hc => exact h.retains hc.toRetains fun i => hc.live.mp
  | @exited v j hc hw =>
    have hv := hf.wakes hw
    have hcurrent := hw.statics.1.trans hc
    have hn : TaskState.exited ≠ .unused := nofun
    refine h.retains (hw.continues.toRetains.trans (hv.stop hcurrent hn)) fun i hi => ?_
    rw [switch_continues.live] at hi
    refine hw.continues.live.mp ⟨fun hx => ?_, fun hx => ?_⟩
    all_goals
      unfold Live at hi
      rw [setTask_tasks] at hi
      split at hi
      · exact hi.2 rfl
      · rename_i hne
        first | exact hi.1 hx | exact hi.2 hx

theorem oneTaskEach_run (hf : Formed s.scheduler) (h : OneTaskEach s.scheduler) : ∀ call : SchedulerCall κ, Launches s call →
    OneTaskEach (call.run s).scheduler
  | .addProcess process, hlaunch => by
    dsimp only [run]
    rcases wp_cases (@TaskSystem.addProcess_spec κ s process) with ⟨_, _, hr, i, task, hadded, hp⟩ | ⟨_, _, hr, hspec⟩
    all_goals rw [hr]
    · refine hadded.oneTaskEach h fun process' hp' => ?_
      obtain rfl := Option.some.inj (hp.symm.trans hp')
      exact hlaunch
    · rw [hspec.1]
      exact h
  | .addKernelWork priority given, _ => by
    dsimp only [run]
    rcases wp_cases (@TaskSystem.addKernelWork_spec κ s priority given) with ⟨_, _, hr, i, task, hadded, hp⟩ | ⟨_, _, hr, hspec⟩
    all_goals rw [hr]
    · exact hadded.oneTaskEach h fun process' hp' => nomatch hp.symm.trans hp'
    · rw [hspec]
      exact h
  | .selectNext, _ => oneTaskEach_stepped hf h (run_steps hf .selectNext).1
  | .onQuantum, _ => oneTaskEach_stepped hf h (run_steps hf .onQuantum).1
  | .timerTick, _ => oneTaskEach_stepped hf h (run_steps hf .timerTick).1
  | .timerPreempt frame, _ => oneTaskEach_stepped hf h (run_steps hf (.timerPreempt frame)).1
  | .block queue, _ => oneTaskEach_stepped hf h (run_steps hf (.block queue)).1
  | .wakeTask task, _ => oneTaskEach_stepped hf h (run_steps hf (.wakeTask task)).1
  | .wakeOne queue, _ => oneTaskEach_stepped hf h (run_steps hf (.wakeOne queue)).1
  | .wakeAll queue, _ => oneTaskEach_stepped hf h (run_steps hf (.wakeAll queue)).1
  | .exit exitStatus, _ => oneTaskEach_stepped hf h (run_steps hf (.exit exitStatus)).1
  | .finishSwitch woken, _ => oneTaskEach_stepped hf h (run_steps hf (.finishSwitch woken)).1
  | .runCurrent, _ => oneTaskEach_stepped hf h (run_steps hf .runCurrent).1
  | .workReturned, _ => oneTaskEach_stepped hf h (run_steps hf .workReturned).1
  | .setProcesses processes, _ => h

end SchedulerCall

theorem SchedulerRun.oneTaskEach {κ : Type} [DecidableEq κ] {s : TaskSystem κ} (h : SchedulerRun SchedulerCall.Launches s) :
    Scheduler.OneTaskEach s.scheduler := by
  induction h with
  | initialized => exact fun i j process hi => absurd rfl hi.1
  | @called s call hrun hallowed ih => exact SchedulerCall.oneTaskEach_run hrun.formed ih call hallowed

namespace TaskSystem
open Scheduler
variable {κ : Type} {s u : TaskSystem κ} {tick : TaskSystem κ → TaskSystem κ} {frames : Nat → InterruptFrame}
  {current : Fin schedulerMaxTasks}

/-- A tick function that leaves the tasks and the processes alone. -/
structure Quiet (tick : TaskSystem κ → TaskSystem κ) : Prop where
  scheduler : ∀ s, (tick s).scheduler = s.scheduler
  processes : ∀ s, (tick s).processes = s.processes
  halted : ∀ s, (tick s).halted = s.halted

def preemptions (tick : TaskSystem κ → TaskSystem κ) (frames : Nat → InterruptFrame) (s : TaskSystem κ) : Nat → TaskSystem κ
  | 0 => s
  | m + 1 => (schedulerOnTimerInterrupt tick (frames m) (preemptions tick frames s m)).2

theorem preemptions_succ {m : Nat} : preemptions tick frames s (m + 1) =
    (schedulerOnTimerInterrupt tick (frames m) (preemptions tick frames s m)).2 := rfl

def resumed (tick : TaskSystem κ → TaskSystem κ) (frames : Nat → InterruptFrame) (s : TaskSystem κ) (m : Nat) : InterruptFrame :=
  (schedulerOnTimerInterrupt tick (frames m) (preemptions tick frames s m)).1

def processAt (s : TaskSystem κ) (i : Fin schedulerMaxTasks) : ProcessRef := (s.scheduler.tasks (.slot i)).process.getD 0

def lastContext (s : TaskSystem κ) (current : Fin schedulerMaxTasks) (frame : InterruptFrame) (i : Fin schedulerMaxTasks) : UserContext :=
  if i = current then saveUserInterruptContext frame else (s.processes (s.processAt i)).userContext

def turnList (s : TaskSystem κ) (current : Fin schedulerMaxTasks) : List (Fin schedulerMaxTasks) :=
  (slotsAfter (s.scheduler.lastSelected userPriority)).filter fun i => s.scheduler.Candidate (.slot current) i

theorem mem_turnList : i ∈ s.turnList current ↔ s.scheduler.Candidate (.slot current) i := by
  unfold turnList
  rw [List.mem_filter, decide_eq_true_iff, and_iff_right (mem_slotsAfter i)]

theorem nodup_turnList : (s.turnList current).Nodup := List.Nodup.filter _ RoundRobin.nodup_after

theorem length_turnList : (s.turnList current).length = (Finset.univ.filter fun i => s.scheduler.Candidate (.slot current) i).card := by
  rw [← List.toFinset_card_of_nodup nodup_turnList]
  congr 1
  ext i
  rw [List.mem_toFinset, mem_turnList, Finset.mem_filter, and_iff_right (Finset.mem_univ i)]

structure Turn (s : TaskSystem κ) (current : Fin schedulerMaxTasks) (frames : Nat → InterruptFrame) (m : Nat) (u : TaskSystem κ) : Prop where
  formed : Formed u.scheduler
  continues : Continues s.scheduler u.scheduler
  candidate : ∃ c, u.scheduler.currentTask = some (.slot c) ∧ s.scheduler.Candidate (.slot current) c ∧
    (∀ i, u.scheduler.Candidate (.slot c) i ↔ s.scheduler.Candidate (.slot current) i) ∧
    ∀ i ∈ (s.turnList current).drop m,
      (u.saved (s.processAt c) (frames m) (s.processAt i)).userContext = s.lastContext current (frames 0) i
  turns : (slotsAfter (u.scheduler.lastSelected userPriority)).filter (fun i => s.scheduler.Candidate (.slot current) i) =
    (s.turnList current).drop m ++ (s.turnList current).take m
  activatable : ∀ p, (u.processes p).isActivatable = (s.processes p).isActivatable
  halted : u.halted = false ↔ ∀ i ∈ (s.turnList current).take m, (s.lastContext current (frames 0) i).isLoadable = true

theorem saved_isActivatable {departing p : ProcessRef} {frame : InterruptFrame} :
    (s.saved departing frame p).isActivatable = (s.processes p).isActivatable := by
  unfold saved
  rw [update_apply]
  split
  · rename_i hp
    rw [hp]
    rfl
  · rfl

theorem candidate_live (hf : Formed s.scheduler) (hc : s.scheduler.currentTask = some (.slot current))
    (hi : s.scheduler.Candidate (.slot current) i) :
    s.scheduler.Live i ∧ (s.scheduler.tasks (.slot i)).process = some (s.processAt i) := by
  have hl : s.scheduler.Live i := by
    unfold Live
    rcases hi.2 with hx | hx
    · rw [TaskRef.slot.inj hx] at hc
      rw [hf.current _ hc]
      exact ⟨nofun, nofun⟩
    · rw [hx]
      exact ⟨nofun, nofun⟩
  obtain ⟨process, hp⟩ := hf.process hl.1 hi.1
  refine ⟨hl, ?_⟩
  unfold processAt
  rw [hp]
  rfl

theorem processAt_ne (h : OneTaskEach s.scheduler) (hf : Formed s.scheduler) (hc : s.scheduler.currentTask = some (.slot current))
    {j : Fin schedulerMaxTasks} (hi : s.scheduler.Candidate (.slot current) i) (hj : s.scheduler.Candidate (.slot current) j)
    (hne : i ≠ j) : s.processAt i ≠ s.processAt j := by
  intro hx
  obtain ⟨hli, hpi⟩ := candidate_live hf hc hi
  obtain ⟨hlj, hpj⟩ := candidate_live hf hc hj
  rw [← hx] at hpj
  exact hne (h i j _ hli hlj hpi hpj)

end TaskSystem

theorem Scheduler.preempted_candidate {κ : Type} {s : Scheduler κ} {c : TaskRef} {j : Fin schedulerMaxTasks} (hi : s.Candidate c i) :
    (s.preempted c i).Candidate (.slot i) j ↔ s.Candidate c j := by
  unfold Scheduler.Candidate
  rw [Scheduler.preempted_apply]
  split
  · rename_i hj
    obtain rfl := TaskRef.slot.inj hj
    exact ⟨fun _ => hi, fun hx => ⟨hx.1, Or.inl rfl⟩⟩
  · rename_i hj
    rw [or_iff_right (Ne.symm hj)]
    split
    · rename_i hx
      rw [← hx]
      exact ⟨fun hy => ⟨hy.1, Or.inl rfl⟩, fun hy => ⟨hy.1, rfl⟩⟩
    · rename_i hx
      rw [or_iff_right (Ne.symm hx)]

namespace TaskSystem
open Scheduler
variable {κ : Type} {s u : TaskSystem κ} {tick : TaskSystem κ → TaskSystem κ} {frames : Nat → InterruptFrame}
  {current : Fin schedulerMaxTasks} {m : Nat}

theorem turn_zero (h : OneTaskEach s.scheduler) (hf : Formed s.scheduler) (hc : s.scheduler.currentTask = some (.slot current))
    (hk : (s.scheduler.tasks (.slot current)).kind = .userProcess) (hh : s.halted = false) : Turn s current frames 0 s where
  formed := hf
  continues := Continues.refl
  candidate := by
    have hcurrent : s.scheduler.Candidate (.slot current) current := ⟨hk, Or.inl rfl⟩
    refine ⟨current, hc, hcurrent, fun _ => Iff.rfl, fun i hi => ?_⟩
    rw [List.drop_zero, mem_turnList] at hi
    unfold saved lastContext
    split
    · rename_i hx
      rw [hx, update_self]
    · rename_i hx
      rw [update_of_ne (processAt_ne h hf hc hi hcurrent hx)]
  turns := by
    rw [List.drop_zero, List.take_zero, List.append_nil]
    rfl
  activatable _ := rfl
  halted := by
    rw [List.take_zero]
    exact ⟨fun _ _ hx => (nomatch hx), fun _ => hh⟩

theorem Turn.next (hu : Turn s current frames m u) (h : OneTaskEach s.scheduler) (hf : Formed s.scheduler)
    (hc : s.scheduler.currentTask = some (.slot current)) (htick : Quiet tick) (hframe : (frames m).fromUser = true)
    (hact : ∀ i, s.scheduler.Candidate (.slot current) i → (s.processes (s.processAt i)).isActivatable = true)
    (hm : m < (s.turnList current).length) :
    ∃ v c, u.scheduler.currentTask = some (.slot c) ∧ s.scheduler.Candidate (.slot current) c ∧
      schedulerOnTimerInterrupt tick (frames m) u =
        (loadUserInterruptContext (s.lastContext current (frames 0) (s.turnList current)[m]), v) ∧
      v.processes = u.saved (s.processAt c) (frames m) ∧
      (v.processes (s.processAt (s.turnList current)[m])).userContext = s.lastContext current (frames 0) (s.turnList current)[m] ∧
      v.scheduler.currentTask = some (.slot (s.turnList current)[m]) ∧
      Turn s current frames (m + 1) v := by
  obtain ⟨c, hcurrent, hcc, hsame, hcontexts⟩ := hu.candidate
  generalize hi : (s.turnList current)[m] = i
  have hdrop : (s.turnList current).drop m = i :: (s.turnList current).drop (m + 1) := by
    rw [← hi]
    exact List.drop_eq_getElem_cons hm
  have hcandidate : s.scheduler.Candidate (.slot current) i := by
    rw [← mem_turnList, ← hi]
    exact List.getElem_mem hm
  -- what the tick leaves
  have hscheduler : (tick u.timerTick).scheduler = u.scheduler := by
    rw [htick.scheduler]
    exact assert_scheduler
  have hprocesses : (tick u.timerTick).processes = u.processes := by
    rw [htick.processes]
    exact assert_processes
  have hhalted : (tick u.timerTick).halted = u.halted := by
    rw [htick.halted]
    unfold timerTick TaskSystem.assert
    rw [if_pos hu.formed.ready]
  have hprocess : ∀ {j}, s.scheduler.Candidate (.slot current) j →
      ((tick u.timerTick).scheduler.tasks (.slot j)).process = some (s.processAt j) := by
    intro j hj
    rw [hscheduler, (hu.continues.task (.slot j)).2.2]
    exact (candidate_live hf hc hj).2
  have hpreempt : (tick u.timerTick).CanPreempt (frames m) (.slot c) (s.processAt c) := by
    refine ⟨?_, hprocess hcc, hframe, ?_, ?_⟩
    all_goals rw [hscheduler]
    · exact hcurrent
    · rw [(hu.continues.task (.slot c)).1]
      exact hcc.1
    · exact hu.formed.current _ hcurrent
  have hfind : ((slotsAfter (((tick u.timerTick).scheduler).lastSelected userPriority)).find? fun i =>
      (tick u.timerTick).scheduler.Candidate (.slot c) i) = some i := by
    rw [hscheduler]
    have hp : (fun i => decide (u.scheduler.Candidate (.slot c) i)) = fun i => decide (s.scheduler.Candidate (.slot current) i) := by
      funext j
      exact decide_eq_decide.mpr (hsame j)
    rw [hp, ← List.head?_filter, hu.turns, hdrop]
    rfl
  have hsaved : (tick u.timerTick).saved (s.processAt c) (frames m) = u.saved (s.processAt c) (frames m) := by
    unfold saved
    rw [hprocesses]
  have heq := timerPreempt_eq hpreempt hfind (hprocess hcandidate)
  have hcontext := hcontexts i (by rw [hdrop]; exact List.mem_cons_self)
  rw [hsaved, hcontext] at heq
  have hcandidate' := (hsame i).mpr hcandidate
  have hstep := preempted_continues hcandidate' (hu.formed.current _ hcurrent)
  have hnodup := (hdrop ▸ nodup_turnList.sublist (List.drop_sublist m (s.turnList current)) :
    (i :: (s.turnList current).drop (m + 1)).Nodup)
  have htake : (s.turnList current).take (m + 1) = (s.turnList current).take m ++ [i] := by
    rw [← hi]
    exact (List.take_append_getElem hm).symm
  refine ⟨_, c, hcurrent, hcc, heq, rfl, hcontext, rfl, ⟨?_, ?_, ⟨i, rfl, hcandidate, fun j => ?_, fun j hj => ?_⟩, ?_, fun p => ?_, ?_⟩⟩
  · rw [hscheduler]
    refine hu.formed.retains hstep.toRetains fun t ht => ?_
    obtain rfl := Option.some.inj ht
    rw [preempted_apply, if_pos rfl]
  · rw [hscheduler]
    exact hu.continues.trans hstep
  · rw [hscheduler, preempted_candidate hcandidate', hsame]
  · -- only the context of the task that had this turn changes, and it does not come round again
    have hne : j ≠ i := by
      rintro rfl
      exact (List.nodup_cons.mp hnodup).1 hj
    have hj' : j ∈ (s.turnList current).drop m := by
      rw [hdrop]
      exact List.mem_cons_of_mem i hj
    have hcj := mem_turnList.mp (List.mem_of_mem_drop hj')
    show (update (u.saved (s.processAt c) (frames m)) (s.processAt i) _ (s.processAt j)).userContext = _
    rw [update_of_ne (processAt_ne h hf hc hcj hcandidate hne)]
    exact hcontexts j hj'
  · have hturns := hu.turns
    rw [hdrop] at hturns
    show (slotsAfter (update (tick u.timerTick).scheduler.lastSelected userPriority i.1 userPriority)).filter _ = _
    rw [update_self, htake]
    exact (RoundRobin.filter_after hturns).trans (List.append_assoc _ _ _)
  · rw [← hu.activatable]
    exact saved_isActivatable
  · show ((tick u.timerTick).halted || _) = false ↔ _
    rw [hhalted, saved_isActivatable, hu.activatable, hact i hcandidate, htake, Bool.or_eq_false_iff, hu.halted, Bool.true_and,
      Bool.not_eq_false']
    constructor
    · rintro ⟨hbefore, hload⟩ j hj
      rcases List.mem_append.mp hj with hj | hj
      · exact hbefore j hj
      · rw [List.mem_singleton.mp hj]
        exact hload
    · intro hall
      exact ⟨fun j hj => hall j (List.mem_append_left _ hj), hall i (List.mem_append_right _ (List.mem_singleton_self i))⟩

/-- In `k` preemptions each of the tasks that can run has one turn and goes on as it was preempted last, and the machine
    does not halt. -/
structure FairTurns (s : TaskSystem κ) (tick : TaskSystem κ → TaskSystem κ) (frames : Nat → InterruptFrame)
    (current : Fin schedulerMaxTasks) (k : Nat) : Prop where
  running : ∀ m ≤ k, (preemptions tick frames s m).halted = false
  selected : ∀ m < k, ∃ i, s.scheduler.Candidate (.slot current) i ∧
    (preemptions tick frames s (m + 1)).scheduler.currentTask = some (.slot i) ∧
    resumed tick frames s m =
      loadUserInterruptContext ((preemptions tick frames s (m + 1)).processes (s.processAt i)).userContext ∧
    resumed tick frames s m = loadUserInterruptContext (s.lastContext current (frames 0) i)
  once : ∀ i, s.scheduler.Candidate (.slot current) i →
    ∃! m, m < k ∧ (preemptions tick frames s (m + 1)).scheduler.currentTask = some (.slot i)
  saved : ∀ m < k, ∃ c, (preemptions tick frames s m).scheduler.currentTask = some (.slot c) ∧
    ((preemptions tick frames s (m + 1)).processes (s.processAt c)).userContext = saveUserInterruptContext (frames m)

section Rounds
variable (h : OneTaskEach s.scheduler) (hf : Formed s.scheduler) (hc : s.scheduler.currentTask = some (.slot current))
  (htick : Quiet tick) (hframes : ∀ m, (frames m).fromUser = true)
  (hact : ∀ i, s.scheduler.Candidate (.slot current) i → (s.processes (s.processAt i)).isActivatable = true)
  (hk : (s.scheduler.tasks (.slot current)).kind = .userProcess) (hh : s.halted = false)
include h hf hc htick hframes hact hk hh

theorem turn_preemptions : ∀ {m : Nat}, m ≤ (s.turnList current).length →
    Turn s current frames m (preemptions tick frames s m)
  | 0, _ => turn_zero h hf hc hk hh
  | m + 1, hm => by
    obtain ⟨v, c, -, -, heq, -, -, -, hturn⟩ :=
      (turn_preemptions (Nat.le_of_succ_le hm)).next h hf hc htick (hframes m) hact hm
    unfold preemptions
    rw [heq]
    exact hturn

theorem preemptions_selected (hm : m < (s.turnList current).length) :
    (preemptions tick frames s (m + 1)).scheduler.currentTask = some (.slot (s.turnList current)[m]) ∧
    resumed tick frames s m = loadUserInterruptContext (s.lastContext current (frames 0) (s.turnList current)[m]) ∧
    ((preemptions tick frames s (m + 1)).processes (s.processAt (s.turnList current)[m])).userContext =
      s.lastContext current (frames 0) (s.turnList current)[m] ∧
    ∃ c, (preemptions tick frames s m).scheduler.currentTask = some (.slot c) ∧
      (preemptions tick frames s (m + 1)).processes = (preemptions tick frames s m).saved (s.processAt c) (frames m) := by
  obtain ⟨v, c, hcurrent, hcc, heq, hprocesses, hcontext, hselected, -⟩ :=
    (turn_preemptions h hf hc htick hframes hact hk hh hm.le).next h hf hc htick (hframes m) hact hm
  rw [resumed, preemptions_succ, heq]
  exact ⟨hselected, rfl, hcontext, c, hcurrent, hprocesses⟩

theorem fairTurns_iff : FairTurns s tick frames current (s.turnList current).length ↔
    ∀ i, s.scheduler.Candidate (.slot current) i → (s.lastContext current (frames 0) i).isLoadable = true := by
  have hselected := fun {m} (hm : m < (s.turnList current).length) =>
    preemptions_selected h hf hc htick hframes hact hk hh hm
  have hturn := fun {m} (hm : m ≤ (s.turnList current).length) => turn_preemptions h hf hc htick hframes hact hk hh hm
  constructor
  · intro hfair i hi
    refine (hturn (Nat.le_refl _)).halted.mp (hfair.running _ (Nat.le_refl _)) i ?_
    rw [List.take_length]
    exact mem_turnList.mpr hi
  · intro hload
    refine ⟨fun m hm => ?_, fun m hm => ?_, fun i hi => ?_, fun m hm => ?_⟩
    · exact (hturn hm).halted.mpr fun i hi => hload i (mem_turnList.mp (List.mem_of_mem_take hi))
    · obtain ⟨hcurrent, hresumed, hcontext, -⟩ := hselected hm
      refine ⟨_, mem_turnList.mp (List.getElem_mem hm), hcurrent, ?_, hresumed⟩
      rw [hcontext, hresumed]
    · obtain ⟨m, hm, rfl⟩ := List.getElem_of_mem (mem_turnList.mpr hi)
      refine ⟨m, ⟨hm, (hselected hm).1⟩, fun m' ⟨hm', hcurrent⟩ => ?_⟩
      have heq := Option.some.inj ((hselected hm').1.symm.trans hcurrent)
      exact (List.Nodup.getElem_inj_iff nodup_turnList).mp (TaskRef.slot.inj heq)
    · obtain ⟨-, -, -, c, hcurrent, hprocesses⟩ := hselected hm
      refine ⟨c, hcurrent, ?_⟩
      rw [hprocesses]
      unfold TaskSystem.saved
      rw [update_self]

end Rounds
end TaskSystem

namespace SchedulerRun
open Scheduler TaskSystem
variable {κ : Type} [DecidableEq κ] {s : TaskSystem κ} {tick : TaskSystem κ → TaskSystem κ} {frames : Nat → InterruptFrame}
  {current : Fin schedulerMaxTasks}

/-- Preemption is fair, and selection takes the highest priority, exactly when the contexts that the round loads lie in the
    user range: the frame of the first preemption and the saved contexts of the other tasks. -/
theorem round_robin (h : SchedulerRun SchedulerCall.Launches s) (hc : s.scheduler.currentTask = some (.slot current))
    (hk : (s.scheduler.tasks (.slot current)).kind = .userProcess) (htick : Quiet tick) (hframes : ∀ m, (frames m).fromUser = true)
    (hact : ∀ i, s.scheduler.Candidate (.slot current) i → (s.processes (s.processAt i)).isActivatable = true)
    (hh : s.halted = false) :
    FairTurns s tick frames current (Finset.univ.filter fun i => s.scheduler.Candidate (.slot current) i).card ∧
      SelectsHighest s.scheduler ↔
    ∀ i, s.scheduler.Candidate (.slot current) i → (s.lastContext current (frames 0) i).isLoadable = true := by
  rw [and_iff_left h.formed.selectsHighest, ← length_turnList]
  exact fairTurns_iff h.oneTaskEach h.formed hc htick hframes hact hk hh

def twoProcesses : TaskSystem Unit :=
  [SchedulerCall.addProcess 0, .addProcess 1, .selectNext].foldl (fun s call => call.run s)
    (TaskSystem.schedulerInitialize fun _ => launched)

def interruptAt (stack : Nat) : InterruptFrame where
  toGeneralRegisters := ⟨0, 0, 0, 0, 0, 0, 0, 0, 0, 0, 0, 0, 0, 0, 0⟩
  rip := 0x10000400000
  cs := userCodeSelector
  rflags := 0x202
  userStack := stack
  userStackSegment := userDataSelector

theorem twoProcesses_run : SchedulerRun SchedulerCall.Launches twoProcesses := by
  have hfirst : SchedulerRun SchedulerCall.Launches
      ((SchedulerCall.addProcess 0 : SchedulerCall Unit).run (TaskSystem.schedulerInitialize fun _ => launched)) :=
    SchedulerRun.initialized.called fun i hi => absurd rfl hi.1
  have hsecond := @SchedulerRun.called _ _ _ _ (.addProcess 1) hfirst (by
    show ∀ i, Live _ i → _
    decide +kernel)
  exact @SchedulerRun.called _ _ _ _ .selectNext hsecond trivial

theorem quiet_id : Quiet (id : TaskSystem Unit → TaskSystem Unit) := ⟨fun _ => rfl, fun _ => rfl, fun _ => rfl⟩

theorem round_robin_two : FairTurns twoProcesses id (fun _ => interruptAt 0x7ffffffe0000) 1
      (Finset.univ.filter fun i => twoProcesses.scheduler.Candidate (.slot 1) i).card ∧ SelectsHighest twoProcesses.scheduler ↔
    ∀ i, twoProcesses.scheduler.Candidate (.slot 1) i →
      (twoProcesses.lastContext 1 (interruptAt 0x7ffffffe0000) i).isLoadable = true :=
  round_robin twoProcesses_run (by decide +kernel) (by decide +kernel) quiet_id (fun _ => by decide +kernel)
    (by decide +kernel) (by decide +kernel)

/-- A program that moved its stack pointer out of the user range when it is preempted halts the machine. -/
theorem halted_by_stack_pointer : SchedulerRun SchedulerCall.Launches twoProcesses ∧
    twoProcesses.scheduler.currentTask = some (.slot 1) ∧ (twoProcesses.scheduler.tasks (.slot 1)).kind = .userProcess ∧
    (interruptAt 0).fromUser = true ∧
    (∀ i, twoProcesses.scheduler.Candidate (.slot 1) i → (twoProcesses.processes (twoProcesses.processAt i)).isActivatable = true) ∧
    twoProcesses.halted = false ∧
    ¬(FairTurns twoProcesses id (fun _ => interruptAt 0) 1
      (Finset.univ.filter fun i => twoProcesses.scheduler.Candidate (.slot 1) i).card ∧ SelectsHighest twoProcesses.scheduler) := by
  refine ⟨twoProcesses_run, by decide +kernel, by decide +kernel, by decide +kernel, by decide +kernel, by decide +kernel, ?_⟩
  rintro ⟨hfair, -⟩
  have hk : (Finset.univ.filter fun i => twoProcesses.scheduler.Candidate (.slot 1) i).card = 2 := by decide +kernel
  have hhalted : (preemptions id (fun _ => interruptAt 0) twoProcesses 2).halted = true := by decide +kernel
  have hrunning := hfair.running 2 (Nat.le_of_eq hk.symm)
  rw [hhalted] at hrunning
  cases hrunning

end SchedulerRun
end InferenceOS
