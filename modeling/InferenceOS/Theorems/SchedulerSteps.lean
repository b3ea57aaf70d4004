import InferenceOS.Kernel.Tasks
import InferenceOS.Theorems.WaitQueues

/-! What each call of the scheduler leaves alone and what it changes. Apart from the calls that add a task, and from
    the exit of one, a call moves tasks between states of tasks that take part. -/

namespace InferenceOS
open Program Function

namespace Scheduler
variable {κ : Type} {s u v : Scheduler κ} {t current : TaskRef} {q : κ}

structure Wakes (s u : Scheduler κ) : Prop where
  statics : u.currentTask = s.currentTask ∧ u.lastSelected = s.lastSelected ∧ u.nextTaskId = s.nextTaskId ∧ u.ready = s.ready
  task : ∀ t, (u.tasks t).kind = (s.tasks t).kind ∧ (u.tasks t).priority = (s.tasks t).priority ∧
    (u.tasks t).process = (s.tasks t).process
  state : ∀ t, (u.tasks t).state = (s.tasks t).state ∨ (s.tasks t).state = .blocked ∧ (u.tasks t).state = .runnable

theorem Wakes.refl : Wakes s s := ⟨⟨rfl, rfl, rfl, rfl⟩, fun _ => ⟨rfl, rfl, rfl⟩, fun _ => Or.inl rfl⟩

theorem Wakes.trans (h : Wakes s u) (h' : Wakes u v) : Wakes s v where
  statics := by
    obtain ⟨h₁, h₂, h₃, h₄⟩ := h.statics
    obtain ⟨h₁', h₂', h₃', h₄'⟩ := h'.statics
    exact ⟨h₁'.trans h₁, h₂'.trans h₂, h₃'.trans h₃, h₄'.trans h₄⟩
  task t := by
    obtain ⟨h₁, h₂, h₃⟩ := h.task t
    obtain ⟨h₁', h₂', h₃'⟩ := h'.task t
    exact ⟨h₁'.trans h₁, h₂'.trans h₂, h₃'.trans h₃⟩
  state t := by
    rcases h.state t with hx | ⟨hx, hy⟩ <;> rcases h'.state t with hx' | ⟨hx', hy'⟩
    · exact Or.inl (hx'.trans hx)
    · exact Or.inr ⟨hx ▸ hx', hy'⟩
    · exact Or.inr ⟨hx, hx'.trans hy⟩
    · exact Or.inr ⟨hx, hy'⟩

theorem wakes_setTask {task : SchedulerTask κ} (hk : task.kind = (s.tasks t).kind) (hp : task.priority = (s.tasks t).priority)
    (hx : task.process = (s.tasks t).process)
    (hs : task.state = (s.tasks t).state ∨ (s.tasks t).state = .blocked ∧ task.state = .runnable) : Wakes s (s.setTask t task) where
  statics := ⟨rfl, rfl, rfl, rfl⟩
  task t' := by
    rw [setTask_tasks]
    split
    · rename_i ht
      rw [ht]
      exact ⟨hk, hp, hx⟩
    · exact ⟨rfl, rfl, rfl⟩
  state t' := by
    rw [setTask_tasks]
    split
    · rename_i ht
      rw [ht]
      exact hs
    · exact Or.inl rfl

theorem wakes_relink {waitQueue : Option κ} {waitNext : Option TaskRef} :
    Wakes s (s.setTask t { s.tasks t with waitQueue, waitNext }) := wakes_setTask rfl rfl rfl (Or.inl rfl)

variable [DecidableEq κ]

theorem wakes_setQueue {ends : WaitQueue} : Wakes s (s.setQueue q ends) :=
  ⟨⟨rfl, rfl, rfl, rfl⟩, fun _ => ⟨rfl, rfl, rfl⟩, fun _ => Or.inl rfl⟩

theorem wakes_removeAt {previous : Option TaskRef} : Wakes s (s.removeAt q previous t) := by
  unfold removeAt
  cases previous with
  | none =>
    dsimp only
    split
    · exact (wakes_setQueue.trans wakes_setQueue).trans wakes_relink
    · exact wakes_setQueue.trans wakes_relink
  | some previous =>
    dsimp only
    split
    · exact (wakes_relink.trans wakes_setQueue).trans wakes_relink
    · exact wakes_relink.trans wakes_relink

theorem wakes_removeFrom : ∀ {fuel : Nat} {previous current : Option TaskRef} {s : Scheduler κ},
    Wakes s (waitQueueRemoveFrom q t fuel previous current s)
  | 0, _, _, _ => by
    unfold waitQueueRemoveFrom
    exact Wakes.refl
  | _ + 1, _, none, _ => by
    unfold waitQueueRemoveFrom
    exact Wakes.refl
  | fuel + 1, previous, some current, s => by
    unfold waitQueueRemoveFrom
    split
    · exact wakes_removeAt
    · exact wakes_removeFrom

theorem wakes_remove : Wakes s (s.waitQueueRemove q t) := wakes_removeFrom

theorem wakes_left : Wakes s (match (s.tasks t).waitQueue with
    | some queue => s.waitQueueRemove queue t
    | none => s) := by
  split
  · exact wakes_remove
  · exact Wakes.refl

theorem wakes_wakeTask : Wakes s (schedulerWakeTask t s).2 := by
  refine of_wp (P := fun u => Wakes s u) ?_
  unfold schedulerWakeTask
  simp only [wp_bind, wp_get, wp_failIf, wp_modify]
  refine ⟨fun _ => Wakes.refl, fun hargs => ?_⟩
  rw [not_or, not_not] at hargs
  have hmid := @wakes_left κ s t _
  refine hmid.trans (wakes_setTask rfl rfl rfl ?_)
  rcases hmid.state t with hx | ⟨-, hx⟩
  · exact Or.inr ⟨hx.trans hargs.2, rfl⟩
  · exact Or.inl hx.symm

theorem wakes_wakeOne : Wakes s (s.waitQueueWakeOne q).2 := by
  unfold waitQueueWakeOne
  split
  · exact Wakes.refl
  · rename_i task _
    dsimp only
    generalize hx : (s.setQueue q _).setTask task _ = x
    have hmid : Wakes s x := by
      rw [← hx]
      exact wakes_setQueue.trans wakes_relink
    have hwoken := @wakes_wakeTask κ x task _
    split
    all_goals
      rename_i hr
      rw [hr] at hwoken
      exact hmid.trans hwoken

theorem wakes_wakeAllFrom : ∀ {fuel : Nat} {s : Scheduler κ}, Wakes s (wakeAllFrom q fuel s)
  | 0, _ => Wakes.refl
  | fuel + 1, s => by
    unfold wakeAllFrom
    have hfirst := @wakes_wakeOne κ s q _
    split
    all_goals
      rename_i hr
      rw [hr] at hfirst
    · exact hfirst.trans wakes_wakeAllFrom
    · exact hfirst

theorem wakes_wakeAll : Wakes s (s.waitQueueWakeAll q) := wakes_wakeAllFrom

theorem wakes_foldl : ∀ {woken : List κ} {s : Scheduler κ}, Wakes s (woken.foldl (fun s queue => s.waitQueueWakeAll queue) s)
  | [], _ => Wakes.refl
  | _ :: _, _ => wakes_wakeAll.trans wakes_foldl

theorem wakes_enqueue : Wakes s (s.enqueue q t) := by
  unfold enqueue
  split
  · exact wakes_setQueue
  · exact wakes_relink.trans wakes_setQueue

omit [DecidableEq κ]

/-- From `s` to `u` no task was added: the slots in use are the same. -/
structure Retains (s u : Scheduler κ) : Prop where
  ready : u.ready = s.ready
  task : ∀ t, (u.tasks t).kind = (s.tasks t).kind ∧ (u.tasks t).priority = (s.tasks t).priority ∧
    (u.tasks t).process = (s.tasks t).process
  unused : ∀ i, (u.tasks (.slot i)).state = .unused ↔ (s.tasks (.slot i)).state = .unused

/-- From `s` to `u` no task was added and none exited. -/
structure Continues (s u : Scheduler κ) : Prop extends Retains s u where
  exited : ∀ i, (u.tasks (.slot i)).state = .exited ↔ (s.tasks (.slot i)).state = .exited

theorem Retains.trans (h : Retains s u) (h' : Retains u v) : Retains s v where
  ready := h'.ready.trans h.ready
  task t := by
    obtain ⟨h₁, h₂, h₃⟩ := h.task t
    obtain ⟨h₁', h₂', h₃'⟩ := h'.task t
    exact ⟨h₁'.trans h₁, h₂'.trans h₂, h₃'.trans h₃⟩
  unused i := (h'.unused i).trans (h.unused i)

theorem Continues.refl : Continues s s := ⟨⟨rfl, fun _ => ⟨rfl, rfl, rfl⟩, fun _ => Iff.rfl⟩, fun _ => Iff.rfl⟩

theorem Continues.trans (h : Continues s u) (h' : Continues u v) : Continues s v :=
  ⟨h.toRetains.trans h'.toRetains, fun i => (h'.exited i).trans (h.exited i)⟩

theorem Wakes.continues (h : Wakes s u) : Continues s u where
  ready := h.statics.2.2.2
  task := h.task
  unused i := by
    rcases h.state (.slot i) with hx | ⟨hx, hy⟩
    · rw [hx]
    · rw [hx, hy]
      exact ⟨nofun, nofun⟩
  exited i := by
    rcases h.state (.slot i) with hx | ⟨hx, hy⟩
    · rw [hx]
    · rw [hx, hy]
      exact ⟨nofun, nofun⟩

theorem retains_setState {state : TaskState} (hs : ∀ i, t = .slot i → (s.tasks t).state ≠ .unused) (hn : state ≠ .unused) :
    Retains s (s.setTask t { s.tasks t with state }) where
  ready := rfl
  task t' := by
    rw [setTask_tasks]
    split
    · rename_i ht
      rw [ht]
      exact ⟨rfl, rfl, rfl⟩
    · exact ⟨rfl, rfl, rfl⟩
  unused i := by
    rw [setTask_tasks]
    split
    · rename_i ht
      rw [← ht] at hs
      rw [ht]
      exact ⟨fun hx => absurd hx hn, fun hx => absurd (ht ▸ hx) (hs i rfl)⟩
    · rfl

def Active (state : TaskState) : Prop := state = .runnable ∨ state = .running ∨ state = .blocked

theorem Active.ne {state : TaskState} (h : Active state) : state ≠ .unused ∧ state ≠ .exited := by
  rcases h with rfl | rfl | rfl
  all_goals exact ⟨nofun, nofun⟩

theorem continues_setState {state : TaskState} (hs : ∀ i, t = .slot i → Active (s.tasks t).state) (hn : Active state) :
    Continues s (s.setTask t { s.tasks t with state }) where
  toRetains := retains_setState (fun i hi => (hs i hi).ne.1) hn.ne.1
  exited i := by
    rw [setTask_tasks]
    split
    · rename_i ht
      rw [ht]
      exact ⟨fun hx => absurd hx hn.ne.2, fun hx => absurd (ht ▸ hx) (hs i ht.symm).ne.2⟩
    · rfl

theorem selectFrom_statics : ∀ {priority : Nat}, ∃ l, (s.selectFrom priority).2 = { s with lastSelected := l }
  | priority => by
    unfold selectFrom
    split
    · exact ⟨_, rfl⟩
    · split
      · exact ⟨s.lastSelected, rfl⟩
      · exact selectFrom_statics

theorem switch_eq : ∃ selected l, s.switch =
      { s.setTask selected { s.tasks selected with state := .running } with currentTask := some selected, lastSelected := l } ∧
    (selected = .idle ∨ ∃ i, selected = .slot i ∧ (s.tasks (.slot i)).state = .runnable) := by
  obtain ⟨⟨i, hselected⟩, -⟩ := @selectFrom_eq κ s highestPriority
  obtain ⟨l, hl⟩ := @selectFrom_statics κ s highestPriority
  refine ⟨s.selectRunnable.1, l, ?_, ?_⟩
  · unfold switch selectRunnable
    generalize s.selectFrom highestPriority = r at hl ⊢
    obtain ⟨selected, rest⟩ := r
    dsimp only at hl
    rw [hl]
    rfl
  · unfold selectRunnable
    rcases hselected with ⟨hi, hs⟩ | hi
    · exact Or.inr ⟨i, hi, hs⟩
    · exact Or.inl hi

theorem switch_continues : Continues s s.switch := by
  obtain ⟨selected, l, heq, hselected⟩ := @switch_eq κ s
  have hset := @continues_setState κ s selected .running (fun i hi => by
    rcases hselected with rfl | ⟨j, rfl, hj⟩
    · cases hi
    · exact Or.inl hj) (Or.inr (Or.inl rfl))
  rw [heq]
  exact ⟨⟨hset.ready, hset.task, hset.unused⟩, hset.exited⟩

/-- Exactly the current task runs. -/
def RunsCurrent (s : Scheduler κ) : Prop := ∀ t, (s.tasks t).state = .running ↔ s.currentTask = some t

theorem RunsCurrent.state (h : RunsCurrent s) (hc : s.currentTask = some current) : (s.tasks current).state = .running :=
  (h current).mpr hc

theorem runsCurrent_switch (h : ∀ t, (s.tasks t).state ≠ .running) : RunsCurrent s.switch := by
  obtain ⟨selected, l, heq, -⟩ := @switch_eq κ s
  intro t
  rw [heq]
  show ((s.setTask selected _).tasks t).state = .running ↔ some selected = some t
  rw [setTask_tasks, Option.some.injEq]
  split
  · rename_i ht
    exact ⟨fun _ => ht.symm, fun _ => rfl⟩
  · rename_i ht
    exact ⟨fun hx => absurd hx (h t), fun hx => absurd hx.symm ht⟩

theorem RunsCurrent.stop (h : RunsCurrent s) (hc : s.currentTask = some current) {task : SchedulerTask κ}
    (hn : task.state ≠ .running) (t : TaskRef) : ((s.setTask current task).tasks t).state ≠ .running := by
  rw [setTask_tasks]
  split
  · exact hn
  · rename_i ht
    intro hx
    exact ht (Option.some.inj (hc.symm.trans ((h t).mp hx))).symm

theorem RunsCurrent.wakes (h : RunsCurrent s) (hw : Wakes s u) : RunsCurrent u := by
  intro t
  rw [hw.statics.1, ← h t]
  rcases hw.state t with hx | ⟨hx, hy⟩
  · rw [hx]
  · rw [hx, hy]
    exact ⟨nofun, nofun⟩

theorem RunsCurrent.selectNext (h : RunsCurrent s) : RunsCurrent s.schedulerSelectNext := by
  unfold schedulerSelectNext
  refine runsCurrent_switch fun t => ?_
  cases hc : s.currentTask with
  | none =>
    intro hx
    have := (h t).mp hx
    rw [hc] at this
    cases this
  | some current =>
    dsimp only
    rw [if_pos (h.state hc)]
    have hn : TaskState.runnable ≠ .running := nofun
    exact h.stop hc hn t

theorem selectNext_continues : Continues s s.schedulerSelectNext := by
  unfold schedulerSelectNext
  cases s.currentTask with
  | none => exact switch_continues
  | some current =>
    dsimp only
    split
    · rename_i hrunning
      have hset := @continues_setState κ s current .runnable (fun _ _ => Or.inr (Or.inl hrunning)) (Or.inl rfl)
      exact hset.trans switch_continues
    · exact switch_continues

theorem mem_slotsAfter {start : Nat} (i : Fin schedulerMaxTasks) : i ∈ slotsAfter start := by
  unfold slotsAfter
  rw [List.mem_map]
  refine ⟨(i.1 + schedulerMaxTasks - (start + 1) % schedulerMaxTasks) % schedulerMaxTasks, ?_, ?_⟩
  · exact List.mem_range.mpr (Nat.mod_lt _ (by decide))
  · have := i.2
    refine Fin.ext ?_
    show (start + ((i.1 + schedulerMaxTasks - (start + 1) % schedulerMaxTasks) % schedulerMaxTasks + 1)) % schedulerMaxTasks = i.1
    unfold schedulerMaxTasks at *
    omega

def FormedTask (task : SchedulerTask κ) : Prop :=
  task.kind = .userProcess ∧ task.priority = userPriority ∧ task.process.isSome ∨
    task.kind = .kernelWork ∧ 1 ≤ task.priority ∧ task.priority ≤ highestPriority

structure Formed (s : Scheduler κ) : Prop where
  ready : s.ready = true
  idle : (s.tasks .idle).kind = .idle
  slot : ∀ i, (s.tasks (.slot i)).state ≠ .unused → FormedTask (s.tasks (.slot i))
  current : ∀ t, s.currentTask = some t → (s.tasks t).state = .running

theorem FormedTask.congr {task task' : SchedulerTask κ} (h : FormedTask task) (hk : task'.kind = task.kind)
    (hp : task'.priority = task.priority) (hx : task'.process = task.process) : FormedTask task' := by
  unfold FormedTask at *
  rw [hk, hp, hx]
  exact h

theorem Formed.retains (h : Formed s) (hc : Retains s u) (hcurrent : ∀ t, u.currentTask = some t → (u.tasks t).state = .running) :
    Formed u where
  ready := hc.ready.trans h.ready
  idle := (hc.task .idle).1.trans h.idle
  slot i hu := by
    obtain ⟨hk, hp, hx⟩ := hc.task (.slot i)
    exact (h.slot i fun hs => hu ((hc.unused i).mpr hs)).congr hk hp hx
  current := hcurrent

theorem Formed.wakes (h : Formed s) (hw : Wakes s u) : Formed u := by
  refine h.retains hw.continues.toRetains fun t ht => ?_
  rw [hw.statics.1] at ht
  rcases hw.state t with hx | ⟨hx, -⟩
  · rw [hx, h.current t ht]
  · rw [h.current t ht] at hx
    cases hx

theorem switch_current (t : TaskRef) (ht : s.switch.currentTask = some t) : (s.switch.tasks t).state = .running := by
  obtain ⟨selected, l, heq, -⟩ := @switch_eq κ s
  rw [heq] at ht ⊢
  obtain rfl := Option.some.inj ht
  show ((s.setTask selected _).tasks selected).state = .running
  rw [setTask_tasks, if_pos rfl]

theorem Formed.stop (h : Formed s) (hc : s.currentTask = some current) {state : TaskState} (hn : state ≠ .unused) :
    Retains s (s.setTask current { s.tasks current with state }).switch := by
  have hset := @retains_setState κ s current state (fun _ _ => by rw [h.current current hc]; nofun) hn
  exact hset.trans switch_continues.toRetains

structure Added (s u : Scheduler κ) (i : Fin schedulerMaxTasks) (task : SchedulerTask κ) : Prop where
  unused : (s.tasks (.slot i)).state = .unused
  tasks : u.tasks = update s.tasks (.slot i) task
  rest : u.currentTask = s.currentTask ∧ u.queues = s.queues ∧ u.ready = s.ready ∧ u.lastSelected = s.lastSelected
  formed : FormedTask task
  state : task.state = .runnable ∨ task.state = .blocked
  waitQueue : task.waitQueue = none

theorem allocateTask_none (h : s.allocateTask = none) (i : Fin schedulerMaxTasks) : (s.tasks (.slot i)).state ≠ .unused := by
  unfold allocateTask firstSlot at h
  have hx := List.find?_eq_none.mp (Option.map_eq_none_iff.mp h) i (List.mem_finRange i)
  rwa [decide_eq_true_iff] at hx

theorem allocateTask_added {allocated : Scheduler κ} (h : s.allocateTask = some (t, allocated)) {kind : TaskKind} {state : TaskState}
    {priority : Nat} {p : Option ProcessRef} (hs : state = .runnable ∨ state = .blocked)
    (hf : kind = .userProcess ∧ priority = userPriority ∧ p.isSome ∨
      kind = .kernelWork ∧ 1 ≤ priority ∧ priority ≤ highestPriority) :
    ∃ i task, t = .slot i ∧ Added s (allocated.setTask t { allocated.tasks t with kind, state, priority, process := p }) i task ∧
      task.process = p := by
  unfold allocateTask at h
  obtain ⟨i, hi, heq⟩ := Option.map_eq_some_iff.mp h
  cases heq
  have hunused := List.find?_some hi
  rw [decide_eq_true_iff] at hunused
  refine ⟨i, _, rfl, ⟨hunused, update_idem _ _ _, ⟨rfl, rfl, rfl, rfl⟩, hf, hs, ?_⟩, rfl⟩
  show ((s.setTask (.slot i) { (zeroTask : SchedulerTask κ) with taskId := s.nextTaskId }).tasks (.slot i)).waitQueue = none
  rw [setTask_tasks, if_pos rfl]
  rfl

theorem addProcess_spec {process : ProcessRef} {runnable : Bool} : wp (schedulerAddProcess process runnable)
    (fun _ u => ∃ i task, Added s u i task ∧ task.process = some process)
    (fun e u => u = s ∧ (e = .noSpace → ∀ i, (s.tasks (.slot i)).state ≠ .unused) ∧
      (s.ready = true → runnable = true → e = .noSpace)) s := by
  unfold schedulerAddProcess
  simp only [wp_bind, wp_get, wp_failIf]
  refine ⟨fun hbad => ⟨trivial, (fun hx => by cases hx), fun hready hrunnable => ?_⟩, fun _ => ?_⟩
  · rw [hready, hrunnable] at hbad
    exact hbad.elim (fun hx => by cases hx) (fun hx => by cases hx)
  · cases hallocate : s.allocateTask with
    | none => exact ⟨rfl, fun _ => allocateTask_none hallocate, fun _ _ => rfl⟩
    | some r =>
      obtain ⟨i, task, -, hadded, hp⟩ := allocateTask_added hallocate (p := some process) (Or.inl rfl) (Or.inl ⟨rfl, rfl, rfl⟩)
      exact ⟨i, task, hadded, hp⟩

theorem addKernelWork_spec {priority : Nat} {given : Bool} : wp (schedulerAddKernelWork priority given)
    (fun _ u => ∃ i task, Added s u i task ∧ task.process = none) (fun _ u => u = s) s := by
  unfold schedulerAddKernelWork
  simp only [wp_bind, wp_get, wp_failIf]
  refine ⟨fun _ => trivial, fun hgood => ?_⟩
  simp only [not_or, Nat.not_lt] at hgood
  cases hallocate : s.allocateTask with
  | none => rfl
  | some r =>
    obtain ⟨task, allocated⟩ := r
    have hnone : (allocated.tasks task).process = none := by
      unfold allocateTask at hallocate
      obtain ⟨i, -, heq⟩ := Option.map_eq_some_iff.mp hallocate
      cases heq
      show ((s.setTask (.slot i) { (zeroTask : SchedulerTask κ) with taskId := s.nextTaskId }).tasks (.slot i)).process = none
      rw [setTask_tasks, if_pos rfl]
      rfl
    obtain ⟨i, task, -, hadded, hp⟩ := allocateTask_added hallocate (p := (allocated.tasks task).process) (Or.inr rfl)
      (Or.inr ⟨rfl, hgood.2.2.1, hgood.2.2.2⟩)
    exact ⟨i, task, hadded, hp.trans hnone⟩

variable {i : Fin schedulerMaxTasks} {task : SchedulerTask κ}

theorem Added.apply (h : Added s u i task) (t : TaskRef) : u.tasks t = if t = .slot i then task else s.tasks t := by
  rw [h.tasks, update_apply]

theorem Added.formed' (h : Added s u i task) (hf : Formed s) : Formed u where
  ready := h.rest.2.2.1.trans hf.ready
  idle := by
    rw [h.apply, if_neg (by nofun)]
    exact hf.idle
  slot j hj := by
    rw [h.apply] at hj ⊢
    split
    · exact h.formed
    · rename_i hne
      rw [if_neg hne] at hj
      exact hf.slot j hj
  current t ht := by
    rw [h.rest.1] at ht
    have hrunning := hf.current t ht
    rw [h.apply, if_neg]
    · exact hrunning
    · rintro rfl
      rw [h.unused] at hrunning
      cases hrunning

theorem Added.runsCurrent (h : Added s u i task) (hr : RunsCurrent s) : RunsCurrent u := by
  intro t
  rw [h.rest.1, ← hr t, h.apply]
  split
  · rename_i ht
    rw [ht, h.unused]
    rcases h.state with hs | hs
    all_goals
      rw [hs]
      exact ⟨nofun, nofun⟩
  · rfl

theorem Added.same (h : Added s u i task) (hw : (s.tasks (.slot i)).waitQueue = none) : SameQueues s u where
  queues := h.rest.2.1
  waitQueue t := by
    rw [h.apply]
    split
    · rename_i ht
      rw [ht, h.waitQueue, hw]
    · rfl
  waiting t ht := by
    rw [h.apply, if_neg]
    rintro rfl
    rw [hw] at ht
    cases ht

def preempted (s : Scheduler κ) (current : TaskRef) (i : Fin schedulerMaxTasks) : Scheduler κ :=
  let stopped := s.setTask current { s.tasks current with state := .runnable }
  { stopped.setTask (.slot i) { stopped.tasks (.slot i) with state := .running } with
    currentTask := some (.slot i), lastSelected := update s.lastSelected userPriority i.1 }

/-- The tasks that a timer interrupt may pass the processor to. -/
def Candidate (s : Scheduler κ) (current : TaskRef) (i : Fin schedulerMaxTasks) : Prop :=
  (s.tasks (.slot i)).kind = .userProcess ∧ (current = .slot i ∨ (s.tasks (.slot i)).state = .runnable)

instance {current : TaskRef} : DecidablePred (s.Candidate current) :=
  fun _ => inferInstanceAs (Decidable (_ ∧ _))

theorem stop_candidate : ((s.setTask current { s.tasks current with state := .runnable }).tasks (.slot i)).state = .runnable ∧
    ((s.setTask current { s.tasks current with state := .runnable }).tasks (.slot i)).kind = .userProcess ↔
      s.Candidate current i := by
  unfold Candidate
  rw [setTask_tasks]
  split
  · rename_i ht
    rw [← ht]
    exact ⟨fun hx => ⟨hx.2, Or.inl rfl⟩, fun hx => ⟨rfl, hx.1⟩⟩
  · rename_i ht
    rw [or_iff_right (Ne.symm ht)]
    exact And.comm

theorem selectRunnableUser_stop : (s.setTask current { s.tasks current with state := .runnable }).selectRunnableUser =
    ((slotsAfter (s.lastSelected userPriority)).find? fun i => s.Candidate current i).map fun i =>
      (i, { s.setTask current { s.tasks current with state := .runnable } with
        lastSelected := update s.lastSelected userPriority i.1 }) := by
  unfold selectRunnableUser
  have hp : (fun i => decide (((s.setTask current { s.tasks current with state := .runnable }).tasks (.slot i)).state = .runnable ∧
      ((s.setTask current { s.tasks current with state := .runnable }).tasks (.slot i)).kind = .userProcess)) =
      fun i => decide (s.Candidate current i) := by
    funext i
    exact decide_eq_decide.mpr stop_candidate
  rw [hp]
  rfl

theorem find_candidate (hidle : current ≠ .idle) (hk : (s.tasks current).kind = .userProcess) :
    ∃ i, ((slotsAfter (s.lastSelected userPriority)).find? fun i => s.Candidate current i) = some i ∧ s.Candidate current i := by
  cases hfind : (slotsAfter (s.lastSelected userPriority)).find? fun i => s.Candidate current i with
  | none =>
    cases current with
    | idle => exact absurd rfl hidle
    | slot j =>
      have hx := List.find?_eq_none.mp hfind j (mem_slotsAfter j)
      rw [decide_eq_true_iff] at hx
      exact absurd ⟨hk, Or.inl rfl⟩ hx
  | some i =>
    have hx := List.find?_some hfind
    rw [decide_eq_true_iff] at hx
    exact ⟨i, rfl, hx⟩

theorem preempted_apply {current t : TaskRef} : ((s.preempted current i).tasks t) =
    if t = .slot i then { s.tasks (.slot i) with state := .running }
    else if t = current then { s.tasks current with state := .runnable } else s.tasks t := by
  show ((s.setTask current _).setTask (.slot i) _).tasks t = _
  rw [setTask_tasks, setTask_tasks, setTask_tasks]
  split
  · split
    · rename_i hx
      rw [hx]
    · rfl
  · rfl

theorem preempted_continues (hi : s.Candidate current i) (hc : (s.tasks current).state = .running) :
    Continues s (s.preempted current i) := by
  have hstop := @continues_setState κ s current .runnable (fun _ _ => Or.inr (Or.inl hc)) (Or.inl rfl)
  have hstart := @continues_setState κ (s.setTask current { s.tasks current with state := .runnable }) (.slot i) .running
    (fun j hj => Or.inl (stop_candidate.mpr hi).1) (Or.inr (Or.inl rfl))
  have hboth := hstop.trans hstart
  exact ⟨⟨hboth.ready, hboth.task, hboth.unused⟩, hboth.exited⟩

theorem RunsCurrent.preempted (h : RunsCurrent s) (hc : s.currentTask = some current) : RunsCurrent (s.preempted current i) := by
  intro t
  rw [preempted_apply]
  show _ ↔ some (TaskRef.slot i) = some t
  rw [Option.some.injEq]
  split
  · rename_i ht
    exact ⟨fun _ => ht.symm, fun _ => rfl⟩
  · rename_i ht
    rw [eq_false (Ne.symm ht), iff_false]
    split
    · exact nofun
    · rename_i hx
      intro hy
      exact hx (Option.some.inj (hc.symm.trans ((h t).mp hy))).symm

end Scheduler

namespace TaskSystem
open Scheduler
variable {κ : Type} {s : TaskSystem κ}
variable {frame : InterruptFrame}

@[simp] theorem assert_scheduler {c : Prop} [Decidable c] : (s.assert c).scheduler = s.scheduler := by
  unfold TaskSystem.assert
  split <;> rfl

@[simp] theorem assert_processes {c : Prop} [Decidable c] : (s.assert c).processes = s.processes := by
  unfold TaskSystem.assert
  split <;> rfl

theorem runTask_scheduler {current : TaskRef} : (s.runTask current).scheduler = s.scheduler := by
  unfold runTask
  dsimp only
  split
  · rfl
  · split
    · exact assert_scheduler
    · split <;> rfl

def CanPreempt (s : TaskSystem κ) (frame : InterruptFrame) (current : TaskRef) (departing : ProcessRef) : Prop :=
  s.scheduler.currentTask = some current ∧ (s.scheduler.tasks current).process = some departing ∧ frame.fromUser = true ∧
    (s.scheduler.tasks current).kind = .userProcess ∧ (s.scheduler.tasks current).state = .running

theorem timerPreempt_idle (h : ∀ current departing, ¬s.CanPreempt frame current departing) :
    s.timerPreempt frame = (frame, s) := by
  unfold timerPreempt
  cases hc : s.scheduler.currentTask with
  | none => rfl
  | some current =>
    dsimp only
    cases hp : (s.scheduler.tasks current).process with
    | none => rfl
    | some departing =>
      dsimp only
      refine if_pos ?_
      by_contra hx
      simp only [not_or, not_not, Bool.not_eq_false] at hx
      exact h current departing ⟨hc, hp, hx⟩

def saved (s : TaskSystem κ) (departing : ProcessRef) (frame : InterruptFrame) : ProcessRef → ScheduledProcess :=
  update s.processes departing { s.processes departing with userContext := saveUserInterruptContext frame }

theorem timerResume_eq {process : ProcessRef} {i : Fin schedulerMaxTasks}
    (hp : (s.scheduler.tasks (.slot i)).process = some process) :
    s.timerResume frame i = (loadUserInterruptContext (s.processes process).userContext,
      { s with
        scheduler := { s.scheduler.setTask (.slot i) { s.scheduler.tasks (.slot i) with state := .running } with
          currentTask := some (.slot i) }
        halted := s.halted || !((s.processes process).isActivatable && (s.processes process).userContext.isLoadable) }) := by
  unfold timerResume
  dsimp only
  split
  · rename_i hx
    cases hp.symm.trans hx
  · rename_i hx
    obtain rfl := Option.some.inj (hp.symm.trans hx)
    rw [assert_processes, Prod.mk.injEq]
    refine ⟨rfl, ?_⟩
    unfold TaskSystem.assert
    cases (s.processes process).isActivatable <;> cases (s.processes process).userContext.isLoadable <;> simp

theorem timerPreempt_eq {current : TaskRef} {departing process : ProcessRef} {i : Fin schedulerMaxTasks}
    (hc : s.CanPreempt frame current departing)
    (hi : ((slotsAfter (s.scheduler.lastSelected userPriority)).find? fun i => s.scheduler.Candidate current i) = some i)
    (hp : (s.scheduler.tasks (.slot i)).process = some process) :
    s.timerPreempt frame = (loadUserInterruptContext (s.saved departing frame process).userContext,
      { s with
        scheduler := s.scheduler.preempted current i
        processes := s.saved departing frame
        halted := s.halted || !((s.saved departing frame process).isActivatable && (s.saved departing frame process).userContext.isLoadable) }) := by
  obtain ⟨hcurrent, hdeparting, huser, hkind, hrunning⟩ := hc
  have hselected : (((s.scheduler.setTask current { s.scheduler.tasks current with state := .runnable }).tasks (.slot i)).process) =
      some process := by
    rw [setTask_tasks]
    split
    · rename_i ht
      rw [← ht]
      exact hp
    · exact hp
  have hselect := @selectRunnableUser_stop κ s.scheduler current
  rw [hi] at hselect
  unfold timerPreempt
  rw [hcurrent]
  dsimp only [setProcess]
  split
  · rename_i hx
    rw [hdeparting] at hx
    cases hx
  · rename_i hx
    obtain rfl := Option.some.inj (hdeparting.symm.trans hx)
    rw [if_neg (by rw [huser, hkind, hrunning]; simp)]
    split
    · rename_i hy
      cases hselect.symm.trans hy
    · rename_i j scheduler hy
      cases hselect.symm.trans hy
      exact timerResume_eq hselected

theorem schedulerRunCurrent_scheduler : s.schedulerRunCurrent.scheduler = s.scheduler ∨
    s.schedulerRunCurrent.scheduler = s.scheduler.schedulerSelectNext := by
  have hselect : ((s.assert (s.scheduler.ready = true)).schedulerSelectNext).scheduler = s.scheduler.schedulerSelectNext := by
    unfold schedulerSelectNext
    dsimp only
    rw [assert_scheduler, assert_scheduler]
  unfold schedulerRunCurrent
  dsimp only
  rw [assert_scheduler]
  split
  all_goals
    split
    all_goals try rw [runTask_scheduler]
  · exact Or.inr hselect
  · exact Or.inl assert_scheduler
  · exact Or.inr hselect
  · exact Or.inl assert_scheduler

end TaskSystem

namespace Scheduler
variable {κ : Type} {s u v : Scheduler κ} {current : TaskRef} {i : Fin schedulerMaxTasks}

inductive Stepped (s : Scheduler κ) : Nat → Nat → Scheduler κ → Prop where
  | continued {u : Scheduler κ} : Continues s u → (∀ t, u.currentTask = some t → (u.tasks t).state = .running) → Stepped s 0 0 u
  | added {u : Scheduler κ} {i : Fin schedulerMaxTasks} {task : SchedulerTask κ} : Added s u i task → Stepped s 1 0 u
  | exited {v : Scheduler κ} {i : Fin schedulerMaxTasks} : s.currentTask = some (.slot i) → Wakes s v →
      Stepped s 0 1 (v.setTask (.slot i) { v.tasks (.slot i) with state := .exited }).switch

theorem Formed.stepped (h : Formed s) {added exited : Nat} (hs : Stepped s added exited u) : Formed u := by
  cases hs with
  | continued hc hcurrent => exact h.retains hc.toRetains hcurrent
  | added ha => exact ha.formed' h
  | exited hc hw =>
    have hv := h.wakes hw
    exact hv.retains (hv.stop (hw.statics.1.trans hc) nofun) switch_current

theorem Formed.same (h : Formed s) : Stepped s 0 0 s := .continued Continues.refl h.current

theorem Formed.woken (h : Formed s) (hw : Wakes s u) : Stepped s 0 0 u := .continued hw.continues (h.wakes hw).current

theorem Formed.selected (_ : Formed s) : Stepped s 0 0 s.schedulerSelectNext :=
  .continued selectNext_continues switch_current

theorem Formed.slot_of_kind (h : Formed s) (hk : (s.tasks current).kind = .userProcess) : ∃ i, current = .slot i := by
  cases current with
  | idle =>
    rw [h.idle] at hk
    cases hk
  | slot i => exact ⟨i, rfl⟩

theorem Formed.process (h : Formed s) (hu : (s.tasks (.slot i)).state ≠ .unused) (hk : (s.tasks (.slot i)).kind = .userProcess) :
    ∃ process, (s.tasks (.slot i)).process = some process := by
  rcases h.slot i hu with ⟨-, -, hp⟩ | ⟨hx, -⟩
  · exact Option.isSome_iff_exists.mp hp
  · rw [hk] at hx
    cases hx

theorem Formed.next_user (h : Formed s) (hk : (s.tasks current).kind = .userProcess) (hr : (s.tasks current).state = .running) :
    ∃ i process, ((slotsAfter (s.lastSelected userPriority)).find? fun i => s.Candidate current i) = some i ∧
      s.Candidate current i ∧ (s.tasks (.slot i)).process = some process := by
  obtain ⟨j, rfl⟩ := h.slot_of_kind hk
  obtain ⟨i, hi, hcandidate⟩ := @find_candidate _ s (.slot j) nofun hk
  have hu : (s.tasks (.slot i)).state ≠ .unused := by
    rcases hcandidate.2 with hx | hx
    · rw [← hx, hr]
      nofun
    · rw [hx]
      nofun
  obtain ⟨process, hp⟩ := h.process hu hcandidate.1
  exact ⟨i, process, hi, hcandidate, hp⟩

variable [DecidableEq κ] {q : κ}

theorem wakes_asleep (hc : s.CanBlock current) : Continues s ((s.asleep current q).enqueue q current) := by
  have hset := @continues_setState κ s current .blocked (fun _ _ => Or.inr (Or.inl hc.2.2.2.1)) (Or.inr (Or.inr rfl))
  have hrelink := @wakes_relink κ (s.setTask current { s.tasks current with state := .blocked }) current (some q) none
  have heq : (s.setTask current { s.tasks current with state := .blocked }).setTask current
      { (s.setTask current { s.tasks current with state := .blocked }).tasks current with waitQueue := some q, waitNext := none } =
      s.asleep current q := by
    rw [setTask_setTask, setTask_tasks, if_pos rfl]
    rfl
  rw [heq] at hrelink
  exact hset.trans (hrelink.trans wakes_enqueue).continues

theorem block_steps (hc : s.CanBlock current) : Stepped s 0 0 ((s.asleep current q).enqueue q current).switch :=
  .continued ((wakes_asleep hc).trans switch_continues) switch_current

theorem RunsCurrent.block (h : RunsCurrent s) (hc : s.CanBlock current) :
    RunsCurrent ((s.asleep current q).enqueue q current).switch := by
  refine runsCurrent_switch fun t ht => ?_
  have hw := @wakes_enqueue κ (s.asleep current q) current q _
  have hn : TaskState.blocked ≠ .running := nofun
  rcases hw.state t with hx | ⟨-, hx⟩
  · rw [hx] at ht
    exact h.stop hc.1 hn t ht
  · rw [hx] at ht
    cases ht

omit [DecidableEq κ] in
theorem RunsCurrent.exit (h : RunsCurrent s) (hc : s.currentTask = some current) (hw : Wakes s v) :
    RunsCurrent (v.setTask current { v.tasks current with state := .exited }).switch := by
  refine runsCurrent_switch fun t => ?_
  have hn : TaskState.exited ≠ .running := nofun
  exact (h.wakes hw).stop (hw.statics.1.trans hc) hn t

end Scheduler

namespace TaskSystem
open Scheduler
variable {κ : Type} {s : TaskSystem κ}

theorem timerPreempt_scheduler (h : Formed s.scheduler) (frame : InterruptFrame) :
    (s.timerPreempt frame).2.scheduler = s.scheduler ∨ ∃ current departing i, s.CanPreempt frame current departing ∧
      s.scheduler.Candidate current i ∧
      ((slotsAfter (s.scheduler.lastSelected userPriority)).find? fun i => s.scheduler.Candidate current i) = some i ∧
      (s.timerPreempt frame).2.scheduler = s.scheduler.preempted current i := by
  by_cases hx : ∃ current departing, s.CanPreempt frame current departing
  · obtain ⟨current, departing, hc⟩ := hx
    obtain ⟨i, process, hi, hcandidate, hp⟩ := h.next_user hc.2.2.2.1 hc.2.2.2.2
    refine Or.inr ⟨current, departing, i, hc, hcandidate, hi, ?_⟩
    rw [timerPreempt_eq hc hi hp]
  · rw [timerPreempt_idle fun current departing hc => hx ⟨current, departing, hc⟩]
    exact Or.inl rfl

theorem addProcess_spec {process : ProcessRef} : wp (schedulerAddProcess process)
    (fun _ u => ∃ i task, Added s.scheduler u.scheduler i task ∧ task.process = some process)
    (fun e u => u = s ∧ (e = .noSpace → ∀ i, (s.scheduler.tasks (.slot i)).state ≠ .unused) ∧
      (s.scheduler.ready = true → (s.processes process).state = .runnable → e = .noSpace)) s := by
  unfold schedulerAddProcess onScheduler
  simp only [wp_bind, wp_get, wp_zoom, wp_modify]
  refine wp_mono Scheduler.addProcess_spec (fun _ _ hx => hx) fun e u hx => ?_
  obtain ⟨rfl, hfull, hx⟩ := hx
  exact ⟨rfl, hfull, fun hready hrunnable => hx hready (by rw [hrunnable]; rfl)⟩

theorem addKernelWork_spec {priority : Nat} {given : Bool} : wp (schedulerAddKernelWork priority given)
    (fun _ u => ∃ i task, Added s.scheduler u.scheduler i task ∧ task.process = none) (fun _ u => u = s) s := by
  unfold schedulerAddKernelWork onScheduler
  simp only [wp_bind, wp_get, wp_zoom, wp_modify, wp_pure]
  refine wp_mono Scheduler.addKernelWork_spec (fun _ _ hx => hx) fun e u hx => ?_
  rw [hx]

variable [DecidableEq κ]

theorem exit_spec {exitStatus : BitVec 64} (h : Formed s.scheduler) : wp (schedulerExitCurrent exitStatus)
    (fun _ u => ∃ i v, s.scheduler.currentTask = some (.slot i) ∧ v = (match (s.scheduler.tasks (.slot i)).waitQueue with
        | some queue => s.scheduler.waitQueueRemove queue (.slot i)
        | none => s.scheduler) ∧
      u.scheduler = (v.setTask (.slot i) { v.tasks (.slot i) with state := .exited }).switch)
    (fun _ u => u = s) s := by
  unfold schedulerExitCurrent
  simp only [wp_bind, wp_get]
  cases hc : s.scheduler.currentTask with
  | none => rfl
  | some current =>
    simp only [wp_bind, wp_failIf, wp_modify]
    refine ⟨fun _ => trivial, fun hgood => ?_⟩
    simp only [not_or, not_not] at hgood
    obtain ⟨i, rfl⟩ := h.slot_of_kind hgood.2.2.1
    refine ⟨i, _, rfl, rfl, ?_⟩
    cases (s.scheduler.tasks (.slot i)).waitQueue with
    | none =>
      dsimp only
      cases ((s.scheduler.setTask _ _).tasks (.slot i)).process <;> rfl
    | some queue =>
      dsimp only
      cases (((s.scheduler.waitQueueRemove queue (.slot i)).setTask _ _).tasks (.slot i)).process <;> rfl

end TaskSystem
end InferenceOS
