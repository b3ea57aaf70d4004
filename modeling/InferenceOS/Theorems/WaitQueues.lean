import InferenceOS.Kernel.Scheduler
import InferenceOS.Lib.LinkedQueue

/-! The wait queues of the scheduler. Each queue is a list of tasks that are linked through `wait_next`; a task is in
    the queue that its `wait_queue` names, and is blocked there. -/

namespace InferenceOS
open Program Function

namespace Scheduler
variable {κ : Type} {s u : Scheduler κ} {members : κ → List TaskRef} {q q' : κ} {t current : TaskRef}

def next (s : Scheduler κ) (t : TaskRef) : Option TaskRef := (s.tasks t).waitNext

/-- `members` lists the tasks of each queue, those that have waited longest first. -/
structure Queued (s : Scheduler κ) (members : κ → List TaskRef) : Prop where
  linked : ∀ q, Linked s.next (s.queues q).head (members q)
  tail : ∀ q, (s.queues q).tail = (members q).getLast?
  nodup : ∀ q, (members q).Nodup
  mem : ∀ q t, t ∈ members q ↔ (s.tasks t).waitQueue = some q
  blocked : ∀ t, (s.tasks t).waitQueue.isSome → (s.tasks t).state = .blocked
  idle : (s.tasks .idle).waitQueue = none

structure SameQueues (s u : Scheduler κ) : Prop where
  queues : u.queues = s.queues
  waitQueue : ∀ t, (u.tasks t).waitQueue = (s.tasks t).waitQueue
  waiting : ∀ t, (s.tasks t).waitQueue.isSome → u.tasks t = s.tasks t

theorem SameQueues.trans {v : Scheduler κ} (h : SameQueues s u) (h' : SameQueues u v) : SameQueues s v where
  queues := h'.queues.trans h.queues
  waitQueue t := (h'.waitQueue t).trans (h.waitQueue t)
  waiting t ht := (h'.waiting t (by rw [h.waitQueue]; exact ht)).trans (h.waiting t ht)

theorem Queued.waits (h : Queued s members) (ht : t ∈ members q) : (s.tasks t).waitQueue.isSome := by
  rw [(h.mem q t).mp ht]
  rfl

theorem Queued.same (h : Queued s members) (hs : SameQueues s u) : Queued u members where
  linked q := by
    rw [hs.queues]
    refine (h.linked q).congr fun t ht => ?_
    unfold next
    rw [hs.waiting t (h.waits ht)]
  tail q := by rw [hs.queues, h.tail]
  nodup := h.nodup
  mem q t := by rw [hs.waitQueue, h.mem]
  blocked t ht := by
    rw [hs.waitQueue] at ht
    rw [hs.waiting t ht, h.blocked t ht]
  idle := by rw [hs.waitQueue, h.idle]

theorem setTask_tasks {task : SchedulerTask κ} {t' : TaskRef} :
    (s.setTask t task).tasks t' = if t' = t then task else s.tasks t' := update_apply _ _ _ _

theorem sameQueues_setTask {task : SchedulerTask κ} (hw : (s.tasks t).waitQueue = none) (hq : task.waitQueue = none) :
    SameQueues s (s.setTask t task) where
  queues := rfl
  waitQueue t' := by
    rw [setTask_tasks]
    split
    · rename_i ht
      rw [hq, ht, hw]
    · rfl
  waiting t' ht' := by
    rw [setTask_tasks, if_neg]
    rintro rfl
    rw [hw] at ht'
    cases ht'

theorem Queued.not_waiting (h : Queued s members) (hs : (s.tasks t).state ≠ .blocked) : (s.tasks t).waitQueue = none := by
  rcases hq : (s.tasks t).waitQueue with _ | q
  · rfl
  · exact absurd (h.blocked t (by rw [hq]; rfl)) hs

theorem selectFrom_eq : ∀ {priority : Nat}, (∃ i, (s.selectFrom priority).1 = .slot i ∧ (s.tasks (.slot i)).state = .runnable ∨
      (s.selectFrom priority).1 = .idle) ∧ (s.selectFrom priority).2.tasks = s.tasks ∧
      (s.selectFrom priority).2.queues = s.queues ∧ (s.selectFrom priority).2.ready = s.ready
  | priority => by
    unfold selectFrom
    split
    · rename_i i hfound
      have hrunnable := List.find?_some hfound
      simp only [decide_eq_true_eq] at hrunnable
      exact ⟨⟨i, Or.inl ⟨rfl, hrunnable.1⟩⟩, rfl, rfl, rfl⟩
    · split
      · exact ⟨⟨0, Or.inr rfl⟩, rfl, rfl, rfl⟩
      · exact selectFrom_eq

theorem Queued.selected (h : Queued s members) : (s.tasks s.selectRunnable.1).waitQueue = none := by
  obtain ⟨⟨i, ⟨hi, hstate⟩ | hidle⟩, -⟩ := @selectFrom_eq κ s highestPriority
  · unfold selectRunnable
    rw [hi]
    exact h.not_waiting (by rw [hstate]; nofun)
  · unfold selectRunnable
    rw [hidle, h.idle]

theorem switch_same (h : Queued s members) : SameQueues s s.switch := by
  obtain ⟨-, htasks, hqueues, -⟩ := @selectFrom_eq κ s highestPriority
  have hselected := h.selected
  have hmid : SameQueues s s.selectRunnable.2 := by
    unfold selectRunnable
    refine ⟨hqueues, fun t => ?_, fun t _ => ?_⟩
    all_goals rw [htasks]
  have hset := @sameQueues_setTask κ s.selectRunnable.2 s.selectRunnable.1
    { s.selectRunnable.2.tasks s.selectRunnable.1 with state := .running }
    (by rw [hmid.waitQueue, hselected]) (by rw [hmid.waitQueue, hselected])
  exact hmid.trans ⟨hset.queues, hset.waitQueue, hset.waiting⟩

@[simp] theorem switch_ready : s.switch.ready = s.ready := (@selectFrom_eq κ s highestPriority).2.2.2

theorem Queued.switch (h : Queued s members) : Queued s.switch members := h.same (switch_same h)

theorem Queued.selectNext (h : Queued s members) : Queued s.schedulerSelectNext members := by
  unfold schedulerSelectNext
  split
  · split
    · rename_i current _ hrunning
      have hw := h.not_waiting (show (s.tasks current).state ≠ .blocked by rw [hrunning]; nofun)
      have hset := @sameQueues_setTask κ s current { s.tasks current with state := .runnable } hw hw
      exact (h.same hset).switch
    · exact h.switch
  · exact h.switch

theorem selectNext_ready : s.schedulerSelectNext.ready = s.ready := by
  unfold schedulerSelectNext
  split
  · split <;> exact switch_ready
  · exact switch_ready

theorem Queued.addProcess (h : Queued s members) {process : ProcessRef} {runnable : Bool} :
    wp (schedulerAddProcess process runnable) (fun _ u => Queued u members ∧ u.ready = s.ready) (fun _ u => u = s) s := by
  unfold schedulerAddProcess
  simp only [wp_bind, wp_get, wp_failIf]
  refine ⟨fun _ => trivial, fun _ => ?_⟩
  cases hallocate : s.allocateTask with
  | none => rfl
  | some allocated =>
    unfold allocateTask at hallocate
    obtain ⟨i, hi, rfl⟩ := Option.map_eq_some_iff.mp hallocate
    have hunused := List.find?_some hi
    simp only [decide_eq_true_eq] at hunused
    have hw := h.not_waiting (show (s.tasks (.slot i)).state ≠ .blocked by rw [hunused]; nofun)
    have hzero := @sameQueues_setTask κ s (.slot i) { (zeroTask : SchedulerTask κ) with taskId := s.nextTaskId } hw rfl
    generalize hu : ({ s.setTask (.slot i) { (zeroTask : SchedulerTask κ) with taskId := s.nextTaskId } with
      nextTaskId := s.nextTaskId + 1 } : Scheduler κ) = u
    have hnew : SameQueues s u := by
      rw [← hu]
      exact ⟨hzero.queues, hzero.waitQueue, hzero.waiting⟩
    have hnone := (hnew.waitQueue (.slot i)).trans hw
    have hready : u.ready = s.ready := by rw [← hu]; rfl
    exact ⟨h.same (hnew.trans (sameQueues_setTask hnone hnone)), hready⟩

variable [DecidableEq κ]

@[simp] theorem setQueue_tasks {ends : WaitQueue} : (s.setQueue q ends).tasks = s.tasks := rfl

theorem setQueue_queues {ends : WaitQueue} : (s.setQueue q ends).queues q' = if q' = q then ends else s.queues q' :=
  update_apply _ _ _ _

omit [DecidableEq κ] in
theorem Queued.unique (h : Queued s members) (ht : t ∈ members q) (ht' : t ∈ members q') : q = q' :=
  Option.some.inj (((h.mem q t).mp ht).symm.trans ((h.mem q' t).mp ht'))

theorem Queued.relink (h : Queued s members) {l : List TaskRef}
    (hqueues : ∀ q', u.queues q' = if q' = q then ⟨l.head?, l.getLast?⟩ else s.queues q') (hlinked : Linked u.next l.head? l)
    (hnodup : l.Nodup) (hnext : ∀ q', q' ≠ q → ∀ t ∈ members q', u.next t = s.next t)
    (hmem : ∀ t, t ∈ l ↔ (u.tasks t).waitQueue = some q)
    (hother : ∀ q', q' ≠ q → ∀ t, (u.tasks t).waitQueue = some q' ↔ (s.tasks t).waitQueue = some q')
    (hblocked : ∀ t, (u.tasks t).waitQueue.isSome → (u.tasks t).state = .blocked)
    (hidle : (u.tasks .idle).waitQueue = none) : Queued u (update members q l) := by
  refine ⟨fun q' => ?_, fun q' => ?_, fun q' => ?_, fun q' t => ?_, hblocked, hidle⟩
  all_goals
    rw [update_apply]
    try rw [hqueues]
    split
  · exact hlinked
  · rename_i hq
    exact (h.linked q').congr (hnext q' hq)
  · rfl
  · exact h.tail q'
  · exact hnodup
  · exact h.nodup q'
  · rename_i hq
    rw [hq]
    exact hmem t
  · rename_i hq
    rw [hother q' hq, h.mem]

def asleep (s : Scheduler κ) (t : TaskRef) (q : κ) : Scheduler κ :=
  s.setTask t { s.tasks t with state := .blocked, waitQueue := some q, waitNext := none }

omit [DecidableEq κ] in
theorem asleep_tasks {t' : TaskRef} : (s.asleep t q).tasks t' =
    if t' = t then { s.tasks t with state := .blocked, waitQueue := some q, waitNext := none } else s.tasks t' := setTask_tasks

theorem enqueue_asleep : (s.asleep t q).enqueue q t = match (s.queues q).tail with
    | none => (s.asleep t q).setQueue q ⟨some t, some t⟩
    | some last => ((s.asleep t q).setTask last { (s.asleep t q).tasks last with waitNext := some t }).setQueue q
      ⟨(s.queues q).head, some t⟩ := rfl

theorem Queued.enqueue (h : Queued s members) (hw : (s.tasks t).waitQueue = none) (ht : t ≠ .idle) :
    Queued ((s.asleep t q).enqueue q t) (update members q (members q ++ [t])) := by
  have hnot : ∀ q, t ∉ members q := fun q hx => by
    have := (h.mem q t).mp hx
    rw [hw] at this
    cases this
  have hnext : (s.asleep t q).next = update s.next t none := by
    funext t'
    unfold next
    rw [asleep_tasks, update_apply]
    split <;> rfl
  have hlinked : Linked (s.asleep t q).next (s.queues q).head (members q) := by
    rw [hnext]
    exact (h.linked q).update (hnot q)
  have hstill : ∀ {u : Scheduler κ}, (∀ t', (u.tasks t').waitQueue = ((s.asleep t q).tasks t').waitQueue) →
      (∀ t', (u.tasks t').state = ((s.asleep t q).tasks t').state) →
      (∀ q', u.queues q' = if q' = q then ⟨(members q ++ [t]).head?, some t⟩ else s.queues q') →
      Linked u.next (members q ++ [t]).head? (members q ++ [t]) →
      (∀ t', t' ∉ members q → u.next t' = (s.asleep t q).next t') → Queued u (update members q (members q ++ [t])) := by
    intro u hwait hstate hqueues hchain hrest
    refine h.relink (fun q' => ?_) hchain ?_ (fun q' hq t' ht' => ?_) (fun t' => ?_) (fun q' hq t' => ?_) (fun t' ht' => ?_) ?_
    · rw [hqueues, List.getLast?_concat]
    · exact List.nodup_append.mpr ⟨h.nodup q, List.nodup_singleton t, fun a ha b hb => by
        rw [List.mem_singleton.mp hb]
        rintro rfl
        exact hnot q ha⟩
    · rw [hrest t' fun hx => hq (h.unique ht' hx), hnext, update_of_ne]
      rintro rfl
      exact hnot q' ht'
    · rw [hwait, asleep_tasks, List.mem_append, List.mem_singleton]
      split
      · rename_i hx
        exact ⟨fun _ => rfl, fun _ => Or.inr hx⟩
      · rename_i hx
        rw [or_iff_left hx, h.mem]
    · rw [hwait, asleep_tasks]
      split
      · rename_i hx
        rw [hx, hw]
        exact ⟨fun hy => absurd (Option.some.inj hy).symm hq, fun hy => by cases hy⟩
      · rfl
    · rw [hwait, asleep_tasks] at ht'
      rw [hstate, asleep_tasks]
      split
      · rfl
      · rename_i hx
        rw [if_neg hx] at ht'
        exact h.blocked t' ht'
    · rw [hwait, asleep_tasks, if_neg (Ne.symm ht), h.idle]
  have htail := h.tail q
  rw [enqueue_asleep]
  rcases List.eq_nil_or_concat (members q) with hnil | ⟨l, last, hl⟩
  · rw [hnil] at htail
    rw [htail]
    refine hstill (fun _ => rfl) (fun _ => rfl) (fun q' => ?_) ?_ (fun _ _ => rfl)
    · show ((s.asleep t q).setQueue q ⟨some t, some t⟩).queues q' = _
      rw [setQueue_queues, hnil]
      rfl
    · rw [hnil]
      refine ⟨rfl, ?_⟩
      show (s.asleep t q).next t = none
      rw [hnext, update_self]
  · rw [List.concat_eq_append] at hl
    rw [hl, List.getLast?_concat] at htail
    rw [htail]
    have hnext' : (((s.asleep t q).setTask last { (s.asleep t q).tasks last with waitNext := some t }).setQueue q
        ⟨(s.queues q).head, some t⟩).next = update (s.asleep t q).next last (some t) := by
      funext t'
      unfold next
      rw [setQueue_tasks, setTask_tasks, update_apply]
      split <;> rfl
    refine hstill (fun t' => ?_) (fun t' => ?_) (fun q' => ?_) ?_ (fun t' ht' => ?_)
    · rw [setQueue_tasks, setTask_tasks]
      split
      · rename_i hx
        rw [hx]
      · rfl
    · rw [setQueue_tasks, setTask_tasks]
      split
      · rename_i hx
        rw [hx]
      · rfl
    · rw [setQueue_queues, (h.linked q).head_eq, hl]
      refine if_congr Iff.rfl ?_ rfl
      rw [List.head?_append, List.head?_append]
      cases l <;> rfl
    · rw [hnext', hl, List.append_assoc]
      have hhead : (l ++ ([last] ++ [t])).head? = (s.queues q).head := by
        rw [(h.linked q).head_eq, hl]
        cases l <;> rfl
      rw [hhead]
      rw [hl] at hlinked
      refine hlinked.snoc ?_ ?_ ?_
      · rw [← hl]
        exact h.nodup q
      · rw [← hl]
        exact hnot q
      · rw [hnext, update_self]
    · rw [hnext', update_of_ne]
      rintro rfl
      exact ht' (by rw [hl]; exact List.mem_append_right l (List.mem_singleton_self _))

def CanBlock (s : Scheduler κ) (current : TaskRef) : Prop :=
  s.currentTask = some current ∧ s.ready = true ∧ current ≠ .idle ∧ (s.tasks current).state = .running ∧
    (s.tasks current).waitQueue = none

theorem block_spec : wp (schedulerBlockCurrent q)
    (fun _ u => ∃ current, s.CanBlock current ∧ u = switch ((s.asleep current q).enqueue q current))
    (fun _ u => u = s ∧ ∀ current, ¬s.CanBlock current) s := by
  unfold schedulerBlockCurrent
  rw [wp_bind, wp_get]
  cases hcurrent : s.currentTask with
  | none => exact ⟨rfl, fun current hx => nomatch hcurrent.symm.trans hx.1⟩
  | some current =>
    simp only [wp_bind, wp_failIf, wp_modify]
    refine ⟨fun hbad => ⟨trivial, fun other hx => ?_⟩, fun hgood => ⟨current, ⟨hcurrent, ?_⟩, rfl⟩⟩
    · obtain rfl := Option.some.inj (hcurrent.symm.trans hx.1)
      obtain ⟨-, hready, hidle, hrunning, hwait⟩ := hx
      rw [hready, hrunning, hwait] at hbad
      rcases hbad with hbad | hbad | hbad | hbad
      · cases hbad
      · exact hidle hbad
      · exact hbad rfl
      · cases hbad
    · simp only [not_or, not_not, Bool.not_eq_false] at hgood
      exact ⟨hgood.1, hgood.2.1, hgood.2.2.1, by simpa using hgood.2.2.2⟩

theorem Queued.block (h : Queued s members) (hc : s.CanBlock current) :
    Queued ((s.asleep current q).enqueue q current).switch (update members q (members q ++ [current])) ∧
      ((s.asleep current q).enqueue q current).switch.ready = s.ready := by
  refine ⟨(h.enqueue hc.2.2.2.2 hc.2.2.1).switch, ?_⟩
  rw [switch_ready]
  unfold Scheduler.enqueue
  split <;> rfl

theorem Queued.setQueue_empty (h : Queued s members) (hm : members q = []) : s.setQueue q ⟨none, none⟩ = s := by
  have hlinked := h.linked q
  have htail := h.tail q
  rw [hm] at hlinked htail
  have hends : s.queues q = ⟨none, none⟩ := by
    rcases hq : s.queues q with ⟨head, tail⟩
    rw [hq] at hlinked htail
    rw [show head = none from hlinked, show tail = none from htail]
  unfold setQueue
  rw [← hends, update_eq_self]

theorem Queued.dequeue (h : Queued s members) {rest : List TaskRef} (hm : members q = t :: rest) {v : Scheduler κ}
    (hv : v = ((s.setQueue q ⟨s.next t, if (s.next t).isNone then none else (s.queues q).tail⟩).setTask t
      { s.tasks t with waitNext := none, waitQueue := none, state := .runnable })) :
    Queued v (update members q rest) := by
  have hwait := (h.mem q t).mp (by rw [hm]; exact List.mem_cons_self)
  have hlinked := h.linked q
  have hnodup := h.nodup q
  rw [hm] at hlinked hnodup
  have hnot : t ∉ rest := (List.nodup_cons.mp hnodup).1
  have htasks : ∀ t', v.tasks t' = if t' = t then
      { s.tasks t with waitNext := none, waitQueue := none, state := .runnable } else s.tasks t' := by
    intro t'
    rw [hv, setTask_tasks, setQueue_tasks]
  have hnext : v.next = update s.next t none := by
    funext t'
    unfold next
    rw [htasks, update_apply]
    split <;> rfl
  refine h.relink (fun q' => ?_) ?_ (List.nodup_cons.mp hnodup).2 (fun q' hq t' ht' => ?_) (fun t' => ?_)
    (fun q' hq t' => ?_) (fun t' ht' => ?_) ?_
  · rw [hv]
    show (s.setQueue q _).queues q' = _
    rw [setQueue_queues]
    refine if_congr Iff.rfl ?_ rfl
    have hrest := hlinked.2
    have htail := h.tail q
    rw [hm] at htail
    rw [hrest.head_eq, htail]
    cases rest <;> rfl
  · rw [hnext]
    have hrest := hlinked.2.update hnot (p := none)
    rwa [hlinked.2.head_eq] at hrest
  · rw [hnext, update_of_ne]
    rintro rfl
    exact hq (h.unique (by rw [hm]; exact List.mem_cons_self) ht').symm
  · rw [htasks]
    split
    · rename_i hx
      rw [hx]
      exact ⟨fun hy => absurd hy hnot, nofun⟩
    · rename_i hx
      rw [← h.mem, hm, List.mem_cons, or_iff_right hx]
  · rw [htasks]
    split
    · rename_i hx
      rw [hx, hwait]
      exact ⟨nofun, fun hy => absurd (Option.some.inj hy).symm hq⟩
    · rfl
  · rw [htasks] at ht' ⊢
    split
    · rename_i hx
      rw [if_pos hx] at ht'
      cases ht'
    · rename_i hx
      rw [if_neg hx] at ht'
      exact h.blocked t' ht'
  · rw [htasks, if_neg, h.idle]
    rintro rfl
    rw [h.idle] at hwait
    cases hwait

omit [DecidableEq κ] in
theorem setTask_setTask {task task' : SchedulerTask κ} : (s.setTask t task).setTask t task' = s.setTask t task' := by
  unfold setTask
  simp only [update_idem]

theorem wakeTask_eq (hready : s.ready = true) (hblocked : (s.tasks t).state = .blocked) (hw : (s.tasks t).waitQueue = none) :
    schedulerWakeTask t s = (.ok (), s.setTask t { s.tasks t with state := .runnable }) := by
  unfold schedulerWakeTask
  rw [bind_ok (show get s = _ from rfl), failIf_pass, bind_ok (show modify _ s = (.ok (), _) from rfl)]
  · rw [hw]
    rfl
  · rw [hready, hblocked]
    exact fun hx => hx.elim nofun fun hy => hy rfl

theorem wakeOne_nil (hh : (s.queues q).head = none) : s.waitQueueWakeOne q = (none, s) := by
  unfold waitQueueWakeOne
  rw [hh]

theorem wakeOne_cons (hh : (s.queues q).head = some t) (hready : s.ready = true) (hblocked : (s.tasks t).state = .blocked) :
    s.waitQueueWakeOne q = (some t,
      (s.setQueue q ⟨s.next t, if (s.next t).isNone then none else (s.queues q).tail⟩).setTask t
        { s.tasks t with waitNext := none, waitQueue := none, state := .runnable }) := by
  unfold waitQueueWakeOne
  rw [hh]
  dsimp only
  rw [wakeTask_eq]
  · simp only [setTask_setTask, setTask_tasks, setQueue_tasks, if_true, next]
    rfl
  · exact hready
  · rw [setTask_tasks, if_pos rfl]
    exact hblocked
  · rw [setTask_tasks, if_pos rfl]

theorem Queued.wakeOne (h : Queued s members) (hready : s.ready = true) :
    (s.waitQueueWakeOne q).1 = (members q).head? ∧
      Queued (s.waitQueueWakeOne q).2 (update members q (members q).tail) ∧
      (s.waitQueueWakeOne q).2.ready = true := by
  have hhead := (h.linked q).head_eq
  cases hm : members q with
  | nil =>
    rw [hm] at hhead
    rw [wakeOne_nil hhead, List.tail_nil, ← hm, update_eq_self, hm]
    exact ⟨rfl, h, hready⟩
  | cons t rest =>
    rw [hm] at hhead
    rw [wakeOne_cons hhead hready (h.blocked t (h.waits (by rw [hm]; exact List.mem_cons_self)))]
    exact ⟨rfl, h.dequeue hm rfl, hready⟩

theorem card_taskRef : Fintype.card TaskRef = schedulerMaxTasks + 1 := rfl

omit [DecidableEq κ] in
theorem Queued.length_le (h : Queued s members) : (members q).length ≤ schedulerMaxTasks + 1 := by
  rw [← card_taskRef]
  exact (h.nodup q).length_le_card

theorem Queued.wakeAllFrom : ∀ {fuel : Nat} {s : Scheduler κ} {members : κ → List TaskRef}, Queued s members → s.ready = true →
    (members q).length < fuel → Queued (wakeAllFrom q fuel s) (update members q []) ∧ (wakeAllFrom q fuel s).ready = true
  | fuel + 1, s, members, h, hready, hf => by
    obtain ⟨hfirst, hrest, hready'⟩ := @Queued.wakeOne κ s members q _ h hready
    unfold Scheduler.wakeAllFrom
    cases hm : members q with
    | nil =>
      have hhead := (h.linked q).head_eq
      rw [hm] at hhead
      rw [wakeOne_nil hhead, ← hm, update_eq_self]
      exact ⟨h, hready⟩
    | cons t rest =>
      rw [hm] at hfirst hrest hf
      rcases hw : s.waitQueueWakeOne q with ⟨woken, u⟩
      rw [hw] at hfirst hrest hready'
      cases hfirst
      have hlength : (update members q rest q).length < fuel := by
        rw [update_self]
        exact Nat.lt_of_succ_lt_succ hf
      have ih := Queued.wakeAllFrom hrest hready' hlength
      rwa [update_idem] at ih

theorem Queued.wakeAll (h : Queued s members) (hready : s.ready = true) :
    Queued (s.waitQueueWakeAll q) (update members q []) ∧ (s.waitQueueWakeAll q).ready = true :=
  h.wakeAllFrom hready (Nat.lt_succ_of_le h.length_le)

def removeAt (s : Scheduler κ) (q : κ) (previous : Option TaskRef) (t : TaskRef) : Scheduler κ :=
  let ends := s.queues q
  let moved := match previous with
    | none => s.setQueue q ⟨s.next t, ends.tail⟩
    | some previous => s.setTask previous { s.tasks previous with waitNext := s.next t }
  let ended := if ends.tail = some t then moved.setQueue q ⟨(moved.queues q).head, previous⟩ else moved
  ended.setTask t { ended.tasks t with waitNext := none, waitQueue := none }

theorem removeAt_tasks {previous : Option TaskRef} (hp : previous ≠ some t) {t' : TaskRef} : (s.removeAt q previous t).tasks t' =
    if t' = t then { s.tasks t with waitNext := none, waitQueue := none }
    else if previous = some t' then { s.tasks t' with waitNext := s.next t } else s.tasks t' := by
  have hmoved : ∀ {u : Scheduler κ}, u.tasks = (match previous with
      | none => s.setQueue q ⟨s.next t, (s.queues q).tail⟩
      | some previous => s.setTask previous { s.tasks previous with waitNext := s.next t }).tasks →
      (u.setTask t { u.tasks t with waitNext := none, waitQueue := none }).tasks t' =
        if t' = t then { s.tasks t with waitNext := none, waitQueue := none }
        else if previous = some t' then { s.tasks t' with waitNext := s.next t } else s.tasks t' := by
    intro u hu
    rw [setTask_tasks, hu]
    cases previous with
    | none =>
      rw [if_neg (show ¬none = some t' from nofun)]
      rfl
    | some p =>
      have hne : t ≠ p := fun hx => hp (by rw [hx])
      rw [setTask_tasks, setTask_tasks, if_neg hne]
      refine if_congr Iff.rfl rfl ?_
      by_cases hx : t' = p
      · rw [if_pos hx, if_pos (by rw [hx]), hx]
      · rw [if_neg hx, if_neg fun hy => hx (Option.some.inj hy).symm]
  unfold removeAt
  dsimp only
  split
  · exact hmoved rfl
  · exact hmoved rfl

theorem removeAt_queues {previous : Option TaskRef} : (s.removeAt q previous t).queues q' =
    if q' = q then ⟨if previous = none then s.next t else (s.queues q).head,
      if (s.queues q).tail = some t then previous else (s.queues q).tail⟩ else s.queues q' := by
  unfold removeAt
  dsimp only
  cases previous with
  | none =>
    split
    · show ((s.setQueue q _).setQueue q _).queues q' = _
      rw [setQueue_queues, setQueue_queues, setQueue_queues, if_pos rfl]
      split <;> rfl
    · show (s.setQueue q _).queues q' = _
      rw [setQueue_queues]
      rfl
  | some p =>
    split
    · show ((s.setTask p _).setQueue q _).queues q' = _
      rw [setQueue_queues]
      rfl
    · show s.queues q' = _
      split
      · rename_i hq
        rw [hq]
        rfl
      · rfl

theorem removeAt_ready {previous : Option TaskRef} : (s.removeAt q previous t).ready = s.ready := by
  unfold removeAt
  dsimp only
  split <;> cases previous <;> rfl

theorem removeFrom_eq : ∀ {l₁ l₂ l₃ : List TaskRef} {fuel : Nat}, Linked s.next (l₂ ++ t :: l₃).head? (l₂ ++ t :: l₃) → t ∉ l₂ →
    l₂.length < fuel → waitQueueRemoveFrom q t fuel l₁.getLast? (l₂ ++ t :: l₃).head? s = s.removeAt q (l₁ ++ l₂).getLast? t
  | l₁, [], l₃, fuel + 1, _, _, _ => by
    rw [List.append_nil, List.nil_append, List.head?_cons, waitQueueRemoveFrom, if_pos rfl]
    rfl
  | l₁, c :: l₂, l₃, fuel + 1, hl, ht, hf => by
    rw [List.mem_cons, not_or] at ht
    rw [List.cons_append] at hl ⊢
    rw [List.head?_cons, waitQueueRemoveFrom, if_neg (Ne.symm ht.1)]
    have hnext : (s.tasks c).waitNext = (l₂ ++ t :: l₃).head? := hl.2.head_eq
    rw [hnext]
    have hl' : Linked s.next (l₂ ++ t :: l₃).head? (l₂ ++ t :: l₃) := by
      rw [← hnext]
      exact hl.2
    have ih := @removeFrom_eq (l₁ ++ [c]) l₂ l₃ fuel hl' ht.2 (Nat.lt_of_succ_lt_succ hf)
    rwa [List.getLast?_concat, List.append_assoc] at ih

theorem Queued.remove (h : Queued s members) {l₁ l₂ : List TaskRef} (hm : members q = l₁ ++ t :: l₂) :
    Queued (s.waitQueueRemove q t) (update members q (l₁ ++ l₂)) ∧
      (s.waitQueueRemove q t).ready = s.ready ∧ ((s.waitQueueRemove q t).tasks t).waitQueue = none := by
  have hnodup := h.nodup q
  have hlinked := h.linked q
  have htail := h.tail q
  have hhead := hlinked.head_eq
  have hlength := h.length_le (q := q)
  have hmem : ∀ t', t' ∈ l₁ ++ l₂ ↔ t' ∈ members q ∧ t' ≠ t := by
    intro t'
    rw [hm, List.nodup_middle, List.nodup_cons] at hnodup
    rw [hm, List.mem_append, List.mem_append, List.mem_cons]
    constructor
    · intro hx
      refine ⟨hx.imp_right Or.inr, ?_⟩
      rintro rfl
      exact hnodup.1 (List.mem_append.mpr hx)
    · rintro ⟨hx | hx | hx, hne⟩
      · exact Or.inl hx
      · exact absurd hx hne
      · exact Or.inr hx
  have hwait := (h.mem q t).mp (by rw [hm]; exact List.mem_append_right l₁ List.mem_cons_self)
  have hremove : s.waitQueueRemove q t = s.removeAt q l₁.getLast? t := by
    unfold waitQueueRemove
    rw [hhead, hm]
    refine @removeFrom_eq κ s q t _ [] l₁ l₂ _ ?_ ?_ ?_
    · rw [← hm, ← hhead]
      exact hlinked
    · rw [hm, List.nodup_middle, List.nodup_cons] at hnodup
      exact fun hx => hnodup.1 (List.mem_append_left l₂ hx)
    · rw [hm, List.length_append, List.length_cons] at hlength
      omega
  have hnot : t ∉ l₁ ∧ t ∉ l₂ := by
    rw [hm, List.nodup_middle, List.nodup_cons, List.mem_append, not_or] at hnodup
    exact hnodup.1
  have hlast : l₁.getLast? ≠ some t := fun hx => hnot.1 (List.mem_of_getLast? hx)
  rw [hremove]
  have htasks := fun t' => @removeAt_tasks κ s q t _ l₁.getLast? hlast t'
  have hqueues := fun q' => @removeAt_queues κ s q q' t _ l₁.getLast?
  have hready := @removeAt_ready κ s q t _ l₁.getLast?
  generalize s.removeAt q l₁.getLast? t = u at *
  have hwaits : ∀ t', (u.tasks t').waitQueue = (if t' = t then none else (s.tasks t').waitQueue) ∧
      (u.tasks t').state = (s.tasks t').state := by
    intro t'
    rw [htasks]
    split
    · rename_i hx
      rw [hx]
      exact ⟨rfl, rfl⟩
    · split <;> exact ⟨rfl, rfl⟩
  have hnext : ∀ t', t' ≠ t → u.next t' = if l₁.getLast? = some t' then s.next t else s.next t' := by
    intro t' hne
    unfold next
    rw [htasks, if_neg hne]
    split <;> rfl
  have hsecond : s.next t = l₂.head? ∧ Linked s.next l₂.head? l₂ := by
    have hdrop : ∀ {head : Option TaskRef} {l : List TaskRef}, Linked s.next head (l ++ t :: l₂) → Linked s.next (s.next t) l₂ := by
      intro head l
      induction l generalizing head with
      | nil => exact fun hx => hx.2
      | cons c l ih => exact fun hx => ih hx.2
    rw [hm] at hlinked
    have hrest := hdrop hlinked
    have hh := hrest.head_eq
    rw [hh] at hrest
    exact ⟨hh, hrest⟩
  refine ⟨h.relink (fun q' => ?_) ?_ ?_ (fun q' hq t' ht' => ?_) (fun t' => ?_) (fun q' hq t' => ?_) (fun t' ht' => ?_) ?_,
    hready, ?_⟩
  · rw [hqueues, hhead, htail, hm, hsecond.1]
    refine if_congr Iff.rfl ?_ rfl
    congr 1
    · cases l₁ with
      | nil => rfl
      | cons c l => rw [if_neg (by simp)]; rfl
    · rcases List.eq_nil_or_concat l₂ with rfl | ⟨l, c, rfl⟩
      · rw [List.getLast?_concat, if_pos rfl, List.append_nil]
      · rw [List.concat_eq_append] at hnot ⊢
        have hne : c ≠ t := by
          rintro rfl
          exact hnot.2 (List.mem_append_right l (List.mem_singleton_self _))
        rw [← List.cons_append, ← List.append_assoc, ← List.append_assoc, List.getLast?_concat, List.getLast?_concat,
          if_neg fun hx => hne (Option.some.inj hx)]
  · rcases List.eq_nil_or_concat l₁ with rfl | ⟨l, c, rfl⟩
    · rw [List.nil_append]
      refine hsecond.2.congr fun t' ht' => ?_
      rw [hnext t', List.getLast?_nil, if_neg nofun]
      rintro rfl
      exact hnot.2 ht'
    · rw [List.concat_eq_append] at *
      rw [hm, List.append_assoc] at hlinked hnodup
      have hunlinked := hlinked.unlink hnodup
      have hfirst : (s.queues q).head = (l ++ [c] ++ l₂).head? := by
        rw [hhead, hm]
        cases l <;> rfl
      rw [hfirst, show l ++ c :: l₂ = l ++ [c] ++ l₂ by simp] at hunlinked
      refine hunlinked.congr fun t' ht' => ?_
      rw [hnext t' ((hmem t').mp ht').2, List.getLast?_concat, update_apply]
      exact if_congr ⟨fun hx => (Option.some.inj hx).symm, fun hx => congrArg some hx.symm⟩ rfl rfl
  · rw [hm, List.nodup_middle] at hnodup
    exact (List.nodup_cons.mp hnodup).2
  · have hne : t' ≠ t := by
      rintro rfl
      exact hq (Option.some.inj (((h.mem q' t').mp ht').symm.trans hwait))
    rw [hnext t' hne, if_neg]
    intro hx
    refine hq (h.unique ht' ?_)
    rw [hm]
    exact List.mem_append_left _ (List.mem_of_getLast? hx)
  · rw [hmem, h.mem, (hwaits t').1]
    split
    · rename_i hx
      exact ⟨fun hy => absurd hx hy.2, nofun⟩
    · rename_i hx
      rw [and_iff_left hx]
  · rw [(hwaits t').1]
    split
    · rename_i hx
      rw [hx, hwait]
      exact ⟨nofun, fun hy => absurd (Option.some.inj hy).symm hq⟩
    · rfl
  · rw [(hwaits t').1] at ht'
    rw [(hwaits t').2]
    split at ht'
    · cases ht'
    · exact h.blocked t' ht'
  · rw [(hwaits _).1]
    split
    · rfl
    · exact h.idle
  · rw [(hwaits t).1, if_pos rfl]

theorem Queued.wakeTask (h : Queued s members) : wp (schedulerWakeTask t)
    (fun _ u => (∃ members', Queued u members' ∧ ∀ q, members' q = (members q).erase t) ∧ u.ready = s.ready) (fun _ u => u = s) s := by
  unfold schedulerWakeTask
  simp only [wp_bind, wp_get, wp_failIf, wp_modify]
  refine ⟨fun _ => trivial, fun _ => ?_⟩
  cases hq : (s.tasks t).waitQueue with
  | none =>
    refine ⟨⟨members, h.same (sameQueues_setTask hq hq), fun q => (List.erase_of_not_mem fun hx => ?_).symm⟩, rfl⟩
    have := (h.mem q t).mp hx
    rw [hq] at this
    cases this
  | some q =>
    obtain ⟨l₁, l₂, hm⟩ := List.append_of_mem ((h.mem q t).mpr hq)
    obtain ⟨hremoved, hready, hnone⟩ := h.remove hm
    refine ⟨⟨_, hremoved.same (sameQueues_setTask hnone hnone), fun q' => ?_⟩, hready⟩
    rw [update_apply]
    split
    · rename_i hx
      have hnodup := h.nodup q
      rw [hm, List.nodup_middle, List.nodup_cons, List.mem_append, not_or] at hnodup
      rw [hx, hm, List.erase_append_right _ hnodup.1.1, List.erase_cons_head]
    · rename_i hx
      exact (List.erase_of_not_mem fun hy => hx (h.unique hy ((h.mem q t).mpr hq))).symm

end Scheduler
end InferenceOS
