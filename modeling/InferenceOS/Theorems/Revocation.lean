import InferenceOS.Theorems.KernelRuns

/-! Tasks that wait for an endpoint. When the last reference goes, all of them are woken; when an endpoint is only
    revoked, they stay in its queues. -/

namespace InferenceOS
open Program HandleTables Scheduler Function KernelCall
variable {x : EndpointRef}

namespace IpcWorld
variable {w w' : IpcWorld} {e : EndpointRef} {members members' : IpcQueue → List TaskRef}
variable {q : IpcQueue}

def Waits (w : IpcWorld) (q : IpcQueue) (t : TaskRef) : Prop :=
  ∃ l, Linked w.scheduler.next (w.scheduler.queues q).head l ∧ t ∈ l

def Unwaited (w : IpcWorld) (e : EndpointRef) : Prop := ∀ t, ¬w.Waits (.receivers e) t ∧ ¬w.Waits (.senders e) t

def Gone (w : IpcWorld) (e : EndpointRef) : Prop := (w.endpoints e).allocated = false ∨ (w.endpoints e).revoked = true

/-- No one waits for an endpoint that is gone. -/
def Released (w : IpcWorld) : Prop := ∀ e, w.Gone e → w.Unwaited e

/-- The wait queues are lists of tasks. -/
structure Tended (w : IpcWorld) (members : IpcQueue → List TaskRef) : Prop where
  queued : w.scheduler.Queued members
  ready : w.scheduler.ready = true

theorem Tended.waits_iff (h : Tended w members) {t : TaskRef} : w.Waits q t ↔ t ∈ members q := by
  constructor
  · rintro ⟨l, hl, ht⟩
    rwa [hl.unique (h.queued.linked q)] at ht
  · exact fun ht => ⟨members q, h.queued.linked q, ht⟩

theorem Tended.unwaited_iff (h : Tended w members) : w.Unwaited e ↔ members (.receivers e) = [] ∧ members (.senders e) = [] := by
  unfold Unwaited
  simp only [h.waits_iff, List.eq_nil_iff_forall_not_mem]
  exact forall_and

theorem Released.frame (h : Released w) (hs : w'.scheduler = w.scheduler) (hgone : ∀ e, w'.Gone e → w.Gone e) : Released w' := by
  intro e he
  have hwaits := h e (hgone e he)
  unfold Unwaited Waits at hwaits ⊢
  rw [hs]
  exact hwaits

theorem Released.leave (h : Released w) (ht : Tended w members) (ht' : Tended w' members')
    (hgone : ∀ e, w'.Gone e → w.Gone e) (hempty : ∀ q, members q = [] → members' q = []) : Released w' := by
  intro e he
  obtain ⟨hreceivers, hsenders⟩ := ht.unwaited_iff.mp (h e (hgone e he))
  exact ht'.unwaited_iff.mpr ⟨hempty _ hreceivers, hempty _ hsenders⟩

theorem Released.update (h : Released w) (ht : Tended w members) {l : List TaskRef}
    (ht' : Tended w' (update members q l)) (hgone : ∀ e, w'.Gone e → w.Gone e)
    (hq : ∀ e, w.Gone e → q ≠ .receivers e ∧ q ≠ .senders e) : Released w' := by
  intro e he
  have hgone' := hgone e he
  obtain ⟨hreceivers, hsenders⟩ := ht.unwaited_iff.mp (h e hgone')
  refine ht'.unwaited_iff.mpr ⟨?_, ?_⟩
  · rwa [update_of_ne (hq e hgone').1.symm]
  · rwa [update_of_ne (hq e hgone').2.symm]

def Settled (w : IpcWorld) : Prop := (∃ members, w.Tended members) ∧ w.Released

theorem Settled.frame (h : Settled w) (hs : w'.scheduler = w.scheduler) (hgone : ∀ e, w'.Gone e → w.Gone e) : Settled w' := by
  obtain ⟨⟨members, ht⟩, hr⟩ := h
  refine ⟨⟨members, ?_, ?_⟩, hr.frame hs hgone⟩
  · rw [hs]
    exact ht.queued
  · rw [hs]
    exact ht.ready

theorem retain_scheduler : (endpointRetain e w).scheduler = w.scheduler := by
  unfold endpointRetain
  dsimp only
  split <;> rfl

theorem retain_other {x : EndpointRef} (hx : x ≠ e) : (endpointRetain e w).endpoints x = w.endpoints x := by
  unfold endpointRetain
  dsimp only
  split
  · rw [setEndpoint_endpoints, if_neg hx]
  · rfl

theorem gone_setEndpoint {endpoint : Endpoint} {x : EndpointRef} (ha : endpoint.allocated = (w.endpoints e).allocated)
    (hr : endpoint.revoked = (w.endpoints e).revoked) : (w.setEndpoint e endpoint).Gone x ↔ w.Gone x := by
  unfold Gone
  rw [setEndpoint_endpoints]
  split
  · rename_i hx
    rw [hx, ha, hr]
  · rfl

theorem gone_retain : (endpointRetain e w).Gone x ↔ w.Gone x := by
  unfold endpointRetain
  dsimp only
  split
  · exact gone_setEndpoint rfl rfl
  · rfl

theorem release_more (h : ¬((w.endpoints e).allocated = true ∧ (w.endpoints e).referenceCount = 1)) :
    (endpointRelease e w).scheduler = w.scheduler ∧ ∀ x, (endpointRelease e w).Gone x ↔ w.Gone x := by
  unfold endpointRelease
  dsimp only
  split
  · rename_i hlive
    rw [if_neg]
    · exact ⟨rfl, fun x => gone_setEndpoint rfl rfl⟩
    · intro hzero
      exact h ⟨hlive.1, by omega⟩
  · exact ⟨rfl, fun _ => Iff.rfl⟩

theorem clear_scheduler (hq : w.scheduler.Queued members) (hreceivers : members (.receivers e) = [])
    (hsenders : members (.senders e) = []) : (clear e w).scheduler = w.scheduler := by
  show (w.scheduler.setQueue (.receivers e) ⟨none, none⟩).setQueue (.senders e) ⟨none, none⟩ = _
  rw [hq.setQueue_empty hreceivers, hq.setQueue_empty hsenders]

def woken (e : EndpointRef) (w : IpcWorld) : IpcWorld :=
  { w with scheduler := (w.scheduler.waitQueueWakeAll (.receivers e)).waitQueueWakeAll (.senders e) }

def without (members : IpcQueue → List TaskRef) (e : EndpointRef) : IpcQueue → List TaskRef :=
  update (update members (.receivers e) []) (.senders e) []

theorem without_receivers : without members e (.receivers x) = if x = e then [] else members (.receivers x) := by
  have hne : IpcQueue.receivers x ≠ .senders e := nofun
  simp only [without, update_of_ne hne, update_apply, IpcQueue.receivers.injEq]

theorem without_senders : without members e (.senders x) = if x = e then [] else members (.senders x) := by
  have hne : IpcQueue.senders x ≠ .receivers e := nofun
  simp only [without, update_apply, IpcQueue.senders.injEq, if_neg hne]

theorem release_last (ht : w.Tended members) (ha : (w.endpoints e).allocated = true) (hone : (w.endpoints e).referenceCount = 1)
    (hother : ∀ x, x ≠ e → w.Gone x → w.Unwaited x) : (endpointRelease e w).Settled := by
  obtain ⟨hfirst, hready⟩ := @Queued.wakeAll _ _ _ (.receivers e) _ ht.queued ht.ready
  obtain ⟨hwoken, hready'⟩ := @Queued.wakeAll _ _ _ (.senders e) _ hfirst hready
  have hscheduler := clear_scheduler (w := woken e w) hwoken (by rw [← without, without_receivers, if_pos rfl])
    (by rw [← without, without_senders, if_pos rfl])
  have htended : (clear e (woken e w)).Tended (without members e) :=
    ⟨by rw [hscheduler]; exact hwoken, by rw [hscheduler]; exact hready'⟩
  unfold endpointRelease
  dsimp only
  rw [if_pos ⟨ha, by omega⟩, if_pos (by omega)]
  refine ⟨⟨_, htended⟩, fun x hx => htended.unwaited_iff.mpr ?_⟩
  rw [without_receivers, without_senders]
  split
  · exact ⟨rfl, rfl⟩
  · rename_i hne
    have hsame : (clear e (woken e w)).endpoints x = w.endpoints x := update_of_ne hne _ _
    have hgone : (clear e (woken e w)).Gone x := hx
    unfold Gone at hgone
    rw [hsame] at hgone
    exact ht.unwaited_iff.mp (hother x hne hgone)

theorem Settled.release (h : Settled w) : Settled (endpointRelease e w) := by
  obtain ⟨⟨members, ht⟩, hr⟩ := h
  by_cases hlast : (w.endpoints e).allocated = true ∧ (w.endpoints e).referenceCount = 1
  · exact release_last ht hlast.1 hlast.2 fun x _ hx => hr x hx
  · obtain ⟨hscheduler, hgone⟩ := @release_more w e hlast
    exact Settled.frame ⟨⟨members, ht⟩, hr⟩ hscheduler fun x => (hgone x).mp

theorem Settled.retain (h : Settled w) : Settled (endpointRetain e w) :=
  h.frame retain_scheduler fun _ => gone_retain.mp

theorem stable_settled : Stable Settled := ⟨fun _ _ => Settled.retain, fun _ _ => Settled.release⟩

def Frees (w : IpcWorld) (e : EndpointRef) : Prop := (w.endpoints e).referenceCount = 1 ∨ w.Unwaited e

theorem Settled.revoke (h : Settled w) (ha : (w.endpoints e).allocated = true) (hf : w.Frees e) : Settled (Kernel.revoke e w) := by
  obtain ⟨⟨members, ht⟩, hr⟩ := h
  have hendpoint : (w.setEndpoint e { w.endpoints e with revoked := true }).endpoints e =
      { w.endpoints e with revoked := true } := by
    rw [setEndpoint_endpoints, if_pos rfl]
  have hrevoked : (w.setEndpoint e { w.endpoints e with revoked := true }).Tended members := ⟨ht.queued, ht.ready⟩
  have hother : ∀ x, x ≠ e → (w.setEndpoint e { w.endpoints e with revoked := true }).Gone x → w.Unwaited x := by
    intro x hx hgone
    unfold Gone at hgone
    rw [setEndpoint_endpoints, if_neg hx] at hgone
    exact hr x hgone
  cases hf with
  | inl hone => exact release_last hrevoked (by rw [hendpoint]; exact ha) (by rw [hendpoint]; exact hone) hother
  | inr hwaits =>
    refine Settled.release ⟨⟨members, hrevoked⟩, fun x hx => ?_⟩
    by_cases heq : x = e
    · rw [heq]
      exact hwaits
    · exact hother x heq hx

theorem not_released_revoke (hf : ¬w.Frees e) : ¬(Kernel.revoke e w).Released := by
  obtain ⟨hmore, hwaits⟩ := not_or.mp hf
  have hendpoint : (w.setEndpoint e { w.endpoints e with revoked := true }).endpoints e =
      { w.endpoints e with revoked := true } := by
    rw [setEndpoint_endpoints, if_pos rfl]
  obtain ⟨hscheduler, hgone⟩ := @release_more (w.setEndpoint e { w.endpoints e with revoked := true }) e
    (by rw [hendpoint]; exact fun hx => hmore hx.2)
  intro hr
  refine hwaits ?_
  have hunwaited := hr e ((hgone e).mpr (Or.inr (by rw [hendpoint])))
  unfold Unwaited Waits Kernel.revoke at hunwaited
  rw [hscheduler] at hunwaited
  exact hunwaited

theorem Settled.create (h : Settled w) (he : (w.endpoints e).allocated = false) {owner : ProcessIdentity} {depth : Nat} :
    Settled (Kernel.created e owner depth w) ∧ Settled (clear e (Kernel.created e owner depth w)) := by
  obtain ⟨⟨members, ht⟩, hr⟩ := h
  obtain ⟨hreceivers, hsenders⟩ := ht.unwaited_iff.mp (hr e (Or.inl he))
  have hcreated : (Kernel.created e owner depth w).scheduler = w.scheduler := clear_scheduler ht.queued hreceivers hsenders
  have hother : ∀ x, x ≠ e → (Kernel.created e owner depth w).endpoints x = w.endpoints x := by
    intro x hx
    unfold Kernel.created
    rw [setEndpoint_endpoints, if_neg hx]
    exact update_of_ne hx _ _
  constructor
  · refine Settled.frame ⟨⟨members, ht⟩, hr⟩ hcreated fun x hx => ?_
    by_cases heq : x = e
    · rw [heq]
      exact Or.inl he
    · unfold Gone at hx ⊢
      rwa [hother x heq] at hx
  · have hqueued : (Kernel.created e owner depth w).scheduler.Queued members := by
      rw [hcreated]
      exact ht.queued
    have hcleared := (clear_scheduler hqueued hreceivers hsenders).trans hcreated
    refine Settled.frame ⟨⟨members, ht⟩, hr⟩ hcleared fun x hx => ?_
    by_cases heq : x = e
    · rw [heq]
      exact Or.inl he
    · have hsame : (clear e (Kernel.created e owner depth w)).endpoints x = w.endpoints x :=
        (update_of_ne heq _ _).trans (hother x heq)
      unfold Gone at hx ⊢
      rwa [hsame] at hx

theorem Settled.wake (h : Settled w) {ring : Ring IpcMessage} :
    Settled { w.setEndpoint e { w.endpoints e with toRing := ring } with scheduler := (w.scheduler.waitQueueWakeOne q).2 } := by
  obtain ⟨⟨members, ht⟩, hr⟩ := h
  obtain ⟨-, hqueued, hready⟩ := @Queued.wakeOne _ _ _ q _ ht.queued ht.ready
  have ht' : Tended { w.setEndpoint e { w.endpoints e with toRing := ring } with
      scheduler := (w.scheduler.waitQueueWakeOne q).2 } (update members q (members q).tail) := ⟨hqueued, hready⟩
  have hgone : ∀ x, (w.setEndpoint e { w.endpoints e with toRing := ring }).Gone x → w.Gone x :=
    fun x => (@gone_setEndpoint w e { w.endpoints e with toRing := ring } x rfl rfl).mp
  refine ⟨⟨_, ht'⟩, hr.leave ht ht' hgone fun q' hq' => ?_⟩
  rw [update_apply]
  split
  · rename_i hq
    rw [← hq, hq']
    rfl
  · exact hq'

theorem Settled.sleep (h : Settled w) {current : TaskRef} (hc : w.scheduler.CanBlock current)
    (hq : ∀ e, w.Gone e → q ≠ .receivers e ∧ q ≠ .senders e) :
    Settled { w with scheduler := ((w.scheduler.asleep current q).enqueue q current).switch } := by
  obtain ⟨⟨members, ht⟩, hr⟩ := h
  obtain ⟨hqueued, hready⟩ := @Queued.block _ _ _ q _ _ ht.queued hc
  have ht' : Tended { w with scheduler := ((w.scheduler.asleep current q).enqueue q current).switch }
      (update members q (members q ++ [current])) := ⟨hqueued, hready.trans ht.ready⟩
  exact ⟨⟨_, ht'⟩, hr.update ht ht' (fun _ hx => hx) hq⟩

end IpcWorld

namespace Kernel
open IpcWorld
variable {s u : Kernel} {tr : Trace}

/-- A call that revokes an endpoint drops the last reference to it, or no task waits for it. -/
def Quiet (s : Kernel) : KernelCall → Prop
  | .register p service handle => ∀ name, service = some name → ∀ e, s.Registers p name handle e →
      ∀ old, (s.world.services name).endpoint = some old → s.world.Frees old
  | .unregister p service => ∀ name, service = some name → ∀ e, s.Unregisters p name e → s.world.Frees e
  | _ => True

theorem Settled.onTasks (h : s.world.Settled) {call : KernelCall} (hcall : call.OnTasks) :
    wp call.run (fun _ u => u.world.Settled) (fun _ u => u.world.Settled) s := by
  obtain ⟨⟨members, ht⟩, hr⟩ := h
  have hleave : ∀ {scheduler : Scheduler IpcQueue} {members' : IpcQueue → List TaskRef}, scheduler.Queued members' →
      scheduler.ready = s.world.scheduler.ready → (∀ q, members q = [] → members' q = []) →
      (s.withScheduler scheduler).world.Settled := by
    intro scheduler members' hqueued hready hempty
    have ht' : Tended (s.withScheduler scheduler).world members' := ⟨hqueued, hready.trans ht.ready⟩
    exact ⟨⟨_, ht'⟩, hr.leave ht ht' (fun _ hx => hx) hempty⟩
  have hsame : (s.withScheduler s.world.scheduler).world.Settled := hleave ht.queued rfl fun _ hx => hx
  cases call with
  | addProcess process runnable =>
    simp only [run, wp_map, onScheduler, wp_zoom]
    refine wp_mono ht.queued.addProcess (fun _ u hu => hleave hu.1 hu.2 fun _ hx => hx) fun _ u hu => ?_
    rw [hu]
    exact hsame
  | selectNext =>
    simp only [run, wp_map, onScheduler, wp_zoom, wp_modify]
    exact hleave ht.queued.selectNext selectNext_ready fun _ hx => hx
  | wakeTask task =>
    simp only [run, wp_map, onScheduler, wp_zoom]
    refine wp_mono ht.queued.wakeTask (fun _ u hx => ?_) fun _ u hu => ?_
    · obtain ⟨⟨members', hqueued, herase⟩, hready⟩ := hx
      refine hleave hqueued hready fun q hq => ?_
      rw [herase, hq]
      rfl
    · rw [hu]
      exact hsame
  | _ => exact hcall.elim

theorem not_gone_of_resolve {p : ProcessRef} {handle : Handle} {rights : BitVec 64} {e : EndpointRef}
    (h : s.resolveEndpoint p handle rights = .ok e) (hx : s.world.Gone x) : x ≠ e := by
  obtain ⟨-, hlive, hrevoked, -⟩ := resolveEndpoint_eq_ok h
  rintro rfl
  rcases hx with hx | hx
  · exact nomatch hx.symm.trans hlive
  · exact nomatch hx.symm.trans hrevoked

theorem Settled.call (hb : Balanced s) (h : s.world.Settled) {call : KernelCall} (hquiet : s.Quiet call) :
    wp call.run (fun _ u => u.world.Settled) (fun _ u => u.world.Settled) s := by
  have hexact := hb.counts.1
  cases call with
  | duplicate | transfer | close | closeAll =>
    exact wp_mono (hb.onHandles stable_settled h trivial) (fun _ _ hu => hu.2) fun _ _ hu => hu.2
  | addProcess | selectNext | wakeTask => exact Settled.onTasks h trivial
  | create p depth out =>
    simp only [run, wp_map]
    refine wp_mono create_spec (fun _ u hx => ?_) fun _ u hu => ?_
    · obtain ⟨e, he, _, _, hg⟩ := hx
      obtain ⟨i, -, -, rfl⟩ := hg
      exact (h.create he).1
    · rcases hu with rfl | ⟨e, he, rfl⟩
      · exact h
      · exact (h.create he).2
  | send p handle request block =>
    simp only [run, wp_map]
    refine wp_mono send_spec (fun _ u hx => ?_) fun _ u hu => hu.1 ▸ h
    obtain ⟨e, hsends, hu⟩ := hx
    rcases hu with ⟨-, -, current, hc, rfl⟩ | ⟨-, rfl⟩
    · exact h.sleep hc fun x hx => ⟨(fun hx => by cases hx), fun hq =>
        not_gone_of_resolve hsends.resolved hx (IpcQueue.senders.inj hq).symm⟩
    · exact h.wake
  | receive p handle out block =>
    simp only [run, wp_map]
    refine wp_mono receive_spec (fun _ u hx => ?_) fun _ u hu => hu.1 ▸ h
    obtain ⟨e, hreceives, hu⟩ := hx
    rcases hu with ⟨-, -, -, current, hc, rfl⟩ | ⟨-, -, rfl⟩
    · exact h.sleep hc fun x hx => ⟨fun hq =>
        not_gone_of_resolve hreceives.resolved hx (IpcQueue.receivers.inj hq).symm, (fun hx => by cases hx)⟩
    · exact h.wake
  | trust service identity =>
    simp only [run, wp_map]
    refine wp_mono trust_spec (fun _ u hx => ?_) fun _ u hu => hu ▸ h
    obtain ⟨name, entry, _, _, hu⟩ := hx
    rw [hu]
    exact h.frame rfl fun _ hx => hx
  | register p service handle =>
    simp only [run, wp_map]
    refine wp_mono register_spec (fun _ u hx => ?_) fun _ u hu => hu.1 ▸ h
    obtain ⟨name, e, entry, hname, hr, _, hu⟩ := hx
    rw [hu]
    have hretained := h.retain (e := e)
    cases hold : (s.world.services name).endpoint with
    | none => exact hretained.frame rfl fun _ hx => hx
    | some old =>
      have hother := hr.other
      rw [hold] at hother
      have hsame := @retain_other s.world e old fun hx => hother (congrArg some hx)
      have hlive := hexact.allocated (Nat.add_pos_right (s.references old) (serviceReferences_pos hold))
      have hrevoked := hretained.revoke (e := old) (by rw [hsame]; exact hlive)
        (by
          have hfrees := hquiet name hname e hr old hold
          unfold Frees Unwaited Waits at hfrees ⊢
          rw [hsame, retain_scheduler]
          exact hfrees)
      exact hrevoked.frame rfl fun _ hx => hx
  | connect p service out =>
    simp only [run, wp_map]
    refine wp_mono connect_spec (fun _ u hx => ?_) fun _ u hu => ?_
    · obtain ⟨name, e, _, _, hg⟩ := hx
      obtain ⟨i, -, -, rfl⟩ := hg
      exact h.retain
    · rcases hu with rfl | ⟨name, e, _, rfl⟩
      · exact h
      · exact h.retain.release
  | unregister p service =>
    simp only [run, wp_map]
    refine wp_mono unregister_spec (fun _ u hx => ?_) fun _ u hu => hu.1 ▸ h
    obtain ⟨name, e, entry, hname, hr, _, hu⟩ := hx
    rw [hu]
    have hlive := hexact.allocated (Nat.add_pos_right (s.references e) (serviceReferences_pos hr.endpoint))
    exact (h.revoke hlive (hquiet name hname e hr)).frame rfl fun _ hx => hx

theorem not_released_of_not_quiet {call : KernelCall} (hloud : ¬s.Quiet call) :
    wp call.run (fun _ u => ¬u.world.Released) (fun _ _ => False) s := by
  cases call with
  | register p service handle =>
    simp only [run, wp_map]
    refine wp_mono register_spec (fun _ u hx hreleased => hloud ?_) fun _ u hu => hloud ?_
    · obtain ⟨name, e, entry, hname, hr, _, hu⟩ := hx
      intro name' hname' e' _ old hold
      rw [hname] at hname'
      cases hname'
      have hother := hr.other
      rw [hold] at hother
      by_contra hfrees
      refine not_released_revoke (w := endpointRetain e s.world) (e := old) (fun hx => hfrees ?_) ?_
      · unfold Frees Unwaited Waits at hx ⊢
        rwa [retain_other fun hx => hother (congrArg some hx), retain_scheduler] at hx
      · rw [hu, hold] at hreleased
        exact hreleased
    · exact fun name hname e hr => absurd hr (hu.2 name hname e)
  | unregister p service =>
    simp only [run, wp_map]
    refine wp_mono unregister_spec (fun _ u hx hreleased => hloud ?_) fun _ u hu => hloud ?_
    · obtain ⟨name, e, entry, hname, hr, _, hu⟩ := hx
      intro name' hname' e' hr'
      rw [hname] at hname'
      cases hname'
      rw [Option.some.inj (hr'.endpoint.symm.trans hr.endpoint)]
      by_contra hfrees
      rw [hu] at hreleased
      exact not_released_revoke hfrees hreleased
    · exact fun name hname e hr => absurd hr (hu.2 name hname e)
  | _ => exact absurd trivial hloud

theorem Booted.settled (h : Booted s) : s.world.Settled := by
  have ht : s.world.Tended fun _ => [] := by
    constructor
    · rw [h.scheduler]
      refine ⟨fun _ => rfl, fun _ => rfl, fun _ => List.nodup_nil, fun q t => ?_, fun t ht => ?_, rfl⟩
      · cases t <;> exact ⟨nofun, nofun⟩
      · cases t <;> cases ht
    · rw [h.scheduler]
      rfl
  exact ⟨⟨_, ht⟩, fun e _ => ht.unwaited_iff.mpr ⟨rfl, rfl⟩⟩

theorem settled_run (h : KernelRun Quiet s tr) : s.world.Settled := by
  induction h with
  | booted hb => exact Booted.settled hb
  | @returned s u tr call v hrun hquiet hr ih =>
    have hcall := wp_ok (Settled.call (balanced_run hrun) ih hquiet) hr
    exact hcall
  | @failed s u tr call error hrun hquiet hr ih =>
    have hcall := wp_error (Settled.call (balanced_run hrun) ih hquiet) hr
    exact hcall

/-- In a run of quiet calls no task waits for an endpoint that is revoked or not allocated, and a further call keeps it
    so exactly when it is quiet. -/
theorem released_iff (h : KernelRun Quiet s tr) :
    s.world.Released ∧ ∀ call : KernelCall, (call.run s).2.world.Released ↔ s.Quiet call := by
  have hsettled := settled_run h
  refine ⟨hsettled.2, fun call => ⟨fun hreleased => ?_, fun hquiet => ?_⟩⟩
  · by_contra hloud
    have hnot := not_released_of_not_quiet hloud
    unfold wp at hnot
    split at hnot
    · rename_i hr
      rw [hr] at hreleased
      exact hnot hreleased
    · exact hnot
  · have hkept := of_wp (P := fun u : Kernel => u.world.Settled) (Settled.call (balanced_run h) hsettled hquiet)
    exact hkept.2

/-- The queue is full, and the task of the process waits for room in it. -/
def waiting : List KernelCall :=
  [.create 0 1 true, .addProcess 0 true, .selectNext, .send 0 0x10000010001 ⟨1, 1, 0, 0, none, 0⟩ false,
    .send 0 0x10000010001 ⟨2, 1, 0, 0, none, 0⟩ true]

theorem released_iff_waiting : ∃ s tr, KernelRun Quiet s tr ∧ (s.world.scheduler.tasks (.slot 0)).state = .blocked ∧
    s.world.Released ∧ ((close 0 0x10000010001).run s).2.world.Gone 0 ∧
    ((close 0 0x10000010001).run s).2.world.Released := by
  have hquiet : ∀ call ∈ waiting, ∀ s, Quiet s call := by
    intro call hcall s
    simp only [waiting, List.mem_cons, List.not_mem_nil, or_false] at hcall
    rcases hcall with rfl | rfl | rfl | rfl | rfl
    all_goals trivial
  have hrun : KernelRun Quiet (runAll waiting boot) _ := .runAll hquiet (.booted booted_boot)
  obtain ⟨hreleased, hnext⟩ := released_iff hrun
  exact ⟨_, _, hrun, by decide +kernel, hreleased, Or.inl (by decide +kernel), (hnext _).mpr trivial⟩

def abandoned : List KernelCall :=
  [.trust (some .shell) 7, .create 0 1 true, .register 0 (some .shell) 0x10000010001, .connect 1 (some .shell) true,
    .send 1 0x20000010001 ⟨1, 1, 0, 0, none, 0⟩ false, .addProcess 1 true, .selectNext,
    .send 1 0x20000010001 ⟨2, 1, 0, 0, none, 0⟩ true, .unregister 0 (some .shell)]

theorem waiter_abandoned : ¬∀ s tr, KernelRun (fun _ _ => True) s tr → s.world.Released := by
  intro hall
  have hrun : KernelRun (fun _ _ => True) (runAll abandoned boot) _ :=
    .runAll (fun _ _ _ => trivial) (.booted booted_boot)
  have hgone : (runAll abandoned boot).world.Gone 0 := Or.inr (by decide +kernel)
  refine (hall _ _ hrun 0 hgone (.slot 0)).2 ⟨[.slot 0], ⟨?_, ?_⟩, List.mem_singleton_self _⟩
  · decide +kernel
  · show Scheduler.next _ _ = none
    decide +kernel

end Kernel
end InferenceOS
