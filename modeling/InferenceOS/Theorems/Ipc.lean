import InferenceOS.Kernel.Ipc
import InferenceOS.Theorems.Handles
import InferenceOS.Theorems.WaitQueues

/-! What the calls on endpoints and services do: each lemma names the states that a call can end in. -/

namespace InferenceOS
open Program HandleTables

namespace IpcWorld
variable {w : IpcWorld} {e x : EndpointRef} {endpoint : Endpoint}

theorem setEndpoint_endpoints : (w.setEndpoint e endpoint).endpoints x = if x = e then endpoint else w.endpoints x :=
  Function.update_apply _ _ _ _

theorem setService_services {service other : TrustedService} {entry : TrustedServiceEntry} :
    (w.setService service entry).services other = if other = service then entry else w.services other :=
  Function.update_apply _ _ _ _

end IpcWorld

namespace Kernel
open IpcWorld
variable {s u : Kernel} {p : ProcessRef} {e : EndpointRef} {handle : Handle} {rights : BitVec 64} {service : TrustedService}
  {out block : Bool} {request : SendRequest} {queueDepth : Nat}

def withWorld (s : Kernel) (w : IpcWorld) : Kernel := { s with world := w }

def withScheduler (s : Kernel) (scheduler : Scheduler IpcQueue) : Kernel := s.withWorld { s.world with scheduler }

theorem resolveEndpoint_eq_ok (h : s.resolveEndpoint p handle rights = .ok e) : s.world.ipcReady = true ∧
    (s.world.endpoints e).allocated = true ∧ (s.world.endpoints e).revoked = false ∧ ∃ i, (s.entry p i).object = some e := by
  unfold resolveEndpoint at h
  split at h
  · cases h
  · rename_i hready
    obtain ⟨x, hx, h⟩ := of_bind_ok h
    obtain ⟨hlive, h⟩ := of_check h
    cases h
    simp only [not_or, Bool.not_eq_false, Bool.not_eq_true] at hready hlive
    obtain ⟨i, -, hi⟩ := HandleTable.handleTableResolve_eq_ok hx
    exact ⟨hready, hlive.1, hlive.2, i, hi⟩

def ownerRights : BitVec 64 := rightWait ||| rightSignal ||| rightDuplicate ||| rightTransfer ||| rightAdminister

def clientRights : BitVec 64 := rightSignal ||| rightDuplicate ||| rightTransfer

def Granted (s u : Kernel) (w : IpcWorld) (p : ProcessRef) (e : EndpointRef) (rights : BitVec 64) (issued : Handle) : Prop :=
  ∃ i, (s.withWorld w).Insertable p i (some e) .ipcEndpoint rights ∧ issued = encodeHandle i (s.entry p i).generation ∧
    u = (s.withWorld w).fill p i (some e) .ipcEndpoint rights (some endpointRetain) (some endpointRelease)

theorem create_spec : wp (ipcEndpointCreate p queueDepth out)
    (fun issued u => ∃ e, (s.world.endpoints e).allocated = false ∧ 0 < queueDepth ∧ queueDepth ≤ ipcMaxQueueDepth ∧
      s.Granted u (created e (s.world.processes p) queueDepth s.world) p e ownerRights issued)
    (fun _ u => u = s ∨ ∃ e, (s.world.endpoints e).allocated = false ∧
      u = s.withWorld (clear e (created e (s.world.processes p) queueDepth s.world))) s := by
  unfold ipcEndpointCreate
  simp only [wp_bind, wp_get, wp_failIf]
  refine ⟨fun _ => Or.inl trivial, fun hargs => ?_⟩
  simp only [not_or, not_lt] at hargs
  rcases hfree : freeEndpoint s.world with _ | e
  · exact Or.inl rfl
  · have hempty := List.find?_some hfree
    simp only [decide_eq_true_eq] at hempty
    simp only [modifyWorld, wp_bind, wp_modify, wp_attempt]
    refine wp_mono insert_spec (fun issued u hx => ?_) fun status u hu => ?_
    · obtain ⟨i, hi, hh, hu⟩ := hx
      exact ⟨e, hempty, Nat.pos_of_ne_zero hargs.2.2.2.1, hargs.2.2.2.2, i, hi, hh, hu⟩
    · simp only [wp_bind, wp_modify, wp_fail]
      rw [hu]
      exact Or.inr ⟨e, hempty, rfl⟩

/-- A sender may write to an endpoint. -/
structure SendsTo (s : Kernel) (p : ProcessRef) (handle : Handle) (request : SendRequest) (e : EndpointRef) : Prop where
  wellFormed : ¬request.IsMalformed
  resolved : s.resolveEndpoint p handle rightSignal = .ok e

/-- A receiver may read from an endpoint. -/
structure ReceivesFrom (s : Kernel) (p : ProcessRef) (handle : Handle) (out : Bool) (e : EndpointRef) : Prop where
  buffer : out = true
  resolved : s.resolveEndpoint p handle rightWait = .ok e
  owner : (s.world.endpoints e).ownerProcessId = (s.world.processes p).processId

def Sleeps (s u : Kernel) (q : IpcQueue) : Prop := ∃ current, s.world.scheduler.CanBlock current ∧
  u = s.withScheduler ((s.world.scheduler.asleep current q).enqueue q current).switch

theorem onScheduler_spec {q : IpcQueue} : wp (onScheduler (Scheduler.schedulerBlockCurrent q)) (fun _ u => s.Sleeps u q)
    (fun _ u => u = s ∧ ∀ current, ¬s.world.scheduler.CanBlock current) s := by
  unfold onScheduler
  rw [wp_zoom]
  refine wp_mono Scheduler.block_spec (fun _ u ⟨current, hc, hu⟩ => ⟨current, hc, ?_⟩) fun _ u ⟨hu, hc⟩ => ⟨?_, hc⟩
  · rw [hu]
    rfl
  · rw [hu]

theorem send_spec : wp (ipcSend p handle request block)
    (fun _ u => ∃ e, s.SendsTo p handle request e ∧
      ((s.world.endpoints e).count = (s.world.endpoints e).capacity ∧ block = true ∧ s.Sleeps u (.senders e) ∨
        (s.world.endpoints e).count ≠ (s.world.endpoints e).capacity ∧
          u = s.withWorld (sent e (request.message (s.world.processes p)) s.world)))
    (fun error u => u = s ∧ ∀ e, s.SendsTo p handle request e → (s.world.endpoints e).count = (s.world.endpoints e).capacity ∧
      (block = false ∧ error = .wouldBlock ∨ block = true ∧ ∀ current, ¬s.world.scheduler.CanBlock current)) s := by
  unfold ipcSend
  simp only [wp_bind, wp_get, wp_failIf, wp_ofExcept]
  refine ⟨fun hbad => ⟨trivial, fun e he => absurd hbad he.wellFormed⟩, fun hgood => ⟨fun e he => ?_, fun error herror =>
    ⟨trivial, fun e he => (by cases herror.symm.trans he.resolved)⟩⟩⟩
  have hunique : ∀ x, s.SendsTo p handle request x → x = e := fun x hx => Except.ok.inj (hx.resolved.symm.trans he)
  rw [wp_ite]
  refine ⟨fun hfull => ?_, fun hroom => ⟨e, ⟨hgood, he⟩, Or.inr ⟨hroom, rfl⟩⟩⟩
  cases block with
  | true =>
    refine wp_mono onScheduler_spec (fun _ u hu => ⟨e, ⟨hgood, he⟩, Or.inl ⟨hfull, rfl, hu⟩⟩) fun error u hx => ?_
    obtain ⟨hu, hc⟩ := hx
    refine ⟨hu, fun x hx => ?_⟩
    rw [hunique x hx]
    exact ⟨hfull, Or.inr ⟨rfl, hc⟩⟩
  | false =>
    refine ⟨rfl, fun x hx => ?_⟩
    rw [hunique x hx]
    exact ⟨hfull, Or.inl ⟨rfl, rfl⟩⟩

theorem receive_spec : wp (ipcReceive p handle out block)
    (fun v u => ∃ e, s.ReceivesFrom p handle out e ∧
      ((s.world.endpoints e).count = 0 ∧ block = true ∧ v = none ∧ s.Sleeps u (.receivers e) ∨
        (s.world.endpoints e).count ≠ 0 ∧ v = some (s.world.endpoints e).front ∧ u = s.withWorld (received e s.world)))
    (fun error u => u = s ∧ ∀ e, s.ReceivesFrom p handle out e → (s.world.endpoints e).count = 0 ∧
      (block = false ∧ error = .wouldBlock ∨ block = true ∧ ∀ current, ¬s.world.scheduler.CanBlock current)) s := by
  unfold ipcReceive
  simp only [wp_bind, wp_get, wp_failIf, wp_ofExcept]
  refine ⟨fun hnull => ⟨trivial, fun e he => (by cases hnull.symm.trans he.buffer)⟩, fun hout => ⟨fun e he =>
    ⟨fun hforeign => ⟨trivial, fun x hx => ?_⟩, fun howner => ?_⟩, fun error herror =>
    ⟨trivial, fun e he => (by cases herror.symm.trans he.resolved)⟩⟩⟩
  · rw [Except.ok.inj (hx.resolved.symm.trans he)] at hx
    exact absurd hx.owner hforeign
  have howner' := not_not.mp howner
  have hout' : out = true := by simpa using hout
  have hunique : ∀ x, s.ReceivesFrom p handle out x → x = e := fun x hx => Except.ok.inj (hx.resolved.symm.trans he)
  rw [wp_ite]
  refine ⟨fun hempty => ?_, fun hsome => ⟨e, ⟨hout', he, howner'⟩, Or.inr ⟨hsome, rfl, rfl⟩⟩⟩
  cases block with
  | true =>
    rw [if_pos rfl, wp_bind]
    refine wp_mono onScheduler_spec (fun _ u hu => ⟨e, ⟨hout', he, howner'⟩, Or.inl ⟨hempty, rfl, rfl, hu⟩⟩) fun error u hx => ?_
    obtain ⟨hu, hc⟩ := hx
    refine ⟨hu, fun x hx => ?_⟩
    rw [hunique x hx]
    exact ⟨hempty, Or.inr ⟨rfl, hc⟩⟩
  | false =>
    refine ⟨rfl, fun x hx => ?_⟩
    rw [hunique x hx]
    exact ⟨hempty, Or.inl ⟨rfl, rfl⟩⟩

theorem trust_spec {service : Option TrustedService} {identity : Nat} : wp (ipcTrustService service identity)
    (fun _ u => ∃ name entry, service = some name ∧ entry.endpoint = (s.world.services name).endpoint ∧
      u = s.withWorld (s.world.setService name entry)) (fun _ u => u = s) s := by
  unfold ipcTrustService
  rw [wp_bind, wp_get]
  cases service with
  | none => exact rfl
  | some name =>
    simp only [wp_bind, wp_failIf, modifyWorld, wp_modify]
    refine ⟨fun _ => trivial, fun _ => ⟨fun _ => trivial, fun _ => ?_⟩⟩
    exact ⟨name, { s.world.services name with trustedApplicationIdentity := identity }, rfl, rfl, rfl⟩

/-- A provider may register an endpoint for a service. -/
structure Registers (s : Kernel) (p : ProcessRef) (service : TrustedService) (handle : Handle) (e : EndpointRef) : Prop where
  ready : s.world.ipcReady = true
  trusted : (s.world.services service).trustedApplicationIdentity ≠ 0
  provider : (s.world.services service).trustedApplicationIdentity = (s.world.processes p).applicationIdentity
  resolved : s.resolveEndpoint p handle (rightAdminister ||| rightWait) = .ok e
  owner : (s.world.endpoints e).ownerProcessId = (s.world.processes p).processId
  other : (s.world.services service).endpoint ≠ some e

theorem register_spec {service : Option TrustedService} : wp (ipcServiceRegister p service handle)
    (fun _ u => ∃ name e entry, service = some name ∧ s.Registers p name handle e ∧ entry.endpoint = some e ∧
      u = s.withWorld (((s.world.services name).endpoint.elim (endpointRetain e s.world)
        (revoke · (endpointRetain e s.world))).setService name entry))
    (fun _ u => u = s ∧ ∀ name, service = some name → ∀ e, ¬s.Registers p name handle e) s := by
  unfold ipcServiceRegister
  rw [wp_bind, wp_get]
  cases service with
  | none => exact ⟨rfl, fun _ hx => by cases hx⟩
  | some name =>
    simp only [wp_bind, wp_failIf, wp_ofExcept, modifyWorld, wp_modify]
    refine ⟨fun hnot => ⟨trivial, fun n hn e he => ?_⟩, fun hready => ⟨fun huntrusted => ⟨trivial, fun n hn e he => ?_⟩,
      fun htrusted => ⟨fun e he => ⟨fun hforeign => ⟨trivial, fun n hn x hx => ?_⟩, fun howner =>
        ⟨fun hsame => ⟨trivial, fun n hn x hx => ?_⟩, fun hother => ?_⟩⟩, fun error herror => ⟨trivial, fun n hn e he => ?_⟩⟩⟩⟩
    · cases hnot.symm.trans he.ready
    · cases hn
      exact huntrusted.elim he.trusted fun hx => hx he.provider
    · cases hn
      rw [Except.ok.inj (hx.resolved.symm.trans he)] at hx
      exact hforeign hx.owner
    · cases hn
      rw [Except.ok.inj (hx.resolved.symm.trans he)] at hx
      exact hx.other hsame
    · simp only [not_or, not_not, Bool.not_eq_false] at hready htrusted howner
      exact ⟨name, e, _, rfl, ⟨hready, htrusted.1, htrusted.2, he, howner, hother⟩, rfl, rfl⟩
    · cases herror.symm.trans he.resolved

theorem connect_spec {service : Option TrustedService} : wp (ipcServiceConnect p service out)
    (fun issued u => ∃ name e, service = some name ∧ (s.world.services name).endpoint = some e ∧
      s.Granted u (endpointRetain e s.world) p e clientRights issued)
    (fun _ u => u = s ∨ ∃ name e, (s.world.services name).endpoint = some e ∧
      u = s.withWorld (endpointRelease e (endpointRetain e s.world))) s := by
  unfold ipcServiceConnect
  rw [wp_bind, wp_get]
  cases service with
  | none => exact Or.inl rfl
  | some name =>
    simp only [wp_bind, wp_failIf]
    refine ⟨fun _ => Or.inl trivial, fun _ => ?_⟩
    cases he : (s.world.services name).endpoint with
    | none => exact Or.inl rfl
    | some e =>
      simp only [wp_bind, wp_failIf, modifyWorld, wp_modify, wp_attempt]
      refine ⟨fun _ => Or.inl trivial, fun _ => ?_⟩
      refine wp_mono insert_spec (fun issued u hx => by obtain ⟨i, hi, hh, hu⟩ := hx; exact ⟨name, e, rfl, he, i, hi, hh, hu⟩) fun status u hu => ?_
      simp only [wp_bind, wp_modify, wp_fail]
      rw [hu]
      exact Or.inr ⟨name, e, he, rfl⟩

/-- A provider may take an endpoint from a service. -/
structure Unregisters (s : Kernel) (p : ProcessRef) (service : TrustedService) (e : EndpointRef) : Prop where
  ready : s.world.ipcReady = true
  endpoint : (s.world.services service).endpoint = some e
  provider : (s.world.services service).providerProcessId = (s.world.processes p).processId
  trusted : (s.world.services service).trustedApplicationIdentity = (s.world.processes p).applicationIdentity

theorem unregister_spec {service : Option TrustedService} : wp (ipcServiceUnregister p service)
    (fun _ u => ∃ name e entry, service = some name ∧ s.Unregisters p name e ∧ entry.endpoint = none ∧
      u = s.withWorld ((revoke e s.world).setService name entry))
    (fun _ u => u = s ∧ ∀ name, service = some name → ∀ e, ¬s.Unregisters p name e) s := by
  unfold ipcServiceUnregister
  rw [wp_bind, wp_get]
  cases service with
  | none => exact ⟨rfl, fun _ hx => by cases hx⟩
  | some name =>
    simp only [wp_bind, wp_failIf]
    refine ⟨fun hnot => ⟨trivial, fun n hn e he => (by cases hnot.symm.trans he.ready)⟩, fun hready => ?_⟩
    cases he : (s.world.services name).endpoint with
    | none =>
      refine ⟨rfl, fun n hn e hx => ?_⟩
      cases hn
      cases he.symm.trans hx.endpoint
    | some e =>
      simp only [wp_bind, wp_failIf, modifyWorld, wp_modify]
      refine ⟨fun hforeign => ⟨trivial, fun n hn x hx => ?_⟩, fun hown => ?_⟩
      · cases hn
        exact hforeign.elim (fun hy => hy hx.provider) fun hy => hy hx.trusted
      · simp only [not_or, not_not, Bool.not_eq_false] at hready hown
        exact ⟨name, e, _, rfl, ⟨hready, he, hown.1, hown.2⟩, rfl, rfl⟩

end Kernel
end InferenceOS
