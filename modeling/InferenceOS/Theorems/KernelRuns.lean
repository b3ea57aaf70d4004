import InferenceOS.Theorems.Ipc
import InferenceOS.Theorems.References

/-! Every run of calls on endpoints, services, handles and tasks, by any process and in any order. The reference count
    of an endpoint is the number of handles and of service entries that refer to it. -/

namespace InferenceOS
open Program HandleTables Function

/-- A call with its arguments. -/
inductive KernelCall where
  | create (owner : ProcessRef) (queueDepth : Nat) (out : Bool)
  | send (sender : ProcessRef) (handle : Handle) (request : Kernel.SendRequest) (block : Bool)
  | receive (receiver : ProcessRef) (handle : Handle) (out block : Bool)
  | trust (service : Option TrustedService) (applicationIdentity : Nat)
  | register (provider : ProcessRef) (service : Option TrustedService) (handle : Handle)
  | connect (client : ProcessRef) (service : Option TrustedService) (out : Bool)
  | unregister (provider : ProcessRef) (service : Option TrustedService)
  | duplicate (process : ProcessRef) (source : Handle) (reducedRights : BitVec 64) (out : Bool)
  | transfer (process : ProcessRef) (destination : Option ProcessRef) (source : Handle) (reducedRights : BitVec 64)
    (closeSource out : Bool)
  | close (process : ProcessRef) (handle : Handle)
  | closeAll (process : ProcessRef)
  | addProcess (process : ProcessRef) (runnable : Bool)
  | selectNext
  | wakeTask (task : TaskRef)

/-- What a call returns besides its status. -/
inductive KernelValue where
  | none
  | handle (issued : Handle)
  | message (buffer : Option IpcMessage)
  deriving DecidableEq

namespace KernelCall
open Kernel

/-- The call. -/
def run : KernelCall → Program IosError Kernel KernelValue
  | .create owner queueDepth out => .handle <$> ipcEndpointCreate owner queueDepth out
  | .send sender handle request block => (fun _ => .none) <$> ipcSend sender handle request block
  | .receive receiver handle out block => .message <$> ipcReceive receiver handle out block
  | .trust service applicationIdentity => (fun _ => .none) <$> ipcTrustService service applicationIdentity
  | .register provider service handle => (fun _ => .none) <$> ipcServiceRegister provider service handle
  | .connect client service out => .handle <$> ipcServiceConnect client service out
  | .unregister provider service => (fun _ => .none) <$> ipcServiceUnregister provider service
  | .duplicate process source reducedRights out => .handle <$> handleTableDuplicate process source reducedRights out
  | .transfer process destination source reducedRights closeSource out =>
    .handle <$> handleTableTransfer process destination source reducedRights closeSource out
  | .close process handle => (fun _ => .none) <$> handleTableClose process handle
  | .closeAll process => (fun _ => .none) <$> handleTableCloseAll process
  | .addProcess process runnable => (fun _ => .none) <$> onScheduler (Scheduler.schedulerAddProcess process runnable)
  | .selectNext => (fun _ => .none) <$> onScheduler (modify Scheduler.schedulerSelectNext)
  | .wakeTask task => (fun _ => .none) <$> onScheduler (Scheduler.schedulerWakeTask task)

def OnHandles : KernelCall → Prop
  | .duplicate .. | .transfer .. | .close .. | .closeAll .. => True
  | _ => False

def OnTasks : KernelCall → Prop
  | .addProcess .. | .selectNext | .wakeTask .. => True
  | _ => False

end KernelCall

/-- The messages that were sent to each endpoint since its creation, and those received from it. -/
structure Trace where
  sent : EndpointRef → List IpcMessage
  received : EndpointRef → List IpcMessage

/-- The trace after the call went from `s` to `u` and returned `v`. -/
def KernelCall.trace (s u : Kernel) (v : KernelValue) (tr : Trace) : KernelCall → Trace
  | .create owner _ _ =>
    match v with
    | .handle issued =>
      match (u.tables owner).handleTableResolve issued .ipcEndpoint 0 with
      | .ok e => ⟨update tr.sent e [], update tr.received e []⟩
      | .error _ => tr
    | _ => tr
  | .send sender handle request _ =>
    match s.resolveEndpoint sender handle rightSignal with
    | .ok e => { tr with sent := update tr.sent e (tr.sent e ++ [request.message (s.world.processes sender)]) }
    | .error _ => tr
  | .receive receiver handle _ _ =>
    match v, s.resolveEndpoint receiver handle rightWait with
    | .message (some message), .ok e => { tr with received := update tr.received e (tr.received e ++ [message]) }
    | _, _ => tr
  | _ => tr

/-- The state after the system was set up, with an empty handle table for each process. -/
structure Booted (s : Kernel) : Prop where
  ipc : ∃ w, s.world = Kernel.ipcInitialize w
  scheduler : s.world.scheduler = Scheduler.schedulerInitialize
  running : s.world.halted = false
  tables : ∀ p, HandleTable.handleTableInitialize (BitVec.ofNat 64 (s.world.processes p).processId) = .ok (s.tables p)

/-- The states that runs of allowed calls reach, with the trace. -/
inductive KernelRun (allowed : Kernel → KernelCall → Prop) : Kernel → Trace → Prop where
  | booted {s : Kernel} : Booted s → KernelRun allowed s ⟨fun _ => [], fun _ => []⟩
  | returned {s u : Kernel} {tr : Trace} {call : KernelCall} {v : KernelValue} : KernelRun allowed s tr → allowed s call →
    call.run s = (.ok v, u) → KernelRun allowed u (call.trace s u v tr)
  | failed {s u : Kernel} {tr : Trace} {call : KernelCall} {error : IosError} : KernelRun allowed s tr → allowed s call →
    call.run s = (.error error, u) → KernelRun allowed u tr

def KernelCall.runAll : List KernelCall → Kernel → Kernel
  | [], s => s
  | call :: rest, s => runAll rest (call.run s).2

def KernelCall.traceAll : List KernelCall → Kernel → Trace → Trace
  | [], _, tr => tr
  | call :: rest, s, tr =>
    match call.run s with
    | (.error _, u) => traceAll rest u tr
    | (.ok v, u) => traceAll rest u (call.trace s u v tr)

theorem KernelRun.runAll {allowed : Kernel → KernelCall → Prop} : ∀ {calls : List KernelCall} {s : Kernel} {tr : Trace},
    (∀ call ∈ calls, ∀ s, allowed s call) → KernelRun allowed s tr →
      KernelRun allowed (KernelCall.runAll calls s) (KernelCall.traceAll calls s tr)
  | [], _, _, _, h => h
  | call :: rest, s, tr, ha, h => by
    have hrest : ∀ call ∈ rest, ∀ s, allowed s call := fun call hcall => ha call (List.mem_cons_of_mem _ hcall)
    have hcall := ha call List.mem_cons_self s
    unfold KernelCall.runAll KernelCall.traceAll
    rcases hrun : call.run s with ⟨_ | v, u⟩
    · exact KernelRun.runAll hrest (.failed h hcall hrun)
    · exact KernelRun.runAll hrest (.returned h hcall hrun)

namespace IpcWorld
variable {w w' : IpcWorld} {f g : EndpointRef → Nat} {e x : EndpointRef} {service : TrustedService}
  {services : TrustedService → TrustedServiceEntry} {entry : TrustedServiceEntry}

/-- The services that hold the endpoint. -/
def serviceReferences (services : TrustedService → TrustedServiceEntry) (e : EndpointRef) : Nat :=
  (Finset.univ.filter fun service => (services service).endpoint = some e).card

/-- No assertion failed, and each endpoint has `f` references while it is allocated and none otherwise. -/
structure Exact (f : EndpointRef → Nat) (w : IpcWorld) : Prop where
  running : w.halted = false
  count : ∀ e, (w.endpoints e).allocated = true → (w.endpoints e).referenceCount = f e ∧ 0 < f e
  free : ∀ e, (w.endpoints e).allocated = false → f e = 0

theorem Exact.congr (h : Exact f w) (hf : ∀ e, f e = g e) : Exact g w := by
  obtain rfl : f = g := funext hf
  exact h

theorem Exact.same (h : Exact f w) (hr : w'.halted = w.halted)
    (he : ∀ e, (w'.endpoints e).allocated = (w.endpoints e).allocated ∧
      (w'.endpoints e).referenceCount = (w.endpoints e).referenceCount) : Exact f w' where
  running := hr.trans h.running
  count e ha := by
    rw [(he e).1] at ha
    rw [(he e).2]
    exact h.count e ha
  free e ha := by
    rw [(he e).1] at ha
    exact h.free e ha

theorem Exact.allocated (h : Exact f w) (hf : 0 < f e) : (w.endpoints e).allocated = true := by
  by_contra hx
  have := h.free e (Bool.eq_false_of_not_eq_true hx)
  omega

theorem Exact.set (h : Exact f w) {endpoint : Endpoint} (hr : w'.halted = w.halted)
    (he : w'.endpoints = update w.endpoints e endpoint) (hother : ∀ x, x ≠ e → g x = f x)
    (hcount : endpoint.allocated = true → endpoint.referenceCount = g e ∧ 0 < g e)
    (hfree : endpoint.allocated = false → g e = 0) : Exact g w' := by
  refine ⟨hr.trans h.running, fun x hx => ?_, fun x hx => ?_⟩
  all_goals
    rw [he, update_apply] at hx
    try rw [he, update_apply]
    split at hx
  · rename_i heq
    rw [if_pos heq, heq]
    exact hcount hx
  · rename_i hne
    rw [if_neg hne, hother x hne]
    exact h.count x hx
  · rename_i heq
    rw [heq]
    exact hfree hx
  · rename_i hne
    rw [hother x hne]
    exact h.free x hx

theorem Exact.retain (h : Exact f w) (hpos : 0 < f e) (hlimit : f e < 2 ^ 32 - 1) :
    Exact (fun x => f x + one e x) (endpointRetain e w) := by
  have hlive := h.allocated hpos
  obtain ⟨hcount, -⟩ := h.count e hlive
  unfold endpointRetain
  rw [if_pos ⟨hlive, by omega⟩]
  refine h.set rfl rfl (fun x hx => ?_) (fun _ => ?_) fun hx => nomatch hlive.symm.trans hx
  · rw [one, if_neg hx, Nat.add_zero]
  · rw [one, if_pos rfl]
    exact ⟨congrArg (· + 1) hcount, Nat.succ_pos _⟩

theorem Exact.release (h : Exact (fun x => f x + one e x) w) : Exact f (endpointRelease e w) := by
  have hpos : 0 < f e + one e e := by
    rw [one, if_pos rfl]
    omega
  have hlive := h.allocated (e := e) hpos
  obtain ⟨hcount, -⟩ := h.count e hlive
  rw [one, if_pos rfl] at hcount
  have hother : ∀ x, x ≠ e → f x = f x + one e x := by
    intro x hx
    rw [one, if_neg hx, Nat.add_zero]
  unfold endpointRelease
  rw [if_pos ⟨hlive, by omega⟩]
  split
  · refine h.set rfl rfl hother nofun fun _ => ?_
    omega
  · refine h.set rfl rfl hother (fun _ => ?_) fun hx => nomatch hlive.symm.trans hx
    show (w.endpoints e).referenceCount - 1 = _ ∧ _
    omega

structure Stable (P : IpcWorld → Prop) : Prop where
  retain : ∀ e w, P w → P (endpointRetain e w)
  release : ∀ e w, P w → P (endpointRelease e w)

theorem Stable.and {P Q : IpcWorld → Prop} (hP : Stable P) (hQ : Stable Q) : Stable fun w => P w ∧ Q w :=
  ⟨fun e w h => ⟨hP.retain e w h.1, hQ.retain e w h.2⟩, fun e w h => ⟨hP.release e w h.1, hQ.release e w h.2⟩⟩

theorem endpointRetain_services : (endpointRetain e w).services = w.services := by
  unfold endpointRetain
  dsimp only
  split <;> rfl

theorem endpointRelease_services : (endpointRelease e w).services = w.services := by
  unfold endpointRelease
  dsimp only
  split
  · split <;> rfl
  · rfl

theorem accounting {P : IpcWorld → Prop} (hP : Stable P) :
    Accounting endpointRetain endpointRelease (fun f w => Exact f w ∧ P w) (2 ^ 32 - 1) where
  retain _ w e h hpos hlimit := ⟨h.1.retain hpos hlimit, hP.retain e w h.2⟩
  release _ w e h := ⟨h.1.release, hP.release e w h.2⟩

theorem serviceReferences_le : serviceReferences services e ≤ 4 :=
  (Finset.card_filter_le _ _).trans (le_of_eq rfl)

theorem serviceReferences_pos (h : (services service).endpoint = some e) : 0 < serviceReferences services e :=
  Finset.card_pos.mpr ⟨service, Finset.mem_filter.mpr ⟨Finset.mem_univ _, h⟩⟩

def otherReferences (services : TrustedService → TrustedServiceEntry) (service : TrustedService) (e : EndpointRef) : Nat :=
  serviceReferences (update services service ⟨0, 0, none, 0⟩) e

theorem serviceReferences_update : serviceReferences (update services service entry) x =
    otherReferences services service x + entry.endpoint.elim 0 (one · x) := by
  unfold otherReferences
  cases he : entry.endpoint with
  | none =>
    unfold serviceReferences
    rw [Option.elim_none, Nat.add_zero]
    congr 1
    refine Finset.filter_congr fun other _ => ?_
    rw [update_apply, update_apply]
    split
    · rw [he]
    · rfl
  | some e =>
    refine card_set (a := service) ?_ fun other => ?_
    · rw [update_self]
    · rw [update_apply, update_apply]
      split
      · exact he
      · rfl

theorem serviceReferences_eq : serviceReferences services x =
    otherReferences services service x + (services service).endpoint.elim 0 (one · x) := by
  rw [← serviceReferences_update, update_eq_self]

end IpcWorld

namespace Kernel
open IpcWorld
variable {s u : Kernel} {p : ProcessRef} {e : EndpointRef} {P : IpcWorld → Prop} {extra : EndpointRef → Nat}
  {rights : BitVec 64} {handle issued : Handle} {w : IpcWorld}

/-- The world counts the handles and `extra` references, and has a property that retaining and releasing keep. -/
abbrev Tallied (P : IpcWorld → Prop) (extra : EndpointRef → Nat) (s : Kernel) : Prop :=
  Counted endpointRetain endpointRelease (fun f w => Exact f w ∧ P w) extra s

def Balanced (s : Kernel) : Prop := Tallied (fun _ => True) (serviceReferences s.world.services) s

theorem Balanced.with (h : Balanced s) (hP : P s.world) : Tallied P (serviceReferences s.world.services) s :=
  ⟨⟨h.counts.1, hP⟩, h.functions, h.tag, h.generation⟩

theorem Balanced.of_tallied (h : Tallied P extra s) (he : extra = serviceReferences s.world.services) : Balanced s := by
  subst he
  exact ⟨⟨h.counts.1, trivial⟩, h.functions, h.tag, h.generation⟩

theorem Balanced.world (h : Balanced s)
    (hw : Exact (fun e => s.references e + serviceReferences w.services e) w) : Balanced (s.withWorld w) :=
  Counted.world h ⟨hw, trivial⟩

theorem limit_lt (services : TrustedService → TrustedServiceEntry) (e : EndpointRef) :
    Fintype.card ProcessRef * handleTableCapacity + serviceReferences services e < 2 ^ 32 - 1 := by
  have := @serviceReferences_le e services
  have hcard : Fintype.card ProcessRef * handleTableCapacity = 8192 := rfl
  omega

theorem stable_services {services : TrustedService → TrustedServiceEntry} : Stable fun w => w.services = services :=
  ⟨fun _ _ h => endpointRetain_services.trans h, fun _ _ h => endpointRelease_services.trans h⟩

theorem Balanced.onHandles {call : KernelCall} (h : Balanced s) (hP : Stable P) (hs : P s.world) (hcall : call.OnHandles) :
    wp call.run (fun _ u => Balanced u ∧ P u.world) (fun _ u => Balanced u ∧ P u.world) s := by
  have hstart := h.with (P := fun w => P w ∧ w.services = s.world.services) ⟨hs, rfl⟩
  have ha := accounting (hP.and (@stable_services s.world.services))
  have hlimit := limit_lt s.world.services
  have hdone : ∀ {u : Kernel}, Tallied (fun w => P w ∧ w.services = s.world.services) (serviceReferences s.world.services) u →
      Balanced u ∧ P u.world := by
    intro u hu
    have hservices := hu.counts.2.2
    exact ⟨Balanced.of_tallied hu (by rw [hservices]), hu.counts.2.1⟩
  cases call with
  | duplicate process source reduced out =>
    simp only [KernelCall.run, wp_map]
    exact wp_mono (hstart.duplicate ha hlimit) (fun _ _ hu => hdone hu) fun _ _ hu => hdone hu
  | transfer process destination source reduced closeSource out =>
    simp only [KernelCall.run, wp_map]
    exact wp_mono (hstart.transfer ha hlimit) (fun _ _ hu => hdone hu) fun _ _ hu => hdone hu
  | close process handle =>
    simp only [KernelCall.run, wp_map]
    exact wp_mono (hstart.close ha) (fun _ _ hu => hdone hu) fun _ _ hu => hu ▸ ⟨h, hs⟩
  | closeAll process =>
    simp only [KernelCall.run, wp_map]
    exact wp_mono (hstart.closeAll ha) (fun _ _ hu => hdone hu) fun _ _ hu => hu.elim
  | _ => exact hcall.elim

theorem Granted.balanced (hg : s.Granted u w p e rights issued) (h : Balanced s) (hs : w.services = s.world.services)
    (hw : Exact (fun x => s.references x + serviceReferences s.world.services x + one e x) w) : Balanced u := by
  obtain ⟨i, hi, -, rfl⟩ := hg
  have hmore : Counted endpointRetain endpointRelease (fun f w => Exact f w ∧ True)
      (fun x => serviceReferences s.world.services x + one e x) (s.withWorld w) :=
    Counted.world h ⟨hw.congr fun x => Nat.add_assoc _ _ _, trivial⟩
  exact Balanced.of_tallied (hmore.fill hi.empty) (by rw [← hs]; rfl)

theorem exact_created (h : Exact extra w) (he : (w.endpoints e).allocated = false) {owner : ProcessIdentity} {depth : Nat} :
    Exact (fun x => extra x + one e x) (created e owner depth w) := by
  have hzero := h.free e he
  refine h.set (e := e) rfl (update_idem _ _ _) (fun x hx => ?_) (fun _ => ?_) nofun
  · rw [one, if_neg hx, Nat.add_zero]
  · rw [one, if_pos rfl, hzero]
    exact ⟨rfl, Nat.one_pos⟩

theorem exact_cleared (h : Exact extra w) (he : (w.endpoints e).allocated = false) {owner : ProcessIdentity} {depth : Nat} :
    Exact extra (clear e (created e owner depth w)) := by
  have hcleared : (clear e (created e owner depth w)).endpoints = update w.endpoints e Endpoint.zero := by
    show update (update (update _ _ _) _ _) _ _ = _
    rw [update_idem, update_idem]
  exact h.set rfl hcleared (fun _ _ => rfl) (fun hx => absurd hx (by decide)) fun _ => h.free e he

theorem exact_ring (h : Exact extra w) {ring : Ring IpcMessage} {scheduler : Scheduler IpcQueue} :
    Exact extra { w.setEndpoint e { w.endpoints e with toRing := ring } with scheduler } := by
  refine h.same rfl fun x => ?_
  show ((w.setEndpoint e _).endpoints x).allocated = _ ∧ ((w.setEndpoint e _).endpoints x).referenceCount = _
  rw [setEndpoint_endpoints]
  split
  · rename_i hx
    rw [hx]
    exact ⟨rfl, rfl⟩
  · exact ⟨rfl, rfl⟩

theorem exact_revoke (h : Exact (fun x => extra x + one e x) w) : Exact extra (revoke e w) := by
  refine Exact.release (h.same rfl fun x => ?_)
  rw [setEndpoint_endpoints]
  split
  · rename_i hx
    rw [hx]
    exact ⟨rfl, rfl⟩
  · exact ⟨rfl, rfl⟩

theorem revoke_services : (revoke e w).services = w.services := endpointRelease_services

theorem Balanced.retained (h : Balanced s) (he : 0 < s.references e + serviceReferences s.world.services e) :
    Exact (fun x => s.references x + serviceReferences s.world.services x + one e x) (endpointRetain e s.world) := by
  have hle := @references_le ProcessRef IpcWorld EndpointRef _ _ s e
  have hlimit := limit_lt s.world.services e
  exact h.counts.1.retain he (by omega)

theorem onTasks_spec {call : KernelCall} (hcall : call.OnTasks) : wp call.run (fun _ u => ∃ scheduler, u = s.withScheduler scheduler)
    (fun _ u => ∃ scheduler, u = s.withScheduler scheduler) s := by
  have hrun : ∀ {α : Type} (m : Program IosError (Scheduler IpcQueue) α),
      wp (onScheduler m) (fun _ u => ∃ scheduler, u = s.withScheduler scheduler)
        (fun _ u => ∃ scheduler, u = s.withScheduler scheduler) s := by
    intro α m
    unfold onScheduler
    rw [wp_zoom]
    exact wp_iff.mpr ⟨fun _ t _ => ⟨t, rfl⟩, fun _ t _ => ⟨t, rfl⟩⟩
  cases call with
  | addProcess | selectNext | wakeTask =>
    simp only [KernelCall.run, wp_map]
    exact hrun _
  | _ => exact hcall.elim

theorem Balanced.call (h : Balanced s) (call : KernelCall) : wp call.run (fun _ u => Balanced u) (fun _ u => Balanced u) s := by
  have hexact := h.counts.1
  cases call with
  | duplicate | transfer | close | closeAll =>
    exact wp_mono (h.onHandles (P := fun _ => True) ⟨fun _ _ _ => trivial, fun _ _ _ => trivial⟩ trivial trivial)
      (fun _ _ hu => hu.1) fun _ _ hu => hu.1
  | addProcess | selectNext | wakeTask =>
    have hany : ∀ u, (∃ scheduler, u = s.withScheduler scheduler) → Balanced u := by
      rintro u ⟨scheduler, rfl⟩
      exact h.world (hexact.same rfl fun _ => ⟨rfl, rfl⟩)
    exact wp_mono (onTasks_spec trivial) (fun _ u hu => hany u hu) fun _ u hu => hany u hu
  | create p depth out =>
    simp only [KernelCall.run, wp_map]
    refine wp_mono create_spec (fun _ u hx => ?_) fun _ u hu => ?_
    · obtain ⟨e, he, _, _, hg⟩ := hx
      exact hg.balanced h rfl (exact_created hexact he)
    · rcases hu with rfl | ⟨e, he, rfl⟩
      · exact h
      · exact h.world (exact_cleared hexact he)
  | send p handle request block =>
    simp only [KernelCall.run, wp_map]
    refine wp_mono send_spec (fun _ u hx => ?_) fun _ u hu => hu.1 ▸ h
    obtain ⟨e, _, hu⟩ := hx
    rcases hu with ⟨-, -, current, -, rfl⟩ | ⟨-, rfl⟩
    · exact h.world (hexact.same rfl fun _ => ⟨rfl, rfl⟩)
    · exact h.world (exact_ring hexact)
  | receive p handle out block =>
    simp only [KernelCall.run, wp_map]
    refine wp_mono receive_spec (fun _ u hx => ?_) fun _ u hu => hu.1 ▸ h
    obtain ⟨e, _, hu⟩ := hx
    rcases hu with ⟨-, -, -, current, -, rfl⟩ | ⟨-, -, rfl⟩
    · exact h.world (hexact.same rfl fun _ => ⟨rfl, rfl⟩)
    · exact h.world (exact_ring hexact)
  | trust service identity =>
    simp only [KernelCall.run, wp_map]
    refine wp_mono trust_spec (fun _ u hx => ?_) fun _ u hu => hu ▸ h
    obtain ⟨name, entry, _, he, hu⟩ := hx
    rw [hu]
    have hsame : Exact _ (s.world.setService name entry) := hexact.same rfl fun _ => ⟨rfl, rfl⟩
    refine h.world (hsame.congr fun x => ?_)
    congr 1
    unfold serviceReferences
    congr 1
    refine Finset.filter_congr fun other _ => ?_
    rw [setService_services]
    split
    · rename_i hx
      rw [he, hx]
    · rfl
  | register p service handle =>
    simp only [KernelCall.run, wp_map]
    refine wp_mono register_spec (fun _ u hx => ?_) fun _ u hu => hu.1 ▸ h
    obtain ⟨name, e, entry, _, hr, he, hu⟩ := hx
    obtain ⟨-, -, -, i, hi⟩ := resolveEndpoint_eq_ok hr.resolved
    have hretained := h.retained (e := e) (Nat.add_pos_left (references_pos hi) _)
    simp only [@serviceReferences_eq _ name] at hretained
    rw [hu]
    refine h.world ?_
    cases hold : (s.world.services name).endpoint with
    | none =>
      rw [hold] at hretained
      refine Exact.same (hretained.congr fun x => ?_) rfl fun _ => ⟨rfl, rfl⟩
      show _ = s.references x + serviceReferences (update (endpointRetain e s.world).services name entry) x
      rw [endpointRetain_services, serviceReferences_update, he]
      simp only [Option.elim_none, Option.elim_some]
      omega
    | some old =>
      rw [hold] at hretained
      have hrevoked : Exact (fun x => s.references x + (otherReferences s.world.services name x + one e x))
          (revoke old (endpointRetain e s.world)) :=
        exact_revoke (hretained.congr fun x => by simp only [Option.elim_some]; omega)
      refine Exact.same (hrevoked.congr fun x => ?_) rfl fun _ => ⟨rfl, rfl⟩
      show _ = s.references x + serviceReferences (update (revoke old (endpointRetain e s.world)).services name entry) x
      rw [revoke_services, endpointRetain_services, serviceReferences_update, he]
      rfl
  | connect p service out =>
    simp only [KernelCall.run, wp_map]
    refine wp_mono connect_spec (fun _ u hx => ?_) fun _ u hu => ?_
    · obtain ⟨name, e, _, he, hg⟩ := hx
      have hretained := h.retained (e := e) (Nat.add_pos_right _ (serviceReferences_pos he))
      exact hg.balanced h endpointRetain_services hretained
    · rcases hu with rfl | ⟨name, e, he, rfl⟩
      · exact h
      · have hretained := h.retained (e := e) (Nat.add_pos_right _ (serviceReferences_pos he))
        refine h.world (hretained.release.congr fun x => ?_)
        rw [endpointRelease_services, endpointRetain_services]
  | unregister p service =>
    simp only [KernelCall.run, wp_map]
    refine wp_mono unregister_spec (fun _ u hx => ?_) fun _ u hu => hu.1 ▸ h
    obtain ⟨name, e, entry, _, hr, he, hu⟩ := hx
    simp only [@serviceReferences_eq _ name, hr.endpoint] at hexact
    have hrevoked : Exact (fun x => s.references x + otherReferences s.world.services name x) (revoke e s.world) :=
      exact_revoke (hexact.congr fun x => by simp only [Option.elim_some]; omega)
    rw [hu]
    refine h.world (Exact.same (hrevoked.congr fun x => ?_) rfl fun _ => ⟨rfl, rfl⟩)
    show _ = s.references x + serviceReferences (update (revoke e s.world).services name entry) x
    rw [revoke_services, serviceReferences_update, he]
    rfl

theorem ownerTag_lt {identity : BitVec 64} : (ownerTagFromIdentity identity).toNat < 2 ^ 24 := by
  unfold ownerTagFromIdentity
  dsimp only
  split
  · decide
  · rw [BitVec.toNat_and, show (0x00ffffff : BitVec 32).toNat = 2 ^ 24 - 1 from rfl, Nat.and_two_pow_sub_one_eq_mod]
    exact Nat.mod_lt _ (by decide)

theorem Booted.balanced (h : Booted s) : Balanced s := by
  obtain ⟨w, hw⟩ := h.ipc
  have htable : ∀ p, s.tables p = ⟨fun _ => ⟨none, 0, initialGeneration (s.tables p).ownerTag, .none, none, none⟩,
      (s.tables p).ownerTag, 0⟩ ∧ (s.tables p).ownerTag.toNat < 2 ^ 24 := by
    intro p
    have hp := h.tables p
    unfold HandleTable.handleTableInitialize at hp
    split at hp
    · cases hp
    · rw [← Except.ok.inj hp]
      exact ⟨rfl, ownerTag_lt⟩
  have hempty : ∀ p i, (s.entry p i).object = none := by
    intro p i
    rw [entry, (htable p).1]
  have hservices : ∀ e, serviceReferences s.world.services e = 0 := by
    intro e
    rw [serviceReferences, Finset.filter_false_of_mem, Finset.card_empty]
    intro service _ hx
    rw [hw] at hx
    cases hx
  have hfree : ∀ e, (s.world.endpoints e).allocated = false := by
    intro e
    rw [hw]
    rfl
  refine ⟨⟨⟨h.running, (fun e he => absurd ((hfree e).symm.trans he) Bool.false_ne_true), fun e _ => ?_⟩, trivial⟩, fun p i hi => ?_,
    fun p => (htable p).2, fun p i => ?_⟩
  · rw [hservices, references_eq_zero fun p i hx => absurd ((hempty p i).symm.trans hx) (Option.some_ne_none _).symm]
  · rw [hempty] at hi
    cases hi
  · have hlt := (htable p).2
    rw [entry, (htable p).1, initialGeneration_eq, generationAfter_toNat hlt]
    omega

theorem balanced_run {allowed : Kernel → KernelCall → Prop} {tr : Trace} (h : KernelRun allowed s tr) : Balanced s := by
  induction h with
  | booted hb => exact Booted.balanced hb
  | @returned s u tr call v _ _ hr ih =>
    have hcall := wp_ok (ih.call call) hr
    exact hcall
  | @failed s u tr call error _ _ hr ih =>
    have hcall := wp_error (ih.call call) hr
    exact hcall

/-- The reference count of an endpoint is the number of handles and services that refer to it, and the endpoint is
    allocated as long as there is one. -/
theorem references_exact {tr : Trace} (h : KernelRun (fun _ _ => True) s tr) :
    (∀ e, (s.world.endpoints e).allocated = true →
      (s.world.endpoints e).referenceCount = s.references e + serviceReferences s.world.services e) ∧
    (∀ e, (s.world.endpoints e).allocated = true ↔ 0 < s.references e + serviceReferences s.world.services e) ∧
    s.world.halted = false := by
  have hexact := (balanced_run h).counts.1
  exact ⟨fun e he => (hexact.count e he).1, fun e => ⟨fun he => (hexact.count e he).2, fun he => hexact.allocated he⟩,
    hexact.running⟩

/-- A system of processes with the numbers 1 to 32, all of the application 7. -/
def boot : Kernel where
  tables p := ⟨fun _ => ⟨none, 0, initialGeneration (ownerTagFromIdentity (BitVec.ofNat 64 (p.1 + 1))), .none, none, none⟩,
    ownerTagFromIdentity (BitVec.ofNat 64 (p.1 + 1)), 0⟩
  world := ipcInitialize ⟨fun _ => Endpoint.zero, fun _ => ⟨0, 1, none, 0⟩, false, fun p => ⟨p.1 + 1, 7⟩,
    Scheduler.schedulerInitialize, false⟩

theorem booted_boot : Booted boot := by
  refine ⟨⟨_, rfl⟩, rfl, rfl, fun p => ?_⟩
  unfold HandleTable.handleTableInitialize
  rw [if_neg]
  · rfl
  · revert p
    decide

/-- A process offers the shell service and gives up its handle, and its client copies the handle that it got. -/
def served : List KernelCall :=
  [.trust (some .shell) 7, .create 0 1 true, .register 0 (some .shell) 0x10000010001, .connect 1 (some .shell) true,
    .duplicate 1 0x20000010001 clientRights true, .close 0 0x10000010001]

theorem references_exact_served : ((KernelCall.runAll served boot).world.endpoints 0).referenceCount = 3 ∧
    (KernelCall.runAll served boot).references 0 = 2 ∧
    serviceReferences (KernelCall.runAll served boot).world.services 0 = 1 := by
  have hrun : KernelRun (fun _ _ => True) (KernelCall.runAll served boot) _ :=
    .runAll (fun _ _ _ => trivial) (.booted booted_boot)
  have hallocated : ((KernelCall.runAll served boot).world.endpoints 0).allocated = true := by decide +kernel
  have hcount : ((KernelCall.runAll served boot).world.endpoints 0).referenceCount = 3 := by decide +kernel
  have hservice : serviceReferences (KernelCall.runAll served boot).world.services 0 = 1 := by decide +kernel
  have hexact := (references_exact hrun).1 0 hallocated
  exact ⟨hcount, by omega, hservice⟩

end Kernel
end InferenceOS
