import InferenceOS.Shell.Service
import InferenceOS.Theorems.Delivery

/-! The service on its endpoint: after a start its process reads from an endpoint without messages, and no send, connect or
    close of a client takes the endpoint away. -/

namespace InferenceOS
open Program HandleTables Function

namespace IpcWorld
variable {w w' w'' : IpcWorld} {e x : EndpointRef}

structure Kept (e : EndpointRef) (w w' : IpcWorld) : Prop where
  ready : w'.ipcReady = w.ipcReady
  processes : w'.processes = w.processes
  endpoint : (w'.endpoints e).allocated = true → (w.endpoints e).allocated = true ∧
    (w'.endpoints e).revoked = (w.endpoints e).revoked ∧ (w'.endpoints e).ownerProcessId = (w.endpoints e).ownerProcessId ∧
    (w'.endpoints e).toRing = (w.endpoints e).toRing

theorem Kept.refl : Kept e w w := ⟨rfl, rfl, fun he => ⟨he, rfl, rfl, rfl⟩⟩

theorem Kept.trans (h : Kept e w w') (h' : Kept e w' w'') : Kept e w w'' := by
  refine ⟨h'.ready.trans h.ready, h'.processes.trans h.processes, fun he => ?_⟩
  obtain ⟨hlive', hrevoked', howner', hring'⟩ := h'.endpoint he
  obtain ⟨hlive, hrevoked, howner, hring⟩ := h.endpoint hlive'
  exact ⟨hlive, hrevoked'.trans hrevoked, howner'.trans howner, hring'.trans hring⟩

theorem kept_set {endpoint : Endpoint} (he : w'.endpoints = update w.endpoints x endpoint) (hr : w'.ipcReady = w.ipcReady)
    (hp : w'.processes = w.processes)
    (hsame : x = e → endpoint.allocated = true → (w.endpoints x).allocated = true ∧ endpoint.revoked = (w.endpoints x).revoked ∧
      endpoint.ownerProcessId = (w.endpoints x).ownerProcessId ∧ endpoint.toRing = (w.endpoints x).toRing) : Kept e w w' := by
  refine ⟨hr, hp, fun hlive => ?_⟩
  rw [he, update_apply] at hlive ⊢
  split at hlive
  · rename_i heq
    rw [if_pos heq, heq]
    exact hsame heq.symm hlive
  · rename_i hne
    rw [if_neg hne]
    exact ⟨hlive, rfl, rfl, rfl⟩

theorem kept_retain : Kept e w (endpointRetain x w) := by
  unfold endpointRetain
  dsimp only
  split
  · exact kept_set (x := x) rfl rfl rfl fun _ hlive => ⟨hlive, rfl, rfl, rfl⟩
  · exact ⟨rfl, rfl, fun he => ⟨he, rfl, rfl, rfl⟩⟩

theorem kept_release : Kept e w (endpointRelease x w) := by
  unfold endpointRelease
  dsimp only
  split
  · split
    · exact kept_set (x := x) rfl rfl rfl nofun
    · exact kept_set (x := x) rfl rfl rfl fun _ hlive => ⟨hlive, rfl, rfl, rfl⟩
  · exact ⟨rfl, rfl, fun he => ⟨he, rfl, rfl, rfl⟩⟩

theorem kept_revoke (hne : x ≠ e) : Kept e w (Kernel.revoke x w) := by
  have hrevoked : Kept e w (w.setEndpoint x { w.endpoints x with revoked := true }) :=
    kept_set (x := x) rfl rfl rfl fun heq => absurd heq hne
  exact hrevoked.trans kept_release

theorem stable_kept : Stable (Kept e w) := ⟨fun _ _ h => h.trans kept_retain, fun _ _ h => h.trans kept_release⟩

end IpcWorld

namespace Kernel
open IpcWorld
variable {s u : Kernel} {p q : ProcessRef} {e : EndpointRef} {handle issued : Handle}

theorem resolveEndpoint_congr {rights : BitVec 64} (h : s.resolveEndpoint p handle rights = .ok e) (ht : u.tables p = s.tables p)
    (hready : u.world.ipcReady = s.world.ipcReady) (ha : (u.world.endpoints e).allocated = true)
    (hr : (u.world.endpoints e).revoked = (s.world.endpoints e).revoked) : u.resolveEndpoint p handle rights = .ok e := by
  unfold resolveEndpoint at h ⊢
  rw [hready, ht]
  split at h
  · cases h
  · rename_i hnot
    rw [if_neg hnot]
    obtain ⟨x, hx, h⟩ := of_bind_ok h
    obtain ⟨hlive, h⟩ := of_check h
    cases h
    rw [hx]
    show (if _ then _ else _) = _
    rw [ha, hr, if_neg]
    simpa using fun hx => hlive (Or.inr hx)

/-- A process reads from an endpoint through a handle. -/
structure Reads (s : Kernel) (p : ProcessRef) (handle : Handle) (e : EndpointRef) : Prop where
  receives : s.ReceivesFrom p handle true e
  balanced : Balanced s
  rings : Rings s

theorem Reads.wf (h : Reads s p handle e) : (s.world.endpoints e).Wf :=
  h.rings e (resolveEndpoint_eq_ok h.receives.resolved).2.1

theorem Reads.allocated (h : Reads s p handle e) (hb : Balanced u) (ht : u.tables p = s.tables p) :
    (u.world.endpoints e).allocated = true := by
  obtain ⟨-, -, -, i, hi⟩ := resolveEndpoint_eq_ok h.receives.resolved
  refine hb.counts.1.allocated (Nat.add_pos_left (references_pos (t := p) (i := i) ?_) _)
  rw [entry, ht]
  exact hi

theorem Reads.kept (h : Reads s p handle e) (hb : Balanced u) (hr : Rings u) (ht : u.tables p = s.tables p)
    (hk : Kept e s.world u.world) :
    Reads u p handle e ∧ (u.world.endpoints e).toRing = (s.world.endpoints e).toRing := by
  have hlive := h.allocated hb ht
  obtain ⟨-, hrevoked, howner, hring⟩ := hk.endpoint hlive
  refine ⟨⟨⟨rfl, resolveEndpoint_congr h.receives.resolved ht hk.ready hlive hrevoked, ?_⟩, hb, hr⟩, hring⟩
  rw [howner, hk.processes]
  exact h.receives.owner

theorem rings_call (hb : Balanced s) (hr : Rings s) (call : KernelCall) :
    wp call.run (fun _ u => Rings u) (fun _ u => Rings u) s :=
  wp_mono (moves_spec hb call) (fun _ _ hu => hr.moves hu) fun _ _ hu => hr.same hu

theorem Reads.call (h : Reads s p handle e) (call : KernelCall) : Balanced (call.run s).2 ∧ Rings (call.run s).2 :=
  ⟨of_wp (h.balanced.call call), of_wp (rings_call h.balanced h.rings call)⟩

theorem map_state {σ α β : Type} {m : Program IosError σ α} {f : α → β} {s : σ} : ((f <$> m) s).2 = (m s).2 := by
  show ((m >>= fun a => pure (f a)) s).2 = (m s).2
  rcases hm : m s with ⟨status | a, t⟩
  · rw [bind_error hm]
  · rw [bind_ok hm]
    rfl

theorem Reads.connect (h : Reads s p handle e) (hq : q ≠ p) (service : Option TrustedService) (out : Bool) :
    Reads (ipcServiceConnect q service out s).2 p handle e ∧
      ((ipcServiceConnect q service out s).2.world.endpoints e).toRing = (s.world.endpoints e).toRing := by
  obtain ⟨hb, hr⟩ := h.call (.connect q service out)
  rw [KernelCall.run, map_state] at hb hr
  have hframe : wp (ipcServiceConnect q service out) (fun _ u => u.tables p = s.tables p ∧ Kept e s.world u.world)
      (fun _ u => u.tables p = s.tables p ∧ Kept e s.world u.world) s := by
    refine wp_mono connect_spec (fun _ u hx => ?_) fun _ u hu => ?_
    · obtain ⟨name, x, _, _, i, _, _, hu⟩ := hx
      rw [hu]
      refine ⟨?_, kept_retain⟩
      rw [fill, setTable_tables, if_neg hq.symm]
      rfl
    · rcases hu with rfl | ⟨name, x, -, rfl⟩
      · exact ⟨rfl, .refl⟩
      · exact ⟨rfl, kept_retain.trans kept_release⟩
  obtain ⟨ht, hk⟩ := of_wp (P := fun u : Kernel => u.tables p = s.tables p ∧ Kept e s.world u.world) hframe
  exact h.kept hb hr ht hk

theorem Reads.close (h : Reads s p handle e) (hq : q ≠ p) (closed : Handle) :
    Reads (handleTableClose q closed s).2 p handle e ∧
      ((handleTableClose q closed s).2.world.endpoints e).toRing = (s.world.endpoints e).toRing := by
  obtain ⟨hb, hr⟩ := h.call (.close q closed)
  have hkept := @Balanced.onHandles _ _ (.close q closed) h.balanced (stable_kept (e := e) (w := s.world)) .refl trivial
  have hk : Kept e s.world ((KernelCall.close q closed).run s).2.world :=
    (of_wp (P := fun u => Balanced u ∧ Kept e s.world u.world) hkept).2
  rw [KernelCall.run, map_state] at hb hr hk
  have hframe : wp (handleTableClose q closed) (fun _ u => u.tables p = s.tables p) (fun _ u => u.tables p = s.tables p) s := by
    refine wp_mono close_spec (fun _ u hx => ?_) fun _ u hu => ?_
    · obtain ⟨i, _, hu⟩ := hx
      rw [hu, callOn_tables, vacate, setTable_tables, if_neg hq.symm]
    · rw [hu.1]
  exact h.kept hb hr (of_wp (P := fun u : Kernel => u.tables p = s.tables p) hframe) hk

theorem Reads.received (h : Reads s p handle e) (hsome : (s.world.endpoints e).count ≠ 0) :
    Reads (s.withWorld (received e s.world)) p handle e ∧ (s.world.endpoints e).contents =
      (s.world.endpoints e).front :: ((received e s.world).endpoints e).contents := by
  have hrun : ipcReceive p handle true false s = (.ok (some (s.world.endpoints e).front), s.withWorld (Kernel.received e s.world)) := by
    rw [receive_eq h.receives, if_neg hsome]
  obtain ⟨hb, hr⟩ := h.call (.receive p handle true false)
  rw [KernelCall.run, map_state, hrun] at hb hr
  have hlive := (resolveEndpoint_eq_ok h.receives.resolved).2.1
  have hsame : (Kernel.received e s.world).endpoints e =
      { s.world.endpoints e with toRing := (s.world.endpoints e).pop IpcMessage.zero } := update_self _ _ _
  refine ⟨⟨⟨rfl, resolveEndpoint_congr h.receives.resolved rfl rfl ?_ ?_, ?_⟩, hb, hr⟩, ?_⟩
  · show ((Kernel.received e s.world).endpoints e).allocated = true
    rw [hsame]
    exact hlive
  · show ((Kernel.received e s.world).endpoints e).revoked = _
    rw [hsame]
  · show ((Kernel.received e s.world).endpoints e).ownerProcessId = _
    rw [hsame]
    exact h.receives.owner
  · rw [hsame]
    exact Ring.contents_pop h.wf (Nat.pos_of_ne_zero hsome)

theorem Granted.resolveEndpoint {w : IpcWorld} {rights right : BitVec 64} (hg : s.Granted u w p e rights issued) (hb : Balanced s)
    (hall : right &&& ~~~rightAll = 0) (hr : rights &&& right = right) (hready : w.ipcReady = true)
    (hlive : (w.endpoints e).allocated = true) (hvalid : (w.endpoints e).revoked = false) :
    u.resolveEndpoint p issued right = .ok e := by
  have hresolve := hg.resolve hb hall hr
  obtain ⟨i, hi, rfl, rfl⟩ := hg
  unfold Kernel.resolveEndpoint
  rw [fill_world, hresolve]
  show (if w.ipcReady = false then _ else if (w.endpoints e).allocated = false ∨ (w.endpoints e).revoked = true then _ else _) = _
  rw [hready, hlive, hvalid]
  rfl

theorem trust_holds (hb : Balanced s) (hr : Rings s) {service : Option TrustedService} {identity : Nat} :
    wp (ipcTrustService service identity) (fun _ u => Balanced u ∧ Rings u) (fun _ _ => True) s := by
  have hcall := wp_and (hb.call (.trust service identity)) (rings_call hb hr (.trust service identity))
  simp only [KernelCall.run, wp_map] at hcall
  exact wp_mono hcall (fun _ _ hu => hu) fun _ _ _ => trivial

theorem create_holds (hb : Balanced s) (hr : Rings s) {queueDepth : Nat} : wp (ipcEndpointCreate p queueDepth true)
    (fun issued u => Balanced u ∧ Rings u ∧ ∃ e, (u.world.endpoints e).contents = [] ∧ ∀ right : BitVec 64,
      right &&& ~~~rightAll = 0 → ownerRights &&& right = right → u.world.ipcReady = true →
        u.resolveEndpoint p issued right = .ok e) (fun _ _ => True) s := by
  have hcall := wp_and (hb.call (.create p queueDepth true)) (rings_call hb hr (.create p queueDepth true))
  simp only [KernelCall.run, wp_map] at hcall
  refine wp_mono (wp_and hcall create_spec) (fun issued u hx => ?_) fun _ _ _ => trivial
  obtain ⟨⟨hbu, hru⟩, e, _, _, _, hg⟩ := hx
  have hnew : (created e (s.world.processes p) queueDepth s.world).endpoints e = { Endpoint.zero with
      allocated := true, capacity := queueDepth, referenceCount := 1
      ownerProcessId := (s.world.processes p).processId
      ownerApplicationIdentity := (s.world.processes p).applicationIdentity } := update_self _ _ _
  have hworld : u.world = created e (s.world.processes p) queueDepth s.world := by
    obtain ⟨i, -, -, rfl⟩ := hg
    rfl
  refine ⟨hbu, hru, e, ?_, fun right hall hright hready => hg.resolveEndpoint hb hall hright (hworld ▸ hready) ?_ ?_⟩
  · rw [hworld, hnew]
    rfl
  · rw [hnew]
  · rw [hnew]
    rfl

theorem register_holds (hb : Balanced s) (hr : Rings s) {service : TrustedService} (hempty : (s.world.endpoints e).contents = [])
    (hissued : ∀ right : BitVec 64, right &&& ~~~rightAll = 0 → ownerRights &&& right = right → s.world.ipcReady = true →
      s.resolveEndpoint p issued right = .ok e) :
    wp (ipcServiceRegister p (some service) issued) (fun _ u => (u.world.services service).endpoint = some e ∧
      Reads u p issued e ∧ (u.world.endpoints e).contents = []) (fun _ _ => True) s := by
  have hcall := wp_and (hb.call (.register p (some service) issued)) (rings_call hb hr (.register p (some service) issued))
  simp only [KernelCall.run, wp_map] at hcall
  refine wp_mono (wp_and hcall register_spec) (fun _ u hx => ?_)
    fun _ _ _ => trivial
  obtain ⟨⟨hbu, hru⟩, name, x, entry, hname, hreg, hentry, hu⟩ := hx
  cases hname
  have hx := Except.ok.inj (hreg.resolved.symm.trans (hissued _ (by decide) (by decide) hreg.ready))
  rw [hx] at hreg hentry hu
  have hreads : Reads s p issued e := ⟨⟨rfl, hissued _ (by decide) (by decide) hreg.ready, hreg.owner⟩, hb, hr⟩
  have hk : Kept e s.world u.world := by
    rw [hu]
    cases hold : (s.world.services service).endpoint with
    | none => exact kept_retain.trans ⟨rfl, rfl, fun he => ⟨he, rfl, rfl, rfl⟩⟩
    | some old =>
      have hne : old ≠ e := fun heq => hreg.other (hold.trans (congrArg some heq))
      exact (kept_retain.trans (kept_revoke hne)).trans ⟨rfl, rfl, fun he => ⟨he, rfl, rfl, rfl⟩⟩
  obtain ⟨hreads', hring⟩ := hreads.kept hbu hru (by rw [hu]; rfl) hk
  refine ⟨?_, hreads', ?_⟩
  · rw [hu]
    show ((IpcWorld.setService _ service entry).services service).endpoint = _
    rw [setService_services, if_pos rfl]
    exact hentry
  · rw [hring]
    exact hempty

end Kernel

namespace Shell
open Kernel IpcWorld
variable {σ : Type} {s t : ShellState σ} {e : EndpointRef}

/-- The service runs on an endpoint. -/
structure Serving (e : EndpointRef) (s : ShellState σ) : Prop where
  running : s.service.running = true
  reads : s.kernel.Reads s.service.config.process s.service.endpointHandle e

theorem wp_onKernel {α : Type} {m : Program IosError Kernel α} {Q : α → ShellState σ → Prop} {E : IosError → ShellState σ → Prop} :
    wp (onKernel m) Q E s = wp m (fun a k => Q a { s with kernel := k }) (fun error k => E error { s with kernel := k }) s.kernel :=
  wp_zoom

theorem start_spec (config : ShellServiceConfig σ) (hb : Balanced s.kernel) (hr : Rings s.kernel) :
    wp (shellServiceStart config) (fun _ t => t.service.config = config ∧ ∃ e,
      (t.kernel.world.services .shell).endpoint = some e ∧ Serving e t ∧ (t.kernel.world.endpoints e).contents = [])
      (fun _ _ => True) s := by
  unfold shellServiceStart
  simp only [wp_bind, wp_get, wp_failIf, modifyService, wp_modify, wp_onKernel]
  refine ⟨fun _ => trivial, fun _ => ⟨fun _ => trivial, fun _ => ?_⟩⟩
  refine wp_mono (trust_holds hb hr) (fun _ k hx => ?_) fun _ _ _ => trivial
  obtain ⟨hbk, hrk⟩ := hx
  refine wp_mono (create_holds hbk hrk) (fun issued k hx => ?_) fun _ _ _ => trivial
  obtain ⟨hbk, hrk, e, hempty, hissued⟩ := hx
  rw [wp_attempt, wp_onKernel]
  refine wp_mono (register_holds hbk hrk hempty hissued) (fun _ k hx => ?_) fun status k _ => ?_
  · obtain ⟨hservice, hreads, hempty⟩ := hx
    exact ⟨rfl, e, hservice, ⟨rfl, hreads⟩, hempty⟩
  · simp only [wp_bind, wp_attempt, wp_onKernel, wp_modify, wp_fail]
    exact wp_iff.mpr ⟨fun _ _ _ => trivial, fun _ _ _ => trivial⟩

end Shell
end InferenceOS
