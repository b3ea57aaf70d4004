import InferenceOS.Theorems.KernelRuns

/-! What an endpoint delivers: without blocking calls, the messages received are the first of those sent, and the ring
    holds the others in order. -/

namespace InferenceOS
open Program HandleTables Function KernelCall

/-- The call does not ask to block. -/
def KernelCall.NonBlocking : KernelCall → Prop
  | .send _ _ _ block | .receive _ _ _ block => block = false
  | _ => True

namespace IpcWorld
variable {w w' w'' : IpcWorld} {e : EndpointRef}

def SameRings (w w' : IpcWorld) : Prop :=
  ∀ e, (w'.endpoints e).allocated = true → (w.endpoints e).allocated = true ∧ (w'.endpoints e).toRing = (w.endpoints e).toRing

theorem SameRings.refl : SameRings w w := fun _ he => ⟨he, rfl⟩

theorem SameRings.trans (h : SameRings w w') (h' : SameRings w' w'') : SameRings w w'' := by
  intro e he
  obtain ⟨hlive, hring⟩ := h' e he
  obtain ⟨hlive', hring'⟩ := h e hlive
  exact ⟨hlive', hring.trans hring'⟩

theorem sameRings_set {endpoint : Endpoint} (he : w'.endpoints = update w.endpoints e endpoint)
    (hsame : endpoint.allocated = true → (w.endpoints e).allocated = true ∧ endpoint.toRing = (w.endpoints e).toRing) :
    SameRings w w' := by
  intro x hx
  rw [he, update_apply] at hx ⊢
  split
  · rename_i heq
    rw [if_pos heq] at hx
    rw [heq]
    exact hsame hx
  · rename_i hne
    rw [if_neg hne] at hx
    exact ⟨hx, rfl⟩

theorem sameRings_retain : SameRings w (endpointRetain e w) := by
  unfold endpointRetain
  dsimp only
  split
  · exact sameRings_set rfl fun hx => ⟨hx, rfl⟩
  · exact fun _ hx => ⟨hx, rfl⟩

theorem sameRings_release : SameRings w (endpointRelease e w) := by
  unfold endpointRelease
  dsimp only
  split
  · split
    · exact @sameRings_set w _ e Endpoint.zero rfl nofun
    · exact sameRings_set rfl fun hx => ⟨hx, rfl⟩
  · exact fun _ hx => ⟨hx, rfl⟩

theorem sameRings_revoke : SameRings w (Kernel.revoke e w) :=
  (@sameRings_set w _ e { w.endpoints e with revoked := true } rfl fun hx => ⟨hx, rfl⟩).trans sameRings_release

theorem stable_sameRings : Stable (SameRings w) :=
  ⟨fun _ _ h => h.trans sameRings_retain, fun _ _ h => h.trans sameRings_release⟩

end IpcWorld

namespace Kernel
open IpcWorld
variable {s u : Kernel} {tr : Trace} {p : ProcessRef} {e : EndpointRef} {issued : Handle}
variable {call : KernelCall}

/-- The send puts its caller to sleep: the queue is full. -/
def SendSleeps (s : Kernel) (p : ProcessRef) (handle : Handle) (request : SendRequest) (block : Bool) : Prop :=
  block = true ∧ (∃ e, s.SendsTo p handle request e ∧ (s.world.endpoints e).count = (s.world.endpoints e).capacity) ∧
    ∃ current, s.world.scheduler.CanBlock current

/-- The receive puts its caller to sleep: the queue is empty. -/
def ReceiveSleeps (s : Kernel) (p : ProcessRef) (handle : Handle) (out block : Bool) : Prop :=
  block = true ∧ (∃ e, s.ReceivesFrom p handle out e ∧ (s.world.endpoints e).count = 0) ∧
    ∃ current, s.world.scheduler.CanBlock current

/-- The call puts no one to sleep. -/
def Awake (s : Kernel) : KernelCall → Prop
  | .send p handle request block => ¬s.SendSleeps p handle request block
  | .receive p handle out block => ¬s.ReceiveSleeps p handle out block
  | _ => True

theorem awake_of_nonBlocking (h : call.NonBlocking) : s.Awake call := by
  cases call with
  | send | receive => exact fun hs => nomatch hs.1.symm.trans h
  | _ => trivial

/-- What a call that returned did to the messages. -/
inductive Moves (s u : Kernel) (call : KernelCall) (v : KernelValue) : Prop where
  | same : SameRings s.world u.world → (∀ tr, call.trace s u v tr = tr) → Moves s u call v
  | created (e : EndpointRef) (endpoint : Endpoint) : endpoint.Wf → endpoint.contents = [] →
    u.world.endpoints = update s.world.endpoints e endpoint →
    (∀ tr, call.trace s u v tr = ⟨update tr.sent e [], update tr.received e []⟩) → Moves s u call v
  | sent (e : EndpointRef) (message : IpcMessage) : (s.world.endpoints e).allocated = true →
    (s.world.endpoints e).count ≠ (s.world.endpoints e).capacity →
    u.world.endpoints = update s.world.endpoints e
      { s.world.endpoints e with toRing := (s.world.endpoints e).push message } →
    (∀ tr, call.trace s u v tr = { tr with sent := update tr.sent e (tr.sent e ++ [message]) }) → Moves s u call v
  | received (e : EndpointRef) : (s.world.endpoints e).allocated = true → (s.world.endpoints e).count ≠ 0 →
    u.world.endpoints = update s.world.endpoints e
      { s.world.endpoints e with toRing := (s.world.endpoints e).pop IpcMessage.zero } →
    (∀ tr, call.trace s u v tr =
      { tr with received := update tr.received e (tr.received e ++ [(s.world.endpoints e).front]) }) →
    Moves s u call v
  | slept : ¬s.Awake call → SameRings s.world u.world → Moves s u call v

theorem generation_lt (h : Balanced s) {i : Fin handleTableCapacity} : (s.entry p i).generation.toNat < 2 ^ 48 :=
  h.generation p i

theorem Granted.resolve {w : IpcWorld} {rights right : BitVec 64} (hg : s.Granted u w p e rights issued) (h : Balanced s)
    (hall : right &&& ~~~rightAll = 0) (hr : rights &&& right = right) :
    (u.tables p).handleTableResolve issued .ipcEndpoint right = .ok e := by
  obtain ⟨i, hi, rfl, rfl⟩ := hg
  have hentry : (((s.withWorld w).fill p i (some e) .ipcEndpoint rights (some endpointRetain)
      (some endpointRelease)).tables p).entries i = ⟨some e, rights, (s.entry p i).generation, .ipcEndpoint,
        some endpointRetain, some endpointRelease⟩ := by
    show entry _ p i = _
    rw [fill_entry, if_pos ⟨rfl, rfl⟩]
    rfl
  refine HandleTable.handleTableResolve_of_entry nofun hall ?_ hentry rfl rfl hr
  rw [HandleTable.decodeHandle_encode (generation_lt h), hentry]
  simp

theorem moves_spec (hb : Balanced s) (call : KernelCall) :
    wp call.run (fun v u => Moves s u call v) (fun _ u => SameRings s.world u.world) s := by
  cases call with
  | duplicate | transfer | close | closeAll =>
    exact wp_mono (hb.onHandles stable_sameRings .refl trivial) (fun _ _ hu => .same hu.2 fun _ => rfl) fun _ _ hu => hu.2
  | addProcess | selectNext | wakeTask =>
    have hany : ∀ u, (∃ scheduler, u = s.withScheduler scheduler) → SameRings s.world u.world := by
      rintro u ⟨scheduler, rfl⟩
      exact .refl
    exact wp_mono (onTasks_spec trivial) (fun _ u hu => .same (hany u hu) fun _ => rfl) fun _ u hu => hany u hu
  | create p depth out =>
    simp only [run, wp_map]
    refine wp_mono create_spec (fun issued u hx => ?_) fun _ u hu => ?_
    · obtain ⟨e, he, hpos, _, hg⟩ := hx
      have hresolve := hg.resolve hb (show (0 : BitVec 64) &&& ~~~rightAll = 0 by decide) BitVec.and_zero
      obtain ⟨i, -, -, rfl⟩ := hg
      refine .created e _ (Ring.Wf.empty hpos) rfl (update_idem _ _ _) fun tr => ?_
      simp only [trace, hresolve]
    · rcases hu with rfl | ⟨e, he, rfl⟩
      · exact .refl
      · refine @sameRings_set _ _ e Endpoint.zero ?_ (fun hx => by cases hx)
        show update (update (update _ _ _) _ _) _ _ = _
        rw [update_idem, update_idem]
  | send p handle request block =>
    simp only [run, wp_map]
    refine wp_mono send_spec (fun _ u hx => ?_) fun _ u hu => hu.1 ▸ .refl
    obtain ⟨e, hsends, hu⟩ := hx
    obtain ⟨-, hlive, -⟩ := resolveEndpoint_eq_ok hsends.resolved
    rcases hu with ⟨hfull, hblock, current, hc, rfl⟩ | ⟨hroom, rfl⟩
    · exact .slept (not_not.mpr ⟨hblock, ⟨e, hsends, hfull⟩, current, hc⟩) .refl
    · refine .sent e (request.message (s.world.processes p)) hlive hroom rfl fun tr => ?_
      simp only [trace, hsends.resolved]
  | receive p handle out block =>
    simp only [run, wp_map]
    refine wp_mono receive_spec (fun v u hx => ?_) fun _ u hu => hu.1 ▸ .refl
    obtain ⟨e, hreceives, hu⟩ := hx
    obtain ⟨-, hlive, -⟩ := resolveEndpoint_eq_ok hreceives.resolved
    rcases hu with ⟨hempty, hblock, -, current, hc, rfl⟩ | ⟨hsome, rfl, rfl⟩
    · exact .slept (not_not.mpr ⟨hblock, ⟨e, hreceives, hempty⟩, current, hc⟩) .refl
    · refine .received e hlive hsome rfl fun tr => ?_
      simp only [trace, hreceives.resolved]
  | trust service identity =>
    simp only [run, wp_map]
    refine wp_mono trust_spec (fun _ u hx => ?_) fun _ u hu => hu ▸ .refl
    obtain ⟨name, entry, _, _, hu⟩ := hx
    rw [hu]
    exact .same .refl fun _ => rfl
  | register p service handle =>
    simp only [run, wp_map]
    refine wp_mono register_spec (fun _ u hx => ?_) fun _ u hu => hu.1 ▸ .refl
    obtain ⟨name, e, entry, _, _, _, hu⟩ := hx
    refine .same ?_ fun _ => rfl
    rw [hu]
    cases (s.world.services name).endpoint with
    | none => exact sameRings_retain (e := e)
    | some old => exact sameRings_retain.trans (sameRings_revoke (e := old))
  | connect p service out =>
    simp only [run, wp_map]
    refine wp_mono connect_spec (fun _ u hx => ?_) fun _ u hu => ?_
    · obtain ⟨name, e, _, _, hg⟩ := hx
      obtain ⟨i, -, -, rfl⟩ := hg
      exact .same (sameRings_retain (e := e)) fun _ => rfl
    · rcases hu with rfl | ⟨name, e, _, rfl⟩
      · exact .refl
      · exact sameRings_retain.trans (sameRings_release (e := e))
  | unregister p service =>
    simp only [run, wp_map]
    refine wp_mono unregister_spec (fun _ u hx => ?_) fun _ u hu => hu.1 ▸ .refl
    obtain ⟨name, e, entry, _, _, _, hu⟩ := hx
    refine .same ?_ fun _ => rfl
    rw [hu]
    exact sameRings_revoke (e := e)

def Rings (s : Kernel) : Prop := ∀ e, (s.world.endpoints e).allocated = true → (s.world.endpoints e).Wf

theorem Rings.same (h : Rings s) (hs : SameRings s.world u.world) : Rings u := by
  intro e he
  obtain ⟨hlive, hring⟩ := hs e he
  rw [hring]
  exact h e hlive

theorem Rings.set (h : Rings s) {endpoint : Endpoint} (he : u.world.endpoints = update s.world.endpoints e endpoint)
    (hwf : endpoint.Wf) : Rings u := by
  intro x hx
  rw [he, update_apply] at hx ⊢
  split
  · exact hwf
  · rename_i hne
    rw [if_neg hne] at hx
    exact h x hx

theorem Rings.moves (h : Rings s) {v : KernelValue} (hm : Moves s u call v) : Rings u := by
  cases hm with
  | same hs | slept _ hs => exact h.same hs
  | created e endpoint hwf _ he => exact h.set he hwf
  | sent e message hlive hroom he => exact h.set he ((h e hlive).push (lt_of_le_of_ne (h e hlive).count hroom))
  | received e hlive hsome he => exact h.set he ((h e hlive).pop (Nat.pos_of_ne_zero hsome))

theorem Booted.unallocated (h : Booted s) (e : EndpointRef) : (s.world.endpoints e).allocated = false := by
  obtain ⟨w, hw⟩ := h.ipc
  rw [hw]
  rfl

theorem rings_run {allowed : Kernel → KernelCall → Prop} (h : KernelRun allowed s tr) : Rings s := by
  induction h with
  | booted hb => exact fun e he => nomatch he.symm.trans (Booted.unallocated hb e)
  | @returned s u tr call v hrun _ hr ih =>
    have hm := wp_ok (moves_spec (balanced_run hrun) call) hr
    exact ih.moves hm
  | @failed s u tr call error hrun _ hr ih =>
    have hs := wp_error (moves_spec (balanced_run hrun) call) hr
    exact ih.same hs

structure Delivered (s : Kernel) (tr : Trace) : Prop where
  firsts : ∀ e, tr.received e <+: tr.sent e
  pending : ∀ e, (s.world.endpoints e).allocated = true → tr.sent e = tr.received e ++ (s.world.endpoints e).contents

theorem Delivered.same (h : Delivered s tr) (hs : SameRings s.world u.world) : Delivered u tr where
  firsts := h.firsts
  pending e he := by
    obtain ⟨hlive, hring⟩ := hs e he
    rw [hring]
    exact h.pending e hlive

theorem Delivered.set (h : Delivered s tr) {endpoint : Endpoint} {sent received : List IpcMessage}
    (he : u.world.endpoints = update s.world.endpoints e endpoint) (hp : sent = received ++ endpoint.contents) :
    Delivered u ⟨update tr.sent e sent, update tr.received e received⟩ := by
  refine ⟨fun x => ?_, fun x hx => ?_⟩
  all_goals
    by_cases heq : x = e
  · simp only [heq, update_self, hp]
    exact List.prefix_append _ _
  · simp only [update_of_ne heq]
    exact h.firsts x
  · rw [he, heq]
    simp only [update_self]
    exact hp
  · rw [he, update_of_ne heq] at hx ⊢
    simp only [update_of_ne heq]
    exact h.pending x hx

theorem Delivered.moves (h : Delivered s tr) (hr : Rings s) {v : KernelValue} (hm : Moves s u call v)
    (hawake : s.Awake call) : Delivered u (call.trace s u v tr) := by
  cases hm with
  | slept hsleeps => exact absurd hawake hsleeps
  | same hs htr =>
    rw [htr]
    exact h.same hs
  | created e endpoint _ hnone he htr =>
    rw [htr]
    exact h.set he hnone.symm
  | sent e message hlive hroom he htr =>
    have hwf := hr e hlive
    have hset : Delivered u ⟨update tr.sent e (tr.sent e ++ [message]), update tr.received e (tr.received e)⟩ :=
      h.set he (by rw [Ring.contents_push hwf (lt_of_le_of_ne hwf.count hroom), h.pending e hlive, List.append_assoc])
    rw [htr]
    rwa [update_eq_self] at hset
  | received e hlive hsome he htr =>
    have hset : Delivered u ⟨update tr.sent e (tr.sent e),
        update tr.received e (tr.received e ++ [(s.world.endpoints e).front])⟩ := h.set he
      (by rw [h.pending e hlive, Ring.contents_pop (hr e hlive) (Nat.pos_of_ne_zero hsome), List.append_assoc]; rfl)
    rw [htr]
    rwa [update_eq_self] at hset

theorem delivered_run {allowed : Kernel → KernelCall → Prop} (hawake : ∀ s call, allowed s call → s.Awake call)
    (h : KernelRun allowed s tr) : Delivered s tr := by
  induction h with
  | booted hb => exact ⟨fun _ => List.prefix_rfl, fun e he => nomatch he.symm.trans (Booted.unallocated hb e)⟩
  | @returned s u tr call v hrun hc hr ih =>
    have hm := wp_ok (moves_spec (balanced_run hrun) call) hr
    exact ih.moves (rings_run hrun) hm (hawake s call hc)
  | @failed s u tr call error hrun hc hr ih =>
    have hs := wp_error (moves_spec (balanced_run hrun) call) hr
    exact ih.same hs

theorem send_eq {request : SendRequest} {handle : Handle} (h : s.SendsTo p handle request e) :
    ipcSend p handle request false s = if (s.world.endpoints e).count = (s.world.endpoints e).capacity then
      (.error .wouldBlock, s)
    else (.ok (), s.withWorld (sent e (request.message (s.world.processes p)) s.world)) := by
  unfold ipcSend
  rw [failIf_pass h.wellFormed, bind_ok (show get s = _ from rfl), h.resolved, ofExcept_ok_bind]
  split <;> rfl

theorem receive_eq {handle : Handle} {out : Bool} (h : s.ReceivesFrom p handle out e) :
    ipcReceive p handle out false s = if (s.world.endpoints e).count = 0 then (.error .wouldBlock, s)
    else (.ok (some (s.world.endpoints e).front), s.withWorld (received e s.world)) := by
  unfold ipcReceive
  rw [failIf_pass (by rw [h.buffer]; nofun), bind_ok (show get s = _ from rfl), h.resolved, ofExcept_ok_bind]
  rw [failIf_pass (not_not.mpr h.owner)]
  split <;> rfl

/-- Without blocking calls, the messages received from an endpoint are the first of those sent to it, and a call with
    valid arguments would block exactly when the endpoint is full or empty. -/
theorem delivery_exact (h : KernelRun (fun _ call => call.NonBlocking) s tr) :
    (∀ e, tr.received e <+: tr.sent e) ∧
    (∀ e, (s.world.endpoints e).allocated = true → tr.sent e = tr.received e ++ (s.world.endpoints e).contents) ∧
    (∀ p handle request e, s.SendsTo p handle request e →
      (ipcSend p handle request false s = (.error .wouldBlock, s) ↔
        (s.world.endpoints e).contents.length = (s.world.endpoints e).capacity) ∧
      ((∃ u, ipcSend p handle request false s = (.ok (), u)) ↔
        (s.world.endpoints e).contents.length < (s.world.endpoints e).capacity)) ∧
    (∀ p handle out e, s.ReceivesFrom p handle out e →
      (ipcReceive p handle out false s = (.error .wouldBlock, s) ↔ (s.world.endpoints e).contents = []) ∧
      ((∃ message u, ipcReceive p handle out false s = (.ok (some message), u)) ↔ (s.world.endpoints e).contents ≠ [])) ∧
    (∀ p handle request block error u, ipcSend p handle request block s = (.error error, u) → u = s) ∧
    ∀ p handle out block error u, ipcReceive p handle out block s = (.error error, u) → u = s := by
  have hd := delivered_run (fun _ _ => awake_of_nonBlocking) h
  refine ⟨hd.firsts, hd.pending, fun p handle request e he => ?_, fun p handle out e he => ?_,
    fun p handle request block error u hr => ?_, fun p handle out block error u hr => ?_⟩
  · obtain ⟨-, hlive, -⟩ := resolveEndpoint_eq_ok he.resolved
    have hcount := (rings_run h e hlive).count
    rw [Ring.length_contents, send_eq he]
    split
    · rename_i hfull
      exact ⟨⟨fun _ => hfull, fun _ => rfl⟩, nofun, fun hlt => absurd hfull hlt.ne⟩
    · rename_i hroom
      exact ⟨⟨nofun, fun hfull => absurd hfull hroom⟩, fun _ => lt_of_le_of_ne hcount hroom, fun _ => ⟨_, rfl⟩⟩
  · rw [Ne, ← List.length_eq_zero_iff, Ring.length_contents, receive_eq he]
    split
    · rename_i hempty
      exact ⟨⟨fun _ => hempty, fun _ => rfl⟩, nofun, fun hne => absurd hempty hne⟩
    · rename_i hsome
      exact ⟨⟨nofun, fun hempty => absurd hempty hsome⟩, fun _ => hsome, fun _ => ⟨_, _, rfl⟩⟩
  · have hu := wp_error send_spec hr
    exact hu.1
  · have hu := wp_error receive_spec hr
    exact hu.1

def firstHandle : Handle := 0x10000010001

def firstRequest : SendRequest := ⟨1, 1, 0, 0, none, 0⟩

/-- The first of two messages was received, and a task runs. -/
def exchanged : List KernelCall :=
  [.create 0 2 true, .send 0 firstHandle firstRequest false, .send 0 firstHandle ⟨2, 1, 0, 0, none, 0⟩ false,
    .receive 0 firstHandle true false, .addProcess 0 true, .selectNext]

theorem nonBlocking_exchanged : ∀ call ∈ exchanged, call.NonBlocking := by
  intro call hcall
  simp only [exchanged, List.mem_cons, List.not_mem_nil, or_false] at hcall
  rcases hcall with rfl | rfl | rfl | rfl | rfl | rfl
  all_goals trivial

theorem delivery_exact_exchanged : ∃ s tr, KernelRun (fun _ call => call.NonBlocking) s tr ∧
    (tr.received 0).length = 1 ∧ (s.world.endpoints 0).contents.length = 1 ∧
    tr.sent 0 = tr.received 0 ++ (s.world.endpoints 0).contents ∧
    (∃ u, ipcSend 0 firstHandle firstRequest false s = (.ok (), u)) ∧
    ∃ message u, ipcReceive 0 firstHandle true false s = (.ok (some message), u) := by
  have hrun : KernelRun (fun _ call => call.NonBlocking) (runAll exchanged boot) _ :=
    .runAll (fun call hcall _ => nonBlocking_exchanged call hcall) (.booted booted_boot)
  have hlength : ((runAll exchanged boot).world.endpoints 0).contents.length = 1 := by
    rw [Ring.length_contents]
    decide +kernel
  have hcapacity : ((runAll exchanged boot).world.endpoints 0).capacity = 2 := by decide +kernel
  obtain ⟨-, hpending, hsend, hreceive, -⟩ := delivery_exact hrun
  refine ⟨_, _, hrun, by decide +kernel, hlength, hpending 0 (by decide +kernel),
    (hsend 0 firstHandle firstRequest 0 ⟨by decide, by decide +kernel⟩).2.mpr (by omega),
    (hreceive 0 firstHandle true 0 ⟨rfl, by decide +kernel, by decide +kernel⟩).2.mpr ?_⟩
  rw [Ne, ← List.length_eq_zero_iff, hlength]
  decide

end Kernel
end InferenceOS
