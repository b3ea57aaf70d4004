import InferenceOS.Theorems.Delivery

/-! Blocking calls. `scheduler_block_current` returns at once, and `ipc_send` and `ipc_receive` return its status: a call
    that puts its task to sleep reports success and moves no message. -/

namespace InferenceOS
open Program HandleTables KernelCall

namespace Kernel
open IpcWorld
variable {s : Kernel} {tr : Trace}

/-- A send that succeeds puts its message into the queue. -/
def SendKept (s : Kernel) (p : ProcessRef) (handle : Handle) (request : SendRequest) (block : Bool) : Prop :=
  ∀ u, ipcSend p handle request block s = (.ok (), u) → ∃ e, s.SendsTo p handle request e ∧
    (u.world.endpoints e).contents = (s.world.endpoints e).contents ++ [request.message (s.world.processes p)]

/-- A receive that succeeds gives out the first message of the queue. -/
def ReceiveKept (s : Kernel) (p : ProcessRef) (handle : Handle) (out block : Bool) : Prop :=
  ∀ v u, ipcReceive p handle out block s = (.ok v, u) → ∃ e message, s.ReceivesFrom p handle out e ∧ v = some message ∧
    (s.world.endpoints e).contents = message :: (u.world.endpoints e).contents

theorem Sleeps.endpoints {u : Kernel} {q : IpcQueue} (h : s.Sleeps u q) : u.world.endpoints = s.world.endpoints := by
  obtain ⟨current, -, rfl⟩ := h
  rfl

theorem sendKept_iff (hr : Rings s) {p : ProcessRef} {handle : Handle} {request : SendRequest} {block : Bool} :
    s.SendKept p handle request block ↔ ¬s.SendSleeps p handle request block := by
  constructor
  · rintro hkept ⟨rfl, ⟨e, he, hfull⟩, current, hc⟩
    rcases hrun : ipcSend p handle request true s with ⟨_ | _, u⟩
    · have hfailed := wp_error send_spec hrun
      obtain ⟨-, hblock | hnone⟩ := hfailed.2 e he
      · cases hblock.1
      · exact hnone.2 current hc
    · obtain ⟨x, hx, hcontents⟩ := hkept u hrun
      have hreturned := wp_ok send_spec hrun
      obtain ⟨y, hy, ⟨-, -, hsleeps⟩ | ⟨hroom, -⟩⟩ := hreturned
      · have hlength := congrArg List.length hcontents
        rw [hsleeps.endpoints, List.length_append, List.length_singleton] at hlength
        omega
      · rw [Except.ok.inj (he.resolved.symm.trans hy.resolved)] at hfull
        exact hroom hfull
  · intro hawake u hrun
    have hreturned := wp_ok send_spec hrun
    obtain ⟨e, he, ⟨hfull, hblock, current, hc, -⟩ | ⟨hroom, rfl⟩⟩ := hreturned
    · exact absurd ⟨hblock, ⟨e, he, hfull⟩, current, hc⟩ hawake
    · have hwf := hr e (resolveEndpoint_eq_ok he.resolved).2.1
      refine ⟨e, he, ?_⟩
      rw [← Ring.contents_push hwf (lt_of_le_of_ne hwf.count hroom)]
      show ((s.world.setEndpoint e _).endpoints e).contents = _
      rw [setEndpoint_endpoints, if_pos rfl]

theorem receiveKept_iff (hr : Rings s) {p : ProcessRef} {handle : Handle} {out block : Bool} :
    s.ReceiveKept p handle out block ↔ ¬s.ReceiveSleeps p handle out block := by
  constructor
  · rintro hkept ⟨rfl, ⟨e, he, hempty⟩, current, hc⟩
    rcases hrun : ipcReceive p handle out true s with ⟨_ | v, u⟩
    · have hfailed := wp_error receive_spec hrun
      obtain ⟨-, hblock | hnone⟩ := hfailed.2 e he
      · cases hblock.1
      · exact hnone.2 current hc
    · obtain ⟨x, message, hx, hv, -⟩ := hkept v u hrun
      have hreturned := wp_ok receive_spec hrun
      obtain ⟨y, hy, ⟨-, -, hnone, -⟩ | ⟨hsome, -⟩⟩ := hreturned
      · exact nomatch hnone.symm.trans hv
      · rw [Except.ok.inj (he.resolved.symm.trans hy.resolved)] at hempty
        exact hsome hempty
  · intro hawake v u hrun
    have hreturned := wp_ok receive_spec hrun
    obtain ⟨e, he, ⟨hempty, hblock, -, current, hc, -⟩ | ⟨hsome, rfl, rfl⟩⟩ := hreturned
    · exact absurd ⟨hblock, ⟨e, he, hempty⟩, current, hc⟩ hawake
    · have hwf := hr e (resolveEndpoint_eq_ok he.resolved).2.1
      refine ⟨e, _, he, rfl, ?_⟩
      rw [@Ring.contents_pop _ _ IpcMessage.zero hwf (Nat.pos_of_ne_zero hsome)]
      show _ = _ :: ((s.world.setEndpoint e _).endpoints e).contents
      rw [setEndpoint_endpoints, if_pos rfl]

/-- In any state that can be reached, a send or a receive keeps its promise exactly when it puts no task to sleep. In a
    run of such calls, the messages received and those in the queue are those whose sends returned. -/
theorem promise_iff (h : KernelRun (fun _ _ => True) s tr) :
    (∀ p handle request block, s.SendKept p handle request block ↔ ¬s.SendSleeps p handle request block) ∧
    (∀ p handle out block, s.ReceiveKept p handle out block ↔ ¬s.ReceiveSleeps p handle out block) ∧
    (KernelRun Awake s tr → ∀ e, (s.world.endpoints e).allocated = true →
      tr.sent e = tr.received e ++ (s.world.endpoints e).contents) := by
  have hr := rings_run h
  exact ⟨fun p handle request block => sendKept_iff hr, fun p handle out block => receiveKept_iff hr,
    fun hawake => (delivered_run (fun _ _ hc => hc) hawake).pending⟩

theorem promise_iff_exchanged : ∃ s tr, KernelRun Awake s tr ∧ s.SendKept 0 firstHandle firstRequest true ∧
    s.ReceiveKept 0 firstHandle true true ∧ tr.sent 0 = tr.received 0 ++ (s.world.endpoints 0).contents := by
  have hawake : KernelRun Awake (runAll exchanged boot) _ :=
    .runAll (fun call hcall _ => awake_of_nonBlocking (nonBlocking_exchanged call hcall)) (.booted booted_boot)
  have hrun : KernelRun (fun _ _ => True) (runAll exchanged boot) _ :=
    .runAll (fun _ _ _ => trivial) (.booted booted_boot)
  have hends : (runAll exchanged boot).resolveEndpoint 0 firstHandle rightSignal = .ok 0 ∧
      (runAll exchanged boot).resolveEndpoint 0 firstHandle rightWait = .ok 0 ∧
      ((runAll exchanged boot).world.endpoints 0).count = 1 ∧
      ((runAll exchanged boot).world.endpoints 0).capacity = 2 := by decide +kernel
  obtain ⟨hsignal, hwait, hcount, hcapacity⟩ := hends
  obtain ⟨hsend, hreceive, hpending⟩ := promise_iff hrun
  refine ⟨_, _, hawake, (hsend 0 firstHandle firstRequest true).mpr ?_, (hreceive 0 firstHandle true true).mpr ?_,
    hpending hawake 0 (by decide +kernel)⟩
  · rintro ⟨-, ⟨e, he, hfull⟩, -⟩
    rw [Except.ok.inj (he.resolved.symm.trans hsignal)] at hfull
    omega
  · rintro ⟨-, ⟨e, he, hempty⟩, -⟩
    rw [Except.ok.inj (he.resolved.symm.trans hwait)] at hempty
    omega

/-- The task of the first process waits for a message that nobody sends, and the call returns without one. -/
theorem receive_unfilled : ¬∀ s tr, KernelRun (fun _ _ => True) s tr →
    (∀ p handle request block, s.SendKept p handle request block) ∧ ∀ p handle out block, s.ReceiveKept p handle out block := by
  intro hall
  have hrun : KernelRun (fun _ _ => True) (runAll [.create 0 1 true, .addProcess 0 true, .selectNext] boot) _ :=
    .runAll (fun _ _ _ => trivial) (.booted booted_boot)
  have hreceive : ipcReceive 0 firstHandle true true
      (runAll [.create 0 1 true, .addProcess 0 true, .selectNext] boot) = (.ok none, _) := run_eq (by decide +kernel)
  obtain ⟨_, _, _, hv, _⟩ := (hall _ _ hrun).2 0 firstHandle true true none _ hreceive
  cases hv

end Kernel
end InferenceOS
