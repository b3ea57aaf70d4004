import InferenceOS.Theorems.ShellService

/-! Exchanges of clients with the shell while other clients send to it. An exchange is answered by the message at the head of
    the queue, which is its own one when the queue was empty before. -/

namespace InferenceOS
open Program HandleTables Kernel IpcWorld Shell ShellDispatchResult
variable {status : Except IosError Unit}

/-- A call of a client or, with `poll`, of the shell itself. -/
inductive ShellCall where
  | send (sender : ProcessRef) (handle : Handle) (request : SendRequest) (block : Bool)
  | connect (client : ProcessRef) (service : Option TrustedService) (out : Bool)
  | close (client : ProcessRef) (handle : Handle)
  | poll (stack : IpcMessage)
  | exchange (client : ProcessRef) (shellChannel : Handle) (requestId : Nat) (operation : ShellOperation)
    (payload : Option (Nat → UInt8)) (payloadSize : Nat) (stack : IpcMessage)

/-- A message that the endpoint of the shell accepted, with its sender. -/
structure Accepted where
  sender : ProcessIdentity
  request : SendRequest

def Accepted.message (a : Accepted) : IpcMessage := a.request.message a.sender

/-- A message that was dispatched, and what came of it. -/
structure Dispatched where
  message : IpcMessage
  status : Except IosError Unit
  result : ShellDispatchResult

/-- An exchange whose send was accepted: the place of its message among the accepted ones, the number of dispatches when it
    returned, and what it returned. -/
structure Exchanged where
  place : Nat
  dispatches : Nat
  status : Except IosError Unit
  result : ShellDispatchResult

/-- What happened so far, in order. -/
structure ShellTrace where
  accepted : List Accepted
  dispatched : List Dispatched
  exchanged : List Exchanged

namespace ShellTrace

def empty : ShellTrace := ⟨[], [], []⟩

/-- Each answer is the one of the dispatch made for it. -/
def InStep (tr : ShellTrace) : Prop := ∀ x ∈ tr.exchanged, x.place < x.dispatches ∧
  ∃ d, tr.dispatched[x.place]? = some d ∧ x.status = d.status ∧ x.result = d.result

end ShellTrace

namespace Shell
variable {σ : Type}

def acceptedBy (e : EndpointRef) (s : Kernel) (sender : ProcessRef) (handle : Handle) (request : SendRequest) : List Accepted :=
  if ¬request.IsMalformed ∧ s.resolveEndpoint sender handle rightSignal = .ok e ∧
      (s.world.endpoints e).count ≠ (s.world.endpoints e).capacity then [⟨s.world.processes sender, request⟩] else []

/-- The dispatch of the next message of the endpoint. -/
def nextDispatch (e : EndpointRef) (s : ShellState σ) : List Dispatched :=
  let endpoint := s.kernel.world.endpoints e
  if endpoint.count = 0 then []
  else
    let outcome := shellServiceDispatch endpoint.front { s with kernel := s.kernel.withWorld (received e s.kernel.world) }
    [⟨endpoint.front, outcome.1, outcome.2.result⟩]

end Shell

namespace ShellCall
variable {σ : Type}

/-- The call. -/
def run : ShellCall → Program IosError (ShellState σ) Unit
  | .send sender handle request block => onKernel (ipcSend sender handle request block)
  | .connect client service out => (fun _ => ()) <$> onKernel (ipcServiceConnect client service out)
  | .close client handle => onKernel (handleTableClose client handle)
  | .poll stack => shellServiceReceiveAndDispatch false stack
  | .exchange client shellChannel requestId operation payload payloadSize stack =>
    shellServiceExchange client shellChannel requestId operation payload payloadSize stack

def exchangeRequest (requestId : Nat) (operation : ShellOperation) (payload : Option (Nat → UInt8)) (payloadSize : Nat) :
    SendRequest := ⟨requestId, operation.number, 0, 0, payload, payloadSize⟩

/-- The trace after a call in the state `s`, when `e` is the endpoint of the shell. -/
def trace (e : EndpointRef) (s : ShellState σ) (tr : ShellTrace) (call : ShellCall) : ShellTrace :=
  match call with
  | .send sender handle request _ => { tr with accepted := tr.accepted ++ acceptedBy e s.kernel sender handle request }
  | .connect .. | .close .. => tr
  | .poll _ => { tr with dispatched := tr.dispatched ++ nextDispatch e s }
  | .exchange client shellChannel requestId operation payload payloadSize _ =>
    let request := exchangeRequest requestId operation payload payloadSize
    match ipcSend client shellChannel request false s.kernel with
    | (.ok _, kernel) =>
      let dispatched := tr.dispatched ++ nextDispatch e { s with kernel, result := zero }
      { accepted := tr.accepted ++ acceptedBy e s.kernel client shellChannel request, dispatched
        exchanged := tr.exchanged ++ [⟨tr.accepted.length, dispatched.length, (call.run s).1, (call.run s).2.result⟩] }
    | (.error _, _) => tr

def step (e : EndpointRef) (p : ShellState σ × ShellTrace) (call : ShellCall) : ShellState σ × ShellTrace :=
  ((call.run p.1).2, call.trace e p.1 p.2)

/-- The call is not made by the shell process itself. -/
def FromClients (process : ProcessRef) : ShellCall → Prop
  | .connect client _ _ | .close client _ => client ≠ process
  | _ => True

/-- When the send of an exchange is accepted, it is accepted by the endpoint of the shell, whose queue is empty. -/
def Clear (e : EndpointRef) (s : ShellState σ) : ShellCall → Prop
  | .exchange client shellChannel requestId operation payload payloadSize _ =>
    ∀ x, s.kernel.SendsTo client shellChannel (exchangeRequest requestId operation payload payloadSize) x →
      (s.kernel.world.endpoints x).count ≠ (s.kernel.world.endpoints x).capacity →
      x = e ∧ (s.kernel.world.endpoints e).contents = []
  | _ => True

def AllClear (e : EndpointRef) : List ShellCall → ShellState σ → Prop
  | [], _ => True
  | call :: rest, s => call.Clear e s ∧ AllClear e rest (call.run s).2

end ShellCall
open ShellCall

variable {call : ShellCall}

namespace Shell
variable {σ : Type} {s t : ShellState σ} {e : EndpointRef} {message stack : IpcMessage}

structure Fills (s t : ShellState σ) : Prop where
  kernel : t.kernel = s.kernel
  service : t.service = s.service
  requestId : t.result.requestId = s.result.requestId

instance : Std.Refl (Fills (σ := σ)) := ⟨fun _ => ⟨rfl, rfl, rfl⟩⟩

instance : IsTrans (ShellState σ) Fills :=
  ⟨fun _ _ _ h h' => ⟨h'.kernel.trans h.kernel, h'.service.trans h.service, h'.requestId.trans h.requestId⟩⟩

theorem keeps_dispatchFileView : Keeps (Fills (σ := σ)) (dispatchFileView message) := by
  unfold dispatchFileView
  refine keeps_get.bind fun s => ?_
  refine (keeps_modify fun _ => ⟨rfl, rfl, rfl⟩).bind fun _ => keeps_failIf.bind fun _ => ?_
  refine (keeps_each fun _ _ => keeps_ofExcept).bind fun _ => ?_
  exact (keeps_modify fun _ => ⟨rfl, rfl, rfl⟩).bind fun _ => keeps_ofExcept

theorem keeps_dispatchGuiView : Keeps (Fills (σ := σ)) (dispatchGuiView message) := by
  unfold dispatchGuiView
  refine keeps_get.bind fun s => ?_
  refine (keeps_modify fun _ => ⟨rfl, rfl, rfl⟩).bind fun _ => keeps_failIf.bind fun _ => ?_
  exact (keeps_modify fun _ => ⟨rfl, rfl, rfl⟩).bind fun _ => keeps_ofExcept

structure Answers (message : IpcMessage) (s t : ShellState σ) : Prop where
  kernel : t.kernel = s.kernel
  service : t.service = s.service
  requestId : t.result.requestId = message.requestId

theorem dispatch_spec (hs : s.service.running = true) : wp (shellServiceDispatch message) (fun _ t => Answers message s t)
    (fun error t => Answers message s t ∨ t = s ∧ shellMessageValidate message = .error error) s := by
  unfold shellServiceDispatch
  simp only [wp_bind, wp_get, wp_failIf, wp_ofExcept, modifyResult, wp_modify]
  refine ⟨fun hnot => (by cases hnot.symm.trans hs), fun _ => ⟨fun _ hvalid => ?_, fun error herror => Or.inr ⟨trivial, herror⟩⟩⟩
  have hkeeps : Keeps Fills (if shellOperationIsFileView message.operation = true then dispatchFileView (σ := σ) message
      else dispatchGuiView message) := keeps_ite (fun _ => keeps_dispatchFileView) fun _ => keeps_dispatchGuiView
  exact wp_mono hkeeps.wp (fun _ _ ht => ⟨ht.kernel, ht.service, ht.requestId⟩)
    fun _ _ ht => Or.inl ⟨ht.kernel, ht.service, ht.requestId⟩

theorem dispatch_frame (hs : s.service.running = true) : (shellServiceDispatch message s).2.kernel = s.kernel ∧
    (shellServiceDispatch message s).2.service = s.service := by
  have hframe : wp (shellServiceDispatch message) (fun _ t => t.kernel = s.kernel ∧ t.service = s.service)
      (fun _ t => t.kernel = s.kernel ∧ t.service = s.service) s := by
    refine wp_mono (dispatch_spec hs) (fun _ t ht => ⟨ht.kernel, ht.service⟩) fun error t ht => ?_
    rcases ht with ht | ⟨rfl, -⟩
    · exact ⟨ht.kernel, ht.service⟩
    · exact ⟨rfl, rfl⟩
  exact of_wp (P := fun t : ShellState σ => t.kernel = s.kernel ∧ t.service = s.service) hframe

theorem validate_error {operation : ShellOperation} {error : IosError} (ho : message.operation = operation.number)
    (h : shellMessageValidate message = .error error) : error = .protocol := by
  have hknown : ¬(shellOperationIsFileView message.operation = false ∧ message.operation ≠ ShellOperation.guiView.number) := by
    rw [ho]
    cases operation <;> decide
  unfold shellMessageValidate validateTransportHeader at h
  rw [if_neg hknown] at h
  split at h
  · cases h
    rfl
  · change (if _ then _ else _) = _ at h
    unfold validateFileViewRequest validateGuiViewRequest at h
    split_ifs at h
    all_goals
      cases h
      rfl

theorem acceptedBy_of {k : Kernel} {sender : ProcessRef} {handle : Handle} {request : SendRequest}
    (hs : k.SendsTo sender handle request e) (hroom : (k.world.endpoints e).count ≠ (k.world.endpoints e).capacity) :
    acceptedBy e k sender handle request = [⟨k.world.processes sender, request⟩] := by
  rw [acceptedBy, if_pos ⟨hs.wellFormed, hs.resolved, hroom⟩]

theorem acceptedBy_eq_nil {k : Kernel} {sender : ProcessRef} {handle : Handle} {request : SendRequest}
    (h : k.SendsTo sender handle request e → (k.world.endpoints e).count = (k.world.endpoints e).capacity) :
    acceptedBy e k sender handle request = [] := by
  rw [acceptedBy, if_neg]
  rintro ⟨hgood, hresolved, hroom⟩
  exact hroom (h ⟨hgood, hresolved⟩)

theorem reads_send {k : Kernel} {p sender : ProcessRef} {channel handle : Handle} (h : k.Reads p channel e) (request : SendRequest)
    (block : Bool) : (ipcSend sender handle request block k).2.Reads p channel e ∧
      ((ipcSend sender handle request block k).2.world.endpoints e).contents =
        (k.world.endpoints e).contents ++ (acceptedBy e k sender handle request).map Accepted.message := by
  obtain ⟨hb, hr⟩ := h.call (.send sender handle request block)
  rw [KernelCall.run, map_state] at hb hr
  have hsame : ∀ {u : Kernel}, Balanced u → Rings u → u.tables = k.tables → Kept e k.world u.world →
      acceptedBy e k sender handle request = [] → u.Reads p channel e ∧ (u.world.endpoints e).contents =
        (k.world.endpoints e).contents ++ (acceptedBy e k sender handle request).map Accepted.message := by
    intro u hb hr ht hk hnone
    obtain ⟨hreads, hring⟩ := h.kept hb hr (by rw [ht]) hk
    rw [hring, hnone]
    exact ⟨hreads, (List.append_nil _).symm⟩
  rcases hrun : ipcSend sender handle request block k with ⟨status | ⟨⟩, u⟩
  all_goals rw [hrun] at hb hr
  · obtain ⟨hu, hfull⟩ := wp_error send_spec hrun
    exact hsame hb hr (by rw [hu]) (by rw [hu]; exact .refl) (acceptedBy_eq_nil fun hs => (hfull e hs).1)
  · obtain ⟨x, hs, hcase⟩ := wp_ok send_spec hrun
    have hx : ∀ hs' : k.SendsTo sender handle request e, x = e := fun hs' => Except.ok.inj (hs.resolved.symm.trans hs'.resolved)
    rcases hcase with ⟨hfull, -, current, -, hu⟩ | ⟨hroom, hu⟩
    · refine hsame hb hr (by rw [hu]; rfl) (by rw [hu]; exact ⟨rfl, rfl, fun he => ⟨he, rfl, rfl, rfl⟩⟩) ?_
      exact acceptedBy_eq_nil fun hs' => hx hs' ▸ hfull
    · by_cases heq : x = e
      · rw [heq] at hs hroom hu
        have hnew : u.world.endpoints e = { k.world.endpoints e with
            toRing := (k.world.endpoints e).push (request.message (k.world.processes sender)) } := by
          rw [hu]
          exact Function.update_self _ _ _
        have hlive := (resolveEndpoint_eq_ok h.receives.resolved).2.1
        have hready : u.world.ipcReady = k.world.ipcReady ∧ u.tables = k.tables ∧ u.world.processes = k.world.processes := by
          rw [hu]
          exact ⟨rfl, rfl, rfl⟩
        refine ⟨⟨⟨rfl, resolveEndpoint_congr h.receives.resolved (by rw [hready.2.1]) hready.1 ?_ ?_, ?_⟩, hb, hr⟩, ?_⟩
        · rw [hnew]
          exact hlive
        · rw [hnew]
        · rw [hnew, hready.2.2]
          exact h.receives.owner
        · rw [hnew, acceptedBy_of hs hroom]
          exact Ring.contents_push h.wf (lt_of_le_of_ne h.wf.count hroom)
      · refine hsame hb hr (by rw [hu]; rfl) ?_ (acceptedBy_eq_nil fun hs' => absurd (hx hs') heq)
        rw [hu]
        exact kept_set (x := x) rfl rfl rfl fun hxe => absurd hxe heq

theorem serving_send (h : Serving e s) (sender : ProcessRef) (handle : Handle) (request : SendRequest) (block : Bool)
    (result : ShellDispatchResult) :
    Serving e { s with kernel := (ipcSend sender handle request block s.kernel).2, result } :=
  ⟨h.running, (reads_send h.reads request block).1⟩

theorem receiveAndDispatch_eq (h : Serving e s) : shellServiceReceiveAndDispatch false stack s =
    if (s.kernel.world.endpoints e).count = 0 then (.error .wouldBlock, s)
    else shellServiceDispatch (s.kernel.world.endpoints e).front
      { s with kernel := s.kernel.withWorld (received e s.kernel.world) } := by
  have hreceive := receive_eq h.reads.receives
  unfold shellServiceReceiveAndDispatch
  rw [bind_ok (show Program.get s = (.ok s, s) from rfl), failIf_pass (by rw [h.running]; decide)]
  split
  · rename_i hempty
    rw [if_pos hempty] at hreceive
    refine bind_error ?_
    rw [onKernel, zoom, hreceive]
  · rename_i hsome
    rw [if_neg hsome] at hreceive
    have hrun : onKernel (ipcReceive s.service.config.process s.service.endpointHandle true false) s =
        (.ok (some (s.kernel.world.endpoints e).front), { s with kernel := s.kernel.withWorld (received e s.kernel.world) }) := by
      rw [onKernel, zoom, hreceive]
    rw [bind_ok hrun]
    rfl

theorem serving_poll (h : Serving e s) : (shellServiceReceiveAndDispatch false stack s).2.service = s.service ∧
    Serving e (shellServiceReceiveAndDispatch false stack s).2 ∧
    (s.kernel.world.endpoints e).contents = (nextDispatch e s).map (·.message) ++
      ((shellServiceReceiveAndDispatch false stack s).2.kernel.world.endpoints e).contents := by
  rw [receiveAndDispatch_eq h, nextDispatch]
  split
  · exact ⟨rfl, h, rfl⟩
  · rename_i hsome
    obtain ⟨hreads, hcontents⟩ := h.reads.received hsome
    obtain ⟨hkernel, hservice⟩ := @dispatch_frame σ { s with kernel := s.kernel.withWorld (received e s.kernel.world) }
      (s.kernel.world.endpoints e).front h.running
    refine ⟨hservice, ⟨?_, ?_⟩, ?_⟩
    · rw [hservice]
      exact h.running
    · rw [hservice, hkernel]
      exact hreads
    · rw [hkernel]
      exact hcontents

section Exchange
variable {client : ProcessRef} {shellChannel : Handle} {requestId payloadSize : Nat} {operation : ShellOperation}
  {payload : Option (Nat → UInt8)} {k : Kernel}

theorem onKernel_send
    (hsend : ipcSend client shellChannel (exchangeRequest requestId operation payload payloadSize) false s.kernel =
      (status, k)) : onKernel (ipcSend client shellChannel ⟨requestId, operation.number, 0, 0, payload, payloadSize⟩ false)
      { s with result := zero } =
      (status, { s with kernel := k, result := zero }) := by
  unfold exchangeRequest at hsend
  rw [onKernel, zoom, hsend]

theorem clearResult_eq : modifyResult (fun _ => zero) s =
    (.ok (), { s with result := zero }) := rfl

theorem exchange_refused (h : Serving e s) {status : IosError}
    (hsend : ipcSend client shellChannel (exchangeRequest requestId operation payload payloadSize) false s.kernel =
      (.error status, k)) :
    shellServiceExchange client shellChannel requestId operation payload payloadSize stack s =
      (.error status, { s with result := zero }) := by
  have hk : k = s.kernel := (wp_error send_spec hsend).1
  rw [hk] at hsend
  unfold shellServiceExchange
  rw [bind_ok (show Program.get s = (.ok s, s) from rfl), failIf_pass (by rw [h.running]; decide), bind_ok clearResult_eq]
  exact bind_error (onKernel_send hsend)

theorem exchange_accepted (h : Serving e s)
    (hsend : ipcSend client shellChannel (exchangeRequest requestId operation payload payloadSize) false s.kernel =
      (.ok (), k)) {t : ShellState σ}
    (ht : shellServiceReceiveAndDispatch false stack { s with kernel := k, result := zero } = (status, t)) :
    shellServiceExchange client shellChannel requestId operation payload payloadSize stack s =
      (if t.result.requestId ≠ requestId then .error .protocol else status, t) := by
  unfold shellServiceExchange
  rw [bind_ok (show Program.get s = (.ok s, s) from rfl), failIf_pass (by rw [h.running]; decide), bind_ok clearResult_eq,
    bind_ok (onKernel_send hsend), bind_ok (attempt_eq ht), bind_ok (show Program.get t = (.ok t, t) from rfl)]
  split
  · rename_i hother
    rw [failIf_bind hother]
    rfl
  · rename_i hsame
    rw [failIf_pass hsame]
    rfl

end Exchange

structure Synced (e : EndpointRef) (s : ShellState σ) (tr : ShellTrace) : Prop where
  messages : tr.accepted.map Accepted.message = tr.dispatched.map (·.message) ++ (s.kernel.world.endpoints e).contents
  bound : ∀ x ∈ tr.exchanged, x.dispatches ≤ tr.dispatched.length

theorem Synced.inStep_iff {tr : ShellTrace} (h : Synced e s tr) {accepted : List Accepted} {more : List Dispatched} :
    ShellTrace.InStep ⟨accepted, tr.dispatched ++ more, tr.exchanged⟩ ↔ tr.InStep := by
  unfold ShellTrace.InStep
  refine forall₂_congr fun x hx => and_congr_right fun hlt => ?_
  rw [List.getElem?_append_left (lt_of_lt_of_le hlt (h.bound x hx))]

variable {tr : ShellTrace}

theorem Synced.length (h : Synced e s tr) : tr.accepted.length = tr.dispatched.length + (s.kernel.world.endpoints e).count := by
  have hlength := congrArg List.length h.messages
  rwa [List.length_map, List.length_append, List.length_map, Ring.length_contents] at hlength

theorem length_nextDispatch : (nextDispatch e s).length = if (s.kernel.world.endpoints e).count = 0 then 0 else 1 := by
  unfold nextDispatch
  dsimp only
  split <;> rfl

section Exchange
variable {client : ProcessRef} {shellChannel : Handle} {requestId payloadSize : Nat} {operation : ShellOperation}
  {payload : Option (Nat → UInt8)} {k : Kernel} {tr : ShellTrace}

theorem exchange_status (hs : s.service.running = true)
    (hd : shellServiceDispatch message s = (status, t)) (ho : message.operation = operation.number) :
    (if t.result.requestId ≠ message.requestId then .error .protocol else status) = status := by
  split
  · rename_i hother
    cases status with
    | ok =>
      have hanswers := wp_ok (dispatch_spec hs) hd
      exact absurd hanswers.requestId hother
    | error error =>
      rcases wp_error (dispatch_spec hs) hd with hanswers | ⟨-, hinvalid⟩
      · exact absurd hanswers.requestId hother
      · rw [validate_error ho hinvalid]
  · rfl

theorem exchange_own (h : Serving e s) (hempty : (s.kernel.world.endpoints e).contents = [])
    (hsend : ipcSend client shellChannel (exchangeRequest requestId operation payload payloadSize) false s.kernel =
      (.ok (), k)) (hs : s.kernel.SendsTo client shellChannel (exchangeRequest requestId operation payload payloadSize) e)
    (hroom : (s.kernel.world.endpoints e).count ≠ (s.kernel.world.endpoints e).capacity) :
    ∃ d, nextDispatch e { s with kernel := k, result := zero } = [d] ∧
      (shellServiceExchange client shellChannel requestId operation payload payloadSize stack s).1 = d.status ∧
      (shellServiceExchange client shellChannel requestId operation payload payloadSize stack s).2.result = d.result := by
  have hserving := serving_send h client shellChannel (exchangeRequest requestId operation payload payloadSize) false
    zero
  have hcontents := (@reads_send e _ _ client _ shellChannel h.reads
    (exchangeRequest requestId operation payload payloadSize) false).2
  rw [hsend] at hserving hcontents
  rw [acceptedBy_of hs hroom, hempty] at hcontents
  have hcount : (k.world.endpoints e).count ≠ 0 := by
    rw [← Ring.length_contents, hcontents]
    exact Nat.one_ne_zero
  have hfront : (k.world.endpoints e).front =
      (exchangeRequest requestId operation payload payloadSize).message (s.kernel.world.processes client) := by
    have hpop := (hserving.reads.received hcount).2
    rw [hcontents] at hpop
    exact (List.cons.inj hpop).1.symm
  have hreceive := @receiveAndDispatch_eq σ _ e stack hserving
  rw [if_neg hcount] at hreceive
  rcases hd : shellServiceDispatch (k.world.endpoints e).front { s with
    kernel := k.withWorld (received e k.world), result := zero } with ⟨status, t⟩
  have hexchange := exchange_accepted h hsend (hreceive.trans hd)
  refine ⟨⟨(k.world.endpoints e).front, status, t.result⟩, ?_, ?_, ?_⟩
  · unfold nextDispatch
    dsimp only
    rw [if_neg hcount, hd]
  · rw [hexchange]
    have hid : (k.world.endpoints e).front.requestId = requestId := by
      rw [hfront]
      rfl
    have hoperation : (k.world.endpoints e).front.operation = operation.number := by
      rw [hfront]
      rfl
    have hstatus := exchange_status (s := { s with
      kernel := k.withWorld (received e k.world), result := zero }) h.running hd hoperation
    rwa [hid] at hstatus
  · rw [hexchange]

theorem trace_exchange (hsend : ipcSend client shellChannel (exchangeRequest requestId operation payload payloadSize) false
      s.kernel = (.ok (), k))
    (hcall : call = .exchange client shellChannel requestId operation payload payloadSize stack) :
    call.trace e s tr = ⟨tr.accepted ++ acceptedBy e s.kernel client shellChannel
        (exchangeRequest requestId operation payload payloadSize),
      tr.dispatched ++ nextDispatch e { s with kernel := k, result := zero },
      tr.exchanged ++ [⟨tr.accepted.length,
        (tr.dispatched ++ nextDispatch e { s with kernel := k, result := zero }).length,
        (call.run s).1, (call.run s).2.result⟩]⟩ := by
  rw [hcall]
  unfold trace
  dsimp only
  rw [hsend]

theorem exchange_inStep (h : Serving e s) (hs : Synced e s tr)
    (hsend : ipcSend client shellChannel (exchangeRequest requestId operation payload payloadSize) false s.kernel =
      (.ok (), k)) (hcall : call = .exchange client shellChannel requestId operation payload payloadSize stack) :
    (call.trace e s tr).InStep ↔ tr.InStep ∧ call.Clear e s := by
  obtain ⟨x, hx, ⟨-, hblock, -⟩ | ⟨hroom, -⟩⟩ := wp_ok send_spec hsend
  · cases hblock
  have hunique : ∀ y, s.kernel.SendsTo client shellChannel
      (exchangeRequest requestId operation payload payloadSize) y → y = x :=
    fun y hy => Except.ok.inj (hy.resolved.symm.trans hx.resolved)
  have hclear : call.Clear e s ↔ x = e ∧ (s.kernel.world.endpoints e).contents = [] := by
    rw [hcall]
    constructor
    · exact fun hc => hc x hx hroom
    · intro hc y hy _
      rw [hunique y hy]
      exact hc
  have hcontents := (@reads_send e _ _ client _ shellChannel h.reads
    (exchangeRequest requestId operation payload payloadSize) false).2
  rw [hsend] at hcontents
  have hlength := hs.length
  rw [trace_exchange hsend hcall, hclear]
  unfold ShellTrace.InStep
  simp only [List.forall_mem_append, List.forall_mem_singleton]
  refine and_congr ?_ ⟨?_, ?_⟩
  · exact @Synced.inStep_iff σ _ e tr hs tr.accepted _
  · rintro ⟨hlt, -⟩
    rw [List.length_append, length_nextDispatch, hlength] at hlt
    have hempty : (s.kernel.world.endpoints e).contents = [] := by
      rw [← List.length_eq_zero_iff, Ring.length_contents]
      split at hlt <;> omega
    refine ⟨?_, hempty⟩
    by_contra hne
    have hnone := @acceptedBy_eq_nil e s.kernel client shellChannel
      (exchangeRequest requestId operation payload payloadSize) fun hs' => absurd (hunique e hs').symm hne
    rw [hempty, hnone] at hcontents
    have hzero : (k.world.endpoints e).count = 0 := by
      rw [← Ring.length_contents, hcontents]
      rfl
    rw [if_pos hzero] at hlt
    omega
  · rintro ⟨rfl, hempty⟩
    obtain ⟨d, hnext, hstatus, hresult⟩ := @exchange_own σ _ _ stack _ _ _ _ _ _ _ h hempty hsend hx hroom
    have hplace : tr.accepted.length = tr.dispatched.length := by
      rw [hlength, ← Ring.length_contents, hempty]
      rfl
    rw [hnext, hplace, List.length_append]
    refine ⟨Nat.lt_succ_self _, d, ?_, ?_, ?_⟩
    · rw [List.getElem?_append_right (le_refl _), Nat.sub_self]
      rfl
    · rw [hcall]
      exact hstatus
    · rw [hcall]
      exact hresult

theorem exchange_synced (h : Serving e s) (hs : Synced e s tr)
    (hsend : ipcSend client shellChannel (exchangeRequest requestId operation payload payloadSize) false s.kernel =
      (.ok (), k)) {call : ShellCall} (hcall : call = .exchange client shellChannel requestId operation payload payloadSize stack) :
    (call.run s).2.service = s.service ∧ Serving e (call.run s).2 ∧ Synced e (call.run s).2 (call.trace e s tr) := by
  have hserving := serving_send h client shellChannel (exchangeRequest requestId operation payload payloadSize) false
    zero
  have hcontents := (@reads_send e _ _ client _ shellChannel h.reads
    (exchangeRequest requestId operation payload payloadSize) false).2
  rw [hsend] at hserving hcontents
  rcases ht : shellServiceReceiveAndDispatch false stack { s with kernel := k, result := zero } with ⟨status, t⟩
  obtain ⟨hservice, hserving', hpoll⟩ := @serving_poll σ _ e stack hserving
  have hrun : (call.run s).2 = t := by
    rw [hcall]
    show (shellServiceExchange _ _ _ _ _ _ _ s).2 = t
    rw [exchange_accepted h hsend ht]
  rw [trace_exchange hsend hcall, hrun]
  rw [ht] at hservice hserving' hpoll
  refine ⟨hservice, hserving', ?_, ?_⟩
  · rw [List.map_append, List.map_append, hs.messages, List.append_assoc, ← hcontents, hpoll, List.append_assoc]
  · intro x hx
    rcases List.mem_append.mp hx with hx | hx
    · exact le_trans (hs.bound x hx) (by rw [List.length_append]; exact Nat.le_add_right _ _)
    · rw [List.mem_singleton.mp hx]

end Exchange

theorem Synced.same (h : Synced e s tr)
    (hring : (t.kernel.world.endpoints e).toRing = (s.kernel.world.endpoints e).toRing) : Synced e t tr := by
  refine ⟨?_, h.bound⟩
  rw [hring]
  exact h.messages

theorem step_spec (h : Serving e s) (hs : Synced e s tr)
    (hc : call.FromClients s.service.config.process) : (call.run s).2.service = s.service ∧ Serving e (call.run s).2 ∧
    Synced e (call.run s).2 (call.trace e s tr) ∧ ((call.trace e s tr).InStep ↔ tr.InStep ∧ call.Clear e s) := by
  cases call with
  | send sender handle request block =>
    refine ⟨rfl, serving_send h sender handle request block s.result, ⟨?_, hs.bound⟩, (and_iff_left trivial).symm⟩
    have hcontents := (@reads_send e _ _ sender _ handle h.reads request block).2
    show List.map Accepted.message (tr.accepted ++ acceptedBy e s.kernel sender handle request) =
      tr.dispatched.map (·.message) ++ ((ipcSend sender handle request block s.kernel).2.world.endpoints e).contents
    rw [List.map_append, hs.messages, hcontents, List.append_assoc]
  | connect client service out =>
    obtain ⟨hreads, hring⟩ := h.reads.connect hc service out
    have hrun : ((connect client service out).run s).2 =
        { s with kernel := (ipcServiceConnect client service out s.kernel).2 } := by
      rw [run, map_state]
      rfl
    rw [hrun]
    exact ⟨rfl, ⟨h.running, hreads⟩, hs.same hring, (and_iff_left trivial).symm⟩
  | close client handle =>
    obtain ⟨hreads, hring⟩ := h.reads.close hc handle
    exact ⟨rfl, ⟨h.running, hreads⟩, hs.same hring, (and_iff_left trivial).symm⟩
  | poll stack =>
    obtain ⟨hservice, hserving, hcontents⟩ := @serving_poll σ _ e stack h
    refine ⟨hservice, hserving, ⟨?_, fun x hx => ?_⟩, ?_⟩
    · show tr.accepted.map Accepted.message = (tr.dispatched ++ nextDispatch e s).map (·.message) ++
        ((shellServiceReceiveAndDispatch false stack s).2.kernel.world.endpoints e).contents
      rw [List.map_append, List.append_assoc, hs.messages, hcontents]
    · refine le_trans (hs.bound x hx) ?_
      show _ ≤ (tr.dispatched ++ nextDispatch e s).length
      rw [List.length_append]
      exact Nat.le_add_right _ _
    · exact (@Synced.inStep_iff σ _ e tr hs tr.accepted _).trans (and_iff_left trivial).symm
  | exchange client shellChannel requestId operation payload payloadSize stack =>
    rcases wp_cases send_spec with ⟨_, k, hsend, -⟩ | ⟨status, k, hsend, -, hfull⟩
    swap
    · have htrace : (exchange client shellChannel requestId operation payload payloadSize stack).trace e s tr = tr := by
        unfold trace
        dsimp only
        rw [hsend]
      rw [htrace, run, exchange_refused h hsend]
      exact ⟨rfl, ⟨h.running, h.reads⟩, hs.same rfl,
        (and_iff_left fun x hx hroom => absurd (hfull x hx).1 hroom).symm⟩
    · obtain ⟨hservice, hserving, hsynced⟩ := @exchange_synced σ _ e stack _ _ _ _ _ _ _ _ h hs hsend _ rfl
      exact ⟨hservice, hserving, hsynced, exchange_inStep h hs hsend rfl⟩

theorem run_spec : ∀ {calls : List ShellCall} {s : ShellState σ} {tr : ShellTrace}, Serving e s → Synced e s tr →
    (∀ call ∈ calls, call.FromClients s.service.config.process) →
    Serving e (calls.foldl (step e) (s, tr)).1 ∧
    Synced e (calls.foldl (step e) (s, tr)).1 (calls.foldl (step e) (s, tr)).2 ∧
    ((calls.foldl (step e) (s, tr)).2.InStep ↔ tr.InStep ∧ ShellCall.AllClear e calls s)
  | [], s, tr, h, hs, _ => ⟨h, hs, (and_iff_left trivial).symm⟩
  | call :: rest, s, tr, h, hs, hc => by
    obtain ⟨hservice, hserving, hsynced, hstep⟩ := step_spec h hs (hc call List.mem_cons_self)
    have hrest : ∀ other ∈ rest, other.FromClients (call.run s).2.service.config.process := by
      intro other hother
      rw [hservice]
      exact hc other (List.mem_cons_of_mem _ hother)
    obtain ⟨hfinal, hfinal', hiff⟩ := run_spec hserving hsynced hrest
    refine ⟨hfinal, hfinal', hiff.trans ?_⟩
    rw [hstep, and_assoc]
    rfl

theorem drain_spec (stack : IpcMessage) : ∀ {n : Nat} {s : ShellState σ} {tr : ShellTrace}, Serving e s →
    (s.kernel.world.endpoints e).count = n →
    (((List.replicate n (poll stack)).foldl (step e) (s, tr)).1.kernel.world.endpoints e).contents = []
  | 0, s, tr, h, hn => by rw [List.replicate_zero, List.foldl_nil, ← List.length_eq_zero_iff, Ring.length_contents, hn]
  | n + 1, s, tr, h, hn => by
    obtain ⟨-, hserving, hcontents⟩ := @serving_poll σ _ e stack h
    rw [List.replicate_succ, List.foldl_cons]
    refine drain_spec stack hserving ?_
    have hlength := congrArg List.length hcontents
    rw [Ring.length_contents, List.length_append, List.length_map, length_nextDispatch, hn, if_neg n.succ_ne_zero,
      Ring.length_contents] at hlength
    show ((shellServiceReceiveAndDispatch false stack s).2.kernel.world.endpoints e).count = n
    omega

theorem accepted_polls (stack : IpcMessage) : ∀ {n : Nat} {s : ShellState σ} {tr : ShellTrace},
    ((List.replicate n (poll stack)).foldl (step e) (s, tr)).2.accepted = tr.accepted
  | 0, _, _ => rfl
  | n + 1, s, tr => by
    rw [List.replicate_succ, List.foldl_cons]
    exact accepted_polls stack

/-- In every run of clients on a service that was started, the messages that its endpoint accepted are dispatched in order, each
    once and under the identity of its sender, and the polls of the shell dispatch all that are queued. Each exchange whose
    send is accepted returns what came of its own message, exactly when its send finds the queue of the shell empty. -/
theorem exchanges_in_step {k : Kernel} {tr₀ : Trace} (hrun : KernelRun (fun _ _ => True) k tr₀) {config : ShellServiceConfig σ}
    {service : ShellService σ} {context : σ} {result : ShellDispatchResult}
    (hstart : shellServiceStart config ⟨k, service, context, result⟩ = (.ok (), s)) :
    ∃ e, (s.kernel.world.services .shell).endpoint = some e ∧
      ∀ calls : List ShellCall, (∀ call ∈ calls, call.FromClients config.process) →
        ∀ u tr, calls.foldl (step e) (s, ShellTrace.empty) = (u, tr) →
          tr.accepted.map Accepted.message = tr.dispatched.map (·.message) ++ (u.kernel.world.endpoints e).contents ∧
          (∀ a ∈ tr.accepted, a.message.callerProcessId = a.sender.processId ∧
            a.message.callerApplicationIdentity = a.sender.applicationIdentity) ∧
          (∀ stack, ((List.replicate (u.kernel.world.endpoints e).contents.length (.poll stack)).foldl (step e)
            (u, tr)).2.dispatched.map (·.message) = tr.accepted.map Accepted.message) ∧
          (tr.InStep ↔ ShellCall.AllClear e calls s) := by
  obtain ⟨hconfig, e, hservice, hserving, hempty⟩ := wp_ok (start_spec config (balanced_run hrun) (rings_run hrun)) hstart
  have hsynced : Synced e s ShellTrace.empty := ⟨hempty.symm, List.forall_mem_nil _⟩
  refine ⟨e, hservice, fun calls hcalls u tr hu => ?_⟩
  obtain ⟨hserving', hsynced', hiff⟩ := run_spec hserving hsynced (by rw [hconfig]; exact hcalls)
  rw [hu] at hserving' hsynced' hiff
  refine ⟨hsynced'.messages, fun a _ => ⟨rfl, rfl⟩, fun stack => ?_, hiff.trans (and_iff_right (List.forall_mem_nil _))⟩
  have hpolls : ∀ call ∈ List.replicate (u.kernel.world.endpoints e).contents.length (poll stack),
      call.FromClients u.service.config.process := by
    intro call hcall
    rw [List.eq_of_mem_replicate hcall]
    trivial
  have hdrained := (run_spec hserving' hsynced' hpolls).2.1.messages
  rwa [drain_spec stack hserving' Ring.length_contents.symm, List.append_nil, accepted_polls, eq_comm] at hdrained

def idleService : ShellService Unit := ⟨⟨0, 2, none, none⟩, 0, 0, false⟩

def clientHandle (client : ProcessRef) : Handle := BitVec.ofNat 64 ((client.1 + 1) * 2 ^ 40 + 0x10001)

def viewExchange (client : ProcessRef) : ShellCall :=
  .exchange client (clientHandle client) 1 .guiView (some fun i => if i = 0 then 32 else if i % 8 = 0 ∨ i = 2 then 1 else 0) 32
    IpcMessage.zero

def idleShell : ShellState Unit := ⟨boot, idleService, (), zero⟩

theorem start_idleShell : shellServiceStart idleService.config idleShell =
    (.ok (), (shellServiceStart idleService.config idleShell).2) := run_eq (by decide +kernel)

theorem exchanges_in_step_boot : ∃ s : ShellState Unit, shellServiceStart idleService.config idleShell = (.ok (), s) ∧
    ∃ e, (s.kernel.world.services .shell).endpoint = some e ∧
      (([.connect 1 (some .shell) true, viewExchange 1].foldl (step e) (s, ShellTrace.empty)).2.InStep ↔
        ShellCall.AllClear e [.connect 1 (some .shell) true, viewExchange 1] s) := by
  obtain ⟨e, he, hcalls⟩ := exchanges_in_step (.booted booted_boot) start_idleShell
  refine ⟨_, start_idleShell, e, he, ?_⟩
  have hclients : ∀ call ∈ [.connect 1 (some .shell) true, viewExchange 1], call.FromClients idleService.config.process := by
    simp [ShellCall.FromClients, idleService, viewExchange]
  exact (hcalls _ hclients _ _ rfl).2.2.2

def crossedCalls : List ShellCall :=
  [.connect 1 (some .shell) true, .connect 2 (some .shell) true, .send 1 (clientHandle 1) firstRequest false, viewExchange 2]

/-- A client's message is in the queue when another client makes its exchange: that message is dispatched, and the one of the
    exchange stays behind. -/
theorem exchange_out_of_step : ¬∀ (k : Kernel) (tr₀ : Trace), KernelRun (fun _ _ => True) k tr₀ →
    ∀ (config : ShellServiceConfig Unit) (service : ShellService Unit) (s : ShellState Unit),
      shellServiceStart config ⟨k, service, (), zero⟩ = (.ok (), s) →
      ∀ e, (s.kernel.world.services .shell).endpoint = some e → ∀ calls : List ShellCall,
        (∀ call ∈ calls, call.FromClients config.process) →
          (calls.foldl (step e) (s, ShellTrace.empty)).2.InStep := by
  intro h
  have hclients : ∀ call ∈ crossedCalls, call.FromClients idleService.config.process := by
    simp [crossedCalls, ShellCall.FromClients, idleService, viewExchange]
  have hstep := h _ _ (.booted booted_boot) _ _ _ start_idleShell 0 (by decide +kernel) crossedCalls hclients
  have hplaces : (crossedCalls.foldl (step 0) ((shellServiceStart idleService.config idleShell).2,
      ShellTrace.empty)).2.exchanged.map (fun x => (x.place, x.dispatches)) = [(1, 1)] := by decide +kernel
  obtain ⟨x, hx, hxs⟩ := List.mem_map.mp (hplaces ▸ List.mem_singleton_self (1, 1))
  have hlt := (hstep x hx).1
  rw [(Prod.mk.inj hxs).1, (Prod.mk.inj hxs).2] at hlt
  exact lt_irrefl _ hlt

end Shell
end InferenceOS
