import InferenceOS.Gui.FileExplorerClient
import InferenceOS.Theorems.FileViews
import InferenceOS.Theorems.ShellExchanges

/-! Views that the file explorer puts together from replies of the shell: they are the first entries of the listing that the
    shell's pages give, and the limit on the number of pages cuts off no view of a directory. -/

namespace InferenceOS
open Program HandleTables Kernel IpcWorld Shell FileViewRequest ShellDispatchResult
variable {error : IosError}

/-- The fields of a request fit their places. -/
structure FileViewRequest.Fits (request : FileViewRequest) : Prop where
  size : request.size < 256 ^ 2
  version : request.version < 256 ^ 2
  flags : request.flags < 256 ^ 4
  directoryHandle : request.directoryHandle < 256 ^ 8
  typeIconCapability : request.typeIconCapability < 256 ^ 8
  continuation : request.continuation < 256 ^ 8
  maximumItems : request.maximumItems < 256 ^ 2
  reserved16 : request.reserved16 < 256 ^ 2
  reserved32 : request.reserved32 < 256 ^ 4

theorem FileViewRequest.read_bytes {request : FileViewRequest} (h : request.Fits) {payload : Bytes ipcMaxPayloadSize}
    (hpayload : ∀ i, i < fileViewRequestSize → payload.byte i = request.bytes.byte i) : read payload = request := by
  have hfield (k offset : Nat) (hk : offset + k ≤ 40) : payload.toNat offset k = request.bytes.toNat offset k :=
    Bytes.toNat_congr fun i hi => hpayload (offset + i) (show offset + i < 40 by omega)
  have hlength : fileViewRequestSize = 40 := rfl
  unfold read
  rw [hfield 2 0 (by omega), hfield 2 2 (by omega), hfield 4 4 (by omega), hfield 8 8 (by omega), hfield 8 16 (by omega),
    hfield 8 24 (by omega), hfield 2 32 (by omega), hfield 2 34 (by omega), hfield 4 36 (by omega)]
  unfold bytes
  simp (disch := omega) only [Bytes.toNat_put, Bytes.toNat_put_of_disjoint]
  rw [Nat.mod_eq_of_lt h.size, Nat.mod_eq_of_lt h.version, Nat.mod_eq_of_lt h.flags, Nat.mod_eq_of_lt h.directoryHandle,
    Nat.mod_eq_of_lt h.typeIconCapability, Nat.mod_eq_of_lt h.continuation, Nat.mod_eq_of_lt h.maximumItems,
    Nat.mod_eq_of_lt h.reserved16, Nat.mod_eq_of_lt h.reserved32]

namespace Shell
variable {σ : Type} {s t : ShellState σ} {e : EndpointRef} {dispatch : FileViewDispatch σ} {operation : ShellOperation}
  {request : FileViewRequest} {message stack : IpcMessage}

def viewOutcome (dispatch : FileViewDispatch σ) (processId applicationIdentity : Nat) (operation : ShellOperation)
    (request : FileViewRequest) (context : σ) : Except IosError Unit × FileViewReply × σ :=
  dispatch processId applicationIdentity operation.number request
    { FileViewReply.zero with size := fileViewReplySize, version := shellProtocolVersion } context

theorem validateSafeEntry_error {entry : DisplaySafeEntry} (h : validateSafeEntry entry = .error error) : error = .protocol := by
  unfold validateSafeEntry at h
  split at h
  · cases h
    rfl
  · cases h

theorem validateEntries_spec {reply : FileViewReply} : ∀ {indices : List (Fin shellFileViewReplyCapacity)},
    wp (each (fun index => ofExcept (validateSafeEntry (reply.entries index))) indices) (fun _ t => t = s)
      (fun error t => t = s ∧ error = .protocol) s
  | [] => rfl
  | index :: rest => by
    rw [wp_each_cons, wp_ofExcept]
    exact ⟨fun _ _ => validateEntries_spec, fun error herror => ⟨rfl, validateSafeEntry_error herror⟩⟩

structure Viewed (dispatch : FileViewDispatch σ) (operation : ShellOperation) (request : FileViewRequest) (processId applicationIdentity requestId : Nat)
    (s t : ShellState σ) : Prop where
  context : t.context = (viewOutcome dispatch processId applicationIdentity operation request s.context).2.2
  status : (viewOutcome dispatch processId applicationIdentity operation request s.context).1 = .ok ()
  caller : processId ≠ 0 ∧ applicationIdentity ≠ 0
  result : t.result = ⟨requestId, operation.number,
    (viewOutcome dispatch processId applicationIdentity operation request s.context).2.1.itemCount, fileViewReplySize,
    .fileView { (viewOutcome dispatch processId applicationIdentity operation request s.context).2.1 with status := .ok () }⟩

def Unviewed (dispatch : FileViewDispatch σ) (operation : ShellOperation) (request : FileViewRequest) (processId applicationIdentity : Nat)
    (error : IosError) (s t : ShellState σ) : Prop :=
  (t.context = s.context ∧ error ≠ .overflow) ∨
    (t.context = (viewOutcome dispatch processId applicationIdentity operation request s.context).2.2 ∧
      (processId ≠ 0 ∧ applicationIdentity ≠ 0) ∧
      (error = .protocol ∨ (viewOutcome dispatch processId applicationIdentity operation request s.context).1 = .error error))

theorem validate_caller (h : shellMessageValidate message = .ok ()) : message.callerProcessId ≠ 0 ∧ message.callerApplicationIdentity ≠ 0 := by
  obtain ⟨⟨⟩, hheader, -⟩ := of_bind_ok h
  unfold validateTransportHeader at hheader
  obtain ⟨hfields, -⟩ := of_check hheader
  simp only [not_or] at hfields
  exact ⟨hfields.2.2.2.2.1, hfields.2.2.2.2.2.1⟩

theorem dispatch_view (hs : s.service.running = true) (hconfig : s.service.config.dispatchFileView = some dispatch)
    (hview : shellOperationIsFileView operation.number = true) (hoperation : message.operation = operation.number)
    (hrequest : read message.payload = request) :
    wp (shellServiceDispatch message)
      (fun _ t => Viewed dispatch operation request message.callerProcessId message.callerApplicationIdentity message.requestId s t)
      (fun error t => Unviewed dispatch operation request message.callerProcessId message.callerApplicationIdentity error s t) s := by
  unfold shellServiceDispatch
  simp only [wp_bind, wp_get, wp_failIf, wp_ofExcept, modifyResult, wp_modify]
  refine ⟨fun hnot => (by cases hnot.symm.trans hs), fun _ => ⟨fun _ hvalid => ?_, fun error herror => Or.inl ⟨rfl, ?_⟩⟩⟩
  · have hcaller := validate_caller hvalid
    rw [hoperation, if_pos hview]
    unfold dispatchFileView
    rw [wp_bind, wp_get]
    dsimp only
    rw [hconfig, hrequest, hoperation]
    dsimp only
    have hunviewed : ∀ {error : IosError} {t : ShellState σ},
        t.context = (viewOutcome dispatch message.callerProcessId message.callerApplicationIdentity operation request s.context).2.2 →
        (error = .protocol ∨
          (viewOutcome dispatch message.callerProcessId message.callerApplicationIdentity operation request s.context).1 = .error error) →
        Unviewed dispatch operation request message.callerProcessId message.callerApplicationIdentity error s t :=
      fun hcontext herror => Or.inr ⟨hcontext, hcaller, herror⟩
    simp only [wp_bind, wp_failIf, wp_modify]
    refine ⟨fun _ => hunviewed rfl (Or.inl rfl), fun _ => ?_⟩
    refine wp_mono validateEntries_spec (fun _ u hu => ?_) (fun error u hx => by obtain ⟨hu, herror⟩ := hx; exact hunviewed (by rw [hu]; rfl) (Or.inl herror))
    subst hu
    simp only [wp_bind, modifyResult, wp_modify, wp_ofExcept]
    refine ⟨fun _ hstatus => ⟨rfl, hstatus, hcaller, ?_⟩, fun error herror => hunviewed rfl (Or.inr herror)⟩
    dsimp only
    rw [hstatus]
    rfl
  · rw [validate_error hoperation herror]
    exact (fun hx => by cases hx)

theorem Unviewed.protocol {processId applicationIdentity : Nat}
    (h : Unviewed dispatch operation request processId applicationIdentity error s t) :
    Unviewed dispatch operation request processId applicationIdentity .protocol s t := by
  rcases h with ⟨hcontext, -⟩ | ⟨hcontext, hcaller, -⟩
  · exact Or.inl ⟨hcontext, nofun⟩
  · exact Or.inr ⟨hcontext, hcaller, Or.inl rfl⟩

theorem decodeHandle_error {ω Obj : Type} {table : HandleTable ω Obj} {handle : Handle}
    (h : table.decodeHandle handle = .error error) : error = .badHandle := by
  unfold HandleTable.decodeHandle at h
  dsimp only at h
  split at h
  · cases h
    rfl
  · split at h
    · cases h
      rfl
    · cases h

theorem resolveEndpoint_error {k : Kernel} {process : ProcessRef} {handle : Handle} {rights : BitVec 64}
    (h : k.resolveEndpoint process handle rights = .error error) : error ≠ .overflow := by
  unfold Kernel.resolveEndpoint at h
  split at h
  · cases h
    exact nofun
  rcases hresolve : (k.tables process).handleTableResolve handle .ipcEndpoint rights with status | e
  · rw [hresolve] at h
    cases h
    unfold HandleTable.handleTableResolve at hresolve
    split at hresolve
    · cases hresolve
      exact nofun
    rcases hdecode : (k.tables process).decodeHandle handle with status | index
    · rw [hdecode] at hresolve
      cases hresolve
      rw [decodeHandle_error hdecode]
      exact nofun
    · rw [hdecode] at hresolve
      simp only [bind, Except.bind] at hresolve
      split_ifs at hresolve
      · cases hresolve
        exact nofun
      · cases hresolve
        exact nofun
      · split at hresolve
        · cases hresolve
        · cases hresolve
          exact nofun
  · rw [hresolve] at h
    simp only [bind, Except.bind] at h
    split_ifs at h
    cases h
    exact nofun

theorem ipcSend_error {k u : Kernel} {client : ProcessRef} {channel : Handle} {send : SendRequest}
    (h : ipcSend client channel send false k = (.error error, u)) : error ≠ .overflow := by
  have hwp : wp (ipcSend client channel send false) (fun _ _ => True) (fun error _ => error ≠ .overflow) k := by
    unfold ipcSend
    simp only [wp_bind, wp_get, wp_failIf, wp_ofExcept]
    refine ⟨(fun _ hx => by cases hx), fun _ => ⟨fun e _ => ?_, fun error herror => resolveEndpoint_error herror⟩⟩
    rw [wp_ite]
    exact ⟨(fun _ hx => by cases hx), fun _ => trivial⟩
  have herror := wp_error hwp h
  exact herror

/-- The shell runs on an endpoint without messages. -/
structure Idle (e : EndpointRef) (s : ShellState σ) : Prop where
  serving : Serving e s
  empty : (s.kernel.world.endpoints e).contents = []

section Exchange
variable {client : ProcessRef} {channel : Handle} {requestId : Nat}

def viewSend (requestId : Nat) (operation : ShellOperation) (request : FileViewRequest) : SendRequest :=
  ShellCall.exchangeRequest requestId operation (some request.bytes.byte) fileViewRequestSize

theorem viewSend_read (hfits : request.Fits) {sender : ProcessIdentity} :
    read ((viewSend requestId operation request).message sender).payload = request := by
  refine read_bytes hfits fun i hi => ?_
  have hlength : fileViewRequestSize = 40 := rfl
  rw [Bytes.byte_of_lt (show i < 512 by omega)]
  exact if_pos hi

theorem exchange_view (h : Idle e s) (hconfig : s.service.config.dispatchFileView = some dispatch)
    (hview : shellOperationIsFileView operation.number = true) (hfits : request.Fits) :
    wp (shellServiceExchange client channel requestId operation (some request.bytes.byte) fileViewRequestSize stack)
      (fun _ t => Idle e t ∧ t.service = s.service ∧ Viewed dispatch operation request (s.kernel.world.processes client).processId
        (s.kernel.world.processes client).applicationIdentity requestId s t)
      (fun error t => Idle e t ∧ t.service = s.service ∧ Unviewed dispatch operation request (s.kernel.world.processes client).processId
        (s.kernel.world.processes client).applicationIdentity error s t) s := by
  rcases hsend : ipcSend client channel (viewSend requestId operation request) false s.kernel with ⟨error | ⟨⟨⟩⟩, k⟩
  · have hrun := @exchange_refused σ s e stack client channel requestId fileViewRequestSize operation (some request.bytes.byte) k h.serving
      error hsend
    unfold wp
    rw [hrun]
    exact ⟨⟨⟨h.serving.running, h.serving.reads⟩, h.empty⟩, rfl, Or.inl ⟨rfl, ipcSend_error hsend⟩⟩
  have hserving := serving_send h.serving client channel (viewSend requestId operation request) false zero
  have hcontents := (@reads_send e _ _ client _ channel h.serving.reads (viewSend requestId operation request) false).2
  rw [hsend] at hserving hcontents
  rw [h.empty, List.nil_append] at hcontents
  have hreceive := @receiveAndDispatch_eq σ _ e stack hserving
  by_cases hcount : (k.world.endpoints e).count = 0
  · rw [if_pos hcount] at hreceive
    have hrun := exchange_accepted h.serving hsend hreceive
    have hempty : (k.world.endpoints e).contents = [] := by
      rw [← List.length_eq_zero_iff, Ring.length_contents, hcount]
    unfold wp
    rw [hrun]
    split
    · rename_i heq
      split at heq <;> cases heq
    · rename_i error t heq
      obtain ⟨herror, rfl⟩ := Prod.mk.inj heq
      refine ⟨⟨⟨hserving.running, hserving.reads⟩, hempty⟩, rfl, Or.inl ⟨rfl, ?_⟩⟩
      split at herror <;> cases herror <;> exact nofun
  · rw [if_neg hcount] at hreceive
    obtain ⟨hreads, hpop⟩ := hserving.reads.received hcount
    obtain ⟨a, ha⟩ : ∃ a, acceptedBy e s.kernel client channel (viewSend requestId operation request) = [a] ∧
        a = ⟨s.kernel.world.processes client, viewSend requestId operation request⟩ := by
      unfold acceptedBy at hcontents ⊢
      split at hcontents
      · exact ⟨_, if_pos ‹_›, rfl⟩
      · rw [List.map_nil] at hcontents
        exact absurd (by rw [← Ring.length_contents, hcontents]; rfl) hcount
    rw [hcontents, ha.1, ha.2, List.map_singleton] at hpop
    obtain ⟨hfront, hrest⟩ := List.cons.inj hpop
    have hpayload : read (k.world.endpoints e).front.payload = request := by
      rw [← hfront]
      exact viewSend_read hfits
    have hfields : (k.world.endpoints e).front.operation = operation.number ∧
        (k.world.endpoints e).front.callerProcessId = (s.kernel.world.processes client).processId ∧
        (k.world.endpoints e).front.callerApplicationIdentity = (s.kernel.world.processes client).applicationIdentity ∧
        (k.world.endpoints e).front.requestId = requestId := by
      rw [← hfront]
      exact ⟨rfl, rfl, rfl, rfl⟩
    obtain ⟨hoperation, hprocess, happlication, hid⟩ := hfields
    have hdispatched := @dispatch_view σ { s with kernel := k.withWorld (received e k.world), result := zero }
      dispatch operation request (k.world.endpoints e).front h.serving.running hconfig hview hoperation hpayload
    obtain ⟨hkernel, hservice⟩ := @dispatch_frame σ
      { s with kernel := k.withWorld (received e k.world), result := zero } (k.world.endpoints e).front h.serving.running
    rw [hprocess, happlication, hid] at hdispatched
    rcases hd : shellServiceDispatch (k.world.endpoints e).front
      { s with kernel := k.withWorld (received e k.world), result := zero } with ⟨status, t⟩
    rw [hd] at hkernel hservice
    dsimp only at hkernel hservice
    have hidle : Idle e t := by
      refine ⟨⟨?_, ?_⟩, ?_⟩
      · rw [hservice]
        exact h.serving.running
      · rw [hservice, hkernel]
        exact hreads
      · rw [hkernel]
        exact hrest.symm
    have hrun := exchange_accepted h.serving hsend (hreceive.trans hd)
    unfold wp
    rw [hrun]
    rcases status with error | ⟨⟨⟩⟩
    · have hunviewed := wp_error hdispatched hd
      split
      · rename_i heq
        split at heq <;> cases heq
      · rename_i error' t' heq
        obtain ⟨herror, rfl⟩ := Prod.mk.inj heq
        refine ⟨hidle, hservice, ?_⟩
        split at herror
        · cases herror
          exact hunviewed.protocol
        · cases herror
          exact hunviewed
    · have hviewed := wp_ok hdispatched hd
      rw [if_neg (not_not.mpr (by rw [hviewed.result]))]
      exact ⟨hidle, hservice, hviewed.context, hviewed.status, hviewed.caller, hviewed.result⟩

end Exchange

end Shell

namespace FileExplorer
variable {σ : Type} {s t u : ExplorerState σ} {e : EndpointRef} {dispatch : FileViewDispatch σ} {operation : ShellOperation}
  {request : FileViewRequest} {stack : IpcMessage}

/-- The client is not the shell, which waits for messages. -/
structure Linked (e : EndpointRef) (s : ExplorerState σ) : Prop where
  idle : Idle e s.shell
  other : s.client.process ≠ s.shell.service.config.process

structure Relinked (e : EndpointRef) (s t : ExplorerState σ) : Prop where
  linked : Linked e t
  context : t.shell.context = s.shell.context
  service : t.shell.service = s.shell.service
  nextRequestId : t.client.nextRequestId = s.client.nextRequestId
  process : t.client.process = s.client.process

theorem Relinked.refl (h : Linked e s) : Relinked e s s := ⟨h, rfl, rfl, rfl, rfl⟩

theorem Relinked.trans (h : Relinked e s t) (h' : Relinked e t u) : Relinked e s u :=
  ⟨h'.linked, h'.context.trans h.context, h'.service.trans h.service, h'.nextRequestId.trans h.nextRequestId, h'.process.trans h.process⟩

theorem wp_onShell {α : Type} {m : Program IosError (ShellState σ) α} {Q : α → ExplorerState σ → Prop} {E : IosError → ExplorerState σ → Prop} :
    wp (onShell m) Q E s = wp m (fun a shell => Q a { s with shell }) (fun error shell => E error { s with shell }) s.shell :=
  wp_zoom

theorem Linked.relinked (h : Linked e s) {k : Kernel} {client : FileExplorerClient}
    (hk : Reads k s.shell.service.config.process s.shell.service.endpointHandle e ∧
      (k.world.endpoints e).toRing = (s.shell.kernel.world.endpoints e).toRing)
    (hclient : client.nextRequestId = s.client.nextRequestId ∧ client.process = s.client.process) :
    Relinked e s ⟨client, { s.shell with kernel := k }⟩ := by
  refine ⟨⟨⟨⟨h.idle.serving.running, hk.1⟩, ?_⟩, ?_⟩, rfl, rfl, hclient.1, hclient.2⟩
  · show (k.world.endpoints e).contents = []
    rw [hk.2]
    exact h.idle.empty
  · rw [hclient.2]
    exact h.other

theorem disconnect_spec (h : Linked e s) : wp disconnectChannel (fun _ t => Relinked e s t) (fun _ _ => False) s := by
  unfold disconnectChannel modifyClient
  rw [wp_bind, wp_get, wp_bind, wp_attempt]
  have hclosed := h.idle.serving.reads.close h.other s.client.shellChannel
  by_cases hconnected : s.client.connected = true
  · rw [if_pos hconnected, wp_onShell, wp_onKernel]
    rcases hclose : handleTableClose s.client.process s.client.shellChannel s.shell.kernel with ⟨status | ⟨⟩, k⟩
    all_goals
      rw [hclose] at hclosed
      unfold wp
      rw [hclose]
      exact h.relinked hclosed ⟨rfl, rfl⟩
  · rw [if_neg hconnected, wp_pure, wp_modify]
    exact h.relinked ⟨h.idle.serving.reads, rfl⟩ ⟨rfl, rfl⟩

theorem serviceConnect_error {k l : Kernel} {client : ProcessRef} {service : Option TrustedService}
    (h : ipcServiceConnect client service true k = (.error error, l)) : error ≠ .overflow := by
  have hwp : wp (ipcServiceConnect client service true) (fun _ _ => True) (fun error _ => error ≠ .overflow) k := by
    unfold ipcServiceConnect
    rw [wp_bind, wp_get]
    rcases service with - | service
    · exact (fun hx => by cases hx)
    · simp only [wp_bind, wp_failIf]
      refine ⟨(fun _ hx => by cases hx), fun _ => ?_⟩
      rcases (k.world.services service).endpoint with - | x
      · exact (fun hx => by cases hx)
      · simp only [wp_bind, wp_failIf, modifyWorld, wp_modify, wp_attempt, handleTableInsert, wp_get]
        refine ⟨(fun _ hx => by cases hx), fun _ => ⟨(fun _ hx => by cases hx), fun _ => ?_⟩⟩
        split
        · trivial
        · exact (fun hx => by cases hx)
  have herror := wp_error hwp h
  exact herror

theorem connect_spec (h : Linked e s) : wp connectChannel (fun _ t => Relinked e s t)
    (fun error t => error ≠ .overflow ∧ Relinked e s t) s := by
  unfold connectChannel modifyClient
  rw [wp_bind]
  refine wp_mono (disconnect_spec h) (fun _ t ht => ?_) fun _ _ hx => hx.elim
  rw [wp_bind, wp_get, wp_bind, wp_onShell, wp_onKernel]
  have hconnected := ht.linked.idle.serving.reads.connect ht.linked.other (some .shell) true
  rcases hconnect : ipcServiceConnect t.client.process (some .shell) true t.shell.kernel with ⟨error | channel, k⟩
  · rw [hconnect] at hconnected
    unfold wp
    rw [hconnect]
    exact ⟨serviceConnect_error hconnect, ht.trans (ht.linked.relinked hconnected ⟨rfl, rfl⟩)⟩
  · rw [hconnect] at hconnected
    unfold wp
    rw [hconnect]
    show wp _ _ _ _
    rw [wp_bind, wp_get, wp_bind, wp_modify]
    dsimp only
    split
    · rw [wp_bind]
      have hlinked := @Linked.relinked _ _ _ ht.linked _ { t.client with
        shellChannel := channel, shellGeneration := ipcServiceGeneration k.world (some .shell) } hconnected ⟨rfl, rfl⟩
      refine wp_mono (disconnect_spec hlinked.linked) (fun _ u hu => ?_) fun _ _ hx => hx.elim
      exact ⟨nofun, (ht.trans hlinked).trans hu⟩
    · rw [wp_modify]
      exact ht.trans (ht.linked.relinked hconnected ⟨rfl, rfl⟩)

theorem ensureChannel_spec (h : Linked e s) : wp ensureChannel (fun _ t => Relinked e s t)
    (fun error t => error ≠ .overflow ∧ Relinked e s t) s := by
  unfold ensureChannel
  rw [wp_bind, wp_get]
  split
  · exact connect_spec h
  · exact .refl h

section Pages
variable {J : σ → Prop} {R : FileViewReply → Prop} {F : IosError → Prop}

def Dispatches (dispatch : FileViewDispatch σ) (operation : ShellOperation) (request : FileViewRequest) (J : σ → Prop)
    (R : FileViewReply → Prop) (F : IosError → Prop) : Prop :=
  ∀ (processId applicationIdentity : Nat) (context : σ), processId ≠ 0 → applicationIdentity ≠ 0 → J context →
    J (viewOutcome dispatch processId applicationIdentity operation request context).2.2 ∧
    ((viewOutcome dispatch processId applicationIdentity operation request context).1 = .ok () →
      R (viewOutcome dispatch processId applicationIdentity operation request context).2.1) ∧
    ∀ error, (viewOutcome dispatch processId applicationIdentity operation request context).1 = .error error → F error

/-- The client waits between its exchanges. -/
structure Waiting (e : EndpointRef) (dispatch : FileViewDispatch σ) (J : σ → Prop) (s : ExplorerState σ) : Prop where
  linked : Linked e s
  config : s.shell.service.config.dispatchFileView = some dispatch
  context : J s.shell.context

theorem Waiting.relinked (h : Waiting e dispatch J s) (hst : Relinked e s t) : Waiting e dispatch J t :=
  ⟨hst.linked, by rw [hst.service]; exact h.config, by rw [hst.context]; exact h.context⟩

def Replied (operation : ShellOperation) (R : FileViewReply → Prop) (result : ShellDispatchResult) : Prop :=
  ∃ reply requestId, R reply ∧ result = ⟨requestId, operation.number, reply.itemCount, fileViewReplySize,
    .fileView { reply with status := .ok () }⟩

theorem exchangeOnce_spec (hdispatch : Dispatches dispatch operation request J R F) (hview : shellOperationIsFileView operation.number = true)
    (hfits : request.Fits) (h : Waiting e dispatch J s) {requestId : Nat} :
    wp (exchangeOnce stack requestId operation request.bytes.byte fileViewRequestSize)
      (fun _ t => Waiting e dispatch J t ∧ t.client = s.client ∧ Replied operation R t.shell.result)
      (fun error t => Waiting e dispatch J t ∧ t.client = s.client ∧ (error = .overflow → F .overflow)) s := by
  unfold exchangeOnce
  rw [wp_bind, wp_get, wp_onShell]
  refine wp_mono (exchange_view h.linked.idle h.config hview hfits) (fun _ u ⟨hidle, hservice, hviewed⟩ => ?_)
    fun error u ⟨hidle, hservice, hunviewed⟩ => ?_
  · obtain ⟨hcontext, hreply, -⟩ := hdispatch _ _ _ hviewed.caller.1 hviewed.caller.2 h.context
    refine ⟨⟨⟨hidle, ?_⟩, ?_, ?_⟩, rfl, _, _, hreply hviewed.status, hviewed.result⟩
    · rw [hservice]
      exact h.linked.other
    · rw [hservice]
      exact h.config
    · rw [hviewed.context]
      exact hcontext
  · have hother : s.client.process ≠ u.service.config.process := by
      rw [hservice]
      exact h.linked.other
    have hconfig : u.service.config.dispatchFileView = some dispatch := by
      rw [hservice]
      exact h.config
    rcases hunviewed with ⟨hcontext, hne⟩ | ⟨hcontext, hcaller, herror⟩
    · exact ⟨⟨⟨hidle, hother⟩, hconfig, by rw [hcontext]; exact h.context⟩, rfl, fun heq => absurd heq hne⟩
    · obtain ⟨hkept, -, hfails⟩ := hdispatch _ _ _ hcaller.1 hcaller.2 h.context
      refine ⟨⟨⟨hidle, hother⟩, hconfig, by rw [hcontext]; exact hkept⟩, rfl, fun heq => ?_⟩
      subst heq
      rcases herror with herror | herror
      · cases herror
      · exact hfails _ herror

theorem exchange_spec (hdispatch : Dispatches dispatch operation request J R F) (hview : shellOperationIsFileView operation.number = true)
    (hfits : request.Fits) (h : Waiting e dispatch J s) :
    wp (exchange stack operation request.bytes.byte fileViewRequestSize)
      (fun _ t => Waiting e dispatch J t ∧ t.client.nextRequestId = s.client.nextRequestId + 1 ∧ Replied operation R t.shell.result)
      (fun error _ => error = .overflow → (s.client.nextRequestId = 0 ∨ s.client.nextRequestId = 2 ^ 64 - 1) ∨ F .overflow) s := by
  unfold exchange nextRequestId modifyClient
  simp only [wp_bind, wp_get, wp_failIf, wp_modify, wp_pure]
  refine ⟨fun hused _ => Or.inl hused, fun _ => ?_⟩
  have hnumbered : Waiting e dispatch J { s with client := { s.client with nextRequestId := s.client.nextRequestId + 1 } } :=
    ⟨⟨h.linked.idle, h.linked.other⟩, h.config, h.context⟩
  refine wp_mono (ensureChannel_spec hnumbered.linked) (fun _ t ht => ?_) (fun error t hx heq => by obtain ⟨hne, _⟩ := hx; exact absurd heq hne)
  rw [wp_bind, wp_attempt]
  have hwaiting := hnumbered.relinked ht
  have hagain : ∀ {u : ExplorerState σ} {requestId : Nat}, Waiting e dispatch J u → u.client = t.client →
      wp (connectChannel >>= fun _ => exchangeOnce stack requestId operation request.bytes.byte fileViewRequestSize)
        (fun _ v => Waiting e dispatch J v ∧ v.client.nextRequestId = s.client.nextRequestId + 1 ∧ Replied operation R v.shell.result)
        (fun error _ => error = .overflow → (s.client.nextRequestId = 0 ∨ s.client.nextRequestId = 2 ^ 64 - 1) ∨ F .overflow) u := by
    intro u requestId hu hclient
    rw [wp_bind]
    refine wp_mono (connect_spec hu.linked) (fun _ v hv => ?_) (fun error v hx heq => by obtain ⟨hne, _⟩ := hx; exact absurd heq hne)
    refine wp_mono (exchangeOnce_spec hdispatch hview hfits (hu.relinked hv)) (fun _ w hx => ⟨hx.1, ?_, hx.2.2⟩)
      (fun error w hx heq => by obtain ⟨_, _, hfails⟩ := hx; exact Or.inr (hfails heq))
    rw [hx.2.1, hv.nextRequestId, hclient, ht.nextRequestId]
  refine wp_mono (exchangeOnce_spec hdispatch hview hfits hwaiting) (fun _ u hx => ?_)
    fun error u hx => ?_
  · obtain ⟨hu, hclient, hreplied⟩ := hx
    rw [if_neg (fun hx => by cases hx)]
    refine ⟨hu, ?_, hreplied⟩
    rw [hclient, ht.nextRequestId]
  · obtain ⟨hu, hclient, hfails⟩ := hx
    split
    · exact hagain hu hclient
    · exact fun heq => Or.inr (hfails heq)

end Pages

open FileService FileView

section Views
variable {μ ρ : Type} [DecidableEq μ] [DecidableEq ρ] {s : FileService} {d : Nat} {pages : List (Nat × List DirectoryEntry)}
variable {continuation items : Nat}
  {entries : List ListedEntry} {service : FileViewService} {requested capability capacity : Nat} {x : VfsSystem μ ρ FileService} {m : μ}

def Undisturbed (s : FileService) (x : VfsSystem μ ρ FileService) (m : μ) (y : VfsSystem μ ρ FileService) : Prop :=
  Quiet s y.world ∧ x.Steady m y

structure PageReply (service : FileViewService) (operation : ShellOperation) (requested capability : Nat) (page : List ListedEntry × Nat)
    (reply : FileViewReply) : Prop where
  presents : Presents service capability (page.1.filter (kept operation requested)) (replyEntries reply)
  continuation : reply.continuation = page.2

theorem dispatches_pages (hm : s.Mounted) (hi : s.initialized = true) (h : Scanned s d pages) (he : Listed s (recordsOf pages) entries)
    (hready : Ready service) (hview : shellOperationIsFileView operation.number = true)
    (htype : operation ≠ .directoryView → service.typeCatalog.typeCatalogResolveIdentity capability = .ok requested)
    (hroot : x.registry.root = some m) (hpos : 0 < items) (hle : items ≤ shellFileViewReplyCapacity) :
    Dispatches (fileViewFunction service (some FileService.enumerate)) operation (pageRequest d capability continuation items)
      (Undisturbed s x m) (PageReply service operation requested capability (pageOf entries continuation items))
      (Failing s d x m) := by
  rintro process application y hprocess happlication ⟨hquiet, hsteady⟩
  have hrooted : y.registry.root = some m := by rw [hsteady.1, hroot]
  have hspec := @fileViewDispatch_spec μ ρ _ _ service s d pages entries m operation process application requested
    (pageRequest d capability continuation items) hm hi h he hready hprocess happlication hview rfl hpos hle htype
    ⟨{ FileViewReply.zero with size := fileViewReplySize, version := shellProtocolVersion }, y⟩ hrooted hquiet
  unfold viewOutcome fileViewFunction
  dsimp only
  rcases wp_cases hspec with ⟨_, z, hrun, hrefilled, hshows, -, hz, hsteady'⟩ | ⟨error, z, hrun, hfails, -, hz, hsteady'⟩
  all_goals rw [hrun]
  swap
  · refine ⟨⟨hz, hsteady.trans hsteady'⟩, nofun, fun error' heq => ?_⟩
    cases heq
    exact hfails.steady hsteady
  · refine ⟨⟨hz, hsteady.trans hsteady'⟩, fun _ => ⟨hshows, ?_⟩, nofun⟩
    rw [hrefilled]
    rfl

theorem kept_directoryView (listed : ListedEntry) : kept .directoryView requested listed = true := by
  unfold kept filteredOut
  simp [ShellOperation.number]

theorem presents_unique : ∀ {l : List ListedEntry} {shown shown' : List DisplaySafeEntry}, Presents service capability l shown →
    Presents service capability l shown' → shown = shown'
  | [], _, _, .nil, .nil => rfl
  | _ :: _, _, _, .cons h hrest, .cons h' hrest' => by
    rw [presents_unique hrest hrest', Except.ok.inj (h.symm.trans h')]

theorem presents_taken {l more : List ListedEntry} {shown complete : List DisplaySafeEntry} (h : Presents service capability l shown)
    (hcomplete : Presents service capability (l ++ more) complete) : shown = complete.take shown.length := by
  have htaken := List.forall₂_take l.length hcomplete
  rw [List.take_left] at htaken
  rw [← h.length_eq]
  exact presents_unique h htaken

/-- The request identities of the client do not last for the pages. -/
def IdsSpent (client : FileExplorerClient) (pages : Nat) : Prop := client.nextRequestId = 0 ∨ 2 ^ 64 - 1 < client.nextRequestId + pages

theorem pageRequest_fits (hd : d < 2 ^ 64) (hcapability : capability < 2 ^ 64)
    (hcontinuation : continuation < 2 ^ 64) (hitems : items ≤ shellFileViewReplyCapacity) :
    (pageRequest d capability continuation items).Fits where
  size := show fileViewRequestSize < 256 ^ 2 by decide
  version := show shellProtocolVersion < 256 ^ 2 by decide
  flags := show 0 < 256 ^ 4 by decide
  directoryHandle := lt_of_lt_of_eq hd (by decide)
  typeIconCapability := lt_of_lt_of_eq hcapability (by decide)
  continuation := lt_of_lt_of_eq hcontinuation (by decide)
  maximumItems := lt_of_le_of_lt hitems (by decide)
  reserved16 := show 0 < 256 ^ 2 by decide
  reserved32 := show 0 < 256 ^ 4 by decide

theorem replyOf_ok {itemCount requestId : Nat} {reply checked : FileViewReply}
    (h : replyOf operation continuation items ⟨requestId, operation.number, itemCount, fileViewReplySize, .fileView reply⟩ = .ok checked) :
    reply = checked := by
  unfold replyOf at h
  dsimp only at h
  split at h
  · cases h
  · exact Except.ok.inj h

theorem replyOf_error {result : ShellDispatchResult}
    (h : replyOf operation continuation items result = .error error) : error = .protocol := by
  unfold replyOf at h
  split at h
  · cases h
    rfl
  · split at h
    · cases h
      rfl
    · cases h

theorem fileViewPages_spec (hm : s.Mounted) (hi : s.initialized = true) (h : Scanned s d pages) (he : Listed s (recordsOf pages) entries)
    (hready : Ready service) (hview : shellOperationIsFileView operation.number = true)
    (htype : operation ≠ .directoryView → service.typeCatalog.typeCatalogResolveIdentity capability = .ok requested)
    (hroot : x.registry.root = some m) (hcapability : capability < 2 ^ 64) (hlength : entries.length < 2 ^ 64) {complete : List DisplaySafeEntry}
    (hcomplete : Presents service capability (entries.filter (kept operation requested)) complete) :
    ∀ {turns continuation : Nat} {shown : List DisplaySafeEntry} {st : ExplorerState (VfsSystem μ ρ FileService)},
      Waiting e (fileViewFunction service (some FileService.enumerate)) (Undisturbed s x m) st → shown.length < capacity →
      continuation ≤ entries.length → Presents service capability ((entries.take continuation).filter (kept operation requested)) shown →
      wp (fileViewPages stack operation d capability capacity turns continuation shown)
        (fun result _ => result = complete.take capacity)
        (fun error _ => error = .overflow → operation = .directoryView → capacity ≤ shown.length + 4 * turns →
          IdsSpent st.client turns ∨ Failing s d x m .overflow) st
  | 0, continuation, shown, st, _, hroom, _, _ => by
    intro _ _ hle
    omega
  | turns + 1, continuation, shown, st, hst, hroom, hcontinuation, hshown => by
    have hcap : shellFileViewReplyCapacity = 4 := rfl
    have hpos : 0 < min (capacity - shown.length) shellFileViewReplyCapacity := by omega
    have hle : min (capacity - shown.length) shellFileViewReplyCapacity ≤ shellFileViewReplyCapacity := Nat.min_le_right _ _
    have hfits : (pageRequest d capability continuation (min (capacity - shown.length) shellFileViewReplyCapacity)).Fits :=
      pageRequest_fits h.lt hcapability (lt_of_le_of_lt hcontinuation hlength) hle
    unfold fileViewPages
    rw [wp_bind]
    refine wp_mono (exchange_spec (dispatches_pages hm hi h he hready hview htype hroot hpos hle) hview hfits hst)
      (fun _ t ⟨ht, hid, reply, requestId, hreply, hresult⟩ => ?_) fun error t hspent heq hoperation _ => ?_
    · rw [wp_bind, wp_get, wp_bind, wp_ofExcept, hresult]
      refine ⟨fun checked hchecked => ?_, fun error herror heq => ?_⟩
      · obtain rfl := replyOf_ok hchecked
        have hnew : Presents service capability ((entries.take (continuation + min (capacity - shown.length) shellFileViewReplyCapacity)).filter
            (kept operation requested)) (shown ++ replyEntries reply) := by
          rw [List.take_add, List.filter_append]
          exact presents_append hshown hreply.presents
        have hcount : (replyEntries reply).length ≤ min (capacity - shown.length) shellFileViewReplyCapacity :=
          hreply.presents.length_eq ▸ (List.length_filter_le _ _).trans (List.length_take_le _ _)
        have htaken : shown ++ replyEntries reply = complete.take (shown ++ replyEntries reply).length := by
          refine @presents_taken _ _ _ ((entries.drop (continuation +
            min (capacity - shown.length) shellFileViewReplyCapacity)).filter (kept operation requested)) _ _ hnew ?_
          rwa [← List.filter_append, List.take_append_drop]
        have hcontinued := hreply.continuation
        dsimp only [pageOf] at hcontinued
        show wp (if reply.continuation = 0 ∨ (shown ++ replyEntries reply).length = capacity then _ else _) _ _ _
        split
        · rename_i hdone
          rw [wp_pure]
          show shown ++ replyEntries reply = complete.take capacity
          rcases hdone with hend | hfull
          · rw [hend] at hcontinued
            have hall : entries.length ≤ continuation + min (capacity - shown.length) shellFileViewReplyCapacity := by
              split at hcontinued <;> omega
            rw [List.take_of_length_le hall] at hnew
            rw [presents_unique hnew hcomplete, List.take_of_length_le]
            rw [← presents_unique hnew hcomplete, List.length_append]
            omega
          · rw [htaken, hfull]
        · rename_i hmore
          rw [not_or] at hmore
          have hnext : reply.continuation = continuation + min (capacity - shown.length) shellFileViewReplyCapacity ∧
              continuation + min (capacity - shown.length) shellFileViewReplyCapacity < entries.length := by
            split at hcontinued
            · exact ⟨hcontinued, ‹_›⟩
            · exact absurd hcontinued hmore.1
          have hlonger : (shown ++ replyEntries reply).length < capacity := by
            refine lt_of_le_of_ne ?_ hmore.2
            rw [List.length_append]
            omega
          have hrest := @fileViewPages_spec hm hi h he hready hview htype hroot hcapability hlength complete hcomplete turns
            reply.continuation (shown ++ replyEntries reply) t ht hlonger (by omega) (by rw [hnext.1]; exact hnew)
          refine wp_mono hrest (fun _ _ hresult => hresult) fun error _ hspent heq hoperation hlimit => ?_
          have hall : (replyEntries reply).length = min (capacity - shown.length) shellFileViewReplyCapacity := by
            rw [← hreply.presents.length_eq, List.filter_eq_self.2 fun listed _ => hoperation ▸ kept_directoryView listed]
            dsimp only [pageOf]
            rw [List.length_take, List.length_drop]
            omega
          rw [List.length_append] at hspent hlonger
          refine (hspent heq hoperation (by omega)).imp_left fun hspent => ?_
          unfold IdsSpent at hspent ⊢
          omega
      · rw [replyOf_error herror] at heq
        cases heq
    · rcases hspent heq with hspent | hfails
      · refine Or.inl (hspent.imp_right fun hlast => ?_)
        omega
      · exact Or.inr hfails

theorem dispatches_unresolved (htype : requestedType service operation.number capability = .error error) :
    Dispatches (fileViewFunction service (some FileService.enumerate)) operation (pageRequest d capability continuation items)
      (fun _ : VfsSystem μ ρ FileService => True) (fun _ => False) (fun _ => True) := by
  intro process application y _ _ _
  refine ⟨trivial, fun hok => ?_, fun _ _ => trivial⟩
  have hspec : wp (fileViewDispatch service (some FileService.enumerate) process application operation.number
      (pageRequest d capability continuation items)) (fun _ _ => False) (fun _ _ => True)
      ⟨{ FileViewReply.zero with size := fileViewReplySize, version := shellProtocolVersion }, y⟩ := by
    unfold fileViewDispatch
    rw [wp_bind, wp_failIf]
    refine ⟨fun _ => trivial, fun _ => ?_⟩
    rw [wp_bind]
    show wp (ofExcept (requestedType service operation.number capability)) _ _ _
    rw [htype]
    trivial
  exact wp_ok hspec (Prod.ext hok rfl)

/-- Views of the client, without other messages for the shell: what is returned are the first entries of the complete view, and a
    view of a directory that fits the pages of the loop overflows only where the client has no request identities left, or the
    volume's mount or cache takes no operation more. -/
theorem explorer_paging (hm : s.Mounted) (hi : s.initialized = true) (h : Scanned s d pages) :
    ∃ entries, Listed s (recordsOf pages) entries ∧
      ∀ (service : FileViewService) (operation : ShellOperation) (capability capacity : Nat) (stack : IpcMessage) (e : EndpointRef) (m : μ)
        (st : ExplorerState (VfsSystem μ ρ FileService)),
        Ready service → capability < 2 ^ 64 → 1 ≤ capacity → Idle e st.shell → st.client.process ≠ st.shell.service.config.process →
        st.shell.service.config.dispatchFileView = some (fileViewFunction service (some FileService.enumerate)) →
        st.shell.context.registry.root = some m → st.shell.context.world = s →
        wp (fileExplorerClientFileView stack operation d capability capacity)
          (fun shown _ => ∃ requested complete, requestedType service operation.number capability = .ok requested ∧
            Presents service capability (entries.filter (kept operation requested)) complete ∧ shown = complete.take capacity)
          (fun error _ => error = .overflow → operation = .directoryView → capacity ≤ fileExplorerMaxReplyPages * shellFileViewReplyCapacity →
            IdsSpent st.client fileExplorerMaxReplyPages ∨ Failing s d st.shell.context m .overflow) st := by
  obtain ⟨entries, he⟩ := h.listed
  refine ⟨entries, he, ?_⟩
  intro service operation capability capacity stack e m st hready hcapability hcapacity hidle hother hconfig hroot hworld
  have hlength : entries.length < 2 ^ 64 := he.length_eq ▸ h.length_lt
  unfold fileExplorerClientFileView
  rw [wp_bind, wp_failIf]
  refine ⟨nofun, fun hargs => ?_⟩
  have hview : shellOperationIsFileView operation.number = true := by
    by_contra hno
    exact hargs (Or.inr (Or.inr (Or.inl (Bool.eq_false_iff.2 hno))))
  rcases htype : requestedType service operation.number capability with error | requested
  · have hdirectory : operation ≠ .directoryView := by
      rintro rfl
      cases htype
    have hfits : (pageRequest d capability 0 (min (capacity - ([] : List DisplaySafeEntry).length) shellFileViewReplyCapacity)).Fits :=
      pageRequest_fits h.lt hcapability (by decide) (Nat.min_le_right _ _)
    show wp (exchange stack operation _ _ >>= _) _ _ _
    rw [wp_bind]
    exact wp_mono (exchange_spec (dispatches_unresolved htype) hview hfits ⟨⟨hidle, hother⟩, hconfig, trivial⟩)
      (fun _ _ ⟨_, _, _, _, hnone, _⟩ => hnone.elim) fun _ _ _ _ hoperation => absurd hoperation hdirectory
  · have hresolves : operation ≠ .directoryView → service.typeCatalog.typeCatalogResolveIdentity capability = .ok requested := by
      intro hdirectory
      have hnumber : operation.number ≠ ShellOperation.directoryView.number := by
        cases operation <;> first | exact absurd rfl hdirectory | decide
      exact (if_neg hnumber).symm.trans htype
    obtain ⟨complete, hcomplete⟩ : ∃ complete, Presents service capability (entries.filter (kept operation requested)) complete :=
      exists_presents hready fun listed hlisted => listed_presentable h he listed (List.mem_filter.1 hlisted).1
    have hwaiting : Waiting e (fileViewFunction service (some FileService.enumerate)) (Undisturbed s st.shell.context m) st :=
      ⟨⟨hidle, hother⟩, hconfig, by rw [hworld]; exact Quiet.refl hm, rfl, fun _ => rfl⟩
    refine wp_mono (fileViewPages_spec hm hi h he hready hview hresolves hroot hcapability hlength hcomplete hwaiting hcapacity
      (Nat.zero_le _) .nil) (fun shown _ hshown => ⟨requested, complete, rfl, hcomplete, hshown⟩) fun error _ hspent heq hoperation hle => ?_
    refine hspent heq hoperation ?_
    have hpages : fileExplorerMaxReplyPages = 64 := rfl
    have hcap : shellFileViewReplyCapacity = 4 := rfl
    rw [hpages, hcap] at hle
    rw [hpages, List.length_nil]
    omega

end Views

def viewShell (s : FileService) : ShellState (VfsSystem (Fin 1) Unit FileService) :=
  let started := (shellServiceStart idleService.config idleShell).2
  { kernel := started.kernel
    service := { config := ⟨0, 2, some (fileViewFunction plainService (some FileService.enumerate)), none⟩
                 endpointHandle := started.service.endpointHandle
                 generation := started.service.generation
                 running := true }
    context := servingSystem s
    result := zero }

def clientAt (nextRequestId : Nat) : FileExplorerClient := ⟨1, 0, 0, nextRequestId, false⟩

theorem viewShell_idle (s : FileService) : ∃ e, Idle e (viewShell s) := by
  have hrun : KernelRun (fun _ _ => True) boot ⟨fun _ => [], fun _ => []⟩ := .booted booted_boot
  obtain ⟨hconfig, e, -, hserving, hempty⟩ := wp_ok (@start_spec _ idleShell idleService.config (balanced_run hrun) (rings_run hrun)) start_idleShell
  have hreads := hserving.reads
  rw [hconfig] at hreads
  exact ⟨e, ⟨rfl, hreads⟩, hempty⟩

/-- A client that still has request identities: its view of the directory does not overflow. -/
theorem explorer_paging_plain : ∃ (s : FileService) (entries : List ListedEntry), Listed s (recordsOf [(4, plainEntries)]) entries ∧
    (∀ shown, (fileExplorerClientFileView IpcMessage.zero .directoryView 4 0 4 ⟨clientAt 1, viewShell s⟩).1 = .ok shown →
      ∃ complete, Presents plainService 0 (entries.filter (kept .directoryView 0)) complete ∧ shown = complete.take 4) ∧
    (fileExplorerClientFileView IpcMessage.zero .directoryView 4 0 4 ⟨clientAt 1, viewShell s⟩).1 ≠ .error .overflow := by
  obtain ⟨s, hm, hi, hscanned, hroom⟩ := exists_plain
  obtain ⟨entries, he, hviews⟩ := @explorer_paging (Fin 1) Unit _ _ s 4 _ hm hi hscanned
  obtain ⟨e, hidle⟩ := viewShell_idle s
  have hspec := hviews plainService .directoryView 0 4 IpcMessage.zero e 0 ⟨clientAt 1, viewShell s⟩ plainService_ready (by decide)
    (by decide) hidle (show (1 : ProcessRef) ≠ 0 by decide) rfl rfl rfl
  refine ⟨s, entries, he, fun shown hshown => ?_, fun herror => ?_⟩
  · obtain ⟨requested, complete, hrequested, hcomplete, hfirst⟩ := wp_ok hspec (Prod.ext hshown rfl)
    cases hrequested
    exact ⟨complete, hcomplete, hfirst⟩
  · have hoverflow := wp_error hspec (Prod.ext herror rfl) rfl rfl (by decide)
    rcases hoverflow with hspent | hfails
    · exact absurd hspent (show ¬(1 = 0 ∨ 2 ^ 64 - 1 < 1 + 64) by decide)
    · exact plain_not_failing hroom hfails

/-- A client whose request identities are used up overflows at its first page. -/
theorem explorer_paging_overflow : ¬∀ (s : FileService) (d : Nat) (pages : List (Nat × List DirectoryEntry)) (service : FileViewService)
    (capacity : Nat) (stack : IpcMessage) (e : EndpointRef) (m : Fin 1) (st : ExplorerState (VfsSystem (Fin 1) Unit FileService)),
    s.Mounted → s.initialized = true → Scanned s d pages → Ready service → 1 ≤ capacity → Idle e st.shell →
    st.client.process ≠ st.shell.service.config.process →
    st.shell.service.config.dispatchFileView = some (fileViewFunction service (some FileService.enumerate)) →
    st.shell.context.registry.root = some m → st.shell.context.world = s →
    capacity ≤ fileExplorerMaxReplyPages * shellFileViewReplyCapacity →
    (fileExplorerClientFileView stack .directoryView d 0 capacity st).1 ≠ .error .overflow := by
  intro hclaim
  obtain ⟨s, hm, hi, hscanned, -⟩ := exists_plain
  obtain ⟨e, hidle⟩ := viewShell_idle s
  exact hclaim s 4 _ plainService 4 IpcMessage.zero e 0 ⟨clientAt (2 ^ 64 - 1), viewShell s⟩ hm hi hscanned plainService_ready (by decide) hidle
    (show (1 : ProcessRef) ≠ 0 by decide) rfl rfl rfl (by decide) rfl

end FileExplorer
end InferenceOS
