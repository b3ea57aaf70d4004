import InferenceOS.Shell.Protocol

/-! The shell service, `shell/service.c`: it takes messages from its endpoint and hands them to the functions of its
    configuration. A client in the kernel exchanges a message for its result in one call. The pointers that the functions
    check are not `NULL`, the functions of the configuration may be. -/

namespace InferenceOS
open Program Kernel

/-- `ios_shell_file_view_dispatch_function`: the caller's process and application, the operation, the request, the reply to
    fill in, and the context. -/
abbrev FileViewDispatch (σ : Type) : Type :=
  Nat → Nat → Nat → FileViewRequest → FileViewReply → σ → Except IosError Unit × FileViewReply × σ

/-- `ios_shell_gui_view_dispatch_function`. -/
abbrev GuiViewDispatch (σ : Type) : Type :=
  Nat → Nat → GuiViewRequest → GuiViewReply → σ → Except IosError Unit × GuiViewReply × σ

/-- `struct ios_shell_service_config` without the context, which lies in the state. -/
structure ShellServiceConfig (σ : Type) where
  process : ProcessRef
  queueDepth : Nat
  dispatchFileView : Option (FileViewDispatch σ)
  dispatchGuiView : Option (GuiViewDispatch σ)

structure ShellService (σ : Type) where
  config : ShellServiceConfig σ
  endpointHandle : Handle
  generation : Nat
  running : Bool

/-- What the functions of the service change; `result` is the result of the caller. -/
structure ShellState (σ : Type) where
  kernel : Kernel
  service : ShellService σ
  context : σ
  result : ShellDispatchResult

namespace Shell
variable {σ : Type}

/-- Run a program of the kernel. -/
def onKernel {α : Type} (m : Program IosError Kernel α) : Program IosError (ShellState σ) α :=
  zoom (fun s => s.kernel) (fun s kernel => { s with kernel }) m

/-- Change the service. -/
def modifyService (f : ShellService σ → ShellService σ) : Program IosError (ShellState σ) Unit :=
  modify fun s => { s with service := f s.service }

/-- Change the result. -/
def modifyResult (f : ShellDispatchResult → ShellDispatchResult) : Program IosError (ShellState σ) Unit :=
  modify fun s => { s with result := f s.result }

/-! ### Messages -/

def shellOperationIsFileView (operation : Nat) : Bool :=
  operation = ShellOperation.directoryView.number ∨ operation = ShellOperation.typeView.number ∨
    operation = ShellOperation.search.number

def validateTransportHeader (header : IpcMessage) : Except IosError Unit := do
  if header.size < ipcHeaderSize ∨ header.size ≠ ipcHeaderSize + header.payloadSize ∨ header.version ≠ ipcAbiVersion ∨
      header.requestId = 0 ∨ header.callerProcessId = 0 ∨ header.callerApplicationIdentity = 0 ∨ header.flags ≠ 0 ∨
      header.itemCount ≠ 0 ∨ ipcMaxPayloadSize < header.payloadSize then .error .protocol
  if shellOperationIsFileView header.operation = false ∧ header.operation ≠ ShellOperation.guiView.number then
    .error .unknownSyscall
  .ok ()

def validateFileViewRequest (operation : Nat) (request : FileViewRequest) : Except IosError Unit := do
  if request.size ≠ fileViewRequestSize ∨ request.version ≠ shellProtocolVersion ∨ request.flags ≠ 0 ∨
      request.directoryHandle = 0 ∨ request.maximumItems = 0 ∨ shellFileViewReplyCapacity < request.maximumItems ∨
      request.reserved16 ≠ 0 ∨ request.reserved32 ≠ 0 then .error .protocol
  if operation = ShellOperation.directoryView.number then
    if request.typeIconCapability ≠ 0 then .error .protocol else .ok ()
  else if request.typeIconCapability = 0 then .error .protocol else .ok ()

def validateGuiViewRequest (request : GuiViewRequest) : Except IosError Unit :=
  if request.size ≠ guiViewRequestSize ∨ request.version ≠ shellProtocolVersion ∨ request.flags ≠ 0 ∨
      request.windowHandle = 0 ∨ request.viewHandle = 0 ∨ request.renderSequence = 0 then .error .protocol
  else .ok ()

def shellMessageValidate (message : IpcMessage) : Except IosError Unit := do
  validateTransportHeader message
  if shellOperationIsFileView message.operation then
    if message.payloadSize ≠ fileViewRequestSize then .error .protocol
    else validateFileViewRequest message.operation (FileViewRequest.read message.payload)
  else if message.payloadSize ≠ guiViewRequestSize then .error .protocol
  else validateGuiViewRequest (GuiViewRequest.read message.payload)

def validateSafeEntry (entry : DisplaySafeEntry) : Except IosError Unit :=
  if entry.size ≠ displaySafeEntrySize ∨ entry.version ≠ displaySafeEntryVersion ∨ entry.objectHandle = 0 ∨
      entry.displayNameLength = 0 ∨ displaySafeNameCapacity ≤ entry.displayNameLength ∨
      entry.displayName.byte entry.displayNameLength ≠ 0 ∨ entry.objectKind ≠ 1 ∧ entry.objectKind ≠ 2 ∨
      entry.reserved ≠ Bytes.zero then .error .protocol
  else .ok ()

/-! ### Dispatch -/

def dispatchFileView (message : IpcMessage) : Program IosError (ShellState σ) Unit := do
  let s ← get
  let request := FileViewRequest.read message.payload
  let blank := { FileViewReply.zero with size := fileViewReplySize, version := shellProtocolVersion }
  let (status, reply, context) : Except IosError Unit × FileViewReply × σ := match s.service.config.dispatchFileView with
    | none => (.error .notSupported, blank, s.context)
    | some dispatch => dispatch message.callerProcessId message.callerApplicationIdentity message.operation request blank s.context
  modify fun s => { s with context, result := { s.result with payload := .fileView { reply with status } } }
  failIf (reply.size ≠ fileViewReplySize ∨ reply.version ≠ shellProtocolVersion ∨ reply.flags ≠ 0 ∨ reply.reserved16 ≠ 0 ∨
    reply.reserved32 ≠ 0 ∨ request.maximumItems < reply.itemCount ∨ shellFileViewReplyCapacity < reply.itemCount) .protocol
  each (fun index => ofExcept (validateSafeEntry (reply.entries index)))
    ((List.finRange shellFileViewReplyCapacity).filter (·.1 < reply.itemCount))
  modifyResult fun result => { result with
    operation := message.operation, itemCount := reply.itemCount, payloadSize := fileViewReplySize }
  ofExcept status

def dispatchGuiView (message : IpcMessage) : Program IosError (ShellState σ) Unit := do
  let s ← get
  let request := GuiViewRequest.read message.payload
  let blank := { GuiViewReply.zero with
    size := guiViewReplySize, version := shellProtocolVersion, renderSequence := request.renderSequence }
  let (status, reply, context) : Except IosError Unit × GuiViewReply × σ := match s.service.config.dispatchGuiView with
    | none => (.error .notSupported, blank, s.context)
    | some dispatch => dispatch message.callerProcessId message.callerApplicationIdentity request blank s.context
  modify fun s => { s with context, result := { s.result with payload := .guiView { reply with status } } }
  failIf (reply.size ≠ guiViewReplySize ∨ reply.version ≠ shellProtocolVersion ∨ reply.flags ≠ 0 ∨
    reply.renderSequence ≠ request.renderSequence) .protocol
  modifyResult fun result => { result with operation := message.operation, itemCount := 0, payloadSize := guiViewReplySize }
  ofExcept status

def shellServiceDispatch (message : IpcMessage) : Program IosError (ShellState σ) Unit := do
  let s ← get
  failIf (s.service.running = false) .invalidState
  ofExcept (shellMessageValidate message)
  modifyResult fun _ => { ShellDispatchResult.zero with requestId := message.requestId }
  if shellOperationIsFileView message.operation then dispatchFileView message else dispatchGuiView message

/-- `ios_shell_service_receive_and_dispatch`; `stack` is what its message buffer holds at first. -/
def shellServiceReceiveAndDispatch (block : Bool) (stack : IpcMessage) : Program IosError (ShellState σ) Unit := do
  let s ← get
  failIf (s.service.running = false) .invalidState
  let message ← onKernel (ipcReceive s.service.config.process s.service.endpointHandle true block)
  shellServiceDispatch (message.getD stack)

def shellServiceExchange (client : ProcessRef) (shellChannel : Handle) (requestId : Nat) (operation : ShellOperation)
    (payload : Option (Nat → UInt8)) (payloadSize : Nat) (stack : IpcMessage) : Program IosError (ShellState σ) Unit := do
  let s ← get
  failIf (s.service.running = false) .invalidState
  modifyResult fun _ => ShellDispatchResult.zero
  onKernel (ipcSend client shellChannel ⟨requestId, operation.number, 0, 0, payload, payloadSize⟩ false)
  let status ← attempt (shellServiceReceiveAndDispatch false stack)
  let s ← get
  failIf (s.result.requestId ≠ requestId) .protocol
  ofExcept status

/-! ### Start -/

def shellServiceStart (config : ShellServiceConfig σ) : Program IosError (ShellState σ) Unit := do
  let s ← get
  let process := s.kernel.world.processes config.process
  failIf (process.processId = 0 ∨ process.applicationIdentity = 0 ∨ config.queueDepth = 0 ∨
    ipcMaxQueueDepth < config.queueDepth) .invalidArgument
  failIf (s.service.running = true) .alreadyExists
  modifyService fun _ => ⟨config, 0, 0, false⟩
  onKernel (ipcTrustService (some .shell) process.applicationIdentity)
  let handle ← onKernel (ipcEndpointCreate config.process config.queueDepth true)
  modifyService fun service => { service with endpointHandle := handle }
  let outcome ← attempt (onKernel (ipcServiceRegister config.process (some .shell) handle))
  match outcome with
  | .ok () => do
    let s ← get
    modifyService fun service => { service with generation := ipcServiceGeneration s.kernel.world (some .shell), running := true }
  | .error status => do
    let _ ← attempt (onKernel (HandleTables.handleTableClose config.process handle))
    modifyService fun service => { service with endpointHandle := 0 }
    fail status

end Shell
end InferenceOS
