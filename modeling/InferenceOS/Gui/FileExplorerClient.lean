import InferenceOS.Shell.Service

/-! The client of the file explorer, `gui/file_explorer/client.c`: its channel to the shell, and views that are put together
    from the pages of replies. The pointers that the functions check are not `NULL`; icons and render sequences are left out. -/

namespace InferenceOS
open Program Kernel

def fileExplorerMaxReplyPages : Nat := 64

structure FileExplorerClient where
  process : ProcessRef
  shellChannel : Handle
  shellGeneration : Nat
  nextRequestId : Nat
  connected : Bool

/-- What the functions of the client change: the client, and the shell with the result that it fills in. -/
structure ExplorerState (σ : Type) where
  client : FileExplorerClient
  shell : ShellState σ

/-- The bytes of a request in memory. -/
def FileViewRequest.bytes (request : FileViewRequest) : Bytes fileViewRequestSize :=
  (Bytes.zero : Bytes fileViewRequestSize) |>.put 0 (Bytes.ofNat 2 request.size) |>.put 2 (Bytes.ofNat 2 request.version)
    |>.put 4 (Bytes.ofNat 4 request.flags) |>.put 8 (Bytes.ofNat 8 request.directoryHandle)
    |>.put 16 (Bytes.ofNat 8 request.typeIconCapability) |>.put 24 (Bytes.ofNat 8 request.continuation)
    |>.put 32 (Bytes.ofNat 2 request.maximumItems) |>.put 34 (Bytes.ofNat 2 request.reserved16)
    |>.put 36 (Bytes.ofNat 4 request.reserved32)

namespace FileExplorer
variable {σ : Type}

/-- Run a program of the shell. -/
def onShell {α : Type} (m : Program IosError (ShellState σ) α) : Program IosError (ExplorerState σ) α :=
  zoom ExplorerState.shell (fun s shell => { s with shell }) m

/-- Change the client. -/
def modifyClient (f : FileExplorerClient → FileExplorerClient) : Program IosError (ExplorerState σ) Unit :=
  modify fun s => { s with client := f s.client }

def disconnectChannel : Program IosError (ExplorerState σ) Unit := do
  let s ← get
  let _ ← attempt (if s.client.connected then
    onShell (Shell.onKernel (HandleTables.handleTableClose s.client.process s.client.shellChannel)) else pure ())
  modifyClient fun client => { client with shellChannel := 0, shellGeneration := 0, connected := false }

def connectChannel : Program IosError (ExplorerState σ) Unit := do
  disconnectChannel
  let s ← get
  let channel ← onShell (Shell.onKernel (ipcServiceConnect s.client.process (some .shell) true))
  let s ← get
  let generation := ipcServiceGeneration s.shell.kernel.world (some .shell)
  modifyClient fun client => { client with shellChannel := channel, shellGeneration := generation }
  if generation = 0 then do
    disconnectChannel
    fail .invalidState
  else modifyClient fun client => { client with connected := true }

def nextRequestId : Program IosError (ExplorerState σ) Nat := do
  let s ← get
  failIf (s.client.nextRequestId = 0 ∨ s.client.nextRequestId = 2 ^ 64 - 1) .overflow
  modifyClient fun client => { client with nextRequestId := client.nextRequestId + 1 }
  pure s.client.nextRequestId

/-- The exchange of `exchange` over the channel of the client; `stack` is what the message buffer of the shell holds. -/
def exchangeOnce (stack : IpcMessage) (requestId : Nat) (operation : ShellOperation) (payload : Nat → UInt8) (payloadSize : Nat) :
    Program IosError (ExplorerState σ) Unit := do
  let s ← get
  onShell (Shell.shellServiceExchange s.client.process s.client.shellChannel requestId operation (some payload) payloadSize stack)

/-- The check of `exchange` that the channel is the one of the service that runs. -/
def ensureChannel : Program IosError (ExplorerState σ) Unit := do
  let s ← get
  if s.client.connected = false ∨ s.client.shellGeneration ≠ ipcServiceGeneration s.shell.kernel.world (some .shell) then connectChannel
  else pure ()

def exchange (stack : IpcMessage) (operation : ShellOperation) (payload : Nat → UInt8) (payloadSize : Nat) :
    Program IosError (ExplorerState σ) Unit := do
  let requestId ← nextRequestId
  ensureChannel
  let status ← attempt (exchangeOnce stack requestId operation payload payloadSize)
  if status = .error .invalidState then do
    connectChannel
    exchangeOnce stack requestId operation payload payloadSize
  else ofExcept status

/-! ### Views -/

/-- The request for a page. -/
def pageRequest (directoryHandle typeIconCapability continuation maximumItems : Nat) : FileViewRequest :=
  { size := fileViewRequestSize
    version := shellProtocolVersion
    flags := 0
    directoryHandle := directoryHandle
    typeIconCapability := typeIconCapability
    continuation := continuation
    maximumItems := maximumItems
    reserved16 := 0
    reserved32 := 0 }

/-- The reply of an exchange, as `ios_file_explorer_client_file_view` checks it. -/
def replyOf (operation : ShellOperation) (continuation maximumItems : Nat) (result : ShellDispatchResult) : Except IosError FileViewReply :=
  match result.payload with
  -- The operation of the result is another one.
  | .guiView _ => .error .protocol
  | .fileView reply =>
    if result.operation ≠ operation.number ∨ result.payloadSize ≠ fileViewReplySize ∨ reply.size ≠ fileViewReplySize ∨
        reply.version ≠ shellProtocolVersion ∨ reply.status ≠ .ok () ∨ reply.flags ≠ 0 ∨ reply.itemCount ≠ result.itemCount ∨
        maximumItems < reply.itemCount ∨ (reply.continuation ≠ 0 ∧ reply.continuation = continuation) then .error .protocol
    else .ok reply

/-- The loop of `ios_file_explorer_client_file_view` for the pages that are left, behind the entries that are there. -/
def fileViewPages (stack : IpcMessage) (operation : ShellOperation) (directoryHandle typeIconCapability capacity : Nat) :
    Nat → Nat → List DisplaySafeEntry → Program IosError (ExplorerState σ) (List DisplaySafeEntry)
  | 0, _, _ => fail .overflow
  | pages + 1, continuation, entries => do
    let maximumItems := min (capacity - entries.length) shellFileViewReplyCapacity
    exchange stack operation (pageRequest directoryHandle typeIconCapability continuation maximumItems).bytes.byte fileViewRequestSize
    let s ← get
    let reply ← ofExcept (replyOf operation continuation maximumItems s.shell.result)
    let entries := entries ++ (List.ofFn reply.entries).take reply.itemCount
    if reply.continuation = 0 ∨ entries.length = capacity then pure entries
    else fileViewPages stack operation directoryHandle typeIconCapability capacity pages reply.continuation entries

/-- `ios_file_explorer_client_file_view`: the entries. -/
def fileExplorerClientFileView (stack : IpcMessage) (operation : ShellOperation) (directoryHandle typeIconCapability capacity : Nat) :
    Program IosError (ExplorerState σ) (List DisplaySafeEntry) := do
  failIf (capacity = 0 ∨ directoryHandle = 0 ∨ Shell.shellOperationIsFileView operation.number = false ∨
    (operation = .directoryView ∧ typeIconCapability ≠ 0) ∨ (operation ≠ .directoryView ∧ typeIconCapability = 0)) .invalidArgument
  fileViewPages stack operation directoryHandle typeIconCapability capacity fileExplorerMaxReplyPages 0 []

end FileExplorer
end InferenceOS
