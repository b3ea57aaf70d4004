import InferenceOS.Kernel.Ipc
import InferenceOS.Syscall.UserCopy

/-! The system calls on endpoints and services, `syscall/ipc.c`, with the requests of `user/abi.h`. -/

namespace InferenceOS
open Program Kernel

/-- The state that the system calls change. -/
structure SyscallState where
  kernel : Kernel
  memory : VirtualMemory
  addressSpaces : ProcessRef → AddressSpace

structure UserIpcConnectRequest where
  size : Nat
  version : Nat
  service : Nat
  flags : Nat
  reserved32 : Nat
  endpointHandle : Handle
  serviceGeneration : Nat

structure UserIpcSendRequest where
  flags : Nat
  endpointHandle : Handle
  requestId : Nat
  operation : Nat
  messageFlags : Nat
  itemCount : Nat
  payloadSize : Nat
  reserved32 : Nat
  payloadAddress : Nat

structure UserIpcReceiveRequest where
  flags : Nat
  endpointHandle : Handle
  messageAddress : Nat
  messageCapacity : Nat
  reserved32 : Nat

/-- The first bytes of a kernel buffer. -/
def bufferBytes (n : Nat) (buffer : Nat → UInt8) : Bytes n := fun i => buffer i.1

/-- The size of `struct ios_user_ipc_connect_request`. -/
def connectRequestSize : Nat := 32

/-- The size of `struct ios_user_ipc_send_request`. -/
def sendRequestSize : Nat := 48

/-- The size of `struct ios_user_ipc_receive_request`. -/
def receiveRequestSize : Nat := 32

/-- The size of `struct ios_ipc_message`. -/
abbrev ipcMessageSize : Nat := 552

/-- The request in a buffer. -/
def UserIpcConnectRequest.read (buffer : Nat → UInt8) : UserIpcConnectRequest :=
  let bytes := bufferBytes connectRequestSize buffer
  { size := bytes.toNat 0 2, version := bytes.toNat 2 2, service := bytes.toNat 4 4, flags := bytes.toNat 8 4
    reserved32 := bytes.toNat 12 4, endpointHandle := BitVec.ofNat 64 (bytes.toNat 16 8), serviceGeneration := bytes.toNat 24 8 }

/-- The bytes of a request. -/
def UserIpcConnectRequest.bytes (request : UserIpcConnectRequest) : Bytes 32 :=
  let bytes := ((((Bytes.zero : Bytes 32).put 0 (Bytes.ofNat 2 request.size)).put 2 (Bytes.ofNat 2 request.version)).put 4
    (Bytes.ofNat 4 request.service)).put 8 (Bytes.ofNat 4 request.flags)
  ((bytes.put 12 (Bytes.ofNat 4 request.reserved32)).put 16 (Bytes.ofNat 8 request.endpointHandle.toNat)).put 24
    (Bytes.ofNat 8 request.serviceGeneration)

/-- The request in a buffer. -/
def UserIpcSendRequest.read (buffer : Nat → UInt8) : UserIpcSendRequest :=
  let bytes := bufferBytes sendRequestSize buffer
  { flags := bytes.toNat 4 4, endpointHandle := BitVec.ofNat 64 (bytes.toNat 8 8), requestId := bytes.toNat 16 8
    operation := bytes.toNat 24 4, messageFlags := bytes.toNat 28 4, itemCount := bytes.toNat 32 2
    payloadSize := bytes.toNat 34 2, reserved32 := bytes.toNat 36 4, payloadAddress := bytes.toNat 40 8 }

/-- The request in a buffer. -/
def UserIpcReceiveRequest.read (buffer : Nat → UInt8) : UserIpcReceiveRequest :=
  let bytes := bufferBytes receiveRequestSize buffer
  { flags := bytes.toNat 4 4, endpointHandle := BitVec.ofNat 64 (bytes.toNat 8 8), messageAddress := bytes.toNat 16 8
    messageCapacity := bytes.toNat 24 4, reserved32 := bytes.toNat 28 4 }

/-- The check of `ipc_send_syscall` on its request. -/
def UserIpcSendRequest.IsMalformed (request : UserIpcSendRequest) : Prop :=
  request.flags ≠ 0 ∨ request.messageFlags ≠ 0 ∨ request.reserved32 ≠ 0 ∨ request.endpointHandle = 0 ∨ request.requestId = 0 ∨
    request.operation = 0 ∨ ipcMaxItemCount < request.itemCount ∨ ipcMaxPayloadSize < request.payloadSize ∨
    decide (request.payloadSize = 0) ≠ decide (request.payloadAddress = 0)

instance {request : UserIpcSendRequest} : Decidable request.IsMalformed := by
  unfold UserIpcSendRequest.IsMalformed
  infer_instance

/-- The check of `ipc_receive_syscall` on its request. -/
def UserIpcReceiveRequest.IsMalformed (request : UserIpcReceiveRequest) : Prop :=
  request.flags ≠ 0 ∨ request.reserved32 ≠ 0 ∨ request.endpointHandle = 0 ∨ request.messageAddress = 0 ∨
    request.messageCapacity < ipcMessageSize

instance {request : UserIpcReceiveRequest} : Decidable request.IsMalformed := by
  unfold UserIpcReceiveRequest.IsMalformed
  infer_instance

/-- The bytes of a message. -/
def IpcMessage.bytes (message : IpcMessage) : Bytes ipcMessageSize :=
  let bytes := ((((Bytes.zero : Bytes ipcMessageSize).put 0 (Bytes.ofNat 2 message.size)).put 2
    (Bytes.ofNat 2 message.version)).put 4 (Bytes.ofNat 4 message.operation)).put 8 (Bytes.ofNat 8 message.requestId)
  let bytes := ((bytes.put 16 (Bytes.ofNat 8 message.callerProcessId)).put 24
    (Bytes.ofNat 8 message.callerApplicationIdentity)).put 32 (Bytes.ofNat 4 message.flags)
  ((bytes.put 36 (Bytes.ofNat 2 message.itemCount)).put 38 (Bytes.ofNat 2 message.payloadSize)).put 40 message.payload

namespace Syscall
open UserCopy

/-- Run a program of the kernel. -/
def onKernel {α : Type} (m : Program IosError Kernel α) : Program IosError SyscallState α :=
  zoom (fun s => s.kernel) (fun s kernel => { s with kernel }) m

/-- Run a copy between the kernel and the memory of a process. -/
def onMemory {α : Type} (process : ProcessRef) (m : AddressSpace → Program IosError VirtualMemory α) :
    Program IosError SyscallState α := do
  let s ← get
  zoom (fun s => s.memory) (fun s memory => { s with memory }) (m (s.addressSpaces process))

def unusedArgumentsAreZero (arguments : Fin 6 → BitVec 64) : Bool := ∀ index, index ≠ 0 → arguments index = 0

/-- `syscall_validate_structure_header`: the size in the header. -/
def syscallValidateStructureHeader (process : ProcessRef) (userAddress minimumSize expectedVersion : Nat) :
    Program IosError SyscallState Nat := do
  failIf (minimumSize < 4) .invalidArgument
  let buffer ← onMemory process (userCopyFrom · userAddress 4)
  let header := bufferBytes 4 buffer
  failIf (header.toNat 2 2 ≠ expectedVersion) .unsupportedVersion
  failIf (header.toNat 0 2 < minimumSize) .protocol
  pure (header.toNat 0 2)

def copyVersionedRequest (process : ProcessRef) (userAddress requestSize : Nat) : Program IosError SyscallState (Nat → UInt8) := do
  let size ← syscallValidateStructureHeader process userAddress requestSize ipcAbiVersion
  failIf (size ≠ requestSize) .protocol
  onMemory process (userCopyFrom · userAddress requestSize)

/-- The service with a number. -/
def trustedService : Nat → Option TrustedService
  | 1 => some .shell
  | 2 => some .gui
  | 3 => some .fileView
  | 4 => some .proprietaryAdapter
  | _ => none

def ipcServiceConnectSyscall (process : ProcessRef) (arguments : Fin 6 → BitVec 64) : Program IosError SyscallState Unit := do
  failIf (unusedArgumentsAreZero arguments = false) .invalidArgument
  let buffer ← copyVersionedRequest process (arguments 0).toNat connectRequestSize
  let request := UserIpcConnectRequest.read buffer
  failIf (request.flags ≠ 0 ∨ request.reserved32 ≠ 0 ∨ request.endpointHandle ≠ 0 ∨ request.serviceGeneration ≠ 0) .protocol
  let handle ← onKernel (ipcServiceConnect process (trustedService request.service) true)
  let s ← get
  let generation := ipcServiceGeneration s.kernel.world (trustedService request.service)
  if generation = 0 then do
    let _ ← attempt (onKernel (HandleTables.handleTableClose process handle))
    fail .invalidState
  else do
    let bytes := { request with endpointHandle := handle, serviceGeneration := generation }.bytes
    let outcome ← attempt (onMemory process (userCopyTo · (arguments 0).toNat bytes.byte connectRequestSize))
    match outcome with
    | .ok () => pure ()
    | .error status => do
      let _ ← attempt (onKernel (HandleTables.handleTableClose process handle))
      fail status

def ipcSendSyscall (process : ProcessRef) (arguments : Fin 6 → BitVec 64) : Program IosError SyscallState Unit := do
  failIf (unusedArgumentsAreZero arguments = false) .invalidArgument
  let buffer ← copyVersionedRequest process (arguments 0).toNat sendRequestSize
  let request := UserIpcSendRequest.read buffer
  failIf request.IsMalformed .protocol
  let payload ← if request.payloadSize = 0 then pure none
    else some <$> onMemory process (userCopyFrom · request.payloadAddress request.payloadSize)
  onKernel (ipcSend process request.endpointHandle ⟨request.requestId, request.operation, request.messageFlags,
    request.itemCount, payload, request.payloadSize⟩ false)

def ipcReceiveSyscall (process : ProcessRef) (arguments : Fin 6 → BitVec 64) : Program IosError SyscallState Unit := do
  failIf (unusedArgumentsAreZero arguments = false) .invalidArgument
  let buffer ← copyVersionedRequest process (arguments 0).toNat receiveRequestSize
  let request := UserIpcReceiveRequest.read buffer
  failIf request.IsMalformed .protocol
  let message ← onKernel (ipcReceive process request.endpointHandle true false)
  let bytes := (message.getD IpcMessage.zero).bytes
  onMemory process (userCopyTo · request.messageAddress bytes.byte ipcMessageSize)

end Syscall
end InferenceOS
