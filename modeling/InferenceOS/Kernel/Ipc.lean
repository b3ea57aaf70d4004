import Mathlib.Data.Fintype.Card
import InferenceOS.Kernel.HandleTable
import InferenceOS.Kernel.Scheduler
import InferenceOS.Lib.Ring

/-! Message endpoints and trusted services, `ipc/ipc.c`. Endpoints are the objects of the processes' handle tables. The
    wait queues of an endpoint lie with the scheduler under their own names. A failed `IOS_ASSERT` halts the machine:
    the model sets a flag and goes on. The services past the last one of `enum ios_trusted_service` are never used. -/

namespace InferenceOS
open Program

abbrev ipcMaxEndpoints : Nat := 64

/-- A pointer into the table of endpoints. -/
abbrev EndpointRef : Type := Fin ipcMaxEndpoints

def ipcMaxQueueDepth : Nat := 16

abbrev ipcMaxPayloadSize : Nat := 512

def ipcMaxItemCount : Nat := 64

def ipcAbiVersion : Nat := 1

/-- The size of `struct ios_ipc_message_header`. -/
def ipcHeaderSize : Nat := 40

/-- `struct ios_ipc_message` with the fields of its header. -/
structure IpcMessage where
  size : Nat
  version : Nat
  operation : Nat
  requestId : Nat
  callerProcessId : Nat
  callerApplicationIdentity : Nat
  flags : Nat
  itemCount : Nat
  payloadSize : Nat
  payload : Bytes ipcMaxPayloadSize
  deriving DecidableEq

/-- A message after `memset`. -/
def IpcMessage.zero : IpcMessage := ⟨0, 0, 0, 0, 0, 0, 0, 0, 0, Bytes.zero⟩

/-- The wait queues of the endpoints. -/
inductive IpcQueue where
  | receivers (endpoint : EndpointRef)
  | senders (endpoint : EndpointRef)
  deriving DecidableEq, Repr

/-- `struct ios_ipc_endpoint`; `messages` are the slots of the ring. -/
structure Endpoint extends Ring IpcMessage where
  allocated : Bool
  revoked : Bool
  referenceCount : Nat
  ownerProcessId : Nat
  ownerApplicationIdentity : Nat

/-- An endpoint after `memset`. -/
def Endpoint.zero : Endpoint := ⟨⟨0, 0, 0, 0, fun _ => IpcMessage.zero⟩, false, false, 0, 0, 0⟩

inductive TrustedService where
  | shell | gui | fileView | proprietaryAdapter
  deriving DecidableEq, Repr

instance : Fintype TrustedService := ⟨{.shell, .gui, .fileView, .proprietaryAdapter}, fun service => by cases service <;> decide⟩

structure TrustedServiceEntry where
  trustedApplicationIdentity : Nat
  generation : Nat
  endpoint : Option EndpointRef
  providerProcessId : Nat

/-- The fields of `struct ios_process` that these functions read; the handle tables are apart. -/
structure ProcessIdentity where
  processId : Nat
  applicationIdentity : Nat

/-- What endpoints and services depend on. -/
structure IpcWorld where
  endpoints : EndpointRef → Endpoint
  services : TrustedService → TrustedServiceEntry
  ipcReady : Bool
  processes : ProcessRef → ProcessIdentity
  scheduler : Scheduler IpcQueue
  halted : Bool

/-- The handle tables of the processes, and endpoints as their objects. -/
abbrev Kernel : Type := HandleTables ProcessRef IpcWorld EndpointRef

namespace IpcWorld

/-- The world with another endpoint. -/
def setEndpoint (w : IpcWorld) (e : EndpointRef) (endpoint : Endpoint) : IpcWorld :=
  { w with endpoints := Function.update w.endpoints e endpoint }

/-- The world with another service entry. -/
def setService (w : IpcWorld) (service : TrustedService) (entry : TrustedServiceEntry) : IpcWorld :=
  { w with services := Function.update w.services service entry }

/-- `memset` of an endpoint with its wait queues. -/
def clear (e : EndpointRef) (w : IpcWorld) : IpcWorld :=
  { w.setEndpoint e Endpoint.zero with
    scheduler := (w.scheduler.setQueue (.receivers e) ⟨none, none⟩).setQueue (.senders e) ⟨none, none⟩ }

def endpointRetain (e : EndpointRef) (w : IpcWorld) : IpcWorld :=
  let endpoint := w.endpoints e
  if endpoint.allocated ∧ endpoint.referenceCount ≠ 2 ^ 32 - 1 then
    w.setEndpoint e { endpoint with referenceCount := endpoint.referenceCount + 1 }
  else { w with halted := true }

def endpointRelease (e : EndpointRef) (w : IpcWorld) : IpcWorld :=
  let endpoint := w.endpoints e
  if endpoint.allocated ∧ endpoint.referenceCount ≠ 0 then
    if endpoint.referenceCount - 1 = 0 then
      let scheduler := (w.scheduler.waitQueueWakeAll (.receivers e)).waitQueueWakeAll (.senders e)
      clear e { w with scheduler }
    else w.setEndpoint e { endpoint with referenceCount := endpoint.referenceCount - 1 }
  else { w with halted := true }

/-- The next generation of a service; it skips 0. -/
def nextServiceGeneration (generation : Nat) : Nat :=
  if (generation + 1) % 2 ^ 64 = 0 then 1 else (generation + 1) % 2 ^ 64

end IpcWorld

namespace Kernel
open HandleTables IpcWorld

/-- Change the world. -/
def modifyWorld (f : IpcWorld → IpcWorld) : Program IosError Kernel Unit := modify fun s => { s with world := f s.world }

/-- Run a program of the scheduler. -/
def onScheduler {α : Type} (m : Program IosError (Scheduler IpcQueue) α) : Program IosError Kernel α :=
  zoom (fun s => s.world.scheduler) (fun s scheduler => { s with world := { s.world with scheduler } }) m

def resolveEndpoint (s : Kernel) (process : ProcessRef) (handle : Handle) (rights : BitVec 64) : Except IosError EndpointRef :=
  if s.world.ipcReady = false then .error .invalidState
  else do
    let e ← (s.tables process).handleTableResolve handle .ipcEndpoint rights
    if (s.world.endpoints e).allocated = false ∨ (s.world.endpoints e).revoked then .error .invalidState
    .ok e

/-- The first endpoint that is not allocated. -/
def freeEndpoint (w : IpcWorld) : Option EndpointRef :=
  (List.finRange ipcMaxEndpoints).find? fun e => (w.endpoints e).allocated = false

/-- The world with a new endpoint. -/
def created (e : EndpointRef) (owner : ProcessIdentity) (queueDepth : Nat) (w : IpcWorld) : IpcWorld :=
  (clear e w).setEndpoint e { Endpoint.zero with
    allocated := true, capacity := queueDepth, referenceCount := 1
    ownerProcessId := owner.processId, ownerApplicationIdentity := owner.applicationIdentity }

/-- `ipc_endpoint_create`; `out` tells whether there is a place for the handle. -/
def ipcEndpointCreate (owner : ProcessRef) (queueDepth : Nat) (out : Bool) : Program IosError Kernel Handle := do
  let s ← get
  let process := s.world.processes owner
  failIf (s.world.ipcReady = false ∨ out = false ∨ process.processId = 0 ∨ queueDepth = 0 ∨
    ipcMaxQueueDepth < queueDepth) .invalidArgument
  match freeEndpoint s.world with
  | none => fail .noSpace
  | some e => do
    modifyWorld (created e process queueDepth)
    let outcome ← attempt (handleTableInsert owner (some e) .ipcEndpoint
      (rightWait ||| rightSignal ||| rightDuplicate ||| rightTransfer ||| rightAdminister)
      (some endpointRetain) (some endpointRelease) out)
    match outcome with
    | .ok handle => pure handle
    | .error status => do
      modifyWorld (clear e)
      fail status

/-- `ipc_initialize`; what it does not write stays. -/
def ipcInitialize (w : IpcWorld) : IpcWorld :=
  { w with endpoints := fun _ => Endpoint.zero, services := fun _ => ⟨0, 1, none, 0⟩, ipcReady := true }

/-- The arguments of `ipc_send`; `payload` points to the bytes, or is `NULL`. -/
structure SendRequest where
  requestId : Nat
  operation : Nat
  flags : Nat
  itemCount : Nat
  payload : Option (Nat → UInt8)
  payloadSize : Nat

/-- The check of `ipc_send` on its arguments. -/
def SendRequest.IsMalformed (request : SendRequest) : Prop :=
  request.requestId = 0 ∨ request.operation = 0 ∨ request.flags ≠ 0 ∨ ipcMaxItemCount < request.itemCount ∨
    ipcMaxPayloadSize < request.payloadSize ∨ request.payloadSize ≠ 0 ∧ request.payload.isNone

instance {request : SendRequest} : Decidable request.IsMalformed := by
  unfold SendRequest.IsMalformed
  infer_instance

/-- The message that `ipc_send` writes for a sender. -/
def SendRequest.message (request : SendRequest) (sender : ProcessIdentity) : IpcMessage :=
  { IpcMessage.zero with
    size := ipcHeaderSize + request.payloadSize
    version := ipcAbiVersion
    operation := request.operation
    requestId := request.requestId
    callerProcessId := sender.processId
    callerApplicationIdentity := sender.applicationIdentity
    itemCount := request.itemCount
    payloadSize := request.payloadSize
    payload := fun i => if i.1 < request.payloadSize then request.payload.elim 0 (· i.1) else 0 }

/-- The world after a message was written to an endpoint. -/
def sent (e : EndpointRef) (message : IpcMessage) (w : IpcWorld) : IpcWorld :=
  let w := w.setEndpoint e { w.endpoints e with toRing := (w.endpoints e).push message }
  { w with scheduler := (w.scheduler.waitQueueWakeOne (.receivers e)).2 }

/-- The world after a message was read from an endpoint. -/
def received (e : EndpointRef) (w : IpcWorld) : IpcWorld :=
  let w := w.setEndpoint e { w.endpoints e with toRing := (w.endpoints e).pop IpcMessage.zero }
  { w with scheduler := (w.scheduler.waitQueueWakeOne (.senders e)).2 }

def ipcSend (sender : ProcessRef) (handle : Handle) (request : SendRequest) (block : Bool) : Program IosError Kernel Unit := do
  failIf request.IsMalformed .protocol
  let s ← get
  let e ← ofExcept (s.resolveEndpoint sender handle rightSignal)
  let endpoint := s.world.endpoints e
  if endpoint.count = endpoint.capacity then
    if block then onScheduler (Scheduler.schedulerBlockCurrent (.senders e)) else fail .wouldBlock
  else modifyWorld (sent e (request.message (s.world.processes sender)))

/-- `ipc_receive`: what it writes to the message buffer, when it writes there; `out` tells whether there is a buffer. -/
def ipcReceive (receiver : ProcessRef) (handle : Handle) (out block : Bool) :
    Program IosError Kernel (Option IpcMessage) := do
  failIf (out = false) .invalidArgument
  let s ← get
  let e ← ofExcept (s.resolveEndpoint receiver handle rightWait)
  let endpoint := s.world.endpoints e
  failIf (endpoint.ownerProcessId ≠ (s.world.processes receiver).processId) .accessDenied
  if endpoint.count = 0 then
    if block then
      onScheduler (Scheduler.schedulerBlockCurrent (.receivers e))
      pure none
    else fail .wouldBlock
  else
    modifyWorld (received e)
    pure (some endpoint.front)

/-- `ipc_trust_service`; a number that names no service is `none`. -/
def ipcTrustService (service : Option TrustedService) (applicationIdentity : Nat) : Program IosError Kernel Unit := do
  let s ← get
  match service with
  | none => fail .invalidArgument
  | some service => do
    failIf (s.world.ipcReady = false ∨ applicationIdentity = 0) .invalidArgument
    let entry := s.world.services service
    failIf (entry.trustedApplicationIdentity ≠ 0 ∧ entry.trustedApplicationIdentity ≠ applicationIdentity) .alreadyExists
    modifyWorld fun w => w.setService service { entry with trustedApplicationIdentity := applicationIdentity }

/-- Revoke the endpoint of a service entry and drop its reference. -/
def revoke (e : EndpointRef) (w : IpcWorld) : IpcWorld :=
  endpointRelease e (w.setEndpoint e { w.endpoints e with revoked := true })

def ipcServiceRegister (provider : ProcessRef) (service : Option TrustedService) (handle : Handle) :
    Program IosError Kernel Unit := do
  let s ← get
  match service with
  | none => fail .invalidArgument
  | some service => do
    let process := s.world.processes provider
    failIf (s.world.ipcReady = false) .invalidArgument
    let entry := s.world.services service
    failIf (entry.trustedApplicationIdentity = 0 ∨
      entry.trustedApplicationIdentity ≠ process.applicationIdentity) .accessDenied
    let e ← ofExcept (s.resolveEndpoint provider handle (rightAdminister ||| rightWait))
    failIf ((s.world.endpoints e).ownerProcessId ≠ process.processId) .accessDenied
    failIf (entry.endpoint = some e) .alreadyExists
    modifyWorld (endpointRetain e)
    modifyWorld fun w => entry.endpoint.elim w (revoke · w)
    modifyWorld fun w => w.setService service { entry with
      endpoint := some e, providerProcessId := process.processId
      generation := nextServiceGeneration entry.generation }

def ipcServiceConnect (client : ProcessRef) (service : Option TrustedService) (out : Bool) :
    Program IosError Kernel Handle := do
  let s ← get
  match service with
  | none => fail .invalidArgument
  | some service => do
    failIf (s.world.ipcReady = false ∨ out = false) .invalidArgument
    match (s.world.services service).endpoint with
    | none => fail .notFound
    | some e => do
      failIf ((s.world.endpoints e).revoked = true) .notFound
      modifyWorld (endpointRetain e)
      let outcome ← attempt (handleTableInsert client (some e) .ipcEndpoint
        (rightSignal ||| rightDuplicate ||| rightTransfer) (some endpointRetain) (some endpointRelease) out)
      match outcome with
      | .ok handle => pure handle
      | .error status => do
        modifyWorld (endpointRelease e)
        fail status

/-- `ipc_service_generation`; a number that names no service is `none`. -/
def ipcServiceGeneration (w : IpcWorld) (service : Option TrustedService) : Nat :=
  service.elim 0 fun service => if w.ipcReady then (w.services service).generation else 0

def ipcServiceUnregister (provider : ProcessRef) (service : Option TrustedService) : Program IosError Kernel Unit := do
  let s ← get
  match service with
  | none => fail .invalidArgument
  | some service => do
    let process := s.world.processes provider
    failIf (s.world.ipcReady = false) .invalidArgument
    let entry := s.world.services service
    match entry.endpoint with
    | none => fail .notFound
    | some e => do
      failIf (entry.providerProcessId ≠ process.processId ∨
        entry.trustedApplicationIdentity ≠ process.applicationIdentity) .accessDenied
      modifyWorld (revoke e)
      modifyWorld fun w => w.setService service { entry with
        endpoint := none, providerProcessId := 0, generation := nextServiceGeneration entry.generation }

end Kernel
end InferenceOS
