import InferenceOS.Kernel.Ipc

/-! Calls of proprietary adapters, `shell/adapter_service.c`. The processes, the registrations and the capabilities are fixed
    while a call lasts: a registration is an action of the boot, and the broker reads it only. The callback of a registration
    runs over the handle tables and the world of the objects. -/

namespace InferenceOS
open Program

def proprietaryAdapterVersion : Nat := 1

abbrev proprietaryAdapterPayloadCapacity : Nat := 128

/-- The sizes of `struct ios_proprietary_adapter_request` and `struct ios_proprietary_adapter_reply`. -/
def proprietaryAdapterRequestSize : Nat := 160
def proprietaryAdapterReplySize : Nat := 152

structure AdapterRequest where
  size : Nat
  version : Nat
  flags : Nat
  adapterHandle : Handle
  contentHandle : Handle
  operation : Nat
  inputSize : Nat
  reserved16 : Nat
  input : Bytes proprietaryAdapterPayloadCapacity

/-- `struct ios_proprietary_adapter_reply`; its reserved fields stay zero. -/
structure AdapterReply where
  size : Nat
  version : Nat
  status : Except IosError Unit
  outputSize : Nat
  output : Bytes proprietaryAdapterPayloadCapacity

/-- What a callback returns, with what it has written to its output buffer and to the size. -/
structure AdapterAnswer where
  status : Except IosError Unit
  output : Bytes proprietaryAdapterPayloadCapacity
  outputSize : Nat

/-- `ios_proprietary_adapter_invoke_function` with its context: the process, the handle to the content, the operation and the
    input with its size. -/
abbrev AdapterFunction (ι ω Obj : Type) : Type :=
  ι → Handle → Nat → Bytes proprietaryAdapterPayloadCapacity → Nat → HandleTables ι ω Obj → AdapterAnswer × HandleTables ι ω Obj

/-- `struct ios_proprietary_adapter_registration` with the fields of its descriptor that a call reads. -/
structure AdapterRegistration (ι ω Obj : Type) where
  proprietaryProcess : Option ι
  occupied : Bool
  proprietaryApplicationIdentity : Nat
  allowedOperationMask : BitVec 64
  requiredContentRights : BitVec 64
  invoke : AdapterFunction ι ω Obj

/-- `struct ios_proprietary_adapter_capability`, without the count of its handles. -/
structure AdapterCapability (ι σ ω Obj : Type) where
  service : Option σ
  registration : Option (AdapterRegistration ι ω Obj)
  ownerProcessId : Nat
  ownerApplicationIdentity : Nat
  occupied : Bool

/-- What a call finds in the memory of the kernel: the processes, the services that are initialized and the capability that an
    object of that kind is. -/
structure AdapterBroker (ι σ ω Obj : Type) where
  processes : ι → ProcessIdentity
  initialized : σ → Bool
  capability : Obj → AdapterCapability ι σ ω Obj

/-- A run of a callback: the process, the registration, the handle it was given and the tables it found. -/
structure AdapterRun (ι ω Obj : Type) where
  process : ι
  registration : AdapterRegistration ι ω Obj
  handle : Handle
  found : HandleTables ι ω Obj

/-- The handle tables and the reply during a call. `runs` are the callbacks that ran; no function of the source reads them. -/
structure AdapterCall (ι ω Obj : Type) where
  tables : HandleTables ι ω Obj
  reply : AdapterReply
  runs : List (AdapterRun ι ω Obj)

/-- The programs of a call. -/
abbrev AdapterProgram (ι ω Obj α : Type) : Type := Program IosError (AdapterCall ι ω Obj) α

namespace AdapterProgram
variable {ι σ ω Obj α : Type} [DecidableEq ι] [DecidableEq σ]

/-- Run a program of the handle tables. -/
def onTables (m : Program IosError (HandleTables ι ω Obj) α) : AdapterProgram ι ω Obj α :=
  zoom AdapterCall.tables (fun s tables => { s with tables }) m

/-- Change the reply. -/
def onReply (f : AdapterReply → AdapterReply) : AdapterProgram ι ω Obj Unit := modify fun s => { s with reply := f s.reply }

def resolveCapability (broker : AdapterBroker ι σ ω Obj) (service : σ) (caller : ι) (table : HandleTable ω Obj) (handle : Handle) :
    Except IosError (AdapterRegistration ι ω Obj) :=
  match table.handleTableResolve handle .adapterCapability rightSignal with
  | .error e => .error e
  | .ok object =>
    let capability := broker.capability object
    match capability.registration with
    | none => .error .accessDenied
    | some registration =>
      if capability.occupied = false ∨ capability.service ≠ some service ∨ registration.occupied = false ∨
          capability.ownerProcessId ≠ (broker.processes caller).processId ∨
          capability.ownerApplicationIdentity ≠ (broker.processes caller).applicationIdentity then .error .accessDenied
      else .ok registration

/-- The call of `registration->descriptor.invoke`; the output goes into the reply. -/
def invokeCallback (registration : AdapterRegistration ι ω Obj) (process : ι) (handle : Handle) (request : AdapterRequest) :
    AdapterProgram ι ω Obj AdapterAnswer := do
  let s ← get
  modify fun s => { s with runs := s.runs ++ [⟨process, registration, handle, s.tables⟩] }
  let outcome := registration.invoke process handle request.operation request.input request.inputSize s.tables
  modify fun s => { s with tables := outcome.2 }
  onReply fun reply => { reply with output := outcome.1.output }
  pure outcome.1

/-- `ios_proprietary_adapter_invoke` up to its label `done`. -/
def invokeAdapter (broker : AdapterBroker ι σ ω Obj) (service : σ) (caller : ι) (request : AdapterRequest) :
    AdapterProgram ι ω Obj Unit := do
  onReply fun reply =>
    { reply with
      size := proprietaryAdapterReplySize, version := proprietaryAdapterVersion, status := .ok (), outputSize := 0, output := Bytes.zero }
  failIf (broker.initialized service = false ∨ (broker.processes caller).processId = 0 ∨
    (broker.processes caller).applicationIdentity = 0 ∨ request.size ≠ proprietaryAdapterRequestSize ∨
    request.version ≠ proprietaryAdapterVersion ∨ request.flags ≠ 0 ∨ request.adapterHandle = 0 ∨ request.contentHandle = 0 ∨
    64 ≤ request.operation ∨ proprietaryAdapterPayloadCapacity < request.inputSize ∨ request.reserved16 ≠ 0) .protocol
  let s ← get
  let registration ← ofExcept (resolveCapability broker service caller (s.tables.tables caller) request.adapterHandle)
  match registration.proprietaryProcess with
  | none => fail .invalidState
  | some process => do
    failIf ((broker.processes process).processId = 0 ∨
      (broker.processes process).applicationIdentity ≠ registration.proprietaryApplicationIdentity) .invalidState
    failIf (registration.allowedOperationMask.getLsbD request.operation = false) .notSupported
    let _ ← ofExcept ((s.tables.tables caller).handleTableResolve request.contentHandle .content
      (registration.requiredContentRights ||| rightTransfer))
    let reducedHandle ← onTables
      (HandleTables.handleTableTransfer caller (some process) request.contentHandle registration.requiredContentRights false true)
    let answer ← invokeCallback registration process reducedHandle request
    let _ ← attempt (onTables (HandleTables.handleTableClose process reducedHandle))
    match answer.status with
    | .error e => do
      onReply fun reply => { reply with output := Bytes.zero }
      fail e
    | .ok _ => do
      if proprietaryAdapterPayloadCapacity < answer.outputSize then do
        onReply fun reply => { reply with output := Bytes.zero }
        fail .protocol
      else onReply fun reply => { reply with outputSize := answer.outputSize }

def proprietaryAdapterInvoke (broker : AdapterBroker ι σ ω Obj) (service : σ) (caller : ι) (request : AdapterRequest) :
    AdapterProgram ι ω Obj Unit := do
  let status ← attempt (invokeAdapter broker service caller request)
  onReply fun reply => { reply with status }
  ofExcept status

end AdapterProgram
end InferenceOS
