import InferenceOS.Drivers.HypervRing

/-! The messages of VMBus, `drivers/hyperv/vmbus.c`. The host puts its messages in a queue and delivers the next one into the
    message slot of the guest when the slot is free; `host` says what it does about each message that the guest posts. The
    write to the end-of-message register only asks for the next delivery and has no counterpart here. -/

namespace InferenceOS
open Program

/-- A message in the slot of a synthetic interrupt, `struct ios_hv_message`; `payload_size` is the length of the payload. -/
structure HvMessage where
  payload : List UInt8
  deriving DecidableEq

/-- A message of the host on its way, with the polls of the free slot that pass before it is delivered. -/
structure HvArrival where
  delay : Nat
  message : HvMessage
  deriving DecidableEq

/-- `struct ios_hv_post_message_input`. -/
structure HvPost where
  connectionId : Nat
  payload : List UInt8
  deriving DecidableEq

/-- `enum ios_vmbus_state`. -/
inductive VmbusLifecycle where
  | disconnected | connecting | connected | failed
  deriving DecidableEq, Repr

/-- The fields of `struct ios_vmbus` that connecting and opening use. -/
structure Vmbus where
  negotiatedVersion : Nat
  messageConnectionId : Nat
  nextOpenId : Nat
  nextGpadlId : Nat
  state : VmbusLifecycle
  lastStage : String
  deriving DecidableEq

/-- The bus, the message slot of its interrupt, the messages of the host that wait for the slot and the posts made so far. -/
structure VmbusMachine where
  bus : Vmbus
  slot : Option HvMessage
  pending : List HvArrival
  posts : List HvPost
  deriving DecidableEq

/-- What the host does about the last of the posts made so far: the hypercall fails, or the host queues some messages. -/
abbrev HvHost : Type := List HvPost → Option (List HvArrival)

/-- A part of `struct ios_vmbus_offer`. -/
structure VmbusOffer where
  childRelid : Nat
  connectionId : Nat

structure VmbusChannel where
  offer : VmbusOffer
  outbound : HvRing
  inbound : HvRing
  openId : Nat
  gpadlId : Nat

/-- A number of four bytes in a message. -/
def wire32 (value : Nat) : List UInt8 := (Bytes.ofNat 4 value).toList

/-- The bytes of a message from an offset on, as a number. -/
def wireField (payload : List UInt8) (offset width : Nat) : Nat := (Bytes.ofList hvMessagePayloadSize payload).toNat offset width

/-! ### Constants -/

def vmbusMaxOffers : Nat := 32

/-- `enum ios_vmbus_channel_message_type`. -/
def vmbusMessageOfferChannel : Nat := 1
def vmbusMessageRescindChannelOffer : Nat := 2
def vmbusMessageOpenChannel : Nat := 5
def vmbusMessageOpenChannelResult : Nat := 6
def vmbusMessageGpadlHeader : Nat := 8
def vmbusMessageGpadlCreated : Nat := 10
def vmbusMessageInitiateContact : Nat := 14
def vmbusMessageVersionResponse : Nat := 15

/-- `sizeof(struct ios_vmbus_channel_message_header)`. -/
def vmbusHeaderSize : Nat := 8

/-- `sizeof(struct ios_vmbus_offer_channel)`. -/
def vmbusOfferSize : Nat := 196

/-- `sizeof(struct ios_vmbus_version_response)`. -/
def versionResponseSize : Nat := 16

/-- `sizeof(struct vmbus_gpadl_created)`. -/
def gpadlCreatedSize : Nat := 20

/-- `sizeof(struct vmbus_open_result)`. -/
def openResultSize : Nat := 20

def vmbusMessageSint : Nat := 2

/-- The version numbers, `IOS_VMBUS_VERSION_5_3` and the others. -/
def vmbusVersion (major minor : Nat) : Nat := major * 2 ^ 16 + minor

/-- `versions`. -/
def vmbusVersions : List Nat := [vmbusVersion 5 3, vmbusVersion 5 2, vmbusVersion 5 1, vmbusVersion 5 0, vmbusVersion 4 1]

/-- `IOS_HV_CONNECTION_ID_VMBUS_LEGACY` and `IOS_HV_CONNECTION_ID_VMBUS_MODERN`. -/
def vmbusConnectionId (version : Nat) : Nat := if vmbusVersion 5 0 ≤ version then 4 else 1

/-- The programs of the bus. -/
abbrev VmbusProgram (α : Type) : Type := Program IosError VmbusMachine α

namespace VmbusProgram

/-! ### Messages -/

/-- The turn of the host before a poll: a free slot gets the next message when its time has come. -/
def hostTurn (s : VmbusMachine) : VmbusMachine :=
  match s.slot, s.pending with
  | none, ⟨0, message⟩ :: rest => { s with slot := some message, pending := rest }
  | none, ⟨delay + 1, message⟩ :: rest => { s with pending := ⟨delay, message⟩ :: rest }
  | _, _ => s

/-- The loop of `receive_message`; the result is the payload copied. -/
def receiveMessage (capacity : Nat) : Nat → VmbusProgram (List UInt8)
  | 0 => fail .timeout
  | spins + 1 => do
    modify hostTurn
    let s ← get
    match s.slot with
    | none => receiveMessage capacity spins
    | some message => do
      failIf (hvMessagePayloadSize < message.payload.length ∨ capacity < message.payload.length) .protocol
      modify fun s => { s with slot := none }
      pure message.payload

/-- The type in the header of a message. -/
def headerType (payload : List UInt8) : Nat := wireField payload 0 4

/-- The loop of `wait_for_type`. -/
def waitFrom (expected capacity spinLimit : Nat) : Nat → VmbusProgram (List UInt8)
  | 0 => fail .timeout
  | rounds + 1 => do
    let payload ← receiveMessage capacity spinLimit
    failIf (payload.length < vmbusHeaderSize) .protocol
    if headerType payload = expected then pure payload
    else if headerType payload = vmbusMessageRescindChannelOffer ∨ headerType payload = vmbusMessageOfferChannel then
      waitFrom expected capacity spinLimit rounds
    else fail .protocol

def waitForType (expected capacity spinLimit : Nat) : VmbusProgram (List UInt8) :=
  waitFrom expected capacity spinLimit (vmbusMaxOffers + 8)

/-- The attempts of `post_message`. -/
def postAttempts (host : HvHost) (post : HvPost) : Nat → VmbusProgram Unit
  | 0 => fail .io
  | attempts + 1 => do
    let s ← get
    modify fun s => { s with posts := s.posts ++ [post] }
    match host (s.posts ++ [post]) with
    | some arrivals => modify fun s => { s with pending := s.pending ++ arrivals }
    | none => postAttempts host post attempts

def postMessage (host : HvHost) (payload : List UInt8) : VmbusProgram Unit := do
  failIf (hvMessagePayloadSize < payload.length) .invalidArgument
  let s ← get
  postAttempts host ⟨s.bus.messageConnectionId, payload⟩ 3

/-- Post a request and wait for the answer to it. -/
def exchange (host : HvHost) (request : List UInt8) (expected capacity spinLimit : Nat) : VmbusProgram (List UInt8) := do
  postMessage host request
  waitForType expected capacity spinLimit

/-! ### Connecting -/

/-- Change the bus. -/
def onBus (f : Vmbus → Vmbus) : VmbusProgram Unit := modify fun s => { s with bus := f s.bus }

def initiateContact (version : Nat) : List UInt8 :=
  wire32 vmbusMessageInitiateContact ++ wire32 0 ++ wire32 version ++ wire32 0 ++ wire32 vmbusMessageSint ++ wire32 0 ++
    List.replicate 16 0

/-- The version exchange of `vmbus_initialize`. -/
def negotiate (host : HvHost) (spinLimit : Nat) : List Nat → VmbusProgram Unit
  | [] => do
    onBus fun bus => { bus with state := .failed }
    fail .unsupportedVersion
  | version :: rest => do
    onBus fun bus => { bus with messageConnectionId := vmbusConnectionId version }
    let status ← attempt (exchange host (initiateContact version) vmbusMessageVersionResponse versionResponseSize spinLimit)
    match status with
    | .ok response =>
      if 10 ≤ response.length ∧ wireField response 8 1 ≠ 0 then
        onBus fun bus => { bus with
          negotiatedVersion := version
          messageConnectionId :=
            if vmbusVersion 5 0 ≤ version ∧ versionResponseSize ≤ response.length ∧ wireField response 12 4 ≠ 0 then
              wireField response 12 4 else bus.messageConnectionId
          state := .connected
          lastStage := "connected" }
      else negotiate host spinLimit rest
    | .error _ => negotiate host spinLimit rest

/-- `vmbus_initialize` with resources that exist; the two arguments before the last are the outcomes of enabling the
    hypercall page and the interrupt controller. -/
def vmbusInitialize (host : HvHost) (enableHypercall enableSynic : Except IosError Unit) (spinLimit : Nat) : VmbusProgram Unit := do
  failIf (spinLimit = 0) .invalidArgument
  modify fun s => { s with
    bus := ⟨0, vmbusConnectionId 0, 1, 1, .connecting, "hypercall"⟩
    slot := none }
  let status ← attempt (ofExcept enableHypercall)
  match status with
  | .error status => do
    onBus fun bus => { bus with state := .failed }
    fail status
  | .ok () => do
    onBus fun bus => { bus with lastStage := "synic" }
    let status ← attempt (ofExcept enableSynic)
    match status with
    | .error status => do
      onBus fun bus => { bus with state := .failed }
      fail status
    | .ok () => do
      onBus fun bus => { bus with lastStage := "version" }
      negotiate host spinLimit vmbusVersions

/-! ### Opening a channel -/

/-- `struct vmbus_gpadl_header`, as far as it is sent. -/
def gpadlHeader (childRelid gpadlId ringPhysical totalPages : Nat) : List UInt8 :=
  wire32 vmbusMessageGpadlHeader ++ wire32 0 ++ wire32 childRelid ++ wire32 gpadlId ++
    (Bytes.ofNat 2 (8 + totalPages * 8)).toList ++ (Bytes.ofNat 2 1).toList ++ wire32 (totalPages * hvPageSize) ++ wire32 0 ++
    (List.range totalPages).flatMap fun index => (Bytes.ofNat 8 (ringPhysical / hvPageSize + index)).toList

def openChannelMessage (childRelid openId gpadlId outboundPages : Nat) : List UInt8 :=
  wire32 vmbusMessageOpenChannel ++ wire32 0 ++ wire32 childRelid ++ wire32 openId ++ wire32 gpadlId ++ wire32 0 ++
    wire32 outboundPages ++ List.replicate 120 0

/-- `IOS_ARRAY_COUNT(gpadl.range.pfn)`. -/
def maxRingPages : Nat := hvMessagePayloadSize / 8 - 4

/-- The requests of `vmbus_open_channel` for the numbers that it took from the bus. The rings are initialized over what their
    memory holds by then. -/
def openWith (host : HvHost) (offer : VmbusOffer) (ringMemory ringPhysical totalPages outboundPages spinLimit : Nat)
    (outboundHeader inboundHeader : HvRingHeader) (outboundData inboundData : Nat → UInt8) (gpadlId openId : Nat) :
    VmbusProgram VmbusChannel := do
  let created ← exchange host (gpadlHeader offer.childRelid gpadlId ringPhysical totalPages) vmbusMessageGpadlCreated
    gpadlCreatedSize spinLimit
  failIf (created.length < gpadlCreatedSize ∨ wireField created 8 4 ≠ offer.childRelid ∨ wireField created 12 4 ≠ gpadlId ∨
    wireField created 16 4 ≠ 0) .protocol
  let result ← exchange host (openChannelMessage offer.childRelid openId gpadlId outboundPages) vmbusMessageOpenChannelResult
    openResultSize spinLimit
  failIf (result.length < openResultSize ∨ wireField result 8 4 ≠ offer.childRelid ∨ wireField result 12 4 ≠ openId ∨
    wireField result 16 4 ≠ 0) .protocol
  let outbound ← ofExcept (HvRing.hypervRingInitialize ringMemory outboundHeader outboundData (outboundPages * hvPageSize))
  let inbound ← ofExcept (HvRing.hypervRingInitialize (ringMemory + outboundPages * hvPageSize) inboundHeader inboundData
    ((totalPages - outboundPages) * hvPageSize))
  pure { offer, outbound, inbound, openId, gpadlId }

def vmbusOpenChannel (host : HvHost) (offer : VmbusOffer) (ringMemory ringPhysical totalPages outboundPages spinLimit : Nat)
    (outboundHeader inboundHeader : HvRingHeader) (outboundData inboundData : Nat → UInt8) : VmbusProgram VmbusChannel := do
  failIf (ringMemory = 0 ∨ ringPhysical % hvPageSize ≠ 0 ∨ totalPages < 4 ∨ outboundPages < 2 ∨ totalPages - 2 < outboundPages ∨
    maxRingPages < totalPages ∨ spinLimit = 0) .invalidArgument
  let s ← get
  onBus fun bus => { bus with nextGpadlId := (bus.nextGpadlId + 1) % 2 ^ 32, nextOpenId := (bus.nextOpenId + 1) % 2 ^ 32 }
  openWith host offer ringMemory ringPhysical totalPages outboundPages spinLimit outboundHeader inboundHeader outboundData inboundData
    s.bus.nextGpadlId s.bus.nextOpenId

end VmbusProgram
end InferenceOS
