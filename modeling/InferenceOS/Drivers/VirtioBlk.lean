import InferenceOS.Block.Device

/-! The virtio block driver, `drivers/virtio_blk/virtio_blk.c` on `drivers/virtio_blk/transport_pci.c`. The device may write
    its registers and its part of the queue at any time: every look at them takes what it finds from outside the state.
    `history` records what happens to the requests; no function of the source reads it. -/

namespace InferenceOS
open Program Function

/-- `enum ios_virtio_blk_request_state`. -/
inductive VirtioRequestState where
  | free | available | used
  deriving DecidableEq, Repr

/-- What happens to the request of a slot. -/
inductive VirtioEvent where
  | published (slot : Nat)
  | completed (slot : Nat)
  | freed (slot : Nat)
  deriving DecidableEq, Repr

/-- `IOS_VIRTIO_BLK_SECTOR_SIZE`. -/
def virtioSectorSize : Nat := 512

/-- `IOS_VIRTIO_BLK_REQUEST_READ`. -/
def virtioRequestRead : UInt32 := 0

/-- `IOS_VIRTIO_BLK_REQUEST_WRITE`. -/
def virtioRequestWrite : UInt32 := 1

/-- `IOS_VIRTIO_BLK_REQUEST_FLUSH`. -/
def virtioRequestFlush : UInt32 := 4

/-- `IOS_VIRTIO_BLK_STATUS_OK`. -/
def virtioStatusOk : UInt8 := 0

/-- `IOS_VIRTIO_BLK_STATUS_UNSUPPORTED`. -/
def virtioStatusUnsupported : UInt8 := 2

/-- `VIRTIO_STATUS_DEVICE_NEEDS_RESET | VIRTIO_STATUS_FAILED`. -/
def virtioStatusBroken : UInt8 := 64 ||| 128

/-- `IOS_VIRTIO_BLK_PCI_REQUEST_LIMIT`. -/
def virtioRequestLimit : Nat := 64

/-- `IOS_VIRTIO_BLK_PCI_TIMEOUT_SPINS`. -/
def virtioTimeoutSpins : Nat := 100000

def descriptorsPerRequest : Nat := 3

/-- `VIRTQ_DESC_F_NEXT`. -/
def virtqDescNext : UInt16 := 1

/-- `VIRTQ_DESC_F_WRITE`. -/
def virtqDescWrite : UInt16 := 2

/-- `struct ios_virtio_blk_request`; a buffer that is `none` is `NULL`. -/
structure VirtioRequest where
  state : VirtioRequestState
  type : UInt32
  sector : Nat
  buffer : Option Nat
  byteCount : Nat
  generation : Nat
  result : Except IosError Unit

/-- A request of `memset`. -/
def VirtioRequest.zero : VirtioRequest := ⟨.free, 0, 0, none, 0, 0, .ok ()⟩

structure VirtqDescriptor where
  address : Nat
  length : Nat
  flags : UInt16
  next : Nat

/-- `struct virtio_blk_request_header`. -/
structure VirtioRequestHeader where
  type : UInt32
  sector : Nat

/-- `struct virtq_available`, without the fields for features that the driver does not use. -/
structure VirtqAvailable where
  index : UInt16
  ring : Nat → Nat

/-- What the driver finds in the memory that the device writes: the used ring and the status bytes. -/
structure VirtqUsed where
  index : UInt16
  identifier : Nat → UInt32
  statuses : Nat → UInt8

/-- What one service call finds: the status register, and the memory at each round of its loop. -/
structure DeviceView where
  status : UInt8
  memory : Nat → VirtqUsed

/-- The part of `struct ios_virtio_blk_pci_platform` that requests use, and where the headers and status bytes are. -/
structure VirtioPlatform where
  dmaAddress : Option Nat → Nat → Except IosError Nat
  headerAddress : Nat → Nat
  statusAddress : Nat → Nat

/-- `struct virtio_blk_pci_state` with its `struct ios_virtio_blk_device`. -/
structure VirtioBlk where
  requests : Nat → VirtioRequest
  sectorCount : Nat
  queueCapacity : Nat
  outstanding : Nat
  ready : Bool
  publishedDevice : Option DeviceStatus
  descriptorCount : Nat
  lastUsedIndex : UInt16
  descriptors : Nat → VirtqDescriptor
  headers : Nat → VirtioRequestHeader
  available : VirtqAvailable
  history : List VirtioEvent

namespace VirtioBlk

/-- The state with another request in a slot. -/
def setRequest (s : VirtioBlk) (i : Nat) (request : VirtioRequest) : VirtioBlk :=
  { s with requests := update s.requests i request }

/-- The state with one more event. -/
def record (s : VirtioBlk) (e : VirtioEvent) : VirtioBlk := { s with history := s.history ++ [e] }

def setDescriptor (platform : VirtioPlatform) (index : Nat) (buffer : Option Nat) (byteCount : Nat) (flags : UInt16) (next : Nat) :
    Program IosError VirtioBlk Unit := do
  let address ← ofExcept (platform.dmaAddress buffer byteCount)
  modify fun s =>
    { s with descriptors := update s.descriptors index { address, length := byteCount % 2 ^ 32, flags, next } }

def pciPublish (platform : VirtioPlatform) (requestId : Nat) (request : VirtioRequest) : Program IosError VirtioBlk Unit := do
  let state ← get
  let headerDescriptor := requestId * 3
  let dataDescriptor := headerDescriptor + 1
  let statusDescriptor := headerDescriptor + 2
  failIf (virtioRequestLimit ≤ requestId ∨ state.descriptorCount ≤ statusDescriptor) .invalidArgument
  modify fun s => { s with headers := update s.headers requestId { type := request.type, sector := request.sector } }
  setDescriptor platform headerDescriptor (some (platform.headerAddress requestId)) 16 virtqDescNext
    (if request.type = virtioRequestFlush then statusDescriptor else dataDescriptor)
  if request.type ≠ virtioRequestFlush then
    setDescriptor platform dataDescriptor request.buffer request.byteCount
      (virtqDescNext ||| (if request.type = virtioRequestRead then virtqDescWrite else 0)) statusDescriptor
  else pure ()
  setDescriptor platform statusDescriptor (some (platform.statusAddress requestId)) 1 virtqDescWrite 0
  modify fun s =>
    { s with available := {
        index := s.available.index + 1
        ring := update s.available.ring (s.available.index.toNat % s.descriptorCount) headerDescriptor } }

/-- The loop of `virtio_blk_submit` at a free slot. -/
def submitAt (platform : VirtioPlatform) (i : Nat) (request : VirtioRequest) : Program IosError VirtioBlk Nat := do
  modify fun s => s.setRequest i request
  let status ← attempt (pciPublish platform i request)
  match status with
  | .error e => do
    modify fun s => s.setRequest i .zero
    fail e
  | .ok _ => do
    modify fun s => { s with outstanding := (s.outstanding + 1) % 2 ^ 16 }.record (.published i)
    pure i

/-- `virtio_blk_submit`; the result is `*request_id`. -/
def virtioBlkSubmit (platform : VirtioPlatform) (type : UInt32) (sector : Nat) (buffer : Option Nat) (byteCount generation : Nat) :
    Program IosError VirtioBlk Nat := do
  let device ← get
  failIf (device.ready = false) .invalidState
  failIf (type ≠ virtioRequestRead ∧ type ≠ virtioRequestWrite ∧ type ≠ virtioRequestFlush) .notSupported
  if type = virtioRequestFlush then failIf (buffer ≠ none ∨ byteCount ≠ 0) .invalidArgument
  else failIf (buffer = none ∨ byteCount ≠ virtioSectorSize ∨ device.sectorCount ≤ sector) .outOfRange
  match (List.range device.queueCapacity).find? fun i => (device.requests i).state = .free with
  | none => fail .wouldBlock
  | some i => submitAt platform i ⟨.available, type, sector, buffer, byteCount, generation, .error .wouldBlock⟩

def virtioBlkComplete (requestId : Nat) (deviceStatus : UInt8) : Program IosError VirtioBlk Unit := do
  let device ← get
  failIf (device.queueCapacity ≤ requestId) .invalidArgument
  let request := device.requests requestId
  failIf (request.state ≠ .available) .invalidState
  let result : Except IosError Unit :=
    if deviceStatus = virtioStatusOk then .ok ()
    else if deviceStatus = virtioStatusUnsupported then .error .notSupported
    else .error .io
  modify fun s => (s.setRequest requestId { request with result, state := .used }).record (.completed requestId)

/-- The checks of `pci_service` on the identifier of a used element: the slot that it names. -/
def usedSlot (s : VirtioBlk) (identifier : UInt32) : Except IosError Nat :=
  if s.descriptorCount ≤ identifier.toNat ∨ identifier.toNat % descriptorsPerRequest ≠ 0 then .error .protocol
  else
    let requestId := identifier.toNat / descriptorsPerRequest % 2 ^ 16
    if s.queueCapacity ≤ requestId then .error .protocol
    else .ok requestId

/-- The loop of `pci_service`, with the number of rounds that it may still take. -/
def serviceLoop : Nat → (Nat → VirtqUsed) → Program IosError VirtioBlk Unit
  | 0, _ => fail .invalidState
  | rounds + 1, memory => do
    let state ← get
    if state.lastUsedIndex ≠ (memory 0).index then do
      let identifier := (memory 0).identifier (state.lastUsedIndex.toNat % state.descriptorCount)
      let requestId ← ofExcept (state.usedSlot identifier)
      virtioBlkComplete requestId ((memory 0).statuses requestId)
      modify fun s => { s with lastUsedIndex := s.lastUsedIndex + 1 }
      serviceLoop rounds fun k => memory (k + 1)
    else pure ()

/-- `pci_service`. Every round of the loop but the last completes a request, so that there are enough rounds. -/
def pciService (view : DeviceView) : Program IosError VirtioBlk Unit := do
  failIf (view.status &&& virtioStatusBroken ≠ 0) .io
  let device ← get
  serviceLoop (device.queueCapacity + 1) view.memory

/-- `virtio_blk_poll`, with what its service call finds. The result is `*generation` and the status that is returned with it;
    an error leaves `*generation` alone. -/
def virtioBlkPoll (requestId : Nat) (view : DeviceView) : Program IosError VirtioBlk (Nat × Except IosError Unit) := do
  let device ← get
  failIf (device.queueCapacity ≤ requestId) .invalidArgument
  if (device.requests requestId).state = .available then do
    pciService view
    let device ← get
    failIf ((device.requests requestId).state = .available) .wouldBlock
  else pure ()
  let device ← get
  let request := device.requests requestId
  failIf (request.state ≠ .used) .invalidState
  modify fun s => { s.setRequest requestId .zero with outstanding := (s.outstanding + (2 ^ 16 - 1)) % 2 ^ 16 }.record (.freed requestId)
  pure (request.generation, request.result)

/-- `virtio_blk_fail` for a status that is an error. -/
def virtioBlkFail (status : IosError) (s : VirtioBlk) : VirtioBlk :=
  { s with
    requests := fun i =>
      if i < s.queueCapacity ∧ (s.requests i).state = .available then { s.requests i with result := .error status, state := .used }
      else s.requests i
    ready := false
    history := s.history ++ ((List.range s.queueCapacity).filter fun i => (s.requests i).state = .available).map .completed }

/-- `mark_transport_failed`, apart from the status register of the device. -/
def markTransportFailed (status : IosError) (s : VirtioBlk) : VirtioBlk :=
  let s := s.virtioBlkFail status
  { s with publishedDevice := s.publishedDevice.map fun _ => .failed }

/-- The status that `virtio_blk_poll` returns. -/
def pollStatus : Except IosError (Nat × Except IosError Unit) → Except IosError Unit
  | .error e => .error e
  | .ok polled => polled.2

/-- The loop of `wait_for_request` and what follows it, with the number of rounds left. -/
def waitLoop (requestId : Nat) : Nat → (Nat → DeviceView) → Program IosError VirtioBlk Unit
  | 0, views => do
    modify (markTransportFailed .timeout)
    let _ ← attempt (virtioBlkPoll requestId (views 0))
    fail .timeout
  | spins + 1, views => do
    let polled ← attempt (virtioBlkPoll requestId (views 0))
    match pollStatus polled with
    | .error .wouldBlock => waitLoop requestId spins fun k => views (k + 1)
    | .error .protocol => do
      modify (markTransportFailed .protocol)
      fail .protocol
    | status => ofExcept status

def waitForRequest (requestId : Nat) (views : Nat → DeviceView) : Program IosError VirtioBlk Unit :=
  waitLoop requestId virtioTimeoutSpins views

def submitAndWait (platform : VirtioPlatform) (type : UInt32) (sector : Nat) (buffer : Option Nat) (byteCount : Nat)
    (views : Nat → DeviceView) : Program IosError VirtioBlk Unit := do
  let requestId ← virtioBlkSubmit platform type sector buffer byteCount 0
  waitForRequest requestId views

end VirtioBlk
end InferenceOS
