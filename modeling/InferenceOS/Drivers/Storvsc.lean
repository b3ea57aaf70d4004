import InferenceOS.Block.Device
import InferenceOS.Drivers.Vmbus

/-! The Hyper-V storage driver, `drivers/hyperv/storvsc.c`, with the channel functions of `drivers/hyperv/vmbus.c` below it.
    The host takes a turn before every access to the channel: it may change the memory that it shares with the driver and
    complete commands, in any order. -/

namespace InferenceOS
open Program

/-- The fields of `struct ios_storvsc` besides its channel and its buffer. -/
structure Storvsc where
  bouncePhysical : Nat
  bounceSize : Nat
  sectorCount : Nat
  nextTransactionId : UInt64
  spinLimit : Nat
  protocolVersion : Nat
  lun : UInt8
  ready : Bool
  lastStage : String

/-- A command that was published, with the commands that the host still had at that time. -/
structure PublishedCommand where
  transaction : UInt64
  usesBounce : Bool
  outstanding : List UInt64
  deriving DecidableEq

/-- The driver, its channel, the bounce buffer and the buffer of its caller. `outstanding` are the commands that the host has
    not completed, `published` all commands so far and `clock` the turns of the host. -/
structure StorvscMachine where
  driver : Storvsc
  channelOpen : Bool
  outbound : HvRing
  inbound : HvRing
  bounce : Nat → UInt8
  buffer : Nat → UInt8
  clock : Nat
  outstanding : List UInt64
  published : List PublishedCommand

/-- A turn of the host: what becomes of the memory it shares, the commands that it completes, and whether a signal that the
    driver sends after it goes through. -/
structure StorvscHostTurn where
  outbound : HvRing → HvRing
  inbound : HvRing → HvRing
  bounce : (Nat → UInt8) → Nat → UInt8
  completes : UInt64 → Bool
  signalled : Bool

/-- The turns of the host, one after the other. -/
abbrev StorvscHost : Type := Nat → StorvscHostTurn

def vstorPacketSize : Nat := 64

abbrev vstorSrbSize : Nat := 52

/-- `IOS_HV_PACKET_TYPE_COMPLETION` and `IOS_HV_PACKET_TYPE_DATA_INBAND`. -/
def hvPacketTypeCompletion : UInt16 := 11
def hvPacketTypeDataInband : UInt16 := 6

def hvPacketFlagCompletionRequested : UInt16 := 1

/-- `IOS_VSTOR_OPERATION_COMPLETE_IO` and `IOS_VSTOR_OPERATION_EXECUTE_SRB`. -/
def vstorOperationCompleteIo : Nat := 1
def vstorOperationExecuteSrb : Nat := 3

/-- `IOS_STORVSC_DATA_WRITE`, `IOS_STORVSC_DATA_READ` and `IOS_STORVSC_DATA_UNKNOWN`. -/
inductive StorvscDirection where
  | write | read | unknown
  deriving DecidableEq

/-- The number of a direction. -/
def StorvscDirection.number : StorvscDirection → Nat
  | .write => 0
  | .read => 1
  | .unknown => 2

/-- The flag of a direction, `SRB_FLAGS_DATA_OUT` or `SRB_FLAGS_DATA_IN`. -/
def StorvscDirection.srbFlag : StorvscDirection → Nat
  | .write => 0x80
  | .read => 0x40
  | .unknown => 0

/-- A command descriptor block. -/
abbrev ScsiCdb : Type := Bytes 16

/-- The programs of the driver. -/
abbrev StorvscProgram (α : Type) : Type := Program IosError StorvscMachine α

namespace StorvscProgram

/-! ### The channel -/

/-- The packet completes a command. -/
def IsCompletion (packet : HvPacket) : Prop :=
  packet.type = hvPacketTypeCompletion ∧ packet.payload.length = vstorPacketSize ∧
    wireField packet.payload 0 4 = vstorOperationCompleteIo

instance {packet : HvPacket} : Decidable (IsCompletion packet) := inferInstanceAs (Decidable (_ ∧ _))

/-- The command whose completion the driver would find next. -/
def completionFound (inbound : HvRing) : Option UInt64 :=
  match (HvRing.hypervRingRead vstorPacketSize inbound).1 with
  | .ok packet => if IsCompletion packet then some packet.transactionId else none
  | .error _ => none

/-- The turn of the host. A completion that the driver can find completes its command. -/
def hostTurn (host : StorvscHost) (s : StorvscMachine) : StorvscMachine :=
  let turn := host s.clock
  { s with
    outbound := turn.outbound s.outbound
    inbound := turn.inbound s.inbound
    bounce := turn.bounce s.bounce
    clock := s.clock + 1
    outstanding := s.outstanding.filter fun id =>
      !turn.completes id && completionFound (turn.inbound s.inbound) ≠ some id }

/-- Run a program of the outbound ring. -/
def onOutbound {α : Type} (m : Program IosError HvRing α) : StorvscProgram α :=
  zoom StorvscMachine.outbound (fun s outbound => { s with outbound }) m

/-- The driver has put a command into the ring. -/
def publish (transaction : UInt64) (usesBounce : Bool) : StorvscProgram Unit := modify fun s =>
  { s with
    published := s.published ++ [⟨transaction, usesBounce, s.outstanding⟩]
    outstanding := s.outstanding ++ [transaction] }

/-- `vmbus_channel_write` and `vmbus_channel_write_gpa_direct` of a command; the ring function is an argument. -/
def vmbusChannelWrite (host : StorvscHost) (transaction : UInt64) (usesBounce : Bool) (write : Program IosError HvRing Bool) :
    StorvscProgram Unit := do
  let s ← get
  failIf (s.channelOpen = false) .invalidState
  modify (hostTurn host)
  let signalHost ← onOutbound write
  publish transaction usesBounce
  failIf (signalHost = true ∧ (host s.clock).signalled = false) .io

/-- `vmbus_channel_read`; an error comes without the size. -/
def vmbusChannelRead (host : StorvscHost) : StorvscProgram HvPacket := do
  let s ← get
  failIf (s.channelOpen = false) .invalidState
  modify (hostTurn host)
  let s ← get
  let r := HvRing.hypervRingRead vstorPacketSize s.inbound
  modify fun s => { s with inbound := r.2 }
  match r.1 with
  | .ok packet => pure packet
  | .error e => fail e.1

/-! ### Commands -/

/-- Change the driver. -/
def onDriver (f : Storvsc → Storvsc) : StorvscProgram Unit := modify fun s => { s with driver := f s.driver }

/-- The loop of `wait_completion`; the result is the response. -/
def waitFrom (host : StorvscHost) (expectedTransaction : UInt64) : Nat → StorvscProgram (List UInt8)
  | 0 => do
    onDriver fun driver => { driver with ready := false, lastStage := "timeout" }
    fail .timeout
  | spins + 1 => do
    let status ← attempt (vmbusChannelRead host)
    match status with
    | .error .wouldBlock => waitFrom host expectedTransaction spins
    | .error e => fail e
    | .ok packet => do
      failIf (packet.type ≠ hvPacketTypeCompletion ∨ packet.transactionId ≠ expectedTransaction ∨
        packet.payload.length ≠ vstorPacketSize ∨ wireField packet.payload 0 4 ≠ vstorOperationCompleteIo) .protocol
      failIf (wireField packet.payload 8 4 ≠ 0) .io
      pure packet.payload

def waitCompletion (host : StorvscHost) (expectedTransaction : UInt64) : StorvscProgram (List UInt8) := do
  let s ← get
  waitFrom host expectedTransaction s.driver.spinLimit

/-- `struct ios_vstor_packet` of a command. -/
def scsiPacket (lun : UInt8) (cdb : ScsiCdb) (cdbLength : Nat) (direction : StorvscDirection) (transferSize : Nat) : List UInt8 :=
  let srb : Bytes vstorSrbSize := Bytes.zero.put 0 (Bytes.ofNat 2 vstorSrbSize) |>.put 7 (Bytes.ofNat 1 lun.toNat)
    |>.put 8 (Bytes.ofNat 1 cdbLength) |>.put 9 (Bytes.ofNat 1 20) |>.put 10 (Bytes.ofNat 1 direction.number)
    |>.put 12 (Bytes.ofNat 4 transferSize) |>.put 16 (cdb.slice 0 cdbLength) |>.put 40 (Bytes.ofNat 4 (0x100 + direction.srbFlag))
  wire32 vstorOperationExecuteSrb ++ wire32 1 ++ wire32 0 ++ srb.toList

/-- The write of `execute_scsi`: a command that moves data refers to the bounce buffer. -/
def submitScsi (host : StorvscHost) (transaction : UInt64) (packet : List UInt8) (bouncePhysical transferSize : Nat) :
    StorvscProgram Unit :=
  if transferSize = 0 then
    vmbusChannelWrite host transaction false
      (HvRing.hypervRingWrite hvPacketTypeDataInband hvPacketFlagCompletionRequested transaction packet)
  else
    vmbusChannelWrite host transaction true
      (HvRing.hypervRingWriteGpaDirect hvPacketFlagCompletionRequested transaction packet bouncePhysical transferSize)

def executeScsi (host : StorvscHost) (cdb : ScsiCdb) (cdbLength : Nat) (direction : StorvscDirection) (transferSize : Nat) :
    StorvscProgram Unit := do
  let s ← get
  let transaction := s.driver.nextTransactionId
  onDriver fun driver => { driver with nextTransactionId := driver.nextTransactionId + 1 }
  failIf (cdbLength = 0 ∨ 16 < cdbLength ∨ s.driver.bounceSize < transferSize ∨ 2 ^ 32 - 1 < transferSize) .invalidArgument
  submitScsi host transaction (scsiPacket s.driver.lun cdb cdbLength direction transferSize) s.driver.bouncePhysical transferSize
  let response ← waitCompletion host transaction
  failIf (wireField response 14 1 ≠ 1 ∨ wireField response 15 1 ≠ 0 ∨ wireField response 24 4 ≠ transferSize) .io

/-! ### Transfers -/

/-- A number of `k` bytes, the highest first: `write_be16` and `write_be32`. -/
def bigEndian (k value : Nat) : Bytes k := fun i => Bytes.digit value (k - 1 - i.1)

/-- The number in four bytes, the highest first: `read_be32`. -/
def readBe32 (memory : Nat → UInt8) (offset : Nat) : Nat :=
  (memory offset).toNat * 2 ^ 24 + (memory (offset + 1)).toNat * 2 ^ 16 + (memory (offset + 2)).toNat * 2 ^ 8 +
    (memory (offset + 3)).toNat

def buildRw10Cdb (write : Bool) (firstSector sectorCount : Nat) : Except IosError ScsiCdb :=
  if 2 ^ 32 - 1 < firstSector ∨ sectorCount = 0 then .error .invalidArgument
  else .ok (Bytes.zero.put 0 (Bytes.ofNat 1 (if write then 0x2a else 0x28)) |>.put 2 (bigEndian 4 firstSector)
    |>.put 7 (bigEndian 2 sectorCount))

/-- `memcpy` between two memories. -/
def copyBytes (target : Nat → UInt8) (targetOffset : Nat) (source : Nat → UInt8) (sourceOffset count : Nat) : Nat → UInt8 := fun i =>
  if targetOffset ≤ i ∧ i < targetOffset + count then source (sourceOffset + (i - targetOffset)) else target i

/-- The loop of `storage_transfer`; each round transfers at least one sector or fails. `offset` is where `bytes` points. -/
def transferFrom (host : StorvscHost) (write : Bool) : Nat → Nat → Nat → Nat → StorvscProgram Unit
  | 0, _, _, _ => pure ()
  | rounds + 1, firstSector, remaining, offset =>
    if remaining = 0 then pure ()
    else do
      let s ← get
      let batch := min (min (s.driver.bounceSize / 512) (2 ^ 16 - 1)) remaining
      failIf (2 ^ 32 - 1 < firstSector ∨ 2 ^ 32 - 1 - firstSector + 1 < batch) .outOfRange
      let cdb ← ofExcept (buildRw10Cdb write firstSector batch)
      modify fun s => if write then { s with bounce := copyBytes s.bounce 0 s.buffer offset (batch * 512) } else s
      executeScsi host cdb 10 (if write then .write else .read) (batch * 512)
      modify fun s => if write then s else { s with buffer := copyBytes s.buffer offset s.bounce 0 (batch * 512) }
      transferFrom host write rounds (firstSector + batch) (remaining - batch) (offset + batch * 512)

def storageTransfer (host : StorvscHost) (write : Bool) (firstSector sectorCount : Nat) : StorvscProgram Unit := do
  let s ← get
  failIf (s.driver.ready = false) .invalidState
  transferFrom host write sectorCount firstSector sectorCount 0

def storvscFlush (host : StorvscHost) : StorvscProgram Unit := do
  let s ← get
  failIf (s.driver.ready = false) .invalidState
  executeScsi host (Bytes.zero.put 0 (Bytes.ofNat 1 0x35)) 10 .unknown 0

/-! ### Units -/

/-- `storvsc_parse_capacity10`: the sectors and the bytes of each. -/
def parseCapacity10 (response : Nat → UInt8) : Except IosError (Nat × Nat) :=
  if readBe32 response 0 = 2 ^ 32 - 1 then .error .outOfRange
  else if readBe32 response 4 = 0 then .error .protocol
  else .ok (readBe32 response 0 + 1, readBe32 response 4)

/-- The part of `probe_disk` that asks for the capacity; the result is the number of sectors and the bytes of each. -/
def probeCapacity (host : StorvscHost) : StorvscProgram (Nat × Nat) := do
  executeScsi host (Bytes.zero.put 0 (Bytes.ofNat 1 0x25)) 10 .read 8
  let s ← get
  match parseCapacity10 s.bounce with
  | .ok capacity => pure capacity
  | .error .outOfRange => do
    executeScsi host (Bytes.zero.put 0 (Bytes.ofNat 1 0x9e) |>.put 1 (Bytes.ofNat 1 0x10) |>.put 13 (Bytes.ofNat 1 32)) 16 .read 32
    let s ← get
    let sectors := readBe32 s.bounce 0 * 2 ^ 32 + readBe32 s.bounce 4
    failIf (sectors = 2 ^ 64 - 1 ∨ readBe32 s.bounce 8 = 0) .protocol
    pure (sectors + 1, readBe32 s.bounce 8)
  | .error status => fail status

def probeDisk (host : StorvscHost) : StorvscProgram Unit := do
  modify fun s => { s with bounce := fun i => if i < s.driver.bounceSize then 0 else s.bounce i }
  executeScsi host (Bytes.zero.put 0 (Bytes.ofNat 1 0x12) |>.put 4 (Bytes.ofNat 1 36)) 6 .read 36
  let s ← get
  failIf (s.bounce 0 ≠ 0) .notSupported
  let capacity ← probeCapacity host
  failIf (capacity.2 ≠ 512) .notSupported
  onDriver fun driver => { driver with sectorCount := capacity.1 }

def storvscSelectLun (host : StorvscHost) (lun : UInt8) : StorvscProgram Unit := do
  let s ← get
  failIf (s.driver.protocolVersion = 0) .invalidState
  onDriver fun driver => { driver with ready := false, lun, lastStage := "inquiry" }
  probeDisk host
  onDriver fun driver => { driver with ready := true, lastStage := "ready" }

end StorvscProgram

/-! ### The published disk -/

def storvscMaxTransferBytes : Nat := 256 * 1024

/-- The sizes of the bounce buffer that `storvsc_initialize` accepts. -/
def BounceAccepted (bounceSize : Nat) : Prop := 512 ≤ bounceSize ∧ bounceSize ≤ storvscMaxTransferBytes

/-- What a driver publishes of its disk. -/
structure PublishedDisk where
  sectorCount : Nat
  logicalSectorSize : Nat
  status : DeviceStatus
  deriving DecidableEq

def blockDeviceInitialize (logicalSectorSize sectorCount : Nat) (status : DeviceStatus) : Except IosError PublishedDisk :=
  if logicalSectorSize = 0 ∨ sectorCount = 0 ∨ status = .offline then .error .invalidArgument
  else .ok ⟨sectorCount, logicalSectorSize, status⟩

def storvscPublish (driver : Storvsc) : Except IosError PublishedDisk :=
  if driver.ready = false then .error .invalidState else blockDeviceInitialize 512 driver.sectorCount .ready

/-- A call of the driver: the block operations that `storvsc_publish` installs, and the choice of a unit. A transfer finds its
    data in the buffer of the caller, or leaves them there. -/
inductive StorvscCall where
  | read (firstSector sectorCount : Nat)
  | write (firstSector sectorCount : Nat)
  | flush
  | selectLun (lun : UInt8)

/-- The program of a call. -/
def StorvscCall.run (host : StorvscHost) : StorvscCall → StorvscProgram Unit
  | .read firstSector sectorCount => StorvscProgram.storageTransfer host false firstSector sectorCount
  | .write firstSector sectorCount => StorvscProgram.storageTransfer host true firstSector sectorCount
  | .flush => StorvscProgram.storvscFlush host
  | .selectLun lun => StorvscProgram.storvscSelectLun host lun

end InferenceOS
