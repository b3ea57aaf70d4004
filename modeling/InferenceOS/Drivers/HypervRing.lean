import InferenceOS.Lib.Program
import InferenceOS.Lib.Circular
import InferenceOS.Status

/-! The ring buffer of a VMBus channel, `drivers/hyperv/ring.c`. The memory of a ring is a header page and the data behind it;
    a caller's buffer is the list of its bytes. Indices and sizes are of type `ios_u32`, and where the bounds that the code
    checks do not keep a sum in range its overflow is written out. -/

namespace InferenceOS
open Program

def hvPageSize : Nat := 4096

def hvPacketAlignment : Nat := 8

def hvPacketTrailerSize : Nat := 8

def hvMessagePayloadSize : Nat := 240

def hvPacketTypeDataUsingGpaDirect : UInt16 := 9

/-- `sizeof(struct ios_hv_packet_descriptor)`. -/
def hvDescriptorSize : Nat := 16

structure HvPacketDescriptor where
  type : UInt16
  dataOffset8 : UInt16
  length8 : UInt16
  flags : UInt16
  transactionId : UInt64
  deriving DecidableEq

namespace HvPacketDescriptor

/-- The descriptor in memory. -/
def bytes (d : HvPacketDescriptor) : Bytes hvDescriptorSize :=
  Bytes.zero.put 0 (Bytes.ofNat 2 d.type.toNat) |>.put 2 (Bytes.ofNat 2 d.dataOffset8.toNat) |>.put 4 (Bytes.ofNat 2 d.length8.toNat)
    |>.put 6 (Bytes.ofNat 2 d.flags.toNat) |>.put 8 (Bytes.ofNat 8 d.transactionId.toNat)

/-- The descriptor in some bytes of memory. -/
def ofBytes (b : Bytes hvDescriptorSize) : HvPacketDescriptor where
  type := UInt16.ofNat (b.toNat 0 2)
  dataOffset8 := UInt16.ofNat (b.toNat 2 2)
  length8 := UInt16.ofNat (b.toNat 4 2)
  flags := UInt16.ofNat (b.toNat 6 2)
  transactionId := UInt64.ofNat (b.toNat 8 8)

end HvPacketDescriptor

/-- The fields of `struct ios_hv_ring_header` that the ring buffer uses. -/
structure HvRingHeader where
  writeIndex : Nat
  readIndex : Nat
  interruptMask : Nat
  pendingSendSize : Nat
  deriving DecidableEq

/-- `struct ios_hv_ring`, with the memory of its header and of its data. -/
structure HvRing where
  header : HvRingHeader
  data : Nat → UInt8
  dataSize : Nat

/-- What `hyperv_ring_read` hands out. -/
structure HvPacket where
  type : UInt16
  transactionId : UInt64
  payload : List UInt8
  deriving DecidableEq

/-- A size rounded up to `IOS_HV_PACKET_ALIGNMENT`. -/
def alignPacket (size : Nat) : Nat := (size + (hvPacketAlignment - 1)) / hvPacketAlignment * hvPacketAlignment

def ringUsed (writeIndex readIndex size : Nat) : Nat :=
  if readIndex ≤ writeIndex then writeIndex - readIndex else size - (readIndex - writeIndex)

namespace HvRing

def ringCopyIn (index : Nat) (source : List UInt8) (ring : HvRing) : HvRing :=
  { ring with data := Circular.copyIn ring.dataSize index source ring.data }

def ringCopyOut (ring : HvRing) (index size : Nat) : List UInt8 := Circular.copyOut ring.dataSize index size ring.data

def ringAdvance (ring : HvRing) (index amount : Nat) : Nat := (index + amount) % 2 ^ 32 % ring.dataSize

/-- `hyperv_ring_initialize`, with what the memory holds in the header and behind it. -/
def hypervRingInitialize (address : Nat) (header : HvRingHeader) (data : Nat → UInt8) (byteCount : Nat) : Except IosError HvRing :=
  if address % hvPageSize ≠ 0 ∨ byteCount < hvPageSize + 64 ∨ 2 ^ 32 - 1 < byteCount ∨
      (byteCount - hvPageSize) % hvPacketAlignment ≠ 0 then .error .invalidArgument
  else if byteCount - hvPageSize ≤ header.writeIndex ∨ byteCount - hvPageSize ≤ header.readIndex then .error .corrupt
  else .ok { header, data, dataSize := byteCount - hvPageSize }

/-- The trailer of a packet. -/
def trailer (ring : HvRing) (readIndex : Nat) : List UInt8 := (Bytes.ofNat 8 (ring.header.writeIndex * 2 ^ 32 + readIndex)).toList

/-- `hyperv_ring_write`; the result is `*signal_host`. -/
def hypervRingWrite (packetType flags : UInt16) (transactionId : UInt64) (payload : List UInt8) : Program IosError HvRing Bool := do
  let ring ← get
  failIf (65535 * hvPacketAlignment - hvDescriptorSize < payload.length) .invalidArgument
  let packetSize := hvDescriptorSize + payload.length
  let alignedSize := alignPacket packetSize
  failIf (2 ^ 64 - 1 - hvPacketTrailerSize < alignedSize) .overflow
  let required := alignedSize + hvPacketTrailerSize
  failIf (ring.dataSize ≤ required) .noSpace
  let writeIndex := ring.header.writeIndex
  let readIndex := ring.header.readIndex
  failIf (ring.dataSize ≤ writeIndex ∨ ring.dataSize ≤ readIndex) .corrupt
  let available := ring.dataSize - ringUsed writeIndex readIndex ring.dataSize - 1
  if available < required then do
    modify fun ring => { ring with header := { ring.header with pendingSendSize := required % 2 ^ 32 } }
    fail .wouldBlock
  else do
    let descriptor : HvPacketDescriptor := {
      type := packetType
      dataOffset8 := UInt16.ofNat (hvDescriptorSize / hvPacketAlignment)
      length8 := UInt16.ofNat (alignedSize / hvPacketAlignment)
      flags, transactionId }
    modify (ringCopyIn writeIndex descriptor.bytes.toList)
    let writeIndex := ring.ringAdvance writeIndex hvDescriptorSize
    modify fun ring => if payload.length ≠ 0 then ring.ringCopyIn writeIndex payload else ring
    let writeIndex := if payload.length ≠ 0 then ring.ringAdvance writeIndex payload.length else writeIndex
    let padding := alignedSize - packetSize
    modify fun ring => if packetSize < alignedSize then ring.ringCopyIn writeIndex (List.replicate padding 0) else ring
    let writeIndex := if packetSize < alignedSize then ring.ringAdvance writeIndex padding else writeIndex
    modify (ringCopyIn writeIndex (ring.trailer readIndex))
    let writeIndex := ring.ringAdvance writeIndex hvPacketTrailerSize
    modify fun ring => { ring with header := { ring.header with writeIndex } }
    pure (ring.header.interruptMask = 0)

def maxGpaPages : Nat := 64

/-- The range header of a packet and the numbers of its pages. -/
def gpaRange (dataPhysical dataSize pageCount : Nat) : List UInt8 :=
  [0, 1, dataSize, dataPhysical % hvPageSize].flatMap (fun v => (Bytes.ofNat 4 v).toList) ++
    (List.range pageCount).flatMap fun index => (Bytes.ofNat 8 (dataPhysical / hvPageSize + index)).toList

/-- `hyperv_ring_write_gpa_direct`; the result is `*signal_host`. -/
def hypervRingWriteGpaDirect (flags : UInt16) (transactionId : UInt64) (payload : List UInt8) (dataPhysical dataSize : Nat) :
    Program IosError HvRing Bool := do
  let ring ← get
  failIf (payload.length = 0 ∨ hvMessagePayloadSize < payload.length ∨ dataSize = 0 ∨ 2 ^ 32 - 1 < dataSize ∨
    2 ^ 64 - 1 - dataSize < dataPhysical) .invalidArgument
  let pageCount := (dataPhysical % hvPageSize + dataSize + hvPageSize - 1) / hvPageSize
  failIf (pageCount = 0 ∨ maxGpaPages < pageCount) .outOfRange
  let dataOffset := hvDescriptorSize + 16 + pageCount * 8
  let packetSize := dataOffset + payload.length
  let alignedSize := alignPacket packetSize
  let required := alignedSize + hvPacketTrailerSize
  failIf (ring.dataSize ≤ required) .noSpace
  let writeIndex := ring.header.writeIndex
  let readIndex := ring.header.readIndex
  failIf (ring.dataSize ≤ writeIndex ∨ ring.dataSize ≤ readIndex) .corrupt
  let available := ring.dataSize - ringUsed writeIndex readIndex ring.dataSize - 1
  if available < required then do
    modify fun ring => { ring with header := { ring.header with pendingSendSize := required } }
    fail .wouldBlock
  else do
    let descriptor : HvPacketDescriptor := {
      type := hvPacketTypeDataUsingGpaDirect
      dataOffset8 := UInt16.ofNat (dataOffset / hvPacketAlignment)
      length8 := UInt16.ofNat (alignedSize / hvPacketAlignment)
      flags, transactionId }
    let packet := descriptor.bytes.toList ++ gpaRange dataPhysical dataSize pageCount ++ payload ++
      List.replicate (alignedSize - packetSize) 0
    modify (ringCopyIn writeIndex packet)
    let writeIndex := ring.ringAdvance writeIndex alignedSize
    modify (ringCopyIn writeIndex (ring.trailer readIndex))
    let writeIndex := ring.ringAdvance writeIndex hvPacketTrailerSize
    modify fun ring => { ring with header := { ring.header with writeIndex } }
    pure (ring.header.interruptMask = 0)

/-- `hyperv_ring_read`; an error comes with the size that it leaves in `*payload_size`, if it leaves one. -/
def hypervRingRead (payloadCapacity : Nat) : Program (IosError × Option Nat) HvRing HvPacket := do
  let ring ← get
  let readIndex := ring.header.readIndex
  let writeIndex := ring.header.writeIndex
  failIf (ring.dataSize ≤ writeIndex ∨ ring.dataSize ≤ readIndex) (.corrupt, none)
  let used := ringUsed writeIndex readIndex ring.dataSize
  failIf (used = 0) (.wouldBlock, none)
  failIf (used < hvDescriptorSize + hvPacketTrailerSize) (.corrupt, none)
  let descriptor := HvPacketDescriptor.ofBytes (Bytes.ofList hvDescriptorSize (ring.ringCopyOut readIndex hvDescriptorSize))
  let dataOffset := descriptor.dataOffset8.toNat * hvPacketAlignment
  let packetSize := descriptor.length8.toNat * hvPacketAlignment
  failIf (dataOffset < hvDescriptorSize ∨ packetSize < dataOffset ∨ used - hvPacketTrailerSize < packetSize ∨
    packetSize % hvPacketAlignment ≠ 0) (.protocol, none)
  let dataSize := packetSize - dataOffset
  failIf (payloadCapacity < dataSize) (.noSpace, some dataSize)
  let payload := if dataSize ≠ 0 then ring.ringCopyOut (ring.ringAdvance readIndex dataOffset) dataSize else []
  modify fun ring =>
    { ring with header := { ring.header with readIndex := ring.ringAdvance readIndex (packetSize + hvPacketTrailerSize) } }
  pure { type := descriptor.type, transactionId := descriptor.transactionId, payload }

end HvRing
end InferenceOS
