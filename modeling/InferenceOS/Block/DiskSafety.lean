import InferenceOS.Block.Device
import InferenceOS.Fs.Records

/-! The classification of data disks, `block/disk_safety.c`. The driver behind the device may refuse any read with any error;
    the state keeps the requests made so far, and no function of the source reads them. -/

namespace InferenceOS
open Program

inductive DiskClassification where
  | eligibleBlank | eligibleInferenceFs | protectedBoot | protectedPartitioned | protectedForeign | rejectedIo
  deriving DecidableEq, Repr

/-- The device, what its driver makes of each request after those before it, and `*classification` once it is written. -/
structure ProbedDisk where
  device : BlockDevice
  readError : List (Nat × Nat) → Nat × Nat → Option IosError
  requests : List (Nat × Nat)
  classification : Option DiskClassification

def diskProbeSectors : Nat := 2048

def diskProbeBatchSectors : Nat := 8

def gptHeaderLba : Nat := 1

def gptMinimumHeaderSize : Nat := 92

def gptPartitionEntryMinimumSize : Nat := 128

def inferenceFsMagic : Bytes 8 := Bytes.ofList 8 ("INFOSFS1".toList.map ascii)

/-- The signature of a GPT header. -/
def efiPart : Bytes 8 := Bytes.ofList 8 ("EFI PART".toList.map ascii)

def crc32ZeroedField (bytes : Nat → UInt8) (size zeroOffset zeroSize : Nat) : UInt32 :=
  (List.range size).foldl (fun crc index =>
    crc32Bit^[8] (crc ^^^ (if zeroOffset ≤ index ∧ index < zeroOffset + zeroSize then 0 else bytes index).toUInt32)) 0xffffffff ^^^
    0xffffffff

def guidIsZero (guid : Bytes 16) : Bool := guid.toList.foldl (fun combined value => combined ||| value) 0 = 0

/-- A byte of some sectors in memory. -/
def sectorsByte (sectors : Nat → Sector) (offset : Nat) : UInt8 := (sectors (offset / 512)).byte (offset % 512)

def bytesAreZero (bytes : Nat → UInt8) (size : Nat) : Bool :=
  (List.range size).foldl (fun combined index => combined ||| bytes index) 0 = 0

def inferenceFsSuperblocksValid (primary backup : Sector) : Bool :=
  if primary.slice 0 8 ≠ inferenceFsMagic ∨ primary ≠ backup ∨ primary.toNat 8 2 ≠ 1 ∨ primary.toNat 12 2 ≠ 512 ∨
      primary.toNat 510 2 ≠ 0xaa55 then false
  else (crc32ZeroedField primary.byte 512 0x48 4).toNat = primary.toNat 0x48 4

def mbrHasPartition (sector : Sector) : Bool :=
  if sector.byte 510 ≠ 0x55 ∨ sector.byte 511 ≠ 0xaa then false
  else (List.range 4).any fun index => sector.byte (446 + index * 16 + 4) ≠ 0 ∨
    sector.toNat (446 + index * 16 + 8) 4 ≠ 0 ∨ sector.toNat (446 + index * 16 + 12) 4 ≠ 0

/-- The programs that classify a disk. -/
abbrev ProbeProgram (α : Type) : Type := Program IosError ProbedDisk α

namespace ProbeProgram

def blockDeviceRead (first count : Nat) : ProbeProgram (Nat → Sector) := do
  let s ← get
  modify fun s => { s with requests := s.requests ++ [(first, count)] }
  ofExcept (s.device.validateRange first count)
  match s.readError s.requests (first, count) with
  | some e => fail e
  | none => pure fun i => s.device.contents (first + i)

/-- Write `*classification`. -/
def report (classification : DiskClassification) : ProbeProgram Unit :=
  modify fun s => { s with classification := some classification }

/-- The loop of `classify_gpt` over the entries from some index on. -/
def scanEntries (entriesLba entrySize : Nat) (bootGuid : Bytes 16) : Nat → Nat → ProbeProgram Unit
  | 0, _ => pure ()
  | entries + 1, index => do
    let byteOffset := index * entrySize
    let lba := entriesLba + byteOffset / 512
    let offset := byteOffset % 512
    let sectors ← blockDeviceRead lba (if offset + 32 ≤ 512 then 1 else 2)
    let uniqueGuid : Bytes 16 := fun i => sectorsByte sectors (offset + 16 + i.1)
    if uniqueGuid = bootGuid then report .protectedBoot else scanEntries entriesLba entrySize bootGuid entries (index + 1)

def classifyGpt (header : Sector) (bootGuid : Bytes 16) : ProbeProgram Unit := do
  let headerSize := header.toNat 12 4
  let entriesLba := header.toNat 72 8
  let entryCount := header.toNat 80 4
  let entrySize := header.toNat 84 4
  report .protectedPartitioned
  let s ← get
  failIf (headerSize < gptMinimumHeaderSize ∨ 512 < headerSize ∨ header.toNat 24 8 ≠ gptHeaderLba ∨
    s.device.sectorCount ≤ header.toNat 32 8 ∨ (crc32ZeroedField header.byte headerSize 16 4).toNat ≠ header.toNat 16 4 ∨
    entryCount = 0 ∨ entrySize < gptPartitionEntryMinimumSize ∨ entrySize % 8 ≠ 0 ∨ (2 ^ 64 - 1) / entrySize < entryCount) .corrupt
  let entriesBytes := entryCount * entrySize
  failIf (s.device.sectorCount ≤ entriesLba ∨ s.device.sectorCount - entriesLba < (entriesBytes + 512 - 1) / 512) .corrupt
  if guidIsZero bootGuid then pure () else scanEntries entriesLba entrySize bootGuid entryCount 0

/-- The loop of `probe_zero_region`; each round reads at least one sector. -/
def probeFrom : Nat → Nat → Nat → ProbeProgram Bool
  | 0, _, _ => pure true
  | rounds + 1, firstSector, sectorCount =>
    if sectorCount = 0 then pure true
    else do
      let batch := min sectorCount diskProbeBatchSectors
      let sectors ← blockDeviceRead firstSector batch
      if !bytesAreZero (sectorsByte sectors) (batch * 512) then pure false
      else probeFrom rounds (firstSector + batch) (sectorCount - batch)

/-- `probe_zero_region`; the result is `*all_zero`. -/
def probeZeroRegion (firstSector sectorCount : Nat) : ProbeProgram Bool := probeFrom sectorCount firstSector sectorCount

def blockClassifyDataDisk (bootPartitionGuid : Bytes 16) : ProbeProgram Unit := do
  let s ← get
  failIf (s.device.logicalSectorSize ≠ 512 ∨ s.device.sectorCount < 2) .invalidArgument
  report .rejectedIo
  let firstTwo ← blockDeviceRead 0 2
  if inferenceFsSuperblocksValid (firstTwo 0) (firstTwo 1) then report .eligibleInferenceFs
  else if (firstTwo 1).slice 0 8 = efiPart then do
    let status ← attempt (classifyGpt (firstTwo 1) bootPartitionGuid)
    match status with
    | .error e => failIf (e ≠ .corrupt) e
    | .ok _ => pure ()
  else if mbrHasPartition (firstTwo 0) then report .protectedPartitioned
  else do
    let probeSectors := min s.device.sectorCount diskProbeSectors
    let startZero ← probeZeroRegion 0 probeSectors
    let endZero ← probeZeroRegion (s.device.sectorCount - probeSectors) probeSectors
    report (if startZero && endZero then .eligibleBlank else .protectedForeign)

end ProbeProgram
end InferenceOS
