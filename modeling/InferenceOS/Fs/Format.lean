import InferenceOS.Block.Device
import InferenceOS.Fs.Fat

/-! The layout of a volume and its formatting, `formatter.c` and the encoding of `superblock.c`: two
    superblocks, the allocation table, the registry region and the data clusters. -/

namespace InferenceOS
open Program

def superblockSectors : Nat := 2

def registrySectors : Nat := 4096

def sectorsPerCluster : Nat := 8

def fatEntriesPerSector : Nat := 128

def rootCluster : Nat := 2

/-- `IOS_FS_MINIMUM_VOLUME_BYTES / IOS_FS_SECTOR_SIZE`. -/
def minimumVolumeSectors : Nat := 50000000000 / 512

structure Geometry where
  totalSectors : Nat
  fatSectors : Nat
  registryStartSector : Nat
  dataStartSector : Nat
  clusterCount : Nat
  usableBytes : Nat
  deriving DecidableEq, Repr

/-- The bisection of `ios_fs_calculate_geometry`; its interval shrinks with every turn, so `fuel` only has
    to be at least its length. -/
def searchFatSectors (totalSectors : Nat) : Nat → Nat → Nat → Except IosError Nat
  | 0, low, _ => .ok low
  | fuel + 1, low, high =>
    if low < high then
      let candidate := low + (high - low) / 2
      let fixedSectors := superblockSectors + candidate + registrySectors
      let clusterCount := (totalSectors - fixedSectors) / sectorsPerCluster
      let required := (clusterCount + 2 + (fatEntriesPerSector - 1)) / fatEntriesPerSector
      if 2 ^ 64 - 1 - superblockSectors - registrySectors < candidate then .error .overflow
      else if totalSectors ≤ fixedSectors then .error .noSpace
      else if 2 ^ 64 - 1 - 2 < clusterCount then .error .overflow
      else if required ≤ candidate then searchFatSectors totalSectors fuel low candidate
      else searchFatSectors totalSectors fuel (candidate + 1) high
    else .ok low

def calculateGeometry (logicalSectorSize totalSectors : Nat) : Except IosError Geometry := do
  if logicalSectorSize ≠ 512 then .error .invalidArgument
  if totalSectors < minimumVolumeSectors then .error .noSpace
  let high := (totalSectors / sectorsPerCluster + 2 + (fatEntriesPerSector - 1)) / fatEntriesPerSector
  let low ← searchFatSectors totalSectors high 1 high
  if 2 ^ 32 - 1 < low then .error .outOfRange
  let fixedSectors := superblockSectors + low + registrySectors
  if totalSectors ≤ fixedSectors then .error .noSpace
  let clusterCount := (totalSectors - fixedSectors) / sectorsPerCluster
  if clusterCount = 0 ∨ maxDataCluster - 1 < clusterCount ∨ 2 ^ 32 - 1 < clusterCount ∨
      low * fatEntriesPerSector < clusterCount + 2 then .error .outOfRange
  .ok
    { totalSectors
      fatSectors := low
      registryStartSector := superblockSectors + low
      dataStartSector := superblockSectors + low + registrySectors
      clusterCount
      usableBytes := clusterCount * sectorsPerCluster * 512 }

/-! ### Superblocks -/

structure Superblock where
  totalSectors : Nat
  sectorsPerFat : Nat
  registryStartSector : Nat
  volumeSerial : Nat
  flags : Nat
  volumeLabel : Bytes 11

def validLabel (label : Bytes 11) : Bool :=
  label.toList.all fun value => value == ascii ' ' || (ascii 'A' ≤ value && value ≤ ascii 'Z') ||
    (ascii '0' ≤ value && value ≤ ascii '9') || value == ascii '_'

def fsMagic : Bytes 8 := Bytes.ofList 8 ("INFOSFS1".toList.map ascii)

def superblockCrc (disk : Sector) : UInt32 := crc32IsoHdlc (disk.put 0x48 (Bytes.zero : Bytes 4)).toList

/-- `ios_fs_superblock_encode`. The start of the registry region is compared with a sum of 32 bits. -/
def superblockEncode (values : Superblock) : Except IosError Sector :=
  if values.totalSectors = 0 ∨ values.sectorsPerFat = 0 ∨ values.flags ≠ 0 ∨
      values.registryStartSector ≠ (superblockSectors + values.sectorsPerFat) % 2 ^ 32 ∨
      2 ^ 64 - 1 - registrySectors < values.registryStartSector ∨
      values.totalSectors ≤ values.registryStartSector + registrySectors ∨ !validLabel values.volumeLabel then
    .error .invalidArgument
  else
    let disk : Sector := Bytes.zero.put 0x00 fsMagic |>.put 0x08 (Bytes.ofNat 2 1) |>.put 0x0a (Bytes.ofNat 2 80)
      |>.put 0x0c (Bytes.ofNat 2 512) |>.put 0x0e (Bytes.ofNat 1 sectorsPerCluster) |>.put 0x0f (Bytes.ofNat 1 1)
      |>.put 0x10 (Bytes.ofNat 2 superblockSectors) |>.put 0x12 (Bytes.ofNat 2 32) |>.put 0x14 (Bytes.ofNat 2 32)
      |>.put 0x16 (Bytes.ofNat 2 values.flags) |>.put 0x18 (Bytes.ofNat 8 values.totalSectors)
      |>.put 0x20 (Bytes.ofNat 4 values.sectorsPerFat) |>.put 0x24 (Bytes.ofNat 4 rootCluster)
      |>.put 0x28 (Bytes.ofNat 8 values.registryStartSector) |>.put 0x30 (Bytes.ofNat 4 registrySectors)
      |>.put 0x34 (Bytes.ofNat 4 values.volumeSerial) |>.put 0x38 values.volumeLabel |>.put 0x43 (Bytes.ofNat 1 1)
      |>.put 0x44 (Bytes.ofNat 2 1) |>.put 0x46 (Bytes.ofNat 2 1) |>.put 0x1fe (Bytes.ofNat 2 0xaa55)
    .ok (disk.put 0x48 (Bytes.ofNat 4 (superblockCrc disk).toNat))

/-! ### Formatting -/

/-- The loop of `zero_sectors`. -/
def zeroSectorsFrom : Nat → Nat → Nat → Program IosError BlockDevice Unit
  | 0, _, _ => pure ()
  | fuel + 1, first, count =>
    if count = 0 then pure ()
    else do
      let chunk := min count 8
      BlockDevice.write first chunk fun _ => Bytes.zero
      zeroSectorsFrom fuel (first + chunk) (count - chunk)

def zeroSectors (first count : Nat) : Program IosError BlockDevice Unit := zeroSectorsFrom count first count

/-- The first sector of a new allocation table: the two reserved entries and the root directory. -/
def formattedFatSector : Sector :=
  Bytes.zero.put 0 (Bytes.ofNat 4 Fat.endOfChain) |>.put 4 (Bytes.ofNat 4 Fat.endOfChain)
    |>.put 8 (Bytes.ofNat 4 Fat.endOfChain)

def format (volumeSerial : Nat) (volumeLabel : Bytes 11) : Program IosError BlockDevice Geometry := do
  let device ← get
  failIf (device.status = .readOnly) .readOnly
  failIf (device.status ≠ .ready) .invalidState
  let calculated ← ofExcept (calculateGeometry device.logicalSectorSize device.sectorCount)
  let superblock ← ofExcept (superblockEncode
    { totalSectors := calculated.totalSectors
      sectorsPerFat := calculated.fatSectors
      registryStartSector := calculated.registryStartSector
      volumeSerial
      flags := 0
      volumeLabel })
  zeroSectors superblockSectors (calculated.dataStartSector + sectorsPerCluster - superblockSectors)
  BlockDevice.write superblockSectors 1 fun _ => formattedFatSector
  BlockDevice.write 1 1 fun _ => superblock
  BlockDevice.write 0 1 fun _ => superblock
  BlockDevice.flush
  pure calculated

end InferenceOS
