import InferenceOS.Fs.Format

/-! Mounting, `mount.c` with the decoder of `superblock.c`, the root chain check of `validator.c` and the report
    of `diagnostic_mount.c`. -/

namespace InferenceOS
open Program

/-! ### Superblocks -/

def allZero {n : Nat} (bytes : Bytes n) : Bool := bytes.toList.all (· == 0)

def superblockDecode (disk : Sector) : Except IosError Superblock :=
  if (superblockCrc disk).toNat ≠ disk.toNat 0x48 4 then .error .corrupt
  else
    let totalSectors := disk.toNat 0x18 8
    let fatSectors := disk.toNat 0x20 4
    let registryStart := disk.toNat 0x28 8
    if disk.slice 0x00 8 ≠ fsMagic ∨ disk.toNat 0x08 2 ≠ 1 ∨ disk.toNat 0x0a 2 ≠ 80 ∨ disk.toNat 0x0c 2 ≠ 512 ∨
        disk.toNat 0x0e 1 ≠ sectorsPerCluster ∨ disk.toNat 0x0f 1 ≠ 1 ∨ disk.toNat 0x10 2 ≠ superblockSectors ∨
        disk.toNat 0x12 2 ≠ 32 ∨ disk.toNat 0x14 2 ≠ 32 ∨ disk.toNat 0x16 2 ≠ 0 ∨ totalSectors = 0 ∨ fatSectors = 0 ∨
        disk.toNat 0x24 4 ≠ rootCluster ∨ registryStart ≠ (superblockSectors + fatSectors) % 2 ^ 32 ∨
        2 ^ 64 - 1 - registrySectors < registryStart ∨ totalSectors ≤ registryStart + registrySectors ∨
        disk.toNat 0x30 4 ≠ registrySectors ∨ !validLabel (disk.slice 0x38 11) ∨ disk.toNat 0x43 1 ≠ 1 ∨
        disk.toNat 0x44 2 ≠ 1 ∨ disk.toNat 0x46 2 ≠ 1 ∨ !allZero (disk.slice 0x4c 4) ∨ !allZero (disk.slice 0x50 430) ∨
        disk.toNat 0x1fe 2 ≠ 0xaa55 then .error .protocol
    else
      .ok
        { totalSectors
          sectorsPerFat := fatSectors
          registryStartSector := registryStart
          volumeSerial := disk.toNat 0x34 4
          flags := disk.toNat 0x16 2
          volumeLabel := disk.slice 0x38 11 }

inductive SuperblockPairState where
  | readWrite | diagnostic | rejected
  deriving DecidableEq, Repr

def superblockClassifyPair (primary backup : Sector) : SuperblockPairState :=
  match superblockDecode primary, superblockDecode backup with
  | .error _, .error _ => .rejected
  | .ok _, .ok _ => if primary = backup then .readWrite else .diagnostic
  | _, _ => .diagnostic

/-! ### The root chain -/

/-- `ios_fs_fat_entry_decode`, on the four bytes from an offset. -/
def fatEntryDecode (sector : Sector) (offset : Nat) : Except IosError Nat :=
  if 2 ^ 28 ≤ sector.toNat offset 4 then .error .protocol else .ok (sector.toNat offset 4)

namespace Validator

/-- `classify_next` of `validator.c`: the next cluster, none at the end of a chain. -/
def classifyNext (raw entryCount : Nat) : Except IosError (Option Nat) :=
  if 2 ^ 28 ≤ raw then .error .corrupt
  else if Fat.eocFirst ≤ raw then .ok none
  else if raw = Fat.free ∨ raw = Fat.bad ∨ (Fat.reservedFirst ≤ raw ∧ raw ≤ Fat.reservedLast) ∨
      ¬Fat.validCluster raw entryCount then .error .corrupt
  else .ok (some raw)

def readFatEntry (geometry : Geometry) (cluster : Nat) : Program IosError BlockDevice Nat := do
  let fatSector := superblockSectors + cluster / fatEntriesPerSector
  failIf (¬Fat.validCluster cluster (geometry.clusterCount + rootCluster) ∨ geometry.registryStartSector ≤ fatSector) .corrupt
  let buffer ← BlockDevice.read fatSector 1
  match fatEntryDecode (buffer 0) (cluster % fatEntriesPerSector * 4) with
  | .error _ => fail .corrupt
  | .ok value => pure value

def advance (geometry : Geometry) (cluster : Nat) : Program IosError BlockDevice (Option Nat) := do
  let raw ← readFatEntry geometry cluster
  ofExcept (classifyNext raw (geometry.clusterCount + rootCluster))

def validateReservedEntries : Program IosError BlockDevice Unit := do
  let buffer ← BlockDevice.read superblockSectors 1
  each (fun index =>
    match fatEntryDecode (buffer 0) (index * 4) with
    | .error _ => fail .corrupt
    | .ok value => failIf (value < Fat.eocFirst) .corrupt) (List.range rootCluster)

/-- The two steps of the fast pointer, none when its chain ends on the way. -/
def advanceTwice (geometry : Geometry) (fast : Nat) : Program IosError BlockDevice (Option Nat) := do
  match ← advance geometry fast with
  | none => pure none
  | some fast => advance geometry fast

/-- The loop of `ios_fs_validate_root_chain`; `fuel` is what is left of `count < cluster_count`. -/
def validateRootChainFrom (geometry : Geometry) : Nat → Nat → Nat → Bool → Nat → Program IosError BlockDevice Nat
  | 0, _, _, _, _ => fail .corrupt
  | fuel + 1, slow, fast, fastEnded, count => do
    match ← advance geometry slow with
    | none => pure (count + 1)
    | some slow =>
      if fastEnded then validateRootChainFrom geometry fuel slow fast true (count + 1)
      else
        match ← advanceTwice geometry fast with
        | none => validateRootChainFrom geometry fuel slow fast true (count + 1)
        | some fast =>
          if slow = fast then fail .corrupt
          else validateRootChainFrom geometry fuel slow fast false (count + 1)

/-- `ios_fs_validate_root_chain`: the number of clusters of the root directory. -/
def validateRootChain (geometry : Geometry) : Program IosError BlockDevice Nat := do
  failIf (geometry.clusterCount = 0 ∨ maxDataCluster - 1 < geometry.clusterCount) .invalidArgument
  validateReservedEntries
  validateRootChainFrom geometry geometry.clusterCount rootCluster rootCluster false 0

end Validator

/-! ### The mount -/

inductive MountState where
  | rw | diagnostic | rejected
  deriving DecidableEq, Repr

inductive MountReason where
  | none | notProbed | deviceGeometry | superblocksInvalid | primaryInvalid | backupInvalid | superblockDisagreement
  | rootChainUnsafe | deviceIo
  deriving DecidableEq, Repr

inductive TrustedSuperblock where
  | none | primary | backup | both
  deriving DecidableEq, Repr

structure MountReport where
  state : MountState
  reason : MountReason
  trustedSuperblock : TrustedSuperblock
  boundsTrusted : Bool
  readOnly : Bool
  deriving DecidableEq, Repr

/-- `struct ios_fs_mount`; its VFS part repeats the state of the report and names the driver. -/
structure FsMount where
  superblock : Superblock
  geometry : Geometry
  report : MountReport

/-- The result of `memset(geometry, 0, sizeof(*geometry))`. -/
def Geometry.zero : Geometry := ⟨0, 0, 0, 0, 0, 0⟩

/-- The result of `memset(values, 0, sizeof(*values))`. -/
def Superblock.zero : Superblock := ⟨0, 0, 0, 0, 0, Bytes.zero⟩

def stateForReason : MountReason → MountState
  | .none => .rw
  | .primaryInvalid => .diagnostic
  | .backupInvalid => .diagnostic
  | .superblockDisagreement => .diagnostic
  | _ => .rejected

namespace FsMount

def reportSet (mount : FsMount) (reason : MountReason) (trustedSuperblock : TrustedSuperblock) (boundsTrusted : Bool) : FsMount :=
  { mount with
    report :=
      { state := stateForReason reason
        reason
        trustedSuperblock
        boundsTrusted
        readOnly := decide (stateForReason reason = .diagnostic) } }

/-- The mount after `memset(mount, 0, sizeof(*mount))` and its first report. -/
def unprobed : FsMount :=
  reportSet ⟨Superblock.zero, Geometry.zero, ⟨.rw, .none, .none, false, false⟩⟩ .notProbed .none false

/-- `geometry_matches`, which also writes the geometry that it computes. -/
def geometryMatches (mount : FsMount) (superblock : Superblock) (device : BlockDevice) : Bool × FsMount :=
  if superblock.totalSectors ≠ device.sectorCount then (false, mount)
  else
    match calculateGeometry device.logicalSectorSize device.sectorCount with
    | .error .invalidArgument => (false, mount)
    | .error _ => (false, { mount with geometry := Geometry.zero })
    | .ok geometry =>
      (geometry.fatSectors == superblock.sectorsPerFat && geometry.registryStartSector == superblock.registryStartSector,
        { mount with geometry })

/-- The bounds of a superblock that may have been decoded. -/
def boundsOf (mount : FsMount) (device : BlockDevice) : Except IosError Superblock → Bool × FsMount
  | .error _ => (false, mount)
  | .ok superblock => mount.geometryMatches superblock device

/-- The part of `ios_fs_mount_probe` after both superblocks were read: its status and the mount. -/
def probeCopies (mount : FsMount) (primaryDisk backupDisk : Sector) :
    Program IosError BlockDevice (Except IosError Unit × FsMount) := do
  let device ← get
  let primary := superblockDecode primaryDisk
  let backup := superblockDecode backupDisk
  let (primaryBounds, mount) := mount.boundsOf device primary
  let (backupBounds, mount) := mount.boundsOf device backup
  if primaryBounds = false ∧ backupBounds = false then
    pure (.ok (), mount.reportSet
      (if primary.isOk || backup.isOk then .deviceGeometry else .superblocksInvalid) .none false)
  else
    let trusted := if primaryBounds then TrustedSuperblock.primary else .backup
    match ← attempt (Validator.validateRootChain mount.geometry) with
    | .error status =>
      if status = .corrupt then pure (.ok (), mount.reportSet .rootChainUnsafe trusted true)
      else pure (.error status, mount.reportSet .deviceIo trusted true)
    | .ok _ =>
      if primaryBounds ∧ backupBounds ∧ superblockClassifyPair primaryDisk backupDisk = .readWrite then
        pure (.ok (), { mount with superblock := primary.toOption.getD Superblock.zero }.reportSet .none .both true)
      else
        let superblock := (if primaryBounds then primary else backup).toOption.getD Superblock.zero
        let reason := if primaryBounds ∧ backupBounds then MountReason.superblockDisagreement
          else if primaryBounds then .backupInvalid else .primaryInvalid
        pure (.ok (), { mount with superblock }.reportSet reason
          (if primaryBounds ∧ backupBounds then .both else trusted) true)

/-- `ios_fs_mount_probe`: its status and the mount that it fills in. -/
def probe : Program IosError BlockDevice (Except IosError Unit × FsMount) := do
  let device ← get
  if device.logicalSectorSize ≠ 512 ∨ device.sectorCount < minimumVolumeSectors then
    pure (.ok (), unprobed.reportSet .deviceGeometry .none false)
  else
    let copies : Program IosError BlockDevice (Sector × Sector) := do
      let primaryDisk ← BlockDevice.read 0 1
      let backupDisk ← BlockDevice.read 1 1
      pure (primaryDisk 0, backupDisk 0)
    match ← attempt copies with
    | .error _ => pure (.error .io, unprobed.reportSet .deviceIo .none false)
    | .ok (primaryDisk, backupDisk) => unprobed.probeCopies primaryDisk backupDisk

end FsMount
end InferenceOS
