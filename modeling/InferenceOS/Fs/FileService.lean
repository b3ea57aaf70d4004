import InferenceOS.Fs.Sync
import InferenceOS.Fs.Directory
import InferenceOS.Fs.Mount

/-! The file service of `file_service.c`: lookups, reads and the ordered mutations of one mounted volume.
    The service keeps its scratch buffers in its state, as the source does: `chain` and `oldChain` hold
    the clusters of the last walks, `directory` and `cluster` the last clusters read. A walk that fails
    leaves them as they were; the source may leave a part of the walk there, which nothing reads. -/

namespace InferenceOS
open Program

/-- A cluster buffer, `IOS_FS_FILE_SERVICE_CLUSTER_BYTES` bytes. -/
abbrev ClusterBytes : Type := Bytes 4096

def maxClusters : Nat := 256

/-- `IOS_FS_FILE_SERVICE_CLUSTER_BYTES`. -/
def clusterSize : Nat := 4096

def directorySlots : Nat := 128

def maxDirtyFatSectors : Nat := 514

/-- The fields of `struct ios_fs_mount` that the service reads. -/
structure Mount where
  geometry : Geometry
  state : MountState

/-- The mount of a probe, as the service sees it. -/
def FsMount.seen (mount : FsMount) : Mount := ⟨mount.geometry, mount.report.state⟩

inductive ObjectKind where
  | directory | regularFile
  deriving DecidableEq, Repr

/-- `struct ios_vfs_object`; its reference count is always zero here. -/
structure VfsObject where
  identity : Nat
  kind : ObjectKind
  deriving DecidableEq, Repr

structure LocatedEntry where
  primaryDisk : Slot
  companionDisk : Slot
  primary : Primary
  directoryCluster : Nat
  primarySlot : Nat
  companionSlot : Nat
  hasCompanion : Bool

/-- The result of `memset(&located, 0, sizeof(located))`. -/
def LocatedEntry.zero : LocatedEntry := ⟨Bytes.zero, Bytes.zero, ⟨Bytes.zero, 0, 0, 0⟩, 0, 0, 0, false⟩

structure FileService where
  mount : Mount
  sync : Sync
  fat : Nat → Nat
  fatEntryCount : Nat
  chain : List Nat
  oldChain : List Nat
  dirtyFatSectors : List Nat
  directory : ClusterBytes
  cluster : ClusterBytes
  directoryEntries : List DirectoryEntry
  initialized : Bool

/-- The programs of the service. -/
abbrev Service (α : Type) : Type := Program IosError FileService α

namespace FileService

/-- Run an operation of the sync object. -/
def onSync {α : Type} (m : Program IosError Sync α) : Service α :=
  zoom FileService.sync (fun service sync => { service with sync }) m

/-- Read a sector through the cache. -/
def cacheRead (sector : Nat) : Service Sector := onSync (Sync.onCache (BlockCache.read sector))

/-! ### Places on the volume -/

def validDirectoryCluster (service : FileService) (identity : Nat) : Prop :=
  2 ≤ identity ∧ identity < service.fatEntryCount ∧ identity < 2 ^ 63

instance (service : FileService) (identity : Nat) : Decidable (service.validDirectoryCluster identity) :=
  inferInstanceAs (Decidable (_ ∧ _))

def clusterSector (geometry : Geometry) (cluster : Nat) : Nat :=
  geometry.dataStartSector + (cluster - 2) * sectorsPerCluster

def recordLocation (geometry : Geometry) (cluster slot : Nat) : Nat :=
  (clusterSector geometry cluster + slot / 16) * 512 + slot % 16 * 32

def fileObjectBit : Nat := 2 ^ 63

def fileIdentity (geometry : Geometry) (cluster primarySlot : Nat) : Nat :=
  fileObjectBit ||| recordLocation geometry cluster primarySlot

/-- Sector `k` of a cluster buffer. -/
def sectorOf (buffer : ClusterBytes) (k : Nat) : Sector := buffer.slice (512 * k) 512

/-- The cluster buffer made of consecutive sectors. -/
def joinSectors (sectors : Nat → Sector) : ClusterBytes := fun i => (sectors (i.1 / 512)).byte (i.1 % 512)

/-- Slot `i` of a directory buffer. -/
def slotAt (buffer : ClusterBytes) (i : Nat) : Slot := buffer.slice (32 * i) 32

/-- Sector `k` of the allocation table. -/
def fatSectorBytes (fat : Nat → Nat) (k : Nat) : Sector := fun i => Bytes.digit (fat (128 * k + i.1 / 4)) (i.1 % 4)

/-- The table after sector `k` of it was loaded. -/
def loadFatSector (fat : Nat → Nat) (k : Nat) (bytes : Sector) : Nat → Nat := fun i =>
  if i / 128 = k then bytes.toNat (4 * (i % 128)) 4 else fat i

/-! ### Clusters and the allocation table -/

def validateService (mutation : Bool) : Service Unit := do
  let service ← get
  failIf (service.initialized = false) .invalidState
  failIf (mutation ∧ service.mount.state ≠ .rw) .readOnly

/-- `canonical_component`: the component is copied as a C string, which ends at its first zero byte. -/
def canonicalComponent (component : Text) : Except IosError Name :=
  if component = [] ∨ 13 ≤ component.length then .error .invalidArgument
  else nameCanonicalize83 (component.takeWhile (· ≠ 0))

/-- The loop of `read_cluster`: the first `count` sectors from `first`. -/
def readSectors (first : Nat) : Nat → Service (Nat → Sector)
  | 0 => pure fun _ => Bytes.zero
  | count + 1 => do
    let before ← readSectors first count
    let bytes ← cacheRead (first + count)
    pure (Function.update before count bytes)

def readCluster (cluster : Nat) : Service ClusterBytes := do
  let service ← get
  failIf (¬service.validDirectoryCluster cluster) .corrupt
  let sectors ← readSectors (clusterSector service.mount.geometry cluster) sectorsPerCluster
  pure (joinSectors sectors)

/-- `read_cluster` into `service->directory`. -/
def loadDirectory (cluster : Nat) : Service Unit := do
  let buffer ← readCluster cluster
  modify fun service => { service with directory := buffer }

def writeCluster (cluster : Nat) (buffer : ClusterBytes) (component : UInt32) : Service Unit := do
  let service ← get
  failIf (¬service.validDirectoryCluster cluster) .corrupt
  each (fun k => onSync (Sync.writeSector (clusterSector service.mount.geometry cluster + k) (sectorOf buffer k) component))
    (List.range sectorsPerCluster)

/-- One turn of the loop of `load_fat`. -/
def loadFatAt (k : Nat) : Service Unit := do
  let bytes ← cacheRead (superblockSectors + k)
  modify fun service => { service with fat := loadFatSector service.fat k bytes }

def loadFat : Service Unit := do
  let service ← get
  each loadFatAt (List.range service.mount.geometry.fatSectors)
  modify fun service => { service with dirtyFatSectors := [] }

def directoryChain (firstCluster : Nat) : Service (List Nat) := do
  let service ← get
  let clusters ← ofExcept (Fat.traverse service.fat service.fatEntryCount firstCluster maxClusters)
  modify fun service => { service with chain := clusters }
  pure clusters

def scanLoadedDirectory : Service (List DirectoryEntry) := do
  let service ← get
  let entries ← ofExcept (directoryScan (slotAt service.directory) directorySlots directorySlots directorySlots)
  modify fun service => { service with directoryEntries := entries }
  pure entries

/-! ### Finding records -/

/-- The record of an entry of the directory in the buffer. -/
def locate (service : FileService) (cluster : Nat) (entry : DirectoryEntry) : LocatedEntry :=
  { LocatedEntry.zero with
    primary := entry.primary
    directoryCluster := cluster
    primarySlot := entry.primarySlot
    hasCompanion := entry.companionSlot.isSome
    primaryDisk := slotAt service.directory entry.primarySlot
    companionSlot := entry.companionSlot.getD 0
    companionDisk := match entry.companionSlot with
      | some slot => slotAt service.directory slot
      | none => Bytes.zero }

/-- The loop of `find_in_directory` over the clusters of a directory. -/
def findAmong (name : Name) : List Nat → Service LocatedEntry
  | [] => fail .notFound
  | cluster :: rest => do
    loadDirectory cluster
    let entries ← scanLoadedDirectory
    match entries.find? fun entry => entry.kind ≠ .internal ∧ entry.primary.name = name with
    | none => findAmong name rest
    | some entry =>
      failIf (2 ^ 16 - 1 < entry.primarySlot ∨ ∃ slot ∈ entry.companionSlot, 2 ^ 16 - 1 < slot) .overflow
      let service ← get
      pure (service.locate cluster entry)

def findInDirectory (directoryCluster : Nat) (name : Name) : Service LocatedEntry := do
  let clusters ← directoryChain directoryCluster
  findAmong name clusters

/-- An entry with the base name of `name`, other than the ignored one. -/
def sameDisplayBase (name : Name) (ignored : Option LocatedEntry) (cluster : Nat) (entry : DirectoryEntry) : Prop :=
  entry.kind ≠ .internal ∧ entry.primary.name.slice 0 8 = name.slice 0 8 ∧
    ∀ other ∈ ignored, ¬(other.directoryCluster = cluster ∧ other.primarySlot = entry.primarySlot)

instance (name : Name) (ignored : Option LocatedEntry) (cluster : Nat) (entry : DirectoryEntry) :
    Decidable (sameDisplayBase name ignored cluster entry) := inferInstanceAs (Decidable (_ ∧ _ ∧ _))

/-- The loop of `find_display_base_in_directory`. -/
def findDisplayBaseAmong (name : Name) (ignored : Option LocatedEntry) : List Nat → Service Unit
  | [] => fail .notFound
  | cluster :: rest => do
    loadDirectory cluster
    let entries ← scanLoadedDirectory
    if entries.any fun entry => sameDisplayBase name ignored cluster entry then pure ()
    else findDisplayBaseAmong name ignored rest

def findDisplayBaseInDirectory (directoryCluster : Nat) (name : Name) (ignored : Option LocatedEntry) : Service Unit := do
  let clusters ← directoryChain directoryCluster
  findDisplayBaseAmong name ignored clusters

def locateFileObject (objectIdentity : Nat) : Service LocatedEntry := do
  let location := objectIdentity % fileObjectBit
  let sector := location / 512
  let byteOffset := location % 512
  let service ← get
  let geometry := service.mount.geometry
  failIf (objectIdentity < fileObjectBit ∨ byteOffset % 32 ≠ 0 ∨ sector < geometry.dataStartSector ∨
    geometry.totalSectors ≤ sector) .invalidArgument
  let relativeSector := sector - geometry.dataStartSector
  let cluster := 2 + relativeSector / sectorsPerCluster
  failIf (2 ^ 32 - 1 < cluster ∨ ¬service.validDirectoryCluster cluster) .invalidArgument
  let primarySlot := relativeSector % sectorsPerCluster * 16 + byteOffset / 32
  failIf (directorySlots ≤ primarySlot) .invalidArgument
  loadDirectory cluster
  let entries ← scanLoadedDirectory
  match entries.find? fun entry => entry.kind = .regular ∧ entry.primarySlot = primarySlot with
  | none => fail .notFound
  | some entry =>
    failIf (entry.companionSlot = none ∨ 2 ^ 16 - 1 < entry.primarySlot ∨
      ∃ slot ∈ entry.companionSlot, 2 ^ 16 - 1 < slot) .corrupt
    let service ← get
    failIf (fileIdentity geometry cluster entry.primarySlot ≠ objectIdentity) .corrupt
    pure (service.locate cluster entry)

/-! ### Paths -/

/-- The components between the slashes of a path. -/
def components (path : Text) : List Text := (path.splitOn (ascii '/')).filter (· ≠ [])

/-- The loop of `resolve_directory`. -/
def walk (current : Nat) : List Text → Service Nat
  | [] => pure current
  | component :: rest => do
    let name ← ofExcept (canonicalComponent component)
    let entry ← findInDirectory current name
    failIf (entry.primary.attributes ≠ attributeDirectory ∨ entry.primary.firstCluster < 2) .notFound
    walk entry.primary.firstCluster rest

def resolveDirectory (path : Text) : Service Nat := walk rootCluster (components path)

/-- `resolve_parent`: the directory part is what stands before the last component, and trailing slashes
    do not count. A null path is `none`. -/
def resolveParent (path : Option Text) : Service (Nat × Name) :=
  match path with
  | none => fail .invalidArgument
  | some path => do
    let trimmed := (path.takeWhile (· ≠ 0)).rdropWhile (· = ascii '/')
    failIf (trimmed = []) .invalidArgument
    let name ← ofExcept (canonicalComponent (trimmed.rtakeWhile (· ≠ ascii '/')))
    let parent ← resolveDirectory (trimmed.rdropWhile (· ≠ ascii '/'))
    pure (parent, name)

def resolvePath (path : Option Text) : Service LocatedEntry := do
  let (parent, name) ← resolveParent path
  findInDirectory parent name

/-! ### Ordered writes -/

def markFatCluster (sectors : List Nat) (cluster : Nat) : List Nat :=
  if cluster / fatEntriesPerSector ∈ sectors then sectors
  else if sectors.length < maxDirtyFatSectors then sectors ++ [cluster / fatEntriesPerSector]
  else sectors

/-- One turn of the loop of `persist_fat`. -/
def persistFatSector (k : Nat) : Service Unit := do
  let service ← get
  failIf (service.mount.geometry.fatSectors ≤ k) .corrupt
  onSync (Sync.writeSector (superblockSectors + k) (fatSectorBytes service.fat k) DirtyComponent.allocation)

def persistFat : Service Unit := do
  let service ← get
  each persistFatSector service.dirtyFatSectors
  modify fun service => { service with dirtyFatSectors := [] }

def persistDirectorySlot (directoryCluster slot : Nat) (record : Slot) (component : UInt32) : Service Unit := do
  failIf (directorySlots ≤ slot) .invalidArgument
  loadDirectory directoryCluster
  modify fun service => { service with directory := service.directory.put (32 * slot) record }
  let service ← get
  onSync (Sync.writeSector (clusterSector service.mount.geometry directoryCluster + slot / 16)
    (sectorOf service.directory (slot / 16)) component)

def persistCompanion (located : LocatedEntry) (name : Name) (committed : Bool) : Service Unit := do
  let companion ← ofExcept (companionEncode name committed)
  persistDirectorySlot located.directoryCluster located.companionSlot companion DirtyComponent.companion

/-- `barrier`: after a failed barrier the service refuses all further work. -/
def barrier : Service Unit := do
  match ← attempt (onSync Sync.barrier) with
  | .error status =>
    modify fun service => { service with initialized := false }
    fail status
  | .ok () => pure ()

/-- `collect_chain`; the caller stores the clusters in its workspace. -/
def collectChain (primary : Primary) : Service (List Nat) := do
  let service ← get
  if primary.fileSize = 0 then
    failIf (primary.firstCluster ≠ 0) .corrupt
    pure []
  else ofExcept (Fat.traverse service.fat service.fatEntryCount primary.firstCluster maxClusters)

def allocateChain (count : Nat) : Service Unit :=
  if count = 0 then pure ()
  else do
    let service ← get
    let (fat, clusters) ← ofExcept (Fat.allocate service.fat service.fatEntryCount count maxClusters)
    modify fun service => { service with
      fat, chain := clusters, dirtyFatSectors := clusters.foldl markFatCluster service.dirtyFatSectors }

/-- `release_chain`. The source walks the chain twice, for its own workspace and inside
    `ios_fs_fat_free`; both walks give the same clusters. -/
def releaseChain (firstCluster : Nat) : Service Unit :=
  if firstCluster = 0 then pure ()
  else do
    let service ← get
    let clusters ← ofExcept (Fat.traverse service.fat service.fatEntryCount firstCluster maxClusters)
    let (fat, released) ← ofExcept (Fat.release service.fat service.fatEntryCount firstCluster maxClusters)
    modify fun service => { service with
      fat, oldChain := released, dirtyFatSectors := clusters.foldl markFatCluster service.dirtyFatSectors }
    persistFat
    barrier

/-- `commit_primary`: the companion is fenced off, the allocation table and then the record become
    durable, and the companion commits them. -/
def commitPrimary (located : LocatedEntry) (primary : Primary) : Service Unit := do
  persistCompanion located primary.name false
  barrier
  persistFat
  barrier
  let disk ← ofExcept (primaryEncode primary)
  persistDirectorySlot located.directoryCluster located.primarySlot disk DirtyComponent.primary
  persistCompanion located primary.name true
  barrier

/-- The loop of `find_file_slots`. -/
def fileSlotsAmong : List Nat → Service LocatedEntry
  | [] => fail .noSpace
  | cluster :: rest => do
    loadDirectory cluster
    let service ← get
    match findPairSlots (slotAt service.directory) directorySlots directorySlots with
    | .ok slot =>
      pure { LocatedEntry.zero with
        directoryCluster := cluster, companionSlot := slot, primarySlot := slot + 1, hasCompanion := true }
    | .error status => if status = .noSpace then fileSlotsAmong rest else fail status

def findFileSlots (directoryCluster : Nat) : Service LocatedEntry := do
  let clusters ← directoryChain directoryCluster
  fileSlotsAmong clusters

/-- The loop of `find_directory_slot`. -/
def directorySlotAmong : List Nat → Service LocatedEntry
  | [] => fail .noSpace
  | cluster :: rest => do
    loadDirectory cluster
    let service ← get
    match (List.range directorySlots).find? fun slot =>
      (slotAt service.directory slot).byte 0 = 0 ∨ (slotAt service.directory slot).byte 0 = deletedMark with
    | some slot => pure { LocatedEntry.zero with directoryCluster := cluster, primarySlot := slot }
    | none => directorySlotAmong rest

def findDirectorySlot (directoryCluster : Nat) : Service LocatedEntry := do
  let clusters ← directoryChain directoryCluster
  directorySlotAmong clusters

/-- `ios_fs_file_service_initialize`, on the service that the source has cleared and given its mount, its
    sync object and its table storage. -/
def fileServiceInitialize (fatStorageSize : Nat) : Service Unit := do
  let service ← get
  let geometry := service.mount.geometry
  failIf (geometry.fatSectors = 0 ∨ geometry.clusterCount = 0) .invalidArgument
  failIf (fatStorageSize < geometry.fatSectors * 512 ∨ geometry.fatSectors * 512 < (geometry.clusterCount + 2) * 4) .noSpace
  modify fun service => { service with fatEntryCount := geometry.clusterCount + 2 }
  loadFat
  let service ← get
  failIf (service.fat 0 < Fat.eocFirst ∨ service.fat 1 < Fat.eocFirst ∨ service.fat rootCluster < Fat.eocFirst) .corrupt
  modify fun service => { service with initialized := true }

/-- The service before `ios_fs_file_service_initialize`. -/
def blank (mount : Mount) (sync : Sync) (fatStorage : Nat → Nat) : FileService :=
  { mount, sync, fat := fatStorage, fatEntryCount := 0, chain := [], oldChain := [], dirtyFatSectors := []
    directory := Bytes.zero, cluster := Bytes.zero, directoryEntries := [], initialized := false }

/-! ### Files -/

/-- Whether a lookup that must find nothing did so: success means that the name is taken. -/
def mustBeAbsent {α : Type} (m : Service α) : Service Unit := do
  match ← attempt m with
  | .ok _ => fail .alreadyExists
  | .error status => failIf (status ≠ .notFound) status

def createFileInDirectory (parent : Nat) (name : Name) : Service VfsObject := do
  mustBeAbsent (findDisplayBaseInDirectory parent name none)
  let located ← findFileSlots parent
  commitPrimary located { name, attributes := attributeRegular, firstCluster := 0, fileSize := 0 }
  let service ← get
  pure ⟨fileIdentity service.mount.geometry located.directoryCluster located.primarySlot, .regularFile⟩

def create (path : Option Text) : Service Unit := do
  validateService true
  let (parent, name) ← resolveParent path
  let _ ← createFileInDirectory parent name

def createFile (parentIdentity : Nat) (component : Text) : Service VfsObject := do
  validateService true
  let service ← get
  failIf (¬service.validDirectoryCluster parentIdentity) .invalidArgument
  let name ← ofExcept (canonicalComponent component)
  createFileInDirectory parentIdentity name

/-- The record that a path or an object identity names. -/
def select (path : Option Text) (objectIdentity : Nat) : Service LocatedEntry :=
  match path with
  | some path => resolvePath (some path)
  | none => locateFileObject objectIdentity

/-- The checks of a located record before its content is used. -/
def checkRegular (located : LocatedEntry) : Service Unit := do
  failIf (located.hasCompanion = false ∨ located.primary.attributes ≠ attributeRegular) .invalidArgument
  ofExcept (recordPairValidate located.companionDisk located.primaryDisk)

/-- The copy of `save_content` into one cluster: the input covers the bytes from `inputStart` on. -/
def copyInput (buffer : ClusterBytes) (bytes : Text) (inputStart start : Nat) : ClusterBytes :=
  let inputEnd := inputStart + bytes.length
  if inputStart < start + clusterSize ∧ start < inputEnd then
    let copyStart := max inputStart start
    let copyEnd := min inputEnd (start + clusterSize)
    buffer.put (copyStart - start) (Bytes.ofList (copyEnd - copyStart) (bytes.drop (copyStart - inputStart)))
  else buffer

/-- One cluster of the loop of `save_content`, up to its barrier. `oldSize` is the size of the file before
    the call. -/
def saveCluster (bytes : Text) (append : Bool) (oldSize index : Nat) : Service Unit := do
  let start := index * clusterSize
  modify fun service => { service with cluster := Bytes.zero }
  let service ← get
  if append ∧ start < oldSize ∧ index < service.oldChain.length then
    let buffer ← readCluster (service.oldChain.getD index 0)
    modify fun service => { service with cluster := buffer }
  modify fun service => { service with cluster := copyInput service.cluster bytes (if append then oldSize else 0) start }
  let service ← get
  writeCluster (service.chain.getD index 0) service.cluster DirtyComponent.content

/-- One turn of the loop of `save_content`, with its way to `rollback`. -/
def saveStep (bytes : Text) (append : Bool) (oldSize index : Nat) : Service Unit := do
  match ← attempt (saveCluster bytes append oldSize index) with
  | .error status =>
    let _ ← attempt loadFat
    fail status
  | .ok () => barrier

/-- `save_content` from the located record on. -/
def saveLocated (located : LocatedEntry) (bytes : Text) (append : Bool) : Service Unit := do
  checkRegular located
  let clusters ← collectChain located.primary
  modify fun service => { service with oldChain := clusters }
  let newSize := if append then located.primary.fileSize + bytes.length else bytes.length
  failIf (2 ^ 32 - 1 < newSize ∨ maxClusters * clusterSize < newSize) .noSpace
  let newCount := (newSize + clusterSize - 1) / clusterSize
  modify fun service => { service with dirtyFatSectors := [] }
  allocateChain newCount
  each (saveStep bytes append located.primary.fileSize) (List.range newCount)
  let service ← get
  let primary := { located.primary with
    firstCluster := if newCount = 0 then 0 else service.chain.headD 0
    fileSize := newSize }
  commitPrimary located primary
  let service ← get
  releaseChain (if clusters = [] then 0 else service.oldChain.headD 0)

def saveContent (path : Option Text) (objectIdentity : Nat) (bytes : Text) (append : Bool) : Service Unit := do
  validateService true
  let located ← select path objectIdentity
  saveLocated located bytes append

def replace (name : Option Text) (bytes : Text) : Service Unit := saveContent name 0 bytes false

def append (name : Option Text) (bytes : Text) : Service Unit := saveContent name 0 bytes true

def replaceObject (objectIdentity : Nat) (bytes : Text) : Service Unit := saveContent none objectIdentity bytes false

def appendObject (objectIdentity : Nat) (bytes : Text) : Service Unit := saveContent none objectIdentity bytes true

/-- The loop of `read_content`; every turn transfers at least one byte, so `fuel` is the number of bytes. -/
def transfer (clusters : List Nat) (offset remaining : Nat) : Nat → Text → Service Text
  | 0, done => pure done
  | fuel + 1, done =>
    if remaining ≤ done.length then pure done
    else
      let position := offset + done.length
      let clusterOffset := position % clusterSize
      let chunk := min (clusterSize - clusterOffset) (remaining - done.length)
      match clusters[position / clusterSize]? with
      | none => fail .corrupt
      | some cluster => do
        let buffer ← readCluster cluster
        modify fun service => { service with cluster := buffer }
        transfer clusters offset remaining fuel (done ++ (buffer.toList.drop clusterOffset).take chunk)

/-- `read_content`: the bytes transferred and `complete`. -/
def readContent (path : Option Text) (objectIdentity offset capacity : Nat) : Service (Text × Bool) := do
  validateService false
  let located ← select path objectIdentity
  checkRegular located
  failIf (located.primary.fileSize < offset) .outOfRange
  let clusters ← collectChain located.primary
  modify fun service => { service with chain := clusters }
  let remaining := min (located.primary.fileSize - offset) capacity
  let bytes ← transfer clusters offset remaining remaining []
  pure (bytes, offset + bytes.length == located.primary.fileSize)

def read (path : Option Text) (offset capacity : Nat) : Service (Text × Bool) := do
  failIf (path = none) .invalidArgument
  readContent path 0 offset capacity

def readObject (objectIdentity offset capacity : Nat) : Service (Text × Bool) := do
  failIf (objectIdentity = 0) .invalidArgument
  readContent none objectIdentity offset capacity

/-! ### Renaming and removing files -/

/-- The bytes of a deleted record. -/
def deletedRecord : Slot := Bytes.zero.put 0 (fun _ : Fin 1 => deletedMark)

def deleteLocated (located : LocatedEntry) : Service Unit := do
  if located.hasCompanion then
    persistCompanion located located.primary.name false
    barrier
    persistDirectorySlot located.directoryCluster located.companionSlot deletedRecord DirtyComponent.companion
  persistDirectorySlot located.directoryCluster located.primarySlot deletedRecord DirtyComponent.primary
  barrier

def renameLocated (source : LocatedEntry) (destinationParent : Nat) (destinationName : Name) : Service Unit := do
  checkRegular source
  match ← attempt (findInDirectory destinationParent destinationName) with
  | .ok _ =>
    failIf (¬(source.directoryCluster = destinationParent ∧ source.primary.name = destinationName)) .alreadyExists
  | .error status =>
    failIf (status ≠ .notFound) status
    mustBeAbsent (findDisplayBaseInDirectory destinationParent destinationName
      (if source.directoryCluster = destinationParent then some source else none))
    if source.directoryCluster = destinationParent then
      persistCompanion source source.primary.name false
      barrier
      commitPrimary source { source.primary with name := destinationName }
    else
      let destination ← findFileSlots destinationParent
      commitPrimary destination { source.primary with name := destinationName }
      -- The source overwrites the name of its located entry before it deletes the old record.
      deleteLocated { source with primary := { source.primary with name := destinationName } }

def rename (source destination : Option Text) : Service Unit := do
  validateService true
  let sourceEntry ← resolvePath source
  let (destinationParent, destinationName) ← resolveParent destination
  renameLocated sourceEntry destinationParent destinationName

/-- `ios_fs_file_service_rename_object`: the new base name with the old extension. -/
def renameObject (objectIdentity destinationParentIdentity : Nat) (destinationBase : Text) : Service Unit := do
  validateService true
  let service ← get
  failIf (¬service.validDirectoryCluster destinationParentIdentity ∨ destinationBase = [] ∨
    8 < destinationBase.length) .invalidArgument
  failIf (∃ value ∈ destinationBase, value = ascii '.' ∨ value = ascii '/' ∨ value = ascii '\\') .invalidArgument
  let source ← locateFileObject objectIdentity
  let base ← ofExcept (canonicalComponent destinationBase)
  failIf (base.slice 8 3 ≠ (padName [] []).slice 8 3) .invalidArgument
  renameLocated source destinationParentIdentity (base.put 8 (source.primary.name.slice 8 3))

def removeLocatedFile (located : LocatedEntry) : Service Unit := do
  checkRegular located
  deleteLocated located
  releaseChain located.primary.firstCluster

def remove (path : Option Text) : Service Unit := do
  validateService true
  let located ← resolvePath path
  removeLocatedFile located

def removeObject (objectIdentity : Nat) : Service Unit := do
  validateService true
  let located ← locateFileObject objectIdentity
  removeLocatedFile located

/-! ### Directories -/

/-- `make_internal_record`; it has the layout of a primary record. -/
def makeInternalRecord (parent : Bool) (cluster : Nat) : Slot :=
  primaryBytes { name := internalName parent, attributes := attributeDirectory, firstCluster := cluster, fileSize := 0 }

/-- The first cluster of a new directory. -/
def newDirectoryCluster (cluster parent : Nat) : ClusterBytes :=
  Bytes.zero.put 0 (makeInternalRecord false cluster) |>.put 32 (makeInternalRecord true parent)

def createDirectory (parentIdentity : Nat) (component : Text) : Service VfsObject := do
  let service ← get
  failIf (¬service.validDirectoryCluster parentIdentity) .invalidArgument
  validateService true
  let name ← ofExcept (canonicalComponent component)
  mustBeAbsent (findDisplayBaseInDirectory parentIdentity name none)
  let located ← findDirectorySlot parentIdentity
  modify fun service => { service with dirtyFatSectors := [] }
  allocateChain 1
  let service ← get
  let cluster := service.chain.headD 0
  modify fun service => { service with cluster := newDirectoryCluster cluster parentIdentity }
  match ← attempt (writeCluster cluster (newDirectoryCluster cluster parentIdentity) DirtyComponent.content) with
  | .error status =>
    let _ ← attempt loadFat
    fail status
  | .ok () =>
    barrier
    persistFat
    barrier
    let disk ← ofExcept (primaryEncode
      { name, attributes := attributeDirectory, firstCluster := cluster, fileSize := 0 })
    persistDirectorySlot located.directoryCluster located.primarySlot disk DirtyComponent.primary
    barrier
    pure ⟨cluster, .directory⟩

/-- The loop of `directory_is_empty`. -/
def emptyAmong : List Nat → Service Bool
  | [] => pure true
  | cluster :: rest => do
    loadDirectory cluster
    let entries ← scanLoadedDirectory
    if entries.any fun entry => entry.kind ≠ .internal then pure false else emptyAmong rest

def directoryIsEmpty (directoryCluster : Nat) : Service Bool := do
  let clusters ← directoryChain directoryCluster
  emptyAmong clusters

def removeDirectory (parentIdentity : Nat) (component : Text) : Service Unit := do
  let service ← get
  failIf (¬service.validDirectoryCluster parentIdentity) .invalidArgument
  validateService true
  let name ← ofExcept (canonicalComponent component)
  let located ← findInDirectory parentIdentity name
  failIf (located.primary.attributes ≠ attributeDirectory) .invalidArgument
  let empty ← directoryIsEmpty located.primary.firstCluster
  failIf (empty = false) .notEmpty
  deleteLocated located
  releaseChain located.primary.firstCluster

def vfsRename (sourceParentIdentity : Nat) (sourceComponent : Text) (destinationParentIdentity : Nat)
    (destinationComponent : Text) : Service Unit := do
  let service ← get
  failIf (¬service.validDirectoryCluster sourceParentIdentity ∨
    ¬service.validDirectoryCluster destinationParentIdentity) .invalidArgument
  validateService true
  let sourceName ← ofExcept (canonicalComponent sourceComponent)
  let destinationName ← ofExcept (canonicalComponent destinationComponent)
  let found ← findInDirectory sourceParentIdentity sourceName
  mustBeAbsent (findInDirectory destinationParentIdentity destinationName)
  mustBeAbsent (findDisplayBaseInDirectory destinationParentIdentity destinationName
    (if sourceParentIdentity = destinationParentIdentity then some found else none))
  let source := { found with primary := { found.primary with name := destinationName } }
  if source.hasCompanion then
    if sourceParentIdentity = destinationParentIdentity then commitPrimary source source.primary
    else
      let destination ← findFileSlots destinationParentIdentity
      commitPrimary destination source.primary
      deleteLocated source
  else
    let disk ← ofExcept (primaryEncode source.primary)
    if sourceParentIdentity = destinationParentIdentity then
      persistDirectorySlot source.directoryCluster source.primarySlot disk DirtyComponent.primary
      barrier
    else
      let destination ← findDirectorySlot destinationParentIdentity
      persistDirectorySlot destination.directoryCluster destination.primarySlot disk DirtyComponent.primary
      barrier
      persistDirectorySlot source.primary.firstCluster 1 (makeInternalRecord true destinationParentIdentity)
        DirtyComponent.primary
      barrier
      deleteLocated source

/-! ### Lookups and listings -/

def lookup (directoryIdentity : Nat) (component : Text) : Service VfsObject := do
  let service ← get
  failIf (¬service.validDirectoryCluster directoryIdentity) .invalidArgument
  validateService false
  let name ← ofExcept (canonicalComponent component)
  let located ← findInDirectory directoryIdentity name
  if located.primary.attributes = attributeDirectory then pure ⟨located.primary.firstCluster, .directory⟩
  else
    let service ← get
    pure ⟨fileIdentity service.mount.geometry located.directoryCluster located.primarySlot, .regularFile⟩

/-- `struct ios_vfs_directory_entry`. -/
structure ListedEntry where
  displayBaseName : Text
  objectIdentity : Nat
  internalTypeIdentity : Nat
  typePrefilter : Nat
  byteSize : Nat
  allowedOperations : Nat
  genericAttributes : Nat
  kind : ObjectKind
  deriving DecidableEq

def displayBaseName (canonical : Name) : Text := (canonical.slice 0 8).toList.rdropWhile (· == ascii ' ')

/-- `file_type_metadata`: the type identity and the prefilter. -/
def fileTypeMetadata (canonical : Name) : Except IosError (Nat × Nat) := do
  let extension ← nameExtension canonical
  let identity := extension.foldl (fun identity value => identity * 256 + value.toNat) 0
  .ok (if extension = [] then 1 else identity, (fnv1a32 extension).toNat)

/-- The entry that `ios_fs_file_service_enumerate` writes for a record. The operations are bits: open,
    read, write, rename, delete, enumerate. -/
def listEntry (service : FileService) (cluster : Nat) (source : DirectoryEntry) : Except IosError ListedEntry := do
  let writable := service.mount.state = .rw
  let mutations := if writable then 4 + 8 + 16 else 0
  if source.kind = .directory then
    .ok
      { displayBaseName := displayBaseName source.primary.name
        objectIdentity := source.primary.firstCluster
        internalTypeIdentity := 0
        typePrefilter := 0
        byteSize := source.primary.fileSize
        allowedOperations := 1 + 2 + 32 + mutations
        genericAttributes := if writable then 0 else 1
        kind := .directory }
  else
    let (typeIdentity, prefilter) ← fileTypeMetadata source.primary.name
    .ok
      { displayBaseName := displayBaseName source.primary.name
        objectIdentity := fileIdentity service.mount.geometry cluster source.primarySlot
        internalTypeIdentity := typeIdentity
        typePrefilter := prefilter
        byteSize := source.primary.fileSize
        allowedOperations := 1 + 2 + mutations
        genericAttributes := if writable then 0 else 1
        kind := .regularFile }

/-- What an enumeration has done so far: the ordinal of the next record and the entries written. -/
structure Listing where
  ordinal : Nat
  entries : List ListedEntry

/-- The inner loop of `ios_fs_file_service_enumerate`; `inr` is a full page with its continuation. -/
def listRecords (service : FileService) (cluster continuation capacity : Nat) :
    List DirectoryEntry → Listing → Except IosError (Listing ⊕ (List ListedEntry × Nat))
  | [], listing => .ok (.inl listing)
  | source :: rest, listing =>
    if source.kind = .internal then listRecords service cluster continuation capacity rest listing
    else if listing.ordinal < continuation then
      listRecords service cluster continuation capacity rest { listing with ordinal := listing.ordinal + 1 }
    else if listing.entries.length = capacity then .ok (.inr (listing.entries, listing.ordinal))
    else do
      let entry ← listEntry service cluster source
      listRecords service cluster continuation capacity rest ⟨listing.ordinal + 1, listing.entries ++ [entry]⟩

/-- The outer loop of `ios_fs_file_service_enumerate`. -/
def listAmong (continuation capacity : Nat) : List Nat → Listing → Service (List ListedEntry × Nat)
  | [], listing => pure (listing.entries, 0)
  | cluster :: rest, listing => do
    loadDirectory cluster
    let entries ← scanLoadedDirectory
    let service ← get
    match ← ofExcept (listRecords service cluster continuation capacity entries listing) with
    | .inr page => pure page
    | .inl listing => listAmong continuation capacity rest listing

/-- `ios_fs_file_service_enumerate`: the entries of a page and the continuation, zero at the end. -/
def enumerate (directoryIdentity continuation capacity : Nat) : Service (List ListedEntry × Nat) := do
  let service ← get
  failIf (capacity = 0 ∨ ¬service.validDirectoryCluster directoryIdentity) .invalidArgument
  validateService false
  let clusters ← directoryChain directoryIdentity
  listAmong continuation capacity clusters ⟨0, []⟩

end FileService
end InferenceOS
