import InferenceOS.Fs.FileService

/-! The directory store of `subdirectory.c`. It reads and changes a directory through operations on whole
    clusters that its caller hands over, where the file service goes through the cache. -/

namespace InferenceOS
open Program

/-- `struct ios_fs_cluster_operations`, over the states `κ` of the caller's `io_context`. -/
structure ClusterOperations (κ : Type) where
  read : Nat → Program IosError κ ClusterBytes
  write : Nat → ClusterBytes → Program IosError κ Unit
  zero : Nat → Program IosError κ Unit

structure DirectoryStore (κ : Type) where
  fat : Nat → Nat
  fatEntryCount : Nat
  clusterBytes : Nat
  ioContext : κ
  operations : ClusterOperations κ
  writable : Bool

namespace DirectoryStore
variable {κ α : Type}

def validStore (store : DirectoryStore κ) : Prop := 2 < store.fatEntryCount ∧ store.clusterBytes = clusterSize

instance (store : DirectoryStore κ) : Decidable store.validStore := inferInstanceAs (Decidable (_ ∧ _))

/-- Run an operation of the caller. -/
def onContext (m : Program IosError κ α) : Program IosError (DirectoryStore κ) α :=
  zoom ioContext (fun store ioContext => { store with ioContext }) m

def subdirectoryInitialize (cluster parentCluster scratchSize : Nat) : Program IosError (DirectoryStore κ) Unit := do
  let store ← get
  failIf (¬store.validStore ∨ scratchSize < store.clusterBytes ∨ store.writable = false ∨ cluster < 2 ∨
    store.fatEntryCount ≤ cluster ∨ parentCluster < 2 ∨ store.fatEntryCount ≤ parentCluster ∨
    store.fat cluster < Fat.eocFirst) .invalidArgument
  onContext (store.operations.write cluster (FileService.newDirectoryCluster cluster parentCluster))

/-- `ios_fs_subdirectory_grow`: the new cluster. -/
def subdirectoryGrow (firstCluster chainCapacity : Nat) : Program IosError (DirectoryStore κ) Nat := do
  let store ← get
  failIf (¬store.validStore ∨ chainCapacity = 0 ∨ store.writable = false) .invalidArgument
  let chain ← ofExcept (Fat.traverse store.fat store.fatEntryCount firstCluster chainCapacity)
  let (fat, clusters) ← ofExcept (Fat.allocate store.fat store.fatEntryCount 1 1)
  let allocated := clusters.headD 0
  modify fun store => { store with fat }
  match ← attempt (onContext (store.operations.zero allocated)) with
  | .error status =>
    modify fun store => { store with fat := Function.update store.fat allocated Fat.free }
    fail status
  | .ok () =>
    modify fun store => { store with fat := Function.update store.fat (chain.getLastD 0) allocated }
    pure allocated

/-- `internal_entry_is`; a cluster of zero stands for any. -/
def internalEntryIs (entry : DirectoryEntry) (parent : Bool) (cluster : Nat) : Prop :=
  entry.kind = .internal ∧ (cluster = 0 ∨ entry.primary.firstCluster = cluster) ∧ entry.primary.name.byte 0 = ascii '.' ∧
    entry.primary.name.byte 1 = if parent then ascii '.' else ascii ' '

instance (entry : DirectoryEntry) (parent : Bool) (cluster : Nat) : Decidable (internalEntryIs entry parent cluster) :=
  inferInstanceAs (Decidable (_ ∧ _))

/-- The first two entries of a directory are its own records. -/
def Dotted (entries : List DirectoryEntry) (firstCluster parentCluster : Nat) : Prop :=
  match entries with
  | own :: parent :: _ => internalEntryIs own false firstCluster ∧ internalEntryIs parent true parentCluster
  | _ => False

instance (entries : List DirectoryEntry) (firstCluster parentCluster : Nat) :
    Decidable (Dotted entries firstCluster parentCluster) := by
  unfold Dotted
  split <;> infer_instance

/-- The search for an end marker in a cluster. -/
def endSeen (scratch : ClusterBytes) : Bool :=
  (List.range directorySlots).any fun slot => (FileService.slotAt scratch slot).byte 0 == 0

/-- The entry with its slots counted from the first cluster of the chain. -/
def shifted (chainIndex : Nat) (entry : DirectoryEntry) : DirectoryEntry :=
  { entry with
    primarySlot := entry.primarySlot + chainIndex * directorySlots
    companionSlot := entry.companionSlot.map (· + chainIndex * directorySlots) }

/-- The loop of `ios_fs_subdirectory_enumerate` over the entries of a cluster, from number `index` on. The
    entries written before an error stay in the caller's array; the status tells it not to use them. -/
def gather (chainIndex entryCapacity : Nat) :
    List DirectoryEntry → Nat → List DirectoryEntry → Except IosError (List DirectoryEntry)
  | [], _, entries => .ok entries
  | entry :: rest, index, entries =>
    if entry.kind = .internal then
      if chainIndex ≠ 0 ∨ 1 < index then .error .corrupt else gather chainIndex entryCapacity rest (index + 1) entries
    else do
      if entries.any fun prior => prior.primary.name == entry.primary.name then .error .alreadyExists
      if entries.length = entryCapacity then .error .noSpace
      gather chainIndex entryCapacity rest (index + 1) (entries ++ [shifted chainIndex entry])

/-- The loop of `ios_fs_subdirectory_enumerate` over the clusters; an end marker ends it. -/
def gatherAmong (firstCluster entryCapacity : Nat) :
    List Nat → Nat → List DirectoryEntry → Program IosError (DirectoryStore κ) (List DirectoryEntry)
  | [], _, entries => pure entries
  | cluster :: rest, chainIndex, entries => do
    let store ← get
    let scratch ← onContext (store.operations.read cluster)
    let decoded ← ofExcept (directoryScan (FileService.slotAt scratch) directorySlots directorySlots directorySlots)
    failIf (chainIndex = 0 ∧ ¬Dotted decoded firstCluster 0) .corrupt
    let entries ← ofExcept (gather chainIndex entryCapacity decoded 0 entries)
    if endSeen scratch then pure entries else gatherAmong firstCluster entryCapacity rest (chainIndex + 1) entries

def subdirectoryEnumerate (firstCluster chainCapacity scratchSize entryCapacity : Nat) :
    Program IosError (DirectoryStore κ) (List DirectoryEntry) := do
  let store ← get
  failIf (¬store.validStore ∨ chainCapacity = 0 ∨ scratchSize < store.clusterBytes ∨ entryCapacity = 0) .invalidArgument
  let chain ← ofExcept (Fat.traverse store.fat store.fatEntryCount firstCluster chainCapacity)
  gatherAmong firstCluster entryCapacity chain 0 []

/-- The loop of `ios_fs_subdirectory_remove`: only the records of the directory itself may be left. -/
def removableAmong (firstCluster parentCluster : Nat) : List Nat → Nat → Program IosError (DirectoryStore κ) Unit
  | [], _ => pure ()
  | cluster :: rest, chainIndex => do
    let store ← get
    let scratch ← onContext (store.operations.read cluster)
    let decoded ← ofExcept (directoryScan (FileService.slotAt scratch) directorySlots directorySlots directorySlots)
    failIf (chainIndex = 0 ∧ ¬Dotted decoded firstCluster parentCluster) .corrupt
    failIf (decoded.drop (if chainIndex = 0 then 2 else 0) ≠ []) .notEmpty
    removableAmong firstCluster parentCluster rest (chainIndex + 1)

def subdirectoryRemove (firstCluster parentCluster chainCapacity scratchSize : Nat) :
    Program IosError (DirectoryStore κ) Unit := do
  let store ← get
  failIf (¬store.validStore ∨ store.writable = false ∨ chainCapacity = 0 ∨ scratchSize < store.clusterBytes ∨
    parentCluster < 2 ∨ store.fatEntryCount ≤ parentCluster) .invalidArgument
  let chain ← ofExcept (Fat.traverse store.fat store.fatEntryCount firstCluster chainCapacity)
  removableAmong firstCluster parentCluster chain 0
  let (fat, _) ← ofExcept (Fat.release store.fat store.fatEntryCount firstCluster chainCapacity)
  modify fun store => { store with fat }

end DirectoryStore
end InferenceOS
