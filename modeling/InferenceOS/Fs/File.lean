import InferenceOS.Fs.Subdirectory

/-! Open files, `file.c`. A handle has the record of its file and a position; it reads and writes the clusters of the file
    through the operations of its store. The workspace of the chain and the scratch cluster are filled again by every call,
    so that only their sizes are part of a handle. -/

namespace InferenceOS
open Program

namespace Fat

/-- The loop of `ios_fs_fat_validate_file_capacity`. `fuel` is what is left of `traversed++ < entry_count`. -/
def capacityFrom (fat : Nat → Nat) (entryCount fileSize clusterBytes : Nat) : Nat → Nat → Nat → Except IosError Unit
  | 0, _, _ => .error .corrupt
  | fuel + 1, slow, capacity =>
    if ¬validCluster slow entryCount then .error .corrupt
    else
      match classifyNext (fat slow) entryCount with
      | .error status => .error status
      | .ok true => if fileSize ≤ capacity + clusterBytes then .ok () else .error .corrupt
      | .ok false => capacityFrom fat entryCount fileSize clusterBytes fuel (fat slow) (capacity + clusterBytes)

def validateFileCapacity (fat : Nat → Nat) (entryCount start fileSize clusterBytes : Nat) : Except IosError Unit :=
  if fileSize = 0 then if start = 0 then .ok () else .error .corrupt
  else if clusterBytes = 0 ∨ ¬validEntryCount entryCount ∨ ¬validCluster start entryCount then .error .invalidArgument
  else capacityFrom fat entryCount fileSize clusterBytes entryCount start 0

end Fat

structure FileStore (κ : Type) where
  fat : Nat → Nat
  fatEntryCount : Nat
  clusterBytes : Nat
  ioContext : κ
  operations : ClusterOperations κ
  writable : Bool

structure FsFile (κ : Type) where
  store : FileStore κ
  primary : Primary
  position : Nat
  chainCapacity : Nat
  scratchSize : Nat
  writable : Bool
  isOpen : Bool

/-- `validate_store`. -/
def FileStore.validate {κ : Type} (store : FileStore κ) : Except IosError Unit :=
  if store.fatEntryCount ≤ 2 ∨ store.clusterBytes ≠ clusterSize then .error .invalidArgument else .ok ()

/-- The checks of `ios_fs_file_open` on the chain of a file that is not empty. -/
def FileStore.validateChain {κ : Type} (store : FileStore κ) (primary : Primary) (chainCapacity : Nat) :
    Except IosError Unit :=
  if primary.fileSize ≠ 0 then do
    Fat.validateFileCapacity store.fat store.fatEntryCount primary.firstCluster primary.fileSize store.clusterBytes
    let _ ← Fat.traverse store.fat store.fatEntryCount primary.firstCluster chainCapacity
    .ok ()
  else .ok ()

inductive SeekOrigin where
  | seekSet | seekCurrent | seekEnd
  deriving DecidableEq, Repr

namespace FsFile
variable {κ α : Type}

/-- Run an operation of the caller. -/
def onContext (m : Program IosError κ α) : Program IosError (FsFile κ) α :=
  zoom (·.store.ioContext) (fun file ioContext => { file with store := { file.store with ioContext } }) m

/-- Change the table of the store. -/
def setFat (fat : Nat → Nat) : Program IosError (FsFile κ) Unit :=
  modify fun file => { file with store := { file.store with fat } }

def loadChain (file : FsFile κ) : Except IosError (List Nat) :=
  if file.primary.fileSize = 0 then if file.primary.firstCluster = 0 then .ok [] else .error .corrupt
  else Fat.traverse file.store.fat file.store.fatEntryCount file.primary.firstCluster file.chainCapacity

/-- The last steps of `ensure_clusters`: the new clusters follow the existing ones. -/
def linkClusters (existing allocated : List Nat) : Program IosError (FsFile κ) Unit :=
  modify fun file =>
    match existing.getLast? with
    | none => { file with primary := { file.primary with firstCluster := allocated.headD 0 } }
    | some last =>
      { file with store := { file.store with fat := Function.update file.store.fat last (allocated.headD 0) } }

/-- `ensure_clusters`: the clusters of the chain. -/
def ensureClusters (required : Nat) : Program IosError (FsFile κ) (List Nat) := do
  let file ← get
  let existing ← ofExcept file.loadChain
  if required ≤ existing.length then pure existing
  else do
    let additional := required - existing.length
    failIf (file.chainCapacity < required) .noSpace
    let (fat, allocated) ← ofExcept
      (Fat.allocate file.store.fat file.store.fatEntryCount additional (file.chainCapacity - existing.length))
    setFat fat
    match ← attempt (each (fun cluster => onContext (file.store.operations.zero cluster)) allocated) with
    | .error status => do
      setFat (Fat.clear fat allocated)
      fail status
    | .ok () => do
      linkClusters existing allocated
      pure (existing ++ allocated)

def fileOpen (store : FileStore κ) (companion primaryDisk : Slot) (writable : Bool) (chainCapacity scratchSize : Nat) :
    Except IosError (FsFile κ) :=
  if chainCapacity = 0 then .error .invalidArgument
  else do
    store.validate
    if scratchSize < store.clusterBytes then .error .noSpace
    else if writable = true ∧ store.writable = false then .error .readOnly
    else do
      recordPairValidate companion primaryDisk
      let primary ← primaryDecode primaryDisk
      store.validateChain primary chainCapacity
      .ok { store, primary, position := 0, chainCapacity, scratchSize, writable, isOpen := true }

/-- `file->position += (ios_u32)chunk`. -/
def advance (chunk : Nat) : Program IosError (FsFile κ) Unit :=
  modify fun file => { file with position := (file.position + chunk) % 2 ^ 32 }

/-- The loop of `ios_fs_file_read`; every turn reads at least one byte, so `fuel` only has to be at least `remaining`. -/
def readFrom (chain : List Nat) : Nat → Nat → Text → Program IosError (FsFile κ) Text
  | 0, _, output => pure output
  | fuel + 1, remaining, output =>
    if remaining = 0 then pure output
    else do
      let file ← get
      let chainIndex := file.position / file.store.clusterBytes
      let clusterOffset := file.position % file.store.clusterBytes
      let chunk := min (file.store.clusterBytes - clusterOffset) remaining
      failIf (chain.length ≤ chainIndex) .corrupt
      let scratch ← onContext (file.store.operations.read (chain.getD chainIndex 0))
      advance chunk
      readFrom chain fuel (remaining - chunk) (output ++ (scratch.toList.drop clusterOffset).take chunk)

/-- `ios_fs_file_read`: the bytes transferred. What is left of the file is a difference of 32 bits. -/
def fileRead (length : Nat) : Program IosError (FsFile κ) Text := do
  let file ← get
  failIf (file.isOpen = false) .invalidArgument
  if length = 0 ∨ file.position = file.primary.fileSize then pure []
  else do
    let remaining := min length ((file.primary.fileSize + 2 ^ 32 - file.position) % 2 ^ 32)
    let chain ← ofExcept file.loadChain
    readFrom chain remaining remaining []

/-- `memcpy(cluster_scratch + cluster_offset, input, chunk)`. -/
def spliced (scratch : ClusterBytes) (clusterOffset : Nat) (bytes : Text) : ClusterBytes :=
  scratch.put clusterOffset (Bytes.ofList bytes.length bytes)

/-- One turn of the loop of `ios_fs_file_write`, for the part of the input that goes into one cluster. -/
def writePart (chain : List Nat) (part : Text) : Program IosError (FsFile κ) Unit := do
  let file ← get
  let chainIndex := file.position / file.store.clusterBytes
  failIf (chain.length ≤ chainIndex) .corrupt
  let scratch ← onContext (file.store.operations.read (chain.getD chainIndex 0))
  onContext (file.store.operations.write (chain.getD chainIndex 0)
    (spliced scratch (file.position % file.store.clusterBytes) part))
  advance part.length

/-- The loop of `ios_fs_file_write`; every turn writes at least one byte. -/
def writeFrom (chain : List Nat) : Nat → Text → Program IosError (FsFile κ) Unit
  | 0, _ => pure ()
  | fuel + 1, input =>
    if input = [] then pure ()
    else do
      let file ← get
      let chunk := min (file.store.clusterBytes - file.position % file.store.clusterBytes) input.length
      writePart chain (input.take chunk)
      writeFrom chain fuel (input.drop chunk)

/-- `ios_fs_file_write`. On an error the position tells how many bytes were transferred. -/
def fileWrite (buffer : Text) : Program IosError (FsFile κ) Unit := do
  let file ← get
  failIf (file.isOpen = false) .invalidArgument
  failIf (file.writable = false ∨ file.store.writable = false) .readOnly
  failIf (file.primary.fileSize < file.position) .invalidArgument
  if buffer = [] then pure ()
  else do
    failIf (2 ^ 32 - 1 - file.position < buffer.length) .overflow
    let required := (file.position + buffer.length + file.store.clusterBytes - 1) / file.store.clusterBytes
    let chain ← ensureClusters required
    writeFrom chain buffer.length buffer
    modify fun file =>
      if file.primary.fileSize < file.position then { file with primary := { file.primary with fileSize := file.position } }
      else file

/-- `ios_fs_file_seek`: the new position. The offset is a number of 64 bits. -/
def fileSeek (origin : SeekOrigin) (offset : Int) : Program IosError (FsFile κ) Nat := do
  let file ← get
  failIf (file.isOpen = false) .invalidArgument
  let base : Int :=
    match origin with
    | .seekSet => 0
    | .seekCurrent => file.position
    | .seekEnd => file.primary.fileSize
  failIf ((0 < offset ∧ 2 ^ 63 - 1 - offset < base) ∨ (offset < 0 ∧ base < -2 ^ 63 - offset)) .overflow
  failIf (base + offset < 0 ∨ 2 ^ 32 - 1 < base + offset) .outOfRange
  modify fun file => { file with position := (base + offset).toNat }
  pure (base + offset).toNat

def fileAppend (buffer : Text) : Program IosError (FsFile κ) Unit := do
  let _ ← fileSeek .seekEnd 0
  fileWrite buffer

end FsFile
end InferenceOS
