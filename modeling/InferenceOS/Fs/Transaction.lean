import InferenceOS.Fs.Registry

/-! Transactions on one file, `transaction.c`: the callbacks that persist the parts of a record pair, and the registry that
    a transaction refreshes after its commit. `ω` is what the callbacks act on. -/

namespace InferenceOS
open Program

/-- `struct ios_fs_transaction_operations`; a null pointer is `none`. A content is a pointer with a length. -/
structure TransactionOperations (ω : Type) where
  persistContent : Option (Option Text → Nat → Program IosError ω Unit)
  persistAllocation : Option (Program IosError ω Unit)
  persistPrimary : Option (Slot → Program IosError ω Unit)
  persistCompanion : Option (Slot → Program IosError ω Unit)
  persistDeletedPair : Option (Program IosError ω Unit)
  releaseAllocation : Option (Nat → Program IosError ω Unit)
  barrier : Option (Program IosError ω Unit)

/-- `struct ios_fs_transaction`, with what its `context` points to. -/
structure Transaction (ω : Type) where
  context : ω
  operations : TransactionOperations ω
  registry : Option Registry
  registryDirectoryCluster : UInt32
  registryPrimarySlot : UInt16
  writable : Bool

namespace Transaction
variable {ω : Type}

/-- The programs of a transaction. -/
abbrev Transacting (ω α : Type) : Type := Program IosError (Transaction ω) α

/-- A callback of the operations; those of a transaction that was validated are there. -/
def call (callback : TransactionOperations ω → Option (Program IosError ω Unit)) : Transacting ω Unit := do
  let transaction ← get
  match callback transaction.operations with
  | none => fail .invalidArgument
  | some operation => zoom Transaction.context (fun transaction context => { transaction with context }) operation

def validateTransaction (transaction : Transaction ω) : Except IosError Unit :=
  if transaction.operations.persistContent.isNone ∨ transaction.operations.persistAllocation.isNone ∨
      transaction.operations.persistPrimary.isNone ∨ transaction.operations.persistCompanion.isNone ∨
      transaction.operations.persistDeletedPair.isNone ∨ transaction.operations.releaseAllocation.isNone ∨
      transaction.operations.barrier.isNone then .error .invalidArgument
  else if transaction.writable then .ok () else .error .readOnly

def persistCompanion (name : Name) (committed : Bool) : Transacting ω Unit := do
  let companion ← ofExcept (companionEncode name committed)
  call fun operations => operations.persistCompanion.map fun persist => persist companion

/-- `transaction->operations.barrier`. -/
def barrier : Transacting ω Unit := call TransactionOperations.barrier

/-- `refresh_registry_after_commit`; `primary->name` are the first bytes of the record. -/
def refreshRegistryAfterCommit (primary : Slot) : Transacting ω Unit := do
  let transaction ← get
  match transaction.registry, companionEncode (primary.slice 0 11) true with
  | some registry, .ok companion =>
    let source := ⟨companion, primary, transaction.registryDirectoryCluster, transaction.registryPrimarySlot⟩
    modify fun transaction => { transaction with registry := some (Registry.registryRefresh source registry).2 }
  | _, _ => pure ()

def transactionAttachRegistry (registry : Registry) (directoryCluster : UInt32) (primarySlot : UInt16) : Transacting ω Unit :=
  modify fun transaction => { transaction with
    registry := some registry
    registryDirectoryCluster := directoryCluster
    registryPrimarySlot := primarySlot }

/-- `ios_fs_transaction_save`; null pointers are `none`. -/
def transactionSave (primary : Option Primary) (content : Option Text) (contentLength : Nat) : Transacting ω Unit := do
  let transaction ← get
  ofExcept transaction.validateTransaction
  match primary with
  | none => fail .invalidArgument
  | some primary => do
    failIf ((content.isNone ∧ contentLength ≠ 0) ∨ contentLength ≠ primary.fileSize) .invalidArgument
    let primaryDisk ← ofExcept (primaryEncode primary)
    persistCompanion primary.name false
    barrier
    call fun operations => operations.persistContent.map fun persist => persist content contentLength
    barrier
    call TransactionOperations.persistAllocation
    barrier
    call fun operations => operations.persistPrimary.map fun persist => persist primaryDisk
    persistCompanion primary.name true
    barrier
    refreshRegistryAfterCommit primaryDisk

/-- `ios_fs_transaction_rename`; null pointers are `none`. -/
def transactionRename (currentCompanion currentPrimary : Option Slot) (newName : Option Name) (destinationExists : Bool) :
    Transacting ω Unit := do
  let transaction ← get
  ofExcept transaction.validateTransaction
  match currentCompanion, currentPrimary, newName with
  | some currentCompanion, some currentPrimary, some newName => do
    failIf (destinationExists = true) .alreadyExists
    ofExcept (recordPairValidate currentCompanion currentPrimary)
    let primary ← ofExcept (primaryDecode currentPrimary)
    let renamed : Primary := { primary with name := newName }
    let renamedDisk ← ofExcept (primaryEncode renamed)
    persistCompanion (currentPrimary.slice 0 11) false
    barrier
    call fun operations => operations.persistPrimary.map fun persist => persist renamedDisk
    persistCompanion renamed.name true
    barrier
    refreshRegistryAfterCommit renamedDisk
  | _, _, _ => fail .invalidArgument

/-- `ios_fs_transaction_delete`. The decoders refuse null pointers. -/
def transactionDelete (currentCompanion currentPrimary : Option Slot) : Transacting ω Unit := do
  let transaction ← get
  ofExcept transaction.validateTransaction
  match currentCompanion, currentPrimary with
  | some currentCompanion, some currentPrimary => do
    ofExcept (recordPairValidate currentCompanion currentPrimary)
    let primary ← ofExcept (primaryDecode currentPrimary)
    persistCompanion primary.name false
    barrier
    call TransactionOperations.persistDeletedPair
    barrier
    if primary.firstCluster ≠ 0 then
      call fun operations => operations.releaseAllocation.map fun release => release primary.firstCluster
    else pure ()
    barrier
  | none, _ => fail .invalidArgument
  | some currentCompanion, none => do
    let _ ← ofExcept (companionDecode currentCompanion)
    fail .invalidArgument

end Transaction
end InferenceOS
