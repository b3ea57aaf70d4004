import InferenceOS.Kernel.TypeCatalog
import InferenceOS.Shell.DisplaySafe
import InferenceOS.Shell.Service
import InferenceOS.Vfs.Mount

/-! The file views, `kernel/syscall/file_view.c`: pages of a directory for the shell, and paths whose components are display
    labels. The mounts are those of the registry, and `enumerate` is the enumeration callback of the mount. -/

namespace InferenceOS
open Program FileService

def fileViewDirectoryCapacity : Nat := 64

def vfsDisplayNameCapacity : Nat := 64

/-- `struct ios_file_view_service`; its registry is that of the system, and every snapshot fills its arrays anew. -/
structure FileViewService where
  typeCatalog : TypeCatalog
  genericFileCapability : Nat

structure ResolvedObject (μ : Type) where
  mount : μ
  objectIdentity : Nat
  parentIdentity : Nat
  internalTypeIdentity : Nat
  byteSize : Nat
  allowedOperations : Nat
  genericAttributes : Nat
  kind : ObjectKind

/-- The enumeration callback of a mount. -/
abbrev EnumerateCallback (ω : Type) : Type := Nat → Nat → Nat → Program IosError ω (List ListedEntry × Nat)

namespace FileView
variable {μ ρ ω : Type} [DecidableEq μ] [DecidableEq ρ]

def validateVfsEntry (entry : ListedEntry) : Except IosError Unit :=
  let length := (Vfs.cString entry.displayBaseName).length
  if length = 0 ∨ vfsDisplayNameCapacity ≤ length ∨ entry.objectIdentity = 0 ∨ entry.allowedOperations / 2 ^ 6 ≠ 0 ∨
      entry.genericAttributes / 2 ≠ 0 then .error .protocol
  else if entry.kind = .regularFile ∧ (entry.internalTypeIdentity = 0 ∨ entry.typePrefilter = 0) then .error .protocol
  else .ok ()

/-- The bytes of a type identity, the most significant first. -/
def identityBytes (identity : Nat) : Text := (List.range 8).map fun index => .ofNat (identity / 256 ^ (7 - index))

def typeIdentityPrefilter (identity : Nat) : Nat :=
  (((identityBytes identity).dropWhile (· == 0)).foldl (fun hash byte => (hash ^^^ byte.toUInt32) * 0x01000193)
    (0x811c9dc5 : UInt32)).toNat

/-- The kind of an object in a display-safe entry. -/
def displayKind : ObjectKind → Nat
  | .directory => displaySafeDirectory
  | .regularFile => displaySafeRegularFile

/-- The capability that `make_safe_entry` gives an entry: the one asked for, or that of a file's type in the catalog. -/
def entryCapability (service : FileViewService) (source : ListedEntry) (typeCapability : Nat) : Except IosError Nat :=
  if source.kind = .regularFile ∧ typeCapability = invalidTypeIconCapability then
    match service.typeCatalog.typeCatalogFindCapability source.internalTypeIdentity with
    | .ok capability => .ok capability
    | .error status => if status = .notFound then .ok service.genericFileCapability else .error status
  else .ok typeCapability

def makeSafeEntry (service : FileViewService) (source : ListedEntry) (typeCapability : Nat) : Except IosError DisplaySafeEntry := do
  let typeCapability ← entryCapability service source typeCapability
  DisplaySafe.displaySafeEntryConvert
    { baseName := fun i => source.displayBaseName.getD i 0
      objectHandle := source.objectIdentity
      typeIconCapability := if source.kind = .directory then invalidTypeIconCapability else typeCapability
      byteSize := source.byteSize
      allowedOperations := source.allowedOperations
      genericAttributes := source.genericAttributes
      objectKind := displayKind source.kind }

/-! ### Pages -/

/-- The reply of a dispatch and the system. -/
structure Dispatching (μ ρ ω : Type) where
  reply : FileViewReply
  system : VfsSystem μ ρ ω

/-- Run a program of the system. -/
def onSystem {α : Type} (m : Program IosError (VfsSystem μ ρ ω) α) : Program IosError (Dispatching μ ρ ω) α :=
  zoom Dispatching.system (fun s system => { s with system }) m

/-- Put an entry at the end of a reply. -/
def FileViewReply.place (reply : FileViewReply) (entry : DisplaySafeEntry) : FileViewReply :=
  { reply with entries := fun i => if i.1 = reply.itemCount then entry else reply.entries i }

/-- Whether the candidate is left out of a view. -/
def filteredOut (operation : Nat) (requestedType requestedPrefilter : Nat) (candidate : ListedEntry) : Bool :=
  (operation = ShellOperation.search.number ∧ candidate.kind = .directory) ∨
    (candidate.kind ≠ .directory ∧ operation ≠ ShellOperation.directoryView.number ∧
      (candidate.typePrefilter ≠ requestedPrefilter ∨ candidate.internalTypeIdentity ≠ requestedType))

/-- The body of the loop of `ios_file_view_dispatch`. -/
def viewCandidate (service : FileViewService) (operation typeIconCapability requestedType requestedPrefilter : Nat)
    (candidate : ListedEntry) : Program IosError (Dispatching μ ρ ω) Unit := do
  ofExcept (validateVfsEntry candidate)
  if filteredOut operation requestedType requestedPrefilter candidate then pure ()
  else
    match makeSafeEntry service candidate typeIconCapability with
    | .error status => do
      modify fun s => { s with reply := FileViewReply.place s.reply DisplaySafeEntry.zero }
      fail status
    | .ok entry =>
      modify fun s => { s with reply := { FileViewReply.place s.reply entry with itemCount := s.reply.itemCount + 1 } }

/-- The type that a view is for. -/
def requestedType (service : FileViewService) (operation typeIconCapability : Nat) : Except IosError Nat :=
  if operation = ShellOperation.directoryView.number then .ok 0
  else service.typeCatalog.typeCatalogResolveIdentity typeIconCapability

def fileViewDispatch (service : FileViewService) (enumerate : Option (EnumerateCallback ω))
    (callerProcessId callerApplicationIdentity operation : Nat) (request : FileViewRequest) :
    Program IosError (Dispatching μ ρ ω) Unit := do
  failIf (callerProcessId = 0 ∨ callerApplicationIdentity = 0 ∨ Shell.shellOperationIsFileView operation = false ∨
    request.maximumItems = 0 ∨ shellFileViewReplyCapacity < request.maximumItems) .invalidArgument
  let requestedType ← ofExcept (requestedType service operation request.typeIconCapability)
  let requestedPrefilter := if operation = ShellOperation.directoryView.number then 0 else typeIdentityPrefilter requestedType
  let s ← get
  match s.system.registry.root with
  | none => fail .notFound
  | some mount => do
    let (candidates, next) ← onSystem (VfsSystem.vfsEnumerate (some mount) enumerate true request.directoryHandle
      request.continuation request.maximumItems)
    modify fun s => { s with reply := { s.reply with itemCount := 0, continuation := next } }
    each (viewCandidate service operation request.typeIconCapability requestedType requestedPrefilter) candidates

/-- `ios_file_view_dispatch` as the shell's function. -/
def fileViewFunction (service : FileViewService) (enumerate : Option (EnumerateCallback ω)) :
    FileViewDispatch (VfsSystem μ ρ ω) := fun process application operation request reply system =>
  let run := fileViewDispatch service enumerate process application operation request ⟨reply, system⟩
  (run.1, run.2.reply, run.2.system)

/-! ### Display paths -/

/-- `snapshot_directory`: the candidates and their display entries. -/
def snapshotDirectory (service : FileViewService) (enumerate : Option (EnumerateCallback ω)) (mount : μ) (directoryIdentity : Nat) :
    Program IosError (VfsSystem μ ρ ω) (List ListedEntry × List DisplaySafeEntry) := do
  let (candidates, continuation) ← VfsSystem.vfsEnumerate (some mount) enumerate true directoryIdentity 0 fileViewDirectoryCapacity
  failIf (fileViewDirectoryCapacity < candidates.length) .protocol
  failIf (continuation ≠ 0) .noSpace
  let entries ← ofExcept (candidates.mapM fun candidate => do
    validateVfsEntry candidate
    makeSafeEntry service candidate invalidTypeIconCapability)
  let (status, labels) := DisplaySafe.displaySafeEntriesDisambiguate fileViewDirectoryCapacity entries
  ofExcept status
  pure (candidates, labels)

/-- The folding of a byte in `display_component_equal`. -/
def foldByte (byte : UInt8) : UInt8 := if ascii 'a' ≤ byte ∧ byte ≤ ascii 'z' then byte - (ascii 'a' - ascii 'A') else byte

def displayComponentEqual (left right : Text) : Bool := left.length = right.length ∧ left.map foldByte = right.map foldByte

/-- The search of `resolve_normalized_display_path` among the entries of a snapshot. -/
def selectFrom (component : Text) (selected : Option ListedEntry) : List (ListedEntry × DisplaySafeEntry) → Except IosError (Option ListedEntry)
  | [] => .ok selected
  | (candidate, entry) :: rest =>
    if displayComponentEqual (DisplaySafe.nameOf entry) component then
      if selected.isSome then .error .corrupt else selectFrom component (some candidate) rest
    else selectFrom component selected rest

/-- The loop of `resolve_normalized_display_path` over the components of a normal path. -/
def resolveDisplayFrom (service : FileViewService) (enumerate : Option (EnumerateCallback ω)) (mount : μ) (current : Nat)
    (resolved : ResolvedObject μ) : List Text → Program IosError (VfsSystem μ ρ ω) (ResolvedObject μ)
  | [] => pure resolved
  | component :: rest => do
    let (candidates, entries) ← snapshotDirectory service enumerate mount current
    match ← ofExcept (selectFrom component none (candidates.zip entries)) with
    | none => fail .notFound
    | some candidate => do
      failIf (rest ≠ [] ∧ candidate.kind ≠ .directory) .notFound
      resolveDisplayFrom service enumerate mount candidate.objectIdentity
        { mount := mount
          objectIdentity := candidate.objectIdentity
          parentIdentity := current
          internalTypeIdentity := candidate.internalTypeIdentity
          byteSize := candidate.byteSize
          allowedOperations := candidate.allowedOperations
          genericAttributes := candidate.genericAttributes
          kind := candidate.kind } rest

/-- The object of the root directory. -/
def rootResolved (mount : μ) (identity : Nat) : ResolvedObject μ :=
  { mount := mount
    objectIdentity := identity
    parentIdentity := identity
    internalTypeIdentity := 0
    byteSize := 0
    allowedOperations := 1 + 2 + 32
    genericAttributes := 0
    kind := .directory }

def resolveNormalizedDisplayPath (service : FileViewService) (enumerate : Option (EnumerateCallback ω)) (mount : μ) (normalized : Text) :
    Program IosError (VfsSystem μ ρ ω) (ResolvedObject μ) := do
  let s ← get
  match (s.mounts mount).root with
  -- A mounted root has its object.
  | none => fail .invalidState
  | some object =>
    resolveDisplayFrom service enumerate mount (s.objects object).identity (rootResolved mount (s.objects object).identity)
      (components normalized)

def fileViewResolveDisplayPath (service : FileViewService) (enumerate : Option (EnumerateCallback ω)) (context : MountedContext μ)
    (path : Text) : Program IosError (VfsSystem μ ρ ω) (ResolvedObject μ) := do
  let s ← get
  match s.registry.root with
  | none => fail .invalidState
  | some mount => do
    failIf (context.mount ≠ some mount ∨ context.mountGeneration ≠ (s.mounts mount).generation) .invalidState
    let normalized ← ofExcept (Vfs.pathNormalize context.currentDirectory (some path) pathCapacity)
    resolveNormalizedDisplayPath service enumerate mount normalized

/-- `ios_file_view_list_directory_path`: the display entries. -/
def fileViewListDirectoryPath (service : FileViewService) (enumerate : Option (EnumerateCallback ω)) (context : MountedContext μ)
    (path : Text) (capacity : Nat) : Program IosError (VfsSystem μ ρ ω) (List DisplaySafeEntry) := do
  failIf (capacity = 0) .invalidArgument
  let s ← get
  failIf (context.mount ≠ s.registry.root) .invalidArgument
  let directory ← VfsSystem.vfsPathResolve (some context) (some path) true
  failIf (directory.kind ≠ .directory) .invalidArgument
  match context.mount with
  -- Resolving refused a context without a mount.
  | none => fail .invalidState
  | some mount => do
    let (_, entries) ← snapshotDirectory service enumerate mount directory.identity
    failIf (capacity < entries.length) .noSpace
    pure entries

end FileView
end InferenceOS
