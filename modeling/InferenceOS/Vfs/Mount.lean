import InferenceOS.Vfs.Path

/-! Mounting and unmounting, `src/vfs/mount.c` and `src/vfs/unmount.c`, and the path functions of `src/vfs/path.c` over a
    registry. `μ` are the mounts, `ρ` the root objects that they point to, and the callbacks of a mount act on what lies
    behind the driver, of type `ω`. -/

namespace InferenceOS
open Program

def vfsMaxMounts : Nat := 8

/-- `struct ios_vfs_object` with its reference count. -/
structure CountedObject extends VfsObject where
  referenceCount : Nat
  deriving DecidableEq, Repr

/-- `struct ios_vfs_mount`: the pointers that are only compared with `NULL` are flags, and the callbacks carry their
    contexts. -/
structure MountPoint (ρ ω : Type) where
  driverName : Option Text
  hasDriverContext : Bool
  hasDevice : Bool
  root : Option ρ
  lookup : Option (Nat → Text → Program IosError ω CountedObject)
  state : MountState
  unmountSync : Option (Program IosError ω Unit)
  unmountInvalidate : Option (ω → ω)
  activeOperations : Nat
  generation : Nat
  lifecycle : MountLifecycle
  mounted : Bool

/-- `struct ios_vfs_mount_registry`; the entries from `count` on are `NULL`. -/
structure MountRegistry (μ : Type) where
  mounts : List μ
  root : Option μ
  nextGeneration : Nat

/-- `struct ios_vfs_path_context` with its mount. -/
structure MountedContext (μ : Type) extends PathContext where
  mount : Option μ

/-- A registry with the mounts, their root objects and what lies behind their drivers. -/
@[ext] structure VfsSystem (μ ρ ω : Type) where
  registry : MountRegistry μ
  mounts : μ → MountPoint ρ ω
  objects : ρ → CountedObject
  world : ω

def vfsMountRegistryInitialize {μ : Type} : MountRegistry μ := ⟨[], none, 1⟩

namespace VfsSystem
variable {μ ρ ω : Type} [DecidableEq μ] [DecidableEq ρ]

/-- The system with another mount. -/
def setMount (s : VfsSystem μ ρ ω) (m : μ) (mount : MountPoint ρ ω) : VfsSystem μ ρ ω :=
  { s with mounts := Function.update s.mounts m mount }

/-- The system with another reference count of a root object. -/
def setReferences (s : VfsSystem μ ρ ω) (o : ρ) (referenceCount : Nat) : VfsSystem μ ρ ω :=
  { s with objects := Function.update s.objects o { s.objects o with referenceCount } }

/-- The reference count of the root object of a mount. -/
def rootReferences (s : VfsSystem μ ρ ω) (m : μ) : Nat := (s.mounts m).root.elim 0 fun o => (s.objects o).referenceCount

def vfsMountRoot (mount : Option μ) (path : Option Text) : Program IosError (VfsSystem μ ρ ω) Unit := do
  let s ← get
  match mount, path with
  | some m, some path => do
    let point := s.mounts m
    failIf (Vfs.cString path ≠ [ascii '/'] ∨ point.driverName.isNone ∨ point.hasDriverContext = false ∨
      point.hasDevice = false ∨ point.root.isNone ∨ point.state = .rejected) .invalidArgument
    failIf (s.registry.root.isSome ∨ point.mounted = true) .alreadyExists
    failIf (vfsMaxMounts ≤ s.registry.mounts.length) .noSpace
    failIf (s.registry.nextGeneration = 2 ^ 32 - 1) .overflow
    modify fun s => { s.setMount m { point with
        generation := s.registry.nextGeneration, activeOperations := 0, lifecycle := .active, mounted := true } with
      registry := ⟨s.registry.mounts ++ [m], some m, s.registry.nextGeneration + 1⟩ }
  | _, _ => fail .invalidArgument

def vfsMountBeginOperation (mount : Option μ) (mutation : Bool) : Program IosError (VfsSystem μ ρ ω) Unit := do
  let s ← get
  match mount with
  | none => fail .invalidState
  | some m => do
    let point := s.mounts m
    failIf (point.mounted = false) .invalidState
    failIf (point.lifecycle = .draining) .busy
    failIf (point.lifecycle ≠ .active) .invalidState
    failIf (mutation = true ∧ point.state ≠ .rw) .readOnly
    failIf (point.activeOperations = 2 ^ 32 - 1) .overflow
    modify fun s => s.setMount m { point with activeOperations := point.activeOperations + 1 }
    modify fun s => point.root.elim s fun o => s.setReferences o (((s.objects o).referenceCount + 1) % 2 ^ 32)

def vfsMountEndOperation (mount : Option μ) : Program IosError (VfsSystem μ ρ ω) Unit := do
  let s ← get
  match mount with
  | none => fail .invalidState
  | some m => do
    let point := s.mounts m
    failIf (point.mounted = false ∨ (point.lifecycle ≠ .active ∧ point.lifecycle ≠ .draining) ∨
      point.activeOperations = 0 ∨ s.rootReferences m = 0) .invalidState
    modify fun s => s.setMount m { point with activeOperations := point.activeOperations - 1 }
    modify fun s => point.root.elim s fun o => s.setReferences o ((s.objects o).referenceCount - 1)

/-- `vfs_mount_configure_unmount`; `hasContext` tells whether the context is there. -/
def vfsMountConfigureUnmount (mount : Option μ) (hasContext : Bool) (sync : Option (Program IosError ω Unit))
    (invalidate : Option (ω → ω)) : Program IosError (VfsSystem μ ρ ω) Unit := do
  let s ← get
  match mount with
  | none => fail .invalidArgument
  | some m => do
    let point := s.mounts m
    failIf (hasContext = false ∨ sync.isNone ∨ invalidate.isNone) .invalidArgument
    failIf (point.lifecycle = .draining) .busy
    modify fun s => s.setMount m { point with unmountSync := sync, unmountInvalidate := invalidate }

/-- Run a callback of a mount. -/
def callback {α : Type} (f : Program IosError ω α) : Program IosError (VfsSystem μ ρ ω) α :=
  zoom VfsSystem.world (fun s world => { s with world }) f

/-- `vfs_enumerate`; `enumerate` is the callback of the mount, and `out` tells whether there are places for the results. -/
def vfsEnumerate (mount : Option μ) (enumerate : Option (Nat → Nat → Nat → Program IosError ω (List FileService.ListedEntry × Nat))) (out : Bool)
    (directoryIdentity continuation capacity : Nat) : Program IosError (VfsSystem μ ρ ω) (List FileService.ListedEntry × Nat) := do
  failIf (mount.isNone ∨ directoryIdentity = 0 ∨ capacity = 0 ∨ out = false) .invalidArgument
  match enumerate with
  | none => fail .notSupported
  | some enumerate => do
    vfsMountBeginOperation mount false
    let status ← attempt (callback (enumerate directoryIdentity continuation capacity))
    let endStatus ← attempt (vfsMountEndOperation mount)
    match status, endStatus with
    | .error status, _ => fail status
    | .ok _, .error status => fail status
    | .ok (entries, next), .ok () => do
      failIf (capacity < entries.length ∨ (next ≠ 0 ∧ entries.length = 0)) .protocol
      pure (entries, next)

def vfsUnmountRoot : Program IosError (VfsSystem μ ρ ω) Unit := do
  let s ← get
  match s.registry.root with
  | none => fail .notFound
  | some m => do
    let point := s.mounts m
    failIf (point.mounted = false ∨ point.root.isNone ∨ (point.lifecycle ≠ .active ∧ point.lifecycle ≠ .draining)) .invalidState
    modify fun s => s.setMount m { point with lifecycle := .draining }
    failIf (point.activeOperations ≠ 0 ∨ s.rootReferences m ≠ 0) .busy
    let status ← attempt (point.unmountSync.elim (pure ()) callback)
    match status with
    | .error status => do
      modify fun s => s.setMount m { s.mounts m with lifecycle := .active }
      fail status
    | .ok () => do
      modify fun s => point.unmountInvalidate.elim s fun invalidate => { s with world := invalidate s.world }
      modify fun s => { s.setMount m { s.mounts m with mounted := false, lifecycle := .detached } with
        registry := { s.registry with root := none, mounts := [] } }

/-! ### Paths -/

/-- `validate_context`: the mount of the context. -/
def validateContext (s : VfsSystem μ ρ ω) (context : MountedContext μ) : Except IosError μ :=
  match context.mount with
  | none => .error .invalidState
  | some m =>
    let point := s.mounts m
    if point.root.isNone ∨ point.mounted = false ∨ point.lifecycle ≠ .active ∨ context.mountGeneration ≠ point.generation ∨
        context.currentDirectoryIdentity = 0 ∨ (Vfs.cString context.currentDirectory).head? ≠ some (ascii '/') then
      .error .invalidState
    else .ok m

def vfsPathContextInitialize (mount : Option μ) : Program IosError (VfsSystem μ ρ ω) (MountedContext μ) := do
  let s ← get
  match mount with
  | none => fail .invalidArgument
  | some m => do
    let point := s.mounts m
    match point.root with
    | none => fail .invalidArgument
    | some o => do
      failIf (point.mounted = false ∨ point.lifecycle ≠ .active ∨ (s.objects o).identity = 0 ∨
        (s.objects o).kind ≠ .directory) .invalidArgument
      pure ⟨⟨(s.objects o).identity, point.generation, [ascii '/', 0]⟩, some m⟩

/-- The loop of `resolve_normalized` over the components of a normal path. -/
def resolveFrom (lookup : Nat → Text → Program IosError ω CountedObject) (current : CountedObject) :
    List Text → Program IosError ω CountedObject
  | [] => pure current
  | component :: rest => do
    failIf (current.kind ≠ .directory) .notFound
    let next ← lookup current.identity component
    failIf (next.identity = 0) .protocol
    resolveFrom lookup next rest

def resolveNormalized (m : μ) (normalized : Text) : Program IosError (VfsSystem μ ρ ω) CountedObject := do
  let s ← get
  let point := s.mounts m
  match point.root with
  -- A context without a root object was refused.
  | none => fail .invalidState
  | some o => do
    let components := FileService.components normalized
    if components = [] then pure (s.objects o)
    else
      match point.lookup with
      | none => fail .notSupported
      | some lookup => callback (resolveFrom lookup (s.objects o) components)

/-- `vfs_path_resolve`; `out` tells whether there is a place for the object. -/
def vfsPathResolve (context : Option (MountedContext μ)) (path : Option Text) (out : Bool) :
    Program IosError (VfsSystem μ ρ ω) CountedObject := do
  failIf (out = false) .invalidArgument
  let s ← get
  match context with
  | none => fail .invalidState
  | some context => do
    let m ← ofExcept (s.validateContext context)
    let normalized ← ofExcept (Vfs.pathNormalize context.currentDirectory path pathCapacity)
    vfsMountBeginOperation (some m) false
    let status ← attempt (resolveNormalized m normalized)
    let endStatus ← attempt (vfsMountEndOperation (some m))
    match status, endStatus with
    | .error status, _ => fail status
    | .ok _, .error status => fail status
    | .ok object, .ok () => pure object

/-- `vfs_path_set_current`: the context afterwards. -/
def vfsPathSetCurrent (context : Option (MountedContext μ)) (path : Option Text) : Program IosError (VfsSystem μ ρ ω) (MountedContext μ) := do
  let s ← get
  match context with
  | none => fail .invalidState
  | some context => do
    let _ ← ofExcept (s.validateContext context)
    let normalized ← ofExcept (Vfs.pathNormalize context.currentDirectory path pathCapacity)
    let object ← vfsPathResolve (some context) (some normalized) true
    failIf (object.kind ≠ .directory) .invalidArgument
    -- The bytes behind the new end stay.
    pure { context with
      currentDirectory := normalized ++ 0 :: context.currentDirectory.drop (normalized.length + 1)
      currentDirectoryIdentity := object.identity }

end VfsSystem

/-- `ios_fs_file_service_lookup` as the callback of a mount. -/
def FileService.mountedLookup (directoryIdentity : Nat) (component : Text) : Program IosError FileService CountedObject := do
  let object ← FileService.lookup directoryIdentity component
  pure ⟨object, 0⟩

end InferenceOS
