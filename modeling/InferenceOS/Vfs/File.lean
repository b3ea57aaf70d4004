import InferenceOS.Vfs.Mount

/-! Reading and writing objects through the mounts, `src/vfs/file.c`. -/

namespace InferenceOS
open Program

/-- The file callbacks of `struct ios_vfs_mount`. -/
structure FileCallbacks (ω : Type) where
  readObject : Option (Nat → Nat → Nat → Program IosError ω (Text × Bool))
  replaceObject : Option (Nat → Text → Program IosError ω Unit)
  appendObject : Option (Nat → Text → Program IosError ω Unit)

namespace VfsSystem
variable {μ ρ ω : Type} [DecidableEq μ] [DecidableEq ρ]

/-- A callback between the begin and the end of an operation; its error comes first. -/
def operation {α : Type} (mount : Option μ) (mutation : Bool) (f : Program IosError ω α) : Program IosError (VfsSystem μ ρ ω) α := do
  vfsMountBeginOperation mount mutation
  let status ← attempt (callback f)
  let endStatus ← attempt (vfsMountEndOperation mount)
  match status, endStatus with
  | .error status, _ => fail status
  | .ok _, .error status => fail status
  | .ok a, .ok () => pure a

/-- `vfs_read_object`: the bytes and `complete`. -/
def vfsReadObject (mount : Option μ) (callbacks : FileCallbacks ω) (objectIdentity offset capacity : Nat) :
    Program IosError (VfsSystem μ ρ ω) (Text × Bool) := do
  failIf (mount.isNone ∨ objectIdentity = 0 ∨ capacity = 0) .invalidArgument
  match callbacks.readObject with
  | none => fail .notSupported
  | some readObject => do
    let (bytes, complete) ← operation mount false (readObject objectIdentity offset capacity)
    failIf (capacity < bytes.length ∨ (complete = false ∧ bytes.length = 0)) .protocol
    pure (bytes, complete)

/-- The body that `vfs_replace_object` and `vfs_append_object` share. -/
def mutateObject (mount : Option μ) (function : Option (Nat → Text → Program IosError ω Unit)) (objectIdentity : Nat) (bytes : Text) :
    Program IosError (VfsSystem μ ρ ω) Unit := do
  failIf (mount.isNone ∨ objectIdentity = 0) .invalidArgument
  match function with
  | none => fail .notSupported
  | some function => operation mount true (function objectIdentity bytes)

def vfsReplaceObject (mount : Option μ) (callbacks : FileCallbacks ω) (objectIdentity : Nat) (bytes : Text) :
    Program IosError (VfsSystem μ ρ ω) Unit := mutateObject mount callbacks.replaceObject objectIdentity bytes

def vfsAppendObject (mount : Option μ) (callbacks : FileCallbacks ω) (objectIdentity : Nat) (bytes : Text) :
    Program IosError (VfsSystem μ ρ ω) Unit := mutateObject mount callbacks.appendObject objectIdentity bytes

end VfsSystem

/-- The file callbacks of the file service. -/
def FileService.fileCallbacks : FileCallbacks FileService := ⟨some readObject, some replaceObject, some appendObject⟩

end InferenceOS
