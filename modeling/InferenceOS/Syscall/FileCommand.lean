import InferenceOS.Syscall.FileView
import InferenceOS.Vfs.File

/-! The text commands, `kernel/syscall/file_command.c`. -/

namespace InferenceOS
open Program

def fileCommandTextCheckChunk : Nat := 256

structure FileCommandService (μ : Type) where
  fileView : FileViewService
  pathContext : MountedContext μ

/-- The file operations `IOS_VFS_FILE_READ` and `IOS_VFS_FILE_WRITE`. -/
def vfsFileRead : Nat := 2
def vfsFileWrite : Nat := 4

/-- The callbacks of a mount that the commands go through. -/
structure CommandCallbacks (ω : Type) extends FileCallbacks ω where
  enumerate : Option (EnumerateCallback ω)

/-- The system and what the output function of `ios_file_command_cat` was called with. -/
structure Commanding (μ ρ ω : Type) where
  output : List Text
  system : VfsSystem μ ρ ω

namespace FileCommand
variable {μ ρ ω σ : Type} [DecidableEq μ] [DecidableEq ρ]

/-- A byte that `supported_text_bytes` accepts. -/
def supportedTextByte (byte : UInt8) : Bool :=
  ¬((byte < 0x20 ∨ 0x7e < byte) ∧ byte ≠ 9 ∧ byte ≠ 10 ∧ byte ≠ 13)

def supportedTextBytes (bytes : Text) : Bool := bytes.all supportedTextByte

/-- The error of an object that does not allow the operations. -/
def operationError (s : VfsSystem μ ρ ω) (resolved : ResolvedObject μ) : IosError :=
  if resolved.genericAttributes.testBit 0 ∨ (s.mounts resolved.mount).state ≠ .rw then .readOnly else .accessDenied

def resolveRegular (service : FileCommandService μ) (callbacks : CommandCallbacks ω) (displayPath : Text) (requiredOperation : Nat) :
    Program IosError (VfsSystem μ ρ ω) (ResolvedObject μ) := do
  let resolved ← FileView.fileViewResolveDisplayPath service.fileView callbacks.enumerate service.pathContext displayPath
  failIf (resolved.kind ≠ .regularFile) .invalidArgument
  let s ← get
  failIf (requiredOperation ≠ 0 ∧ resolved.allowedOperations &&& requiredOperation ≠ requiredOperation) (operationError s resolved)
  pure resolved

/-- The loops of `validate_existing_text` and `ios_file_command_cat`: `read` reads at an offset, and `output` is what is done with the
    bytes of a turn. Every turn but the last one transfers bytes, so the offset is out of range before `2 ^ 64` turns. -/
def textLoop (read : Nat → Program IosError σ (Text × Bool)) (output : Text → Program IosError σ Unit) : Nat → Nat → Program IosError σ Nat
  | 0, _ => fail .overflow
  | fuel + 1, offset => do
    let (bytes, complete) ← read offset
    failIf (supportedTextBytes bytes = false) .unexpectedFormat
    failIf (bytes.length = 0 ∧ complete = false) .protocol
    output bytes
    failIf (2 ^ 64 - 1 - bytes.length < offset) .overflow
    if complete then pure (offset + bytes.length) else textLoop read output fuel (offset + bytes.length)

/-- The loop and the check of the offset where it ends. -/
def textScan (read : Nat → Program IosError σ (Text × Bool)) (output : Text → Program IosError σ Unit) (byteSize : Nat) :
    Program IosError σ Unit := do
  let offset ← if byteSize = 0 then pure 0 else textLoop read output (2 ^ 64) 0
  failIf (offset ≠ byteSize) .protocol

/-- The read of a turn. -/
def readText (callbacks : CommandCallbacks ω) (resolved : ResolvedObject μ) (offset : Nat) :
    Program IosError (VfsSystem μ ρ ω) (Text × Bool) :=
  VfsSystem.vfsReadObject (some resolved.mount) callbacks.toFileCallbacks resolved.objectIdentity offset fileCommandTextCheckChunk

def validateExistingText (callbacks : CommandCallbacks ω) (resolved : ResolvedObject μ) : Program IosError (VfsSystem μ ρ ω) Unit :=
  textScan (readText callbacks resolved) (fun _ => pure ()) resolved.byteSize

def fileCommandWrite (service : FileCommandService μ) (callbacks : CommandCallbacks ω) (displayPath bytes : Text) :
    Program IosError (VfsSystem μ ρ ω) Unit := do
  let resolved ← resolveRegular service callbacks displayPath (vfsFileRead ||| vfsFileWrite)
  failIf (resolved.byteSize ≠ 0 ∨ supportedTextBytes bytes = false) .unexpectedFormat
  VfsSystem.vfsReplaceObject (some resolved.mount) callbacks.toFileCallbacks resolved.objectIdentity bytes

def fileCommandAppend (service : FileCommandService μ) (callbacks : CommandCallbacks ω) (displayPath bytes : Text) :
    Program IosError (VfsSystem μ ρ ω) Unit := do
  let resolved ← resolveRegular service callbacks displayPath (vfsFileRead ||| vfsFileWrite)
  failIf (supportedTextBytes bytes = false) .unexpectedFormat
  validateExistingText callbacks resolved
  VfsSystem.vfsAppendObject (some resolved.mount) callbacks.toFileCallbacks resolved.objectIdentity bytes

/-- Run a program of the system. -/
def onSystem {α : Type} (m : Program IosError (VfsSystem μ ρ ω) α) : Program IosError (Commanding μ ρ ω) α :=
  zoom Commanding.system (fun s system => { s with system }) m

/-- The call of the output function: it gets a C string. -/
def display (bytes : Text) : Program IosError (Commanding μ ρ ω) Unit :=
  if bytes.length ≠ 0 then modify fun s => { s with output := s.output ++ [Vfs.cString (bytes ++ [0])] } else pure ()

def fileCommandCat (service : FileCommandService μ) (callbacks : CommandCallbacks ω) (displayPath : Text) :
    Program IosError (Commanding μ ρ ω) Unit := do
  let resolved ← onSystem (resolveRegular service callbacks displayPath vfsFileRead)
  onSystem (validateExistingText callbacks resolved)
  textScan (fun offset => onSystem (readText callbacks resolved offset)) display resolved.byteSize

end FileCommand

/-- The callbacks of the file service. -/
def FileService.commandCallbacks : CommandCallbacks FileService := ⟨fileCallbacks, some enumerate⟩

end InferenceOS
