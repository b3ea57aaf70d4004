import InferenceOS.Fs.FileService

/-! Normal forms of paths, `src/vfs/path.c`. -/

namespace InferenceOS
open Program

def pathMax : Nat := 255

def pathCapacity : Nat := pathMax + 1

def maxDirectoryLevels : Nat := 16

inductive MountLifecycle where
  | detached | active | draining
  deriving DecidableEq, Repr

/-- `struct ios_vfs_path_context`, without its mount. -/
structure PathContext where
  currentDirectoryIdentity : Nat
  mountGeneration : Nat
  currentDirectory : Text

namespace Vfs

/-! ### Normal forms -/

/-- A C string inside a buffer. -/
def cString (text : Text) : Text := text.takeWhile (· ≠ 0)

def invalidPathByte (value : UInt8) : Bool := value < 0x20 || value == 0x7f || value == ascii '\\'

/-- The output of `vfs_path_normalize` so far: the text and the lengths it had before each component. -/
structure NormalPath where
  text : Text
  starts : List Nat

def appendComponent (capacity : Nat) (path : NormalPath) (component : Text) : Except IosError NormalPath :=
  if component = [ascii '.'] then .ok path
  else if component = [ascii '.', ascii '.'] then
    match path.starts.getLast? with
    | none => .ok path
    | some start => .ok { text := path.text.take start, starts := path.starts.dropLast }
  else if maxDirectoryLevels - 1 ≤ path.starts.length then .error .outOfRange
  else if component.any invalidPathByte then .error .invalidArgument
  else
    let start := path.text.length
    let length := if start ≠ 1 then start + 1 else start
    if pathMax < length ∨ pathMax - length < component.length ∨ capacity ≤ length + component.length then
      .error .outOfRange
    else .ok
      { text := path.text ++ (if start ≠ 1 then [ascii '/'] else []) ++ component, starts := path.starts ++ [start] }

def consumePath (capacity : Nat) (path : NormalPath) (text : Text) : Except IosError NormalPath :=
  (FileService.components text).foldlM (appendComponent capacity) path

/-- `vfs_path_normalize`; a null path is `none`. -/
def pathNormalize (currentDirectory : Text) (path : Option Text) (capacity : Nat) : Except IosError Text :=
  match path with
  | none => .error .invalidArgument
  | some path => do
    let current := cString currentDirectory
    let path := cString path
    if capacity = 0 ∨ current.head? ≠ some (ascii '/') then .error .invalidArgument
    if pathMax < current.length then .error .outOfRange
    if pathMax < path.length then .error .outOfRange
    if path = [] ∨ capacity < 2 then .error .invalidArgument
    let root : NormalPath := ⟨[ascii '/'], []⟩
    let start ← if path.head? ≠ some (ascii '/') then consumePath capacity root current else .ok root
    let normal ← consumePath capacity start path
    .ok normal.text

/-! ### Resolution -/

/-- The root object of the mount. -/
def rootObject : VfsObject := ⟨rootCluster, .directory⟩

end Vfs
end InferenceOS
