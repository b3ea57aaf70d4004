import InferenceOS.Vfs.Path

/-! `vfs_path_normalize` of `src/vfs/path.c` on the bytes of its buffers. -/

namespace InferenceOS
open Program

/-- The buffer that `vfs_path_normalize` writes, the length of its text and the offsets at which the components begin.
    `stored` keeps every offset written. -/
structure PathBuffer where
  bytes : Nat → UInt8
  outputLength : Nat
  starts : List Nat
  stored : List Nat

/-- The programs of the normalization. -/
abbrev Normalizing (α : Type) : Type := Program IosError PathBuffer α

namespace Normalizing
open Vfs

/-- `normalized[offset] = value`. -/
def store (offset : Nat) (value : UInt8) : Normalizing Unit :=
  modify fun b => { b with bytes := Function.update b.bytes offset value, stored := offset :: b.stored }

/-- The loop of `path_length`. -/
def lengthFrom (path : Nat → UInt8) : Nat → Nat → Except IosError Nat
  | 0, _ => .error .outOfRange
  | rounds + 1, index => if path index = 0 then .ok index else lengthFrom path rounds (index + 1)

def pathLength (path : Nat → UInt8) : Except IosError Nat := lengthFrom path (pathMax + 1) 0

/-- `if (start != 1) normalized[start] = '/'`. -/
def separate (start : Nat) : Normalizing Unit := if start ≠ 1 then store start (ascii '/') else pure ()

/-- The end of `append_component`: the separator, the bytes of the component and the zero byte behind them. -/
def write (component : Nat → UInt8) (start outputLength length : Nat) : Normalizing Unit := do
  modify fun b => { b with starts := b.starts ++ [start] }
  separate start
  each (fun index => store (outputLength + index) (component index)) (List.range length)
  modify fun b => { b with outputLength := outputLength + length }
  store (outputLength + length) 0

def appendComponent (component : Nat → UInt8) (length capacity : Nat) : Normalizing Unit :=
  if length = 1 ∧ component 0 = ascii '.' then pure ()
  else if length = 2 ∧ component 0 = ascii '.' ∧ component 1 = ascii '.' then do
    let b ← get
    match b.starts.getLast? with
    | none => pure ()
    | some start => do
      modify fun b => { b with outputLength := start, starts := b.starts.dropLast }
      store start 0
  else do
    let b ← get
    failIf (maxDirectoryLevels - 1 ≤ b.starts.length) .outOfRange
    failIf (∃ index < length, invalidPathByte (component index) = true) .invalidArgument
    let start := b.outputLength
    let outputLength := if start ≠ 1 then start + 1 else start
    failIf (pathMax < outputLength ∨ pathMax - outputLength < length ∨ capacity ≤ outputLength + length) .outOfRange
    write component start outputLength length

/-- `while (cursor < length && test(path[cursor])) ++cursor`, with `length - cursor` rounds. -/
def skip (test : UInt8 → Bool) (path : Nat → UInt8) : Nat → Nat → Nat
  | 0, cursor => cursor
  | rounds + 1, cursor => if test (path cursor) then skip test path rounds (cursor + 1) else cursor

/-- The loop of `consume_path`; each round passes at least one byte. -/
def consumeFrom (path : Nat → UInt8) (length capacity : Nat) : Nat → Nat → Normalizing Unit
  | 0, _ => pure ()
  | rounds + 1, cursor =>
    if cursor < length then do
      let first := skip (· = ascii '/') path (length - cursor) cursor
      let last := skip (· ≠ ascii '/') path (length - first) first
      if last ≠ first then appendComponent (fun index => path (first + index)) (last - first) capacity else pure ()
      consumeFrom path length capacity rounds last
    else pure ()

def consumePath (path : Nat → UInt8) (length capacity : Nat) : Normalizing Unit := consumeFrom path length capacity length 0

/-- `vfs_path_normalize` with an output buffer; a null path is `none`. -/
def vfsPathNormalize (currentDirectory path : Option (Nat → UInt8)) (capacity : Nat) : Normalizing Unit := do
  failIf (capacity = 0) .invalidArgument
  store 0 0
  match currentDirectory, path with
  | some current, some path => do
    failIf (current 0 ≠ ascii '/') .invalidArgument
    let currentLength ← ofExcept (pathLength current)
    let pathSize ← ofExcept (pathLength path)
    failIf (pathSize = 0 ∨ capacity < 2) .invalidArgument
    modify fun b => { b with outputLength := 1, starts := [] }
    store 0 (ascii '/')
    store 1 0
    let status ← attempt (do
      if path 0 ≠ ascii '/' then consumePath current currentLength capacity else pure ()
      consumePath path pathSize capacity)
    match status with
    | .ok () => pure ()
    | .error status => do
      store 0 0
      fail status
  | _, _ => fail .invalidArgument

end Normalizing
end InferenceOS
