import Mathlib.Data.List.FinRange
import InferenceOS.Lib.Program
import InferenceOS.Status

/-! Handle tables, `process/handle_table.c`. The tables of all processes are one state, so that a transfer may stay in
    its table. The names of the tables, the objects and the world that retaining and releasing an object changes are
    parameters; these functions do not touch a table. Interrupts are off during each call. -/

namespace InferenceOS
open Program

abbrev handleTableCapacity : Nat := 256

/-- `ios_handle`; `IOS_INVALID_HANDLE` is 0. -/
abbrev Handle : Type := BitVec 64

/-- `enum ios_object_kind`; `unknown` is every number past the last kind. -/
inductive IosObjectKind where
  | none | process | file | directory | ipcEndpoint | window | typeCapability | diagnosticCapability | content
  | adapterCapability | unknown
  deriving DecidableEq, Repr

/-! ### `enum ios_handle_right` -/

def rightWait : BitVec 64 := 0x4
def rightSignal : BitVec 64 := 0x8
def rightDuplicate : BitVec 64 := 0x10
def rightTransfer : BitVec 64 := 0x20
def rightAdminister : BitVec 64 := 0x100
def rightAll : BitVec 64 := 0x1ff

/-- `struct ios_handle_entry`; `NULL` is `none`. -/
structure HandleEntry (ω Obj : Type) where
  object : Option Obj
  rights : BitVec 64
  generation : BitVec 64
  kind : IosObjectKind
  retain : Option (Obj → ω → ω)
  release : Option (Obj → ω → ω)

structure HandleTable (ω Obj : Type) where
  entries : Fin handleTableCapacity → HandleEntry ω Obj
  ownerTag : BitVec 32
  openCount : Nat

/-- The handle tables and the world of their objects. -/
structure HandleTables (ι ω Obj : Type) where
  tables : ι → HandleTable ω Obj
  world : ω

section Encoding

def ownerTagFromIdentity (identity : BitVec 64) : BitVec 32 :=
  let tag := (identity ^^^ (identity >>> 24) ^^^ (identity >>> 48)).setWidth 32 &&& 0x00ffffff
  if tag = 0 then 1 else tag

def initialGeneration (ownerTag : BitVec 32) : BitVec 64 := ownerTag.setWidth 64 <<< 24 ||| 1

/-- `next_generation`: the counter skips 0. -/
def nextGeneration (generation : BitVec 64) (ownerTag : BitVec 32) : BitVec 64 :=
  let counter := (generation + 1) &&& 0x00ffffff
  let counter := if counter = 0 then 1 else counter
  ownerTag.setWidth 64 <<< 24 ||| counter

def encodeHandle (index : Fin handleTableCapacity) (generation : BitVec 64) : Handle :=
  (generation &&& 0x0000ffffffffffff) <<< 16 ||| BitVec.ofNat 64 (index.1 + 1)

end Encoding

namespace HandleTable
variable {ω Obj : Type}

/-- `decode_handle`: the slot of a handle that is open. -/
def decodeHandle (table : HandleTable ω Obj) (handle : Handle) : Except IosError (Fin handleTableCapacity) :=
  let encodedSlot := (handle &&& 0xffff).toNat
  let generation := handle >>> 16 &&& 0x0000ffffffffffff
  if h : encodedSlot = 0 ∨ handleTableCapacity < encodedSlot then .error .badHandle
  else
    let index : Fin handleTableCapacity := ⟨encodedSlot - 1, by omega⟩
    if handle = 0 ∨ (table.entries index).object.isNone ∨ (table.entries index).generation ≠ generation then .error .badHandle
    else .ok index

/-- `validate_new_entry`; `out` tells whether there is a place for the handle. -/
def validateNewEntry (table : HandleTable ω Obj) (object : Option Obj) (kind : IosObjectKind) (rights : BitVec 64)
    (out : Bool) : Bool :=
  object.isSome ∧ out ∧ table.ownerTag ≠ 0 ∧ kind ≠ .none ∧ kind ≠ .unknown ∧ rights &&& ~~~rightAll = 0

def handleTableInitialize (ownerIdentity : BitVec 64) : Except IosError (HandleTable ω Obj) :=
  if ownerIdentity = 0 then .error .invalidArgument
  else
    let ownerTag := ownerTagFromIdentity ownerIdentity
    .ok ⟨fun _ => ⟨none, 0, initialGeneration ownerTag, .none, none, none⟩, ownerTag, 0⟩

/-- The first slot without an object. -/
def freeIndex (table : HandleTable ω Obj) : Option (Fin handleTableCapacity) :=
  (List.finRange handleTableCapacity).find? fun index => (table.entries index).object.isNone

/-- The table with another entry in a slot. -/
def setEntry (table : HandleTable ω Obj) (index : Fin handleTableCapacity) (entry : HandleEntry ω Obj) : HandleTable ω Obj :=
  { table with entries := Function.update table.entries index entry }

def handleTableResolve (table : HandleTable ω Obj) (handle : Handle) (expectedKind : IosObjectKind)
    (requiredRights : BitVec 64) : Except IosError Obj :=
  if expectedKind = .none ∨ requiredRights &&& ~~~rightAll ≠ 0 then .error .invalidArgument
  else do
    let index ← table.decodeHandle handle
    if (table.entries index).kind ≠ expectedKind then .error .wrongHandleType
    if (table.entries index).rights &&& requiredRights ≠ requiredRights then .error .accessDenied
    match (table.entries index).object with
    | some object => .ok object
    -- The handle would not have been accepted.
    | none => .error .badHandle

end HandleTable

namespace HandleTables
variable {ι ω Obj : Type} [DecidableEq ι]

/-- The state with another table. -/
def setTable (s : HandleTables ι ω Obj) (t : ι) (table : HandleTable ω Obj) : HandleTables ι ω Obj :=
  { s with tables := Function.update s.tables t table }

/-- Call a function on an object, when both are there. -/
def callOn (function : Option (Obj → ω → ω)) (object : Option Obj) (s : HandleTables ι ω Obj) : HandleTables ι ω Obj :=
  match function, object with
  | some function, some object => { s with world := function object s.world }
  | _, _ => s

def handleTableInsert (t : ι) (object : Option Obj) (kind : IosObjectKind) (rights : BitVec 64)
    (retain release : Option (Obj → ω → ω)) (out : Bool) : Program IosError (HandleTables ι ω Obj) Handle := do
  let s ← get
  let table := s.tables t
  failIf (table.validateNewEntry object kind rights out = false) .invalidArgument
  match table.freeIndex with
  | some index =>
    let generation := (table.entries index).generation
    modify fun s => s.setTable t { table.setEntry index ⟨object, rights, generation, kind, retain, release⟩ with
      openCount := table.openCount + 1 }
    pure (encodeHandle index generation)
  | none => fail .noSpace

def handleTableDuplicate (t : ι) (source : Handle) (reducedRights : BitVec 64) (out : Bool) :
    Program IosError (HandleTables ι ω Obj) Handle := do
  let s ← get
  let index ← ofExcept ((s.tables t).decodeHandle source)
  let entry := (s.tables t).entries index
  failIf (entry.rights &&& rightDuplicate = 0 ∨ reducedRights &&& ~~~entry.rights ≠ 0) .accessDenied
  failIf (entry.release.isSome ∧ entry.retain.isNone) .invalidState
  modify (callOn entry.retain entry.object)
  let outcome ← attempt (handleTableInsert t entry.object entry.kind reducedRights entry.retain entry.release out)
  match outcome with
  | .ok duplicate => pure duplicate
  | .error status => do
    modify (callOn entry.release entry.object)
    fail status

def handleTableClose (t : ι) (handle : Handle) : Program IosError (HandleTables ι ω Obj) Unit := do
  let s ← get
  let table := s.tables t
  let index ← ofExcept (table.decodeHandle handle)
  let entry := table.entries index
  modify fun s => s.setTable t { table.setEntry index
    ⟨none, 0, nextGeneration entry.generation table.ownerTag, .none, none, none⟩ with openCount := table.openCount - 1 }
  modify (callOn entry.release entry.object)

def handleTableTransfer (sourceTable : ι) (destinationTable : Option ι) (source : Handle) (reducedRights : BitVec 64)
    (closeSource out : Bool) : Program IosError (HandleTables ι ω Obj) Handle := do
  let s ← get
  let index ← ofExcept ((s.tables sourceTable).decodeHandle source)
  match destinationTable with
  | none => fail .invalidArgument
  | some destinationTable => do
    failIf (out = false) .invalidArgument
    let entry := (s.tables sourceTable).entries index
    failIf (entry.rights &&& rightTransfer = 0 ∨ reducedRights &&& ~~~entry.rights ≠ 0) .accessDenied
    failIf (entry.release.isSome ∧ entry.retain.isNone) .invalidState
    modify (callOn entry.retain entry.object)
    let outcome ← attempt
      (handleTableInsert destinationTable entry.object entry.kind reducedRights entry.retain entry.release out)
    match outcome with
    | .error status => do
      modify (callOn entry.release entry.object)
      fail status
    | .ok transferred => do
      if closeSource then
        let _ ← attempt (handleTableClose sourceTable source)
      pure transferred

def handleTableCloseAll (t : ι) : Program IosError (HandleTables ι ω Obj) Unit := do
  let s ← get
  if (s.tables t).ownerTag = 0 then pure ()
  else
    each (fun index => do
      let s ← get
      let entry := (s.tables t).entries index
      if entry.object.isSome then
        let _ ← attempt (handleTableClose t (encodeHandle index entry.generation))) (List.finRange handleTableCapacity)

end HandleTables
end InferenceOS
