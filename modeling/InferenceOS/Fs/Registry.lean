import InferenceOS.Fs.Records
import InferenceOS.Lib.Program

/-! The extension registry, `registry_record.c` and `registry.c`: records that tell where a file of each extension was
    last committed. The pointers that the functions are given are not null. -/

namespace InferenceOS
open Program

def registryRecordType : UInt8 := 0xe1

/-- `struct ios_fs_registry_record`; `canonical_extension` has its length. -/
structure RegistryRecord where
  active : Bool
  canonicalExtension : Text
  extensionHashText : Bytes 8
  lastDirectoryCluster : UInt32
  lastDirectorySlot : UInt16
  updateGeneration : UInt16

/-- `memset` of a record to 0. -/
def RegistryRecord.zero : RegistryRecord := ⟨false, [], Bytes.zero, 0, 0, 0⟩

inductive RegistryHealth where
  | disabled | healthy | stale | full | corrupt | rebuilding
  deriving DecidableEq, Repr

structure RegistrySourceEntry where
  companion : Slot
  primary : Slot
  directoryCluster : UInt32
  primarySlot : UInt16

/-- `struct ios_fs_registry`; its capacity is the number of its records. -/
structure Registry where
  records : List Slot
  enabled : Bool
  health : RegistryHealth

/-! ### Records -/

def validExtension (extension : Text) : Bool := extension.length ≤ 3 ∧ extension.all supportedNameByte

def validDiskExtension (disk : Slot) : Bool :=
  let length := (disk.byte 3).toNat
  length ≤ 3 ∧ ((disk.slice 8 3).toList.take length).all supportedNameByte ∧
    ((disk.slice 8 3).toList.drop length).all (· == ascii ' ')

def registryRecordCrc (disk : Slot) : UInt32 := crc32IsoHdlc (disk.put 28 (Bytes.zero : Bytes 4)).toList

/-- The bytes of a registry record before its checksum. -/
def registryRecordBody (value : RegistryRecord) : Slot :=
  Bytes.zero.put 0 (Bytes.ofList 5 [registryRecordType, 1, if value.active then 1 else 0, .ofNat value.canonicalExtension.length, 1])
    |>.put 8 (fun i : Fin 3 => value.canonicalExtension.getD i.1 (ascii ' '))
    |>.put 12 (hashText (fnv1a32 value.canonicalExtension))
    |>.put 20 (Bytes.ofNat 4 value.lastDirectoryCluster.toNat)
    |>.put 24 (Bytes.ofNat 2 value.lastDirectorySlot.toNat)
    |>.put 26 (Bytes.ofNat 2 value.updateGeneration.toNat)

def registryRecordEncode (value : RegistryRecord) : Except IosError Slot :=
  if validExtension value.canonicalExtension then
    let disk := registryRecordBody value
    .ok (disk.put 28 (Bytes.ofNat 4 (registryRecordCrc disk).toNat))
  else .error .invalidArgument

def registryRecordDecode (disk : Slot) : Except IosError RegistryRecord := do
  if disk.byte 0 ≠ registryRecordType then .error .corrupt
  if disk.byte 1 ≠ 1 then .error .unsupportedVersion
  if (registryRecordCrc disk).toNat ≠ disk.toNat 28 4 ∨ disk.byte 2 &&& 0xfe ≠ 0 ∨ disk.byte 4 ≠ 1 ∨
      disk.slice 5 3 ≠ Bytes.zero ∨ disk.byte 11 ≠ 0 ∨ !validDiskExtension disk then .error .corrupt
  let extension := (disk.slice 8 3).toList.take (disk.byte 3).toNat
  if disk.slice 12 8 ≠ hashText (fnv1a32 extension) then .error .corrupt
  .ok
    { active := disk.byte 2 &&& 1 != 0
      canonicalExtension := extension
      extensionHashText := disk.slice 12 8
      lastDirectoryCluster := .ofNat (disk.toNat 20 4)
      lastDirectorySlot := .ofNat (disk.toNat 24 2)
      updateGeneration := .ofNat (disk.toNat 26 2) }

def emptySlot (record : Slot) : Bool := record = Bytes.zero

def sourceExtension (entry : RegistrySourceEntry) : Except IosError Text := do
  recordPairValidate entry.companion entry.primary
  let primary ← primaryDecode entry.primary
  nameExtension primary.name

/-! ### A new registry -/

/-- The inner loop of `ios_fs_registry_initialize`: an earlier record cannot be read, or is active for the extension. -/
def conflictsWith (extension : Text) : List Slot → Bool
  | [] => false
  | prior :: rest =>
    if emptySlot prior then conflictsWith extension rest
    else
      match registryRecordDecode prior with
      | .error _ => true
      | .ok previous => if previous.active ∧ extension = previous.canonicalExtension then true else conflictsWith extension rest

/-- The loop of `ios_fs_registry_initialize` behind the records `before`. -/
def initialHealthFrom (before : List Slot) : List Slot → RegistryHealth
  | [] => .healthy
  | record :: rest =>
    if emptySlot record then initialHealthFrom (before ++ [record]) rest
    else
      match registryRecordDecode record with
      | .error _ => .corrupt
      | .ok current =>
        if current.active ∧ conflictsWith current.canonicalExtension before then .corrupt
        else initialHealthFrom (before ++ [record]) rest

def registryInitialize (records : List Slot) (enabled : Bool) : Except IosError Registry :=
  if records.length = 0 ∨ (2 ^ 64 - 1) / 32 < records.length then .error .invalidArgument
  else .ok { records, enabled, health := if enabled then initialHealthFrom [] records else .disabled }

/-! ### Searching -/

/-- The programs of the registry. -/
abbrev Registering (α : Type) : Type := Program IosError Registry α

namespace Registry

/-- `registry->health = health`. -/
def setHealth (health : RegistryHealth) : Registering Unit := modify fun registry => { registry with health }

/-- The loop of `find_active_record` over the records from `index` on. -/
def findActiveFrom (extension : Text) (index : Nat) (found : Option (Nat × RegistryRecord)) :
    List Slot → Except IosError (Option (Nat × RegistryRecord))
  | [] => .ok found
  | record :: rest =>
    if emptySlot record then findActiveFrom extension (index + 1) found rest
    else
      match registryRecordDecode record with
      | .error _ => .error .corrupt
      | .ok decoded =>
        if decoded.active ∧ decoded.canonicalExtension = extension then
          if found.isSome then .error .corrupt else findActiveFrom extension (index + 1) (some (index, decoded)) rest
        else findActiveFrom extension (index + 1) found rest

def findActiveRecord (extension : Text) : Registering (Nat × RegistryRecord) := do
  let registry ← get
  match findActiveFrom extension 0 none registry.records with
  | .error status => do
    setHealth .corrupt
    fail status
  | .ok none => fail .notFound
  | .ok (some found) => pure found

/-! ### Refreshing -/

/-- What the loop of `ios_fs_registry_refresh` found: the record of the extension, and the first slot without an active
    record. -/
structure RefreshScan where
  target : Option (Nat × RegistryRecord)
  available : Option Nat

/-- The loop of `ios_fs_registry_refresh` over the records from `index` on. -/
def refreshScanFrom (extension : Text) (index : Nat) (scan : RefreshScan) : List Slot → Except IosError RefreshScan
  | [] => .ok scan
  | record :: rest =>
    let passed : RefreshScan := { scan with available := scan.available.or (some index) }
    if emptySlot record then refreshScanFrom extension (index + 1) passed rest
    else
      match registryRecordDecode record with
      | .error _ => .error .corrupt
      | .ok decoded =>
        if ¬decoded.active then refreshScanFrom extension (index + 1) passed rest
        else if decoded.canonicalExtension = extension then
          if scan.target.isSome then .error .corrupt
          else refreshScanFrom extension (index + 1) { scan with target := some (index, decoded) } rest
        else refreshScanFrom extension (index + 1) scan rest

/-- `ios_fs_registry_refresh`: the index of the record, `none` when the registry is not enabled. -/
def registryRefresh (entry : RegistrySourceEntry) : Registering (Option Nat) := do
  let registry ← get
  if registry.enabled = false then pure none
  else do
    let wasFull : Bool := registry.health = .full
    failIf (registry.health = .corrupt ∨ registry.health = .stale) .corrupt
    failIf (registry.health = .rebuilding) .invalidState
    let extension ← ofExcept (sourceExtension entry)
    match refreshScanFrom extension 0 ⟨none, none⟩ registry.records with
    | .error status => do
      setHealth .corrupt
      fail status
    | .ok scan =>
      match (scan.target.map Prod.fst).or (if wasFull then none else scan.available) with
      | none => do
        setHealth .full
        fail .noSpace
      | some target => do
        let encoded ← ofExcept (registryRecordEncode
          { active := true
            canonicalExtension := extension
            extensionHashText := Bytes.zero
            lastDirectoryCluster := entry.directoryCluster
            lastDirectorySlot := entry.primarySlot
            updateGeneration := scan.target.elim 1 fun previous => previous.2.updateGeneration + 1 })
        modify fun registry => { registry with records := registry.records.set target encoded }
        pure (some target)

/-! ### Rebuilding -/

/-- The inner loop of `validate_rebuild_entries`: whether an earlier entry has the extension. -/
def hasDuplicate (extension : Text) : List RegistrySourceEntry → Except IosError Bool
  | [] => .ok false
  | prior :: rest => do
    let priorExtension ← sourceExtension prior
    if extension = priorExtension then .ok true else hasDuplicate extension rest

/-- The loop of `validate_rebuild_entries` behind the entries `before`. -/
def validateRebuildFrom (capacity : Nat) (before : List RegistrySourceEntry) (uniqueCount : Nat) :
    List RegistrySourceEntry → Except IosError Unit
  | [] => .ok ()
  | entry :: rest => do
    let extension ← sourceExtension entry
    let duplicate ← hasDuplicate extension before
    if duplicate then validateRebuildFrom capacity (before ++ [entry]) uniqueCount rest
    else if capacity < uniqueCount + 1 then .error .noSpace
    else validateRebuildFrom capacity (before ++ [entry]) (uniqueCount + 1) rest

def validateRebuildEntries (entries : List RegistrySourceEntry) (capacity : Nat) : Except IosError Unit :=
  validateRebuildFrom capacity [] 0 entries

/-- The search of `ios_fs_registry_rebuild` among the records it wrote. -/
def rebuildTarget (extension : Text) (slot : Nat) : List Slot → Except IosError (Option (Nat × RegistryRecord))
  | [] => .ok none
  | record :: rest => do
    let decoded ← registryRecordDecode record
    if decoded.canonicalExtension = extension then .ok (some (slot, decoded)) else rebuildTarget extension (slot + 1) rest

/-- A status that leaves the registry corrupt. -/
def orCorrupt {α : Type} (result : Except IosError α) : Registering α :=
  match result with
  | .error status => do
    setHealth .corrupt
    fail status
  | .ok a => pure a

/-- The loop of `ios_fs_registry_rebuild`. -/
def rebuildFrom (activeCount : Nat) : List RegistrySourceEntry → Registering Unit
  | [] => pure ()
  | entry :: rest => do
    let extension ← orCorrupt (sourceExtension entry)
    let registry ← get
    let found ← orCorrupt (rebuildTarget extension 0 (registry.records.take activeCount))
    let (target, record) := found.getD (activeCount, RegistryRecord.zero)
    let encoded ← orCorrupt (registryRecordEncode { record with
      active := true
      canonicalExtension := extension
      lastDirectoryCluster := entry.directoryCluster
      lastDirectorySlot := entry.primarySlot
      updateGeneration := record.updateGeneration + 1 })
    modify fun registry => { registry with records := registry.records.set target encoded }
    rebuildFrom (if found.isSome then activeCount else activeCount + 1) rest

def registryRebuild (entries : List RegistrySourceEntry) : Registering Unit := do
  let registry ← get
  if registry.enabled = false then pure ()
  else
    match validateRebuildEntries entries registry.records.length with
    | .error .noSpace => do
      setHealth .full
      fail .noSpace
    | .error status => fail status
    | .ok () => do
      setHealth .rebuilding
      modify fun registry => { registry with records := registry.records.map fun _ => Bytes.zero }
      rebuildFrom 0 entries
      setHealth .healthy

/-! ### Lookups -/

/-- A registry and the matches that `ios_fs_registry_lookup` counted so far. -/
structure Lookup where
  registry : Registry
  matched : List Nat

/-- Run a call on the registry. -/
def onRegistry {α : Type} (call : Registering α) : Program IosError Lookup α :=
  zoom Lookup.registry (fun lookup registry => { lookup with registry }) call

/-- The loop of `ios_fs_registry_lookup` over the entries from `index` on: whether the hint is one of them. -/
def lookupFrom (extension : Text) (matchCapacity : Nat) (hint : Option RegistryRecord) (index : Nat) (hintValid : Bool) :
    List RegistrySourceEntry → Program IosError Lookup Bool
  | [] => pure hintValid
  | entry :: rest => do
    let found ← ofExcept (sourceExtension entry)
    let hintValid := hintValid || hint.any fun hint => entry.directoryCluster = hint.lastDirectoryCluster ∧
      entry.primarySlot = hint.lastDirectorySlot ∧ found = extension
    if found ≠ extension then lookupFrom extension matchCapacity hint (index + 1) hintValid rest
    else do
      let lookup ← get
      failIf (lookup.matched.length = matchCapacity) .noSpace
      modify fun lookup => { lookup with matched := lookup.matched ++ [index] }
      lookupFrom extension matchCapacity hint (index + 1) hintValid rest

/-- The search for the hint of `ios_fs_registry_lookup`: `none` when the registry is not inspected, or not any more. -/
def inspectHint (extension : Text) : Program IosError Lookup (Option (Option RegistryRecord)) := do
  let lookup ← get
  if lookup.registry.enabled = true ∧ lookup.registry.health = .healthy then do
    let outcome ← attempt (onRegistry (findActiveRecord extension))
    match outcome with
    | .ok found => pure (some (some found.2))
    | .error status => pure (if status = .notFound then some none else none)
  else pure none

def registryLookup (entries : List RegistrySourceEntry) (extension : Text) (matchCapacity : Nat) :
    Program IosError Lookup Unit := do
  failIf (validExtension extension = false) .invalidArgument
  modify fun lookup => { lookup with matched := [] }
  let inspected ← inspectHint extension
  let hintValid ← lookupFrom extension matchCapacity (inspected.getD none) 0 false entries
  let lookup ← get
  if ∃ hint ∈ inspected, (hint.isSome ∧ hintValid = false) ∨ (hint.isNone ∧ lookup.matched ≠ []) then
    onRegistry (setHealth .stale)
  else pure ()

end Registry
end InferenceOS
