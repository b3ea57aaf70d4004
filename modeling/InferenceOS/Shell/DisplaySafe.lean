import InferenceOS.Shell.Protocol
import InferenceOS.Fs.Records

/-! Display-safe entries, `shell/display_safe_entry.c`: their checks, and the ranks that tell entries of one name apart. -/

namespace InferenceOS
open Program

/-- `enum ios_display_safe_object_kind`. -/
def displaySafeRegularFile : Nat := 1
def displaySafeDirectory : Nat := 2

/-- `struct ios_display_safe_source_entry`; `baseName` is the memory behind the pointer. -/
structure DisplaySafeSourceEntry where
  baseName : Nat → UInt8
  objectHandle : Nat
  typeIconCapability : Nat
  byteSize : Nat
  allowedOperations : Nat
  genericAttributes : Nat
  objectKind : Nat

namespace DisplaySafe

def validKind (kind : Nat) : Bool := kind = displaySafeRegularFile ∨ kind = displaySafeDirectory

/-- The attributes outside of `IOS_DISPLAY_SAFE_ATTRIBUTE_MASK`. -/
def foreignAttributes (genericAttributes : Nat) : Bool := genericAttributes / 2 ≠ 0

/-- The operations outside of `IOS_DISPLAY_SAFE_OPERATION_MASK`. -/
def foreignOperations (allowedOperations : Nat) : Bool := allowedOperations / 2 ^ 6 ≠ 0

/-- The bytes that a display name cannot have. -/
def refusedNameByte (character : UInt8) : Bool :=
  character < 0x20 || 0x7e < character || character == ascii '.' || character == ascii '/' || character == ascii '\\'

/-- The loop of `validate_base_name` from `count` on, over the bytes that are left. -/
def baseNameFrom (name : Nat → UInt8) (count : Nat) : Nat → Except IosError Nat
  | 0 => .ok count
  | left + 1 =>
    if name count = 0 then .ok count
    else if refusedNameByte (name count) then .error .invalidArgument
    else baseNameFrom name (count + 1) left

/-- `validate_base_name`: the length of the name. -/
def validateBaseName (name : Nat → UInt8) : Except IosError Nat := do
  let count ← baseNameFrom name 0 displaySafeNameCapacity
  if count = 0 ∨ count = displaySafeNameCapacity then .error .invalidArgument else .ok count

def validateEntry (entry : DisplaySafeEntry) : Except IosError Unit :=
  if entry.size ≠ displaySafeEntrySize ∨ entry.version ≠ displaySafeEntryVersion ∨ entry.objectHandle = 0 ∨
      validKind entry.objectKind = false ∨ foreignAttributes entry.genericAttributes = true ∨
      foreignOperations entry.allowedOperations = true then .error .invalidArgument
  else if entry.objectKind = displaySafeRegularFile ∧ entry.typeIconCapability = 0 then .error .invalidArgument
  else if entry.reserved ≠ Bytes.zero then .error .invalidArgument
  else
    match validateBaseName entry.displayName.byte with
    | .error _ => .error .invalidArgument
    | .ok length => if length ≠ entry.displayNameLength then .error .invalidArgument else .ok ()

/-- The entry that `ios_display_safe_entry_convert` fills in. -/
def convertedEntry (source : DisplaySafeSourceEntry) (nameLength : Nat) : DisplaySafeEntry :=
  { size := displaySafeEntrySize
    version := displaySafeEntryVersion
    genericAttributes := source.genericAttributes
    objectHandle := source.objectHandle
    typeIconCapability := source.typeIconCapability
    byteSize := source.byteSize
    allowedOperations := source.allowedOperations
    objectKind := source.objectKind
    displayNameLength := nameLength
    reserved := Bytes.zero
    displayName := fun i => if i.1 < nameLength + 1 then source.baseName i.1 else 0 }

def displaySafeEntryConvert (source : DisplaySafeSourceEntry) : Except IosError DisplaySafeEntry :=
  if source.objectHandle = 0 ∨ validKind source.objectKind = false ∨ foreignAttributes source.genericAttributes = true ∨
      foreignOperations source.allowedOperations = true ∨
      (source.objectKind = displaySafeRegularFile ∧ source.typeIconCapability = 0) then .error .invalidArgument
  else do
    let nameLength ← validateBaseName source.baseName
    .ok (convertedEntry source nameLength)

/-! ### Ranks -/

def decimalDigits (value : Nat) : Nat := if value < 10 then 1 else decimalDigits (value / 10) + 1
decreasing_by omega

/-- The loop of `append_rank` that collects the digits. -/
def reversedDigits (rank : Nat) : Text :=
  (ascii '0' + .ofNat (rank % 10)) :: if rank / 10 = 0 then [] else reversedDigits (rank / 10)
decreasing_by omega

/-- The text that `append_rank` puts behind a name. -/
def rankSuffix (rank : Nat) : Text := [ascii ' ', ascii '('] ++ (reversedDigits rank).reverse ++ [ascii ')']

def appendRank (entry : DisplaySafeEntry) (rank : Nat) : DisplaySafeEntry :=
  { entry with
    displayName := entry.displayName.put entry.displayNameLength
      (Bytes.ofList ((rankSuffix rank).length + 1) (rankSuffix rank ++ [0]))
    displayNameLength := (entry.displayNameLength + (rankSuffix rank).length) % 2 ^ 8 }

/-- The display name of an entry, as long as the entry says. -/
def nameOf (entry : DisplaySafeEntry) : Text := entry.displayName.toList.take entry.displayNameLength

/-- The comparison of two display names. -/
def sameName (other entry : DisplaySafeEntry) : Bool :=
  other.displayNameLength = entry.displayNameLength ∧
    ∀ i < entry.displayNameLength, other.displayName.byte i = entry.displayName.byte i

/-- The inner loop of `ios_display_safe_entries_disambiguate` over the other entries. -/
def rankAmong (entry : DisplaySafeEntry) (rank : Nat) : List DisplaySafeEntry → Except IosError Nat
  | [] => .ok rank
  | other :: rest =>
    if other.objectHandle = entry.objectHandle then .error .corrupt
    else if sameName other entry ∧ other.objectHandle < entry.objectHandle then rankAmong entry (rank + 1) rest
    else rankAmong entry rank rest

/-- The first loop of `ios_display_safe_entries_disambiguate` behind the entries `before`. -/
def ranksFrom (before : List DisplaySafeEntry) : List DisplaySafeEntry → Except IosError (List Nat)
  | [] => .ok []
  | entry :: rest => do
    validateEntry entry
    let rank ← rankAmong entry 1 (before ++ rest)
    let ranks ← ranksFrom (before ++ [entry]) rest
    .ok (rank :: ranks)

/-- The check of the second loop of `ios_display_safe_entries_disambiguate`. -/
def lacksSpace (entry : DisplaySafeEntry) (rank : Nat) : Bool :=
  1 < rank ∧ displaySafeNameCapacity ≤ entry.displayNameLength + decimalDigits rank + 3

/-- The last loop of `ios_display_safe_entries_disambiguate`. -/
def label (entry : DisplaySafeEntry) (rank : Nat) : DisplaySafeEntry := if 1 < rank then appendRank entry rank else entry

/-- `ios_display_safe_entries_disambiguate`; the entries are the state, and the workspace has `workspaceCount` places. -/
def displaySafeEntriesDisambiguate (workspaceCount : Nat) : Program IosError (List DisplaySafeEntry) Unit := do
  let entries ← get
  failIf (workspaceCount < entries.length) .invalidArgument
  let ranks ← ofExcept (ranksFrom [] entries)
  failIf ((entries.zip ranks).any fun e => lacksSpace e.1 e.2) .noSpace
  modify fun entries => (entries.zip ranks).map fun e => label e.1 e.2

/-- The loop of `ios_display_safe_entries_validate_final` behind the entries `before`. -/
def validateFinalFrom (before : List DisplaySafeEntry) : List DisplaySafeEntry → Except IosError Unit
  | [] => .ok ()
  | entry :: rest => do
    validateEntry entry
    if before.any fun other => other.objectHandle = entry.objectHandle ∨ sameName other entry then .error .corrupt
    validateFinalFrom (before ++ [entry]) rest

def displaySafeEntriesValidateFinal (entries : List DisplaySafeEntry) : Except IosError Unit := validateFinalFrom [] entries

end DisplaySafe
end InferenceOS
