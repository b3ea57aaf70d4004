import InferenceOS.Status

/-! The catalog of file types, `kernel/process/type_catalog.c`: capabilities that stand for type identities, with an icon for
    each. The pointers that the functions check are not `NULL`. -/

namespace InferenceOS

def typeCatalogCapacity : Nat := 64

def invalidTypeIconCapability : Nat := 0

inductive PresentationIcon where
  | genericFile | folder | text | image | application
  deriving DecidableEq, Repr

/-- `struct ios_type_catalog_slot` that is occupied. -/
structure TypeCatalogSlot where
  internalTypeIdentity : Nat
  generation : Nat
  icon : PresentationIcon

/-- `struct ios_type_catalog`; a slot that is not occupied is `none`. -/
structure TypeCatalog where
  slots : List (Option TypeCatalogSlot)
  generationSeed : Nat
  entryCount : Nat

namespace TypeCatalog

def encodeCapability (index generation : Nat) : Nat := (generation <<< 16) ||| (index + 1)

/-- The slot of a type identity with its index, counted from `index`. -/
def slotOfIdentity (internalTypeIdentity index : Nat) : List (Option TypeCatalogSlot) → Option (Nat × TypeCatalogSlot)
  | [] => none
  | some slot :: rest =>
    if slot.internalTypeIdentity = internalTypeIdentity then some (index, slot)
    else slotOfIdentity internalTypeIdentity (index + 1) rest
  | none :: rest => slotOfIdentity internalTypeIdentity (index + 1) rest

/-- The slot that a capability names. -/
def slotOfCapability (catalog : TypeCatalog) (capability : Nat) : Option TypeCatalogSlot :=
  let encodedSlot := capability % 2 ^ 16
  let generation := capability >>> 16
  if encodedSlot = 0 ∨ typeCatalogCapacity < encodedSlot ∨ generation = 0 then none
  else
    match catalog.slots[encodedSlot - 1]? with
    | some (some slot) => if slot.generation = generation then some slot else none
    | _ => none

def typeCatalogResolveIdentity (catalog : TypeCatalog) (capability : Nat) : Except IosError Nat :=
  if catalog.generationSeed = 0 then .error .invalidArgument
  else
    match slotOfCapability catalog capability with
    | none => .error .badHandle
    | some slot => .ok slot.internalTypeIdentity

def typeCatalogFindCapability (catalog : TypeCatalog) (internalTypeIdentity : Nat) : Except IosError Nat :=
  if catalog.generationSeed = 0 ∨ internalTypeIdentity = 0 then .error .invalidArgument
  else
    match slotOfIdentity internalTypeIdentity 0 catalog.slots with
    | none => .error .notFound
    | some (index, slot) => .ok (encodeCapability index slot.generation)

end TypeCatalog
end InferenceOS
