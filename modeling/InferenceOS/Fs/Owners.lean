import InferenceOS.Fs.Mount

/-! The owners of clusters, `ios_fs_fat_validate_ownership` of `fat.c` and `ios_fs_validate_owners` of `validator.c`. Both
    walk the chains of all owners over one map, which has the number of its owner for every cluster reached so far. -/

namespace InferenceOS

/-- The clusters of a table and the owner of each, zero for none. -/
abbrev OwnerMap : Type := Nat → Nat

/-- `memset(owner_map, 0, entry_count * sizeof(*owner_map))`. -/
def OwnerMap.cleared (ownerMap : OwnerMap) (entryCount : Nat) : OwnerMap := fun cluster =>
  if cluster < entryCount then 0 else ownerMap cluster

/-- The loop of both validators over the owners, from an owner number on. -/
def eachOwner {α : Type} (claim : α → Nat → OwnerMap → Except IosError OwnerMap) :
    Nat → List α → OwnerMap → Except IosError OwnerMap
  | _, [], ownerMap => .ok ownerMap
  | index, owner :: owners, ownerMap => do
    let ownerMap ← claim owner index ownerMap
    eachOwner claim (index + 1) owners ownerMap

/-- The check of the arguments that both validators make. -/
def validOwnerArguments (entryCount ownerCount ownerMapCount : Nat) : Prop :=
  ownerCount ≠ 0 ∧ ownerCount ≤ 2 ^ 32 - 1 ∧ Fat.validEntryCount entryCount ∧ entryCount ≤ ownerMapCount

instance (entryCount ownerCount ownerMapCount : Nat) : Decidable (validOwnerArguments entryCount ownerCount ownerMapCount) :=
  inferInstanceAs (Decidable (_ ∧ _))

namespace Fat

/-- The walk of `ios_fs_fat_validate_ownership` over the chain of an owner. `fuel` is what is left of
    `traversed++ < entry_count`. -/
def claimFrom (fat : Nat → Nat) (entryCount owner : Nat) : Nat → Nat → OwnerMap → Except IosError OwnerMap
  | 0, _, _ => .error .corrupt
  | fuel + 1, cluster, ownerMap =>
    if ¬validCluster cluster entryCount ∨ ownerMap cluster ≠ 0 then .error .corrupt
    else
      let ownerMap := Function.update ownerMap cluster ((owner + 1) % 2 ^ 32)
      match classifyNext (fat cluster) entryCount with
      | .error status => .error status
      | .ok true => .ok ownerMap
      | .ok false => claimFrom fat entryCount owner fuel (fat cluster) ownerMap

/-- One turn of `ios_fs_fat_validate_ownership`. -/
def claimStart (fat : Nat → Nat) (entryCount start owner : Nat) (ownerMap : OwnerMap) : Except IosError OwnerMap :=
  if ¬validCluster start entryCount then .error .corrupt else claimFrom fat entryCount owner entryCount start ownerMap

/-- `ios_fs_fat_validate_ownership`: the owner map. -/
def validateOwnership (fat : Nat → Nat) (entryCount : Nat) (starts : List Nat) (ownerMap : OwnerMap) (ownerMapCount : Nat) :
    Except IosError OwnerMap :=
  if ¬validOwnerArguments entryCount starts.length ownerMapCount then .error .invalidArgument
  else eachOwner (claimStart fat entryCount) 0 starts (ownerMap.cleared entryCount)

end Fat

inductive AllocationOwnerKind where
  | directory | regularFile
  deriving DecidableEq, Repr

structure AllocationOwner where
  firstCluster : Nat
  fileSize : Nat
  kind : AllocationOwnerKind
  deriving DecidableEq, Repr

namespace Validator

/-- The bytes of a cluster, `IOS_FS_SECTOR_SIZE * IOS_FS_SECTORS_PER_CLUSTER`. -/
def clusterCapacity : Nat := 512 * sectorsPerCluster

/-- The walk of `ios_fs_validate_owners` over the chain of an owner: the bytes its clusters hold and the owner map. -/
def claimFrom (fat : Nat → Nat) (entryCount ownerIndex : Nat) :
    Nat → Nat → Nat → OwnerMap → Except IosError (Nat × OwnerMap)
  | 0, _, _, _ => .error .corrupt
  | fuel + 1, cluster, capacity, ownerMap =>
    if ¬Fat.validCluster cluster entryCount ∨ ownerMap cluster ≠ 0 then .error .corrupt
    else
      let ownerMap := Function.update ownerMap cluster ((ownerIndex + 1) % 2 ^ 32)
      if 2 ^ 64 - 1 - clusterCapacity < capacity then .error .overflow
      else
        match classifyNext (fat cluster) entryCount with
        | .error status => .error status
        | .ok none => .ok (capacity + clusterCapacity, ownerMap)
        | .ok (some next) => claimFrom fat entryCount ownerIndex fuel next (capacity + clusterCapacity) ownerMap

/-- One turn of `ios_fs_validate_owners`; an empty file has no clusters. -/
def claimOwner (fat : Nat → Nat) (entryCount : Nat) (owner : AllocationOwner) (ownerIndex : Nat) (ownerMap : OwnerMap) :
    Except IosError OwnerMap :=
  if owner.kind = .regularFile ∧ owner.fileSize = 0 then
    if owner.firstCluster ≠ 0 then .error .corrupt else .ok ownerMap
  else if ¬Fat.validCluster owner.firstCluster entryCount then .error .corrupt
  else do
    let (capacity, ownerMap) ← claimFrom fat entryCount ownerIndex entryCount owner.firstCluster 0 ownerMap
    if owner.kind = .regularFile ∧ capacity < owner.fileSize then .error .corrupt
    .ok ownerMap

/-- `ios_fs_validate_owners`: the owner map. -/
def validateOwners (fat : Nat → Nat) (entryCount : Nat) (owners : List AllocationOwner) (ownerMap : OwnerMap)
    (ownerMapCount : Nat) : Except IosError OwnerMap :=
  if ¬validOwnerArguments entryCount owners.length ownerMapCount then .error .invalidArgument
  else eachOwner (claimOwner fat entryCount) 0 owners (ownerMap.cleared entryCount)

end Validator
end InferenceOS
