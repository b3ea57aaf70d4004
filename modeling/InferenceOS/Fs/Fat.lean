import InferenceOS.Fs.Records

/-! The allocation table of `fat.c`. The table is a function from cluster numbers to entries; its first
    `entryCount` entries exist. -/

namespace InferenceOS
namespace Fat

def free : Nat := 0
def bad : Nat := 0x0ffffff7
def reservedFirst : Nat := 0x0ffffff0
def reservedLast : Nat := 0x0ffffff6
def eocFirst : Nat := 0x0ffffff8

def endOfChain : Nat := 0x0fffffff

def validCluster (cluster entryCount : Nat) : Prop := 2 ≤ cluster ∧ cluster < entryCount ∧ cluster ≤ maxDataCluster

instance (cluster entryCount : Nat) : Decidable (validCluster cluster entryCount) := inferInstanceAs (Decidable (_ ∧ _))

def validEntryCount (entryCount : Nat) : Prop := 2 < entryCount ∧ entryCount ≤ maxDataCluster + 1

instance (entryCount : Nat) : Decidable (validEntryCount entryCount) := inferInstanceAs (Decidable (_ ∧ _))

/-- `classify_next`: whether the entry ends its chain. The upper four bits of an entry are reserved. -/
def classifyNext (raw entryCount : Nat) : Except IosError Bool :=
  if 2 ^ 28 ≤ raw then .error .protocol
  else if eocFirst ≤ raw then .ok true
  else if raw = free ∨ raw = bad ∨ (reservedFirst ≤ raw ∧ raw ≤ reservedLast) ∨ ¬validCluster raw entryCount then
    .error .corrupt
  else .ok false

/-- The loop of `ios_fs_fat_traverse`. `fuel` is what is left of `count < entry_count`. -/
def traverseFrom (fat : Nat → Nat) (entryCount capacity : Nat) : Nat → Nat → List Nat → Except IosError (List Nat)
  | 0, _, _ => .error .corrupt
  | fuel + 1, cluster, clusters =>
    if ¬validCluster cluster entryCount then .error .corrupt
    else if cluster ∈ clusters then .error .corrupt
    else if clusters.length = capacity then .error .noSpace
    else
      match classifyNext (fat cluster) entryCount with
      | .error status => .error status
      | .ok true => .ok (clusters ++ [cluster])
      | .ok false => traverseFrom fat entryCount capacity fuel (fat cluster) (clusters ++ [cluster])

def traverse (fat : Nat → Nat) (entryCount start capacity : Nat) : Except IosError (List Nat) :=
  if ¬validEntryCount entryCount ∨ capacity = 0 ∨ ¬validCluster start entryCount then .error .invalidArgument
  else traverseFrom fat entryCount capacity entryCount start []

/-- The search of `ios_fs_fat_allocate`: the first free clusters, from `cluster` on. -/
def findFree (fat : Nat → Nat) : Nat → Nat → Nat → List Nat
  | 0, _, _ => []
  | _ + 1, _, 0 => []
  | left + 1, cluster, wanted + 1 =>
    if fat cluster = free then cluster :: findFree fat left (cluster + 1) wanted
    else findFree fat left (cluster + 1) (wanted + 1)

/-- The assignments of `ios_fs_fat_allocate`: each cluster names the next one, the last ends the chain. -/
def link (fat : Nat → Nat) : List Nat → Nat → Nat
  | [] => fat
  | [cluster] => Function.update fat cluster endOfChain
  | cluster :: next :: rest => link (Function.update fat cluster next) (next :: rest)

/-- `ios_fs_fat_allocate`: the new table and the clusters of the new chain. -/
def allocate (fat : Nat → Nat) (entryCount requested capacity : Nat) : Except IosError ((Nat → Nat) × List Nat) :=
  if ¬validEntryCount entryCount ∨ requested = 0 ∨ capacity < requested then .error .invalidArgument
  else
    let clusters := findFree fat (entryCount - 2) 2 requested
    if clusters.length ≠ requested then .error .noSpace else .ok (link fat clusters, clusters)

/-- The assignments of `ios_fs_fat_free`. -/
def clear (fat : Nat → Nat) (clusters : List Nat) : Nat → Nat :=
  clusters.foldl (fun table cluster => Function.update table cluster free) fat

/-- `ios_fs_fat_free`: the new table and the clusters released. -/
def release (fat : Nat → Nat) (entryCount start capacity : Nat) : Except IosError ((Nat → Nat) × List Nat) := do
  let clusters ← traverse fat entryCount start capacity
  .ok (clear fat clusters, clusters)

end Fat
end InferenceOS
