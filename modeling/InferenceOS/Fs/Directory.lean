import InferenceOS.Fs.Records

/-! The slots of a directory, `directory.c`: how they are read as entries and where new records go. A slot
    that starts with zero ends the directory, one that starts with `deletedMark` is skipped. -/

namespace InferenceOS

inductive EntryKind where
  | regular | directory | internal
  deriving DecidableEq, Repr

/-- `struct ios_fs_directory_entry`; a companion slot of `SIZE_MAX` is `none`. -/
structure DirectoryEntry where
  primary : Primary
  primarySlot : Nat
  companionSlot : Option Nat
  kind : EntryKind
  deriving DecidableEq

/-- The record of `.` or `..`: the name padded with spaces. -/
def internalName (parent : Bool) : Name := padName (if parent then [ascii '.', ascii '.'] else [ascii '.']) []

def isInternalName (name : Name) : Bool := name == internalName false || name == internalName true

def decodeInternal (disk : Slot) : Except IosError Primary :=
  if !isInternalName (disk.slice 0 11) ∨ disk.byte 11 ≠ attributeDirectory then .error .protocol
  else if disk.slice 12 8 ≠ Bytes.zero ∨ disk.slice 22 4 ≠ Bytes.zero ∨ disk.slice 28 4 ≠ Bytes.zero then
    .error .protocol
  else
    let cluster := disk.toNat 20 2 * 2 ^ 16 + disk.toNat 26 2
    if cluster < 2 ∨ maxDataCluster < cluster then .error .protocol
    else .ok { name := disk.slice 0 11, attributes := disk.byte 11, firstCluster := cluster, fileSize := 0 }

def duplicateName (entries : List DirectoryEntry) (name : Name) : Bool :=
  entries.any fun entry => entry.kind != .internal && entry.primary.name == name

/-- The entry that `ios_fs_directory_scan` reads at a slot that is neither free nor deleted. -/
def entryAt (slots : Nat → Slot) (slotCount slotsPerCluster slot : Nat) : Except IosError DirectoryEntry :=
  let bytes := slots slot
  if bytes.byte 0 = companionRecordType then
    if slotCount ≤ slot + 1 ∨ slotsPerCluster ≤ slot % slotsPerCluster + 1 then .error .corrupt
    else
      match recordPairValidate bytes (slots (slot + 1)) with
      | .error _ => .error .corrupt
      | .ok () =>
        match primaryDecode (slots (slot + 1)) with
        | .error _ => .error .corrupt
        | .ok primary => .ok { primary, primarySlot := slot + 1, companionSlot := some slot, kind := .regular }
  else if isInternalName (bytes.slice 0 11) then do
    let primary ← decodeInternal bytes
    .ok { primary, primarySlot := slot, companionSlot := none, kind := .internal }
  else do
    let primary ← primaryDecode bytes
    if primary.attributes ≠ attributeDirectory then .error .corrupt
    .ok { primary, primarySlot := slot, companionSlot := none, kind := .directory }

/-- The loop of `ios_fs_directory_scan` from a slot on. A pair takes two slots, so `fuel` may outlast the
    loop; it never ends before it. -/
def scanFrom (slots : Nat → Slot) (slotCount slotsPerCluster capacity : Nat) :
    Nat → Nat → List DirectoryEntry → Except IosError (List DirectoryEntry)
  | 0, _, entries => .ok entries
  | fuel + 1, slot, entries =>
    if slotCount ≤ slot then .ok entries
    else if (slots slot).byte 0 = 0 then .ok entries
    else if (slots slot).byte 0 = deletedMark then scanFrom slots slotCount slotsPerCluster capacity fuel (slot + 1) entries
    else do
      let entry ← entryAt slots slotCount slotsPerCluster slot
      if duplicateName entries entry.primary.name then .error .alreadyExists
      if entries.length = capacity then .error .noSpace
      scanFrom slots slotCount slotsPerCluster capacity fuel (entry.primarySlot + 1) (entries ++ [entry])

def directoryScan (slots : Nat → Slot) (slotCount slotsPerCluster capacity : Nat) :
    Except IosError (List DirectoryEntry) :=
  if slotCount = 0 ∨ slotsPerCluster = 0 ∨ slotCount % slotsPerCluster ≠ 0 then .error .invalidArgument
  else scanFrom slots slotCount slotsPerCluster capacity slotCount 0 []

def slotAvailable (bytes : Slot) (afterEnd : Bool) : Bool := afterEnd || bytes.byte 0 == 0 || bytes.byte 0 == deletedMark

/-- The loop of `ios_fs_directory_find_pair_slots`. -/
def pairSlotsFrom (slots : Nat → Slot) (slotsPerCluster : Nat) : Nat → Nat → Bool → Except IosError Nat
  | 0, _, _ => .error .noSpace
  | left + 1, slot, afterEnd =>
    let afterEnd := afterEnd || (slots slot).byte 0 == 0
    if slot % slotsPerCluster + 1 < slotsPerCluster ∧ slotAvailable (slots slot) afterEnd ∧
        slotAvailable (slots (slot + 1)) (afterEnd || (slots (slot + 1)).byte 0 == 0) then .ok slot
    else pairSlotsFrom slots slotsPerCluster left (slot + 1) afterEnd

def findPairSlots (slots : Nat → Slot) (slotCount slotsPerCluster : Nat) : Except IosError Nat :=
  if slotCount < 2 ∨ slotsPerCluster < 2 ∨ slotCount % slotsPerCluster ≠ 0 then .error .invalidArgument
  else pairSlotsFrom slots slotsPerCluster (slotCount - 1) 0 false

end InferenceOS
