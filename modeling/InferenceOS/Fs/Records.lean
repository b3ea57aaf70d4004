import InferenceOS.Status
import Mathlib.Logic.Function.Iterate
import Mathlib.Data.List.DropRight

/-! The 32-byte directory records of `records.c`, `hash.c` and `crc32.c`: a primary record that names an
    object and its first cluster, and the companion record that commits a regular file. -/

namespace InferenceOS

/-- A character of the source as a byte. -/
def ascii (c : Char) : UInt8 := c.toUInt8

/-- A stored 8.3 name, `IOS_FS_NAME_SIZE` bytes. -/
abbrev Name : Type := Bytes 11

/-- A directory slot, `IOS_FS_PRIMARY_RECORD_SIZE` bytes. -/
abbrev Slot : Type := Bytes 32

def attributeDirectory : UInt8 := 0x10
def attributeRegular : UInt8 := 0x20

def companionRecordType : UInt8 := 0xf1

/-- The first byte of a deleted slot. -/
def deletedMark : UInt8 := 0xe5

def maxDataCluster : Nat := 0x0fffffef

/-! ### Names -/

def supportedNameByte (value : UInt8) : Bool :=
  (ascii 'A' ≤ value && value ≤ ascii 'Z') || (ascii '0' ≤ value && value ≤ ascii '9') || value == ascii '_' ||
    value == ascii '-'

/-- One loop of `valid_stored_name`: the padding of a field comes after its supported bytes. -/
def validField (padding : Bool) : List UInt8 → Bool
  | [] => true
  | value :: rest =>
    if value = ascii ' ' then validField true rest
    else if padding || !supportedNameByte value then false
    else validField padding rest

def validStoredName (name : Name) : Bool :=
  name.byte 0 != ascii ' ' && validField false (name.slice 0 8).toList && validField false (name.slice 8 3).toList

/-- The upper-case form of a letter. -/
def upperCase (value : UInt8) : UInt8 :=
  if ascii 'a' ≤ value ∧ value ≤ ascii 'z' then value - (ascii 'a' - ascii 'A') else value

/-- The loop of `ios_fs_name_canonicalize_83` over the rest of the input. The extension is `some` once
    `in_extension` is set. -/
def canonicalizeFrom : Text → Text → Option Text → Except IosError (Text × Text)
  | [], base, extension => .ok (base, extension.getD [])
  | value :: rest, base, extension =>
    if value = ascii '.' then
      if extension.isSome ∨ base = [] then .error .invalidArgument else canonicalizeFrom rest base (some [])
    else if !supportedNameByte (upperCase value) then .error .invalidArgument
    else
      match extension with
      | none =>
        if base.length = 8 then .error .invalidArgument else canonicalizeFrom rest (base ++ [upperCase value]) none
      | some ext =>
        if ext.length = 3 then .error .invalidArgument else canonicalizeFrom rest base (some (ext ++ [upperCase value]))

/-- The eight base bytes and three extension bytes of a name, padded with spaces. -/
def padName (base extension : Text) : Name := fun i =>
  if i.1 < 8 then base.getD i.1 (ascii ' ') else extension.getD (i.1 - 8) (ascii ' ')

def nameCanonicalize83 (input : Text) : Except IosError Name := do
  if input = [] then .error .invalidArgument
  let (base, extension) ← canonicalizeFrom input [] none
  .ok (padName base extension)

/-- `ios_fs_name_extension`; the length is the one of the result. -/
def nameExtension (name : Name) : Except IosError Text :=
  if validStoredName name then .ok ((name.slice 8 3).toList.rdropWhile (· == ascii ' ')) else .error .invalidArgument

def primaryNameChecksum (name : Name) : UInt8 :=
  name.toList.foldl (fun checksum value => (if checksum &&& 1 ≠ 0 then (0x80 : UInt8) else 0) + (checksum >>> 1) + value) 0

/-! ### Hashes -/

/-- One bit of `ios_fs_crc32_iso_hdlc`. -/
def crc32Bit (crc : UInt32) : UInt32 := (crc >>> 1) ^^^ (if crc &&& 1 ≠ 0 then 0xedb88320 else 0)

def crc32IsoHdlc (bytes : Text) : UInt32 :=
  bytes.foldl (fun crc value => crc32Bit^[8] (crc ^^^ value.toUInt32)) 0xffffffff ^^^ 0xffffffff

def fnv1a32 (bytes : Text) : UInt32 :=
  bytes.foldl (fun hash value => (hash ^^^ value.toUInt32) * 0x01000193) 0x811c9dc5

/-- `digits` of `ios_fs_hash_text`. -/
def hexDigit (value : Nat) : UInt8 := if value < 10 then ascii '0' + .ofNat value else ascii 'A' + .ofNat (value - 10)

def hashText (hash : UInt32) : Bytes 8 := fun i => hexDigit (hash.toNat / 16 ^ (7 - i.1) % 16)

def validHashText (text : Bytes 8) : Bool :=
  text.toList.all fun value => (ascii '0' ≤ value && value ≤ ascii '9') || (ascii 'A' ≤ value && value ≤ ascii 'F')

/-! ### Primary records -/

structure Primary where
  name : Name
  attributes : UInt8
  firstCluster : Nat
  fileSize : Nat
  deriving DecidableEq

/-- The checks that `ios_fs_primary_encode` and `ios_fs_primary_decode` make on the values of a record. -/
def Primary.admissible (value : Primary) : Bool :=
  !(!validStoredName value.name || (value.attributes != attributeRegular && value.attributes != attributeDirectory) ||
    (value.attributes == attributeDirectory && value.fileSize != 0) ||
    (value.attributes == attributeRegular && value.fileSize == 0 && value.firstCluster != 0) ||
    ((value.fileSize != 0 || value.attributes == attributeDirectory) && value.firstCluster < 2) ||
    maxDataCluster < value.firstCluster)

/-- The bytes of a primary record. -/
def primaryBytes (value : Primary) : Slot :=
  Bytes.zero.put 0 value.name |>.put 11 (fun _ : Fin 1 => value.attributes)
    |>.put 20 (Bytes.ofNat 2 (value.firstCluster / 2 ^ 16)) |>.put 26 (Bytes.ofNat 2 value.firstCluster)
    |>.put 28 (Bytes.ofNat 4 value.fileSize)

def primaryEncode (value : Primary) : Except IosError Slot :=
  if value.admissible then .ok (primaryBytes value) else .error .invalidArgument

/-- The values in the bytes of a primary record. -/
def primaryFields (disk : Slot) : Primary :=
  { name := disk.slice 0 11
    attributes := disk.byte 11
    firstCluster := disk.toNat 20 2 * 2 ^ 16 + disk.toNat 26 2
    fileSize := disk.toNat 28 4 }

def primaryDecode (disk : Slot) : Except IosError Primary :=
  if disk.byte 0 = 0 ∨ disk.byte 0 = deletedMark then .error .notFound
  else if disk.slice 12 8 ≠ Bytes.zero ∨ disk.slice 22 4 ≠ Bytes.zero ∨ !(primaryFields disk).admissible then
    .error .protocol
  else .ok (primaryFields disk)

/-! ### Companion records -/

structure Companion where
  committed : Bool
  extensionLength : UInt8
  primaryNameChecksum : UInt8
  extensionHashText : Bytes 8
  deriving DecidableEq

def companionCrc (disk : Slot) : UInt32 := crc32IsoHdlc (disk.put 16 (Bytes.zero : Bytes 4)).toList

/-- The bytes of a companion record before its checksum. -/
def companionBody (committed : Bool) (name : Name) (extension : Text) : Slot :=
  Bytes.zero.put 0 (Bytes.ofList 6 [companionRecordType, 1, 1, if committed then 1 else 0, .ofNat extension.length,
    primaryNameChecksum name]) |>.put 8 (hashText (fnv1a32 extension))

def companionEncode (primaryName : Name) (committed : Bool) : Except IosError Slot := do
  let extension ← nameExtension primaryName
  let disk := companionBody committed primaryName extension
  .ok (disk.put 16 (Bytes.ofNat 4 (companionCrc disk).toNat))

def companionDecode (disk : Slot) : Except IosError Companion :=
  if (companionCrc disk).toNat ≠ disk.toNat 16 4 then .error .corrupt
  else if disk.byte 0 ≠ companionRecordType ∨ disk.byte 1 ≠ 1 ∨ disk.byte 2 ≠ 1 ∨ disk.byte 3 &&& 0xfe ≠ 0 ∨
      3 < disk.byte 4 ∨ disk.slice 6 2 ≠ Bytes.zero ∨ !validHashText (disk.slice 8 8) ∨ disk.slice 20 12 ≠ Bytes.zero then
    .error .protocol
  else .ok
    { committed := disk.byte 3 &&& 1 != 0
      extensionLength := disk.byte 4
      primaryNameChecksum := disk.byte 5
      extensionHashText := disk.slice 8 8 }

def recordPairValidate (companionDisk primaryDisk : Slot) : Except IosError Unit := do
  let companion ← companionDecode companionDisk
  let primary ← match primaryDecode primaryDisk with
    | .error status => .error (if status = .notFound then .corrupt else status)
    | .ok primary => .ok primary
  let extension ← match nameExtension primary.name with
    | .error _ => .error .corrupt
    | .ok extension => .ok extension
  if !companion.committed ∨ primary.attributes ≠ attributeRegular ∨
      companion.extensionLength ≠ .ofNat extension.length ∨
      companion.primaryNameChecksum ≠ primaryNameChecksum primary.name ∨
      companion.extensionHashText ≠ hashText (fnv1a32 extension) then .error .corrupt
  .ok ()

end InferenceOS
