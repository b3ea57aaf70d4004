import InferenceOS.Kernel.Virtual

/-! Copies between the kernel and the memory of a process, `syscall/usercopy.c`. The bytes of physical memory are those of
    the words of its pages. -/

namespace InferenceOS
open Program

namespace VirtualMemory

/-- The byte at a physical address. -/
def readByte (memory : VirtualMemory) (address : Nat) : UInt8 :=
  Bytes.digit (memory.words (address / pageSize * pageSize)
    ⟨address % pageSize / 8, Nat.div_lt_of_lt_mul (Nat.mod_lt _ (by decide))⟩).toNat (address % 8)

/-- `memcpy` of bytes to a physical address; they lie in one page. -/
def writeBytes (address byteCount : Nat) (source : Nat → UInt8) (memory : VirtualMemory) : VirtualMemory :=
  let page := address / pageSize * pageSize
  { memory with words := Function.update memory.words page fun index =>
      BitVec.ofNat 64 (Bytes.toNat (fun k : Fin 8 =>
        let target := page + 8 * index.1 + k.1
        if address ≤ target ∧ target < address + byteCount then source (target - address) else memory.readByte target) 0 8) }

end VirtualMemory

/-- The memory of the machine and the buffer of the kernel. -/
structure CopyState where
  memory : VirtualMemory
  buffer : Nat → UInt8

namespace UserCopy
open VirtualMemory

/-- The bytes that one round of `copy_user_pages` copies. -/
def chunkSize (userAddress byteCount copied : Nat) : Nat :=
  let pageRemaining := pageSize - (userAddress + copied) % pageSize
  if byteCount - copied < pageRemaining then byteCount - copied else pageRemaining

/-- The copy of a chunk. -/
def moveChunk (physicalAddress copied chunk : Nat) (copyToUser clearUser : Bool) (s : CopyState) : CopyState :=
  if clearUser then { s with memory := writeBytes physicalAddress chunk (fun _ => 0) s.memory }
  else if copyToUser then { s with memory := writeBytes physicalAddress chunk (fun i => s.buffer (copied + i)) s.memory }
  else { s with buffer := fun i =>
    if copied ≤ i ∧ i < copied + chunk then s.memory.readByte (physicalAddress + (i - copied)) else s.buffer i }

/-- The flags of a page allow the copy. -/
def Permits (flags : BitVec 32) (copyToUser : Bool) : Prop := ¬(flags &&& vmUser = 0 ∨ copyToUser ∧ flags &&& vmWrite = 0)

instance {flags : BitVec 32} {copyToUser : Bool} : Decidable (Permits flags copyToUser) := by
  unfold Permits
  infer_instance

/-- The loop of `copy_user_pages`; each round copies at least one byte. -/
def copyFrom (addressSpace : AddressSpace) (userAddress byteCount : Nat) (copyToUser clearUser : Bool) :
    Nat → Nat → Program IosError CopyState Unit
  | 0, _ => pure ()
  | rounds + 1, copied =>
    if copied < byteCount then do
      let chunk := chunkSize userAddress byteCount copied
      let s ← get
      match s.memory.virtualQuery (some addressSpace) (userAddress + copied) true true with
      | .error _ => fail .badAddress
      | .ok (physicalAddress, flags) => do
        failIf (¬Permits flags copyToUser) .badAddress
        modify (moveChunk physicalAddress copied chunk copyToUser clearUser)
        copyFrom addressSpace userAddress byteCount copyToUser clearUser rounds (copied + chunk)
    else pure ()

/-- `copy_user_pages`; the pointers are not `NULL`. -/
def copyUserPages (addressSpace : AddressSpace) (userAddress byteCount : Nat) (copyToUser clearUser : Bool) :
    Program IosError CopyState Unit :=
  if byteCount = 0 then pure ()
  else do
    failIf (virtualUserRangeIsValid userAddress byteCount = false) .badAddress
    copyFrom addressSpace userAddress byteCount copyToUser clearUser byteCount 0

/-- `user_copy_from`: the bytes that it puts into the buffer of the kernel. -/
def userCopyFrom (addressSpace : AddressSpace) (userSource byteCount : Nat) : Program IosError VirtualMemory (Nat → UInt8) :=
  fun memory =>
    match copyUserPages addressSpace userSource byteCount false false ⟨memory, fun _ => 0⟩ with
    | (.ok (), s) => (.ok s.buffer, s.memory)
    | (.error status, s) => (.error status, s.memory)

def userCopyTo (addressSpace : AddressSpace) (userDestination : Nat) (source : Nat → UInt8) (byteCount : Nat) :
    Program IosError VirtualMemory Unit :=
  zoom (fun memory => ⟨memory, source⟩) (fun _ s => s.memory) (copyUserPages addressSpace userDestination byteCount true false)

/-- The calls on the memory of a process: `user_copy_from`, `user_copy_to` and `user_clear`. -/
inductive CopyCall
  | copyFrom
  | copyTo
  | clear
  deriving DecidableEq, Repr

namespace CopyCall

/-- The argument `copy_to_user` of a call. -/
def copyToUser : CopyCall → Bool
  | copyFrom => false
  | copyTo | clear => true

/-- The argument `clear_user` of a call. -/
def clearUser : CopyCall → Bool
  | copyFrom | copyTo => false
  | clear => true

/-- A call, with the buffer of the kernel in the state; `user_clear` passes one that it does not use. -/
def run (call : CopyCall) (addressSpace : AddressSpace) (userAddress byteCount : Nat) : Program IosError CopyState Unit :=
  copyUserPages addressSpace userAddress byteCount call.copyToUser call.clearUser

end CopyCall
end UserCopy
end InferenceOS
