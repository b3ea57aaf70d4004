import Mathlib.Data.Fintype.Basic
import InferenceOS.Kernel.Physical

/-! Page tables, `memory/virtual.c`. Physical memory is mapped at its own addresses, so that a pointer to a table is the
    physical address of its page and the state holds the words of each page under that address. `invlpg` changes no
    memory and is left out. A failed `IOS_ASSERT` halts the machine: the model sets a flag and goes on. -/

namespace InferenceOS
open Program Function

abbrev pageTableEntryCount : Nat := 512

def ptePresent : BitVec 64 := 0x001
def pteWritable : BitVec 64 := 0x002
def pteUser : BitVec 64 := 0x004
def pteLarge : BitVec 64 := 0x080
def pteGlobal : BitVec 64 := 0x100
def pteOwned : BitVec 64 := 0x200
def pteAddressMask : BitVec 64 := 0x000ffffffffff000
def pte2MAddressMask : BitVec 64 := 0x000fffffffe00000
def pte1GAddressMask : BitVec 64 := 0x000fffffc0000000
def pteNoExecute : BitVec 64 := 1 <<< 63

def userVirtualStart : Nat := 0x0000010000000000

def userVirtualEnd : Nat := 0x0000800000000000

/-! ### The flags of a mapping, `IOS_VM_WRITE` to `IOS_VM_OWNED` -/

def vmWrite : BitVec 32 := 1 <<< 0
def vmExecute : BitVec 32 := 1 <<< 1
def vmUser : BitVec 32 := 1 <<< 2
def vmGlobal : BitVec 32 := 1 <<< 3
def vmOwned : BitVec 32 := 1 <<< 4

structure AddressSpace where
  rootAddress : Nat
  deriving DecidableEq, Repr

/-- A pointer to an entry of a table. -/
structure EntryRef where
  table : Nat
  index : Fin pageTableEntryCount
  deriving DecidableEq, Repr

/-- The allocator, the words of the physical pages, the static variables, and the root that the processor uses. -/
structure VirtualMemory where
  physical : PhysicalMemory
  words : Nat → Fin pageTableEntryCount → BitVec 64
  executeDisableEnabled : Bool
  kernelRootAddress : Nat
  pagingRoot : Nat
  halted : Bool

/-! ### Addresses -/

section Indices
variable (address : Nat)

def pml4Index : Fin pageTableEntryCount := ⟨address / 2 ^ 39 % 512, Nat.mod_lt _ (by decide)⟩

def pdptIndex : Fin pageTableEntryCount := ⟨address / 2 ^ 30 % 512, Nat.mod_lt _ (by decide)⟩

def pdIndex : Fin pageTableEntryCount := ⟨address / 2 ^ 21 % 512, Nat.mod_lt _ (by decide)⟩

def ptIndex : Fin pageTableEntryCount := ⟨address / 2 ^ 12 % 512, Nat.mod_lt _ (by decide)⟩

def virtualAddressIsCanonical : Bool := address ≤ 0x00007fffffffffff ∨ 0xffff800000000000 ≤ address

def virtualUserRangeIsValid (byteCount : Nat) : Bool :=
  if byteCount = 0 ∨ address < userVirtualStart ∨ userVirtualEnd ≤ address ∨ 2 ^ 64 - 1 - address < byteCount then false
  else address + byteCount ≤ userVirtualEnd

def virtualRangeIsCanonical (byteCount : Nat) : Bool :=
  if byteCount = 0 ∨ 2 ^ 64 - 1 - address < byteCount - 1 then false
  else
    let last := address + byteCount - 1
    if address ≤ 0x00007fffffffffff then last ≤ 0x00007fffffffffff
    else 0xffff800000000000 ≤ address ∧ 0xffff800000000000 ≤ last

end Indices

/-! ### Entries -/

def tableFromEntry (entry : BitVec 64) : Nat := (entry &&& pteAddressMask).toNat

def tableIsEmpty (table : Fin pageTableEntryCount → BitVec 64) : Bool := ∀ index, table index = 0

/-- The flags of a leaf that `map_one` writes. -/
def leafFlags (flags : BitVec 32) : BitVec 64 :=
  ptePresent ||| (if flags &&& vmWrite ≠ 0 then pteWritable else 0) ||| (if flags &&& vmUser ≠ 0 then pteUser else 0) |||
    (if flags &&& vmGlobal ≠ 0 then pteGlobal else 0) ||| (if flags &&& vmOwned ≠ 0 then pteOwned else 0) |||
    (if flags &&& vmExecute = 0 then pteNoExecute else 0)

/-- The flags that `virtual_query` reads from a leaf. -/
def queryFlags (leaf : BitVec 64) : BitVec 32 :=
  (if leaf &&& pteWritable ≠ 0 then vmWrite else 0) ||| (if leaf &&& pteNoExecute = 0 then vmExecute else 0) |||
    (if leaf &&& pteUser ≠ 0 then vmUser else 0) ||| (if leaf &&& pteGlobal ≠ 0 then vmGlobal else 0) |||
    (if leaf &&& pteOwned ≠ 0 then vmOwned else 0)

namespace VirtualMemory

/-- Run a call of the allocator. -/
def onPhysical {α : Type} (call : Program IosError PhysicalMemory α) : Program IosError VirtualMemory α :=
  zoom VirtualMemory.physical (fun memory physical => { memory with physical }) call

/-- A call of `physical_free_pages` whose status is dropped. -/
def freePage (physicalAddress : Nat) : Program IosError VirtualMemory Unit := do
  let _ ← attempt (onPhysical (PhysicalMemory.physicalFreePages physicalAddress 1))

/-- Read an entry. -/
def load (memory : VirtualMemory) (entry : EntryRef) : BitVec 64 := memory.words entry.table entry.index

/-- Write an entry. -/
def store (entry : EntryRef) (value : BitVec 64) (memory : VirtualMemory) : VirtualMemory :=
  { memory with
    words := update memory.words entry.table (update (memory.words entry.table) entry.index value) }

/-- `memset` of a page to 0. -/
def zeroPage (address : Nat) (memory : VirtualMemory) : VirtualMemory :=
  { memory with words := update memory.words address fun _ => 0 }

def assert (c : Prop) [Decidable c] (memory : VirtualMemory) : VirtualMemory :=
  if c then memory else { memory with halted := true }

/-- `ensure_next_table`: the table, and whether it was created. -/
def ensureNextTable (entry : EntryRef) (user : Bool) : Program IosError VirtualMemory (Nat × Bool) := do
  let memory ← get
  let value := memory.load entry
  if value &&& ptePresent ≠ 0 then do
    failIf (value &&& pteLarge ≠ 0) .invalidState
    let value := if user then value ||| (pteUser ||| pteWritable) else value
    modify (store entry value)
    pure (tableFromEntry value, false)
  else do
    let physicalAddress ← onPhysical (PhysicalMemory.physicalAllocatePages 1 1)
    modify (zeroPage physicalAddress)
    modify (store entry (BitVec.ofNat 64 physicalAddress ||| ptePresent ||| pteWritable ||| if user then pteUser else 0))
    pure (physicalAddress, true)

def locateLeaf (memory : VirtualMemory) (addressSpace : AddressSpace) (virtualAddress : Nat) : Except IosError EntryRef :=
  let pml4e := memory.words addressSpace.rootAddress (pml4Index virtualAddress)
  if pml4e &&& ptePresent = 0 ∨ pml4e &&& pteLarge ≠ 0 then .error .notFound
  else
    let pdpte := memory.words (tableFromEntry pml4e) (pdptIndex virtualAddress)
    if pdpte &&& ptePresent = 0 ∨ pdpte &&& pteLarge ≠ 0 then .error .notFound
    else
      let pde := memory.words (tableFromEntry pdpte) (pdIndex virtualAddress)
      if pde &&& ptePresent = 0 ∨ pde &&& pteLarge ≠ 0 then .error .notFound
      else .ok ⟨tableFromEntry pde, ptIndex virtualAddress⟩

/-- How `map_one` takes back a table that it created. -/
def undoTable (created : Bool) (entry : EntryRef) (table : Nat) : Program IosError VirtualMemory Unit :=
  if created then do
    modify (store entry 0)
    freePage table
  else pure ()

def mapOne (addressSpace : AddressSpace) (virtualAddress physicalAddress : Nat) (flags : BitVec 32) :
    Program IosError VirtualMemory Unit := do
  let user : Bool := flags &&& vmUser ≠ 0
  let pml4e : EntryRef := ⟨addressSpace.rootAddress, pml4Index virtualAddress⟩
  let (pdpt, createdPdpt) ← ensureNextTable pml4e user
  let pdpte : EntryRef := ⟨pdpt, pdptIndex virtualAddress⟩
  let outcome ← attempt (ensureNextTable pdpte user)
  match outcome with
  | .error status => do
    undoTable createdPdpt pml4e pdpt
    fail status
  | .ok (pd, createdPd) => do
    let pde : EntryRef := ⟨pd, pdIndex virtualAddress⟩
    let outcome ← attempt (ensureNextTable pde user)
    match outcome with
    | .error status => do
      undoTable createdPd pdpte pd
      undoTable createdPdpt pml4e pdpt
      fail status
    | .ok (pt, createdPt) => do
      let memory ← get
      let leaf : EntryRef := ⟨pt, ptIndex virtualAddress⟩
      if memory.load leaf &&& ptePresent ≠ 0 then do
        undoTable createdPt pde pt
        undoTable createdPd pdpte pd
        undoTable createdPdpt pml4e pdpt
        fail .alreadyExists
      else modify (store leaf (BitVec.ofNat 64 physicalAddress ||| leafFlags flags))

/-- How `unmap_one` drops a table without entries. -/
def dropEmptyTable (entry : EntryRef) (table : Nat) : Program IosError VirtualMemory Unit := do
  let memory ← get
  if tableIsEmpty (memory.words table) then do
    modify (store entry 0)
    freePage table
  else pure ()

def unmapOne (addressSpace : AddressSpace) (virtualAddress : Nat) (releaseOwnedPage : Bool) :
    Program IosError VirtualMemory Unit := do
  let memory ← get
  let pml4e : EntryRef := ⟨addressSpace.rootAddress, pml4Index virtualAddress⟩
  failIf (memory.load pml4e &&& ptePresent = 0 ∨ memory.load pml4e &&& pteLarge ≠ 0) .notFound
  let pdpt := tableFromEntry (memory.load pml4e)
  let pdpte : EntryRef := ⟨pdpt, pdptIndex virtualAddress⟩
  failIf (memory.load pdpte &&& ptePresent = 0 ∨ memory.load pdpte &&& pteLarge ≠ 0) .notFound
  let pd := tableFromEntry (memory.load pdpte)
  let pde : EntryRef := ⟨pd, pdIndex virtualAddress⟩
  failIf (memory.load pde &&& ptePresent = 0 ∨ memory.load pde &&& pteLarge ≠ 0) .notFound
  let pt := tableFromEntry (memory.load pde)
  let leaf : EntryRef := ⟨pt, ptIndex virtualAddress⟩
  let oldEntry := memory.load leaf
  failIf (oldEntry &&& ptePresent = 0) .notFound
  modify (store leaf 0)
  if releaseOwnedPage ∧ oldEntry &&& pteOwned ≠ 0 then freePage (tableFromEntry oldEntry) else pure ()
  dropEmptyTable pde pt
  dropEmptyTable pdpte pd
  dropEmptyTable pml4e pdpt

/-- `destroy_table`; it is not called with level 0. -/
def destroyTable : Nat → Nat → Program IosError VirtualMemory Unit
  | 0, _ => pure ()
  | level + 1, table =>
    each (fun index => do
      let memory ← get
      let entry := memory.words table index
      if entry &&& ptePresent = 0 then pure ()
      else do
        if level + 1 = 1 ∨ entry &&& pteLarge ≠ 0 then
          if entry &&& pteOwned ≠ 0 then freePage (tableFromEntry entry) else pure ()
        else do
          let child := tableFromEntry entry
          destroyTable level child
          freePage child
        modify (store ⟨table, index⟩ 0)) (List.finRange pageTableEntryCount)

/-! ### Address spaces -/

/-- `virtual_memory_initialize`; the processor tells whether it can forbid execution. -/
def virtualMemoryInitialize (executeDisable : Bool) : Program IosError VirtualMemory Unit := do
  let memory ← get
  failIf (memory.physical.initialized = false) .invalidState
  modify fun memory => { memory with
    kernelRootAddress := memory.pagingRoot
    executeDisableEnabled := executeDisable }
  failIf (executeDisable = false) .notSupported

/-- `virtual_address_space_create`; `out` tells whether there is a place for the address space. -/
def virtualAddressSpaceCreate (out : Bool) : Program IosError VirtualMemory AddressSpace := do
  let memory ← get
  failIf (memory.executeDisableEnabled = false ∨ out = false) .invalidState
  let rootAddress ← onPhysical (PhysicalMemory.physicalAllocatePages 1 1)
  modify (zeroPage rootAddress)
  -- The entries below 2 and from 256 on are those of the kernel.
  modify fun memory => { memory with
    words := update memory.words rootAddress fun index =>
      if index.1 < 2 ∨ 256 ≤ index.1 then memory.words memory.kernelRootAddress index else memory.words rootAddress index }
  pure ⟨rootAddress⟩

/-- The entries of a root for user addresses, from 2 to 255. -/
def userIndices : List (Fin pageTableEntryCount) :=
  (List.finRange pageTableEntryCount).filter fun index => 2 ≤ index.1 ∧ index.1 < 256

/-- `virtual_address_space_destroy`; the pointer is not null. -/
def virtualAddressSpaceDestroy (addressSpace : AddressSpace) : Program IosError VirtualMemory AddressSpace := do
  modify fun memory => memory.assert (addressSpace.rootAddress ≠ 0)
  modify fun memory => memory.assert (addressSpace.rootAddress ≠ memory.kernelRootAddress)
  each (fun index => do
    let memory ← get
    let entry := memory.words addressSpace.rootAddress index
    if entry &&& ptePresent = 0 then pure ()
    else do
      let child := tableFromEntry entry
      destroyTable 3 child
      freePage child
      modify (store ⟨addressSpace.rootAddress, index⟩ 0)) userIndices
  freePage addressSpace.rootAddress
  pure ⟨0⟩

def pagingActivate (rootAddress : Nat) : Program IosError VirtualMemory Unit := do
  modify fun memory => memory.assert (rootAddress % pageSize = 0)
  modify fun memory => { memory with pagingRoot := rootAddress }

def virtualKernelAddressSpaceActivate : Program IosError VirtualMemory Unit := do
  let memory ← get
  modify fun memory => memory.assert (memory.kernelRootAddress ≠ 0)
  pagingActivate memory.kernelRootAddress

/-- `virtual_address_space_activate`; the pointer is not null. -/
def virtualAddressSpaceActivate (addressSpace : AddressSpace) : Program IosError VirtualMemory Unit := do
  modify fun memory => memory.assert (addressSpace.rootAddress ≠ 0)
  pagingActivate addressSpace.rootAddress

/-- How `virtual_map_pages` takes back the pages that it mapped, the last one first. -/
def unmapBack (addressSpace : AddressSpace) (virtualAddress : Nat) : Nat → Program IosError VirtualMemory Unit
  | 0 => pure ()
  | page + 1 => do
    let _ ← attempt (unmapOne addressSpace (virtualAddress + page * pageSize) false)
    unmapBack addressSpace virtualAddress page

/-- The loop of `virtual_map_pages` from `page` on, with `left` pages to go. -/
def mapFrom (addressSpace : AddressSpace) (virtualAddress physicalAddress : Nat) (flags : BitVec 32) (page : Nat) :
    Nat → Program IosError VirtualMemory Unit
  | 0 => pure ()
  | left + 1 => do
    let outcome ← attempt (mapOne addressSpace (virtualAddress + page * pageSize) (physicalAddress + page * pageSize) flags)
    match outcome with
    | .error status => do
      unmapBack addressSpace virtualAddress page
      fail status
    | .ok () => mapFrom addressSpace virtualAddress physicalAddress flags (page + 1) left

/-- `virtual_map_pages`; `none` is a null pointer. -/
def virtualMapPages (addressSpace : Option AddressSpace) (virtualAddress physicalAddress pageCount : Nat) (flags : BitVec 32) :
    Program IosError VirtualMemory Unit := do
  let memory ← get
  match addressSpace with
  | none => fail .invalidArgument
  | some addressSpace => do
    failIf (memory.executeDisableEnabled = false ∨ addressSpace.rootAddress = 0 ∨ pageCount = 0 ∨
      (2 ^ 64 - 1) / pageSize < pageCount) .invalidArgument
    let byteCount := pageCount * pageSize
    let userRange := virtualUserRangeIsValid virtualAddress byteCount
    failIf (virtualAddress % pageSize ≠ 0 ∨ physicalAddress % pageSize ≠ 0 ∨ 2 ^ 64 - 1 - byteCount < virtualAddress ∨
      pteAddressMask.toNat < physicalAddress ∨ pteAddressMask.toNat - physicalAddress < byteCount - pageSize ∨
      virtualRangeIsCanonical virtualAddress byteCount = false ∨
      flags &&& ~~~(vmWrite ||| vmExecute ||| vmUser ||| vmGlobal ||| vmOwned) ≠ 0 ∨
      flags &&& (vmWrite ||| vmExecute) = (vmWrite ||| vmExecute) ∨ decide (flags &&& vmUser ≠ 0) ≠ userRange ∨
      userRange = false ∧ addressSpace.rootAddress ≠ memory.pagingRoot) .invalidArgument
    failIf (flags &&& vmOwned ≠ 0 ∧ ∃ page < pageCount,
      memory.physical.physicalPageIsAllocated (physicalAddress + page * pageSize) = false) .invalidState
    mapFrom addressSpace virtualAddress physicalAddress flags 0 pageCount

/-- The check of `virtual_unmap_pages` on a page. -/
def leafIsPresent (memory : VirtualMemory) (addressSpace : AddressSpace) (virtualAddress : Nat) : Bool :=
  match memory.locateLeaf addressSpace virtualAddress with
  | .error _ => false
  | .ok leaf => memory.load leaf &&& ptePresent ≠ 0

def virtualUnmapPages (addressSpace : Option AddressSpace) (virtualAddress pageCount : Nat) :
    Program IosError VirtualMemory Unit := do
  let memory ← get
  match addressSpace with
  | none => fail .invalidArgument
  | some addressSpace => do
    failIf (addressSpace.rootAddress = 0 ∨ pageCount = 0 ∨ virtualAddress % pageSize ≠ 0 ∨ (2 ^ 64 - 1) / pageSize < pageCount ∨
      2 ^ 64 - 1 - pageCount * pageSize < virtualAddress) .invalidArgument
    failIf (virtualUserRangeIsValid virtualAddress (pageCount * pageSize) = false ∧
      addressSpace.rootAddress ≠ memory.pagingRoot) .invalidArgument
    failIf (∃ page < pageCount, memory.leafIsPresent addressSpace (virtualAddress + page * pageSize) = false) .notFound
    each (fun page => do
      let _ ← attempt (unmapOne addressSpace (virtualAddress + page * pageSize) true)) (List.range pageCount)

/-- `virtual_translate`; `out` tells whether there is a place for the physical address. -/
def virtualTranslate (memory : VirtualMemory) (addressSpace : Option AddressSpace) (virtualAddress : Nat) (out : Bool) :
    Except IosError Nat :=
  match addressSpace with
  | none => .error .invalidArgument
  | some addressSpace =>
    if out = false ∨ addressSpace.rootAddress = 0 ∨ virtualAddressIsCanonical virtualAddress = false then .error .invalidArgument
    else
      let pml4e := memory.words addressSpace.rootAddress (pml4Index virtualAddress)
      if pml4e &&& ptePresent = 0 ∨ pml4e &&& pteLarge ≠ 0 then .error .notFound
      else
        let pdpte := memory.words (tableFromEntry pml4e) (pdptIndex virtualAddress)
        if pdpte &&& ptePresent = 0 then .error .notFound
        else if pdpte &&& pteLarge ≠ 0 then .ok ((pdpte &&& pte1GAddressMask).toNat + virtualAddress % 2 ^ 30)
        else
          let pde := memory.words (tableFromEntry pdpte) (pdIndex virtualAddress)
          if pde &&& ptePresent = 0 then .error .notFound
          else if pde &&& pteLarge ≠ 0 then .ok ((pde &&& pte2MAddressMask).toNat + virtualAddress % 2 ^ 21)
          else
            let pte := memory.words (tableFromEntry pde) (ptIndex virtualAddress)
            if pte &&& ptePresent = 0 then .error .notFound
            else .ok ((pte &&& pteAddressMask).toNat + virtualAddress % pageSize)

/-- `virtual_query`; `out` and `outFlags` tell whether there are places for the results. -/
def virtualQuery (memory : VirtualMemory) (addressSpace : Option AddressSpace) (virtualAddress : Nat) (out outFlags : Bool) :
    Except IosError (Nat × BitVec 32) :=
  if outFlags = false then .error .invalidArgument
  else do
    let physicalAddress ← memory.virtualTranslate addressSpace virtualAddress out
    match addressSpace with
    | none => .error .invalidArgument
    | some addressSpace => do
      let leaf ← memory.locateLeaf addressSpace virtualAddress
      .ok (physicalAddress, queryFlags (memory.load leaf))

end VirtualMemory
end InferenceOS
