import Mathlib.Data.Nat.Count
import InferenceOS.Lib.Packed
import InferenceOS.Lib.Program
import InferenceOS.Status

/-! The allocator of physical pages, `memory/physical.c`. Its static variables are the state. Numbers of pages and
    addresses are those of 64-bit words; where the source lets a sum wrap, the model reduces it. Interrupts are
    off during each call, so that a call is one step. -/

namespace InferenceOS
open Program

def pageSize : Nat := 4096

def memoryMapMaxRegions : Nat := 256

def physicalAddressLimit : Nat := 2 ^ 52

inductive PageState where
  | unavailable | free | allocated | reclaimable
  deriving DecidableEq, Repr

namespace PageState

/-- The number of a state. -/
def number : PageState → Fin 4
  | .unavailable => 0
  | .free => 1
  | .allocated => 2
  | .reclaimable => 3

/-- The state in the two lowest bits. -/
def ofBits (bits : BitVec 8) : PageState :=
  if bits = 1 then .free else if bits = 2 then .allocated else if bits = 3 then .reclaimable else .unavailable

end PageState

/-- `enum ios_physical_memory_kind`. -/
inductive PhysicalKind where
  | reserved | usable | reclaimable
  deriving DecidableEq, Repr

/-- `struct ios_physical_memory_region`; a kind that is none of the three is `none`. -/
structure PhysicalRegion where
  base : Nat
  pageCount : Nat
  kind : Option PhysicalKind
  deriving DecidableEq, Repr

structure PhysicalReservation where
  base : Nat
  byteCount : Nat
  deriving DecidableEq, Repr

/-- The static variables of the allocator. -/
structure PhysicalMemory where
  pageStates : Nat → BitVec 8
  managedPageCount : Nat
  freePageCount : Nat
  allocatedPageCount : Nat
  metadataPhysicalBase : Nat
  metadataPageCount : Nat
  searchHint : Nat
  initialized : Bool

namespace PhysicalMemory

/-- The static variables before the first call. -/
def unset : PhysicalMemory := ⟨fun _ => 0, 0, 0, 0, 0, 0, 0, false⟩

/-- `add_overflows`: the sum when it fits a word. -/
def add? (left right : Nat) : Option Nat := if 2 ^ 64 - 1 - left < right then none else some (left + right)

/-- `multiply_overflows`: the product when it fits a word. -/
def multiply? (left right : Nat) : Option Nat :=
  if left ≠ 0 ∧ (2 ^ 64 - 1) / left < right then none else some (left * right)

/-- `ranges_overlap`; ranges that leave the address space count as overlapping. -/
def rangesOverlap (leftBase leftSize rightBase rightSize : Nat) : Bool :=
  if leftSize = 0 ∨ rightSize = 0 then false
  else
    match add? leftBase leftSize, add? rightBase rightSize with
    | some leftEnd, some rightEnd => leftBase < rightEnd ∧ rightBase < leftEnd
    | _, _ => true

def getPageState (memory : PhysicalMemory) (page : Nat) : PageState := .ofBits (Packed.field memory.pageStates page)

def setPageState (memory : PhysicalMemory) (page : Nat) (state : PageState) : PhysicalMemory :=
  { memory with pageStates := Packed.setField memory.pageStates page (BitVec.ofNat 8 state.number.1) }

/-- The loops that give `count` pages from `first` on one state. -/
def setPages (state : PageState) : Nat → Nat → PhysicalMemory → PhysicalMemory
  | _, 0, memory => memory
  | first, count + 1, memory => setPages state (first + 1) count (memory.setPageState first state)

/-- `mark_range`; the end of the range wraps. -/
def markRange (memory : PhysicalMemory) (firstPage pageCount : Nat) (state : PageState) : PhysicalMemory :=
  setPages state firstPage (min ((firstPage + pageCount) % 2 ^ 64) memory.managedPageCount - firstPage) memory

/-! ### Initialization -/

/-- `(value + (IOS_PAGE_SIZE - 1)) & ~(IOS_PAGE_SIZE - 1)`. -/
def pageCeil (value : Nat) : Nat := (value + (pageSize - 1)) % 2 ^ 64 / pageSize * pageSize

def reservationIsValid (reservation : PhysicalReservation) : Bool :=
  reservation.byteCount = 0 ∨ ∃ e ∈ add? reservation.base reservation.byteCount, e ≤ physicalAddressLimit

/-- `candidate_overlaps_reservation`: the next candidate when some reservation is in the way. -/
def candidateOverlapsReservation (candidate byteCount : Nat) (reservations : List PhysicalReservation) : Option Nat :=
  (reservations.find? fun reservation => rangesOverlap candidate byteCount reservation.base reservation.byteCount).map
    fun reservation => pageCeil (reservation.base + reservation.byteCount)

/-- The inner loop of `find_metadata_space`. Each turn passes at least a page of the region, so that `fuel`, its
    number of pages, outlasts the loop. -/
def metadataFrom (reservations : List PhysicalReservation) (byteCount regionEnd : Nat) : Nat → Nat → Option Nat
  | 0, _ => none
  | fuel + 1, candidate =>
    if regionEnd < candidate ∨ regionEnd - candidate < byteCount then none
    else
      match candidateOverlapsReservation candidate byteCount reservations with
      | none => some candidate
      | some next => if next ≤ candidate then none else metadataFrom reservations byteCount regionEnd fuel next

def findMetadataSpace (reservations : List PhysicalReservation) (byteCount : Nat) : List PhysicalRegion → Option Nat
  | [] => none
  | region :: rest =>
    if region.kind ≠ some .usable then findMetadataSpace reservations byteCount rest
    else
      match multiply? region.pageCount pageSize >>= add? region.base with
      | none => findMetadataSpace reservations byteCount rest
      | some regionEnd =>
        match metadataFrom reservations byteCount regionEnd (region.pageCount + 1) region.base with
        | some candidate => some candidate
        | none => findMetadataSpace reservations byteCount rest

/-- The checks of `physical_memory_initialize` on the regions: the end of the usable and reclaimable ones. -/
def maximumUsableEnd : List PhysicalRegion → Nat → Except IosError Nat
  | [], maximum => .ok maximum
  | region :: rest, maximum =>
    match multiply? region.pageCount pageSize with
    | none => .error .invalidArgument
    | some regionBytes =>
      match add? region.base regionBytes with
      | none => .error .invalidArgument
      | some regionEnd => do
        if region.base % pageSize ≠ 0 ∨ region.pageCount = 0 ∨ physicalAddressLimit < regionEnd then .error .invalidArgument
        if region.kind = none then .error .invalidArgument
        if rest.any fun other => match multiply? other.pageCount pageSize with
            | none => true
            | some otherBytes => rangesOverlap region.base regionBytes other.base otherBytes then .error .invalidArgument
        maximumUsableEnd rest (if region.kind ≠ some .reserved ∧ maximum < regionEnd then regionEnd else maximum)

/-- The state that the pages of a region get. -/
def markRegion (memory : PhysicalMemory) (region : PhysicalRegion) : PhysicalMemory :=
  match region.kind with
  | some .usable => memory.markRange (region.base / pageSize) region.pageCount .free
  | some .reclaimable => memory.markRange (region.base / pageSize) region.pageCount .reclaimable
  | _ => memory

/-- The pages of a reservation are unavailable; the sum and the difference wrap. -/
def markReservation (memory : PhysicalMemory) (reservation : PhysicalReservation) : PhysicalMemory :=
  let first := reservation.base / pageSize
  let rest := (reservation.base + reservation.byteCount) % 2 ^ 64
  let rest := if rest % pageSize ≠ 0 then pageCeil rest else rest
  memory.markRange first ((rest / pageSize + 2 ^ 64 - first) % 2 ^ 64) .unavailable

def physicalMemoryInitialize (regions : List PhysicalRegion) (reservations : List PhysicalReservation) :
    Program IosError PhysicalMemory Unit := do
  let memory ← get
  failIf (memory.initialized = true) .invalidState
  failIf (regions = [] ∨ memoryMapMaxRegions < regions.length ∨ memoryMapMaxRegions < reservations.length) .invalidArgument
  let maximum ← ofExcept (maximumUsableEnd regions 0)
  failIf (∃ reservation ∈ reservations, reservationIsValid reservation = false) .invalidArgument
  failIf (maximum = 0) .noMemory
  let managed := maximum / pageSize
  let metadataPages := ((managed + 3) / 4 + (pageSize - 1)) / pageSize
  modify fun memory => { memory with managedPageCount := managed, metadataPageCount := metadataPages }
  match findMetadataSpace reservations (metadataPages * pageSize) regions with
  | none => fail .noMemory
  | some base =>
    modify fun memory => { memory with metadataPhysicalBase := base, pageStates := fun _ => 0 }
    modify fun memory => regions.foldl markRegion memory
    modify fun memory => reservations.foldl markReservation memory
    modify fun memory => (memory.markRange 0 1 .unavailable).markRange (base / pageSize) metadataPages .unavailable
    modify fun memory => { memory with
      freePageCount := Nat.count (fun page => memory.getPageState page = .free) memory.managedPageCount
      allocatedPageCount := 0
      searchHint := 1
      initialized := true }

/-! ### Allocation -/

/-- The loop that counts free pages from `page` on, at most `left`. -/
def available (memory : PhysicalMemory) : Nat → Nat → Nat
  | _, 0 => 0
  | page, left + 1 => if memory.getPageState page = .free then memory.available (page + 1) left + 1 else 0

/-- The next multiple of a power of two: `(page + alignment - 1) & ~(alignment - 1)`. -/
def alignUp (page alignmentPages : Nat) : Nat := (page + alignmentPages - 1) / alignmentPages * alignmentPages

/-- One pass of the search for `pageCount` free pages below `limit`. Each turn passes at least a page. -/
def searchFrom (memory : PhysicalMemory) (pageCount alignmentPages limit : Nat) : Nat → Nat → Option Nat
  | 0, _ => none
  | fuel + 1, start =>
    if limit ≤ start then none
    else
      let page := alignUp start alignmentPages
      if limit ≤ page ∨ limit - page < pageCount then none
      else
        let count := memory.available page pageCount
        if count = pageCount then some page
        else memory.searchFrom pageCount alignmentPages limit fuel (page + count + 1)

/-- The two passes of the search: from the hint to the end, and from the first page to the hint. -/
def search (memory : PhysicalMemory) (pageCount alignmentPages : Nat) : Option Nat :=
  match memory.searchFrom pageCount alignmentPages memory.managedPageCount memory.managedPageCount memory.searchHint with
  | some page => some page
  | none => memory.searchFrom pageCount alignmentPages memory.searchHint memory.searchHint 1

/-- `physical_allocate_pages`: the physical address. -/
def physicalAllocatePages (pageCount alignmentPages : Nat) : Program IosError PhysicalMemory Nat := do
  let memory ← get
  failIf (memory.initialized = false ∨ pageCount = 0 ∨ alignmentPages = 0 ∨
    alignmentPages &&& (alignmentPages - 1) ≠ 0) .invalidArgument
  failIf (memory.freePageCount < pageCount) .noMemory
  match memory.search pageCount alignmentPages with
  | some page =>
    modify fun memory => { memory.setPages .allocated page pageCount with
      freePageCount := memory.freePageCount - pageCount
      allocatedPageCount := memory.allocatedPageCount + pageCount
      searchHint := if memory.managedPageCount ≤ page + pageCount then 1 else page + pageCount }
    pure (page * pageSize)
  | none =>
    modify fun memory => { memory with searchHint := 1 }
    fail .noMemory

/-- The checks that `physical_free_pages` and `physical_reclaim_pages` share, and their new page states. -/
def releasePages (expected : PageState) (physicalAddress pageCount : Nat) : Program IosError PhysicalMemory Unit := do
  let memory ← get
  let firstPage := physicalAddress / pageSize
  failIf (memory.initialized = false ∨ pageCount = 0 ∨ physicalAddress % pageSize ≠ 0 ∨
    memory.managedPageCount ≤ firstPage ∨ memory.managedPageCount - firstPage < pageCount) .invalidArgument
  failIf (∃ offset < pageCount, memory.getPageState (firstPage + offset) ≠ expected) .invalidState
  modify fun memory => { memory.setPages .free firstPage pageCount with
    freePageCount := memory.freePageCount + pageCount
    searchHint := if firstPage < memory.searchHint then firstPage else memory.searchHint }

def physicalFreePages (physicalAddress pageCount : Nat) : Program IosError PhysicalMemory Unit := do
  releasePages .allocated physicalAddress pageCount
  modify fun memory => { memory with allocatedPageCount := memory.allocatedPageCount - pageCount }

def physicalReclaimPages (physicalAddress pageCount : Nat) : Program IosError PhysicalMemory Unit :=
  releasePages .reclaimable physicalAddress pageCount

def physicalPageIsAllocated (memory : PhysicalMemory) (physicalAddress : Nat) : Bool :=
  memory.initialized ∧ physicalAddress % pageSize = 0 ∧ physicalAddress / pageSize < memory.managedPageCount ∧
    memory.getPageState (physicalAddress / pageSize) = .allocated

end PhysicalMemory
end InferenceOS
