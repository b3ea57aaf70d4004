import InferenceOS.Block.Device

/-! The sector cache of `src/block/cache.c`: a fixed number of entries over one device, written back
    by barriers and evicted only when clean and unpinned. -/

namespace InferenceOS
open Program

inductive CacheState where
  | empty | clean | dirty | error
  deriving DecidableEq, Repr

structure CacheEntry where
  bytes : Sector
  sector : Nat
  dirtyGeneration : Nat
  lastUse : Nat
  pinCount : Nat
  state : CacheState
  ioActive : Bool

/-- The result of `memset(entry, 0, sizeof(*entry))`. -/
def CacheEntry.zero : CacheEntry := ⟨Bytes.zero, 0, 0, 0, 0, .empty, false⟩

/-- `struct ios_block_cache`: `entries i` is meaningful for `i < entryCount`. -/
structure BlockCache where
  device : BlockDevice
  entries : Nat → CacheEntry
  entryCount : Nat
  currentGeneration : Nat
  useClock : Nat

namespace BlockCache

def maxEntries : Nat := 256

def findEntry (cache : BlockCache) (sector : Nat) : Option Nat :=
  (List.range cache.entryCount).find? fun i =>
    (cache.entries i).state ≠ .empty ∧ (cache.entries i).sector = sector

/-- The loop of `select_victim`: the first empty entry, else the clean one used longest ago. -/
def victimAmong (entries : Nat → CacheEntry) : List Nat → Option Nat → Option Nat
  | [], victim => victim
  | i :: rest, victim =>
    if (entries i).pinCount ≠ 0 ∨ (entries i).ioActive then victimAmong entries rest victim
    else if (entries i).state = .empty then some i
    else if (entries i).state = .clean ∧ ∀ v ∈ victim, (entries i).lastUse < (entries v).lastUse then
      victimAmong entries rest (some i)
    else victimAmong entries rest victim

def selectVictim (cache : BlockCache) : Option Nat :=
  victimAmong cache.entries (List.range cache.entryCount) none

/-- `++cache->use_clock`. -/
def nextUse (cache : BlockCache) : Nat := (cache.useClock + 1) % 2 ^ 64

def putEntry (cache : BlockCache) (i : Nat) (entry : CacheEntry) : BlockCache :=
  { cache with entries := Function.update cache.entries i entry }

/-- Run a device operation of the cache. -/
def onDevice {α : Type} (m : Program IosError BlockDevice α) : Program IosError BlockCache α :=
  zoom BlockCache.device (fun cache device => { cache with device }) m

/-- `acquire_entry`. `io_active` is raised only around the device call. -/
def acquireEntry (sector : Nat) (load : Bool) : Program IosError BlockCache Nat := do
  let cache ← get
  failIf (cache.device.sectorCount ≤ sector) .outOfRange
  match cache.findEntry sector with
  | some i =>
    modify fun c => { c.putEntry i { c.entries i with lastUse := c.nextUse } with useClock := c.nextUse }
    pure i
  | none =>
    match cache.selectVictim with
    | none => fail .wouldBlock
    | some i =>
      let fresh : CacheEntry := { CacheEntry.zero with sector, lastUse := cache.nextUse }
      modify fun c => { c.putEntry i fresh with useClock := c.nextUse }
      if load then
        modify fun c => c.putEntry i { fresh with ioActive := true }
        match ← attempt (onDevice (BlockDevice.read sector 1)) with
        | .error status =>
          modify fun c => c.putEntry i .zero
          fail status
        | .ok buffer =>
          modify fun c => c.putEntry i { fresh with bytes := buffer 0, state := .clean }
          pure i
      else
        modify fun c => c.putEntry i { fresh with state := .clean }
        pure i

def blockCacheInitialize (device : BlockDevice) (entryCount : Nat) : Except IosError BlockCache :=
  if entryCount = 0 ∨ maxEntries < entryCount ∨ device.logicalSectorSize ≠ 512 ∨ device.status = .offline ∨
      device.status = .failed then .error .invalidArgument
  else .ok { device, entries := fun _ => .zero, entryCount, currentGeneration := 1, useClock := 0 }

def read (sector : Nat) : Program IosError BlockCache Sector := do
  let i ← acquireEntry sector true
  let cache ← get
  pure (cache.entries i).bytes

def write (sector : Nat) (bytes : Sector) (generation : Nat) : Program IosError BlockCache Unit := do
  let cache ← get
  failIf (generation = 0 ∨ cache.currentGeneration < generation) .invalidArgument
  failIf (cache.device.status = .readOnly) .readOnly
  let i ← acquireEntry sector false
  modify fun c => c.putEntry i { c.entries i with bytes, dirtyGeneration := generation, state := .dirty }

def pin (sector : Nat) : Program IosError BlockCache Unit := do
  let i ← acquireEntry sector true
  let cache ← get
  failIf ((cache.entries i).pinCount = 2 ^ 32 - 1) .overflow
  modify fun c => c.putEntry i { c.entries i with pinCount := (c.entries i).pinCount + 1 }

def unpin (sector : Nat) : Program IosError BlockCache Unit := do
  let cache ← get
  match cache.findEntry sector with
  | none => fail .invalidState
  | some i =>
    failIf ((cache.entries i).pinCount = 0) .invalidState
    modify fun c => c.putEntry i { c.entries i with pinCount := (c.entries i).pinCount - 1 }

def advanceGeneration : Program IosError BlockCache Nat := do
  let cache ← get
  failIf (cache.currentGeneration = 2 ^ 64 - 1) .overflow
  modify fun c => { c with currentGeneration := c.currentGeneration + 1 }
  pure (cache.currentGeneration + 1)

/-- A barrier up to `target` writes this entry: it is dirty or failed, and not of a later generation. -/
def Due (target : Nat) (entry : CacheEntry) : Prop :=
  (entry.state = .dirty ∨ entry.state = .error) ∧ entry.dirtyGeneration ≤ target

instance (target : Nat) (entry : CacheEntry) : Decidable (Due target entry) :=
  inferInstanceAs (Decidable (_ ∧ _))

/-- The first loop of `block_cache_barrier`. The result is `first_error`. -/
def writeBack (target : Nat) : List Nat → Option IosError → Program IosError BlockCache (Option IosError)
  | [], first => pure first
  | i :: rest, first => do
    let cache ← get
    let entry := cache.entries i
    if Due target entry then
      modify fun c => c.putEntry i { entry with ioActive := true }
      match ← attempt (onDevice (BlockDevice.write entry.sector 1 fun _ => entry.bytes)) with
      | .error status =>
        modify fun c => c.putEntry i { entry with ioActive := false, state := .error }
        writeBack target rest (first <|> some status)
      | .ok () =>
        modify fun c => c.putEntry i { entry with ioActive := false, state := .dirty }
        writeBack target rest first
    else writeBack target rest first

/-- The loop of `block_cache_barrier` after a failed flush. -/
def spoil (target : Nat) (cache : BlockCache) : BlockCache :=
  { cache with entries := fun i =>
      if i < cache.entryCount ∧ (cache.entries i).state = .dirty ∧ (cache.entries i).dirtyGeneration ≤ target then
        { cache.entries i with state := .error }
      else cache.entries i }

/-- The last loop of `block_cache_barrier`. -/
def settle (target : Nat) (cache : BlockCache) : BlockCache :=
  { cache with entries := fun i =>
      if i < cache.entryCount ∧ Due target (cache.entries i) then
        { cache.entries i with state := .clean, dirtyGeneration := 0 }
      else cache.entries i }

def barrier (target : Nat) : Program IosError BlockCache Unit := do
  let cache ← get
  failIf (target = 0 ∨ cache.currentGeneration < target) .invalidArgument
  match ← writeBack target (List.range cache.entryCount) none with
  | some status => fail status
  | none =>
    match ← attempt (onDevice BlockDevice.flush) with
    | .error status =>
      modify (spoil target)
      fail status
    | .ok () => modify (settle target)

end BlockCache
end InferenceOS
