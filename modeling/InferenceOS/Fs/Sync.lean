import InferenceOS.Block.Cache

/-! The write ordering of `src/filesystems/inferenceos_fs/sync.c`: writes of one generation, separated
    by barriers. `sync->cache` is the cache itself here; it is null only after
    `ios_fs_sync_invalidate_operation`, which is not modelled. -/

namespace InferenceOS
open Program

/-! `enum ios_fs_dirty_component`, a set of components as a bit mask. -/

namespace DirtyComponent

def content : UInt32 := 1
def allocation : UInt32 := 2
def primary : UInt32 := 4
def companion : UInt32 := 8
def registry : UInt32 := 16
def all : UInt32 := 31

end DirtyComponent

def validComponent (component : UInt32) : Prop := component ≠ 0 ∧ component &&& ~~~DirtyComponent.all = 0

instance (component : UInt32) : Decidable (validComponent component) := inferInstanceAs (Decidable (_ ∧ _))

structure Sync where
  cache : BlockCache
  generation : Nat
  durableGeneration : Nat
  dirtyComponents : UInt32
  lastResult : Except IosError Unit

namespace Sync

/-- Run a cache operation of the sync object. -/
def onCache {α : Type} (m : Program IosError BlockCache α) : Program IosError Sync α :=
  zoom Sync.cache (fun sync cache => { sync with cache }) m

def syncInitialize (cache : BlockCache) : Sync :=
  { cache, generation := cache.currentGeneration, durableGeneration := 0, dirtyComponents := 0, lastResult := .ok () }

def writeSector (sector : Nat) (bytes : Sector) (component : UInt32) : Program IosError Sync Unit := do
  failIf (¬validComponent component) .invalidArgument
  let sync ← get
  match ← attempt (onCache (BlockCache.write sector bytes sync.generation)) with
  | .error status =>
    modify fun s => { s with lastResult := .error status }
    fail status
  | .ok () => modify fun s => { s with dirtyComponents := s.dirtyComponents ||| component }

def barrier : Program IosError Sync Unit := do
  let sync ← get
  if sync.generation = 2 ^ 64 - 1 then
    modify fun s => { s with lastResult := .error .overflow }
    fail .overflow
  else
    match ← attempt (onCache (BlockCache.barrier sync.generation)) with
    | .error status =>
      modify fun s => { s with lastResult := .error status }
      fail status
    | .ok () =>
      modify fun s => { s with lastResult := .ok (), durableGeneration := s.generation, dirtyComponents := 0 }
      match ← attempt (onCache BlockCache.advanceGeneration) with
      | .error status =>
        modify fun s => { s with lastResult := .error status }
        fail status
      | .ok generation => modify fun s => { s with generation }

def durableResult (sync : Sync) : Except IosError Unit :=
  match sync.lastResult with
  | .error status => .error status
  | .ok () => if sync.dirtyComponents = 0 then .ok () else .error .wouldBlock

end Sync
end InferenceOS
