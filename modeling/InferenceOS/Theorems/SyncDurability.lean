import InferenceOS.Fs.Sync
import InferenceOS.Theorems.CacheRuns

/-! What a barrier of the sync object makes durable. The generations of the sync object and of its cache
    stay equal, so a barrier covers every write so far, also those that an earlier barrier failed on. -/

namespace InferenceOS
open Program Function

namespace BlockCache
variable {cache c : BlockCache}

theorem Flushed.contents (h : Flushed cache.currentGeneration cache c) (hco : cache.Coherent) :
    c.device.contents = cache.view := by
  funext n
  by_cases hi : ∃ i, cache.Holds i n
  · obtain ⟨i, hi⟩ := hi
    by_cases hd : Due cache.currentGeneration (cache.entries i)
    · exact h.written hi hd
    · have hs : (cache.entries i).state = .clean := by
        have hg := hco.generation hi.1
        have hne := hi.2.1
        unfold Due at hd
        cases hs : (cache.entries i).state <;> simp_all
      rw [h.elsewhere fun j hj => by rw [hco.unique hj hi]; exact hd, hco.view_of_holds hi, hco.clean hi.1 hs, hi.2.2]
  · have hi := not_exists.mp hi
    rw [h.elsewhere fun j hj => absurd hj (hi j), view_of_not_holds hi]

theorem Flushed.settled (h : Flushed cache.currentGeneration cache c) (hco : cache.Coherent) {i : Nat}
    (hi : i < c.entryCount) : (c.entries i).state = .empty ∨ (c.entries i).state = .clean := by
  have hi' : i < cache.entryCount := h.entryCount ▸ hi
  rw [h.entries i]
  split
  · exact Or.inr rfl
  · rename_i hd
    have hg := hco.generation hi'
    unfold Due at hd
    cases hs : (cache.entries i).state <;> simp_all

end BlockCache

namespace Sync
variable {sync : Sync}

/-- The invariant of the sync object: its generation is the one of its cache. -/
structure InStep (sync : Sync) : Prop where
  coherent : sync.cache.Coherent
  generation : sync.generation = sync.cache.currentGeneration
  positive : 0 < sync.generation

/-- What `ios_fs_sync_write_sector` does on success. -/
structure Wrote (s s' : Sync) (n : Nat) (b : Sector) : Prop where
  stored : BlockCache.Stored s.cache s'.cache n b
  generation : s'.generation = s.generation
  dirty : s'.dirtyComponents ≠ 0
  lastResult : s'.lastResult = s.lastResult
  inRange : n < s.cache.device.sectorCount

structure Refused (s s' : Sync) : Prop where
  steady : BlockCache.Steady s.cache s'.cache
  generation : s'.generation = s.generation
  dirty : s'.dirtyComponents = s.dirtyComponents
  lastResult : s'.lastResult = s.lastResult ∨ ∃ e, s'.lastResult = .error e

theorem writeSector_spec (h : sync.InStep) {n : Nat} {b : Sector} {component : UInt32} :
    wp (writeSector n b component) (fun _ s => Wrote sync s n b)
      (fun e s => Refused sync s ∧ e ≠ .notFound ∧ (validComponent component → sync.cache.device.Healthy →
        ∀ i, sync.cache.Loose i → sync.cache.device.sectorCount ≤ n)) sync := by
  simp only [writeSector, wp_bind, wp_failIf, wp_get, wp_attempt, onCache, wp_zoom]
  refine ⟨fun hv => ⟨⟨BlockCache.Steady.refl h.coherent, rfl, rfl, Or.inl rfl⟩, by simp, fun hx => absurd hx hv⟩,
    fun hv => ?_⟩
  refine wp_mono (BlockCache.write_spec h.coherent) (fun _ c hx => ?_) fun e c hx => ?_
  · obtain ⟨hc, hn⟩ := hx
    rw [wp_modify]
    refine ⟨hc, rfl, fun hz => ?_, rfl, hn⟩
    have hz : sync.dirtyComponents ||| component = 0 := hz
    rw [UInt32.or_eq_zero_iff] at hz
    exact (not_not.mp hv).1 hz.2
  · obtain ⟨hc, he, hh⟩ := hx
    simp only [wp_modify, wp_fail]
    exact ⟨⟨hc, rfl, rfl, Or.inr ⟨e, rfl⟩⟩, he, fun _ hx => hh hx h.positive (le_of_eq h.generation)⟩

structure Synced (s s' : Sync) : Prop where
  coherent : s'.cache.Coherent
  generation : s'.generation = s'.cache.currentGeneration
  advanced : s'.generation = s.generation + 1
  flushed : ∃ c, BlockCache.Flushed s.generation s.cache c ∧
    s'.cache = { c with currentGeneration := s'.generation }
  dirty : s'.dirtyComponents = 0
  lastResult : s'.lastResult = .ok ()

structure Unsynced (s s' : Sync) : Prop where
  unflushed : BlockCache.Unflushed s.generation s.cache s'.cache
  generation : s'.generation = s.generation
  dirty : s'.dirtyComponents = s.dirtyComponents
  lastResult : ∃ e, s'.lastResult = .error e

theorem barrier_spec (h : sync.InStep) :
    wp barrier (fun _ s => Synced sync s)
      (fun e s => Unsynced sync s ∧ e ≠ .notFound ∧
        (sync.cache.device.Healthy → sync.generation = 2 ^ 64 - 1 ∧ s.cache = sync.cache)) sync := by
  simp only [barrier, wp_bind, wp_get, wp_ite]
  refine ⟨fun hg => ?_, fun hg => ?_⟩
  · simp only [wp_modify, wp_fail]
    exact ⟨⟨BlockCache.Unflushed.refl h.coherent, rfl, rfl, ⟨_, rfl⟩⟩, by simp, fun _ => ⟨hg, trivial⟩⟩
  simp only [wp_bind, wp_attempt, onCache, wp_zoom]
  refine wp_mono (BlockCache.barrier_spec h.coherent) (fun _ c hc => ?_) fun e c ⟨hc, he, hh⟩ => ?_
  · simp only [wp_modify, wp_bind, wp_attempt, wp_zoom]
    refine wp_mono BlockCache.advanceGeneration_spec (fun g c' ⟨hg', hc'⟩ => ?_) fun e c' ⟨_, _, ho⟩ => ?_
    · subst hc'
      refine ⟨hc.coherent.advanced (by omega), rfl, ?_, ⟨c, hc, rfl⟩, rfl, rfl⟩
      rw [h.generation, ← hc.generation]
      exact hg'
    · rw [hc.generation, ← h.generation] at ho
      exact absurd ho hg
  · simp only [wp_modify, wp_fail]
    exact ⟨⟨hc, rfl, rfl, ⟨_, rfl⟩⟩, he, fun hx => (hh hx h.positive (le_of_eq h.generation)).elim⟩

end Sync

/-- One call of the sync object. -/
inductive SyncOp where
  | writeSector (sector : Nat) (bytes : Sector) (component : UInt32)
  | barrier

def SyncOp.run : SyncOp → Program IosError Sync Unit
  | .writeSector sector bytes component => Sync.writeSector sector bytes component
  | .barrier => Sync.barrier

/-- What the run remembers: the last successful write of each sector, and the sectors written since the
    last successful barrier. -/
structure SyncTrace where
  written : Nat → Option Sector
  unsynced : List Nat

def SyncOp.note (trace : SyncTrace) : SyncOp → Except IosError Unit → SyncTrace
  | .writeSector sector bytes _, .ok () =>
    { written := update trace.written sector (some bytes), unsynced := sector :: trace.unsynced }
  | .barrier, .ok () => { trace with unsynced := [] }
  | _, .error _ => trace

/-- The states that calls of a sync object lead to. It starts on the cache of any earlier run. -/
inductive SyncRun (device : BlockDevice) : Sync → SyncTrace → Prop where
  | start {cache written} : CacheRun device cache written →
      SyncRun device (.syncInitialize cache) { written := fun _ => none, unsynced := [] }
  | step {sync trace result sync'} (op : SyncOp) : SyncRun device sync trace → op.run sync = (result, sync') →
      SyncRun device sync' (op.note trace result)

namespace Sync
variable {sync : Sync} {device : BlockDevice} {trace : SyncTrace}

structure Tracks (device : BlockDevice) (sync : Sync) (trace : SyncTrace) : Prop extends sync.InStep where
  view : ∀ {n b}, trace.written n = some b → sync.cache.view n = b
  pending : ∀ i, i < sync.cache.entryCount →
    (sync.cache.entries i).state = .dirty ∨ (sync.cache.entries i).state = .error →
      trace.written (sync.cache.entries i).sector = none ∨ (sync.cache.entries i).sector ∈ trace.unsynced
  recorded : ∀ medium, device.Recorded medium → sync.cache.device.Recorded medium
  dirty : sync.dirtyComponents = 0 → sync.lastResult = .ok () → trace.unsynced = []

theorem tracks_start {cache : BlockCache} {written : Nat → Option Sector} (h : CacheRun device cache written) :
    Tracks device (.syncInitialize cache) { written := fun _ => none, unsynced := [] } := by
  have t := BlockCache.run_tracks h
  exact ⟨⟨t.coherent, rfl, t.positive⟩, by simp, fun _ _ _ => Or.inl rfl, t.recorded, fun _ _ => rfl⟩

section Steps
variable {s : Sync}

theorem Tracks.wrote (t : Tracks device sync trace) {n : Nat} {b : Sector} (h : Wrote sync s n b) :
    Tracks device s { written := update trace.written n (some b), unsynced := n :: trace.unsynced } where
  coherent := h.stored.coherent
  generation := by rw [h.generation, h.stored.generation]; exact t.generation
  positive := h.generation ▸ t.positive
  view {m b'} hm := by
    rw [h.stored.view]
    dsimp only at hm
    by_cases hmn : m = n
    · subst hmn
      simpa using hm
    · rw [update_of_ne hmn] at hm ⊢
      exact t.view hm
  pending i hi hs := by
    by_cases hn : (s.cache.entries i).sector = n
    · exact Or.inr (by simp [hn])
    · have hx : (s.cache.entries i).state ≠ .empty := fun hx => by simp [hx] at hs
      dsimp only
      rw [update_of_ne hn]
      rw [h.stored.others i _ ⟨hi, hx, rfl⟩ hn] at hs ⊢
      exact (t.pending i (h.stored.entryCount ▸ hi) hs).imp_right (List.mem_cons_of_mem _)
  recorded m hm := by
    rw [BlockDevice.Recorded, h.stored.contents, h.stored.history]
    exact t.recorded m hm
  dirty hd := absurd hd h.dirty

theorem Tracks.refused (t : Tracks device sync trace) (h : Refused sync s) : Tracks device s trace where
  coherent := h.steady.coherent
  generation := by rw [h.generation, h.steady.generation]; exact t.generation
  positive := h.generation ▸ t.positive
  view hm := by
    rw [h.steady.view]
    exact t.view hm
  pending i hi hs := by
    obtain ⟨hh, hd⟩ := (h.steady.repinned t.coherent).dirty i hi hs
    rw [← hh.2.2]
    exact t.pending i hh.1 hd
  recorded m hm := by
    rw [BlockDevice.Recorded, h.steady.contents, h.steady.history]
    exact t.recorded m hm
  dirty hd hl := by
    rcases h.lastResult with hr | ⟨e, hr⟩
    · exact t.dirty (h.dirty ▸ hd) (hr ▸ hl)
    · rw [hr] at hl
      cases hl

theorem Tracks.synced (t : Tracks device sync trace) (h : Synced sync s) :
    Tracks device s { trace with unsynced := [] } := by
  obtain ⟨c, hc, he⟩ := h.flushed
  rw [t.generation] at hc
  have hview : s.cache.view = sync.cache.view := by
    rw [he]
    exact hc.view
  refine ⟨⟨h.coherent, h.generation, by have := h.advanced; omega⟩, fun hm => ?_, fun i hi hs => ?_, fun m hm => ?_,
    fun _ _ => rfl⟩
  · rw [hview]
    exact t.view hm
  · rw [he] at hi hs
    have hst := hc.settled t.coherent (i := i) hi
    dsimp only at hs
    rcases hs with hs | hs <;> simp [hs] at hst
  · rw [he]
    exact hc.recorded m (t.recorded m hm)

theorem Tracks.unsynced (t : Tracks device sync trace) (h : Unsynced sync s) : Tracks device s trace where
  coherent := h.unflushed.coherent
  generation := by rw [h.generation, h.unflushed.generation]; exact t.generation
  positive := h.generation ▸ t.positive
  view hm := by
    rw [h.unflushed.view]
    exact t.view hm
  pending i hi hs := by
    have hi : i < sync.cache.entryCount := h.unflushed.entryCount ▸ hi
    rw [h.unflushed.sector]
    by_cases hd : BlockCache.Due sync.generation (sync.cache.entries i)
    · exact t.pending i hi hd.1
    · rw [h.unflushed.others i hi hd] at hs
      exact t.pending i hi hs
  recorded m hm := h.unflushed.recorded m (t.recorded m hm)
  dirty _ hl := by
    obtain ⟨e, he⟩ := h.lastResult
    rw [he] at hl
    cases hl

end Steps

theorem run_tracks (h : SyncRun device sync trace) : Tracks device sync trace := by
  induction h with
  | start hc => exact tracks_start hc
  | @step sync trace result sync' op _ hop ih =>
    cases op with
    | writeSector n b component =>
      cases result with
      | ok =>
        have hw := wp_ok (writeSector_spec ih.toInStep) hop
        exact ih.wrote hw
      | error e =>
        have hw := wp_error (writeSector_spec ih.toInStep) hop
        exact ih.refused hw.1
    | barrier =>
      cases result with
      | ok =>
        have hb := wp_ok (barrier_spec ih.toInStep) hop
        exact ih.synced hb
      | error e =>
        have hb := wp_error (barrier_spec ih.toInStep) hop
        exact ih.unsynced hb.1

theorem Tracks.contents (t : Tracks device sync trace) (hu : trace.unsynced = []) {n : Nat} {b : Sector}
    (hw : trace.written n = some b) : sync.cache.device.contents n = b := by
  rw [← t.view hw]
  refine (t.coherent.view_eq (fun i hi => ?_) fun _ => rfl).symm
  have hs : (sync.cache.entries i).state = .clean := by
    have hp := t.pending i hi.1
    have hne := hi.2.1
    rw [hi.2.2, hw, hu] at hp
    cases hs : (sync.cache.entries i).state <;> simp_all
  rw [t.coherent.clean hi.1 hs, hi.2.2]

/-- In every run a successful barrier leaves the last bytes of every sector written so far on the device,
    flushed, so that every later crash finds them; and `ios_fs_sync_durable_result` is `IOS_OK` only when no
    write is waiting for a barrier. -/
theorem syncRun_durable (h : SyncRun device sync trace) :
    (∀ s, barrier sync = (.ok (), s) →
      (∀ n b, trace.written n = some b → s.cache.device.contents n = b) ∧
      (∃ before, s.cache.device.history = before ++ [.flush]) ∧
      ∀ medium image, device.Recorded medium → Crashed medium s.cache.device.history image →
        ∀ n b, trace.written n = some b → image n = b) ∧
    (sync.durableResult = .ok () →
      trace.unsynced = [] ∧ ∀ n b, trace.written n = some b → sync.cache.device.contents n = b) := by
  have t := run_tracks h
  refine ⟨fun s hs => ?_, fun hd => ?_⟩
  · have hsync := wp_ok (barrier_spec t.toInStep) hs
    have t' := t.synced hsync
    have hcontents : ∀ n b, trace.written n = some b → s.cache.device.contents n = b := fun n b hw => t'.contents rfl hw
    obtain ⟨c, hc, he⟩ := hsync.flushed
    obtain ⟨ws, hws, -⟩ := hc.history
    have hh : s.cache.device.history = sync.cache.device.history ++ ws ++ [.flush] := by
      rw [he]
      exact hws
    refine ⟨hcontents, ⟨_, hh⟩, fun medium image hm hi n b hw => ?_⟩
    have hr := t'.recorded medium hm
    rw [BlockDevice.Recorded, hh, replay_append] at hr
    rw [hh] at hi
    rw [hi.of_flush, ← hcontents n b hw, hr]
    rfl
  · have hu : trace.unsynced = [] := by
      unfold durableResult at hd
      split at hd
      · cases hd
      · rename_i hl
        split at hd
        · rename_i hz
          exact t.dirty hz hl
        · cases hd
    exact ⟨hu, fun n b hw => t.contents hu hw⟩

/-- A barrier that fails on a faulty write and is repeated. -/
theorem syncRun_durable_retry :
    let device := { BlockDevice.blank 4 with
      faults := fun k => if k = 0 then some ⟨.io, by decide, fun _ => Bytes.zero⟩ else none }
    ∃ sync trace s, SyncRun device sync trace ∧ trace.unsynced = [3] ∧ barrier sync = (.ok (), s) ∧
      s.cache.device.contents 3 = fun _ => 7 := by
  intro device
  have hcache : BlockCache.blockCacheInitialize device 1 = .ok _ := rfl
  have hwrite := SyncRun.step (.writeSector 3 (fun _ => 7) DirtyComponent.content) (SyncRun.start (CacheRun.start hcache))
    (run_eq (r := .ok ()) (by decide +kernel))
  have hfail := SyncRun.step .barrier hwrite (run_eq (r := .error .io) (by decide +kernel))
  refine ⟨_, _, _, hfail, rfl, run_eq ?_, ((syncRun_durable hfail).1 _ (run_eq ?_)).1 3 _ rfl⟩
  · decide +kernel
  · decide +kernel

end Sync
end InferenceOS
