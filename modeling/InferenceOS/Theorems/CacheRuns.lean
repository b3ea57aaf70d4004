import InferenceOS.Theorems.CacheCoherence

/-! Every run of cache calls, in any order and with any device failures. The ghost map of a run records
    the last bytes that a successful write stored for each sector; the cache always shows exactly these,
    and the device's own bytes elsewhere. -/

namespace InferenceOS
open Program Function
variable {n : Nat}

/-- One call of the cache. -/
inductive CacheOp where
  | read (sector : Nat)
  | write (sector : Nat) (bytes : Sector) (generation : Nat)
  | pin (sector : Nat)
  | unpin (sector : Nat)
  | advanceGeneration
  | barrier (target : Nat)

/-- The call itself; only its status matters to the run. -/
def CacheOp.run : CacheOp → Program IosError BlockCache Unit
  | .read sector => do let _ ← BlockCache.read sector
  | .write sector bytes generation => BlockCache.write sector bytes generation
  | .pin sector => BlockCache.pin sector
  | .unpin sector => BlockCache.unpin sector
  | .advanceGeneration => do let _ ← BlockCache.advanceGeneration
  | .barrier target => BlockCache.barrier target

def CacheOp.note (written : Nat → Option Sector) : CacheOp → Except IosError Unit → Nat → Option Sector
  | .write sector bytes _, .ok () => update written sector (some bytes)
  | _, _ => written

/-- The caches that calls from an initialised one lead to, with the last successful write of each sector. -/
inductive CacheRun (device : BlockDevice) : BlockCache → (Nat → Option Sector) → Prop where
  | start {entryCount cache} : BlockCache.blockCacheInitialize device entryCount = .ok cache →
      CacheRun device cache fun _ => none
  | step {cache written result cache'} (op : CacheOp) : CacheRun device cache written →
      op.run cache = (result, cache') → CacheRun device cache' (op.note written result)

namespace BlockCache
variable {cache : BlockCache}

structure Repinned (c c' : BlockCache) : Prop where
  coherent : c'.Coherent
  view : c'.view = c.view
  contents : c'.device.contents = c.device.contents
  history : c'.device.history = c.device.history
  generation : c'.currentGeneration = c.currentGeneration
  dirty : ∀ i, i < c'.entryCount → (c'.entries i).state = .dirty ∨ (c'.entries i).state = .error →
    c.Holds i (c'.entries i).sector ∧ ((c.entries i).state = .dirty ∨ (c.entries i).state = .error)
  kept : ∀ i, i < c.entryCount → ¬c.Loose i →
    (c'.entries i).state ≠ .empty ∧ (c'.entries i).sector = (c.entries i).sector

theorem Steady.repinned {c : BlockCache} (h : cache.Coherent) (s : Steady cache c) : Repinned cache c := by
  refine ⟨s.coherent, s.view, s.contents, s.history, s.generation, fun i hi hs => ?_, fun i hi hl => ?_⟩
  · have hl : ¬cache.Loose i := fun hl => by
      have := ((s.loose i).mpr hl).2.2
      rcases hs with hs | hs <;> simp [hs] at this
    have hk := s.kept i (s.entryCount ▸ hi) hl
    rw [CacheEntry.Same] at hk
    rw [hk] at hs ⊢
    exact ⟨⟨s.entryCount ▸ hi, h.not_empty (s.entryCount ▸ hi) hl, rfl⟩, hs⟩
  · have hk := s.kept i hi hl
    rw [CacheEntry.Same] at hk
    rw [hk]
    exact ⟨h.not_empty hi hl, rfl⟩

theorem Coherent.repinned (h : cache.Coherent) {i count : Nat} (hi : cache.Holds i n) :
    Repinned cache (cache.putEntry i { cache.entries i with pinCount := count }) := by
  have he : cache.putEntry i { cache.entries i with pinCount := count } =
      cache.revise i { cache.entries i with pinCount := count } cache.useClock cache.device := rfl
  rw [he]
  obtain ⟨hco, hv⟩ := h.handled hi cache.useClock { cache.entries i with pinCount := count } rfl
  refine ⟨hco, hv, rfl, rfl, rfl, fun j hj hs => ?_, fun j hj hl => ?_⟩
  · by_cases hji : j = i
    · subst hji
      simp only [revise_self] at hs ⊢
      exact ⟨⟨hi.1, hi.2.1, rfl⟩, hs⟩
    · rw [revise_of_ne hji] at hs ⊢
      refine ⟨⟨hj, fun hx => ?_, rfl⟩, hs⟩
      rw [hx] at hs
      simp at hs
  · by_cases hji : j = i
    · subst hji
      rw [revise_self]
      exact ⟨hi.2.1, rfl⟩
    · rw [revise_of_ne hji]
      exact ⟨h.not_empty hj hl, rfl⟩

theorem Repinned.trans {c₁ c₂ c₃ : BlockCache} (hl : ∀ i, c₂.Loose i → c₁.Loose i)
    (hn : c₂.entryCount = c₁.entryCount) (h₁ : Repinned c₁ c₂) (h₂ : Repinned c₂ c₃) : Repinned c₁ c₃ where
  coherent := h₂.coherent
  view := h₂.view.trans h₁.view
  contents := h₂.contents.trans h₁.contents
  history := h₂.history.trans h₁.history
  generation := h₂.generation.trans h₁.generation
  dirty i hi hs := by
    obtain ⟨hh, hd⟩ := h₂.dirty i hi hs
    have := h₁.dirty i hh.1 hd
    rwa [hh.2.2] at this
  kept i hi hl' := by
    have a := h₁.kept i hi hl'
    have b := h₂.kept i (hn ▸ hi) fun hx => hl' (hl i hx)
    exact ⟨b.1, b.2.trans a.2⟩

theorem pin_spec (h : cache.Coherent) : wp (pin n) (fun _ c => Repinned cache c) (fun _ c => Repinned cache c) cache := by
  simp only [pin, wp_bind]
  refine wp_mono (acquireEntry_spec h) (fun i c hx => ?_) (fun e c hx => by obtain ⟨_, hc, _⟩ := hx; exact (h.steady_failed hc).repinned h)
  obtain ⟨hn, ha⟩ := hx
  obtain ⟨hs, hi⟩ := h.steady_acquired hn ha
  simp only [wp_bind, wp_get, wp_failIf, wp_modify]
  refine ⟨fun _ => hs.repinned h, fun _ => ?_⟩
  exact Repinned.trans (fun i => (hs.loose i).mp) hs.entryCount (hs.repinned h) (hs.coherent.repinned hi)

theorem unpin_spec (h : cache.Coherent) : wp (unpin n) (fun _ c => Repinned cache c) (fun _ c => Repinned cache c) cache := by
  simp only [unpin, wp_bind, wp_get]
  rcases hf : cache.findEntry n with - | i
  · exact (Steady.refl h).repinned h
  · simp only [wp_bind, wp_failIf, wp_modify]
    exact ⟨fun _ => (Steady.refl h).repinned h, fun _ => h.repinned (findEntry_eq_some hf)⟩

theorem Coherent.advanced (h : cache.Coherent) {generation : Nat} (hg : cache.currentGeneration ≤ generation) :
    ({ cache with currentGeneration := generation } : BlockCache).Coherent :=
  ⟨h.unique, h.clean, h.idle, h.unpinned, h.inRange, fun hi hs => (h.generation hi hs).trans hg⟩

theorem advanceGeneration_spec :
    wp advanceGeneration
      (fun generation c => generation = cache.currentGeneration + 1 ∧ c = { cache with currentGeneration := generation })
      (fun e c => e = .overflow ∧ c = cache ∧ cache.currentGeneration = 2 ^ 64 - 1) cache := by
  simp only [advanceGeneration, wp_bind, wp_get, wp_failIf, wp_modify, wp_pure]
  simp

structure Tracks (device : BlockDevice) (cache : BlockCache) (written : Nat → Option Sector) : Prop where
  coherent : cache.Coherent
  view : ∀ n, cache.view n = (written n).getD (device.contents n)
  untouched : ∀ n, written n = none → cache.device.contents n = device.contents n
  pending : ∀ i, i < cache.entryCount → (cache.entries i).state = .dirty ∨ (cache.entries i).state = .error →
    written (cache.entries i).sector ≠ none
  recorded : ∀ medium, device.Recorded medium → cache.device.Recorded medium
  positive : 0 < cache.currentGeneration

section Tracks
variable {device : BlockDevice} {written : Nat → Option Sector} {c : BlockCache}
variable {target : Nat}

theorem Coherent.initial {entryCount : Nat} (h : blockCacheInitialize device entryCount = .ok cache) :
    cache.Coherent ∧ (∀ i, (cache.entries i).state = .empty) ∧ cache.device = device ∧ cache.currentGeneration = 1 := by
  unfold blockCacheInitialize at h
  split at h
  · cases h
  · cases h
    refine ⟨⟨?_, ?_, ?_, ?_, ?_, ?_⟩, fun _ => rfl, rfl, rfl⟩
    · exact fun hi => absurd rfl hi.2.1
    all_goals simp [Holds, CacheEntry.zero]

theorem tracks_initial {entryCount : Nat} (h : blockCacheInitialize device entryCount = .ok cache) :
    Tracks device cache fun _ => none := by
  obtain ⟨hco, he, hd, hg⟩ := Coherent.initial h
  refine ⟨hco, fun n => ?_, fun n _ => by rw [hd], fun i _ hs => by simp [he i] at hs, fun m hm => by rwa [hd],
    by omega⟩
  rw [view_of_not_holds fun i hi => hi.2.1 (he i), hd]
  rfl

theorem Tracks.repinned (t : Tracks device cache written) (h : Repinned cache c) : Tracks device c written where
  coherent := h.coherent
  view n := by rw [h.view]; exact t.view n
  untouched n hn := by rw [h.contents]; exact t.untouched n hn
  pending i hi hs := by
    obtain ⟨hh, hd⟩ := h.dirty i hi hs
    rw [← hh.2.2]
    exact t.pending i hh.1 hd
  recorded m hm := by
    rw [BlockDevice.Recorded, h.contents, h.history]
    exact t.recorded m hm
  positive := by rw [h.generation]; exact t.positive

theorem Tracks.stored (t : Tracks device cache written) {b : Sector} (h : Stored cache c n b) :
    Tracks device c (update written n (some b)) where
  coherent := h.coherent
  view m := by
    rw [h.view]
    by_cases hm : m = n
    · subst hm
      simp
    · simp only [update_of_ne hm]
      exact t.view m
  untouched m hm := by
    rw [h.contents]
    refine t.untouched m ?_
    by_cases hmn : m = n
    · subst hmn
      simp at hm
    · rwa [update_of_ne hmn] at hm
  pending i hi hs := by
    by_cases hn : (c.entries i).sector = n
    · simp [hn]
    · rw [update_of_ne hn]
      have hx : (c.entries i).state ≠ .empty := fun hx => by simp [hx] at hs
      rw [h.others i _ ⟨hi, hx, rfl⟩ hn] at hs ⊢
      exact t.pending i (h.entryCount ▸ hi) hs
  recorded m hm := by
    rw [BlockDevice.Recorded, h.contents, h.history]
    exact t.recorded m hm
  positive := by rw [h.generation]; exact t.positive

theorem Tracks.not_due (t : Tracks device cache written) (hn : written n = none) :
    ∀ i, cache.Holds i n → ¬Due target (cache.entries i) := by
  intro i hi hd
  exact t.pending i hi.1 hd.1 (by rw [hi.2.2, hn])

theorem Tracks.flushed (t : Tracks device cache written) (h : Flushed target cache c) : Tracks device c written where
  coherent := h.coherent
  view n := by rw [h.view]; exact t.view n
  untouched n hn := (h.elsewhere (t.not_due hn)).trans (t.untouched n hn)
  pending i hi hs := by
    rw [h.entries i] at hs ⊢
    split at hs
    · simp at hs
    · rename_i hd
      rw [if_neg hd]
      exact t.pending i (h.entryCount ▸ hi) hs
  recorded m hm := h.recorded m (t.recorded m hm)
  positive := by rw [h.generation]; exact t.positive

theorem Tracks.unflushed (t : Tracks device cache written) (h : Unflushed target cache c) : Tracks device c written where
  coherent := h.coherent
  view n := by rw [h.view]; exact t.view n
  untouched n hn := (h.elsewhere (t.not_due hn)).trans (t.untouched n hn)
  pending i hi hs := by
    have hi : i < cache.entryCount := h.entryCount ▸ hi
    rw [h.sector]
    by_cases hd : Due target (cache.entries i)
    · exact t.pending i hi hd.1
    · rw [h.others i hi hd] at hs
      exact t.pending i hi hs
  recorded m hm := h.recorded m (t.recorded m hm)
  positive := by rw [h.generation]; exact t.positive

def Protects (c c' : BlockCache) : Prop :=
  ∀ i, i < c.entryCount → ¬c.Loose i → (c'.entries i).state ≠ .empty ∧ (c'.entries i).sector = (c.entries i).sector

theorem Refiled.protects (h : cache.Coherent) (r : Refiled cache c) : Protects cache c := fun i hi hl =>
  ⟨fun hs => h.not_empty hi hl ((r.empty i).mp hs), r.sector i⟩

end Tracks

theorem step_tracks {device : BlockDevice} {written : Nat → Option Sector} (t : Tracks device cache written) (op : CacheOp) :
    wp op.run (fun r c => Tracks device c (op.note written (.ok r)) ∧ Protects cache c)
      (fun e c => Tracks device c (op.note written (.error e)) ∧ Protects cache c) cache := by
  have h := t.coherent
  have repinned : ∀ {c}, Repinned cache c → Tracks device c written ∧ Protects cache c := fun hc =>
    ⟨t.repinned hc, hc.kept⟩
  have steady : ∀ {c}, Steady cache c → Tracks device c written ∧ Protects cache c := fun hc => repinned (hc.repinned h)
  cases op with
  | read n =>
    simp only [CacheOp.run, wp_bind, CacheOp.note]
    exact wp_mono (read_spec h) (fun _ c hc => steady hc.2.2) fun _ c hc => steady hc.1
  | write n b g =>
    refine wp_mono (write_spec h) (fun _ c hc => ⟨t.stored hc.1, hc.1.kept⟩) fun _ c hc => ?_
    exact steady hc.1
  | pin n => exact wp_mono (pin_spec h) (fun _ _ hc => repinned hc) fun _ _ hc => repinned hc
  | unpin n => exact wp_mono (unpin_spec h) (fun _ _ hc => repinned hc) fun _ _ hc => repinned hc
  | advanceGeneration =>
    simp only [CacheOp.run, wp_bind, CacheOp.note]
    refine wp_mono advanceGeneration_spec (fun g c ⟨hg, hc⟩ => ?_) fun e c ⟨_, hc, _⟩ => ?_
    · subst hc
      exact ⟨⟨h.advanced (by omega), t.view, t.untouched, t.pending, t.recorded, by show 0 < g; omega⟩, fun i hi hl => ⟨h.not_empty hi hl, rfl⟩⟩
    · subst hc
      exact steady (Steady.refl h)
  | barrier target =>
    refine wp_mono (barrier_spec h) (fun _ c hc => ?_) fun _ c ⟨hc, _⟩ => ?_
    · exact ⟨t.flushed hc, hc.toRefiled.protects h⟩
    · exact ⟨t.unflushed hc, hc.toRefiled.protects h⟩

theorem run_tracks {device : BlockDevice} {written : Nat → Option Sector} (h : CacheRun device cache written) :
    Tracks device cache written := by
  induction h with
  | start hi => exact tracks_initial hi
  | @step c w result c' op _ hop ih =>
    have := step_tracks ih op
    cases result with
    | ok r => exact (wp_ok this hop).1
    | error e => exact (wp_error this hop).1

/-- The state of a cache after any run: a read returns the last bytes written, or the device's own; no
    two entries hold one sector; clean entries agree with the device; and no call evicts an entry that is
    dirty, failed or pinned. -/
theorem cacheRun_coherent {device : BlockDevice} {written : Nat → Option Sector} (h : CacheRun device cache written) :
    (∀ n b c, read n cache = (.ok b, c) → b = (written n).getD (cache.device.contents n)) ∧
    (∀ n, written n = none → cache.device.contents n = device.contents n) ∧
    (∀ i j n, cache.Holds i n → cache.Holds j n → i = j) ∧
    (∀ i, i < cache.entryCount → (cache.entries i).state = .clean →
      (cache.entries i).bytes = cache.device.contents (cache.entries i).sector) ∧
    ∀ (op : CacheOp) result c, op.run cache = (result, c) → ∀ i, i < cache.entryCount →
      (cache.entries i).state = .dirty ∨ (cache.entries i).state = .error ∨ (cache.entries i).pinCount ≠ 0 →
      (c.entries i).state ≠ .empty ∧ (c.entries i).sector = (cache.entries i).sector := by
  have t := run_tracks h
  refine ⟨fun n b c hr => ?_, t.untouched, fun i j n hi hj => t.coherent.unique hi hj,
    fun i hi hs => t.coherent.clean hi hs, fun op result c hop i hi hs => ?_⟩
  · rw [(wp_ok (read_spec t.coherent) hr).1, t.view]
    rcases hw : written n with - | b
    · simp [t.untouched n hw]
    · rfl
  · have hl : ¬cache.Loose i := by
      rintro ⟨-, hp, hl⟩
      rcases hs with hs | hs | hs
      · simp [hs] at hl
      · simp [hs] at hl
      · exact hs hp
    have := step_tracks t op
    cases result with
    | ok r => exact (wp_ok this hop).2 i hi hl
    | error e => exact (wp_error this hop).2 i hi hl

theorem cacheRun_coherent_blank : ∃ cache b c,
    CacheRun (.blank 4) cache (CacheOp.note (fun _ => none) (.write 3 (fun _ => 7) 1) (.ok ())) ∧
      read 3 cache = (.ok b, c) ∧ b = fun _ => 7 := by
  have hcache : blockCacheInitialize (.blank 4) 1 = .ok _ := rfl
  have hrun := CacheRun.step (.write 3 (fun _ => 7) 1) (CacheRun.start hcache) rfl
  exact ⟨_, _, _, hrun, rfl, (cacheRun_coherent hrun).1 3 _ _ rfl⟩

end BlockCache
end InferenceOS
