import InferenceOS.Theorems.SyncDurability
import InferenceOS.Theorems.Layout
import InferenceOS.Theorems.Chains

/-! The reads, writes and barriers of the file service. Each step is described by the view that it leaves in
    the cache, by what it did to the medium, and by the room in the cache that it needs to succeed. -/

namespace InferenceOS
open Program Function

namespace BlockCache
variable {cache : BlockCache} {P : List Nat}

/-- Every entry that may not be evicted holds a sector of `P`. -/
def Pending (cache : BlockCache) (P : List Nat) : Prop :=
  ∀ i, i < cache.entryCount → ¬cache.Loose i → (cache.entries i).sector ∈ P

theorem Coherent.exists_loose (h : cache.Coherent) (hp : cache.Pending P) (hn : P.length < cache.entryCount) :
    ∃ i, cache.Loose i := by
  by_contra hno
  have hno := not_exists.mp hno
  have hinj : ((List.range cache.entryCount).map fun i => (cache.entries i).sector).Nodup := by
    refine List.Nodup.map_on (fun i hi j hj hij => ?_) List.nodup_range
    rw [List.mem_range] at hi hj
    exact h.unique ⟨hi, h.not_empty hi (hno i), rfl⟩ ⟨hj, h.not_empty hj (hno j), hij.symm⟩
  have hsub : (List.range cache.entryCount).map (fun i => (cache.entries i).sector) ⊆ P := by
    intro n hn
    obtain ⟨i, hi, rfl⟩ := List.mem_map.mp hn
    exact hp i (List.mem_range.mp hi) (hno i)
  have := (List.subperm_of_subset hinj hsub).length_le
  simp at this
  omega

theorem Steady.pending {c : BlockCache} (h : Steady cache c) (hp : cache.Pending P) : c.Pending P := by
  intro i hi hl
  have hi : i < cache.entryCount := h.entryCount ▸ hi
  have hl : ¬cache.Loose i := fun hx => hl ((h.loose i).mpr hx)
  rw [h.kept i hi hl]
  exact hp i hi hl

theorem Stored.pending {c : BlockCache} {n : Nat} {b : Sector} (h : Stored cache c n b) (hp : cache.Pending P) :
    c.Pending (n :: P) := by
  intro i hi hl
  have hholds : c.Holds i (c.entries i).sector := ⟨hi, h.coherent.not_empty hi hl, rfl⟩
  by_cases hn : (c.entries i).sector = n
  · simp [hn]
  · have he := h.others i _ hholds hn
    have hl : ¬cache.Loose i := fun hx => hl ⟨hi, by rw [he]; exact hx.2.1, by rw [he]; exact hx.2.2⟩
    rw [he]
    exact List.mem_cons_of_mem _ (hp i (h.entryCount ▸ hi) hl)

end BlockCache

namespace FileService
variable {s t u : FileService} {v w : View} {vs ws : List View} {j k n : Nat}
variable {component : UInt32}

def view (s : FileService) : View := s.sync.cache.view

def device (s : FileService) : BlockDevice := s.sync.cache.device

def disk (s : FileService) : Disk := diskOf s.mount.geometry s.view

/-- What every call of a mounted service relies on. -/
structure Mounted (s : FileService) : Prop where
  inStep : s.sync.InStep
  laid : s.mount.geometry.Laid
  entries : s.fatEntryCount = s.mount.geometry.clusterCount + 2
  sectors : s.mount.geometry.totalSectors ≤ s.device.sectorCount

def Bounded (s : FileService) : Prop := ∀ i, i < s.mount.geometry.fatSectors * 128 → s.fat i < 2 ^ 32

/-- The device works, nothing is pinned, and only the sectors `P` wait for a barrier. -/
structure Fit (s : FileService) (P : List Nat) : Prop where
  healthy : s.device.Healthy
  unpinned : ∀ i, i < s.sync.cache.entryCount → (s.sync.cache.entries i).pinCount = 0
  pending : s.sync.cache.Pending P

/-- The cache of a working device has room for `k` more pending sectors. -/
def Room (s : FileService) (k : Nat) : Prop := ∃ P, s.Fit P ∧ P.length + k ≤ s.sync.cache.entryCount

/-- From `s` to `t` at most `k` sectors were written into the cache, which now shows `v`. -/
structure Wrote (s t : FileService) (v : View) (k : Nat) : Prop where
  mount : t.mount = s.mount
  fatEntryCount : t.fatEntryCount = s.fatEntryCount
  initialized : t.initialized = s.initialized
  inStep : t.sync.InStep
  view : t.view = v
  contents : t.device.contents = s.device.contents
  history : t.device.history = s.device.history
  status : t.device.status = s.device.status
  faults : t.device.faults = s.device.faults
  sectorCount : t.device.sectorCount = s.device.sectorCount
  entryCount : t.sync.cache.entryCount = s.sync.cache.entryCount
  generation : t.sync.generation = s.sync.generation
  fit : ∀ P, s.Fit P → ∃ Q, Q.length ≤ P.length + k ∧ t.Fit Q

theorem Mounted.valid (h : s.Mounted) {c : Nat} : s.validDirectoryCluster c ↔ Fat.validCluster c s.fatEntryCount := by
  have := h.laid.clusters
  have := h.entries
  unfold validDirectoryCluster Fat.validCluster maxDataCluster at *
  omega

theorem Mounted.validEntryCount (h : s.Mounted) : Fat.validEntryCount s.fatEntryCount := by
  have := h.laid.clusters
  have := h.laid.positive
  have := h.entries
  unfold Fat.validEntryCount maxDataCluster at *
  omega

theorem Mounted.inRange (h : s.Mounted) {c : Nat} (hc : Fat.validCluster c s.fatEntryCount) (hk : k < 8) :
    clusterSector s.mount.geometry c + k < s.device.sectorCount := by
  have h₁ := h.laid.total
  have h₂ := h.sectors
  have h₃ := h.entries
  have h₄ := hc.2.1
  have h₅ := hc.1
  simp only [clusterSector, sectorsPerCluster] at *
  omega

theorem Mounted.table_inRange (h : s.Mounted) (hk : k < s.mount.geometry.fatSectors) :
    superblockSectors + k < s.device.sectorCount := by
  have h₁ := h.laid.total
  have h₂ := h.sectors
  have h₃ := h.laid.data
  simp only [superblockSectors, registrySectors] at *
  omega

theorem Wrote.refl (h : s.Mounted) : Wrote s s s.view 0 :=
  ⟨rfl, rfl, rfl, h.inStep, rfl, rfl, rfl, rfl, rfl, rfl, rfl, rfl, fun P hp => ⟨P, le_rfl, hp⟩⟩

theorem Wrote.trans (h : Wrote s t v j) (h' : Wrote t u w k) : Wrote s u w (j + k) where
  mount := h'.mount.trans h.mount
  fatEntryCount := h'.fatEntryCount.trans h.fatEntryCount
  initialized := h'.initialized.trans h.initialized
  inStep := h'.inStep
  view := h'.view
  contents := h'.contents.trans h.contents
  history := h'.history.trans h.history
  status := h'.status.trans h.status
  faults := h'.faults.trans h.faults
  sectorCount := h'.sectorCount.trans h.sectorCount
  entryCount := h'.entryCount.trans h.entryCount
  generation := h'.generation.trans h.generation
  fit P hp := by
    obtain ⟨Q, hQ, hq⟩ := h.fit P hp
    obtain ⟨R, hR, hr⟩ := h'.fit Q hq
    exact ⟨R, by omega, hr⟩

theorem Wrote.target {t' : FileService} (h : Wrote s t v k) (hs : t'.sync = t.sync) (hm : t'.mount = t.mount)
    (hn : t'.fatEntryCount = t.fatEntryCount) (hi : t'.initialized = t.initialized) : Wrote s t' v k := by
  obtain ⟨mount, sync, fat, n, chain, oldChain, dirty, directory, cluster, entries, initialized⟩ := t'
  subst hs hm hn hi
  refine ⟨h.mount, h.fatEntryCount, h.initialized, h.inStep, h.view, h.contents, h.history, h.status,
    h.faults, h.sectorCount, h.entryCount, h.generation, fun P hp => ?_⟩
  obtain ⟨Q, hQ, hq⟩ := h.fit P hp
  exact ⟨Q, hQ, hq.healthy, hq.unpinned, hq.pending⟩

theorem Wrote.mounted (h : Wrote s t v k) (hm : s.Mounted) : t.Mounted where
  inStep := h.inStep
  laid := h.mount ▸ hm.laid
  entries := by rw [h.fatEntryCount, h.mount]; exact hm.entries
  sectors := by rw [h.mount, h.sectorCount]; exact hm.sectors

theorem Wrote.disk (h : Wrote s t v k) : t.disk = diskOf s.mount.geometry v := by
  rw [FileService.disk, h.mount, h.view]

theorem Wrote.healthy (h : Wrote s t v k) : t.device.Healthy ↔ s.device.Healthy := by
  constructor
  · exact fun hh => ⟨h.status ▸ hh.status, h.faults ▸ hh.faults⟩
  · exact fun hh => ⟨h.status ▸ hh.status, h.faults ▸ hh.faults⟩

theorem Wrote.room (h : Wrote s t v j) (hr : s.Room (j + k)) : t.Room k := by
  obtain ⟨P, hp, hl⟩ := hr
  obtain ⟨Q, hQ, hq⟩ := h.fit P hp
  exact ⟨Q, hq, by rw [h.entryCount]; omega⟩

theorem Room.mono (h : s.Room k) (hj : j ≤ k) : s.Room j := by
  obtain ⟨P, hp, hl⟩ := h
  exact ⟨P, hp, by omega⟩

theorem Room.loose (h : s.Room 1) (hm : s.Mounted) : s.device.Healthy ∧ ∃ i, s.sync.cache.Loose i := by
  obtain ⟨P, hp, hl⟩ := h
  exact ⟨hp.healthy, hm.inStep.coherent.exists_loose hp.pending hl⟩

def Still (s t : FileService) : Prop := Wrote s t s.view 0 ∧ t = { s with sync := t.sync }

theorem Still.trans (h : Still s t) (h' : Still t u) : Still s u := by
  refine ⟨?_, ?_⟩
  · have := h.1.trans h'.1
    rwa [h.1.view] at this
  · rw [h'.2, h.2]

theorem Still.refl (h : s.Mounted) : Still s s := ⟨Wrote.refl h, rfl⟩

theorem wrote_of_steady (h : s.Mounted) {sync : Sync} (hc : BlockCache.Steady s.sync.cache sync.cache)
    (hg : sync.generation = s.sync.generation) : Still s { s with sync } := by
  have hin : sync.InStep := ⟨hc.coherent, by rw [hg, hc.generation]; exact h.inStep.generation, hg ▸ h.inStep.positive⟩
  refine ⟨⟨rfl, rfl, rfl, hin, hc.view, hc.contents, hc.history, hc.status, hc.faults, hc.sectorCount,
    hc.entryCount, hg, fun P hf => ⟨P, le_rfl, ?_, fun i hi => ?_, hc.pending hf.pending⟩⟩, rfl⟩
  · exact ⟨hc.status.trans hf.healthy.status, fun k => by rw [device, hc.faults]; exact hf.healthy.faults k⟩
  · by_cases hl : sync.cache.Loose i
    · exact hl.2.1
    · have hi : i < s.sync.cache.entryCount := hc.entryCount ▸ hi
      show (sync.cache.entries i).pinCount = 0
      rw [hc.kept i hi fun hx => hl ((hc.loose i).mpr hx)]
      exact hf.unpinned i hi

theorem cacheRead_spec (h : s.Mounted) (hn : n < s.device.sectorCount) :
    wp (cacheRead n) (fun b t => b = s.view n ∧ Still s t) (fun e t => Still s t ∧ e ≠ .notFound ∧ ¬s.Room 1) s := by
  simp only [cacheRead, onSync, Sync.onCache, wp_zoom]
  refine wp_mono (BlockCache.read_spec h.inStep.coherent) (fun b c hx => ?_) fun e c hx => ?_
  · obtain ⟨hb, _, hc⟩ := hx
    exact ⟨hb, wrote_of_steady h hc rfl⟩
  · obtain ⟨hc, he, hh⟩ := hx
    refine ⟨wrote_of_steady h hc rfl, he, fun hr => ?_⟩
    obtain ⟨hd, i, hi⟩ := hr.loose h
    have := hh hd i hi
    unfold device at hn
    omega

theorem readSectors_spec (h : s.Mounted) {first : Nat} : ∀ {count : Nat}, first + count ≤ s.device.sectorCount →
    wp (readSectors first count) (fun f t => (∀ k, k < count → f k = s.view (first + k)) ∧ Still s t)
      (fun e t => Still s t ∧ e ≠ .notFound ∧ ¬s.Room 1) s
  | 0, _ => ⟨fun _ hk => absurd hk (by omega), Still.refl h⟩
  | count + 1, hc => by
    simp only [readSectors, wp_bind]
    refine wp_mono (readSectors_spec h (by omega)) (fun f t hx => ?_) fun _ _ he => he
    obtain ⟨hf, ht⟩ := hx
    have hm := ht.1.mounted h
    have hlt : first + count < t.device.sectorCount := by
      rw [ht.1.sectorCount]
      omega
    rw [wp_bind]
    refine wp_mono (cacheRead_spec hm hlt) (fun b u hx => ?_) fun e u hx => ?_
    · obtain ⟨hb, hu⟩ := hx
      rw [wp_pure]
      refine ⟨fun k hk => ?_, ht.trans hu⟩
      by_cases hkc : k = count
      · subst hkc
        rw [update_self, hb, ht.1.view]
      · rw [update_of_ne hkc, hf k (by omega)]
    · obtain ⟨hu, he, hr⟩ := hx
      exact ⟨ht.trans hu, he, fun hx => hr (ht.1.room (by simpa using hx))⟩

theorem readCluster_spec (h : s.Mounted) {c : Nat} (hc : Fat.validCluster c s.fatEntryCount) :
    wp (readCluster c) (fun b t => b = s.disk.data c ∧ Still s t) (fun e t => Still s t ∧ e ≠ .notFound ∧ ¬s.Room 1) s := by
  simp only [readCluster, wp_bind, wp_get, wp_failIf]
  refine ⟨fun hv => absurd (h.valid.mpr hc) hv, fun _ => ?_⟩
  have hend : clusterSector s.mount.geometry c + sectorsPerCluster ≤ s.device.sectorCount := by
    have := @Mounted.inRange s 7 h c hc (by omega)
    unfold sectorsPerCluster
    omega
  refine wp_mono (readSectors_spec h hend) (fun f t hx => ?_) fun _ _ he => he
  obtain ⟨hf, ht⟩ := hx
  refine ⟨?_, ht⟩
  show joinSectors f = dataOf s.mount.geometry s.view c
  rw [dataOf_eq hc.1]
  exact joinSectors_congr fun k hk => hf k hk

theorem loadDirectory_spec (h : s.Mounted) {c : Nat} (hc : Fat.validCluster c s.fatEntryCount) :
    wp (loadDirectory c) (fun _ t => Wrote s t s.view 0 ∧ t = { s with sync := t.sync, directory := s.disk.data c })
      (fun e t => Still s t ∧ e ≠ .notFound ∧ ¬s.Room 1) s := by
  simp only [loadDirectory, wp_bind]
  refine wp_mono (readCluster_spec h hc) (fun b t ⟨hb, ht⟩ => ?_) fun _ _ he => he
  subst hb
  rw [wp_modify]
  exact ⟨ht.1.target rfl rfl rfl rfl, by rw [ht.2]⟩

theorem writeSector_spec (h : s.Mounted) (hn : n < s.device.sectorCount) {b : Sector} (hv : validComponent component) :
    wp (onSync (Sync.writeSector n b component))
      (fun _ t => Wrote s t (update s.view n b) 1 ∧ t = { s with sync := t.sync })
      (fun e t => Still s t ∧ e ≠ .notFound ∧ ¬s.Room 1) s := by
  simp only [onSync, wp_zoom]
  refine wp_mono (Sync.writeSector_spec h.inStep) (fun _ sync hw => ⟨?_, trivial⟩) fun e sync ⟨hw, he, hh⟩ => ?_
  · have hst := hw.stored
    refine ⟨rfl, rfl, rfl, ⟨hst.coherent, ?_, hw.generation ▸ h.inStep.positive⟩, hst.view, hst.contents,
      hst.history, hst.status, hst.faults, hst.sectorCount, hst.entryCount, hw.generation, fun P hf => ⟨n :: P, by simp, ?_⟩⟩
    · rw [hw.generation, hst.generation]
      exact h.inStep.generation
    · refine ⟨⟨hst.status.trans hf.healthy.status, fun k => ?_⟩, fun i hi => ?_, hst.pending hf.pending⟩
      · rw [device, hst.faults]
        exact hf.healthy.faults k
      · show (sync.cache.entries i).pinCount = 0
        rw [hst.pins]
        exact hf.unpinned i (hst.entryCount ▸ hi)
  · refine ⟨wrote_of_steady h hw.steady hw.generation, he, fun hr => ?_⟩
    obtain ⟨hd, i, hi⟩ := hr.loose h
    have := hh hv hd i hi
    unfold device at hn
    omega

theorem persistDirectorySlot_spec (h : s.Mounted) {d i : Nat} (hd : Fat.validCluster d s.fatEntryCount) (hi : i < 128)
    {r : Slot} (hv : validComponent component) :
    wp (persistDirectorySlot d i r component)
      (fun _ t => ∃ v, Wrote s t v 1 ∧ t = { s with sync := t.sync, directory := t.directory } ∧
        diskOf s.mount.geometry v =
          { s.disk with data := update s.disk.data d ((s.disk.data d).put (32 * i) r) })
      (fun e t => Wrote s t s.view 0 ∧ e ≠ .notFound ∧ ¬s.Room 1) s := by
  simp only [persistDirectorySlot, wp_bind, wp_failIf]
  refine ⟨fun hx => absurd hx (by unfold directorySlots; omega), fun _ => ?_⟩
  refine wp_mono (loadDirectory_spec h hd) (fun _ t hx => ?_) (fun e t hx => by obtain ⟨ht, he⟩ := hx; exact ⟨ht.1, he⟩)
  obtain ⟨hw, ht⟩ := hx
  simp only [wp_bind, wp_modify, wp_get]
  have hdir : t.directory = s.disk.data d := by rw [ht]
  -- The sector of the slot is written from the changed buffer.
  have hw' : Wrote s { t with directory := t.directory.put (32 * i) r } s.view 0 := hw.target rfl rfl rfl rfl
  have hm := hw'.mounted h
  have hlt : clusterSector t.mount.geometry d + i / 16 < t.device.sectorCount := by
    rw [hw.mount, hw.sectorCount]
    exact h.inRange hd (by omega)
  refine wp_mono (writeSector_spec hm hlt hv) (fun _ u hx => ?_) fun e u hx => ?_
  · obtain ⟨hu, hu'⟩ := hx
    refine ⟨_, by simpa using hw'.trans hu, ?_, ?_⟩
    · rw [hu', ht]
    · show diskOf s.mount.geometry (update t.view (clusterSector t.mount.geometry d + i / 16)
        (sectorOf (t.directory.put (32 * i) r) (i / 16))) = _
      rw [hw.view, hw.mount, hdir]
      exact diskOf_put_record h.laid hd.1 hi
  · obtain ⟨hu, he, hr⟩ := hx
    have := hw'.trans hu.1
    exact ⟨by rwa [hw'.view] at this, he, fun hx => hr (hw'.room (by simpa using hx))⟩

theorem writeSectors_spec (h : s.Mounted) {f : Nat → Sector} {first : Nat}
    (hv : validComponent component) : ∀ {count : Nat}, first + count ≤ s.device.sectorCount →
    wp (each (fun k => onSync (Sync.writeSector (first + k) (f k) component)) (List.range count))
      (fun _ t => Wrote s t (storeSectors s.view first count f) count ∧ t = { s with sync := t.sync })
      (fun e t => (∃ v k, Wrote s t v k) ∧ t = { s with sync := t.sync } ∧ e ≠ .notFound ∧ ¬s.Room count) s := by
  intro count
  induction count with
  | zero =>
    intro hc
    have hz : storeSectors s.view first 0 f = s.view := by
      funext n
      exact if_neg (by omega)
    rw [hz]
    exact Still.refl h
  | succ count ih =>
    intro hc
    rw [List.range_succ, wp_each_append]
    refine wp_mono (ih (by omega)) (fun _ t ⟨hw, ht⟩ => ?_) fun e t ⟨hw, ht, he, hr⟩ =>
      ⟨hw, ht, he, fun hx => hr (hx.mono (by omega))⟩
    have hlt : first + count < t.device.sectorCount := by
      rw [hw.sectorCount]
      omega
    rw [wp_each_cons]
    refine wp_mono (writeSector_spec (hw.mounted h) hlt hv) (fun _ u ⟨hu, hu'⟩ => ?_) fun e u ⟨hu, he, hr⟩ => ?_
    · have hall := hw.trans hu
      rw [hw.view, storeSectors_succ] at hall
      exact ⟨hall, by rw [hu', ht]⟩
    · exact ⟨⟨_, _, hw.trans hu.1⟩, by rw [hu.2, ht], he, fun hx => hr (hw.room hx)⟩

theorem writeCluster_spec (h : s.Mounted) {c : Nat} (hc : Fat.validCluster c s.fatEntryCount) {buffer : ClusterBytes}
    {component : UInt32} (hv : validComponent component) :
    wp (writeCluster c buffer component)
      (fun _ t => ∃ v, Wrote s t v 8 ∧ t = { s with sync := t.sync } ∧
        diskOf s.mount.geometry v = { s.disk with data := update s.disk.data c buffer })
      (fun e t => (∃ v k, Wrote s t v k) ∧ t = { s with sync := t.sync } ∧ e ≠ .notFound ∧ ¬s.Room 8) s := by
  simp only [writeCluster, wp_bind, wp_get, wp_failIf]
  refine ⟨fun hx => absurd (h.valid.mpr hc) hx, fun _ => ?_⟩
  have hend : clusterSector s.mount.geometry c + 8 ≤ s.device.sectorCount := by
    have := @Mounted.inRange s 7 h c hc (by omega)
    omega
  refine wp_mono (writeSectors_spec h hv hend) (fun _ t hx => ⟨_, hx.1, hx.2, ?_⟩) fun _ _ he => he
  exact diskOf_put_cluster h.laid hc.1

theorem persistFatSectors_spec : ∀ {ks : List Nat} {s : FileService}, s.Mounted → s.Bounded →
    (∀ k ∈ ks, k < s.mount.geometry.fatSectors) →
    wp (each persistFatSector ks)
      (fun _ t => ∃ v, Wrote s t v ks.length ∧ t = { s with sync := t.sync } ∧ diskOf s.mount.geometry v =
        { s.disk with fat := fun i => if i / 128 ∈ ks then tableOf s.mount.geometry s.fat i else s.disk.fat i })
      (fun e t => (∃ v k, Wrote s t v k) ∧ t = { s with sync := t.sync } ∧ e ≠ .notFound ∧ ¬s.Room ks.length) s
  | [], s, h, _, _ => by
    rw [wp_each_nil]
    refine ⟨s.view, Wrote.refl h, rfl, ?_⟩
    simp only [List.not_mem_nil, ↓reduceIte]
    rfl
  | k :: ks, s, h, hb, hks => by
    simp only [wp_each_cons, persistFatSector, wp_bind, wp_get, wp_failIf]
    have hk := hks k (by simp)
    refine ⟨fun hx => absurd hk (by omega), fun _ => ?_⟩
    refine wp_mono (writeSector_spec h (h.table_inRange hk) (by decide)) (fun _ t hx => ?_)
      (fun e t hx => by obtain ⟨ht, he, hr⟩ := hx; exact ⟨⟨_, _, ht.1⟩, ht.2, he, fun hx => hr (hx.mono (by simp))⟩)
    obtain ⟨hw, ht⟩ := hx
    have hm := hw.mounted h
    have hb' : t.Bounded := by
      rw [Bounded, ht]
      exact hb
    have hfat : t.fat = s.fat := by rw [ht]
    refine wp_mono (persistFatSectors_spec hm hb' fun k hk => by rw [hw.mount]; exact hks k (by simp [hk]))
      (fun _ u hx => ?_) fun e u hx => ?_
    · obtain ⟨v, hu, hu', hv⟩ := hx
      refine ⟨v, by simpa [Nat.add_comm] using hw.trans hu, by rw [hu', ht], ?_⟩
      rw [hw.mount] at hv
      rw [hv, hw.disk, diskOf_put_fat h.laid hk hb]
      simp only [Disk.mk.injEq, hfat]
      refine ⟨?_, rfl⟩
      funext i
      by_cases hi : i / 128 = k
      · simp [hi]
      · simp only [hi, ↓reduceIte, List.mem_cons, false_or]
        rfl
    · obtain ⟨⟨v, j, hu⟩, hu', he, hr⟩ := hx
      exact ⟨⟨_, _, hw.trans hu⟩, by rw [hu', ht], he,
        fun hx => hr (hw.room (by rw [Nat.add_comm]; simpa using hx))⟩

theorem persistFat_spec (h : s.Mounted) (hb : s.Bounded) (hd : ∀ k ∈ s.dirtyFatSectors, k < s.mount.geometry.fatSectors) :
    wp persistFat
      (fun _ t => ∃ v, Wrote s t v s.dirtyFatSectors.length ∧
        t = { s with sync := t.sync, dirtyFatSectors := [] } ∧ diskOf s.mount.geometry v =
          { s.disk with fat := fun i =>
              if i / 128 ∈ s.dirtyFatSectors then tableOf s.mount.geometry s.fat i else s.disk.fat i })
      (fun e t => (∃ v k, Wrote s t v k) ∧ e ≠ .notFound ∧ ¬s.Room s.dirtyFatSectors.length) s := by
  simp only [persistFat, wp_bind, wp_get]
  refine wp_mono (persistFatSectors_spec h hb hd) (fun _ t ⟨v, hw, ht, hv⟩ => ?_) fun e t ⟨hw, _, he⟩ => ⟨hw, he⟩
  rw [wp_modify]
  exact ⟨v, hw.target rfl rfl rfl rfl, by rw [ht], hv⟩

/-- From `s` to `t` the medium went through the views `vs`, one barrier after the other. -/
def Reached (s t : FileService) (vs : List View) : Prop :=
  ∃ events, t.device.history = s.device.history ++ events ∧ Trail s.device.contents events vs

/-- From `s` to `t` barriers completed at the views `vs`, and nothing waits for another one. -/
structure Advanced (s t : FileService) (vs : List View) : Prop where
  mount : t.mount = s.mount
  fatEntryCount : t.fatEntryCount = s.fatEntryCount
  initialized : t.initialized = s.initialized
  inStep : t.sync.InStep
  view : t.view = vs.getLastD s.view
  contents : t.device.contents = vs.getLastD s.device.contents
  reached : Reached s t vs
  status : t.device.status = s.device.status
  faults : t.device.faults = s.device.faults
  sectorCount : t.device.sectorCount = s.device.sectorCount
  entryCount : t.sync.cache.entryCount = s.sync.cache.entryCount
  generation : t.sync.generation = s.sync.generation + vs.length
  fit : s.Fit [] → t.Fit []

/-- A working service that can complete `b` more barriers, with up to `k` sectors in each. -/
structure Able (s : FileService) (b k : Nat) : Prop where
  fit : s.Fit []
  space : k ≤ s.sync.cache.entryCount
  generations : s.sync.generation + b < 2 ^ 64

theorem Advanced.mounted (h : Advanced s t vs) (hm : s.Mounted) : t.Mounted where
  inStep := h.inStep
  laid := h.mount ▸ hm.laid
  entries := by rw [h.fatEntryCount, h.mount]; exact hm.entries
  sectors := by rw [h.mount, h.sectorCount]; exact hm.sectors

theorem Reached.trans (h : Reached s t vs) (h' : Reached t u ws) (hc : t.device.contents = vs.getLastD s.device.contents) :
    Reached s u (vs ++ ws) := by
  obtain ⟨a, ha, hta⟩ := h
  obtain ⟨b, hb, htb⟩ := h'
  refine ⟨a ++ b, by rw [hb, ha, List.append_assoc], hta.append ?_⟩
  rwa [hta.replay_eq, ← hc]

theorem Advanced.trans (h : Advanced s t vs) (h' : Advanced t u ws) : Advanced s u (vs ++ ws) where
  mount := h'.mount.trans h.mount
  fatEntryCount := h'.fatEntryCount.trans h.fatEntryCount
  initialized := h'.initialized.trans h.initialized
  inStep := h'.inStep
  view := by rw [h'.view, h.view, getLastD_append]
  contents := by rw [h'.contents, h.contents, getLastD_append]
  reached := h.reached.trans h'.reached h.contents
  status := h'.status.trans h.status
  faults := h'.faults.trans h.faults
  sectorCount := h'.sectorCount.trans h.sectorCount
  entryCount := h'.entryCount.trans h.entryCount
  generation := by rw [h'.generation, h.generation, List.length_append, Nat.add_assoc]
  fit hf := h'.fit (h.fit hf)

theorem Advanced.healthy (h : Advanced s t vs) (hd : s.device.Healthy) : t.device.Healthy :=
  ⟨h.status ▸ hd.status, h.faults ▸ hd.faults⟩

theorem Advanced.able {b : Nat} (h : Advanced s t vs) (ha : s.Able (vs.length + b) k) : t.Able b k :=
  ⟨h.fit ha.fit, by rw [h.entryCount]; exact ha.space, by have := ha.generations; rw [h.generation]; omega⟩

theorem Able.room {b : Nat} (h : s.Able b k) : s.Room k := ⟨[], h.fit, by simpa using h.space⟩

theorem Fit.flushed {c : BlockCache} {P : List Nat} (h : s.Fit P) (hm : s.Mounted)
    (hc : BlockCache.Flushed s.sync.cache.currentGeneration s.sync.cache c) {sync : Sync}
    (hs : sync.cache = { c with currentGeneration := sync.generation }) : Fit { s with sync } [] := by
  refine ⟨?_, fun i hi => ?_, fun i hi hl => ?_⟩
  · rw [device, hs]
    exact ⟨hc.status.trans h.healthy.status, fun k => by rw [hc.faults]; exact h.healthy.faults k⟩
  · simp only [hs] at hi ⊢
    rw [hc.pins]
    exact h.unpinned i (hc.entryCount ▸ hi)
  · simp only [hs] at hi hl
    refine absurd ⟨hi, ?_, hc.settled hm.inStep.coherent hi⟩ hl
    show (c.entries i).pinCount = 0
    rw [hc.pins]
    exact h.unpinned i (hc.entryCount ▸ hi)

theorem barrier_spec (h : s.Mounted) :
    wp barrier
      (fun _ t => Advanced s t [s.view] ∧ (∀ P, s.Fit P → t.Fit []) ∧ t = { s with sync := t.sync })
      (fun e t => e ≠ .notFound ∧ t.initialized = false ∧ t.view = s.view ∧
        (s.device.Healthy → s.sync.generation = 2 ^ 64 - 1 ∧ t.device = s.device)) s := by
  simp only [barrier, wp_bind, wp_attempt, onSync, wp_zoom]
  refine wp_mono (Sync.barrier_spec h.inStep) (fun _ sync hs => ?_) fun e sync ⟨hu, he, hh⟩ => ?_
  · rw [wp_pure]
    obtain ⟨c, hc, hcache⟩ := hs.flushed
    have hgen := h.inStep.generation
    rw [hgen] at hc
    obtain ⟨ws, hws, hr, hw⟩ := hc.history
    have hview : sync.cache.view = s.view := by
      rw [hcache]
      exact hc.view
    have hcontents : sync.cache.device.contents = s.view := by
      rw [hcache]
      exact hc.contents h.inStep.coherent
    have hfit : ∀ P, s.Fit P → Fit { s with sync } [] := fun P hp => hp.flushed h hc hcache
    refine ⟨⟨rfl, rfl, rfl, ⟨hs.coherent, hs.generation, ?_⟩, hview, hcontents, ?_, ?_, ?_, ?_, ?_, ?_,
      hfit []⟩, hfit, rfl⟩
    · have := hs.advanced
      show 0 < sync.generation
      omega
    · refine ⟨ws ++ [.flush], ?_, .cons hw ?_ .nil⟩
      · show sync.cache.device.history = _
        rw [hcache, ← List.append_assoc]
        exact hws
      · have hv := hc.contents h.inStep.coherent
        rw [hr] at hv
        exact hv
    · rw [device, hcache]
      exact hc.status
    · rw [device, hcache]
      exact hc.faults
    · rw [device, hcache]
      exact hc.sectorCount
    · rw [hcache]
      exact hc.entryCount
    · exact hs.advanced
  · simp only [wp_modify, wp_fail]
    refine ⟨he, trivial, hu.unflushed.view, fun hd => ?_⟩
    obtain ⟨hg, hc⟩ := hh hd
    exact ⟨hg, by rw [device, hc]; rfl⟩

end FileService
end InferenceOS
