import InferenceOS.Theorems.Formatting

/-! The file service on a probed mount. The mount accepts a root directory of any number of clusters, the file
    service only one of a single cluster; nothing else of a read-write mount keeps the service from opening. -/

namespace InferenceOS
open Program BlockCache FsMount

namespace BlockCache
variable {cache : BlockCache} {n : Nat}

/-- The device is readable, and the cache has an entry to read into. -/
structure Serves (cache : BlockCache) : Prop where
  coherent : cache.Coherent
  readable : cache.device.Readable
  loose : ∃ i, cache.Loose i

theorem acquireEntry_serves (h : cache.Serves) (hn : n < cache.device.sectorCount) :
    wp (acquireEntry n true) (fun _ _ => True) (fun _ _ => False) cache := by
  simp only [acquireEntry, wp_bind, wp_get, wp_failIf]
  refine ⟨fun hx => absurd hn (not_lt.mpr hx), fun _ => ?_⟩
  cases cache.findEntry n with
  | some i => trivial
  | none =>
    cases hv : cache.selectVictim with
    | none =>
      obtain ⟨i, hi⟩ := h.loose
      exact absurd hv (h.coherent.selectVictim_ne_none hi)
    | some i =>
      simp only [wp_bind, wp_modify, ↓reduceIte, wp_attempt, onDevice, wp_zoom, putEntry]
      exact wp_mono (BlockDevice.readable_spec h.readable hn) (fun _ _ _ => trivial) fun _ _ hx => hx.elim

theorem read_serves (h : cache.Serves) (hn : n < cache.device.sectorCount) :
    wp (read n) (fun _ c => c.Serves) (fun _ _ => False) cache := by
  simp only [read, wp_bind]
  refine wp_mono (wp_and (acquireEntry_spec h.coherent) (acquireEntry_serves h hn)) (fun i c hx => ?_)
    fun _ _ hx => hx.2
  obtain ⟨⟨_, ha⟩, _⟩ := hx
  obtain ⟨hs, -⟩ := h.coherent.steady_acquired hn ha
  obtain ⟨i, hi⟩ := h.loose
  refine ⟨hs.coherent, ?_, i, (hs.loose i).mpr hi⟩
  rcases ha with ⟨-, rfl⟩ | ⟨-, -, device, hd, rfl⟩
  · exact h.readable
  · rcases hd with rfl | rfl
    · exact h.readable
    · exact ⟨h.readable.status, fun k hk => h.readable.faults k (Nat.le_of_succ_le hk)⟩

end BlockCache

namespace FileService
variable {s : FileService} {n : Nat}

theorem cacheRead_serves (h : s.sync.cache.Serves) (hn : n < s.device.sectorCount) :
    wp (cacheRead n) (fun _ t => t.sync.cache.Serves) (fun _ _ => False) s := by
  simp only [cacheRead, onSync, Sync.onCache, wp_zoom]
  exact read_serves h hn

theorem loadSectors_serves (h : s.Mounted) (hs : s.sync.cache.Serves) : ∀ {count : Nat}, count ≤ s.mount.geometry.fatSectors →
    wp (each loadFatAt (List.range count)) (fun _ t => Wrote s t s.view 0 ∧ t.sync.cache.Serves) (fun _ _ => False) s
  | 0, _ => ⟨Wrote.refl h, hs⟩
  | count + 1, hc => by
    rw [List.range_succ, wp_each_append]
    refine wp_mono (loadSectors_serves h hs (by omega)) (fun _ t ⟨hw, ht⟩ => ?_) fun _ _ hx => hx
    have hm := hw.mounted h
    have hlt : superblockSectors + count < t.device.sectorCount := hm.table_inRange (by rw [hw.mount]; omega)
    have hview : t.view = s.view := hw.view
    rw [wp_each_cons]
    have hserves : wp (loadFatAt count) (fun _ u => u.sync.cache.Serves) (fun _ _ => False) t := by
      unfold loadFatAt
      rw [wp_bind]
      exact wp_mono (cacheRead_serves ht hlt) (fun _ _ hu => hu) fun _ _ hx => hx
    refine wp_mono (wp_and (loadFatAt_spec hm (by rw [hw.mount]; omega)) hserves) (fun _ u ⟨⟨hu, _⟩, hu'⟩ => ?_) fun _ _ hx => hx.2
    rw [hview] at hu
    exact ⟨hw.trans hu, hu'⟩

theorem loadFat_serves (h : s.Mounted) (hs : s.sync.cache.Serves) : wp loadFat (fun _ _ => True) (fun _ _ => False) s := by
  simp only [loadFat, wp_bind, wp_get]
  exact wp_mono (loadSectors_serves h hs le_rfl) (fun _ _ _ => trivial) fun _ _ hx => hx

section Attach
variable {device d : BlockDevice} {g : Geometry} {status : Except IosError Unit} {mount : FsMount} {entryCount storageSize : Nat}
  {cache : BlockCache} {storage : Nat → Nat}

theorem serves_initial (hd : device.Readable) (hc : blockCacheInitialize device entryCount = .ok cache) : cache.Serves := by
  obtain ⟨hco, he, hdev, -⟩ := BlockCache.Coherent.initial hc
  refine ⟨hco, by rwa [hdev], 0, ?_, hco.unpinned ?_ (he 0), Or.inl (he 0)⟩
  all_goals
    unfold blockCacheInitialize at hc
    split at hc
    · cases hc
    · cases hc
      exact Nat.pos_of_ne_zero (not_or.mp ‹_›).1

theorem chain_root_iff {fat : Nat → Nat} (h : Validator.RootSafe g fat) :
    Fat.eocFirst ≤ fat rootCluster ↔ Fat.Chain fat (g.clusterCount + 2) rootCluster [rootCluster] := by
  obtain ⟨-, -, l, hl⟩ := h
  constructor
  · intro he
    cases hl with
    | last hv hends => exact .last hv hends
    | link hv hl =>
      have := hl.start.small
      unfold Fat.reservedFirst Fat.eocFirst at *
      omega
  · intro hl
    cases hl with
    | last _ hends => exact hends.1
    | link _ hl => exact absurd rfl hl.ne_nil

theorem initialize_probed (hr : device.Readable) (hp : probe device = (.ok (status, mount), d))
    (hrw : mount.report.state = .rw) (hc : blockCacheInitialize d entryCount = .ok cache)
    (hs : mount.geometry.fatSectors * 512 ≤ storageSize) :
    Validator.RootSafe mount.geometry (fatOf mount.geometry device.contents) ∧
      ((∃ t, fileServiceInitialize storageSize (.blank mount.seen (.syncInitialize cache) storage) = (.ok (), t)) ↔
        Fat.eocFirst ≤ fatOf mount.geometry device.contents rootCluster) := by
  obtain ⟨ht, -, hclass⟩ := wp_ok (probe_spec hr) hp
  have hg : FsMount.Derived device mount.geometry := hclass.geometry (by rw [hrw]; intro hx; cases hx)
  have hsafe := (FsMount.Rooted.safe hg).mp (hclass.rw.mp hrw).2.2.2
  have hlaid := hg.placed.laid
  have hfat := (calculateGeometry_eq hg).2.2.2.2.1
  have hseen : mount.seen = ⟨mount.geometry, .rw⟩ := by rw [seen, hrw]
  rw [hseen]
  obtain ⟨hm, hview, -⟩ := @blank_mounted mount.geometry _ _ _ _ _ storage .rw hg ht.sectorCount.ge hc
  generalize hstart : FileService.blank ⟨mount.geometry, .rw⟩ (.syncInitialize cache) storage = s at *
  have hgeometry : s.mount.geometry = mount.geometry := by rw [← hstart]; rfl
  have hcache : s.sized.sync.cache = cache := by rw [← hstart]; rfl
  have hdisk : s.disk.fat = fatOf mount.geometry device.contents := by
    rw [disk, hgeometry, show s.view = d.contents from hview, ht.contents]
    rfl
  have hserves : s.sized.sync.cache.Serves := by
    rw [hcache]
    exact serves_initial (ht.readable hr) hc
  have hopen : s.Openable storageSize ↔ Fat.eocFirst ≤ fatOf mount.geometry device.contents rootCluster := by
    have htable := hlaid.table
    rw [Openable, hgeometry, hdisk]
    exact ⟨fun ho => ho.2.2.2.2, fun he => ⟨⟨hfat.ne', hlaid.positive.ne'⟩, ⟨hs, by omega⟩, hsafe.1.1, hsafe.2.1.1, he⟩⟩
  have hspec := @initialize_of_loadFat s storageSize False hm
    (wp_mono (wp_and (loadFat_spec hm) (loadFat_serves hm hserves)) (fun _ _ ht => ht.1) fun _ _ hx => hx.2)
  rw [← hopen]
  refine ⟨hsafe, fun hx => hx.elim fun t hi => (wp_ok hspec hi).1, fun ho => ?_⟩
  rcases hi : fileServiceInitialize storageSize s with ⟨e | _, t⟩
  · exact ((wp_error hspec hi).elim id fun hx => hx ho).elim
  · exact ⟨t, rfl⟩

theorem exists_probed (hr : device.Readable) (hw : FsMount.Writable device) :
    ∃ mount d cache, probe device = (.ok (.ok (), mount), d) ∧ device.Ticked d ∧ mount.report.state = .rw ∧
      blockCacheInitialize d 256 = .ok cache ∧ FsMount.Derived device mount.geometry := by
  rcases hp : probe device with ⟨e | ⟨status, mount⟩, d⟩
  · exact (wp_error (probe_spec hr) hp).elim
  obtain ⟨ht, hs, hclass⟩ := wp_ok (probe_spec hr) hp
  have hrw := hclass.rw.mpr hw
  have hg : FsMount.Derived device mount.geometry := hclass.geometry (by rw [show mount.report.state = .rw from hrw]; nofun)
  have hsize := (calculateGeometry_eq hg).2.2.1
  have hstatus : ¬(d.status = .offline ∨ d.status = .failed) := by
    rw [ht.status]
    rcases hr.status with hx | hx <;> simp [hx]
  have hcache : ∃ cache, blockCacheInitialize d 256 = .ok cache := by
    refine ⟨_, if_neg ?_⟩
    rw [ht.logicalSectorSize, hsize]
    simpa [maxEntries] using hstatus
  obtain ⟨cache, hcache⟩ := hcache
  exact ⟨mount, d, cache, by rw [show status = .ok () from hs], ht, hrw, hcache, hg⟩

/-- The file service opens a volume that was classified read-write exactly when its root directory has one
    cluster. -/
theorem initialize_iff (hr : device.Readable) (hp : probe device = (.ok (status, mount), d))
    (hrw : mount.report.state = .rw) (hc : blockCacheInitialize d entryCount = .ok cache)
    (hs : mount.geometry.fatSectors * 512 ≤ storageSize) :
    (∃ t, fileServiceInitialize storageSize (.blank mount.seen (.syncInitialize cache) storage) = (.ok (), t)) ↔
      Fat.Chain (fatOf mount.geometry device.contents) (mount.geometry.clusterCount + 2) rootCluster [rootCluster] := by
  obtain ⟨hsafe, hopen⟩ := @initialize_probed _ _ _ _ _ _ _ storage hr hp hrw hc hs
  exact hopen.trans (chain_root_iff hsafe)

theorem initialize_iff_minimum : ∃ (mount : FsMount) (cache : BlockCache) (t : FileService), mount.report.state = .rw ∧
    fileServiceInitialize (mount.geometry.fatSectors * 512) (.blank mount.seen (.syncInitialize cache) fun _ => 0) = (.ok (), t) := by
  have hhealthy : (BlockDevice.blank minimumVolumeSectors).Healthy := ⟨rfl, fun _ => rfl⟩
  obtain ⟨device, hd, hh⟩ := @exists_format _ _ 0 (fun _ => ascii 'A') hhealthy calculateGeometry_minimum (by decide)
  obtain ⟨hg, superblock, hs, hover⟩ := wp_ok format_spec hd
  have hr : device.Readable := ⟨Or.inl hh.status, fun k _ => hh.faults k⟩
  have hderived : FsMount.Derived device smallGeometry := by
    unfold FsMount.Derived
    rw [hover.logicalSectorSize, hover.sectorCount]
    exact hg
  obtain ⟨mount, d, cache, hp, -, hrw, hc, hmount⟩ := exists_probed hr (writable_formatted hderived hs hover.contents)
  obtain ⟨t, ht⟩ := (initialize_iff hr hp hrw hc le_rfl).mpr (by
    rw [hmount.unique hderived, hover.contents]
    exact chain_formatted hderived.placed.laid)
  exact ⟨mount, cache, t, hrw, ht⟩

end Attach

def longRootTable : Sector :=
  Bytes.zero.put 0 (Bytes.ofNat 4 Fat.endOfChain) |>.put 4 (Bytes.ofNat 4 Fat.endOfChain) |>.put 8 (Bytes.ofNat 4 3)
    |>.put 12 (Bytes.ofNat 4 Fat.endOfChain)

def longRootDevice : BlockDevice :=
  { BlockDevice.blank minimumVolumeSectors with
    contents := fun n =>
      if n < superblockSectors then
        (superblockEncode (formatValues smallGeometry 0 fun _ => ascii 'A')).toOption.getD Bytes.zero
      else if n = superblockSectors then longRootTable
      else Bytes.zero }

theorem longRootTable_entry {i : Nat} (hi : i < 4) :
    fatOf smallGeometry longRootDevice.contents i = if i = 2 then 3 else Fat.endOfChain := by
  have hentry : fatOf smallGeometry longRootDevice.contents i = longRootTable.toNat (4 * i) 4 := by
    unfold fatOf
    rw [if_pos (lt_of_lt_of_le hi (by decide)), Nat.div_eq_of_lt (by omega), Nat.mod_eq_of_lt (by omega)]
    rfl
  rw [hentry, longRootTable]
  match i, hi with
  | 0, _ =>
    simp (disch := omega) only [Bytes.toNat_put_of_disjoint, Bytes.toNat_put]
    rfl
  | 1, _ =>
    simp (disch := omega) only [Bytes.toNat_put_of_disjoint, Bytes.toNat_put]
    rfl
  | 2, _ =>
    rw [Bytes.toNat_put_of_disjoint (by omega), Bytes.toNat_put (by omega)]
    rfl
  | 3, _ =>
    rw [Bytes.toNat_put (by omega)]
    rfl

theorem longRootDevice_writable : FsMount.Writable longRootDevice := by
  have hg : FsMount.Derived longRootDevice smallGeometry := calculateGeometry_minimum
  obtain ⟨superblock, hs⟩ := @superblockEncode_format smallGeometry _ _ 0 (fun _ => ascii 'A') calculateGeometry_minimum (by decide)
  have hcopy : ∀ {n}, n < 2 → longRootDevice.contents n = superblock := fun hn => by
    refine (if_pos hn).trans ?_
    rw [hs]
    rfl
  refine ⟨?_, ?_, (hcopy (by decide)).trans (hcopy (by decide)).symm, (FsMount.Rooted.safe hg).mpr ⟨?_, ?_, [2, 3], ?_⟩⟩
  · exact usable_of_encode hg (by rw [hcopy (by decide)]; exact hs)
  · exact usable_of_encode hg (by rw [hcopy (by decide)]; exact hs)
  · rw [longRootTable_entry (by omega)]
    exact ⟨by decide, by decide⟩
  · rw [longRootTable_entry (by omega)]
    exact ⟨by decide, by decide⟩
  · refine .link ⟨by decide, by decide, by decide⟩ ?_
    rw [show fatOf smallGeometry longRootDevice.contents rootCluster = 3 from longRootTable_entry (by decide)]
    refine .last ⟨by decide, by decide, by decide⟩ ?_
    rw [longRootTable_entry (by omega)]
    exact ⟨by decide, by decide⟩

/-- A root directory of two clusters is mounted read-write, but the file service does not open. -/
theorem initialize_longRoot : longRootDevice.Readable ∧
    ∃ mount d cache, probe longRootDevice = (.ok (.ok (), mount), d) ∧ mount.report.state = .rw ∧
      blockCacheInitialize d 256 = .ok cache ∧
      ¬∃ t, fileServiceInitialize (mount.geometry.fatSectors * 512) (.blank mount.seen (.syncInitialize cache) fun _ => 0) =
        (.ok (), t) := by
  have hr : longRootDevice.Readable := ⟨Or.inl rfl, fun _ _ => rfl⟩
  obtain ⟨mount, d, cache, hp, -, hrw, hc, hmount⟩ := exists_probed hr longRootDevice_writable
  refine ⟨hr, mount, d, cache, hp, hrw, hc, fun ht => ?_⟩
  have heoc := (initialize_probed hr hp hrw hc le_rfl).2.mp ht
  have hsmall : mount.geometry = smallGeometry := hmount.unique calculateGeometry_minimum
  rw [hsmall, show fatOf smallGeometry longRootDevice.contents rootCluster = 3 from longRootTable_entry (by decide)] at heoc
  exact absurd heoc (by decide)

end FileService

end InferenceOS
