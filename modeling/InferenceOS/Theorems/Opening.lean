import InferenceOS.Theorems.Reachability

/-! A volume that was just formatted and opened: its geometry, the sectors that the formatter leaves, and the
    empty tree that they hold. -/

namespace InferenceOS
open Program BlockCache
variable {size total : Nat} {g : Geometry}

theorem calculateGeometry_eq (h : calculateGeometry size total = .ok g) :
    g.Laid ∧ g.totalSectors = total ∧ size = 512 ∧ minimumVolumeSectors ≤ total ∧ 0 < g.fatSectors ∧
      g.registryStartSector = superblockSectors + g.fatSectors ∧
      g.clusterCount = (total - g.dataStartSector) / sectorsPerCluster ∧ g.dataStartSector < total := by
  unfold calculateGeometry at h
  obtain ⟨hsize, h₁⟩ := of_check h
  obtain ⟨hmin, h₂⟩ := of_check h₁
  obtain ⟨low, -, h₃⟩ := of_bind_ok h₂
  obtain ⟨hlow, h₄⟩ := of_check h₃
  obtain ⟨hfixed, h₅⟩ := of_check h₄
  obtain ⟨hcount, h₆⟩ := of_check h₅
  cases h₆
  obtain ⟨hzero, hmax, -, htable⟩ : _ ∧ _ ∧ _ ∧ _ := by simpa only [not_or] using hcount
  have htotal : superblockSectors + low + registrySectors + (total - (superblockSectors + low + registrySectors)) /
      sectorsPerCluster * sectorsPerCluster ≤ total := by
    have := Nat.div_mul_le_self (total - (superblockSectors + low + registrySectors)) sectorsPerCluster
    omega
  have hpos : 0 < low := by
    refine Nat.pos_of_ne_zero fun hz => htable ?_
    rw [hz, Nat.zero_mul]
    exact Nat.succ_pos _
  have hclusters : (total - (superblockSectors + low + registrySectors)) / sectorsPerCluster + 1 ≤ maxDataCluster := by
    have : 0 < maxDataCluster := by decide
    omega
  have hsectors : low < 2 ^ 32 := by omega
  exact ⟨⟨rfl, not_lt.mp htable, Nat.pos_of_ne_zero hzero, hclusters, hsectors, htotal⟩, rfl, not_not.mp hsize, not_lt.mp hmin, hpos, rfl, rfl, not_le.mp hfixed⟩

theorem searchFatSectors_le {total : Nat} : ∀ {fuel low high r : Nat}, searchFatSectors total fuel low high = .ok r →
    low ≤ high → r ≤ high
  | 0, low, high, r, h, hle => by
    cases h
    exact hle
  | fuel + 1, low, high, r, h, hle => by
    unfold searchFatSectors at h
    dsimp only at h
    split at h
    · split at h
      · cases h
      split at h
      · cases h
      split at h
      · cases h
      split at h
      · exact (searchFatSectors_le h (by omega)).trans (by omega)
      · exact searchFatSectors_le h (by omega)
    · cases h
      exact hle

theorem calculateGeometry_short (h : calculateGeometry size total = .ok g) : superblockSectors + g.fatSectors < 2 ^ 32 := by
  obtain ⟨hlaid, -, -, -, -, -, hcount, hlt⟩ := calculateGeometry_eq h
  have hmax := hlaid.clusters
  have hdata := hlaid.data
  have hle : g.fatSectors ≤ (total / 8 + 2 + 127) / 128 := by
    unfold calculateGeometry at h
    obtain ⟨-, h₁⟩ := of_check h
    obtain ⟨-, h₂⟩ := of_check h₁
    obtain ⟨low, hlow, h₃⟩ := of_bind_ok h₂
    obtain ⟨-, h₄⟩ := of_check h₃
    obtain ⟨-, h₅⟩ := of_check h₄
    obtain ⟨-, h₆⟩ := of_check h₅
    cases h₆
    exact searchFatSectors_le hlow ((Nat.le_div_iff_mul_le (by decide)).mpr (by omega))
  unfold superblockSectors registrySectors sectorsPerCluster maxDataCluster at *
  omega

namespace BlockDevice
variable {device d : BlockDevice} {first count : Nat}
variable {contents : Nat → Sector}

structure Overwritten (device d : BlockDevice) (contents : Nat → Sector) : Prop where
  contents : d.contents = contents
  status : d.status = device.status
  faults : d.faults = device.faults
  sectorCount : d.sectorCount = device.sectorCount
  logicalSectorSize : d.logicalSectorSize = device.logicalSectorSize

theorem writeMany_spec {buffer : Nat → Sector} (hc : count ≠ 0) (hs : first + count ≤ device.sectorCount) :
    wp (write first count buffer)
      (fun _ d => Overwritten device d (storeSectors device.contents first count buffer)) (fun _ _ => ¬device.Healthy)
      device := by
  simp only [write, wp_bind, wp_get, wp_ofExcept, wp_failIf]
  refine ⟨fun _ _ => ⟨fun hr hh => by simp [hh.status] at hr, fun _ => ?_⟩, fun e he hh => ?_⟩
  · unfold wp driverWrite
    rcases hf : device.faults device.calls with - | fault
    · exact ⟨rfl, rfl, rfl, rfl, rfl⟩
    · exact fun h => by simp [h.faults] at hf
  · unfold validateRange at he
    rw [if_neg hc, if_neg (by simp [hh.status]), if_neg (by omega)] at he
    cases he

theorem Overwritten.healthy (h : Overwritten device d contents) : d.Healthy ↔ device.Healthy := by
  constructor
  · exact fun hh => ⟨h.status ▸ hh.status, h.faults ▸ hh.faults⟩
  · exact fun hh => ⟨h.status ▸ hh.status, h.faults ▸ hh.faults⟩

theorem storeSectors_append {m : Nat} {b : Sector} :
    storeSectors (storeSectors contents first count fun _ => b) (first + count) m (fun _ => b) =
      storeSectors contents first (count + m) fun _ => b := by
  funext n
  unfold storeSectors
  by_cases h₁ : first + count ≤ n ∧ n < first + count + m
  · rw [if_pos h₁, if_pos (by omega)]
  · rw [if_neg h₁]
    by_cases h₂ : first ≤ n ∧ n < first + count
    · rw [if_pos h₂, if_pos (by omega)]
    · rw [if_neg h₂, if_neg (by omega)]

theorem storeSectors_zero {buffer : Nat → Sector} : storeSectors contents first 0 buffer = contents := by
  funext n
  exact if_neg (by omega)

theorem zeroSectorsFrom_spec : ∀ {fuel first count : Nat} {device : BlockDevice}, count ≤ fuel →
    first + count ≤ device.sectorCount →
    wp (zeroSectorsFrom fuel first count)
      (fun _ d => Overwritten device d (storeSectors device.contents first count fun _ => Bytes.zero))
      (fun _ _ => ¬device.Healthy) device
  | 0, first, count, device, hf, hs => by
    rw [Nat.le_zero.mp hf, storeSectors_zero]
    exact ⟨rfl, rfl, rfl, rfl, rfl⟩
  | fuel + 1, first, count, device, hf, hs => by
    rw [zeroSectorsFrom]
    by_cases hc : count = 0
    · rw [if_pos hc, hc, storeSectors_zero]
      exact ⟨rfl, rfl, rfl, rfl, rfl⟩
    · rw [if_neg hc]
      simp only [wp_bind]
      refine wp_mono (writeMany_spec (by omega) (by omega)) (fun _ d hd => ?_) fun _ _ he => he
      refine wp_mono (zeroSectorsFrom_spec (by omega) (by rw [hd.sectorCount]; omega)) (fun _ e he => ?_) fun _ _ he => ?_
      · refine ⟨?_, he.status.trans hd.status, he.faults.trans hd.faults, he.sectorCount.trans hd.sectorCount,
          he.logicalSectorSize.trans hd.logicalSectorSize⟩
        rw [he.contents, hd.contents, storeSectors_append, Nat.add_sub_cancel' (Nat.min_le_left _ _)]
      · rwa [hd.healthy] at he

end BlockDevice

def formatValues (g : Geometry) (volumeSerial : Nat) (volumeLabel : Bytes 11) : Superblock :=
  { totalSectors := g.totalSectors
    sectorsPerFat := g.fatSectors
    registryStartSector := g.registryStartSector
    volumeSerial
    flags := 0
    volumeLabel }

def formattedContents (g : Geometry) (superblock : Sector) (medium : Nat → Sector) (n : Nat) : Sector :=
  if n < superblockSectors then superblock
  else if n = superblockSectors then formattedFatSector
  else if n < g.dataStartSector + sectorsPerCluster then Bytes.zero
  else medium n

theorem formattedContents_eq (hg : g.Laid) {superblock : Sector} {medium : Nat → Sector} :
    storeSectors (storeSectors (storeSectors (storeSectors medium superblockSectors
      (g.dataStartSector + sectorsPerCluster - superblockSectors) fun _ => Bytes.zero) superblockSectors 1
        fun _ => formattedFatSector) 1 1 fun _ => superblock) 0 1 (fun _ => superblock) =
      formattedContents g superblock medium := by
  have hdata := hg.data
  funext n
  unfold storeSectors formattedContents
  unfold superblockSectors sectorsPerCluster registrySectors at *
  by_cases h₀ : n < 2
  · rw [if_pos h₀]
    by_cases h₁ : 0 ≤ n ∧ n < 0 + 1
    · rw [if_pos h₁]
    · rw [if_neg h₁, if_pos (by omega)]
  · rw [if_neg h₀, if_neg (by omega), if_neg (by omega)]
    by_cases h₂ : n = 2
    · rw [if_pos h₂, if_pos (by omega)]
    · rw [if_neg h₂, if_neg (by omega)]
      by_cases h₃ : n < g.dataStartSector + 8
      · rw [if_pos h₃, if_pos (by omega)]
      · rw [if_neg h₃, if_neg (by omega)]

theorem format_spec {device : BlockDevice} {volumeSerial : Nat} {volumeLabel : Bytes 11} :
    wp (format volumeSerial volumeLabel)
      (fun g d => calculateGeometry device.logicalSectorSize device.sectorCount = .ok g ∧ ∃ superblock,
        superblockEncode (formatValues g volumeSerial volumeLabel) = .ok superblock ∧
          device.Overwritten d (formattedContents g superblock device.contents))
      (fun _ _ => ¬device.Healthy ∨
        ∀ g, calculateGeometry device.logicalSectorSize device.sectorCount = .ok g →
          ∀ superblock, superblockEncode (formatValues g volumeSerial volumeLabel) ≠ .ok superblock) device := by
  simp only [format, wp_bind, wp_get, wp_failIf, wp_ofExcept]
  refine ⟨fun hr => Or.inl fun hh => by simp [hh.status] at hr, fun _ => ⟨fun hr => Or.inl fun hh => hr hh.status,
    fun _ => ⟨fun g hg => ?_, fun e he => Or.inr fun g hg => by rw [hg] at he; cases he⟩⟩⟩
  refine ⟨fun superblock hsuper => ?_, fun e he => Or.inr fun g' hg' superblock hs => ?_⟩
  swap
  · rw [hg] at hg'
    cases hg'
    have he : superblockEncode (formatValues g volumeSerial volumeLabel) = .error e := he
    rw [he] at hs
    cases hs
  obtain ⟨hlaid, htotal, -⟩ := calculateGeometry_eq hg
  have hfit := hlaid.total
  have hone := hlaid.positive
  have hdata := hlaid.data
  rw [htotal] at hfit
  have hend : g.dataStartSector + sectorsPerCluster ≤ device.sectorCount :=
    le_trans (Nat.add_le_add_left (Nat.le_mul_of_pos_left _ hone) _) hfit
  have hstart : superblockSectors ≤ g.dataStartSector := by omega
  have hlow : 3 ≤ device.sectorCount := by
    unfold superblockSectors sectorsPerCluster at *
    omega
  refine wp_mono (BlockDevice.zeroSectorsFrom_spec le_rfl (by omega)) (fun _ d₁ h₁ => ?_) fun _ _ he => Or.inl he
  rw [wp_bind]
  refine wp_mono (BlockDevice.writeMany_spec one_ne_zero (by rw [h₁.sectorCount]; exact hlow)) (fun _ d₂ h₂ => ?_)
    fun _ _ he => Or.inl (by rwa [h₁.healthy] at he)
  have hc₂ : d₂.sectorCount = device.sectorCount := h₂.sectorCount.trans h₁.sectorCount
  rw [wp_bind]
  refine wp_mono (BlockDevice.writeMany_spec one_ne_zero (by rw [hc₂]; omega)) (fun _ d₃ h₃ => ?_)
    fun _ _ he => Or.inl (by rwa [h₂.healthy, h₁.healthy] at he)
  have hc₃ : d₃.sectorCount = device.sectorCount := h₃.sectorCount.trans hc₂
  rw [wp_bind]
  refine wp_mono (BlockDevice.writeMany_spec one_ne_zero (by rw [hc₃]; omega)) (fun _ d₄ h₄ => ?_)
    fun _ _ he => Or.inl (by rwa [h₃.healthy, h₂.healthy, h₁.healthy] at he)
  rw [wp_bind]
  refine wp_mono BlockDevice.flush_spec (fun _ d₅ h₅ => ?_)
    fun _ _ he => Or.inl (by rw [h₄.healthy, h₃.healthy, h₂.healthy, h₁.healthy] at he; exact he.2.2)
  subst h₅
  refine ⟨hg, superblock, hsuper, ?_, h₄.status.trans (h₃.status.trans (h₂.status.trans h₁.status)),
    h₄.faults.trans (h₃.faults.trans (h₂.faults.trans h₁.faults)), h₄.sectorCount.trans hc₃,
    h₄.logicalSectorSize.trans (h₃.logicalSectorSize.trans (h₂.logicalSectorSize.trans h₁.logicalSectorSize))⟩
  rw [BlockDevice.flushed_contents, h₄.contents, h₃.contents, h₂.contents, h₁.contents, formattedContents_eq hlaid]

theorem superblockEncode_format {g : Geometry} {size total volumeSerial : Nat} {volumeLabel : Bytes 11}
    (hg : calculateGeometry size total = .ok g) (hl : validLabel volumeLabel = true) :
    ∃ superblock, superblockEncode (formatValues g volumeSerial volumeLabel) = .ok superblock := by
  obtain ⟨hlaid, htotal, -, -, hfat, hreg, -, hlt⟩ := calculateGeometry_eq hg
  have hdata := hlaid.data
  have hshort := calculateGeometry_short hg
  unfold superblockEncode
  refine ⟨_, if_neg ?_⟩
  simp only [formatValues, hl, not_or]
  rw [Nat.mod_eq_of_lt hshort]
  unfold superblockSectors registrySectors at *
  refine ⟨by omega, by omega, by simp, by omega, by omega, by omega, by simp⟩

theorem exists_format {device : BlockDevice} {g : Geometry} {volumeSerial : Nat} {volumeLabel : Bytes 11} (hh : device.Healthy)
    (hg : calculateGeometry device.logicalSectorSize device.sectorCount = .ok g) (hl : validLabel volumeLabel = true) :
    ∃ d, format volumeSerial volumeLabel device = (.ok g, d) ∧ d.Healthy := by
  obtain ⟨superblock, hsuper⟩ := @superblockEncode_format g _ _ volumeSerial volumeLabel hg hl
  rcases hf : format volumeSerial volumeLabel device with ⟨e | g', d⟩
  · rcases wp_error format_spec hf with hx | hx
    · exact absurd hh hx
    · exact absurd hsuper (hx g hg superblock)
  · obtain ⟨hg', _, -, hover⟩ := wp_ok format_spec hf
    rw [hg] at hg'
    cases hg'
    exact ⟨d, rfl, hover.healthy.mpr hh⟩

def smallGeometry : Geometry :=
  { totalSectors := 97656250, fatSectors := 95271, registryStartSector := 95273, dataStartSector := 99369
    clusterCount := 12194610, usableBytes := 49949122560 }

theorem calculateGeometry_minimum : calculateGeometry 512 minimumVolumeSectors = .ok smallGeometry := by decide +kernel

def emptyTree : Tree := { dirs := (· = rootCluster), parent := fun _ => rootCluster, items := fun _ _ => .unused, chain := fun _ _ => [] }

section Formatted
variable {g : Geometry} {superblock : Sector} {medium : Nat → Sector}

theorem formattedFatSector_entry {i : Nat} :
    formattedFatSector.toNat (4 * i) 4 = if i < 3 then Fat.endOfChain else Fat.free := by
  unfold formattedFatSector
  match i with
  | 0 =>
    simp (disch := omega) only [Bytes.toNat_put_of_disjoint, Bytes.toNat_put]
    rfl
  | 1 =>
    rw [Bytes.toNat_put_of_disjoint (by omega), Bytes.toNat_put (by omega)]
    rfl
  | 2 =>
    rw [Bytes.toNat_put (by omega)]
    rfl
  | i + 3 =>
    simp (disch := omega) only [Bytes.toNat_put_of_disjoint, Bytes.toNat_zero, if_neg]
    rfl

theorem fatOf_formatted (hg : g.Laid) (i : Nat) :
    fatOf g (formattedContents g superblock medium) i = if i < 3 then Fat.endOfChain else Fat.free := by
  have hdata := hg.data
  have htable := hg.table
  have hpos := hg.positive
  unfold fatOf
  by_cases hi : i < g.fatSectors * 128
  · rw [if_pos hi]
    unfold formattedContents
    unfold superblockSectors registrySectors at *
    rw [if_neg (by omega)]
    by_cases hk : i / 128 = 0
    · rw [hk, if_pos rfl, formattedFatSector_entry, show i % 128 = i by omega]
    · rw [if_neg (by omega), if_pos (by omega), Bytes.toNat_zero, if_neg (by omega)]
      rfl
  · rw [if_neg hi, if_neg (by omega)]
    rfl

theorem dataOf_formatted (hg : g.Laid) : dataOf g (formattedContents g superblock medium) rootCluster = Bytes.zero := by
  have hdata := hg.data
  rw [dataOf_eq (by decide)]
  refine Bytes.ext_byte fun j hj => ?_
  rw [Bytes.byte_of_lt hj, Bytes.byte_zero]
  show (formattedContents g superblock medium (FileService.clusterSector g rootCluster + j / 512)).byte (j % 512) = 0
  unfold formattedContents FileService.clusterSector rootCluster
  unfold superblockSectors registrySectors sectorsPerCluster at *
  rw [if_neg (by omega), if_neg (by omega), if_pos (by omega), Bytes.byte_zero]

theorem describes_formatted (hg : g.Laid) :
    Describes (g.clusterCount + 2) (diskOf g (formattedContents g superblock medium)) emptyTree := by
  have hroot : Fat.validCluster rootCluster (g.clusterCount + 2) := by
    have := hg.positive
    unfold Fat.validCluster rootCluster
    exact ⟨le_rfl, by omega, by decide⟩
  have hitems : ∀ {d i}, emptyTree.items d i = .unused := rfl
  have hnosub : ∀ {d i c}, ¬emptyTree.Sub d i c := by
    rintro d i c ⟨-, p, hp, -⟩
    cases hp
  have hnoowner : ∀ {c d i}, ¬emptyTree.Owns c d i := by
    rintro c d i ⟨-, -, hc, -⟩
    cases hc
  refine ⟨⟨?_, ?_, ?_, ?_, ?_⟩, ?_⟩
  · rintro d rfl
    exact hroot
  · rintro d rfl
    show Fat.Ends (fatOf g _ rootCluster)
    rw [fatOf_formatted hg, if_pos (by decide)]
    exact ⟨by decide, by decide⟩
  · rintro d rfl i _
    show (FileService.slotAt (dataOf g _ rootCluster) i).byte 0 = 0
    rw [dataOf_formatted hg, FileService.slotAt, Bytes.slice_zero, Bytes.byte_zero]
  · rintro d -
    constructor
    · intro i name _ hx
      cases hx
    · intro i p _ hx
      cases hx
    · intros
      rfl
    · rintro i j p q _ _ (hx | hx) <;> cases hx
    · intros
      trivial
  · constructor
    · rfl
    · exact fun _ hs => absurd hs hnosub
    · exact fun hd hr => absurd hd hr
    · exact fun _ hs => absurd hs hnosub
    · exact fun hd hr => absurd hd hr
    · intro d i b c _ _ hx
      cases hx
  · refine ⟨fun {d i p} _ _ hx => (by cases hx), fun ho => absurd ho hnoowner, fun ho => absurd ho hnoowner, fun {c} hv hu => ?_⟩
    refine Or.inl ?_
    by_contra hne
    have : ¬c < 3 := fun hx => hne (by have := hv.1; show c = 2; omega)
    refine hu ?_
    show fatOf g _ c = Fat.free
    rw [fatOf_formatted hg, if_neg this]

end Formatted

namespace FileService
variable {s t : FileService}

/-- The service is opened on a volume that the formatter just wrote. -/
inductive Opened (s : FileService) : Prop where
  | intro {device formatted : BlockDevice} {volumeSerial : Nat} {volumeLabel : Bytes 11} {geometry : Geometry}
    {entryCount storageSize : Nat} {cache : BlockCache} {fatStorage : Nat → Nat} :
    format volumeSerial volumeLabel device = (.ok geometry, formatted) →
    blockCacheInitialize formatted entryCount = .ok cache →
    fileServiceInitialize storageSize (.blank ⟨geometry, .rw⟩ (.syncInitialize cache) fatStorage) = (.ok (), s) → Opened s

def sized (s : FileService) : FileService := { s with fatEntryCount := s.mount.geometry.clusterCount + 2 }

theorem blank_mounted {g : Geometry} {size total entryCount : Nat} {device : BlockDevice} {cache : BlockCache}
    {storage : Nat → Nat} {state : MountState} (hg : calculateGeometry size total = .ok g) (ht : total ≤ device.sectorCount)
    (hc : blockCacheInitialize device entryCount = .ok cache) :
    let s := (FileService.blank ⟨g, state⟩ (.syncInitialize cache) storage).sized
    s.Mounted ∧ s.view = device.contents ∧ s.device = device ∧ s.sync.generation = 1 ∧
      s.sync.cache.entryCount = entryCount ∧ (device.Healthy → s.Fit []) := by
  obtain ⟨hco, he, hd, hgen⟩ := BlockCache.Coherent.initial hc
  obtain ⟨hlaid, htotal, -⟩ := calculateGeometry_eq hg
  refine ⟨⟨⟨hco, rfl, ?_⟩, hlaid, rfl, ?_⟩, ?_, hd, hgen, ?_, fun hh => ⟨?_, fun i hi => hco.unpinned hi (he i), ?_⟩⟩
  · show 0 < cache.currentGeneration
    omega
  · show g.totalSectors ≤ cache.device.sectorCount
    rw [hd, htotal]
    exact ht
  · funext n
    show cache.view n = device.contents n
    rw [view_of_not_holds fun i hi => hi.2.1 (he i), hd]
  · unfold blockCacheInitialize at hc
    split at hc <;> cases hc
    rfl
  · show cache.device.Healthy
    rwa [hd]
  · exact fun i hi hl => absurd ⟨hi, hco.unpinned hi (he i), Or.inl (he i)⟩ hl

def Openable (s : FileService) (storageSize : Nat) : Prop :=
  (s.mount.geometry.fatSectors ≠ 0 ∧ s.mount.geometry.clusterCount ≠ 0) ∧
    (s.mount.geometry.fatSectors * 512 ≤ storageSize ∧
      (s.mount.geometry.clusterCount + 2) * 4 ≤ s.mount.geometry.fatSectors * 512) ∧
    Fat.eocFirst ≤ s.disk.fat 0 ∧ Fat.eocFirst ≤ s.disk.fat 1 ∧ Fat.eocFirst ≤ s.disk.fat rootCluster

theorem initialize_of_loadFat {storageSize : Nat} {P : Prop} (h : s.sized.Mounted)
    (hload : wp loadFat
      (fun _ t => Wrote s.sized t s.view 0 ∧
        t = { s.sized with sync := t.sync, fat := s.sized.loadedTable s.mount.geometry.fatSectors, dirtyFatSectors := [] })
      (fun _ _ => P) s.sized) :
    wp (fileServiceInitialize storageSize)
      (fun _ t => s.Openable storageSize ∧ ∃ u, Wrote s.sized u s.view 0 ∧
        u.fat = s.sized.loadedTable s.mount.geometry.fatSectors ∧ u.dirtyFatSectors = [] ∧ t = { u with initialized := true })
      (fun _ _ => P ∨ ¬s.Openable storageSize) s := by
  simp only [fileServiceInitialize, wp_bind, wp_get, wp_failIf, wp_modify]
  refine ⟨fun hx => Or.inr fun ho => ?_, fun h₁ => ⟨fun hx => Or.inr fun ho => ?_, fun h₂ => ?_⟩⟩
  · exact hx.elim ho.1.1 ho.1.2
  · exact hx.elim (fun hlt => absurd ho.2.1.1 (not_le.mpr hlt)) fun hlt => absurd ho.2.1.2 (not_le.mpr hlt)
  refine wp_mono hload (fun _ u hx => ?_) fun _ _ hp => Or.inl hp
  obtain ⟨hw, hu⟩ := hx
  have hentry : ∀ {i}, i < 3 → u.fat i = s.disk.fat i := fun hi => by
    have htable := h.laid.table
    rw [hu]
    refine if_pos ?_
    have hm : s.sized.mount = s.mount := rfl
    rw [hm] at htable
    show _ < s.mount.geometry.fatSectors * 128
    omega
  simp only [wp_bind, wp_get, wp_failIf, wp_modify]
  rw [hentry (by omega), hentry (by omega), hentry (show rootCluster < 3 by decide)]
  refine ⟨fun hx => Or.inr fun ho => ?_, fun h₃ => ⟨⟨?_, ?_, ?_⟩, u, hw, by rw [hu], by rw [hu], rfl⟩⟩
  · obtain ⟨-, -, h₄, h₅, h₆⟩ := ho
    omega
  · exact not_or.mp h₁
  · obtain ⟨h₄, h₅⟩ := not_or.mp h₂
    exact ⟨not_lt.mp h₄, not_lt.mp h₅⟩
  · omega

theorem initialize_spec {storageSize : Nat} (h : s.sized.Mounted) :
    wp (fileServiceInitialize storageSize)
      (fun _ t => s.Openable storageSize ∧ ∃ u, Wrote s.sized u s.view 0 ∧
        u.fat = s.sized.loadedTable s.mount.geometry.fatSectors ∧ u.dirtyFatSectors = [] ∧ t = { u with initialized := true })
      (fun _ _ => ¬s.sized.Room 1 ∨ ¬s.Openable storageSize) s :=
  initialize_of_loadFat h (wp_mono (loadFat_spec h) (fun _ _ ht => ht) fun _ _ ⟨_, _, _, hr⟩ => hr)

theorem opened_settled {u : FileService} (h : s.sized.Mounted) (hw : Wrote s.sized u s.view 0)
    (hf : u.fat = s.sized.loadedTable s.mount.geometry.fatSectors) (hd : u.dirtyFatSectors = []) :
    ({ u with initialized := true } : FileService).Settled := by
  have hm := hw.mounted h
  have hmount : u.mount = s.mount := hw.mount
  have hdisk : u.disk = s.disk := by
    rw [disk, disk, hmount, show u.view = s.view from hw.view]
  have hentry : ∀ {i}, i < u.mount.geometry.fatSectors * 128 → u.fat i = s.disk.fat i := fun hi => by
    rw [hmount] at hi
    rw [hf]
    exact if_pos hi
  refine ⟨⟨hm.inStep, hm.laid, hm.entries, hm.sectors⟩, ⟨fun i hi => ?_, fun k hk => ?_, fun i _ => ?_⟩, hd⟩
  · show u.fat i < 2 ^ 32
    rw [hentry hi]
    exact fatOf_lt
  · change k ∈ u.dirtyFatSectors at hk
    rw [hd] at hk
    cases hk
  · show tableOf u.mount.geometry u.fat i = u.disk.fat i
    rw [hdisk]
    unfold tableOf
    split
    · rename_i hi
      exact hentry hi
    · rename_i hi
      rw [hmount] at hi
      exact (if_neg hi).symm

theorem Opened.consistent (h : Opened s) : Consistent s emptyTree := by
  obtain ⟨hformat, hcache, hinit⟩ := h
  rename_i device formatted serial label g entryCount storageSize cache storage
  obtain ⟨hg, superblock, -, hover⟩ := wp_ok format_spec hformat
  obtain ⟨hm, hview, -⟩ := @blank_mounted g _ _ _ _ _ storage .rw hg hover.sectorCount.ge hcache
  obtain ⟨-, u, hw, hf, hd, rfl⟩ := wp_ok (initialize_spec hm) hinit
  refine ⟨opened_settled hm hw hf hd, rfl, ?_, ?_⟩
  · show u.mount.state = .rw
    rw [hw.mount]
    rfl
  · show Describes u.fatEntryCount u.disk emptyTree
    have hdisk : u.disk = diskOf g (formattedContents g superblock device.contents) := by
      rw [hw.disk, ← hover.contents]
      exact congrArg (diskOf g) hview
    rw [hdisk, hw.fatEntryCount]
    exact describes_formatted hm.laid

theorem openable_formatted {storageSize : Nat} {superblock : Sector} {medium : Nat → Sector}
    (hg : calculateGeometry size total = .ok g) (hs : g.fatSectors * 512 ≤ storageSize) (hm : s.mount.geometry = g)
    (hv : s.view = formattedContents g superblock medium) : s.Openable storageSize := by
  obtain ⟨hlaid, -, -, -, hfat, -⟩ := calculateGeometry_eq hg
  have htable := hlaid.table
  have hentry : ∀ {i}, i < 3 → Fat.eocFirst ≤ s.disk.fat i := fun {i} hi => by
    show Fat.eocFirst ≤ fatOf s.mount.geometry s.view i
    rw [hm, hv, fatOf_formatted hlaid, if_pos hi]
    decide
  unfold Openable
  rw [hm]
  exact ⟨⟨by omega, hlaid.positive.ne'⟩, ⟨hs, by omega⟩, hentry (by omega), hentry (by omega), hentry (by decide)⟩

theorem exists_initialized {size total storageSize lines : Nat} {g : Geometry} {device : BlockDevice}
    (hg : calculateGeometry size total = .ok g) (ht : total ≤ device.sectorCount) (hh : device.Healthy)
    (hsize : device.logicalSectorSize = 512) (hpos : 0 < lines) (hlines : lines ≤ maxEntries)
    (hopen : ∀ cache, blockCacheInitialize device lines = .ok cache →
      (FileService.blank ⟨g, .rw⟩ (.syncInitialize cache) fun _ => 0).Openable storageSize) :
    ∃ cache s, blockCacheInitialize device lines = .ok cache ∧
      fileServiceInitialize storageSize (.blank ⟨g, .rw⟩ (.syncInitialize cache) fun _ => 0) = (.ok (), s) ∧
      s.Settled ∧ s.initialized = true ∧ s.Able (2 ^ 63) lines ∧ s.mount = ⟨g, .rw⟩ ∧
      s.fatEntryCount = g.clusterCount + 2 ∧ s.disk = diskOf g device.contents ∧ s.sync.cache.entryCount = lines := by
  obtain ⟨cache, hcache⟩ : ∃ cache, blockCacheInitialize device lines = .ok cache := by
    refine ⟨_, if_neg ?_⟩
    rw [hsize, hh.status, not_or, not_or, not_or, not_or]
    exact ⟨hpos.ne', Nat.not_lt.mpr hlines, by decide, by decide, by decide⟩
  obtain ⟨hm, hview, -, hgen, hcount, hfit⟩ := @blank_mounted g _ _ _ _ _ (fun _ => 0) .rw hg ht hcache
  let start : FileService := .blank ⟨g, .rw⟩ (.syncInitialize cache) fun _ => 0
  have hroom : start.sized.Room 1 := ⟨[], hfit hh, by rw [hcount]; exact hpos⟩
  rcases hi : fileServiceInitialize storageSize start with ⟨e | _, s⟩
  · exact ((wp_error (initialize_spec hm) hi).elim (fun hx => hx hroom) fun hx => hx (hopen cache hcache)).elim
  obtain ⟨-, u, hw, hu, hd, rfl⟩ := wp_ok (initialize_spec hm) hi
  refine ⟨cache, _, hcache, hi, opened_settled hm hw hu hd, rfl, ?_, hw.mount, hw.fatEntryCount, ?_, hw.entryCount.trans hcount⟩
  · obtain ⟨Q, hQ, hfitu⟩ := hw.fit [] (hfit hh)
    have hnil : Q = [] := List.length_eq_zero_iff.mp (by simpa using hQ)
    subst hnil
    refine ⟨⟨hfitu.healthy, hfitu.unpinned, hfitu.pending⟩, ?_, ?_⟩
    · show lines ≤ u.sync.cache.entryCount
      rw [hw.entryCount, hcount]
    · show u.sync.generation + 2 ^ 63 < 2 ^ 64
      rw [hw.generation, hgen]
      decide
  · exact hw.disk.trans (congrArg (diskOf g) hview)

theorem exists_opened_small : ∃ s, Opened s ∧ s.Able (2 ^ 63) 256 ∧ s.mount.geometry = smallGeometry := by
  have hhealthy : (BlockDevice.blank minimumVolumeSectors).Healthy := ⟨rfl, fun _ => rfl⟩
  obtain ⟨formatted, hf, hfh⟩ := @exists_format _ _ 0 (fun _ => ascii 'A') hhealthy calculateGeometry_minimum (by decide)
  generalize smallGeometry = g at hf ⊢
  obtain ⟨hg, superblock, -, hover⟩ := wp_ok format_spec hf
  obtain ⟨cache, s, hcache, hi, -, -, hable, hmount, -⟩ := @exists_initialized _ _ _ 256 _ _ hg hover.sectorCount.ge hfh
    hover.logicalSectorSize (by decide) le_rfl
    fun cache hcache => openable_formatted hg le_rfl rfl
      ((@blank_mounted g _ _ _ _ _ (fun _ => 0) .rw hg hover.sectorCount.ge hcache).2.1.trans hover.contents)
  exact ⟨s, .intro hf hcache hi, hable, by rw [hmount]⟩

end FileService
end InferenceOS
