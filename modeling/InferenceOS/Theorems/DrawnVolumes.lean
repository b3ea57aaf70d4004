import InferenceOS.Theorems.Opening

/-! Volumes of the least size with any allocation table and any clusters: the service can be opened on them. Their
    directories are pages that are filled record by record. -/

namespace InferenceOS
open Program Function

namespace FileService
variable {s : FileService} {items : Nat → Item} {p : Primary}

def drawnDevice (table : Nat → Nat) (clusters : Nat → ClusterBytes) : BlockDevice :=
  { BlockDevice.blank minimumVolumeSectors with
    contents := fun n =>
      if n < superblockSectors then
        (superblockEncode (formatValues smallGeometry 0 fun _ => ascii 'A')).toOption.getD Bytes.zero
      else if n < superblockSectors + smallGeometry.fatSectors then fatSectorBytes table (n - superblockSectors)
      else if n < smallGeometry.dataStartSector then Bytes.zero
      else sectorOf (clusters (2 + (n - smallGeometry.dataStartSector) / sectorsPerCluster))
        ((n - smallGeometry.dataStartSector) % sectorsPerCluster) }

theorem drawnDevice_fat {table : Nat → Nat} {clusters : Nat → ClusterBytes} (ht : ∀ i, table i < 2 ^ 32) {i : Nat}
    (hi : i < smallGeometry.fatSectors * 128) : fatOf smallGeometry (drawnDevice table clusters).contents i = table i := by
  have hsector : (drawnDevice table clusters).contents (superblockSectors + i / 128) = fatSectorBytes table (i / 128) := by
    show (if _ then _ else if _ then _ else _) = _
    rw [if_neg (by omega), if_pos (by omega), Nat.add_sub_cancel_left]
  unfold fatOf
  rw [if_pos hi, hsector, toNat_fatSectorBytes, Nat.div_add_mod, Nat.mod_eq_of_lt (ht i)]

theorem drawnDevice_data {table : Nat → Nat} {clusters : Nat → ClusterBytes} {c : Nat} (hc : 2 ≤ c) :
    dataOf smallGeometry (drawnDevice table clusters).contents c = clusters c := by
  have hstart : smallGeometry.dataStartSector = 99369 := rfl
  have hfat : smallGeometry.fatSectors = 95271 := rfl
  rw [dataOf_eq hc, ← @joinSectors_sectorOf (clusters c)]
  refine joinSectors_congr fun k hk => ?_
  have hn : clusterSector smallGeometry c + k = smallGeometry.dataStartSector + ((c - 2) * sectorsPerCluster + k) := by
    unfold clusterSector
    omega
  have hdiv : ((c - 2) * sectorsPerCluster + k) / sectorsPerCluster = c - 2 := by
    unfold sectorsPerCluster
    omega
  have hmod : ((c - 2) * sectorsPerCluster + k) % sectorsPerCluster = k := by
    unfold sectorsPerCluster
    omega
  rw [hn]
  show (if _ then _ else if _ then _ else if _ then _ else sectorOf _ _) = _
  rw [if_neg (by rw [hstart]; unfold superblockSectors; omega), if_neg (by rw [hstart, hfat]; unfold superblockSectors; omega),
    if_neg (by omega), Nat.add_sub_cancel_left, hdiv, hmod, show 2 + (c - 2) = c by omega]

structure Drawn (table : Nat → Nat) (clusters : Nat → ClusterBytes) (lines : Nat) (s : FileService) : Prop where
  opened : ∃ cache, BlockCache.blockCacheInitialize (drawnDevice table clusters) lines = .ok cache ∧
    fileServiceInitialize (smallGeometry.fatSectors * 512) (.blank ⟨smallGeometry, .rw⟩ (.syncInitialize cache) fun _ => 0) = (.ok (), s)
  settled : s.Settled
  initialized : s.initialized = true
  able : s.Able (2 ^ 63) lines
  lines : s.sync.cache.entryCount = lines
  mount : s.mount = ⟨smallGeometry, .rw⟩
  count : s.fatEntryCount = smallGeometry.clusterCount + 2
  fat : ∀ i, i < smallGeometry.fatSectors * 128 → s.fat i = table i
  data : ∀ c, 2 ≤ c → s.disk.data c = clusters c

theorem exists_drawn {table : Nat → Nat} {clusters : Nat → ClusterBytes} {lines : Nat} (hpos : 0 < lines)
    (hlines : lines ≤ BlockCache.maxEntries) (ht : ∀ i, table i < 2 ^ 32) (hreserved : ∀ i, i < 3 → Fat.eocFirst ≤ table i) :
    ∃ s, Drawn table clusters lines s := by
  have hhealthy : (drawnDevice table clusters).Healthy := ⟨rfl, fun _ => rfl⟩
  have hfirst : ∀ {i}, i < 128 → i < smallGeometry.fatSectors * 128 := fun hx => lt_of_lt_of_le hx (by decide)
  obtain ⟨cache, s, hcache, hrun, hs, hi, hable, hmount, hcount, hdisk, hentries⟩ := @exists_initialized _ _
    (smallGeometry.fatSectors * 512) lines _ (drawnDevice table clusters) calculateGeometry_minimum le_rfl hhealthy rfl hpos hlines
    fun cache hcache => by
      obtain ⟨-, hview, -⟩ := @blank_mounted _ _ _ _ _ _ (fun _ => 0) .rw calculateGeometry_minimum le_rfl hcache
      have hentry : ∀ i, i < 3 →
          Fat.eocFirst ≤ (FileService.blank ⟨smallGeometry, .rw⟩ (.syncInitialize cache) fun _ => 0).disk.fat i := fun i hx => by
        have heq : (FileService.blank ⟨smallGeometry, .rw⟩ (.syncInitialize cache) fun _ => 0).disk.fat =
            fatOf smallGeometry (drawnDevice table clusters).contents := congrArg (fatOf smallGeometry) hview
        rw [heq, drawnDevice_fat ht (hfirst (by omega))]
        exact hreserved i hx
      exact ⟨show smallGeometry.fatSectors ≠ 0 ∧ smallGeometry.clusterCount ≠ 0 by decide,
        show smallGeometry.fatSectors * 512 ≤ smallGeometry.fatSectors * 512 ∧
          (smallGeometry.clusterCount + 2) * 4 ≤ smallGeometry.fatSectors * 512 by decide,
        hentry 0 (by omega), hentry 1 (by omega), hentry rootCluster (by decide)⟩
  refine ⟨s, ⟨cache, hcache, hrun⟩, hs, hi, hable, hentries, hmount, hcount, fun i hx => ?_, fun c hc => ?_⟩
  · have hagrees := hs.loaded.agrees i (by rw [hs.clean]; exact List.not_mem_nil)
    rw [hdisk, hmount] at hagrees
    exact ((if_pos hx).symm.trans hagrees).trans (drawnDevice_fat ht hx)
  · rw [hdisk]
    exact drawnDevice_data hc

theorem Drawn.entry {table : Nat → Nat} {clusters : Nat → ClusterBytes} {lines : Nat} (h : Drawn table clusters lines s) {i : Nat}
    (hi : i < 128) : s.fat i = table i := h.fat i (lt_of_lt_of_le hi (by decide))

def putPair (bytes : ClusterBytes) (k : Nat) (p : Primary) : ClusterBytes :=
  (bytes.put (32 * k) (companionRecord true p.name)).put (32 * (k + 1)) (primaryBytes p)

def pairedItems (items : Nat → Item) (k : Nat) (p : Primary) : Nat → Item :=
  update (update items k (.companion p.name)) (k + 1) (.file p)

/-- The page shows the items, and just its first `k` slots are in use. -/
structure Filled (bytes : ClusterBytes) (items : Nat → Item) (k : Nat) : Prop where
  shows : Shows (slotAt bytes) items
  tidy : Tidy items
  used : ∀ j, j < k → items j ≠ .unused
  unused : ∀ j, k ≤ j → items j = .unused

theorem Filled.scans {bytes : ClusterBytes} {k : Nat} (h : Filled bytes items k) :
    directoryScan (slotAt bytes) directorySlots directorySlots directorySlots = .ok (entriesOf items) := directoryScan_eq h.shows h.tidy

theorem filled_empty : Filled Bytes.zero (fun _ => .unused) 0 := by
  refine ⟨fun _ _ => Bytes.byte_zero, ⟨nofun, nofun, fun _ _ _ => rfl, ?_, fun _ => trivial⟩, fun j hj => by omega, fun _ _ => rfl⟩
  rintro i j q r - - (hq | hq)
  all_goals cases hq

theorem Filled.pair {bytes : ClusterBytes} {k : Nat} (h : Filled bytes items k) (hk : k + 1 < 128) (hp : (Item.file p).Sound)
    (hfresh : ∀ j q, (items j).Named q → q.name ≠ p.name) : Filled (putPair bytes k p) (pairedItems items k p) (k + 2) := by
  refine ⟨fun j hj => ?_, h.tidy.setPair hk (.inl (.inl (h.unused k le_rfl))) (.inl (.inl (h.unused (k + 1) (by omega)))) h.used
    (.inr ⟨p, rfl, rfl, hp, fun j q _ _ hq => hfresh j q hq⟩), fun j hj => ?_, fun j hj => ?_⟩
  · unfold putPair
    rw [slotAt_put hk, slotAt_put (by omega)]
    unfold pairedItems
    by_cases h₁ : j = k + 1
    · rw [if_pos h₁, h₁, update_self]
      rfl
    · rw [if_neg h₁, update_of_ne h₁]
      by_cases h₂ : j = k
      · rw [if_pos h₂, h₂, update_self]
        rfl
      · rw [if_neg h₂, update_of_ne h₂]
        exact h.shows j hj
  · unfold pairedItems
    by_cases h₁ : j = k + 1
    · rw [h₁, update_self]
      nofun
    · rw [update_of_ne h₁]
      by_cases h₂ : j = k
      · rw [h₂, update_self]
        nofun
      · rw [update_of_ne h₂]
        exact h.used j (by omega)
  · unfold pairedItems
    rw [update_of_ne (by omega), update_of_ne (by omega)]
    exact h.unused j (by omega)

theorem named_paired {k j : Nat} {q : Primary} (h : (pairedItems items k p j).Named q) : q = p ∨ (items j).Named q := by
  unfold pairedItems at h
  by_cases h₁ : j = k + 1
  · rw [h₁, update_self] at h
    rcases h with h | h <;> cases h
    exact Or.inl rfl
  · rw [update_of_ne h₁] at h
    by_cases h₂ : j = k
    · rw [h₂, update_self] at h
      rcases h with h | h <;> cases h
    · rw [update_of_ne h₂] at h
      exact Or.inr h

theorem Filled.directory {bytes : ClusterBytes} {k : Nat} (h : Filled bytes items k) (hk : k < 128) (hp : (Item.directory p).Sound)
    (hfresh : ∀ j q, (items j).Named q → q.name ≠ p.name) :
    Filled (bytes.put (32 * k) (primaryBytes p)) (update items k (.directory p)) (k + 1) := by
  refine ⟨fun j hj => ?_, h.tidy.setSingle hk (.inl (.inl (h.unused k le_rfl))) h.used hp
    (.inr (.inr ⟨p, rfl, fun j q _ _ hq => hfresh j q hq⟩)), fun j hj => ?_, fun j hj => ?_⟩
  · rw [slotAt_put hk]
    by_cases hne : j = k
    · rw [if_pos hne, hne, update_self]
      rfl
    · rw [if_neg hne, update_of_ne hne]
      exact h.shows j hj
  · by_cases hne : j = k
    · rw [hne, update_self]
      nofun
    · rw [update_of_ne hne]
      exact h.used j (by omega)
  · rw [update_of_ne (by omega)]
    exact h.unused j (by omega)

theorem filled_fresh {n c d : Nat} (hc : Fat.validCluster c n) (hd : Fat.validCluster d n) :
    Filled (newDirectoryCluster c d) (freshItems c d) 2 := by
  refine ⟨shows_fresh, tidy_fresh hc hd, fun j hj => ?_, fun j hj => freshItems_of_two hj⟩
  match j, hj with
  | 0, _ => nofun
  | 1, _ => nofun

def emptyFile : Primary :=
  { name := padName [ascii 'A'] [ascii 'T'], attributes := attributeRegular, firstCluster := 0, fileSize := 0 }

def pairItems (p : Primary) : Nat → Item
  | 0 => .companion p.name
  | 1 => .file p
  | _ => .unused

def pairCluster (p : Primary) : ClusterBytes := putPair Bytes.zero 0 p

theorem filled_pair (hp : (Item.file p).Sound) : Filled (pairCluster p) (pairItems p) 2 := by
  have heq : pairItems p = pairedItems (fun _ => .unused) 0 p := by
    funext i
    match i with
    | 0 => rfl
    | 1 => rfl
    | i + 2 =>
      unfold pairedItems
      rw [update_of_ne (by omega), update_of_ne (by omega)]
      rfl
  rw [heq]
  exact filled_empty.pair (by decide) hp fun j q hq => by rcases hq with hq | hq <;> cases hq

end FileService
end InferenceOS
