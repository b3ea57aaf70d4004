import InferenceOS.Theorems.TableRuns
import InferenceOS.Theorems.Subdirectories

/-! The list of dirty sectors and removals that fail. A removal whose chain has more sectors in the table than the cache has
    lines deletes the record, cannot write the table and leaves the sectors in the list. A sync lets the next removal start,
    and the third one finds the list full. -/

namespace InferenceOS
open Program Function

namespace FileService
variable {g : Geometry} {s t u : FileService} {items : Nat → Item} {p : Primary} {l : List Nat}
  {b i identity : Nat}

/-- A writable service between two calls, over a cache of few lines. -/
structure Waiting (g : Geometry) (s : FileService) (items : Nat → Item) (b : Nat) : Prop where
  orderly : Orderly g s
  initialized : s.initialized = true
  writable : s.mount.state = .rw
  able : s.Able b 2
  few : s.sync.cache.entryCount < maxClusters
  root : DirectoryAt s rootCluster items

def erasedItems (items : Nat → Item) (i : Nat) : Nat → Item :=
  update (update items (i - 1) .deleted) (i - 1 + 1) .deleted

def rootRecord (s : FileService) (p : Primary) (i : Nat) : LocatedEntry :=
  locatedIn s.disk rootCluster ⟨p, i, some (i - 1), .regular⟩

structure Addressed (g : Geometry) (identity i : Nat) : Prop where
  small : identity < 2 ^ 64
  addressable : addressable g identity
  addressed : addressed g identity = (rootCluster, i)

theorem shows_erased {D : Disk} {r : Slot} (hs : Shows (slotAt (D.data rootCluster)) items) (hpos : 0 < i) (hi : i < 128) :
    Shows (slotAt ((D.erased rootCluster (i - 1) r).data rootCluster)) (erasedItems items i) := by
  intro j hj
  rw [erased_slot (by omega)]
  unfold erasedItems
  by_cases h₁ : j = i - 1 + 1
  · rw [if_pos ⟨rfl, Or.inr h₁⟩, h₁, update_self]
    exact deletedRecord_head
  · rw [update_of_ne h₁]
    by_cases h₂ : j = i - 1
    · rw [if_pos ⟨rfl, Or.inl h₂⟩, h₂, update_self]
      exact deletedRecord_head
    · rw [update_of_ne h₂, if_neg fun hx => hx.2.elim h₂ h₁]
      exact hs j hj

theorem deleted_run (h : Waiting g s items (b + 2)) (hident : Addressed g identity i) (hi : i < 128) (hp : items i = .file p) :
    ∃ t, (Request.removeObject identity).deleted s = (.ok (rootRecord s p i), t) ∧ Waiting g t (erasedItems items i) b ∧
      t.fat = s.fat ∧ t.dirtyFatSectors = s.dirtyFatSectors ∧ t.fatEntryCount = s.fatEntryCount := by
  have hm := h.orderly.mounted
  have hg := h.orderly.geometry
  have hroom := (h.able.mono le_rfl one_le_two).room
  obtain ⟨hpos, hw⟩ := h.root.tidy.writable hi hp
  have hname : validStoredName p.name = true := by
    have hsound := h.root.tidy.sound hi
    rw [hp] at hsound
    exact hsound.name (Or.inl rfl)
  have hvalidate : Yields (validateService true) s (.ok ()) := by
    have hrun : validateService true s = (.ok (), s) := by
      unfold validateService
      rw [bind_ok (show get s = (.ok s, s) from rfl), failIf_pass (by rw [h.initialized]; decide), h.writable]
      rfl
    unfold Yields wp
    rw [hrun]
    exact ⟨Quiet.refl hm, rfl⟩
  have hentry : entryAtSlot items i = some ⟨p, i, some (i - 1), .regular⟩ := by
    rcases find_slot items i with ⟨q, -, hq, hfind⟩ | ⟨hnone, -⟩
    · rw [hp] at hq
      cases hq
      exact hfind
    · exact absurd hp (hnone p hi)
  have hlocate : ∀ t, Quiet s t → Yields (locateFileObject identity) t (.ok (rootRecord s p i)) := fun t ht => by
    have hroot : addressable t.mount.geometry identity → DirectoryAt t (addressed t.mount.geometry identity).1 items := fun _ => by
      rw [ht.mount, hg, hident.addressed]
      exact h.root.quiet ht
    have hyields := locateFileObject_yields (ht.mounted hm) hident.small hroot
    rw [ht.mount, hg, if_pos hident.addressable, hident.addressed, hentry, ht.disk] at hyields
    exact hyields
  -- The call finds the record, checks it and deletes it.
  have hgoes : Goes (Request.removeObject identity).deleted s (eraseStages s.disk rootCluster (i - 1) p.name) 2
      fun located _ => located = rootRecord s p i := by
    refine hvalidate.goes one_le_two fun t ht => (hlocate t ht).goes one_le_two fun u hu => ?_
    have hq := ht.trans hu
    have hcheck := @checkRegular_yields u rootCluster (fun _ => items) (hq.mounted hm) (h.root.quiet hq)
      ⟨p, i, some (i - 1), .regular⟩ (.file hi hp)
    rw [if_pos rfl, hq.disk] at hcheck
    refine hcheck.goes one_le_two fun v hv => ?_
    have hqv := hq.trans hv
    have herase := erasePair_goes (hqv.mounted hm) (locatedIn_at (D := s.disk) (p := p) hpos hi) (h.root.quiet hqv).valid hname
    rw [hqv.disk] at herase
    have := herase.bind fun _ w hw _ => (goes_pure (hw.mounted (hqv.mounted hm)) rfl :
      Goes (pure (rootRecord s p i)) w [] 2 fun located _ => located = rootRecord s p i)
    exact this
  unfold Goes wp at hgoes
  rcases hrun : (Request.removeObject identity).deleted s with ⟨e | located, t⟩
  · rw [hrun] at hgoes
    exact absurd (h.able.mono (Nat.le_add_left 2 b) le_rfl) hgoes.2
  rw [hrun] at hgoes
  obtain ⟨hwent, rfl⟩ := hgoes
  have haside : Keeps (Aside g) (Request.removeObject identity).deleted := deleted_aside
  obtain ⟨ho, hfat, hlist, -⟩ := haside.run hrun h.orderly
  obtain ⟨vs, hv, -⟩ := id hwent
  refine ⟨t, rfl, ⟨ho, hv.initialized.trans h.initialized, ?_, ?_, ?_, ?_⟩, hfat, hlist, hv.fatEntryCount⟩
  · rw [hv.mount]
    exact h.writable
  · exact hwent.able (h.able.mono (by rw [eraseStages]; exact (Nat.add_comm _ _).le) le_rfl)
  · rw [hv.entryCount]
    exact h.few
  · refine ⟨?_, ?_, ?_, ?_⟩
    · rw [hv.fatEntryCount]
      exact h.root.valid
    · rw [hfat]
      exact h.root.ends
    · rw [hwent.disk]
      exact shows_erased h.root.shows hpos hi
    · exact h.root.tidy.setPair hw.inRange hw.start hw.last hw.used (Or.inl ⟨rfl, rfl⟩)

structure Jammed (g : Geometry) (s t : FileService) (l : List Nat) : Prop where
  orderly : Orderly g t
  wrote : ∃ v k, Wrote s t v k
  fat : t.fat = Fat.clear s.fat l
  list : t.dirtyFatSectors = l.foldl markFatCluster s.dirtyFatSectors
  data : t.disk.data = s.disk.data

theorem releaseChain_jams (h : Orderly g s) {first : Nat} (hc : Fat.Chain s.fat s.fatEntryCount first l)
    (hdistinct : (l.map (· / fatEntriesPerSector)).Nodup) (hlen : l.length ≤ maxClusters)
    (hlines : s.sync.cache.entryCount < l.length) (hroom : (neededSectors s.dirtyFatSectors l).card ≤ maxDirtyFatSectors) :
    wp (releaseChain first) (fun _ _ => False) (fun _ t => Jammed g s t l) s := by
  have hm := h.mounted
  have htraverse : Fat.traverse s.fat s.fatEntryCount first maxClusters = .ok l :=
    Fat.traverse_eq_ok.mpr ⟨hm.validEntryCount, by decide, hc, hdistinct.of_map _, hlen⟩
  have hmarked := released_marked hc
  have ho := hmarked.orderly h
  -- The list now holds more sectors than the cache has lines.
  have hlong : l.length ≤ (released s l).dirtyFatSectors.length := by
    have hsub : l.map (· / fatEntriesPerSector) ⊆ (released s l).dirtyFatSectors := fun k hk => by
      obtain ⟨c, hcl, rfl⟩ := List.mem_map.mp hk
      exact (marks_iff h.compact).mpr hroom c hcl
    have := (hdistinct.subperm hsub).length_le
    rwa [List.length_map] at this
  have hrun : releaseChain first s = (persistFat >>= fun _ => barrier) (released s l) := by
    have hpos : first ≠ 0 := fun hz => absurd hc.start.1 (by omega)
    unfold releaseChain
    rw [if_neg hpos, bind_ok (show get s = (.ok s, s) from rfl), htraverse, ofExcept_ok_bind, Fat.release_eq_ok htraverse,
      ofExcept_ok_bind]
    rfl
  unfold wp
  rw [hrun]
  show wp (persistFat >>= fun _ => barrier) _ _ (released s l)
  rw [wp_bind]
  refine wp_mono (wp_and (persistFat_stores ho) (persistFat_spec ho.mounted ho.flushable.bounded ho.flushable.inTable))
    (fun _ t ⟨⟨_, _, _, hshort⟩, v, hw, _⟩ => ?_) fun _ t ⟨hst, ⟨v, k, hw⟩, _⟩ => ?_
  · rw [hw.entryCount] at hshort
    exact absurd (hlong.trans hshort) (Nat.not_le.mpr hlines)
  · have hmem := hst.memory
    exact ⟨hst.orderly, ⟨v, k, hw.mount, hw.fatEntryCount, hw.initialized, hw.inStep, hw.view, hw.contents, hw.history, hw.status,
      hw.faults, hw.sectorCount, hw.entryCount, hw.generation, fun P hp => hw.fit P ⟨hp.healthy, hp.unpinned, hp.pending⟩⟩,
      by rw [hmem]; rfl, by rw [hmem]; rfl, hst.data⟩

theorem syncBarrier_run (h : s.Mounted) {P : List Nat} (hfit : s.Fit P) (hgen : s.sync.generation + 1 < 2 ^ 64) :
    ∃ t, onSync Sync.barrier s = (.ok (), t) ∧ Advanced s t [s.view] ∧ t.Fit [] ∧ t = { s with sync := t.sync } := by
  have hbarrier := barrier_spec h
  unfold barrier at hbarrier
  simp only [wp_bind, wp_attempt] at hbarrier
  rcases hrun : onSync Sync.barrier s with ⟨e | ⟨⟩, t⟩
  · have hx := wp_error hbarrier hrun
    simp only [wp_bind, wp_modify, wp_fail] at hx
    obtain ⟨-, -, -, hh⟩ := hx
    have := (hh hfit.healthy).1
    omega
  · have hx := wp_ok hbarrier hrun
    obtain ⟨ha, hf, ht⟩ := hx
    exact ⟨t, rfl, ha, hf P hfit, ht⟩

theorem Waiting.synced (h : Waiting g s items (b + 1)) (hj : Jammed g s t l) (hroot : rootCluster ∉ l) :
    ∃ u, onSync Sync.barrier t = (.ok (), u) ∧ Waiting g u items b ∧ u.fat = t.fat ∧ u.dirtyFatSectors = t.dirtyFatSectors ∧
      u.fatEntryCount = s.fatEntryCount := by
  obtain ⟨v, k, hw⟩ := hj.wrote
  obtain ⟨Q, -, hQ⟩ := hw.fit [] h.able.fit
  have hm := hj.orderly.mounted
  have hgen := h.able.generations
  obtain ⟨u, hrun, ha, hfit, hu⟩ := syncBarrier_run hm hQ (by rw [hw.generation]; omega)
  have ho : Orderly g u := (syncBarrier_aside.run hrun hj.orderly).1
  have hfat : u.fat = t.fat := by rw [hu]
  have hcount : u.fatEntryCount = s.fatEntryCount := ha.fatEntryCount.trans hw.fatEntryCount
  have hdata : u.disk.data = s.disk.data := by
    rw [← hj.data, disk, ha.mount, ha.view]
    rfl
  refine ⟨u, hrun, ⟨ho, ha.initialized.trans (hw.initialized.trans h.initialized), ?_, ⟨hfit, ?_, ?_⟩, ?_, ?_⟩, hfat, by rw [hu], hcount⟩
  · rw [ha.mount, hw.mount]
    exact h.writable
  · rw [ha.entryCount, hw.entryCount]
    exact h.able.space
  · rw [ha.generation, hw.generation, List.length_singleton]
    omega
  · rw [ha.entryCount, hw.entryCount]
    exact h.few
  · refine ⟨hcount ▸ h.root.valid, ?_, ?_, h.root.tidy⟩
    · rw [hfat, hj.fat, Fat.clear_apply, if_neg hroot]
      exact h.root.ends
    · rw [hdata]
      exact h.root.shows

theorem Waiting.removal (h : Waiting g s items (b + 3)) (hrun : TableRun g s) (hident : Addressed g identity i) (hi : i < 128)
    (hp : items i = .file p) (hc : Fat.Chain s.fat s.fatEntryCount p.firstCluster l)
    (hdistinct : (l.map (· / fatEntriesPerSector)).Nodup) (hlen : l.length = maxClusters)
    (hroom : (neededSectors s.dirtyFatSectors l).card ≤ maxDirtyFatSectors) (hroot : rootCluster ∉ l) :
    ∃ t, TableRun g t ∧ Waiting g t (erasedItems items i) b ∧ t.fat = Fat.clear s.fat l ∧
      t.dirtyFatSectors = l.foldl markFatCluster s.dirtyFatSectors ∧ t.fatEntryCount = s.fatEntryCount := by
  obtain ⟨u, hdeleted, hu, hfat, hlist, hcount⟩ := deleted_run h hident hi hp
  have hjams := releaseChain_jams hu.orderly (hfat ▸ hcount ▸ hc) hdistinct hlen.le (hlen ▸ hu.few) (hlist ▸ hroom)
  rcases hrelease : releaseChain p.firstCluster u with ⟨e | ⟨⟩, v⟩
  · have hj := wp_error hjams hrelease
    have hrequest : (Request.removeObject identity).run s = (.error e, v) := by
      rw [removing_run (r := .removeObject identity) trivial, bind_ok hdeleted]
      exact bind_error hrelease
    obtain ⟨t, hsync, ht, hfat', hlist', hcount'⟩ := hu.synced hj hroot
    refine ⟨t, (hrun.request hrequest).sync hsync, ht, ?_, ?_, hcount'.trans hcount⟩
    · rw [hfat', hj.fat, hfat]
    · rw [hlist', hj.list, hlist]
  · exact (wp_ok hjams hrelease).elim

theorem neededSectors_marks {sectors l' : List Nat} (h : Compact sectors) (hroom : (neededSectors sectors l).card ≤ maxDirtyFatSectors) :
    neededSectors (l.foldl markFatCluster sectors) l' = neededSectors sectors (l ++ l') := by
  ext k
  simp only [mem_neededSectors, List.mem_append]
  constructor
  · rintro (hk | ⟨c, hc, rfl⟩)
    · rcases mem_neededSectors.mp (mem_marks hk) with hk | ⟨c, hc, rfl⟩
      · exact Or.inl hk
      · exact Or.inr ⟨c, Or.inl hc, rfl⟩
    · exact Or.inr ⟨c, Or.inr hc, rfl⟩
  · rintro (hk | ⟨c, hc | hc, rfl⟩)
    · exact Or.inl (subset_marks hk)
    · exact Or.inl ((marks_iff h).mpr hroom c hc)
    · exact Or.inr ⟨c, hc, rfl⟩

def scatteredTable (i : Nat) : Nat :=
  if i < 3 then Fat.endOfChain
  else if i % 128 = 3 ∧ i / 128 < 768 then if i / 128 % 256 = 255 then Fat.endOfChain else i + 128
  else Fat.free

def scattered (j : Nat) : List Nat := List.range' (128 * (256 * j) + 3) 256 128

theorem scatteredTable_link {q : Nat} (hq : q < 768) :
    scatteredTable (128 * q + 3) = if q % 256 = 255 then Fat.endOfChain else 128 * (q + 1) + 3 := by
  have hdiv : (128 * q + 3) / 128 = q := by omega
  unfold scatteredTable
  rw [if_neg (by omega), if_pos ⟨by omega, by omega⟩, hdiv]
  split <;> omega

theorem chain_scattered : ∀ {n q : Nat}, q % 256 + (n + 1) = 256 → q + (n + 1) ≤ 768 →
    Fat.Chain scatteredTable (smallGeometry.clusterCount + 2) (128 * q + 3) (List.range' (128 * q + 3) (n + 1) 128)
  | n, q, hend, hlt => by
    have hvalid : Fat.validCluster (128 * q + 3) (smallGeometry.clusterCount + 2) := by
      have hsmall : 128 * q + 3 ≤ 98307 := by omega
      exact ⟨by omega, hsmall.trans_lt (by decide), hsmall.trans (by decide)⟩
    have hlink := @scatteredTable_link q (by omega)
    match n with
    | 0 =>
      rw [if_pos (by omega)] at hlink
      exact .last hvalid ⟨by rw [hlink]; decide, by rw [hlink]; decide⟩
    | n + 1 =>
      rw [if_neg (by omega)] at hlink
      refine .link hvalid ?_
      rw [hlink]
      exact @chain_scattered n (q + 1) (by omega) (by omega)

theorem sectors_scattered : ∀ {n q : Nat}, (List.range' (128 * q + 3) n 128).map (· / fatEntriesPerSector) = List.range' q n
  | 0, _ => rfl
  | n + 1, q => by
    rw [List.range'_succ, List.range'_succ, List.map_cons, show 128 * q + 3 + 128 = 128 * (q + 1) + 3 by omega, sectors_scattered]
    unfold fatEntriesPerSector
    rw [show (128 * q + 3) / 128 = q by omega]

def scatteredFile (j : Nat) : Primary :=
  { name := padName [UInt8.ofNat (65 + j)] [ascii 'T'], attributes := attributeRegular, firstCluster := 128 * (256 * j) + 3
    fileSize := maxClusters * clusterSize }

def scatteredBytes : ClusterBytes :=
  putPair (putPair (putPair Bytes.zero 0 (scatteredFile 0)) 2 (scatteredFile 1)) 4 (scatteredFile 2)

def scatteredItems : Nat → Item :=
  pairedItems (pairedItems (pairedItems (fun _ => .unused) 0 (scatteredFile 0)) 2 (scatteredFile 1)) 4 (scatteredFile 2)

theorem scattered_filled : Filled scatteredBytes scatteredItems 6 := by
  have hnone : ∀ {q : Primary}, ¬Item.unused.Named q := fun h => by rcases h with h | h <;> cases h
  refine ((filled_empty.pair (by decide) ⟨by decide, by decide, rfl⟩ fun j q hq => (hnone hq).elim).pair (by decide)
    ⟨by decide, by decide, rfl⟩ fun j q hq => ?_).pair (by decide) ⟨by decide, by decide, rfl⟩ fun j q hq => ?_
  · rcases named_paired hq with rfl | hq
    · decide
    · exact (hnone hq).elim
  · rcases named_paired hq with rfl | hq
    · decide
    rcases named_paired hq with rfl | hq
    · decide
    · exact (hnone hq).elim

def scatteredClusters (c : Nat) : ClusterBytes := if c = rootCluster then scatteredBytes else Bytes.zero

def rootIdentity (i : Nat) : Nat := fileObjectBit + smallGeometry.dataStartSector * 512 + 32 * i

theorem exists_scattered : ∃ s, TableRun smallGeometry s ∧ Waiting smallGeometry s scatteredItems 8 ∧ s.dirtyFatSectors = [] ∧
    s.fatEntryCount = smallGeometry.clusterCount + 2 ∧ ∀ i, i < smallGeometry.fatSectors * 128 → s.fat i = scatteredTable i := by
  obtain ⟨s, hd⟩ := @exists_drawn scatteredTable scatteredClusters 64 (by decide) (by decide)
    (fun i => by
      unfold scatteredTable
      split
      · decide
      · split
        · rename_i hi
          split
          · decide
          · omega
        · decide)
    (fun i hx => by
      rw [scatteredTable, if_pos hx]
      decide)
  obtain ⟨cache, hcache, hrun⟩ := hd.opened
  have hgeometry : s.mount.geometry = smallGeometry := by rw [hd.mount]
  have ho := hd.settled.orderly (by rw [hd.lines]; decide)
  rw [hgeometry] at ho
  refine ⟨s, .opened calculateGeometry_minimum le_rfl hcache hrun, ⟨ho, hd.initialized, by rw [hd.mount],
    hd.able.mono (by decide) (by decide), by rw [hd.lines]; decide, ?_, ?_, ?_, scattered_filled.tidy⟩, hd.settled.clean, hd.count, hd.fat⟩
  · rw [hd.count]
    exact ⟨by decide, by decide, by decide⟩
  · have hroot : s.fat rootCluster = Fat.endOfChain := hd.entry (by decide)
    rw [hroot]
    exact ⟨by decide, by decide⟩
  · rw [hd.data rootCluster (by decide)]
    exact scattered_filled.shows

/-- The first removal of a file of that volume accounts for its changes. -/
theorem table_changes_persist_scattered : ∃ (s t : FileService) (x : Except IosError (Option VfsObject)), TableRun smallGeometry s ∧
    (Request.removeObject (rootIdentity 1)).run s = (x, t) ∧ ∀ k, k < smallGeometry.fatSectors → Altered s t k → t.Accounted k := by
  obtain ⟨s, hs, -, hclean, -⟩ := exists_scattered
  rcases hrun : (Request.removeObject (rootIdentity 1)).run s with ⟨x, t⟩
  exact ⟨s, t, x, hs, hrun, (table_changes_persist hs hrun).2.2.2.1 fun _ _ _ => fits_of_clean hclean⟩

theorem rootIdentity_addressed {i : Nat} (hi : i < 16) : Addressed smallGeometry (rootIdentity i) i := by
  have hstart : smallGeometry.dataStartSector = 99369 := rfl
  have htotal : 99370 < smallGeometry.totalSectors := by decide
  have hlocation : rootIdentity i % fileObjectBit = 99369 * 512 + 32 * i := by
    unfold rootIdentity fileObjectBit
    omega
  refine ⟨?_, ⟨?_, ?_, ?_, ?_⟩, ?_⟩
  · unfold rootIdentity fileObjectBit
    omega
  · unfold rootIdentity
    omega
  · rw [hlocation]
    omega
  · rw [hlocation]
    omega
  · rw [hlocation]
    omega
  · unfold addressed
    rw [hlocation, hstart]
    unfold sectorsPerCluster rootCluster
    exact Prod.ext (by dsimp only; omega) (by dsimp only; omega)

theorem scattered_apart {i j c : Nat} (hij : i ≠ j) (hc : c ∈ scattered i) : c ∉ scattered j := fun hx => by
  obtain ⟨m, hm, rfl⟩ := List.mem_range'.mp hc
  obtain ⟨n, hn, heq⟩ := List.mem_range'.mp hx
  omega

theorem scattered_needed : (neededSectors [] (scattered 0 ++ (scattered 1 ++ scattered 2))).card = 768 := by
  have hmap : (scattered 0 ++ (scattered 1 ++ scattered 2)).map (· / fatEntriesPerSector) = List.range' 0 768 := by
    unfold scattered
    rw [List.map_append, List.map_append, sectors_scattered, sectors_scattered, sectors_scattered,
      show List.range' (256 * 1) 256 ++ List.range' (256 * 2) 256 = List.range' 256 512 from List.range'_append_1,
      show List.range' (256 * 0) 256 ++ List.range' 256 512 = List.range' 0 768 from List.range'_append_1]
  unfold neededSectors
  rw [List.nil_append, hmap, List.toFinset_card_of_nodup List.nodup_range', List.length_range']

/-- Two removals fail and leave 512 sectors in the list. The third one deletes a record and drops the marks of its chain. -/
theorem marks_dropped : ∃ (s t : FileService) (r : Request) (e : IosError), TableRun smallGeometry s ∧ r.run s = (.error e, t) ∧
    ∃ c, t.fat c ≠ s.fat c ∧ c / fatEntriesPerSector ∉ t.dirtyFatSectors ∧ t.disk.fat c = s.disk.fat c := by
  obtain ⟨s, hs, hw, hclean, hcount, hfat⟩ := exists_scattered
  have hchain : ∀ j, j < 3 → Fat.Chain s.fat s.fatEntryCount (scatteredFile j).firstCluster (scattered j) := fun j hj => by
    rw [hcount]
    refine (@chain_scattered 255 (256 * j) (by omega) (by omega)).frame fun c hc => hfat c ?_
    obtain ⟨k, hk, rfl⟩ := List.mem_range'.mp hc
    have hsmall : 128 * (256 * j) + 3 + 128 * k ≤ 98307 := by omega
    exact hsmall.trans_lt (by decide)
  have hdistinct : ∀ j, ((scattered j).map (· / fatEntriesPerSector)).Nodup := fun j => by
    rw [scattered, sectors_scattered]
    exact List.nodup_range'
  have hlength : ∀ j, (scattered j).length = maxClusters := fun j => List.length_range'
  have hroot : ∀ j, rootCluster ∉ scattered j := fun j hx => by
    obtain ⟨k, -, hk⟩ := List.mem_range'.mp hx
    unfold rootCluster at hk
    omega
  -- The first two removals.
  have hroom₀ : (neededSectors s.dirtyFatSectors (scattered 0)).card ≤ maxDirtyFatSectors := by
    rw [hclean]
    exact neededSectors_nil_card.trans ((hlength 0).le.trans (by decide))
  obtain ⟨s₁, hs₁, hw₁, hfat₁, hlist₁, hcount₁⟩ := hw.removal hs (rootIdentity_addressed (by omega : 1 < 16)) (by decide) rfl
    (hchain 0 (by omega)) (hdistinct 0) (hlength 0) hroom₀ (hroot 0)
  have hneeded₁ : ∀ l, neededSectors s₁.dirtyFatSectors l = neededSectors [] (scattered 0 ++ l) := fun l => by
    rw [hlist₁, neededSectors_marks hw.orderly.compact hroom₀, hclean]
  have hroom₁ : (neededSectors s₁.dirtyFatSectors (scattered 1)).card ≤ maxDirtyFatSectors := by
    rw [hneeded₁]
    refine neededSectors_nil_card.trans ?_
    rw [List.length_append, hlength, hlength]
    decide
  have hchain₁ : ∀ j, j < 3 → j ≠ 0 → Fat.Chain s₁.fat s₁.fatEntryCount (scatteredFile j).firstCluster (scattered j) := fun j hj hne => by
    rw [hcount₁]
    refine (hchain j hj).frame fun c hc => ?_
    rw [hfat₁, Fat.clear_apply, if_neg (scattered_apart hne hc)]
  obtain ⟨s₂, hs₂, hw₂, hfat₂, hlist₂, hcount₂⟩ := hw₁.removal hs₁ (rootIdentity_addressed (by omega : 3 < 16)) (by decide) rfl
    (hchain₁ 1 (by omega) (by omega)) (hdistinct 1) (hlength 1) hroom₁ (hroot 1)
  -- The third one.
  have hchain₂ : Fat.Chain s₂.fat s₂.fatEntryCount (scatteredFile 2).firstCluster (scattered 2) := by
    rw [hcount₂]
    refine (hchain₁ 2 (by omega) (by omega)).frame fun c hc => ?_
    rw [hfat₂, Fat.clear_apply, if_neg (scattered_apart (by omega) hc)]
  have hno : ¬(Request.removeObject (rootIdentity 5)).Fits s₂ := fun hfits => by
    obtain ⟨u, hdeleted, -⟩ := deleted_run hw₂ (rootIdentity_addressed (by omega : 5 < 16)) (by decide) rfl
    have htraverse := Fat.traverse_eq_ok.mpr
      ⟨hw₂.orderly.mounted.validEntryCount, by decide, hchain₂, hchain₂.nodup, (hlength 2).le⟩
    have hroom := hfits _ _ hdeleted _ htraverse
    rw [hlist₂, neededSectors_marks hw₁.orderly.compact hroom₁, hneeded₁, scattered_needed] at hroom
    exact absurd hroom (by decide)
  have hsees := request_sees hs₂.orderly (.removeObject (rootIdentity 5))
  rcases hrun : (Request.removeObject (rootIdentity 5)).run s₂ with ⟨e | x, t⟩
  · have hx := wp_error hsees hrun
    exact ⟨s₂, t, _, e, hs₂, hrun, hx.2.2 hno⟩
  · have hx := wp_ok hsees hrun
    exact absurd hx.2.2 hno

end FileService
end InferenceOS
