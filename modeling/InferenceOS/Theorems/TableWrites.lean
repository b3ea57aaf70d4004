import InferenceOS.Theorems.DirtySectors

/-! The allocation table in memory and on the volume, as the parts of a call leave them. A sector of the table is
    accounted for when the volume has it as memory has it, or when the list of dirty sectors holds it. -/

namespace InferenceOS
open Program BlockCache

namespace FileService
variable {α : Type} {g : Geometry} {s t u : FileService} {k n : Nat} {l : List Nat}
variable {component : UInt32} {first : Nat}

/-- What holds between the calls of a service on a volume of the geometry. -/
structure Orderly (g : Geometry) (s : FileService) : Prop where
  geometry : s.mount.geometry = g
  mounted : s.Mounted
  flushable : s.Flushable
  compact : Compact s.dirtyFatSectors
  lines : s.sync.cache.entryCount ≤ maxEntries

/-- Sector `k` of the table waits in the list, or the volume has it as memory has it. -/
def Accounted (s : FileService) (k : Nat) : Prop := k ∈ s.dirtyFatSectors ∨ ∀ i, i / 128 = k → s.disk.fat i = s.fat i

/-- Some entry of sector `k` of the table is another in memory. -/
def Altered (s t : FileService) (k : Nat) : Prop := ∃ i, i / 128 = k ∧ t.fat i ≠ s.fat i

structure Accounting (g : Geometry) (s t : FileService) : Prop where
  orderly : Orderly g t
  kept : ∀ k, k < g.fatSectors → s.Accounted k → t.Accounted k
  altered : ∀ k, k < g.fatSectors → Altered s t k → t.Accounted k

def Accounts (g : Geometry) (s t : FileService) : Prop := Orderly g s → Accounting g s t

def Aside (g : Geometry) (s t : FileService) : Prop := Orderly g s →
  Orderly g t ∧ t.fat = s.fat ∧ t.dirtyFatSectors = s.dirtyFatSectors ∧ t.disk.fat = s.disk.fat

instance : Std.Refl (Aside g) := ⟨fun _ h => ⟨h, rfl, rfl, rfl⟩⟩

instance : IsTrans FileService (Aside g) := by
  refine ⟨fun s t u h h' hs => ?_⟩
  obtain ⟨ht, hfat, hlist, hdisk⟩ := h hs
  obtain ⟨hu, hfat', hlist', hdisk'⟩ := h' ht
  exact ⟨hu, hfat'.trans hfat, hlist'.trans hlist, hdisk'.trans hdisk⟩

theorem Accounting.refl (h : Orderly g s) : Accounting g s s := ⟨h, fun _ _ hk => hk, fun _ _ ⟨_, _, hi⟩ => absurd rfl hi⟩

theorem Accounting.trans (h : Accounting g s t) (h' : Accounting g t u) : Accounting g s u := by
  refine ⟨h'.orderly, fun k hk ha => h'.kept k hk (h.kept k hk ha), fun k hk ⟨i, hi, hne⟩ => ?_⟩
  by_cases hmid : t.fat i = s.fat i
  · exact h'.altered k hk ⟨i, hi, by rwa [hmid]⟩
  · exact h'.kept k hk (h.altered k hk ⟨i, hi, hmid⟩)

instance : Std.Refl (Accounts g) := ⟨fun _ => .refl⟩

instance : IsTrans FileService (Accounts g) := ⟨fun _ _ _ h h' hs => (h hs).trans (h' (h hs).orderly)⟩

theorem Aside.accounts (h : Aside g s t) : Accounts g s t := fun hs => by
  obtain ⟨ht, hfat, hlist, hdisk⟩ := h hs
  refine ⟨ht, fun k _ hk => ?_, fun _ _ ⟨i, _, hi⟩ => absurd (by rw [hfat]) hi⟩
  rw [Accounted, hfat, hlist, hdisk]
  exact hk

structure OffTable (g : Geometry) (a b : Sync) : Prop where
  inStep : b.InStep
  sectorCount : b.cache.device.sectorCount = a.cache.device.sectorCount
  entryCount : b.cache.entryCount = a.cache.entryCount
  view : ∀ k, k < g.fatSectors → b.cache.view (superblockSectors + k) = a.cache.view (superblockSectors + k)

theorem Orderly.offTable {sync : Sync} (h : Orderly g s) (hs : OffTable g s.sync sync) :
    Orderly g { s with sync } ∧ ({ s with sync } : FileService).disk.fat = s.disk.fat := by
  refine ⟨⟨h.geometry, ⟨hs.inStep, h.mounted.laid, h.mounted.entries, ?_⟩, ⟨h.flushable.bounded, h.flushable.inTable⟩, h.compact,
    hs.entryCount ▸ h.lines⟩, fatOf_congr fun k hk => hs.view k (by rwa [← h.geometry])⟩
  show s.mount.geometry.totalSectors ≤ sync.cache.device.sectorCount
  rw [hs.sectorCount]
  exact h.mounted.sectors

theorem onSync_aside {m : Program IosError Sync α}
    (h : ∀ sync : Sync, sync.InStep → wp m (fun _ => OffTable g sync) (fun _ => OffTable g sync) sync) :
    Keeps (Aside g) (onSync m) := fun s hs => by
  obtain ⟨ht, hdisk⟩ := hs.offTable (of_wp (h s.sync hs.mounted.inStep))
  exact ⟨ht, rfl, rfl, hdisk⟩

theorem OffTable.steady {a b : Sync} (h : BlockCache.Steady a.cache b.cache) (hi : a.InStep)
    (hg : b.generation = a.generation) : OffTable g a b := by
  refine ⟨⟨h.coherent, ?_, hg ▸ hi.positive⟩, h.sectorCount, h.entryCount, fun k _ => by rw [h.view]⟩
  rw [hg, h.generation]
  exact hi.generation

theorem cacheRead_aside : Keeps (Aside g) (cacheRead n) := by
  refine onSync_aside fun sync hs => ?_
  unfold Sync.onCache
  rw [wp_zoom]
  exact wp_mono (read_spec hs.coherent) (fun _ _ ⟨_, _, hc⟩ => .steady hc hs rfl) fun _ _ ⟨hc, _⟩ => .steady hc hs rfl

theorem writeSector_aside (hg : g.Laid) (hn : g.dataStartSector ≤ n) {bytes : Sector} :
    Keeps (Aside g) (onSync (Sync.writeSector n bytes component)) := by
  refine onSync_aside fun sync hs => wp_mono (Sync.writeSector_spec hs) (fun _ b hw => ?_) fun _ b ⟨hr, _⟩ => ?_
  · have hst := hw.stored
    refine ⟨⟨hst.coherent, ?_, hw.generation ▸ hs.positive⟩, hst.sectorCount, hst.entryCount, fun k hk => ?_⟩
    · rw [hw.generation, hst.generation]
      exact hs.generation
    · have := hg.data
      rw [hst.view, Function.update_of_ne (by omega)]
  · exact .steady hr.steady hs hr.generation

theorem syncBarrier_aside : Keeps (Aside g) (onSync Sync.barrier) := by
  refine onSync_aside fun sync hs => wp_mono (Sync.barrier_spec hs) (fun _ b hb => ?_) fun _ b ⟨hb, _⟩ => ?_
  · obtain ⟨c, hc, hcache⟩ := hb.flushed
    refine ⟨⟨hb.coherent, hb.generation, ?_⟩, by rw [hcache]; exact hc.sectorCount, by rw [hcache]; exact hc.entryCount, fun k _ => ?_⟩
    · have := hb.advanced
      omega
    · rw [hcache]
      exact congrFun hc.view _
  · have hu := hb.unflushed
    refine ⟨⟨hu.coherent, ?_, hb.generation ▸ hs.positive⟩, hu.sectorCount, hu.entryCount, fun k _ => by rw [hu.view]⟩
    rw [hb.generation, hu.generation]
    exact hs.generation

theorem modify_aside {f : FileService → FileService} (h : ∀ s, f s = { f s with
    mount := s.mount, sync := s.sync, fat := s.fat, fatEntryCount := s.fatEntryCount, dirtyFatSectors := s.dirtyFatSectors }) :
    Keeps (Aside g) (modify f : Service Unit) := fun s hs => by
  show Orderly g (f s) ∧ (f s).fat = s.fat ∧ (f s).dirtyFatSectors = s.dirtyFatSectors ∧ (f s).disk.fat = s.disk.fat
  rw [h]
  exact ⟨⟨hs.geometry, ⟨hs.mounted.inStep, hs.mounted.laid, hs.mounted.entries, hs.mounted.sectors⟩,
    ⟨hs.flushable.bounded, hs.flushable.inTable⟩, hs.compact, hs.lines⟩, rfl, rfl, rfl⟩

theorem get_aside {f : FileService → Service α} (h : ∀ s, Orderly g s → Keeps (Aside g) (f s)) :
    Keeps (Aside g) (get >>= f) := fun s hs => h s hs s hs

theorem readSectors_aside {first : Nat} : ∀ {count : Nat}, Keeps (Aside g) (readSectors first count)
  | 0 => keeps_pure
  | _ + 1 => readSectors_aside.bind fun _ => cacheRead_aside.bind fun _ => keeps_pure

theorem reads_aside : Reads (Aside g) where
  scratch h := modify_aside fun s => by rw [h]
  readCluster := keeps_get.bind fun _ => keeps_failIf.bind fun _ => readSectors_aside.bind fun _ => keeps_pure

theorem persistDirectorySlot_aside {d i : Nat} {r : Slot} : Keeps (Aside g) (persistDirectorySlot d i r component) := by
  refine keeps_failIf.bind fun _ => (loadDirectory_keeps reads_aside).bind fun _ => (modify_aside fun _ => rfl).bind fun _ => ?_
  refine get_aside fun s hs => writeSector_aside (hs.geometry ▸ hs.mounted.laid) ?_
  rw [hs.geometry]
  unfold clusterSector
  omega

theorem writeCluster_aside {c : Nat} {buffer : ClusterBytes} : Keeps (Aside g) (writeCluster c buffer component) := by
  refine get_aside fun s hs => keeps_failIf.bind fun _ => keeps_each fun k _ => writeSector_aside (hs.geometry ▸ hs.mounted.laid) ?_
  rw [hs.geometry]
  unfold clusterSector
  omega

theorem barrier_aside : Keeps (Aside g) barrier := by
  refine syncBarrier_aside.attempt.bind fun outcome => ?_
  cases outcome with
  | error _ => exact (modify_aside fun _ => rfl).bind fun _ => keeps_fail
  | ok _ => exact keeps_pure

structure Storing (g : Geometry) (ks : List Nat) (s t : FileService) : Prop where
  orderly : Orderly g t
  memory : t = { s with sync := t.sync }
  disk : ∀ i, t.disk.fat i = s.disk.fat i ∨ (i / 128 ∈ ks ∧ t.disk.fat i = tableOf g s.fat i)
  data : t.disk.data = s.disk.data

theorem Orderly.still (h : Orderly g s) (hs : Still s t) : Orderly g t := by
  obtain ⟨hw, ht⟩ := hs
  refine ⟨?_, hw.mounted h.mounted, ⟨?_, ?_⟩, ?_, ?_⟩
  · rw [hw.mount, h.geometry]
  · rw [Bounded, hw.mount, show t.fat = s.fat by rw [ht]]
    exact h.flushable.bounded
  · rw [ht]
    exact h.flushable.inTable
  · rw [ht]
    exact h.compact
  · rw [hw.entryCount]
    exact h.lines

theorem Storing.refl (h : Orderly g s) : Storing g l s s := ⟨h, rfl, fun _ => Or.inl rfl, rfl⟩

theorem Storing.trans {ks : List Nat} (h : Storing g [k] s t) (h' : Storing g ks t u) : Storing g (k :: ks) s u := by
  have hfat : t.fat = s.fat := by rw [h.memory]
  refine ⟨h'.orderly, by rw [h'.memory, h.memory], fun i => ?_, h'.data.trans h.data⟩
  rcases h'.disk i with hi | ⟨hk, hi⟩
  · rw [hi]
    exact (h.disk i).imp_right fun ⟨hk, hd⟩ => ⟨List.mem_cons.mpr (Or.inl (List.mem_singleton.mp hk)), hd⟩
  · rw [hfat] at hi
    exact Or.inr ⟨List.mem_cons_of_mem _ hk, hi⟩

theorem persistFatSector_stores (h : Orderly g s) (hk : k < g.fatSectors) :
    wp (persistFatSector k) (fun _ t => Storing g [k] s t) (fun _ t => Storing g [k] s t) s := by
  have hm := h.mounted
  have hlt : k < s.mount.geometry.fatSectors := by rwa [h.geometry]
  simp only [persistFatSector, wp_bind, wp_get, wp_failIf]
  refine ⟨fun hx => absurd hx (by omega), fun _ => ?_⟩
  refine wp_mono (writeSector_spec hm (hm.table_inRange hlt) (by decide)) (fun _ t hx => ?_) fun _ t hx => ?_
  · obtain ⟨hw, ht⟩ := hx
    have hput := @diskOf_put_fat _ s.view _ hm.laid hlt _ h.flushable.bounded
    refine ⟨⟨by rw [hw.mount, h.geometry], hw.mounted hm, ⟨?_, ?_⟩, ?_, ?_⟩, ht, fun i => ?_, by rw [hw.disk, hput]; rfl⟩
    · rw [ht]
      exact h.flushable.bounded
    · rw [ht]
      exact h.flushable.inTable
    · rw [ht]
      exact h.compact
    · rw [hw.entryCount]
      exact h.lines
    · have hdisk : t.disk.fat i = if i / 128 = k then tableOf s.mount.geometry s.fat i else s.disk.fat i := by
        rw [hw.disk, hput]
        rfl
      rw [hdisk, h.geometry]
      split
      · rename_i hi
        exact Or.inr ⟨List.mem_singleton.mpr hi, rfl⟩
      · exact Or.inl rfl
  · obtain ⟨hs, _⟩ := hx
    exact ⟨h.still hs, hs.2, fun i => Or.inl (by rw [hs.1.disk]; rfl), by rw [hs.1.disk]; rfl⟩

theorem persistFatSector_unsaved (h : Orderly g s) :
    wp (persistFatSector k) (fun _ t => t.sync.cache.Unsaved (superblockSectors + k) ∧
      ∀ n, s.sync.cache.Unsaved n → t.sync.cache.Unsaved n) (fun _ _ => True) s := by
  simp only [persistFatSector, wp_bind, wp_get, wp_failIf, onSync, wp_zoom]
  exact ⟨fun _ => trivial, fun _ => Sync.writeSector_unsaved h.mounted.inStep⟩

theorem persistFatSectors_stores : ∀ {ks : List Nat} {s : FileService}, Orderly g s → (∀ k ∈ ks, k < g.fatSectors) →
    wp (each persistFatSector ks)
      (fun _ t => Storing g ks s t ∧ (∀ k ∈ ks, t.sync.cache.Unsaved (superblockSectors + k)) ∧
        ∀ n, s.sync.cache.Unsaved n → t.sync.cache.Unsaved n)
      (fun _ t => Storing g ks s t) s
  | [], s, h, _ => ⟨.refl h, fun _ hk => absurd hk List.not_mem_nil, fun _ hn => hn⟩
  | k :: ks, s, h, hks => by
    rw [wp_each_cons]
    refine wp_mono (wp_and (persistFatSector_stores h (hks k List.mem_cons_self)) (persistFatSector_unsaved h))
      (fun _ t ⟨ht, hnew, hold⟩ => ?_) fun _ t ⟨ht, _⟩ => ht.trans (.refl ht.orderly)
    refine wp_mono (persistFatSectors_stores ht.orderly fun j hj => hks j (List.mem_cons_of_mem _ hj))
      (fun _ u ⟨hu, hall, hkept⟩ => ⟨ht.trans hu, fun j hj => ?_, fun n hn => hkept n (hold n hn)⟩) fun _ u hu => ht.trans hu
    rcases List.mem_cons.mp hj with rfl | hj
    · exact hkept _ hnew
    · exact hall j hj

theorem persistFat_stores (h : Orderly g s) :
    wp persistFat
      (fun _ t => ∃ u, Storing g s.dirtyFatSectors s u ∧ t = { u with dirtyFatSectors := [] } ∧
        s.dirtyFatSectors.length ≤ t.sync.cache.entryCount)
      (fun _ t => Storing g s.dirtyFatSectors s t) s := by
  simp only [persistFat, wp_bind, wp_get]
  have hks : ∀ k ∈ s.dirtyFatSectors, k < g.fatSectors := fun k hk => h.geometry ▸ h.flushable.inTable k hk
  refine wp_mono (persistFatSectors_stores h hks) (fun _ u hx => ?_) fun _ _ hu => hu
  obtain ⟨hu, hall, _⟩ := hx
  refine ⟨u, hu, rfl, ?_⟩
  have hwaiting : ∀ n ∈ s.dirtyFatSectors.map (superblockSectors + ·), u.sync.cache.Unsaved n := fun n hn => by
    obtain ⟨k, hk, rfl⟩ := List.mem_map.mp hn
    exact hall k hk
  have hlines := unsaved_length hwaiting (h.compact.nodup.map fun a b hab => Nat.add_left_cancel hab)
  rw [List.length_map] at hlines
  exact hlines

theorem tableOf_of_sector {fat : Nat → Nat} {i : Nat} (hk : k < g.fatSectors) (hi : i / 128 = k) : tableOf g fat i = fat i :=
  if_pos (by omega)

theorem Orderly.unlisted (h : Orderly g s) : Orderly g { s with dirtyFatSectors := [] } :=
  ⟨h.geometry, ⟨h.mounted.inStep, h.mounted.laid, h.mounted.entries, h.mounted.sectors⟩,
    ⟨h.flushable.bounded, fun _ hk => absurd hk List.not_mem_nil⟩, .nil, h.lines⟩

theorem Storing.accounting (h : Storing g s.dirtyFatSectors s t) : Accounting g s t := by
  have hfat : t.fat = s.fat := by rw [h.memory]
  have hlist : t.dirtyFatSectors = s.dirtyFatSectors := by rw [h.memory]
  refine ⟨h.orderly, fun k hk ha => ?_, fun _ _ ⟨i, _, hi⟩ => absurd (by rw [hfat]) hi⟩
  refine ha.imp (fun hx => hlist ▸ hx) fun hd i hi => ?_
  rcases h.disk i with hsame | ⟨-, hstored⟩
  · rw [hsame, hd i hi, hfat]
  · rw [hstored, tableOf_of_sector hk hi, hfat]

structure Flushed (g : Geometry) (s t : FileService) : Prop extends Accounting g s t where
  clean : t.dirtyFatSectors = []
  fat : t.fat = s.fat
  short : s.dirtyFatSectors.length ≤ maxEntries

theorem persistFat_accounting (h : Orderly g s) :
    wp persistFat (fun _ t => Flushed g s t) (fun _ t => Storing g s.dirtyFatSectors s t) s := by
  have hm := h.mounted
  refine wp_mono (wp_and (persistFat_stores h) (persistFat_spec hm h.flushable.bounded h.flushable.inTable))
    (fun _ t ⟨⟨u, hu, htu, hlines⟩, v, hw, ht, hv⟩ => ?_) fun _ _ ⟨hu, _⟩ => hu
  have hshort : s.dirtyFatSectors.length ≤ maxEntries := by
    rw [hw.entryCount] at hlines
    exact hlines.trans h.lines
  have hfat : t.fat = s.fat := by rw [ht]
  have hdisk : ∀ i, t.disk.fat i = if i / 128 ∈ s.dirtyFatSectors then tableOf g s.fat i else s.disk.fat i := fun i => by
    rw [hw.disk, hv, h.geometry]
  refine ⟨⟨htu ▸ hu.orderly.unlisted, fun k hk ha => Or.inr fun i hi => ?_, fun _ _ ⟨i, _, hi⟩ => absurd (by rw [hfat]) hi⟩,
    by rw [ht], hfat, hshort⟩
  rw [hdisk, hfat]
  split
  · exact tableOf_of_sector hk hi
  · rename_i hno
    rcases ha with hx | hd
    · exact absurd (hi ▸ hx) hno
    · exact hd i hi

theorem persistFat_accounts : Keeps (Accounts g) persistFat := fun _ h =>
  of_wp (wp_mono (persistFat_accounting h) (fun _ _ ht => ht.toAccounting) fun _ _ ht => ht.accounting)

theorem loadFatAt_accounts (hk : k < g.fatSectors) : Keeps (Accounts g) (loadFatAt k) := by
  intro s h
  have hm := h.mounted
  have hlt : k < s.mount.geometry.fatSectors := by rwa [h.geometry]
  refine of_wp (wp_mono (loadFatAt_spec hm hlt) (fun _ t hx => ?_) fun _ t hx =>
    (Aside.accounts fun _ => ⟨h.still ⟨hx.1, hx.2.1⟩, by rw [hx.2.1], by rw [hx.2.1], by rw [hx.1.disk]; rfl⟩ : Accounts g s t) h)
  obtain ⟨hw, ht⟩ := hx
  have hdisk : t.disk.fat = s.disk.fat := by
    rw [hw.disk]
    rfl
  have hlist : t.dirtyFatSectors = s.dirtyFatSectors := by rw [ht]
  have hloaded : ∀ i, i / 128 = k → t.fat i = s.disk.fat i := fun i hi => by
    have heq : t.fat i = (s.view (superblockSectors + k)).toNat (4 * (i % 128)) 4 := by
      rw [ht]
      exact if_pos hi
    rw [heq]
    show _ = fatOf s.mount.geometry s.view i
    rw [fatOf, if_pos (by omega), hi]
  have hother : ∀ i, i / 128 ≠ k → t.fat i = s.fat i := fun i hi => by
    rw [ht]
    exact if_neg hi
  have hacc : t.Accounted k := Or.inr fun i hi => by rw [hdisk, hloaded i hi]
  refine ⟨⟨?_, hw.mounted hm, ⟨fun i hi => ?_, ?_⟩, hlist ▸ h.compact, hw.entryCount ▸ h.lines⟩, fun j hj ha => ?_,
    fun j hj hx => ?_⟩
  · rw [hw.mount, h.geometry]
  · by_cases hik : i / 128 = k
    · rw [hloaded i hik]
      exact fatOf_lt
    · rw [hother i hik]
      rw [hw.mount] at hi
      exact h.flushable.bounded i hi
  · rw [hlist, hw.mount]
    exact h.flushable.inTable
  · by_cases hjk : j = k
    · exact hjk ▸ hacc
    · refine ha.imp (fun hx => hlist ▸ hx) fun hd i hi => ?_
      rw [hdisk, hd i hi, hother i (by omega)]
  · obtain ⟨i, hi, hne⟩ := hx
    by_cases hjk : j = k
    · exact hjk ▸ hacc
    · exact absurd (hother i (by omega)) hne

theorem loadFat_accounts : Keeps (Accounts g) loadFat := by
  intro s h
  have hkeeps : Keeps (Accounts g) (each loadFatAt (List.range s.mount.geometry.fatSectors)) :=
    keeps_each fun k hk => loadFatAt_accounts (h.geometry ▸ List.mem_range.mp hk)
  refine of_wp ?_
  have hload := loadSectors_spec h.mounted (le_refl s.mount.geometry.fatSectors)
  simp only [loadFat, wp_bind, wp_get]
  refine wp_mono (wp_and (hkeeps.wp (s := s)) hload) (fun _ t hx => ?_) (fun _ _ hx => by obtain ⟨hacc, _⟩ := hx; exact hacc h)
  obtain ⟨hacc, hw, ht⟩ := hx
  rw [wp_modify]
  -- The whole table was loaded, so nothing has to wait.
  have hall : ∀ k, k < g.fatSectors → ({ t with dirtyFatSectors := [] } : FileService).Accounted k := fun k hk =>
    Or.inr fun i hi => by
      show t.disk.fat i = t.fat i
      rw [hw.disk, ht]
      exact (if_pos (by rw [h.geometry]; omega)).symm
  exact ⟨(hacc h).orderly.unlisted, fun k hk _ => hall k hk, fun k hk _ => hall k hk⟩

structure Marked (s t : FileService) (l : List Nat) : Prop where
  valid : ∀ c ∈ l, Fat.validCluster c s.fatEntryCount
  bound : ∀ c ∈ l, t.fat c < 2 ^ 32
  same : ∀ c, c ∉ l → t.fat c = s.fat c
  memory : t = { s with
    fat := t.fat, chain := t.chain, oldChain := t.oldChain, dirtyFatSectors := l.foldl markFatCluster s.dirtyFatSectors }

theorem Marked.disk (h : Marked s t l) : t.disk = s.disk := by
  rw [h.memory]
  rfl

theorem Marked.list (h : Marked s t l) : t.dirtyFatSectors = l.foldl markFatCluster s.dirtyFatSectors := by rw [h.memory]

theorem Marked.orderly (h : Marked s t l) (ho : Orderly g s) : Orderly g t := by
  have hm : t.mount = s.mount := by rw [h.memory]
  have hsync : t.sync = s.sync := by rw [h.memory]
  have hcount : t.fatEntryCount = s.fatEntryCount := by rw [h.memory]
  refine ⟨hm ▸ ho.geometry, ⟨hsync ▸ ho.mounted.inStep, hm ▸ ho.mounted.laid, ?_, ?_⟩, ⟨fun i hi => ?_, fun k hk => ?_⟩, ?_, ?_⟩
  · rw [hcount, hm]
    exact ho.mounted.entries
  · rw [device, hsync, hm]
    exact ho.mounted.sectors
  · by_cases hil : i ∈ l
    · exact h.bound i hil
    · rw [h.same i hil]
      exact ho.flushable.bounded i (hm ▸ hi)
  · rw [h.list] at hk
    rw [hm]
    rcases mem_neededSectors.mp (mem_marks hk) with hk | ⟨c, hc, rfl⟩
    · exact ho.flushable.inTable k hk
    · have := ho.mounted.entry_lt (h.valid c hc)
      unfold fatEntriesPerSector
      omega
  · rw [h.list]
    exact ho.compact.marks
  · rw [hsync]
    exact ho.lines

theorem Marked.accounting (h : Marked s t l) (ho : Orderly g s)
    (hall : ∀ c ∈ l, c / fatEntriesPerSector ∈ l.foldl markFatCluster s.dirtyFatSectors) : Accounting g s t := by
  have hmarked : ∀ c ∈ l, c / 128 ∈ t.dirtyFatSectors := fun c hc => by
    rw [h.list]
    exact hall c hc
  refine ⟨h.orderly ho, fun k _ ha => ?_, fun k _ ⟨i, hi, hne⟩ => Or.inl ?_⟩
  · by_cases hk : k ∈ t.dirtyFatSectors
    · exact Or.inl hk
    rcases ha with hx | hd
    · rw [h.list] at hk
      exact absurd (subset_marks hx) hk
    · refine Or.inr fun i hi => ?_
      have hil : i ∉ l := fun hx => hk (hi ▸ hmarked i hx)
      rw [h.disk, hd i hi, h.same i hil]
  · by_cases hil : i ∈ l
    · exact hi ▸ hmarked i hil
    · exact absurd (h.same i hil) hne

theorem Marked.accounting_of_clean (h : Marked s t l) (ho : Orderly g s) (hclean : s.dirtyFatSectors = []) (hl : l.length ≤ maxClusters) :
    Accounting g s t := by
  refine h.accounting ho ((marks_iff ho.compact).mpr ?_)
  rw [hclean]
  exact neededSectors_nil_card.trans (hl.trans (by decide))

theorem allocateChain_accounts (h : Orderly g s) (hclean : s.dirtyFatSectors = []) {count : Nat} :
    Accounting g s (allocateChain count s).2 := by
  unfold allocateChain
  split
  · exact .refl h
  refine of_wp ?_
  simp only [wp_bind, wp_get, wp_ofExcept, wp_modify]
  refine ⟨fun r hr => ?_, fun _ _ => .refl h⟩
  have ha := Fat.allocate_eq_ok hr
  have hmarked : Marked s { s with
      fat := r.1, chain := r.2, dirtyFatSectors := r.2.foldl markFatCluster s.dirtyFatSectors } r.2 :=
    ⟨ha.valid, ha.chain.entry_lt, ha.frame, rfl⟩
  refine hmarked.accounting_of_clean h hclean ?_
  rw [ha.length]
  unfold Fat.allocate at hr
  split at hr
  · cases hr
  · rename_i hv
    simp only [not_or, Nat.not_lt] at hv
    exact hv.2.2

/-- The list has room for the sectors of the chain that starts at `first`. -/
def Fits (s : FileService) (first : Nat) : Prop := ∀ l, Fat.traverse s.fat s.fatEntryCount first maxClusters = .ok l →
  (neededSectors s.dirtyFatSectors l).card ≤ maxDirtyFatSectors

def Lost (s t : FileService) : Prop :=
  ∃ c, t.fat c ≠ s.fat c ∧ c / fatEntriesPerSector ∉ t.dirtyFatSectors ∧ t.disk.fat c = s.disk.fat c

structure Releasing (g : Geometry) (s t : FileService) (first : Nat) : Prop where
  orderly : Orderly g t
  accounting : Fits s first → Accounting g s t
  lost : ¬Fits s first → Lost s t

theorem Releasing.of_accounting (h : Accounting g s t) (hfits : Fits s first) : Releasing g s t first :=
  ⟨h.orderly, fun _ => h, fun hno => absurd hfits hno⟩

theorem marks_of_short {sectors : List Nat} (h : (l.foldl markFatCluster sectors).length ≤ maxEntries) :
    ∀ c ∈ l, c / fatEntriesPerSector ∈ l.foldl markFatCluster sectors := fun c hc => by
  by_contra hno
  have := marks_full hc hno
  unfold maxDirtyFatSectors maxEntries at *
  omega

theorem released_marked (hchain : Fat.Chain s.fat s.fatEntryCount first l) : Marked s (released s l) l := by
  refine ⟨hchain.valid, fun c hc => ?_, fun c hc => ?_, rfl⟩
  · show Fat.clear s.fat l c < 2 ^ 32
    rw [Fat.clear_apply, if_pos hc]
    decide
  · exact (Fat.clear_apply).trans (if_neg hc)

theorem releaseChain_releasing (h : Orderly g s) :
    wp (releaseChain first) (fun _ t => Accounting g s t ∧ Fits s first ∧ (t = s ∨ t.dirtyFatSectors = []))
      (fun _ t => Releasing g s t first) s := by
  unfold releaseChain
  split
  · rename_i hzero
    subst hzero
    refine ⟨.refl h, fun l hl => ?_, Or.inl rfl⟩
    exact absurd (Fat.traverse_eq_ok.mp hl).2.2.1.start.1 (by omega)
  simp only [wp_bind, wp_get, wp_ofExcept, wp_modify]
  refine ⟨fun l hl => ?_, fun e he => .of_accounting (.refl h) fun l hl => by rw [he] at hl; cases hl⟩
  have hrel := Fat.release_eq_ok hl
  have hchain := (Fat.traverse_eq_ok.mp hl).2.2.1
  refine ⟨fun r hr => ?_, fun e he => by rw [hrel] at he; cases he⟩
  rw [hrel] at hr
  cases hr
  have hfits : Fits s first ↔ ∀ c ∈ l, c / fatEntriesPerSector ∈ l.foldl markFatCluster s.dirtyFatSectors := by
    rw [marks_iff h.compact]
    refine ⟨fun hx => hx l hl, fun hx l' hl' => ?_⟩
    rw [hl] at hl'
    cases hl'
    exact hx
  have hmarked := released_marked hchain
  have ho := hmarked.orderly h
  refine wp_mono (persistFat_accounting (s := released s l) ho) (fun _ t ht => ?_) fun _ t ht => ?_
  · -- The table was written, so the list was not full.
    have hall := marks_of_short (hmarked.list ▸ ht.short)
    have hacc := (hmarked.accounting h hall).trans ht.toAccounting
    refine wp_mono (barrier_aside (g := g)).wp (fun _ u hu => ?_) fun _ u hu => ?_
    · exact ⟨hacc.trans (hu.accounts ht.orderly), hfits.mpr hall, Or.inr (by rw [(hu ht.orderly).2.2.1, ht.clean])⟩
    · exact .of_accounting (hacc.trans (hu.accounts ht.orderly)) (hfits.mpr hall)
  · refine ⟨ht.orderly, fun hx => (hmarked.accounting h (hfits.mp hx)).trans ht.accounting, fun hno => ?_⟩
    rw [hfits] at hno
    obtain ⟨c, hx⟩ := not_forall.mp hno
    obtain ⟨hc, hdropped⟩ := Classical.not_imp.mp hx
    have hunlisted : c / fatEntriesPerSector ∉ (released s l).dirtyFatSectors := hmarked.list ▸ hdropped
    refine ⟨c, ?_, by rw [ht.memory]; exact hunlisted, ?_⟩
    · have hfree : t.fat c = Fat.free := by
        rw [ht.memory]
        exact (Fat.clear_apply).trans (if_pos hc)
      rw [hfree]
      exact (hchain.used c hc).symm
    · rcases ht.disk c with hd | ⟨hk, -⟩
      · rw [hd, hmarked.disk]
      · exact absurd hk hunlisted

theorem fits_of_clean (h : s.dirtyFatSectors = []) : Fits s first := fun l hl => by
  rw [h]
  exact neededSectors_nil_card.trans ((Fat.traverse_eq_ok.mp hl).2.2.2.2.trans (by decide))

end FileService
end InferenceOS
