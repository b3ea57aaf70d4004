import InferenceOS.Theorems.TableWrites

/-! The calls of the file service and the allocation table. Every call that returns has written each sector of the table
    that it changed. A call that stops leaves the sectors that it changed in the list or on the volume, unless it
    releases a chain for which the list has no room: calls that remove something do not empty the list before. -/

namespace InferenceOS
open Program

namespace FileService
variable {α β : Type} {g : Geometry} {s t u : FileService}
variable {f : α → Service β} {bytes : Text} {append : Bool}

theorem stores_accounts : Stores (Accounts g) where
  scratch h := (reads_aside.scratch h).mono fun _ _ => Aside.accounts
  readCluster := reads_aside.readCluster.mono fun _ _ => Aside.accounts
  record := persistDirectorySlot_aside.mono fun _ _ => Aside.accounts
  cluster := writeCluster_aside.mono fun _ _ => Aside.accounts
  table := persistFat_accounts
  barrier := barrier_aside.mono fun _ _ => Aside.accounts

def SameTable (s t : FileService) : Prop := t.fat = s.fat

instance : Std.Refl SameTable := ⟨fun _ => rfl⟩

instance : IsTrans FileService SameTable := ⟨fun _ _ _ h h' => h'.trans h⟩

theorem onSync_sameTable {m : Program IosError Sync α} : Keeps SameTable (onSync m) := fun _ => rfl

theorem readSectors_sameTable {first : Nat} : ∀ {count : Nat}, Keeps SameTable (readSectors first count)
  | 0 => keeps_pure
  | _ + 1 => readSectors_sameTable.bind fun _ => Keeps.bind onSync_sameTable fun _ => keeps_pure

theorem modify_sameTable {f : FileService → FileService} (h : ∀ s, f s = { f s with fat := s.fat }) :
    Keeps SameTable (modify f : Service Unit) := fun s => by
  show (f s).fat = s.fat
  rw [h]

theorem reads_sameTable : Reads SameTable where
  scratch h := modify_sameTable fun s => by rw [h]
  readCluster := keeps_get.bind fun _ => keeps_failIf.bind fun _ => readSectors_sameTable.bind fun _ => keeps_pure

theorem stores_sameTable : Stores SameTable where
  toReads := reads_sameTable
  record := keeps_failIf.bind fun _ => (loadDirectory_keeps reads_sameTable).bind fun _ =>
    (modify_sameTable fun _ => rfl).bind fun _ => keeps_get.bind fun _ => onSync_sameTable
  cluster := keeps_get.bind fun _ => keeps_failIf.bind fun _ => keeps_each fun _ _ => onSync_sameTable
  table := keeps_get.bind fun _ => (keeps_each fun _ _ => keeps_get.bind fun _ => keeps_failIf.bind fun _ => onSync_sameTable).bind
    fun _ => modify_sameTable fun _ => rfl
  barrier := by
    have hsync : Keeps SameTable (onSync Sync.barrier) := onSync_sameTable
    refine hsync.attempt.bind fun outcome => ?_
    cases outcome with
    | error _ => exact (modify_sameTable fun _ => rfl).bind fun _ => keeps_fail
    | ok _ => exact keeps_pure

structure Tracked (g : Geometry) (s t : FileService) : Prop where
  orderly : Orderly g t
  altered : ∀ k, k < g.fatSectors → Altered s t k → t.Accounted k

theorem Accounting.tracked (h : Accounting g s t) : Tracked g s t := ⟨h.orderly, h.altered⟩

def Clears (g : Geometry) (m : Service α) (s : FileService) : Prop :=
  wp m (fun _ t => Accounting g s t ∧ t.dirtyFatSectors = []) (fun _ t => Accounting g s t) s

theorem Clears.from {m : Service α} (h : Accounting g s (m s).2)
    (hf : ∀ a u, Orderly g u → Clears g (f a) u) : Clears g (m >>= f) s := by
  unfold Clears
  rw [wp_bind]
  refine wp_mono (wp_final h) (fun a u hu => ?_) fun _ u hu => hu
  exact wp_mono (hf a u hu.orderly) (fun _ _ ⟨ht, hlist⟩ => ⟨hu.trans ht, hlist⟩) fun _ _ ht => hu.trans ht

theorem Clears.after {m : Service α} (hm : Keeps (Accounts g) m) (h : Orderly g s)
    (hf : ∀ a u, Orderly g u → Clears g (f a) u) : Clears g (m >>= f) s := .from (hm s h) hf

theorem Clears.get {f : FileService → Service α} (h : Clears g (f s) s) : Clears g (get >>= f) s := h

theorem persistFat_clears (h : Orderly g s) {f : Unit → Service α} (hf : ∀ a, Keeps (Aside g) (f a)) : Clears g (persistFat >>= f) s := by
  unfold Clears
  rw [wp_bind]
  refine wp_mono (persistFat_accounting h) (fun a t ht => ?_) fun _ t ht => ht.accounting
  refine wp_mono (hf a).wp (fun _ u hu => ⟨ht.trans (hu.accounts ht.orderly), ?_⟩) fun _ u hu => ht.trans (hu.accounts ht.orderly)
  rw [(hu ht.orderly).2.2.1, ht.clean]

theorem commitPrimary_clears (h : Orderly g s) {located : LocatedEntry} {primary : Primary} :
    Clears g (commitPrimary located primary) s := by
  have hcompanion : ∀ committed, Keeps (Aside g) (persistCompanion located primary.name committed) := fun _ =>
    keeps_ofExcept.bind fun _ => persistDirectorySlot_aside
  unfold commitPrimary
  refine Clears.after ((hcompanion false).mono fun _ _ => Aside.accounts) h fun _ t ht => ?_
  refine Clears.after stores_accounts.barrier ht fun _ u hu => ?_
  exact persistFat_clears hu fun _ => barrier_aside.bind fun _ => keeps_ofExcept.bind fun _ =>
    persistDirectorySlot_aside.bind fun _ => (hcompanion true).bind fun _ => barrier_aside

theorem saveStep_accounts {oldSize index : Nat} : Keeps (Accounts g) (saveStep bytes append oldSize index) := by
  refine (saveCluster_keeps stores_accounts).attempt.bind fun outcome => ?_
  cases outcome with
  | error _ => exact loadFat_accounts.attempt.bind fun _ => keeps_fail
  | ok _ => exact stores_accounts.barrier

theorem releaseChain_clears (h : Orderly g s) (hclean : s.dirtyFatSectors = []) {first : Nat} : Clears g (releaseChain first) s := by
  refine wp_mono (releaseChain_releasing h) (fun _ t ⟨hacc, _, ht⟩ => ⟨hacc, ?_⟩) fun _ t ht => ht.accounting (fits_of_clean hclean)
  rcases ht with rfl | ht
  · exact hclean
  · exact ht

def Settles (g : Geometry) (m : Service α) (s : FileService) : Prop :=
  wp m (fun _ t => Tracked g s t ∧ t.dirtyFatSectors = []) (fun _ t => Tracked g s t) s

theorem Tracked.after (hfat : u.fat = s.fat) (h : Tracked g u t) : Tracked g s t :=
  ⟨h.orderly, fun k hk ⟨i, hi, hne⟩ => h.altered k hk ⟨i, hi, by rwa [hfat]⟩⟩

theorem Settles.after {m : Service α} (hm : Keeps (Aside g) m) (h : Orderly g s)
    (hf : ∀ a u, Orderly g u → Settles g (f a) u) : Settles g (m >>= f) s := by
  unfold Settles
  rw [wp_bind]
  refine wp_mono hm.wp (fun a u hu => ?_) fun _ u hu => (hu.accounts h).tracked
  obtain ⟨ho, hfat, -⟩ := hu h
  exact wp_mono (hf a u ho) (fun _ _ ⟨ht, hlist⟩ => ⟨ht.after hfat, hlist⟩) fun _ _ ht => ht.after hfat

theorem Settles.reset {f : Unit → Service α} (h : Orderly g s) (hf : ∀ u, Orderly g u → u.dirtyFatSectors = [] → Clears g (f ()) u) :
    Settles g ((modify fun service : FileService => { service with dirtyFatSectors := [] }) >>= f) s :=
  have hfat : ({ s with dirtyFatSectors := [] } : FileService).fat = s.fat := rfl
  wp_mono (hf _ h.unlisted rfl) (fun _ _ ⟨ht, hlist⟩ => ⟨ht.tracked.after hfat, hlist⟩) fun _ _ ht => ht.tracked.after hfat

theorem saveLocated_settles (h : Orderly g s) {located : LocatedEntry} : Settles g (saveLocated located bytes append) s := by
  refine Settles.after checkRegular_keeps h fun _ t ht => ?_
  refine Settles.after collectChain_keeps ht fun clusters u hu => ?_
  refine Settles.after (reads_aside.scratch fun _ => rfl) hu fun _ v hv => ?_
  refine Settles.after keeps_failIf hv fun _ w hw => Settles.reset hw fun x hx hclean => ?_
  -- From the empty list on: the new chain, its clusters, the record and the old chain.
  refine Clears.from (allocateChain_accounts hx hclean) fun _ y hy => ?_
  refine Clears.after (keeps_each fun _ _ => saveStep_accounts) hy fun _ z hz => Clears.get ?_
  unfold Clears
  rw [wp_bind]
  refine wp_mono (commitPrimary_clears hz) (fun _ a ⟨ha, hlist⟩ => ?_) fun _ _ ha => ha
  rw [wp_bind, wp_get]
  exact wp_mono (releaseChain_clears ha.orderly hlist) (fun _ _ ⟨hb, hlist'⟩ => ⟨ha.trans hb, hlist'⟩) fun _ _ hb => ha.trans hb

theorem saveContent_settles (h : Orderly g s) {path : Option Text} {identity : Nat} :
    Settles g (saveContent path identity bytes append) s := by
  refine Settles.after validateService_keeps h fun _ t ht => ?_
  exact Settles.after (select_keeps reads_aside) ht fun _ u hu => saveLocated_settles hu

theorem createDirectory_settles (h : Orderly g s) {parent : Nat} {component : Text} : Settles g (createDirectory parent component) s := by
  refine Settles.after keeps_get h fun _ t ht => Settles.after keeps_failIf ht fun _ t ht => ?_
  refine Settles.after validateService_keeps ht fun _ t ht => Settles.after keeps_ofExcept ht fun _ t ht => ?_
  refine Settles.after (mustBeAbsent_keeps (findDisplayBaseInDirectory_keeps reads_aside)) ht fun _ t ht => ?_
  refine Settles.after (findDirectorySlot_keeps reads_aside) ht fun _ t ht => Settles.reset ht fun u hu hclean => ?_
  refine Clears.from (allocateChain_accounts hu hclean) fun _ v hv => Clears.get ?_
  refine Clears.after (stores_accounts.scratch fun _ => rfl) hv fun _ w hw => ?_
  refine Clears.after (Keeps.attempt stores_accounts.cluster) hw fun outcome x hx => ?_
  cases outcome with
  | error status =>
    unfold Clears
    rw [wp_bind, wp_attempt]
    exact wp_mono loadFat_accounts.wp (fun _ _ hy => hy hx) fun _ _ hy => hy hx
  | ok _ =>
    refine Clears.after stores_accounts.barrier hx fun _ y hy => ?_
    exact persistFat_clears hy fun _ => barrier_aside.bind fun _ => keeps_ofExcept.bind fun _ =>
      persistDirectorySlot_aside.bind fun _ => barrier_aside.bind fun _ => keeps_pure

end FileService

open FileService in
def Request.deleted : Request → Service LocatedEntry
  | .remove path => do
    validateService true
    let located ← resolvePath path
    checkRegular located
    deleteLocated located
    pure located
  | .removeObject objectIdentity => do
    validateService true
    let located ← locateFileObject objectIdentity
    checkRegular located
    deleteLocated located
    pure located
  | .removeDirectory parentIdentity component => do
    let service ← get
    failIf (¬service.validDirectoryCluster parentIdentity) .invalidArgument
    validateService true
    let name ← ofExcept (canonicalComponent component)
    let located ← findInDirectory parentIdentity name
    failIf (located.primary.attributes ≠ attributeDirectory) .invalidArgument
    let empty ← directoryIsEmpty located.primary.firstCluster
    failIf (empty = false) .notEmpty
    deleteLocated located
    pure located
  | _ => fail .notFound

open FileService in
def Request.Fits (s : FileService) (r : Request) : Prop := ∀ located u, r.deleted s = (.ok located, u) →
  FileService.Fits s located.primary.firstCluster

namespace FileService
variable {g : Geometry} {s t u : FileService} {r : Request}

def Removing : Request → Prop
  | .remove _ | .removeObject _ | .removeDirectory _ _ => True
  | _ => False

theorem removing_run (hr : Removing r) : r.run = r.deleted >>= fun located =>
    releaseChain located.primary.firstCluster >>= fun _ => pure none := by
  cases r with
  | remove path =>
    show (validateService true >>= fun _ => resolvePath path >>= fun located => checkRegular located >>= fun _ =>
      deleteLocated located >>= fun _ => releaseChain located.primary.firstCluster) >>= (fun _ => pure none) = _
    simp only [Request.deleted, bind_assoc]
    rfl
  | removeObject identity =>
    show (validateService true >>= fun _ => locateFileObject identity >>= fun located => checkRegular located >>= fun _ =>
      deleteLocated located >>= fun _ => releaseChain located.primary.firstCluster) >>= (fun _ => pure none) = _
    simp only [Request.deleted, bind_assoc]
    rfl
  | removeDirectory parent component =>
    show removeDirectory parent component >>= (fun _ => pure none) = _
    simp only [Request.deleted, removeDirectory, bind_assoc]
    rfl
  | _ => exact hr.elim

theorem deleted_aside : Keeps (Aside g) r.deleted := by
  have hdelete : ∀ located, Keeps (Aside g) (deleteLocated located >>= fun _ => pure located) := fun located => by
    refine Keeps.bind ?_ fun _ => keeps_pure
    unfold deleteLocated
    refine keeps_ite (fun _ => ?_) fun _ => persistDirectorySlot_aside.bind fun _ => barrier_aside
    exact (keeps_ofExcept.bind fun _ => persistDirectorySlot_aside).bind fun _ => barrier_aside.bind fun _ =>
      persistDirectorySlot_aside.bind fun _ => persistDirectorySlot_aside.bind fun _ => barrier_aside
  cases r with
  | remove path =>
    exact validateService_keeps.bind fun _ => ((resolveParent_keeps reads_aside).bind fun _ => findInDirectory_keeps reads_aside).bind
      fun located => checkRegular_keeps.bind fun _ => hdelete located
  | removeObject identity =>
    exact validateService_keeps.bind fun _ => (locateFileObject_keeps reads_aside).bind fun located => checkRegular_keeps.bind fun _ =>
      hdelete located
  | removeDirectory parent component =>
    exact keeps_get.bind fun _ => keeps_failIf.bind fun _ => validateService_keeps.bind fun _ => keeps_ofExcept.bind fun _ =>
      (findInDirectory_keeps reads_aside).bind fun located => keeps_failIf.bind fun _ =>
        ((directoryChain_keeps reads_aside).bind fun _ => emptyAmong_keeps reads_aside).bind fun _ => keeps_failIf.bind fun _ =>
          hdelete located
  | _ => exact keeps_fail

def Sees (g : Geometry) (r : Request) (s : FileService) : Prop :=
  wp r.run (fun _ t => Tracked g s t ∧ (t.fat = s.fat ∨ t.dirtyFatSectors = []) ∧ r.Fits s)
    (fun _ t => Orderly g t ∧ (r.Fits s → Tracked g s t) ∧ (¬r.Fits s → Lost s t)) s

theorem sees_of_tracked (hfits : r.Fits s)
    (h : wp r.run (fun _ t => Tracked g s t ∧ (t.fat = s.fat ∨ t.dirtyFatSectors = [])) (fun _ t => Tracked g s t) s) : Sees g r s :=
  wp_mono h (fun _ _ ⟨ht, hlist⟩ => ⟨ht, hlist, hfits⟩) fun _ _ ht => ⟨ht.orderly, fun _ => ht, fun hno => absurd hfits hno⟩

theorem sees_of_settles {α : Type} {m : Service α} {f : α → Option VfsObject} (hrun : r.run = f <$> m) (hfits : r.Fits s)
    (h : Settles g m s) : Sees g r s := by
  refine sees_of_tracked hfits ?_
  rw [hrun, wp_map]
  exact wp_mono h (fun _ _ ⟨ht, hlist⟩ => ⟨ht, Or.inr hlist⟩) fun _ _ ht => ht

theorem sees_of_keepsTable (h : Orderly g s) (hr : KeepsTable r) (hfits : r.Fits s) : Sees g r s := by
  refine sees_of_tracked hfits ?_
  exact wp_mono (wp_and (request_stores stores_accounts hr).wp (request_stores stores_sameTable hr).wp)
    (fun _ t ⟨ht, hfat⟩ => ⟨(ht h).tracked, Or.inl hfat⟩) fun _ t ⟨ht, _⟩ => (ht h).tracked

theorem sees_of_removing (h : Orderly g s) (hr : Removing r) : Sees g r s := by
  unfold Sees
  rw [removing_run hr, wp_bind, wp_iff]
  have haside : Keeps (Aside g) r.deleted := deleted_aside
  refine ⟨fun located u hu => ?_, fun e u hu => ?_⟩
  · obtain ⟨ho, hfat, hlist, hdisk⟩ := haside.run hu h
    have hcount : u.fatEntryCount = s.fatEntryCount := by
      rw [ho.mounted.entries, ho.geometry, h.mounted.entries, h.geometry]
    have hfits : FileService.Fits u located.primary.firstCluster ↔ r.Fits s := by
      unfold FileService.Fits Request.Fits
      rw [hfat, hlist, hcount]
      refine ⟨fun hx located' u' hu' => ?_, fun hx => hx located u hu⟩
      rw [hu] at hu'
      cases hu'
      exact hx
    rw [wp_bind]
    refine wp_mono (releaseChain_releasing ho) (fun _ t ⟨hacc, hroom, ht⟩ => ?_) fun _ t ht => ?_
    · refine ⟨hacc.tracked.after hfat, ht.imp_left fun ht => ?_, hfits.mp hroom⟩
      rw [ht, hfat]
    · refine ⟨ht.orderly, fun hx => (ht.accounting (hfits.mpr hx)).tracked.after hfat, fun hno => ?_⟩
      obtain ⟨c, hne, hunlisted, hsame⟩ := ht.lost fun hx => hno (hfits.mp hx)
      exact ⟨c, by rwa [← hfat], hunlisted, by rw [hsame, hdisk]⟩
  · have hacc := (haside.run hu).accounts h
    refine ⟨hacc.orderly, fun _ => hacc.tracked, fun hno => absurd (fun located u' hu' => ?_) hno⟩
    rw [hu] at hu'
    cases hu'

theorem fits_of_fail (hr : r.deleted = fail .notFound) : r.Fits s := fun _ _ hu => by
  rw [hr] at hu
  cases hu

theorem request_sees (h : Orderly g s) (r : Request) : Sees g r s := by
  cases r with
  | create => exact sees_of_keepsTable h trivial (fits_of_fail rfl)
  | createFile => exact sees_of_keepsTable h trivial (fits_of_fail rfl)
  | rename => exact sees_of_keepsTable h trivial (fits_of_fail rfl)
  | renameObject => exact sees_of_keepsTable h trivial (fits_of_fail rfl)
  | vfsRename => exact sees_of_keepsTable h trivial (fits_of_fail rfl)
  | replace => exact sees_of_settles rfl (fits_of_fail rfl) (saveContent_settles h)
  | append => exact sees_of_settles rfl (fits_of_fail rfl) (saveContent_settles h)
  | replaceObject => exact sees_of_settles rfl (fits_of_fail rfl) (saveContent_settles h)
  | appendObject => exact sees_of_settles rfl (fits_of_fail rfl) (saveContent_settles h)
  | createDirectory => exact sees_of_settles rfl (fits_of_fail rfl) (createDirectory_settles h)
  | remove => exact sees_of_removing h trivial
  | removeObject => exact sees_of_removing h trivial
  | removeDirectory => exact sees_of_removing h trivial

/-- The states of a service on a volume of the geometry that calls with any outcome reach from its initialization. The
    sync object is also called from outside, by the command that writes the cache back. -/
inductive TableRun (g : Geometry) : FileService → Prop where
  | opened {s : FileService} {size total lines storageSize : Nat} {device : BlockDevice} {cache : BlockCache} {state : MountState}
    {storage : Nat → Nat} : calculateGeometry size total = .ok g → total ≤ device.sectorCount →
    BlockCache.blockCacheInitialize device lines = .ok cache →
    fileServiceInitialize storageSize (.blank ⟨g, state⟩ (.syncInitialize cache) storage) = (.ok (), s) → TableRun g s
  | request {s t : FileService} {r : Request} {x : Except IosError (Option VfsObject)} : TableRun g s → r.run s = (x, t) → TableRun g t
  | query {s t : FileService} {q : Query} {x : Except IosError Unit} : TableRun g s → q.run s = (x, t) → TableRun g t
  | sync {s t : FileService} {x : Except IosError Unit} : TableRun g s → onSync Sync.barrier s = (x, t) → TableRun g t

theorem Settled.orderly (h : s.Settled) (hlines : s.sync.cache.entryCount ≤ BlockCache.maxEntries) : Orderly s.mount.geometry s :=
  ⟨rfl, h.mounted, h.loaded.flushable, h.clean ▸ .nil, hlines⟩

theorem TableRun.orderly (h : TableRun g s) : Orderly g s := by
  induction h with
  | @opened s size total lines storageSize device cache state storage hg ht hc hi =>
    obtain ⟨hm, -, -, -, hcount, -⟩ := @blank_mounted g _ _ _ _ _ storage state hg ht hc
    obtain ⟨-, u, hw, hf, hd, rfl⟩ := wp_ok (initialize_spec hm) hi
    have ho := Settled.orderly (opened_settled hm hw hf hd) (by
      show u.sync.cache.entryCount ≤ _
      rw [hw.entryCount, hcount]
      unfold BlockCache.blockCacheInitialize at hc
      split at hc
      · cases hc
      · rename_i hx
        simp only [not_or, Nat.not_lt] at hx
        exact hx.2.1)
    have hgeometry : ({ u with initialized := true } : FileService).mount.geometry = g := congrArg Mount.geometry hw.mount
    rwa [hgeometry] at ho
  | @request s t r x _ hr ih =>
    have hsees := request_sees ih r
    cases x with
    | ok v =>
      have hx := wp_ok hsees hr
      exact hx.1.orderly
    | error e =>
      have hx := wp_error hsees hr
      exact hx.1
  | query _ hq ih => exact ((query_keeps reads_aside).run hq ih).1
  | sync _ hs ih => exact (syncBarrier_aside.run hs ih).1

/-- Every call that returns has written each sector of the table that it changed, and the list never holds a sector
    outside the table. What a call changed and did not write is in the list, exactly unless it releases a chain for
    whose sectors the list has no room. -/
theorem table_changes_persist (h : TableRun g s) {r : Request} {x : Except IosError (Option VfsObject)} (hr : r.run s = (x, t)) :
    (∀ v, x = .ok v → ∀ k, k < g.fatSectors → Altered s t k → ∀ i, i / fatEntriesPerSector = k → t.disk.fat i = t.fat i) ∧
    (∀ k ∈ t.dirtyFatSectors, k < g.fatSectors) ∧ t.dirtyFatSectors.length ≤ maxDirtyFatSectors ∧
    (r.Fits s → ∀ k, k < g.fatSectors → Altered s t k → t.Accounted k) ∧
    (¬r.Fits s → ∃ c, t.fat c ≠ s.fat c ∧ c / fatEntriesPerSector ∉ t.dirtyFatSectors ∧ t.disk.fat c = s.disk.fat c) := by
  have hsees := request_sees h.orderly r
  cases x with
  | ok v =>
    obtain ⟨htracked, hlist, hfits⟩ := wp_ok hsees hr
    have ho := htracked.orderly
    refine ⟨fun _ _ k hk ha => ?_, fun k hk => ho.geometry ▸ ho.flushable.inTable k hk, ho.compact.short,
      fun _ => htracked.altered, fun hno => absurd hfits hno⟩
    rcases hlist with hfat | hlist
    · obtain ⟨i, -, hne⟩ := ha
      exact absurd (by rw [hfat]) hne
    · rcases htracked.altered k hk ha with hin | hd
      · rw [hlist] at hin
        cases hin
      · exact hd
  | error e =>
    obtain ⟨ho, htracked, hlost⟩ := wp_error hsees hr
    exact ⟨nofun, fun k hk => ho.geometry ▸ ho.flushable.inTable k hk, ho.compact.short, fun hx => (htracked hx).altered, hlost⟩

end FileService
end InferenceOS
