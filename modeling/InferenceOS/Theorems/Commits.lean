import InferenceOS.Theorems.ServiceSteps
import InferenceOS.Theorems.RecordCodec

/-! The ordered writes of the file service. A mutation takes the volume through a list of disks, one for
    each barrier; a call that stops on the way has completed the first of them. -/

namespace InferenceOS
open Program
variable {m : Service Unit}

namespace Disk

/-- The disk after `commit_primary`: the committed companion of a name and its primary record. -/
def committed (D : Disk) (d slot companionSlot : Nat) (p : Primary) : Disk :=
  (D.record d slot (primaryBytes p)).record d companionSlot (companionRecord true p.name)

section Committed
variable {D : Disk} {d e k i j : Nat} {p : Primary}

theorem committed_data (he : e ≠ d) : (D.committed d i k p).data e = D.data e := by
  rw [committed, record_data he, record_data he]

theorem committed_slot (hk : k < 128) (hi : i < 128) : FileService.slotAt ((D.committed d i k p).data e) j =
    if e = d ∧ j = k then companionRecord true p.name
    else if e = d ∧ j = i then primaryBytes p else FileService.slotAt (D.data e) j := by
  rw [committed, record_slot hk, record_slot hi]

end Committed

end Disk

namespace FileService
variable {s t u : FileService} {v : View} {k n b : Nat} {D : Disk} {Ds Es : List Disk}
variable {s' : FileService}

/-- Barriers completed at the disks `Ds`. -/
def Went (s t : FileService) (Ds : List Disk) : Prop :=
  ∃ vs, Advanced s t vs ∧ vs.map (diskOf s.mount.geometry) = Ds

def Cut (s t : FileService) (Ds : List Disk) : Prop :=
  s.device.Healthy → ∃ vs, Reached s t vs ∧ vs.map (diskOf s.mount.geometry) <+: Ds

theorem getLastD_map {α β : Type} {f : α → β} {a : α} : ∀ {l : List α}, (l.map f).getLastD (f a) = f (l.getLastD a)
  | [] => rfl
  | c :: l => by rw [List.map_cons, List.getLastD_cons, List.getLastD_cons, getLastD_map]

theorem Went.disk (h : Went s t Ds) : t.disk = Ds.getLastD s.disk := by
  obtain ⟨vs, ha, rfl⟩ := h
  rw [FileService.disk, FileService.disk, getLastD_map, ha.mount, ha.view]

theorem Went.mount (h : Went s t Ds) : t.mount = s.mount := by
  obtain ⟨vs, ha, -⟩ := h
  exact ha.mount

theorem Went.mounted (h : Went s t Ds) (hm : s.Mounted) : t.Mounted := by
  obtain ⟨vs, ha, -⟩ := h
  exact ha.mounted hm

theorem Went.able (h : Went s t Ds) (ha : s.Able (Ds.length + b) k) : t.Able b k := by
  obtain ⟨vs, hv, rfl⟩ := h
  rw [List.length_map] at ha
  exact hv.able ha

theorem Went.trans (h : Went s t Ds) (h' : Went t u Es) : Went s u (Ds ++ Es) := by
  obtain ⟨vs, hv, rfl⟩ := h
  obtain ⟨ws, hw, rfl⟩ := h'
  exact ⟨vs ++ ws, hv.trans hw, by rw [List.map_append, hv.mount]⟩

theorem Cut.after (h : Went s t Ds) (h' : Cut t u Es) : Cut s u (Ds ++ Es) := fun hd => by
  obtain ⟨vs, hv, rfl⟩ := h
  obtain ⟨ws, hw, hp⟩ := h' (hv.healthy hd)
  refine ⟨vs ++ ws, hv.reached.trans hw hv.contents, ?_⟩
  rw [List.map_append, List.prefix_append_right_inj, ← hv.mount]
  exact hp

theorem Cut.mono (h : Cut s t Ds) (hp : Ds <+: Es) : Cut s t Es := fun hd => by
  obtain ⟨vs, hv, hvs⟩ := h hd
  exact ⟨vs, hv, hvs.trans hp⟩

theorem Wrote.cut (h : Wrote s t v k) : Cut s t Ds := fun _ =>
  ⟨[], ⟨[], by rw [h.history, List.append_nil], .nil⟩, List.nil_prefix⟩

theorem Cut.source (h : Cut s' t Ds) (hs : s'.sync = s.sync) (hm : s'.mount = s.mount) : Cut s t Ds := by
  unfold Cut Reached device at h ⊢
  rwa [hs, hm] at h

theorem Able.source (h : s.Able b k) (hs : s'.sync = s.sync) : s'.Able b k := by
  refine ⟨⟨?_, ?_, ?_⟩, ?_, ?_⟩
  · rw [device, hs]
    exact h.fit.healthy
  · rw [hs]
    exact h.fit.unpinned
  · rw [hs]
    exact h.fit.pending
  · rw [hs]
    exact h.space
  · rw [hs]
    exact h.generations

theorem Able.mono {b' k' : Nat} (h : s.Able b k) (hb : b' ≤ b) (hk : k' ≤ k) : s.Able b' k' :=
  ⟨h.fit, hk.trans h.space, lt_of_le_of_lt (by omega) h.generations⟩

theorem Went.source (h : Went s' t Ds) (hs : s'.sync = s.sync) (hm : s'.mount = s.mount)
    (hn : s'.fatEntryCount = s.fatEntryCount) (hi : s'.initialized = s.initialized) : Went s t Ds := by
  obtain ⟨vs, ha, hvs⟩ := h
  obtain ⟨mount, sync, fat, n, chain, oldChain, dirty, directory, cluster, entries, initialized⟩ := s'
  subst hs hm hn hi
  exact ⟨vs, ⟨ha.mount, ha.fatEntryCount, ha.initialized, ha.inStep, ha.view, ha.contents, ha.reached, ha.status, ha.faults,
    ha.sectorCount, ha.entryCount, ha.generation, fun hf => ha.fit ⟨hf.healthy, hf.unpinned, hf.pending⟩⟩, hvs⟩

def Goes {α : Type} (m : Service α) (s : FileService) (Ds : List Disk) (k : Nat) (R : α → FileService → Prop) : Prop :=
  wp m (fun a t => Went s t Ds ∧ R a t) (fun _ t => Cut s t Ds ∧ ¬s.Able Ds.length k) s

section Goes
variable {α β : Type} {R : α → FileService → Prop} {R' : β → FileService → Prop}

theorem Goes.bind {m : Service α} {f : α → Service β} (h : Goes m s Ds k R)
    (h' : ∀ a t, Went s t Ds → R a t → Goes (f a) t Es k R') : Goes (m >>= f) s (Ds ++ Es) k R' := by
  unfold Goes
  rw [wp_bind]
  refine wp_mono h (fun a t ⟨hw, hr⟩ => ?_) fun e t ⟨hc, ha⟩ => ?_
  · refine wp_mono (h' a t hw hr) (fun b u ⟨hu, hr'⟩ => ⟨hw.trans hu, hr'⟩) fun e u ⟨hc, ha⟩ => ?_
    exact ⟨hc.after hw, fun hx => ha (hw.able (by rwa [List.length_append] at hx))⟩
  · exact ⟨hc.mono (List.prefix_append _ _), fun hx => ha (hx.mono (by simp) le_rfl)⟩

theorem Goes.mono {m : Service α} {k' : Nat} {R' : α → FileService → Prop} (h : Goes m s Ds k R) (hk : k ≤ k')
    (hR : ∀ a t, Went s t Ds → R a t → R' a t) : Goes m s Ds k' R' :=
  wp_mono h (fun a t ⟨hw, hr⟩ => ⟨hw, hR a t hw hr⟩) fun _ _ ⟨hc, ha⟩ => ⟨hc, fun hx => ha (hx.mono le_rfl hk)⟩

theorem Went.refl (h : s.Mounted) : Went s s [] :=
  ⟨[], ⟨rfl, rfl, rfl, h.inStep, rfl, rfl, ⟨[], by simp, .nil⟩, rfl, rfl, rfl, rfl, rfl, id⟩, rfl⟩

theorem goes_pure (h : s.Mounted) {a : α} (hR : R a s) : Goes (pure a) s [] k R := ⟨Went.refl h, hR⟩

theorem goes_group {R : FileService → Prop} (h : s.Mounted)
    (hm : wp m (fun _ t => ∃ v, Wrote s t v k ∧ diskOf s.mount.geometry v = D ∧ R t)
      (fun _ t => Cut s t [] ∧ ¬s.Room k) s)
    (hR : ∀ t sync, R t → R { t with sync }) : Goes (m >>= fun _ => barrier) s [D] k (fun _ => R) := by
  unfold Goes
  rw [wp_bind]
  refine wp_mono hm (fun _ t ⟨v, hw, hD, hr⟩ => ?_) fun e t ⟨hc, hr⟩ =>
    ⟨hc.mono List.nil_prefix, fun hx => hr hx.room⟩
  refine wp_mono (barrier_spec (hw.mounted h)) (fun _ u ⟨ha, hf, hu⟩ => ?_) fun e u ⟨_, _, _, hh⟩ => ?_
  · refine ⟨⟨[v], ?_, by rw [List.map_singleton, hD]⟩, by rw [hu]; exact hR t _ hr⟩
    obtain ⟨events, he, ht⟩ := ha.reached
    rw [hw.view] at ht
    refine ⟨ha.mount.trans hw.mount, ha.fatEntryCount.trans hw.fatEntryCount, ha.initialized.trans hw.initialized,
      ha.inStep, by rw [ha.view, hw.view]; rfl, by rw [ha.contents, hw.view]; rfl,
      ⟨events, by rw [he, hw.history], by rwa [← hw.contents]⟩, ha.status.trans hw.status, ha.faults.trans hw.faults,
      ha.sectorCount.trans hw.sectorCount, ha.entryCount.trans hw.entryCount,
      by rw [ha.generation, hw.generation]; rfl, fun hs => ?_⟩
    obtain ⟨Q, -, hq⟩ := hw.fit [] hs
    exact hf Q hq
  · refine ⟨fun hd => ?_, fun hable => ?_⟩
    · obtain ⟨-, hu⟩ := hh (hw.healthy.mpr hd)
      exact ⟨[], ⟨[], by rw [hu, hw.history, List.append_nil], .nil⟩, List.nil_prefix⟩
    · obtain ⟨hg, -⟩ := hh (hw.healthy.mpr hable.fit.healthy)
      have := hable.generations
      have := hw.generation
      simp only [List.length_singleton] at *
      omega

theorem Goes.group_bind {f : Unit → Service β} {R : Unit → FileService → Prop}
    (h : Goes (m >>= fun _ => barrier) s Ds k R) (h' : ∀ t, Went s t Ds → R () t → Goes (f ()) t Es k R') :
    Goes (m >>= fun _ => barrier >>= f) s (Ds ++ Es) k R' := by
  rw [← bind_assoc]
  exact h.bind fun _ t hw hr => h' t hw hr

end Goes

/-- The table in memory fits its fields and differs from the one on the disk in dirty sectors only. -/
structure Loaded (s : FileService) : Prop where
  bounded : s.Bounded
  inTable : ∀ k ∈ s.dirtyFatSectors, k < s.mount.geometry.fatSectors
  agrees : ∀ i, i / 128 ∉ s.dirtyFatSectors → tableOf s.mount.geometry s.fat i = s.disk.fat i

/-- The entries in memory fit their fields, and the dirty sectors lie in the table. -/
structure Flushable (s : FileService) : Prop where
  bounded : s.Bounded
  inTable : ∀ k ∈ s.dirtyFatSectors, k < s.mount.geometry.fatSectors

def flushedTable (s : FileService) (i : Nat) : Nat :=
  if i / 128 ∈ s.dirtyFatSectors then tableOf s.mount.geometry s.fat i else s.disk.fat i

theorem Loaded.flushable (h : s.Loaded) : s.Flushable := ⟨h.bounded, h.inTable⟩

theorem Loaded.flushedTable_eq (h : s.Loaded) : s.flushedTable = tableOf s.mount.geometry s.fat := by
  funext i
  unfold flushedTable
  split
  · rfl
  · rename_i hi
    exact (h.agrees i hi).symm

theorem persistFlushed_spec (h : s.Mounted) (hf : s.Flushable) :
    wp persistFat
      (fun _ t => ∃ v, Wrote s t v s.dirtyFatSectors.length ∧ diskOf s.mount.geometry v = s.disk.table s.flushedTable ∧
        t = { s with sync := t.sync, dirtyFatSectors := [] })
      (fun _ t => Cut s t [] ∧ ¬s.Room s.dirtyFatSectors.length) s :=
  wp_mono (persistFat_spec h hf.bounded hf.inTable) (fun _ _ ⟨v, hw, ht, hv⟩ => ⟨v, hw, hv, ht⟩)
    fun _ _ ⟨⟨_, _, hw⟩, _, hr⟩ => ⟨hw.cut, hr⟩

theorem mem_foldl_markFatCluster : ∀ {l sectors : List Nat}, sectors.length + l.length ≤ maxDirtyFatSectors →
    (∀ k, k ∈ l.foldl markFatCluster sectors ↔ k ∈ sectors ∨ ∃ c ∈ l, c / 128 = k) ∧
      (l.foldl markFatCluster sectors).length ≤ sectors.length + l.length
  | [], sectors, _ => by simp
  | c :: l, sectors, h => by
    have hlen : (markFatCluster sectors c).length ≤ sectors.length + 1 := by
      unfold markFatCluster
      split
      · omega
      · split <;> simp
    have hmem : ∀ k, k ∈ markFatCluster sectors c ↔ k ∈ sectors ∨ c / 128 = k := by
      intro k
      unfold markFatCluster fatEntriesPerSector
      split
      · rename_i hc
        constructor
        · exact Or.inl
        · rintro (hk | rfl)
          · exact hk
          · exact hc
      · rw [if_pos (by simp at h; omega)]
        simp [eq_comm]
    rw [List.length_cons] at h
    obtain ⟨ih₁, ih₂⟩ := @mem_foldl_markFatCluster l (markFatCluster sectors c) (by omega)
    rw [List.foldl_cons, List.length_cons]
    refine ⟨fun k => ?_, by omega⟩
    rw [ih₁, hmem, or_assoc, List.exists_mem_cons_iff]

def KeptMemory (s t : FileService) : Prop := t = { s with sync := t.sync, directory := t.directory }

theorem KeptMemory.with_sync {sync : Sync} (h : KeptMemory s t) : KeptMemory s { t with sync } := by
  rw [KeptMemory, h]

theorem KeptMemory.trans (h : KeptMemory s t) (h' : KeptMemory t u) : KeptMemory s u := by
  rw [KeptMemory, h', h]

theorem Loaded.of_eq (h : s.Loaded) (hm : t.mount = s.mount) (hf : t.fat = s.fat)
    (hk : t.dirtyFatSectors = s.dirtyFatSectors) (hd : t.disk.fat = s.disk.fat) : t.Loaded :=
  ⟨by rw [Bounded, hm, hf]; exact h.bounded, by rw [hk, hm]; exact h.inTable, by rw [hk, hm, hf, hd]; exact h.agrees⟩

theorem persistSlot_spec (h : s.Mounted) {d i : Nat} (hd : Fat.validCluster d s.fatEntryCount) (hi : i < 128) (r : Slot)
    {component : UInt32} (hv : validComponent component) :
    wp (persistDirectorySlot d i r component)
      (fun _ t => ∃ v, Wrote s t v 1 ∧ diskOf s.mount.geometry v = s.disk.record d i r ∧ KeptMemory s t)
      (fun _ t => Cut s t [] ∧ ¬s.Room 1) s :=
  wp_mono (persistDirectorySlot_spec h hd hi hv) (fun _ _ ⟨v, hw, ht, hD⟩ => ⟨v, hw, hD, ht⟩)
    fun _ _ ⟨hw, _, hr⟩ => ⟨hw.cut, hr⟩

theorem persistCompanion_spec (h : s.Mounted) {located : LocatedEntry} {name : Name} {committed : Bool}
    (hd : Fat.validCluster located.directoryCluster s.fatEntryCount) (hi : located.companionSlot < 128)
    (hn : validStoredName name = true) :
    wp (persistCompanion located name committed)
      (fun _ t => ∃ v, Wrote s t v 1 ∧ diskOf s.mount.geometry v =
        s.disk.record located.directoryCluster located.companionSlot (companionRecord committed name) ∧ KeptMemory s t)
      (fun _ t => Cut s t [] ∧ ¬s.Room 1) s := by
  simp only [persistCompanion, wp_bind, wp_ofExcept, companionEncode_eq hn]
  refine ⟨fun r hr => ?_, fun e he => by cases he⟩
  cases hr
  exact persistSlot_spec h hd hi _ (by decide)

theorem Wrote.cut_after (h : Wrote s t v k) (h' : Cut t u []) : Cut s u [] := fun hd => by
  obtain ⟨vs, ⟨events, he, ht⟩, hp⟩ := h' (h.healthy.mpr hd)
  have hvs : vs = [] := by simpa using hp
  subst hvs
  cases ht
  exact ⟨[], ⟨[], by rw [he, h.history], .nil⟩, List.nil_prefix⟩

theorem wrote_bind {m' : Service Unit} {D E : Disk} (h : s.Mounted)
    (hm : wp m (fun _ t => ∃ v, Wrote s t v 1 ∧ diskOf s.mount.geometry v = D ∧ KeptMemory s t)
      (fun _ t => Cut s t [] ∧ ¬s.Room 1) s)
    (hm' : ∀ t, t.Mounted → t.disk = D → KeptMemory s t → wp m'
      (fun _ u => ∃ v, Wrote t u v 1 ∧ diskOf t.mount.geometry v = E ∧ KeptMemory t u)
      (fun _ u => Cut t u [] ∧ ¬t.Room 1) t) :
    wp (m >>= fun _ => m') (fun _ t => ∃ v, Wrote s t v 2 ∧ diskOf s.mount.geometry v = E ∧ KeptMemory s t)
      (fun _ t => Cut s t [] ∧ ¬s.Room 2) s := by
  rw [wp_bind]
  refine wp_mono hm (fun _ t ⟨v, hw, hD, hk⟩ => ?_) fun e t ⟨hc, hr⟩ => ⟨hc, fun hx => hr (hx.mono (by omega))⟩
  refine wp_mono (hm' t (hw.mounted h) (by rw [hw.disk, hD]) hk) (fun _ u ⟨w, hu, hE, hk'⟩ => ?_) fun e u ⟨hc, hr⟩ => ?_
  · exact ⟨w, hw.trans hu, by rw [← hw.mount, hE], hk.trans hk'⟩
  · exact ⟨hw.cut_after hc, fun hx => hr (hw.room hx)⟩

theorem goes_kept (h : s.Mounted) (hm : wp m (fun _ t => ∃ v, Wrote s t v k ∧ diskOf s.mount.geometry v = D ∧ KeptMemory s t)
      (fun _ t => Cut s t [] ∧ ¬s.Room k) s) : Goes (m >>= fun _ => barrier) s [D] k (fun _ => KeptMemory s) :=
  goes_group h hm fun _ _ hk => hk.with_sync

theorem commitPrimary_flushes (h : s.Mounted) (hf : s.Flushable) {located : LocatedEntry} {p : Primary}
    (hd : Fat.validCluster located.directoryCluster s.fatEntryCount) (hc : located.companionSlot < 128)
    (hi : located.primarySlot < 128) (hp : p.admissible = true) :
    let fenced := s.disk.record located.directoryCluster located.companionSlot (companionRecord false p.name)
    let persisted := fenced.table s.flushedTable
    Goes (commitPrimary located p) s
      [fenced, persisted, persisted.committed located.directoryCluster located.primarySlot located.companionSlot p]
      (max 2 s.dirtyFatSectors.length)
      fun _ t => t = { s with sync := t.sync, dirtyFatSectors := [], directory := t.directory } := by
  intro fenced persisted
  have hn := (Primary.admissible_iff.mp hp).1
  refine Goes.group_bind ((goes_kept h (persistCompanion_spec h hd hc hn)).mono (by omega) fun _ _ _ hr => hr)
    fun t₁ hw₁ hk₁ => ?_
  have hm₁ := hw₁.mounted h
  have hd₁ : t₁.disk = fenced := hw₁.disk
  have hmount₁ : t₁.mount = s.mount := by rw [hk₁]
  have hfat₁ : t₁.fat = s.fat := by rw [hk₁]
  have hdirty₁ : t₁.dirtyFatSectors = s.dirtyFatSectors := by rw [hk₁]
  have hf₁ : t₁.Flushable := by
    refine ⟨?_, ?_⟩
    · rw [Bounded, hmount₁, hfat₁]
      exact hf.bounded
    · rw [hdirty₁, hmount₁]
      exact hf.inTable
  have hflushed : t₁.flushedTable = s.flushedTable := by
    funext i
    rw [flushedTable, flushedTable, hdirty₁, hmount₁, hfat₁, hd₁]
    rfl
  have hn₁ : t₁.fatEntryCount = s.fatEntryCount := by rw [hk₁]
  have table : wp persistFat
      (fun _ t => ∃ v, Wrote t₁ t v s.dirtyFatSectors.length ∧ diskOf t₁.mount.geometry v = persisted ∧
        t = { t₁ with sync := t.sync, dirtyFatSectors := [] })
      (fun _ t => Cut t₁ t [] ∧ ¬t₁.Room s.dirtyFatSectors.length) t₁ := by
    rw [← hdirty₁]
    refine wp_mono (persistFlushed_spec hm₁ hf₁) (fun _ t hx => ?_) fun _ _ he => he
    obtain ⟨v, hw, hv, ht⟩ := hx
    refine ⟨v, hw, ?_, ht⟩
    rw [hv, hd₁, hflushed]
  have group := goes_group hm₁ table fun t sync ht => by rw [ht]
  refine Goes.group_bind (group.mono (le_max_right _ _) fun _ _ _ hr => hr) fun t₂ hw₂ hk₂ => ?_
  have hm₂ := hw₂.mounted hm₁
  have hd₂ : t₂.disk = persisted := hw₂.disk
  have hn₂ : t₂.fatEntryCount = s.fatEntryCount := by rw [hk₂, ← hn₁]
  have hd' : Fat.validCluster located.directoryCluster t₂.fatEntryCount := by
    rw [hn₂]
    exact hd
  -- The record and its companion become durable together.
  have pair := wrote_bind hm₂ (persistSlot_spec hm₂ hd' hi (primaryBytes p)
    (show validComponent DirtyComponent.primary by decide)) fun t hmt hdt hkt => by
      have hdt' : Fat.validCluster located.directoryCluster t.fatEntryCount := by
        rw [hkt]
        exact hd'
      have := @persistCompanion_spec t hmt located p.name true hdt' hc hn
      rwa [hdt] at this
  rw [hd₂] at pair
  have last := (goes_kept hm₂ pair).mono (le_max_left 2 s.dirtyFatSectors.length) fun _ t _ hr => by
    show t = { s with sync := t.sync, dirtyFatSectors := [], directory := t.directory }
    rw [hr, hk₂, hk₁]
  rw [bind_assoc] at last
  rw [primaryEncode_eq hp]
  exact last

theorem commitPrimary_goes (h : s.Mounted) (hl : s.Loaded) {located : LocatedEntry} {p : Primary}
    (hd : Fat.validCluster located.directoryCluster s.fatEntryCount) (hc : located.companionSlot < 128)
    (hi : located.primarySlot < 128) (hp : p.admissible = true) :
    let fenced := s.disk.record located.directoryCluster located.companionSlot (companionRecord false p.name)
    let persisted := fenced.table (tableOf s.mount.geometry s.fat)
    Goes (commitPrimary located p) s
      [fenced, persisted, persisted.committed located.directoryCluster located.primarySlot located.companionSlot p]
      (max 2 s.dirtyFatSectors.length)
      fun _ t => t = { s with sync := t.sync, dirtyFatSectors := [], directory := t.directory } := by
  rw [← hl.flushedTable_eq]
  exact commitPrimary_flushes h hl.flushable hd hc hi hp

def deletionStages (D : Disk) (located : LocatedEntry) : List Disk :=
  if located.hasCompanion then
    let fenced := D.record located.directoryCluster located.companionSlot (companionRecord false located.primary.name)
    [fenced, (fenced.record located.directoryCluster located.companionSlot deletedRecord).record
      located.directoryCluster located.primarySlot deletedRecord]
  else [D.record located.directoryCluster located.primarySlot deletedRecord]

theorem deleteLocated_goes (h : s.Mounted) {located : LocatedEntry}
    (hd : Fat.validCluster located.directoryCluster s.fatEntryCount) (hc : located.companionSlot < 128)
    (hi : located.primarySlot < 128) (hn : located.hasCompanion → validStoredName located.primary.name = true) :
    Goes (deleteLocated located) s (deletionStages s.disk located) 2 fun _ => KeptMemory s := by
  have hprimary : validComponent DirtyComponent.primary := by decide
  have hcompanion : validComponent DirtyComponent.companion := by decide
  unfold deleteLocated deletionStages
  split
  · rename_i hcomp
    have first := goes_kept h (@persistCompanion_spec s h located located.primary.name false hd hc (hn hcomp))
    refine Goes.group_bind (first.mono (by omega) fun _ _ _ hr => hr) fun t hw hk => ?_
    have hm := hw.mounted h
    have hd' : Fat.validCluster located.directoryCluster t.fatEntryCount := by
      rw [hk]
      exact hd
    have pair := wrote_bind hm (persistSlot_spec hm hd' hc deletedRecord hcompanion) fun u hmu hdu hku => by
      have hdu' : Fat.validCluster located.directoryCluster u.fatEntryCount := by
        rw [hku]
        exact hd'
      have := persistSlot_spec hmu hdu' hi deletedRecord hprimary
      rwa [hdu] at this
    rw [hw.disk] at pair
    rw [← bind_assoc]
    exact (goes_kept hm pair).mono le_rfl fun _ _ _ hr => hk.trans hr
  · exact (goes_kept h (persistSlot_spec h hd hi deletedRecord hprimary)).mono (by omega) fun _ _ _ hr => hr

theorem Mounted.entry_lt (h : s.Mounted) {c : Nat} (hc : Fat.validCluster c s.fatEntryCount) :
    c < s.mount.geometry.fatSectors * 128 := by
  have h₁ := h.laid.table
  have h₂ := h.entries
  have h₃ := hc.2.1
  omega

theorem Loaded.change (h : s.Mounted) (hl : s.Loaded) (hclean : s.dirtyFatSectors = []) {l : List Nat} {fat : Nat → Nat}
    (hv : ∀ c ∈ l, Fat.validCluster c s.fatEntryCount) (hlen : l.length ≤ maxClusters)
    (hsame : ∀ c, c ∉ l → fat c = s.fat c) (hbound : ∀ c ∈ l, fat c < 2 ^ 32) (htarget : t.fat = fat)
    (hdirty : t.dirtyFatSectors = l.foldl markFatCluster []) (hm : t.mount = s.mount) (hs : t.sync = s.sync) :
    t.Loaded ∧ t.dirtyFatSectors.length ≤ l.length := by
  have hmark := @mem_foldl_markFatCluster l [] (by unfold maxClusters at hlen; unfold maxDirtyFatSectors; simp; omega)
  have hdisk : t.disk = s.disk := by rw [disk, disk, view, view, hm, hs]
  rw [hdirty]
  refine ⟨⟨fun i hi => ?_, fun k hk => ?_, fun i hi => ?_⟩, by simpa using hmark.2⟩
  · rw [htarget]
    by_cases hil : i ∈ l
    · exact hbound i hil
    · rw [hsame i hil]
      rw [hm] at hi
      exact hl.bounded i hi
  · rw [hdirty, hmark.1] at hk
    obtain hk | ⟨c, hc, rfl⟩ := hk
    · cases hk
    · have := h.entry_lt (hv c hc)
      rw [hm]
      omega
  · rw [hdirty, hmark.1] at hi
    have hil : i ∉ l := fun hx => hi (Or.inr ⟨i, hx, rfl⟩)
    have hold := hl.agrees i (by simp [hclean])
    rw [hdisk, hm, ← hold, htarget]
    unfold tableOf
    rw [hsame i hil]

structure Reserved (s t : FileService) (count : Nat) (l : List Nat) : Prop where
  length : l.length = count
  nodup : l.Nodup
  valid : ∀ c ∈ l, Fat.validCluster c s.fatEntryCount
  wasFree : ∀ c ∈ l, s.fat c = Fat.free
  chain : 0 < count → Fat.Chain t.fat s.fatEntryCount (l.headD 0) l
  frame : ∀ c, c ∉ l → t.fat c = s.fat c
  workspace : 0 < count → t.chain = l
  memory : t = { s with fat := t.fat, chain := t.chain, dirtyFatSectors := t.dirtyFatSectors }
  loaded : t.Loaded
  dirty : t.dirtyFatSectors.length ≤ count

theorem allocateChain_spec (h : s.Mounted) (hl : s.Loaded) (hclean : s.dirtyFatSectors = []) {count : Nat}
    (hcount : count ≤ maxClusters) :
    wp (allocateChain count) (fun _ t => ∃ l, Reserved s t count l)
      (fun _ t => t = s ∧ ((List.range' 2 (s.fatEntryCount - 2)).filter fun c => s.fat c = Fat.free).length < count) s := by
  unfold allocateChain
  split
  · rename_i hz
    subst hz
    exact ⟨[], rfl, List.nodup_nil, by simp, by simp, by simp, fun _ _ => rfl, by simp, rfl, hl, by simp [hclean]⟩
  · rename_i hz
    simp only [wp_bind, wp_get, wp_ofExcept, wp_modify]
    refine ⟨fun r hr => ?_, fun e he => ⟨trivial, ?_⟩⟩
    · have ha := Fat.allocate_eq_ok hr
      have hlen : r.2.length ≤ maxClusters := by rw [ha.length]; exact hcount
      have hload := hl.change h hclean ha.valid hlen ha.frame ha.chain.entry_lt
        (t := { s with fat := r.1, chain := r.2, dirtyFatSectors := r.2.foldl markFatCluster s.dirtyFatSectors })
        rfl (by rw [← hclean]) rfl rfl
      exact ⟨r.2, ha.length, ha.nodup, ha.valid, ha.wasFree, fun _ => ha.chain, ha.frame, fun _ => rfl, rfl, hload.1,
        by rw [← ha.length]; exact hload.2⟩
    · by_contra hx
      obtain ⟨fat, l, hok⟩ := Fat.allocate_isOk h.validEntryCount (Nat.pos_of_ne_zero hz) hcount (Nat.not_lt.mp hx)
      rw [hok] at he
      cases he

def releaseStages (g : Geometry) (D : Disk) (fat : Nat → Nat) (l : List Nat) : List Disk :=
  if l = [] then [] else [D.table (tableOf g (Fat.clear fat l))]

/-- The state of `release_chain` before it writes the table. -/
def released (s : FileService) (l : List Nat) : FileService :=
  { s with fat := Fat.clear s.fat l, oldChain := l, dirtyFatSectors := l.foldl markFatCluster s.dirtyFatSectors }

theorem releaseChain_flushes (h : s.Mounted) {first : Nat} {l : List Nat} (hpos : 0 < first)
    (hchain : Fat.Chain s.fat s.fatEntryCount first l) (hlen : l.length ≤ maxClusters) (hf : (released s l).Flushable) :
    Goes (releaseChain first) s [s.disk.table (released s l).flushedTable] (released s l).dirtyFatSectors.length fun _ t =>
      t = { s with sync := t.sync, fat := Fat.clear s.fat l, oldChain := t.oldChain, dirtyFatSectors := [] } := by
  have htr : Fat.traverse s.fat s.fatEntryCount first maxClusters = .ok l :=
    Fat.traverse_eq_ok.mpr ⟨h.validEntryCount, by decide, hchain, hchain.nodup, hlen⟩
  have hrel := Fat.release_eq_ok htr
  have hmt : (released s l).Mounted := ⟨h.inStep, h.laid, h.entries, h.sectors⟩
  have group := goes_group hmt (persistFlushed_spec hmt hf) fun u sync hu => by rw [hu]
  have whole : Goes (persistFat >>= fun _ => barrier) (released s l) [s.disk.table (released s l).flushedTable]
      (released s l).dirtyFatSectors.length fun _ u => u =
        { s with sync := u.sync, fat := Fat.clear s.fat l, oldChain := u.oldChain, dirtyFatSectors := [] } := by
    refine Goes.mono group le_rfl fun _ u _ hu => ?_
    rw [hu]
    rfl
  unfold releaseChain
  rw [if_neg (by omega)]
  unfold Goes at whole ⊢
  simp only [wp_bind, wp_get, wp_ofExcept, htr, hrel, wp_modify] at whole ⊢
  refine ⟨fun a ha => ⟨fun r hr => ?_, fun e he => by cases he⟩, fun e he => by cases he⟩
  cases ha
  cases hr
  refine wp_mono whole (fun _ u hu => ?_) fun e u ⟨hc, ha⟩ => ?_
  · refine wp_mono hu (fun _ u ⟨hw, hu⟩ => ⟨hw.source rfl rfl rfl rfl, hu⟩) fun e u ⟨hc, ha⟩ => ?_
    exact ⟨hc.source rfl rfl, fun hx => ha (hx.source rfl)⟩
  · exact ⟨hc.source rfl rfl, fun hx => ha (hx.source rfl)⟩

theorem releaseChain_goes (h : s.Mounted) (hl : s.Loaded) (hclean : s.dirtyFatSectors = []) {first : Nat} {l : List Nat}
    (hfirst : (first = 0 ∧ l = []) ∨ (0 < first ∧ Fat.Chain s.fat s.fatEntryCount first l)) (hnd : l.Nodup)
    (hlen : l.length ≤ maxClusters) :
    Goes (releaseChain first) s (releaseStages s.mount.geometry s.disk s.fat l) l.length fun _ t =>
      t = { s with sync := t.sync, fat := Fat.clear s.fat l, oldChain := t.oldChain } := by
  unfold releaseStages
  rcases hfirst with ⟨rfl, rfl⟩ | ⟨hpos, hchain⟩
  · unfold releaseChain
    rw [if_pos rfl, if_pos rfl]
    exact goes_pure h rfl
  · rw [if_neg hchain.ne_nil]
    have hsame : ∀ c, c ∉ l → Fat.clear s.fat l c = s.fat c := fun c hc => by rw [Fat.clear_apply, if_neg hc]
    have hzero : ∀ c ∈ l, Fat.clear s.fat l c < 2 ^ 32 := fun c hc => by
      rw [Fat.clear_apply, if_pos hc]
      decide
    obtain ⟨hloaded, hdirty⟩ : (released s l).Loaded ∧ (released s l).dirtyFatSectors.length ≤ l.length :=
      hl.change h hclean hchain.valid hlen hsame hzero rfl (by rw [← hclean]; rfl) rfl rfl
    have hgoes := releaseChain_flushes h hpos hchain hlen hloaded.flushable
    rw [hloaded.flushedTable_eq] at hgoes
    refine hgoes.mono hdirty fun _ t _ ht => ?_
    rw [ht, hclean]

end FileService
end InferenceOS
