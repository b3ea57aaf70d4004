import InferenceOS.Theorems.Mounting
import InferenceOS.Theorems.Progress

/-! Where a call may write. Every sector that a call of the file service puts into the cache, and every sector that it
    writes to the device, belongs to the allocation table or to an addressable cluster. -/

namespace InferenceOS
open Program Function
variable {α : Type} {component : UInt32}

def WritesIn (A : Nat → Prop) (events : List (DiskEvent Sector)) : Prop := ∀ n b, .write n b ∈ events → A n

/-- The device keeps its size, and it was written at sectors of `A` only. -/
structure BlockDevice.Wrote (A : Nat → Prop) (d d' : BlockDevice) : Prop where
  size : d'.logicalSectorSize = d.logicalSectorSize ∧ d'.sectorCount = d.sectorCount
  history : ∃ events, d'.history = d.history ++ events ∧ WritesIn A events

theorem BlockDevice.Wrote.refl {A : Nat → Prop} {d : BlockDevice} : d.Wrote A d :=
  ⟨⟨rfl, rfl⟩, [], (List.append_nil _).symm, fun _ _ h => by cases h⟩

theorem BlockDevice.Wrote.mono {A B : Nat → Prop} {d d' : BlockDevice} (h : d.Wrote A d') (hsub : ∀ n, A n → B n) : d.Wrote B d' := by
  obtain ⟨hsize, events, he, hw⟩ := h
  exact ⟨hsize, events, he, fun n b hm => hsub n (hw n b hm)⟩

namespace BlockCache
variable {A : Nat → Prop} {cache c c' : BlockCache} {n i : Nat}

/-- The cache has yet to write the sector. -/
def Unsaved (cache : BlockCache) (n : Nat) : Prop :=
  ∃ i, i < cache.entryCount ∧ ((cache.entries i).state = .dirty ∨ (cache.entries i).state = .error) ∧ (cache.entries i).sector = n

/-- The step brought no sectors into the cache but those of `A`, and it wrote no other sectors but those that
    already waited for a barrier. -/
structure Limits (A : Nat → Prop) (c c' : BlockCache) : Prop where
  entryCount : c'.entryCount = c.entryCount
  held : ∀ i n, c'.Holds i n → A n ∨ ∃ j, c.Holds j n
  unsaved : ∀ n, c'.Unsaved n → A n ∨ c.Unsaved n
  device : c.device.Wrote (fun n => A n ∨ c.Unsaved n) c'.device

instance : Std.Refl (Limits A) :=
  ⟨fun c => ⟨rfl, fun i _ h => Or.inr ⟨i, h⟩, fun _ h => Or.inr h, .refl⟩⟩

instance : IsTrans BlockCache (Limits A) := by
  refine ⟨fun _ d e h h' => ⟨h'.entryCount.trans h.entryCount, fun i n hn => ?_, fun n hn => ?_, ?_⟩⟩
  · rcases h'.held i n hn with ha | ⟨j, hj⟩
    · exact Or.inl ha
    · exact h.held j n hj
  · rcases h'.unsaved n hn with ha | hu
    · exact Or.inl ha
    · exact h.unsaved n hu
  · obtain ⟨hsize, events, he, hw⟩ := h.device
    obtain ⟨hsize', events', he', hw'⟩ := h'.device
    refine ⟨⟨hsize'.1.trans hsize.1, hsize'.2.trans hsize.2⟩, events ++ events', by rw [he', he, List.append_assoc], fun n b hm => ?_⟩
    rcases List.mem_append.mp hm with hm | hm
    · exact hw n b hm
    · rcases hw' n b hm with ha | hu
      · exact Or.inl ha
      · exact h.unsaved n hu

theorem limits_putEntry {entry : CacheEntry} {clock : Nat}
    (hheld : i < cache.entryCount → entry.state ≠ .empty → A entry.sector ∨ ∃ j, cache.Holds j entry.sector)
    (hunsaved : i < cache.entryCount → entry.state = .dirty ∨ entry.state = .error →
      A entry.sector ∨ cache.Unsaved entry.sector) :
    Limits A cache { cache.putEntry i entry with useClock := clock } := by
  refine ⟨rfl, ?_, ?_, .refl⟩
  · rintro j n ⟨hj, hs, rfl⟩
    by_cases hji : j = i
    · subst hji
      simp only [putEntry, update_self] at hs ⊢
      exact hheld hj hs
    · simp only [putEntry, update_of_ne hji] at hs ⊢
      exact Or.inr ⟨j, hj, hs, rfl⟩
  · rintro n ⟨j, hj, hs, rfl⟩
    by_cases hji : j = i
    · subst hji
      simp only [putEntry, update_self] at hs ⊢
      exact hunsaved hj hs
    · simp only [putEntry, update_of_ne hji] at hs ⊢
      exact Or.inr ⟨j, hj, hs, rfl⟩

theorem limits_put {entry : CacheEntry} {clock : Nat} (ha : A entry.sector) :
    Limits A cache { cache.putEntry i entry with useClock := clock } :=
  limits_putEntry (fun _ _ => Or.inl ha) fun _ _ => Or.inl ha

theorem limits_revise {entry : CacheEntry} {clock : Nat} (hs : entry.sector = (cache.entries i).sector)
    (he : entry.state ≠ .empty → (cache.entries i).state ≠ .empty)
    (hd : entry.state = .dirty ∨ entry.state = .error → (cache.entries i).state = .dirty ∨ (cache.entries i).state = .error) :
    Limits A cache { cache.putEntry i entry with useClock := clock } :=
  limits_putEntry (fun hi hne => Or.inr ⟨i, hi, he hne, hs.symm⟩) fun hi hx => Or.inr ⟨i, hi, hd hx, hs.symm⟩

theorem limits_drop : Limits A cache (cache.putEntry i .zero) :=
  limits_putEntry (fun _ hne => absurd rfl hne) fun _ hx => by rcases hx with hx | hx <;> cases hx

theorem modify_limits {f : BlockCache → BlockCache} (h : ∀ c, Limits A c (f c)) :
    Keeps (Limits A) (modify f : Program IosError BlockCache Unit) := h

theorem onDevice_limits {m : Program IosError BlockDevice α}
    (h : Keeps (BlockDevice.Wrote fun _ => False) m) : Keeps (Limits A) (onDevice m) := fun cache =>
  ⟨rfl, fun i _ h => Or.inr ⟨i, h⟩, fun _ h => Or.inr h, (h cache.device).mono fun _ => False.elim⟩

theorem readDevice_limits {first count : Nat} : Keeps (Limits A) (onDevice (BlockDevice.read first count)) := by
  refine onDevice_limits fun device => of_wp (P := device.Wrote fun _ => False) ?_
  simp only [BlockDevice.read, wp_bind, wp_get, wp_ofExcept]
  refine ⟨fun _ _ => ?_, fun _ _ => .refl⟩
  unfold wp BlockDevice.driverRead
  cases device.faults device.calls <;> exact ⟨⟨rfl, rfl⟩, [], (List.append_nil _).symm, fun _ _ h => by cases h⟩

theorem acquireEntry_limits {load : Bool} (ha : A n) : Keeps (Limits A) (acquireEntry n load) := by
  unfold acquireEntry
  refine keeps_get.bind fun cache => keeps_failIf.bind fun _ => ?_
  split
  · refine (modify_limits fun c => ?_).bind fun _ => keeps_pure
    exact limits_revise rfl id id
  · split
    · exact keeps_fail
    · refine (modify_limits fun c => limits_put ha).bind fun _ => keeps_ite (fun _ => ?_) fun _ => ?_
      · refine (modify_limits fun c => limits_put ha).bind fun _ => readDevice_limits.attempt.bind fun outcome => ?_
        split
        · exact (modify_limits fun c => limits_drop).bind fun _ => keeps_fail
        · exact (modify_limits fun c => limits_put ha).bind fun _ => keeps_pure
      · exact (modify_limits fun c => limits_put ha).bind fun _ => keeps_pure

theorem acquireEntry_sector {load : Bool} :
    wp (acquireEntry n load) (fun i c => (c.entries i).sector = n) (fun _ _ => True) cache := by
  unfold acquireEntry
  rw [wp_bind, wp_get, wp_bind, wp_failIf]
  refine ⟨fun _ => trivial, fun _ => ?_⟩
  rcases hf : cache.findEntry n with - | i
  · rcases hv : cache.selectVictim with - | i
    · trivial
    · cases load with
      | false => simp [putEntry]
      | true =>
        simp only [wp_bind, wp_modify, ↓reduceIte, wp_attempt, putEntry]
        exact wp_iff.mpr ⟨fun _ _ _ => by simp, fun _ _ _ => trivial⟩
  · simp [putEntry, (findEntry_eq_some hf).2.2]

theorem read_limits (ha : A n) : Keeps (Limits A) (read n) :=
  (acquireEntry_limits ha).bind fun _ => keeps_get.bind fun _ => keeps_pure

theorem write_limits {bytes : Sector} {generation : Nat} (ha : A n) : Keeps (Limits A) (write n bytes generation) := by
  refine keeps_get.bind fun _ => keeps_failIf.bind fun _ => keeps_failIf.bind fun _ => fun cache => ?_
  refine of_wp (P := Limits A cache) ?_
  rw [wp_bind]
  refine wp_mono (wp_and (acquireEntry_limits ha).wp acquireEntry_sector) (fun i c ⟨hc, hs⟩ => ?_) fun _ _ hc => hc.1
  exact IsTrans.trans _ _ _ hc (@limits_put A c i _ c.useClock (hs.symm ▸ ha))

theorem writeDevice_wrote {buffer : Nat → Sector} : Keeps (BlockDevice.Wrote (· = n)) (BlockDevice.write n 1 buffer) := by
  intro device
  have hone : ∀ b : Sector, WritesIn (· = n) [.write (n + 0) b] := fun b m b' hm => by
    cases List.mem_singleton.mp hm
    rfl
  refine of_wp (P := device.Wrote (· = n)) ?_
  simp only [BlockDevice.write, wp_bind, wp_get, wp_ofExcept, wp_failIf]
  refine ⟨fun _ _ => ⟨fun _ => .refl, fun _ => ?_⟩, fun _ _ => .refl⟩
  unfold wp BlockDevice.driverWrite
  cases device.faults device.calls with
  | some fault => exact ⟨⟨rfl, rfl⟩, [.write (n + 0) (fault.residue (n + 0))], rfl, hone _⟩
  | none => exact ⟨⟨rfl, rfl⟩, [.write (n + 0) (buffer 0)], rfl, hone _⟩

theorem limits_writeBack {bytes : Sector} (hi : i < cache.entryCount)
    (hu : (cache.entries i).state = .dirty ∨ (cache.entries i).state = .error) :
    wp (onDevice (BlockDevice.write (cache.entries i).sector 1 fun _ => bytes))
      (fun _ c => Limits A cache c ∧ c.entries = cache.entries) (fun _ c => Limits A cache c ∧ c.entries = cache.entries) cache := by
  have hstep : ∀ d : BlockDevice, cache.device.Wrote (· = (cache.entries i).sector) d → Limits A cache { cache with device := d } :=
    fun d hd => ⟨rfl, fun j n h => Or.inr ⟨j, h⟩, fun n h => Or.inr h, hd.mono fun n hn => Or.inr ⟨i, hi, hu, hn.symm⟩⟩
  unfold onDevice
  rw [wp_zoom]
  exact wp_mono writeDevice_wrote.wp (fun _ d hd => ⟨hstep d hd, rfl⟩) fun _ d hd => ⟨hstep d hd, rfl⟩

theorem writeBack_limits {target : Nat} : ∀ {l : List Nat} {first : Option IosError} {cache c : BlockCache},
    (∀ i ∈ l, i < c.entryCount) → Limits A cache c →
      wp (writeBack target l first) (fun _ d => Limits A cache d) (fun _ d => Limits A cache d) c
  | [], _, _, _, _, hc => hc
  | i :: rest, first, cache, c, hl, hc => by
    have hi : i < c.entryCount := hl i List.mem_cons_self
    have hrest : ∀ {d first}, Limits A c d →
        wp (writeBack target rest first) (fun _ d => Limits A cache d) (fun _ d => Limits A cache d) d := fun {d _} hd =>
      writeBack_limits (fun j hj => by rw [hd.entryCount]; exact hl j (List.mem_cons_of_mem _ hj)) (IsTrans.trans _ _ _ hc hd)
    unfold writeBack
    rw [wp_bind, wp_get]
    refine wp_ite.mpr ⟨fun hdue => ?_, fun _ => hrest (Std.Refl.refl c)⟩
    simp only [wp_bind, wp_modify, wp_attempt]
    let active : BlockCache := c.putEntry i { c.entries i with ioActive := true }
    have hactive : Limits A c active := limits_revise rfl id id
    have hentry : active.entries i = { c.entries i with ioActive := true } := update_self _ _ _
    have hwrite := @limits_writeBack A active i (c.entries i).bytes hi (by rw [hentry]; exact hdue.1)
    rw [hentry] at hwrite
    have hsettle : ∀ {d : BlockCache} {entry : CacheEntry}, Limits A active d → d.entries = active.entries →
        entry.sector = (c.entries i).sector → Limits A c (d.putEntry i entry) := fun {d entry} hd he hs => by
      have hdirty : (d.entries i).state = .dirty ∨ (d.entries i).state = .error := by
        rw [he, hentry]
        exact hdue.1
      refine IsTrans.trans _ _ _ (IsTrans.trans _ _ _ hactive hd) (limits_revise ?_ (fun _ hx => ?_) fun _ => hdirty)
      · rw [hs, he, hentry]
      · rcases hdirty with hy | hy <;> rw [hx] at hy <;> cases hy
    exact wp_mono hwrite (fun _ d ⟨hd, he⟩ => hrest (hsettle hd he rfl)) fun _ d ⟨hd, he⟩ => hrest (hsettle hd he rfl)

theorem flush_limits : Keeps (Limits A) (onDevice BlockDevice.flush) := by
  refine onDevice_limits fun device => of_wp (P := device.Wrote fun _ => False) ?_
  simp only [BlockDevice.flush, wp_bind, wp_get, wp_failIf]
  refine ⟨fun _ => .refl, fun _ => ?_⟩
  unfold wp BlockDevice.driverFlush
  cases device.faults device.calls with
  | some fault => exact ⟨⟨rfl, rfl⟩, [], (List.append_nil _).symm, fun _ _ h => by cases h⟩
  | none => exact ⟨⟨rfl, rfl⟩, [.flush], rfl, fun n b hm => by cases List.mem_singleton.mp hm⟩

theorem limits_states (hcount : c.entryCount = cache.entryCount) (hdev : c.device = cache.device) (hs : ∀ i, (c.entries i).sector = (cache.entries i).sector)
    (hn : ∀ i, (c.entries i).state ≠ .empty → (cache.entries i).state ≠ .empty)
    (hd : ∀ i, (c.entries i).state = .dirty ∨ (c.entries i).state = .error →
      (cache.entries i).state = .dirty ∨ (cache.entries i).state = .error) : Limits A cache c := by
  refine ⟨hcount, ?_, ?_, hdev ▸ .refl⟩
  · rintro i n ⟨hi, hne, hsec⟩
    exact Or.inr ⟨i, hcount ▸ hi, hn i hne, (hs i).symm.trans hsec⟩
  · rintro n ⟨i, hi, hx, hsec⟩
    exact Or.inr ⟨i, hcount ▸ hi, hd i hx, (hs i).symm.trans hsec⟩

theorem barrier_limits {target : Nat} : Keeps (Limits A) (barrier target) := by
  intro cache
  refine of_wp (P := Limits A cache) ?_
  unfold barrier
  rw [wp_bind, wp_get, wp_bind, wp_failIf]
  refine ⟨fun _ => Std.Refl.refl cache, fun _ => ?_⟩
  rw [wp_bind]
  refine wp_mono (writeBack_limits (fun i hi => List.mem_range.mp hi) (Std.Refl.refl cache)) (fun first c hc => ?_) fun _ _ hc => hc
  cases first with
  | some status => exact hc
  | none =>
    have hflush : wp (onDevice BlockDevice.flush) (fun _ d => Limits A c d) (fun _ d => Limits A c d) c := flush_limits.wp
    simp only [wp_bind, wp_attempt]
    refine wp_mono hflush (fun _ d hd => ?_) fun e d hd => ?_
    · refine IsTrans.trans _ _ _ (IsTrans.trans _ _ _ hc hd) (limits_states rfl rfl (fun i => ?_) (fun i hi => ?_) fun i hi => ?_)
      · simp only [settle]
        split <;> rfl
      · simp only [settle] at hi
        split at hi
        · rename_i hdue
          rcases hdue.2.1 with hx | hx <;> simp [hx]
        · exact hi
      · simp only [settle] at hi
        split at hi
        · rcases hi with hx | hx <;> cases hx
        · exact hi
    · refine IsTrans.trans _ _ _ (IsTrans.trans _ _ _ hc hd) (limits_states rfl rfl (fun i => ?_) (fun i hi => ?_) fun i hi => ?_)
      · simp only [spoil]
        split <;> rfl
      · simp only [spoil] at hi
        split at hi
        · rename_i hdue
          simp [hdue.2.1]
        · exact hi
      · simp only [spoil] at hi
        split at hi
        · rename_i hdue
          exact Or.inl hdue.2.1
        · exact hi

theorem advanceGeneration_limits : Keeps (Limits A) advanceGeneration := by
  refine keeps_get.bind fun _ => keeps_failIf.bind fun _ => (modify_limits fun c => ?_).bind fun _ => keeps_pure
  exact limits_states rfl rfl (fun _ => rfl) (fun _ h => h) fun _ h => h

end BlockCache

namespace Sync
variable {A : Nat → Prop} {n : Nat}

def Limits (A : Nat → Prop) (s t : Sync) : Prop := BlockCache.Limits A s.cache t.cache

instance : Std.Refl (Limits A) := ⟨fun s => Std.Refl.refl s.cache⟩

instance : IsTrans Sync (Limits A) := ⟨fun _ _ _ h h' => IsTrans.trans (r := BlockCache.Limits A) _ _ _ h h'⟩

theorem onCache_limits {m : Program IosError BlockCache α} (h : Keeps (BlockCache.Limits A) m) :
    Keeps (Limits A) (onCache m) := fun s => h s.cache

theorem note_limits {f : Sync → Sync} (h : ∀ s, f s = { s with
    generation := (f s).generation, durableGeneration := (f s).durableGeneration, dirtyComponents := (f s).dirtyComponents
    lastResult := (f s).lastResult }) : Keeps (Limits A) (modify f : Program IosError Sync Unit) := fun s => by
  show BlockCache.Limits A s.cache (f s).cache
  rw [h]
  exact Std.Refl.refl _

theorem writeSector_limits {bytes : Sector} (ha : A n) : Keeps (Limits A) (writeSector n bytes component) := by
  refine keeps_failIf.bind fun _ => keeps_get.bind fun _ => (onCache_limits (BlockCache.write_limits ha)).attempt.bind fun outcome => ?_
  cases outcome with
  | error _ => exact (note_limits fun _ => rfl).bind fun _ => keeps_fail
  | ok _ => exact note_limits fun _ => rfl

theorem barrier_limits : Keeps (Limits A) barrier := by
  refine keeps_get.bind fun _ => keeps_ite (fun _ => (note_limits fun _ => rfl).bind fun _ => keeps_fail) fun _ => ?_
  refine (onCache_limits BlockCache.barrier_limits).attempt.bind fun outcome => ?_
  cases outcome with
  | error _ => exact (note_limits fun _ => rfl).bind fun _ => keeps_fail
  | ok _ =>
    refine (note_limits fun _ => rfl).bind fun _ => (onCache_limits BlockCache.advanceGeneration_limits).attempt.bind fun outcome => ?_
    cases outcome with
    | error _ => exact (note_limits fun _ => rfl).bind fun _ => keeps_fail
    | ok _ => exact note_limits fun _ => rfl

end Sync

namespace FileService

structure Stores (R : FileService → FileService → Prop) : Prop extends Reads R where
  record : ∀ {d i : Nat} {r : Slot} {component : UInt32}, Keeps R (persistDirectorySlot d i r component)
  cluster : ∀ {c : Nat} {buffer : ClusterBytes} {component : UInt32}, Keeps R (writeCluster c buffer component)
  table : Keeps R persistFat
  barrier : Keeps R barrier

structure Writes (R : FileService → FileService → Prop) : Prop extends Stores R where
  reload : Keeps R loadFat
  allocation : ∀ {f : FileService → FileService}, (∀ s, f s = { s with
    fat := (f s).fat, chain := (f s).chain, oldChain := (f s).oldChain, dirtyFatSectors := (f s).dirtyFatSectors }) →
      Keeps R (modify f : Service Unit)

section Writes
variable {R : FileService → FileService → Prop} [Std.Refl R] [IsTrans FileService R]
variable {located : LocatedEntry} {name : Name} {parent : Nat} {bytes : Text} {append : Bool}

theorem persistCompanion_keeps (h : Stores R) {committed : Bool} : Keeps R (persistCompanion located name committed) :=
  keeps_ofExcept.bind fun _ => h.record

theorem commitPrimary_keeps (h : Stores R) {primary : Primary} : Keeps R (commitPrimary located primary) :=
  (persistCompanion_keeps h).bind fun _ => h.barrier.bind fun _ => h.table.bind fun _ => h.barrier.bind fun _ =>
    keeps_ofExcept.bind fun _ => h.record.bind fun _ => (persistCompanion_keeps h).bind fun _ => h.barrier

theorem deleteLocated_keeps (h : Stores R) : Keeps R (deleteLocated located) := by
  unfold deleteLocated
  refine keeps_ite (fun _ => ?_) fun _ => h.record.bind fun _ => h.barrier
  exact (persistCompanion_keeps h).bind fun _ => h.barrier.bind fun _ => h.record.bind fun _ => h.record.bind fun _ => h.barrier

theorem allocateChain_keeps (h : Writes R) {count : Nat} : Keeps R (allocateChain count) :=
  keeps_ite (fun _ => keeps_pure) fun _ => keeps_get.bind fun _ => keeps_ofExcept.bind fun _ => h.allocation fun _ => rfl

theorem releaseChain_keeps (h : Writes R) {firstCluster : Nat} : Keeps R (releaseChain firstCluster) :=
  keeps_ite (fun _ => keeps_pure) fun _ => keeps_get.bind fun _ => keeps_ofExcept.bind fun _ => keeps_ofExcept.bind fun _ =>
    (h.allocation fun _ => rfl).bind fun _ => h.table.bind fun _ => h.barrier

theorem mustBeAbsent_keeps {m : Service α} (h : Keeps R m) : Keeps R (mustBeAbsent m) := by
  refine h.attempt.bind fun outcome => ?_
  cases outcome with
  | ok _ => exact keeps_fail
  | error _ => exact keeps_failIf

theorem findDisplayBaseAmong_keeps (h : Reads R) {name : Name} {ignored : Option LocatedEntry} : ∀ {clusters : List Nat},
    Keeps R (findDisplayBaseAmong name ignored clusters)
  | [] => keeps_fail
  | _ :: _ => (loadDirectory_keeps h).bind fun _ => (scanLoadedDirectory_keeps h).bind fun _ =>
    keeps_ite (fun _ => keeps_pure) fun _ => findDisplayBaseAmong_keeps h

theorem findDisplayBaseInDirectory_keeps (h : Reads R) {d : Nat} {ignored : Option LocatedEntry} :
    Keeps R (findDisplayBaseInDirectory d name ignored) :=
  (directoryChain_keeps h).bind fun _ => findDisplayBaseAmong_keeps h

theorem fileSlotsAmong_keeps (h : Reads R) : ∀ {clusters : List Nat}, Keeps R (fileSlotsAmong clusters)
  | [] => keeps_fail
  | _ :: _ => by
    refine (loadDirectory_keeps h).bind fun _ => keeps_get.bind fun _ => ?_
    split
    · exact keeps_pure
    · exact keeps_ite (fun _ => fileSlotsAmong_keeps h) fun _ => keeps_fail

theorem findFileSlots_keeps (h : Reads R) {d : Nat} : Keeps R (findFileSlots d) :=
  (directoryChain_keeps h).bind fun _ => fileSlotsAmong_keeps h

theorem directorySlotAmong_keeps (h : Reads R) : ∀ {clusters : List Nat}, Keeps R (directorySlotAmong clusters)
  | [] => keeps_fail
  | _ :: _ => by
    refine (loadDirectory_keeps h).bind fun _ => keeps_get.bind fun _ => ?_
    split
    · exact keeps_pure
    · exact directorySlotAmong_keeps h

theorem findDirectorySlot_keeps (h : Reads R) {d : Nat} : Keeps R (findDirectorySlot d) :=
  (directoryChain_keeps h).bind fun _ => directorySlotAmong_keeps h

theorem createFileInDirectory_keeps (h : Stores R) : Keeps R (createFileInDirectory parent name) :=
  (mustBeAbsent_keeps (findDisplayBaseInDirectory_keeps h.toReads)).bind fun _ => (findFileSlots_keeps h.toReads).bind fun _ =>
    (commitPrimary_keeps h).bind fun _ => keeps_get.bind fun _ => keeps_pure

theorem saveCluster_keeps (h : Stores R) {oldSize index : Nat} : Keeps R (saveCluster bytes append oldSize index) := by
  unfold saveCluster
  refine (h.scratch fun _ => rfl).bind fun _ => keeps_get.bind fun _ => keeps_ite (fun _ => ?_) fun _ => ?_
  · exact h.readCluster.bind fun _ => (h.scratch fun _ => rfl).bind fun _ => (h.scratch fun _ => rfl).bind fun _ =>
      keeps_get.bind fun _ => h.cluster
  · exact (h.scratch fun _ => rfl).bind fun _ => keeps_get.bind fun _ => h.cluster

theorem saveStep_keeps (h : Writes R) {oldSize index : Nat} : Keeps R (saveStep bytes append oldSize index) := by
  refine (saveCluster_keeps h.toStores).attempt.bind fun outcome => ?_
  cases outcome with
  | ok _ => exact h.barrier
  | error _ => exact h.reload.attempt.bind fun _ => keeps_fail

theorem saveLocated_keeps (h : Writes R) : Keeps R (saveLocated located bytes append) :=
  checkRegular_keeps.bind fun _ => collectChain_keeps.bind fun _ => (h.scratch fun _ => rfl).bind fun _ => keeps_failIf.bind fun _ =>
    (h.allocation fun _ => rfl).bind fun _ => (allocateChain_keeps h).bind fun _ =>
      (keeps_each fun _ _ => saveStep_keeps h).bind fun _ => keeps_get.bind fun _ => (commitPrimary_keeps h.toStores).bind fun _ =>
        keeps_get.bind fun _ => releaseChain_keeps h

theorem saveContent_keeps (h : Writes R) {path : Option Text} {identity : Nat} :
    Keeps R (saveContent path identity bytes append) :=
  validateService_keeps.bind fun _ => (select_keeps h.toReads).bind fun _ => saveLocated_keeps h

theorem renameLocated_keeps (h : Stores R) {source : LocatedEntry} : Keeps R (renameLocated source parent name) := by
  unfold renameLocated
  refine checkRegular_keeps.bind fun _ => (findInDirectory_keeps h.toReads).attempt.bind fun outcome => ?_
  cases outcome with
  | ok _ => exact keeps_failIf
  | error _ =>
    refine keeps_failIf.bind fun _ => (mustBeAbsent_keeps (findDisplayBaseInDirectory_keeps h.toReads)).bind fun _ =>
      keeps_ite (fun _ => ?_) fun _ => ?_
    · exact (persistCompanion_keeps h).bind fun _ => h.barrier.bind fun _ => commitPrimary_keeps h
    · exact (findFileSlots_keeps h.toReads).bind fun _ => (commitPrimary_keeps h).bind fun _ => deleteLocated_keeps h

theorem removeLocatedFile_keeps (h : Writes R) : Keeps R (removeLocatedFile located) :=
  checkRegular_keeps.bind fun _ => (deleteLocated_keeps h.toStores).bind fun _ => releaseChain_keeps h

theorem createDirectory_keeps (h : Writes R) {component : Text} : Keeps R (createDirectory parent component) := by
  unfold createDirectory
  refine keeps_get.bind fun _ => keeps_failIf.bind fun _ => validateService_keeps.bind fun _ => keeps_ofExcept.bind fun _ =>
    (mustBeAbsent_keeps (findDisplayBaseInDirectory_keeps h.toReads)).bind fun _ => (findDirectorySlot_keeps h.toReads).bind fun _ =>
      (h.allocation fun _ => rfl).bind fun _ => (allocateChain_keeps h).bind fun _ => keeps_get.bind fun _ =>
        (h.scratch fun _ => rfl).bind fun _ => h.cluster.attempt.bind fun outcome => ?_
  cases outcome with
  | error _ => exact h.reload.attempt.bind fun _ => keeps_fail
  | ok _ =>
    exact h.barrier.bind fun _ => h.table.bind fun _ => h.barrier.bind fun _ => keeps_ofExcept.bind fun _ => h.record.bind fun _ =>
      h.barrier.bind fun _ => keeps_pure

theorem emptyAmong_keeps (h : Reads R) : ∀ {clusters : List Nat}, Keeps R (emptyAmong clusters)
  | [] => keeps_pure
  | _ :: _ => (loadDirectory_keeps h).bind fun _ => (scanLoadedDirectory_keeps h).bind fun _ =>
    keeps_ite (fun _ => keeps_pure) fun _ => emptyAmong_keeps h

theorem removeDirectory_keeps (h : Writes R) {component : Text} : Keeps R (removeDirectory parent component) :=
  keeps_get.bind fun _ => keeps_failIf.bind fun _ => validateService_keeps.bind fun _ => keeps_ofExcept.bind fun _ =>
    (findInDirectory_keeps h.toReads).bind fun _ => keeps_failIf.bind fun _ =>
      ((directoryChain_keeps h.toReads).bind fun _ => emptyAmong_keeps h.toReads).bind fun _ => keeps_failIf.bind fun _ =>
        (deleteLocated_keeps h.toStores).bind fun _ => releaseChain_keeps h

theorem vfsRename_keeps (h : Stores R) {parent' : Nat} {component component' : Text} :
    Keeps R (vfsRename parent component parent' component') := by
  unfold vfsRename
  refine keeps_get.bind fun _ => keeps_failIf.bind fun _ => validateService_keeps.bind fun _ => keeps_ofExcept.bind fun _ =>
    keeps_ofExcept.bind fun _ => (findInDirectory_keeps h.toReads).bind fun found =>
      (mustBeAbsent_keeps (findInDirectory_keeps h.toReads)).bind fun _ =>
        (mustBeAbsent_keeps (findDisplayBaseInDirectory_keeps h.toReads)).bind fun _ => keeps_ite (fun _ => ?_) fun _ => ?_
  · refine keeps_ite (fun _ => commitPrimary_keeps h) fun _ => ?_
    exact (findFileSlots_keeps h.toReads).bind fun _ => (commitPrimary_keeps h).bind fun _ => deleteLocated_keeps h
  · refine keeps_ofExcept.bind fun _ => keeps_ite (fun _ => h.record.bind fun _ => h.barrier) fun _ => ?_
    exact (findDirectorySlot_keeps h.toReads).bind fun _ => h.record.bind fun _ => h.barrier.bind fun _ => h.record.bind fun _ =>
      h.barrier.bind fun _ => deleteLocated_keeps h

def KeepsTable : Request → Prop
  | .create _ | .createFile _ _ | .rename _ _ | .renameObject _ _ _ | .vfsRename _ _ _ _ => True
  | _ => False

theorem request_stores (h : Stores R) {r : Request} (hr : KeepsTable r) : Keeps R r.run := by
  cases r with
  | create path =>
    exact (validateService_keeps.bind fun _ => (resolveParent_keeps h.toReads).bind fun _ =>
      (createFileInDirectory_keeps h).bind fun _ => keeps_pure).map
  | createFile parent component =>
    exact (validateService_keeps.bind fun _ => keeps_get.bind fun _ => keeps_failIf.bind fun _ => keeps_ofExcept.bind fun _ =>
      createFileInDirectory_keeps h).map
  | rename source destination =>
    exact (validateService_keeps.bind fun _ => ((resolveParent_keeps h.toReads).bind fun _ => findInDirectory_keeps h.toReads).bind fun _ =>
      (resolveParent_keeps h.toReads).bind fun _ => renameLocated_keeps h).map
  | renameObject identity parent base =>
    exact (validateService_keeps.bind fun _ => keeps_get.bind fun _ => keeps_failIf.bind fun _ => keeps_failIf.bind fun _ =>
      (locateFileObject_keeps h.toReads).bind fun _ => keeps_ofExcept.bind fun _ => keeps_failIf.bind fun _ => renameLocated_keeps h).map
  | vfsRename parent component parent' component' => exact (vfsRename_keeps h).map
  | _ => exact hr.elim

theorem request_keeps (h : Writes R) (r : Request) : Keeps R r.run := by
  cases r with
  | replace path bytes => exact (saveContent_keeps h).map
  | append path bytes => exact (saveContent_keeps h).map
  | replaceObject identity bytes => exact (saveContent_keeps h).map
  | appendObject identity bytes => exact (saveContent_keeps h).map
  | remove path =>
    exact (validateService_keeps.bind fun _ => ((resolveParent_keeps h.toReads).bind fun _ => findInDirectory_keeps h.toReads).bind fun _ =>
      removeLocatedFile_keeps h).map
  | removeObject identity =>
    exact (validateService_keeps.bind fun _ => (locateFileObject_keeps h.toReads).bind fun _ => removeLocatedFile_keeps h).map
  | createDirectory parent component => exact (createDirectory_keeps h).map
  | removeDirectory parent component => exact (removeDirectory_keeps h).map
  | _ => exact request_stores h.toStores trivial

end Writes

/-- The sectors of the table and of the clusters. -/
def Contained (g : Geometry) (n : Nat) : Prop :=
  (superblockSectors ≤ n ∧ n < superblockSectors + g.fatSectors) ∨
    ∃ c k, Fat.validCluster c (g.clusterCount + 2) ∧ k < 8 ∧ n = clusterSector g c + k

/-- The service works on a volume of the geometry, and its table is no longer than the volume has clusters. -/
structure Sited (g : Geometry) (s : FileService) : Prop where
  geometry : s.mount.geometry = g
  entries : s.fatEntryCount ≤ g.clusterCount + 2

def Contains (g : Geometry) (s t : FileService) : Prop := Sited g s → Sited g t ∧ Sync.Limits (Contained g) s.sync t.sync

section Contains
variable {g : Geometry} {s : FileService} {c n : Nat}

instance : Std.Refl (Contains g) := ⟨fun _ h => ⟨h, Std.Refl.refl _⟩⟩

instance : IsTrans FileService (Contains g) := by
  refine ⟨fun s t u h h' hs => ?_⟩
  obtain ⟨ht, hl⟩ := h hs
  obtain ⟨hu, hl'⟩ := h' ht
  exact ⟨hu, IsTrans.trans _ _ _ hl hl'⟩

theorem modify_contains {f : FileService → FileService} (h : ∀ s, f s = { f s with
    mount := s.mount, fatEntryCount := s.fatEntryCount, sync := s.sync }) : Keeps (Contains g) (modify f : Service Unit) := fun s hs => by
  show Sited g (f s) ∧ Sync.Limits _ s.sync (f s).sync
  rw [h]
  exact ⟨⟨hs.geometry, hs.entries⟩, Std.Refl.refl _⟩

theorem onSync_contains {m : Program IosError Sync α} (h : Keeps (Sync.Limits (Contained g)) m) :
    Keeps (Contains g) (onSync m) := fun s hs => ⟨⟨hs.geometry, hs.entries⟩, h s.sync⟩

theorem get_contains {f : FileService → Service α} (h : ∀ s, Sited g s → Keeps (Contains g) (f s)) :
    Keeps (Contains g) (get >>= f) := fun s hs => h s hs s hs

theorem cacheRead_contains (hn : Contained g n) : Keeps (Contains g) (cacheRead n) :=
  onSync_contains (Sync.onCache_limits (BlockCache.read_limits hn))

theorem readSectors_contains {first : Nat} : ∀ {count : Nat}, (∀ k, k < count → Contained g (first + k)) →
    Keeps (Contains g) (readSectors first count)
  | 0, _ => keeps_pure
  | count + 1, hn => (readSectors_contains fun k hk => hn k (by omega)).bind fun _ =>
    (cacheRead_contains (hn count (by omega))).bind fun _ => keeps_pure

theorem Sited.valid (hg : g.Laid) (hs : Sited g s) (hc : s.validDirectoryCluster c) : Fat.validCluster c (g.clusterCount + 2) := by
  have := hs.entries
  have := hg.clusters
  unfold validDirectoryCluster at hc
  exact ⟨hc.1, by omega, by omega⟩

theorem readCluster_contains (hg : g.Laid) : Keeps (Contains g) (readCluster c) := by
  refine get_contains fun s hs => ?_
  by_cases hv : s.validDirectoryCluster c
  · rw [failIf_pass (not_not.mpr hv), hs.geometry]
    exact (readSectors_contains fun k hk => Or.inr ⟨c, k, hs.valid hg hv, hk, rfl⟩).bind fun _ => keeps_pure
  · rw [failIf_bind hv]
    exact keeps_fail

theorem loadFat_contains : Keeps (Contains g) loadFat := by
  refine get_contains fun s hs => ?_
  rw [hs.geometry]
  refine (keeps_each fun k hk => ?_).bind fun _ => modify_contains fun _ => rfl
  have hk := List.mem_range.mp hk
  exact (cacheRead_contains (Or.inl ⟨by omega, by omega⟩)).bind fun _ => modify_contains fun _ => rfl

theorem writeCluster_contains (hg : g.Laid) {buffer : ClusterBytes} : Keeps (Contains g) (writeCluster c buffer component) := by
  refine get_contains fun s hs => ?_
  by_cases hv : s.validDirectoryCluster c
  · rw [failIf_pass (not_not.mpr hv), hs.geometry]
    refine keeps_each fun k hk => onSync_contains (Sync.writeSector_limits ?_)
    exact Or.inr ⟨c, k, hs.valid hg hv, List.mem_range.mp hk, rfl⟩
  · rw [failIf_bind hv]
    exact keeps_fail

theorem persistFat_contains : Keeps (Contains g) persistFat := by
  refine keeps_get.bind fun _ => (keeps_each fun k _ => ?_).bind fun _ => modify_contains fun _ => rfl
  refine get_contains fun s hs => ?_
  by_cases hk : s.mount.geometry.fatSectors ≤ k
  · rw [failIf_bind hk]
    exact keeps_fail
  · rw [failIf_pass hk]
    rw [hs.geometry] at hk
    exact onSync_contains (Sync.writeSector_limits (Or.inl ⟨by omega, by omega⟩))

theorem reads_contains (hg : g.Laid) : Reads (Contains g) where
  scratch h := modify_contains fun s => by rw [h]
  readCluster := readCluster_contains hg

theorem persistDirectorySlot_contains (hg : g.Laid) {i : Nat} {r : Slot} :
    Keeps (Contains g) (persistDirectorySlot c i r component) := by
  by_cases hi : directorySlots ≤ i
  · unfold persistDirectorySlot
    rw [failIf_bind hi]
    exact keeps_fail
  intro s hs
  unfold persistDirectorySlot
  rw [failIf_pass hi]
  by_cases hv : s.validDirectoryCluster c
  · refine ((loadDirectory_keeps (reads_contains hg)).bind fun _ => (modify_contains fun _ => rfl).bind fun _ => ?_) s hs
    refine get_contains fun t ht => onSync_contains (Sync.writeSector_limits ?_)
    rw [ht.geometry]
    unfold directorySlots at hi
    exact Or.inr ⟨c, i / 16, hs.valid hg hv, by omega, rfl⟩
  · have hstop : loadDirectory c s = (.error .corrupt, s) := bind_error (readCluster_stop hv)
    rw [bind_error hstop]
    exact Std.Refl.refl (r := Contains g) s hs

theorem barrier_contains : Keeps (Contains g) barrier := by
  refine (onSync_contains Sync.barrier_limits).attempt.bind fun outcome => ?_
  cases outcome with
  | error _ => exact (modify_contains fun _ => rfl).bind fun _ => keeps_fail
  | ok _ => exact keeps_pure

theorem writes_contains (hg : g.Laid) : Writes (Contains g) where
  toReads := reads_contains hg
  record := persistDirectorySlot_contains hg
  cluster := writeCluster_contains hg
  table := persistFat_contains
  barrier := barrier_contains
  reload := loadFat_contains
  allocation h := modify_contains fun s => by rw [h]

theorem initialize_contains {storageSize : Nat} : Keeps (Contains g) (fileServiceInitialize storageSize) := by
  refine get_contains fun s hs => ?_
  rw [hs.geometry]
  refine keeps_failIf.bind fun _ => keeps_failIf.bind fun _ => Keeps.bind (fun t ht => ?_) fun _ => loadFat_contains.bind fun _ =>
    keeps_get.bind fun _ => keeps_failIf.bind fun _ => modify_contains fun _ => rfl
  exact ⟨⟨ht.geometry, le_rfl⟩, Std.Refl.refl _⟩

theorem call_contains (hg : g.Laid) (call : Call) : Keeps (Contains g) call.run := by
  cases call with
  | start storageSize => exact initialize_contains
  | request r => exact (request_keeps (writes_contains hg) r).map
  | query q => exact query_keeps (reads_contains hg)

/-- `cluster_sector` in the arithmetic of the source: 32 bits for clusters and 64 bits for sectors. -/
def clusterSectorWrapped (g : Geometry) (c : Nat) : Nat :=
  (g.dataStartSector + (c + 2 ^ 32 - 2) % 2 ^ 32 * sectorsPerCluster % 2 ^ 64) % 2 ^ 64

/-- `record_location` in the arithmetic of the source. -/
def recordLocationWrapped (g : Geometry) (c slot : Nat) : Nat :=
  ((clusterSectorWrapped g c + slot / 16) * 512 % 2 ^ 64 + slot % 16 * 32) % 2 ^ 64

theorem clusterSectorWrapped_eq (hg : g.Laid) (hc : Fat.validCluster c (g.clusterCount + 2)) :
    clusterSectorWrapped g c = clusterSector g c ∧ clusterSector g c < 2 ^ 40 := by
  have hdata := hg.data
  have hsectors := hg.sectors
  obtain ⟨h₁, -, h₂⟩ := hc
  unfold clusterSectorWrapped clusterSector superblockSectors registrySectors sectorsPerCluster maxDataCluster at *
  omega

theorem recordLocationWrapped_eq (hg : g.Laid) (hc : Fat.validCluster c (g.clusterCount + 2)) {slot : Nat} (hs : slot < 128) :
    recordLocationWrapped g c slot = recordLocation g c slot ∧ recordLocation g c slot < fileObjectBit := by
  obtain ⟨heq, hlt⟩ := clusterSectorWrapped_eq hg hc
  unfold recordLocationWrapped recordLocation fileObjectBit
  rw [heq]
  omega

theorem Contained.place {device : BlockDevice} (hg : FsMount.Derived device g) (hn : Contained g n) :
    superblockSectors ≤ n ∧ (n < g.registryStartSector ∨ g.dataStartSector ≤ n) ∧
      n < g.dataStartSector + g.clusterCount * sectorsPerCluster ∧ n < device.sectorCount := by
  obtain ⟨hlaid, htotal, -, -, -, hreg, -⟩ := calculateGeometry_eq hg
  have hdata := hlaid.data
  have hfit := hlaid.total
  rw [hreg]
  rcases hn with ⟨h₁, h₂⟩ | ⟨c, k, ⟨h₁, h₂, -⟩, hk, rfl⟩
  · omega
  · unfold clusterSector sectorsPerCluster at *
    omega

end Contains

/-- The states of a service on the volume, from its empty memory through any calls. -/
inductive CallRun (g : Geometry) : FileService → Prop where
  | zeroed {state : MountState} {sync : Sync} {fatStorage : Nat → Nat} : CallRun g (.blank ⟨g, state⟩ sync fatStorage)
  | called {s t : FileService} {call : Call} {r : Except IosError Unit} : CallRun g s → call.run s = (r, t) → CallRun g t

theorem CallRun.sited (hg : g.Laid) (h : CallRun g s) : Sited g s := by
  induction h with
  | zeroed => exact ⟨rfl, Nat.zero_le _⟩
  | called _ hr ih => exact ((call_contains hg _).run hr ih).1

/-- Write containment. A call on a volume with the geometry of its device brings no sectors into the cache and
    writes none to the device but those of the allocation table and of addressable clusters, except that its
    barriers also write what waited in the cache before. The numbers of these sectors neither wrap nor leave
    the device. -/
theorem call_contained {s t : FileService} {r : Except IosError Unit} (call : Call)
    (hg : FsMount.Derived s.device s.mount.geometry) (hrun : CallRun s.mount.geometry s) (hr : call.run s = (r, t)) :
    (∃ events, t.device.history = s.device.history ++ events ∧
      WritesIn (fun n => Contained s.mount.geometry n ∨ s.sync.cache.Unsaved n) events) ∧
    (∀ n, t.sync.cache.Unsaved n → Contained s.mount.geometry n ∨ s.sync.cache.Unsaved n) ∧
    (∀ i n, t.sync.cache.Holds i n → Contained s.mount.geometry n ∨ ∃ j, s.sync.cache.Holds j n) ∧
    (∀ n, Contained s.mount.geometry n → superblockSectors ≤ n ∧
      (n < s.mount.geometry.registryStartSector ∨ s.mount.geometry.dataStartSector ≤ n) ∧
      n < s.mount.geometry.dataStartSector + s.mount.geometry.clusterCount * sectorsPerCluster ∧ n < s.device.sectorCount) ∧
    ∀ c, s.validDirectoryCluster c → c / fatEntriesPerSector < s.mount.geometry.fatSectors ∧
      clusterSectorWrapped s.mount.geometry c = clusterSector s.mount.geometry c ∧
      (∀ k, k < sectorsPerCluster → Contained s.mount.geometry (clusterSector s.mount.geometry c + k)) ∧
      ∀ slot, slot < directorySlots → recordLocationWrapped s.mount.geometry c slot = recordLocation s.mount.geometry c slot ∧
        recordLocation s.mount.geometry c slot < fileObjectBit := by
  obtain ⟨hlaid, -⟩ := calculateGeometry_eq hg
  have hs := hrun.sited hlaid
  obtain ⟨-, hlimits⟩ := (call_contains hlaid call).run hr hs
  refine ⟨hlimits.device.history, hlimits.unsaved, hlimits.held, fun n hn => hn.place hg, fun c hc => ?_⟩
  have hv := hs.valid hlaid hc
  have htable := hlaid.table
  refine ⟨?_, (clusterSectorWrapped_eq hlaid hv).1, fun k hk => Or.inr ⟨c, k, hv, hk, rfl⟩, fun slot hslot =>
    recordLocationWrapped_eq hlaid hv hslot⟩
  have := hv.2.1
  unfold fatEntriesPerSector
  omega

theorem Opened.callRun (h : Opened s) : CallRun s.mount.geometry s ∧ FsMount.Derived s.device s.mount.geometry := by
  obtain ⟨hf, hcache, hi⟩ := h
  obtain ⟨hg, superblock, -, hover⟩ := wp_ok format_spec hf
  rename_i device formatted _ _ g _ _ cache storage
  obtain ⟨hlaid, -⟩ := calculateGeometry_eq hg
  have hcontains := (call_contains hlaid (.start _)).run hi ⟨rfl, Nat.zero_le _⟩
  have hderived : FsMount.Derived s.device g := by
    obtain ⟨hsector, hcount⟩ := hcontains.2.device.size
    obtain ⟨-, -, hdevice, -⟩ := BlockCache.Coherent.initial hcache
    unfold FsMount.Derived
    rw [show s.device = s.sync.cache.device from rfl, hsector, hcount]
    show calculateGeometry cache.device.logicalSectorSize cache.device.sectorCount = _
    rw [hdevice, hover.logicalSectorSize, hover.sectorCount]
    exact hg
  rw [hcontains.1.geometry]
  exact ⟨CallRun.called .zeroed (show Call.run (.start _) _ = _ from hi), hderived⟩

/-- The call writes the allocation table and the root directory, and nothing outside of the table and the clusters. -/
theorem call_contained_replaced : ∃ (s t : FileService) (c : Nat), CallRun s.mount.geometry s ∧
    (Call.request (.replace (some samplePath) [ascii 'X'])).run s = (.ok (), t) ∧
    s.disk.fat c = Fat.free ∧ t.disk.fat c ≠ Fat.free ∧ s.disk.data rootCluster ≠ t.disk.data rootCluster ∧
    (∃ events, t.device.history = s.device.history ++ events ∧
      WritesIn (fun n => Contained s.mount.geometry n ∨ s.sync.cache.Unsaved n) events) ∧
    ∀ n, t.sync.cache.Unsaved n → Contained s.mount.geometry n ∨ s.sync.cache.Unsaved n := by
  obtain ⟨s, t, u, k, c, h, -⟩ := exists_written [ascii 'X'] ⟨by decide, by decide⟩
  obtain ⟨hopened, hderived⟩ := h.opened.callRun
  have hcreate : (Call.request (.create (some samplePath))).run s = (.ok (), t) := bind_ok h.created.run
  have hreplace : (Call.request (.replace (some samplePath) [ascii 'X'])).run t = (.ok (), u) := bind_ok h.replaced.run
  obtain ⟨hlaid, -⟩ := calculateGeometry_eq hderived
  have hcontains := (call_contains hlaid _).run hcreate (hopened.sited hlaid)
  have hgeometry := hcontains.1.geometry
  have hsize : FsMount.Derived t.device s.mount.geometry := by
    obtain ⟨hsector, hcount⟩ := hcontains.2.device.size
    unfold FsMount.Derived
    rwa [show t.device = t.sync.cache.device from rfl, hsector, hcount]
  have hrun : CallRun t.mount.geometry t := hgeometry ▸ .called hopened hcreate
  obtain ⟨hevents, hunsaved, -⟩ := call_contained _ (hgeometry ▸ hsize) hrun hreplace
  have hc := h.full.toConsistent
  have he := h.empty.toConsistent
  obtain ⟨hv, hused⟩ := hc.describes.owned.used h.owns
  refine ⟨t, u, c, hrun, hreplace, ?_, hused, fun hsame => ?_, hevents, hunsaved⟩
  · by_contra hbefore
    rw [hc.mounted.entries, h.mount, ← he.mounted.entries] at hv
    rcases he.describes.owned.owner hv hbefore with hdir | ⟨d, i, -, -, hchain, -⟩
    · exact hc.describes.owned.apart h.owns hdir
    · unfold createdTree Tree.setPair emptyTree at hchain
      dsimp only at hchain
      split at hchain <;> cases hchain
  · have hslots := (directoryScan_eq (he.describes.shows (d := rootCluster) rfl) (he.describes.tidy rfl)).symm.trans
      ((congrArg (fun data => directoryScan (slotAt data) directorySlots directorySlots directorySlots) hsame).trans
        (directoryScan_eq (hc.describes.shows (d := rootCluster) rfl) (hc.describes.tidy rfl)))
    have hnew : EntryOf ((createdTree k).items rootCluster) (fileEntry (newFile sampleName) (k + 1)) :=
      .file h.slot (by rw [createdTree, Tree.setPair_items, if_pos ⟨rfl, rfl⟩])
    have hold : EntryOf ((writtenTree [ascii 'X'] k c).items rootCluster) (fileEntry (newFile sampleName) (k + 1)) :=
      entryOf_mem (Except.ok.inj hslots ▸ hnew.mem) (fun hx => by cases hx)
    cases hold with
    | file _ hitem =>
      rw [writtenTree, Tree.setPair_items, if_pos ⟨rfl, rfl⟩] at hitem
      cases hitem

end FileService
end InferenceOS
