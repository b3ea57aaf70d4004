import InferenceOS.Theorems.Pairs
import InferenceOS.Theorems.Lookups
import InferenceOS.Theorems.Subtrees

/-! The mutations of the file service on a consistent volume. Each call has two parts: the searches, which
    either refuse it with nothing changed or fix its parameters, and the ordered writes, which take the
    volume through a list of disks. -/

namespace InferenceOS
open Program

namespace FileService
variable {α β : Type} {s t u : FileService} {T : Tree} {d k : Nat} {Ds : List Disk}
variable {m : Service α} {f : α → Service β} {a : α} {p : Primary} {D : Disk}
  {i slot : Nat} {fat : Nat → Nat} {name : Name} {located : LocatedEntry} {l : List Nat}

/-- A mounted service with its whole allocation table on the disk. -/
structure Settled (s : FileService) : Prop where
  mounted : s.Mounted
  loaded : s.Loaded
  clean : s.dirtyFatSectors = []

/-- A settled service that is ready for changes, and whose volume holds the tree. -/
structure Consistent (s : FileService) (T : Tree) : Prop extends Settled s where
  initialized : s.initialized = true
  writable : s.mount.state = .rw
  describes : Describes s.fatEntryCount s.disk T

theorem Settled.table (h : s.Settled) : tableOf s.mount.geometry s.fat = s.disk.fat :=
  funext fun i => h.loaded.agrees i (by simp [h.clean])

theorem Consistent.fat_eq (h : Consistent s T) {c : Nat} (hc : Fat.validCluster c s.fatEntryCount) :
    s.fat c = s.disk.fat c := by
  rw [← h.table, tableOf, if_pos (h.mounted.entry_lt hc)]

theorem Consistent.catalog (h : Consistent s T) : Catalog s T.dirs T.items := by
  refine ⟨h.describes.linked.root, fun {d} hd => ⟨h.describes.valid hd, ?_, h.describes.shows hd, h.describes.tidy hd⟩,
    fun {d i p} hd hi hp => (h.describes.linked.closed hd ⟨hi, p, hp, rfl⟩).1⟩
  rw [h.fat_eq (h.describes.valid hd)]
  exact h.describes.ends hd

theorem Consistent.directory (h : Consistent s T) (hd : T.dirs d) : DirectoryAt s d (T.items d) := h.catalog.directory hd

theorem Consistent.quiet (h : Consistent s T) (hq : Quiet s t) : Consistent t T := by
  have hdirty : t.dirtyFatSectors = s.dirtyFatSectors := by rw [hq.memory]
  refine ⟨⟨hq.mounted h.mounted, h.loaded.of_eq hq.mount hq.fat hdirty (by rw [hq.disk]), by rw [hdirty, h.clean]⟩, ?_, ?_, ?_⟩
  · rw [hq.wrote.initialized, h.initialized]
  · rw [hq.mount, h.writable]
  · rw [hq.fatEntryCount, hq.disk]
    exact h.describes

theorem Quiet.able {b : Nat} (h : Quiet s t) (ha : s.Able b k) : t.Able b k := by
  obtain ⟨Q, hQ, hq⟩ := h.wrote.fit [] ha.fit
  have hnil : Q = [] := List.length_eq_zero_iff.mp (by simpa using hQ)
  subst hnil
  exact ⟨hq, by rw [h.wrote.entryCount]; exact ha.space, by rw [h.wrote.generation]; exact ha.generations⟩

theorem Quiet.went (h : Quiet s t) (hw : Went t u Ds) : Went s u Ds := by
  obtain ⟨vs, ha, hvs⟩ := hw
  obtain ⟨events, he, ht⟩ := ha.reached
  have hwr := h.wrote
  refine ⟨vs, ⟨ha.mount.trans hwr.mount, ha.fatEntryCount.trans hwr.fatEntryCount, ha.initialized.trans hwr.initialized,
    ha.inStep, by rw [ha.view, hwr.view], by rw [ha.contents, hwr.contents],
    ⟨events, by rw [he, hwr.history], by rwa [← hwr.contents]⟩, ha.status.trans hwr.status, ha.faults.trans hwr.faults,
    ha.sectorCount.trans hwr.sectorCount, ha.entryCount.trans hwr.entryCount, by rw [ha.generation, hwr.generation],
    fun hf => ?_⟩, by rw [← hwr.mount, hvs]⟩
  obtain ⟨Q, hQ, hq⟩ := hwr.fit [] hf
  have hnil : Q = [] := List.length_eq_zero_iff.mp (by simpa using hQ)
  subst hnil
  exact ha.fit hq

theorem Quiet.cut (h : Quiet s t) (hc : Cut t u Ds) : Cut s u Ds := fun hd => by
  obtain ⟨vs, ⟨events, he, ht⟩, hp⟩ := hc (h.wrote.healthy.mpr hd)
  refine ⟨vs, ⟨events, by rw [he, h.wrote.history], by rwa [← h.wrote.contents]⟩, ?_⟩
  rwa [← h.wrote.mount]

theorem Yields.goes {R : β → FileService → Prop} (h : Yields m s (.ok a))
    (hk : 1 ≤ k) (hf : ∀ t, Quiet s t → Goes (f a) t Ds k R) : Goes (m >>= f) s Ds k R := by
  unfold Goes
  rw [wp_bind]
  refine wp_mono h (fun b t ⟨ht, hb⟩ => ?_) fun e t ⟨ht, he⟩ => ?_
  · cases hb
    refine wp_mono (hf t ht) (fun c u ⟨hw, hr⟩ => ⟨ht.went hw, hr⟩) fun e u ⟨hc, ha⟩ => ?_
    exact ⟨ht.cut hc, fun hx => ha (ht.able hx)⟩
  · rcases he with he | ⟨-, hr⟩
    · cases he
    · exact ⟨ht.wrote.cut, fun hx => hr (hx.mono le_rfl hk).room⟩

section Passes
variable {m : Service α} {f : α → Service β} {b c : Nat} {R : α → FileService → Prop} {R' : β → FileService → Prop}

/-- The call ends with `R` after at most `b` barriers of up to `k` sectors, unless these are not at hand. -/
def Passes (m : Service α) (s : FileService) (b k : Nat) (R : α → FileService → Prop) : Prop :=
  wp m (fun a t => (∃ Ds : List Disk, Ds.length ≤ b ∧ Went s t Ds) ∧ R a t) (fun _ _ => ¬s.Able b k) s

theorem Goes.passes (h : Goes m s Ds k R) (hb : Ds.length ≤ b) {j : Nat} (hk : k ≤ j) :
    Passes m s b j fun a t => Went s t Ds ∧ R a t :=
  wp_mono h (fun _ _ ⟨hw, hr⟩ => ⟨⟨Ds, hb, hw⟩, hw, hr⟩) fun _ _ ⟨_, ha⟩ hx => ha (hx.mono hb hk)

theorem Passes.bind (h : Passes m s b k R) (h' : ∀ a t, R a t → Passes (f a) t c k R') : Passes (m >>= f) s (b + c) k R' := by
  unfold Passes
  rw [wp_bind]
  refine wp_mono h (fun a t ⟨⟨Ds, hD, hw⟩, hr⟩ => ?_) fun e t ha hx => ha (hx.mono (Nat.le_add_right b c) le_rfl)
  refine wp_mono (h' a t hr) (fun b' u ⟨⟨Es, hE, hwu⟩, hr'⟩ => ?_) fun e u ha hx => ?_
  · exact ⟨⟨Ds ++ Es, by rw [List.length_append]; omega, hw.trans hwu⟩, hr'⟩
  · exact ha (hw.able (hx.mono (Nat.add_le_add_right hD c) le_rfl))

theorem passes_memory (hrun : m s = (.ok a, t)) (hs : t.sync = s.sync) (hm : t.mount = s.mount)
    (hn : t.fatEntryCount = s.fatEntryCount) (hi : t.initialized = s.initialized) (h : Passes (f a) t b k R') :
    Passes (m >>= f) s b k R' := by
  unfold Passes wp at h ⊢
  rw [bind_ok hrun]
  split at h
  · obtain ⟨⟨Ds, hD, hw⟩, hr⟩ := h
    exact ⟨⟨Ds, hD, hw.source hs hm hn hi⟩, hr⟩
  · exact fun hx => h (hx.source hs)

theorem Yields.passes (h : Yields m s (.ok a)) (hk : 1 ≤ k) (hf : ∀ t, Quiet s t → Passes (f a) t b k R') :
    Passes (m >>= f) s b k R' := by
  unfold Passes
  rw [wp_bind]
  refine wp_mono h (fun c t ⟨ht, hc⟩ => ?_) fun e t ⟨ht, he⟩ hx => ?_
  · cases hc
    refine wp_mono (hf t ht) (fun _ u ⟨⟨Ds, hD, hw⟩, hr⟩ => ⟨⟨Ds, hD, ht.went hw⟩, hr⟩) fun _ _ ha hx => ha (ht.able hx)
  · rcases he with he | ⟨-, hr⟩
    · cases he
    · exact hr (hx.mono le_rfl hk).room

theorem Passes.run (h : Passes m s b k R) (ha : s.Able b k) : ∃ a t, m s = (.ok a, t) ∧ R a t := by
  unfold Passes wp at h
  rcases hm : m s with ⟨e | a, t⟩
  · rw [hm] at h
    exact absurd ha h
  · rw [hm] at h
    exact ⟨a, t, rfl, h.2⟩

end Passes

theorem validateService_yields (h : Consistent s T) (mutation : Bool) : Yields (validateService mutation) s (.ok ()) := by
  unfold validateService
  refine (yields_get h.mounted).bind fun t ht => ?_
  have hm := ht.mounted h.mounted
  refine ((yields_failIf hm _ _).congr (if_neg (by simp [h.initialized]))).bind fun u hu => ?_
  exact (yields_failIf (hu.mounted hm) _ _).congr (if_neg (by simp [h.writable]))

/-- What a call does when its searches succeed: the disks of its barriers, the entries of the cache that it
    needs, the tree that it leaves and its result. -/
structure Plan (α : Type) where
  stages : List Disk
  room : Nat
  tree : Tree
  value : α

def Carries (K : Plan α → α → FileService → Prop) (m : Service α) (s : FileService) : Except IosError (Plan α) → Prop
  | .error e => Yields m s (.error e)
  | .ok plan => 1 ≤ plan.room ∧ Goes m s plan.stages plan.room (K plan)

abbrev Follows (m : Service α) (s : FileService) (r : Except IosError (Plan α)) : Prop :=
  Carries (fun plan a t => a = plan.value ∧ Consistent t plan.tree) m s r

variable {K : Plan β → β → FileService → Prop}

theorem Yields.follows {r : Except IosError (Plan β)} (h : Yields m s (.ok a)) (hm : s.Mounted)
    (hf : ∀ t, Quiet s t → Carries K (f a) t r) : Carries K (m >>= f) s r := by
  cases r with
  | error e => exact h.bind hf
  | ok plan =>
    have hk := (hf s (Quiet.refl hm)).1
    exact ⟨hk, h.goes hk fun t ht => (hf t ht).2⟩

theorem Yields.followsE {r : Except IosError α} {p : α → Except IosError (Plan β)} (h : Yields m s r) (hm : s.Mounted)
    (hf : ∀ a t, r = .ok a → Quiet s t → Carries K (f a) t (p a)) : Carries K (m >>= f) s (r >>= p) := by
  cases r with
  | ok a => exact h.follows hm fun t ht => hf a t rfl ht
  | error e => exact h.bind_error

theorem Yields.followsMap {γ : Type} {g : γ → α} {r : Except IosError γ}
    {p : γ → Except IosError (Plan β)} (h : Yields m s (r.map g))
    (hm : s.Mounted) (hf : ∀ a t, r = .ok a → Quiet s t → Carries K (f (g a)) t (p a)) : Carries K (m >>= f) s (r >>= p) := by
  cases r with
  | ok a => exact Yields.follows h hm fun t ht => hf a t rfl ht
  | error e => exact Yields.bind_error h

theorem yields_absent {c : Prop} [Decidable c] (h : Yields m s (if c then .ok a else .error .notFound)) :
    Yields (mustBeAbsent m) s (if c then .error .alreadyExists else .ok ()) := by
  refine (mustBeAbsent_yields h).congr ?_
  by_cases hc : c
  · rw [if_pos hc, if_pos hc, absent]
  · rw [if_neg hc, if_neg hc, absent, if_pos rfl]

theorem Goes.value {f : α → FileService → β} {R : α → FileService → Prop} {R' : β → FileService → Prop}
    (h : Goes m s Ds k R) (hR : ∀ a t, Went s t Ds → R a t → R' (f a t) t) :
    Goes (m >>= fun a => get >>= fun t => pure (f a t)) s Ds k R' := by
  unfold Goes
  rw [wp_bind]
  exact wp_mono h (fun a t ⟨hw, hr⟩ => ⟨hw, hR a t hw hr⟩) fun _ _ he => he

/-- Some record of the directory shows the base name of `name`. -/
def Taken (items : Nat → Item) (d : Nat) (name : Name) (ignored : Option LocatedEntry) : Prop :=
  (entriesOf items).any (fun entry => sameDisplayBase name ignored d entry) = true

instance (items : Nat → Item) (d : Nat) (name : Name) (ignored : Option LocatedEntry) :
    Decidable (Taken items d name ignored) := inferInstanceAs (Decidable (_ = _))

def commitStages (D : Disk) (d slot : Nat) (p : Primary) (fat : Nat → Nat) : List Disk :=
  let fenced := D.record d slot (companionRecord false p.name)
  [fenced, fenced.table fat, (fenced.table fat).committed d (slot + 1) slot p]

def newFile (name : Name) : Primary := { name, attributes := attributeRegular, firstCluster := 0, fileSize := 0 }

def createPlan (g : Geometry) (D : Disk) (T : Tree) (d : Nat) (name : Name) : Except IosError (Plan VfsObject) := do
  if Taken (T.items d) d name none then .error .alreadyExists
  let slot ← findPairSlots (slotAt (D.data d)) 128 128
  .ok
    { stages := commitStages D d slot (newFile name) D.fat
      room := 2
      tree := T.setPair d slot (.companion name) (.file (newFile name)) []
      value := ⟨fileIdentity g d (slot + 1), .regularFile⟩ }

theorem commitStages_last {E : Disk} : (commitStages D d slot p fat).getLastD E =
      ((D.record d slot (companionRecord false p.name)).table fat).committed d (slot + 1) slot p := rfl

theorem commitStages_fat {E : Disk} : ((commitStages D d slot p fat).getLastD E).fat = fat := rfl

theorem not_taken {items : Nat → Item} {ignored : Option LocatedEntry} (h : ¬Taken items d name ignored)
    {j : Nat} {q : Primary} (hj : j < 128) (hq : (items j).Named q)
    (hi : ∀ other ∈ ignored, ¬(other.directoryCluster = d ∧ other.primarySlot = j)) : q.name ≠ name := by
  intro hname
  obtain ⟨e, he, hk, rfl, rfl⟩ := mem_entriesOf_named hj hq
  refine h (List.any_eq_true.mpr ⟨e, he, decide_eq_true ⟨hk, by rw [hname], hi⟩⟩)

theorem Consistent.went {T' : Tree} (h : Consistent s T) (hw : Went s t Ds) (ht : t.Settled)
    (hD : Describes s.fatEntryCount (Ds.getLastD s.disk) T') : Consistent t T' := by
  have hdisk := hw.disk
  obtain ⟨vs, ha, -⟩ := hw
  refine ⟨ht, ha.initialized.trans h.initialized, by rw [ha.mount, h.writable], ?_⟩
  rw [hdisk, ha.fatEntryCount]
  exact hD

theorem Settled.kept (h : s.Settled) (hw : Went s t Ds)
    (ht : t = { s with sync := t.sync, dirtyFatSectors := [], directory := t.directory })
    (hfat : (Ds.getLastD s.disk).fat = s.disk.fat) : t.Settled := by
  have hm : t.mount = s.mount := by rw [ht]
  have hf : t.fat = s.fat := by rw [ht]
  refine ⟨hw.mounted h.mounted, ⟨?_, ?_, fun i _ => ?_⟩, by rw [ht]⟩
  · rw [Bounded, hm, hf]
    exact h.loaded.bounded
  · rw [ht]
    simp
  · rw [hm, hf, h.table, hw.disk, hfat]

theorem Settled.memory (h : s.Settled) (hk : KeptMemory s t) :
    t = { s with sync := t.sync, dirtyFatSectors := [], directory := t.directory } := by
  rw [← h.clean]
  exact hk

structure PairAt (located : LocatedEntry) (d k : Nat) : Prop where
  cluster : located.directoryCluster = d
  companion : located.companionSlot = k
  primary : located.primarySlot = k + 1
  paired : located.hasCompanion = true
  inRange : k + 1 < 128

theorem commitPrimary_kept (h : s.Settled) (hat : PairAt located d k)
    (hv : Fat.validCluster d s.fatEntryCount) (hp : p.admissible = true) :
    Goes (commitPrimary located p) s (commitStages s.disk d k p s.disk.fat) 2
      fun _ t => t = { s with sync := t.sync, dirtyFatSectors := [], directory := t.directory } := by
  obtain ⟨hdir, hs, hi, -, hk⟩ := hat
  have hgoes := @commitPrimary_goes s h.mounted h.loaded located p (hdir ▸ hv) (by omega) (by omega) hp
  rw [hdir, hs, hi, h.table, h.clean] at hgoes
  exact hgoes

theorem Consistent.pairSlots (h : Consistent s T) (hd : T.dirs d) :
    (∃ k, findPairSlots (slotAt (s.disk.data d)) 128 128 = .ok k ∧ (T.items d k).Free ∧ (T.items d (k + 1)).Free ∧
      Writable (T.items d) k) ∨ findPairSlots (slotAt (s.disk.data d)) 128 128 = .error .noSpace := by
  rcases findPairSlots_eq (h.describes.shows hd) (h.describes.tidy hd) with ⟨k, hk, hlt, h₁, h₂, hu⟩ | ⟨hk, -⟩
  · exact Or.inl ⟨k, hk, h₁, h₂, hlt, Or.inl h₁, Or.inl h₂, hu⟩
  · exact Or.inr hk

theorem freshPair_at (hk : k + 1 < 128) : PairAt (freshPair d k) d k := ⟨rfl, rfl, rfl, rfl, hk⟩

theorem newFile_sound (hn : validStoredName name = true) : (Item.file (newFile name)).Sound := by
  refine ⟨Primary.admissible_iff.mpr ⟨hn, ?_, Or.inl ⟨rfl, fun _ => rfl, fun hx => absurd rfl hx⟩⟩, ?_, rfl⟩
  · exact Nat.zero_le _
  · exact Nat.two_pow_pos 32

theorem create_follows (h : Consistent s T) (hd : T.dirs d) (hn : validStoredName name = true) :
    Follows (createFileInDirectory d name) s (createPlan s.mount.geometry s.disk T d name) := by
  have hm := h.mounted
  have hfree := yields_absent (findDisplayBase_yields hm (h.directory hd) name none)
  unfold createFileInDirectory createPlan
  by_cases htaken : Taken (T.items d) d name none
  · rw [if_pos htaken]
    exact (hfree.congr (if_pos htaken)).bind_error
  rw [if_neg htaken]
  refine (hfree.congr (if_neg htaken)).follows hm fun t ht => ?_
  have hslots := findFileSlots_yields (ht.mounted hm) ((h.quiet ht).directory hd)
  rw [ht.disk] at hslots
  rcases h.pairSlots hd with ⟨slot, hs, h₁, h₂, hw⟩ | hs
  · rw [hs] at hslots ⊢
    refine hslots.follows (ht.mounted hm) fun u hu => ⟨one_le_two, ?_⟩
    have hq := ht.trans hu
    have hc := h.quiet hq
    have hsound := newFile_sound hn
    have hgoes := commitPrimary_kept hc.toSettled (freshPair_at hw.inRange) (hc.describes.valid hd) hsound.1
    rw [hq.disk] at hgoes
    refine Goes.value hgoes fun _ v hv hvt => ⟨?_, ?_⟩
    · have hmount : v.mount = s.mount := by
        rw [hvt]
        exact hq.mount
      rw [hmount]
      rfl
    · refine hc.went hv (hc.toSettled.kept hv hvt (by rw [hq.disk]; rfl)) ?_
      have hnew : NewPair (T.items d) slot (.companion name) (.file (newFile name)) :=
        Or.inr ⟨newFile name, rfl, rfl, hsound, fun j q hj _ hnamed => not_taken htaken hj hnamed (by simp)⟩
      have hnone : ∀ c, T.Owns c d (slot + 1) ↔ c ∈ ([] : List Nat) := fun c =>
        ⟨fun ⟨_, _, _, p, hp⟩ => absurd hp (h₂.not_file p), fun hx => by cases hx⟩
      have hempty : Content s.disk.fat s.fatEntryCount (newFile name) [] :=
        ⟨Or.inl ⟨rfl, rfl⟩, List.nodup_nil, (by decide : 0 = (0 + clusterSize - 1) / clusterSize), Nat.zero_le _⟩
      rw [hq.disk, hq.fatEntryCount, commitStages_last]
      exact h.describes.commit hd hw hnew hnone (fun _ _ _ _ _ => rfl) hempty (by simp) (by simp) fun _ _ _ => rfl
  · rw [hs] at hslots ⊢
    exact hslots.bind_error

def eraseStages (D : Disk) (d k : Nat) (name : Name) : List Disk :=
  [D.record d k (companionRecord false name), D.erased d k (companionRecord false name)]

def releasedStages (D : Disk) (l : List Nat) : List Disk := if l = [] then [] else [D.table (Fat.clear D.fat l)]

theorem releasedStages_last : (releasedStages D l).getLastD D = D.table (Fat.clear D.fat l) := by
  unfold releasedStages
  split
  · rename_i h
    rw [h]
    rfl
  · rfl

theorem tableOf_clear {g : Geometry} : tableOf g (Fat.clear fat l) = Fat.clear (tableOf g fat) l := by
  funext i
  rw [Fat.clear_apply]
  unfold tableOf
  rw [Fat.clear_apply]
  split
  · rfl
  · split <;> rfl

theorem erasePair_goes (h : s.Mounted) (hat : PairAt located d k)
    (hv : Fat.validCluster d s.fatEntryCount) (hn : validStoredName located.primary.name = true) :
    Goes (deleteLocated located) s (eraseStages s.disk d k located.primary.name) 2 fun _ => KeptMemory s := by
  obtain ⟨hdir, hs, hi, hc, hk⟩ := hat
  have hgoes := @deleteLocated_goes s h located (hdir ▸ hv) (by omega) (by omega) fun _ => hn
  unfold deletionStages at hgoes
  rw [if_pos hc, hdir, hs, hi] at hgoes
  exact hgoes

theorem Consistent.content (h : Consistent s T) (hd : T.dirs d) (hi : i < 128)
    (hp : T.items d i = .file p) : Content s.fat s.fatEntryCount p (T.chain d i) := by
  have hc := h.describes.owned.content hd hi hp
  exact hc.frame fun c hl => h.fat_eq (hc.used c hl).1

theorem release_goes (h : s.Settled) {first : Nat}
    (hc : (first = 0 ∧ l = []) ∨ (0 < first ∧ Fat.Chain s.fat s.fatEntryCount first l)) (hnd : l.Nodup)
    (hlen : l.length ≤ maxClusters) : Goes (releaseChain first) s (releasedStages s.disk l) l.length fun _ t =>
      t = { s with sync := t.sync, fat := Fat.clear s.fat l, oldChain := t.oldChain } := by
  have hgoes := releaseChain_goes h.mounted h.loaded h.clean hc hnd hlen
  unfold releaseStages at hgoes
  rw [tableOf_clear, h.table] at hgoes
  exact hgoes

theorem Settled.released (h : s.Settled) (hw : Went s t (releasedStages s.disk l))
    (ht : t = { s with sync := t.sync, fat := Fat.clear s.fat l, oldChain := t.oldChain }) : t.Settled := by
  have hm : t.mount = s.mount := by rw [ht]
  have hf : t.fat = Fat.clear s.fat l := by rw [ht]
  have hd : t.dirtyFatSectors = [] := by
    rw [ht]
    exact h.clean
  refine ⟨hw.mounted h.mounted, ⟨fun i hi => ?_, by simp [hd], fun i _ => ?_⟩, hd⟩
  · rw [hm] at hi
    rw [hf, Fat.clear_apply]
    split
    · decide
    · exact h.loaded.bounded i hi
  · rw [hm, hf, hw.disk, releasedStages_last, tableOf_clear, h.table]
    rfl

theorem locatedIn_at (hpos : 0 < i) (hi : i < 128) : PairAt (locatedIn D d ⟨p, i, some (i - 1), .regular⟩) d (i - 1) :=
  ⟨rfl, rfl, (Nat.sub_add_cancel hpos).symm, rfl, by omega⟩

def removePlan (D : Disk) (T : Tree) (d : Nat) (entry : DirectoryEntry) : Except IosError (Plan Unit) := do
  if entry.kind ≠ .regular then .error .invalidArgument
  let k := entry.primarySlot - 1
  let l := T.chain d entry.primarySlot
  .ok
    { stages := eraseStages D d k entry.primary.name ++
        releasedStages (D.erased d k (companionRecord false entry.primary.name)) l
      room := max 2 l.length
      tree := T.setPair d k .deleted .deleted []
      value := () }

theorem removeLocatedFile_follows (h : Consistent s T) (hd : T.dirs d) {entry : DirectoryEntry}
    (he : EntryOf (T.items d) entry) :
    Follows (removeLocatedFile (locatedIn s.disk d entry)) s (removePlan s.disk T d entry) := by
  have hm := h.mounted
  have hcheck := checkRegular_yields hm (h.directory hd) he
  unfold removeLocatedFile removePlan
  cases he with
  | directory => exact (hcheck.congr (if_neg (by simp))).bind_error
  | @file i p hi hp =>
    rw [if_neg (by simp)]
    refine (hcheck.congr (if_pos rfl)).follows hm fun t ht => ⟨le_max_of_le_left one_le_two, ?_⟩
    obtain ⟨hpos, hw⟩ := (h.describes.tidy hd).writable hi hp
    have hsound := (h.describes.tidy hd).sound hi
    rw [hp] at hsound
    have hname := hsound.name (Or.inl rfl)
    have hk : i - 1 + 1 = i := by omega
    have hc := h.quiet ht
    have hm' := hc.mounted
    have hv := hc.describes.valid hd
    have herase : Goes (deleteLocated (locatedIn s.disk d ⟨p, i, some (i - 1), .regular⟩)) t
        (eraseStages s.disk d (i - 1) p.name) 2 fun _ => KeptMemory t := by
      rw [← ht.disk]
      exact erasePair_goes hc.mounted (locatedIn_at hpos hi) hv hname
    refine (herase.mono (le_max_left _ _) fun _ _ _ hr => hr).bind fun _ u hu hku => ?_
    have hsu := hc.toSettled.kept hu (hc.toSettled.memory hku) (by rw [ht.disk]; rfl)
    have hcontent : Content u.fat u.fatEntryCount p (T.chain d i) := by
      rw [hku]
      exact hc.content hd hi hp
    have hrel := release_goes hsu hcontent.chain hcontent.nodup hcontent.fits
    have hdu : u.disk = s.disk.erased d (i - 1) (companionRecord false p.name) := hu.disk
    rw [hdu] at hrel
    refine hrel.mono (le_max_right _ _) fun _ w hw' hwu => ⟨rfl, ?_⟩
    rw [← hdu] at hw'
    refine hc.went (hu.trans hw') (hsu.released hw' hwu) ?_
    rw [getLastD_append, ht.fatEntryCount, ← hu.disk, releasedStages_last, hdu]
    refine h.describes.erase hd hw fun c => ?_
    rw [hk]
    exact Tree.owns_file hd hi hp

def renamePlan (D : Disk) (T : Tree) (d : Nat) (entry : DirectoryEntry) (d' : Nat) (name : Name) :
    Except IosError (Plan Unit) := do
  if entry.kind ≠ .regular then .error .invalidArgument
  let k := entry.primarySlot - 1
  let q := { entry.primary with name }
  let l := T.chain d entry.primarySlot
  if (entryNamed (T.items d') name).isSome then
    if d = d' ∧ entry.primary.name = name then .ok { stages := [], room := 1, tree := T, value := () }
    else .error .alreadyExists
  else if Taken (T.items d') d' name (if d = d' then some (locatedIn D d entry) else none) then .error .alreadyExists
  else if d = d' then
    let fenced := D.record d k (companionRecord false entry.primary.name)
    .ok
      { stages := fenced :: commitStages fenced d k q D.fat
        room := 2
        tree := T.setPair d k (.companion name) (.file q) l
        value := () }
  else
    let slot ← findPairSlots (slotAt (D.data d')) 128 128
    let stages := commitStages D d' slot q D.fat
    .ok
      { stages := stages ++ eraseStages (stages.getLastD D) d k name
        room := 2
        tree := (T.setPair d' slot (.companion name) (.file q) l).setPair d k .deleted .deleted []
        value := () }

theorem entryNamed_none {items : Nat → Item} (h : entryNamed items name = none) {j : Nat} {q : Primary}
    (hj : j < 128) (hq : (items j).Named q) : q.name ≠ name := by
  rcases find_name items name with ⟨i, p, e, -, -, -, -, hf⟩ | ⟨hno, -⟩
  · rw [entryNamed, hf] at h
    cases h
  · exact hno j q hj hq

theorem Carries.of_eq {m' : Service α} {r : Except IosError (Plan α)} {K : Plan α → α → FileService → Prop}
    (h : Carries K m s r) (he : m' s = m s) : Carries K m' s r := by
  cases r with
  | error e =>
    unfold Carries Yields wp at *
    rwa [he]
  | ok plan =>
    unfold Carries Goes wp at *
    rwa [he]

theorem attempt_found {g : Except IosError α → Service β} (h : Yields m s (.ok a))
    (hg : ∀ e, e ≠ .notFound → g (.error e) = fail e) : (attempt m >>= g) s = (m >>= fun a => g (.ok a)) s := by
  unfold Yields wp at h
  rcases hr : m s with ⟨e | b, t⟩
  · rw [hr] at h
    obtain ⟨-, h | ⟨hne, -⟩⟩ := h
    · cases h
    · rw [bind_ok (attempt_eq hr), Program.bind_error hr, hg e hne]
      rfl
  · rw [bind_ok (attempt_eq hr), bind_ok hr]

theorem attempt_missing {g : Except IosError α → Service β} (h : Yields m s (.error .notFound))
    (hg : ∀ e, e ≠ .notFound → g (.error e) = fail e) :
    (attempt m >>= g) s = (mustBeAbsent m >>= fun _ => g (.error .notFound)) s := by
  unfold Yields wp at h
  rcases hr : m s with ⟨e | b, t⟩
  · rw [hr] at h
    unfold mustBeAbsent
    rw [bind_assoc, bind_ok (attempt_eq hr), bind_ok (attempt_eq hr)]
    obtain ⟨-, h | ⟨hne, -⟩⟩ := h
    · cases h
      rfl
    · rw [hg e hne]
      exact (congrFun (failIf_bind hne) t).symm
  · rw [hr] at h
    cases h.2

theorem Consistent.file_sound (h : Consistent s T) (hd : T.dirs d) (hi : i < 128)
    (hp : T.items d i = .file p) : (Item.file p).Sound := by
  have := (h.describes.tidy hd).sound hi
  rwa [hp] at this

theorem renameInPlace_goes (h : Consistent s T) (hd : T.dirs d) (hi : i < 128)
    (hp : T.items d i = .file p) (hn : validStoredName name = true)
    (hfresh : ∀ j q, j < 128 → j ≠ i → (T.items d j).Named q → q.name ≠ name)
    (hat : PairAt located d (i - 1)) :
    let fenced := s.disk.record d (i - 1) (companionRecord false p.name)
    Goes (persistCompanion located p.name false >>= fun _ => barrier >>= fun _ => commitPrimary located { p with name }) s
      (fenced :: commitStages fenced d (i - 1) { p with name } s.disk.fat) 2 fun _ t =>
        Consistent t (T.setPair d (i - 1) (.companion name) (.file { p with name }) (T.chain d i)) := by
  intro fenced
  have hsound := h.file_sound hd hi hp
  have hv := h.describes.valid hd
  obtain ⟨hpos, hw⟩ := (h.describes.tidy hd).writable hi hp
  have hfence := goes_kept h.mounted (@persistCompanion_spec s h.mounted located p.name false (by rwa [hat.cluster])
    (by rw [hat.companion]; omega) (hsound.name (Or.inl rfl)))
  rw [hat.cluster, hat.companion] at hfence
  refine Goes.group_bind (hfence.mono one_le_two fun _ _ _ hr => hr) fun t ht hkt => ?_
  have hdt : t.disk = fenced := ht.disk
  have hst := h.toSettled.kept ht (h.toSettled.memory hkt) rfl
  have hvt : Fat.validCluster d t.fatEntryCount := by
    rw [hkt]
    exact hv
  have hcommit := commitPrimary_kept hst hat hvt (renamed_sound hsound hn).1
  rw [hdt] at hcommit
  refine hcommit.mono le_rfl fun _ u hu hut => ?_
  refine h.went (ht.trans hu) (hst.kept hu hut (by rw [hdt, commitStages_fat, Disk.record_fat])) ?_
  have hsame : ∀ e j, T.dirs e → j < 128 → ¬(e = d ∧ j = i - 1) → slotAt (fenced.data e) j = slotAt (s.disk.data e) j :=
    fun e j _ _ hx => by rw [Disk.record_slot (by omega), if_neg hx]
  have := h.describes.renameFile (r := companionRecord false name) hd hi hp hn hfresh hsame
  rw [getLastD_append, commitStages_last, Nat.sub_add_cancel hpos]
  exact this

theorem relocate_goes (h : Consistent s T) (hd : T.dirs d) {d' : Nat} (hd' : T.dirs d') (hne : d ≠ d')
    (hi : i < 128) (hp : T.items d i = .file p) (hn : validStoredName name = true)
    (hfresh : ∀ j q, j < 128 → (T.items d' j).Named q → q.name ≠ name) (hw : Writable (T.items d') slot)
    (hfree : (T.items d' (slot + 1)).Free) (hat : PairAt located d (i - 1))
    (hname : located.primary.name = name) :
    let stages := commitStages s.disk d' slot { p with name } s.disk.fat
    Goes (commitPrimary (freshPair d' slot) { p with name } >>= fun _ => deleteLocated located) s
      (stages ++ eraseStages (stages.getLastD s.disk) d (i - 1) name) 2 fun _ t =>
        Consistent t ((T.setPair d' slot (.companion name) (.file { p with name }) (T.chain d i)).setPair d (i - 1)
          .deleted .deleted []) := by
  intro stages
  have hsound := h.file_sound hd hi hp
  have hcommit := commitPrimary_kept h.toSettled (freshPair_at hw.inRange) (h.describes.valid hd')
    (renamed_sound hsound hn).1
  refine hcommit.bind fun _ t ht hkt => ?_
  have hst := h.toSettled.kept ht hkt rfl
  have hvt : Fat.validCluster d t.fatEntryCount := by
    rw [hkt]
    exact h.describes.valid hd
  have herase := erasePair_goes hst.mounted hat hvt (hname.symm ▸ hn)
  rw [hname, ht.disk] at herase
  refine herase.mono le_rfl fun _ u hu hku => ?_
  refine h.went (ht.trans hu) (hst.kept hu (hst.memory hku) (by rw [ht.disk]; rfl)) ?_
  have := @Describes.relocate _ _ _ _ _ _ _ _ _ (companionRecord false name) (companionRecord false name) h.describes hd hd' hne
    hi hp hw hfree hn hfresh
  rw [getLastD_append]
  exact this

theorem renameLocated_follows (h : Consistent s T) (hd : T.dirs d) {entry : DirectoryEntry}
    (he : EntryOf (T.items d) entry) {d' : Nat} (hd' : T.dirs d') (hn : validStoredName name = true) :
    Follows (renameLocated (locatedIn s.disk d entry) d' name) s (renamePlan s.disk T d entry d' name) := by
  have hm := h.mounted
  have hcheck := checkRegular_yields hm (h.directory hd) he
  unfold renameLocated renamePlan
  cases he with
  | directory => exact (hcheck.congr (if_neg fun hx => by cases hx)).bind_error
  | @file i p hi hp =>
    refine (hcheck.congr (if_pos rfl)).follows hm fun t ht => ?_
    rw [if_neg (show ¬EntryKind.regular ≠ .regular from fun hx => hx rfl)]
    have hc := h.quiet ht
    have hm' := hc.mounted
    have hfind := findInDirectory_yields hm' (hc.directory hd') name
    cases hnamed : entryNamed (T.items d') name with
    | some found =>
      rw [hnamed] at hfind
      rw [if_pos (show (some found).isSome = true from rfl)]
      refine Carries.of_eq ?_ (attempt_found hfind fun e hne => ?_)
      · refine hfind.follows hm' fun u hu => ?_
        show Follows (failIf (¬(d = d' ∧ p.name = name)) .alreadyExists) u _
        split
        · rename_i hsame
          rw [failIf, if_neg (not_not.mpr hsame)]
          exact ⟨le_rfl, goes_pure (hu.mounted hm') ⟨rfl, hc.quiet hu⟩⟩
        · rename_i hsame
          rw [failIf, if_pos hsame]
          exact yields_fail (hu.mounted hm') _
      · exact failIf_bind hne
    | none =>
      rw [hnamed] at hfind
      rw [if_neg (show ¬(none : Option DirectoryEntry).isSome = true from fun hx => by cases hx)]
      refine Carries.of_eq ?_ (attempt_missing hfind fun e hne => ?_)
      · refine ((mustBeAbsent_yields hfind).congr (by rw [absent, if_pos rfl])).follows hm' fun u hu => ?_
        have hq := ht.trans hu
        have hcu := h.quiet hq
        have hmu := hcu.mounted
        have hbase := yields_absent (findDisplayBase_yields hmu (hcu.directory hd') name
          (if d = d' then some (locatedIn s.disk d ⟨p, i, some (i - 1), .regular⟩) else none))
        show Follows (mustBeAbsent (findDisplayBaseInDirectory d' name
          (if d = d' then some (locatedIn s.disk d ⟨p, i, some (i - 1), .regular⟩) else none)) >>= fun _ =>
            if d = d' then _ else _) u _
        by_cases htaken : Taken (T.items d') d' name
          (if d = d' then some (locatedIn s.disk d ⟨p, i, some (i - 1), .regular⟩) else none)
        · rw [if_pos htaken]
          exact (hbase.congr (if_pos htaken)).bind_error
        rw [if_neg htaken]
        refine (hbase.congr (if_neg htaken)).follows hmu fun v hv => ?_
        have hqv := hq.trans hv
        have hcv := h.quiet hqv
        have hpos := ((h.describes.tidy hd).writable hi hp).1
        split
        · rename_i hsame
          subst hsame
          rw [if_pos rfl] at htaken
          rw [← hqv.disk]
          refine ⟨one_le_two, (renameInPlace_goes hcv hd hi hp hn (fun j q hj hne hq => ?_)
            (locatedIn_at hpos hi)).mono le_rfl fun _ _ _ hr => ⟨rfl, hr⟩⟩
          exact entryNamed_none hnamed hj hq
        · rename_i hne
          have hslots := findFileSlots_yields hcv.mounted (hcv.directory hd')
          rw [hqv.disk] at hslots
          rcases h.pairSlots hd' with ⟨slot, hs, h₁, h₂, hw⟩ | hs
          · rw [hs] at hslots ⊢
            refine hslots.follows hcv.mounted fun w hwq => ⟨one_le_two, ?_⟩
            have hqw := hqv.trans hwq
            rw [← hqw.disk]
            exact (relocate_goes (h.quiet hqw) hd hd' hne hi hp hn (fun j q hj hq => entryNamed_none hnamed hj hq) hw h₂
              (locatedIn_at hpos hi) rfl).mono le_rfl fun _ _ _ hr => ⟨rfl, hr⟩
          · rw [hs] at hslots ⊢
            exact hslots.bind_error
      · exact failIf_bind hne

end FileService
end InferenceOS
