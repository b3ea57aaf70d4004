import InferenceOS.Theorems.ServiceSteps
import InferenceOS.Theorems.Slots

/-! The searches of the file service. On tidy directories each of them has one outcome, which depends on the
    records alone; on a device that fails it may also end with an error of the device. -/

namespace InferenceOS
open Program

inductive SlotEntry (slots : Nat → Slot) : DirectoryEntry → Prop where
  | regular {k : Nat} {p : Primary} : k + 1 < directorySlots → recordPairValidate (slots k) (slots (k + 1)) = .ok () →
    primaryDecode (slots (k + 1)) = .ok p → SlotEntry slots ⟨p, k + 1, some k, .regular⟩
  | directory {k : Nat} {p : Primary} : k < directorySlots → primaryDecode (slots k) = .ok p →
    p.attributes = attributeDirectory → SlotEntry slots ⟨p, k, none, .directory⟩
  | internal {k : Nat} {p : Primary} : k < directorySlots → decodeInternal (slots k) = .ok p →
    SlotEntry slots ⟨p, k, none, .internal⟩

section Scan
variable {slots : Nat → Slot} {e : DirectoryEntry}

theorem SlotEntry.bounds (h : SlotEntry slots e) :
    e.primarySlot < directorySlots ∧ ∀ slot ∈ e.companionSlot, slot < directorySlots := by
  cases h with
  | regular hk => exact ⟨hk, fun slot hs => by cases hs; omega⟩
  | directory hk => exact ⟨hk, nofun⟩
  | internal hk => exact ⟨hk, nofun⟩

theorem SlotEntry.attributes (h : SlotEntry slots e) (hk : e.kind ≠ .internal) :
    e.primary.attributes = attributeDirectory ↔ e.kind = .directory := by
  cases h with
  | @regular k p hk hpair hp =>
    obtain ⟨q, -, hq, hreg⟩ := recordPairValidate_eq_ok hpair
    rw [hp] at hq
    cases hq
    constructor
    · intro hx
      rw [hreg] at hx
      exact absurd hx (by decide)
    · intro hx
      cases hx
  | directory _ _ ha => exact ⟨fun _ => rfl, fun _ => ha⟩
  | internal => exact absurd rfl hk

theorem SlotEntry.name (h : SlotEntry slots e) (hk : e.kind ≠ .internal) : validStoredName e.primary.name = true := by
  cases h with
  | regular _ _ hp => exact (Primary.admissible_iff.mp (primaryDecode_eq_ok hp).2.1).1
  | directory _ hp => exact (Primary.admissible_iff.mp (primaryDecode_eq_ok hp).2.1).1
  | internal => exact absurd rfl hk

theorem entryAt_eq_ok {i : Nat} (hi : i < directorySlots) (h : entryAt slots directorySlots directorySlots i = .ok e) :
    SlotEntry slots e := by
  unfold entryAt at h
  dsimp only at h
  split at h
  · split at h
    · cases h
    · rename_i hlast
      split at h
      · cases h
      · rename_i hpair
        split at h
        · cases h
        · rename_i hp
          cases h
          exact .regular (by omega) hpair hp
  · split at h
    · obtain ⟨p, hp, hok⟩ := of_bind_ok h
      cases hok
      exact .internal hi hp
    · obtain ⟨p, hp, hrest⟩ := of_bind_ok h
      obtain ⟨ha, hok⟩ := of_check hrest
      cases hok
      exact .directory hi hp (not_not.mp ha)

theorem scanFrom_entries : ∀ {fuel slot : Nat} {before entries : List DirectoryEntry},
    scanFrom slots directorySlots directorySlots directorySlots fuel slot before = .ok entries →
    (∀ e ∈ before, SlotEntry slots e) → ∀ e ∈ entries, SlotEntry slots e
  | 0, slot, before, entries, h, hb => by
    cases h
    exact hb
  | fuel + 1, slot, before, entries, h, hb => by
    unfold scanFrom at h
    split at h
    · cases h
      exact hb
    · rename_i hslot
      split at h
      · cases h
        exact hb
      · split at h
        · exact scanFrom_entries h hb
        · obtain ⟨entry, he, hrest⟩ := of_bind_ok h
          obtain ⟨-, hrest'⟩ := of_check hrest
          obtain ⟨-, hscan⟩ := of_check hrest'
          refine scanFrom_entries hscan fun e hx => ?_
          rcases List.mem_append.mp hx with hx | hx
          · exact hb e hx
          · rw [List.mem_singleton.mp hx]
            exact entryAt_eq_ok (not_le.mp hslot) he

theorem scanFrom_length : ∀ {fuel slot : Nat} {before entries : List DirectoryEntry},
    scanFrom slots directorySlots directorySlots directorySlots fuel slot before = .ok entries →
    before.length ≤ directorySlots → entries.length ≤ directorySlots
  | 0, slot, before, entries, h, hb => by
    cases h
    exact hb
  | fuel + 1, slot, before, entries, h, hb => by
    unfold scanFrom at h
    split at h
    · cases h
      exact hb
    · split at h
      · cases h
        exact hb
      · split at h
        · exact scanFrom_length h hb
        · obtain ⟨entry, -, hrest⟩ := of_bind_ok h
          obtain ⟨-, hrest'⟩ := of_check hrest
          obtain ⟨hfull, hscan⟩ := of_check hrest'
          refine scanFrom_length hscan ?_
          rw [List.length_append, List.length_singleton]
          omega

theorem directoryScan_entries {entries : List DirectoryEntry}
    (h : directoryScan slots directorySlots directorySlots directorySlots = .ok entries) : ∀ e ∈ entries, SlotEntry slots e :=
  scanFrom_entries (show scanFrom slots directorySlots directorySlots directorySlots directorySlots 0 [] = .ok entries from h) nofun

end Scan

namespace FileService
variable {α β : Type} {s t u : FileService} {d : Nat} {items : Nat → Item}
variable {m : Service α} {r : Except IosError α} {f : α → Service β}
  {entry : DirectoryEntry} {identity : Nat} {name : Name} {path : Option Text}

/-- Only scratch buffers and the cache below its view changed. -/
structure Quiet (s t : FileService) : Prop where
  wrote : Wrote s t s.view 0
  memory : t = { s with
    sync := t.sync, chain := t.chain, oldChain := t.oldChain, directory := t.directory, cluster := t.cluster
    directoryEntries := t.directoryEntries }

theorem Quiet.refl (h : s.Mounted) : Quiet s s := ⟨Wrote.refl h, rfl⟩

theorem Quiet.trans (h : Quiet s t) (h' : Quiet t u) : Quiet s u := by
  refine ⟨?_, ?_⟩
  · have := h.wrote.trans h'.wrote
    rwa [h.wrote.view] at this
  · rw [h'.memory, h.memory]

theorem Still.quiet (h : Still s t) : Quiet s t := ⟨h.1, by rw [h.2]⟩

theorem Quiet.disk (h : Quiet s t) : t.disk = s.disk := h.wrote.disk

theorem Quiet.fat (h : Quiet s t) : t.fat = s.fat := by rw [h.memory]

theorem Quiet.fatEntryCount (h : Quiet s t) : t.fatEntryCount = s.fatEntryCount := by rw [h.memory]

theorem Quiet.mount (h : Quiet s t) : t.mount = s.mount := by rw [h.memory]

theorem Quiet.mounted (h : Quiet s t) (hm : s.Mounted) : t.Mounted := h.wrote.mounted hm

theorem Quiet.scratch {t' : FileService} (h : Quiet s t)
    (ht : t' = { t with
      chain := t'.chain, oldChain := t'.oldChain, directory := t'.directory, cluster := t'.cluster
      directoryEntries := t'.directoryEntries }) : Quiet s t' := by
  refine ⟨h.wrote.target ?_ ?_ ?_ ?_, ?_⟩
  all_goals rw [ht]
  rw [h.memory]

/-- The search has the outcome `r`, unless the device fails or the cache is full. -/
def Yields (m : Service α) (s : FileService) (r : Except IosError α) : Prop :=
  wp m (fun a t => Quiet s t ∧ r = .ok a) (fun e t => Quiet s t ∧ (r = .error e ∨ (e ≠ .notFound ∧ ¬s.Room 1))) s

theorem Yields.after (ht : Quiet s t) (h : Yields m t r) :
    wp m (fun a u => Quiet s u ∧ r = .ok a) (fun e u => Quiet s u ∧ (r = .error e ∨ (e ≠ .notFound ∧ ¬s.Room 1))) t := by
  refine wp_mono h (fun c u ⟨hu, hc⟩ => ⟨ht.trans hu, hc⟩) fun e u ⟨hu, he⟩ => ⟨ht.trans hu, he.imp_right ?_⟩
  exact fun ⟨hne, hr⟩ => ⟨hne, fun hx => hr (ht.wrote.room (by simpa using hx))⟩

theorem Yields.bind {a : α} {r : Except IosError β} (h : Yields m s (.ok a))
    (h' : ∀ t, Quiet s t → Yields (f a) t r) : Yields (m >>= f) s r := by
  unfold Yields
  rw [wp_bind]
  refine wp_mono h (fun b t ⟨ht, hb⟩ => ?_) fun e t ⟨ht, he⟩ => ⟨ht, ?_⟩
  · cases hb
    exact (h' t ht).after ht
  · rcases he with he | he
    · cases he
    · exact Or.inr he

theorem Yields.bind_error {e : IosError} (h : Yields m s (.error e)) : Yields (m >>= f) s (.error e) := by
  unfold Yields
  rw [wp_bind]
  refine wp_mono h (fun b t ⟨_, hb⟩ => by cases hb) fun e' t ⟨ht, he⟩ => ⟨ht, he.imp_left fun he => ?_⟩
  cases he
  rfl

theorem Yields.bindE {r' : α → Except IosError β}
    (h : Yields m s r) (h' : ∀ a t, r = .ok a → Quiet s t → Yields (f a) t (r' a)) : Yields (m >>= f) s (r >>= r') := by
  cases r with
  | ok a => exact h.bind fun t ht => h' a t rfl ht
  | error e => exact h.bind_error

theorem yields_pure (h : s.Mounted) (a : α) : Yields (pure a) s (.ok a) := ⟨Quiet.refl h, rfl⟩

theorem yields_get (h : s.Mounted) : Yields get s (.ok s) := ⟨Quiet.refl h, rfl⟩

theorem yields_fail (h : s.Mounted) (e : IosError) : Yields (fail e : Service α) s (.error e) :=
  ⟨Quiet.refl h, Or.inl rfl⟩

theorem yields_ofExcept (h : s.Mounted) (r : Except IosError α) : Yields (ofExcept r) s r := by
  cases r with
  | ok a => exact yields_pure h a
  | error e => exact yields_fail h e

theorem yields_failIf (h : s.Mounted) (c : Prop) [Decidable c] (e : IosError) :
    Yields (failIf c e) s (if c then .error e else .ok ()) := by
  unfold failIf
  split
  · exact yields_fail h e
  · exact yields_pure h ()

theorem Yields.congr {r' : Except IosError α} (h : Yields m s r) (hr : r = r') : Yields m s r' := hr ▸ h

/-- Cluster `d` is a directory of one cluster that holds `items`. -/
structure DirectoryAt (s : FileService) (d : Nat) (items : Nat → Item) : Prop where
  valid : Fat.validCluster d s.fatEntryCount
  ends : Fat.Ends (s.fat d)
  shows : Shows (slotAt (s.disk.data d)) items
  tidy : Tidy items

theorem DirectoryAt.quiet (h : DirectoryAt s d items) (hq : Quiet s t) : DirectoryAt t d items := by
  refine ⟨?_, ?_, ?_, h.tidy⟩
  · rw [hq.fatEntryCount]
    exact h.valid
  · rw [hq.fat]
    exact h.ends
  · rw [hq.disk]
    exact h.shows

theorem chain_yields (h : s.Mounted) {clusters : List Nat} (htr : Fat.traverse s.fat s.fatEntryCount d maxClusters = .ok clusters) :
    Yields (directoryChain d) s (.ok clusters) := by
  unfold Yields
  simp only [directoryChain, wp_bind, wp_get, wp_ofExcept, wp_modify, wp_pure, htr]
  refine ⟨fun a ha => ?_, fun e he => by cases he⟩
  cases ha
  exact ⟨(Quiet.refl h).scratch rfl, rfl⟩

theorem directoryChain_yields (h : s.Mounted) (hd : DirectoryAt s d items) : Yields (directoryChain d) s (.ok [d]) :=
  chain_yields h (Fat.traverse_eq_ok.mpr ⟨h.validEntryCount, by decide, .last hd.valid hd.ends, by simp, by simp [maxClusters]⟩)

theorem wp_page (hm : s.Mounted) (hv : Fat.validCluster d s.fatEntryCount) {entries : List DirectoryEntry}
    (hscan : directoryScan (slotAt (s.disk.data d)) directorySlots directorySlots directorySlots = .ok entries)
    {f : List DirectoryEntry → Service α} {Q : α → FileService → Prop} {E : IosError → FileService → Prop}
    (hQ : ∀ t, Quiet s t → t.directory = s.disk.data d → wp (f entries) Q E t)
    (hE : ∀ e t, Quiet s t → e ≠ .notFound → ¬s.Room 1 → E e t) :
    wp (loadDirectory d >>= fun _ => scanLoadedDirectory >>= f) Q E s := by
  rw [wp_bind]
  refine wp_mono (loadDirectory_spec hm hv) (fun _ t ⟨hw, ht⟩ => ?_) fun e t ⟨ht, he, hr⟩ => hE e t ht.quiet he hr
  have hdir : t.directory = s.disk.data d := by rw [ht]
  have hq : Quiet s t := ⟨hw, by rw [ht]⟩
  rw [← hdir] at hscan
  simp only [scanLoadedDirectory, wp_bind, wp_get, wp_ofExcept, wp_modify, wp_pure, hscan]
  refine ⟨fun a ha => ?_, fun e he => by cases he⟩
  cases ha
  exact hQ _ (hq.scratch rfl) hdir

theorem DirectoryAt.scans (h : DirectoryAt s d items) :
    directoryScan (slotAt (s.disk.data d)) directorySlots directorySlots directorySlots = .ok (entriesOf items) :=
  directoryScan_eq h.shows h.tidy

theorem wp_scan (h : s.Mounted) (hd : DirectoryAt s d items) {f : List DirectoryEntry → Service α}
    {Q : α → FileService → Prop} {E : IosError → FileService → Prop}
    (hQ : ∀ t, Quiet s t → t.directory = s.disk.data d → wp (f (entriesOf items)) Q E t)
    (hE : ∀ e t, Quiet s t → e ≠ .notFound → ¬s.Room 1 → E e t) :
    wp (loadDirectory d >>= fun _ => scanLoadedDirectory >>= f) Q E s :=
  wp_page h hd.valid hd.scans hQ hE

/-- The record that a search finds at an entry of directory `d`. -/
def locatedIn (D : Disk) (d : Nat) (entry : DirectoryEntry) : LocatedEntry :=
  { LocatedEntry.zero with
    primary := entry.primary
    directoryCluster := d
    primarySlot := entry.primarySlot
    hasCompanion := entry.companionSlot.isSome
    primaryDisk := slotAt (D.data d) entry.primarySlot
    companionSlot := entry.companionSlot.getD 0
    companionDisk := match entry.companionSlot with
      | some slot => slotAt (D.data d) slot
      | none => Bytes.zero }

theorem locate_eq {D : Disk} (h : t.directory = D.data d) : t.locate d entry = locatedIn D d entry := by
  unfold locate locatedIn
  cases entry.companionSlot with
  | none => rw [h]
  | some slot => rw [h]

section Scanned
variable {pages : List (Nat × List DirectoryEntry)}

/-- The clusters of a directory with the entries that a scan finds in each of them. -/
structure Scanned (s : FileService) (d : Nat) (pages : List (Nat × List DirectoryEntry)) : Prop where
  chain : Fat.traverse s.fat s.fatEntryCount d maxClusters = .ok (pages.map Prod.fst)
  scans : ∀ page ∈ pages, directoryScan (slotAt (s.disk.data page.1)) directorySlots directorySlots directorySlots = .ok page.2

/-- The records that are no `.` or `..`, with their clusters. -/
def recordsOf (pages : List (Nat × List DirectoryEntry)) : List (Nat × DirectoryEntry) :=
  pages.flatMap fun page => (page.2.filter (·.kind ≠ .internal)).map fun entry => (page.1, entry)

theorem mem_recordsOf {r : Nat × DirectoryEntry} :
    r ∈ recordsOf pages ↔ ∃ page ∈ pages, r.1 = page.1 ∧ r.2 ∈ page.2 ∧ r.2.kind ≠ .internal := by
  unfold recordsOf
  simp only [List.mem_flatMap, List.mem_map, List.mem_filter, decide_eq_true_eq]
  constructor
  · rintro ⟨page, hp, entry, ⟨he, hk⟩, rfl⟩
    exact ⟨page, hp, rfl, he, hk⟩
  · rintro ⟨page, hp, hr, he, hk⟩
    exact ⟨page, hp, r.2, ⟨he, hk⟩, Prod.ext hr.symm rfl⟩

theorem Scanned.quiet (h : Scanned s d pages) (hq : Quiet s t) : Scanned t d pages :=
  ⟨by rw [hq.fat, hq.fatEntryCount]; exact h.chain, by rw [hq.disk]; exact h.scans⟩

theorem Scanned.chained (h : Scanned s d pages) : Fat.Chain s.fat s.fatEntryCount d (pages.map Prod.fst) :=
  (Fat.traverse_eq_ok.mp h.chain).2.2.1

theorem Scanned.valid (h : Scanned s d pages) : ∀ page ∈ pages, Fat.validCluster page.1 s.fatEntryCount := fun _ hp =>
  h.chained.valid _ (List.mem_map_of_mem hp)

theorem Scanned.slotEntry (h : Scanned s d pages) {r : Nat × DirectoryEntry} (hr : r ∈ recordsOf pages) :
    SlotEntry (slotAt (s.disk.data r.1)) r.2 := by
  obtain ⟨page, hp, hc, he, -⟩ := mem_recordsOf.mp hr
  rw [hc]
  exact directoryScan_entries (h.scans page hp) _ he

theorem Scanned.chain_yields (h : Scanned s d pages) (hm : s.Mounted) :
    Yields (directoryChain d) s (.ok (pages.map Prod.fst)) := FileService.chain_yields hm h.chain

def recordNamed (pages : List (Nat × List DirectoryEntry)) (name : Name) : Option (Nat × DirectoryEntry) :=
  (recordsOf pages).find? fun r => r.2.primary.name = name

theorem recordNamed_cons {page : Nat × List DirectoryEntry} {name : Name} : recordNamed (page :: pages) name =
    match page.2.find? fun entry => entry.kind ≠ .internal ∧ entry.primary.name = name with
    | some entry => some (page.1, entry)
    | none => recordNamed pages name := by
  unfold recordNamed recordsOf
  rw [List.flatMap_cons, List.find?_append, List.find?_map, List.find?_filter]
  have hsame : (fun a : DirectoryEntry => decide (decide (a.kind ≠ .internal) = true ∧
      ((fun r : Nat × DirectoryEntry => decide (r.2.primary.name = name)) ∘ fun entry => (page.1, entry)) a = true)) =
      fun entry => decide (entry.kind ≠ .internal ∧ entry.primary.name = name) := by
    funext a
    simp
  rw [hsame]
  cases page.2.find? fun entry => decide (entry.kind ≠ .internal ∧ entry.primary.name = name) <;> rfl

theorem findAmong_yields {name : Name} : ∀ {pages : List (Nat × List DirectoryEntry)} {s : FileService}, s.Mounted →
    (∀ page ∈ pages, Fat.validCluster page.1 s.fatEntryCount ∧
      directoryScan (slotAt (s.disk.data page.1)) directorySlots directorySlots directorySlots = .ok page.2) →
    Yields (findAmong name (pages.map Prod.fst)) s (match recordNamed pages name with
      | none => .error .notFound
      | some r => .ok (locatedIn s.disk r.1 r.2))
  | [], s, hm, _ => yields_fail hm _
  | page :: pages, s, hm, hp => by
    obtain ⟨hv, hscan⟩ := hp page List.mem_cons_self
    unfold Yields
    rw [List.map_cons, findAmong, recordNamed_cons]
    refine wp_page hm hv hscan (fun t ht hdir => ?_) fun e t ht he hr => ⟨ht, Or.inr ⟨he, hr⟩⟩
    cases hf : page.2.find? fun entry => decide (entry.kind ≠ .internal ∧ entry.primary.name = name) with
    | none =>
      have hrest := @findAmong_yields name pages t (ht.mounted hm) fun page' hx => by
        rw [ht.fatEntryCount, ht.disk]
        exact hp page' (List.mem_cons_of_mem _ hx)
      rw [ht.disk] at hrest
      exact hrest.after ht
    | some entry =>
      obtain ⟨h₁, h₂⟩ := (directoryScan_entries hscan entry (List.mem_of_find?_eq_some hf)).bounds
      unfold directorySlots at h₁ h₂
      simp only [wp_bind, wp_failIf, wp_get, wp_pure]
      refine ⟨fun hx => ?_, fun _ => ⟨ht, by rw [locate_eq hdir]⟩⟩
      rcases hx with hx | ⟨slot, hs, hx⟩
      · omega
      · have := h₂ slot hs
        omega

theorem Scanned.find_yields (h : Scanned s d pages) (hm : s.Mounted) (name : Name) :
    Yields (findInDirectory d name) s (match recordNamed pages name with
      | none => .error .notFound
      | some r => .ok (locatedIn s.disk r.1 r.2)) := by
  unfold findInDirectory
  refine (h.chain_yields hm).bind fun t ht => ?_
  have hq := h.quiet ht
  rw [← ht.disk]
  exact findAmong_yields (ht.mounted hm) fun page hp => ⟨hq.valid page hp, hq.scans page hp⟩

end Scanned

theorem DirectoryAt.scanned (h : DirectoryAt s d items) (hm : s.Mounted) : Scanned s d [(d, entriesOf items)] :=
  ⟨Fat.traverse_eq_ok.mpr ⟨hm.validEntryCount, by decide, .last h.valid h.ends, List.nodup_singleton _, show 1 ≤ maxClusters by decide⟩,
    fun page hp => by rw [List.mem_singleton.mp hp]; exact h.scans⟩

def entryNamed (items : Nat → Item) (name : Name) : Option DirectoryEntry :=
  (entriesOf items).find? fun entry => entry.kind ≠ .internal ∧ entry.primary.name = name

theorem findInDirectory_yields (h : s.Mounted) (hd : DirectoryAt s d items) (name : Name) :
    Yields (findInDirectory d name) s (match entryNamed items name with
      | none => .error .notFound
      | some entry => .ok (locatedIn s.disk d entry)) := by
  refine ((hd.scanned h).find_yields h name).congr ?_
  rw [recordNamed_cons, entryNamed]
  dsimp only
  cases (entriesOf items).find? fun entry => entry.kind ≠ .internal ∧ entry.primary.name = name <;> rfl

theorem findDisplayBase_yields (h : s.Mounted) (hd : DirectoryAt s d items) (name : Name) (ignored : Option LocatedEntry) :
    Yields (findDisplayBaseInDirectory d name ignored) s
      (if (entriesOf items).any fun entry => sameDisplayBase name ignored d entry then .ok () else .error .notFound) := by
  unfold findDisplayBaseInDirectory
  refine (directoryChain_yields h hd).bind fun t ht => ?_
  unfold Yields findDisplayBaseAmong
  refine wp_scan (ht.mounted h) (hd.quiet ht) (fun u hu _ => ?_) fun e u hu he hr => ⟨hu, Or.inr ⟨he, hr⟩⟩
  split
  · exact ⟨hu, rfl⟩
  · exact ⟨hu, Or.inl rfl⟩

def absent : Except IosError α → Except IosError Unit
  | .ok _ => .error .alreadyExists
  | .error e => if e = .notFound then .ok () else .error e

theorem mustBeAbsent_yields (h : Yields m s r) : Yields (mustBeAbsent m) s (absent r) := by
  unfold Yields mustBeAbsent
  simp only [wp_bind, wp_attempt]
  refine wp_mono h (fun a t hx => ?_) fun e t hx => ?_
  · obtain ⟨ht, hr⟩ := hx
    subst hr
    exact ⟨ht, Or.inl rfl⟩
  · obtain ⟨ht, he⟩ := hx
    simp only [wp_failIf]
    rcases he with rfl | ⟨hne, hr⟩
    · refine ⟨fun hx => ⟨ht, Or.inl (if_neg hx)⟩, fun hx => ⟨ht, if_pos (not_not.mp hx)⟩⟩
    · exact ⟨fun _ => ⟨ht, Or.inr ⟨hne, hr⟩⟩, fun hx => absurd hne hx⟩

theorem wp_load (h : s.Mounted) (hd : DirectoryAt s d items) {f : Service α} {Q : α → FileService → Prop}
    {E : IosError → FileService → Prop} (hQ : ∀ t, Quiet s t → t.directory = s.disk.data d → wp f Q E t)
    (hE : ∀ e t, Quiet s t → e ≠ .notFound → ¬s.Room 1 → E e t) : wp (loadDirectory d >>= fun _ => f) Q E s := by
  rw [wp_bind]
  refine wp_mono (loadDirectory_spec h hd.valid) (fun _ t ⟨hw, ht⟩ => ?_) fun e t ⟨ht, he, hr⟩ => hE e t ht.quiet he hr
  exact hQ t ⟨hw, by rw [ht]⟩ (by rw [ht])

def freshPair (d slot : Nat) : LocatedEntry :=
  { LocatedEntry.zero with directoryCluster := d, companionSlot := slot, primarySlot := slot + 1, hasCompanion := true }

def freshSingle (d slot : Nat) : LocatedEntry := { LocatedEntry.zero with directoryCluster := d, primarySlot := slot }

theorem findFileSlots_yields (h : s.Mounted) (hd : DirectoryAt s d items) :
    Yields (findFileSlots d) s ((findPairSlots (slotAt (s.disk.data d)) 128 128).map (freshPair d)) := by
  unfold findFileSlots
  refine (directoryChain_yields h hd).bind fun t ht => ?_
  unfold Yields fileSlotsAmong
  refine wp_load (ht.mounted h) (hd.quiet ht) (fun u hu hdir => ?_) fun e u hu he hr => ⟨hu, Or.inr ⟨he, hr⟩⟩
  simp only [wp_bind, wp_get, hdir, ht.disk, directorySlots]
  cases findPairSlots (slotAt (s.disk.data d)) 128 128 with
  | ok slot => exact ⟨hu, rfl⟩
  | error e =>
    simp only [wp_ite]
    refine ⟨fun he => ⟨hu, Or.inl (by rw [he]; rfl)⟩, fun _ => ⟨hu, Or.inl rfl⟩⟩

def freeSlot (D : Disk) (d : Nat) : Option Nat :=
  (List.range 128).find? fun i => (slotAt (D.data d) i).byte 0 = 0 ∨ (slotAt (D.data d) i).byte 0 = deletedMark

theorem findDirectorySlot_yields (h : s.Mounted) (hd : DirectoryAt s d items) :
    Yields (findDirectorySlot d) s (match freeSlot s.disk d with
      | some slot => .ok (freshSingle d slot)
      | none => .error .noSpace) := by
  unfold findDirectorySlot
  refine (directoryChain_yields h hd).bind fun t ht => ?_
  unfold Yields directorySlotAmong
  refine wp_load (ht.mounted h) (hd.quiet ht) (fun u hu hdir => ?_) fun e u hu he hr => ⟨hu, Or.inr ⟨he, hr⟩⟩
  simp only [wp_bind, wp_get, hdir, ht.disk]
  change wp (match freeSlot s.disk d with | some slot => _ | none => _) _ _ u
  cases freeSlot s.disk d with
  | some slot => exact ⟨hu, rfl⟩
  | none => exact ⟨hu, Or.inl rfl⟩

theorem directoryIsEmpty_yields (h : s.Mounted) (hd : DirectoryAt s d items) :
    Yields (directoryIsEmpty d) s (.ok (!(entriesOf items).any fun entry => entry.kind ≠ .internal)) := by
  unfold directoryIsEmpty
  refine (directoryChain_yields h hd).bind fun t ht => ?_
  unfold Yields emptyAmong
  refine wp_scan (ht.mounted h) (hd.quiet ht) (fun u hu _ => ?_) fun e u hu he hr => ⟨hu, Or.inr ⟨he, hr⟩⟩
  cases (entriesOf items).any fun entry => entry.kind ≠ .internal <;> exact ⟨hu, rfl⟩

def addressed (g : Geometry) (identity : Nat) : Nat × Nat :=
  let relative := identity % fileObjectBit / 512 - g.dataStartSector
  (2 + relative / sectorsPerCluster, relative % sectorsPerCluster * 16 + identity % fileObjectBit % 512 / 32)

/-- The checks of `locate_file_object` on an identity. -/
def addressable (g : Geometry) (identity : Nat) : Prop :=
  fileObjectBit ≤ identity ∧ identity % fileObjectBit % 512 % 32 = 0 ∧ g.dataStartSector ≤ identity % fileObjectBit / 512 ∧
    identity % fileObjectBit / 512 < g.totalSectors

instance (g : Geometry) (identity : Nat) : Decidable (addressable g identity) := inferInstanceAs (Decidable (_ ∧ _))

theorem addressed_slot_lt (g : Geometry) (identity : Nat) : (addressed g identity).2 < 128 := by
  unfold addressed sectorsPerCluster
  dsimp only
  omega

theorem fileIdentity_addressed {g : Geometry} (h : addressable g identity) (hlt : identity < 2 ^ 64) :
    fileIdentity g (addressed g identity).1 (addressed g identity).2 = identity := by
  obtain ⟨h₁, h₂, h₃, -⟩ := h
  have hloc : recordLocation g (addressed g identity).1 (addressed g identity).2 = identity % fileObjectBit := by
    simp only [recordLocation, clusterSector, addressed, sectorsPerCluster] at *
    omega
  have hbit : identity = fileObjectBit + identity % fileObjectBit := by
    unfold fileObjectBit at *
    omega
  have hor : fileObjectBit ||| identity % fileObjectBit = fileObjectBit + identity % fileObjectBit := by
    have := Nat.two_pow_add_eq_or_of_lt (i := 63) (b := identity % fileObjectBit) (Nat.mod_lt _ (by decide)) 1
    simpa [fileObjectBit] using this.symm
  rw [fileIdentity, hloc, hor, ← hbit]

def entryAtSlot (items : Nat → Item) (slot : Nat) : Option DirectoryEntry :=
  (entriesOf items).find? fun entry => entry.kind = .regular ∧ entry.primarySlot = slot

def addressedRecord (s : FileService) (identity : Nat) : Except IosError LocatedEntry :=
  let c := (addressed s.mount.geometry identity).1
  if addressable s.mount.geometry identity ∧ Fat.validCluster c s.fatEntryCount then do
    let entries ← directoryScan (slotAt (s.disk.data c)) directorySlots directorySlots directorySlots
    match entries.find? fun entry => entry.kind = .regular ∧ entry.primarySlot = (addressed s.mount.geometry identity).2 with
    | none => .error .notFound
    | some entry => .ok (locatedIn s.disk c entry)
  else .error .invalidArgument

theorem scan_yields (h : s.Mounted) {c : Nat} (hv : Fat.validCluster c s.fatEntryCount) {f : List DirectoryEntry → Service α}
    {r : List DirectoryEntry → Except IosError α} (hf : ∀ entries t,
      directoryScan (slotAt (s.disk.data c)) directorySlots directorySlots directorySlots = .ok entries → Quiet s t →
        t.directory = s.disk.data c → Yields (f entries) t (r entries)) :
    Yields (loadDirectory c >>= fun _ => scanLoadedDirectory >>= f) s
      (directoryScan (slotAt (s.disk.data c)) directorySlots directorySlots directorySlots >>= r) := by
  cases hscan : directoryScan (slotAt (s.disk.data c)) directorySlots directorySlots directorySlots with
  | error e =>
    unfold Yields
    rw [wp_bind]
    refine wp_mono (loadDirectory_spec h hv) (fun _ t hx => ?_) (fun e t hx => by obtain ⟨ht, he, hr⟩ := hx; exact ⟨ht.quiet, Or.inr ⟨he, hr⟩⟩)
    obtain ⟨hw, ht⟩ := hx
    have hdir : t.directory = s.disk.data c := by rw [ht]
    have hq : Quiet s t := ⟨hw, by rw [ht]⟩
    simp only [scanLoadedDirectory, wp_bind, wp_get, wp_ofExcept]
    rw [hdir, hscan]
    refine ⟨fun _ hx => (by cases hx), fun e' he => ?_⟩
    cases he
    exact ⟨hq, Or.inl rfl⟩
  | ok entries => exact wp_page h hv hscan (fun t ht hdir => (hf entries t hscan ht hdir).after ht) fun e t ht he hr => ⟨ht, Or.inr ⟨he, hr⟩⟩

theorem locateFileObject_addressed (h : s.Mounted) (hlt : identity < 2 ^ 64) :
    Yields (locateFileObject identity) s (addressedRecord s identity) := by
  have hslot := addressed_slot_lt s.mount.geometry identity
  unfold locateFileObject addressedRecord
  refine (yields_get h).bind fun t ht => ?_
  have hm := ht.mounted h
  dsimp only
  by_cases ha : addressable s.mount.geometry identity
  swap
  · rw [if_neg fun hx => ha hx.1]
    refine Yields.bind_error ((yields_failIf hm _ _).congr (if_pos ?_))
    unfold addressable at ha
    omega
  refine ((yields_failIf hm _ _).congr (if_neg ?_)).bind fun u hu => ?_
  · unfold addressable at ha
    omega
  have hqu := ht.trans hu
  by_cases hv : Fat.validCluster (addressed s.mount.geometry identity).1 s.fatEntryCount
  swap
  · rw [if_neg fun hx => hv hx.2]
    exact Yields.bind_error ((yields_failIf (hqu.mounted h) _ _).congr (if_pos (Or.inr fun hx => hv (h.valid.mp hx))))
  rw [if_pos ⟨ha, hv⟩]
  refine ((yields_failIf (hqu.mounted h) _ _).congr (if_neg ?_)).bind fun w hw => ?_
  · rintro (hx | hx)
    · have hmax := hv.2.2
      unfold maxDataCluster addressed at hmax
      dsimp only at hmax
      omega
    · exact hx (h.valid.mpr hv)
  have hqw := hqu.trans hw
  refine ((yields_failIf (hqw.mounted h) _ _).congr (if_neg (Nat.not_le.mpr hslot))).bind fun x hx => ?_
  have hqx := hqw.trans hx
  rw [← hqx.disk]
  refine scan_yields (hqx.mounted h) (by rw [hqx.fatEntryCount]; exact hv) fun entries y hscan hy hdir => ?_
  have hmy := hy.mounted (hqx.mounted h)
  change Yields (match entries.find? fun entry => entry.kind = .regular ∧ entry.primarySlot = (addressed s.mount.geometry identity).2 with
    | none => _ | some entry => _) y _
  cases hf : entries.find? fun entry => entry.kind = .regular ∧ entry.primarySlot = (addressed s.mount.geometry identity).2 with
  | none => exact yields_fail hmy _
  | some entry =>
    have hentry := List.find?_some hf
    simp only [decide_eq_true_eq] at hentry
    have hslots := directoryScan_entries hscan entry (List.mem_of_find?_eq_some hf)
    obtain ⟨h₁, h₂⟩ := hslots.bounds
    have hcompanion : entry.companionSlot ≠ none := by
      cases hslots with
      | regular => nofun
      | directory => cases hentry.1
      | internal => cases hentry.1
    have hsmall : ¬(entry.companionSlot = none ∨ 2 ^ 16 - 1 < entry.primarySlot ∨ ∃ slot ∈ entry.companionSlot, 2 ^ 16 - 1 < slot) := by
      rintro (hx | hx | ⟨slot, hs, hx⟩)
      · exact hcompanion hx
      · unfold directorySlots at h₁
        omega
      · have := h₂ slot hs
        unfold directorySlots at this
        omega
    have hown : ¬fileIdentity s.mount.geometry (addressed s.mount.geometry identity).1 entry.primarySlot ≠ identity := by
      rw [hentry.2]
      exact not_not.mpr (fileIdentity_addressed ha hlt)
    change Yields (failIf _ _ >>= fun _ => get >>= fun service => failIf _ _ >>= fun _ =>
      pure (service.locate (addressed s.mount.geometry identity).1 entry)) y _
    rw [failIf_pass hsmall]
    refine (yields_get hmy).bind fun z hz => ?_
    change Yields (failIf (fileIdentity s.mount.geometry (addressed s.mount.geometry identity).1 entry.primarySlot ≠ identity) _ >>=
      fun _ => pure (y.locate (addressed s.mount.geometry identity).1 entry)) z _
    have hlocate : y.locate (addressed s.mount.geometry identity).1 entry =
        locatedIn x.disk (addressed s.mount.geometry identity).1 entry := locate_eq hdir
    rw [failIf_pass hown, hlocate]
    exact yields_pure (hz.mounted hmy) _

theorem locateFileObject_yields (h : s.Mounted) {identity : Nat} (hlt : identity < 2 ^ 64)
    (hdir : addressable s.mount.geometry identity → DirectoryAt s (addressed s.mount.geometry identity).1 items) :
    Yields (locateFileObject identity) s
      (if addressable s.mount.geometry identity then
        match entryAtSlot items (addressed s.mount.geometry identity).2 with
        | none => .error .notFound
        | some entry => .ok (locatedIn s.disk (addressed s.mount.geometry identity).1 entry)
      else .error .invalidArgument) := by
  refine (locateFileObject_addressed h hlt).congr ?_
  unfold addressedRecord
  by_cases ha : addressable s.mount.geometry identity
  · rw [if_pos ⟨ha, (hdir ha).valid⟩, if_pos ha, (hdir ha).scans]
    rfl
  · rw [if_neg fun hx => ha hx.1, if_neg ha]

structure Catalog (s : FileService) (dirs : Nat → Prop) (items : Nat → Nat → Item) : Prop where
  root : dirs rootCluster
  directory : ∀ {d}, dirs d → DirectoryAt s d (items d)
  closed : ∀ {d i p}, dirs d → i < 128 → items d i = .directory p → dirs p.firstCluster

/-- The record with a name in directory `d`, or `IOS_E_NOT_FOUND`. -/
def findIn (items : Nat → Nat → Item) (d : Nat) (name : Name) : Except IosError DirectoryEntry :=
  match entryNamed (items d) name with
  | none => .error .notFound
  | some entry => .ok entry

def walkIn (items : Nat → Nat → Item) (current : Nat) : List Text → Except IosError Nat
  | [] => .ok current
  | component :: rest => do
    let name ← canonicalComponent component
    let entry ← findIn items current name
    if entry.kind = .directory then walkIn items entry.primary.firstCluster rest else .error .notFound

def parentIn (items : Nat → Nat → Item) : Option Text → Except IosError (Nat × Name)
  | none => .error .invalidArgument
  | some path => do
    let trimmed := (path.takeWhile (· ≠ 0)).rdropWhile (· = ascii '/')
    if trimmed = [] then .error .invalidArgument
    let name ← canonicalComponent (trimmed.rtakeWhile (· ≠ ascii '/'))
    let parent ← walkIn items rootCluster (components (trimmed.rdropWhile (· ≠ ascii '/')))
    .ok (parent, name)

def resolveIn (items : Nat → Nat → Item) (path : Option Text) : Except IosError (Nat × DirectoryEntry) := do
  let (parent, name) ← parentIn items path
  let entry ← findIn items parent name
  .ok (parent, entry)

variable {dirs : Nat → Prop} {items : Nat → Nat → Item}

theorem Catalog.quiet (h : Catalog s dirs items) (hq : Quiet s t) : Catalog t dirs items :=
  ⟨h.root, fun hd => (h.directory hd).quiet hq, h.closed⟩

theorem find_yields (h : s.Mounted) (hd : DirectoryAt s d (items d)) (name : Name) :
    Yields (findInDirectory d name) s ((findIn items d name).map (locatedIn s.disk d)) := by
  refine (findInDirectory_yields h hd name).congr ?_
  unfold findIn
  cases entryNamed (items d) name <;> rfl

inductive EntryOf (items : Nat → Item) : DirectoryEntry → Prop where
  | file {i : Nat} {p : Primary} : i < 128 → items i = .file p → EntryOf items ⟨p, i, some (i - 1), .regular⟩
  | directory {i : Nat} {p : Primary} : i < 128 → items i = .directory p → EntryOf items ⟨p, i, none, .directory⟩

theorem entryOf_mem {items : Nat → Item} (he : entry ∈ entriesOf items) (hk : entry.kind ≠ .internal) : EntryOf items entry := by
  obtain ⟨i, hi, he⟩ := mem_entriesBefore.mp he
  cases hit : items i <;> simp only [hit, Item.entry, Option.some.injEq, reduceCtorEq] at he <;> subst he
  · exact .file hi hit
  · exact .directory hi hit
  · exact absurd rfl hk

theorem EntryOf.mem {items : Nat → Item} (h : EntryOf items entry) : entry ∈ entriesOf items := by
  cases h with
  | file hi hp => exact mem_entriesBefore.mpr ⟨_, hi, by simp [hp, Item.entry]⟩
  | directory hi hp => exact mem_entriesBefore.mpr ⟨_, hi, by simp [hp, Item.entry]⟩

theorem entryNamed_eq {items : Nat → Item} (h : entryNamed items name = some entry) :
    EntryOf items entry ∧ entry.primary.name = name := by
  have hp := List.find?_some h
  simp only [decide_eq_true_eq] at hp
  exact ⟨entryOf_mem (List.mem_of_find?_eq_some h) hp.1, hp.2⟩

theorem findIn_eq (h : findIn items d name = .ok entry) : entryNamed (items d) name = some entry := by
  unfold findIn at h
  cases he : entryNamed (items d) name with
  | none => simp [he] at h
  | some e => simpa [he] using h

theorem walk_yields : ∀ {comps : List Text} {current : Nat} {s : FileService}, s.Mounted → Catalog s dirs items →
    dirs current → Yields (walk current comps) s (walkIn items current comps)
  | [], current, s, h, _, _ => yields_pure h current
  | component :: rest, current, s, h, hc, hd => by
    unfold walk walkIn
    refine (yields_ofExcept h _).bindE fun name t hname ht => ?_
    have hm := ht.mounted h
    have hct := hc.quiet ht
    have hfind := find_yields hm (hct.directory hd) name
    cases he : findIn items current name with
    | error e =>
      rw [he] at hfind
      exact hfind.bind_error
    | ok entry =>
      rw [he] at hfind
      refine hfind.bind fun u hu => ?_
      have hmu := hu.mounted hm
      have hcu := hct.quiet hu
      obtain ⟨hentry, -⟩ := entryNamed_eq (findIn_eq he)
      show Yields (failIf (entry.primary.attributes ≠ attributeDirectory ∨ entry.primary.firstCluster < 2) .notFound >>=
        fun _ => walk entry.primary.firstCluster rest) u
        (if entry.kind = .directory then walkIn items entry.primary.firstCluster rest else .error .notFound)
      cases hentry with
      | @file i p hi hit =>
        have hsound := (hc.directory hd).tidy.sound hi
        rw [hit] at hsound
        have hreg := hsound.2.2
        rw [if_neg (by simp)]
        refine Yields.bind_error ((yields_failIf hmu _ _).congr (if_pos (Or.inl ?_)))
        show p.attributes ≠ attributeDirectory
        rw [hreg]
        decide
      | @directory i p hi hit =>
        have hsound := (hc.directory hd).tidy.sound hi
        rw [hit] at hsound
        have hdir := hsound.2.2
        have hnext := hc.closed hd hi hit
        rw [if_pos rfl]
        have hpass : ¬(p.attributes ≠ attributeDirectory ∨ p.firstCluster < 2) := by
          have := (hc.directory hnext).valid.1
          rw [hdir]
          simp only [ne_eq, not_true_eq_false, false_or]
          omega
        exact ((yields_failIf hmu _ _).congr (if_neg hpass)).bind fun w hw =>
          walk_yields (hw.mounted hmu) (hcu.quiet hw) hnext

theorem walkIn_dirs (hc : Catalog s dirs items) : ∀ {comps : List Text} {current d : Nat}, dirs current →
    walkIn items current comps = .ok d → dirs d
  | [], current, d, hd, h => by
    cases h
    exact hd
  | component :: rest, current, d, hd, h => by
    unfold walkIn at h
    cases hn : canonicalComponent component with
    | error e => simp [hn, bind, Except.bind] at h
    | ok name =>
      cases he : findIn items current name with
      | error e => simp [hn, he, bind, Except.bind] at h
      | ok entry =>
        simp only [hn, he, bind, Except.bind] at h
        split at h
        · rename_i hk
          cases (entryNamed_eq (findIn_eq he)).1 with
          | file => cases hk
          | directory hi hit => exact walkIn_dirs hc (hc.closed hd hi hit) h
        · cases h

theorem resolveParent_yields (h : s.Mounted) (hc : Catalog s dirs items) (path : Option Text) :
    Yields (resolveParent path) s (parentIn items path) := by
  unfold resolveParent parentIn
  cases path with
  | none => exact yields_fail h _
  | some path =>
    dsimp only
    split
    · rename_i ht
      exact Yields.bind_error ((yields_failIf h _ _).congr (if_pos ht))
    · rename_i hne
      refine ((yields_failIf h _ _).congr (if_neg hne)).bind fun t ht => ?_
      have hm := ht.mounted h
      refine (yields_ofExcept hm _).bindE fun name u _ hu => ?_
      refine (walk_yields (hu.mounted hm) ((hc.quiet ht).quiet hu) hc.root).bindE fun parent w _ hw => ?_
      exact yields_pure (hw.mounted (hu.mounted hm)) _

theorem parentIn_eq (hc : Catalog s dirs items) {parent : Nat}
    (h : parentIn items path = .ok (parent, name)) : dirs parent ∧ validStoredName name = true := by
  unfold parentIn at h
  cases path with
  | none => cases h
  | some path =>
    dsimp only at h
    split at h
    · cases h
    · revert h
      cases hn : canonicalComponent
        (((path.takeWhile (· ≠ 0)).rdropWhile (· = ascii '/')).rtakeWhile (· ≠ ascii '/')) with
      | error e => exact fun h => by cases h
      | ok name' =>
        cases hw : walkIn items rootCluster
          (components (((path.takeWhile (· ≠ 0)).rdropWhile (· = ascii '/')).rdropWhile (· ≠ ascii '/'))) with
        | error e =>
          intro h
          simp only [bind, Except.bind] at h
          cases h
        | ok parent' =>
          intro h
          simp only [bind, Except.bind, Except.ok.injEq, Prod.mk.injEq] at h
          obtain ⟨rfl, rfl⟩ := h
          exact ⟨walkIn_dirs hc hc.root hw, canonicalComponent_valid hn⟩

theorem resolvePath_yields (h : s.Mounted) (hc : Catalog s dirs items) (path : Option Text) :
    Yields (resolvePath path) s ((resolveIn items path).map fun r => locatedIn s.disk r.1 r.2) := by
  have hparent := resolveParent_yields h hc path
  unfold resolvePath resolveIn
  cases hp : parentIn items path with
  | error e =>
    rw [hp] at hparent
    exact hparent.bind_error
  | ok r =>
    rw [hp] at hparent
    refine hparent.bind fun t ht => ?_
    have hd := (hc.quiet ht).directory (parentIn_eq hc hp).1
    refine (find_yields (ht.mounted h) hd r.2).congr ?_
    rw [ht.disk]
    show _ = Except.map _ (findIn items r.1 r.2 >>= fun entry => Except.ok (r.1, entry))
    cases findIn items r.1 r.2 <;> rfl

def selectIn (g : Geometry) (items : Nat → Nat → Item) (path : Option Text) (identity : Nat) :
    Except IosError (Nat × DirectoryEntry) :=
  match path with
  | some path => resolveIn items (some path)
  | none =>
    if addressable g identity then
      match entryAtSlot (items (addressed g identity).1) (addressed g identity).2 with
      | none => .error .notFound
      | some entry => .ok ((addressed g identity).1, entry)
    else .error .invalidArgument

def Addresses (g : Geometry) (dirs : Nat → Prop) (path : Option Text) (identity : Nat) : Prop :=
  path = none → identity < 2 ^ 64 ∧ (addressable g identity → dirs (addressed g identity).1)

theorem select_yields (h : s.Mounted) (hc : Catalog s dirs items) (ha : Addresses s.mount.geometry dirs path identity) :
    Yields (select path identity) s
      ((selectIn s.mount.geometry items path identity).map fun r => locatedIn s.disk r.1 r.2) := by
  unfold select selectIn
  cases path with
  | some path => exact resolvePath_yields h hc (some path)
  | none =>
    obtain ⟨hlt, hd⟩ := ha rfl
    refine (locateFileObject_yields h hlt fun hx => hc.directory (hd hx)).congr ?_
    dsimp only
    split
    · cases entryAtSlot (items (addressed s.mount.geometry identity).1) (addressed s.mount.geometry identity).2 <;> rfl
    · rfl

theorem resolveIn_eq (hc : Catalog s dirs items) {d : Nat}
    (h : resolveIn items path = .ok (d, entry)) : dirs d ∧ EntryOf (items d) entry := by
  unfold resolveIn at h
  cases hp : parentIn items path with
  | error e => simp [hp, bind, Except.bind] at h
  | ok r =>
    cases hf : findIn items r.1 r.2 with
    | error e => simp [hp, hf, bind, Except.bind] at h
    | ok e =>
      simp only [hp, hf, bind, Except.bind, Except.ok.injEq, Prod.mk.injEq] at h
      obtain ⟨rfl, rfl⟩ := h
      exact ⟨(parentIn_eq hc hp).1, (entryNamed_eq (findIn_eq hf)).1⟩

theorem selectIn_eq (hc : Catalog s dirs items) {d : Nat}
    (ha : Addresses s.mount.geometry dirs path identity) (h : selectIn s.mount.geometry items path identity = .ok (d, entry)) :
    dirs d ∧ EntryOf (items d) entry := by
  unfold selectIn at h
  cases path with
  | some path => exact resolveIn_eq hc h
  | none =>
    obtain ⟨-, hd⟩ := ha rfl
    dsimp only at h
    split at h
    · rename_i hx
      cases hf : entryAtSlot (items (addressed s.mount.geometry identity).1) (addressed s.mount.geometry identity).2 with
      | none => simp [hf] at h
      | some e =>
        simp only [hf, Except.ok.injEq, Prod.mk.injEq] at h
        obtain ⟨rfl, rfl⟩ := h
        have hk := List.find?_some hf
        simp only [decide_eq_true_eq] at hk
        exact ⟨hd hx, entryOf_mem (List.mem_of_find?_eq_some hf) (by simp [hk.1])⟩
    · cases h

theorem checkRegular_yields (h : s.Mounted) (hd : DirectoryAt s d (items d)) {entry : DirectoryEntry}
    (he : EntryOf (items d) entry) : Yields (checkRegular (locatedIn s.disk d entry)) s
      (if entry.kind = .regular then .ok () else .error .invalidArgument) := by
  unfold checkRegular
  cases he with
  | @file i p hi hit =>
    have hsound := hd.tidy.sound hi
    rw [if_pos rfl]
    rw [hit] at hsound
    obtain ⟨hadm, hsize, hreg⟩ := hsound
    obtain ⟨hpos, hbefore⟩ := hd.tidy.preceded hi hit
    have hrec := hd.shows _ hi
    have hcrec := hd.shows (i - 1) (by omega)
    rw [hit] at hrec
    rw [hbefore] at hcrec
    refine ((yields_failIf h _ _).congr (if_neg (by simp [locatedIn, hreg]))).bind fun t ht => ?_
    refine (yields_ofExcept (ht.mounted h) _).congr ?_
    simp only [locatedIn]
    rw [show slotAt (s.disk.data d) i = primaryBytes p from hrec,
      show slotAt (s.disk.data d) (i - 1) = companionRecord true p.name from hcrec]
    exact recordPairValidate_committed hadm hsize hreg
  | directory hi hit =>
    rw [if_neg (by simp)]
    exact Yields.bind_error ((yields_failIf h _ _).congr (if_pos (Or.inl (by simp [locatedIn]))))

end FileService
end InferenceOS
