import InferenceOS.Theorems.Appending

/-! Renaming a file within its directory. `rename_located` compares the cluster of the record with the first
    cluster of the directory to see that they are the same, which holds in the first cluster of the chain
    only. -/

namespace InferenceOS
open Program

namespace FileService
variable {s t : FileService} {d c : Nat} {pages : List (Nat × List DirectoryEntry)} {entry : DirectoryEntry} {name : Name}
variable {r : Nat × DirectoryEntry}
  {located : LocatedEntry}

/-- Another record of the directory has the base of the name. -/
def BaseTaken (pages : List (Nat × List DirectoryEntry)) (name : Name) (c slot : Nat) : Prop :=
  ∃ r ∈ recordsOf pages, ¬(r.1 = c ∧ r.2.primarySlot = slot) ∧ r.2.primary.name.slice 0 8 = name.slice 0 8

theorem findDisplayBaseAmong_yields {ignored : Option LocatedEntry} : ∀ {pages : List (Nat × List DirectoryEntry)}
    {s : FileService}, s.Mounted → (∀ page ∈ pages, Fat.validCluster page.1 s.fatEntryCount ∧
      directoryScan (slotAt (s.disk.data page.1)) directorySlots directorySlots directorySlots = .ok page.2) →
    Yields (findDisplayBaseAmong name ignored (pages.map Prod.fst)) s
      (if ∃ page ∈ pages, ∃ e ∈ page.2, sameDisplayBase name ignored page.1 e then .ok () else .error .notFound)
  | [], s, hm, _ => (yields_fail hm _).congr (if_neg nofun).symm
  | page :: pages, s, hm, hp => by
    obtain ⟨hv, hscan⟩ := hp page List.mem_cons_self
    unfold Yields
    rw [List.map_cons, findDisplayBaseAmong]
    refine wp_page hm hv hscan (fun t ht hdir => ?_) fun e t ht he hr => ⟨ht, Or.inr ⟨he, hr⟩⟩
    split
    · rename_i hany
      obtain ⟨e, he, hsame⟩ := List.any_eq_true.mp hany
      exact ⟨ht, if_pos ⟨page, List.mem_cons_self, e, he, of_decide_eq_true hsame⟩⟩
    · rename_i hany
      have hrest := @findDisplayBaseAmong_yields ignored pages t (ht.mounted hm) fun page' hx => by
        rw [ht.fatEntryCount, ht.disk]
        exact hp page' (List.mem_cons_of_mem _ hx)
      have hnone : ¬∃ e ∈ page.2, sameDisplayBase name ignored page.1 e := fun ⟨e, he, hsame⟩ =>
        hany (List.any_eq_true.mpr ⟨e, he, decide_eq_true hsame⟩)
      refine (hrest.congr ?_).after ht
      simp only [List.exists_mem_cons_iff, hnone, false_or]

theorem Scanned.findDisplayBase_yields (h : Scanned s d pages) (hm : s.Mounted) (name : Name) (ignored : Option LocatedEntry) :
    Yields (findDisplayBaseInDirectory d name ignored) s
      (if ∃ page ∈ pages, ∃ e ∈ page.2, sameDisplayBase name ignored page.1 e then .ok () else .error .notFound) := by
  refine (h.chain_yields hm).bind fun t ht => ?_
  have ht' := h.quiet ht
  exact findDisplayBaseAmong_yields (ht.mounted hm) fun page hp => ⟨ht'.valid page hp, ht'.scans page hp⟩

theorem sameBase_iff : (∃ page ∈ pages, ∃ e ∈ page.2, sameDisplayBase name (some (locatedIn s.disk c entry)) page.1 e) ↔
    BaseTaken pages name c entry.primarySlot := by
  constructor
  · rintro ⟨page, hp, e, he, hk, hbase, hother⟩
    refine ⟨(page.1, e), mem_recordsOf.mpr ⟨page, hp, rfl, he, hk⟩, fun hx => ?_, hbase⟩
    exact hother _ rfl ⟨hx.1.symm, hx.2.symm⟩
  · rintro ⟨r, hr, hne, hbase⟩
    obtain ⟨page, hp, hc, he, hk⟩ := mem_recordsOf.mp hr
    refine ⟨page, hp, r.2, he, hk, hbase, fun other ho hx => hne ?_⟩
    cases ho
    exact ⟨hc.trans hx.1.symm, hx.2.symm⟩

theorem slotEntry_decoded {slots : Nat → Slot} {e : DirectoryEntry} (h : SlotEntry slots e) (hk : e.kind ≠ .internal) :
    primaryDecode (slots e.primarySlot) = .ok e.primary := by
  cases h with
  | regular _ _ hp => exact hp
  | directory _ hp => exact hp
  | internal => exact absurd rfl hk

theorem Scanned.other (h : Scanned s d pages) (hr : (c, entry) ∈ recordsOf pages) (hr' : r ∈ recordsOf pages)
    (hname : r.2.primary.name ≠ entry.primary.name) : ¬(r.1 = c ∧ r.2.primarySlot = entry.primarySlot) := by
  rintro ⟨rfl, hslot⟩
  obtain ⟨-, -, -, -, hk⟩ := mem_recordsOf.mp hr
  obtain ⟨-, -, -, -, hk'⟩ := mem_recordsOf.mp hr'
  have hd := slotEntry_decoded (h.slotEntry hr) hk
  have hd' := slotEntry_decoded (h.slotEntry hr') hk'
  rw [hslot, hd] at hd'
  exact hname (congrArg Primary.name (Except.ok.inj hd')).symm

theorem recordNamed_some (h : recordNamed pages name = some r) : r ∈ recordsOf pages ∧ r.2.primary.name = name :=
  ⟨List.mem_of_find?_eq_some h, by simpa using List.find?_some h⟩

theorem recordNamed_of_mem (hr : (c, entry) ∈ recordsOf pages) : ∃ r, recordNamed pages entry.primary.name = some r := by
  refine Option.isSome_iff_exists.mp (List.find?_isSome.mpr ⟨_, hr, ?_⟩)
  exact decide_eq_true rfl

theorem Scanned.placed (h : Scanned s d pages) (hr : (c, entry) ∈ recordsOf pages) (hk : entry.kind = .regular) :
    Regular (locatedIn s.disk c entry) ∧ Placed s (locatedIn s.disk c entry) := by
  obtain ⟨page, hp, hc, -, -⟩ := mem_recordsOf.mp hr
  have hmem : c ∈ pages.map Prod.fst := List.mem_map.mpr ⟨page, hp, hc.symm⟩
  exact slotEntry_placed (h.slotEntry hr) (h.chained.valid c hmem) (h.chained.used c hmem) hk

theorem yields_found {α β : Type} {m : Service α} {g : Except IosError α → Service β} {a : α} {r : Except IosError β}
    (h : Yields m s (.ok a)) (hg : ∀ e, e ≠ .notFound → g (.error e) = fail e) (hrest : ∀ t, Quiet s t → Yields (g (.ok a)) t r) :
    Yields (attempt m >>= g) s r := by
  have hbind : Yields (m >>= fun a => g (.ok a)) s r := h.bind hrest
  unfold Yields wp at hbind ⊢
  rwa [attempt_found h hg]

theorem rename_found (hm : s.Mounted) (h : Scanned s d pages) (hr : (c, entry) ∈ recordsOf pages) (hk : entry.kind = .regular)
    (hnamed : recordNamed pages name = some r) :
    Yields (renameLocated (locatedIn s.disk c entry) d name) s
      (if c = d ∧ entry.primary.name = name then .ok () else .error .alreadyExists) := by
  refine ((h.placed hr hk).1.yields hm).bind fun t ht => ?_
  have hmt := ht.mounted hm
  have hfind := (h.quiet ht).find_yields hmt name
  rw [hnamed] at hfind
  refine yields_found hfind (fun e he => failIf_bind he) fun u hu => ?_
  refine (yields_failIf (hu.mounted hmt) _ _).congr ?_
  rw [ite_not]
  rfl

theorem rename_own (hm : s.Mounted) (h : Scanned s d pages) (hr : (c, entry) ∈ recordsOf pages) (hk : entry.kind = .regular) :
    Yields (renameLocated (locatedIn s.disk c entry) d entry.primary.name) s (if c = d then .ok () else .error .alreadyExists) := by
  obtain ⟨r, hnamed⟩ := recordNamed_of_mem hr
  refine (rename_found hm h hr hk hnamed).congr ?_
  simp only [and_true]

theorem yields_missing {α β : Type} {m : Service α} {g : Except IosError α → Service β} {r : Except IosError β}
    (h : Yields m s (.error .notFound)) (hg : ∀ e, e ≠ .notFound → g (.error e) = fail e)
    (hrest : ∀ t, Quiet s t → Yields (g (.error .notFound)) t r) : Yields (attempt m >>= g) s r := by
  have hbind : Yields (mustBeAbsent m >>= fun _ => g (.error .notFound)) s r :=
    ((mustBeAbsent_yields h).congr (by rw [absent, if_pos rfl])).bind hrest
  unfold Yields wp at hbind ⊢
  rwa [attempt_missing h hg]

theorem passes_missing {α β : Type} {m : Service α} {g : Except IosError α → Service β} {b k : Nat} {R : β → FileService → Prop}
    (h : Yields m s (.error .notFound)) (hk : 1 ≤ k) (hg : ∀ e, e ≠ .notFound → g (.error e) = fail e)
    (hrest : ∀ t, Quiet s t → Passes (g (.error .notFound)) t b k R) : Passes (attempt m >>= g) s b k R := by
  have hbind : Passes (mustBeAbsent m >>= fun _ => g (.error .notFound)) s b k R :=
    ((mustBeAbsent_yields h).congr (by rw [absent, if_pos rfl])).passes hk hrest
  unfold Passes wp at hbind ⊢
  rwa [attempt_missing h hg]

theorem rename_later (hm : s.Mounted) (h : Scanned s d pages) (hr : (c, entry) ∈ recordsOf pages) (hk : entry.kind = .regular)
    (hc : c ≠ d) (hbase : entry.primary.name.slice 0 8 = name.slice 0 8) :
    Yields (renameLocated (locatedIn s.disk c entry) d name) s (.error .alreadyExists) := by
  cases hnamed : recordNamed pages name with
  | some r => exact (rename_found hm h hr hk hnamed).congr (if_neg fun hx => hc hx.1)
  | none =>
    refine ((h.placed hr hk).1.yields hm).bind fun t ht => ?_
    have hmt := ht.mounted hm
    have hfind := (h.quiet ht).find_yields hmt name
    rw [hnamed] at hfind
    refine yields_missing hfind (fun e he => failIf_bind he) fun u hu => ?_
    have hmu := hu.mounted hmt
    have hbases := yields_absent (((h.quiet ht).quiet hu).findDisplayBase_yields hmu name
      (if c = d then some (locatedIn s.disk c entry) else none))
    refine (hbases.congr (if_pos ?_)).bind_error
    obtain ⟨page, hp, hpc, he, hkind⟩ := mem_recordsOf.mp hr
    refine ⟨page, hp, entry, he, hkind, hbase, fun other ho => ?_⟩
    rw [if_neg hc] at ho
    cases ho

/-- The record has the new name in its own slots, and no other record and no entry of the table changed. -/
structure RenamedInPlace (s t : FileService) (located : LocatedEntry) (name : Name) : Prop where
  companion : slotAt (t.disk.data located.directoryCluster) located.companionSlot = companionRecord true name
  record : slotAt (t.disk.data located.directoryCluster) located.primarySlot = primaryBytes { located.primary with name }
  others : ∀ e j, ¬(e = located.directoryCluster ∧ (j = located.companionSlot ∨ j = located.primarySlot)) →
    slotAt (t.disk.data e) j = slotAt (s.disk.data e) j
  table : t.fat = s.fat

theorem RenamedInPlace.source {u : FileService} (h : RenamedInPlace t u located name) (ht : Quiet s t) :
    RenamedInPlace s u located name :=
  ⟨h.companion, h.record, fun e j hx => by rw [h.others e j hx, ht.disk], by rw [h.table, ht.fat]⟩

theorem renameInPlace_passes (hm : s.Mounted) (hf : s.Flushable) (hplace : Placed s located) (hn : validStoredName name = true) :
    Passes (persistCompanion located located.primary.name false >>= fun _ => barrier >>= fun _ =>
        commitPrimary located { located.primary with name }) s (1 + 3) (max 2 s.dirtyFatSectors.length) fun _ t =>
      RenamedInPlace s t located name := by
  have hold := hplace.sound.name (Or.inl rfl)
  have hfence := goes_kept hm (@persistCompanion_spec s hm located located.primary.name false hplace.valid hplace.companionSlot hold)
  rw [← bind_assoc]
  refine (hfence.passes (b := 1) le_rfl (le_max_of_le_left one_le_two)).bind fun _ t hx => ?_
  obtain ⟨hw, hkept⟩ := hx
  have hmt := hw.mounted hm
  have hdt : t.disk = s.disk.record located.directoryCluster located.companionSlot (companionRecord false located.primary.name) := hw.disk
  have hdirty : t.dirtyFatSectors = s.dirtyFatSectors := by rw [hkept]
  have hft : t.Flushable := by
    refine ⟨?_, ?_⟩
    · rw [Bounded, hkept]
      exact hf.bounded
    · rw [hkept]
      exact hf.inTable
  have hvt : Fat.validCluster located.directoryCluster t.fatEntryCount := by
    rw [hkept]
    exact hplace.valid
  have hcommit := commitPrimary_flushes hmt hft hvt hplace.companionSlot hplace.primarySlot.2 (renamed_sound hplace.sound hn).1
  refine wp_mono (Goes.passes hcommit (b := 3) le_rfl (by rw [hdirty])) (fun _ u hx => ?_) fun _ _ he => he
  obtain ⟨hD, hwu, hu⟩ := hx
  refine ⟨hD, ?_⟩
  have hdu : u.disk = ((t.disk.record located.directoryCluster located.companionSlot (companionRecord false name)).table
      t.flushedTable).committed located.directoryCluster located.primarySlot located.companionSlot { located.primary with name } :=
    hwu.disk
  have hne : located.primarySlot ≠ located.companionSlot := by
    rw [hplace.primarySlot.1]
    exact Nat.succ_ne_self _
  refine ⟨?_, ?_, fun e j hx => ?_, by rw [hu, hkept]⟩
  · rw [hdu, Disk.committed_slot hplace.companionSlot hplace.primarySlot.2, if_pos ⟨rfl, rfl⟩]
  · rw [hdu, Disk.committed_slot hplace.companionSlot hplace.primarySlot.2, if_neg fun h => hne h.2, if_pos ⟨rfl, rfl⟩]
  · have hcs : ¬(e = located.directoryCluster ∧ j = located.companionSlot) := fun h => hx ⟨h.1, Or.inl h.2⟩
    have hps : ¬(e = located.directoryCluster ∧ j = located.primarySlot) := fun h => hx ⟨h.1, Or.inr h.2⟩
    rw [hdu, Disk.committed_slot hplace.companionSlot hplace.primarySlot.2, if_neg hcs, if_neg hps, Disk.table_data,
      Disk.record_slot hplace.companionSlot, if_neg hcs, hdt, Disk.record_slot hplace.companionSlot, if_neg hcs]

theorem rename_accepted (hm : s.Mounted) (hf : s.Flushable) (h : Scanned s d pages) (hr : (d, entry) ∈ recordsOf pages)
    (hk : entry.kind = .regular) (hn : validStoredName name = true) (hne : name ≠ entry.primary.name)
    (hfree : ¬BaseTaken pages name d entry.primarySlot) :
    Passes (renameLocated (locatedIn s.disk d entry) d name) s (1 + 3) (max 2 s.dirtyFatSectors.length) fun _ t =>
      RenamedInPlace s t (locatedIn s.disk d entry) name := by
  obtain ⟨hreg, hplace⟩ := h.placed hr hk
  have hroom : 1 ≤ max 2 s.dirtyFatSectors.length := le_max_of_le_left one_le_two
  have hnamed : recordNamed pages name = none := by
    cases hx : recordNamed pages name with
    | none => rfl
    | some r =>
      obtain ⟨hr', hname⟩ := recordNamed_some hx
      exact absurd ⟨r, hr', h.other hr hr' (by rw [hname]; exact hne), by rw [hname]⟩ hfree
  refine (hreg.yields hm).passes hroom fun t ht => ?_
  have hmt := ht.mounted hm
  have hfind := (h.quiet ht).find_yields hmt name
  rw [hnamed] at hfind
  refine passes_missing hfind hroom (fun e he => failIf_bind he) fun u hu => ?_
  have hsu := ht.trans hu
  have hmu := hu.mounted hmt
  have hbases := yields_absent ((h.quiet hsu).findDisplayBase_yields hmu name
    (if d = d then some (locatedIn s.disk d entry) else none))
  have hclear : ¬∃ page ∈ pages, ∃ e ∈ page.2, sameDisplayBase name
      (if d = d then some (locatedIn s.disk d entry) else none) page.1 e := by
    rw [if_pos rfl]
    exact fun hx => hfree (sameBase_iff.mp hx)
  refine (hbases.congr (if_neg hclear)).passes hroom fun v hv => ?_
  have hsv := hsu.trans hv
  have hmv := hv.mounted hmu
  have hdirty : v.dirtyFatSectors = s.dirtyFatSectors := by rw [hsv.memory]
  have hwrites := renameInPlace_passes hmv (hf.quiet hsv) (hplace.quiet hsv) hn
  rw [hdirty] at hwrites
  show Passes (if (locatedIn s.disk d entry).directoryCluster = d then _ else _) v _ _ _
  rw [if_pos (show (locatedIn s.disk d entry).directoryCluster = d from rfl)]
  exact wp_mono hwrites (fun _ w ⟨hD, hw⟩ => ⟨hD, hw.source hsv⟩) fun _ _ he => he

/-- A file is renamed within its directory as its owner expects: its own name changes nothing, and every other name
    whose base no other record shows is taken over in place. -/
structure RenamesWithin (s : FileService) (d : Nat) (pages : List (Nat × List DirectoryEntry)) (c : Nat) (entry : DirectoryEntry) :
    Prop where
  own : Yields (renameLocated (locatedIn s.disk c entry) d entry.primary.name) s (.ok ())
  accepts : ∀ name, validStoredName name = true → name ≠ entry.primary.name → ¬BaseTaken pages name c entry.primarySlot →
    Passes (renameLocated (locatedIn s.disk c entry) d name) s 4 (max 2 s.dirtyFatSectors.length) fun _ t =>
      RenamedInPlace s t (locatedIn s.disk c entry) name

/-- A file of a directory is renamed as expected exactly when its record lies in the first cluster of the chain. -/
theorem renamesWithin_iff (hm : s.Mounted) (hf : s.Flushable) (hroom : s.Room 1) (h : Scanned s d pages)
    (hr : (c, entry) ∈ recordsOf pages) (hk : entry.kind = .regular) : RenamesWithin s d pages c entry ↔ c = d := by
  constructor
  · intro hx
    by_contra hc
    have hrefused := (rename_own hm h hr hk).outcome hroom
    rw [if_neg hc, hx.own.outcome hroom] at hrefused
    cases hrefused
  · rintro rfl
    exact ⟨(rename_own hm h hr hk).congr (if_pos rfl), fun name hn hne hfree => rename_accepted hm hf h hr hk hn hne hfree⟩

def emptyEntry : DirectoryEntry := ⟨emptyFile, 1, some 0, .regular⟩

/-- A file in the only cluster of its directory. -/
theorem renamesWithin_first : ∃ s : FileService, RenamesWithin s 4 [(4, fileEntries)] 4 emptyEntry := by
  obtain ⟨s, hs, -, hroom, -, hscan, -⟩ := exists_chained scan_ownEntries scan_fileEntries
  exact ⟨s, (renamesWithin_iff hs.mounted hs.loaded.flushable hroom hscan (by simp [recordsOf, fileEntries, emptyEntry]) rfl).mpr rfl⟩

/-- A file in the second cluster of its directory: its own name and another extension are refused, though no other
    record shows the base. -/
theorem rename_refused_later : ∃ s : FileService, Scanned s 3 [(3, ownEntries), (4, fileEntries)] ∧
    (renameLocated (locatedIn s.disk 4 emptyEntry) 3 emptyFile.name s).1 = .error .alreadyExists ∧
    (renameLocated (locatedIn s.disk 4 emptyEntry) 3 (padName [ascii 'A'] [ascii 'B']) s).1 = .error .alreadyExists ∧
    ¬BaseTaken [(3, ownEntries), (4, fileEntries)] (padName [ascii 'A'] [ascii 'B']) 4 emptyEntry.primarySlot := by
  obtain ⟨s, hs, -, hroom, -, -, hscan⟩ := exists_chained scan_ownEntries scan_fileEntries
  have hm := hs.mounted
  have hrecords : recordsOf [(3, ownEntries), (4, fileEntries)] = [(4, emptyEntry)] := rfl
  have hr : (4, emptyEntry) ∈ recordsOf [(3, ownEntries), (4, fileEntries)] := by
    rw [hrecords]
    exact List.mem_singleton_self _
  refine ⟨s, hscan, (rename_later hm hscan hr rfl (by decide) rfl).outcome hroom,
    (rename_later hm hscan hr rfl (by decide) (by decide)).outcome hroom, ?_⟩
  rintro ⟨r, hmem, hother, -⟩
  rw [hrecords, List.mem_singleton] at hmem
  subst hmem
  exact hother ⟨rfl, rfl⟩

end FileService
end InferenceOS
