import InferenceOS.Theorems.Listings
import InferenceOS.Theorems.DrawnVolumes

/-! The search for an extension against a plain one: the files below the root in the order of a depth-first
    walk, compared by their extensions alone. -/

namespace InferenceOS
open Program

theorem companionDecode_hash {c : Slot} {companion : Companion} (h : companionDecode c = .ok companion) :
    companion.extensionHashText = c.slice 8 8 := by
  unfold companionDecode at h
  split at h
  · cases h
  · split at h
    · cases h
    · cases h
      rfl

theorem recordPairMatchesExtension_eq {companionDisk primaryDisk : Slot} {p : Primary} {extension : Text}
    (hpair : recordPairValidate companionDisk primaryDisk = .ok ()) (hp : primaryDecode primaryDisk = .ok p)
    (hne : extension ≠ []) (hlen : extension.length ≤ 3) :
    recordPairMatchesExtension primaryDisk companionDisk extension (hashText (fnv1a32 extension)) =
      .ok (decide (extensionOf p.name = extension)) := by
  obtain ⟨q, hc, hq, -⟩ := recordPairValidate_eq_ok hpair
  rw [hp] at hq
  cases hq
  have hhash := companionDecode_hash hc
  obtain ⟨-, hadm, -⟩ := primaryDecode_eq_ok hp
  have hname := nameExtension_eq (Primary.admissible_iff.mp hadm).1
  unfold recordPairMatchesExtension
  simp only [if_neg (not_or.mpr ⟨hne, not_lt.mpr hlen⟩), hpair, hp, hname, bind, Except.bind]
  by_cases hsame : extensionOf p.name = extension
  · rw [← hhash, companionOf, hsame, if_neg (not_not.mpr rfl)]
  · split
    · rw [decide_eq_false hsame]
    · rfl

theorem extensionQueryFrom_length : ∀ {input output extension : Text}, extensionQueryFrom input output = .ok extension →
    output.length ≤ 3 → output.length ≤ extension.length ∧ extension.length ≤ 3 ∧ (input ≠ [] → extension ≠ [])
  | [], output, extension, h, hl => by
    cases h
    exact ⟨le_rfl, hl, fun hx => absurd rfl hx⟩
  | value :: rest, output, extension, h, hl => by
    unfold extensionQueryFrom at h
    split at h
    · cases h
    · rename_i hx
      obtain ⟨-, hfull⟩ := not_or.mp hx
      have hlen : (output ++ [upperCase value]).length = output.length + 1 := by simp
      obtain ⟨h₁, h₂, -⟩ := extensionQueryFrom_length h (by omega)
      refine ⟨by omega, h₂, fun _ hnil => ?_⟩
      rw [hnil, List.length_nil] at h₁
      omega

theorem extensionQueryCanonicalize_eq_ok {input extension : Text} (h : extensionQueryCanonicalize input = .ok extension) :
    extension ≠ [] ∧ extension.length ≤ 3 := by
  unfold extensionQueryCanonicalize at h
  obtain ⟨-, hrest⟩ := of_check h
  dsimp only at hrest
  obtain ⟨hne, hfrom⟩ := of_check hrest
  obtain ⟨-, hlen, hx⟩ := extensionQueryFrom_length hfrom (Nat.zero_le _)
  exact ⟨hx hne, hlen⟩

structure ExtensionQuery.Proper (query : ExtensionQuery) : Prop where
  nonempty : query.extension ≠ []
  short : query.extension.length ≤ 3
  hash : query.hash = hashText (fnv1a32 query.extension)

namespace FileService
variable {s t : FileService} {d c : Nat} {pages : List (Nat × List DirectoryEntry)}

theorem displayBaseName_length (name : Name) : (displayBaseName name).length ≤ 8 := by
  have h : (displayBaseName name).length ≤ (name.slice 0 8).toList.length := (List.rdropWhile_prefix _ _).length_le
  simpa [Bytes.toList] using h

theorem displayBaseName_ne_nil {name : Name} (h : validStoredName name = true) : displayBaseName name ≠ [] := by
  intro hnil
  unfold displayBaseName at hnil
  rw [List.rdropWhile_eq_nil_iff] at hnil
  have hmem : name.byte 0 ∈ (name.slice 0 8).toList := List.mem_ofFn.mpr ⟨0, rfl⟩
  have hspace := hnil _ hmem
  exact (supportedNameByte_ne (validStoredName_head h)).2.2.2.2 (by simpa using hspace)

def childPath (path : Text) (name : Name) : Text :=
  path ++ (if 1 < path.length then [ascii '/'] else []) ++ displayBaseName name

theorem childPath_length (path : Text) (name : Name) : (childPath path name).length ≤ path.length + 9 := by
  have := displayBaseName_length name
  unfold childPath
  rw [List.length_append, List.length_append]
  split
  · rw [List.length_singleton]
    omega
  · rw [List.length_nil]
    omega

theorem appendDisplayComponent_eq {path : Text} {name : Name} (hn : validStoredName name = true)
    (hp : path.length + 9 ≤ pathMax) : appendDisplayComponent path name = .ok (childPath path name) := by
  have hlen := displayBaseName_length name
  have hsep : (if 1 < path.length then [ascii '/'] else ([] : Text)).length ≤ 1 := by
    split
    · exact le_rfl
    · exact Nat.zero_le _
  unfold appendDisplayComponent
  dsimp only
  rw [if_neg]
  · rfl
  · rintro (hx | hx | hx)
    · exact displayBaseName_ne_nil hn hx
    · omega
    · omega

/-- A file with its display path. -/
structure FoundFile where
  cluster : Nat
  entry : DirectoryEntry
  path : Text

/-- The clusters of a directory with their entries, nothing where a scan fails. -/
def pagesOf (s : FileService) (d : Nat) : List (Nat × List DirectoryEntry) :=
  match Fat.traverse s.fat s.fatEntryCount d maxClusters with
  | .error _ => []
  | .ok clusters => clusters.map fun c =>
    (c, match directoryScan (slotAt (s.disk.data c)) directorySlots directorySlots directorySlots with
      | .error _ => []
      | .ok entries => entries)

/-- The files of some records and those `below` the directories among them, in order. -/
def filesOf (below : Nat → Text → List FoundFile) (path : Text) (records : List (Nat × DirectoryEntry)) : List FoundFile :=
  records.flatMap fun r =>
    if r.2.kind = .directory then below r.2.primary.firstCluster (childPath path r.2.primary.name)
    else [⟨r.1, r.2, childPath path r.2.primary.name⟩]

/-- The files below directory `d`, depth first and in the order of the slots, up to `levels` directories down. -/
def filesBelow (s : FileService) : Nat → Nat → Text → List FoundFile
  | 0, d, path => filesOf (fun _ _ => []) path (recordsOf (pagesOf s d))
  | levels + 1, d, path => filesOf (filesBelow s levels) path (recordsOf (pagesOf s d))

/-- Directory `d` and the directories below it can be scanned, and at most `levels` of them lie below each other. -/
def Deep (s : FileService) : Nat → Nat → Prop
  | 0, d => ∃ pages, Scanned s d pages ∧ ∀ r ∈ recordsOf pages, r.2.kind ≠ .directory
  | levels + 1, d => ∃ pages, Scanned s d pages ∧
    ∀ r ∈ recordsOf pages, r.2.kind = .directory → Deep s levels r.2.primary.firstCluster

theorem Scanned.pagesOf_eq (h : Scanned s d pages) : pagesOf s d = pages := by
  unfold pagesOf
  rw [h.chain]
  dsimp only
  rw [List.map_map]
  refine (List.map_congr_left fun page hp => ?_).trans (List.map_id _)
  simp only [Function.comp_apply, h.scans page hp, id_eq]

def FoundFile.result (g : Geometry) (file : FoundFile) : SearchResult :=
  ⟨fileIdentity g file.cluster file.entry.primarySlot, file.path⟩

def withExtension (extension : Text) (files : List FoundFile) : List FoundFile :=
  files.filter fun file => extensionOf file.entry.primary.name = extension

def collect (g : Geometry) (query : ExtensionQuery) : List FoundFile → ExtensionSearch → ExtensionSearch
  | [], search => search
  | file :: rest, search =>
    if search.stop then search
    else if extensionOf file.entry.primary.name ≠ query.extension then collect g query rest search
    else if search.results.length = query.capacity then { search with truncated := true, stop := true }
    else collect g query rest { search with results := search.results ++ [file.result g] }

section Collect
variable {g : Geometry} {query : ExtensionQuery} {files files' : List FoundFile} {search : ExtensionSearch}

theorem collect_stop (h : search.stop = true) : collect g query files search = search := by
  cases files with
  | nil => rfl
  | cons file rest => exact if_pos h

theorem collect_append : ∀ {files : List FoundFile} {search : ExtensionSearch},
    collect g query (files ++ files') search = collect g query files' (collect g query files search)
  | [], _ => rfl
  | file :: rest, search => by
    rw [List.cons_append, collect, collect]
    split
    · exact (collect_stop ‹_›).symm
    · split
      · exact collect_append
      · split
        · exact (collect_stop rfl).symm
        · exact collect_append

theorem collect_eq : ∀ {files : List FoundFile} {results : List SearchResult}, results.length ≤ query.capacity →
    let rest := withExtension query.extension files
    let room := query.capacity - results.length
    collect g query files ⟨results, false, false⟩ =
      ⟨results ++ (rest.take room).map (·.result g), decide (room < rest.length), decide (room < rest.length)⟩
  | [], results, hl => by
    simp [collect, withExtension]
  | file :: files, results, hl => by
    dsimp only
    rw [collect, if_neg Bool.false_ne_true]
    by_cases hx : extensionOf file.entry.primary.name = query.extension
    · have hcons : withExtension query.extension (file :: files) = file :: withExtension query.extension files :=
        List.filter_cons_of_pos (by simpa using hx)
      rw [if_neg (not_not.mpr hx), hcons, List.length_cons]
      by_cases hfull : results.length = query.capacity
      · rw [if_pos hfull, hfull, Nat.sub_self]
        simp
      · have hroom : query.capacity - results.length = query.capacity - (results.length + 1) + 1 := by omega
        have hlen : (results ++ [file.result g]).length = results.length + 1 := by simp
        have ih := @collect_eq files (results ++ [file.result g]) (by omega)
        rw [if_neg hfull, ih, hlen, hroom, List.take_succ_cons, List.map_cons, List.append_assoc, List.singleton_append]
        simp
    · have hskip : withExtension query.extension (file :: files) = withExtension query.extension files :=
        List.filter_cons_of_neg (by simpa using hx)
      rw [if_pos hx, hskip]
      exact collect_eq hl

end Collect

def walkRecords (g : Geometry) (query : ExtensionQuery)
    (below : Nat → Text → ExtensionSearch → Except IosError ExtensionSearch) (path : Text) :
    List (Nat × DirectoryEntry) → ExtensionSearch → Except IosError ExtensionSearch
  | [], search => .ok search
  | r :: rest, search =>
    if search.stop then .ok search
    else do
      let child ← appendDisplayComponent path r.2.primary.name
      let visited := if r.2.kind = .directory then below r.2.primary.firstCluster child search
        else .ok (collect g query [⟨r.1, r.2, child⟩] search)
      let search ← visited
      walkRecords g query below path rest search

def walkBelow (s : FileService) (query : ExtensionQuery) : Nat → Nat → Text → ExtensionSearch → Except IosError ExtensionSearch
  | 0, d, path, search =>
    walkRecords s.mount.geometry query (fun _ _ _ => .error .corrupt) path (recordsOf (pagesOf s d)) search
  | levels + 1, d, path, search =>
    walkRecords s.mount.geometry query (walkBelow s query levels) path (recordsOf (pagesOf s d)) search

section Walks
variable {g : Geometry} {query : ExtensionQuery} {below : Nat → Text → ExtensionSearch → Except IosError ExtensionSearch}
  {path : Text} {records records' : List (Nat × DirectoryEntry)} {search : ExtensionSearch}

theorem walkRecords_stop (h : search.stop = true) : walkRecords g query below path records search = .ok search := by
  cases records with
  | nil => rfl
  | cons r rest => exact if_pos h

theorem walkRecords_append : ∀ {records : List (Nat × DirectoryEntry)} {search : ExtensionSearch},
    walkRecords g query below path (records ++ records') search =
      walkRecords g query below path records search >>= walkRecords g query below path records'
  | [], _ => rfl
  | r :: rest, search => by
    rw [List.cons_append, walkRecords, walkRecords]
    split
    · exact (walkRecords_stop ‹_›).symm
    · cases appendDisplayComponent path r.2.primary.name with
      | error e => rfl
      | ok child =>
        show (if r.2.kind = .directory then below r.2.primary.firstCluster child search
          else Except.ok (collect g query [⟨r.1, r.2, child⟩] search)) >>= walkRecords g query below path (rest ++ records') = _
        cases hv : (if r.2.kind = .directory then below r.2.primary.firstCluster child search
          else Except.ok (collect g query [⟨r.1, r.2, child⟩] search)) with
        | error e =>
          simp only [bind, Except.bind, hv]
        | ok search' =>
          simp only [bind, Except.bind, hv]
          exact walkRecords_append

end Walks

theorem searchRecords_yields {query : ExtensionQuery} {child : SearchBelow}
    {below : Nat → Text → ExtensionSearch → Except IosError ExtensionSearch} {path : Text} {entries : List DirectoryEntry}
    (hm : s.Mounted) (hv : Fat.validCluster c s.fatEntryCount)
    (hscan : directoryScan (slotAt (s.disk.data c)) directorySlots directorySlots directorySlots = .ok entries)
    (hq : query.Proper) (hchild : ∀ e ∈ entries, e.kind = .directory → ∀ path search t, Quiet s t →
      Yields (child e.primary.firstCluster path search) t (below e.primary.firstCluster path search)) :
    ∀ {fuel index : Nat} {search : ExtensionSearch} {t : FileService}, entries.length ≤ fuel + index → Quiet s t →
      t.directory = s.disk.data c → Yields (searchRecords query child c path fuel index entries search) t
        (walkRecords s.mount.geometry query below path
          (((entries.drop index).filter (·.kind ≠ .internal)).map fun entry => (c, entry)) search)
  | 0, index, search, t, hf, ht, hdir => by
    rw [List.drop_eq_nil_of_le (by omega)]
    exact yields_pure (ht.mounted hm) search
  | fuel + 1, index, search, t, hf, ht, hdir => by
    have hmt := ht.mounted hm
    unfold searchRecords
    by_cases hstop : search.stop = true
    · rw [if_pos hstop, walkRecords_stop hstop]
      exact yields_pure hmt search
    rw [if_neg hstop]
    by_cases hindex : index < entries.length
    swap
    · rw [List.getElem?_eq_none (by omega), List.drop_eq_nil_of_le (by omega)]
      exact yields_pure hmt search
    rw [List.getElem?_eq_getElem hindex, List.drop_eq_getElem_cons hindex]
    generalize hentry : entries[index] = entry
    have hmem : entry ∈ entries := hentry ▸ List.getElem_mem hindex
    have hslot := directoryScan_entries hscan entry hmem
    dsimp only
    by_cases hinternal : entry.kind = .internal
    · rw [if_pos hinternal, List.filter_cons_of_neg (by simp [hinternal])]
      exact searchRecords_yields hm hv hscan hq hchild (by omega) ht hdir
    rw [if_neg hinternal, List.filter_cons_of_pos (by simp [hinternal]), List.map_cons, walkRecords, if_neg hstop]
    dsimp only
    cases happend : appendDisplayComponent path entry.primary.name with
    | error e => exact (yields_fail hmt e).bind_error
    | ok childPath =>
      rw [ofExcept_ok_bind]
      by_cases hk : entry.kind = .directory
      · rw [if_pos hk]
        show Yields _ t ((if entry.kind = .directory then below entry.primary.firstCluster childPath search
          else Except.ok (collect s.mount.geometry query [⟨c, entry, childPath⟩] search)) >>= _)
        rw [if_pos hk]
        refine (hchild entry hmem hk childPath search t ht).bindE fun search' u _ hu => ?_
        have hqu := ht.trans hu
        have hmu := hqu.mounted hm
        by_cases hstop' : search'.stop = true
        · rw [if_pos hstop', walkRecords_stop hstop']
          exact yields_pure hmu search'
        rw [if_neg hstop']
        unfold Yields
        refine wp_page hmu (by rwa [hqu.fatEntryCount]) (by rwa [hqu.disk]) (fun w hw hdir' => ?_) fun e w hw he hr =>
          ⟨hw, Or.inr ⟨he, hr⟩⟩
        rw [failIf_pass (by omega)]
        rw [hqu.disk] at hdir'
        exact (searchRecords_yields hm hv hscan hq hchild (by omega) (hqu.trans hw) hdir').after hw
      · rw [if_neg hk]
        show Yields _ t ((if entry.kind = .directory then below entry.primary.firstCluster childPath search
          else Except.ok (collect s.mount.geometry query [⟨c, entry, childPath⟩] search)) >>= _)
        rw [if_neg hk]
        cases hslot with
        | directory => exact absurd rfl hk
        | internal => exact absurd rfl hinternal
        | @regular k p hlt hpair hp =>
          have hsame := recordPairMatchesExtension_eq hpair hp hq.nonempty hq.short
          unfold directorySlots at hlt
          rw [failIf_pass (by unfold directorySlots; simp only [Option.getD_some]; omega)]
          rw [← hdir, ← hq.hash] at hsame
          unfold Yields
          simp only [wp_bind, wp_get, Option.getD_some, hsame]
          rw [← wp_bind, ofExcept_ok_bind]
          show wp _ (fun a u => Quiet t u ∧ walkRecords s.mount.geometry query below path _
            (collect s.mount.geometry query [⟨c, _, childPath⟩] search) = .ok a) _ t
          rw [collect, if_neg hstop]
          by_cases hx : extensionOf p.name = query.extension
          · rw [if_neg (by simpa using hx), if_neg (not_not.mpr hx)]
            by_cases hfull : search.results.length = query.capacity
            · rw [if_pos hfull, if_pos hfull, walkRecords_stop rfl]
              exact yields_pure hmt _
            · rw [if_neg hfull, if_neg hfull, ← ht.mount]
              have ih := @searchRecords_yields query child below path entries hm hv hscan hq hchild fuel (index + 1)
                { search with results := search.results ++ [⟨fileIdentity t.mount.geometry c (k + 1), childPath⟩] } t
                (by omega) ht hdir
              rw [← ht.mount] at ih
              exact ih
          · rw [if_pos (by simpa using hx), if_pos hx]
            exact searchRecords_yields hm hv hscan hq hchild (by omega) ht hdir

theorem searchClusters_yields {query : ExtensionQuery} {child : SearchBelow}
    {below : Nat → Text → ExtensionSearch → Except IosError ExtensionSearch} {path : Text}
    (hm : s.Mounted) (hs : Scanned s d pages) (hq : query.Proper)
    (hchild : ∀ r ∈ recordsOf pages, r.2.kind = .directory → ∀ path search t, Quiet s t →
      Yields (child r.2.primary.firstCluster path search) t (below r.2.primary.firstCluster path search)) :
    ∀ {fuel index : Nat} {search : ExtensionSearch} {t : FileService}, pages.length ≤ fuel + index → Quiet s t →
      Yields (searchClusters query child d path fuel index pages.length search) t
        (walkRecords s.mount.geometry query below path (recordsOf (pages.drop index)) search)
  | 0, index, search, t, hf, ht => by
    rw [List.drop_eq_nil_of_le (by omega)]
    exact yields_pure (ht.mounted hm) search
  | fuel + 1, index, search, t, hf, ht => by
    have hmt := ht.mounted hm
    unfold searchClusters
    by_cases hstop : search.stop = true
    · rw [if_pos (Or.inr hstop), walkRecords_stop hstop]
      exact yields_pure hmt search
    by_cases hindex : index < pages.length
    swap
    · rw [if_pos (Or.inl (by omega)), List.drop_eq_nil_of_le (by omega)]
      exact yields_pure hmt search
    rw [if_neg (not_or.mpr ⟨by omega, hstop⟩)]
    refine ((hs.quiet ht).chain_yields hmt).bind fun u hu => ?_
    have hqu := ht.trans hu
    rw [List.getElem?_map, List.getElem?_eq_getElem hindex, List.drop_eq_getElem_cons hindex, List.length_map]
    generalize hpage : pages[index] = page
    have hmem : page ∈ pages := hpage ▸ List.getElem_mem hindex
    have hv := hs.valid page hmem
    have hscan := hs.scans page hmem
    unfold Yields
    refine wp_page (hqu.mounted hm) (by rwa [hqu.fatEntryCount]) (by rwa [hqu.disk]) (fun w hw hdir => ?_)
      fun e w hw he hr => ⟨hw, Or.inr ⟨he, hr⟩⟩
    rw [hqu.disk] at hdir
    have hqw := hqu.trans hw
    have hlen : page.2.length ≤ directorySlots := scanFrom_length
      (show scanFrom _ directorySlots directorySlots directorySlots directorySlots 0 [] = .ok page.2 from hscan) (Nat.zero_le _)
    have hrecords := @searchRecords_yields s page.1 query child below path page.2 hm hv hscan hq
      (fun e he hk => hchild (page.1, e) (mem_recordsOf.mpr ⟨page, hmem, rfl, he, by rw [hk]; decide⟩) hk)
      directorySlots 0 search w hlen hqw hdir
    rw [recordsOf, List.flatMap_cons, walkRecords_append]
    refine (hrecords.bindE fun search' x _ hx => ?_).after hw
    exact searchClusters_yields hm hs hq hchild (by omega) (hqw.trans hx)

theorem searchDirectory_yields {query : ExtensionQuery} {dirs : Nat → Prop} (hm : s.Mounted) (hq : query.Proper)
    (hs : ∀ d, dirs d → Scanned s d (pagesOf s d))
    (hclosed : ∀ d, dirs d → ∀ r ∈ recordsOf (pagesOf s d), r.2.kind = .directory → dirs r.2.primary.firstCluster) :
    ∀ {levels d : Nat} {path : Text} {search : ExtensionSearch} {t : FileService}, dirs d → Quiet s t →
      Yields (searchDirectory query levels d path search) t (walkBelow s query levels d path search) := by
  have hlen : ∀ {d}, dirs d → (pagesOf s d).length ≤ maxClusters := fun hd => by
    have := (Fat.traverse_eq_ok.mp (hs _ hd).chain).2.2.2.2
    rwa [List.length_map] at this
  intro levels
  induction levels with
  | zero =>
    intro d path search t hd ht
    unfold searchDirectory walkBelow
    refine (((hs d hd).quiet ht).chain_yields (ht.mounted hm)).bind fun u hu => ?_
    rw [List.length_map]
    refine searchClusters_yields hm (hs d hd) hq (fun r _ _ path search w hw => ?_) (hlen hd) (ht.trans hu)
    exact yields_fail (hw.mounted hm) _
  | succ levels ih =>
    intro d path search t hd ht
    unfold searchDirectory walkBelow
    refine (((hs d hd).quiet ht).chain_yields (ht.mounted hm)).bind fun u hu => ?_
    rw [List.length_map]
    exact searchClusters_yields hm (hs d hd) hq (fun r hx hk path search w hw => ih (hclosed d hd r hx hk) hw) (hlen hd)
      (ht.trans hu)

theorem searchExtension_walks {dirs : Nat → Prop} (hm : s.Mounted) (hi : s.initialized = true)
    (hs : ∀ d, dirs d → Scanned s d (pagesOf s d))
    (hclosed : ∀ d, dirs d → ∀ r ∈ recordsOf (pagesOf s d), r.2.kind = .directory → dirs r.2.primary.firstCluster)
    (hroot : dirs rootCluster) (input : Text) (capacity : Nat) :
    Yields (searchExtension input capacity) s (do
      if capacity = 0 ∨ searchResultCapacity < capacity then .error .invalidArgument
      let extension ← extensionQueryCanonicalize input
      let search ← walkBelow s ⟨extension, hashText (fnv1a32 extension), capacity⟩ maxDirectoryLevels rootCluster
        [ascii '/'] ⟨[], false, false⟩
      .ok (search.results, search.truncated)) := by
  unfold searchExtension
  by_cases hc : capacity = 0 ∨ searchResultCapacity < capacity
  · rw [if_pos hc, failIf_bind hc]
    exact yields_fail hm _
  rw [if_neg hc, failIf_pass hc]
  refine (validateReading_yields hm hi).bind fun t ht => ?_
  have hmt := ht.mounted hm
  refine (yields_ofExcept hmt _).bindE fun extension u hx hu => ?_
  obtain ⟨hne, hshort⟩ := extensionQueryCanonicalize_eq_ok hx
  have hqu := ht.trans hu
  refine (searchDirectory_yields hm ⟨hne, hshort, rfl⟩ hs hclosed hroot hqu).bindE fun search w _ hw => ?_
  exact yields_pure (hw.mounted (hqu.mounted hm)) _

theorem Deep.scanned : ∀ {levels : Nat}, Deep s levels d → Scanned s d (pagesOf s d) ∧
    ∀ r ∈ recordsOf (pagesOf s d), r.2.kind = .directory → ∃ k, levels = k + 1 ∧ Deep s k r.2.primary.firstCluster
  | 0, ⟨pages, hp, hr⟩ => by
    rw [hp.pagesOf_eq]
    exact ⟨hp, fun r hx hk => absurd hk (hr r hx)⟩
  | levels + 1, ⟨pages, hp, hr⟩ => by
    rw [hp.pagesOf_eq]
    exact ⟨hp, fun r hx hk => ⟨levels, rfl, hr r hx hk⟩⟩

theorem walkRecords_collect {query : ExtensionQuery} {below : Nat → Text → ExtensionSearch → Except IosError ExtensionSearch}
    {below' : Nat → Text → List FoundFile} {path : Text} {g : Geometry} (hpath : path.length + 9 ≤ pathMax) :
    ∀ {records : List (Nat × DirectoryEntry)} {search : ExtensionSearch},
    (∀ r ∈ records, validStoredName r.2.primary.name = true) →
    (∀ r ∈ records, r.2.kind = .directory → ∀ search, below r.2.primary.firstCluster (childPath path r.2.primary.name) search =
      .ok (collect g query (below' r.2.primary.firstCluster (childPath path r.2.primary.name)) search)) →
    walkRecords g query below path records search = .ok (collect g query (filesOf below' path records) search)
  | [], search, _, _ => rfl
  | r :: rest, search, hn, hb => by
    have ih : ∀ search, walkRecords g query below path rest search = .ok (collect g query (filesOf below' path rest) search) :=
      fun search => walkRecords_collect hpath (fun x hx => hn x (List.mem_cons_of_mem _ hx)) fun x hx =>
        hb x (List.mem_cons_of_mem _ hx)
    rw [walkRecords, filesOf, List.flatMap_cons, collect_append, appendDisplayComponent_eq (hn r List.mem_cons_self) hpath]
    by_cases hstop : search.stop = true
    · rw [if_pos hstop, collect_stop hstop, collect_stop hstop]
    · rw [if_neg hstop]
      show (if r.2.kind = .directory then below r.2.primary.firstCluster (childPath path r.2.primary.name) search
        else Except.ok (collect g query [⟨r.1, r.2, childPath path r.2.primary.name⟩] search)) >>= _ = _
      by_cases hk : r.2.kind = .directory
      · rw [if_pos hk, if_pos hk, hb r List.mem_cons_self hk]
        exact ih _
      · rw [if_neg hk, if_neg hk]
        exact ih _

theorem walkBelow_collect {query : ExtensionQuery} : ∀ {levels d : Nat} {path : Text} {search : ExtensionSearch},
    Deep s levels d → path.length + 9 * (levels + 1) ≤ pathMax → walkBelow s query levels d path search =
      .ok (collect s.mount.geometry query (filesBelow s levels d path) search) := by
  have named : ∀ {levels d}, Deep s levels d → ∀ r ∈ recordsOf (pagesOf s d), validStoredName r.2.primary.name = true := by
    intro levels d hd r hr
    obtain ⟨page, hp, -, -, hk⟩ := mem_recordsOf.mp hr
    exact (hd.scanned.1.slotEntry hr).name hk
  intro levels
  induction levels with
  | zero =>
    intro d path search hd hpath
    refine walkRecords_collect (by omega) (named hd) fun r hr hk => ?_
    obtain ⟨k, hk, -⟩ := hd.scanned.2 r hr hk
    omega
  | succ levels ih =>
    intro d path search hd hpath
    refine walkRecords_collect (by omega) (named hd) fun r hr hk search => ?_
    obtain ⟨k, hx, hdeep⟩ := hd.scanned.2 r hr hk
    cases hx
    have := childPath_length path r.2.primary.name
    exact ih hdeep (by omega)

theorem searchExtension_yields (hm : s.Mounted) (hi : s.initialized = true) (hd : Deep s maxDirectoryLevels rootCluster)
    (input : Text) (capacity : Nat) :
    Yields (searchExtension input capacity) s (do
      if capacity = 0 ∨ searchResultCapacity < capacity then .error .invalidArgument
      let extension ← extensionQueryCanonicalize input
      let found := withExtension extension (filesBelow s maxDirectoryLevels rootCluster [ascii '/'])
      .ok ((found.take capacity).map (·.result s.mount.geometry), decide (capacity < found.length))) := by
  have hwalk := @searchExtension_walks s (fun d => ∃ k, Deep s k d) hm hi (fun d ⟨k, hk⟩ => hk.scanned.1)
    (fun d ⟨k, hk⟩ r hr hx => (hk.scanned.2 r hr hx).imp fun _ h => h.2) ⟨_, hd⟩ input capacity
  refine hwalk.congr ?_
  by_cases hc : capacity = 0 ∨ searchResultCapacity < capacity
  · rw [if_pos hc, if_pos hc]
    rfl
  rw [if_neg hc, if_neg hc]
  show (extensionQueryCanonicalize input >>= _) = extensionQueryCanonicalize input >>= _
  cases extensionQueryCanonicalize input with
  | error e => rfl
  | ok extension =>
    show (walkBelow s _ maxDirectoryLevels rootCluster [ascii '/'] ⟨[], false, false⟩ >>= _) = _
    rw [walkBelow_collect hd (by decide), collect_eq (Nat.zero_le _)]
    rfl

/-- The search is exact on every volume whose directories can be scanned and lie at most sixteen levels deep: its
    results are the first matches of a plain search, `truncated` tells whether there are more, a working device is
    enough for it to succeed, and it changes nothing. -/
theorem searchExtension_exact (hm : s.Mounted) (hi : s.initialized = true) (hd : Deep s maxDirectoryLevels rootCluster)
    (input : Text) (capacity : Nat) :
    let found := fun extension => withExtension extension (filesBelow s maxDirectoryLevels rootCluster [ascii '/'])
    (∀ results truncated t, searchExtension input capacity s = (.ok (results, truncated), t) →
      ∃ extension, extensionQueryCanonicalize input = .ok extension ∧
        results = ((found extension).take capacity).map (·.result s.mount.geometry) ∧
          (truncated = true ↔ capacity < (found extension).length)) ∧
    (∀ extension, 0 < capacity ∧ capacity ≤ searchResultCapacity → extensionQueryCanonicalize input = .ok extension →
      s.Room 1 → ∃ result t, searchExtension input capacity s = (.ok result, t)) ∧
    ∀ r t, searchExtension input capacity s = (r, t) → t.disk = s.disk ∧ t.fat = s.fat ∧
      t.device.contents = s.device.contents ∧ t.device.history = s.device.history := by
  have hyields := searchExtension_yields hm hi hd input capacity
  dsimp only
  refine ⟨fun results truncated t hr => ?_, fun extension hc hx hroom => ?_, fun r t hr => ?_⟩
  · obtain ⟨-, hok⟩ := wp_ok hyields hr
    obtain ⟨-, hrest⟩ := of_check hok
    obtain ⟨extension, hx, hfound⟩ := of_bind_ok hrest
    cases hfound
    exact ⟨extension, hx, rfl, decide_eq_true_iff⟩
  · rcases hr : searchExtension input capacity s with ⟨e | result, t⟩
    · obtain ⟨-, he | ⟨-, hnot⟩⟩ := wp_error hyields hr
      · rw [if_neg (by omega), hx] at he
        cases he
      · exact absurd hroom hnot
    · exact ⟨result, t, rfl⟩
  · have hq := (searchExtension_keeps reads_unchanged).run hr hm
    exact ⟨hq.disk, hq.fat, hq.wrote.contents, hq.wrote.history⟩

theorem Consistent.scanned {T : Tree} (h : Consistent s T) (hd : T.dirs d) : Scanned s d [(d, entriesOf (T.items d))] :=
  (h.directory hd).scanned h.mounted

def fileNamed (base extension : Char) : Primary := newFile (padName [ascii base] [ascii extension])

def nestedDirectory : Primary := newDirectory (padName [ascii 'D'] []) 3

/-- The root holds `A.T`, the directory `D` and `B.S`, and the directory holds `C.T`. -/
def nestedClusters (c : Nat) : ClusterBytes :=
  if c = rootCluster then
    putPair ((putPair Bytes.zero 0 (fileNamed 'A' 'T')).put (32 * 2) (primaryBytes nestedDirectory)) 3 (fileNamed 'B' 'S')
  else putPair (newDirectoryCluster 3 rootCluster) 2 (fileNamed 'C' 'T')

def nestedRoot : List DirectoryEntry :=
  [⟨fileNamed 'A' 'T', 1, some 0, .regular⟩, ⟨nestedDirectory, 2, none, .directory⟩, ⟨fileNamed 'B' 'S', 4, some 3, .regular⟩]

def nestedInner : List DirectoryEntry :=
  [⟨⟨internalName false, attributeDirectory, 3, 0⟩, 0, none, .internal⟩,
    ⟨⟨internalName true, attributeDirectory, rootCluster, 0⟩, 1, none, .internal⟩, ⟨fileNamed 'C' 'T', 3, some 2, .regular⟩]

theorem scan_nestedRoot : directoryScan (slotAt (nestedClusters rootCluster)) directorySlots directorySlots directorySlots =
    .ok nestedRoot := by
  have hnone : ∀ {q : Primary}, ¬Item.unused.Named q := fun h => by rcases h with h | h <;> cases h
  have hfilled := ((filled_empty.pair (p := fileNamed 'A' 'T') (by decide) ⟨by decide, by decide, rfl⟩ fun j q hq =>
    (hnone hq).elim).directory (p := nestedDirectory) (by decide) ⟨by decide, by decide, rfl⟩ fun j q hq => by
      rcases named_paired hq with rfl | hq
      · decide
      · exact (hnone hq).elim).pair (p := fileNamed 'B' 'S') (by decide) ⟨by decide, by decide, rfl⟩ fun j q hq => by
        rw [Function.update_apply] at hq
        split at hq
        · rw [named_directory hq]
          decide
        rcases named_paired hq with rfl | hq
        · decide
        · exact (hnone hq).elim
  exact hfilled.scans.trans rfl

theorem scan_nestedInner : directoryScan (slotAt (nestedClusters 3)) directorySlots directorySlots directorySlots =
    .ok nestedInner := by
  have hvalid : ∀ {c}, c = 3 ∨ c = 2 → Fat.validCluster c 4 := fun hc => by rcases hc with rfl | rfl <;> decide
  have hfilled := (filled_fresh (hvalid (Or.inl rfl)) (hvalid (Or.inr rfl))).pair (p := fileNamed 'C' 'T') (by decide)
    ⟨by decide, by decide, rfl⟩ fun j q hq => (not_named_fresh hq).elim
  exact hfilled.scans.trans rfl

/-- The search finds the file of the root and the one of the directory, in this order, and tells whether both were returned. -/
theorem searchExtension_exact_nested : ∃ s : FileService, s.mount.geometry = smallGeometry ∧
    (∃ t, searchExtension [ascii 't'] 16 s =
      (.ok ([⟨fileIdentity smallGeometry rootCluster 1, "/A".toList.map ascii⟩, ⟨fileIdentity smallGeometry 3 3, "/D/C".toList.map ascii⟩],
        false), t)) ∧
    ∃ t, searchExtension [ascii 't'] 1 s = (.ok ([⟨fileIdentity smallGeometry rootCluster 1, "/A".toList.map ascii⟩], true), t) := by
  obtain ⟨s, hd⟩ := @exists_drawn (fun i => if i < 4 then Fat.endOfChain else Fat.free) nestedClusters 256 (by decide) le_rfl
    (fun i => by split <;> decide) (fun i hx => by rw [if_pos (by omega)]; decide)
  have hm := hd.settled.mounted
  have hscanned : ∀ {c : Nat} {entries : List DirectoryEntry}, c = rootCluster ∨ c = 3 →
      directoryScan (slotAt (nestedClusters c)) directorySlots directorySlots directorySlots = .ok entries →
      Scanned s c [(c, entries)] := by
    intro c entries hc hscan
    have hlt : 2 ≤ c ∧ c < 4 := by rcases hc with rfl | rfl <;> decide
    have hvalid : Fat.validCluster c s.fatEntryCount := by
      rw [hd.count]
      rcases hc with rfl | rfl <;> decide
    have hend : Fat.Ends (s.fat c) := by
      rw [hd.entry (by omega), if_pos hlt.2]
      exact ⟨by decide, by decide⟩
    refine ⟨Fat.traverse_eq_ok.mpr ⟨hm.validEntryCount, by decide, .last hvalid hend, List.nodup_singleton _,
      show 1 ≤ maxClusters by decide⟩, ?_⟩
    intro page hp
    rw [List.mem_singleton.mp hp, hd.data c hlt.1]
    exact hscan
  have hroot := hscanned (Or.inl rfl) scan_nestedRoot
  have hinner := hscanned (Or.inr rfl) scan_nestedInner
  have hdeep : Deep s maxDirectoryLevels rootCluster := by
    refine ⟨_, hroot, fun r hr hk => ?_⟩
    rw [show recordsOf [(rootCluster, nestedRoot)] = nestedRoot.map (Prod.mk rootCluster) from rfl] at hr
    obtain ⟨entry, he, rfl⟩ := List.mem_map.mp hr
    simp only [nestedRoot, List.mem_cons, List.not_mem_nil, or_false] at he
    rcases he with rfl | rfl | rfl
    · cases hk
    · refine ⟨_, hinner, fun r hr hk => ?_⟩
      rw [show recordsOf [(3, nestedInner)] = [(3, ⟨fileNamed 'C' 'T', 3, some 2, .regular⟩)] from rfl] at hr
      rw [List.mem_singleton.mp hr] at hk
      cases hk
    · cases hk
  have hfiles : filesBelow s maxDirectoryLevels rootCluster [ascii '/'] =
      [⟨rootCluster, ⟨fileNamed 'A' 'T', 1, some 0, .regular⟩, "/A".toList.map ascii⟩,
        ⟨3, ⟨fileNamed 'C' 'T', 3, some 2, .regular⟩, "/D/C".toList.map ascii⟩,
        ⟨rootCluster, ⟨fileNamed 'B' 'S', 4, some 3, .regular⟩, "/B".toList.map ascii⟩] := by
    have hbelow : filesBelow s 15 3 ("/D".toList.map ascii) =
        [⟨3, ⟨fileNamed 'C' 'T', 3, some 2, .regular⟩, "/D/C".toList.map ascii⟩] := by
      show filesOf _ _ (recordsOf (pagesOf s 3)) = _
      rw [hinner.pagesOf_eq]
      rfl
    show filesOf _ _ (recordsOf (pagesOf s rootCluster)) = _
    rw [hroot.pagesOf_eq]
    show _ :: (filesBelow s 15 3 ("/D".toList.map ascii) ++ _) = _
    rw [hbelow]
    rfl
  have hroom : s.Room 1 := (hd.able.mono le_rfl (by decide)).room
  have hgeometry : s.mount.geometry = smallGeometry := by rw [hd.mount]
  have hsearch : ∀ capacity, 0 < capacity ∧ capacity ≤ searchResultCapacity → ∃ results truncated t,
      searchExtension [ascii 't'] capacity s = (.ok (results, truncated), t) ∧
      results = ((withExtension [ascii 'T'] (filesBelow s maxDirectoryLevels rootCluster [ascii '/'])).take capacity).map
        (·.result smallGeometry) ∧
      (truncated = true ↔ capacity < (withExtension [ascii 'T'] (filesBelow s maxDirectoryLevels rootCluster [ascii '/'])).length) := by
    intro capacity hcapacity
    obtain ⟨hexact, hworks, -⟩ := searchExtension_exact hm hd.initialized hdeep [ascii 't'] capacity
    obtain ⟨⟨results, truncated⟩, t, hr⟩ := hworks [ascii 'T'] hcapacity (by decide) hroom
    obtain ⟨extension, hx, hresults, htruncated⟩ := hexact results truncated t hr
    rw [show extensionQueryCanonicalize [ascii 't'] = .ok [ascii 'T'] by decide] at hx
    cases hx
    exact ⟨results, truncated, t, hr, hgeometry ▸ hresults, htruncated⟩
  rw [hfiles] at hsearch
  refine ⟨s, hgeometry, ?_, ?_⟩
  · obtain ⟨results, truncated, t, hr, hresults, htruncated⟩ := hsearch 16 (by decide)
    obtain rfl : truncated = false := Bool.eq_false_iff.mpr fun hx => absurd (htruncated.mp hx) (by decide)
    exact ⟨t, by rw [hr, hresults]; rfl⟩
  · obtain ⟨results, truncated, t, hr, hresults, htruncated⟩ := hsearch 1 (by decide)
    obtain rfl : truncated = true := htruncated.mpr (by decide)
    exact ⟨t, by rw [hr, hresults]; rfl⟩

end FileService
end InferenceOS
