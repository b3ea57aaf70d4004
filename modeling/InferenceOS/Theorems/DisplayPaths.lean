import InferenceOS.Syscall.FileView
import InferenceOS.Theorems.DisplayLabels
import InferenceOS.Theorems.NameTexts

/-! Snapshots of directories and the paths that are written with their labels: a label leads to the object that bears it,
    whatever the order in which a directory is listed. -/

namespace InferenceOS
open Program FileService Labels DisplaySafe
variable {candidate : ListedEntry}
namespace FileView
variable {μ ρ ω : Type} [DecidableEq μ] [DecidableEq ρ] {service : FileViewService} {enumerate : Option (EnumerateCallback ω)} {mount : μ}
variable {candidates : List ListedEntry} {s t : VfsSystem μ ρ ω}

theorem forall₂_of_mapM {α β : Type} {f : α → Except IosError β} : ∀ {l : List α} {l' : List β}, l.mapM f = .ok l' →
    List.Forall₂ (fun a b => f a = .ok b) l l'
  | [], l', h => by
    cases h
    exact .nil
  | a :: l, l', h => by
    rw [List.mapM_cons] at h
    obtain ⟨b, hb, h⟩ := of_bind_ok h
    obtain ⟨bs, hbs, h⟩ := of_bind_ok h
    cases h
    exact .cons hb (forall₂_of_mapM hbs)

/-- The names consist of bytes that a label can show. -/
def Stored (candidates : List ListedEntry) : Prop :=
  ∀ candidate ∈ candidates, ∀ b ∈ candidate.displayBaseName, supportedNameByte b = true

def candidateItems (candidates : List ListedEntry) : List (Nat × Text) :=
  candidates.map fun candidate => (candidate.objectIdentity, candidate.displayBaseName)

def labelFor (candidates : List ListedEntry) (candidate : ListedEntry) : Text :=
  labelOf mark (candidateItems candidates) (candidate.objectIdentity, candidate.displayBaseName)

theorem foldByte_supported {b : UInt8} (h : supportedNameByte b = true) : foldByte b = b ∧ b ≠ 0 ∧ b ≠ ascii ' ' := by
  have hne := supportedNameByte_ne h
  refine ⟨?_, hne.1, hne.2.2.2.2⟩
  unfold foldByte
  rw [if_neg]
  rintro ⟨hlow, hhigh⟩
  unfold supportedNameByte at h
  simp only [Bool.or_eq_true, Bool.and_eq_true, decide_eq_true_eq, beq_iff_eq] at h
  simp only [UInt8.le_iff_toNat_le] at h hlow hhigh
  have ha : (ascii 'a').toNat = 97 := rfl
  have hz : (ascii 'z').toNat = 122 := rfl
  have hA : (ascii 'Z').toNat = 90 := rfl
  have h9 : (ascii '9').toNat = 57 := rfl
  rcases h with ((h | h) | rfl) | rfl
  · omega
  · omega
  · exact absurd hlow (by decide)
  · exact absurd hlow (by decide)

theorem foldByte_rankSuffix {rank : Nat} : ∀ b ∈ rankSuffix rank, foldByte b = b := by
  intro b hb
  simp only [rankSuffix, List.mem_append, List.mem_cons, List.not_mem_nil, or_false, List.mem_reverse] at hb
  rcases hb with ((rfl | rfl) | hb) | rfl
  · rfl
  · rfl
  · obtain ⟨-, hhigh⟩ := mem_reversedDigits b hb
    refine if_neg fun h => ?_
    have hlow := UInt8.le_iff_toNat_le.mp h.1
    have ha : (ascii 'a').toNat = 97 := rfl
    omega
  · rfl

def Bears (candidate : ListedEntry) (entry : DisplaySafeEntry) : Prop :=
  entry.objectHandle = candidate.objectIdentity ∧ nameOf entry = candidate.displayBaseName

theorem makeSafeEntry_named {capability : Nat} {entry : DisplaySafeEntry}
    (h : makeSafeEntry service candidate capability = .ok entry) (hstored : ∀ b ∈ candidate.displayBaseName, supportedNameByte b = true) :
    Bears candidate entry := by
  unfold makeSafeEntry at h
  obtain ⟨typeCapability, -, h⟩ := of_bind_ok h
  obtain ⟨length, hlength, rfl⟩ := displaySafeEntryConvert_ok h
  refine ⟨rfl, ?_⟩
  obtain ⟨hpos, hlt, hbytes, hend⟩ := validateBaseName_iff.mp hlength
  dsimp only at hbytes hend
  have hlen : length = candidate.displayBaseName.length := by
    rcases Nat.lt_trichotomy length candidate.displayBaseName.length with hshort | heq | hlong
    · rw [List.getD_eq_getElem _ _ hshort] at hend
      exact absurd hend (supportedNameByte_ne (hstored _ (List.getElem_mem hshort))).1
    · exact heq
    · have hzero := (hbytes _ hlong).1
      rw [List.getD_eq_default _ _ le_rfl] at hzero
      exact absurd rfl hzero
  refine List.ext_getElem? fun i => ?_
  rw [getElem?_nameOf (show length ≤ displaySafeNameCapacity from hlt.le)]
  unfold convertedEntry
  dsimp only
  split
  · rename_i hi
    rw [Bytes.byte_of_lt (by omega)]
    dsimp only
    rw [if_pos (by omega), List.getD_eq_getElem _ _ (by omega), List.getElem?_eq_getElem]
  · rw [List.getElem?_eq_none (by omega)]

theorem itemsOf_bearing {entries : List DisplaySafeEntry} (h : List.Forall₂ Bears candidates entries) :
    itemsOf entries = candidateItems candidates := by
  induction h with
  | nil => rfl
  | cons hpair _ ih =>
    rw [itemsOf, candidateItems, List.map_cons, List.map_cons, hpair.1, hpair.2]
    exact congrArg _ ih

structure Snapshot (candidates : List ListedEntry) (labels : List DisplaySafeEntry) : Prop where
  length_eq : candidates.length = labels.length
  identities : (candidates.map ListedEntry.objectIdentity).Nodup
  label : ∀ pair ∈ candidates.zip labels, pair.2.objectHandle = pair.1.objectIdentity ∧ nameOf pair.2 = labelFor candidates pair.1

theorem snapshotDirectory_labels {d : Nat} {labels : List DisplaySafeEntry}
    (h : snapshotDirectory service enumerate mount d s = (.ok (candidates, labels), t)) (hstored : Stored candidates) :
    Snapshot candidates labels := by
  unfold snapshotDirectory at h
  obtain ⟨⟨found, continuation⟩, u, -, h⟩ := of_bind_run h
  obtain ⟨-, h⟩ := of_failIf_run h
  obtain ⟨-, h⟩ := of_failIf_run h
  obtain ⟨entries, hentries, h⟩ := of_ofExcept_run h
  have hmade := forall₂_of_mapM hentries
  rcases disambiguate_cases fileViewDirectoryCapacity entries with ⟨hseparable, hrun⟩ | ⟨-, status, hrun⟩
  · rw [hrun] at h
    cases h
    have hnamed : List.Forall₂ Bears candidates entries := by
      refine List.forall₂_iff_zip.mpr ⟨hmade.length_eq, fun {candidate entry} hpair => ?_⟩
      obtain ⟨-, -, hsafe⟩ := of_bind_ok ((List.forall₂_iff_zip.mp hmade).2 hpair)
      exact makeSafeEntry_named hsafe (hstored candidate (List.of_mem_zip hpair).1)
    have hitems := itemsOf_bearing hnamed
    refine ⟨by rw [List.length_map, hmade.length_eq], ?_, ?_⟩
    · have hkeys := hseparable.handles
      have hsame : entries.map DisplaySafeEntry.objectHandle = candidates.map ListedEntry.objectIdentity := by
        have hfst := congrArg (List.map Prod.fst) hitems
        rw [itemsOf, candidateItems, List.map_map, List.map_map] at hfst
        exact hfst
      rwa [hsame] at hkeys
    · rintro ⟨candidate, entry⟩ hpair
      rw [List.zip_map_right] at hpair
      obtain ⟨⟨candidate, made⟩, hmem, heq⟩ := List.mem_map.mp hpair
      cases heq
      obtain ⟨hhandle, hname⟩ := (List.forall₂_iff_zip.mp hnamed).2 hmem
      obtain ⟨-, hkept, hlabel⟩ := hseparable.labelled (List.of_mem_zip hmem).2
      refine ⟨hkept.trans hhandle, ?_⟩
      dsimp only [Prod.map]
      rw [hlabel, hitems, hhandle, hname]
      rfl
  · rw [hrun] at h
    cases h

section Labels
variable {candidates other : List ListedEntry} {labels labels' : List DisplaySafeEntry}

theorem displayComponentEqual_iff {left right : Text} : displayComponentEqual left right = true ↔ left.map foldByte = right.map foldByte := by
  simp only [displayComponentEqual, decide_eq_true_eq, and_iff_right_iff_imp]
  intro h
  have hlen := congrArg List.length h
  rwa [List.length_map, List.length_map] at hlen

theorem map_foldByte_labelFor (hstored : Stored candidates) (hcandidate : candidate ∈ candidates) :
    (labelFor candidates candidate).map foldByte = labelFor candidates candidate := by
  have hkept : ∀ text : Text, (∀ b ∈ text, foldByte b = b) → text.map foldByte = text := by
    intro text h
    exact (List.map_congr_left h).trans (List.map_id text)
  have hbase : ∀ b ∈ candidate.displayBaseName, foldByte b = b := fun b hb => (foldByte_supported (hstored candidate hcandidate b hb)).1
  refine hkept _ fun b hb => ?_
  unfold labelFor labelOf at hb
  split at hb
  · rcases List.mem_append.mp hb with hb | hb
    · exact hbase b hb
    · exact foldByte_rankSuffix b hb
  · exact hbase b hb

theorem Stored.unmarked (hstored : Stored candidates) : Unmarked mark (candidateItems candidates) := by
  intro item hitem other _ rank _ _ heq
  obtain ⟨candidate, hcandidate, rfl⟩ := List.mem_map.mp hitem
  have hspace : ascii ' ' ∈ candidate.displayBaseName := by
    rw [show candidate.displayBaseName = mark rank other.2 from heq]
    exact List.mem_append_right _ (List.mem_append_left _ (List.mem_append_left _ List.mem_cons_self))
  exact (foldByte_supported (hstored candidate hcandidate _ hspace)).2.2 rfl

theorem Snapshot.map_fst (h : Snapshot candidates labels) : (candidates.zip labels).map Prod.fst = candidates :=
  List.map_fst_zip h.length_eq.le

theorem Snapshot.map_snd (h : Snapshot candidates labels) : (candidates.zip labels).map Prod.snd = labels :=
  List.map_snd_zip h.length_eq.ge

theorem Snapshot.labelFor_ne (h : Snapshot candidates labels) (hstored : Stored candidates) {candidate' : ListedEntry}
    (hcandidate : candidate ∈ candidates) (hcandidate' : candidate' ∈ candidates) (hne : candidate.objectIdentity ≠ candidate'.objectIdentity) :
    labelFor candidates candidate ≠ labelFor candidates candidate' := by
  have hkeys : ((candidateItems candidates).map Prod.fst).Nodup := by
    rw [candidateItems, List.map_map]
    exact h.identities
  exact (labels_distinct_iff hkeys mark_injective mark_ne).mpr hstored.unmarked _ (List.mem_map_of_mem hcandidate) _
    (List.mem_map_of_mem hcandidate') hne

theorem Snapshot.pairwise (h : Snapshot candidates labels) (hstored : Stored candidates) :
    (candidates.zip labels).Pairwise fun pair other => displayComponentEqual (nameOf pair.2) (nameOf other.2) = false := by
  have hidentities : ((candidates.zip labels).map fun pair => pair.1.objectIdentity).Nodup := by
    have hnodup := h.identities
    rw [← h.map_fst, List.map_map] at hnodup
    exact hnodup
  refine (List.pairwise_map.mp hidentities).imp_of_mem fun {pair other} hpair hother hne => ?_
  rw [Bool.eq_false_iff]
  intro hequal
  have hmem := (List.of_mem_zip hpair).1
  have hmem' := (List.of_mem_zip hother).1
  rw [displayComponentEqual_iff, (h.label pair hpair).2, (h.label other hother).2, map_foldByte_labelFor hstored hmem,
    map_foldByte_labelFor hstored hmem'] at hequal
  exact h.labelFor_ne hstored hmem hmem' hne hequal

theorem labelFor_perm (h : candidates.Perm other) (candidate : ListedEntry) : labelFor candidates candidate = labelFor other candidate :=
  labelOf_perm (h.map _) _

theorem Snapshot.label_perm (h : Snapshot candidates labels) (h' : Snapshot other labels') (hperm : candidates.Perm other)
    {pair : ListedEntry × DisplaySafeEntry} (hpair : pair ∈ candidates.zip labels) :
    ∃ label', (pair.1, label') ∈ other.zip labels' ∧ nameOf label' = nameOf pair.2 := by
  have hmem : pair.1 ∈ (other.zip labels').map Prod.fst := by
    rw [h'.map_fst]
    exact hperm.mem_iff.mp (List.of_mem_zip hpair).1
  obtain ⟨⟨candidate, label'⟩, hmem', rfl⟩ := List.mem_map.mp hmem
  refine ⟨label', hmem', ?_⟩
  rw [(h'.label _ hmem').2, (h.label pair hpair).2, labelFor_perm hperm]

end Labels

theorem selectFrom_of_none {component : Text} {selected : Option ListedEntry} : ∀ {pairs : List (ListedEntry × DisplaySafeEntry)},
    (∀ pair ∈ pairs, displayComponentEqual (nameOf pair.2) component = false) → selectFrom component selected pairs = .ok selected
  | [], _ => rfl
  | (candidate, entry) :: rest, h => by
    rw [selectFrom, if_neg (by rw [h _ List.mem_cons_self]; exact Bool.false_ne_true)]
    exact selectFrom_of_none fun pair hpair => h pair (List.mem_cons_of_mem _ hpair)

theorem selectFrom_unique {component : Text} {pair : ListedEntry × DisplaySafeEntry} : ∀ {pairs : List (ListedEntry × DisplaySafeEntry)},
    (pairs.Pairwise fun pair other => displayComponentEqual (nameOf pair.2) (nameOf other.2) = false) → pair ∈ pairs →
    displayComponentEqual (nameOf pair.2) component = true → selectFrom component none pairs = .ok (some pair.1)
  | (candidate, entry) :: rest, hpairs, hmem, hequal => by
    obtain ⟨hfirst, hrest⟩ := List.pairwise_cons.mp hpairs
    rw [displayComponentEqual_iff] at hequal
    have hother : ∀ text : Text, displayComponentEqual text (nameOf pair.2) = false → displayComponentEqual text component = false := by
      intro text h
      rw [Bool.eq_false_iff, Ne, displayComponentEqual_iff] at h ⊢
      rwa [← hequal]
    rcases List.mem_cons.mp hmem with rfl | hmem
    · rw [selectFrom, if_pos (displayComponentEqual_iff.mpr hequal), if_neg (by exact Bool.false_ne_true)]
      refine selectFrom_of_none fun other hmem => hother _ ?_
      have hne := hfirst other hmem
      rw [Bool.eq_false_iff, Ne, displayComponentEqual_iff] at hne ⊢
      exact fun h => hne h.symm
    · rw [selectFrom, if_neg (by rw [hother _ (hfirst pair hmem)]; exact Bool.false_ne_true)]
      exact selectFrom_unique hrest hmem (displayComponentEqual_iff.mpr hequal)

/-- The object of a candidate that was found in a directory. -/
def resolvedObject (mount : μ) (parentIdentity : Nat) (candidate : ListedEntry) : ResolvedObject μ :=
  { mount := mount
    objectIdentity := candidate.objectIdentity
    parentIdentity := parentIdentity
    internalTypeIdentity := candidate.internalTypeIdentity
    byteSize := candidate.byteSize
    allowedOperations := candidate.allowedOperations
    genericAttributes := candidate.genericAttributes
    kind := candidate.kind }

theorem resolveDisplayFrom_label {current : Nat} {resolved : ResolvedObject μ}
    {labels : List DisplaySafeEntry} {pair : ListedEntry × DisplaySafeEntry} {component : Text} {rest : List Text}
    (h : snapshotDirectory service enumerate mount current s = (.ok (candidates, labels), t)) (hstored : Stored candidates)
    (hpair : pair ∈ candidates.zip labels) (hequal : displayComponentEqual (nameOf pair.2) component = true)
    (hrest : rest ≠ [] → pair.1.kind = .directory) :
    resolveDisplayFrom service enumerate mount current resolved (component :: rest) s =
      resolveDisplayFrom service enumerate mount pair.1.objectIdentity (resolvedObject mount current pair.1) rest t := by
  rw [resolveDisplayFrom, bind_ok h]
  dsimp only
  rw [selectFrom_unique ((snapshotDirectory_labels h hstored).pairwise hstored) hpair hequal, ofExcept_ok_bind]
  dsimp only
  rw [failIf_pass fun hfail => hfail.2 (hrest hfail.1)]
  rfl

theorem resolveDisplayFrom_append {object : ResolvedObject μ} {component : Text} {more : List Text} : ∀ {path : List Text} {current : Nat}
    {resolved : ResolvedObject μ} {s t : VfsSystem μ ρ ω}, resolveDisplayFrom service enumerate mount current resolved path s = (.ok object, t) →
    object.kind = .directory → resolved.objectIdentity = current →
    resolveDisplayFrom service enumerate mount current resolved (path ++ component :: more) s =
      resolveDisplayFrom service enumerate mount object.objectIdentity object (component :: more) t
  | [], current, resolved, s, t, h, hkind, hcurrent => by
    cases h
    rw [List.nil_append, hcurrent]
  | first :: path, current, resolved, s, t, h, hkind, hcurrent => by
    rw [resolveDisplayFrom] at h
    obtain ⟨⟨candidates, labels⟩, u, hsnapshot, h⟩ := of_bind_run h
    obtain ⟨selected, hselected, h⟩ := of_ofExcept_run h
    rw [List.cons_append, resolveDisplayFrom, bind_ok hsnapshot]
    dsimp only
    rw [hselected, ofExcept_ok_bind]
    rcases selected with - | candidate
    · cases h
    obtain ⟨hpass, h⟩ := of_failIf_run h
    have hdirectory : candidate.kind = .directory := by
      rcases path with - | ⟨next, path⟩
      · cases h
        exact hkind
      · by_contra hne
        exact hpass ⟨List.cons_ne_nil _ _, hne⟩
    dsimp only
    rw [failIf_pass fun hfail => hfail.2 hdirectory]
    exact resolveDisplayFrom_append h hkind rfl

theorem resolveNormalizedDisplayPath_append {directory path component : Text} {more : List Text} {object : ResolvedObject μ}
    (h : resolveNormalizedDisplayPath service enumerate mount directory s = (.ok object, t))
    (hkind : object.kind = .directory) (hpath : components path = components directory ++ component :: more) :
    resolveNormalizedDisplayPath service enumerate mount path s =
      resolveDisplayFrom service enumerate mount object.objectIdentity object (component :: more) t := by
  unfold resolveNormalizedDisplayPath at h ⊢
  rw [bind_ok (show get s = (.ok s, s) from rfl)] at h ⊢
  rcases hroot : (s.mounts mount).root with - | root
  · rw [hroot] at h
    cases h
  · rw [hroot] at h
    dsimp only at h ⊢
    rw [hpath, resolveDisplayFrom_append h hkind rfl]

section Order
variable {workspaceCount : Nat} {entries other : List DisplaySafeEntry}

theorem labelled_perm (h : entries.Perm other) (entry : DisplaySafeEntry) : labelled entries entry = labelled other entry := by
  unfold labelled rankIn
  rw [rank_perm (show (itemsOf entries).Perm (itemsOf other) from h.map _)]

theorem separable_perm (h : entries.Perm other) (hseparable : Separable workspaceCount entries) : Separable workspaceCount other where
  workspace := h.length_eq ▸ hseparable.workspace
  valid entry hentry := hseparable.valid entry (h.mem_iff.mpr hentry)
  handles := (h.map _).nodup_iff.mp hseparable.handles
  room entry hentry := by
    have hroom := hseparable.room entry (h.mem_iff.mpr hentry)
    rwa [rankIn, rank_perm (show (itemsOf entries).Perm (itemsOf other) from h.map _)] at hroom

theorem disambiguate_perm {result : List DisplaySafeEntry} (h : entries.Perm other)
    (hrun : displaySafeEntriesDisambiguate workspaceCount entries = (.ok (), result)) :
    ∃ result', displaySafeEntriesDisambiguate workspaceCount other = (.ok (), result') ∧ (entries.zip result).Perm (other.zip result') := by
  rcases disambiguate_cases workspaceCount entries with ⟨hseparable, hok⟩ | ⟨-, status, herror⟩
  · rw [hok] at hrun
    cases hrun
    refine ⟨other.map (labelled other), disambiguate_separable (separable_perm h hseparable), ?_⟩
    have hzip (l : List DisplaySafeEntry) : l.zip (l.map (labelled l)) = l.map fun entry => (entry, labelled l entry) := by
      have hpair := @List.zip_map' _ _ _ id (labelled l) l
      rwa [List.map_id] at hpair
    rw [hzip, hzip]
    refine (h.map _).trans ?_
    rw [show (fun entry => (entry, labelled entries entry)) = fun entry => (entry, labelled other entry) from
      funext fun entry => by rw [labelled_perm h]]
  · rw [herror] at hrun
    cases hrun

theorem disambiguate_error {status : IosError} {result : List DisplaySafeEntry}
    (h : displaySafeEntriesDisambiguate workspaceCount entries = (.error status, result)) : result = entries := by
  rcases disambiguate_cases workspaceCount entries with ⟨-, hok⟩ | ⟨-, status', herror⟩
  · rw [hok] at h
    cases h
  · rw [herror] at h
    exact (Prod.mk.inj h).2.symm

end Order

/-- The labels of a snapshot identify its objects: no two are equal as components, each leads to its object from wherever its
    directory is reached, and none depends on the order of the entries. A failed disambiguation changes no entry. -/
theorem display_labels_identify (service : FileViewService) (enumerate : Option (EnumerateCallback ω)) (mount : μ) :
    (∀ (identity : Nat) (s t : VfsSystem μ ρ ω) (candidates : List ListedEntry) (labels : List DisplaySafeEntry),
      snapshotDirectory service enumerate mount identity s = (.ok (candidates, labels), t) → Stored candidates →
      candidates.length = labels.length ∧
      (labels.Pairwise fun label other => displayComponentEqual (nameOf label) (nameOf other) = false) ∧
      ∀ pair ∈ candidates.zip labels, pair.2.objectHandle = pair.1.objectIdentity ∧
        (∀ (directory path component : Text) (object : ResolvedObject μ) (u v w : VfsSystem μ ρ ω) (other : List ListedEntry)
          (labels' : List DisplaySafeEntry), displayComponentEqual (nameOf pair.2) component = true →
          components path = components directory ++ [component] →
          resolveNormalizedDisplayPath service enumerate mount directory u = (.ok object, v) → object.kind = .directory →
          snapshotDirectory service enumerate mount object.objectIdentity v = (.ok (other, labels'), w) → candidates.Perm other →
          resolveNormalizedDisplayPath service enumerate mount path u = (.ok (resolvedObject mount object.objectIdentity pair.1), w)) ∧
        ∀ (identity' : Nat) (u v : VfsSystem μ ρ ω) (other : List ListedEntry) (labels' : List DisplaySafeEntry),
          snapshotDirectory service enumerate mount identity' u = (.ok (other, labels'), v) → candidates.Perm other →
          ∃ label', (pair.1, label') ∈ other.zip labels' ∧ nameOf label' = nameOf pair.2) ∧
    (∀ (workspaceCount : Nat) (entries other result : List DisplaySafeEntry), entries.Perm other →
      displaySafeEntriesDisambiguate workspaceCount entries = (.ok (), result) →
      ∃ result', displaySafeEntriesDisambiguate workspaceCount other = (.ok (), result') ∧
        (entries.zip result).Perm (other.zip result')) ∧
    ∀ (workspaceCount : Nat) (entries result : List DisplaySafeEntry) (status : IosError),
      displaySafeEntriesDisambiguate workspaceCount entries = (.error status, result) → result = entries := by
  refine ⟨fun identity s t candidates labels h hstored => ?_, fun _ _ _ _ hperm hrun => disambiguate_perm hperm hrun,
    fun _ _ _ _ herror => disambiguate_error herror⟩
  have hsnapshot := snapshotDirectory_labels h hstored
  have hpairwise := hsnapshot.pairwise hstored
  refine ⟨hsnapshot.length_eq, ?_, fun pair hpair => ⟨(hsnapshot.label pair hpair).1, ?_, ?_⟩⟩
  · rw [← hsnapshot.map_snd]
    exact List.pairwise_map.mpr hpairwise
  · intro directory path component object u v w other labels' hequal hpath hdirectory hkind hother hperm
    have hstored' : Stored other := fun candidate hcandidate => hstored candidate (hperm.mem_iff.mpr hcandidate)
    obtain ⟨label', hpair', hname⟩ := hsnapshot.label_perm (snapshotDirectory_labels hother hstored') hperm hpair
    rw [resolveNormalizedDisplayPath_append hdirectory hkind hpath,
      resolveDisplayFrom_label hother hstored' hpair' (by rwa [hname]) fun hrest => absurd rfl hrest]
    rfl
  · intro identity' u v other labels' hother hperm
    have hstored' : Stored other := fun candidate hcandidate => hstored candidate (hperm.mem_iff.mpr hcandidate)
    exact hsnapshot.label_perm (snapshotDirectory_labels hother hstored') hperm hpair

end FileView
end InferenceOS
