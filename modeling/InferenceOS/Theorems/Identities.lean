import InferenceOS.Theorems.Files
import InferenceOS.Theorems.Integrity
import InferenceOS.Theorems.Searches

/-! The identities that calls give for objects. Each of them leads back to the record it was given for, and
    goes on to do so until the file is removed or moves to another directory. -/

namespace InferenceOS
open Program

namespace FileService
variable {s t : FileService} {live : Nat → Prop} {T : Tree} {r : Request}
variable {capacity : Nat}
  {d d' i c : Nat} {p : Primary} {l : List Nat} {entry entry' : DirectoryEntry}

/-- The path of display names leads to directory `d`. -/
inductive Shown (s : FileService) : Text → Nat → Prop where
  | root : Shown s [ascii '/'] rootCluster
  | child {path path' : Text} {d : Nat} {entry : DirectoryEntry} : Shown s path d → Holds s d entry →
    entry.kind = .directory → appendDisplayComponent path entry.primary.name = .ok path' →
    Shown s path' entry.primary.firstCluster

/-- The identities of the objects in the directories `live`. -/
structure Identities (s : FileService) (live : Nat → Prop) : Prop where
  looked : ∀ d component object t, live d → lookup d component s = (.ok object, t) → ∃ c entry, Lists s d c entry ∧
    canonicalComponent component = .ok entry.primary.name ∧ object = objectOf s.mount.geometry (c, entry)
  listed : ∀ d continuation capacity entries next t, live d →
    enumerate d continuation capacity s = (.ok (entries, next), t) → ∀ x ∈ entries, ∃ c entry, Lists s d c entry ∧
      listEntry s c entry = .ok x ∧ ⟨x.objectIdentity, x.kind⟩ = objectOf s.mount.geometry (c, entry)
  searched : ∀ extension capacity results truncated t,
    searchExtension extension capacity s = (.ok (results, truncated), t) → ∀ x ∈ results, ∃ path d c entry,
      Shown s path d ∧ live d ∧ Lists s d c entry ∧ entry.kind = .regular ∧
        appendDisplayComponent path entry.primary.name = .ok x.displayPath ∧
        x.objectIdentity = (objectOf s.mount.geometry (c, entry)).identity
  /-- The identity of a file leads to its record. -/
  located : ∀ d c entry, live d → Lists s d c entry → entry.kind = .regular →
    (∀ located t, locateFileObject (objectOf s.mount.geometry (c, entry)).identity s = (.ok located, t) →
      located = locatedIn s.disk c entry) ∧
    (s.Room 1 → ∃ located t, locateFileObject (objectOf s.mount.geometry (c, entry)).identity s = (.ok located, t))
  distinct : ∀ d c entry d' c' entry', live d → live d' → Lists s d c entry → Lists s d' c' entry' →
    (objectOf s.mount.geometry (c, entry)).identity = (objectOf s.mount.geometry (c', entry')).identity →
    d = d' ∧ entry = entry'
  apart : ∀ d c entry, live d → Lists s d c entry → (objectOf s.mount.geometry (c, entry)).identity ≠ rootCluster
  /-- Bit 63 of an identity tells files from directories. -/
  marked : ∀ d c entry, live d → Lists s d c entry → (objectOf s.mount.geometry (c, entry)).identity < 2 ^ 64 ∧
    ((objectOf s.mount.geometry (c, entry)).identity.testBit 63 = true ↔ entry.kind = .regular)

theorem fileIdentity_bit {g : Geometry} (hg : g.Laid) (hc : Fat.validCluster c (g.clusterCount + 2)) (hi : i < 128) :
    2 ^ 63 ≤ fileIdentity g c i ∧ fileIdentity g c i < 2 ^ 64 := by
  obtain ⟨hlt, ha, -⟩ := addressed_fileIdentity hg hc hi
  exact ⟨ha.1, hlt⟩

theorem objectOf_file {g : Geometry} (hk : entry.kind = .regular) :
    (objectOf g (c, entry)).identity = fileIdentity g c entry.primarySlot := by
  unfold objectOf
  rw [if_neg (by rw [hk]; decide)]

theorem objectOf_directory {g : Geometry} (hk : entry.kind = .directory) :
    (objectOf g (c, entry)).identity = entry.primary.firstCluster := by
  unfold objectOf
  rw [if_pos hk]

theorem Consistent.valid_entries (h : Consistent s T) (hd : T.dirs d) : Fat.validCluster d (s.mount.geometry.clusterCount + 2) := by
  rw [← h.mounted.entries]
  exact h.describes.valid hd

theorem Consistent.objectOf_cases (h : Consistent s T) (hd : T.dirs d) (he : EntryOf (T.items d) entry) :
    let identity := (objectOf s.mount.geometry (d, entry)).identity
    (entry.kind = .regular ∧ identity = fileIdentity s.mount.geometry d entry.primarySlot ∧ 2 ^ 63 ≤ identity ∧ identity < 2 ^ 64) ∨
      (entry.kind = .directory ∧ identity = entry.primary.firstCluster ∧ T.dirs identity ∧ identity < 2 ^ 63) := by
  cases he with
  | @file i p hi hp =>
    dsimp only
    rw [objectOf_file rfl]
    exact Or.inl ⟨rfl, rfl, fileIdentity_bit h.mounted.laid (h.valid_entries hd) hi⟩
  | @directory i p hi hp =>
    dsimp only
    rw [objectOf_directory rfl]
    have hc := h.catalog.closed hd hi hp
    have hmax := (h.describes.valid hc).2.2
    unfold maxDataCluster at hmax
    exact Or.inr ⟨rfl, rfl, hc, lt_of_le_of_lt hmax (by decide)⟩

theorem Consistent.locates (h : Consistent s T) (hd : T.dirs d) (hi : i < 128) (hp : T.items d i = .file p) :
    Yields (locateFileObject (fileIdentity s.mount.geometry d i)) s (.ok (locatedIn s.disk d (fileEntry p i))) := by
  obtain ⟨hlt, ha, hx⟩ := addressed_fileIdentity h.mounted.laid (h.valid_entries hd) hi
  have hyields := @locateFileObject_yields s (T.items d) h.mounted _ hlt fun _ => by
    rw [hx]
    exact h.directory hd
  refine hyields.congr ?_
  rw [if_pos ha, hx]
  dsimp only
  rcases find_slot (T.items d) i with ⟨q, -, hq, hf⟩ | ⟨hnone, -⟩
  · rw [hp] at hq
    cases hq
    rw [show entryAtSlot (T.items d) i = _ from hf]
    rfl
  · exact absurd hp (hnone p hi)

theorem Consistent.object_unique (h : Consistent s T) (hd : T.dirs d) (hd' : T.dirs d') (he : EntryOf (T.items d) entry)
    (he' : EntryOf (T.items d') entry')
    (hx : (objectOf s.mount.geometry (d, entry)).identity = (objectOf s.mount.geometry (d', entry')).identity) :
    d = d' ∧ entry = entry' := by
  rcases h.objectOf_cases hd he with ⟨hk, hfile, hbit, -⟩ | ⟨hk, hfirst, -, hbit⟩ <;>
    rcases h.objectOf_cases hd' he' with ⟨hk', hfile', hbit', -⟩ | ⟨hk', hfirst', -, hbit'⟩
  · refine h.denotes_unique hd hd' ⟨d, (h.lists hd).mpr ⟨rfl, he⟩, hk, rfl⟩ ⟨d', (h.lists hd').mpr ⟨rfl, he'⟩, hk', ?_⟩
    rw [← hfile, hx, hfile']
  · omega
  · omega
  · rw [hfirst, hfirst'] at hx
    cases he with
    | file => cases hk
    | @directory i p hi hp =>
      cases he' with
      | file => cases hk'
      | @directory j q hj hq =>
        obtain ⟨rfl, rfl⟩ := h.describes.linked.sole hd ⟨hi, p, hp, rfl⟩ hd' ⟨hj, q, hq, hx.symm⟩
        rw [hp] at hq
        cases hq
        exact ⟨rfl, rfl⟩

def FoundIn (s : FileService) (live : Nat → Prop) (x : SearchResult) : Prop :=
  ∃ path d c entry, Shown s path d ∧ live d ∧ Lists s d c entry ∧ entry.kind = .regular ∧
    appendDisplayComponent path entry.primary.name = .ok x.displayPath ∧
    x.objectIdentity = (objectOf s.mount.geometry (c, entry)).identity

theorem walkRecords_found {query : ExtensionQuery} {below : Nat → Text → ExtensionSearch → Except IosError ExtensionSearch}
    {path : Text} (hpath : Shown s path d) (hd : live d)
    (hbelow : ∀ {e path search search'}, live e → Shown s path e → below e path search = .ok search' →
      ∀ x ∈ search'.results, x ∈ search.results ∨ FoundIn s live x) :
    ∀ {records : List (Nat × DirectoryEntry)} {search search' : ExtensionSearch},
    (∀ r ∈ records, Lists s d r.1 r.2 ∧ (r.2.kind = .directory → live r.2.primary.firstCluster)) →
    walkRecords s.mount.geometry query below path records search = .ok search' →
    ∀ x ∈ search'.results, x ∈ search.results ∨ FoundIn s live x
  | [], search, search', _, hw, x, hx => by
    cases hw
    exact Or.inl hx
  | r :: rest, search, search', hr, hw, x, hx => by
    obtain ⟨hlist, hlive⟩ := hr r List.mem_cons_self
    have hrest : ∀ y ∈ rest, Lists s d y.1 y.2 ∧ (y.2.kind = .directory → live y.2.primary.firstCluster) := fun y hy =>
      hr y (List.mem_cons_of_mem _ hy)
    unfold walkRecords at hw
    split at hw
    · cases hw
      exact Or.inl hx
    obtain ⟨child, hchild, hvisit⟩ := of_bind_ok hw
    obtain ⟨between, hbetween, hgo⟩ := of_bind_ok hvisit
    rcases walkRecords_found hpath hd hbelow hrest hgo x hx with hx | hfound
    swap
    · exact Or.inr hfound
    split at hbetween
    · rename_i hk
      exact hbelow (hlive hk) (.child hpath ⟨_, hlist⟩ hk hchild) hbetween x hx
    · rename_i hk
      cases hbetween
      unfold collect at hx
      split at hx
      · exact Or.inl hx
      · split at hx
        · exact Or.inl hx
        · split at hx
          · exact Or.inl hx
          · rcases List.mem_append.mp hx with hx | hx
            · exact Or.inl hx
            · have hreg : r.2.kind = .regular := by
                obtain ⟨-, -, -, -, -, -, hint⟩ := hlist
                cases hkind : r.2.kind <;> simp_all
              rw [List.mem_singleton.mp hx]
              exact Or.inr ⟨path, d, r.1, r.2, hpath, hd, hlist, hreg, hchild, (objectOf_file hreg).symm⟩

theorem Consistent.recorded (h : Consistent s T) (hd : T.dirs d) {x : Nat × DirectoryEntry}
    (hx : x ∈ recordsOf [(d, entriesOf (T.items d))]) : Lists s d x.1 x.2 := by
  obtain ⟨page, hp, hc, he, hk⟩ := mem_recordsOf.mp hx
  rw [List.mem_singleton.mp hp] at hc he
  exact (h.lists hd).mpr ⟨hc, entryOf_mem he hk⟩

theorem Consistent.below_live (h : Consistent s T) (hd : T.dirs d) (hl : Lists s d c entry) (hk : entry.kind = .directory) :
    T.dirs entry.primary.firstCluster := by
  obtain ⟨-, he⟩ := (h.lists hd).mp hl
  cases he with
  | file => cases hk
  | directory hi hp => exact h.catalog.closed hd hi hp

theorem Consistent.walkBelow_found (h : Consistent s T) {query : ExtensionQuery} : ∀ {levels d : Nat} {path : Text}
    {search search' : ExtensionSearch}, T.dirs d → Shown s path d → walkBelow s query levels d path search = .ok search' →
    ∀ x ∈ search'.results, x ∈ search.results ∨ FoundIn s T.dirs x := by
  have records : ∀ {d}, T.dirs d → ∀ r ∈ recordsOf (pagesOf s d),
      Lists s d r.1 r.2 ∧ (r.2.kind = .directory → T.dirs r.2.primary.firstCluster) := fun {d} hd r hr => by
    rw [(h.scanned hd).pagesOf_eq] at hr
    exact ⟨h.recorded hd hr, h.below_live hd (h.recorded hd hr)⟩
  intro levels
  induction levels with
  | zero => exact fun hd hpath hw => walkRecords_found hpath hd (fun _ _ hx => by cases hx) (records hd) hw
  | succ levels ih => exact fun hd hpath hw => walkRecords_found hpath hd ih (records hd) hw

theorem listEntry_object {x : ListedEntry} (h : listEntry s c entry = .ok x) :
    (⟨x.objectIdentity, x.kind⟩ : VfsObject) = objectOf s.mount.geometry (c, entry) := by
  unfold listEntry at h
  unfold objectOf
  dsimp only at h
  split at h
  · rename_i hk
    cases h
    rw [if_pos hk]
  · rename_i hk
    obtain ⟨_, -, hok⟩ := of_bind_ok h
    cases hok
    rw [if_neg hk]

theorem mapM_ok {α β : Type} {f : α → Except IosError β} : ∀ {l : List α} {l' : List β}, l.mapM f = .ok l' →
    ∀ y ∈ l', ∃ x ∈ l, f x = .ok y
  | [], l', h, y, hy => by
    cases h
    cases hy
  | x :: l, l', h, y, hy => by
    rw [List.mapM_cons] at h
    obtain ⟨z, hz, hrest⟩ := of_bind_ok h
    obtain ⟨zs, hzs, hok⟩ := of_bind_ok hrest
    cases hok
    rcases List.mem_cons.mp hy with rfl | hy
    · exact ⟨x, List.mem_cons_self, hz⟩
    · obtain ⟨w, hw, hfw⟩ := mapM_ok hzs y hy
      exact ⟨w, List.mem_cons_of_mem _ hw, hfw⟩

theorem Consistent.looks_up (h : Consistent s T) (hd : T.dirs d) {component : Text} {object : VfsObject}
    (hr : lookup d component s = (.ok object, t)) : ∃ c entry, Lists s d c entry ∧
      canonicalComponent component = .ok entry.primary.name ∧ object = objectOf s.mount.geometry (c, entry) := by
  obtain ⟨-, hok⟩ := wp_ok ((h.scanned hd).lookup_yields h.mounted h.initialized component) hr
  obtain ⟨name, hname, hfind⟩ := of_bind_ok hok
  cases hrecord : recordNamed [(d, entriesOf (T.items d))] name with
  | none =>
    rw [hrecord] at hfind
    cases hfind
  | some x =>
    rw [hrecord] at hfind
    cases hfind
    have hmatch := List.find?_some hrecord
    rw [← show x.2.primary.name = name by simpa using hmatch] at hname
    exact ⟨x.1, x.2, h.recorded hd (List.mem_of_find?_eq_some hrecord), hname, rfl⟩

theorem enumerate_capacity {continuation next : Nat} {entries : List ListedEntry}
    (hr : enumerate d continuation capacity s = (.ok (entries, next), t)) : capacity ≠ 0 := by
  rintro rfl
  unfold enumerate at hr
  rw [bind_ok (show get s = (.ok s, s) from rfl), failIf_bind (Or.inl rfl)] at hr
  cases hr

theorem Consistent.enumerates (h : Consistent s T) (hd : T.dirs d) {continuation next : Nat} {entries : List ListedEntry}
    (hr : enumerate d continuation capacity s = (.ok (entries, next), t)) : ∀ x ∈ entries, ∃ c entry, Lists s d c entry ∧
      listEntry s c entry = .ok x ∧ ⟨x.objectIdentity, x.kind⟩ = objectOf s.mount.geometry (c, entry) := by
  intro x hx
  obtain ⟨-, hok⟩ := wp_ok ((h.scanned hd).enumerate_yields h.mounted h.initialized (enumerate_capacity hr)) hr
  obtain ⟨listed, hlisted, hpage⟩ := of_bind_ok hok
  cases hpage
  obtain ⟨y, hy, hentry⟩ := mapM_ok hlisted x hx
  have hmem := List.mem_of_mem_drop (List.mem_of_mem_take hy)
  exact ⟨y.1, y.2, h.recorded hd hmem, hentry, listEntry_object hentry⟩

theorem Consistent.searches (h : Consistent s T) {extension : Text} {results : List SearchResult}
    {truncated : Bool} (hr : searchExtension extension capacity s = (.ok (results, truncated), t)) :
    ∀ x ∈ results, FoundIn s T.dirs x := by
  intro x hx
  have hscanned : ∀ d, T.dirs d → Scanned s d (pagesOf s d) := fun d hd => by
    rw [(h.scanned hd).pagesOf_eq]
    exact h.scanned hd
  have hclosed : ∀ d, T.dirs d → ∀ r ∈ recordsOf (pagesOf s d), r.2.kind = .directory → T.dirs r.2.primary.firstCluster :=
    fun d hd r hr hk => by
      rw [(h.scanned hd).pagesOf_eq] at hr
      exact h.below_live hd (h.recorded hd hr) hk
  have hroot := h.describes.linked.root
  obtain ⟨-, hok⟩ := wp_ok (searchExtension_walks h.mounted h.initialized hscanned hclosed hroot extension capacity) hr
  obtain ⟨-, hquery⟩ := of_check hok
  obtain ⟨canonical, -, hwalk⟩ := of_bind_ok hquery
  obtain ⟨search, hsearch, hresults⟩ := of_bind_ok hwalk
  cases hresults
  rcases h.walkBelow_found hroot .root hsearch x hx with hx | hfound
  · cases hx
  · exact hfound

theorem Consistent.identities (h : Consistent s T) : Identities s T.dirs where
  looked _ _ _ _ hd hr := h.looks_up hd hr
  listed _ _ _ _ _ _ hd hr := h.enumerates hd hr
  searched _ _ _ _ _ hr := h.searches hr
  located d c entry hd hl hk := by
    obtain ⟨rfl, he⟩ := (h.lists hd).mp hl
    rw [objectOf_file hk]
    cases he with
    | directory => cases hk
    | @file i p hi hp =>
      have hyields := h.locates hd hi hp
      refine ⟨fun located t hr => ?_, fun hroom => ?_⟩
      · obtain ⟨-, hok⟩ := wp_ok hyields hr
        cases hok
        rfl
      · rcases hr : locateFileObject (fileIdentity s.mount.geometry c i) s with ⟨e | located, t⟩
        · obtain ⟨-, hx | ⟨-, hx⟩⟩ := wp_error hyields hr
          · cases hx
          · exact absurd hroom hx
        · exact ⟨located, t, rfl⟩
  distinct d c entry d' c' entry' hd hd' hl hl' hx := by
    obtain ⟨rfl, he⟩ := (h.lists hd).mp hl
    obtain ⟨rfl, he'⟩ := (h.lists hd').mp hl'
    exact h.object_unique hd hd' he he' hx
  apart d c entry hd hl hx := by
    obtain ⟨rfl, he⟩ := (h.lists hd).mp hl
    rcases h.objectOf_cases hd he with ⟨-, -, hbit, -⟩ | ⟨hk, hfirst, -⟩
    · rw [hx] at hbit
      exact absurd hbit (by decide)
    · cases he with
      | file => cases hk
      | @directory i p hi hp => exact (h.describes.linked.closed hd ⟨hi, p, hp, rfl⟩).2.1 (hfirst.symm.trans hx)
  marked d c entry hd hl := by
    obtain ⟨rfl, he⟩ := (h.lists hd).mp hl
    rcases h.objectOf_cases hd he with ⟨hk, -, hbit, hlt⟩ | ⟨hk, -, -, hlt⟩
    · refine ⟨hlt, fun _ => hk, fun _ => ?_⟩
      rw [Nat.testBit_eq_decide_div_mod_eq]
      exact decide_eq_true (by omega)
    · refine ⟨by omega, fun hb => ?_, fun hr => ?_⟩
      · rw [Nat.testBit_lt_two_pow hlt] at hb
        cases hb
      · rw [hk] at hr
        cases hr

/-- What a call makes of a file `entry` of directory `d` that keeps its place. -/
structure Continues (s : FileService) (live : Nat → Prop) (r : Request) (d : Nat) (entry entry' : DirectoryEntry) : Prop where
  slots : entry'.primarySlot = entry.primarySlot ∧ entry'.companionSlot = entry.companionSlot
  renamed : ∀ d' name, r.Does s live (.rename d entry d' name) → entry'.primary.name = name
  named : (∀ d' name, ¬r.Does s live (.rename d entry d' name)) → entry'.primary.name = entry.primary.name
  saved : ∀ bytes append, r.Does s live (.save d entry bytes append) →
    entry'.primary.fileSize = savedSize entry.primary bytes append
  kept : (∀ bytes append, ¬r.Does s live (.save d entry bytes append)) →
    entry'.primary.fileSize = entry.primary.fileSize ∧ entry'.primary.firstCluster = entry.primary.firstCluster

end FileService

section Fits
open FileService
variable {ch : Change} {d d' i : Nat} {p : Primary} {name : Name}

theorem Deed.Fits.of_rename (h : Deed.Fits (.rename d (fileEntry p i) d' name) ch) : (ch = .same ∧ d' = d ∧ name = p.name) ∨
    (ch = .rename d i p name ∧ d' = d) ∨ (d ≠ d' ∧ ∃ k, ch = .relocate d i p d' k name) := by
  generalize hx : Deed.rename d (fileEntry p i) d' name = x at h
  cases h with
  | same =>
    cases hx
    exact Or.inl ⟨rfl, rfl, rfl⟩
  | rename =>
    cases hx
    exact Or.inr (Or.inl ⟨rfl, rfl⟩)
  | relocate hne =>
    cases hx
    exact Or.inr (Or.inr ⟨hne, _, rfl⟩)
  | _ => cases hx

theorem Deed.Fits.of_save {bytes : Text} {append : Bool} (h : Deed.Fits (.save d (fileEntry p i) bytes append) ch) :
    ∃ l, ch = .save d i p l bytes append := by
  generalize hx : Deed.save d (fileEntry p i) bytes append = x at h
  cases h with
  | save =>
    cases hx
    exact ⟨_, rfl⟩
  | _ => cases hx

end Fits

namespace FileService
variable {s t : FileService} {live : Nat → Prop} {T T' : Tree} {ch : Change} {r : Request} {v : Option VfsObject}
  {d d' i c : Nat} {p : Primary} {l : List Nat} {entry entry' : DirectoryEntry}

theorem Consistent.continues (h : Consistent s T) (hd : T.dirs d) (hs : TreeStep T ch T') (hm : r.Makes s T.dirs v ch)
    {q : Primary} {m : List Nat} (hb : Becomes d i p l ch d i q m) :
    Continues s T.dirs r d (fileEntry p i) (fileEntry q i) := by
  have renames : ∀ {d' name}, r.Does s T.dirs (.rename d (fileEntry p i) d' name) → (ch = .same ∧ d' = d ∧ name = p.name) ∨
      (ch = .rename d i p name ∧ d' = d) ∨ (d ≠ d' ∧ ∃ k, ch = .relocate d i p d' k name) := fun hx => (h.fits hs hm hx).of_rename
  have saves : ∀ {bytes append}, r.Does s T.dirs (.save d (fileEntry p i) bytes append) → ∃ l, ch = .save d i p l bytes append :=
    fun hx => (h.fits hs hm hx).of_save
  cases hb with
  | kept hspare =>
    refine ⟨⟨rfl, rfl⟩, fun d' name hx => ?_, fun _ => rfl, fun bytes append hx => ?_, fun _ => ⟨rfl, rfl⟩⟩
    · rcases renames hx with ⟨-, -, hname⟩ | ⟨rfl, -⟩ | ⟨-, k, rfl⟩
      · exact hname.symm
      · exact absurd ⟨rfl, rfl⟩ hspare
      · exact absurd ⟨rfl, rfl⟩ hspare
    · obtain ⟨_, rfl⟩ := saves hx
      exact absurd ⟨rfl, rfl⟩ hspare
  | saved =>
    refine ⟨⟨rfl, rfl⟩, fun d' name hx => ?_, fun _ => rfl, fun bytes append hx => ?_, fun hx => ?_⟩
    · rcases renames hx with ⟨hch, -⟩ | ⟨hch, -⟩ | ⟨-, k, hch⟩ <;> cases hch
    · obtain ⟨_, hch⟩ := saves hx
      cases hch
      rfl
    · exact absurd ⟨hd, hm⟩ (hx _ _)
  | renamed =>
    refine ⟨⟨rfl, rfl⟩, fun d' name hx => ?_, fun hx => ?_, fun bytes append hx => ?_, fun _ => ⟨rfl, rfl⟩⟩
    · rcases renames hx with ⟨hch, -⟩ | ⟨hch, -⟩ | ⟨-, k, hch⟩ <;> cases hch
      rfl
    · exact absurd ⟨hd, hm⟩ (hx _ _)
    · obtain ⟨_, hch⟩ := saves hx
      cases hch
  | relocated => exact absurd rfl hm.2

theorem Done.keeps (h : Consistent s T) (hd : Done s T.dirs r v t) {identity : Nat} (hlive : T.dirs d)
    (hi : Denotes s identity d entry) (hremove : ¬r.Does s T.dirs (.remove d entry))
    (hmove : ∀ d' name, r.Does s T.dirs (.rename d entry d' name) → d' = d) :
    r.after s T.dirs v d ∧ ∃ entry', Denotes t identity d entry' ∧ Continues s T.dirs r d entry entry' := by
  obtain ⟨plan, ch, rfl, hsens, hmakes, hwent, hc, hdirs⟩ := hd.sound h
  obtain ⟨c, hl, hk, rfl⟩ := hi
  obtain ⟨rfl, he⟩ := (h.lists hlive).mp hl
  cases he with
  | directory => cases hk
  | @file i p hi hp =>
    have hfile : T.FileAt c i p (T.chain c i) := ⟨hlive, hi, hp, rfl⟩
    have hfiles := fun {e j q m} => @TreeStep.files T plan.tree ch e j q m hsens.step h.describes.linked h.describes.tidy
    have goes : ∀ {q m}, Becomes c i p (T.chain c i) ch c i q m → r.after s T.dirs plan.value c ∧ ∃ entry',
        Denotes t (fileIdentity s.mount.geometry c i) c entry' ∧ Continues s T.dirs r c (fileEntry p i) entry' := by
      intro q m hb
      obtain ⟨hdir, hrange, hitem, -⟩ := hfiles.mpr (Or.inr ⟨_, _, _, _, hfile, hb⟩)
      refine ⟨hdirs ▸ hdir, fileEntry q i, ⟨c, hc.lists_file hdir hrange hitem, rfl, ?_⟩, h.continues hlive hsens.step hmakes hb⟩
      rw [hwent.mount]
      rfl
    rcases hsens.step.becomes hfile with rfl | ⟨e, j, q, m, hb⟩
    · exact absurd ⟨hlive, hmakes⟩ hremove
    · cases hb with
      | kept hspare => exact goes (.kept hspare)
      | saved => exact goes .saved
      | renamed => exact goes .renamed
      | relocated => exact absurd (hmove _ _ ⟨hlive, hmakes.1⟩).symm hmakes.2

theorem Quiet.lists (h : Quiet s t) : Lists t d c entry ↔ Lists s d c entry := by
  unfold Lists
  rw [h.disk, h.fatEntryCount]

theorem Quiet.denotes (h : Quiet s t) {identity : Nat} : Denotes t identity d entry ↔ Denotes s identity d entry := by
  unfold Denotes
  simp only [h.lists, h.mount]

theorem Done.creates (h : Consistent s T) {parent : Nat} {component : Text}
    (hd : Done s T.dirs (.createFile parent component) v t) : ∃ c entry, Lists t parent c entry ∧ entry.kind = .regular ∧
      canonicalComponent component = .ok entry.primary.name ∧ v = some (objectOf t.mount.geometry (c, entry)) := by
  obtain ⟨plan, ch, rfl, hsens, hmakes, hwent, hc, -⟩ := hd.sound h
  have hobject : ∃ object, plan.value = some object := by
    have hrun : (some <$> createFile parent component) s = (.ok plan.value, t) := hd.run
    rcases hcreate : createFile parent component s with ⟨e | object, u⟩
    · cases hrun.symm.trans (bind_error hcreate)
    · exact ⟨object, Except.ok.inj (congrArg Prod.fst (hrun.symm.trans (bind_ok hcreate)))⟩
  obtain ⟨object, hvalue⟩ := hobject
  cases ch with
  | create d k name =>
    obtain ⟨⟨rfl, hname⟩, hidentity⟩ := hmakes
    have hfile := (hsens.step.files h.describes.linked h.describes.tidy).mpr (Or.inl ⟨k, name, rfl, rfl, rfl, rfl⟩)
    refine ⟨d, fileEntry (newFile name) (k + 1), hc.lists_file hfile.dir hfile.inRange hfile.item, rfl, hname, ?_⟩
    rw [hvalue, hidentity object hvalue, hwent.mount]
    rfl
  | same =>
    obtain ⟨_, _, -, -, hx⟩ := hmakes
    exact hx.elim
  | relocate => exact hmakes.1.elim
  | createDirectory =>
    obtain ⟨_, hx, -⟩ := hmakes
    cases hx
  | removeDirectory =>
    obtain ⟨_, hx, -⟩ := hmakes
    cases hx
  | renameDirectory => exact hmakes.2.elim
  | moveDirectory => exact hmakes.2.1.elim
  | _ => exact False.elim hmakes

/-- Along every run the identities that calls give are sound, and a file keeps its identity until it is removed or
    moves to another directory. -/
theorem run_identities (h : Run (fun _ _ => True) s live) : Identities s live ∧
    (∀ parent component v t, Done s live (.createFile parent component) v t → ∃ c entry, Lists t parent c entry ∧
      entry.kind = .regular ∧ canonicalComponent component = .ok entry.primary.name ∧
      v = some (objectOf t.mount.geometry (c, entry))) ∧
    (∀ r v t d entry identity, Done s live r v t → live d → Denotes s identity d entry → ¬r.Does s live (.remove d entry) →
      (∀ d' name, r.Does s live (.rename d entry d' name) → d' = d) →
      r.after s live v d ∧ ∃ entry', Denotes t identity d entry' ∧ Continues s live r d entry entry') ∧
    ∀ t d entry identity, Idle s live t → Denotes s identity d entry → Denotes t identity d entry := by
  obtain ⟨T, ⟨hc, rfl, -⟩, -⟩ := h.sound
  refine ⟨hc.identities, fun parent component v t hd => hd.creates hc, ?_, ?_⟩
  · exact fun r v t d entry identity hd hlive hi hremove hmove => hd.keeps hc hlive hi hremove hmove
  · exact fun t d entry identity hidle hi => (hidle.quiet hc).denotes.mpr hi

/-- The identity of the file before it was written is its identity after it was written and renamed. -/
theorem run_identities_worked : ∃ (s t u v w : FileService) (k c m identity : Nat) (p : Primary) (full renamed : DirectoryEntry),
    Worked [ascii 'X'] s t u v w k c m p ∧ Denotes t identity rootCluster (fileEntry (newFile sampleName) (k + 1)) ∧
    Denotes u identity rootCluster full ∧ full.primary.fileSize = 1 ∧
    Denotes w identity rootCluster renamed ∧ renamed.primary.name = renamedName ∧
    ∃ live, live rootCluster ∧ live p.firstCluster ∧ Identities w live := by
  obtain ⟨s, t, u, v, w, k, c, m, p, h⟩ := exists_worked [ascii 'X'] ⟨by decide, by decide⟩
  obtain ⟨ht, hv, hw⟩ := h.run (fun _ _ => True) fun _ _ _ => trivial
  have hlist := h.empty.toConsistent.lists_file (d := rootCluster) rfl h.slot
    (show (createdTree k).items rootCluster (k + 1) = .file (newFile sampleName) by rw [createdTree, Tree.setPair_items, if_pos ⟨rfl, rfl⟩])
  -- The file was written under its path, and then it was renamed in its directory.
  obtain ⟨-, -, hreplaced, -⟩ := run_identities ht
  have hpath : Names t (some samplePath) rootCluster sampleName := h.empty.toConsistent.names.mpr rfl
  obtain ⟨-, full, hfull, hsaved⟩ := hreplaced _ _ _ _ _ _ h.replaced rfl ⟨_, hlist, rfl, rfl⟩ (fun hx => hx.2)
    fun _ _ hx => hx.2.elim
  have hsize := hsaved.saved [ascii 'X'] false ⟨rfl, ⟨hpath, _, hlist⟩, rfl, rfl⟩
  obtain ⟨T, hT, -⟩ := hv.sound
  have hsource : Names v (some samplePath) rootCluster sampleName := hT.toConsistent.names.mpr rfl
  have htarget : Names v (some renamedPath) rootCluster renamedName := hT.toConsistent.names.mpr rfl
  obtain ⟨-, -, hrenames, -⟩ := run_identities hv
  have hroot : T.dirs rootCluster := hT.toConsistent.describes.linked.root
  have hkept : Lists v rootCluster rootCluster _ := (hT.toConsistent.lists hroot).mpr ⟨rfl, (hT.toConsistent.holds hroot).mp h.kept⟩
  obtain ⟨-, renamed, hrenamed, hnamed⟩ := hrenames _ _ _ _ _ _ h.renamed (Or.inl rfl) ⟨_, hkept, rfl, rfl⟩ (fun hx => hx.2)
    fun d' name hx => (hT.toConsistent.names_unique hx.2.2 htarget).1
  have hname := hnamed.renamed rootCluster renamedName ⟨Or.inl rfl, ⟨hsource, h.kept⟩, htarget⟩
  rw [h.steady, h.mount] at hrenamed
  exact ⟨s, t, u, v, w, k, c, m, _, p, full, renamed, h, ⟨_, hlist, rfl, rfl⟩, hfull, hsize, hrenamed, hname, _, Or.inl rfl,
    Or.inr ⟨_, rfl, rfl⟩, (run_identities hw).1⟩

end FileService
end InferenceOS
