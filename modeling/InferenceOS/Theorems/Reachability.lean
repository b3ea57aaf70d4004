import InferenceOS.Fs.Requests
import InferenceOS.Theorems.Steps

/-! The objects of a volume as its sectors tell: what a directory lists, which directories lie below another one,
    and which records paths and identities name. On a consistent volume these are the objects of the tree. -/

namespace InferenceOS
open Program

namespace FileService

/-- Cluster `c` of the directory that starts at `d` lists the entry of a file or a directory. -/
def Lists (s : FileService) (d c : Nat) (entry : DirectoryEntry) : Prop :=
  ∃ clusters entries, Fat.traverse s.disk.fat s.fatEntryCount d maxClusters = .ok clusters ∧ c ∈ clusters ∧
    directoryScan (slotAt (s.disk.data c)) directorySlots directorySlots directorySlots = .ok entries ∧
    entry ∈ entries ∧ entry.kind ≠ .internal

/-- Directory `y` is `x` or lies in its subtree. -/
inductive Below (s : FileService) (x : Nat) : Nat → Prop where
  | self : Below s x x
  | child {d c : Nat} {entry : DirectoryEntry} : Below s x d → Lists s d c entry → entry.kind = .directory →
    Below s x entry.primary.firstCluster

/-- Directory `d` can be reached from the root. -/
abbrev Reachable (s : FileService) (d : Nat) : Prop := Below s rootCluster d

/-- The directory whose chain starts at `d` lists the entry. -/
def Holds (s : FileService) (d : Nat) (entry : DirectoryEntry) : Prop := ∃ c, Lists s d c entry

/-- The components lead from one directory to another one. -/
inductive Leads (s : FileService) : Nat → List Text → Nat → Prop where
  | here {d : Nat} : Leads s d [] d
  | down {d e : Nat} {component : Text} {rest : List Text} {entry : DirectoryEntry} :
    canonicalComponent component = .ok entry.primary.name → Holds s d entry → entry.kind = .directory →
    Leads s entry.primary.firstCluster rest e → Leads s d (component :: rest) e

/-- The path ends with `name` in directory `d`. -/
def Names (s : FileService) (path : Option Text) (d : Nat) (name : Name) : Prop :=
  ∃ text, path = some text ∧
    let trimmed := (text.takeWhile (· ≠ 0)).rdropWhile (· = ascii '/')
    canonicalComponent (trimmed.rtakeWhile (· ≠ ascii '/')) = .ok name ∧
      Leads s rootCluster (components (trimmed.rdropWhile (· ≠ ascii '/'))) d

/-- The identity is the one of the file `entry` of directory `d`. -/
def Denotes (s : FileService) (identity d : Nat) (entry : DirectoryEntry) : Prop :=
  ∃ c, Lists s d c entry ∧ entry.kind = .regular ∧ identity = fileIdentity s.mount.geometry c entry.primarySlot

/-- The path, or the identity when there is none, names the entry of directory `d`. -/
def Selects (s : FileService) (path : Option Text) (identity d : Nat) (entry : DirectoryEntry) : Prop :=
  match path with
  | some path => Names s (some path) d entry.primary.name ∧ Holds s d entry
  | none => Denotes s identity d entry

variable {s : FileService} {T : Tree} {d c x y i : Nat} {entry : DirectoryEntry} {p : Primary}

theorem Consistent.lists (h : Consistent s T) (hd : T.dirs d) : Lists s d c entry ↔ c = d ∧ EntryOf (T.items d) entry := by
  have hdir := h.directory hd
  have hchain : Fat.Chain s.disk.fat s.fatEntryCount d [d] := .last (h.describes.valid hd) (h.describes.ends hd)
  have htraverse : Fat.traverse s.disk.fat s.fatEntryCount d maxClusters = .ok [d] :=
    Fat.traverse_eq_ok.mpr ⟨h.mounted.validEntryCount, by decide, hchain, List.nodup_singleton d, show 1 ≤ maxClusters by decide⟩
  have hscan : directoryScan (slotAt (s.disk.data d)) directorySlots directorySlots directorySlots = .ok (entriesOf (T.items d)) :=
    directoryScan_eq (h.describes.shows hd) (h.describes.tidy hd)
  constructor
  · rintro ⟨clusters, entries, hc, hmem, he, hin, hk⟩
    rw [htraverse] at hc
    cases hc
    cases List.mem_singleton.mp hmem
    rw [hscan] at he
    cases he
    exact ⟨rfl, entryOf_mem hin hk⟩
  · rintro ⟨rfl, he⟩
    refine ⟨[c], entriesOf (T.items c), htraverse, List.mem_singleton_self c, hscan, he.mem, ?_⟩
    cases he <;> exact nofun

theorem Consistent.lists_file (h : Consistent s T) (hd : T.dirs d) (hi : i < 128) (hp : T.items d i = .file p) :
    Lists s d d ⟨p, i, some (i - 1), .regular⟩ := (h.lists hd).mpr ⟨rfl, .file hi hp⟩

theorem Consistent.lists_directory (h : Consistent s T) (hd : T.dirs d) (hi : i < 128) (hp : T.items d i = .directory p) :
    Lists s d d ⟨p, i, none, .directory⟩ := (h.lists hd).mpr ⟨rfl, .directory hi hp⟩

theorem Consistent.above (h : Consistent s T) (hx : T.dirs x) (hb : Below s x y) : T.dirs y ∧ Above T.parent x y := by
  induction hb with
  | self => exact ⟨hx, 0, rfl⟩
  | @child d c entry _ hl hk ih =>
    obtain ⟨hd, k, habove⟩ := ih
    obtain ⟨-, he⟩ := (h.lists hd).mp hl
    cases he with
    | file => cases hk
    | @directory i p hi hp =>
      obtain ⟨hdc, -, hpc⟩ := h.describes.linked.closed hd ⟨hi, p, hp, rfl⟩
      exact ⟨hdc, k + 1, by rw [Function.iterate_succ_apply, hpc, habove]⟩

theorem Consistent.below (h : Consistent s T) (hg : T.Grounded) (hy : T.dirs y) (ha : Above T.parent x y) : Below s x y := by
  obtain ⟨k, hk⟩ := ha
  induction k generalizing y with
  | zero =>
    cases hk
    exact .self
  | succ k ih =>
    rw [Function.iterate_succ_apply] at hk
    by_cases hr : y = rootCluster
    · subst hr
      rw [hg.top] at hk
      exact ih h.describes.linked.root hk
    · obtain ⟨hp, i, hi, q, hq, rfl⟩ := h.describes.linked.record hy hr
      exact .child (ih hp hk) (h.lists_directory hp hi hq) rfl

theorem Consistent.reachable (h : Consistent s T) (hg : T.Grounded) : Reachable s d ↔ T.dirs d :=
  ⟨fun hb => (h.above h.describes.linked.root hb).1, fun hd => h.below hg hd (hg.rooted hd)⟩

theorem Consistent.holds (h : Consistent s T) (hd : T.dirs d) : Holds s d entry ↔ EntryOf (T.items d) entry :=
  ⟨fun ⟨_, hl⟩ => ((h.lists hd).mp hl).2, fun he => ⟨d, (h.lists hd).mpr ⟨rfl, he⟩⟩⟩

theorem EntryOf.named {items : Nat → Item} {e : DirectoryEntry} (he : EntryOf items e) :
    e.primarySlot < 128 ∧ (items e.primarySlot).Named e.primary := by
  cases he with
  | file hi hp => exact ⟨hi, Or.inl hp⟩
  | directory hi hp => exact ⟨hi, Or.inr hp⟩

theorem EntryOf.unique {items : Nat → Item} (h : Tidy items) {e e' : DirectoryEntry} (he : EntryOf items e)
    (he' : EntryOf items e') (hn : e.primary.name = e'.primary.name) : e = e' := by
  obtain ⟨hi, hp⟩ := he.named
  obtain ⟨hi', hp'⟩ := he'.named
  have hslot := h.distinct hi hi' hp hp' hn
  cases he <;> cases he' <;> dsimp only at hslot <;> subst hslot <;> simp_all

theorem findIn_iff {items : Nat → Nat → Item} (h : Tidy (items d)) {name : Name} :
    findIn items d name = .ok entry ↔ EntryOf (items d) entry ∧ entry.primary.name = name := by
  refine ⟨fun hf => entryNamed_eq (findIn_eq hf), fun ⟨he, hn⟩ => ?_⟩
  unfold findIn
  cases hf : entryNamed (items d) name with
  | none =>
    have hnone := List.find?_eq_none.mp hf entry he.mem
    refine absurd ?_ hnone
    cases he <;> simpa using hn
  | some e =>
    obtain ⟨he', hn'⟩ := entryNamed_eq hf
    rw [he'.unique h he (hn'.trans hn.symm)]

theorem Consistent.leads (h : Consistent s T) : ∀ {comps : List Text} {d e : Nat}, T.dirs d →
    (Leads s d comps e ↔ walkIn T.items d comps = .ok e)
  | [], d, e, hd => by
    constructor
    · rintro ⟨⟩
      rfl
    · rintro ⟨⟩
      exact .here
  | component :: rest, d, e, hd => by
    have htidy := h.describes.tidy hd
    constructor
    · intro hl
      cases hl with
      | @down _ _ _ _ entry hname hholds hk hrest =>
        have he := (h.holds hd).mp hholds
        cases he with
        | file => cases hk
        | @directory i p hi hp =>
          have hnext := h.catalog.closed hd hi hp
          unfold walkIn
          rw [hname]
          show (findIn T.items d p.name >>= _) = _
          rw [(findIn_iff htidy).mpr ⟨.directory hi hp, rfl⟩]
          exact (h.leads hnext).mp hrest
    · intro hw
      unfold walkIn at hw
      obtain ⟨name, hname, hrest⟩ := of_bind_ok hw
      obtain ⟨entry, hf, hgo⟩ := of_bind_ok hrest
      obtain ⟨he, rfl⟩ := (findIn_iff htidy).mp hf
      split at hgo
      · rename_i hk
        cases he with
        | file => cases hk
        | @directory i p hi hp =>
          exact .down hname ((h.holds hd).mpr (.directory hi hp)) rfl ((h.leads (h.catalog.closed hd hi hp)).mpr hgo)
      · cases hgo

theorem Consistent.names (h : Consistent s T) {path : Option Text} {name : Name} :
    Names s path d name ↔ parentIn T.items path = .ok (d, name) := by
  have hroot := h.describes.linked.root
  cases path with
  | none =>
    constructor
    · rintro ⟨_, ⟨⟩, -⟩
    · rintro ⟨⟩
  | some text =>
    constructor
    · rintro ⟨_, ⟨⟩, hname, hleads⟩
      unfold parentIn
      have hne : (text.takeWhile (· ≠ 0)).rdropWhile (· = ascii '/') ≠ [] := fun hx => by
        rw [hx] at hname
        cases hname
      dsimp only at hname hleads ⊢
      rw [if_neg hne, hname]
      show (walkIn T.items rootCluster _ >>= _) = _
      rw [(h.leads hroot).mp hleads]
      rfl
    · intro hp
      unfold parentIn at hp
      obtain ⟨-, hrest⟩ := of_check hp
      obtain ⟨name', hname, hwalk⟩ := of_bind_ok hrest
      obtain ⟨parent, hw, hok⟩ := of_bind_ok hwalk
      cases hok
      exact ⟨text, rfl, hname, (h.leads hroot).mpr hw⟩

theorem Consistent.resolves (h : Consistent s T) {path : Option Text} :
    Names s path d entry.primary.name ∧ Holds s d entry ↔ resolveIn T.items path = .ok (d, entry) := by
  constructor
  · rintro ⟨hn, he⟩
    have hp := h.names.mp hn
    obtain ⟨hd, -⟩ := parentIn_eq h.catalog hp
    unfold resolveIn
    rw [hp]
    show (findIn T.items d entry.primary.name >>= _) = _
    rw [(findIn_iff (h.describes.tidy hd)).mpr ⟨(h.holds hd).mp he, rfl⟩]
    rfl
  · intro hr
    obtain ⟨⟨parent, name⟩, hp, hrest⟩ := of_bind_ok hr
    obtain ⟨e, hf, hok⟩ := of_bind_ok hrest
    cases hok
    obtain ⟨hd, -⟩ := parentIn_eq h.catalog hp
    obtain ⟨he, rfl⟩ := (findIn_iff (h.describes.tidy hd)).mp hf
    exact ⟨h.names.mpr hp, (h.holds hd).mpr he⟩

theorem addressed_fileIdentity {g : Geometry} (hg : g.Laid) (hc : Fat.validCluster c (g.clusterCount + 2)) (hi : i < 128) :
    fileIdentity g c i < 2 ^ 64 ∧ addressable g (fileIdentity g c i) ∧ addressed g (fileIdentity g c i) = (c, i) := by
  have hdata := hg.data
  have hsectors := hg.sectors
  have htotal := hg.total
  obtain ⟨h₁, h₂, h₃⟩ := hc
  have hloc : recordLocation g c i < 2 ^ 63 := by
    unfold recordLocation clusterSector sectorsPerCluster
    unfold superblockSectors registrySectors maxDataCluster at *
    omega
  have hid : fileIdentity g c i = 2 ^ 63 + recordLocation g c i := by
    have := Nat.two_pow_add_eq_or_of_lt hloc 1
    simpa [fileIdentity, fileObjectBit] using this.symm
  have hmod : fileIdentity g c i % fileObjectBit = recordLocation g c i := by
    rw [hid]
    unfold fileObjectBit
    omega
  refine ⟨by omega, ⟨by rw [hid]; unfold fileObjectBit; omega, ?_⟩, ?_⟩
  · rw [hmod]
    unfold recordLocation clusterSector
    unfold sectorsPerCluster at *
    omega
  · unfold addressed
    rw [hmod]
    unfold recordLocation clusterSector sectorsPerCluster
    refine Prod.ext ?_ ?_
    · dsimp only
      omega
    · dsimp only
      omega

theorem Consistent.denotes (h : Consistent s T) (hd : T.dirs d) {identity : Nat} (hlt : identity < 2 ^ 64) :
    Denotes s identity d entry ↔ selectIn s.mount.geometry T.items none identity = .ok (d, entry) := by
  have hg := h.mounted.laid
  have hv := h.describes.valid hd
  rw [h.mounted.entries] at hv
  constructor
  · rintro ⟨c, hl, hk, rfl⟩
    obtain ⟨rfl, he⟩ := (h.lists hd).mp hl
    cases he with
    | directory => cases hk
    | @file i p hi hp =>
      obtain ⟨-, ha, hx⟩ := addressed_fileIdentity hg hv hi
      unfold selectIn
      dsimp only
      rw [if_pos ha, hx]
      rcases find_slot (T.items c) i with ⟨q, -, hq, hf⟩ | ⟨hnone, -⟩
      · rw [hp] at hq
        cases hq
        rw [show entryAtSlot (T.items c) i = _ from hf]
      · exact absurd hp (hnone p hi)
  · intro hs
    unfold selectIn at hs
    dsimp only at hs
    split at hs
    · rename_i ha
      rcases find_slot (T.items (addressed s.mount.geometry identity).1) (addressed s.mount.geometry identity).2 with
        ⟨q, hi, hq, hf⟩ | ⟨-, hf⟩
      · rw [show entryAtSlot _ _ = _ from hf] at hs
        cases hs
        exact ⟨_, (h.lists hd).mpr ⟨rfl, .file hi hq⟩, rfl, (fileIdentity_addressed ha hlt).symm⟩
      · rw [show entryAtSlot _ _ = _ from hf] at hs
        cases hs
    · cases hs

end FileService
end InferenceOS
