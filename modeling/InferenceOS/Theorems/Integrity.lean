import InferenceOS.Theorems.Progress

/-! The volume along every run: its objects own disjoint chains, nothing else is in use, and no directory shows
    one base name twice. -/

namespace InferenceOS

def ChainOf (fat : Nat → Nat) (n : Nat) (p : Primary) (l : List Nat) : Prop :=
  (p.firstCluster = 0 ∧ l = []) ∨ (0 < p.firstCluster ∧ Fat.Chain fat n p.firstCluster l)

/-- The root directory, or the object of the record in a slot of a directory cluster. -/
inductive Place where
  | root
  | record (cluster slot : Nat)

namespace FileService
variable {s t : FileService} {live : Nat → Prop} {T : Tree} {d c i : Nat} {l : List Nat} {o : Place}

/-- The object in this place can be reached from the root and has the clusters `l`. -/
inductive ObjectAt (s : FileService) : Place → List Nat → Prop where
  | root {l : List Nat} : Fat.Chain s.disk.fat s.fatEntryCount rootCluster l → ObjectAt s .root l
  | record {d c : Nat} {entry : DirectoryEntry} {l : List Nat} : Reachable s d → Lists s d c entry →
    ChainOf s.disk.fat s.fatEntryCount entry.primary l → ObjectAt s (.record c entry.primarySlot) l

/-- The volume and its allocation table in memory are in order. -/
structure WellFormed (s : FileService) : Prop where
  /-- The chain of the root directory ends and does not meet itself. -/
  root : ∃ l, Fat.Chain s.disk.fat s.fatEntryCount rootCluster l ∧ l.Nodup
  /-- So do the chains of all other objects, and those of files have the length that the size asks for. -/
  chained : ∀ d entry, Reachable s d → Holds s d entry → ∃ l, ChainOf s.disk.fat s.fatEntryCount entry.primary l ∧ l.Nodup ∧
    (entry.kind = .directory → l ≠ []) ∧
    (entry.kind = .regular → l.length = (entry.primary.fileSize + clusterSize - 1) / clusterSize)
  disjoint : ∀ o o' l l', ObjectAt s o l → ObjectAt s o' l' → o ≠ o' → List.Disjoint l l'
  used : ∀ c, Fat.validCluster c s.fatEntryCount → (s.disk.fat c ≠ Fat.free ↔ ∃ o l, ObjectAt s o l ∧ c ∈ l)
  /-- The first records of a directory name itself and the directory that lists it. -/
  dots : ∀ d entry, Reachable s d → Holds s d entry → entry.kind = .directory →
    slotAt (s.disk.data entry.primary.firstCluster) 0 = makeInternalRecord false entry.primary.firstCluster ∧
      slotAt (s.disk.data entry.primary.firstCluster) 1 = makeInternalRecord true d
  memory : ∀ i, i < s.mount.geometry.fatSectors * fatEntriesPerSector → s.fat i = s.disk.fat i

theorem Consistent.directory_chain (h : Consistent s T) (hd : T.dirs d) :
    Fat.Chain s.disk.fat s.fatEntryCount d [d] := .last (h.describes.valid hd) (h.describes.ends hd)

theorem Consistent.member (h : Consistent s T) (ho : ObjectAt s o l) (hc : c ∈ l) :
    (o = .root ∧ c = rootCluster) ∨ (∃ d i, o = .record d i ∧ T.dirs d ∧ T.Sub d i c) ∨
      ∃ d i, o = .record d i ∧ T.Owns c d i := by
  cases ho with
  | root hch =>
    rw [hch.unique (h.directory_chain h.describes.linked.root)] at hc
    exact Or.inl ⟨rfl, List.mem_singleton.mp hc⟩
  | @record d c' entry _ hr hl hch =>
    obtain ⟨hd, -⟩ := h.above h.describes.linked.root hr
    obtain ⟨rfl, he⟩ := (h.lists hd).mp hl
    rcases hch with ⟨-, rfl⟩ | ⟨hpos, hch⟩
    · cases hc
    · cases he with
      | @file i p hi hp =>
        rcases (h.describes.owned.content hd hi hp).chain with ⟨hz, -⟩ | ⟨-, hown⟩
        · exact absurd hz hpos.ne'
        · rw [hch.unique hown] at hc
          exact Or.inr (Or.inr ⟨c', i, rfl, hd, hi, hc, p, hp⟩)
      | @directory i p hi hp =>
        rw [hch.unique (h.directory_chain (h.catalog.closed hd hi hp))] at hc
        exact Or.inr (Or.inl ⟨c', i, rfl, hd, hi, p, hp, (List.mem_singleton.mp hc).symm⟩)

theorem Consistent.wellFormed (h : Consistent s T) (hg : T.Grounded) : WellFormed s := by
  have hl := h.describes.linked
  have ho := h.describes.owned
  have reach : ∀ {d}, T.dirs d ↔ Reachable s d := (h.reachable hg).symm
  constructor
  · exact ⟨[rootCluster], h.directory_chain hl.root, List.nodup_singleton _⟩
  · intro d entry hr he
    have hd := reach.mpr hr
    cases (h.holds hd).mp he with
    | @file i p hi hp =>
      have hcontent := ho.content hd hi hp
      exact ⟨T.chain d i, hcontent.chain, hcontent.nodup, nofun, fun _ => hcontent.length⟩
    | @directory i p hi hp =>
      have hc := h.catalog.closed hd hi hp
      have hpos : 0 < p.firstCluster := lt_of_lt_of_le zero_lt_two (h.describes.valid hc).1
      exact ⟨[p.firstCluster], Or.inr ⟨hpos, h.directory_chain hc⟩, List.nodup_singleton _, fun _ => List.cons_ne_nil _ _, nofun⟩
  · intro o o' l l' hx hx' hne c hc hc'
    rcases h.member hx hc with ⟨rfl, rfl⟩ | ⟨d, i, rfl, hd, hs⟩ | ⟨d, i, rfl, hown⟩ <;>
      rcases h.member hx' hc' with ⟨rfl, hroot⟩ | ⟨d', i', rfl, hd', hs'⟩ | ⟨d', i', rfl, hown'⟩
    · exact hne rfl
    · exact (hl.closed hd' hs').2.1 rfl
    · exact ho.apart hown' hl.root
    · exact (hl.closed hd hs).2.1 hroot
    · have hdd : d = d' := (hl.closed hd hs).2.2.symm.trans (hl.closed hd' hs').2.2
      subst hdd
      exact hne (by rw [hl.once hd hs hs'])
    · exact ho.apart hown' (hl.closed hd hs).1
    · exact ho.apart hown (hroot ▸ hl.root)
    · exact ho.apart hown (hl.closed hd' hs').1
    · obtain ⟨rfl, rfl⟩ := ho.disjoint hown hown'
      exact hne rfl
  · intro c hv
    constructor
    · intro hu
      rcases ho.owner hv hu with hc | ⟨d, i, hd, hi, hc, p, hp⟩
      · by_cases hroot : c = rootCluster
        · subst hroot
          exact ⟨.root, _, .root (h.directory_chain hc), List.mem_singleton_self _⟩
        · obtain ⟨hd, i, hi, p, hp, rfl⟩ := hl.record hc hroot
          have hpos : 0 < p.firstCluster := lt_of_lt_of_le zero_lt_two hv.1
          exact ⟨_, _, .record (reach.mp hd) (h.lists_directory hd hi hp) (Or.inr ⟨hpos, h.directory_chain hc⟩),
            List.mem_singleton_self _⟩
      · exact ⟨_, _, .record (reach.mp hd) (h.lists_file hd hi hp) (ho.content hd hi hp).chain, hc⟩
    · rintro ⟨o, l, hx, hc⟩
      rcases h.member hx hc with ⟨-, rfl⟩ | ⟨d, i, -, hd, hs⟩ | ⟨d, i, -, hown⟩
      · exact (h.directory_chain hl.root).used _ (List.mem_singleton_self _)
      · exact (h.directory_chain (hl.closed hd hs).1).used _ (List.mem_singleton_self _)
      · exact (ho.used hown).2
  · intro d entry hr he hk
    have hd := reach.mpr hr
    cases (h.holds hd).mp he with
    | file => cases hk
    | @directory i p hi hp =>
      obtain ⟨hc, hroot, hparent⟩ := hl.closed hd ⟨hi, p, hp, rfl⟩
      obtain ⟨h₀, h₁⟩ := hl.dots hc hroot
      have hs₀ := h.describes.shows hc 0 (by omega)
      have hs₁ := h.describes.shows hc 1 (by omega)
      rw [h₀] at hs₀
      rw [h₁, hparent] at hs₁
      exact ⟨hs₀, hs₁⟩
  · intro i hi
    rw [← h.table]
    exact (if_pos hi).symm

/-- Every run without a move of a directory into its own subtree leaves the volume in order. -/
theorem run_wellFormed (h : Run (fun s r => ¬r.Inward s) s live) : WellFormed s := by
  obtain ⟨T, hT, hg⟩ := h.sound
  exact hT.toConsistent.wellFormed (hg fun _ _ hout => hout)

theorem run_wellFormed_worked : ∃ (s t u v w : FileService) (k c m : Nat) (p : Primary), Worked [ascii 'X'] s t u v w k c m p ∧
    WellFormed w := by
  obtain ⟨s, t, u, v, w, k, c, m, p, h⟩ := exists_worked [ascii 'X'] ⟨by decide, by decide⟩
  exact ⟨s, t, u, v, w, k, c, m, p, h, run_wellFormed (h.run _ fun _ _ hout => hout).2.2⟩

/-- The directory can be read, and its entries show different base names. -/
structure Distinct (s : FileService) (d : Nat) : Prop where
  readable : ∃ clusters, Fat.traverse s.disk.fat s.fatEntryCount d maxClusters = .ok clusters ∧ ∀ c ∈ clusters,
    ∃ entries, directoryScan (slotAt (s.disk.data c)) directorySlots directorySlots directorySlots = .ok entries
  different : ∀ c entry c' entry', Lists s d c entry → Lists s d c' entry' →
    entry.primary.name.slice 0 8 = entry'.primary.name.slice 0 8 → c = c' ∧ entry = entry'

theorem Consistent.distinct (h : Consistent s T) (hd : T.dirs d) (hdis : Distinguished (T.items d)) : Distinct s d := by
  refine ⟨⟨[d], ?_, fun c hc => ⟨entriesOf (T.items d), ?_⟩⟩, fun c entry c' entry' hl hl' hbase => ?_⟩
  · exact Fat.traverse_eq_ok.mpr ⟨h.mounted.validEntryCount, by decide, h.directory_chain hd, List.nodup_singleton d,
      show 1 ≤ maxClusters by decide⟩
  · rw [List.mem_singleton.mp hc]
    exact directoryScan_eq (h.describes.shows hd) (h.describes.tidy hd)
  · obtain ⟨rfl, he⟩ := (h.lists hd).mp hl
    obtain ⟨rfl, he'⟩ := (h.lists hd).mp hl'
    obtain ⟨hi, hp⟩ := he.named
    obtain ⟨hi', hp'⟩ := he'.named
    refine ⟨rfl, he.unique (h.describes.tidy hd) he' ?_⟩
    have hslot := hdis _ _ _ _ hi hi' hp hp' hbase
    rw [← hslot] at hp'
    exact congrArg Primary.name (hp.unique hp')

/-- No run puts two entries with the same eight base bytes into a directory. -/
theorem run_distinct (h : Run (fun _ _ => True) s live) (hd : live d) : Distinct s d := by
  obtain ⟨T, hT, -⟩ := h.sound
  rw [hT.live] at hd
  exact hT.toConsistent.distinct hd (hT.distinguished d hd)

theorem run_distinct_worked : ∃ (s t u v w : FileService) (k c m : Nat) (p : Primary), Worked [ascii 'X'] s t u v w k c m p ∧
    Distinct w rootCluster ∧ Distinct w p.firstCluster := by
  obtain ⟨s, t, u, v, w, k, c, m, p, h⟩ := exists_worked [ascii 'X'] ⟨by decide, by decide⟩
  obtain ⟨-, -, hrun⟩ := h.run (fun _ _ => True) fun _ _ _ => trivial
  exact ⟨s, t, u, v, w, k, c, m, p, h, run_distinct hrun (Or.inl rfl), run_distinct hrun (Or.inr ⟨_, rfl, rfl⟩)⟩

end FileService
end InferenceOS
