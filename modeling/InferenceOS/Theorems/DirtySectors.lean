import InferenceOS.Theorems.Containment

/-! The list of the sectors of the allocation table that changed in memory and still have to be written: what marking
    leaves in it, and what writing the table does on every way out. -/

namespace InferenceOS
open Program

/-- The sectors of the table that the list has to hold for the clusters `l`. -/
def neededSectors (sectors l : List Nat) : Finset Nat := (sectors ++ l.map (· / fatEntriesPerSector)).toFinset

section Marking
variable {sectors l : List Nat} {c k : Nat}

theorem mem_neededSectors : k ∈ neededSectors sectors l ↔ k ∈ sectors ∨ ∃ c ∈ l, c / fatEntriesPerSector = k := by
  simp [neededSectors]

theorem neededSectors_nil_card : (neededSectors [] l).card ≤ l.length := by
  refine (List.toFinset_card_le _).trans ?_
  simp

namespace FileService

theorem mem_markFatCluster_of_mem (h : k ∈ sectors) : k ∈ markFatCluster sectors c := by
  unfold markFatCluster
  split
  · exact h
  · split
    · exact List.mem_append_left _ h
    · exact h

theorem mem_markFatCluster (h : k ∈ markFatCluster sectors c) : k ∈ sectors ∨ k = c / fatEntriesPerSector := by
  unfold markFatCluster at h
  split at h
  · exact Or.inl h
  · split at h
    · exact (List.mem_append.mp h).imp_right List.mem_singleton.mp
    · exact Or.inl h

theorem markFatCluster_full (h : c / fatEntriesPerSector ∉ markFatCluster sectors c) : maxDirtyFatSectors ≤ sectors.length := by
  unfold markFatCluster at h
  split at h
  · exact absurd ‹_› h
  · split at h
    · exact absurd (List.mem_append_right _ (List.mem_singleton.mpr rfl)) h
    · exact Nat.not_lt.mp ‹_›

theorem length_markFatCluster : sectors.length ≤ (markFatCluster sectors c).length := by
  unfold markFatCluster
  split
  · exact le_rfl
  · split <;> simp

/-- A list without repetitions that is no longer than its array. -/
structure Compact (sectors : List Nat) : Prop where
  nodup : sectors.Nodup
  short : sectors.length ≤ maxDirtyFatSectors

theorem Compact.nil : Compact [] := ⟨List.nodup_nil, Nat.zero_le _⟩

theorem Compact.mark (h : Compact sectors) : Compact (markFatCluster sectors c) := by
  unfold markFatCluster
  split
  · exact h
  · rename_i hc
    split
    · rename_i hlen
      refine ⟨List.nodup_append.mpr ⟨h.nodup, List.nodup_singleton _, fun a ha b hb hab => ?_⟩, ?_⟩
      · rw [List.mem_singleton.mp hb] at hab
        exact hc (hab ▸ ha)
      · rw [List.length_append]
        exact hlen
    · exact h

theorem Compact.marks : ∀ {l sectors : List Nat}, Compact sectors → Compact (l.foldl markFatCluster sectors)
  | [], _, h => h
  | _ :: l, _, h => Compact.marks (l := l) h.mark

theorem subset_marks : ∀ {l sectors : List Nat}, k ∈ sectors → k ∈ l.foldl markFatCluster sectors
  | [], _, h => h
  | _ :: l, _, h => subset_marks (l := l) (mem_markFatCluster_of_mem h)

theorem length_marks : ∀ {l sectors : List Nat}, sectors.length ≤ (l.foldl markFatCluster sectors).length
  | [], _ => le_rfl
  | _ :: l, _ => length_markFatCluster.trans (length_marks (l := l))

theorem mem_marks : ∀ {l sectors : List Nat}, k ∈ l.foldl markFatCluster sectors → k ∈ neededSectors sectors l
  | [], sectors, h => mem_neededSectors.mpr (Or.inl h)
  | c :: l, sectors, h => by
    rcases mem_neededSectors.mp (mem_marks (l := l) h) with hk | ⟨d, hd, rfl⟩
    · rcases mem_markFatCluster hk with hk | rfl
      · exact mem_neededSectors.mpr (Or.inl hk)
      · exact mem_neededSectors.mpr (Or.inr ⟨c, List.mem_cons_self, rfl⟩)
    · exact mem_neededSectors.mpr (Or.inr ⟨d, List.mem_cons_of_mem _ hd, rfl⟩)

theorem marks_full : ∀ {l sectors : List Nat}, c ∈ l → c / fatEntriesPerSector ∉ l.foldl markFatCluster sectors →
    maxDirtyFatSectors ≤ (l.foldl markFatCluster sectors).length
  | d :: l, sectors, hc, hno => by
    rcases List.mem_cons.mp hc with rfl | hc
    · have hmark : c / fatEntriesPerSector ∉ markFatCluster sectors c := fun h => hno (subset_marks (l := l) h)
      exact (markFatCluster_full hmark).trans (length_markFatCluster.trans (length_marks (l := l)))
    · exact marks_full (l := l) hc hno

theorem marks_iff (h : Compact sectors) : (∀ c ∈ l, c / fatEntriesPerSector ∈ l.foldl markFatCluster sectors) ↔
    (neededSectors sectors l).card ≤ maxDirtyFatSectors := by
  have hcompact : Compact (l.foldl markFatCluster sectors) := h.marks
  have hcard : (l.foldl markFatCluster sectors).toFinset.card = (l.foldl markFatCluster sectors).length :=
    List.toFinset_card_of_nodup hcompact.nodup
  constructor
  · intro hall
    have hsub : neededSectors sectors l ⊆ (l.foldl markFatCluster sectors).toFinset := fun k hk => by
      rw [List.mem_toFinset]
      rcases mem_neededSectors.mp hk with hk | ⟨c, hc, rfl⟩
      · exact subset_marks hk
      · exact hall c hc
    exact (Finset.card_le_card hsub).trans (hcard ▸ hcompact.short)
  · intro hroom c hc
    by_contra hno
    have hfull := marks_full hc hno
    -- The full list and the dropped sector are more sectors than the list can hold.
    have hsub : insert (c / fatEntriesPerSector) (l.foldl markFatCluster sectors).toFinset ⊆ neededSectors sectors l := by
      intro k hk
      rcases Finset.mem_insert.mp hk with rfl | hk
      · exact mem_neededSectors.mpr (Or.inr ⟨c, hc, rfl⟩)
      · exact mem_marks (List.mem_toFinset.mp hk)
    have := Finset.card_le_card hsub
    rw [Finset.card_insert_of_notMem (by rwa [List.mem_toFinset]), hcard] at this
    omega

end FileService
end Marking

namespace BlockCache
variable {cache c : BlockCache} {m n : Nat} {b : Sector}

theorem Unsaved.not_loose {i : Nat} (hs : (cache.entries i).state = .dirty ∨ (cache.entries i).state = .error) :
    ¬cache.Loose i := by
  rintro ⟨-, -, hx | hx⟩ <;> rcases hs with hs | hs <;> rw [hx] at hs <;> cases hs

theorem Unsaved.stored (h : Stored cache c n b) (hm : cache.Unsaved m) (hne : m ≠ n) : c.Unsaved m := by
  obtain ⟨i, hi, hs, rfl⟩ := hm
  obtain ⟨hstate, hsector⟩ := h.kept i hi (Unsaved.not_loose hs)
  have hentry := h.others i _ ⟨h.entryCount ▸ hi, hstate, hsector⟩ hne
  exact ⟨i, h.entryCount ▸ hi, by rwa [hentry], hsector⟩

theorem write_unsaved (h : cache.Coherent) {generation : Nat} :
    wp (write n b generation) (fun _ c => c.Unsaved n) (fun _ _ => True) cache := by
  simp only [write, wp_bind, wp_get, wp_failIf]
  refine ⟨fun _ => trivial, fun _ => ⟨fun _ => trivial, fun _ => ?_⟩⟩
  refine wp_mono (acquireEntry_spec h) (fun i c hx => ?_) fun _ _ _ => trivial
  obtain ⟨hn, ha⟩ := hx
  rw [wp_modify]
  have hheld : i < c.entryCount ∧ (c.entries i).sector = n := by
    rcases ha with ⟨hi, rfl⟩ | ⟨-, hl, device, -, rfl⟩
    · exact ⟨hi.1, by rw [revise_self]; exact hi.2.2⟩
    · exact ⟨hl.1, by rw [revise_self]⟩
  exact ⟨i, hheld.1, by simp [putEntry], by simpa [putEntry] using hheld.2⟩

theorem unsaved_length {l : List Nat} (h : ∀ n ∈ l, cache.Unsaved n) (hl : l.Nodup) : l.length ≤ cache.entryCount := by
  choose! place hplace using h
  have hinj : (l.map place).Nodup := by
    refine List.Nodup.map_on (fun m hm n hn hmn => ?_) hl
    rw [← (hplace m hm).2.2, ← (hplace n hn).2.2, hmn]
  have hsub : l.map place ⊆ List.range cache.entryCount := fun i hi => by
    obtain ⟨n, hn, rfl⟩ := List.mem_map.mp hi
    exact List.mem_range.mpr (hplace n hn).1
  simpa using (List.subperm_of_subset hinj hsub).length_le

end BlockCache

theorem Sync.writeSector_unsaved {sync : Sync} (h : sync.InStep) {n : Nat} {b : Sector} {component : UInt32} :
    wp (writeSector n b component)
      (fun _ t => t.cache.Unsaved n ∧ ∀ m, sync.cache.Unsaved m → t.cache.Unsaved m) (fun _ _ => True) sync := by
  have hnew : wp (writeSector n b component) (fun _ t => t.cache.Unsaved n) (fun _ _ => True) sync := by
    simp only [writeSector, wp_bind, wp_failIf, wp_get, wp_attempt, onCache, wp_zoom]
    refine ⟨fun _ => trivial, fun _ => wp_mono (BlockCache.write_unsaved h.coherent) (fun _ c hc => hc) fun _ _ _ => trivial⟩
  refine wp_mono (wp_and hnew (writeSector_spec h)) (fun _ t hx => ⟨hx.1, fun m hm => ?_⟩) fun _ _ _ => trivial
  by_cases hmn : m = n
  · exact hmn ▸ hx.1
  · exact hm.stored hx.2.stored hmn

end InferenceOS
