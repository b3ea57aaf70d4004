import InferenceOS.Theorems.PhysicalRuns

/-! Where the allocator of physical pages puts its metadata. The search takes the lowest position of the first usable region that has
    one. It keeps off the reservations, but not off page 0. -/

namespace InferenceOS
open Program

def Overlap (base size base' size' : Nat) : Prop :=
  ∃ byte, (base ≤ byte ∧ byte < base + size) ∧ base' ≤ byte ∧ byte < base' + size'

namespace PhysicalMemory
variable {m t : PhysicalMemory} {regions : List PhysicalRegion} {reservations : List PhysicalReservation} {region : PhysicalRegion}
  {byteCount base maximum : Nat}

/-- The metadata can stand in the region at a position that no reservation overlaps. -/
structure FitsAt (reservations : List PhysicalReservation) (byteCount : Nat) (region : PhysicalRegion) (base : Nat) : Prop where
  aligned : base % pageSize = 0
  low : region.base ≤ base
  high : base + byteCount ≤ region.base + region.pageCount * pageSize
  apart : ∀ reservation ∈ reservations, ¬Overlap base byteCount reservation.base reservation.byteCount

def Taken (reservations : List PhysicalReservation) (byteCount : Nat) (region : PhysicalRegion) : Prop :=
  ∀ base, ¬FitsAt reservations byteCount region base

theorem rangesOverlap_iff {left leftSize right rightSize : Nat} (hl : left + leftSize < 2 ^ 64) (hr : right + rightSize < 2 ^ 64) :
    rangesOverlap left leftSize right rightSize = true ↔ Overlap left leftSize right rightSize := by
  have hsum : ∀ {a b : Nat}, a + b < 2 ^ 64 → add? a b = some (a + b) := fun h => if_neg (by omega)
  unfold rangesOverlap
  by_cases hzero : leftSize = 0 ∨ rightSize = 0
  · rw [if_pos hzero]
    refine ⟨nofun, fun ⟨byte, hleft, hright⟩ => ?_⟩
    omega
  rw [if_neg hzero, hsum hl, hsum hr]
  dsimp only
  rw [decide_eq_true_iff]
  constructor
  · rintro ⟨h, h'⟩
    rcases Nat.le_total left right with hle | hle
    · exact ⟨right, ⟨hle, h'⟩, le_rfl, by omega⟩
    · exact ⟨left, ⟨le_rfl, by omega⟩, hle, h⟩
  · rintro ⟨byte, hleft, hright⟩
    omega

theorem reservation_end {reservation : PhysicalReservation} (h : reservationIsValid reservation = true) :
    reservation.byteCount = 0 ∨ reservation.base + reservation.byteCount ≤ physicalAddressLimit := by
  unfold reservationIsValid at h
  rcases of_decide_eq_true h with hzero | ⟨e, he, hlimit⟩
  · exact Or.inl hzero
  · exact Or.inr (add?_eq_some he ▸ hlimit)

theorem candidateOverlapsReservation_some {candidate next : Nat} (hv : ∀ reservation ∈ reservations, reservationIsValid reservation = true)
    (hc : candidate + byteCount ≤ physicalAddressLimit) (h : candidateOverlapsReservation candidate byteCount reservations = some next) :
    candidate < next ∧ next % pageSize = 0 ∧ ∀ base, candidate ≤ base → FitsAt reservations byteCount region base → next ≤ base := by
  unfold candidateOverlapsReservation at h
  obtain ⟨reservation, hfound, rfl⟩ := Option.map_eq_some_iff.mp h
  have hmem := List.mem_of_find?_eq_some hfound
  have hhit := List.find?_some hfound
  have hoverlap : rangesOverlap candidate byteCount reservation.base reservation.byteCount = true := hhit
  have hsize : reservation.byteCount ≠ 0 := by
    intro hzero
    unfold rangesOverlap at hoverlap
    rw [if_pos (Or.inr hzero)] at hoverlap
    cases hoverlap
  have hend := (reservation_end (hv _ hmem)).resolve_left hsize
  unfold physicalAddressLimit at hend hc
  obtain ⟨byte, hleft, hright⟩ := (rangesOverlap_iff (by omega) (by omega)).mp hoverlap
  rw [pageCeil_eq hend]
  refine ⟨?_, Nat.mul_mod_left _ _, fun base hbase hfits => ?_⟩
  · unfold pageSize
    omega
  · -- A position behind the candidate overlaps the reservation unless it starts behind its end.
    have hpassed : reservation.base + reservation.byteCount ≤ base := by
      by_contra hbefore
      refine hfits.apart _ hmem ⟨max base reservation.base, ⟨le_max_left _ _, ?_⟩, le_max_right _ _, ?_⟩
      · exact max_lt (by omega) (by omega)
      · exact max_lt (by omega) (by omega)
    have haligned := hfits.aligned
    unfold pageSize at *
    omega

theorem candidateOverlapsReservation_none {candidate : Nat} (hv : ∀ reservation ∈ reservations, reservationIsValid reservation = true)
    (hc : candidate + byteCount ≤ physicalAddressLimit) (h : candidateOverlapsReservation candidate byteCount reservations = none) :
    ∀ reservation ∈ reservations, ¬Overlap candidate byteCount reservation.base reservation.byteCount := by
  intro reservation hmem hoverlap
  have hnone := List.find?_eq_none.mp (Option.map_eq_none_iff.mp h) reservation hmem
  rcases reservation_end (hv _ hmem) with hzero | hend
  · obtain ⟨byte, -, hright⟩ := hoverlap
    omega
  · unfold physicalAddressLimit at hend hc
    exact hnone ((rangesOverlap_iff (by omega) (by omega)).mpr hoverlap)

theorem metadataFrom_spec (hv : ∀ reservation ∈ reservations, reservationIsValid reservation = true)
    (hend : region.base + region.pageCount * pageSize ≤ physicalAddressLimit) : ∀ {fuel candidate : Nat},
    candidate % pageSize = 0 → region.base ≤ candidate → region.base + region.pageCount * pageSize < candidate + fuel * pageSize →
    (∀ base, FitsAt reservations byteCount region base → candidate ≤ base) →
    match metadataFrom reservations byteCount (region.base + region.pageCount * pageSize) fuel candidate with
    | some base => FitsAt reservations byteCount region base ∧ ∀ other, FitsAt reservations byteCount region other → base ≤ other
    | none => Taken reservations byteCount region
  | 0, candidate, _, _, hfuel, hleast => by
    intro base hfits
    have := hleast base hfits
    have := hfits.high
    omega
  | fuel + 1, candidate, haligned, hlow, hfuel, hleast => by
    rw [metadataFrom]
    by_cases hroom : region.base + region.pageCount * pageSize < candidate ∨
        region.base + region.pageCount * pageSize - candidate < byteCount
    · rw [if_pos hroom]
      intro base hfits
      have := hleast base hfits
      have := hfits.high
      omega
    rw [if_neg hroom]
    rcases hnext : candidateOverlapsReservation candidate byteCount reservations with - | next
    · exact ⟨⟨haligned, hlow, by omega, candidateOverlapsReservation_none hv (by omega) hnext⟩, hleast⟩
    · obtain ⟨hlt, hpage, hskip⟩ := @candidateOverlapsReservation_some reservations region byteCount candidate next hv (by omega) hnext
      dsimp only
      rw [if_neg (by omega)]
      refine metadataFrom_spec hv hend hpage (by omega) ?_ fun base hfits => hskip base (hleast base hfits) hfits
      unfold pageSize at *
      omega

theorem region_end (h : region.base + region.pageCount * pageSize ≤ physicalAddressLimit) :
    (multiply? region.pageCount pageSize >>= add? region.base) = some (region.base + region.pageCount * pageSize) := by
  have hcount : region.pageCount * pageSize ≤ 2 ^ 64 - 1 := by
    unfold physicalAddressLimit at h
    omega
  have hproduct : multiply? region.pageCount pageSize = some (region.pageCount * pageSize) := by
    refine if_neg ?_
    rintro ⟨hne, hlt⟩
    have := (Nat.div_lt_iff_lt_mul (Nat.pos_of_ne_zero hne)).mp hlt
    rw [Nat.mul_comm] at this
    omega
  rw [hproduct]
  show add? _ _ = _
  refine if_neg ?_
  unfold physicalAddressLimit at h
  omega

/-- The first usable region that has a position, and the lowest one there. -/
structure FirstFit (regions : List PhysicalRegion) (reservations : List PhysicalReservation) (byteCount base : Nat) : Prop where
  exists_region : ∃ before region after, regions = before ++ region :: after ∧ region.kind = some .usable ∧
    FitsAt reservations byteCount region base ∧ (∀ other, FitsAt reservations byteCount region other → base ≤ other) ∧
    ∀ other ∈ before, other.kind = some .usable → Taken reservations byteCount other

theorem FirstFit.skip (h : FirstFit regions reservations byteCount base)
    (hr : region.kind = some .usable → Taken reservations byteCount region) : FirstFit (region :: regions) reservations byteCount base := by
  obtain ⟨before, chosen, after, rfl, hkind, hfits, hleast, hbefore⟩ := h.exists_region
  exact ⟨region :: before, chosen, after, rfl, hkind, hfits, hleast, List.forall_mem_cons.mpr ⟨hr, hbefore⟩⟩

theorem findMetadataSpace_spec (hv : ∀ reservation ∈ reservations, reservationIsValid reservation = true) : ∀ {regions : List PhysicalRegion},
    (∀ region ∈ regions, region.base % pageSize = 0 ∧ region.base + region.pageCount * pageSize ≤ physicalAddressLimit) →
    match findMetadataSpace reservations byteCount regions with
    | some base => FirstFit regions reservations byteCount base
    | none => ∀ region ∈ regions, region.kind = some .usable → Taken reservations byteCount region
  | [], _ => nofun
  | region :: rest, hr => by
    obtain ⟨⟨haligned, hend⟩, hrest⟩ := List.forall_mem_cons.mp hr
    have ih := findMetadataSpace_spec hv hrest
    have skip : (region.kind = some .usable → Taken reservations byteCount region) →
        match findMetadataSpace reservations byteCount rest with
        | some base => FirstFit (region :: rest) reservations byteCount base
        | none => ∀ other ∈ region :: rest, other.kind = some .usable → Taken reservations byteCount other := by
      intro htaken
      revert ih
      cases findMetadataSpace reservations byteCount rest with
      | some base => exact fun h => h.skip htaken
      | none => exact fun h => List.forall_mem_cons.mpr ⟨htaken, h⟩
    rw [findMetadataSpace]
    by_cases hkind : region.kind ≠ some .usable
    · rw [if_pos hkind]
      exact skip fun h => absurd h hkind
    rw [if_neg hkind, region_end hend]
    dsimp only
    have hspec := @metadataFrom_spec reservations region byteCount hv hend (region.pageCount + 1) region.base haligned le_rfl
      (by unfold pageSize; omega) fun base hfits => hfits.low
    revert hspec
    cases metadataFrom reservations byteCount (region.base + region.pageCount * pageSize) (region.pageCount + 1) region.base with
    | some base => exact fun h => ⟨[], region, rest, rfl, not_not.mp hkind, h.1, h.2, nofun⟩
    | none => exact fun h => skip fun _ => h

theorem maximumUsableEnd_zero : ∀ {regions : List PhysicalRegion} {maximum result : Nat}, maximumUsableEnd regions maximum = .ok result →
    maximum ≤ result ∧ ∀ region ∈ regions, region.kind = some .reserved ∨ 0 < result
  | [], _, _, h => ⟨(Except.ok.inj h).le, nofun⟩
  | region :: rest, maximum, result, h => by
    unfold maximumUsableEnd at h
    split at h
    · cases h
    split at h
    · cases h
    rename_i regionBytes hbytes _ regionEnd hend
    obtain ⟨hregion, h⟩ := of_check h
    obtain ⟨-, h⟩ := of_check h
    obtain ⟨-, h⟩ := of_check h
    obtain ⟨hle, hrest⟩ := maximumUsableEnd_zero h
    have hgrown : maximum ≤ result ∧ (region.kind ≠ some .reserved → regionEnd ≤ result) := by
      split at hle <;> rename_i hlarger
      · exact ⟨by omega, fun _ => hle⟩
      · refine ⟨hle, fun hkind => ?_⟩
        have : ¬maximum < regionEnd := fun hlt => hlarger ⟨hkind, hlt⟩
        omega
    refine ⟨hgrown.1, List.forall_mem_cons.mpr ⟨?_, hrest⟩⟩
    by_cases hkind : region.kind = some .reserved
    · exact Or.inl hkind
    · simp only [not_or, not_not] at hregion
      have hpositive : pageSize ≤ region.pageCount * pageSize := Nat.le_mul_of_pos_left _ (Nat.pos_of_ne_zero hregion.2.1)
      have hlast := hgrown.2 hkind
      rw [add?_eq_some hend, multiply?_eq_some hbytes] at hlast
      unfold pageSize at hpositive hlast
      exact Or.inr (by omega)

def metadataBytes (maximum : Nat) : Nat := ((maximum / pageSize + 3) / 4 + (pageSize - 1)) / pageSize * pageSize

/-- The map passes the checks of `physical_memory_initialize`, which was not called before. -/
structure Accepted (regions : List PhysicalRegion) (reservations : List PhysicalReservation) (m : PhysicalMemory) (maximum : Nat) : Prop where
  fresh : m.initialized = false
  counts : regions ≠ [] ∧ regions.length ≤ memoryMapMaxRegions ∧ reservations.length ≤ memoryMapMaxRegions
  checked : maximumUsableEnd regions 0 = .ok maximum
  valid : ∀ reservation ∈ reservations, reservationIsValid reservation = true

/-- Where the metadata goes, and when there is no memory for it. -/
structure PlacesMetadata (regions : List PhysicalRegion) (reservations : List PhysicalReservation) (m : PhysicalMemory) : Prop where
  placed : ∀ t, physicalMemoryInitialize regions reservations m = (.ok (), t) → ∃ region ∈ regions, region.kind = some .usable ∧
    FitsAt reservations (t.metadataPageCount * pageSize) region t.metadataPhysicalBase ∧
    ¬Overlap t.metadataPhysicalBase (t.metadataPageCount * pageSize) 0 pageSize
  refused : ∀ t, physicalMemoryInitialize regions reservations m = (.error .noMemory, t) →
    (∀ region ∈ regions, region.kind = some .reserved) ∨ ∀ region ∈ regions, region.kind = some .usable →
      ∀ base, FitsAt reservations (t.metadataPageCount * pageSize) region base → Overlap base (t.metadataPageCount * pageSize) 0 pageSize

theorem initialize_placed (h : Accepted regions reservations m maximum) : wp (physicalMemoryInitialize regions reservations)
    (fun _ t => t.metadataPageCount * pageSize = metadataBytes maximum ∧ maximum ≠ 0 ∧
      findMetadataSpace reservations (metadataBytes maximum) regions = some t.metadataPhysicalBase)
    (fun _ t => maximum = 0 ∨ t.metadataPageCount * pageSize = metadataBytes maximum ∧
      findMetadataSpace reservations (metadataBytes maximum) regions = none) m := by
  obtain ⟨hregions, hcount, hcount'⟩ := h.counts
  unfold physicalMemoryInitialize
  rw [wp_bind, wp_get, failIf_pass (by rw [h.fresh]; exact Bool.false_ne_true), failIf_pass (by rintro (hx | hx | hx) <;> [exact hregions hx; omega; omega]),
    h.checked, ofExcept_ok_bind, failIf_pass]
  · by_cases hzero : maximum = 0
    · rw [failIf_bind hzero]
      exact Or.inl hzero
    rw [failIf_pass hzero, wp_bind, wp_modify]
    rcases hfind : findMetadataSpace reservations (((maximum / pageSize + 3) / 4 + (pageSize - 1)) / pageSize * pageSize) regions with - | base
    · exact Or.inr ⟨rfl, hfind⟩
    simp only [wp_bind, wp_modify]
    generalize hstart : ({ m with managedPageCount := maximum / pageSize, metadataPageCount := ((maximum / pageSize + 3) / 4 + (pageSize - 1)) / pageSize, metadataPhysicalBase := base, pageStates := fun _ => 0 } : PhysicalMemory) = start
    have hpainted := (@foldl_markRegion 0 regions start).1
    generalize regions.foldl markRegion start = painted at *
    have hreserved := only_trans hpainted (@foldl_markReservation 0 reservations painted h.valid).1
    generalize reservations.foldl markReservation painted = reserved at *
    have hlast := only_trans hreserved (only_trans (@markRange_eq reserved .unavailable 0 1)
      (@markRange_eq (reserved.markRange 0 1 .unavailable) .unavailable (base / pageSize)
        (((maximum / pageSize + 3) / 4 + (pageSize - 1)) / pageSize)))
    have hbase : start.metadataPhysicalBase = base := by rw [← hstart]
    have hpages : start.metadataPageCount * pageSize = metadataBytes maximum := by
      rw [← hstart]
      rfl
    rw [hlast]
    exact ⟨hpages, hzero, hfind.trans (congrArg some hbase.symm)⟩
  · rintro ⟨reservation, hmem, hinvalid⟩
    exact absurd (h.valid reservation hmem) (Bool.eq_false_iff.mp hinvalid)

theorem FirstFit.unique {base' : Nat} (h : FirstFit regions reservations byteCount base) (h' : FirstFit regions reservations byteCount base') :
    base = base' := by
  obtain ⟨before, region, after, rfl, hkind, hfits, hleast, hbefore⟩ := h.exists_region
  obtain ⟨before', region', after', hsplit, hkind', hfits', hleast', hbefore'⟩ := h'.exists_region
  rcases List.append_eq_append_iff.mp hsplit with ⟨rest, rfl, hrest⟩ | ⟨rest, rfl, hrest⟩
  · cases rest with
    | nil =>
      cases hrest
      exact le_antisymm (hleast _ hfits') (hleast' _ hfits)
    | cons other rest =>
      cases hrest
      exact absurd hfits (hbefore' region (List.mem_append_right _ List.mem_cons_self) hkind base)
  · cases rest with
    | nil =>
      cases hrest
      exact le_antisymm (hleast _ hfits') (hleast' _ hfits)
    | cons other rest =>
      cases hrest
      exact absurd hfits' (hbefore region' (List.mem_append_right _ List.mem_cons_self) hkind' base')

theorem Accepted.bytes_pos (h : Accepted regions reservations m maximum) (hmaximum : maximum ≠ 0) : 0 < metadataBytes maximum := by
  have hpage := (maximumUsableEnd_eq_ok h.checked (Or.inl rfl)).1.resolve_left hmaximum
  unfold metadataBytes
  unfold pageSize at *
  omega

/-- The metadata is placed as it should be unless the first position that the search comes to is address 0. -/
theorem metadata_placed_iff (h : Accepted regions reservations m maximum) :
    PlacesMetadata regions reservations m ↔ ¬FirstFit regions reservations (metadataBytes maximum) 0 := by
  have hrun := initialize_placed h
  have hfind := @findMetadataSpace_spec reservations (metadataBytes maximum) h.valid regions
    (maximumUsableEnd_eq_ok h.checked (Or.inl rfl)).2
  constructor
  · intro hplaces hzero
    obtain ⟨before, region, after, hregions, hkind, hfits, -⟩ := hzero.exists_region
    have hmem : region ∈ regions := by
      rw [hregions]
      exact List.mem_append_right _ List.mem_cons_self
    have hmaximum : maximum ≠ 0 := by
      rcases (maximumUsableEnd_zero h.checked).2 region hmem with hreserved | hpositive
      · rw [hkind] at hreserved
        cases hreserved
      · exact hpositive.ne'
    rcases hinit : physicalMemoryInitialize regions reservations m with ⟨e | _, t⟩
    · obtain ⟨-, hnone⟩ := (wp_error hrun hinit).resolve_left hmaximum
      rw [hnone] at hfind
      exact hfind region hmem hkind 0 hfits
    · obtain ⟨hbytes, -, hsome⟩ := wp_ok hrun hinit
      rw [hsome] at hfind
      obtain ⟨-, -, -, -, houtside⟩ := hplaces.placed t hinit
      rw [hbytes, hfind.unique hzero] at houtside
      exact houtside ⟨0, ⟨le_rfl, (Nat.zero_add _).symm ▸ h.bytes_pos hmaximum⟩, le_rfl, by decide⟩
  · intro hnonzero
    refine ⟨fun t hinit => ?_, fun t hinit => ?_⟩
    · obtain ⟨hbytes, -, hsome⟩ := wp_ok hrun hinit
      rw [hsome] at hfind
      obtain ⟨before, region, after, hregions, hkind, hfits, -⟩ := hfind.exists_region
      refine ⟨region, hregions ▸ List.mem_append_right _ List.mem_cons_self, hkind, hbytes ▸ hfits, ?_⟩
      rintro ⟨byte, ⟨hlow, -⟩, -, hpage⟩
      -- The position is a page that is not page 0.
      have haligned := hfits.aligned
      have hbase : t.metadataPhysicalBase ≠ 0 := fun hx => hnonzero (hx ▸ hfind)
      unfold pageSize at haligned hpage
      omega
    · have herror := wp_error hrun hinit
      rcases herror with rfl | ⟨hbytes, hnone⟩
      · refine Or.inl fun region hmem => ?_
        exact ((maximumUsableEnd_zero h.checked).2 region hmem).resolve_right (lt_irrefl 0)
      · rw [hnone] at hfind
        exact Or.inr fun region hmem hkind base hfits => absurd (hbytes ▸ hfits) (hfind region hmem hkind base)

/-- Four usable pages behind page 0. -/
theorem metadata_placed_iff_behind : PlacesMetadata [⟨pageSize, 4, some .usable⟩] [] unset := by
  have haccepted : Accepted [⟨pageSize, 4, some .usable⟩] [] unset (5 * pageSize) :=
    ⟨rfl, ⟨List.cons_ne_nil _ _, by decide, by decide⟩, rfl, nofun⟩
  refine (metadata_placed_iff haccepted).mpr fun hzero => ?_
  obtain ⟨before, region, after, hregions, -, hfits, -⟩ := hzero.exists_region
  have hmem : region ∈ [(⟨pageSize, 4, some .usable⟩ : PhysicalRegion)] := hregions ▸ List.mem_append_right _ List.mem_cons_self
  rw [List.mem_singleton.mp hmem] at hfits
  exact absurd hfits.low (by decide)

/-- With four usable pages from page 0 on the metadata takes page 0. -/
theorem metadata_not_placed : ¬PlacesMetadata fourPages [] unset := by
  intro hplaces
  obtain ⟨region, -, -, -, houtside⟩ := hplaces.placed fourLaid (run_eq (by decide +kernel))
  have hbase : fourLaid.metadataPhysicalBase = 0 := by decide +kernel
  have hpages : fourLaid.metadataPageCount = 1 := by decide +kernel
  rw [hbase, hpages] at houtside
  exact houtside ⟨0, by decide, by decide⟩

end PhysicalMemory
end InferenceOS
