import InferenceOS.Theorems.PhysicalPages

/-! What the allocator of physical pages makes of a memory map. A page is free when a usable region holds it and
    neither a reservation nor the metadata touches it. -/

namespace InferenceOS
open Program

def PhysicalRegion.Holds (region : PhysicalRegion) (page : Nat) : Prop :=
  region.base / pageSize ≤ page ∧ page < region.base / pageSize + region.pageCount

/-- A page and `size` bytes from `base` share a byte. -/
def TouchesPage (base size page : Nat) : Prop := size ≠ 0 ∧ base < (page + 1) * pageSize ∧ page * pageSize < base + size

namespace PhysicalMemory
variable {memory m t : PhysicalMemory} {first count page : Nat} {state : PageState} {regions : List PhysicalRegion}
  {reservations : List PhysicalReservation}

theorem add?_eq_some {left right sum : Nat} (h : add? left right = some sum) : sum = left + right := by
  unfold add? at h
  split at h
  · cases h
  · cases h
    rfl

theorem multiply?_eq_some {left right product : Nat} (h : multiply? left right = some product) : product = left * right := by
  unfold multiply? at h
  split at h
  · cases h
  · cases h
    rfl

theorem markRange_states (memory : PhysicalMemory) (first count : Nat) (state : PageState) (page : Nat) :
    (memory.markRange first count state).getPageState page = memory.getPageState page ∨
      (memory.markRange first count state).getPageState page = state ∧ first ≤ page ∧ page < first + count := by
  unfold markRange
  rw [getPageState_setPages]
  split
  · rename_i hin
    have := Nat.mod_le (first + count) (2 ^ 64)
    exact Or.inr ⟨rfl, hin.1, by omega⟩
  · exact Or.inl rfl

theorem markRegion_eq {region : PhysicalRegion} :
    markRegion memory region = { memory with pageStates := (markRegion memory region).pageStates } := by
  unfold markRegion
  split
  · exact markRange_eq
  · exact markRange_eq
  · rfl

theorem markReservation_eq {reservation : PhysicalReservation} :
    markReservation memory reservation = { memory with pageStates := (markReservation memory reservation).pageStates } :=
  markRange_eq

theorem foldl_markRegion : ∀ {regions : List PhysicalRegion} {memory : PhysicalMemory},
    regions.foldl markRegion memory = { memory with pageStates := (regions.foldl markRegion memory).pageStates } ∧
    ((regions.foldl markRegion memory).getPageState page = memory.getPageState page ∨
      ∃ region ∈ regions, region.Holds page ∧
        ((regions.foldl markRegion memory).getPageState page = .free ∧ region.kind = some .usable ∨
          (regions.foldl markRegion memory).getPageState page = .reclaimable ∧ region.kind = some .reclaimable))
  | [], memory => ⟨rfl, Or.inl rfl⟩
  | region :: rest, memory => by
    obtain ⟨heq, hstate⟩ := @foldl_markRegion rest (markRegion memory region)
    rw [List.foldl_cons]
    refine ⟨?_, ?_⟩
    · rw [heq, markRegion_eq]
    · rcases hstate with hsame | ⟨other, ho, hx⟩
      · rw [hsame]
        unfold markRegion
        split
        · rename_i hk
          rcases markRange_states memory (region.base / pageSize) region.pageCount .free page with hx | ⟨hx, hin⟩
          · exact Or.inl hx
          · exact Or.inr ⟨region, List.mem_cons_self, hin, Or.inl ⟨hx, hk⟩⟩
        · rename_i hk
          rcases markRange_states memory (region.base / pageSize) region.pageCount .reclaimable page with hx | ⟨hx, hin⟩
          · exact Or.inl hx
          · exact Or.inr ⟨region, List.mem_cons_self, hin, Or.inr ⟨hx, hk⟩⟩
        · exact Or.inl rfl
      · exact Or.inr ⟨other, List.mem_cons_of_mem _ ho, hx⟩

theorem pageCeil_eq {value : Nat} (h : value ≤ physicalAddressLimit) :
    pageCeil value = (value + (pageSize - 1)) / pageSize * pageSize := by
  unfold pageCeil
  rw [Nat.mod_eq_of_lt]
  unfold physicalAddressLimit at h
  unfold pageSize
  omega

theorem wrap_sub {a b : Nat} (h : b ≤ a) (ha : a < 2 ^ 64) : (a + 2 ^ 64 - b) % 2 ^ 64 = a - b := by
  omega

theorem markReservation_states {reservation : PhysicalReservation} (hv : reservationIsValid reservation = true)
    (hp : page < memory.managedPageCount) :
    ((markReservation memory reservation).getPageState page = memory.getPageState page ∨
      (markReservation memory reservation).getPageState page = .unavailable) ∧
    (TouchesPage reservation.base reservation.byteCount page →
      (markReservation memory reservation).getPageState page = .unavailable) := by
  refine ⟨?_, fun ⟨hsize, hbase, hend⟩ => ?_⟩
  · unfold markReservation
    exact (markRange_states _ _ _ _ _).imp_right fun h => h.1
  · have hlimit : reservation.base + reservation.byteCount ≤ physicalAddressLimit := by
      unfold reservationIsValid at hv
      obtain ⟨e, he, hle⟩ := (of_decide_eq_true hv).resolve_left hsize
      rwa [← add?_eq_some he]
    have hsum : (reservation.base + reservation.byteCount) % 2 ^ 64 = reservation.base + reservation.byteCount := by
      rw [Nat.mod_eq_of_lt]
      unfold physicalAddressLimit at hlimit
      omega
    unfold markReservation
    dsimp only
    rw [hsum]
    generalize hstop : (if (reservation.base + reservation.byteCount) % pageSize ≠ 0 then
      pageCeil (reservation.base + reservation.byteCount) else reservation.base + reservation.byteCount) = stop
    have hbounds : page < stop / pageSize ∧ reservation.base / pageSize ≤ stop / pageSize ∧ stop / pageSize < 2 ^ 64 := by
      rw [← hstop, pageCeil_eq hlimit]
      unfold physicalAddressLimit at hlimit
      unfold pageSize at *
      split <;> omega
    have hcount := wrap_sub hbounds.2.1 hbounds.2.2
    rw [hcount, getPageState_markRange (by omega) hp, if_pos]
    have : reservation.base / pageSize ≤ page := by
      unfold pageSize at *
      omega
    omega

theorem foldl_markReservation : ∀ {reservations : List PhysicalReservation} {memory : PhysicalMemory},
    (∀ reservation ∈ reservations, reservationIsValid reservation = true) →
    reservations.foldl markReservation memory = { memory with
      pageStates := (reservations.foldl markReservation memory).pageStates } ∧
    (page < memory.managedPageCount →
      ((reservations.foldl markReservation memory).getPageState page = memory.getPageState page ∧
        ∀ reservation ∈ reservations, ¬TouchesPage reservation.base reservation.byteCount page) ∨
      (reservations.foldl markReservation memory).getPageState page = .unavailable)
  | [], memory, _ => ⟨rfl, fun _ => Or.inl ⟨rfl, nofun⟩⟩
  | reservation :: rest, memory, hv => by
    obtain ⟨heq, hstate⟩ := @foldl_markReservation rest (markReservation memory reservation) fun other ho =>
      hv other (List.mem_cons_of_mem _ ho)
    rw [List.foldl_cons]
    refine ⟨by rw [heq, markReservation_eq], fun hp => ?_⟩
    obtain ⟨hown, htouch⟩ := @markReservation_states memory page reservation (hv _ List.mem_cons_self) hp
    rcases hstate (by rw [markReservation_eq]; exact hp) with ⟨hsame, hrest⟩ | hx
    · rcases hown with hown | hown
      · by_cases ht : TouchesPage reservation.base reservation.byteCount page
        · exact Or.inr (hsame.trans (htouch ht))
        · refine Or.inl ⟨hsame.trans hown, fun other ho => ?_⟩
          rcases List.mem_cons.mp ho with rfl | ho
          · exact ht
          · exact hrest other ho
      · exact Or.inr (hsame.trans hown)
    · exact Or.inr hx

theorem maximumUsableEnd_le : ∀ {regions : List PhysicalRegion} {maximum result : Nat}, maximumUsableEnd regions maximum = .ok result →
    maximum ≤ physicalAddressLimit → result ≤ physicalAddressLimit
  | [], maximum, result, h, hm => by
    cases h
    exact hm
  | region :: rest, maximum, result, h, hm => by
    unfold maximumUsableEnd at h
    split at h
    · cases h
    · split at h
      · cases h
      · obtain ⟨hregion, h⟩ := of_check h
        obtain ⟨-, h⟩ := of_check h
        obtain ⟨-, h⟩ := of_check h
        exact maximumUsableEnd_le h (by split <;> omega)

theorem maximumUsableEnd_eq_ok : ∀ {regions : List PhysicalRegion} {maximum result : Nat},
    maximumUsableEnd regions maximum = .ok result → (maximum = 0 ∨ pageSize ≤ maximum) →
    (result = 0 ∨ pageSize ≤ result) ∧ ∀ region ∈ regions, region.base % pageSize = 0 ∧
      region.base + region.pageCount * pageSize ≤ physicalAddressLimit
  | [], maximum, result, h, hm => by
    cases h
    exact ⟨hm, nofun⟩
  | region :: rest, maximum, result, h, hm => by
    unfold maximumUsableEnd at h
    split at h
    · cases h
    · rename_i regionBytes hbytes
      split at h
      · cases h
      · rename_i regionEnd hend
        obtain ⟨hregion, h⟩ := of_check h
        obtain ⟨-, h⟩ := of_check h
        obtain ⟨-, h⟩ := of_check h
        simp only [not_or, not_not] at hregion
        have hsum : regionEnd = region.base + region.pageCount * pageSize := by
          rw [add?_eq_some hend, multiply?_eq_some hbytes]
        have hsize : pageSize ≤ regionEnd := by
          have := Nat.mul_le_mul_right pageSize (Nat.one_le_iff_ne_zero.mpr hregion.2.1)
          omega
        obtain ⟨hresult, hrest⟩ := maximumUsableEnd_eq_ok h (by split <;> omega)
        refine ⟨hresult, fun other ho => ?_⟩
        rcases List.mem_cons.mp ho with rfl | ho
        · exact ⟨hregion.1, by omega⟩
        · exact hrest other ho

theorem metadataFrom_eq_some {byteCount regionEnd base : Nat} : ∀ {fuel candidate : Nat}, candidate % pageSize = 0 →
    metadataFrom reservations byteCount regionEnd fuel candidate = some base →
    base % pageSize = 0 ∧ base + byteCount ≤ regionEnd
  | 0, _, _, h => by cases h
  | fuel + 1, candidate, hc, h => by
    rw [metadataFrom] at h
    split at h
    · cases h
    · rename_i hroom
      split at h
      · cases h
        exact ⟨hc, by omega⟩
      · rename_i next hnext
        split at h
        · cases h
        · refine metadataFrom_eq_some ?_ h
          unfold candidateOverlapsReservation at hnext
          obtain ⟨reservation, -, rfl⟩ := Option.map_eq_some_iff.mp hnext
          unfold pageCeil
          exact Nat.mul_mod_left _ _

theorem findMetadataSpace_eq_some {byteCount base : Nat} : ∀ {regions : List PhysicalRegion},
    (∀ region ∈ regions, region.base % pageSize = 0 ∧ region.base + region.pageCount * pageSize ≤ physicalAddressLimit) →
    findMetadataSpace reservations byteCount regions = some base →
    base % pageSize = 0 ∧ base + byteCount ≤ physicalAddressLimit
  | [], _, h => by cases h
  | region :: rest, hr, h => by
    have hrest := fun other ho => hr other (List.mem_cons_of_mem _ ho)
    rw [findMetadataSpace] at h
    split at h
    · exact findMetadataSpace_eq_some hrest h
    · split at h
      · exact findMetadataSpace_eq_some hrest h
      · rename_i regionEnd hend
        have hsum : regionEnd = region.base + region.pageCount * pageSize := by
          obtain ⟨bytes, hbytes, hadd⟩ := Option.bind_eq_some_iff.mp hend
          rw [add?_eq_some hadd, multiply?_eq_some hbytes]
        split at h
        · rename_i candidate hcandidate
          cases h
          obtain ⟨hbase, hlimit⟩ := hr region List.mem_cons_self
          obtain ⟨haligned, hbound⟩ := metadataFrom_eq_some hbase hcandidate
          exact ⟨haligned, by omega⟩
        · exact findMetadataSpace_eq_some hrest h

/-- Neither page 0 nor one that the metadata or a reservation touches. -/
structure Clear (m : PhysicalMemory) (reservations : List PhysicalReservation) (page : Nat) : Prop where
  first : page ≠ 0
  metadata : ¬TouchesPage m.metadataPhysicalBase (m.metadataPageCount * pageSize) page
  reservations : ∀ reservation ∈ reservations, ¬TouchesPage reservation.base reservation.byteCount page

/-- The allocator after its initialization. -/
structure Laid (regions : List PhysicalRegion) (reservations : List PhysicalReservation) (m : PhysicalMemory) : Prop where
  initialized : m.initialized = true
  hint : m.searchHint = 1
  managed : 1 ≤ m.managedPageCount
  small : m.managedPageCount ≤ 2 ^ 40
  free : m.freePageCount = m.countOf .free
  allocated : m.allocatedPageCount = 0
  states : ∀ page, page < m.managedPageCount → m.getPageState page = .unavailable ∨ m.Clear reservations page ∧
    ∃ region ∈ regions, region.Holds page ∧ (m.getPageState page = .free ∧ region.kind = some .usable ∨
      m.getPageState page = .reclaimable ∧ region.kind = some .reclaimable)

theorem touchesPage_iff {base pages : Nat} (hb : base % pageSize = 0) :
    TouchesPage base (pages * pageSize) page ↔ base / pageSize ≤ page ∧ page < base / pageSize + pages := by
  unfold TouchesPage pageSize at *
  omega

theorem markMetadata_states {base pages : Nat} (hb : base % pageSize = 0) (hl : base + pages * pageSize ≤ physicalAddressLimit)
    (hp : page < memory.managedPageCount) :
    let last := (memory.markRange 0 1 .unavailable).markRange (base / pageSize) pages .unavailable
    last.getPageState page = .unavailable ∨
      last.getPageState page = memory.getPageState page ∧ page ≠ 0 ∧ ¬TouchesPage base (pages * pageSize) page := by
  have hmanaged : (memory.markRange 0 1 .unavailable).managedPageCount = memory.managedPageCount := by rw [markRange_eq]
  have hwide : base / pageSize + pages < 2 ^ 64 := by
    unfold pageSize physicalAddressLimit at *
    omega
  intro last
  show (markRange _ _ _ _).getPageState page = _ ∨ (markRange _ _ _ _).getPageState page = _ ∧ _
  rw [getPageState_markRange hwide (by rwa [hmanaged]), touchesPage_iff hb]
  split
  · exact Or.inl rfl
  · rename_i hout
    rw [getPageState_markRange (by omega) hp]
    split
    · exact Or.inl rfl
    · exact Or.inr ⟨rfl, by omega, hout⟩

theorem only_trans (hm : m = { memory with pageStates := m.pageStates }) (ht : t = { m with pageStates := t.pageStates }) :
    t = { memory with pageStates := t.pageStates } := by
  rw [ht, hm]

theorem initialize_spec :
    wp (physicalMemoryInitialize regions reservations) (fun _ t => Laid regions reservations t) (fun _ _ => True) m := by
  unfold physicalMemoryInitialize
  simp only [wp_bind, wp_get, wp_failIf, wp_ofExcept]
  refine ⟨fun _ => trivial, fun _ => ⟨fun _ => trivial, fun _ => ⟨fun maximum hmaximum => ⟨fun _ => trivial, fun hvalid =>
    ⟨fun _ => trivial, fun hpositive => ?_⟩⟩, fun _ _ => trivial⟩⟩⟩
  obtain ⟨hmax, haligned⟩ := maximumUsableEnd_eq_ok hmaximum (Or.inl rfl)
  have htop := maximumUsableEnd_le hmaximum (Nat.zero_le _)
  cases hfind : findMetadataSpace reservations
      (((maximum / pageSize + 3) / 4 + (pageSize - 1)) / pageSize * pageSize) regions with
  | none => simp only [wp_modify, wp_fail]
  | some base =>
    simp only [wp_bind, wp_modify]
    obtain ⟨hbase, hlimit⟩ := findMetadataSpace_eq_some haligned hfind
    generalize ((maximum / pageSize + 3) / 4 + (pageSize - 1)) / pageSize = pages at *
    generalize hstart : ({ m with managedPageCount := maximum / pageSize, metadataPageCount := pages, metadataPhysicalBase := base, pageStates := fun _ => 0 } : PhysicalMemory) = start
    have hvalid' : ∀ reservation ∈ reservations, reservationIsValid reservation = true := by
      intro reservation hr
      by_contra hx
      exact hvalid ⟨reservation, hr, Bool.eq_false_of_not_eq_true hx⟩
    have hregions := fun page => @foldl_markRegion page regions start
    generalize regions.foldl markRegion start = painted at *
    have hreserved := fun page => @foldl_markReservation page reservations painted hvalid'
    generalize reservations.foldl markReservation painted = reserved at *
    have hsame := only_trans (hregions 0).1 (hreserved 0).1
    have hlast := only_trans hsame (only_trans (@markRange_eq reserved .unavailable 0 1)
      (@markRange_eq (reserved.markRange 0 1 .unavailable) .unavailable (base / pageSize) pages))
    have hmanaged : reserved.managedPageCount = start.managedPageCount := by rw [hsame]
    have hmetadata := fun page hp => @markMetadata_states reserved page base pages hbase hlimit hp
    generalize (reserved.markRange 0 1 .unavailable).markRange (base / pageSize) pages .unavailable = last at *
    have hcount : last.managedPageCount = maximum / pageSize := by rw [hlast, ← hstart]
    refine ⟨rfl, rfl, ?_, ?_, rfl, rfl, fun page hp => ?_⟩
    · show 1 ≤ last.managedPageCount
      unfold pageSize at *
      omega
    · show last.managedPageCount ≤ _
      unfold physicalAddressLimit pageSize at *
      omega
    · replace hp : page < reserved.managedPageCount := by
        have : last.managedPageCount = reserved.managedPageCount := by rw [hlast, hmanaged]
        rw [← this]
        exact hp
      rcases hmetadata page hp with hx | ⟨hx, hfirst, houtside⟩
      · exact Or.inl hx
      · have hpainted : page < painted.managedPageCount := by
          rw [(hregions 0).1, ← hmanaged]
          exact hp
        rcases (hreserved page).2 hpainted with ⟨hfree, hclear⟩ | hgone
        · rcases (hregions page).2 with hzero | ⟨region, hr, hholds, hkind⟩
          · have hstates : start.getPageState page = .unavailable := by
              rw [← hstart]
              show PageState.ofBits (Packed.field (fun _ => 0#8) page) = _
              rw [Packed.field_zero]
              rfl
            exact Or.inl (hx.trans (hfree.trans (hzero.trans hstates)))
          · refine Or.inr ⟨⟨hfirst, ?_, hclear⟩, region, hr, hholds, ?_⟩
            · show ¬TouchesPage last.metadataPhysicalBase (last.metadataPageCount * pageSize) page
              rw [hlast, ← hstart]
              exact houtside
            · rw [← hfree, ← hx] at hkind
              exact hkind
        · exact Or.inl (hx.trans hgone)

end PhysicalMemory
end InferenceOS
