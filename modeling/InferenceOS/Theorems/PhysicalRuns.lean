import InferenceOS.Theorems.PhysicalLayout

/-! Every run of the allocator of physical pages. A run starts with a memory map that the allocator accepts; the
    pages that are out and the pages that were reclaimed go along as ghost sets. -/

namespace InferenceOS
open Program
variable {pageCount : Nat}

namespace PhysicalMemory
variable {memory m t : PhysicalMemory} {first count page : Nat} {state old new : PageState}
variable {address : Nat}

/-- The counters are right and the hint is a managed page. -/
structure Sound (m : PhysicalMemory) : Prop where
  initialized : m.initialized = true
  hint : 1 ≤ m.searchHint ∧ m.searchHint ≤ m.managedPageCount
  free : m.freePageCount = m.countOf .free
  allocated : m.allocatedPageCount = m.countOf .allocated
  first : m.getPageState 0 = .unavailable

/-- From `m` to `t` the pages of a range went from one state to another. -/
structure Moves (m t : PhysicalMemory) (first count : Nat) (old new : PageState) : Prop where
  managed : t.managedPageCount = m.managedPageCount
  metadata : t.metadataPhysicalBase = m.metadataPhysicalBase ∧ t.metadataPageCount = m.metadataPageCount
  inside : first + count ≤ m.managedPageCount
  before : ∀ i, first ≤ i → i < first + count → m.getPageState i = old
  states : ∀ i, t.getPageState i = if first ≤ i ∧ i < first + count then new else m.getPageState i

structure Stays (m t : PhysicalMemory) : Prop where
  memory : t = { m with searchHint := t.searchHint }
  hint : t.searchHint = m.searchHint ∨ t.searchHint = 1

theorem Stays.refl : Stays m m := ⟨rfl, Or.inl rfl⟩

theorem Stays.getPageState (h : Stays m t) : t.getPageState page = m.getPageState page := by
  rw [h.memory]
  rfl

theorem Stays.countOf (h : Stays m t) : t.countOf state = m.countOf state := by
  rw [h.memory]
  rfl

theorem Stays.sound (h : Stays m t) (hs : m.Sound) : t.Sound where
  initialized := by
    rw [h.memory]
    exact hs.initialized
  hint := by
    have hmanaged : t.managedPageCount = m.managedPageCount := by rw [h.memory]
    have := hs.hint
    rcases h.hint with hx | hx <;> omega
  free := by
    rw [h.countOf, ← hs.free, h.memory]
  allocated := by
    rw [h.countOf, ← hs.allocated, h.memory]
  first := by rw [h.getPageState, hs.first]

theorem moves_setPages (hn : first + count ≤ m.managedPageCount)
    (h : ∀ i, first ≤ i → i < first + count → m.getPageState i = old) {free allocated hint : Nat} :
    Moves m { setPages new first count m with freePageCount := free, allocatedPageCount := allocated, searchHint := hint }
      first count old new where
  managed := by rw [setPages_eq]
  metadata := by
    rw [setPages_eq]
    exact ⟨rfl, rfl⟩
  inside := hn
  before := h
  states i := getPageState_setPages

theorem Sound.first_pos (hs : m.Sound) (hc : 0 < count)
    (h : ∀ i, first ≤ i → i < first + count → m.getPageState i = state) (hne : state ≠ .unavailable) : 1 ≤ first := by
  by_contra hx
  have hz := h 0 (by omega) (by omega)
  rw [hs.first] at hz
  exact hne hz.symm

theorem Moves.sound (h : Moves m t first count old new) (hs : m.Sound) (hc : 0 < count) (ho : old ≠ .unavailable)
    (hinit : t.initialized = true) (hhint : 1 ≤ t.searchHint ∧ t.searchHint ≤ t.managedPageCount)
    (hfree : t.freePageCount = t.countOf .free) (hallocated : t.allocatedPageCount = t.countOf .allocated) : t.Sound :=
  ⟨hinit, hhint, hfree, hallocated, by
    have := hs.first_pos hc h.before ho
    rw [h.states, if_neg (by omega), hs.first]⟩

theorem Fits.count_le {alignment low : Nat} (h : m.Fits count alignment low m.managedPageCount page) :
    count ≤ m.countOf .free := by
  have := (@countOf_setPages m page count .free .allocated nofun h.high h.free).1
  omega

theorem Sound.allocate (hs : m.Sound) {alignmentPages : Nat} : wp (physicalAllocatePages pageCount alignmentPages)
      (fun address t => ∃ page, address = page * pageSize ∧ 0 < pageCount ∧
        m.Fits pageCount alignmentPages 1 m.managedPageCount page ∧ Moves m t page pageCount .free .allocated ∧ t.Sound)
      (fun e t => Stays m t ∧ (e = .noMemory ∧ (m.freePageCount < pageCount ∨ m.search pageCount alignmentPages = none) ∨
        e = .invalidArgument ∧ (pageCount = 0 ∨ alignmentPages = 0 ∨ alignmentPages &&& (alignmentPages - 1) ≠ 0))) m := by
  unfold physicalAllocatePages
  simp only [wp_bind, wp_get, wp_failIf]
  refine ⟨fun hbad => ⟨Stays.refl, Or.inr ⟨trivial, ?_⟩⟩, fun hargs => ⟨fun hfew => ⟨Stays.refl, Or.inl ⟨trivial, Or.inl hfew⟩⟩,
    fun hmany => ?_⟩⟩
  · rw [hs.initialized] at hbad
    exact hbad.resolve_left (by decide)
  · simp only [not_or] at hargs
    cases hsearch : m.search pageCount alignmentPages with
    | none =>
      simp only [wp_bind, wp_modify, wp_fail]
      exact ⟨⟨rfl, Or.inr rfl⟩, Or.inl ⟨trivial, Or.inr trivial⟩⟩
    | some page =>
      simp only [wp_bind, wp_modify, wp_pure]
      have hfits := search_eq_some (Nat.pos_of_ne_zero hargs.2.2.1) hs.hint.1 hs.hint.2 hsearch
      have hmoves := fun free allocated hint =>
        @moves_setPages m page pageCount .free .allocated hfits.high hfits.free free allocated hint
      obtain ⟨hfree, hallocated, -⟩ := @countOf_setPages m page pageCount .free .allocated (fun hx => by cases hx) hfits.high hfits.free
      refine ⟨page, rfl, Nat.pos_of_ne_zero hargs.2.1, hfits, hmoves _ _ _, (hmoves _ _ _).sound hs
        (Nat.pos_of_ne_zero hargs.2.1) (fun hx => by cases hx) ?_ ?_ ?_ ?_⟩
      · rw [setPages_eq]
        exact hs.initialized
      · have hmanaged : (setPages .allocated page pageCount m).managedPageCount = m.managedPageCount := by rw [setPages_eq]
        have := hs.hint
        have := hfits.low
        dsimp only
        rw [hmanaged]
        split <;> omega
      · show m.freePageCount - pageCount = (setPages .allocated page pageCount m).countOf .free
        have := hs.free
        omega
      · show m.allocatedPageCount + pageCount = (setPages .allocated page pageCount m).countOf .allocated
        rw [hallocated, hs.allocated]

theorem releasePages_spec (expected : PageState) : wp (releasePages expected address pageCount)
      (fun _ t => 0 < pageCount ∧ address % pageSize = 0 ∧ Moves m t (address / pageSize) pageCount expected .free ∧
        t = { setPages .free (address / pageSize) pageCount m with
          freePageCount := m.freePageCount + pageCount, searchHint := t.searchHint } ∧
        (t.searchHint = address / pageSize ∨ t.searchHint = m.searchHint) ∧ t.searchHint ≤ m.searchHint)
      (fun _ t => t = m) m := by
  unfold releasePages
  simp only [wp_bind, wp_get, wp_failIf, wp_modify]
  refine ⟨fun _ => trivial, fun hargs => ⟨fun _ => trivial, fun hstates => ?_⟩⟩
  have hbefore : ∀ i, address / pageSize ≤ i → i < address / pageSize + pageCount → m.getPageState i = expected := by
    intro i h₁ h₂
    by_contra hne
    exact hstates ⟨i - address / pageSize, by omega, by rwa [Nat.add_sub_cancel' h₁]⟩
  refine ⟨by omega, by omega, moves_setPages (by omega) hbefore, trivial, ?_, ?_⟩
  · split
    · exact Or.inl rfl
    · exact Or.inr rfl
  · split <;> omega

theorem Sound.freePages (hs : m.Sound) : wp (physicalFreePages address pageCount)
      (fun _ t => 0 < pageCount ∧ Moves m t (address / pageSize) pageCount .allocated .free ∧ t.Sound)
      (fun _ t => t = m) m := by
  unfold physicalFreePages
  rw [wp_bind]
  refine wp_mono (releasePages_spec .allocated) (fun _ u ⟨hc, _, hmoves, hu, hhint, hle⟩ => ?_) fun _ _ h => h
  rw [wp_modify]
  obtain ⟨hallocated, hfree, -⟩ := @countOf_setPages m _ pageCount .allocated .free nofun hmoves.inside hmoves.before
  have hmoves' : Moves m { u with allocatedPageCount := u.allocatedPageCount - pageCount } (address / pageSize) pageCount
      .allocated .free := ⟨hmoves.managed, hmoves.metadata, hmoves.inside, hmoves.before, hmoves.states⟩
  have hpos := hs.first_pos hc hmoves.before nofun
  refine ⟨hc, hmoves', hmoves'.sound hs hc nofun ?_ ?_ ?_ ?_⟩
  · rw [hu, setPages_eq]
    exact hs.initialized
  · have := hs.hint
    have := hmoves.managed
    dsimp only
    rcases hhint with hx | hx <;> omega
  · have hcount : u.countOf .free = (setPages .free (address / pageSize) pageCount m).countOf .free := by
      rw [hu]
      rfl
    show u.freePageCount = u.countOf .free
    rw [hcount, hfree, ← hs.free, hu]
  · have hcount : u.countOf .allocated = (setPages .free (address / pageSize) pageCount m).countOf .allocated := by
      rw [hu]
      rfl
    show u.allocatedPageCount - pageCount = u.countOf .allocated
    have hsame : u.allocatedPageCount = m.allocatedPageCount := by rw [hu, setPages_eq]
    have := hs.allocated
    omega

theorem Sound.reclaim (hs : m.Sound) : wp (physicalReclaimPages address pageCount)
      (fun _ t => 0 < pageCount ∧ Moves m t (address / pageSize) pageCount .reclaimable .free ∧ t.Sound)
      (fun _ t => t = m) m := by
  refine wp_mono (releasePages_spec .reclaimable) (fun _ u ⟨hc, _, hmoves, hu, hhint, hle⟩ => ?_) fun _ _ h => h
  obtain ⟨-, hfree, hother⟩ := @countOf_setPages m _ pageCount .reclaimable .free nofun hmoves.inside hmoves.before
  have hpos := hs.first_pos hc hmoves.before nofun
  refine ⟨hc, hmoves, hmoves.sound hs hc nofun ?_ ?_ ?_ ?_⟩
  · rw [hu, setPages_eq]
    exact hs.initialized
  · have := hs.hint
    have := hmoves.managed
    rcases hhint with hx | hx <;> omega
  · have hcount : u.countOf .free = (setPages .free (address / pageSize) pageCount m).countOf .free := by
      rw [hu]
      rfl
    rw [hcount, hfree, ← hs.free, hu]
  · have hcount : u.countOf .allocated = (setPages .free (address / pageSize) pageCount m).countOf .allocated := by
      rw [hu]
      rfl
    rw [hcount, hother .allocated nofun nofun, ← hs.allocated, hu, setPages_eq]

end PhysicalMemory
open PhysicalMemory

/-- A call of the allocator with its arguments. -/
inductive PhysicalCall where
  | allocate (pageCount alignmentPages : Nat)
  | free (physicalAddress pageCount : Nat)
  | reclaim (physicalAddress pageCount : Nat)
  deriving DecidableEq, Repr

/-- A page is one of `count` pages from an address on. -/
def InPages (physicalAddress count page : Nat) : Prop :=
  physicalAddress / pageSize ≤ page ∧ page < physicalAddress / pageSize + count

namespace PhysicalCall

def run : PhysicalCall → Program IosError PhysicalMemory (Option Nat)
  | .allocate pageCount alignmentPages => some <$> physicalAllocatePages pageCount alignmentPages
  | .free physicalAddress pageCount => (fun _ => none) <$> physicalFreePages physicalAddress pageCount
  | .reclaim physicalAddress pageCount => (fun _ => none) <$> physicalReclaimPages physicalAddress pageCount

/-- The pages that are out after the call returned `v`. -/
def live (pages : Nat → Prop) (v : Option Nat) : PhysicalCall → Nat → Prop
  | .allocate pageCount _ => fun page => pages page ∨ ∃ address ∈ v, InPages address pageCount page
  | .free physicalAddress pageCount => fun page => pages page ∧ ¬InPages physicalAddress pageCount page
  | .reclaim _ _ => pages

def reclaimed (pages : Nat → Prop) : PhysicalCall → Nat → Prop
  | .reclaim physicalAddress pageCount => fun page => pages page ∨ InPages physicalAddress pageCount page
  | _ => pages

end PhysicalCall
open PhysicalCall

/-- The states that runs from an accepted memory map reach, with the pages that are out and the reclaimed ones. -/
inductive PhysicalRun (regions : List PhysicalRegion) (reservations : List PhysicalReservation) :
    PhysicalMemory → (Nat → Prop) → (Nat → Prop) → Prop where
  | initialized {m t : PhysicalMemory} : physicalMemoryInitialize regions reservations m = (.ok (), t) →
    PhysicalRun regions reservations t (fun _ => False) (fun _ => False)
  | returned {m t : PhysicalMemory} {live reclaimed : Nat → Prop} {call : PhysicalCall} {v : Option Nat} :
    PhysicalRun regions reservations m live reclaimed → call.run m = (.ok v, t) →
    PhysicalRun regions reservations t (call.live live v) (call.reclaimed reclaimed)
  | failed {m t : PhysicalMemory} {live reclaimed : Nat → Prop} {call : PhysicalCall} {e : IosError} :
    PhysicalRun regions reservations m live reclaimed → call.run m = (.error e, t) →
    PhysicalRun regions reservations t live reclaimed

namespace PhysicalMemory
variable {m t : PhysicalMemory} {first count page : Nat} {old new : PageState} {regions : List PhysicalRegion}
  {reservations : List PhysicalReservation} {live live' reclaimed reclaimed' : Nat → Prop}

def Lawful (regions : List PhysicalRegion) (reservations : List PhysicalReservation) (reclaimed : Nat → Prop)
    (m : PhysicalMemory) (page : Nat) : Prop :=
  m.Clear reservations page ∧ ∃ region ∈ regions, region.Holds page ∧
    (region.kind = some .usable ∨ region.kind = some .reclaimable ∧ (m.getPageState page = .reclaimable ∨ reclaimed page))

structure Kept (regions : List PhysicalRegion) (reservations : List PhysicalReservation) (m : PhysicalMemory)
    (live reclaimed : Nat → Prop) : Prop where
  sound : m.Sound
  live : ∀ page, live page ↔ page < m.managedPageCount ∧ m.getPageState page = .allocated
  lawful : ∀ page, page < m.managedPageCount → m.getPageState page ≠ .unavailable → Lawful regions reservations reclaimed m page

theorem Laid.kept (h : Laid regions reservations m) : Kept regions reservations m (fun _ => False) fun _ => False := by
  have hnone : ∀ page, page < m.managedPageCount → m.getPageState page ≠ .allocated := by
    intro page hp hx
    rcases h.states page hp with hs | ⟨-, _, -, -, ⟨hs, -⟩ | ⟨hs, -⟩⟩
    all_goals
      rw [hs] at hx
      cases hx
  refine ⟨⟨h.initialized, ?_, h.free, ?_, ?_⟩, fun page => ?_, fun page hp hs => ?_⟩
  · rw [h.hint]
    exact ⟨le_rfl, h.managed⟩
  · rw [h.allocated, countOf, count_outside (q := fun _ => False) fun page hp => iff_false_intro (hnone page hp)]
    exact (Nat.count_false _).symm
  · exact (h.states 0 h.managed).resolve_right fun ⟨hx, _⟩ => hx.first rfl
  · exact ⟨False.elim, fun ⟨hp, hs⟩ => hnone page hp hs⟩
  · obtain ⟨hclear, region, hr, hholds, hkind⟩ := (h.states page hp).resolve_left hs
    exact ⟨hclear, region, hr, hholds, hkind.imp (fun hx => hx.2) fun hx => ⟨hx.2, Or.inl hx.1⟩⟩

theorem Kept.stays (h : Kept regions reservations m live reclaimed) (hs : Stays m t) :
    Kept regions reservations t live reclaimed := by
  have hmanaged : t.managedPageCount = m.managedPageCount := by rw [hs.memory]
  refine ⟨hs.sound h.sound, fun page => ?_, fun page hp hstate => ?_⟩
  · rw [hmanaged, hs.getPageState]
    exact h.live page
  · rw [hmanaged] at hp
    rw [hs.getPageState] at hstate
    obtain ⟨⟨hfirst, hmetadata, hreserved⟩, hregion⟩ := h.lawful page hp hstate
    refine ⟨⟨hfirst, ?_, hreserved⟩, ?_⟩
    · rw [hs.memory]
      exact hmetadata
    · rw [hs.getPageState]
      exact hregion

theorem Kept.moves (h : Kept regions reservations m live reclaimed) (hm : Moves m t first count old new) (hs : t.Sound)
    (ho : old ≠ .unavailable)
    (hlive : ∀ page, live' page ↔ page < t.managedPageCount ∧ t.getPageState page = .allocated)
    (hmore : ∀ page, reclaimed page → reclaimed' page)
    (hreclaimed : old = .reclaimable → ∀ page, first ≤ page → page < first + count → reclaimed' page) :
    Kept regions reservations t live' reclaimed' := by
  refine ⟨hs, hlive, fun page hp hstate => ?_⟩
  rw [hm.managed] at hp
  have hbefore : m.getPageState page ≠ .unavailable := by
    by_cases hin : first ≤ page ∧ page < first + count
    · rw [hm.before page hin.1 hin.2]
      exact ho
    · rwa [hm.states, if_neg hin] at hstate
  obtain ⟨⟨hfirst, hmetadata, hreserved⟩, region, hr, hholds, hkind⟩ := h.lawful page hp hbefore
  refine ⟨⟨hfirst, by rwa [hm.metadata.1, hm.metadata.2], hreserved⟩, region, hr, hholds, hkind.imp_right fun ⟨hk, hx⟩ => ⟨hk, ?_⟩⟩
  rcases hx with hx | hx
  · by_cases hin : first ≤ page ∧ page < first + count
    · rw [hm.before page hin.1 hin.2] at hx
      exact Or.inr (hreclaimed hx page hin.1 hin.2)
    · rw [hm.states, if_neg hin]
      exact Or.inl hx
  · exact Or.inr (hmore page hx)

theorem Kept.call (h : Kept regions reservations m live reclaimed) (call : PhysicalCall) :
    wp call.run (fun v t => Kept regions reservations t (call.live live v) (call.reclaimed reclaimed))
      (fun _ t => Stays m t) m := by
  cases call with
  | allocate pageCount alignmentPages =>
    simp only [run, wp_map]
    refine wp_mono h.sound.allocate (fun address t ⟨first, ha, hc, hfits, hmoves, hs⟩ => ?_) fun _ _ hx => hx.1
    have hrange : ∀ page, InPages address pageCount page ↔ first ≤ page ∧ page < first + pageCount := by
      intro page
      unfold InPages
      rw [ha, Nat.mul_div_cancel first (by decide)]
    refine h.moves hmoves hs nofun (fun page => ?_) (fun _ hx => hx) nofun
    rw [hmoves.managed, hmoves.states]
    show live page ∨ _ ↔ _
    simp only [Option.mem_def, Option.some.injEq, exists_eq_left', hrange]
    split
    · rename_i hin
      have := hmoves.inside
      exact ⟨fun _ => ⟨by omega, rfl⟩, fun _ => Or.inr hin⟩
    · rename_i hout
      rw [or_iff_left hout]
      exact h.live page
  | free physicalAddress pageCount =>
    simp only [run, wp_map]
    refine wp_mono h.sound.freePages (fun _ t ⟨hc, hmoves, hs⟩ => ?_) fun _ _ hx => hx ▸ Stays.refl
    refine h.moves hmoves hs nofun (fun page => ?_) (fun _ hx => hx) nofun
    rw [hmoves.managed, hmoves.states]
    show live page ∧ ¬(_ ∧ _) ↔ _
    split
    · rename_i hin
      exact ⟨fun hx => absurd hin hx.2, nofun⟩
    · rename_i hout
      rw [and_iff_left hout]
      exact h.live page
  | reclaim physicalAddress pageCount =>
    simp only [run, wp_map]
    refine wp_mono h.sound.reclaim (fun _ t ⟨hc, hmoves, hs⟩ => ?_) fun _ _ hx => hx ▸ Stays.refl
    refine h.moves hmoves hs nofun (fun page => ?_) (fun _ hx => Or.inl hx) fun _ page h₁ h₂ => Or.inr ⟨h₁, h₂⟩
    rw [hmoves.managed, hmoves.states]
    split
    · rename_i hin
      show live page ↔ _
      rw [h.live, hmoves.before page hin.1 hin.2]
      exact ⟨nofun, nofun⟩
    · exact h.live page

theorem kept_run (h : PhysicalRun regions reservations m live reclaimed) : Kept regions reservations m live reclaimed := by
  induction h with
  | initialized hr => exact (wp_ok initialize_spec hr).kept
  | @returned m t live reclaimed call v _ hr ih =>
    have hkept := wp_ok (ih.call call) hr
    exact hkept
  | @failed m t live reclaimed call e _ hr ih =>
    have hstays := wp_error (ih.call call) hr
    exact ih.stays hstays

/-- The counters are right, an allocation returns an aligned range of free pages that lie where they may and are out
    for no other, and a call that fails changes no page. -/
theorem physicalRun_sound (h : PhysicalRun regions reservations m live reclaimed) :
    m.freePageCount = m.countOf .free ∧ m.allocatedPageCount = m.countOf .allocated ∧
    (∀ pageCount alignment address t, physicalAllocatePages pageCount alignment m = (.ok address, t) →
      ∃ first, address = first * pageSize ∧ alignment ∣ first ∧ 1 ≤ first ∧ first + pageCount ≤ m.managedPageCount ∧
        ∀ page, first ≤ page → page < first + pageCount → m.getPageState page = .free ∧ ¬live page ∧
          m.Clear reservations page ∧ ∃ region ∈ regions, region.Holds page ∧
            (region.kind = some .usable ∨ region.kind = some .reclaimable ∧ reclaimed page)) ∧
    ∀ (call : PhysicalCall) e t, call.run m = (.error e, t) → (∀ page, t.getPageState page = m.getPageState page) ∧
      t.freePageCount = m.freePageCount ∧ t.allocatedPageCount = m.allocatedPageCount := by
  have hk := kept_run h
  refine ⟨hk.sound.free, hk.sound.allocated, fun pageCount alignment address t hr => ?_, fun call e t hr => ?_⟩
  · obtain ⟨first, ha, -, ⟨hlow, hhigh, hdvd, hfree⟩, -, -⟩ := wp_ok hk.sound.allocate hr
    refine ⟨first, ha, hdvd, hlow, hhigh, fun page h₁ h₂ => ?_⟩
    have hstate := hfree page h₁ h₂
    obtain ⟨hclear, region, hregion, hholds, hkind⟩ := hk.lawful page (by omega) (by rw [hstate]; nofun)
    refine ⟨hstate, fun hl => ?_, hclear, region, hregion, hholds, hkind.imp_right fun ⟨hx, hy⟩ => ⟨hx, hy.resolve_left ?_⟩⟩
    · rw [((hk.live page).mp hl).2] at hstate
      cases hstate
    · rw [hstate]
      nofun
  · have hs := wp_error (hk.call call) hr
    refine ⟨fun page => hs.getPageState, ?_, ?_⟩
    all_goals rw [hs.memory]

def fourPages : List PhysicalRegion := [⟨0, 4, some .usable⟩]

def fourLaid : PhysicalMemory := (physicalMemoryInitialize fourPages [] unset).2

theorem fourLaid_run : PhysicalRun fourPages [] fourLaid (fun _ => False) fun _ => False :=
  .initialized (run_eq (by decide +kernel))

theorem physicalRun_sound_four : fourLaid.countOf .free = 3 ∧
    ∃ first, 2 * pageSize = first * pageSize ∧ 2 ∣ first ∧ 1 ≤ first ∧ fourLaid.getPageState first = .free := by
  obtain ⟨hfree, -, hallocate, -⟩ := physicalRun_sound fourLaid_run
  obtain ⟨first, ha, hdvd, hlow, -, hpages⟩ := hallocate 1 2 (2 * pageSize) _ (run_eq (by decide +kernel))
  have hcount : fourLaid.freePageCount = 3 := by decide +kernel
  exact ⟨hfree.symm.trans hcount, first, ha, hdvd, hlow, (hpages first le_rfl (by omega)).1⟩

theorem allocate_noMemory (hs : m.Sound) {alignment : Nat} (hc : 0 < pageCount) (ha : 0 < alignment)
    (hpower : alignment &&& (alignment - 1) = 0) : (physicalAllocatePages pageCount alignment m).1 = .error .noMemory ↔
      m.freePageCount < pageCount ∨ m.search pageCount alignment = none := by
  have hargs : ¬(m.initialized = false ∨ pageCount = 0 ∨ alignment = 0 ∨ alignment &&& (alignment - 1) ≠ 0) := by
    rw [hs.initialized]
    rintro (hx | hx | hx | hx)
    · cases hx
    · omega
    · omega
    · exact hx hpower
  unfold physicalAllocatePages
  rw [bind_ok (show get m = _ from rfl), failIf_pass hargs]
  by_cases hfew : m.freePageCount < pageCount
  · rw [failIf_bind hfew]
    exact ⟨fun _ => Or.inl hfew, fun _ => rfl⟩
  · rw [failIf_pass hfew]
    cases m.search pageCount alignment with
    | none => exact ⟨fun _ => Or.inr rfl, fun _ => rfl⟩
    | some page => exact ⟨nofun, fun hx => absurd (hx.resolve_left hfew) nofun⟩

theorem two_pow_and_sub_one (k : Nat) : 2 ^ k &&& (2 ^ k - 1) = 0 := by
  rw [Nat.and_two_pow_sub_one_eq_mod, Nat.mod_self]

/-- An allocation misses the runs of free pages that cross the hint, and no others. -/
theorem noMemory_iff (h : PhysicalRun regions reservations m live reclaimed) {pageCount : Nat} (hc : 0 < pageCount) (k : Nat) :
    ((physicalAllocatePages pageCount (2 ^ k) m).1 = .error .noMemory →
        ¬∃ page, m.Fits pageCount (2 ^ k) 1 m.managedPageCount page) ↔
      ((∃ page, m.Fits pageCount (2 ^ k) 1 m.managedPageCount page) →
        ∃ page, m.Fits pageCount (2 ^ k) 1 m.managedPageCount page ∧
          ¬(page < m.searchHint ∧ m.searchHint < page + pageCount)) := by
  have hs := (kept_run h).sound
  have ha := Nat.two_pow_pos k
  rw [allocate_noMemory hs hc ha (two_pow_and_sub_one k), search_eq_none ha hc]
  constructor
  · intro hcomplete hsome
    by_contra hall
    refine hcomplete (Or.inr ⟨fun page hf => ?_, fun page hf => ?_⟩) hsome
    · have := hf.low
      have := hs.hint
      exact hall ⟨page, ⟨by omega, hf.high, hf.aligned, hf.free⟩, by omega⟩
    · have := hf.high
      have := hs.hint
      exact hall ⟨page, ⟨hf.low, by omega, hf.aligned, hf.free⟩, by omega⟩
  · rintro haside hnone hsome
    obtain ⟨page, hfits, hside⟩ := haside hsome
    rcases hnone with hfew | ⟨hupper, hlower⟩
    · have := hfits.count_le
      have := hs.free
      omega
    · by_cases hp : page < m.searchHint
      · exact hlower page ⟨hfits.low, by omega, hfits.aligned, hfits.free⟩
      · exact hupper page ⟨by omega, hfits.high, hfits.aligned, hfits.free⟩

def fourSplit : PhysicalMemory :=
  (run (.free (2 * pageSize) 1) (run (.allocate 1 2) fourLaid).2).2

theorem fourSplit_run : ∃ live reclaimed, PhysicalRun fourPages [] fourSplit live reclaimed :=
  have hallocated : run (.allocate 1 2) fourLaid = (.ok (some (2 * pageSize)), _) := run_eq (by decide +kernel)
  have hfreed : run (.free (2 * pageSize) 1) (run (.allocate 1 2) fourLaid).2 = (.ok none, fourSplit) :=
    run_eq (by decide +kernel)
  ⟨_, _, .returned (.returned fourLaid_run hallocated) hfreed⟩

theorem noMemory_iff_four : (∃ page, fourSplit.Fits 2 1 1 fourSplit.managedPageCount page ∧
    ¬(page < fourSplit.searchHint ∧ fourSplit.searchHint < page + 2)) := by
  obtain ⟨live, reclaimed, h⟩ := fourSplit_run
  refine (noMemory_iff h (show 0 < 2 by decide) 0).mp (fun hx => ?_) ⟨2, by decide, by decide +kernel, by decide, ?_⟩
  · exact absurd hx (by decide +kernel)
  · decide +kernel

/-- Pages 1 to 3 are free, and an allocation of three pages finds no memory. -/
theorem noMemory_crossing : ∃ live reclaimed, PhysicalRun fourPages [] fourSplit live reclaimed ∧
    (physicalAllocatePages 3 1 fourSplit).1 = .error .noMemory ∧ fourSplit.Fits 3 1 1 fourSplit.managedPageCount 1 := by
  obtain ⟨live, reclaimed, h⟩ := fourSplit_run
  refine ⟨live, reclaimed, h, by decide +kernel, by decide, by decide +kernel, by decide, ?_⟩
  decide +kernel

end PhysicalMemory
end InferenceOS
