import InferenceOS.Theorems.PageRanges

/-! Runs of the virtual memory: any number of address spaces over one allocator, and callers that hold pages of their own. -/

namespace InferenceOS
open Program PageTree PageEntry VirtualMemory Function

/-- The mappings of an address space: the physical page and the flags of each virtual page. -/
abbrev PageMap := Nat → Option (Nat × BitVec 32)

def PageMap.mapRange (map : PageMap) (address physicalAddress count : Nat) (flags : BitVec 32) : PageMap := fun page =>
  if address / pageSize ≤ page ∧ page < address / pageSize + count then
    some (physicalAddress / pageSize + (page - address / pageSize), flags)
  else map page

def PageMap.unmapRange (map : PageMap) (address count : Nat) : PageMap := fun page =>
  if address / pageSize ≤ page ∧ page < address / pageSize + count then none else map page

/-- The address spaces by the addresses of their roots, and the pages that callers hold. -/
structure AddressSpaces where
  map : Nat → Option PageMap
  held : Nat → Prop

/-- The calls of a run. The callers allocate and free pages for themselves. -/
inductive SpaceCall where
  | create (out : Bool)
  | destroy (rootAddress : Nat)
  | map (rootAddress address physicalAddress count : Nat) (flags : BitVec 32)
  | unmap (rootAddress address count : Nat)
  | activate (rootAddress : Nat)
  | activateKernel
  | physical (call : PhysicalCall)

namespace SpaceCall

/-- The call; a creation and an allocation return an address. -/
def run : SpaceCall → Program IosError VirtualMemory (Option Nat)
  | create out => (fun space => some space.rootAddress) <$> virtualAddressSpaceCreate out
  | destroy rootAddress => (fun _ => none) <$> virtualAddressSpaceDestroy ⟨rootAddress⟩
  | map rootAddress address physicalAddress count flags =>
    (fun _ => none) <$> virtualMapPages (some ⟨rootAddress⟩) address physicalAddress count flags
  | unmap rootAddress address count => (fun _ => none) <$> virtualUnmapPages (some ⟨rootAddress⟩) address count
  | activate rootAddress => (fun _ => none) <$> virtualAddressSpaceActivate ⟨rootAddress⟩
  | activateKernel => (fun _ => none) <$> virtualKernelAddressSpaceActivate
  | physical call => onPhysical call.run

/-- The address spaces after the call returned `v`. -/
def after (spaces : AddressSpaces) (v : Option Nat) : SpaceCall → AddressSpaces
  | create _ => { spaces with map := match v with
      | some rootAddress => update spaces.map rootAddress (some fun _ => none)
      | none => spaces.map }
  | destroy rootAddress => { spaces with map := update spaces.map rootAddress none }
  | map rootAddress address physicalAddress count flags =>
    ⟨update spaces.map rootAddress ((spaces.map rootAddress).map fun map => map.mapRange address physicalAddress count flags),
      fun page => spaces.held page ∧ ¬(flags &&& vmOwned ≠ 0 ∧ InPages physicalAddress count page)⟩
  | unmap rootAddress address count => { spaces with
      map := update spaces.map rootAddress ((spaces.map rootAddress).map fun map => map.unmapRange address count) }
  | activate _ | activateKernel => spaces
  | physical call => { spaces with held := call.live spaces.held v }

/-- The pages are user pages, or the address space is not the one in use. -/
def UserOnly (memory : VirtualMemory) (rootAddress address count : Nat) : Prop :=
  virtualUserRangeIsValid address (count * pageSize) = true ∨ rootAddress ≠ memory.pagingRoot

/-- What the callers keep to: they use address spaces that are there, for user pages, and they map and free pages that they hold. -/
def Allowed (memory : VirtualMemory) (spaces : AddressSpaces) : SpaceCall → Prop
  | create _ | activateKernel => True
  | destroy rootAddress | activate rootAddress => (spaces.map rootAddress).isSome
  | map rootAddress address physicalAddress count flags => (spaces.map rootAddress).isSome ∧ UserOnly memory rootAddress address count ∧
      (flags &&& vmOwned ≠ 0 → ∀ page, InPages physicalAddress count page → spaces.held page)
  | unmap rootAddress address count => (spaces.map rootAddress).isSome ∧ UserOnly memory rootAddress address count
  | physical (.free physicalAddress count) => ∀ page, InPages physicalAddress count page → spaces.held page
  | physical _ => True

end SpaceCall

/-- The states that runs reach from an accepted memory map. The processor uses page tables that the allocator does not give out. -/
inductive SpaceRun (regions : List PhysicalRegion) (reservations : List PhysicalReservation) : VirtualMemory → AddressSpaces → Prop
  | initialized {m : PhysicalMemory} {memory memory' : VirtualMemory} {executeDisable : Bool} {r : Except IosError Unit} :
    PhysicalMemory.physicalMemoryInitialize regions reservations m = (.ok (), memory.physical) → memory.pagingRoot % pageSize = 0 →
    memory.pagingRoot ≠ 0 → memory.physical.Closed (memory.pagingRoot / pageSize) → memory.halted = false →
    virtualMemoryInitialize executeDisable memory = (r, memory') → SpaceRun regions reservations memory' ⟨fun _ => none, fun _ => False⟩
  | returned {memory memory' : VirtualMemory} {spaces : AddressSpaces} {call : SpaceCall} {v : Option Nat} :
    SpaceRun regions reservations memory spaces → call.Allowed memory spaces → call.run memory = (.ok v, memory') →
    SpaceRun regions reservations memory' (call.after spaces v)
  | failed {memory memory' : VirtualMemory} {spaces : AddressSpaces} {call : SpaceCall} {e : IosError} :
    SpaceRun regions reservations memory spaces → call.Allowed memory spaces → call.run memory = (.error e, memory') →
    SpaceRun regions reservations memory' spaces

def PageTree.Foot (t : PageTree) (page : Nat) : Prop := t.Has page ∨ t.Owns page

structure TreeAt (memory : VirtualMemory) (root : Nat) (t : PageTree) : Prop where
  top : t.node [] = some root
  user : ∀ {i p}, (t.node (i :: p)).isSome → IsUser i
  owned : ∀ {page}, t.Owns page → ¬t.Has page
  single : ∀ {p q mapping mapping'}, t.value p = some mapping → t.value q = some mapping' → mapping.Owned → mapping'.Owned →
    mapping.page = mapping'.page → p = q
  words : ∀ {p i a}, t.node p = some a → (p = [] → IsUser i) → memory.words (a * pageSize) i = t.word (p ++ [i])
  kernel : ∀ {i}, ¬IsUser i → memory.words (root * pageSize) i = memory.words memory.kernelRootAddress i
  pruned : t.Pruned

structure SpaceTrees (memory : VirtualMemory) (trees : Nat → Option PageTree) (held : Nat → Prop) : Prop where
  sound : memory.physical.Sound
  small : memory.physical.managedPageCount ≤ 2 ^ 40
  aligned : memory.kernelRootAddress % pageSize = 0
  nonzero : memory.kernelRootAddress ≠ 0
  closed : memory.physical.Closed (memory.kernelRootAddress / pageSize)
  halted : memory.halted = false
  out : ∀ page, memory.physical.Out page ↔ held page ∨ ∃ root t, trees root = some t ∧ t.Foot page
  held : ∀ {root t page}, trees root = some t → held page → ¬t.Foot page
  apart : ∀ {root root' t t' page}, trees root = some t → trees root' = some t' → t.Foot page → t'.Foot page → root = root'
  tree : ∀ {root t}, trees root = some t → TreeAt memory root t

def restOf (trees : Nat → Option PageTree) (held : Nat → Prop) (root page : Nat) : Prop :=
  held page ∨ ∃ other t, other ≠ root ∧ trees other = some t ∧ t.Foot page

section Trees
variable {memory m : VirtualMemory} {trees : Nat → Option PageTree} {held held' : Nat → Prop} {root page : Nat} {t u : PageTree}

theorem TreeAt.congr (h : TreeAt memory root t) (hwords : ∀ page, t.Has page → m.words (page * pageSize) = memory.words (page * pageSize))
    (hkernel : m.words m.kernelRootAddress = memory.words memory.kernelRootAddress) : TreeAt m root t where
  top := h.top
  user := h.user
  owned := h.owned
  single := h.single
  words := by
    intro p i a ha hi
    rw [hwords a ⟨p, ha⟩]
    exact h.words ha hi
  kernel := by
    intro i hi
    rw [hwords root ⟨[], h.top⟩, hkernel]
    exact h.kernel hi
  pruned := h.pruned

namespace SpaceTrees

theorem holds (h : SpaceTrees memory trees held) (ht : trees root = some t) : HoldsTables memory root t (restOf trees held root) memory where
  others := rfl
  physical := by
    refine h.sound.turns.congr fun page => (h.out page).trans ?_
    constructor
    · rintro (hx | ⟨other, u, hu, hx⟩)
      · exact Or.inr (Or.inr (Or.inl hx))
      · by_cases hroot : other = root
        · subst hroot
          cases ht.symm.trans hu
          exact hx.imp_right Or.inl
        · exact Or.inr (Or.inr (Or.inr ⟨other, u, hroot, hu, hx⟩))
    · rintro (hx | hx | hx | ⟨other, u, -, hu, hx⟩)
      · exact Or.inr ⟨root, t, ht, Or.inl hx⟩
      · exact Or.inr ⟨root, t, ht, Or.inr hx⟩
      · exact Or.inl hx
      · exact Or.inr ⟨other, u, hu, hx⟩
  small := h.small
  top := (h.tree ht).top
  user := (h.tree ht).user
  owned := (h.tree ht).owned
  apart := by
    intro page hr
    have hfoot : ¬t.Foot page := by
      rcases hr with hr | ⟨other, u, hne, hu, hx⟩
      · exact h.held ht hr
      · exact fun hy => hne (h.apart hu ht hx hy)
    exact ⟨fun hx => hfoot (Or.inl hx), fun hx => hfoot (Or.inr hx)⟩
  single := (h.tree ht).single
  words := (h.tree ht).words
  kernel := fun _ => rfl
  content := fun _ => rfl

theorem kernel_words (h : SpaceTrees memory trees held) (hsame : m.kernelRootAddress = memory.kernelRootAddress)
    (hwords : ∀ page, memory.physical.Closed page → m.words (page * pageSize) = memory.words (page * pageSize)) :
    m.words m.kernelRootAddress = memory.words memory.kernelRootAddress := by
  have hpage : memory.kernelRootAddress / pageSize * pageSize = memory.kernelRootAddress :=
    Nat.div_mul_cancel (Nat.dvd_of_mod_eq_zero h.aligned)
  have hkernel := hwords _ h.closed
  rw [hpage] at hkernel
  rw [hsame]
  exact hkernel

theorem of_update {u? : Option PageTree} {other : Nat} {v : PageTree} (hv : update trees root u? other = some v) :
    other = root ∧ u? = some v ∨ other ≠ root ∧ trees other = some v := by
  by_cases hroot : other = root
  · rw [hroot, update_self] at hv
    exact Or.inl ⟨hroot, hv⟩
  · rw [update_of_ne hroot] at hv
    exact Or.inr ⟨hroot, hv⟩

theorem replace (h : SpaceTrees memory trees held) (ht : trees root = some t)
    (hu : HoldsTables memory root u (restOf trees held' root) m) (hp : u.Pruned) (hheld : ∀ page, held' page → held page) :
    SpaceTrees m (update trees root (some u)) held' := by
  have hothers := hu.others
  have hkernel := h.kernel_words (m := m) (by rw [hothers]) fun page hx => hu.content (Or.inr hx)
  have hcases : ∀ other v, update trees root (some u) other = some v → other = root ∧ v = u ∨ other ≠ root ∧ trees other = some v :=
    fun other v hv => (of_update hv).imp_left fun hx => ⟨hx.1, (Option.some.inj hx.2).symm⟩
  have hfoot : ∀ other v page, other ≠ root → trees other = some v → v.Foot page → ¬u.Foot page := by
    intro other v page hroot hv hx hy
    have hapart := hu.apart (Or.inr ⟨other, v, hroot, hv, hx⟩)
    exact hy.elim hapart.1 hapart.2
  refine ⟨hu.physical.sound, ?_, ?_, ?_, ?_, ?_, fun page => ?_, fun {other v page} hv hx hy => ?_, fun {other other' v v' page} hv hv' hx hy => ?_,
    fun {other v} hv => ?_⟩
  · rw [hu.physical.managed]
    exact h.small
  · rw [hothers]
    exact h.aligned
  · rw [hothers]
    exact h.nonzero
  · rw [hu.physical.closed, hothers]
    exact h.closed
  · rw [hothers]
    exact h.halted
  · rw [hu.physical.out]
    constructor
    · rintro (hx | hx | hx | ⟨other, v, hroot, hv, hx⟩)
      · exact Or.inr ⟨root, u, update_self _ _ _, Or.inl hx⟩
      · exact Or.inr ⟨root, u, update_self _ _ _, Or.inr hx⟩
      · exact Or.inl hx
      · exact Or.inr ⟨other, v, (update_of_ne hroot _ _).trans hv, hx⟩
    · rintro (hx | ⟨other, v, hv, hx⟩)
      · exact Or.inr (Or.inr (Or.inl hx))
      · rcases hcases other v hv with ⟨-, rfl⟩ | ⟨hroot, hv⟩
        · exact hx.imp_right Or.inl
        · exact Or.inr (Or.inr (Or.inr ⟨other, v, hroot, hv, hx⟩))
  · rcases hcases other v hv with ⟨-, rfl⟩ | ⟨-, hv⟩
    · have hapart := hu.apart (Or.inl hx)
      exact hy.elim hapart.1 hapart.2
    · exact h.held hv (hheld page hx) hy
  · rcases hcases other v hv with ⟨hroot, hvu⟩ | ⟨hroot, hold⟩
    · rcases hcases other' v' hv' with ⟨hroot', -⟩ | ⟨hroot', hold'⟩
      · rw [hroot, hroot']
      · exact absurd (hvu ▸ hx) (hfoot other' v' page hroot' hold' hy)
    · rcases hcases other' v' hv' with ⟨-, hvu'⟩ | ⟨-, hold'⟩
      · exact absurd (hvu' ▸ hy) (hfoot other v page hroot hold hx)
      · exact h.apart hold hold' hx hy
  · rcases hcases other v hv with ⟨rfl, rfl⟩ | ⟨hroot, hv⟩
    · refine ⟨hu.top, hu.user, hu.owned, hu.single, hu.words, fun {i} hi => ?_, hp⟩
      rw [hu.kernel hi, hkernel]
      exact (h.tree ht).kernel hi
    · exact (h.tree hv).congr (fun page hx => hu.content (Or.inl (Or.inr (Or.inr ⟨other, v, hroot, hv, Or.inl hx⟩)))) hkernel

theorem add (h : SpaceTrees memory trees held) (hfresh : ¬memory.physical.Out root) (hu : HoldsTables m root (.single root) memory.physical.Out m)
    (hothers : m = { memory with physical := m.physical, words := m.words })
    (hturns : memory.physical.Turns m.physical fun page => page = root ∨ memory.physical.Out page)
    (hwords : ∀ address, address ≠ root * pageSize → m.words address = memory.words address)
    (hkernel : ∀ i, ¬IsUser i → m.words (root * pageSize) i = memory.words memory.kernelRootAddress i) :
    SpaceTrees m (update trees root (some (.single root))) held := by
  have hsame : m.kernelRootAddress = memory.kernelRootAddress := by rw [hothers]
  have hkernelWords := h.kernel_words hsame fun page hx => hwords _ fun hy => by
    rw [Nat.eq_of_mul_eq_mul_right (by decide) hy] at hx
    exact PhysicalMemory.not_closed_of_out ((hturns.out root).mpr (Or.inl rfl)) ((hturns.closed root).mpr hx)
  have hfoot : ∀ page, Foot (.single root) page ↔ page = root := by
    intro page
    constructor
    · rintro (⟨p, hp⟩ | ⟨p, mapping, hp, -⟩)
      · exact (RadixTree.node_single_eq_some.mp hp).2
      · cases hp
    · rintro rfl
      exact Or.inl ⟨[], RadixTree.node_single_eq_some.mpr ⟨rfl, rfl⟩⟩
  have hcases : ∀ other v, update trees root (some (.single root)) other = some v →
      other = root ∧ v = .single root ∨ other ≠ root ∧ trees other = some v :=
    fun other v hv => (of_update hv).imp_left fun hx => ⟨hx.1, (Option.some.inj hx.2).symm⟩
  have hold : ∀ {other v page}, trees other = some v → v.Foot page → page ≠ root := by
    rintro other v page hv hx rfl
    exact hfresh ((h.out _).mpr (Or.inr ⟨other, v, hv, hx⟩))
  have hnone : trees root = none := by
    cases hx : trees root with
    | none => rfl
    | some v => exact absurd rfl (hold hx (Or.inl ⟨[], (h.tree hx).top⟩))
  refine ⟨hturns.sound, ?_, ?_, ?_, ?_, ?_, fun page => ?_, fun {other v page} hv hx hy => ?_, fun {other other' v v' page} hv hv' hx hy => ?_,
    fun {other v} hv => ?_⟩
  · rw [hturns.managed]
    exact h.small
  · rw [hsame]
    exact h.aligned
  · rw [hsame]
    exact h.nonzero
  · rw [hturns.closed, hsame]
    exact h.closed
  · rw [hothers]
    exact h.halted
  · rw [hturns.out, h.out]
    constructor
    · rintro (rfl | hx | ⟨other, v, hv, hx⟩)
      · exact Or.inr ⟨page, _, update_self _ _ _, (hfoot page).mpr rfl⟩
      · exact Or.inl hx
      · refine Or.inr ⟨other, v, (update_of_ne ?_ _ _).trans hv, hx⟩
        rintro rfl
        rw [hnone] at hv
        cases hv
    · rintro (hx | ⟨other, v, hv, hx⟩)
      · exact Or.inr (Or.inl hx)
      · rcases hcases other v hv with ⟨-, rfl⟩ | ⟨-, hv⟩
        · exact Or.inl ((hfoot page).mp hx)
        · exact Or.inr (Or.inr ⟨other, v, hv, hx⟩)
  · rcases hcases other v hv with ⟨-, rfl⟩ | ⟨-, hv⟩
    · refine hfresh ((h.out root).mpr (Or.inl ?_))
      rwa [← (hfoot page).mp hy]
    · exact h.held hv hx hy
  · rcases hcases other v hv with ⟨hroot₁, hv₁⟩ | ⟨hroot₁, hv₁⟩
    · rcases hcases other' v' hv' with ⟨hroot₂, -⟩ | ⟨-, hv₂⟩
      · rw [hroot₁, hroot₂]
      · rw [hv₁] at hx
        exact absurd ((hfoot page).mp hx) (hold hv₂ hy)
    · rcases hcases other' v' hv' with ⟨-, hv₂⟩ | ⟨-, hv₂⟩
      · rw [hv₂] at hy
        exact absurd ((hfoot page).mp hy) (hold hv₁ hx)
      · exact h.apart hv₁ hv₂ hx hy
  · rcases hcases other v hv with ⟨rfl, rfl⟩ | ⟨hne, hv⟩
    · refine ⟨hu.top, hu.user, hu.owned, hu.single, hu.words, fun {i} hi => ?_, RadixTree.pruned_single⟩
      rw [hkernel i hi, hkernelWords]
    · exact (h.tree hv).congr (fun page hx => hwords _ fun hy => hold hv (Or.inl hx) (Nat.eq_of_mul_eq_mul_right (by decide) hy)) hkernelWords

theorem keep {trees' : Nat → Option PageTree} {out : Nat → Prop} (h : SpaceTrees memory trees held) (hl : Leaves memory out m)
    (hsub : ∀ {other v}, trees' other = some v → trees other = some v)
    (hout : ∀ page, out page ↔ held page ∨ ∃ root t, trees' root = some t ∧ t.Foot page) : SpaceTrees m trees' held := by
  have hothers := hl.others
  have hkernel := h.kernel_words (m := m) (by rw [hothers]) fun page hx => hl.content (Or.inr hx)
  refine ⟨hl.physical.sound, ?_, ?_, ?_, ?_, ?_, fun page => (hl.physical.out page).trans (hout page), fun hv hx hy => h.held (hsub hv) hx hy,
    fun hv hv' hx hy => h.apart (hsub hv) (hsub hv') hx hy, fun {other v} hv => ?_⟩
  · rw [hl.physical.managed]
    exact h.small
  · rw [hothers]
    exact h.aligned
  · rw [hothers]
    exact h.nonzero
  · rw [hl.physical.closed, hothers]
    exact h.closed
  · rw [hothers]
    exact h.halted
  · exact (h.tree (hsub hv)).congr (fun page hx => hl.content (Or.inl ((hout page).mpr (Or.inr ⟨other, v, hv, Or.inl hx⟩)))) hkernel

theorem drop (h : SpaceTrees memory trees held) (hl : Leaves memory (restOf trees held root) m) :
    SpaceTrees m (update trees root none) held := by
  have hcases : ∀ {other v}, update trees root none other = some v → other ≠ root ∧ trees other = some v :=
    fun hv => (of_update hv).resolve_left fun hx => by cases hx.2
  refine h.keep hl (fun hv => (hcases hv).2) fun page => ?_
  constructor
  · rintro (hx | ⟨other, v, hne, hv, hx⟩)
    · exact Or.inl hx
    · exact Or.inr ⟨other, v, (update_of_ne hne _ _).trans hv, hx⟩
  · rintro (hx | ⟨other, v, hv, hx⟩)
    · exact Or.inl hx
    · obtain ⟨hne, hv⟩ := hcases hv
      exact Or.inr ⟨other, v, hne, hv, hx⟩

theorem turn {physical : PhysicalMemory} {out : Nat → Prop} (h : SpaceTrees memory trees held) (hturns : memory.physical.Turns physical out)
    (hout : ∀ page, out page ↔ held' page ∨ ∃ root t, trees root = some t ∧ t.Foot page)
    (hheld : ∀ {root t page}, trees root = some t → held' page → ¬t.Foot page) : SpaceTrees { memory with physical } trees held' where
  sound := hturns.sound
  small := by
    show physical.managedPageCount ≤ _
    rw [hturns.managed]
    exact h.small
  aligned := h.aligned
  nonzero := h.nonzero
  closed := (hturns.closed _).mpr h.closed
  halted := h.halted
  out := fun page => (hturns.out page).trans (hout page)
  held := hheld
  apart := h.apart
  tree := fun ht => (h.tree ht).congr (fun _ _ => rfl) rfl

theorem activate (h : SpaceTrees memory trees held) (pagingRoot : Nat) : SpaceTrees { memory with pagingRoot } trees held :=
  ⟨h.sound, h.small, h.aligned, h.nonzero, h.closed, h.halted, h.out, h.held, h.apart, fun ht => (h.tree ht).congr (fun _ _ => rfl) rfl⟩

end SpaceTrees
end Trees

structure MapOf (t : PageTree) (map : PageMap) : Prop where
  user : ∀ page, IsUserAddress (page * pageSize) → map page = (t.value (tablePath (page * pageSize))).map fun mapping => (mapping.page, mapping.flags)
  other : ∀ page, ¬IsUserAddress (page * pageSize) → map page = none

structure Refines (memory : VirtualMemory) (trees : Nat → Option PageTree) (spaces : AddressSpaces) : Prop where
  tables : SpaceTrees memory trees spaces.held
  map : ∀ {root t}, trees root = some t → ∃ map, spaces.map (root * pageSize) = some map ∧ MapOf t map
  space : ∀ {rootAddress}, (spaces.map rootAddress).isSome → ∃ root t, rootAddress = root * pageSize ∧ trees root = some t

def Used (trees : Nat → Option PageTree) (held : Nat → Prop) (page : Nat) : Prop :=
  held page ∨ ∃ root t, trees root = some t ∧ t.Owns page

structure StepsTo (memory m : VirtualMemory) (trees : Nat → Option PageTree) (spaces : AddressSpaces) : Prop where
  refines : Refines m trees spaces
  content : ∀ page, Used trees spaces.held page → m.words (page * pageSize) = memory.words (page * pageSize)

section Maps
variable {t u : PageTree} {map : PageMap} {address physicalAddress count page k : Nat} {flags : BitVec 32} {mapping : Nat → UserMapping}
  {rest : Nat → Prop}

theorem page_sum (haligned : address % pageSize = 0) (hlow : address / pageSize ≤ page) :
    address + (page - address / pageSize) * pageSize = page * pageSize := by
  have hbase : address / pageSize * pageSize = address := Nat.div_mul_cancel (Nat.dvd_of_mod_eq_zero haligned)
  calc address + (page - address / pageSize) * pageSize
      = address / pageSize * pageSize + (page - address / pageSize) * pageSize := by rw [hbase]
    _ = (address / pageSize + (page - address / pageSize)) * pageSize := (Nat.add_mul _ _ _).symm
    _ = page * pageSize := by rw [Nat.add_sub_cancel' hlow]

theorem UserRange.page_iff (h : UserRange address count) (haligned : address % pageSize = 0) (hpage : IsUserAddress (page * pageSize)) :
    (address / pageSize ≤ page ∧ page < address / pageSize + count) ↔ ∃ k < count, tablePath (page * pageSize) = pathOf address k := by
  have hnumber : page * pageSize / pageSize = page := Nat.mul_div_cancel _ (by decide)
  constructor
  · rintro ⟨hlow, hhigh⟩
    refine ⟨page - address / pageSize, by omega, ?_⟩
    unfold pathOf
    rw [page_sum haligned hlow]
  · rintro ⟨k, hk, hx⟩
    have hsame := (tablePath_eq_iff hpage.2 (h.isUserAddress hk).2).mp hx
    rw [hnumber, Nat.add_mul_div_right _ _ (by decide)] at hsame
    omega

theorem UserRange.isUserPage (h : UserRange address count) (haligned : address % pageSize = 0) (hlow : address / pageSize ≤ page)
    (hhigh : page < address / pageSize + count) : IsUserAddress (page * pageSize) := by
  have huser := h.isUserAddress (k := page - address / pageSize) (by omega)
  rwa [page_sum haligned hlow] at huser

theorem MapOf.none_of_free (h : MapOf t map) (hrange : UserRange address count) (haligned : address % pageSize = 0)
    (hfree : ∀ k < count, t.value (pathOf address k) = none) (hk : k < count) : map (address / pageSize + k) = none := by
  have hpage := hrange.isUserPage haligned (Nat.le_add_right _ k) (Nat.add_lt_add_left hk _)
  obtain ⟨l, hl, hpath⟩ := (hrange.page_iff haligned hpage).mp ⟨Nat.le_add_right _ k, Nat.add_lt_add_left hk _⟩
  rw [h.user _ hpage, hpath, hfree l hl]
  rfl

theorem MapOf.mapRange (h : MapOf t map) (hrange : UserRange address count) (haligned : address % pageSize = 0)
    (hsource : HoldsTables.Source rest mapping (physicalAddress / pageSize) flags count) (hm : Mapped t u address mapping count) :
    MapOf u (map.mapRange address physicalAddress count flags) := by
  refine ⟨fun page hpage => ?_, fun page hpage => ?_⟩
  · unfold PageMap.mapRange
    split
    · rename_i hin
      obtain ⟨k, hk, hpath⟩ := (hrange.page_iff haligned hpage).mp hin
      have hnumber : page - address / pageSize = k := by
        have hsame := (tablePath_eq_iff hpage.2 (hrange.isUserAddress hk).2).mp hpath
        rw [Nat.mul_div_cancel _ (by decide), Nat.add_mul_div_right _ _ (by decide)] at hsame
        omega
      rw [hpath, hm.here k hk, hnumber, Option.map_some, hsource.page k hk, hsource.same k hk]
    · rename_i hout
      rw [h.user page hpage, hm.elsewhere _ fun k hk hx => hout ((hrange.page_iff haligned hpage).mpr ⟨k, hk, hx⟩)]
  · unfold PageMap.mapRange
    rw [if_neg fun hin => hpage (hrange.isUserPage haligned hin.1 hin.2)]
    exact h.other page hpage

theorem MapOf.unmapRange (h : MapOf t map) (hrange : UserRange address count) (haligned : address % pageSize = 0)
    (hun : Unmapped t u address count) : MapOf u (map.unmapRange address count) := by
  refine ⟨fun page hpage => ?_, fun page hpage => ?_⟩
  · unfold PageMap.unmapRange
    split
    · rename_i hin
      obtain ⟨k, hk, hpath⟩ := (hrange.page_iff haligned hpage).mp hin
      rw [hpath, hun.here k hk]
      rfl
    · rename_i hout
      rw [h.user page hpage, hun.elsewhere _ fun k hk hx => hout ((hrange.page_iff haligned hpage).mpr ⟨k, hk, hx⟩)]
  · unfold PageMap.unmapRange
    split
    · rfl
    · exact h.other page hpage

theorem MapOf.single {root : Nat} : MapOf (.single root) fun _ => none := ⟨fun _ _ => rfl, fun _ _ => rfl⟩

end Maps

section Steps
variable {memory m : VirtualMemory} {trees : Nat → Option PageTree} {spaces : AddressSpaces} {root rootAddress : Nat} {t u : PageTree} {map : PageMap}
variable {held : Nat → Prop} {count physicalAddress : Nat}

theorem Refines.live (h : Refines memory trees spaces) (hs : (spaces.map rootAddress).isSome) :
    ∃ root t map, rootAddress = root * pageSize ∧ trees root = some t ∧ spaces.map rootAddress = some map ∧ MapOf t map := by
  obtain ⟨root, t, rfl, ht⟩ := h.space hs
  obtain ⟨map, hmap, hof⟩ := h.map ht
  exact ⟨root, t, map, rfl, ht, hmap, hof⟩

theorem Refines.replace (h : Refines memory trees spaces)
    (hu : SpaceTrees m (update trees root (some u)) held) (hof : MapOf u map) :
    Refines m (update trees root (some u)) ⟨update spaces.map (root * pageSize) (some map), held⟩ := by
  refine ⟨hu, fun {other v} hv => ?_, fun {address} hs => ?_⟩
  · rcases SpaceTrees.of_update hv with ⟨rfl, hself⟩ | ⟨hne, hold⟩
    · cases hself
      exact ⟨map, update_self _ _ _, hof⟩
    · obtain ⟨map', hmap', hof'⟩ := h.map hold
      refine ⟨map', ?_, hof'⟩
      dsimp only
      rw [update_of_ne (HoldsTables.address_ne hne)]
      exact hmap'
  · by_cases hx : address = root * pageSize
    · exact ⟨root, u, hx, update_self _ _ _⟩
    · dsimp only at hs
      rw [update_of_ne hx] at hs
      obtain ⟨other, v, rfl, hv⟩ := h.space hs
      exact ⟨other, v, rfl, (update_of_ne (fun hy => hx (by rw [hy])) _ _).trans hv⟩

theorem Refines.drop (h : Refines memory trees spaces) (hu : SpaceTrees m (update trees root none) spaces.held) :
    Refines m (update trees root none) { spaces with map := update spaces.map (root * pageSize) none } := by
  refine ⟨hu, fun {other v} hv => ?_, fun {address} hs => ?_⟩
  · rcases SpaceTrees.of_update hv with ⟨-, hself⟩ | ⟨hne, hold⟩
    · cases hself
    · obtain ⟨map', hmap', hof'⟩ := h.map hold
      refine ⟨map', ?_, hof'⟩
      dsimp only
      rw [update_of_ne (HoldsTables.address_ne hne)]
      exact hmap'
  · dsimp only at hs
    by_cases hx : address = root * pageSize
    · rw [hx, update_self] at hs
      cases hs
    · rw [update_of_ne hx] at hs
      obtain ⟨other, v, rfl, hv⟩ := h.space hs
      exact ⟨other, v, rfl, (update_of_ne (fun hy => hx (by rw [hy])) _ _).trans hv⟩

theorem Refines.tables_eq (h : Refines memory trees spaces) (hu : SpaceTrees m trees held) : Refines m trees ⟨spaces.map, held⟩ :=
  ⟨hu, h.map, h.space⟩

theorem Refines.physical (h : Refines memory trees spaces) (call : PhysicalCall) (hallowed : (SpaceCall.physical call).Allowed memory spaces) :
    wp (onPhysical call.run) (fun v m => StepsTo memory m trees { spaces with held := call.live spaces.held v })
      (fun _ m => StepsTo memory m trees spaces) memory := by
  have hs := h.tables.sound
  have hstep : ∀ {physical : PhysicalMemory} {held : Nat → Prop}, SpaceTrees { memory with physical } trees held →
      StepsTo memory { memory with physical } trees ⟨spaces.map, held⟩ := fun htrees => ⟨h.tables_eq htrees, fun _ _ => rfl⟩
  have hstay : ∀ {physical : PhysicalMemory}, memory.physical.Turns physical memory.physical.Out →
      StepsTo memory { memory with physical } trees spaces := fun hturns => hstep (h.tables.turn hturns h.tables.out h.tables.held)
  rw [onPhysical, wp_zoom]
  cases call with
  | allocate count alignment =>
    rw [PhysicalCall.run, wp_map]
    refine wp_mono hs.allocate ?_ fun _ _ hx => hstay (hx.1.turns hs)
    rintro address physical ⟨first, rfl, -, hfits, hmoves, hsound⟩
    have hrange : ∀ page, (∃ address ∈ some (first * pageSize), InPages address count page) ↔ first ≤ page ∧ page < first + count := by
      intro page
      simp only [Option.mem_some_iff, exists_eq_left', InPages]
      rw [Nat.mul_div_cancel _ (by decide)]
    have hfresh : ∀ page, first ≤ page → page < first + count → ¬memory.physical.Out page := fun page h₁ h₂ hx => by
      have hfree := hfits.free page h₁ h₂
      rw [hx.2] at hfree
      cases hfree
    refine hstep (h.tables.turn (hmoves.turns_allocate hsound) (fun page => ?_) fun {other v page} hv hx hy => ?_)
    · show _ ↔ (spaces.held page ∨ _) ∨ _
      rw [hrange, h.tables.out]
      tauto
    · rcases hx with hx | hx
      · exact h.tables.held hv hx hy
      · obtain ⟨hlow, hhigh⟩ := (hrange page).mp hx
        exact hfresh page hlow hhigh ((h.tables.out page).mpr (Or.inr ⟨other, v, hv, hy⟩))
  | free address count =>
    rw [PhysicalCall.run, wp_map]
    refine wp_mono hs.freePages ?_ fun e physical hx => ?_
    · rintro _ physical ⟨-, hmoves, hsound⟩
      refine hstep (h.tables.turn (hmoves.turns_free hsound) (fun page => ?_) fun hv hx => h.tables.held hv hx.1)
      show _ ↔ (spaces.held page ∧ ¬InPages address count page) ∨ _
      rw [h.tables.out]
      constructor
      · rintro ⟨hx | hx, hout⟩
        · exact Or.inl ⟨hx, hout⟩
        · exact Or.inr hx
      · rintro (⟨hx, hout⟩ | ⟨root, t, ht, hx⟩)
        · exact ⟨Or.inl hx, hout⟩
        · exact ⟨Or.inr ⟨root, t, ht, hx⟩, fun hin => h.tables.held ht (hallowed page hin) hx⟩
    · rw [hx]
      exact hstay hs.turns
  | reclaim address count =>
    rw [PhysicalCall.run, wp_map]
    refine wp_mono hs.reclaim ?_ fun e physical hx => ?_
    · rintro _ physical ⟨-, hmoves, hsound⟩
      refine hstay ⟨hsound, hmoves.managed, hmoves.closed (fun hx => by cases hx) (fun hx => by cases hx), fun page => ?_⟩
      unfold PhysicalMemory.Out
      rw [hmoves.managed, hmoves.states]
      split
      · rename_i hin
        have hbefore := hmoves.before page hin.1 hin.2
        exact ⟨(fun hx => by cases hx.2), fun hx => by rw [hbefore] at hx; cases hx.2⟩
      · exact Iff.rfl
    · rw [hx]
      exact hstay hs.turns

-- Otherwise the elaborator would run the loops over the 512 entries of a table.
attribute [local irreducible] wp

theorem SpaceTrees.root_ne (h : SpaceTrees memory trees held) (ht : trees root = some t) :
    root * pageSize ≠ memory.kernelRootAddress := by
  intro hx
  have hclosed := h.closed
  rw [← hx, Nat.mul_div_cancel _ (by decide)] at hclosed
  exact PhysicalMemory.not_closed_of_out ((h.holds ht).out ⟨[], (h.tree ht).top⟩) hclosed

theorem Refines.destroy (h : Refines memory trees spaces) (hs : (spaces.map rootAddress).isSome) :
    wp (virtualAddressSpaceDestroy ⟨rootAddress⟩)
      (fun r m => r = ⟨0⟩ ∧ ∃ root t, rootAddress = root * pageSize ∧ trees root = some t ∧ StepsTo memory m (update trees root none)
        { spaces with map := update spaces.map rootAddress none })
      (fun _ _ => False) memory := by
  obtain ⟨root, t, map, rfl, ht, -, -⟩ := h.live hs
  refine wp_mono ((h.tables.holds ht).virtualAddressSpaceDestroy (h.tables.root_ne ht)) ?_ fun _ _ hx => hx
  rintro _ m ⟨rfl, hm⟩
  refine ⟨rfl, root, t, rfl, ht, h.drop (h.tables.drop hm), fun page hx => hm.content (Or.inl ?_)⟩
  rcases hx with hx | ⟨other, v, hv, hx⟩
  · exact Or.inl hx
  · obtain ⟨hne, hv⟩ := (SpaceTrees.of_update hv).resolve_left fun hx => by cases hx.2
    exact Or.inr ⟨other, v, hne, hv, Or.inr hx⟩

theorem inPages_iff {page : Nat} : InPages physicalAddress count page ↔ ∃ k < count, page = physicalAddress / pageSize + k := by
  unfold InPages
  constructor
  · rintro ⟨hlow, hhigh⟩
    exact ⟨page - physicalAddress / pageSize, by omega, by omega⟩
  · rintro ⟨k, hk, rfl⟩
    omega

theorem restOf_held {flags : BitVec 32} (root page : Nat)
    (hheld : flags &&& vmOwned ≠ 0 → ∀ page, InPages physicalAddress count page → held page)
    (hapart : ∀ {root t page}, trees root = some t → held page → ¬t.Foot page) :
    restWithout (restOf trees held root) flags (physicalAddress / pageSize) count page ↔
      restOf trees (fun page => held page ∧ ¬(flags &&& vmOwned ≠ 0 ∧ InPages physicalAddress count page)) root page := by
  unfold restWithout restOf InPages
  constructor
  · rintro ⟨hx | hx, hout⟩
    · exact Or.inl ⟨hx, hout⟩
    · exact Or.inr hx
  · rintro (⟨hx, hout⟩ | ⟨other, v, hne, hv, hx⟩)
    · exact ⟨Or.inl hx, hout⟩
    · exact ⟨Or.inr ⟨other, v, hne, hv, hx⟩, fun hin => hapart hv (hheld hin.1 page hin.2) hx⟩

theorem used_update {page : Nat} (hx : Used (update trees root (some u)) held page) :
    u.Owns page ∨ restOf trees held root page := by
  rcases hx with hx | ⟨other, v, hv, hx⟩
  · exact Or.inr (Or.inl hx)
  · rcases SpaceTrees.of_update hv with ⟨-, hself⟩ | ⟨hne, hold⟩
    · cases hself
      exact Or.inl hx
    · exact Or.inr (Or.inr ⟨other, v, hne, hold, Or.inr hx⟩)

theorem Refines.mapPages {address : Nat} {flags : BitVec 32} (h : Refines memory trees spaces)
    (hallowed : (SpaceCall.map rootAddress address physicalAddress count flags).Allowed memory spaces) :
    wp (SpaceCall.map rootAddress address physicalAddress count flags).run
      (fun v m => ∃ trees', StepsTo memory m trees' ((SpaceCall.map rootAddress address physicalAddress count flags).after spaces v) ∧
        (∀ page, Used trees spaces.held page →
          Used trees' ((SpaceCall.map rootAddress address physicalAddress count flags).after spaces v).held page) ∧
        (∀ map, spaces.map rootAddress = some map → ∀ k < count, map (address / pageSize + k) = none) ∧
        ∀ other, other * pageSize ≠ rootAddress → trees' other = trees other)
      (fun _ m => StepsTo memory m trees spaces) memory := by
  obtain ⟨hs, huser, hheld⟩ := hallowed
  obtain ⟨root, t, map, rfl, ht, hmap, hof⟩ := h.live hs
  have hlive := h.tables.holds ht
  have hpages : flags &&& vmOwned ≠ 0 → ∀ k < count, restOf trees spaces.held root (physicalAddress / pageSize + k) :=
    fun ho k hk => Or.inl (hheld ho _ (inPages_iff.mpr ⟨k, hk, rfl⟩))
  rw [SpaceCall.run, wp_map]
  refine wp_mono (hlive.virtualMapPages (h.tables.tree ht).pruned huser hpages) ?_ ?_
  · rintro _ m ⟨mapping, u, -, haddress, -, hrange, hsource, hm, hu, hp⟩
    have hu' := hu.congr fun page => restOf_held root page hheld h.tables.held
    have hnew := h.replace (h.tables.replace ht hu' hp fun page hx => hx.1) (hof.mapRange hrange haddress hsource hm)
    refine ⟨update trees root (some u), ?_, fun page hx => ?_, fun map' hmap' k hk => ?_,
      fun other hne => update_of_ne (fun hx => hne (by rw [hx])) _ _⟩
    · rw [SpaceCall.after, hmap]
      exact ⟨hnew, fun page hx => hu'.content (Or.inl (used_update hx))⟩
    · rcases hx with hx | ⟨other, v, hv, hx⟩
      · by_cases hin : flags &&& vmOwned ≠ 0 ∧ InPages physicalAddress count page
        · obtain ⟨k, hk, rfl⟩ := inPages_iff.mp hin.2
          refine Or.inr ⟨root, u, update_self _ _ _, _, mapping k, hm.here k hk, ?_, hsource.page k hk⟩
          rw [UserMapping.Owned, hsource.same k hk]
          exact hin.1
        · exact Or.inl ⟨hx, hin⟩
      · by_cases hroot : other = root
        · subst hroot
          cases ht.symm.trans hv
          obtain ⟨p, mapping', hvalue, howns⟩ := hx
          refine Or.inr ⟨other, u, update_self _ _ _, p, mapping', ?_, howns⟩
          rw [hm.elsewhere p, hvalue]
          rintro k hk rfl
          rw [hm.free k hk] at hvalue
          cases hvalue
        · exact Or.inr ⟨other, v, (update_of_ne hroot _ _).trans hv, hx⟩
    · cases hmap.symm.trans hmap'
      exact hof.none_of_free hrange haddress hm.free hk
  · intro e m hm
    have hnew := h.tables.replace ht hm (h.tables.tree ht).pruned fun page hx => hx
    rw [← ht, update_eq_self] at hnew
    refine ⟨h.tables_eq hnew, fun page hx => hm.content (Or.inl (used_update (u := t) ?_))⟩
    rwa [← ht, update_eq_self]

theorem Refines.unmapPages {address : Nat} (h : Refines memory trees spaces)
    (hallowed : (SpaceCall.unmap rootAddress address count).Allowed memory spaces) :
    wp (SpaceCall.unmap rootAddress address count).run
      (fun v m => ∃ trees', StepsTo memory m trees' ((SpaceCall.unmap rootAddress address count).after spaces v))
      (fun _ m => StepsTo memory m trees spaces) memory := by
  obtain ⟨hs, huser⟩ := hallowed
  obtain ⟨root, t, map, rfl, ht, hmap, hof⟩ := h.live hs
  rw [SpaceCall.run, wp_map]
  refine wp_mono ((h.tables.holds ht).virtualUnmapPages (h.tables.tree ht).pruned huser) ?_ fun e m hm => ?_
  · rintro _ m ⟨u, -, haddress, hrange, -, hun, hu, hp⟩
    have hnew := h.replace (h.tables.replace ht hu hp fun page hx => hx) (hof.unmapRange hrange haddress hun)
    refine ⟨update trees root (some u), ?_⟩
    rw [SpaceCall.after, hmap]
    exact ⟨hnew, fun page hx => hu.content (Or.inl (used_update hx))⟩
  · rw [hm]
    exact ⟨h, fun _ _ => rfl⟩

theorem assert_pass {c : Prop} [Decidable c] (hc : c) : memory.assert c = memory := if_pos hc

theorem Refines.create (h : Refines memory trees spaces) (out : Bool) :
    wp (virtualAddressSpaceCreate out)
      (fun r m => ∃ root, r = ⟨root * pageSize⟩ ∧ root * pageSize ≠ 0 ∧ trees root = none ∧ spaces.map (root * pageSize) = none ∧
        Refines m (update trees root (some (.single root)))
          { spaces with map := update spaces.map (root * pageSize) (some fun _ => none) } ∧
        ∀ page, Used trees spaces.held page → m.words (page * pageSize) = memory.words (page * pageSize))
      (fun _ m => StepsTo memory m trees spaces) memory := by
  refine wp_mono (HoldsTables.virtualAddressSpaceCreate h.tables.sound h.tables.small h.tables.closed out) ?_ ?_
  · rintro _ m ⟨root, rfl, hfresh, hu, hothers, hturns, hwords, hkernel⟩
    have hnone : trees root = none := by
      cases hx : trees root with
      | none => rfl
      | some v => exact absurd ((h.tables.out root).mpr (Or.inr ⟨root, v, hx, Or.inl ⟨[], (h.tables.tree hx).top⟩⟩)) hfresh
    refine ⟨root, rfl, hu.root_ne_zero, hnone, ?_,
      h.replace (h.tables.add hfresh hu hothers hturns hwords hkernel) MapOf.single, fun page hx => hwords _ (HoldsTables.address_ne ?_)⟩
    · by_contra hx
      obtain ⟨root', t, heq, ht⟩ := h.space (Option.isSome_iff_ne_none.mpr hx)
      rw [← Nat.eq_of_mul_eq_mul_right (by decide) heq, hnone] at ht
      cases ht
    · rintro rfl
      refine hfresh ((h.tables.out page).mpr ?_)
      exact hx.imp_right fun ⟨other, v, hv, hy⟩ => ⟨other, v, hv, Or.inr hy⟩
  · intro e m hm
    refine ⟨h.tables_eq (h.tables.keep hm id h.tables.out), fun page hx => hm.content (Or.inl ((h.tables.out page).mpr ?_))⟩
    exact hx.imp_right fun ⟨other, v, hv, hx⟩ => ⟨other, v, hv, Or.inr hx⟩

theorem Refines.call (h : Refines memory trees spaces) (call : SpaceCall) (hallowed : call.Allowed memory spaces) :
    wp call.run (fun v m => ∃ trees', StepsTo memory m trees' (call.after spaces v)) (fun _ m => StepsTo memory m trees spaces) memory := by
  cases call with
  | create out =>
    rw [SpaceCall.run, wp_map]
    refine wp_mono (h.create out) ?_ fun _ _ hx => hx
    rintro _ m ⟨root, rfl, -, hnone, -, hm, hwords⟩
    refine ⟨_, hm, fun page hx => ?_⟩
    rcases hx with hx | ⟨other, v, hv, hx⟩
    · exact hwords page (Or.inl hx)
    · rcases SpaceTrees.of_update hv with ⟨-, hself⟩ | ⟨-, hold⟩
      · cases hself
        obtain ⟨_, _, hy, -⟩ := hx
        cases hy
      · exact hwords page (Or.inr ⟨other, v, hold, hx⟩)
  | destroy rootAddress =>
    rw [SpaceCall.run, wp_map]
    refine wp_mono (h.destroy hallowed) ?_ fun _ _ hx => hx.elim
    rintro _ m ⟨-, root, t, -, -, hm⟩
    exact ⟨_, hm⟩
  | map rootAddress address physicalAddress count flags =>
    exact wp_mono (h.mapPages hallowed) (fun _ _ ⟨trees', hstep, _⟩ => ⟨trees', hstep⟩) fun _ _ hx => hx
  | unmap rootAddress address count => exact h.unmapPages hallowed
  | activate rootAddress =>
    obtain ⟨root, t, -, rfl, ht, -, -⟩ := h.live hallowed
    rw [SpaceCall.run, wp_map]
    unfold virtualAddressSpaceActivate pagingActivate
    rw [wp_bind, wp_modify, assert_pass (h.tables.holds ht).root_ne_zero, wp_bind, wp_modify, assert_pass (Nat.mul_mod_left _ _), wp_modify]
    exact ⟨trees, h.tables_eq (h.tables.activate _), fun _ _ => rfl⟩
  | activateKernel =>
    rw [SpaceCall.run, wp_map]
    unfold virtualKernelAddressSpaceActivate pagingActivate
    rw [wp_bind, wp_get, wp_bind, wp_modify, assert_pass h.tables.nonzero, wp_bind, wp_modify, assert_pass h.tables.aligned, wp_modify]
    exact ⟨trees, h.tables_eq (h.tables.activate _), fun _ _ => rfl⟩
  | physical call =>
    refine wp_mono (h.physical call hallowed) (fun v m hm => ⟨trees, hm⟩) fun _ _ hx => hx

end Steps

section Runs
variable {regions : List PhysicalRegion} {reservations : List PhysicalReservation} {memory : VirtualMemory} {spaces : AddressSpaces}

theorem SpaceTrees.none (hs : memory.physical.Sound) (hout : ∀ page, ¬memory.physical.Out page) (hsmall : memory.physical.managedPageCount ≤ 2 ^ 40)
    (haligned : memory.kernelRootAddress % pageSize = 0) (hnonzero : memory.kernelRootAddress ≠ 0)
    (hclosed : memory.physical.Closed (memory.kernelRootAddress / pageSize)) (hhalted : memory.halted = false) :
    SpaceTrees memory (fun _ => .none) fun _ => False := by
  refine ⟨hs, hsmall, haligned, hnonzero, hclosed, hhalted, fun page => ⟨fun hx => (hout page hx).elim, ?_⟩,
    (fun hv => by cases hv), (fun hv => by cases hv), fun hv => by cases hv⟩
  rintro (hx | ⟨_, _, hx, -⟩)
  · exact hx.elim
  · cases hx

theorem refines_run (h : SpaceRun regions reservations memory spaces) : ∃ trees, Refines memory trees spaces := by
  induction h with
  | @initialized m memory memory' executeDisable r hr haligned hnonzero hclosed hhalted hv =>
    have hlaid := wp_ok PhysicalMemory.initialize_spec hr
    have hkept := hlaid.kept
    have hsmall := hlaid.small
    have hstate : memory' = { memory with kernelRootAddress := memory.pagingRoot, executeDisableEnabled := executeDisable } := by
      have hspec : wp (virtualMemoryInitialize executeDisable)
          (fun _ m => m = { memory with kernelRootAddress := memory.pagingRoot, executeDisableEnabled := executeDisable })
          (fun _ m => m = { memory with kernelRootAddress := memory.pagingRoot, executeDisableEnabled := executeDisable }) memory := by
        unfold virtualMemoryInitialize
        simp only [wp_bind, wp_get, wp_failIf, wp_modify]
        refine ⟨fun hx => ?_, fun _ => ⟨fun _ => trivial, fun _ => trivial⟩⟩
        rw [hkept.sound.initialized] at hx
        cases hx
      cases r with
      | ok _ =>
        have hspec := wp_ok hspec hv
        exact hspec
      | error _ =>
        have hspec := wp_error hspec hv
        exact hspec
    subst hstate
    refine ⟨fun _ => none, SpaceTrees.none hkept.sound (fun page hx => (hkept.live page).mpr hx) hsmall haligned hnonzero hclosed hhalted,
      (fun ht => by cases ht), fun hs => by cases hs⟩
  | @returned memory memory' spaces call v _ hallowed hr ih =>
    obtain ⟨trees, htrees⟩ := ih
    obtain ⟨trees', hnew⟩ := wp_ok (htrees.call call hallowed) hr
    exact ⟨trees', hnew.refines⟩
  | @failed memory memory' spaces call e _ hallowed hr ih =>
    obtain ⟨trees, htrees⟩ := ih
    have hsame := wp_error (htrees.call call hallowed) hr
    exact ⟨trees, hsame.refines⟩

end Runs

end InferenceOS
