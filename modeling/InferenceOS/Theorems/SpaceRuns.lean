import InferenceOS.Theorems.AddressSpaces

/-! What every run of the virtual memory keeps: the page tables say what the address spaces say, failed calls leave no trace, and
    every page that is allocated is in use once. -/

namespace InferenceOS
open Program PageTree PageEntry VirtualMemory PhysicalMemory

theorem PhysicalMemory.Sound.allocated_congr {m t : PhysicalMemory} (hm : m.Sound) (ht : t.Sound) (h : ∀ page, t.Out page ↔ m.Out page) :
    t.allocatedPageCount = m.allocatedPageCount := by
  rw [ht.allocated, hm.allocated, countOf, countOf, Nat.count_eq_card_filter_range,
    Nat.count_eq_card_filter_range]
  congr 1
  ext page
  rw [Finset.mem_filter, Finset.mem_range, Finset.mem_filter, Finset.mem_range]
  exact h page

theorem PhysicalMemory.Sound.allocated_zero {m : PhysicalMemory} (hs : m.Sound) (h : ∀ page, ¬m.Out page) : m.allocatedPageCount = 0 := by
  rw [hs.allocated, countOf, Nat.count_eq_card_filter_range, Finset.card_eq_zero, Finset.filter_eq_empty_iff]
  exact fun page hp hx => h page ⟨Finset.mem_range.mp hp, hx⟩

namespace AddressSpaces

/-- A mapping of `spaces` goes with the page. -/
def Owns (spaces : AddressSpaces) (rootAddress number page : Nat) : Prop :=
  ∃ map, spaces.map rootAddress = some map ∧ ∃ flags, map number = some (page, flags) ∧ flags &&& vmOwned ≠ 0

/-- A caller holds the page, or a mapping of an address space owns it. -/
def Uses (spaces : AddressSpaces) (page : Nat) : Prop := spaces.held page ∨ ∃ rootAddress number, spaces.Owns rootAddress number page

/-- An address space has a table for each proper part of the way to a mapped page. -/
def Needs (spaces : AddressSpaces) (rootAddress : Nat) (p : List (Fin pageTableEntryCount)) : Prop :=
  ∃ map, spaces.map rootAddress = some map ∧
    (p = [] ∨ ∃ number, (map number).isSome ∧ p <+: tablePath (number * pageSize) ∧ p.length ≤ 3)

end AddressSpaces

section Refinement
variable {memory : VirtualMemory} {trees : Nat → Option PageTree} {spaces : AddressSpaces} {root rootAddress address number page : Nat}
  {t : PageTree} {map : PageMap} {p : List (Fin pageTableEntryCount)} {mapping : UserMapping}

def pageNumber (p : List (Fin pageTableEntryCount)) : Nat := p.foldl (fun number i => number * pageTableEntryCount + i.1) 0

theorem tablePath_pageNumber {i j k l : Fin pageTableEntryCount} (hi : IsUser i) :
    IsUserAddress (pageNumber [i, j, k, l] * pageSize) ∧ tablePath (pageNumber [i, j, k, l] * pageSize) = [i, j, k, l] := by
  have hj := j.2
  have hk := k.2
  have hl := l.2
  unfold IsUser at hi
  unfold IsUserAddress userVirtualStart userVirtualEnd tablePath pml4Index pdptIndex pdIndex ptIndex pageNumber pageSize
  simp only [List.foldl_cons, List.foldl_nil, List.cons.injEq, Fin.ext_iff, and_true, pageTableEntryCount] at *
  omega

theorem TreeAt.exists_page (h : TreeAt memory root t) (hv : t.value p = some mapping) :
    ∃ number, IsUserAddress (number * pageSize) ∧ p = tablePath (number * pageSize) := by
  obtain ⟨q, l, rfl, hn, hlength⟩ := t.hung (Option.isSome_of_eq_some hv)
  obtain ⟨i, j, k, rfl⟩ := List.length_eq_three.mp hlength
  obtain ⟨huser, hpath⟩ := tablePath_pageNumber (j := j) (k := k) (l := l) (h.user hn)
  exact ⟨_, huser, hpath.symm⟩

theorem isUserAddress_page (h : IsUserAddress address) :
    IsUserAddress (address / pageSize * pageSize) ∧ tablePath (address / pageSize * pageSize) = tablePath address := by
  have hpage : IsUserAddress (address / pageSize * pageSize) := by
    unfold IsUserAddress userVirtualStart userVirtualEnd pageSize at *
    omega
  exact ⟨hpage, (tablePath_eq_iff hpage.2 h.2).mpr (Nat.mul_div_cancel _ (by decide))⟩

theorem MapOf.value (h : MapOf t map) (haddress : IsUserAddress address) :
    map (address / pageSize) = (t.value (tablePath address)).map fun mapping => (mapping.page, mapping.flags) := by
  obtain ⟨hpage, hpath⟩ := isUserAddress_page haddress
  rw [h.user _ hpage, hpath]

theorem MapOf.exists_value (h : MapOf t map) {flags : BitVec 32} (hmap : map number = some (page, flags)) :
    ∃ mapping, IsUserAddress (number * pageSize) ∧ t.value (tablePath (number * pageSize)) = some mapping ∧ mapping.page = page ∧
      mapping.flags = flags := by
  by_cases huser : IsUserAddress (number * pageSize)
  · rw [h.user _ huser] at hmap
    obtain ⟨mapping, hv, hsame⟩ := Option.map_eq_some_iff.mp hmap
    cases hsame
    exact ⟨mapping, huser, hv, rfl, rfl⟩
  · rw [h.other _ huser] at hmap
    cases hmap

/-- The table that the walk reaches. -/
def tableAt (memory : VirtualMemory) (rootAddress : Nat) (p : List (Fin pageTableEntryCount)) : Nat :=
  p.foldl (fun table i => tableFromEntry (memory.words table i)) rootAddress

theorem HoldsTables.tableAt_eq {base : VirtualMemory} {rest : Nat → Prop} (h : HoldsTables base root t rest memory) :
    t.node p = some page → tableAt memory (root * pageSize) p = page * pageSize := by
  induction p using List.reverseRecOn generalizing page with
  | nil =>
    intro hp
    cases h.top.symm.trans hp
    rfl
  | append_singleton p i ih =>
    intro hp
    obtain ⟨a, ha⟩ := Option.isSome_iff_exists.mp (t.parent (Option.isSome_of_eq_some hp))
    have huser : p = [] → IsUser i := by
      rintro rfl
      exact h.user (Option.isSome_of_eq_some hp)
    have hstep : tableAt memory (root * pageSize) (p ++ [i]) = tableFromEntry (memory.words (tableAt memory (root * pageSize) p) i) := by
      rw [tableAt, List.foldl_append]
      rfl
    rw [hstep, ih ha, h.words ha huser, word_node hp, tableFromEntry_tableEntry (h.lt_of_node hp)]

namespace Refines
variable (h : Refines memory trees spaces)
include h

theorem tree_of_map (hs : spaces.map rootAddress = some map) : ∃ root t, rootAddress = root * pageSize ∧ trees root = some t ∧ MapOf t map := by
  obtain ⟨root, t, map', rfl, ht, hmap, hof⟩ := h.live (Option.isSome_of_eq_some hs)
  cases hs.symm.trans hmap
  exact ⟨root, t, rfl, ht, hof⟩

theorem owns (ho : spaces.Owns rootAddress number page) : ∃ root t mapping, rootAddress = root * pageSize ∧ trees root = some t ∧
    IsUserAddress (number * pageSize) ∧ t.value (tablePath (number * pageSize)) = some mapping ∧ mapping.Owned ∧ mapping.page = page := by
  obtain ⟨map, hs, flags, hmap, howned⟩ := ho
  obtain ⟨root, t, rfl, ht, hof⟩ := h.tree_of_map hs
  obtain ⟨mapping, huser, hv, hpage, hflags⟩ := hof.exists_value hmap
  exact ⟨root, t, mapping, rfl, ht, huser, hv, by rwa [UserMapping.Owned, hflags], hpage⟩

theorem owns_of_tree (ht : trees root = some t) (ho : t.Owns page) : ∃ number, spaces.Owns (root * pageSize) number page := by
  obtain ⟨p, mapping, hv, howned, hpage⟩ := ho
  obtain ⟨map, hs, hof⟩ := h.map ht
  obtain ⟨number, huser, rfl⟩ := (h.tables.tree ht).exists_page hv
  refine ⟨number, map, hs, mapping.flags, ?_, howned⟩
  rw [hof.user _ huser, hv, Option.map_some, hpage]

theorem owns_iff : (∃ rootAddress number, spaces.Owns rootAddress number page) ↔ ∃ root t, trees root = some t ∧ t.Owns page := by
  constructor
  · rintro ⟨rootAddress, number, ho⟩
    obtain ⟨root, t, mapping, -, ht, -, hv, howned, hpage⟩ := h.owns ho
    exact ⟨root, t, ht, _, mapping, hv, howned, hpage⟩
  · rintro ⟨root, t, ht, ho⟩
    exact ⟨_, h.owns_of_tree ht ho⟩

theorem not_held_of_owns (ho : spaces.Owns rootAddress number page) : ¬spaces.held page := by
  obtain ⟨root, t, mapping, -, ht, -, hv, howned, hpage⟩ := h.owns ho
  exact fun hx => h.tables.held ht hx (Or.inr ⟨_, mapping, hv, howned, hpage⟩)

theorem owns_single {rootAddress' number' : Nat} (ho : spaces.Owns rootAddress number page) (ho' : spaces.Owns rootAddress' number' page) :
    rootAddress = rootAddress' ∧ number = number' := by
  obtain ⟨root, t, mapping, rfl, ht, huser, hv, howned, hpage⟩ := h.owns ho
  obtain ⟨root', t', mapping', rfl, ht', huser', hv', howned', hpage'⟩ := h.owns ho'
  have hroot := h.tables.apart ht ht' (Or.inr ⟨_, mapping, hv, howned, hpage⟩) (Or.inr ⟨_, mapping', hv', howned', hpage'⟩)
  subst hroot
  cases ht.symm.trans ht'
  have hpath := (h.tables.tree ht).single hv hv' howned howned' (hpage.trans hpage'.symm)
  have hnumber := (tablePath_eq_iff huser.2 huser'.2).mp hpath
  rw [Nat.mul_div_cancel _ (by decide), Nat.mul_div_cancel _ (by decide)] at hnumber
  exact ⟨rfl, hnumber⟩

theorem uses_iff : spaces.Uses page ↔ Used trees spaces.held page := or_congr_right h.owns_iff

theorem needs_iff (ht : trees root = some t) : spaces.Needs (root * pageSize) p ↔ (t.node p).isSome := by
  obtain ⟨map, hs, hof⟩ := h.map ht
  have htree := h.tables.tree ht
  constructor
  · rintro ⟨map', hs', hp⟩
    cases hs.symm.trans hs'
    rcases hp with rfl | ⟨number, hmap, hprefix, hlength⟩
    · exact Option.isSome_of_eq_some htree.top
    · obtain ⟨⟨_, _⟩, hmap⟩ := Option.isSome_iff_exists.mp hmap
      obtain ⟨mapping, -, hv, -, -⟩ := hof.exists_value hmap
      by_cases hp : p = []
      · rw [hp]
        exact Option.isSome_of_eq_some htree.top
      · exact (htree.pruned.node_iff hp).mpr ⟨hlength, _, hprefix, Option.isSome_of_eq_some hv⟩
  · intro hn
    refine ⟨map, hs, or_iff_not_imp_left.mpr fun hp => ?_⟩
    obtain ⟨hlength, q, hprefix, hv⟩ := (htree.pruned.node_iff hp).mp hn
    obtain ⟨mapping, hv⟩ := Option.isSome_iff_exists.mp hv
    obtain ⟨number, huser, rfl⟩ := htree.exists_page hv
    refine ⟨number, ?_, hprefix, hlength⟩
    rw [hof.user _ huser, hv]
    rfl

theorem table (hn : spaces.Needs rootAddress p) : ∃ root t page, rootAddress = root * pageSize ∧ trees root = some t ∧
    t.node p = some page ∧ tableAt memory rootAddress p = page * pageSize := by
  obtain ⟨map, hs, -⟩ := id hn
  obtain ⟨root, t, rfl, ht, -⟩ := h.tree_of_map hs
  obtain ⟨page, hpage⟩ := Option.isSome_iff_exists.mp ((h.needs_iff ht).mp hn)
  exact ⟨root, t, page, rfl, ht, hpage, (h.tables.holds ht).tableAt_eq hpage⟩

theorem has_iff (ht : trees root = some t) : t.Has page ↔ ∃ p, spaces.Needs (root * pageSize) p ∧
    tableAt memory (root * pageSize) p = page * pageSize := by
  constructor
  · rintro ⟨p, hp⟩
    exact ⟨p, (h.needs_iff ht).mpr (Option.isSome_of_eq_some hp), (h.tables.holds ht).tableAt_eq hp⟩
  · rintro ⟨p, hn, hpage⟩
    obtain ⟨a, ha⟩ := Option.isSome_iff_exists.mp ((h.needs_iff ht).mp hn)
    rw [(h.tables.holds ht).tableAt_eq ha] at hpage
    exact ⟨p, ha.trans (congrArg some (Nat.eq_of_mul_eq_mul_right (by decide) hpage))⟩

theorem translates (hs : spaces.map rootAddress = some map) (haddress : IsUserAddress address) :
    memory.virtualTranslate (some ⟨rootAddress⟩) address true =
      (map (address / pageSize)).elim (.error .notFound) (fun (page, _) => .ok (page * pageSize + address % pageSize)) ∧
    memory.virtualQuery (some ⟨rootAddress⟩) address true true =
      (map (address / pageSize)).elim (.error .notFound) (fun (page, flags) => .ok (page * pageSize + address % pageSize, flags)) := by
  obtain ⟨root, t, rfl, ht, hof⟩ := h.tree_of_map hs
  have hlive := h.tables.holds ht
  rw [hlive.virtualTranslate_eq haddress, hlive.virtualQuery_eq haddress, hof.value haddress]
  cases t.value (tablePath address) with
  | none => exact ⟨rfl, rfl⟩
  | some mapping => exact ⟨rfl, rfl⟩

end Refines
end Refinement

-- Otherwise the elaborator would run the loops over the 512 entries of a table.
attribute [local irreducible] wp

section Runs
variable {regions : List PhysicalRegion} {reservations : List PhysicalReservation} {memory m : VirtualMemory} {spaces : AddressSpaces}
  {rootAddress address : Nat} {map : PageMap} {call : SpaceCall} {e : IosError}

def bootMemory : VirtualMemory :=
  ⟨(physicalMemoryInitialize [⟨0, 16, some .usable⟩] [] unset).2, fun _ _ => 0, false, 0, 16 * pageSize, false⟩

def firstCalls : List SpaceCall :=
  [.create true, .physical (.allocate 1 1), .map pageSize userVirtualStart (2 * pageSize) 1 (vmWrite ||| vmUser ||| vmOwned)]

def memoryAfter (calls : List SpaceCall) : VirtualMemory :=
  calls.foldl (fun memory call => (call.run memory).2) (virtualMemoryInitialize true bootMemory).2

def firstSpaces : AddressSpaces :=
  (SpaceCall.map pageSize userVirtualStart (2 * pageSize) 1 (vmWrite ||| vmUser ||| vmOwned)).after
    ((SpaceCall.physical (.allocate 1 1)).after ((SpaceCall.create true).after ⟨fun _ => none, fun _ => False⟩ (some pageSize))
      (some (2 * pageSize))) none

theorem firstSpaces_run : SpaceRun [⟨0, 16, some .usable⟩] [] (memoryAfter firstCalls) firstSpaces := by
  have hinitialized : SpaceRun [⟨0, 16, some .usable⟩] [] (memoryAfter []) ⟨fun _ => none, fun _ => False⟩ :=
    @SpaceRun.initialized _ _ unset bootMemory _ true (.ok ()) (run_eq (by decide +kernel)) (by decide) (by decide)
      (Or.inl (by decide +kernel)) rfl (run_eq (by decide +kernel))
  have hcreated := @SpaceRun.returned _ _ _ _ _ (.create true) (some pageSize) hinitialized trivial (run_eq (by decide +kernel))
  have hallocated := @SpaceRun.returned _ _ _ _ _ (.physical (.allocate 1 1)) (some (2 * pageSize)) hcreated trivial
    (run_eq (by decide +kernel))
  exact @SpaceRun.returned _ _ _ _ _ (.map pageSize userVirtualStart (2 * pageSize) 1 (vmWrite ||| vmUser ||| vmOwned)) none hallocated
    ⟨rfl, Or.inl (by decide), fun _ page hx => Or.inr ⟨_, rfl, hx⟩⟩ (run_eq (by decide +kernel))

/-- In every state of a run, `virtual_translate` and `virtual_query` find for the user addresses of an address space what was
    mapped and not unmapped since, and nothing is mapped for both writing and execution. -/
theorem spaceRun_translates (h : SpaceRun regions reservations memory spaces) (hs : spaces.map rootAddress = some map)
    (haddress : IsUserAddress address) :
    memory.virtualTranslate (some ⟨rootAddress⟩) address true =
      (map (address / pageSize)).elim (.error .notFound) (fun (page, _) => .ok (page * pageSize + address % pageSize)) ∧
    memory.virtualQuery (some ⟨rootAddress⟩) address true true =
      (map (address / pageSize)).elim (.error .notFound) (fun (page, flags) => .ok (page * pageSize + address % pageSize, flags)) ∧
    ∀ page flags, map (address / pageSize) = some (page, flags) → flags &&& vmUser ≠ 0 ∧
      flags &&& (vmWrite ||| vmExecute) ≠ vmWrite ||| vmExecute := by
  obtain ⟨trees, htrees⟩ := refines_run h
  obtain ⟨htranslate, hquery⟩ := htrees.translates hs haddress
  refine ⟨htranslate, hquery, fun page flags hmap => ?_⟩
  obtain ⟨root, t, -, -, hof⟩ := htrees.tree_of_map hs
  obtain ⟨mapping, -, -, -, rfl⟩ := hof.exists_value hmap
  exact ⟨mapping.user, mapping.exclusive⟩

theorem spaceRun_translates_first : (memoryAfter firstCalls).virtualTranslate (some ⟨pageSize⟩) (userVirtualStart + 5) true = .ok (2 * pageSize + 5) := by
  have htranslates := @spaceRun_translates _ _ _ _ pageSize (userVirtualStart + 5) _ firstSpaces_run rfl ⟨by decide, by decide⟩
  exact htranslates.1

/-- A call that fails leaves every translation of user addresses, the pages that are allocated and all contents that are in use. -/
theorem spaceRun_failed (h : SpaceRun regions reservations memory spaces) (hallowed : call.Allowed memory spaces)
    (hr : call.run memory = (.error e, m)) :
    (∀ rootAddress address, (spaces.map rootAddress).isSome → IsUserAddress address →
      m.virtualQuery (some ⟨rootAddress⟩) address true true = memory.virtualQuery (some ⟨rootAddress⟩) address true true) ∧
    (∀ page, m.physical.Out page ↔ memory.physical.Out page) ∧ m.physical.allocatedPageCount = memory.physical.allocatedPageCount ∧
    ∀ page, spaces.Uses page → m.words (page * pageSize) = memory.words (page * pageSize) := by
  obtain ⟨trees, htrees⟩ := refines_run h
  have hstep := wp_error (htrees.call call hallowed) hr
  have hout : ∀ page, m.physical.Out page ↔ memory.physical.Out page := fun page =>
    (hstep.refines.tables.out page).trans (htrees.tables.out page).symm
  refine ⟨fun rootAddress address hs haddress => ?_, hout, ?_, fun page hx => hstep.content page (htrees.uses_iff.mp hx)⟩
  · obtain ⟨map, hs⟩ := Option.isSome_iff_exists.mp hs
    rw [(hstep.refines.translates hs haddress).2, (htrees.translates hs haddress).2]
  · exact htrees.tables.sound.allocated_congr hstep.refines.tables.sound hout

theorem spaceRun_failed_first :
    (memoryAfter (firstCalls ++ [.unmap pageSize (userVirtualStart + pageSize) 1])).physical.allocatedPageCount =
      (memoryAfter firstCalls).physical.allocatedPageCount :=
  (@spaceRun_failed _ _ _ _ _ (.unmap pageSize (userVirtualStart + pageSize) 1) .notFound firstSpaces_run ⟨rfl, Or.inl (by decide)⟩
    (run_eq (by decide +kernel))).2.2.1

/-- Every page that is allocated is in use once: a caller holds it, or it goes with one mapping of one address space, or it is a
    page table. An address space has its root and one table for each part of the way to a page that is mapped, and no other. -/
theorem spaceRun_accounts (h : SpaceRun regions reservations memory spaces) :
    (∀ page, memory.physical.Out page ↔ spaces.Uses page ∨
      ∃ rootAddress p, spaces.Needs rootAddress p ∧ tableAt memory rootAddress p = page * pageSize) ∧
    (∀ rootAddress rootAddress' p p', spaces.Needs rootAddress p → spaces.Needs rootAddress' p' →
      tableAt memory rootAddress p = tableAt memory rootAddress' p' → rootAddress = rootAddress' ∧ p = p') ∧
    (∀ rootAddress p page, spaces.Needs rootAddress p → tableAt memory rootAddress p = page * pageSize → ¬spaces.Uses page) ∧
    ∀ rootAddress number page, spaces.Owns rootAddress number page → ¬spaces.held page ∧
      ∀ rootAddress' number', spaces.Owns rootAddress' number' page → rootAddress = rootAddress' ∧ number = number' := by
  obtain ⟨trees, htrees⟩ := refines_run h
  refine ⟨fun page => ?_, fun rootAddress rootAddress' p p' hn hn' hsame => ?_, fun rootAddress p page hn hpage hx => ?_,
    fun rootAddress number page ho => ?_⟩
  · rw [htrees.tables.out]
    constructor
    · rintro (hx | ⟨root, t, ht, hx | hx⟩)
      · exact Or.inl (Or.inl hx)
      · exact Or.inr ⟨root * pageSize, (htrees.has_iff ht).mp hx⟩
      · exact Or.inl (htrees.uses_iff.mpr (Or.inr ⟨root, t, ht, hx⟩))
    · rintro (hx | ⟨rootAddress, p, hn, hpage⟩)
      · exact (htrees.uses_iff.mp hx).imp_right fun ⟨root, t, ht, hy⟩ => ⟨root, t, ht, Or.inr hy⟩
      · obtain ⟨root, t, -, rfl, ht, -, -⟩ := htrees.table hn
        exact Or.inr ⟨root, t, ht, Or.inl ((htrees.has_iff ht).mpr ⟨p, hn, hpage⟩)⟩
  · obtain ⟨root, t, page, rfl, ht, hp, hpage⟩ := htrees.table hn
    obtain ⟨root', t', page', rfl, ht', hp', hpage'⟩ := htrees.table hn'
    have hnumber := Nat.eq_of_mul_eq_mul_right (by decide) (hpage.symm.trans (hsame.trans hpage'))
    rw [← hnumber] at hp'
    have hroot := htrees.tables.apart ht ht' (Or.inl ⟨p, hp⟩) (Or.inl ⟨p', hp'⟩)
    subst hroot
    cases ht.symm.trans ht'
    exact ⟨rfl, t.distinct hp hp'⟩
  · obtain ⟨root, t, -, rfl, ht, -, -⟩ := htrees.table hn
    have hhas := (htrees.has_iff ht).mpr ⟨p, hn, hpage⟩
    rcases htrees.uses_iff.mp hx with hx | ⟨other, u, hu, hx⟩
    · exact htrees.tables.held ht hx (Or.inl hhas)
    · have hroot := htrees.tables.apart ht hu (Or.inl hhas) (Or.inr hx)
      subst hroot
      cases ht.symm.trans hu
      exact (htrees.tables.tree ht).owned hx hhas
  · exact ⟨htrees.not_held_of_owns ho, fun rootAddress' number' => htrees.owns_single ho⟩

theorem spaceRun_accounts_first : (memoryAfter firstCalls).physical.Out 2 ∧ ¬firstSpaces.Uses 1 := by
  obtain ⟨hout, -, htables, -⟩ := spaceRun_accounts firstSpaces_run
  have howns : firstSpaces.Owns pageSize (userVirtualStart / pageSize) 2 := ⟨_, rfl, _, rfl, by decide⟩
  exact ⟨(hout 2).mpr (Or.inl (Or.inr ⟨_, _, howns⟩)), htables pageSize [] 1 ⟨_, rfl, Or.inl rfl⟩ rfl⟩

/-- The destruction of an address space succeeds and gives back its tables and the pages that go with its mappings, and no other
    page. When the callers hold nothing and it was the last address space, no page is allocated. -/
theorem spaceRun_destroys (h : SpaceRun regions reservations memory spaces) (hs : (spaces.map rootAddress).isSome) :
    ∃ m, VirtualMemory.virtualAddressSpaceDestroy ⟨rootAddress⟩ memory = (.ok ⟨0⟩, m) ∧ m.halted = false ∧
      (∀ page, m.physical.Out page ↔ memory.physical.Out page ∧ ¬((∃ number, spaces.Owns rootAddress number page) ∨
        ∃ p, spaces.Needs rootAddress p ∧ tableAt memory rootAddress p = page * pageSize)) ∧
      ((∀ page, ¬spaces.held page) → (∀ other, other ≠ rootAddress → spaces.map other = none) → m.physical.allocatedPageCount = 0) := by
  obtain ⟨trees, htrees⟩ := refines_run h
  obtain ⟨root, t, map, rfl, ht, hmap, -⟩ := htrees.live hs
  have hspec := (htrees.tables.holds ht).virtualAddressSpaceDestroy (htrees.tables.root_ne ht)
  rcases hr : VirtualMemory.virtualAddressSpaceDestroy ⟨root * pageSize⟩ memory with ⟨r, m⟩
  cases r with
  | error e => exact (wp_error hspec hr).elim
  | ok v =>
    obtain ⟨rfl, hleaves⟩ := wp_ok hspec hr
    refine ⟨m, rfl, ?_, fun page => (hleaves.physical.out page).trans ?_, fun hheld hother => hleaves.physical.sound.allocated_zero fun page hx => ?_⟩
    · rw [hleaves.others]
      exact htrees.tables.halted
    · have howns : (∃ number, spaces.Owns (root * pageSize) number page) ↔ t.Owns page := by
        constructor
        · rintro ⟨number, ho⟩
          obtain ⟨root', t', mapping, hroot, ht', -, hv, howned, hpage⟩ := htrees.owns ho
          have hsame := Nat.eq_of_mul_eq_mul_right (by decide) hroot
          subst hsame
          cases ht.symm.trans ht'
          exact ⟨_, mapping, hv, howned, hpage⟩
        · intro ho
          obtain ⟨rootAddress, number, ho'⟩ := htrees.owns_iff.mpr ⟨root, t, ht, ho⟩
          obtain ⟨root', t', mapping, rfl, ht', -, hv, howned, hpage⟩ := htrees.owns ho'
          have hsame := htrees.tables.apart ht' ht (Or.inr ⟨_, mapping, hv, howned, hpage⟩) (Or.inr ho)
          subst hsame
          exact ⟨number, ho'⟩
      rw [howns, ← htrees.has_iff ht, htrees.tables.out]
      constructor
      · rintro (hx | ⟨other, u, hne, hu, hx⟩)
        · exact ⟨Or.inl hx, fun hy => htrees.tables.held ht hx hy.symm⟩
        · exact ⟨Or.inr ⟨other, u, hu, hx⟩, fun hy => hne (htrees.tables.apart hu ht hx hy.symm)⟩
      · rintro ⟨hx | ⟨other, u, hu, hx⟩, hout⟩
        · exact Or.inl hx
        · refine Or.inr ⟨other, u, ?_, hu, hx⟩
          rintro rfl
          cases ht.symm.trans hu
          exact hout hx.symm
    · rcases (hleaves.physical.out page).mp hx with hx | ⟨other, u, hne, hu, -⟩
      · exact hheld page hx
      · obtain ⟨map', hs', -⟩ := htrees.map hu
        rw [hother _ (HoldsTables.address_ne hne)] at hs'
        cases hs'

theorem spaceRun_destroys_first :
    ∃ m, VirtualMemory.virtualAddressSpaceDestroy ⟨pageSize⟩ (memoryAfter firstCalls) = (.ok ⟨0⟩, m) ∧ m.halted = false := by
  obtain ⟨m, hr, hhalted, -⟩ := @spaceRun_destroys _ _ _ _ pageSize firstSpaces_run rfl
  exact ⟨m, hr, hhalted⟩

/-- Outside of the user addresses every address space has the mappings of the kernel. -/
theorem spaceRun_kernel (h : SpaceRun regions reservations memory spaces) (hs : (spaces.map rootAddress).isSome)
    (haddress : ¬IsUser (pml4Index address)) : memory.virtualTranslate (some ⟨rootAddress⟩) address true =
      memory.virtualTranslate (some ⟨memory.kernelRootAddress⟩) address true := by
  obtain ⟨trees, htrees⟩ := refines_run h
  obtain ⟨root, t, -, rfl, ht, -, -⟩ := htrees.live hs
  have hentry := (htrees.tables.tree ht).kernel haddress
  have hroot := (htrees.tables.holds ht).root_ne_zero
  unfold VirtualMemory.virtualTranslate
  dsimp only
  rw [hentry]
  simp only [hroot, htrees.tables.nonzero, false_or]

theorem spaceRun_kernel_first : (memoryAfter firstCalls).virtualTranslate (some ⟨pageSize⟩) 0 true =
    (memoryAfter firstCalls).virtualTranslate (some ⟨(memoryAfter firstCalls).kernelRootAddress⟩) 0 true :=
  spaceRun_kernel firstSpaces_run rfl fun hx => absurd hx.1 (by decide)

end Runs

end InferenceOS
