import InferenceOS.Theorems.PageTables

/-! Each walk through the levels of the page tables: `ensure_next_table`, `map_one` and `unmap_one` keep the tree of tables, and
    leave no table without entries. -/

namespace InferenceOS
open Program PageTree PageEntry VirtualMemory Function RadixTree

inductive Grown (t : PageTree) (p : List (Fin pageTableEntryCount)) (i : Fin pageTableEntryCount) (b : Nat) : Bool → PageTree → Prop
  | old (h : t.node (p ++ [i]) = some b) : Grown t p i b false t
  | new (hp : (t.node p).isSome) (hd : p.length < 3) (hb : ∀ q, t.node q ≠ some b) (h : t.node (p ++ [i]) = none) :
    Grown t p i b true (t.link p i b hp hd hb)

namespace Grown
variable {t u : PageTree} {p q : List (Fin pageTableEntryCount)} {i : Fin pageTableEntryCount} {b c : Nat} {created : Bool}

theorem node (h : Grown t p i b created u) : u.node (p ++ [i]) = some b := by
  cases h with
  | old h => exact h
  | new hp hd hb h => exact node_link_self

theorem value (h : Grown t p i b created u) : u.value = t.value := by
  cases h with
  | old h => rfl
  | new hp hd hb h => rfl

theorem mono (h : Grown t p i b created u) (hq : t.node q = some c) : u.node q = some c := by
  cases h with
  | old h => exact hq
  | new hp hd hb h =>
    rw [node_link_of_ne]
    · exact hq
    · rintro rfl
      rw [h] at hq
      cases hq

theorem pruned (h : Grown t p i b created u) (hp : t.PrunedBut p) : u.PrunedBut (p ++ [i]) := by
  cases h with
  | old h => exact hp.mono (List.prefix_append p [i])
  | new hp' hd hb h => exact hp.link

end Grown

namespace HoldsTables
variable {base memory : VirtualMemory} {root a b page address : Nat} {t u : PageTree} {rest : Nat → Prop}
variable {Q : Unit → VirtualMemory → Prop} {E : IosError → VirtualMemory → Prop}
  {p q : List (Fin pageTableEntryCount)} {i : Fin pageTableEntryCount} {mapping : UserMapping}

theorem wp_freePage (hs : memory.physical.Sound) (hpage : memory.physical.Out page)
    (hq : ∀ physical, memory.physical.Turns physical (fun other => memory.physical.Out other ∧ other ≠ page) → Q () { memory with physical }) :
    wp (freePage (page * pageSize)) Q E memory := by
  have hout : ∀ other, page ≤ other → other < page + 1 → memory.physical.Out other := by
    intro other h₁ h₂
    rwa [show other = page by omega]
  unfold freePage onPhysical
  rw [wp_bind, wp_attempt, wp_zoom]
  refine wp_mono (hs.givePages Nat.one_pos hout) (fun _ physical hturns => ?_) fun _ _ hx => hx.elim
  refine hq physical (hturns.congr fun other => ?_)
  exact and_congr_right fun _ => ⟨fun hx hy => hx (by omega), fun hx hy => hx (by omega)⟩

theorem ensureNextTable (h : HoldsTables base root t rest memory) (ha : t.node p = some a) (hd : p.length < 3) (hi : p = [] → IsUser i) :
    wp (VirtualMemory.ensureNextTable ⟨a * pageSize, i⟩ true)
      (fun r m => ∃ b u, r.1 = b * pageSize ∧ Grown t p i b r.2 u ∧ HoldsTables base root u rest m)
      (fun e m => e = .noMemory ∧ HoldsTables base root t rest m) memory := by
  have hword : memory.load ⟨a * pageSize, i⟩ = t.word (p ++ [i]) := h.words ha hi
  unfold VirtualMemory.ensureNextTable
  rw [wp_bind, wp_get]
  cases hnode : t.node (p ++ [i]) with
  | some b =>
    have hb := h.lt_of_node hnode
    rw [word_node hnode] at hword
    dsimp only
    rw [hword, if_pos (tableEntry_present hb), wp_bind, wp_failIf, if_pos rfl, tableEntry_user]
    refine ⟨fun hx => absurd (tableEntry_small hb) hx, fun _ => ?_⟩
    rw [wp_bind, wp_modify, wp_pure]
    refine ⟨b, t, tableFromEntry_tableEntry hb, .old hnode, ?_⟩
    have hsame : store ⟨a * pageSize, i⟩ (tableEntry b) memory = memory := by
      unfold store
      rw [← hword]
      unfold load
      rw [update_eq_self, update_eq_self]
    rwa [hsame]
  | none =>
    rw [word_none hnode (word_inner hd)] at hword
    dsimp only
    rw [hword, if_neg (by decide), wp_bind, onPhysical, wp_zoom]
    refine wp_mono h.physical.sound.takePages ?_ fun e physical ⟨he, hturns⟩ => ⟨he Nat.one_pos, h.turn hturns⟩
    rintro address physical ⟨b, rfl, -, -, -, hnew, hturns⟩
    simp only [wp_bind, wp_modify, wp_pure]
    have hfresh : ¬memory.physical.Out b := hnew b le_rfl (Nat.lt_succ_self b)
    have hb : ∀ q, t.node q ≠ some b := fun q hq => hfresh (h.out ⟨q, hq⟩)
    have hsome : (t.node p).isSome := Option.isSome_of_eq_some ha
    have hturns' : memory.physical.Turns physical fun page => page = b ∨ memory.physical.Out page := by
      refine hturns.congr fun page => ?_
      exact or_congr_left ⟨fun hx => by omega, fun hx => by omega⟩
    exact ⟨b, t.link p i b hsome hd hb, rfl, .new hsome hd hb hnode, h.link ha hd hi hnode hfresh hturns' hsome hb⟩

theorem undoTable {created : Bool} (hg : Grown t p i b created u) (h : HoldsTables base root u rest memory) (ha : t.node p = some a)
    (hi : p = [] → IsUser i) (hq : ∀ m, HoldsTables base root t rest m → Q () m) :
    wp (VirtualMemory.undoTable created ⟨a * pageSize, i⟩ (b * pageSize)) Q E memory := by
  have hb := hg.node
  have hau := hg.mono ha
  cases hg with
  | old hold => exact hq memory h
  | new hp hd hfresh hfree =>
    unfold VirtualMemory.undoTable
    rw [if_pos rfl, wp_bind, wp_modify]
    refine wp_freePage h.physical.sound (h.out ⟨_, hb⟩) fun physical hturns => hq _ ?_
    have hcut := h.unlink hau hi hb (not_alive_link hfree) hturns
    rwa [cutAt_link hfree] at hcut

theorem mapOne (h : HoldsTables base root t rest memory) (hp : t.Pruned) (haddress : IsUserAddress address)
    (hrest : mapping.Owned → rest mapping.page) :
    wp (VirtualMemory.mapOne ⟨root * pageSize⟩ address (mapping.page * pageSize) mapping.flags)
      (fun _ m => ∃ u, HoldsTables base root u (fun page => rest page ∧ ¬(mapping.Owned ∧ mapping.page = page)) m ∧ u.Pruned ∧
        t.value (tablePath address) = none ∧ u.value = update t.value (tablePath address) (some mapping) ∧
        ∀ q c, t.node q = some c → u.node q = some c)
      (fun e m => HoldsTables base root t rest m ∧ (e = .noMemory ∨ e = .alreadyExists ∧ (t.value (tablePath address)).isSome)) memory := by
  have hi : ([] : List (Fin pageTableEntryCount)) = [] → IsUser (pml4Index address) := fun _ => isUser_pml4Index haddress
  unfold VirtualMemory.mapOne
  dsimp only
  rw [decide_eq_true mapping.user, wp_bind]
  refine wp_mono (h.ensureNextTable h.top (by decide) hi) ?_ fun e m ⟨he, hm⟩ => ⟨hm, Or.inl he⟩
  rintro ⟨pdpt, createdPdpt⟩ m₁ ⟨b₁, t₁, rfl, hg₁, h₁⟩
  rw [wp_bind, wp_attempt]
  refine wp_mono (h₁.ensureNextTable hg₁.node (by simp) nofun) ?_ fun e m ⟨he, hm⟩ => ?_
  rotate_left
  · -- The second table could not be made.
    dsimp only
    rw [wp_bind]
    exact undoTable hg₁ hm h.top hi fun m' hm' => ⟨hm', Or.inl he⟩
  rintro ⟨pd, createdPd⟩ m₂ ⟨b₂, t₂, rfl, hg₂, h₂⟩
  dsimp only
  rw [wp_bind, wp_attempt]
  refine wp_mono (h₂.ensureNextTable hg₂.node (by simp) nofun) ?_ fun e m ⟨he, hm⟩ => ?_
  rotate_left
  · -- The third table could not be made.
    dsimp only
    rw [wp_bind]
    refine undoTable hg₂ hm hg₁.node nofun fun m' hm' => ?_
    rw [wp_bind]
    exact undoTable hg₁ hm' h.top hi fun m'' hm'' => ⟨hm'', Or.inl he⟩
  rintro ⟨pt, createdPt⟩ m₃ ⟨b₃, t₃, rfl, hg₃, h₃⟩
  dsimp only
  rw [wp_bind, wp_get]
  have hvalue : t₃.value = t.value := by rw [hg₃.value, hg₂.value, hg₁.value]
  have hload : m₃.load ⟨b₃ * pageSize, ptIndex address⟩ = t₃.word (tablePath address) := h₃.words hg₃.node nofun
  rw [hload]
  have hlast : t₃.node (tablePath address) = none := word_last (p := [pml4Index address, pdptIndex address, pdIndex address]) rfl
  cases hleaf : t.value (tablePath address) with
  | some other =>
    rw [word_value hlast ((congrFun hvalue _).trans hleaf), if_pos leaf_present, wp_bind]
    refine undoTable hg₃ h₃ hg₂.node nofun fun m' hm' => ?_
    rw [wp_bind]
    refine undoTable hg₂ hm' hg₁.node nofun fun m'' hm'' => ?_
    rw [wp_bind]
    exact undoTable hg₁ hm'' h.top hi fun m₄ hm₄ => ⟨hm₄, Or.inr ⟨rfl, rfl⟩⟩
  | none =>
    have hnone := (congrFun hvalue (tablePath address)).trans hleaf
    rw [word_none hlast hnone, if_neg (by decide), wp_modify]
    have hsome : (t₃.node [pml4Index address, pdptIndex address, pdIndex address]).isSome := Option.isSome_of_eq_some hg₃.node
    have hpruned := hg₃.pruned (hg₂.pruned (hg₁.pruned hp))
    refine ⟨t₃.insert _ (ptIndex address) mapping hsome rfl, h₃.insert hg₃.node rfl hnone hrest hsome, hpruned.insert, rfl, ?_,
      fun q c hq => hg₃.mono (hg₂.mono (hg₁.mono hq))⟩
    funext q
    by_cases hq : q = tablePath address
    · rw [hq, update_self]
      exact value_insert_self
    · rw [update_of_ne hq, ← hvalue]
      exact value_insert_of_ne hq

theorem tableIsEmpty_iff (h : HoldsTables base root t rest memory) (hb : t.node p = some b) (hp : p ≠ []) :
    tableIsEmpty (memory.words (b * pageSize)) = true ↔ ¬t.Alive p := by
  have hzero : ∀ j, memory.words (b * pageSize) j = 0 ↔ t.node (p ++ [j]) = none ∧ t.value (p ++ [j]) = none := by
    intro j
    rw [h.words hb fun hx => absurd hx hp]
    cases hn : t.node (p ++ [j]) with
    | some c =>
      rw [word_node hn]
      exact ⟨fun hx => absurd hx (tableEntry_ne_zero (h.lt_of_node hn)), fun hx => by cases hx.1⟩
    | none =>
      cases hv : t.value (p ++ [j]) with
      | some other =>
        rw [word_value hn hv]
        exact ⟨fun hx => absurd hx leaf_ne_zero, fun hx => by cases hx.2⟩
      | none => exact ⟨fun _ => ⟨rfl, rfl⟩, fun _ => word_none hn hv⟩
  unfold tableIsEmpty
  rw [decide_eq_true_eq]
  constructor
  · rintro hall ⟨j, hx | hx⟩
    · rw [((hzero j).mp (hall j)).1] at hx
      cases hx
    · rw [((hzero j).mp (hall j)).2] at hx
      cases hx
  · intro hnone j
    refine (hzero j).mpr ⟨?_, ?_⟩
    · exact Option.not_isSome_iff_eq_none.mp fun hx => hnone ⟨j, Or.inl hx⟩
    · exact Option.not_isSome_iff_eq_none.mp fun hx => hnone ⟨j, Or.inr hx⟩

-- Otherwise the elaborator would run through the 512 entries of a table.
attribute [local irreducible] tableIsEmpty

theorem dropEmptyTable (h : HoldsTables base root t rest memory) (hp : t.PrunedBut (p ++ [i])) (ha : t.node p = some a)
    (hb : t.node (p ++ [i]) = some b) (hi : p = [] → IsUser i) (hq : ∀ u m, HoldsTables base root u rest m → u.PrunedBut p → u.value = t.value →
      (∀ q c, u.node q = some c → t.node q = some c) →
      (∀ q, ¬p ++ [i] <+: q → u.node q = t.node q) → Q () m) :
    wp (VirtualMemory.dropEmptyTable ⟨a * pageSize, i⟩ (b * pageSize)) Q E memory := by
  unfold VirtualMemory.dropEmptyTable
  rw [wp_bind, wp_get, wp_ite]
  refine ⟨fun hx => ?_, fun hx => ?_⟩
  rotate_left
  · rw [wp_pure]
    have halive : t.Alive (p ++ [i]) := Classical.byContradiction fun hempty => hx ((h.tableIsEmpty_iff hb (by simp)).mpr hempty)
    exact hq t memory h (hp.alive halive) rfl (fun _ _ hx => hx) fun _ _ => rfl
  · have hempty := (h.tableIsEmpty_iff hb (by simp)).mp hx
    rw [wp_bind, wp_modify]
    refine wp_freePage h.physical.sound (h.out ⟨_, hb⟩) fun physical hturns => ?_
    refine hq _ _ (h.unlink ha hi hb hempty hturns) hp.cutAt (funext fun q => ?_) (fun q c hx => (node_cutAt_eq_some.mp hx).2)
      fun q hx => node_cutAt_of_not hx
    by_cases hx : p ++ [i] <+: q
    · refine (value_cut_of hx).trans ?_
      by_contra hy
      have hsome : (t.value q).isSome := Option.isSome_iff_ne_none.mpr (Ne.symm hy)
      by_cases hne : q = p ++ [i]
      · have := value_length hsome
        have := t.shallow (Option.isSome_of_eq_some hb)
        rw [hne] at *
        omega
      · exact hempty (RadixTree.Alive.of_below hx hne (Or.inr hsome))
    · exact value_cutAt_of_not hx

theorem tables_of_value (hvalue : t.value (tablePath address) = some mapping) :
    ∃ b₁ b₂ b₃, t.node [pml4Index address] = some b₁ ∧ t.node [pml4Index address, pdptIndex address] = some b₂ ∧
      t.node [pml4Index address, pdptIndex address, pdIndex address] = some b₃ := by
  obtain ⟨q, i, hq, hn, -⟩ := t.hung (Option.isSome_of_eq_some hvalue)
  have hsplit : q = [pml4Index address, pdptIndex address, pdIndex address] :=
    (List.append_inj' (show [pml4Index address, pdptIndex address, pdIndex address] ++ [ptIndex address] = q ++ [i] from hq) rfl).1.symm
  rw [hsplit] at hn
  obtain ⟨b₁, h₁⟩ := Option.isSome_iff_exists.mp (node_of_isPrefix (show [pml4Index address] <+: _ from ⟨[_, _], rfl⟩) hn)
  obtain ⟨b₂, h₂⟩ := Option.isSome_iff_exists.mp
    (node_of_isPrefix (show [pml4Index address, pdptIndex address] <+: _ from ⟨[_], rfl⟩) hn)
  obtain ⟨b₃, h₃⟩ := Option.isSome_iff_exists.mp hn
  exact ⟨b₁, b₂, b₃, h₁, h₂, h₃⟩

def restAfter (rest : Nat → Prop) (mapping : UserMapping) (releaseOwnedPage : Bool) (page : Nat) : Prop :=
  rest page ∨ (releaseOwnedPage = false ∧ mapping.Owned ∧ mapping.page = page)

theorem dropEmptyTables {b₁ b₂ b₃ : Nat} (h : HoldsTables base root t rest memory)
    (hp : t.PrunedBut [pml4Index address, pdptIndex address, pdIndex address]) (huser : IsUser (pml4Index address))
    (hb₁ : t.node [pml4Index address] = some b₁) (hb₂ : t.node [pml4Index address, pdptIndex address] = some b₂)
    (hb₃ : t.node [pml4Index address, pdptIndex address, pdIndex address] = some b₃) :
    wp (do
        VirtualMemory.dropEmptyTable ⟨b₂ * pageSize, pdIndex address⟩ (b₃ * pageSize)
        VirtualMemory.dropEmptyTable ⟨b₁ * pageSize, pdptIndex address⟩ (b₂ * pageSize)
        VirtualMemory.dropEmptyTable ⟨root * pageSize, pml4Index address⟩ (b₁ * pageSize))
      (fun _ m => ∃ u, HoldsTables base root u rest m ∧ u.Pruned ∧ u.value = t.value ∧ ∀ q c, u.node q = some c → t.node q = some c)
      (fun _ _ => False) memory := by
  rw [wp_bind]
  refine h.dropEmptyTable (p := [pml4Index address, pdptIndex address]) hp hb₂ hb₃ nofun fun u₁ m₁ hu₁ hp₁ hv₁ hn₁ hs₁ => ?_
  rw [wp_bind]
  refine hu₁.dropEmptyTable (p := [pml4Index address]) hp₁ ?_ ?_ nofun fun u₂ m₂ hu₂ hp₂ hv₂ hn₂ hs₂ => ?_
  · rw [hs₁ _ (by simp), hb₁]
  · show u₁.node [pml4Index address, pdptIndex address] = _
    rw [hs₁ _ (by simp), hb₂]
  refine hu₂.dropEmptyTable (p := []) hp₂ hu₂.top ?_ (fun _ => huser) fun u₃ m₃ hu₃ hp₃ hv₃ hn₃ _ => ?_
  · show u₂.node [pml4Index address] = _
    rw [hs₂ _ (by simp), hs₁ _ (by simp), hb₁]
  · exact ⟨u₃, hu₃, hp₃, by rw [hv₃, hv₂, hv₁], fun q c hq => hn₁ q c (hn₂ q c (hn₃ q c hq))⟩

theorem unmapOne (h : HoldsTables base root t rest memory) (hp : t.Pruned) (hvalue : t.value (tablePath address) = some mapping)
    (releaseOwnedPage : Bool) :
    wp (VirtualMemory.unmapOne ⟨root * pageSize⟩ address releaseOwnedPage)
      (fun _ m => ∃ u, HoldsTables base root u (restAfter rest mapping releaseOwnedPage) m ∧ u.Pruned ∧
        u.value = update t.value (tablePath address) none ∧ ∀ q c, u.node q = some c → t.node q = some c)
      (fun _ _ => False) memory := by
  obtain ⟨b₁, b₂, b₃, hb₁, hb₂, hb₃⟩ := tables_of_value hvalue
  have huser : IsUser (pml4Index address) := h.user (Option.isSome_of_eq_some hb₁)
  have hw₁ : memory.load ⟨root * pageSize, pml4Index address⟩ = tableEntry b₁ :=
    (h.words h.top fun _ => huser).trans (word_node hb₁)
  have hw₂ : memory.load ⟨b₁ * pageSize, pdptIndex address⟩ = tableEntry b₂ := (h.words hb₁ nofun).trans (word_node hb₂)
  have hw₃ : memory.load ⟨b₂ * pageSize, pdIndex address⟩ = tableEntry b₃ := (h.words hb₂ nofun).trans (word_node hb₃)
  have hlast : t.node (tablePath address) = none := word_last (p := [pml4Index address, pdptIndex address, pdIndex address]) rfl
  have hw₄ : memory.load ⟨b₃ * pageSize, ptIndex address⟩ = mapping.leaf := (h.words hb₃ nofun).trans (word_value hlast hvalue)
  have hpass : ∀ {c}, c < 2 ^ 40 → ¬(tableEntry c &&& ptePresent = 0 ∨ tableEntry c &&& pteLarge ≠ 0) := fun hc hx =>
    hx.elim (fun hy => tableEntry_present hc hy) fun hy => hy (tableEntry_small hc)
  have hl₁ := h.lt_of_node hb₁
  have hl₂ := h.lt_of_node hb₂
  have hl₃ := h.lt_of_node hb₃
  unfold VirtualMemory.unmapOne
  rw [wp_bind, wp_get]
  dsimp only
  rw [hw₁, wp_bind, wp_failIf, tableFromEntry_tableEntry hl₁, hw₂]
  refine ⟨fun hx => hpass hl₁ hx, fun _ => ?_⟩
  rw [wp_bind, wp_failIf, tableFromEntry_tableEntry hl₂, hw₃]
  refine ⟨fun hx => hpass hl₂ hx, fun _ => ?_⟩
  rw [wp_bind, wp_failIf, tableFromEntry_tableEntry hl₃, hw₄]
  refine ⟨fun hx => hpass hl₃ hx, fun _ => ?_⟩
  rw [wp_bind, wp_failIf]
  refine ⟨fun hx => leaf_present hx, fun _ => ?_⟩
  rw [wp_bind, wp_modify]
  have hremoved := h.remove hb₃ rfl (i := ptIndex address) hvalue
  have hnodes : node (t.cutAt (tablePath address)) = t.node := node_cutAt_leaf rfl
  have hvalues : value (t.cutAt (tablePath address)) = update t.value (tablePath address) none :=
    value_cutAt_leaf rfl
  have hcut : (t.cutAt (tablePath address)).PrunedBut [pml4Index address, pdptIndex address, pdIndex address] :=
    RadixTree.PrunedBut.cutAt (p := [pml4Index address, pdptIndex address, pdIndex address]) (i := ptIndex address) hp.but
  rw [← hnodes] at hb₁ hb₂ hb₃
  have hdrop : ∀ m, HoldsTables base root (t.cutAt (tablePath address)) (restAfter rest mapping releaseOwnedPage) m →
      wp _ _ _ m := fun m hm => hm.dropEmptyTables hcut huser hb₁ hb₂ hb₃
  rw [hvalues, hnodes] at hdrop
  rw [wp_ite]
  refine ⟨fun hx => ?_, fun hx => ?_⟩
  · have hrelease : releaseOwnedPage = true ∧ mapping.Owned := ⟨hx.1, leaf_owned.mp hx.2⟩
    rw [wp_bind, tableFromEntry_leaf]
    refine wp_freePage hremoved.physical.sound ?_ fun physical hturns => hdrop _ ?_
    · exact (h.physical.out _).mpr (Or.inr (Or.inl ⟨_, mapping, hvalue, hrelease.2, rfl⟩))
    · refine (hremoved.release (Or.inr ⟨hrelease.2, rfl⟩) hturns).congr fun page => ?_
      unfold restAfter
      rw [hrelease.1]
      constructor
      · rintro ⟨hx | hx, hne⟩
        · exact Or.inl hx
        · exact absurd hx.2.symm hne
      · rintro (hx | hx)
        · exact ⟨Or.inl hx, fun hy => (h.apart hx).2 ⟨_, mapping, hvalue, hrelease.2, hy.symm⟩⟩
        · cases hx.1
  · have hrelease : ¬(releaseOwnedPage = true ∧ mapping.Owned) := fun hy => hx ⟨hy.1, leaf_owned.mpr hy.2⟩
    refine hdrop _ (hremoved.congr fun page => ?_)
    unfold restAfter
    constructor
    · rintro (hx | hx)
      · exact Or.inl hx
      · exact Or.inr ⟨Bool.eq_false_of_not_eq_true fun hy => hrelease ⟨hy, hx.1⟩, hx⟩
    · rintro (hx | hx)
      · exact Or.inl hx
      · exact Or.inr hx.2

end HoldsTables
end InferenceOS
