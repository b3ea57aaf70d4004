import InferenceOS.Theorems.PageWalks

/-! Address spaces as a whole: `virtual_map_pages` and `virtual_unmap_pages` on ranges of user pages, `virtual_translate` and
    `virtual_query`, the creation of an address space and its destruction. -/

namespace InferenceOS
open Program PageTree PageEntry VirtualMemory Function

-- Otherwise the elaborator would run the loops over the 512 entries of a table.
attribute [local irreducible] wp

namespace HoldsTables
variable {base memory : VirtualMemory} {root a b page : Nat} {t u : PageTree} {rest : Nat → Prop}
  {p : List (Fin pageTableEntryCount)} {i : Fin pageTableEntryCount} {mapping : UserMapping}

theorem destroyTable : ∀ {level : Nat} {memory : VirtualMemory} {t : PageTree} {p : List (Fin pageTableEntryCount)} {a : Nat},
    HoldsTables base root t rest memory → t.node p = some a → p ≠ [] → p.length + level = 4 →
    wp (VirtualMemory.destroyTable level (a * pageSize)) (fun _ m => HoldsTables base root (t.clear p) rest m ) (fun _ _ => False) memory
  | 0, memory, t, p, a, h, ha, _, hlevel => by
    have := t.shallow (Option.isSome_of_eq_some ha)
    omega
  | level + 1, memory, t, p, a, h, ha, hp, hlevel => by
    rw [← RadixTree.foldl_cutAt_eq_clear (List.mem_finRange (n := pageTableEntryCount)), VirtualMemory.destroyTable]
    have hloop := fun f hf => @wp_each_foldl IosError _ _ _ f (fun u i => u.cutAt (p ++ [i])) (fun u m => HoldsTables base root u rest m ∧ u.node p = some a)
      (fun _ _ => False) (List.finRange pageTableEntryCount) hf t memory ⟨h, ha⟩
    refine wp_mono (hloop _ ?_) (fun _ m hm => hm.1) fun _ _ hx => hx
    rintro i - u m ⟨hu, hau⟩
    have hword : m.words (a * pageSize) i = u.word (p ++ [i]) := hu.words hau fun hx => absurd hx hp
    rw [wp_bind, wp_get]
    dsimp only
    have hself : RadixTree.node (u.cutAt (p ++ [i])) p = some a := by
      refine (RadixTree.node_cutAt_of_not fun hx => ?_).trans hau
      exact RadixTree.not_below_self ⟨i, hx⟩
    rw [hword]
    cases hnode : u.node (p ++ [i]) with
    | some b =>
      have hb := hu.lt_of_node hnode
      have hlength := u.shallow (Option.isSome_of_eq_some hnode)
      rw [List.length_append, List.length_singleton] at hlength
      rw [word_node hnode, if_neg (tableEntry_present hb), if_neg fun hx => hx.elim (by omega) fun hy => hy (tableEntry_small hb),
        tableFromEntry_tableEntry hb, wp_bind]
      refine wp_mono (destroyTable hu hnode (by simp) (by rw [List.length_append, List.length_singleton]; omega)) (fun _ m' hm' => ?_)
        fun _ _ hx => hx
      have hb' : RadixTree.node (u.clear (p ++ [i])) (p ++ [i]) = some b := RadixTree.node_clear_self.trans hnode
      have ha' : RadixTree.node (u.clear (p ++ [i])) p = some a := by
        refine (RadixTree.node_cut_of_not (h := RadixTree.Below.mono) fun ⟨j, hj⟩ => ?_).trans hau
        have := hj.length_le
        simp only [List.length_append, List.length_singleton] at this
        omega
      rw [wp_bind]
      refine wp_freePage hm'.physical.sound (hm'.out ⟨_, hb'⟩) fun physical hturns => ?_
      rw [wp_modify]
      have hcut := hm'.unlink ha' (fun hx => absurd hx hp) hb' RadixTree.not_alive_clear hturns
      rw [RadixTree.cutAt_clear] at hcut
      exact ⟨hcut, hself⟩
    | none =>
      cases hvalue : u.value (p ++ [i]) with
      | none =>
        rw [word_none hnode hvalue, if_pos (by decide), RadixTree.cutAt_eq_self hnode hvalue, wp_pure]
        exact ⟨hu, hau⟩
      | some mapping =>
        have hlength := RadixTree.value_length (Option.isSome_of_eq_some hvalue)
        rw [List.length_append, List.length_singleton] at hlength
        have hremoved := hu.remove hau (by omega) hvalue
        rw [word_value hnode hvalue, if_neg leaf_present, if_pos (Or.inl (by omega))]
        by_cases howned : mapping.Owned
        · rw [if_pos (leaf_owned.mpr howned), tableFromEntry_leaf, wp_bind]
          have hown : u.Owns mapping.page := ⟨_, mapping, hvalue, howned, rfl⟩
          refine wp_freePage hu.physical.sound ((hu.physical.out _).mpr (Or.inr (Or.inl hown))) fun physical hturns => ?_
          rw [wp_modify]
          refine ⟨(hremoved.release (Or.inr ⟨howned, rfl⟩) hturns).congr fun page => ?_, hself⟩
          constructor
          · rintro ⟨hx | hx, hne⟩
            · exact hx
            · exact absurd hx.2.symm hne
          · exact fun hx => ⟨Or.inl hx, fun hy => (hu.apart hx).2 (hy ▸ hown)⟩
        · rw [if_neg fun hx => howned (leaf_owned.mp hx), wp_modify]
          refine ⟨hremoved.congr fun page => ?_, hself⟩
          exact ⟨fun hx => hx.resolve_right fun hy => howned hy.1, Or.inl⟩

end HoldsTables

structure Leaves (base : VirtualMemory) (rest : Nat → Prop) (memory : VirtualMemory) : Prop where
  others : memory = { base with physical := memory.physical, words := memory.words }
  physical : base.physical.Turns memory.physical rest
  content : ∀ {page}, rest page ∨ base.physical.Closed page → memory.words (page * pageSize) = base.words (page * pageSize)

namespace HoldsTables
variable {base memory : VirtualMemory} {root a b page address : Nat} {t u : PageTree} {rest : Nat → Prop}
  {p q : List (Fin pageTableEntryCount)} {i : Fin pageTableEntryCount} {mapping : UserMapping}

theorem root_ne_zero (h : HoldsTables base root t rest memory) : root * pageSize ≠ 0 := by
  intro hx
  have hzero : root = 0 := (Nat.mul_eq_zero.mp hx).resolve_right (by decide)
  have hout := (h.out ⟨_, h.top⟩).2
  rw [hzero, h.physical.sound.first] at hout
  cases hout

theorem mem_userIndices : i ∈ userIndices ↔ IsUser i := by
  unfold userIndices
  rw [List.mem_filter, decide_eq_true_eq]
  exact and_iff_right (List.mem_finRange i)

theorem clear_root (h : HoldsTables base root t rest memory) :
    userIndices.foldl (fun u i => RadixTree.cutAt u ([] ++ [i])) t = t.clear [] := by
  rw [RadixTree.foldl_cutAt]
  refine RadixTree.ext (funext fun q => Option.ext fun c => ?_) (funext fun q => Option.ext fun c => ?_)
  · unfold RadixTree.clear
    rw [RadixTree.node_cut_eq_some, RadixTree.node_cut_eq_some]
    refine and_congr_left fun hq => not_congr ⟨fun ⟨i, _, hi⟩ => ⟨i, hi⟩, fun ⟨i, hi⟩ => ⟨i, mem_userIndices.mpr ?_, hi⟩⟩
    obtain ⟨rest, rfl⟩ := hi
    exact h.user (p := rest) (Option.isSome_of_eq_some hq)
  · unfold RadixTree.clear
    rw [RadixTree.value_cut_eq_some, RadixTree.value_cut_eq_some]
    refine and_congr_left fun hq => not_congr ⟨fun ⟨i, _, hi⟩ => ⟨i, hi⟩, fun ⟨i, hi⟩ => ⟨i, mem_userIndices.mpr ?_, hi⟩⟩
    obtain ⟨rest, rfl⟩ := hi
    obtain ⟨r, j, hr, hn, hd⟩ := t.hung (Option.isSome_of_eq_some hq)
    cases r with
    | nil => cases hd
    | cons k r =>
      have hk : i = k := (List.cons.inj hr).1
      rw [hk]
      exact h.user hn

theorem virtualAddressSpaceDestroy (h : HoldsTables base root t rest memory) (hkernel : root * pageSize ≠ base.kernelRootAddress) :
    wp (VirtualMemory.virtualAddressSpaceDestroy ⟨root * pageSize⟩) (fun r m => r = ⟨0⟩ ∧ Leaves base rest m) (fun _ _ => False) memory := by
  have hroot : memory.assert (root * pageSize ≠ 0) = memory := if_pos h.root_ne_zero
  have hother : memory.assert (root * pageSize ≠ memory.kernelRootAddress) = memory := by
    refine if_pos ?_
    rw [h.others]
    exact hkernel
  unfold VirtualMemory.virtualAddressSpaceDestroy
  rw [wp_bind, wp_modify, hroot, wp_bind, wp_modify, hother, wp_bind]
  have hloop := fun f hf => @wp_each_foldl IosError _ _ _ f (fun u i => u.cutAt ([] ++ [i])) (fun u m => HoldsTables base root u rest m)
    (fun _ _ => False) userIndices hf t memory h
  rw [h.clear_root] at hloop
  refine wp_mono (hloop _ ?_) (fun _ m (hm : HoldsTables base root (t.clear []) rest m) => ?_) fun _ _ hx => hx
  · intro i hi u m hu
    have huser := mem_userIndices.mp hi
    have hword : m.words (root * pageSize) i = u.word ([] ++ [i]) := hu.words hu.top fun _ => huser
    rw [wp_bind, wp_get]
    dsimp only
    rw [hword]
    cases hnode : u.node ([] ++ [i]) with
    | none =>
      have hvalue : u.value ([] ++ [i]) = none := word_inner (by decide)
      rw [word_none hnode hvalue, if_pos (by decide), RadixTree.cutAt_eq_self hnode hvalue, wp_pure]
      exact hu
    | some b =>
      have hb := hu.lt_of_node hnode
      rw [word_node hnode, if_neg (tableEntry_present hb), tableFromEntry_tableEntry hb, wp_bind]
      refine wp_mono (destroyTable hu hnode (by simp) rfl) (fun _ m' hm' => ?_) fun _ _ hx => hx
      have hb' : RadixTree.node (u.clear ([] ++ [i])) ([] ++ [i]) = some b := RadixTree.node_clear_self.trans hnode
      rw [wp_bind]
      refine wp_freePage hm'.physical.sound (hm'.out ⟨_, hb'⟩) fun physical hturns => ?_
      rw [wp_modify]
      have hcut := hm'.unlink hm'.top (fun _ => huser) hb' RadixTree.not_alive_clear hturns
      rwa [RadixTree.cutAt_clear] at hcut
  · have hnone : ∀ q c, (t.clear []).node q = some c → c = root := by
      intro q c hq
      cases q with
      | nil => exact Option.some.inj (hq.symm.trans hm.top)
      | cons j q => exact absurd ⟨j, q, rfl⟩ (RadixTree.node_cut_eq_some.mp hq).1
    have hvalue : ∀ q other, (t.clear []).value q ≠ some other := by
      intro q other hq
      cases q with
      | nil =>
        have := RadixTree.value_length (Option.isSome_of_eq_some hq)
        cases this
      | cons j q => exact absurd ⟨j, q, rfl⟩ (RadixTree.value_cut_eq_some.mp hq).1
    rw [wp_bind]
    refine wp_freePage hm.physical.sound (hm.out ⟨_, hm.top⟩) fun physical hturns => ?_
    rw [wp_pure]
    refine ⟨rfl, ?_, (hm.physical.trans hturns).congr fun page => ?_, fun hr => hm.content (hr.imp_left Or.inr)⟩
    · rw [hm.others]
    · rw [hm.physical.out]
      constructor
      · rintro ⟨⟨q, hq⟩ | ⟨q, other, hq, -⟩ | hx, hne⟩
        · exact absurd (hnone q page hq) hne
        · exact absurd hq (hvalue q other)
        · exact hx
      · exact fun hx => ⟨Or.inr (Or.inr hx), fun hy => (hm.apart hx).1 (hy ▸ ⟨[], hm.top⟩)⟩

theorem virtualAddressSpaceCreate (hs : memory.physical.Sound) (hsmall : memory.physical.managedPageCount ≤ 2 ^ 40)
    (hkernel : memory.physical.Closed (memory.kernelRootAddress / pageSize)) (out : Bool) :
    wp (VirtualMemory.virtualAddressSpaceCreate out)
      (fun r m => ∃ root, r = ⟨root * pageSize⟩ ∧ ¬memory.physical.Out root ∧ HoldsTables m root (.single root) memory.physical.Out m ∧
        m = { memory with physical := m.physical, words := m.words } ∧
        memory.physical.Turns m.physical (fun page => page = root ∨ memory.physical.Out page) ∧
        (∀ address, address ≠ root * pageSize → m.words address = memory.words address) ∧
        ∀ i, ¬IsUser i → m.words (root * pageSize) i = memory.words memory.kernelRootAddress i)
      (fun _ m => Leaves memory memory.physical.Out m) memory := by
  have hstay : ∀ {physical}, memory.physical.Turns physical memory.physical.Out → Leaves memory memory.physical.Out { memory with physical } :=
    fun hturns => ⟨rfl, hturns, fun _ => rfl⟩
  unfold VirtualMemory.virtualAddressSpaceCreate
  rw [wp_bind, wp_get, wp_bind, wp_failIf]
  refine ⟨fun _ => hstay hs.turns, fun _ => ?_⟩
  rw [wp_bind, onPhysical, wp_zoom]
  refine wp_mono hs.takePages ?_ fun e physical hx => hstay hx.2
  rintro address physical ⟨root, rfl, -, hroot, hlast, hnew, hturns⟩
  rw [wp_bind, wp_modify, wp_bind, wp_modify, wp_pure]
  have hfresh : ¬memory.physical.Out root := hnew root le_rfl (Nat.lt_succ_self root)
  have hturns' : memory.physical.Turns physical fun page => page = root ∨ memory.physical.Out page :=
    hturns.congr fun page => or_congr_left ⟨fun hx => by omega, fun hx => by omega⟩
  have hother : memory.kernelRootAddress ≠ root * pageSize := by
    intro hx
    rw [hx, Nat.mul_div_cancel _ (by decide)] at hkernel
    exact PhysicalMemory.not_closed_of_out ((hturns'.out root).mpr (Or.inl rfl)) ((hturns'.closed root).mpr hkernel)
  generalize hm : ({ zeroPage (root * pageSize) { memory with physical } with words := update _ _ _ } : VirtualMemory) = m
  have hphysical : m.physical = physical := by rw [← hm]; rfl
  have hothers : m = { memory with physical := m.physical, words := m.words } := by rw [← hm]; rfl
  have hwords : ∀ address, address ≠ root * pageSize → m.words address = memory.words address := by
    intro address hne
    rw [← hm]
    exact (update_of_ne hne _ _).trans (update_of_ne hne _ _)
  have hentry : ∀ i, m.words (root * pageSize) i = if i.1 < 2 ∨ 256 ≤ i.1 then memory.words memory.kernelRootAddress i else 0 := by
    intro i
    rw [← hm]
    refine (congrFun (update_self _ _ _) i).trans ?_
    split
    · exact congrFun (zeroPage_words_of_ne { memory with physical } hother) i
    · exact congrFun (zeroPage_words_self { memory with physical } (root * pageSize)) i
  have hhas : ∀ page, Has (.single root) page ↔ page = root := by
    intro page
    constructor
    · rintro ⟨p, hp⟩
      exact (RadixTree.node_single_eq_some.mp hp).2
    · rintro rfl
      exact ⟨[], RadixTree.node_single_eq_some.mpr ⟨rfl, rfl⟩⟩
  have howns : ∀ page, ¬Owns (.single root) page := by
    rintro page ⟨p, mapping, hp, -⟩
    cases hp
  have hsound : m.physical.Sound := hphysical ▸ hturns'.sound
  refine ⟨root, rfl, hfresh, ⟨rfl, hsound.turns.congr fun page => ?_, ?_, RadixTree.node_single_eq_some.mpr ⟨rfl, rfl⟩, fun {i p} hp => ?_,
    fun {page} ho => absurd ho (howns page), fun {page} hr => ⟨fun hx => ?_, howns page⟩, (fun hp => by cases hp), fun {p i a} hp hi => ?_,
    fun _ => rfl, fun _ => rfl⟩, hothers, hphysical ▸ hturns', hwords, fun i hi => ?_⟩
  · rw [hphysical, hturns'.out, hhas]
    exact or_congr_right ⟨Or.inr, fun hx => hx.resolve_left (howns page)⟩
  · rw [hphysical, hturns'.managed]
    exact hsmall
  · obtain ⟨b, hb⟩ := Option.isSome_iff_exists.mp hp
    cases (RadixTree.node_single_eq_some.mp hb).1
  · exact hfresh ((hhas page).mp hx ▸ hr)
  · obtain ⟨rfl, rfl⟩ := RadixTree.node_single_eq_some.mp hp
    have huser := hi rfl
    unfold IsUser at huser
    rw [hentry, if_neg (by omega)]
    exact (word_none (t := .single a) (p := [i]) RadixTree.node_single_cons rfl).symm
  · unfold IsUser at hi
    rw [hentry, if_pos (by omega)]

theorem pass_tableEntry (hb : b < 2 ^ 40) : ¬(tableEntry b &&& ptePresent = 0 ∨ tableEntry b &&& pteLarge ≠ 0) := fun hx =>
  hx.elim (tableEntry_present hb) fun hy => hy (tableEntry_small hb)

theorem node_none (h : t.node p = none) (hpq : p <+: q) : t.node q = none := by
  by_contra hx
  have hp := RadixTree.node_of_isPrefix hpq (Option.isSome_iff_ne_none.mpr hx)
  rw [h] at hp
  cases hp

theorem value_none (h : t.node [pml4Index address, pdptIndex address, pdIndex address] = none) : t.value (tablePath address) = none := by
  cases hvalue : t.value (tablePath address) with
  | none => rfl
  | some mapping =>
    obtain ⟨_, _, b, _, _, hb⟩ := tables_of_value hvalue
    rw [h] at hb
    cases hb

inductive Walk (memory : VirtualMemory) (root address : Nat) : Option Nat → Prop
  | pml4 (h : memory.words (root * pageSize) (pml4Index address) = 0) : Walk memory root address none
  | pdpt {b₁ : Nat} (hl₁ : b₁ < 2 ^ 40) (h₁ : memory.words (root * pageSize) (pml4Index address) = tableEntry b₁)
    (h : memory.words (b₁ * pageSize) (pdptIndex address) = 0) : Walk memory root address none
  | pd {b₁ b₂ : Nat} (hl₁ : b₁ < 2 ^ 40) (h₁ : memory.words (root * pageSize) (pml4Index address) = tableEntry b₁)
    (hl₂ : b₂ < 2 ^ 40) (h₂ : memory.words (b₁ * pageSize) (pdptIndex address) = tableEntry b₂)
    (h : memory.words (b₂ * pageSize) (pdIndex address) = 0) : Walk memory root address none
  | pt {b₁ b₂ b₃ : Nat} (hl₁ : b₁ < 2 ^ 40) (h₁ : memory.words (root * pageSize) (pml4Index address) = tableEntry b₁)
    (hl₂ : b₂ < 2 ^ 40) (h₂ : memory.words (b₁ * pageSize) (pdptIndex address) = tableEntry b₂)
    (hl₃ : b₃ < 2 ^ 40) (h₃ : memory.words (b₂ * pageSize) (pdIndex address) = tableEntry b₃) : Walk memory root address (some b₃)

theorem word_missing (h : t.node q = none) (hq : q.length ≤ 3) : t.word q = 0 := by
  refine word_none h ?_
  by_contra hx
  have := RadixTree.value_length (Option.isSome_iff_ne_none.mpr hx)
  omega

theorem walk (h : HoldsTables base root t rest memory) (haddress : IsUserAddress address) :
    Walk memory root address (t.node [pml4Index address, pdptIndex address, pdIndex address]) := by
  have hw₁ : memory.words (root * pageSize) (pml4Index address) = t.word [pml4Index address] :=
    h.words h.top fun _ => isUser_pml4Index haddress
  cases h₁ : t.node [pml4Index address] with
  | none =>
    rw [node_none (q := [pml4Index address, pdptIndex address, pdIndex address]) h₁ ⟨[_, _], rfl⟩]
    exact .pml4 (hw₁.trans (word_missing h₁ (by decide : 1 ≤ 3)))
  | some b₁ =>
    rw [word_node h₁] at hw₁
    have hl₁ := h.lt_of_node h₁
    have hw₂ : memory.words (b₁ * pageSize) (pdptIndex address) = t.word [pml4Index address, pdptIndex address] := h.words h₁ nofun
    cases h₂ : t.node [pml4Index address, pdptIndex address] with
    | none =>
      rw [node_none (q := [pml4Index address, pdptIndex address, pdIndex address]) h₂ ⟨[_], rfl⟩]
      exact .pdpt hl₁ hw₁ (hw₂.trans (word_missing h₂ (by decide : 2 ≤ 3)))
    | some b₂ =>
      rw [word_node h₂] at hw₂
      have hl₂ := h.lt_of_node h₂
      have hw₃ : memory.words (b₂ * pageSize) (pdIndex address) = t.word [pml4Index address, pdptIndex address, pdIndex address] :=
        h.words h₂ nofun
      cases h₃ : t.node [pml4Index address, pdptIndex address, pdIndex address] with
      | none => exact .pd hl₁ hw₁ hl₂ hw₂ (hw₃.trans (word_missing h₃ (by decide : 3 ≤ 3)))
      | some b₃ =>
        rw [word_node h₃] at hw₃
        exact .pt hl₁ hw₁ hl₂ hw₂ (h.lt_of_node h₃) hw₃

theorem Walk.locateLeaf {found : Option Nat} (h : Walk memory root address found) :
    memory.locateLeaf ⟨root * pageSize⟩ address = found.elim (.error .notFound) fun b => .ok ⟨b * pageSize, ptIndex address⟩ := by
  unfold VirtualMemory.locateLeaf
  dsimp only
  cases h with
  | pml4 h =>
    rw [h, if_pos (Or.inl (by decide))]
    rfl
  | pdpt hl₁ h₁ h =>
    rw [h₁, if_neg (pass_tableEntry hl₁), tableFromEntry_tableEntry hl₁, h, if_pos (Or.inl (by decide))]
    rfl
  | pd hl₁ h₁ hl₂ h₂ h =>
    rw [h₁, if_neg (pass_tableEntry hl₁), tableFromEntry_tableEntry hl₁, h₂, if_neg (pass_tableEntry hl₂),
      tableFromEntry_tableEntry hl₂, h, if_pos (Or.inl (by decide))]
    rfl
  | pt hl₁ h₁ hl₂ h₂ hl₃ h₃ =>
    rw [h₁, if_neg (pass_tableEntry hl₁), tableFromEntry_tableEntry hl₁, h₂, if_neg (pass_tableEntry hl₂),
      tableFromEntry_tableEntry hl₂, h₃, if_neg (pass_tableEntry hl₃), tableFromEntry_tableEntry hl₃]
    rfl

theorem Walk.virtualTranslate {found : Option Nat} (h : Walk memory root address found) (hroot : root * pageSize ≠ 0)
    (haddress : IsUserAddress address) :
    memory.virtualTranslate (some ⟨root * pageSize⟩) address true = found.elim (.error .notFound) fun b =>
      if memory.words (b * pageSize) (ptIndex address) &&& ptePresent = 0 then .error .notFound
      else .ok (tableFromEntry (memory.words (b * pageSize) (ptIndex address)) + address % pageSize) := by
  have hcanonical : virtualAddressIsCanonical address = true := by
    have := haddress.2
    unfold userVirtualEnd at this
    exact decide_eq_true (Or.inl (by omega))
  have hargs : ¬((true : Bool) = false ∨ root * pageSize = 0 ∨ virtualAddressIsCanonical address = false) := by
    rintro (hx | hx | hx)
    · cases hx
    · exact hroot hx
    · rw [hcanonical] at hx
      cases hx
  unfold VirtualMemory.virtualTranslate
  dsimp only
  rw [if_neg hargs]
  cases h with
  | pml4 h =>
    rw [h, if_pos (Or.inl (by decide))]
    rfl
  | pdpt hl₁ h₁ h =>
    rw [h₁, if_neg (pass_tableEntry hl₁), tableFromEntry_tableEntry hl₁, h, if_pos (by decide)]
    rfl
  | pd hl₁ h₁ hl₂ h₂ h =>
    rw [h₁, if_neg (pass_tableEntry hl₁), tableFromEntry_tableEntry hl₁, h₂, if_neg (tableEntry_present hl₂),
      if_neg fun hx => hx (tableEntry_small hl₂), tableFromEntry_tableEntry hl₂, h, if_pos (by decide)]
    rfl
  | pt hl₁ h₁ hl₂ h₂ hl₃ h₃ =>
    rw [h₁, if_neg (pass_tableEntry hl₁), tableFromEntry_tableEntry hl₁, h₂, if_neg (tableEntry_present hl₂),
      if_neg fun hx => hx (tableEntry_small hl₂), tableFromEntry_tableEntry hl₂, h₃, if_neg (tableEntry_present hl₃),
      if_neg fun hx => hx (tableEntry_small hl₃), tableFromEntry_tableEntry hl₃]
    rfl

theorem word_leaf (h : HoldsTables base root t rest memory) (hb : t.node [pml4Index address, pdptIndex address, pdIndex address] = some b) :
    memory.words (b * pageSize) (ptIndex address) = (t.value (tablePath address)).elim 0 UserMapping.leaf := by
  have hlast : t.node (tablePath address) = none := word_last (p := [pml4Index address, pdptIndex address, pdIndex address]) rfl
  refine (h.words hb nofun).trans ?_
  show t.word (tablePath address) = _
  cases hvalue : t.value (tablePath address) with
  | none => exact word_none hlast hvalue
  | some mapping => exact word_value hlast hvalue

theorem leafIsPresent_eq (h : HoldsTables base root t rest memory) (haddress : IsUserAddress address) :
    memory.leafIsPresent ⟨root * pageSize⟩ address = (t.value (tablePath address)).isSome := by
  unfold leafIsPresent load
  rw [(h.walk haddress).locateLeaf]
  cases hb : t.node [pml4Index address, pdptIndex address, pdIndex address] with
  | none =>
    rw [value_none hb]
    rfl
  | some b =>
    dsimp only [Option.elim_some]
    rw [h.word_leaf hb]
    cases t.value (tablePath address) with
    | none => decide
    | some mapping => exact decide_eq_true leaf_present

theorem virtualTranslate_eq (h : HoldsTables base root t rest memory) (haddress : IsUserAddress address) :
    memory.virtualTranslate (some ⟨root * pageSize⟩) address true = (t.value (tablePath address)).elim (.error .notFound) fun mapping =>
      .ok (mapping.page * pageSize + address % pageSize) := by
  rw [(h.walk haddress).virtualTranslate h.root_ne_zero haddress]
  cases hb : t.node [pml4Index address, pdptIndex address, pdIndex address] with
  | none =>
    rw [value_none hb]
    rfl
  | some b =>
    have hword := h.word_leaf hb
    cases hvalue : t.value (tablePath address) with
    | none =>
      rw [hvalue] at hword
      exact if_pos (by rw [hword]; decide)
    | some mapping =>
      rw [hvalue] at hword
      refine (if_neg (by rw [hword]; exact leaf_present)).trans ?_
      rw [hword]
      show Except.ok (tableFromEntry mapping.leaf + address % pageSize) = _
      rw [tableFromEntry_leaf]
      rfl

theorem virtualQuery_eq (h : HoldsTables base root t rest memory) (haddress : IsUserAddress address) :
    memory.virtualQuery (some ⟨root * pageSize⟩) address true true = (t.value (tablePath address)).elim (.error .notFound) fun mapping =>
      .ok (mapping.page * pageSize + address % pageSize, mapping.flags) := by
  unfold virtualQuery load
  rw [if_neg Bool.noConfusion, h.virtualTranslate_eq haddress]
  dsimp only
  rw [(h.walk haddress).locateLeaf]
  cases hb : t.node [pml4Index address, pdptIndex address, pdIndex address] with
  | none =>
    rw [value_none hb]
    rfl
  | some b =>
    have hword := h.word_leaf hb
    cases hvalue : t.value (tablePath address) with
    | none => rfl
    | some mapping =>
      rw [hvalue] at hword
      show Except.ok (_, queryFlags (memory.words (b * pageSize) (ptIndex address))) = _
      rw [hword]
      show Except.ok (_, queryFlags mapping.leaf) = _
      rw [queryFlags_leaf]
      rfl

end HoldsTables
end InferenceOS
