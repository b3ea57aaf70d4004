import InferenceOS.Theorems.PageSpaces
import InferenceOS.Theorems.UserCopies

/-! `virtual_map_pages` and `virtual_unmap_pages` on ranges of user pages: all pages or none. -/

namespace InferenceOS
open Program PageTree PageEntry VirtualMemory Function

def pathOf (address page : Nat) : List (Fin pageTableEntryCount) := tablePath (address + page * pageSize)

structure UserRange (address count : Nat) : Prop where
  low : userVirtualStart ≤ address
  high : address + count * pageSize ≤ userVirtualEnd

namespace UserRange
variable {address count k l : Nat}

theorem isUserAddress (h : UserRange address count) (hk : k < count) : IsUserAddress (address + k * pageSize) := by
  have hlow := h.low
  have hhigh := h.high
  have hpage : (k + 1) * pageSize ≤ count * pageSize := Nat.mul_le_mul_right _ hk
  unfold pageSize at *
  exact ⟨by omega, by omega⟩

theorem mono (h : UserRange address count) (hl : l ≤ count) : UserRange address l := by
  have hhigh := h.high
  have hpage : l * pageSize ≤ count * pageSize := Nat.mul_le_mul_right _ hl
  exact ⟨h.low, by omega⟩

theorem path_inj (h : UserRange address count) (hk : k < count) (hl : l < count) (hp : pathOf address k = pathOf address l) : k = l := by
  have heq := (tablePath_eq_iff (h.isUserAddress hk).2 (h.isUserAddress hl).2).mp hp
  unfold pageSize at heq
  omega

end UserRange

structure Mapped (t u : PageTree) (address : Nat) (mapping : Nat → UserMapping) (count : Nat) : Prop where
  free : ∀ k < count, t.value (pathOf address k) = none
  here : ∀ k < count, u.value (pathOf address k) = some (mapping k)
  elsewhere : ∀ q, (∀ k < count, q ≠ pathOf address k) → u.value q = t.value q

structure Unmapped (t u : PageTree) (address count : Nat) : Prop where
  here : ∀ k < count, u.value (pathOf address k) = none
  elsewhere : ∀ q, (∀ k < count, q ≠ pathOf address k) → u.value q = t.value q

def restWithout (rest : Nat → Prop) (flags : BitVec 32) (first count page : Nat) : Prop :=
  rest page ∧ ¬(flags &&& vmOwned ≠ 0 ∧ first ≤ page ∧ page < first + count)

theorem restWithout_zero {rest : Nat → Prop} {flags : BitVec 32} {first page : Nat} : restWithout rest flags first 0 page ↔ rest page :=
  ⟨fun h => h.1, fun h => ⟨h, fun hx => by omega⟩⟩

namespace HoldsTables
variable {base memory : VirtualMemory} {root first address count : Nat} {t u : PageTree} {rest : Nat → Prop} {flags : BitVec 32}
  {mapping : Nat → UserMapping}

structure Source (rest : Nat → Prop) (mapping : Nat → UserMapping) (first : Nat) (flags : BitVec 32) (count : Nat) : Prop where
  page : ∀ k < count, (mapping k).page = first + k
  same : ∀ k < count, (mapping k).flags = flags
  held : flags &&& vmOwned ≠ 0 → ∀ k < count, rest (first + k)

theorem Source.mono {l : Nat} (h : Source rest mapping first flags count) (hl : l ≤ count) : Source rest mapping first flags l :=
  ⟨fun k hk => h.page k (lt_of_lt_of_le hk hl), fun k hk => h.same k (lt_of_lt_of_le hk hl),
    fun ho k hk => h.held ho k (lt_of_lt_of_le hk hl)⟩

-- Otherwise the elaborator would run the loops over the 512 entries of a table.
attribute [local irreducible] wp

theorem unmapBack : ∀ {count : Nat} {u : PageTree} {memory : VirtualMemory}, HoldsTables base root u (restWithout rest flags first count) memory →
    u.Pruned → UserRange address count → Source rest mapping first flags count → (∀ k < count, u.value (pathOf address k) = some (mapping k)) →
    wp (VirtualMemory.unmapBack ⟨root * pageSize⟩ address count)
      (fun _ m => ∃ w, HoldsTables base root w rest m ∧ w.Pruned ∧ Unmapped u w address count ∧ ∀ q c, w.node q = some c → u.node q = some c)
      (fun _ _ => False) memory
  | 0, u, memory, h, hp, _, _, _ => by
    rw [VirtualMemory.unmapBack, wp_pure]
    exact ⟨u, h.congr fun _ => restWithout_zero, hp, ⟨fun k hk => absurd hk (Nat.not_lt_zero k), fun _ _ => rfl⟩, fun _ _ hx => hx⟩
  | count + 1, u, memory, h, hp, hrange, hsource, hvalue => by
    rw [VirtualMemory.unmapBack, wp_bind, wp_attempt]
    refine wp_mono (h.unmapOne hp (hvalue count (Nat.lt_succ_self count)) false) ?_ fun _ _ hx => hx.elim
    rintro _ m ⟨v, hv, hvp, hvv, hvn⟩
    have howned : (mapping count).Owned ↔ flags &&& vmOwned ≠ 0 := by
      unfold UserMapping.Owned
      rw [hsource.same count (Nat.lt_succ_self count)]
    have hpage := hsource.page count (Nat.lt_succ_self count)
    have hrest : ∀ page, restAfter (restWithout rest flags first (count + 1)) (mapping count) false page ↔
        restWithout rest flags first count page := by
      intro page
      unfold restAfter restWithout
      rw [howned, hpage]
      constructor
      · rintro (⟨hr, hx⟩ | ⟨-, ho, rfl⟩)
        · exact ⟨hr, fun hy => hx ⟨hy.1, hy.2.1, by omega⟩⟩
        · exact ⟨hsource.held ho count (Nat.lt_succ_self count), fun hy => by omega⟩
      · rintro ⟨hr, hx⟩
        by_cases hlast : flags &&& vmOwned ≠ 0 ∧ first + count = page
        · exact Or.inr ⟨rfl, hlast⟩
        · refine Or.inl ⟨hr, fun hy => hx ⟨hy.1, hy.2.1, ?_⟩⟩
          have hne : first + count ≠ page := fun hz => hlast ⟨hy.1, hz⟩
          have := hy.2.2
          omega
    have hother : ∀ k < count, pathOf address k ≠ pathOf address count := fun k hk hx => by
      have := hrange.path_inj (by omega) (Nat.lt_succ_self count) hx
      omega
    refine wp_mono (unmapBack (hv.congr hrest) hvp (hrange.mono (Nat.le_succ count)) (hsource.mono (Nat.le_succ count)) fun k hk => ?_) ?_
      fun _ _ hx => hx
    · rw [hvv]
      exact (update_of_ne (hother k hk) _ _).trans (hvalue k (Nat.lt_succ_of_lt hk))
    · rintro _ m' ⟨w, hw, hwp, hun, hwn⟩
      refine ⟨w, hw, hwp, ⟨fun k hk => ?_, fun q hq => ?_⟩, fun q c hx => hvn q c (hwn q c hx)⟩
      · by_cases hlast : k = count
        · rw [hlast, hun.elsewhere _ fun l hl => (hother l hl).symm, hvv]
          exact update_self _ _ _
        · exact hun.here k (by omega)
      · rw [hun.elsewhere q fun k hk => hq k (Nat.lt_succ_of_lt hk), hvv]
        exact update_of_ne (hq count (Nat.lt_succ_self count)) _ _

theorem eq_of_unmapped {w : PageTree} (ht : t.Pruned) (hw : w.Pruned) (hm : Mapped t u address mapping count) (hun : Unmapped u w address count)
    (htop : t.node [] = w.node []) (htu : ∀ q c, t.node q = some c → u.node q = some c) (hwu : ∀ q c, w.node q = some c → u.node q = some c) :
    w = t := by
  have hvalue : t.value = w.value := by
    funext q
    by_cases hq : ∃ k < count, q = pathOf address k
    · obtain ⟨k, hk, rfl⟩ := hq
      rw [hm.free k hk, hun.here k hk]
    · have hne : ∀ k < count, q ≠ pathOf address k := fun k hk hx => hq ⟨k, hk, hx⟩
      rw [hun.elsewhere q hne, hm.elsewhere q hne]
  have hnode := ht.node_eq hw htop (fun q => by rw [hvalue]) fun q b c hb hc => Option.some.inj ((htu q b hb).symm.trans (hwu q c hc))
  exact RadixTree.ext hnode.symm hvalue.symm

theorem mapFrom (ht : t.Pruned) : ∀ {left page : Nat} {u : PageTree} {memory : VirtualMemory},
    HoldsTables base root u (restWithout rest flags first page) memory → u.Pruned → t.node [] = some root →
    (∀ q c, t.node q = some c → u.node q = some c) → Mapped t u address mapping page → UserRange address (page + left) →
    Source rest mapping first flags (page + left) →
    wp (VirtualMemory.mapFrom ⟨root * pageSize⟩ address (first * pageSize) flags page left)
      (fun _ m => ∃ w, HoldsTables base root w (restWithout rest flags first (page + left)) m ∧ w.Pruned ∧ Mapped t w address mapping (page + left))
      (fun e m => HoldsTables base root t rest m ∧
        (e = .noMemory ∨ e = .alreadyExists ∧ ∃ k < page + left, (t.value (pathOf address k)).isSome)) memory
  | 0, page, u, memory, h, hp, _, _, hm, _, _ => by
    rw [VirtualMemory.mapFrom, wp_pure]
    exact ⟨u, h, hp, hm⟩
  | left + 1, page, u, memory, h, hp, htop, hmono, hm, hrange, hsource => by
    have hpage := hsource.page page (by omega)
    have hflags := hsource.same page (by omega)
    have howned : (mapping page).Owned ↔ flags &&& vmOwned ≠ 0 := by
      unfold UserMapping.Owned
      rw [hflags]
    have hfrom : first * pageSize + page * pageSize = (mapping page).page * pageSize := by rw [hpage, Nat.add_mul]
    have hother : ∀ k < page, pathOf address k ≠ pathOf address page := fun k hk hx => by
      have := hrange.path_inj (by omega) (by omega) hx
      omega
    have hheld : (mapping page).Owned → restWithout rest flags first page (mapping page).page := by
      intro ho
      rw [hpage]
      exact ⟨hsource.held (howned.mp ho) page (by omega), fun hx => by omega⟩
    have hmap := h.mapOne hp (hrange.isUserAddress (k := page) (by omega)) hheld
    rw [hflags, ← hfrom] at hmap
    rw [VirtualMemory.mapFrom, wp_bind, wp_attempt]
    refine wp_mono hmap ?_ ?_
    · rintro _ m ⟨v, hv, hvp, hnone, hvv, hvn⟩
      have hrest : ∀ q, restWithout rest flags first page q ∧ ¬((mapping page).Owned ∧ (mapping page).page = q) ↔
          restWithout rest flags first (page + 1) q := by
        intro q
        unfold restWithout
        rw [howned, hpage]
        constructor
        · rintro ⟨⟨hr, hx⟩, hy⟩
          refine ⟨hr, fun hz => ?_⟩
          have hne : first + page ≠ q := fun hw => hy ⟨hz.1, hw⟩
          exact hx ⟨hz.1, hz.2.1, by omega⟩
        · rintro ⟨hr, hx⟩
          exact ⟨⟨hr, fun hz => hx ⟨hz.1, hz.2.1, by omega⟩⟩, fun hz => hx ⟨hz.1, by omega, by omega⟩⟩
      have hfree : t.value (pathOf address page) = none := by
        rw [← hm.elsewhere _ fun k hk => (hother k hk).symm]
        exact hnone
      have hm' : Mapped t v address mapping (page + 1) := by
        refine ⟨fun k hk => ?_, fun k hk => ?_, fun q hq => ?_⟩
        · by_cases hlast : k = page
          · rw [hlast, hfree]
          · exact hm.free k (by omega)
        · rw [hvv]
          by_cases hlast : k = page
          · rw [hlast]
            exact update_self _ _ _
          · exact (update_of_ne (hother k (by omega)) _ _).trans (hm.here k (by omega))
        · rw [hvv]
          refine (update_of_ne (hq page (Nat.lt_succ_self page)) _ _).trans ?_
          exact hm.elsewhere q fun k hk => hq k (Nat.lt_succ_of_lt hk)
      have hsum : page + (left + 1) = page + 1 + left := by omega
      dsimp only
      rw [hsum] at hrange hsource ⊢
      exact mapFrom ht (hv.congr hrest) hvp htop (fun q c hq => hvn q c (hmono q c hq)) hm' hrange hsource
    · rintro e m ⟨hv, he⟩
      dsimp only
      rw [wp_bind]
      refine wp_mono (hv.unmapBack hp (hrange.mono (by omega)) (hsource.mono (by omega)) hm.here) ?_ fun _ _ hx => hx.elim
      rintro _ m' ⟨w, hw, hwp, hun, hwn⟩
      rw [wp_fail]
      have heq : w = t := eq_of_unmapped ht hwp hm hun (htop.trans hw.top.symm) hmono hwn
      rw [heq] at hw
      refine ⟨hw, he.imp_right fun ⟨he, hx⟩ => ⟨he, page, by omega, ?_⟩⟩
      rw [← hm.elsewhere _ fun k hk => (hother k hk).symm]
      exact hx

theorem pagingRoot (h : HoldsTables base root t rest memory) : memory.pagingRoot = base.pagingRoot := by rw [h.others]

theorem userRange_of_valid (h : virtualUserRangeIsValid address (count * pageSize) = true) (hc : count ≠ 0) : UserRange address count := by
  have hrange := (VirtualMemory.userRange_iff (Nat.mul_ne_zero hc (by decide))).mp h
  exact ⟨hrange.1, hrange.2⟩

theorem source_of_checks {physicalAddress : Nat} (haligned : physicalAddress % pageSize = 0)
    (hlow : ¬pteAddressMask.toNat < physicalAddress) (hhigh : ¬pteAddressMask.toNat - physicalAddress < count * pageSize - pageSize)
    (hknown : flags &&& ~~~vmFlags = 0) (hexclusive : flags &&& (vmWrite ||| vmExecute) ≠ vmWrite ||| vmExecute)
    (huser : flags &&& vmUser ≠ 0) (hheld : flags &&& vmOwned ≠ 0 → ∀ k < count, rest (physicalAddress / pageSize + k)) :
    ∃ mapping, Source rest mapping (physicalAddress / pageSize) flags count := by
  have hmask : pteAddressMask.toNat = 2 ^ 52 - 4096 := rfl
  have hinside : ∀ k, physicalAddress / pageSize + min k (count - 1) < 2 ^ 40 := by
    intro k
    unfold pageSize at *
    omega
  refine ⟨fun k => ⟨physicalAddress / pageSize + min k (count - 1), flags, hinside k, hknown, huser, hexclusive⟩, fun k hk => ?_,
    fun _ _ => rfl, hheld⟩
  show physicalAddress / pageSize + min k (count - 1) = _
  omega

theorem virtualMapPages {physicalAddress : Nat} (h : HoldsTables base root t rest memory) (hp : t.Pruned)
    (hrange : virtualUserRangeIsValid address (count * pageSize) = true ∨ root * pageSize ≠ base.pagingRoot)
    (hheld : flags &&& vmOwned ≠ 0 → ∀ k < count, rest (physicalAddress / pageSize + k)) :
    wp (VirtualMemory.virtualMapPages (some ⟨root * pageSize⟩) address physicalAddress count flags)
      (fun _ m => ∃ mapping u, count ≠ 0 ∧ address % pageSize = 0 ∧ physicalAddress % pageSize = 0 ∧ UserRange address count ∧
        Source rest mapping (physicalAddress / pageSize) flags count ∧ Mapped t u address mapping count ∧
        HoldsTables base root u (restWithout rest flags (physicalAddress / pageSize) count) m ∧ u.Pruned)
      (fun _ m => HoldsTables base root t rest m) memory := by
  unfold VirtualMemory.virtualMapPages
  rw [wp_bind, wp_get]
  dsimp only
  rw [wp_bind, wp_failIf]
  refine ⟨fun _ => h, fun hargs => ?_⟩
  rw [wp_bind, wp_failIf]
  refine ⟨fun _ => h, fun hchecks => ?_⟩
  rw [wp_bind, wp_failIf]
  refine ⟨fun _ => h, fun _ => ?_⟩
  simp only [not_or] at hargs hchecks
  obtain ⟨-, -, hc, -⟩ := hargs
  obtain ⟨haddress, hphysical, -, hlow, hhigh, -, hknown, hexclusive, huser, hactive⟩ := hchecks
  have hvalid : virtualUserRangeIsValid address (count * pageSize) = true := by
    by_contra hx
    refine hactive ⟨Bool.eq_false_of_not_eq_true hx, ?_⟩
    rw [h.pagingRoot]
    exact hrange.resolve_left hx
  have huser' : flags &&& vmUser ≠ 0 := of_decide_eq_true ((Classical.not_not.mp huser).trans hvalid)
  have hp' : physicalAddress % pageSize = 0 := Classical.not_not.mp hphysical
  obtain ⟨mapping, hsource⟩ : ∃ mapping, Source rest mapping (physicalAddress / pageSize) flags count :=
    source_of_checks hp' hlow hhigh (Classical.not_not.mp hknown) hexclusive huser' hheld
  have hrange' : UserRange address count := userRange_of_valid hvalid hc
  have hphysical' : physicalAddress / pageSize * pageSize = physicalAddress := Nat.div_mul_cancel (Nat.dvd_of_mod_eq_zero hp')
  have hstart : HoldsTables base root t (restWithout rest flags (physicalAddress / pageSize) 0) memory := h.congr fun _ => restWithout_zero.symm
  have hempty : Mapped t t address mapping 0 := ⟨fun k hk => absurd hk (Nat.not_lt_zero k), fun k hk => absurd hk (Nat.not_lt_zero k), fun _ _ => rfl⟩
  have hrange₀ : UserRange address (0 + count) := by rwa [Nat.zero_add]
  have hsource₀ : Source rest mapping (physicalAddress / pageSize) flags (0 + count) := by rwa [Nat.zero_add]
  have hloop := mapFrom hp hstart hp h.top (fun _ _ hq => hq) hempty hrange₀ hsource₀
  rw [hphysical', Nat.zero_add] at hloop
  refine wp_mono hloop ?_ fun _ _ hx => hx.1
  rintro _ m ⟨w, hw, hwp, hm⟩
  exact ⟨mapping, w, hc, Classical.not_not.mp haddress, hp', hrange', hsource, hm, hw, hwp⟩

theorem unmapEach (hrange : UserRange address count) : ∀ {n : Nat}, n ≤ count → ∀ {u : PageTree} {memory : VirtualMemory} {s : Nat},
    HoldsTables base root u rest memory → u.Pruned → s + n = count → (∀ k, s ≤ k → k < count → (u.value (pathOf address k)).isSome) →
    wp (each (fun page => do
        let _ ← attempt (VirtualMemory.unmapOne ⟨root * pageSize⟩ (address + page * pageSize) true)) (List.range' s n))
      (fun _ m => ∃ w, HoldsTables base root w rest m ∧ w.Pruned ∧ (∀ k, s ≤ k → k < count → w.value (pathOf address k) = none) ∧
        ∀ q, (∀ k, s ≤ k → k < count → q ≠ pathOf address k) → w.value q = u.value q)
      (fun _ _ => False) memory
  | 0, _, u, memory, s, h, hp, hs, _ => by
    rw [List.range'_zero, wp_each_nil]
    exact ⟨u, h, hp, fun k h₁ h₂ => by omega, fun _ _ => rfl⟩
  | n + 1, hn, u, memory, s, h, hp, hs, hvalue => by
    obtain ⟨mapping, hmapping⟩ := Option.isSome_iff_exists.mp (hvalue s le_rfl (by omega))
    have hother : ∀ k, s + 1 ≤ k → k < count → pathOf address k ≠ pathOf address s := fun k h₁ h₂ hx => by
      have := hrange.path_inj h₂ (by omega) hx
      omega
    rw [List.range'_succ, wp_each_cons, wp_bind, wp_attempt]
    refine wp_mono (h.unmapOne hp hmapping true) ?_ fun _ _ hx => hx.elim
    rintro _ m ⟨v, hv, hvp, hvv, -⟩
    rw [wp_pure]
    have hrest : ∀ page, restAfter rest mapping true page ↔ rest page := fun page => or_iff_left fun hx => Bool.noConfusion hx.1
    refine wp_mono (unmapEach hrange (by omega) (hv.congr hrest) hvp (by omega) fun k h₁ h₂ => ?_) ?_ fun _ _ hx => hx
    · rw [hvv]
      exact (congrArg Option.isSome (update_of_ne (hother k h₁ h₂) _ _)).trans (hvalue k (by omega) h₂)
    · rintro _ m' ⟨w, hw, hwp, hhere, helse⟩
      refine ⟨w, hw, hwp, fun k h₁ h₂ => ?_, fun q hq => ?_⟩
      · by_cases hk : k = s
        · rw [hk, helse _ fun l h₃ h₄ => (hother l h₃ h₄).symm, hvv]
          exact update_self _ _ _
        · exact hhere k (by omega) h₂
      · rw [helse q fun k h₁ h₂ => hq k (by omega) h₂, hvv]
        exact update_of_ne (hq s le_rfl (by omega)) _ _

theorem virtualUnmapPages (h : HoldsTables base root t rest memory) (hp : t.Pruned)
    (hrange : virtualUserRangeIsValid address (count * pageSize) = true ∨ root * pageSize ≠ base.pagingRoot) :
    wp (VirtualMemory.virtualUnmapPages (some ⟨root * pageSize⟩) address count)
      (fun _ m => ∃ u, count ≠ 0 ∧ address % pageSize = 0 ∧ UserRange address count ∧ (∀ k < count, (t.value (pathOf address k)).isSome) ∧
        Unmapped t u address count ∧ HoldsTables base root u rest m ∧ u.Pruned)
      (fun _ m => m = memory) memory := by
  unfold VirtualMemory.virtualUnmapPages
  rw [wp_bind, wp_get]
  dsimp only
  rw [wp_bind, wp_failIf]
  refine ⟨fun _ => rfl, fun hargs => ?_⟩
  rw [wp_bind, wp_failIf]
  refine ⟨fun _ => rfl, fun hactive => ?_⟩
  rw [wp_bind, wp_failIf]
  refine ⟨fun _ => rfl, fun hpresent => ?_⟩
  simp only [not_or] at hargs
  obtain ⟨-, hc, haddress, -⟩ := hargs
  have hvalid : virtualUserRangeIsValid address (count * pageSize) = true := by
    by_contra hx
    refine hactive ⟨Bool.eq_false_of_not_eq_true hx, ?_⟩
    rw [h.pagingRoot]
    exact hrange.resolve_left hx
  have hrange' : UserRange address count := userRange_of_valid hvalid hc
  have hsome : ∀ k < count, (t.value (pathOf address k)).isSome := by
    intro k hk
    by_contra hx
    refine hpresent ⟨k, hk, ?_⟩
    rw [h.leafIsPresent_eq (hrange'.isUserAddress hk)]
    exact Bool.eq_false_of_not_eq_true hx
  rw [List.range_eq_range']
  refine wp_mono (unmapEach hrange' le_rfl h hp (Nat.zero_add count) fun k _ hk => hsome k hk) ?_ fun _ _ hx => hx.elim
  rintro _ m ⟨w, hw, hwp, hhere, helse⟩
  exact ⟨w, hc, Classical.not_not.mp haddress, hrange', hsome, ⟨fun k hk => hhere k (Nat.zero_le k) hk, fun q hq => helse q fun k _ hk => hq k hk⟩, hw, hwp⟩

end HoldsTables
end InferenceOS
