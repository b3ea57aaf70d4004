import InferenceOS.Theorems.PageEntries
import InferenceOS.Theorems.PhysicalRuns

/-! The page tables of an address space as a radix tree: the tables stand at the paths of indices that lead to them, the
    mappings of user pages one step below the last level. -/

namespace InferenceOS
open Program Function RadixTree

namespace PhysicalMemory
variable {m : PhysicalMemory} {page : Nat}
variable {t : PhysicalMemory} {count first : Nat}

def Out (m : PhysicalMemory) (page : Nat) : Prop := page < m.managedPageCount ∧ m.getPageState page = .allocated

def Closed (m : PhysicalMemory) (page : Nat) : Prop := m.managedPageCount ≤ page ∨ m.getPageState page = .unavailable

structure Turns (m t : PhysicalMemory) (out : Nat → Prop) : Prop where
  sound : t.Sound
  managed : t.managedPageCount = m.managedPageCount
  closed : ∀ page, t.Closed page ↔ m.Closed page
  out : ∀ page, t.Out page ↔ out page

theorem not_closed_of_out (h : m.Out page) : ¬m.Closed page := by
  rintro (hx | hx)
  · exact absurd h.1 (Nat.not_lt.mpr hx)
  · rw [h.2] at hx
    cases hx

theorem Moves.closed {old new : PageState} (h : Moves m t first count old new)
    (ho : old ≠ .unavailable) (hn : new ≠ .unavailable) (page : Nat) : t.Closed page ↔ m.Closed page := by
  unfold Closed
  rw [h.managed, h.states]
  split
  · rename_i hx
    rw [h.before page hx.1 hx.2]
    exact or_congr_right ⟨fun hy => absurd hy hn, fun hy => absurd hy ho⟩
  · exact Iff.rfl

theorem Turns.trans {u : PhysicalMemory} {out out' : Nat → Prop} (h : m.Turns t out) (h' : t.Turns u out') : m.Turns u out' :=
  ⟨h'.sound, h'.managed.trans h.managed, fun page => (h'.closed page).trans (h.closed page), h'.out⟩

theorem Turns.congr {out out' : Nat → Prop} (h : m.Turns t out) (ho : ∀ page, out page ↔ out' page) : m.Turns t out' :=
  ⟨h.sound, h.managed, h.closed, fun page => (h.out page).trans (ho page)⟩

theorem Sound.turns (hs : m.Sound) : m.Turns m m.Out := ⟨hs, rfl, fun _ => Iff.rfl, fun _ => Iff.rfl⟩

theorem Moves.turns_allocate (h : Moves m t first count .free .allocated) (hs : t.Sound) :
    m.Turns t fun page => (first ≤ page ∧ page < first + count) ∨ m.Out page := by
  refine ⟨hs, h.managed, h.closed nofun nofun, fun page => ?_⟩
  unfold Out
  rw [h.managed, h.states]
  have := h.inside
  split
  · exact ⟨fun _ => Or.inl ‹_›, fun _ => ⟨by omega, rfl⟩⟩
  · exact ⟨Or.inr, fun hx => hx.resolve_left ‹_›⟩

theorem Moves.turns_free (h : Moves m t first count .allocated .free) (hs : t.Sound) :
    m.Turns t fun page => m.Out page ∧ ¬(first ≤ page ∧ page < first + count) := by
  refine ⟨hs, h.managed, h.closed nofun nofun, fun page => ?_⟩
  unfold Out
  rw [h.managed, h.states]
  split
  · exact ⟨nofun, fun hx => absurd ‹_› hx.2⟩
  · exact ⟨fun hx => ⟨hx, ‹_›⟩, fun hx => hx.1⟩

theorem Stays.turns (h : Stays m t) (hs : m.Sound) : m.Turns t m.Out := by
  have hmanaged : t.managedPageCount = m.managedPageCount := by rw [h.memory]
  refine ⟨h.sound hs, hmanaged, fun page => ?_, fun page => ?_⟩
  · unfold Closed
    rw [hmanaged, h.getPageState]
  · unfold Out
    rw [hmanaged, h.getPageState]

theorem Sound.takePages (hs : m.Sound) : wp (physicalAllocatePages count 1)
      (fun address t => ∃ first, address = first * pageSize ∧ 0 < count ∧ 1 ≤ first ∧ first + count ≤ m.managedPageCount ∧
        (∀ page, first ≤ page → page < first + count → ¬m.Out page) ∧
        m.Turns t fun page => (first ≤ page ∧ page < first + count) ∨ m.Out page)
      (fun e t => (0 < count → e = .noMemory) ∧ m.Turns t m.Out) m := by
  refine wp_mono hs.allocate (fun address t ⟨first, ha, hc, hfits, hmoves, ht⟩ => ?_) fun e t ⟨hstays, he⟩ => ⟨fun hc => ?_, hstays.turns hs⟩
  · refine ⟨first, ha, hc, hfits.low, hfits.high, fun page h₁ h₂ hx => ?_, hmoves.turns_allocate ht⟩
    have hfree := hfits.free page h₁ h₂
    rw [hx.2] at hfree
    cases hfree
  · rcases he with ⟨rfl, -⟩ | ⟨-, hx | hx | hx⟩
    · rfl
    · omega
    · cases hx
    · exact absurd rfl hx

theorem Sound.givePages (hs : m.Sound) (hc : 0 < count) (h : ∀ page, first ≤ page → page < first + count → m.Out page) :
    wp (physicalFreePages (first * pageSize) count)
      (fun _ t => m.Turns t fun page => m.Out page ∧ ¬(first ≤ page ∧ page < first + count)) (fun _ _ => False) m := by
  have hfirst : first * pageSize / pageSize = first := Nat.mul_div_cancel _ (by decide)
  have hlast := h (first + count - 1) (by omega) (by omega)
  have hinside := hlast.1
  have hnone : wp (physicalFreePages (first * pageSize) count) (fun _ _ => True) (fun _ _ => False) m := by
    unfold physicalFreePages releasePages
    simp only [wp_bind, wp_get, wp_failIf, wp_modify]
    refine ⟨fun hbad => ?_, fun _ => ⟨fun hx => ?_, fun _ => trivial⟩⟩
    · rw [hs.initialized, hfirst, Nat.mul_mod_left] at hbad
      rcases hbad with hx | hx | hx | hx | hx
      · cases hx
      all_goals omega
    · obtain ⟨offset, ho, hx⟩ := hx
      rw [hfirst] at hx
      exact hx (h (first + offset) (by omega) (by omega)).2
  refine wp_mono (wp_and hs.freePages hnone) (fun _ t hx => ?_) fun _ _ hx => hx.2
  obtain ⟨⟨_, hmoves, ht⟩, _⟩ := hx
  rw [hfirst] at hmoves
  exact hmoves.turns_free ht

end PhysicalMemory

/-- The tables of an address space by their pages, and its mappings of user pages. -/
abbrev PageTree := RadixTree (Fin pageTableEntryCount) Nat UserMapping 3

namespace PageTree
variable {t : PageTree} {p q : List (Fin pageTableEntryCount)} {i : Fin pageTableEntryCount} {a page : Nat}

def word (t : PageTree) (p : List (Fin pageTableEntryCount)) : BitVec 64 :=
  match t.node p, t.value p with
  | some page, _ => tableEntry page
  | none, some mapping => mapping.leaf
  | none, none => 0

def Has (t : PageTree) (page : Nat) : Prop := ∃ p, t.node p = some page

def Owns (t : PageTree) (page : Nat) : Prop := ∃ p mapping, t.value p = some mapping ∧ mapping.Owned ∧ mapping.page = page

theorem word_node (h : t.node p = some a) : t.word p = tableEntry a := by
  unfold word
  rw [h]

theorem word_value {mapping : UserMapping} (hn : t.node p = none) (h : t.value p = some mapping) : t.word p = mapping.leaf := by
  unfold word
  rw [hn, h]

theorem word_none (hn : t.node p = none) (h : t.value p = none) : t.word p = 0 := by
  unfold word
  rw [hn, h]

theorem word_below (h : t.node p = none) (i : Fin pageTableEntryCount) : t.word (p ++ [i]) = 0 := by
  refine word_none ?_ ?_
  · by_contra hx
    replace hx := Option.isSome_iff_ne_none.mpr hx
    have hparent := t.parent hx
    rw [h] at hparent
    cases hparent
  · by_contra hx
    replace hx := Option.isSome_iff_ne_none.mpr hx
    obtain ⟨q, j, hq, hn, -⟩ := t.hung hx
    rw [← (List.append_inj' hq rfl).1, h] at hn
    cases hn

theorem word_congr {u : PageTree} (hn : u.node p = t.node p) (hv : u.value p = t.value p) : u.word p = t.word p := by
  unfold word
  rw [hn, hv]

theorem word_inner (h : p.length < 3) : t.value (p ++ [i]) = none := by
  by_contra hx
  have hlength := value_length (Option.isSome_iff_ne_none.mpr hx)
  rw [List.length_append, List.length_singleton] at hlength
  omega

theorem word_last (h : p.length = 3) : t.node (p ++ [i]) = none := by
  by_contra hx
  have hlength := t.shallow (Option.isSome_iff_ne_none.mpr hx)
  rw [List.length_append, List.length_singleton] at hlength
  omega

theorem word_cutAt_of (h : p <+: q) : word (t.cutAt p) q = 0 := word_none (node_cut_of h) (value_cut_of h)

theorem word_cutAt_of_not (h : ¬p <+: q) : word (t.cutAt p) q = t.word q :=
  word_congr (node_cutAt_of_not h) (value_cutAt_of_not h)

end PageTree

open PageTree PageEntry VirtualMemory

structure HoldsTables (base : VirtualMemory) (root : Nat) (t : PageTree) (rest : Nat → Prop) (memory : VirtualMemory) : Prop where
  others : memory = { base with physical := memory.physical, words := memory.words }
  physical : base.physical.Turns memory.physical fun page => t.Has page ∨ t.Owns page ∨ rest page
  small : base.physical.managedPageCount ≤ 2 ^ 40
  top : t.node [] = some root
  user : ∀ {i p}, (t.node (i :: p)).isSome → IsUser i
  owned : ∀ {page}, t.Owns page → ¬t.Has page
  apart : ∀ {page}, rest page → ¬t.Has page ∧ ¬t.Owns page
  single : ∀ {p q mapping mapping'}, t.value p = some mapping → t.value q = some mapping' → mapping.Owned → mapping'.Owned →
    mapping.page = mapping'.page → p = q
  words : ∀ {p i a}, t.node p = some a → (p = [] → IsUser i) → memory.words (a * pageSize) i = t.word (p ++ [i])
  kernel : ∀ {i}, ¬IsUser i → memory.words (root * pageSize) i = base.words (root * pageSize) i
  content : ∀ {page}, (t.Owns page ∨ rest page) ∨ base.physical.Closed page →
    memory.words (page * pageSize) = base.words (page * pageSize)

namespace HoldsTables
variable {base memory : VirtualMemory} {root a b page : Nat} {t : PageTree} {rest : Nat → Prop}
variable {address : Nat}
  {p q : List (Fin pageTableEntryCount)} {i : Fin pageTableEntryCount} {mapping : UserMapping} {physical : PhysicalMemory}

theorem out (h : HoldsTables base root t rest memory) (ha : t.Has page) : memory.physical.Out page := (h.physical.out page).mpr (Or.inl ha)

theorem lt_of_out (h : HoldsTables base root t rest memory) (ha : memory.physical.Out page) : page < 2 ^ 40 := by
  have hlt := ha.1
  have := h.physical.managed
  have := h.small
  omega

theorem lt_of_node (h : HoldsTables base root t rest memory) (ha : t.node p = some a) : a < 2 ^ 40 := h.lt_of_out (h.out ⟨p, ha⟩)

theorem address_ne (h : a ≠ b) : a * pageSize ≠ b * pageSize := fun hx => h (Nat.eq_of_mul_eq_mul_right (by decide) hx)

theorem store_words_self (memory : VirtualMemory) (entry : EntryRef) (value : BitVec 64) :
    (store entry value memory).words entry.table entry.index = value := by
  unfold store
  dsimp only
  rw [update_self, update_self]

theorem store_words_of_ne (memory : VirtualMemory) {entry : EntryRef} {value : BitVec 64} {i : Fin pageTableEntryCount}
    (h : ¬(address = entry.table ∧ i = entry.index)) : (store entry value memory).words address i = memory.words address i := by
  unfold store
  dsimp only
  by_cases ha : address = entry.table
  · subst ha
    rw [update_self, update_of_ne fun hi => h ⟨rfl, hi⟩]
  · rw [update_of_ne ha]

theorem store_words_page (memory : VirtualMemory) {entry : EntryRef} {value : BitVec 64} (h : address ≠ entry.table) :
    (store entry value memory).words address = memory.words address := update_of_ne h _ _

theorem zeroPage_words_self (memory : VirtualMemory) (address : Nat) : (zeroPage address memory).words address = fun _ => 0 :=
  update_self _ _ _

theorem zeroPage_words_of_ne (memory : VirtualMemory) {other : Nat} (h : other ≠ address) :
    (zeroPage address memory).words other = memory.words other := update_of_ne h _ _

theorem congr {rest' : Nat → Prop} (h : HoldsTables base root t rest memory) (hr : ∀ page, rest page ↔ rest' page) :
    HoldsTables base root t rest' memory := by
  have heq : rest' = rest := funext fun page => propext (hr page).symm
  rwa [heq]

theorem turn (h : HoldsTables base root t rest memory) (hp : memory.physical.Turns physical memory.physical.Out) :
    HoldsTables base root t rest { memory with physical } where
  others := by rw [h.others]
  physical := (h.physical.trans hp).congr h.physical.out
  small := h.small
  top := h.top
  user := h.user
  owned := h.owned
  apart := h.apart
  single := h.single
  words := h.words
  kernel := h.kernel
  content := h.content

theorem ne_table (h : HoldsTables base root t rest memory) (ha : t.node p = some a)
    (hr : (t.Owns page ∨ rest page) ∨ base.physical.Closed page) : page ≠ a := by
  rintro rfl
  rcases hr with (hr | hr) | hr
  · exact h.owned hr ⟨p, ha⟩
  · exact (h.apart hr).1 ⟨p, ha⟩
  · exact PhysicalMemory.not_closed_of_out (h.out ⟨p, ha⟩) ((h.physical.closed page).mpr hr)

theorem link (h : HoldsTables base root t rest memory) (ha : t.node p = some a) (hlength : p.length < 3) (hi : p = [] → IsUser i)
    (hfree : t.node (p ++ [i]) = none) (hnew : ¬memory.physical.Out b)
    (hp : memory.physical.Turns physical fun page => page = b ∨ memory.physical.Out page)
    (hnode : (t.node p).isSome) (hb : ∀ q, t.node q ≠ some b) :
    HoldsTables base root (t.link p i b hnode hlength hb) rest
      (store ⟨a * pageSize, i⟩ (tableEntry b) (zeroPage (b * pageSize) { memory with physical })) := by
  have hab : a ≠ b := fun hx => hb p (hx ▸ ha)
  have hhas : ∀ page, Has (t.link p i b hnode hlength hb) page ↔ page = b ∨ t.Has page := by
    intro page
    constructor
    · rintro ⟨q, hq⟩
      by_cases hx : q = p ++ [i]
      · rw [hx, node_link_self] at hq
        exact Or.inl (Option.some.inj hq).symm
      · rw [node_link_of_ne hx] at hq
        exact Or.inr ⟨q, hq⟩
    · rintro (rfl | ⟨q, hq⟩)
      · exact ⟨p ++ [i], node_link_self⟩
      · have hx : q ≠ p ++ [i] := by
          rintro rfl
          rw [hfree] at hq
          cases hq
        exact ⟨q, (node_link_of_ne hx).trans hq⟩
  have hrest : ∀ page, t.Owns page ∨ rest page → page ≠ b := fun page hx hb =>
    hnew (hb ▸ (h.physical.out page).mpr (Or.inr hx))
  refine ⟨?_, (h.physical.trans hp).congr fun page => ?_, h.small, ?_, fun {j q} hq => ?_, fun {page} ho hx => ?_,
    fun {page} hr => ⟨fun hx => ?_, (h.apart hr).2⟩, h.single, fun {q j c} hq hj => ?_, fun {j} hj => ?_, fun {page} hr => ?_⟩
  · rw [h.others]
    rfl
  · rw [hhas, h.physical.out]
    exact or_assoc.symm
  · rw [node_link_of_ne (by simp)]
    exact h.top
  · by_cases hx : j :: q = p ++ [i]
    · cases p with
      | nil => exact (List.cons.inj hx).1 ▸ hi rfl
      | cons k p =>
        rw [(List.cons.inj hx).1]
        exact h.user (Option.isSome_of_eq_some ha)
    · rw [node_link_of_ne hx] at hq
      exact h.user hq
  · rcases (hhas page).mp hx with hx | hx
    · exact hrest page (Or.inl ho) hx
    · exact h.owned ho hx
  · rcases (hhas page).mp hx with hx | hx
    · exact hrest page (Or.inr hr) hx
    · exact (h.apart hr).1 hx
  · by_cases hx : q = p ++ [i]
    · subst hx
      rw [node_link_self] at hq
      cases hq
      rw [store_words_page _ (address_ne hab.symm), zeroPage_words_self]
      have hsame : word (t.link p i b hnode hlength hb) (p ++ [i] ++ [j]) = t.word (p ++ [i] ++ [j]) :=
        word_congr (node_link_of_ne (by simp)) rfl
      rw [hsame, word_below hfree j]
    · rw [node_link_of_ne hx] at hq
      have hcb : c ≠ b := fun hy => hb q (hy ▸ hq)
      by_cases hent : q ++ [j] = p ++ [i]
      · obtain ⟨rfl, hji⟩ := List.append_inj' hent rfl
        cases hji
        cases ha.symm.trans hq
        rw [word_node node_link_self]
        exact store_words_self _ ⟨a * pageSize, i⟩ _
      · have hsame : word (t.link p i b hnode hlength hb) (q ++ [j]) = t.word (q ++ [j]) :=
          word_congr (node_link_of_ne hent) rfl
        rw [hsame, store_words_of_ne, zeroPage_words_of_ne _ (address_ne hcb)]
        · exact h.words hq hj
        · rintro ⟨hca, hji⟩
          have hsame := Nat.eq_of_mul_eq_mul_right (by decide) hca
          subst hsame
          exact hent (by rw [t.distinct hq ha, show j = i from hji])
  · have hroot : root ≠ b := fun hx => hb [] (hx ▸ h.top)
    rw [store_words_of_ne, zeroPage_words_of_ne _ (address_ne hroot)]
    · exact h.kernel hj
    · rintro ⟨hra, hji⟩
      have hsame := Nat.eq_of_mul_eq_mul_right (by decide) hra
      rw [← hsame] at ha
      have hindex : j = i := hji
      rw [hindex] at hj
      exact hj (hi (t.distinct ha h.top))
  · have hpb : page ≠ b := by
      rcases hr with hr | hr
      · exact hrest page hr
      · rintro rfl
        exact PhysicalMemory.not_closed_of_out ((hp.out page).mpr (Or.inl rfl))
          ((hp.closed page).mpr ((h.physical.closed page).mpr hr))
    rw [store_words_page _ (address_ne (h.ne_table ha hr)), zeroPage_words_of_ne _ (address_ne hpb)]
    exact h.content hr

section Store
variable {u : PageTree} {value : BitVec 64} (h : HoldsTables base root t rest memory) (ha : t.node p = some a)
include h ha

theorem words_store (hu : ∀ q c, u.node q = some c → t.node q = some c) (hself : u.word (p ++ [i]) = value)
    (hother : ∀ q j, (u.node q).isSome → q ++ [j] ≠ p ++ [i] → u.word (q ++ [j]) = t.word (q ++ [j])) {j : Fin pageTableEntryCount} {c : Nat}
    (hq : u.node q = some c) (hj : q = [] → IsUser j) :
    (store ⟨a * pageSize, i⟩ value memory).words (c * pageSize) j = u.word (q ++ [j]) := by
  by_cases hent : q ++ [j] = p ++ [i]
  · obtain ⟨rfl, hji⟩ := List.append_inj' hent rfl
    cases hji
    cases ha.symm.trans (hu _ _ hq)
    rw [hself]
    exact store_words_self _ ⟨a * pageSize, i⟩ _
  · rw [store_words_of_ne, hother q j (Option.isSome_of_eq_some hq) hent]
    · exact h.words (hu _ _ hq) hj
    · rintro ⟨hca, hji⟩
      have hsame := Nat.eq_of_mul_eq_mul_right (by decide) hca
      subst hsame
      exact hent (by rw [t.distinct (hu _ _ hq) ha, show j = i from hji])

theorem kernel_store (hi : p = [] → IsUser i) {j : Fin pageTableEntryCount} (hj : ¬IsUser j) :
    (store ⟨a * pageSize, i⟩ value memory).words (root * pageSize) j = base.words (root * pageSize) j := by
  rw [store_words_of_ne]
  · exact h.kernel hj
  · rintro ⟨hra, hji⟩
    have hsame := Nat.eq_of_mul_eq_mul_right (by decide) hra
    rw [← hsame] at ha
    have hindex : j = i := hji
    rw [hindex] at hj
    exact hj (hi (t.distinct ha h.top))

theorem content_store (hr : (t.Owns page ∨ rest page) ∨ base.physical.Closed page) :
    (store ⟨a * pageSize, i⟩ value memory).words (page * pageSize) = base.words (page * pageSize) := by
  rw [store_words_page _ (address_ne (h.ne_table ha hr))]
  exact h.content hr

end Store

theorem unlink (h : HoldsTables base root t rest memory) (ha : t.node p = some a) (hi : p = [] → IsUser i)
    (hb : t.node (p ++ [i]) = some b) (hempty : ¬t.Alive (p ++ [i]))
    (hp : memory.physical.Turns physical fun page => memory.physical.Out page ∧ page ≠ b) :
    HoldsTables base root (t.cutAt (p ++ [i])) rest (store ⟨a * pageSize, i⟩ 0 { memory with physical }) := by
  have hvalue : t.value (p ++ [i]) = none := by
    by_contra hx
    have hlength := value_length (Option.isSome_iff_ne_none.mpr hx)
    have := t.shallow (Option.isSome_of_eq_some hb)
    omega
  -- Only the table itself stands at its path or below.
  have hnode : ∀ q c, t.node q = some c → p ++ [i] <+: q → c = b := by
    intro q c hq hx
    by_cases hne : q = p ++ [i]
    · rw [hne, hb] at hq
      exact (Option.some.inj hq).symm
    · exact absurd (RadixTree.Alive.of_below hx hne (Or.inl (Option.isSome_of_eq_some hq))) hempty
  have hvalues : ∀ q mapping, t.value q = some mapping → ¬p ++ [i] <+: q := by
    intro q mapping hq hx
    by_cases hne : q = p ++ [i]
    · rw [hne, hvalue] at hq
      cases hq
    · exact hempty (RadixTree.Alive.of_below hx hne (Or.inr (Option.isSome_of_eq_some hq)))
  have hhas : ∀ page, Has (t.cutAt (p ++ [i])) page ↔ t.Has page ∧ page ≠ b := by
    intro page
    constructor
    · rintro ⟨q, hq⟩
      obtain ⟨hout, hq⟩ := node_cutAt_eq_some.mp hq
      refine ⟨⟨q, hq⟩, ?_⟩
      rintro rfl
      exact hout (t.distinct hq hb ▸ List.prefix_rfl)
    · rintro ⟨⟨q, hq⟩, hne⟩
      exact ⟨q, node_cutAt_eq_some.mpr ⟨fun hx => hne (hnode q page hq hx), hq⟩⟩
  have howns : ∀ page, Owns (t.cutAt (p ++ [i])) page ↔ t.Owns page := by
    intro page
    constructor
    · rintro ⟨q, mapping, hq, ho, hpage⟩
      exact ⟨q, mapping, (value_cutAt_eq_some.mp hq).2, ho, hpage⟩
    · rintro ⟨q, mapping, hq, ho, hpage⟩
      exact ⟨q, mapping, value_cutAt_eq_some.mpr ⟨hvalues q mapping hq, hq⟩, ho, hpage⟩
  have hbhas : t.Has b := ⟨_, hb⟩
  refine ⟨?_, (h.physical.trans hp).congr fun page => ?_, h.small, ?_, fun {j q} hq => ?_, fun {page} ho hx => ?_,
    fun {page} hr => ⟨fun hx => ?_, fun hx => ?_⟩, fun {q r mapping mapping'} hq hr => ?_, fun {q j c} hq hj => ?_, h.kernel_store ha hi,
    fun {page} hr => h.content_store ha ?_⟩
  · rw [h.others]
    rfl
  · rw [hhas, howns, h.physical.out]
    constructor
    · rintro ⟨hx | hx | hx, hne⟩
      · exact Or.inl ⟨hx, hne⟩
      · exact Or.inr (Or.inl hx)
      · exact Or.inr (Or.inr hx)
    · rintro (⟨hx, hne⟩ | hx | hx)
      · exact ⟨Or.inl hx, hne⟩
      · exact ⟨Or.inr (Or.inl hx), fun hy => h.owned hx (hy ▸ hbhas)⟩
      · exact ⟨Or.inr (Or.inr hx), fun hy => (h.apart hx).1 (hy ▸ hbhas)⟩
  · exact node_cutAt_eq_some.mpr ⟨fun hx => by simpa using List.prefix_nil.mp hx, h.top⟩
  · obtain ⟨c, hc⟩ := Option.isSome_iff_exists.mp hq
    exact h.user (Option.isSome_of_eq_some (node_cutAt_eq_some.mp hc).2)
  · exact h.owned ((howns page).mp ho) ((hhas page).mp hx).1
  · exact (h.apart hr).1 ((hhas page).mp hx).1
  · exact (h.apart hr).2 ((howns page).mp hx)
  · exact h.single (value_cutAt_eq_some.mp hq).2 (value_cutAt_eq_some.mp hr).2
  · refine h.words_store ha (fun q c hq => (node_cutAt_eq_some.mp hq).2) (word_cutAt_of List.prefix_rfl) (fun q j hq hne => ?_) hq hj
    obtain ⟨c, hc⟩ := Option.isSome_iff_exists.mp hq
    exact word_cutAt_of_not fun hx => (node_cutAt_eq_some.mp hc).1 (isPrefix_of_concat hx fun hy => hne hy.symm)
  · exact hr.imp_left fun hx => hx.imp_left (howns page).mp

theorem insert (h : HoldsTables base root t rest memory) (ha : t.node p = some a) (hlength : p.length = 3)
    (hfree : t.value (p ++ [i]) = none) (hrest : mapping.Owned → rest mapping.page) (hnode : (t.node p).isSome) :
    HoldsTables base root (t.insert p i mapping hnode hlength) (fun page => rest page ∧ ¬(mapping.Owned ∧ mapping.page = page))
      (store ⟨a * pageSize, i⟩ mapping.leaf memory) := by
  have howns : ∀ page, Owns (t.insert p i mapping hnode hlength) page ↔ (mapping.Owned ∧ mapping.page = page) ∨ t.Owns page := by
    intro page
    constructor
    · rintro ⟨q, other, hq, ho, hpage⟩
      by_cases hx : q = p ++ [i]
      · rw [hx, value_insert_self] at hq
        cases hq
        exact Or.inl ⟨ho, hpage⟩
      · rw [value_insert_of_ne hx] at hq
        exact Or.inr ⟨q, other, hq, ho, hpage⟩
    · rintro (⟨ho, hpage⟩ | ⟨q, other, hq, ho, hpage⟩)
      · exact ⟨p ++ [i], mapping, value_insert_self, ho, hpage⟩
      · have hx : q ≠ p ++ [i] := by
          rintro rfl
          rw [hfree] at hq
          cases hq
        exact ⟨q, other, (value_insert_of_ne hx).trans hq, ho, hpage⟩
  have hroot : p = [] → IsUser i := by
    rintro rfl
    cases hlength
  have hsingle : ∀ q other, t.value q = some other → other.Owned → mapping.Owned → mapping.page ≠ other.page := by
    intro q other hq ho hm hx
    exact (h.apart (hrest hm)).2 ⟨q, other, hq, ho, hx.symm⟩
  refine ⟨?_, h.physical.congr fun page => ?_, h.small, h.top, h.user, fun {page} ho => ?_,
    fun {page} hr => ⟨(h.apart hr.1).1, fun hx => ?_⟩, fun {q r x y} hq hr hx hy hpage => ?_, fun {q j c} hq hj => ?_, h.kernel_store ha hroot,
    fun {page} hr => h.content_store ha ?_⟩
  · rw [h.others]
    rfl
  · rw [howns]
    constructor
    · rintro (hx | hx | hx)
      · exact Or.inl hx
      · exact Or.inr (Or.inl (Or.inr hx))
      · by_cases hm : mapping.Owned ∧ mapping.page = page
        · exact Or.inr (Or.inl (Or.inl hm))
        · exact Or.inr (Or.inr ⟨hx, hm⟩)
    · rintro (hx | (⟨hm, rfl⟩ | hx) | hx)
      · exact Or.inl hx
      · exact Or.inr (Or.inr (hrest hm))
      · exact Or.inr (Or.inl hx)
      · exact Or.inr (Or.inr hx.1)
  · rcases (howns page).mp ho with ⟨hm, rfl⟩ | hx
    · exact (h.apart (hrest hm)).1
    · exact h.owned hx
  · rcases (howns page).mp hx with hm | hx
    · exact hr.2 hm
    · exact (h.apart hr.1).2 hx
  · by_cases hqp : q = p ++ [i] <;> by_cases hrp : r = p ++ [i]
    · rw [hqp, hrp]
    · rw [hqp, value_insert_self] at hq
      rw [value_insert_of_ne hrp] at hr
      cases hq
      exact absurd hpage (hsingle r y hr hy hx)
    · rw [hrp, value_insert_self] at hr
      rw [value_insert_of_ne hqp] at hq
      cases hr
      exact absurd hpage.symm (hsingle q x hq hx hy)
    · rw [value_insert_of_ne hqp] at hq
      rw [value_insert_of_ne hrp] at hr
      exact h.single hq hr hx hy hpage
  · have hself : word (t.insert p i mapping hnode hlength) (p ++ [i]) = mapping.leaf :=
      word_value (t := t.insert p i mapping hnode hlength) (word_last hlength) value_insert_self
    refine h.words_store (u := t.insert p i mapping hnode hlength) ha (fun _ _ hq => hq) hself (fun q j _ hne => ?_) hq hj
    exact word_congr rfl (value_insert_of_ne hne)
  · refine hr.imp_left fun hr => ?_
    rcases hr with hr | hr
    · rcases (howns page).mp hr with ⟨hm, rfl⟩ | hr
      · exact Or.inr (hrest hm)
      · exact Or.inl hr
    · exact Or.inr hr.1

theorem remove (h : HoldsTables base root t rest memory) (ha : t.node p = some a) (hlength : p.length = 3)
    (hvalue : t.value (p ++ [i]) = some mapping) :
    HoldsTables base root (t.cutAt (p ++ [i])) (fun page => rest page ∨ mapping.Owned ∧ mapping.page = page)
      (store ⟨a * pageSize, i⟩ 0 memory) := by
  have hlong : (p ++ [i]).length = 4 := by
    rw [List.length_append, hlength]
    rfl
  have hnodes : ∀ q, node (t.cutAt (p ++ [i])) q = t.node q := congrFun (node_cutAt_leaf hlong)
  have hat : ∀ q other, t.value q = some other → p ++ [i] <+: q → q = p ++ [i] := by
    intro q other hq hx
    have := value_length (Option.isSome_of_eq_some hq)
    exact (hx.eq_of_length (by omega)).symm
  have hhas : ∀ page, Has (t.cutAt (p ++ [i])) page ↔ t.Has page := by
    intro page
    unfold Has
    simp only [hnodes]
  have howns : ∀ page, Owns (t.cutAt (p ++ [i])) page ↔ t.Owns page ∧ ¬(mapping.Owned ∧ mapping.page = page) := by
    intro page
    constructor
    · rintro ⟨q, other, hq, ho, hpage⟩
      obtain ⟨hout, hq⟩ := value_cutAt_eq_some.mp hq
      refine ⟨⟨q, other, hq, ho, hpage⟩, fun hm => hout ?_⟩
      rw [h.single hq hvalue ho hm.1 (hpage.trans hm.2.symm)]
    · rintro ⟨⟨q, other, hq, ho, hpage⟩, hm⟩
      refine ⟨q, other, value_cutAt_eq_some.mpr ⟨fun hx => ?_, hq⟩, ho, hpage⟩
      rw [hat q other hq hx, hvalue] at hq
      cases hq
      exact hm ⟨ho, hpage⟩
  have hroot : p = [] → IsUser i := by
    rintro rfl
    cases hlength
  have hown : ∀ page, mapping.Owned ∧ mapping.page = page → t.Owns page := fun page hm => ⟨p ++ [i], mapping, hvalue, hm.1, hm.2⟩
  refine ⟨?_, h.physical.congr fun page => ?_, h.small, ?_, fun {j q} hq => ?_, fun {page} ho hx => ?_,
    fun {page} hr => ⟨fun hx => ?_, fun hx => ?_⟩, fun {q r mapping mapping'} hq hr => ?_, fun {q j c} hq hj => ?_, h.kernel_store ha hroot,
    fun {page} hr => h.content_store ha ?_⟩
  · rw [h.others]
    rfl
  · rw [hhas, howns]
    constructor
    · rintro (hx | hx | hx)
      · exact Or.inl hx
      · by_cases hm : mapping.Owned ∧ mapping.page = page
        · exact Or.inr (Or.inr (Or.inr hm))
        · exact Or.inr (Or.inl ⟨hx, hm⟩)
      · exact Or.inr (Or.inr (Or.inl hx))
    · rintro (hx | hx | hx | hx)
      · exact Or.inl hx
      · exact Or.inr (Or.inl hx.1)
      · exact Or.inr (Or.inr hx)
      · exact Or.inr (Or.inl (hown page hx))
  · rw [hnodes]
    exact h.top
  · rw [hnodes] at hq
    exact h.user hq
  · exact h.owned ((howns page).mp ho).1 ((hhas page).mp hx)
  · rcases hr with hr | hr
    · exact (h.apart hr).1 ((hhas page).mp hx)
    · exact h.owned (hown page hr) ((hhas page).mp hx)
  · rcases hr with hr | hr
    · exact (h.apart hr).2 ((howns page).mp hx).1
    · exact ((howns page).mp hx).2 hr
  · exact h.single (value_cutAt_eq_some.mp hq).2 (value_cutAt_eq_some.mp hr).2
  · refine h.words_store ha (fun q c hq => (hnodes q).symm.trans hq) (word_cutAt_of List.prefix_rfl) (fun q j hq hne => ?_) hq hj
    obtain ⟨c, hc⟩ := Option.isSome_iff_exists.mp hq
    exact word_cutAt_of_not fun hx => (node_cutAt_eq_some.mp hc).1 (isPrefix_of_concat hx fun hy => hne hy.symm)
  · refine hr.imp_left fun hr => ?_
    rcases hr with hr | hr | hr
    · exact Or.inl ((howns page).mp hr).1
    · exact Or.inr hr
    · exact Or.inl (hown page hr)

theorem release (h : HoldsTables base root t rest memory) (hpage : rest page)
    (hp : memory.physical.Turns physical fun other => memory.physical.Out other ∧ other ≠ page) :
    HoldsTables base root t (fun other => rest other ∧ other ≠ page) { memory with physical } where
  others := by rw [h.others]
  physical := by
    refine (h.physical.trans hp).congr fun other => ?_
    rw [h.physical.out]
    constructor
    · rintro ⟨hx | hx | hx, hne⟩
      · exact Or.inl hx
      · exact Or.inr (Or.inl hx)
      · exact Or.inr (Or.inr ⟨hx, hne⟩)
    · rintro (hx | hx | hx)
      · exact ⟨Or.inl hx, fun hy => (h.apart hpage).1 (hy ▸ hx)⟩
      · exact ⟨Or.inr (Or.inl hx), fun hy => (h.apart hpage).2 (hy ▸ hx)⟩
      · exact ⟨Or.inr (Or.inr hx.1), hx.2⟩
  small := h.small
  top := h.top
  user := h.user
  owned := h.owned
  apart := fun hr => h.apart hr.1
  single := h.single
  words := h.words
  kernel := h.kernel
  content := fun hr => h.content (hr.imp_left fun hx => hx.imp_right And.left)

end HoldsTables
end InferenceOS
