import InferenceOS.Block.Cache
import Mathlib.Data.Finset.Card
import Mathlib.Data.List.Range

/-! What the cache shows of its device. `view` is the bytes a reader of the cache gets: the entry of
    the sector, or the medium when no entry holds it. Every operation keeps the cache coherent, whatever
    the device does; reads and pins keep the view, a write changes it at one sector, and a barrier
    brings the medium up to the view. -/

namespace InferenceOS
open Program Function CacheEntry
variable {i n : Nat} {c' : BlockCache}

namespace BlockCache
variable {cache : BlockCache}
variable {b : Nat → Sector} {d : BlockDevice} {c : BlockCache} {clock target : Nat}

/-- Entry `i` holds sector `n`. -/
def Holds (cache : BlockCache) (i n : Nat) : Prop :=
  i < cache.entryCount ∧ (cache.entries i).state ≠ .empty ∧ (cache.entries i).sector = n

/-- The bytes a reader of the cache gets for sector `n`. -/
def view (cache : BlockCache) (n : Nat) : Sector :=
  match cache.findEntry n with
  | some i => (cache.entries i).bytes
  | none => cache.device.contents n

/-- The invariant of the cache. -/
structure Coherent (cache : BlockCache) : Prop where
  unique : ∀ {i j n}, cache.Holds i n → cache.Holds j n → i = j
  clean : ∀ {i}, i < cache.entryCount → (cache.entries i).state = .clean →
    (cache.entries i).bytes = cache.device.contents (cache.entries i).sector
  idle : ∀ {i}, i < cache.entryCount → (cache.entries i).ioActive = false
  unpinned : ∀ {i}, i < cache.entryCount → (cache.entries i).state = .empty → (cache.entries i).pinCount = 0
  inRange : ∀ {i n}, cache.Holds i n → n < cache.device.sectorCount
  generation : ∀ {i}, i < cache.entryCount → (cache.entries i).state = .dirty ∨ (cache.entries i).state = .error →
    (cache.entries i).dirtyGeneration ≤ cache.currentGeneration

theorem findEntry_eq_some (h : cache.findEntry n = some i) : cache.Holds i n := by
  have := List.find?_some h
  simp only [decide_eq_true_eq] at this
  exact ⟨List.mem_range.mp (List.mem_of_find?_eq_some h), this.1, this.2⟩

theorem findEntry_eq_none : cache.findEntry n = none ↔ ∀ i, ¬cache.Holds i n := by
  simp only [findEntry, List.find?_eq_none, List.mem_range, decide_eq_true_eq, Holds, not_and]

theorem Coherent.findEntry (h : cache.Coherent) (hi : cache.Holds i n) : cache.findEntry n = some i := by
  rcases hf : cache.findEntry n with - | j
  · exact absurd hi (findEntry_eq_none.mp hf i)
  · rw [h.unique (findEntry_eq_some hf) hi]

theorem Coherent.view_of_holds (h : cache.Coherent) (hi : cache.Holds i n) : cache.view n = (cache.entries i).bytes := by
  simp only [view, h.findEntry hi]

theorem view_of_not_holds (h : ∀ i, ¬cache.Holds i n) : cache.view n = cache.device.contents n := by
  simp only [view, findEntry_eq_none.mpr h]

theorem Coherent.view_eq (h : cache.Coherent) {b : Sector} (hi : ∀ i, cache.Holds i n → (cache.entries i).bytes = b)
    (hn : (∀ i, ¬cache.Holds i n) → cache.device.contents n = b) : cache.view n = b := by
  by_cases hx : ∃ i, cache.Holds i n
  · obtain ⟨i, hx⟩ := hx
    rw [h.view_of_holds hx, hi i hx]
  · have hx := not_exists.mp hx
    rw [view_of_not_holds hx, hn hx]

/-- Entry `i` may be evicted. -/
def Loose (cache : BlockCache) (i : Nat) : Prop :=
  i < cache.entryCount ∧ (cache.entries i).pinCount = 0 ∧
    ((cache.entries i).state = .empty ∨ (cache.entries i).state = .clean)

theorem victimAmong_spec {entries : Nat → CacheEntry} {i : Nat} : ∀ {l : List Nat} {victim : Option Nat},
    victimAmong entries l victim = some i →
      (∀ v, victim = some v → (entries v).pinCount = 0 ∧ ((entries v).state = .empty ∨ (entries v).state = .clean)) →
      (i ∈ l ∨ victim = some i) ∧ (entries i).pinCount = 0 ∧ ((entries i).state = .empty ∨ (entries i).state = .clean)
  | [], victim, h, hv => ⟨Or.inr h, hv i h⟩
  | j :: l, victim, h, hv => by
    rw [victimAmong] at h
    have next : ∀ {victim'}, victimAmong entries l victim' = some i →
        (∀ v, victim' = some v → (entries v).pinCount = 0 ∧ ((entries v).state = .empty ∨ (entries v).state = .clean)) →
        (victim' = some i → i ∈ j :: l ∨ victim = some i) →
        (i ∈ j :: l ∨ victim = some i) ∧ (entries i).pinCount = 0 ∧
          ((entries i).state = .empty ∨ (entries i).state = .clean) := by
      intro victim' h' hv' hi
      obtain ⟨hm, hp⟩ := victimAmong_spec h' hv'
      exact ⟨hm.elim (fun hm => Or.inl (List.mem_cons_of_mem _ hm)) hi, hp⟩
    split at h
    · exact next h hv Or.inr
    · rename_i hpin
      simp only [ne_eq, not_or, not_not] at hpin
      split at h
      · rename_i hempty
        cases h
        exact ⟨Or.inl List.mem_cons_self, hpin.1, Or.inl hempty⟩
      · split at h
        · rename_i hclean
          refine next h (fun v hv' => ?_) fun hi => ?_
          · cases hv'
            exact ⟨hpin.1, Or.inr hclean.1⟩
          · cases hi
            exact Or.inl List.mem_cons_self
        · exact next h hv Or.inr

theorem selectVictim_eq_some (h : cache.selectVictim = some i) : cache.Loose i := by
  obtain ⟨hm, hp⟩ := victimAmong_spec h (by simp)
  rcases hm with hm | hm
  · exact ⟨List.mem_range.mp hm, hp⟩
  · cases hm

theorem victimAmong_isSome {entries : Nat → CacheEntry} : ∀ {l : List Nat} {victim : Option Nat},
    (victim.isSome ∨ ∃ i ∈ l, (entries i).pinCount = 0 ∧ (entries i).ioActive = false ∧
      ((entries i).state = .empty ∨ (entries i).state = .clean)) → (victimAmong entries l victim).isSome
  | [], victim, h => by simpa [victimAmong] using h
  | j :: l, victim, h => by
    rw [victimAmong]
    split
    · rename_i hbusy
      refine victimAmong_isSome (h.imp_right ?_)
      rintro ⟨i, hi, hp, hio, hs⟩
      rcases List.mem_cons.mp hi with rfl | hi
      · simp [hp, hio] at hbusy
      · exact ⟨i, hi, hp, hio, hs⟩
    · split
      · rfl
      · rename_i hempty
        split
        · exact victimAmong_isSome (Or.inl rfl)
        · rename_i hclean
          by_cases hv : victim.isSome
          · exact victimAmong_isSome (Or.inl hv)
          · have hn : victim = none := by simpa using hv
            rcases h with h | ⟨i, hi, hp, hio, hs⟩
            · exact absurd h hv
            · refine victimAmong_isSome (Or.inr ?_)
              rcases List.mem_cons.mp hi with rfl | hi
              · simp only [hn, Option.mem_def, reduceCtorEq, false_implies, implies_true, and_true] at hclean
                exact absurd hs (by simp [hempty, hclean])
              · exact ⟨i, hi, hp, hio, hs⟩

theorem Coherent.selectVictim_ne_none (h : cache.Coherent) (hi : cache.Loose i) : cache.selectVictim ≠ none := by
  have : (cache.selectVictim).isSome :=
    victimAmong_isSome (Or.inr ⟨i, List.mem_range.mpr hi.1, hi.2.1, h.idle hi.1, hi.2.2⟩)
  intro hn
  simp [hn] at this

def revise (cache : BlockCache) (i : Nat) (entry : CacheEntry) (clock : Nat) (device : BlockDevice) : BlockCache :=
  { cache with entries := update cache.entries i entry, useClock := clock, device }

def SameMedium (d d' : BlockDevice) : Prop := d' = d ∨ d' = d.tick

theorem SameMedium.contents {d' : BlockDevice} (h : SameMedium d d') : d'.contents = d.contents := by
  rcases h with rfl | rfl <;> rfl

theorem SameMedium.sectorCount {d' : BlockDevice} (h : SameMedium d d') : d'.sectorCount = d.sectorCount := by
  rcases h with rfl | rfl <;> rfl

section Revise
variable {i j n clock : Nat} {entry : CacheEntry} {device : BlockDevice}

@[simp] theorem revise_entryCount : (cache.revise i entry clock device).entryCount = cache.entryCount := rfl
@[simp] theorem revise_device : (cache.revise i entry clock device).device = device := rfl
@[simp] theorem revise_generation :
    (cache.revise i entry clock device).currentGeneration = cache.currentGeneration := rfl

@[simp] theorem revise_self : (cache.revise i entry clock device).entries i = entry := by simp [revise]

theorem revise_of_ne (h : j ≠ i) : (cache.revise i entry clock device).entries j = cache.entries j := by
  simp [revise, h]

theorem revise_holds_of_ne (h : j ≠ i) : (cache.revise i entry clock device).Holds j n ↔ cache.Holds j n := by
  simp only [Holds, revise_entryCount, revise_of_ne h]

theorem revise_holds_self : (cache.revise i entry clock device).Holds i n ↔
    i < cache.entryCount ∧ entry.state ≠ .empty ∧ entry.sector = n := by
  simp only [Holds, revise_entryCount, revise_self]

theorem revise_loose_of_ne (h : j ≠ i) : (cache.revise i entry clock device).Loose j ↔ cache.Loose j := by
  simp only [Loose, revise_entryCount, revise_of_ne h]

theorem Coherent.revise (h : cache.Coherent) (hd : device.contents = cache.device.contents)
    (hc : device.sectorCount = cache.device.sectorCount)
    (hfree : entry.state ≠ .empty → ∀ j, j ≠ i → ¬cache.Holds j entry.sector)
    (hclean : entry.state = .clean → entry.bytes = cache.device.contents entry.sector)
    (hio : entry.ioActive = false) (hpin : entry.state = .empty → entry.pinCount = 0)
    (hrange : entry.state ≠ .empty → entry.sector < cache.device.sectorCount)
    (hgen : entry.state = .dirty ∨ entry.state = .error → entry.dirtyGeneration ≤ cache.currentGeneration) :
    (cache.revise i entry clock device).Coherent := by
  have clash : ∀ {j n}, j ≠ i → (cache.revise i entry clock device).Holds i n →
      ¬(cache.revise i entry clock device).Holds j n := by
    intro j n hj hi hj'
    rw [revise_holds_self] at hi
    rw [revise_holds_of_ne hj] at hj'
    exact hfree hi.2.1 j hj (hi.2.2 ▸ hj')
  constructor
  · intro j k n hj hk
    by_cases hji : j = i
    · subst hji
      by_cases hki : k = j
      · exact hki.symm
      · exact absurd hk (clash hki hj)
    · by_cases hki : k = i
      · subst hki
        exact absurd hj (clash hji hk)
      · exact h.unique ((revise_holds_of_ne hji).mp hj) ((revise_holds_of_ne hki).mp hk)
  · intro j hj hs
    by_cases hji : j = i
    · subst hji
      simp only [revise_self, revise_device, hd] at hs ⊢
      exact hclean hs
    · simp only [revise_of_ne hji, revise_device, hd] at hs ⊢
      exact h.clean hj hs
  · intro j hj
    by_cases hji : j = i
    · subst hji
      simpa using hio
    · rw [revise_of_ne hji]
      exact h.idle hj
  · intro j hj hs
    by_cases hji : j = i
    · subst hji
      simp only [revise_self] at hs ⊢
      exact hpin hs
    · rw [revise_of_ne hji] at hs ⊢
      exact h.unpinned hj hs
  · intro j n hj
    rw [revise_device, hc]
    by_cases hji : j = i
    · subst hji
      rw [revise_holds_self] at hj
      rw [← hj.2.2]
      exact hrange hj.2.1
    · exact h.inRange ((revise_holds_of_ne hji).mp hj)
  · intro j hj hs
    rw [revise_generation]
    by_cases hji : j = i
    · subst hji
      simp only [revise_self] at hs ⊢
      exact hgen hs
    · rw [revise_of_ne hji] at hs ⊢
      exact h.generation hj hs

theorem Coherent.view_revise (h : cache.Coherent) (h' : (cache.revise i entry clock device).Coherent)
    (hi : i < cache.entryCount) (hd : device.contents = cache.device.contents)
    (hold : ∀ n, cache.Holds i n → (entry.state ≠ .empty ∧ entry.sector = n) ∨
      (cache.entries i).bytes = cache.device.contents n) (n : Nat) :
    (cache.revise i entry clock device).view n =
      if entry.state ≠ .empty ∧ entry.sector = n then entry.bytes else cache.view n := by
  by_cases hn : entry.state ≠ .empty ∧ entry.sector = n
  · rw [if_pos hn, h'.view_of_holds (revise_holds_self.mpr ⟨hi, hn⟩), revise_self]
  · rw [if_neg hn]
    refine h'.view_eq (fun j hj => ?_) fun hnone => ?_
    · by_cases hji : j = i
      · subst hji
        exact absurd (revise_holds_self.mp hj).2 hn
      · rw [revise_of_ne hji, h.view_of_holds ((revise_holds_of_ne hji).mp hj)]
    · rw [revise_device, hd]
      refine (h.view_eq (fun j hj => ?_) fun _ => rfl).symm
      by_cases hji : j = i
      · subst hji
        exact (hold n hj).resolve_left hn
      · exact absurd ((revise_holds_of_ne hji).mpr hj) (hnone j)

end Revise

theorem Coherent.loose_bytes (h : cache.Coherent) (hl : cache.Loose i) (hi : cache.Holds i n) :
    (cache.entries i).bytes = cache.device.contents n := by
  rcases hl.2.2 with hs | hs
  · exact absurd hs hi.2.1
  · rw [← hi.2.2]
    exact h.clean hl.1 hs

def Acquired (cache : BlockCache) (n : Nat) (load : Bool) (i : Nat) (c : BlockCache) : Prop :=
  (cache.Holds i n ∧ c = cache.revise i { cache.entries i with lastUse := cache.nextUse } cache.nextUse cache.device) ∨
  ((∀ j, ¬cache.Holds j n) ∧ cache.Loose i ∧ ∃ device, SameMedium cache.device device ∧
    c = cache.revise i { zero with
      bytes := if load then cache.device.contents n else Bytes.zero
      sector := n
      lastUse := cache.nextUse
      state := .clean } cache.nextUse device)

theorem acquireEntry_spec (h : cache.Coherent) {load : Bool} :
    wp (acquireEntry n load) (fun i c => n < cache.device.sectorCount ∧ cache.Acquired n load i c)
      (fun e c => e ≠ .notFound ∧
        (c = cache ∨ ∃ i device, cache.Loose i ∧ SameMedium cache.device device ∧
          c = cache.revise i .zero cache.nextUse device) ∧
        (cache.device.Healthy → ∀ i, cache.Loose i → cache.device.sectorCount ≤ n)) cache := by
  simp only [acquireEntry, wp_bind, wp_get, wp_failIf]
  refine ⟨fun hn => ⟨by simp, by simp, fun _ _ _ => hn⟩, fun hn => ?_⟩
  have hn : n < cache.device.sectorCount := Nat.lt_of_not_le hn
  rcases hf : cache.findEntry n with - | i
  · have hnone := findEntry_eq_none.mp hf
    rcases hv : cache.selectVictim with - | i
    · exact ⟨by simp, Or.inl rfl, fun _ i hi => absurd hv (h.selectVictim_ne_none hi)⟩
    · have hl := selectVictim_eq_some hv
      cases load with
      | false =>
        simp only [wp_bind, wp_modify, wp_pure, Bool.false_eq_true, ↓reduceIte]
        exact ⟨hn, Or.inr ⟨hnone, hl, cache.device, Or.inl rfl, by simp [revise, putEntry, zero]⟩⟩
      | true =>
        simp only [wp_bind, wp_modify, ↓reduceIte, wp_attempt, onDevice, wp_zoom, putEntry]
        refine wp_mono (BlockDevice.read_spec hn) (fun buffer d hd => ?_) fun e d hd => ?_
        · obtain ⟨hb, rfl⟩ := hd
          simp only [wp_pure]
          exact ⟨hn, Or.inr ⟨hnone, hl, cache.device.tick, Or.inr rfl, by simp [revise, hb]⟩⟩
        · obtain ⟨hd, he, hh⟩ := hd
          simp only [wp_fail]
          exact ⟨he, Or.inr ⟨i, d, hl, hd, by simp [revise]⟩, fun hx => absurd hx hh⟩
  · simp only [wp_bind, wp_modify, wp_pure]
    exact ⟨hn, Or.inl ⟨findEntry_eq_some hf, by simp [revise, putEntry]⟩⟩

def CacheEntry.Same (e e' : CacheEntry) : Prop := e' = { e with lastUse := e'.lastUse }

structure Steady (c c' : BlockCache) : Prop where
  coherent : c'.Coherent
  view : c'.view = c.view
  contents : c'.device.contents = c.device.contents
  history : c'.device.history = c.device.history
  status : c'.device.status = c.device.status
  faults : c'.device.faults = c.device.faults
  sectorCount : c'.device.sectorCount = c.device.sectorCount
  entryCount : c'.entryCount = c.entryCount
  generation : c'.currentGeneration = c.currentGeneration
  loose : ∀ i, c'.Loose i ↔ c.Loose i
  kept : ∀ i, i < c.entryCount → ¬c.Loose i → CacheEntry.Same (c.entries i) (c'.entries i)

theorem Steady.refl (h : cache.Coherent) : Steady cache cache :=
  ⟨h, rfl, rfl, rfl, rfl, rfl, rfl, rfl, rfl, fun _ => Iff.rfl, fun _ _ _ => rfl⟩

theorem SameMedium.steady (hd : SameMedium c.device c'.device) (hco : c'.Coherent)
    (hv : c'.view = c.view) (hn : c'.entryCount = c.entryCount) (hg : c'.currentGeneration = c.currentGeneration)
    (hl : ∀ i, c'.Loose i ↔ c.Loose i)
    (hk : ∀ i, i < c.entryCount → ¬c.Loose i → CacheEntry.Same (c.entries i) (c'.entries i)) : Steady c c' := by
  refine ⟨hco, hv, ?_, ?_, ?_, ?_, ?_, hn, hg, hl, hk⟩ <;> rcases hd with hd | hd <;> rw [hd] <;> rfl

theorem Coherent.steady_of_loose (h : cache.Coherent) {entry : CacheEntry} {device : BlockDevice}
    (hi : cache.Loose i) (hd : SameMedium cache.device device) (hpin : entry.pinCount = 0)
    (hio : entry.ioActive = false) (hst : entry.state = .empty ∨ entry.state = .clean)
    (hfree : entry.state ≠ .empty → ∀ j, j ≠ i → ¬cache.Holds j entry.sector)
    (hclean : entry.state = .clean → entry.bytes = cache.device.contents entry.sector)
    (hrange : entry.state ≠ .empty → entry.sector < cache.device.sectorCount) :
    Steady cache (cache.revise i entry clock device) := by
  have hco : (cache.revise i entry clock device).Coherent :=
    h.revise hd.contents hd.sectorCount hfree hclean hio (fun _ => hpin) hrange
      (by rcases hst with hst | hst <;> simp [hst])
  refine SameMedium.steady hd hco (funext fun n => ?_) rfl rfl (fun j => ?_) fun j hj hl => ?_
  · rw [h.view_revise hco hi.1 hd.contents fun n hn => Or.inr (h.loose_bytes hi hn)]
    split
    · rename_i hn
      have hs : entry.state = .clean := hst.resolve_left hn.1
      rw [hclean hs, hn.2]
      refine (h.view_eq (fun j hj => ?_) fun _ => rfl).symm
      by_cases hji : j = i
      · subst hji
        exact h.loose_bytes hi hj
      · exact absurd (hn.2 ▸ hj) (hfree hn.1 j hji)
    · rfl
  · by_cases hji : j = i
    · subst hji
      simp only [Loose, revise_self, revise_entryCount]
      exact ⟨fun _ => hi, fun _ => ⟨hi.1, hpin, hst⟩⟩
    · exact revise_loose_of_ne hji
  · rw [revise_of_ne fun hji : j = i => hl (hji ▸ hi)]
    rfl

theorem Coherent.handled (h : cache.Coherent) (hi : cache.Holds i n) (clock : Nat) (entry : CacheEntry)
    (he : entry = { cache.entries i with lastUse := entry.lastUse, pinCount := entry.pinCount }) :
    (cache.revise i entry clock cache.device).Coherent ∧ (cache.revise i entry clock cache.device).view = cache.view := by
  have hs : entry.state = (cache.entries i).state := by rw [he]
  have hn : entry.sector = (cache.entries i).sector := by rw [he]
  have hb : entry.bytes = (cache.entries i).bytes := by rw [he]
  have hg : entry.dirtyGeneration = (cache.entries i).dirtyGeneration := by rw [he]
  have hio : entry.ioActive = (cache.entries i).ioActive := by rw [he]
  have hco : (cache.revise i entry clock cache.device).Coherent := by
    refine h.revise rfl rfl (fun _ j hj hj' => ?_) (fun hc => ?_) (hio.trans (h.idle hi.1)) (fun hc => ?_)
      (fun _ => ?_) fun hc => ?_
    · rw [hn, hi.2.2] at hj'
      exact hj (h.unique hj' hi)
    · rw [hb, hn]
      exact h.clean hi.1 (hs ▸ hc)
    · exact absurd (hs ▸ hc) hi.2.1
    · rw [hn, hi.2.2]
      exact h.inRange hi
    · rw [hg]
      exact h.generation hi.1 (hs ▸ hc)
  refine ⟨hco, funext fun m => ?_⟩
  rw [h.view_revise hco hi.1 rfl fun m hm => Or.inl ⟨by rw [hs]; exact hm.2.1, by rw [hn]; exact hm.2.2⟩]
  split
  · rename_i hm
    rw [hb]
    exact (h.view_of_holds ⟨hi.1, by rw [← hs]; exact hm.1, by rw [← hn]; exact hm.2⟩).symm
  · rfl

theorem Coherent.steady_touch (h : cache.Coherent) (hi : cache.Holds i n) :
    Steady cache (cache.revise i { cache.entries i with lastUse := clock } clock cache.device) := by
  obtain ⟨hco, hv⟩ := h.handled hi clock { cache.entries i with lastUse := clock } rfl
  refine SameMedium.steady (Or.inl rfl) hco hv rfl rfl (fun j => ?_) fun j hj hl => ?_
  · by_cases hji : j = i
    · subst hji
      simp only [Loose, revise_self, revise_entryCount]
    · exact revise_loose_of_ne hji
  · by_cases hji : j = i
    · subst hji
      rw [revise_self]
      rfl
    · rw [revise_of_ne hji]
      rfl

theorem Coherent.steady_acquired (h : cache.Coherent) (hn : n < cache.device.sectorCount) (ha : cache.Acquired n true i c) :
    Steady cache c ∧ c.Holds i n := by
  rcases ha with ⟨hi, rfl⟩ | ⟨hnone, hl, device, hd, rfl⟩
  · exact ⟨h.steady_touch hi, revise_holds_self.mpr hi⟩
  · exact ⟨h.steady_of_loose hl hd rfl rfl (Or.inr rfl) (fun _ j _ => hnone j) (fun _ => rfl) fun _ => hn,
      revise_holds_self.mpr ⟨hl.1, by simp, rfl⟩⟩

theorem Coherent.steady_failed (h : cache.Coherent) (hc : c = cache ∨ ∃ i device, cache.Loose i ∧ SameMedium cache.device device ∧
      c = cache.revise i .zero cache.nextUse device) : Steady cache c := by
  rcases hc with rfl | ⟨i, device, hi, hd, rfl⟩
  · exact Steady.refl h
  · exact h.steady_of_loose hi hd rfl rfl (Or.inl rfl) (by simp [zero]) (by simp [zero])
      (by simp [zero])

theorem read_spec (h : cache.Coherent) {n : Nat} :
    wp (read n) (fun b c => b = cache.view n ∧ n < cache.device.sectorCount ∧ Steady cache c)
      (fun e c => Steady cache c ∧ e ≠ .notFound ∧
        (cache.device.Healthy → ∀ i, cache.Loose i → cache.device.sectorCount ≤ n)) cache := by
  simp only [read, wp_bind]
  refine wp_mono (acquireEntry_spec h) (fun i c ⟨hn, ha⟩ => ?_) fun e c ⟨he, hc, hh⟩ => ⟨h.steady_failed hc, he, hh⟩
  obtain ⟨hs, hi⟩ := h.steady_acquired hn ha
  exact ⟨by rw [← hs.view, hs.coherent.view_of_holds hi], hn, hs⟩

/-- A step that stored `b` as sector `n` in the cache and left the medium alone. -/
structure Stored (c c' : BlockCache) (n : Nat) (b : Sector) : Prop where
  coherent : c'.Coherent
  view : c'.view = update c.view n b
  contents : c'.device.contents = c.device.contents
  history : c'.device.history = c.device.history
  status : c'.device.status = c.device.status
  faults : c'.device.faults = c.device.faults
  sectorCount : c'.device.sectorCount = c.device.sectorCount
  entryCount : c'.entryCount = c.entryCount
  generation : c'.currentGeneration = c.currentGeneration
  loose : ∃ i, ∀ j, j ≠ i → (c'.Loose j ↔ c.Loose j)
  pins : ∀ i, (c'.entries i).pinCount = (c.entries i).pinCount
  kept : ∀ i, i < c.entryCount → ¬c.Loose i →
    (c'.entries i).state ≠ .empty ∧ (c'.entries i).sector = (c.entries i).sector
  others : ∀ i m, c'.Holds i m → m ≠ n → c'.entries i = c.entries i

theorem Coherent.not_empty (h : cache.Coherent) (hi : i < cache.entryCount) (hl : ¬cache.Loose i) :
    (cache.entries i).state ≠ .empty := fun hs => hl ⟨hi, h.unpinned hi hs, Or.inl hs⟩

theorem Coherent.stored (h : cache.Coherent) {entry : CacheEntry} {device : BlockDevice}
    (hi : cache.Holds i n ∨ ((∀ j, ¬cache.Holds j n) ∧ cache.Loose i)) (hd : SameMedium cache.device device)
    (hn : n < cache.device.sectorCount) (hst : entry.state = .dirty) (hsec : entry.sector = n)
    (hpin : entry.pinCount = (cache.entries i).pinCount) (hio : entry.ioActive = false)
    (hgen : entry.dirtyGeneration ≤ cache.currentGeneration) :
    Stored cache (cache.revise i entry clock device) n entry.bytes := by
  have hlt : i < cache.entryCount := hi.elim (·.1) (·.2.1)
  have hco : (cache.revise i entry clock device).Coherent := by
    refine h.revise hd.contents hd.sectorCount (fun _ j hj hj' => ?_) (by simp [hst]) hio (by simp [hst])
      (fun _ => hsec ▸ hn) fun _ => hgen
    rw [hsec] at hj'
    rcases hi with hi | hi
    · exact hj (h.unique hj' hi)
    · exact hi.1 j hj'
  have hview : ∀ m, (cache.revise i entry clock device).view m = update cache.view n entry.bytes m := by
    intro m
    rw [h.view_revise hco hlt hd.contents fun m hm => ?_, update_apply]
    · simp only [hst, hsec, ne_eq, reduceCtorEq, not_false_eq_true, true_and, eq_comm (a := n)]
    · rcases hi with hi | hi
      · exact Or.inl ⟨by simp [hst], by rw [hsec, ← hi.2.2, hm.2.2]⟩
      · exact Or.inr (h.loose_bytes hi.2 hm)
  refine ⟨hco, funext hview, hd.contents, ?_, ?_, ?_, hd.sectorCount, rfl, rfl, ⟨i, fun j hj => revise_loose_of_ne hj⟩,
    fun j => ?_, fun j hj hl => ?_, fun j m hj hm => revise_of_ne fun hji => ?_⟩
  · rcases hd with rfl | rfl <;> rfl
  · rcases hd with rfl | rfl <;> rfl
  · rcases hd with rfl | rfl <;> rfl
  · by_cases hji : j = i
    · subst hji
      rw [revise_self, hpin]
    · rw [revise_of_ne hji]
  · by_cases hji : j = i
    · subst hji
      rcases hi with hi | hi
      · rw [revise_self, hsec, hi.2.2]
        exact ⟨by simp [hst], rfl⟩
      · exact absurd hi.2 hl
    · rw [revise_of_ne hji]
      exact ⟨h.not_empty hj hl, rfl⟩
  · subst hji
    rw [revise_holds_self, hsec] at hj
    exact hm hj.2.2.symm

theorem write_spec (h : cache.Coherent) {n generation : Nat} {b : Sector} :
    wp (write n b generation) (fun _ c => Stored cache c n b ∧ n < cache.device.sectorCount)
      (fun e c => Steady cache c ∧ e ≠ .notFound ∧
        (cache.device.Healthy → 0 < generation → generation ≤ cache.currentGeneration →
          ∀ i, cache.Loose i → cache.device.sectorCount ≤ n)) cache := by
  simp only [write, wp_bind, wp_get, wp_failIf]
  refine ⟨fun hg => ⟨Steady.refl h, by simp, fun _ _ _ => by omega⟩, fun hg =>
    ⟨fun hr => ⟨Steady.refl h, by simp, fun hh => by simp [hh.status] at hr⟩, fun _ => ?_⟩⟩
  refine wp_mono (acquireEntry_spec h) (fun i c hx => ?_)
    (fun e c hx => by obtain ⟨he, hc, hh⟩ := hx; exact ⟨h.steady_failed hc, he, fun hx _ _ => hh hx⟩)
  obtain ⟨hn, ha⟩ := hx
  rw [wp_modify]
  have hgen : generation ≤ cache.currentGeneration := by omega
  -- The acquired entry becomes dirty; the two updates of the entry are one.
  have two : ∀ entry clock device, (cache.revise i entry clock device).putEntry i
      { (cache.revise i entry clock device).entries i with bytes := b, dirtyGeneration := generation, state := .dirty } =
      cache.revise i { entry with bytes := b, dirtyGeneration := generation, state := .dirty } clock device := by
    intro entry clock device
    simp [putEntry, revise]
  rcases ha with ⟨hi, rfl⟩ | ⟨hnone, hl, device, hd, rfl⟩
  · rw [two]
    exact ⟨h.stored (Or.inl hi) (Or.inl rfl) hn rfl hi.2.2 rfl (h.idle hi.1) hgen, hn⟩
  · rw [two]
    exact ⟨h.stored (Or.inr ⟨hnone, hl⟩) hd hn rfl rfl hl.2.1.symm rfl hgen, hn⟩

structure WroteBack (target : Nat) (c c' : BlockCache) (done : List Nat) (first : Option IosError) : Prop where
  entryCount : c'.entryCount = c.entryCount
  generation : c'.currentGeneration = c.currentGeneration
  status : c'.device.status = c.device.status
  faults : c'.device.faults = c.device.faults
  sectorCount : c'.device.sectorCount = c.device.sectorCount
  entries : ∀ i, c'.entries i = if i ∈ done ∧ Due target (c.entries i)
    then { c.entries i with ioActive := false, state := (c'.entries i).state } else c.entries i
  states : ∀ i ∈ done, Due target (c.entries i) → (c'.entries i).state = .dirty ∨ (c'.entries i).state = .error
  written : first = none → ∀ i ∈ done, Due target (c.entries i) →
    (c'.entries i).state = .dirty ∧ c'.device.contents (c.entries i).sector = (c.entries i).bytes
  elsewhere : ∀ n, (∀ i ∈ done, Due target (c.entries i) → (c.entries i).sector ≠ n) →
    c'.device.contents n = c.device.contents n
  history : ∃ ws, c'.device.history = c.device.history ++ ws ∧ c'.device.contents = replay c.device.contents ws ∧
    ∀ e ∈ ws, ∃ i ∈ done, Due target (c.entries i) ∧
      ∃ b, e = .write (c.entries i).sector b ∧ (first = none → b = (c.entries i).bytes)
  healthy : c.device.Healthy → first = none
  found : first ≠ some .notFound

theorem WroteBack.refl : WroteBack target cache cache [] none := by
  refine ⟨rfl, rfl, rfl, rfl, rfl, by simp, by simp, by simp, fun _ _ => rfl, ⟨[], by simp, rfl, by simp⟩,
    fun _ => rfl, by simp⟩

theorem store_self : (d.store n 1 b).contents n = b 0 := by
  simp [BlockDevice.store, storeSectors]

theorem store_of_ne {k : Nat} (h : k ≠ n) : (d.store n 1 b).contents k = d.contents k := by
  unfold BlockDevice.store storeSectors
  dsimp only
  rw [if_neg (by omega)]

theorem store_replay : (d.store n 1 b).contents = replay d.contents [.write n (b 0)] := by
  have := @BlockDevice.replay_store n b 1 d.contents
  exact this.symm

namespace WroteBack
variable {target i : Nat} {c c' : BlockCache} {done : List Nat} {first : Option IosError}

theorem skip (h : WroteBack target c c' done first) (hdue : ¬Due target (c.entries i)) :
    WroteBack target c c' (done ++ [i]) first := by
  have mem : ∀ j, (j ∈ done ++ [i] ∧ Due target (c.entries j)) ↔ (j ∈ done ∧ Due target (c.entries j)) := by
    intro j
    constructor
    · rintro ⟨hj, hd⟩
      rcases List.mem_append.mp hj with hj | hj
      · exact ⟨hj, hd⟩
      · exact absurd (List.mem_singleton.mp hj ▸ hd) hdue
    · exact fun ⟨hj, hd⟩ => ⟨List.mem_append_left _ hj, hd⟩
  refine ⟨h.entryCount, h.generation, h.status, h.faults, h.sectorCount, fun j => ?_, fun j hj hd => ?_,
    fun hf j hj hd => ?_, fun n hn => ?_, ?_, h.healthy, h.found⟩
  · simp only [mem j]
    exact h.entries j
  · exact h.states j ((mem j).mp ⟨hj, hd⟩).1 hd
  · exact h.written hf j ((mem j).mp ⟨hj, hd⟩).1 hd
  · exact h.elsewhere n fun j hj hd => hn j (List.mem_append_left _ hj) hd
  · obtain ⟨ws, hws, hr, hmem⟩ := h.history
    refine ⟨ws, hws, hr, fun e he => ?_⟩
    obtain ⟨j, hj, hb⟩ := hmem e he
    exact ⟨j, List.mem_append_left _ hj, hb⟩

theorem put (h : WroteBack target c c' done first) (hdue : Due target (c.entries i)) (hi : i ∉ done)
    (hu : ∀ j ∈ done, Due target (c.entries j) → (c.entries j).sector ≠ (c.entries i).sector)
    (device : BlockDevice) (st : CacheState) (failure : Option IosError) (hne : failure ≠ some .notFound)
    (hst : device.status = c'.device.status) (hfa : device.faults = c'.device.faults)
    (hsc : device.sectorCount = c'.device.sectorCount) (hstate : st = .dirty ∨ st = .error)
    (hok : failure = none → st = .dirty ∧ device.contents (c.entries i).sector = (c.entries i).bytes)
    (helse : ∀ n, n ≠ (c.entries i).sector → device.contents n = c'.device.contents n)
    (hhist : ∃ ws, device.history = c'.device.history ++ ws ∧ device.contents = replay c'.device.contents ws ∧
      ∀ e ∈ ws, ∃ b, e = .write (c.entries i).sector b ∧ (failure = none → b = (c.entries i).bytes))
    (hhealthy : c.device.Healthy → failure = none) :
    WroteBack target c { c' with
      entries := update c'.entries i { c.entries i with ioActive := false, state := st }, device }
      (done ++ [i]) (first <|> failure) := by
  have none_iff : (first <|> failure) = none ↔ first = none ∧ failure = none := by cases first <;> simp
  refine ⟨h.entryCount, h.generation, hst.trans h.status, hfa.trans h.faults, hsc.trans h.sectorCount, fun j => ?_,
    fun j hj hd => ?_, fun hf j hj hd => ?_, fun n hn => ?_, ?_, fun hh => ?_, ?_⟩
  · by_cases hji : j = i
    · subst hji
      simp [hdue]
    · have hm : (j ∈ done ++ [i]) ↔ j ∈ done := by simp [hji]
      simp only [update_of_ne hji, hm]
      exact h.entries j
  · by_cases hji : j = i
    · subst hji
      simpa using hstate
    · simp only [update_of_ne hji]
      exact h.states j (by simpa [hji] using hj) hd
  · obtain ⟨hf1, hf2⟩ := none_iff.mp hf
    by_cases hji : j = i
    · subst hji
      simpa using hok hf2
    · simp only [update_of_ne hji]
      have hj : j ∈ done := by simpa [hji] using hj
      exact ⟨(h.written hf1 j hj hd).1, by rw [helse _ (hu j hj hd)]; exact (h.written hf1 j hj hd).2⟩
  · rw [helse n fun hn' => hn i (by simp) hdue hn'.symm]
    exact h.elsewhere n fun j hj hd => hn j (List.mem_append_left _ hj) hd
  · obtain ⟨ws, hws, hr, hmem⟩ := h.history
    obtain ⟨vs, hvs, hr', hmem'⟩ := hhist
    refine ⟨ws ++ vs, by rw [hvs, hws, List.append_assoc], by rw [hr', hr, replay_append], fun e he => ?_⟩
    rcases List.mem_append.mp he with he | he
    · obtain ⟨j, hj, hd, b, hb, hf⟩ := hmem e he
      exact ⟨j, List.mem_append_left _ hj, hd, b, hb, fun hx => hf (none_iff.mp hx).1⟩
    · obtain ⟨b, hb, hf⟩ := hmem' e he
      exact ⟨i, by simp, hdue, b, hb, fun hx => hf (none_iff.mp hx).2⟩
  · exact none_iff.mpr ⟨h.healthy hh, hhealthy hh⟩
  · have := h.found
    cases first <;> simp_all

theorem recorded (h : WroteBack target c c' done first) {medium : Nat → Sector} (hm : c.device.Recorded medium) :
    c'.device.Recorded medium := by
  obtain ⟨ws, hws, hr, -⟩ := h.history
  rw [BlockDevice.Recorded, hws, replay_append, ← hm]
  exact hr

end WroteBack

theorem writeBack_spec (h : cache.Coherent) {target : Nat} : ∀ {rest done : List Nat} {first : Option IosError}
    {c : BlockCache}, WroteBack target cache c done first → (done ++ rest).Nodup →
    (∀ i ∈ done ++ rest, i < cache.entryCount) →
    wp (writeBack target rest first) (fun f c' => WroteBack target cache c' (done ++ rest) f) (fun _ _ => False) c
  | [], done, first, c, hw, _, _ => by simpa [writeBack] using hw
  | i :: rest, done, first, c, hw, hnd, hlt => by
    have hi : i ∉ done := fun hi => (List.nodup_append.mp hnd).2.2 i hi i List.mem_cons_self rfl
    have hci : c.entries i = cache.entries i := by simpa [hi] using hw.entries i
    have heq : done ++ i :: rest = done ++ [i] ++ rest := by simp
    simp only [writeBack, wp_bind, wp_get, hci, wp_ite]
    rw [heq] at hnd hlt ⊢
    refine ⟨fun hdue => ?_, fun hdue => writeBack_spec h (hw.skip hdue) hnd hlt⟩
    have hlt' : ∀ {j}, j ∈ done ++ [i] → j < cache.entryCount := fun hj => hlt _ (List.mem_append_left _ hj)
    have hold : ∀ {j}, j < cache.entryCount → Due target (cache.entries j) → cache.Holds j (cache.entries j).sector := by
      intro j hj hd
      refine ⟨hj, fun hs => ?_, rfl⟩
      simp [Due, hs] at hd
    have hu : ∀ j ∈ done, Due target (cache.entries j) → (cache.entries j).sector ≠ (cache.entries i).sector := by
      intro j hj hd hs
      have := h.unique (hold (hlt' (List.mem_append_left _ hj)) hd) (hs ▸ hold (hlt' (by simp)) hdue)
      exact hi (this ▸ hj)
    have hrange : (cache.entries i).sector < c.device.sectorCount := by
      rw [hw.sectorCount]
      exact h.inRange (hold (hlt' (by simp)) hdue)
    have healthy : cache.device.Healthy → c.device.Healthy := fun hh =>
      ⟨hw.status.trans hh.status, fun k => by rw [hw.faults]; exact hh.faults k⟩
    simp only [wp_bind, wp_modify, wp_attempt, onDevice, wp_zoom, putEntry]
    refine wp_mono (BlockDevice.write_spec hrange) (fun _ d hd => ?_) fun e d ⟨hd, he, hh⟩ => ?_
    · subst hd
      simp only [update_idem]
      have := hw.put hdue hi hu (c.device.store (cache.entries i).sector 1 fun _ => (cache.entries i).bytes) .dirty none
        (by simp) rfl rfl rfl (Or.inl rfl)
        (fun _ => ⟨rfl, store_self⟩) (fun n hn => store_of_ne hn)
        ⟨[.write (cache.entries i).sector (cache.entries i).bytes], by simp [BlockDevice.store], store_replay,
          by simp⟩
        fun _ => rfl
      have e0 : (first <|> none) = first := by cases first <;> rfl
      rw [e0] at this
      exact writeBack_spec h this hnd hlt
    · simp only [update_idem]
      refine writeBack_spec h (hw.put hdue hi hu d .error (some e) (by simpa using he) ?_ ?_ ?_
        (Or.inr rfl) (by simp) (fun n hn => ?_) ?_ fun hx => absurd (healthy hx) hh) hnd hlt
      · rcases hd with rfl | ⟨residue, rfl⟩ <;> rfl
      · rcases hd with rfl | ⟨residue, rfl⟩ <;> rfl
      · rcases hd with rfl | ⟨residue, rfl⟩ <;> rfl
      · rcases hd with rfl | ⟨residue, rfl⟩
        · rfl
        · exact store_of_ne hn
      · rcases hd with rfl | ⟨residue, rfl⟩
        · exact ⟨[], by simp, rfl, by simp⟩
        · exact ⟨[.write (cache.entries i).sector (residue 0)], by simp [BlockDevice.store],
            store_replay, by simp⟩

structure Refiled (c c' : BlockCache) : Prop where
  entryCount : c'.entryCount = c.entryCount
  generation : c'.currentGeneration = c.currentGeneration
  status : c'.device.status = c.device.status
  faults : c'.device.faults = c.device.faults
  sectorCount : c'.device.sectorCount = c.device.sectorCount
  bytes : ∀ i, (c'.entries i).bytes = (c.entries i).bytes
  sector : ∀ i, (c'.entries i).sector = (c.entries i).sector
  pins : ∀ i, (c'.entries i).pinCount = (c.entries i).pinCount
  empty : ∀ i, (c'.entries i).state = .empty ↔ (c.entries i).state = .empty

theorem Refiled.holds (r : Refiled c c') : c'.Holds i n ↔ c.Holds i n := by
  simp only [Holds, r.entryCount, r.sector, ne_eq, r.empty]

theorem Refiled.coherent (r : Refiled c c') (h : c.Coherent) (hio : ∀ i, i < c.entryCount → (c'.entries i).ioActive = false)
    (hclean : ∀ i, i < c.entryCount → (c'.entries i).state = .clean →
      (c.entries i).bytes = c'.device.contents (c.entries i).sector)
    (hgen : ∀ i, i < c.entryCount → (c'.entries i).state = .dirty ∨ (c'.entries i).state = .error →
      (c'.entries i).dirtyGeneration ≤ c.currentGeneration) : c'.Coherent where
  unique hi hj := h.unique (r.holds.mp hi) (r.holds.mp hj)
  clean hi hs := by
    rw [r.bytes, r.sector]
    exact hclean _ (r.entryCount ▸ hi) hs
  idle hi := hio _ (r.entryCount ▸ hi)
  unpinned hi hs := by
    rw [r.pins]
    exact h.unpinned (r.entryCount ▸ hi) ((r.empty _).mp hs)
  inRange hi := by
    rw [r.sectorCount]
    exact h.inRange (r.holds.mp hi)
  generation hi hs := by
    rw [r.generation]
    exact hgen _ (r.entryCount ▸ hi) hs

theorem Refiled.view (r : Refiled c c') (h : c.Coherent) (h' : c'.Coherent)
    (he : ∀ n, (∀ i, ¬c.Holds i n) → c'.device.contents n = c.device.contents n) : c'.view = c.view := by
  funext n
  refine h'.view_eq (fun i hi => ?_) fun hn => ?_
  · rw [r.bytes, h.view_of_holds (r.holds.mp hi)]
  · have hn' : ∀ i, ¬c.Holds i n := fun i hi => hn i (r.holds.mpr hi)
    rw [he n hn', view_of_not_holds hn']

structure Flushed (target : Nat) (c c' : BlockCache) : Prop extends Refiled c c' where
  coherent : c'.Coherent
  view : c'.view = c.view
  entries : ∀ i, c'.entries i = if i < c.entryCount ∧ Due target (c.entries i)
    then { c.entries i with state := .clean, dirtyGeneration := 0, ioActive := false } else c.entries i
  written : ∀ {i n}, c.Holds i n → Due target (c.entries i) → c'.device.contents n = c.view n
  elsewhere : ∀ {n}, (∀ i, c.Holds i n → ¬Due target (c.entries i)) → c'.device.contents n = c.device.contents n
  history : ∃ ws, c'.device.history = c.device.history ++ ws ++ [.flush] ∧
    c'.device.contents = replay c.device.contents ws ∧ ∀ e ∈ ws, ∃ n, e = .write n (c.view n)
  recorded : ∀ medium, c.device.Recorded medium → c'.device.Recorded medium

structure Unflushed (target : Nat) (c c' : BlockCache) : Prop extends Refiled c c' where
  coherent : c'.Coherent
  view : c'.view = c.view
  states : ∀ i, i < c.entryCount → Due target (c.entries i) →
    ((c'.entries i).state = .dirty ∨ (c'.entries i).state = .error) ∧
      (c'.entries i).dirtyGeneration = (c.entries i).dirtyGeneration
  others : ∀ i, i < c.entryCount → ¬Due target (c.entries i) → c'.entries i = c.entries i
  elsewhere : ∀ {n}, (∀ i, c.Holds i n → ¬Due target (c.entries i)) → c'.device.contents n = c.device.contents n
  recorded : ∀ medium, c.device.Recorded medium → c'.device.Recorded medium

theorem Unflushed.refl (h : cache.Coherent) : Unflushed target cache cache :=
  ⟨⟨rfl, rfl, rfl, rfl, rfl, fun _ => rfl, fun _ => rfl, fun _ => rfl, fun _ => Iff.rfl⟩, h, rfl,
    fun _ _ hd => ⟨hd.1, rfl⟩, fun _ _ _ => rfl, fun _ => rfl, fun _ h => h⟩

theorem Due.holds (hi : i < cache.entryCount) (hd : Due target (cache.entries i)) : cache.Holds i (cache.entries i).sector := by
  refine ⟨hi, fun hs => ?_, rfl⟩
  simp [Due, hs] at hd

section Barrier
variable {target : Nat} {c : BlockCache} {first : Option IosError}

theorem WroteBack.refiled (w : WroteBack target cache c (List.range cache.entryCount) first) : Refiled cache c := by
  have field : ∀ i, (c.entries i).bytes = (cache.entries i).bytes ∧ (c.entries i).sector = (cache.entries i).sector ∧
      (c.entries i).pinCount = (cache.entries i).pinCount ∧
      ((c.entries i).state = .empty ↔ (cache.entries i).state = .empty) := by
    intro i
    by_cases hd : i ∈ List.range cache.entryCount ∧ Due target (cache.entries i)
    · have hs := w.states i hd.1 hd.2
      have ho := (Due.holds (List.mem_range.mp hd.1) hd.2).2.1
      rw [w.entries i, if_pos hd]
      refine ⟨rfl, rfl, rfl, fun he => ?_, fun he => absurd he ho⟩
      rcases hs with hs | hs <;> rw [hs] at he <;> cases he
    · rw [w.entries i, if_neg hd]
      exact ⟨rfl, rfl, rfl, Iff.rfl⟩
  exact ⟨w.entryCount, w.generation, w.status, w.faults, w.sectorCount, fun i => (field i).1, fun i => (field i).2.1,
    fun i => (field i).2.2.1, fun i => (field i).2.2.2⟩

theorem WroteBack.elsewhere_holds (w : WroteBack target cache c (List.range cache.entryCount) first)
    (hn : ∀ i, cache.Holds i n → ¬Due target (cache.entries i)) : c.device.contents n = cache.device.contents n :=
  w.elsewhere n fun i hi hd hs => hn i (hs ▸ Due.holds (List.mem_range.mp hi) hd) hd

theorem WroteBack.clean_kept (w : WroteBack target cache c (List.range cache.entryCount) first) (h : cache.Coherent)
    (hi : i < cache.entryCount) (hs : (cache.entries i).state = .clean) :
    (cache.entries i).bytes = c.device.contents (cache.entries i).sector := by
  rw [w.elsewhere_holds fun j hj hd => ?_]
  · exact h.clean hi hs
  · have : j = i := h.unique hj ⟨hi, by simp [hs], rfl⟩
    subst this
    simp [Due, hs] at hd

theorem WroteBack.unflushed (w : WroteBack target cache c (List.range cache.entryCount) first) (h : cache.Coherent)
    (hdev : SameMedium c.device c'.device) (hn : c'.entryCount = c.entryCount)
    (hg : c'.currentGeneration = c.currentGeneration)
    (he : ∀ i, c'.entries i = c.entries i ∨
      ((c.entries i).state = .dirty ∧ Due target (c.entries i) ∧ c'.entries i = { c.entries i with state := .error })) :
    Unflushed target cache c' := by
  have r := w.refiled
  have hcon := hdev.contents
  -- A due entry stays due in kind through the first loop, and any other entry stays as it was.
  have due : ∀ i, i < cache.entryCount → Due target (cache.entries i) →
      ((c.entries i).state = .dirty ∨ (c.entries i).state = .error) ∧
        (c.entries i).dirtyGeneration = (cache.entries i).dirtyGeneration ∧ (c.entries i).ioActive = false := by
    intro i hi hd
    refine ⟨w.states i (List.mem_range.mpr hi) hd, ?_⟩
    rw [w.entries i, if_pos ⟨List.mem_range.mpr hi, hd⟩]
    exact ⟨rfl, rfl⟩
  have other : ∀ i, i < cache.entryCount → ¬Due target (cache.entries i) → c.entries i = cache.entries i := by
    intro i hi hd
    rw [w.entries i, if_neg fun hx => hd hx.2]
  have r' : Refiled cache c' := by
    refine ⟨hn.trans r.entryCount, hg.trans r.generation, ?_, ?_, hdev.sectorCount.trans r.sectorCount, fun i => ?_,
      fun i => ?_, fun i => ?_, fun i => ?_⟩
    · rw [← r.status]
      rcases hdev with hd | hd <;> simp [hd, BlockDevice.tick]
    · rw [← r.faults]
      rcases hdev with hd | hd <;> simp [hd, BlockDevice.tick]
    · rw [← r.bytes]
      rcases he i with he | ⟨-, -, he⟩ <;> rw [he]
    · rw [← r.sector]
      rcases he i with he | ⟨-, -, he⟩ <;> rw [he]
    · rw [← r.pins]
      rcases he i with he | ⟨-, -, he⟩ <;> rw [he]
    · rw [← r.empty]
      rcases he i with he | ⟨hs, -, he⟩ <;> rw [he]
      simp [hs]
  have helse : ∀ {n}, (∀ i, cache.Holds i n → ¬Due target (cache.entries i)) →
      c'.device.contents n = cache.device.contents n := fun hn => by rw [hcon, w.elsewhere_holds hn]
  have hco : c'.Coherent := by
    refine r'.coherent h (fun i hi => ?_) (fun i hi hs => ?_) fun i hi hs => ?_
    · have : (c.entries i).ioActive = false := by
        by_cases hd : Due target (cache.entries i)
        · exact (due i hi hd).2.2
        · rw [other i hi hd]
          exact h.idle hi
      rcases he i with he | ⟨-, -, he⟩ <;> rw [he] <;> exact this
    · have hc : (c.entries i).state = .clean := by
        rcases he i with he | ⟨-, -, he⟩ <;> rw [he] at hs
        · exact hs
        · cases hs
      have hd : ¬Due target (cache.entries i) := fun hd => by
        rcases (due i hi hd).1 with h' | h' <;> rw [h'] at hc <;> cases hc
      rw [other i hi hd] at hc
      rw [hcon]
      exact w.clean_kept h hi hc
    · have hgen : (c'.entries i).dirtyGeneration = (c.entries i).dirtyGeneration := by
        rcases he i with he | ⟨-, -, he⟩ <;> rw [he]
      rw [hgen]
      by_cases hd : Due target (cache.entries i)
      · rw [(due i hi hd).2.1]
        exact h.generation hi hd.1
      · rw [other i hi hd]
        refine h.generation hi ?_
        rcases he i with he | ⟨hst, -, -⟩
        · rwa [he, other i hi hd] at hs
        · rw [other i hi hd] at hst
          exact Or.inl hst
  refine ⟨r', hco, r'.view h hco fun n hn => helse fun i hi => absurd hi (hn i), fun i hi hd => ?_, fun i hi hd => ?_,
    helse, fun m hm => ?_⟩
  · obtain ⟨hs, hgen, -⟩ := due i hi hd
    rcases he i with he | ⟨-, -, he⟩ <;> rw [he]
    · exact ⟨hs, hgen⟩
    · exact ⟨Or.inr rfl, hgen⟩
  · rcases he i with he | ⟨hst, hdue, -⟩
    · rw [he, other i hi hd]
    · rw [other i hi hd] at hdue
      exact absurd hdue hd
  · have := w.recorded hm
    rcases hdev with hd | hd <;> rw [hd] <;> exact this

theorem WroteBack.flushed (w : WroteBack target cache c (List.range cache.entryCount) none) (h : cache.Coherent) :
    Flushed target cache (settle target { c with device := c.device.flushed }) := by
  have r := w.refiled
  have entries : ∀ i, (settle target { c with device := c.device.flushed }).entries i =
      if i < cache.entryCount ∧ Due target (cache.entries i)
      then { cache.entries i with state := .clean, dirtyGeneration := 0, ioActive := false } else cache.entries i := by
    intro i
    by_cases hd : i < cache.entryCount ∧ Due target (cache.entries i)
    · have hm := List.mem_range.mpr hd.1
      have hs := (w.written rfl i hm hd.2).1
      have he : c.entries i = { cache.entries i with ioActive := false, state := .dirty } := by
        rw [w.entries i, if_pos ⟨hm, hd.2⟩, hs]
      have hdue : Due target (c.entries i) := by
        rw [he]
        exact ⟨Or.inl rfl, hd.2.2⟩
      rw [if_pos hd]
      simp only [settle, w.entryCount, hd.1, hdue, and_self, ↓reduceIte]
      rw [he]
    · have he : c.entries i = cache.entries i := by
        rw [w.entries i, if_neg fun hx => hd ⟨List.mem_range.mp hx.1, hx.2⟩]
      simp only [settle, w.entryCount, he]
      rw [if_neg hd, if_neg hd]
  have r' : Refiled cache (settle target { c with device := c.device.flushed }) := by
    refine ⟨r.entryCount, r.generation, r.status, r.faults, r.sectorCount, fun i => ?_, fun i => ?_, fun i => ?_,
      fun i => ?_⟩ <;> rw [entries i] <;> split
    all_goals try rfl
    rename_i hd
    exact ⟨fun he => by simp at he, fun he => absurd he (Due.holds hd.1 hd.2).2.1⟩
  have written : ∀ {i n}, cache.Holds i n → Due target (cache.entries i) →
      c.device.contents n = (cache.entries i).bytes := by
    intro i n hi hd
    rw [← hi.2.2]
    exact (w.written rfl i (List.mem_range.mpr hi.1) hd).2
  have hco : (settle target { c with device := c.device.flushed }).Coherent := by
    refine r'.coherent h (fun i hi => ?_) (fun i hi hs => ?_) fun i hi hs => ?_
    · rw [entries i]
      split
      · rfl
      · exact h.idle hi
    · by_cases hd : Due target (cache.entries i)
      · exact (written (Due.holds hi hd) hd).symm
      · rw [entries i, if_neg fun hx => hd hx.2] at hs
        exact w.clean_kept h hi hs
    · rw [entries i] at hs ⊢
      split at hs
      · simp at hs
      · rename_i hd
        rw [if_neg hd]
        exact h.generation hi hs
  refine ⟨r', hco, r'.view h hco fun n hn => w.elsewhere_holds fun i hi => absurd hi (hn i), entries,
    fun hi hd => ?_, fun hn => w.elsewhere_holds hn, ?_, fun m hm => (w.recorded hm).flushed⟩
  · rw [h.view_of_holds hi]
    exact written hi hd
  · obtain ⟨ws, hws, hr, hmem⟩ := w.history
    refine ⟨ws, ?_, hr, fun e he => ?_⟩
    · show c.device.history ++ [.flush] = _
      rw [hws]
    · obtain ⟨i, hi, hd, b, rfl, hb⟩ := hmem e he
      have hh := Due.holds (List.mem_range.mp hi) hd
      exact ⟨_, by rw [h.view_of_holds hh, hb rfl]⟩

theorem barrier_spec (h : cache.Coherent) :
    wp (barrier target) (fun _ c => Flushed target cache c)
      (fun e c => Unflushed target cache c ∧ e ≠ .notFound ∧
        (cache.device.Healthy → 0 < target → target ≤ cache.currentGeneration → False)) cache := by
  simp only [barrier, wp_bind, wp_get, wp_failIf]
  refine ⟨fun hg => ⟨?_, by simp, fun _ _ _ => by omega⟩, fun hg => ?_⟩
  · exact Unflushed.refl h
  have hlt : ∀ i ∈ ([] ++ List.range cache.entryCount : List Nat), i < cache.entryCount := by simp
  refine wp_mono (writeBack_spec h (WroteBack.refl : WroteBack target cache cache [] none)
    (by simpa using List.nodup_range) hlt) (fun first c w => ?_) fun _ _ hf => hf.elim
  rw [List.nil_append] at w
  have same : ∀ {d}, SameMedium c.device d → Unflushed target cache { c with device := d } := fun hd =>
    w.unflushed h hd rfl rfl fun i => Or.inl rfl
  cases first with
  | some e =>
    refine ⟨same (Or.inl rfl), fun he => w.found (by rw [he]), fun hh _ _ => ?_⟩
    have := w.healthy hh
    cases this
  | none =>
    simp only [wp_bind, wp_attempt, onDevice, wp_zoom]
    refine wp_mono BlockDevice.flush_spec (fun _ d hd => ?_) fun e d hx => ?_
    · subst hd
      exact w.flushed h
    · obtain ⟨hd, he, hh⟩ := hx
      simp only [wp_modify, wp_fail]
      refine ⟨w.unflushed h hd rfl rfl fun i => ?_, he, fun hx _ _ =>
        hh ⟨w.status.trans hx.status, fun k => by rw [w.faults]; exact hx.faults k⟩⟩
      by_cases hs : i < c.entryCount ∧ (c.entries i).state = .dirty ∧ (c.entries i).dirtyGeneration ≤ target
      · exact Or.inr ⟨hs.2.1, ⟨Or.inl hs.2.1, hs.2.2⟩, if_pos hs⟩
      · exact Or.inl (if_neg hs)

end Barrier

end BlockCache
end InferenceOS
