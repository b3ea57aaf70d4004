import Mathlib.Order.Interval.Finset.Nat
import InferenceOS.Kernel.Physical

/-! The states of the physical pages. A call changes the pages of one range and nothing else, and the counters are
    the numbers of free and of allocated pages. -/

namespace InferenceOS
open Program

namespace PhysicalMemory
variable {memory : PhysicalMemory} {state : PageState} {first count page : Nat}

theorem ofBits_number : PageState.ofBits (BitVec.ofNat 8 state.number.1) = state := by
  cases state <;> rfl

theorem getPageState_setPageState : (memory.setPageState first state).getPageState page =
    if page = first then state else memory.getPageState page := by
  unfold getPageState setPageState
  rw [Packed.field_setField]
  split
  · exact ofBits_number
  · rfl

theorem setPages_eq : ∀ {count first : Nat} {memory : PhysicalMemory},
    setPages state first count memory = { memory with pageStates := (setPages state first count memory).pageStates }
  | 0, _, _ => rfl
  | count + 1, first, memory => by
    rw [setPages, setPages_eq]
    rfl

theorem getPageState_setPages : ∀ {count first : Nat} {memory : PhysicalMemory},
    (setPages state first count memory).getPageState page =
      if first ≤ page ∧ page < first + count then state else memory.getPageState page
  | 0, first, memory => by
    rw [setPages, if_neg (by omega)]
  | count + 1, first, memory => by
    rw [setPages, getPageState_setPages, getPageState_setPageState]
    by_cases hpage : page = first
    · rw [if_neg (by omega), if_pos hpage, if_pos (by omega)]
    · rw [if_neg hpage]
      exact if_congr (by omega) rfl rfl

theorem markRange_eq : memory.markRange first count state =
    { memory with pageStates := (memory.markRange first count state).pageStates } := setPages_eq

theorem getPageState_markRange (h : first + count < 2 ^ 64) (hp : page < memory.managedPageCount) :
    (memory.markRange first count state).getPageState page =
      if first ≤ page ∧ page < first + count then state else memory.getPageState page := by
  unfold markRange
  rw [getPageState_setPages, Nat.mod_eq_of_lt h]
  exact if_congr (by omega) rfl rfl

def countOf (memory : PhysicalMemory) (state : PageState) : Nat :=
  Nat.count (fun page => memory.getPageState page = state) memory.managedPageCount

theorem count_outside {p q : Nat → Prop} [DecidablePred p] [DecidablePred q] {n : Nat} (h : ∀ i, i < n → (p i ↔ q i)) :
    Nat.count p n = Nat.count q n := by
  rw [Nat.count_eq_card_filter_range, Nat.count_eq_card_filter_range]
  congr 1
  exact Finset.filter_congr fun i hi => h i (Finset.mem_range.mp hi)

theorem count_range {p q : Nat → Prop} [DecidablePred p] [DecidablePred q] {n first count : Nat} (hn : first + count ≤ n)
    (hin : ∀ i, first ≤ i → i < first + count → q i ∧ ¬p i)
    (hout : ∀ i, i < n → ¬(first ≤ i ∧ i < first + count) → (p i ↔ q i)) : Nat.count q n = Nat.count p n + count := by
  rw [Nat.count_eq_card_filter_range, Nat.count_eq_card_filter_range]
  have hsplit : (Finset.range n).filter q = (Finset.range n).filter p ∪ Finset.Ico first (first + count) := by
    ext i
    rw [Finset.mem_union, Finset.mem_filter, Finset.mem_filter, Finset.mem_range, Finset.mem_Ico]
    by_cases hi : first ≤ i ∧ i < first + count
    · have := hin i hi.1 hi.2
      constructor
      · exact fun _ => Or.inr hi
      · exact fun _ => ⟨by omega, this.1⟩
    · constructor
      · exact fun ⟨hlt, hq⟩ => Or.inl ⟨hlt, (hout i hlt hi).mpr hq⟩
      · rintro (⟨hlt, hp⟩ | hx)
        · exact ⟨hlt, (hout i hlt hi).mp hp⟩
        · exact absurd hx hi
  have hdisjoint : Disjoint ((Finset.range n).filter p) (Finset.Ico first (first + count)) := by
    rw [Finset.disjoint_left]
    intro i hi hx
    rw [Finset.mem_Ico] at hx
    exact (hin i hx.1 hx.2).2 (Finset.mem_filter.mp hi).2
  rw [hsplit, Finset.card_union_of_disjoint hdisjoint, Nat.card_Ico, Nat.add_sub_cancel_left]

theorem countOf_setPages {old new : PageState} (hne : old ≠ new) (hn : first + count ≤ memory.managedPageCount)
    (h : ∀ i, first ≤ i → i < first + count → memory.getPageState i = old) :
    memory.countOf old = (setPages new first count memory).countOf old + count ∧
      (setPages new first count memory).countOf new = memory.countOf new + count ∧
      ∀ other, other ≠ old → other ≠ new → (setPages new first count memory).countOf other = memory.countOf other := by
  have hmanaged : (setPages new first count memory).managedPageCount = memory.managedPageCount := by
    rw [setPages_eq]
  unfold countOf
  rw [hmanaged]
  refine ⟨count_range hn (fun i h₁ h₂ => ?_) fun i _ hi => ?_, count_range hn (fun i h₁ h₂ => ?_) fun i _ hi => ?_,
    fun other ho hx => count_outside fun i _ => ?_⟩
  · rw [getPageState_setPages, if_pos ⟨h₁, h₂⟩]
    exact ⟨h i h₁ h₂, hne.symm⟩
  · rw [getPageState_setPages, if_neg hi]
  · rw [getPageState_setPages, if_pos ⟨h₁, h₂⟩, h i h₁ h₂]
    exact ⟨rfl, hne⟩
  · rw [getPageState_setPages, if_neg hi]
  · rw [getPageState_setPages]
    split
    · rename_i hi
      rw [h i hi.1 hi.2]
      exact ⟨fun e => absurd e.symm hx, fun e => absurd e.symm ho⟩
    · rfl

theorem available_le : ∀ {left page : Nat}, memory.available page left ≤ left
  | 0, _ => le_rfl
  | left + 1, page => by
    rw [available]
    split
    · exact Nat.succ_le_succ available_le
    · exact Nat.zero_le _

theorem available_spec : ∀ {left page : Nat},
    (∀ i, page ≤ i → i < page + memory.available page left → memory.getPageState i = .free) ∧
      (memory.available page left < left → memory.getPageState (page + memory.available page left) ≠ .free)
  | 0, page => ⟨fun i h₁ h₂ => by rw [available] at h₂; omega, fun h => by omega⟩
  | left + 1, page => by
    rw [available]
    split
    · rename_i hfree
      obtain ⟨hin, hstop⟩ := @available_spec left (page + 1)
      refine ⟨fun i h₁ h₂ => ?_, fun hlt => ?_⟩
      · by_cases hi : i = page
        · rw [hi]
          exact hfree
        · exact hin i (by omega) (by omega)
      · rw [show page + (memory.available (page + 1) left + 1) = page + 1 + memory.available (page + 1) left by omega]
        exact hstop (by omega)
    · rename_i hused
      exact ⟨fun i h₁ h₂ => by omega, fun _ => by rwa [Nat.add_zero]⟩

theorem alignUp_spec {start alignment : Nat} (ha : 0 < alignment) : start ≤ alignUp start alignment ∧
    alignment ∣ alignUp start alignment ∧ ∀ page, start ≤ page → alignment ∣ page → alignUp start alignment ≤ page := by
  unfold alignUp
  refine ⟨?_, Dvd.intro_left _ rfl, fun page hs hd => ?_⟩
  · have := Nat.div_add_mod (start + alignment - 1) alignment
    have := Nat.mod_lt (start + alignment - 1) ha
    rw [Nat.mul_comm]
    omega
  · obtain ⟨k, rfl⟩ := hd
    rw [Nat.mul_comm alignment k]
    refine Nat.mul_le_mul_right alignment ?_
    rw [← Nat.lt_succ_iff, Nat.div_lt_iff_lt_mul ha, Nat.succ_mul, Nat.mul_comm k alignment]
    omega

/-- `count` free pages start at `page`, a multiple of the alignment, between `low` and `high`. -/
structure Fits (memory : PhysicalMemory) (count alignment low high page : Nat) : Prop where
  low : low ≤ page
  high : page + count ≤ high
  aligned : alignment ∣ page
  free : ∀ i, page ≤ i → i < page + count → memory.getPageState i = .free

section Search
variable {alignment limit start fuel : Nat}

theorem searchFrom_eq_some (ha : 0 < alignment) : ∀ {fuel start : Nat},
    memory.searchFrom count alignment limit fuel start = some page → memory.Fits count alignment start limit page
  | 0, _, h => by cases h
  | fuel + 1, start, h => by
    obtain ⟨hle, hdvd, -⟩ := @alignUp_spec start alignment ha
    rw [searchFrom] at h
    split at h
    · cases h
    · dsimp only at h
      split at h
      · cases h
      · rename_i hlimit
        split at h
        · rename_i hall
          cases h
          refine ⟨hle, by omega, hdvd, fun i h₁ h₂ => ?_⟩
          exact available_spec.1 i h₁ (by rw [hall]; exact h₂)
        · have ih := searchFrom_eq_some ha h
          exact ⟨by have := ih.low; omega, ih.high, ih.aligned, ih.free⟩

theorem searchFrom_eq_none (ha : 0 < alignment) (hc : 0 < count) : ∀ {fuel start : Nat}, limit ≤ start + fuel →
    memory.searchFrom count alignment limit fuel start = none → ∀ page, ¬memory.Fits count alignment start limit page
  | 0, start, hf, _, page, h => by
    have := h.low
    have := h.high
    omega
  | fuel + 1, start, hf, hs, page, h => by
    obtain ⟨hlow, hhigh, hdvd, hfree⟩ := h
    obtain ⟨hle, -, hleast⟩ := @alignUp_spec start alignment ha
    have hnext := hleast page hlow hdvd
    rw [searchFrom] at hs
    split at hs
    · omega
    · dsimp only at hs
      split at hs
      · omega
      · split at hs
        · cases hs
        · rename_i hcount
          generalize hn : memory.available (alignUp start alignment) count = n at hs hcount
          have hlt : n < count := lt_of_le_of_ne (hn ▸ available_le) hcount
          have hstop : memory.getPageState (alignUp start alignment + n) ≠ .free := by
            rw [← hn]
            exact available_spec.2 (by rw [hn]; exact hlt)
          have hpast : alignUp start alignment + n + 1 ≤ page := by
            by_contra hx
            exact hstop (hfree _ (by omega) (by omega))
          exact searchFrom_eq_none ha hc (by omega) hs page ⟨hpast, hhigh, hdvd, hfree⟩

theorem search_eq_some (ha : 0 < alignment) (hh : 1 ≤ memory.searchHint) (hm : memory.searchHint ≤ memory.managedPageCount)
    (h : memory.search count alignment = some page) : memory.Fits count alignment 1 memory.managedPageCount page := by
  unfold search at h
  split at h
  · rename_i hs
    cases h
    obtain ⟨hlow, hhigh, hdvd, hfree⟩ := searchFrom_eq_some ha hs
    exact ⟨by omega, hhigh, hdvd, hfree⟩
  · obtain ⟨hlow, hhigh, hdvd, hfree⟩ := searchFrom_eq_some ha h
    exact ⟨hlow, by omega, hdvd, hfree⟩

theorem search_eq_none (ha : 0 < alignment) (hc : 0 < count) : memory.search count alignment = none ↔
    (∀ page, ¬memory.Fits count alignment memory.searchHint memory.managedPageCount page) ∧
      ∀ page, ¬memory.Fits count alignment 1 memory.searchHint page := by
  unfold search
  constructor
  · intro h
    split at h
    · cases h
    · rename_i hs
      exact ⟨searchFrom_eq_none ha hc (by omega) hs, searchFrom_eq_none ha hc (by omega) h⟩
  · rintro ⟨hupper, hlower⟩
    split
    · rename_i hs
      exact absurd (searchFrom_eq_some ha hs) (hupper _)
    · rcases hs : memory.searchFrom count alignment memory.searchHint memory.searchHint 1 with _ | page
      · rfl
      · exact absurd (searchFrom_eq_some ha hs) (hlower _)

end Search

end PhysicalMemory
end InferenceOS
