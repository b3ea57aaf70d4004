import InferenceOS.Fs.Fat
import Mathlib.Data.List.Nodup

/-! Cluster chains of the allocation table. A walk succeeds exactly on a chain that ends, repeats nothing
    and fits its workspace; allocation links free clusters into such a chain and release clears one; both
    leave every other entry alone. -/

namespace InferenceOS
open Function
namespace Fat
variable {capacity count : Nat}
def Ends (value : Nat) : Prop := eocFirst ≤ value ∧ value < 2 ^ 28

/-- `l` lists the clusters from `start` to the end of its chain. -/
inductive Chain (fat : Nat → Nat) (n : Nat) : Nat → List Nat → Prop where
  | last {c : Nat} : validCluster c n → Ends (fat c) → Chain fat n c [c]
  | link {c : Nat} {l : List Nat} : validCluster c n → Chain fat n (fat c) l → Chain fat n c (c :: l)

variable {fat fat' : Nat → Nat} {n s c : Nat} {l l' : List Nat}

theorem validCluster.small (h : validCluster c n) : c < reservedFirst := by
  have := h.2.2
  unfold maxDataCluster at this
  unfold reservedFirst
  omega

theorem Chain.start (h : Chain fat n s l) : validCluster s n := by
  cases h <;> assumption

theorem Chain.head (h : Chain fat n s l) : l.head? = some s := by
  cases h <;> rfl

theorem Chain.ne_nil (h : Chain fat n s l) : l ≠ [] := by
  cases h <;> simp

theorem Chain.valid (h : Chain fat n s l) : ∀ c ∈ l, validCluster c n := by
  induction h with
  | last hc _ => simpa using hc
  | link hc _ ih =>
    rintro d (_ | ⟨_, hd⟩)
    · exact hc
    · exact ih d hd

theorem Chain.used (h : Chain fat n s l) : ∀ c ∈ l, fat c ≠ free := by
  induction h with
  | last _ he =>
    simp only [List.mem_singleton, forall_eq]
    intro hz
    have := he.1
    simp [hz, free, eocFirst] at this
  | link _ hl ih =>
    rintro d (_ | ⟨_, hd⟩)
    · intro hz
      have := hl.start.1
      simp [hz, free] at this
    · exact ih d hd

theorem Chain.frame (h : Chain fat n s l) (hf : ∀ c ∈ l, fat' c = fat c) : Chain fat' n s l := by
  induction h with
  | last hc he =>
    refine .last hc ?_
    rwa [hf _ (by simp)]
  | @link c l hc hl ih =>
    refine .link hc ?_
    rw [hf c (by simp)]
    exact ih fun d hd => hf d (List.mem_cons_of_mem _ hd)

theorem Chain.entry_lt (h : Chain fat n s l) : ∀ c ∈ l, fat c < 2 ^ 32 := by
  induction h with
  | last _ he =>
    intro c hc
    rw [List.mem_singleton.mp hc]
    have := he.2
    omega
  | @link c l _ hl ih =>
    rintro d (_ | ⟨_, hd⟩)
    · have := hl.start.small
      unfold reservedFirst at this
      omega
    · exact ih d hd

theorem classifyNext_ends {value : Nat} (h : Ends value) : classifyNext value n = .ok true := by
  have h1 := h.1
  have h2 := h.2
  rw [classifyNext, if_neg (by omega), if_pos h1]

theorem classifyNext_link (h : validCluster c n) : classifyNext c n = .ok false := by
  have hs := h.small
  have h2 := h.1
  simp only [reservedFirst] at hs
  rw [classifyNext, if_neg (by omega), if_neg (by simp only [eocFirst]; omega), if_neg]
  simp only [free, bad, reservedFirst, reservedLast, h, not_true_eq_false, or_false]
  omega

theorem classifyNext_eq_ok {raw : Nat} {eoc : Bool} (h : classifyNext raw n = .ok eoc) :
    (eoc = true ∧ Ends raw) ∨ (eoc = false ∧ validCluster raw n) := by
  unfold classifyNext at h
  split at h
  · cases h
  · split at h
    · rename_i h1 h2
      cases h
      exact Or.inl ⟨rfl, h2, by omega⟩
    · split at h
      · cases h
      · rename_i hv
        cases h
        refine Or.inr ⟨rfl, ?_⟩
        by_contra hc
        exact hv (by simp [hc])

theorem Chain.unique (h : Chain fat n s l) (h' : Chain fat n s l') : l = l' := by
  have clash : ∀ {c}, Ends (fat c) → ¬validCluster (fat c) n := by
    intro c he hv
    have := hv.small
    have := he.1
    simp only [reservedFirst, eocFirst] at *
    omega
  induction h generalizing l' with
  | last _ he =>
    cases h' with
    | last => rfl
    | link _ hl => exact absurd hl.start (clash he)
  | link _ hl ih =>
    cases h' with
    | last _ he => exact absurd hl.start (clash he)
    | link _ hl' => rw [ih hl']

theorem Chain.suffix (h : Chain fat n s l) : ∀ c ∈ l, ∃ r, Chain fat n c r ∧ r <:+ l := by
  induction h with
  | @last c hc he =>
    intro d hd
    rw [List.mem_singleton.mp hd]
    exact ⟨[c], .last hc he, List.suffix_refl _⟩
  | @link c l hc hl ih =>
    intro d hd
    rcases List.mem_cons.mp hd with rfl | hd
    · exact ⟨d :: l, .link hc hl, List.suffix_refl _⟩
    · obtain ⟨r, hr, hs⟩ := ih d hd
      exact ⟨r, hr, hs.trans (List.suffix_cons c l)⟩

theorem Chain.nodup (h : Chain fat n s l) : l.Nodup := by
  induction h with
  | last => exact List.nodup_singleton _
  | @link c l hc hl ih =>
    refine List.nodup_cons.mpr ⟨fun hm => ?_, ih⟩
    obtain ⟨r, hr, hs⟩ := hl.suffix c hm
    have hlen := hs.length_le
    rw [← (Chain.link hc hl).unique hr, List.length_cons] at hlen
    omega

theorem Chain.length_le (h : Chain fat (count + 2) s l) : l.length ≤ count := by
  have hsub : l ⊆ List.range' 2 count := fun c hc => by
    have hv := h.valid c hc
    exact List.mem_range'_1.mpr ⟨hv.1, by have := hv.2.1; omega⟩
  have := (List.subperm_of_subset h.nodup hsub).length_le
  simpa using this

theorem traverseFrom_chain : ∀ {fuel : Nat} {clusters : List Nat}, Chain fat n s l →
    (clusters ++ l).Nodup → clusters.length ≤ capacity → l.length ≤ fuel →
    traverseFrom fat n capacity fuel s clusters =
      if clusters.length + l.length ≤ capacity then .ok (clusters ++ l) else .error .noSpace := by
  intro fuel clusters h
  induction h generalizing fuel clusters with
  | @last c hc he =>
    intro hnd hle hfuel
    obtain ⟨fuel, rfl⟩ : ∃ k, fuel = k + 1 := ⟨fuel - 1, by simp at hfuel; omega⟩
    have hm : c ∉ clusters := fun hm => (List.nodup_append.mp hnd).2.2 c hm c (by simp) rfl
    rw [traverseFrom, if_neg (not_not.mpr hc), if_neg hm, classifyNext_ends he, List.length_singleton]
    split
    · rw [if_neg (by omega)]
    · rw [if_pos (by omega)]
  | @link c l hc hl ih =>
    intro hnd hle hfuel
    obtain ⟨fuel, rfl⟩ : ∃ k, fuel = k + 1 := ⟨fuel - 1, by simp at hfuel; omega⟩
    have hm : c ∉ clusters := fun hm => (List.nodup_append.mp hnd).2.2 c hm c (by simp) rfl
    have hpos := List.length_pos_of_ne_nil hl.ne_nil
    simp only [List.length_cons] at hfuel
    rw [traverseFrom, if_neg (not_not.mpr hc), if_neg hm, classifyNext_link hl.start, List.length_cons]
    split
    · rw [if_neg (by omega)]
    · have heq : clusters ++ c :: l = clusters ++ [c] ++ l := by simp
      rw [heq] at hnd ⊢
      dsimp only
      rw [ih hnd (by simp; omega) (by omega), List.length_append, List.length_singleton, Nat.add_assoc, Nat.add_comm 1]

theorem traverseFrom_eq_ok {capacity : Nat} : ∀ {fuel start : Nat} {clusters : List Nat},
    clusters.Nodup → clusters.length ≤ capacity → traverseFrom fat n capacity fuel start clusters = .ok l →
    ∃ l', l = clusters ++ l' ∧ Chain fat n start l' ∧ l.Nodup ∧ l.length ≤ capacity
  | 0, _, _, _, _, h => by cases h
  | fuel + 1, start, clusters, hnd, hcap, h => by
    rw [traverseFrom] at h
    split at h
    · cases h
    · rename_i hv
      split at h
      · cases h
      · rename_i hm
        split at h
        · cases h
        · rename_i hlen
          have hnd' : (clusters ++ [start]).Nodup := List.nodup_append.mpr
            ⟨hnd, by simp, fun a ha b hb hab => hm (List.mem_singleton.mp hb ▸ hab ▸ ha)⟩
          cases hc : classifyNext (fat start) n with
          | error e => simp [hc] at h
          | ok eoc =>
            rcases classifyNext_eq_ok hc with ⟨rfl, he⟩ | ⟨rfl, -⟩
            · simp only [hc, Except.ok.injEq] at h
              subst h
              exact ⟨[start], rfl, .last (not_not.mp hv) he, hnd', by simp; omega⟩
            · simp only [hc] at h
              obtain ⟨l', rfl, hl', hr⟩ := traverseFrom_eq_ok hnd' (by simp; omega) h
              exact ⟨start :: l', by simp, .link (not_not.mp hv) hl', hr⟩

theorem length_le_of_valid (h : ∀ c ∈ l, validCluster c n) (hnd : l.Nodup) : l.length ≤ n := by
  have hsub : l ⊆ List.range n := fun c hc => List.mem_range.mpr (h c hc).2.1
  have := (List.subperm_of_subset hnd hsub).length_le
  simpa using this

theorem Chain.traverse {capacity : Nat} (h : Chain fat n s l) (hn : validEntryCount n) (hc : 0 < capacity) :
    traverse fat n s capacity = if l.length ≤ capacity then .ok l else .error .noSpace := by
  rw [Fat.traverse, if_neg (by simp [hn, h.start, hc.ne']),
    traverseFrom_chain h (by simpa using h.nodup) (Nat.zero_le _) (length_le_of_valid h.valid h.nodup), List.length_nil, Nat.zero_add]
  rfl

theorem traverse_eq_ok : traverse fat n s capacity = .ok l ↔
    validEntryCount n ∧ 0 < capacity ∧ Chain fat n s l ∧ l.Nodup ∧ l.length ≤ capacity := by
  unfold traverse
  constructor
  · intro h
    split at h
    · cases h
    · rename_i hv
      simp only [not_or, not_not] at hv
      obtain ⟨l', rfl, hl', hnd, hlen⟩ := traverseFrom_eq_ok List.nodup_nil (Nat.zero_le _) h
      exact ⟨hv.1, Nat.pos_of_ne_zero hv.2.1, hl', hnd, hlen⟩
  · rintro ⟨hn, hcap, hl, -, hlen⟩
    exact (hl.traverse hn hcap).trans (if_pos hlen)

theorem findFree_eq : ∀ {left start wanted : Nat}, findFree fat left start wanted =
    ((List.range' start left).filter fun c => fat c = free).take wanted
  | 0, _, _ => by simp [findFree]
  | left + 1, _, 0 => by simp [findFree]
  | left + 1, start, wanted + 1 => by
    rw [findFree, List.range'_succ, List.filter_cons]
    by_cases h : fat start = free
    · simp [h, findFree_eq]
    · simp [h, findFree_eq]

theorem link_of_not_mem : ∀ {l : List Nat} {fat : Nat → Nat}, c ∉ l → link fat l c = fat c
  | [], _, _ => rfl
  | [d], fat, h => by
    rw [link, update_of_ne (by simpa using h)]
  | d :: e :: l, fat, h => by
    simp only [List.mem_cons, not_or] at h
    rw [link, link_of_not_mem (by simp [h]), update_of_ne h.1]

theorem chain_link : ∀ {l : List Nat} {fat : Nat → Nat}, l ≠ [] → l.Nodup → (∀ c ∈ l, validCluster c n) →
    Chain (link fat l) n (l.headD 0) l
  | [], _, h, _, _ => absurd rfl h
  | [c], fat, _, _, hv => by
    have hc : link fat [c] c = endOfChain := update_self c _ _
    refine .last (hv c (by simp)) ?_
    rw [List.headD_cons, hc]
    exact ⟨by decide, by decide⟩
  | c :: d :: l, fat, _, hnd, hv => by
    have hc : c ∉ d :: l := (List.nodup_cons.mp hnd).1
    have hlink : link fat (c :: d :: l) = link (update fat c d) (d :: l) := rfl
    have hfc : link fat (c :: d :: l) c = d := by
      rw [hlink, link_of_not_mem hc, update_self]
    refine .link (hv c (by simp)) ?_
    rw [List.headD_cons, hfc, hlink]
    exact chain_link (by simp) (List.nodup_cons.mp hnd).2 fun e he => hv e (List.mem_cons_of_mem _ he)

/-- What a successful allocation takes and writes. -/
structure Allocated (fat : Nat → Nat) (n count : Nat) (fat' : Nat → Nat) (l : List Nat) : Prop where
  length : l.length = count
  nodup : l.Nodup
  valid : ∀ c ∈ l, validCluster c n
  wasFree : ∀ c ∈ l, fat c = free
  chain : Chain fat' n (l.headD 0) l
  frame : ∀ c, c ∉ l → fat' c = fat c

theorem allocate_eq_ok (h : allocate fat n count capacity = .ok (fat', l)) : Allocated fat n count fat' l := by
  unfold allocate at h
  split at h
  · cases h
  · rename_i hv
    simp only [not_or, not_not, Nat.not_lt] at hv
    obtain ⟨hn, h0, -⟩ := hv
    dsimp only at h
    split at h
    · cases h
    · rename_i hlen
      simp only [Except.ok.injEq, Prod.mk.injEq] at h
      obtain ⟨rfl, rfl⟩ := h
      have hlen := not_not.mp hlen
      have hmem : ∀ c ∈ findFree fat (n - 2) 2 count, validCluster c n ∧ fat c = free := by
        intro c hc
        rw [findFree_eq] at hc
        have hc := List.mem_filter.mp (List.mem_of_mem_take hc)
        have hr := List.mem_range'_1.mp hc.1
        have h1 := hn.1
        have h2 := hn.2
        exact ⟨⟨hr.1, by omega, by omega⟩, by simpa using hc.2⟩
      have hnd : (findFree fat (n - 2) 2 count).Nodup := by
        rw [findFree_eq]
        exact ((List.nodup_range' 1).filter _).sublist (List.take_sublist _ _)
      have hne : findFree fat (n - 2) 2 count ≠ [] := fun he => h0 (by rw [← hlen, he]; rfl)
      exact ⟨hlen, hnd, fun c hc => (hmem c hc).1, fun c hc => (hmem c hc).2, chain_link hne hnd fun c hc => (hmem c hc).1,
        fun c hc => link_of_not_mem hc⟩

theorem allocate_valid (h : allocate fat n count capacity = .ok (fat', l)) : validEntryCount n := by
  unfold allocate at h
  split at h
  · cases h
  · rename_i hv
    exact not_not.mp (not_or.mp hv).1

theorem allocate_isOk (hn : validEntryCount n) (h0 : 0 < count) (hcap : count ≤ capacity)
    (hfree : count ≤ ((List.range' 2 (n - 2)).filter fun c => fat c = free).length) :
    ∃ fat' l, allocate fat n count capacity = .ok (fat', l) := by
  have hlen : (findFree fat (n - 2) 2 count).length = count := by
    rw [findFree_eq, List.length_take]
    omega
  refine ⟨link fat (findFree fat (n - 2) 2 count), findFree fat (n - 2) 2 count, ?_⟩
  unfold allocate
  rw [if_neg (by simp only [not_or, not_not, Nat.not_lt]; exact ⟨hn, Nat.pos_iff_ne_zero.mp h0, hcap⟩)]
  dsimp only
  rw [if_neg (not_not.mpr hlen)]

theorem clear_apply : ∀ {l : List Nat} {fat : Nat → Nat}, clear fat l c = if c ∈ l then free else fat c
  | [], fat => by simp [clear]
  | d :: l, fat => by
    have hstep : clear fat (d :: l) = clear (update fat d free) l := rfl
    rw [hstep, clear_apply]
    by_cases hc : c ∈ l
    · simp [hc]
    · by_cases hd : c = d
      · subst hd
        simp [hc]
      · simp [hc, hd]

theorem release_eq_ok (h : traverse fat n s capacity = .ok l) : release fat n s capacity = .ok (clear fat l, l) := by
  simp [release, h, bind, Except.bind]

theorem release_of_error {e : IosError} (h : traverse fat n s capacity = .error e) : release fat n s capacity = .error e := by
  simp [release, h, bind, Except.bind]

/-- The free clusters of a table. -/
def freeClusters (fat : Nat → Nat) (n : Nat) : List Nat := (List.range' 2 (n - 2)).filter fun c => fat c = free

theorem allocate_eq (hn : validEntryCount n) (h0 : 0 < count) (hcap : count ≤ capacity) :
    allocate fat n count capacity = if (freeClusters fat n).length < count then .error .noSpace else
      .ok (link fat ((freeClusters fat n).take count), (freeClusters fat n).take count) := by
  have hfound : findFree fat (n - 2) 2 count = (freeClusters fat n).take count := findFree_eq
  unfold allocate
  rw [if_neg (by simp only [not_or, not_not, Nat.not_lt]; exact ⟨hn, Nat.pos_iff_ne_zero.mp h0, hcap⟩)]
  dsimp only
  rw [hfound, List.length_take]
  split
  · rw [if_pos (by omega)]
  · rw [if_neg (by omega)]

theorem Allocated.clear (h : Allocated fat n count fat' l) : Fat.clear fat' l = fat := by
  funext c
  rw [clear_apply]
  split
  · rename_i hc
    exact (h.wasFree c hc).symm
  · rename_i hc
    exact h.frame c hc

/-- An allocation takes the lowest free clusters or there are too few of them, the walk reads the new chain back, and its
    release undoes the allocation. A release changes only a chain that the walk accepts. -/
theorem allocate_release (fat : Nat → Nat) (n count capacity : Nat) :
    (n ≤ maxDataCluster + 1 → 0 < count → count ≤ capacity →
      ((∃ e, allocate fat n count capacity = .error e) ↔ (freeClusters fat n).length < count) ∧
      ∀ fat' l, allocate fat n count capacity = .ok (fat', l) →
        l = (freeClusters fat n).take count ∧ l.length = count ∧ (∀ c, c ∉ l → fat' c = fat c) ∧
          traverse fat' n (l.headD 0) capacity = .ok l ∧ release fat' n (l.headD 0) capacity = .ok (fat, l)) ∧
    ∀ s, (∀ e, traverse fat n s capacity = .error e → release fat n s capacity = .error e) ∧
      ∀ fat' l, release fat n s capacity = .ok (fat', l) →
        traverse fat n s capacity = .ok l ∧ ∀ c, fat' c = if c ∈ l then free else fat c := by
  refine ⟨fun hmax h0 hcap => ⟨?_, fun fat' l h => ?_⟩, fun s => ⟨fun e => release_of_error, fun fat' l h => ?_⟩⟩
  · obtain hn | hn := Nat.lt_or_ge 2 n
    · rw [allocate_eq ⟨hn, hmax⟩ h0 hcap]
      split
      · exact iff_of_true ⟨_, rfl⟩ ‹_›
      · exact iff_of_false (by rintro ⟨_, h⟩; cases h) ‹_›
    · refine iff_of_true ⟨.invalidArgument, if_pos (Or.inl fun hx => absurd hx.1 (by omega))⟩ ?_
      rwa [freeClusters, Nat.sub_eq_zero_of_le hn]
  · have ha := allocate_eq_ok h
    have hn := allocate_valid h
    have hwalk : traverse fat' n (l.headD 0) capacity = .ok l :=
      traverse_eq_ok.mpr ⟨hn, h0.trans_le hcap, ha.chain, ha.nodup, ha.length.trans_le hcap⟩
    refine ⟨?_, ha.length, ha.frame, hwalk, ?_⟩
    · rw [allocate_eq hn h0 hcap] at h
      split at h
      · cases h
      · cases h
        rfl
    · rw [release_eq_ok hwalk, ha.clear]
  · cases hwalk : traverse fat n s capacity with
    | error e =>
      rw [release_of_error hwalk] at h
      cases h
    | ok clusters =>
      rw [release_eq_ok hwalk] at h
      cases h
      exact ⟨rfl, fun _ => clear_apply⟩

/-- A request for no cluster is refused, however many are free. -/
theorem allocate_none : ¬((∃ e, allocate (fun _ => free) 3 0 1 = .error e) ↔ (freeClusters (fun _ => free) 3).length < 0) := by
  intro h
  exact absurd (h.mp ⟨.invalidArgument, rfl⟩) (Nat.not_lt_zero _)

end Fat
end InferenceOS
