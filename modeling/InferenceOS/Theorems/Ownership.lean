import InferenceOS.Fs.Owners
import InferenceOS.Theorems.RootChain

/-! The validation of ownership. Both validators accept exactly the owners whose chains end and share no cluster, and the map
    they leave has the one owner of each cluster. -/

namespace InferenceOS
open Function

namespace OwnerMap
variable {map map' : OwnerMap} {index owner c : Nat} {l : List Nat} {chains : List (List Nat)}

def mark (map : OwnerMap) (owner : Nat) (clusters : List Nat) : OwnerMap := fun c => if c ∈ clusters then owner else map c

def marked : OwnerMap → Nat → List (List Nat) → OwnerMap
  | map, _, [] => map
  | map, index, l :: chains => (map.mark (index + 1) l).marked (index + 1) chains

theorem mark_cons (hc : c ∉ l) : mark (update map c owner) owner l = map.mark owner (c :: l) := by
  funext d
  unfold mark
  obtain rfl | hd := eq_or_ne d c
  · rw [if_neg hc, if_pos List.mem_cons_self, update_self]
  · rw [update_of_ne hd]
    simp only [List.mem_cons, hd, false_or]

theorem mark_singleton : map.mark owner [c] = update map c owner := by
  rw [← @mark_cons map _ _ _ List.not_mem_nil]
  funext d
  exact if_neg List.not_mem_nil

theorem marked_of_not_mem : ∀ {chains : List (List Nat)} {map : OwnerMap} {index : Nat}, (∀ l ∈ chains, c ∉ l) →
    map.marked index chains c = map c
  | [], _, _, _ => rfl
  | l :: chains, map, index, h => by
    rw [marked, marked_of_not_mem fun l hl => h l (List.mem_cons_of_mem _ hl), mark, if_neg (h l List.mem_cons_self)]

theorem marked_of_mem : ∀ {chains : List (List Nat)} {map : OwnerMap} {index i : Nat}, chains.Pairwise List.Disjoint →
    chains[i]? = some l → c ∈ l → map.marked index chains c = index + i + 1
  | first :: chains, map, index, 0, hd, hl, hc => by
    cases hl
    rw [marked, marked_of_not_mem fun r hr hx => (List.pairwise_cons.mp hd).1 r hr hc hx, mark, if_pos hc]
  | first :: chains, map, index, i + 1, hd, hl, hc => by
    rw [marked, marked_of_mem (List.pairwise_cons.mp hd).2 hl hc, Nat.add_right_comm index 1 i]
    rfl

def Claims {α : Type} (claim : α → Nat → OwnerMap → Except IosError OwnerMap) (Holds : α → List Nat → Prop) : Prop :=
  ∀ o index map map', index < 2 ^ 32 - 1 →
    (claim o index map = .ok map' ↔ ∃ l, Holds o l ∧ (∀ c ∈ l, map c = 0) ∧ map' = map.mark (index + 1) l)

theorem eachOwner_eq_ok {α : Type} {claim : α → Nat → OwnerMap → Except IosError OwnerMap} {Holds : α → List Nat → Prop}
    (hclaim : Claims claim Holds) : ∀ {owners : List α} {index : Nat} {map map' : OwnerMap},
    index + owners.length ≤ 2 ^ 32 - 1 → (eachOwner claim index owners map = .ok map' ↔
      ∃ chains, List.Forall₂ Holds owners chains ∧ chains.Pairwise List.Disjoint ∧ (∀ l ∈ chains, ∀ c ∈ l, map c = 0) ∧
        map' = map.marked index chains)
  | [], index, map, map', _ => by
    constructor
    · intro h
      cases h
      exact ⟨[], .nil, .nil, by simp, rfl⟩
    · rintro ⟨chains, hholds, -, -, rfl⟩
      cases hholds
      rfl
  | o :: owners, index, map, map', hlen => by
    rw [List.length_cons] at hlen
    have ih := fun {map₁ : OwnerMap} => @eachOwner_eq_ok α claim Holds hclaim owners (index + 1) map₁ map' (by omega)
    constructor
    · intro h
      obtain ⟨map₁, h₁, h₂⟩ := Program.of_bind_ok h
      obtain ⟨l, hl, hfree, rfl⟩ := (hclaim o index map _ (by omega)).mp h₁
      obtain ⟨chains, hholds, hd, hrest, rfl⟩ := ih.mp h₂
      have hapart : ∀ r ∈ chains, ∀ c ∈ r, c ∉ l ∧ map c = 0 := fun r hr c hc => by
        have hx := hrest r hr c hc
        unfold mark at hx
        split at hx
        · cases hx
        · exact ⟨‹_›, hx⟩
      refine ⟨l :: chains, .cons hl hholds, List.pairwise_cons.mpr ⟨fun r hr c hc hx => (hapart r hr c hx).1 hc, hd⟩, ?_, rfl⟩
      exact List.forall_mem_cons.mpr ⟨hfree, fun r hr c hc => (hapart r hr c hc).2⟩
    · rintro ⟨chains, hholds, hd, hfree, rfl⟩
      cases hholds with
      | @cons _ l _ chains hl hholds =>
        obtain ⟨hapart, hd⟩ := List.pairwise_cons.mp hd
        obtain ⟨hfirst, hfree⟩ := List.forall_mem_cons.mp hfree
        show claim o index map >>= _ = _
        rw [(hclaim o index map _ (by omega)).mpr ⟨l, hl, hfirst, rfl⟩]
        refine ih.mpr ⟨chains, hholds, hd, fun r hr c hc => ?_, rfl⟩
        rw [mark, if_neg fun hx => hapart r hr hx hc]
        exact hfree r hr c hc

end OwnerMap

open OwnerMap

namespace Fat
variable {fat : Nat → Nat} {n owner : Nat}

theorem claimFrom_eq_ok (ho : owner < 2 ^ 32 - 1) : ∀ {fuel start : Nat} {map map' : OwnerMap},
    claimFrom fat n owner fuel start map = .ok map' ↔
      ∃ l, Chain fat n start l ∧ l.length ≤ fuel ∧ (∀ c ∈ l, map c = 0) ∧ map' = map.mark (owner + 1) l
  | 0, start, map, map' => by
    refine iff_of_false nofun ?_
    rintro ⟨l, hl, hlen, -⟩
    exact hl.ne_nil (List.length_eq_zero_iff.mp (Nat.le_zero.mp hlen))
  | fuel + 1, start, map, map' => by
    have htag : (owner + 1) % 2 ^ 32 = owner + 1 := Nat.mod_eq_of_lt (by omega)
    rw [claimFrom, htag]
    constructor
    · intro h
      split at h
      · cases h
      rename_i hv
      obtain ⟨hv, hfree⟩ : validCluster start n ∧ map start = 0 := by simpa only [not_or, not_not] using hv
      dsimp only at h
      cases hc : classifyNext (fat start) n with
      | error e =>
        rw [hc] at h
        cases h
      | ok eoc =>
        rw [hc] at h
        rcases classifyNext_eq_ok hc with ⟨rfl, he⟩ | ⟨rfl, -⟩
        · cases h
          exact ⟨[start], .last hv he, by simp, by simpa using hfree, mark_singleton.symm⟩
        · obtain ⟨l, hl, hlen, hrest, rfl⟩ := (claimFrom_eq_ok ho).mp h
          have hnd := (Chain.link hv hl).nodup
          have hnot := (List.nodup_cons.mp hnd).1
          refine ⟨start :: l, .link hv hl, by simpa using hlen, ?_, mark_cons hnot⟩
          refine List.forall_mem_cons.mpr ⟨hfree, fun d hd => ?_⟩
          have := hrest d hd
          rwa [update_of_ne (by rintro rfl; exact hnot hd)] at this
    · rintro ⟨l, hl, hlen, hfree, rfl⟩
      have hnd := hl.nodup
      rw [if_neg (by simp only [not_or, not_not]; exact ⟨hl.start, hfree _ (List.mem_of_mem_head? hl.head)⟩)]
      cases hl with
      | last _ he =>
        rw [classifyNext_ends he, mark_singleton]
      | @link _ l hv hl =>
        have hnot := (List.nodup_cons.mp hnd).1
        rw [classifyNext_link hl.start]
        dsimp only
        rw [(claimFrom_eq_ok ho).mpr ⟨l, hl, by simpa using hlen, fun c hc => ?_, rfl⟩, mark_cons hnot]
        rw [update_of_ne (by rintro rfl; exact hnot hc)]
        exact hfree c (List.mem_cons_of_mem _ hc)

theorem claimStart_claims : Claims (claimStart fat n) (Chain fat n) := by
  intro start index map map' hindex
  unfold claimStart
  constructor
  · intro h
    split at h
    · cases h
    · obtain ⟨l, hl, -, hfree, rfl⟩ := (claimFrom_eq_ok hindex).mp h
      exact ⟨l, hl, hfree, rfl⟩
  · rintro ⟨l, hl, hfree, rfl⟩
    rw [if_neg (not_not.mpr hl.start)]
    exact (claimFrom_eq_ok hindex).mpr ⟨l, hl, length_le_of_valid hl.valid hl.nodup, hfree, rfl⟩

end Fat

namespace Validator
variable {fat : Nat → Nat} {n owner : Nat}

theorem claimFrom_eq_ok (ho : owner < 2 ^ 32 - 1) : ∀ {fuel start capacity held : Nat} {map map' : OwnerMap},
    capacity + fuel * clusterCapacity < 2 ^ 63 → (claimFrom fat n owner fuel start capacity map = .ok (held, map') ↔
      ∃ l, Fat.Chain fat n start l ∧ l.length ≤ fuel ∧ (∀ c ∈ l, map c = 0) ∧ held = capacity + l.length * clusterCapacity ∧
        map' = map.mark (owner + 1) l)
  | 0, start, capacity, held, map, map', _ => by
    refine iff_of_false nofun ?_
    rintro ⟨l, hl, hlen, -⟩
    exact hl.ne_nil (List.length_eq_zero_iff.mp (Nat.le_zero.mp hlen))
  | fuel + 1, start, capacity, held, map, map', hroom => by
    have htag : (owner + 1) % 2 ^ 32 = owner + 1 := Nat.mod_eq_of_lt (by omega)
    have hbytes : clusterCapacity = 4096 := rfl
    rw [Nat.succ_mul] at hroom
    have ih := fun {next : Nat} {map₁ : OwnerMap} =>
      @claimFrom_eq_ok ho fuel next (capacity + clusterCapacity) held map₁ map' (by omega)
    rw [claimFrom, htag]
    constructor
    · intro h
      split at h
      · cases h
      rename_i hv
      obtain ⟨hv, hfree⟩ : Fat.validCluster start n ∧ map start = 0 := by simpa only [not_or, not_not] using hv
      dsimp only at h
      rw [if_neg (by omega)] at h
      obtain ⟨next, hc, hf, -⟩ | ⟨hc, -⟩ := classifyNext_spec hv
      · rw [hc] at h
        cases next with
        | none =>
          cases h
          exact ⟨[start], .last hv hf.2, by simp, by simpa using hfree, by simp, mark_singleton.symm⟩
        | some next =>
          obtain ⟨l, hl, hlen, hrest, rfl, rfl⟩ := ih.mp h
          have hlink : Fat.Chain fat n start (start :: l) := .link hv (by rwa [hf.2.2])
          have hnot := (List.nodup_cons.mp hlink.nodup).1
          refine ⟨start :: l, hlink, by simpa using hlen, ?_, ?_, mark_cons hnot⟩
          · refine List.forall_mem_cons.mpr ⟨hfree, fun d hd => ?_⟩
            have := hrest d hd
            rwa [update_of_ne (by rintro rfl; exact hnot hd)] at this
          · rw [List.length_cons, Nat.succ_mul]
            omega
      · rw [hc] at h
        cases h
    · rintro ⟨l, hl, hlen, hfree, rfl, rfl⟩
      obtain ⟨next, hf⟩ := chain_follows hl
      obtain ⟨next', hc, hf', -⟩ | ⟨-, hno⟩ := classifyNext_spec hl.start
      swap
      · exact absurd hf (hno next)
      rw [if_neg (by simp only [not_or, not_not]; exact ⟨hl.start, hfree _ (List.mem_of_mem_head? hl.head)⟩)]
      dsimp only
      rw [if_neg (by omega), hc]
      cases next' with
      | none =>
        rw [hf'.chain_none hl, mark_singleton]
        simp
      | some next' =>
        obtain ⟨r, rfl, hr⟩ := hf'.chain_some hl
        have hnot := (List.nodup_cons.mp hl.nodup).1
        dsimp only
        refine ih.mpr ⟨r, hr, by simpa using hlen, fun d hd => ?_, ?_, (mark_cons hnot).symm⟩
        · rw [update_of_ne (by rintro rfl; exact hnot hd)]
          exact hfree d (List.mem_cons_of_mem _ hd)
        · rw [List.length_cons, Nat.succ_mul]
          omega

end Validator

/-- The clusters of an owner; an empty file has none. -/
def AllocationOwner.Holds (fat : Nat → Nat) (n : Nat) (owner : AllocationOwner) (l : List Nat) : Prop :=
  if owner.kind = .regularFile ∧ owner.fileSize = 0 then owner.firstCluster = 0 ∧ l = []
  else Fat.Chain fat n owner.firstCluster l ∧ (owner.kind = .regularFile → owner.fileSize ≤ l.length * Validator.clusterCapacity)

namespace Validator
variable {fat : Nat → Nat} {n : Nat}
variable {owner : AllocationOwner} {owners : List AllocationOwner}

theorem holds_lt {l : List Nat} (h : owner.Holds fat n l) : ∀ c ∈ l, c < n := by
  unfold AllocationOwner.Holds at h
  split at h
  · rw [h.2]
    simp
  · exact fun c hc => (h.1.valid c hc).2.1

theorem holds_unique {l l' : List Nat} (h : owner.Holds fat n l) (h' : owner.Holds fat n l') : l = l' := by
  unfold AllocationOwner.Holds at h h'
  split at h
  · rename_i hempty
    rw [if_pos hempty] at h'
    rw [h.2, h'.2]
  · rename_i hheld
    rw [if_neg hheld] at h'
    exact h.1.unique h'.1

theorem holds_directory {l : List Nat} (h : owner.kind = .directory) :
    owner.Holds fat n l ↔ Fat.Chain fat n owner.firstCluster l := by
  unfold AllocationOwner.Holds
  simp [h]

theorem held_by {α β : Type} {R : α → β → Prop} : ∀ {owners : List α} {held : List β}, List.Forall₂ R owners held →
    ∀ b ∈ held, ∃ a, R a b
  | _, _, .nil, _, hb => absurd hb List.not_mem_nil
  | _, _, .cons h hrest, b, hb => by
    rcases List.mem_cons.mp hb with rfl | hb
    · exact ⟨_, h⟩
    · exact held_by hrest b hb

theorem claimOwner_claims (hn : Fat.validEntryCount n) : Claims (claimOwner fat n) (AllocationOwner.Holds fat n) := by
  intro owner index map map' hindex
  have hroom : 0 + n * clusterCapacity < 2 ^ 63 := by
    have hmax : n ≤ maxDataCluster + 1 := hn.2
    rw [show clusterCapacity = 4096 from rfl]
    unfold maxDataCluster at hmax
    omega
  unfold claimOwner AllocationOwner.Holds
  by_cases hempty : owner.kind = .regularFile ∧ owner.fileSize = 0
  · rw [if_pos hempty]
    simp only [if_pos hempty]
    constructor
    · intro h
      split at h
      · cases h
      · rename_i hz
        cases h
        exact ⟨[], ⟨not_not.mp hz, rfl⟩, by simp, rfl⟩
    · rintro ⟨l, ⟨hz, rfl⟩, -, rfl⟩
      rw [if_neg (not_not.mpr hz)]
      rfl
  · rw [if_neg hempty]
    simp only [if_neg hempty]
    constructor
    · intro h
      split at h
      · cases h
      obtain ⟨⟨held, map₁⟩, hwalk, hrest⟩ := Program.of_bind_ok h
      obtain ⟨l, hl, -, hfree, rfl, rfl⟩ := (claimFrom_eq_ok hindex hroom).mp hwalk
      obtain ⟨hcovers, hret⟩ := Program.of_check hrest
      cases hret
      refine ⟨l, ⟨hl, fun hk => ?_⟩, hfree, rfl⟩
      rw [Nat.zero_add] at hcovers
      exact not_lt.mp fun hlt => hcovers ⟨hk, hlt⟩
    · rintro ⟨l, ⟨hl, hcovers⟩, hfree, rfl⟩
      rw [if_neg (not_not.mpr hl.start)]
      have hwalk := (claimFrom_eq_ok hindex hroom).mpr
        ⟨l, hl, Fat.length_le_of_valid hl.valid hl.nodup, hfree, rfl, rfl⟩
      rw [hwalk]
      refine if_neg ?_
      rintro ⟨hk, hlt⟩
      rw [Nat.zero_add] at hlt
      exact absurd (hcovers hk) (not_le.mpr hlt)

/-- Each owner has a chain, and no two share a cluster. -/
def Owned (fat : Nat → Nat) (n : Nat) (owners : List AllocationOwner) (chains : List (List Nat)) : Prop :=
  List.Forall₂ (AllocationOwner.Holds fat n) owners chains ∧ chains.Pairwise List.Disjoint

theorem Owned.unique {chains chains' : List (List Nat)} (h : Owned fat n owners chains)
    (h' : Owned fat n owners chains') : chains = chains' := by
  obtain ⟨h, -⟩ := h
  obtain ⟨h', -⟩ := h'
  induction h generalizing chains' with
  | nil =>
    cases h'
    rfl
  | cons hl _ ih =>
    cases h' with
    | cons hl' hrest => rw [holds_unique hl hl', ih hrest]

theorem validateOwners_eq_ok {ownerMap map : OwnerMap} {count : Nat}
    (h : validOwnerArguments n owners.length count) : validateOwners fat n owners ownerMap count = .ok map ↔
      ∃ chains, Owned fat n owners chains ∧ map = (ownerMap.cleared n).marked 0 chains := by
  unfold validateOwners
  rw [if_neg (not_not.mpr h), eachOwner_eq_ok (claimOwner_claims h.2.2.1) (by rw [Nat.zero_add]; exact h.2.1)]
  constructor
  · rintro ⟨chains, hholds, hd, -, rfl⟩
    exact ⟨chains, ⟨hholds, hd⟩, rfl⟩
  · rintro ⟨chains, howned, rfl⟩
    refine ⟨chains, howned.1, howned.2, fun l hl c hc => if_pos ?_, rfl⟩
    obtain ⟨owner, hholds⟩ := held_by howned.1 l hl
    exact holds_lt hholds c hc

theorem validateOwnership_eq_ok {starts : List Nat} {ownerMap map : OwnerMap} {count : Nat}
    (h : validOwnerArguments n starts.length count) : Fat.validateOwnership fat n starts ownerMap count = .ok map ↔
      ∃ chains, List.Forall₂ (Fat.Chain fat n) starts chains ∧ chains.Pairwise List.Disjoint ∧
        map = (ownerMap.cleared n).marked 0 chains := by
  unfold Fat.validateOwnership
  rw [if_neg (not_not.mpr h), eachOwner_eq_ok Fat.claimStart_claims (by rw [Nat.zero_add]; exact h.2.1)]
  constructor
  · rintro ⟨chains, hholds, hd, -, rfl⟩
    exact ⟨chains, hholds, hd, rfl⟩
  · rintro ⟨chains, hholds, hd, rfl⟩
    refine ⟨chains, hholds, hd, fun l hl c hc => if_pos ?_, rfl⟩
    obtain ⟨start, hchain⟩ := held_by hholds l hl
    exact (hchain.valid c hc).2.1

theorem holds_directories {chains : List (List Nat)} (h : ∀ o ∈ owners, o.kind = .directory) :
    List.Forall₂ (AllocationOwner.Holds fat n) owners chains ↔
      List.Forall₂ (Fat.Chain fat n) (owners.map (·.firstCluster)) chains := by
  rw [List.forall₂_map_left_iff]
  constructor
  · intro hx
    exact (List.forall₂_and_left owners chains).mpr ⟨h, hx⟩ |>.imp fun _ _ ⟨hk, hl⟩ => (holds_directory hk).mp hl
  · intro hx
    exact (List.forall₂_and_left owners chains).mpr ⟨h, hx⟩ |>.imp fun _ _ ⟨hk, hl⟩ => (holds_directory hk).mpr hl

/-- The validation of owners is exact: it accepts the owners whose chains end, cover their sizes and share nothing, and the
    map gives every cluster its owner. On directories it accepts what the validation of the table accepts. -/
theorem validateOwners_exact (fat : Nat → Nat) (n : Nat) (owners : List AllocationOwner) (ownerMap : OwnerMap) (count : Nat) :
    (validOwnerArguments n owners.length count →
      ((∃ map, validateOwners fat n owners ownerMap count = .ok map) ↔ ∃ chains, Owned fat n owners chains) ∧
      ∀ map chains, validateOwners fat n owners ownerMap count = .ok map → Owned fat n owners chains →
        (∀ i l c, chains[i]? = some l → c ∈ l → map c = i + 1) ∧ ∀ c < n, (∀ l ∈ chains, c ∉ l) → map c = 0) ∧
    ((∀ o ∈ owners, o.kind = .directory) → ∀ map, validateOwners fat n owners ownerMap count = .ok map ↔
      Fat.validateOwnership fat n (owners.map (·.firstCluster)) ownerMap count = .ok map) := by
  refine ⟨fun h => ⟨?_, fun map chains hrun howned => ?_⟩, fun hk map => ?_⟩
  · constructor
    · rintro ⟨map, hrun⟩
      obtain ⟨chains, howned, -⟩ := (validateOwners_eq_ok h).mp hrun
      exact ⟨chains, howned⟩
    · rintro ⟨chains, howned⟩
      exact ⟨_, (validateOwners_eq_ok h).mpr ⟨chains, howned, rfl⟩⟩
  · obtain ⟨chains', howned', rfl⟩ := (validateOwners_eq_ok h).mp hrun
    obtain rfl := howned.unique howned'
    refine ⟨fun i l c hl hc => ?_, fun c hc hno => ?_⟩
    · rw [marked_of_mem howned.2 hl hc, Nat.zero_add]
    · rw [marked_of_not_mem hno]
      exact if_pos hc
  · by_cases h : validOwnerArguments n owners.length count
    · have h' : validOwnerArguments n (owners.map (·.firstCluster)).length count := by rwa [List.length_map]
      rw [validateOwners_eq_ok h, validateOwnership_eq_ok h']
      unfold Owned
      simp only [holds_directories hk, and_assoc]
    · have h' : ¬validOwnerArguments n (owners.map (·.firstCluster)).length count := by rwa [List.length_map]
      unfold validateOwners Fat.validateOwnership
      rw [if_pos h, if_pos h']

/-- A list of no owners is refused. -/
theorem validateOwners_nil : ¬((∃ map, validateOwners (fun _ => Fat.free) 3 [] (fun _ => 0) 3 = .ok map) ↔
    ∃ chains, Owned (fun _ => Fat.free) 3 [] chains) := by
  intro h
  obtain ⟨map, hrun⟩ := h.mpr ⟨[], .nil, .nil⟩
  cases hrun

end Validator
end InferenceOS
