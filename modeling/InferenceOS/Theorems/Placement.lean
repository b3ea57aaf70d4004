import InferenceOS.Theorems.RecordCodec

/-! Where a new pair of records goes, and what a scan then sees of it: any number of slots, in clusters of any
    length, as long as only zeros follow the first end marker. -/

namespace InferenceOS
open Program

section Placement
variable {slots slots' : Nat → Slot} {n perCluster capacity i s : Nat} {e : DirectoryEntry}
  {entries before after l : List DirectoryEntry}

/-- The entries that a scan reads from a slot on. -/
inductive Reading (slots : Nat → Slot) (n perCluster : Nat) : Nat → List DirectoryEntry → Prop where
  | stop {i : Nat} : n ≤ i ∨ (slots i).byte 0 = 0 → Reading slots n perCluster i []
  | skip {i : Nat} {l : List DirectoryEntry} : i < n → (slots i).byte 0 = deletedMark →
    Reading slots n perCluster (i + 1) l → Reading slots n perCluster i l
  | entry {i : Nat} {e : DirectoryEntry} {l : List DirectoryEntry} : i < n → (slots i).byte 0 ≠ 0 →
    (slots i).byte 0 ≠ deletedMark → entryAt slots n perCluster i = .ok e →
    Reading slots n perCluster (e.primarySlot + 1) l → Reading slots n perCluster i (e :: l)

def Unrepeated (entries : List DirectoryEntry) : Prop :=
  entries.Pairwise fun a b => a.kind ≠ .internal → a.primary.name ≠ b.primary.name

theorem duplicateName_eq_false {name : Name} :
    duplicateName entries name = false ↔ ∀ a ∈ entries, a.kind ≠ .internal → a.primary.name ≠ name := by
  simp [duplicateName, imp_iff_not_or]

theorem entryAt_slots (h : entryAt slots n perCluster i = .ok e) :
    (e.companionSlot = some i ∧ e.primarySlot = i + 1 ∧ i + 1 < n ∧ ∃ p, primaryDecode (slots (i + 1)) = .ok p) ∨
      (e.companionSlot = none ∧ e.primarySlot = i ∧ (slots i).byte 0 ≠ companionRecordType) := by
  unfold entryAt at h
  dsimp only at h
  split at h
  · split at h
    · cases h
    · rename_i hlast
      split at h
      · cases h
      · split at h
        · cases h
        · rename_i p hp
          cases h
          exact Or.inl ⟨rfl, rfl, by omega, p, hp⟩
  · rename_i hc
    split at h
    · obtain ⟨p, -, hok⟩ := of_bind_ok h
      cases hok
      exact Or.inr ⟨rfl, rfl, hc⟩
    · obtain ⟨p, -, hrest⟩ := of_bind_ok h
      obtain ⟨-, hok⟩ := of_check hrest
      cases hok
      exact Or.inr ⟨rfl, rfl, hc⟩

theorem entryAt_congr (h : entryAt slots n perCluster i = .ok e) (hi : slots' i = slots i)
    (hnext : e.companionSlot = some i → slots' (i + 1) = slots (i + 1)) : entryAt slots' n perCluster i = .ok e := by
  rw [← h]
  unfold entryAt
  dsimp only
  rw [hi]
  rcases entryAt_slots h with ⟨hc, -⟩ | ⟨-, -, hc⟩
  · rw [hnext hc]
  · rw [if_neg hc, if_neg hc]

theorem reading_of_scan : ∀ {fuel i : Nat} {before entries : List DirectoryEntry},
    scanFrom slots n perCluster capacity fuel i before = .ok entries → n ≤ fuel + i → Unrepeated before →
    ∃ l, Reading slots n perCluster i l ∧ entries = before ++ l ∧ Unrepeated entries
  | 0, i, before, entries, h, hf, hu => by
    cases h
    exact ⟨[], .stop (Or.inl (by omega)), (List.append_nil _).symm, hu⟩
  | fuel + 1, i, before, entries, h, hf, hu => by
    unfold scanFrom at h
    split at h
    · rename_i hend
      cases h
      exact ⟨[], .stop (Or.inl hend), (List.append_nil _).symm, hu⟩
    split at h
    · rename_i hzero
      cases h
      exact ⟨[], .stop (Or.inr hzero), (List.append_nil _).symm, hu⟩
    split at h
    · rename_i hlt hzero hdeleted
      obtain ⟨l, hl, heq, hu'⟩ := reading_of_scan h (by omega) hu
      exact ⟨l, .skip (not_le.mp hlt) hdeleted hl, heq, hu'⟩
    · rename_i hlt hzero hdeleted
      obtain ⟨e, he, hrest⟩ := of_bind_ok h
      obtain ⟨hdup, hrest'⟩ := of_check hrest
      obtain ⟨-, hscan⟩ := of_check hrest'
      have hslot : i ≤ e.primarySlot := by
        rcases entryAt_slots he with ⟨-, hs, -⟩ | ⟨-, hs, -⟩
        · omega
        · omega
      have hnew : Unrepeated (before ++ [e]) := by
        refine List.pairwise_append.mpr ⟨hu, List.pairwise_singleton _ _, fun a ha b hb => ?_⟩
        rw [List.mem_singleton.mp hb]
        exact duplicateName_eq_false.mp (Bool.not_eq_true _ ▸ hdup) a ha
      obtain ⟨l, hl, heq, hu'⟩ := reading_of_scan hscan (by omega) hnew
      exact ⟨e :: l, .entry (not_le.mp hlt) hzero hdeleted he hl, by rw [heq, List.append_assoc]; rfl, hu'⟩

theorem scan_of_reading (h : Reading slots n perCluster i l) : ∀ {fuel : Nat} {before : List DirectoryEntry}, n ≤ fuel + i →
    Unrepeated (before ++ l) → (before ++ l).length ≤ capacity →
    scanFrom slots n perCluster capacity fuel i before = .ok (before ++ l) := by
  induction h with
  | @stop i hend =>
    intro fuel before hf hu hl
    rw [List.append_nil]
    cases fuel with
    | zero => rfl
    | succ fuel =>
      unfold scanFrom
      rcases hend with hend | hend
      · rw [if_pos hend]
      · rw [if_pos hend, ite_self]
  | @skip i l hlt hd hrest ih =>
    intro fuel before hf hu hl
    cases fuel with
    | zero => omega
    | succ fuel =>
      have hzero : (slots i).byte 0 ≠ 0 := by
        rw [hd]
        decide
      rw [scanFrom, if_neg (not_le.mpr hlt), if_neg hzero, if_pos hd]
      exact ih (by omega) hu hl
  | @entry i e l hlt hzero hd he hrest ih =>
    intro fuel before hf hu hl
    cases fuel with
    | zero => omega
    | succ fuel =>
      have hslot : i ≤ e.primarySlot := by
        rcases entryAt_slots he with ⟨-, hs, -⟩ | ⟨-, hs, -⟩
        · omega
        · omega
      have happ : before ++ e :: l = (before ++ [e]) ++ l := by rw [List.append_assoc]; rfl
      have hdup : duplicateName before e.primary.name = false :=
        duplicateName_eq_false.mpr fun a ha => (List.pairwise_append.mp hu).2.2 a ha e List.mem_cons_self
      have hroom : ¬before.length = capacity := by
        rw [List.length_append, List.length_cons] at hl
        omega
      rw [scanFrom, if_neg (not_le.mpr hlt), if_neg hzero, if_neg hd, he]
      change (if duplicateName before e.primary.name = true then _ else _) = _
      rw [hdup, if_neg Bool.false_ne_true, if_neg hroom, happ]
      rw [happ] at hu hl
      exact ih (by omega) hu hl

def Vacant (slot : Slot) : Prop := slot.byte 0 = 0 ∨ slot.byte 0 = deletedMark

/-- Behind an end marker all slots are unused. -/
def ZeroTail (slots : Nat → Slot) (n : Nat) : Prop := ∀ i j, i ≤ j → j < n → (slots i).byte 0 = 0 → (slots j).byte 0 = 0

def VacantPair (slots : Nat → Slot) (perCluster i : Nat) : Prop :=
  i % perCluster + 1 < perCluster ∧ Vacant (slots i) ∧ Vacant (slots (i + 1))

/-- The end marker stands in the last slot of a cluster, with no room for a pair before it. -/
def EndsCluster (slots : Nat → Slot) (n perCluster : Nat) : Prop :=
  ∃ e, e + 1 < n ∧ e % perCluster + 1 = perCluster ∧ (slots e).byte 0 = 0 ∧ ∀ i < e, ¬VacantPair slots perCluster i

theorem pairSlotsFrom_least (hz : ZeroTail slots n) : ∀ {left i : Nat} {afterEnd : Bool}, left + i + 1 = n →
    (afterEnd = true → i < n → (slots i).byte 0 = 0) → pairSlotsFrom slots perCluster left i afterEnd = .ok s →
    s + 1 < n ∧ VacantPair slots perCluster s ∧ ∀ k, i ≤ k → k < s → ¬VacantPair slots perCluster k
  | 0, i, afterEnd, hl, ha, h => by cases h
  | left + 1, i, afterEnd, hl, ha, h => by
    have hend : (afterEnd || (slots i).byte 0 == 0) = true ↔ (slots i).byte 0 = 0 := by
      simp only [Bool.or_eq_true, beq_iff_eq]
      exact ⟨fun hx => hx.elim (fun hx => ha hx (by omega)) id, Or.inr⟩
    have hnext : (slots i).byte 0 = 0 → (slots (i + 1)).byte 0 = 0 := hz i (i + 1) (by omega) (by omega)
    have hhere : slotAvailable (slots i) (afterEnd || (slots i).byte 0 == 0) = true ↔ Vacant (slots i) := by
      simp only [slotAvailable, Bool.or_eq_true, beq_iff_eq, Vacant] at hend ⊢
      rw [hend, or_self]
    have hthere : slotAvailable (slots (i + 1)) ((afterEnd || (slots i).byte 0 == 0) || (slots (i + 1)).byte 0 == 0) = true ↔
        Vacant (slots (i + 1)) := by
      simp only [slotAvailable, Bool.or_eq_true, beq_iff_eq, Vacant] at hend ⊢
      rw [hend]
      tauto
    unfold pairSlotsFrom at h
    dsimp only at h
    split at h
    · rename_i hpair
      cases h
      exact ⟨by omega, ⟨hpair.1, hhere.mp hpair.2.1, hthere.mp hpair.2.2⟩, fun k hk hlt => by omega⟩
    · rename_i hx
      have hpair : ¬VacantPair slots perCluster i := fun hp => hx ⟨hp.1, hhere.mpr hp.2.1, hthere.mpr hp.2.2⟩
      obtain ⟨hlt, hs, hleast⟩ := pairSlotsFrom_least hz (by omega) (fun hx hi => hnext (hend.mp hx)) h
      refine ⟨hlt, hs, fun k hk hks => ?_⟩
      rcases Nat.eq_or_lt_of_le hk with rfl | hk
      · exact hpair
      · exact hleast k hk hks

theorem findPairSlots_least (hz : ZeroTail slots n) (h : findPairSlots slots n perCluster = .ok s) :
    s + 1 < n ∧ VacantPair slots perCluster s ∧ ∀ k < s, ¬VacantPair slots perCluster k := by
  unfold findPairSlots at h
  split at h
  · cases h
  · obtain ⟨hlt, hs, hleast⟩ := pairSlotsFrom_least hz (by omega) (nofun : false = true → _) h
    exact ⟨hlt, hs, fun k => hleast k (Nat.zero_le _)⟩

theorem endsCluster_iff (hz : ZeroTail slots n) (h : findPairSlots slots n perCluster = .ok s) :
    EndsCluster slots n perCluster ↔ ∃ e < s, (slots e).byte 0 = 0 := by
  obtain ⟨hlt, hs, hleast⟩ := findPairSlots_least hz h
  constructor
  · rintro ⟨e, -, hlast, hzero, hno⟩
    refine ⟨e, not_le.mp fun hse => ?_, hzero⟩
    rcases Nat.eq_or_lt_of_le hse with rfl | hse
    · have := hs.1
      omega
    · exact hno s hse hs
  · rintro ⟨e, hes, hzero⟩
    have hnext := hz e (e + 1) (by omega) (by omega) hzero
    have hpos : 0 < perCluster := by
      have := hs.1
      omega
    have hmod := Nat.mod_lt e hpos
    refine ⟨e, by omega, ?_, hzero, fun i hi => hleast i (by omega)⟩
    by_contra hne
    exact hleast e hes ⟨by omega, Or.inl hzero, Or.inl hnext⟩

def placePair (slots : Nat → Slot) (s : Nat) (companion primary : Slot) (i : Nat) : Slot :=
  if i = s then companion else if i = s + 1 then primary else slots i

variable {companion primary : Slot}

theorem placePair_other (h : i ≠ s) (h' : i ≠ s + 1) : placePair slots s companion primary i = slots i := by
  rw [placePair, if_neg h, if_neg h']

theorem Vacant.not_primary {slot : Slot} {p : Primary} (h : Vacant slot) : primaryDecode slot ≠ .ok p := by
  rw [primaryDecode_free h]
  exact nofun

theorem Reading.split (h : Reading slots n perCluster i l) : i ≤ s → s < n → Vacant (slots s) →
    (∀ k, i ≤ k → k < s → (slots k).byte 0 ≠ 0) →
    ∃ before after, l = before ++ after ∧ Reading slots n perCluster s after ∧
      (∀ e ∈ before, e.primarySlot < s ∧ ∀ k ∈ e.companionSlot, k < s) ∧
      ∀ slots' after', (∀ k < s, slots' k = slots k) → Reading slots' n perCluster s after' →
        Reading slots' n perCluster i (before ++ after') := by
  induction h with
  | @stop i hend =>
    intro hi hs hv hno
    obtain rfl : i = s := by
      by_contra hne
      rcases hend with hend | hend
      · omega
      · exact hno i le_rfl (by omega) hend
    exact ⟨[], [], rfl, .stop hend, nofun, fun _ _ _ h => h⟩
  | @skip i l hlt hd hrest ih =>
    intro hi hs hv hno
    rcases Nat.eq_or_lt_of_le hi with rfl | hi
    · exact ⟨[], l, rfl, .skip hlt hd hrest, nofun, fun _ _ _ h => h⟩
    · obtain ⟨before, after, hl, hafter, hb, hkeep⟩ := ih hi hs hv fun k hk => hno k (by omega)
      refine ⟨before, after, hl, hafter, hb, fun slots' after' hsame hr => ?_⟩
      exact .skip hlt (by rw [hsame i hi]; exact hd) (hkeep slots' after' hsame hr)
  | @entry i e l hlt hzero hd he hrest ih =>
    intro hi hs hv hno
    rcases Nat.eq_or_lt_of_le hi with rfl | hi
    · rcases hv with hv | hv
      · exact absurd hv hzero
      · exact absurd hv hd
    · -- The vacant slot is not the primary of a pair that starts before it.
      have hslot : (e.primarySlot < s ∧ ∀ k ∈ e.companionSlot, k < s) ∧ (e.companionSlot = some i → i + 1 < s) := by
        rcases entryAt_slots he with ⟨hc, hp, -, p, hdecode⟩ | ⟨hc, hp, -⟩
        · have hne : i + 1 ≠ s := fun hx => hv.not_primary (hx ▸ hdecode)
          exact ⟨⟨by omega, fun k hk => by rw [hc] at hk; cases hk; exact hi⟩, fun _ => by omega⟩
        · exact ⟨⟨by omega, fun k hk => by rw [hc] at hk; cases hk⟩, fun hx => by rw [hc] at hx; cases hx⟩
      obtain ⟨before, after, hl, hafter, hb, hkeep⟩ := ih (by have := hslot.1.1; omega) hs hv fun k hk => hno k (by
        rcases entryAt_slots he with ⟨-, hp, -⟩ | ⟨-, hp, -⟩ <;> omega)
      refine ⟨e :: before, after, by rw [hl]; rfl, hafter, ?_, fun slots' after' hsame hr => ?_⟩
      · intro a ha
        rcases List.mem_cons.mp ha with rfl | ha
        · exact hslot.1
        · exact hb a ha
      · have hcongr := entryAt_congr he (hsame i hi) fun hx => hsame (i + 1) (hslot.2 hx)
        rw [← hsame i hi] at hzero hd
        exact .entry hlt hzero hd hcongr (hkeep slots' after' hsame hr)

theorem Reading.ended {k : Nat} (h : Reading slots n perCluster i l) : i ≤ k → k < n → (slots k).byte 0 = 0 →
    (∀ j, j ≤ k → slots' j = slots j) → Reading slots' n perCluster i l ∧ ∀ e ∈ l, e.primarySlot < k := by
  induction h with
  | @stop i hend =>
    intro hi hk hzero hsame
    refine ⟨.stop (hend.imp_right fun hx => ?_), nofun⟩
    rw [hsame i hi]
    exact hx
  | @skip i l hlt hd hrest ih =>
    intro hi hk hzero hsame
    have hne : i ≠ k := by
      rintro rfl
      rw [hzero] at hd
      exact absurd hd (by decide)
    obtain ⟨hr, hb⟩ := ih (by omega) hk hzero hsame
    exact ⟨.skip hlt (by rw [hsame i hi]; exact hd) hr, hb⟩
  | @entry i e l hlt hz hd he hrest ih =>
    intro hi hk hzero hsame
    have hne : i ≠ k := fun hx => hz (hx ▸ hzero)
    have hslot : e.primarySlot < k ∧ (e.companionSlot = some i → i + 1 ≤ k) := by
      rcases entryAt_slots he with ⟨-, hp, -, p, hdecode⟩ | ⟨hc, hp, -⟩
      · have hne' : i + 1 ≠ k := fun hx => Vacant.not_primary (Or.inl hzero) (hx ▸ hdecode)
        exact ⟨by omega, fun _ => by omega⟩
      · exact ⟨by omega, fun hx => by rw [hc] at hx; cases hx⟩
    obtain ⟨hr, hb⟩ := ih (by omega) hk hzero hsame
    have hcongr := entryAt_congr he (hsame i hi) fun hx => hsame (i + 1) (hslot.2 hx)
    rw [← hsame i hi] at hz hd
    refine ⟨.entry hlt hz hd hcongr hr, fun a ha => ?_⟩
    rcases List.mem_cons.mp ha with rfl | ha
    · exact hslot.1
    · exact hb a ha

theorem Reading.congr (h : Reading slots n perCluster i l) : (∀ j, i ≤ j → slots' j = slots j) →
    Reading slots' n perCluster i l ∧ ∀ e ∈ l, i ≤ e.primarySlot ∧ ∀ k ∈ e.companionSlot, i ≤ k := by
  induction h with
  | @stop i hend =>
    intro hsame
    rw [← hsame i le_rfl] at hend
    exact ⟨.stop hend, nofun⟩
  | @skip i l hlt hd hrest ih =>
    intro hsame
    obtain ⟨hr, hb⟩ := ih fun j hj => hsame j (by omega)
    rw [← hsame i le_rfl] at hd
    exact ⟨.skip hlt hd hr, fun e he => ⟨by have := (hb e he).1; omega, fun k hk => by have := (hb e he).2 k hk; omega⟩⟩
  | @entry i e l hlt hz hd he hrest ih =>
    intro hsame
    have hslot : i ≤ e.primarySlot ∧ ∀ k ∈ e.companionSlot, i ≤ k := by
      rcases entryAt_slots he with ⟨hc, hp, -⟩ | ⟨hc, hp, -⟩
      · exact ⟨by omega, fun k hk => by rw [hc] at hk; cases hk; exact le_rfl⟩
      · exact ⟨by omega, fun k hk => by rw [hc] at hk; cases hk⟩
    obtain ⟨hr, hb⟩ := ih fun j hj => hsame j (by omega)
    have hcongr := entryAt_congr he (hsame i le_rfl) fun _ => hsame (i + 1) (by omega)
    rw [← hsame i le_rfl] at hz hd
    refine ⟨.entry hlt hz hd hcongr hr, fun a ha => ?_⟩
    rcases List.mem_cons.mp ha with rfl | ha
    · exact hslot
    · exact ⟨by have := (hb a ha).1; omega, fun k hk => by have := (hb a ha).2 k hk; omega⟩

theorem Reading.behind (h : Reading slots n perCluster s l) (hz : ZeroTail slots n) (hs : s + 1 < n)
    (hv : Vacant (slots s)) (hv' : Vacant (slots (s + 1))) : Reading slots n perCluster (s + 2) l := by
  have hend : ∀ {k : Nat}, k < n → (slots k).byte 0 = 0 → k ≤ s + 2 → Reading slots n perCluster (s + 2) [] := by
    intro k hk hzero hle
    rcases Nat.lt_or_ge (s + 2) n with hlt | hge
    · exact .stop (Or.inr (hz k (s + 2) hle hlt hzero))
    · exact .stop (Or.inl hge)
  cases h with
  | stop hx =>
    rcases hx with hx | hx
    · omega
    · exact hend (by omega) hx (by omega)
  | skip _ _ hrest =>
    cases hrest with
    | stop hx =>
      rcases hx with hx | hx
      · omega
      · exact hend hs hx (by omega)
    | skip _ _ hrest => exact hrest
    | entry _ hzero hd => exact absurd hv' (not_or.mpr ⟨hzero, hd⟩)
  | entry _ hzero hd => exact absurd hv (not_or.mpr ⟨hzero, hd⟩)

def pairEntry (s : Nat) (p : Primary) : DirectoryEntry := ⟨p, s + 1, some s, .regular⟩

theorem same_cluster (h : s % perCluster + 1 < perCluster) : s / perCluster = (s + 1) / perCluster := by
  refine (Nat.div_eq_of_lt_le ?_ ?_).symm
  · exact (Nat.div_mul_le_self s perCluster).trans (Nat.le_succ s)
  · have := Nat.div_add_mod s perCluster
    rw [Nat.succ_mul, Nat.mul_comm]
    omega

theorem entryAt_placed {p : Primary} (hpair : recordPairValidate companion primary = .ok ())
    (hp : primaryDecode primary = .ok p) (hlt : s + 1 < n) (hm : s % perCluster + 1 < perCluster) :
    entryAt (placePair slots s companion primary) n perCluster s = .ok (pairEntry s p) := by
  have hself : placePair slots s companion primary s = companion := if_pos rfl
  have hnext : placePair slots s companion primary (s + 1) = primary := by
    rw [placePair, if_neg (by omega), if_pos rfl]
  unfold entryAt
  dsimp only
  rw [hself, hnext, if_pos (recordPairValidate_head hpair), if_neg (by omega), hpair, hp]
  rfl

theorem Unrepeated.insert {p : Primary} (h : Unrepeated (before ++ after)) (hn : ∀ e ∈ before ++ after, e.primary.name ≠ p.name) :
    Unrepeated (before ++ pairEntry s p :: after) := by
  obtain ⟨hb, ha, hba⟩ := List.pairwise_append.mp h
  refine List.pairwise_append.mpr ⟨hb, List.pairwise_cons.mpr ⟨fun e he _ hx => ?_, ha⟩, fun a hamem e he => ?_⟩
  · exact hn e (List.mem_append_right _ he) hx.symm
  · rcases List.mem_cons.mp he with rfl | he
    · exact fun _ => hn a (List.mem_append_left _ hamem)
    · exact hba a hamem e he

theorem scan_reading (h : directoryScan slots n perCluster capacity = .ok entries) :
    Reading slots n perCluster 0 entries ∧ Unrepeated entries ∧ ¬(n = 0 ∨ perCluster = 0 ∨ n % perCluster ≠ 0) := by
  unfold directoryScan at h
  split at h
  · cases h
  · rename_i hargs
    obtain ⟨l, hl, heq, hu⟩ := reading_of_scan h le_rfl List.Pairwise.nil
    obtain rfl : entries = l := heq
    exact ⟨hl, hu, hargs⟩

theorem scan_eq (hargs : ¬(n = 0 ∨ perCluster = 0 ∨ n % perCluster ≠ 0)) (h : Reading slots n perCluster 0 entries)
    (hu : Unrepeated entries) (hl : entries.length ≤ capacity) : directoryScan slots n perCluster capacity = .ok entries := by
  unfold directoryScan
  rw [if_neg hargs]
  exact scan_of_reading h le_rfl hu hl

/-- The slots found for a new pair lie in one cluster and hold no record, and a scan lists the pair that is written there
    between the other entries, except where the directory ends with a cluster. -/
theorem findPairSlots_seen_iff {capacity' : Nat} {p : Primary} (hscan : directoryScan slots n perCluster capacity = .ok entries)
    (hz : ZeroTail slots n) (hfind : findPairSlots slots n perCluster = .ok s)
    (hpair : recordPairValidate companion primary = .ok ()) (hp : primaryDecode primary = .ok p)
    (hnew : ∀ e ∈ entries, e.primary.name ≠ p.name) (hroom : entries.length < capacity') :
    ((s + 1 < n ∧ s / perCluster = (s + 1) / perCluster) ∧
      (∀ e ∈ entries, e.primarySlot ≠ s ∧ e.primarySlot ≠ s + 1 ∧ e.companionSlot ≠ some s ∧ e.companionSlot ≠ some (s + 1)) ∧
      ∃ before after, entries = before ++ after ∧
        directoryScan (placePair slots s companion primary) n perCluster capacity' = .ok (before ++ pairEntry s p :: after)) ↔
    ¬EndsCluster slots n perCluster := by
  obtain ⟨hreading, hu, hargs⟩ := scan_reading hscan
  obtain ⟨hlt, ⟨hmod, hv, hv'⟩, -⟩ := findPairSlots_least hz hfind
  constructor
  · rintro ⟨-, -, before, after, rfl, hseen⟩ hends
    -- The new pair stands behind the end of the directory.
    obtain ⟨e, hes, hzero⟩ := (endsCluster_iff hz hfind).mp hends
    have hsame : ∀ j, j ≤ e → placePair slots s companion primary j = slots j := fun j hj =>
      placePair_other (by omega) (by omega)
    obtain ⟨hr, -⟩ := hreading.ended (Nat.zero_le e) (by omega) hzero hsame
    have hold := scan_eq hargs hr hu hroom.le
    rw [hold] at hseen
    have := congrArg List.length (Except.ok.inj hseen)
    simp at this
  · intro hends
    have hno : ∀ k, 0 ≤ k → k < s → (slots k).byte 0 ≠ 0 := fun k _ hk hx =>
      hends ((endsCluster_iff hz hfind).mpr ⟨k, hk, hx⟩)
    obtain ⟨before, after, rfl, hafter, hbefore, hkeep⟩ := hreading.split (Nat.zero_le s) (by omega) hv hno
    have hsame : ∀ j, s + 2 ≤ j → placePair slots s companion primary j = slots j := fun j hj =>
      placePair_other (by omega) (by omega)
    obtain ⟨hbehind, hslots⟩ := (hafter.behind hz hlt hv hv').congr hsame
    refine ⟨⟨hlt, same_cluster hmod⟩, fun e he => ?_, before, after, rfl, ?_⟩
    · rcases List.mem_append.mp he with he | he
      · obtain ⟨hp, hc⟩ := hbefore e he
        refine ⟨by omega, by omega, fun hx => ?_, fun hx => ?_⟩
        · exact absurd (hc s hx) (lt_irrefl s)
        · exact absurd (hc (s + 1) hx) (by omega)
      · obtain ⟨hp, hc⟩ := hslots e he
        refine ⟨by omega, by omega, fun hx => ?_, fun hx => ?_⟩
        · exact absurd (hc s hx) (by omega)
        · exact absurd (hc (s + 1) hx) (by omega)
    · have hhead : (placePair slots s companion primary s).byte 0 = companionRecordType := by
        rw [placePair, if_pos rfl]
        exact recordPairValidate_head hpair
      have hread : Reading (placePair slots s companion primary) n perCluster s (pairEntry s p :: after) := by
        refine .entry (by omega) ?_ ?_ (entryAt_placed hpair hp hlt hmod) hbehind
        · rw [hhead]
          decide
        · rw [hhead]
          decide
      refine scan_eq hargs (hkeep _ _ (fun k hk => placePair_other (by omega) (by omega)) hread) (hu.insert hnew) ?_
      rw [List.length_append, List.length_cons]
      rw [List.length_append] at hroom
      omega

end Placement

def placedFile : Primary :=
  { name := padName [ascii 'B'] [ascii 'T'], attributes := attributeRegular, firstCluster := 0, fileSize := 0 }

def placedFolder : Primary :=
  { name := padName [ascii 'A'] [], attributes := attributeDirectory, firstCluster := 3, fileSize := 0 }

def folderSlots (i : Nat) : Slot := if i = 0 then primaryBytes placedFolder else Bytes.zero

theorem folderSlots_zeroTail {n : Nat} : ZeroTail folderSlots n := by
  intro i j hij hj hzero
  cases j with
  | zero =>
    obtain rfl : i = 0 := by omega
    exact hzero
  | succ j => exact Bytes.byte_zero

theorem placedFile_pair : recordPairValidate (companionRecord true placedFile.name) (primaryBytes placedFile) = .ok () ∧
    primaryDecode (primaryBytes placedFile) = .ok placedFile :=
  ⟨recordPairValidate_committed (by decide) (by decide) rfl, primaryDecode_bytes (by decide) (by decide)⟩

theorem scan_folder {slots : Nat → Slot} {n perCluster : Nat} (h : slots 0 = primaryBytes placedFolder)
    (hend : (slots 1).byte 0 = 0) (hargs : ¬(n = 0 ∨ perCluster = 0 ∨ n % perCluster ≠ 0)) :
    directoryScan slots n perCluster 4 = .ok [⟨placedFolder, 0, none, .directory⟩] := by
  have hentry : entryAt slots n perCluster 0 = .ok ⟨placedFolder, 0, none, .directory⟩ := by
    unfold entryAt
    dsimp only
    rw [h, if_neg (by decide), if_neg (by decide), primaryDecode_bytes (by decide) (by decide)]
    rfl
  have hzero : (slots 0).byte 0 ≠ 0 := by
    rw [h]
    decide
  have hdeleted : (slots 0).byte 0 ≠ deletedMark := by
    rw [h]
    decide
  exact scan_eq hargs (.entry (by omega) hzero hdeleted hentry (.stop (Or.inr hend))) (List.pairwise_singleton _ _) (by decide)

/-- With four slots to a cluster the new pair is seen. -/
theorem findPairSlots_seen_four : findPairSlots folderSlots 4 4 = .ok 1 ∧ ∃ before after,
    [(⟨placedFolder, 0, none, .directory⟩ : DirectoryEntry)] = before ++ after ∧
      directoryScan (placePair folderSlots 1 (companionRecord true placedFile.name) (primaryBytes placedFile)) 4 4 4 =
        .ok (before ++ pairEntry 1 placedFile :: after) := by
  have hscan := @scan_folder folderSlots 4 4 rfl Bytes.byte_zero (by decide)
  have hfind : findPairSlots folderSlots 4 4 = .ok 1 := by decide +kernel
  obtain ⟨hpair, hp⟩ := placedFile_pair
  have hroom : [(⟨placedFolder, 0, none, .directory⟩ : DirectoryEntry)].length < 4 := by decide
  refine ⟨hfind, ((findPairSlots_seen_iff hscan folderSlots_zeroTail hfind hpair hp ?_ hroom).mpr ?_).2.2⟩
  · decide +kernel
  · rintro ⟨e, hlt, hlast, -⟩
    omega

/-- With two slots to a cluster the pair goes to the second cluster, and the scan ends in the first. -/
theorem findPairSlots_unseen : ZeroTail folderSlots 4 ∧
    directoryScan folderSlots 4 2 4 = .ok [⟨placedFolder, 0, none, .directory⟩] ∧ findPairSlots folderSlots 4 2 = .ok 2 ∧
    recordPairValidate (companionRecord true placedFile.name) (primaryBytes placedFile) = .ok () ∧
    placedFolder.name ≠ placedFile.name ∧
    directoryScan (placePair folderSlots 2 (companionRecord true placedFile.name) (primaryBytes placedFile)) 4 2 4 =
      .ok [⟨placedFolder, 0, none, .directory⟩] := by
  refine ⟨folderSlots_zeroTail, scan_folder rfl Bytes.byte_zero (by decide), by decide +kernel, placedFile_pair.1,
    by decide +kernel, scan_folder rfl Bytes.byte_zero (by decide)⟩

end InferenceOS
