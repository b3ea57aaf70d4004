import InferenceOS.Theorems.RecordCodec

/-! Directories as lists of items. A directory is tidy when each companion stands before its own file
    record, unused slots only follow used ones, and no two names repeat; a scan of the slots that render
    a tidy directory lists exactly its records. -/

namespace InferenceOS
open Function

/-- What one slot of a directory holds. -/
inductive Item where
  | unused
  | deleted
  | companion (name : Name)
  | file (primary : Primary)
  | directory (primary : Primary)
  | internal (parent : Bool) (cluster : Nat)

variable {item : Item}

namespace Item

def Free (item : Item) : Prop := item = .unused ∨ item = .deleted

def Named (item : Item) (primary : Primary) : Prop := item = .file primary ∨ item = .directory primary

/-- The values of the item pass the checks of its record. -/
def Sound : Item → Prop
  | .unused => True
  | .deleted => True
  | .companion name => validStoredName name = true
  | .file primary => primary.admissible = true ∧ primary.fileSize < 2 ^ 32 ∧ primary.attributes = attributeRegular
  | .directory primary =>
    primary.admissible = true ∧ primary.fileSize < 2 ^ 32 ∧ primary.attributes = attributeDirectory
  | .internal _ cluster => 2 ≤ cluster ∧ cluster ≤ maxDataCluster

/-- The bytes of a slot that holds the item. -/
def Renders (slot : Slot) : Item → Prop
  | .unused => slot.byte 0 = 0
  | .deleted => slot.byte 0 = deletedMark
  | .companion name => slot = companionRecord true name
  | .file primary => slot = primaryBytes primary
  | .directory primary => slot = primaryBytes primary
  | .internal parent cluster => slot = FileService.makeInternalRecord parent cluster

/-- The entry that a scan makes of the item in slot `i`. -/
def entry (i : Nat) : Item → Option DirectoryEntry
  | .file primary => some ⟨primary, i, some (i - 1), .regular⟩
  | .directory primary => some ⟨primary, i, none, .directory⟩
  | .internal parent cluster =>
    some ⟨{ name := internalName parent, attributes := attributeDirectory, firstCluster := cluster, fileSize := 0 },
      i, none, .internal⟩
  | _ => none

theorem Free.not_directory (h : item.Free) (p : Primary) : item ≠ .directory p := by
  rcases h with h | h <;> simp [h]

theorem Free.not_internal (h : item.Free) (parent : Bool) (cluster : Nat) : item ≠ .internal parent cluster := by
  rcases h with h | h <;> simp [h]

theorem Free.not_file (h : item.Free) (p : Primary) : item ≠ .file p := by
  rcases h with h | h <;> simp [h]

theorem Sound.name {p : Primary} (h : item.Sound) (hn : item.Named p) : validStoredName p.name = true := by
  rcases hn with rfl | rfl
  · exact (Primary.admissible_iff.mp h.1).1
  · exact (Primary.admissible_iff.mp h.1).1

theorem Named.unique {p q : Primary} (hp : item.Named p) (hq : item.Named q) : p = q := by
  rcases hp with rfl | rfl <;> rcases hq with hq | hq <;> cases hq <;> rfl

end Item

/-- The invariant of a directory of `directorySlots` slots. -/
structure Tidy (items : Nat → Item) : Prop where
  paired : ∀ {i name}, i < 128 → items i = .companion name → i + 1 < 128 ∧ ∃ p, items (i + 1) = .file p ∧ p.name = name
  preceded : ∀ {i p}, i < 128 → items i = .file p → 0 < i ∧ items (i - 1) = .companion p.name
  tail : ∀ {i j}, items i = .unused → i ≤ j → j < 128 → items j = .unused
  distinct : ∀ {i j p q}, i < 128 → j < 128 → (items i).Named p → (items j).Named q → p.name = q.name → i = j
  sound : ∀ {i}, i < 128 → (items i).Sound

def Shows (slots : Nat → Slot) (items : Nat → Item) : Prop := ∀ i, i < 128 → (items i).Renders (slots i)

/-- The entries of a directory before slot `n`. -/
def entriesBefore (items : Nat → Item) (n : Nat) : List DirectoryEntry := (List.range n).filterMap fun i => (items i).entry i

def entriesOf (items : Nat → Item) : List DirectoryEntry := entriesBefore items 128

section Scan
variable {slots : Nat → Slot} {items : Nat → Item}
variable {i n : Nat} {e : DirectoryEntry}

theorem entriesBefore_succ : entriesBefore items (n + 1) = entriesBefore items n ++ ((items n).entry n).toList := by
  rw [entriesBefore, List.range_succ, List.filterMap_append]
  cases h : (items n).entry n <;> simp [h, entriesBefore]

theorem entriesBefore_length : (entriesBefore items n).length ≤ n := by
  have := List.length_filterMap_le (fun i => (items i).entry i) (List.range n)
  simpa [entriesBefore] using this

theorem mem_entriesBefore : e ∈ entriesBefore items n ↔ ∃ i, i < n ∧ (items i).entry i = some e := by
  simp [entriesBefore]

theorem entry_named (h : item.entry i = some e) (hk : e.kind ≠ .internal) : item.Named e.primary ∧ e.primarySlot = i := by
  cases item <;> simp only [Item.entry, Option.some.injEq, reduceCtorEq] at h <;> subst h
  · exact ⟨Or.inl rfl, rfl⟩
  · exact ⟨Or.inr rfl, rfl⟩
  · exact absurd rfl hk

theorem entry_internal (h : item.entry i = some e) (hk : e.kind = .internal) :
    ∃ parent cluster, item = .internal parent cluster ∧ e.primary.name = internalName parent := by
  cases item <;> simp only [Item.entry, Option.some.injEq, reduceCtorEq] at h <;> subst h
  · cases hk
  · cases hk
  · exact ⟨_, _, rfl, rfl⟩

theorem Tidy.not_duplicate (h : Tidy items) (hn : n ≤ i) (hi : i < 128)
    (he : (items i).entry i = some e) : duplicateName (entriesBefore items n) e.primary.name = false := by
  by_contra hd
  simp only [duplicateName, Bool.not_eq_false, List.any_eq_true, Bool.and_eq_true, bne_iff_ne, ne_eq, beq_iff_eq] at hd
  obtain ⟨e', he', hk', hname⟩ := hd
  obtain ⟨j, hj, hej⟩ := mem_entriesBefore.mp he'
  obtain ⟨hnamed, -⟩ := entry_named hej hk'
  by_cases hk : e.kind = .internal
  · -- A stored name is never that of an internal record.
    obtain ⟨parent, cluster, -, hin⟩ := entry_internal he hk
    have hv := (h.sound (by omega)).name hnamed
    rw [hname, hin] at hv
    have := isInternalName_of_valid hv
    rw [isInternalName_internalName] at this
    cases this
  · obtain ⟨hnamed', -⟩ := entry_named he hk
    have := h.distinct (by omega) hi hnamed hnamed' hname
    omega

theorem entryAt_eq (hs : Shows slots items) (h : Tidy items) (hi : i < 128) :
    (∀ name p, items i = .companion name → items (i + 1) = .file p →
      entryAt slots 128 128 i = .ok ⟨p, i + 1, some i, .regular⟩) ∧
    ∀ e, (items i).entry i = some e → (∀ p, items i ≠ .file p) → entryAt slots 128 128 i = .ok e := by
  have hr := hs i hi
  refine ⟨fun name p hc hp => ?_, fun e he hf => ?_⟩
  · obtain ⟨hi1, q, hq, hname⟩ := h.paired hi hc
    rw [hp] at hq
    cases hq
    have hr1 := hs (i + 1) hi1
    obtain ⟨ha, hsz, hreg⟩ : (Item.file p).Sound := hp ▸ h.sound hi1
    rw [hc] at hr
    rw [hp] at hr1
    simp only [Item.Renders] at hr hr1
    have hv : recordPairValidate (slots i) (slots (i + 1)) = .ok () := by
      rw [hr, hr1, ← hname]
      exact recordPairValidate_committed ha hsz hreg
    have hd : primaryDecode (slots (i + 1)) = .ok p := by
      rw [hr1]
      exact primaryDecode_bytes ha hsz
    have hhead : (slots i).byte 0 = companionRecordType := by
      rw [hr]
      exact companionRecord_head
    unfold entryAt
    dsimp only
    rw [if_pos hhead, if_neg (by omega), hv]
    dsimp only
    rw [hd]
  · unfold entryAt
    dsimp only
    have hsound := h.sound hi
    cases hit : items i with
    | unused => simp [hit, Item.entry] at he
    | deleted => simp [hit, Item.entry] at he
    | companion name => simp [hit, Item.entry] at he
    | file p => exact absurd hit (hf p)
    | directory p =>
      rw [hit] at hr he hsound
      obtain ⟨ha, hsz, hdir⟩ := hsound
      have hv := (Primary.admissible_iff.mp ha).1
      simp only [Item.entry, Option.some.injEq] at he
      simp only [Item.Renders] at hr
      subst he
      rw [hr, primaryBytes_head, if_neg (supportedNameByte_ne (validStoredName_head hv)).2.2.1, primaryBytes_name,
        isInternalName_of_valid hv, primaryDecode_bytes ha hsz]
      simp [bind, Except.bind, hdir]
    | internal parent cluster =>
      rw [hit] at hr he hsound
      simp only [Item.entry, Option.some.injEq] at he
      simp only [Item.Renders] at hr
      subst he
      have hhead : ¬(slots i).byte 0 = companionRecordType := by
        rw [hr, FileService.makeInternalRecord, primaryBytes_head]
        exact (internalName_head parent).2.2
      have hname : isInternalName ((slots i).slice 0 11) = true := by
        rw [hr, FileService.makeInternalRecord, primaryBytes_name]
        exact isInternalName_internalName parent
      rw [if_neg hhead, if_pos hname, hr, decodeInternal_makeInternalRecord hsound.1 hsound.2]
      rfl

theorem Shows.head (hs : Shows slots items) (h : Tidy items) (hi : i < 128) :
    ((slots i).byte 0 = 0 ↔ items i = .unused) ∧ ((slots i).byte 0 = deletedMark ↔ items i = .deleted) := by
  have hr := hs i hi
  have hsound := h.sound hi
  have used : ∀ {p : Primary}, validStoredName p.name = true →
      (primaryBytes p).byte 0 ≠ 0 ∧ (primaryBytes p).byte 0 ≠ deletedMark := by
    intro p hp
    have := supportedNameByte_ne (validStoredName_head hp)
    rw [primaryBytes_head]
    exact ⟨this.1, this.2.1⟩
  cases hit : items i with
  | unused =>
    rw [hit] at hr
    simp only [Item.Renders] at hr
    simp only [hr, reduceCtorEq, iff_false]
    exact ⟨trivial, by decide⟩
  | deleted =>
    rw [hit] at hr
    simp only [Item.Renders] at hr
    simp only [hr, reduceCtorEq, iff_false]
    exact ⟨by decide, trivial⟩
  | companion name =>
    rw [hit] at hr
    simp only [Item.Renders] at hr
    simp only [hr, companionRecord_head, reduceCtorEq, iff_false]
    exact ⟨by decide, by decide⟩
  | file p =>
    rw [hit] at hr hsound
    simp only [Item.Renders] at hr
    have := used (Primary.admissible_iff.mp hsound.1).1
    simp [hr, this]
  | directory p =>
    rw [hit] at hr hsound
    simp only [Item.Renders] at hr
    have := used (Primary.admissible_iff.mp hsound.1).1
    simp [hr, this]
  | internal parent cluster =>
    rw [hit] at hr
    simp only [Item.Renders, FileService.makeInternalRecord] at hr
    simp only [hr, primaryBytes_head, reduceCtorEq, iff_false]
    exact ⟨(internalName_head parent).1, (internalName_head parent).2.1⟩

theorem Tidy.entriesBefore_of_unused (h : Tidy items) (hu : items n = .unused) (hn : n ≤ 128) :
    entriesOf items = entriesBefore items n := by
  have step : ∀ k, n ≤ k → k ≤ 128 → entriesBefore items k = entriesBefore items n := by
    intro k hk
    induction k, hk using Nat.le_induction with
    | base => exact fun _ => rfl
    | succ k hk ih =>
      intro hlt
      rw [entriesBefore_succ, h.tail hu hk (by omega), ih (by omega)]
      simp [Item.entry]
  exact step 128 hn le_rfl

theorem scanFrom_eq (hs : Shows slots items) (h : Tidy items) : ∀ {fuel i : Nat}, 128 ≤ fuel + i → i ≤ 128 →
    (∀ p, i < 128 → items i ≠ .file p) →
    scanFrom slots 128 128 128 fuel i (entriesBefore items i) = .ok (entriesOf items)
  | 0, i, hf, hi, _ => by
    rw [scanFrom, show i = 128 by omega]
    rfl
  | fuel + 1, i, hf, hi, hnf => by
    rw [scanFrom]
    split
    · rw [show i = 128 by omega]
      rfl
    · rename_i hlt
      have hlt : i < 128 := by omega
      obtain ⟨h0, hd⟩ := hs.head h hlt
      -- The slot after one that is no companion is not the second of a pair.
      have next : ∀ {j}, (∀ name, items j ≠ .companion name) → ∀ p, j + 1 < 128 → items (j + 1) ≠ .file p := by
        intro j hj p hj1 hp
        exact hj p.name (h.preceded hj1 hp).2
      have record : ∀ {j e}, j < 128 → i ≤ j → entryAt slots 128 128 i = .ok e → e.primarySlot = j →
          (items j).entry j = some e → entriesBefore items j = entriesBefore items i →
          (do let entry ← entryAt slots 128 128 i
              if duplicateName (entriesBefore items i) entry.primary.name then .error .alreadyExists
              if (entriesBefore items i).length = 128 then .error .noSpace
              scanFrom slots 128 128 128 fuel (entry.primarySlot + 1) (entriesBefore items i ++ [entry])) =
            (.ok (entriesOf items) : Except IosError (List DirectoryEntry)) := by
        intro j e hj hij he hslot hent hsame
        have hdup := h.not_duplicate hij hj hent
        have hlen : ¬(entriesBefore items i).length = 128 := by
          have : (entriesBefore items i).length ≤ i := entriesBefore_length
          omega
        have happ : entriesBefore items i ++ [e] = entriesBefore items (j + 1) := by
          rw [entriesBefore_succ, hsame, hent]
          rfl
        simp only [he, bind, Except.bind, hdup, Bool.false_eq_true, ↓reduceIte, hlen, hslot, happ]
        refine scanFrom_eq hs h (by omega) (by omega) (next fun name hname => ?_)
        simp [hname, Item.entry] at hent
      cases hit : items i with
      | unused =>
        rw [if_pos (h0.mpr hit), h.entriesBefore_of_unused hit hi]
      | deleted =>
        rw [if_neg fun hx => by simp [h0.mp hx] at hit, if_pos (hd.mpr hit)]
        have hsame : entriesBefore items i = entriesBefore items (i + 1) := by
          rw [entriesBefore_succ, hit]
          simp [Item.entry]
        rw [hsame]
        exact scanFrom_eq hs h (by omega) (by omega) (next fun name hname => by simp [hname] at hit)
      | companion name =>
        rw [if_neg fun hx => by simp [h0.mp hx] at hit, if_neg fun hx => by simp [hd.mp hx] at hit]
        obtain ⟨hi1, p, hp, -⟩ := h.paired hlt hit
        refine record hi1 (by omega) ((entryAt_eq hs h hlt).1 name p hit hp) rfl (by simp [hp, Item.entry]) ?_
        rw [entriesBefore_succ, hit]
        simp [Item.entry]
      | file p => exact absurd hit (hnf p hlt)
      | directory p =>
        rw [if_neg fun hx => by simp [h0.mp hx] at hit, if_neg fun hx => by simp [hd.mp hx] at hit]
        have hent : (items i).entry i = some ⟨p, i, none, .directory⟩ := by simp [hit, Item.entry]
        exact record hlt le_rfl ((entryAt_eq hs h hlt).2 _ hent (by simp [hit])) rfl hent rfl
      | internal parent cluster =>
        rw [if_neg fun hx => by simp [h0.mp hx] at hit, if_neg fun hx => by simp [hd.mp hx] at hit]
        have hent : (items i).entry i = some ⟨{ name := internalName parent, attributes := attributeDirectory
                                                firstCluster := cluster, fileSize := 0 }, i, none, .internal⟩ := by
          simp [hit, Item.entry]
        exact record hlt le_rfl ((entryAt_eq hs h hlt).2 _ hent (by simp [hit])) rfl hent rfl

theorem directoryScan_eq (hs : Shows slots items) (h : Tidy items) :
    directoryScan slots 128 128 128 = .ok (entriesOf items) := by
  rw [directoryScan, if_neg (by omega)]
  refine scanFrom_eq hs h (by omega) (by omega) fun p hi hp => ?_
  exact absurd (h.preceded hi hp).1 (by omega)

theorem find_name (items : Nat → Item) (name : Name) :
    (∃ i p e, i < 128 ∧ (items i).Named p ∧ p.name = name ∧ (items i).entry i = some e ∧
      (entriesOf items).find? (fun e => e.kind ≠ .internal ∧ e.primary.name = name) = some e) ∨
    ((∀ i p, i < 128 → (items i).Named p → p.name ≠ name) ∧
      (entriesOf items).find? (fun e => e.kind ≠ .internal ∧ e.primary.name = name) = none) := by
  cases hf : (entriesOf items).find? (fun e => e.kind ≠ .internal ∧ e.primary.name = name) with
  | some e =>
    have hp := List.find?_some hf
    simp only [decide_eq_true_eq] at hp
    obtain ⟨i, hi, he⟩ := mem_entriesBefore.mp (List.mem_of_find?_eq_some hf)
    exact Or.inl ⟨i, e.primary, e, hi, (entry_named he hp.1).1, hp.2, he, rfl⟩
  | none =>
    refine Or.inr ⟨fun i p hi hn hname => ?_, rfl⟩
    rw [List.find?_eq_none] at hf
    rcases hn with hn | hn
    · exact hf ⟨p, i, some (i - 1), .regular⟩ (mem_entriesBefore.mpr ⟨i, hi, by simp [hn, Item.entry]⟩) (by simp [hname])
    · exact hf ⟨p, i, none, .directory⟩ (mem_entriesBefore.mpr ⟨i, hi, by simp [hn, Item.entry]⟩) (by simp [hname])

theorem find_slot (items : Nat → Item) (k : Nat) :
    (∃ p, k < 128 ∧ items k = .file p ∧ (entriesOf items).find? (fun e => e.kind = .regular ∧ e.primarySlot = k) =
      some ⟨p, k, some (k - 1), .regular⟩) ∨
    ((∀ p, k < 128 → items k ≠ .file p) ∧
      (entriesOf items).find? (fun e => e.kind = .regular ∧ e.primarySlot = k) = none) := by
  cases hf : (entriesOf items).find? (fun e => e.kind = .regular ∧ e.primarySlot = k) with
  | some e =>
    have hp := List.find?_some hf
    simp only [decide_eq_true_eq] at hp
    obtain ⟨i, hi, he⟩ := mem_entriesBefore.mp (List.mem_of_find?_eq_some hf)
    cases hit : items i <;> simp only [hit, Item.entry, Option.some.injEq, reduceCtorEq] at he <;> subst he
    · obtain ⟨-, rfl⟩ := hp
      exact Or.inl ⟨_, hi, hit, rfl⟩
    · simp at hp
    · simp at hp
  | none =>
    refine Or.inr ⟨fun p hk hp => ?_, rfl⟩
    rw [List.find?_eq_none] at hf
    exact hf ⟨p, k, some (k - 1), .regular⟩ (mem_entriesBefore.mpr ⟨k, hk, by simp [hp, Item.entry]⟩) (by simp)

theorem mem_entriesOf_named {p : Primary} (hi : i < 128) (hn : (items i).Named p) :
    ∃ e ∈ entriesOf items, e.kind ≠ .internal ∧ e.primary = p ∧ e.primarySlot = i := by
  rcases hn with hn | hn
  · exact ⟨⟨p, i, some (i - 1), .regular⟩, mem_entriesBefore.mpr ⟨i, hi, by simp [hn, Item.entry]⟩, by simp, rfl, rfl⟩
  · exact ⟨⟨p, i, none, .directory⟩, mem_entriesBefore.mpr ⟨i, hi, by simp [hn, Item.entry]⟩, by simp, rfl, rfl⟩

theorem Tidy.used_before (h : Tidy items) {j : Nat} (hi : i < 128) (hu : items i ≠ .unused) (hj : j ≤ i) :
    items j ≠ .unused := fun hx => hu (h.tail hx hj hi)

theorem Shows.available (hs : Shows slots items) (h : Tidy items) (hi : i < 128) :
    slotAvailable (slots i) false = true ↔ (items i).Free := by
  obtain ⟨h0, hd⟩ := hs.head h hi
  simp only [slotAvailable, Bool.false_or, Bool.or_eq_true, beq_iff_eq, h0, hd, Item.Free]

theorem pairSlotsFrom_eq (hs : Shows slots items) (h : Tidy items) : ∀ {left i : Nat}, left + i = 127 →
    (∀ j, j < i → items j ≠ .unused) →
    (∃ k, i ≤ k ∧ pairSlotsFrom slots 128 left i false = .ok k ∧ k + 1 < 128 ∧ (items k).Free ∧ (items (k + 1)).Free ∧
      ∀ j, j < k → items j ≠ .unused) ∨
    (pairSlotsFrom slots 128 left i false = .error .noSpace ∧
      ∀ k, i ≤ k → k + 1 < 128 → ¬((items k).Free ∧ (items (k + 1)).Free))
  | 0, i, hl, hu => Or.inr ⟨rfl, fun k hk hk1 => by omega⟩
  | left + 1, i, hl, hu => by
    have hi : i < 128 := by omega
    have hi1 : i + 1 < 128 := by omega
    have hmod : i % 128 + 1 < 128 := by omega
    have h0 := (hs.head h hi).1
    rw [pairSlotsFrom]
    by_cases hun : items i = .unused
    · -- The end of the directory: the next slot is free as well.
      have hun1 : items (i + 1) = .unused := h.tail hun (by omega) hi1
      have hz : (slots i).byte 0 = 0 := h0.mpr hun
      refine Or.inl ⟨i, le_rfl, ?_, hi1, Or.inl hun, Or.inl hun1, hu⟩
      simp [hz, hmod, slotAvailable]
    · have hz : ¬(slots i).byte 0 = 0 := fun hx => hun (h0.mp hx)
      have hend : (false || (slots i).byte 0 == 0) = false := by simp [hz]
      have hnext : slotAvailable (slots (i + 1)) (false || (slots (i + 1)).byte 0 == 0) = true ↔ (items (i + 1)).Free := by
        rw [← hs.available h hi1]
        simp [slotAvailable]
      rw [hend]
      by_cases hfree : (items i).Free ∧ (items (i + 1)).Free
      · rw [if_pos ⟨hmod, (hs.available h hi).mpr hfree.1, hnext.mpr hfree.2⟩]
        exact Or.inl ⟨i, le_rfl, rfl, hi1, hfree.1, hfree.2, hu⟩
      · rw [if_neg fun hx => hfree ⟨(hs.available h hi).mp hx.2.1, hnext.mp hx.2.2⟩]
        have hu' : ∀ j, j < i + 1 → items j ≠ .unused := fun j hj hx => by
          rcases Nat.lt_succ_iff_lt_or_eq.mp hj with hj | rfl
          · exact hu j hj hx
          · exact hun hx
        have hl' : left + (i + 1) = 127 := by omega
        rcases pairSlotsFrom_eq hs h hl' hu' with ⟨k, hk, hr⟩ | ⟨hr, hno⟩
        · exact Or.inl ⟨k, by omega, hr⟩
        · refine Or.inr ⟨hr, fun k hk hk1 => ?_⟩
          rcases Nat.eq_or_lt_of_le hk with rfl | hk
          · exact hfree
          · exact hno k hk hk1

theorem findPairSlots_eq (hs : Shows slots items) (h : Tidy items) :
    (∃ k, findPairSlots slots 128 128 = .ok k ∧ k + 1 < 128 ∧ (items k).Free ∧ (items (k + 1)).Free ∧
      ∀ j, j < k → items j ≠ .unused) ∨
    (findPairSlots slots 128 128 = .error .noSpace ∧
      ∀ k, k + 1 < 128 → ¬((items k).Free ∧ (items (k + 1)).Free)) := by
  rw [findPairSlots, if_neg (by omega)]
  rcases @pairSlotsFrom_eq slots items hs h 127 0 rfl (by omega) with ⟨k, -, hr⟩ | ⟨hr, hno⟩
  · exact Or.inl ⟨k, hr⟩
  · exact Or.inr ⟨hr, fun k => hno k k.zero_le⟩

theorem findFreeSlot_eq (hs : Shows slots items) (h : Tidy items) :
    (∃ k, (List.range 128).find? (fun i => (slots i).byte 0 = 0 ∨ (slots i).byte 0 = deletedMark) = some k ∧ k < 128 ∧
      (items k).Free ∧ ∀ j, j < k → items j ≠ .unused) ∨
    ((List.range 128).find? (fun i => (slots i).byte 0 = 0 ∨ (slots i).byte 0 = deletedMark) = none ∧
      ∀ k, k < 128 → ¬(items k).Free) := by
  have free : ∀ {i}, i < 128 → (((slots i).byte 0 = 0 ∨ (slots i).byte 0 = deletedMark) ↔ (items i).Free) := by
    intro i hi
    obtain ⟨h0, hd⟩ := hs.head h hi
    rw [h0, hd]
    exact Iff.rfl
  cases hf : (List.range 128).find? (fun i => (slots i).byte 0 = 0 ∨ (slots i).byte 0 = deletedMark) with
  | some k =>
    have hk : k < 128 := List.mem_range.mp (List.mem_of_find?_eq_some hf)
    have hp := List.find?_some hf
    simp only [decide_eq_true_eq] at hp
    refine Or.inl ⟨k, rfl, hk, (free hk).mp hp, fun j hj hx => ?_⟩
    -- The search passes no free slot.
    rw [List.find?_range_eq_some] at hf
    have := hf.2.2 j hj
    simp only [Bool.not_eq_eq_eq_not, Bool.not_true, decide_eq_false_iff_not] at this
    exact this ((free (by omega)).mpr (Or.inl hx))
  | none =>
    rw [List.find?_eq_none] at hf
    refine Or.inr ⟨rfl, fun k hk hfr => hf k (List.mem_range.mpr hk) ?_⟩
    simpa using (free hk).mpr hfr

end Scan

section Change
variable {items : Nat → Item} {s : Nat}

theorem Tidy.setPair (h : Tidy items) (hs : s + 1 < 128) (hstart : (items s).Free ∨ ∃ name, items s = .companion name)
    (hend : (items (s + 1)).Free ∨ ∃ p, items (s + 1) = .file p) (hu : ∀ j, j < s → items j ≠ .unused) {a b : Item}
    (hab : (a = .deleted ∧ b = .deleted) ∨ ∃ p, a = .companion p.name ∧ b = .file p ∧ b.Sound ∧
      ∀ j q, j < 128 → j ≠ s + 1 → (items j).Named q → q.name ≠ p.name) :
    Tidy (update (update items s a) (s + 1) b) := by
  have at_s : update (update items s a) (s + 1) b s = a := by simp
  have at_s1 : update (update items s a) (s + 1) b (s + 1) = b := by simp
  have away : ∀ {i}, i ≠ s → i ≠ s + 1 → update (update items s a) (s + 1) b i = items i := by
    intro i h1 h2
    rw [update_of_ne h2, update_of_ne h1]
  -- The neighbours of the two slots are not tied to them.
  have before : ∀ {i name}, i + 1 = s → items i ≠ .companion name := by
    intro i name hi hc
    obtain ⟨-, p, hp, -⟩ := h.paired (by omega) hc
    rw [hi] at hp
    rcases hstart with (hf | hf) | ⟨n, hf⟩ <;> rw [hf] at hp <;> cases hp
  have after : ∀ {p}, s + 2 < 128 → items (s + 2) ≠ .file p := by
    intro p hlt hp
    have hc := (h.preceded hlt hp).2
    rw [show s + 2 - 1 = s + 1 by omega] at hc
    rcases hend with (hf | hf) | ⟨n, hf⟩ <;> rw [hf] at hc <;> cases hc
  have named : ∀ {i q}, i < 128 → (update (update items s a) (s + 1) b i).Named q →
      (i ≠ s ∧ i ≠ s + 1 ∧ (items i).Named q) ∨ (i = s + 1 ∧ b = .file q) := by
    intro i q hi hn
    by_cases h1 : i = s
    · subst h1
      rw [at_s] at hn
      rcases hab with ⟨rfl, -⟩ | ⟨p, rfl, -⟩ <;> rcases hn with hn | hn <;> cases hn
    · by_cases h2 : i = s + 1
      · subst h2
        rw [at_s1] at hn
        rcases hab with ⟨-, rfl⟩ | ⟨p, -, rfl, -⟩ <;> rcases hn with hn | hn <;> cases hn
        exact Or.inr ⟨rfl, rfl⟩
      · rw [away h1 h2] at hn
        exact Or.inl ⟨h1, h2, hn⟩
  constructor
  · intro i name hi hc
    by_cases h1 : i = s
    · subst h1
      rw [at_s] at hc
      rcases hab with ⟨rfl, -⟩ | ⟨p, rfl, rfl, -⟩ <;> cases hc
      exact ⟨hs, p, at_s1, rfl⟩
    · by_cases h2 : i = s + 1
      · subst h2
        rw [at_s1] at hc
        rcases hab with ⟨-, rfl⟩ | ⟨p, -, rfl, -⟩ <;> cases hc
      · rw [away h1 h2] at hc
        obtain ⟨hi1, p, hp, hname⟩ := h.paired hi hc
        have h3 : i + 1 ≠ s := fun h3 => before h3 hc
        exact ⟨hi1, p, by rw [away h3 (by omega)]; exact hp, hname⟩
  · intro i p hi hp
    by_cases h1 : i = s
    · subst h1
      rw [at_s] at hp
      rcases hab with ⟨rfl, -⟩ | ⟨p, rfl, -⟩ <;> cases hp
    · by_cases h2 : i = s + 1
      · subst h2
        rw [at_s1] at hp
        rcases hab with ⟨-, rfl⟩ | ⟨q, rfl, rfl, -⟩ <;> cases hp
        exact ⟨by omega, by rw [Nat.add_sub_cancel, at_s]⟩
      · rw [away h1 h2] at hp
        obtain ⟨h0, hc⟩ := h.preceded hi hp
        have h3 : i - 1 ≠ s := fun h3 => h2 (by omega)
        have h4 : i - 1 ≠ s + 1 := fun h4 => after (by omega) (by rw [show s + 2 = i by omega]; exact hp)
        exact ⟨h0, by rw [away h3 h4]; exact hc⟩
  · intro i j hi hij hj
    have hne1 : i ≠ s := by
      rintro rfl
      rw [at_s] at hi
      rcases hab with ⟨rfl, -⟩ | ⟨q, rfl, -⟩ <;> cases hi
    have hne2 : i ≠ s + 1 := by
      rintro rfl
      rw [at_s1] at hi
      rcases hab with ⟨-, rfl⟩ | ⟨q, -, rfl, -⟩ <;> cases hi
    rw [away hne1 hne2] at hi
    have hlt : s + 1 < i := by
      by_contra hx
      exact hu i (by omega) hi
    rw [away (by omega) (by omega)]
    exact h.tail hi hij hj
  · intro i j p q hi hj hp hq hname
    have fresh : ∀ {j q r}, j < 128 → j ≠ s + 1 → (items j).Named q → b = .file r → q.name ≠ r.name := by
      intro j q r hj hne hq hb
      rcases hab with ⟨-, hb'⟩ | ⟨r', -, hb', -, hfresh⟩
      · rw [hb] at hb'
        cases hb'
      · rw [hb] at hb'
        cases hb'
        exact hfresh j q hj hne hq
    rcases named hi hp with ⟨h1, h2, hp'⟩ | ⟨h1, hb⟩ <;> rcases named hj hq with ⟨h3, h4, hq'⟩ | ⟨h3, hb'⟩
    · exact h.distinct hi hj hp' hq' hname
    · exact absurd hname (fresh hi h2 hp' hb')
    · exact absurd hname.symm (fresh hj h4 hq' hb)
    · rw [h1, h3]
  · intro i hi
    by_cases h1 : i = s
    · subst h1
      rw [at_s]
      rcases hab with ⟨rfl, -⟩ | ⟨p, rfl, rfl, hb, -⟩
      · trivial
      · exact (Primary.admissible_iff.mp hb.1).1
    · by_cases h2 : i = s + 1
      · subst h2
        rw [at_s1]
        rcases hab with ⟨-, rfl⟩ | ⟨p, -, rfl, hb, -⟩
        · trivial
        · exact hb
      · rw [away h1 h2]
        exact h.sound hi

theorem Tidy.setSingle (h : Tidy items) (hs : s < 128)
    (hold : (items s).Free ∨ (∃ p, items s = .directory p) ∨ ∃ parent cluster, items s = .internal parent cluster)
    (hu : ∀ j, j < s → items j ≠ .unused) {a : Item} (ha : a.Sound)
    (hnew : a = .deleted ∨ (∃ parent cluster, a = .internal parent cluster) ∨
      ∃ p, a = .directory p ∧ ∀ j q, j < 128 → j ≠ s → (items j).Named q → q.name ≠ p.name) :
    Tidy (update items s a) := by
  have at_s : update items s a s = a := by simp
  have away : ∀ {i}, i ≠ s → update items s a i = items i := fun h1 => update_of_ne h1 _ _
  have not_pair : (∀ name, items s ≠ .companion name) ∧ ∀ p, items s ≠ .file p := by
    rcases hold with (hf | hf) | ⟨p, hf⟩ | ⟨b, c, hf⟩ <;> simp [hf]
  have new_pair : (∀ name, a ≠ .companion name) ∧ (∀ p, a ≠ .file p) ∧ a ≠ .unused := by
    rcases hnew with hf | ⟨b, c, hf⟩ | ⟨p, hf, -⟩ <;> simp [hf]
  constructor
  · intro i name hi hc
    by_cases h1 : i = s
    · subst h1
      rw [at_s] at hc
      exact absurd hc (new_pair.1 name)
    · rw [away h1] at hc
      obtain ⟨hi1, p, hp, hname⟩ := h.paired hi hc
      have h2 : i + 1 ≠ s := fun h2 => not_pair.2 p (h2 ▸ hp)
      exact ⟨hi1, p, by rw [away h2]; exact hp, hname⟩
  · intro i p hi hp
    by_cases h1 : i = s
    · subst h1
      rw [at_s] at hp
      exact absurd hp (new_pair.2.1 p)
    · rw [away h1] at hp
      obtain ⟨h0, hc⟩ := h.preceded hi hp
      have h2 : i - 1 ≠ s := fun h2 => not_pair.1 _ (h2 ▸ hc)
      exact ⟨h0, by rw [away h2]; exact hc⟩
  · intro i j hi hij hj
    have h1 : i ≠ s := by
      rintro rfl
      rw [at_s] at hi
      exact new_pair.2.2 hi
    rw [away h1] at hi
    have hlt : s < i := by
      by_contra hx
      exact hu i (by omega) hi
    rw [away (by omega)]
    exact h.tail hi hij hj
  · intro i j p q hi hj hp hq hname
    have fresh : ∀ {i j p q}, j < 128 → i = s → j ≠ s → (update items s a i).Named p → (items j).Named q →
        p.name ≠ q.name := by
      intro i j p' q' hj h1 h2 hp' hq'
      subst h1
      rw [at_s] at hp'
      rcases hnew with rfl | ⟨b, c, rfl⟩ | ⟨r, rfl, hfresh⟩
      · rcases hp' with hp' | hp' <;> cases hp'
      · rcases hp' with hp' | hp' <;> cases hp'
      · rcases hp' with hp' | hp' <;> cases hp'
        exact (hfresh j q' hj h2 hq').symm
    by_cases h1 : i = s <;> by_cases h2 : j = s
    · rw [h1, h2]
    · rw [away h2] at hq
      exact absurd hname (fresh hj h1 h2 hp hq)
    · rw [away h1] at hp
      exact absurd hname.symm (fresh hi h2 h1 hq hp)
    · rw [away h1] at hp
      rw [away h2] at hq
      exact h.distinct hi hj hp hq hname
  · intro i hi
    by_cases h1 : i = s
    · subst h1
      rw [at_s]
      exact ha
    · rw [away h1]
      exact h.sound hi

end Change

end InferenceOS
