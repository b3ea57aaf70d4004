import InferenceOS.Theorems.Registries

/-! A registry that refreshes and rebuilds maintain: its first slots hold one live record for each extension, the others
    are empty. Both loops keep the list of live records in the same way. -/

namespace InferenceOS
open Program RegistryRecord RegistrySourceEntry

def recordOf (extension : Text) (entry : RegistrySourceEntry) (generation : UInt16) : RegistryRecord :=
  { active := true
    canonicalExtension := extension
    extensionHashText := hashText (fnv1a32 extension)
    lastDirectoryCluster := entry.directoryCluster
    lastDirectorySlot := entry.primarySlot
    updateGeneration := generation }

/-- An active record as it decodes. -/
structure RegistryRecord.Live (record : RegistryRecord) : Prop where
  active : record.active = true
  extension : validExtension record.canonicalExtension = true
  hash : record.extensionHashText = hashText (fnv1a32 record.canonicalExtension)

def remember (extension : Text) (entry : RegistrySourceEntry) : List RegistryRecord → List RegistryRecord
  | [] => [recordOf extension entry 1]
  | record :: rest =>
    if record.canonicalExtension = extension then recordOf extension entry (record.updateGeneration + 1) :: rest
    else record :: remember extension entry rest

def entryExtension (entry : RegistrySourceEntry) : Text := (sourceExtension entry).toOption.getD []

def rememberAll (entries : List RegistrySourceEntry) (live : List RegistryRecord) : List RegistryRecord :=
  entries.foldl (fun live entry => remember (entryExtension entry) entry live) live

/-- The live record of an extension with its index, counted from `index`. -/
def position (extension : Text) (index : Nat) : List RegistryRecord → Option (Nat × RegistryRecord)
  | [] => none
  | record :: rest =>
    if record.canonicalExtension = extension then some (index, record) else position extension (index + 1) rest

/-- Live records of distinct extensions. -/
structure Distinct (live : List RegistryRecord) : Prop where
  records : ∀ record ∈ live, record.Live
  nodup : (live.map canonicalExtension).Nodup

section Remember
variable {extension : Text} {entry : RegistrySourceEntry} {live : List RegistryRecord}

theorem Distinct.tail {record : RegistryRecord} (h : Distinct (record :: live)) : Distinct live :=
  ⟨fun r hr => h.records r (List.mem_cons_of_mem _ hr), (List.nodup_cons.mp h.nodup).2⟩

/-- Where a record has the extension, none was found before it and none follows. -/
theorem Distinct.alone {record : RegistryRecord} {found : Option (Nat × RegistryRecord)} (h : Distinct (record :: live))
    (hfound : found.isSome = true → extension ∉ (record :: live).map canonicalExtension) (hx : record.canonicalExtension = extension) :
    found = none ∧ extension ∉ live.map canonicalExtension := by
  refine ⟨?_, hx ▸ (List.nodup_cons.mp h.nodup).1⟩
  cases found with
  | none => rfl
  | some found => exact absurd (List.mem_map.mpr ⟨record, List.mem_cons_self, hx⟩) (hfound rfl)

theorem live_recordOf {generation : UInt16} (h : validExtension extension = true) : (recordOf extension entry generation).Live :=
  ⟨rfl, h, rfl⟩

theorem RegistryRecord.Live.decode {record : RegistryRecord} (h : record.Live) :
    registryRecordDecode (registryRecord record) = .ok record := by
  rw [registryRecordDecode_record h.extension, ← h.hash]

theorem entryExtension_eq (h : entry.valid = true) : sourceExtension entry = .ok (entryExtension entry) := by
  obtain ⟨x, hx⟩ := valid_iff.mp h
  rw [entryExtension, hx]
  rfl

theorem entryExtension_valid (h : entry.valid = true) : validExtension (entryExtension entry) = true :=
  sourceExtension_valid (entryExtension_eq h)

theorem remember_extensions (extension : Text) (entry : RegistrySourceEntry) : ∀ live : List RegistryRecord,
    (remember extension entry live).map canonicalExtension =
      if extension ∈ live.map canonicalExtension then live.map canonicalExtension
      else live.map canonicalExtension ++ [extension]
  | [] => rfl
  | record :: rest => by
    rw [remember]
    by_cases hx : record.canonicalExtension = extension
    · rw [if_pos hx, if_pos (by simp [hx]), List.map_cons, List.map_cons, recordOf, hx]
    · rw [if_neg hx, List.map_cons, List.map_cons, remember_extensions extension entry rest]
      by_cases hmem : extension ∈ rest.map canonicalExtension
      · rw [if_pos hmem, if_pos (List.mem_cons_of_mem _ hmem)]
      · rw [if_neg hmem, if_neg (by simpa [Ne.symm hx] using hmem), List.cons_append]

theorem mem_remember {record : RegistryRecord} : ∀ {live : List RegistryRecord}, record ∈ remember extension entry live →
    record ∈ live ∨ ∃ generation, record = recordOf extension entry generation
  | [], h => Or.inr ⟨1, List.mem_singleton.mp h⟩
  | first :: rest, h => by
    rw [remember] at h
    split at h
    · rcases List.mem_cons.mp h with h | h
      · exact Or.inr ⟨_, h⟩
      · exact Or.inl (List.mem_cons_of_mem _ h)
    · rcases List.mem_cons.mp h with rfl | h
      · exact Or.inl List.mem_cons_self
      · exact (mem_remember h).imp_left (List.mem_cons_of_mem _)

theorem Distinct.noted (h : Distinct live) (hx : validExtension extension = true) : Distinct (remember extension entry live) where
  records record hr := by
    rcases mem_remember hr with hr | ⟨generation, rfl⟩
    · exact h.records record hr
    · exact live_recordOf hx
  nodup := by
    rw [remember_extensions]
    split
    · exact h.nodup
    · rename_i hnew
      exact List.Nodup.append h.nodup (List.nodup_singleton _) (by simpa using hnew)

theorem length_remember : (remember extension entry live).length =
    if extension ∈ live.map canonicalExtension then live.length else live.length + 1 := by
  have h := congrArg List.length (remember_extensions extension entry live)
  rw [List.length_map] at h
  rw [h]
  split <;> simp

theorem length_le_remember : live.length ≤ (remember extension entry live).length := by
  rw [length_remember]
  split <;> omega

end Remember

section RememberAll
variable {entries : List RegistrySourceEntry} {live : List RegistryRecord}

theorem rememberAll_cons {entry : RegistrySourceEntry} :
    rememberAll (entry :: entries) live = rememberAll entries (remember (entryExtension entry) entry live) := rfl

theorem rememberAll_append {more : List RegistrySourceEntry} :
    rememberAll (entries ++ more) live = rememberAll more (rememberAll entries live) := List.foldl_append

theorem length_le_rememberAll : ∀ (entries : List RegistrySourceEntry) (live : List RegistryRecord),
    live.length ≤ (rememberAll entries live).length
  | [], _ => le_rfl
  | _ :: rest, _ => le_trans length_le_remember (length_le_rememberAll rest _)

theorem Distinct.notedAll (h : Distinct live) (hv : ∀ entry ∈ entries, entry.valid = true) :
    Distinct (rememberAll entries live) := by
  induction entries generalizing live with
  | nil => exact h
  | cons entry rest ih =>
    obtain ⟨hentry, hrest⟩ := List.forall_mem_cons.mp hv
    exact ih (h.noted (entryExtension_valid hentry)) hrest

theorem distinct_nil : Distinct [] := ⟨fun _ h => absurd h List.not_mem_nil, List.nodup_nil⟩

theorem mem_rememberAll_extensions {extension : Text} : ∀ (entries : List RegistrySourceEntry) (live : List RegistryRecord),
    extension ∈ (rememberAll entries live).map canonicalExtension ↔
      extension ∈ live.map canonicalExtension ∨ extension ∈ entries.map entryExtension
  | [], live => by simp [rememberAll]
  | entry :: rest, live => by
    rw [rememberAll_cons, mem_rememberAll_extensions rest, remember_extensions, List.map_cons, List.mem_cons]
    split
    · rename_i hmem
      constructor
      · exact Or.imp_right Or.inr
      · rintro (h | rfl | h)
        · exact Or.inl h
        · exact Or.inl hmem
        · exact Or.inr h
    · rw [List.mem_append, List.mem_singleton, or_assoc]

theorem length_rememberAll (hv : ∀ entry ∈ entries, entry.valid = true) :
    (rememberAll entries []).length = (entries.map entryExtension).dedup.length := by
  rw [← List.length_map canonicalExtension]
  refine List.Perm.length_eq ((List.perm_ext_iff_of_nodup (distinct_nil.notedAll hv).nodup (List.nodup_dedup _)).mpr
    fun extension => ?_)
  rw [mem_rememberAll_extensions, List.mem_dedup]
  simp

theorem rememberAll_located {record : RegistryRecord} : ∀ (entries : List RegistrySourceEntry) (live : List RegistryRecord),
    record ∈ rememberAll entries live → record ∈ live ∨ ∃ entry ∈ entries, entryExtension entry = record.canonicalExtension ∧
      entry.directoryCluster = record.lastDirectoryCluster ∧ entry.primarySlot = record.lastDirectorySlot
  | [], _, h => Or.inl h
  | entry :: rest, live, h => by
    rcases rememberAll_located rest _ h with h | ⟨other, hother, hplace⟩
    · rcases mem_remember h with h | ⟨generation, rfl⟩
      · exact Or.inl h
      · exact Or.inr ⟨entry, List.mem_cons_self, rfl, rfl, rfl⟩
    · exact Or.inr ⟨other, List.mem_cons_of_mem _ hother, hplace⟩

end RememberAll

def tableSlots (capacity : Nat) (live : List RegistryRecord) : List Slot :=
  live.map registryRecord ++ List.replicate (capacity - live.length) Bytes.zero

section Slots
variable {capacity : Nat} {extension : Text} {entry : RegistrySourceEntry} {live : List RegistryRecord}

theorem length_tableSlots (h : live.length ≤ capacity) : (tableSlots capacity live).length = capacity := by
  rw [tableSlots, List.length_append, List.length_map, List.length_replicate]
  omega

theorem position_none : ∀ {live : List RegistryRecord} {index : Nat}, position extension index live = none →
    extension ∉ live.map canonicalExtension
  | [], _, _ => List.not_mem_nil
  | record :: rest, index, h => by
    rw [position] at h
    split at h
    · cases h
    · rename_i hx
      rw [List.map_cons, List.mem_cons, not_or]
      exact ⟨Ne.symm hx, position_none h⟩

theorem position_some {record : RegistryRecord} {target : Nat} : ∀ {live : List RegistryRecord} {index : Nat},
    position extension index live = some (target, record) → record ∈ live ∧ record.canonicalExtension = extension ∧ index ≤ target
  | [], _, h => by cases h
  | first :: rest, index, h => by
    rw [position] at h
    split at h
    · rename_i hx
      cases h
      exact ⟨List.mem_cons_self, hx, le_rfl⟩
    · obtain ⟨hmem, hx, hle⟩ := position_some h
      exact ⟨List.mem_cons_of_mem _ hmem, hx, by omega⟩

theorem set_position {record : RegistryRecord} {target : Nat} {tail : List Slot} : ∀ {live : List RegistryRecord} {index : Nat},
    position extension index live = some (target, record) →
    (live.map registryRecord ++ tail).set (target - index) (registryRecord (recordOf extension entry (record.updateGeneration + 1))) =
      (remember extension entry live).map registryRecord ++ tail
  | [], _, h => by cases h
  | first :: rest, index, h => by
    rw [position] at h
    rw [remember]
    split at h
    · rename_i hx
      cases h
      rw [if_pos hx, Nat.sub_self]
      rfl
    · rename_i hx
      have hle := (position_some h).2.2
      have hindex : target - index = (target - (index + 1)) + 1 := by omega
      rw [if_neg hx, hindex, List.map_cons, List.cons_append, List.set_cons_succ, set_position h]
      rfl

theorem remember_new : ∀ {live : List RegistryRecord}, extension ∉ live.map canonicalExtension →
    remember extension entry live = live ++ [recordOf extension entry 1]
  | [], _ => rfl
  | record :: rest, h => by
    rw [List.map_cons, List.mem_cons, not_or] at h
    rw [remember, if_neg (Ne.symm h.1), remember_new h.2, List.cons_append]

theorem set_tableSlots {target : Nat} {record : RegistryRecord} (h : position extension 0 live = some (target, record)) :
    (tableSlots capacity live).set target (registryRecord (recordOf extension entry (record.updateGeneration + 1))) =
      tableSlots capacity (remember extension entry live) := by
  have hmem : extension ∈ live.map canonicalExtension := by
    obtain ⟨hmem, hx, -⟩ := position_some h
    exact List.mem_map.mpr ⟨record, hmem, hx⟩
  rw [tableSlots, tableSlots, length_remember, if_pos hmem, ← set_position h, Nat.sub_zero]

theorem set_tableSlots_new (h : position extension 0 live = none) (hroom : live.length < capacity) :
    (tableSlots capacity live).set live.length (registryRecord (recordOf extension entry 1)) =
      tableSlots capacity (remember extension entry live) := by
  have hrest : List.replicate (capacity - live.length) (Bytes.zero : Slot) =
      Bytes.zero :: List.replicate (capacity - (live.length + 1)) Bytes.zero := by
    rw [← List.replicate_succ]
    congr 1
    omega
  have hset := List.set_append_right (s := live.map registryRecord) (t := List.replicate (capacity - live.length) Bytes.zero)
    live.length (registryRecord (recordOf extension entry 1)) (by rw [List.length_map])
  rw [tableSlots, tableSlots, length_remember, if_neg (position_none h), remember_new (position_none h), hset, List.length_map,
    Nat.sub_self, hrest, List.set_cons_zero, List.map_append, List.append_assoc]
  rfl

end Slots

namespace Registry

section Refresh
variable {capacity : Nat} {extension : Text} {entry : RegistrySourceEntry} {live : List RegistryRecord}

theorem emptySlot_zero : emptySlot Bytes.zero = true := decide_eq_true rfl

theorem refreshScan_empty (target : Option (Nat × RegistryRecord)) : ∀ (k index : Nat) (available : Option Nat),
    refreshScanFrom extension index ⟨target, available⟩ (List.replicate k Bytes.zero) =
      .ok ⟨target, available.or (if k = 0 then none else some index)⟩
  | 0, _, available => by rw [List.replicate_zero, refreshScanFrom, if_pos rfl, Option.or_none]
  | k + 1, index, available => by
    rw [List.replicate_succ, refreshScanFrom]
    dsimp only
    rw [if_pos emptySlot_zero, refreshScan_empty target k, Option.or_assoc, Option.some_or, if_neg (by omega)]

theorem refreshScan_slots (k : Nat) : ∀ {live : List RegistryRecord} (index : Nat) (target : Option (Nat × RegistryRecord)),
    Distinct live → (target.isSome = true → extension ∉ live.map canonicalExtension) →
    refreshScanFrom extension index ⟨target, none⟩ (live.map registryRecord ++ List.replicate k Bytes.zero) =
      .ok ⟨target.or (position extension index live), if k = 0 then none else some (index + live.length)⟩
  | [], index, target, _, _ => by
    rw [List.map_nil, List.nil_append, refreshScan_empty, Option.none_or, position, Option.or_none]
    rfl
  | record :: rest, index, target, h, htarget => by
    have hlive := h.records record List.mem_cons_self
    have hlen : index + (record :: rest).length = index + 1 + rest.length := by
      rw [List.length_cons]
      omega
    rw [List.map_cons, List.cons_append, refreshScanFrom, position, hlen]
    simp only [registryRecord_ne_zero, Bool.false_eq_true, if_false, hlive.decode, hlive.active, not_true_eq_false]
    by_cases hx : record.canonicalExtension = extension
    · obtain ⟨rfl, hnew⟩ := h.alone htarget hx
      rw [if_pos hx, if_pos hx, Option.isSome_none, if_neg Bool.false_ne_true,
        refreshScan_slots k (index + 1) (some (index, record)) h.tail fun _ => hnew, Option.some_or, Option.none_or]
    · rw [if_neg hx, if_neg hx]
      refine refreshScan_slots k (index + 1) target h.tail fun ht => ?_
      exact fun hmem => htarget ht (by rw [List.map_cons]; exact List.mem_cons_of_mem _ hmem)

theorem registryRefresh_slots {health : RegistryHealth} (h : Distinct live) (hl : live.length ≤ capacity)
    (hv : entry.valid = true) (hc : ¬(health = .corrupt ∨ health = .stale)) (hb : health ≠ .rebuilding) :
    registryRefresh entry ⟨tableSlots capacity live, true, health⟩ =
      match position (entryExtension entry) 0 live with
      | some (target, _) =>
        (.ok (some target), ⟨tableSlots capacity (remember (entryExtension entry) entry live), true, health⟩)
      | none =>
        if health ≠ .full ∧ live.length < capacity then
          (.ok (some live.length), ⟨tableSlots capacity (remember (entryExtension entry) entry live), true, health⟩)
        else (.error .noSpace, ⟨tableSlots capacity live, true, .full⟩) := by
  have hencode (value : RegistryRecord) (hx : value.canonicalExtension = entryExtension entry) :
      registryRecordEncode value = .ok (registryRecord value) :=
    registryRecordEncode_eq (by rw [hx]; exact entryExtension_valid hv)
  have hscan := @refreshScan_slots (entryExtension entry) (capacity - live.length) _ 0 none h (fun h => (nomatch h))
  rw [Option.none_or, Nat.zero_add] at hscan
  unfold registryRefresh
  rw [bind_ok (show get (⟨tableSlots capacity live, true, health⟩ : Registry) = (.ok _, _) from rfl)]
  dsimp only
  rw [if_neg (by simp), failIf_pass hc, failIf_pass hb, entryExtension_eq hv, ofExcept_ok_bind, tableSlots, hscan]
  dsimp only
  cases hpos : position (entryExtension entry) 0 live with
  | some found =>
    obtain ⟨target, record⟩ := found
    rw [Option.map_some, Option.some_or]
    dsimp only
    rw [hencode _ rfl, ofExcept_ok_bind, ← tableSlots, ← @set_tableSlots _ _ entry _ _ _ hpos]
    rfl
  | none =>
    rw [Option.map_none, Option.none_or, ← tableSlots]
    by_cases hroom : health ≠ .full ∧ live.length < capacity
    · rw [if_neg (by simpa using hroom.1), if_neg (by omega)]
      dsimp only
      rw [hencode _ rfl, ofExcept_ok_bind, if_pos hroom, ← @set_tableSlots_new _ _ entry _ hpos hroom.2]
      rfl
    · have hnone : (if decide (health = .full) = true then none else if capacity - live.length = 0 then none else some live.length) = none := by
        split
        · rfl
        · rename_i hf
          rw [if_pos]
          by_contra hne
          exact hroom ⟨by simpa using hf, by omega⟩
      rw [hnone, if_neg hroom]
      rfl

theorem registryRefresh_notes (h : Distinct live) (hv : entry.valid = true)
    (hroom : (remember (entryExtension entry) entry live).length ≤ capacity) :
    ∃ target, registryRefresh entry ⟨tableSlots capacity live, true, .healthy⟩ =
      (.ok target, ⟨tableSlots capacity (remember (entryExtension entry) entry live), true, .healthy⟩) := by
  have hrun := @registryRefresh_slots capacity _ _ .healthy h (le_trans length_le_remember hroom) hv
    (by decide) (by decide)
  cases hpos : position (entryExtension entry) 0 live with
  | some found =>
    rw [hpos] at hrun
    exact ⟨_, hrun⟩
  | none =>
    rw [length_remember, if_neg (position_none hpos)] at hroom
    rw [hpos] at hrun
    dsimp only at hrun
    rw [if_pos ⟨by decide, by omega⟩] at hrun
    exact ⟨_, hrun⟩

def refreshAll (entries : List RegistrySourceEntry) : Registering Unit :=
  each (fun entry => do
    let _ ← registryRefresh entry
    pure ()) entries

theorem refreshAll_notes : ∀ {entries : List RegistrySourceEntry} {live : List RegistryRecord}, Distinct live →
    (∀ entry ∈ entries, entry.valid = true) → (rememberAll entries live).length ≤ capacity →
    refreshAll entries ⟨tableSlots capacity live, true, .healthy⟩ =
      (.ok (), ⟨tableSlots capacity (rememberAll entries live), true, .healthy⟩)
  | [], _, _, _, _ => rfl
  | entry :: rest, live, h, hv, hroom => by
    obtain ⟨hentry, hrest⟩ := List.forall_mem_cons.mp hv
    obtain ⟨target, hrun⟩ := registryRefresh_notes h hentry (le_trans (length_le_rememberAll rest _) hroom)
    rw [refreshAll, each, Program.bind_assoc, bind_ok hrun]
    exact refreshAll_notes (h.noted (entryExtension_valid hentry)) hrest hroom

end Refresh

section Rebuild
variable {capacity : Nat} {entries : List RegistrySourceEntry} {live : List RegistryRecord}

theorem hasDuplicate_eq {extension : Text} : ∀ {entries : List RegistrySourceEntry}, (∀ entry ∈ entries, entry.valid = true) →
    hasDuplicate extension entries = .ok (decide (extension ∈ entries.map entryExtension))
  | [], _ => rfl
  | entry :: rest, hv => by
    obtain ⟨hentry, hrest⟩ := List.forall_mem_cons.mp hv
    rw [hasDuplicate, entryExtension_eq hentry]
    dsimp only [bind, Except.bind]
    by_cases hx : extension = entryExtension entry
    · rw [if_pos hx, decide_eq_true (by simp [hx])]
    · rw [if_neg hx, hasDuplicate_eq hrest]
      simp [hx]

theorem validateRebuildFrom_ok : ∀ {entries before : List RegistrySourceEntry}, (∀ entry ∈ before, entry.valid = true) →
    ((rememberAll before []).length ≤ capacity) →
    (validateRebuildFrom capacity before (rememberAll before []).length entries = .ok () ↔
      (∀ entry ∈ entries, entry.valid = true) ∧ (rememberAll (before ++ entries) []).length ≤ capacity)
  | [], before, _, hl => by
    rw [validateRebuildFrom, List.append_nil]
    exact ⟨fun _ => ⟨fun _ h => absurd h List.not_mem_nil, hl⟩, fun _ => rfl⟩
  | entry :: rest, before, hb, hl => by
    rw [validateRebuildFrom, List.forall_mem_cons]
    by_cases hentry : entry.valid = true
    · have hnext : ∀ other ∈ before ++ [entry], other.valid = true := List.forall_mem_append.mpr ⟨hb, by simpa using hentry⟩
      have hlen := @length_remember (entryExtension entry) entry (rememberAll before [])
      rw [show remember (entryExtension entry) entry (rememberAll before []) = rememberAll [entry] (rememberAll before []) from rfl,
        ← rememberAll_append] at hlen
      have hmem := @mem_rememberAll_extensions (entryExtension entry) before []
      have happend : before ++ entry :: rest = before ++ [entry] ++ rest := by simp
      rw [entryExtension_eq hentry, and_iff_right hentry, happend]
      dsimp only [bind, Except.bind]
      rw [hasDuplicate_eq hb]
      dsimp only
      by_cases hold : entryExtension entry ∈ before.map entryExtension
      · rw [if_pos (hmem.mpr (Or.inr hold))] at hlen
        rw [decide_eq_true hold, if_pos rfl, ← hlen]
        exact validateRebuildFrom_ok hnext (by omega)
      · have hnew : entryExtension entry ∉ (rememberAll before []).map canonicalExtension := by
          rw [hmem]
          simpa using hold
        rw [if_neg hnew] at hlen
        rw [decide_eq_false hold, if_neg Bool.false_ne_true, ← hlen]
        by_cases hroom : capacity < (rememberAll (before ++ [entry]) []).length
        · rw [if_pos hroom]
          refine ⟨fun h => (nomatch h), fun h => ?_⟩
          have hmore := length_le_rememberAll rest (rememberAll (before ++ [entry]) [])
          rw [← rememberAll_append] at hmore
          exact absurd (le_trans hmore h.2) (by omega)
        · rw [if_neg hroom]
          exact validateRebuildFrom_ok hnext (by omega)
    · refine ⟨fun h => ?_, fun h => absurd h.1.1 hentry⟩
      obtain ⟨x, hx, -⟩ := of_bind_ok h
      exact absurd (valid_eq hx) hentry

theorem validateRebuildEntries_ok : validateRebuildEntries entries capacity = .ok () ↔
    (∀ entry ∈ entries, entry.valid = true) ∧ (rememberAll entries []).length ≤ capacity :=
  validateRebuildFrom_ok (fun _ h => absurd h List.not_mem_nil) (Nat.zero_le _)

theorem rebuildTarget_eq {extension : Text} : ∀ {live : List RegistryRecord} {slot : Nat}, (∀ record ∈ live, record.Live) →
    rebuildTarget extension slot (live.map registryRecord) = .ok (position extension slot live)
  | [], _, _ => rfl
  | record :: rest, slot, h => by
    obtain ⟨hrecord, hrest⟩ := List.forall_mem_cons.mp h
    rw [List.map_cons, rebuildTarget, hrecord.decode, position]
    dsimp only [bind, Except.bind]
    split
    · rfl
    · exact rebuildTarget_eq hrest

theorem orCorrupt_ok_bind {α β : Type} {a : α} {f : α → Registering β} : orCorrupt (.ok a) >>= f = f a := rfl

theorem rebuildFrom_notes {enabled : Bool} {health : RegistryHealth} : ∀ {entries : List RegistrySourceEntry}
    {live : List RegistryRecord}, Distinct live → (∀ entry ∈ entries, entry.valid = true) →
    (rememberAll entries live).length ≤ capacity →
    rebuildFrom live.length entries ⟨tableSlots capacity live, enabled, health⟩ =
      (.ok (), ⟨tableSlots capacity (rememberAll entries live), enabled, health⟩)
  | [], _, _, _, _ => rfl
  | entry :: rest, live, h, hv, hroom => by
    obtain ⟨hentry, hrest⟩ := List.forall_mem_cons.mp hv
    have hnext := @Distinct.noted _ entry _ h (entryExtension_valid hentry)
    have hroom' := le_trans (length_le_rememberAll rest (remember (entryExtension entry) entry live)) hroom
    have hencode (value : RegistryRecord) (hx : value.canonicalExtension = entryExtension entry) :
        registryRecordEncode value = .ok (registryRecord value) :=
      registryRecordEncode_eq (by rw [hx]; exact entryExtension_valid hentry)
    have htake : (tableSlots capacity live).take live.length = live.map registryRecord := by
      rw [tableSlots, List.take_left' (by simp)]
    have hlen := @length_remember (entryExtension entry) entry live
    rw [rebuildFrom, entryExtension_eq hentry, orCorrupt_ok_bind, bind_ok (show get (⟨tableSlots capacity live, enabled, health⟩ : Registry) = (.ok _, _) from rfl)]
    dsimp only
    rw [htake, rebuildTarget_eq h.records, orCorrupt_ok_bind]
    cases hpos : position (entryExtension entry) 0 live with
    | some found =>
      obtain ⟨target, record⟩ := found
      obtain ⟨hmem, hx, -⟩ := position_some hpos
      have hin : entryExtension entry ∈ live.map canonicalExtension := List.mem_map.mpr ⟨record, hmem, hx⟩
      rw [if_pos hin] at hlen
      rw [hencode _ rfl, orCorrupt_ok_bind]
      show rebuildFrom live.length rest ⟨(tableSlots capacity live).set target
        (registryRecord (recordOf (entryExtension entry) entry (record.updateGeneration + 1))), enabled, health⟩ = _
      rw [set_tableSlots hpos, ← hlen]
      exact rebuildFrom_notes hnext hrest hroom
    | none =>
      rw [if_neg (position_none hpos)] at hlen
      rw [hencode _ rfl, orCorrupt_ok_bind]
      show rebuildFrom (live.length + 1) rest ⟨(tableSlots capacity live).set live.length
        (registryRecord (recordOf (entryExtension entry) entry 1)), enabled, health⟩ = _
      rw [set_tableSlots_new hpos (by omega), ← hlen]
      exact rebuildFrom_notes hnext hrest hroom

theorem tableSlots_nil : tableSlots capacity [] = List.replicate capacity Bytes.zero := rfl

theorem registryRebuild_notes {registry : Registry} (henabled : registry.enabled = true)
    (hv : ∀ entry ∈ entries, entry.valid = true) (hroom : (rememberAll entries []).length ≤ registry.records.length) :
    registryRebuild entries registry =
      (.ok (), ⟨tableSlots registry.records.length (rememberAll entries []), true, .healthy⟩) := by
  have hzero : (registry.records.map fun _ => (Bytes.zero : Slot)) = tableSlots registry.records.length [] := by
    rw [tableSlots_nil, List.map_const']
  have hrun := @rebuildFrom_notes _ registry.enabled .rebuilding _ _ distinct_nil hv hroom
  rw [List.length_nil] at hrun
  unfold registryRebuild
  rw [bind_ok (show Program.get registry = (.ok registry, registry) from rfl), if_neg (by simp [henabled]),
    validateRebuildEntries_ok.mpr ⟨hv, hroom⟩]
  show (rebuildFrom 0 entries >>= _) ⟨registry.records.map _, registry.enabled, .rebuilding⟩ = _
  rw [hzero, bind_ok hrun, henabled]
  rfl

theorem registryRebuild_cases (entries : List RegistrySourceEntry) (registry : Registry) :
    (∃ status health, registryRebuild entries registry = (.error status, { registry with health })) ∨
    (registry.enabled = false ∧ registryRebuild entries registry = (.ok (), registry)) ∨
    (registry.enabled = true ∧ (∀ entry ∈ entries, entry.valid = true) ∧
      (rememberAll entries []).length ≤ registry.records.length ∧ registryRebuild entries registry =
        (.ok (), ⟨tableSlots registry.records.length (rememberAll entries []), true, .healthy⟩)) := by
  unfold registryRebuild
  rw [bind_ok (show Program.get registry = (.ok registry, registry) from rfl)]
  by_cases henabled : registry.enabled = false
  · rw [if_pos henabled]
    exact Or.inr (Or.inl ⟨henabled, rfl⟩)
  · rw [if_neg henabled]
    rw [Bool.not_eq_false] at henabled
    cases hvalidate : validateRebuildEntries entries registry.records.length with
    | error status =>
      refine Or.inl ⟨status, if status = .noSpace then .full else registry.health, ?_⟩
      cases status <;> rfl
    | ok =>
      obtain ⟨hv, hroom⟩ := validateRebuildEntries_ok.mp hvalidate
      have hrun := registryRebuild_notes henabled hv hroom
      unfold registryRebuild at hrun
      rw [bind_ok (show Program.get registry = (.ok registry, registry) from rfl), if_neg (by simp [henabled]), hvalidate] at hrun
      exact Or.inr (Or.inr ⟨henabled, hv, hroom, hrun⟩)

end Rebuild

def Maintained (registry : Registry) : Prop :=
  ∃ live, Distinct live ∧ live.length ≤ registry.records.length ∧ registry.records = tableSlots registry.records.length live

/-- The registries reached from empty records. -/
inductive Reached : Registry → Prop
  | initialized {capacity : Nat} {enabled : Bool} {registry : Registry}
      (h : registryInitialize (List.replicate capacity Bytes.zero) enabled = .ok registry) : Reached registry
  | refreshed {registry : Registry} (entry : RegistrySourceEntry) (h : Reached registry) : Reached (registryRefresh entry registry).2
  | rebuilt {registry : Registry} (entries : List RegistrySourceEntry) (h : Reached registry) :
      Reached (registryRebuild entries registry).2
  | lookedUp {registry : Registry} (entries : List RegistrySourceEntry) (extension : Text) (matchCapacity : Nat) (before : List Nat)
      (h : Reached registry) : Reached (registryLookup entries extension matchCapacity ⟨registry, before⟩).2.registry

section Runs
variable {registry : Registry}

theorem Maintained.of_records {other : Registry} (h : Maintained registry) (heq : other.records = registry.records) :
    Maintained other := by
  obtain ⟨live, hd, hl, hr⟩ := h
  exact ⟨live, hd, by rw [heq]; exact hl, by rw [heq]; exact hr⟩

theorem maintained_slots {capacity : Nat} {live : List RegistryRecord} {enabled : Bool} {health : RegistryHealth} (h : Distinct live)
    (hl : live.length ≤ capacity) : Maintained ⟨tableSlots capacity live, enabled, health⟩ := by
  refine ⟨live, h, ?_, ?_⟩
  · dsimp only
    rwa [length_tableSlots hl]
  · dsimp only
    rw [length_tableSlots hl]

theorem Maintained.refreshed (h : Maintained registry) (entry : RegistrySourceEntry) : Maintained (registryRefresh entry registry).2 := by
  by_cases hquiet : registry.enabled = false ∨ registry.health = .corrupt ∨ registry.health = .stale ∨
      registry.health = .rebuilding ∨ entry.valid = false
  · refine h.of_records ?_
    unfold registryRefresh
    rw [bind_ok (show Program.get registry = (.ok registry, registry) from rfl)]
    by_cases henabled : registry.enabled = false
    · rw [if_pos henabled]
      rfl
    rw [if_neg henabled]
    by_cases hc : registry.health = .corrupt ∨ registry.health = .stale
    · rw [failIf_bind hc]
      rfl
    by_cases hb : registry.health = .rebuilding
    · rw [failIf_pass hc, failIf_bind hb]
      rfl
    have hinvalid : entry.valid = false := by
      rcases hquiet with h | h | h | h | h
      · exact absurd h henabled
      · exact absurd (Or.inl h) hc
      · exact absurd (Or.inr h) hc
      · exact absurd h hb
      · exact h
    rw [failIf_pass hc, failIf_pass hb]
    cases hx : sourceExtension entry with
    | error status => rfl
    | ok extension =>
      rw [valid_eq hx] at hinvalid
      cases hinvalid
  · obtain ⟨live, hd, hl, hr⟩ := h
    obtain ⟨records, enabled, health⟩ := registry
    simp only [not_or, Bool.not_eq_false] at hquiet hl hr
    obtain ⟨rfl, hc, hs, hb, hv⟩ := hquiet
    have hrun := @registryRefresh_slots _ _ _ health hd hl hv (not_or.mpr ⟨hc, hs⟩) hb
    rw [← hr] at hrun
    rw [hrun]
    have hnoted := @Distinct.noted _ entry _ hd (entryExtension_valid hv)
    have hgrown := @length_remember (entryExtension entry) entry live
    cases hpos : position (entryExtension entry) 0 live with
    | some found =>
      obtain ⟨hmem, hx, -⟩ := position_some hpos
      rw [if_pos (List.mem_map.mpr ⟨_, hmem, hx⟩)] at hgrown
      exact maintained_slots hnoted (by omega)
    | none =>
      rw [if_neg (position_none hpos)] at hgrown
      dsimp only
      split
      · rename_i hroom
        exact maintained_slots hnoted (by omega)
      · exact ⟨live, hd, hl, hr⟩

theorem Maintained.rebuilt (h : Maintained registry) (entries : List RegistrySourceEntry) :
    Maintained (registryRebuild entries registry).2 := by
  rcases registryRebuild_cases entries registry with ⟨status, health, hrun⟩ | ⟨-, hrun⟩ | ⟨-, hv, hroom, hrun⟩
  · rw [hrun]
    exact h.of_records rfl
  · rw [hrun]
    exact h
  · rw [hrun]
    exact maintained_slots (distinct_nil.notedAll hv) hroom

theorem findActiveRecord_records (extension : Text) : (findActiveRecord extension registry).2.records = registry.records := by
  unfold findActiveRecord
  rw [bind_ok (show Program.get registry = (.ok registry, registry) from rfl)]
  rcases findActiveFrom extension 0 none registry.records with status | _ | found <;> rfl

theorem inspectHint_records {extension : Text} {lookup : Lookup} :
    (inspectHint extension lookup).2.registry.records = lookup.registry.records := by
  unfold inspectHint
  rw [bind_ok (show Program.get lookup = (.ok lookup, lookup) from rfl)]
  split
  · rw [bind_ok (attempt_eq (onRegistry_run (Prod.mk.eta (p := findActiveRecord extension lookup.registry)).symm))]
    cases (findActiveRecord extension lookup.registry).1 <;> exact findActiveRecord_records extension
  · rfl

theorem registryLookup_registry {entries : List RegistrySourceEntry} {extension : Text} {matchCapacity : Nat} {before : List Nat} :
    let run := registryLookup entries extension matchCapacity ⟨registry, before⟩
    run.2.registry = registry ∨ ∃ inspected other, inspectHint extension ⟨registry, []⟩ = (.ok inspected, ⟨other, []⟩) ∧
      (run.2.registry = other ∨ run.2.registry = { other with health := .stale } ∧ ∃ hintValid after,
        lookupFrom extension matchCapacity (inspected.getD none) 0 false entries ⟨other, []⟩ = (.ok hintValid, after) ∧
        ∃ hint ∈ inspected, (hint.isSome = true ∧ hintValid = false) ∨ (hint.isNone = true ∧ after.matched ≠ [])) := by
  intro run
  by_cases hx : validExtension extension = false
  · refine Or.inl ?_
    show (registryLookup entries extension matchCapacity ⟨registry, before⟩).2.registry = _
    unfold registryLookup
    rw [failIf_bind hx]
    rfl
  · obtain ⟨inspected, other, hinspect⟩ := @inspectHint_run extension ⟨registry, []⟩
    obtain ⟨hout, hstate⟩ := @lookupFrom_run extension matchCapacity (inspected.getD none) entries 0
      false ⟨other, []⟩ (Nat.zero_le _)
    refine Or.inr ⟨inspected, other, hinspect, ?_⟩
    have hrun : run = (lookupFrom extension matchCapacity (inspected.getD none) 0 false entries >>= fun hintValid => do
        let lookup ← get
        if ∃ hint ∈ inspected, (hint.isSome ∧ hintValid = false) ∨ (hint.isNone ∧ lookup.matched ≠ []) then
          onRegistry (setHealth .stale)
        else pure ()) ⟨other, []⟩ := by
      show registryLookup entries extension matchCapacity ⟨registry, before⟩ = _
      unfold registryLookup
      rw [failIf_pass hx, bind_ok (show modify (fun lookup : Lookup => { lookup with matched := [] }) ⟨registry, before⟩ =
        (Except.ok (), ⟨registry, []⟩) from rfl), bind_ok hinspect]
    rcases hscan : lookupFrom extension matchCapacity (inspected.getD none) 0 false entries ⟨other, []⟩ with ⟨status | hintValid, after⟩
    · rw [hscan] at hstate
      rw [bind_error hscan] at hrun
      rw [hrun]
      exact Or.inl (congrArg Lookup.registry hstate)
    · rw [hscan] at hstate
      have hafter : after.registry = other := congrArg Lookup.registry hstate
      rw [bind_ok hscan, bind_ok (show get after = (.ok after, after) from rfl)] at hrun
      by_cases hstale : ∃ hint ∈ inspected, (hint.isSome = true ∧ hintValid = false) ∨ (hint.isNone = true ∧ after.matched ≠ [])
      · rw [if_pos hstale] at hrun
        rw [hrun]
        exact Or.inr ⟨by rw [← hafter]; rfl, hintValid, after, rfl, hstale⟩
      · rw [if_neg hstale] at hrun
        rw [hrun]
        exact Or.inl hafter

theorem Maintained.lookedUp (h : Maintained registry) (entries : List RegistrySourceEntry) (extension : Text) (matchCapacity : Nat)
    (before : List Nat) : Maintained (registryLookup entries extension matchCapacity ⟨registry, before⟩).2.registry := by
  refine h.of_records ?_
  rcases @registryLookup_registry registry entries extension matchCapacity before with hrun | ⟨inspected, other, hinspect, hrun⟩
  · rw [hrun]
  · have hrecords := @inspectHint_records extension ⟨registry, []⟩
    rw [hinspect] at hrecords
    rcases hrun with hrun | ⟨hrun, -⟩
    · rw [hrun]
      exact hrecords
    · rw [hrun]
      exact hrecords

theorem Reached.maintained (h : Reached registry) : Maintained registry := by
  induction h with
  | @initialized capacity enabled registry h =>
    unfold registryInitialize at h
    split at h
    · cases h
    · cases h
      exact @maintained_slots _ [] _ _ distinct_nil (Nat.zero_le _)
  | refreshed entry _ ih => exact ih.refreshed entry
  | rebuilt entries _ ih => exact ih.rebuilt entries
  | lookedUp entries extension matchCapacity before _ ih => exact ih.lookedUp entries extension matchCapacity before

/-- No extension is active in two records. -/
def Single (registry : Registry) : Prop :=
  ∀ (i j : Nat) (first second : Slot) (a b : RegistryRecord), registry.records[i]? = some first → registry.records[j]? = some second →
    registryRecordDecode first = .ok a → registryRecordDecode second = .ok b → a.active = true → b.active = true →
    a.canonicalExtension = b.canonicalExtension → i = j

theorem Maintained.single (h : Maintained registry) : Single registry := by
  obtain ⟨live, hd, -, hr⟩ := h
  have hslot {i : Nat} {slot : Slot} {record : RegistryRecord} (hi : registry.records[i]? = some slot)
      (hdecode : registryRecordDecode slot = .ok record) : live[i]? = some record := by
    rw [hr, tableSlots, List.getElem?_append, List.length_map] at hi
    split at hi
    · rw [List.getElem?_map] at hi
      obtain ⟨found, hfound, rfl⟩ := Option.map_eq_some_iff.mp hi
      rw [(hd.records found (List.mem_of_getElem? hfound)).decode] at hdecode
      cases hdecode
      exact hfound
    · have hz := List.eq_of_mem_replicate (List.mem_of_getElem? hi)
      rw [hz, registryRecordDecode, if_pos (by rw [Bytes.byte_zero]; decide)] at hdecode
      cases hdecode
  intro i j first second a b hi hj ha hb _ _ hx
  have hia := hslot hi ha
  have hjb := hslot hj hb
  have hilt := (List.getElem?_eq_some_iff.mp hia).1
  have hsame : (live.map canonicalExtension)[i]? = (live.map canonicalExtension)[j]? := by
    rw [List.getElem?_map, List.getElem?_map, hia, hjb]
    exact congrArg some hx
  exact (List.getElem?_inj (by rwa [List.length_map]) hd.nodup).mp hsame

end Runs

section Fresh
variable {extension : Text} {live : List RegistryRecord}

theorem findActive_empty (found : Option (Nat × RegistryRecord)) : ∀ (k index : Nat),
    findActiveFrom extension index found (List.replicate k Bytes.zero) = .ok found
  | 0, _ => rfl
  | k + 1, index => by rw [List.replicate_succ, findActiveFrom, if_pos emptySlot_zero, findActive_empty found k]

theorem findActive_slots (k : Nat) : ∀ {live : List RegistryRecord} (index : Nat) (found : Option (Nat × RegistryRecord)),
    Distinct live → (found.isSome = true → extension ∉ live.map canonicalExtension) →
    findActiveFrom extension index found (live.map registryRecord ++ List.replicate k Bytes.zero) =
      .ok (found.or (position extension index live))
  | [], index, found, _, _ => by rw [List.map_nil, List.nil_append, findActive_empty, position, Option.or_none]
  | record :: rest, index, found, h, hfound => by
    have hlive := h.records record List.mem_cons_self
    rw [List.map_cons, List.cons_append, findActiveFrom, position]
    simp only [registryRecord_ne_zero, Bool.false_eq_true, if_false, hlive.decode, hlive.active, true_and]
    by_cases hx : record.canonicalExtension = extension
    · obtain ⟨rfl, hnew⟩ := h.alone hfound hx
      rw [if_pos hx, if_pos hx, Option.isSome_none, if_neg Bool.false_ne_true,
        findActive_slots k (index + 1) (some (index, record)) h.tail fun _ => hnew, Option.some_or, Option.none_or]
    · rw [if_neg hx, if_neg hx]
      refine findActive_slots k (index + 1) found h.tail fun ht => ?_
      exact fun hmem => hfound ht (by rw [List.map_cons]; exact List.mem_cons_of_mem _ hmem)

theorem lookupFrom_hint {matchCapacity : Nat} {hint : RegistryRecord} : ∀ {entries : List RegistrySourceEntry} {index : Nat}
    {hintValid : Bool} {lookup after : Lookup} {result : Bool},
    lookupFrom extension matchCapacity (some hint) index hintValid entries lookup = (.ok result, after) →
    (∃ entry ∈ entries, sourceExtension entry = .ok extension ∧ entry.directoryCluster = hint.lastDirectoryCluster ∧
      entry.primarySlot = hint.lastDirectorySlot) ∨ hintValid = true → result = true
  | [], index, hintValid, lookup, after, result, hrun, h => by
    cases hrun
    rcases h with ⟨entry, hmem, -⟩ | h
    · exact absurd hmem List.not_mem_nil
    · exact h
  | entry :: rest, index, hintValid, lookup, after, result, hrun, h => by
    rw [lookupFrom] at hrun
    obtain ⟨found, hfound, hrun⟩ := of_ofExcept_run hrun
    have hnext : (∃ entry ∈ rest, sourceExtension entry = .ok extension ∧ entry.directoryCluster = hint.lastDirectoryCluster ∧
        entry.primarySlot = hint.lastDirectorySlot) ∨ (hintValid || (some hint).any fun hint =>
          entry.directoryCluster = hint.lastDirectoryCluster ∧ entry.primarySlot = hint.lastDirectorySlot ∧ found = extension) = true := by
      rcases h with ⟨other, hmem, hx, hcluster, hslot⟩ | h
      · rcases List.mem_cons.mp hmem with rfl | hmem
        · rw [hfound] at hx
          refine Or.inr ?_
          simp [hcluster, hslot, Except.ok.inj hx]
        · exact Or.inl ⟨other, hmem, hx, hcluster, hslot⟩
      · exact Or.inr (by rw [h, Bool.true_or])
    dsimp only at hrun
    split at hrun
    · exact lookupFrom_hint hrun hnext
    · obtain ⟨-, -, -, hrun⟩ := of_bind_run hrun
      obtain ⟨-, hrun⟩ := of_failIf_run hrun
      obtain ⟨-, -, -, hrun⟩ := of_bind_run hrun
      exact lookupFrom_hint hrun hnext

theorem registryLookup_fresh {entries : List RegistrySourceEntry} {capacity : Nat} (hv : ∀ entry ∈ entries, entry.valid = true)
    (matchCapacity : Nat) (before : List Nat) :
    (registryLookup entries extension matchCapacity ⟨⟨tableSlots capacity (rememberAll entries []), true, .healthy⟩, before⟩).2.registry =
      ⟨tableSlots capacity (rememberAll entries []), true, .healthy⟩ := by
  have hd := distinct_nil.notedAll hv
  have hfind := @findActive_slots extension (capacity - (rememberAll entries []).length) _ 0 none hd (fun h => (nomatch h))
  rw [Option.none_or, ← tableSlots] at hfind
  have hinspect : inspectHint extension ⟨⟨tableSlots capacity (rememberAll entries []), true, .healthy⟩, []⟩ =
      (.ok (some ((position extension 0 (rememberAll entries [])).map Prod.snd)),
        ⟨⟨tableSlots capacity (rememberAll entries []), true, .healthy⟩, []⟩) := by
    have hrun : findActiveRecord extension ⟨tableSlots capacity (rememberAll entries []), true, .healthy⟩ =
        ((position extension 0 (rememberAll entries [])).elim (.error .notFound) .ok,
          ⟨tableSlots capacity (rememberAll entries []), true, .healthy⟩) := by
      unfold findActiveRecord
      rw [bind_ok (show Program.get (⟨tableSlots capacity (rememberAll entries []), true, .healthy⟩ : Registry) = (.ok _, _) from rfl)]
      dsimp only
      rw [hfind]
      cases position extension 0 (rememberAll entries []) <;> rfl
    unfold inspectHint
    rw [bind_ok (show Program.get (⟨⟨tableSlots capacity (rememberAll entries []), true, .healthy⟩, []⟩ : Lookup) = (.ok _, _) from rfl),
      if_pos ⟨rfl, rfl⟩, bind_ok (attempt_eq (onRegistry_run hrun))]
    cases position extension 0 (rememberAll entries []) <;> rfl
  rcases @registryLookup_registry ⟨tableSlots capacity (rememberAll entries []), true, .healthy⟩ entries extension matchCapacity before with hrun | ⟨inspected, other, hother, hrun⟩
  · exact hrun
  rw [hinspect] at hother
  obtain ⟨hinspected, hregistry⟩ := Prod.mk.inj hother
  obtain rfl := Except.ok.inj hinspected
  obtain rfl := (Lookup.mk.inj hregistry).1
  rcases hrun with hrun | ⟨-, hintValid, after, hscan, hint, hmem, hstale⟩
  · exact hrun
  exfalso
  obtain rfl := Option.some.inj hmem
  cases hpos : position extension 0 (rememberAll entries []) with
  | some found =>
    obtain ⟨target, record⟩ := found
    rw [hpos] at hscan hstale
    obtain ⟨hrecord, hx, -⟩ := position_some hpos
    rcases rememberAll_located entries [] hrecord with h | ⟨entry, hentry, hextension, hcluster, hslot⟩
    · exact List.not_mem_nil h
    have hfound := lookupFrom_hint hscan (Or.inl ⟨entry, hentry, by rw [entryExtension_eq (hv entry hentry), hextension, hx],
      hcluster, hslot⟩)
    rw [hfound] at hstale
    rcases hstale with ⟨-, h⟩ | ⟨h, -⟩
    · cases h
    · cases h
  | none =>
    rw [hpos] at hscan hstale
    have hnew := position_none hpos
    rw [mem_rememberAll_extensions] at hnew
    have hstate := (@lookupFrom_run extension matchCapacity none entries 0 false
      ⟨⟨tableSlots capacity (rememberAll entries []), true, .healthy⟩, []⟩ (Nat.zero_le _)).2
    have hindices := @scanFrom_indices extension entries 0 matchCapacity
    have hempty : (entries.takeWhile valid).findIdxs (has extension) 0 = [] := by
      refine List.eq_nil_iff_forall_not_mem.mpr fun i hi => ?_
      obtain ⟨hlt, hhas⟩ := List.mem_findIdxs_iff_exists_getElem_pos.mp hi
      have hmem := (List.takeWhile_prefix _).subset (List.getElem_mem hlt)
      have hx := has_iff.mp hhas
      rw [entryExtension_eq (hv _ hmem)] at hx
      exact hnew (Or.inr (List.mem_map.mpr ⟨_, hmem, Except.ok.inj hx⟩))
    rw [hempty, List.take_nil] at hindices
    rw [Option.map_none, Option.getD_some] at hscan
    rw [hscan] at hstate
    dsimp only [List.length_nil, Nat.sub_zero] at hstate
    rw [hindices, List.append_nil] at hstate
    rcases hstale with ⟨h, -⟩ | ⟨-, h⟩
    · cases h
    · exact h (by rw [hstate])

end Fresh

/-- A rebuild gives the records that refreshes for its entries give, every registry reached has at most one active record
    for each extension, a rebuild that fails leaves the records, and after one that succeeds lookups over its entries leave
    the registry. -/
theorem registryRebuild_refreshes :
    (∀ (entries : List RegistrySourceEntry) (registry : Registry), registry.enabled = true →
      (∀ entry ∈ entries, entry.valid = true) → (entries.map entryExtension).dedup.length ≤ registry.records.length →
      ∃ records, registryRebuild entries registry = (.ok (), ⟨records, true, .healthy⟩) ∧
        refreshAll entries ⟨List.replicate registry.records.length Bytes.zero, true, .healthy⟩ =
          (.ok (), ⟨records, true, .healthy⟩)) ∧
    (∀ registry, Reached registry → Single registry) ∧
    (∀ (entries : List RegistrySourceEntry) (registry : Registry) (status : IosError),
      (registryRebuild entries registry).1 = .error status →
      (registryRebuild entries registry).2.records = registry.records) ∧
    (∀ (entries : List RegistrySourceEntry) (registry : Registry) (extension : Text) (matchCapacity : Nat) (before : List Nat),
      registry.enabled = true → (registryRebuild entries registry).1 = .ok () →
      (registryRebuild entries registry).2.health = .healthy ∧
      (registryLookup entries extension matchCapacity ⟨(registryRebuild entries registry).2, before⟩).2.registry =
        (registryRebuild entries registry).2) := by
  refine ⟨fun entries registry henabled hv hroom => ?_, fun registry h => h.maintained.single, fun entries registry status h => ?_,
    fun entries registry extension matchCapacity before henabled h => ?_⟩
  · rw [← length_rememberAll hv] at hroom
    exact ⟨tableSlots registry.records.length (rememberAll entries []), registryRebuild_notes henabled hv hroom,
      refreshAll_notes distinct_nil hv hroom⟩
  · rcases registryRebuild_cases entries registry with ⟨status, health, hrun⟩ | ⟨-, hrun⟩ | ⟨-, -, -, hrun⟩
    · rw [hrun]
    · rw [hrun] at h
      cases h
    · rw [hrun] at h
      cases h
  · rcases registryRebuild_cases entries registry with ⟨status, health, hrun⟩ | ⟨hdisabled, -⟩ | ⟨-, hv, -, hrun⟩
    · rw [hrun] at h
      cases h
    · rw [henabled] at hdisabled
      cases hdisabled
    · rw [hrun]
      exact ⟨rfl, registryLookup_fresh hv matchCapacity before⟩

end Registry
end InferenceOS
