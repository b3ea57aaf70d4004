import InferenceOS.Fs.Registry
import InferenceOS.Theorems.NameTexts

/-! The registry next to the directory entries: its records decode to what was encoded, and a lookup answers with the
    entries of the extension whatever the registry holds. -/

namespace InferenceOS
open Program RegistrySourceEntry

def registryRecord (value : RegistryRecord) : Slot :=
  (registryRecordBody value).put 28 (Bytes.ofNat 4 (registryRecordCrc (registryRecordBody value)).toNat)

theorem registryRecordEncode_eq {value : RegistryRecord} (h : validExtension value.canonicalExtension = true) :
    registryRecordEncode value = .ok (registryRecord value) := if_pos h

section Record
variable {value : RegistryRecord}

open Bytes

theorem validExtension_iff {extension : Text} : validExtension extension = true ↔
    extension.length ≤ 3 ∧ ∀ b ∈ extension, supportedNameByte b = true := by simp [validExtension]

theorem registryRecord_field {i : Nat} (h : i < 5) : (registryRecord value).byte i =
    (Bytes.ofList 5 [registryRecordType, 1, if value.active then 1 else 0, .ofNat value.canonicalExtension.length, 1]).byte i := by
  simp (disch := omega) only [registryRecord, registryRecordBody, byte_put_of_not_mem, byte_put, if_pos, Nat.sub_zero]

theorem registryRecord_head : (registryRecord value).byte 0 = registryRecordType := registryRecord_field (by omega)

theorem registryRecord_ne_zero : emptySlot (registryRecord value) = false := by
  refine decide_eq_false fun h => ?_
  have hb := @registryRecord_head value
  rw [h, byte_zero] at hb
  revert hb
  decide

theorem registryRecord_reserved : (registryRecord value).slice 5 3 = Bytes.zero ∧ (registryRecord value).byte 11 = 0 := by
  constructor
  · simp (disch := omega) only [registryRecord, registryRecordBody, slice_put_of_disjoint, slice_zero]
  · simp (disch := omega) only [registryRecord, registryRecordBody, byte_put_of_not_mem, byte_zero]

theorem registryRecord_extension (h : value.canonicalExtension.length ≤ 3) :
    ((registryRecord value).slice 8 3).toList =
      value.canonicalExtension ++ List.replicate (3 - value.canonicalExtension.length) (ascii ' ') := by
  simp (disch := omega) only [registryRecord, registryRecordBody, slice_put_of_disjoint, slice_put]
  exact toList_padded h

theorem registryRecord_hash : (registryRecord value).slice 12 8 = hashText (fnv1a32 value.canonicalExtension) := by
  simp (disch := omega) only [registryRecord, registryRecordBody, slice_put_of_disjoint, slice_put]

theorem registryRecord_cluster : (registryRecord value).toNat 20 4 = value.lastDirectoryCluster.toNat := by
  simp (disch := omega) only [registryRecord, registryRecordBody, toNat_put_of_disjoint, toNat_put]
  exact Nat.mod_eq_of_lt value.lastDirectoryCluster.toNat_lt

theorem registryRecord_slot : (registryRecord value).toNat 24 2 = value.lastDirectorySlot.toNat := by
  simp (disch := omega) only [registryRecord, registryRecordBody, toNat_put_of_disjoint, toNat_put]
  exact Nat.mod_eq_of_lt value.lastDirectorySlot.toNat_lt

theorem registryRecord_generation : (registryRecord value).toNat 26 2 = value.updateGeneration.toNat := by
  rw [registryRecord, registryRecordBody, toNat_put_of_disjoint (by omega), toNat_put (by omega)]
  exact Nat.mod_eq_of_lt value.updateGeneration.toNat_lt

theorem registryRecord_crc : (registryRecordCrc (registryRecord value)).toNat = (registryRecord value).toNat 28 4 := by
  have hcrc : registryRecordCrc (registryRecord value) = registryRecordCrc (registryRecordBody value) := by
    rw [registryRecordCrc, registryRecord, put_put]
    rfl
  rw [hcrc, registryRecord, toNat_put (by omega)]
  exact (Nat.mod_eq_of_lt (registryRecordCrc (registryRecordBody value)).toNat_lt).symm

theorem registryRecordDecode_record (h : validExtension value.canonicalExtension = true) :
    registryRecordDecode (registryRecord value) =
      .ok { value with extensionHashText := hashText (fnv1a32 value.canonicalExtension) } := by
  obtain ⟨hl, hx⟩ := validExtension_iff.mp h
  have h1 : (registryRecord value).byte 1 = 1 := registryRecord_field (by omega)
  have h2 : (registryRecord value).byte 2 = if value.active then 1 else 0 := registryRecord_field (by omega)
  have h3 : (registryRecord value).byte 3 = .ofNat value.canonicalExtension.length := registryRecord_field (by omega)
  have h4 : (registryRecord value).byte 4 = 1 := registryRecord_field (by omega)
  have hlen : ((registryRecord value).byte 3).toNat = value.canonicalExtension.length := by
    rw [h3, UInt8.toNat_ofNat']
    omega
  have hflags : (registryRecord value).byte 2 &&& 0xfe = 0 := by
    rw [h2]
    cases value.active <;> decide
  have hactive : ((registryRecord value).byte 2 &&& 1 != 0) = value.active := by
    rw [h2]
    cases value.active <;> decide
  have htake : ((registryRecord value).slice 8 3).toList.take ((registryRecord value).byte 3).toNat = value.canonicalExtension := by
    rw [registryRecord_extension hl, hlen, List.take_left]
  have hdisk : validDiskExtension (registryRecord value) = true := by
    rw [validDiskExtension, hlen, registryRecord_extension hl, List.take_left, List.drop_left]
    simp only [hl, true_and, decide_eq_true_eq]
    exact ⟨List.all_eq_true.mpr hx, by simp⟩
  rw [registryRecordDecode, if_neg (not_not.mpr registryRecord_head), if_neg (not_not.mpr h1), registryRecord_crc,
    if_neg (by simp [hflags, h4, registryRecord_reserved.1, registryRecord_reserved.2, hdisk]), htake, registryRecord_hash,
    registryRecord_cluster, registryRecord_slot, registryRecord_generation, hactive]
  simp only [ne_eq, not_true_eq_false, if_false, UInt32.ofNat_toNat, UInt16.ofNat_toNat]

end Record

theorem validExtension_extensionOf {name : Name} (h : validStoredName name = true) : validExtension (extensionOf name) = true := by
  simp only [validStoredName, Bool.and_eq_true] at h
  exact validExtension_iff.mpr ⟨extensionOf_length name, (validField_trimmed h.2).1⟩

theorem sourceExtension_valid {entry : RegistrySourceEntry} {extension : Text} (h : sourceExtension entry = .ok extension) :
    validExtension extension = true := by
  obtain ⟨_, -, h⟩ := of_bind_ok h
  obtain ⟨primary, -, h⟩ := of_bind_ok h
  unfold nameExtension at h
  split at h
  · rename_i hv
    obtain rfl := Except.ok.inj h
    exact validExtension_extensionOf hv
  · cases h

def RegistrySourceEntry.valid (entry : RegistrySourceEntry) : Bool := (sourceExtension entry).toOption.isSome

def RegistrySourceEntry.has (extension : Text) (entry : RegistrySourceEntry) : Bool :=
  (sourceExtension entry).toOption = some extension

namespace RegistrySourceEntry
variable {entry : RegistrySourceEntry} {extension : Text}

theorem valid_iff : entry.valid = true ↔ ∃ extension, sourceExtension entry = .ok extension := by
  unfold valid
  cases sourceExtension entry <;> simp [Except.toOption]

theorem has_iff : entry.has extension = true ↔ sourceExtension entry = .ok extension := by
  unfold has
  cases sourceExtension entry <;> simp [Except.toOption]

theorem valid_eq {x : Text} (h : sourceExtension entry = .ok x) : entry.valid = true := valid_iff.mpr ⟨x, h⟩

theorem has_eq {x : Text} (h : sourceExtension entry = .ok x) : entry.has extension = decide (x = extension) := by
  rw [has, h]
  simp [Except.toOption]

end RegistrySourceEntry

namespace Registry

/-- The files of an extension. -/
def matching (extension : Text) (entries : List RegistrySourceEntry) : List Nat :=
  entries.findIdxs (has extension)

/-- The outcome of a lookup over the entries from `index` on, with the indices that it appends. -/
def scanFrom (extension : Text) (index room : Nat) : List RegistrySourceEntry → Except IosError Unit × List Nat
  | [] => (.ok (), [])
  | entry :: rest =>
    match sourceExtension entry with
    | .error status => (.error status, [])
    | .ok found =>
      if found ≠ extension then scanFrom extension (index + 1) room rest
      else if room = 0 then (.error .noSpace, [])
      else ((scanFrom extension (index + 1) (room - 1) rest).1, index :: (scanFrom extension (index + 1) (room - 1) rest).2)

section Lookup
variable {extension : Text} {matchCapacity : Nat} {entries : List RegistrySourceEntry}

theorem lookupFrom_run (hint : Option RegistryRecord) : ∀ (entries : List RegistrySourceEntry) (index : Nat) (hintValid : Bool)
    (lookup : Lookup), lookup.matched.length ≤ matchCapacity →
    ((lookupFrom extension matchCapacity hint index hintValid entries lookup).1.map fun _ => ()) =
        (scanFrom extension index (matchCapacity - lookup.matched.length) entries).1 ∧
      (lookupFrom extension matchCapacity hint index hintValid entries lookup).2 = { lookup with
        matched := lookup.matched ++ (scanFrom extension index (matchCapacity - lookup.matched.length) entries).2 }
  | [], index, hintValid, lookup, _ => by
    rw [lookupFrom, scanFrom, List.append_nil]
    exact ⟨rfl, rfl⟩
  | entry :: rest, index, hintValid, lookup, hroom => by
    rw [lookupFrom, scanFrom]
    cases hfound : sourceExtension entry with
    | error status => exact ⟨rfl, by rw [List.append_nil]; rfl⟩
    | ok found =>
      rw [ofExcept_ok_bind]
      dsimp only
      by_cases hx : found = extension
      · rw [if_neg (not_not.mpr hx), if_neg (not_not.mpr hx), bind_ok (show get lookup = (.ok lookup, lookup) from rfl)]
        by_cases hfull : lookup.matched.length = matchCapacity
        · rw [failIf_bind hfull, if_pos (by omega)]
          exact ⟨rfl, by rw [List.append_nil]; rfl⟩
        · have hless : matchCapacity - (lookup.matched ++ [index]).length = matchCapacity - lookup.matched.length - 1 := by
            rw [List.length_append, List.length_singleton]
            omega
          rw [failIf_pass hfull, if_neg (by omega)]
          obtain ⟨hout, hstate⟩ := lookupFrom_run hint rest (index + 1) (hintValid || hint.any fun hint =>
            entry.directoryCluster = hint.lastDirectoryCluster ∧ entry.primarySlot = hint.lastDirectorySlot ∧ found = extension)
            { lookup with matched := lookup.matched ++ [index] } (by dsimp only; rw [List.length_append]; simp; omega)
          dsimp only at hout hstate
          rw [hless] at hout hstate
          rw [List.append_assoc] at hstate
          exact ⟨hout, hstate⟩
      · rw [if_pos hx, if_pos hx]
        exact lookupFrom_run hint rest (index + 1) _ lookup hroom

theorem scanFrom_indices : ∀ (entries : List RegistrySourceEntry) (index room : Nat), (scanFrom extension index room entries).2 =
    ((entries.takeWhile valid).findIdxs (has extension) index).take room
  | [], index, room => by rw [scanFrom, List.takeWhile_nil, List.findIdxs_nil, List.take_nil]
  | entry :: rest, index, room => by
    rw [scanFrom]
    cases hfound : sourceExtension entry with
    | error status =>
      have hinvalid : entry.valid = false := by
        rw [valid, hfound]
        rfl
      rw [List.takeWhile_cons_of_neg (by simp [hinvalid]), List.findIdxs_nil, List.take_nil]
    | ok found =>
      have ih := scanFrom_indices rest (index + 1)
      rw [List.takeWhile_cons_of_pos (valid_eq hfound), List.findIdxs_cons, has_eq hfound]
      dsimp only
      by_cases hx : found = extension
      · rw [if_neg (not_not.mpr hx), if_pos (decide_eq_true hx)]
        cases room with
        | zero => rfl
        | succ room =>
          rw [if_neg (by omega), List.take_succ_cons]
          exact congrArg (index :: ·) (ih room)
      · rw [if_pos hx, if_neg (mt of_decide_eq_true hx)]
        exact ih room

theorem scanFrom_ok : ∀ (entries : List RegistrySourceEntry) (index room : Nat), (scanFrom extension index room entries).1 = .ok () ↔
    (∀ entry ∈ entries, entry.valid = true) ∧ (entries.findIdxs (has extension) index).length ≤ room
  | [], index, room => by simp [scanFrom]
  | entry :: rest, index, room => by
    rw [scanFrom, List.forall_mem_cons]
    cases hfound : sourceExtension entry with
    | error status =>
      have hinvalid : ¬entry.valid = true := by
        rw [valid, hfound]
        exact Bool.false_ne_true
      exact ⟨fun h => (nomatch h), fun h => absurd h.1.1 hinvalid⟩
    | ok found =>
      have ih := scanFrom_ok rest (index + 1)
      rw [List.findIdxs_cons, has_eq hfound, and_iff_right (valid_eq hfound)]
      dsimp only
      by_cases hx : found = extension
      · rw [if_neg (not_not.mpr hx), if_pos (decide_eq_true hx), List.length_cons]
        by_cases hroom : room = 0
        · rw [if_pos hroom]
          exact ⟨fun h => (nomatch h), fun h => absurd h.2 (by omega)⟩
        · rw [if_neg hroom]
          refine (ih (room - 1)).trans (and_congr_right fun _ => ?_)
          omega
      · rw [if_pos hx, if_neg (mt of_decide_eq_true hx)]
        exact ih room

theorem onRegistry_run {α : Type} {call : Registering α} {lookup : Lookup} {result : Except IosError α} {registry : Registry}
    (h : call lookup.registry = (result, registry)) : onRegistry call lookup = (result, { lookup with registry }) := by
  unfold onRegistry zoom
  rw [h]

theorem inspectHint_run (lookup : Lookup) :
    ∃ inspected registry, inspectHint extension lookup = (.ok inspected, { lookup with registry }) := by
  unfold inspectHint
  rw [bind_ok (show get lookup = (.ok lookup, lookup) from rfl)]
  split
  · rw [bind_ok (attempt_eq (onRegistry_run (Prod.mk.eta (p := findActiveRecord extension lookup.registry)).symm))]
    cases (findActiveRecord extension lookup.registry).1 with
    | error status => exact ⟨_, _, rfl⟩
    | ok found => exact ⟨_, _, rfl⟩
  · exact ⟨none, lookup.registry, rfl⟩

theorem registryLookup_run (hx : validExtension extension = true) (lookup : Lookup) :
    (registryLookup entries extension matchCapacity lookup).1 = (scanFrom extension 0 matchCapacity entries).1 ∧
      (registryLookup entries extension matchCapacity lookup).2.matched = (scanFrom extension 0 matchCapacity entries).2 := by
  unfold registryLookup
  rw [failIf_pass (by simp [hx]), bind_ok (show modify (fun lookup : Lookup => { lookup with matched := [] }) lookup =
    (Except.ok (), { lookup with matched := [] }) from rfl)]
  obtain ⟨inspected, registry, hinspect⟩ := @inspectHint_run extension { lookup with matched := [] }
  obtain ⟨hout, hstate⟩ := @lookupFrom_run extension matchCapacity (inspected.getD none) entries 0
    false ⟨registry, []⟩ (Nat.zero_le _)
  rw [bind_ok hinspect]
  dsimp only at hout hstate ⊢
  rw [List.length_nil, Nat.sub_zero] at hout hstate
  rw [List.nil_append] at hstate
  rcases hrun : lookupFrom extension matchCapacity (inspected.getD none) 0 false entries ⟨registry, []⟩ with ⟨status | hintValid, after⟩
  · rw [hrun] at hout hstate
    rw [bind_error hrun]
    exact ⟨hout, congrArg Lookup.matched hstate⟩
  · rw [hrun] at hout hstate
    rw [bind_ok hrun, bind_ok (show get after = (.ok after, after) from rfl)]
    split
    · exact ⟨hout, congrArg Lookup.matched hstate⟩
    · exact ⟨hout, congrArg Lookup.matched hstate⟩

/-- The answer of a lookup is the same with any two registries: the entries of the extension, in order. It fails for an
    entry without an extension, or for more matches than there is room for. -/
theorem registryLookup_authoritative (registry other : Registry) (before : List Nat) (entries : List RegistrySourceEntry)
    (extension : Text) (matchCapacity : Nat) :
    let run := registryLookup entries extension matchCapacity ⟨registry, before⟩
    let twin := registryLookup entries extension matchCapacity ⟨other, before⟩
    run.1 = twin.1 ∧ run.2.matched = twin.2.matched ∧ (run.1 = .ok () → run.2.matched = matching extension entries) ∧
      (validExtension extension = true →
        run.2.matched = (matching extension (entries.takeWhile valid)).take matchCapacity ∧
        (run.1 = .ok () ↔
          (∀ entry ∈ entries, entry.valid = true) ∧ (matching extension entries).length ≤ matchCapacity)) := by
  intro run twin
  by_cases hx : validExtension extension = true
  · obtain ⟨hrun, hmatched⟩ := @registryLookup_run extension matchCapacity entries hx ⟨registry, before⟩
    obtain ⟨htwin, hsame⟩ := @registryLookup_run extension matchCapacity entries hx ⟨other, before⟩
    have hindices := hmatched.trans (scanFrom_indices entries 0 matchCapacity)
    have hok := (hrun ▸ scanFrom_ok entries 0 matchCapacity : run.1 = .ok () ↔ _)
    refine ⟨hrun.trans htwin.symm, hmatched.trans hsame.symm, fun h => ?_, fun _ => ⟨hindices, hok⟩⟩
    obtain ⟨hvalid, hroom⟩ := hok.mp h
    rw [List.takeWhile_eq_self_iff.mpr hvalid, List.take_of_length_le hroom] at hindices
    exact hindices
  · have hrefused (registry : Registry) : registryLookup entries extension matchCapacity ⟨registry, before⟩ =
        (.error .invalidArgument, ⟨registry, before⟩) := by
      unfold registryLookup
      rw [failIf_bind (by simpa using hx)]
      rfl
    have hr : run = _ := hrefused registry
    have ht : twin = _ := hrefused other
    rw [hr, ht]
    exact ⟨rfl, rfl, fun h => (nomatch h), fun h => absurd h hx⟩

end Lookup
end Registry
end InferenceOS
