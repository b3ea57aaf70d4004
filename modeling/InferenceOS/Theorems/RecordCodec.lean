import InferenceOS.Fs.FileService
import Mathlib.Data.List.GetD

/-! Round trips of the directory records: what is encoded decodes to the same values, and a pair
    validates exactly when its companion is committed and belongs to its primary. -/

namespace InferenceOS
variable {name : Name} {d : Slot}

theorem supportedNameByte_ne {value : UInt8} (h : supportedNameByte value = true) :
    value ≠ 0 ∧ value ≠ deletedMark ∧ value ≠ companionRecordType ∧ value ≠ ascii '.' ∧ value ≠ ascii ' ' := by
  refine ⟨?_, ?_, ?_, ?_, ?_⟩ <;> rintro rfl <;> revert h <;> decide

theorem validStoredName_head (h : validStoredName name = true) : supportedNameByte (name.byte 0) = true := by
  simp only [validStoredName, Bool.and_eq_true, bne_iff_ne, ne_eq] at h
  obtain ⟨⟨hne, hbase⟩, -⟩ := h
  have hl : (name.slice 0 8).toList = name.byte 0 :: List.ofFn fun i : Fin 7 => name.byte (0 + (i.1 + 1)) := by
    simp [Bytes.toList, List.ofFn_succ, Bytes.slice]
  rw [hl, validField] at hbase
  simp only [hne, ↓reduceIte, Bool.false_or] at hbase
  by_contra hs
  simp [hs] at hbase

theorem isInternalName_of_valid (h : validStoredName name = true) : isInternalName name = false := by
  have hd := (supportedNameByte_ne (validStoredName_head h)).2.2.2.1
  by_contra hi
  simp only [isInternalName, Bool.not_eq_false, Bool.or_eq_true, beq_iff_eq] at hi
  rcases hi with hi | hi
  · exact hd (by rw [hi]; decide)
  · exact hd (by rw [hi]; decide)

theorem isInternalName_internalName (parent : Bool) : isInternalName (internalName parent) = true := by
  cases parent <;> simp [isInternalName]

theorem internalName_head (parent : Bool) : (internalName parent).byte 0 ≠ 0 ∧ (internalName parent).byte 0 ≠ deletedMark ∧
    (internalName parent).byte 0 ≠ companionRecordType := by
  cases parent <;> decide

theorem Primary.admissible_iff {p : Primary} : p.admissible = true ↔ validStoredName p.name = true ∧
    p.firstCluster ≤ maxDataCluster ∧
    ((p.attributes = attributeRegular ∧ (p.fileSize = 0 → p.firstCluster = 0) ∧ (p.fileSize ≠ 0 → 2 ≤ p.firstCluster)) ∨
      (p.attributes = attributeDirectory ∧ p.fileSize = 0 ∧ 2 ≤ p.firstCluster)) := by
  have hne : attributeRegular ≠ attributeDirectory := by decide
  simp only [admissible, Bool.not_eq_eq_eq_not, Bool.not_true, Bool.or_eq_false_iff,
    Bool.and_eq_false_iff, bne_eq_false_iff_eq, beq_eq_false_iff_ne, ne_eq, decide_eq_false_iff_not, not_lt]
  constructor
  · rintro ⟨⟨⟨⟨⟨hn, ha⟩, hd⟩, hr⟩, hf⟩, hm⟩
    refine ⟨hn, hm, ?_⟩
    rcases ha with ha | ha
    · refine Or.inl ⟨ha, fun hz => ?_, fun hz => ?_⟩
      · simp_all
      · simp_all
    · refine Or.inr ⟨ha, ?_, ?_⟩
      · simp_all
      · simp_all
  · rintro ⟨hn, hm, ⟨ha, hz, hf⟩ | ⟨ha, hz, hf⟩⟩
    · refine ⟨⟨⟨⟨⟨hn, Or.inl ha⟩, Or.inl (by rw [ha]; exact hne)⟩, ?_⟩, ?_⟩, hm⟩
      · by_cases h0 : p.fileSize = 0
        · exact Or.inr (hz h0)
        · exact Or.inl (Or.inr h0)
      · by_cases h0 : p.fileSize = 0
        · exact Or.inl ⟨h0, by rw [ha]; exact hne⟩
        · exact Or.inr (hf h0)
    · refine ⟨⟨⟨⟨⟨hn, Or.inr ha⟩, Or.inr hz⟩, Or.inl (Or.inl (by rw [ha]; exact hne.symm))⟩, Or.inr hf⟩, hm⟩

section Primary
variable {p : Primary}

open Bytes in
@[simp] theorem primaryBytes_name : (primaryBytes p).slice 0 11 = p.name := by
  simp (disch := omega) only [primaryBytes, slice_put_of_disjoint, slice_put]

theorem primaryBytes_head : (primaryBytes p).byte 0 = p.name.byte 0 := by
  have := congrArg (Bytes.byte · 0) (primaryBytes_name (p := p))
  rwa [Bytes.byte_slice (by omega)] at this

open Bytes in
theorem primaryBytes_attributes : (primaryBytes p).byte 11 = p.attributes := by
  simp (disch := omega) only [primaryBytes, byte_put_of_not_mem, byte_put, if_pos]
  rfl

open Bytes in
theorem primaryBytes_reserved : (primaryBytes p).slice 12 8 = Bytes.zero ∧ (primaryBytes p).slice 22 4 = Bytes.zero := by
  constructor
  · simp (disch := omega) only [primaryBytes, slice_put_of_disjoint, slice_zero]
  · simp (disch := omega) only [primaryBytes, slice_put_of_disjoint, slice_zero]

open Bytes in
theorem primaryBytes_cluster (h : p.firstCluster < 2 ^ 32) :
    (primaryBytes p).toNat 20 2 * 2 ^ 16 + (primaryBytes p).toNat 26 2 = p.firstCluster := by
  have hhigh : (primaryBytes p).toNat 20 2 = p.firstCluster / 2 ^ 16 % 256 ^ 2 := by
    simp (disch := omega) only [primaryBytes, toNat_put_of_disjoint, toNat_put]
  have hlow : (primaryBytes p).toNat 26 2 = p.firstCluster % 256 ^ 2 := by
    rw [primaryBytes, toNat_put_of_disjoint (by omega), toNat_put (by omega)]
  rw [hhigh, hlow]
  omega

open Bytes in
theorem primaryBytes_size (h : p.fileSize < 2 ^ 32) : (primaryBytes p).toNat 28 4 = p.fileSize := by
  rw [primaryBytes, toNat_put (by omega)]
  omega

theorem primaryFields_bytes (hc : p.firstCluster < 2 ^ 32) (hs : p.fileSize < 2 ^ 32) :
    primaryFields (primaryBytes p) = p := by
  simp only [primaryFields, primaryBytes_name, primaryBytes_attributes, primaryBytes_cluster hc, primaryBytes_size hs]

theorem primaryEncode_eq (h : p.admissible = true) : primaryEncode p = .ok (primaryBytes p) := if_pos h

theorem primaryDecode_bytes (h : p.admissible = true) (hs : p.fileSize < 2 ^ 32) :
    primaryDecode (primaryBytes p) = .ok p := by
  obtain ⟨hn, hm, -⟩ := Primary.admissible_iff.mp h
  have hc : p.firstCluster < 2 ^ 32 := by
    unfold maxDataCluster at hm
    omega
  have hb := supportedNameByte_ne (validStoredName_head hn)
  rw [primaryDecode, if_neg, if_neg, primaryFields_bytes hc hs]
  · rw [primaryFields_bytes hc hs, primaryBytes_reserved.1, primaryBytes_reserved.2, h]
    simp
  · rw [primaryBytes_head]
    exact not_or.mpr ⟨hb.1, hb.2.1⟩

end Primary

theorem primaryDecode_free (h : d.byte 0 = 0 ∨ d.byte 0 = deletedMark) : primaryDecode d = .error .notFound :=
  if_pos h

theorem primaryDecode_eq_ok {p : Primary} (h : primaryDecode d = .ok p) :
    p = primaryFields d ∧ p.admissible = true ∧ p.fileSize < 2 ^ 32 := by
  unfold primaryDecode at h
  split at h
  · cases h
  · split at h
    · cases h
    · rename_i hr
      cases h
      simp only [Bool.not_eq_true', not_or, Bool.not_eq_false] at hr
      refine ⟨rfl, hr.2.2, ?_⟩
      have : d.toNat 28 4 < 256 ^ 4 := Bytes.toNat_lt
      simpa [primaryFields] using this

theorem decodeInternal_makeInternalRecord {parent : Bool} {cluster : Nat} (h2 : 2 ≤ cluster)
    (hm : cluster ≤ maxDataCluster) : decodeInternal (FileService.makeInternalRecord parent cluster) =
      .ok { name := internalName parent, attributes := attributeDirectory, firstCluster := cluster, fileSize := 0 } := by
  have hc : cluster < 2 ^ 32 := by
    unfold maxDataCluster at hm
    omega
  unfold FileService.makeInternalRecord decodeInternal
  set p : Primary := { name := internalName parent, attributes := attributeDirectory, firstCluster := cluster, fileSize := 0 }
  have hcl := primaryBytes_cluster (p := p) hc
  have hz : (primaryBytes p).slice 28 4 = Bytes.zero := by
    rw [primaryBytes, Bytes.slice_put (by omega)]
    show Bytes.ofNat 4 0 = Bytes.zero
    decide
  rw [primaryBytes_name, primaryBytes_attributes, primaryBytes_reserved.1, primaryBytes_reserved.2, hz, hcl]
  have hni : ¬(cluster < 2 ∨ maxDataCluster < cluster) := by omega
  rw [if_neg, if_neg]
  · exact if_neg hni
  · simp
  · simp [p, isInternalName_internalName]

def extensionOf (name : Name) : Text := (name.slice 8 3).toList.rdropWhile (· == ascii ' ')

def companionRecord (committed : Bool) (name : Name) : Slot :=
  (companionBody committed name (extensionOf name)).put 16
    (Bytes.ofNat 4 (companionCrc (companionBody committed name (extensionOf name))).toNat)

def companionOf (committed : Bool) (name : Name) : Companion :=
  { committed
    extensionLength := .ofNat (extensionOf name).length
    primaryNameChecksum := primaryNameChecksum name
    extensionHashText := hashText (fnv1a32 (extensionOf name)) }

theorem nameExtension_eq (h : validStoredName name = true) : nameExtension name = .ok (extensionOf name) :=
  if_pos h

theorem companionEncode_eq (h : validStoredName name = true) (committed : Bool) :
    companionEncode name committed = .ok (companionRecord committed name) := by
  simp only [companionEncode, nameExtension_eq h]
  rfl

theorem extensionOf_length (name : Name) : (extensionOf name).length ≤ 3 := by
  have h : (extensionOf name).length ≤ (name.slice 8 3).toList.length :=
    (List.rdropWhile_prefix _ _).length_le
  simpa [Bytes.toList] using h

section Companion
variable {committed : Bool} {name : Name}

open Bytes

theorem companionRecord_byte {i : Nat} (h : i < 16) :
    (companionRecord committed name).byte i = (companionBody committed name (extensionOf name)).byte i := by
  rw [companionRecord, byte_put_of_not_mem (Or.inl h)]

theorem companionBody_fields {extension : Text} : (companionBody committed name extension).slice 0 6 =
    Bytes.ofList 6 [companionRecordType, 1, 1, if committed then 1 else 0, .ofNat extension.length,
      primaryNameChecksum name] := by
  rw [companionBody, slice_put_of_disjoint (by omega), slice_put (by omega)]

theorem companionRecord_field {i : Nat} (h : i < 6) : (companionRecord committed name).byte i =
    (Bytes.ofList 6 [companionRecordType, 1, 1, if committed then 1 else 0, .ofNat (extensionOf name).length,
      primaryNameChecksum name]).byte i := by
  rw [companionRecord_byte (by omega), ← companionBody_fields, byte_slice h, Nat.zero_add]

theorem companionRecord_head : (companionRecord committed name).byte 0 = companionRecordType :=
  companionRecord_field (by omega)

theorem companionRecord_flags : (companionRecord committed name).byte 3 = if committed then 1 else 0 :=
  companionRecord_field (by omega)

theorem companionRecord_length : (companionRecord committed name).byte 4 = .ofNat (extensionOf name).length :=
  companionRecord_field (by omega)

theorem companionRecord_checksum : (companionRecord committed name).byte 5 = primaryNameChecksum name := by
  rw [companionRecord_field (by omega)]
  simp [Bytes.byte, Bytes.ofList]

theorem companionRecord_hash : (companionRecord committed name).slice 8 8 = hashText (fnv1a32 (extensionOf name)) := by
  rw [companionRecord, slice_put_of_disjoint (by omega), companionBody, slice_put (by omega)]

theorem companionRecord_reserved : (companionRecord committed name).slice 6 2 = Bytes.zero ∧
    (companionRecord committed name).slice 20 12 = Bytes.zero := by
  constructor
  · simp (disch := omega) only [companionRecord, slice_put_of_disjoint, companionBody, slice_zero]
  · simp (disch := omega) only [companionRecord, slice_put_of_disjoint, companionBody, slice_zero]

theorem companionRecord_crc :
    (companionCrc (companionRecord committed name)).toNat = (companionRecord committed name).toNat 16 4 := by
  have hcrc : companionCrc (companionRecord committed name) =
      companionCrc (companionBody committed name (extensionOf name)) := by
    rw [companionCrc, companionRecord, put_put]
    rfl
  rw [hcrc, companionRecord, toNat_put (by omega)]
  have := (companionCrc (companionBody committed name (extensionOf name))).toNat_lt
  omega

theorem validHashText_hashText (hash : UInt32) : validHashText (hashText hash) = true := by
  have digit : ∀ k, k < 16 → ((ascii '0' ≤ hexDigit k && hexDigit k ≤ ascii '9') ||
      (ascii 'A' ≤ hexDigit k && hexDigit k ≤ ascii 'F')) = true := by decide
  simp only [validHashText, Bytes.toList, List.all_eq_true, List.mem_ofFn]
  rintro _ ⟨i, rfl⟩
  exact digit _ (Nat.mod_lt _ (by omega))

theorem companionDecode_record : companionDecode (companionRecord committed name) = .ok (companionOf committed name) := by
  have h1 : (companionRecord committed name).byte 1 = 1 := companionRecord_field (by omega)
  have h2 : (companionRecord committed name).byte 2 = 1 := companionRecord_field (by omega)
  have hlen : ¬3 < UInt8.ofNat (extensionOf name).length := by
    have hl := extensionOf_length name
    rw [UInt8.lt_iff_toNat_lt, UInt8.toNat_ofNat']
    simp only [UInt8.reduceToNat]
    omega
  rw [companionDecode, companionRecord_crc, if_neg (by simp), companionRecord_head, h1, h2, companionRecord_flags,
    companionRecord_length, companionRecord_checksum, companionRecord_hash, companionRecord_reserved.1,
    companionRecord_reserved.2, validHashText_hashText]
  rw [if_neg]
  · cases committed <;> rfl
  · cases committed with
    | false => simp [hlen]
    | true =>
      have hflag : (1 : UInt8) &&& 254 = 0 := by decide
      simp [hlen, hflag]

end Companion

theorem recordPairValidate_eq_ok {c : Slot} (h : recordPairValidate c d = .ok ()) :
    ∃ p, companionDecode c = .ok (companionOf true p.name) ∧ primaryDecode d = .ok p ∧ p.attributes = attributeRegular := by
  unfold recordPairValidate at h
  cases hc : companionDecode c with
  | error e => simp [hc, bind, Except.bind] at h
  | ok companion =>
    cases hd : primaryDecode d with
    | error e => simp [hc, hd, bind, Except.bind] at h
    | ok p =>
      cases hn : nameExtension p.name with
      | error e => simp [hc, hd, hn, bind, Except.bind] at h
      | ok extension =>
        simp only [hc, hd, hn, bind, Except.bind] at h
        split at h
        · cases h
        · rename_i hx
          simp only [Bool.not_eq_true', not_or, Bool.not_eq_false, not_not] at hx
          have hext : extension = extensionOf p.name := by
            unfold nameExtension at hn
            split at hn
            · cases hn
              rfl
            · cases hn
          obtain ⟨hcommitted, hregular, hlength, hsum, htext⟩ := hx
          refine ⟨p, ?_, rfl, hregular⟩
          obtain ⟨committed, length, sum, text⟩ := companion
          subst hcommitted hext hlength hsum htext
          rfl

theorem recordPairValidate_committed {p : Primary} (h : p.admissible = true) (hs : p.fileSize < 2 ^ 32)
    (ha : p.attributes = attributeRegular) :
    recordPairValidate (companionRecord true p.name) (primaryBytes p) = .ok () := by
  have hn := (Primary.admissible_iff.mp h).1
  simp [recordPairValidate, companionDecode_record, companionOf, primaryDecode_bytes h hs, nameExtension_eq hn, ha, bind,
    Except.bind]

theorem recordPairValidate_uncommitted : recordPairValidate (companionRecord false name) d ≠ .ok () := by
  intro h
  obtain ⟨p, hc, -⟩ := recordPairValidate_eq_ok h
  rw [companionDecode_record] at hc
  cases (Companion.mk.inj (Except.ok.inj hc)).1

theorem recordPairValidate_head {c : Slot} (h : recordPairValidate c d = .ok ()) : c.byte 0 = companionRecordType := by
  obtain ⟨p, hc, -⟩ := recordPairValidate_eq_ok h
  unfold companionDecode at hc
  split at hc
  · cases hc
  · split at hc
    · cases hc
    · rename_i hx
      exact not_not.mp (not_or.mp hx).1

theorem deletedRecord_head : FileService.deletedRecord.byte 0 = deletedMark := by decide

theorem validField_padded {l : Text} (h : ∀ b ∈ l, supportedNameByte b = true) (k : Nat) :
    validField false (l ++ List.replicate k (ascii ' ')) = true := by
  have spaces : ∀ k padding, validField padding (List.replicate k (ascii ' ')) = true := by
    intro k
    induction k with
    | zero => exact fun _ => rfl
    | succ k ih =>
      intro padding
      rw [List.replicate_succ, validField, if_pos rfl]
      exact ih true
  induction l with
  | nil => exact spaces k false
  | cons b l ih =>
    have hb := h b List.mem_cons_self
    rw [List.cons_append, validField, if_neg (supportedNameByte_ne hb).2.2.2.2]
    simp only [hb, Bool.not_true, Bool.or_self, Bool.false_eq_true, ↓reduceIte]
    exact ih fun c hc => h c (List.mem_cons_of_mem _ hc)

theorem canonicalizeFrom_ok : ∀ {input base : Text} {extension : Option Text} {r : Text × Text},
    canonicalizeFrom input base extension = .ok r →
    (∀ b ∈ base, supportedNameByte b = true) → base.length ≤ 8 → (extension.isSome → base ≠ []) →
    (∀ ext, extension = some ext → (∀ b ∈ ext, supportedNameByte b = true) ∧ ext.length ≤ 3) →
    (input ≠ [] ∨ base ≠ []) →
    r.1 ≠ [] ∧ (∀ b ∈ r.1, supportedNameByte b = true) ∧ r.1.length ≤ 8 ∧ (∀ b ∈ r.2, supportedNameByte b = true) ∧
      r.2.length ≤ 3
  | [], base, extension, r, h, hb, hl, hne, hx, hin => by
    cases h
    refine ⟨hin.resolve_left (by simp), hb, hl, ?_, ?_⟩ <;> cases extension with
    | none => simp
    | some ext => simpa using (by first | exact (hx ext rfl).1 | exact (hx ext rfl).2)
  | value :: rest, base, extension, r, h, hb, hl, hne, hx, hin => by
    rw [canonicalizeFrom.eq_def] at h
    dsimp only at h
    split at h
    · split at h
      · cases h
      · rename_i hd
        rw [not_or] at hd
        exact canonicalizeFrom_ok h hb hl (fun _ => hd.2) (by simp) (Or.inr hd.2)
    · split at h
      · cases h
      · rename_i hs
        have hs : supportedNameByte (upperCase value) = true := by simpa using hs
        have more : ∀ {l : Text}, (∀ b ∈ l, supportedNameByte b = true) →
            ∀ b ∈ l ++ [upperCase value], supportedNameByte b = true := by
          intro l hl b hb
          rcases List.mem_append.mp hb with hb | hb
          · exact hl b hb
          · rw [List.mem_singleton.mp hb]
            exact hs
        cases extension with
        | none =>
          dsimp only at h
          split at h
          · cases h
          · exact canonicalizeFrom_ok h (more hb) (by simp; omega) (by simp) (by simp) (Or.inr (by simp))
        | some ext =>
          dsimp only at h
          split at h
          · cases h
          · obtain ⟨he, hel⟩ := hx ext rfl
            refine canonicalizeFrom_ok h hb hl (fun _ => hne rfl) (fun e he' => ?_) (Or.inr (hne rfl))
            cases he'
            exact ⟨more he, by simp; omega⟩

/-- A field of a record that holds a text padded with blanks. -/
theorem toList_padded {n : Nat} {text : Text} (h : text.length ≤ n) :
    Bytes.toList (fun i : Fin n => text.getD i.1 (ascii ' ')) = text ++ List.replicate (n - text.length) (ascii ' ') := by
  refine List.ext_getElem (by simp [Bytes.toList]; omega) fun i h₁ h₂ => ?_
  simp only [Bytes.toList, List.getElem_ofFn, List.getElem_append]
  split
  · rename_i hi
    exact List.getD_eq_getElem _ _ hi
  · rename_i hi
    rw [List.getD_eq_default _ _ (by omega), List.getElem_replicate]

theorem padName_base (base extension : Text) (h : base.length ≤ 8) :
    ((padName base extension).slice 0 8).toList = base ++ List.replicate (8 - base.length) (ascii ' ') := by
  rw [← toList_padded h]
  congr 1
  funext i
  rw [Bytes.slice, Bytes.byte_of_lt (by omega), padName, if_pos (show 0 + i.1 < 8 by omega)]
  simp only [Nat.zero_add]

theorem padName_extension (base extension : Text) (h : extension.length ≤ 3) :
    ((padName base extension).slice 8 3).toList = extension ++ List.replicate (3 - extension.length) (ascii ' ') := by
  rw [← toList_padded h]
  congr 1
  funext i
  rw [Bytes.slice, Bytes.byte_of_lt (by omega), padName, if_neg (show ¬8 + i.1 < 8 by omega)]
  simp only [Nat.add_sub_cancel_left]

theorem nameCanonicalize83_valid {input : Text} (h : nameCanonicalize83 input = .ok name) : validStoredName name = true := by
  unfold nameCanonicalize83 at h
  by_cases hin : input = []
  · simp [hin, bind, Except.bind] at h
  · cases hr : canonicalizeFrom input [] none with
    | error e => simp [hin, hr, bind, Except.bind] at h
    | ok r =>
      obtain ⟨base, extension⟩ := r
      simp only [hin, hr, bind, Except.bind, ↓reduceIte, Except.ok.injEq] at h
      subst h
      obtain ⟨hne, hb, hl, he, hel⟩ := canonicalizeFrom_ok hr (by simp) (by simp) (by simp) (by simp) (Or.inl hin)
      simp only [validStoredName, padName_base _ _ hl, padName_extension _ _ hel, validField_padded hb,
        validField_padded he, Bool.and_true, bne_iff_ne, ne_eq]
      obtain ⟨b, l, rfl⟩ := List.exists_cons_of_ne_nil hne
      exact (supportedNameByte_ne (hb b List.mem_cons_self)).2.2.2.2

theorem canonicalComponent_valid {component : Text}
    (h : FileService.canonicalComponent component = .ok name) : validStoredName name = true := by
  unfold FileService.canonicalComponent at h
  split at h
  · cases h
  · exact nameCanonicalize83_valid h

end InferenceOS
