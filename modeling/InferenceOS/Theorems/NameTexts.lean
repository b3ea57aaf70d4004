import InferenceOS.Theorems.Codecs
import InferenceOS.Theorems.Searches

/-! The language of 8.3 names. The scanner of names, the extraction of the extension and the scanner of search queries
    read one language: a base, and an extension after a dot. -/

namespace InferenceOS
open FileService
variable {value : UInt8}

def NameByte (value : UInt8) : Prop :=
  (ascii 'A' ≤ value ∧ value ≤ ascii 'Z') ∨ (ascii 'a' ≤ value ∧ value ≤ ascii 'z') ∨
    (ascii '0' ≤ value ∧ value ≤ ascii '9') ∨ value = ascii '_' ∨ value = ascii '-'

instance : DecidablePred NameByte := fun _ => inferInstanceAs (Decidable (_ ∨ _))

theorem supported_upperCase : supportedNameByte (upperCase value) = true ↔ NameByte value :=
  Bytes.forall_byte (P := fun value => supportedNameByte (upperCase value) = true ↔ NameByte value) (by decide +kernel) value

theorem upperCase_supported : supportedNameByte value = true → upperCase value = value :=
  Bytes.forall_byte (P := fun value => supportedNameByte value = true → upperCase value = value) (by decide +kernel) value

theorem nameByte_supported (h : supportedNameByte value = true) : NameByte value :=
  supported_upperCase.mp (by rwa [upperCase_supported h])

theorem NameByte.ne_dot (h : NameByte value) : value ≠ ascii '.' := by
  rintro rfl
  exact absurd h (by decide)

section Parts
variable {base extension : Text} {dotted : Option Text}
variable {name : Name}

theorem supported_map (h : ∀ b ∈ base, NameByte b) : ∀ b ∈ base.map upperCase, supportedNameByte b = true := by
  intro b hb
  obtain ⟨a, ha, rfl⟩ := List.mem_map.mp hb
  exact supported_upperCase.mpr (h a ha)

theorem map_upperCase (h : ∀ b ∈ base, supportedNameByte b = true) : base.map upperCase = base := by
  rw [List.map_congr_left fun b hb => upperCase_supported (h b hb), List.map_id']

def spelling (base : Text) : Option Text → Text
  | none => base
  | some extension => base ++ ascii '.' :: extension

/-- The parts of a name of at most eight and three bytes. -/
structure NameParts (base extension : Text) : Prop where
  nonempty : base ≠ []
  baseLength : base.length ≤ 8
  extensionLength : extension.length ≤ 3
  base : ∀ b ∈ base, NameByte b
  extension : ∀ b ∈ extension, NameByte b

theorem canonicalizeFrom_extension : ∀ {input base extension : Text}, (∀ b ∈ input, NameByte b) →
    extension.length + input.length ≤ 3 →
    canonicalizeFrom input base (some extension) = .ok (base, extension ++ input.map upperCase)
  | [], base, extension, _, _ => by rw [canonicalizeFrom, Option.getD_some, List.map_nil, List.append_nil]
  | value :: rest, base, extension, h, hlen => by
    have hv := h value List.mem_cons_self
    rw [List.length_cons] at hlen
    have ih := @canonicalizeFrom_extension rest base (extension ++ [upperCase value])
      (fun b hb => h b (List.mem_cons_of_mem _ hb)) (by rw [List.length_append, List.length_singleton]; omega)
    rw [canonicalizeFrom, if_neg hv.ne_dot, supported_upperCase.mpr hv]
    rw [if_neg (by decide), if_neg (by omega), ih, List.append_assoc]
    rfl

theorem canonicalizeFrom_spelling : ∀ {rest before : Text}, (∀ b ∈ rest, NameByte b) → before.length + rest.length ≤ 8 →
    (∀ b ∈ dotted.getD [], NameByte b) → (dotted.getD []).length ≤ 3 → (dotted.isSome → before ++ rest ≠ []) →
    canonicalizeFrom (spelling rest dotted) before none =
      .ok (before ++ rest.map upperCase, (dotted.getD []).map upperCase)
  | [], before, _, _, hx, hlen, hne => by
    rw [List.append_nil] at hne
    cases dotted with
    | none => simp [spelling, canonicalizeFrom]
    | some extension =>
      have := @canonicalizeFrom_extension extension before [] hx (by simpa using hlen)
      rw [spelling, List.nil_append, canonicalizeFrom, if_pos rfl, if_neg (by simpa using hne rfl), this]
      simp
  | value :: rest, before, h, hroom, hx, hlen, hne => by
    have hv := h value List.mem_cons_self
    rw [List.length_cons] at hroom
    have ih := @canonicalizeFrom_spelling rest (before ++ [upperCase value]) (fun b hb => h b (List.mem_cons_of_mem _ hb))
      (by rw [List.length_append, List.length_singleton]; omega) hx hlen (fun _ => by simp)
    have hcons : spelling (value :: rest) dotted = value :: spelling rest dotted := by cases dotted <;> rfl
    rw [hcons, canonicalizeFrom, if_neg hv.ne_dot, supported_upperCase.mpr hv]
    rw [if_neg (by decide), if_neg (by omega), ih, List.append_assoc]
    rfl

theorem canonicalizeFrom_extension_eq_ok : ∀ {input base extension : Text} {r}, extension.length ≤ 3 →
    canonicalizeFrom input base (some extension) = .ok r →
    (∀ b ∈ input, NameByte b) ∧ extension.length + input.length ≤ 3
  | [], base, extension, r, hlen, _ => ⟨by simp, hlen⟩
  | value :: rest, base, extension, r, hlen, h => by
    rw [canonicalizeFrom] at h
    split at h
    · rw [Option.isSome_some, if_pos (Or.inl rfl)] at h
      cases h
    split at h
    · cases h
    rename_i hv
    split at h
    · cases h
    rename_i hfull
    have hshort : (extension ++ [upperCase value]).length = extension.length + 1 := by simp
    obtain ⟨hrest, hroom⟩ := canonicalizeFrom_extension_eq_ok (by omega) h
    refine ⟨List.forall_mem_cons.mpr ⟨supported_upperCase.mp (by simpa using hv), hrest⟩, ?_⟩
    rw [List.length_cons]
    omega

theorem canonicalizeFrom_eq_ok : ∀ {input before : Text} {r}, before.length ≤ 8 →
    canonicalizeFrom input before none = .ok r → ∃ rest dotted, input = spelling rest dotted ∧
      (∀ b ∈ rest, NameByte b) ∧ before.length + rest.length ≤ 8 ∧ (∀ b ∈ dotted.getD [], NameByte b) ∧
      (dotted.getD []).length ≤ 3 ∧ (dotted.isSome → before ++ rest ≠ [])
  | [], before, r, hlen, _ => ⟨[], none, rfl, by simp, by simpa using hlen, by simp, by simp, by simp⟩
  | value :: rest, before, r, hlen, h => by
    rw [canonicalizeFrom] at h
    split at h
    · rename_i hdot
      split at h
      · cases h
      rename_i hne
      obtain ⟨hbytes, hroom⟩ := canonicalizeFrom_extension_eq_ok (Nat.zero_le _) h
      refine ⟨[], some rest, by rw [hdot]; rfl, by simp, by simpa using hlen, hbytes, by simpa using hroom, fun _ => ?_⟩
      rw [List.append_nil]
      exact (not_or.mp hne).2
    split at h
    · cases h
    rename_i hv
    split at h
    · cases h
    rename_i hfull
    have hshort : (before ++ [upperCase value]).length = before.length + 1 := by simp
    obtain ⟨more, dotted, rfl, hbytes, hroom, hx, hxlen, -⟩ := canonicalizeFrom_eq_ok (by omega) h
    refine ⟨value :: more, dotted, by cases dotted <;> rfl,
      List.forall_mem_cons.mpr ⟨supported_upperCase.mp (by simpa using hv), hbytes⟩, ?_, hx, hxlen, by simp⟩
    rw [List.length_cons]
    omega

theorem nameCanonicalize83_iff {input : Text} : nameCanonicalize83 input = .ok name ↔
    ∃ base dotted, NameParts base (dotted.getD []) ∧ input = spelling base dotted ∧
      name = padName (base.map upperCase) ((dotted.getD []).map upperCase) := by
  constructor
  · intro h
    unfold nameCanonicalize83 at h
    obtain ⟨hne, hrest⟩ := Program.of_check h
    cases hr : canonicalizeFrom input [] none with
    | error e =>
      rw [hr] at hrest
      cases hrest
    | ok r =>
      rw [hr] at hrest
      obtain ⟨base, dotted, rfl, hbytes, hlen, hx, hxlen, hdot⟩ := canonicalizeFrom_eq_ok (Nat.zero_le _) hr
      rw [List.nil_append] at hdot
      have hbase : base ≠ [] := by
        cases dotted with
        | none => exact hne
        | some => exact hdot rfl
      rw [canonicalizeFrom_spelling hbytes hlen hx hxlen fun _ => hbase] at hr
      cases hr
      exact ⟨base, dotted, ⟨hbase, by simpa using hlen, hxlen, hbytes, hx⟩, rfl, (Except.ok.inj hrest).symm⟩
  · rintro ⟨base, dotted, hparts, rfl, rfl⟩
    have hne : spelling base dotted ≠ [] := by
      cases dotted with
      | none => exact hparts.nonempty
      | some => simp [spelling]
    have hr := @canonicalizeFrom_spelling dotted base [] hparts.base (by simpa using hparts.baseLength) hparts.extension
      hparts.extensionLength fun _ => hparts.nonempty
    unfold nameCanonicalize83
    rw [if_neg hne]
    show (canonicalizeFrom (spelling base dotted) [] none >>= _) = _
    rw [hr]
    rfl

/-- The name as a text. -/
def renderName (name : Name) : Text :=
  if extensionOf name = [] then displayBaseName name else displayBaseName name ++ ascii '.' :: extensionOf name

/-- The text in capitals, without a dot at its end. -/
def normalText (input : Text) : Text :=
  if (input.map upperCase).getLast? = some (ascii '.') then (input.map upperCase).dropLast else input.map upperCase

theorem rdropWhile_padded {l : Text} {k : Nat} (h : ∀ b ∈ l, supportedNameByte b = true) :
    (l ++ List.replicate k (ascii ' ')).rdropWhile (· == ascii ' ') = l := by
  induction k with
  | zero =>
    rw [List.replicate_zero, List.append_nil, List.rdropWhile_eq_self_iff]
    intro hl
    have := (supportedNameByte_ne (h _ (List.getLast_mem hl))).2.2.2.2
    simpa using this
  | succ k ih => rw [List.replicate_succ', ← List.append_assoc, List.rdropWhile_concat_pos _ _ _ (by simp), ih]

theorem displayBaseName_padName (hl : base.length ≤ 8) (h : ∀ b ∈ base, supportedNameByte b = true) :
    displayBaseName (padName base extension) = base := by
  rw [displayBaseName, padName_base _ _ hl, rdropWhile_padded h]

theorem extensionOf_padName (hl : extension.length ≤ 3) (h : ∀ b ∈ extension, supportedNameByte b = true) :
    extensionOf (padName base extension) = extension := by
  rw [extensionOf, padName_extension _ _ hl, rdropWhile_padded h]

theorem validField_eq : ∀ {l : Text} {padding : Bool}, validField padding l = true →
    ∃ field k, l = field ++ List.replicate k (ascii ' ') ∧ (∀ b ∈ field, supportedNameByte b = true) ∧
      (padding = true → field = [])
  | [], _, _ => ⟨[], 0, rfl, by simp, fun _ => rfl⟩
  | value :: rest, padding, h => by
    rw [validField] at h
    split at h
    · rename_i hspace
      obtain ⟨field, k, rfl, -, hnil⟩ := validField_eq h
      refine ⟨[], k + 1, ?_, by simp, fun _ => rfl⟩
      rw [hspace, hnil rfl]
      rfl
    split at h
    · cases h
    rename_i hv
    obtain ⟨hpadding, hvalue⟩ : padding = false ∧ supportedNameByte value = true := by simpa using hv
    obtain ⟨field, k, rfl, hfield, -⟩ := validField_eq h
    exact ⟨value :: field, k, rfl, List.forall_mem_cons.mpr ⟨hvalue, hfield⟩, fun hp => by rw [hp] at hpadding; cases hpadding⟩

theorem validField_trimmed {l : Text} (h : validField false l = true) :
    (∀ b ∈ l.rdropWhile (· == ascii ' '), supportedNameByte b = true) ∧ l = l.rdropWhile (· == ascii ' ') ++
      List.replicate (l.length - (l.rdropWhile (· == ascii ' ')).length) (ascii ' ') := by
  obtain ⟨field, k, rfl, hfield, -⟩ := validField_eq h
  rw [rdropWhile_padded hfield, List.length_append, List.length_replicate, Nat.add_sub_cancel_left]
  exact ⟨hfield, rfl⟩

theorem toList_injective {n : Nat} {a b : Bytes n} (h : a.toList = b.toList) : a = b := List.ofFn_injective h

theorem padName_parts (h : validStoredName name = true) :
    NameParts (displayBaseName name) (extensionOf name) ∧ padName (displayBaseName name) (extensionOf name) = name ∧
      (∀ b ∈ displayBaseName name, supportedNameByte b = true) ∧ ∀ b ∈ extensionOf name, supportedNameByte b = true := by
  have hne := displayBaseName_ne_nil h
  obtain ⟨⟨-, hbase⟩, hextension⟩ : (_ ∧ validField false (name.slice 0 8).toList = true) ∧
      validField false (name.slice 8 3).toList = true := by simpa only [validStoredName, Bool.and_eq_true] using h
  obtain ⟨hbytes, hpadded⟩ := validField_trimmed hbase
  obtain ⟨hbytes', hpadded'⟩ := validField_trimmed hextension
  have hlen := displayBaseName_length name
  have hlen' := extensionOf_length name
  refine ⟨⟨hne, hlen, hlen', fun b hb => nameByte_supported (hbytes b hb), fun b hb => nameByte_supported (hbytes' b hb)⟩,
    ?_, hbytes, hbytes'⟩
  have hlength : ∀ {n : Nat} {b : Bytes n}, b.toList.length = n := fun {n b} => List.length_ofFn
  have fields : Bytes.Agree (padName (displayBaseName name) (extensionOf name)) name 0 [8, 3] := by
    refine ⟨toList_injective ?_, toList_injective ?_, trivial⟩
    · rw [padName_base _ _ hlen]
      rw [hlength] at hpadded
      exact hpadded.symm
    · rw [Nat.zero_add, padName_extension _ _ hlen']
      rw [hlength] at hpadded'
      exact hpadded'.symm
  exact fields.eq (by decide)

theorem renderName_eq (name : Name) :
    renderName name = spelling (displayBaseName name) (if extensionOf name = [] then none else some (extensionOf name)) := by
  unfold renderName
  split <;> rfl

theorem nameCanonicalize83_renderName (h : validStoredName name = true) : nameCanonicalize83 (renderName name) = .ok name := by
  obtain ⟨hparts, hpad, hbase, hextension⟩ := padName_parts h
  have hdotted : (if extensionOf name = [] then none else some (extensionOf name)).getD [] = extensionOf name := by
    split
    · rename_i hnil
      exact hnil.symm
    · rfl
  refine nameCanonicalize83_iff.mpr ⟨_, _, ?_, renderName_eq name, ?_⟩
  · rwa [hdotted]
  · rw [hdotted, map_upperCase hbase, map_upperCase hextension, hpad]

theorem renderName_canonical {input : Text} (h : nameCanonicalize83 input = .ok name) : renderName name = normalText input := by
  obtain ⟨base, dotted, hparts, rfl, rfl⟩ := nameCanonicalize83_iff.mp h
  have hbase := supported_map hparts.base
  have hextension := supported_map hparts.extension
  have hlast : ∀ {l : Text}, (∀ b ∈ l, supportedNameByte b = true) → l.getLast? ≠ some (ascii '.') := fun hl hx =>
    (supportedNameByte_ne (hl _ (List.mem_of_getLast? hx))).2.2.2.1 rfl
  have hdot : upperCase (ascii '.') = ascii '.' := by decide
  unfold renderName
  rw [displayBaseName_padName (by simpa using hparts.baseLength) hbase,
    extensionOf_padName (by simpa using hparts.extensionLength) hextension]
  unfold normalText
  cases dotted with
  | none => rw [if_pos (by rfl), spelling, if_neg (hlast hbase)]
  | some extension =>
    rw [spelling, List.map_append, List.map_cons, hdot, Option.getD_some]
    cases extension with
    | nil => simp
    | cons value rest =>
      have hx : (base.map upperCase ++ ascii '.' :: (value :: rest).map upperCase).getLast? ≠ some (ascii '.') := by
        rw [List.getLast?_append, List.map_cons, List.getLast?_cons_cons, ← List.map_cons, List.getLast?_eq_some_getLast (by simp)]
        intro hx
        exact hlast hextension (by rw [Option.getD_some, List.getLast?_eq_some_getLast (by simp)]; simpa using hx)
      rw [if_neg hx, if_neg (by simp)]

theorem extensionQueryFrom_eq : ∀ {input output : Text}, (∀ b ∈ input, NameByte b) → output.length + input.length ≤ 3 →
    extensionQueryFrom input output = .ok (output ++ input.map upperCase)
  | [], output, _, _ => by rw [extensionQueryFrom, List.map_nil, List.append_nil]
  | value :: rest, output, h, hlen => by
    have hv := supported_upperCase.mpr (h value List.mem_cons_self)
    rw [List.length_cons] at hlen
    have ih := @extensionQueryFrom_eq rest (output ++ [upperCase value]) (fun b hb => h b (List.mem_cons_of_mem _ hb))
      (by rw [List.length_append, List.length_singleton]; omega)
    rw [extensionQueryFrom, if_neg, ih, List.append_assoc]
    · rfl
    · rw [hv]
      simp
      omega

theorem extensionQueryCanonicalize_typed (hne : extension ≠ []) (h : ∀ b ∈ extension, NameByte b) (hlen : extension.length ≤ 3) :
    extensionQueryCanonicalize extension = .ok (extension.map upperCase) ∧
      extensionQueryCanonicalize (ascii '.' :: extension) = .ok (extension.map upperCase) := by
  have hfrom := @extensionQueryFrom_eq extension [] h (by simpa using hlen)
  rw [List.nil_append] at hfrom
  obtain ⟨value, rest, rfl⟩ := List.exists_cons_of_ne_nil hne
  have hhead : (value :: rest).head? ≠ some (ascii '.') := fun hx =>
    (h value List.mem_cons_self).ne_dot (Option.some.inj hx)
  constructor
  · unfold extensionQueryCanonicalize
    rw [if_neg (by simp at hlen ⊢; omega)]
    dsimp only
    rw [if_neg hhead, if_neg hne]
    exact hfrom
  · unfold extensionQueryCanonicalize
    rw [if_neg (by simp at hlen ⊢; omega)]
    dsimp only
    rw [List.head?_cons, if_pos rfl, List.tail_cons, if_neg hne]
    exact hfrom

theorem dotted_inj {base' extension' : Text} (hbase : ascii '.' ∉ base') (hextension : ascii '.' ∉ extension')
    (h : base ++ ascii '.' :: extension = base' ++ ascii '.' :: extension') : extension' = extension := by
  rcases List.append_eq_append_iff.mp h with ⟨between, rfl, hrest⟩ | ⟨between, rfl, hrest⟩
  · cases between with
    | nil => exact (List.cons.inj hrest).2.symm
    | cons value between =>
      rw [List.cons_append] at hrest
      exact absurd (by rw [← (List.cons.inj hrest).1]; simp) hbase
  · cases between with
    | nil => exact (List.cons.inj hrest).2
    | cons value between =>
      rw [List.cons_append] at hrest
      exact absurd (by rw [(List.cons.inj hrest).2]; simp) hextension

/-- The three scanners read one language of names. -/
theorem name_language :
    (∀ input, (∃ name, nameCanonicalize83 input = .ok name) ↔
      ∃ base dotted, NameParts base (dotted.getD []) ∧ input = spelling base dotted) ∧
    (∀ input name, nameCanonicalize83 input = .ok name → validStoredName name = true) ∧
    (∀ input input' name name', nameCanonicalize83 input = .ok name → nameCanonicalize83 input' = .ok name' →
      (name = name' ↔ normalText input = normalText input')) ∧
    (∀ name, validStoredName name = true → nameCanonicalize83 (renderName name) = .ok name) ∧
    ∀ base extension name, nameCanonicalize83 (spelling base (some extension)) = .ok name → extension ≠ [] →
      nameExtension name = extensionQueryCanonicalize extension ∧
        nameExtension name = extensionQueryCanonicalize (ascii '.' :: extension) := by
  refine ⟨fun input => ⟨?_, ?_⟩, fun input name => nameCanonicalize83_valid, fun input input' name name' h h' => ⟨?_, ?_⟩,
    fun name => nameCanonicalize83_renderName, fun base extension name h hne => ?_⟩
  · rintro ⟨name, h⟩
    obtain ⟨base, dotted, hparts, htext, -⟩ := nameCanonicalize83_iff.mp h
    exact ⟨base, dotted, hparts, htext⟩
  · rintro ⟨base, dotted, hparts, htext⟩
    exact ⟨_, nameCanonicalize83_iff.mpr ⟨base, dotted, hparts, htext, rfl⟩⟩
  · rintro rfl
    rw [← renderName_canonical h, ← renderName_canonical h']
  · intro hsame
    rw [← renderName_canonical h, ← renderName_canonical h'] at hsame
    have hname := nameCanonicalize83_renderName (nameCanonicalize83_valid h)
    rw [hsame, nameCanonicalize83_renderName (nameCanonicalize83_valid h')] at hname
    exact (Except.ok.inj hname).symm
  · obtain ⟨base', dotted, hparts, htext, rfl⟩ := nameCanonicalize83_iff.mp h
    obtain rfl : dotted = some extension := by
      cases dotted with
      | none =>
        exact absurd rfl (hparts.base (ascii '.') (by rw [show base' = _ from htext.symm]; simp [spelling])).ne_dot
      | some extension' =>
        exact congrArg some (dotted_inj (fun hx => (hparts.base _ hx).ne_dot rfl)
          (fun hx => (hparts.extension _ hx).ne_dot rfl) htext)
    have hextension := supported_map hparts.extension
    obtain ⟨hplain, hquery⟩ := extensionQueryCanonicalize_typed hne hparts.extension hparts.extensionLength
    rw [nameExtension_eq (nameCanonicalize83_valid h), hplain, hquery,
      extensionOf_padName (by simpa using hparts.extensionLength) hextension]
    exact ⟨rfl, rfl⟩

end Parts
end InferenceOS
