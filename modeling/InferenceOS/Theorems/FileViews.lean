import InferenceOS.Theorems.DisplayPaths
import InferenceOS.Theorems.Pagination

/-! Views of a directory: what a page of a view shows of the entries that the file service lists, and what a caller that
    follows the continuations is shown of the whole directory. -/

namespace InferenceOS
open Program FileService DisplaySafe TypeCatalog ShellOperation

section Types
variable {extension : Text} {b : UInt8}

theorem supportedNameByte_ge (h : supportedNameByte b = true) : 45 ≤ b.toNat := by
  unfold supportedNameByte at h
  simp only [Bool.or_eq_true, Bool.and_eq_true, decide_eq_true_eq, beq_iff_eq, UInt8.le_iff_toNat_le] at h
  have hA : (ascii 'A').toNat = 65 := rfl
  have h0 : (ascii '0').toNat = 48 := rfl
  rcases h with ((h | h) | rfl) | rfl
  · omega
  · omega
  · decide
  · decide

def packed (extension : Text) : Nat := extension.foldl (fun identity value => identity * 256 + value.toNat) 0

theorem packed_ge (hne : extension ≠ []) (h : ∀ b ∈ extension, supportedNameByte b = true) : 45 ≤ packed extension := by
  have hlast := supportedNameByte_ge (h _ (List.getLast_mem hne))
  rw [packed, ← List.dropLast_append_getLast hne, List.foldl_append, List.foldl_cons, List.foldl_nil]
  omega

theorem fileTypeMetadata_eq {name : Name} (h : validStoredName name = true) : fileTypeMetadata name =
    .ok (if extensionOf name = [] then 1 else packed (extensionOf name), (fnv1a32 (extensionOf name)).toNat) := by
  unfold fileTypeMetadata
  rw [nameExtension_eq h]
  rfl

theorem ofNat_eq {n : Nat} (h : n % 256 = b.toNat) : UInt8.ofNat n = b := by
  rw [← UInt8.toNat_inj, UInt8.toNat_ofNat', h]

namespace FileView

theorem identityBytes_packed (hlen : extension.length ≤ 3) (h : ∀ b ∈ extension, b ≠ 0) :
    (identityBytes (packed extension)).dropWhile (· == 0) = extension := by
  have hlt (c : UInt8) : c.toNat < 256 := c.toNat_lt
  have hbytes (n : Nat) : identityBytes n = [.ofNat (n / 256 ^ 7), .ofNat (n / 256 ^ 6), .ofNat (n / 256 ^ 5), .ofNat (n / 256 ^ 4),
    .ofNat (n / 256 ^ 3), .ofNat (n / 256 ^ 2), .ofNat (n / 256 ^ 1), .ofNat (n / 256 ^ 0)] := rfl
  have hzero (k n : Nat) (hk : n < 256 ^ k) : UInt8.ofNat (n / 256 ^ k) = 0 := by
    rw [Nat.div_eq_of_lt hk]
    rfl
  match extension, hlen with
  | [], _ => rfl
  | [a], _ =>
    have ha := hlt a
    have hn : packed [a] = a.toNat := by simp [packed]
    rw [hn, hbytes, hzero 7 _ (by omega), hzero 6 _ (by omega), hzero 5 _ (by omega), hzero 4 _ (by omega), hzero 3 _ (by omega),
      hzero 2 _ (by omega), hzero 1 _ (by omega), ofNat_eq (show a.toNat / 256 ^ 0 % 256 = a.toNat by omega)]
    simp [h a List.mem_cons_self]
  | [a, c], _ =>
    have ha := hlt a
    have hc := hlt c
    have hn : packed [a, c] = a.toNat * 256 + c.toNat := by simp [packed]
    rw [hn, hbytes, hzero 7 _ (by omega), hzero 6 _ (by omega), hzero 5 _ (by omega), hzero 4 _ (by omega), hzero 3 _ (by omega),
      hzero 2 _ (by omega), ofNat_eq (show (a.toNat * 256 + c.toNat) / 256 ^ 1 % 256 = a.toNat by omega),
      ofNat_eq (show (a.toNat * 256 + c.toNat) / 256 ^ 0 % 256 = c.toNat by omega)]
    simp [h a List.mem_cons_self]
  | [a, c, e], _ =>
    have ha := hlt a
    have hc := hlt c
    have he := hlt e
    have hn : packed [a, c, e] = (a.toNat * 256 + c.toNat) * 256 + e.toNat := by simp [packed]
    rw [hn, hbytes, hzero 7 _ (by omega), hzero 6 _ (by omega), hzero 5 _ (by omega), hzero 4 _ (by omega), hzero 3 _ (by omega),
      ofNat_eq (show ((a.toNat * 256 + c.toNat) * 256 + e.toNat) / 256 ^ 2 % 256 = a.toNat by omega),
      ofNat_eq (show ((a.toNat * 256 + c.toNat) * 256 + e.toNat) / 256 ^ 1 % 256 = c.toNat by omega),
      ofNat_eq (show ((a.toNat * 256 + c.toNat) * 256 + e.toNat) / 256 ^ 0 % 256 = e.toNat by omega)]
    simp [h a List.mem_cons_self]

theorem typeIdentityPrefilter_packed (hlen : extension.length ≤ 3) (h : ∀ b ∈ extension, b ≠ 0) :
    typeIdentityPrefilter (packed extension) = (fnv1a32 extension).toNat := by
  unfold typeIdentityPrefilter
  rw [identityBytes_packed hlen h]
  rfl

theorem typeIdentityPrefilter_one : typeIdentityPrefilter 1 ≠ (fnv1a32 []).toNat := by decide

theorem fnv_step_ne_zero {hash : UInt32} (h : 256 ≤ hash.toNat) : (hash ^^^ b.toUInt32) * 0x01000193 ≠ 0 := by
  intro hzero
  have hinverse := congrArg (· * (0x359c449b : UInt32)) hzero
  rw [UInt32.mul_assoc, show (0x01000193 * 0x359c449b : UInt32) = 1 from by decide, UInt32.mul_one, UInt32.zero_mul,
    UInt32.xor_eq_zero_iff] at hinverse
  have hbyte := b.toNat_lt
  rw [hinverse, UInt8.toNat_toUInt32] at h
  omega

theorem fnv_large : ∀ a : Fin 256, supportedNameByte (.ofNat a) = true → 256 ≤ (fnv1a32 [.ofNat a]).toNat ∧
    ∀ c : Fin 256, supportedNameByte (.ofNat c) = true → 256 ≤ (fnv1a32 [.ofNat a, .ofNat c]).toNat := by
  decide +kernel

theorem fnv1a32_ne_zero (hlen : extension.length ≤ 3) (h : ∀ b ∈ extension, supportedNameByte b = true) : fnv1a32 extension ≠ 0 := by
  have hlarge (a : UInt8) (ha : supportedNameByte a = true) : 256 ≤ (fnv1a32 [a]).toNat ∧
      ∀ c : UInt8, supportedNameByte c = true → 256 ≤ (fnv1a32 [a, c]).toNat := by
    have hof (c : UInt8) : UInt8.ofNat c.toNat = c := UInt8.ofNat_toNat
    have hfin := fnv_large ⟨a.toNat, a.toNat_lt⟩
    rw [hof] at hfin
    obtain ⟨hone, htwo⟩ := hfin ha
    refine ⟨hone, fun c hc => ?_⟩
    have hpair := htwo ⟨c.toNat, c.toNat_lt⟩
    rw [hof] at hpair
    exact hpair hc
  match extension, hlen with
  | [], _ => decide
  | [a], _ => exact fnv_step_ne_zero (show 256 ≤ (fnv1a32 []).toNat by decide)
  | [a, c], _ => exact fnv_step_ne_zero (hlarge a (h a List.mem_cons_self)).1
  | [a, c, e], _ =>
    refine fnv_step_ne_zero ((hlarge a (h a List.mem_cons_self)).2 c (h c ?_))
    exact List.mem_cons_of_mem _ List.mem_cons_self

end FileView
end Types

namespace FileView
variable {μ ρ ω : Type} [DecidableEq μ] [DecidableEq ρ] {service : FileViewService} {listed : ListedEntry}

/-- What the file service lists of a record of a directory. -/
structure Presentable (listed : ListedEntry) : Prop where
  ne_nil : listed.displayBaseName ≠ []
  length_le : listed.displayBaseName.length ≤ 8
  bytes : ∀ b ∈ listed.displayBaseName, supportedNameByte b = true
  identity : listed.objectIdentity ≠ 0
  operations : listed.allowedOperations / 2 ^ 6 = 0
  attributes : listed.genericAttributes / 2 = 0
  typed : listed.kind = .regularFile → ∃ extension : Text, extension.length ≤ 3 ∧
    (∀ b ∈ extension, supportedNameByte b = true) ∧
    listed.internalTypeIdentity = (if extension = [] then 1 else packed extension) ∧
    listed.typePrefilter = (fnv1a32 extension).toNat

theorem fileIdentity_ne_zero (geometry : Geometry) (cluster slot : Nat) : fileIdentity geometry cluster slot ≠ 0 := by
  have hle : fileObjectBit ≤ fileIdentity geometry cluster slot := Nat.left_le_or
  have hpos : 0 < fileObjectBit := Nat.two_pow_pos 63
  omega

theorem listEntry_presentable {s : FileService} {slots : Nat → Slot} {e : DirectoryEntry} {cluster : Nat} (h : SlotEntry slots e)
    (hk : e.kind ≠ .internal) (hlisted : listEntry s cluster e = .ok listed) : Presentable listed := by
  have hname := h.name hk
  obtain ⟨hparts, -, hbytes, hextension⟩ := padName_parts hname
  unfold listEntry at hlisted
  by_cases hdirectory : e.kind = .directory
  · rw [if_pos hdirectory] at hlisted
    cases hlisted
    refine ⟨hparts.nonempty, hparts.baseLength, hbytes, ?_, ?_, ?_, nofun⟩
    · cases h with
      | regular => cases hdirectory
      | internal => cases hdirectory
      | directory _ hdecode hattributes =>
        obtain ⟨-, hadmissible, -⟩ := primaryDecode_eq_ok hdecode
        rcases (Primary.admissible_iff.mp hadmissible).2.2 with ⟨hregular, -⟩ | ⟨-, -, hcluster⟩
        · rw [hattributes] at hregular
          exact absurd hregular (by decide)
        · dsimp only
          omega
    · dsimp only
      split <;> rfl
    · dsimp only
      split <;> rfl
  · rw [if_neg hdirectory] at hlisted
    obtain ⟨⟨identity, prefilter⟩, htype, hlisted⟩ := of_bind_ok hlisted
    cases hlisted
    rw [fileTypeMetadata_eq hname] at htype
    cases htype
    refine ⟨hparts.nonempty, hparts.baseLength, hbytes, fileIdentity_ne_zero _ _ _, ?_, ?_, fun _ => ?_⟩
    · dsimp only
      split <;> rfl
    · dsimp only
      split <;> rfl
    · exact ⟨_, hparts.extensionLength, hextension, rfl, rfl⟩

theorem Presentable.validate (h : Presentable listed) : validateVfsEntry listed = .ok () := by
  have hcString : Vfs.cString listed.displayBaseName = listed.displayBaseName := by
    unfold Vfs.cString
    refine List.takeWhile_eq_self_iff.mpr fun b hb => ?_
    simpa using (supportedNameByte_ne (h.bytes b hb)).1
  have hpos := List.length_pos_iff.mpr h.ne_nil
  have hle := h.length_le
  unfold validateVfsEntry
  rw [hcString, if_neg, if_neg]
  · rintro ⟨hkind, htype⟩
    obtain ⟨extension, hlen, hbytes, hidentity, hprefilter⟩ := h.typed hkind
    rcases htype with htype | htype
    · rw [hidentity] at htype
      split at htype
      · exact absurd htype Nat.one_ne_zero
      · have hge := packed_ge ‹_› hbytes
        omega
    · rw [hprefilter] at htype
      exact fnv1a32_ne_zero hlen hbytes (UInt32.toNat_inj.mp htype)
  · rintro (hx | hx | hx | hx | hx)
    · omega
    · have hcapacity : vfsDisplayNameCapacity = 64 := rfl
      omega
    · exact h.identity hx
    · exact hx h.operations
    · exact hx h.attributes

/-- A service whose catalog is initialized and whose generic capability is one. -/
structure Ready (service : FileViewService) : Prop where
  catalog : service.typeCatalog.generationSeed ≠ 0
  generic : service.genericFileCapability ≠ 0

theorem encodeCapability_ne_zero (index generation : Nat) : encodeCapability index generation ≠ 0 := by
  have hle : index + 1 ≤ encodeCapability index generation := Nat.right_le_or
  omega

theorem supportedNameByte_not_refused {b : UInt8} (h : supportedNameByte b = true) : refusedNameByte b = false := by
  have hdot := (supportedNameByte_ne h).2.2.2.1
  have hge := supportedNameByte_ge h
  have hslash : b ≠ ascii '/' := by rintro rfl; exact absurd h (by decide)
  have hback : b ≠ ascii '\\' := by rintro rfl; exact absurd h (by decide)
  unfold supportedNameByte at h
  simp only [Bool.or_eq_true, Bool.and_eq_true, decide_eq_true_eq, beq_iff_eq, UInt8.le_iff_toNat_le] at h
  have hZ : (ascii 'Z').toNat = 90 := rfl
  have h9 : (ascii '9').toNat = 57 := rfl
  have hlow : ¬b < 0x20 := by
    rw [UInt8.lt_iff_toNat_lt]
    exact not_lt.mpr (le_trans (by decide) hge)
  have hhigh : ¬0x7e < b := by
    rw [UInt8.lt_iff_toNat_lt, show (0x7e : UInt8).toNat = 126 from rfl]
    rcases h with ((h | h) | rfl) | rfl
    · omega
    · omega
    · decide
    · decide
  simp [refusedNameByte, hlow, hhigh, hdot, hslash, hback]

theorem validKind_displayKind (kind : ObjectKind) : validKind (displayKind kind) = true := by cases kind <;> rfl

theorem displayKind_eq_file {kind : ObjectKind} (h : displayKind kind = displaySafeRegularFile) : kind = .regularFile := by
  cases kind
  · exact absurd h (by decide)
  · rfl

theorem Presentable.safe (h : Presentable listed) (hready : Ready service) (capability : Nat) :
    ∃ entry, makeSafeEntry service listed capability = .ok entry := by
  obtain ⟨given, hgiven, hcapability⟩ : ∃ given, entryCapability service listed capability = .ok given ∧
      (listed.kind = .regularFile → given ≠ 0) := by
    unfold entryCapability
    by_cases hfind : listed.kind = .regularFile ∧ capability = invalidTypeIconCapability
    · rw [if_pos hfind]
      have hidentity : listed.internalTypeIdentity ≠ 0 := by
        obtain ⟨extension, -, hbytes, hidentity, -⟩ := h.typed hfind.1
        rw [hidentity]
        split
        · exact Nat.one_ne_zero
        · have hge := packed_ge ‹_› hbytes
          omega
      unfold typeCatalogFindCapability
      rw [if_neg (not_or.mpr ⟨hready.catalog, hidentity⟩)]
      rcases slotOfIdentity listed.internalTypeIdentity 0 service.typeCatalog.slots with - | ⟨index, slot⟩
      · exact ⟨_, rfl, fun _ => hready.generic⟩
      · exact ⟨_, rfl, fun _ => encodeCapability_ne_zero _ _⟩
    · rw [if_neg hfind]
      exact ⟨_, rfl, fun hkind hzero => hfind ⟨hkind, hzero⟩⟩
  have hpos := List.length_pos_iff.mpr h.ne_nil
  have hle := h.length_le
  unfold makeSafeEntry
  rw [hgiven]
  dsimp only [bind, Except.bind]
  have hname : validateBaseName (fun i => listed.displayBaseName.getD i 0) = .ok listed.displayBaseName.length := by
    have hcapacity : displaySafeNameCapacity = 64 := rfl
    refine validateBaseName_iff.mpr ⟨hpos, by omega, fun i hi => ?_, List.getD_eq_default _ _ le_rfl⟩
    rw [List.getD_eq_getElem _ _ hi]
    have hbyte := h.bytes _ (List.getElem_mem hi)
    exact ⟨(supportedNameByte_ne hbyte).1, supportedNameByte_not_refused hbyte⟩
  unfold displaySafeEntryConvert
  rw [if_neg, hname]
  · exact ⟨_, rfl⟩
  · rintro (hx | hx | hx | hx | ⟨hx, hzero⟩)
    · exact h.identity hx
    · exact Bool.false_ne_true (hx.symm.trans (validKind_displayKind listed.kind))
    · simp only [foreignAttributes, decide_eq_true_eq] at hx
      exact hx h.attributes
    · simp only [foreignOperations, decide_eq_true_eq] at hx
      exact hx h.operations
    · have hkind := displayKind_eq_file hx
      dsimp only at hzero
      rw [hkind] at hzero
      exact hcapability hkind hzero

theorem Presentable.matches_iff (h : Presentable listed) (hkind : listed.kind = .regularFile) {requested : Nat} :
    (listed.typePrefilter = typeIdentityPrefilter requested ∧ listed.internalTypeIdentity = requested) ↔
      listed.internalTypeIdentity = requested ∧ requested ≠ 1 := by
  obtain ⟨extension, hlen, hbytes, hidentity, hprefilter⟩ := h.typed hkind
  rw [hidentity, hprefilter]
  by_cases hnil : extension = []
  · subst hnil
    rw [if_pos rfl]
    constructor
    · rintro ⟨hsame, rfl⟩
      exact absurd hsame.symm typeIdentityPrefilter_one
    · rintro ⟨rfl, hne⟩
      exact absurd rfl hne
  · rw [if_neg hnil]
    have hge := packed_ge hnil hbytes
    constructor
    · rintro ⟨-, rfl⟩
      exact ⟨rfl, by omega⟩
    · rintro ⟨rfl, -⟩
      exact ⟨(typeIdentityPrefilter_packed hlen fun b hb => (supportedNameByte_ne (hbytes b hb)).1).symm, rfl⟩

/-- The entries that a view is for: all of them, all directories and the files of a type, or the files of a type. -/
def wanted (operation : ShellOperation) (requested : Nat) (listed : ListedEntry) : Bool :=
  match operation with
  | .directoryView => true
  | .typeView => listed.kind = .directory ∨ listed.internalTypeIdentity = requested
  | .search => listed.kind ≠ .directory ∧ listed.internalTypeIdentity = requested
  | .guiView => false

/-- The view has the entry. -/
def kept (operation : ShellOperation) (requested : Nat) (listed : ListedEntry) : Bool :=
  !filteredOut operation.number requested (typeIdentityPrefilter requested) listed

/-- The entries shown are the listed ones, each made safe for display. -/
def Presents (service : FileViewService) (capability : Nat) : List ListedEntry → List DisplaySafeEntry → Prop :=
  List.Forall₂ fun listed entry => makeSafeEntry service listed capability = .ok entry

theorem exists_presents (hready : Ready service) {capability : Nat} : ∀ {l : List ListedEntry}, (∀ listed ∈ l, Presentable listed) →
    ∃ complete, Presents service capability l complete
  | [], _ => ⟨[], .nil⟩
  | listed :: rest, hl => by
    obtain ⟨entry, hentry⟩ := (hl listed List.mem_cons_self).safe hready capability
    obtain ⟨shown, hshown⟩ := exists_presents hready fun other hother => hl other (List.mem_cons_of_mem _ hother)
    exact ⟨entry :: shown, .cons hentry hshown⟩

theorem kept_iff (h : Presentable listed) {operation : ShellOperation} {requested : Nat}
    (hview : Shell.shellOperationIsFileView operation.number = true) : kept operation requested listed = true ↔
    wanted operation requested listed = true ∧ (operation ≠ .directoryView → listed.kind = .regularFile → requested ≠ 1) := by
  have hfilters : listed.kind = .regularFile →
      (¬(listed.typePrefilter ≠ typeIdentityPrefilter requested ∨ listed.internalTypeIdentity ≠ requested) ↔
        listed.internalTypeIdentity = requested ∧ requested ≠ 1) := fun hkind => by
    rw [← h.matches_iff hkind, not_or, not_not, not_not]
  unfold kept filteredOut wanted
  cases operation with
  | guiView => exact absurd hview (by decide)
  | directoryView =>
    simp [number]
  | typeView =>
    cases hkind : listed.kind with
    | directory => simp [number]
    | regularFile =>
      have hfile := hfilters hkind
      simp only [number] at hfile ⊢
      simp_all
  | search =>
    cases hkind : listed.kind with
    | directory => simp [number]
    | regularFile =>
      have hfile := hfilters hkind
      simp only [number] at hfile ⊢
      simp_all

theorem presents_wanted_iff {operation : ShellOperation} {requested capability : Nat} {entries : List ListedEntry}
    {shown : List DisplaySafeEntry} (h : ∀ listed ∈ entries, Presentable listed)
    (hview : Shell.shellOperationIsFileView operation.number = true)
    (hshown : Presents service capability (entries.filter (kept operation requested)) shown) :
    Presents service capability (entries.filter (wanted operation requested)) shown ↔ operation = .directoryView ∨ requested ≠ 1 ∨
      ∀ listed ∈ entries, listed.kind = .regularFile → listed.internalTypeIdentity ≠ 1 := by
  constructor
  · intro hwanted
    by_contra hnot
    obtain ⟨hoperation, hrequested, hexists⟩ : operation ≠ .directoryView ∧ requested = 1 ∧
        ∃ listed ∈ entries, listed.kind = .regularFile ∧ listed.internalTypeIdentity = 1 := by simpa [not_or] using hnot
    obtain ⟨listed, hmem, hkind, hidentity⟩ := hexists
    have hfilters : entries.filter (kept operation requested) =
        (entries.filter (wanted operation requested)).filter (kept operation requested) := by
      rw [List.filter_filter]
      refine List.filter_congr fun listed hlisted => ?_
      cases hkept : kept operation requested listed with
      | false => rfl
      | true => rw [((kept_iff (h listed hlisted) hview).mp hkept).1, Bool.and_self]
    have hlength := hshown.length_eq.trans hwanted.length_eq.symm
    rw [hfilters, List.length_filter_eq_length_iff] at hlength
    have hwant : listed ∈ entries.filter (wanted operation requested) := by
      refine List.mem_filter.mpr ⟨hmem, ?_⟩
      unfold wanted
      cases operation with
      | guiView => exact absurd hview (by decide)
      | directoryView => exact absurd rfl hoperation
      | typeView => exact decide_eq_true (Or.inr (hidentity.trans hrequested.symm))
      | search =>
        refine decide_eq_true ⟨?_, hidentity.trans hrequested.symm⟩
        rw [hkind]
        exact nofun
    exact ((kept_iff (h listed hmem) hview).mp (hlength listed hwant)).2 hoperation hkind hrequested
  · intro hcondition
    have hfilters : entries.filter (wanted operation requested) = entries.filter (kept operation requested) := by
      refine List.filter_congr fun listed hlisted => ?_
      have hiff := @kept_iff listed (h listed hlisted) operation requested hview
      rw [Bool.eq_iff_iff, hiff]
      refine ⟨fun hwant => ⟨hwant, fun hoperation hkind => ?_⟩, fun hkept => hkept.1⟩
      rintro rfl
      rcases hcondition with rfl | hne | hnone
      · exact hoperation rfl
      · exact hne rfl
      · refine hnone listed hlisted hkind ?_
        unfold wanted at hwant
        rw [hkind] at hwant
        cases operation with
        | guiView => cases hwant
        | directoryView => exact absurd rfl hoperation
        | typeView => simpa using hwant
        | search => simpa using hwant
    rwa [hfilters]

def replyEntries (reply : FileViewReply) : List DisplaySafeEntry := (List.ofFn reply.entries).take reply.itemCount

def Refilled (reply t : FileViewReply) : Prop := t = { reply with entries := t.entries, itemCount := t.itemCount }

theorem replyEntries_place {reply : FileViewReply} {entry : DisplaySafeEntry} (h : reply.itemCount < shellFileViewReplyCapacity) :
    replyEntries { FileViewReply.place reply entry with itemCount := reply.itemCount + 1 } = replyEntries reply ++ [entry] := by
  have hlength : (replyEntries reply).length = reply.itemCount := by
    rw [replyEntries, List.length_take, List.length_ofFn]
    omega
  refine List.ext_getElem? fun i => ?_
  rw [List.getElem?_append, hlength]
  unfold replyEntries FileViewReply.place
  rw [List.getElem?_take, List.getElem?_ofFn]
  dsimp only
  rcases Nat.lt_trichotomy i reply.itemCount with hi | rfl | hi
  · rw [if_pos (by omega), if_pos hi, dif_pos (by omega), if_neg (by omega), List.getElem?_take, if_pos hi, List.getElem?_ofFn,
      dif_pos (by omega)]
  · rw [if_pos (by omega), if_neg (lt_irrefl _), dif_pos h, if_pos rfl, Nat.sub_self]
    rfl
  · rw [if_neg (by omega), if_neg (by omega), List.getElem?_eq_none]
    rw [List.length_singleton]
    omega

omit [DecidableEq μ] [DecidableEq ρ] in
theorem viewCandidates_spec (hready : Ready service) {operation capability requested prefilter : Nat} : ∀ {candidates : List ListedEntry}
    {d : Dispatching μ ρ ω}, d.reply.itemCount + candidates.length ≤ shellFileViewReplyCapacity →
    (∀ candidate ∈ candidates, Presentable candidate) →
    wp (each (viewCandidate service operation capability requested prefilter) candidates)
      (fun _ t => t.system = d.system ∧ Refilled d.reply t.reply ∧ ∃ shown,
        Presents service capability (candidates.filter fun candidate => !filteredOut operation requested prefilter candidate) shown ∧
        replyEntries t.reply = replyEntries d.reply ++ shown ∧ t.reply.itemCount = d.reply.itemCount + shown.length) (fun _ _ => False) d
  | [], d, _, _ => by
    rw [wp_each_nil]
    exact ⟨rfl, rfl, [], .nil, (List.append_nil _).symm, rfl⟩
  | candidate :: rest, d, hroom, h => by
    obtain ⟨hcandidate, hrest⟩ := List.forall_mem_cons.mp h
    rw [List.length_cons] at hroom
    rw [wp_each_cons]
    unfold viewCandidate
    rw [hcandidate.validate, ofExcept_ok_bind]
    by_cases hout : filteredOut operation requested prefilter candidate = true
    · rw [if_pos hout, wp_pure]
      refine wp_mono (viewCandidates_spec hready (by omega) hrest) (fun _ t ht => ?_) fun _ _ hx => hx
      rwa [List.filter_cons_of_neg (by simpa using hout)]
    · rw [if_neg hout]
      obtain ⟨entry, hentry⟩ := hcandidate.safe hready capability
      rw [hentry]
      dsimp only
      rw [wp_modify]
      refine wp_mono (viewCandidates_spec hready (by dsimp only; omega) hrest) (fun _ t ⟨hsystem, hrefilled, shown, hshown, hentries, hcount⟩ => ?_)
        fun _ _ hx => hx
      dsimp only at hsystem hrefilled hentries hcount
      refine ⟨hsystem, hrefilled, entry :: shown, ?_, ?_, ?_⟩
      · rw [List.filter_cons_of_pos (by simpa using hout)]
        exact .cons hentry hshown
      · rw [hentries, replyEntries_place (by omega), List.append_assoc]
        rfl
      · rw [hcount, List.length_cons]
        omega

section Dispatch
variable {s : FileService} {d : Nat} {pages : List (Nat × List DirectoryEntry)} {entries : List ListedEntry} {m : μ}
  {operation : ShellOperation} {process application requested : Nat}

theorem listed_presentable (h : Scanned s d pages) (he : Listed s (recordsOf pages) entries) : ∀ listed ∈ entries, Presentable listed := by
  intro listed hlisted
  obtain ⟨r, hr, hentry⟩ : ∃ r ∈ recordsOf pages, listEntry s r.1 r.2 = .ok listed := by
    obtain ⟨i, hi, rfl⟩ := List.getElem_of_mem hlisted
    have hlt : i < (recordsOf pages).length := by
      rw [he.length_eq]
      exact hi
    exact ⟨_, List.getElem_mem hlt, List.Forall₂.get he hlt hi⟩
  obtain ⟨-, -, -, -, hk⟩ := mem_recordsOf.mp hr
  exact listEntry_presentable (h.slotEntry hr) hk hentry

theorem fileViewDispatch_spec (request : FileViewRequest) (hm : s.Mounted) (hi : s.initialized = true) (h : Scanned s d pages)
    (he : Listed s (recordsOf pages) entries) (hready : Ready service) (hprocess : process ≠ 0) (happlication : application ≠ 0)
    (hview : Shell.shellOperationIsFileView operation.number = true) (hdirectory : request.directoryHandle = d)
    (hpos : 0 < request.maximumItems) (hle : request.maximumItems ≤ shellFileViewReplyCapacity)
    (htype : operation ≠ .directoryView → service.typeCatalog.typeCatalogResolveIdentity request.typeIconCapability = .ok requested)
    {x : Dispatching μ ρ FileService} (hroot : x.system.registry.root = some m) (hx : Quiet s x.system.world) :
    wp (fileViewDispatch service (some enumerate) process application operation.number request)
      (fun _ t => Refilled { x.reply with continuation := (pageOf entries request.continuation request.maximumItems).2 } t.reply ∧
        Presents service request.typeIconCapability
          ((pageOf entries request.continuation request.maximumItems).1.filter (kept operation requested)) (replyEntries t.reply) ∧
        t.reply.itemCount = (replyEntries t.reply).length ∧ Quiet s t.system.world ∧ x.system.Steady m t.system)
      (fun e t => Failing s d x.system m e ∧ t.reply = x.reply ∧ Quiet s t.system.world ∧ x.system.Steady m t.system) x := by
  have hargs : ¬(process = 0 ∨ application = 0 ∨ Shell.shellOperationIsFileView operation.number = false ∨
      request.maximumItems = 0 ∨ shellFileViewReplyCapacity < request.maximumItems) := by
    rintro (hx | hx | hx | hx | hx)
    · exact hprocess hx
    · exact happlication hx
    · rw [hview] at hx
      cases hx
    · omega
    · omega
  -- The type of a directory view and its fingerprint are not looked at.
  obtain ⟨wanted, prefilter, hresolved, hkept⟩ : ∃ wanted prefilter,
      requestedType service operation.number request.typeIconCapability = .ok wanted ∧
      (if operation.number = directoryView.number then 0 else typeIdentityPrefilter wanted) = prefilter ∧
      ∀ candidate, (!filteredOut operation.number wanted prefilter candidate) = kept operation requested candidate := by
    by_cases hdirectoryView : operation = .directoryView
    · subst hdirectoryView
      refine ⟨0, 0, if_pos rfl, if_pos rfl, fun candidate => ?_⟩
      unfold kept filteredOut
      simp [number]
    · have hnumber : operation.number ≠ directoryView.number := by
        cases operation <;> first | exact absurd rfl hdirectoryView | decide
      refine ⟨requested, typeIdentityPrefilter requested, ?_, if_neg hnumber, fun candidate => rfl⟩
      exact (if_neg hnumber).trans (htype hdirectoryView)
  unfold fileViewDispatch
  rw [failIf_pass hargs, hresolved, ofExcept_ok_bind]
  dsimp only
  rw [hkept.1, wp_bind, wp_get, hroot]
  dsimp only
  rw [wp_bind]
  unfold onSystem
  rw [wp_zoom, hdirectory]
  refine wp_mono (h.vfsPage hm hi he hpos hx) (fun r y ⟨hr, hy, hsteady⟩ => ?_) fun e y ⟨he, hy, hsteady⟩ => ?_
  · subst hr
    rw [wp_bind, wp_modify]
    have hpresentable : ∀ candidate ∈ (pageOf entries request.continuation request.maximumItems).1, Presentable candidate :=
      fun candidate hcandidate => listed_presentable h he candidate (List.mem_of_mem_drop (List.mem_of_mem_take hcandidate))
    have hlength : (pageOf entries request.continuation request.maximumItems).1.length ≤ request.maximumItems := pageOf_length_le
    refine wp_mono (viewCandidates_spec hready (by dsimp only; omega) hpresentable)
      (fun _ t ⟨hsystem, hrefilled, shown, hshown, hentries, hcount⟩ => ?_) fun _ _ hx => hx.elim
    dsimp only at hsystem hrefilled hentries hcount
    have hnone : replyEntries { x.reply with itemCount := 0, continuation := (pageOf entries request.continuation request.maximumItems).2 } = [] :=
      List.take_zero
    rw [hnone, List.nil_append] at hentries
    refine ⟨hrefilled, ?_, ?_, ?_, ?_⟩
    · rw [hentries]
      rwa [funext hkept.2] at hshown
    · rw [hentries, hcount, Nat.zero_add]
    · rwa [hsystem]
    · rwa [hsystem]
  · exact ⟨he, rfl, hy, hsteady⟩

/-- The request for a page of a view. -/
def viewRequest (directory capability continuation items : Nat) : FileViewRequest :=
  { size := fileViewRequestSize
    version := shellProtocolVersion
    flags := 0
    directoryHandle := directory
    typeIconCapability := capability
    continuation := continuation
    maximumItems := items
    reserved16 := 0
    reserved32 := 0 }

/-- Ask for a page of a view, with the reply of the page before. -/
def viewPage (service : FileViewService) (enumerate : Option (EnumerateCallback ω)) (process application : Nat) (operation : ShellOperation)
    (directory capability continuation items : Nat) : Program IosError (Dispatching μ ρ ω) (List DisplaySafeEntry × Nat) := do
  fileViewDispatch service enumerate process application operation.number (viewRequest directory capability continuation items)
  let t ← get
  pure (replyEntries t.reply, t.reply.continuation)

theorem presents_append {capability : Nat} {l l' : List ListedEntry} {shown shown' : List DisplaySafeEntry}
    (h : Presents service capability l shown) (h' : Presents service capability l' shown') :
    Presents service capability (l ++ l') (shown ++ shown') :=
  List.rel_append h h'

theorem followViews_spec (hm : s.Mounted) (hi : s.initialized = true) (h : Scanned s d pages)
    (he : Listed s (recordsOf pages) entries) (hready : Ready service) (hprocess : process ≠ 0) (happlication : application ≠ 0)
    (hview : Shell.shellOperationIsFileView operation.number = true) {capability : Nat}
    (htype : operation ≠ .directoryView → service.typeCatalog.typeCatalogResolveIdentity capability = .ok requested)
    {capacities : Nat → Nat} {turns : Nat} (hcapacities : ∀ turn, 1 ≤ capacities turn ∧ capacities turn ≤ shellFileViewReplyCapacity)
    (hturns : entries.length < turns) {x : Dispatching μ ρ FileService} (hroot : x.system.registry.root = some m)
    (hx : x.system.world = s) :
    wp (followPages (viewPage service (some enumerate) process application operation d capability) capacities turns 0 0)
      (fun r _ => ∃ shown, r = some shown ∧ Presents service capability (entries.filter (kept operation requested)) shown)
      (fun e _ => Failing s d x.system m e) x := by
  have hrun := @followPages_shown _ _ _ entries _ (viewPage service (some enumerate) process application operation d capability) capacities
    (fun y : Dispatching μ ρ FileService => Quiet s y.system.world ∧ x.system.Steady m y.system)
    (fun e _ => Failing s d x.system m e)
    (fun l shown => Presents service capability (l.filter (kept operation requested)) shown)
    (fun l shown l' shown' hl hl' => by rw [List.filter_append]; exact presents_append hl hl') (fun turn => (hcapacities turn).1)
    ?_ turns 0 0 x ⟨by rw [hx]; exact Quiet.refl hm, rfl, fun _ => rfl⟩ (by omega)
  · exact wp_mono hrun (fun r t hr => hr.1) fun _ _ hx => hx
  · rintro turn continuation y ⟨hquiet, hsteady⟩
    obtain ⟨hpos, hle⟩ := hcapacities turn
    have hrooted : y.system.registry.root = some m := by rw [hsteady.1, hroot]
    unfold viewPage
    rw [wp_bind]
    refine wp_mono (fileViewDispatch_spec (viewRequest d capability continuation (capacities turn)) hm hi h he hready hprocess
      happlication hview rfl hpos hle htype hrooted hquiet)
      (fun _ t ⟨hrefilled, hshown, _, ht, hsteady'⟩ => ?_) fun e t ⟨herror, _⟩ => herror.steady hsteady
    rw [wp_bind, wp_get, wp_pure]
    refine ⟨⟨hshown, ?_⟩, ht, hsteady.trans hsteady'⟩
    rw [hrefilled]
    rfl

/-- The pages of a view give all that the view is for, each entry once and in order, exactly when it is not one of the type of the
    files without an extension, or the directory has no such files. -/
theorem typed_views_exact_iff (hm : s.Mounted) (hi : s.initialized = true) (h : Scanned s d pages) :
    ∃ entries, Listed s (recordsOf pages) entries ∧
      ∀ (service : FileViewService) (operation : ShellOperation) (process application capability requested : Nat)
        (capacities : Nat → Nat) (turns : Nat) (x : Dispatching μ ρ FileService) (m : μ),
        Ready service → process ≠ 0 → application ≠ 0 → Shell.shellOperationIsFileView operation.number = true →
        (operation ≠ .directoryView → service.typeCatalog.typeCatalogResolveIdentity capability = .ok requested) →
        (∀ turn, 1 ≤ capacities turn ∧ capacities turn ≤ shellFileViewReplyCapacity) → (recordsOf pages).length < turns →
        x.system.registry.root = some m → x.system.world = s →
        wp (followPages (viewPage service (some enumerate) process application operation d capability) capacities turns 0 0)
          (fun r _ => ∃ shown, r = some shown ∧
            (Presents service capability (entries.filter (wanted operation requested)) shown ↔ operation = .directoryView ∨ requested ≠ 1 ∨
              ∀ listed ∈ entries, listed.kind = .regularFile → listed.internalTypeIdentity ≠ 1))
          (fun e _ => Failing s d x.system m e) x := by
  obtain ⟨entries, he⟩ := h.listed
  refine ⟨entries, he, ?_⟩
  intro service operation process application capability requested capacities turns x m hready hprocess happlication hview htype hcapacities
    hturns hroot hx
  rw [he.length_eq] at hturns
  refine wp_mono (followViews_spec hm hi h he hready hprocess happlication hview htype hcapacities hturns hroot hx)
    (fun r t ⟨shown, hr, hshown⟩ => ⟨shown, hr, ?_⟩) fun _ _ hfail => hfail
  exact presents_wanted_iff (listed_presentable h he) hview hshown

end Dispatch

def plainFile : Primary := { name := padName [ascii 'A'] [], attributes := attributeRegular, firstCluster := 0, fileSize := 0 }

def plainCatalog : TypeCatalog := ⟨some ⟨1, 1, .text⟩ :: List.replicate 63 none, 1, 1⟩

def plainService : FileViewService := ⟨plainCatalog, 1⟩

theorem plainService_ready : Ready plainService := ⟨Nat.one_ne_zero, Nat.one_ne_zero⟩

theorem plainService_resolves : plainService.typeCatalog.typeCatalogResolveIdentity (encodeCapability 0 1) = .ok 1 := by decide

def plainEntries : List DirectoryEntry := [⟨plainFile, 1, some 0, .regular⟩]

theorem exists_plain : ∃ s : FileService, s.Mounted ∧ s.initialized = true ∧ Scanned s 4 [(4, plainEntries)] ∧ s.Room 1 := by
  obtain ⟨s, hs, hi, hroom, -, hscanned, -⟩ := @exists_chained (fun c => if c = 4 then pairCluster plainFile else Bytes.zero) [] plainEntries
    (filled_empty.scans.trans rfl) ((filled_pair ⟨by decide, by decide, rfl⟩).scans.trans rfl)
  exact ⟨s, hs.mounted, hi, hscanned, hroom⟩

def servingSystem (s : FileService) : VfsSystem (Fin 1) Unit FileService where
  registry := ⟨[0], some 0, 2⟩
  mounts _ := ⟨some [], true, true, some (), none, .rw, none, none, 0, 1, .active, true⟩
  objects _ := ⟨⟨rootCluster, .directory⟩, 0⟩
  world := s

theorem servingSystem_serving (s : FileService) : (servingSystem s).Serving 0 :=
  ⟨rfl, rfl, show (0 : Nat) ≠ 2 ^ 32 - 1 by decide, (), rfl, show (0 : Nat) < 2 ^ 32 - 1 by decide⟩

def plainView (s : FileService) : Except IosError (Option (List DisplaySafeEntry)) :=
  (followPages (viewPage plainService (some FileService.enumerate) 1 1 .typeView 4 (encodeCapability 0 1)) (fun _ => 4) 2 0 0
    ⟨FileViewReply.zero, servingSystem s⟩).1

theorem plain_listed {s : FileService} {entries : List ListedEntry} (he : Listed s (recordsOf [(4, plainEntries)]) entries) :
    ∃ listed ∈ entries, listed.kind = .regularFile ∧ listed.internalTypeIdentity = 1 := by
  rcases he with - | ⟨hlisted, -⟩
  cases hlisted
  exact ⟨_, List.mem_cons_self, rfl, rfl⟩

theorem plain_not_exact {s : FileService} {entries : List ListedEntry} (he : Listed s (recordsOf [(4, plainEntries)]) entries) :
    ¬(typeView = .directoryView ∨ 1 ≠ 1 ∨
      ∀ listed ∈ entries, listed.kind = .regularFile → listed.internalTypeIdentity ≠ 1) := by
  obtain ⟨listed, hlisted, hkind, hidentity⟩ := plain_listed he
  rintro (hoperation | hone | hnone)
  · cases hoperation
  · exact hone rfl
  · exact hnone listed hlisted hkind hidentity

theorem plain_not_failing {s : FileService} {e : IosError} (hroom : s.Room 1) : ¬Failing s 4 (servingSystem s) 0 e := by
  rintro (⟨hserving, -⟩ | ⟨-, hfull⟩)
  · exact hserving (servingSystem_serving s)
  · exact hfull hroom

theorem typed_views_exact_iff_plain : ∃ (s : FileService) (entries : List ListedEntry) (shown : List DisplaySafeEntry),
    Listed s (recordsOf [(4, plainEntries)]) entries ∧ plainView s = .ok (some shown) ∧
    ¬Presents plainService (encodeCapability 0 1) (entries.filter (wanted .typeView 1)) shown := by
  obtain ⟨s, hm, hi, hscanned, hroom⟩ := exists_plain
  obtain ⟨entries, he, hviews⟩ := @typed_views_exact_iff (Fin 1) Unit _ _ s 4 _ hm hi hscanned
  have hview := hviews plainService .typeView 1 1 (encodeCapability 0 1) 1 (fun _ => 4) 2 ⟨FileViewReply.zero, servingSystem s⟩ 0
    plainService_ready Nat.one_ne_zero Nat.one_ne_zero (by decide) (fun _ => plainService_resolves) (fun _ => by decide) (by decide) rfl rfl
  rcases wp_cases hview with ⟨_, t, hrun, shown, rfl, hiff⟩ | ⟨_, _, -, hfails⟩
  swap
  · exact absurd hfails (plain_not_failing hroom)
  · exact ⟨s, entries, shown, he, congrArg Prod.fst hrun, fun hshows => plain_not_exact he (hiff.mp hshows)⟩

/-- The file is not in the view of its type. -/
theorem typed_views_not_exact : ¬∀ (s : FileService) (d : Nat) (pages : List (Nat × List DirectoryEntry)) (entries : List ListedEntry)
    (service : FileViewService) (operation : ShellOperation) (process application capability requested : Nat)
    (capacities : Nat → Nat) (turns : Nat) (x : Dispatching (Fin 1) Unit FileService) (m : Fin 1) (shown : List DisplaySafeEntry),
    s.Mounted → s.initialized = true → Scanned s d pages → Listed s (recordsOf pages) entries → Ready service → process ≠ 0 →
    application ≠ 0 → Shell.shellOperationIsFileView operation.number = true →
    (operation ≠ .directoryView → service.typeCatalog.typeCatalogResolveIdentity capability = .ok requested) →
    (∀ turn, 1 ≤ capacities turn ∧ capacities turn ≤ shellFileViewReplyCapacity) → (recordsOf pages).length < turns →
    x.system.registry.root = some m → x.system.world = s →
    (followPages (viewPage service (some enumerate) process application operation d capability) capacities turns 0 0 x).1 = .ok (some shown) →
    Presents service capability (entries.filter (wanted operation requested)) shown := by
  intro hclaim
  obtain ⟨s, hm, hi, hscanned, hroom⟩ := exists_plain
  obtain ⟨entries, he⟩ := hscanned.listed
  have hview := @followViews_spec (Fin 1) Unit _ _ plainService s 4 _ entries 0 .typeView 1 1 1 hm hi hscanned he plainService_ready
    Nat.one_ne_zero Nat.one_ne_zero (by decide) (encodeCapability 0 1) (fun _ => plainService_resolves) (fun _ => 4) 2
    (fun _ => by decide) (by rw [← he.length_eq]; decide) ⟨FileViewReply.zero, servingSystem s⟩ rfl rfl
  rcases wp_cases hview with ⟨_, t, hrun, shown, rfl, hshown⟩ | ⟨_, _, -, hfails⟩
  swap
  · exact absurd hfails (plain_not_failing hroom)
  · have hshows := hclaim s 4 _ entries plainService .typeView 1 1 (encodeCapability 0 1) 1 (fun _ => 4) 2
      ⟨FileViewReply.zero, servingSystem s⟩ 0 shown hm hi hscanned he plainService_ready Nat.one_ne_zero Nat.one_ne_zero (by decide)
      (fun _ => plainService_resolves) (fun _ => by decide) (by decide) rfl rfl (congrArg Prod.fst hrun)
    exact plain_not_exact he ((presents_wanted_iff (listed_presentable hscanned he) (by decide) hshown).mp hshows)

end FileView
end InferenceOS
