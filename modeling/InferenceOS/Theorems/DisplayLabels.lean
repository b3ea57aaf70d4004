import InferenceOS.Lib.Labels
import InferenceOS.Shell.DisplaySafe
import Mathlib.Data.List.Basic
import Mathlib.Data.List.GetD

/-! The labels of display-safe entries: what the disambiguation of a list gives, and when its labels are distinct. -/

namespace InferenceOS
open Program Labels DisplaySafeEntry
namespace DisplaySafe

theorem digit_toNat {d : Nat} (h : d < 10) : (ascii '0' + UInt8.ofNat d).toNat = 48 + d := by
  rw [UInt8.toNat_add, UInt8.toNat_ofNat', show (ascii '0').toNat = 48 from rfl]
  omega

theorem mem_reversedDigits {rank : Nat} : ∀ b ∈ reversedDigits rank, 48 ≤ b.toNat ∧ b.toNat ≤ 57 := by
  induction rank using reversedDigits.induct with
  | case1 rank ih =>
    intro b hb
    rw [reversedDigits] at hb
    rcases List.mem_cons.mp hb with rfl | hb
    · rw [digit_toNat (Nat.mod_lt _ (by omega))]
      omega
    · split at hb
      · exact absurd hb List.not_mem_nil
      · exact ih ‹_› b hb

theorem reversedDigits_injective : ∀ {r s : Nat}, reversedDigits r = reversedDigits s → r = s := by
  intro r
  induction r using reversedDigits.induct with
  | case1 r ih =>
    intro s h
    rw [reversedDigits.eq_def r, reversedDigits.eq_def s] at h
    obtain ⟨hdigit, hrest⟩ := List.cons.inj h
    have hmod := congrArg UInt8.toNat hdigit
    rw [digit_toNat (Nat.mod_lt _ (by omega)), digit_toNat (Nat.mod_lt _ (by omega))] at hmod
    have hne : ∀ t, reversedDigits t ≠ [] := fun t => by
      rw [reversedDigits]
      exact List.cons_ne_nil _ _
    split at hrest
    · split at hrest
      · omega
      · exact absurd hrest.symm (hne _)
    · rename_i hr
      split at hrest
      · exact absurd hrest (hne _)
      · have hdiv := ih hr hrest
        omega

theorem length_reversedDigits (rank : Nat) : (reversedDigits rank).length = decimalDigits rank := by
  induction rank using reversedDigits.induct with
  | case1 rank ih =>
    rw [reversedDigits, decimalDigits]
    by_cases hsmall : rank / 10 = 0
    · rw [if_pos hsmall, if_pos (by omega)]
      rfl
    · rw [if_neg hsmall, if_neg (by omega), List.length_cons, ih hsmall]

theorem length_rankSuffix (rank : Nat) : (rankSuffix rank).length = decimalDigits rank + 3 := by
  rw [rankSuffix, List.length_append, List.length_append, List.length_reverse, length_reversedDigits]
  simp
  omega

theorem append_cons_inj {α : Type} {a : α} {z z' : List α} : ∀ {x x' : List α}, a ∉ x → a ∉ x' → x ++ a :: z = x' ++ a :: z' →
    x = x' ∧ z = z'
  | [], [], _, _, h => ⟨rfl, (List.cons.inj h).2⟩
  | [], b :: x', _, hx', h => absurd (List.mem_cons.mpr (Or.inl (List.cons.inj h).1)) hx'
  | b :: x, [], hx, _, h => absurd (List.mem_cons.mpr (Or.inl (List.cons.inj h).1.symm)) hx
  | b :: x, b' :: x', hx, hx', h => by
    obtain ⟨rfl, hrest⟩ := List.cons.inj h
    obtain ⟨rfl, hz⟩ := append_cons_inj (fun hm => hx (List.mem_cons_of_mem b hm)) (fun hm => hx' (List.mem_cons_of_mem b hm)) hrest
    exact ⟨rfl, hz⟩

theorem append_rankSuffix_injective {r s : Nat} {n m : Text} (h : n ++ rankSuffix r = m ++ rankSuffix s) : r = s ∧ n = m := by
  have hmem : ∀ t, ascii '(' ∉ ascii ')' :: reversedDigits t := by
    intro t ht
    rcases List.mem_cons.mp ht with ht | ht
    · exact absurd ht (by decide)
    · exact absurd (mem_reversedDigits _ ht).1 (by decide)
  have hreversed (t : Nat) (l : Text) : (l ++ rankSuffix t).reverse =
      (ascii ')' :: reversedDigits t) ++ ascii '(' :: ascii ' ' :: l.reverse := by
    rw [rankSuffix]
    simp
  have heq := congrArg List.reverse h
  rw [hreversed, hreversed] at heq
  obtain ⟨hdigits, hrest⟩ := append_cons_inj (hmem r) (hmem s) heq
  exact ⟨reversedDigits_injective (List.cons.inj hdigits).2, List.reverse_injective (List.cons.inj hrest).2⟩

theorem rankSuffix_bytes {rank : Nat} : ∀ b ∈ rankSuffix rank, b ≠ 0 ∧ refusedNameByte b = false := by
  have hdigit : ∀ b : UInt8, 48 ≤ b.toNat ∧ b.toNat ≤ 57 → b ≠ 0 ∧ refusedNameByte b = false := by
    intro b hb
    have hne (c : UInt8) (hc : c.toNat < 48 ∨ 57 < c.toNat) : b ≠ c := by
      rintro rfl
      omega
    have hlow : ¬b < 0x20 := by
      rw [UInt8.lt_iff_toNat_lt]
      exact not_lt.mpr (le_trans (by decide) hb.1)
    have hhigh : ¬0x7e < b := by
      rw [UInt8.lt_iff_toNat_lt]
      exact not_lt.mpr (le_trans hb.2 (by decide))
    have hdot := hne (ascii '.') (by decide)
    have hslash := hne (ascii '/') (by decide)
    have hback := hne (ascii '\\') (by decide)
    refine ⟨hne 0 (by decide), ?_⟩
    simp [refusedNameByte, hlow, hhigh, hdot, hslash, hback]
  intro b hb
  simp only [rankSuffix, List.mem_append, List.mem_cons, List.not_mem_nil, or_false, List.mem_reverse] at hb
  rcases hb with ((rfl | rfl) | hb) | rfl
  · decide
  · decide
  · exact hdigit b (mem_reversedDigits b hb)
  · decide

theorem baseNameFrom_ok {name : Nat → UInt8} {length : Nat} : ∀ {left count : Nat}, baseNameFrom name count left = .ok length →
    count ≤ length ∧ length ≤ count + left ∧ (∀ i, count ≤ i → i < length → name i ≠ 0 ∧ refusedNameByte (name i) = false) ∧
      (length < count + left → name length = 0)
  | 0, count, h => by
    cases h
    exact ⟨le_rfl, le_rfl, fun i hi hlt => absurd hlt (not_lt.mpr hi), fun hlt => absurd hlt (by omega)⟩
  | left + 1, count, h => by
    rw [baseNameFrom] at h
    split at h
    · rename_i hz
      cases h
      exact ⟨le_rfl, by omega, fun i hi hlt => absurd hlt (not_lt.mpr hi), fun _ => hz⟩
    rename_i hz
    split at h
    · cases h
    rename_i hr
    obtain ⟨hle, hlt, hbytes, hend⟩ := baseNameFrom_ok h
    refine ⟨by omega, by omega, fun i hi hil => ?_, fun hlt => hend (by omega)⟩
    rcases Nat.eq_or_lt_of_le hi with rfl | hi
    · exact ⟨hz, by simpa using hr⟩
    · exact hbytes i hi hil

theorem baseNameFrom_eq {name : Nat → UInt8} {length : Nat} : ∀ {left count : Nat}, count ≤ length → length < count + left →
    (∀ i, count ≤ i → i < length → name i ≠ 0 ∧ refusedNameByte (name i) = false) → name length = 0 →
    baseNameFrom name count left = .ok length
  | 0, count, hle, hlt, _, _ => absurd hlt (by omega)
  | left + 1, count, hle, hlt, hbytes, hend => by
    rw [baseNameFrom]
    rcases Nat.eq_or_lt_of_le hle with rfl | hle
    · rw [if_pos hend]
    · obtain ⟨hz, hr⟩ := hbytes count le_rfl hle
      rw [if_neg hz, if_neg (by simp [hr])]
      exact baseNameFrom_eq hle (by omega) (fun i hi => hbytes i (by omega)) hend

theorem validateBaseName_iff {name : Nat → UInt8} {length : Nat} : validateBaseName name = .ok length ↔
    0 < length ∧ length < displaySafeNameCapacity ∧ (∀ i < length, name i ≠ 0 ∧ refusedNameByte (name i) = false) ∧
      name length = 0 := by
  constructor
  · intro h
    obtain ⟨count, hcount, h⟩ := of_bind_ok h
    split at h
    · cases h
    rename_i hlen
    cases h
    rw [not_or] at hlen
    obtain ⟨-, hle, hbytes, hend⟩ := baseNameFrom_ok hcount
    have hlt : length < displaySafeNameCapacity := by omega
    exact ⟨by omega, hlt, fun i hi => hbytes i (Nat.zero_le i) hi, hend (by omega)⟩
  · rintro ⟨hpos, hlt, hbytes, hend⟩
    have hrun := baseNameFrom_eq (Nat.zero_le length) (show length < 0 + displaySafeNameCapacity by omega) (fun i _ => hbytes i) hend
    unfold validateBaseName
    rw [hrun]
    exact if_neg (by omega)

def Formed (entry : DisplaySafeEntry) : Prop :=
  ¬(entry.size ≠ displaySafeEntrySize ∨ entry.version ≠ displaySafeEntryVersion ∨ entry.objectHandle = 0 ∨
      validKind entry.objectKind = false ∨ foreignAttributes entry.genericAttributes = true ∨
      foreignOperations entry.allowedOperations = true) ∧
    ¬(entry.objectKind = displaySafeRegularFile ∧ entry.typeIconCapability = 0) ∧ entry.reserved = Bytes.zero

theorem validateEntry_iff {entry : DisplaySafeEntry} : validateEntry entry = .ok () ↔
    Formed entry ∧ validateBaseName entry.displayName.byte = .ok entry.displayNameLength := by
  unfold validateEntry
  constructor
  · intro h
    split at h
    · cases h
    rename_i hfields
    split at h
    · cases h
    rename_i hfile
    split at h
    · cases h
    rename_i hreserved
    rw [not_not] at hreserved
    split at h
    · cases h
    rename_i length hlength
    split at h
    · cases h
    rename_i heq
    rw [not_not] at heq
    subst heq
    exact ⟨⟨hfields, hfile, hreserved⟩, hlength⟩
  · rintro ⟨⟨hfields, hfile, hreserved⟩, hlength⟩
    rw [if_neg hfields, if_neg hfile, if_neg (not_not.mpr hreserved), hlength]
    exact if_neg (not_not.mpr rfl)

theorem displaySafeEntryConvert_ok {source : DisplaySafeSourceEntry} {entry : DisplaySafeEntry}
    (h : displaySafeEntryConvert source = .ok entry) :
    ∃ length, validateBaseName source.baseName = .ok length ∧ entry = convertedEntry source length := by
  unfold displaySafeEntryConvert at h
  split at h
  · cases h
  · obtain ⟨length, hlength, h⟩ := of_bind_ok h
    exact ⟨length, hlength, (Except.ok.inj h).symm⟩

section Names
variable {entry other : DisplaySafeEntry}

theorem length_lt (h : validateEntry entry = .ok ()) : entry.displayNameLength < displaySafeNameCapacity :=
  (validateBaseName_iff.mp (validateEntry_iff.mp h).2).2.1

theorem getElem?_nameOf {i : Nat} (hlt : entry.displayNameLength ≤ displaySafeNameCapacity) :
    (nameOf entry)[i]? = if i < entry.displayNameLength then some (entry.displayName.byte i) else none := by
  rw [nameOf, List.getElem?_take, Bytes.getElem?_toList]
  split
  · rw [if_pos (by omega)]
  · rfl

theorem length_nameOf : (nameOf entry).length = min entry.displayNameLength displaySafeNameCapacity := by
  rw [nameOf, List.length_take, Bytes.toList, List.length_ofFn]

theorem sameName_iff (hlt : entry.displayNameLength < displaySafeNameCapacity) :
    sameName other entry = true ↔ nameOf other = nameOf entry := by
  simp only [sameName, decide_eq_true_eq]
  constructor
  · rintro ⟨hlen, hbytes⟩
    refine List.ext_getElem? fun i => ?_
    rw [getElem?_nameOf (by omega), getElem?_nameOf (by omega), hlen]
    split
    · rename_i hi
      rw [hbytes i hi]
    · rfl
  · intro h
    have hlen := congrArg List.length h
    rw [length_nameOf, length_nameOf] at hlen
    have hsame : other.displayNameLength = entry.displayNameLength := by omega
    refine ⟨hsame, fun i hi => ?_⟩
    have hget : (nameOf other)[i]? = (nameOf entry)[i]? := by rw [h]
    rw [getElem?_nameOf (by omega), getElem?_nameOf (by omega), if_pos (by omega), if_pos hi] at hget
    exact Option.some.inj hget

theorem appendRank_valid {rank : Nat} (h : validateEntry entry = .ok ())
    (hroom : entry.displayNameLength + decimalDigits rank + 3 < displaySafeNameCapacity) :
    validateEntry (appendRank entry rank) = .ok () ∧ nameOf (appendRank entry rank) = nameOf entry ++ rankSuffix rank := by
  have hcapacity : displaySafeNameCapacity = 64 := rfl
  have hsuffix := length_rankSuffix rank
  obtain ⟨hformed, hname⟩ := validateEntry_iff.mp h
  obtain ⟨hpos, hlt, hbytes, hend⟩ := validateBaseName_iff.mp hname
  have hlen : (appendRank entry rank).displayNameLength = entry.displayNameLength + (rankSuffix rank).length :=
    Nat.mod_eq_of_lt (by omega)
  have hbyte : ∀ i, i ≤ entry.displayNameLength + (rankSuffix rank).length → (appendRank entry rank).displayName.byte i =
      if i < entry.displayNameLength then entry.displayName.byte i else (rankSuffix rank).getD (i - entry.displayNameLength) 0 := by
    intro i hi
    unfold appendRank
    split
    · rename_i hin
      rw [Bytes.byte_put_of_not_mem (Or.inl hin)]
    · rename_i hout
      rw [Bytes.byte_put (by omega), if_pos (by omega)]
      rw [Bytes.byte_of_lt (by omega)]
      unfold Bytes.ofList
      dsimp only
      by_cases hin : i - entry.displayNameLength < (rankSuffix rank).length
      · rw [List.getD_append _ _ _ _ hin]
      · have hlast : i - entry.displayNameLength = (rankSuffix rank).length := by omega
        rw [hlast, List.getD_append_right _ _ _ _ le_rfl, Nat.sub_self, List.getD_eq_default _ _ le_rfl]
        rfl
  refine ⟨validateEntry_iff.mpr ⟨hformed, validateBaseName_iff.mpr ⟨?_, ?_, fun i hi => ?_, ?_⟩⟩, ?_⟩
  · omega
  · omega
  · rw [hbyte i (by omega)]
    split
    · exact hbytes i ‹_›
    · rw [List.getD_eq_getElem _ _ (by omega)]
      exact rankSuffix_bytes _ (List.getElem_mem _)
  · rw [hlen, hbyte _ le_rfl, if_neg (by omega), List.getD_eq_default _ _ (by omega)]
  · refine List.ext_getElem? fun i => ?_
    rw [getElem?_nameOf (by omega), hlen, List.getElem?_append, length_nameOf, getElem?_nameOf (by omega)]
    have hmin : min entry.displayNameLength displaySafeNameCapacity = entry.displayNameLength := by omega
    rw [hmin]
    by_cases hi : i < entry.displayNameLength
    · rw [if_pos (show i < entry.displayNameLength + (rankSuffix rank).length by omega), if_pos hi, if_pos hi, hbyte i (by omega),
        if_pos hi]
    · rw [if_neg hi]
      by_cases hin : i < entry.displayNameLength + (rankSuffix rank).length
      · rw [if_pos hin, hbyte i (by omega), if_neg hi, List.getD_eq_getElem _ _ (by omega), List.getElem?_eq_getElem (by omega)]
      · rw [if_neg hin, List.getElem?_eq_none (by omega)]

end Names

def itemsOf (entries : List DisplaySafeEntry) : List (Nat × Text) := entries.map fun entry => (entry.objectHandle, nameOf entry)

def rankIn (entries : List DisplaySafeEntry) (entry : DisplaySafeEntry) : Nat :=
  rank (itemsOf entries) entry.objectHandle (nameOf entry)

def mark (rank : Nat) (name : Text) : Text := name ++ rankSuffix rank

section Ranks
variable {entry : DisplaySafeEntry} {entries : List DisplaySafeEntry}

theorem rankAmong_iff (hlt : entry.displayNameLength < displaySafeNameCapacity) {result : Nat} : ∀ {others : List DisplaySafeEntry} {k : Nat},
    rankAmong entry k others = .ok result ↔ (∀ other ∈ others, other.objectHandle ≠ entry.objectHandle) ∧
      result = k + (itemsOf others).countP fun item => item.2 = nameOf entry ∧ item.1 < entry.objectHandle
  | [], k => by
    rw [rankAmong, itemsOf, List.map_nil, List.countP_nil, Nat.add_zero]
    exact ⟨fun h => ⟨fun _ hm => absurd hm List.not_mem_nil, (Except.ok.inj h).symm⟩, fun h => by rw [h.2]⟩
  | other :: rest, k => by
    rw [rankAmong, List.forall_mem_cons, itemsOf, List.map_cons, List.countP_cons, ← itemsOf]
    by_cases hsame : other.objectHandle = entry.objectHandle
    · rw [if_pos hsame]
      exact ⟨fun h => (nomatch h), fun h => absurd hsame h.1.1⟩
    rw [if_neg hsame, and_iff_right hsame]
    by_cases hcount : sameName other entry = true ∧ other.objectHandle < entry.objectHandle
    · rw [if_pos (by simpa using hcount), rankAmong_iff hlt,
        if_pos (by simpa using ⟨(sameName_iff hlt).mp hcount.1, hcount.2⟩)]
      refine and_congr_right fun _ => ?_
      omega
    · rw [if_neg (by simpa using hcount), rankAmong_iff hlt, if_neg, Nat.add_zero]
      simp only [decide_eq_true_eq]
      exact fun hc => hcount ⟨(sameName_iff hlt).mpr hc.1, hc.2⟩

theorem rankIn_eq {before rest : List DisplaySafeEntry} : rankIn (before ++ entry :: rest) entry =
    1 + (itemsOf (before ++ rest)).countP fun item => item.2 = nameOf entry ∧ item.1 < entry.objectHandle := by
  rw [rankIn, rank, itemsOf, itemsOf, List.map_append, List.map_append, List.countP_append, List.countP_append, List.map_cons,
    List.countP_cons, if_neg (by simp)]
  omega

theorem ranksFrom_iff : ∀ {entries before : List DisplaySafeEntry} {ranks : List Nat}, ranksFrom before entries = .ok ranks ↔
    (∀ entry ∈ entries, validateEntry entry = .ok ()) ∧ (entries.map objectHandle).Nodup ∧
      (∀ entry ∈ entries, ∀ other ∈ before, other.objectHandle ≠ entry.objectHandle) ∧
      ranks = entries.map (rankIn (before ++ entries))
  | [], before, ranks => by
    rw [ranksFrom]
    refine ⟨fun h => ⟨fun _ hm => absurd hm List.not_mem_nil, List.nodup_nil, fun _ hm => absurd hm List.not_mem_nil,
      (Except.ok.inj h).symm⟩, fun h => by rw [h.2.2.2]; rfl⟩
  | entry :: rest, before, ranks => by
    have happend : before ++ entry :: rest = before ++ [entry] ++ rest := by simp
    rw [ranksFrom, List.map_cons, List.map_cons, List.nodup_cons, List.forall_mem_cons, List.forall_mem_cons]
    constructor
    · intro h
      obtain ⟨⟨⟩, hvalid, h⟩ := of_bind_ok h
      obtain ⟨rank, hrank, h⟩ := of_bind_ok h
      obtain ⟨others, hothers, h⟩ := of_bind_ok h
      cases h
      obtain ⟨hdistinct, hrank⟩ := (rankAmong_iff (length_lt hvalid)).mp hrank
      obtain ⟨hrest, hnodup, hbefore, rfl⟩ := ranksFrom_iff.mp hothers
      refine ⟨⟨hvalid, hrest⟩, ⟨fun hmem => ?_, hnodup⟩, ⟨fun other hother => ?_, fun other hother prior hprior => ?_⟩, ?_⟩
      · obtain ⟨other, hother, hhandle⟩ := List.mem_map.mp hmem
        exact hdistinct other (List.mem_append_right _ hother) hhandle
      · exact hdistinct other (List.mem_append_left _ hother)
      · exact hbefore other hother prior (List.mem_append_left _ hprior)
      · rw [rankIn_eq, ← hrank, happend]
    · rintro ⟨⟨hvalid, hrest⟩, ⟨hnew, hnodup⟩, ⟨hbefore, hothers⟩, rfl⟩
      have hrank : rankAmong entry 1 (before ++ rest) = .ok (rankIn (before ++ entry :: rest) entry) := by
        refine (rankAmong_iff (length_lt hvalid)).mpr ⟨List.forall_mem_append.mpr ⟨hbefore, fun other hother => ?_⟩, rankIn_eq⟩
        exact fun hhandle => hnew (List.mem_map.mpr ⟨other, hother, hhandle⟩)
      have hranks : ranksFrom (before ++ [entry]) rest = .ok (rest.map (rankIn (before ++ [entry] ++ rest))) := by
        refine ranksFrom_iff.mpr ⟨hrest, hnodup, fun other hother => List.forall_mem_append.mpr ⟨hothers other hother, ?_⟩, rfl⟩
        refine List.forall_mem_singleton.mpr fun hhandle => hnew (List.mem_map.mpr ⟨other, hother, hhandle.symm⟩)
      rw [hvalid, happend]
      dsimp only [bind, Except.bind]
      rw [hrank, hranks, happend]

def labelled (entries : List DisplaySafeEntry) (entry : DisplaySafeEntry) : DisplaySafeEntry := label entry (rankIn entries entry)

structure Separable (workspaceCount : Nat) (entries : List DisplaySafeEntry) : Prop where
  workspace : entries.length ≤ workspaceCount
  valid : ∀ entry ∈ entries, validateEntry entry = .ok ()
  handles : (entries.map objectHandle).Nodup
  room : ∀ entry ∈ entries, lacksSpace entry (rankIn entries entry) = false

theorem disambiguate_cases (workspaceCount : Nat) (entries : List DisplaySafeEntry) :
    (Separable workspaceCount entries ∧
      displaySafeEntriesDisambiguate workspaceCount entries = (.ok (), entries.map (labelled entries))) ∨
    (¬Separable workspaceCount entries ∧ ∃ status, displaySafeEntriesDisambiguate workspaceCount entries = (.error status, entries)) := by
  unfold displaySafeEntriesDisambiguate
  rw [bind_ok (show get entries = (.ok entries, entries) from rfl)]
  by_cases hworkspace : workspaceCount < entries.length
  · rw [failIf_bind hworkspace]
    exact Or.inr ⟨fun h => absurd h.workspace (not_le.mpr hworkspace), _, rfl⟩
  rw [failIf_pass hworkspace]
  rcases hranks : ranksFrom [] entries with status | ranks
  · refine Or.inr ⟨fun h => ?_, status, rfl⟩
    have hok := (@ranksFrom_iff _ [] _).mpr ⟨h.valid, h.handles, fun _ _ _ hm => absurd hm List.not_mem_nil, rfl⟩
    rw [hranks] at hok
    cases hok
  obtain ⟨hvalid, hnodup, -, rfl⟩ := ranksFrom_iff.mp hranks
  have hzip : entries.zip (entries.map (rankIn entries)) = entries.map fun entry => (entry, rankIn entries entry) := by
    have hpair := List.zip_map' (f := id) (g := rankIn entries) (l := entries)
    rwa [List.map_id] at hpair
  rw [ofExcept_ok_bind, List.nil_append, hzip]
  by_cases hroom : ((entries.map fun entry => (entry, rankIn entries entry)).any fun e => lacksSpace e.1 e.2) = true
  · rw [failIf_bind hroom]
    refine Or.inr ⟨fun h => ?_, _, rfl⟩
    obtain ⟨e, he, hlacks⟩ := List.any_eq_true.mp hroom
    obtain ⟨entry, hentry, rfl⟩ := List.mem_map.mp he
    rw [h.room entry hentry] at hlacks
    cases hlacks
  · rw [failIf_pass hroom]
    refine Or.inl ⟨⟨not_lt.mp hworkspace, hvalid, hnodup, fun entry hentry => ?_⟩, ?_⟩
    · by_contra hlacks
      exact hroom (List.any_eq_true.mpr ⟨_, List.mem_map.mpr ⟨entry, hentry, rfl⟩, by simpa using hlacks⟩)
    · show (_, (entries.zip (entries.map (rankIn entries))).map fun e => label e.1 e.2) = _
      rw [hzip, List.map_map]
      rfl

end Ranks

section Final
variable {entry : DisplaySafeEntry} {entries result : List DisplaySafeEntry} {workspaceCount : Nat}

def Clash (other entry : DisplaySafeEntry) : Prop := other.objectHandle = entry.objectHandle ∨ nameOf other = nameOf entry

instance : Std.Symm fun other entry => ¬Clash other entry := ⟨fun _ _ h hc => h (hc.imp Eq.symm Eq.symm)⟩

theorem validateFinalFrom_iff : ∀ {entries before : List DisplaySafeEntry}, validateFinalFrom before entries = .ok () ↔
    (∀ entry ∈ entries, validateEntry entry = .ok ()) ∧ (∀ entry ∈ entries, ∀ other ∈ before, ¬Clash other entry) ∧
      entries.Pairwise fun other entry => ¬Clash other entry
  | [], before => by
    rw [validateFinalFrom]
    exact ⟨fun _ => ⟨fun _ h => absurd h List.not_mem_nil, fun _ h => absurd h List.not_mem_nil, .nil⟩, fun _ => rfl⟩
  | entry :: rest, before => by
    rw [validateFinalFrom, List.forall_mem_cons, List.forall_mem_cons, List.pairwise_cons]
    by_cases hvalid : validateEntry entry = .ok ()
    · have hclash : (before.any fun other => other.objectHandle = entry.objectHandle ∨ sameName other entry) = true ↔
          ∃ other ∈ before, Clash other entry := by
        rw [List.any_eq_true]
        refine exists_congr fun other => and_congr_right fun _ => ?_
        rw [decide_eq_true_eq, sameName_iff (length_lt hvalid)]
        rfl
      rw [hvalid, and_iff_right rfl]
      dsimp only [bind, Except.bind]
      by_cases hany : ∃ other ∈ before, Clash other entry
      · rw [if_pos (hclash.mpr hany)]
        obtain ⟨other, hother, hc⟩ := hany
        exact ⟨fun h => (nomatch h), fun h => absurd hc (h.2.1.1 other hother)⟩
      · rw [if_neg (mt hclash.mp hany), validateFinalFrom_iff]
        constructor
        · rintro ⟨hrest, hbefore, hpairs⟩
          refine ⟨hrest, ⟨fun other hother hc => hany ⟨other, hother, hc⟩, fun other hother prior hprior => ?_⟩, fun other hother => ?_, hpairs⟩
          · exact hbefore other hother prior (List.mem_append_left _ hprior)
          · exact hbefore other hother entry (List.mem_append_right _ (List.mem_singleton_self _))
        · rintro ⟨hrest, ⟨-, hothers⟩, hentry, hpairs⟩
          refine ⟨hrest, fun other hother => List.forall_mem_append.mpr ⟨hothers other hother, ?_⟩, hpairs⟩
          exact List.forall_mem_singleton.mpr (hentry other hother)
    · refine ⟨fun h => ?_, fun h => absurd h.1.1 hvalid⟩
      obtain ⟨⟨⟩, hok, -⟩ := of_bind_ok h
      exact absurd hok hvalid

theorem Separable.labelled (h : Separable workspaceCount entries) (hentry : entry ∈ entries) :
    validateEntry (labelled entries entry) = .ok () ∧ (labelled entries entry).objectHandle = entry.objectHandle ∧
      nameOf (labelled entries entry) = labelOf mark (itemsOf entries) (entry.objectHandle, nameOf entry) := by
  have hvalid := h.valid entry hentry
  have hroom := h.room entry hentry
  simp only [lacksSpace, decide_eq_false_iff_not, not_and, not_le] at hroom
  unfold DisplaySafe.labelled label labelOf
  by_cases hrank : 1 < rankIn entries entry
  · obtain ⟨hlabelled, hname⟩ := appendRank_valid hvalid (hroom hrank)
    rw [if_pos hrank]
    exact ⟨hlabelled, rfl, hname.trans (if_pos hrank).symm⟩
  · rw [if_neg hrank]
    exact ⟨hvalid, rfl, (if_neg hrank).symm⟩

theorem mark_injective (r s : Nat) (n m : Text) (h : mark r n = mark s m) : r = s ∧ n = m := append_rankSuffix_injective h

theorem mark_ne (r : Nat) (n : Text) : mark r n ≠ n := by
  intro h
  have hlen := congrArg List.length h
  rw [mark, List.length_append, length_rankSuffix] at hlen
  omega

theorem Separable.final_iff (h : Separable workspaceCount entries) :
    displaySafeEntriesValidateFinal (entries.map (DisplaySafe.labelled entries)) = .ok () ↔ Unmarked mark (itemsOf entries) := by
  have hkeys : ((itemsOf entries).map Prod.fst).Nodup := by
    rw [itemsOf, List.map_map]
    exact h.handles
  rw [← labels_distinct_iff hkeys mark_injective mark_ne, displaySafeEntriesValidateFinal, validateFinalFrom_iff]
  constructor
  · rintro ⟨-, -, hpairs⟩ item hitem other hother hkey heq
    obtain ⟨entry, hentry, rfl⟩ := List.mem_map.mp hitem
    obtain ⟨entry', hentry', rfl⟩ := List.mem_map.mp hother
    obtain ⟨-, hhandle, hname⟩ := h.labelled hentry
    obtain ⟨-, hhandle', hname'⟩ := h.labelled hentry'
    have hne : DisplaySafe.labelled entries entry ≠ DisplaySafe.labelled entries entry' := by
      intro hsame
      exact hkey (hhandle.symm.trans ((congrArg objectHandle hsame).trans hhandle'))
    refine hpairs.forall (List.mem_map_of_mem hentry) (List.mem_map_of_mem hentry') hne (Or.inr ?_)
    rw [hname, hname', heq]
  · intro hdistinct
    refine ⟨fun entry hentry => ?_, fun _ _ _ hm => absurd hm List.not_mem_nil, ?_⟩
    · obtain ⟨other, hother, rfl⟩ := List.mem_map.mp hentry
      exact (h.labelled hother).1
    · refine List.pairwise_map.mpr (h.handles.of_map.pairwise_of_forall_ne fun entry hentry entry' hentry' hne hclash => ?_)
      obtain ⟨-, hhandle, hname⟩ := h.labelled hentry
      obtain ⟨-, hhandle', hname'⟩ := h.labelled hentry'
      have hkey : entry.objectHandle ≠ entry'.objectHandle := fun hsame =>
        hne (List.inj_on_of_nodup_map h.handles hentry hentry' hsame)
      rcases hclash with hsame | hsame
      · exact hkey (hhandle.symm.trans (hsame.trans hhandle'))
      · refine hdistinct _ (List.mem_map_of_mem hentry) _ (List.mem_map_of_mem hentry') hkey ?_
        rw [← hname, ← hname', hsame]

/-- What the validator says of a list that was disambiguated: no entry bears the name of another entry with one of the ranks
    of the entries of that name. -/
theorem disambiguate_validates_iff (h : displaySafeEntriesDisambiguate workspaceCount entries = (.ok (), result)) :
    displaySafeEntriesValidateFinal result = .ok () ↔ ∀ entry ∈ entries, ∀ other ∈ entries, ∀ rank, 2 ≤ rank →
      rank ≤ entries.countP (fun e => nameOf e = nameOf other) → nameOf entry ≠ nameOf other ++ rankSuffix rank := by
  rcases disambiguate_cases workspaceCount entries with ⟨hseparable, hrun⟩ | ⟨-, status, hrun⟩
  · rw [hrun] at h
    cases h
    rw [hseparable.final_iff]
    have hcount (name : Text) : Labels.count (itemsOf entries) name = entries.countP fun e => nameOf e = name := by
      rw [Labels.count, itemsOf, List.countP_map]
      rfl
    simp only [Unmarked, itemsOf, List.forall_mem_map]
    rw [← itemsOf]
    simp only [hcount]
    rfl
  · rw [hrun] at h
    cases h

end Final

def fileNamed (handle : Nat) (name : Text) : DisplaySafeEntry :=
  { size := displaySafeEntrySize
    version := displaySafeEntryVersion
    genericAttributes := 0
    objectHandle := handle
    typeIconCapability := 1
    byteSize := 0
    allowedOperations := 1
    objectKind := displaySafeRegularFile
    displayNameLength := name.length
    reserved := Bytes.zero
    displayName := Bytes.ofList displaySafeNameCapacity name }

theorem fileNamed_valid {handle : Nat} {name : Text} (hhandle : handle ≠ 0) (hpos : name ≠ []) (hlt : name.length < 64)
    (hbytes : ∀ b ∈ name, b ≠ 0 ∧ refusedNameByte b = false) :
    validateEntry (fileNamed handle name) = .ok () ∧ nameOf (fileNamed handle name) = name := by
  have hbyte : ∀ i, (fileNamed handle name).displayName.byte i = name.getD i 0 := by
    intro i
    by_cases hi : i < 64
    · exact Bytes.byte_of_lt hi
    · rw [List.getD_eq_default _ _ (by omega)]
      exact dif_neg hi
  refine ⟨validateEntry_iff.mpr ⟨⟨?_, fun h => Nat.one_ne_zero h.2, rfl⟩, validateBaseName_iff.mpr ⟨List.length_pos_iff.mpr hpos, hlt, fun i hi => ?_, ?_⟩⟩, ?_⟩
  · rintro (h | h | h | h | h | h)
    · exact h rfl
    · exact h rfl
    · exact hhandle h
    · exact absurd h (show validKind displaySafeRegularFile ≠ false by decide)
    · exact absurd h (show foreignAttributes 0 ≠ true by decide)
    · exact absurd h (show foreignOperations 1 ≠ true by decide)
  · rw [hbyte, List.getD_eq_getElem _ _ hi]
    exact hbytes _ (List.getElem_mem hi)
  · rw [hbyte]
    exact List.getD_eq_default _ _ le_rfl
  · refine List.ext_getElem? fun i => ?_
    rw [getElem?_nameOf (show name.length ≤ 64 by omega), hbyte]
    show (if i < name.length then _ else _) = _
    split
    · rw [List.getD_eq_getElem _ _ ‹_›, List.getElem?_eq_getElem]
    · rw [List.getElem?_eq_none (by omega)]

def twins : List DisplaySafeEntry := [fileNamed 1 [ascii 'A'], fileNamed 2 [ascii 'A']]

def triplets : List DisplaySafeEntry := twins ++ [fileNamed 3 (mark 2 [ascii 'A'])]

theorem fileA_valid {handle : Nat} (h : handle ≠ 0) :
    validateEntry (fileNamed handle [ascii 'A']) = .ok () ∧ nameOf (fileNamed handle [ascii 'A']) = [ascii 'A'] :=
  fileNamed_valid h (by decide) (by decide) (List.forall_mem_singleton.mpr (by decide))

theorem length_markA : (mark 2 [ascii 'A']).length = 5 := by
  rw [mark, List.length_append, length_rankSuffix, decimalDigits, if_pos (by decide)]
  rfl

theorem fileMarked_valid : validateEntry (fileNamed 3 (mark 2 [ascii 'A'])) = .ok () ∧
    nameOf (fileNamed 3 (mark 2 [ascii 'A'])) = mark 2 [ascii 'A'] := by
  refine fileNamed_valid (by decide) (List.cons_ne_nil _ _) (by rw [length_markA]; decide) ?_
  exact List.forall_mem_append.mpr ⟨List.forall_mem_singleton.mpr (by decide), rankSuffix_bytes⟩

theorem separable_short {entries : List DisplaySafeEntry} (hfew : entries.length < 10)
    (hvalid : ∀ entry ∈ entries, validateEntry entry = .ok () ∧ entry.displayNameLength < 60)
    (hhandles : (entries.map objectHandle).Nodup) : Separable entries.length entries where
  workspace := le_rfl
  valid entry hentry := (hvalid entry hentry).1
  handles := hhandles
  room entry hentry := by
    have hrank : rankIn entries entry ≤ entries.length := by
      refine le_trans (rank_le_count (List.mem_map_of_mem hentry)) (le_trans List.countP_le_length ?_)
      rw [itemsOf, List.length_map]
    have hdigits : decimalDigits (rankIn entries entry) = 1 := by rw [decimalDigits, if_pos (by omega)]
    have hshort := (hvalid entry hentry).2
    have hcapacity : displaySafeNameCapacity = 64 := rfl
    simp only [lacksSpace, decide_eq_false_iff_not, not_and, not_le, hdigits]
    omega

theorem disambiguate_separable {workspaceCount : Nat} {entries : List DisplaySafeEntry} (h : Separable workspaceCount entries) :
    displaySafeEntriesDisambiguate workspaceCount entries = (.ok (), entries.map (labelled entries)) := by
  rcases disambiguate_cases workspaceCount entries with ⟨-, hrun⟩ | ⟨hnot, -⟩
  · exact hrun
  · exact absurd h hnot

theorem twins_separable : Separable twins.length twins := by
  refine separable_short (by decide) ?_ (by decide)
  refine List.forall_mem_cons.mpr ⟨⟨(fileA_valid (by decide)).1, by decide⟩, List.forall_mem_singleton.mpr ?_⟩
  exact ⟨(fileA_valid (by decide)).1, by decide⟩

theorem twins_validated : displaySafeEntriesValidateFinal (twins.map (labelled twins)) = .ok () := by
  refine (disambiguate_validates_iff (disambiguate_separable twins_separable)).mpr fun entry hentry other hother rank _ _ => ?_
  have hname : ∀ entry ∈ twins, nameOf entry = [ascii 'A'] :=
    List.forall_mem_cons.mpr ⟨(fileA_valid (by decide)).2, List.forall_mem_singleton.mpr (fileA_valid (by decide)).2⟩
  rw [hname entry hentry, hname other hother]
  exact (mark_ne rank [ascii 'A']).symm

theorem triplets_separable : Separable triplets.length triplets := by
  refine separable_short (by decide) (List.forall_mem_append.mpr ⟨fun entry hentry => ?_, List.forall_mem_singleton.mpr ?_⟩) (by decide)
  · refine ⟨twins_separable.valid entry hentry, ?_⟩
    revert entry
    exact List.forall_mem_cons.mpr ⟨by decide, List.forall_mem_singleton.mpr (by decide)⟩
  · exact ⟨fileMarked_valid.1, by show (mark 2 [ascii 'A']).length < 60; rw [length_markA]; decide⟩

/-- The validator refuses labels of which one is the name of another entry. -/
theorem disambiguate_not_validated : ¬∀ (workspaceCount : Nat) (entries result : List DisplaySafeEntry),
    (∀ entry ∈ entries, validateEntry entry = .ok ()) → (entries.map objectHandle).Nodup →
    displaySafeEntriesDisambiguate workspaceCount entries = (.ok (), result) →
    displaySafeEntriesValidateFinal result = .ok () := by
  intro h
  have hfinal := h _ _ _ triplets_separable.valid triplets_separable.handles (disambiguate_separable triplets_separable)
  rw [triplets_separable.final_iff] at hfinal
  have hmarked : (3, mark 2 [ascii 'A']) ∈ itemsOf triplets :=
    List.mem_map.mpr ⟨fileNamed 3 (mark 2 [ascii 'A']), List.mem_append_right _ (List.mem_singleton_self _),
      Prod.ext rfl fileMarked_valid.2⟩
  have hfirst : (1, [ascii 'A']) ∈ itemsOf triplets :=
    List.mem_map.mpr ⟨fileNamed 1 [ascii 'A'], List.mem_cons_self, Prod.ext rfl (fileA_valid (by decide)).2⟩
  have hcount : 2 ≤ Labels.count (itemsOf triplets) [ascii 'A'] := by
    have htwins : (itemsOf twins) = [(1, [ascii 'A']), (2, [ascii 'A'])] := by
      simp only [itemsOf, twins, List.map_cons, List.map_nil, (fileA_valid Nat.one_ne_zero).2, (fileA_valid (Nat.succ_ne_zero 1)).2]
      rfl
    rw [Labels.count, itemsOf, triplets, List.map_append, List.countP_append]
    refine le_trans ?_ (Nat.le_add_right _ _)
    rw [← itemsOf, htwins]
    decide
  exact hfinal _ hmarked _ hfirst 2 (by decide) hcount rfl

end DisplaySafe
end InferenceOS
