import Mathlib.Data.Fintype.Card
import InferenceOS.Theorems.Handles

/-! Every run of calls on the handle tables of distinct owners. A log of the handles that were issued goes along: an
    open handle is good for what it was issued for, and a closed one is rejected until its slot was closed so often
    that its generation comes again. -/

namespace InferenceOS
open Program HandleTable

/-- A handle that a table issued, and for what. -/
structure Issued (ι Obj : Type) where
  table : ι
  handle : Handle
  object : Obj
  kind : IosObjectKind
  rights : BitVec 64
  /-- `none` while the handle is open, then how often its slot was closed since. -/
  closed : Option Nat

namespace Issued
variable {ι Obj : Type} [DecidableEq ι]

/-- A record after the handle `handle` of table `t` was closed. -/
def afterClose (t : ι) (handle : Handle) (r : Issued ι Obj) : Issued ι Obj :=
  if r.table = t ∧ r.handle &&& 0xffff = handle &&& 0xffff then
    match r.closed with
    | none => if r.handle = handle then { r with closed := some 0 } else r
    | some k => { r with closed := some (k + 1) }
  else r

def close (log : List (Issued ι Obj)) (t : ι) (handle : Handle) : List (Issued ι Obj) := log.map (afterClose t handle)

def closeSlot (t : ι) (log : List (Issued ι Obj)) (index : Fin handleTableCapacity) : List (Issued ι Obj) :=
  match log.find? fun r => r.table = t ∧ r.closed = none ∧ (r.handle &&& 0xffff).toNat = index.1 + 1 with
  | some r => close log t r.handle
  | none => log

def closeAll (log : List (Issued ι Obj)) (t : ι) : List (Issued ι Obj) :=
  (List.finRange handleTableCapacity).foldl (closeSlot t) log

/-- The log after `source` of table `t` was copied to `handle` of table `t'`. -/
def copy (log : List (Issued ι Obj)) (t : ι) (source : Handle) (t' : ι) (reduced : BitVec 64) (handle : Handle) :
    List (Issued ι Obj) :=
  match log.find? fun r => r.table = t ∧ r.handle = source ∧ r.closed = none with
  | some r => { r with table := t', handle := handle, rights := reduced, closed := none } :: log
  | none => log

end Issued

/-- A call on the handle tables with its arguments. -/
inductive HandleCall (ι ω Obj : Type) where
  | insert (t : ι) (object : Option Obj) (kind : IosObjectKind) (rights : BitVec 64) (retain release : Option (Obj → ω → ω))
    (out : Bool)
  | resolve (t : ι) (handle : Handle) (expectedKind : IosObjectKind) (requiredRights : BitVec 64)
  | duplicate (t : ι) (source : Handle) (reducedRights : BitVec 64) (out : Bool)
  | transfer (sourceTable : ι) (destinationTable : Option ι) (source : Handle) (reducedRights : BitVec 64)
    (closeSource out : Bool)
  | close (t : ι) (handle : Handle)
  | closeAll (t : ι)

namespace HandleCall
variable {ι ω Obj : Type} [DecidableEq ι]

/-- The call, with the handle that it issues. -/
def run : HandleCall ι ω Obj → Program IosError (HandleTables ι ω Obj) (Option Handle)
  | .insert t object kind rights retain release out => some <$> HandleTables.handleTableInsert t object kind rights retain release out
  | .resolve t handle expectedKind requiredRights => do
    let s ← get
    let _ ← ofExcept ((s.tables t).handleTableResolve handle expectedKind requiredRights)
    pure none
  | .duplicate t source reducedRights out => some <$> HandleTables.handleTableDuplicate t source reducedRights out
  | .transfer sourceTable destinationTable source reducedRights closeSource out =>
    some <$> HandleTables.handleTableTransfer sourceTable destinationTable source reducedRights closeSource out
  | .close t handle => (fun _ => none) <$> HandleTables.handleTableClose t handle
  | .closeAll t => (fun _ => none) <$> HandleTables.handleTableCloseAll t

/-- The log after the call returned `v`. -/
def log (entries : List (Issued ι Obj)) (v : Option Handle) : HandleCall ι ω Obj → List (Issued ι Obj)
  | .insert t object kind rights _ _ _ =>
    match object, v with
    | some object, some handle => ⟨t, handle, object, kind, rights, none⟩ :: entries
    | _, _ => entries
  | .resolve _ _ _ _ => entries
  | .duplicate t source reducedRights _ => v.elim entries (Issued.copy entries t source t reducedRights)
  | .transfer sourceTable destinationTable source reducedRights closeSource _ =>
    let copied := match destinationTable, v with
      | some destinationTable, some handle => Issued.copy entries sourceTable source destinationTable reducedRights handle
      | _, _ => entries
    if closeSource then Issued.close copied sourceTable source else copied
  | .close t handle => Issued.close entries t handle
  | .closeAll t => Issued.closeAll entries t

/-- The call gets `handle` as a handle of table `t`. -/
def Uses (t : ι) (handle : Handle) : HandleCall ι ω Obj → Prop
  | .resolve t' handle' _ _ => t' = t ∧ handle' = handle
  | .duplicate t' source _ _ => t' = t ∧ source = handle
  | .transfer sourceTable _ source _ _ _ => sourceTable = t ∧ source = handle
  | .close t' handle' => t' = t ∧ handle' = handle
  | _ => False

/-- The call asks for a handle in table `t'` with rights `reduced` to the object of `source` of table `t`. -/
def Copies (t : ι) (source : Handle) (t' : ι) (reduced : BitVec 64) : HandleCall ι ω Obj → Prop
  | .duplicate table handle reducedRights _ => table = t ∧ handle = source ∧ t' = t ∧ reducedRights = reduced
  | .transfer sourceTable destinationTable handle reducedRights _ _ =>
    sourceTable = t ∧ destinationTable = some t' ∧ handle = source ∧ reducedRights = reduced
  | _ => False

end HandleCall
open HandleCall

/-- The states that runs reach from the empty tables of the owners, with the log. -/
inductive HandleRun {ι ω Obj : Type} [DecidableEq ι] (identity : ι → BitVec 64) :
    HandleTables ι ω Obj → List (Issued ι Obj) → Prop where
  | start {s : HandleTables ι ω Obj} : (∀ t, handleTableInitialize (identity t) = .ok (s.tables t)) →
    HandleRun identity s []
  | returned {s u : HandleTables ι ω Obj} {entries : List (Issued ι Obj)} {call : HandleCall ι ω Obj} {v : Option Handle} :
    HandleRun identity s entries → call.run s = (.ok v, u) → HandleRun identity u (call.log entries v)
  | failed {s u : HandleTables ι ω Obj} {entries : List (Issued ι Obj)} {call : HandleCall ι ω Obj} {e : IosError} :
    HandleRun identity s entries → call.run s = (.error e, u) → HandleRun identity u entries

namespace HandleTables
variable {ι ω Obj : Type} [DecidableEq ι] {s u : HandleTables ι ω Obj} {t t' : ι} {i j : Fin handleTableCapacity}
  {handle source : Handle} {entries : List (Issued ι Obj)} {r : Issued ι Obj} {tag : ι → BitVec 32}
  {closes : ι → Fin handleTableCapacity → Nat} {g g' : BitVec 64} {o : Obj} {kind : IosObjectKind} {rights reduced : BitVec 64}
  {retain release : Option (Obj → ω → ω)}

theorem encode_inj (hg : g.toNat < 2 ^ 48) (hg' : g'.toNat < 2 ^ 48) (h : encodeHandle i g = encodeHandle j g') : i = j ∧ g = g' := by
  have hnat := congrArg BitVec.toNat h
  rw [encodeHandle_toNat, encodeHandle_toNat] at hnat
  have hi : i.1 < 256 := i.2
  have hj : j.1 < 256 := j.2
  exact ⟨Fin.ext (by omega), BitVec.eq_of_toNat_eq (by omega)⟩

theorem slot_encode : (encodeHandle i g &&& 0xffff).toNat = i.1 + 1 := by
  have hi : i.1 < 256 := i.2
  rw [slot_toNat, encodeHandle_toNat]
  omega

theorem slot_encode_eq : encodeHandle i g &&& 0xffff = encodeHandle j g' &&& 0xffff ↔ i = j := by
  constructor
  · intro h
    have hnat := congrArg BitVec.toNat h
    rw [slot_encode, slot_encode] at hnat
    exact Fin.ext (by omega)
  · rintro rfl
    exact BitVec.eq_of_toNat_eq (by rw [slot_encode, slot_encode])

/-- The handles that are open in a table. -/
def occupied (s : HandleTables ι ω Obj) (t : ι) : Nat :=
  (Finset.univ.filter fun i => (s.entry t i).object.isSome).card

structure Kept (tag : ι → BitVec 32) (closes : ι → Fin handleTableCapacity → Nat) (s : HandleTables ι ω Obj)
    (entries : List (Issued ι Obj)) : Prop where
  ownerTag : ∀ t, (s.tables t).ownerTag = tag t
  generation : ∀ t i, (s.entry t i).generation = generationAfter (tag t) (closes t i)
  opened : ∀ r ∈ entries, r.closed = none → ∃ i, r.handle = encodeHandle i (s.entry r.table i).generation ∧
    (s.entry r.table i).object = some r.object ∧ (s.entry r.table i).kind = r.kind ∧ (s.entry r.table i).rights = r.rights
  closed : ∀ r ∈ entries, ∀ k, r.closed = some k → ∃ i n, r.handle = encodeHandle i (generationAfter (tag r.table) n) ∧
    closes r.table i = n + 1 + k
  logged : ∀ t i, (s.entry t i).object.isSome → ∃ r ∈ entries, r.table = t ∧ r.closed = none ∧
    r.handle = encodeHandle i (s.entry t i).generation
  count : ∀ t, (s.tables t).openCount = s.occupied t

section Kept
variable (htag : ∀ t, (tag t).toNat < 2 ^ 24)

omit [DecidableEq ι] in
include htag in
theorem Kept.sized (h : Kept tag closes s entries) : (s.entry t i).generation.toNat < 2 ^ 48 := by
  rw [h.generation, generationAfter_toNat (htag t)]
  have := htag t
  omega

omit [DecidableEq ι] in
include htag in
theorem Kept.opened_at (h : Kept tag closes s entries) (hr : r ∈ entries) (ht : r.table = t) (hc : r.closed = none)
    (hh : r.handle = encodeHandle i (s.entry t i).generation) : (s.entry t i).object = some r.object ∧
      (s.entry t i).kind = r.kind ∧ (s.entry t i).rights = r.rights := by
  subst ht
  obtain ⟨j, hj, hentry⟩ := h.opened r hr hc
  obtain ⟨rfl, -⟩ := encode_inj (h.sized htag) (h.sized htag) (hj.symm.trans hh)
  exact hentry

theorem Kept.fill (h : Kept tag closes s entries) (he : (s.entry t i).object = none) :
    Kept tag closes (s.fill t i (some o) kind rights retain release)
      (⟨t, encodeHandle i (s.entry t i).generation, o, kind, rights, none⟩ :: entries) := by
  have hgeneration : ∀ t' j, ((s.fill t i (some o) kind rights retain release).entry t' j).generation =
      (s.entry t' j).generation := by
    intro t' j
    rw [fill_entry]
    split
    · rename_i hx
      rw [hx.1, hx.2]
    · rfl
  refine ⟨fun t' => ?_, fun t' j => ?_, fun r hr hc => ?_, fun r hr k hk => ?_, fun t' j hj => ?_, fun t' => ?_⟩
  · rw [fill_ownerTag, h.ownerTag]
  · rw [hgeneration, h.generation]
  · rcases List.mem_cons.mp hr with rfl | hr
    · refine ⟨i, by rw [hgeneration], ?_⟩
      rw [fill_entry, if_pos ⟨rfl, rfl⟩]
      exact ⟨rfl, rfl, rfl⟩
    · obtain ⟨j, hj, ho, hentry⟩ := h.opened r hr hc
      refine ⟨j, by rw [hgeneration, hj], ?_⟩
      rw [fill_entry, if_neg]
      · exact ⟨ho, hentry⟩
      · rintro ⟨ht, rfl⟩
        rw [ht, he] at ho
        cases ho
  · rcases List.mem_cons.mp hr with rfl | hr
    · cases hk
    · exact h.closed r hr k hk
  · rw [fill_entry] at hj
    split at hj
    · rename_i hx
      refine ⟨_, List.mem_cons_self, hx.1.symm, rfl, ?_⟩
      rw [hgeneration, hx.1, hx.2]
    · obtain ⟨r, hr, ht, hc, hh⟩ := h.logged t' j hj
      exact ⟨r, List.mem_cons_of_mem _ hr, ht, hc, by rw [hgeneration, hh]⟩
  · rw [fill_openCount, h.count]
    unfold occupied
    split
    · rename_i ht
      rw [← Finset.card_insert_of_notMem (s := Finset.univ.filter fun j => (s.entry t' j).object.isSome) (a := i)]
      · congr 1
        ext j
        rw [Finset.mem_insert, Finset.mem_filter, Finset.mem_filter, fill_entry]
        by_cases hj : j = i
        · rw [if_pos ⟨ht, hj⟩]
          exact ⟨fun _ => ⟨Finset.mem_univ _, rfl⟩, fun _ => Or.inl hj⟩
        · rw [if_neg fun hx => hj hx.2, or_iff_right hj]
      · rw [Finset.mem_filter, ht, he]
        rintro ⟨-, hx⟩
        cases hx
    · rename_i ht
      congr 1
      refine Finset.filter_congr fun j _ => ?_
      rw [fill_entry, if_neg fun hx => ht hx.1]

include htag in
theorem Kept.vacate (h : Kept tag closes s entries) (ho : (s.entry t i).object.isSome) :
    Kept tag (fun t' j => if t' = t ∧ j = i then closes t' j + 1 else closes t' j) (s.vacate t i)
      (Issued.close entries t (encodeHandle i (s.entry t i).generation)) := by
  have hsame : ∀ {r : Issued ι Obj} {j : Fin handleTableCapacity} {g : BitVec 64}, r.handle = encodeHandle j g →
      (r.handle &&& 0xffff = encodeHandle i (s.entry t i).generation &&& 0xffff ↔ j = i) := by
    intro r j g hr
    rw [hr, slot_encode_eq]
  refine ⟨fun t' => ?_, fun t' j => ?_, fun r hr hc => ?_, fun r hr k hk => ?_, fun t' j hj => ?_, fun t' => ?_⟩
  · rw [vacate_ownerTag, h.ownerTag]
  · rw [vacate_entry]
    split
    · rename_i hx
      rw [hx.1, hx.2, h.generation, h.ownerTag, nextGeneration_eq (htag t)]
    · rw [h.generation]
  · obtain ⟨r₀, hr₀, rfl⟩ := List.mem_map.mp hr
    unfold Issued.afterClose at hc ⊢
    split at hc
    · rename_i hslot
      split at hc
      · rename_i hopen
        split at hc
        · cases hc
        · rename_i hother
          obtain ⟨j, hj, -⟩ := h.opened r₀ hr₀ hopen
          obtain rfl := (hsame hj).mp hslot.2
          rw [hslot.1] at hj
          exact absurd hj hother
      · cases hc
    · rename_i hslot
      rw [if_neg hslot]
      obtain ⟨j, hj, hentry⟩ := h.opened r₀ hr₀ hc
      have hne : ¬(r₀.table = t ∧ j = i) := fun hx => hslot ⟨hx.1, (hsame hj).mpr hx.2⟩
      refine ⟨j, ?_⟩
      rw [vacate_entry, if_neg hne]
      exact ⟨hj, hentry⟩
  · obtain ⟨r₀, hr₀, rfl⟩ := List.mem_map.mp hr
    unfold Issued.afterClose at hk ⊢
    split at hk
    · rename_i hslot
      rw [if_pos hslot]
      split at hk
      · rename_i hopen
        split at hk
        · rename_i hown
          cases hk
          refine ⟨i, closes t i, ?_, ?_⟩
          · simp only [if_pos hown, hslot.1]
            rw [hown, h.generation]
          · simp only [if_pos hown, hslot.1, and_self, if_true]
        · rename_i hother
          rw [hopen] at hk
          cases hk
      · rename_i k' hclosed
        cases hk
        obtain ⟨j, n, hj, hn⟩ := h.closed r₀ hr₀ k' hclosed
        obtain rfl := (hsame hj).mp hslot.2
        refine ⟨j, n, ?_, ?_⟩
        · exact hj
        · simp only [hslot.1, and_self, if_true]
          rw [hslot.1] at hn
          omega
    · rename_i hslot
      rw [if_neg hslot]
      obtain ⟨j, n, hj, hn⟩ := h.closed r₀ hr₀ k hk
      refine ⟨j, n, hj, ?_⟩
      rw [if_neg fun hx => hslot ⟨hx.1, (hsame hj).mpr hx.2⟩]
      exact hn
  · rw [vacate_entry] at hj ⊢
    split at hj
    · cases hj
    · rename_i hne
      obtain ⟨r, hr, ht, hc, hh⟩ := h.logged t' j hj
      refine ⟨r, List.mem_map.mpr ⟨r, hr, ?_⟩, ht, hc, by rw [if_neg hne, hh]⟩
      unfold Issued.afterClose
      rw [if_neg]
      rintro ⟨htable, hslot⟩
      exact hne ⟨ht.symm.trans htable, (hsame hh).mp hslot⟩
  · rw [vacate_openCount, h.count]
    unfold occupied
    split
    · rename_i ht
      have hmem : i ∈ Finset.univ.filter fun j => (s.entry t' j).object.isSome := by
        rw [Finset.mem_filter, ht]
        exact ⟨Finset.mem_univ _, ho⟩
      rw [← Finset.card_erase_of_mem hmem]
      congr 1
      ext j
      rw [Finset.mem_erase, Finset.mem_filter, Finset.mem_filter, vacate_entry]
      by_cases hj : j = i
      · rw [if_pos ⟨ht, hj⟩]
        exact ⟨fun hx => absurd hj hx.1, fun hx => nomatch hx.2⟩
      · rw [if_neg fun hx => hj hx.2, and_iff_right hj]
    · rename_i ht
      congr 1
      refine Finset.filter_congr fun j _ => ?_
      rw [vacate_entry, if_neg fun hx => ht hx.1]

omit [DecidableEq ι] in
theorem Kept.of_tables (h : Kept tag closes s entries) (hu : u.tables = s.tables) : Kept tag closes u entries := by
  have hentry : u.entry = s.entry := by
    unfold entry
    rw [hu]
  obtain ⟨htag, hgeneration, hopened, hclosed, hlogged, hcount⟩ := h
  refine ⟨?_, ?_, ?_, hclosed, ?_, ?_⟩
  · rwa [hu]
  · rwa [hentry]
  · rwa [hentry]
  · rwa [hentry]
  · intro t
    unfold occupied at *
    rw [hu, hentry]
    exact hcount t

include htag in
theorem Kept.closeSlot (h : Kept tag closes s entries) (ho : (s.entry t i).object = some o) :
    Kept tag (fun t' j => if t' = t ∧ j = i then closes t' j + 1 else closes t' j)
      (callOn (s.entry t i).release (some o) (s.vacate t i)) (Issued.closeSlot t entries i) := by
  refine Kept.of_tables ?_ callOn_tables
  obtain ⟨r, hr, ht, hc, hh⟩ := h.logged t i (by rw [ho]; rfl)
  unfold Issued.closeSlot
  split
  · rename_i r' hfound
    have hr' := List.mem_of_find?_eq_some hfound
    have hprop := List.find?_some hfound
    simp only [decide_eq_true_eq] at hprop
    obtain ⟨ht', hc', hs'⟩ := hprop
    obtain ⟨j, hj, -⟩ := h.opened r' hr' hc'
    rw [hj, slot_encode] at hs'
    obtain rfl : j = i := Fin.ext (by omega)
    rw [hj, ht']
    exact h.vacate htag (by rw [ho]; rfl)
  · rename_i hnone
    have hx := List.find?_eq_none.mp hnone r hr
    simp only [decide_eq_true_eq] at hx
    exact absurd ⟨ht, hc, by rw [hh, slot_encode]⟩ hx

omit [DecidableEq ι] in
theorem Kept.closeSlot_empty [DecidableEq ι] (h : Kept tag closes s entries) (ho : (s.entry t i).object = none) :
    Issued.closeSlot t entries i = entries := by
  unfold Issued.closeSlot
  split
  · rename_i r hfound
    have hr := List.mem_of_find?_eq_some hfound
    have hprop := List.find?_some hfound
    simp only [decide_eq_true_eq] at hprop
    obtain ⟨ht, hc, hslot⟩ := hprop
    obtain ⟨j, hj, hentry, -⟩ := h.opened r hr hc
    rw [hj, slot_encode] at hslot
    obtain rfl : j = i := Fin.ext (by omega)
    rw [ht, ho] at hentry
    cases hentry
  · rfl

include htag in
theorem Kept.copy_eq (h : Kept tag closes s entries) (hd : (s.tables t).decodeHandle source = .ok i) :
    ∃ r ∈ entries, r.table = t ∧ r.handle = source ∧ r.closed = none ∧ (s.entry t i).object = some r.object ∧
      (s.entry t i).kind = r.kind ∧ (s.entry t i).rights = r.rights ∧
      Issued.copy entries t source t' reduced handle = ⟨t', handle, r.object, r.kind, reduced, none⟩ :: entries := by
  obtain ⟨hsource, ho⟩ := decodeHandle_eq_ok hd
  obtain ⟨r, hr, ht, hc, hh⟩ := h.logged t i ho
  unfold Issued.copy
  split
  · rename_i r' hfound
    have hr' := List.mem_of_find?_eq_some hfound
    have hprop := List.find?_some hfound
    simp only [decide_eq_true_eq] at hprop
    obtain ⟨ht', hh', hc'⟩ := hprop
    obtain ⟨hobject, hkind, hrights⟩ := h.opened_at htag hr' ht' hc' (hh'.trans hsource)
    exact ⟨r', hr', ht', hh', hc', hobject, hkind, hrights, rfl⟩
  · rename_i hnone
    have hx := List.find?_eq_none.mp hnone r hr
    simp only [decide_eq_true_eq] at hx
    exact absurd ⟨ht, hh.trans hsource.symm, hc⟩ hx

include htag in
theorem Kept.copied (h : Kept tag closes s entries) {right : BitVec 64} (hc : s.Copyable t source reduced right i)
    (hf : s.Insertable t' j (s.entry t i).object (s.entry t i).kind reduced) :
    Kept tag closes (s.copy t i t' j reduced)
      (Issued.copy entries t source t' reduced (encodeHandle j (s.entry t' j).generation)) := by
  obtain ⟨r, -, -, -, -, ho, hk, -, hcopy⟩ := h.copy_eq htag hc.decoded
  rw [hcopy]
  unfold copy
  rw [ho, hk]
  have hcalled : Kept tag closes (callOn (s.entry t i).retain (some r.object) s) entries := h.of_tables callOn_tables
  have hentry : s.entry t' j = (callOn (s.entry t i).retain (some r.object) s).entry t' j := by rw [callOn_entry]
  have hempty := hf.empty
  rw [hentry] at hempty ⊢
  exact hcalled.fill hempty

include htag in
theorem Kept.call (h : Kept tag closes s entries) (hpos : ∀ t, tag t ≠ 0) (call : HandleCall ι ω Obj) :
    wp call.run (fun v u => ∃ closes', Kept tag closes' u (call.log entries v)) (fun _ u => Kept tag closes u entries) s := by
  cases call with
  | insert t object kind rights retain release out =>
    simp only [run, wp_map]
    refine wp_mono insert_spec (fun handle u ⟨i, hi, hh, hu⟩ => ?_) fun _ _ hu => hu ▸ h
    obtain ⟨o, rfl⟩ := Option.isSome_iff_exists.mp hi.object
    rw [hu, hh]
    exact ⟨closes, h.fill hi.empty⟩
  | resolve t handle kind rights =>
    simp only [run, wp_bind, wp_get, wp_ofExcept]
    exact ⟨fun _ _ => ⟨closes, h⟩, fun _ _ => h⟩
  | duplicate t source reduced out =>
    simp only [run, wp_map]
    refine wp_mono duplicate_spec (fun handle u ⟨i, j, hc, hf, hh, hu⟩ => ?_) fun _ u hu => ?_
    · rw [hu, hh]
      exact ⟨closes, h.copied htag hc hf⟩
    · rcases hu with rfl | ⟨i, -, rfl⟩
      · exact h
      · exact h.of_tables (callOn_tables.trans callOn_tables)
  | transfer t destination source reduced closeSource out =>
    simp only [run, wp_map]
    refine wp_mono transfer_spec (fun handle u ⟨i, t', j, hd, hc, hf, hh, hu⟩ => ?_) fun _ u hu => ?_
    · subst hd hh hu
      have hcopied := h.copied htag hc hf
      obtain ⟨hdecode, hentry⟩ := hc.copy_decode hf
      cases closeSource with
      | false => exact ⟨closes, hcopied⟩
      | true =>
        obtain ⟨hsource, -⟩ := decodeHandle_eq_ok hdecode
        have hclose : ∀ log : List (Issued ι Obj), Issued.close log t source =
            Issued.close log t (encodeHandle i ((s.copy t i t' j reduced).entry t i).generation) :=
          fun log => congrArg (Issued.close log t) hsource
        obtain ⟨closes', hvacated⟩ : ∃ closes', Kept tag closes' ((s.copy t i t' j reduced).vacate t i)
            (Issued.close (Issued.copy entries t source t' reduced (encodeHandle j (s.entry t' j).generation)) t source) := by
          rw [hclose]
          exact ⟨_, hcopied.vacate htag (by rw [hentry]; exact hf.object)⟩
        exact ⟨closes', hvacated.of_tables callOn_tables⟩
    · rcases hu with rfl | ⟨i, -, rfl⟩
      · exact h
      · exact h.of_tables (callOn_tables.trans callOn_tables)
  | close t handle =>
    simp only [run, wp_map]
    refine wp_mono close_spec (fun _ u ⟨i, hd, hu⟩ => ?_) fun _ _ hu => hu.1 ▸ h
    obtain ⟨hh, ho⟩ := decodeHandle_eq_ok hd
    obtain ⟨closes', hvacated⟩ : ∃ closes', Kept tag closes' (s.vacate t i) (Issued.close entries t handle) := by
      rw [hh]
      exact ⟨_, h.vacate htag ho⟩
    rw [hu]
    exact ⟨closes', hvacated.of_tables callOn_tables⟩
  | closeAll t =>
    simp only [run, wp_map]
    refine wp_mono (closeAll_spec (P := fun rest u => ∃ closes' entries', Kept tag closes' u entries' ∧
      rest.foldl (Issued.closeSlot t) entries' = Issued.closeAll entries t) ?_ ?_ ?_ ⟨closes, entries, h, rfl⟩)
      (fun _ u hu => ?_) fun _ _ hx => hx.elim
    · rintro i rest s ⟨closes', entries', hk, -⟩
      exact hk.sized htag
    · rintro i rest s ⟨closes', entries', hk, hrest⟩ ho
      rw [List.foldl_cons, hk.closeSlot_empty ho] at hrest
      exact ⟨closes', entries', hk, hrest⟩
    · rintro i rest s o ⟨closes', entries', hk, hrest⟩ ho
      exact ⟨_, _, hk.closeSlot htag ho, hrest⟩
    · rcases hu with ⟨closes', entries', hk, hrest⟩ | ⟨hzero, -⟩
      · show ∃ closes', Kept tag closes' u (Issued.closeAll entries t)
        rw [← hrest]
        exact ⟨closes', hk⟩
      · rw [h.ownerTag] at hzero
        exact absurd hzero (hpos t)

end Kept

theorem ownerTag_toNat {identity : BitVec 64} (h : 1 ≤ identity.toNat) (hlt : identity.toNat < 2 ^ 24) :
    (ownerTagFromIdentity identity).toNat = identity.toNat := by
  have hshift : ∀ k, 24 ≤ k → identity >>> k = 0#64 := by
    intro k hk
    refine BitVec.eq_of_toNat_eq ?_
    rw [BitVec.toNat_ushiftRight, Nat.shiftRight_eq_div_pow]
    exact Nat.div_eq_of_lt (lt_of_lt_of_le hlt (Nat.pow_le_pow_right (by decide) hk))
  have htag : ((identity ^^^ (identity >>> 24) ^^^ (identity >>> 48)).setWidth 32 &&& 0x00ffffff).toNat = identity.toNat := by
    rw [hshift 24 (by decide), hshift 48 (by decide), BitVec.xor_zero, BitVec.xor_zero, BitVec.toNat_and,
      show (0x00ffffff : BitVec 32).toNat = 2 ^ 24 - 1 from rfl, Nat.and_two_pow_sub_one_eq_mod, BitVec.toNat_setWidth]
    omega
  unfold ownerTagFromIdentity
  dsimp only
  rw [if_neg, htag]
  intro hx
  rw [hx] at htag
  exact absurd htag (by simp; omega)

/-- The owners have distinct identities of 24 bits. -/
structure Owners (identity : ι → BitVec 64) : Prop where
  positive : ∀ t, 1 ≤ (identity t).toNat
  small : ∀ t, (identity t).toNat < 2 ^ 24
  distinct : Function.Injective identity

def tagOf (identity : ι → BitVec 64) (t : ι) : BitVec 32 := ownerTagFromIdentity (identity t)

variable {identity : ι → BitVec 64}

omit [DecidableEq ι] in
theorem Owners.tagOf (h : Owners identity) : (∀ t, (tagOf identity t).toNat < 2 ^ 24) ∧ (∀ t, tagOf identity t ≠ 0) ∧
    Function.Injective (tagOf identity) := by
  have htag : ∀ t, (HandleTables.tagOf identity t).toNat = (identity t).toNat := fun t => ownerTag_toNat (h.positive t) (h.small t)
  refine ⟨fun t => ?_, fun t hx => ?_, fun t t' hx => h.distinct (BitVec.eq_of_toNat_eq ?_)⟩
  · rw [htag]
    exact h.small t
  · have := h.positive t
    rw [← htag, hx] at this
    exact absurd this (by decide)
  · rw [← htag, ← htag, hx]

theorem kept_run (hid : Owners identity) (h : HandleRun identity s entries) :
    ∃ closes, Kept (tagOf identity) closes s entries := by
  obtain ⟨hsmall, hpos, -⟩ := hid.tagOf
  induction h with
  | @start s hs =>
    have htable : ∀ t, s.tables t = ⟨fun _ => ⟨none, 0, initialGeneration (tagOf identity t), .none, none, none⟩,
        tagOf identity t, 0⟩ := by
      intro t
      have ht := hs t
      unfold handleTableInitialize at ht
      split at ht
      · cases ht
      · exact (Except.ok.inj ht).symm
    refine ⟨fun _ _ => 0, fun t => by rw [htable], fun t i => ?_, nofun, nofun, fun t i ho => ?_, fun t => ?_⟩
    · rw [entry, htable, initialGeneration_eq]
    · rw [entry, htable] at ho
      cases ho
    · rw [htable, occupied, Finset.filter_false_of_mem, Finset.card_empty]
      intro i _ ho
      rw [entry, htable] at ho
      cases ho
  | @returned s u entries call v _ hr ih =>
    obtain ⟨closes, hk⟩ := ih
    have hcall := wp_ok (hk.call hsmall hpos call) hr
    exact hcall
  | @failed s u entries call e _ hr ih =>
    obtain ⟨closes, hk⟩ := ih
    have hcall := wp_error (hk.call hsmall hpos call) hr
    exact ⟨closes, hcall⟩

/-- No call accepts the handle, and none changes anything. -/
def Rejected (s : HandleTables ι ω Obj) (t : ι) (handle : Handle) : Prop :=
  ∀ call : HandleCall ι ω Obj, call.Uses t handle → ∃ e, call.run s = (.error e, s)

theorem rejected_of_decode {e : IosError} (h : (s.tables t).decodeHandle handle = .error e) : Rejected s t handle := by
  intro call huse
  cases call with
  | insert => exact huse.elim
  | closeAll => exact huse.elim
  | resolve t' handle' kind rights =>
    obtain ⟨rfl, rfl⟩ := huse
    have hresolve : ∃ e', (s.tables t').handleTableResolve handle' kind rights = .error e' := by
      unfold handleTableResolve
      split
      · exact ⟨_, rfl⟩
      · rw [h]
        exact ⟨e, rfl⟩
    obtain ⟨e', he⟩ := hresolve
    refine ⟨e', ?_⟩
    simp only [run]
    rw [bind_ok (show get s = _ from rfl), he]
    rfl
  | duplicate t' source reduced out =>
    obtain ⟨rfl, rfl⟩ := huse
    refine ⟨e, ?_⟩
    simp only [run, handleTableDuplicate]
    rw [fmap_bind, bind_ok (show get s = _ from rfl), h]
    rfl
  | transfer t' destination source reduced closeSource out =>
    obtain ⟨rfl, rfl⟩ := huse
    refine ⟨e, ?_⟩
    simp only [run, handleTableTransfer]
    rw [fmap_bind, bind_ok (show get s = _ from rfl), h]
    rfl
  | close t' handle' =>
    obtain ⟨rfl, rfl⟩ := huse
    refine ⟨e, ?_⟩
    simp only [run, handleTableClose]
    rw [fmap_bind, bind_ok (show get s = _ from rfl), h]
    rfl

omit [DecidableEq ι] in
theorem Kept.resolve (hid : Owners identity) (h : Kept (tagOf identity) closes s entries) (hr : r ∈ entries)
    (hc : r.closed = none) (hkind : kind ≠ .none) (hrights : rights &&& ~~~rightAll = 0) :
    (s.tables r.table).handleTableResolve r.handle kind rights = .ok o ↔
      o = r.object ∧ kind = r.kind ∧ r.rights &&& rights = rights := by
  obtain ⟨i, hi, ho, hk, hrs⟩ := h.opened r hr hc
  have hdecode : (s.tables r.table).decodeHandle r.handle = .ok i := by
    rw [hi, decodeHandle_encode (h.sized hid.tagOf.1), if_neg]
    rintro (hx | hx)
    · have hx' : (s.entry r.table i).object.isNone := hx
      rw [ho] at hx'
      cases hx'
    · exact hx rfl
  have hentry : (s.tables r.table).entries i = s.entry r.table i := rfl
  rw [handleTableResolve_decoded hkind hrights hdecode, hentry, ho, hk, hrs]
  by_cases hsame : r.kind = kind
  · by_cases hhas : r.rights &&& rights = rights
    · rw [if_neg (not_not.mpr hsame), if_neg (not_not.mpr hhas)]
      exact ⟨fun hx => ⟨(Except.ok.inj hx).symm, hsame.symm, hhas⟩, fun hx => congrArg Except.ok hx.1.symm⟩
    · rw [if_neg (not_not.mpr hsame), if_pos hhas]
      exact ⟨(fun hx => by cases hx), fun hx => absurd hx.2.2 hhas⟩
  · rw [if_pos hsame]
    exact ⟨(fun hx => by cases hx), fun hx => absurd hx.2.1.symm hsame⟩

theorem Kept.rejected (hid : Owners identity) (h : Kept (tagOf identity) closes s entries) (hr : r ∈ entries)
    (hold : t ≠ r.table ∨ ∃ k, r.closed = some k ∧ k < 2 ^ 24 - 2) : Rejected s t r.handle := by
  obtain ⟨hsmall, -, hdistinct⟩ := hid.tagOf
  obtain ⟨i, n, hh, hn⟩ : ∃ i n, r.handle = encodeHandle i (generationAfter (tagOf identity r.table) n) ∧
      ∀ k, r.closed = some k → closes r.table i = n + 1 + k := by
    cases hclosed : r.closed with
    | none =>
      obtain ⟨i, hi, -⟩ := h.opened r hr hclosed
      rw [h.generation] at hi
      exact ⟨i, closes r.table i, hi, nofun⟩
    | some k =>
      obtain ⟨i, n, hh, hn⟩ := h.closed r hr k hclosed
      exact ⟨i, n, hh, fun k' hk => Option.some.inj hk ▸ hn⟩
  have hsized : (generationAfter (tagOf identity r.table) n).toNat < 2 ^ 48 := by
    rw [generationAfter_toNat (hsmall _)]
    have := hsmall r.table
    omega
  refine rejected_of_decode (e := .badHandle) ?_
  rw [hh, decodeHandle_encode hsized, if_pos (Or.inr fun hx => ?_)]
  have hgeneration : (s.entry t i).generation = generationAfter (tagOf identity r.table) n := hx
  rw [h.generation] at hgeneration
  obtain ⟨htag, hmod⟩ := generationAfter_inj (hsmall _) (hsmall _) hgeneration
  have ht := hdistinct htag
  rcases hold with hne | ⟨k, hk, hlt⟩
  · exact hne ht
  · rw [ht, hn k hk] at hmod
    omega

theorem Kept.subset (hid : Owners identity) (h : Kept (tagOf identity) closes s entries) {call : HandleCall ι ω Obj}
    (hcopies : call.Copies t source t' reduced) : wp call.run (fun v _ => ∃ r ∈ entries, r.table = t ∧ r.handle = source ∧
      r.closed = none ∧ reduced &&& ~~~r.rights = 0 ∧
      ∃ handle, v = some handle ∧ ⟨t', handle, r.object, r.kind, reduced, none⟩ ∈ call.log entries v) (fun _ _ => True) s := by
  have hsmall := hid.tagOf.1
  cases call with
  | insert => exact hcopies.elim
  | resolve => exact hcopies.elim
  | close => exact hcopies.elim
  | closeAll => exact hcopies.elim
  | duplicate table handle reducedRights out =>
    obtain ⟨rfl, rfl, rfl, rfl⟩ := hcopies
    simp only [run, wp_map]
    refine wp_mono duplicate_spec (fun issued u ⟨i, j, hc, hf, hh, hu⟩ => ?_) fun _ _ _ => trivial
    obtain ⟨r, hr, ht, hs, hopen, -, -, hrights, hcopy⟩ := h.copy_eq hsmall hc.decoded
    refine ⟨r, hr, ht, hs, hopen, hrights ▸ hc.reduced, issued, rfl, ?_⟩
    simp only [log, Option.elim_some]
    rw [hcopy]
    exact List.mem_cons_self
  | transfer sourceTable destinationTable handle reducedRights closeSource out =>
    obtain ⟨rfl, rfl, rfl, rfl⟩ := hcopies
    simp only [run, wp_map]
    refine wp_mono transfer_spec (fun issued u ⟨i, t'', j, hd, hc, hf, hh, hu⟩ => ?_) fun _ _ _ => trivial
    cases hd
    obtain ⟨r, hr, ht, hs, hopen, -, -, hrights, hcopy⟩ := h.copy_eq hsmall hc.decoded
    refine ⟨r, hr, ht, hs, hopen, hrights ▸ hc.reduced, issued, rfl, ?_⟩
    simp only [log]
    rw [hcopy]
    split
    · refine List.mem_map.mpr ⟨_, List.mem_cons_self, ?_⟩
      unfold Issued.afterClose
      rw [if_neg]
      rintro ⟨rfl, hslot⟩
      obtain ⟨hsource, ho⟩ := decodeHandle_eq_ok hc.decoded
      rw [hh, hsource, slot_encode_eq] at hslot
      have hempty := hf.empty
      rw [hslot] at hempty
      have ho' : (s.entry t' i).object.isSome := ho
      rw [hempty] at ho'
      cases ho'
    · exact List.mem_cons_self

/-- Handles cannot be forged or used again, and their rights only shrink. -/
theorem handleRun_sound (hid : Owners identity) (h : HandleRun identity s entries) :
    (∀ r ∈ entries, r.closed = none → ∀ kind rights object, kind ≠ .none → rights &&& ~~~rightAll = 0 →
      ((s.tables r.table).handleTableResolve r.handle kind rights = .ok object ↔
        object = r.object ∧ kind = r.kind ∧ r.rights &&& rights = rights)) ∧
    (∀ r ∈ entries, ∀ further, r.closed = some further → further < 2 ^ 24 - 2 → Rejected s r.table r.handle) ∧
    (∀ r ∈ entries, ∀ t, t ≠ r.table → Rejected s t r.handle) ∧
    (∀ (call : HandleCall ι ω Obj) t source t' reduced v u, call.Copies t source t' reduced → call.run s = (.ok v, u) →
      ∃ r ∈ entries, r.table = t ∧ r.handle = source ∧ r.closed = none ∧ reduced &&& ~~~r.rights = 0 ∧
        ∃ handle, v = some handle ∧ ⟨t', handle, r.object, r.kind, reduced, none⟩ ∈ call.log entries v) ∧
    ∀ t, (s.tables t).openCount = s.occupied t := by
  obtain ⟨closes, hk⟩ := kept_run hid h
  refine ⟨fun r hr hc kind rights object hkind hrights => hk.resolve hid hr hc hkind hrights,
    fun r hr k hclosed hlt => hk.rejected hid hr (Or.inr ⟨k, hclosed, hlt⟩), fun r hr t ht => hk.rejected hid hr (Or.inl ht),
    fun call t source t' reduced v u hcopies hrun => ?_, hk.count⟩
  have hsubset := wp_ok (hk.subset hid hcopies) hrun
  exact hsubset

def twoOwners (t : Fin 2) : BitVec 64 := BitVec.ofNat 64 (t.1 + 1)

def twoTables : HandleTables (Fin 2) Unit Nat :=
  ⟨fun t => ⟨fun _ => ⟨none, 0, initialGeneration (tagOf twoOwners t), .none, none, none⟩, tagOf twoOwners t, 0⟩, ()⟩

theorem handleRun_sound_two : ∃ s : HandleTables (Fin 2) Unit Nat,
    (s.tables 0).handleTableResolve 0x10000010001 .file 2 = .ok 7 ∧ Rejected s 1 0x10000010001 ∧
      (s.tables 0).openCount = s.occupied 0 := by
  have hid : Owners twoOwners := ⟨by decide, by decide, by decide⟩
  have hstart : HandleRun twoOwners twoTables [] := .start (Fin.forall_fin_two.mpr ⟨rfl, rfl⟩)
  have hrun : run (.insert 0 (some 7) .file 3 none none true) twoTables = (.ok (some 0x10000010001), _) :=
    run_eq (by decide +kernel)
  obtain ⟨hopen, -, hforeign, -, hcount⟩ := handleRun_sound hid (.returned hstart hrun)
  refine ⟨_, (hopen _ List.mem_cons_self rfl .file 2 7 nofun rfl).mpr ⟨rfl, rfl, rfl⟩, hforeign _ List.mem_cons_self 1 (by decide), hcount 0⟩

end HandleTables
end InferenceOS
