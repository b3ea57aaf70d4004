import InferenceOS.Kernel.HandleTable

/-! What the calls on handle tables do. A handle is the slot and the generation of an entry, a generation the tag of
    the table and the number of times the slot was closed. An insertion fills one empty slot, a close empties one. -/

namespace InferenceOS
open Program HandleTable

def generationAfter (ownerTag : BitVec 32) (n : Nat) : BitVec 64 :=
  ownerTag.setWidth 64 <<< 24 ||| BitVec.ofNat 64 (1 + n % (2 ^ 24 - 1))

variable {tag tag' : BitVec 32} {n n' : Nat} {index : Fin handleTableCapacity} {generation : BitVec 64} {handle : Handle}

theorem tag_or_toNat (ht : tag.toNat < 2 ^ 24) {counter : Nat} (hc : counter < 2 ^ 24) :
    (tag.setWidth 64 <<< 24 ||| BitVec.ofNat 64 counter).toNat = tag.toNat * 2 ^ 24 + counter := by
  rw [BitVec.toNat_or, BitVec.toNat_shiftLeft, BitVec.toNat_setWidth, BitVec.toNat_ofNat, Nat.shiftLeft_eq]
  rw [Nat.mod_eq_of_lt (by omega : tag.toNat < 2 ^ 64), Nat.mod_eq_of_lt (by omega : tag.toNat * 2 ^ 24 < 2 ^ 64),
    Nat.mod_eq_of_lt (by omega : counter < 2 ^ 64), ← Nat.shiftLeft_eq, Nat.shiftLeft_add_eq_or_of_lt hc]

theorem generationAfter_toNat (ht : tag.toNat < 2 ^ 24) :
    (generationAfter tag n).toNat = tag.toNat * 2 ^ 24 + (1 + n % (2 ^ 24 - 1)) :=
  tag_or_toNat ht (by omega)

theorem initialGeneration_eq : initialGeneration tag = generationAfter tag 0 := rfl

theorem ofNat_ne_zero {k : Nat} (h : 0 < k) (hk : k < 2 ^ 64) : BitVec.ofNat 64 k ≠ 0 := fun hx => by
  have := congrArg BitVec.toNat hx
  rw [BitVec.toNat_ofNat, Nat.mod_eq_of_lt hk] at this
  exact h.ne' this

theorem nextGeneration_eq (ht : tag.toNat < 2 ^ 24) : nextGeneration (generationAfter tag n) tag = generationAfter tag (n + 1) := by
  have hcounter : (generationAfter tag n + 1) &&& 0x00ffffff = BitVec.ofNat 64 ((2 + n % (2 ^ 24 - 1)) % 2 ^ 24) := by
    refine BitVec.eq_of_toNat_eq ?_
    rw [BitVec.toNat_and, show (0x00ffffff : BitVec 64).toNat = 2 ^ 24 - 1 from rfl, Nat.and_two_pow_sub_one_eq_mod,
      BitVec.toNat_add, generationAfter_toNat ht, show (1 : BitVec 64).toNat = 1 from rfl, BitVec.toNat_ofNat]
    omega
  unfold nextGeneration generationAfter
  unfold generationAfter at hcounter
  dsimp only
  rw [hcounter]
  by_cases hz : (n + 1) % (2 ^ 24 - 1) = 0
  · rw [show (2 + n % (2 ^ 24 - 1)) % 2 ^ 24 = 0 by omega, hz]
    rfl
  · rw [show (2 + n % (2 ^ 24 - 1)) % 2 ^ 24 = 1 + (n + 1) % (2 ^ 24 - 1) by omega,
      if_neg (ofNat_ne_zero (by omega) (by omega))]

theorem generationAfter_inj (ht : tag.toNat < 2 ^ 24) (ht' : tag'.toNat < 2 ^ 24)
    (h : generationAfter tag n = generationAfter tag' n') : tag = tag' ∧ n % (2 ^ 24 - 1) = n' % (2 ^ 24 - 1) := by
  have hnat := congrArg BitVec.toNat h
  rw [generationAfter_toNat ht, generationAfter_toNat ht'] at hnat
  have hsame : tag.toNat = tag'.toNat := by omega
  exact ⟨BitVec.eq_of_toNat_eq hsame, by omega⟩

theorem encodeHandle_toNat : (encodeHandle index generation).toNat = generation.toNat % 2 ^ 48 * 2 ^ 16 + (index.1 + 1) := by
  have hi : index.1 < 256 := index.2
  unfold encodeHandle
  rw [BitVec.toNat_or, BitVec.toNat_shiftLeft, BitVec.toNat_and, BitVec.toNat_ofNat,
    show (0x0000ffffffffffff : BitVec 64).toNat = 2 ^ 48 - 1 from rfl, Nat.and_two_pow_sub_one_eq_mod, Nat.shiftLeft_eq,
    Nat.mod_eq_of_lt (by omega : generation.toNat % 2 ^ 48 * 2 ^ 16 < 2 ^ 64),
    Nat.mod_eq_of_lt (by omega : index.1 + 1 < 2 ^ 64), ← Nat.shiftLeft_eq, Nat.shiftLeft_add_eq_or_of_lt (by omega)]

theorem slot_toNat : (handle &&& 0xffff).toNat = handle.toNat % 2 ^ 16 := by
  rw [BitVec.toNat_and, show (0xffff : BitVec 64).toNat = 2 ^ 16 - 1 from rfl, Nat.and_two_pow_sub_one_eq_mod]

theorem generation_toNat : (handle >>> 16 &&& 0x0000ffffffffffff).toNat = handle.toNat / 2 ^ 16 := by
  rw [BitVec.toNat_and, BitVec.toNat_ushiftRight, show (0x0000ffffffffffff : BitVec 64).toNat = 2 ^ 48 - 1 from rfl,
    Nat.and_two_pow_sub_one_eq_mod, Nat.shiftRight_eq_div_pow]
  have := handle.isLt
  omega

namespace HandleTable
variable {ω Obj : Type} {table : HandleTable ω Obj}
variable {kind : IosObjectKind} {rights : BitVec 64}

theorem decodeHandle_encode (hg : generation.toNat < 2 ^ 48) : table.decodeHandle (encodeHandle index generation) =
    if (table.entries index).object.isNone ∨ (table.entries index).generation ≠ generation then .error .badHandle else .ok index := by
  have hi : index.1 < 256 := index.2
  have hslot : (encodeHandle index generation &&& 0xffff).toNat = index.1 + 1 := by
    rw [slot_toNat, encodeHandle_toNat]
    omega
  have hgeneration : encodeHandle index generation >>> 16 &&& 0x0000ffffffffffff = generation := by
    refine BitVec.eq_of_toNat_eq ?_
    rw [generation_toNat, encodeHandle_toNat]
    omega
  have hne : encodeHandle index generation ≠ 0 := by
    intro hx
    have := congrArg BitVec.toNat hx
    rw [encodeHandle_toNat] at this
    exact absurd this (by simp)
  unfold decodeHandle
  simp only [hslot, hgeneration]
  rw [dif_neg (by omega)]
  exact if_congr (or_iff_right hne) rfl rfl

theorem decodeHandle_eq_ok (h : table.decodeHandle handle = .ok index) :
    handle = encodeHandle index (table.entries index).generation ∧ (table.entries index).object.isSome := by
  unfold decodeHandle at h
  dsimp only at h
  split at h
  · cases h
  · rename_i hslot
    split at h
    · cases h
    · rename_i hopen
      cases h
      simp only [not_or, not_not] at hopen
      refine ⟨BitVec.eq_of_toNat_eq ?_, ?_⟩
      · rw [encodeHandle_toNat, hopen.2.2, generation_toNat]
        have := handle.isLt
        have hs := @slot_toNat handle
        have hpos : (handle &&& 0xffff).toNat ≠ 0 := fun hx => hslot (Or.inl hx)
        show handle.toNat = handle.toNat / 2 ^ 16 % 2 ^ 48 * 2 ^ 16 + ((handle &&& 0xffff).toNat - 1 + 1)
        omega
      · exact Option.isSome_iff_ne_none.mpr (by simpa using hopen.2.1)

theorem handleTableResolve_decoded (hkind : kind ≠ .none)
    (hrights : rights &&& ~~~rightAll = 0) (hd : table.decodeHandle handle = .ok index) :
    table.handleTableResolve handle kind rights = (do
      if (table.entries index).kind ≠ kind then .error .wrongHandleType
      if (table.entries index).rights &&& rights ≠ rights then .error .accessDenied
      match (table.entries index).object with
      | some object => .ok object
      | none => .error .badHandle : Except IosError Obj) := by
  unfold handleTableResolve
  rw [if_neg (not_or.mpr ⟨hkind, not_not.mpr hrights⟩), hd]
  rfl

theorem handleTableResolve_of_entry {entry : HandleEntry ω Obj} {o : Obj}
    (hkind : kind ≠ .none) (hrights : rights &&& ~~~rightAll = 0) (hd : table.decodeHandle handle = .ok index)
    (he : table.entries index = entry) (ho : entry.object = some o) (hk : entry.kind = kind)
    (hr : entry.rights &&& rights = rights) : table.handleTableResolve handle kind rights = .ok o := by
  rw [handleTableResolve_decoded hkind hrights hd, he, ho, if_neg (not_not.mpr hk), if_neg (not_not.mpr hr)]

theorem handleTableResolve_eq_ok {o : Obj} (h : table.handleTableResolve handle kind rights = .ok o) :
    ∃ index, table.decodeHandle handle = .ok index ∧ (table.entries index).object = some o := by
  unfold handleTableResolve at h
  split at h
  · cases h
  · obtain ⟨index, hi, h⟩ := of_bind_ok h
    obtain ⟨-, h⟩ := of_check h
    obtain ⟨-, h⟩ := of_check h
    refine ⟨index, hi, ?_⟩
    split at h
    · rename_i ho
      rw [ho, Except.ok.inj h]
    · cases h

theorem decodeHandle_of_entry {table' : HandleTable ω Obj} (h : table.decodeHandle handle = .ok index)
    (ho : (table'.entries index).object.isSome) (hg : (table'.entries index).generation = (table.entries index).generation) :
    table'.decodeHandle handle = .ok index := by
  unfold decodeHandle at *
  dsimp only at *
  split at h
  · cases h
  · split at h
    · cases h
    · rename_i hslot hopen
      cases h
      simp only [not_or, not_not] at hopen
      rw [dif_neg hslot, if_neg]
      rw [hg, ← Option.not_isSome, ho]
      rintro (hx | hx | hx)
      · exact hopen.1 hx
      · cases hx
      · exact hx hopen.2.2

theorem setEntry_entries {entry : HandleEntry ω Obj} {other : Fin handleTableCapacity} :
    (table.setEntry index entry).entries other = if other = index then entry else table.entries other :=
  Function.update_apply _ _ _ _

end HandleTable

namespace HandleTables
variable {ι ω Obj : Type} [DecidableEq ι] {s u : HandleTables ι ω Obj} {t t' : ι} {index : Fin handleTableCapacity}
variable {source : Handle} {reduced : BitVec 64}
  {handle : Handle} {object : Option Obj} {kind : IosObjectKind} {rights : BitVec 64} {retain release : Option (Obj → ω → ω)}
  {out : Bool}

def entry (s : HandleTables ι ω Obj) (t : ι) (index : Fin handleTableCapacity) : HandleEntry ω Obj := (s.tables t).entries index

def fill (s : HandleTables ι ω Obj) (t : ι) (index : Fin handleTableCapacity) (object : Option Obj) (kind : IosObjectKind)
    (rights : BitVec 64) (retain release : Option (Obj → ω → ω)) : HandleTables ι ω Obj :=
  s.setTable t { (s.tables t).setEntry index ⟨object, rights, (s.entry t index).generation, kind, retain, release⟩ with
    openCount := (s.tables t).openCount + 1 }

def vacate (s : HandleTables ι ω Obj) (t : ι) (index : Fin handleTableCapacity) : HandleTables ι ω Obj :=
  s.setTable t { (s.tables t).setEntry index
    ⟨none, 0, nextGeneration (s.entry t index).generation (s.tables t).ownerTag, .none, none, none⟩ with
    openCount := (s.tables t).openCount - 1 }

theorem setTable_tables {table : HandleTable ω Obj} :
    (s.setTable t table).tables t' = if t' = t then table else s.tables t' :=
  Function.update_apply _ _ _ _

theorem fill_entry {j : Fin handleTableCapacity} : (s.fill t index object kind rights retain release).entry t' j =
    if t' = t ∧ j = index then ⟨object, rights, (s.entry t index).generation, kind, retain, release⟩ else s.entry t' j := by
  unfold fill
  rw [entry, setTable_tables]
  by_cases ht : t' = t
  · rw [if_pos ht, ht]
    show (setEntry _ _ _).entries j = _
    rw [setEntry_entries]
    exact if_congr (and_iff_right rfl).symm rfl rfl
  · rw [if_neg ht, if_neg fun hx => ht hx.1, entry]

theorem vacate_entry {j : Fin handleTableCapacity} : (s.vacate t index).entry t' j = if t' = t ∧ j = index then
    ⟨none, 0, nextGeneration (s.entry t index).generation (s.tables t).ownerTag, .none, none, none⟩ else s.entry t' j := by
  unfold vacate
  rw [entry, setTable_tables]
  by_cases ht : t' = t
  · rw [if_pos ht, ht]
    show (setEntry _ _ _).entries j = _
    rw [setEntry_entries]
    exact if_congr (and_iff_right rfl).symm rfl rfl
  · rw [if_neg ht, if_neg fun hx => ht hx.1, entry]

@[simp] theorem fill_ownerTag :
    ((s.fill t index object kind rights retain release).tables t').ownerTag = (s.tables t').ownerTag := by
  unfold fill
  rw [setTable_tables]
  split
  · rename_i ht
    rw [ht]
    rfl
  · rfl

@[simp] theorem vacate_ownerTag : ((s.vacate t index).tables t').ownerTag = (s.tables t').ownerTag := by
  unfold vacate
  rw [setTable_tables]
  split
  · rename_i ht
    rw [ht]
    rfl
  · rfl

theorem fill_openCount : ((s.fill t index object kind rights retain release).tables t').openCount =
    if t' = t then (s.tables t').openCount + 1 else (s.tables t').openCount := by
  unfold fill
  rw [setTable_tables]
  split
  · rename_i ht
    rw [ht]
  · rfl

theorem vacate_openCount : ((s.vacate t index).tables t').openCount =
    if t' = t then (s.tables t').openCount - 1 else (s.tables t').openCount := by
  unfold vacate
  rw [setTable_tables]
  split
  · rename_i ht
    rw [ht]
  · rfl

omit [DecidableEq ι] in
@[simp] theorem callOn_tables {f : Option (Obj → ω → ω)} : (callOn f object s).tables = s.tables := by
  unfold callOn
  split <;> rfl

omit [DecidableEq ι] in
@[simp] theorem callOn_entry {f : Option (Obj → ω → ω)} : (callOn f object s).entry = s.entry := by
  unfold entry
  rw [callOn_tables]

@[simp] theorem fill_world : (s.fill t index object kind rights retain release).world = s.world := rfl

structure Insertable (s : HandleTables ι ω Obj) (t : ι) (index : Fin handleTableCapacity) (object : Option Obj)
    (kind : IosObjectKind) (rights : BitVec 64) : Prop where
  object : object.isSome
  tag : (s.tables t).ownerTag ≠ 0
  kind : kind ≠ .none ∧ kind ≠ .unknown
  rights : rights &&& ~~~rightAll = 0
  empty : (s.entry t index).object = none

theorem insert_spec : wp (handleTableInsert t object kind rights retain release out)
    (fun handle u => ∃ index, s.Insertable t index object kind rights ∧ handle = encodeHandle index (s.entry t index).generation ∧
      u = s.fill t index object kind rights retain release) (fun _ u => u = s) s := by
  unfold handleTableInsert
  simp only [wp_bind, wp_get, wp_failIf]
  refine ⟨fun _ => trivial, fun hvalid => ?_⟩
  unfold validateNewEntry at hvalid
  simp only [decide_eq_false_iff_not, not_not] at hvalid
  obtain ⟨ho, -, htag, hnone, hunknown, hr⟩ := hvalid
  rcases hfree : (s.tables t).freeIndex with _ | index
  · simp only [wp_fail]
  · simp only [wp_bind, wp_modify, wp_pure]
    refine ⟨index, ⟨ho, htag, ⟨hnone, hunknown⟩, hr, ?_⟩, rfl, rfl⟩
    unfold freeIndex at hfree
    have hempty := List.find?_some hfree
    exact Option.isNone_iff_eq_none.mp hempty

theorem close_spec : wp (handleTableClose t handle)
    (fun _ u => ∃ index, (s.tables t).decodeHandle handle = .ok index ∧
      u = callOn (s.entry t index).release (s.entry t index).object (s.vacate t index))
    (fun _ u => u = s ∧ ∃ e, (s.tables t).decodeHandle handle = .error e) s := by
  unfold handleTableClose
  simp only [wp_bind, wp_get, wp_ofExcept, wp_modify]
  exact ⟨fun index hi => ⟨index, hi, rfl⟩, fun e he => ⟨trivial, e, he⟩⟩

structure Copyable (s : HandleTables ι ω Obj) (t : ι) (source : Handle) (reduced right : BitVec 64)
    (index : Fin handleTableCapacity) : Prop where
  decoded : (s.tables t).decodeHandle source = .ok index
  right : (s.entry t index).rights &&& right ≠ 0
  reduced : reduced &&& ~~~(s.entry t index).rights = 0

def copy (s : HandleTables ι ω Obj) (t : ι) (index : Fin handleTableCapacity) (t' : ι) (free : Fin handleTableCapacity)
    (reduced : BitVec 64) : HandleTables ι ω Obj :=
  (callOn (s.entry t index).retain (s.entry t index).object s).fill t' free (s.entry t index).object (s.entry t index).kind
    reduced (s.entry t index).retain (s.entry t index).release

def touch (s : HandleTables ι ω Obj) (t : ι) (index : Fin handleTableCapacity) : HandleTables ι ω Obj :=
  callOn (s.entry t index).release (s.entry t index).object (callOn (s.entry t index).retain (s.entry t index).object s)

theorem duplicate_spec : wp (handleTableDuplicate t source reduced out)
    (fun handle u => ∃ index free, s.Copyable t source reduced rightDuplicate index ∧
      s.Insertable t free (s.entry t index).object (s.entry t index).kind reduced ∧
      handle = encodeHandle free (s.entry t free).generation ∧ u = s.copy t index t free reduced)
    (fun _ u => u = s ∨ ∃ index, (s.tables t).decodeHandle source = .ok index ∧ u = s.touch t index) s := by
  unfold handleTableDuplicate
  simp only [wp_bind, wp_get, wp_ofExcept, wp_failIf, wp_modify, wp_attempt]
  refine ⟨fun index hi => ⟨fun _ => Or.inl trivial, fun hrights => ⟨fun _ => Or.inl trivial, fun _ => ?_⟩⟩, fun _ _ => Or.inl trivial⟩
  simp only [not_or, not_not] at hrights
  refine wp_mono insert_spec (fun handle u ⟨free, hfree, hh, hu⟩ => ?_) fun e u hu => ?_
  · rw [wp_pure]
    rw [callOn_entry] at hh
    refine ⟨index, free, ⟨hi, hrights.1, hrights.2⟩, ⟨hfree.object, ?_, hfree.kind, hfree.rights, ?_⟩, hh, hu⟩
    · have := hfree.tag
      rwa [callOn_tables] at this
    · have := hfree.empty
      rwa [callOn_entry] at this
  · simp only [wp_bind, wp_modify, wp_fail]
    rw [hu]
    exact Or.inr ⟨index, hi, rfl⟩

theorem Copyable.copy_decode {right : BitVec 64} {free : Fin handleTableCapacity}
    (h : s.Copyable t source reduced right index) (hf : s.Insertable t' free (s.entry t index).object kind rights) :
    ((s.copy t index t' free reduced).tables t).decodeHandle source = .ok index ∧
      (s.copy t index t' free reduced).entry t index = s.entry t index := by
  have hentry : (s.copy t index t' free reduced).entry t index = s.entry t index := by
    unfold copy
    rw [fill_entry, if_neg, callOn_entry]
    rintro ⟨rfl, rfl⟩
    have := hf.object
    rw [hf.empty] at this
    cases this
  refine ⟨decodeHandle_of_entry h.decoded ?_ ?_, hentry⟩
  · show ((s.copy t index t' free reduced).entry t index).object.isSome
    rw [hentry]
    exact hf.object
  · show ((s.copy t index t' free reduced).entry t index).generation = (s.entry t index).generation
    rw [hentry]

theorem close_encode {o : Obj} (hg : (s.entry t index).generation.toNat < 2 ^ 48) (ho : (s.entry t index).object = some o) :
    wp (handleTableClose t (encodeHandle index (s.entry t index).generation))
      (fun _ u => u = callOn (s.entry t index).release (some o) (s.vacate t index)) (fun _ _ => False) s := by
  have hdecode : (s.tables t).decodeHandle (encodeHandle index (s.entry t index).generation) = .ok index := by
    rw [decodeHandle_encode hg, if_neg]
    rintro (hx | hx)
    · have hx' : (s.entry t index).object.isNone := hx
      rw [ho] at hx'
      cases hx'
    · exact hx rfl
  refine wp_mono close_spec (fun _ u ⟨j, hj, hu⟩ => ?_) fun _ _ ⟨_, _, he⟩ => ?_
  · rw [hdecode] at hj
    cases hj
    rw [hu, ho]
  · rw [hdecode] at he
    cases he

theorem closeAll_spec {P : List (Fin handleTableCapacity) → HandleTables ι ω Obj → Prop}
    (hsized : ∀ index rest s, P (index :: rest) s → (s.entry t index).generation.toNat < 2 ^ 48)
    (hempty : ∀ index rest s, P (index :: rest) s → (s.entry t index).object = none → P rest s)
    (hclose : ∀ index rest s o, P (index :: rest) s → (s.entry t index).object = some o →
      P rest (callOn (s.entry t index).release (some o) (s.vacate t index)))
    (hs : P (List.finRange handleTableCapacity) s) :
    wp (handleTableCloseAll t) (fun _ u => P [] u ∨ (s.tables t).ownerTag = 0 ∧ u = s) (fun _ _ => False) s := by
  have hloop : ∀ (l : List (Fin handleTableCapacity)) (s : HandleTables ι ω Obj), P l s → wp (each (fun index => do
      let s ← get
      let entry := (s.tables t).entries index
      if entry.object.isSome then
        let _ ← attempt (handleTableClose t (encodeHandle index entry.generation))) l)
      (fun _ u => P [] u) (fun _ _ => False) s := by
    intro l
    induction l with
    | nil => exact fun s hs => hs
    | cons index rest ih =>
      intro s hs
      rw [wp_each_cons, wp_bind, wp_get]
      rw [wp_ite]
      refine ⟨fun ho => ?_, fun ho => ?_⟩
      · obtain ⟨o, ho⟩ := Option.isSome_iff_exists.mp ho
        rw [wp_bind, wp_attempt]
        refine wp_mono (close_encode (hsized _ _ _ hs) ho) (fun _ u hu => ?_) fun _ _ hx => hx.elim
        rw [hu]
        exact ih _ (hclose _ _ _ _ hs ho)
      · exact ih _ (hempty _ _ _ hs (Option.not_isSome_iff_eq_none.mp ho))
  unfold handleTableCloseAll
  rw [wp_bind, wp_get, wp_ite]
  exact ⟨fun htag => Or.inr ⟨htag, rfl⟩, fun _ => wp_mono (hloop _ _ hs) (fun _ _ hu => Or.inl hu) fun _ _ hx => hx⟩

theorem transfer_spec {destination : Option ι} {closeSource : Bool} :
    wp (handleTableTransfer t destination source reduced closeSource out)
      (fun handle u => ∃ index t' free, destination = some t' ∧ s.Copyable t source reduced rightTransfer index ∧
        s.Insertable t' free (s.entry t index).object (s.entry t index).kind reduced ∧
        handle = encodeHandle free (s.entry t' free).generation ∧
        u = if closeSource then callOn (s.entry t index).release (s.entry t index).object
          ((s.copy t index t' free reduced).vacate t index) else s.copy t index t' free reduced)
      (fun _ u => u = s ∨ ∃ index, (s.tables t).decodeHandle source = .ok index ∧ u = s.touch t index) s := by
  unfold handleTableTransfer
  simp only [wp_bind, wp_get, wp_ofExcept]
  refine ⟨fun index hi => ?_, fun _ _ => Or.inl trivial⟩
  cases destination with
  | none => exact Or.inl rfl
  | some t' =>
    simp only [wp_bind, wp_failIf, wp_modify, wp_attempt]
    refine ⟨fun _ => Or.inl trivial, fun _ => ⟨fun _ => Or.inl trivial, fun hrights => ⟨fun _ => Or.inl trivial, fun _ => ?_⟩⟩⟩
    simp only [not_or, not_not] at hrights
    have hcopyable : s.Copyable t source reduced rightTransfer index := ⟨hi, hrights.1, hrights.2⟩
    refine wp_mono insert_spec (fun handle u ⟨free, hfree, hh, hu⟩ => ?_) fun e u hu => ?_
    · rw [callOn_entry] at hh
      have hinsert : s.Insertable t' free (s.entry t index).object (s.entry t index).kind reduced := by
        refine ⟨hfree.object, ?_, hfree.kind, hfree.rights, ?_⟩
        · have := hfree.tag
          rwa [callOn_tables] at this
        · have := hfree.empty
          rwa [callOn_entry] at this
      obtain ⟨hdecode, hentry⟩ := hcopyable.copy_decode hinsert
      have hcopied : u = s.copy t index t' free reduced := hu
      cases closeSource with
      | false => exact ⟨index, t', free, rfl, hcopyable, hinsert, hh, hcopied⟩
      | true =>
        simp only [if_true, wp_bind, wp_attempt]
        refine wp_mono close_spec (fun _ v ⟨j, hj, hv⟩ => ?_) fun e v ⟨_, e', he⟩ => ?_
        · rw [hcopied, hdecode] at hj
          cases hj
          rw [hcopied, hentry] at hv
          exact ⟨index, t', free, rfl, hcopyable, hinsert, hh, hv⟩
        · rw [hcopied, hdecode] at he
          cases he
    · simp only [wp_bind, wp_modify, wp_fail]
      rw [hu]
      exact Or.inr ⟨index, hi, rfl⟩

end HandleTables
end InferenceOS
