import Mathlib.Data.Fintype.Prod
import Mathlib.Data.Fintype.Card
import InferenceOS.Theorems.Handles

/-! The references that handle tables hold. When every entry has the same retain and release functions, and these
    count the references of an object in the world, then each call keeps the count exact. -/

namespace InferenceOS
open Program

namespace HandleTables
variable {ι ω Obj : Type} [DecidableEq ι] [Fintype ι] [DecidableEq Obj] {s u : HandleTables ι ω Obj} {t t' : ι}
  {i j : Fin handleTableCapacity} {o x : Obj} {kind : IosObjectKind} {rights reduced : BitVec 64}

def references (s : HandleTables ι ω Obj) (o : Obj) : Nat :=
  (Finset.univ.filter fun p : ι × Fin handleTableCapacity => (s.entry p.1 p.2).object = some o).card

def one (o x : Obj) : Nat := if x = o then 1 else 0

omit [DecidableEq ι] in
theorem references_le : s.references x ≤ Fintype.card ι * handleTableCapacity := by
  refine le_trans (Finset.card_filter_le _ _) ?_
  rw [Finset.card_univ, Fintype.card_prod, Fintype.card_fin]

omit [DecidableEq ι] in
theorem references_pos (ho : (s.entry t i).object = some o) : 0 < s.references o :=
  Finset.card_pos.mpr ⟨(t, i), Finset.mem_filter.mpr ⟨Finset.mem_univ _, ho⟩⟩

omit [DecidableEq ι] in
theorem references_eq_zero (h : ∀ t i, (s.entry t i).object ≠ some o) : s.references o = 0 := by
  rw [references, Finset.filter_false_of_mem fun p _ => h p.1 p.2, Finset.card_empty]

theorem card_set {α β : Type} [Fintype α] [DecidableEq α] [DecidableEq β] {f g : α → Option β} {a : α} {b x : β} (hf : f a = none)
    (hg : ∀ c, g c = if c = a then some b else f c) : (Finset.univ.filter fun c => g c = some x).card =
      (Finset.univ.filter fun c => f c = some x).card + one b x := by
  unfold one
  split
  · rename_i hx
    have hnot : a ∉ Finset.univ.filter fun c => f c = some x := by
      rw [Finset.mem_filter, hf]
      exact fun hy => nomatch hy.2
    rw [← Finset.card_insert_of_notMem hnot]
    congr 1
    ext c
    rw [Finset.mem_filter, Finset.mem_insert, Finset.mem_filter, hg, hx]
    by_cases hc : c = a
    · rw [if_pos hc]
      exact ⟨fun _ => Or.inl hc, fun _ => ⟨Finset.mem_univ _, rfl⟩⟩
    · rw [if_neg hc, or_iff_right hc]
  · rename_i hx
    rw [Nat.add_zero]
    congr 1
    refine Finset.filter_congr fun c _ => ?_
    rw [hg]
    split
    · rename_i hc
      rw [hc, hf]
      exact ⟨fun hy => absurd (Option.some.inj hy).symm hx, nofun⟩
    · rfl

theorem references_set (he : (s.entry t i).object = none) (hu : ∀ t' j, (u.entry t' j).object =
    if t' = t ∧ j = i then some o else (s.entry t' j).object) : u.references x = s.references x + one o x :=
  card_set (a := (t, i)) he fun p => by
    rw [hu p.1 p.2]
    exact if_congr ⟨fun hp => Prod.ext hp.1 hp.2, fun hp => ⟨congrArg Prod.fst hp, congrArg Prod.snd hp⟩⟩ rfl rfl

theorem references_fill {retain release : Option (Obj → ω → ω)} (he : (s.entry t i).object = none) :
    (s.fill t i (some o) kind rights retain release).references x = s.references x + one o x := by
  refine references_set he fun t' j => ?_
  rw [fill_entry]
  split <;> rfl

theorem references_vacate (ho : (s.entry t i).object = some o) : s.references x = (s.vacate t i).references x + one o x := by
  refine references_set (t := t) (i := i) ?_ fun t' j => ?_
  · rw [vacate_entry, if_pos ⟨rfl, rfl⟩]
  · rw [vacate_entry]
    split
    · rename_i hx
      rw [hx.1, hx.2, ho]
    · rfl

variable {retain release : Obj → ω → ω} {A : (Obj → Nat) → ω → Prop} {limit : Nat} {extra : Obj → Nat}

structure Accounting (retain release : Obj → ω → ω) (A : (Obj → Nat) → ω → Prop) (limit : Nat) : Prop where
  retain : ∀ f w o, A f w → 0 < f o → f o < limit → A (fun x => f x + one o x) (retain o w)
  release : ∀ f w o, A (fun x => f x + one o x) w → A f (release o w)

/-- The world counts the references of the tables and `extra` ones. -/
structure Counted (retain release : Obj → ω → ω) (A : (Obj → Nat) → ω → Prop) (extra : Obj → Nat)
    (s : HandleTables ι ω Obj) : Prop where
  counts : A (fun x => s.references x + extra x) s.world
  functions : ∀ t i, (s.entry t i).object.isSome →
    (s.entry t i).retain = some retain ∧ (s.entry t i).release = some release
  tag : ∀ t, (s.tables t).ownerTag.toNat < 2 ^ 24
  generation : ∀ t i, (s.entry t i).generation.toNat < 2 ^ 48

section Rules
variable (ha : Accounting retain release A limit)

theorem Counted.fill (h : Counted retain release A (fun x => extra x + one o x) s) (he : (s.entry t i).object = none) :
    Counted retain release A extra (s.fill t i (some o) kind rights (some retain) (some release)) where
  counts := by
    have hcounts := h.counts
    simp only [references_fill he, fill_world]
    simpa only [Nat.add_assoc, Nat.add_comm (one o _)] using hcounts
  functions t' j hj := by
    rw [fill_entry] at hj ⊢
    split
    · exact ⟨rfl, rfl⟩
    · rename_i hx
      rw [if_neg hx] at hj
      exact h.functions t' j hj
  tag t' := by
    rw [fill_ownerTag]
    exact h.tag t'
  generation t' j := by
    rw [fill_entry]
    split
    · exact h.generation t i
    · exact h.generation t' j

omit [DecidableEq ι] in
theorem Counted.world (h : Counted retain release A extra s) {extra' : Obj → Nat} {w : ω}
    (hw : A (fun x => s.references x + extra' x) w) : Counted retain release A extra' { s with world := w } :=
  ⟨hw, h.functions, h.tag, h.generation⟩

theorem nextGeneration_lt {g : BitVec 64} {tag : BitVec 32} (ht : tag.toNat < 2 ^ 24) : (nextGeneration g tag).toNat < 2 ^ 48 := by
  have hcounter : ((g + 1) &&& 0x00ffffff).toNat < 2 ^ 24 := by
    rw [BitVec.toNat_and, show (0x00ffffff : BitVec 64).toNat = 2 ^ 24 - 1 from rfl, Nat.and_two_pow_sub_one_eq_mod]
    exact Nat.mod_lt _ (by decide)
  have hlt : ∀ c : BitVec 64, c.toNat < 2 ^ 24 → (tag.setWidth 64 <<< 24 ||| c).toNat < 2 ^ 48 := by
    intro c hc
    have hor := tag_or_toNat ht hc
    rw [BitVec.ofNat_toNat, BitVec.setWidth_eq] at hor
    rw [hor]
    omega
  unfold nextGeneration
  dsimp only
  split
  · exact hlt 1 (by decide)
  · exact hlt _ hcounter

include ha in
theorem Counted.vacate (h : Counted retain release A extra s) (ho : (s.entry t i).object = some o) :
    Counted retain release A extra (callOn (s.entry t i).release (some o) (s.vacate t i)) := by
  rw [(h.functions t i (by rw [ho]; rfl)).2]
  refine ⟨?_, fun t' j hj => ?_, fun t' => ?_, fun t' j => ?_⟩
  · have hcounts := h.counts
    simp only [references_vacate ho] at hcounts
    show A (fun x => (s.vacate t i).references x + extra x) (release o s.world)
    refine ha.release _ _ o ?_
    simpa only [Nat.add_assoc, Nat.add_comm (one o _)] using hcounts
  · rw [callOn_entry, vacate_entry] at hj ⊢
    split at hj
    · cases hj
    · rename_i hx
      rw [if_neg hx]
      exact h.functions t' j hj
  · rw [callOn_tables, vacate_ownerTag]
    exact h.tag t'
  · rw [callOn_entry, vacate_entry]
    split
    · exact nextGeneration_lt (h.tag t)
    · exact h.generation t' j

omit [DecidableEq ι] in
include ha in
theorem Counted.retained (h : Counted retain release A extra s) (hlimit : Fintype.card ι * handleTableCapacity + extra o < limit)
    (ho : (s.entry t i).object = some o) :
    Counted retain release A (fun x => extra x + one o x) (callOn (s.entry t i).retain (some o) s) := by
  rw [(h.functions t i (by rw [ho]; rfl)).1]
  refine h.world ?_
  have hpos := references_pos ho
  have hle := @references_le ι ω Obj _ _ s o
  have hretained := ha.retain _ _ o h.counts (by omega) (by omega)
  simpa only [Nat.add_assoc] using hretained

omit [DecidableEq ι] in
include ha in
theorem Counted.touch (h : Counted retain release A extra s) (hlimit : ∀ o, Fintype.card ι * handleTableCapacity + extra o < limit)
    (ho : (s.entry t i).object.isSome) : Counted retain release A extra (s.touch t i) := by
  obtain ⟨o, ho⟩ := Option.isSome_iff_exists.mp ho
  have hretained := h.retained ha (hlimit o) ho
  unfold HandleTables.touch
  rw [ho, (h.functions t i (by rw [ho]; rfl)).2]
  refine hretained.world (ha.release _ _ o ?_)
  simpa only [Nat.add_assoc] using hretained.counts

include ha in
theorem Counted.copy (h : Counted retain release A extra s)
    (hlimit : ∀ o, Fintype.card ι * handleTableCapacity + extra o < limit)
    (hf : s.Insertable t' j (s.entry t i).object kind reduced) : Counted retain release A extra (s.copy t i t' j reduced) := by
  obtain ⟨o, ho⟩ := Option.isSome_iff_exists.mp hf.object
  have hretained := h.retained ha (hlimit o) ho
  obtain ⟨hr, hl⟩ := h.functions t i hf.object
  unfold HandleTables.copy
  rw [ho, hr, hl]
  rw [hr] at hretained
  refine hretained.fill ?_
  rw [callOn_entry]
  exact hf.empty

include ha

theorem Counted.close (h : Counted retain release A extra s) {handle : Handle} :
    wp (handleTableClose t handle) (fun _ u => Counted retain release A extra u) (fun _ u => u = s) s := by
  refine wp_mono close_spec (fun _ u ⟨i, hi, hu⟩ => ?_) fun _ _ hu => hu.1
  obtain ⟨o, ho⟩ := Option.isSome_iff_exists.mp (HandleTable.decodeHandle_eq_ok hi).2
  have ho' : (s.entry t i).object = some o := ho
  rw [hu, ho']
  exact h.vacate ha ho

theorem Counted.duplicate (h : Counted retain release A extra s)
    (hlimit : ∀ o, Fintype.card ι * handleTableCapacity + extra o < limit) {source : Handle} {out : Bool} :
    wp (handleTableDuplicate t source reduced out) (fun _ u => Counted retain release A extra u)
      (fun _ u => Counted retain release A extra u) s := by
  refine wp_mono duplicate_spec (fun _ u ⟨i, j, hc, hf, _, hu⟩ => ?_) fun _ u hu => ?_
  · rw [hu]
    exact h.copy ha hlimit hf
  · rcases hu with rfl | ⟨i, hi, rfl⟩
    · exact h
    · exact h.touch ha hlimit (HandleTable.decodeHandle_eq_ok hi).2

theorem Counted.transfer (h : Counted retain release A extra s)
    (hlimit : ∀ o, Fintype.card ι * handleTableCapacity + extra o < limit) {destination : Option ι} {source : Handle}
    {closeSource out : Bool} :
    wp (handleTableTransfer t destination source reduced closeSource out) (fun _ u => Counted retain release A extra u)
      (fun _ u => Counted retain release A extra u) s := by
  refine wp_mono transfer_spec (fun _ u ⟨i, t', j, _, hc, hf, _, hu⟩ => ?_) fun _ u hu => ?_
  · have hcopied := h.copy ha hlimit hf
    rw [hu]
    split
    · obtain ⟨o, ho⟩ := Option.isSome_iff_exists.mp hf.object
      have hentry := (hc.copy_decode hf).2
      rw [← hentry] at ho ⊢
      rw [ho]
      exact hcopied.vacate ha ho
    · exact hcopied
  · rcases hu with rfl | ⟨i, hi, rfl⟩
    · exact h
    · exact h.touch ha hlimit (HandleTable.decodeHandle_eq_ok hi).2

theorem Counted.closeAll (h : Counted retain release A extra s) :
    wp (handleTableCloseAll t) (fun _ u => Counted retain release A extra u) (fun _ _ => False) s := by
  refine wp_mono (closeAll_spec (P := fun _ u => Counted retain release A extra u) (fun i _ _ hk => hk.generation t i)
    (fun _ _ _ hk _ => hk) (fun _ _ _ _ hk ho => hk.vacate ha ho) h) (fun _ u hu => ?_) fun _ _ hx => hx
  rcases hu with hu | ⟨-, rfl⟩
  · exact hu
  · exact h

end Rules
end HandleTables
end InferenceOS
