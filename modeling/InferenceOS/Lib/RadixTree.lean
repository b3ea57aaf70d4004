import Mathlib.Data.List.Infix

/-! Radix trees of a fixed depth: nodes stand at the paths up to `depth`, values one step below the deepest nodes. No
    node stands at two paths. A tree in which every node but the root leads to something is determined by its values
    and by the nodes that it shares with another such tree. -/

namespace InferenceOS

/-- Nodes and values at paths of indices. -/
@[ext] structure RadixTree (Index Node Value : Type) (depth : Nat) where
  node : List Index → Option Node
  value : List Index → Option Value
  parent : ∀ {p i}, (node (p ++ [i])).isSome → (node p).isSome
  distinct : ∀ {p q a}, node p = some a → node q = some a → p = q
  shallow : ∀ {p}, (node p).isSome → p.length ≤ depth
  hung : ∀ {p}, (value p).isSome → ∃ q i, p = q ++ [i] ∧ (node q).isSome ∧ q.length = depth

namespace RadixTree
variable {Index Node Value : Type} {depth : Nat} {t u : RadixTree Index Node Value depth} {p q : List Index} {i : Index}
  {a : Node} {v : Value}

theorem node_of_isPrefix (h : q <+: p) (hp : (t.node p).isSome) : (t.node q).isSome := by
  obtain ⟨rest, rfl⟩ := h
  induction rest using List.reverseRecOn with
  | nil => rwa [List.append_nil] at hp
  | append_singleton rest j ih =>
    rw [← List.append_assoc] at hp
    exact ih (t.parent hp)

theorem value_length (h : (t.value p).isSome) : p.length = depth + 1 := by
  obtain ⟨q, i, rfl, -, hq⟩ := t.hung h
  rw [List.length_append, hq]
  rfl

/-! ### Operations -/

/-- The tree without the paths of a set that holds all extensions of its members. -/
noncomputable def cut (t : RadixTree Index Node Value depth) (gone : List Index → Prop)
    (h : ∀ {p q}, p <+: q → gone p → gone q) : RadixTree Index Node Value depth :=
  open Classical in
  { node := fun p => if gone p then none else t.node p
    value := fun p => if gone p then none else t.value p
    parent := by
      intro p i hp
      split at hp
      · cases hp
      · rename_i hn
        rw [if_neg fun hx => hn (h (List.prefix_append p [i]) hx)]
        exact t.parent hp
    distinct := by
      intro p q a hp hq
      split at hp
      · cases hp
      · split at hq
        · cases hq
        · exact t.distinct hp hq
    shallow := by
      intro p hp
      split at hp
      · cases hp
      · exact t.shallow hp
    hung := by
      intro p hp
      split at hp
      · cases hp
      · rename_i hn
        obtain ⟨q, i, rfl, hq, hd⟩ := t.hung hp
        refine ⟨q, i, rfl, ?_, hd⟩
        rwa [if_neg fun hx => hn (h (List.prefix_append q [i]) hx)] }

/-- The tree without what stands at a path or below. -/
noncomputable def cutAt (t : RadixTree Index Node Value depth) (p : List Index) : RadixTree Index Node Value depth :=
  t.cut (p <+: ·) fun hq hp => hp.trans hq

/-- The tree with a node that it did not have. -/
noncomputable def link (t : RadixTree Index Node Value depth) (p : List Index) (i : Index) (a : Node)
    (hp : (t.node p).isSome) (hd : p.length < depth) (ha : ∀ q, t.node q ≠ some a) : RadixTree Index Node Value depth :=
  open Classical in
  { node := fun q => if q = p ++ [i] then some a else t.node q
    value := t.value
    parent := by
      intro q j hq
      split
      · rfl
      · split at hq
        · rename_i hx
          rw [(List.append_inj' hx rfl).1]
          exact hp
        · exact t.parent hq
    distinct := by
      intro q r b hq hr
      split at hq <;> split at hr
      · rename_i h₁ h₂
        rw [h₁, h₂]
      · cases hq
        exact absurd hr (ha r)
      · cases hr
        exact absurd hq (ha q)
      · exact t.distinct hq hr
    shallow := by
      intro q hq
      split at hq
      · rename_i hx
        rw [hx, List.length_append]
        exact hd
      · exact t.shallow hq
    hung := by
      intro q hq
      obtain ⟨r, j, hr, hn, hl⟩ := t.hung hq
      refine ⟨r, j, hr, ?_, hl⟩
      split
      · rfl
      · exact hn }

/-- The tree with a value below one of its deepest nodes. -/
noncomputable def insert (t : RadixTree Index Node Value depth) (p : List Index) (i : Index) (v : Value)
    (hp : (t.node p).isSome) (hd : p.length = depth) : RadixTree Index Node Value depth :=
  open Classical in
  { node := t.node
    value := fun q => if q = p ++ [i] then some v else t.value q
    parent := t.parent
    distinct := t.distinct
    shallow := t.shallow
    hung := by
      intro q hq
      split at hq
      · rename_i hx
        exact ⟨p, i, hx, hp, hd⟩
      · exact t.hung hq }

/-- The tree with a root and nothing else. -/
def single (a : Node) [DecidableEq Index] : RadixTree Index Node Value depth where
  node p := if p = [] then some a else none
  value _ := none
  parent := by
    intro p i hp
    rw [if_neg (List.append_ne_nil_of_right_ne_nil p (by simp))] at hp
    cases hp
  distinct := by
    intro p q b hp hq
    split at hp
    · split at hq
      · rename_i h₁ h₂
        rw [h₁, h₂]
      · cases hq
    · cases hp
  shallow := by
    intro p hp
    split at hp
    · rename_i h
      rw [h]
      exact Nat.zero_le _
    · cases hp
  hung := nofun

section Single
variable [DecidableEq Index]

theorem node_single_eq_some {b : Node} : (single a : RadixTree Index Node Value depth).node p = some b ↔ p = [] ∧ b = a := by
  show (if p = [] then some a else none) = some b ↔ _
  split
  · rename_i h
    exact ⟨fun hx => ⟨h, (Option.some.inj hx).symm⟩, fun hx => congrArg some hx.2.symm⟩
  · rename_i h
    exact ⟨nofun, fun hx => absurd hx.1 h⟩

theorem node_single_cons : (single a : RadixTree Index Node Value depth).node (i :: p) = none := by
  show (if i :: p = [] then some a else none) = none
  exact if_neg (List.cons_ne_nil i p)

end Single

section Operations
variable {gone : List Index → Prop} {h : ∀ {p q}, p <+: q → gone p → gone q}

theorem node_cut_of (hp : gone p) : (t.cut gone h).node p = none := if_pos hp

theorem node_cut_of_not (hp : ¬gone p) : (t.cut gone h).node p = t.node p := if_neg hp

theorem value_cut_of (hp : gone p) : (t.cut gone h).value p = none := if_pos hp

theorem value_cut_of_not (hp : ¬gone p) : (t.cut gone h).value p = t.value p := if_neg hp

theorem node_cut_eq_some : (t.cut gone h).node p = some a ↔ ¬gone p ∧ t.node p = some a := by
  by_cases hp : gone p
  · rw [node_cut_of hp]
    exact ⟨nofun, fun hx => absurd hp hx.1⟩
  · rw [node_cut_of_not hp]
    exact ⟨fun hx => ⟨hp, hx⟩, fun hx => hx.2⟩

theorem value_cut_eq_some : (t.cut gone h).value p = some v ↔ ¬gone p ∧ t.value p = some v := by
  by_cases hp : gone p
  · rw [value_cut_of hp]
    exact ⟨nofun, fun hx => absurd hp hx.1⟩
  · rw [value_cut_of_not hp]
    exact ⟨fun hx => ⟨hp, hx⟩, fun hx => hx.2⟩

theorem cut_cut {gone' : List Index → Prop} {h' : ∀ {p q}, p <+: q → gone' p → gone' q} :
    (t.cut gone h).cut gone' h' = t.cut (fun p => gone p ∨ gone' p) fun hq hp => hp.imp (h hq) (h' hq) := by
  refine RadixTree.ext (funext fun p => Option.ext fun a => ?_) (funext fun p => Option.ext fun v => ?_)
  · rw [node_cut_eq_some, node_cut_eq_some, node_cut_eq_some]
    tauto
  · rw [value_cut_eq_some, value_cut_eq_some, value_cut_eq_some]
    tauto

theorem cut_congr {gone' : List Index → Prop} {h' : ∀ {p q}, p <+: q → gone' p → gone' q} (he : ∀ p, gone p ↔ gone' p) :
    t.cut gone h = t.cut gone' h' := by
  refine RadixTree.ext (funext fun p => Option.ext fun a => ?_) (funext fun p => Option.ext fun v => ?_)
  · rw [node_cut_eq_some, node_cut_eq_some, he]
  · rw [value_cut_eq_some, value_cut_eq_some, he]

theorem cut_eq_self (hn : ∀ p, gone p → t.node p = none ∧ t.value p = none) : t.cut gone h = t := by
  refine RadixTree.ext (funext fun p => ?_) (funext fun p => ?_)
  · by_cases hp : gone p
    · rw [node_cut_of hp, (hn p hp).1]
    · exact node_cut_of_not hp
  · by_cases hp : gone p
    · rw [value_cut_of hp, (hn p hp).2]
    · exact value_cut_of_not hp

variable {hp : (t.node p).isSome} {hd : p.length < depth} {ha : ∀ q, t.node q ≠ some a} {hl : p.length = depth}

theorem node_link_self : (t.link p i a hp hd ha).node (p ++ [i]) = some a := if_pos rfl

theorem node_link_of_ne (h : q ≠ p ++ [i]) : (t.link p i a hp hd ha).node q = t.node q := if_neg h

theorem value_insert_self : (t.insert p i v hp hl).value (p ++ [i]) = some v := if_pos rfl

theorem value_insert_of_ne (h : q ≠ p ++ [i]) : (t.insert p i v hp hl).value q = t.value q := if_neg h

end Operations

theorem node_cutAt_of_not (h : ¬p <+: q) : (t.cutAt p).node q = t.node q := node_cut_of_not h

theorem value_cutAt_of_not (h : ¬p <+: q) : (t.cutAt p).value q = t.value q := value_cut_of_not h

theorem node_cutAt_eq_some : (t.cutAt p).node q = some a ↔ ¬p <+: q ∧ t.node q = some a := node_cut_eq_some

theorem value_cutAt_eq_some : (t.cutAt p).value q = some v ↔ ¬p <+: q ∧ t.value q = some v := value_cut_eq_some

theorem node_cutAt_leaf (h : p.length = depth + 1) : (t.cutAt p).node = t.node := by
  funext q
  by_cases hq : p <+: q
  · refine (node_cut_of hq).trans ?_
    by_contra hx
    have := t.shallow (Option.isSome_iff_ne_none.mpr (Ne.symm hx))
    have := hq.length_le
    omega
  · exact node_cutAt_of_not hq

theorem value_cutAt_leaf [DecidableEq Index] (h : p.length = depth + 1) : (t.cutAt p).value = Function.update t.value p none := by
  funext q
  by_cases hq : q = p
  · rw [hq, Function.update_self]
    exact value_cut_of List.prefix_rfl
  · rw [Function.update_of_ne hq]
    by_cases hx : p <+: q
    · refine (value_cut_of hx).trans ?_
      by_contra hy
      have := value_length (Option.isSome_iff_ne_none.mpr (Ne.symm hy))
      exact hq (hx.eq_of_length (by omega)).symm
    · exact value_cutAt_of_not hx

/-! ### Pruned trees -/

/-- A node or a value stands one step below the path. -/
def Alive (t : RadixTree Index Node Value depth) (p : List Index) : Prop :=
  ∃ i, (t.node (p ++ [i])).isSome ∨ (t.value (p ++ [i])).isSome

theorem isPrefix_of_concat (h : q <+: p ++ [i]) (hne : q ≠ p ++ [i]) : q <+: p :=
  (List.prefix_concat_iff.mp h).resolve_left hne

theorem Alive.of_below (h : p <+: q) (hne : q ≠ p) (hq : (t.node q).isSome ∨ (t.value q).isSome) : t.Alive p := by
  obtain ⟨rest, rfl⟩ := h
  cases rest with
  | nil => exact absurd (List.append_nil p) hne
  | cons j rest =>
    by_cases hr : rest = []
    · subst hr
      exact ⟨j, hq⟩
    · have hsplit : p ++ j :: rest = p ++ [j] ++ rest := by rw [List.append_assoc, List.singleton_append]
      rw [hsplit] at hq
      refine ⟨j, Or.inl ?_⟩
      rcases hq with hq | hq
      · exact node_of_isPrefix (List.prefix_append _ rest) hq
      · obtain ⟨r, k, hr', hn, -⟩ := t.hung hq
        refine node_of_isPrefix (isPrefix_of_concat ⟨rest, hr'⟩ fun hx => ?_) hn
        rw [hx] at hr'
        exact hr (List.append_right_eq_self.mp hr')

theorem not_alive_of_node (h : t.node p = none) : ¬t.Alive p := by
  rintro ⟨i, hx | hx⟩
  · have hp := t.parent hx
    rw [h] at hp
    cases hp
  · obtain ⟨q, j, hq, hn, -⟩ := t.hung hx
    rw [← (List.append_inj' hq rfl).1, h] at hn
    cases hn

theorem not_alive_link {hp : (t.node p).isSome} {hd : p.length < depth} {ha : ∀ q, t.node q ≠ some a} (h : t.node (p ++ [i]) = none) :
    ¬(t.link p i a hp hd ha).Alive (p ++ [i]) := by
  rintro ⟨j, hx | hx⟩
  · rw [node_link_of_ne (by simp)] at hx
    exact not_alive_of_node h ⟨j, Or.inl hx⟩
  · exact not_alive_of_node h ⟨j, Or.inr hx⟩

theorem cutAt_link {hp : (t.node p).isSome} {hd : p.length < depth} {ha : ∀ q, t.node q ≠ some a} (h : t.node (p ++ [i]) = none) :
    (t.link p i a hp hd ha).cutAt (p ++ [i]) = t := by
  have hnone : ∀ q, p ++ [i] <+: q → t.node q = none ∧ t.value q = none := by
    intro q hq
    have hself : t.value (p ++ [i]) = none := by
      by_contra hx
      have hl := value_length (Option.isSome_iff_ne_none.mpr hx)
      rw [List.length_append, List.length_singleton] at hl
      omega
    by_cases hne : q = p ++ [i]
    · rw [hne]
      exact ⟨h, hself⟩
    · refine ⟨?_, ?_⟩
      all_goals
        by_contra hx
        replace hx := Option.isSome_iff_ne_none.mpr hx
      · exact not_alive_of_node h (Alive.of_below hq hne (Or.inl hx))
      · exact not_alive_of_node h (Alive.of_below hq hne (Or.inr hx))
  refine RadixTree.ext (funext fun q => ?_) (funext fun q => ?_)
  · by_cases hq : p ++ [i] <+: q
    · exact (node_cut_of hq).trans (hnone q hq).1.symm
    · rw [node_cutAt_of_not hq, node_link_of_ne]
      rintro rfl
      exact hq List.prefix_rfl
  · by_cases hq : p ++ [i] <+: q
    · exact (value_cut_of hq).trans (hnone q hq).2.symm
    · exact value_cutAt_of_not hq

theorem cutAt_eq_self (hn : t.node p = none) (hv : t.value p = none) : t.cutAt p = t := by
  refine cut_eq_self fun q hq => ?_
  by_cases hne : q = p
  · rw [hne]
    exact ⟨hn, hv⟩
  · refine ⟨?_, ?_⟩
    all_goals
      by_contra hx
      replace hx := Option.isSome_iff_ne_none.mpr hx
    · exact not_alive_of_node hn (Alive.of_below hq hne (Or.inl hx))
    · exact not_alive_of_node hn (Alive.of_below hq hne (Or.inr hx))

/-- The second path goes on from the first one. -/
def Below (p q : List Index) : Prop := ∃ i, p ++ [i] <+: q

theorem Below.mono {r : List Index} (hq : q <+: r) (h : Below p q) : Below p r := h.imp fun _ hi => hi.trans hq

theorem not_below_self : ¬Below p p := by
  rintro ⟨i, hi⟩
  have := hi.length_le
  rw [List.length_append, List.length_singleton] at this
  omega

/-- The tree without what stands below a path. -/
noncomputable def clear (t : RadixTree Index Node Value depth) (p : List Index) : RadixTree Index Node Value depth :=
  t.cut (Below p) Below.mono

theorem node_clear_self : (t.clear p).node p = t.node p := node_cut_of_not (h := Below.mono) not_below_self

theorem not_alive_clear : ¬(t.clear p).Alive p := by
  rintro ⟨i, hx | hx⟩
  · rw [clear, node_cut_of (h := Below.mono) ⟨i, List.prefix_rfl⟩] at hx
    cases hx
  · rw [clear, value_cut_of (h := Below.mono) ⟨i, List.prefix_rfl⟩] at hx
    cases hx

theorem cutAt_clear : (t.clear p).cutAt p = t.cutAt p := by
  unfold clear cutAt
  rw [cut_cut]
  refine cut_congr fun q => ⟨?_, Or.inr⟩
  rintro (⟨i, hi⟩ | hq)
  · exact (List.prefix_append p [i]).trans hi
  · exact hq

theorem foldl_cutAt {l : List Index} : l.foldl (fun u i => u.cutAt (p ++ [i])) t =
    t.cut (fun q => ∃ i ∈ l, p ++ [i] <+: q) fun hq ⟨i, hl, hi⟩ => ⟨i, hl, hi.trans hq⟩ := by
  induction l generalizing t with
  | nil => exact (cut_eq_self fun q ⟨i, hi, _⟩ => nomatch hi).symm
  | cons j l ih =>
    rw [List.foldl_cons, ih, cutAt, cut_cut]
    refine cut_congr fun q => ?_
    simp only [List.mem_cons, exists_eq_or_imp]

theorem foldl_cutAt_eq_clear {l : List Index} (hl : ∀ i, i ∈ l) : l.foldl (fun u i => u.cutAt (p ++ [i])) t = t.clear p := by
  rw [foldl_cutAt]
  unfold clear
  exact cut_congr fun q => ⟨fun ⟨i, _, hi⟩ => ⟨i, hi⟩, fun ⟨i, hi⟩ => ⟨i, hl i, hi⟩⟩

/-- Every node but the root and those above `p` leads to something. -/
def PrunedBut (t : RadixTree Index Node Value depth) (p : List Index) : Prop :=
  ∀ q, q ≠ [] → (t.node q).isSome → t.Alive q ∨ q <+: p

/-- Every node but the root leads to something. -/
def Pruned (t : RadixTree Index Node Value depth) : Prop := t.PrunedBut []

theorem PrunedBut.mono (h : t.PrunedBut p) (hp : p <+: q) : t.PrunedBut q :=
  fun r hr hn => (h r hr hn).imp_right fun hx => hx.trans hp

theorem Pruned.but (h : t.Pruned) : t.PrunedBut p := PrunedBut.mono h List.nil_prefix

theorem PrunedBut.alive (h : t.PrunedBut (p ++ [i])) (ha : t.Alive (p ++ [i])) : t.PrunedBut p := by
  intro q hq hn
  rcases h q hq hn with hx | hx
  · exact Or.inl hx
  · by_cases he : q = p ++ [i]
    · exact Or.inl (he ▸ ha)
    · exact Or.inr (isPrefix_of_concat hx he)

theorem PrunedBut.link {hp : (t.node p).isSome} {hd : p.length < depth} {ha : ∀ q, t.node q ≠ some a} (h : t.PrunedBut p) :
    (t.link p i a hp hd ha).PrunedBut (p ++ [i]) := by
  intro q hq hn
  by_cases he : q = p ++ [i]
  · exact Or.inr (he ▸ List.prefix_rfl)
  · rw [node_link_of_ne he] at hn
    rcases h q hq hn with ⟨j, hx | hx⟩ | hx
    · refine Or.inl ⟨j, Or.inl ?_⟩
      by_cases hj : q ++ [j] = p ++ [i]
      · rw [hj, node_link_self]
        rfl
      · rwa [node_link_of_ne hj]
    · exact Or.inl ⟨j, Or.inr hx⟩
    · exact Or.inr (hx.trans (List.prefix_append p [i]))

theorem PrunedBut.insert {hp : (t.node p).isSome} {hl : p.length = depth} (h : t.PrunedBut p) :
    (t.insert p i v hp hl).Pruned := by
  intro q hq hn
  refine Or.inl ?_
  rcases h q hq hn with ⟨j, hx | hx⟩ | hx
  · exact ⟨j, Or.inl hx⟩
  · refine ⟨j, Or.inr ?_⟩
    by_cases hj : q ++ [j] = p ++ [i]
    · rw [hj, value_insert_self]
      rfl
    · rwa [value_insert_of_ne hj]
  · by_cases he : q = p
    · subst he
      exact ⟨i, Or.inr (by rw [value_insert_self]; rfl)⟩
    · obtain ⟨rest, hr⟩ := hx
      cases rest with
      | nil => exact absurd (by rw [← hr, List.append_nil]) he
      | cons j rest => exact ⟨j, Or.inl (node_of_isPrefix ⟨rest, by rw [List.append_assoc]; exact hr⟩ hp)⟩

theorem PrunedBut.cutAt (h : t.PrunedBut (p ++ [i])) : (t.cutAt (p ++ [i])).PrunedBut p := by
  intro q hq hn
  obtain ⟨a, ha⟩ := Option.isSome_iff_exists.mp hn
  obtain ⟨hout, hnode⟩ := node_cut_eq_some.mp ha
  -- One step below `q` the cut removes nothing unless `q` is `p`.
  have hstep : ∀ j, ¬p ++ [i] <+: q ++ [j] ∨ q = p := by
    intro j
    by_cases hx : p ++ [i] <+: q ++ [j]
    · by_cases he : p ++ [i] = q ++ [j]
      · exact Or.inr (List.append_inj' he rfl).1.symm
      · exact absurd (isPrefix_of_concat hx he) hout
    · exact Or.inl hx
  rcases h q hq (Option.isSome_of_eq_some hnode) with ⟨j, hx⟩ | hx
  · rcases hstep j with hj | rfl
    · refine Or.inl ⟨j, ?_⟩
      show (((t.cut _ _).node _).isSome ∨ ((t.cut _ _).value _).isSome)
      rwa [node_cut_of_not hj, value_cut_of_not hj]
    · exact Or.inr List.prefix_rfl
  · exact Or.inr (isPrefix_of_concat hx fun he => hout (he ▸ List.prefix_rfl))

theorem Pruned.node_iff (h : t.Pruned) (hp : p ≠ []) :
    (t.node p).isSome ↔ p.length ≤ depth ∧ ∃ q, p <+: q ∧ (t.value q).isSome := by
  constructor
  · intro hn
    refine ⟨t.shallow hn, ?_⟩
    generalize hk : depth - p.length = k
    induction k generalizing p with
    | zero =>
      rcases h p hp hn with ⟨i, hx | hx⟩ | hx
      · have hlt := t.shallow hx
        rw [List.length_append, List.length_singleton] at hlt
        omega
      · exact ⟨p ++ [i], List.prefix_append p [i], hx⟩
      · exact absurd (List.prefix_nil.mp hx) hp
    | succ k ih =>
      rcases h p hp hn with ⟨i, hx | hx⟩ | hx
      · have hlength : depth - (p ++ [i]).length = k := by
          rw [List.length_append, List.length_singleton]
          omega
        obtain ⟨q, hq, hv⟩ := ih (List.append_ne_nil_of_right_ne_nil p (by simp)) hx hlength
        exact ⟨q, (List.prefix_append p [i]).trans hq, hv⟩
      · exact ⟨p ++ [i], List.prefix_append p [i], hx⟩
      · exact absurd (List.prefix_nil.mp hx) hp
  · rintro ⟨hl, q, hq, hv⟩
    obtain ⟨r, i, rfl, hn, hd⟩ := t.hung hv
    refine node_of_isPrefix (isPrefix_of_concat hq ?_) hn
    rintro rfl
    rw [List.length_append, List.length_singleton] at hl
    omega

theorem Pruned.node_eq (ht : t.Pruned) (hu : u.Pruned) (hroot : t.node [] = u.node [])
    (hvalue : ∀ p, (t.value p).isSome ↔ (u.value p).isSome)
    (hagree : ∀ p a b, t.node p = some a → u.node p = some b → a = b) : t.node = u.node := by
  funext p
  by_cases hp : p = []
  · rw [hp, hroot]
  · have hsome : (t.node p).isSome ↔ (u.node p).isSome := by
      rw [ht.node_iff hp, hu.node_iff hp]
      simp only [hvalue]
    cases hx : t.node p with
    | none =>
      rw [hx] at hsome
      cases hy : u.node p with
      | none => rfl
      | some b =>
        rw [hy] at hsome
        exact absurd (hsome.mpr rfl) nofun
    | some a =>
      rw [hx] at hsome
      obtain ⟨b, hb⟩ := Option.isSome_iff_exists.mp (hsome.mp rfl)
      rw [hb, hagree p a b hx hb]

theorem pruned_single [DecidableEq Index] : (single a : RadixTree Index Node Value depth).Pruned := by
  intro q hq hn
  obtain ⟨b, hb⟩ := Option.isSome_iff_exists.mp hn
  exact absurd (node_single_eq_some.mp hb).1 hq

end RadixTree
end InferenceOS
