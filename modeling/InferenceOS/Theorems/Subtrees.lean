import InferenceOS.Theorems.Tree

/-! Changes of the directory tree: a directory gets a new name, appears, disappears or moves to another
    parent. The files keep their clusters. -/

namespace InferenceOS
open FileService Function
variable {e i j : Nat} {fat : Nat → Nat} {items : Nat → Item} {p : Primary}

variable {n d k c : Nat} {D : Disk} {T T' : Tree}

structure SameFiles (T T' : Tree) : Prop where
  chain : ∀ {d i p}, T.dirs d → i < 128 → T.items d i = .file p → T'.chain d i = T.chain d i
  files : ∀ {d i p}, i < 128 → ((T'.dirs d ∧ T'.items d i = .file p) ↔ (T.dirs d ∧ T.items d i = .file p))

theorem SameFiles.owns (h : SameFiles T T') {c d : Nat} : T'.Owns c d i ↔ T.Owns c d i := by
  constructor
  · rintro ⟨hd, hi, hc, p, hp⟩
    obtain ⟨hd', hp'⟩ := (h.files hi).mp ⟨hd, hp⟩
    exact ⟨hd', hi, by rwa [← h.chain hd' hi hp'], p, hp'⟩
  · rintro ⟨hd, hi, hc, p, hp⟩
    obtain ⟨hd', hp'⟩ := (h.files hi).mpr ⟨hd, hp⟩
    exact ⟨hd', hi, by rwa [h.chain hd hi hp], p, hp'⟩

theorem Tree.Owned.directories {fat' : Nat → Nat} (h : T.Owned n fat) (hs : SameFiles T T')
    (hframe : ∀ {c d i}, T.Owns c d i → fat' c = fat c) (happart : ∀ {c d i}, T.Owns c d i → ¬T'.dirs c)
    (howner : ∀ {c}, Fat.validCluster c n → fat' c ≠ Fat.free → T'.dirs c ∨ ∃ d i, T.Owns c d i) : T'.Owned n fat' where
  content {d i p} hd hi hp := by
    obtain ⟨hd', hp'⟩ := (hs.files hi).mp ⟨hd, hp⟩
    rw [hs.chain hd' hi hp']
    exact (h.content hd' hi hp').frame fun c hc => hframe ⟨hd', hi, hc, p, hp'⟩
  disjoint ho ho' := h.disjoint (hs.owns.mp ho) (hs.owns.mp ho')
  apart ho := happart (hs.owns.mp ho)
  owner hv hu := (howner hv hu).imp_right fun ⟨d, i, ho⟩ => ⟨d, i, hs.owns.mpr ho⟩

theorem Tree.Owned.same (h : T.Owned n fat) (hs : SameFiles T T') (hdirs : T'.dirs = T.dirs) : T'.Owned n fat :=
  h.directories hs (fun _ => rfl) (fun ho => by rw [hdirs]; exact h.apart ho) fun hv hu => by
    rw [hdirs]
    exact h.owner hv hu

theorem sameFiles_setSlot {a : Item} (hold : ∀ p, T.items d k ≠ .file p) (hnew : ∀ p, a ≠ .file p) :
    SameFiles T (T.setSlot d k a) := by
  refine ⟨fun _ _ _ => rfl, fun {e i p} _ => and_congr_right fun _ => ?_⟩
  rw [Tree.setSlot_items]
  split
  · rename_i hx
    obtain ⟨rfl, rfl⟩ := hx
    exact ⟨fun hx => absurd hx (hnew p), fun hx => absurd hx (hold p)⟩
  · exact Iff.rfl

/-- A slot that is no part of a pair may be written. -/
structure Single (items : Nat → Item) (k : Nat) : Prop where
  inRange : k < 128
  alone : (items k).Free ∨ (∃ p, items k = .directory p) ∨ ∃ parent cluster, items k = .internal parent cluster
  used : ∀ j, j < k → items j ≠ .unused

theorem Single.not_file (h : Single items k) (p : Primary) : items k ≠ .file p := by
  rcases h.alone with (h | h) | ⟨q, h⟩ | ⟨b, c, h⟩ <;> simp [h]

theorem Tidy.single (h : Tidy items) (hi : i < 128)
    (hp : (∃ p, items i = .directory p) ∨ ∃ parent cluster, items i = .internal parent cluster) : Single items i := by
  refine ⟨hi, Or.inr hp, fun j hj => h.used_before hi ?_ (by omega)⟩
  rcases hp with ⟨p, hp⟩ | ⟨b, c, hp⟩ <;> simp [hp]

structure Rendered (n : Nat) (D : Disk) (T : Tree) : Prop where
  valid : ∀ {d}, T.dirs d → Fat.validCluster d n
  ends : ∀ {d}, T.dirs d → Fat.Ends (D.fat d)
  shows : ∀ {d}, T.dirs d → Shows (slotAt (D.data d)) (T.items d)
  tidy : ∀ {d}, T.dirs d → Tidy (T.items d)

theorem Shaped.rendered (h : Shaped n D T) : Rendered n D T := ⟨h.valid, h.ends, h.shows, h.tidy⟩

theorem Rendered.shaped (h : Rendered n D T) (hl : T.Linked) : Shaped n D T := ⟨h.valid, h.ends, h.shows, h.tidy, hl⟩

def NewSingle (items : Nat → Item) (k : Nat) (a : Item) : Prop :=
  a.Sound ∧ (a = .deleted ∨ (∃ parent cluster, a = .internal parent cluster) ∨
    ∃ p, a = .directory p ∧ ∀ j q, j < 128 → j ≠ k → (items j).Named q → q.name ≠ p.name)

theorem NewSingle.not_file {a : Item} (h : NewSingle items k a) (p : Primary) : a ≠ .file p := by
  rcases h.2 with h | ⟨b, c, h⟩ | ⟨q, h, -⟩ <;> simp [h]

theorem Rendered.setSlot {a : Item} {r : Slot} (h : Rendered n D T) (hd : T.dirs d) (hk : Single (T.items d) k)
    (hnew : NewSingle (T.items d) k a) (hr : a.Renders r) : Rendered n (D.record d k r) (T.setSlot d k a) where
  valid := h.valid
  ends := h.ends
  shows {e} he j hj := by
    rw [Tree.setSlot_items, Disk.record_slot hk.inRange]
    split
    · exact hr
    · exact h.shows he j hj
  tidy {e} he := by
    by_cases hed : e = d
    · subst hed
      have : (T.setSlot e k a).items e = update (T.items e) k a := update_self _ _ _
      rw [this]
      exact (h.tidy hd).setSingle hk.inRange hk.alone hk.used hnew.1 hnew.2
    · have : (T.setSlot d k a).items e = T.items e := update_of_ne hed _ _
      rw [this]
      exact h.tidy he

theorem Describes.renameDirectory {p q : Primary} (h : Describes n D T) (hd : T.dirs d) (hk : k < 128)
    (hp : T.items d k = .directory p) (hq : q.firstCluster = p.firstCluster) (hs : (Item.directory q).Sound)
    (hfresh : ∀ j r, j < 128 → j ≠ k → (T.items d j).Named r → r.name ≠ q.name) :
    Describes n (D.record d k (primaryBytes q)) (T.setSlot d k (.directory q)) := by
  have hnew : NewSingle (T.items d) k (.directory q) := ⟨hs, Or.inr (Or.inr ⟨q, rfl, hfresh⟩)⟩
  have hsingle := (h.tidy hd).single hk (Or.inl ⟨p, hp⟩)
  refine ⟨(h.toShaped.rendered.setSlot hd hsingle hnew rfl).shaped ?_, ?_⟩
  · refine h.linked.congr rfl rfl (fun e i c _ => and_congr_right fun _ => ?_) fun e i b c _ _ => ?_
    · rw [Tree.setSlot_items]
      split
      · rename_i hx
        obtain ⟨rfl, rfl⟩ := hx
        simp [hp, hq]
      · exact Iff.rfl
    · rw [Tree.setSlot_items]
      split
      · rename_i hx
        obtain ⟨rfl, rfl⟩ := hx
        simp [hp]
      · exact Iff.rfl
  · exact h.owned.same (sameFiles_setSlot hsingle.not_file hnew.not_file) rfl

/-- The directory in slot `k` of `d` moves to slot `k'` of `d'` and gets the record `q`. -/
def Tree.moveDirectory (T : Tree) (d k d' k' : Nat) (q : Primary) : Tree :=
  { ((T.setSlot d' k' (.directory q)).setSlot q.firstCluster 1 (.internal true d')).setSlot d k .deleted with
    parent := update T.parent q.firstCluster d' }

theorem Tree.Linked.sole (h : T.Linked) (hd : T.dirs d) (hk : T.Sub d k c) (he : T.dirs e) (hj : T.Sub e j c) :
    e = d ∧ j = k := by
  have h₁ := (h.closed hd hk).2.2
  have h₂ := (h.closed he hj).2.2
  rw [h₁] at h₂
  subst h₂
  exact ⟨rfl, h.once hd hj hk⟩

theorem Tree.Linked.dots_ne (h : T.Linked) (he : T.dirs e) (hr : e ≠ rootCluster)
    (hk : ∀ b x, T.items d k ≠ .internal b x) (hj : j < 2) : ¬(e = d ∧ j = k) := by
  rintro ⟨rfl, rfl⟩
  rcases (show j = 0 ∨ j = 1 by omega) with rfl | rfl
  · exact hk _ _ (h.dots he hr).1
  · exact hk _ _ (h.dots he hr).2

section Move
variable {d' k' : Nat} {p q : Primary}

theorem Tree.moveDirectory_items : (T.moveDirectory d k d' k' q).items e j =
    if e = d ∧ j = k then .deleted else if e = q.firstCluster ∧ j = 1 then .internal true d'
    else if e = d' ∧ j = k' then .directory q else T.items e j := by
  unfold Tree.moveDirectory
  dsimp only
  rw [Tree.setSlot_items, Tree.setSlot_items, Tree.setSlot_items]

theorem Tree.moveDirectory_sub (h : T.Linked) (hd : T.dirs d) (hd' : T.dirs d') (hp : T.items d k = .directory p) (hk : k < 128)
    (hq : q.firstCluster = p.firstCluster) (hk' : k' < 128) (hfree : (T.items d' k').Free) (hne : d ≠ d')
    {e j c : Nat} (he : T.dirs e) : (T.moveDirectory d k d' k' q).Sub e j c ↔
      (e = d' ∧ j = k' ∧ c = p.firstCluster) ∨ (¬(e = d' ∧ j = k') ∧ ¬(e = d ∧ j = k) ∧ T.Sub e j c) := by
  obtain ⟨hdc, hcr, hpc⟩ := h.closed hd ⟨hk, p, hp, rfl⟩
  unfold Tree.Sub
  rw [Tree.moveDirectory_items, hq]
  by_cases h₁ : e = d ∧ j = k
  · obtain ⟨rfl, rfl⟩ := h₁
    simp [hne]
  · rw [if_neg h₁]
    by_cases h₂ : e = p.firstCluster ∧ j = 1
    · obtain ⟨rfl, rfl⟩ := h₂
      have := (h.dots hdc hcr).2
      have hfresh := h.dots_ne hdc hcr hfree.not_internal (show 1 < 2 by omega)
      rw [if_pos ⟨rfl, rfl⟩, this]
      constructor
      · rintro ⟨-, r, hr, -⟩
        cases hr
      · rintro (⟨h₂, h₃, -⟩ | ⟨-, -, -, r, hr, -⟩)
        · exact absurd ⟨h₂, h₃⟩ hfresh
        · cases hr
    · rw [if_neg h₂]
      by_cases h₃ : e = d' ∧ j = k'
      · obtain ⟨rfl, rfl⟩ := h₃
        simp [hk', hq, eq_comm]
      · rw [if_neg h₃]
        constructor
        · exact fun hs => Or.inr ⟨h₃, h₁, hs⟩
        · rintro (⟨h₄, h₅, -⟩ | ⟨-, -, hs⟩)
          · exact absurd ⟨h₄, h₅⟩ h₃
          · exact hs

theorem sameFiles_moveDirectory (hk : ∀ r, T.items d k ≠ .file r) (hone : ∀ r, T.items q.firstCluster 1 ≠ .file r)
    (hk' : ∀ r, T.items d' k' ≠ .file r) : SameFiles T (T.moveDirectory d k d' k' q) := by
  refine ⟨fun _ _ _ => rfl, fun {e i r} _ => and_congr_right fun _ => ?_⟩
  rw [Tree.moveDirectory_items]
  split
  · rename_i hx
    exact ⟨nofun, fun hr => absurd hr (hx.1 ▸ hx.2 ▸ hk r)⟩
  · split
    · rename_i hx
      exact ⟨nofun, fun hr => absurd hr (hx.1 ▸ hx.2 ▸ hone r)⟩
    · split
      · rename_i hx
        exact ⟨nofun, fun hr => absurd hr (hx.1 ▸ hx.2 ▸ hk' r)⟩
      · exact Iff.rfl

theorem Describes.moveDirectory (h : Describes n D T) (hd : T.dirs d) (hd' : T.dirs d') (hne : d ≠ d') (hk : k < 128)
    (hp : T.items d k = .directory p) (hk' : Single (T.items d') k')
    (hfree : (T.items d' k').Free) (hq : q.firstCluster = p.firstCluster) (hs : (Item.directory q).Sound)
    (hfresh : ∀ j r, j < 128 → (T.items d' j).Named r → r.name ≠ q.name) :
    Describes n (((D.record d' k' (primaryBytes q)).record q.firstCluster 1 (makeInternalRecord true d')).record d k
      deletedRecord) (T.moveDirectory d k d' k' q) := by
  obtain ⟨hdc, hcr, hpc⟩ := h.linked.closed hd ⟨hk, p, hp, rfl⟩
  have hdots := h.linked.dots hdc hcr
  -- The three slots, one after the other.
  have hnew₁ : NewSingle (T.items d') k' (.directory q) := ⟨hs, Or.inr (Or.inr ⟨q, rfl, fun j r hj _ => hfresh j r hj⟩)⟩
  have hnew₂ : ∀ items : Nat → Item, NewSingle items 1 (.internal true d') := fun items =>
    ⟨⟨(h.valid hd').1, (h.valid hd').2.2⟩, Or.inr (Or.inl ⟨_, _, rfl⟩)⟩
  have hnew₃ : ∀ items : Nat → Item, NewSingle items k .deleted := fun items => ⟨trivial, Or.inl rfl⟩
  have rendered₁ := h.toShaped.rendered.setSlot hd' hk' hnew₁ rfl
  have hsingle₂ : Single ((T.setSlot d' k' (.directory q)).items q.firstCluster) 1 := by
    refine (rendered₁.tidy (hq ▸ hdc)).single (by omega) (Or.inr ⟨true, T.parent p.firstCluster, ?_⟩)
    rw [Tree.setSlot_items, hq, if_neg (h.linked.dots_ne hdc hcr hfree.not_internal (by omega)), hdots.2]
  have rendered₂ := rendered₁.setSlot (hq ▸ hdc) hsingle₂ (hnew₂ _) rfl
  have hsingle₃ : Single (((T.setSlot d' k' (.directory q)).setSlot q.firstCluster 1 (.internal true d')).items d) k := by
    refine (rendered₂.tidy hd).single hk (Or.inl ⟨p, ?_⟩)
    rw [Tree.setSlot_items, hq, if_neg, Tree.setSlot_items, if_neg fun hx => hne hx.1, hp]
    rintro ⟨rfl, rfl⟩
    rw [hdots.2] at hp
    cases hp
  have rendered := rendered₂.setSlot hd hsingle₃ (hnew₃ _) (show (Item.deleted).Renders deletedRecord from deletedRecord_head)
  have hsub := fun {e j c} (he : T.dirs e) =>
    @Tree.moveDirectory_sub d k T d' k' p q h.linked hd hd' hp hk hq hk'.inRange hfree hne e j c he
  have hparent : (T.moveDirectory d k d' k' q).parent = update T.parent p.firstCluster d' := by
    rw [← hq]
    rfl
  -- The only record of the moved directory was the deleted one.
  have sole : ∀ {e j}, T.dirs e → T.Sub e j p.firstCluster → e = d ∧ j = k := fun he hs =>
    h.linked.sole hd ⟨hk, p, hp, rfl⟩ he hs
  refine ⟨⟨rendered.valid, rendered.ends, rendered.shows, rendered.tidy, ?_⟩, ?_⟩
  · constructor
    · exact h.linked.root
    · intro e j c he hs
      rw [hparent]
      rcases (hsub he).mp hs with ⟨rfl, rfl, rfl⟩ | ⟨-, h₂, h₃⟩
      · exact ⟨hdc, hcr, update_self _ _ _⟩
      · obtain ⟨h₄, h₅, h₆⟩ := h.linked.closed he h₃
        have hcx : c ≠ p.firstCluster := fun hx => h₂ (sole he (hx ▸ h₃))
        exact ⟨h₄, h₅, by rw [update_of_ne hcx, h₆]⟩
    · intro e he hr
      rw [hparent]
      by_cases hec : e = p.firstCluster
      · subst hec
        rw [update_self]
        exact ⟨hd', k', (hsub hd').mpr (Or.inl ⟨rfl, rfl, rfl⟩)⟩
      · rw [update_of_ne hec]
        obtain ⟨h₁, i, h₂⟩ := h.linked.record he hr
        refine ⟨h₁, i, (hsub h₁).mpr (Or.inr ⟨fun hx => ?_, fun hx => ?_, h₂⟩)⟩
        · obtain ⟨-, r, hr, -⟩ := h₂
          rw [hx.1, hx.2] at hr
          exact hfree.not_directory r hr
        · obtain ⟨-, r, hr, hre⟩ := h₂
          rw [hx.1, hx.2, hp] at hr
          cases hr
          exact hec hre.symm
    · intro e i j c he hi hj
      rcases (hsub he).mp hi with ⟨rfl, rfl, rfl⟩ | ⟨h₁, h₂, h₃⟩ <;> rcases (hsub he).mp hj with ⟨h₄, h₅, h₆⟩ | ⟨h₄, h₅, h₆⟩
      · exact h₅.symm
      · exact absurd (sole he h₆) h₅
      · exact absurd (sole he (h₆ ▸ h₃)) h₂
      · exact h.linked.once he h₃ h₆
    · intro e he hr
      have old := h.linked.dots he hr
      have h₁ : ∀ {j}, j < 2 → ¬(e = d ∧ j = k) := h.linked.dots_ne he hr (by simp [hp])
      have h₂ : ∀ {j}, j < 2 → ¬(e = d' ∧ j = k') := h.linked.dots_ne he hr hfree.not_internal
      rw [Tree.moveDirectory_items, Tree.moveDirectory_items, if_neg (h₁ (by omega)), if_neg (h₁ (by omega)),
        if_neg (by omega), if_neg (h₂ (by omega)), hparent, hq]
      refine ⟨old.1, ?_⟩
      by_cases hec : e = p.firstCluster
      · subst hec
        rw [if_pos ⟨rfl, rfl⟩, update_self]
      · rw [if_neg fun hx => hec hx.1, if_neg (h₂ (by omega)), update_of_ne hec]
        exact old.2
    · intro e i b c he hi hc
      rw [Tree.moveDirectory_items] at hc
      split at hc
      · cases hc
      · split at hc
        · rename_i hx
          cases hc
          rw [hx.1, hq]
          exact ⟨hcr, hx.2⟩
        · split at hc
          · cases hc
          · exact h.linked.internal he hi hc
  · have hone : ∀ r, T.items q.firstCluster 1 ≠ .file r := fun r hr => by
      rw [hq, hdots.2] at hr
      cases hr
    exact h.owned.same (sameFiles_moveDirectory (fun r hr => by rw [hp] at hr; cases hr) hone hk'.not_file) rfl

end Move

def freshItems (c d : Nat) : Nat → Item
  | 0 => .internal false c
  | 1 => .internal true d
  | _ => .unused

theorem slotAt_newDirectoryCluster : slotAt (newDirectoryCluster c d) i =
    if i = 0 then makeInternalRecord false c else if i = 1 then makeInternalRecord true d else Bytes.zero := by
  have h₀ : newDirectoryCluster c d = ((Bytes.zero : ClusterBytes).put (32 * 0) (makeInternalRecord false c)).put (32 * 1)
    (makeInternalRecord true d) := rfl
  rw [h₀, slotAt_put (by omega)]
  by_cases h1 : i = 1
  · rw [if_pos h1, if_neg (by omega), if_pos h1]
  · rw [if_neg h1, slotAt_put (by omega), if_neg h1]
    split
    · rfl
    · exact Bytes.slice_zero

theorem shows_fresh : Shows (slotAt (newDirectoryCluster c d)) (freshItems c d) := by
  intro i _
  rw [slotAt_newDirectoryCluster]
  match i with
  | 0 => rfl
  | 1 => rfl
  | i + 2 =>
    rw [if_neg (by omega), if_neg (by omega)]
    exact Bytes.byte_zero

theorem freshItems_of_two (h : 2 ≤ i) : freshItems c d i = .unused := by
  match i, h with
  | i + 2, _ => rfl

theorem tidy_fresh (hc : Fat.validCluster c n) (hd : Fat.validCluster d n) : Tidy (freshItems c d) := by
  have cases2 : ∀ {i : Nat} {P : Item → Prop}, P (freshItems c d i) → P (.internal false c) ∨ P (.internal true d) ∨ P .unused := by
    intro i P h
    match i with
    | 0 => exact Or.inl h
    | 1 => exact Or.inr (Or.inl h)
    | i + 2 => exact Or.inr (Or.inr h)
  constructor
  · intro i name _ h
    rcases cases2 (P := (· = .companion name)) h with h | h | h <;> cases h
  · intro i p _ h
    rcases cases2 (P := (· = .file p)) h with h | h | h <;> cases h
  · intro i j h hij _
    refine freshItems_of_two ?_
    match i with
    | 0 => cases h
    | 1 => cases h
    | i + 2 => omega
  · intro i j p q _ _ h
    rcases cases2 (P := fun x => x.Named p) h with (h | h) | (h | h) | (h | h) <;> cases h
  · intro i _
    match i with
    | 0 => exact ⟨hc.1, hc.2.2⟩
    | 1 => exact ⟨hd.1, hd.2.2⟩
    | i + 2 => trivial

def Tree.addDirectory (T : Tree) (d k : Nat) (p : Primary) : Tree where
  dirs e := T.dirs e ∨ e = p.firstCluster
  parent := update T.parent p.firstCluster d
  items := update (T.setSlot d k (.directory p)).items p.firstCluster (freshItems p.firstCluster d)
  chain := T.chain

theorem Tree.addDirectory_items (h : e ≠ p.firstCluster) :
    (T.addDirectory d k p).items e = (T.setSlot d k (.directory p)).items e := update_of_ne h _ _

theorem Tree.addDirectory_fresh :
    (T.addDirectory d k p).items p.firstCluster = freshItems p.firstCluster d := update_self _ _ _

theorem sameFiles_addDirectory (hc : ¬T.dirs p.firstCluster) (hk : ∀ q, T.items d k ≠ .file q) :
    SameFiles T (T.addDirectory d k p) := by
  have hne : ∀ {e}, T.dirs e → e ≠ p.firstCluster := fun he hx => hc (hx ▸ he)
  refine ⟨fun _ _ _ => rfl, fun {e i r} _ => ?_⟩
  constructor
  · rintro ⟨he | rfl, hr⟩
    · rw [Tree.addDirectory_items (hne he), Tree.setSlot_items] at hr
      split at hr
      · cases hr
      · exact ⟨he, hr⟩
    · rw [Tree.addDirectory_fresh] at hr
      match i with
      | 0 => cases hr
      | 1 => cases hr
      | i + 2 => cases hr
  · rintro ⟨he, hr⟩
    refine ⟨Or.inl he, ?_⟩
    rw [Tree.addDirectory_items (hne he), Tree.setSlot_items, if_neg]
    · exact hr
    · rintro ⟨rfl, rfl⟩
      exact hk r hr

theorem Describes.addDirectory (h : Describes n D T) (hd : T.dirs d) (hk : Single (T.items d) k)
    (hfree : (T.items d k).Free) (hc : Fat.validCluster p.firstCluster n) (hf : D.fat p.firstCluster = Fat.free)
    (hs : (Item.directory p).Sound) (hfresh : ∀ j r, j < 128 → (T.items d j).Named r → r.name ≠ p.name)
    (hend : Fat.Ends (fat p.firstCluster)) (hframe : ∀ e, e ≠ p.firstCluster → fat e = D.fat e) :
    Describes n (((D.cluster p.firstCluster (newDirectoryCluster p.firstCluster d)).table fat).record d k (primaryBytes p))
      (T.addDirectory d k p) := by
  have hfull : ∀ {e}, T.dirs e → e ≠ p.firstCluster := by
    rintro e he rfl
    have := (h.ends he).1
    rw [hf] at this
    exact absurd this (by decide)
  have hcr : p.firstCluster ≠ rootCluster := (hfull h.linked.root).symm
  have hnew : NewSingle (T.items d) k (.directory p) := ⟨hs, Or.inr (Or.inr ⟨p, rfl, fun j r hj _ => hfresh j r hj⟩)⟩
  have rendered := h.toShaped.rendered.setSlot hd hk hnew (show (Item.directory p).Renders (primaryBytes p) from rfl)
  have hdata : ∀ {e}, e ≠ p.firstCluster → (((D.cluster p.firstCluster (newDirectoryCluster p.firstCluster d)).table
      fat).record d k (primaryBytes p)).data e = (D.record d k (primaryBytes p)).data e := by
    intro e he
    by_cases hed : e = d
    · subst hed
      show update _ e _ e = update _ e _ e
      rw [update_self, update_self, Disk.table_data, Disk.cluster_data he]
    · rw [Disk.record_data hed, Disk.record_data hed, Disk.table_data, Disk.cluster_data he]
  have hdatac : (((D.cluster p.firstCluster (newDirectoryCluster p.firstCluster d)).table fat).record d k
      (primaryBytes p)).data p.firstCluster = newDirectoryCluster p.firstCluster d := by
    rw [Disk.record_data (hfull hd).symm, Disk.table_data, Disk.cluster_self]
  have hsub : ∀ {e j x}, T.dirs e → ((T.addDirectory d k p).Sub e j x ↔
      (e = d ∧ j = k ∧ x = p.firstCluster) ∨ T.Sub e j x) := by
    intro e j x he
    unfold Tree.Sub
    rw [Tree.addDirectory_items (hfull he), Tree.setSlot_items]
    by_cases hx : e = d ∧ j = k
    · obtain ⟨rfl, rfl⟩ := hx
      have := hfree.not_directory
      simp [hk.inRange, this, eq_comm]
    · rw [if_neg hx]
      constructor
      · exact Or.inr
      · rintro (⟨h₁, h₂, -⟩ | h₁)
        · exact absurd ⟨h₁, h₂⟩ hx
        · exact h₁
  have hnosub : ∀ {j x}, ¬(T.addDirectory d k p).Sub p.firstCluster j x := by
    rintro j x ⟨-, r, hr, -⟩
    rw [Tree.addDirectory_fresh] at hr
    match j with
    | 0 => cases hr
    | 1 => cases hr
    | j + 2 => cases hr
  have hparent : ∀ {e}, T.dirs e → (T.addDirectory d k p).parent e = T.parent e := fun he =>
    update_of_ne (hfull he) _ _
  have hparentc : (T.addDirectory d k p).parent p.firstCluster = d := update_self _ _ _
  refine ⟨⟨fun {e} he => ?_, fun {e} he => ?_, fun {e} he => ?_, fun {e} he => ?_, ?_⟩, ?_⟩
  · exact he.elim h.valid fun hx => hx ▸ hc
  · rcases he with he | rfl
    · show Fat.Ends (fat e)
      rw [hframe e (hfull he)]
      exact h.ends he
    · exact hend
  · rcases he with he | rfl
    · rw [Tree.addDirectory_items (hfull he), hdata (hfull he)]
      exact rendered.shows he
    · rw [Tree.addDirectory_fresh, hdatac]
      exact shows_fresh
  · rcases he with he | rfl
    · rw [Tree.addDirectory_items (hfull he)]
      exact rendered.tidy he
    · rw [Tree.addDirectory_fresh]
      exact tidy_fresh hc (h.valid hd)
  · constructor
    · exact Or.inl h.linked.root
    · rintro e j x (he | rfl) hx
      · rcases (hsub he).mp hx with ⟨rfl, rfl, rfl⟩ | hx
        · exact ⟨Or.inr rfl, hcr, hparentc⟩
        · obtain ⟨h₁, h₂, h₃⟩ := h.linked.closed he hx
          exact ⟨Or.inl h₁, h₂, by rw [hparent h₁, h₃]⟩
      · exact absurd hx hnosub
    · rintro e (he | rfl) hr
      · rw [hparent he]
        obtain ⟨h₁, i, h₂⟩ := h.linked.record he hr
        exact ⟨Or.inl h₁, i, (hsub h₁).mpr (Or.inr h₂)⟩
      · rw [hparentc]
        exact ⟨Or.inl hd, k, (hsub hd).mpr (Or.inl ⟨rfl, rfl, rfl⟩)⟩
    · rintro e i j x (he | rfl) hi hj
      · rcases (hsub he).mp hi with ⟨rfl, rfl, rfl⟩ | h₁ <;> rcases (hsub he).mp hj with ⟨-, h₄, h₅⟩ | h₂
        · exact h₄.symm
        · exact absurd rfl (hfull (h.linked.closed he h₂).1)
        · exact absurd h₅ (hfull (h.linked.closed he h₁).1)
        · exact h.linked.once he h₁ h₂
      · exact absurd hi hnosub
    · rintro e (he | rfl) hr
      · have old := h.linked.dots he hr
        have hslot : ∀ {j}, j < 2 → ¬(e = d ∧ j = k) := h.linked.dots_ne he hr hfree.not_internal
        rw [Tree.addDirectory_items (hfull he), Tree.setSlot_items, Tree.setSlot_items, if_neg (hslot (by omega)),
          if_neg (hslot (by omega)), hparent he]
        exact old
      · rw [Tree.addDirectory_fresh, hparentc]
        exact ⟨rfl, rfl⟩
    · rintro e i b x (he | rfl) hi hx
      · rw [Tree.addDirectory_items (hfull he), Tree.setSlot_items] at hx
        split at hx
        · cases hx
        · exact h.linked.internal he hi hx
      · rw [Tree.addDirectory_fresh] at hx
        refine ⟨hcr, ?_⟩
        match i with
        | 0 =>
          cases hx
          rfl
        | 1 =>
          cases hx
          rfl
        | i + 2 => cases hx
  · have files := sameFiles_addDirectory (fun hx => hfull hx rfl) hk.not_file
    have hne : ∀ {x e i}, T.Owns x e i → x ≠ p.firstCluster := by
      rintro x e i ho rfl
      exact (h.owned.used ho).2 hf
    refine h.owned.directories files (fun ho => hframe _ (hne ho)) (fun ho hx => ?_) fun {x} hv hu => ?_
    · exact hx.elim (h.owned.apart ho) (hne ho)
    · by_cases hx : x = p.firstCluster
      · exact Or.inl (Or.inr hx)
      · rw [Disk.record_fat, Disk.table_fat, hframe x hx] at hu
        exact (h.owned.owner hv hu).imp_left Or.inl

/-- The directory `c` in slot `k` of `d` is removed. -/
def Tree.removeDirectory (T : Tree) (d k c : Nat) : Tree :=
  { T.setSlot d k .deleted with dirs := fun e => T.dirs e ∧ e ≠ c }

theorem Tree.removeDirectory_items :
    (T.removeDirectory d k c).items e j = if e = d ∧ j = k then .deleted else T.items e j := Tree.setSlot_items

theorem sameFiles_removeDirectory (hp : T.items d k = .directory p)
    (hempty : ∀ j q, j < 128 → T.items p.firstCluster j ≠ .file q) : SameFiles T (T.removeDirectory d k p.firstCluster) := by
  refine ⟨fun _ _ _ => rfl, fun {e i r} hi => ?_⟩
  rw [Tree.removeDirectory_items]
  constructor
  · rintro ⟨he, hr⟩
    split at hr
    · cases hr
    · exact ⟨he.1, hr⟩
  · rintro ⟨he, hr⟩
    refine ⟨⟨he, ?_⟩, ?_⟩
    · rintro rfl
      exact hempty i r hi hr
    · rw [if_neg]
      · exact hr
      · rintro ⟨rfl, rfl⟩
        rw [hp] at hr
        cases hr

theorem Describes.removeDirectory {p : Primary} (h : Describes n D T) (hd : T.dirs d) (hk : k < 128)
    (hp : T.items d k = .directory p) (hempty : ∀ j q, j < 128 → ¬(T.items p.firstCluster j).Named q)
    {fat : Nat → Nat} (hgone : fat p.firstCluster = Fat.free) (hframe : ∀ e, e ≠ p.firstCluster → fat e = D.fat e) :
    Describes n ((D.record d k deletedRecord).table fat) (T.removeDirectory d k p.firstCluster) := by
  obtain ⟨hdc, hcr, hpc⟩ := h.linked.closed hd ⟨hk, p, hp, rfl⟩
  have hsingle := (h.tidy hd).single hk (Or.inl ⟨p, hp⟩)
  have hnew : NewSingle (T.items d) k .deleted := ⟨trivial, Or.inl rfl⟩
  have rendered := h.toShaped.rendered.setSlot hd hsingle hnew
    (show (Item.deleted).Renders deletedRecord from deletedRecord_head)
  have hsub : ∀ {e j x}, (T.removeDirectory d k p.firstCluster).Sub e j x ↔ ¬(e = d ∧ j = k) ∧ T.Sub e j x := by
    intro e j x
    unfold Tree.Sub
    rw [Tree.removeDirectory_items]
    by_cases hx : e = d ∧ j = k
    · simp [hx]
    · rw [if_neg hx]
      exact ⟨fun hs => ⟨hx, hs⟩, fun hs => hs.2⟩
  have sole : ∀ {e j}, T.dirs e → T.Sub e j p.firstCluster → e = d ∧ j = k := fun he hs =>
    h.linked.sole hd ⟨hk, p, hp, rfl⟩ he hs
  refine ⟨⟨fun he => h.valid he.1, fun {e} he => ?_, fun he => rendered.shows he.1, fun he => rendered.tidy he.1, ?_⟩, ?_⟩
  · show Fat.Ends (fat e)
    rw [hframe e he.2]
    exact h.ends he.1
  · constructor
    · exact ⟨h.linked.root, hcr.symm⟩
    · intro e j x he hs
      obtain ⟨h₁, h₂⟩ := hsub.mp hs
      obtain ⟨h₃, h₄, h₅⟩ := h.linked.closed he.1 h₂
      exact ⟨⟨h₃, fun hx => h₁ (sole he.1 (hx ▸ h₂))⟩, h₄, h₅⟩
    · intro e he hr
      obtain ⟨h₁, i, h₂⟩ := h.linked.record he.1 hr
      refine ⟨⟨h₁, fun hx => ?_⟩, i, hsub.mpr ⟨fun hx => ?_, h₂⟩⟩
      · -- The removed directory held no record.
        obtain ⟨hi, r, hr, -⟩ := h₂
        have hx : T.parent e = p.firstCluster := hx
        rw [hx] at hr
        exact hempty i r hi (Or.inr hr)
      · obtain ⟨-, r, hr, hre⟩ := h₂
        have hpe : T.parent e = d := hx.1
        rw [hpe, hx.2, hp] at hr
        cases hr
        exact he.2 hre.symm
    · intro e i j x he hi hj
      exact h.linked.once he.1 (hsub.mp hi).2 (hsub.mp hj).2
    · intro e he hr
      have old := h.linked.dots he.1 hr
      have hslot : ∀ {j}, j < 2 → ¬(e = d ∧ j = k) := h.linked.dots_ne he.1 hr (by simp [hp])
      rw [Tree.removeDirectory_items, Tree.removeDirectory_items, if_neg (hslot (by omega)), if_neg (hslot (by omega))]
      exact old
    · intro e i b x he hi hx
      rw [Tree.removeDirectory_items] at hx
      split at hx
      · cases hx
      · exact h.linked.internal he.1 hi hx
  · have files := sameFiles_removeDirectory hp fun j q hj hq => hempty j q hj (Or.inl hq)
    refine h.owned.directories files (fun {x e i} ho => hframe x fun hx => ?_) (fun ho hx => h.owned.apart ho hx.1)
      fun {x} hv hu => ?_
    · exact h.owned.apart ho (hx ▸ hdc)
    · have hx : x ≠ p.firstCluster := by
        rintro rfl
        exact hu hgone
      rw [Disk.table_fat, hframe x hx] at hu
      exact (h.owned.owner hv hu).imp_left fun hx' => ⟨hx', hx⟩

end InferenceOS
