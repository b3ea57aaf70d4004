import InferenceOS.Lib.Forest
import InferenceOS.Theorems.Chains
import InferenceOS.Theorems.Slots
import InferenceOS.Theorems.Layout

/-! The objects of a volume. Directories, each one cluster long and with one record, and files that own
    disjoint chains; no other cluster is in use. The directories form a tree when none of them was moved
    into its own subtree. -/

namespace InferenceOS
open FileService Function
variable {p : Primary}

/-- The directories of a volume with their parents and records, and the clusters of each file record. -/
structure Tree where
  dirs : Nat → Prop
  parent : Nat → Nat
  items : Nat → Nat → Item
  chain : Nat → Nat → List Nat

/-- `l` are the clusters of a file with the record `p`. -/
structure Content (fat : Nat → Nat) (n : Nat) (p : Primary) (l : List Nat) : Prop where
  chain : (p.firstCluster = 0 ∧ l = []) ∨ (0 < p.firstCluster ∧ Fat.Chain fat n p.firstCluster l)
  nodup : l.Nodup
  length : l.length = (p.fileSize + clusterSize - 1) / clusterSize
  fits : l.length ≤ maxClusters

namespace Tree

/-- The file record in slot `i` of directory `d` owns cluster `c`. -/
def Owns (T : Tree) (c d i : Nat) : Prop := T.dirs d ∧ i < 128 ∧ c ∈ T.chain d i ∧ ∃ p, T.items d i = .file p

/-- Every cluster in use has one owner. -/
structure Owned (n : Nat) (fat : Nat → Nat) (T : Tree) : Prop where
  content : ∀ {d i p}, T.dirs d → i < 128 → T.items d i = .file p → Content fat n p (T.chain d i)
  disjoint : ∀ {c d i d' i'}, T.Owns c d i → T.Owns c d' i' → d = d' ∧ i = i'
  apart : ∀ {c d i}, T.Owns c d i → ¬T.dirs c
  owner : ∀ {c}, Fat.validCluster c n → fat c ≠ Fat.free → T.dirs c ∨ ∃ d i, T.Owns c d i

/-- Slot `i` of directory `d` holds the record of directory `c`. -/
def Sub (T : Tree) (d i c : Nat) : Prop := i < 128 ∧ ∃ p, T.items d i = .directory p ∧ p.firstCluster = c

/-- Every directory but the root has one record, and its internal records name itself and its parent. -/
structure Linked (T : Tree) : Prop where
  root : T.dirs rootCluster
  closed : ∀ {d i c}, T.dirs d → T.Sub d i c → T.dirs c ∧ c ≠ rootCluster ∧ T.parent c = d
  record : ∀ {d}, T.dirs d → d ≠ rootCluster → T.dirs (T.parent d) ∧ ∃ i, T.Sub (T.parent d) i d
  once : ∀ {d i j c}, T.dirs d → T.Sub d i c → T.Sub d j c → i = j
  dots : ∀ {d}, T.dirs d → d ≠ rootCluster → T.items d 0 = .internal false d ∧ T.items d 1 = .internal true (T.parent d)
  internal : ∀ {d i b c}, T.dirs d → i < 128 → T.items d i = .internal b c → d ≠ rootCluster ∧ i = if b then 1 else 0

structure Grounded (T : Tree) : Prop where
  top : T.parent rootCluster = rootCluster
  rooted : ∀ {d}, T.dirs d → Rooted T.parent rootCluster d

end Tree

/-- The directories of the disk are those of the tree. -/
structure Shaped (n : Nat) (D : Disk) (T : Tree) : Prop where
  valid : ∀ {d}, T.dirs d → Fat.validCluster d n
  ends : ∀ {d}, T.dirs d → Fat.Ends (D.fat d)
  shows : ∀ {d}, T.dirs d → Shows (slotAt (D.data d)) (T.items d)
  tidy : ∀ {d}, T.dirs d → Tidy (T.items d)
  linked : T.Linked

/-- The disk holds the tree. -/
structure Describes (n : Nat) (D : Disk) (T : Tree) : Prop extends Shaped n D T where
  owned : T.Owned n D.fat

section Ownership
variable {n : Nat} {fat fat' : Nat → Nat} {T T' : Tree} {d i d' i' c : Nat} {l l' : List Nat}

theorem Content.used (h : Content fat n p l) : ∀ c ∈ l, Fat.validCluster c n ∧ fat c ≠ Fat.free := by
  intro c hc
  rcases h.chain with ⟨-, rfl⟩ | ⟨-, hch⟩
  · cases hc
  · exact ⟨hch.valid c hc, hch.used c hc⟩

theorem Content.frame (h : Content fat n p l) (hf : ∀ c ∈ l, fat' c = fat c) : Content fat' n p l :=
  ⟨h.chain.imp_right fun ⟨hp, hc⟩ => ⟨hp, hc.frame hf⟩, h.nodup, h.length, h.fits⟩

theorem Tree.Owned.used (h : T.Owned n fat) (ho : T.Owns c d i) : Fat.validCluster c n ∧ fat c ≠ Fat.free := by
  obtain ⟨hd, hi, hc, p, hp⟩ := ho
  exact (h.content hd hi hp).used c hc

theorem Tree.Owned.change (h : T.Owned n fat) (hdirs : T'.dirs = T.dirs)
    (howns : ∀ c e j, T'.Owns c e j ↔ (e = d' ∧ j = i' ∧ c ∈ l') ∨ (¬(e = d' ∧ j = i') ∧ ¬(e = d ∧ j = i) ∧ T.Owns c e j))
    (hold : ∀ c, T.Owns c d i ↔ c ∈ l) (hnew : (d' = d ∧ i' = i) ∨ ∀ c, ¬T.Owns c d' i')
    (hfresh : ∀ c ∈ l', c ∈ l ∨ fat c = Fat.free ∧ ¬T.dirs c) (hgone : ∀ c ∈ l, c ∉ l' → fat' c = Fat.free)
    (hframe : ∀ c, c ∉ l → c ∉ l' → fat' c = fat c)
    (hcontent : ∀ {e j p}, T'.dirs e → j < 128 → T'.items e j = .file p → Content fat' n p (T'.chain e j)) :
    T'.Owned n fat' := by
  -- A cluster of `l'` has no other owner.
  have sole : ∀ {c e j}, c ∈ l' → ¬(e = d' ∧ j = i') → ¬(e = d ∧ j = i) → ¬T.Owns c e j := by
    intro c e j hc _ hne ho
    rcases hfresh c hc with hl | ⟨hfree, -⟩
    · exact hne (h.disjoint ho ((hold c).mpr hl))
    · exact (h.used ho).2 hfree
  refine ⟨hcontent, fun {c e j e' j'} ho ho' => ?_, fun {c e j} ho => ?_, fun {c} hv hu => ?_⟩
  · rcases (howns _ _ _).mp ho with ⟨rfl, rfl, hc⟩ | ⟨hn, hd, ho⟩ <;>
      rcases (howns _ _ _).mp ho' with ⟨rfl, rfl, hc'⟩ | ⟨hn', hd', ho'⟩
    · exact ⟨rfl, rfl⟩
    · exact absurd ho' (sole hc hn' hd')
    · exact absurd ho (sole hc' hn hd)
    · exact h.disjoint ho ho'
  · rw [hdirs]
    rcases (howns _ _ _).mp ho with ⟨rfl, rfl, hc⟩ | ⟨-, -, ho⟩
    · rcases hfresh c hc with hl | ⟨-, hnd⟩
      · exact h.apart ((hold c).mpr hl)
      · exact hnd
    · exact h.apart ho
  · rw [hdirs]
    by_cases hc' : c ∈ l'
    · exact Or.inr ⟨d', i', (howns _ _ _).mpr (Or.inl ⟨rfl, rfl, hc'⟩)⟩
    · by_cases hc : c ∈ l
      · exact absurd (hgone c hc hc') hu
      · rw [hframe c hc hc'] at hu
        refine (h.owner hv hu).imp_right fun ⟨e, j, ho⟩ => ⟨e, j, (howns _ _ _).mpr (Or.inr ⟨?_, ?_, ho⟩)⟩
        · rintro ⟨rfl, rfl⟩
          rcases hnew with ⟨rfl, rfl⟩ | hnew
          · exact hc ((hold c).mp ho)
          · exact hnew c ho
        · rintro ⟨rfl, rfl⟩
          exact hc ((hold c).mp ho)

end Ownership

namespace Tree

def setPair (T : Tree) (d k : Nat) (a b : Item) (l : List Nat) : Tree :=
  { T with
    items := update T.items d (update (update (T.items d) k a) (k + 1) b)
    chain := fun e j => if e = d ∧ j = k + 1 then l else T.chain e j }

/-- Slot `k` of directory `d` holds `a`. -/
def setSlot (T : Tree) (d k : Nat) (a : Item) : Tree :=
  { T with items := update T.items d (update (T.items d) k a) }

variable {T T' : Tree} {d e k j c : Nat} {a b : Item} {l : List Nat}

theorem setPair_items : (T.setPair d k a b l).items e j =
    if e = d ∧ j = k + 1 then b else if e = d ∧ j = k then a else T.items e j := by
  unfold setPair
  dsimp only
  by_cases he : e = d
  · subst he
    rw [update_self]
    simp only [update_apply, true_and]
  · rw [update_of_ne he]
    simp [he]

theorem setSlot_items : (T.setSlot d k a).items e j = if e = d ∧ j = k then a else T.items e j := by
  unfold setSlot
  dsimp only
  by_cases he : e = d
  · subst he
    rw [update_self]
    simp only [update_apply, true_and]
  · rw [update_of_ne he]
    simp [he]

def Plain (item : Item) : Prop := item.Free ∨ (∃ name, item = .companion name) ∨ ∃ p, item = .file p

theorem Plain.not_directory {item : Item} (h : Plain item) (p : Primary) : item ≠ .directory p := by
  rcases h with (h | h) | ⟨_, h⟩ | ⟨_, h⟩ <;> simp [h]

theorem Plain.not_internal {item : Item} (h : Plain item) (parent : Bool) (c : Nat) : item ≠ .internal parent c := by
  rcases h with (h | h) | ⟨_, h⟩ | ⟨_, h⟩ <;> simp [h]

theorem Linked.congr (h : T.Linked) (hdirs : T'.dirs = T.dirs) (hparent : T'.parent = T.parent)
    (hsub : ∀ d i c, T.dirs d → (T'.Sub d i c ↔ T.Sub d i c))
    (hint : ∀ d i b c, T.dirs d → i < 128 → (T'.items d i = .internal b c ↔ T.items d i = .internal b c)) : T'.Linked := by
  constructor
  · rw [hdirs]
    exact h.root
  · intro d i c hd hs
    rw [hdirs] at hd ⊢
    rw [hparent]
    exact h.closed hd ((hsub d i c hd).mp hs)
  · intro d hd hr
    rw [hdirs] at hd ⊢
    rw [hparent]
    obtain ⟨h₁, i, hi⟩ := h.record hd hr
    exact ⟨h₁, i, (hsub _ _ _ h₁).mpr hi⟩
  · intro d i j c hd hi hj
    rw [hdirs] at hd
    exact h.once hd ((hsub d i c hd).mp hi) ((hsub d j c hd).mp hj)
  · intro d hd hr
    rw [hdirs] at hd
    rw [hparent]
    exact ⟨(hint d 0 _ _ hd (by omega)).mpr (h.dots hd hr).1, (hint d 1 _ _ hd (by omega)).mpr (h.dots hd hr).2⟩
  · intro d i b c hd hi hc
    rw [hdirs] at hd
    exact h.internal hd hi ((hint d i b c hd hi).mp hc)

theorem Linked.plain (h : T.Linked) (hdirs : T'.dirs = T.dirs) (hparent : T'.parent = T.parent)
    (hitems : ∀ d i, T'.items d i = T.items d i ∨ (Plain (T'.items d i) ∧ Plain (T.items d i))) : T'.Linked := by
  refine h.congr hdirs hparent (fun d i c _ => and_congr_right fun _ => ?_) fun d i b c _ _ => ?_
  · rcases hitems d i with hs | ⟨h₁, h₂⟩
    · rw [hs]
    · constructor
      · exact fun ⟨p, hp, _⟩ => absurd hp (h₁.not_directory p)
      · exact fun ⟨p, hp, _⟩ => absurd hp (h₂.not_directory p)
  · rcases hitems d i with hs | ⟨h₁, h₂⟩
    · rw [hs]
    · exact ⟨fun hx => absurd hx (h₁.not_internal b c), fun hx => absurd hx (h₂.not_internal b c)⟩

theorem setPair_owns (ha : ∀ p, a ≠ .file p) (hk : ∀ p, T.items d k ≠ .file p) (hd : T.dirs d) (hlt : k + 1 < 128) :
    (T.setPair d k a b l).Owns c e j ↔
      (e = d ∧ j = k + 1 ∧ c ∈ l ∧ ∃ p, b = .file p) ∨ (¬(e = d ∧ j = k + 1) ∧ T.Owns c e j) := by
  unfold Owns
  rw [setPair_items]
  simp only [setPair]
  by_cases h₁ : e = d ∧ j = k + 1
  · obtain ⟨rfl, rfl⟩ := h₁
    simp [hd, hlt]
  · by_cases h₂ : e = d ∧ j = k
    · obtain ⟨rfl, rfl⟩ := h₂
      simp [ha, hk]
    · simp only [h₁, h₂, if_false, not_false_eq_true, true_and]
      constructor
      · exact Or.inr
      · rintro (⟨rfl, rfl, -⟩ | h)
        · exact absurd ⟨rfl, rfl⟩ h₁
        · exact h

end Tree

section Pairs
variable {n d k : Nat} {D D' : Disk} {T : Tree} {a b : Item} {l l' : List Nat}
variable {items : Nat → Item}

/-- The pair of slots may be written: it is free or holds the two records of a file. -/
structure Writable (items : Nat → Item) (k : Nat) : Prop where
  inRange : k + 1 < 128
  start : (items k).Free ∨ ∃ name, items k = .companion name
  last : (items (k + 1)).Free ∨ ∃ p, items (k + 1) = .file p
  used : ∀ j, j < k → items j ≠ .unused

theorem Writable.plain (h : Writable items k) : Tree.Plain (items k) ∧ Tree.Plain (items (k + 1)) :=
  ⟨h.start.imp_right Or.inl, h.last.imp_right Or.inr⟩

theorem Tidy.writable (h : Tidy items) {i : Nat} (hi : i < 128) (hp : items i = .file p) : 0 < i ∧ Writable items (i - 1) := by
  obtain ⟨h0, hc⟩ := h.preceded hi hp
  have hs : i - 1 + 1 = i := by omega
  refine ⟨h0, by omega, Or.inr ⟨_, hc⟩, Or.inr ⟨p, by rw [hs, hp]⟩, fun j hj => ?_⟩
  exact h.used_before hi (by simp [hp]) (by omega)

def NewPair (items : Nat → Item) (k : Nat) (a b : Item) : Prop :=
  (a = .deleted ∧ b = .deleted) ∨ ∃ p, a = .companion p.name ∧ b = .file p ∧ b.Sound ∧
    ∀ j q, j < 128 → j ≠ k + 1 → (items j).Named q → q.name ≠ p.name

theorem NewPair.plain (h : NewPair items k a b) : Tree.Plain a ∧ Tree.Plain b ∧ ∀ p, a ≠ .file p := by
  rcases h with ⟨rfl, rfl⟩ | ⟨p, rfl, rfl, -⟩
  · exact ⟨Or.inl (Or.inr rfl), Or.inl (Or.inr rfl), by simp⟩
  · exact ⟨Or.inr (Or.inl ⟨_, rfl⟩), Or.inr (Or.inr ⟨_, rfl⟩), by simp⟩

theorem Shaped.setPair (h : Shaped n D T) (hd : T.dirs d) (hw : Writable (T.items d) k) (hab : NewPair (T.items d) k a b)
    (hends : ∀ e, T.dirs e → D'.fat e = D.fat e) (hother : ∀ e, T.dirs e → e ≠ d → D'.data e = D.data e)
    (hk : a.Renders (slotAt (D'.data d) k)) (hk1 : b.Renders (slotAt (D'.data d) (k + 1)))
    (hslots : ∀ j, j < 128 → j ≠ k → j ≠ k + 1 → slotAt (D'.data d) j = slotAt (D.data d) j) :
    Shaped n D' (T.setPair d k a b l) where
  valid := h.valid
  ends {e} he := by
    rw [hends e he]
    exact h.ends he
  shows {e} he j hj := by
    rw [Tree.setPair_items]
    by_cases hed : e = d
    · subst hed
      split
      · rename_i hx
        rw [hx.2]
        exact hk1
      · rename_i hx
        split
        · rename_i hy
          rw [hy.2]
          exact hk
        · rename_i hy
          rw [hslots j hj (fun hz => hy ⟨rfl, hz⟩) fun hz => hx ⟨rfl, hz⟩]
          exact h.shows he j hj
    · rw [if_neg fun hx => hed hx.1, if_neg fun hx => hed hx.1, hother e he hed]
      exact h.shows he j hj
  tidy {e} he := by
    by_cases hed : e = d
    · subst hed
      have : (T.setPair e k a b l).items e = update (update (T.items e) k a) (k + 1) b :=
        update_self _ _ _
      rw [this]
      exact (h.tidy hd).setPair hw.inRange hw.start hw.last hw.used hab
    · have : (T.setPair d k a b l).items e = T.items e := update_of_ne hed _ _
      rw [this]
      exact h.tidy he
  linked := by
    refine h.linked.plain rfl rfl fun e j => ?_
    rw [Tree.setPair_items]
    split
    · rename_i hx
      obtain ⟨rfl, rfl⟩ := hx
      exact Or.inr ⟨hab.plain.2.1, hw.plain.2⟩
    · split
      · rename_i hx
        obtain ⟨rfl, rfl⟩ := hx
        exact Or.inr ⟨hab.plain.1, hw.plain.1⟩
      · exact Or.inl rfl

theorem Describes.setPair (h : Describes n D T) (hd : T.dirs d) (hw : Writable (T.items d) k)
    (hab : NewPair (T.items d) k a b) (hold : ∀ c, T.Owns c d (k + 1) ↔ c ∈ l)
    (hcontent : ∀ p, b = .file p → Content D'.fat n p l') (hnone : b = .deleted → l' = [])
    (hfresh : ∀ c ∈ l', c ∈ l ∨ D.fat c = Fat.free ∧ ¬T.dirs c) (hgone : ∀ c ∈ l, c ∉ l' → D'.fat c = Fat.free)
    (hframe : ∀ c, c ∉ l → c ∉ l' → D'.fat c = D.fat c) (hother : ∀ e, T.dirs e → e ≠ d → D'.data e = D.data e)
    (hk : a.Renders (slotAt (D'.data d) k)) (hk1 : b.Renders (slotAt (D'.data d) (k + 1)))
    (hslots : ∀ j, j < 128 → j ≠ k → j ≠ k + 1 → slotAt (D'.data d) j = slotAt (D.data d) j) :
    Describes n D' (T.setPair d k a b l') := by
  have hnotfile : ∀ p, T.items d k ≠ .file p := fun p hp => by
    rcases hw.start with (hs | hs) | ⟨name, hs⟩ <;> rw [hs] at hp <;> cases hp
  have hdirl : ∀ e, T.dirs e → e ∉ l := fun e he hx => h.owned.apart ((hold e).mpr hx) he
  have hdirl' : ∀ e, T.dirs e → e ∉ l' := fun e he hx => by
    rcases hfresh e hx with hx | ⟨-, hx⟩
    · exact hdirl e he hx
    · exact hx he
  have hends : ∀ e, T.dirs e → D'.fat e = D.fat e := fun e he => hframe e (hdirl e he) (hdirl' e he)
  refine ⟨h.toShaped.setPair hd hw hab hends hother hk hk1 hslots, ?_⟩
  have howns : ∀ c e j, (T.setPair d k a b l').Owns c e j ↔
      (e = d ∧ j = k + 1 ∧ c ∈ l') ∨ (¬(e = d ∧ j = k + 1) ∧ ¬(e = d ∧ j = k + 1) ∧ T.Owns c e j) := by
    intro c e j
    rw [Tree.setPair_owns hab.plain.2.2 hnotfile hd hw.inRange]
    constructor
    · rintro (⟨h₁, h₂, h₃, -⟩ | ⟨h₁, h₂⟩)
      · exact Or.inl ⟨h₁, h₂, h₃⟩
      · exact Or.inr ⟨h₁, h₁, h₂⟩
    · rintro (⟨h₁, h₂, h₃⟩ | ⟨h₁, -, h₂⟩)
      · refine Or.inl ⟨h₁, h₂, h₃, ?_⟩
        rcases hab with ⟨-, hb⟩ | ⟨p, -, hb, -⟩
        · rw [hnone hb] at h₃
          cases h₃
        · exact ⟨p, hb⟩
      · exact Or.inr ⟨h₁, h₂⟩
  refine h.owned.change rfl howns hold (Or.inl ⟨rfl, rfl⟩) hfresh hgone hframe fun {e j p} he hj hp => ?_
  rw [Tree.setPair_items] at hp
  by_cases hx : e = d ∧ j = k + 1
  · rw [if_pos hx] at hp
    have hch : (T.setPair d k a b l').chain e j = l' := if_pos hx
    rw [hch]
    exact hcontent p hp
  · rw [if_neg hx] at hp
    have hch : (T.setPair d k a b l').chain e j = T.chain e j := if_neg hx
    by_cases hy : e = d ∧ j = k
    · rw [if_pos hy] at hp
      exact absurd hp (hab.plain.2.2 p)
    · rw [if_neg hy] at hp
      rw [hch]
      refine (h.owned.content he hj hp).frame fun c hc => ?_
      have ho : T.Owns c e j := ⟨he, hj, hc, p, hp⟩
      refine hframe c (fun hl => hx (h.owned.disjoint ho ((hold c).mpr hl))) fun hl' => ?_
      rcases hfresh c hl' with hl | ⟨hf, -⟩
      · exact hx (h.owned.disjoint ho ((hold c).mpr hl))
      · exact (h.owned.used ho).2 hf

theorem Describes.moveFile {d' k' : Nat} {q : Primary} {Dm : Disk} (h : Describes n D T) (hd : T.dirs d) (hd' : T.dirs d')
    (hne : d ≠ d') (hk : k + 1 < 128) (hp : T.items d (k + 1) = .file p) (hw' : Writable (T.items d') k')
    (hfree : ∀ r, T.items d' (k' + 1) ≠ .file r)
    (hq : q.firstCluster = p.firstCluster ∧ q.fileSize = p.fileSize)
    (hm : Shaped n Dm (T.setPair d' k' (.companion q.name) (.file q) (T.chain d (k + 1))))
    (hother : ∀ e, T.dirs e → e ≠ d → D'.data e = Dm.data e) (hfat : Dm.fat = D.fat) (hfat' : D'.fat = Dm.fat)
    (hk₁ : (slotAt (D'.data d) k).byte 0 = deletedMark) (hk₂ : (slotAt (D'.data d) (k + 1)).byte 0 = deletedMark)
    (hslots : ∀ j, j < 128 → j ≠ k → j ≠ k + 1 → slotAt (D'.data d) j = slotAt (Dm.data d) j) :
    Describes n D' ((T.setPair d' k' (.companion q.name) (.file q) (T.chain d (k + 1))).setPair d k .deleted .deleted []) := by
  have hitems : ∀ j, (T.setPair d' k' (.companion q.name) (.file q) (T.chain d (k + 1))).items d j = T.items d j := by
    intro j
    rw [Tree.setPair_items, if_neg fun hx => hne hx.1, if_neg fun hx => hne hx.1]
  have hw : Writable (T.items d) k := by
    have := ((h.tidy hd).writable hk hp).2
    rwa [Nat.add_sub_cancel] at this
  have hwm : Writable ((T.setPair d' k' (.companion q.name) (.file q) (T.chain d (k + 1))).items d) k := by
    rw [show (T.setPair d' k' (.companion q.name) (.file q) (T.chain d (k + 1))).items d = T.items d from funext hitems]
    exact hw
  refine ⟨hm.setPair hd hwm (Or.inl ⟨rfl, rfl⟩) (fun e _ => by rw [hfat']) hother hk₁ hk₂ hslots, ?_⟩
  have notfile : ∀ {e j}, (T.items e j).Free ∨ (∃ name, T.items e j = .companion name) → ∀ r, T.items e j ≠ .file r := by
    intro e j he r hr
    rcases he with (he | he) | ⟨name, he⟩ <;> rw [he] at hr <;> cases hr
  have howns : ∀ c e j, ((T.setPair d' k' (.companion q.name) (.file q) (T.chain d (k + 1))).setPair d k .deleted .deleted
      []).Owns c e j ↔ (e = d' ∧ j = k' + 1 ∧ c ∈ T.chain d (k + 1)) ∨
        (¬(e = d' ∧ j = k' + 1) ∧ ¬(e = d ∧ j = k + 1) ∧ T.Owns c e j) := by
    intro c e j
    rw [Tree.setPair_owns (T := T.setPair d' k' (.companion q.name) (.file q) (T.chain d (k + 1))) (by simp)
      (fun r => by rw [hitems]; exact notfile hw.start r) hd hk, Tree.setPair_owns (by simp) (notfile hw'.start) hd' hw'.inRange]
    constructor
    · rintro (⟨-, -, hx, -⟩ | ⟨h₁, ⟨h₂, h₃, h₄, -⟩ | ⟨h₂, h₃⟩⟩)
      · cases hx
      · exact Or.inl ⟨h₂, h₃, h₄⟩
      · exact Or.inr ⟨h₂, h₁, h₃⟩
    · rintro (⟨rfl, rfl, h₃⟩ | ⟨h₁, h₂, h₃⟩)
      · exact Or.inr ⟨fun hx => hne hx.1.symm, Or.inl ⟨rfl, rfl, h₃, q, rfl⟩⟩
      · exact Or.inr ⟨h₂, Or.inr ⟨h₁, h₃⟩⟩
  have hold : ∀ c, T.Owns c d (k + 1) ↔ c ∈ T.chain d (k + 1) := fun c =>
    ⟨fun ho => ho.2.2.1, fun hc => ⟨hd, hk, hc, p, hp⟩⟩
  refine h.owned.change rfl howns hold (Or.inr fun c ho => ?_) (fun c hc => Or.inl hc) (fun c h₁ h₂ => absurd h₁ h₂)
    (fun c _ _ => by rw [hfat', hfat]) fun {e j r} he hj hr => ?_
  · obtain ⟨-, -, -, r, hr⟩ := ho
    exact hfree r hr
  · rw [Tree.setPair_items] at hr
    have hch : ((T.setPair d' k' (.companion q.name) (.file q) (T.chain d (k + 1))).setPair d k .deleted .deleted []).chain e j =
        if e = d ∧ j = k + 1 then [] else if e = d' ∧ j = k' + 1 then T.chain d (k + 1) else T.chain e j := rfl
    rw [hch, hfat', hfat]
    split at hr
    · cases hr
    · rename_i hx
      rw [if_neg hx]
      split at hr
      · cases hr
      · rw [Tree.setPair_items] at hr
        split at hr
        · rename_i hy
          cases hr
          rw [if_pos hy]
          have hc := h.owned.content hd hk hp
          exact ⟨by rw [hq.1]; exact hc.chain, hc.nodup, by rw [hq.2]; exact hc.length, hc.fits⟩
        · rename_i hy
          rw [if_neg hy]
          split at hr
          · cases hr
          · exact h.owned.content he hj hr

end Pairs

end InferenceOS
