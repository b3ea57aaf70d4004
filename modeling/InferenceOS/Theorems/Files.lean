import InferenceOS.Theorems.Requests

/-! What a change of the objects makes of each file record, and which record a call is about. -/

namespace InferenceOS
open Program FileService
variable {name : Name}

def Change.Spares (d i : Nat) : Change → Prop
  | .save e j _ _ _ _ => ¬(d = e ∧ i = j)
  | .remove e j _ => ¬(d = e ∧ i = j)
  | .rename e j _ _ => ¬(d = e ∧ i = j)
  | .relocate e j _ _ _ _ => ¬(d = e ∧ i = j)
  | _ => True

def Change.OfDirectories : Change → Prop
  | .same => True
  | .createDirectory _ _ _ => True
  | .removeDirectory _ _ _ => True
  | .renameDirectory _ _ _ _ => True
  | .moveDirectory _ _ _ _ _ _ => True
  | _ => False

structure Tree.FileAt (T : Tree) (d i : Nat) (p : Primary) (l : List Nat) : Prop where
  dir : T.dirs d
  inRange : i < 128
  item : T.items d i = .file p
  chain : T.chain d i = l

inductive Becomes (d i : Nat) (p : Primary) (l : List Nat) : Change → Nat → Nat → Primary → List Nat → Prop where
  | kept {ch : Change} : ch.Spares d i → Becomes d i p l ch d i p l
  | saved {m : List Nat} {bytes : Text} {append : Bool} :
    Becomes d i p l (.save d i p m bytes append) d i (savedRecord p m (savedSize p bytes append)) m
  | renamed {name : Name} : Becomes d i p l (.rename d i p name) d i { p with name } l
  | relocated {d' k : Nat} {name : Name} : Becomes d i p l (.relocate d i p d' k name) d' (k + 1) { p with name } l

section Steps
variable {T T' : Tree} {ch : Change} {d i e j k : Nat} {p q : Primary} {a b : Item} {l m : List Nat}

theorem SameFiles.fileAt (h : SameFiles T T') : T'.FileAt e j q m ↔ T.FileAt e j q m := by
  constructor
  · rintro ⟨hd, hi, hp, hl⟩
    obtain ⟨hd', hp'⟩ := (h.files hi).mp ⟨hd, hp⟩
    exact ⟨hd', hi, hp', (h.chain hd' hi hp').symm.trans hl⟩
  · rintro ⟨hd, hi, hp, hl⟩
    obtain ⟨hd', hp'⟩ := (h.files hi).mpr ⟨hd, hp⟩
    exact ⟨hd', hi, hp', (h.chain hd hi hp).trans hl⟩

theorem fileAt_setPair (hd : T.dirs d) (hlt : k + 1 < 128) (ha : ∀ p, a ≠ .file p) (hk : ∀ p, T.items d k ≠ .file p) :
    (T.setPair d k a b l).FileAt e j q m ↔
      (e = d ∧ j = k + 1 ∧ b = .file q ∧ m = l) ∨ (¬(e = d ∧ j = k + 1) ∧ T.FileAt e j q m) := by
  have hchain : (T.setPair d k a b l).chain e j = if e = d ∧ j = k + 1 then l else T.chain e j := rfl
  constructor
  · rintro ⟨he, hj, hq, hm⟩
    rw [Tree.setPair_items] at hq
    rw [hchain] at hm
    split at hq
    · rename_i hx
      rw [if_pos hx] at hm
      exact Or.inl ⟨hx.1, hx.2, hq, hm.symm⟩
    · rename_i hx
      rw [if_neg hx] at hm
      split at hq
      · exact absurd hq (ha q)
      · exact Or.inr ⟨hx, he, hj, hq, hm⟩
  · rintro (⟨rfl, rfl, hb, rfl⟩ | ⟨hx, he, hj, hq, hm⟩)
    · exact ⟨hd, hlt, by rw [Tree.setPair_items, if_pos ⟨rfl, rfl⟩, hb], if_pos ⟨rfl, rfl⟩⟩
    · refine ⟨he, hj, ?_, by rw [hchain, if_neg hx, hm]⟩
      rw [Tree.setPair_items, if_neg hx, if_neg, hq]
      rintro ⟨rfl, rfl⟩
      exact hk q hq

theorem fileAt_change (ht : Tidy (T.items d)) (hd : T.dirs d) (hpos : 0 < i) (hi : i < 128) (hp : T.items d i = .file p)
    (ha : ∀ p, a ≠ .file p) : (T.setPair d (i - 1) a b l).FileAt e j q m ↔
      (e = d ∧ j = i ∧ b = .file q ∧ m = l) ∨ (¬(e = d ∧ j = i) ∧ T.FileAt e j q m) := by
  have hbefore : ∀ q, T.items d (i - 1) ≠ .file q := fun q hq => by
    rw [(ht.preceded hi hp).2] at hq
    cases hq
  have := @fileAt_setPair T d e j (i - 1) q a b l m hd (by omega) ha hbefore
  rwa [Nat.sub_add_cancel hpos] at this

theorem companion_ne_file (p : Primary) : Item.companion name ≠ .file p := by
  intro h
  cases h

theorem deleted_ne_file (p : Primary) : Item.deleted ≠ .file p := by
  intro h
  cases h

theorem TreeStep.sameFiles (hs : TreeStep T ch T') (hl : T.Linked) (h : ch.OfDirectories) : SameFiles T T' := by
  cases hs with
  | same => exact ⟨fun _ _ _ => rfl, fun _ => Iff.rfl⟩
  | createDirectory hd hk hf hc => exact sameFiles_addDirectory hc hk.not_file
  | removeDirectory hd hi hp hempty => exact sameFiles_removeDirectory hp fun j q hj hq => hempty j q hj (Or.inl hq)
  | renameDirectory hd hi hp =>
    refine sameFiles_setSlot (fun q hq => ?_) fun q hq => ?_
    · rw [hp] at hq
      cases hq
    · cases hq
  | @moveDirectory d i d' k p name hd hi hp hd' hne hk hf hn hu =>
    obtain ⟨hdc, hcr, -⟩ := hl.closed hd ⟨hi, p, hp, rfl⟩
    refine sameFiles_moveDirectory (fun q hq => ?_) (fun q hq => ?_) hk.not_file
    · rw [hp] at hq
      cases hq
    · rw [(hl.dots hdc hcr).2] at hq
      cases hq
  | _ => cases h

theorem becomes_of_directories (h : ch.OfDirectories) : Becomes d i p l ch e j q m ↔ e = d ∧ j = i ∧ q = p ∧ m = l := by
  constructor
  · rintro (hs | _ | _ | _)
    · exact ⟨rfl, rfl, rfl, rfl⟩
    all_goals cases h
  · rintro ⟨rfl, rfl, rfl, rfl⟩
    refine .kept ?_
    cases ch <;> trivial

theorem TreeStep.files (hs : TreeStep T ch T') (hl : T.Linked) (ht : ∀ {d}, T.dirs d → Tidy (T.items d)) :
    T'.FileAt e j q m ↔ (∃ k name, ch = .create e k name ∧ j = k + 1 ∧ q = newFile name ∧ m = []) ∨
      ∃ d i p l, T.FileAt d i p l ∧ Becomes d i p l ch e j q m := by
  by_cases hdirs : ch.OfDirectories
  · rw [(hs.sameFiles hl hdirs).fileAt]
    constructor
    · exact fun hx => Or.inr ⟨e, j, q, m, hx, (becomes_of_directories hdirs).mpr ⟨rfl, rfl, rfl, rfl⟩⟩
    · rintro (⟨k, name, rfl, -⟩ | ⟨d, i, p, l, hx, hb⟩)
      · cases hdirs
      · obtain ⟨rfl, rfl, rfl, rfl⟩ := (becomes_of_directories hdirs).mp hb
        exact hx
  cases hs with
  | @create d k name hd hw h₁ h₂ hn hu =>
    rw [fileAt_setPair hd hw.inRange companion_ne_file h₁.not_file]
    constructor
    · rintro (⟨rfl, rfl, hq, rfl⟩ | ⟨-, hx⟩)
      · cases hq
        exact Or.inl ⟨k, name, rfl, rfl, rfl, rfl⟩
      · exact Or.inr ⟨e, j, q, m, hx, .kept trivial⟩
    · rintro (⟨_, _, hch, rfl, rfl, rfl⟩ | ⟨d', i, p, l, hx, hb⟩)
      · cases hch
        exact Or.inl ⟨rfl, rfl, rfl, rfl⟩
      · cases hb
        refine Or.inr ⟨?_, hx⟩
        rintro ⟨rfl, rfl⟩
        exact h₂.not_file _ hx.item
  | @save d i p l bytes append hd hpos hi hp =>
    rw [fileAt_change (ht hd) hd hpos hi hp companion_ne_file]
    constructor
    · rintro (⟨rfl, rfl, hq, rfl⟩ | ⟨hne, hx⟩)
      · cases hq
        exact Or.inr ⟨e, j, p, _, ⟨hd, hi, hp, rfl⟩, .saved⟩
      · exact Or.inr ⟨e, j, q, m, hx, .kept hne⟩
    · rintro (⟨_, _, hch, -⟩ | ⟨d', i', p', l', hx, hb⟩)
      · cases hch
      · cases hb with
        | kept hne => exact Or.inr ⟨hne, hx⟩
        | saved => exact Or.inl ⟨rfl, rfl, rfl, rfl⟩
  | @remove d i p hd hpos hi hp =>
    rw [fileAt_change (ht hd) hd hpos hi hp deleted_ne_file]
    constructor
    · rintro (⟨rfl, rfl, hq, rfl⟩ | ⟨hne, hx⟩)
      · cases hq
      · exact Or.inr ⟨e, j, q, m, hx, .kept hne⟩
    · rintro (⟨_, _, hch, -⟩ | ⟨d', i', p', l', hx, hb⟩)
      · cases hch
      · cases hb with
        | kept hne => exact Or.inr ⟨hne, hx⟩
  | @rename d i p name hd hpos hi hp hn hu =>
    rw [fileAt_change (ht hd) hd hpos hi hp companion_ne_file]
    constructor
    · rintro (⟨rfl, rfl, hq, rfl⟩ | ⟨hne, hx⟩)
      · cases hq
        exact Or.inr ⟨e, j, p, _, ⟨hd, hi, hp, rfl⟩, .renamed⟩
      · exact Or.inr ⟨e, j, q, m, hx, .kept hne⟩
    · rintro (⟨_, _, hch, -⟩ | ⟨d', i', p', l', hx, hb⟩)
      · cases hch
      · cases hb with
        | kept hne => exact Or.inr ⟨hne, hx⟩
        | renamed => exact Or.inl ⟨rfl, rfl, rfl, hx.chain.symm⟩
  | @relocate d i d' k p name hd hpos hi hp hd' hdd hw h₁ h₂ hn hu =>
    have hbefore : ∀ {q}, T.items d (i - 1) ≠ .file q := fun {q} hq => by
      rw [((ht hd).preceded hi hp).2] at hq
      cases hq
    have hmoved : ∀ q, (T.setPair d' k (.companion name) (.file { p with name }) (T.chain d i)).items d (i - 1) ≠ .file q := by
      intro q hq
      rw [Tree.setPair_items, if_neg fun hx => hdd hx.1, if_neg fun hx => hdd hx.1] at hq
      exact hbefore hq
    rw [fileAt_setPair (T := T.setPair d' k (.companion name) (.file { p with name }) (T.chain d i)) hd (by omega)
      deleted_ne_file hmoved, fileAt_setPair hd' hw.inRange companion_ne_file h₁.not_file, Nat.sub_add_cancel hpos]
    constructor
    · rintro (⟨-, -, hq, -⟩ | ⟨hne, ⟨rfl, rfl, hq, rfl⟩ | ⟨-, hx⟩⟩)
      · cases hq
      · cases hq
        exact Or.inr ⟨d, i, p, _, ⟨hd, hi, hp, rfl⟩, .relocated⟩
      · exact Or.inr ⟨e, j, q, m, hx, .kept hne⟩
    · rintro (⟨_, _, hch, -⟩ | ⟨d₁, i₁, p₁, l₁, hx, hb⟩)
      · cases hch
      · cases hb with
        | kept hne =>
          refine Or.inr ⟨hne, Or.inr ⟨?_, hx⟩⟩
          rintro ⟨rfl, rfl⟩
          exact h₂.not_file _ hx.item
        | relocated => exact Or.inr ⟨fun hy => hdd hy.1.symm, Or.inl ⟨rfl, rfl, rfl, hx.chain.symm⟩⟩
  | _ => exact absurd trivial hdirs

theorem TreeStep.becomes (hs : TreeStep T ch T') (h : T.FileAt d i p l) :
    ch = .remove d i p ∨ ∃ e j q m, Becomes d i p l ch e j q m := by
  by_cases hspare : ch.Spares d i
  · exact Or.inr ⟨_, _, _, _, .kept hspare⟩
  have same : ∀ {d' i' p'}, T.items d' i' = .file p' → d = d' ∧ i = i' → p' = p := by
    rintro _ _ p' hp' ⟨rfl, rfl⟩
    rw [h.item] at hp'
    cases hp'
    rfl
  cases hs with
  | save hd hpos hi hp =>
    obtain ⟨rfl, rfl⟩ := not_not.mp hspare
    cases same hp ⟨rfl, rfl⟩
    exact Or.inr ⟨_, _, _, _, .saved⟩
  | remove hd hpos hi hp =>
    obtain ⟨rfl, rfl⟩ := not_not.mp hspare
    cases same hp ⟨rfl, rfl⟩
    exact Or.inl rfl
  | rename hd hpos hi hp =>
    obtain ⟨rfl, rfl⟩ := not_not.mp hspare
    cases same hp ⟨rfl, rfl⟩
    exact Or.inr ⟨_, _, _, _, .renamed⟩
  | relocate hd hpos hi hp =>
    obtain ⟨rfl, rfl⟩ := not_not.mp hspare
    cases same hp ⟨rfl, rfl⟩
    exact Or.inr ⟨_, _, _, _, .relocated⟩
  | _ => exact absurd trivial hspare

end Steps

/-- What a call does with the object of a name. -/
inductive Deed where
  | create (d : Nat) (name : Name)
  | save (d : Nat) (entry : DirectoryEntry) (bytes : Text) (append : Bool)
  | remove (d : Nat) (entry : DirectoryEntry)
  | rename (d : Nat) (entry : DirectoryEntry) (d' : Nat) (name : Name)

/-- The deed of a call in the directories `live`. -/
def Request.Does (s : FileService) (live : Nat → Prop) (r : Request) : Deed → Prop
  | .create d name => r.Creates s d name
  | .save d entry bytes more => live d ∧ r.Saves s d entry bytes more
  | .remove d entry => live d ∧ r.Removes s d entry
  | .rename d entry d' name => live d ∧ r.Renames s d entry d' name

/-- The change is the one of the deed. -/
inductive Deed.Fits : Deed → Change → Prop where
  | same {d : Nat} {entry : DirectoryEntry} : entry.kind = .regular → Fits (.rename d entry d entry.primary.name) .same
  | create {d k : Nat} {name : Name} : Fits (.create d name) (.create d k name)
  | save {d i : Nat} {p : Primary} {l : List Nat} {bytes : Text} {append : Bool} :
    Fits (.save d (fileEntry p i) bytes append) (.save d i p l bytes append)
  | remove {d i : Nat} {p : Primary} : Fits (.remove d (fileEntry p i)) (.remove d i p)
  | rename {d i : Nat} {p : Primary} {name : Name} : Fits (.rename d (fileEntry p i) d name) (.rename d i p name)
  | relocate {d i d' k : Nat} {p : Primary} {name : Name} : d ≠ d' →
    Fits (.rename d (fileEntry p i) d' name) (.relocate d i p d' k name)
  | renameDirectory {d i : Nat} {p : Primary} {name : Name} :
    Fits (.rename d (directoryEntry p i) d name) (.renameDirectory d i p name)
  | moveDirectory {d i d' k : Nat} {p : Primary} {name : Name} : d ≠ d' →
    Fits (.rename d (directoryEntry p i) d' name) (.moveDirectory d i p d' k name)

namespace FileService
variable {s : FileService} {T T' : Tree} {ch : Change} {r : Request} {v : Option VfsObject} {d d' : Nat}
variable {path : Option Text} {name' : Name}
  {entry entry' : DirectoryEntry}

theorem Consistent.names_unique (h : Consistent s T) (hn : Names s path d name)
    (hn' : Names s path d' name') : d = d' ∧ name = name' := by
  have hp := h.names.mp hn
  rw [h.names.mp hn'] at hp
  cases hp
  exact ⟨rfl, rfl⟩

theorem Consistent.held_unique (h : Consistent s T) (hd : T.dirs d) (he : Holds s d entry) (he' : Holds s d entry')
    (hn : entry.primary.name = entry'.primary.name) : entry = entry' :=
  ((h.holds hd).mp he).unique (h.describes.tidy hd) ((h.holds hd).mp he') hn

theorem Consistent.named_unique (h : Consistent s T) (hd : T.dirs d)
    (hs : Names s path d entry.primary.name ∧ Holds s d entry) (hs' : Names s path d' entry'.primary.name ∧ Holds s d' entry') :
    d = d' ∧ entry = entry' := by
  obtain ⟨rfl, hname⟩ := h.names_unique hs.1 hs'.1
  exact ⟨rfl, h.held_unique hd hs.2 hs'.2 hname⟩

theorem Consistent.denotes_unique (h : Consistent s T) {identity : Nat} (hd : T.dirs d) (hd' : T.dirs d')
    (hs : Denotes s identity d entry) (hs' : Denotes s identity d' entry') : d = d' ∧ entry = entry' := by
  obtain ⟨c, hl, hk, rfl⟩ := hs
  obtain ⟨rfl, he⟩ := (h.lists hd).mp hl
  have hv := h.describes.valid hd
  rw [h.mounted.entries] at hv
  obtain ⟨hlt, -⟩ := addressed_fileIdentity h.mounted.laid hv he.named.1
  have hsel := (h.denotes hd hlt).mp ⟨c, hl, hk, rfl⟩
  rw [(h.denotes hd' hlt).mp hs'] at hsel
  cases hsel
  exact ⟨rfl, rfl⟩

theorem Consistent.selects_unique (h : Consistent s T) {identity : Nat} (hd : T.dirs d) (hd' : T.dirs d')
    (hs : Selects s path identity d entry) (hs' : Selects s path identity d' entry') : d = d' ∧ entry = entry' := by
  cases path with
  | some path => exact h.named_unique hd hs hs'
  | none => exact h.denotes_unique hd hd' hs hs'

theorem Consistent.creates_unique (h : Consistent s T) (hs : r.Creates s d name)
    (hs' : r.Creates s d' name') : d = d' ∧ name = name' := by
  cases r with
  | create path => exact h.names_unique hs hs'
  | createFile parent component =>
    obtain ⟨rfl, hname⟩ := hs
    obtain ⟨rfl, hname'⟩ := hs'
    rw [hname] at hname'
    exact ⟨rfl, Except.ok.inj hname'⟩
  | _ => cases hs

theorem Consistent.saves_unique (h : Consistent s T) {bytes bytes' : Text} {append append' : Bool} (hd : T.dirs d) (hd' : T.dirs d')
    (hs : r.Saves s d entry bytes append) (hs' : r.Saves s d' entry' bytes' append') :
    d = d' ∧ entry = entry' ∧ bytes = bytes' ∧ append = append' := by
  cases r with
  | replace | append | replaceObject | appendObject =>
    obtain ⟨hsel, rfl, rfl⟩ := hs
    obtain ⟨hsel', rfl, rfl⟩ := hs'
    obtain ⟨rfl, rfl⟩ := h.selects_unique hd hd' hsel hsel'
    exact ⟨rfl, rfl, rfl, rfl⟩
  | _ => cases hs

theorem Consistent.removes_unique (h : Consistent s T) (hd : T.dirs d) (hd' : T.dirs d') (hs : r.Removes s d entry)
    (hs' : r.Removes s d' entry') : d = d' ∧ entry = entry' := by
  cases r with
  | remove path => exact h.named_unique hd hs hs'
  | removeObject identity => exact h.denotes_unique hd hd' hs hs'
  | _ => cases hs

theorem Consistent.renames_unique (h : Consistent s T) {e e' : Nat} (hd : T.dirs d) (hd' : T.dirs d')
    (hs : r.Renames s d entry e name) (hs' : r.Renames s d' entry' e' name') :
    d = d' ∧ entry = entry' ∧ e = e' ∧ name = name' := by
  cases r with
  | rename source destination =>
    obtain ⟨rfl, rfl⟩ := h.named_unique hd hs.1 hs'.1
    obtain ⟨rfl, rfl⟩ := h.names_unique hs.2 hs'.2
    exact ⟨rfl, rfl, rfl, rfl⟩
  | renameObject identity parent base =>
    obtain ⟨hsel, rfl, stem, hstem, rfl⟩ := hs
    obtain ⟨hsel', rfl, stem', hstem', rfl⟩ := hs'
    obtain ⟨rfl, rfl⟩ := h.selects_unique hd hd' hsel hsel'
    rw [hstem] at hstem'
    cases hstem'
    exact ⟨rfl, rfl, rfl, rfl⟩
  | vfsRename parent component parent' component' =>
    obtain ⟨rfl, he, hn, rfl, hname⟩ := hs
    obtain ⟨rfl, he', hn', rfl, hname'⟩ := hs'
    rw [hn] at hn'
    rw [hname] at hname'
    cases hname'
    exact ⟨rfl, h.held_unique hd he he' (Except.ok.inj hn'), rfl, rfl⟩
  | _ => cases hs

theorem Consistent.does_unique (h : Consistent s T) {x y : Deed} (hx : r.Does s T.dirs x) (hy : r.Does s T.dirs y) : x = y := by
  cases x with
  | create d name =>
    cases y with
    | create d' name' =>
      obtain ⟨rfl, rfl⟩ := h.creates_unique hx hy
      rfl
    | _ => cases r <;> first | exact False.elim hx | exact False.elim hy.2
  | save d entry bytes append =>
    cases y with
    | save d' entry' bytes' append' =>
      obtain ⟨rfl, rfl, rfl, rfl⟩ := h.saves_unique hx.1 hy.1 hx.2 hy.2
      rfl
    | create => cases r <;> first | exact False.elim hx.2 | exact False.elim hy
    | _ => cases r <;> first | exact False.elim hx.2 | exact False.elim hy.2
  | remove d entry =>
    cases y with
    | remove d' entry' =>
      obtain ⟨rfl, rfl⟩ := h.removes_unique hx.1 hy.1 hx.2 hy.2
      rfl
    | create => cases r <;> first | exact False.elim hx.2 | exact False.elim hy
    | _ => cases r <;> first | exact False.elim hx.2 | exact False.elim hy.2
  | rename d entry e name =>
    cases y with
    | rename d' entry' e' name' =>
      obtain ⟨rfl, rfl, rfl, rfl⟩ := h.renames_unique hx.1 hy.1 hx.2 hy.2
      rfl
    | create => cases r <;> first | exact False.elim hx.2 | exact False.elim hy
    | _ => cases r <;> first | exact False.elim hx.2 | exact False.elim hy.2

theorem makes_fits (hs : TreeStep T ch T') (hm : r.Makes s T.dirs v ch) :
    (∃ deed, r.Does s T.dirs deed ∧ deed.Fits ch) ∨ (∀ deed, ¬r.Does s T.dirs deed) ∧ ch.OfDirectories := by
  have fits : ∀ {deed : Deed}, deed.Fits ch → r.Does s T.dirs deed →
      (∃ deed, r.Does s T.dirs deed ∧ deed.Fits ch) ∨ (∀ deed, ¬r.Does s T.dirs deed) ∧ ch.OfDirectories :=
    fun hf hd => Or.inl ⟨_, hd, hf⟩
  cases hs with
  | same =>
    obtain ⟨d, entry, hd, hk, hren⟩ := hm
    exact fits (.same hk) ⟨hd, hren⟩
  | create hd => exact fits .create hm.1
  | save hd => exact fits .save ⟨hd, hm⟩
  | remove hd => exact fits .remove ⟨hd, hm⟩
  | rename hd => exact fits .rename ⟨hd, hm⟩
  | relocate hd => exact fits (.relocate hm.2) ⟨hd, hm.1⟩
  | createDirectory =>
    obtain ⟨component, rfl, -⟩ := hm
    exact Or.inr ⟨fun deed hx => by cases deed <;> first | exact hx | exact hx.2, trivial⟩
  | removeDirectory =>
    obtain ⟨component, rfl, -⟩ := hm
    exact Or.inr ⟨fun deed hx => by cases deed <;> first | exact hx | exact hx.2, trivial⟩
  | renameDirectory hd => exact fits .renameDirectory ⟨hd, hm.2⟩
  | moveDirectory hd => exact fits (.moveDirectory hm.2.2) ⟨hd, hm.2.1⟩

theorem Consistent.fits (h : Consistent s T) (hs : TreeStep T ch T') (hm : r.Makes s T.dirs v ch) {deed : Deed}
    (hd : r.Does s T.dirs deed) : deed.Fits ch := by
  rcases makes_fits hs hm with ⟨x, hx, hfits⟩ | ⟨hnone, -⟩
  · rwa [h.does_unique hd hx]
  · exact absurd hd (hnone deed)

end FileService
end InferenceOS
