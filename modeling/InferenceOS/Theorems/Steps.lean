import InferenceOS.Theorems.Directories

/-! What the mutations make of the objects of a volume. Every plan of a call is one step of the tree, and it
    leaves the content of the files that it does not save alone. -/

namespace InferenceOS
open Program FileService Function
variable {name : Name} {p : Primary} {l : List Nat}

def Unshown (items : Nat → Item) (name : Name) (i : Nat) : Prop :=
  ∀ j q, j < 128 → j ≠ i → (items j).Named q → q.name.slice 0 8 ≠ name.slice 0 8

/-- A mutation of the objects: the slots and the records that it is about. -/
inductive Change where
  | same
  | create (d k : Nat) (name : Name)
  | save (d i : Nat) (p : Primary) (l : List Nat) (bytes : Text) (append : Bool)
  | remove (d i : Nat) (p : Primary)
  | rename (d i : Nat) (p : Primary) (name : Name)
  | relocate (d i : Nat) (p : Primary) (d' k : Nat) (name : Name)
  | createDirectory (d k : Nat) (p : Primary)
  | removeDirectory (d i : Nat) (p : Primary)
  | renameDirectory (d i : Nat) (p : Primary) (name : Name)
  | moveDirectory (d i : Nat) (p : Primary) (d' k : Nat) (name : Name)

def savedSize (p : Primary) (bytes : Text) (append : Bool) : Nat := if append then p.fileSize + bytes.length else bytes.length

inductive TreeStep (T : Tree) : Change → Tree → Prop where
  | same : TreeStep T .same T
  | create {d k : Nat} {name : Name} : T.dirs d → Writable (T.items d) k → (T.items d k).Free → (T.items d (k + 1)).Free →
    validStoredName name = true → Unshown (T.items d) name (k + 1) →
    TreeStep T (.create d k name) (T.setPair d k (.companion name) (.file (newFile name)) [])
  | save {d i : Nat} {p : Primary} {l : List Nat} {bytes : Text} {append : Bool} : T.dirs d → 0 < i → i < 128 →
    T.items d i = .file p → TreeStep T (.save d i p l bytes append)
      (T.setPair d (i - 1) (.companion p.name) (.file (savedRecord p l (savedSize p bytes append))) l)
  | remove {d i : Nat} {p : Primary} : T.dirs d → 0 < i → i < 128 → T.items d i = .file p →
    TreeStep T (.remove d i p) (T.setPair d (i - 1) .deleted .deleted [])
  | rename {d i : Nat} {p : Primary} {name : Name} : T.dirs d → 0 < i → i < 128 → T.items d i = .file p →
    validStoredName name = true → Unshown (T.items d) name i →
    TreeStep T (.rename d i p name) (T.setPair d (i - 1) (.companion name) (.file { p with name }) (T.chain d i))
  | relocate {d i d' k : Nat} {p : Primary} {name : Name} : T.dirs d → 0 < i → i < 128 → T.items d i = .file p →
    T.dirs d' → d ≠ d' → Writable (T.items d') k → (T.items d' k).Free → (T.items d' (k + 1)).Free →
    validStoredName name = true → Unshown (T.items d') name (k + 1) → TreeStep T (.relocate d i p d' k name)
      ((T.setPair d' k (.companion name) (.file { p with name }) (T.chain d i)).setPair d (i - 1) .deleted .deleted [])
  | createDirectory {d k : Nat} {p : Primary} : T.dirs d → Single (T.items d) k → (T.items d k).Free →
    ¬T.dirs p.firstCluster → validStoredName p.name = true → Unshown (T.items d) p.name k →
    TreeStep T (.createDirectory d k p) (T.addDirectory d k p)
  | removeDirectory {d i : Nat} {p : Primary} : T.dirs d → i < 128 → T.items d i = .directory p →
    (∀ j q, j < 128 → ¬(T.items p.firstCluster j).Named q) →
    TreeStep T (.removeDirectory d i p) (T.removeDirectory d i p.firstCluster)
  | renameDirectory {d i : Nat} {p : Primary} {name : Name} : T.dirs d → i < 128 → T.items d i = .directory p →
    validStoredName name = true → Unshown (T.items d) name i →
    TreeStep T (.renameDirectory d i p name) (T.setSlot d i (.directory { p with name }))
  | moveDirectory {d i d' k : Nat} {p : Primary} {name : Name} : T.dirs d → i < 128 → T.items d i = .directory p →
    T.dirs d' → d ≠ d' → Single (T.items d') k → (T.items d' k).Free → validStoredName name = true →
    Unshown (T.items d') name k → TreeStep T (.moveDirectory d i p d' k name) (T.moveDirectory d i d' k { p with name })

section Invariants
variable {T T' : Tree} {ch : Change}
variable {d e j k : Nat} {q : Primary}

def Distinguished (items : Nat → Item) : Prop :=
  ∀ i j p q, i < 128 → j < 128 → (items i).Named p → (items j).Named q → p.name.slice 0 8 = q.name.slice 0 8 → i = j

theorem Distinguished.change {items items' : Nat → Item} (h : Distinguished items) (hnew : ∀ j q, j < 128 → (items' j).Named q →
      (j = k ∧ q.name = name ∧ Unshown items name k) ∨ ∃ r, (items j).Named r ∧ r.name = q.name) : Distinguished items' := by
  intro i j p q hi hj hp hq hbase
  rcases hnew i p hi hp with ⟨rfl, h₁, hu⟩ | ⟨r, hr, h₁⟩ <;> rcases hnew j q hj hq with ⟨rfl, h₂, hu'⟩ | ⟨r', hr', h₂⟩
  · rfl
  · by_contra hne
    exact hu j r' hj (Ne.symm hne) hr' (by rw [h₂, ← hbase, h₁])
  · by_contra hne
    exact hu' i r hi hne hr (by rw [h₁, hbase, h₂])
  · exact h i j r r' hi hj hr hr' (by rw [h₁, h₂, hbase])

theorem not_named_deleted : ¬(Item.deleted).Named p := by
  rintro (h | h) <;> cases h

theorem not_named_companion : ¬(Item.companion name).Named p := by
  rintro (h | h) <;> cases h

theorem not_named_internal {b : Bool} {c : Nat} : ¬(Item.internal b c).Named p := by
  rintro (h | h) <;> cases h

theorem named_file (h : (Item.file p).Named q) : q = p := by
  rcases h with h | h <;> cases h
  rfl

theorem named_directory (h : (Item.directory p).Named q) : q = p := by
  rcases h with h | h <;> cases h
  rfl

theorem named_setPair (h : ((T.setPair d k (.companion name) (.file p) l).items e j).Named q) :
    (e = d ∧ j = k + 1 ∧ q = p) ∨ ((T.items e j).Named q ∧ ¬(e = d ∧ j = k + 1)) := by
  rw [Tree.setPair_items] at h
  split at h
  · rename_i hx
    exact Or.inl ⟨hx.1, hx.2, named_file h⟩
  · rename_i hx
    split at h
    · exact absurd h not_named_companion
    · exact Or.inr ⟨h, hx⟩

theorem named_clearPair (h : ((T.setPair d k .deleted .deleted l).items e j).Named q) : (T.items e j).Named q ∧ ¬(e = d ∧ j = k + 1) := by
  rw [Tree.setPair_items] at h
  split at h
  · exact absurd h not_named_deleted
  · rename_i hx
    split at h
    · exact absurd h not_named_deleted
    · exact ⟨h, hx⟩

theorem named_setSlot (h : ((T.setSlot d k (.directory p)).items e j).Named q) :
    (e = d ∧ j = k ∧ q = p) ∨ (T.items e j).Named q := by
  rw [Tree.setSlot_items] at h
  split at h
  · rename_i hx
    exact Or.inl ⟨hx.1, hx.2, named_directory h⟩
  · exact Or.inr h

theorem not_named_fresh {c : Nat} : ¬(freshItems c d j).Named q := by
  intro h
  match j with
  | 0 => exact not_named_internal h
  | 1 => exact not_named_internal h
  | j + 2 => rcases h with h | h <;> cases h

theorem TreeStep.named (hs : TreeStep T ch T') (he : T'.dirs e) : ∃ k name, (∀ j q, (T'.items e j).Named q →
      (j = k ∧ q.name = name ∧ Unshown (T.items e) name k) ∨ ∃ r, (T.items e j).Named r ∧ r.name = q.name) := by
  cases hs with
  | same => exact ⟨0, Bytes.zero, fun j q hq => Or.inr ⟨q, hq, rfl⟩⟩
  | @create d k name hd hw h₁ h₂ hn hu =>
    refine ⟨k + 1, name, fun j q hq => ?_⟩
    rcases named_setPair hq with ⟨rfl, hj, rfl⟩ | ⟨hq, -⟩
    · exact Or.inl ⟨hj, rfl, hu⟩
    · exact Or.inr ⟨q, hq, rfl⟩
  | @save d i p l bytes append hd hpos hi hp =>
    refine ⟨0, Bytes.zero, fun j q hq => Or.inr ?_⟩
    rcases named_setPair hq with ⟨rfl, hj, rfl⟩ | ⟨hq, -⟩
    · rw [hj, Nat.sub_add_cancel hpos]
      exact ⟨p, Or.inl hp, rfl⟩
    · exact ⟨q, hq, rfl⟩
  | @remove d i p hd hpos hi hp => exact ⟨0, Bytes.zero, fun j q hq => Or.inr ⟨q, (named_clearPair hq).1, rfl⟩⟩
  | @rename d i p name hd hpos hi hp hn hu =>
    refine ⟨i, name, fun j q hq => ?_⟩
    rcases named_setPair hq with ⟨rfl, hj, rfl⟩ | ⟨hq, -⟩
    · exact Or.inl ⟨by omega, rfl, hu⟩
    · exact Or.inr ⟨q, hq, rfl⟩
  | @relocate d i d' k p name hd hpos hi hp hd' hne hw h₁ h₂ hn hu =>
    refine ⟨k + 1, name, fun j q hq => ?_⟩
    rcases named_setPair (named_clearPair hq).1 with ⟨rfl, hj, rfl⟩ | ⟨hq, -⟩
    · exact Or.inl ⟨hj, rfl, hu⟩
    · exact Or.inr ⟨q, hq, rfl⟩
  | @createDirectory d k p hd hk hf hc hn hu =>
    by_cases hec : e = p.firstCluster
    · subst hec
      refine ⟨0, Bytes.zero, fun j q hq => ?_⟩
      rw [Tree.addDirectory_fresh] at hq
      exact absurd hq not_named_fresh
    · refine ⟨k, p.name, fun j q hq => ?_⟩
      rw [Tree.addDirectory_items hec] at hq
      rcases named_setSlot hq with ⟨rfl, hj, rfl⟩ | hq
      · exact Or.inl ⟨hj, rfl, hu⟩
      · exact Or.inr ⟨q, hq, rfl⟩
  | @removeDirectory d i p hd hi hp hempty =>
    refine ⟨0, Bytes.zero, fun j q hq => Or.inr ⟨q, ?_, rfl⟩⟩
    rw [Tree.removeDirectory_items] at hq
    split at hq
    · exact absurd hq not_named_deleted
    · exact hq
  | @renameDirectory d i p name hd hi hp hn hu =>
    refine ⟨i, name, fun j q hq => ?_⟩
    rcases named_setSlot hq with ⟨rfl, hj, rfl⟩ | hq
    · exact Or.inl ⟨hj, rfl, hu⟩
    · exact Or.inr ⟨q, hq, rfl⟩
  | @moveDirectory d i d' k p name hd hi hp hd' hne hk hf hn hu =>
    refine ⟨k, name, fun j q hq => ?_⟩
    rw [Tree.moveDirectory_items] at hq
    split at hq
    · exact absurd hq not_named_deleted
    · split at hq
      · exact absurd hq not_named_internal
      · split at hq
        · rename_i hx
          obtain ⟨rfl, rfl⟩ := hx
          rw [named_directory hq]
          exact Or.inl ⟨rfl, rfl, hu⟩
        · exact Or.inr ⟨q, hq, rfl⟩

theorem TreeStep.dirs (hs : TreeStep T ch T') (he : T'.dirs e) : T.dirs e ∨ ¬T.dirs e ∧ ∀ j q, ¬(T'.items e j).Named q := by
  cases hs with
  | @createDirectory d k p hd hk hf hc hn hu =>
    rcases he with he | rfl
    · exact Or.inl he
    · refine Or.inr ⟨hc, fun j q hq => ?_⟩
      rw [Tree.addDirectory_fresh] at hq
      exact not_named_fresh hq
  | removeDirectory => exact Or.inl he.1
  | _ => exact Or.inl he

theorem TreeStep.distinguished (hs : TreeStep T ch T') (h : ∀ d, T.dirs d → Distinguished (T.items d))
    (hd : T'.dirs d) : Distinguished (T'.items d) := by
  rcases hs.dirs hd with hold | ⟨-, hnone⟩
  · obtain ⟨k, name, hnew⟩ := hs.named hd
    exact (h d hold).change fun j q _ hq => hnew j q hq
  · exact fun i j p q _ _ hp => absurd hp (hnone i p)

theorem TreeStep.grounded (hs : TreeStep T ch T') (hl : T.Linked) (h : T.Grounded)
    (hout : ∀ c, T.dirs c → T'.parent c ≠ T.parent c → ¬Above T.parent c (T'.parent c)) : T'.Grounded := by
  cases hs with
  | @createDirectory d k p hd hk hf hc hn hu =>
    have hne : ∀ {e}, T.dirs e → e ≠ p.firstCluster := fun he hx => hc (hx ▸ he)
    have hparent : ∀ {e}, T.dirs e → (T.addDirectory d k p).parent e = T.parent e := fun he =>
      update_of_ne (hne he) _ _
    have rooted : ∀ {e}, T.dirs e → Rooted (T.addDirectory d k p).parent rootCluster e := fun he =>
      Rooted.congr (fun x hx hr => ⟨(hl.record hx hr).1, hparent hx⟩) he (h.rooted he)
    refine ⟨(hparent hl.root).trans h.top, ?_⟩
    rintro e (he | rfl)
    · exact rooted he
    · refine Rooted.of_parent ?_
      rw [show (T.addDirectory d k p).parent p.firstCluster = d from update_self _ _ _]
      exact rooted hd
  | removeDirectory => exact ⟨h.top, fun he => h.rooted he.1⟩
  | @moveDirectory d i d' k p name hd hi hp hd' hne hk hf hn hu =>
    obtain ⟨hdc, hcr, hpc⟩ := hl.closed hd ⟨hi, p, hp, rfl⟩
    have hnew : (T.moveDirectory d i d' k { p with name }).parent = update T.parent p.firstCluster d' := rfl
    have hself : (T.moveDirectory d i d' k { p with name }).parent p.firstCluster = d' := update_self _ _ _
    have houter := hout p.firstCluster hdc (by rw [hself, hpc]; exact hne.symm)
    rw [hself] at houter
    refine ⟨?_, fun he => ?_⟩
    · rw [hnew, update_of_ne hcr.symm, h.top]
    · rw [hnew]
      exact (h.rooted hd').move houter (h.rooted he)
  | _ => exact ⟨h.top, h.rooted⟩

end Invariants

namespace FileService
variable {α : Type} {s t : FileService} {T : Tree} {d d' : Nat}
variable {plan : Plan Unit} {entry : DirectoryEntry} {component : Text}

structure Plan.Sensible (plan : Plan α) (s : FileService) (T : Tree) (ch : Change) : Prop where
  step : TreeStep T ch plan.tree
  short : plan.stages.length ≤ 260
  small : plan.room ≤ 256
  kept : ∀ c, ¬T.dirs c → s.disk.fat c ≠ Fat.free → (plan.stages.getLastD s.disk).data c = s.disk.data c
  stored : ∀ d i p l bytes append, ch = .save d i p l bytes append → ∀ j, j < l.length →
    (plan.stages.getLastD s.disk).data (l.getD j 0) = savedCluster s.disk (T.chain d i) p.fileSize bytes append j

def fileEntry (p : Primary) (i : Nat) : DirectoryEntry := ⟨p, i, some (i - 1), .regular⟩

def directoryEntry (p : Primary) (i : Nat) : DirectoryEntry := ⟨p, i, none, .directory⟩

inductive FileRename (d i : Nat) (p : Primary) (d' : Nat) (name : Name) : Change → Prop where
  | same : d = d' → p.name = name → FileRename d i p d' name .same
  | rename : d = d' → FileRename d i p d' name (.rename d i p name)
  | relocate {k : Nat} : d ≠ d' → FileRename d i p d' name (.relocate d i p d' k name)

inductive DirectoryRename (d i : Nat) (p : Primary) (d' : Nat) (name : Name) : Change → Prop where
  | rename : d = d' → DirectoryRename d i p d' name (.renameDirectory d i p name)
  | move {k : Nat} : d ≠ d' → DirectoryRename d i p d' name (.moveDirectory d i p d' k name)

theorem unshown_of_not_taken {items : Nat → Item} {ignored : Option LocatedEntry} {i : Nat} (h : ¬Taken items d name ignored)
    (hi : ∀ other ∈ ignored, ∀ j, other.directoryCluster = d ∧ other.primarySlot = j → j = i) : Unshown items name i := by
  intro j q hj hne hq hbase
  obtain ⟨e, he, hk, rfl, rfl⟩ := mem_entriesOf_named hj hq
  refine h (List.any_eq_true.mpr ⟨e, he, decide_eq_true ⟨hk, hbase, fun other ho hx => hne (hi other ho _ hx)⟩⟩)

theorem commitStages_data {D E : Disk} {slot c : Nat} {fat : Nat → Nat} (hs : slot + 1 < 128) (hc : c ≠ d) :
    ((commitStages D d slot p fat).getLastD E).data c = D.data c := by
  rw [commitStages_last]
  exact committed_data hs hc

theorem createPlan_sensible (h : Consistent s T) (hd : T.dirs d) (hn : validStoredName name = true)
    {plan : Plan VfsObject} (hplan : createPlan s.mount.geometry s.disk T d name = .ok plan) :
    ∃ k, plan.value = ⟨fileIdentity s.mount.geometry d (k + 1), .regularFile⟩ ∧ plan.Sensible s T (.create d k name) := by
  unfold createPlan at hplan
  obtain ⟨htaken, hrest⟩ := of_check hplan
  obtain ⟨slot, hs, hp⟩ := of_bind_ok hrest
  obtain ⟨k, hk, h₁, h₂, hw⟩ := (h.pairSlots hd).resolve_right (by simp [hs])
  rw [hs] at hk
  cases hk
  cases hp
  exact ⟨slot, rfl,
    { step := .create hd hw h₁ h₂ hn (unshown_of_not_taken htaken (by simp))
      short := (by decide : 3 ≤ 260)
      small := (by decide : 2 ≤ 256)
      kept := fun c hc _ => commitStages_data hw.inRange fun hx => hc (hx ▸ hd)
      stored := nofun }⟩

theorem releasedStages_data {D E : Disk} (h : E.data = D.data) : ((releasedStages D l).getLastD E).data = D.data := by
  unfold releasedStages
  split
  · exact h
  · rfl

theorem releasedStages_length {D : Disk} : (releasedStages D l).length ≤ 1 := by
  unfold releasedStages
  split
  · exact Nat.zero_le _
  · exact le_rfl

theorem removePlan_sensible (h : Consistent s T) (hd : T.dirs d) (he : EntryOf (T.items d) entry)
    (hplan : removePlan s.disk T d entry = .ok plan) :
    ∃ i p, entry = fileEntry p i ∧ plan.Sensible s T (.remove d i p) := by
  unfold removePlan at hplan
  obtain ⟨hkind, hp⟩ := of_check hplan
  cases he with
  | directory => exact absurd (not_not.mp hkind) nofun
  | @file i p hi hit =>
    obtain ⟨hpos, hw⟩ := (h.describes.tidy hd).writable hi hit
    cases hp
    refine ⟨i, p, rfl, .remove hd hpos hi hit, ?_, ?_, fun c hc _ => ?_, nofun⟩
    · rw [List.length_append]
      exact (Nat.add_le_add_left releasedStages_length 2).trans (by decide)
    · exact max_le (by decide) (h.describes.owned.content hd hi hit).fits
    · rw [getLastD_append]
      exact (congrFun (releasedStages_data rfl) c).trans (erased_data hw.inRange fun hx => hc (hx ▸ hd))

theorem renamePlan_sensible (h : Consistent s T) (hd : T.dirs d) (he : EntryOf (T.items d) entry)
    (hd' : T.dirs d') (hn : validStoredName name = true)
    (hplan : renamePlan s.disk T d entry d' name = .ok plan) :
    ∃ i p ch, entry = fileEntry p i ∧ FileRename d i p d' name ch ∧ plan.Sensible s T ch := by
  unfold renamePlan at hplan
  obtain ⟨hkind, hp⟩ := of_check hplan
  cases he with
  | directory => exact absurd (not_not.mp hkind) nofun
  | @file i p hi hit =>
    obtain ⟨hpos, hw⟩ := (h.describes.tidy hd).writable hi hit
    have hne : ∀ {c}, ¬T.dirs c → c ≠ d ∧ c ≠ d' := fun hc => ⟨fun hx => hc (hx ▸ hd), fun hx => hc (hx ▸ hd')⟩
    dsimp only at hp
    by_cases hnamed : (entryNamed (T.items d') name).isSome = true
    · rw [if_pos hnamed] at hp
      split at hp
      · rename_i hsame
        cases hp
        exact ⟨i, p, .same, rfl, .same hsame.1 hsame.2, .same, Nat.zero_le _, (by decide : 1 ≤ 256), fun _ _ _ => rfl, nofun⟩
      · cases hp
    · rw [if_neg hnamed] at hp
      by_cases htaken : Taken (T.items d') d' name
        (if d = d' then some (locatedIn s.disk d ⟨p, i, some (i - 1), .regular⟩) else none)
      · rw [if_pos htaken] at hp
        cases hp
      · rw [if_neg htaken] at hp
        split at hp
        · rename_i hsame
          subst hsame
          rw [if_pos rfl] at htaken
          cases hp
          refine ⟨i, p, _, rfl, .rename rfl, .rename hd hpos hi hit hn (unshown_of_not_taken htaken ?_),
            (by decide : 4 ≤ 260), (by decide : 2 ≤ 256), fun c hc _ => ?_, nofun⟩
          · rintro other ⟨⟩ j ⟨-, rfl⟩
            rfl
          · rw [List.getLastD_cons, commitStages_data hw.inRange (hne hc).1]
            exact Disk.record_data (hne hc).1
        · rename_i hother
          rw [if_neg hother] at htaken
          obtain ⟨slot, hs, hok⟩ := of_bind_ok hp
          obtain ⟨k, hk, h₁, h₂, hw'⟩ := (h.pairSlots hd').resolve_right (by simp [hs])
          rw [hs] at hk
          cases hk
          cases hok
          refine ⟨i, p, _, rfl, .relocate hother,
            .relocate hd hpos hi hit hd' hother hw' h₁ h₂ hn (unshown_of_not_taken htaken (by simp)),
            (by decide : 5 ≤ 260), (by decide : 2 ≤ 256), fun c hc _ => ?_, nofun⟩
          rw [getLastD_append]
          exact (erased_data hw.inRange (hne hc).1).trans (commitStages_data hw'.inRange (hne hc).2)

theorem Consistent.reserved (h : Consistent s T) {count : Nat} (hcount : count ≤ maxClusters) {fat : Nat → Nat}
    (hr : reserve s.fat s.fatEntryCount count = .ok (fat, l)) :
    l.length = count ∧ l.Nodup ∧ ∀ c ∈ l, Fat.validCluster c s.fatEntryCount ∧ s.disk.fat c = Fat.free ∧ ¬T.dirs c := by
  obtain ⟨t, -, -, hres⟩ := reserved_of_reserve h.toSettled hcount hr
  refine ⟨hres.length, hres.nodup, fun c hc => ⟨hres.valid c hc, ?_⟩⟩
  obtain ⟨h₁, h₂, -⟩ := h.unused (hres.valid c hc) (hres.wasFree c hc)
  exact ⟨h₁, h₂⟩

theorem count_le {size : Nat} (h : size ≤ maxClusters * clusterSize) : (size + clusterSize - 1) / clusterSize ≤ maxClusters := by
  unfold maxClusters clusterSize at *
  omega

theorem savePlan_sensible (h : Consistent s T) (hd : T.dirs d) (he : EntryOf (T.items d) entry)
    {bytes : Text} {append : Bool} (hplan : savePlan s T d entry bytes append = .ok plan) :
    ∃ i p l, entry = fileEntry p i ∧ plan.Sensible s T (.save d i p l bytes append) := by
  unfold savePlan at hplan
  obtain ⟨hkind, hrest⟩ := of_check hplan
  cases he with
  | directory => exact absurd (not_not.mp hkind) nofun
  | @file i p hi hit =>
    obtain ⟨hpos, hw⟩ := (h.describes.tidy hd).writable hi hit
    dsimp only at hrest
    obtain ⟨hbig, hreserve⟩ := of_check hrest
    obtain ⟨⟨fat, l⟩, hr, hp⟩ := of_bind_ok hreserve
    have hcount := @count_le (if append then p.fileSize + bytes.length else bytes.length) (by omega)
    obtain ⟨hlen, hnd, hfree⟩ := h.reserved hcount hr
    cases hp
    refine ⟨i, p, l, rfl, .save hd hpos hi hit, ?_, ?_, fun c hc hu => ?_, ?_⟩
    rotate_left 3
    · rintro _ _ _ _ _ _ ⟨⟩ j hj
      have hne : l.getD j 0 ≠ d := fun hx => (hfree _ (getD_mem hj)).2.2 (hx ▸ hd)
      rw [getLastD_append, getLastD_append]
      refine (congrFun (releasedStages_data rfl) _).trans ?_
      exact (commitStages_data hw.inRange hne).trans (written_self hnd hlen.ge (hlen ▸ hj))
    · rw [List.length_append, List.length_append]
      refine (Nat.add_le_add_left releasedStages_length _).trans ?_
      rw [contentStages, List.length_map, List.length_range]
      unfold maxClusters at hcount
      exact Nat.add_le_add_right (Nat.add_le_add_right hcount 3) 1
    · exact max_le (by decide) (max_le hcount (h.describes.owned.content hd hi hit).fits)
    · rw [getLastD_append, getLastD_append]
      refine (congrFun (releasedStages_data rfl) c).trans ?_
      refine (commitStages_data hw.inRange fun hx : c = d => hc (hx ▸ hd)).trans (written_other fun j hj hx => hu ?_)
      exact (hfree c (hx ▸ getD_mem (hlen ▸ hj))).2.1

theorem createDirectoryPlan_sensible (h : Consistent s T) (hd : T.dirs d) {plan : Plan VfsObject}
    (hplan : createDirectoryPlan s T d component = .ok plan) : ∃ k p, canonicalComponent component = .ok p.name ∧
      plan.value = ⟨p.firstCluster, .directory⟩ ∧ plan.Sensible s T (.createDirectory d k p) := by
  unfold createDirectoryPlan at hplan
  obtain ⟨name, hname, hrest⟩ := of_bind_ok hplan
  obtain ⟨htaken, hsearch⟩ := of_check hrest
  dsimp only at hsearch
  rcases h.singleSlot hd with ⟨slot, hs, hfree, hsingle⟩ | hs
  swap
  · rw [hs] at hsearch
    cases hsearch
  rw [hs] at hsearch
  obtain ⟨_, hslot, hreserve⟩ := of_bind_ok hsearch
  cases hslot
  obtain ⟨⟨fat, l⟩, hr, hp⟩ := of_bind_ok hreserve
  obtain ⟨hlen, -, hmem⟩ := h.reserved (by decide) hr
  obtain ⟨c, rfl⟩ := List.length_eq_one_iff.mp hlen
  obtain ⟨hv, hcf, hcd⟩ := hmem c (List.mem_singleton_self c)
  cases hp
  refine ⟨slot, newDirectory name c, hname, rfl,
    .createDirectory hd hsingle hfree hcd (canonicalComponent_valid hname) (unshown_of_not_taken htaken (by simp)),
    (by decide : 3 ≤ 260), (by decide : 8 ≤ 256), fun e he hu => ?_, nofun⟩
  have hed : e ≠ d := fun hx => he (hx ▸ hd)
  have hec : e ≠ c := fun hx => hu (hx ▸ hcf)
  exact (Disk.record_data hed).trans (Disk.cluster_data hec)

theorem removeDirectoryPlan_sensible (hd : T.dirs d) (hplan : removeDirectoryPlan s T d component = .ok plan) :
    ∃ i p, canonicalComponent component = .ok p.name ∧ plan.Sensible s T (.removeDirectory d i p) := by
  unfold removeDirectoryPlan at hplan
  obtain ⟨name, hname, hrest⟩ := of_bind_ok hplan
  obtain ⟨entry, hf, hkinds⟩ := of_bind_ok hrest
  obtain ⟨hkind, hempty⟩ := of_check hkinds
  obtain ⟨hnone, hp⟩ := of_check hempty
  obtain ⟨hentry, hnamed⟩ := entryNamed_eq (findIn_eq hf)
  rw [← hnamed] at hname
  cases hentry with
  | file => exact absurd (not_not.mp hkind) nofun
  | @directory i p hi hit =>
    cases hp
    refine ⟨i, p, hname, .removeDirectory hd hi hit fun j q hj hq => ?_, (by decide : 2 ≤ 260), (by decide : 2 ≤ 256),
      fun e he _ => ?_, nofun⟩
    · obtain ⟨e, he, hk, -⟩ := mem_entriesOf_named hj hq
      exact hnone (List.any_eq_true.mpr ⟨e, he, decide_eq_true hk⟩)
    · rw [List.getLastD_cons]
      refine (congrFun (releasedStages_data rfl) e).trans ?_
      exact Disk.record_data fun hx => he (hx ▸ hd)

theorem vfsRenamePlan_sensible (h : Consistent s T) (hd : T.dirs d) (hd' : T.dirs d') {component' : Text}
    (hplan : vfsRenamePlan s T d component d' component' = .ok plan) :
    ∃ i p name ch, canonicalComponent component = .ok p.name ∧ canonicalComponent component' = .ok name ∧
      plan.Sensible s T ch ∧ ((i < 128 ∧ T.items d i = .file p ∧ FileRename d i p d' name ch) ∨
        (i < 128 ∧ T.items d i = .directory p ∧ DirectoryRename d i p d' name ch)) := by
  unfold vfsRenamePlan at hplan
  obtain ⟨sourceName, hsource, hrest₁⟩ := of_bind_ok hplan
  obtain ⟨name, hname, hrest₂⟩ := of_bind_ok hrest₁
  obtain ⟨entry, hf, hrest₃⟩ := of_bind_ok hrest₂
  obtain ⟨hnamed, hrest₄⟩ := of_check hrest₃
  obtain ⟨htaken, hrest⟩ := of_check hrest₄
  have hn := canonicalComponent_valid hname
  have hne : ∀ {c}, ¬T.dirs c → c ≠ d ∧ c ≠ d' := fun hc => ⟨fun hx => hc (hx ▸ hd), fun hx => hc (hx ▸ hd')⟩
  have hbase : ∀ {i}, (d = d' → entry.primarySlot = i) → Unshown (T.items d') name i := fun hi => by
    refine unshown_of_not_taken htaken fun other ho j hj => ?_
    split at ho
    · rename_i hsame
      cases ho
      rw [← hj.2, ← hi hsame]
      rfl
    · cases ho
  dsimp only at hrest
  clear hplan hrest₁ hrest₂ hrest₃ hrest₄
  obtain ⟨hentry, hfound⟩ := entryNamed_eq (findIn_eq hf)
  rw [← hfound] at hsource
  cases hentry with
  | @file i p hi hit =>
    obtain ⟨hpos, hw⟩ := (h.describes.tidy hd).writable hi hit
    rw [if_pos (show EntryKind.regular = .regular from rfl)] at hrest
    split at hrest
    · rename_i hsame
      subst hsame
      cases hrest
      refine ⟨i, p, name, _, hsource, hname, ⟨.rename hd hpos hi hit hn (hbase fun _ => rfl), (by decide : 3 ≤ 260),
        (by decide : 2 ≤ 256), fun c hc _ => ?_, nofun⟩, Or.inl ⟨hi, hit, .rename rfl⟩⟩
      exact commitStages_data hw.inRange (hne hc).1
    · rename_i hother
      obtain ⟨slot, hs, hok⟩ := of_bind_ok hrest
      obtain ⟨k, hk, h₁, h₂, hw'⟩ := (h.pairSlots hd').resolve_right (by simp [hs])
      rw [hs] at hk
      cases hk
      cases hok
      refine ⟨i, p, name, _, hsource, hname,
        ⟨.relocate hd hpos hi hit hd' hother hw' h₁ h₂ hn (hbase fun hx => absurd hx hother), (by decide : 5 ≤ 260),
          (by decide : 2 ≤ 256), fun c hc _ => ?_, nofun⟩, Or.inl ⟨hi, hit, .relocate hother⟩⟩
      rw [getLastD_append]
      exact (erased_data hw.inRange (hne hc).1).trans (commitStages_data hw'.inRange (hne hc).2)
  | @directory i p hi hit =>
    obtain ⟨hdc, -, -⟩ := h.describes.linked.closed hd ⟨hi, p, hit, rfl⟩
    rw [if_neg (show ¬EntryKind.directory = .regular from nofun)] at hrest
    split at hrest
    · rename_i hsame
      subst hsame
      cases hrest
      refine ⟨i, p, name, _, hsource, hname, ⟨.renameDirectory hd hi hit hn (hbase fun _ => rfl), (by decide : 1 ≤ 260),
        (by decide : 2 ≤ 256), fun c hc _ => ?_, nofun⟩, Or.inr ⟨hi, hit, .rename rfl⟩⟩
      exact Disk.record_data (hne hc).1
    · rename_i hother
      rcases h.singleSlot hd' with ⟨slot, hs, hfree, hsingle⟩ | hs
      swap
      · rw [hs] at hrest
        cases hrest
      rw [hs] at hrest
      obtain ⟨_, hslot, hp⟩ := of_bind_ok hrest
      cases hslot
      cases hp
      refine ⟨i, p, name, _, hsource, hname,
        ⟨.moveDirectory hd hi hit hd' hother hsingle hfree hn (hbase fun hx => absurd hx hother), (by decide : 3 ≤ 260),
          (by decide : 2 ≤ 256), fun c hc _ => ?_, nofun⟩, Or.inr ⟨hi, hit, .move hother⟩⟩
      have hcc : c ≠ p.firstCluster := fun hx => hc (hx ▸ hdc)
      exact (Disk.record_data (hne hc).1).trans ((Disk.record_data hcc).trans (Disk.record_data (hne hc).2))

end FileService
end InferenceOS
