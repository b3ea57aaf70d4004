import InferenceOS.Theorems.Saving

/-! The mutations of the directory tree: creating and removing directories, and moving files and directories
    by the names of their parents. -/

namespace InferenceOS
open Program DirtyComponent

namespace FileService
variable {s t u : FileService} {T : Tree} {d k : Nat}
variable {name : Name} {located : LocatedEntry}

def newDirectory (name : Name) (cluster : Nat) : Primary :=
  { name, attributes := attributeDirectory, firstCluster := cluster, fileSize := 0 }

def createDirectoryPlan (s : FileService) (T : Tree) (d : Nat) (component : Text) : Except IosError (Plan VfsObject) := do
  let name ← canonicalComponent component
  if Taken (T.items d) d name none then .error .alreadyExists
  let slot ← match freeSlot s.disk d with
    | some slot => Except.ok slot
    | none => .error .noSpace
  let (fat, l) ← reserve s.fat s.fatEntryCount 1
  let c := l.headD 0
  let filled := s.disk.cluster c (newDirectoryCluster c d)
  let linked := filled.table (tableOf s.mount.geometry fat)
  .ok
    { stages := [filled, linked, linked.record d slot (primaryBytes (newDirectory name c))]
      room := 8
      tree := T.addDirectory d slot (newDirectory name c)
      value := ⟨c, .directory⟩ }

theorem Consistent.singleSlot (h : Consistent s T) (hd : T.dirs d) :
    (∃ k, freeSlot s.disk d = some k ∧ (T.items d k).Free ∧ Single (T.items d) k) ∨ freeSlot s.disk d = none := by
  rcases findFreeSlot_eq (h.describes.shows hd) (h.describes.tidy hd) with ⟨k, hk, hlt, hf, hu⟩ | ⟨hk, -⟩
  · exact Or.inl ⟨k, hk, hf, hlt, Or.inl hf, hu⟩
  · exact Or.inr hk

theorem createDirectoryWrites_goes (h : Consistent s T) (hd : T.dirs d) {slot : Nat} (hfree : (T.items d slot).Free)
    (hs : Single (T.items d) slot) (hn : validStoredName name = true)
    (hfresh : ∀ j r, j < 128 → (T.items d j).Named r → r.name ≠ name) {fat : Nat → Nat} {l : List Nat}
    (hr : reserve s.fat s.fatEntryCount 1 = .ok (fat, l)) :
    let c := l.headD 0
    let filled := s.disk.cluster c (newDirectoryCluster c d)
    let linked := filled.table (tableOf s.mount.geometry fat)
    Goes (do
        allocateChain 1
        let service ← get
        let cluster := service.chain.headD 0
        modify fun service => { service with cluster := newDirectoryCluster cluster d }
        match ← attempt (writeCluster cluster (newDirectoryCluster cluster d) content) with
        | .error status =>
          let _ ← attempt loadFat
          fail status
        | .ok () =>
          barrier
          persistFat
          barrier
          let disk ← ofExcept (primaryEncode
            { name, attributes := attributeDirectory, firstCluster := cluster, fileSize := 0 })
          persistDirectorySlot d slot disk primary
          barrier
          pure (⟨cluster, .directory⟩ : VfsObject)) s
      [filled, linked, linked.record d slot (primaryBytes (newDirectory name c))] 8
      fun a t => a = ⟨c, .directory⟩ ∧ Consistent t (T.addDirectory d slot (newDirectory name c)) := by
  intro c filled linked
  have hm := h.mounted
  obtain ⟨t, hrun, rfl, hres⟩ := reserved_of_reserve h.toSettled (by decide) hr
  have hmem := hres.memory
  have hts : t.sync = s.sync := by rw [hmem]
  have htm : t.mount = s.mount := by rw [hmem]
  have htn : t.fatEntryCount = s.fatEntryCount := by rw [hmem]
  have hti : t.initialized = s.initialized := by rw [hmem]
  have htd : t.disk = s.disk := by rw [disk, disk, view, view, htm, hts]
  refine goes_memory hrun hts htm htn hti (goes_get ?_)
  have htc : t.chain.headD 0 = c := by rw [hres.workspace Nat.one_pos]
  rw [htc]
  have hmt : t.Mounted := hm.of_memory hts htm htn
  let t' : FileService := { t with cluster := newDirectoryCluster c d }
  refine goes_memory (t := t') rfl rfl rfl rfl rfl ?_
  have hmt' : t'.Mounted := hmt.of_memory rfl rfl rfl
  have hone : l = [c] := by
    obtain ⟨e, he⟩ := List.length_eq_one_iff.mp hres.length
    show l = [l.headD 0]
    rw [he]
    rfl
  have hcl : c ∈ l := by
    rw [hone]
    exact List.mem_singleton_self c
  have hcv := hres.valid c hcl
  have hv : Fat.validCluster c t'.fatEntryCount := htn ▸ hcv
  have hdisk' : t'.disk = s.disk := htd
  have hlt : t'.Loaded := ⟨hres.loaded.bounded, hres.loaded.inTable, hres.loaded.agrees⟩
  -- The content, the table and the record become durable one after the other.
  have hcontent : Goes (guarded (writeCluster c (newDirectoryCluster c d) content) >>= fun _ => barrier) t'
      [filled] 8 fun _ u => u = { t' with sync := u.sync } := goes_group hmt' (guarded_spec hmt' (wp_mono 
      (@writeCluster_spec t' hmt' c hv (newDirectoryCluster c d) _ (show validComponent content by decide))
      (fun _ u hx => by
        obtain ⟨v, hw, hu, hD⟩ := hx
        exact ⟨v, hw, hD.trans (by rw [hdisk']; rfl), hu⟩) fun _ u hx => ⟨hx.1, hx.2.2.2⟩)) fun u sync hu => by rw [hu]
  have writes : Goes (guarded (writeCluster c (newDirectoryCluster c d) content) >>= fun _ => barrier >>= fun _ =>
      persistFat >>= fun _ => barrier >>= fun _ =>
      ofExcept (primaryEncode (newDirectory name c)) >>= fun disk =>
      persistDirectorySlot d slot disk primary >>= fun _ => barrier >>= fun _ =>
      pure (⟨c, .directory⟩ : VfsObject)) t' [filled, linked, linked.record d slot (primaryBytes (newDirectory name c))] 8
      fun a t => a = ⟨c, .directory⟩ ∧ Consistent t (T.addDirectory d slot (newDirectory name c)) := by
    refine Goes.group_bind hcontent fun u hu hut => ?_
    have hmu := hu.mounted hmt'
    have hdu : u.disk = filled := hu.disk
    have hum : u.mount = s.mount := by rw [hut, ← htm]
    have huf : u.fat = t.fat := by rw [hut]
    have hlu : u.Loaded := hres.loaded.of_eq (by rw [hut]) huf (by rw [hut]) (by rw [hdu, htd]; rfl)
    have hdirty : u.dirtyFatSectors.length ≤ 8 := by
      rw [hut]
      exact hres.dirty.trans (by decide)
    have htable := persistFlushed_spec hmu hlu.flushable
    rw [hlu.flushedTable_eq, hdu, hum, huf] at htable
    have hpersist := goes_group (D := linked) hmu (by rw [hum]; exact htable) fun v sync hv => by rw [hv]
    refine Goes.group_bind (hpersist.mono hdirty fun _ _ _ hx => hx) fun v hv hvu => ?_
    have hdv : v.disk = linked := hv.disk
    have hvn : v.fatEntryCount = s.fatEntryCount := by rw [hvu, hut, ← htn]
    have hvm : v.mount = s.mount := by rw [hvu, ← hum]
    have hvf : v.fat = t.fat := by rw [hvu, ← huf]
    have hsv : v.Settled := by
      refine ⟨hv.mounted hmu, ⟨?_, by rw [hvu]; simp, fun j _ => ?_⟩, by rw [hvu]⟩
      · rw [Bounded, hvm, hvf, ← htm]
        exact hres.loaded.bounded
      · rw [hvm, hdv, hvf]
        rfl
    have hsound : (Item.directory (newDirectory name c)).Sound :=
      ⟨Primary.admissible_iff.mpr ⟨hn, hcv.2.2, Or.inr ⟨rfl, rfl, hcv.1⟩⟩, Nat.two_pow_pos 32, rfl⟩
    rw [primaryEncode_eq hsound.1]
    have hrecord := goes_kept hsv.mounted (persistSlot_spec hsv.mounted (hvn ▸ h.describes.valid hd) hs.inRange
      (primaryBytes (newDirectory name c)) (show validComponent primary by decide))
    rw [hdv] at hrecord
    refine Goes.group_bind (hrecord.mono (by decide) fun _ _ _ hx => hx) fun w hw hkw => ?_
    refine goes_pure (hw.mounted hsv.mounted) ⟨rfl, ?_⟩
    have hwent := ((hu.trans (hv.trans hw)).source rfl rfl rfl rfl : Went t w _).source hts htm htn hti
    refine h.went hwent (hsv.kept hw (hsv.memory hkw) (by rw [hdv]; rfl)) ?_
    have htab : ∀ e, Fat.validCluster e s.fatEntryCount → tableOf s.mount.geometry t.fat e = t.fat e := fun e he =>
      if_pos (hm.entry_lt he)
    refine h.describes.addDirectory hd hs hfree hcv (h.unused hcv (hres.wasFree c hcl)).1 hsound hfresh ?_ fun e he => ?_
    · rw [show (newDirectory name c).firstCluster = c from rfl, htab c hcv]
      have hchain := hres.chain Nat.one_pos
      rw [hone] at hchain
      cases hchain with
      | last _ he => exact he
      | link _ hx => exact absurd rfl hx.ne_nil
    · rw [← h.table, tableOf, tableOf, hres.frame e]
      rw [hone, List.mem_singleton]
      exact he
  rw [← guarded_bind] at writes
  exact writes

theorem checkDirectory_pass (h : Consistent s T) (hd : T.dirs d) : ¬¬s.validDirectoryCluster d :=
  not_not.mpr (h.mounted.valid.mpr (h.describes.valid hd))

theorem createDirectory_follows (h : Consistent s T) (hd : T.dirs d) (component : Text) :
    Follows (createDirectory d component) s (createDirectoryPlan s T d component) := by
  have hm := h.mounted
  unfold createDirectory createDirectoryPlan
  refine (yields_get hm).follows hm fun t₀ h₀ => ?_
  rw [failIf_pass (checkDirectory_pass h hd)]
  have hc₀ := h.quiet h₀
  refine (validateService_yields hc₀ true).follows hc₀.mounted fun t₁ h₁ => ?_
  have hc₁ := hc₀.quiet h₁
  refine (yields_ofExcept hc₁.mounted _).followsE hc₁.mounted fun name t₂ hname h₂ => ?_
  have hc₂ := hc₁.quiet h₂
  have hn := canonicalComponent_valid hname
  have hfree := yields_absent (findDisplayBase_yields hc₂.mounted (hc₂.directory hd) name none)
  by_cases htaken : Taken (T.items d) d name none
  · rw [if_pos htaken]
    exact (hfree.congr (if_pos htaken)).bind_error
  rw [if_neg htaken]
  refine (hfree.congr (if_neg htaken)).follows hc₂.mounted fun t₃ h₃ => ?_
  have hq₃ := ((h₀.trans h₁).trans h₂).trans h₃
  have hc₃ := h.quiet hq₃
  have hslot := findDirectorySlot_yields hc₃.mounted (hc₃.directory hd)
  rw [hq₃.disk] at hslot
  rcases h.singleSlot hd with ⟨slot, hs, hsf, hsw⟩ | hs
  · rw [hs] at hslot ⊢
    refine hslot.follows hc₃.mounted fun t₄ h₄ => ?_
    have hq := hq₃.trans h₄
    have hc := h.quiet hq
    have hrun : (modify (fun service => { service with dirtyFatSectors := [] }) : Service Unit) t₄ = (.ok (), t₄) := by
      show (Except.ok (), { t₄ with dirtyFatSectors := [] }) = _
      rw [← hc.clean]
    refine Carries.of_eq ?_ (bind_ok hrun)
    rw [← hq.fat, ← hq.fatEntryCount, ← hq.disk, ← hq.mount]
    cases hr : reserve t₄.fat t₄.fatEntryCount 1 with
    | error e => exact (allocateChain_refused hc.mounted hr).bind_error
    | ok r =>
      obtain ⟨fat, l⟩ := r
      refine ⟨(by decide : 1 ≤ 8), ?_⟩
      exact createDirectoryWrites_goes hc hd hsf hsw hn (fun j q hj hx => not_taken htaken hj hx (by simp)) hr
  · rw [hs] at hslot ⊢
    exact hslot.bind_error

def removeDirectoryPlan (s : FileService) (T : Tree) (d : Nat) (component : Text) : Except IosError (Plan Unit) := do
  let name ← canonicalComponent component
  let entry ← findIn T.items d name
  if entry.kind ≠ .directory then .error .invalidArgument
  let c := entry.primary.firstCluster
  if (entriesOf (T.items c)).any fun entry => entry.kind ≠ .internal then .error .notEmpty
  let deleted := s.disk.record d entry.primarySlot deletedRecord
  .ok
    { stages := deleted :: releasedStages deleted [c]
      room := 2
      tree := T.removeDirectory d entry.primarySlot c
      value := () }

theorem eraseSingle_goes (h : s.Mounted) (hv : Fat.validCluster d s.fatEntryCount)
    (hdir : located.directoryCluster = d) (hi : located.primarySlot = k) (hs : located.companionSlot = 0) (hk : k < 128)
    (hc : located.hasCompanion = false) :
    Goes (deleteLocated located) s [s.disk.record d k deletedRecord] 2 fun _ => KeptMemory s := by
  have hgoes := @deleteLocated_goes s h located (hdir ▸ hv) (by omega) (by omega) fun hx => by rw [hc] at hx; cases hx
  unfold deletionStages at hgoes
  rw [if_neg (by simp [hc]), hdir, hi] at hgoes
  exact hgoes

theorem removeDirectoryWrites_goes (h : Consistent s T) (hd : T.dirs d) {i : Nat} {p : Primary} (hi : i < 128)
    (hp : T.items d i = .directory p) (hempty : ∀ j q, j < 128 → ¬(T.items p.firstCluster j).Named q)
    (hdir : located.directoryCluster = d) (hslot : located.primarySlot = i)
    (hs : located.companionSlot = 0) (hcomp : located.hasCompanion = false) :
    let deleted := s.disk.record d i deletedRecord
    Goes (deleteLocated located >>= fun _ => releaseChain p.firstCluster) s (deleted :: releasedStages deleted [p.firstCluster])
      2 fun a t => a = () ∧ Consistent t (T.removeDirectory d i p.firstCluster) := by
  intro deleted
  obtain ⟨hdc, hcr, -⟩ := h.describes.linked.closed hd ⟨hi, p, hp, rfl⟩
  have hv := h.describes.valid hdc
  refine (eraseSingle_goes h.mounted (h.describes.valid hd) hdir hslot hs hi hcomp).bind fun _ t ht hkt => ?_
  have hdt : t.disk = deleted := ht.disk
  have hst := h.toSettled.kept ht (h.toSettled.memory hkt) rfl
  have hchain : Fat.Chain t.fat t.fatEntryCount p.firstCluster [p.firstCluster] := by
    have hf : t.fat = s.fat := by rw [hkt]
    have hn : t.fatEntryCount = s.fatEntryCount := by rw [hkt]
    rw [hn, hf]
    refine .last hv ?_
    rw [h.fat_eq hv]
    exact h.describes.ends hdc
  have hrel := release_goes hst (Or.inr ⟨Nat.lt_of_lt_of_le Nat.zero_lt_two hv.1, hchain⟩) (List.nodup_singleton _)
    (show 1 ≤ maxClusters by decide)
  rw [hdt] at hrel
  refine hrel.mono one_le_two fun _ u hu hut => ⟨rfl, ?_⟩
  have hwent := ht.trans hu
  rw [← hdt] at hu
  refine h.went hwent (hst.released hu hut) ?_
  refine h.describes.removeDirectory hd hi hp hempty ?_ fun e he => ?_
  · rw [Fat.clear_apply, if_pos (List.mem_singleton_self _)]
  · rw [Fat.clear_apply, if_neg (by simpa using he)]
    rfl

theorem removeDirectory_follows (h : Consistent s T) (hd : T.dirs d) (component : Text) :
    Follows (removeDirectory d component) s (removeDirectoryPlan s T d component) := by
  have hm := h.mounted
  unfold removeDirectory removeDirectoryPlan
  refine (yields_get hm).follows hm fun t₀ h₀ => ?_
  rw [failIf_pass (checkDirectory_pass h hd)]
  have hc₀ := h.quiet h₀
  refine (validateService_yields hc₀ true).follows hc₀.mounted fun t₁ h₁ => ?_
  have hc₁ := hc₀.quiet h₁
  refine (yields_ofExcept hc₁.mounted _).followsE hc₁.mounted fun name t₂ hname h₂ => ?_
  have hq₂ := (h₀.trans h₁).trans h₂
  have hc₂ := h.quiet hq₂
  have hfind := find_yields hc₂.mounted (hc₂.directory hd) name
  rw [hq₂.disk] at hfind
  refine hfind.followsMap hc₂.mounted fun entry t₃ hf h₃ => ?_
  have hc₃ := hc₂.quiet h₃
  cases (entryNamed_eq (findIn_eq hf)).1 with
  | @file i p hi hp =>
    have hne : (locatedIn s.disk d ⟨p, i, some (i - 1), .regular⟩).primary.attributes ≠ attributeDirectory := by
      rw [show (locatedIn s.disk d ⟨p, i, some (i - 1), .regular⟩).primary = p from rfl, (h.file_sound hd hi hp).2.2]
      decide
    exact ((yields_failIf hc₃.mounted _ _).congr (if_pos hne)).bind_error
  | @directory i p hi hp =>
    obtain ⟨hdc, hcr, -⟩ := h.describes.linked.closed hd ⟨hi, p, hp, rfl⟩
    have hsound := (h.describes.tidy hd).sound hi
    rw [hp] at hsound
    rw [failIf_pass (not_not.mpr (show (locatedIn s.disk d ⟨p, i, none, .directory⟩).primary.attributes =
      attributeDirectory from hsound.2.2)), if_neg (show ¬EntryKind.directory ≠ .directory from fun hx => hx rfl)]
    have hempty := directoryIsEmpty_yields hc₃.mounted (hc₃.directory hdc)
    refine hempty.follows hc₃.mounted fun t₄ h₄ => ?_
    have hq := (hq₂.trans h₃).trans h₄
    have hc := h.quiet hq
    dsimp only
    by_cases hany : ((entriesOf (T.items p.firstCluster)).any fun entry => entry.kind ≠ .internal) = true
    · rw [if_pos hany, hany]
      exact ((yields_failIf hc.mounted _ _).congr (if_pos rfl)).bind_error
    · rw [if_neg hany, failIf_pass (by rw [Bool.eq_false_iff.mpr hany]; decide)]
      refine ⟨(by decide : 1 ≤ 2), ?_⟩
      rw [← hq.disk]
      have hnone : ∀ j q, j < 128 → ¬(T.items p.firstCluster j).Named q := fun j q hj hx => by
        obtain ⟨e, he, hk, -⟩ := mem_entriesOf_named hj hx
        exact hany (List.any_eq_true.mpr ⟨e, he, decide_eq_true hk⟩)
      exact removeDirectoryWrites_goes hc hd hi hp hnone rfl rfl rfl rfl

def moveStages (D : Disk) (d i d' slot : Nat) (q : Primary) : List Disk :=
  let placed := D.record d' slot (primaryBytes q)
  let linked := placed.record q.firstCluster 1 (makeInternalRecord true d')
  [placed, linked, linked.record d i deletedRecord]

def vfsRenamePlan (s : FileService) (T : Tree) (d : Nat) (component : Text) (d' : Nat) (component' : Text) :
    Except IosError (Plan Unit) := do
  let sourceName ← canonicalComponent component
  let name ← canonicalComponent component'
  let entry ← findIn T.items d sourceName
  let i := entry.primarySlot
  let q := { entry.primary with name }
  let ignored := if d = d' then some (locatedIn s.disk d entry) else none
  if (entryNamed (T.items d') name).isSome then .error .alreadyExists
  if Taken (T.items d') d' name ignored then .error .alreadyExists
  if entry.kind = .regular then
    if d = d' then
      .ok
        { stages := commitStages s.disk d (i - 1) q s.disk.fat
          room := 2
          tree := T.setPair d (i - 1) (.companion name) (.file q) (T.chain d i)
          value := () }
    else
      let slot ← findPairSlots (slotAt (s.disk.data d')) 128 128
      let stages := commitStages s.disk d' slot q s.disk.fat
      .ok
        { stages := stages ++ eraseStages (stages.getLastD s.disk) d (i - 1) name
          room := 2
          tree := (T.setPair d' slot (.companion name) (.file q) (T.chain d i)).setPair d (i - 1) .deleted .deleted []
          value := () }
  else if d = d' then
    .ok
      { stages := [s.disk.record d i (primaryBytes q)]
        room := 2
        tree := T.setSlot d i (.directory q)
        value := () }
  else
    let slot ← match freeSlot s.disk d' with
      | some slot => Except.ok slot
      | none => .error .noSpace
    .ok { stages := moveStages s.disk d i d' slot q, room := 2, tree := T.moveDirectory d i d' slot q, value := () }

theorem absentName_yields (h : s.Mounted) {items : Nat → Item} (hd : DirectoryAt s d items) (name : Name) :
    Yields (mustBeAbsent (findInDirectory d name)) s
      (if (entryNamed items name).isSome then .error .alreadyExists else .ok ()) := by
  refine (mustBeAbsent_yields (findInDirectory_yields h hd name)).congr ?_
  cases entryNamed items name <;> rfl

theorem commitInPlace_goes (h : Consistent s T) (hd : T.dirs d) {i : Nat} {p : Primary} (hi : i < 128)
    (hp : T.items d i = .file p) (hn : validStoredName name = true)
    (hfresh : ∀ j q, j < 128 → j ≠ i → (T.items d j).Named q → q.name ≠ name)
    (hat : PairAt located d (i - 1)) :
    Goes (commitPrimary located { p with name }) s (commitStages s.disk d (i - 1) { p with name } s.disk.fat) 2
      fun _ t => Consistent t (T.setPair d (i - 1) (.companion name) (.file { p with name }) (T.chain d i)) := by
  have hsound := h.file_sound hd hi hp
  have hpos := ((h.describes.tidy hd).writable hi hp).1
  refine (commitPrimary_kept h.toSettled hat (h.describes.valid hd) (renamed_sound hsound hn).1).mono le_rfl
    fun _ t ht hkt => ?_
  refine h.went ht (h.toSettled.kept ht hkt (by rw [commitStages_fat])) ?_
  have := h.describes.renameFile (r := companionRecord false name) hd hi hp hn hfresh fun _ _ _ _ _ => rfl
  rw [commitStages_last, Nat.sub_add_cancel hpos]
  exact this

theorem moveDirectory_goes (h : s.Settled) {d' slot i : Nat} (hv : Fat.validCluster d s.fatEntryCount)
    (hv' : Fat.validCluster d' s.fatEntryCount) {q : Primary} (hc : Fat.validCluster q.firstCluster s.fatEntryCount)
    (hslot : slot < 128) (hi : i < 128) {located : LocatedEntry} (hdir : located.directoryCluster = d)
    (hprimary : located.primarySlot = i) (hs : located.companionSlot = 0) (hcomp : located.hasCompanion = false) :
    Goes (do
        persistDirectorySlot d' slot (primaryBytes q) primary
        barrier
        persistDirectorySlot q.firstCluster 1 (makeInternalRecord true d') primary
        barrier
        deleteLocated located) s (moveStages s.disk d i d' slot q) 2 fun _ t => Settled t := by
  have hprim : validComponent primary := by decide
  have hplace := goes_kept h.mounted (persistSlot_spec h.mounted hv' hslot (primaryBytes q) hprim)
  refine Goes.group_bind (hplace.mono one_le_two fun _ _ _ hx => hx) fun t ht hkt => ?_
  have hst := h.kept ht (h.memory hkt) rfl
  have hnt : t.fatEntryCount = s.fatEntryCount := by rw [hkt]
  have hlink := goes_kept hst.mounted (persistSlot_spec hst.mounted (hnt ▸ hc) (show 1 < 128 by omega)
    (makeInternalRecord true d') hprim)
  have hdt : t.disk = s.disk.record d' slot (primaryBytes q) := ht.disk
  rw [hdt] at hlink
  refine Goes.group_bind (hlink.mono one_le_two fun _ _ _ hx => hx) fun u hu hku => ?_
  have hsu := hst.kept hu (hst.memory hku) (by rw [hdt]; rfl)
  have hnu : u.fatEntryCount = s.fatEntryCount := by rw [hku, ← hnt]
  have hdu := hu.disk
  have herase := eraseSingle_goes hsu.mounted (hnu ▸ hv) hdir hprimary hs hi hcomp
  rw [hdu] at herase
  refine herase.mono le_rfl fun _ w hw hkw => hsu.kept hw (hsu.memory hkw) (by rw [hdu]; rfl)

theorem directory_sound (h : Consistent s T) (hd : T.dirs d) {i : Nat} {p : Primary} (hi : i < 128)
    (hp : T.items d i = .directory p) (hn : validStoredName name = true) :
    (Item.directory { p with name }).Sound := by
  have hsound := (h.describes.tidy hd).sound hi
  rw [hp] at hsound
  obtain ⟨hadm, hsize, hdir⟩ := hsound
  obtain ⟨-, hrest⟩ := Primary.admissible_iff.mp hadm
  exact ⟨Primary.admissible_iff.mpr ⟨hn, hrest⟩, hsize, hdir⟩

theorem vfsRename_follows (h : Consistent s T) {d' : Nat} (hd : T.dirs d) (hd' : T.dirs d') (component component' : Text) :
    Follows (vfsRename d component d' component') s (vfsRenamePlan s T d component d' component') := by
  have hm := h.mounted
  unfold vfsRename vfsRenamePlan
  refine (yields_get hm).follows hm fun t₀ h₀ => ?_
  rw [failIf_pass fun hx => hx.elim (checkDirectory_pass h hd) (checkDirectory_pass h hd')]
  have hc₀ := h.quiet h₀
  refine (validateService_yields hc₀ true).follows hc₀.mounted fun t₁ h₁ => ?_
  have hc₁ := hc₀.quiet h₁
  refine (yields_ofExcept hc₁.mounted _).followsE hc₁.mounted fun sourceName t₂ _ h₂ => ?_
  have hc₂ := hc₁.quiet h₂
  refine (yields_ofExcept hc₂.mounted _).followsE hc₂.mounted fun name t₃ hname h₃ => ?_
  have hn := canonicalComponent_valid hname
  have hq₃ := ((h₀.trans h₁).trans h₂).trans h₃
  have hc₃ := h.quiet hq₃
  have hfind := find_yields hc₃.mounted (hc₃.directory hd) sourceName
  rw [hq₃.disk] at hfind
  refine hfind.followsMap hc₃.mounted fun entry t₄ hf h₄ => ?_
  have hc₄ := hc₃.quiet h₄
  have hentry := (entryNamed_eq (findIn_eq hf)).1
  have habsent := absentName_yields hc₄.mounted (hc₄.directory hd') name
  dsimp only
  by_cases hnamed : (entryNamed (T.items d') name).isSome = true
  · rw [if_pos hnamed]
    exact (habsent.congr (if_pos hnamed)).bind_error
  rw [if_neg hnamed]
  refine (habsent.congr (if_neg hnamed)).follows hc₄.mounted fun t₅ h₅ => ?_
  have hc₅ := hc₄.quiet h₅
  have hbase := yields_absent (findDisplayBase_yields hc₅.mounted (hc₅.directory hd') name
    (if d = d' then some (locatedIn s.disk d entry) else none))
  by_cases htaken : Taken (T.items d') d' name (if d = d' then some (locatedIn s.disk d entry) else none)
  · rw [if_pos htaken]
    exact (hbase.congr (if_pos htaken)).bind_error
  rw [if_neg htaken]
  refine (hbase.congr (if_neg htaken)).follows hc₅.mounted fun t₆ h₆ => ?_
  have hq := (((hq₃.trans h₄).trans h₅).trans h₆)
  have hc := h.quiet hq
  have hfresh : ∀ j q, j < 128 → (T.items d' j).Named q → q.name ≠ name := fun j q hj hx =>
    entryNamed_none (by simpa using hnamed) hj hx
  cases hentry with
  | @file i p hi hp =>
    have hpos := ((h.describes.tidy hd).writable hi hp).1
    rw [if_pos (show EntryKind.regular = .regular from rfl)]
    refine Carries.of_eq ?_ (congrFun (if_pos rfl) t₆)
    by_cases hsame : d = d'
    · subst hsame
      rw [if_pos rfl, if_pos rfl, ← hq.disk]
      refine ⟨one_le_two, Goes.mono (commitInPlace_goes hc hd hi hp hn (fun j q hj _ => hfresh j q hj) ?_) le_rfl
        fun _ _ _ hx => ⟨rfl, hx⟩⟩
      exact ⟨rfl, rfl, (Nat.sub_add_cancel hpos).symm, rfl, by dsimp only; omega⟩
    · rw [if_neg hsame, if_neg hsame]
      have hslots := findFileSlots_yields hc.mounted (hc.directory hd')
      rw [hq.disk] at hslots
      rcases h.pairSlots hd' with ⟨slot, hs, h₁, h₂, hw⟩ | hs
      · rw [hs] at hslots ⊢
        refine hslots.follows hc.mounted fun w hwq => ⟨one_le_two, ?_⟩
        have hqw := hq.trans hwq
        rw [← hqw.disk]
        refine Goes.mono (relocate_goes (h.quiet hqw) hd hd' hsame hi hp hn hfresh hw h₂ ?_ rfl) le_rfl
          fun _ _ _ hx => ⟨rfl, hx⟩
        exact ⟨rfl, rfl, (Nat.sub_add_cancel hpos).symm, rfl, by dsimp only; omega⟩
      · rw [hs] at hslots ⊢
        exact hslots.bind_error
  | @directory i p hi hp =>
    obtain ⟨hdc, -, -⟩ := h.describes.linked.closed hd ⟨hi, p, hp, rfl⟩
    have hsound := directory_sound h hd hi hp hn
    rw [if_neg (show ¬EntryKind.directory = .regular from nofun)]
    refine Carries.of_eq ?_ (congrFun (if_neg (show ¬false = true from nofun)) t₆)
    refine Carries.of_eq ?_ (bind_ok (congrArg (fun r => (r, t₆)) (primaryEncode_eq hsound.1)))
    by_cases hsame : d = d'
    · subst hsame
      rw [if_pos rfl, if_pos rfl, ← hq.disk]
      refine ⟨one_le_two, ?_⟩
      have hrec := goes_kept hc.mounted (persistSlot_spec hc.mounted (hc.describes.valid hd) hi
        (primaryBytes { p with name }) (show validComponent primary by decide))
      refine hrec.mono one_le_two fun _ w hw hkw => ⟨rfl, hc.went hw (hc.toSettled.kept hw (hc.toSettled.memory hkw) rfl) ?_⟩
      exact hc.describes.renameDirectory hd hi hp rfl hsound fun j q hj _ hx => hfresh j q hj hx
    · rw [if_neg hsame, if_neg hsame]
      have hslot := findDirectorySlot_yields hc.mounted (hc.directory hd')
      rw [hq.disk] at hslot
      rcases h.singleSlot hd' with ⟨slot, hs, hsf, hsw⟩ | hs
      · rw [hs] at hslot ⊢
        refine hslot.follows hc.mounted fun w hwq => ⟨one_le_two, ?_⟩
        have hqw := hq.trans hwq
        have hcw := h.quiet hqw
        have hgoes := @moveDirectory_goes w d hcw.toSettled d' slot i (hcw.describes.valid hd) (hcw.describes.valid hd')
          { p with name } (hcw.describes.valid hdc) hsw.inRange hi
          { locatedIn s.disk d ⟨p, i, none, .directory⟩ with primary := { p with name } } rfl rfl rfl rfl
        rw [hqw.disk] at hgoes
        refine Goes.mono hgoes le_rfl fun _ v hv hst => ⟨rfl, hcw.went hv hst ?_⟩
        rw [hqw.fatEntryCount]
        exact h.describes.moveDirectory hd hd' hsame hi hp hsw hsf rfl hsound hfresh
      · rw [hs] at hslot ⊢
        exact hslot.bind_error

end FileService
end InferenceOS
