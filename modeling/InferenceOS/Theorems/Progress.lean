import InferenceOS.Theorems.Runs

/-! What calls accomplish. On a working device with room in its cache a call is carried out when its checks pass, and they
    pass when the directory has free records, shows no entry of the same base name and the volume has a spare cluster. -/

namespace InferenceOS
open Program
variable {p : Primary}

namespace Tree
open FileService
variable {T : Tree} {d k : Nat} {name : Name} {names : List Name}

/-- The cluster belongs to no object. -/
structure Spares (T : Tree) (n c : Nat) : Prop where
  valid : Fat.validCluster c n
  directory : ¬T.dirs c
  content : ∀ d i, c ∉ T.chain d i

/-- The directory shows no other names than these. -/
def ShowsOnly (T : Tree) (d : Nat) (names : List Name) : Prop :=
  ∀ j q, j < 128 → (T.items d j).Named q → q.name ∈ names

theorem ShowsOnly.setPair {l : List Nat} {d' : Nat} {n : Name} (h : T.ShowsOnly d names) :
    (T.setPair d' k (.companion n) (.file p) l).ShowsOnly d (p.name :: names) := by
  intro j q hj hq
  rcases named_setPair hq with ⟨-, -, rfl⟩ | ⟨hq, -⟩
  · exact List.mem_cons_self
  · exact List.mem_cons_of_mem _ (h j q hj hq)

theorem ShowsOnly.addDirectory (h : T.ShowsOnly d names) (hd : d ≠ p.firstCluster) {d' : Nat} :
    (T.addDirectory d' k p).ShowsOnly d (p.name :: names) := by
  intro j q hj hq
  rw [Tree.addDirectory_items hd] at hq
  rcases named_setSlot hq with ⟨-, -, rfl⟩ | hq
  · exact List.mem_cons_self
  · exact List.mem_cons_of_mem _ (h j q hj hq)

theorem ShowsOnly.not_taken (h : T.ShowsOnly d names) (hbase : ∀ n ∈ names, n.slice 0 8 ≠ name.slice 0 8)
    {ignored : Option LocatedEntry} : ¬Taken (T.items d) d name ignored := by
  intro htaken
  obtain ⟨entry, hmem, hsame⟩ := List.any_eq_true.mp htaken
  obtain ⟨hkind, hname, -⟩ := of_decide_eq_true hsame
  obtain ⟨hi, hp⟩ := (entryOf_mem hmem hkind).named
  exact hbase _ (h _ _ hi hp) hname

theorem ShowsOnly.entryNamed (h : T.ShowsOnly d names) (hbase : ∀ n ∈ names, n.slice 0 8 ≠ name.slice 0 8) :
    entryNamed (T.items d) name = none := by
  rcases find_name (T.items d) name with ⟨i, p, e, hi, hp, rfl, -⟩ | ⟨-, hf⟩
  · exact absurd rfl (hbase _ (h i p hi hp))
  · exact hf

end Tree

namespace FileService
variable {s t : FileService} {live : Nat → Prop} {T : Tree} {d k b c : Nat} {name : Name} {names : List Name} {path : Text}
variable {bytes : Text}

/-- A call whose checks pass is carried out. -/
theorem Sound.performs (h : Sound s live T) {r : Request} (hb : r.Bound s.mount.geometry live) (ha : s.Able (b + 260) 256)
    {plan : Plan (Option VfsObject)} (hp : r.plan s T = .ok plan) : ∃ t, Done s live r plan.value t ∧
      Sound t (r.after s live plan.value) plan.tree ∧ t.disk = plan.stages.getLastD s.disk ∧ t.Able b 256 ∧ t.mount = s.mount := by
  obtain ⟨hc, rfl, hdis⟩ := h
  have hs : ∀ plan, r.plan s T = .ok plan → ∃ ch, plan.Sensible s T ch := fun plan hp =>
    (request_sensible hc hb hp).imp fun _ hx => hx.1
  obtain ⟨ch, hsens, hm⟩ := request_sensible hc hb hp
  rcases hrun : r.run s with ⟨x, t⟩
  rcases (request_follows hc hb).outcome hs hrun (Or.inr (ha.mono (Nat.le_add_left _ _) le_rfl)) with
    ⟨plan', hp', rfl, hw, ht⟩ | ⟨e, he, -, -⟩
  · rw [hp] at hp'
    cases hp'
    have hshort := hsens.short
    exact ⟨t, ⟨hb, hrun⟩, ⟨ht, (makes_dirs hc hsens.step hm).symm, fun e he => hsens.step.distinguished hdis he⟩, hw.disk,
      hw.able (ha.mono (by omega) le_rfl), hw.mount⟩
  · rw [hp] at he
    cases he

theorem bound_of_none {r : Request} {g : Geometry} (hp : r.parents = []) (ho : r.objects = []) : r.Bound g live := by
  constructor
  · rw [hp]
    exact fun _ hx => absurd hx List.not_mem_nil
  · rw [ho]
    exact fun _ hx => absurd hx List.not_mem_nil

theorem Consistent.allocates (h : Consistent s T) (hspare : T.Spares s.fatEntryCount c) :
    ∃ fat l, Fat.allocate s.fat s.fatEntryCount 1 maxClusters = .ok (fat, l) := by
  have hfree : s.fat c = Fat.free := by
    by_contra hused
    rw [h.fat_eq hspare.valid] at hused
    rcases h.describes.owned.owner hspare.valid hused with hdir | ⟨d, i, -, -, hc, -⟩
    · exact hspare.directory hdir
    · exact hspare.content d i hc
  have hpool : 1 ≤ ((List.range' 2 (s.fatEntryCount - 2)).filter fun c => s.fat c = Fat.free).length := by
    refine List.length_pos_of_mem (a := c) (List.mem_filter.mpr ⟨List.mem_range'_1.mpr ?_, decide_eq_true hfree⟩)
    obtain ⟨hge, hlt, -⟩ := hspare.valid
    omega
  exact Fat.allocate_isOk h.mounted.validEntryCount one_pos (show 1 ≤ maxClusters by decide) hpool

/-- A file is created when the directory has two free records in a row. -/
theorem Sound.creates (h : Sound s live T) (ha : s.Able (b + 260) 256) (hpath : parentIn T.items (some path) = .ok (d, name))
    (hd : T.dirs d) (hn : validStoredName name = true) (htaken : ¬Taken (T.items d) d name none)
    (hfree : ∃ k, k + 1 < 128 ∧ (T.items d k).Free ∧ (T.items d (k + 1)).Free) :
    ∃ t k, k + 1 < 128 ∧ Done s live (.create (some path)) none t ∧
      Sound t live (T.setPair d k (.companion name) (.file (newFile name)) []) ∧ t.Able b 256 ∧ t.mount = s.mount := by
  have hc := h.toConsistent
  obtain ⟨p, hp⟩ : ∃ p, createPlan s.mount.geometry s.disk T d name = .ok p := by
    unfold createPlan
    rw [if_neg htaken]
    rcases findPairSlots_eq (hc.describes.shows hd) (hc.describes.tidy hd) with ⟨k, hk, -⟩ | ⟨-, hno⟩
    · rw [hk]
      exact ⟨_, rfl⟩
    · obtain ⟨k, hk, hboth⟩ := hfree
      exact absurd hboth (hno k hk)
  have hplan : (Request.create (some path)).plan s T = .ok (p.map fun _ => none) := by
    show (parentIn T.items (some path) >>= fun r => (createPlan s.mount.geometry s.disk T r.1 r.2).map _) = _
    rw [hpath]
    show (createPlan s.mount.geometry s.disk T d name).map _ = _
    rw [hp]
    rfl
  obtain ⟨k, -, hsens⟩ := createPlan_sensible hc hd hn hp
  obtain ⟨t, hdone, ht, -, ha', hm⟩ := h.performs (bound_of_none rfl rfl) ha hplan
  have hstep := hsens.step
  change Sound t live p.tree at ht
  generalize p.tree = T' at hstep ht
  cases hstep with
  | create _ hw => exact ⟨t, k, hw.inRange, hdone, ht, ha', hm⟩

theorem Consistent.resolves_file (h : Consistent s T) (hpath : parentIn T.items (some path) = .ok (d, p.name)) (hd : T.dirs d)
    (hk : k + 1 < 128) (hi : T.items d (k + 1) = .file p) : resolveIn T.items (some path) = .ok (d, fileEntry p (k + 1)) := by
  unfold resolveIn
  rw [hpath]
  show (findIn T.items d p.name >>= _) = _
  rw [(findIn_iff (h.describes.tidy hd)).mpr ⟨.file hk hi, rfl⟩]
  rfl

/-- A byte or more, up to a cluster of them, replace the content of a file when some cluster is spare. -/
theorem Sound.replaces (h : Sound s live T) (ha : s.Able (b + 260) 256)
    (hpath : parentIn T.items (some path) = .ok (d, p.name)) (hd : T.dirs d) (hk : k + 1 < 128) (hi : T.items d (k + 1) = .file p)
    (hbytes : 0 < bytes.length ∧ bytes.length ≤ clusterSize) (hspare : T.Spares s.fatEntryCount c) :
    ∃ t c', Done s live (.replace (some path) bytes) none t ∧ Sound t live
      (T.setPair d k (.companion p.name) (.file (savedRecord p [c'] (savedSize p bytes false))) [c']) ∧
      t.disk.data c' = savedCluster s.disk (T.chain d (k + 1)) p.fileSize bytes false 0 ∧ t.Able b 256 ∧ t.mount = s.mount := by
  have hc := h.toConsistent
  have hresolve := hc.resolves_file hpath hd hk hi
  obtain ⟨fat, l, hl⟩ := hc.allocates hspare
  have hcount : (bytes.length + clusterSize - 1) / clusterSize = 1 := by
    unfold clusterSize at *
    omega
  obtain ⟨plan, hp⟩ : ∃ plan, savePlan s T d (fileEntry p (k + 1)) bytes false = .ok plan := by
    have hsmall : ¬(2 ^ 32 - 1 < bytes.length ∨ maxClusters * clusterSize < bytes.length) := by
      unfold clusterSize maxClusters at *
      omega
    unfold savePlan reserve
    rw [if_neg (show ¬(fileEntry p (k + 1)).kind ≠ .regular from fun hx => hx rfl)]
    dsimp only [bind, Except.bind]
    rw [if_neg Bool.false_ne_true, if_neg hsmall, hcount, if_neg one_ne_zero, hl]
    exact ⟨_, rfl⟩
  have hplan : (Request.replace (some path) bytes).plan s T = .ok (plan.map fun _ => none) := by
    show (resolveIn T.items (some path) >>= fun r => (savePlan s T r.1 r.2 bytes false).map _) = _
    rw [hresolve]
    show (savePlan s T d (fileEntry p (k + 1)) bytes false).map _ = _
    rw [hp]
    rfl
  obtain ⟨i, q, clusters, hentry, hsens⟩ := savePlan_sensible hc hd (.file hk hi) hp
  cases hentry
  obtain ⟨t, hdone, ht, hdisk, ha', hm⟩ := h.performs (bound_of_none rfl rfl) ha hplan
  have hstep := hsens.step
  have hstored := hsens.stored _ _ _ _ _ _ rfl
  change Sound t live plan.tree at ht
  change t.disk = plan.stages.getLastD s.disk at hdisk
  generalize plan.tree = T' at hstep ht
  cases hstep
  have hlen : clusters.length = 1 := by
    have hcontent := ht.describes.owned.content (i := k + 1) hd hk (by rw [Nat.add_sub_cancel, Tree.setPair_items, if_pos ⟨rfl, rfl⟩])
    have hchain : (T.setPair d (k + 1 - 1) (.companion p.name) (.file (savedRecord p clusters (savedSize p bytes false)))
        clusters).chain d (k + 1) = clusters := if_pos ⟨rfl, rfl⟩
    rw [hchain] at hcontent
    exact hcontent.length.trans hcount
  obtain ⟨c', rfl⟩ := List.length_eq_one_iff.mp hlen
  refine ⟨t, c', hdone, ht, ?_, ha', hm⟩
  rw [hdisk]
  exact hstored 0 one_pos

/-- A file takes a name in its directory that no other name there resembles. -/
theorem Sound.renames (h : Sound s live T) (ha : s.Able (b + 260) 256) {path' : Text}
    (hpath : parentIn T.items (some path) = .ok (d, p.name)) (hpath' : parentIn T.items (some path') = .ok (d, name))
    (hd : T.dirs d) (hk : k + 1 < 128) (hi : T.items d (k + 1) = .file p)
    (hshows : T.ShowsOnly d names) (hbase : ∀ n ∈ names, n.slice 0 8 ≠ name.slice 0 8) :
    ∃ t, Done s live (.rename (some path) (some path')) none t ∧ ¬(Request.rename (some path) (some path')).Inward s ∧
      Sound t live (T.setPair d k (.companion name) (.file { p with name }) (T.chain d (k + 1))) ∧ t.Able b 256 ∧
      t.mount = s.mount := by
  have hc := h.toConsistent
  have hresolve := hc.resolves_file hpath hd hk hi
  obtain ⟨plan, hp, htree⟩ : ∃ plan, renamePlan s.disk T d (fileEntry p (k + 1)) d name = .ok plan ∧
      plan.tree = T.setPair d k (.companion name) (.file { p with name }) (T.chain d (k + 1)) := by
    unfold renamePlan
    rw [if_neg (show ¬(fileEntry p (k + 1)).kind ≠ .regular from fun hx => hx rfl)]
    dsimp only [bind, Except.bind]
    rw [hshows.entryNamed hbase, if_neg (show ¬(none : Option DirectoryEntry).isSome = true from Bool.false_ne_true), if_neg (hshows.not_taken hbase), if_pos rfl]
    exact ⟨_, rfl, rfl⟩
  have hplan : (Request.rename (some path) (some path')).plan s T = .ok (plan.map fun _ => none) := by
    show (resolveIn T.items (some path) >>= fun r => parentIn T.items (some path') >>= fun r' =>
      (renamePlan s.disk T r.1 r.2 r'.1 r'.2).map _) = _
    rw [hresolve, hpath']
    show (renamePlan s.disk T d (fileEntry p (k + 1)) d name).map _ = _
    rw [hp]
    rfl
  obtain ⟨t, hdone, ht, -, ha', hm⟩ := h.performs (bound_of_none rfl rfl) ha hplan
  refine ⟨t, hdone, ?_, htree ▸ ht, ha', hm⟩
  rintro ⟨e, entry, e', name', ⟨⟨hnames, hholds⟩, -⟩, hkind, -⟩
  have hsame := hpath.symm.trans (hc.names.mp hnames)
  obtain ⟨rfl, hname⟩ := Prod.mk.inj (Except.ok.inj hsame)
  rw [((hc.holds hd).mp hholds).unique (hc.describes.tidy hd) (.file hk hi) hname.symm] at hkind
  cases hkind

/-- A directory is created when its parent has a free record and some cluster is spare. -/
theorem Sound.makesDirectory (h : Sound s live T) (ha : s.Able (b + 260) 256) {component : Text}
    (hname : canonicalComponent component = .ok name) (hd : T.dirs d) (hshows : T.ShowsOnly d names)
    (hbase : ∀ n ∈ names, n.slice 0 8 ≠ name.slice 0 8) (hfree : ∃ k < 128, (T.items d k).Free)
    (hspare : T.Spares s.fatEntryCount c) : ∃ t k p, k < 128 ∧ p.name = name ∧ ¬T.dirs p.firstCluster ∧ (T.items d k).Free ∧
      Done s live (.createDirectory d component) (some ⟨p.firstCluster, .directory⟩) t ∧
      Sound t ((Request.createDirectory d component).after s live (some ⟨p.firstCluster, .directory⟩)) (T.addDirectory d k p) ∧
      t.Able b 256 ∧ t.mount = s.mount := by
  have hc := h.toConsistent
  obtain ⟨fat, l, hl⟩ := hc.allocates hspare
  obtain ⟨plan, hp⟩ : ∃ plan, createDirectoryPlan s T d component = .ok plan := by
    unfold createDirectoryPlan reserve
    rw [hname]
    dsimp only [bind, Except.bind]
    rw [if_neg (hshows.not_taken hbase)]
    rcases findFreeSlot_eq (hc.describes.shows hd) (hc.describes.tidy hd) with ⟨k, hk, -⟩ | ⟨-, hno⟩
    · rw [show freeSlot s.disk d = some k from hk]
      dsimp only
      rw [if_neg one_ne_zero, hl]
      exact ⟨_, rfl⟩
    · obtain ⟨k, hk, hf⟩ := hfree
      exact absurd hf (hno k hk)
  obtain ⟨k, q, hq, hvalue, hsens⟩ := createDirectoryPlan_sensible hc hd hp
  have hplan : (Request.createDirectory d component).plan s T = .ok (plan.map some) := by
    show (createDirectoryPlan s T d component).map _ = _
    rw [hp]
    rfl
  have hbound : (Request.createDirectory d component).Bound s.mount.geometry live := by
    refine ⟨fun e he => ?_, fun _ hx => absurd hx List.not_mem_nil⟩
    rw [h.live, List.mem_singleton.mp he]
    exact hd
  obtain ⟨t, hdone, ht, -, ha', hm⟩ := h.performs hbound ha hplan
  rw [show (plan.map some).value = some ⟨q.firstCluster, .directory⟩ from congrArg some hvalue] at hdone ht
  change Sound t _ plan.tree at ht
  have hstep := hsens.step
  generalize plan.tree = T' at hstep ht
  cases hstep with
  | createDirectory _ hsingle hf hfresh =>
    exact ⟨t, k, q, hsingle.inRange, Except.ok.inj (hq.symm.trans hname), hfresh, hf, hdone, ht, ha', hm⟩

def samplePath : Text := "A.T".toList.map ascii

def sampleName : Name := padName [ascii 'A'] [ascii 'T']

theorem parentIn_sample {items : Nat → Nat → Item} : parentIn items (some samplePath) = .ok (rootCluster, sampleName) := rfl

def renamedPath : Text := "B.T".toList.map ascii

def renamedName : Name := padName [ascii 'B'] [ascii 'T']

def sampleRecord (bytes : Text) (c : Nat) : Primary :=
  savedRecord (newFile sampleName) [c] (savedSize (newFile sampleName) bytes false)

/-- The tree after the file was created. -/
def createdTree (k : Nat) : Tree := emptyTree.setPair rootCluster k (.companion sampleName) (.file (newFile sampleName)) []

def writtenTree (bytes : Text) (k c : Nat) : Tree :=
  (createdTree k).setPair rootCluster k (.companion sampleName) (.file (sampleRecord bytes c)) [c]

/-- A file was created on a new volume, and then the bytes were stored in it. -/
structure Written (bytes : Text) (s t u : FileService) (k c : Nat) : Prop where
  opened : Opened s
  slot : k + 1 < 128
  created : Done s (· = rootCluster) (.create (some samplePath)) none t
  empty : Sound t (· = rootCluster) (createdTree k)
  replaced : Done t (· = rootCluster) (.replace (some samplePath) bytes) none u
  full : Sound u (· = rootCluster) (writtenTree bytes k c)
  content : u.disk.data c = savedCluster t.disk [] 0 bytes false 0
  mount : u.mount = t.mount

theorem Written.owns {u : FileService} (h : Written bytes s t u k c) : (writtenTree bytes k c).Owns c rootCluster (k + 1) := by
  have hchain : (writtenTree bytes k c).chain rootCluster (k + 1) = [c] := if_pos ⟨rfl, rfl⟩
  refine ⟨rfl, h.slot, hchain ▸ List.mem_singleton_self c, sampleRecord bytes c, ?_⟩
  rw [writtenTree, Tree.setPair_items, if_pos ⟨rfl, rfl⟩]

theorem exists_created : ∃ (s t : FileService) (k : Nat), Opened s ∧ k + 1 < 128 ∧
    Done s (· = rootCluster) (.create (some samplePath)) none t ∧ Sound t (· = rootCluster) (createdTree k) ∧
    t.Able (2 ^ 62) 256 ∧ t.mount.geometry = smallGeometry := by
  obtain ⟨s, ho, hable, hsmall⟩ := exists_opened_small
  obtain ⟨t, k, hk, hdone, ht, ha, hm⟩ := (Sound.opened ho).creates (hable.mono (show 2 ^ 62 + 260 ≤ 2 ^ 63 by decide) le_rfl)
    parentIn_sample rfl (by decide) (by decide) ⟨0, by decide, Or.inl rfl, Or.inl rfl⟩
  exact ⟨s, t, k, ho, hk, hdone, ht, ha, hm ▸ hsmall⟩

theorem validCluster_small (h : Consistent s T) (hsmall : s.mount.geometry = smallGeometry) {c : Nat} (hc : c = 3 ∨ c = 4) :
    Fat.validCluster c s.fatEntryCount := by
  rw [h.mounted.entries, hsmall]
  rcases hc with rfl | rfl
  all_goals exact ⟨by decide, by decide, by decide⟩

theorem exists_written (bytes : Text) (hbytes : 0 < bytes.length ∧ bytes.length ≤ clusterSize) : ∃ (s t u : FileService) (k c : Nat),
    Written bytes s t u k c ∧ u.Able (2 ^ 61) 256 ∧ u.mount.geometry = smallGeometry := by
  obtain ⟨s, t, k, ho, hk, hcreated, ht, ha, hsmall⟩ := exists_created
  have hspare : (createdTree k).Spares t.fatEntryCount 3 := by
    refine ⟨validCluster_small ht.toConsistent hsmall (Or.inl rfl), show ¬(3 = rootCluster) by decide, fun d i => ?_⟩
    unfold createdTree Tree.setPair emptyTree
    dsimp only
    split <;> exact List.not_mem_nil
  obtain ⟨u, c, hreplaced, hu, hdata, ha', hm⟩ := ht.replaces (p := newFile sampleName)
    (ha.mono (show 2 ^ 61 + 260 ≤ 2 ^ 62 by decide) le_rfl) parentIn_sample rfl hk
    (by rw [createdTree, Tree.setPair_items, if_pos ⟨rfl, rfl⟩]) hbytes hspare
  have hchain : (createdTree k).chain rootCluster (k + 1) = [] := if_pos ⟨rfl, rfl⟩
  rw [hchain] at hdata
  exact ⟨s, t, u, k, c, ⟨ho, hk, hcreated, ht, hreplaced, hu, hdata, hm⟩, ha', hm ▸ hsmall⟩

/-- Then a directory was created, and the file took another name beside it. -/
structure Worked (bytes : Text) (s t u v w : FileService) (k c m : Nat) (p : Primary) : Prop extends Written bytes s t u k c where
  made : Done u (· = rootCluster) (.createDirectory rootCluster [ascii 'D']) (some ⟨p.firstCluster, .directory⟩) v
  steady : v.mount = u.mount
  kept : Holds v rootCluster (fileEntry (sampleRecord bytes c) (k + 1))
  renamed : Done v ((Request.createDirectory rootCluster [ascii 'D']).after u (· = rootCluster) (some ⟨p.firstCluster, .directory⟩))
    (.rename (some samplePath) (some renamedPath)) none w
  outward : ¬(Request.rename (some samplePath) (some renamedPath)).Inward v
  file : Holds w rootCluster (fileEntry { sampleRecord bytes c with name := renamedName } (k + 1))
  directory : Holds w rootCluster (directoryEntry p m)

theorem exists_worked (bytes : Text) (hbytes : 0 < bytes.length ∧ bytes.length ≤ clusterSize) :
    ∃ (s t u v w : FileService) (k c m : Nat) (p : Primary), Worked bytes s t u v w k c m p := by
  obtain ⟨s, t, u, k, c, h, ha, hsmall⟩ := exists_written bytes hbytes
  have hempty : emptyTree.ShowsOnly rootCluster [] := fun _ _ _ hq => by rcases hq with hq | hq <;> cases hq
  have hshows : (writtenTree bytes k c).ShowsOnly rootCluster [sampleName, sampleName] := hempty.setPair.setPair
  have hbase : ∀ name : Name, sampleName.slice 0 8 ≠ name.slice 0 8 → ∀ n ∈ [sampleName, sampleName], n.slice 0 8 ≠ name.slice 0 8 := by
    intro name hne n hn
    rcases List.mem_cons.mp hn with rfl | hn
    · exact hne
    · exact List.mem_singleton.mp hn ▸ hne
  have hitem : (writtenTree bytes k c).items rootCluster (k + 1) = .file (sampleRecord bytes c) := by
    rw [writtenTree, Tree.setPair_items, if_pos ⟨rfl, rfl⟩]
  have hunused : ∃ m < 128, ((writtenTree bytes k c).items rootCluster m).Free := by
    obtain ⟨m, hm, hne⟩ : ∃ m < 128, m ≠ k ∧ m ≠ k + 1 := by
      rcases Nat.eq_zero_or_pos k with rfl | hpos
      · exact ⟨2, by decide, by decide, by decide⟩
      · exact ⟨0, by decide, hpos.ne, by omega⟩
    refine ⟨m, hm, Or.inl ?_⟩
    rw [writtenTree, createdTree, Tree.setPair_items, if_neg (fun hx => hne.2 hx.2), if_neg (fun hx => hne.1 hx.2),
      Tree.setPair_items, if_neg (fun hx => hne.2 hx.2), if_neg (fun hx => hne.1 hx.2)]
    rfl
  obtain ⟨e, hspare⟩ : ∃ e, (writtenTree bytes k c).Spares u.fatEntryCount e := by
    have hchain : ∀ e, e ≠ c → ∀ d i, e ∉ (writtenTree bytes k c).chain d i := by
      intro e hne d i
      unfold writtenTree createdTree Tree.setPair emptyTree
      dsimp only
      split
      · exact fun hx => hne (List.mem_singleton.mp hx)
      · exact List.not_mem_nil
    have hvalid := fun {e} => @validCluster_small u _ h.full.toConsistent hsmall e
    by_cases hc : c = 3
    · exact ⟨4, hvalid (Or.inr rfl), show ¬(4 = rootCluster) by decide, hchain 4 (by omega)⟩
    · exact ⟨3, hvalid (Or.inl rfl), show ¬(3 = rootCluster) by decide, hchain 3 (Ne.symm hc)⟩
  obtain ⟨v, m, p, hm, hp, hfresh, hfree, hmade, hv, ha', hmount⟩ := h.full.makesDirectory
    (ha.mono (show 2 ^ 60 + 260 ≤ 2 ^ 61 by decide) le_rfl) (show canonicalComponent [ascii 'D'] = .ok (padName [ascii 'D'] []) by decide)
    rfl hshows (hbase _ (by decide)) hunused hspare
  have hother : rootCluster ≠ p.firstCluster := fun hx => hfresh hx.symm
  have hplace : k + 1 ≠ m := fun hx => by
    rw [← hx, hitem] at hfree
    rcases hfree with hf | hf <;> cases hf
  have hroot : ((writtenTree bytes k c).addDirectory rootCluster m p).dirs rootCluster := Or.inl rfl
  have hkept : ((writtenTree bytes k c).addDirectory rootCluster m p).items rootCluster (k + 1) = .file (sampleRecord bytes c) := by
    rw [Tree.addDirectory_items hother, Tree.setSlot_items, if_neg fun hx => hplace hx.2, hitem]
  have hadded : ((writtenTree bytes k c).addDirectory rootCluster m p).items rootCluster m = .directory p := by
    rw [Tree.addDirectory_items hother, Tree.setSlot_items, if_pos ⟨rfl, rfl⟩]
  obtain ⟨w, hrenamed, houtward, hw, -, -⟩ := hv.renames (ha'.mono (show 2 ^ 59 + 260 ≤ 2 ^ 60 by decide) le_rfl)
    (p := sampleRecord bytes c) (show parentIn _ (some samplePath) = .ok (rootCluster, _) from rfl)
    (show parentIn _ (some renamedPath) = .ok (_, renamedName) from rfl) hroot h.slot hkept
    (hshows.addDirectory hother) (by
      rw [hp]
      intro n hn
      rcases List.mem_cons.mp hn with rfl | hn
      · decide
      · exact hbase _ (by decide) n hn)
  refine ⟨s, t, u, v, w, k, c, m, p, h, hmade, hmount, (hv.toConsistent.holds hroot).mpr (.file h.slot hkept), hrenamed, houtward,
    (hw.toConsistent.holds hroot).mpr (.file h.slot ?_), (hw.toConsistent.holds hroot).mpr (.directory hm ?_)⟩
  · rw [Tree.setPair_items, if_pos ⟨rfl, rfl⟩]
  · have hk : m ≠ k := by
      rintro rfl
      rw [writtenTree, Tree.setPair_items, if_neg (fun hx => absurd hx.2 (Nat.lt_succ_self _).ne), if_pos ⟨rfl, rfl⟩] at hfree
      rcases hfree with hf | hf <;> cases hf
    rw [Tree.setPair_items, if_neg fun hx => hplace hx.2.symm, if_neg fun hx => hk hx.2, hadded]

theorem Worked.run {s t u v w : FileService} {k c m : Nat}
    (h : Worked bytes s t u v w k c m p) (allowed : FileService → Request → Prop) (hall : ∀ s r, ¬r.Inward s → allowed s r) :
    Run allowed t (· = rootCluster) ∧
    Run allowed v ((Request.createDirectory rootCluster [ascii 'D']).after u (· = rootCluster) (some ⟨p.firstCluster, .directory⟩)) ∧
    Run allowed w ((Request.createDirectory rootCluster [ascii 'D']).after u (· = rootCluster) (some ⟨p.firstCluster, .directory⟩)) := by
  have hcreated : Run allowed t (· = rootCluster) := .done (.opened h.opened) (hall _ _ fun ⟨_, _, _, _, hx, _⟩ => hx) h.created
  have hreplaced : Run allowed u (· = rootCluster) := .done hcreated (hall _ _ fun ⟨_, _, _, _, hx, _⟩ => hx) h.replaced
  have hmade := Run.done hreplaced (hall _ _ fun ⟨_, _, _, _, hx, _⟩ => hx) h.made
  exact ⟨hcreated, hmade, Run.done (r := .rename _ _) hmade (hall _ _ h.outward) h.renamed⟩

end FileService
end InferenceOS
