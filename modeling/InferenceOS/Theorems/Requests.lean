import InferenceOS.Theorems.Reachability

/-! The calls of the file service as plans: a call either is refused with nothing changed, or it carries out
    one step of the tree. -/

namespace InferenceOS
open Program FileService

namespace FileService
variable {α β : Type} {s t : FileService} {T : Tree} {d : Nat}

def Plan.map (f : α → β) (plan : Plan α) : Plan β := ⟨plan.stages, plan.room, plan.tree, f plan.value⟩

theorem Plan.Sensible.map {plan : Plan α} {ch : Change} (h : plan.Sensible s T ch) (f : α → β) :
    (plan.map f).Sensible s T ch := ⟨h.step, h.short, h.small, h.kept, h.stored⟩

theorem map_error {m : Service α} {f : α → β} {e : IosError} (h : Yields m s (.error e)) : Yields (f <$> m) s (.error e) := by
  unfold Yields at h ⊢
  rw [wp_map]
  exact wp_mono h (fun a t ⟨_, ha⟩ => by cases ha) fun _ t ⟨ht, he⟩ => ⟨ht, he.imp_left fun hx => by cases hx; rfl⟩

theorem Carries.map {m : Service α} {r : Except IosError (Plan α)} (h : Follows m s r) (f : α → β) :
    Follows (f <$> m) s (r.map (Plan.map f)) := by
  cases r with
  | error e => exact map_error h
  | ok plan =>
    refine ⟨h.1, ?_⟩
    have hgoes := h.2
    unfold Goes at hgoes ⊢
    rw [wp_map]
    exact wp_mono hgoes (fun a t ⟨hw, ha, hc⟩ => ⟨hw, congrArg f ha, hc⟩) fun _ _ he => he

theorem Carries.outcome {m : Service α} {r : Except IosError (Plan α)} (h : Follows m s r)
    (hs : ∀ plan, r = .ok plan → ∃ ch, plan.Sensible s T ch) {x : Except IosError α} (hr : m s = (x, t))
    (hx : (∃ a, x = .ok a) ∨ s.Able 260 256) :
    (∃ plan, r = .ok plan ∧ x = .ok plan.value ∧ Went s t plan.stages ∧ Consistent t plan.tree) ∨
      ∃ e, r = .error e ∧ x = .error e ∧ Quiet s t := by
  cases r with
  | error e =>
    unfold Follows Carries Yields wp at h
    rw [hr] at h
    cases x with
    | ok a => cases h.2
    | error e' =>
      obtain ⟨hq, h | ⟨-, hroom⟩⟩ := h
      · cases h
        exact Or.inr ⟨e, rfl, rfl, hq⟩
      · rcases hx with ⟨a, ha⟩ | hable
        · cases ha
        · exact absurd (hable.mono le_rfl (show 1 ≤ 256 by decide)).room hroom
  | ok plan =>
    obtain ⟨ch, hsens⟩ := hs plan rfl
    have hgoes := h.2
    unfold Goes wp at hgoes
    rw [hr] at hgoes
    cases x with
    | ok a =>
      obtain ⟨hw, rfl, hc⟩ := hgoes
      exact Or.inl ⟨plan, rfl, rfl, hw, hc⟩
    | error e =>
      rcases hx with ⟨a, ha⟩ | hable
      · cases ha
      · exact absurd (hable.mono hsens.short hsens.small) hgoes.2

theorem validStoredName_put {a b : Name} (ha : validStoredName a = true) (hb : validStoredName b = true) :
    validStoredName (a.put 8 (b.slice 8 3)) = true := by
  have h₀ : (a.put 8 (b.slice 8 3)).byte 0 = a.byte 0 := Bytes.byte_put_of_not_mem (by omega)
  have h₁ : (a.put 8 (b.slice 8 3)).slice 0 8 = a.slice 0 8 := Bytes.slice_put_of_disjoint (by omega)
  have h₂ : (a.put 8 (b.slice 8 3)).slice 8 3 = b.slice 8 3 := Bytes.slice_put (by omega)
  unfold validStoredName at *
  rw [h₀, h₁, h₂]
  simp only [Bool.and_eq_true] at *
  exact ⟨ha.1, hb.2⟩

def renameObjectPlan (s : FileService) (T : Tree) (identity parent : Nat) (base : Text) : Except IosError (Plan Unit) := do
  if base = [] ∨ 8 < base.length then .error .invalidArgument
  if ∃ value ∈ base, value = ascii '.' ∨ value = ascii '/' ∨ value = ascii '\\' then .error .invalidArgument
  let (d, entry) ← selectIn s.mount.geometry T.items none identity
  let name ← canonicalComponent base
  if name.slice 8 3 ≠ (padName [] []).slice 8 3 then .error .invalidArgument
  renamePlan s.disk T d entry parent (name.put 8 (entry.primary.name.slice 8 3))

end FileService

open FileService in
def Request.plan (s : FileService) (T : Tree) : Request → Except IosError (Plan (Option VfsObject))
  | .create path => do
    let (parent, name) ← parentIn T.items path
    (createPlan s.mount.geometry s.disk T parent name).map (Plan.map fun _ => none)
  | .createFile parent component => do
    let name ← canonicalComponent component
    (createPlan s.mount.geometry s.disk T parent name).map (Plan.map some)
  | .replace path bytes => do
    let (d, entry) ← selectIn s.mount.geometry T.items path 0
    (savePlan s T d entry bytes false).map (Plan.map fun _ => none)
  | .append path bytes => do
    let (d, entry) ← selectIn s.mount.geometry T.items path 0
    (savePlan s T d entry bytes true).map (Plan.map fun _ => none)
  | .replaceObject identity bytes => do
    let (d, entry) ← selectIn s.mount.geometry T.items none identity
    (savePlan s T d entry bytes false).map (Plan.map fun _ => none)
  | .appendObject identity bytes => do
    let (d, entry) ← selectIn s.mount.geometry T.items none identity
    (savePlan s T d entry bytes true).map (Plan.map fun _ => none)
  | .rename source destination => do
    let (d, entry) ← resolveIn T.items source
    let (d', name) ← parentIn T.items destination
    (renamePlan s.disk T d entry d' name).map (Plan.map fun _ => none)
  | .renameObject identity parent base => (renameObjectPlan s T identity parent base).map (Plan.map fun _ => none)
  | .remove path => do
    let (d, entry) ← resolveIn T.items path
    (removePlan s.disk T d entry).map (Plan.map fun _ => none)
  | .removeObject identity => do
    let (d, entry) ← selectIn s.mount.geometry T.items none identity
    (removePlan s.disk T d entry).map (Plan.map fun _ => none)
  | .createDirectory parent component => (createDirectoryPlan s T parent component).map (Plan.map some)
  | .removeDirectory parent component => (removeDirectoryPlan s T parent component).map (Plan.map fun _ => none)
  | .vfsRename parent component parent' component' =>
    (vfsRenamePlan s T parent component parent' component').map (Plan.map fun _ => none)

/-- The identities among the arguments are directories of `dirs`, or address slots of them. -/
structure Request.Bound (r : Request) (g : Geometry) (dirs : Nat → Prop) : Prop where
  parents : ∀ d ∈ r.parents, dirs d
  objects : ∀ identity ∈ r.objects,
    identity < 2 ^ 64 ∧ (FileService.addressable g identity → dirs (FileService.addressed g identity).1)

namespace Request
open FileService

/-- The call creates the file `name` in directory `d`. -/
def Creates (s : FileService) (d : Nat) (name : Name) : Request → Prop
  | .create path => Names s path d name
  | .createFile parent component => d = parent ∧ canonicalComponent component = .ok name
  | _ => False

/-- The call stores or appends the bytes in the file `entry` of directory `d`. -/
def Saves (s : FileService) (d : Nat) (entry : DirectoryEntry) (bytes : Text) (append : Bool) : Request → Prop
  | .replace path content => Selects s path 0 d entry ∧ bytes = content ∧ append = false
  | .append path content => Selects s path 0 d entry ∧ bytes = content ∧ append = true
  | .replaceObject identity content => Selects s none identity d entry ∧ bytes = content ∧ append = false
  | .appendObject identity content => Selects s none identity d entry ∧ bytes = content ∧ append = true
  | _ => False

/-- The call gives the object `entry` of directory `d` the name `name` in directory `d'`. -/
def Renames (s : FileService) (d : Nat) (entry : DirectoryEntry) (d' : Nat) (name : Name) : Request → Prop
  | .rename source destination => (Names s source d entry.primary.name ∧ Holds s d entry) ∧ Names s destination d' name
  | .renameObject identity parent base => Selects s none identity d entry ∧ d' = parent ∧
    ∃ stem, canonicalComponent base = .ok stem ∧ name = stem.put 8 (entry.primary.name.slice 8 3)
  | .vfsRename parent component parent' component' => d = parent ∧ Holds s d entry ∧
    canonicalComponent component = .ok entry.primary.name ∧ d' = parent' ∧ canonicalComponent component' = .ok name
  | _ => False

/-- The call removes the file `entry` of directory `d`. -/
def Removes (s : FileService) (d : Nat) (entry : DirectoryEntry) : Request → Prop
  | .remove path => Names s path d entry.primary.name ∧ Holds s d entry
  | .removeObject identity => Selects s none identity d entry
  | _ => False

def Makes (r : Request) (s : FileService) (live : Nat → Prop) (v : Option VfsObject) : Change → Prop
  | .same => ∃ d entry, live d ∧ entry.kind = .regular ∧ r.Renames s d entry d entry.primary.name
  | .create d k name => r.Creates s d name ∧ ∀ object ∈ v, object = ⟨fileIdentity s.mount.geometry d (k + 1), .regularFile⟩
  | .save d i p _ bytes more => r.Saves s d (fileEntry p i) bytes more
  | .remove d i p => r.Removes s d (fileEntry p i)
  | .rename d i p name => r.Renames s d (fileEntry p i) d name
  | .relocate d i p d' _ name => r.Renames s d (fileEntry p i) d' name ∧ d ≠ d'
  | .createDirectory d _ p => ∃ component, r = .createDirectory d component ∧ v = some ⟨p.firstCluster, .directory⟩ ∧
    canonicalComponent component = .ok p.name
  | .removeDirectory d _ p => ∃ component, r = .removeDirectory d component ∧ canonicalComponent component = .ok p.name
  | .renameDirectory d i p name => (∃ component component', r = .vfsRename d component d component') ∧
    r.Renames s d (directoryEntry p i) d name
  | .moveDirectory d i p d' _ name => (∃ component component', r = .vfsRename d component d' component') ∧
    r.Renames s d (directoryEntry p i) d' name ∧ d ≠ d'

end Request

namespace FileService
variable {s t u : FileService} {T : Tree} {d d' : Nat}
variable {α : Type} {path : Option Text} {identity : Nat}

theorem entry_name (h : Consistent s T) (hd : T.dirs d) {entry : DirectoryEntry} (he : EntryOf (T.items d) entry) :
    validStoredName entry.primary.name = true := by
  cases he with
  | file hi hp => exact (h.file_sound hd hi hp).name (Or.inl rfl)
  | directory hi hp =>
    have hsound := (h.describes.tidy hd).sound hi
    rw [hp] at hsound
    exact hsound.name (Or.inr rfl)

theorem map_ok {β : Type} {f : α → β} {r : Except IosError (Plan α)} {plan : Plan β}
    (hp : r.map (Plan.map f) = .ok plan) : ∃ p, r = .ok p ∧ plan = p.map f := by
  cases r with
  | error e => cases hp
  | ok p =>
    cases hp
    exact ⟨p, rfl, rfl⟩

theorem Consistent.selects (h : Consistent s T) {dirs : Nat → Prop} (hdirs : dirs = T.dirs)
    {entry : DirectoryEntry} (ha : Addresses s.mount.geometry dirs path identity)
    (hs : selectIn s.mount.geometry T.items path identity = .ok (d, entry)) :
    T.dirs d ∧ EntryOf (T.items d) entry ∧ Selects s path identity d entry := by
  subst hdirs
  obtain ⟨hd, he⟩ := selectIn_eq h.catalog ha hs
  refine ⟨hd, he, ?_⟩
  cases path with
  | some path => exact h.resolves.mpr hs
  | none => exact (h.denotes hd (ha rfl).1).mpr hs

theorem request_sensible (h : Consistent s T) {r : Request} (hb : r.Bound s.mount.geometry T.dirs)
    {plan : Plan (Option VfsObject)} (hp : r.plan s T = .ok plan) :
    ∃ ch, plan.Sensible s T ch ∧ r.Makes s T.dirs plan.value ch := by
  have object : ∀ {identity}, identity ∈ r.objects → Addresses s.mount.geometry T.dirs none identity := fun hi _ =>
    hb.objects _ hi
  have zero : ∀ {path}, Addresses s.mount.geometry T.dirs path 0 := fun _ =>
    ⟨by decide, fun hx => absurd hx.1 (by decide)⟩
  have saved : ∀ {path identity bytes append}, Addresses s.mount.geometry T.dirs path identity →
      (selectIn s.mount.geometry T.items path identity >>= fun r =>
        (savePlan s T r.1 r.2 bytes append).map (Plan.map fun _ => none)) = .ok plan →
      ∃ d i p l, Selects s path identity d (fileEntry p i) ∧ plan.Sensible s T (.save d i p l bytes append) := by
    intro path identity bytes append ha hp
    obtain ⟨⟨d, entry⟩, hr, hrest⟩ := of_bind_ok hp
    obtain ⟨hd, he, hsel⟩ := h.selects rfl ha hr
    obtain ⟨p, hplan, rfl⟩ := map_ok hrest
    obtain ⟨i, q, l, rfl, hs⟩ := savePlan_sensible h hd he hplan
    exact ⟨d, i, q, l, hsel, hs.map _⟩
  cases r with
  | create path =>
    obtain ⟨⟨parent, name⟩, hr, hrest⟩ := of_bind_ok hp
    obtain ⟨hd, hn⟩ := parentIn_eq h.catalog hr
    obtain ⟨p, hplan, rfl⟩ := map_ok hrest
    obtain ⟨k, -, hs⟩ := createPlan_sensible h hd hn hplan
    exact ⟨_, hs.map _, h.names.mpr hr, nofun⟩
  | createFile parent component =>
    obtain ⟨name, hr, hrest⟩ := of_bind_ok hp
    obtain ⟨p, hplan, rfl⟩ := map_ok hrest
    obtain ⟨k, hv, hs⟩ := createPlan_sensible h (hb.parents parent (by simp [Request.parents])) (canonicalComponent_valid hr) hplan
    refine ⟨_, hs.map _, ⟨rfl, hr⟩, fun object ho => ?_⟩
    cases ho
    exact hv
  | replace path bytes =>
    obtain ⟨d, i, p, l, hsel, hs⟩ := saved zero hp
    exact ⟨_, hs, hsel, rfl, rfl⟩
  | append path bytes =>
    obtain ⟨d, i, p, l, hsel, hs⟩ := saved zero hp
    exact ⟨_, hs, hsel, rfl, rfl⟩
  | replaceObject identity bytes =>
    obtain ⟨d, i, p, l, hsel, hs⟩ := saved (object (by simp [Request.objects])) hp
    exact ⟨_, hs, hsel, rfl, rfl⟩
  | appendObject identity bytes =>
    obtain ⟨d, i, p, l, hsel, hs⟩ := saved (object (by simp [Request.objects])) hp
    exact ⟨_, hs, hsel, rfl, rfl⟩
  | rename source destination =>
    obtain ⟨⟨d, entry⟩, hr, hrest⟩ := of_bind_ok hp
    obtain ⟨hd, he⟩ := resolveIn_eq h.catalog hr
    obtain ⟨⟨d', name⟩, hr', hrest'⟩ := of_bind_ok hrest
    obtain ⟨hd', hn⟩ := parentIn_eq h.catalog hr'
    obtain ⟨p, hplan, rfl⟩ := map_ok hrest'
    obtain ⟨i, q, ch, rfl, hren, hs⟩ := renamePlan_sensible h hd he hd' hn hplan
    have hmakes : Request.Renames s d (fileEntry q i) d' name (.rename source destination) :=
      ⟨h.resolves.mpr hr, h.names.mpr hr'⟩
    refine ⟨ch, hs.map _, ?_⟩
    cases hren with
    | same hsame hn =>
      subst hsame hn
      exact ⟨d, fileEntry q i, hd, rfl, hmakes⟩
    | rename hd =>
      subst hd
      exact hmakes
    | relocate hd => exact ⟨hmakes, hd⟩
  | renameObject identity parent base =>
    obtain ⟨p, hplan, rfl⟩ := map_ok hp
    unfold renameObjectPlan at hplan
    obtain ⟨-, hrest₁⟩ := of_check hplan
    obtain ⟨-, hrest₂⟩ := of_check hrest₁
    obtain ⟨⟨d, entry⟩, hr, hrest₃⟩ := of_bind_ok hrest₂
    obtain ⟨hd, he, hsel⟩ := h.selects rfl (object (by simp [Request.objects])) hr
    obtain ⟨stem, hname, hrest₄⟩ := of_bind_ok hrest₃
    obtain ⟨-, hrest⟩ := of_check hrest₄
    obtain ⟨i, q, ch, rfl, hren, hs⟩ := renamePlan_sensible h hd he (hb.parents parent (by simp [Request.parents]))
      (validStoredName_put (canonicalComponent_valid hname) (entry_name h hd he)) hrest
    have hmakes : Request.Renames s d (fileEntry q i) parent (stem.put 8 (q.name.slice 8 3)) (.renameObject identity parent base) :=
      ⟨hsel, rfl, stem, hname, rfl⟩
    refine ⟨ch, hs.map _, ?_⟩
    cases hren with
    | same hsame hn =>
      subst hsame
      rw [show stem.put 8 (q.name.slice 8 3) = q.name from hn.symm] at hmakes
      exact ⟨d, fileEntry q i, hd, rfl, hmakes⟩
    | rename hd =>
      subst hd
      exact hmakes
    | relocate hd => exact ⟨hmakes, hd⟩
  | remove path =>
    obtain ⟨⟨d, entry⟩, hr, hrest⟩ := of_bind_ok hp
    obtain ⟨hd, he⟩ := resolveIn_eq h.catalog hr
    obtain ⟨p, hplan, rfl⟩ := map_ok hrest
    obtain ⟨i, q, rfl, hs⟩ := removePlan_sensible h hd he hplan
    exact ⟨_, hs.map _, h.resolves.mpr hr⟩
  | removeObject identity =>
    obtain ⟨⟨d, entry⟩, hr, hrest⟩ := of_bind_ok hp
    obtain ⟨hd, he, hsel⟩ := h.selects rfl (object (by simp [Request.objects])) hr
    obtain ⟨p, hplan, rfl⟩ := map_ok hrest
    obtain ⟨i, q, rfl, hs⟩ := removePlan_sensible h hd he hplan
    exact ⟨_, hs.map _, hsel⟩
  | createDirectory parent component =>
    obtain ⟨p, hplan, rfl⟩ := map_ok hp
    obtain ⟨k, q, hn, hv, hs⟩ := createDirectoryPlan_sensible h (hb.parents parent (by simp [Request.parents])) hplan
    exact ⟨_, hs.map _, component, rfl, congrArg some hv, hn⟩
  | removeDirectory parent component =>
    obtain ⟨p, hplan, rfl⟩ := map_ok hp
    obtain ⟨i, q, hn, hs⟩ := removeDirectoryPlan_sensible (hb.parents parent (by simp [Request.parents])) hplan
    exact ⟨_, hs.map _, component, rfl, hn⟩
  | vfsRename parent component parent' component' =>
    obtain ⟨p, hplan, rfl⟩ := map_ok hp
    have hd := hb.parents parent (by simp [Request.parents])
    obtain ⟨i, q, name, ch, hn, hn', hs, hren⟩ :=
      vfsRenamePlan_sensible h hd (hb.parents parent' (by simp [Request.parents])) hplan
    refine ⟨ch, hs.map _, ?_⟩
    rcases hren with ⟨hi, hit, hren⟩ | ⟨hi, hit, hren⟩
    · have hmakes : Request.Renames s parent (fileEntry q i) parent' name (.vfsRename parent component parent' component') :=
        ⟨rfl, (h.holds hd).mpr (.file hi hit), hn, rfl, hn'⟩
      cases hren with
      | same hsame hn =>
        subst hsame hn
        exact ⟨parent, fileEntry q i, hd, rfl, hmakes⟩
      | rename hd =>
        subst hd
        exact hmakes
      | relocate hd => exact ⟨hmakes, hd⟩
    · have hmakes : Request.Renames s parent (directoryEntry q i) parent' name (.vfsRename parent component parent' component') :=
        ⟨rfl, (h.holds hd).mpr (.directory hi hit), hn, rfl, hn'⟩
      cases hren with
      | rename hd =>
        subst hd
        exact ⟨⟨component, component', rfl⟩, hmakes⟩
      | move hd => exact ⟨⟨component, component', rfl⟩, hmakes, hd⟩

theorem resolveParent_follows (h : Consistent s T) {f : Nat × Name → Service α}
    {p : Nat × Name → Except IosError (Plan α)} (hf : ∀ d name t, T.dirs d → validStoredName name = true → Quiet s t →
      Follows (f (d, name)) t (p (d, name))) : Follows (resolveParent path >>= f) s (parentIn T.items path >>= p) := by
  refine (resolveParent_yields h.mounted h.catalog path).followsE h.mounted fun a t ha ht => ?_
  obtain ⟨hd, hn⟩ := parentIn_eq h.catalog ha
  exact hf a.1 a.2 t hd hn ht

theorem resolvePath_follows (h : Consistent s T) {f : LocatedEntry → Service α}
    {p : Nat × DirectoryEntry → Except IosError (Plan α)} (hf : ∀ d entry t, T.dirs d → EntryOf (T.items d) entry →
      Quiet s t → Follows (f (locatedIn s.disk d entry)) t (p (d, entry))) :
    Follows (resolvePath path >>= f) s (resolveIn T.items path >>= p) := by
  refine (resolvePath_yields h.mounted h.catalog path).followsMap h.mounted fun a t ha ht => ?_
  obtain ⟨hd, he⟩ := resolveIn_eq h.catalog ha
  exact hf a.1 a.2 t hd he ht

theorem select_follows (h : Consistent s T) {f : LocatedEntry → Service α}
    {p : Nat × DirectoryEntry → Except IosError (Plan α)} (ha : Addresses s.mount.geometry T.dirs path identity)
    (hf : ∀ d entry t, T.dirs d → EntryOf (T.items d) entry → Quiet s t → Follows (f (locatedIn s.disk d entry)) t (p (d, entry))) :
    Follows (select path identity >>= f) s (selectIn s.mount.geometry T.items path identity >>= p) := by
  refine (select_yields h.mounted h.catalog ha).followsMap h.mounted fun a t hs ht => ?_
  obtain ⟨hd, he⟩ := selectIn_eq h.catalog ha hs
  exact hf a.1 a.2 t hd he ht

theorem validated_follows (h : Consistent s T) {m : Service α} {r : Except IosError (Plan α)}
    (hf : ∀ t, Quiet s t → Follows m t r) : Follows (validateService true >>= fun _ => m) s r :=
  (validateService_yields h true).follows h.mounted hf

theorem saveContent_follows (h : Consistent s T) {bytes : Text} {append : Bool}
    (ha : Addresses s.mount.geometry T.dirs path identity) : Follows (saveContent path identity bytes append) s (do
      let (d, entry) ← selectIn s.mount.geometry T.items path identity
      savePlan s T d entry bytes append) := by
  refine validated_follows h fun t ht => ?_
  have hc := h.quiet ht
  rw [← ht.mount]
  refine select_follows hc (by rwa [ht.mount]) fun d entry u hd he hu => ?_
  have hsave := saveLocated_follows (hc.quiet hu) hd he bytes append
  rw [hu.disk] at hsave
  have hplan : savePlan u T d entry bytes append = savePlan s T d entry bytes append := by
    unfold savePlan
    rw [hu.fat, hu.fatEntryCount, hu.disk, hu.mount, ht.fat, ht.fatEntryCount, ht.disk, ht.mount]
  rwa [hplan] at hsave

theorem Carries.congr {m : Service α} {r r' : Except IosError (Plan α)} {K : Plan α → α → FileService → Prop}
    (h : Carries K m s r) (hr : r = r') : Carries K m s r' := hr ▸ h

theorem Carries.none {α : Type} {m : Service α} {r : Except IosError (Plan α)} (h : Follows m s r) :
    Follows ((fun _ => none) <$> m : Service (Option VfsObject)) s (r.map (Plan.map fun _ => none)) := h.map _

theorem renameObject_follows (h : Consistent s T) (hd' : T.dirs d')
    (ha : Addresses s.mount.geometry T.dirs none identity) (base : Text) :
    Follows (renameObject identity d' base) s (renameObjectPlan s T identity d' base) := by
  unfold renameObject renameObjectPlan
  refine validated_follows h fun t ht => ?_
  have hc := h.quiet ht
  refine (yields_get hc.mounted).follows hc.mounted fun u hu => ?_
  have hcu := hc.quiet hu
  by_cases hlen : base = [] ∨ 8 < base.length
  · rw [if_pos hlen, failIf_bind (Or.inr hlen)]
    exact yields_fail hcu.mounted _
  rw [if_neg hlen, failIf_pass fun hx => hx.elim (checkDirectory_pass hc hd') hlen]
  by_cases hdot : ∃ value ∈ base, value = ascii '.' ∨ value = ascii '/' ∨ value = ascii '\\'
  · rw [if_pos hdot, failIf_bind hdot]
    exact yields_fail hcu.mounted _
  rw [if_neg hdot, failIf_pass hdot]
  have hq := ht.trans hu
  rw [← hq.mount]
  refine select_follows hcu (by rwa [hq.mount]) fun d entry v hd he hv => ?_
  have hcv := hcu.quiet hv
  refine (yields_ofExcept hcv.mounted _).followsE hcv.mounted fun name w hname hw => ?_
  have hcw := hcv.quiet hw
  by_cases hext : name.slice 8 3 ≠ (padName [] []).slice 8 3
  · rw [if_pos hext, failIf_bind hext]
    exact yields_fail hcw.mounted _
  rw [if_neg hext, failIf_pass hext]
  have hrename := renameLocated_follows hcw hd he hd' (validStoredName_put (canonicalComponent_valid hname) (entry_name h hd he))
  rw [((hq.trans hv).trans hw).disk] at hrename
  rw [hq.disk]
  exact hrename

theorem request_follows (h : Consistent s T) {r : Request} (hb : r.Bound s.mount.geometry T.dirs) :
    Follows r.run s (r.plan s T) := by
  have hm := h.mounted
  have object : ∀ {identity}, identity ∈ r.objects → Addresses s.mount.geometry T.dirs none identity := fun hi _ =>
    hb.objects _ hi
  have zero : ∀ {path}, Addresses s.mount.geometry T.dirs path 0 := fun _ =>
    ⟨by decide, fun hx => absurd hx.1 (by decide)⟩
  have saved : ∀ {path identity bytes append}, Addresses s.mount.geometry T.dirs path identity →
      Follows ((fun _ => Option.none) <$> saveContent path identity bytes append : Service (Option VfsObject)) s (do
        let (d, entry) ← selectIn s.mount.geometry T.items path identity
        (savePlan s T d entry bytes append).map (Plan.map fun _ => Option.none)) := by
    intro path identity bytes append ha
    refine Carries.congr (saveContent_follows h ha).none ?_
    cases selectIn s.mount.geometry T.items path identity <;> rfl
  cases r with
  | create path =>
    show Follows ((fun _ => Option.none) <$> (validateService true >>= fun _ => resolveParent path >>= fun place =>
      createFileInDirectory place.1 place.2 >>= fun _ => pure ())) s _
    rw [fmap_bind]
    refine validated_follows h fun t ht => ?_
    rw [fmap_bind]
    refine resolveParent_follows (h.quiet ht) fun d name u hd hn hu => ?_
    have hq := ht.trans hu
    have hcreate := create_follows (h.quiet hq) hd hn
    rw [hq.mount, hq.disk] at hcreate
    rw [fmap_bind]
    exact hcreate.map fun _ => none
  | createFile parent component =>
    have hd := hb.parents parent (by simp [Request.parents])
    show Follows (some <$> (validateService true >>= fun _ => _)) s _
    rw [fmap_bind]
    refine validated_follows h fun t ht => ?_
    have hc := h.quiet ht
    rw [fmap_bind]
    refine (yields_get hc.mounted).follows hc.mounted fun u hu => ?_
    have hcu := hc.quiet hu
    rw [failIf_pass (checkDirectory_pass hc hd), fmap_bind]
    refine (yields_ofExcept hcu.mounted _).followsE hcu.mounted fun name v hname hv => ?_
    have hq := (ht.trans hu).trans hv
    have hcreate := create_follows (h.quiet hq) hd (canonicalComponent_valid hname)
    rw [hq.mount, hq.disk] at hcreate
    exact hcreate.map some
  | replace path bytes => exact saved zero
  | append path bytes => exact saved zero
  | replaceObject identity bytes => exact saved (object (by simp [Request.objects]))
  | appendObject identity bytes => exact saved (object (by simp [Request.objects]))
  | rename source destination =>
    show Follows ((fun _ => Option.none) <$> (validateService true >>= fun _ => resolvePath source >>= fun entry =>
      resolveParent destination >>= fun place => renameLocated entry place.1 place.2)) s _
    rw [fmap_bind]
    refine validated_follows h fun t ht => ?_
    rw [fmap_bind]
    refine resolvePath_follows (h.quiet ht) fun d entry u hd he hu => ?_
    have hq := ht.trans hu
    rw [fmap_bind]
    refine resolveParent_follows (h.quiet hq) fun d' name v hd' hn hv => ?_
    have hqv := hq.trans hv
    have hrename := renameLocated_follows (h.quiet hqv) hd he hd' hn
    rw [hqv.disk] at hrename
    rw [ht.disk]
    exact hrename.map fun _ => none
  | renameObject identity parent base =>
    exact (renameObject_follows h (hb.parents parent (by simp [Request.parents]))
      (object (by simp [Request.objects])) base).none
  | remove path =>
    show Follows ((fun _ => Option.none) <$> (validateService true >>= fun _ => resolvePath path >>= removeLocatedFile)) s _
    rw [fmap_bind]
    refine validated_follows h fun t ht => ?_
    rw [fmap_bind]
    refine resolvePath_follows (h.quiet ht) fun d entry u hd he hu => ?_
    have hq := ht.trans hu
    have hremove := removeLocatedFile_follows (h.quiet hq) hd he
    rw [hq.disk] at hremove
    rw [ht.disk]
    exact hremove.none
  | removeObject identity =>
    show Follows ((fun _ => Option.none) <$> (validateService true >>= fun _ => select none identity >>= removeLocatedFile)) s _
    rw [fmap_bind]
    refine validated_follows h fun t ht => ?_
    have ha : Addresses t.mount.geometry T.dirs none identity := by
      rw [ht.mount]
      exact object (by simp [Request.objects])
    unfold Request.plan
    rw [fmap_bind, ← ht.mount]
    refine select_follows (h.quiet ht) ha fun d entry u hd he hu => ?_
    have hq := ht.trans hu
    have hremove := removeLocatedFile_follows (h.quiet hq) hd he
    rw [hq.disk] at hremove
    rw [ht.disk]
    exact hremove.none
  | createDirectory parent component =>
    exact (createDirectory_follows h (hb.parents parent (by simp [Request.parents])) component).map some
  | removeDirectory parent component =>
    exact (removeDirectory_follows h (hb.parents parent (by simp [Request.parents])) component).map fun _ => none
  | vfsRename parent component parent' component' =>
    exact (vfsRename_follows h (hb.parents parent (by simp [Request.parents])) (hb.parents parent' (by simp [Request.parents]))
      component component').map fun _ => none

end FileService
end InferenceOS
