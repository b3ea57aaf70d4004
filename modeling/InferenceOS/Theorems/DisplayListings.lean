import InferenceOS.Theorems.FileViews
import InferenceOS.Theorems.Normalization
import InferenceOS.Theorems.PlantedRecords

/-! Listings of the current directory and the paths that are written with their labels. The current directory is a path of stored
    names and labels hide extensions, so the two agree where no directory on the way has one. -/

namespace InferenceOS
open Program
variable {name : Name} {component : Text} {entry : DisplaySafeEntry}

namespace Vfs
variable {text path normalized : Text} {stack : List Text} {capacity : Nat}

/-- The text of a current directory stands for a stack of components. -/
structure Normal (text : Text) (stack : List Text) : Prop where
  text : cString text = rendered (ascii '/') stack
  components : ∀ c ∈ stack, IsSegment (ascii '/') c ∧ Pushed c ∧ Printable c
  fits : Fits pathCapacity stack

theorem zero_notMem_cString : 0 ∉ cString text := by
  intro hz
  have := List.mem_takeWhile_imp hz
  simp at this

theorem pathNormalize_cString : pathNormalize text (some path) capacity = pathNormalize (cString text) (some (cString path)) capacity := by
  unfold pathNormalize
  dsimp only
  rw [cString_eq (@zero_notMem_cString text), cString_eq (@zero_notMem_cString path)]

theorem pathNormalize_ok (h : pathNormalize text (some path) capacity = .ok normalized) :
    Acceptable capacity [] (given (cString text) (cString path)) ∧ normalized = reference (cString text) (cString path) := by
  rw [pathNormalize_cString] at h
  have hlengths : (cString text).length ≤ pathMax ∧ (cString path).length ≤ pathMax ∧ (cString text).head? = some (ascii '/') := by
    unfold pathNormalize at h
    dsimp only at h
    rw [cString_eq (@zero_notMem_cString text), cString_eq (@zero_notMem_cString path)] at h
    by_cases hfirst : capacity = 0 ∨ (cString text).head? ≠ some (ascii '/')
    · rw [if_pos hfirst] at h
      cases h
    by_cases hcurrent : pathMax < (cString text).length
    · rw [if_neg hfirst, if_pos hcurrent] at h
      cases h
    by_cases hpath : pathMax < (cString path).length
    · rw [if_neg hfirst, if_neg hcurrent, if_pos hpath] at h
      cases h
    · exact ⟨by omega, by omega, not_not.mp (not_or.mp hfirst).2⟩
  obtain ⟨hcurrent, hpath, hslash⟩ := hlengths
  obtain ⟨hyes, hno⟩ := pathNormalize_reference capacity zero_notMem_cString zero_notMem_cString hcurrent hpath hslash
  by_cases hall : cString path ≠ [] ∧ Acceptable capacity [] (given (cString text) (cString path))
  · rw [hyes hall] at h
    exact ⟨hall.2, (Except.ok.inj h).symm⟩
  · obtain ⟨e, he⟩ := hno hall
    rw [he] at h
    cases h

theorem Normal.of_normalize (h : pathNormalize text (some path) pathCapacity = .ok normalized) :
    ∃ stack, normalized = rendered (ascii '/') stack ∧ ∀ rest, Normal (normalized ++ 0 :: rest) stack := by
  obtain ⟨hall, rfl⟩ := pathNormalize_ok h
  have hreached := mem_reached (mem_given _ _) hall
  have hend : ∀ rest, cString (reference (cString text) (cString path) ++ 0 :: rest) = reference (cString text) (cString path) := by
    intro rest
    have hzero := Normalizing.zero_notMem_reached hall
    unfold cString at *
    rw [List.takeWhile_append_of_pos]
    · simp
    · intro b hb
      simp only [ne_eq, decide_eq_true_eq]
      exact fun hz => hzero (hz ▸ hb)
  exact ⟨_, rfl, fun rest => ⟨hend rest, hreached, hall.fits⟩⟩

theorem normal_root {rest : Text} : Normal (ascii '/' :: 0 :: rest) [] :=
  ⟨by rw [rendered_nil]; rfl, nofun, show 0 ≤ 15 ∧ 1 ≤ min 255 (pathCapacity - 1) by decide⟩

theorem Normal.segments (h : Normal text stack) : segments (ascii '/') (cString text) = stack := by
  rw [h.text]
  exact segments_rendered fun c hc => (h.components c hc).1

theorem Normal.relative (h : Normal text stack) (hne : path ≠ []) (hzero : 0 ∉ path) (hlength : path.length ≤ pathMax)
    (hhead : path.head? ≠ some (ascii '/')) (hall : Acceptable pathCapacity [] (stack ++ InferenceOS.segments (ascii '/') path)) :
    pathNormalize text (some path) pathCapacity =
      .ok (rendered (ascii '/') ((InferenceOS.segments (ascii '/') path).foldl entered stack)) := by
  have hcurrent : (cString text).length ≤ pathMax := by
    have hfits := h.fits.2
    have hcap : pathMax = 255 := rfl
    rw [← h.text] at hfits
    omega
  have hslash : (cString text).head? = some (ascii '/') := by
    rw [h.text]
    unfold rendered
    split
    · rfl
    · obtain ⟨e, rest, he⟩ := List.exists_cons_of_ne_nil ‹_›
      rw [he]
      rfl
  have hgiven : given (cString text) path = stack ++ InferenceOS.segments (ascii '/') path := by
    unfold given
    rw [if_neg hhead, h.segments]
  obtain ⟨hyes, -⟩ := pathNormalize_reference pathCapacity (@zero_notMem_cString text) hzero hcurrent hlength hslash
  rw [pathNormalize_cString, cString_eq hzero, hyes ⟨hne, by rwa [hgiven]⟩, reference, hgiven, List.foldl_append,
    foldl_pushed fun c hc => (h.components c hc).2.1]
  rfl

theorem Normal.child (h : Normal text stack) {c : Text} (hc : IsSegment (ascii '/') c ∧ Pushed c ∧ Printable c)
    (hfits : Fits pathCapacity (stack ++ [c])) :
    pathNormalize text (some c) pathCapacity = .ok (rendered (ascii '/') (stack ++ [c])) := by
  have hzero : 0 ∉ c := fun hz => absurd (hc.2.2 0 hz) (by decide)
  have hlength : c.length ≤ pathMax := by
    have hboth := hfits.2
    have hcap : pathMax = 255 := rfl
    rw [length_rendered_snoc] at hboth
    omega
  have hpushed : ∀ d ∈ stack ++ [c], Pushed d ∧ Printable d := by
    intro d hd
    rcases List.mem_append.mp hd with hd | hd
    · exact (h.components d hd).2
    · rw [List.mem_singleton.mp hd]
      exact hc.2
  have hrelative := h.relative hc.1.1 hzero hlength (fun hx => hc.1.2 (List.mem_of_head? hx))
    (by rw [segments_single hc.1]; exact acceptable_stack hpushed hfits)
  rw [hrelative, segments_single hc.1, List.foldl_cons, List.foldl_nil, entered_pushed hc.2.1]

theorem Normal.components_child (h : Normal text stack) {c : Text} (hc : IsSegment (ascii '/') c) :
    FileService.components (rendered (ascii '/') (stack ++ [c])) = stack ++ [c] := by
  refine segments_rendered fun d hd => ?_
  rcases List.mem_append.mp hd with hd | hd
  · exact (h.components d hd).1
  · rw [List.mem_singleton.mp hd]
    exact hc

theorem Normal.self (h : Normal text stack) :
    pathNormalize text (some [ascii '.']) pathCapacity = .ok (rendered (ascii '/') stack) := by
  have hdot : InferenceOS.segments (ascii '/') [ascii '.'] = [[ascii '.']] := by decide
  have hstack := acceptable_stack (fun c hc => (h.components c hc).2) h.fits
  have hall : Acceptable pathCapacity [] (stack ++ [[ascii '.']]) := by
    rw [acceptable_append (hstack.2 [] mem_visited_self), foldl_pushed fun c hc => (h.components c hc).2.1, List.nil_append]
    refine ⟨hstack, (acceptable_cons h.fits).mpr ⟨fun hp => absurd rfl hp.1, ?_⟩⟩
    exact acceptable_nil h.fits
  rw [h.relative (List.cons_ne_nil _ _) (by decide) (by decide) (by decide) (by rwa [hdot]), hdot]
  rfl

end Vfs
open Vfs

namespace FileService
variable {s : FileService} {T : Tree} {d : Nat}

def lookedUp (g : Geometry) (items : Nat → Nat → Item) (d : Nat) (component : Text) : Except IosError VfsObject := do
  let name ← canonicalComponent component
  let entry ← findIn items d name
  .ok (objectOf g (d, entry))

def walkObject (g : Geometry) (items : Nat → Nat → Item) (current : VfsObject) : List Text → Except IosError VfsObject
  | [] => .ok current
  | component :: rest => do
    if current.kind ≠ .directory then .error .notFound
    let next ← lookedUp g items current.identity component
    walkObject g items next rest

theorem recordNamed_single {d : Nat} {items : Nat → Item} :
    recordNamed [(d, entriesOf items)] name = (entryNamed items name).map fun entry => (d, entry) := by
  have hfind : (entriesOf items).find? (fun entry => decide (entry.kind ≠ .internal ∧ entry.primary.name = name)) = entryNamed items name := rfl
  rw [recordNamed_cons]
  dsimp only
  rw [hfind]
  cases entryNamed items name <;> rfl

theorem Consistent.lookup_yields (h : Consistent s T) (hd : T.dirs d) (component : Text) :
    Yields (lookup d component) s (lookedUp s.mount.geometry T.items d component) := by
  refine ((h.scanned hd).lookup_yields h.mounted h.initialized component).congr ?_
  unfold lookedUp
  cases canonicalComponent component with
  | error e => rfl
  | ok name =>
    dsimp only [bind, Except.bind]
    rw [recordNamed_single]
    unfold findIn
    cases entryNamed (T.items d) name <;> rfl

theorem Consistent.lookedUp_ok (h : Consistent s T) (hd : T.dirs d) {object : VfsObject}
    (hl : lookedUp s.mount.geometry T.items d component = .ok object) :
    object.identity ≠ 0 ∧ (object.kind = .directory → T.dirs object.identity) := by
  obtain ⟨name, -, hl⟩ := of_bind_ok hl
  obtain ⟨entry, hentry, hl⟩ := of_bind_ok hl
  cases hl
  obtain ⟨he, -⟩ := (findIn_iff (h.describes.tidy hd)).mp hentry
  rcases h.objectOf_cases hd he with ⟨hk, -, hbit, -⟩ | ⟨hk, -, hlive, -⟩
  · refine ⟨by omega, fun hx => ?_⟩
    unfold objectOf at hx
    rw [if_neg (by rw [hk]; decide)] at hx
    cases hx
  · have hvalid := (h.describes.valid hlive).1
    exact ⟨by omega, fun _ => hlive⟩

theorem Consistent.resolveFrom_spec (h : Consistent s T) : ∀ {comps : List Text} {current : CountedObject} {w : FileService},
    (current.kind = .directory → T.dirs current.identity) → Quiet s w →
    wp (VfsSystem.resolveFrom mountedLookup current comps)
      (fun r w' => Quiet s w' ∧ walkObject s.mount.geometry T.items current.toVfsObject comps = .ok r.toVfsObject)
      (fun e w' => Quiet s w' ∧ (walkObject s.mount.geometry T.items current.toVfsObject comps = .error e ∨ ¬s.Room 1)) w
  | [], current, w, _, hw => ⟨hw, rfl⟩
  | component :: rest, current, w, hcurrent, hw => by
    unfold VfsSystem.resolveFrom walkObject
    by_cases hk : current.kind = .directory
    · have hd := hcurrent hk
      rw [failIf_pass (not_not.mpr hk), if_neg (not_not.mpr hk)]
      unfold mountedLookup
      rw [wp_bind, wp_bind]
      refine wp_mono ((((h.quiet hw).lookup_yields hd component)).after hw) (fun object w' ⟨hw', hok⟩ => ?_) fun e w' ⟨hw', herror⟩ => ?_
      · rw [hw.mount] at hok
        obtain ⟨hne, hlive⟩ := h.lookedUp_ok hd hok
        rw [wp_pure, failIf_pass hne, hok]
        exact h.resolveFrom_spec hlive hw'
      · rw [hw.mount] at herror
        refine ⟨hw', herror.imp (fun hx => ?_) And.right⟩
        rw [hx]
        rfl
    · rw [failIf_bind hk, if_pos hk]
      exact ⟨hw, Or.inl rfl⟩

end FileService

namespace VfsSystem
open FileService
variable {μ ρ : Type} [DecidableEq μ] [DecidableEq ρ] {x y : VfsSystem μ ρ FileService} {m : μ} {T : Tree} {context : MountedContext μ}
  {normalized : Text}

/-- The mount serves the volume: its root object is the root directory, and the service looks names up. -/
structure Serves (x : VfsSystem μ ρ FileService) (m : μ) : Prop where
  serving : x.Serving m
  lookup : (x.mounts m).lookup = some mountedLookup
  root : ∃ o, (x.mounts m).root = some o ∧ (x.objects o).toVfsObject = rootObject

omit [DecidableEq μ] [DecidableEq ρ] in
theorem Serves.withWorld (h : x.Serves m) (w : FileService) : (x.withWorld w).Serves m :=
  ⟨⟨h.serving.mounted, h.serving.active, h.serving.room, h.serving.root⟩, h.lookup, h.root⟩

theorem Serves.opened (h : x.Serves m) : ((x.opened m).mounts m).lookup = some mountedLookup ∧
    ∃ o, ((x.opened m).mounts m).root = some o ∧ ((x.opened m).objects o).toVfsObject = rootObject := by
  obtain ⟨o, ho, hobject⟩ := h.root
  unfold VfsSystem.opened
  rw [show ((x.counted m (· + 1) fun count => (count + 1) % 2 ^ 32).mounts m) = _ from counted_mounts, if_pos rfl]
  refine ⟨h.lookup, o, ho, ?_⟩
  unfold counted
  rw [ho]
  simp [setReferences, setMount, hobject]

omit [DecidableEq μ] [DecidableEq ρ] in
theorem resolveNormalized_eq {o : ρ} (hlookup : (x.mounts m).lookup = some mountedLookup) (ho : (x.mounts m).root = some o) :
    resolveNormalized m normalized x = callback (resolveFrom mountedLookup (x.objects o) (components normalized)) x := by
  unfold resolveNormalized
  rw [bind_ok (show get x = (.ok x, x) from rfl)]
  dsimp only
  rw [ho, hlookup]
  dsimp only
  split
  · rename_i hnil
    rw [hnil]
    rfl
  · rfl

theorem Serves.resolve_spec (h : x.Serves m) (hc : Consistent x.world T) {path : Option Text} (hv : x.validateContext context = .ok m)
    (hn : pathNormalize context.currentDirectory path pathCapacity = .ok normalized) :
    wp (vfsPathResolve (some context) path true)
      (fun object y => (Quiet x.world y.world ∧ y = x.withWorld y.world) ∧
        walkObject x.world.mount.geometry T.items rootObject (components normalized) = .ok object.toVfsObject)
      (fun e y => (Quiet x.world y.world ∧ y = x.withWorld y.world) ∧
        (walkObject x.world.mount.geometry T.items rootObject (components normalized) = .error e ∨ ¬x.world.Room 1)) x := by
  obtain ⟨hlookup, o, ho, hobject⟩ := h.opened
  have hwalk := @Consistent.resolveFrom_spec x.world T hc (components normalized) ((x.opened m).objects o) x.world
    (fun _ => by
      rw [hobject]
      exact hc.describes.linked.root) (Quiet.refl hc.mounted)
  rw [hobject] at hwalk
  have hbegin : wp (vfsMountBeginOperation (some m) false) (fun _ u => u = x.opened m) (fun _ _ => False) x := by
    unfold wp
    rw [h.serving.begin_run]
  have hend : ∀ {w : FileService}, wp (vfsMountEndOperation (some m)) (fun _ y => y = x.withWorld w) (fun _ _ => False)
      ((x.opened m).withWorld w) := by
    intro w
    unfold wp
    rw [h.serving.end_run w]
  have hnormal : wp (resolveNormalized m normalized)
      (fun object u => ∃ w, u = (x.opened m).withWorld w ∧ Quiet x.world w ∧
        walkObject x.world.mount.geometry T.items rootObject (components normalized) = .ok object.toVfsObject)
      (fun e u => ∃ w, u = (x.opened m).withWorld w ∧ Quiet x.world w ∧
        (walkObject x.world.mount.geometry T.items rootObject (components normalized) = .error e ∨ ¬x.world.Room 1)) (x.opened m) := by
    unfold wp
    rw [resolveNormalized_eq hlookup ho]
    show wp (callback _) _ _ _
    rw [callback, wp_zoom, show (x.opened m).world = x.world from counted_world]
    exact wp_mono hwalk (fun object w hw => ⟨w, rfl, hw⟩) fun e w hw => ⟨w, rfl, hw⟩
  unfold vfsPathResolve
  rw [failIf_pass (fun hx => by cases hx), wp_bind, wp_get]
  dsimp only
  rw [hv, ofExcept_ok_bind, hn, ofExcept_ok_bind, wp_bind]
  refine wp_mono hbegin (fun _ u hu => ?_) fun _ _ hx => hx.elim
  subst hu
  rw [wp_bind, wp_attempt]
  refine wp_mono hnormal ?_ ?_
  · rintro object u ⟨w, hu, hw, hok⟩
    subst hu
    rw [wp_bind, wp_attempt]
    refine wp_mono hend (fun _ y hy => ?_) fun _ _ hx => hx.elim
    subst hy
    exact ⟨⟨hw, rfl⟩, hok⟩
  · rintro e u ⟨w, hu, hw, herror⟩
    subst hu
    rw [wp_bind, wp_attempt]
    refine wp_mono hend (fun _ y hy => ?_) fun _ _ hx => hx.elim
    subst hy
    exact ⟨⟨hw, rfl⟩, herror⟩

end VfsSystem
open VfsSystem

namespace FileService
variable {s : FileService} {T : Tree} {d e : Nat}

theorem Consistent.leads_dirs (h : Consistent s T) (hd : T.dirs d) {comps : List Text} (hl : Leads s d comps e) : T.dirs e := by
  induction hl with
  | here => exact hd
  | down _ hholds hk _ ih =>
    cases (h.holds hd).mp hholds with
    | file => cases hk
    | directory hi hp => exact ih (h.catalog.closed hd hi hp)

theorem Consistent.lookedUp_eq (h : Consistent s T) (hd : T.dirs d) {entry : DirectoryEntry}
    (hname : canonicalComponent component = .ok entry.primary.name) (hholds : Holds s d entry) :
    lookedUp s.mount.geometry T.items d component = .ok (objectOf s.mount.geometry (d, entry)) := by
  unfold lookedUp
  rw [hname]
  show (findIn T.items d entry.primary.name >>= _) = _
  rw [(findIn_iff (h.describes.tidy hd)).mpr ⟨(h.holds hd).mp hholds, rfl⟩]
  rfl

theorem objectOf_directoryEntry {g : Geometry} {c : Nat} {entry : DirectoryEntry} (hk : entry.kind = .directory) :
    objectOf g (c, entry) = ⟨entry.primary.firstCluster, .directory⟩ := if_pos hk

theorem Consistent.walkObject_append (h : Consistent s T) (hd : T.dirs d) {comps more : List Text} (hl : Leads s d comps e) :
    walkObject s.mount.geometry T.items ⟨d, .directory⟩ (comps ++ more) = walkObject s.mount.geometry T.items ⟨e, .directory⟩ more := by
  induction hl with
  | here => rfl
  | @down d _ component rest entry hname hholds hk _ ih =>
    rw [List.cons_append, walkObject, if_neg (not_not.mpr rfl), h.lookedUp_eq hd hname hholds, objectOf_directoryEntry hk]
    exact ih (h.leads_dirs hd (.down hname hholds hk .here))

theorem Consistent.walkObject_leads (h : Consistent s T) : ∀ {comps : List Text} {d : Nat} {object : VfsObject}, T.dirs d →
    walkObject s.mount.geometry T.items ⟨d, .directory⟩ comps = .ok object → object.kind = .directory → Leads s d comps object.identity
  | [], d, object, _, hw, _ => by
    cases hw
    exact .here
  | component :: rest, d, object, hd, hw, hobject => by
    rw [walkObject, if_neg (not_not.mpr rfl)] at hw
    obtain ⟨next, hnext, hrest⟩ := of_bind_ok hw
    obtain ⟨name, hname, hl⟩ := of_bind_ok hnext
    obtain ⟨entry, hentry, hl⟩ := of_bind_ok hl
    cases hl
    obtain ⟨he, rfl⟩ := (findIn_iff (h.describes.tidy hd)).mp hentry
    have hk : entry.kind = .directory := by
      by_contra hne
      have hfile : (objectOf s.mount.geometry (d, entry)).kind ≠ .directory := by
        unfold objectOf
        rw [if_neg hne]
        exact nofun
      rcases rest with - | ⟨component', rest⟩
      · cases hrest
        exact hfile hobject
      · rw [walkObject, if_pos hfile] at hrest
        cases hrest
    rw [objectOf_directoryEntry hk] at hrest
    have hdown : T.dirs entry.primary.firstCluster := h.leads_dirs hd (.down hname ((h.holds hd).mpr he) hk .here)
    exact .down hname ((h.holds hd).mpr he) hk (h.walkObject_leads hdown hrest hobject)

theorem canonicalComponent_ok (hzero : 0 ∉ component) (h : canonicalComponent component = .ok name) :
    nameCanonicalize83 component = .ok name := by
  unfold canonicalComponent at h
  split at h
  · cases h
  · rwa [show component.takeWhile (· ≠ 0) = component from cString_eq hzero] at h

theorem canonical_undotted (h : nameCanonicalize83 component = .ok name)
    (hdot : ascii '.' ∉ component) : displayBaseName name = component.map upperCase ∧ extensionOf name = [] := by
  obtain ⟨base, dotted, hparts, rfl, rfl⟩ := nameCanonicalize83_iff.mp h
  have hsupported := supported_map hparts.base
  cases dotted with
  | none =>
    refine ⟨displayBaseName_padName (by simpa using hparts.baseLength) hsupported, ?_⟩
    exact extensionOf_padName (Nat.zero_le _) nofun
  | some extension => exact absurd (List.mem_append_right _ List.mem_cons_self) hdot

theorem canonicalComponent_base (h : validStoredName name = true) (hextension : extensionOf name = []) :
    canonicalComponent (displayBaseName name) = .ok name := by
  obtain ⟨hparts, -, hbytes, -⟩ := padName_parts h
  have hzero : 0 ∉ displayBaseName name := fun hz => (supportedNameByte_ne (hbytes 0 hz)).1 rfl
  have hlength := hparts.baseLength
  have hcanonical := nameCanonicalize83_renderName h
  rw [renderName, if_pos hextension] at hcanonical
  unfold canonicalComponent
  rw [if_neg, show (displayBaseName name).takeWhile (· ≠ 0) = displayBaseName name from cString_eq hzero]
  · exact hcanonical
  · rintro (hnil | hlong)
    · exact hparts.nonempty hnil
    · omega

theorem base_slice {name' : Name} (h : validStoredName name = true) (h' : validStoredName name' = true)
    (hbase : displayBaseName name = displayBaseName name') : name.slice 0 8 = name'.slice 0 8 := by
  obtain ⟨-, hpad, -, -⟩ := padName_parts h
  obtain ⟨-, hpad', -, -⟩ := padName_parts h'
  refine toList_injective ?_
  rw [← hpad, ← hpad', padName_base _ _ (displayBaseName_length name), padName_base _ _ (displayBaseName_length name'), hbase]

end FileService

namespace FileView
open FileService DisplaySafe Labels
variable {service : FileViewService} {s : FileService} {live : Nat → Prop} {T : Tree} {d : Nat} {entries : List ListedEntry}
  {made : List DisplaySafeEntry}

/-- The entries of a directory whose base names are all different. -/
structure Plain (entries : List ListedEntry) : Prop where
  presentable : ∀ listed ∈ entries, Presentable listed
  identities : (entries.map ListedEntry.objectIdentity).Nodup
  names : (entries.map ListedEntry.displayBaseName).Nodup

theorem listEntry_name {cluster : Nat} {entry : DirectoryEntry} {listed : ListedEntry} (h : listEntry s cluster entry = .ok listed) :
    listed.displayBaseName = displayBaseName entry.primary.name := by
  unfold listEntry at h
  dsimp only at h
  split at h
  · cases h
    rfl
  · obtain ⟨_, -, hok⟩ := of_bind_ok h
    cases hok
    rfl

theorem entriesOf_nodup (items : Nat → Item) : (entriesOf items).Nodup := by
  have hslot : ∀ (i : Nat) (e : DirectoryEntry), e ∈ (items i).entry i → e.primarySlot = i := by
    intro i e he
    cases hitem : items i <;> simp only [hitem, Item.entry, Option.mem_def, Option.some.injEq, reduceCtorEq] at he <;> subst he <;> rfl
  exact List.Nodup.filterMap (fun i j e hi hj => (hslot i e hi).symm.trans (hslot j e hj)) List.nodup_range

theorem recordsOf_nodup (d : Nat) (items : Nat → Item) : (recordsOf [(d, entriesOf items)]).Nodup := by
  unfold recordsOf
  rw [List.flatMap_singleton]
  exact ((entriesOf_nodup items).filter _).map fun _ _ h => (Prod.mk.inj h).2

theorem listed_map {α : Type} {records : List (Nat × DirectoryEntry)} {f : Nat × DirectoryEntry → α} {g : ListedEntry → α}
    (h : Listed s records entries) (hfg : ∀ r listed, listEntry s r.1 r.2 = .ok listed → g listed = f r) : entries.map g = records.map f := by
  induction h with
  | nil => rfl
  | cons hlisted _ ih => rw [List.map_cons, List.map_cons, ih, hfg _ _ hlisted]

theorem plain_listed_of_sound (h : Sound s live T) (hd : T.dirs d) (he : Listed s (recordsOf [(d, entriesOf (T.items d))]) entries) :
    Plain entries := by
  have hc := h.toConsistent
  have hentry : ∀ r ∈ recordsOf [(d, entriesOf (T.items d))], r.1 = d ∧ EntryOf (T.items d) r.2 := fun r hr =>
    (hc.lists hd).mp (hc.recorded hd hr)
  refine ⟨listed_presentable (hc.scanned hd) he, ?_, ?_⟩
  · rw [listed_map he fun r listed hlisted => congrArg VfsObject.identity (listEntry_object hlisted)]
    refine (recordsOf_nodup d _).map_on fun r hr r' hr' hsame => ?_
    obtain ⟨rfl, her⟩ := hentry r hr
    obtain ⟨hr1, her'⟩ := hentry r' hr'
    refine Prod.ext hr1.symm (hc.object_unique hd hd her her' ?_).2
    rw [hr1] at hsame
    exact hsame
  · rw [listed_map he fun r listed hlisted => listEntry_name hlisted]
    refine (recordsOf_nodup d _).map_on fun r hr r' hr' hsame => ?_
    obtain ⟨rfl, her⟩ := hentry r hr
    obtain ⟨hr1, her'⟩ := hentry r' hr'
    obtain ⟨hi, hp⟩ := her.named
    obtain ⟨hi', hp'⟩ := her'.named
    have hsound {j : Nat} (hj : j < 128) := (hc.describes.tidy hd).sound hj
    have hslot := h.distinguished _ hd _ _ _ _ hi hi' hp hp' (base_slice ((hsound hi).name hp) ((hsound hi').name hp') hsame)
    refine Prod.ext hr1.symm (her.unique (hc.describes.tidy hd) her' ?_)
    rw [← hslot] at hp'
    exact congrArg Primary.name (hp.unique hp')

theorem displaySafeEntryConvert_valid {source : DisplaySafeSourceEntry}
    (h : displaySafeEntryConvert source = .ok entry) : validateEntry entry = .ok () := by
  obtain ⟨length, hlength, rfl⟩ := displaySafeEntryConvert_ok h
  have hchecks : ¬(source.objectHandle = 0 ∨ validKind source.objectKind = false ∨ foreignAttributes source.genericAttributes = true ∨
      foreignOperations source.allowedOperations = true ∨
      (source.objectKind = displaySafeRegularFile ∧ source.typeIconCapability = 0)) := by
    intro hbad
    unfold displaySafeEntryConvert at h
    rw [if_pos hbad] at h
    cases h
  simp only [not_or] at hchecks
  obtain ⟨hhandle, hkind, hattributes, hoperations, hfile⟩ := hchecks
  obtain ⟨hpos, hlt, hbytes, hend⟩ := validateBaseName_iff.mp hlength
  have hcapacity : displaySafeNameCapacity = 64 := rfl
  have hbyte : ∀ i, i ≤ length → (convertedEntry source length).displayName.byte i = source.baseName i := by
    intro i hi
    rw [Bytes.byte_of_lt (by omega)]
    exact if_pos (show i < length + 1 by omega)
  refine validateEntry_iff.mpr ⟨⟨?_, hfile, rfl⟩, validateBaseName_iff.mpr ⟨hpos, hlt, fun i hi => ?_, ?_⟩⟩
  · rintro (hx | hx | hx | hx | hx | hx)
    · exact hx rfl
    · exact hx rfl
    · exact hhandle hx
    · exact hkind hx
    · exact hattributes hx
    · exact hoperations hx
  · rw [hbyte i (le_of_lt hi)]
    exact hbytes i hi
  · exact (hbyte length le_rfl).trans hend

theorem Plain.bearing (h : Plain entries) (hmade : Presents service invalidTypeIconCapability entries made) :
    List.Forall₂ Bears entries made := by
  refine List.forall₂_iff_zip.mpr ⟨hmade.length_eq, fun {candidate entry} hpair => ?_⟩
  exact makeSafeEntry_named ((List.forall₂_iff_zip.mp hmade).2 hpair) (h.presentable candidate (List.of_mem_zip hpair).1).bytes

theorem Plain.disambiguate (h : Plain entries) (hmade : Presents service invalidTypeIconCapability entries made) {workspaceCount : Nat}
    (hle : made.length ≤ workspaceCount) : displaySafeEntriesDisambiguate workspaceCount made = (.ok (), made) := by
  have hitems := itemsOf_bearing (h.bearing hmade)
  have hnames : (made.map nameOf).Nodup := by
    have hsnd := congrArg (List.map Prod.snd) hitems
    rw [itemsOf, candidateItems, List.map_map, List.map_map] at hsnd
    rw [show made.map nameOf = entries.map ListedEntry.displayBaseName from hsnd]
    exact h.names
  have hhandles : (made.map DisplaySafeEntry.objectHandle).Nodup := by
    have hfst := congrArg (List.map Prod.fst) hitems
    rw [itemsOf, candidateItems, List.map_map, List.map_map] at hfst
    rw [show made.map DisplaySafeEntry.objectHandle = entries.map ListedEntry.objectIdentity from hfst]
    exact h.identities
  have hrank : ∀ entry ∈ made, rankIn made entry = 1 := by
    intro entry hentry
    unfold rankIn rank
    rw [Nat.add_eq_right, List.countP_eq_zero]
    intro item hitem hlower
    obtain ⟨other, hother, rfl⟩ := List.mem_map.mp hitem
    simp only [decide_eq_true_eq] at hlower
    obtain ⟨hname, hlt⟩ := hlower
    rw [List.inj_on_of_nodup_map hnames hother hentry hname] at hlt
    exact lt_irrefl _ hlt
  have hseparable : Separable workspaceCount made := by
    refine ⟨hle, fun entry hentry => ?_, hhandles, fun entry hentry => ?_⟩
    · obtain ⟨candidate, hpair⟩ : ∃ candidate, (candidate, entry) ∈ entries.zip made := by
        have hmem : entry ∈ (entries.zip made).map Prod.snd := by
          rw [List.map_snd_zip hmade.length_eq.ge]
          exact hentry
        obtain ⟨⟨candidate, _⟩, hpair, rfl⟩ := List.mem_map.mp hmem
        exact ⟨candidate, hpair⟩
      have hsafe := (List.forall₂_iff_zip.mp hmade).2 hpair
      unfold makeSafeEntry at hsafe
      obtain ⟨_, -, hsafe⟩ := of_bind_ok hsafe
      exact displaySafeEntryConvert_valid hsafe
    · rw [hrank entry hentry]
      rfl
  rw [disambiguate_separable hseparable]
  refine congrArg (Prod.mk _) ((List.map_congr_left fun entry hentry => ?_).trans (List.map_id made))
  rw [labelled, hrank entry hentry]
  rfl

section Snapshots
variable {μ ρ : Type} [DecidableEq μ] [DecidableEq ρ] {x y : VfsSystem μ ρ FileService} {m : μ}

theorem mapM_of_forall₂ {α β : Type} {f : α → Except IosError β} {l : List α} {l' : List β}
    (h : List.Forall₂ (fun a b => f a = .ok b) l l') : l.mapM f = .ok l' := by
  induction h with
  | nil => rfl
  | cons hhead _ ih =>
    rw [List.mapM_cons, hhead, ih]
    rfl

theorem snapshot_spec {pages : List (Nat × List DirectoryEntry)} (hm : s.Mounted) (hi : s.initialized = true) (h : Scanned s d pages)
    (he : Listed s (recordsOf pages) entries) (hplain : Plain entries)
    (hmade : Presents service invalidTypeIconCapability entries made) (hx : Quiet s x.world) :
    wp (snapshotDirectory service (some FileService.enumerate) m d)
      (fun r y => (entries.length ≤ fileViewDirectoryCapacity ∧ r = (entries, made)) ∧ Quiet s y.world ∧ x.Steady m y)
      (fun e y => (Failing s d x m e ∨ fileViewDirectoryCapacity < entries.length) ∧ Quiet s y.world ∧ x.Steady m y) x := by
  have hcapacity : fileViewDirectoryCapacity = 64 := rfl
  unfold snapshotDirectory
  rw [wp_bind]
  refine wp_mono (h.vfsPage hm hi he (by decide) hx) (fun r y ⟨hr, hy⟩ => ?_) fun e y ⟨herror, hy⟩ => ⟨Or.inl herror, hy⟩
  subst hr
  dsimp only [pageOf]
  rw [failIf_pass (not_lt.mpr (List.length_take_le _ _)), List.drop_zero, Nat.zero_add]
  by_cases hlong : fileViewDirectoryCapacity < entries.length
  · rw [if_pos hlong, failIf_bind (by decide)]
    exact ⟨Or.inr hlong, hy⟩
  · have hall : (entries.mapM fun candidate => do
        validateVfsEntry candidate
        makeSafeEntry service candidate invalidTypeIconCapability) = .ok made := by
      refine mapM_of_forall₂ (List.forall₂_iff_zip.mpr ⟨hmade.length_eq, fun {candidate entry} hpair => ?_⟩)
      rw [(hplain.presentable candidate (List.of_mem_zip hpair).1).validate]
      exact (List.forall₂_iff_zip.mp hmade).2 hpair
    rw [if_neg hlong, failIf_pass (not_not.mpr rfl), List.take_of_length_le (not_lt.mp hlong), hall, ofExcept_ok_bind,
      hplain.disambiguate hmade (hmade.length_eq ▸ not_lt.mp hlong)]
    exact ⟨⟨not_lt.mp hlong, rfl⟩, hy⟩

theorem foldByte_upperCase (b : UInt8) : foldByte (upperCase b) = foldByte b := by
  have hall : ∀ n : Fin 256, foldByte (upperCase (.ofNat n)) = foldByte (.ofNat n) := by decide +kernel
  have hb := hall ⟨b.toNat, b.toNat_lt⟩
  rwa [UInt8.ofNat_toNat] at hb

theorem Plain.selects (h : Plain entries) (hmade : Presents service invalidTypeIconCapability entries made)
    {pair : ListedEntry × DisplaySafeEntry} (hpair : pair ∈ entries.zip made)
    (hequal : pair.1.displayBaseName = component.map upperCase) : selectFrom component none (entries.zip made) = .ok (some pair.1) := by
  have hbears := List.forall₂_iff_zip.mp (h.bearing hmade)
  have hfold : ∀ pair ∈ entries.zip made, (nameOf pair.2).map foldByte = pair.1.displayBaseName := by
    intro pair hpair
    rw [(hbears.2 hpair).2]
    refine (List.map_congr_left fun b hb => ?_).trans (List.map_id _)
    exact (foldByte_supported ((h.presentable pair.1 (List.of_mem_zip hpair).1).bytes b hb)).1
  have hnames : ((entries.zip made).map fun pair => pair.1.displayBaseName).Nodup := by
    have hfst : (entries.zip made).map Prod.fst = entries := List.map_fst_zip hmade.length_eq.le
    have hnodup := h.names
    rw [← hfst, List.map_map] at hnodup
    exact hnodup
  have hpairs : (entries.zip made).Pairwise fun pair other => displayComponentEqual (nameOf pair.2) (nameOf other.2) = false := by
    refine (List.pairwise_map.mp hnames).imp_of_mem fun {pair other} hpair hother hne => ?_
    rw [Bool.eq_false_iff]
    intro hsame
    rw [displayComponentEqual_iff, hfold pair hpair, hfold other hother] at hsame
    exact hne hsame
  refine selectFrom_unique hpairs hpair (displayComponentEqual_iff.mpr ?_)
  have hfolded := congrArg (List.map foldByte) hequal
  rw [List.map_map, show foldByte ∘ upperCase = foldByte from funext foldByte_upperCase] at hfolded
  rw [hfold pair hpair, ← hfolded]
  refine ((List.map_congr_left fun b hb => ?_).trans (List.map_id _)).symm
  exact (foldByte_supported ((h.presentable pair.1 (List.of_mem_zip hpair).1).bytes b hb)).1

/-- A listing has room for all records of the directory. -/
def Brief (s : FileService) (d : Nat) : Prop := ∀ pages, Scanned s d pages → (recordsOf pages).length ≤ fileViewDirectoryCapacity

structure Presented (service : FileViewService) (s : FileService) (T : Tree) (d : Nat) (entries : List ListedEntry)
    (made : List DisplaySafeEntry) : Prop where
  listed : Listed s (recordsOf [(d, entriesOf (T.items d))]) entries
  plain : Plain entries
  presents : Presents service invalidTypeIconCapability entries made

theorem exists_presented (h : Sound s live T) (hd : T.dirs d) (hready : Ready service) : ∃ entries made, Presented service s T d entries made := by
  obtain ⟨entries, he⟩ := (h.scanned hd).listed
  have hplain := plain_listed_of_sound h hd he
  obtain ⟨made, hmade⟩ := exists_presents hready hplain.presentable
  exact ⟨entries, made, he, hplain, hmade⟩

theorem Presented.pair (h : Presented service s T d entries made) {entry : DirectoryEntry} (he : EntryOf (T.items d) entry) :
    ∃ pair ∈ entries.zip made, listEntry s d entry = .ok pair.1 := by
  have hrecord : (d, entry) ∈ recordsOf [(d, entriesOf (T.items d))] := by
    refine mem_recordsOf.mpr ⟨_, List.mem_singleton_self _, rfl, he.mem, ?_⟩
    cases he <;> exact nofun
  obtain ⟨i, hi, hget⟩ := List.getElem_of_mem hrecord
  have hlt : i < entries.length := h.listed.length_eq ▸ hi
  have hmade : i < made.length := h.presents.length_eq ▸ hlt
  refine ⟨(entries[i], made[i]), List.mem_iff_getElem.mpr ⟨i, by rw [List.length_zip]; omega, List.getElem_zip⟩, ?_⟩
  have hlisted := List.Forall₂.get h.listed hi hlt
  rwa [List.get_eq_getElem, List.get_eq_getElem, hget] at hlisted

theorem Presented.record (h : Presented service s T d entries made) (hs : Sound s live T) (hd : T.dirs d)
    {pair : ListedEntry × DisplaySafeEntry} (hpair : pair ∈ entries.zip made) :
    ∃ entry, EntryOf (T.items d) entry ∧ listEntry s d entry = .ok pair.1 := by
  obtain ⟨i, hi, hget⟩ := List.getElem_of_mem (List.of_mem_zip hpair).1
  have hlt : i < (recordsOf [(d, entriesOf (T.items d))]).length := h.listed.length_eq ▸ hi
  have hlisted := List.Forall₂.get h.listed hlt hi
  obtain ⟨hcluster, hentry⟩ := (hs.lists hd).mp (hs.recorded hd (List.getElem_mem hlt))
  rw [List.get_eq_getElem, List.get_eq_getElem, hget] at hlisted
  rw [hcluster] at hlisted
  exact ⟨_, hentry, hlisted⟩


theorem resolveDisplay_walk (h : Sound s live T) (hready : Ready service) {e : Nat} {more : List Text}
    {Q : ResolvedObject μ → VfsSystem μ ρ FileService → Prop} {E : IosError → VfsSystem μ ρ FileService → Prop}
    (hE : ∀ d err y, Failing s d x m err → E err y)
    (hrest : ∀ y resolved, Quiet s y.world → x.Steady m y → resolved.kind = .directory → resolved.objectIdentity = e →
      wp (resolveDisplayFrom service (some FileService.enumerate) m e resolved more) Q E y) : ∀ {comps : List Text} {d : Nat}
    {resolved : ResolvedObject μ} {y : VfsSystem μ ρ FileService}, T.dirs d → Leads s d comps e → (∀ c ∈ comps, 0 ∉ c ∧ ascii '.' ∉ c) →
    (∀ before d', before <+: comps → before ≠ comps → Leads s d before d' → Brief s d') → resolved.kind = .directory → resolved.objectIdentity = d →
    Quiet s y.world → x.Steady m y → wp (resolveDisplayFrom service (some FileService.enumerate) m d resolved (comps ++ more)) Q E y
  | [], d, resolved, y, hd, hl, _, _, hkind, hid, hy, hsteady => by
    cases hl
    exact hrest y resolved hy hsteady hkind hid
  | c :: comps, d, resolved, y, hd, hl, hdots, hbrief, hkind, hid, hy, hsteady => by
    have hc := h.toConsistent
    cases hl with
    | @down _ _ _ _ entry hname hholds hk hl =>
      obtain ⟨entries, made, hpresented⟩ := exists_presented h hd hready
      obtain ⟨he, hplain, hmade⟩ := id hpresented
      obtain ⟨hzero, hdot⟩ := hdots c List.mem_cons_self
      have hfew := hbrief [] d List.nil_prefix (List.cons_ne_nil _ _).symm .here _ (hc.scanned hd)
      rw [he.length_eq] at hfew
      rw [List.cons_append, resolveDisplayFrom, wp_bind]
      refine wp_mono (snapshot_spec hc.mounted hc.initialized (hc.scanned hd) he hplain hmade hy)
        (fun r z hx => ?_) fun err z hx => ?_
      · obtain ⟨⟨_, hr⟩, hz, hsteady'⟩ := hx
        subst hr
        obtain ⟨pair, hpair, hlisted⟩ := hpresented.pair ((hc.holds hd).mp hholds)
        have hbase : pair.1.displayBaseName = c.map upperCase := by
          rw [listEntry_name hlisted]
          exact (canonical_undotted (canonicalComponent_ok hzero hname) hdot).1
        have hobject := listEntry_object hlisted
        rw [objectOf_directoryEntry hk] at hobject
        obtain ⟨hidentity, hdirectory⟩ := VfsObject.mk.inj hobject
        dsimp only
        rw [hplain.selects hmade hpair hbase, ofExcept_ok_bind]
        dsimp only
        rw [failIf_pass fun hfail => hfail.2 hdirectory, hidentity]
        have hdown : Leads s d [c] entry.primary.firstCluster := .down hname hholds hk .here
        exact resolveDisplay_walk h hready hE hrest (hc.leads_dirs hd hdown) hl (fun c' hc' => hdots c' (List.mem_cons_of_mem _ hc'))
          (fun before d' hbefore hne hl' => hbrief (c :: before) d' (List.cons_prefix_cons.mpr ⟨rfl, hbefore⟩)
            (fun hx => hne (List.cons.inj hx).2) (.down hname hholds hk hl'))
          hdirectory rfl hz (hsteady.trans hsteady')
      · obtain ⟨herror, hz, hsteady'⟩ := hx
        refine hE d err z ?_
        rcases herror with hfails | hlong
        · exact hfails.steady hsteady
        · omega

end Snapshots

section Consoles
variable {μ ρ : Type} [DecidableEq μ] [DecidableEq ρ] {x y : VfsSystem μ ρ FileService} {m : μ} {context : MountedContext μ}
variable {stack : List Text} {capacity : Nat} {candidates : List ListedEntry} {w : FileService}

/-- The systems and the contexts that a console reaches on mount `m`: the volume was opened, calls changed it or left it as it is,
    and other directories were made current. -/
inductive ConsoleRun (m : μ) : VfsSystem μ ρ FileService → MountedContext μ → (Nat → Prop) → Prop where
  | started {x y : VfsSystem μ ρ FileService} {context : MountedContext μ} : Opened x.world → x.Serves m →
    vfsPathContextInitialize (some m) x = (.ok context, y) → ConsoleRun m y context (· = rootCluster)
  | done {x : VfsSystem μ ρ FileService} {context : MountedContext μ} {live : Nat → Prop} {r : Request} {v : Option VfsObject}
    {t : FileService} : ConsoleRun m x context live → Done x.world live r v t →
    ConsoleRun m (x.withWorld t) context (r.after x.world live v)
  | idle {x : VfsSystem μ ρ FileService} {context : MountedContext μ} {live : Nat → Prop} {t : FileService} :
    ConsoleRun m x context live → Idle x.world live t → ConsoleRun m (x.withWorld t) context live
  | read {x : VfsSystem μ ρ FileService} {context : MountedContext μ} {live : Nat → Prop} {t : FileService} :
    ConsoleRun m x context live → Quiet x.world t → ConsoleRun m (x.withWorld t) context live
  | entered {x y : VfsSystem μ ρ FileService} {context context' : MountedContext μ} {live : Nat → Prop} {path : Option Text} :
    ConsoleRun m x context live → vfsPathSetCurrent (some context) path x = (.ok context', y) → ConsoleRun m y context' live

structure Console (m : μ) (x : VfsSystem μ ρ FileService) (context : MountedContext μ) (live : Nat → Prop) : Prop where
  sound : ∃ T, Sound x.world live T
  serves : x.Serves m
  mount : context.mount = some m
  normal : ∃ stack, Vfs.Normal context.currentDirectory stack

omit [DecidableEq μ] [DecidableEq ρ] in
theorem validateContext_ok {m' : μ} (hmount : context.mount = some m) (h : x.validateContext context = .ok m') : m' = m := by
  unfold validateContext at h
  rw [hmount] at h
  dsimp only at h
  split at h
  · cases h
  · exact (Except.ok.inj h).symm

theorem resolve_ok {T : Tree} (h : x.Serves m) (hc : Consistent x.world T) (hmount : context.mount = some m) {path : Option Text}
    {object : CountedObject} (hrun : vfsPathResolve (some context) path true x = (.ok object, y)) :
    x.validateContext context = .ok m ∧ (Quiet x.world y.world ∧ y = x.withWorld y.world) ∧
      ∃ normalized, pathNormalize context.currentDirectory path pathCapacity = .ok normalized ∧
        walkObject x.world.mount.geometry T.items rootObject (components normalized) = .ok object.toVfsObject := by
  have hchecks := hrun
  unfold vfsPathResolve at hchecks
  obtain ⟨-, hchecks⟩ := of_failIf_run hchecks
  rw [bind_ok (show get x = (.ok x, x) from rfl)] at hchecks
  obtain ⟨m', hv, hchecks⟩ := of_ofExcept_run hchecks
  obtain ⟨normalized, hn, -⟩ := of_ofExcept_run hchecks
  obtain rfl := validateContext_ok hmount hv
  obtain ⟨hy, hwalk⟩ := wp_ok (h.resolve_spec hc hv hn) hrun
  exact ⟨hv, hy, normalized, hn, hwalk⟩

theorem sound_read {s t : FileService} {T : Tree} (h : Sound s live T) (hq : Quiet s t) : Sound t live T :=
  ⟨h.toConsistent.quiet hq, h.live, h.distinguished⟩

theorem ConsoleRun.console (h : ConsoleRun m x context live) : Console m x context live := by
  induction h with
  | @started x y context ho hserves hstart =>
    unfold vfsPathContextInitialize at hstart
    rw [bind_ok (show get x = (.ok x, x) from rfl)] at hstart
    obtain ⟨o, hroot, -⟩ := hserves.root
    dsimp only at hstart
    rw [hroot] at hstart
    obtain ⟨-, hstart⟩ := of_failIf_run hstart
    cases hstart
    exact ⟨⟨_, .opened ho⟩, hserves, rfl, [], normal_root⟩
  | done _ hd ih =>
    obtain ⟨⟨T, hT⟩, hserves, hmount, hnormal⟩ := ih
    obtain ⟨T', hT', -⟩ := hT.done hd
    exact ⟨⟨T', hT'⟩, hserves.withWorld _, hmount, hnormal⟩
  | idle _ hi ih =>
    obtain ⟨⟨T, hT⟩, hserves, hmount, hnormal⟩ := ih
    exact ⟨⟨T, hT.idle hi⟩, hserves.withWorld _, hmount, hnormal⟩
  | read _ hq ih =>
    obtain ⟨⟨T, hT⟩, hserves, hmount, hnormal⟩ := ih
    exact ⟨⟨T, sound_read hT hq⟩, hserves.withWorld _, hmount, hnormal⟩
  | @entered x y context context' live path _ hset ih =>
    obtain ⟨⟨T, hT⟩, hserves, hmount, hnormal⟩ := ih
    unfold vfsPathSetCurrent at hset
    rw [bind_ok (show get x = (.ok x, x) from rfl)] at hset
    obtain ⟨_, -, hset⟩ := of_ofExcept_run hset
    obtain ⟨normalized, hn, hset⟩ := of_ofExcept_run hset
    obtain ⟨object, z, hresolve, hset⟩ := of_bind_run hset
    obtain ⟨-, hset⟩ := of_failIf_run hset
    cases hset
    obtain ⟨-, ⟨hq, hz⟩, -⟩ := resolve_ok hserves hT.toConsistent hmount hresolve
    rcases path with - | path
    · cases hn
    obtain ⟨stack, -, hstack⟩ := Vfs.Normal.of_normalize hn
    exact ⟨⟨T, sound_read hT hq⟩, by rw [hz]; exact hserves.withWorld _, hmount, stack, hstack _⟩

theorem supported_printable {b : UInt8} : supportedNameByte b = true → invalidPathByte b = false :=
  Bytes.forall_byte (P := fun b => supportedNameByte b = true → invalidPathByte b = false) (by decide +kernel) b

theorem label_segment {listed : ListedEntry} (h : Presentable listed) : IsSegment (ascii '/') listed.displayBaseName ∧
    Vfs.Pushed listed.displayBaseName ∧ Vfs.Printable listed.displayBaseName := by
  have hdot : ascii '.' ∉ listed.displayBaseName := fun hx => (supportedNameByte_ne (h.bytes _ hx)).2.2.2.1 rfl
  refine ⟨⟨h.ne_nil, fun hx => ?_⟩, ⟨fun hx => ?_, fun hx => ?_⟩, fun b hb => supported_printable (h.bytes b hb)⟩
  · exact absurd (h.bytes _ hx) (by decide)
  · exact hdot (by rw [hx]; exact List.mem_cons_self)
  · exact hdot (by rw [hx]; exact List.mem_cons_self)

/-- A service that lists its current directory, whose path is `stack`: the labels `made` of the entries in `d`. -/
structure ListedCurrent (service : FileViewService) (m : μ) (x : VfsSystem μ ρ FileService) (context : MountedContext μ) (T : Tree)
    (live : Nat → Prop) (stack : List Text) (d : Nat) (candidates : List ListedEntry) (made : List DisplaySafeEntry) : Prop where
  ready : Ready service
  serves : x.Serves m
  sound : Sound x.world live T
  mount : context.mount = some m
  normal : Vfs.Normal context.currentDirectory stack
  root : context.mount = x.registry.root
  valid : x.validateContext context = .ok m
  leads : Leads x.world rootCluster stack d
  presented : Presented service x.world T d candidates made
  few : candidates.length ≤ fileViewDirectoryCapacity

theorem listed_current {T : Tree} {live : Nat → Prop} (hready : Ready service) (hserves : x.Serves m) (hT : Sound x.world live T)
    (hmount : context.mount = some m) (hnormal : Vfs.Normal context.currentDirectory stack)
    (hlist : fileViewListDirectoryPath service (some FileService.enumerate) context [ascii '.'] capacity x = (.ok made, y)) :
    ∃ d candidates, ListedCurrent service m x context T live stack d candidates made := by
  have hc := hT.toConsistent
  unfold fileViewListDirectoryPath at hlist
  obtain ⟨-, hlist⟩ := of_failIf_run hlist
  rw [bind_ok (show get x = (.ok x, x) from rfl)] at hlist
  obtain ⟨hroot, hlist⟩ := of_failIf_run hlist
  obtain ⟨directory, z, hresolve, hlist⟩ := of_bind_run hlist
  obtain ⟨hkind, hlist⟩ := of_failIf_run hlist
  rw [hmount] at hlist
  dsimp only at hlist
  obtain ⟨⟨found, shown⟩, u, hsnapshot, hlist⟩ := of_bind_run hlist
  obtain ⟨-, hlist⟩ := of_failIf_run hlist
  cases hlist
  obtain ⟨hv, ⟨hq, -⟩, normalized, hn, hwalk⟩ := resolve_ok hserves hc hmount hresolve
  rw [hnormal.self] at hn
  cases hn
  rw [show components (rendered (ascii '/') stack) = stack from segments_rendered fun c hc => (hnormal.components c hc).1] at hwalk
  have hleads := hc.walkObject_leads hc.describes.linked.root hwalk (not_not.mp hkind)
  have hd := hc.leads_dirs hc.describes.linked.root hleads
  obtain ⟨candidates, made', hpresented⟩ := exists_presented hT hd hready
  obtain ⟨⟨hfew, hmade⟩, -⟩ := wp_ok (snapshot_spec hc.mounted hc.initialized (hc.scanned hd) hpresented.listed hpresented.plain
    hpresented.presents hq) hsnapshot
  cases hmade
  exact ⟨_, _, hready, hserves, hT, hmount, hnormal, not_not.mp hroot, hv, hleads, hpresented, hfew⟩

theorem exists_paired {capability : Nat} (h : Presents service capability candidates made)
    (he : entry ∈ made) : ∃ candidate, (candidate, entry) ∈ candidates.zip made := by
  have hmem : entry ∈ (candidates.zip made).map Prod.snd := by
    rw [List.map_snd_zip h.length_eq.ge]
    exact he
  obtain ⟨⟨candidate, _⟩, hpair, rfl⟩ := List.mem_map.mp hmem
  exact ⟨candidate, hpair⟩

theorem makeSafeEntry_kind {candidate : ListedEntry} {capability : Nat}
    (h : makeSafeEntry service candidate capability = .ok entry) : entry.objectKind = displayKind candidate.kind := by
  unfold makeSafeEntry at h
  obtain ⟨_, -, h⟩ := of_bind_ok h
  obtain ⟨length, -, rfl⟩ := displaySafeEntryConvert_ok h
  rfl

theorem Presented.stands {T : Tree} {s : FileService} {d : Nat} (h : Presented service s T d candidates made)
    (he : entry ∈ made) : ∃ candidate, (candidate, entry) ∈ candidates.zip made ∧ Presentable candidate ∧
      Bears candidate entry ∧ entry.objectKind = displayKind candidate.kind := by
  obtain ⟨candidate, hpair⟩ := exists_paired h.presents he
  exact ⟨candidate, hpair, h.plain.presentable candidate (List.of_mem_zip hpair).1,
    (List.forall₂_iff_zip.mp (h.plain.bearing h.presents)).2 hpair,
    makeSafeEntry_kind ((List.forall₂_iff_zip.mp h.presents).2 hpair)⟩

/-- The object is the one that the entry stands for. -/
def Denoted (entry : DisplaySafeEntry) (object : ResolvedObject μ) : Prop :=
  object.objectIdentity = entry.objectHandle ∧ displayKind object.kind = entry.objectKind

omit [DecidableEq μ] [DecidableEq ρ] in
theorem not_room_of_failing {s : FileService} {d : Nat} {e : IosError} (h : Failing s d x m e) (hserving : x.Serving m) : ¬s.Room 1 := by
  rcases h with hmount | hroom
  · exact absurd hserving hmount.1
  · exact hroom.2

section Current
variable {T : Tree} {live : Nat → Prop} {stack : List Text} {d : Nat} (h : ListedCurrent service m x context T live stack d candidates made)
include h

omit [DecidableEq μ] [DecidableEq ρ] in
theorem ListedCurrent.dirs : T.dirs d := h.sound.toConsistent.leads_dirs h.sound.toConsistent.describes.linked.root h.leads

theorem ListedCurrent.resolves (he : entry ∈ made) (hfits : Vfs.Fits pathCapacity (stack ++ [nameOf entry])) (hdots : ∀ c ∈ stack, ascii '.' ∉ c)
    (hbrief : ∀ before d', before <+: stack → before ≠ stack → Leads x.world rootCluster before d' → Brief x.world d') (hw : Quiet x.world w) :
    wp (fileViewResolveDisplayPath service (some FileService.enumerate) context (nameOf entry)) (fun object _ => Denoted entry object)
      (fun _ _ => ¬x.world.Room 1) (x.withWorld w) := by
  have hc := h.sound.toConsistent
  obtain ⟨candidate, hpair, hpresentable, ⟨hhandle, hname⟩, hkind⟩ := h.presented.stands he
  obtain ⟨o, hroot, hobject⟩ := h.serves.root
  have hmounted : x.registry.root = some m := h.root.symm.trans h.mount
  have hgeneration : context.mountGeneration = (x.mounts m).generation := by
    have hv := h.valid
    unfold validateContext at hv
    rw [h.mount] at hv
    dsimp only at hv
    split at hv
    · cases hv
    · rename_i hchecks
      simp only [not_or, not_not] at hchecks
      exact hchecks.2.2.2.1
  have hnormalized : pathNormalize context.currentDirectory (some (nameOf entry)) pathCapacity =
      .ok (rendered (ascii '/') (stack ++ [nameOf entry])) := by
    rw [hname] at hfits ⊢
    exact h.normal.child (label_segment hpresentable) hfits
  have hsegments := h.normal.components_child (c := nameOf entry) (by rw [hname]; exact (label_segment hpresentable).1)
  have hchecked : ¬(context.mount ≠ some m ∨ context.mountGeneration ≠ (x.mounts m).generation) := by
    rintro (hx | hx)
    · exact hx h.mount
    · exact hx hgeneration
  unfold fileViewResolveDisplayPath
  rw [wp_bind, wp_get, show (x.withWorld w).registry.root = some m from hmounted]
  dsimp only
  rw [show (x.withWorld w).mounts m = x.mounts m from rfl, failIf_pass hchecked, hnormalized, ofExcept_ok_bind]
  unfold resolveNormalizedDisplayPath
  rw [wp_bind, wp_get, show ((x.withWorld w).mounts m).root = some o from hroot]
  dsimp only
  rw [show ((x.withWorld w).objects o).identity = rootCluster from congrArg VfsObject.identity hobject, hsegments]
  refine resolveDisplay_walk h.sound h.ready (fun d' err y hfails => not_room_of_failing hfails h.serves.serving)
    (fun y resolved hy hsteady _ _ => ?_) hc.describes.linked.root h.leads (fun c hc => ⟨fun hz => absurd ((h.normal.components c hc).2.2 0 hz) (by decide), hdots c hc⟩)
    hbrief rfl rfl hw ⟨rfl, fun _ => rfl⟩
  rw [resolveDisplayFrom, wp_bind]
  refine wp_mono (snapshot_spec hc.mounted hc.initialized (hc.scanned h.dirs) h.presented.listed h.presented.plain h.presented.presents hy)
    (fun r z hx => ?_) fun err z hx => ?_
  · obtain ⟨⟨_, hr⟩, _⟩ := hx
    subst hr
    have hequal : candidate.displayBaseName = (nameOf entry).map upperCase := by
      rw [hname, map_upperCase hpresentable.bytes]
    dsimp only
    rw [h.presented.plain.selects h.presented.presents hpair hequal, ofExcept_ok_bind]
    dsimp only
    rw [failIf_pass fun hfail => hfail.1 rfl]
    exact ⟨hhandle.symm, hkind.symm⟩
  · rcases hx.1 with hfails | hlong
    · exact not_room_of_failing (hfails.steady hsteady) h.serves.serving
    · exact absurd h.few (not_le.mpr hlong)

end Current

/-- No directory in `d` with the identity has an extension. -/
def Bare (s : FileService) (d identity : Nat) : Prop := ∀ record, Holds s d record → record.kind = .directory →
  record.primary.firstCluster = identity → extensionOf record.primary.name = []

/-- The labels show all of the directory. -/
def Lists (service : FileViewService) (s : FileService) (d : Nat) (labels : List DisplaySafeEntry) : Prop :=
  ∃ pages listed, Scanned s d pages ∧ Listed s (recordsOf pages) listed ∧ Presents service invalidTypeIconCapability listed labels

theorem listEntry_kind {s : FileService} {d : Nat} {record : DirectoryEntry} {candidate : ListedEntry}
    (h : listEntry s d record = .ok candidate) : candidate.kind = .directory ↔ record.kind = .directory := by
  have hobject := congrArg VfsObject.kind (listEntry_object h)
  dsimp only at hobject
  rw [hobject]
  unfold objectOf
  split
  · rename_i hk
    exact ⟨fun _ => hk, fun _ => rfl⟩
  · rename_i hne
    exact ⟨nofun, fun hk => absurd hk hne⟩

omit [DecidableEq μ] [DecidableEq ρ] in
theorem ListedCurrent.record {T : Tree} {live : Nat → Prop} {stack : List Text} {d : Nat} {candidates : List ListedEntry}
    {entry : DisplaySafeEntry} (h : ListedCurrent service m x context T live stack d candidates made) (he : entry ∈ made) (hkind : entry.objectKind = displaySafeDirectory) : ∃ record, Holds x.world d record ∧ record.kind = .directory ∧
      record.primary.firstCluster = entry.objectHandle ∧ displayBaseName record.primary.name = nameOf entry ∧
      validStoredName record.primary.name = true := by
  have hc := h.sound.toConsistent
  have hd := h.dirs
  obtain ⟨candidate, hpair, -, ⟨hhandle, hname⟩, hcandidate⟩ := h.presented.stands he
  obtain ⟨record, hentry, hlisted⟩ := h.presented.record h.sound hd hpair
  have hdirectory : candidate.kind = .directory := by
    rw [hkind] at hcandidate
    cases hk : candidate.kind with
    | directory => rfl
    | regularFile =>
      rw [hk] at hcandidate
      cases hcandidate
  have hobject := listEntry_object hlisted
  have hk := (listEntry_kind hlisted).mp hdirectory
  rw [objectOf_directoryEntry hk] at hobject
  obtain ⟨hi, hp⟩ := hentry.named
  refine ⟨record, (hc.holds hd).mpr hentry, hk, ?_, ?_, ((hc.describes.tidy hd).sound hi).name hp⟩
  · rw [hhandle]
    exact (congrArg VfsObject.identity hobject).symm
  · rw [hname]
    exact (listEntry_name hlisted).symm

theorem lists_spec {T : Tree} {live : Nat → Prop} {path normalized : Text} {e : Nat}
    (hready : Ready service) (hserves : x.Serves m) (hT : Sound x.world live T) (hv : x.validateContext context = .ok m)
    (hmount : context.mount = some m) (hroot : context.mount = x.registry.root)
    (hn : pathNormalize context.currentDirectory (some path) pathCapacity = .ok normalized)
    (hwalk : walkObject x.world.mount.geometry T.items rootObject (components normalized) = .ok ⟨e, .directory⟩) (he : T.dirs e)
    (hbrief : Brief x.world e) (hcapacity : fileViewDirectoryCapacity ≤ capacity) (hw : Quiet x.world w) :
    wp (fileViewListDirectoryPath service (some FileService.enumerate) context path capacity)
      (fun labels y => (∃ listed, Presented service x.world T e listed labels) ∧ Quiet x.world y.world ∧ y = x.withWorld y.world)
      (fun _ _ => ¬x.world.Room 1) (x.withWorld w) := by
  have hc := hT.toConsistent
  have hgeometry : (x.withWorld w).world.mount = x.world.mount := hw.mount
  unfold fileViewListDirectoryPath
  rw [failIf_pass (show ¬capacity = 0 by rintro rfl; exact absurd hcapacity (by decide)), wp_bind, wp_get,
    failIf_pass (show ¬context.mount ≠ (x.withWorld w).registry.root from not_not.mpr hroot), wp_bind]
  refine wp_mono ((hserves.withWorld w).resolve_spec (hc.quiet hw) hv hn) (fun object y ⟨⟨hy, hsame⟩, hfound⟩ => ?_)
    fun e' y ⟨_, herror⟩ => ?_
  · rw [hgeometry, hwalk] at hfound
    have hobject := (Except.ok.inj hfound).symm
    rw [failIf_pass (not_not.mpr (congrArg VfsObject.kind hobject)), hmount]
    dsimp only
    rw [show object.identity = e from congrArg VfsObject.identity hobject, wp_bind]
    obtain ⟨listed, shown, hpresented⟩ := exists_presented hT he hready
    have hfew := hbrief _ (hc.scanned he)
    rw [hpresented.listed.length_eq] at hfew
    have hserving : y.Serving m := by
      rw [hsame]
      exact ((hserves.withWorld w).withWorld y.world).serving
    refine wp_mono (snapshot_spec hc.mounted hc.initialized (hc.scanned he) hpresented.listed hpresented.plain hpresented.presents
      (hw.trans hy)) (fun r z ⟨⟨_, hr⟩, hz, hsteady⟩ => ?_) fun err z ⟨herror, _⟩ => ?_
    · subst hr
      have hlength := hpresented.presents.length_eq
      dsimp only
      rw [failIf_pass (by omega)]
      refine ⟨⟨listed, hpresented⟩, hz, ?_⟩
      have hworld := hsteady.2 hserving
      rw [hsame] at hworld
      exact hworld
    · rcases herror with hfails | hlong
      · exact not_room_of_failing hfails hserving
      · omega
  · rw [hgeometry, hwalk] at herror
    rcases herror with hx | hroom
    · cases hx
    · exact fun hx => hroom (hw.wrote.room hx)

theorem refuses_spec {T : Tree} {path normalized : Text} {e : IosError} (service : FileViewService)
    (hserves : x.Serves m) (hc : Consistent x.world T) (hv : x.validateContext context = .ok m) (hroot : context.mount = x.registry.root)
    (hn : pathNormalize context.currentDirectory (some path) pathCapacity = .ok normalized)
    (hwalk : walkObject x.world.mount.geometry T.items rootObject (components normalized) = .error e) (hcapacity : capacity ≠ 0)
    (hw : Quiet x.world w) : wp (fileViewListDirectoryPath service (some FileService.enumerate) context path capacity) (fun _ _ => False)
      (fun e' _ => e' = e ∨ ¬x.world.Room 1) (x.withWorld w) := by
  have hgeometry : (x.withWorld w).world.mount = x.world.mount := hw.mount
  unfold fileViewListDirectoryPath
  rw [failIf_pass hcapacity, wp_bind, wp_get, failIf_pass (show ¬context.mount ≠ (x.withWorld w).registry.root from not_not.mpr hroot),
    wp_bind]
  refine wp_mono ((hserves.withWorld w).resolve_spec (hc.quiet hw) hv hn) (fun object y ⟨_, hfound⟩ => ?_) fun e' y ⟨_, herror⟩ => ?_
  · rw [hgeometry, hwalk] at hfound
    cases hfound
  · rw [hgeometry, hwalk] at herror
    rcases herror with hx | hroom
    · exact Or.inl (Except.error.inj hx).symm
    · exact Or.inr fun hx => hroom (hw.wrote.room hx)

theorem Presented.lists {T : Tree} {s : FileService} {d : Nat} {listed : List ListedEntry} (h : Presented service s T d listed made)
    (hc : Consistent s T) (hd : T.dirs d) : Lists service s d made :=
  ⟨_, _, hc.scanned hd, h.listed, h.presents⟩

theorem ListedCurrent.relists {T : Tree} {live : Nat → Prop} {d : Nat}
    (h : ListedCurrent service m x context T live stack d candidates made) (he : entry ∈ made) (hfits : Vfs.Fits pathCapacity (stack ++ [nameOf entry]))
    (hkind : entry.objectKind = displaySafeDirectory) (hbare : Bare x.world d entry.objectHandle) (hbrief : Brief x.world entry.objectHandle)
    (hcapacity : fileViewDirectoryCapacity ≤ capacity) (hw : Quiet x.world w) :
    wp (fileViewListDirectoryPath service (some FileService.enumerate) context (nameOf entry) capacity)
      (fun labels _ => Lists service x.world entry.objectHandle labels) (fun _ _ => ¬x.world.Room 1) (x.withWorld w) := by
  have hc := h.sound.toConsistent
  obtain ⟨record, hholds, hk, hidentity, hbase, hvalid⟩ := h.record he hkind
  obtain ⟨candidate, -, hpresentable, ⟨-, hname⟩, -⟩ := h.presented.stands he
  have hsegment := label_segment hpresentable
  rw [← hname] at hsegment
  have hd := h.dirs
  have hcanonical : canonicalComponent (nameOf entry) = .ok record.primary.name := by
    rw [← hbase]
    exact canonicalComponent_base hvalid (hbare record hholds hk hidentity)
  have hdown : T.dirs entry.objectHandle := by
    rw [← hidentity]
    exact hc.leads_dirs hd (.down hcanonical hholds hk .here)
  -- The label is the whole name, so the lookup of the last component finds the record.
  have hwalk : walkObject x.world.mount.geometry T.items rootObject (stack ++ [nameOf entry]) =
      .ok ⟨entry.objectHandle, .directory⟩ := by
    rw [show rootObject = ⟨rootCluster, .directory⟩ from rfl, hc.walkObject_append hc.describes.linked.root h.leads, walkObject,
      if_neg (not_not.mpr rfl), hc.lookedUp_eq hd hcanonical hholds, objectOf_directoryEntry hk, hidentity]
    rfl
  rw [← h.normal.components_child hsegment.1] at hwalk
  refine wp_mono (lists_spec h.ready h.serves h.sound h.valid h.mount h.root (h.normal.child hsegment hfits) hwalk hdown hbrief hcapacity hw)
    (fun labels _ hlabels => ?_) fun _ _ hfail => hfail
  obtain ⟨⟨listed, hlisted⟩, -⟩ := hlabels
  exact hlisted.lists hc hdown

/-- In every state and with every current directory that a console reaches, the labels listed for `.` are resolved to the identity
    and the kind of their entries, and the labels of directories without an extension list these directories: when the path keeps
    within its limits, the directories looked into have room for their entries in a snapshot, the current directory is one whose
    path has no dots where a label is resolved, and no read of the device fails. -/
theorem listing_resolves {live : Nat → Prop} {capacity : Nat} (hready : Ready service) (hrun : ConsoleRun m x context live)
    (hlist : fileViewListDirectoryPath service (some FileService.enumerate) context [ascii '.'] capacity x = (.ok made, y)) :
    ∃ stack d, Vfs.Normal context.currentDirectory stack ∧ Leads x.world rootCluster stack d ∧
      Lists service x.world d made ∧
      ∀ entry ∈ made, Vfs.Fits pathCapacity (stack ++ [nameOf entry]) → ∀ w, Quiet x.world w →
        ((∀ c ∈ stack, ascii '.' ∉ c) →
          (∀ before d', before <+: stack → before ≠ stack → Leads x.world rootCluster before d' → Brief x.world d') →
          wp (fileViewResolveDisplayPath service (some FileService.enumerate) context (nameOf entry))
            (fun object _ => Denoted entry object) (fun _ _ => ¬x.world.Room 1) (x.withWorld w)) ∧
        (entry.objectKind = displaySafeDirectory → Bare x.world d entry.objectHandle → Brief x.world entry.objectHandle →
          ∀ capacity', fileViewDirectoryCapacity ≤ capacity' →
          wp (fileViewListDirectoryPath service (some FileService.enumerate) context (nameOf entry) capacity')
            (fun labels _ => Lists service x.world entry.objectHandle labels) (fun _ _ => ¬x.world.Room 1) (x.withWorld w)) := by
  obtain ⟨⟨T, hT⟩, hserves, hmount, stack, hnormal⟩ := hrun.console
  obtain ⟨d, candidates, hlisted⟩ := listed_current hready hserves hT hmount hnormal hlist
  refine ⟨stack, d, hnormal, hlisted.leads, ⟨_, _, hT.toConsistent.scanned hlisted.dirs, hlisted.presented.listed, hlisted.presented.presents⟩, ?_⟩
  intro entry he hfits w hw
  constructor
  · intro hdots hbrief
    exact hlisted.resolves he hfits hdots hbrief hw
  · intro hkind hbare hbrief capacity' hcapacity
    exact hlisted.relists he hfits hkind hbare hbrief hcapacity hw

end Consoles

theorem exists_directory (hname : canonicalComponent component = .ok name) :
    ∃ (s t : FileService) (live : Nat → Prop) (k : Nat) (p : Primary), Opened s ∧ k < 128 ∧ p.name = name ∧
      p.firstCluster ≠ rootCluster ∧ (∀ {x : VfsSystem (Fin 1) Unit FileService} {context : MountedContext (Fin 1)},
        ConsoleRun 0 (x.withWorld s) context (· = rootCluster) → ConsoleRun 0 (x.withWorld t) context live) ∧
      Sound t live (emptyTree.addDirectory rootCluster k p) ∧ t.Room 1 := by
  obtain ⟨s, ho, hable, hsmall⟩ := exists_opened_small
  have hs := Sound.opened ho
  have hshows : emptyTree.ShowsOnly rootCluster [] := fun _ _ _ hq => by rcases hq with hq | hq <;> cases hq
  have hspare : emptyTree.Spares s.fatEntryCount 3 :=
    ⟨validCluster_small hs.toConsistent hsmall (Or.inl rfl), show ¬(3 = rootCluster) by decide, fun _ _ => List.not_mem_nil⟩
  obtain ⟨t, k, p, hk, hp, hfresh, -, hdone, ht, ha, -⟩ := hs.makesDirectory
    (hable.mono (show 2 ^ 62 + 260 ≤ 2 ^ 63 by decide) le_rfl) hname rfl hshows (fun _ hn => absurd hn List.not_mem_nil)
    ⟨0, by decide, Or.inl rfl⟩ hspare
  exact ⟨s, t, _, k, p, ho, hk, hp, hfresh, fun {x context} hrun => .done hrun hdone, ht, (ha.mono le_rfl (by decide)).room⟩

theorem addDirectory_entries {k : Nat} {p : Primary} {d : Nat} {entry : DirectoryEntry}
    (h : EntryOf ((emptyTree.addDirectory rootCluster k p).items d) entry) :
    entry = directoryEntry p k ∧ d ≠ p.firstCluster := by
  by_cases hd : d = p.firstCluster
  · subst hd
    rw [Tree.addDirectory_fresh] at h
    rcases h with ⟨-, hi⟩ | ⟨-, hi⟩
    all_goals
      unfold freshItems at hi
      split at hi <;> cases hi
  · rw [Tree.addDirectory_items hd] at h
    refine ⟨?_, hd⟩
    rcases h with ⟨-, hi⟩ | ⟨-, hi⟩
    · rw [Tree.setSlot_items] at hi
      split at hi <;> cases hi
    · rw [Tree.setSlot_items] at hi
      split at hi
      · rename_i hslot
        cases hi
        rw [hslot.2]
        rfl
      · cases hi

theorem brief_of_only {s : FileService} {T : Tree} {d : Nat} {only : DirectoryEntry} (h : Consistent s T) (hd : T.dirs d)
    (honly : ∀ entry, EntryOf (T.items d) entry → entry = only) : Brief s d := by
  intro pages hpages
  have hsub : recordsOf pages ⊆ [(d, only)] := by
    intro r hr
    rw [← hpages.pagesOf_eq, (h.scanned hd).pagesOf_eq] at hr
    obtain ⟨hcluster, hentry⟩ := (h.lists hd).mp (h.recorded hd hr)
    exact List.mem_singleton.mpr (Prod.ext hcluster (honly _ hentry))
  have hnodup : (recordsOf pages).Nodup := by
    rw [← hpages.pagesOf_eq, (h.scanned hd).pagesOf_eq]
    exact recordsOf_nodup d _
  exact (hnodup.subperm hsub).length_le.trans (show 1 ≤ fileViewDirectoryCapacity by decide)

def consoleSystem (s : FileService) : VfsSystem (Fin 1) Unit FileService :=
  { servingSystem s with mounts := fun m => { (servingSystem s).mounts m with lookup := some mountedLookup } }

theorem consoleSystem_serves (s : FileService) : (consoleSystem s).Serves 0 :=
  ⟨⟨rfl, rfl, show (0 : Nat) ≠ 2 ^ 32 - 1 by decide, (), rfl, show (0 : Nat) < 2 ^ 32 - 1 by decide⟩, rfl, (), rfl, rfl⟩

local instance neZero_mounts : NeZero 1 := ⟨by decide⟩

def consoleContext : MountedContext (Fin 1) := ⟨⟨rootCluster, 1, [ascii '/', 0]⟩, some 0⟩

structure Labelled (name : Name) (s : FileService) (live : Nat → Prop) (p : Primary) (made : List DisplaySafeEntry) (entry : DisplaySafeEntry)
    (t : FileService) : Prop where
  run : ConsoleRun 0 (consoleSystem s) consoleContext live
  listed : fileViewListDirectoryPath plainService (some FileService.enumerate) consoleContext [ascii '.'] fileViewDirectoryCapacity
    (consoleSystem s) = (.ok made, consoleSystem t)
  quiet : Quiet s t
  room : s.Room 1
  mem : entry ∈ made
  label : nameOf entry = displayBaseName name
  kind : entry.objectKind = displaySafeDirectory
  handle : entry.objectHandle = p.firstCluster
  name : p.name = name

theorem exists_labelled {component : Text} {name : Name} (hname : canonicalComponent component = .ok name) :
    ∃ (s t : FileService) (live : Nat → Prop) (k : Nat) (p : Primary) (made : List DisplaySafeEntry) (entry : DisplaySafeEntry),
      Labelled name s live p made entry t ∧ k < 128 ∧ p.firstCluster ≠ rootCluster ∧
        Sound s live (emptyTree.addDirectory rootCluster k p) := by
  obtain ⟨s, t, live, k, p, ho, hk, hp, hfresh, hruns, hsound, hroom⟩ := exists_directory hname
  have hc := hsound.toConsistent
  have hroot : (emptyTree.addDirectory rootCluster k p).dirs rootCluster := Or.inl rfl
  have hrun : ConsoleRun 0 (consoleSystem t) consoleContext live :=
    @hruns (consoleSystem s) consoleContext (.started ho (consoleSystem_serves s) rfl)
  have hlist := lists_spec plainService_ready (consoleSystem_serves t) hsound
    (show (consoleSystem t).validateContext consoleContext = .ok 0 from rfl) rfl rfl normal_root.self
    (show walkObject _ _ rootObject (components (rendered (ascii '/') [])) = .ok ⟨rootCluster, .directory⟩ from rfl) hroot
    (brief_of_only hc hroot fun entry he => (addDirectory_entries he).1) le_rfl (Quiet.refl hc.mounted)
  rcases wp_cases hlist with ⟨made, y, hr, ⟨listed, hpresented⟩, hq, hy⟩ | ⟨_, _, -, hfull⟩
  swap
  · exact absurd hroom hfull
  · have hentry : EntryOf ((emptyTree.addDirectory rootCluster k p).items rootCluster) (directoryEntry p k) := by
      rw [Tree.addDirectory_items (Ne.symm hfresh)]
      refine .directory hk ?_
      rw [Tree.setSlot_items, if_pos ⟨rfl, rfl⟩]
    obtain ⟨⟨candidate, entry⟩, hpair, hcandidate⟩ := hpresented.pair hentry
    obtain ⟨hhandle, hlabel⟩ := (List.forall₂_iff_zip.mp (hpresented.plain.bearing hpresented.presents)).2 hpair
    have hkind := makeSafeEntry_kind ((List.forall₂_iff_zip.mp hpresented.presents).2 hpair)
    have hobject := listEntry_object hcandidate
    rw [objectOf_directoryEntry (show (directoryEntry p k).kind = .directory from rfl)] at hobject
    obtain ⟨hidentity, hdirectory⟩ := VfsObject.mk.inj hobject
    dsimp only at hidentity hdirectory
    refine ⟨t, y.world, live, k, p, made, entry, ⟨hrun, ?_, hq, hroom, (List.of_mem_zip hpair).2, ?_, ?_, ?_, hp⟩, hk, hfresh, hsound⟩
    · rw [show consoleSystem y.world = y from hy.symm]
      exact hr
    · rw [hlabel, listEntry_name hcandidate, ← hp]
      rfl
    · rw [hkind, hdirectory]
      rfl
    · rw [hhandle, hidentity]
      rfl

/-- The console has the listing of a directory `DOCS`, and its label leads to it. -/
theorem listing_resolves_docs : ∃ (x y : VfsSystem (Fin 1) Unit FileService) (context : MountedContext (Fin 1)) (live : Nat → Prop)
    (made : List DisplaySafeEntry) (entry : DisplaySafeEntry), ConsoleRun 0 x context live ∧
      fileViewListDirectoryPath plainService (some FileService.enumerate) context [ascii '.'] fileViewDirectoryCapacity x = (.ok made, y) ∧
      entry ∈ made ∧
      (∃ object z, fileViewResolveDisplayPath plainService (some FileService.enumerate) context (nameOf entry) y = (.ok object, z) ∧
        Denoted entry object) ∧
      ∃ labels z, fileViewListDirectoryPath plainService (some FileService.enumerate) context (nameOf entry) fileViewDirectoryCapacity y =
        (.ok labels, z) ∧ Lists plainService x.world entry.objectHandle labels := by
  obtain ⟨s, t, live, k, p, made, entry, h, hk, hfresh, hsound⟩ :=
    @exists_labelled ("DOCS".toList.map ascii) (padName ("DOCS".toList.map ascii) []) (by decide)
  have hc := hsound.toConsistent
  have hroot : (emptyTree.addDirectory rootCluster k p).dirs rootCluster := Or.inl rfl
  obtain ⟨stack, d, hnormal, hleads, -, hall⟩ := listing_resolves plainService_ready h.run h.listed
  obtain rfl : stack = [] := by
    rw [← hnormal.segments]
    decide
  cases hleads
  have hfits : Vfs.Fits pathCapacity ([] ++ [nameOf entry]) := by
    rw [h.label]
    exact ⟨by decide, by decide⟩
  obtain ⟨hresolve, hlist⟩ := hall entry h.mem hfits t h.quiet
  have hbare : Bare s rootCluster entry.objectHandle := by
    intro record hholds _ _
    rw [(addDirectory_entries ((hc.holds hroot).mp hholds)).1]
    show extensionOf p.name = []
    rw [h.name]
    decide
  have hbrief : Brief s entry.objectHandle := by
    rw [h.handle]
    refine @brief_of_only _ _ _ (directoryEntry p k) hc (Or.inr rfl) fun other hother => ?_
    exact absurd rfl (addDirectory_entries hother).2
  have hresolved := hresolve nofun fun before d' hbefore hne _ => absurd (List.prefix_nil.mp hbefore) hne
  have hlisted := hlist h.kind hbare hbrief fileViewDirectoryCapacity le_rfl
  refine ⟨_, _, _, live, made, entry, h.run, h.listed, h.mem, ?_, ?_⟩
  · exact (wp_cases hresolved).resolve_right fun ⟨_, _, _, hfull⟩ => hfull h.room
  · exact (wp_cases hlisted).resolve_right fun ⟨_, _, _, hfull⟩ => hfull h.room

/-- The label of a directory `DOCS.OLD` is no path to it, since the paths of directories are made of stored names. -/
theorem listing_not_path : ∃ (x y z : VfsSystem (Fin 1) Unit FileService) (context : MountedContext (Fin 1)) (live : Nat → Prop)
    (made : List DisplaySafeEntry) (entry : DisplaySafeEntry), ConsoleRun 0 x context live ∧
      fileViewListDirectoryPath plainService (some FileService.enumerate) context [ascii '.'] fileViewDirectoryCapacity x = (.ok made, y) ∧
      entry ∈ made ∧ entry.objectKind = displaySafeDirectory ∧
      fileViewListDirectoryPath plainService (some FileService.enumerate) context (nameOf entry) fileViewDirectoryCapacity y =
        (.error .notFound, z) := by
  obtain ⟨s, t, live, k, p, made, entry, h, hk, hfresh, hsound⟩ :=
    @exists_labelled ("DOCS.OLD".toList.map ascii) (padName ("DOCS".toList.map ascii) ("OLD".toList.map ascii)) (by decide)
  have hc := hsound.toConsistent
  have hroot : (emptyTree.addDirectory rootCluster k p).dirs rootCluster := Or.inl rfl
  have hlabel : nameOf entry = "DOCS".toList.map ascii := h.label.trans (by decide)
  have hnormalized : pathNormalize consoleContext.currentDirectory (some (nameOf entry)) pathCapacity =
      .ok (rendered (ascii '/') ([] ++ [nameOf entry])) := by
    rw [hlabel]
    decide
  -- The lookup is for the name without an extension, and the only entry has one.
  have hmiss : walkObject s.mount.geometry (emptyTree.addDirectory rootCluster k p).items rootObject
      (components (rendered (ascii '/') ([] ++ [nameOf entry]))) = .error .notFound := by
    have hfind : findIn (emptyTree.addDirectory rootCluster k p).items rootCluster (padName ("DOCS".toList.map ascii) []) =
        .error .notFound := by
      unfold findIn
      rcases hfound : entryNamed ((emptyTree.addDirectory rootCluster k p).items rootCluster) (padName ("DOCS".toList.map ascii) []) with
        _ | other
      · rfl
      · obtain ⟨hother, hnamed⟩ := entryNamed_eq hfound
        rw [(addDirectory_entries hother).1] at hnamed
        have hsame : p.name = padName ("DOCS".toList.map ascii) [] := hnamed
        rw [h.name] at hsame
        exact absurd hsame (by decide)
    rw [hlabel, show components (rendered (ascii '/') ([] ++ ["DOCS".toList.map ascii])) = ["DOCS".toList.map ascii] by decide, walkObject,
      if_neg (show ¬rootObject.kind ≠ .directory from not_not.mpr rfl)]
    unfold lookedUp
    rw [show canonicalComponent ("DOCS".toList.map ascii) = .ok (padName ("DOCS".toList.map ascii) []) by decide]
    show ((findIn _ rootCluster _ >>= _) >>= _) = _
    rw [hfind]
    rfl
  have hrefused := refuses_spec plainService (consoleSystem_serves s) hc
    (show (consoleSystem s).validateContext consoleContext = .ok 0 from rfl) rfl hnormalized hmiss
    (show fileViewDirectoryCapacity ≠ 0 by decide) h.quiet
  rcases wp_cases hrefused with ⟨_, _, -, hfalse⟩ | ⟨_, z, hr, rfl | hfull⟩
  · exact hfalse.elim
  · exact ⟨_, _, z, _, live, made, entry, h.run, h.listed, h.mem, h.kind, hr⟩
  · exact absurd h.room hfull

end FileView

end InferenceOS
