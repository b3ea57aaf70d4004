import InferenceOS.Lib.Paging
import InferenceOS.Theorems.Subdirectories
import InferenceOS.Theorems.MountLifecycle

/-! Enumerations page by page: the continuations of the file service lead through all records of a directory, each of
    them once, and the layer of the mounts passes every page on. -/

namespace InferenceOS
open Program
variable {entries : List ListedEntry}

namespace FileService
variable {s t : FileService} {d : Nat} {pages : List (Nat × List DirectoryEntry)}

theorem listEntry_ok {slots : Nat → Slot} {e : DirectoryEntry} {cluster : Nat} (h : SlotEntry slots e) (hk : e.kind ≠ .internal) :
    ∃ listed, listEntry s cluster e = .ok listed := by
  unfold listEntry
  dsimp only
  split
  · exact ⟨_, rfl⟩
  · unfold fileTypeMetadata
    rw [nameExtension_eq (h.name hk)]
    exact ⟨_, rfl⟩

/-- What the listing shows of the records. -/
def Listed (s : FileService) (records : List (Nat × DirectoryEntry)) (entries : List ListedEntry) : Prop :=
  List.Forall₂ (fun r listed => listEntry s r.1 r.2 = .ok listed) records entries

theorem listed_of_ok : ∀ {records : List (Nat × DirectoryEntry)}, (∀ r ∈ records, ∃ listed, listEntry s r.1 r.2 = .ok listed) →
    ∃ entries, Listed s records entries
  | [], _ => ⟨[], .nil⟩
  | r :: records, h => by
    obtain ⟨listed, hlisted⟩ := h r List.mem_cons_self
    obtain ⟨entries, hentries⟩ := listed_of_ok fun r' hr => h r' (List.mem_cons_of_mem r hr)
    exact ⟨listed :: entries, .cons hlisted hentries⟩

theorem Listed.congr {records : List (Nat × DirectoryEntry)} (h : Listed s records entries)
    (ht : t.mount = s.mount) : Listed t records entries :=
  h.imp fun _ _ hr => (listEntry_congr ht).trans hr

theorem Listed.mapM {records : List (Nat × DirectoryEntry)} (h : Listed s records entries) :
    records.mapM (fun r => listEntry s r.1 r.2) = .ok entries := by
  induction h with
  | nil => rfl
  | cons hlisted _ ih =>
    rw [List.mapM_cons, hlisted, ih]
    rfl

theorem Listed.page {records : List (Nat × DirectoryEntry)} {entries : List ListedEntry} {continuation capacity : Nat}
    (h : Listed s records entries) : listPage s continuation capacity records = .ok (pageOf entries continuation capacity) := by
  have hpage : Listed s ((records.drop continuation).take capacity) ((entries.drop continuation).take capacity) :=
    List.forall₂_take _ (List.forall₂_drop _ h)
  unfold listPage
  rw [hpage.mapM, h.length_eq]
  rfl

theorem Scanned.lt (h : Scanned s d pages) : d < 2 ^ 64 :=
  lt_of_le_of_lt h.chained.start.2.2 (by decide)

theorem recordsOf_length {k : Nat} : ∀ {pages : List (Nat × List DirectoryEntry)}, (∀ page ∈ pages, page.2.length ≤ k) →
    (recordsOf pages).length ≤ pages.length * k
  | [], _ => Nat.zero_le _
  | page :: rest, h => by
    have hrest := recordsOf_length fun page hpage => h page (List.mem_cons_of_mem _ hpage)
    have hfirst : (page.2.filter (·.kind ≠ .internal)).length ≤ page.2.length := List.length_filter_le _ _
    have hk := h page List.mem_cons_self
    unfold recordsOf at hrest ⊢
    rw [List.flatMap_cons, List.length_append, List.length_map, List.length_cons, Nat.succ_mul]
    omega

theorem Scanned.length_lt (h : Scanned s d pages) : (recordsOf pages).length < 2 ^ 64 := by
  have hpages := (Fat.traverse_eq_ok.mp h.chain).2.2.2.2
  rw [List.length_map] at hpages
  have hrecords := recordsOf_length fun page hpage => scanFrom_length
    (show scanFrom _ directorySlots directorySlots directorySlots directorySlots 0 [] = .ok page.2 from h.scans page hpage) (Nat.zero_le _)
  refine lt_of_le_of_lt (hrecords.trans (Nat.mul_le_mul_right _ hpages)) (by decide)

theorem Scanned.listed (h : Scanned s d pages) : ∃ entries, Listed s (recordsOf pages) entries := by
  refine listed_of_ok fun r hr => ?_
  obtain ⟨-, -, -, -, hk⟩ := mem_recordsOf.mp hr
  exact listEntry_ok (h.slotEntry hr) hk

theorem Scanned.page (h : Scanned s d pages) (hm : s.Mounted) (hi : s.initialized = true) {entries : List ListedEntry}
    (he : Listed s (recordsOf pages) entries) {continuation capacity : Nat} (hc : 0 < capacity) (ht : Quiet s t) :
    wp (enumerate d continuation capacity) (fun r u => r = pageOf entries continuation capacity ∧ Quiet s u)
      (fun e u => Quiet s u ∧ e ≠ .notFound ∧ ¬s.Room 1) t := by
  have hpage := @Scanned.enumerate_yields _ _ _ (h.quiet ht) (ht.mounted hm) (ht.wrote.initialized.trans hi) continuation _ hc.ne'
  rw [(he.congr ht.mount).page] at hpage
  refine wp_mono (hpage.after ht) (fun r u ⟨hu, hr⟩ => ⟨(Except.ok.inj hr).symm, hu⟩) fun e u ⟨hu, herror⟩ => ⟨hu, ?_⟩
  exact herror.resolve_left nofun

end FileService

namespace VfsSystem
variable {μ ρ ω : Type} [DecidableEq μ] [DecidableEq ρ] {x : VfsSystem μ ρ ω}
variable {m : μ}

def MountError (e : IosError) : Prop := e = .invalidState ∨ e = .busy ∨ e = .overflow

theorem begin_world {mount : Option μ} : wp (vfsMountBeginOperation mount false)
    (fun _ u => u.world = x.world) (fun e _ => MountError e) x := by
  unfold vfsMountBeginOperation
  rw [wp_bind, wp_get]
  cases mount with
  | none => exact Or.inl rfl
  | some m =>
    simp only [wp_bind, wp_failIf, wp_modify]
    refine ⟨fun _ => Or.inl rfl, fun _ => ⟨fun _ => Or.inr (Or.inl rfl), fun _ => ⟨fun _ => Or.inl rfl, fun _ =>
      ⟨fun hx => (by cases hx.1), fun _ => ⟨fun _ => Or.inr (Or.inr rfl), fun _ => ?_⟩⟩⟩⟩⟩
    cases (x.mounts m).root <;> rfl

theorem end_world {mount : Option μ} : wp (vfsMountEndOperation mount)
    (fun _ u => u.world = x.world) (fun e u => MountError e ∧ u.world = x.world) x := by
  unfold vfsMountEndOperation
  rw [wp_bind, wp_get]
  cases mount with
  | none => exact ⟨Or.inl rfl, rfl⟩
  | some m =>
    simp only [wp_bind, wp_failIf, wp_modify]
    refine ⟨fun _ => ⟨Or.inl rfl, trivial⟩, fun _ => ?_⟩
    cases (x.mounts m).root <;> rfl

/-- A mount that begins and ends operations. -/
structure Serving (x : VfsSystem μ ρ ω) (m : μ) : Prop where
  mounted : (x.mounts m).mounted = true
  active : (x.mounts m).lifecycle = .active
  room : (x.mounts m).activeOperations ≠ 2 ^ 32 - 1
  root : ∃ o, (x.mounts m).root = some o ∧ (x.objects o).referenceCount < 2 ^ 32 - 1

def opened (x : VfsSystem μ ρ ω) (m : μ) : VfsSystem μ ρ ω := x.counted m (· + 1) fun count => (count + 1) % 2 ^ 32

theorem Serving.begin_run (h : Serving x m) : vfsMountBeginOperation (some m) false x = (.ok (), x.opened m) := by
  unfold vfsMountBeginOperation
  rw [bind_ok (show get x = (.ok x, x) from rfl)]
  dsimp only
  rw [failIf_pass (by rw [h.mounted]; exact nofun), failIf_pass (by rw [h.active]; exact nofun),
    failIf_pass (not_not.mpr h.active), failIf_pass (fun hx => nomatch hx.1), failIf_pass h.room]
  rfl

theorem Serving.end_run (h : Serving x m) (world : ω) :
    vfsMountEndOperation (some m) ((x.opened m).withWorld world) = (.ok (), x.withWorld world) := by
  obtain ⟨o, ho, hcount⟩ := h.root
  have hmount : ((x.opened m).withWorld world).mounts m = { x.mounts m with activeOperations := (x.mounts m).activeOperations + 1 } :=
    counted_mounts.trans (if_pos rfl)
  have hreferences : ((x.opened m).withWorld world).rootReferences m = (x.objects o).referenceCount + 1 := by
    rw [rootReferences, hmount]
    dsimp only
    rw [ho, Option.elim_some]
    refine counted_references.trans ?_
    rw [if_pos ho]
    exact Nat.mod_eq_of_lt (by omega)
  rcases hrun : vfsMountEndOperation (some m) ((x.opened m).withWorld world) with ⟨e | ⟨⟨⟩⟩, y⟩
  · obtain ⟨-, hx⟩ := wp_error end_spec hrun
    have hzero := hx m rfl
    rw [hmount, hreferences] at hzero
    rcases hzero h.mounted (Or.inl h.active) with hzero | hzero
    · exact absurd hzero (Nat.succ_ne_zero _)
    · exact absurd hzero (Nat.succ_ne_zero _)
  · obtain ⟨n, hn, -, -, -, rfl⟩ := wp_ok end_spec hrun
    cases hn
    have hclosed : ((x.opened m).withWorld world).counted m (· - 1) (· - 1) = x.withWorld world := by
      refine counted_counted (Nat.add_sub_cancel _ _) fun o' ho' => ?_
      cases ho.symm.trans ho'
      rw [Nat.mod_eq_of_lt (by omega), Nat.add_sub_cancel]
    rw [hclosed]

def Steady (x : VfsSystem μ ρ ω) (m : μ) (y : VfsSystem μ ρ ω) : Prop :=
  y.registry = x.registry ∧ (Serving x m → y = x.withWorld y.world)

omit [DecidableEq μ] [DecidableEq ρ] in
theorem Steady.serving {y : VfsSystem μ ρ ω} (h : Steady x m y) (hx : Serving x m) : Serving y m := by
  rw [h.2 hx]
  exact ⟨hx.mounted, hx.active, hx.room, hx.root⟩

omit [DecidableEq μ] [DecidableEq ρ] in
theorem Steady.trans {y z : VfsSystem μ ρ ω} (h : Steady x m y) (h' : Steady y m z) : Steady x m z := by
  refine ⟨h'.1.trans h.1, fun hx => ?_⟩
  rw [h'.2 (h.serving hx), h.2 hx]
  rfl

theorem begin_steady : wp (vfsMountBeginOperation (some m) false) (fun _ u => u = x.opened m)
    (fun e u => (¬Serving x m ∧ MountError e) ∧ u = x) x := by
  refine wp_iff.mpr ⟨fun _ u hrun => ?_, fun e u hrun => ⟨⟨fun hs => ?_, ?_⟩, ?_⟩⟩
  · obtain ⟨n, hn, -, -, -, hu⟩ := wp_ok begin_spec hrun
    cases hn
    exact hu
  · rw [hs.begin_run] at hrun
    cases hrun
  · have herror := wp_error begin_world hrun
    exact herror
  · have hsame := wp_error begin_spec hrun
    exact hsame

theorem end_steady (w : ω) : wp (vfsMountEndOperation (some m)) (fun _ y => y.world = w ∧ Steady x m y)
    (fun e y => (¬Serving x m ∧ MountError e) ∧ y.world = w ∧ Steady x m y) ((x.opened m).withWorld w) := by
  refine wp_iff.mpr ⟨fun _ y hrun => ?_, fun e y hrun => ?_⟩
  · have hworld := wp_ok end_world hrun
    refine ⟨hworld, ?_, fun hs => ?_⟩
    · obtain ⟨n, hn, -, -, -, rfl⟩ := wp_ok end_spec hrun
      exact counted_registry.trans counted_registry
    · rw [hs.end_run] at hrun
      cases hrun
      rfl
  · have herror := wp_error end_world hrun
    have hserving : ¬Serving x m := fun hs => by
      rw [hs.end_run] at hrun
      cases hrun
    obtain ⟨rfl, -⟩ := wp_error end_spec hrun
    exact ⟨⟨hserving, herror.1⟩, rfl, counted_registry, fun hs => absurd hs hserving⟩

theorem vfsEnumerate_spec {enumerate : Nat → Nat → Nat → Program IosError ω (List FileService.ListedEntry × Nat)}
    {directory continuation capacity : Nat} {Q : List FileService.ListedEntry × Nat → ω → Prop} {E : IosError → ω → Prop}
    (hd : directory ≠ 0) (hc : capacity ≠ 0) (h : wp (enumerate directory continuation capacity) Q E x.world)
    (hQ : ∀ r w, Q r w → r.1.length ≤ capacity ∧ (r.2 ≠ 0 → r.1.length ≠ 0)) :
    wp (vfsEnumerate (some m) (some enumerate) true directory continuation capacity)
      (fun r y => Q r y.world ∧ Steady x m y)
      (fun e y => (((¬Serving x m ∧ MountError e) ∧ (y.world = x.world ∨ ∃ r, Q r y.world)) ∨ E e y.world) ∧ Steady x m y) x := by
  have hargs : ¬((some m).isNone = true ∨ directory = 0 ∨ capacity = 0 ∨ true = false) := by
    rintro (hx | hx | hx | hx)
    · cases hx
    · exact hd hx
    · exact hc hx
    · cases hx
  unfold vfsEnumerate
  rw [failIf_pass hargs]
  dsimp only
  rw [wp_bind]
  refine wp_mono begin_steady (fun _ u hu => ?_) fun _ u hx => ?_
  · subst hu
    rw [wp_bind, wp_attempt]
    simp only [callback, wp_zoom]
    rw [show (x.opened m).world = x.world from counted_world]
    refine wp_mono h (fun r w hr => ?_) fun e w he => ?_
    · rw [wp_bind, wp_attempt]
      refine wp_mono (end_steady w) (fun _ y hx => ?_) fun e y hx => ?_
      · obtain ⟨hw, hsteady⟩ := hx
        obtain ⟨hlen, hnext⟩ := hQ r w hr
        obtain ⟨entries, next⟩ := r
        have hshape : ¬(capacity < entries.length ∨ (next ≠ 0 ∧ entries.length = 0)) := by
          rintro (hx | ⟨hx, hz⟩)
          · exact absurd hx (not_lt.mpr hlen)
          · exact hnext hx hz
        dsimp only
        rw [failIf_pass hshape, wp_pure, hw]
        exact ⟨hr, hsteady⟩
      · obtain ⟨he, hw, hsteady⟩ := hx
        exact ⟨Or.inl ⟨he, Or.inr ⟨r, by rw [hw]; exact hr⟩⟩, hsteady⟩
    · rw [wp_bind, wp_attempt]
      refine wp_mono (end_steady w) (fun _ y hx => ?_) fun _ y hx => ?_
      · obtain ⟨hw, hsteady⟩ := hx
        exact ⟨Or.inr (by rw [hw]; exact he), hsteady⟩
      · obtain ⟨_, hw, hsteady⟩ := hx
        exact ⟨Or.inr (by rw [hw]; exact he), hsteady⟩
  · obtain ⟨he, hu⟩ := hx
    subst hu
    exact ⟨Or.inl ⟨he, Or.inl rfl⟩, rfl, fun _ => rfl⟩

end VfsSystem

namespace FileService
variable {s : FileService} {d : Nat} {pages : List (Nat × List DirectoryEntry)}

/-- What can stop a page: the mount, or the device when the cache is full. -/
def Failing {μ ρ : Type} (s : FileService) (d : Nat) (x : VfsSystem μ ρ FileService) (m : μ) (e : IosError) : Prop :=
  (¬x.Serving m ∧ VfsSystem.MountError e) ∨ (∃ t continuation capacity, (enumerate d continuation capacity t).1 = .error e) ∧ ¬s.Room 1

theorem Failing.steady {μ ρ : Type} {x y : VfsSystem μ ρ FileService} {m : μ} {e : IosError} (h : Failing s d y m e)
    (hsteady : x.Steady m y) : Failing s d x m e :=
  h.imp_left fun hmount => ⟨fun hx => hmount.1 (hsteady.serving hx), hmount.2⟩

theorem Scanned.vfsPage {μ ρ : Type} [DecidableEq μ] [DecidableEq ρ] (h : Scanned s d pages) (hm : s.Mounted) (hi : s.initialized = true)
    (he : Listed s (recordsOf pages) entries) {continuation capacity : Nat} (hc : 0 < capacity)
    {x : VfsSystem μ ρ FileService} {m : μ} (hx : Quiet s x.world) :
    wp (VfsSystem.vfsEnumerate (some m) (some enumerate) true d continuation capacity)
      (fun r y => r = pageOf entries continuation capacity ∧ Quiet s y.world ∧ x.Steady m y)
      (fun e y => Failing s d x m e ∧ Quiet s y.world ∧ x.Steady m y) x := by
  have hd : d ≠ 0 := by
    have := h.chained.start.1
    omega
  have hdriver : wp (enumerate d continuation capacity) (fun r w => r = pageOf entries continuation capacity ∧ Quiet s w)
      (fun e w => ((enumerate d continuation capacity x.world).1 = .error e ∧ ¬s.Room 1) ∧ Quiet s w) x.world := by
    have hpage := @Scanned.page s x.world d pages h hm hi entries he continuation capacity hc hx
    refine wp_iff.mpr ⟨(wp_iff.mp hpage).1, fun e w hr => ?_⟩
    obtain ⟨hw, -, hroom⟩ := (wp_iff.mp hpage).2 e w hr
    exact ⟨⟨by rw [hr], hroom⟩, hw⟩
  have hshape : ∀ r w, r = pageOf entries continuation capacity ∧ Quiet s w →
      r.1.length ≤ capacity ∧ (r.2 ≠ 0 → r.1.length ≠ 0) := by
    rintro _ _ ⟨rfl, -⟩
    exact ⟨pageOf_length_le, pageOf_ne_nil hc⟩
  refine wp_mono (VfsSystem.vfsEnumerate_spec hd hc.ne' hdriver hshape) (fun r y ⟨⟨hr, hy⟩, hsteady⟩ => ⟨hr, hy, hsteady⟩)
    fun e y ⟨herror, hsteady⟩ => ?_
  rcases herror with ⟨hmount, hw | ⟨r, -, hw⟩⟩ | ⟨⟨hrun, hroom⟩, hw⟩
  · exact ⟨Or.inl hmount, by rwa [hw], hsteady⟩
  · exact ⟨Or.inl hmount, hw, hsteady⟩
  · exact ⟨Or.inr ⟨⟨x.world, continuation, capacity, hrun⟩, hroom⟩, hw, hsteady⟩

/-- The caller that follows the continuations of an enumeration, with any capacities, gets each record of the directory once
    and in order, unless the device fails; and the layer of the mounts rejects none of the pages. -/
theorem enumerate_exactly_once {μ ρ : Type} [DecidableEq μ] [DecidableEq ρ] (hm : s.Mounted) (hi : s.initialized = true)
    (h : Scanned s d pages) : ∃ entries, Listed s (recordsOf pages) entries ∧
      ∀ (capacities : Nat → Nat) (turns : Nat), (∀ turn, 1 ≤ capacities turn) → (recordsOf pages).length < turns →
        Yields (followPages (enumerate d) capacities turns 0 0) s (.ok (some entries)) ∧
        ∀ (x : VfsSystem μ ρ FileService) (m : μ), x.world = s →
          wp (followPages (VfsSystem.vfsEnumerate (some m) (some enumerate) true d) capacities turns 0 0)
            (fun r _ => r = some entries)
            (fun e _ => VfsSystem.MountError e ∨
              (∃ t continuation capacity, (enumerate d continuation capacity t).1 = .error e) ∧ ¬s.Room 1) x := by
  obtain ⟨entries, he⟩ := h.listed
  have hlen : (recordsOf pages).length = entries.length := he.length_eq
  refine ⟨entries, he, fun capacities turns hc hturns => ⟨?_, fun x m hx => ?_⟩⟩
  · have hrun := @followPages_spec _ _ _ entries (enumerate d) capacities (Quiet s)
      (fun e u => Quiet s u ∧ e ≠ .notFound ∧ ¬s.Room 1) hc (fun _ _ _ ht hpos => h.page hm hi he hpos ht) turns 0 0 s
      (Quiet.refl hm) (by omega)
    exact wp_mono hrun (fun r t ⟨hr, ht⟩ => ⟨ht, by rw [hr]; rfl⟩) fun e t ⟨ht, hne⟩ => ⟨ht, Or.inr hne⟩
  · have hrun := @followPages_spec _ _ _ entries (VfsSystem.vfsEnumerate (some m) (some enumerate) true d) capacities
      (fun y : VfsSystem μ ρ FileService => Quiet s y.world) (fun e _ => VfsSystem.MountError e ∨
        (∃ t continuation capacity, (enumerate d continuation capacity t).1 = .error e) ∧ ¬s.Room 1)
      hc ?_ turns 0 0 x (by rw [hx]; exact Quiet.refl hm) (by omega)
    · exact wp_mono hrun (fun r _ hr => hr.1) fun _ _ hy => hy
    · intro continuation capacity y hy hpos
      exact wp_mono (h.vfsPage hm hi he hpos hy) (fun r z hr => ⟨hr.1, hr.2.1⟩) fun e z herror => herror.1.imp_left And.right

/-- A directory of two clusters, the second one with a file, is listed by two calls. -/
theorem enumerate_exactly_once_listing : ∃ (s : FileService) (entries : List ListedEntry),
    Listed s (recordsOf [(3, ownEntries), (4, fileEntries)]) entries ∧
    (followPages (enumerate 3) (fun _ => 1) 2 0 0 s).1 = .ok (some entries) := by
  obtain ⟨s, hs, hi, hr, -, -, hscanned⟩ := exists_chained scan_ownEntries scan_fileEntries
  obtain ⟨entries, he, hrun⟩ := @enumerate_exactly_once s 3 _ Nat Nat _ _ hs.mounted hi hscanned
  exact ⟨s, entries, he, (hrun (fun _ => 1) 2 (fun _ => le_rfl) (by decide)).1.outcome hr⟩

end FileService
end InferenceOS
