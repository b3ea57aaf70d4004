import InferenceOS.Vfs.Mount

/-! The life of a mount over every run: its operations, its unmount and the contexts of earlier mounts. -/

namespace InferenceOS
open Program Function

namespace VfsSystem
variable {μ ρ ω : Type} {s u : VfsSystem μ ρ ω} {m n : μ} {o : ρ} {world : ω}
variable {mount : MountPoint ρ ω} {path : Option Text}

def withWorld (s : VfsSystem μ ρ ω) (world : ω) : VfsSystem μ ρ ω := { s with world }

variable [DecidableEq μ]

theorem setMount_mounts : (s.setMount m mount).mounts n = if n = m then mount else s.mounts n :=
  update_apply _ _ _ _

theorem mounts_self : ((s.setMount m mount).withWorld world).mounts m = mount :=
  update_self _ _ _

theorem setMount_again {mount' : MountPoint ρ ω} :
    ((s.setMount m mount).withWorld world).setMount m mount' = (s.setMount m mount').withWorld world := by
  unfold setMount withWorld
  simp only [update_idem]

def attached (s : VfsSystem μ ρ ω) (m : μ) : VfsSystem μ ρ ω :=
  { s.setMount m { s.mounts m with
      generation := s.registry.nextGeneration, activeOperations := 0, lifecycle := .active, mounted := true } with
    registry := ⟨s.registry.mounts ++ [m], some m, s.registry.nextGeneration + 1⟩ }

theorem mountRoot_spec {mount : Option μ} : wp (vfsMountRoot mount path)
    (fun _ u => ∃ m, mount = some m ∧ s.registry.root = none ∧ (s.mounts m).root.isSome ∧ u = s.attached m)
    (fun _ u => u = s) s := by
  unfold vfsMountRoot
  rw [wp_bind, wp_get]
  rcases mount with _ | m
  · exact rfl
  · rcases path with _ | path
    · exact rfl
    · simp only [wp_bind, wp_failIf, wp_modify]
      refine ⟨fun _ => trivial, fun hargs => ⟨fun _ => trivial, fun hfree => ⟨fun _ => trivial, fun _ => ⟨fun _ => trivial, fun _ => ?_⟩⟩⟩⟩
      simp only [not_or, Option.not_isSome_iff_eq_none] at hargs hfree
      refine ⟨m, rfl, hfree.1, ?_, rfl⟩
      exact Option.isSome_iff_ne_none.mpr (by simpa using hargs.2.2.2.2.1)

theorem configure_spec {mount : Option μ} {hasContext : Bool} {sync : Option (Program IosError ω Unit)}
    {invalidate : Option (ω → ω)} : wp (vfsMountConfigureUnmount mount hasContext sync invalidate)
    (fun _ u => ∃ m, mount = some m ∧
      u = s.setMount m { s.mounts m with unmountSync := sync, unmountInvalidate := invalidate })
    (fun _ u => u = s) s := by
  unfold vfsMountConfigureUnmount
  rw [wp_bind, wp_get]
  rcases mount with _ | m
  · exact rfl
  · simp only [wp_bind, wp_failIf, wp_modify]
    exact ⟨fun _ => trivial, fun _ => ⟨fun _ => trivial, fun _ => ⟨m, rfl, rfl⟩⟩⟩

omit [DecidableEq μ] in
theorem contextInitialize_spec {mount : Option μ} : wp (vfsPathContextInitialize mount)
    (fun context u => u = s ∧ ∃ m, mount = some m ∧ context.mount = some m ∧ (s.mounts m).mounted = true ∧
      context.mountGeneration = (s.mounts m).generation)
    (fun _ u => u = s) s := by
  unfold vfsPathContextInitialize
  rw [wp_bind, wp_get]
  rcases mount with _ | m
  · exact rfl
  · dsimp only
    cases (s.mounts m).root with
    | none => exact rfl
    | some o =>
      simp only [wp_bind, wp_failIf, wp_pure]
      refine ⟨fun _ => trivial, fun hgood => ?_⟩
      simp only [not_or, Bool.not_eq_false] at hgood
      exact ⟨trivial, m, rfl, rfl, hgood.1, rfl⟩

/-- The synchronisation before an unmount succeeds. -/
def Syncs (s : VfsSystem μ ρ ω) (m : μ) : Prop := ∀ sync, (s.mounts m).unmountSync = some sync → (sync s.world).1 = .ok ()

def staged (s : VfsSystem μ ρ ω) (m : μ) (lifecycle : MountLifecycle) : VfsSystem μ ρ ω :=
  s.setMount m { s.mounts m with lifecycle }

def detached (s : VfsSystem μ ρ ω) (m : μ) : VfsSystem μ ρ ω :=
  { s.setMount m { s.mounts m with mounted := false, lifecycle := .detached } with
    registry := { s.registry with root := none, mounts := [] } }

omit [DecidableEq μ] in
theorem sync_spec {sync : Option (Program IosError ω Unit)} : wp (sync.elim (pure ()) callback)
    (fun _ u => (∀ f, sync = some f → (f s.world).1 = .ok ()) ∧ ∃ world, u = s.withWorld world)
    (fun _ u => ∃ world, u = s.withWorld world) s := by
  cases sync with
  | none => exact ⟨nofun, s.world, rfl⟩
  | some f =>
    simp only [Option.elim_some, callback, wp_zoom]
    refine wp_iff.mpr ⟨fun _ world hf => ⟨fun g hg => ?_, world, rfl⟩, fun _ world _ => ⟨world, rfl⟩⟩
    cases hg
    rw [hf]

omit [DecidableEq μ] in
theorem invalidate_eq {invalidate : Option (ω → ω)} :
    ∃ world, invalidate.elim s (fun f => { s with world := f s.world }) = s.withWorld world := by
  cases invalidate with
  | none => exact ⟨s.world, rfl⟩
  | some f => exact ⟨f s.world, rfl⟩

theorem unmount_spec : wp vfsUnmountRoot
    (fun _ u => ∃ m world, s.registry.root = some m ∧ (s.mounts m).activeOperations = 0 ∧ s.rootReferences m = 0 ∧ s.Syncs m ∧
      u = (s.detached m).withWorld world)
    (fun _ u => u = s ∨ ∃ m lifecycle world, s.registry.root = some m ∧ (lifecycle = .active ∨ lifecycle = .draining) ∧
      u = (s.staged m lifecycle).withWorld world) s := by
  unfold vfsUnmountRoot
  rw [wp_bind, wp_get]
  cases hroot : s.registry.root with
  | none => exact Or.inl rfl
  | some m =>
    simp only [wp_bind, wp_failIf, wp_modify, wp_attempt]
    refine ⟨fun _ => Or.inl trivial, fun _ => ⟨fun _ => ?_, fun hidle => ?_⟩⟩
    · exact Or.inr ⟨m, .draining, s.world, rfl, Or.inr rfl, rfl⟩
    · simp only [not_or, not_not] at hidle
      refine wp_mono sync_spec (fun _ u hx => ?_) fun _ u hx => ?_
      · obtain ⟨hsync, world, hu⟩ := hx
        simp only [wp_bind, wp_modify]
        obtain ⟨world', hv⟩ := @invalidate_eq _ _ _ u (s.mounts m).unmountInvalidate
        refine ⟨m, world', rfl, hidle.1, hidle.2, hsync, ?_⟩
        have hu' : u.withWorld world' = (s.staged m .draining).withWorld world' := by
          rw [hu]
          rfl
        rw [hv, hu', staged, mounts_self, setMount_again]
        rfl
      · obtain ⟨world, hu⟩ := hx
        simp only [wp_bind, wp_modify, wp_fail]
        refine Or.inr ⟨m, .active, world, rfl, Or.inl rfl, ?_⟩
        rw [hu, mounts_self, setMount_again]
        rfl

variable [DecidableEq ρ]

/-- The system with `f` applied to the counters of a mount. -/
def counted (s : VfsSystem μ ρ ω) (m : μ) (f g : Nat → Nat) : VfsSystem μ ρ ω :=
  let t := s.setMount m { s.mounts m with activeOperations := f (s.mounts m).activeOperations }
  (s.mounts m).root.elim t fun o => t.setReferences o (g (s.objects o).referenceCount)

theorem begin_spec {mount : Option μ} {mutation : Bool} : wp (vfsMountBeginOperation mount mutation)
    (fun _ u => ∃ m, mount = some m ∧ (s.mounts m).mounted = true ∧ (s.mounts m).lifecycle = .active ∧
      (s.mounts m).activeOperations ≠ 2 ^ 32 - 1 ∧ u = s.counted m (· + 1) fun count => (count + 1) % 2 ^ 32)
    (fun _ u => u = s) s := by
  unfold vfsMountBeginOperation
  rw [wp_bind, wp_get]
  rcases mount with _ | m
  · exact rfl
  · simp only [wp_bind, wp_failIf, wp_modify]
    refine ⟨fun _ => trivial, fun hmounted => ⟨fun _ => trivial, fun _ => ⟨fun _ => trivial, fun hactive =>
      ⟨fun _ => trivial, fun _ => ⟨fun _ => trivial, fun hroom => ?_⟩⟩⟩⟩⟩
    exact ⟨m, rfl, Bool.eq_true_of_not_eq_false hmounted, not_not.mp hactive, hroom, rfl⟩

theorem end_spec {mount : Option μ} : wp (vfsMountEndOperation mount)
    (fun _ u => ∃ m, mount = some m ∧ (s.mounts m).mounted = true ∧ (s.mounts m).activeOperations ≠ 0 ∧ s.rootReferences m ≠ 0 ∧
      u = s.counted m (· - 1) (· - 1))
    (fun _ u => u = s ∧ ∀ m, mount = some m → (s.mounts m).mounted = true →
      (s.mounts m).lifecycle = .active ∨ (s.mounts m).lifecycle = .draining →
      (s.mounts m).activeOperations = 0 ∨ s.rootReferences m = 0) s := by
  unfold vfsMountEndOperation
  rw [wp_bind, wp_get]
  rcases mount with _ | m
  · exact ⟨rfl, fun _ hx => by cases hx⟩
  · simp only [wp_bind, wp_failIf, wp_modify]
    refine ⟨fun hbad => ⟨trivial, fun n hn hmounted hlife => ?_⟩, fun hgood => ?_⟩
    · cases hn
      rcases hbad with hx | hx | hx
      · cases hx.symm.trans hmounted
      · exact (hlife.elim hx.1 hx.2).elim
      · exact hx
    · simp only [not_or, Bool.not_eq_false] at hgood
      exact ⟨m, rfl, hgood.1, hgood.2.2.1, hgood.2.2.2, rfl⟩

/-- The number of open operations of each mount, and the contexts that were initialized; the flag tells whether a mount
    was attached since. -/
structure Trace (μ : Type) where
  opens : μ → Nat
  contexts : List (MountedContext μ × Bool)

/-- A call with its arguments. -/
inductive Call (μ ω : Type) where
  | mountRoot (mount : Option μ) (path : Option Text)
  | beginOperation (mount : Option μ) (mutation : Bool)
  | endOperation (mount : Option μ)
  | configureUnmount (mount : Option μ) (hasContext : Bool) (sync : Option (Program IosError ω Unit))
    (invalidate : Option (ω → ω))
  | contextInitialize (mount : Option μ)
  | resolve (context : Option (MountedContext μ)) (path : Option Text) (out : Bool)
  | unmountRoot

/-- The call; a context that it initializes is its value. -/
def Call.run : Call μ ω → Program IosError (VfsSystem μ ρ ω) (Option (MountedContext μ))
  | .mountRoot mount path => (fun _ => none) <$> vfsMountRoot mount path
  | .beginOperation mount mutation => (fun _ => none) <$> vfsMountBeginOperation mount mutation
  | .endOperation mount => (fun _ => none) <$> vfsMountEndOperation mount
  | .configureUnmount mount hasContext sync invalidate =>
    (fun _ => none) <$> vfsMountConfigureUnmount mount hasContext sync invalidate
  | .contextInitialize mount => some <$> vfsPathContextInitialize mount
  | .resolve context path out => (fun _ => none) <$> vfsPathResolve context path out
  | .unmountRoot => (fun _ => none) <$> vfsUnmountRoot

def Call.Paired (tr : Trace μ) : Call μ ω → Prop
  | .endOperation (some m) => 0 < tr.opens m
  | _ => True

/-- The trace after a call returned `v`. -/
def Call.trace (tr : Trace μ) (v : Option (MountedContext μ)) : Call μ ω → Trace μ
  | .mountRoot _ _ => { tr with contexts := tr.contexts.map fun c => (c.1, true) }
  | .beginOperation (some m) _ => { tr with opens := update tr.opens m (tr.opens m + 1) }
  | .endOperation (some m) => { tr with opens := update tr.opens m (tr.opens m - 1) }
  | .contextInitialize _ => { tr with contexts := v.toList.map (·, false) ++ tr.contexts }
  | _ => tr

/-- A new registry, no mount of which is mounted, and root objects without references. -/
structure Initial (s : VfsSystem μ ρ ω) : Prop where
  registry : s.registry = vfsMountRegistryInitialize
  mounts : ∀ m, (s.mounts m).mounted = false
  objects : ∀ o, (s.objects o).referenceCount = 0

/-- The systems that runs reach, with the trace. -/
inductive Run : VfsSystem μ ρ ω → Trace μ → Prop where
  | start {s : VfsSystem μ ρ ω} : Initial s → Run s ⟨fun _ => 0, []⟩
  | returned {s u : VfsSystem μ ρ ω} {tr : Trace μ} {call : Call μ ω} {v : Option (MountedContext μ)} : Run s tr → call.Paired tr →
    call.run s = (.ok v, u) → Run u (call.trace tr v)
  | failed {s u : VfsSystem μ ρ ω} {tr : Trace μ} {call : Call μ ω} {error : IosError} : Run s tr → call.Paired tr →
    call.run s = (.error error, u) → Run u tr

def held (s : VfsSystem μ ρ ω) (opens : μ → Nat) (o : ρ) : Nat :=
  s.registry.root.elim 0 fun m => if (s.mounts m).root = some o then opens m else 0

structure Kept (s : VfsSystem μ ρ ω) (opens : μ → Nat) : Prop where
  mounted : ∀ m, (s.mounts m).mounted = true ↔ s.registry.root = some m
  root : ∀ m, s.registry.root = some m → (s.mounts m).root.isSome
  lifecycle : ∀ m, s.registry.root = some m → (s.mounts m).lifecycle = .active ∨ (s.mounts m).lifecycle = .draining
  active : ∀ m, s.registry.root = some m → (s.mounts m).activeOperations = opens m
  references : ∀ o, (s.objects o).referenceCount = s.held opens o
  closed : ∀ m, s.registry.root ≠ some m → opens m = 0
  bound : ∀ m, opens m < 2 ^ 32

structure Dated (s : VfsSystem μ ρ ω) (contexts : List (MountedContext μ × Bool)) : Prop where
  mount : ∀ m, s.registry.root = some m → (s.mounts m).generation < s.registry.nextGeneration
  issued : ∀ c ∈ contexts, c.1.mountGeneration < s.registry.nextGeneration
  stale : ∀ c ∈ contexts, c.2 = true → ∀ m, s.registry.root = some m → c.1.mountGeneration < (s.mounts m).generation

variable {tr : Trace μ} {opens : μ → Nat} {contexts : List (MountedContext μ × Bool)} {f g f' g' : Nat → Nat}

theorem counted_mounts : (s.counted m f g).mounts n =
    if n = m then { s.mounts m with activeOperations := f (s.mounts m).activeOperations } else s.mounts n := by
  unfold counted
  dsimp only
  cases (s.mounts m).root <;> exact setMount_mounts

theorem counted_registry : (s.counted m f g).registry = s.registry := by
  unfold counted
  dsimp only
  cases (s.mounts m).root <;> rfl

theorem counted_objects : (s.counted m f g).objects o = if (s.mounts m).root = some o then
    { s.objects o with referenceCount := g (s.objects o).referenceCount } else s.objects o := by
  unfold counted
  dsimp only
  cases hroot : (s.mounts m).root with
  | none => rfl
  | some o' =>
    show update s.objects o' _ o = _
    rw [update_apply]
    split
    · rename_i heq
      rw [heq, if_pos rfl]
      rfl
    · rename_i hne
      rw [if_neg fun hx => hne (Option.some.inj hx).symm]

theorem counted_references : ((s.counted m f g).objects o).referenceCount =
    if (s.mounts m).root = some o then g (s.objects o).referenceCount else (s.objects o).referenceCount := by
  rw [counted_objects]
  split <;> rfl

theorem counted_world : (s.counted m f g).world = s.world := by
  unfold counted
  dsimp only
  cases (s.mounts m).root <;> rfl

theorem counted_counted (hf : f' (f (s.mounts m).activeOperations) = (s.mounts m).activeOperations)
    (hg : ∀ o, (s.mounts m).root = some o → g' (g (s.objects o).referenceCount) = (s.objects o).referenceCount) :
    ((s.counted m f g).withWorld world).counted m f' g' = s.withWorld world := by
  have hmount : ((s.counted m f g).withWorld world).mounts m =
      { s.mounts m with activeOperations := f (s.mounts m).activeOperations } := counted_mounts.trans (if_pos rfl)
  apply VfsSystem.ext
  · rw [counted_registry]
    exact counted_registry
  · funext n
    rw [counted_mounts, hmount]
    split
    · rename_i heq
      rw [heq]
      show { s.mounts m with activeOperations := f' (f (s.mounts m).activeOperations) } = s.mounts m
      rw [hf]
    · rename_i hne
      exact counted_mounts.trans (if_neg hne)
  · funext o
    rw [counted_objects, hmount]
    have hobject : ((s.counted m f g).withWorld world).objects o = _ := counted_objects
    rw [hobject]
    split
    · rename_i hroot
      show { s.objects o with referenceCount := g' (g (s.objects o).referenceCount) } = s.objects o
      rw [hg o hroot]
    · rfl
  · exact counted_world

omit [DecidableEq μ] in
theorem Kept.same (h : Kept s opens) (hregistry : u.registry.root = s.registry.root)
    (hobjects : ∀ o, (u.objects o).referenceCount = (s.objects o).referenceCount)
    (hmounts : ∀ n, (u.mounts n).mounted = (s.mounts n).mounted ∧ (u.mounts n).root = (s.mounts n).root ∧
      (u.mounts n).activeOperations = (s.mounts n).activeOperations)
    (hlife : ∀ n, s.registry.root = some n → (u.mounts n).lifecycle = .active ∨ (u.mounts n).lifecycle = .draining) :
    Kept u opens where
  mounted n := by
    rw [(hmounts n).1, hregistry]
    exact h.mounted n
  root n hn := by
    rw [hregistry] at hn
    rw [(hmounts n).2.1]
    exact h.root n hn
  lifecycle n hn := hlife n (hregistry ▸ hn)
  active n hn := by
    rw [hregistry] at hn
    rw [(hmounts n).2.2]
    exact h.active n hn
  references o := by
    rw [hobjects, h.references, held, held, hregistry]
    cases s.registry.root with
    | none => rfl
    | some n => rw [Option.elim_some, Option.elim_some, (hmounts n).2.1]
  closed n hn := h.closed n (hregistry ▸ hn)
  bound := h.bound

theorem Kept.setMount (h : Kept s opens) (hmounted : mount.mounted = (s.mounts m).mounted)
    (hroot : mount.root = (s.mounts m).root) (hactive : mount.activeOperations = (s.mounts m).activeOperations)
    (hlife : s.registry.root = some m → mount.lifecycle = .active ∨ mount.lifecycle = .draining) : Kept (s.setMount m mount) opens := by
  refine h.same rfl (fun _ => rfl) (fun n => ?_) fun n hn => ?_
  · rw [setMount_mounts]
    split
    · rename_i heq
      rw [heq]
      exact ⟨hmounted, hroot, hactive⟩
    · exact ⟨rfl, rfl, rfl⟩
  · rw [setMount_mounts]
    split
    · rename_i heq
      rw [heq] at hn
      exact hlife hn
    · exact h.lifecycle n hn

theorem Kept.attached (h : Kept s opens) (hroot : s.registry.root = none) (hm : (s.mounts m).root.isSome) :
    Kept (s.attached m) opens := by
  have hzero : ∀ n, opens n = 0 := fun n => h.closed n (by rw [hroot]; nofun)
  have hmounts : ∀ n, (s.attached m).mounts n = if n = m then { s.mounts m with generation := s.registry.nextGeneration, activeOperations := 0, lifecycle := .active, mounted := true } else s.mounts n := fun n => setMount_mounts
  have hother : ∀ n, (s.mounts n).mounted = false := by
    intro n
    refine Bool.eq_false_of_not_eq_true fun hx => ?_
    have := (h.mounted n).mp hx
    rw [hroot] at this
    cases this
  refine ⟨fun n => ?_, fun n hn => ?_, fun n hn => ?_, fun n hn => ?_, fun o => ?_, fun n _ => hzero n, h.bound⟩
  · rw [hmounts]
    split
    · rename_i heq
      exact ⟨fun _ => congrArg some heq.symm, fun _ => rfl⟩
    · rename_i hne
      rw [hother]
      exact ⟨nofun, fun hx => absurd (Option.some.inj hx).symm hne⟩
  · cases hn
    rw [hmounts, if_pos rfl]
    exact hm
  · cases hn
    rw [hmounts, if_pos rfl]
    exact Or.inl rfl
  · cases hn
    rw [hmounts, if_pos rfl]
    exact (hzero m).symm
  · have hidle : s.held opens o = 0 := by
      rw [held, hroot]
      rfl
    show (s.objects o).referenceCount = if _ then opens m else 0
    rw [h.references, hidle, hzero, ite_self]

theorem Kept.counted (h : Kept s opens) (hm : s.registry.root = some m) {k : Nat} (hf : f (opens m) = k) (hg : g (opens m) = k)
    (hk : k < 2 ^ 32) : Kept (s.counted m f g) (update opens m k) := by
  have hactive := h.active m hm
  refine ⟨fun n => ?_, fun n hn => ?_, fun n hn => ?_, fun n hn => ?_, fun o => ?_, fun n hn => ?_, fun n => ?_⟩
  · rw [counted_mounts, counted_registry]
    split
    · rename_i heq
      rw [heq]
      exact h.mounted m
    · exact h.mounted n
  · rw [counted_registry, hm] at hn
    cases hn
    rw [counted_mounts, if_pos rfl]
    exact h.root m hm
  · rw [counted_registry, hm] at hn
    cases hn
    rw [counted_mounts, if_pos rfl]
    exact h.lifecycle m hm
  · rw [counted_registry, hm] at hn
    cases hn
    rw [counted_mounts, if_pos rfl, update_self]
    exact (congrArg f hactive).trans hf
  · have hheld := h.references o
    rw [held, hm, Option.elim_some] at hheld
    rw [counted_references, held, counted_registry, hm, Option.elim_some, counted_mounts, if_pos rfl, update_self]
    split
    · rename_i hroot
      rw [if_pos hroot] at hheld
      rw [hheld, hg]
    · rename_i hroot
      rw [if_neg hroot] at hheld
      exact hheld
  · rw [counted_registry] at hn
    have hne : n ≠ m := by
      rintro rfl
      exact hn hm
    rw [update_of_ne hne]
    exact h.closed n hn
  · rw [update_apply]
    split
    · exact hk
    · exact h.bound n

theorem Kept.detached (h : Kept s opens) (hm : s.registry.root = some m) (hidle : opens m = 0) :
    Kept ((s.detached m).withWorld world) opens := by
  have hmounts : ∀ n, ((s.detached m).withWorld world).mounts n =
      if n = m then { s.mounts m with mounted := false, lifecycle := .detached } else s.mounts n := fun n => setMount_mounts
  refine ⟨fun n => ?_, nofun, nofun, nofun, fun o => ?_, fun n _ => ?_, h.bound⟩
  · rw [hmounts]
    split
    · exact ⟨nofun, nofun⟩
    · rename_i hne
      refine ⟨fun hx => ?_, nofun⟩
      have := (h.mounted n).mp hx
      rw [hm] at this
      exact absurd (Option.some.inj this).symm hne
  · show (s.objects o).referenceCount = 0
    rw [h.references, held, hm, Option.elim_some, hidle, ite_self]
  · by_cases heq : s.registry.root = some n
    · rw [hm] at heq
      cases heq
      exact hidle
    · exact h.closed n heq

omit [DecidableEq μ] in
theorem Kept.withWorld (h : Kept s opens) : Kept (s.withWorld world) opens :=
  h.same rfl (fun _ => rfl) (fun _ => ⟨rfl, rfl, rfl⟩) h.lifecycle

omit [DecidableEq μ] in
theorem Kept.rootReferences (h : Kept s opens) (hm : s.registry.root = some m) : s.rootReferences m = opens m := by
  obtain ⟨o, ho⟩ := Option.isSome_iff_exists.mp (h.root m hm)
  rw [VfsSystem.rootReferences, ho, Option.elim_some, h.references, held, hm, Option.elim_some, if_pos ho]

theorem Kept.end_ok (h : Kept s opens) (hpos : 0 < opens m) : wp (vfsMountEndOperation (some m))
    (fun _ u => u = s.counted m (· - 1) (· - 1)) (fun _ _ => False) s := by
  have hm : s.registry.root = some m := by
    by_contra hx
    have := h.closed m hx
    omega
  refine wp_mono end_spec (fun _ u ⟨n, hn, _, _, _, hu⟩ => ?_) fun _ u ⟨_, hx⟩ => ?_
  · cases hn
    exact hu
  · have hzero := hx m rfl ((h.mounted m).mpr hm) (h.lifecycle m hm)
    rw [h.active m hm, h.rootReferences hm] at hzero
    omega

omit [DecidableEq μ] [DecidableEq ρ] in
theorem resolveNormalized_spec {normalized : Text} : wp (resolveNormalized m normalized)
    (fun _ u => ∃ world, u = s.withWorld world) (fun _ u => ∃ world, u = s.withWorld world) s := by
  unfold resolveNormalized
  rw [wp_bind, wp_get]
  dsimp only
  cases (s.mounts m).root with
  | none => exact ⟨s.world, rfl⟩
  | some o =>
    dsimp only
    split
    · exact ⟨s.world, rfl⟩
    · cases (s.mounts m).lookup with
      | none => exact ⟨s.world, rfl⟩
      | some lookup =>
        dsimp only
        rw [callback, wp_zoom]
        exact wp_iff.mpr ⟨fun _ world _ => ⟨world, rfl⟩, fun _ world _ => ⟨world, rfl⟩⟩

theorem Kept.resolve (h : Kept s opens) {context : Option (MountedContext μ)} {out : Bool} : wp (vfsPathResolve context path out)
      (fun _ u => (∃ c m, context = some c ∧ s.validateContext c = .ok m) ∧ ∃ world, u = s.withWorld world)
      (fun _ u => ∃ world, u = s.withWorld world) s := by
  unfold vfsPathResolve
  simp only [wp_bind, wp_failIf, wp_get]
  refine ⟨fun _ => ⟨s.world, rfl⟩, fun _ => ?_⟩
  cases context with
  | none => exact ⟨s.world, rfl⟩
  | some c =>
    simp only [wp_bind, wp_ofExcept]
    refine ⟨fun m hvalid => ⟨fun normalized _ => ?_, fun _ _ => ⟨s.world, rfl⟩⟩, fun _ _ => ⟨s.world, rfl⟩⟩
    refine wp_mono begin_spec (fun _ t hx => ?_) fun _ u hu => ⟨s.world, hu⟩
    obtain ⟨n, hn, hmounted, _, hroom, ht⟩ := hx
    cases hn
    have hm := (h.mounted m).mp hmounted
    have hactive := h.active m hm
    have hbound := h.bound m
    have hmod : (opens m + 1) % 2 ^ 32 = opens m + 1 := Nat.mod_eq_of_lt (by omega)
    have hbegun : Kept t (update opens m (opens m + 1)) := by
      rw [ht]
      exact h.counted hm rfl hmod (by omega)
    have hend : ∀ v : VfsSystem μ ρ ω, (∃ world, v = t.withWorld world) → wp (vfsMountEndOperation (some m))
        (fun _ u => ∃ world, u = s.withWorld world) (fun _ _ => False) v := by
      rintro v ⟨world, rfl⟩
      refine wp_mono (hbegun.withWorld.end_ok (by rw [update_self]; omega)) (fun _ u hu => ⟨world, ?_⟩) fun _ _ hx => hx
      rw [hu, ht]
      refine counted_counted (Nat.add_sub_cancel _ _) fun o ho => ?_
      have hcount := h.references o
      rw [held, hm, Option.elim_some, if_pos ho] at hcount
      rw [hcount, hmod, Nat.add_sub_cancel]
    simp only [wp_bind, wp_attempt]
    refine wp_mono resolveNormalized_spec (fun object v hv => ?_) fun error v hv => ?_
    · rw [wp_bind, wp_attempt]
      exact wp_mono (hend v hv) (fun _ u hu => ⟨⟨c, m, rfl, hvalid⟩, hu⟩) fun _ _ hx => hx.elim
    · rw [wp_bind, wp_attempt]
      exact wp_mono (hend v hv) (fun _ u hu => hu) fun _ _ hx => hx.elim

omit [DecidableEq μ] [DecidableEq ρ] in
theorem Dated.same (h : Dated s contexts) (hregistry : u.registry.root = s.registry.root ∨ u.registry.root = none)
    (hnext : u.registry.nextGeneration = s.registry.nextGeneration)
    (hgeneration : ∀ n, (u.mounts n).generation = (s.mounts n).generation) : Dated u contexts := by
  have hroot : ∀ n, u.registry.root = some n → s.registry.root = some n := by
    intro n hn
    rcases hregistry with hx | hx
    · rwa [hx] at hn
    · rw [hx] at hn
      cases hn
  refine ⟨fun n hn => ?_, fun c hc => ?_, fun c hc hstale n hn => ?_⟩
  · rw [hgeneration, hnext]
    exact h.mount n (hroot n hn)
  · rw [hnext]
    exact h.issued c hc
  · rw [hgeneration]
    exact h.stale c hc hstale n (hroot n hn)

omit [DecidableEq ρ] in
theorem Dated.setMount (h : Dated s contexts) (hg : mount.generation = (s.mounts m).generation) :
    Dated (s.setMount m mount) contexts := by
  refine h.same (Or.inl rfl) rfl fun n => ?_
  rw [setMount_mounts]
  split
  · rename_i heq
    rw [heq, hg]
  · rfl

omit [DecidableEq ρ] in
theorem Dated.attached (h : Dated s contexts) : Dated (s.attached m) (contexts.map fun c => (c.1, true)) := by
  have hmount : ((s.attached m).mounts m).generation = s.registry.nextGeneration := by
    show ((s.setMount m _).mounts m).generation = _
    rw [setMount_mounts, if_pos rfl]
  refine ⟨fun n hn => ?_, fun c hc => ?_, fun c hc _ n hn => ?_⟩
  · cases hn
    rw [hmount]
    exact Nat.lt_succ_self _
  · obtain ⟨c', hc', rfl⟩ := List.mem_map.mp hc
    exact Nat.lt_succ_of_lt (h.issued c' hc')
  · obtain ⟨c', hc', rfl⟩ := List.mem_map.mp hc
    cases hn
    rw [hmount]
    exact h.issued c' hc'

theorem Kept.call (h : Kept s tr.opens) (hd : Dated s tr.contexts) {call : Call μ ω} (hpaired : call.Paired tr) :
    wp call.run (fun v u => Kept u (call.trace tr v).opens ∧ Dated u (call.trace tr v).contexts)
      (fun _ u => Kept u tr.opens ∧ Dated u tr.contexts) s := by
  cases call with
  | mountRoot mount path =>
    simp only [Call.run, wp_map]
    refine wp_mono mountRoot_spec (fun _ u ⟨m, _, hroot, hm, hu⟩ => ?_) fun _ u hu => hu ▸ ⟨h, hd⟩
    rw [hu]
    exact ⟨h.attached hroot hm, hd.attached⟩
  | beginOperation mount mutation =>
    simp only [Call.run, wp_map]
    refine wp_mono begin_spec (fun _ u ⟨m, hmount, hmounted, _, hroom, hu⟩ => ?_) fun _ u hu => hu ▸ ⟨h, hd⟩
    have hm := (h.mounted m).mp hmounted
    have hactive := h.active m hm
    have hbound := h.bound m
    rw [hu, hmount]
    refine ⟨h.counted hm rfl (Nat.mod_eq_of_lt (by omega)) (by omega), hd.same (Or.inl ?_) ?_ fun n => ?_⟩
    · rw [counted_registry]
    · rw [counted_registry]
    · rw [counted_mounts]
      split
      · rename_i heq
        rw [heq]
      · rfl
  | endOperation mount =>
    simp only [Call.run, wp_map]
    refine wp_mono end_spec (fun _ u ⟨m, hmount, hmounted, _, _, hu⟩ => ?_) fun _ u hu => hu.1 ▸ ⟨h, hd⟩
    have hm := (h.mounted m).mp hmounted
    have hbound := h.bound m
    rw [hu, hmount]
    refine ⟨h.counted hm rfl rfl (by omega), hd.same (Or.inl ?_) ?_ fun n => ?_⟩
    · rw [counted_registry]
    · rw [counted_registry]
    · rw [counted_mounts]
      split
      · rename_i heq
        rw [heq]
      · rfl
  | configureUnmount mount hasContext sync invalidate =>
    simp only [Call.run, wp_map]
    refine wp_mono configure_spec (fun _ u ⟨m, _, hu⟩ => ?_) fun _ u hu => hu ▸ ⟨h, hd⟩
    rw [hu]
    exact ⟨h.setMount rfl rfl rfl fun hm => h.lifecycle m hm, hd.setMount rfl⟩
  | contextInitialize mount =>
    simp only [Call.run, wp_map]
    refine wp_mono contextInitialize_spec (fun c u ⟨hu, m, _, hc, hmounted, hgeneration⟩ => ?_) fun _ u hu => hu ▸ ⟨h, hd⟩
    rw [hu]
    refine ⟨h, hd.mount, fun c' hc' => ?_, fun c' hc' hstale => ?_⟩
    · rcases List.mem_cons.mp hc' with rfl | hc'
      · rw [hgeneration]
        exact hd.mount m ((h.mounted m).mp hmounted)
      · exact hd.issued c' hc'
    · rcases List.mem_cons.mp hc' with rfl | hc'
      · cases hstale
      · exact hd.stale c' hc' hstale
  | resolve context path out =>
    simp only [Call.run, wp_map]
    refine wp_mono h.resolve (fun _ u ⟨_, world, hu⟩ => ?_) fun _ u ⟨world, hu⟩ => ?_
    · rw [hu]
      exact ⟨h.withWorld, hd.same (Or.inl rfl) rfl fun _ => rfl⟩
    · rw [hu]
      exact ⟨h.withWorld, hd.same (Or.inl rfl) rfl fun _ => rfl⟩
  | unmountRoot =>
    simp only [Call.run, wp_map]
    refine wp_mono unmount_spec (fun _ u ⟨m, world, hm, hidle, _, _, hu⟩ => ?_) fun _ u hu => ?_
    · rw [hu]
      refine ⟨h.detached hm ?_, hd.same (Or.inr rfl) rfl fun n => ?_⟩
      · rw [← h.active m hm, hidle]
      · show ((s.setMount m _).mounts n).generation = _
        rw [setMount_mounts]
        split
        · rename_i heq
          rw [heq]
        · rfl
    · rcases hu with rfl | ⟨m, lifecycle, world, _, hlife, rfl⟩
      · exact ⟨h, hd⟩
      · have hstaged : Kept (s.staged m lifecycle) tr.opens := h.setMount rfl rfl rfl fun _ => hlife
        have hdated : Dated (s.staged m lifecycle) tr.contexts := hd.setMount rfl
        exact ⟨hstaged.withWorld, hdated.same (Or.inl rfl) rfl fun _ => rfl⟩

theorem kept_run (h : Run s tr) : Kept s tr.opens ∧ Dated s tr.contexts := by
  induction h with
  | @start s hi =>
    have hroot : s.registry.root = none := by
      rw [hi.registry]
      rfl
    have hnone : ∀ n, s.registry.root ≠ some n := fun n => by
      rw [hroot]
      nofun
    refine ⟨⟨fun n => ?_, fun n hn => absurd hn (hnone n), fun n hn => absurd hn (hnone n), fun n hn => absurd hn (hnone n),
      fun o => ?_, fun _ _ => rfl, fun _ => Nat.two_pow_pos 32⟩, ⟨fun n hn => absurd hn (hnone n), nofun, nofun⟩⟩
    · rw [hi.mounts]
      exact ⟨nofun, fun hn => absurd hn (hnone n)⟩
    · rw [hi.objects, held, hroot]
      rfl
  | @returned s u tr call v _ hpaired hr ih =>
    have hcall := wp_ok (ih.1.call ih.2 hpaired) hr
    exact hcall
  | @failed s u tr call error _ hpaired hr ih =>
    have hcall := wp_error (ih.1.call ih.2 hpaired) hr
    exact hcall

theorem Dated.rejects (hd : Dated s contexts) (h : Kept s opens) {c : MountedContext μ} (hc : (c, true) ∈ contexts)
    {context : MountedContext μ} (hgeneration : context.mountGeneration = c.mountGeneration) :
    vfsPathResolve (some context) path true s = (.error .invalidState, s) := by
  have hvalid : s.validateContext context = .error .invalidState := by
    unfold validateContext
    cases hm : context.mount with
    | none => rfl
    | some m =>
      refine if_pos ?_
      by_cases hmounted : (s.mounts m).mounted = true
      · have hold := hd.stale _ hc rfl m ((h.mounted m).mp hmounted)
        refine Or.inr (Or.inr (Or.inr (Or.inl fun hx => ?_)))
        rw [← hx, hgeneration] at hold
        exact lt_irrefl _ hold
      · exact Or.inr (Or.inl (Bool.eq_false_of_not_eq_true hmounted))
  unfold vfsPathResolve
  rw [failIf_pass nofun, bind_ok (show get s = _ from rfl)]
  show (Program.ofExcept (s.validateContext context) >>= _) s = _
  rw [hvalid]
  rfl

/-- The counters of a mount are the number of its open operations, whatever the order of the calls; a mount goes only when
    no operation is open and its sync succeeded; none begins before that unless the mount is active; and contexts of
    earlier mounts are refused. -/
theorem lifecycle_sound (h : Run s tr) :
    (∀ m, (s.mounts m).mounted = true → (s.mounts m).activeOperations = tr.opens m ∧ s.rootReferences m = tr.opens m) ∧
    (∀ m, (s.mounts m).mounted = false → tr.opens m = 0) ∧
    (∀ m, 0 < tr.opens m → ∃ u, vfsMountEndOperation (some m) s = (.ok (), u)) ∧
    (∀ u, vfsUnmountRoot s = (.ok (), u) → ∃ m, s.registry.root = some m ∧ tr.opens m = 0 ∧ s.Syncs m) ∧
    (∀ m mutation u, vfsMountBeginOperation (some m) mutation s = (.ok (), u) →
      (s.mounts m).mounted = true ∧ (s.mounts m).lifecycle = .active) ∧
    (∀ c path out object u, vfsPathResolve c path out s = (.ok object, u) → ∃ context m, c = some context ∧
      context.mount = some m ∧ (s.mounts m).mounted = true ∧ (s.mounts m).lifecycle = .active ∧
      context.mountGeneration = (s.mounts m).generation) ∧
    ∀ c, (c, true) ∈ tr.contexts → ∀ context : MountedContext μ, context.mountGeneration = c.mountGeneration →
      ∀ path, vfsPathResolve (some context) path true s = (.error .invalidState, s) := by
  obtain ⟨hk, hd⟩ := kept_run h
  refine ⟨fun m hm => ?_, fun m hm => ?_, fun m hpos => ?_, fun u hr => ?_, fun m mutation u hr => ?_,
    fun c path out object u hr => ?_, fun c hc context hgeneration path => hd.rejects hk hc hgeneration⟩
  · have hroot := (hk.mounted m).mp hm
    exact ⟨hk.active m hroot, hk.rootReferences hroot⟩
  · refine hk.closed m fun hx => ?_
    exact nomatch hm.symm.trans ((hk.mounted m).mpr hx)
  · have hend := hk.end_ok hpos
    unfold wp at hend
    split at hend
    · rename_i u hr
      exact ⟨u, hr⟩
    · exact hend.elim
  · have hu := wp_ok unmount_spec hr
    obtain ⟨m, world, hm, hidle, -, hsync, -⟩ := hu
    exact ⟨m, hm, (hk.active m hm).symm.trans hidle, hsync⟩
  · have hu := wp_ok begin_spec hr
    obtain ⟨n, hn, hmounted, hactive, -⟩ := hu
    cases hn
    exact ⟨hmounted, hactive⟩
  · have hu := wp_ok hk.resolve hr
    obtain ⟨⟨context, m, rfl, hvalid⟩, -⟩ := hu
    unfold validateContext at hvalid
    cases hm : context.mount with
    | none =>
      rw [hm] at hvalid
      cases hvalid
    | some n =>
      rw [hm] at hvalid
      dsimp only at hvalid
      split at hvalid
      · cases hvalid
      · rename_i hgood
        cases hvalid
        simp only [not_or, not_not, Bool.not_eq_false] at hgood
        exact ⟨context, m, rfl, hm, hgood.2.1, hgood.2.2.1, hgood.2.2.2.1⟩

def oneMount : VfsSystem (Fin 1) Unit Unit where
  registry := vfsMountRegistryInitialize
  mounts _ := ⟨some [], true, true, some (), none, .rw, none, none, 0, 0, .detached, false⟩
  objects _ := ⟨⟨rootCluster, .directory⟩, 0⟩
  world := ()

theorem lifecycle_sound_one : ∃ s : VfsSystem (Fin 1) Unit Unit, (s.mounts 0).activeOperations = 1 ∧ s.rootReferences 0 = 1 ∧
    ∀ u, vfsUnmountRoot s ≠ (.ok (), u) := by
  have hstart : Run oneMount ⟨fun _ => 0, []⟩ := .start ⟨rfl, fun _ => rfl, fun _ => rfl⟩
  have hmount : (Call.mountRoot (some 0) (some [ascii '/'])).run oneMount = (.ok none, _) := run_eq rfl
  have hbegin : (Call.beginOperation (some 0) true).run ((Call.mountRoot (some 0) (some [ascii '/'])).run oneMount).2 =
      (.ok none, _) := run_eq rfl
  have hpaired : (Call.mountRoot (some 0) (some [ascii '/']) : Call (Fin 1) Unit).Paired ⟨fun _ => 0, []⟩ := trivial
  have hpaired' : ∀ tr, (Call.beginOperation (some 0) true : Call (Fin 1) Unit).Paired tr := fun _ => trivial
  obtain ⟨hcounts, -, -, hunmount, -⟩ := lifecycle_sound (.returned (.returned hstart hpaired hmount) (hpaired' _) hbegin)
  obtain ⟨hactive, hreferences⟩ := hcounts 0 (by decide +kernel)
  refine ⟨_, hactive, hreferences, fun u hu => ?_⟩
  obtain ⟨m, -, hidle, -⟩ := hunmount u hu
  exact absurd hidle (by revert m; decide +kernel)

end VfsSystem
end InferenceOS
