import InferenceOS.Theorems.RootChain

/-! The classification of a volume by the mount. On a device whose sectors are readable the state of the mount says which
    copies of the superblock are good and whether the root chain is sound. -/

namespace InferenceOS
open Program

namespace FsMount
open Validator
variable {device d : BlockDevice} {g : Geometry} {n : Nat} {mount : FsMount}

def Derived (device : BlockDevice) (g : Geometry) : Prop :=
  calculateGeometry device.logicalSectorSize device.sectorCount = .ok g

/-- Copy `n` of the superblock decodes and matches the geometry of the device. -/
def Usable (device : BlockDevice) (n : Nat) : Prop :=
  ∃ superblock g, superblockDecode (device.contents n) = .ok superblock ∧ Derived device g ∧
    superblock.totalSectors = device.sectorCount ∧ superblock.sectorsPerFat = g.fatSectors ∧
      superblock.registryStartSector = g.registryStartSector

def Rooted (device : BlockDevice) : Prop := ∃ g, Derived device g ∧ RootSafe g (fatOf g device.contents)

theorem Derived.unique {g' : Geometry} (h : Derived device g) (h' : Derived device g') : g = g' := by
  unfold Derived at h h'
  rw [h] at h'
  cases h'
  rfl

theorem Derived.placed (h : Derived device g) : Placed g device := by
  obtain ⟨hlaid, htotal, -, -, -, hreg, -⟩ := calculateGeometry_eq h
  exact ⟨hlaid, hreg, htotal.le⟩

theorem Rooted.safe (h : Derived device g) : Rooted device ↔ RootSafe g (fatOf g device.contents) := by
  constructor
  · rintro ⟨g', h', hs⟩
    rwa [h.unique h']
  · exact fun hs => ⟨g, h, hs⟩

theorem boundsOf_spec :
    ((mount.boundsOf device (superblockDecode (device.contents n))).1 = true ↔ Usable device n) ∧
      ∀ g, Derived device g → (mount.geometry = g ∨ Usable device n) →
        (mount.boundsOf device (superblockDecode (device.contents n))).2.geometry = g := by
  rcases hs : superblockDecode (device.contents n) with e | superblock
  · have hno : ¬Usable device n := fun ⟨_, _, hx, _⟩ => by
      rw [hs] at hx
      cases hx
    rw [boundsOf]
    exact ⟨⟨nofun, fun hx => absurd hx hno⟩, fun g _ hg => hg.resolve_right hno⟩
  · rw [boundsOf]
    unfold geometryMatches
    split
    · rename_i hne
      have hno : ¬Usable device n := fun ⟨_, _, hx, _, ht, _⟩ => by
        rw [hs] at hx
        cases hx
        exact hne ht
      exact ⟨⟨nofun, fun hx => absurd hx hno⟩, fun g _ hg => hg.resolve_right hno⟩
    · rename_i heq
      split
      · rename_i he
        have hno : ¬∃ g, Derived device g := fun ⟨_, hx⟩ => by
          unfold Derived at hx
          rw [he] at hx
          cases hx
        exact ⟨⟨nofun, fun ⟨_, g, _, hg, _⟩ => absurd ⟨g, hg⟩ hno⟩, fun g hg _ => absurd ⟨g, hg⟩ hno⟩
      · rename_i he
        have hno : ¬∃ g, Derived device g := fun ⟨_, hx⟩ => by
          unfold Derived at hx
          rw [he] at hx
          cases hx
        exact ⟨⟨nofun, fun ⟨_, g, _, hg, _⟩ => absurd ⟨g, hg⟩ hno⟩, fun g hg _ => absurd ⟨g, hg⟩ hno⟩
      · rename_i g he
        refine ⟨⟨fun hx => ?_, fun ⟨_, g', hx, hg, _, hf, hr⟩ => ?_⟩, fun g' hg _ => Derived.unique he hg⟩
        · rw [Bool.and_eq_true, beq_iff_eq, beq_iff_eq] at hx
          exact ⟨superblock, g, hs, he, not_not.mp heq, hx.1.symm, hx.2.symm⟩
        · rw [hs] at hx
          cases hx
          rw [hg.unique he] at hf hr
          rw [Bool.and_eq_true, beq_iff_eq, beq_iff_eq]
          exact ⟨hf.symm, hr.symm⟩

def Writable (device : BlockDevice) : Prop :=
  Usable device 0 ∧ Usable device 1 ∧ device.contents 0 = device.contents 1 ∧ Rooted device

def Mountable (device : BlockDevice) : Prop := (Usable device 0 ∨ Usable device 1) ∧ Rooted device

/-- The mount classifies the device, and its geometry and superblock can be relied on. -/
structure Classified (device : BlockDevice) (mount : FsMount) : Prop where
  rw : mount.report.state = .rw ↔ Writable device
  diagnostic : mount.report.state = .diagnostic ↔ Mountable device ∧ ¬Writable device
  rejected : mount.report.state = .rejected ↔ ¬Mountable device
  geometry : mount.report.state ≠ .rejected → Derived device mount.geometry
  superblock : mount.report.state ≠ .rejected →
    ∃ n, n < 2 ∧ Usable device n ∧ superblockDecode (device.contents n) = .ok mount.superblock

theorem Writable.mountable (h : Writable device) : Mountable device := ⟨Or.inl h.1, h.2.2.2⟩

theorem classified_rejected (hs : mount.report.state = .rejected) (h : ¬Mountable device) : Classified device mount where
  rw := ⟨fun hx => (nomatch hs.symm.trans hx), fun hx => absurd hx.mountable h⟩
  diagnostic := ⟨fun hx => (nomatch hs.symm.trans hx), fun hx => absurd hx.1 h⟩
  rejected := ⟨fun _ => h, fun _ => hs⟩
  geometry hx := absurd hs hx
  superblock hx := absurd hs hx

theorem classified_rw (hs : mount.report.state = .rw) (h : Writable device) (hg : Derived device mount.geometry)
    (hd : superblockDecode (device.contents 0) = .ok mount.superblock) : Classified device mount where
  rw := ⟨fun _ => h, fun _ => hs⟩
  diagnostic := ⟨fun hx => (nomatch hs.symm.trans hx), fun hx => absurd h hx.2⟩
  rejected := ⟨fun hx => (nomatch hs.symm.trans hx), fun hx => absurd h.mountable hx⟩
  geometry _ := hg
  superblock _ := ⟨0, Nat.two_pos, h.1, hd⟩

theorem classified_diagnostic (hs : mount.report.state = .diagnostic) (h : Mountable device) (hn : ¬Writable device)
    (hg : Derived device mount.geometry)
    (hd : ∃ n, n < 2 ∧ Usable device n ∧ superblockDecode (device.contents n) = .ok mount.superblock) :
    Classified device mount where
  rw := ⟨fun hx => (nomatch hs.symm.trans hx), fun hx => absurd hx hn⟩
  diagnostic := ⟨fun _ => ⟨h, hn⟩, fun _ => hs⟩
  rejected := ⟨fun hx => (nomatch hs.symm.trans hx), fun hx => absurd h hx⟩
  geometry _ := hg
  superblock _ := hd

theorem Usable.decodes (h : Usable device n) :
    superblockDecode (device.contents n) = .ok ((superblockDecode (device.contents n)).toOption.getD Superblock.zero) := by
  obtain ⟨superblock, -, hs, -⟩ := h
  rw [hs]
  rfl

theorem classifyPair_readWrite (h₀ : Usable device 0) (h₁ : Usable device 1) :
    superblockClassifyPair (device.contents 0) (device.contents 1) = .readWrite ↔ device.contents 0 = device.contents 1 := by
  obtain ⟨superblock, -, hs, -⟩ := h₀
  obtain ⟨superblock', -, hs', -⟩ := h₁
  rw [superblockClassifyPair]
  rw [hs, hs']
  show (if _ then _ else _) = _ ↔ _
  split <;> rename_i heq <;> simp [heq]

theorem probeCopies_spec (h : device.Readable) :
    wp (probeCopies mount (device.contents 0) (device.contents 1))
      (fun r d => device.Ticked d ∧ r.1 = .ok () ∧ Classified device r.2) (fun _ _ => False) device := by
  unfold probeCopies
  rw [wp_bind, wp_get]
  -- The decoded copies are named, or their checks are computed again and again.
  extract_lets primary backup
  split
  rename_i b₀ m₀ hr₀
  split
  rename_i b₁ m₁ hr₁
  obtain ⟨h₀, hg₀⟩ := @boundsOf_spec device 0 mount
  obtain ⟨h₁, hg₁⟩ := @boundsOf_spec device 1 m₀
  rw [show mount.boundsOf device (superblockDecode (device.contents 0)) = (b₀, m₀) from hr₀] at h₀ hg₀
  rw [show m₀.boundsOf device (superblockDecode (device.contents 1)) = (b₁, m₁) from hr₁] at h₁ hg₁
  by_cases hnone : b₀ = false ∧ b₁ = false
  · rw [if_pos hnone]
    refine ⟨.refl, rfl, classified_rejected ?_ fun hx => ?_⟩
    · show stateForReason (if _ then _ else _) = .rejected
      split <;> rfl
    · rcases hx.1 with hu | hu
      · exact absurd (h₀.mpr hu) (by simp [hnone.1])
      · exact absurd (h₁.mpr hu) (by simp [hnone.2])
  rw [if_neg hnone]
  have husable : Usable device 0 ∨ Usable device 1 := by
    cases b₀ with
    | true => exact Or.inl (h₀.mp rfl)
    | false =>
      cases b₁ with
      | true => exact Or.inr (h₁.mp rfl)
      | false => exact absurd ⟨rfl, rfl⟩ hnone
  obtain ⟨g, hg⟩ : ∃ g, Derived device g := by
    rcases husable with ⟨_, g, _, hg, _⟩ | ⟨_, g, _, hg, _⟩ <;> exact ⟨g, hg⟩
  have hgeometry : m₁.geometry = g := hg₁ g hg (husable.imp (fun hu => hg₀ g hg (Or.inr hu)) id)
  rw [wp_bind, wp_attempt, hgeometry]
  refine wp_mono (validateRootChain_spec hg.placed h) (fun _ d ⟨hd, hsafe, _⟩ => ?_) fun e d ⟨hd, he, hno⟩ => ?_
  · have hroot : Rooted device := (Rooted.safe hg).mpr hsafe
    dsimp only
    split
    · rename_i hx
      rw [wp_pure]
      obtain ⟨hx₀, hx₁, hpair⟩ := hx
      have hu₀ := h₀.mp hx₀
      have hu₁ := h₁.mp hx₁
      refine ⟨hd, rfl, classified_rw rfl ⟨hu₀, hu₁, (classifyPair_readWrite hu₀ hu₁).mp hpair, hroot⟩ ?_ hu₀.decodes⟩
      exact hg
    · rename_i hx
      rw [wp_pure]
      refine ⟨hd, rfl, classified_diagnostic ?_ ⟨husable, hroot⟩ (fun hw => hx ?_) ?_ ?_⟩
      · show stateForReason (if _ then _ else if _ then _ else _) = .diagnostic
        split
        · rfl
        · split <;> rfl
      · exact ⟨h₀.mpr hw.1, h₁.mpr hw.2.1, (classifyPair_readWrite hw.1 hw.2.1).mpr hw.2.2.1⟩
      · exact hg
      · cases b₀ with
        | true =>
          rw [if_pos rfl]
          exact ⟨0, by omega, h₀.mp rfl, (h₀.mp rfl).decodes⟩
        | false =>
          have hu₁ : Usable device 1 := husable.resolve_left fun hu => Bool.false_ne_true (h₀.mpr hu)
          rw [if_neg Bool.false_ne_true]
          exact ⟨1, by omega, hu₁, hu₁.decodes⟩
  · subst he
    refine ⟨hd, rfl, classified_rejected rfl fun hx => hno ((Rooted.safe hg).mp hx.2)⟩

theorem Classified.ticked (ht : device.Ticked d) (h : Classified d mount) : Classified device mount := by
  have hderived : Derived d = Derived device := by
    funext g
    rw [Derived, Derived, ht.sectorCount, ht.logicalSectorSize]
  have husable : Usable d = Usable device := by
    funext n
    rw [Usable, Usable, hderived, ht.contents, ht.sectorCount]
  have hrooted : Rooted d = Rooted device := by rw [Rooted, Rooted, hderived, ht.contents]
  have hwritable : Writable d = Writable device := by rw [Writable, Writable, husable, hrooted, ht.contents]
  have hmountable : Mountable d = Mountable device := by rw [Mountable, Mountable, husable, hrooted]
  obtain ⟨h₁, h₂, h₃, h₄, h₅⟩ := h
  rw [hwritable] at h₁ h₂
  rw [hmountable] at h₂ h₃
  rw [hderived] at h₄
  rw [husable, ht.contents] at h₅
  exact ⟨h₁, h₂, h₃, h₄, h₅⟩

theorem probe_spec (h : device.Readable) :
    wp probe (fun r d => device.Ticked d ∧ r.1 = .ok () ∧ Classified device r.2) (fun _ _ => False) device := by
  unfold probe
  rw [wp_bind, wp_get]
  split
  · rename_i hx
    have hno : ∀ g, ¬Derived device g := fun g hg => by
      obtain ⟨-, htotal, hsize, hmin, -⟩ := calculateGeometry_eq hg
      rcases hx with hx | hx
      · exact hx hsize
      · exact absurd hmin (not_le.mpr hx)
    exact ⟨.refl, rfl, classified_rejected rfl fun ⟨_, g, hg, _⟩ => hno g hg⟩
  · rename_i hx
    obtain ⟨-, hmin⟩ := not_or.mp hx
    have hlow : 2 ≤ device.sectorCount := by
      unfold minimumVolumeSectors at hmin
      omega
    simp only [wp_bind, wp_attempt]
    refine wp_mono (BlockDevice.readable_spec h (by omega)) (fun buffer d ⟨hb, hd⟩ => ?_) fun _ _ hx => hx.elim
    rw [wp_bind]
    refine wp_mono (BlockDevice.readable_spec (hd.readable h) (by rw [hd.sectorCount]; omega))
      (fun buffer' d' ⟨hb', hd'⟩ => ?_) fun _ _ hx => hx.elim
    have ht := hd.trans hd'
    rw [wp_pure, hb, hb', hd.contents, ← ht.contents]
    exact wp_mono (probeCopies_spec (ht.readable h)) (fun r e ⟨he, hr, hc⟩ => ⟨ht.trans he, hr, hc.ticked ht⟩)
      fun _ _ hx => hx.elim

/-- A readable device is mounted as exactly what it is. -/
theorem probe_exact (h : device.Readable) :
    ∃ mount d, probe device = (.ok (.ok (), mount), d) ∧ device.Ticked d ∧ Classified device mount := by
  rcases hp : probe device with ⟨e | ⟨status, mount⟩, d⟩
  · exact (wp_error (probe_spec h) hp).elim
  · obtain ⟨ht, hs, hc⟩ := wp_ok (probe_spec h) hp
    exact ⟨mount, d, by rw [show status = .ok () from hs], ht, hc⟩

end FsMount

end InferenceOS
