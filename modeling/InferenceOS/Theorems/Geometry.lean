import InferenceOS.Lib.Bisection
import InferenceOS.Theorems.Formatting
import Mathlib

/-! The geometry of a volume: what the bisection of the formatter finds, the exact arithmetic behind it, and the
    regions that a superblock describes when the decoder accepts it. -/

namespace InferenceOS
open Program

/-- The clusters that fit behind the table and the registry. -/
def clustersBehind (totalSectors fatSectors : Nat) : ℤ :=
  ((totalSectors : ℤ) - superblockSectors - fatSectors - registrySectors) / sectorsPerCluster

/-- The table has an entry for every cluster behind it. -/
def FatSuffices (totalSectors fatSectors : Nat) : Prop :=
  clustersBehind totalSectors fatSectors + 2 ≤ (fatEntriesPerSector : ℤ) * fatSectors

section Search
variable {total fuel low high F : Nat}

theorem fatSuffices_monotone : Monotone (FatSuffices total) := by
  intro a b hab h
  unfold FatSuffices clustersBehind superblockSectors registrySectors sectorsPerCluster fatEntriesPerSector at *
  push_cast at *
  omega

theorem clustersBehind_eq (h : superblockSectors + F + registrySectors ≤ total) :
    clustersBehind total F = ((total - (superblockSectors + F + registrySectors)) / sectorsPerCluster : Nat) := by
  unfold clustersBehind superblockSectors registrySectors sectorsPerCluster at *
  push_cast
  omega

theorem required_le_iff (h : superblockSectors + F + registrySectors ≤ total) :
    ((total - (superblockSectors + F + registrySectors)) / sectorsPerCluster + 2 + (fatEntriesPerSector - 1)) /
      fatEntriesPerSector ≤ F ↔ FatSuffices total F := by
  unfold FatSuffices
  rw [clustersBehind_eq h]
  unfold fatEntriesPerSector
  omega

def searchEnd (totalSectors : Nat) : Nat :=
  (totalSectors / sectorsPerCluster + 2 + (fatEntriesPerSector - 1)) / fatEntriesPerSector

theorem bracket_start (h : minimumVolumeSectors ≤ total) : Bracket (FatSuffices total) 1 (searchEnd total) := by
  unfold minimumVolumeSectors at h
  refine ⟨?_, ?_, fun k hk hs => ?_⟩
  · unfold searchEnd sectorsPerCluster fatEntriesPerSector
    omega
  · unfold FatSuffices clustersBehind searchEnd superblockSectors registrySectors sectorsPerCluster fatEntriesPerSector
    push_cast
    omega
  · unfold FatSuffices clustersBehind superblockSectors registrySectors sectorsPerCluster fatEntriesPerSector at hs
    omega

theorem searchEnd_room (h : minimumVolumeSectors ≤ total) (hF : F ≤ searchEnd total) :
    superblockSectors + F + registrySectors < total := by
  unfold searchEnd minimumVolumeSectors superblockSectors registrySectors sectorsPerCluster fatEntriesPerSector at *
  omega

theorem searchFatSectors_isLeast (hmin : minimumVolumeSectors ≤ total) (hmax : total < 2 ^ 64) :
    ∀ {fuel low high : Nat}, Bracket (FatSuffices total) low high → high ≤ searchEnd total → high - low ≤ fuel →
      ∃ F, searchFatSectors total fuel low high = .ok F ∧ IsLeast {F | FatSuffices total F} F ∧ F ≤ searchEnd total
  | 0, low, high, hb, hhigh, hf => by
    have hle : ¬low < high := by omega
    exact ⟨low, rfl, hb.isLeast hle, hb.ordered.trans hhigh⟩
  | fuel + 1, low, high, hb, hhigh, hf => by
    unfold searchFatSectors
    split
    case isFalse hle => exact ⟨low, rfl, hb.isLeast hle, hb.ordered.trans hhigh⟩
    case isTrue hlt =>
      have hmiddle := Bracket.middle_lt hlt
      have hroom := searchEnd_room hmin (hmiddle.le.trans hhigh)
      generalize hc : low + (high - low) / 2 = candidate at *
      dsimp only
      have hcount : (total - (superblockSectors + candidate + registrySectors)) / sectorsPerCluster ≤ total :=
        (Nat.div_le_self _ _).trans (Nat.sub_le _ _)
      have hcandidate : ¬2 ^ 64 - 1 - superblockSectors - registrySectors < candidate := by
        unfold superblockSectors registrySectors at *
        omega
      have hclusters : ¬2 ^ 64 - 1 - 2 < (total - (superblockSectors + candidate + registrySectors)) / sectorsPerCluster := by
        unfold superblockSectors registrySectors sectorsPerCluster at *
        omega
      rw [if_neg hcandidate, if_neg (not_le.mpr hroom), if_neg hclusters]
      split
      case isTrue hp =>
        exact searchFatSectors_isLeast hmin hmax (hb.left (by omega) ((required_le_iff hroom.le).mp hp))
          (hmiddle.le.trans hhigh) (by omega)
      case isFalse hp =>
        exact searchFatSectors_isLeast hmin hmax
          (hb.right fatSuffices_monotone hmiddle fun hs => hp ((required_le_iff hroom.le).mpr hs)) hhigh (by omega)

theorem fatSectors_lt (hmin : minimumVolumeSectors ≤ total) (hl : IsLeast {F | FatSuffices total F} F)
    (hc : clustersBehind total F ≤ maxDataCluster - 1) : 0 < F ∧ F < 2 ^ 32 ∧ 0 < clustersBehind total F := by
  have hpos : 0 < F := by
    refine Nat.pos_of_ne_zero fun hz => (bracket_start hmin).below F (by omega) hl.1
  have hbefore : ¬FatSuffices total (F - 1) := fun hs => absurd (hl.2 hs) (by omega)
  unfold FatSuffices clustersBehind superblockSectors registrySectors sectorsPerCluster fatEntriesPerSector maxDataCluster
    minimumVolumeSectors at *
  push_cast [Nat.cast_sub (show 1 ≤ F by omega)] at *
  refine ⟨hpos, by omega, by omega⟩

end Search

theorem calculateGeometry_of_isLeast {total F : Nat} (hmin : minimumVolumeSectors ≤ total) (hmax : total < 2 ^ 64)
    (hl : IsLeast {F | FatSuffices total F} F) (hc : clustersBehind total F ≤ maxDataCluster - 1) :
    ∃ g, calculateGeometry 512 total = .ok g ∧ g.fatSectors = F := by
  obtain ⟨F', hs, hl', hend⟩ := searchFatSectors_isLeast hmin hmax (bracket_start hmin) le_rfl (Nat.sub_le _ _)
  obtain rfl := hl'.unique hl
  have hroom := searchEnd_room hmin hend
  obtain ⟨hpos, hlt, hcpos⟩ := fatSectors_lt hmin hl hc
  have hsuffices : clustersBehind total F' + 2 ≤ (fatEntriesPerSector : ℤ) * F' := hl.1
  rw [clustersBehind_eq hroom.le] at hc hcpos hsuffices
  have hcounts : ¬((total - (superblockSectors + F' + registrySectors)) / sectorsPerCluster = 0 ∨
      maxDataCluster - 1 < (total - (superblockSectors + F' + registrySectors)) / sectorsPerCluster ∨
      2 ^ 32 - 1 < (total - (superblockSectors + F' + registrySectors)) / sectorsPerCluster ∨
      F' * fatEntriesPerSector < (total - (superblockSectors + F' + registrySectors)) / sectorsPerCluster + 2) := by
    unfold maxDataCluster fatEntriesPerSector at *
    omega
  unfold calculateGeometry
  unfold searchEnd at hs
  rw [if_neg (not_not.mpr rfl), if_neg (not_lt.mpr hmin)]
  dsimp only
  rw [hs]
  change ∃ g, (if 2 ^ 32 - 1 < F' then _ else _) = Except.ok g ∧ _
  rw [if_neg (by omega), if_neg (not_le.mpr hroom), if_neg hcounts]
  exact ⟨_, rfl, rfl⟩

theorem calculateGeometry_isLeast {size total : Nat} {g : Geometry} (hmax : total < 2 ^ 64)
    (hg : calculateGeometry size total = .ok g) :
    IsLeast {F | FatSuffices total F} g.fatSectors ∧ (g.clusterCount : ℤ) = clustersBehind total g.fatSectors := by
  obtain ⟨hlaid, -, rfl, hmin, -, -, hcount, hlt⟩ := calculateGeometry_eq hg
  rw [hlaid.data] at hcount hlt
  rw [hcount, clustersBehind_eq hlt.le]
  refine ⟨?_, rfl⟩
  obtain ⟨F, hs, hleast, -⟩ := searchFatSectors_isLeast hmin hmax (bracket_start hmin) le_rfl (Nat.sub_le _ _)
  unfold calculateGeometry at hg
  obtain ⟨-, h₁⟩ := of_check hg
  obtain ⟨-, h₂⟩ := of_check h₁
  obtain ⟨low, hlow, h₃⟩ := of_bind_ok h₂
  obtain ⟨-, h₄⟩ := of_check h₃
  obtain ⟨-, h₅⟩ := of_check h₄
  obtain ⟨-, h₆⟩ := of_check h₅
  cases h₆
  obtain rfl : F = low := Except.ok.inj (hs.symm.trans hlow)
  exact hleast

def fits64 (value : Nat) : Option Nat := if value < 2 ^ 64 then some value else none

def sub64 (a b : Nat) : Option Nat := if b ≤ a then some (a - b) else none

/-- The search, given up at an operation that would wrap. -/
def searchFatSectors64 (totalSectors : Nat) : Nat → Nat → Nat → Option (Except IosError Nat)
  | 0, low, _ => some (.ok low)
  | fuel + 1, low, high =>
    if low < high then do
      let candidate ← fits64 (low + (← sub64 high low) / 2)
      if 2 ^ 64 - 1 - superblockSectors - registrySectors < candidate then return .error .overflow
      let fixedSectors ← fits64 ((← fits64 (superblockSectors + candidate)) + registrySectors)
      if totalSectors ≤ fixedSectors then return .error .noSpace
      let clusterCount := (← sub64 totalSectors fixedSectors) / sectorsPerCluster
      if 2 ^ 64 - 1 - 2 < clusterCount then return .error .overflow
      let requiredEntries ← fits64 (clusterCount + 2)
      let required := (← fits64 (requiredEntries + (fatEntriesPerSector - 1))) / fatEntriesPerSector
      if required ≤ candidate then searchFatSectors64 totalSectors fuel low candidate
      else searchFatSectors64 totalSectors fuel (← fits64 (candidate + 1)) high
    else some (.ok low)

/-- `ios_fs_calculate_geometry`, given up at an operation that would wrap. -/
def calculateGeometry64 (logicalSectorSize totalSectors : Nat) : Option (Except IosError Geometry) := do
  if logicalSectorSize ≠ 512 then return .error .invalidArgument
  if totalSectors < minimumVolumeSectors then return .error .noSpace
  let high := (← fits64 ((← fits64 (totalSectors / sectorsPerCluster + 2)) + (fatEntriesPerSector - 1))) / fatEntriesPerSector
  match ← searchFatSectors64 totalSectors high 1 high with
  | .error e => return .error e
  | .ok low =>
    if 2 ^ 32 - 1 < low then return .error .outOfRange
    let registryStartSector ← fits64 (superblockSectors + low)
    let fixedSectors ← fits64 (registryStartSector + registrySectors)
    if totalSectors ≤ fixedSectors then return .error .noSpace
    let clusterCount := (← sub64 totalSectors fixedSectors) / sectorsPerCluster
    let entries ← fits64 (low * fatEntriesPerSector)
    if clusterCount = 0 ∨ maxDataCluster - 1 < clusterCount ∨ 2 ^ 32 - 1 < clusterCount ∨
        entries < (← fits64 (clusterCount + 2)) then return .error .outOfRange
    let usableBytes ← fits64 ((← fits64 (clusterCount * sectorsPerCluster)) * 512)
    return .ok { totalSectors, fatSectors := low, registryStartSector, dataStartSector := fixedSectors, clusterCount, usableBytes }

section Exact
variable {a b value total : Nat} {α : Type}

theorem fits64_bind {f : Nat → Option α} (h : value < 2 ^ 64) : fits64 value >>= f = f value := by
  rw [fits64, if_pos h, Option.bind_eq_bind, Option.bind_some]

theorem sub64_bind {f : Nat → Option α} (h : b ≤ a) : sub64 a b >>= f = f (a - b) := by
  rw [sub64, if_pos h, Option.bind_eq_bind, Option.bind_some]

theorem searchFatSectors64_eq (hmax : total < 2 ^ 64) : ∀ {fuel low high : Nat}, low ≤ high → high < 2 ^ 62 →
    searchFatSectors64 total fuel low high = some (searchFatSectors total fuel low high)
  | 0, low, high, _, _ => rfl
  | fuel + 1, low, high, hle, hhigh => by
    unfold searchFatSectors64 searchFatSectors
    split
    case isFalse hlt => rfl
    case isTrue hlt =>
      dsimp only
      have hmiddle := Bracket.middle_lt hlt
      have hlow : low ≤ low + (high - low) / 2 := Nat.le_add_right _ _
      rw [sub64_bind hle, fits64_bind (by omega)]
      generalize low + (high - low) / 2 = candidate at *
      have hcandidate : ¬2 ^ 64 - 1 - superblockSectors - registrySectors < candidate := by
        unfold superblockSectors registrySectors
        omega
      have hfixed : superblockSectors + candidate + registrySectors < 2 ^ 64 := by
        unfold superblockSectors registrySectors
        omega
      rw [if_neg hcandidate, if_neg hcandidate, fits64_bind (by omega), fits64_bind hfixed]
      rcases Nat.lt_or_ge (superblockSectors + candidate + registrySectors) total with hroom | hroom
      · rw [if_neg (not_le.mpr hroom), if_neg (not_le.mpr hroom), sub64_bind hroom.le]
        have hclusters : (total - (superblockSectors + candidate + registrySectors)) / sectorsPerCluster < 2 ^ 61 := by
          unfold sectorsPerCluster
          omega
        generalize (total - (superblockSectors + candidate + registrySectors)) / sectorsPerCluster = clusterCount at *
        rw [if_neg (by omega), if_neg (by omega), fits64_bind (by omega), fits64_bind (by unfold fatEntriesPerSector; omega)]
        split
        · exact searchFatSectors64_eq hmax hlow (by omega)
        · rw [fits64_bind (by omega)]
          exact searchFatSectors64_eq hmax hmiddle hhigh
      · rw [if_pos hroom, if_pos hroom]
        rfl

theorem calculateGeometry64_eq (size : Nat) (hmax : total < 2 ^ 64) :
    calculateGeometry64 size total = some (calculateGeometry size total) := by
  unfold calculateGeometry64 calculateGeometry
  split
  · rfl
  split
  · rfl
  dsimp only
  have hhigh : total / sectorsPerCluster + 2 + (fatEntriesPerSector - 1) < 2 ^ 62 := by
    unfold sectorsPerCluster fatEntriesPerSector
    omega
  have hone : 1 ≤ (total / sectorsPerCluster + 2 + (fatEntriesPerSector - 1)) / fatEntriesPerSector :=
    (Nat.le_div_iff_mul_le (by decide)).mpr (by
      rw [Nat.one_mul]
      unfold sectorsPerCluster fatEntriesPerSector
      omega)
  rw [fits64_bind (by omega), fits64_bind (by omega),
    searchFatSectors64_eq hmax hone ((Nat.div_le_self _ _).trans_lt hhigh), Option.bind_eq_bind, Option.bind_some]
  rcases searchFatSectors total _ 1 _ with e | low
  · rfl
  change (if 2 ^ 32 - 1 < low then _ else _) = some (if 2 ^ 32 - 1 < low then _ else _)
  rcases Nat.lt_or_ge (2 ^ 32 - 1) low with hlow | hlow
  · rw [if_pos hlow, if_pos hlow]
    rfl
  have hfixed : superblockSectors + low + registrySectors < 2 ^ 64 := by
    unfold superblockSectors registrySectors
    omega
  rw [if_neg (not_lt.mpr hlow), if_neg (not_lt.mpr hlow), fits64_bind (by omega), fits64_bind hfixed]
  rcases Nat.lt_or_ge (superblockSectors + low + registrySectors) total with hroom | hroom
  · rw [if_neg (not_le.mpr hroom), if_neg (not_le.mpr hroom), sub64_bind hroom.le]
    have hclusters := Nat.div_mul_le_self (total - (superblockSectors + low + registrySectors)) sectorsPerCluster
    generalize (total - (superblockSectors + low + registrySectors)) / sectorsPerCluster = clusterCount at *
    have hentries : low * fatEntriesPerSector < 2 ^ 64 := by
      unfold fatEntriesPerSector
      omega
    unfold sectorsPerCluster at hclusters ⊢
    rw [fits64_bind hentries, fits64_bind (by omega)]
    split
    · rfl
    · rename_i hcounts
      have hcount : clusterCount < 2 ^ 32 := by omega
      rw [fits64_bind (by omega), fits64_bind (by omega)]
      rfl
  · rw [if_pos hroom, if_pos hroom]
    rfl

end Exact

def Geometry.regions (g : Geometry) : List (Nat × Nat) :=
  [(0, superblockSectors), (superblockSectors, g.fatSectors), (g.registryStartSector, registrySectors),
    (g.dataStartSector, g.clusterCount * sectorsPerCluster)]

theorem pairwise_disjoint_of_consecutive {regions : List (Nat × Nat)}
    (h : regions.IsChain fun a b => a.1 + a.2 = b.1) :
    regions.Pairwise fun a b => Disjoint (Set.Ico a.1 (a.1 + a.2)) (Set.Ico b.1 (b.1 + b.2)) := by
  have hchain : regions.IsChain fun a b => a.1 + a.2 ≤ b.1 := h.imp fun _ _ => le_of_eq
  have : IsTrans (Nat × Nat) fun a b => a.1 + a.2 ≤ b.1 := ⟨fun a b c hab hbc => by omega⟩
  refine (List.isChain_iff_pairwise.mp hchain).imp fun {a b} hab => ?_
  rw [Set.disjoint_left]
  intro n ha hb
  exact absurd (ha.2.trans_le hab) (not_lt.mpr hb.1)

/-- The geometry that the formatter calculates has the least table that holds an entry for each cluster behind it and two
    more. It exists for the volumes of the minimum size with few enough clusters behind that table, its regions cover the
    volume one after the other, and the calculation does not wrap. -/
theorem calculateGeometry_least (size : Nat) (total : UInt64) :
    ((∃ g, calculateGeometry size total.toNat = .ok g) ↔ size = 512 ∧ minimumVolumeSectors ≤ total.toNat ∧
      ∃ F, IsLeast {F | FatSuffices total.toNat F} F ∧ clustersBehind total.toNat F ≤ 0x0fffffee) ∧
    (∀ g, calculateGeometry size total.toNat = .ok g →
      IsLeast {F | FatSuffices total.toNat F} g.fatSectors ∧
      (g.clusterCount : ℤ) = clustersBehind total.toNat g.fatSectors ∧
      (g.regions.IsChain fun a b => a.1 + a.2 = b.1) ∧
      (g.regions.Pairwise fun a b => Disjoint (Set.Ico a.1 (a.1 + a.2)) (Set.Ico b.1 (b.1 + b.2))) ∧
      ∀ i < g.clusterCount, g.dataStartSector + i * sectorsPerCluster + sectorsPerCluster ≤ total.toNat) ∧
    calculateGeometry64 size total.toNat = some (calculateGeometry size total.toNat) := by
  have hmax := total.toNat_lt
  refine ⟨⟨?_, ?_⟩, ?_, calculateGeometry64_eq size hmax⟩
  · rintro ⟨g, hg⟩
    obtain ⟨hlaid, -, rfl, hmin, -⟩ := calculateGeometry_eq hg
    obtain ⟨hleast, hcount⟩ := calculateGeometry_isLeast hmax hg
    refine ⟨rfl, hmin, g.fatSectors, hleast, ?_⟩
    rw [← hcount]
    have := hlaid.clusters
    unfold maxDataCluster at this
    omega
  · rintro ⟨rfl, hmin, F, hleast, hc⟩
    obtain ⟨g, hg, -⟩ := calculateGeometry_of_isLeast hmin hmax hleast hc
    exact ⟨g, hg⟩
  · intro g hg
    obtain ⟨hleast, hcount⟩ := calculateGeometry_isLeast hmax hg
    obtain ⟨hlaid, htotal, -, -, -, hregistry, -, -⟩ := calculateGeometry_eq hg
    have hconsecutive : g.regions.IsChain fun a b => a.1 + a.2 = b.1 := by
      simp [Geometry.regions, hregistry, hlaid.data]
    refine ⟨hleast, hcount, hconsecutive, pairwise_disjoint_of_consecutive hconsecutive, fun i hi => ?_⟩
    have hlast : (i + 1) * sectorsPerCluster ≤ g.clusterCount * sectorsPerCluster := Nat.mul_le_mul_right _ hi
    have := hlaid.total
    rw [htotal] at this
    rw [Nat.succ_mul] at hlast
    omega

theorem superblockDecode_regions {disk : Sector} {values : Superblock} (h : superblockDecode disk = .ok values) :
    values.sectorsPerFat = disk.toNat 0x20 4 ∧
      values.registryStartSector = (superblockSectors + disk.toNat 0x20 4) % 2 ^ 32 ∧
      values.registryStartSector + registrySectors < values.totalSectors := by
  unfold superblockDecode at h
  split at h
  · cases h
  dsimp only at h
  split at h
  · cases h
  rename_i hv
  cases h
  simp only [not_or, not_not] at hv
  obtain ⟨-, -, -, -, -, -, -, -, -, -, -, -, -, hregistry, -, htotal, -⟩ := hv
  exact ⟨rfl, hregistry, not_le.mp htotal⟩

/-- An accepted superblock describes the regions of a volume exactly where the length of its table does not make the
    start of the registry region wrap. -/
theorem superblockDecode_regions_iff {disk : Sector} {values : Superblock} (h : superblockDecode disk = .ok values) :
    (values.registryStartSector = superblockSectors + values.sectorsPerFat ∧
      values.registryStartSector + registrySectors < values.totalSectors) ↔ disk.toNat 0x20 4 < 2 ^ 32 - 2 := by
  obtain ⟨hfat, hregistry, htotal⟩ := superblockDecode_regions h
  have hlt : disk.toNat 0x20 4 < 2 ^ 32 := Bytes.toNat_lt
  rw [hfat, and_iff_left htotal, hregistry]
  unfold superblockSectors
  omega

def geometryLabel : Bytes 11 := Bytes.ofList 11 ("INFERENCEOS".toList.map ascii)

def wrappingSuperblock : Superblock :=
  { totalSectors := 5000, sectorsPerFat := 2 ^ 32 - 2, registryStartSector := 0, volumeSerial := 0, flags := 0
    volumeLabel := geometryLabel }

theorem exists_encoded {values : Superblock} (h : validLabel values.volumeLabel = true) (ht : values.totalSectors < 2 ^ 64)
    (hf : values.sectorsPerFat < 2 ^ 32)
    (hv : ¬(values.totalSectors = 0 ∨ values.sectorsPerFat = 0 ∨ values.flags ≠ 0 ∨
      values.registryStartSector ≠ (superblockSectors + values.sectorsPerFat) % 2 ^ 32 ∨
      2 ^ 64 - 1 - registrySectors < values.registryStartSector ∨
      values.totalSectors ≤ values.registryStartSector + registrySectors)) :
    ∃ disk : Sector, superblockEncode values = .ok disk ∧
      superblockDecode disk = .ok { values with volumeSerial := values.volumeSerial % 2 ^ 32 } ∧
      disk.toNat 0x20 4 = values.sectorsPerFat := by
  obtain ⟨disk, hdisk⟩ : ∃ disk, superblockEncode values = .ok disk := by
    refine ⟨_, if_neg ?_⟩
    simpa [h, or_assoc] using hv
  have hd := superblockDecode_encode hdisk ht hf
  exact ⟨disk, hdisk, hd, (superblockDecode_regions hd).1.symm⟩

/-- The regions of the smallest volume fit. -/
theorem superblockDecode_regions_small : ∃ disk values, superblockDecode disk = .ok values ∧
    values.registryStartSector = superblockSectors + values.sectorsPerFat ∧
    values.registryStartSector + registrySectors < values.totalSectors := by
  obtain ⟨disk, -, hd, hf⟩ := @exists_encoded (formatValues smallGeometry 1 geometryLabel) (by decide) (by decide)
    (by decide) (by decide)
  exact ⟨disk, _, hd, (superblockDecode_regions_iff hd).mpr (by rw [hf]; decide)⟩

/-- The decoder accepts a superblock whose registry region starts on the superblocks. -/
theorem superblockDecode_wrapping : ∃ disk, superblockEncode wrappingSuperblock = .ok disk ∧
    superblockDecode disk = .ok wrappingSuperblock ∧
    ¬(wrappingSuperblock.registryStartSector = superblockSectors + wrappingSuperblock.sectorsPerFat ∧
      wrappingSuperblock.registryStartSector + registrySectors < wrappingSuperblock.totalSectors) := by
  obtain ⟨disk, he, hd, -⟩ := @exists_encoded wrappingSuperblock (by decide) (by decide) (by decide) (by decide)
  exact ⟨disk, he, hd, by decide⟩

end InferenceOS
