import InferenceOS.Theorems.Mounting

/-! A new volume under the mount. The decoder reads back what the encoder writes, so a formatted device mounts
    read-write with an empty root directory; and the formatter writes in an order that leaves no other device
    to mount read-write before the old table, registry and root directory are gone. -/

namespace InferenceOS
open Program BlockDevice
variable {volumeSerial : Nat} {volumeLabel : Bytes 11}

section Codec
variable {values : Superblock} {disk : Sector}

theorem allZero_zero {n : Nat} : allZero (Bytes.zero : Bytes n) = true := by
  unfold allZero Bytes.toList
  rw [List.all_eq_true]
  intro b hb
  obtain ⟨i, rfl⟩ := (List.mem_ofFn' _ _).mp hb
  rfl

theorem superblockCrc_put {b : Bytes 4} : superblockCrc (disk.put 0x48 b) = superblockCrc disk := by
  unfold superblockCrc
  rw [Bytes.put_put]

theorem superblockDecode_encode (h : superblockEncode values = .ok disk) (ht : values.totalSectors < 2 ^ 64)
    (hf : values.sectorsPerFat < 2 ^ 32) :
    superblockDecode disk = .ok { values with volumeSerial := values.volumeSerial % 2 ^ 32 } := by
  unfold superblockEncode at h
  split at h
  · cases h
  rename_i hv
  cases h
  obtain ⟨h₁, h₂, h₃, h₄, h₅, h₆, h₇⟩ : _ ∧ _ ∧ _ ∧ _ ∧ _ ∧ _ ∧ _ := by simpa only [not_or, not_not] using hv
  have hreg : values.registryStartSector < 2 ^ 64 := by omega
  unfold superblockDecode
  rw [superblockCrc_put]
  generalize superblockCrc _ = crc
  have hcrc : crc.toNat % 256 ^ 4 = crc.toNat := Nat.mod_eq_of_lt crc.toNat_lt
  have htotal : values.totalSectors % 256 ^ 8 = values.totalSectors := Nat.mod_eq_of_lt (by omega)
  have hfat : values.sectorsPerFat % 256 ^ 4 = values.sectorsPerFat := Nat.mod_eq_of_lt (by omega)
  have hstart : values.registryStartSector % 256 ^ 8 = values.registryStartSector := Nat.mod_eq_of_lt (by omega)
  simp (disch := omega) only [Bytes.toNat_put, Bytes.toNat_put_of_disjoint, Bytes.slice_put, Bytes.slice_put_of_disjoint,
    Bytes.slice_zero, allZero_zero, hcrc, htotal, hfat, hstart, h₃]
  rw [if_neg (not_not.mpr rfl), if_neg]
  · obtain ⟨_, _, _, _, _, _⟩ := values
    cases h₃
    rfl
  · simp only [not_or]
    refine ⟨by simp, by simp, by simp, by simp, by decide, by simp, by decide, by simp, by simp, by simp, h₁, h₂, by decide,
      by simpa using h₄, h₅, h₆, by decide, h₇, by simp, by simp, by simp, by simp, by simp, by simp⟩

end Codec

theorem usable_of_encode {d : BlockDevice} {g : Geometry} {n : Nat}
    (hg : FsMount.Derived d g) (hs : superblockEncode (formatValues g volumeSerial volumeLabel) = .ok (d.contents n)) :
    FsMount.Usable d n := by
  obtain ⟨hlaid, htotal, -, -, -, -, hcount, hlt⟩ := calculateGeometry_eq hg
  have hmax := hlaid.clusters
  have hsectors := hlaid.sectors
  have hdata := hlaid.data
  have hsmall : g.totalSectors < 2 ^ 64 := by
    unfold superblockSectors registrySectors sectorsPerCluster maxDataCluster at *
    omega
  exact ⟨_, g, superblockDecode_encode hs hsmall hsectors, hg, htotal, rfl, rfl⟩

def zeroWrites (first count : Nat) : List (DiskEvent Sector) := (List.range count).map fun i => .write (first + i) Bytes.zero

def formatWrites (g : Geometry) (superblock : Sector) : List (DiskEvent Sector) :=
  zeroWrites superblockSectors (g.dataStartSector + sectorsPerCluster - superblockSectors) ++
    [.write superblockSectors formattedFatSector, .write 1 superblock, .write 0 superblock, .flush]

theorem zeroWrites_add {first m n : Nat} : zeroWrites first m ++ zeroWrites (first + m) n = zeroWrites first (m + n) := by
  unfold zeroWrites
  rw [List.range_add, List.map_append, List.map_map]
  congr 2
  funext i
  rw [Function.comp_apply, Nat.add_assoc]

namespace BlockDevice
variable {device : BlockDevice} {first count : Nat}

theorem write_history {buffer : Nat → Sector} :
    wp (write first count buffer)
      (fun _ d => d.history = device.history ++ (List.range count).map fun i => .write (first + i) (buffer i))
      (fun _ _ => True) device := by
  simp only [write, wp_bind, wp_get, wp_ofExcept, wp_failIf]
  refine ⟨fun _ _ => ⟨fun _ => trivial, fun _ => ?_⟩, fun _ _ => trivial⟩
  unfold wp driverWrite
  cases device.faults device.calls with
  | some fault => trivial
  | none => rfl

theorem zeroSectorsFrom_history : ∀ {fuel first count : Nat} {device : BlockDevice}, count ≤ fuel →
    wp (zeroSectorsFrom fuel first count) (fun _ d => d.history = device.history ++ zeroWrites first count) (fun _ _ => True) device
  | 0, first, count, device, hf => by
    rw [Nat.le_zero.mp hf]
    exact (List.append_nil _).symm
  | fuel + 1, first, count, device, hf => by
    rw [zeroSectorsFrom]
    by_cases hc : count = 0
    · rw [if_pos hc, hc]
      exact (List.append_nil _).symm
    · rw [if_neg hc]
      simp only [wp_bind]
      refine wp_mono write_history (fun _ d hd => ?_) fun _ _ _ => trivial
      refine wp_mono (zeroSectorsFrom_history (by omega)) (fun _ e he => ?_) fun _ _ _ => trivial
      rw [he, hd, List.append_assoc]
      congr 1
      rw [show zeroWrites first count = zeroWrites first (min count 8 + (count - min count 8)) by congr 1; omega,
        ← zeroWrites_add]
      rfl

theorem flush_history : wp flush (fun _ d => d.history = device.history ++ [.flush]) (fun _ _ => True) device := by
  refine wp_mono flush_spec (fun _ d hd => ?_) fun _ _ _ => trivial
  rw [hd]
  rfl

end BlockDevice

theorem format_history {device : BlockDevice} : wp (format volumeSerial volumeLabel)
      (fun g d => ∃ superblock, superblockEncode (formatValues g volumeSerial volumeLabel) = .ok superblock ∧
        d.history = device.history ++ formatWrites g superblock) (fun _ _ => True) device := by
  simp only [format, wp_bind, wp_get, wp_failIf, wp_ofExcept]
  refine ⟨fun _ => trivial, fun _ => ⟨fun _ => trivial, fun _ => ⟨fun g hg => ⟨fun superblock hs => ?_, fun _ _ => trivial⟩,
    fun _ _ => trivial⟩⟩⟩
  refine wp_mono (zeroSectorsFrom_history le_rfl) (fun _ d₁ h₁ => ?_) fun _ _ _ => trivial
  rw [wp_bind]
  refine wp_mono write_history (fun _ d₂ h₂ => ?_) fun _ _ _ => trivial
  rw [wp_bind]
  refine wp_mono write_history (fun _ d₃ h₃ => ?_) fun _ _ _ => trivial
  rw [wp_bind]
  refine wp_mono write_history (fun _ d₄ h₄ => ?_) fun _ _ _ => trivial
  rw [wp_bind]
  refine wp_mono flush_history (fun _ d₅ h₅ => ⟨superblock, hs, ?_⟩) fun _ _ _ => trivial
  rw [h₅, h₄, h₃, h₂, h₁, formatWrites]
  simp only [List.append_assoc]
  rfl

namespace FsMount
variable {device d e : BlockDevice} {g : Geometry} {superblock : Sector} {medium : Nat → Sector}

theorem ends_formatted (hg : g.Laid) {i : Nat} (hi : i < 3) : Fat.Ends (fatOf g (formattedContents g superblock medium) i) := by
  rw [fatOf_formatted hg, if_pos hi]
  exact ⟨by decide, by decide⟩

theorem chain_formatted (hg : g.Laid) :
    Fat.Chain (fatOf g (formattedContents g superblock medium)) (g.clusterCount + 2) rootCluster [rootCluster] := by
  have hpos := hg.positive
  exact .last ⟨le_rfl, by unfold rootCluster; omega, by decide⟩ (ends_formatted hg (by decide))

theorem rootSafe_formatted (hg : g.Laid) : Validator.RootSafe g (fatOf g (formattedContents g superblock medium)) :=
  ⟨ends_formatted hg (by omega), ends_formatted hg (by omega), [rootCluster], chain_formatted hg⟩

theorem directoryScan_zero : directoryScan (FileService.slotAt Bytes.zero) directorySlots directorySlots directorySlots = .ok [] := by
  have hfirst : (FileService.slotAt Bytes.zero 0).byte 0 = 0 := by rw [FileService.slotAt, Bytes.slice_zero, Bytes.byte_zero]
  unfold directoryScan
  rw [if_neg (by decide)]
  show scanFrom (FileService.slotAt Bytes.zero) directorySlots directorySlots directorySlots (127 + 1) 0 [] = _
  rw [scanFrom, if_neg (by decide), if_pos hfirst]

theorem writable_formatted (hg : Derived d g) (hs : superblockEncode (formatValues g volumeSerial volumeLabel) = .ok superblock)
    (hc : d.contents = formattedContents g superblock medium) : Writable d := by
  have hcopy : ∀ {n}, n < 2 → d.contents n = superblock := fun hn => by
    rw [hc]
    exact if_pos hn
  refine ⟨?_, ?_, (hcopy (by decide)).trans (hcopy (by decide)).symm, (Rooted.safe hg).mpr ?_⟩
  · exact usable_of_encode hg (by rw [hcopy (by decide)]; exact hs)
  · exact usable_of_encode hg (by rw [hcopy (by decide)]; exact hs)
  · rw [hc]
    exact rootSafe_formatted (calculateGeometry_eq hg).1

/-- The table, the registry and the root directory are new. -/
def Reinitialized (g : Geometry) (contents : Nat → Sector) : Prop :=
  ∀ n, superblockSectors ≤ n → n < g.dataStartSector + sectorsPerCluster →
    contents n = if n = superblockSectors then formattedFatSector else Bytes.zero

theorem not_writable_of_zero (hz : e.contents superblockSectors = Bytes.zero) : ¬Writable e := by
  rintro ⟨-, -, -, g, hg, hends, -⟩
  have htable := hg.placed.laid.table
  have hzero : fatOf g e.contents 0 = 0 := by
    rw [fatOf, if_pos (by omega)]
    show (e.contents (superblockSectors + 0 / 128)).toNat _ 4 = 0
    rw [Nat.zero_div, Nat.add_zero, hz, Bytes.toNat_zero]
  have := hends.1
  rw [hzero] at this
  unfold Fat.eocFirst at this
  omega

theorem replay_zeroWrites {count : Nat} {done rest : List (DiskEvent Sector)} (h : zeroWrites superblockSectors count = done ++ rest)
    (hne : done ≠ []) : replay medium done superblockSectors = Bytes.zero := by
  have hall : ∀ e ∈ done, ∃ n, e = .write n Bytes.zero := fun e he => by
    have hm : e ∈ zeroWrites superblockSectors count := h ▸ List.mem_append_left _ he
    obtain ⟨i, -, rfl⟩ := List.mem_map.mp hm
    exact ⟨_, rfl⟩
  cases count with
  | zero => exact absurd (List.append_eq_nil_iff.mp h.symm).1 hne
  | succ count =>
    cases done with
    | nil => exact absurd rfl hne
    | cons first more =>
      unfold zeroWrites at h
      rw [List.range_succ_eq_map, List.map_cons, List.cons_append] at h
      cases (List.cons.inj h).1
      rw [replay_write]
      rcases replay_of_writes (fun e he => hall e (List.mem_cons_of_mem _ he)) superblockSectors with hr | hr
      · rw [hr]
        exact Function.update_self _ _ _
      · exact hr

theorem reinitialized_of_writable {done rest : List (DiskEvent Sector)} (hg : g.Laid) (h : formatWrites g superblock = done ++ rest)
    (hne : done ≠ []) (hc : e.contents = replay medium done) (hw : Writable e) : Reinitialized g e.contents := by
  have hdata := hg.data
  rcases List.append_eq_append_iff.mp h with ⟨more, rfl, hmore⟩ | ⟨more, hzeros, -⟩
  · cases more with
    | nil =>
      rw [List.append_nil] at hc hne
      refine absurd hw (not_writable_of_zero ?_)
      rw [hc]
      exact replay_zeroWrites (List.append_nil _).symm hne
    | cons first more =>
      rw [List.cons_append, List.cons.injEq] at hmore
      obtain ⟨rfl, htail⟩ := hmore
      intro n hlow hhigh
      have hkeep : ∀ b, .write n b ∉ more := fun b hb => by
        have hm := List.mem_append_left rest hb
        rw [← htail] at hm
        simp only [List.mem_cons, DiskEvent.write.injEq, List.not_mem_nil, or_false, reduceCtorEq] at hm
        unfold superblockSectors at hlow
        omega
      rw [hc, replay_append, zeroWrites, replay_store, replay_write, replay_of_not_mem hkeep, Function.update_apply]
      refine if_congr Iff.rfl rfl (if_pos ⟨hlow, ?_⟩)
      omega
  · refine absurd hw (not_writable_of_zero ?_)
    rw [hc]
    exact replay_zeroWrites hzeros hne

theorem writable_format {volumeSerial : Nat} {volumeLabel : Bytes 11} (h : format volumeSerial volumeLabel device = (.ok g, d)) :
    Derived d g ∧ Writable d := by
  obtain ⟨hg, superblock, hs, hover⟩ := wp_ok format_spec h
  have hderived : Derived d g := by
    unfold Derived
    rw [hover.logicalSectorSize, hover.sectorCount]
    exact hg
  exact ⟨hderived, writable_formatted hderived hs hover.contents⟩

theorem format_minimum : ∃ d, format 0 (fun _ => ascii 'A') (blank minimumVolumeSectors) = (.ok smallGeometry, d) ∧ d.Healthy :=
  exists_format ⟨rfl, fun _ => rfl⟩ calculateGeometry_minimum (by decide)

/-- A formatted device is mounted read-write. -/
theorem probe_exact_formatted : ∃ (device : BlockDevice) (mount : FsMount) (d : BlockDevice),
    probe device = (.ok (.ok (), mount), d) ∧ device.Ticked d ∧ Classified device mount ∧ mount.report.state = .rw := by
  obtain ⟨device, hd, hh⟩ := format_minimum
  obtain ⟨mount, d, hp, ht, hc⟩ := @probe_exact device ⟨Or.inl hh.status, fun k _ => hh.faults k⟩
  exact ⟨device, mount, d, hp, ht, hc, hc.rw.mpr (writable_format hd).2⟩

/-- A formatted device mounts read-write with its geometry and an empty root directory. Whatever part of the
    formatter's transfers is carried out, the device mounts read-write only when its table, its registry and its
    root directory are new. -/
theorem format_mounts {volumeSerial : Nat} {volumeLabel : Bytes 11} (h : format volumeSerial volumeLabel device = (.ok g, d)) :
    (d.Readable → ∃ mount e, probe d = (.ok (.ok (), mount), e) ∧ mount.report.state = .rw ∧ mount.geometry = g ∧
      Fat.Chain (fatOf g e.contents) (g.clusterCount + 2) rootCluster [rootCluster] ∧
      directoryScan (FileService.slotAt (dataOf g e.contents rootCluster)) directorySlots directorySlots directorySlots = .ok []) ∧
    ∃ writes, d.history = device.history ++ writes ∧ ∀ done rest, writes = done ++ rest → done ≠ [] →
      ∀ e : BlockDevice, e.Readable → e.sectorCount = device.sectorCount → e.logicalSectorSize = device.logicalSectorSize →
        e.contents = replay device.contents done →
        ∀ mount e', probe e = (.ok (.ok (), mount), e') → mount.report.state = .rw → Reinitialized g e.contents := by
  obtain ⟨hg, superblock, hs, hover⟩ := wp_ok format_spec h
  obtain ⟨superblock', hs', hwrites⟩ := wp_ok format_history h
  obtain ⟨hlaid, -⟩ := calculateGeometry_eq hg
  refine ⟨fun hr => ?_, _, hwrites, fun done rest hparts hne e hr hcount hsize hc mount e' hp hrw => ?_⟩
  · obtain ⟨hderived, hwritable⟩ := writable_format h
    rcases hp : probe d with ⟨e | ⟨status, mount⟩, e⟩
    · exact (wp_error (probe_spec hr) hp).elim
    obtain ⟨ht, hstatus, hclass⟩ := wp_ok (probe_spec hr) hp
    have hrw := hclass.rw.mpr hwritable
    refine ⟨mount, e, by rw [show status = .ok () from hstatus], hrw, ?_, ?_, ?_⟩
    · exact (hclass.geometry (by rw [show mount.report.state = .rw from hrw]; nofun)).unique hderived
    · rw [ht.contents, hover.contents]
      exact chain_formatted hlaid
    · rw [ht.contents, hover.contents, dataOf_formatted hlaid]
      exact directoryScan_zero
  · obtain ⟨-, -, hclass⟩ := wp_ok (probe_spec hr) hp
    exact reinitialized_of_writable hlaid hparts hne hc (hclass.rw.mp hrw)

theorem format_mounts_minimum : ∃ d mount e, probe d = (.ok (.ok (), mount), e) ∧ mount.report.state = .rw := by
  obtain ⟨d, hd, hh⟩ := format_minimum
  obtain ⟨mount, e, hp, hrw, -⟩ := (format_mounts hd).1 ⟨Or.inl hh.status, fun k _ => hh.faults k⟩
  exact ⟨d, mount, e, hp, hrw⟩

end FsMount

end InferenceOS
