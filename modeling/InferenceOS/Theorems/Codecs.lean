import InferenceOS.Theorems.Formatting

/-! The codecs of superblocks and of directory records are bijections between the values they accept and the images
    they accept: an accepted image leaves no byte open. -/

namespace InferenceOS

section Superblock
variable {values : Superblock} {disk disk' : Sector}

/-- The values that the fields of `struct ios_fs_superblock` can have. -/
structure Superblock.Sized (values : Superblock) : Prop where
  totalSectors : values.totalSectors < 2 ^ 64
  sectorsPerFat : values.sectorsPerFat < 2 ^ 32
  registryStartSector : values.registryStartSector < 2 ^ 64
  volumeSerial : values.volumeSerial < 2 ^ 32
  flags : values.flags < 2 ^ 16

theorem allZero_iff {n : Nat} {bytes : Bytes n} : allZero bytes = true ↔ bytes = Bytes.zero := by
  constructor
  · intro h
    unfold allZero Bytes.toList at h
    rw [List.all_eq_true] at h
    funext i
    exact beq_iff_eq.mp (h _ ((List.mem_ofFn' _ _).mpr ⟨i, rfl⟩))
  · rintro rfl
    exact allZero_zero

def superblockWidths : List Nat := [8, 2, 2, 2, 1, 1, 2, 2, 2, 2, 8, 4, 4, 8, 4, 4, 11, 1, 2, 2]

/-- What the decoder found in an image. -/
structure Superblock.Reads (values : Superblock) (disk : Sector) : Prop where
  crc : (superblockCrc disk).toNat = disk.toNat 0x48 4
  magic : disk.slice 0x00 8 = fsMagic
  formatVersion : disk.toNat 0x08 2 = 1
  headerSize : disk.toNat 0x0a 2 = 80
  bytesPerSector : disk.toNat 0x0c 2 = 512
  perCluster : disk.toNat 0x0e 1 = sectorsPerCluster
  fatCount : disk.toNat 0x0f 1 = 1
  superblocks : disk.toNat 0x10 2 = superblockSectors
  primarySize : disk.toNat 0x12 2 = 32
  companionSize : disk.toNat 0x14 2 = 32
  flags : disk.toNat 0x16 2 = values.flags
  total : disk.toNat 0x18 8 = values.totalSectors
  fat : disk.toNat 0x20 4 = values.sectorsPerFat
  root : disk.toNat 0x24 4 = rootCluster
  start : disk.toNat 0x28 8 = values.registryStartSector
  registry : disk.toNat 0x30 4 = registrySectors
  serial : disk.toNat 0x34 4 = values.volumeSerial
  label : disk.slice 0x38 11 = values.volumeLabel
  algorithm : disk.toNat 0x43 1 = 1
  companionVersion : disk.toNat 0x44 2 = 1
  registryVersion : disk.toNat 0x46 2 = 1
  reservedHeader : disk.slice 0x4c 4 = Bytes.zero
  reserved : disk.slice 0x50 430 = Bytes.zero
  trailer : disk.toNat 0x1fe 2 = 0xaa55

def Superblock.Encodable (values : Superblock) : Prop :=
  values.totalSectors ≠ 0 ∧ values.sectorsPerFat ≠ 0 ∧ values.flags = 0 ∧
    values.registryStartSector = (superblockSectors + values.sectorsPerFat) % 2 ^ 32 ∧
    ¬2 ^ 64 - 1 - registrySectors < values.registryStartSector ∧
    ¬values.totalSectors ≤ values.registryStartSector + registrySectors ∧ validLabel values.volumeLabel = true

theorem superblockDecode_reads (h : superblockDecode disk = .ok values) : values.Reads disk ∧ values.Encodable := by
  unfold superblockDecode at h
  split at h
  · cases h
  rename_i hcrc
  dsimp only at h
  split at h
  · cases h
  rename_i hv
  cases h
  simp only [not_or, not_not, Bool.not_eq_true', Bool.not_eq_false] at hv
  obtain ⟨h₁, h₂, h₃, h₄, h₅, h₆, h₇, h₈, h₉, h₁₀, h₁₁, h₁₂, h₁₃, h₁₄, h₁₅, h₁₆, h₁₇, h₁₈, h₁₉, h₂₀, h₂₁, h₂₂, h₂₃, h₂₄⟩ := hv
  exact ⟨⟨not_not.mp hcrc, h₁, h₂, h₃, h₄, h₅, h₆, h₇, h₈, h₉, rfl, rfl, rfl, h₁₃, rfl, h₁₇, rfl, rfl, h₁₉, h₂₀, h₂₁,
    allZero_iff.mp h₂₂, allZero_iff.mp h₂₃, h₂₄⟩, h₁₁, h₁₂, h₁₀, h₁₄, h₁₅, h₁₆, h₁₈⟩

theorem superblockEncode_isOk (h : superblockDecode disk = .ok values) : ∃ disk, superblockEncode values = .ok disk := by
  obtain ⟨h₁, h₂, h₃, h₄, h₅, h₆, h₇⟩ := (superblockDecode_reads h).2
  refine ⟨_, if_neg ?_⟩
  simp only [not_or, not_not, Bool.not_eq_true', Bool.not_eq_false]
  exact ⟨h₁, h₂, h₃, h₄, h₅, h₆, h₇⟩

theorem Superblock.Reads.sized (h : values.Reads disk) : values.Sized where
  totalSectors := h.total ▸ Bytes.toNat_lt
  sectorsPerFat := h.fat ▸ Bytes.toNat_lt
  registryStartSector := h.start ▸ Bytes.toNat_lt
  volumeSerial := h.serial ▸ Bytes.toNat_lt
  flags := h.flags ▸ Bytes.toNat_lt

open Bytes in
theorem Superblock.Reads.unique (h : values.Reads disk) (h' : values.Reads disk') : disk = disk' := by
  have before : Agree disk disk' 0 superblockWidths := by
    refine ⟨h.magic.trans h'.magic.symm, slice_of_toNat (h.formatVersion.trans h'.formatVersion.symm),
      slice_of_toNat (h.headerSize.trans h'.headerSize.symm), slice_of_toNat (h.bytesPerSector.trans h'.bytesPerSector.symm),
      slice_of_toNat (h.perCluster.trans h'.perCluster.symm), slice_of_toNat (h.fatCount.trans h'.fatCount.symm),
      slice_of_toNat (h.superblocks.trans h'.superblocks.symm), slice_of_toNat (h.primarySize.trans h'.primarySize.symm),
      slice_of_toNat (h.companionSize.trans h'.companionSize.symm), slice_of_toNat (h.flags.trans h'.flags.symm),
      slice_of_toNat (h.total.trans h'.total.symm), slice_of_toNat (h.fat.trans h'.fat.symm),
      slice_of_toNat (h.root.trans h'.root.symm), slice_of_toNat (h.start.trans h'.start.symm),
      slice_of_toNat (h.registry.trans h'.registry.symm), slice_of_toNat (h.serial.trans h'.serial.symm),
      h.label.trans h'.label.symm, slice_of_toNat (h.algorithm.trans h'.algorithm.symm),
      slice_of_toNat (h.companionVersion.trans h'.companionVersion.symm),
      slice_of_toNat (h.registryVersion.trans h'.registryVersion.symm), trivial⟩
  have after : Agree disk disk' 0x4c [4, 430, 2] :=
    ⟨h.reservedHeader.trans h'.reservedHeader.symm, h.reserved.trans h'.reserved.symm,
      slice_of_toNat (h.trailer.trans h'.trailer.symm), trivial⟩
  -- The checksum is taken over the other fields, so it is the same one.
  have hcleared : disk.put 0x48 (Bytes.zero : Bytes 4) = disk'.put 0x48 (Bytes.zero : Bytes 4) := by
    refine ext_byte fun i hi => ?_
    rw [byte_put hi, byte_put hi]
    split
    · rfl
    · obtain hlow | hhigh : i < 0x48 ∨ 0x4c ≤ i := by omega
      · exact before.byte (Nat.zero_le i) hlow
      · exact after.byte hhigh hi
  have hcrc : superblockCrc disk = superblockCrc disk' := by
    unfold superblockCrc
    rw [hcleared]
  have field : disk.slice 0x48 4 = disk'.slice 0x48 4 := slice_of_toNat (by rw [← h.crc, ← h'.crc, hcrc])
  calc disk = (disk.put 0x48 (Bytes.zero : Bytes 4)).put 0x48 (disk.slice 0x48 4) := by rw [put_put, put_slice]
    _ = disk' := by rw [hcleared, field, put_put, put_slice]

theorem superblockDecode_encode_sized (hs : values.Sized) (h : superblockEncode values = .ok disk) :
    superblockDecode disk = .ok values := by
  rw [superblockDecode_encode h hs.totalSectors hs.sectorsPerFat, Nat.mod_eq_of_lt hs.volumeSerial]

/-- An encoded value decodes to itself, and an accepted image is the encoding of what it decodes to. -/
theorem superblock_codec :
    (∀ (values : Superblock) disk, values.Sized → superblockEncode values = .ok disk → superblockDecode disk = .ok values) ∧
    (∀ disk values, superblockDecode disk = .ok values → superblockEncode values = .ok disk) ∧
    ∀ disk disk' values values', superblockDecode disk = .ok values → superblockDecode disk' = .ok values' →
      (disk = disk' ↔ values = values') := by
  refine ⟨fun values disk => superblockDecode_encode_sized, fun disk values h => ?_,
    fun disk disk' values values' h h' => ⟨?_, ?_⟩⟩
  · obtain ⟨hreads, -⟩ := superblockDecode_reads h
    obtain ⟨disk', he⟩ := superblockEncode_isOk h
    obtain ⟨hreads', -⟩ := superblockDecode_reads (superblockDecode_encode_sized hreads.sized he)
    rw [he, hreads.unique hreads']
  · rintro rfl
    exact Except.ok.inj (h.symm.trans h')
  · rintro rfl
    exact (superblockDecode_reads h).1.unique (superblockDecode_reads h').1

end Superblock

section Records
variable {c c' d d' : Slot} {p : Primary}

open Bytes

theorem slice_of_byte {n offset : Nat} {a b : Bytes n} (h : a.byte offset = b.byte offset) :
    a.slice offset 1 = b.slice offset 1 := by
  funext i
  rw [Subsingleton.elim i 0]
  exact h

theorem primaryDecode_unique (h : primaryDecode d = .ok p) (h' : primaryDecode d' = .ok p) : d = d' := by
  have reserved : ∀ {d : Slot}, primaryDecode d = .ok p → d.slice 12 8 = Bytes.zero ∧ d.slice 22 4 = Bytes.zero := by
    intro d h
    unfold primaryDecode at h
    split at h
    · cases h
    · split at h
      · cases h
      · rename_i hv
        exact ⟨not_not.mp (not_or.mp hv).1, not_not.mp (not_or.mp (not_or.mp hv).2).1⟩
  obtain ⟨htimes, hdates⟩ := reserved h
  obtain ⟨htimes', hdates'⟩ := reserved h'
  have hfields : primaryFields d = primaryFields d' := (primaryDecode_eq_ok h).1.symm.trans (primaryDecode_eq_ok h').1
  obtain ⟨hname, hattributes, hcluster, hsize⟩ := Primary.mk.inj hfields
  have hlow : d.toNat 26 2 < 256 ^ 2 := toNat_lt
  have hlow' : d'.toNat 26 2 < 256 ^ 2 := toNat_lt
  obtain ⟨hhigh, hlow⟩ : d.toNat 20 2 = d'.toNat 20 2 ∧ d.toNat 26 2 = d'.toNat 26 2 := by omega
  have fields : Agree d d' 0 [11, 1, 8, 2, 4, 2, 4] :=
    ⟨hname, slice_of_byte hattributes, htimes.trans htimes'.symm, slice_of_toNat hhigh, hdates.trans hdates'.symm,
      slice_of_toNat hlow, slice_of_toNat hsize, trivial⟩
  exact fields.eq (by decide)

theorem companionDecode_eq_ok {value : Companion} (h : companionDecode c = .ok value) :
    (companionCrc c).toNat = c.toNat 16 4 ∧ c.slice 0 6 = Bytes.ofList 6 [companionRecordType, 1, 1,
      if value.committed then 1 else 0, value.extensionLength, value.primaryNameChecksum] ∧
    c.slice 6 2 = Bytes.zero ∧ c.slice 8 8 = value.extensionHashText ∧ c.slice 20 12 = Bytes.zero := by
  have flag : ∀ flags : UInt8, flags &&& 0xfe = 0 → flags = if flags &&& 1 != 0 then 1 else 0 :=
    forall_byte (by decide +kernel)
  unfold companionDecode at h
  split at h
  · cases h
  rename_i hcrc
  split at h
  · cases h
  rename_i hv
  cases h
  simp only [not_or, not_not] at hv
  obtain ⟨htype, hversion, halgorithm, hflags, -, hzero, -, hrest⟩ := hv
  refine ⟨not_not.mp hcrc, ext_byte fun i hi => ?_, hzero, rfl, hrest⟩
  rw [byte_slice hi, Nat.zero_add]
  obtain rfl | rfl | rfl | rfl | rfl | rfl : i = 0 ∨ i = 1 ∨ i = 2 ∨ i = 3 ∨ i = 4 ∨ i = 5 := by omega
  · exact htype
  · exact hversion
  · exact halgorithm
  · exact flag _ hflags
  · rfl
  · rfl

theorem companionDecode_unique {value : Companion} (h : companionDecode c = .ok value) (h' : companionDecode c' = .ok value) :
    c = c' := by
  obtain ⟨hcrc, hhead, hzero, htext, hrest⟩ := companionDecode_eq_ok h
  obtain ⟨hcrc', hhead', hzero', htext', hrest'⟩ := companionDecode_eq_ok h'
  have before : Agree c c' 0 [6, 2, 8] :=
    ⟨hhead.trans hhead'.symm, hzero.trans hzero'.symm, htext.trans htext'.symm, trivial⟩
  have after : Agree c c' 20 [12] := ⟨hrest.trans hrest'.symm, trivial⟩
  have hcleared : c.put 16 (Bytes.zero : Bytes 4) = c'.put 16 (Bytes.zero : Bytes 4) := by
    refine ext_byte fun i hi => ?_
    rw [byte_put hi, byte_put hi]
    split
    · rfl
    · obtain hlow | hhigh : i < 16 ∨ 20 ≤ i := by omega
      · exact before.byte (Nat.zero_le i) hlow
      · exact after.byte hhigh hi
  have hsum : companionCrc c = companionCrc c' := by
    unfold companionCrc
    rw [hcleared]
  have field : c.slice 16 4 = c'.slice 16 4 := slice_of_toNat (by rw [← hcrc, ← hcrc', hsum])
  calc c = (c.put 16 (Bytes.zero : Bytes 4)).put 16 (c.slice 16 4) := by rw [put_put, put_slice]
    _ = c' := by rw [hcleared, field, put_put, put_slice]

/-- Primary records round-trip both ways, and the companions that validate against a primary are the committed one of its
    name. -/
theorem record_codec :
    (∀ (p : Primary) d, p.fileSize < 2 ^ 32 → primaryEncode p = .ok d → primaryDecode d = .ok p) ∧
    (∀ d p, primaryDecode d = .ok p → primaryEncode p = .ok d) ∧
    (∀ d p, primaryDecode d = .ok p → p.attributes = attributeRegular →
      ∃ c, companionEncode p.name true = .ok c ∧ recordPairValidate c d = .ok ()) ∧
    (∀ name c d, companionEncode name false = .ok c → recordPairValidate c d ≠ .ok ()) ∧
    ∀ c d, recordPairValidate c d = .ok () → ∃ p, primaryDecode d = .ok p ∧ companionEncode p.name true = .ok c := by
  have back : ∀ {d p}, primaryDecode d = .ok p → p.admissible = true ∧ p.fileSize < 2 ^ 32 ∧ d = primaryBytes p := by
    intro d p h
    obtain ⟨-, hp, hsize⟩ := primaryDecode_eq_ok h
    exact ⟨hp, hsize, primaryDecode_unique h (primaryDecode_bytes hp hsize)⟩
  refine ⟨fun p d hsize h => ?_, fun d p h => ?_, fun d p h hregular => ?_, fun name c d h => ?_, fun c d h => ?_⟩
  · unfold primaryEncode at h
    split at h
    · rename_i hp
      cases h
      exact primaryDecode_bytes hp hsize
    · cases h
  · obtain ⟨hp, -, rfl⟩ := back h
    exact primaryEncode_eq hp
  · obtain ⟨hp, hsize, rfl⟩ := back h
    exact ⟨_, companionEncode_eq (Primary.admissible_iff.mp hp).1 true, recordPairValidate_committed hp hsize hregular⟩
  · have hname : validStoredName name = true := by
      by_contra hname
      rw [companionEncode, nameExtension, if_neg hname] at h
      cases h
    rw [companionEncode_eq hname] at h
    cases h
    exact recordPairValidate_uncommitted
  · obtain ⟨p, hc, hd, -⟩ := recordPairValidate_eq_ok h
    obtain ⟨hp, -, -⟩ := back hd
    refine ⟨p, hd, ?_⟩
    rw [companionEncode_eq (Primary.admissible_iff.mp hp).1, companionDecode_unique hc companionDecode_record]

end Records
end InferenceOS
