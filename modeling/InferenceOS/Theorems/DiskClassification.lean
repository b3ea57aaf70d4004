import InferenceOS.Block.DiskSafety
import InferenceOS.Fs.Format

/-! The classification of a disk, whatever it holds and whichever reads fail: it asks for sectors of the disk alone, it offers
    a disk for use only on the grounds that make it safe, and it finds the boot partition in every accepted partition table. -/

namespace InferenceOS
open Program BlockDevice
variable {device : BlockDevice}

namespace BlockDevice
variable {device : BlockDevice}

/-- The sectors are all zero. -/
def ZeroSectors (device : BlockDevice) (first count : Nat) : Prop := ∀ n, first ≤ n → n < first + count → device.contents n = Bytes.zero

/-- The two superblocks of the file system: equal, with their magic, version, sector size, trailer and checksum. -/
structure HoldsInferenceFs (device : BlockDevice) : Prop where
  same : device.contents 0 = device.contents 1
  magic : (device.contents 0).slice 0 8 = fsMagic
  version : (device.contents 0).toNat 8 2 = 1
  sectorSize : (device.contents 0).toNat 12 2 = 512
  trailer : (device.contents 0).toNat 510 2 = 0xaa55
  checksum : (superblockCrc (device.contents 0)).toNat = (device.contents 0).toNat 0x48 4

def entriesLba (device : BlockDevice) : Nat := (device.contents 1).toNat 72 8

def entryCount (device : BlockDevice) : Nat := (device.contents 1).toNat 80 4

def entrySize (device : BlockDevice) : Nat := (device.contents 1).toNat 84 4

def tableSectors (device : BlockDevice) : Nat := (device.entryCount * device.entrySize + 512 - 1) / 512

def entryGuid (device : BlockDevice) (index : Nat) : Bytes 16 := fun i =>
  sectorsByte device.contents (device.entriesLba * 512 + index * device.entrySize + 16 + i.1)

/-- The second sector is a GPT header that passes every check. -/
structure GptAccepted (device : BlockDevice) : Prop where
  sectors : 2 ≤ device.sectorCount
  signature : (device.contents 1).slice 0 8 = efiPart
  minimum : gptMinimumHeaderSize ≤ (device.contents 1).toNat 12 4
  maximum : (device.contents 1).toNat 12 4 ≤ 512
  lba : (device.contents 1).toNat 24 8 = gptHeaderLba
  alternate : (device.contents 1).toNat 32 8 < device.sectorCount
  checksum : (crc32ZeroedField (device.contents 1).byte ((device.contents 1).toNat 12 4) 16 4).toNat = (device.contents 1).toNat 16 4
  entries : device.entryCount ≠ 0
  entryMinimum : gptPartitionEntryMinimumSize ≤ device.entrySize
  aligned : device.entrySize % 8 = 0
  inside : device.entriesLba < device.sectorCount
  fits : device.entriesLba + device.tableSectors ≤ device.sectorCount

end BlockDevice

def ProbedDisk.start (device : BlockDevice) (readError : List (Nat × Nat) → Nat × Nat → Option IosError) : ProbedDisk :=
  ⟨device, readError, [], none⟩

/-- No request within these sectors is refused. -/
structure ProbedDisk.Readable (s : ProbedDisk) (first count : Nat) : Prop where
  online : s.device.status ≠ .offline ∧ s.device.status ≠ .failed
  served : ∀ requests f c, first ≤ f → f + c ≤ first + count → s.readError requests (f, c) = none

structure ProbedDisk.Probing (s t : ProbedDisk) : Prop where
  device : t.device = s.device
  readError : t.readError = s.readError
  inRange : (∀ r ∈ s.requests, r.1 + r.2 ≤ s.device.sectorCount) → ∀ r ∈ t.requests, r.1 + r.2 ≤ s.device.sectorCount

namespace ProbedDisk
variable {s t u : ProbedDisk} {first count : Nat}

theorem Probing.refl : Probing s s := ⟨rfl, rfl, id⟩

theorem Probing.report {c : Option DiskClassification} : Probing s { s with classification := c } := ⟨rfl, rfl, id⟩

theorem Probing.trans (h : Probing s t) (h' : Probing t u) : Probing s u := by
  refine ⟨h'.device.trans h.device, h'.readError.trans h.readError, fun hs => ?_⟩
  have ht := h.inRange hs
  rw [← h.device] at ht ⊢
  exact h'.inRange ht

theorem Probing.readable (h : Probing s t) (hr : s.Readable first count) : t.Readable first count := by
  obtain ⟨hdevice, herror, -⟩ := h
  exact ⟨hdevice ▸ hr.online, herror ▸ hr.served⟩

structure Guarded (s t : ProbedDisk) : Prop where
  probing : s.Probing t
  blank : t.classification = some .eligibleBlank → s.device.ZeroSectors 0 (min s.device.sectorCount diskProbeSectors) ∧
    s.device.ZeroSectors (s.device.sectorCount - min s.device.sectorCount diskProbeSectors) (min s.device.sectorCount diskProbeSectors)
  inferenceFs : t.classification = some .eligibleInferenceFs → s.device.HoldsInferenceFs

theorem Probing.guarded (h : Probing s t) (hblank : t.classification ≠ some .eligibleBlank)
    (hfs : t.classification ≠ some .eligibleInferenceFs) : Guarded s t :=
  ⟨h, fun hc => absurd hc hblank, fun hc => absurd hc hfs⟩

end ProbedDisk

section Checks
variable {bytes : Nat → UInt8} {size : Nat} {guid : Bytes 16}

theorem foldl_or_eq_zero {α : Type} {f : α → UInt8} : ∀ {l : List α} {a : UInt8},
    l.foldl (fun combined x => combined ||| f x) a = 0 ↔ a = 0 ∧ ∀ x ∈ l, f x = 0
  | [], a => ⟨fun h => ⟨h, fun x hx => (nomatch hx)⟩, And.left⟩
  | x :: l, a => by
    rw [List.foldl_cons, foldl_or_eq_zero, UInt8.or_eq_zero_iff, List.forall_mem_cons, and_assoc]

theorem bytesAreZero_iff : bytesAreZero bytes size = true ↔ ∀ i < size, bytes i = 0 := by
  unfold bytesAreZero
  rw [decide_eq_true_iff, foldl_or_eq_zero]
  exact ⟨fun h i hi => h.2 i (List.mem_range.mpr hi), fun h => ⟨rfl, fun i hi => h i (List.mem_range.mp hi)⟩⟩

theorem guidIsZero_iff : guidIsZero guid = true ↔ guid = Bytes.zero := by
  unfold guidIsZero
  rw [decide_eq_true_iff, foldl_or_eq_zero]
  constructor
  · rintro ⟨-, h⟩
    funext i
    exact h (guid i) (List.mem_ofFn.mpr ⟨i, rfl⟩)
  · rintro rfl
    refine ⟨rfl, fun x hx => ?_⟩
    obtain ⟨i, rfl⟩ := List.mem_ofFn.mp hx
    rfl

theorem toList_eq_map {n : Nat} {b : Bytes n} : b.toList = (List.range n).map b.byte := by
  refine List.ext_getElem? fun i => ?_
  rw [Bytes.getElem?_toList, List.getElem?_map]
  split
  · rename_i hi
    rw [List.getElem?_range hi]
    rfl
  · rename_i hi
    rw [List.getElem?_eq_none (by rw [List.length_range]; omega)]
    rfl

theorem crc32ZeroedField_eq {n offset width : Nat} {b : Bytes n} :
    crc32ZeroedField b.byte n offset width = crc32IsoHdlc (b.put offset (Bytes.zero : Bytes width)).toList := by
  rw [crc32ZeroedField, crc32IsoHdlc, toList_eq_map, List.foldl_map]
  refine congrArg (· ^^^ 0xffffffff) (List.foldl_ext _ _ _ fun crc i hi => ?_)
  rw [Bytes.byte_put (List.mem_range.mp hi), Bytes.byte_zero]

theorem inferenceFsSuperblocksValid_iff :
    inferenceFsSuperblocksValid (device.contents 0) (device.contents 1) = true ↔ device.HoldsInferenceFs := by
  unfold inferenceFsSuperblocksValid
  rw [crc32ZeroedField_eq]
  constructor
  · intro h
    split at h
    · cases h
    · rename_i hfields
      simp only [not_or, not_not] at hfields
      obtain ⟨hmagic, hsame, hversion, hsize, htrailer⟩ := hfields
      exact ⟨hsame, hmagic, hversion, hsize, htrailer, of_decide_eq_true h⟩
  · rintro ⟨hsame, hmagic, hversion, hsize, htrailer, hcrc⟩
    rw [if_neg]
    · exact decide_eq_true hcrc
    · simp only [not_or, not_not]
      exact ⟨hmagic, hsame, hversion, hsize, htrailer⟩

theorem sectorsByte_add {contents : Nat → Sector} {base offset : Nat} :
    sectorsByte (fun i => contents (base + i)) offset = sectorsByte contents (base * 512 + offset) := by
  rw [sectorsByte, sectorsByte, show (base * 512 + offset) / 512 = base + offset / 512 by omega,
    show (base * 512 + offset) % 512 = offset % 512 by omega]

theorem zeroSectors_of_bytes {first count : Nat}
    (h : bytesAreZero (sectorsByte fun i => device.contents (first + i)) (count * 512) = true) : device.ZeroSectors first count := by
  intro n hlow hhigh
  refine Bytes.ext_byte fun j hj => ?_
  have hbyte := bytesAreZero_iff.mp h ((n - first) * 512 + j) (by omega)
  rw [sectorsByte, show ((n - first) * 512 + j) / 512 = n - first by omega,
    show ((n - first) * 512 + j) % 512 = j by omega, Nat.add_sub_cancel' hlow] at hbyte
  rw [hbyte, Bytes.byte_zero]

end Checks

namespace ProbeProgram
variable {s : ProbedDisk} {first count : Nat}

theorem blockDeviceRead_spec (hcount : 0 < count) (hfits : first + count ≤ s.device.sectorCount) :
    wp (blockDeviceRead first count)
      (fun sectors t => (sectors = fun i => s.device.contents (first + i)) ∧ s.Probing t ∧ t.classification = s.classification)
      (fun _ t => s.Probing t ∧ t.classification = s.classification ∧ ¬s.Readable first count) s := by
  have hprobing : s.Probing { s with requests := s.requests ++ [(first, count)] } := by
    refine ⟨rfl, rfl, fun hs r hr => ?_⟩
    obtain hr | hr := List.mem_append.mp hr
    · exact hs r hr
    · rw [List.mem_singleton.mp hr]
      exact hfits
  unfold blockDeviceRead
  rw [wp_bind, wp_get, wp_bind, wp_modify, wp_bind, wp_ofExcept]
  constructor
  · intro _ _
    split
    · rename_i e herror
      refine ⟨hprobing, rfl, fun hr => ?_⟩
      rw [hr.served s.requests first count le_rfl le_rfl] at herror
      cases herror
    · exact ⟨rfl, hprobing, rfl⟩
  · intro e herror
    refine ⟨hprobing, rfl, fun hr => ?_⟩
    rw [validateRange, if_neg (by omega), if_neg (not_or.mpr hr.online), if_neg (by omega)] at herror
    cases herror

theorem probeFrom_spec : ∀ {rounds : Nat} {s : ProbedDisk} {first count : Nat}, count ≤ rounds →
    first + count ≤ s.device.sectorCount →
    wp (probeFrom rounds first count)
      (fun zero t => s.Probing t ∧ t.classification = s.classification ∧ (zero = true → s.device.ZeroSectors first count))
      (fun _ t => s.Probing t ∧ t.classification = s.classification) s
  | 0, s, first, count, hrounds, _ => ⟨.refl, rfl, fun _ n hlow hhigh => absurd hrounds (by omega)⟩
  | rounds + 1, s, first, count, hrounds, hfits => by
    rw [probeFrom]
    split
    · rename_i hzero
      exact ⟨.refl, rfl, fun _ n hlow hhigh => absurd hzero (by omega)⟩
    · rename_i hzero
      generalize hbatch : min count diskProbeBatchSectors = batch
      rw [diskProbeBatchSectors] at hbatch
      dsimp only
      rw [wp_bind]
      refine wp_mono (blockDeviceRead_spec (by omega) (by omega)) ?_ fun e t ht => ⟨ht.1, ht.2.1⟩
      rintro sectors t ⟨rfl, hprobing, hsame⟩
      split
      · exact ⟨hprobing, hsame, fun h => nomatch h⟩
      · rename_i hbytes
        rw [Bool.not_eq_true', Bool.not_eq_false] at hbytes
        have hbatchZero := zeroSectors_of_bytes hbytes
        have hrest := @probeFrom_spec rounds t (first + batch) (count - batch) (by omega) (by rw [hprobing.device]; omega)
        refine wp_mono hrest ?_ ?_
        · rintro zero u ⟨hprobing', hsame', hzeros⟩
          refine ⟨hprobing.trans hprobing', hsame'.trans hsame, fun h n hlow hhigh => ?_⟩
          obtain hn | hn := Nat.lt_or_ge n (first + batch)
          · exact hbatchZero n hlow hn
          · rw [← hprobing.device]
            exact hzeros h n hn (by omega)
        · rintro e u ⟨hprobing', hsame'⟩
          exact ⟨hprobing.trans hprobing', hsame'.trans hsame⟩

theorem probeZeroRegion_spec (hfits : first + count ≤ s.device.sectorCount) :
    wp (probeZeroRegion first count)
      (fun zero t => s.Probing t ∧ t.classification = s.classification ∧ (zero = true → s.device.ZeroSectors first count))
      (fun _ t => s.Probing t ∧ t.classification = s.classification) s := probeFrom_spec le_rfl hfits

theorem entryGuid_eq {index : Nat} : device.entryGuid index = fun i =>
    sectorsByte (fun k => device.contents (device.entriesLba + index * device.entrySize / 512 + k))
      (index * device.entrySize % 512 + 16 + i.1) := by
  funext i
  rw [entryGuid, sectorsByte_add]
  exact congrArg (sectorsByte device.contents) (by omega)

theorem entry_within {index entryCount entrySize : Nat} (hindex : index < entryCount)
    (hsize : gptPartitionEntryMinimumSize ≤ entrySize) :
    index * entrySize / 512 + (if index * entrySize % 512 + 32 ≤ 512 then 1 else 2) ≤ (entryCount * entrySize + 512 - 1) / 512 := by
  have hend : index * entrySize + entrySize ≤ entryCount * entrySize := by
    rw [← Nat.succ_mul]
    exact Nat.mul_le_mul_right entrySize hindex
  rw [gptPartitionEntryMinimumSize] at hsize
  split <;> omega

seal wp in
theorem scanEntries_spec {device : BlockDevice} {bootGuid : Bytes 16} (hsize : gptPartitionEntryMinimumSize ≤ device.entrySize)
    (hfits : device.entriesLba + device.tableSectors ≤ device.sectorCount) :
    ∀ {entries index : Nat} {s : ProbedDisk}, s.device = device → index + entries = device.entryCount →
    wp (scanEntries device.entriesLba device.entrySize bootGuid entries index)
      (fun _ t => s.Probing t ∧
        ((∃ k < device.entryCount, index ≤ k ∧ device.entryGuid k = bootGuid) ∧ t.classification = some .protectedBoot ∨
          (∀ k < device.entryCount, index ≤ k → device.entryGuid k ≠ bootGuid) ∧ t.classification = s.classification))
      (fun _ t => s.Probing t ∧ t.classification = s.classification ∧ ¬s.Readable device.entriesLba device.tableSectors) s
  | 0, index, s, _, hcount => by
    rw [scanEntries, wp_pure]
    exact ⟨.refl, .inr ⟨fun k hk hindex => absurd hk (by omega), rfl⟩⟩
  | entries + 1, index, s, hdevice, hcount => by
    have hwithin := entry_within (show index < device.entryCount by omega) hsize
    rw [← tableSectors] at hwithin
    rw [scanEntries]
    dsimp only
    generalize hsectors : (if index * device.entrySize % 512 + 32 ≤ 512 then 1 else 2) = sectors at hwithin ⊢
    rw [wp_bind]
    refine wp_mono (blockDeviceRead_spec (by split at hsectors <;> omega) (by rw [hdevice]; omega)) ?_ ?_
    · rintro read t ⟨rfl, hprobing, hsame⟩
      rw [hdevice, ← entryGuid_eq, wp_ite]
      constructor
      · intro hguid
        rw [report, wp_modify]
        exact ⟨hprobing.trans .report, .inl ⟨⟨index, by omega, le_rfl, hguid⟩, rfl⟩⟩
      · intro hguid
        have hdevice' : t.device = device := hprobing.device.trans hdevice
        refine wp_mono (scanEntries_spec hsize hfits hdevice' (by omega : index + 1 + entries = _)) ?_ ?_
        · rintro _ u ⟨hprobing', ⟨⟨k, hk, hlow, hfound⟩, hboot⟩ | ⟨hnone, hsame'⟩⟩
          · exact ⟨hprobing.trans hprobing', .inl ⟨⟨k, hk, by omega, hfound⟩, hboot⟩⟩
          · refine ⟨hprobing.trans hprobing', .inr ⟨fun k hk hlow => ?_, hsame'.trans hsame⟩⟩
            obtain rfl | hlow := Nat.eq_or_lt_of_le hlow
            · exact hguid
            · exact hnone k hk hlow
        · rintro e u ⟨hprobing', hsame', hrefused⟩
          exact ⟨hprobing.trans hprobing', hsame'.trans hsame, fun hr => hrefused (hprobing.readable hr)⟩
    · rintro e t ⟨hprobing, hsame, hrefused⟩
      refine ⟨hprobing, hsame, fun hr => hrefused ⟨hr.online, fun requests f c hlow hhigh => ?_⟩⟩
      exact hr.served requests f c (by omega) (by omega)

theorem classifyGpt_spec {bootGuid : Bytes 16} (hdevice : s.device = device) : wp (classifyGpt (device.contents 1) bootGuid)
      (fun _ t => s.Probing t ∧ (t.classification = some .protectedPartitioned ∨ t.classification = some .protectedBoot) ∧
        (bootGuid ≠ Bytes.zero →
          (t.classification = some .protectedBoot ↔ ∃ index < device.entryCount, device.entryGuid index = bootGuid)))
      (fun _ t => s.Probing t ∧ t.classification = some .protectedPartitioned ∧
        ¬(device.GptAccepted ∧ s.Readable device.entriesLba device.tableSectors)) s := by
  subst hdevice
  have hreport : s.Probing { s with classification := some .protectedPartitioned } := .report
  unfold classifyGpt
  dsimp only
  rw [wp_bind, report, wp_modify, wp_bind, wp_get, wp_bind, wp_failIf]
  dsimp only
  constructor
  · intro hbad
    refine ⟨hreport, rfl, fun ⟨hgpt, _⟩ => ?_⟩
    obtain ⟨hsectors, hsignature, hminimum, hmaximum, hlba, halternate, hchecksum, hentries, hentry, haligned, -, -⟩ := hgpt
    obtain h | h | h | h | h | h | h | h | h := hbad
    · omega
    · omega
    · exact h hlba
    · omega
    · exact h hchecksum
    · exact hentries h
    · exact absurd hentry (Nat.not_le.mpr h)
    · exact h haligned
    · have hcount : (s.device.contents 1).toNat 80 4 < 256 ^ 4 := Bytes.toNat_lt
      have hsize : (s.device.contents 1).toNat 84 4 < 256 ^ 4 := Bytes.toNat_lt
      rw [entrySize, gptPartitionEntryMinimumSize] at hentry
      have hquotient : 2 ^ 32 ≤ (2 ^ 64 - 1) / (s.device.contents 1).toNat 84 4 := by
        rw [Nat.le_div_iff_mul_le (by omega)]
        omega
      omega
  · intro hgood
    simp only [not_or, not_lt] at hgood
    obtain ⟨-, -, -, -, -, -, hsize, -, -⟩ := hgood
    rw [wp_bind, wp_failIf]
    constructor
    · intro hbad
      refine ⟨hreport, rfl, fun ⟨hgpt, _⟩ => ?_⟩
      have hinside := hgpt.inside
      have hfits := hgpt.fits
      rw [tableSectors, entryCount, entrySize] at hfits
      rw [entriesLba] at hinside hfits
      omega
    · intro hfits
      rw [not_or, not_le, not_lt] at hfits
      split
      · rename_i hguid
        exact ⟨hreport, .inl rfl, fun hne => absurd (guidIsZero_iff.mp hguid) hne⟩
      · refine wp_mono (@scanEntries_spec s.device bootGuid hsize ?_ s.device.entryCount 0 _ rfl (Nat.zero_add _)) ?_ ?_
        · rw [tableSectors, entryCount, entrySize, entriesLba]
          omega
        · rintro _ t ⟨hprobing, ⟨⟨k, hk, -, hfound⟩, hboot⟩ | ⟨hnone, hsame⟩⟩
          · exact ⟨hreport.trans hprobing, .inr hboot, fun _ => ⟨fun _ => ⟨k, hk, hfound⟩, fun _ => hboot⟩⟩
          · refine ⟨hreport.trans hprobing, .inl hsame, fun _ => ⟨fun hboot => ?_, fun ⟨k, hk, hfound⟩ => ?_⟩⟩
            · rw [hsame] at hboot
              cases hboot
            · exact absurd hfound (hnone k hk (Nat.zero_le k))
        · rintro e t ⟨hprobing, hsame, hrefused⟩
          exact ⟨hreport.trans hprobing, hsame, fun h => hrefused (hreport.readable h.2)⟩

def Searchable (s : ProbedDisk) : Prop :=
  s.device.logicalSectorSize = 512 ∧ s.device.GptAccepted ∧ s.Readable 0 2 ∧ s.Readable s.device.entriesLba s.device.tableSectors

theorem not_gptAccepted (h : device.HoldsInferenceFs) : ¬device.GptAccepted := by
  intro hgpt
  have hmagic := h.magic
  rw [h.same, hgpt.signature] at hmagic
  exact absurd hmagic (by decide)

theorem probeBlank_spec {t : ProbedDisk} (hprobing : s.Probing t) (hrejected : t.classification = some .rejectedIo) :
    wp (do
      let startZero ← probeZeroRegion 0 (min s.device.sectorCount diskProbeSectors)
      let endZero ← probeZeroRegion (s.device.sectorCount - min s.device.sectorCount diskProbeSectors)
        (min s.device.sectorCount diskProbeSectors)
      report (if startZero && endZero then .eligibleBlank else .protectedForeign))
      (fun _ u => s.Guarded u) (fun _ u => s.Guarded u) t := by
  have hstopped {u : ProbedDisk} (h : s.Probing u) (hc : u.classification = some .rejectedIo) : s.Guarded u :=
    h.guarded (by rw [hc]; simp) (by rw [hc]; simp)
  rw [wp_bind]
  refine wp_mono (probeZeroRegion_spec (by rw [hprobing.device]; omega)) ?_ ?_
  · rintro startZero u ⟨hprobing', hsame', hstart⟩
    rw [hprobing.device] at hstart
    replace hprobing' := hprobing.trans hprobing'
    rw [wp_bind]
    refine wp_mono (probeZeroRegion_spec (by rw [hprobing'.device]; omega)) ?_ ?_
    · rintro endZero v ⟨hprobing'', hsame'', hend⟩
      rw [hprobing'.device] at hend
      replace hprobing'' := hprobing'.trans hprobing''
      rw [report, wp_modify]
      split
      · rename_i hzero
        rw [Bool.and_eq_true] at hzero
        exact ⟨hprobing''.trans .report, fun _ => ⟨hstart hzero.1, hend hzero.2⟩, fun hc => nomatch hc⟩
      · exact (hprobing''.trans .report).guarded (by simp) (by simp)
    · rintro e v ⟨hprobing'', hsame''⟩
      exact hstopped (hprobing'.trans hprobing'') (hsame''.trans (hsame'.trans hrejected))
  · rintro e u ⟨hprobing', hsame'⟩
    exact hstopped (hprobing.trans hprobing') (hsame'.trans hrejected)

theorem blockClassifyDataDisk_spec {bootGuid : Bytes 16} (hnone : s.classification = none) :
    wp (blockClassifyDataDisk bootGuid)
      (fun _ t => s.Guarded t ∧ (Searchable s → bootGuid ≠ Bytes.zero →
        (t.classification = some .protectedBoot ↔ ∃ index < s.device.entryCount, s.device.entryGuid index = bootGuid)))
      (fun _ t => s.Guarded t ∧ ¬Searchable s) s := by
  unfold blockClassifyDataDisk
  rw [wp_bind, wp_get, wp_bind, wp_failIf]
  constructor
  · intro hbad
    have hguarded : s.Guarded s := ProbedDisk.Probing.refl.guarded (by rw [hnone]; simp) (by rw [hnone]; simp)
    refine ⟨hguarded, fun hx => ?_⟩
    obtain ⟨hsize, hgpt, _⟩ := hx
    have := hgpt.sectors
    omega
  · intro hgood
    rw [wp_bind, report, wp_modify, wp_bind]
    have hreport : s.Probing { s with classification := some .rejectedIo } := .report
    refine wp_mono (blockDeviceRead_spec (by omega) (by dsimp only; omega)) ?_ ?_
    · rintro firstTwo t ⟨rfl, hprobing, hsame⟩
      replace hprobing := hreport.trans hprobing
      simp only [Nat.zero_add]
      rw [wp_ite]
      constructor
      · intro hvalid
        have hfs := inferenceFsSuperblocksValid_iff.mp hvalid
        exact ⟨⟨hprobing.trans .report, (fun hc => by cases hc), fun _ => hfs⟩, fun hs => absurd hs.2.1 (not_gptAccepted hfs)⟩
      · intro _
        rw [wp_ite]
        constructor
        · intro _
          rw [wp_bind, wp_attempt]
          refine wp_mono (classifyGpt_spec hprobing.device) ?_ ?_
          · rintro _ u ⟨hprobing', hcases, hboot⟩
            refine ⟨(hprobing.trans hprobing').guarded ?_ ?_, fun _ => hboot⟩
            all_goals obtain hc | hc := hcases <;> rw [hc] <;> simp
          · rintro e u ⟨hprobing', hc, hrefused⟩
            have hguarded := (hprobing.trans hprobing').guarded (by rw [hc]; simp) (by rw [hc]; simp)
            have hsearch : ¬Searchable s := fun hs => hrefused ⟨hs.2.1, hprobing.readable hs.2.2.2⟩
            dsimp only
            rw [wp_failIf]
            exact ⟨fun _ => ⟨hguarded, hsearch⟩, fun _ => ⟨hguarded, fun hs => absurd hs hsearch⟩⟩
        · intro hsignature
          have hsearch : ¬Searchable s := fun hs => hsignature hs.2.1.signature
          rw [wp_ite]
          constructor
          · intro _
            rw [report, wp_modify]
            exact ⟨(hprobing.trans .report).guarded (by simp) (by simp), fun hs => absurd hs hsearch⟩
          · intro _
            refine wp_mono (probeBlank_spec hprobing hsame) ?_ ?_
            · exact fun _ u hu => ⟨hu, fun hs => absurd hs hsearch⟩
            · exact fun _ u hu => ⟨hu, hsearch⟩
    · rintro e t ⟨hprobing, hsame, hrefused⟩
      refine ⟨(hreport.trans hprobing).guarded (by rw [hsame]; simp) (by rw [hsame]; simp), fun hx => ?_⟩
      exact hrefused (hreport.readable hx.2.2.1)

/-- Classification fails closed: it asks for sectors of the disk alone, calls a disk blank or a file system only where it is,
    and finds the boot partition in every accepted partition table that can be read, wherever its entries lie. -/
theorem classification_fails_closed (device : BlockDevice) (readError : List (Nat × Nat) → Nat × Nat → Option IosError)
    (bootGuid : Bytes 16) :
    let s := ProbedDisk.start device readError
    let run := blockClassifyDataDisk bootGuid s
    (∀ r ∈ run.2.requests, r.1 + r.2 ≤ device.sectorCount) ∧
    (run.2.classification = some .eligibleBlank → device.ZeroSectors 0 (min device.sectorCount diskProbeSectors) ∧
      device.ZeroSectors (device.sectorCount - min device.sectorCount diskProbeSectors) (min device.sectorCount diskProbeSectors)) ∧
    (run.2.classification = some .eligibleInferenceFs → device.HoldsInferenceFs) ∧
    (device.logicalSectorSize = 512 → device.GptAccepted → bootGuid ≠ Bytes.zero → s.Readable 0 2 →
      s.Readable device.entriesLba device.tableSectors →
      run.1 = .ok () ∧
        (run.2.classification = some .protectedBoot ↔ ∃ index < device.entryCount, device.entryGuid index = bootGuid)) := by
  intro s run
  have hspec := @blockClassifyDataDisk_spec s bootGuid rfl
  rcases hrun : run with ⟨e | _, t⟩
  · obtain ⟨⟨hprobing, hblank, hfs⟩, hsearch⟩ := wp_error hspec hrun
    refine ⟨hprobing.inRange fun r hr => (nomatch hr), hblank, hfs, fun hsize hgpt _ hfirst htable => ?_⟩
    exact absurd ⟨hsize, hgpt, hfirst, htable⟩ hsearch
  · obtain ⟨⟨hprobing, hblank, hfs⟩, hboot⟩ := wp_ok hspec hrun
    refine ⟨hprobing.inRange fun r hr => (nomatch hr), hblank, hfs, fun hsize hgpt hguid hfirst htable => ⟨rfl, ?_⟩⟩
    exact hboot ⟨hsize, hgpt, hfirst, htable⟩ hguid

def straddlingGuid : Bytes 16 := fun i => UInt8.ofNat (i.1 + 1)

def straddlingHeader : Sector :=
  let header : Sector := Bytes.zero.put 0 efiPart |>.put 12 (Bytes.ofNat 4 92) |>.put 24 (Bytes.ofNat 8 1) |>.put 32 (Bytes.ofNat 8 7)
    |>.put 72 (Bytes.ofNat 8 2) |>.put 80 (Bytes.ofNat 4 2) |>.put 84 (Bytes.ofNat 4 496)
  header.put 16 (Bytes.ofNat 4 (crc32ZeroedField header.byte 92 16 4).toNat)

def straddlingDisk : BlockDevice :=
  { blank 8 with
    contents := fun n => if n = 1 then straddlingHeader else if n = 3 then Bytes.zero.put 0 straddlingGuid else Bytes.zero }

theorem straddlingDisk_gptAccepted : straddlingDisk.GptAccepted where
  sectors := by decide
  signature := by decide +kernel
  minimum := by decide +kernel
  maximum := by decide +kernel
  lba := by decide +kernel
  alternate := by decide +kernel
  checksum := by decide +kernel
  entries := by decide +kernel
  entryMinimum := by decide +kernel
  aligned := by decide +kernel
  inside := by decide +kernel
  fits := by decide +kernel

/-- The boot partition is found in an entry that straddles two sectors. -/
theorem classification_finds_straddling_entry :
    (blockClassifyDataDisk straddlingGuid (.start straddlingDisk fun _ _ => none)).2.classification = some .protectedBoot := by
  have hreadable (first count : Nat) : (ProbedDisk.start straddlingDisk fun _ _ => none).Readable first count :=
    ⟨⟨by decide, by decide⟩, fun _ _ _ _ _ => rfl⟩
  obtain ⟨-, -, -, hboot⟩ := classification_fails_closed straddlingDisk (fun _ _ => none) straddlingGuid
  refine (hboot rfl straddlingDisk_gptAccepted (by decide) (hreadable 0 2) (hreadable _ _)).2.mpr ⟨1, ?_, ?_⟩
  · decide +kernel
  · decide +kernel

end ProbeProgram
end InferenceOS
