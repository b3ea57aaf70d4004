import InferenceOS.Fs.FileService

/-! Where the parts of a volume lie. The sectors of a volume are read as a disk: an allocation table and
    data clusters. A sector write changes one table sector or a part of one cluster and nothing else. -/

namespace InferenceOS
open FileService Function

/-- The bytes of all sectors. -/
abbrev View : Type := Nat → Sector

/-- What the sectors of a volume say. -/
structure Disk where
  fat : Nat → Nat
  data : Nat → ClusterBytes

/-- The places that `ios_fs_calculate_geometry` gives to the regions of a volume. -/
structure Geometry.Laid (g : Geometry) : Prop where
  data : g.dataStartSector = superblockSectors + g.fatSectors + registrySectors
  table : g.clusterCount + 2 ≤ g.fatSectors * 128
  positive : 0 < g.clusterCount
  clusters : g.clusterCount + 1 ≤ maxDataCluster
  sectors : g.fatSectors < 2 ^ 32
  total : g.dataStartSector + g.clusterCount * sectorsPerCluster ≤ g.totalSectors

section Buffers
variable {b : ClusterBytes} {f f' : Nat → Sector} {i j k : Nat}

theorem sectorOf_joinSectors (hk : k < 8) : sectorOf (joinSectors f) k = f k := by
  refine Bytes.ext_byte fun i hi => ?_
  rw [sectorOf, Bytes.byte_slice hi, Bytes.byte_of_lt (by omega)]
  show (f ((512 * k + i) / 512)).byte ((512 * k + i) % 512) = (f k).byte i
  rw [show (512 * k + i) / 512 = k by omega, show (512 * k + i) % 512 = i by omega]

theorem joinSectors_congr (h : ∀ k, k < 8 → f k = f' k) : joinSectors f = joinSectors f' := by
  funext i
  show (f (i.1 / 512)).byte (i.1 % 512) = (f' (i.1 / 512)).byte (i.1 % 512)
  rw [h _ (by omega)]

theorem joinSectors_sectorOf : joinSectors (sectorOf b) = b := by
  refine Bytes.ext_byte fun i hi => ?_
  rw [Bytes.byte_of_lt hi]
  show (sectorOf b (i / 512)).byte (i % 512) = b.byte i
  rw [sectorOf, Bytes.byte_slice (by omega), Nat.div_add_mod]

theorem slotAt_put {r : Slot} (hi : i < 128) : slotAt (b.put (32 * i) r) j = if j = i then r else slotAt b j := by
  split
  · rename_i h
    subst h
    exact Bytes.slice_put (by omega)
  · exact Bytes.slice_put_of_disjoint (by omega)

theorem sectorOf_put_slot {r : Slot} (hk : k ≠ i / 16) : sectorOf (b.put (32 * i) r) k = sectorOf b k :=
  Bytes.slice_put_of_disjoint (by omega)

theorem slotAt_ext {b b' : ClusterBytes} (h : ∀ i, i < 128 → slotAt b i = slotAt b' i) : b = b' := by
  refine Bytes.ext_byte fun k hk => ?_
  have hs : (slotAt b (k / 32)).byte (k % 32) = (slotAt b' (k / 32)).byte (k % 32) := by rw [h _ (by omega)]
  rw [slotAt, slotAt, Bytes.byte_slice (by omega), Bytes.byte_slice (by omega), Nat.div_add_mod] at hs
  exact hs

end Buffers

/-- Entry `i` of the allocation table on the sectors. -/
def fatOf (g : Geometry) (v : View) (i : Nat) : Nat :=
  if i < g.fatSectors * 128 then (v (superblockSectors + i / 128)).toNat (4 * (i % 128)) 4 else 0

/-- Data cluster `c` on the sectors. -/
def dataOf (g : Geometry) (v : View) (c : Nat) : ClusterBytes :=
  if 2 ≤ c then joinSectors fun k => v (clusterSector g c + k) else Bytes.zero

def diskOf (g : Geometry) (v : View) : Disk := ⟨fatOf g v, dataOf g v⟩

def tableOf (g : Geometry) (fat : Nat → Nat) (i : Nat) : Nat := if i < g.fatSectors * 128 then fat i else 0

section Reading
variable {g : Geometry} {v w : View} {c d i k n : Nat}

theorem fatOf_lt : fatOf g v i < 2 ^ 32 := by
  unfold fatOf
  split
  · exact Bytes.toNat_lt
  · omega

theorem dataOf_eq (hc : 2 ≤ c) : dataOf g v c = joinSectors fun k => v (clusterSector g c + k) := if_pos hc

theorem sectorOf_dataOf (hc : 2 ≤ c) (hk : k < 8) : sectorOf (dataOf g v c) k = v (clusterSector g c + k) := by
  rw [dataOf_eq hc, sectorOf_joinSectors hk]

theorem dataOf_congr (h : ∀ n, g.dataStartSector ≤ n → v n = w n) : dataOf g v = dataOf g w := by
  funext c
  unfold dataOf
  split
  · exact joinSectors_congr fun k _ => h _ (by unfold clusterSector; omega)
  · rfl

theorem fatOf_congr (h : ∀ k, k < g.fatSectors → v (superblockSectors + k) = w (superblockSectors + k)) :
    fatOf g v = fatOf g w := by
  funext i
  unfold fatOf
  split
  · rw [h _ (by omega)]
  · rfl

theorem diskOf_put_sector (hg : g.Laid) (hd : 2 ≤ d) (hk : k < 8) {buffer : ClusterBytes}
    (hb : ∀ j, j < 8 → j ≠ k → sectorOf buffer j = sectorOf (dataOf g v d) j) :
    diskOf g (update v (clusterSector g d + k) (sectorOf buffer k)) =
      { diskOf g v with data := update (dataOf g v) d buffer } := by
  have hdata := hg.data
  unfold diskOf
  congr 1
  · refine fatOf_congr fun j hj => update_of_ne ?_ _ _
    unfold clusterSector
    omega
  · funext c
    by_cases hc : 2 ≤ c
    · by_cases hcd : c = d
      · subst hcd
        rw [update_self, dataOf_eq hc, ← @joinSectors_sectorOf buffer]
        refine joinSectors_congr fun j hj => ?_
        by_cases hjk : j = k
        · subst hjk
          rw [update_self, joinSectors_sectorOf]
        · rw [update_of_ne (by omega), hb j hj hjk, sectorOf_dataOf hc hj]
      · rw [update_of_ne hcd, dataOf_eq hc, dataOf_eq hc]
        refine joinSectors_congr fun j hj => update_of_ne ?_ _ _
        unfold clusterSector sectorsPerCluster
        omega
    · rw [update_of_ne (by omega)]
      unfold dataOf
      rw [if_neg hc, if_neg hc]

theorem diskOf_put_record (hg : g.Laid) (hd : 2 ≤ d) (hi : i < 128) {r : Slot} :
    diskOf g (update v (clusterSector g d + i / 16) (sectorOf ((dataOf g v d).put (32 * i) r) (i / 16))) =
      { diskOf g v with data := update (dataOf g v) d ((dataOf g v d).put (32 * i) r) } :=
  diskOf_put_sector hg hd (by omega) fun _ _ hj => sectorOf_put_slot hj

theorem toNat_fatSectorBytes {fat : Nat → Nat} : (fatSectorBytes fat k).toNat (4 * (i % 128)) 4 =
    fat (128 * k + i % 128) % 2 ^ 32 := by
  have h : ∀ j, j < 4 → (fatSectorBytes fat k).byte (4 * (i % 128) + j) = Bytes.digit (fat (128 * k + i % 128)) (0 + j) := by
    intro j hj
    rw [Bytes.byte_of_lt (by omega)]
    show Bytes.digit (fat (128 * k + (4 * (i % 128) + j) / 4)) ((4 * (i % 128) + j) % 4) = _
    rw [show (4 * (i % 128) + j) / 4 = i % 128 by omega, show (4 * (i % 128) + j) % 4 = 0 + j by omega]
  have := Bytes.toNat_of_digits h
  simpa using this

theorem diskOf_put_fat (hg : g.Laid) (hk : k < g.fatSectors) {fat : Nat → Nat}
    (hf : ∀ i, i < g.fatSectors * 128 → fat i < 2 ^ 32) :
    diskOf g (update v (superblockSectors + k) (fatSectorBytes fat k)) =
      { diskOf g v with fat := fun i => if i / 128 = k then tableOf g fat i else fatOf g v i } := by
  have hdata := hg.data
  unfold diskOf
  congr 1
  · funext i
    unfold fatOf tableOf
    by_cases hi : i < g.fatSectors * 128
    · rw [if_pos hi]
      by_cases hik : i / 128 = k
      · subst hik
        rw [update_self, toNat_fatSectorBytes, Nat.div_add_mod, Nat.mod_eq_of_lt (hf i hi), if_pos rfl, if_pos hi]
      · rw [update_of_ne (by omega), if_neg hik, if_pos hi]
    · simp only [if_neg hi, ite_self]
  · refine dataOf_congr fun n hn => update_of_ne ?_ _ _
    omega

theorem storeSectors_succ {f : Nat → Sector} {first count : Nat} :
    update (storeSectors v first count f) (first + count) (f count) = storeSectors v first (count + 1) f := by
  funext n
  rw [update_apply]
  unfold storeSectors
  split
  · rename_i h
    subst h
    rw [if_pos (by omega), Nat.add_sub_cancel_left]
  · by_cases hn : first ≤ n ∧ n < first + count
    · rw [if_pos hn, if_pos (by omega)]
    · rw [if_neg hn, if_neg (by omega)]

theorem diskOf_put_cluster (hg : g.Laid) (hd : 2 ≤ d) {buffer : ClusterBytes} :
    diskOf g (storeSectors v (clusterSector g d) 8 (sectorOf buffer)) =
      { diskOf g v with data := update (dataOf g v) d buffer } := by
  have hdata := hg.data
  unfold diskOf
  congr 1
  · refine fatOf_congr fun j hj => if_neg ?_
    unfold clusterSector
    omega
  · funext c
    by_cases hc : 2 ≤ c
    · by_cases hcd : c = d
      · subst hcd
        rw [update_self, dataOf_eq hc]
        refine (joinSectors_congr fun j hj => ?_).trans joinSectors_sectorOf
        rw [storeSectors, if_pos (by omega), Nat.add_sub_cancel_left]
      · rw [update_of_ne hcd, dataOf_eq hc, dataOf_eq hc]
        refine joinSectors_congr fun j hj => if_neg ?_
        unfold clusterSector sectorsPerCluster
        omega
    · rw [update_of_ne (by omega)]
      unfold dataOf
      rw [if_neg hc, if_neg hc]

end Reading

namespace Disk

def record (D : Disk) (d i : Nat) (r : Slot) : Disk :=
  { D with data := update D.data d ((D.data d).put (32 * i) r) }

def cluster (D : Disk) (c : Nat) (buffer : ClusterBytes) : Disk := { D with data := update D.data c buffer }

def table (D : Disk) (fat : Nat → Nat) : Disk := { D with fat }

variable {D : Disk} {d e i j c : Nat} {r : Slot} {buffer : ClusterBytes} {fat : Nat → Nat}

@[simp] theorem record_fat : (D.record d i r).fat = D.fat := rfl

@[simp] theorem cluster_fat : (D.cluster c buffer).fat = D.fat := rfl

@[simp] theorem table_fat : (D.table fat).fat = fat := rfl

@[simp] theorem table_data : (D.table fat).data = D.data := rfl

theorem record_data (h : e ≠ d) : (D.record d i r).data e = D.data e := update_of_ne h _ _

theorem cluster_data (h : e ≠ c) : (D.cluster c buffer).data e = D.data e := update_of_ne h _ _

theorem cluster_self : (D.cluster c buffer).data c = buffer := update_self _ _ _

theorem record_slot (hi : i < 128) :
    slotAt ((D.record d i r).data e) j = if e = d ∧ j = i then r else slotAt (D.data e) j := by
  by_cases he : e = d
  · subst he
    have hs : (D.record e i r).data e = (D.data e).put (32 * i) r := update_self _ _ _
    rw [hs, slotAt_put hi]
    simp
  · rw [record_data he, if_neg fun h => he h.1]

end Disk
end InferenceOS
