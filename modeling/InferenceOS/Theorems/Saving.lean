import InferenceOS.Theorems.Mutations

/-! Saving the content of a file: the new clusters are written one by one, the record is committed over them
    and the old clusters are released. -/

namespace InferenceOS
open Program
variable {count : Nat}

namespace FileService
variable {s t u : FileService} {T : Tree} {d k : Nat} {Ds Es : List Disk}
variable {fat : Nat → Nat} {α : Type}

def loadedTable (s : FileService) (count i : Nat) : Nat := if i < count * 128 then s.disk.fat i else s.fat i

theorem loadFatSector_eq {g : Geometry} {v : View} (hc : count < g.fatSectors) :
    loadFatSector (fun i => if i < count * 128 then fatOf g v i else fat i) count (v (superblockSectors + count)) =
      fun i => if i < (count + 1) * 128 then fatOf g v i else fat i := by
  funext i
  unfold loadFatSector
  dsimp only
  split
  · rename_i hi
    subst hi
    rw [if_pos (by omega), fatOf, if_pos (by omega)]
  · rename_i hi
    by_cases hlt : i < count * 128
    · rw [if_pos hlt, if_pos (by omega)]
    · rw [if_neg hlt, if_neg (by omega)]

theorem loadFatAt_spec (h : s.Mounted) (hk : k < s.mount.geometry.fatSectors) :
    wp (loadFatAt k)
      (fun _ t => Wrote s t s.view 0 ∧
        t = { s with sync := t.sync, fat := loadFatSector s.fat k (s.view (superblockSectors + k)) })
      (fun e t => Wrote s t s.view 0 ∧ t = { s with sync := t.sync } ∧ e ≠ .notFound ∧ ¬s.Room 1) s := by
  simp only [loadFatAt, wp_bind]
  refine wp_mono (cacheRead_spec h (h.table_inRange hk)) (fun b t ⟨hb, hw, ht⟩ => ?_) fun e t ⟨⟨hw, ht⟩, he, hr⟩ =>
    ⟨hw, ht, he, hr⟩
  refine ⟨hw.target rfl rfl rfl rfl, ?_⟩
  rw [hb]
  exact ht ▸ rfl

theorem loadSectors_spec (h : s.Mounted) : ∀ {count : Nat}, count ≤ s.mount.geometry.fatSectors →
    wp (each loadFatAt (List.range count))
      (fun _ t => Wrote s t s.view 0 ∧ t = { s with sync := t.sync, fat := s.loadedTable count })
      (fun e t => Wrote s t s.view 0 ∧ t = { s with sync := t.sync, fat := t.fat } ∧ e ≠ .notFound ∧ ¬s.Room 1) s
  | 0, _ => ⟨Wrote.refl h, by rw [show s.loadedTable 0 = s.fat from funext fun i => if_neg (by omega)]⟩
  | count + 1, hc => by
    rw [List.range_succ, wp_each_append]
    refine wp_mono (loadSectors_spec h (by omega)) (fun _ t ⟨hw, ht⟩ => ?_) fun _ _ he => he
    rw [wp_each_cons]
    have hmount : t.mount = s.mount := by rw [ht]
    have hview : t.view = s.view := hw.view
    refine wp_mono (loadFatAt_spec (hw.mounted h) (by rw [hmount]; omega)) (fun _ u ⟨hu, hut⟩ => ?_)
      fun e u ⟨hu, hut, he, hr⟩ => ?_
    · rw [hview] at hu hut
      refine ⟨hw.trans hu, ?_⟩
      rw [hut, ht]
      show { s with sync := u.sync, fat := loadFatSector (s.loadedTable count) count (s.view (superblockSectors + count)) } =
        { s with sync := u.sync, fat := s.loadedTable (count + 1) }
      congr 1
      exact loadFatSector_eq (by omega)
    · rw [hview] at hu
      refine ⟨hw.trans hu, ?_, he, fun hx => hr (hw.room (by simpa using hx))⟩
      rw [hut, ht]

theorem loadFat_spec (h : s.Mounted) :
    wp loadFat
      (fun _ t => Wrote s t s.view 0 ∧
        t = { s with sync := t.sync, fat := s.loadedTable s.mount.geometry.fatSectors, dirtyFatSectors := [] })
      (fun e t => Wrote s t s.view 0 ∧ t = { s with sync := t.sync, fat := t.fat } ∧ e ≠ .notFound ∧ ¬s.Room 1) s := by
  simp only [loadFat, wp_bind, wp_get]
  refine wp_mono (loadSectors_spec h le_rfl) (fun _ t ⟨hw, ht⟩ => ⟨hw.target rfl rfl rfl rfl, ?_⟩) fun _ _ he => he
  rw [ht]

def guarded (m : Service Unit) : Service Unit := do
  match ← attempt m with
  | .error status =>
    let _ ← attempt loadFat
    fail status
  | .ok () => pure ()

theorem guarded_bind {m : Service Unit} {next : Service α} : (attempt m >>= fun outcome => match outcome with
      | .error status => attempt loadFat >>= fun _ => fail status
      | .ok () => next) = guarded m >>= fun _ => next := by
  unfold guarded
  rw [bind_assoc]
  funext s
  rcases hr : m s with ⟨e | u, t⟩
  · rw [bind_ok (attempt_eq hr), bind_ok (attempt_eq hr)]
    dsimp only
    rw [bind_assoc]
    rfl
  · rw [bind_ok (attempt_eq hr), bind_ok (attempt_eq hr)]
    rfl

theorem guarded_spec {m : Service Unit} {Q : Unit → FileService → Prop} (h : s.Mounted)
    (hm : wp m Q (fun _ t => (∃ v k, Wrote s t v k) ∧ ¬s.Room 8) s) :
    wp (guarded m) Q (fun _ t => Cut s t [] ∧ ¬s.Room 8) s := by
  unfold guarded
  simp only [wp_bind, wp_attempt]
  refine wp_mono hm (fun _ _ hq => hq) fun e t ⟨⟨v, k, hw⟩, hr⟩ => ?_
  simp only [wp_bind, wp_attempt]
  refine wp_mono (loadFat_spec (hw.mounted h)) (fun _ u ⟨hu, _⟩ => ?_) fun e u ⟨hu, _⟩ => ?_
  · exact ⟨(hw.trans hu).cut, hr⟩
  · exact ⟨(hw.trans hu).cut, hr⟩

def Buffered (s t : FileService) : Prop := t = { s with sync := t.sync, cluster := t.cluster }

theorem Buffered.trans (h : Buffered s t) (h' : Buffered t u) : Buffered s u := by rw [Buffered, h', h]

theorem Buffered.with_sync {sync : Sync} (h : Buffered s t) : Buffered s { t with sync } := by rw [Buffered, h]

def savedCluster (D : Disk) (old : List Nat) (oldSize : Nat) (bytes : Text) (append : Bool) (index : Nat) : ClusterBytes :=
  copyInput (if append ∧ index * clusterSize < oldSize ∧ index < old.length then D.data (old.getD index 0) else Bytes.zero)
    bytes (if append then oldSize else 0) (index * clusterSize)

theorem saveCluster_spec (h : s.Mounted) {bytes : Text} {append : Bool} {oldSize j : Nat}
    (hc : Fat.validCluster (s.chain.getD j 0) s.fatEntryCount)
    (hold : ∀ c ∈ s.oldChain, Fat.validCluster c s.fatEntryCount) :
    wp (saveCluster bytes append oldSize j)
      (fun _ t => ∃ v, Wrote s t v 8 ∧ diskOf s.mount.geometry v =
          s.disk.cluster (s.chain.getD j 0) (savedCluster s.disk s.oldChain oldSize bytes append j) ∧
        Buffered s t)
      (fun _ t => (∃ v k, Wrote s t v k) ∧ ¬s.Room 8) s := by
  -- The write, once the buffer holds what is kept of the old content.
  have write : ∀ (t : FileService) (b : ClusterBytes), Quiet s t → t = { s with sync := t.sync, cluster := b } →
      wp (modify (fun service : FileService => { service with
          cluster := copyInput service.cluster bytes (if append then oldSize else 0) (j * clusterSize) }) >>= fun _ =>
        get >>= fun service : FileService => writeCluster (service.chain.getD j 0) service.cluster DirtyComponent.content)
      (fun _ t => ∃ v, Wrote s t v 8 ∧ diskOf s.mount.geometry v = s.disk.cluster (s.chain.getD j 0)
          (copyInput b bytes (if append then oldSize else 0) (j * clusterSize)) ∧
        Buffered s t)
      (fun _ t => (∃ v k, Wrote s t v k) ∧ ¬s.Room 8) t := by
    intro t b hq ht
    simp only [wp_bind, wp_modify, wp_get]
    let t' : FileService := { t with
      cluster := copyInput t.cluster bytes (if append then oldSize else 0) (j * clusterSize) }
    have hb : t.cluster = b := by rw [ht]
    have hq' : Quiet s t' := hq.scratch rfl
    have hchain : t'.chain = s.chain := show t.chain = s.chain by rw [ht]
    have hc' : Fat.validCluster (t'.chain.getD j 0) t'.fatEntryCount := by
      rw [hchain, hq'.fatEntryCount]
      exact hc
    have hw := @writeCluster_spec t' (hq'.mounted h) _ hc' t'.cluster _
      (show validComponent DirtyComponent.content by decide)
    refine wp_mono hw (fun _ u ⟨v, hu, hut, hv⟩ => ⟨v, ?_, ?_, ?_⟩) fun e u ⟨⟨v, k, hu⟩, _, _, hr⟩ => ⟨⟨v, 0 + k, ?_⟩, ?_⟩
    · have := hq'.wrote.trans hu
      rwa [Nat.zero_add] at this
    · rw [← hq'.mount, hv, hq'.disk, hchain, ← hb]
      rfl
    · have ht' : Buffered s t' := by
        show t' = { s with sync := t.sync, cluster := t'.cluster }
        simp only [t']
        rw [ht]
      exact ht'.trans (by rw [Buffered, hut])
    · exact hq'.wrote.trans hu
    · exact fun hx => hr (hq'.wrote.room (by rwa [Nat.zero_add]))
  have zeroed : Quiet s { s with cluster := Bytes.zero } := (Quiet.refl h).scratch rfl
  unfold saveCluster savedCluster
  simp only [wp_bind, wp_modify, wp_get, wp_ite]
  refine ⟨fun hcopy => ?_, fun hcopy => ?_⟩
  · rw [if_pos hcopy]
    have hv : Fat.validCluster (s.oldChain.getD j 0) s.fatEntryCount := by
      rw [List.getD_eq_getElem _ _ hcopy.2.2]
      exact hold _ (List.getElem_mem _)
    refine wp_mono (readCluster_spec (zeroed.mounted h) hv) (fun b t ⟨hb, ht⟩ => ?_) fun e t ⟨ht, _, hr⟩ => ?_
    · have hq := zeroed.trans ht.quiet
      subst hb
      exact write { t with cluster := s.disk.data (s.oldChain.getD j 0) } _ (hq.scratch rfl) (by rw [ht.2])
    · exact ⟨⟨_, _, (zeroed.trans ht.quiet).wrote⟩, fun hx => hr (zeroed.wrote.room (hx.mono (by omega)))⟩
  · rw [if_neg hcopy]
    exact write { s with cluster := Bytes.zero } Bytes.zero zeroed rfl

theorem saveStep_goes (h : s.Mounted) {bytes : Text} {append : Bool} {oldSize j : Nat}
    (hc : Fat.validCluster (s.chain.getD j 0) s.fatEntryCount)
    (hold : ∀ c ∈ s.oldChain, Fat.validCluster c s.fatEntryCount) :
    Goes (saveStep bytes append oldSize j) s
      [s.disk.cluster (s.chain.getD j 0) (savedCluster s.disk s.oldChain oldSize bytes append j)] 8 fun _ => Buffered s := by
  have hgroup := goes_group h (guarded_spec h (@saveCluster_spec s h bytes append oldSize j hc hold)) fun t sync ht => ht.with_sync
  rw [← guarded_bind] at hgroup
  exact hgroup

/-- The disk after the first `count` new clusters were written. -/
def written (D : Disk) (l : List Nat) (f : Nat → ClusterBytes) : Nat → Disk
  | 0 => D
  | count + 1 => (written D l f count).cluster (l.getD count 0) (f count)

def contentStages (D : Disk) (l : List Nat) (f : Nat → ClusterBytes) (count : Nat) : List Disk :=
  (List.range count).map fun j => written D l f (j + 1)

section Written
variable {D : Disk} {l : List Nat} {f : Nat → ClusterBytes}

theorem written_fat : ∀ {count : Nat}, (written D l f count).fat = D.fat
  | 0 => rfl
  | count + 1 => by rw [written, Disk.cluster_fat, written_fat]

theorem written_other {e : Nat} : ∀ {count : Nat}, (∀ j, j < count → l.getD j 0 ≠ e) → (written D l f count).data e = D.data e
  | 0, _ => rfl
  | count + 1, h => by
    rw [written, Disk.cluster_data fun hx => h count (by omega) hx.symm, written_other fun j hj => h j (by omega)]

theorem getD_inj (hnd : l.Nodup) {i j : Nat} (hi : i < l.length) (hj : j < l.length) (h : l.getD i 0 = l.getD j 0) :
    i = j := by
  rw [List.getD_eq_getElem _ _ hi, List.getD_eq_getElem _ _ hj] at h
  exact (List.Nodup.getElem_inj_iff hnd).mp h

theorem written_self (hnd : l.Nodup) {i : Nat} : ∀ {count : Nat}, count ≤ l.length → i < count →
    (written D l f count).data (l.getD i 0) = f i
  | count + 1, hc, hi => by
    rw [written]
    by_cases hx : i = count
    · subst hx
      exact Disk.cluster_self
    · have hne : l.getD i 0 ≠ l.getD count 0 := fun h => hx (getD_inj hnd (by omega) (by omega) h)
      rw [Disk.cluster_data hne, written_self hnd (by omega) (by omega)]

theorem getD_mem {i : Nat} (hi : i < l.length) : l.getD i 0 ∈ l := by
  rw [List.getD_eq_getElem _ _ hi]
  exact List.getElem_mem _

theorem contentStages_succ :
    contentStages D l f (count + 1) = contentStages D l f count ++ [(written D l f count).cluster (l.getD count 0) (f count)] := by
  rw [contentStages, List.range_succ, List.map_append]
  rfl

theorem contentStages_last : ∀ {count : Nat}, (contentStages D l f count).getLastD D = written D l f count
  | 0 => rfl
  | count + 1 => by
    rw [contentStages_succ, getLastD_append]
    rfl

end Written

theorem Goes.each_snoc {f : α → Service Unit} {l : List α} {a : α} {R R' : Unit → FileService → Prop}
    (h : Goes (each f l) s Ds k R) (h' : ∀ t, Went s t Ds → R () t → Goes (f a) t Es k R') :
    Goes (each f (l ++ [a])) s (Ds ++ Es) k R' := by
  have hb := h.bind (f := fun _ => f a) fun _ => h'
  unfold Goes at hb ⊢
  rw [wp_bind] at hb
  rw [wp_each_append]
  refine wp_mono hb (fun _ t ht => ?_) fun _ _ he => he
  rw [wp_each_cons]
  exact ht

theorem saveLoop_goes (h : s.Mounted) {bytes : Text} {append : Bool} {oldSize : Nat} {l : List Nat}
    (hv : ∀ c ∈ l, Fat.validCluster c s.fatEntryCount) (hold : ∀ c ∈ s.oldChain, Fat.validCluster c s.fatEntryCount)
    (hdisj : ∀ c ∈ l, c ∉ s.oldChain) : ∀ {count : Nat}, count ≤ l.length → (0 < count → s.chain = l) →
    Goes (each (saveStep bytes append oldSize) (List.range count)) s
      (contentStages s.disk l (savedCluster s.disk s.oldChain oldSize bytes append) count) 8 fun _ => Buffered s
  | 0, _, _ => goes_pure h rfl
  | count + 1, hc, hl => by
    rw [List.range_succ, contentStages_succ]
    refine Goes.each_snoc (saveLoop_goes h hv hold hdisj (by omega) fun _ => hl (by omega)) fun t ht hbt => ?_
    have hdt : t.disk = _ := ht.disk.trans contentStages_last
    have hchain : t.chain = l := by
      rw [hbt]
      exact hl (by omega)
    have holdChain : t.oldChain = s.oldChain := by rw [hbt]
    have hn : t.fatEntryCount = s.fatEntryCount := by rw [hbt]
    have hstep := @saveStep_goes t (ht.mounted h) bytes append oldSize count
      (by rw [hchain, hn]; exact hv _ (getD_mem hc)) (by rw [holdChain, hn]; exact hold)
    -- The old clusters still hold the old content.
    have hsame : savedCluster t.disk s.oldChain oldSize bytes append count =
        savedCluster s.disk s.oldChain oldSize bytes append count := by
      unfold savedCluster
      congr 1
      split
      · rename_i hcopy
        rw [hdt, written_other fun j hj hx => ?_]
        exact hdisj _ (getD_mem (by omega)) (hx ▸ getD_mem hcopy.2.2)
      · rfl
    rw [hchain, holdChain, hsame, hdt] at hstep
    exact hstep.mono le_rfl fun _ u _ hu => hbt.trans hu

def reserve (fat : Nat → Nat) (n count : Nat) : Except IosError ((Nat → Nat) × List Nat) :=
  if count = 0 then .ok (fat, []) else Fat.allocate fat n count maxClusters

def savePlan (s : FileService) (T : Tree) (d : Nat) (entry : DirectoryEntry) (bytes : Text) (append : Bool) :
    Except IosError (Plan Unit) := do
  if entry.kind ≠ .regular then .error .invalidArgument
  let p := entry.primary
  let k := entry.primarySlot - 1
  let old := T.chain d entry.primarySlot
  let size := if append then p.fileSize + bytes.length else bytes.length
  if 2 ^ 32 - 1 < size ∨ maxClusters * clusterSize < size then .error .noSpace
  let count := (size + clusterSize - 1) / clusterSize
  let (fat, l) ← reserve s.fat s.fatEntryCount count
  let content := savedCluster s.disk old p.fileSize bytes append
  let q := { p with firstCluster := l.headD 0, fileSize := size }
  let commit := commitStages (written s.disk l content count) d k q (tableOf s.mount.geometry fat)
  .ok
    { stages := contentStages s.disk l content count ++ commit ++ releasedStages (commit.getLastD s.disk) old
      room := max 8 (max count old.length)
      tree := T.setPair d k (.companion p.name) (.file q) l
      value := () }

theorem collectChain_yields (h : s.Mounted) {p : Primary} {l : List Nat} (hc : Content s.fat s.fatEntryCount p l) :
    Yields (collectChain p) s (.ok l) := by
  unfold collectChain
  refine (yields_get h).bind fun t ht => ?_
  have hm := ht.mounted h
  split
  · rename_i hz
    have hnil : l = [] := by
      have hlen := hc.length
      rw [hz] at hlen
      exact List.length_eq_zero_iff.mp hlen
    rcases hc.chain with ⟨hp, -⟩ | ⟨-, hch⟩
    · subst hnil
      exact ((yields_failIf hm _ _).congr (if_neg (by simp [hp]))).bind fun u hu => yields_pure (hu.mounted hm) _
    · exact absurd hnil hch.ne_nil
  · rename_i hz
    rcases hc.chain with ⟨hp, rfl⟩ | ⟨-, hch⟩
    · have hlen := hc.length
      simp only [List.length_nil, clusterSize] at hlen
      omega
    · have htr : Fat.traverse s.fat s.fatEntryCount p.firstCluster maxClusters = .ok l :=
        Fat.traverse_eq_ok.mpr ⟨h.validEntryCount, by decide, hch, hc.nodup, hc.fits⟩
      exact (yields_ofExcept hm _).congr htr

theorem Mounted.of_memory (h : s.Mounted) (hs : t.sync = s.sync) (hm : t.mount = s.mount)
    (hn : t.fatEntryCount = s.fatEntryCount) : t.Mounted := by
  refine ⟨hs ▸ h.inStep, hm ▸ h.laid, by rw [hn, hm]; exact h.entries, ?_⟩
  rw [hm, device, hs]
  exact h.sectors

theorem goes_memory {β : Type} {m : Service α} {f : α → Service β} {a : α} {R : β → FileService → Prop}
    (hrun : m s = (.ok a, t)) (hs : t.sync = s.sync) (hm : t.mount = s.mount) (hn : t.fatEntryCount = s.fatEntryCount)
    (hi : t.initialized = s.initialized) (h : Goes (f a) t Ds k R) : Goes (m >>= f) s Ds k R := by
  unfold Goes wp at h ⊢
  rw [bind_ok hrun]
  split at h
  · exact ⟨h.1.source hs hm hn hi, h.2⟩
  · exact ⟨h.1.source hs hm, fun hx => h.2 (hx.source hs)⟩

theorem goes_get {β : Type} {f : FileService → Service β} {R : β → FileService → Prop} (h : Goes (f s) s Ds k R) :
    Goes (get >>= f) s Ds k R := h

theorem follows_scratch (h : s.Mounted) {f : FileService → FileService} {m : Unit → Service α}
    {r : Except IosError (Plan α)} {K : Plan α → α → FileService → Prop} (hf : f s = { s with
      chain := (f s).chain, oldChain := (f s).oldChain, directory := (f s).directory, cluster := (f s).cluster
      directoryEntries := (f s).directoryEntries }) (hr : Carries K (m ()) (f s) r) : Carries K (modify f >>= m) s r := by
  have hq : Quiet s (f s) := (Quiet.refl h).scratch hf
  cases r with
  | error e =>
    refine wp_mono hr (fun a t ⟨ht, ha⟩ => ⟨hq.trans ht, ha⟩) fun e' t ⟨ht, he⟩ => ⟨hq.trans ht, he.imp_right ?_⟩
    exact fun ⟨hne, hroom⟩ => ⟨hne, fun hx => hroom (hq.wrote.room (by simpa using hx))⟩
  | ok plan =>
    exact ⟨hr.1, goes_memory rfl (by rw [hf]) (by rw [hf]) (by rw [hf]) (by rw [hf]) hr.2⟩

theorem allocateChain_eq {l : List Nat} (hr : reserve s.fat s.fatEntryCount count = .ok (fat, l)) :
    ∃ chain, allocateChain count s =
        (.ok (), { s with fat, chain, dirtyFatSectors := l.foldl markFatCluster s.dirtyFatSectors }) ∧
      (0 < count → chain = l) ∧ (count = 0 → l = []) := by
  unfold reserve at hr
  unfold allocateChain
  split at hr
  · rename_i hz
    cases hr
    rw [if_pos hz]
    exact ⟨s.chain, rfl, fun h => by omega, fun _ => rfl⟩
  · rename_i hz
    rw [if_neg hz]
    refine ⟨l, ?_, fun _ => rfl, fun h => absurd h hz⟩
    have hrun : (ofExcept (Fat.allocate s.fat s.fatEntryCount count maxClusters) : Service _) s = (.ok (fat, l), s) :=
      congrArg (fun r => (r, s)) hr
    rw [bind_ok (show (get : Service FileService) s = (.ok s, s) from rfl), bind_ok hrun]
    rfl

theorem reserved_of_reserve (h : s.Settled) (hcount : count ≤ maxClusters) {l : List Nat}
    (hr : reserve s.fat s.fatEntryCount count = .ok (fat, l)) :
    ∃ t, allocateChain count s = (.ok (), t) ∧ t.fat = fat ∧ Reserved s t count l := by
  obtain ⟨chain, ht, hchain, hnil⟩ := allocateChain_eq hr
  obtain ⟨l', hl'⟩ := wp_ok (allocateChain_spec h.mounted h.loaded h.clean hcount) ht
  refine ⟨_, ht, rfl, ?_⟩
  have hl : l' = l := by
    by_cases hz : count = 0
    · rw [hnil hz]
      have := hl'.length
      rw [hz] at this
      exact List.length_eq_zero_iff.mp this
    · rw [← hl'.workspace (by omega)]
      exact hchain (by omega)
  exact hl ▸ hl'

theorem allocateChain_refused (h : s.Mounted) {count : Nat} {e : IosError}
    (hr : reserve s.fat s.fatEntryCount count = .error e) : Yields (allocateChain count) s (.error e) := by
  unfold reserve at hr
  unfold allocateChain
  split at hr
  · cases hr
  · rename_i hz
    rw [if_neg hz]
    refine (yields_get h).bind fun t ht => ?_
    exact ((yields_ofExcept (ht.mounted h) _).congr hr).bind_error

theorem Consistent.unused (h : Consistent s T) {c : Nat} (hv : Fat.validCluster c s.fatEntryCount) (hf : s.fat c = Fat.free) :
    s.disk.fat c = Fat.free ∧ ¬T.dirs c ∧ ∀ d i, ¬T.Owns c d i := by
  rw [h.fat_eq hv] at hf
  refine ⟨hf, fun hd => ?_, fun d i ho => (h.describes.owned.used ho).2 hf⟩
  have hends := (h.describes.ends hd).1
  rw [hf] at hends
  exact absurd hends (by decide)

def savedRecord (p : Primary) (l : List Nat) (size : Nat) : Primary := { p with firstCluster := l.headD 0, fileSize := size }

section Saved
variable {size : Nat} {p : Primary} {l old : List Nat}

theorem savedRecord_sound (hp : (Item.file p).Sound) {n : Nat} (hv : ∀ c ∈ l, Fat.validCluster c n)
    (hl : l.length = (size + clusterSize - 1) / clusterSize) (hs : size < 2 ^ 32) :
    (Item.file (savedRecord p l size)).Sound := by
  obtain ⟨hadm, -, hreg⟩ := hp
  obtain ⟨hn, -, -⟩ := Primary.admissible_iff.mp hadm
  unfold clusterSize at hl
  refine ⟨Primary.admissible_iff.mpr ⟨hn, ?_, Or.inl ⟨hreg, fun hz => ?_, fun hz => ?_⟩⟩, hs, hreg⟩
  · cases l with
    | nil => exact Nat.zero_le _
    | cons c l => exact (hv c List.mem_cons_self).2.2
  · change size = 0 at hz
    subst hz
    rw [List.length_eq_zero_iff.mp hl]
    rfl
  · change size ≠ 0 at hz
    cases l with
    | nil =>
      rw [List.length_nil] at hl
      omega
    | cons c l => exact (hv c List.mem_cons_self).1

theorem saved_content (h : s.Mounted) (hr : Reserved s t ((size + clusterSize - 1) / clusterSize) l)
    (hs : size ≤ maxClusters * clusterSize) (hdisj : ∀ c ∈ l, c ∉ old) :
    Content (Fat.clear (tableOf s.mount.geometry t.fat) old) s.fatEntryCount (savedRecord p l size) l := by
  have hsame : ∀ c ∈ l, Fat.clear (tableOf s.mount.geometry t.fat) old c = t.fat c := fun c hc => by
    rw [Fat.clear_apply, if_neg (hdisj c hc), tableOf, if_pos (h.entry_lt (hr.valid c hc))]
  refine ⟨?_, hr.nodup, hr.length, ?_⟩
  · cases hl : l with
    | nil => exact Or.inl ⟨rfl, rfl⟩
    | cons c rest =>
      have hpos : 0 < (size + clusterSize - 1) / clusterSize := by
        rw [← hr.length, hl]
        exact Nat.succ_pos _
      have hchain := (hr.chain hpos).frame hsame
      rw [hl] at hchain
      exact Or.inr ⟨by have := hchain.start.1; exact Nat.lt_of_lt_of_le Nat.zero_lt_two this, hchain⟩
  · rw [hr.length]
    unfold maxClusters clusterSize at *
    omega

end Saved

theorem saveWrites_goes (h : Consistent s T) (hd : T.dirs d) {i size : Nat} (hi : i < 128) {p : Primary}
    (hp : T.items d i = .file p) (hold : s.oldChain = T.chain d i) {bytes : Text} {append : Bool}
    (hsize : size ≤ maxClusters * clusterSize ∧ size < 2 ^ 32) {fat : Nat → Nat} {l : List Nat}
    (hr : reserve s.fat s.fatEntryCount ((size + clusterSize - 1) / clusterSize) = .ok (fat, l)) {located : LocatedEntry}
    (hat : PairAt located d (i - 1)) :
    let count := (size + clusterSize - 1) / clusterSize
    let content := savedCluster s.disk (T.chain d i) p.fileSize bytes append
    let q := savedRecord p l size
    let commit := commitStages (written s.disk l content count) d (i - 1) q (tableOf s.mount.geometry fat)
    Goes (do
        allocateChain count
        each (saveStep bytes append p.fileSize) (List.range count)
        let service ← get
        commitPrimary located { p with
          firstCluster := if count = 0 then 0 else service.chain.headD 0
          fileSize := size }
        let service ← get
        releaseChain (if T.chain d i = [] then 0 else service.oldChain.headD 0)) s
      (contentStages s.disk l content count ++ commit ++ releasedStages (commit.getLastD s.disk) (T.chain d i))
      (max 8 (max count (T.chain d i).length))
      fun _ t => Consistent t (T.setPair d (i - 1) (.companion p.name) (.file q) l) := by
  intro count content q commit
  have hm := h.mounted
  have hcount : count ≤ maxClusters := by
    have := hsize.1
    simp only [count]
    unfold maxClusters clusterSize at *
    omega
  obtain ⟨t, hrun, rfl, hres⟩ := reserved_of_reserve h.toSettled hcount hr
  have hcontent := h.content hd hi hp
  have hdisj : ∀ c ∈ l, c ∉ T.chain d i := fun c hc hx => (hcontent.used c hx).2 (hres.wasFree c hc)
  have hmem := hres.memory
  have hts : t.sync = s.sync := by rw [hmem]
  have htm : t.mount = s.mount := by rw [hmem]
  have htn : t.fatEntryCount = s.fatEntryCount := by rw [hmem]
  have hti : t.initialized = s.initialized := by rw [hmem]
  have hto : t.oldChain = T.chain d i := by
    rw [hmem]
    exact hold
  have htd : t.disk = s.disk := by rw [disk, disk, view, view, htm, hts]
  have hmt : t.Mounted := hm.of_memory hts htm htn
  refine goes_memory hrun hts htm htn hti ?_
  have hloop := @saveLoop_goes t hmt bytes append p.fileSize l (by rw [htn]; exact hres.valid)
    (by rw [hto, htn]; exact fun c hc => (hcontent.used c hc).1) (by rw [hto]; exact hdisj) count (by rw [hres.length])
    hres.workspace
  rw [hto, htd] at hloop
  rw [List.append_assoc]
  refine (hloop.mono (le_max_left _ _) fun _ _ _ hx => hx).bind fun _ u hu hbu => goes_get ?_
  have hmu := hu.mounted hmt
  have hdu : u.disk = written s.disk l content count := by rw [hu.disk, htd, contentStages_last]
  have huf : u.fat = t.fat := by rw [hbu]
  have hum : u.mount = s.mount := by rw [hbu, ← htm]
  have hun : u.fatEntryCount = s.fatEntryCount := by rw [hbu, ← htn]
  have hlu : u.Loaded := hres.loaded.of_eq (by rw [hbu]) huf (by rw [hbu]) (by rw [hdu, written_fat, htd])
  have hq : { p with firstCluster := if count = 0 then 0 else u.chain.headD 0, fileSize := size } = q := by
    show _ = { p with firstCluster := l.headD 0, fileSize := size }
    congr 1
    split
    · rename_i hz
      rw [List.length_eq_zero_iff.mp (hres.length.trans hz)]
      rfl
    · rename_i hz
      rw [hbu, show t.chain = l from hres.workspace (Nat.pos_of_ne_zero hz)]
  have hsound := savedRecord_sound (h.file_sound hd hi hp) hres.valid hres.length hsize.2
  obtain ⟨hpos, hw⟩ := (h.describes.tidy hd).writable hi hp
  have hcommit := @commitPrimary_goes u hmu hlu located q (by rw [hat.cluster, hun]; exact h.describes.valid hd)
    (by rw [hat.companion]; omega) (by rw [hat.primary]; omega) hsound.1
  rw [hat.cluster, hat.companion, hat.primary, hdu, hum, huf] at hcommit
  rw [hq]
  have hdirty : max 2 u.dirtyFatSectors.length ≤ max 8 (max count (T.chain d i).length) := by
    have : u.dirtyFatSectors.length ≤ count := by
      rw [hbu]
      exact hres.dirty
    exact max_le (le_max_of_le_left (by decide)) (le_max_of_le_right (le_max_of_le_left this))
  refine (Goes.mono hcommit hdirty fun _ _ _ hx => hx).bind fun _ v hv hvu => goes_get ?_
  have hdv : v.disk = commit.getLastD s.disk := hv.disk
  have hvm : v.mount = s.mount := by rw [hvu, ← hum]
  have hvf : v.fat = t.fat := by rw [hvu, ← huf]
  have hvn : v.fatEntryCount = s.fatEntryCount := by rw [hvu, ← hun]
  have hvo : v.oldChain = T.chain d i := by rw [hvu, hbu, ← hto]
  have htable : (commit.getLastD s.disk).fat = tableOf s.mount.geometry t.fat := commitStages_fat
  have hsv : v.Settled := by
    refine ⟨hv.mounted hmu, ⟨?_, by rw [hvu]; simp, fun j _ => ?_⟩, by rw [hvu]⟩
    · rw [Bounded, hvm, hvf, ← htm]
      exact hres.loaded.bounded
    · rw [hvm, hvf, hdv, htable]
  have hcontentv : Content v.fat v.fatEntryCount p (T.chain d i) := by
    rw [hvn]
    exact hcontent.frame fun c hc => by rw [hvf, hres.frame c fun hx => hdisj c hx hc]
  have hfirst : (if T.chain d i = [] then 0 else v.oldChain.headD 0) = p.firstCluster := by
    rw [hvo]
    rcases hcontent.chain with ⟨hz, hnil⟩ | ⟨-, hch⟩
    · rw [if_pos hnil, hz]
    · rw [if_neg hch.ne_nil, List.headD_eq_head?_getD, hch.head]
      rfl
  rw [hfirst]
  have hrel := release_goes hsv hcontentv.chain hcontentv.nodup hcontentv.fits
  rw [hdv] at hrel
  refine hrel.mono (le_max_of_le_right (le_max_right _ _)) fun _ w hw' hwv => ?_
  have hstages : (contentStages s.disk l content count ++ (commit ++ releasedStages (commit.getLastD s.disk) (T.chain d i))).getLastD
      s.disk = (commit.getLastD s.disk).table (Fat.clear (tableOf s.mount.geometry t.fat) (T.chain d i)) := by
    rw [getLastD_append, getLastD_append, contentStages_last, show commit.getLastD (written s.disk l content count) =
      commit.getLastD s.disk from rfl, releasedStages_last, htable]
  have hwent := ((hu.trans (hv.trans hw')).source hts htm htn hti)
  rw [← hdv] at hw'
  refine h.went hwent (hsv.released hw' hwv) ?_
  change Describes _ ((contentStages s.disk l content count ++
    (commit ++ releasedStages (commit.getLastD s.disk) (T.chain d i))).getLastD s.disk) _
  rw [hstages]
  have hk : i - 1 + 1 = i := Nat.sub_add_cancel hpos
  have hnew : NewPair (T.items d) (i - 1) (.companion p.name) (.file q) := by
    refine Or.inr ⟨q, rfl, rfl, hsound, fun j r hj hne hnamed hname => hne ?_⟩
    rw [hk]
    exact (h.describes.tidy hd).distinct hj hi hnamed (Or.inl hp) hname
  have hfree : ∀ c ∈ l, s.disk.fat c = Fat.free ∧ ¬T.dirs c := fun c hc =>
    ⟨(h.unused (hres.valid c hc) (hres.wasFree c hc)).1, (h.unused (hres.valid c hc) (hres.wasFree c hc)).2.1⟩
  have hrest : ∀ c, c ∉ T.chain d i → c ∉ l →
      Fat.clear (tableOf s.mount.geometry t.fat) (T.chain d i) c = s.disk.fat c := fun c hc hcl => by
    rw [Fat.clear_apply, if_neg hc, tableOf, hres.frame c hcl, ← h.table, tableOf]
  refine h.describes.commit hd hw hnew (fun c => by rw [hk]; exact Tree.owns_file hd hi hp) (fun e j he _ _ => ?_)
    (saved_content hm hres hsize.1 hdisj) (fun c hc => Or.inr (hfree c hc)) (fun c hc _ => ?_) hrest
  · rw [written_other fun m hmc hx => (hfree _ (getD_mem (hres.length ▸ hmc))).2 (hx ▸ he)]
  · rw [Fat.clear_apply, if_pos hc]

theorem saveLocated_follows (h : Consistent s T) (hd : T.dirs d) {entry : DirectoryEntry} (he : EntryOf (T.items d) entry)
    (bytes : Text) (append : Bool) :
    Follows (saveLocated (locatedIn s.disk d entry) bytes append) s (savePlan s T d entry bytes append) := by
  have hm := h.mounted
  have hcheck := checkRegular_yields hm (h.directory hd) he
  unfold saveLocated savePlan
  cases he with
  | directory => exact (hcheck.congr (if_neg nofun)).bind_error
  | @file i p hi hp =>
    refine (hcheck.congr (if_pos rfl)).follows hm fun t ht => ?_
    rw [if_neg (show ¬EntryKind.regular ≠ .regular from fun hx => hx rfl)]
    have hct := h.quiet ht
    refine (collectChain_yields hct.mounted (hct.content hd hi hp)).follows hct.mounted fun u hu => ?_
    have hmu := hu.mounted hct.mounted
    refine follows_scratch hmu rfl ?_
    have hqu : Quiet s { u with oldChain := T.chain d i } := (ht.trans hu).scratch rfl
    generalize hw : ({ u with oldChain := T.chain d i } : FileService) = w at hqu ⊢
    have hwo : w.oldChain = T.chain d i := by rw [← hw]
    have hc := h.quiet hqu
    have hprimary : (locatedIn s.disk d ⟨p, i, some (i - 1), .regular⟩).primary = p := rfl
    rw [hprimary]
    dsimp only
    by_cases hbig : 2 ^ 32 - 1 < (if append then p.fileSize + bytes.length else bytes.length) ∨
        maxClusters * clusterSize < (if append then p.fileSize + bytes.length else bytes.length)
    · rw [if_pos hbig]
      exact ((yields_failIf hc.mounted _ _).congr (if_pos hbig)).bind_error
    rw [if_neg hbig, failIf_pass hbig]
    have hrun : (modify (fun service => { service with dirtyFatSectors := [] }) : Service Unit) w = (.ok (), w) := by
      show (Except.ok (), { w with dirtyFatSectors := [] }) = _
      rw [← hc.clean]
    refine Carries.of_eq ?_ (bind_ok hrun)
    have hsize : (if append then p.fileSize + bytes.length else bytes.length) ≤ maxClusters * clusterSize ∧
        (if append then p.fileSize + bytes.length else bytes.length) < 2 ^ 32 := by omega
    generalize (if append then p.fileSize + bytes.length else bytes.length) = size at hsize ⊢
    rw [← hqu.fat, ← hqu.fatEntryCount, ← hqu.disk, ← hqu.mount]
    cases hr : reserve w.fat w.fatEntryCount ((size + clusterSize - 1) / clusterSize) with
    | error e => exact (allocateChain_refused hc.mounted hr).bind_error
    | ok r =>
      obtain ⟨fat, l⟩ := r
      have hpos := ((h.describes.tidy hd).writable hi hp).1
      refine ⟨le_max_of_le_left (by decide), ?_⟩
      have hgoes := @saveWrites_goes w T d hc hd i size hi p hp hwo bytes append hsize fat l hr
        (locatedIn s.disk d ⟨p, i, some (i - 1), .regular⟩) (locatedIn_at hpos hi)
      exact Goes.mono hgoes le_rfl fun _ _ _ hx => ⟨rfl, hx⟩

end FileService
end InferenceOS
