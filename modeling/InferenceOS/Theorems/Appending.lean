import InferenceOS.Theorems.Subdirectories

/-! Appending to a file on any volume, damaged ones included. The copy loop of `save_content` and the loop of
    `read_content` judge a chain that is too short for its file in different ways: one goes on with zeroes, the
    other reports corruption. -/

namespace InferenceOS
open Program

namespace FileService
variable {s t u : FileService} {clusters : List Nat} {p : Primary} {located : LocatedEntry}
variable {D : Disk} {i identity size : Nat} {l : List Nat} {bytes : Text}

/-- The clusters that `collect_chain` gives for a record. -/
def collected (s : FileService) (p : Primary) : Except IosError (List Nat) :=
  if p.fileSize = 0 then if p.firstCluster ≠ 0 then .error .corrupt else .ok []
  else Fat.traverse s.fat s.fatEntryCount p.firstCluster maxClusters

def clusterText (D : Disk) (clusters : List Nat) : Text := Bytes.concat (clusters.map D.data)

/-- The text of a file; its chain must supply the size. -/
def fileContent (s : FileService) (p : Primary) : Except IosError Text := do
  let clusters ← s.collected p
  if clusters.length * clusterSize < p.fileSize then .error .corrupt
  else .ok ((clusterText s.disk clusters).take p.fileSize)

/-- A chain that can be walked is long enough for the size. -/
def Supplied (s : FileService) (p : Primary) : Prop :=
  ∀ clusters, s.collected p = .ok clusters → p.fileSize ≤ clusters.length * clusterSize

theorem Yields.start {α : Type} {m m' : Service α} {r : Except IosError α} (hrun : m s = m' u) (hu : Quiet s u)
    (h : Yields m' u r) : Yields m s r := by
  have hafter := h.after hu
  unfold Yields wp at *
  rwa [hrun]

theorem yields_modify {f : FileService → FileService} (h : Quiet s (f s)) : Yields (modify f) s (.ok ()) := ⟨h, rfl⟩

theorem collectChain_collected (h : s.Mounted) : Yields (collectChain p) s (s.collected p) := by
  unfold collectChain collected
  refine (yields_get h).bind fun t ht => ?_
  have hm := ht.mounted h
  split
  · refine ((yields_failIf hm _ _).bindE fun _ u _ hu => yields_pure (hu.mounted hm) []).congr ?_
    split <;> rfl
  · exact yields_ofExcept hm _

theorem collected_valid (h : s.collected p = .ok clusters) : ∀ c ∈ clusters, Fat.validCluster c s.fatEntryCount := by
  unfold collected at h
  split at h
  · split at h
    · cases h
    · cases h
      exact fun c hc => (nomatch hc)
  · exact (Fat.traverse_eq_ok.mp h).2.2.1.valid

theorem collected_congr (hf : t.fat = s.fat) (hn : t.fatEntryCount = s.fatEntryCount) : t.collected p = s.collected p := by
  unfold collected
  rw [hf, hn]

@[simp] theorem length_clusterText : (clusterText D clusters).length = clusters.length * clusterSize := by
  rw [clusterText, Bytes.length_concat, List.length_map]
  rfl

theorem getElem?_clusterText :
    (clusterText D clusters)[i]? = clusters[i / clusterSize]?.map fun c => (D.data c).byte (i % clusterSize) := by
  rw [clusterText, Bytes.getElem?_concat, List.getElem?_map]
  show Option.bind (Option.map D.data clusters[i / clusterSize]?)
    (fun b => if i % clusterSize < clusterSize then some (b.byte (i % clusterSize)) else none) = _
  have hlt : i % clusterSize < clusterSize := Nat.mod_lt _ (by decide)
  cases clusters[i / clusterSize]? with
  | none => rfl
  | some c =>
    show (if i % clusterSize < clusterSize then _ else _) = _
    rw [if_pos hlt]
    rfl

theorem drop_clusterText {c n chunk : Nat} (hc : clusters[n / clusterSize]? = some c)
    (hn : n % clusterSize + chunk ≤ clusterSize) :
    ((clusterText D clusters).drop n).take chunk = ((D.data c).toList.drop (n % clusterSize)).take chunk := by
  refine List.ext_getElem? fun i => ?_
  rw [List.getElem?_take, List.getElem?_take, List.getElem?_drop, List.getElem?_drop]
  split
  · rename_i hi
    have hdiv : (n + i) / clusterSize = n / clusterSize := by
      unfold clusterSize at *
      omega
    have hmod : (n + i) % clusterSize = n % clusterSize + i := by
      unfold clusterSize at *
      omega
    rw [getElem?_clusterText, hdiv, hc, Bytes.getElem?_toList, if_pos (show n % clusterSize + i < 4096 by unfold clusterSize at *; omega),
      hmod]
    rfl
  · rfl

theorem transfer_yields {offset remaining fuel : Nat} {done : Text} (hm : s.Mounted)
    (hv : ∀ c ∈ clusters, Fat.validCluster c s.fatEntryCount) (hd : done = ((clusterText s.disk clusters).drop offset).take done.length)
    (hle : done.length ≤ remaining) (hfuel : remaining ≤ done.length + fuel) :
    Yields (transfer clusters offset remaining fuel done) s
      (if 0 < remaining ∧ clusters.length * clusterSize < offset + remaining then .error .corrupt
        else .ok (((clusterText s.disk clusters).drop offset).take remaining)) := by
  induction fuel generalizing done s with
  | zero =>
    have hlen : done.length = remaining := by omega
    have hl := congrArg List.length hd
    rw [List.length_take, List.length_drop, length_clusterText] at hl
    rw [if_neg (by omega), ← hlen, ← hd]
    exact yields_pure hm done
  | succ fuel ih =>
    have hl := congrArg List.length hd
    rw [List.length_take, List.length_drop, length_clusterText] at hl
    unfold transfer
    split
    · rename_i hdone
      have hlen : done.length = remaining := by omega
      rw [if_neg (by omega), ← hlen, ← hd]
      exact yields_pure hm done
    · rename_i hmissing
      dsimp only
      cases hc : clusters[(offset + done.length) / clusterSize]? with
      | none =>
        have hshort := List.getElem?_eq_none_iff.mp hc
        rw [if_pos (by unfold clusterSize at *; omega)]
        exact yields_fail hm _
      | some c =>
        have hchunk : (offset + done.length) % clusterSize +
            min (clusterSize - (offset + done.length) % clusterSize) (remaining - done.length) ≤ clusterSize := by
          have : (offset + done.length) % clusterSize < clusterSize := Nat.mod_lt _ (by decide)
          omega
        have hread : Yields (readCluster c) s (.ok (s.disk.data c)) :=
          wp_mono (readCluster_spec hm (hv c (List.mem_of_getElem? hc))) (fun b _ hx => ⟨hx.2.quiet, by rw [hx.1]⟩)
            fun _ _ hx => ⟨hx.1.quiet, Or.inr hx.2⟩
        refine hread.bind fun t ht => ?_
        have hmt := ht.mounted hm
        refine (yields_modify ((Quiet.refl hmt).scratch rfl)).bind fun u hu => ?_
        have hq := ht.trans hu
        have hnext := drop_clusterText (D := s.disk) hc hchunk
        have hlen : (done ++ ((s.disk.data c).toList.drop ((offset + done.length) % clusterSize)).take
            (min (clusterSize - (offset + done.length) % clusterSize) (remaining - done.length))).length =
            done.length + min (clusterSize - (offset + done.length) % clusterSize) (remaining - done.length) := by
          rw [List.length_append, List.length_take, List.length_drop, Bytes.toList, List.length_ofFn]
          unfold clusterSize at *
          omega
        have hpos : 0 < clusterSize - (offset + done.length) % clusterSize :=
          Nat.sub_pos_of_lt (Nat.mod_lt _ (by decide))
        have hmore : done ++ ((s.disk.data c).toList.drop ((offset + done.length) % clusterSize)).take
            (min (clusterSize - (offset + done.length) % clusterSize) (remaining - done.length)) =
            ((clusterText s.disk clusters).drop offset).take
              (done.length + min (clusterSize - (offset + done.length) % clusterSize) (remaining - done.length)) := by
          rw [List.take_add, ← hd, List.drop_drop, hnext]
        have hrest := ih (hq.mounted hm) (by rw [hq.fatEntryCount]; exact hv)
          (by rw [hlen, hq.disk]; exact hmore) (by rw [hlen]; omega) (by rw [hlen]; omega)
        rw [hq.disk] at hrest
        exact hrest

structure Regular (located : LocatedEntry) : Prop where
  companion : located.hasCompanion = true
  attributes : located.primary.attributes = attributeRegular
  pair : recordPairValidate located.companionDisk located.primaryDisk = .ok ()

theorem checkRegular_ok (h : checkRegular located s = (.ok (), t)) : Regular located ∧ t = s := by
  have hrun : wp (checkRegular located) (fun _ t => Regular located ∧ t = s) (fun _ _ => True) s := by
    simp only [checkRegular, wp_bind, wp_failIf, wp_ofExcept]
    refine ⟨fun _ => trivial, fun hc => ⟨fun a ha => ?_, fun _ _ => trivial⟩⟩
    simp only [not_or, Bool.not_eq_false, not_not] at hc
    exact ⟨⟨hc.1, hc.2, ha⟩, trivial⟩
  have hboth := wp_ok hrun h
  exact hboth

theorem Regular.yields (h : Regular located) (hm : s.Mounted) : Yields (checkRegular located) s (.ok ()) := by
  refine ((yields_failIf hm _ _).congr (if_neg ?_)).bind fun t ht => ?_
  · rw [not_or, not_not]
    exact ⟨by rw [h.companion]; decide, h.attributes⟩
  · exact (yields_ofExcept (ht.mounted hm) _).congr h.pair

theorem validateService_pass (hi : s.initialized = true) : validateService false s = (.ok (), s) := by
  unfold validateService
  rw [bind_ok (show get s = (.ok s, s) from rfl), failIf_pass (by rw [hi]; decide)]
  rfl

def readSlice (s : FileService) (p : Primary) (offset capacity : Nat) : Except IosError (Text × Bool) := do
  let clusters ← s.collected p
  let remaining := min (p.fileSize - offset) capacity
  if 0 < remaining ∧ clusters.length * clusterSize < offset + remaining then .error .corrupt
  else .ok (((clusterText s.disk clusters).drop offset).take remaining, offset + remaining == p.fileSize)

theorem readContent_yields (hm : s.Mounted) (hi : s.initialized = true) {path : Option Text} {offset capacity : Nat}
    (hsel : select path identity s = (.ok located, u)) (hreg : Regular located) (hoffset : offset ≤ located.primary.fileSize) :
    Yields (readContent path identity offset capacity) s (s.readSlice located.primary offset capacity) := by
  have hu : Quiet s u := (select_keeps reads_unchanged).run hsel hm
  have hmu := hu.mounted hm
  refine Yields.start ((bind_ok (validateService_pass hi)).trans (bind_ok hsel)) hu ?_
  refine (hreg.yields hmu).bind fun v hv => ?_
  have hmv := hv.mounted hmu
  refine ((yields_failIf hmv _ _).congr (if_neg (not_lt.mpr hoffset))).bind fun w hw => ?_
  have hmw := hw.mounted hmv
  have hsw := (hu.trans hv).trans hw
  have hcollect := (collectChain_collected (p := located.primary) hmw).congr (collected_congr hsw.fat hsw.fatEntryCount)
  unfold readSlice
  cases hc : s.collected located.primary with
  | error e =>
    rw [hc] at hcollect
    exact hcollect.bind_error
  | ok clusters =>
    rw [hc] at hcollect
    refine hcollect.bind fun x hx => ?_
    have hmx := hx.mounted hmw
    refine (yields_modify ((Quiet.refl hmx).scratch rfl)).bind fun y hy => ?_
    have hsy := (hsw.trans hx).trans hy
    have htransfer := @transfer_yields y clusters offset (min (located.primary.fileSize - offset) capacity)
      (min (located.primary.fileSize - offset) capacity) [] (hy.mounted hmx) (by rw [hsy.fatEntryCount]; exact collected_valid hc) rfl
      (Nat.zero_le _) (by simp)
    rw [hsy.disk] at htransfer
    dsimp only
    show Yields _ y (if _ then _ else _)
    split at htransfer
    · rename_i hshort
      rw [if_pos hshort]
      exact htransfer.bind_error
    · rename_i henough
      rw [if_neg henough]
      refine htransfer.bind fun z hz => (yields_pure (hz.mounted (hy.mounted hmx)) _).congr ?_
      have hlen : (((clusterText s.disk clusters).drop offset).take (min (located.primary.fileSize - offset) capacity)).length =
          min (located.primary.fileSize - offset) capacity := by
        rw [List.length_take, List.length_drop, length_clusterText]
        omega
      rw [hlen]

theorem readSlice_full {capacity : Nat} (hcap : p.fileSize ≤ capacity) :
    s.readSlice p 0 capacity = (s.fileContent p).map fun old => (old, true) := by
  unfold readSlice fileContent
  cases s.collected p with
  | error e => rfl
  | ok clusters =>
    dsimp only [bind, Except.bind]
    rw [Nat.sub_zero, Nat.min_eq_left hcap, Nat.zero_add, List.drop_zero, beq_self_eq_true]
    by_cases hshort : clusters.length * clusterSize < p.fileSize
    · rw [if_pos ⟨by omega, hshort⟩, if_pos hshort]
      rfl
    · rw [if_neg fun hx => hshort hx.2, if_neg hshort]
      rfl

theorem readSlice_of_content {text : Text} {offset capacity : Nat} (h : s.fileContent p = .ok text) (hoffset : offset ≤ p.fileSize) :
    s.readSlice p offset capacity =
      .ok ((text.drop offset).take capacity, offset + ((text.drop offset).take capacity).length == p.fileSize) := by
  unfold fileContent at h
  obtain ⟨clusters, hc, h⟩ := of_bind_ok h
  split at h
  · cases h
  · rename_i henough
    cases h
    unfold readSlice
    rw [hc]
    dsimp only [bind, Except.bind]
    have hslice : (((clusterText s.disk clusters).take p.fileSize).drop offset).take capacity =
        ((clusterText s.disk clusters).drop offset).take (min (p.fileSize - offset) capacity) := by
      rw [List.drop_take, List.take_take, Nat.min_comm]
    rw [if_neg (by omega), hslice, List.length_take, List.length_drop, length_clusterText]
    congr 3
    omega

/-- The record of a pair in a cluster that the table uses. -/
structure Placed (s : FileService) (located : LocatedEntry) : Prop where
  valid : Fat.validCluster located.directoryCluster s.fatEntryCount
  used : s.fat located.directoryCluster ≠ Fat.free
  companionSlot : located.companionSlot < 128
  primarySlot : located.primarySlot = located.companionSlot + 1 ∧ located.primarySlot < 128
  sound : (Item.file located.primary).Sound

theorem Placed.quiet (h : Placed s located) (hq : Quiet s t) : Placed t located :=
  ⟨hq.fatEntryCount ▸ h.valid, by rw [hq.fat]; exact h.used, h.companionSlot, h.primarySlot, h.sound⟩

theorem Flushable.quiet (h : s.Flushable) (hq : Quiet s t) : t.Flushable := by
  refine ⟨?_, ?_⟩
  · rw [Bounded, hq.mount, hq.fat]
    exact h.bounded
  · rw [hq.memory]
    exact h.inTable

theorem findAmong_entry {name : Name} : ∀ {clusters : List Nat} {s : FileService}, s.Mounted →
    (∀ c ∈ clusters, Fat.validCluster c s.fatEntryCount) →
    wp (findAmong name clusters) (fun located _ => ∃ c ∈ clusters, ∃ entry, SlotEntry (slotAt (s.disk.data c)) entry ∧
      entry.kind ≠ .internal ∧ located = locatedIn s.disk c entry) (fun _ _ => True) s
  | [], s, _, _ => trivial
  | c :: rest, s, hm, hv => by
    unfold findAmong
    rw [wp_bind]
    refine wp_mono (loadDirectory_spec hm (hv c List.mem_cons_self)) (fun _ t hx => ?_) fun _ _ _ => trivial
    obtain ⟨hw, ht⟩ := hx
    have hdir : t.directory = s.disk.data c := by rw [ht]
    have hq : Quiet s t := ⟨hw, by rw [ht]⟩
    simp only [scanLoadedDirectory, wp_bind, wp_get, wp_ofExcept, wp_modify, wp_pure]
    refine ⟨fun entries hscan => ?_, fun _ _ => trivial⟩
    rw [hdir] at hscan
    have hqe : Quiet s { t with directoryEntries := entries } := hq.scratch rfl
    cases hf : entries.find? fun entry => decide (entry.kind ≠ .internal ∧ entry.primary.name = name) with
    | none =>
      have ih := @findAmong_entry name rest _ (hqe.mounted hm) fun c' hc' => by
        rw [hqe.fatEntryCount]
        exact hv c' (List.mem_cons_of_mem _ hc')
      rw [hqe.disk] at ih
      refine wp_mono ih (fun located _ hx => by obtain ⟨c', hc', hrest⟩ := hx; exact ⟨c', List.mem_cons_of_mem _ hc', hrest⟩) fun _ _ _ => trivial
    | some entry =>
      simp only [wp_bind, wp_failIf, wp_get, wp_pure]
      have hkind := List.find?_some hf
      simp only [decide_eq_true_eq] at hkind
      exact ⟨fun _ => trivial, fun _ => ⟨c, List.mem_cons_self, entry,
        directoryScan_entries hscan entry (List.mem_of_find?_eq_some hf), hkind.1, locate_eq hdir⟩⟩

theorem select_entry (hm : s.Mounted) {path : Text} (h : select (some path) identity s = (.ok located, u)) :
    Quiet s u ∧ ∃ c entry, Fat.validCluster c s.fatEntryCount ∧ s.fat c ≠ Fat.free ∧
      SlotEntry (slotAt (s.disk.data c)) entry ∧ located = locatedIn s.disk c entry := by
  refine ⟨(select_keeps reads_unchanged).run h hm, ?_⟩
  obtain ⟨⟨parent, name⟩, v, hparent, hfind⟩ := of_bind_run (show (resolveParent (some path) >>= fun r =>
    findInDirectory r.1 r.2) s = (.ok located, u) from h)
  have hv : Quiet s v := (resolveParent_keeps reads_unchanged).run hparent hm
  obtain ⟨clusters, w, hchain, hamong⟩ := of_bind_run hfind
  have hw : Quiet s w := hv.trans ((directoryChain_keeps reads_unchanged).run hchain (hv.mounted hm))
  obtain ⟨l, hl, hmodify⟩ := of_ofExcept_run (show (ofExcept (Fat.traverse v.fat v.fatEntryCount parent maxClusters) >>= fun
    clusters => (modify fun service : FileService => { service with chain := clusters }) >>= fun _ => pure clusters) v =
    (.ok clusters, w) from hchain)
  cases hmodify
  have hl := (Fat.traverse_eq_ok.mp hl).2.2.1
  rw [hv.fat, hv.fatEntryCount] at hl
  obtain ⟨c, hc, entry, hentry, -, hlocated⟩ := wp_ok (findAmong_entry (hw.mounted hm) fun c hc => by
    rw [hw.fatEntryCount]
    exact hl.valid c hc) hamong
  rw [hw.disk] at hentry hlocated
  exact ⟨c, entry, hl.valid c hc, hl.used c hc, hentry, hlocated⟩

theorem slotEntry_regular {c : Nat} {entry : DirectoryEntry} (h : SlotEntry (slotAt (s.disk.data c)) entry)
    (hk : entry.kind = .regular) : Regular (locatedIn s.disk c entry) := by
  cases h with
  | @regular k p hslot hpair hp =>
    obtain ⟨q, -, hq, hreg⟩ := recordPairValidate_eq_ok hpair
    rw [hp] at hq
    cases hq
    exact ⟨rfl, hreg, hpair⟩
  | directory => cases hk
  | internal => cases hk

theorem slotEntry_placed {c : Nat} {entry : DirectoryEntry} (h : SlotEntry (slotAt (s.disk.data c)) entry)
    (hv : Fat.validCluster c s.fatEntryCount) (hused : s.fat c ≠ Fat.free) (hk : entry.kind = .regular) :
    Regular (locatedIn s.disk c entry) ∧ Placed s (locatedIn s.disk c entry) := by
  have hregular := slotEntry_regular h hk
  cases h with
  | @regular k p hslot hpair hp =>
    obtain ⟨-, hadm, hsize⟩ := primaryDecode_eq_ok hp
    exact ⟨hregular, hv, hused, Nat.lt_of_succ_lt hslot, ⟨rfl, hslot⟩, hadm, hsize, hregular.attributes⟩
  | directory => cases hk
  | internal => cases hk

theorem select_placed (hm : s.Mounted) {path : Text} (h : select (some path) identity s = (.ok located, u))
    (hreg : Regular located) : Placed s located := by
  obtain ⟨-, c, entry, hv, hused, hentry, rfl⟩ := select_entry hm h
  have hk : entry.kind = .regular := by
    cases hentry with
    | regular => rfl
    | directory => exact absurd hreg.companion (by simp [locatedIn])
    | internal => exact absurd hreg.companion (by simp [locatedIn])
  exact (slotEntry_placed hentry hv hused hk).2

theorem reserve_eq_ok {fat fat' : Nat → Nat} {n count : Nat} (h : reserve fat n count = .ok (fat', l)) :
    l.length = count ∧ l.Nodup ∧ (∀ c ∈ l, Fat.validCluster c n ∧ fat c = Fat.free) ∧
      (l = [] ∨ Fat.Chain fat' n (l.headD 0) l) ∧ ∀ c, c ∉ l → fat' c = fat c := by
  unfold reserve at h
  split at h
  · rename_i hz
    cases h
    exact ⟨hz.symm, List.nodup_nil, nofun, Or.inl rfl, fun _ _ => rfl⟩
  · have ha := Fat.allocate_eq_ok h
    exact ⟨ha.length, ha.nodup, fun c hc => ⟨ha.valid c hc, ha.wasFree c hc⟩, Or.inr ha.chain, ha.frame⟩

theorem Flushable.mark (h : s.Mounted) (hb : s.Bounded) {fat : Nat → Nat}
    (hv : ∀ c ∈ l, Fat.validCluster c s.fatEntryCount) (hlen : l.length ≤ maxClusters)
    (hsame : ∀ c, c ∉ l → fat c = s.fat c) (hbound : ∀ c ∈ l, fat c < 2 ^ 32) (htarget : t.fat = fat)
    (hdirty : t.dirtyFatSectors = l.foldl markFatCluster []) (hm : t.mount = s.mount) : t.Flushable := by
  refine ⟨fun i hi => ?_, fun k hk => ?_⟩
  · rw [htarget]
    rw [hm] at hi
    by_cases hil : i ∈ l
    · exact hbound i hil
    · rw [hsame i hil]
      exact hb i hi
  · have hmark := @mem_foldl_markFatCluster l [] (by unfold maxClusters at hlen; unfold maxDirtyFatSectors; simp; omega)
    rw [hdirty, hmark.1] at hk
    obtain hk | ⟨c, hc, rfl⟩ := hk
    · cases hk
    · have := h.entry_lt (hv c hc)
      rw [hm]
      omega

structure Saved (s t : FileService) (located : LocatedEntry) (bytes : Text) (append : Bool) (clusters l : List Nat) : Prop where
  collected : s.collected located.primary = .ok clusters
  fits : savedSize located.primary bytes append ≤ maxClusters * clusterSize
  length : l.length = (savedSize located.primary bytes append + clusterSize - 1) / clusterSize
  nodup : l.Nodup
  wasFree : ∀ c ∈ l, s.fat c = Fat.free
  mounted : t.Mounted
  fatEntryCount : t.fatEntryCount = s.fatEntryCount
  chain : l = [] ∨ Fat.Chain t.fat t.fatEntryCount (l.headD 0) l
  committed : slotAt (t.disk.data located.directoryCluster) located.companionSlot = companionRecord true located.primary.name
  record : slotAt (t.disk.data located.directoryCluster) located.primarySlot =
    primaryBytes (savedRecord located.primary l (savedSize located.primary bytes append))
  content : ∀ j, j < l.length →
    t.disk.data (l.getD j 0) = savedCluster s.disk clusters located.primary.fileSize bytes append j

theorem collectChain_run : collectChain p s = (s.collected p, s) := by
  unfold collectChain collected
  rw [bind_ok (show get s = (.ok s, s) from rfl)]
  split
  · split
    · rename_i hp
      rw [failIf_bind hp]
      rfl
    · rename_i hp
      rw [failIf_pass hp]
      rfl
  · rfl

theorem collected_chain (h : s.collected p = .ok clusters) :
    clusters.length ≤ maxClusters ∧ (clusters = [] ∨ Fat.Chain s.fat s.fatEntryCount (clusters.headD 0) clusters) := by
  unfold collected at h
  split at h
  · split at h
    · cases h
    · cases h
      exact ⟨Nat.zero_le _, Or.inl rfl⟩
  · obtain ⟨-, -, hchain, -, hlen⟩ := Fat.traverse_eq_ok.mp h
    refine ⟨hlen, Or.inr ?_⟩
    rw [List.headD_eq_head?_getD, hchain.head]
    exact hchain

theorem marked_length (hlen : l.length ≤ maxClusters) : (l.foldl markFatCluster []).length ≤ l.length := by
  have hmark := @mem_foldl_markFatCluster l [] (by unfold maxClusters at hlen; unfold maxDirtyFatSectors; simp; omega)
  simpa using hmark.2

theorem release_collected (hm : s.Mounted) (hb : s.Bounded) (hclean : s.dirtyFatSectors = [])
    (hold : clusters.length ≤ maxClusters ∧ (clusters = [] ∨ Fat.Chain s.fat s.fatEntryCount (clusters.headD 0) clusters)) {k : Nat}
    (hk : clusters.length ≤ k) :
    Passes (releaseChain (if clusters = [] then 0 else clusters.headD 0)) s 1 k fun _ t =>
      t.Mounted ∧ t.fatEntryCount = s.fatEntryCount ∧ t.disk.data = s.disk.data ∧ ∀ c, c ∉ clusters → t.fat c = s.fat c := by
  obtain ⟨hshort, rfl | hchain⟩ := hold
  · exact ⟨⟨[], Nat.zero_le _, Went.refl hm⟩, hm, rfl, rfl, fun _ _ => rfl⟩
  · have hsame : ∀ c, c ∉ clusters → Fat.clear s.fat clusters c = s.fat c := fun c hc => by rw [Fat.clear_apply, if_neg hc]
    have hzero : ∀ c ∈ clusters, Fat.clear s.fat clusters c < 2 ^ 32 := fun c hc => by
      rw [Fat.clear_apply, if_pos hc]
      decide
    have hmarked : (released s clusters).dirtyFatSectors = clusters.foldl markFatCluster [] := by
      rw [← hclean]
      rfl
    have hfr : (released s clusters).Flushable := Flushable.mark hm hb hchain.valid hshort hsame hzero rfl hmarked rfl
    have hcount : (released s clusters).dirtyFatSectors.length ≤ k := by
      rw [hmarked]
      exact (marked_length hshort).trans hk
    have hpos : 0 < clusters.headD 0 := Nat.lt_of_lt_of_le Nat.zero_lt_two hchain.start.1
    rw [if_neg hchain.ne_nil]
    refine wp_mono ((releaseChain_flushes hm hpos hchain hshort hfr).passes le_rfl hcount) (fun _ t ⟨hD, hwent, ht⟩ => ⟨hD, ?_⟩)
      fun _ _ he => he
    refine ⟨hwent.mounted hm, by rw [ht], by rw [hwent.disk]; rfl, fun c hc => ?_⟩
    rw [ht]
    exact hsame c hc

theorem saveWrites_saved (hm : s.Mounted) (hb : s.Bounded) (hplace : Placed s located) (hold : s.oldChain = clusters)
    (hclean : s.dirtyFatSectors = []) {bytes : Text} {append : Bool} (hcollect : s.collected located.primary = .ok clusters)
    (hfits : savedSize located.primary bytes append ≤ maxClusters * clusterSize) {count : Nat} {fat : Nat → Nat} {l : List Nat}
    (hcount : (savedSize located.primary bytes append + clusterSize - 1) / clusterSize = count)
    (hr : reserve s.fat s.fatEntryCount count = .ok (fat, l)) :
    Passes (do
      allocateChain count
      each (saveStep bytes append located.primary.fileSize) (List.range count)
      let service ← get
      commitPrimary located { located.primary with
        firstCluster := if count = 0 then 0 else service.chain.headD 0
        fileSize := savedSize located.primary bytes append }
      let service ← get
      releaseChain (if clusters = [] then 0 else service.oldChain.headD 0)) s (count + (3 + 1)) maxClusters fun _ t =>
      Saved s t located bytes append clusters l := by
  obtain ⟨chain, hallocate, hchain, hnil⟩ := allocateChain_eq hr
  obtain ⟨hlen, hnd, hfree, hlinked, hframe⟩ := reserve_eq_ok hr
  obtain ⟨hshort, hstart⟩ := collected_chain hcollect
  have hvold := collected_valid hcollect
  have hdisj : ∀ c ∈ l, c ∉ clusters := fun c hc hx => by
    obtain rfl | hch := hstart
    · cases hx
    · exact hch.used c hx (hfree c hc).2
  have hmax : l.length ≤ maxClusters := by
    rw [hlen, ← hcount]
    unfold maxClusters clusterSize at *
    omega
  refine passes_memory hallocate rfl rfl rfl rfl ?_
  generalize hw : ({ s with fat, chain, dirtyFatSectors := l.foldl markFatCluster s.dirtyFatSectors } : FileService) = w
  have hmw : w.Mounted := by
    rw [← hw]
    exact hm.of_memory rfl rfl rfl
  have hwo : w.oldChain = clusters := by rw [← hw, ← hold]
  have hwn : w.fatEntryCount = s.fatEntryCount := by rw [← hw]
  have hwd : w.disk = s.disk := by rw [← hw]; rfl
  -- The content goes to the new clusters.
  have hgoes := @saveLoop_goes w hmw bytes append located.primary.fileSize l (fun c hc => hwn ▸ (hfree c hc).1)
    (fun c hc => by rw [hwn]; exact hvold c (hwo ▸ hc)) (fun c hc => by rw [hwo]; exact hdisj c hc) count hlen.ge
    fun hpos => by rw [← hw]; exact hchain hpos
  rw [hwo, hwd] at hgoes
  refine (hgoes.passes (by rw [contentStages, List.length_map, List.length_range]) (by decide)).bind fun _ u hx => ?_
  obtain ⟨hwent, hbuffered⟩ := hx
  have hmu := hwent.mounted hmw
  have hdu : u.disk = written s.disk l (savedCluster s.disk clusters located.primary.fileSize bytes append) count := by
    rw [hwent.disk, hwd, contentStages_last]
  have hun : u.fatEntryCount = s.fatEntryCount := by rw [hbuffered, ← hwn]
  have huf : u.fat = fat := by rw [hbuffered, ← hw]
  have hud : u.dirtyFatSectors = l.foldl markFatCluster [] := by rw [hbuffered, ← hw, ← hclean]
  have hum : u.mount = s.mount := by rw [hbuffered, ← hw]
  have hfu : u.Flushable := Flushable.mark hm hb (fun c hc => (hfree c hc).1) hmax hframe (fun c hc => by
    obtain rfl | hch := hlinked
    · cases hc
    · exact hch.entry_lt c hc) huf hud hum
  -- The record is committed over them.
  let q := savedRecord located.primary l (savedSize located.primary bytes append)
  have hsound : (Item.file q).Sound := savedRecord_sound hplace.sound (fun c hc => (hfree c hc).1)
    (hlen.trans hcount.symm) (lt_of_le_of_lt hfits (by decide))
  refine passes_memory (show (get : Service FileService) u = (.ok u, u) from rfl) rfl rfl rfl rfl ?_
  have hq : { located.primary with
      firstCluster := if count = 0 then 0 else u.chain.headD 0
      fileSize := savedSize located.primary bytes append } = q := by
    show _ = { located.primary with firstCluster := l.headD 0, fileSize := savedSize located.primary bytes append }
    split
    · rename_i hz
      rw [hnil hz]
      rfl
    · rename_i hz
      have huc : u.chain = l := by
        rw [hbuffered, ← hw]
        exact hchain (Nat.pos_of_ne_zero hz)
      rw [huc]
  rw [hq]
  have hcommitted := @commitPrimary_flushes u hmu hfu located q (hun ▸ hplace.valid) hplace.companionSlot hplace.primarySlot.2
    hsound.1
  have hdirty : max 2 u.dirtyFatSectors.length ≤ maxClusters := by
    rw [hud]
    exact max_le (by decide) ((marked_length hmax).trans hmax)
  refine (Goes.passes hcommitted (b := 3) le_rfl hdirty).bind fun _ v hx => ?_
  obtain ⟨hwv, hvu⟩ := hx
  have hmv := hwv.mounted hmu
  have hdv : v.disk = ((u.disk.record located.directoryCluster located.companionSlot (companionRecord false q.name)).table
      u.flushedTable).committed located.directoryCluster located.primarySlot located.companionSlot q := hwv.disk
  have hvf : v.fat = fat := by rw [hvu, ← huf]
  have hvn : v.fatEntryCount = s.fatEntryCount := by rw [hvu, ← hun]
  have hvd : v.dirtyFatSectors = [] := by rw [hvu]
  have hvm : v.mount = s.mount := by rw [hvu, ← hum]
  have hvo : v.oldChain = clusters := by rw [hvu, hbuffered, ← hwo]
  have hcs : slotAt (v.disk.data located.directoryCluster) located.companionSlot = companionRecord true located.primary.name := by
    rw [hdv, Disk.committed_slot hplace.companionSlot hplace.primarySlot.2, if_pos ⟨rfl, rfl⟩]
    rfl
  have hps : slotAt (v.disk.data located.directoryCluster) located.primarySlot = primaryBytes q := by
    have hne : located.primarySlot ≠ located.companionSlot := by
      rw [hplace.primarySlot.1]
      exact Nat.succ_ne_self _
    rw [hdv, Disk.committed_slot hplace.companionSlot hplace.primarySlot.2, if_neg fun hx => hne hx.2, if_pos ⟨rfl, rfl⟩]
  have hcontent : ∀ j, j < l.length →
      v.disk.data (l.getD j 0) = savedCluster s.disk clusters located.primary.fileSize bytes append j := fun j hj => by
    have hne : l.getD j 0 ≠ located.directoryCluster := fun hx => hplace.used (hx ▸ (hfree _ (getD_mem hj)).2)
    rw [hdv, Disk.committed_data hne, Disk.table_data, Disk.record_data hne, hdu, written_self hnd hlen.ge (hlen ▸ hj)]
  -- The old clusters are released.
  refine passes_memory (show (get : Service FileService) v = (.ok v, v) from rfl) rfl rfl rfl rfl ?_
  rw [hvo]
  have hbv : v.Bounded := by
    rw [Bounded, hvm, hvf, ← huf, ← hum]
    exact hfu.bounded
  have hchv : clusters = [] ∨ Fat.Chain v.fat v.fatEntryCount (clusters.headD 0) clusters := hstart.imp_right fun hch => by
    rw [hvn]
    exact hch.frame fun c hc => by rw [hvf, hframe c fun hx => hdisj c hx hc]
  refine wp_mono (release_collected hmv hbv hvd ⟨hshort, hchv⟩ hshort) (fun _ t hx => ?_) fun _ _ he => he
  obtain ⟨hD, hmt, htn, htd, htf⟩ := hx
  refine ⟨hD, ?_⟩
  refine ⟨hcollect, hfits, hlen.trans hcount.symm, hnd, fun c hc => (hfree c hc).2, hmt, htn.trans hvn, ?_,
    by rw [htd]; exact hcs, by rw [htd]; exact hps, by rw [htd]; exact hcontent⟩
  refine hlinked.imp_right fun hch => ?_
  rw [htn, hvn]
  exact hch.frame fun c hc => by rw [htf c (hdisj c hc), hvf]

structure Savable (s : FileService) (located : LocatedEntry) (bytes : Text) (append : Bool) (clusters : List Nat)
    (fat : Nat → Nat) (l : List Nat) : Prop where
  regular : Regular located
  collected : s.collected located.primary = .ok clusters
  fits : savedSize located.primary bytes append ≤ maxClusters * clusterSize
  reserved : reserve s.fat s.fatEntryCount ((savedSize located.primary bytes append + clusterSize - 1) / clusterSize) = .ok (fat, l)

section Savable
variable {bytes : Text} {append : Bool} {fat : Nat → Nat} {l : List Nat}

theorem saveLocated_saved (hm : s.Mounted) (hb : s.Bounded) (hplace : Placed s located)
    (h : Savable s located bytes append clusters fat l) :
    Passes (saveLocated located bytes append) s
      ((savedSize located.primary bytes append + clusterSize - 1) / clusterSize + (3 + 1)) maxClusters fun _ t =>
      Saved s t located bytes append clusters l := by
  have hcheck : checkRegular located s = (.ok (), s) := by
    unfold checkRegular
    rw [failIf_pass (by rw [h.regular.companion, h.regular.attributes]; decide), h.regular.pair]
    rfl
  have hcollect : collectChain located.primary s = (.ok clusters, s) := by rw [collectChain_run, h.collected]
  have hsize : ¬(2 ^ 32 - 1 < savedSize located.primary bytes append ∨
      maxClusters * clusterSize < savedSize located.primary bytes append) := by
    have := h.fits
    unfold maxClusters clusterSize at *
    omega
  refine passes_memory hcheck rfl rfl rfl rfl (passes_memory hcollect rfl rfl rfl rfl ?_)
  refine passes_memory (show (modify fun service : FileService => { service with oldChain := clusters }) s =
    (.ok (), { s with oldChain := clusters }) from rfl) rfl rfl rfl rfl ?_
  refine passes_memory (t := { s with oldChain := clusters }) (a := ()) (congrFun (if_neg hsize) _) rfl rfl rfl rfl ?_
  refine passes_memory (show (modify fun service : FileService => { service with dirtyFatSectors := [] })
    { s with oldChain := clusters } = (.ok (), { s with oldChain := clusters, dirtyFatSectors := [] }) from rfl) rfl rfl rfl rfl ?_
  have hwrites := @saveWrites_saved { s with oldChain := clusters, dirtyFatSectors := [] } clusters located
    (hm.of_memory rfl rfl rfl) hb ⟨hplace.valid, hplace.used, hplace.companionSlot, hplace.primarySlot, hplace.sound⟩ rfl rfl bytes append
    h.collected h.fits _ fat l rfl h.reserved
  refine wp_mono hwrites (fun _ t ⟨⟨Ds, hD, hw⟩, hs⟩ => ⟨⟨Ds, hD, hw⟩, ?_⟩) fun _ _ he => he
  exact ⟨hs.collected, hs.fits, hs.length, hs.nodup, hs.wasFree, hs.mounted, hs.fatEntryCount, hs.chain, hs.committed, hs.record,
    hs.content⟩

theorem savable_of_run (hm : s.Mounted) (hrun : saveLocated located bytes append s = (.ok (), t)) :
    ∃ clusters fat l, Savable s located bytes append clusters fat l := by
  obtain ⟨_, s₁, hcheck, hrest⟩ := of_bind_run hrun
  obtain ⟨hreg, rfl⟩ := checkRegular_ok hcheck
  obtain ⟨clusters, s₂, hcollect, hrest₂⟩ := of_bind_run hrest
  rw [collectChain_run] at hcollect
  obtain ⟨hclusters, rfl⟩ := Prod.mk.inj hcollect
  obtain ⟨_, s₃, hset, hrest₃⟩ := of_bind_run hrest₂
  cases hset
  obtain ⟨hfits, hrest₄⟩ := of_failIf_run hrest₃
  obtain ⟨_, s₅, hreset, hwrites⟩ := of_bind_run hrest₄
  cases hreset
  obtain ⟨_, s₆, hallocate, -⟩ := of_bind_run hwrites
  rw [not_or, Nat.not_lt, Nat.not_lt] at hfits
  cases hr : reserve s₁.fat s₁.fatEntryCount ((savedSize located.primary bytes append + clusterSize - 1) / clusterSize) with
  | error e =>
    have hrefused := wp_ok (@allocateChain_refused { s₁ with oldChain := clusters, dirtyFatSectors := [] } (hm.of_memory rfl rfl rfl)
      _ e hr) hallocate
    cases hrefused.2
  | ok r => exact ⟨clusters, r.1, r.2, hreg, hclusters, hfits.2, hr⟩

end Savable

theorem byte_copyInput {b : ClusterBytes} {inputStart start : Nat} (hi : i < clusterSize) :
    (copyInput b bytes inputStart start).byte i =
      if inputStart ≤ start + i ∧ start + i < inputStart + bytes.length then bytes.getD (start + i - inputStart) 0 else b.byte i := by
  unfold copyInput
  dsimp only
  split
  · rename_i hmeet
    have hi' : i < 4096 := hi
    rw [Bytes.byte_put hi']
    have hrange : (max inputStart start - start ≤ i ∧ i < max inputStart start - start +
        (min (inputStart + bytes.length) (start + clusterSize) - max inputStart start)) ↔
        inputStart ≤ start + i ∧ start + i < inputStart + bytes.length := by omega
    by_cases hin : inputStart ≤ start + i ∧ start + i < inputStart + bytes.length
    · rw [if_pos (hrange.mpr hin), if_pos hin, Bytes.byte_of_lt (by omega)]
      show (bytes.drop (max inputStart start - inputStart)).getD (i - (max inputStart start - start)) 0 = _
      rw [List.getD_eq_getElem?_getD, List.getD_eq_getElem?_getD, List.getElem?_drop]
      congr 2
      omega
    · rw [if_neg (hrange.not.mpr hin), if_neg hin]
  · rw [if_neg (by omega)]

def keptText (D : Disk) (clusters : List Nat) (size : Nat) : Text := ((clusterText D clusters).take size).rightpad size 0

theorem keptText_of_le (h : size ≤ clusters.length * clusterSize) :
    keptText D clusters size = (clusterText D clusters).take size := by
  rw [keptText, List.rightpad, List.length_take, length_clusterText, Nat.min_eq_left h, Nat.sub_self, List.replicate_zero,
    List.append_nil]

theorem length_keptText : (keptText D clusters size).length = size := by
  rw [keptText, List.length_rightpad, List.length_take]
  omega

theorem getElem?_keptText (hi : i < size) :
    (keptText D clusters size)[i]? = some ((clusters[i / clusterSize]?.map fun c => (D.data c).byte (i % clusterSize)).getD 0) := by
  rw [keptText, List.rightpad, List.getElem?_append, List.length_take, length_clusterText]
  split
  · rename_i hlt
    have hq : i / clusterSize < clusters.length := by
      unfold clusterSize at *
      omega
    rw [List.getElem?_take, if_pos hi, getElem?_clusterText, List.getElem?_eq_getElem hq]
    rfl
  · rename_i hge
    have hq : clusters.length ≤ i / clusterSize := by
      unfold clusterSize at *
      omega
    rw [List.getElem?_eq_none hq, List.getElem?_replicate, if_pos (by omega)]
    rfl

def savedText (D : Disk) (clusters : List Nat) (size : Nat) (bytes : Text) (append : Bool) : Text :=
  (if append then keptText D clusters size else []) ++ bytes

theorem length_savedText {append : Bool} :
    (savedText D clusters size bytes append).length = (if append then size else 0) + bytes.length := by
  rw [savedText, List.length_append]
  cases append
  · rfl
  · exact congrArg (· + bytes.length) length_keptText

theorem byte_savedCluster {j : Nat} {append : Bool} (hi : i < clusterSize)
    (hin : j * clusterSize + i < (savedText D clusters size bytes append).length) :
    some ((savedCluster D clusters size bytes append j).byte i) = (savedText D clusters size bytes append)[j * clusterSize + i]? := by
  have hdiv : (j * clusterSize + i) / clusterSize = j := by
    unfold clusterSize at *
    omega
  have hmod : (j * clusterSize + i) % clusterSize = i := by
    unfold clusterSize at *
    omega
  rw [length_savedText] at hin
  rw [savedCluster, byte_copyInput hi, savedText]
  cases append with
  | false =>
    have hlt : j * clusterSize + i < bytes.length := by
      rwa [if_neg Bool.false_ne_true, Nat.zero_add] at hin
    rw [if_neg Bool.false_ne_true, if_neg Bool.false_ne_true, if_pos ⟨Nat.zero_le _, by omega⟩, Nat.sub_zero, List.nil_append,
      List.getD_eq_getElem _ _ hlt, List.getElem?_eq_getElem hlt]
  | true =>
    rw [if_pos rfl] at hin
    rw [if_pos rfl, if_pos rfl, List.getElem?_append, length_keptText]
    by_cases hold : j * clusterSize + i < size
    · rw [if_neg (by omega), if_pos hold, getElem?_keptText hold, hdiv, hmod]
      congr 1
      split
      · rename_i hcopy
        rw [List.getElem?_eq_getElem hcopy.2.2, List.getD_eq_getElem _ _ hcopy.2.2]
        rfl
      · rename_i hcopy
        have hq : clusters.length ≤ j := by
          by_contra hx
          exact hcopy ⟨rfl, by omega, by omega⟩
        rw [List.getElem?_eq_none hq, Bytes.byte_zero]
        rfl
    · rw [if_pos (by omega), if_neg hold, List.getD_eq_getElem _ _ (by omega), List.getElem?_eq_getElem (by omega)]

theorem clusterText_saved {D D' : Disk} {l : List Nat} {size : Nat} {bytes : Text} {append : Bool}
    (hcontent : ∀ j, j < l.length → D'.data (l.getD j 0) = savedCluster D clusters size bytes append j)
    (hlength : (savedText D clusters size bytes append).length ≤ l.length * clusterSize) :
    (clusterText D' l).take (savedText D clusters size bytes append).length = savedText D clusters size bytes append := by
  refine List.ext_getElem? fun i => ?_
  rw [List.getElem?_take]
  split
  · rename_i hi
    have hq : i / clusterSize < l.length := by
      unfold clusterSize at *
      omega
    have hr : i % clusterSize < clusterSize := Nat.mod_lt _ (by decide)
    have hi' : i / clusterSize * clusterSize + i % clusterSize = i := Nat.div_add_mod' _ _
    have hbyte := hcontent _ hq
    rw [List.getD_eq_getElem _ _ hq] at hbyte
    rw [getElem?_clusterText, List.getElem?_eq_getElem hq, Option.map_some, hbyte, byte_savedCluster hr (by omega), hi']
  · rename_i hi
    rw [List.getElem?_eq_none (by omega)]

/-- A record holds a text: the committed pair of its name, and a chain that supplies the text. -/
structure HoldsText (s : FileService) (located : LocatedEntry) (text : Text) : Prop where
  companion : slotAt (s.disk.data located.directoryCluster) located.companionSlot = companionRecord true located.primary.name
  record : ∃ p, slotAt (s.disk.data located.directoryCluster) located.primarySlot = primaryBytes p ∧
    p.name = located.primary.name ∧ p.attributes = located.primary.attributes ∧ p.fileSize = text.length ∧
    s.fileContent p = .ok text

theorem Saved.holds (h : Saved s t located bytes true clusters l) :
    HoldsText t located (keptText s.disk clusters located.primary.fileSize ++ bytes) := by
  have hsize : savedSize located.primary bytes true = located.primary.fileSize + bytes.length := rfl
  have hlen : (keptText s.disk clusters located.primary.fileSize ++ bytes).length = savedSize located.primary bytes true := by
    rw [List.length_append, length_keptText, hsize]
  have hcount := h.length
  have hfits := h.fits
  have hroom : savedSize located.primary bytes true ≤ l.length * clusterSize := by
    rw [hcount]
    unfold clusterSize
    omega
  refine ⟨h.committed, _, h.record, rfl, rfl, hlen.symm, ?_⟩
  have hcollected : t.collected (savedRecord located.primary l (savedSize located.primary bytes true)) = .ok l := by
    unfold FileService.collected
    change (if savedSize located.primary bytes true = 0 then if l.headD 0 ≠ 0 then _ else _ else
      Fat.traverse t.fat t.fatEntryCount (l.headD 0) maxClusters) = _
    obtain rfl | hchain := h.chain
    · rw [List.length_nil] at hcount
      rw [if_pos (by unfold clusterSize at hcount; omega), if_neg (by simp)]
    · have hpos := List.length_pos_iff.mpr hchain.ne_nil
      rw [if_neg (by unfold clusterSize at hcount; omega)]
      refine Fat.traverse_eq_ok.mpr ⟨h.mounted.validEntryCount, by decide, hchain, h.nodup, ?_⟩
      unfold maxClusters clusterSize at *
      omega
  have hbytes := @clusterText_saved clusters s.disk t.disk l located.primary.fileSize bytes true h.content
    (le_of_eq_of_le hlen hroom)
  change (clusterText t.disk l).take (keptText s.disk clusters located.primary.fileSize ++ bytes).length =
    keptText s.disk clusters located.primary.fileSize ++ bytes at hbytes
  rw [hlen] at hbytes
  unfold fileContent
  rw [hcollected]
  change (if l.length * clusterSize < savedSize located.primary bytes true then _ else
    Except.ok ((clusterText t.disk l).take (savedSize located.primary bytes true))) = _
  rw [if_neg (not_lt.mpr hroom), hbytes]

theorem validateService_run {mutation : Bool} (h : validateService mutation s = (.ok (), t)) : s.initialized = true ∧ t = s := by
  obtain ⟨_, u, hget, hrest⟩ := of_bind_run h
  cases hget
  obtain ⟨hi, hrest₂⟩ := of_failIf_run hrest
  unfold failIf at hrest₂
  split at hrest₂
  · cases hrest₂
  · cases hrest₂
    exact ⟨by simpa using hi, rfl⟩

theorem fileContent_supplied {text : Text} (h : s.fileContent p = .ok text) : Supplied s p := by
  intro clusters hc
  unfold fileContent at h
  rw [hc] at h
  change (if _ then _ else _) = _ at h
  split at h
  · cases h
  · omega

theorem append_outcome (hm : s.Mounted) (hb : s.Bounded) {path : Option Text}
    (hrun : append path bytes s = (.ok (), t)) : ∃ located u clusters, select path 0 s = (.ok located, u) ∧
      (∀ capacity, located.primary.fileSize ≤ capacity →
        Yields (read path 0 capacity) s ((s.fileContent located.primary).map fun old => (old, true))) ∧
      s.collected located.primary = .ok clusters ∧
      HoldsText t located (keptText s.disk clusters located.primary.fileSize ++ bytes) := by
  obtain ⟨_, v, hvalid, hrest⟩ := of_bind_run hrun
  obtain ⟨hi, rfl⟩ := validateService_run hvalid
  obtain ⟨located, u, hsel, hsave⟩ := of_bind_run hrest
  cases path with
  | none =>
    have hnone : select none 0 v = (.error .invalidArgument, v) := by
      unfold select locateFileObject
      exact (bind_ok (show get v = (.ok v, v) from rfl)).trans (congrFun (failIf_bind (Or.inl (by decide))) v)
    rw [hnone] at hsel
    cases hsel
  | some path =>
    have hu := (select_keeps reads_unchanged).run hsel hm
    have hmu := hu.mounted hm
    obtain ⟨clusters, fat, l, h⟩ := savable_of_run hmu hsave
    have hplace := select_placed hm hsel h.regular
    have hbu : u.Bounded := by
      rw [Bounded, hu.mount, hu.fat]
      exact hb
    have hholds := (wp_ok (saveLocated_saved hmu hbu (hplace.quiet hu) h) hsave).2.holds
    rw [hu.disk] at hholds
    have hclusters := h.collected
    rw [collected_congr hu.fat hu.fatEntryCount] at hclusters
    exact ⟨located, u, clusters, hsel, fun capacity hcap => Yields.start (congrFun (failIf_pass fun hx => by cases hx) v) (Quiet.refl hm)
      ((readContent_yields hm hi hsel h.regular (Nat.zero_le _)).congr (readSlice_full hcap)), hclusters, hholds⟩

/-- After an append that succeeded the file holds its old content and the new bytes exactly when its chain could
    supply its old size. A full read before the call gave that old content then, and reported corruption
    otherwise. -/
theorem append_extends_iff (hm : s.Mounted) (hb : s.Bounded) {path : Option Text} {bytes : Text}
    (hrun : append path bytes s = (.ok (), t)) : ∃ located u, select path 0 s = (.ok located, u) ∧
      (∀ capacity, located.primary.fileSize ≤ capacity →
        Yields (read path 0 capacity) s ((s.fileContent located.primary).map fun old => (old, true))) ∧
      ((∃ old, s.fileContent located.primary = .ok old ∧ HoldsText t located (old ++ bytes)) ↔ Supplied s located.primary) := by
  obtain ⟨located, u, clusters, hsel, hread, hclusters, hholds⟩ := append_outcome hm hb hrun
  refine ⟨located, u, hsel, hread, fun ⟨_, hold, _⟩ => fileContent_supplied hold, fun hs => ?_⟩
  have hle := hs clusters hclusters
  refine ⟨(clusterText s.disk clusters).take located.primary.fileSize, ?_, ?_⟩
  · unfold fileContent
    rw [hclusters]
    exact if_neg (Nat.not_lt.mpr hle)
  · rw [← keptText_of_le hle]
    exact hholds

def chainedFile (size : Nat) : Primary :=
  { name := padName [ascii 'A'] [ascii 'T'], attributes := attributeRegular, firstCluster := 3, fileSize := size }

def chainedTable (i : Nat) : Nat := if i < 4 then Fat.endOfChain else Fat.free

def chainedClusters (size c : Nat) : ClusterBytes := if c = rootCluster then pairCluster (chainedFile size) else Bytes.zero

def chainedPath : Text := "A.T".toList.map ascii

def chainedEntry (size : Nat) : DirectoryEntry := ⟨chainedFile size, 1, some 0, .regular⟩

theorem chainedFile_sound (hpos : 0 < size) (hsize : size ≤ 8191) : (Item.file (chainedFile size)).Sound := by
  have hname : validStoredName (chainedFile size).name = true := by
    show validStoredName (padName [ascii 'A'] [ascii 'T']) = true
    decide
  refine ⟨Primary.admissible_iff.mpr ⟨hname, show 3 ≤ maxDataCluster by decide, Or.inl ⟨rfl, fun hz => ?_,
    fun _ => show 2 ≤ 3 by decide⟩⟩, ?_, rfl⟩
  · change size = 0 at hz
    omega
  · change size < 2 ^ 32
    omega

structure Appended (s t : FileService) (size : Nat) : Prop where
  mounted : s.Mounted
  bounded : s.Bounded
  room : s.Room 1
  run : append (some chainedPath) [65] s = (.ok (), t)
  collected : s.collected (chainedFile size) = .ok [3]
  selected : ∃ u, select (some chainedPath) 0 s = (.ok (locatedIn s.disk rootCluster (chainedEntry size)), u)

theorem exists_appended {size : Nat} (hpos : 0 < size) (hsize : size ≤ 8191) : ∃ s t : FileService, Appended s t size := by
  obtain ⟨s, hd⟩ := @exists_drawn chainedTable (chainedClusters size) 256 (by decide) le_rfl
    (fun i => by
      unfold chainedTable
      split <;> decide)
    (fun i hx => by
      rw [chainedTable, if_pos (by omega)]
      decide)
  obtain ⟨-, hs, hi, hable, -, hmount, hcount, -, hdata⟩ := id hd
  have hm := hs.mounted
  have hroom := (hable.mono le_rfl (by decide : 1 ≤ 256)).room
  have hsound := chainedFile_sound hpos hsize
  have hvalid : ∀ c, 2 ≤ c → c < 100 → Fat.validCluster c s.fatEntryCount := fun c h₂ h₁₀₀ => by
    rw [hcount]
    exact ⟨h₂, h₁₀₀.trans (by decide), h₁₀₀.le.trans (by decide)⟩
  have hend : ∀ c, c < 4 → Fat.Ends (s.fat c) := fun c hc => by
    rw [hd.entry (by omega), chainedTable, if_pos hc]
    exact ⟨by decide, by decide⟩
  -- The root directory holds the pair of the file.
  have hcatalog : Catalog s (· = rootCluster) fun _ => pairItems (chainedFile size) := by
    refine ⟨rfl, fun {d} hd => ?_, fun {d i p} hd hx hp => ?_⟩
    · cases hd
      refine ⟨hvalid _ (by decide) (by decide), hend _ (by decide), ?_, (filled_pair hsound).tidy⟩
      rw [hdata _ (by decide)]
      exact (filled_pair hsound).shows
    · match i with
      | 0 => cases hp
      | 1 => cases hp
      | i + 2 => cases hp
  have hyields : Yields (select (some chainedPath) 0) s _ := select_yields hm hcatalog nofun
  have hselect := hyields.outcome hroom
  have hselected : select (some chainedPath) 0 s = (.ok (locatedIn s.disk rootCluster (chainedEntry size)),
      (select (some chainedPath) 0 s).2) := Prod.ext hselect rfl
  generalize hu : (select (some chainedPath) 0 s).2 = u at hselected
  have hq := (select_keeps reads_unchanged).run hselected hm
  have hcheck := (@checkRegular_yields s rootCluster (fun _ => pairItems (chainedFile size)) hm (hcatalog.directory rfl)
    (chainedEntry size) (.file (i := 1) (by decide) rfl)).outcome hroom
  rw [if_pos (show (chainedEntry size).kind = .regular from rfl)] at hcheck
  obtain ⟨hregular, -⟩ := checkRegular_ok (Prod.ext hcheck rfl)
  have hthree : ∀ v, Quiet s v → v.collected (chainedFile size) = .ok [3] := fun v hv => by
    have hne : (chainedFile size).fileSize ≠ 0 := show size ≠ 0 by omega
    rw [collected_congr hv.fat hv.fatEntryCount, collected, if_neg hne]
    exact Fat.traverse_eq_ok.mpr ⟨hm.validEntryCount, by decide, .last (hvalid 3 (by decide) (by decide)) (hend 3 (by decide)),
      List.nodup_singleton _, by decide⟩
  -- Two free clusters are enough for the new content.
  have hcountle : (savedSize (chainedFile size) [65] true + clusterSize - 1) / clusterSize ≤ 2 := by
    show (size + 1 + clusterSize - 1) / clusterSize ≤ 2
    unfold clusterSize
    omega
  have hfree : 2 ≤ ((List.range' 2 (u.fatEntryCount - 2)).filter fun c => u.fat c = Fat.free).length := by
    have hsub : [4, 5] ⊆ (List.range' 2 (u.fatEntryCount - 2)).filter fun c => u.fat c = Fat.free := by
      intro c hc
      have h45 : 4 ≤ c ∧ c < 6 := by
        rcases List.mem_cons.mp hc with rfl | hc
        · decide
        · rw [List.mem_singleton.mp hc]
          decide
      have hlt := (hvalid c (by omega) (by omega)).2.1
      rw [List.mem_filter, List.mem_range'_1, hq.fat, hq.fatEntryCount, hd.entry (by omega), chainedTable, if_neg (by omega)]
      exact ⟨by omega, by decide⟩
    exact (List.subperm_of_subset (by decide) hsub).length_le
  have hmu := hq.mounted hm
  have hneeded : 0 < (savedSize (chainedFile size) [65] true + clusterSize - 1) / clusterSize := by
    show 0 < (size + 1 + clusterSize - 1) / clusterSize
    unfold clusterSize
    omega
  have hmax : (savedSize (chainedFile size) [65] true + clusterSize - 1) / clusterSize ≤ maxClusters := hcountle.trans (by decide)
  obtain ⟨fat, l, hl⟩ := Fat.allocate_isOk hmu.validEntryCount hneeded hmax (hcountle.trans hfree)
  have hsavable : Savable u (locatedIn s.disk rootCluster (chainedEntry size)) [65] true [3] fat l := by
    refine ⟨hregular, hthree u hq, ?_, ?_⟩
    · show size + 1 ≤ maxClusters * clusterSize
      unfold maxClusters clusterSize
      omega
    · exact (if_neg hneeded.ne').trans hl
  have hplace := select_placed hm hselected hregular
  have hbu : u.Bounded := by
    rw [Bounded, hq.mount, hq.fat]
    exact hs.loaded.bounded
  obtain ⟨_, t, ht, -⟩ := (saveLocated_saved hmu hbu (hplace.quiet hq) hsavable).run ((hq.able hable).mono (by
    have := hcountle
    change (savedSize (chainedFile size) [65] true + clusterSize - 1) / clusterSize + (3 + 1) ≤ _
    omega) (by decide))
  have hvalidate : validateService true s = (.ok (), s) := by
    unfold validateService
    rw [bind_ok (show get s = (.ok s, s) from rfl), failIf_pass (by rw [hi]; decide), hmount]
    rfl
  exact ⟨s, t, hm, hs.loaded.bounded, hroom, (bind_ok hvalidate).trans ((bind_ok hselected).trans ht), hthree s (Quiet.refl hm),
    u, hselected⟩

/-- An append to a file of ten bytes keeps them. -/
theorem append_extends_ten : ∃ (s t : FileService) (old : Text), append (some chainedPath) [65] s = (.ok (), t) ∧
    s.fileContent (chainedFile 10) = .ok old ∧
    HoldsText t (locatedIn s.disk rootCluster (chainedEntry 10)) (old ++ [65]) := by
  obtain ⟨s, t, h⟩ := @exists_appended 10 (by decide) (by decide)
  obtain ⟨located, u, hsel, -, hiff⟩ := append_extends_iff h.mounted h.bounded h.run
  obtain ⟨v, hv⟩ := h.selected
  rw [hv] at hsel
  cases hsel
  obtain ⟨old, hold, hholds⟩ := hiff.mpr fun clusters hc => by
    have heq : Except.ok [3] = Except.ok clusters := h.collected.symm.trans hc
    cases heq
    exact show 10 ≤ 1 * clusterSize by decide
  exact ⟨s, t, old, h.run, hold, hholds⟩

/-- The chain of a file of 5000 bytes has one cluster: a read reports corruption, and an append goes on behind 904
    zeroes. -/
theorem append_hides_damage : ∃ (s t : FileService) (kept : Text), append (some chainedPath) [65] s = (.ok (), t) ∧
    (read (some chainedPath) 0 5000 s).1 = .error .corrupt ∧ kept.length = 4096 ∧
    HoldsText t (locatedIn s.disk rootCluster (chainedEntry 5000)) (kept ++ List.replicate 904 0 ++ [65]) := by
  obtain ⟨s, t, h⟩ := @exists_appended 5000 (by decide) (by decide)
  obtain ⟨located, u, clusters, hsel, hread, hclusters, hholds⟩ := append_outcome h.mounted h.bounded h.run
  obtain ⟨v, hv⟩ := h.selected
  rw [hv] at hsel
  cases hsel
  have heq : Except.ok [3] = Except.ok clusters := h.collected.symm.trans hclusters
  cases heq
  refine ⟨s, t, clusterText s.disk [3], h.run, ?_, length_clusterText, ?_⟩
  · have hcontent : s.fileContent (chainedFile 5000) = .error .corrupt := by
      unfold fileContent
      rw [h.collected]
      rfl
    exact ((hread 5000 le_rfl).outcome h.room).trans (congrArg _ hcontent)
  · have hkept : keptText s.disk [3] 5000 = clusterText s.disk [3] ++ List.replicate 904 0 := by
      rw [keptText, List.rightpad, List.take_of_length_le (by rw [length_clusterText]; decide), length_clusterText]
      rfl
    rw [← hkept]
    exact hholds

end FileService
end InferenceOS
