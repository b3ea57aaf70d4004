import InferenceOS.Theorems.Identities
import InferenceOS.Theorems.Appending

/-! Object identities that no call gave. An identity is the place of a record, and the calls on objects only look at the
    cluster that it addresses: they accept a pair of records in the data of a file like one in a directory. -/

namespace InferenceOS
open Program

/-- The calls that are given the identity of a file. -/
inductive ObjectCall where
  | read (offset capacity : Nat)
  | replace (bytes : Text)
  | append (bytes : Text)
  | rename (destinationParent : Nat) (destinationBase : Text)
  | remove

namespace FileService
variable {α : Type} {s t : FileService} {T : Tree} {live : Nat → Prop} {identity : Nat} {located : LocatedEntry} {call : ObjectCall}

/-- Carry out the call, without its result. -/
def callObject (identity : Nat) : ObjectCall → Service Unit
  | .read offset capacity => readObject identity offset capacity >>= fun _ => pure ()
  | .replace bytes => replaceObject identity bytes
  | .append bytes => appendObject identity bytes
  | .rename destinationParent destinationBase => renameObject identity destinationParent destinationBase
  | .remove => removeObject identity

def callLocated (identity : Nat) : ObjectCall → Service LocatedEntry
  | .read _ _ => failIf (identity = 0) .invalidArgument >>= fun _ => validateService false >>= fun _ => locateFileObject identity
  | .rename destinationParent destinationBase => validateService true >>= fun _ => get >>= fun service =>
    failIf (¬service.validDirectoryCluster destinationParent ∨ destinationBase = [] ∨ 8 < destinationBase.length) .invalidArgument >>=
      fun _ => failIf (∃ value ∈ destinationBase, value = ascii '.' ∨ value = ascii '/' ∨ value = ascii '\\') .invalidArgument >>=
        fun _ => locateFileObject identity
  | _ => validateService true >>= fun _ => locateFileObject identity

theorem callObject_eq : ∃ rest : LocatedEntry → Service Unit, callObject identity call = callLocated identity call >>= rest := by
  cases call with
  | read offset capacity =>
    refine ⟨fun located => checkRegular located >>= fun _ => failIf (located.primary.fileSize < offset) .outOfRange >>= fun _ =>
      collectChain located.primary >>= fun clusters => (modify fun service => { service with chain := clusters }) >>= fun _ =>
        transfer clusters offset (min (located.primary.fileSize - offset) capacity)
          (min (located.primary.fileSize - offset) capacity) [] >>= fun _ => pure (), ?_⟩
    show (failIf (identity = 0) .invalidArgument >>= fun _ => readContent none identity offset capacity) >>= (fun _ => pure ()) = _
    simp only [readContent, callLocated, Program.bind_assoc]
    rfl
  | replace bytes => exact ⟨fun located => saveLocated located bytes false, (Program.bind_assoc ..).symm⟩
  | append bytes => exact ⟨fun located => saveLocated located bytes true, (Program.bind_assoc ..).symm⟩
  | rename destinationParent destinationBase =>
    refine ⟨fun source => ofExcept (canonicalComponent destinationBase) >>= fun base =>
      failIf (base.slice 8 3 ≠ (padName [] []).slice 8 3) .invalidArgument >>= fun _ =>
        renameLocated source destinationParent (base.put 8 (source.primary.name.slice 8 3)), ?_⟩
    simp only [callLocated, Program.bind_assoc]
    rfl
  | remove => exact ⟨removeLocatedFile, (Program.bind_assoc ..).symm⟩

theorem callLocated_keeps : Keeps Unchanged (callLocated identity call) := by
  have hvalidate : ∀ {mutation}, Keeps Unchanged (validateService mutation) := validateService_keeps
  have hlocate : Keeps Unchanged (locateFileObject identity) := locateFileObject_keeps reads_unchanged
  cases call with
  | read => exact keeps_failIf.bind fun _ => hvalidate.bind fun _ => hlocate
  | rename => exact hvalidate.bind fun _ => keeps_get.bind fun _ => keeps_failIf.bind fun _ => keeps_failIf.bind fun _ => hlocate
  | _ => exact hvalidate.bind fun _ => hlocate

theorem callLocated_run {u : FileService} (h : callLocated identity call s = (.ok located, u)) :
    locateFileObject identity s = (.ok located, u) := by
  have hvalidated : ∀ {mutation : Bool}, (validateService mutation >>= fun _ => locateFileObject identity) s = (.ok located, u) →
      locateFileObject identity s = (.ok located, u) := fun hrun => by
    obtain ⟨_, v, hvalid, hrest⟩ := of_bind_run hrun
    obtain ⟨-, rfl⟩ := validateService_run hvalid
    exact hrest
  cases call with
  | read =>
    obtain ⟨-, hrest⟩ := of_failIf_run h
    exact hvalidated hrest
  | rename =>
    obtain ⟨_, v, hvalid, hrest⟩ := of_bind_run h
    obtain ⟨-, rfl⟩ := validateService_run hvalid
    obtain ⟨_, w, hget, hrest₂⟩ := of_bind_run hrest
    cases hget
    obtain ⟨-, hrest₃⟩ := of_failIf_run hrest₂
    obtain ⟨-, hrest₄⟩ := of_failIf_run hrest₃
    exact hrest₄
  | _ => exact hvalidated h

theorem addressedRecord_quiet (h : Quiet s t) : addressedRecord t identity = addressedRecord s identity := by
  unfold addressedRecord
  rw [h.mount, h.fatEntryCount, h.disk]

/-- The identity addresses a file in the bytes of a cluster that is no directory. -/
def Planted (s : FileService) (identity : Nat) : Prop :=
  let c := (addressed s.mount.geometry identity).1
  addressable s.mount.geometry identity ∧ Fat.validCluster c s.fatEntryCount ∧ ¬Reachable s c ∧ ∃ entries,
    directoryScan (slotAt (s.disk.data c)) directorySlots directorySlots directorySlots = .ok entries ∧
      ∃ entry ∈ entries, entry.kind = .regular ∧ entry.primarySlot = (addressed s.mount.geometry identity).2

/-- The identity stands for a record of a directory below the root. -/
def Genuine (s : FileService) (identity : Nat) : Prop := ∃ d entry, Reachable s d ∧ Denotes s identity d entry

theorem addressedRecord_eq_ok (h : addressedRecord s identity = .ok located) : addressable s.mount.geometry identity ∧
    Fat.validCluster (addressed s.mount.geometry identity).1 s.fatEntryCount ∧
    located.directoryCluster = (addressed s.mount.geometry identity).1 ∧ ∃ entries entry,
      directoryScan (slotAt (s.disk.data located.directoryCluster)) directorySlots directorySlots directorySlots = .ok entries ∧
      entry ∈ entries ∧ entry.kind = .regular ∧ entry.primarySlot = (addressed s.mount.geometry identity).2 ∧
      located = locatedIn s.disk located.directoryCluster entry := by
  unfold addressedRecord at h
  dsimp only at h
  split at h
  · rename_i hv
    obtain ⟨entries, hscan, hrest⟩ := of_bind_ok h
    split at hrest
    · cases hrest
    · rename_i entry hf
      cases hrest
      have hentry := List.find?_some hf
      simp only [decide_eq_true_eq] at hentry
      exact ⟨hv.1, hv.2, rfl, entries, entry, hscan, List.mem_of_find?_eq_some hf, hentry.1, hentry.2, rfl⟩
  · cases h

theorem planted_iff : Planted s identity ↔
    ∃ located, addressedRecord s identity = .ok located ∧ ¬Reachable s located.directoryCluster := by
  constructor
  · rintro ⟨ha, hv, hno, entries, hscan, entry, hmem, hentry⟩
    unfold addressedRecord
    dsimp only
    rw [if_pos ⟨ha, hv⟩, hscan]
    dsimp only [bind, Except.bind]
    cases hf : entries.find? fun entry => entry.kind = .regular ∧ entry.primarySlot = (addressed s.mount.geometry identity).2 with
    | none => exact absurd (decide_eq_true hentry) (List.find?_eq_none.mp hf entry hmem)
    | some found => exact ⟨_, rfl, hno⟩
  · rintro ⟨located, hrec, hno⟩
    obtain ⟨ha, hv, hcluster, entries, entry, hscan, hmem, hkind, hslot, -⟩ := addressedRecord_eq_ok hrec
    rw [hcluster] at hno hscan
    exact ⟨ha, hv, hno, entries, hscan, entry, hmem, hkind, hslot⟩

theorem Consistent.genuine (h : Consistent s T) (hlt : identity < 2 ^ 64) (hrec : addressedRecord s identity = .ok located)
    (hreach : Reachable s located.directoryCluster) : Genuine s identity := by
  obtain ⟨ha, -, hcluster, entries, entry, hscan, hmem, hkind, hslot, -⟩ := addressedRecord_eq_ok hrec
  have hd := (h.above h.describes.linked.root hreach).1
  have hchain : Fat.traverse s.disk.fat s.fatEntryCount located.directoryCluster maxClusters = .ok [located.directoryCluster] :=
    Fat.traverse_eq_ok.mpr ⟨h.mounted.validEntryCount, by decide, h.directory_chain hd, List.nodup_singleton _,
      show 1 ≤ maxClusters by decide⟩
  refine ⟨located.directoryCluster, entry, hreach, located.directoryCluster,
    ⟨_, entries, hchain, List.mem_singleton_self _, hscan, hmem, by rw [hkind]; nofun⟩, hkind, ?_⟩
  rw [hslot, hcluster]
  exact (fileIdentity_addressed ha hlt).symm

theorem Consistent.not_genuine (h : Consistent s T) (hp : Planted s identity) : ¬Genuine s identity := by
  rintro ⟨d, entry, hreach, c, hl, -, rfl⟩
  have hd := (h.above h.describes.linked.root hreach).1
  obtain ⟨rfl, he⟩ := (h.lists hd).mp hl
  have hv := h.describes.valid hd
  rw [h.mounted.entries] at hv
  obtain ⟨-, -, haddressed⟩ := addressed_fileIdentity h.mounted.laid hv he.named.1
  have hno := hp.2.2.1
  rw [haddressed] at hno
  exact hno hreach

theorem Consistent.accepts (h : Consistent s T) (hlt : identity < 2 ^ 64) (hrun : callObject identity call s = (.ok (), t)) :
    Genuine s identity ∨ Planted s identity := by
  obtain ⟨rest, hrest⟩ := @callObject_eq identity call
  rw [hrest] at hrun
  obtain ⟨located, u, hlocated, -⟩ := of_bind_run hrun
  have hrec := (wp_ok (locateFileObject_addressed h.mounted hlt) (callLocated_run hlocated)).2
  by_cases hreach : Reachable s located.directoryCluster
  · exact Or.inl (h.genuine hlt hrec hreach)
  · exact Or.inr (planted_iff.mpr ⟨located, hrec, hreach⟩)

theorem Consistent.misses (h : Consistent s T) (hlt : identity < 2 ^ 64) (hg : ¬Genuine s identity) (hp : ¬Planted s identity)
    {x : Except IosError Unit} (hrun : callObject identity call s = (x, t)) : Quiet s t ∧ ∃ e, x = .error e := by
  have hkeeps : Keeps Unchanged (callLocated identity call) := callLocated_keeps
  obtain ⟨rest, hrest⟩ := @callObject_eq identity call
  cases x with
  | ok _ => exact ((h.accepts hlt hrun).elim hg hp).elim
  | error e =>
    rw [hrest] at hrun
    rcases hlocated : callLocated identity call s with ⟨e' | located, u⟩
    · rw [bind_error hlocated] at hrun
      cases hrun
      exact ⟨hkeeps.run hlocated h.mounted, e, rfl⟩
    · have hrec := (wp_ok (locateFileObject_addressed h.mounted hlt) (callLocated_run hlocated)).2
      by_cases hreach : Reachable s located.directoryCluster
      · exact absurd (h.genuine hlt hrec hreach) hg
      · exact absurd (planted_iff.mpr ⟨located, hrec, hreach⟩) hp

theorem Consistent.reads_planted (h : Consistent s T) (hlt : identity < 2 ^ 64) (hrec : addressedRecord s identity = .ok located)
    {clusters : List Nat} (hc : s.collected located.primary = .ok clusters) : Yields (callObject identity (.read 0 0)) s (.ok ()) := by
  obtain ⟨ha, -, -, entries, entry, hscan, hmem, hkind, -, hlocated⟩ := addressedRecord_eq_ok hrec
  have hm := h.mounted
  have hregular : Regular located := by
    rw [hlocated]
    exact slotEntry_regular (directoryScan_entries hscan entry hmem) hkind
  have hpos : identity ≠ 0 := fun hz => by
    have := ha.1
    rw [hz] at this
    exact absurd this (by decide)
  have hread : Yields (readObject identity 0 0) s (.ok ([], 0 == located.primary.fileSize)) := by
    unfold readObject readContent
    rw [failIf_pass hpos]
    refine (validateReading_yields hm h.initialized).bind fun t ht => ?_
    have hlocate : Yields (select none identity) t (.ok located) := by
      have := locateFileObject_addressed (ht.mounted hm) hlt
      rwa [addressedRecord_quiet ht, hrec] at this
    refine hlocate.bind fun u hu => ?_
    have hqu := ht.trans hu
    refine (hregular.yields (hqu.mounted hm)).bind fun v hv => ?_
    have hqv := hqu.trans hv
    refine ((yields_failIf (hqv.mounted hm) _ _).congr (if_neg (Nat.not_lt_zero _))).bind fun w hw => ?_
    have hqw := hqv.trans hw
    have hcollect := collectChain_collected (p := located.primary) (hqw.mounted hm)
    rw [collected_congr hqw.fat hqw.fatEntryCount, hc] at hcollect
    refine hcollect.bind fun x hx => ?_
    have hqx := hqw.trans hx
    refine (yields_modify ((Quiet.refl (hqx.mounted hm)).scratch rfl)).bind fun y hy => ?_
    rw [Nat.min_zero]
    exact yields_pure ((hqx.trans hy).mounted hm) _
  exact hread.bind fun t ht => yields_pure (ht.mounted hm) ()

/-- The states that a volume reaches when no call is given the identity of a planted record. -/
inductive ObjectRun : FileService → (Nat → Prop) → Prop where
  | opened {s : FileService} : Opened s → ObjectRun s (· = rootCluster)
  | done {s t : FileService} {live : Nat → Prop} {r : Request} {v : Option VfsObject} : ObjectRun s live → Done s live r v t →
    ObjectRun t (r.after s live v)
  | idle {s t : FileService} {live : Nat → Prop} : ObjectRun s live → Idle s live t → ObjectRun t live
  | missed {s t : FileService} {live : Nat → Prop} {identity : Nat} {call : ObjectCall} {x : Except IosError Unit} :
    ObjectRun s live → identity < 2 ^ 64 → ¬Genuine s identity → ¬Planted s identity → callObject identity call s = (x, t) →
    ObjectRun t live

theorem ObjectRun.sound (h : ObjectRun s live) : ∃ T, Sound s live T := by
  induction h with
  | opened ho => exact ⟨emptyTree, .opened ho⟩
  | done _ hd ih =>
    obtain ⟨T, hT⟩ := ih
    obtain ⟨T', hT', -⟩ := hT.done hd
    exact ⟨T', hT'⟩
  | idle _ hi ih =>
    obtain ⟨T, hT⟩ := ih
    exact ⟨T, hT.idle hi⟩
  | missed _ hlt hgen hp hrun ih =>
    obtain ⟨T, hc, rfl, hdis⟩ := ih
    exact ⟨T, hc.quiet (hc.misses hlt hgen hp hrun).1, rfl, hdis⟩

/-- On every volume that such a run reaches, a call succeeds only with the identity of a file exactly when the identity does
    not address a planted record: the check accepts a planted one, and when its chain can be walked it can be read. -/
theorem object_identities (h : ObjectRun s live) (hlt : identity < 2 ^ 64) :
    (¬Planted s identity → ∀ call t, callObject identity call s = (.ok (), t) → Genuine s identity) ∧
    (Planted s identity → ¬Genuine s identity ∧ (s.Room 1 → ∃ located, (locateFileObject identity s).1 = .ok located ∧
      ∀ clusters, s.collected located.primary = .ok clusters → ∃ t, callObject identity (.read 0 0) s = (.ok (), t))) := by
  obtain ⟨T, hT⟩ := h.sound
  have hc := hT.toConsistent
  refine ⟨fun hno call t hrun => (hc.accepts hlt hrun).resolve_right hno, fun hp => ⟨hc.not_genuine hp, fun hroom => ?_⟩⟩
  obtain ⟨located, hrec, -⟩ := planted_iff.mp hp
  have hlocate := (locateFileObject_addressed hc.mounted hlt).outcome hroom
  rw [hrec] at hlocate
  refine ⟨located, hlocate, fun clusters hclusters => ?_⟩
  exact ⟨_, Prod.ext ((hc.reads_planted hlt hrec hclusters).outcome hroom) rfl⟩

def plantedBytes : Text := List.ofFn (pairCluster emptyFile)

theorem length_plantedBytes : plantedBytes.length = clusterSize := List.length_ofFn

theorem savedCluster_planted {D : Disk} {old : List Nat} : savedCluster D old 0 plantedBytes false 0 = pairCluster emptyFile := by
  refine Bytes.ext_byte fun i hi => ?_
  rw [savedCluster, byte_copyInput hi, length_plantedBytes, if_neg Bool.false_ne_true, Nat.zero_mul, Nat.zero_add, Nat.zero_add,
    if_pos ⟨Nat.zero_le _, hi⟩, Nat.sub_zero, Bytes.byte_of_lt hi, plantedBytes, List.getD_eq_getElem _ _ (by rwa [List.length_ofFn]),
    List.getElem_ofFn]

theorem exists_planted : ∃ (s : FileService) (live : Nat → Prop) (identity : Nat) (located : LocatedEntry), ObjectRun s live ∧ s.Room 1 ∧
    identity < 2 ^ 64 ∧ Planted s identity ∧ addressedRecord s identity = .ok located ∧ s.collected located.primary = .ok [] := by
  obtain ⟨s, t, u, k, c, h, hable, -⟩ := exists_written plantedBytes
    ⟨length_plantedBytes ▸ (by decide), length_plantedBytes ▸ le_rfl⟩
  have hc := h.full.toConsistent
  have hv := (hc.describes.owned.used h.owns).1
  have hnodir := hc.describes.owned.apart h.owns
  have hdata : u.disk.data c = pairCluster emptyFile := h.content.trans savedCluster_planted
  have hscan : directoryScan (slotAt (u.disk.data c)) directorySlots directorySlots directorySlots = .ok fileEntries := by
    rw [hdata]
    exact (filled_pair ⟨by decide, by decide, rfl⟩).scans.trans rfl
  obtain ⟨hlt, haddr, hat⟩ := addressed_fileIdentity (i := 1) hc.mounted.laid (hc.mounted.entries ▸ hv) (by decide)
  have hplanted : Planted u (fileIdentity u.mount.geometry c 1) := by
    refine ⟨haddr, ?_, ?_, fileEntries, ?_, _, List.mem_singleton_self _, rfl, ?_⟩
    · rwa [hat]
    · rw [hat]
      exact fun hx => hnodir (hc.above hc.describes.linked.root hx).1
    · rwa [hat]
    · rw [hat]
  obtain ⟨located, hrec, -⟩ := planted_iff.mp hplanted
  obtain ⟨-, -, hcluster, entries, entry, hscan', hmem, -, -, hlocated⟩ := addressedRecord_eq_ok hrec
  rw [hcluster, hat, hscan] at hscan'
  cases hscan'
  cases List.mem_singleton.mp hmem
  refine ⟨u, _, _, located, .done (.done (.opened h.opened) h.created) h.replaced, (hable.mono (Nat.zero_le _) (by decide)).room, hlt, hplanted, hrec, ?_⟩
  rw [hlocated]
  rfl

/-- On this volume a call reads a file that no directory holds. -/
theorem object_identity_planted : ∃ (s : FileService) (live : Nat → Prop) (identity : Nat), ObjectRun s live ∧ identity < 2 ^ 64 ∧
    (∃ t, callObject identity (.read 0 0) s = (.ok (), t)) ∧ ¬Genuine s identity := by
  obtain ⟨s, live, identity, located, hrun, hroom, hlt, hplanted, hrec, hc⟩ := exists_planted
  obtain ⟨T, hT⟩ := hrun.sound
  have h := hT.toConsistent
  exact ⟨s, live, identity, hrun, hlt, ⟨_, Prod.ext ((h.reads_planted hlt hrec hc).outcome hroom) rfl⟩, h.not_genuine hplanted⟩

theorem object_identities_planted : ∃ (s : FileService) (identity : Nat), Planted s identity ∧ ¬Genuine s identity := by
  obtain ⟨s, live, identity, located, hrun, -, hlt, hplanted, -⟩ := exists_planted
  exact ⟨s, identity, hplanted, ((object_identities hrun hlt).2 hplanted).1⟩

end FileService
end InferenceOS
