import InferenceOS.Fs.Requests
import InferenceOS.Theorems.Lookups

/-! The calls that only read: whatever they are given and however they end, the volume, the allocation table
    and the mount stay as they were. They keep every relation that the scratch buffers and the reads of single
    clusters keep. -/

namespace InferenceOS
open Program
variable {cluster : Nat}

namespace FileService
variable {s t : FileService}

/-- A relation that no reading part of the service breaks. -/
structure Reads (R : FileService → FileService → Prop) : Prop where
  scratch : ∀ {f : FileService → FileService}, (∀ s, f s = { s with
    chain := (f s).chain, oldChain := (f s).oldChain, directory := (f s).directory, cluster := (f s).cluster
    directoryEntries := (f s).directoryEntries }) → Keeps R (modify f : Service Unit)
  readCluster : ∀ {cluster : Nat}, Keeps R (readCluster cluster)

section Reads
variable {R : FileService → FileService → Prop} [Std.Refl R] [IsTrans FileService R]
variable {path : Option Text} {capacity identity offset : Nat}

theorem validateService_keeps {mutation : Bool} : Keeps R (validateService mutation) :=
  keeps_get.bind fun _ => keeps_failIf.bind fun _ => keeps_failIf

omit [Std.Refl R] in
theorem loadDirectory_keeps (h : Reads R) : Keeps R (loadDirectory cluster) :=
  h.readCluster.bind fun _ => h.scratch fun _ => rfl

theorem directoryChain_keeps (h : Reads R) : Keeps R (directoryChain cluster) :=
  keeps_get.bind fun _ => keeps_ofExcept.bind fun _ => (h.scratch fun _ => rfl).bind fun _ => keeps_pure

theorem scanLoadedDirectory_keeps (h : Reads R) : Keeps R scanLoadedDirectory :=
  keeps_get.bind fun _ => keeps_ofExcept.bind fun _ => (h.scratch fun _ => rfl).bind fun _ => keeps_pure

theorem findAmong_keeps (h : Reads R) {name : Name} : ∀ {clusters : List Nat}, Keeps R (findAmong name clusters)
  | [] => keeps_fail
  | _ :: _ => by
    refine (loadDirectory_keeps h).bind fun _ => (scanLoadedDirectory_keeps h).bind fun entries => ?_
    split
    · exact findAmong_keeps h
    · exact keeps_failIf.bind fun _ => keeps_get.bind fun _ => keeps_pure

theorem findInDirectory_keeps (h : Reads R) {name : Name} : Keeps R (findInDirectory cluster name) :=
  (directoryChain_keeps h).bind fun _ => findAmong_keeps h

theorem walk_keeps (h : Reads R) : ∀ {comps : List Text} {current : Nat}, Keeps R (walk current comps)
  | [], _ => keeps_pure
  | _ :: _, _ => keeps_ofExcept.bind fun _ => (findInDirectory_keeps h).bind fun _ => keeps_failIf.bind fun _ => walk_keeps h

theorem resolveParent_keeps (h : Reads R) : Keeps R (resolveParent path) := by
  unfold resolveParent
  split
  · exact keeps_fail
  · exact keeps_failIf.bind fun _ => keeps_ofExcept.bind fun _ => (walk_keeps h).bind fun _ => keeps_pure

theorem locateFileObject_keeps (h : Reads R) : Keeps R (locateFileObject identity) := by
  unfold locateFileObject
  refine keeps_get.bind fun _ => keeps_failIf.bind fun _ => keeps_failIf.bind fun _ => keeps_failIf.bind fun _ =>
    (loadDirectory_keeps h).bind fun _ => (scanLoadedDirectory_keeps h).bind fun _ => ?_
  split
  · exact keeps_fail
  · exact keeps_failIf.bind fun _ => keeps_get.bind fun _ => keeps_failIf.bind fun _ => keeps_pure

theorem select_keeps (h : Reads R) : Keeps R (select path identity) := by
  unfold select
  split
  · exact (resolveParent_keeps h).bind fun _ => findInDirectory_keeps h
  · exact locateFileObject_keeps h

theorem checkRegular_keeps {located : LocatedEntry} : Keeps R (checkRegular located) :=
  keeps_failIf.bind fun _ => keeps_ofExcept

theorem collectChain_keeps {primary : Primary} : Keeps R (collectChain primary) := by
  refine keeps_get.bind fun _ => ?_
  split
  · exact keeps_failIf.bind fun _ => keeps_pure
  · exact keeps_ofExcept

theorem transfer_keeps (h : Reads R) {clusters : List Nat} {offset remaining : Nat} : ∀ {fuel : Nat} {done : Text},
    Keeps R (transfer clusters offset remaining fuel done)
  | 0, _ => keeps_pure
  | fuel + 1, done => by
    unfold transfer
    refine keeps_ite (fun _ => keeps_pure) fun _ => ?_
    dsimp only
    split
    · exact keeps_fail
    · exact h.readCluster.bind fun _ => (h.scratch fun _ => rfl).bind fun _ => transfer_keeps h

theorem readContent_keeps (h : Reads R) : Keeps R (readContent path identity offset capacity) :=
  validateService_keeps.bind fun _ => (select_keeps h).bind fun _ => checkRegular_keeps.bind fun _ => keeps_failIf.bind fun _ =>
    collectChain_keeps.bind fun _ => (h.scratch fun _ => rfl).bind fun _ => (transfer_keeps h).bind fun _ => keeps_pure

theorem read_keeps (h : Reads R) : Keeps R (read path offset capacity) :=
  keeps_failIf.bind fun _ => readContent_keeps h

theorem readObject_keeps (h : Reads R) : Keeps R (readObject identity offset capacity) :=
  keeps_failIf.bind fun _ => readContent_keeps h

theorem lookup_keeps (h : Reads R) {directory : Nat} {component : Text} : Keeps R (lookup directory component) := by
  refine keeps_get.bind fun _ => keeps_failIf.bind fun _ => validateService_keeps.bind fun _ => keeps_ofExcept.bind fun _ =>
    (findInDirectory_keeps h).bind fun located => ?_
  split
  · exact keeps_pure
  · exact keeps_get.bind fun _ => keeps_pure

theorem listAmong_keeps (h : Reads R) {continuation capacity : Nat} : ∀ {clusters : List Nat} {listing : Listing},
    Keeps R (listAmong continuation capacity clusters listing)
  | [], _ => keeps_pure
  | _ :: _, _ => by
    refine (loadDirectory_keeps h).bind fun _ => (scanLoadedDirectory_keeps h).bind fun _ => keeps_get.bind fun _ =>
      keeps_ofExcept.bind fun page => ?_
    cases page with
    | inl listing => exact listAmong_keeps h
    | inr page => exact keeps_pure

theorem enumerate_keeps (h : Reads R) {directory continuation : Nat} : Keeps R (enumerate directory continuation capacity) :=
  keeps_get.bind fun _ => keeps_failIf.bind fun _ => validateService_keeps.bind fun _ =>
    (directoryChain_keeps h).bind fun _ => listAmong_keeps h

theorem searchRecords_keeps (h : Reads R) {query : ExtensionQuery} {child : SearchBelow} {cluster : Nat} {path : Text}
    (hc : ∀ d path search, Keeps R (child d path search)) : ∀ {fuel index : Nat} {entries : List DirectoryEntry}
    {search : ExtensionSearch}, Keeps R (searchRecords query child cluster path fuel index entries search)
  | 0, _, _, _ => keeps_pure
  | fuel + 1, index, entries, search => by
    unfold searchRecords
    refine keeps_ite (fun _ => keeps_pure) fun _ => ?_
    split
    · exact keeps_pure
    · refine keeps_ite (fun _ => searchRecords_keeps h hc) fun _ => keeps_ofExcept.bind fun _ => keeps_ite (fun _ => ?_) fun _ => ?_
      · refine (hc _ _ _).bind fun _ => keeps_ite (fun _ => keeps_pure) fun _ => ?_
        exact (loadDirectory_keeps h).bind fun _ => (scanLoadedDirectory_keeps h).bind fun _ => keeps_failIf.bind fun _ =>
          searchRecords_keeps h hc
      · refine keeps_failIf.bind fun _ => keeps_get.bind fun _ => keeps_ofExcept.bind fun _ => ?_
        exact keeps_ite (fun _ => searchRecords_keeps h hc) fun _ => keeps_ite (fun _ => keeps_pure) fun _ => searchRecords_keeps h hc

theorem searchClusters_keeps (h : Reads R) {query : ExtensionQuery} {child : SearchBelow} {d : Nat} {path : Text}
    (hc : ∀ d path search, Keeps R (child d path search)) : ∀ {fuel index count : Nat} {search : ExtensionSearch},
    Keeps R (searchClusters query child d path fuel index count search)
  | 0, _, _, _ => keeps_pure
  | fuel + 1, index, count, search => by
    unfold searchClusters
    refine keeps_ite (fun _ => keeps_pure) fun _ => (directoryChain_keeps h).bind fun _ => ?_
    split
    · exact keeps_fail
    · exact (loadDirectory_keeps h).bind fun _ => (scanLoadedDirectory_keeps h).bind fun _ => (searchRecords_keeps h hc).bind fun _ =>
        searchClusters_keeps h hc

theorem searchDirectory_keeps (h : Reads R) {query : ExtensionQuery} : ∀ {levels d : Nat} {path : Text} {search : ExtensionSearch},
    Keeps R (searchDirectory query levels d path search)
  | 0, _, _, _ => (directoryChain_keeps h).bind fun _ => searchClusters_keeps h fun _ _ _ => keeps_fail
  | _ + 1, _, _, _ => (directoryChain_keeps h).bind fun _ => searchClusters_keeps h fun _ _ _ => searchDirectory_keeps h

theorem searchExtension_keeps (h : Reads R) {extension : Text} : Keeps R (searchExtension extension capacity) :=
  keeps_failIf.bind fun _ => validateService_keeps.bind fun _ => keeps_ofExcept.bind fun _ =>
    (searchDirectory_keeps h).bind fun _ => keeps_pure

theorem query_keeps (h : Reads R) {q : Query} : Keeps R q.run := by
  cases q with
  | lookup => exact (lookup_keeps h).map
  | enumerate => exact (enumerate_keeps h).map
  | read => exact (read_keeps h).map
  | readObject => exact (readObject_keeps h).map
  | searchExtension => exact (searchExtension_keeps h).map

end Reads

def Unchanged (s t : FileService) : Prop := s.Mounted → Quiet s t

instance : Std.Refl Unchanged := ⟨fun _ => Quiet.refl⟩

instance : IsTrans FileService Unchanged := ⟨fun _ _ _ h h' hm => (h hm).trans (h' ((h hm).mounted hm))⟩

theorem readCluster_stop (hv : ¬s.validDirectoryCluster cluster) : readCluster cluster s = (.error .corrupt, s) := by
  unfold readCluster
  rw [bind_ok (show get s = (.ok s, s) from rfl), failIf_bind hv]
  rfl

theorem readCluster_unchanged : Keeps Unchanged (readCluster cluster) := by
  intro s hm
  by_cases hv : s.validDirectoryCluster cluster
  · exact of_wp (wp_mono (readCluster_spec hm (hm.valid.mp hv)) (fun _ _ h => h.2.quiet) fun _ _ h => h.1.quiet)
  · rw [readCluster_stop hv]
    exact Quiet.refl hm

theorem reads_unchanged : Reads Unchanged where
  scratch h := fun s hm => (Quiet.refl hm).scratch (h s)
  readCluster := readCluster_unchanged

end FileService
end InferenceOS
