import InferenceOS.Vfs.Path

/-! The search for files with an extension, `ios_fs_file_service_search_extension` of `file_service.c`. It
    walks the directories depth first, and every level of the recursion uses the same scratch buffers. -/

namespace InferenceOS
open Program

def searchResultCapacity : Nat := 16

/-- `struct ios_vfs_search_result`; the length of the path is the one of the text. -/
structure SearchResult where
  objectIdentity : Nat
  displayPath : Text
  deriving DecidableEq

/-- What `struct extension_search_state` is searched for. -/
structure ExtensionQuery where
  extension : Text
  hash : Bytes 8
  capacity : Nat

/-- What `struct extension_search_state` has found. -/
structure ExtensionSearch where
  results : List SearchResult
  truncated : Bool
  stop : Bool

/-- The loop of `ios_fs_extension_query_canonicalize`. -/
def extensionQueryFrom : Text → Text → Except IosError Text
  | [], output => .ok output
  | value :: rest, output =>
    if supportedNameByte (upperCase value) = false ∨ output.length = 3 then .error .invalidArgument
    else extensionQueryFrom rest (output ++ [upperCase value])

def extensionQueryCanonicalize (input : Text) : Except IosError Text := do
  if input = [] ∨ 4 < input.length then .error .invalidArgument
  let rest := if input.head? = some (ascii '.') then input.tail else input
  if rest = [] then .error .invalidArgument
  extensionQueryFrom rest []

def recordPairMatchesExtension (primaryDisk companionDisk : Slot) (extension : Text) (extensionHash : Bytes 8) :
    Except IosError Bool := do
  if extension = [] ∨ 3 < extension.length then .error .invalidArgument
  recordPairValidate companionDisk primaryDisk
  let primary ← primaryDecode primaryDisk
  let authoritative ← match nameExtension primary.name with
    | .error _ => .error .corrupt
    | .ok extension => .ok extension
  if companionDisk.slice 8 8 ≠ extensionHash then .ok false else .ok (authoritative = extension)

namespace FileService

def appendDisplayComponent (path : Text) (name : Name) : Except IosError Text :=
  let component := displayBaseName name
  let separator := if 1 < path.length then [ascii '/'] else []
  if component = [] ∨ pathMax < path.length ∨ pathMax - path.length < component.length + separator.length then .error .overflow
  else .ok (path ++ separator ++ component)

/-- The search below a directory: its first cluster, its path and what was found so far. -/
abbrev SearchBelow : Type := Nat → Text → ExtensionSearch → Service ExtensionSearch

/-- The loop of `search_directory` over the records of the cluster in the buffer. The directory is read and
    scanned again after each child. -/
def searchRecords (query : ExtensionQuery) (child : SearchBelow) (cluster : Nat) (path : Text) :
    Nat → Nat → List DirectoryEntry → ExtensionSearch → Service ExtensionSearch
  | 0, _, _, search => pure search
  | fuel + 1, index, entries, search =>
    if search.stop then pure search
    else
      match entries[index]? with
      | none => pure search
      | some entry =>
        if entry.kind = .internal then searchRecords query child cluster path fuel (index + 1) entries search
        else do
          let childPath ← ofExcept (appendDisplayComponent path entry.primary.name)
          if entry.kind = .directory then
            let search ← child entry.primary.firstCluster childPath search
            if search.stop then pure search
            else
              loadDirectory cluster
              let entries ← scanLoadedDirectory
              failIf (entries.length ≤ index) .corrupt
              searchRecords query child cluster path fuel (index + 1) entries search
          else
            let companionSlot := entry.companionSlot.getD directorySlots
            failIf (directorySlots ≤ entry.primarySlot ∨ directorySlots ≤ companionSlot) .corrupt
            let service ← get
            let same ← ofExcept (recordPairMatchesExtension (slotAt service.directory entry.primarySlot)
              (slotAt service.directory companionSlot) query.extension query.hash)
            if same = false then searchRecords query child cluster path fuel (index + 1) entries search
            else if search.results.length = query.capacity then pure { search with truncated := true, stop := true }
            else
              let result := ⟨fileIdentity service.mount.geometry cluster entry.primarySlot, childPath⟩
              searchRecords query child cluster path fuel (index + 1) entries
                { search with results := search.results ++ [result] }

/-- The loop of `search_directory` over the clusters of a directory, which walks the chain again in each turn. -/
def searchClusters (query : ExtensionQuery) (child : SearchBelow) (directoryCluster : Nat) (path : Text) :
    Nat → Nat → Nat → ExtensionSearch → Service ExtensionSearch
  | 0, _, _, search => pure search
  | fuel + 1, chainIndex, chainCount, search =>
    if chainCount ≤ chainIndex ∨ search.stop then pure search
    else do
      let clusters ← directoryChain directoryCluster
      match clusters[chainIndex]? with
      | none => fail .corrupt
      | some cluster =>
        loadDirectory cluster
        let entries ← scanLoadedDirectory
        let search ← searchRecords query child cluster path directorySlots 0 entries search
        searchClusters query child directoryCluster path fuel (chainIndex + 1) clusters.length search

/-- `search_directory` with `levels` more levels below; a directory further down is an error. -/
def searchDirectory (query : ExtensionQuery) : Nat → SearchBelow
  | 0 => fun directoryCluster path search => do
    let clusters ← directoryChain directoryCluster
    searchClusters query (fun _ _ _ => fail .corrupt) directoryCluster path maxClusters 0 clusters.length search
  | levels + 1 => fun directoryCluster path search => do
    let clusters ← directoryChain directoryCluster
    searchClusters query (searchDirectory query levels) directoryCluster path maxClusters 0 clusters.length search

/-- `ios_fs_file_service_search_extension`: the results and `truncated`. -/
def searchExtension (extension : Text) (capacity : Nat) : Service (List SearchResult × Bool) := do
  failIf (capacity = 0 ∨ searchResultCapacity < capacity) .invalidArgument
  validateService false
  let extension ← ofExcept (extensionQueryCanonicalize extension)
  let search ← searchDirectory ⟨extension, hashText (fnv1a32 extension), capacity⟩ maxDirectoryLevels rootCluster
    [ascii '/'] ⟨[], false, false⟩
  pure (search.results, search.truncated)

end FileService
end InferenceOS
