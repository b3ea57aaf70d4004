import InferenceOS.Kernel.TypeCatalog
import InferenceOS.Shell.DisplaySafe

/-! The entries of a directory in the file explorer, `gui/file_explorer/model.c` and `gui/file_explorer/view_provider.c`. -/

namespace InferenceOS
open Program

/-- `IOS_FILE_EXPLORER_ENTRY_CAPACITY` and `IOS_FILE_EXPLORER_HISTORY_CAPACITY`. -/
def fileExplorerEntryCapacity : Nat := 64
def fileExplorerHistoryCapacity : Nat := 16

def displaySafeOperationEnumerate : Nat := 2 ^ 5

/-- `struct ios_file_explorer_view_provider`, on what is behind its context. Enumeration fills in entries and their count; an icon
    that is none of `enum ios_presentation_icon` is `none`. -/
structure FileExplorerProvider (μ : Type) where
  enumerate : Nat → Nat → Program IosError μ ((Nat → DisplaySafeEntry) × Nat)
  resolveIcon : Nat → Nat → Program IosError μ (Option PresentationIcon)

namespace FileExplorerProvider
variable {μ : Type} (provider : FileExplorerProvider μ)

def providerEnumerate (directoryHandle capacity : Nat) : Program IosError μ (List DisplaySafeEntry) := do
  failIf (capacity = 0 ∨ directoryHandle = 0) .invalidArgument
  let (entries, entryCount) ← provider.enumerate directoryHandle capacity
  failIf (capacity < entryCount) .protocol
  pure ((List.range entryCount).map entries)

def providerResolveIcon (entry : DisplaySafeEntry) : Program IosError μ PresentationIcon := do
  let icon ← provider.resolveIcon entry.typeIconCapability entry.objectKind
  match icon with
  | none => fail .protocol
  | some icon => pure icon

end FileExplorerProvider

/-- `struct ios_file_explorer_model` without the provider's functions; the history has as many entries as `historyCount` says. -/
structure FileExplorerModel (μ : Type) where
  context : μ
  entries : List DisplaySafeEntry
  history : Nat → Nat
  directoryHandle : Nat
  selectedIndex : Nat
  historyCount : Nat
  hasSelection : Bool

namespace FileExplorerModel
variable {μ : Type} (provider : FileExplorerProvider μ)

/-- Run a program of the provider. -/
def onContext {α : Type} (m : Program IosError μ α) : Program IosError (FileExplorerModel μ) α :=
  zoom context (fun s context => { s with context }) m

def refreshDirectory (directoryHandle : Nat) : Program IosError (FileExplorerModel μ) Unit := do
  let pending ← onContext (provider.providerEnumerate directoryHandle fileExplorerEntryCapacity)
  match DisplaySafe.displaySafeEntriesDisambiguate fileExplorerEntryCapacity pending with
  | (.error e, _) => fail e
  | (.ok _, pending) => modify fun s => { s with
      entries := pending
      directoryHandle
      selectedIndex := 0
      hasSelection := false }

def modelInitialize (context : μ) (rootDirectoryHandle : Nat) : Except IosError Unit × FileExplorerModel μ :=
  let zeros : FileExplorerModel μ := ⟨context, [], fun _ => 0, 0, 0, 0, false⟩
  if rootDirectoryHandle = 0 then (.error .invalidArgument, zeros) else refreshDirectory provider rootDirectoryHandle zeros

def modelRefresh : Program IosError (FileExplorerModel μ) Unit := do
  let s ← get
  failIf (s.directoryHandle = 0) .invalidState
  refreshDirectory provider s.directoryHandle

def modelSelect (index : Nat) : Program IosError (FileExplorerModel μ) Unit := do
  let s ← get
  failIf (s.entries.length ≤ index) .outOfRange
  modify fun s => { s with selectedIndex := index, hasSelection := true }

def modelSelected (s : FileExplorerModel μ) : Option DisplaySafeEntry :=
  if s.hasSelection then s.entries[s.selectedIndex]? else none

def modelActivate : Program IosError (FileExplorerModel μ) Nat := do
  let s ← get
  match s.modelSelected with
  | none => fail .invalidState
  | some entry =>
    if entry.objectKind ≠ displaySafeDirectory then pure entry.objectHandle
    else do
      failIf (entry.allowedOperations &&& displaySafeOperationEnumerate = 0) .accessDenied
      failIf (fileExplorerHistoryCapacity ≤ s.historyCount) .noSpace
      refreshDirectory provider entry.objectHandle
      modify fun t => { t with
        history := Function.update t.history t.historyCount s.directoryHandle
        historyCount := t.historyCount + 1 }
      pure entry.objectHandle

def modelNavigateBack : Program IosError (FileExplorerModel μ) Unit := do
  let s ← get
  failIf (s.historyCount = 0) .notFound
  refreshDirectory provider (s.history (s.historyCount - 1))
  modify fun t => { t with historyCount := t.historyCount - 1 }

end FileExplorerModel
end InferenceOS
