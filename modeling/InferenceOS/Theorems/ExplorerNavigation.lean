import InferenceOS.Lib.History
import InferenceOS.Theorems.ExplorerClicks

/-! The way through the directories in the file explorer. The directory with its location, and the two arrays of the history, are one
    stack; arrow keys keep the selection among the entries and in view. -/

namespace InferenceOS
open Program Function

namespace FileExplorerModel
variable {μ : Type} (provider : FileExplorerProvider μ)

def reread (s : FileExplorerModel μ) (context : μ) (entries : List DisplaySafeEntry) (handle : Nat) : FileExplorerModel μ :=
  { s with context, entries, directoryHandle := handle, selectedIndex := 0, hasSelection := false }

theorem refreshDirectory_cases (s : FileExplorerModel μ) (handle : Nat) :
    (∃ context entries, refreshDirectory provider handle s = (.ok (), s.reread context entries handle)) ∨
      ∃ e context, refreshDirectory provider handle s = (.error e, { s with context }) := by
  unfold refreshDirectory
  rcases hrun : onContext (provider.providerEnumerate handle fileExplorerEntryCapacity) s with ⟨e | pending, t⟩
  · obtain ⟨-, rfl⟩ := Prod.mk.inj hrun
    exact Or.inr ⟨e, _, bind_error hrun⟩
  · obtain ⟨-, rfl⟩ := Prod.mk.inj hrun
    rw [bind_ok hrun]
    rcases DisplaySafe.displaySafeEntriesDisambiguate fileExplorerEntryCapacity pending with ⟨e | _, entries⟩
    · exact Or.inr ⟨e, _, rfl⟩
    · exact Or.inl ⟨_, entries, rfl⟩

theorem modelRefresh_cases (s : FileExplorerModel μ) :
    (∃ context entries, modelRefresh provider s = (.ok (), s.reread context entries s.directoryHandle)) ∨
      ∃ e context, modelRefresh provider s = (.error e, { s with context }) := by
  unfold modelRefresh
  rw [get_bind]
  by_cases hzero : s.directoryHandle = 0
  · rw [failIf_bind hzero]
    exact Or.inr ⟨_, _, rfl⟩
  · rw [failIf_pass hzero]
    exact refreshDirectory_cases provider s _

theorem modelActivate_cases (s : FileExplorerModel μ) :
    (∃ entry context entries, s.modelSelected = some entry ∧ entry.objectKind = displaySafeDirectory ∧
      modelActivate provider s = (.ok entry.objectHandle, { s.reread context entries entry.objectHandle with
        history := update s.history s.historyCount s.directoryHandle
        historyCount := s.historyCount + 1 })) ∨
    (∃ entry, s.modelSelected = some entry ∧ entry.objectKind ≠ displaySafeDirectory ∧
      modelActivate provider s = (.ok entry.objectHandle, s)) ∨
    ∃ e context, modelActivate provider s = (.error e, { s with context }) := by
  unfold modelActivate
  rw [get_bind]
  rcases hselected : s.modelSelected with _ | entry
  · exact Or.inr (Or.inr ⟨_, _, rfl⟩)
  · dsimp only
    by_cases hkind : entry.objectKind = displaySafeDirectory
    · rw [if_neg (not_not.mpr hkind)]
      by_cases hallowed : entry.allowedOperations &&& displaySafeOperationEnumerate = 0
      · rw [failIf_bind hallowed]
        exact Or.inr (Or.inr ⟨_, _, rfl⟩)
      · rw [failIf_pass hallowed]
        by_cases hfull : fileExplorerHistoryCapacity ≤ s.historyCount
        · rw [failIf_bind hfull]
          exact Or.inr (Or.inr ⟨_, _, rfl⟩)
        · rw [failIf_pass hfull]
          obtain ⟨context, entries, hrun⟩ | ⟨e, context, hrun⟩ := refreshDirectory_cases provider s entry.objectHandle
          · rw [bind_ok hrun]
            exact Or.inl ⟨entry, context, entries, rfl, hkind, rfl⟩
          · rw [bind_error hrun]
            exact Or.inr (Or.inr ⟨e, context, rfl⟩)
    · rw [if_pos hkind]
      exact Or.inr (Or.inl ⟨entry, rfl, hkind, rfl⟩)

theorem modelNavigateBack_cases (s : FileExplorerModel μ) :
    (∃ count context entries, s.historyCount = count + 1 ∧
      modelNavigateBack provider s = (.ok (), { s.reread context entries (s.history count) with historyCount := count })) ∨
    ∃ e context, modelNavigateBack provider s = (.error e, { s with context }) := by
  unfold modelNavigateBack
  rw [get_bind]
  by_cases hzero : s.historyCount = 0
  · rw [failIf_bind hzero]
    exact Or.inr ⟨_, _, rfl⟩
  · obtain ⟨count, hcount⟩ := Nat.exists_eq_succ_of_ne_zero hzero
    have hlast : s.historyCount - 1 = count := by omega
    rw [failIf_pass hzero, hlast]
    obtain ⟨context, entries, hrun⟩ | ⟨e, context, hrun⟩ := refreshDirectory_cases provider s (s.history count)
    · rw [bind_ok hrun]
      exact Or.inl ⟨count, context, entries, hcount, Prod.ext rfl (congrArg
        (fun n => { s.reread context entries (s.history count) with historyCount := n }) hlast)⟩
    · rw [bind_error hrun]
      exact Or.inr ⟨e, context, rfl⟩

end FileExplorerModel
open FileExplorerModel

namespace FileExplorerWindow
variable {μ : Type} {provider : FileExplorerProvider μ} {s t : FileExplorerWindow μ} {event : InputEvent}
variable {r : Except IosError (Option Nat)}

/-- The directory shown with its location, and those that are behind it in the history. -/
def places (s : FileExplorerWindow μ) : (Nat × Text) × List (Nat × Text) :=
  ((s.model.directoryHandle, s.location), (List.range s.model.historyCount).map fun i => (s.model.history i, s.locationHistory i))

structure Valid (s : FileExplorerWindow μ) : Prop where
  location : s.location.length < fileExplorerLocationCapacity
  locations : ∀ i < s.model.historyCount, (s.locationHistory i).length < fileExplorerLocationCapacity
  count : s.model.historyCount ≤ fileExplorerHistoryCapacity
  selection : s.model.hasSelection = true → s.model.selectedIndex < s.model.entries.length
  height : fileExplorerHeaderHeight < s.surface.height

structure SamePlaces (s t : FileExplorerWindow μ) : Prop where
  handle : t.model.directoryHandle = s.model.directoryHandle
  count : t.model.historyCount = s.model.historyCount
  history : ∀ i < s.model.historyCount, t.model.history i = s.model.history i
  location : t.location = s.location
  locations : ∀ i < s.model.historyCount, t.locationHistory i = s.locationHistory i
  surface : t.surface = s.surface

instance : Std.Refl (@SamePlaces μ) := ⟨fun _ => ⟨rfl, rfl, fun _ _ => rfl, rfl, fun _ _ => rfl, rfl⟩⟩

theorem SamePlaces.places (h : SamePlaces s t) : t.places = s.places := by
  unfold FileExplorerWindow.places
  rw [h.handle, h.location, h.count]
  refine Prod.ext rfl (List.map_congr_left fun i hi => ?_)
  have hi := List.mem_range.mp hi
  rw [h.history i hi, h.locations i hi]

theorem Valid.samePlaces (hs : s.Valid) (h : SamePlaces s t)
    (hselection : t.model.hasSelection = true → t.model.selectedIndex < t.model.entries.length) : t.Valid where
  location := h.location ▸ hs.location
  locations := fun i hi => by
    rw [h.count] at hi
    rw [h.locations i hi]
    exact hs.locations i hi
  count := h.count ▸ hs.count
  selection := hselection
  height := h.surface ▸ hs.height

theorem copyLocation_eq {location : Text} (h : location.length < fileExplorerLocationCapacity) : copyLocation location = location :=
  List.take_of_length_le (Nat.le_sub_one_of_lt h)

theorem directoryLocation_length {name : Text} : (directoryLocation name).length < fileExplorerLocationCapacity := by
  have hprefix : locationPrefix.length = 8 := rfl
  unfold directoryLocation
  rw [List.length_append, List.length_take, hprefix]
  unfold fileExplorerLocationCapacity
  omega

def pushed (s : FileExplorerWindow μ) (context : μ) (entries : List DisplaySafeEntry) (handle : Nat) (location : Text) :
    FileExplorerWindow μ :=
  { s with
    model := { s.model.reread context entries handle with
      history := update s.model.history s.model.historyCount s.model.directoryHandle
      historyCount := s.model.historyCount + 1 }
    location
    locationHistory := update s.locationHistory s.model.historyCount s.location
    firstVisibleIndex := 0 }

variable {context : μ} {entries : List DisplaySafeEntry} {handle : Nat} {location : Text}

theorem Valid.pushed (hs : s.Valid) (hcount : s.model.historyCount < fileExplorerHistoryCapacity)
    (hlocation : location.length < fileExplorerLocationCapacity) : (s.pushed context entries handle location).Valid where
  location := hlocation
  locations := Nat.forall_lt_succ_right.mpr ⟨fun i hi => by
    unfold FileExplorerWindow.pushed
    dsimp only
    rw [update_of_ne (Nat.ne_of_lt hi)]
    exact hs.locations i hi, by
    unfold FileExplorerWindow.pushed
    dsimp only
    rw [update_self]
    exact hs.location⟩
  count := hcount
  selection := nofun
  height := hs.height

theorem pushed_places : (s.pushed context entries handle location).places = ((handle, location), s.places.2 ++ [s.places.1]) := by
  refine Prod.ext rfl ?_
  unfold places pushed
  dsimp only [reread]
  rw [List.range_succ, List.map_append, List.map_singleton, update_self, update_self]
  refine congrArg (· ++ _) (List.map_congr_left fun i hi => ?_)
  have hne := Nat.ne_of_lt (List.mem_range.mp hi)
  rw [update_of_ne hne, update_of_ne hne]

inductive Activated (s : FileExplorerWindow μ) : Except IosError Nat → FileExplorerWindow μ → Prop
  | directory (entry : DisplaySafeEntry) (t : FileExplorerWindow μ) (hselected : s.model.modelSelected = some entry)
      (hkind : entry.objectKind = displaySafeDirectory) (hvalid : t.Valid)
      (hplaces : t.places = ((entry.objectHandle, directoryLocation (directoryName entry)), s.places.2 ++ [s.places.1])) :
      Activated s (.ok entry.objectHandle) t
  | file (entry : DisplaySafeEntry) (hselected : s.model.modelSelected = some entry)
      (hkind : entry.objectKind ≠ displaySafeDirectory) : Activated s (.ok entry.objectHandle) s
  | failed (e : IosError) (t : FileExplorerWindow μ) (hsame : SamePlaces s t) (hentries : t.model.entries = s.model.entries)
      (hvalid : t.Valid) : Activated s (.error e) t

theorem onModel_run {α : Type} {m : Program IosError (FileExplorerModel μ) α} {r : Except IosError α} {model : FileExplorerModel μ}
    (hm : m s.model = (r, model)) : onModel m s = (r, { s with model }) := by
  unfold onModel zoom
  rw [hm]

theorem activateSelection_activated (hs : s.Valid) :
    Activated s (activateSelection provider s).1 (activateSelection provider s).2 := by
  unfold activateSelection
  rw [get_bind]
  rcases hselected : s.model.modelSelected with _ | entry
  · exact .failed _ _ (Std.Refl.refl s) rfl hs
  · dsimp only
    by_cases hkind : entry.objectKind = displaySafeDirectory
    · rw [if_pos hkind]
      by_cases hfull : fileExplorerHistoryCapacity ≤ s.model.historyCount
      · rw [failIf_bind hfull]
        exact .failed _ _ (Std.Refl.refl s) rfl hs
      · rw [failIf_pass hfull, modify_bind, copyLocation_eq hs.location]
        have hmodel := fun {r model} => @onModel_run μ
          { s with locationHistory := update s.locationHistory s.model.historyCount s.location } Nat
          (modelActivate provider) r model
        obtain ⟨entry', context, entries, hselected', -, hrun⟩ | ⟨entry', hselected', hkind', -⟩ | ⟨e, context, hrun⟩ :=
          modelActivate_cases provider s.model
        · obtain rfl := Option.some.inj (hselected.symm.trans hselected')
          rw [bind_ok (hmodel hrun)]
          have hcount := Nat.lt_of_not_le hfull
          exact .directory entry (s.pushed context entries entry.objectHandle _) hselected hkind
            (hs.pushed hcount directoryLocation_length) pushed_places
        · obtain rfl := Option.some.inj (hselected.symm.trans hselected')
          exact absurd hkind hkind'
        · -- The location is behind the history.
          rw [bind_error (hmodel hrun)]
          have hbelow : ∀ i < s.model.historyCount,
              update s.locationHistory s.model.historyCount s.location i = s.locationHistory i :=
            fun i hi => update_of_ne (Nat.ne_of_lt hi) _ _
          have hsame : SamePlaces s { s with
              model := { s.model with context }
              locationHistory := update s.locationHistory s.model.historyCount s.location } :=
            ⟨rfl, rfl, fun _ _ => rfl, rfl, hbelow, rfl⟩
          exact .failed e _ hsame rfl (hs.samePlaces hsame hs.selection)
    · rw [if_neg hkind]
      obtain ⟨entry', context, entries, hselected', hkind', -⟩ | ⟨entry', hselected', -, hrun⟩ | ⟨e, context, hrun⟩ :=
        modelActivate_cases provider s.model
      · obtain rfl := Option.some.inj (hselected.symm.trans hselected')
        exact absurd hkind' hkind
      · obtain rfl := Option.some.inj (hselected.symm.trans hselected')
        rw [onModel_run hrun]
        exact .file entry hselected hkind
      · rw [onModel_run hrun]
        have hsame : SamePlaces s { s with model := { s.model with context } } := ⟨rfl, rfl, fun _ _ => rfl, rfl, fun _ _ => rfl, rfl⟩
        exact .failed e _ hsame rfl (hs.samePlaces hsame hs.selection)

/-- The last directory of the history, at the height `count`. -/
def popped (s : FileExplorerWindow μ) (context : μ) (entries : List DisplaySafeEntry) (count : Nat) : FileExplorerWindow μ :=
  { s with
    model := { s.model.reread context entries (s.model.history count) with historyCount := count }
    location := s.locationHistory count
    firstVisibleIndex := 0 }

variable {count : Nat}

theorem Valid.popped (hs : s.Valid) (hcount : s.model.historyCount = count + 1) : (s.popped context entries count).Valid where
  location := hs.locations count (by omega)
  locations := fun i (hi : i < count) => hs.locations i (by omega)
  count := by
    have hle := hs.count
    rw [hcount] at hle
    exact Nat.le_of_succ_le hle
  selection := nofun
  height := hs.height

theorem popped_places (hcount : s.model.historyCount = count + 1) :
    s.places.2 = (s.popped context entries count).places.2 ++ [(s.popped context entries count).places.1] := by
  unfold places popped
  dsimp only [reread]
  rw [hcount, List.range_succ, List.map_append, List.map_singleton]

theorem handleBackspace_cases (provider : FileExplorerProvider μ) (hs : s.Valid) :
    (∃ context entries count, s.model.historyCount = count + 1 ∧
      handleBackspace provider s = (.ok (), s.popped context entries count)) ∨
    ∃ e context, handleBackspace provider s = (.error e, { s with model := { s.model with context } }) := by
  unfold handleBackspace
  obtain ⟨count, context, entries, hcount, hrun⟩ | ⟨e, context, hrun⟩ := modelNavigateBack_cases provider s.model
  · refine Or.inl ⟨context, entries, count, hcount, ?_⟩
    rw [bind_ok (onModel_run hrun)]
    refine Prod.ext rfl ?_
    dsimp only [Program.modify]
    rw [copyLocation_eq (hs.locations count (by omega))]
    rfl
  · exact Or.inr ⟨e, context, bind_error (onModel_run hrun)⟩

theorem rowCount_pos (h : fileExplorerHeaderHeight < s.surface.height) : 0 < s.rowCount := by
  unfold rowCount
  rw [if_neg (Nat.not_le_of_lt h)]
  dsimp only
  split
  · exact Nat.one_pos
  · rename_i hne
    exact Nat.pos_of_ne_zero hne

theorem arrowIndex_lt (hs : s.Valid) (hentries : s.model.entries ≠ []) {code : UInt32} : s.arrowIndex code < s.model.entries.length := by
  have hpos := List.length_pos_of_ne_nil hentries
  have hstart : (if s.model.hasSelection then s.model.selectedIndex else 0) < s.model.entries.length := by
    split
    · exact hs.selection ‹_›
    · exact hpos
  unfold arrowIndex
  dsimp only
  generalize (if s.model.hasSelection then s.model.selectedIndex else 0) = index at hstart ⊢
  split_ifs
  all_goals omega

/-- The selected entry is among those shown. -/
def InView (s : FileExplorerWindow μ) : Prop :=
  s.firstVisibleIndex ≤ s.model.selectedIndex ∧ s.model.selectedIndex < s.firstVisibleIndex + s.columnCount * s.rowCount

theorem ensureSelectionVisible_inView (h : fileExplorerHeaderHeight < s.surface.height) : s.ensureSelectionVisible.InView := by
  have hcolumns := columnCount_pos (s := s)
  have hrows := rowCount_pos h
  have hcapacity : s.columnCount * s.rowCount ≠ 0 := Nat.mul_ne_zero (Nat.ne_of_gt hcolumns) (Nat.ne_of_gt hrows)
  have hlow := Nat.div_mul_le_self s.model.selectedIndex s.columnCount
  have hhigh := Nat.lt_div_mul_add hcolumns (a := s.model.selectedIndex)
  have hrow : s.columnCount ≤ s.columnCount * s.rowCount := Nat.le_mul_of_pos_right _ hrows
  unfold ensureSelectionVisible
  dsimp only
  rw [if_neg hcapacity]
  split
  · exact ⟨hlow, Nat.lt_of_lt_of_le hhigh (Nat.add_le_add_left hrow _)⟩
  · split
    · rename_i hbelow
      -- The row of the selection becomes the last one in view.
      obtain ⟨d, hd⟩ : ∃ d, s.model.selectedIndex / s.columnCount = s.rowCount + d := by
        refine Nat.exists_eq_add_of_le ((Nat.le_div_iff_mul_le hcolumns).mpr ?_)
        rw [Nat.mul_comm]
        omega
      have hfirst : s.model.selectedIndex / s.columnCount - s.rowCount + 1 = d + 1 := by omega
      have hproduct : (s.rowCount + d) * s.columnCount = s.columnCount * s.rowCount + d * s.columnCount := by ring
      rw [hd, hproduct] at hlow hhigh
      rw [hfirst]
      constructor
      · dsimp only
        rw [Nat.succ_mul]
        omega
      · change s.model.selectedIndex < (d + 1) * s.columnCount + s.columnCount * s.rowCount
        rw [Nat.succ_mul]
        omega
    · rename_i habove hbelow
      exact ⟨Nat.le_of_not_lt habove, Nat.lt_of_not_le hbelow⟩

/-- What the explorer does for its user: an input event, or a refresh of the model. -/
inductive ExplorerAction where
  | input (event : InputEvent)
  | refresh

/-- An action. -/
def act (provider : FileExplorerProvider μ) : ExplorerAction → Program IosError (FileExplorerWindow μ) (Option Nat)
  | .input event => handleInput provider event
  | .refresh => do
    onModel (modelRefresh provider)
    pure none

def isKeyPress (event : InputEvent) : Prop := event.type = inputEventKey ∧ event.flags &&& inputPressed ≠ 0

instance {event : InputEvent} : Decidable (isKeyPress event) := inferInstanceAs (Decidable (_ ∧ _))

/-- The entry that an action activates: the selected one by the enter key, the one under the point by a double click. -/
def activates (s : FileExplorerWindow μ) : ExplorerAction → Option DisplaySafeEntry
  | .input event =>
    if isClick event then (s.selectedBy event).bind fun i => if s.isDoubleClick event i then s.model.entries[i]? else none
    else if isKeyPress event ∧ event.code = keyEnter then s.model.modelSelected
    else none
  | .refresh => none

def goesBack : ExplorerAction → Prop
  | .input event => isKeyPress event ∧ event.code = keyBackspace
  | .refresh => False

inductive Outcome (s : FileExplorerWindow μ) (a : ExplorerAction) : Except IosError (Option Nat) → FileExplorerWindow μ → Prop
  | pushed (entry : DisplaySafeEntry) (t : FileExplorerWindow μ) (hentry : s.activates a = some entry)
      (hkind : entry.objectKind = displaySafeDirectory) (hvalid : t.Valid)
      (hplaces : t.places = ((entry.objectHandle, directoryLocation (directoryName entry)), s.places.2 ++ [s.places.1])) :
      Outcome s a (.ok (some entry.objectHandle)) t
  | popped (t : FileExplorerWindow μ) (hback : goesBack a) (hvalid : t.Valid) (hplaces : s.places.2 = t.places.2 ++ [t.places.1]) :
      Outcome s a (.ok none) t
  | stayed (r : Option Nat) (t : FileExplorerWindow μ) (hfile : ∀ entry, s.activates a = some entry → entry.objectKind ≠ displaySafeDirectory)
      (hback : ¬goesBack a) (hvalid : t.Valid) (hplaces : t.places = s.places) : Outcome s a (.ok r) t
  | failed (e : IosError) (t : FileExplorerWindow μ) (hvalid : t.Valid) (hplaces : t.places = s.places)
      (hentries : t.model.entries = s.model.entries) : Outcome s a (.error e) t

theorem Activated.outcome {u : FileExplorerWindow μ} {a : ExplorerAction} {r : Except IosError Nat} (h : Activated u r t)
    (hu : u.Valid) (hentry : u.model.modelSelected = s.activates a) (hback : ¬goesBack a) (hplaces : u.places = s.places)
    (hentries : u.model.entries = s.model.entries) : Outcome s a (some <$> r) t := by
  cases h with
  | directory entry t hselected hkind hvalid hdone =>
    rw [hplaces] at hdone
    exact .pushed entry t (hentry ▸ hselected) hkind hvalid hdone
  | file entry hselected hkind =>
    refine .stayed _ _ (fun other hother => ?_) hback hu hplaces
    rw [← hentry, hselected] at hother
    obtain rfl := Option.some.inj hother
    exact hkind
  | failed e t hsame hsame' hvalid => exact .failed e t hvalid (hsame.places.trans hplaces) (hsame'.trans hentries)

theorem map_run {σ α β : Type} {m : Program IosError σ α} {f : α → β} {s : σ} : (f <$> m) s = (f <$> (m s).1, (m s).2) := by
  rcases hm : m s with ⟨e | a, t⟩
  · exact bind_error hm
  · exact bind_ok hm

theorem handleInput_missed (provider : FileExplorerProvider μ) (hclick : isClick event = true) (hselected : s.selectedBy event = none) :
    ∃ pending, handleInput provider event s = (.ok none, { s with hasPendingClick := pending }) := by
  unfold handleInput handleClick
  rw [if_pos hclick, get_bind]
  rcases hindex : s.clickedIndex event with _ | i
  · exact ⟨s.hasPendingClick, rfl⟩
  · unfold selectedBy at hselected
    rw [hindex, Option.filter_some] at hselected
    dsimp only
    by_cases hentry : i < s.model.entries.length
    · rw [if_pos (decide_eq_true hentry)] at hselected
      cases hselected
    · rw [if_neg hentry]
      exact ⟨false, rfl⟩

theorem click_outcome (hs : s.Valid) (hclick : isClick event = true) :
    Outcome s (.input event) (handleInput provider event s).1 (handleInput provider event s).2 := by
  have hnokey : ¬isKeyPress event := by
    rintro ⟨htype, -⟩
    unfold isClick at hclick
    have hbutton := (of_decide_eq_true hclick).1
    rw [htype] at hbutton
    exact absurd hbutton (by decide)
  have hback : ¬goesBack (.input event) := fun h => hnokey h.1
  rcases hselected : s.selectedBy event with _ | i
  · obtain ⟨pending, hrun⟩ := handleInput_missed provider hclick hselected
    have hnone : s.activates (.input event) = none := by
      unfold activates
      dsimp only
      rw [if_pos hclick, hselected]
      rfl
    rw [hrun]
    refine .stayed none _ (fun entry hentry => ?_) hback ⟨hs.location, hs.locations, hs.count, hs.selection, hs.height⟩ rfl
    rw [hnone] at hentry
    cases hentry
  · have hentry := of_decide_eq_true (Option.filter_eq_some_iff.mp hselected).2
    rw [handleInput_selected hclick hselected]
    unfold clickSelected
    rw [get_bind]
    by_cases hdouble : s.isDoubleClick event i = true
    · have hactivates : s.activates (.input event) = s.model.entries[i]? := by
        unfold activates
        dsimp only
        rw [if_pos hclick, hselected, Option.bind_some, if_pos hdouble]
      have hdouble : (s.withSelection i).isDoubleClick event i = true := hdouble
      rw [if_pos hdouble, modify_bind, map_run]
      have hvalid : ({ s.withSelection i with hasPendingClick := false } : FileExplorerWindow μ).Valid :=
        ⟨hs.location, hs.locations, hs.count, fun _ => hentry, hs.height⟩
      exact (activateSelection_activated hvalid).outcome hvalid hactivates.symm hback rfl rfl
    · have hnone : s.activates (.input event) = none := by
        unfold activates
        dsimp only
        rw [if_pos hclick, hselected, Option.bind_some, if_neg hdouble]
      have hdouble : ¬(s.withSelection i).isDoubleClick event i = true := hdouble
      rw [if_neg hdouble]
      refine .stayed none _ (fun entry hentry => ?_) hback ⟨hs.location, hs.locations, hs.count, fun _ => hentry, hs.height⟩ rfl
      rw [hnone] at hentry
      cases hentry

theorem isKeyPress.noClick (h : isKeyPress event) : isClick event ≠ true := by
  intro hclick
  unfold isClick at hclick
  have hbutton := (of_decide_eq_true hclick).1
  rw [h.1] at hbutton
  exact absurd hbutton (by decide)

theorem arrow_run (provider : FileExplorerProvider μ) (hs : s.Valid) (hpress : isKeyPress event) (harrow : isArrow event.code = true) (hentries : s.model.entries ≠ []) :
    ∃ i < s.model.entries.length, handleInput provider event s =
      (.ok none, ({ s with hasPendingClick := false }.withSelection i).ensureSelectionVisible) := by
  have hindex : s.arrowIndex event.code < s.model.entries.length := arrowIndex_lt hs hentries
  refine ⟨_, hindex, ?_⟩
  have hselect : onModel (modelSelect (s.arrowIndex event.code)) { s with hasPendingClick := false } =
      (.ok (), { s with hasPendingClick := false }.withSelection (s.arrowIndex event.code)) := by
    unfold onModel zoom modelSelect
    rw [get_bind, failIf_pass (Nat.not_le_of_lt hindex)]
    rfl
  unfold handleInput
  rw [if_neg hpress.noClick, if_neg (not_or.mpr ⟨not_not.mpr hpress.1, hpress.2⟩), modify_bind, get_bind, if_pos harrow,
    if_neg hentries]
  exact bind_ok hselect

theorem isArrow_ne {code : UInt32} (h : isArrow code = true) : code ≠ keyEnter ∧ code ≠ keyBackspace := by
  constructor
  · rintro rfl
    exact absurd h (by decide)
  · rintro rfl
    exact absurd h (by decide)

theorem SamePlaces.ensureSelectionVisible : SamePlaces s s.ensureSelectionVisible := by
  unfold FileExplorerWindow.ensureSelectionVisible
  dsimp only
  split_ifs
  all_goals exact ⟨rfl, rfl, fun _ _ => rfl, rfl, fun _ _ => rfl, rfl⟩

theorem ensureSelectionVisible_model : s.ensureSelectionVisible.model = s.model := by
  unfold ensureSelectionVisible
  dsimp only
  split_ifs
  all_goals rfl

theorem key_outcome (hs : s.Valid) (hclick : isClick event ≠ true) :
    Outcome s (.input event) (handleInput provider event s).1 (handleInput provider event s).2 := by
  have hvalid : ({ s with hasPendingClick := false } : FileExplorerWindow μ).Valid :=
    ⟨hs.location, hs.locations, hs.count, hs.selection, hs.height⟩
  by_cases hpress : isKeyPress event
  · have hactivates : s.activates (.input event) = if event.code = keyEnter then s.model.modelSelected else none := by
      unfold activates
      dsimp only
      rw [if_neg hclick]
      exact if_congr (and_iff_right hpress) rfl rfl
    have hbranch : ¬(event.type ≠ inputEventKey ∨ event.flags &&& inputPressed = 0) :=
      not_or.mpr ⟨not_not.mpr hpress.1, hpress.2⟩
    have hstay : ∀ (r : Option Nat) (t : FileExplorerWindow μ), event.code ≠ keyEnter ∨ s.model.hasSelection ≠ true →
        event.code ≠ keyBackspace → t.Valid → t.places = s.places → Outcome s (.input event) (.ok r) t := by
      intro r t hcode hback ht hplaces
      refine .stayed r t (fun entry hentry => ?_) (fun h => hback h.2) ht hplaces
      rw [hactivates] at hentry
      unfold modelSelected at hentry
      rcases hcode with hcode | hcode
      · rw [if_neg hcode] at hentry
        cases hentry
      · rw [if_neg hcode, ite_self] at hentry
        cases hentry
    by_cases harrow : isArrow event.code = true
    · obtain ⟨hnoenter, hnoback⟩ := isArrow_ne harrow
      by_cases hentries : s.model.entries = []
      · unfold handleInput
        rw [if_neg hclick, if_neg hbranch, modify_bind, get_bind, if_pos harrow, if_pos hentries]
        exact hstay none _ (Or.inl hnoenter) hnoback hvalid rfl
      · obtain ⟨i, hi, hrun⟩ := arrow_run provider hs hpress harrow hentries
        have hselected : ({ s with hasPendingClick := false }.withSelection i : FileExplorerWindow μ).Valid :=
          ⟨hs.location, hs.locations, hs.count, fun _ => hi, hs.height⟩
        have hmoved := hselected.samePlaces .ensureSelectionVisible (by rw [ensureSelectionVisible_model]; exact hselected.selection)
        rw [hrun]
        exact hstay none _ (Or.inl hnoenter) hnoback hmoved SamePlaces.ensureSelectionVisible.places
    · unfold handleInput
      rw [if_neg hclick, if_neg hbranch, modify_bind, get_bind, if_neg harrow]
      by_cases henter : event.code = keyEnter ∧ s.model.hasSelection = true
      · have hnoback : ¬goesBack (.input event) := fun h => absurd (henter.1.symm.trans h.2) (by decide)
        rw [if_pos henter, map_run]
        exact (activateSelection_activated hvalid).outcome hvalid (by rw [hactivates, if_pos henter.1]) hnoback rfl rfl
      · rw [if_neg henter]
        by_cases hback : event.code = keyBackspace
        · rw [if_pos hback]
          obtain ⟨context, entries, count, hcount, hrun⟩ | ⟨e, context, hrun⟩ := handleBackspace_cases provider hvalid
          · rw [bind_ok hrun]
            exact .popped _ ⟨hpress, hback⟩ (hvalid.popped hcount) (popped_places hcount)
          · rw [bind_error hrun]
            exact .failed e _ ⟨hs.location, hs.locations, hs.count, hs.selection, hs.height⟩ rfl rfl
        · rw [if_neg hback]
          exact hstay none _ (not_and_or.mp henter) hback hvalid rfl
  · have hnone : s.activates (.input event) = none := by
      unfold activates
      dsimp only
      rw [if_neg hclick, if_neg fun h => hpress h.1]
    unfold handleInput
    rw [if_neg hclick, if_pos (not_and_or.mp hpress |>.imp id not_not.mp)]
    refine .stayed none s (fun entry hentry => ?_) (fun h => hpress h.1) hs rfl
    rw [hnone] at hentry
    cases hentry

theorem refresh_outcome (hs : s.Valid) :
    Outcome s .refresh (act provider .refresh s).1 (act provider .refresh s).2 := by
  rw [act]
  obtain ⟨context, entries, hrun⟩ | ⟨e, context, hrun⟩ := modelRefresh_cases provider s.model
  · rw [bind_ok (onModel_run hrun)]
    exact .stayed none _ nofun id ⟨hs.location, hs.locations, hs.count, nofun, hs.height⟩ rfl
  · rw [bind_error (onModel_run hrun)]
    exact .failed e _ ⟨hs.location, hs.locations, hs.count, hs.selection, hs.height⟩ rfl rfl

theorem act_outcome (provider : FileExplorerProvider μ) (hs : s.Valid) (a : ExplorerAction) : Outcome s a (act provider a s).1 (act provider a s).2 := by
  cases a with
  | input event =>
    by_cases hclick : isClick event = true
    · exact click_outcome hs hclick
    · exact key_outcome hs hclick
  | refresh => exact refresh_outcome hs

variable {a : ExplorerAction} {actions : List ExplorerAction}

def after (provider : FileExplorerProvider μ) (s : FileExplorerWindow μ) (a : ExplorerAction) : FileExplorerWindow μ :=
  (act provider a s).2

theorem Outcome.valid (h : Outcome s a r t) : t.Valid := by
  cases h with
  | pushed entry t hentry hkind hvalid hplaces => exact hvalid
  | popped t hback hvalid hplaces => exact hvalid
  | stayed r t hfile hback hvalid hplaces => exact hvalid
  | failed e t hvalid hplaces hentries => exact hvalid

theorem Outcome.historyStep (h : Outcome s a r t) : HistoryStep s.places t.places := by
  cases h with
  | pushed entry t hentry hkind hvalid hplaces =>
    rw [hplaces]
    exact .push _ _ _
  | popped t hback hvalid hplaces =>
    rw [← Prod.mk.eta (p := s.places), hplaces]
    exact .back _ _ _
  | stayed r t hfile hback hvalid hplaces =>
    rw [hplaces]
    exact .stay _
  | failed e t hvalid hplaces hentries =>
    rw [hplaces]
    exact .stay _

theorem Valid.foldl (provider : FileExplorerProvider μ) (actions : List ExplorerAction) (hs : s.Valid) :
    (actions.foldl (after provider) s).Valid := by
  induction actions generalizing s with
  | nil => exact hs
  | cons a actions ih => exact ih (act_outcome provider hs a).valid

theorem places_length : s.places.2.length = s.model.historyCount := by
  unfold places
  rw [List.length_map, List.length_range]

theorem foldl_kept {base : List (Nat × Text)} (hs : s.Valid) (hbase : base <+: s.places.2)
    (hheight : ∀ before rest, actions = before ++ rest → base.length ≤ (before.foldl (after provider) s).model.historyCount) :
    base <+: (actions.foldl (after provider) s).places.2 := by
  induction actions generalizing s with
  | nil => exact hbase
  | cons a actions ih =>
    have hstep := (act_outcome provider hs a)
    refine ih hstep.valid (hstep.historyStep.kept hbase ?_) fun before rest heq => hheight (a :: before) rest (congrArg (a :: ·) heq)
    rw [places_length]
    exact hheight [a] actions rfl

theorem valid_fresh {model : FileExplorerModel μ} {surface : GraphicsSurface} {font : Psf2Font} {pixels : PixelMemory}
    (hmodel : model.historyCount = 0 ∧ model.hasSelection = false)
    (h : windowInitialize model surface font pixels = .ok s) : s.Valid := by
  unfold windowInitialize at h
  split at h
  · cases h
  · rename_i hpass
    cases h
    have hlocation : ("Folder: /".toList.map ascii).length < fileExplorerLocationCapacity := by decide
    refine ⟨hlocation, fun i hi => ?_, ?_, fun hselection => ?_, ?_⟩
    · dsimp only at hi
      omega
    · dsimp only
      omega
    · exact absurd hselection (by rw [hmodel.2]; exact Bool.false_ne_true)
    · dsimp only
      unfold fileExplorerIconSize at hpass
      omega

theorem modelInitialize_fresh {context : μ} {root : Nat} {model : FileExplorerModel μ}
    (h : modelInitialize provider context root = (.ok (), model)) :
    model.historyCount = 0 ∧ model.hasSelection = false := by
  unfold modelInitialize at h
  dsimp only at h
  split at h
  · cases h
  · obtain ⟨context', entries, hrun⟩ | ⟨e, context', hrun⟩ :=
      refreshDirectory_cases provider ⟨context, [], fun _ => 0, 0, 0, 0, false⟩ root
    · rw [hrun] at h
      cases h
      exact ⟨rfl, rfl⟩
    · rw [hrun] at h
      cases h

theorem goesBack.activates (h : goesBack a) : s.activates a = none := by
  cases a with
  | input event =>
    obtain ⟨hpress, hcode⟩ := h
    unfold FileExplorerWindow.activates
    dsimp only
    rw [if_neg hpress.noClick, if_neg]
    rintro ⟨-, henter⟩
    exact absurd (hcode.symm.trans henter) (by decide)
  | refresh => cases h

theorem Outcome.of_activates {v : Option Nat} {entry : DisplaySafeEntry} (h : Outcome s a (.ok v) t) (hentry : s.activates a = some entry)
    (hkind : entry.objectKind = displaySafeDirectory) :
    t.places = ((entry.objectHandle, directoryLocation (directoryName entry)), s.places.2 ++ [s.places.1]) := by
  cases h with
  | pushed entry' t hentry' hkind' hvalid hplaces =>
    obtain rfl := Option.some.inj (hentry.symm.trans hentry')
    exact hplaces
  | popped t hback hvalid hplaces =>
    rw [hback.activates] at hentry
    cases hentry
  | stayed r t hfile hback hvalid hplaces => exact absurd hkind (hfile entry hentry)

theorem Outcome.of_goesBack {v : Option Nat} (h : Outcome s a (.ok v) t) (hback : goesBack a) :
    s.places.2 = t.places.2 ++ [t.places.1] := by
  cases h with
  | pushed entry t hentry hkind hvalid hplaces =>
    rw [hback.activates] at hentry
    cases hentry
  | popped t hback hvalid hplaces => exact hplaces
  | stayed r t hfile hno hvalid hplaces => exact absurd hback hno

theorem Outcome.of_error {e : IosError} (h : Outcome s a (.error e) t) : t.places = s.places ∧ t.model.entries = s.model.entries := by
  cases h with
  | failed e t hvalid hplaces hentries => exact ⟨hplaces, hentries⟩

theorem Outcome.of_other (h : Outcome s a r t)
    (hfile : ∀ entry, s.activates a = some entry → entry.objectKind ≠ displaySafeDirectory) (hback : ¬goesBack a) :
    t.places = s.places := by
  cases h with
  | pushed entry t hentry hkind hvalid hplaces => exact absurd hkind (hfile entry hentry)
  | popped t hgoes hvalid hplaces => exact absurd hgoes hback
  | stayed r t hfile hback hvalid hplaces => exact hplaces
  | failed e t hvalid hplaces hentries => exact hplaces

theorem arrow_inView (hs : s.Valid) (hpress : isKeyPress event) (harrow : isArrow event.code = true) (hentries : s.model.entries ≠ []) :
    let t := after provider s (.input event)
    (act provider (.input event) s).1 = .ok none ∧ t.model.hasSelection = true ∧ t.model.selectedIndex < t.model.entries.length ∧
      t.InView := by
  obtain ⟨i, hi, hrun⟩ := arrow_run provider hs hpress harrow hentries
  unfold after
  rw [act, hrun]
  refine ⟨rfl, ?_, ?_, ensureSelectionVisible_inView hs.height⟩
  · rw [ensureSelectionVisible_model]
    rfl
  · rw [ensureSelectionVisible_model]
    exact hi

theorem matching_places (hs : s.Valid) {middle : List ExplorerAction} {b : ExplorerAction}
    (hpush : (after provider s a).places.2 = s.places.2 ++ [s.places.1])
    (habove : ∀ before rest, middle = before ++ rest →
      s.model.historyCount < (before.foldl (after provider) (after provider s a)).model.historyCount)
    (hlevel : (middle.foldl (after provider) (after provider s a)).model.historyCount = s.model.historyCount + 1) (hback : goesBack b)
    {v : Option Nat} (hok : (act provider b (middle.foldl (after provider) (after provider s a))).1 = .ok v) :
    (after provider (middle.foldl (after provider) (after provider s a)) b).places = s.places := by
  have ht : (after provider s a).Valid := (act_outcome provider hs a).valid
  have hlength : (s.places.2 ++ [s.places.1]).length = s.model.historyCount + 1 := by
    rw [List.length_append, List.length_singleton, places_length]
  have hkept : s.places.2 ++ [s.places.1] <+: (middle.foldl (after provider) (after provider s a)).places.2 := by
    refine foldl_kept ht (hpush ▸ List.prefix_refl _) fun before rest heq => ?_
    rw [hlength]
    exact habove before rest heq
  have hout := act_outcome provider (ht.foldl provider middle) b
  rw [hok] at hout
  exact HistoryStep.restored hkept (by rw [places_length, places_length]; exact hlevel) (hout.of_goesBack hback)

/-- Over all runs of a started explorer the directory with its location and the history are one stack. An activation of a directory
    pushes, backspace pops, nothing else moves; backspace comes back to where the matching activation was; and an arrow key leaves
    the selection on an entry in view. -/
theorem explorer_navigation {context : μ} {root : Nat} {model : FileExplorerModel μ} {surface : GraphicsSurface} {font : Psf2Font}
    {pixels : PixelMemory} (hmodel : modelInitialize provider context root = (.ok (), model))
    {start : FileExplorerWindow μ} (hwindow : windowInitialize model surface font pixels = .ok start)
    (actions : List ExplorerAction) (a : ExplorerAction) :
    let s := actions.foldl (after provider) start
    let t := after provider s a
    let r := (act provider a s).1
    (∀ entry v, s.activates a = some entry → entry.objectKind = displaySafeDirectory → r = .ok v →
      t.places = ((entry.objectHandle, directoryLocation (directoryName entry)), s.places.2 ++ [s.places.1]) ∧
      ∀ (middle : List ExplorerAction) (b : ExplorerAction) (w : Option Nat),
        (∀ before rest, middle = before ++ rest →
          s.model.historyCount < (List.foldl (after provider) t before).model.historyCount) →
        (middle.foldl (after provider) t).model.historyCount = s.model.historyCount + 1 → goesBack b →
        (act provider b (middle.foldl (after provider) t)).1 = .ok w →
        (after provider (middle.foldl (after provider) t) b).places = s.places) ∧
    (∀ v, goesBack a → r = .ok v → s.places.2 = t.places.2 ++ [t.places.1]) ∧
    (∀ e, r = .error e → t.places = s.places ∧ t.model.entries = s.model.entries) ∧
    ((∀ entry, s.activates a = some entry → entry.objectKind ≠ displaySafeDirectory) → ¬goesBack a → t.places = s.places) ∧
    (∀ event, a = .input event → isKeyPress event → isArrow event.code = true → s.model.entries ≠ [] →
      r = .ok none ∧ t.model.hasSelection = true ∧ t.model.selectedIndex < t.model.entries.length ∧ t.InView) := by
  have hs : (actions.foldl (after provider) start).Valid := (valid_fresh (modelInitialize_fresh hmodel) hwindow).foldl provider actions
  generalize actions.foldl (after provider) start = s at hs
  have hout := act_outcome provider hs a
  refine ⟨fun entry v hentry hkind hok => ?_, fun v hback hok => ?_, fun e herror => ?_, hout.of_other, ?_⟩
  · rw [hok] at hout
    have hplaces := hout.of_activates hentry hkind
    refine ⟨hplaces, fun middle b w habove hlevel hback hok => ?_⟩
    exact matching_places hs (congrArg Prod.snd hplaces) habove hlevel hback hok
  · rw [hok] at hout
    exact hout.of_goesBack hback
  · rw [herror] at hout
    exact hout.of_error
  · rintro event rfl hpress harrow hentries
    exact arrow_inView hs hpress harrow hentries

theorem twoFolders_initialize : modelInitialize twoFolders () 1 = (.ok (), stripWindow.model) :=
  run_eq (of_toOption (by decide +kernel))

def pressed (code : UInt32) : ExplorerAction := .input (.ofKey 0 code 0 inputPressed)

/-- An arrow key in a directory of two folders, then the enter key, then backspace. -/
theorem explorer_navigation_enter :
    let s := after twoFolders stripWindow (pressed keyRight)
    let t := after twoFolders s (pressed keyEnter)
    s.InView ∧ t.places.2 = s.places.2 ++ [s.places.1] ∧ (after twoFolders t (pressed keyBackspace)).places = s.places := by
  intro s t
  have hwindow : windowInitialize stripWindow.model stripWindow.surface stripWindow.font stripWindow.pixels = .ok stripWindow := rfl
  have harrow := (explorer_navigation twoFolders_initialize hwindow [] (pressed keyRight)).2.2.2.2 _
    rfl (by decide) (by decide) (fun hnil => absurd (congrArg List.length hnil) (by decide +kernel))
  have henter := (explorer_navigation twoFolders_initialize hwindow [pressed keyRight] (pressed keyEnter)).1
  have hkind : (s.activates (pressed keyEnter)).map (·.objectKind) = some displaySafeDirectory := by decide +kernel
  obtain ⟨entry, hactivates, hdirectory⟩ := Option.map_eq_some_iff.mp hkind
  have hv : (act twoFolders (pressed keyEnter) s).1 = .ok (some 3) := of_toOption (by decide +kernel)
  have hw : (act twoFolders (pressed keyBackspace) t).1 = .ok none := of_toOption (by decide +kernel)
  have hcount : t.model.historyCount = s.model.historyCount + 1 := by decide +kernel
  obtain ⟨hplaces, hback⟩ := henter entry _ hactivates hdirectory hv
  refine ⟨harrow.2.2.2, congrArg Prod.snd hplaces, hback [] _ _ (fun before rest hsplit => ?_) hcount ⟨by decide, rfl⟩ hw⟩
  rw [(List.append_eq_nil_iff.mp hsplit.symm).1]
  exact hcount ▸ Nat.lt_succ_self _

end FileExplorerWindow
end InferenceOS
