import InferenceOS.Gui.FileExplorerWindow
import InferenceOS.Theorems.Composition

/-! Clicks in the file explorer against the cells that were drawn. The cells fill whole rows and columns; clicks are mapped back
    through the columns only. -/

namespace InferenceOS
open Program FileExplorerModel

def GraphicsRect.Encloses (r : GraphicsRect) (x y : Int) : Prop := r.x.1 ≤ x ∧ x < r.right ∧ r.y.1 ≤ y ∧ y < r.bottom

namespace FileExplorerWindow
variable {μ : Type} {provider : FileExplorerProvider μ} {s t : FileExplorerWindow μ} {α : Type}
variable {visible : Nat} {drawn : List (Nat × GraphicsRect)}

structure SameLayout (s t : FileExplorerWindow μ) : Prop where
  surface : t.surface = s.surface
  first : t.firstVisibleIndex = s.firstVisibleIndex
  entries : t.model.entries = s.model.entries

instance : Std.Refl (@SameLayout μ) := ⟨fun _ => ⟨rfl, rfl, rfl⟩⟩

instance : IsTrans (FileExplorerWindow μ) SameLayout :=
  ⟨fun _ _ _ h h' => ⟨h'.surface.trans h.surface, h'.first.trans h.first, h'.entries.trans h.entries⟩⟩

theorem onPixels_sameLayout {m : Program IosError PixelMemory α} : Keeps SameLayout (@onPixels μ α m) := fun _ => ⟨rfl, rfl, rfl⟩

theorem onContext_sameLayout {m : Program IosError μ α} : Keeps SameLayout (onModel (onContext m)) :=
  fun _ => ⟨rfl, rfl, rfl⟩

theorem drawLabelRows_sameLayout {cell : GraphicsRect} {background : Color} {characters : Nat} {rows : List Nat} {label : Text} :
    Keeps SameLayout (@drawLabelRows μ cell background characters rows label) := by
  induction rows generalizing label with
  | nil => exact keeps_pure
  | cons row rows ih =>
    cases label with
    | nil => exact keeps_pure
    | cons character label => exact keeps_get.bind fun s => onPixels_sameLayout.bind fun _ => ih

theorem drawEntry_sameLayout {index : Nat} {entry : DisplaySafeEntry} {cell : GraphicsRect} :
    Keeps SameLayout (drawEntry provider index entry cell) := by
  have hrest : ∀ (s : FileExplorerWindow μ) (background : Color), Keeps SameLayout (do
      let icon ← onModel (onContext (provider.providerResolveIcon entry))
      onPixels (modify (s.surface.drawFileIcon icon (cell.x + (fileExplorerCellWidth - fileExplorerIconSize) / 2) (cell.y + 6)))
      drawLabel (Vfs.cString entry.displayName.toList) cell background : Program IosError (FileExplorerWindow μ) Unit) :=
    fun s background => onContext_sameLayout.bind fun icon => onPixels_sameLayout.bind fun _ =>
      keeps_get.bind fun _ => drawLabelRows_sameLayout
  unfold drawEntry
  refine keeps_get.bind fun s => ?_
  dsimp only
  split
  · exact onPixels_sameLayout.bind fun _ => hrest s _
  · exact hrest s _

theorem SameLayout.columnCount (h : SameLayout s t) : t.columnCount = s.columnCount := by
  unfold FileExplorerWindow.columnCount
  rw [h.surface]

theorem SameLayout.rowCount (h : SameLayout s t) : t.rowCount = s.rowCount := by
  unfold FileExplorerWindow.rowCount
  rw [h.surface]

theorem SameLayout.cellBounds (h : SameLayout s t) : t.cellBounds = s.cellBounds := by
  unfold FileExplorerWindow.cellBounds
  rw [h.columnCount]

/-- The surface has the sizes that `ios_file_explorer_window_initialize` accepts, and the entries fit in their array. -/
structure Accepted (s : FileExplorerWindow μ) : Prop where
  width : s.surface.width < 2 ^ 32
  height : fileExplorerHeaderHeight + fileExplorerIconSize ≤ s.surface.height ∧ s.surface.height < 2 ^ 32
  entries : s.model.entries.length ≤ fileExplorerEntryCapacity

theorem columnCount_pos : 0 < s.columnCount := by
  unfold columnCount
  dsimp only
  split
  · exact Nat.one_pos
  · rename_i hne
    exact Nat.pos_of_ne_zero hne

theorem row_above (h : s.Accepted) {row : Nat} (hrow : row < s.rowCount) :
    fileExplorerHeaderHeight + row * fileExplorerCellHeight < s.surface.height := by
  obtain ⟨hheight, -⟩ := h.height
  unfold rowCount at hrow
  unfold fileExplorerHeaderHeight fileExplorerIconSize fileExplorerCellHeight at *
  rw [if_neg (by omega)] at hrow
  dsimp only at hrow
  split at hrow
  · omega
  · have := Nat.div_mul_le_self (s.surface.height - 28) 92
    have := Nat.mul_le_mul_right 92 (Nat.succ_le_of_lt hrow)
    omega

theorem cellBounds_val (h : visible < fileExplorerEntryCapacity) :
    (s.cellBounds visible).x.1 = (visible % s.columnCount * fileExplorerCellWidth : Nat) ∧
      (s.cellBounds visible).y.1 = (fileExplorerHeaderHeight + visible / s.columnCount * fileExplorerCellHeight : Nat) := by
  have hcolumn : visible % s.columnCount < 64 := Nat.lt_of_le_of_lt (Nat.mod_le _ _) h
  have hrow : visible / s.columnCount < 64 := Nat.lt_of_le_of_lt (Nat.div_le_self _ _) h
  unfold cellBounds fileExplorerCellWidth fileExplorerCellHeight fileExplorerHeaderHeight
  dsimp only
  refine ⟨i32_val (by omega), ?_⟩
  rw [i32_val (v := ((visible / s.columnCount * 92 : Nat) : Int)) (by omega), i32_val (by omega)]
  omega

theorem Accepted.sameLayout (h : s.Accepted) (hs : SameLayout s t) : t.Accepted where
  width := hs.surface ▸ h.width
  height := hs.surface ▸ h.height
  entries := hs.entries ▸ h.entries

theorem i32_neg {v : Nat} (h : 2 ^ 31 ≤ v ∧ v < 2 ^ 32) : (i32 v).1 < 0 := by
  unfold i32 Int.bmod
  dsimp only
  omega

theorem break_iff (h : s.Accepted) (hcapacity : visible < fileExplorerEntryCapacity)
    (hvisible : visible < s.columnCount * s.rowCount) :
    (i32 s.surface.height).1 ≤ (s.cellBounds visible).y.1 ↔ ¬s.surface.height < 2 ^ 31 := by
  rw [(cellBounds_val hcapacity).2]
  have hrow := row_above h (Nat.div_lt_of_lt_mul hvisible)
  by_cases hheight : s.surface.height < 2 ^ 31
  · rw [i32_val (v := (s.surface.height : Int)) (by omega)]
    omega
  · have hneg := i32_neg ⟨Nat.le_of_not_lt hheight, h.height.2⟩
    omega

theorem renderCells_drawn (h : s.Accepted) {left : Nat}
    (hcells : visible + left = s.columnCount * s.rowCount) (hrun : renderCells provider left visible s = (.ok drawn, t)) :
    SameLayout s t ∧ ∀ p, p ∈ drawn ↔ s.surface.height < 2 ^ 31 ∧ ∃ v, visible ≤ v ∧ v < s.columnCount * s.rowCount ∧
      s.firstVisibleIndex + v < s.model.entries.length ∧ p = (s.firstVisibleIndex + v, s.cellBounds v) := by
  induction left generalizing s visible drawn with
  | zero =>
    cases hrun
    refine ⟨⟨rfl, rfl, rfl⟩, fun p => ⟨fun hp => absurd hp List.not_mem_nil, ?_⟩⟩
    rintro ⟨-, v, hlow, hhigh, -⟩
    omega
  | succ left ih =>
    have hvisible : visible < s.columnCount * s.rowCount := by omega
    unfold renderCells at hrun
    rw [get_bind] at hrun
    dsimp only at hrun
    rcases hentry : s.model.entries[s.firstVisibleIndex + visible]? with _ | entry
    · simp only [hentry] at hrun
      cases hrun
      refine ⟨⟨rfl, rfl, rfl⟩, fun p => ⟨fun hp => absurd hp List.not_mem_nil, ?_⟩⟩
      rintro ⟨-, v, hlow, -, hv, -⟩
      have := List.getElem?_eq_none_iff.mp hentry
      omega
    · simp only [hentry] at hrun
      have hindex := (List.getElem?_eq_some_iff.mp hentry).1
      have hcapacity : visible < fileExplorerEntryCapacity := by
        have := h.entries
        omega
      by_cases hbreak : (i32 s.surface.height).1 ≤ (s.cellBounds visible).y.1
      · rw [if_pos hbreak] at hrun
        cases hrun
        exact ⟨⟨rfl, rfl, rfl⟩, fun p => ⟨fun hp => absurd hp List.not_mem_nil,
          fun hp => absurd hp.1 ((break_iff h hcapacity hvisible).mp hbreak)⟩⟩
      · rw [if_neg hbreak] at hrun
        obtain ⟨_, u, hdraw, hrun⟩ := of_bind_run hrun
        obtain ⟨rest, v, hrest, hrun⟩ := of_bind_run hrun
        cases hrun
        have hsame : SameLayout s u := drawEntry_sameLayout.run hdraw
        obtain ⟨hsame', hdrawn⟩ := ih (h.sameLayout hsame) (by rw [hsame.columnCount, hsame.rowCount]; omega) hrest
        rw [hsame.columnCount, hsame.rowCount, hsame.surface, hsame.first, hsame.entries, hsame.cellBounds] at hdrawn
        refine ⟨IsTrans.trans _ _ _ hsame hsame', fun p => ?_⟩
        rw [List.mem_cons, hdrawn]
        constructor
        · rintro (rfl | ⟨hheight, v, hlow, hv⟩)
          · have hheight := not_not.mp (mt (break_iff h hcapacity hvisible).mpr hbreak)
            exact ⟨hheight, visible, Nat.le_refl _, hvisible, hindex, rfl⟩
          · exact ⟨hheight, v, Nat.le_of_succ_le hlow, hv⟩
        · rintro ⟨hheight, v, hlow, hhigh, hv, rfl⟩
          rcases Nat.eq_or_lt_of_le hlow with rfl | hlow
          · exact Or.inl rfl
          · exact Or.inr ⟨hheight, v, hlow, hhigh, hv, rfl⟩

theorem renderHeader_sameLayout : Keeps SameLayout (@renderHeader μ) := by
  unfold renderHeader
  refine keeps_get.bind fun s => keeps_failIf.bind fun _ => onPixels_sameLayout.bind fun _ => onPixels_sameLayout.bind fun _ =>
    onPixels_sameLayout.bind fun _ => ?_
  dsimp only
  exact keeps_ite (fun _ => onPixels_sameLayout) fun _ => keeps_pure

theorem windowRender_drawn (h : s.Accepted) (hrun : windowRender provider s = (.ok drawn, t)) :
    t.Accepted ∧ ∀ p, p ∈ drawn ↔ t.surface.height < 2 ^ 31 ∧ ∃ v < t.columnCount * t.rowCount,
      t.firstVisibleIndex + v < t.model.entries.length ∧ p = (t.firstVisibleIndex + v, t.cellBounds v) := by
  unfold windowRender at hrun
  obtain ⟨_, u, hheader, hrun⟩ := of_bind_run hrun
  rw [modify_bind, get_bind] at hrun
  have hsame : SameLayout s u := renderHeader_sameLayout.run hheader
  have haccepted : (if u.model.entries.length ≤ u.firstVisibleIndex then { u with firstVisibleIndex := 0 } else u).Accepted := by
    have hu := h.sameLayout hsame
    split
    · exact ⟨hu.width, hu.height, hu.entries⟩
    · exact hu
  obtain ⟨hlast, hdrawn⟩ := renderCells_drawn haccepted (Nat.zero_add _) hrun
  refine ⟨haccepted.sameLayout hlast, fun p => ?_⟩
  rw [hdrawn, hlast.columnCount, hlast.rowCount, hlast.cellBounds, hlast.surface, hlast.first, hlast.entries]
  simp only [Nat.zero_le, true_and]

/-- The point lies in the window. -/
def InWindow (s : FileExplorerWindow μ) (event : InputEvent) : Prop :=
  0 ≤ event.x ∧ event.x < s.surface.width ∧ 0 ≤ event.y ∧ event.y < s.surface.height

def pointColumn (event : InputEvent) : Nat := event.x.toNat / fileExplorerCellWidth
def pointRow (event : InputEvent) : Nat := (event.y - fileExplorerHeaderHeight).toNat / fileExplorerCellHeight

/-- The rows and columns go on over the whole window below the header, and the point is where an entry would stand. -/
structure OnEntry (s : FileExplorerWindow μ) (event : InputEvent) (i : Nat) : Prop where
  inWindow : s.InWindow event
  below : fileExplorerHeaderHeight ≤ event.y
  height : s.surface.height < 2 ^ 31
  column : pointColumn event < s.columnCount
  index : i = s.firstVisibleIndex + pointRow event * s.columnCount + pointColumn event
  entry : i < s.model.entries.length

/-- The entry that a click selects. -/
def selectedBy (s : FileExplorerWindow μ) (event : InputEvent) : Option Nat :=
  (s.clickedIndex event).filter fun i => i < s.model.entries.length

variable {event : InputEvent} {i : Nat}

theorem cell_encloses {v : Nat} (hv : v < fileExplorerEntryCapacity) : (s.cellBounds v).Encloses event.x event.y ↔
    0 ≤ event.x ∧ fileExplorerHeaderHeight ≤ event.y ∧ pointColumn event < s.columnCount ∧
      v = pointRow event * s.columnCount + pointColumn event := by
  obtain ⟨hx, hy⟩ := cellBounds_val (s := s) hv
  have hwidth : (s.cellBounds v).width.1 = 96 := i32_val (by decide)
  have hheight : (s.cellBounds v).height.1 = 92 := i32_val (by decide)
  have hplace : v / s.columnCount = pointRow event ∧ v % s.columnCount = pointColumn event ↔
      pointColumn event < s.columnCount ∧ v = pointRow event * s.columnCount + pointColumn event := by
    rw [Nat.div_mod_unique columnCount_pos, Nat.mul_comm s.columnCount]
    omega
  rw [← hplace]
  unfold GraphicsRect.Encloses GraphicsRect.right GraphicsRect.bottom pointColumn pointRow
  rw [hx, hy, hwidth, hheight]
  unfold fileExplorerCellWidth fileExplorerCellHeight fileExplorerHeaderHeight
  omega

theorem selectedBy_iff (h : s.Accepted) : s.selectedBy event = some i ↔ s.OnEntry event i ∧ s.surface.width < 2 ^ 31 := by
  have hwidth : s.surface.width < 2 ^ 31 ∧ (i32 s.surface.width).1 = s.surface.width ∨
      ¬s.surface.width < 2 ^ 31 ∧ (i32 s.surface.width).1 < 0 := by
    by_cases hw : s.surface.width < 2 ^ 31
    · exact Or.inl ⟨hw, i32_val (by omega)⟩
    · exact Or.inr ⟨hw, i32_neg ⟨Nat.le_of_not_lt hw, h.width⟩⟩
  have hheight : s.surface.height < 2 ^ 31 ∧ (i32 s.surface.height).1 = s.surface.height ∨
      ¬s.surface.height < 2 ^ 31 ∧ (i32 s.surface.height).1 < 0 := by
    by_cases hh : s.surface.height < 2 ^ 31
    · exact Or.inl ⟨hh, i32_val (by omega)⟩
    · exact Or.inr ⟨hh, i32_neg ⟨Nat.le_of_not_lt hh, h.height.2⟩⟩
  have hheader : (fileExplorerHeaderHeight : Int) = 28 := rfl
  unfold selectedBy clickedIndex
  rw [Option.filter_eq_some_iff, decide_eq_true_iff]
  constructor
  · rintro ⟨hclick, hentry⟩
    split at hclick
    · cases hclick
    · rename_i hinside
      dsimp only at hclick
      split at hclick
      · cases hclick
      · rename_i hcolumn
        refine ⟨⟨?_, ?_, ?_, Nat.lt_of_not_le hcolumn, (Option.some.inj hclick).symm, hentry⟩, ?_⟩
        · unfold InWindow
          omega
        · omega
        · omega
        · omega
  · rintro ⟨⟨hwindow, hbelow, hlimit, hcolumn, hindex, hentry⟩, hlimit'⟩
    unfold InWindow at hwindow
    have hx := (hwidth.resolve_right fun hw => hw.1 hlimit').2
    have hy := (hheight.resolve_right fun hh => hh.1 hlimit).2
    have hinside : ¬(event.x < 0 ∨ event.y < fileExplorerHeaderHeight ∨ (i32 s.surface.width).1 ≤ event.x ∨
        (i32 s.surface.height).1 ≤ event.y) := by
      rw [hx, hy]
      rintro (hout | hout | hout | hout)
      · exact Int.not_le.mpr hout hwindow.1
      · exact Int.not_le.mpr hout hbelow
      · exact Int.not_le.mpr hwindow.2.1 hout
      · exact Int.not_le.mpr hwindow.2.2.2 hout
    refine ⟨?_, hentry⟩
    rw [if_neg hinside, hindex]
    exact if_neg (Nat.not_le_of_lt hcolumn)

theorem drawn_iff (h : t.Accepted) (hdrawn : ∀ p, p ∈ drawn ↔ t.surface.height < 2 ^ 31 ∧
      ∃ v < t.columnCount * t.rowCount, t.firstVisibleIndex + v < t.model.entries.length ∧
        p = (t.firstVisibleIndex + v, t.cellBounds v)) :
    (t.InWindow event ∧ ∃ cell, (i, cell) ∈ drawn ∧ cell.Encloses event.x event.y) ↔
      t.OnEntry event i ∧ pointRow event < t.rowCount := by
  have hcapacity : ∀ {v}, t.firstVisibleIndex + v < t.model.entries.length → v < fileExplorerEntryCapacity := by
    intro v hv
    have := h.entries
    omega
  constructor
  · rintro ⟨hwindow, cell, hmem, hencloses⟩
    obtain ⟨hheight, v, hv, hentry, heq⟩ := (hdrawn _).mp hmem
    obtain ⟨rfl, rfl⟩ := Prod.mk.inj heq
    obtain ⟨-, hbelow, hcolumn, hplace⟩ := (cell_encloses (hcapacity hentry)).mp hencloses
    refine ⟨⟨hwindow, hbelow, hheight, hcolumn, by rw [hplace, Nat.add_assoc], hentry⟩, ?_⟩
    refine Nat.lt_of_mul_lt_mul_right (a := t.columnCount) ?_
    rw [Nat.mul_comm t.rowCount]
    omega
  · rintro ⟨⟨hwindow, hbelow, hheight, hcolumn, hindex, hentry⟩, hrow⟩
    rw [Nat.add_assoc] at hindex
    have hv : pointRow event * t.columnCount + pointColumn event < t.columnCount * t.rowCount :=
      calc pointRow event * t.columnCount + pointColumn event < (pointRow event + 1) * t.columnCount := by
            rw [Nat.succ_mul]
            omega
        _ ≤ t.columnCount * t.rowCount := by
            rw [Nat.mul_comm t.columnCount]
            exact Nat.mul_le_mul_right _ hrow
    refine ⟨hwindow, _, (hdrawn _).mpr ⟨hheight, _, hv, hindex ▸ hentry, Prod.ext hindex rfl⟩, ?_⟩
    exact (cell_encloses (hcapacity (hindex ▸ hentry))).mpr ⟨hwindow.1, hbelow, hcolumn, rfl⟩

def withSelection (s : FileExplorerWindow μ) (i : Nat) : FileExplorerWindow μ :=
  { s with model := { s.model with selectedIndex := i, hasSelection := true } }

theorem handleInput_selected (hclick : isClick event = true) (hselected : s.selectedBy event = some i) :
    handleInput provider event s = clickSelected provider event i (s.withSelection i) := by
  obtain ⟨hindex, hentry⟩ := Option.filter_eq_some_iff.mp hselected
  have hentry := of_decide_eq_true hentry
  have hselect : onModel (modelSelect i) s = (.ok (), s.withSelection i) := by
    unfold onModel zoom modelSelect
    rw [get_bind, failIf_pass (Nat.not_le_of_lt hentry)]
    rfl
  unfold handleInput handleClick
  rw [if_pos hclick, get_bind]
  simp only [hindex]
  rw [if_pos hentry, bind_ok hselect]

theorem handleInput_unselected (hclick : isClick event = true) (hselected : s.selectedBy event = none) :
    (handleInput provider event s).1 = .ok none ∧ (handleInput provider event s).2.model = s.model := by
  unfold handleInput handleClick
  rw [if_pos hclick, get_bind]
  rcases hindex : s.clickedIndex event with _ | i
  · exact ⟨rfl, rfl⟩
  · dsimp only
    rw [if_neg]
    · exact ⟨rfl, rfl⟩
    · intro hentry
      unfold selectedBy at hselected
      rw [hindex, Option.filter_some, if_pos (decide_eq_true hentry)] at hselected
      cases hselected

/-- A click after a successful render selects the entry in whose cell it is, exactly when no entry would stand at its point
    below the last row that was drawn; with a width that wrapped it is the other way around. -/
theorem click_hits_iff (h : s.Accepted) {drawn : List (Nat × GraphicsRect)} (hrun : windowRender provider s = (.ok drawn, t))
    (hclick : isClick event = true) :
    ((∀ i, t.selectedBy event = some i ↔ t.InWindow event ∧ ∃ cell, (i, cell) ∈ drawn ∧ cell.Encloses event.x event.y) ↔
      ¬∃ i, t.OnEntry event i ∧ ¬(pointRow event < t.rowCount ↔ t.surface.width < 2 ^ 31)) ∧
    (∀ i, t.selectedBy event = some i → handleInput provider event t = clickSelected provider event i (t.withSelection i)) ∧
    (t.selectedBy event = none → (handleInput provider event t).1 = .ok none ∧ (handleInput provider event t).2.model = t.model) := by
  obtain ⟨haccepted, hdrawn⟩ := windowRender_drawn h hrun
  refine ⟨?_, fun i => handleInput_selected hclick, handleInput_unselected hclick⟩
  constructor
  · rintro hhits ⟨i, hentry, hdiffer⟩
    have hhit := hhits i
    rw [selectedBy_iff haccepted, drawn_iff haccepted hdrawn] at hhit
    exact hdiffer ⟨fun hrow => (hhit.mpr ⟨hentry, hrow⟩).2, fun hwidth => (hhit.mp ⟨hentry, hwidth⟩).2⟩
  · intro hnone i
    rw [selectedBy_iff haccepted, drawn_iff haccepted hdrawn]
    refine and_congr_right fun hentry => ?_
    exact (not_not.mp fun hdiffer => hnone ⟨i, hentry, hdiffer⟩).symm

/-- A directory of two folders. -/
def folder (handle : Nat) (name : UInt8) : DisplaySafeEntry :=
  { DisplaySafeEntry.zero with
    size := displaySafeEntrySize
    version := displaySafeEntryVersion
    objectHandle := handle
    objectKind := displaySafeDirectory
    allowedOperations := displaySafeOperationEnumerate
    displayNameLength := 1
    displayName := fun i => if i.1 = 0 then name else 0 }

def twoFolders : FileExplorerProvider Unit where
  enumerate := fun _ _ => pure (fun i => if i = 0 then folder 2 (ascii 'A') else folder 3 (ascii 'B'), 2)
  resolveIcon := fun _ _ => pure (some .folder)

def stripWindow : FileExplorerWindow Unit where
  model := (modelInitialize twoFolders () 1).2
  surface := ⟨some 0, 96, 130, 96⟩
  font := ⟨some fun _ => 0xff, 2048, 128, 16, 8, 16, rasterFontMono1⟩
  title := some fileExplorerTitle
  location := "Folder: /".toList.map ascii
  locationHistory := fun _ => []
  backgroundColor := fileExplorerBackground
  selectionColor := fileExplorerSelection
  foregroundColor := fileExplorerForeground
  firstVisibleIndex := 0
  lastClickIndex := 0
  lastClickTicks := 0
  hasPendingClick := false
  pixels := fun _ => 0

def clickAt (x y : Int) : InputEvent := .ofButton 7 pointerButtonLeft true x y

def stripShown : FileExplorerWindow Unit := (windowRender twoFolders stripWindow).2

theorem stripWindow_render : windowRender twoFolders stripWindow = (.ok [(0, stripWindow.cellBounds 0)], stripShown) :=
  run_eq (of_toOption (by decide +kernel))

theorem stripWindow_accepted : stripWindow.Accepted := ⟨by decide, by decide, by decide⟩

theorem click_hits_iff_strip :
    (∀ i, stripShown.selectedBy (clickAt 10 60) = some i ↔ stripShown.InWindow (clickAt 10 60) ∧
        ∃ cell, (i, cell) ∈ [(0, stripWindow.cellBounds 0)] ∧ cell.Encloses 10 60) ↔
      ¬∃ i, stripShown.OnEntry (clickAt 10 60) i ∧
        ¬(pointRow (clickAt 10 60) < stripShown.rowCount ↔ stripShown.surface.width < 2 ^ 31) :=
  (click_hits_iff stripWindow_accepted stripWindow_render rfl).1

/-- A click on the strip selects the second folder, which is not drawn. -/
theorem strip_click_misses :
    windowInitialize stripWindow.model stripWindow.surface stripWindow.font stripWindow.pixels = .ok stripWindow ∧
    ∃ drawn t, windowRender twoFolders stripWindow = (.ok drawn, t) ∧ isClick (clickAt 10 125) = true ∧
      (handleInput twoFolders (clickAt 10 125) t).2.model.selectedIndex = 1 ∧
      ¬∀ i, t.selectedBy (clickAt 10 125) = some i ↔ t.InWindow (clickAt 10 125) ∧
        ∃ cell, (i, cell) ∈ drawn ∧ cell.Encloses 10 125 := by
  refine ⟨rfl, _, _, stripWindow_render, rfl, by decide +kernel, fun hhits => ?_⟩
  obtain ⟨-, cell, hcell, -⟩ := (hhits 1).mp (by decide +kernel)
  exact Nat.one_ne_zero (congrArg Prod.fst (List.mem_singleton.mp hcell))

end FileExplorerWindow
end InferenceOS
