import InferenceOS.Gui.FileExplorer
import InferenceOS.Gui.Input
import InferenceOS.Gui.Text
import InferenceOS.Vfs.Path

/-! The window of the file explorer, `gui/file_explorer/window.c`: its cells, its clicks and its way through the directories. -/

namespace InferenceOS
open Program

/-- The sizes of `enum` in `gui/file_explorer.h`. -/
def fileExplorerHeaderHeight : Nat := 28
def fileExplorerCellWidth : Nat := 96
def fileExplorerCellHeight : Nat := 92
def fileExplorerIconSize : Nat := 32
def fileExplorerDoubleClickTicks : UInt64 := 50
def fileExplorerLocationCapacity : Nat := displaySafeNameCapacity + 9

/-- The colors of `window.c`. -/
def fileExplorerBackground : Color := 0x00f2f2f2
def fileExplorerHeader : Color := 0x00344f70
def fileExplorerSelection : Color := 0x003878d8
def fileExplorerForeground : Color := 0x00202020
def fileExplorerIconPage : Color := 0x00ffffff
def fileExplorerIconTextColor : Color := 0x004f81bd
def fileExplorerIconImageColor : Color := 0x003e9b52
def fileExplorerIconApplicationColor : Color := 0x00934db1
def fileExplorerIconFolderColor : Color := 0x00d6a832
def fileExplorerIconGenericColor : Color := 0x00808080
def fileExplorerIconDark : Color := 0x00303030

def fileExplorerTitle : Text := "File Explorer".toList.map ascii

/-- `struct ios_file_explorer_window` with its model and the pixels of its surface. The location is the text in the storage. -/
structure FileExplorerWindow (μ : Type) where
  model : FileExplorerModel μ
  surface : GraphicsSurface
  font : Psf2Font
  title : Option Text
  location : Text
  locationHistory : Nat → Text
  backgroundColor : Color
  selectionColor : Color
  foregroundColor : Color
  firstVisibleIndex : Nat
  lastClickIndex : Nat
  lastClickTicks : UInt64
  hasPendingClick : Bool
  pixels : PixelMemory

/-! ### Icons -/

namespace GraphicsSurface
variable (surface : GraphicsSurface)

/-- A rectangle at a place. -/
def rectangle (x y width height : Int) : GraphicsRect := ⟨i32 x, i32 y, i32 width, i32 height⟩

/-- A line of an icon; none of them has more than 32 points. -/
def drawIconLine (x0 y0 x1 y1 : Int) (color : Color) (pixels : PixelMemory) : PixelMemory :=
  ((surface.drawLine (i32 x0) (i32 y0) (i32 x1) (i32 y1) color 32 pixels).map Prod.snd).getD pixels

def drawFileIcon (icon : PresentationIcon) (x y : Int) (pixels : PixelMemory) : PixelMemory :=
  let drawPage := fun color pixels =>
    surface.drawBorder (rectangle (x + 3) y 26 32) color (surface.fillRect (rectangle (x + 3) y 26 32) fileExplorerIconPage pixels)
  match icon with
  | .folder =>
    let pixels := surface.fillRect (rectangle (x + 2) (y + 5) 13 7) fileExplorerIconFolderColor pixels
    let pixels := surface.fillRect (rectangle x (y + 10) 32 21) fileExplorerIconFolderColor pixels
    surface.drawBorder (rectangle x (y + 10) 32 21) fileExplorerIconDark pixels
  | .application =>
    let pixels := surface.fillRect (rectangle x y 32 32) fileExplorerIconApplicationColor pixels
    let pixels := surface.drawBorder (rectangle x y 32 32) fileExplorerIconDark pixels
    [0, 1].foldl (fun pixels (row : Int) => [0, 1].foldl (fun pixels (column : Int) =>
      surface.fillRect (rectangle (x + 7 + column * 11) (y + 7 + row * 11) 7 7) fileExplorerIconPage pixels) pixels) pixels
  | .text =>
    [0, 1, 2].foldl (fun pixels (line : Int) => surface.drawIconLine (x + 8) (y + 9 + line * 6) (x + 23) (y + 9 + line * 6)
      fileExplorerIconTextColor pixels) (drawPage fileExplorerIconTextColor pixels)
  | .image =>
    let pixels := drawPage fileExplorerIconImageColor pixels
    let pixels := surface.fillRect (rectangle (x + 7) (y + 6) 18 20) 0x00d8f0ff pixels
    let pixels := surface.drawIconLine (x + 7) (y + 25) (x + 14) (y + 16) fileExplorerIconImageColor pixels
    let pixels := surface.drawIconLine (x + 14) (y + 16) (x + 24) (y + 25) fileExplorerIconImageColor pixels
    surface.fillRect (rectangle (x + 19) (y + 9) 4 4) fileExplorerIconFolderColor pixels
  | .genericFile =>
    let pixels := drawPage fileExplorerIconGenericColor pixels
    let pixels := surface.drawIconLine (x + 9) (y + 10) (x + 22) (y + 23) fileExplorerIconGenericColor pixels
    surface.drawIconLine (x + 22) (y + 10) (x + 9) (y + 23) fileExplorerIconGenericColor pixels

end GraphicsSurface

namespace FileExplorerWindow
variable {μ : Type} (provider : FileExplorerProvider μ)

/-! ### Cells -/

def columnCount (s : FileExplorerWindow μ) : Nat :=
  let count := s.surface.width / fileExplorerCellWidth
  if count = 0 then 1 else count

def rowCount (s : FileExplorerWindow μ) : Nat :=
  if s.surface.height ≤ fileExplorerHeaderHeight then 0
  else
    let count := (s.surface.height - fileExplorerHeaderHeight) / fileExplorerCellHeight
    if count = 0 then 1 else count

def cellBounds (s : FileExplorerWindow μ) (visibleIndex : Nat) : GraphicsRect :=
  let columns := s.columnCount
  ⟨i32 (visibleIndex % columns * fileExplorerCellWidth : Nat),
    i32 (fileExplorerHeaderHeight + (i32 (visibleIndex / columns * fileExplorerCellHeight : Nat)).1),
    i32 fileExplorerCellWidth, i32 fileExplorerCellHeight⟩

/-- Run a program of the model. -/
def onModel {α : Type} (m : Program IosError (FileExplorerModel μ) α) : Program IosError (FileExplorerWindow μ) α :=
  zoom model (fun s model => { s with model }) m

/-- Draw on the pixels. -/
def onPixels {α : Type} (m : Program IosError PixelMemory α) : Program IosError (FileExplorerWindow μ) α :=
  zoom pixels (fun s pixels => { s with pixels }) m

/-- `ios_file_explorer_window_initialize`, on the pixels that the surface has. -/
def windowInitialize (model : FileExplorerModel μ) (surface : GraphicsSurface) (font : Psf2Font) (pixels : PixelMemory) :
    Except IosError (FileExplorerWindow μ) :=
  if font.glyphs.isNone ∨ font.width = 0 ∨ font.height = 0 ∨ surface.isValid = false ∨
      surface.width < fileExplorerIconSize + 8 ∨ surface.height < fileExplorerHeaderHeight + fileExplorerIconSize then
    .error .invalidArgument
  else .ok {
    model, surface, font, pixels
    title := some fileExplorerTitle
    location := "Folder: /".toList.map ascii
    locationHistory := fun _ => []
    backgroundColor := fileExplorerBackground
    selectionColor := fileExplorerSelection
    foregroundColor := fileExplorerForeground
    firstVisibleIndex := 0
    lastClickIndex := 0
    lastClickTicks := 0
    hasPendingClick := false }

/-! ### Rendering -/

/-- The loop of `draw_label` over the rows that are left, for the part of the label that is left. -/
def drawLabelRows (cell : GraphicsRect) (background : Color) (characters : Nat) :
    List Nat → Text → Program IosError (FileExplorerWindow μ) Unit
  | [], _ => pure ()
  | _, [] => pure ()
  | row :: rows, label => do
    let s ← get
    onPixels (s.surface.drawText s.font (label.take characters) (i32 (cell.x + 4))
      (i32 (cell.y + fileExplorerIconSize + 12 + (i32 (row * s.font.height : Nat)).1)) s.foregroundColor background false)
    drawLabelRows cell background characters rows (label.drop characters)

def drawLabel (label : Text) (cell : GraphicsRect) (background : Color) : Program IosError (FileExplorerWindow μ) Unit := do
  let s ← get
  let characters := (fileExplorerCellWidth - 8) / s.font.width
  drawLabelRows cell background (if characters = 0 then 1 else characters) [0, 1] label

/-- A cell with its entry. -/
def drawEntry (index : Nat) (entry : DisplaySafeEntry) (cell : GraphicsRect) : Program IosError (FileExplorerWindow μ) Unit := do
  let s ← get
  let isSelected : Bool := s.model.hasSelection ∧ s.model.selectedIndex = index
  if isSelected then
    onPixels (modify (s.surface.fillRect
      ⟨i32 (cell.x + 2), i32 (cell.y + 2), i32 (cell.width - 4), i32 (cell.height - 4)⟩ s.selectionColor))
  else pure ()
  let icon ← onModel (FileExplorerModel.onContext (provider.providerResolveIcon entry))
  onPixels (modify (s.surface.drawFileIcon icon (cell.x + (fileExplorerCellWidth - fileExplorerIconSize) / 2) (cell.y + 6)))
  drawLabel (Vfs.cString entry.displayName.toList) cell (if isSelected then s.selectionColor else s.backgroundColor)

/-- The loop of `ios_file_explorer_window_render` over the cells that are left: the entries that it draws, with their cells. -/
def renderCells : Nat → Nat → Program IosError (FileExplorerWindow μ) (List (Nat × GraphicsRect))
  | 0, _ => pure []
  | left + 1, visible => do
    let s ← get
    let index := s.firstVisibleIndex + visible
    match s.model.entries[index]? with
    | none => pure []
    | some entry =>
      let cell := s.cellBounds visible
      if (i32 s.surface.height).1 ≤ cell.y then pure []
      else do
        drawEntry provider index entry cell
        let drawn ← renderCells left (visible + 1)
        pure ((index, cell) :: drawn)

/-- The part of `ios_file_explorer_window_render` above the cells. -/
def renderHeader : Program IosError (FileExplorerWindow μ) Unit := do
  let s ← get
  failIf (s.surface.isValid = false) .invalidState
  onPixels (modify (s.surface.fillRect ⟨i32 0, i32 0, i32 s.surface.width, i32 s.surface.height⟩ s.backgroundColor))
  onPixels (modify (s.surface.fillRect ⟨i32 0, i32 0, i32 s.surface.width, i32 fileExplorerHeaderHeight⟩ fileExplorerHeader))
  onPixels (s.surface.drawText s.font (s.title.getD fileExplorerTitle) (i32 8) (i32 2) fileExplorerIconPage fileExplorerHeader false)
  let locationLength := min s.location.length (s.surface.width / s.font.width)
  let locationWidth := locationLength * s.font.width
  if locationLength ≠ 0 ∧ locationWidth + 8 < s.surface.width then
    onPixels (s.surface.drawText s.font s.location (i32 (s.surface.width - locationWidth - 8 : Nat)) (i32 2)
      fileExplorerIconPage fileExplorerHeader false)
  else pure ()

/-- `ios_file_explorer_window_render`: the entries that it draws, with their cells. -/
def windowRender : Program IosError (FileExplorerWindow μ) (List (Nat × GraphicsRect)) := do
  renderHeader
  modify fun s => if s.model.entries.length ≤ s.firstVisibleIndex then { s with firstVisibleIndex := 0 } else s
  let s ← get
  renderCells provider (s.columnCount * s.rowCount) 0

/-! ### Input -/

def ensureSelectionVisible (s : FileExplorerWindow μ) : FileExplorerWindow μ :=
  let columns := s.columnCount
  let rows := s.rowCount
  let visibleCapacity := columns * rows
  let selected := s.model.selectedIndex
  if visibleCapacity = 0 then s
  else if selected < s.firstVisibleIndex then { s with firstVisibleIndex := selected / columns * columns }
  else if s.firstVisibleIndex + visibleCapacity ≤ selected then
    { s with firstVisibleIndex := (selected / columns - rows + 1) * columns }
  else s

def copyLocation (source : Text) : Text := source.take (fileExplorerLocationCapacity - 1)

/-- `prefix` of `set_directory_location`. -/
def locationPrefix : Text := "Folder: ".toList.map ascii

def directoryLocation (directoryName : Text) : Text :=
  locationPrefix ++ directoryName.take (fileExplorerLocationCapacity - (locationPrefix.length + 1))

/-- The copy of a display name in `activate_selection`. -/
def directoryName (entry : DisplaySafeEntry) : Text :=
  Vfs.cString (entry.displayName.toList.take (entry.displayNameLength + 1))

/-- `activate_selection`: the handle that is activated. -/
def activateSelection : Program IosError (FileExplorerWindow μ) Nat := do
  let s ← get
  match s.model.modelSelected with
  | none => fail .invalidState
  | some entry =>
    if entry.objectKind = displaySafeDirectory then do
      failIf (fileExplorerHistoryCapacity ≤ s.model.historyCount) .noSpace
      modify fun s => { s with
        locationHistory := Function.update s.locationHistory s.model.historyCount (copyLocation s.location) }
      let activatedHandle ← onModel (FileExplorerModel.modelActivate provider)
      modify fun s => { s with firstVisibleIndex := 0, location := directoryLocation (directoryName entry) }
      pure activatedHandle
    else onModel (FileExplorerModel.modelActivate provider)

/-- A press of the left button. -/
def isClick (event : InputEvent) : Bool :=
  event.type = inputEventPointerButton ∧ event.code = pointerButtonLeft ∧ event.flags &&& inputPressed ≠ 0

/-- The index that `ios_file_explorer_window_handle_input` computes for the point of a click. -/
def clickedIndex (s : FileExplorerWindow μ) (event : InputEvent) : Option Nat :=
  if event.x < 0 ∨ event.y < fileExplorerHeaderHeight ∨ (i32 s.surface.width).1 ≤ event.x ∨ (i32 s.surface.height).1 ≤ event.y then none
  else
    let column := event.x.toNat / fileExplorerCellWidth
    let row := (event.y - fileExplorerHeaderHeight).toNat / fileExplorerCellHeight
    if s.columnCount ≤ column then none else some (s.firstVisibleIndex + row * s.columnCount + column)

/-- The click is the second one on its entry. -/
def isDoubleClick (s : FileExplorerWindow μ) (event : InputEvent) (index : Nat) : Bool :=
  s.hasPendingClick ∧ s.lastClickIndex = index ∧ s.lastClickTicks ≤ event.timestampTicks ∧
    event.timestampTicks - s.lastClickTicks ≤ fileExplorerDoubleClickTicks

/-- What follows the selection of an entry by a click. -/
def clickSelected (event : InputEvent) (index : Nat) : Program IosError (FileExplorerWindow μ) (Option Nat) := do
  let s ← get
  if s.isDoubleClick event index then do
    modify fun s => { s with hasPendingClick := false }
    some <$> activateSelection provider
  else do
    modify fun s => { s with lastClickIndex := index, lastClickTicks := event.timestampTicks, hasPendingClick := true }
    pure none

/-- The branch of `ios_file_explorer_window_handle_input` for a click. -/
def handleClick (event : InputEvent) : Program IosError (FileExplorerWindow μ) (Option Nat) := do
  let s ← get
  match s.clickedIndex event with
  | none => pure none
  | some index =>
    if index < s.model.entries.length then do
      onModel (FileExplorerModel.modelSelect index)
      clickSelected provider event index
    else do
      modify fun s => { s with hasPendingClick := false }
      pure none

/-- The index that an arrow key moves to. -/
def arrowIndex (s : FileExplorerWindow μ) (code : UInt32) : Nat :=
  let columns := s.columnCount
  let index := if s.model.hasSelection then s.model.selectedIndex else 0
  let index := if code = keyLeft ∧ 0 < index then index - 1 else index
  let index := if code = keyRight ∧ index + 1 < s.model.entries.length then index + 1 else index
  let index := if code = keyUp ∧ columns ≤ index then index - columns else index
  if code = keyDown ∧ index + columns < s.model.entries.length then index + columns else index

/-- An arrow key. -/
def isArrow (code : UInt32) : Bool := code = keyLeft ∨ code = keyRight ∨ code = keyUp ∨ code = keyDown

/-- The branch of `ios_file_explorer_window_handle_input` for the backspace key. -/
def handleBackspace : Program IosError (FileExplorerWindow μ) Unit := do
  onModel (FileExplorerModel.modelNavigateBack provider)
  modify fun s => { s with firstVisibleIndex := 0, location := copyLocation (s.locationHistory s.model.historyCount) }

/-- `ios_file_explorer_window_handle_input`: the handle when it sets `activated`. -/
def handleInput (event : InputEvent) : Program IosError (FileExplorerWindow μ) (Option Nat) :=
  if isClick event then handleClick provider event
  else if event.type ≠ inputEventKey ∨ event.flags &&& inputPressed = 0 then pure none
  else do
    modify fun s => { s with hasPendingClick := false }
    let s ← get
    if isArrow event.code then
      if s.model.entries = [] then pure none
      else do
        onModel (FileExplorerModel.modelSelect (s.arrowIndex event.code))
        modify ensureSelectionVisible
        pure none
    else if event.code = keyEnter ∧ s.model.hasSelection then some <$> activateSelection provider
    else if event.code = keyBackspace then do
      handleBackspace provider
      pure none
    else pure none

end FileExplorerWindow
end InferenceOS
