import InferenceOS.Lib.Program
import InferenceOS.Status
import InferenceOS.Gui.Graphics

/-! The window manager, `window/window_manager.c`, and composition, `window/compositor.c`. The manager keeps the surfaces;
    the memory of the framebuffer, of its shadow and of the clients stands beside it, each for itself. -/

namespace InferenceOS
open Program

abbrev windowCapacity : Nat := 16

def windowPointerWidth : I32 := i32 8

def windowPointerHeight : I32 := i32 12

structure WindowHandle where
  slot : Nat
  generation : Nat
  deriving DecidableEq, Repr

structure Window where
  surface : GraphicsSurface
  bounds : GraphicsRect
  owner : Nat
  generation : Nat
  zOrder : Nat
  allocated : Bool
  visible : Bool
  focused : Bool
  deriving DecidableEq

structure WindowManager where
  framebuffer : GraphicsSurface
  shadow : GraphicsSurface
  windows : Fin windowCapacity → Window
  dirty : GraphicsRect
  desktopColor : Color
  pointerColor : Color
  pointerX : I32
  pointerY : I32
  windowCount : Nat
  dirtyValid : Bool
  pointerVisible : Bool

def rectanglesIntersect (left right : GraphicsRect) : Bool :=
  left.x.1 < right.right ∧ right.x.1 < left.right ∧ left.y.1 < right.bottom ∧ right.y.1 < left.bottom

namespace WindowManager

def findWindow (s : WindowManager) (handle : WindowHandle) : Option (Fin windowCapacity) :=
  if h : handle.slot < windowCapacity then
    if handle.generation = 0 then none
    else if (s.windows ⟨handle.slot, h⟩).allocated = false ∨ (s.windows ⟨handle.slot, h⟩).generation ≠ handle.generation then none
    else some ⟨handle.slot, h⟩
  else none

/-- The manager with another window in a slot. -/
def setWindow (s : WindowManager) (i : Fin windowCapacity) (window : Window) : WindowManager :=
  { s with windows := Function.update s.windows i window }

def screenRect (s : WindowManager) : GraphicsRect := ⟨i32 0, i32 0, i32 s.framebuffer.width, i32 s.framebuffer.height⟩

def clipToScreen (s : WindowManager) (rectangle : GraphicsRect) : Option GraphicsRect :=
  let left := max rectangle.x.1 0
  let top := max rectangle.y.1 0
  let right := min rectangle.right s.framebuffer.width
  let bottom := min rectangle.bottom s.framebuffer.height
  if rectangle.width.1 ≤ 0 ∨ rectangle.height.1 ≤ 0 then none
  else if right ≤ left ∨ bottom ≤ top then none
  else some ⟨i32 left, i32 top, i32 (right - left), i32 (bottom - top)⟩

def addDirty (rectangle : GraphicsRect) (s : WindowManager) : WindowManager :=
  match s.clipToScreen rectangle with
  | none => s
  | some rectangle =>
    if s.dirtyValid = false then { s with dirty := rectangle, dirtyValid := true }
    else
      let left := min rectangle.x.1 s.dirty.x
      let top := min rectangle.y.1 s.dirty.y
      let right := max rectangle.right s.dirty.right
      let bottom := max rectangle.bottom s.dirty.bottom
      { s with dirty := ⟨i32 left, i32 top, i32 (right - left), i32 (bottom - top)⟩ }

/-- The rectangle of the pointer. -/
def pointerBounds (s : WindowManager) : GraphicsRect := ⟨s.pointerX, s.pointerY, windowPointerWidth, windowPointerHeight⟩

def invalidatePointer (s : WindowManager) : WindowManager := s.addDirty s.pointerBounds

/-- The loop of `select_top_focus`, with the top window so far. -/
def topVisible (s : WindowManager) : Option (Fin windowCapacity) :=
  (List.finRange windowCapacity).foldl (fun top i =>
    let window := s.windows i
    if window.allocated ∧ window.visible ∧ (top.all fun top => decide ((s.windows top).zOrder < window.zOrder)) then some i
    else top) none

def selectTopFocus (s : WindowManager) : WindowManager :=
  { s with windows := fun i => { s.windows i with focused := s.topVisible = some i } }

/-- The greatest z order of the allocated windows, 0 when there is none. -/
def highestZ (s : WindowManager) : Nat :=
  (List.finRange windowCapacity).foldl (fun highest i =>
    if (s.windows i).allocated ∧ highest < (s.windows i).zOrder then (s.windows i).zOrder else highest) 0

/-- The allocated windows above `z` come one down. -/
def lowerAbove (s : WindowManager) (z : Nat) : WindowManager :=
  { s with windows := fun i =>
      if (s.windows i).allocated ∧ z < (s.windows i).zOrder then { s.windows i with zOrder := (s.windows i).zOrder - 1 }
      else s.windows i }

/-- A window of `memset`. -/
def zeroWindow : Window := ⟨.zero, .zero, 0, 0, 0, false, false, false⟩

def windowManagerInitialize (framebuffer shadow : GraphicsSurface) (desktopColor pointerColor : Color) :
    Except IosError WindowManager :=
  if framebuffer.isValid = false ∨ shadow.isValid = false ∨ shadow.width ≠ framebuffer.width ∨
      shadow.height ≠ framebuffer.height ∨ 2 ^ 31 - 1 < framebuffer.width ∨ 2 ^ 31 - 1 < framebuffer.height then
    .error .invalidArgument
  else
    let s : WindowManager := {
      framebuffer, shadow, desktopColor, pointerColor
      windows := fun _ => zeroWindow
      dirty := .zero
      pointerX := i32 0
      pointerY := i32 0
      windowCount := 0
      dirtyValid := false
      pointerVisible := false }
    .ok (s.addDirty s.screenRect)

/-- The generation after `++window->generation`, once more when it comes to 0. -/
def nextGeneration (generation : Nat) : Nat :=
  let next := (generation + 1) % 2 ^ 16
  if next = 0 then (next + 1) % 2 ^ 16 else next

def windowCreate (clientSurface : GraphicsSurface) (x y : I32) (owner : Nat) : Program IosError WindowManager WindowHandle := do
  let s ← get
  failIf (clientSurface.isValid = false ∨ 2 ^ 31 - 1 < clientSurface.width ∨ 2 ^ 31 - 1 < clientSurface.height) .invalidArgument
  match (List.finRange windowCapacity).find? fun i => (s.windows i).allocated = false with
  | none => fail .noSpace
  | some i => do
    let window : Window := { s.windows i with
      generation := nextGeneration (s.windows i).generation
      surface := clientSurface
      bounds := ⟨x, y, i32 clientSurface.width, i32 clientSurface.height⟩
      owner
      zOrder := (s.highestZ + 1) % 2 ^ 16
      allocated := true
      visible := true }
    modify fun s => { s.setWindow i window with windowCount := s.windowCount + 1 }
    modify selectTopFocus
    modify (addDirty window.bounds)
    pure ⟨i.1, window.generation⟩

def windowDestroy (handle : WindowHandle) : Program IosError WindowManager Unit := do
  let s ← get
  match s.findWindow handle with
  | none => fail .badHandle
  | some i => do
    let window := s.windows i
    modify fun s => if window.visible then s.addDirty window.bounds else s
    modify fun s => { s.setWindow i { window with allocated := false, visible := false, focused := false } with
      windowCount := s.windowCount - 1 }
    modify fun s => s.lowerAbove window.zOrder
    modify selectTopFocus

def windowMove (handle : WindowHandle) (x y : I32) : Program IosError WindowManager Unit := do
  let s ← get
  match s.findWindow handle with
  | none => fail .badHandle
  | some i => do
    let window := s.windows i
    let moved := { window with bounds := { window.bounds with x, y } }
    modify fun s => if window.visible then s.addDirty window.bounds else s
    modify fun s => s.setWindow i moved
    modify fun s => if window.visible then s.addDirty moved.bounds else s

def windowSetVisible (handle : WindowHandle) (visible : Bool) : Program IosError WindowManager Unit := do
  let s ← get
  match s.findWindow handle with
  | none => fail .badHandle
  | some i =>
    let window := s.windows i
    if window.visible = visible then pure ()
    else do
      modify (addDirty window.bounds)
      modify fun s => s.setWindow i { window with visible }
      modify selectTopFocus

def windowRaise (handle : WindowHandle) : Program IosError WindowManager Unit := do
  let s ← get
  match s.findWindow handle with
  | none => fail .badHandle
  | some i => do
    let window := s.windows i
    let topZ := s.highestZ
    modify fun s =>
      if window.zOrder = topZ then s
      else ((s.lowerAbove window.zOrder).setWindow i { window with zOrder := topZ }).addDirty window.bounds
    modify selectTopFocus

/-- The conversions of `ios_window_invalidate`, which stop at the ends of the range. -/
def saturate (v : Int) : I32 := i32 (max (min v (2 ^ 31 - 1)) (-2 ^ 31))

def windowInvalidate (handle : WindowHandle) (rectangle : GraphicsRect) : Program IosError WindowManager Unit := do
  let s ← get
  match s.findWindow handle with
  | none => fail .badHandle
  | some i => do
    let window := s.windows i
    failIf (rectangle.width.1 ≤ 0 ∨ rectangle.height.1 ≤ 0) .invalidArgument
    let left := max rectangle.x.1 0
    let top := max rectangle.y.1 0
    let right := min rectangle.right window.surface.width
    let bottom := min rectangle.bottom window.surface.height
    if right ≤ left ∨ bottom ≤ top then pure ()
    else modify fun s =>
      if window.visible then
        s.addDirty ⟨saturate (left + window.bounds.x), saturate (top + window.bounds.y), i32 (right - left), i32 (bottom - top)⟩
      else s

def windowInvalidateDesktop (rectangle : GraphicsRect) (s : WindowManager) : WindowManager := s.addDirty rectangle

def windowSetPointer (x y : I32) (visible : Bool) (s : WindowManager) : WindowManager :=
  let s := if s.pointerVisible then s.invalidatePointer else s
  let s := { s with pointerX := x, pointerY := y, pointerVisible := visible }
  if s.pointerVisible then s.invalidatePointer else s

end WindowManager

/-- The window manager with the memory of its surfaces. -/
structure WindowSystem where
  manager : WindowManager
  framebuffer : PixelMemory
  shadow : PixelMemory
  client : PixelMemory

namespace WindowSystem

def copyRegion (target source : GraphicsSurface) (rectangle : GraphicsRect) (copied pixels : PixelMemory) : PixelMemory :=
  Raster.writeRegion target.stride rectangle.x.1.toNat rectangle.y.1.toNat (i32 rectangle.right).1.toNat
    (i32 rectangle.bottom).1.toNat (fun y x => copied (y * source.stride + x)) pixels

/-- A pixel of a client's surface. -/
def surfacePixel (client : PixelMemory) (surface : GraphicsSurface) (y x : Nat) : Color :=
  client (surface.pixels.getD 0 + (y * surface.stride + x))

/-- The pixel of a client that a window shows at a place of the screen. -/
def clientPixel (client : PixelMemory) (window : Window) (y x : Nat) : Color :=
  surfacePixel client window.surface ((y : Int) - window.bounds.y.1).toNat ((x : Int) - window.bounds.x.1).toNat

def compositeWindow (target : GraphicsSurface) (window : Window) (dirty : GraphicsRect) (client pixels : PixelMemory) : PixelMemory :=
  let left := max (max window.bounds.x.1 dirty.x.1) 0
  let top := max (max window.bounds.y.1 dirty.y.1) 0
  let right := min (min window.bounds.right dirty.right) target.width
  let bottom := min (min window.bounds.bottom dirty.bottom) target.height
  if right ≤ left ∨ bottom ≤ top then pixels
  else Raster.writeRegion target.stride left.toNat top.toNat right.toNat bottom.toNat (clientPixel client window) pixels

/-- The loops of `ios_window_compose` over the z orders and the windows. -/
def compositeWindows (s : WindowManager) (client pixels : PixelMemory) : PixelMemory :=
  (List.range' 1 s.windowCount).foldl (fun pixels z =>
    (List.finRange windowCapacity).foldl (fun pixels i =>
      let window := s.windows i
      if window.allocated ∧ window.visible ∧ window.zOrder = z ∧ rectanglesIntersect window.bounds s.dirty then
        compositeWindow s.shadow window s.dirty client pixels
      else pixels) pixels) pixels

def windowCompose : Program IosError WindowSystem Unit := do
  let s ← get
  failIf (s.manager.framebuffer.isValid = false ∨ s.manager.shadow.isValid = false) .invalidState
  if s.manager.dirtyValid = false then pure ()
  else do
    let dirty := s.manager.dirty
    modify fun s => { s with shadow := s.manager.shadow.fillRect dirty s.manager.desktopColor s.shadow }
    modify fun s => { s with shadow := compositeWindows s.manager s.client s.shadow }
    modify fun s => { s with framebuffer := copyRegion s.manager.framebuffer s.manager.shadow dirty s.shadow s.framebuffer }
    modify fun s =>
      if s.manager.pointerVisible ∧ rectanglesIntersect s.manager.pointerBounds dirty then
        { s with
          framebuffer :=
            s.manager.framebuffer.drawPointer s.manager.pointerX s.manager.pointerY s.manager.pointerColor s.framebuffer }
      else s
    modify fun s => { s with manager := { s.manager with dirtyValid := false, dirty := .zero } }

end WindowSystem
end InferenceOS
