import InferenceOS.Lib.Raster
import Mathlib.Algebra.Group.Int.Defs
import Mathlib.Algebra.Group.Nat.Defs

/-! Surfaces and the drawing functions of `graphics/primitives.c` that composition uses. Fields of type `ios_i32` are
    integers of that range; `ios_i64` arithmetic on them cannot overflow and is that of the integers. -/

namespace InferenceOS

/-- The values of `ios_i32`. -/
abbrev I32 : Type := { v : Int // -2 ^ 31 ≤ v ∧ v < 2 ^ 31 }

/-- A conversion to `ios_i32`. -/
def i32 (v : Int) : I32 := ⟨v.bmod (2 ^ 32), by
  have hle := @Int.le_bmod v (2 ^ 32) (by decide)
  have hlt := @Int.bmod_lt v (2 ^ 32) (by decide)
  omega⟩

theorem i32_val {v : Int} (h : -2 ^ 31 ≤ v ∧ v < 2 ^ 31) : (i32 v).1 = v :=
  Int.bmod_eq_of_le (by omega) (by omega)

/-- A color, `ios_u32`. -/
abbrev Color : Type := BitVec 32

/-- The memory behind the pixels of a surface. -/
abbrev PixelMemory : Type := Nat → Color

structure GraphicsRect where
  x : I32
  y : I32
  width : I32
  height : I32
  deriving DecidableEq

namespace GraphicsRect

/-- The rectangle of `memset`. -/
def zero : GraphicsRect := ⟨i32 0, i32 0, i32 0, i32 0⟩

/-- The column behind the last one. -/
def right (r : GraphicsRect) : Int := r.x + r.width

/-- The row below the last one. -/
def bottom (r : GraphicsRect) : Int := r.y + r.height

end GraphicsRect

/-- `struct ios_graphics_surface`; `pixels` is the place of the first pixel, `none` is `NULL`. -/
structure GraphicsSurface where
  pixels : Option Nat
  width : Nat
  height : Nat
  stride : Nat
  deriving DecidableEq

namespace GraphicsSurface

/-- The surface of `memset`. -/
def zero : GraphicsSurface := ⟨none, 0, 0, 0⟩

def isValid (surface : GraphicsSurface) : Bool :=
  surface.pixels.isSome ∧ surface.width ≠ 0 ∧ surface.height ≠ 0 ∧ surface.width ≤ surface.stride

/-- `ios_graphics_fill_rect`, on the memory from the surface's first pixel on. -/
def fillRect (surface : GraphicsSurface) (rectangle : GraphicsRect) (color : Color) (pixels : PixelMemory) : PixelMemory :=
  if surface.isValid = false ∨ rectangle.width.1 ≤ 0 ∨ rectangle.height.1 ≤ 0 then pixels
  else
    let left := max rectangle.x.1 0
    let top := max rectangle.y.1 0
    let right := min rectangle.right surface.width
    let bottom := min rectangle.bottom surface.height
    if right ≤ left ∨ bottom ≤ top then pixels
    else Raster.writeRegion surface.stride left.toNat top.toNat right.toNat bottom.toNat (fun _ _ => color) pixels

def putPixel (surface : GraphicsSurface) (x y : I32) (color : Color) (pixels : PixelMemory) : PixelMemory :=
  if surface.isValid = false ∨ x.1 < 0 ∨ y.1 < 0 ∨ surface.width ≤ x.1 ∨ surface.height ≤ y.1 then pixels
  else Function.update pixels (y.1.toNat * surface.stride + x.1.toNat) color

def drawBorder (surface : GraphicsSurface) (rectangle : GraphicsRect) (color : Color) (pixels : PixelMemory) : PixelMemory :=
  let ⟨x, y, width, height⟩ := rectangle
  if width.1 ≤ 0 ∨ height.1 ≤ 0 then pixels
  else
    let pixels := surface.fillRect ⟨x, y, width, i32 1⟩ color pixels
    let pixels := if 1 < height.1 then surface.fillRect ⟨x, i32 (y + height - 1), width, i32 1⟩ color pixels else pixels
    let pixels := surface.fillRect ⟨x, y, i32 1, height⟩ color pixels
    if 1 < width.1 then surface.fillRect ⟨i32 (x + width - 1), y, i32 1, height⟩ color pixels else pixels

/-- The widths of the rows of the pointer. -/
def rowWidths : List Nat := [1, 2, 3, 4, 5, 6, 7, 8, 5, 3, 3, 2]

def drawPointer (surface : GraphicsSurface) (x y : I32) (color : Color) (pixels : PixelMemory) : PixelMemory :=
  rowWidths.zipIdx.foldl (fun pixels (width, row) =>
    surface.fillRect ⟨x, i32 (y + (i32 row).1), i32 width, i32 1⟩ color pixels) pixels

end GraphicsSurface

/-! ### Lines -/

/-- The variables of the loop of `ios_graphics_draw_line` that change. -/
@[ext] structure LineState where
  x : Int
  y : Int
  error : Int
  deriving DecidableEq, Repr

/-- The constants of the loop: the distances and the directions of the steps. -/
structure LineSlope where
  dx : Int
  dyAbs : Int
  stepX : Int
  stepY : Int

/-- The constants for two ends. -/
def LineSlope.between (x0 y0 x1 y1 : I32) : LineSlope where
  dx := if x0.1 ≤ x1.1 then x1 - x0 else x0 - x1
  dyAbs := if y0.1 ≤ y1.1 then y1 - y0 else y0 - y1
  stepX := if x0.1 < x1.1 then 1 else -1
  stepY := if y0.1 < y1.1 then 1 else -1

/-- The end of a round of the loop. -/
def LineSlope.step (slope : LineSlope) (s : LineState) : LineState :=
  let doubledError := s.error * 2
  let s := if -slope.dyAbs < doubledError then { s with error := s.error - slope.dyAbs, x := s.x + slope.stepX } else s
  if doubledError < slope.dx then { s with error := s.error + slope.dx, y := s.y + slope.stepY } else s

namespace GraphicsSurface

/-- The pixel of a point that lies in the surface. -/
def plot (surface : GraphicsSurface) (x y : Int) (color : Color) (pixels : PixelMemory) : PixelMemory :=
  if 0 ≤ x ∧ 0 ≤ y ∧ x < surface.width ∧ y < surface.height then
    Function.update pixels (y.toNat * surface.stride + x.toNat) color
  else pixels

/-- The loop of `ios_graphics_draw_line`: the points that it visits, and the pixels. There is no result when the rounds
    run out. -/
def drawLineFrom (surface : GraphicsSurface) (slope : LineSlope) (targetX targetY : Int) (color : Color) :
    Nat → LineState → PixelMemory → Option (List (Int × Int) × PixelMemory)
  | 0, _, _ => none
  | rounds + 1, s, pixels =>
    let pixels := surface.plot s.x s.y color pixels
    if s.x = targetX ∧ s.y = targetY then some ([(s.x, s.y)], pixels)
    else (surface.drawLineFrom slope targetX targetY color rounds (slope.step s) pixels).map fun r => ((s.x, s.y) :: r.1, r.2)

def drawLine (surface : GraphicsSurface) (x0 y0 x1 y1 : I32) (color : Color) (rounds : Nat) (pixels : PixelMemory) :
    Option (List (Int × Int) × PixelMemory) :=
  if surface.isValid = false then some ([], pixels)
  else
    let slope := LineSlope.between x0 y0 x1 y1
    surface.drawLineFrom slope x1 y1 color rounds ⟨x0, y0, slope.dx - slope.dyAbs⟩ pixels

end GraphicsSurface
end InferenceOS
