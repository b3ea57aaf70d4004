import InferenceOS.Gui.Graphics
import InferenceOS.Lib.Program
import InferenceOS.Status

/-! Raster fonts and their glyphs, `graphics/text.c`. -/

namespace InferenceOS
open Program

/-- `struct ios_psf2_font`; `glyphs` is the memory from the first glyph on, `none` is `NULL`. -/
structure Psf2Font where
  glyphs : Option (Nat → UInt8)
  glyphDataSize : Nat
  glyphCount : Nat
  bytesPerGlyph : Nat
  width : Nat
  height : Nat
  format : Nat

/-- `enum ios_raster_font_format`. -/
def rasterFontMono1 : Nat := 0
def rasterFontAlpha4 : Nat := 1

/-! ### Opening -/

/-- `IOS_PSF2_HEADER_SIZE` and `IOS_ALPHA4_HEADER_SIZE`. -/
def psf2HeaderSize : Nat := 32
def alpha4HeaderSize : Nat := 32

/-- `IOS_PSF2_MAGIC` and `IOS_ALPHA4_MAGIC`. -/
def psf2Magic : Nat := 0x864ab572
def alpha4Magic : Nat := 0x34464149

/-- `IOS_PSF2_FONT_WIDTH` and `IOS_PSF2_FONT_HEIGHT`. -/
def psf2FontWidth : Nat := 8
def psf2FontHeight : Nat := 16

/-- `IOS_ALPHA4_FONT_WIDTH` and `IOS_ALPHA4_FONT_HEIGHT`. -/
def alpha4FontWidth : Nat := 12
def alpha4FontHeight : Nat := 24

def readU32Le (bytes : Nat → UInt8) (offset : Nat) : Nat :=
  (bytes offset).toNat + (bytes (offset + 1)).toNat * 2 ^ 8 + (bytes (offset + 2)).toNat * 2 ^ 16 +
    (bytes (offset + 3)).toNat * 2 ^ 24

/-- `ios_psf2_open`, on the memory of the font. -/
def psf2Open (bytes : Nat → UInt8) (fontSize : Nat) : Except IosError Psf2Font :=
  if fontSize < psf2HeaderSize then .error .corrupt
  else if readU32Le bytes 0 ≠ psf2Magic then .error .corrupt
  else if readU32Le bytes 4 ≠ 0 then .error .unsupportedVersion
  else
    let headerSize := readU32Le bytes 8
    let flags := readU32Le bytes 12
    let glyphCount := readU32Le bytes 16
    let bytesPerGlyph := readU32Le bytes 20
    let height := readU32Le bytes 24
    let width := readU32Le bytes 28
    if headerSize < psf2HeaderSize ∨ fontSize < headerSize ∨ 1 < flags then .error .corrupt
    else if width ≠ psf2FontWidth ∨ height ≠ psf2FontHeight ∨ glyphCount < 128 ∨ bytesPerGlyph ≠ psf2FontHeight then
      .error .notSupported
    else if (2 ^ 64 - 1) / bytesPerGlyph < glyphCount then .error .overflow
    else if fontSize - headerSize < glyphCount * bytesPerGlyph then .error .corrupt
    else .ok
      { glyphs := some fun i => bytes (headerSize + i)
        glyphDataSize := glyphCount * bytesPerGlyph
        glyphCount, bytesPerGlyph, width, height
        format := rasterFontMono1 }

/-- `ios_alpha4_open`, on the memory of the font. -/
def alpha4Open (bytes : Nat → UInt8) (fontSize : Nat) : Except IosError Psf2Font :=
  if fontSize < alpha4HeaderSize then .error .corrupt
  else if readU32Le bytes 0 ≠ alpha4Magic then .error .corrupt
  else if readU32Le bytes 4 ≠ 0 then .error .unsupportedVersion
  else
    let headerSize := readU32Le bytes 8
    let glyphCount := readU32Le bytes 16
    let bytesPerGlyph := readU32Le bytes 20
    if headerSize ≠ alpha4HeaderSize ∨ readU32Le bytes 12 ≠ 0 ∨ readU32Le bytes 24 ≠ alpha4FontHeight ∨
        readU32Le bytes 28 ≠ alpha4FontWidth then .error .corrupt
    else if glyphCount < 128 ∨ bytesPerGlyph ≠ alpha4FontWidth * alpha4FontHeight / 2 then .error .notSupported
    else if (2 ^ 64 - 1) / bytesPerGlyph < glyphCount then .error .overflow
    else if glyphCount * bytesPerGlyph ≠ fontSize - headerSize then .error .corrupt
    else .ok
      { glyphs := some fun i => bytes (headerSize + i)
        glyphDataSize := glyphCount * bytesPerGlyph
        glyphCount, bytesPerGlyph
        width := alpha4FontWidth
        height := alpha4FontHeight
        format := rasterFontAlpha4 }

/-! ### Drawing -/

def blendChannel (foreground background coverage : Color) : Color := (foreground * coverage + background * (15 - coverage) + 7) / 15

def blendColor (foreground background coverage : Color) : Color :=
  blendChannel (foreground &&& 0xff) (background &&& 0xff) coverage |||
    (blendChannel ((foreground >>> 8) &&& 0xff) ((background >>> 8) &&& 0xff) coverage <<< 8) |||
    (blendChannel ((foreground >>> 16) &&& 0xff) ((background >>> 16) &&& 0xff) coverage <<< 16)

namespace Psf2Font

/-- The coverage of a pixel of a glyph, in the format with four bits each. -/
def coverage (font : Psf2Font) (glyph : Nat → UInt8) (row column : Nat) : Color :=
  let packed := glyph ((row * font.width + column) % 2 ^ 32 / 2)
  if column % 2 = 0 then BitVec.ofNat 32 (packed >>> 4).toNat else BitVec.ofNat 32 (packed &&& 0x0f).toNat

/-- Whether a pixel of a glyph is set, in the format with one bit each. -/
def isSet (glyph : Nat → UInt8) (row column : Nat) : Bool := (glyph row).toNat &&& (0x80 >>> column) ≠ 0

/-- The loops over the rows and the columns of a glyph. -/
def forPixels (font : Psf2Font) (draw : Nat → Nat → PixelMemory → PixelMemory) (pixels : PixelMemory) : PixelMemory :=
  (List.range font.height).foldl (fun pixels row =>
    (List.range font.width).foldl (fun pixels column => draw row column pixels) pixels) pixels

end Psf2Font

namespace GraphicsSurface

/-- The body of the loops for the format with four bits. -/
def drawAlpha4Pixel (surface : GraphicsSurface) (font : Psf2Font) (glyph : Nat → UInt8) (x y : I32) (foreground background : Color)
    (opaqueBackground : Bool) (row column : Nat) (pixels : PixelMemory) : PixelMemory :=
  let coverage := font.coverage glyph row column
  let pixelX := i32 (x + (i32 column).1)
  let pixelY := i32 (y + (i32 row).1)
  if coverage = 0 ∧ opaqueBackground = false then pixels
  else
    let base := if opaqueBackground = false ∧ 0 ≤ pixelX.1 ∧ 0 ≤ pixelY.1 ∧ pixelX.1 < (i32 surface.width).1 ∧
        pixelY.1 < (i32 surface.height).1 then pixels (pixelY.1.toNat * surface.stride + pixelX.1.toNat) else background
    surface.putPixel pixelX pixelY (blendColor foreground base coverage) pixels

/-- The body of the loops for the format with one bit. -/
def drawMono1Pixel (surface : GraphicsSurface) (glyph : Nat → UInt8) (x y : I32) (foreground background : Color)
    (opaqueBackground : Bool) (row column : Nat) (pixels : PixelMemory) : PixelMemory :=
  if Psf2Font.isSet glyph row column ∨ opaqueBackground then
    surface.putPixel (i32 (x + (i32 column).1)) (i32 (y + (i32 row).1))
      (if Psf2Font.isSet glyph row column then foreground else background) pixels
  else pixels

def drawGlyph (surface : GraphicsSurface) (font : Psf2Font) (codepoint : Nat) (x y : I32) (foreground background : Color)
    (opaqueBackground : Bool) : Program IosError PixelMemory Unit :=
  match font.glyphs with
  | none => fail .invalidArgument
  | some glyphs => do
    failIf (surface.isValid = false) .invalidArgument
    failIf (font.glyphCount ≤ codepoint) .notSupported
    let glyph := fun i => glyphs (codepoint * font.bytesPerGlyph + i)
    if font.format = rasterFontAlpha4 then
      modify (font.forPixels (surface.drawAlpha4Pixel font glyph x y foreground background opaqueBackground))
    else do
      failIf (font.format ≠ rasterFontMono1) .notSupported
      modify (font.forPixels (surface.drawMono1Pixel glyph x y foreground background opaqueBackground))

/-- The loop of `ios_graphics_draw_text`, with the cursor. -/
def drawTextFrom (surface : GraphicsSurface) (font : Psf2Font) (x : I32) (foreground background : Color) (opaqueBackground : Bool) :
    Text → I32 → I32 → Program IosError PixelMemory Unit
  | [], _, _ => pure ()
  | character :: text, cursorX, y =>
    if character = 0x0a then
      drawTextFrom surface font x foreground background opaqueBackground text x (i32 (y + (i32 font.height).1))
    else do
      surface.drawGlyph font character.toNat cursorX y foreground background opaqueBackground
      drawTextFrom surface font x foreground background opaqueBackground text (i32 (cursorX + (i32 font.width).1)) y

def drawText (surface : GraphicsSurface) (font : Psf2Font) (text : Text) (x y : I32) (foreground background : Color)
    (opaqueBackground : Bool) : Program IosError PixelMemory Unit := do
  failIf (surface.isValid = false ∨ font.glyphs.isNone) .invalidArgument
  drawTextFrom surface font x foreground background opaqueBackground text x y

end GraphicsSurface
end InferenceOS
