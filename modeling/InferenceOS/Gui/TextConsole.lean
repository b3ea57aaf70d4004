import InferenceOS.Gui.Text

/-! The text console, `graphics/text_console.c`. -/

namespace InferenceOS
open Program

structure TextConsole where
  surface : GraphicsSurface
  font : Psf2Font
  foreground : Color
  background : Color
  cursorColumn : Nat
  cursorRow : Nat
  active : Bool

/-- A text console, and the memory from the first pixel of its surface on. -/
structure ConsoleScreen where
  console : TextConsole
  pixels : PixelMemory

namespace ConsoleScreen

/-- Change the console. -/
def modifyConsole (f : TextConsole → TextConsole) : Program IosError ConsoleScreen Unit :=
  modify fun s => { s with console := f s.console }

/-- Draw on the pixels. -/
def onPixels {α : Type} (m : Program IosError PixelMemory α) : Program IosError ConsoleScreen α :=
  zoom pixels (fun s pixels => { s with pixels }) m

def textConsoleScroll : Program IosError ConsoleScreen Unit := modify fun s =>
  let rowPixels := s.console.surface.stride * s.console.font.height
  let retainedRows := s.console.surface.height - s.console.font.height
  let moved := fun a => if a < retainedRows * s.console.surface.stride then s.pixels (a + rowPixels) else s.pixels a
  let lastRows : GraphicsRect := ⟨i32 0, i32 retainedRows, i32 s.console.surface.width, i32 s.console.font.height⟩
  { s with pixels := s.console.surface.fillRect lastRows s.console.background moved }

def textConsoleNewline : Program IosError ConsoleScreen Unit := do
  modifyConsole fun console => { console with cursorColumn := 0, cursorRow := (console.cursorRow + 1) % 2 ^ 32 }
  let s ← get
  if s.console.surface.height < (s.console.cursorRow + 1) % 2 ^ 32 * s.console.font.height % 2 ^ 32 then do
    textConsoleScroll
    modifyConsole fun console => { console with cursorRow := console.cursorRow - 1 }
  else pure ()

def textConsoleClear : Program IosError ConsoleScreen Unit := do
  let s ← get
  failIf (s.console.active = false) .invalidState
  onPixels (modify (s.console.surface.fillRect ⟨i32 0, i32 0, i32 s.console.surface.width, i32 s.console.surface.height⟩
    s.console.background))
  modifyConsole fun console => { console with cursorColumn := 0, cursorRow := 0 }

/-- `ios_graphics_text_console_initialize`, on the pixels that the surface has. -/
def textConsoleInitialize (surface : GraphicsSurface) (font : Psf2Font) (foreground background : Color) (pixels : PixelMemory) :
    Except IosError Unit × ConsoleScreen :=
  if font.glyphs.isNone ∨ font.width = 0 ∨ font.height = 0 ∨ surface.isValid = false ∨ surface.width < font.width ∨
      surface.height < font.height ∨ 2 ^ 31 - 1 < surface.width ∨ 2 ^ 31 - 1 < surface.height ∨
      (2 ^ 64 - 1) / 4 / surface.height < surface.stride then
    (.error .invalidArgument, ⟨⟨surface, font, foreground, background, 0, 0, false⟩, pixels⟩)
  else textConsoleClear ⟨⟨surface, font, foreground, background, 0, 0, true⟩, pixels⟩

/-- The text that clears the console. -/
def clearSequence : Text := [0x1b, 0x5b, 0x32, 0x4a, 0x1b, 0x5b, 0x48]

/-- The glyph of a character, at the cursor. -/
def drawCharacter (character : UInt8) : Program IosError ConsoleScreen Unit := do
  let s ← get
  onPixels (s.console.surface.drawGlyph s.console.font character.toNat
    (i32 ((s.console.cursorColumn * s.console.font.width % 2 ^ 32 : Nat)))
    (i32 ((s.console.cursorRow * s.console.font.height % 2 ^ 32 : Nat))) s.console.foreground s.console.background true)
  modifyConsole fun console => { console with cursorColumn := (console.cursorColumn + 1) % 2 ^ 32 }

/-- The body of the loop of `ios_graphics_text_console_write`. -/
def writeCharacter (columns : Nat) (character : UInt8) : Program IosError ConsoleScreen Unit :=
  if character = 0x0a then textConsoleNewline
  else if character = 0x0d then modifyConsole fun console => { console with cursorColumn := 0 }
  else if character = 0x08 then
    modifyConsole fun console => { console with cursorColumn := console.cursorColumn - 1 }
  else if character < 0x20 ∨ 0x7e < character then pure ()
  else do
    let s ← get
    if columns ≤ s.console.cursorColumn then do
      textConsoleNewline
      drawCharacter character
    else drawCharacter character

def textConsoleWrite (text : Text) : Program IosError ConsoleScreen Unit := do
  let s ← get
  failIf (s.console.active = false) .invalidState
  if text = clearSequence then textConsoleClear
  else each (writeCharacter (s.console.surface.width / s.console.font.width)) text

end ConsoleScreen
end InferenceOS
