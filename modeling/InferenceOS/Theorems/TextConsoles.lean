import InferenceOS.Gui.TextConsole
import InferenceOS.Lib.CharacterGrid
import InferenceOS.Theorems.Composition

/-! The text console against a grid of characters. The pixels of the surface are those of the cells, on the background. -/

namespace InferenceOS
open Program Function ConsoleScreen GraphicsRect
variable {pixels : PixelMemory} {column row : Nat}

namespace Psf2Font

def draws (font : Psf2Font) (character : UInt8) : Bool :=
  character.toNat < font.glyphCount ∧ (font.format = rasterFontAlpha4 ∨ font.format = rasterFontMono1)

def glyphPixel (font : Psf2Font) (glyphs : Nat → UInt8) (foreground background : Color) (character : UInt8) (row column : Nat) : Color :=
  let glyph := fun i => glyphs (character.toNat * font.bytesPerGlyph + i)
  if font.format = rasterFontAlpha4 then blendColor foreground background (font.coverage glyph row column)
  else if isSet glyph row column then foreground else background

theorem forPixels_eq {font : Psf2Font} {draw : Nat → Nat → PixelMemory → PixelMemory} {stride left top : Nat} {color : Nat → Nat → Color}
    (hdraw : ∀ row < font.height, ∀ column < font.width, ∀ pixels,
      draw row column pixels = update pixels ((top + row) * stride + (left + column)) (color row column)) :
    font.forPixels draw pixels = Raster.writeRegion stride left top (left + font.width) (top + font.height)
      (fun y x => color (y - top) (x - left)) pixels := by
  unfold forPixels Raster.writeRegion Raster.writeRow
  rw [Nat.add_sub_cancel_left, Nat.add_sub_cancel_left, List.range'_eq_map_range, List.range'_eq_map_range, List.foldl_map]
  refine List.foldl_ext _ _ _ fun pixels row hrow => ?_
  rw [List.foldl_map]
  refine List.foldl_ext _ _ _ fun pixels column hcolumn => ?_
  rw [hdraw row (List.mem_range.mp hrow) column (List.mem_range.mp hcolumn)]
  dsimp only
  rw [Nat.add_sub_cancel_left, Nat.add_sub_cancel_left]

end Psf2Font
open Psf2Font

namespace GraphicsSurface
variable {surface : GraphicsSurface} {font : Psf2Font} {glyphs : Nat → UInt8} {character : UInt8} {left top x y : Nat}
  {foreground background : Color} {pixels : PixelMemory}

/-- The cell of a glyph lies in the surface. -/
structure Fits (surface : GraphicsSurface) (font : Psf2Font) (left top : Nat) : Prop where
  right : left + font.width ≤ surface.width
  bottom : top + font.height ≤ surface.height
  width : surface.width < 2 ^ 31
  height : surface.height < 2 ^ 31

theorem putPixel_eq (hvalid : surface.isValid = true) (hfits : surface.Fits font left top) (hrow : row < font.height)
    (hcolumn : column < font.width) {color : Color} :
    surface.putPixel (i32 ((i32 left).1 + (i32 column).1)) (i32 ((i32 top).1 + (i32 row).1)) color pixels =
      update pixels ((top + row) * surface.stride + (left + column)) color := by
  obtain ⟨hright, hbottom, hwidth, hheight⟩ := hfits
  rw [i32_val (v := left) (by omega), i32_val (v := top) (by omega), i32_val (v := column) (by omega), i32_val (v := row) (by omega)]
  have hx : (i32 ((left : Int) + column)).1 = (left + column : Nat) := i32_val (by omega)
  have hy : (i32 ((top : Int) + row)).1 = (top + row : Nat) := i32_val (by omega)
  unfold putPixel
  rw [hx, hy, if_neg]
  · rfl
  · rw [hvalid]
    rintro (h | h)
    · cases h
    · omega

theorem drawGlyph_ok (hvalid : surface.isValid = true) (hfits : surface.Fits font left top) (hglyphs : font.glyphs = some glyphs)
    (hdraws : font.draws character = true) :
    surface.drawGlyph font character.toNat (i32 left) (i32 top) foreground background true pixels =
      (.ok (), Raster.writeRegion surface.stride left top (left + font.width) (top + font.height)
        (fun y x => font.glyphPixel glyphs foreground background character (y - top) (x - left)) pixels) := by
  unfold draws at hdraws
  obtain ⟨hcount, hformat⟩ := of_decide_eq_true hdraws
  have hvalid' : ¬surface.isValid = false := by simp [hvalid]
  unfold drawGlyph
  rw [hglyphs]
  dsimp only
  rw [failIf_pass hvalid', failIf_pass (Nat.not_le_of_gt hcount)]
  by_cases halpha : font.format = rasterFontAlpha4
  · rw [if_pos halpha]
    refine Prod.ext rfl (forPixels_eq fun row hrow column hcolumn pixels => ?_)
    unfold drawAlpha4Pixel
    dsimp only
    rw [if_neg (fun h => Bool.noConfusion h.2), if_neg (fun h => Bool.noConfusion h.1), putPixel_eq hvalid hfits hrow hcolumn,
      glyphPixel, if_pos halpha]
  · rw [if_neg halpha, failIf_pass (not_not.mpr (hformat.resolve_left halpha))]
    refine Prod.ext rfl (forPixels_eq fun row hrow column hcolumn pixels => ?_)
    unfold drawMono1Pixel
    rw [if_pos (Or.inr rfl), putPixel_eq hvalid hfits hrow hcolumn, glyphPixel, if_neg halpha]

theorem drawGlyph_error (hvalid : surface.isValid = true) (hglyphs : font.glyphs = some glyphs) (hdraws : font.draws character = false)
    {x y : I32} : surface.drawGlyph font character.toNat x y foreground background true pixels = (.error .notSupported, pixels) := by
  have hvalid' : ¬surface.isValid = false := by simp [hvalid]
  unfold draws at hdraws
  have hno := of_decide_eq_false hdraws
  unfold drawGlyph
  rw [hglyphs]
  dsimp only
  rw [failIf_pass hvalid']
  by_cases hcount : font.glyphCount ≤ character.toNat
  · rw [failIf_bind hcount]
    rfl
  · have hformat := fun hf => hno ⟨Nat.lt_of_not_le hcount, hf⟩
    rw [failIf_pass hcount, if_neg (fun h => hformat (Or.inl h)), failIf_bind (show font.format ≠ rasterFontMono1 from fun h => hformat (Or.inr h))]
    rfl

end GraphicsSurface
open GraphicsSurface

namespace CharacterGrid

def draw (draws : UInt8 → Bool) (character : UInt8) : Program IosError (CharacterGrid UInt8) Unit := do
  failIf (draws character = false) .notSupported
  modify (put character)

/-- What a byte does. -/
def feed (draws : UInt8 → Bool) (rows columns : Nat) (character : UInt8) : Program IosError (CharacterGrid UInt8) Unit :=
  if character = 0x0a then modify (newline rows)
  else if character = 0x0d then modify carriageReturn
  else if character = 0x08 then modify backspace
  else if character < 0x20 ∨ 0x7e < character then pure ()
  else do
    modify (wrap rows columns)
    draw draws character

def write (draws : UInt8 → Bool) (rows columns : Nat) (text : Text) : Program IosError (CharacterGrid UInt8) Unit :=
  if text = clearSequence then modify fun _ => blank else each (feed draws rows columns) text

end CharacterGrid

/-- The surface and the font of a console that was initialized, with its colors. -/
structure ConsoleLook where
  surface : GraphicsSurface
  font : Psf2Font
  glyphs : Nat → UInt8
  foreground : Color
  background : Color

namespace ConsoleLook
variable {character : UInt8}

def rows (look : ConsoleLook) : Nat := look.surface.height / look.font.height

def columns (look : ConsoleLook) : Nat := look.surface.width / look.font.width

/-- The font and the surface passed the checks of `ios_graphics_text_console_initialize`. -/
structure Accepted (look : ConsoleLook) : Prop where
  glyphs : look.font.glyphs = some look.glyphs
  valid : look.surface.isValid = true
  fontWidth : 0 < look.font.width
  fontHeight : 0 < look.font.height
  width : look.font.width ≤ look.surface.width
  height : look.font.height ≤ look.surface.height
  widthLimit : look.surface.width < 2 ^ 31
  heightLimit : look.surface.height < 2 ^ 31

def cellPixel (look : ConsoleLook) (cell : Option UInt8) (row column : Nat) : Color :=
  match cell with
  | none => look.background
  | some character => look.font.glyphPixel look.glyphs look.foreground look.background character row column

/-- The pixel that the grid gives a point. -/
def gridPixel (look : ConsoleLook) (g : CharacterGrid UInt8) (x y : Nat) : Color :=
  if y / look.font.height < look.rows ∧ x / look.font.width < look.columns then
    look.cellPixel (g.cells (y / look.font.height) (x / look.font.width)) (y % look.font.height) (x % look.font.width)
  else look.background

/-- The console has the cursor of the grid, and its surface shows the cells. -/
structure Shows (look : ConsoleLook) (s : ConsoleScreen) (g : CharacterGrid UInt8) : Prop where
  console : s.console = ⟨look.surface, look.font, look.foreground, look.background, g.column, g.row, true⟩
  within : g.Within look.rows look.columns
  pixels : ∀ x < look.surface.width, ∀ y < look.surface.height, s.pixels (y * look.surface.stride + x) = look.gridPixel g x y

variable {look : ConsoleLook} {s : ConsoleScreen} {g : CharacterGrid UInt8} {x y : Nat}

theorem Accepted.rows_pos (h : look.Accepted) : 0 < look.rows := Nat.div_pos h.height h.fontHeight

theorem Accepted.columns_pos (h : look.Accepted) : 0 < look.columns := Nat.div_pos h.width h.fontWidth

theorem Accepted.stride (h : look.Accepted) : look.surface.width ≤ look.surface.stride := width_le_stride h.valid

theorem Accepted.fits (h : look.Accepted) (hrow : row < look.rows) (hcolumn : column < look.columns) :
    look.surface.Fits look.font (column * look.font.width) (row * look.font.height) where
  right := by
    rw [← Nat.succ_mul]
    exact (Nat.le_div_iff_mul_le h.fontWidth).mp hcolumn
  bottom := by
    rw [← Nat.succ_mul]
    exact (Nat.le_div_iff_mul_le h.fontHeight).mp hrow
  width := h.widthLimit
  height := h.heightLimit

theorem shows_clear (h : look.Accepted) {console : TextConsole}
    (hconsole : console = ⟨look.surface, look.font, look.foreground, look.background, 0, 0, true⟩) :
    look.Shows ⟨console, look.surface.fillRect ⟨i32 0, i32 0, i32 look.surface.width, i32 look.surface.height⟩
      look.background pixels⟩ .blank := by
  refine ⟨hconsole, CharacterGrid.within_blank h.rows_pos, fun x hx y hy => ?_⟩
  dsimp only
  rw [fillRect_apply h.valid ⟨hx, hy⟩, if_pos]
  · unfold gridPixel
    split <;> rfl
  · have hwidth := i32_val (v := look.surface.width) (by have := h.widthLimit; omega)
    have hheight := i32_val (v := look.surface.height) (by have := h.heightLimit; omega)
    have hzero : (i32 0).1 = 0 := i32_val (by omega)
    unfold GraphicsRect.Contains right bottom
    dsimp only
    rw [hwidth, hheight, hzero]
    omega

theorem gridPixel_scroll (h : look.Accepted) : look.gridPixel ⟨CharacterGrid.scroll look.rows g.cells, row, column⟩ x y =
      if look.surface.height - look.font.height ≤ y then look.background else look.gridPixel g x (y + look.font.height) := by
  have hdiv : (y + look.font.height) / look.font.height = y / look.font.height + 1 := Nat.add_div_right y h.fontHeight
  unfold gridPixel CharacterGrid.scroll
  rw [hdiv, Nat.add_mod_right]
  by_cases hnext : y / look.font.height + 1 < look.rows
  · -- The row below is one of the grid, so it lies in the part that moved.
    have hmoved : ¬look.surface.height - look.font.height ≤ y := by
      have hle : (y / look.font.height + 1 + 1) * look.font.height ≤ look.surface.height :=
        (Nat.le_div_iff_mul_le h.fontHeight).mp hnext
      rw [Nat.add_mul, Nat.add_mul] at hle
      have := Nat.lt_div_mul_add h.fontHeight (a := y)
      omega
    rw [if_neg hmoved]
    dsimp only
    rw [if_pos hnext]
    by_cases hcolumn : x / look.font.width < look.columns
    · rw [if_pos ⟨Nat.lt_of_succ_lt hnext, hcolumn⟩, if_pos ⟨hnext, hcolumn⟩]
    · rw [if_neg fun hx => hcolumn hx.2, if_neg fun hx => hcolumn hx.2]
  · dsimp only
    rw [if_neg hnext, if_neg (c := y / look.font.height + 1 < look.rows ∧ _) fun hx => hnext hx.1]
    split <;> split <;> rfl

theorem newline_matches (h : look.Accepted) :
    Matches look.Shows textConsoleNewline (modify (CharacterGrid.newline look.rows)) := by
  rintro ⟨console, pixels⟩ g ⟨hconsole, hwithin, hpixels⟩
  dsimp only at hconsole hpixels
  subst hconsole
  have hheight := h.heightLimit
  have hrows : look.rows * look.font.height ≤ look.surface.height := Nat.div_mul_le_self _ _
  have hcount : look.rows ≤ look.surface.height := Nat.div_le_self _ _
  have hrow := hwithin.row
  have hbelow : (g.row + 1) * look.font.height ≤ look.surface.height := Nat.le_trans (Nat.mul_le_mul_right _ hrow) hrows
  have hnext : (g.row + 1 + 1) * look.font.height ≤ look.surface.height ↔ g.row + 1 < look.rows :=
    (Nat.le_div_iff_mul_le h.fontHeight).symm
  have hfont := h.height
  have hmod : (g.row + 1) % 2 ^ 32 = g.row + 1 := Nat.mod_eq_of_lt (by omega)
  have hscroll : look.surface.height < ((g.row + 1) % 2 ^ 32 + 1) % 2 ^ 32 * look.font.height % 2 ^ 32 ↔ ¬g.row + 1 < look.rows := by
    rw [hmod, Nat.mod_eq_of_lt (show g.row + 1 + 1 < 2 ^ 32 by omega), ← hnext, Nat.not_le, Nat.mod_eq_of_lt]
    rw [Nat.succ_mul]
    omega
  unfold textConsoleNewline modifyConsole
  rw [modify_bind, get_bind]
  dsimp only
  unfold CharacterGrid.newline
  by_cases hlast : g.row + 1 < look.rows
  · rw [if_neg fun hc => hscroll.mp hc hlast]
    refine ⟨rfl, ?_⟩
    dsimp only [Program.modify]
    rw [if_pos hlast]
    exact ⟨congrArg (fun row => TextConsole.mk _ _ _ _ _ row _) hmod, ⟨hlast, Nat.zero_le _⟩, hpixels⟩
  · unfold textConsoleScroll
    rw [if_pos (hscroll.mpr hlast), modify_bind]
    refine ⟨rfl, ?_⟩
    dsimp only [Program.modify]
    rw [if_neg hlast]
    refine ⟨congrArg (fun row => TextConsole.mk _ _ _ _ _ row _) (congrArg (· - 1) hmod), ⟨hrow, Nat.zero_le _⟩, fun x hx y hy => ?_⟩
    have hstride := h.stride
    have hwidth := h.widthLimit
    have hzero : (i32 0).1 = 0 := i32_val (by omega)
    dsimp only
    rw [fillRect_apply h.valid ⟨hx, hy⟩, gridPixel_scroll h]
    -- The strip below the rows that moved is the rectangle that is filled.
    refine ite_congr (propext ?_) (fun _ => rfl) fun hkept => ?_
    · unfold GraphicsRect.Contains right bottom
      dsimp only
      rw [i32_val (v := (look.surface.height - look.font.height : Nat)) (by omega), i32_val (v := (look.surface.width : Nat)) (by omega),
        i32_val (v := (look.font.height : Nat)) (by omega), hzero]
      omega
    · have hmoved : y * look.surface.stride + x < (look.surface.height - look.font.height) * look.surface.stride :=
        calc y * look.surface.stride + x < (y + 1) * look.surface.stride := by rw [Nat.succ_mul]; omega
          _ ≤ _ := Nat.mul_le_mul_right _ (by omega)
      rw [if_pos hmoved, ← hpixels x hx (y + look.font.height) (by omega)]
      congr 1
      ring

theorem gridPixel_put (h : look.Accepted) (hrow : g.row < look.rows) (hcolumn : g.column < look.columns) :
    look.gridPixel (g.put character) x y =
      if g.column * look.font.width ≤ x ∧ x < g.column * look.font.width + look.font.width ∧ g.row * look.font.height ≤ y ∧
          y < g.row * look.font.height + look.font.height then
        look.font.glyphPixel look.glyphs look.foreground look.background character (y - g.row * look.font.height)
          (x - g.column * look.font.width)
      else look.gridPixel g x y := by
  have hinside : (g.column * look.font.width ≤ x ∧ x < g.column * look.font.width + look.font.width ∧ g.row * look.font.height ≤ y ∧
      y < g.row * look.font.height + look.font.height) ↔ x / look.font.width = g.column ∧ y / look.font.height = g.row := by
    rw [Nat.div_eq_iff h.fontWidth, Nat.div_eq_iff h.fontHeight]
    have := h.fontWidth
    have := h.fontHeight
    omega
  unfold gridPixel CharacterGrid.put
  dsimp only
  by_cases hcell : x / look.font.width = g.column ∧ y / look.font.height = g.row
  · obtain ⟨hx, hy⟩ := hcell
    rw [if_pos (hinside.mpr ⟨hx, hy⟩), hx, hy, if_pos ⟨hrow, hcolumn⟩, update_self, update_self, Nat.mod_eq_sub_mul_div,
      Nat.mod_eq_sub_mul_div, hx, hy, Nat.mul_comm look.font.height, Nat.mul_comm look.font.width]
    rfl
  · rw [if_neg (mt hinside.mp hcell)]
    refine if_congr Iff.rfl (congrArg (look.cellPixel · _ _) ?_) rfl
    by_cases hy : y / look.font.height = g.row
    · rw [hy, update_self, update_of_ne fun hx => hcell ⟨hx, hy⟩]
    · rw [update_of_ne hy]

theorem onPixels_run {α : Type} {m : Program IosError PixelMemory α} {r : Except IosError α}
    (hm : m s.pixels = (r, pixels)) : onPixels m s = (r, { s with pixels }) := by
  unfold onPixels zoom
  rw [hm]

theorem drawCharacter_matches (h : look.Accepted) (hs : look.Shows s g) (hcolumn : g.column < look.columns) :
    (drawCharacter character s).1 = (CharacterGrid.draw look.font.draws character g).1 ∧
      look.Shows (drawCharacter character s).2 (CharacterGrid.draw look.font.draws character g).2 := by
  obtain ⟨console, pixels⟩ := s
  obtain ⟨hconsole, hwithin, hpixels⟩ := hs
  dsimp only at hconsole hpixels
  subst hconsole
  have hfits := h.fits hwithin.row hcolumn
  have hright := hfits.right
  have hbottom := hfits.bottom
  have hwidth := h.widthLimit
  have hheight := h.heightLimit
  have hleft : g.column * look.font.width % 2 ^ 32 = g.column * look.font.width := Nat.mod_eq_of_lt (by omega)
  have htop : g.row * look.font.height % 2 ^ 32 = g.row * look.font.height := Nat.mod_eq_of_lt (by omega)
  unfold drawCharacter CharacterGrid.draw
  rw [get_bind]
  dsimp only
  rw [hleft, htop]
  cases hdraws : look.font.draws character with
  | false =>
    rw [failIf_bind rfl, bind_error (onPixels_run (drawGlyph_error h.valid h.glyphs hdraws))]
    exact ⟨rfl, rfl, hwithin, hpixels⟩
  | true =>
    rw [failIf_pass Bool.true_eq_false.mp, bind_ok (onPixels_run (drawGlyph_ok h.valid hfits h.glyphs hdraws))]
    refine ⟨rfl, ?_, hwithin.put hcolumn, fun x hx y hy => ?_⟩
    · have hcount : look.columns ≤ look.surface.width := Nat.div_le_self _ _
      exact congrArg (fun column => TextConsole.mk _ _ _ _ column _ _) (Nat.mod_eq_of_lt (show g.column + 1 < 2 ^ 32 by omega))
    · have hstride := h.stride
      dsimp only [modifyConsole, Program.modify]
      rw [Raster.writeRegion_apply (by omega) (by omega), gridPixel_put h hwithin.row hcolumn, hpixels x hx y hy]

theorem writeCharacter_matches (h : look.Accepted) : Matches look.Shows (writeCharacter look.columns character)
      (CharacterGrid.feed look.font.draws look.rows look.columns character) := by
  unfold writeCharacter CharacterGrid.feed
  refine matches_ite (newline_matches h) (matches_ite (matches_modify fun s g hs => ?_) (matches_ite (matches_modify fun s g hs => ?_)
    (matches_ite matches_pure fun s g hs => ?_)))
  · exact ⟨by rw [hs.console]; rfl, hs.within.carriageReturn, hs.pixels⟩
  · exact ⟨by rw [hs.console]; rfl, hs.within.backspace, hs.pixels⟩
  · have hcolumn : s.console.cursorColumn = g.column := by rw [hs.console]
    rw [get_bind, modify_bind, hcolumn]
    unfold CharacterGrid.wrap
    by_cases hwrap : look.columns ≤ g.column
    · obtain ⟨hout, hshows⟩ := newline_matches h s g hs
      rw [if_pos hwrap, if_pos hwrap, bind_ok (run_eq hout)]
      exact drawCharacter_matches h hshows (CharacterGrid.newline_column.trans_lt h.columns_pos)
    · rw [if_neg hwrap, if_neg hwrap]
      exact drawCharacter_matches h hs (Nat.lt_of_not_ge hwrap)

theorem shows_cleared (h : look.Accepted) : look.Shows (textConsoleClear
    ⟨⟨look.surface, look.font, look.foreground, look.background, column, row, true⟩, pixels⟩).2 .blank := shows_clear h rfl

theorem textConsoleClear_matches (h : look.Accepted) :
    Matches look.Shows textConsoleClear (modify fun _ => CharacterGrid.blank) := by
  rintro ⟨console, pixels⟩ g ⟨hconsole, hwithin, hpixels⟩
  dsimp only at hconsole
  subst hconsole
  exact ⟨rfl, shows_cleared h⟩

theorem textConsoleWrite_matches (h : look.Accepted) {text : Text} :
    Matches look.Shows (textConsoleWrite text) (CharacterGrid.write look.font.draws look.rows look.columns text) := by
  intro s g hs
  unfold textConsoleWrite CharacterGrid.write
  rw [get_bind, hs.console, failIf_pass Bool.true_eq_false.mp]
  exact matches_ite (textConsoleClear_matches h) (matches_each fun character => writeCharacter_matches h) s g hs

end ConsoleLook
open ConsoleLook

/-- A call of the console. -/
inductive ConsoleCall where
  | write (text : Text)
  | clear

namespace ConsoleCall

def run : ConsoleCall → Program IosError ConsoleScreen Unit
  | write text => textConsoleWrite text
  | clear => textConsoleClear

def follow (draws : UInt8 → Bool) (rows columns : Nat) : ConsoleCall → Program IosError (CharacterGrid UInt8) Unit
  | write text => CharacterGrid.write draws rows columns text
  | clear => modify fun _ => .blank

variable {look : ConsoleLook}

theorem run_matches (h : look.Accepted) (call : ConsoleCall) :
    Matches look.Shows call.run (call.follow look.font.draws look.rows look.columns) := by
  cases call with
  | write text => exact textConsoleWrite_matches h
  | clear => exact textConsoleClear_matches h

theorem shows_run (h : look.Accepted) (calls : List ConsoleCall) : ∀ {s : ConsoleScreen} {g : CharacterGrid UInt8}, look.Shows s g →
    look.Shows (calls.foldl (fun s call => (call.run s).2) s)
      (calls.foldl (fun g call => (call.follow look.font.draws look.rows look.columns g).2) g) := by
  induction calls with
  | nil => exact id
  | cons call calls ih => exact fun hs => ih (run_matches h call _ _ hs).2

end ConsoleCall

theorem ConsoleLook.of_initialize {surface : GraphicsSurface} {font : Psf2Font} {foreground background : Color}
    (h : (textConsoleInitialize surface font foreground background pixels).1 = .ok ()) :
    ∃ glyphs, ConsoleLook.Accepted ⟨surface, font, glyphs, foreground, background⟩ ∧
      ConsoleLook.Shows ⟨surface, font, glyphs, foreground, background⟩
        (textConsoleInitialize surface font foreground background pixels).2 .blank := by
  unfold textConsoleInitialize at h ⊢
  split at h
  · cases h
  · rename_i hpass
    rw [if_neg hpass]
    simp only [not_or] at hpass
    obtain ⟨hglyphs, hfontWidth, hfontHeight, hvalid, hwidth, hheight, hwidthLimit, hheightLimit, _⟩ := hpass
    obtain ⟨glyphs, hsome⟩ := Option.ne_none_iff_exists'.mp fun hnone => hglyphs (Option.isNone_iff_eq_none.mpr hnone)
    have haccepted : ConsoleLook.Accepted ⟨surface, font, glyphs, foreground, background⟩ := by
      constructor
      case glyphs => exact hsome
      case valid => exact eq_true_of_ne_false hvalid
      all_goals dsimp only; omega
    exact ⟨glyphs, haccepted, shows_clear haccepted rfl⟩

/-- After any calls the pixels are those of the grid, and the cursor stands in it or behind its last column. -/
theorem textConsole_shows_grid {surface : GraphicsSurface} {font : Psf2Font} {foreground background : Color} {pixels : PixelMemory}
    (h : (textConsoleInitialize surface font foreground background pixels).1 = .ok ()) (calls : List ConsoleCall) :
    let rows := surface.height / font.height
    let columns := surface.width / font.width
    let s := calls.foldl (fun s call => (call.run s).2)
      (textConsoleInitialize surface font foreground background pixels).2
    let g := calls.foldl (fun g call => (call.follow font.draws rows columns g).2) .blank
    (∃ glyphs, font.glyphs = some glyphs ∧ ∀ x < surface.width, ∀ y < surface.height, s.pixels (y * surface.stride + x) =
      gridPixel ⟨surface, font, glyphs, foreground, background⟩ g x y) ∧
    (s.console.cursorRow = g.row ∧ s.console.cursorColumn = g.column) ∧ (g.row < rows ∧ g.column ≤ columns) ∧
    ∀ call : ConsoleCall, (call.run s).1 = (call.follow font.draws rows columns g).1 := by
  obtain ⟨glyphs, haccepted, hblank⟩ := of_initialize h
  have hshows := ConsoleCall.shows_run haccepted calls hblank
  refine ⟨⟨glyphs, haccepted.glyphs, hshows.pixels⟩, ⟨?_, ?_⟩, ⟨hshows.within.row, hshows.within.column⟩, fun call => ?_⟩
  · exact congrArg TextConsole.cursorRow hshows.console
  · exact congrArg TextConsole.cursorColumn hshows.console
  · exact (ConsoleCall.run_matches haccepted call _ _ hshows).1

def fullFont : Psf2Font := ⟨some fun _ => 0xff, 2048, 128, 16, 8, 16, rasterFontMono1⟩
def rowSurface : GraphicsSurface := ⟨some 0, 64, 16, 70⟩

def rowScreen : ConsoleScreen := (textConsoleInitialize rowSurface fullFont 1 0 fun _ => 7).2

theorem textConsole_shows_grid_row : ∃ glyphs, fullFont.glyphs = some glyphs ∧ ∀ x < rowSurface.width, ∀ y < rowSurface.height,
    ([.clear, .write [0x41, 0x0a, 0x42, 0x08]].foldl (fun s call => (ConsoleCall.run call s).2) rowScreen).pixels
        (y * rowSurface.stride + x) =
      gridPixel ⟨rowSurface, fullFont, glyphs, 1, 0⟩ ([.clear, .write [0x41, 0x0a, 0x42, 0x08]].foldl
        (fun g call => (ConsoleCall.follow fullFont.draws (rowSurface.height / fullFont.height) (rowSurface.width / fullFont.width)
          call g).2) .blank) x y :=
  (@textConsole_shows_grid _ _ _ _ (fun _ => 7) rfl [.clear, .write [0x41, 0x0a, 0x42, 0x08]]).1

/-- The rules ignore the first byte of the clear sequence and show the rest of it; the console clears. -/
theorem clearSequence_not_shown : (textConsoleWrite clearSequence rowScreen).2.pixels 0 ≠
    gridPixel ⟨rowSurface, fullFont, fun _ => 0xff, 1, 0⟩
      (each (CharacterGrid.feed fullFont.draws 1 8) clearSequence .blank).2 0 0 := by
  decide +kernel

end InferenceOS
