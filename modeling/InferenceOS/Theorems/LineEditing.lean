import InferenceOS.Gui.Terminal
import InferenceOS.Lib.Steps
import InferenceOS.Theorems.TextConsoles

/-! The line of the console on the terminal. Text behind the prompt is read off the cells; erasing goes wrong only when the cursor
    stands in the first column. -/

namespace InferenceOS
open Program ConsoleScreen CuiConsole

def Printable (character : UInt8) : Prop := 0x20 ≤ character ∧ character ≤ 0x7e

instance {character : UInt8} : Decidable (Printable character) := inferInstanceAs (Decidable (_ ∧ _))

namespace Psf2Font

/-- A font that `ios_psf2_open` or `ios_alpha4_open` opened. -/
def Opened (font : Psf2Font) : Prop := ∃ bytes size, psf2Open bytes size = .ok font ∨ alpha4Open bytes size = .ok font

theorem Opened.draws {font : Psf2Font} (h : font.Opened) {character : UInt8} (hc : Printable character) : font.draws character = true := by
  have hcode : character.toNat < 128 := Nat.lt_of_le_of_lt (UInt8.le_iff_toNat_le.mp hc.2) (by decide)
  have hcount : 128 ≤ font.glyphCount ∧ (font.format = rasterFontAlpha4 ∨ font.format = rasterFontMono1) := by
    obtain ⟨bytes, size, h | h⟩ := h
    · unfold psf2Open at h
      dsimp only at h
      split_ifs at h
      cases h
      exact ⟨by dsimp only; omega, Or.inr rfl⟩
    · unfold alpha4Open at h
      dsimp only at h
      split_ifs at h
      cases h
      exact ⟨by dsimp only; omega, Or.inl rfl⟩
  exact decide_eq_true ⟨Nat.lt_of_lt_of_le hcode hcount.1, hcount.2⟩

end Psf2Font

namespace CharacterGrid
variable {draws : UInt8 → Bool} {rows columns : Nat} {character : UInt8} {g : CharacterGrid UInt8} {text line : Text}

theorem feed_printable (hdraws : draws character = true) (hc : Printable character) :
    feed draws rows columns character g = (.ok (), (g.wrap rows columns).put character) := by
  obtain ⟨hlow, hhigh⟩ := hc
  have hcontrol : ¬(character < 0x20 ∨ 0x7e < character) := by
    rintro (h | h)
    · exact absurd hlow (UInt8.not_le.mpr h)
    · exact absurd hhigh (UInt8.not_le.mpr h)
  unfold feed
  rw [if_neg, if_neg, if_neg, if_neg hcontrol]
  · unfold draw
    rw [hdraws, failIf_pass Bool.true_eq_false.mp]
    rfl
  · rintro rfl
    exact absurd hlow (by decide)
  · rintro rfl
    exact absurd hlow (by decide)
  · rintro rfl
    exact absurd hlow (by decide)

theorem Reads.feed (rows : Nat) (hdraws : ∀ character, Printable character → draws character = true) (hline : ∀ character ∈ line, Printable character)
    (hroom : text.length + line.length ≤ rows * columns) (hcolumns : 0 < columns) (h : g.Reads 0x20 columns text) :
    ((each (CharacterGrid.feed draws rows columns) line) g).2.Reads 0x20 columns (text ++ line) := by
  induction line generalizing g text with
  | nil => rwa [List.append_nil]
  | cons character line ih =>
    rw [List.length_cons] at hroom
    obtain ⟨hc, hline⟩ := List.forall_mem_cons.mp hline
    have hwrap : (g.wrap rows columns).Reads 0x20 columns text := h.wrap (by omega)
    have hput := hwrap.put (a := character) (wrap_column hcolumns)
    have hrest := ih hline (by rw [List.length_append, List.length_singleton]; omega) hput
    rw [List.append_assoc, List.singleton_append] at hrest
    rw [each, bind_ok (feed_printable (hdraws character hc) hc)]
    exact hrest

theorem Reads.feed_erase (hdraws : draws 0x20 = true) (h : g.Reads 0x20 columns (text ++ [character])) (hcolumn : g.column ≠ 0) :
    ((each (CharacterGrid.feed draws rows columns) [0x08, 0x20, 0x08]) g).2.Reads 0x20 columns text := by
  have hwrap : g.backspace.wrap rows columns = g.backspace :=
    if_neg (Nat.not_le_of_lt (Nat.lt_of_lt_of_le (Nat.sub_one_lt hcolumn) h.column))
  have herase := h.erase hcolumn
  have hback : CharacterGrid.feed draws rows columns 0x08 = modify CharacterGrid.backspace := rfl
  rw [← hwrap] at herase
  rw [each, hback, modify_bind, each, bind_ok (feed_printable hdraws (by decide)), each, hback, modify_bind]
  exact herase

end CharacterGrid

namespace Terminal
variable {κ : Type} {look : ConsoleLook} {commands : List (CuiCommand (Terminal κ))} {t : Terminal κ} {s : CuiConsole (Terminal κ)}
  {g : CharacterGrid UInt8} {key : UInt32} {text : Text}

def prompt : Text := literal "InferenceOS> "

/-- The screen has the line behind the prompt, and blanks behind the line. -/
def ShowsLine (look : ConsoleLook) (s : CuiConsole (Terminal κ)) : Prop :=
  ∃ g, look.Shows s.context.screen g ∧
    let cell := fun i => g.cells ((prompt.length + i) / look.columns) ((prompt.length + i) % look.columns)
    (∀ i character, s.line[i]? = some character → cell i = some character) ∧
    ∀ i, s.line.length ≤ i → prompt.length + i < look.rows * look.columns → cell i = none ∨ cell i = some 0x20

structure Edits (look : ConsoleLook) (s : CuiConsole (Terminal κ)) : Prop where
  shown : ∃ g, look.Shows s.context.screen g ∧ g.Reads 0x20 look.columns (prompt ++ s.line)
  length : s.line.length ≤ cuiMaxPayload

theorem Edits.showsLine (h : Edits look s) : ShowsLine look s := by
  obtain ⟨g, hshows, hreads⟩ := h.shown
  refine ⟨g, hshows, fun i character hi => hreads.shown _ _ ?_, fun i hi _ => hreads.rest _ ?_⟩
  · rwa [List.getElem?_append_right (Nat.le_add_right _ _), Nat.add_sub_cancel_left]
  · rw [List.length_append]
    omega

theorem terminalWrite_shows (h : look.Accepted) (hs : look.Shows t.screen g) (htext : text ≠ clearSequence) :
    look.Shows (terminalWrite text t).screen ((each (CharacterGrid.feed look.font.draws look.rows look.columns) text) g).2 := by
  have hmatches : Matches look.Shows (textConsoleWrite text) _ := ConsoleLook.textConsoleWrite_matches h
  have hwrite := (hmatches _ _ hs).2
  unfold CharacterGrid.write at hwrite
  rwa [if_neg htext] at hwrite

theorem prompt_printable : ∀ character ∈ prompt, Printable character := by decide +kernel

theorem room (hcolumns : 14 ≤ look.columns) (hrows : 32 ≤ look.rows) : prompt.length + cuiMaxPayload < look.rows * look.columns :=
  calc prompt.length + cuiMaxPayload < 32 * 14 := by decide
    _ ≤ look.rows * look.columns := Nat.mul_le_mul hrows hcolumns

theorem consolePrompt_edits (h : look.Accepted) (hfont : look.font.Opened) (hcolumns : 14 ≤ look.columns) (hrows : 32 ≤ look.rows)
    (hline : s.line = []) (hclear : look.Shows s.context.screen .blank) :
    Edits look (consolePrompt (io commands) s).2 := by
  have hroom := room hcolumns hrows
  have hreads := CharacterGrid.reads_blank.feed look.rows (fun _ => hfont.draws) prompt_printable
    (by rw [List.length_nil]; omega) (Nat.lt_of_lt_of_le (by decide) hcolumns)
  refine ⟨⟨_, terminalWrite_shows h hclear (by decide), ?_⟩, ?_⟩
  · dsimp only [consolePrompt, write, Program.modify]
    rw [hline, List.append_nil]
    exact hreads
  · dsimp only [consolePrompt, write, Program.modify]
    rw [hline]
    exact Nat.zero_le _

theorem printable_key (hlow : 0x20 ≤ key) (hhigh : key ≤ 0x7e) : Printable key.toUInt8 := by
  rw [UInt32.le_iff_toNat_le] at hlow hhigh
  unfold Printable
  rw [UInt8.le_iff_toNat_le, UInt8.le_iff_toNat_le, UInt32.toNat_toUInt8, Nat.mod_eq_of_lt (Nat.lt_of_le_of_lt hhigh (by decide))]
  exact ⟨hlow, hhigh⟩

theorem consoleFeed_edits (h : look.Accepted) (hfont : look.font.Opened) (hcolumns : 14 ≤ look.columns) (hrows : 32 ≤ look.rows)
    (hkey : key = 0x08 ∨ 0x20 ≤ key ∧ key ≤ 0x7e) (haccepted : (consoleFeed (io commands) key s).1 = .ok ())
    (hcursor : key = 0x08 → s.line ≠ [] → s.context.screen.console.cursorColumn ≠ 0) (hs : Edits look s) :
    Edits look (consoleFeed (io commands) key s).2 := by
  obtain ⟨⟨g, hshows, hreads⟩, hlength⟩ := hs
  unfold consoleFeed at haccepted ⊢
  rw [get_bind] at haccepted ⊢
  rcases hkey with rfl | ⟨hlow, hhigh⟩
  · rw [if_pos rfl]
    by_cases hline : s.line = []
    · rw [if_neg (not_not.mpr hline)]
      exact ⟨⟨g, hshows, hreads⟩, hlength⟩
    · obtain ⟨line, character, hlast⟩ : ∃ line character, s.line = line ++ [character] :=
        ⟨_, _, (List.dropLast_append_getLast hline).symm⟩
      have hcolumn : g.column ≠ 0 := by
        have hne := hcursor rfl hline
        rwa [hshows.console] at hne
      rw [hlast, ← List.append_assoc] at hreads
      rw [hlast, List.length_append] at hlength
      rw [if_pos hline, modify_bind]
      refine ⟨⟨_, terminalWrite_shows h hshows (by decide), ?_⟩, ?_⟩
      · dsimp only [write, Program.modify]
        rw [hlast, List.dropLast_concat]
        exact hreads.feed_erase (hfont.draws (by decide)) hcolumn
      · dsimp only [write, Program.modify]
        rw [hlast, List.dropLast_concat]
        omega
  · have hroom := room hcolumns hrows
    have hcontrol : ¬(key < 0x20 ∨ 0x7e < key) := not_or.mpr ⟨UInt32.not_lt.mpr hlow, UInt32.not_lt.mpr hhigh⟩
    have hback : key ≠ 0x08 := by
      rintro rfl
      exact absurd hlow (by decide)
    have henter : ¬(key = 0x0d ∨ key = 0x0a) := by
      rintro (rfl | rfl)
      · exact absurd hlow (by decide)
      · exact absurd hlow (by decide)
    rw [if_neg hback, if_neg henter, if_neg hcontrol] at haccepted ⊢
    by_cases hfull : s.line.length = cuiMaxPayload
    · rw [if_pos hfull] at haccepted
      cases haccepted
    · have hsingle : [key.toUInt8] ≠ clearSequence := fun heq =>
        absurd (List.cons.inj heq).2 (by decide)
      have hline : ∀ character ∈ [key.toUInt8], Printable character :=
        List.forall_mem_singleton.mpr (printable_key hlow hhigh)
      have hput := hreads.feed look.rows (fun _ => hfont.draws) hline
        (by rw [List.length_append, List.length_singleton]; omega) (Nat.lt_of_lt_of_le (by decide) hcolumns)
      rw [if_neg hfull, modify_bind]
      refine ⟨⟨_, terminalWrite_shows h hshows hsingle, ?_⟩, ?_⟩
      · dsimp only [write, Program.modify]
        rwa [← List.append_assoc]
      · dsimp only [write, Program.modify]
        rw [List.length_append, List.length_singleton]
        omega

def feedKey (commands : List (CuiCommand (Terminal κ))) (s : CuiConsole (Terminal κ)) (key : UInt32) : CuiConsole (Terminal κ) :=
  (consoleFeed (io commands) key s).2

/-- The console takes the key for the line. -/
def Accepts (commands : List (CuiCommand (Terminal κ))) (s : CuiConsole (Terminal κ)) (key : UInt32) : Prop :=
  (key = 0x08 ∨ 0x20 ≤ key ∧ key ≤ 0x7e) ∧ (consoleFeed (io commands) key s).1 = .ok ()

/-- No erasure starts at column 0. -/
def Behind (s : CuiConsole (Terminal κ)) (key : UInt32) : Prop :=
  key = 0x08 → s.line ≠ [] → s.context.screen.console.cursorColumn ≠ 0

theorem feed_edits (h : look.Accepted) (hfont : look.font.Opened) (hcolumns : 14 ≤ look.columns) (hrows : 32 ≤ look.rows)
    {keys : List UInt32} (haccepts : AllSteps (feedKey commands) (Accepts commands) s keys)
    (hbehind : AllSteps (feedKey commands) Behind s keys) (hs : Edits look s) : Edits look (keys.foldl (feedKey commands) s) := by
  induction keys generalizing s with
  | nil => exact hs
  | cons key keys ih =>
    obtain ⟨⟨hkey, haccepted⟩, haccepts⟩ := haccepts
    exact ih haccepts hbehind.2 (consoleFeed_edits h hfont hcolumns hrows hkey haccepted hbehind.1 hs)

end Terminal

open Terminal in
/-- Keys behind a prompt on a cleared screen, none of them rejected and none erasing at the first column: the screen shows the line. -/
theorem terminal_shows_line {κ : Type} {look : ConsoleLook} (h : look.Accepted) (hfont : look.font.Opened)
    (hcolumns : 14 ≤ look.columns) (hrows : 32 ≤ look.rows) {commands : List (CuiCommand (Terminal κ))} {s : CuiConsole (Terminal κ)}
    (hline : s.line = []) (hclear : look.Shows s.context.screen .blank) (keys : List UInt32)
    (haccepts : AllSteps (feedKey commands) (Accepts commands) (consolePrompt (io commands) s).2 keys)
    (hbehind : AllSteps (feedKey commands) Behind (consolePrompt (io commands) s).2 keys) :
    ∀ before rest, keys = before ++ rest →
      ShowsLine look (before.foldl (feedKey commands) (consolePrompt (io commands) s).2) := by
  rintro before rest rfl
  have hedits : Edits look (consolePrompt (io commands) s).2 := consolePrompt_edits h hfont hcolumns hrows hline hclear
  exact (feed_edits h hfont hcolumns hrows haccepts.before hbehind.before hedits).showsLine

def markBytes (i : Nat) : UInt8 :=
  [0x72, 0xb5, 0x4a, 0x86, 0, 0, 0, 0, 32, 0, 0, 0, 0, 0, 0, 0, 128, 0, 0, 0, 16, 0, 0, 0, 16, 0, 0, 0, 8, 0, 0, 0].getD i
    (if i / 16 = 34 then 0 else 0xff)

def markLook : ConsoleLook where
  surface := ⟨some 0, 112, 512, 112⟩
  font := ⟨some fun i => markBytes (32 + i), 2048, 128, 16, 8, 16, rasterFontMono1⟩
  glyphs := fun i => markBytes (32 + i)
  foreground := 1
  background := 0

theorem markLook_accepted : markLook.Accepted where
  glyphs := rfl
  valid := by decide
  fontWidth := by decide
  fontHeight := by decide
  width := by decide
  height := by decide
  widthLimit := by decide
  heightLimit := by decide

theorem markLook_opened : markLook.font.Opened := by
  refine ⟨markBytes, 2080, Or.inl ?_⟩
  unfold psf2Open
  rw [if_neg (by decide), if_neg (by decide), if_neg (by decide)]
  dsimp only
  rw [if_neg (by decide), if_neg (by decide), if_neg (by decide), if_neg (by decide)]
  rfl

def markConsole : CuiConsole (Terminal Unit) where
  line := []
  context := {
    screen := (textConsoleClear ⟨⟨markLook.surface, markLook.font, markLook.foreground, markLook.background, 0, 0, true⟩,
      fun _ => 0⟩).2
    windowManager := ⟨.zero, .zero, fun _ => WindowManager.zeroWindow, .zero, 0, 0, i32 0, i32 0, 0, false, false⟩
    window := ⟨0, 0⟩
    active := true
    contexts := () }

theorem markConsole_clear : markLook.Shows markConsole.context.screen .blank := by
  unfold markConsole
  exact ConsoleLook.shows_cleared markLook_accepted

open Terminal in
theorem terminal_shows_line_mark :
    ShowsLine markLook ([0x61, 0x62, 0x08].foldl (feedKey []) (consolePrompt (io []) markConsole).2) :=
  terminal_shows_line markLook_accepted markLook_opened (by decide) (by decide) rfl markConsole_clear [0x61, 0x62, 0x08]
    ⟨⟨by decide, rfl⟩, ⟨by decide, rfl⟩, ⟨by decide, rfl⟩, trivial⟩
    ⟨fun h => absurd h (by decide), fun h => absurd h (by decide), fun _ _ => by decide +kernel, trivial⟩ _ [] rfl

open Terminal in
/-- The second of two characters starts a row. Erased from there, the first one stays. -/
theorem terminal_keeps_erased :
    let start := (consolePrompt (io []) markConsole).2
    AllSteps (feedKey []) (Accepts []) start [0x61, 0x62, 0x08, 0x08] ∧
      ¬ShowsLine markLook ([0x61, 0x62, 0x08, 0x08].foldl (feedKey []) start) := by
  refine ⟨⟨⟨by decide, rfl⟩, ⟨by decide, rfl⟩, ⟨by decide, rfl⟩, ⟨by decide, rfl⟩, trivial⟩, ?_⟩
  rintro ⟨g, hshows, -, hblank⟩
  have hshown := hshows.pixels 104 (by decide) 0 (by decide)
  have hmark : ([0x61, 0x62, 0x08, 0x08].foldl (feedKey []) (consolePrompt (io []) markConsole).2).context.screen.pixels
      (0 * markLook.surface.stride + 104) = 1 := by decide +kernel
  have hspace : markLook.gridPixel g 104 0 = 0 := by
    rcases hblank 0 (by decide) (by decide) with hcell | hcell
    · exact congrArg (markLook.cellPixel · 0 0) hcell
    · exact congrArg (markLook.cellPixel · 0 0) hcell
  rw [hmark, hspace] at hshown
  exact absurd hshown (by decide)

end InferenceOS
