import InferenceOS.Cui.Console
import InferenceOS.Gui.Input
import InferenceOS.Gui.TextConsole
import InferenceOS.Gui.Window

/-! The terminal window, `gui/terminal/terminal.c`: a console that writes to a text console. -/

namespace InferenceOS
open Program

/-- `struct ios_terminal` without its console, the window manager, and what the contexts of the commands point to. -/
structure Terminal (κ : Type) where
  screen : ConsoleScreen
  windowManager : WindowManager
  window : WindowHandle
  active : Bool
  contexts : κ

namespace Terminal
variable {κ : Type}

def terminalWrite (text : Text) (s : Terminal κ) : Terminal κ :=
  let screen := (ConsoleScreen.textConsoleWrite text s.screen).2
  let surface := screen.console.surface
  { s with
    screen
    windowManager := (WindowManager.windowInvalidate s.window ⟨i32 0, i32 0, i32 surface.width, i32 surface.height⟩ s.windowManager).2 }

/-- The `io` of the console. -/
def io (commands : List (CuiCommand (Terminal κ))) : CuiIo (Terminal κ) := ⟨terminalWrite, commands⟩

end Terminal
end InferenceOS
