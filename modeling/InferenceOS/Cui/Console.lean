import InferenceOS.Cui.Parser

/-! The line editor of the command console, `cui/console.c`, and the commands of `cui/commands.c` that it calls. -/

namespace InferenceOS
open Program

/-- A string literal of the source. -/
def literal (s : String) : Text := s.toList.map ascii

/-- `struct ios_cui_command`; the handler acts on what is behind its contexts. -/
structure CuiCommand (σ : Type) where
  name : Text
  usage : Text
  handler : List Text → Program IosError σ Unit

/-- `write` of `struct ios_cui_io`, and the registry. -/
structure CuiIo (σ : Type) where
  write : Text → σ → σ
  commands : List (CuiCommand σ)

/-- `struct ios_cui_console`, with what its writes and commands act on. -/
structure CuiConsole (σ : Type) where
  line : Text
  context : σ

def CuiParseError.symbol : CuiParseError → String
  | lineTooLong => "line_too_long"
  | invalidCharacter => "invalid_character"
  | invalidSyntax => "invalid_syntax"
  | tooManyArguments => "too_many_arguments"

def statusSymbol : IosError → String
  | .invalidArgument => "invalid_arguments"
  | .outOfRange => "out_of_range"
  | .overflow => "overflow"
  | .notSupported => "not_supported"
  | .notFound => "not_found"
  | .alreadyExists => "already_exists"
  | .noMemory => "no_memory"
  | .noSpace => "no_space"
  | .accessDenied => "access_denied"
  | .busy => "busy"
  | .wouldBlock => "would_block"
  | .timeout => "timeout"
  | .io => "io_error"
  | .corrupt => "corrupt"
  | .readOnly => "read_only"
  | .notEmpty => "not_empty"
  | .protocol => "protocol_error"
  | .invalidState => "invalid_state"
  | .unexpectedFormat => "unexpected_format"
  | _ => "command_failed"

def statusMessage : IosError → String
  | .invalidArgument => "check command syntax with help"
  | .notSupported => "operation is not supported"
  | .notFound => "path or object was not found"
  | .alreadyExists => "path or object already exists"
  | .noSpace => "filesystem or command capacity is full"
  | .accessDenied => "operation is not authorized"
  | .busy => "object is currently in use"
  | .io => "storage operation failed"
  | .corrupt => "filesystem metadata is invalid"
  | .readOnly => "filesystem is read-only"
  | .notEmpty => "directory is not empty"
  | .invalidState => "required service or mount is unavailable"
  | .unexpectedFormat => "file is not in the expected text format"
  | _ => "command rejected"

namespace CuiConsole
variable {σ : Type} (io : CuiIo σ)

/-- `console->io.write`. -/
def write (text : Text) : Program IosError (CuiConsole σ) Unit := modify fun s => { s with context := io.write text s.context }

def writeError (symbol message : String) : Program IosError (CuiConsole σ) Unit := do
  write io (literal "error: ")
  write io (literal symbol)
  write io (literal ": ")
  write io (literal message)
  write io (literal "\n")

def findCommand (name : Text) : Option (CuiCommand σ) := io.commands.find? fun command => command.name = name

def writeUsage : Option (CuiCommand σ) → Program IosError (CuiConsole σ) Unit
  | none => pure ()
  | some command => do
    write io (literal "usage: ")
    write io command.usage
    write io (literal "\n")

def commandDispatch (arguments : List Text) : Program IosError σ Unit :=
  match arguments with
  | [] => pure ()
  | name :: _ =>
    match findCommand io name with
    | none => fail .notFound
    | some command => command.handler arguments

def consolePrompt : Program IosError (CuiConsole σ) Unit := write io (literal "InferenceOS> ")

def executeLine : Program IosError (CuiConsole σ) Unit := do
  let s ← get
  match Cui.parseLine (some s.line) ⟨[], [], 0, false⟩ with
  | (.error e, _) => do
    writeError io e.symbol "command line rejected"
    fail .invalidArgument
  | (.ok _, parsed) => do
    let status ← attempt (zoom context (fun s context => { s with context }) (commandDispatch io parsed.texts))
    match status with
    | .ok _ => pure ()
    | .error e =>
      let command := findCommand io (parsed.texts.headD [])
      if e = .notFound then
        writeError io (if command.isSome then statusSymbol e else "command_not_found")
          (if command.isSome then statusMessage e else "unknown command")
      else do
        writeError io (statusSymbol e) (statusMessage e)
        if e = .invalidArgument then writeUsage io command else pure ()
      fail e

def consoleFeed (keyCode : UInt32) : Program IosError (CuiConsole σ) Unit := do
  let s ← get
  if keyCode = 0x08 then
    if s.line ≠ [] then do
      modify fun s => { s with line := s.line.dropLast }
      write io [0x08, 0x20, 0x08]
    else pure ()
  else if keyCode = 0x0d ∨ keyCode = 0x0a then do
    write io (literal "\n")
    let status ← attempt (executeLine io)
    modify fun s => { s with line := [] }
    consolePrompt io
    ofExcept status
  else if keyCode < 0x20 ∨ 0x7e < keyCode then do
    writeError io "invalid_character" "input rejected"
    fail .invalidArgument
  else if s.line.length = cuiMaxPayload then do
    writeError io "line_too_long" "input rejected"
    fail .noSpace
  else do
    modify fun s => { s with line := s.line ++ [keyCode.toUInt8] }
    write io [keyCode.toUInt8]

end CuiConsole
end InferenceOS
