import InferenceOS.Vfs.Path

/-! Command lines, `cui/parser.c`. -/

namespace InferenceOS
open Program

def cuiMaxPayload : Nat := 255

def cuiMaxArguments : Nat := 32

/-- `enum ios_cui_parse_error` without `IOS_CUI_PARSE_OK`. -/
inductive CuiParseError where
  | lineTooLong | invalidCharacter | invalidSyntax | tooManyArguments
  deriving DecidableEq, Repr

/-- `struct ios_cui_parsed_line` and the local variables of `ios_cui_parse_line`. A pointer to an argument is its index in the storage,
    and `overrun` tells that a byte was written past the storage. -/
structure ParsedLine where
  storage : Text
  arguments : List Nat
  destination : Nat
  overrun : Bool
  deriving DecidableEq, Repr

namespace Cui

/-- The character that toggles quoting. -/
def doubleQuote : UInt8 := 0x22

def forbiddenSyntax (character : UInt8) : Bool :=
  character = ascii '|' ∨ character = ascii '<' ∨ character = ascii '>' ∨ character = ascii '$' ∨ character = ascii '*' ∨
    character = ascii '?' ∨ character = ascii ';' ∨ character = 0x60

/-- `parsed->storage[destination++] = byte`. -/
def putByte (byte : UInt8) : Program CuiParseError ParsedLine Unit := modify fun parsed => { parsed with
  storage := parsed.storage.set parsed.destination byte
  destination := parsed.destination + 1
  overrun := parsed.overrun || decide (cuiMaxPayload + 1 ≤ parsed.destination) }

/-- The inner loop of `ios_cui_parse_line` and the check behind it: the rest of the line behind the argument. -/
def scanArgument (quoted : Bool) : Text → Program CuiParseError ParsedLine Text
  | [] => do
    failIf (quoted = true) .invalidSyntax
    pure []
  | character :: rest => do
    failIf (character < 0x20 ∨ 0x7e < character) .invalidCharacter
    if quoted = false ∧ character = ascii ' ' then pure (character :: rest)
    else if character = doubleQuote then scanArgument (!quoted) rest
    else do
      failIf (forbiddenSyntax character = true) .invalidSyntax
      if character = ascii '\\' then
        match rest with
        | [] => fail .invalidSyntax
        | next :: rest => do
          failIf (quoted = false ∨ (next ≠ doubleQuote ∧ next ≠ ascii '\\')) .invalidSyntax
          putByte next
          scanArgument quoted rest
      else do
        putByte character
        scanArgument quoted rest

/-- The outer loop; every turn passes at least a byte of the line. -/
def scanLine : Nat → Text → Program CuiParseError ParsedLine Unit
  | 0, _ => pure ()
  | fuel + 1, line =>
    match line.dropWhile (· = ascii ' ') with
    | [] => pure ()
    | character :: rest => do
      let parsed ← get
      failIf (parsed.arguments.length = cuiMaxArguments) .tooManyArguments
      modify fun parsed => { parsed with arguments := parsed.arguments ++ [parsed.destination] }
      let rest ← scanArgument false (character :: rest)
      putByte 0
      scanLine fuel rest

/-- `ios_cui_parse_line`; `none` is a null pointer. -/
def parseLine (input : Option Text) : Program CuiParseError ParsedLine Unit :=
  match input with
  | none => fail .invalidSyntax
  | some input => do
    let line := Vfs.cString input
    failIf (cuiMaxPayload < line.length) .lineTooLong
    modify fun parsed => { parsed with storage := List.replicate (cuiMaxPayload + 1) 0, arguments := [], destination := 0 }
    scanLine line.length line

end Cui

/-- The strings that the arguments point to. -/
def ParsedLine.texts (parsed : ParsedLine) : List Text := parsed.arguments.map fun start => Vfs.cString (parsed.storage.drop start)

end InferenceOS
