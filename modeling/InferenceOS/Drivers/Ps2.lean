import InferenceOS.Gui.Input

/-! The PS/2 keyboard and mouse, `drivers/ps2/keyboard.c` and `drivers/ps2/mouse.c`: what the drivers make of the bytes they
    receive. The input queue is part of their state. -/

namespace InferenceOS
open Program

/-! ### Keys -/

/-- The scan codes of set 2 behind the prefix `0xe0`. -/
def extendedScanKeys : List (UInt8 × UInt32) :=
  [(0x6b, keyLeft), (0x74, keyRight), (0x75, keyUp), (0x72, keyDown), (0x14, keyRightControl), (0x11, keyRightAlt)]

/-- The other scan codes of set 2. -/
def scanKeys : List (UInt8 × UInt32) :=
  [(0x66, keyBackspace), (0x5a, keyEnter), (0x76, keyEscape), (0x29, keySpace),
   (0x12, keyLeftShift), (0x59, keyRightShift), (0x14, keyLeftControl), (0x11, keyLeftAlt), (0x58, keyCapsLock),
   (0x1c, 'a'.val), (0x32, 'b'.val), (0x21, 'c'.val), (0x23, 'd'.val), (0x24, 'e'.val), (0x2b, 'f'.val),
   (0x34, 'g'.val), (0x33, 'h'.val), (0x43, 'i'.val), (0x3b, 'j'.val), (0x42, 'k'.val), (0x4b, 'l'.val),
   (0x3a, 'm'.val), (0x31, 'n'.val), (0x44, 'o'.val), (0x4d, 'p'.val), (0x15, 'q'.val), (0x2d, 'r'.val),
   (0x1b, 's'.val), (0x2c, 't'.val), (0x3c, 'u'.val), (0x2a, 'v'.val), (0x1d, 'w'.val), (0x22, 'x'.val),
   (0x35, 'y'.val), (0x1a, 'z'.val),
   (0x16, '1'.val), (0x1e, '2'.val), (0x26, '3'.val), (0x25, '4'.val), (0x2e, '5'.val), (0x36, '6'.val),
   (0x3d, '7'.val), (0x3e, '8'.val), (0x46, '9'.val), (0x45, '0'.val), (0x0e, 0x60), (0x4e, '-'.val),
   (0x55, '='.val), (0x54, '['.val), (0x5b, ']'.val), (0x5d, 0x5c), (0x4c, ';'.val), (0x52, 0x27),
   (0x41, ','.val), (0x49, '.'.val), (0x4a, '/'.val)]

def keyForScan (scan : UInt8) (extended : Bool) : UInt32 :=
  ((if extended then extendedScanKeys else scanKeys).lookup scan).getD keyNone

/-- `unshifted` and `shifted_values` side by side. -/
def shiftedPairs : List (UInt32 × UInt32) :=
  ("`1234567890-=[]\\;',./".toList.map Char.val).zip ("~!@#$%^&*()_+\x7b\x7d|:\"<>?".toList.map Char.val)

/-- The text of a key, as both keyboard drivers compute it. -/
def keyText (key : UInt32) (shifted capsLock : Bool) : UInt32 :=
  if 'a'.val ≤ key ∧ key ≤ 'z'.val then if shifted ≠ capsLock then key - 'a'.val + 'A'.val else key
  else
    match shiftedPairs.lookup key with
    | some value => if shifted then value else key
    | none => if keySpace ≤ key ∧ key < 127 then key else 0

def shiftedText (key : UInt32) (shifted capsLock : Bool) : UInt32 := keyText key shifted capsLock

/-- The flags of a key event, as both keyboard drivers put them together. -/
def keyFlags (released repeated shift control alt capsLock : Bool) : UInt32 :=
  (if released then 0 else inputPressed) ||| (if repeated then inputRepeat else 0) ||| (if shift then inputShift else 0) |||
    (if control then inputControl else 0) ||| (if alt then inputAlt else 0) ||| (if capsLock then inputCapsLock else 0)

/-! ### The keyboard -/

/-- `struct ps2_keyboard`; the queue is apart. -/
structure Ps2Keyboard where
  breakPrefix : Bool
  extendedPrefix : Bool
  pauseBytesRemaining : Nat
  leftShift : Bool
  rightShift : Bool
  leftControl : Bool
  rightControl : Bool
  leftAlt : Bool
  rightAlt : Bool
  capsLock : Bool
  keyDown : Nat → Bool

/-- A driver with the queue that it fills. -/
structure InputPort (δ : Type) where
  driver : δ
  queue : InputQueue

namespace InputPort
variable {δ α : Type}

/-- Change the driver. -/
def onDriver (f : δ → δ) : Program IosError (InputPort δ) Unit := modify fun s => { s with driver := f s.driver }

/-- Run a program of the queue. -/
def onQueue (m : Program IosError InputQueue α) : Program IosError (InputPort δ) α :=
  zoom InputPort.queue (fun s queue => { s with queue }) m

end InputPort

namespace Ps2Keyboard
open InputPort

def keyboardInitialize : Ps2Keyboard := ⟨false, false, 0, false, false, false, false, false, false, false, fun _ => false⟩

/-- The index of a key in `key_down`. -/
def keyIndex (scan : UInt8) (extended : Bool) : Nat := (if extended then 256 else 0) + scan.toNat

/-- The keyboard after a key was pressed or released; `repeat` comes from `key_down`. -/
def track (key : UInt32) (index : Nat) (released : Bool) (keyboard : Ps2Keyboard) : Ps2Keyboard :=
  { keyboard with
    keyDown := Function.update keyboard.keyDown index (!released)
    leftShift := if key = keyLeftShift then !released else keyboard.leftShift
    rightShift := if key = keyRightShift then !released else keyboard.rightShift
    leftControl := if key = keyLeftControl then !released else keyboard.leftControl
    rightControl := if key = keyRightControl then !released else keyboard.rightControl
    leftAlt := if key = keyLeftAlt then !released else keyboard.leftAlt
    rightAlt := if key = keyRightAlt then !released else keyboard.rightAlt
    capsLock := if key = keyCapsLock ∧ released = false ∧ keyboard.keyDown index = false then !keyboard.capsLock
      else keyboard.capsLock }

def handleByte (byte : UInt8) (timestamp : UInt64) : Program IosError (InputPort Ps2Keyboard) Unit := do
  let s ← get
  if s.driver.pauseBytesRemaining ≠ 0 then
    onDriver fun keyboard => { keyboard with pauseBytesRemaining := keyboard.pauseBytesRemaining - 1 }
  else if byte = 0xe0 then onDriver fun keyboard => { keyboard with extendedPrefix := true }
  else if byte = 0xf0 then onDriver fun keyboard => { keyboard with breakPrefix := true }
  else if byte = 0xe1 then
    onDriver fun keyboard => { keyboard with extendedPrefix := false, breakPrefix := false, pauseBytesRemaining := 7 }
  else do
    let released := s.driver.breakPrefix
    let extended := s.driver.extendedPrefix
    let key := keyForScan byte extended
    let index := keyIndex byte extended
    onDriver fun keyboard => { keyboard with breakPrefix := false, extendedPrefix := false }
    failIf (key = keyNone) .notSupported
    let repeated := !released && s.driver.keyDown index
    onDriver (track key index released)
    let s ← get
    let shift := s.driver.leftShift || s.driver.rightShift
    let flags := keyFlags released repeated shift (s.driver.leftControl || s.driver.rightControl)
      (s.driver.leftAlt || s.driver.rightAlt) s.driver.capsLock
    onQueue (InputQueue.emitKey timestamp key (if released then 0 else shiftedText key shift s.driver.capsLock) flags)

end Ps2Keyboard

/-! ### The mouse -/

/-- `struct ps2_mouse`; the queue is apart. -/
structure Ps2Mouse where
  packet : Nat → UInt8
  packetSize : Nat
  buttons : UInt8

/-- `button_codes` with their masks. -/
def buttonCodes : List (UInt8 × UInt32) := [(1, pointerButtonLeft), (2, pointerButtonRight), (4, pointerButtonMiddle)]

/-- The first of two statuses that is an error. -/
def firstFailure (first second : Except IosError Unit) : Except IosError Unit :=
  match first with
  | .error e => .error e
  | .ok _ => second

/-- The loop of both `emit_button_changes` and `emit_mouse_buttons`, from some button on. -/
def emitButtonsFrom (timestamp : UInt64) (before buttons : UInt8) : List (UInt8 × UInt32) → Except IosError Unit →
    Program IosError InputQueue Unit
  | [], first => ofExcept first
  | (mask, code) :: rest, first =>
    if (before ^^^ buttons) &&& mask ≠ 0 then do
      let status ← attempt (InputQueue.emitPointerButton timestamp code (buttons &&& mask ≠ 0))
      emitButtonsFrom timestamp before buttons rest (firstFailure first status)
    else emitButtonsFrom timestamp before buttons rest first

/-- A byte as a signed number, `(ios_i8)`. -/
def signedByte (byte : UInt8) : Int := byte.toInt8.toInt

namespace Ps2Mouse
open InputPort

def mouseInitialize : Ps2Mouse := ⟨fun _ => 0, 0, 0⟩

def emitButtonChanges (buttons : UInt8) (timestamp : UInt64) : Program IosError (InputPort Ps2Mouse) Unit := do
  let s ← get
  let status ← attempt (onQueue (emitButtonsFrom timestamp s.driver.buttons buttons buttonCodes (.ok ())))
  onDriver fun mouse => { mouse with buttons }
  ofExcept status

def handleByte (byte : UInt8) (timestamp : UInt64) : Program IosError (InputPort Ps2Mouse) Unit := do
  let s ← get
  failIf (s.driver.packetSize = 0 ∧ byte &&& 0x08 = 0) .protocol
  onDriver fun mouse =>
    { mouse with packet := Function.update mouse.packet mouse.packetSize byte, packetSize := mouse.packetSize + 1 }
  let s ← get
  if s.driver.packetSize ≠ 3 then pure ()
  else do
    onDriver fun mouse => { mouse with packetSize := 0 }
    let header := s.driver.packet 0
    let deltaX := signedByte (s.driver.packet 1)
    let deltaY := -signedByte (s.driver.packet 2)
    let status ← attempt (if header &&& 0xc0 = 0 ∧ (deltaX ≠ 0 ∨ deltaY ≠ 0) then
      onQueue (InputQueue.emitPointerMove timestamp deltaX deltaY) else pure ())
    let buttonStatus ← attempt (emitButtonChanges (header &&& 0x07) timestamp)
    ofExcept (firstFailure status buttonStatus)

end Ps2Mouse
end InferenceOS
