import InferenceOS.Lib.Program
import InferenceOS.Status

/-! Normalized input events and the queue that the drivers put them in, `gui/input/events.c`. -/

namespace InferenceOS
open Program

/-! ### Constants -/

def inputEventVersion : Nat := 1

def inputQueueCapacity : Nat := 128

/-- `sizeof(struct ios_input_event)`. -/
def inputEventSize : Nat := 48

/-- `enum ios_input_event_type`. -/
def inputEventKey : UInt32 := 1
def inputEventPointerMove : UInt32 := 2
def inputEventPointerButton : UInt32 := 3

/-- `enum ios_input_event_flags`. -/
def inputPressed : UInt32 := 1
def inputRepeat : UInt32 := 2
def inputShift : UInt32 := 4
def inputControl : UInt32 := 8
def inputAlt : UInt32 := 16
def inputCapsLock : UInt32 := 32

/-- `known_flags`. -/
def inputKnownFlags : UInt32 := inputPressed ||| inputRepeat ||| inputShift ||| inputControl ||| inputAlt ||| inputCapsLock

/-- `enum ios_input_key_code`. -/
def keyNone : UInt32 := 0
def keyBackspace : UInt32 := 8
def keyEnter : UInt32 := 13
def keyEscape : UInt32 := 27
def keySpace : UInt32 := 32
def keyLeft : UInt32 := 256
def keyRight : UInt32 := 257
def keyUp : UInt32 := 258
def keyDown : UInt32 := 259
def keyLeftShift : UInt32 := 260
def keyRightShift : UInt32 := 261
def keyLeftControl : UInt32 := 262
def keyRightControl : UInt32 := 263
def keyLeftAlt : UInt32 := 264
def keyRightAlt : UInt32 := 265
def keyCapsLock : UInt32 := 266

/-- `enum ios_input_pointer_button`. -/
def pointerButtonLeft : UInt32 := 1
def pointerButtonRight : UInt32 := 2
def pointerButtonMiddle : UInt32 := 3

/-! ### Events -/

structure InputEvent where
  structureSize : Nat
  structureVersion : Nat
  type : UInt32
  timestampTicks : UInt64
  flags : UInt32
  code : UInt32
  x : Int
  y : Int
  deltaX : Int
  deltaY : Int
  text : UInt32
  reserved : UInt32
  deriving DecidableEq

namespace InputEvent

/-- An event after `memset`. -/
def zero : InputEvent := ⟨0, 0, 0, 0, 0, 0, 0, 0, 0, 0, 0, 0⟩

/-- The event that `input_emit_key` puts into the queue. -/
def ofKey (timestamp : UInt64) (keyCode text flags : UInt32) : InputEvent :=
  { zero with
    structureSize := inputEventSize, structureVersion := inputEventVersion, type := inputEventKey
    timestampTicks := timestamp, flags, code := keyCode, text }

/-- The event that `input_emit_pointer_move` puts into the queue. -/
def ofMove (timestamp : UInt64) (x y deltaX deltaY : Int) : InputEvent :=
  { zero with
    structureSize := inputEventSize, structureVersion := inputEventVersion, type := inputEventPointerMove
    timestampTicks := timestamp, x, y, deltaX, deltaY }

/-- The event that `input_emit_pointer_button` puts into the queue. -/
def ofButton (timestamp : UInt64) (button : UInt32) (pressed : Bool) (x y : Int) : InputEvent :=
  { zero with
    structureSize := inputEventSize, structureVersion := inputEventVersion, type := inputEventPointerButton
    timestampTicks := timestamp, flags := if pressed then inputPressed else 0, code := button, x, y }

def IsValid (e : InputEvent) : Prop :=
  e.flags &&& ~~~inputKnownFlags = 0 ∧ e.reserved = 0 ∧
    (e.type = inputEventKey ∧ e.code ≠ keyNone ∧ e.x = 0 ∧ e.y = 0 ∧ e.deltaX = 0 ∧ e.deltaY = 0 ∨
      e.type = inputEventPointerMove ∧ e.flags = 0 ∧ e.code = 0 ∧ e.text = 0 ∨
      e.type = inputEventPointerButton ∧ pointerButtonLeft ≤ e.code ∧ e.code ≤ pointerButtonMiddle ∧
        e.flags &&& ~~~inputPressed = 0 ∧ e.deltaX = 0 ∧ e.deltaY = 0 ∧ e.text = 0)

instance {e : InputEvent} : Decidable e.IsValid := inferInstanceAs (Decidable (_ ∧ _))

end InputEvent

/-! ### The queue -/

structure InputQueue where
  events : Nat → InputEvent
  head : Nat
  count : Nat
  droppedEventCount : Nat
  pointerX : Int
  pointerY : Int
  pointerWidth : Int
  pointerHeight : Int

namespace InputQueue

def queueInitialize (pointerWidth pointerHeight : Int) : InputQueue where
  events := fun _ => InputEvent.zero
  head := 0
  count := 0
  droppedEventCount := 0
  pointerX := 0
  pointerY := 0
  pointerWidth := if 0 < pointerWidth then pointerWidth else 1
  pointerHeight := if 0 < pointerHeight then pointerHeight else 1

def push (event : InputEvent) : Program IosError InputQueue Unit := do
  failIf (event.structureSize ≠ inputEventSize ∨ event.structureVersion ≠ inputEventVersion ∨ ¬event.IsValid) .invalidArgument
  let queue ← get
  if queue.count = inputQueueCapacity then do
    modify fun queue => { queue with droppedEventCount := (queue.droppedEventCount + 1) % 2 ^ 64 }
    fail .noSpace
  else
    modify fun queue => { queue with
      events := Function.update queue.events ((queue.head + queue.count) % inputQueueCapacity) event
      count := queue.count + 1 }

def pop : Program IosError InputQueue InputEvent := do
  let queue ← get
  failIf (queue.count = 0) .wouldBlock
  modify fun queue => { queue with head := (queue.head + 1) % inputQueueCapacity, count := queue.count - 1 }
  pure (queue.events queue.head)

def emitKey (timestamp : UInt64) (keyCode text flags : UInt32) : Program IosError InputQueue Unit :=
  push (InputEvent.ofKey timestamp keyCode text flags)

/-- A coordinate of the pointer kept on the screen. -/
def clampCoordinate (next size : Int) : Int :=
  let next := if next < 0 then 0 else next
  if size ≤ next then size - 1 else next

def emitPointerMove (timestamp : UInt64) (deltaX deltaY : Int) : Program IosError InputQueue Unit := do
  let queue ← get
  failIf (queue.pointerWidth ≤ 0 ∨ queue.pointerHeight ≤ 0) .invalidArgument
  let x := clampCoordinate (queue.pointerX + deltaX) queue.pointerWidth
  let y := clampCoordinate (queue.pointerY + deltaY) queue.pointerHeight
  modify fun queue => { queue with pointerX := x, pointerY := y }
  push (InputEvent.ofMove timestamp x y deltaX deltaY)

def emitPointerButton (timestamp : UInt64) (button : UInt32) (pressed : Bool) : Program IosError InputQueue Unit := do
  let queue ← get
  failIf (button < pointerButtonLeft ∨ pointerButtonMiddle < button) .invalidArgument
  push (InputEvent.ofButton timestamp button pressed queue.pointerX queue.pointerY)

end InputQueue
end InferenceOS
