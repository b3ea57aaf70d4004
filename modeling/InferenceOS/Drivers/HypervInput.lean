import InferenceOS.Drivers.Ps2
import InferenceOS.Drivers.Vmbus

/-! The synthetic keyboard and mouse of Hyper-V, `drivers/hyperv/input.c`, and the poll of both in
    `block/platform_hyperv.c`. A channel is its two rings; `signalled` says whether the host takes a signal when its ring holds
    what it holds. -/

namespace InferenceOS
open Program

/-! ### Constants -/

/-- `SYNTH_KEYBOARD_EVENT` and the bits of its information word. -/
def synthKeyboardEvent : Nat := 3
def synthKeyboardBreak : UInt32 := 2
def synthKeyboardE0 : UInt32 := 4
def synthKeyboardE1 : UInt32 := 8

/-- `sizeof(struct synth_keyboard_event)`. -/
def synthKeyboardEventSize : Nat := 12

/-- `SYNTH_HID_INITIAL_DEVICE_INFO` and the other types of messages. -/
def synthHidInitialDeviceInfo : Nat := 2
def synthHidInitialDeviceInfoAck : Nat := 3
def synthHidInputReport : Nat := 4

def synthHidPipeMessageData : Nat := 1

/-- The size of `struct synth_hid_pipe_header` and that of `struct synth_hid_header`. -/
def synthHidHeaderSize : Nat := 8

def synthHidMouseLogicalMaximum : Nat := 0x7fff

/-- `IOS_HV_PACKET_TYPE_DATA_INBAND`. -/
def inputPacketTypeDataInband : UInt16 := 6

/-! ### Keys -/

/-- The make codes with the bit `SYNTH_KEYBOARD_E0`. -/
def extendedMakeKeys : List (UInt16 × UInt32) :=
  [(0x4b, keyLeft), (0x4d, keyRight), (0x48, keyUp), (0x50, keyDown), (0x1d, keyRightControl), (0x38, keyRightAlt)]

/-- The other make codes. -/
def makeKeys : List (UInt16 × UInt32) :=
  [(0x0e, keyBackspace), (0x1c, keyEnter), (0x01, keyEscape), (0x39, keySpace),
   (0x2a, keyLeftShift), (0x36, keyRightShift), (0x1d, keyLeftControl), (0x38, keyLeftAlt), (0x3a, keyCapsLock),
   (0x1e, 'a'.val), (0x30, 'b'.val), (0x2e, 'c'.val), (0x20, 'd'.val), (0x12, 'e'.val), (0x21, 'f'.val),
   (0x22, 'g'.val), (0x23, 'h'.val), (0x17, 'i'.val), (0x24, 'j'.val), (0x25, 'k'.val), (0x26, 'l'.val),
   (0x32, 'm'.val), (0x31, 'n'.val), (0x18, 'o'.val), (0x19, 'p'.val), (0x10, 'q'.val), (0x13, 'r'.val),
   (0x1f, 's'.val), (0x14, 't'.val), (0x16, 'u'.val), (0x2f, 'v'.val), (0x11, 'w'.val), (0x2d, 'x'.val),
   (0x15, 'y'.val), (0x2c, 'z'.val),
   (0x02, '1'.val), (0x03, '2'.val), (0x04, '3'.val), (0x05, '4'.val), (0x06, '5'.val), (0x07, '6'.val),
   (0x08, '7'.val), (0x09, '8'.val), (0x0a, '9'.val), (0x0b, '0'.val), (0x29, 0x60), (0x0c, '-'.val),
   (0x0d, '='.val), (0x1a, '['.val), (0x1b, ']'.val), (0x2b, 0x5c), (0x27, ';'.val), (0x28, 0x27),
   (0x33, ','.val), (0x34, '.'.val), (0x35, '/'.val)]

def keyboardKey (scan : UInt16) (extended : Bool) : UInt32 :=
  ((if extended then extendedMakeKeys else makeKeys).lookup scan).getD keyNone

def keyboardText (key : UInt32) (shiftActive capsLock : Bool) : UInt32 := keyText key shiftActive capsLock

/-! ### The keyboard -/

/-- `struct ios_hyperv_keyboard`; the channel and the queue are apart. -/
structure HypervKeyboard where
  keyDown : Nat → Bool
  shift : Bool
  control : Bool
  alt : Bool
  capsLock : Bool
  ready : Bool

namespace HypervKeyboard
open InputPort

/-- The keyboard after the `memset` of `hyperv_keyboard_initialize`. -/
def zero : HypervKeyboard := ⟨fun _ => false, false, false, false, false, false⟩

/-- The index of a key in `key_down`. -/
def keyIndex (makeCode : UInt16) (extended : Bool) : Nat := (if extended then 256 else 0) + makeCode.toNat % 256

/-- The keyboard after a key was pressed or released; `repeat` comes from `key_down`. -/
def track (key : UInt32) (index : Nat) (released : Bool) (keyboard : HypervKeyboard) : HypervKeyboard :=
  { keyboard with
    keyDown := Function.update keyboard.keyDown index (!released)
    shift := if key = keyLeftShift ∨ key = keyRightShift then !released else keyboard.shift
    control := if key = keyLeftControl ∨ key = keyRightControl then !released else keyboard.control
    alt := if key = keyLeftAlt ∨ key = keyRightAlt then !released else keyboard.alt
    capsLock := if key = keyCapsLock ∧ released = false ∧ keyboard.keyDown index = false then !keyboard.capsLock
      else keyboard.capsLock }

def handleEvent (makeCode : UInt16) (information : UInt32) (timestamp : UInt64) :
    Program IosError (InputPort HypervKeyboard) Unit := do
  let released : Bool := information &&& synthKeyboardBreak ≠ 0
  let extended : Bool := information &&& synthKeyboardE0 ≠ 0
  let key := keyboardKey makeCode extended
  let index := keyIndex makeCode extended
  failIf (information &&& synthKeyboardE1 ≠ 0) .invalidArgument
  failIf (key = keyNone) .notSupported
  let s ← get
  let repeated := !released && s.driver.keyDown index
  onDriver (track key index released)
  let s ← get
  let flags := keyFlags released repeated s.driver.shift s.driver.control s.driver.alt s.driver.capsLock
  onQueue (InputQueue.emitKey timestamp key (if released then 0 else keyboardText key s.driver.shift s.driver.capsLock) flags)

end HypervKeyboard

/-! ### The mouse -/

/-- `struct ios_hyperv_mouse`; the channel and the queue are apart. -/
structure HypervMouse where
  buttons : UInt8
  ready : Bool

namespace HypervMouse
open InputPort

def emitMouseButtons (buttons : UInt8) (timestamp : UInt64) : Program IosError (InputPort HypervMouse) Unit := do
  let s ← get
  let status ← attempt (onQueue (emitButtonsFrom timestamp s.driver.buttons buttons buttonCodes (.ok ())))
  onDriver fun mouse => { mouse with buttons }
  ofExcept status

/-- A coordinate of a report, scaled to the screen. -/
def scaleCoordinate (low high : UInt8) (size : Int) : Int :=
  if size ≤ 1 then 0
  else (min (low.toNat + high.toNat * 256) synthHidMouseLogicalMaximum : Nat) * (size - 1) / synthHidMouseLogicalMaximum

def handleReport (report : List UInt8) (timestamp : UInt64) : Program IosError (InputPort HypervMouse) Unit := do
  failIf (report.length < 5) .invalidArgument
  let s ← get
  let targetX := scaleCoordinate (report.getD 1 0) (report.getD 2 0) s.queue.pointerWidth
  let targetY := scaleCoordinate (report.getD 3 0) (report.getD 4 0) s.queue.pointerHeight
  let moveStatus ← attempt (if targetX ≠ s.queue.pointerX ∨ targetY ≠ s.queue.pointerY then
    onQueue (InputQueue.emitPointerMove timestamp (targetX - s.queue.pointerX) (targetY - s.queue.pointerY)) else pure ())
  let buttonStatus ← attempt (emitMouseButtons (report.getD 0 0 &&& 7) timestamp)
  ofExcept (firstFailure moveStatus buttonStatus)

end HypervMouse

/-! ### Channels -/

/-- The part of `struct ios_vmbus_channel` that input uses. -/
structure InputChannel where
  isOpen : Bool
  outbound : HvRing
  inbound : HvRing

namespace InputChannel

/-- `vmbus_channel_read`; an error comes without the size. -/
def vmbusChannelRead (payloadCapacity : Nat) : Program IosError InputChannel HvPacket := do
  let channel ← get
  failIf (channel.isOpen = false) .invalidState
  let r := HvRing.hypervRingRead payloadCapacity channel.inbound
  modify fun channel => { channel with inbound := r.2 }
  match r.1 with
  | .ok packet => pure packet
  | .error e => fail e.1

def vmbusChannelWrite (signalled : HvRing → Bool) (packetType flags : UInt16) (transactionId : UInt64) (payload : List UInt8) :
    Program IosError InputChannel Unit := do
  let channel ← get
  failIf (channel.isOpen = false) .invalidState
  let signalHost ← zoom InputChannel.outbound (fun channel outbound => { channel with outbound })
    (HvRing.hypervRingWrite packetType flags transactionId payload)
  let channel ← get
  failIf (signalHost = true ∧ signalled channel.outbound = false) .io

end InputChannel

/-! ### The platform -/

/-- The fields of the platform that input uses, with the queue. -/
structure HypervInput where
  keyboard : HypervKeyboard
  keyboardChannel : InputChannel
  mouse : HypervMouse
  mouseChannel : InputChannel
  queue : InputQueue
  keyboardReady : Bool
  mouseReady : Bool

namespace HypervInput
open InputChannel

/-- Run a program of the keyboard and the queue. -/
def onKeyboard {α : Type} (m : Program IosError (InputPort HypervKeyboard) α) : Program IosError HypervInput α :=
  zoom (fun s => ⟨s.keyboard, s.queue⟩) (fun s port => { s with keyboard := port.driver, queue := port.queue }) m

/-- Run a program of the mouse and the queue. -/
def onMouse {α : Type} (m : Program IosError (InputPort HypervMouse) α) : Program IosError HypervInput α :=
  zoom (fun s => ⟨s.mouse, s.queue⟩) (fun s port => { s with mouse := port.driver, queue := port.queue }) m

/-- Run a program of the keyboard's channel. -/
def onKeyboardChannel {α : Type} (m : Program IosError InputChannel α) : Program IosError HypervInput α :=
  zoom HypervInput.keyboardChannel (fun s keyboardChannel => { s with keyboardChannel }) m

/-- Run a program of the mouse's channel. -/
def onMouseChannel {α : Type} (m : Program IosError InputChannel α) : Program IosError HypervInput α :=
  zoom HypervInput.mouseChannel (fun s mouseChannel => { s with mouseChannel }) m

def hypervKeyboardPoll (timestamp : UInt64) : Program IosError HypervInput Unit := do
  let s ← get
  failIf (s.keyboard.ready = false) .invalidState
  let packet ← onKeyboardChannel (vmbusChannelRead hvMessagePayloadSize)
  failIf (packet.payload.length < synthKeyboardEventSize ∨ wireField packet.payload 0 4 ≠ synthKeyboardEvent) .protocol
  onKeyboard (HypervKeyboard.handleEvent (UInt16.ofNat (wireField packet.payload 4 2))
    (UInt32.ofNat (wireField packet.payload 8 4)) timestamp)

def deviceInfoAcknowledgement : List UInt8 :=
  [synthHidPipeMessageData, synthHidHeaderSize + 1, synthHidInitialDeviceInfoAck, 1].flatMap wire32 ++ [0]

def hypervMousePoll (signalled : HvRing → Bool) (timestamp : UInt64) : Program IosError HypervInput Unit := do
  let s ← get
  failIf (s.mouse.ready = false) .invalidState
  let packet ← onMouseChannel (vmbusChannelRead hvMessagePayloadSize)
  let payload := packet.payload
  let pipeSize := wireField payload 4 4
  let headerType := wireField payload 8 4
  let headerSize := wireField payload 12 4
  failIf (payload.length < 2 * synthHidHeaderSize ∨ wireField payload 0 4 ≠ synthHidPipeMessageData ∨
    pipeSize < synthHidHeaderSize ∨ payload.length - synthHidHeaderSize < pipeSize ∨
    pipeSize - synthHidHeaderSize < headerSize) .protocol
  if headerType = synthHidInitialDeviceInfo then
    onMouseChannel (vmbusChannelWrite signalled inputPacketTypeDataInband 0 2 deviceInfoAcknowledgement)
  else do
    failIf (headerType ≠ synthHidInputReport) .notSupported
    onMouse (HypervMouse.handleReport ((payload.drop (2 * synthHidHeaderSize)).take headerSize) timestamp)

/-- A status after which a device is polled again later. -/
def KeepsReady (status : IosError) : Prop := status = .wouldBlock ∨ status = .notSupported

instance {status : IosError} : Decidable (KeepsReady status) := inferInstanceAs (Decidable (_ ∨ _))

/-- The loop around a poll, with the number of its rounds; the result is the status that ends it, if one does. -/
def pollRounds (poll : Program IosError HypervInput Unit) : Nat → Program IosError HypervInput (Option IosError)
  | 0 => pure none
  | rounds + 1 => do
    let status ← attempt poll
    match status with
    | .ok _ => pollRounds poll rounds
    | .error e => pure (some e)

/-- The part of `hyperv_platform_input_poll` about the keyboard; every round takes a packet out of the ring. -/
def pollKeyboard (timestamp : UInt64) : Program IosError HypervInput Unit := do
  let s ← get
  if s.keyboardReady then do
    let status ← pollRounds (hypervKeyboardPoll timestamp) (s.keyboardChannel.inbound.dataSize + 1)
    modify fun s => { s with keyboardReady := status.all fun e => KeepsReady e }
  else pure ()

/-- The part of `hyperv_platform_input_poll` about the mouse. -/
def pollMouse (signalled : HvRing → Bool) (timestamp : UInt64) : Program IosError HypervInput Unit := do
  let s ← get
  if s.mouseReady then do
    let status ← pollRounds (hypervMousePoll signalled timestamp) (s.mouseChannel.inbound.dataSize + 1)
    modify fun s => { s with mouseReady := status.all fun e => KeepsReady e }
  else pure ()

def hypervPlatformInputPoll (signalled : HvRing → Bool) (timestamp : UInt64) : Program IosError HypervInput Unit := do
  pollKeyboard timestamp
  pollMouse signalled timestamp

end HypervInput
end InferenceOS
