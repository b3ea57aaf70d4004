import InferenceOS.Theorems.HypervRings
import InferenceOS.Theorems.Keyboards
import InferenceOS.Theorems.PointerMovement

/-! The readiness of the Hyper-V input devices over all schedules of packets, polls and pops. A poll is taken apart into its
    rounds, so that packets may arrive between them. A device stays ready exactly as long as no round finds an E1 key or an
    event that the queue has no room for. -/

namespace InferenceOS
open Program

/-- The fields of a keyboard event, `struct synth_keyboard_event`. -/
structure KeyboardMessage where
  makeCode : UInt16
  reserved : UInt16
  information : UInt32

def KeyboardMessage.bytes (m : KeyboardMessage) : List UInt8 :=
  wire32 synthKeyboardEvent ++ (Bytes.ofNat 2 m.makeCode.toNat).toList ++ (Bytes.ofNat 2 m.reserved.toNat).toList ++
    wire32 m.information.toNat

/-- A mouse report that fits a message. -/
structure MouseMessage where
  report : List UInt8
  complete : 5 ≤ report.length
  short : report.length ≤ hvMessagePayloadSize - 2 * synthHidHeaderSize

def MouseMessage.bytes (m : MouseMessage) : List UInt8 :=
  wire32 synthHidPipeMessageData ++ wire32 (synthHidHeaderSize + m.report.length) ++ wire32 synthHidInputReport ++
    wire32 m.report.length ++ m.report

section Wire
variable {before after padding : List UInt8} {k value : Nat}

theorem length_number : (Bytes.ofNat k value).toList.length = k := List.length_ofFn

theorem length_wire32 : (wire32 value).length = 4 := List.length_ofFn

theorem wireField_number (hfits : before.length + k ≤ hvMessagePayloadSize) :
    wireField (before ++ ((Bytes.ofNat k value).toList ++ after)) before.length k = value % 256 ^ k := by
  have hdigits : ∀ i, i < k → (Bytes.ofList hvMessagePayloadSize (before ++ ((Bytes.ofNat k value).toList ++ after))).byte (before.length + i) =
      Bytes.digit value (0 + i) := by
    intro i hi
    have hlength := @length_number k value
    rw [Bytes.byte_of_lt (by omega), Nat.zero_add]
    show (before ++ _).getD (before.length + i) 0 = _
    rw [List.getD_append_right _ _ _ _ (Nat.le_add_right _ _), Nat.add_sub_cancel_left, List.getD_append _ _ _ _ (by omega),
      List.getD_eq_getElem _ _ (by omega)]
    exact List.getElem_ofFn _
  have hvalue := Bytes.toNat_of_digits hdigits
  rwa [pow_zero, Nat.div_one] at hvalue

namespace KeyboardMessage
variable {m : KeyboardMessage}

theorem length_bytes : m.bytes.length = synthKeyboardEventSize := by
  unfold bytes
  simp only [List.length_append, length_wire32, length_number]
  rfl

theorem fields : wireField (m.bytes ++ padding) 0 4 = synthKeyboardEvent ∧
    UInt16.ofNat (wireField (m.bytes ++ padding) 4 2) = m.makeCode ∧ UInt32.ofNat (wireField (m.bytes ++ padding) 8 4) = m.information := by
  have htype := @wireField_number [] ((Bytes.ofNat 2 m.makeCode.toNat).toList ++ ((Bytes.ofNat 2 m.reserved.toNat).toList ++
    (wire32 m.information.toNat ++ padding))) 4 synthKeyboardEvent (by decide)
  have hmake := @wireField_number (wire32 synthKeyboardEvent)
    ((Bytes.ofNat 2 m.reserved.toNat).toList ++ (wire32 m.information.toNat ++ padding)) 2 m.makeCode.toNat (by rw [length_wire32]; decide)
  have hinformation := @wireField_number (wire32 synthKeyboardEvent ++ ((Bytes.ofNat 2 m.makeCode.toNat).toList ++ (Bytes.ofNat 2 m.reserved.toNat).toList))
    padding 4 m.information.toNat (by simp only [List.length_append, length_wire32, length_number]; decide)
  simp only [List.length_append, length_wire32, length_number, List.append_assoc] at hmake hinformation
  unfold bytes
  simp only [List.append_assoc]
  refine ⟨htype, ?_, ?_⟩
  · rw [hmake, Nat.mod_eq_of_lt (show m.makeCode.toNat < 256 ^ 2 from m.makeCode.toNat_lt), UInt16.ofNat_toNat]
  · unfold wire32 at hinformation ⊢
    rw [hinformation, Nat.mod_eq_of_lt (show m.information.toNat < 256 ^ 4 from m.information.toNat_lt), UInt32.ofNat_toNat]

end KeyboardMessage

namespace MouseMessage
variable {m : MouseMessage}

theorem length_bytes : m.bytes.length = 2 * synthHidHeaderSize + m.report.length := by
  unfold bytes
  simp only [List.length_append, length_wire32]
  rfl

theorem fields : wireField (m.bytes ++ padding) 0 4 = synthHidPipeMessageData ∧
    wireField (m.bytes ++ padding) 4 4 = synthHidHeaderSize + m.report.length ∧
    wireField (m.bytes ++ padding) 8 4 = synthHidInputReport ∧ wireField (m.bytes ++ padding) 12 4 = m.report.length ∧
    ((m.bytes ++ padding).drop (2 * synthHidHeaderSize)).take m.report.length = m.report := by
  have hshort := m.short
  unfold hvMessagePayloadSize synthHidHeaderSize at hshort
  have htype := @wireField_number [] (wire32 (synthHidHeaderSize + m.report.length) ++ (wire32 synthHidInputReport ++
    (wire32 m.report.length ++ (m.report ++ padding)))) 4 synthHidPipeMessageData (by decide)
  have hpipe := @wireField_number (wire32 synthHidPipeMessageData) (wire32 synthHidInputReport ++
    (wire32 m.report.length ++ (m.report ++ padding))) 4 (synthHidHeaderSize + m.report.length) (by rw [length_wire32]; decide)
  have hheader := @wireField_number (wire32 synthHidPipeMessageData ++ wire32 (synthHidHeaderSize + m.report.length))
    (wire32 m.report.length ++ (m.report ++ padding)) 4 synthHidInputReport (by simp only [List.length_append, length_wire32]; decide)
  have hsize := @wireField_number (wire32 synthHidPipeMessageData ++ (wire32 (synthHidHeaderSize + m.report.length) ++ wire32 synthHidInputReport))
    (m.report ++ padding) 4 m.report.length (by simp only [List.length_append, length_wire32]; decide)
  simp only [List.length_append, length_wire32, List.append_assoc] at hpipe hheader hsize
  have hreport : m.bytes ++ padding = (wire32 synthHidPipeMessageData ++ wire32 (synthHidHeaderSize + m.report.length) ++
      wire32 synthHidInputReport ++ wire32 m.report.length) ++ (m.report ++ padding) := by
    unfold bytes
    rw [List.append_assoc]
  refine ⟨?_, ?_, ?_, ?_, ?_⟩
  case refine_5 =>
    rw [hreport, List.drop_left' (by simp only [List.length_append, length_wire32]; rfl), List.take_left' rfl]
  all_goals
    rw [hreport]
    simp only [List.append_assoc]
  · exact htype
  · refine hpipe.trans (Nat.mod_eq_of_lt ?_)
    unfold synthHidHeaderSize
    omega
  · exact hheader
  · refine hsize.trans (Nat.mod_eq_of_lt ?_)
    omega

end MouseMessage
end Wire

/-- Where a poll of the input devices is. -/
inductive InputPhase where
  | idle | keyboard | mouse
  deriving DecidableEq

/-- The platform, and where its poll is. -/
structure InputSystem where
  machine : HypervInput
  phase : InputPhase

/-- The host puts a message into a ring, the poll begins or goes on with a round, or the consumer takes an event. -/
inductive InputAction where
  | keyboardPacket (type flags : UInt16) (transactionId : UInt64) (message : KeyboardMessage)
  | mousePacket (type flags : UInt16) (transactionId : UInt64) (message : MouseMessage)
  | round (timestamp : UInt64)
  | pop

def InputChannel.arrive (type flags : UInt16) (transactionId : UInt64) (payload : List UInt8) (channel : InputChannel) : InputChannel :=
  { channel with inbound := (HvRing.hypervRingWrite type flags transactionId payload channel.inbound).2 }

namespace InputSystem
open HypervInput

/-- A round of the poll: it begins, or a device is polled once, or the loop of a device that is not ready is passed over. -/
def round (signalled : HvRing → Bool) (timestamp : UInt64) (s : InputSystem) : InputSystem :=
  match s.phase with
  | .idle => ⟨s.machine, .keyboard⟩
  | .keyboard =>
    if s.machine.keyboardReady then
      match hypervKeyboardPoll timestamp s.machine with
      | (.ok _, machine) => ⟨machine, .keyboard⟩
      | (.error e, machine) => ⟨{ machine with keyboardReady := KeepsReady e }, .mouse⟩
    else ⟨s.machine, .mouse⟩
  | .mouse =>
    if s.machine.mouseReady then
      match hypervMousePoll signalled timestamp s.machine with
      | (.ok _, machine) => ⟨machine, .mouse⟩
      | (.error e, machine) => ⟨{ machine with mouseReady := KeepsReady e }, .idle⟩
    else ⟨s.machine, .idle⟩

/-- The system after an action; the consumer runs between the polls. -/
def act (signalled : HvRing → Bool) (s : InputSystem) : InputAction → InputSystem
  | .keyboardPacket type flags transactionId message =>
    { s with machine := { s.machine with
        keyboardChannel := s.machine.keyboardChannel.arrive type flags transactionId message.bytes } }
  | .mousePacket type flags transactionId message =>
    { s with machine := { s.machine with mouseChannel := s.machine.mouseChannel.arrive type flags transactionId message.bytes } }
  | .round timestamp => s.round signalled timestamp
  | .pop => if s.phase = .idle then { s with machine := { s.machine with queue := (InputQueue.pop s.machine.queue).2 } } else s

end InputSystem

namespace HypervInput

def BothReady (s : HypervInput) : Prop := s.keyboardReady = true ∧ s.mouseReady = true

instance {s : HypervInput} : Decidable s.BothReady := inferInstanceAs (Decidable (_ ∧ _))

def nextPacket (channel : InputChannel) : Option HvPacket :=
  match (HvRing.hypervRingRead hvMessagePayloadSize channel.inbound).1 with
  | .ok packet => some packet
  | .error _ => none

/-- The next key is no E1 key, and if it is supported the queue has room. -/
def KeyboardFits (s : HypervInput) : Prop := ∀ packet, nextPacket s.keyboardChannel = some packet →
  let information := UInt32.ofNat (wireField packet.payload 8 4)
  information &&& synthKeyboardE1 = 0 ∧
    (keyboardKey (UInt16.ofNat (wireField packet.payload 4 2)) (information &&& synthKeyboardE0 ≠ 0) ≠ keyNone →
      s.queue.count < inputQueueCapacity)

def reportEvents (s : HypervInput) (report : List UInt8) : Nat :=
  (if HypervMouse.scaleCoordinate (report.getD 1 0) (report.getD 2 0) s.queue.pointerWidth ≠ s.queue.pointerX ∨
      HypervMouse.scaleCoordinate (report.getD 3 0) (report.getD 4 0) s.queue.pointerHeight ≠ s.queue.pointerY then 1 else 0) +
    (buttonChanges s.mouse.buttons (report.getD 0 0 &&& 7)).length

def MouseFits (s : HypervInput) : Prop := ∀ packet, nextPacket s.mouseChannel = some packet →
  s.queue.count + s.reportEvents (packet.payload.drop (2 * synthHidHeaderSize)) ≤ inputQueueCapacity

end HypervInput

/-- The packets that wait in a channel are padded messages. -/
structure InputChannel.Waiting {μ : Type} (bytes : μ → List UInt8) (channel : InputChannel) (pending : List HvPacket) : Prop where
  holds : channel.inbound.Holds pending
  messages : ∀ p ∈ pending, ∃ m padding, p.payload = bytes m ++ padding
  short : ∀ p ∈ pending, p.payload.length ≤ hvMessagePayloadSize

namespace HypervInput

/-- The channels are open, the drivers are ready, and the rings hold messages of the devices. -/
structure Serving (s : HypervInput) : Prop where
  keyboardOpen : s.keyboardChannel.isOpen = true
  mouseOpen : s.mouseChannel.isOpen = true
  keyboard : s.keyboard.ready = true
  mouse : s.mouse.ready = true
  queue : s.queue.Wf
  width : 0 < s.queue.pointerWidth
  height : 0 < s.queue.pointerHeight
  keys : ∃ pending, s.keyboardChannel.Waiting KeyboardMessage.bytes pending
  reports : ∃ pending, s.mouseChannel.Waiting MouseMessage.bytes pending

end HypervInput

/-- An action meets the condition under which the devices stay ready. -/
def InputSystem.Meets (s : InputSystem) : InputAction → Prop
  | .round _ =>
    match s.phase with
    | .idle => True
    | .keyboard => s.machine.KeyboardFits
    | .mouse => s.machine.MouseFits
  | _ => True

/-- A device that the poll is about. -/
inductive InputDevice where
  | keyboard | mouse

namespace InputDevice

def phase : InputDevice → InputPhase
  | keyboard => .keyboard
  | mouse => .mouse

/-- Where the poll goes on after the device. -/
def next : InputDevice → InputPhase
  | keyboard => .mouse
  | mouse => .idle

def ready (s : HypervInput) : InputDevice → Bool
  | keyboard => s.keyboardReady
  | mouse => s.mouseReady

def settle (value : Bool) (s : HypervInput) : InputDevice → HypervInput
  | keyboard => { s with keyboardReady := value }
  | mouse => { s with mouseReady := value }

def poll (signalled : HvRing → Bool) (timestamp : UInt64) : InputDevice → Program IosError HypervInput Unit
  | keyboard => HypervInput.hypervKeyboardPoll timestamp
  | mouse => HypervInput.hypervMousePoll signalled timestamp

/-- The messages that wait in the channel of the device. -/
def Waits (s : HypervInput) (pending : List HvPacket) : InputDevice → Prop
  | keyboard => s.keyboardChannel.Waiting KeyboardMessage.bytes pending
  | mouse => s.mouseChannel.Waiting MouseMessage.bytes pending

def dataSize (s : HypervInput) : InputDevice → Nat
  | keyboard => s.keyboardChannel.inbound.dataSize
  | mouse => s.mouseChannel.inbound.dataSize

/-- The next message of the device leaves it ready. -/
def Fits (s : HypervInput) : InputDevice → Prop
  | keyboard => s.KeyboardFits
  | mouse => s.MouseFits

end InputDevice

/-- An action meets the condition under which one device stays ready. -/
def InputSystem.MeetsFor (d : InputDevice) (s : InputSystem) : InputAction → Prop
  | .round _ => s.phase = d.phase → d.Fits s.machine
  | _ => True

section Arrivals
open HvRing HvPacket
variable {channel : InputChannel} {pending : List HvPacket} {type flags : UInt16} {transactionId : UInt64} {payload : List UInt8}

theorem length_padded (h : payload.length ≤ hvMessagePayloadSize) : (payload ++ padding payload).length ≤ hvMessagePayloadSize := by
  unfold padding alignPacket hvPacketAlignment
  rw [List.length_append, List.length_replicate]
  unfold hvMessagePayloadSize at *
  omega

theorem InputChannel.arrive_waiting {μ : Type} {bytes : μ → List UInt8} {m : μ} (h : channel.Waiting bytes pending)
    (hshort : (bytes m).length ≤ hvMessagePayloadSize) :
    ∃ pending', (channel.arrive type flags transactionId (bytes m)).Waiting bytes pending' := by
  have hspec := @write_spec channel.inbound (bytes m) type flags transactionId h.holds.1
  unfold arrive
  unfold wp at hspec
  split at hspec
  all_goals
    rename_i hr
    rw [hr]
  · obtain ⟨frame, hframe, hu⟩ := hspec
    refine ⟨_, h.holds.extended hframe hu, fun p hp => ?_, fun p hp => ?_⟩
    · rcases List.mem_append.mp hp with hp | hp
      · exact h.messages p hp
      · obtain rfl := List.mem_singleton.mp hp
        exact ⟨m, _, rfl⟩
    · rcases List.mem_append.mp hp with hp | hp
      · exact h.short p hp
      · obtain rfl := List.mem_singleton.mp hp
        exact length_padded hshort
  · exact ⟨pending, h.holds.unmoved hspec, h.messages, h.short⟩

theorem InputChannel.read_run {μ : Type} {bytes : μ → List UInt8} (hopen : channel.isOpen = true) (h : channel.Waiting bytes pending) :
    pending = [] ∧ HypervInput.nextPacket channel = none ∧ vmbusChannelRead hvMessagePayloadSize channel = (.error .wouldBlock, channel) ∨
      ∃ p m padding rest u, pending = p :: rest ∧ p.payload = bytes m ++ padding ∧ HypervInput.nextPacket channel = some p ∧
        Waiting bytes { channel with inbound := u } rest ∧
        vmbusChannelRead hvMessagePayloadSize channel = (.ok p, { channel with inbound := u }) := by
  have hpass : ¬channel.isOpen = false := by rw [hopen]; exact Bool.true_eq_false_eq_False
  unfold HypervInput.nextPacket vmbusChannelRead
  rcases @Holds.read _ _ hvMessagePayloadSize h.holds with ⟨hnone, hr⟩ | ⟨p, rest, rfl, ⟨hlong, -⟩ | ⟨-, u, hr, hu⟩⟩
  · refine Or.inl ⟨hnone, by rw [hr], ?_⟩
    rw [get_bind, failIf_pass hpass, modify_bind]
    rw [hr]
    rfl
  · exact absurd hlong (Nat.not_lt.mpr (h.short p List.mem_cons_self))
  · obtain ⟨m, padding, hp⟩ := h.messages p List.mem_cons_self
    refine Or.inr ⟨p, m, padding, rest, u, rfl, hp, by rw [hr], ⟨hu, fun p hp => h.messages p (List.mem_cons_of_mem _ hp),
      fun p hp => h.short p (List.mem_cons_of_mem _ hp)⟩, ?_⟩
    rw [get_bind, failIf_pass hpass, modify_bind]
    rw [hr]
    rfl

/-- There are fewer packets in a ring than bytes. -/
theorem length_pending_lt {ring : HvRing} (h : ring.Holds pending) : pending.length < ring.dataSize := by
  obtain ⟨hrange, frames, hframes, hunread⟩ := h
  have hflatten : ∀ {pending frames}, List.Forall₂ Framed pending frames → pending.length ≤ frames.flatten.length := by
    intro pending frames hframes
    induction hframes with
    | nil => exact Nat.le_refl _
    | cons hframe _ ih =>
      obtain ⟨head, gap, trailer, rfl, hhead, -⟩ := hframe
      rw [List.flatten_cons, List.length_append, List.length_append, List.length_cons, hhead]
      unfold hvDescriptorSize
      omega
  have hle := hflatten hframes
  rw [← hunread, length_unread] at hle
  exact hle.trans_lt (ringUsed_spec hrange.writeIndex hrange.readIndex).1

end Arrivals

def Keeping (r : Except IosError Unit) : Prop := ∀ e, r = .error e → HypervInput.KeepsReady e

theorem keeping_ok : Keeping (.ok ()) := fun _ h => by cases h

theorem keeping_error {e : IosError} : Keeping (.error e) ↔ HypervInput.KeepsReady e :=
  ⟨fun h => h e rfl, fun h _ he => Except.error.inj he ▸ h⟩

theorem keeping_emitStatus {q : InputQueue} {events : List InputEvent} :
    Keeping (q.emitStatus events) ↔ q.count + events.length ≤ inputQueueCapacity := by
  unfold InputQueue.emitStatus
  by_cases hfits : q.count + events.length ≤ inputQueueCapacity
  · rw [if_pos hfits]
    exact ⟨fun _ => hfits, fun _ => keeping_ok⟩
  · rw [if_neg hfits, keeping_error]
    exact ⟨fun h => absurd h (by decide), fun h => absurd h hfits⟩

/-- The queue still serves after a driver used it. -/
structure InputQueue.Serves (q u : InputQueue) : Prop where
  wf : u.Wf
  width : u.pointerWidth = q.pointerWidth
  height : u.pointerHeight = q.pointerHeight

namespace HypervKeyboard
open InputPort
variable {s : InputPort HypervKeyboard} {makeCode : UInt16} {information : UInt32} {timestamp : UInt64}

theorem handleEvent_spec (h : s.queue.Wf) : (handleEvent makeCode information timestamp s).2.driver.ready = s.driver.ready ∧
    s.queue.Serves (handleEvent makeCode information timestamp s).2.queue ∧
    (Keeping (handleEvent makeCode information timestamp s).1 ↔ information &&& synthKeyboardE1 = 0 ∧
      (keyboardKey makeCode (information &&& synthKeyboardE0 ≠ 0) ≠ keyNone → s.queue.count < inputQueueCapacity)) := by
  unfold handleEvent
  dsimp only
  by_cases he1 : information &&& synthKeyboardE1 ≠ 0
  · rw [failIf_bind he1]
    refine ⟨rfl, ⟨h, rfl, rfl⟩, keeping_error.trans ⟨fun hkeeps => absurd hkeeps (by decide), fun hand => absurd hand.1 he1⟩⟩
  rw [failIf_pass he1]
  generalize decide (information &&& synthKeyboardE0 ≠ 0) = extended
  generalize decide (information &&& synthKeyboardBreak ≠ 0) = released
  by_cases hkey : keyboardKey makeCode extended = keyNone
  · rw [failIf_bind hkey]
    exact ⟨rfl, ⟨h, rfl, rfl⟩, keeping_error.trans ⟨fun _ => ⟨not_not.mp he1, fun hsome => absurd hkey hsome⟩, fun _ => by decide⟩⟩
  rw [failIf_pass hkey, get_bind, onDriver_bind, get_bind]
  generalize hk : track (keyboardKey makeCode extended) (keyIndex makeCode extended) released _ = k
  have hready : k.ready = s.driver.ready := by rw [← hk]; rfl
  have hnormal := @InputEvent.normal_ofKey timestamp _ (if released then 0 else
      keyboardText (keyboardKey makeCode extended) k.shift k.capsLock) _ hkey
    (keyFlags_known released (!released && s.driver.keyDown (keyIndex makeCode extended)) k.shift k.control k.alt k.capsLock)
  obtain ⟨hstatus, hemits⟩ := InputQueue.push_emits h hnormal
  refine ⟨hready, ⟨hemits.wf, hemits.pointerWidth, hemits.pointerHeight⟩, ?_⟩
  refine Iff.trans (Iff.of_eq (congrArg Keeping hstatus)) (keeping_emitStatus.trans ?_)
  exact ⟨fun hroom => ⟨not_not.mp he1, fun _ => hroom⟩, fun hand => hand.2 hkey⟩

end HypervKeyboard

namespace HypervMouse
open InputPort InputQueue
variable {s : InputPort HypervMouse} {report : List UInt8} {timestamp : UInt64}

def movePart (targetX targetY : Int) (timestamp : UInt64) : Program IosError (InputPort HypervMouse) Unit := fun s =>
  (if targetX ≠ s.queue.pointerX ∨ targetY ≠ s.queue.pointerY then
    onQueue (emitPointerMove timestamp (targetX - s.queue.pointerX) (targetY - s.queue.pointerY)) else pure ()) s

theorem movePart_emits {targetX targetY : Int} (h : s.queue.Wf) (hwidth : 0 < s.queue.pointerWidth) (hheight : 0 < s.queue.pointerHeight) :
    (movePart targetX targetY timestamp s).2.driver = s.driver ∧
    ∃ q events, q.count = s.queue.count ∧ q.pointerWidth = s.queue.pointerWidth ∧ q.pointerHeight = s.queue.pointerHeight ∧
      events.length = (if targetX ≠ s.queue.pointerX ∨ targetY ≠ s.queue.pointerY then 1 else 0) ∧
      (movePart targetX targetY timestamp s).1 = q.emitStatus events ∧ Emits q (movePart targetX targetY timestamp s).2.queue events := by
  unfold movePart
  by_cases hmoves : targetX ≠ s.queue.pointerX ∨ targetY ≠ s.queue.pointerY
  · rw [if_pos hmoves, if_pos hmoves]
    obtain ⟨hstatus, hemits⟩ := @emitPointerMove_emits s.queue timestamp (targetX - s.queue.pointerX) (targetY - s.queue.pointerY) h hwidth hheight
    exact ⟨rfl, s.queue.moved (targetX - s.queue.pointerX) (targetY - s.queue.pointerY), [_], rfl, rfl, rfl, rfl, hstatus, hemits⟩
  · rw [if_neg hmoves, if_neg hmoves]
    exact ⟨rfl, s.queue, [], rfl, rfl, rfl, rfl, (emitStatus_none h).symm, Emits.none h⟩

theorem handleReport_spec (hlength : 5 ≤ report.length) (h : s.queue.Wf) (hwidth : 0 < s.queue.pointerWidth)
    (hheight : 0 < s.queue.pointerHeight) : (handleReport report timestamp s).2.driver.ready = s.driver.ready ∧
    s.queue.Serves (handleReport report timestamp s).2.queue ∧
    (Keeping (handleReport report timestamp s).1 ↔ s.queue.count +
      ((if scaleCoordinate (report.getD 1 0) (report.getD 2 0) s.queue.pointerWidth ≠ s.queue.pointerX ∨
        scaleCoordinate (report.getD 3 0) (report.getD 4 0) s.queue.pointerHeight ≠ s.queue.pointerY then 1 else 0) +
        (buttonChanges s.driver.buttons (report.getD 0 0 &&& 7)).length) ≤ inputQueueCapacity) := by
  have hshape : handleReport report timestamp s = (attempt (movePart (scaleCoordinate (report.getD 1 0) (report.getD 2 0) s.queue.pointerWidth)
      (scaleCoordinate (report.getD 3 0) (report.getD 4 0) s.queue.pointerHeight) timestamp) >>= fun moveStatus => do
      let buttonStatus ← attempt (emitMouseButtons (report.getD 0 0 &&& 7) timestamp)
      ofExcept (firstFailure moveStatus buttonStatus)) s := by
    unfold handleReport
    rw [failIf_pass (Nat.not_lt.mpr hlength), get_bind]
    rfl
  generalize scaleCoordinate (report.getD 1 0) (report.getD 2 0) s.queue.pointerWidth = targetX at *
  generalize scaleCoordinate (report.getD 3 0) (report.getD 4 0) s.queue.pointerHeight = targetY at *
  generalize report.getD 0 0 &&& 7 = buttons at *
  obtain ⟨hdriver, q, moves, hcount, hqwidth, hqheight, hmoves, hstatus, hemits⟩ := @movePart_emits s timestamp targetX targetY h hwidth hheight
  rw [hshape, attempt_bind, attempt_bind]
  generalize movePart targetX targetY timestamp s = r at *
  obtain ⟨hstatus', hemits'⟩ := @emitButtonsFrom_emits r.2.queue timestamp r.2.driver.buttons buttons (.ok ()) buttonCodes
    buttonCodes_known hemits.wf
  have htotal := hemits.trans hemits'
  have hready : r.2.driver.ready = s.driver.ready := congrArg HypervMouse.ready hdriver
  refine ⟨hready, ⟨htotal.wf, htotal.pointerWidth.trans hqwidth, htotal.pointerHeight.trans hqheight⟩, ?_⟩
  have hfinal : firstFailure r.1 (emitMouseButtons buttons timestamp r.2).1 =
      q.emitStatus (moves ++ r.2.queue.buttonEvents timestamp r.2.driver.buttons buttons buttonCodes) := by
    rw [← emitStatus_append hemits, hstatus]
    exact congrArg _ hstatus'
  show Keeping (firstFailure r.1 (emitMouseButtons buttons timestamp r.2).1) ↔ _
  rw [hfinal, keeping_emitStatus, List.length_append, hcount, hmoves, hdriver]
  unfold buttonEvents buttonChanges
  rw [List.length_map, List.length_map]

end HypervMouse

namespace HypervInput
variable {s : HypervInput} {signalled : HvRing → Bool} {timestamp : UInt64}

structure Polled (s : HypervInput) (fits : Prop) (r : Except IosError Unit × HypervInput) : Prop where
  serving : Serving r.2
  ready : ∀ d, InputDevice.ready r.2 d = d.ready s
  keeping : Keeping r.1 ↔ fits

theorem Serving.blocked (h : s.Serving) {fits : Prop} (hfits : fits) : s.Polled fits (.error .wouldBlock, s) :=
  ⟨h, fun _ => rfl, keeping_error.trans (iff_of_true (Or.inl rfl) hfits)⟩

theorem hypervKeyboardPoll_spec {pending : List HvPacket} (h : s.Serving) (hkeys : s.keyboardChannel.Waiting KeyboardMessage.bytes pending) :
    s.Polled s.KeyboardFits (hypervKeyboardPoll timestamp s) ∧ ((hypervKeyboardPoll timestamp s).1 = .ok () →
      ∃ p rest, pending = p :: rest ∧ (hypervKeyboardPoll timestamp s).2.keyboardChannel.Waiting KeyboardMessage.bytes rest) := by
  have hready : ¬s.keyboard.ready = false := by rw [h.keyboard]; exact Bool.true_eq_false_eq_False
  unfold hypervKeyboardPoll
  rw [get_bind, failIf_pass hready]
  rcases InputChannel.read_run h.keyboardOpen hkeys with ⟨-, hnext, hr⟩ | ⟨p, m, padding, rest, u, rfl, hp, hnext, hu, hr⟩
  · have hstop : onKeyboardChannel (InputChannel.vmbusChannelRead hvMessagePayloadSize) s = (.error .wouldBlock, s) := by
      unfold onKeyboardChannel zoom
      rw [hr]
    rw [bind_error hstop]
    refine ⟨h.blocked fun packet hp => ?_, fun hok => by cases hok⟩
    rw [hnext] at hp
    cases hp
  · have hread : onKeyboardChannel (InputChannel.vmbusChannelRead hvMessagePayloadSize) s =
        (.ok p, { s with keyboardChannel := { s.keyboardChannel with inbound := u } }) := by
      unfold onKeyboardChannel zoom
      rw [hr]
    obtain ⟨htype, -, -⟩ := @KeyboardMessage.fields padding m
    rw [← hp] at htype
    have hpass : ¬(p.payload.length < synthKeyboardEventSize ∨ wireField p.payload 0 4 ≠ synthKeyboardEvent) := by
      rw [hp, List.length_append, KeyboardMessage.length_bytes, ← hp]
      exact not_or.mpr ⟨by omega, not_not.mpr htype⟩
    rw [bind_ok hread, failIf_pass hpass]
    obtain ⟨hdriver, hqueue, hkeeping⟩ := @HypervKeyboard.handleEvent_spec ⟨s.keyboard, s.queue⟩
      (UInt16.ofNat (wireField p.payload 4 2)) (UInt32.ofNat (wireField p.payload 8 4)) timestamp h.queue
    refine ⟨⟨⟨h.keyboardOpen, h.mouseOpen, hdriver.trans h.keyboard, h.mouse, hqueue.wf, hqueue.width ▸ h.width, hqueue.height ▸ h.height,
      ⟨rest, hu⟩, h.reports⟩, fun d => by cases d <;> rfl, ?_⟩, fun _ => ⟨p, rest, rfl, hu⟩⟩
    exact hkeeping.trans (by simp only [KeyboardFits, hnext, Option.some.injEq, forall_eq'])

theorem hypervMousePoll_spec {pending : List HvPacket} (h : s.Serving) (hreports : s.mouseChannel.Waiting MouseMessage.bytes pending) :
    s.Polled s.MouseFits (hypervMousePoll signalled timestamp s) ∧ ((hypervMousePoll signalled timestamp s).1 = .ok () →
      ∃ p rest, pending = p :: rest ∧ (hypervMousePoll signalled timestamp s).2.mouseChannel.Waiting MouseMessage.bytes rest) := by
  have hready : ¬s.mouse.ready = false := by rw [h.mouse]; exact Bool.true_eq_false_eq_False
  unfold hypervMousePoll
  rw [get_bind, failIf_pass hready]
  rcases InputChannel.read_run h.mouseOpen hreports with ⟨-, hnext, hr⟩ | ⟨p, m, padding, rest, u, rfl, hp, hnext, hu, hr⟩
  · have hstop : onMouseChannel (InputChannel.vmbusChannelRead hvMessagePayloadSize) s = (.error .wouldBlock, s) := by
      unfold onMouseChannel zoom
      rw [hr]
    rw [bind_error hstop]
    refine ⟨h.blocked fun packet hp => ?_, fun hok => by cases hok⟩
    rw [hnext] at hp
    cases hp
  · have hread : onMouseChannel (InputChannel.vmbusChannelRead hvMessagePayloadSize) s =
        (.ok p, { s with mouseChannel := { s.mouseChannel with inbound := u } }) := by
      unfold onMouseChannel zoom
      rw [hr]
    have hcomplete := m.complete
    obtain ⟨htype, hpipe, hheader, hsize, hreport⟩ := @MouseMessage.fields padding m
    have hlength : p.payload.length = 2 * synthHidHeaderSize + m.report.length + padding.length := by
      rw [hp, List.length_append, MouseMessage.length_bytes]
    rw [← hp] at htype hpipe hheader hsize hreport
    rw [bind_ok hread]
    dsimp only
    have hpass : ¬(p.payload.length < 2 * synthHidHeaderSize ∨ wireField p.payload 0 4 ≠ synthHidPipeMessageData ∨
        wireField p.payload 4 4 < synthHidHeaderSize ∨ p.payload.length - synthHidHeaderSize < wireField p.payload 4 4 ∨
        wireField p.payload 4 4 - synthHidHeaderSize < wireField p.payload 12 4) := by
      rw [hpipe, hsize, hlength]
      unfold synthHidHeaderSize
      rintro (hbad | hbad | hbad | hbad | hbad)
      · omega
      · exact hbad htype
      · omega
      · omega
      · omega
    rw [failIf_pass hpass, hheader, if_neg (by decide), failIf_pass (not_not.mpr rfl), hsize, hreport]
    obtain ⟨hdriver, hqueue, hkeeping⟩ := @HypervMouse.handleReport_spec ⟨s.mouse, s.queue⟩ m.report timestamp hcomplete h.queue h.width h.height
    refine ⟨⟨⟨h.keyboardOpen, h.mouseOpen, h.keyboard, hdriver.trans h.mouse, hqueue.wf, hqueue.width ▸ h.width, hqueue.height ▸ h.height,
      h.keys, ⟨rest, hu⟩⟩, fun d => by cases d <;> rfl, ?_⟩, fun _ => ⟨p, rest, rfl, hu⟩⟩
    have hsame : ∀ i, i < 5 → (p.payload.drop (2 * synthHidHeaderSize)).getD i 0 = m.report.getD i 0 := by
      intro i hi
      rw [← hreport, List.getD_eq_getElem?_getD, List.getD_eq_getElem?_getD, List.getElem?_take_of_lt (by omega)]
    have hevents : s.reportEvents (p.payload.drop (2 * synthHidHeaderSize)) = s.reportEvents m.report := by
      unfold reportEvents
      rw [hsame 0 (by decide), hsame 1 (by decide), hsame 2 (by decide), hsame 3 (by decide), hsame 4 (by decide)]
    have hfits : s.MouseFits ↔ s.queue.count + s.reportEvents m.report ≤ inputQueueCapacity := by
      simp only [MouseFits, hnext, Option.some.injEq, forall_eq', hevents]
    exact hkeeping.trans hfits.symm

end HypervInput

namespace InputSystem
open HypervInput
variable {s : InputSystem} {signalled : HvRing → Bool} {timestamp : UInt64} {a : InputAction} {actions : List InputAction}
  {t : HypervInput} {d d' : InputDevice} {pending : List HvPacket} {rounds : Nat}

theorem serving_pop {s : HypervInput} (h : s.Serving) : Serving { s with queue := (InputQueue.pop s.queue).2 } := by
  obtain ⟨hwf, hwidth, hheight⟩ : (InputQueue.pop s.queue).2.Wf ∧ (InputQueue.pop s.queue).2.pointerWidth = s.queue.pointerWidth ∧
      (InputQueue.pop s.queue).2.pointerHeight = s.queue.pointerHeight := by
    by_cases hnone : s.queue.count = 0
    · rw [InputQueue.pop_empty hnone]
      exact ⟨h.queue, rfl, rfl⟩
    · rw [(InputQueue.pop_run h.queue hnone).1]
      exact ⟨h.queue.advanced, rfl, rfl⟩
  exact { h with queue := hwf, width := hwidth ▸ h.width, height := hheight ▸ h.height }

theorem round_device : round signalled timestamp ⟨t, d.phase⟩ =
    if d.ready t then
      match d.poll signalled timestamp t with
      | (.ok _, u) => ⟨u, d.phase⟩
      | (.error e, u) => ⟨d.settle (KeepsReady e) u, d.next⟩
    else ⟨t, d.next⟩ := by
  cases d <;> rfl

theorem poll_spec (h : t.Serving) (hwaits : d.Waits t pending) : t.Polled (d.Fits t) (d.poll signalled timestamp t) ∧
    ((d.poll signalled timestamp t).1 = .ok () →
      ∃ p rest, pending = p :: rest ∧ d.Waits (d.poll signalled timestamp t).2 rest) := by
  cases d with
  | keyboard => exact hypervKeyboardPoll_spec h hwaits
  | mouse => exact hypervMousePoll_spec h hwaits

theorem exists_waits (h : t.Serving) : ∃ pending, d.Waits t pending := by
  cases d with
  | keyboard => exact h.keys
  | mouse => exact h.reports

theorem ready_settle {value : Bool} : d'.ready (d.settle value t) = if d.phase = d'.phase then value else d'.ready t := by
  cases d <;> cases d' <;> rfl

theorem round_spec (h : s.machine.Serving) : (s.round signalled timestamp).machine.Serving ∧
    ∀ d : InputDevice, d.ready (s.round signalled timestamp).machine ↔ d.ready s.machine ∧ s.MeetsFor d (.round timestamp) := by
  obtain ⟨t, phase⟩ := s
  obtain rfl | ⟨d, rfl⟩ : phase = .idle ∨ ∃ d : InputDevice, phase = d.phase := by
    cases phase with
    | idle => exact Or.inl rfl
    | keyboard => exact Or.inr ⟨.keyboard, rfl⟩
    | mouse => exact Or.inr ⟨.mouse, rfl⟩
  · exact ⟨h, fun d => (and_iff_left (by cases d <;> exact nofun)).symm⟩
  obtain ⟨pending, hwaits⟩ := @exists_waits t d h
  obtain ⟨⟨hserving, hready, hkeeping⟩, -⟩ := @poll_spec signalled timestamp t d pending h hwaits
  have hother : ∀ {d' : InputDevice}, d.phase = d'.phase → d' = d := by cases d <;> rintro ⟨⟩ hx <;> first | rfl | cases hx
  rw [round_device]
  unfold MeetsFor
  dsimp only
  by_cases hd : d.ready t = true
  · rw [if_pos hd]
    rcases hr : d.poll signalled timestamp t with ⟨e | a, u⟩
    · rw [hr] at hserving hready hkeeping
      refine ⟨by cases d <;> exact { hserving with }, fun d' => ?_⟩
      rw [ready_settle]
      split
      · rename_i hsame
        obtain rfl := hother hsame
        rw [← hkeeping, keeping_error, decide_eq_true_iff, and_iff_right hd]
        exact (imp_iff_right rfl).symm
      · rename_i hsame
        exact (hready d' ▸ (and_iff_left fun hx => absurd hx hsame).symm)
    · rw [hr] at hserving hready hkeeping
      refine ⟨hserving, fun d' => hready d' ▸ (and_iff_left fun hx => ?_).symm⟩
      exact hother hx ▸ hkeeping.mp keeping_ok
  · rw [if_neg hd]
    refine ⟨h, fun d' => ⟨fun hx => ⟨hx, fun hsame => absurd (hother hsame ▸ hx) hd⟩, And.left⟩⟩

theorem serving_rounds {n : Nat} (h : s.machine.Serving) : ((round signalled timestamp)^[n] s).machine.Serving := by
  induction n generalizing s with
  | zero => exact h
  | succ n ih => exact ih (round_spec h).1

theorem serving_act (h : s.machine.Serving) : (s.act signalled a).machine.Serving := by
  cases a with
  | keyboardPacket type flags transactionId message =>
    obtain ⟨pending, hkeys⟩ := h.keys
    have hshort : message.bytes.length ≤ hvMessagePayloadSize := by rw [KeyboardMessage.length_bytes]; decide
    exact { h with keys := InputChannel.arrive_waiting hkeys hshort }
  | mousePacket type flags transactionId message =>
    obtain ⟨pending, hreports⟩ := h.reports
    have hshort : message.bytes.length ≤ hvMessagePayloadSize := by
      have hreport := message.short
      rw [MouseMessage.length_bytes]
      unfold hvMessagePayloadSize synthHidHeaderSize at *
      omega
    exact { h with reports := InputChannel.arrive_waiting hreports hshort }
  | round timestamp => exact (round_spec h).1
  | pop =>
    show (if s.phase = .idle then _ else s).machine.Serving
    split
    · exact serving_pop h
    · exact h

theorem ready_act (h : s.machine.Serving) : d.ready (s.act signalled a).machine ↔ d.ready s.machine ∧ s.MeetsFor d a := by
  cases a with
  | round timestamp => exact (round_spec h).2 d
  | keyboardPacket | mousePacket => cases d <;> exact (and_iff_left trivial).symm
  | pop =>
    refine Iff.trans ?_ (and_iff_left trivial).symm
    show d.ready (if s.phase = .idle then _ else s).machine ↔ _
    split
    · cases d <;> exact Iff.rfl
    · exact Iff.rfl

/-- A ready device stays ready exactly as long as each of its own rounds meets its condition, whatever the other device does. -/
theorem device_stays_ready_iff (h : s.machine.Serving) (hready : d.ready s.machine = true) :
    d.ready (actions.foldl (act signalled) s).machine ↔
      ∀ before a rest, actions = before ++ a :: rest → (before.foldl (act signalled) s).MeetsFor d a := by
  rw [← @allSteps_iff _ _ (act signalled) (MeetsFor d)]
  exact (survives_iff (I := fun s : InputSystem => s.machine.Serving) (R := fun s => d.ready s.machine) (fun s a hs => serving_act hs)
    (fun s a hs => ready_act hs) h).trans (and_iff_right hready)

theorem meets_iff : s.Meets a ↔ s.MeetsFor .keyboard a ∧ s.MeetsFor .mouse a := by
  cases a with
  | round timestamp =>
    obtain ⟨machine, phase⟩ := s
    cases phase <;> simp [Meets, MeetsFor, InputDevice.phase, InputDevice.Fits]
  | keyboardPacket | mousePacket | pop => exact (and_self_iff).symm

/-- Two ready devices stay ready exactly as long as every round of a poll meets the condition of its device. -/
theorem input_stays_ready_iff (h : s.machine.Serving) (hready : s.machine.BothReady) :
    (actions.foldl (act signalled) s).machine.BothReady ↔
      ∀ before a rest, actions = before ++ a :: rest → (before.foldl (act signalled) s).Meets a := by
  have hkeyboard := @device_stays_ready_iff s signalled actions .keyboard h hready.1
  have hmouse := @device_stays_ready_iff s signalled actions .mouse h hready.2
  simp only [meets_iff, imp_and, forall_and]
  exact and_congr hkeyboard hmouse

/-- The loop around the poll of a device is rounds, and it ends, as every round but the last takes a packet. -/
theorem pollRounds_rounds (h : t.Serving) (hwaits : d.Waits t pending) (hready : d.ready t = true) (hrounds : pending.length < rounds) :
    ∃ e u n, pollRounds (d.poll signalled timestamp) rounds t = (.ok (some e), u) ∧
      (round signalled timestamp)^[n] ⟨t, d.phase⟩ = ⟨d.settle (KeepsReady e) u, d.next⟩ := by
  induction rounds generalizing t pending with
  | zero => exact absurd hrounds (Nat.not_lt_zero _)
  | succ rounds ih =>
    obtain ⟨hpolled, hprogress⟩ := @poll_spec signalled timestamp t d pending h hwaits
    have hround := @round_device signalled timestamp t d
    rw [if_pos hready] at hround
    rw [pollRounds, attempt_bind]
    rcases hr : d.poll signalled timestamp t with ⟨e | ⟨⟩, u⟩
    · rw [hr] at hround
      exact ⟨e, u, 1, rfl, hround⟩
    · rw [hr] at hpolled hprogress hround
      obtain ⟨p, rest, rfl, hrest⟩ := hprogress rfl
      obtain ⟨e, v, n, hpoll, hrun⟩ := ih hpolled.serving hrest ((hpolled.ready d).trans hready) (Nat.lt_of_succ_lt_succ hrounds)
      refine ⟨e, v, n + 1, hpoll, ?_⟩
      rw [Function.iterate_succ_apply, hround]
      exact hrun

theorem waits_lt (h : d.Waits t pending) : pending.length < d.dataSize t := by
  cases d <;> exact length_pending_lt h.holds

/-- The part of a poll about a device, `pollKeyboard` or `pollMouse`. -/
theorem pollDevice_rounds (h : t.Serving) : ∃ u n, (do
      let s ← get
      if d.ready s then do
        let status ← pollRounds (d.poll signalled timestamp) (d.dataSize s + 1)
        modify fun s => d.settle (status.all fun e => KeepsReady e) s
      else pure () : Program IosError HypervInput Unit) t = (.ok (), u) ∧
    (round signalled timestamp)^[n] ⟨t, d.phase⟩ = ⟨u, d.next⟩ := by
  rw [get_bind]
  by_cases hready : d.ready t = true
  · obtain ⟨pending, hwaits⟩ := @exists_waits t d h
    obtain ⟨e, u, n, hpoll, hrun⟩ := @pollRounds_rounds signalled timestamp t d pending _ h hwaits hready
      (Nat.lt_succ_of_lt (waits_lt hwaits))
    rw [if_pos hready, bind_ok hpoll]
    exact ⟨_, n, rfl, hrun⟩
  · rw [if_neg hready]
    refine ⟨t, 1, rfl, round_device.trans (if_neg hready)⟩

/-- A poll of a serving platform returns, and it is a number of rounds. -/
theorem hypervPlatformInputPoll_rounds (h : t.Serving) : ∃ u n,
    hypervPlatformInputPoll signalled timestamp t = (.ok (), u) ∧ (round signalled timestamp)^[n] ⟨t, .idle⟩ = ⟨u, .idle⟩ := by
  obtain ⟨u, n, hkeyboard, hkeys⟩ : ∃ u n, pollKeyboard timestamp t = (.ok (), u) ∧ _ := @pollDevice_rounds signalled timestamp t .keyboard h
  have hserving := @serving_rounds ⟨t, InputDevice.keyboard.phase⟩ signalled timestamp n h
  rw [hkeys] at hserving
  obtain ⟨v, m, hmouse, hreports⟩ : ∃ v m, pollMouse signalled timestamp u = (.ok (), v) ∧ _ := @pollDevice_rounds signalled timestamp u .mouse hserving
  refine ⟨v, m + (n + 1), (bind_ok hkeyboard).trans hmouse, ?_⟩
  rw [Function.iterate_add_apply, Function.iterate_succ_apply]
  exact (congrArg _ hkeys).trans hreports

def emptyChannel : InputChannel := ⟨true, ⟨⟨0, 0, 0, 0⟩, fun _ => 0, 4096⟩, ⟨⟨0, 0, 0, 0⟩, fun _ => 0, 4096⟩⟩

def initialPlatform : HypervInput where
  keyboard := { HypervKeyboard.zero with ready := true }
  keyboardChannel := emptyChannel
  mouse := ⟨0, true⟩
  mouseChannel := emptyChannel
  queue := InputQueue.queueInitialize 1024 768
  keyboardReady := true
  mouseReady := true

theorem serving_initial : initialPlatform.Serving := by
  have hempty : HvRing.Holds ⟨⟨0, 0, 0, 0⟩, fun _ => 0, 4096⟩ [] := ⟨⟨by decide, by decide, by decide⟩, [], .nil, rfl⟩
  have hwaiting : ∀ {μ : Type} {bytes : μ → List UInt8}, emptyChannel.Waiting bytes [] :=
    ⟨hempty, fun p hp => (nomatch hp), fun p hp => (nomatch hp)⟩
  exact ⟨rfl, rfl, rfl, rfl, InputQueue.wf_queueInitialize, by decide, by decide, ⟨[], hwaiting⟩, ⟨[], hwaiting⟩⟩

theorem input_stays_ready_typing :
    let actions : List InputAction := [.keyboardPacket 6 0 1 ⟨0x1e, 0, 0⟩, .round 5, .round 5, .pop]
    (actions.foldl (act fun _ => true) ⟨initialPlatform, .idle⟩).machine.BothReady ↔
      ∀ before a rest, actions = before ++ a :: rest → (before.foldl (act fun _ => true) ⟨initialPlatform, .idle⟩).Meets a :=
  input_stays_ready_iff serving_initial ⟨rfl, rfl⟩

/-- One key with the bit E1, such as Pause, and the keyboard is never polled again. -/
theorem input_loses_keyboard : ¬∀ (signalled : HvRing → Bool) (s : InputSystem) (actions : List InputAction), s.machine.Serving →
    s.machine.BothReady → (actions.foldl (act signalled) s).machine.BothReady := by
  intro hall
  have hready := hall (fun _ => true) ⟨initialPlatform, .idle⟩ [.keyboardPacket 6 0 1 ⟨0x1d, 0, synthKeyboardE1⟩, .round 5, .round 5]
    serving_initial ⟨rfl, rfl⟩
  exact absurd hready (by decide +kernel)

end InputSystem
end InferenceOS
