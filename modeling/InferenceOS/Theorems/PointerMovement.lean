import InferenceOS.Theorems.InputQueues

/-! The PS/2 mouse: the pointer follows the movements of the packets, and the queue gets the changes of the buttons that it has
    room for. The driver reads a movement as a signed byte and does not look at the sign bits of the header. -/

namespace InferenceOS
open Program Function InputEvent

namespace InputQueue
variable {q u v : InputQueue} {e : InputEvent} {events events' : List InputEvent} {timestamp : UInt64} {deltaX deltaY : Int}
  {before buttons : UInt8} {first : Except IosError Unit}

structure Emits (q u : InputQueue) (events : List InputEvent) : Prop where
  wf : u.Wf
  contents : u.contents = q.contents ++ events.take (inputQueueCapacity - q.count)
  pointerX : u.pointerX = q.pointerX
  pointerY : u.pointerY = q.pointerY
  pointerWidth : u.pointerWidth = q.pointerWidth
  pointerHeight : u.pointerHeight = q.pointerHeight

def emitStatus (q : InputQueue) (events : List InputEvent) : Except IosError Unit :=
  if q.count + events.length ≤ inputQueueCapacity then .ok () else .error .noSpace

theorem Emits.none (h : q.Wf) : Emits q q [] := ⟨h, by rw [List.take_nil, List.append_nil], rfl, rfl, rfl, rfl⟩

theorem emitStatus_none (h : q.Wf) : q.emitStatus [] = .ok () := if_pos h.count

theorem Emits.count (h : Emits q u events) : u.count = q.count + min (inputQueueCapacity - q.count) events.length := by
  rw [← length_contents, h.contents, List.length_append, length_contents, List.length_take]

theorem Emits.trans (h : Emits q u events) (h' : Emits u v events') : Emits q v (events ++ events') := by
  refine ⟨h'.wf, ?_, h'.pointerX.trans h.pointerX, h'.pointerY.trans h.pointerY, h'.pointerWidth.trans h.pointerWidth,
    h'.pointerHeight.trans h.pointerHeight⟩
  rw [h'.contents, h.contents, List.append_assoc, List.take_append, h.count]
  congr 3
  omega

theorem emitStatus_append (h : Emits q u events) : firstFailure (q.emitStatus events) (u.emitStatus events') = q.emitStatus (events ++ events') := by
  have hcount := h.count
  unfold emitStatus
  rw [List.length_append]
  by_cases hfits : q.count + events.length ≤ inputQueueCapacity
  · rw [if_pos hfits, firstFailure, hcount]
    exact if_congr (by omega) rfl rfl
  · rw [if_neg hfits, firstFailure, if_neg (by omega)]

theorem push_emits (h : q.Wf) (he : e.Normal) : (push e q).1 = q.emitStatus [e] ∧ Emits q (push e q).2 [e] := by
  unfold emitStatus
  by_cases hroom : q.count < inputQueueCapacity
  · rw [push_run he hroom]
    refine ⟨(if_pos hroom).symm, h.pushed hroom, ?_, rfl, rfl, rfl, rfl⟩
    rw [contents_pushed h hroom, List.take_of_length_le]
    exact Nat.sub_pos_of_lt hroom
  · have hfull := le_antisymm h.count (Nat.not_lt.mp hroom)
    rw [push_full he hfull]
    refine ⟨(if_neg hroom).symm, h.refused, ?_, rfl, rfl, rfl, rfl⟩
    rw [hfull, Nat.sub_self, List.take_zero, List.append_nil]
    rfl

def moved (deltaX deltaY : Int) (q : InputQueue) : InputQueue :=
  { q with
    pointerX := clampCoordinate (q.pointerX + deltaX) q.pointerWidth
    pointerY := clampCoordinate (q.pointerY + deltaY) q.pointerHeight }

def moveEvent (timestamp : UInt64) (deltaX deltaY : Int) (q : InputQueue) : InputEvent :=
  ofMove timestamp (q.moved deltaX deltaY).pointerX (q.moved deltaX deltaY).pointerY deltaX deltaY

theorem emitPointerMove_emits (h : q.Wf) (hwidth : 0 < q.pointerWidth) (hheight : 0 < q.pointerHeight) :
    (emitPointerMove timestamp deltaX deltaY q).1 = q.emitStatus [q.moveEvent timestamp deltaX deltaY] ∧
      Emits (q.moved deltaX deltaY) (emitPointerMove timestamp deltaX deltaY q).2 [q.moveEvent timestamp deltaX deltaY] := by
  have hscreen : ¬(q.pointerWidth ≤ 0 ∨ q.pointerHeight ≤ 0) := not_or.mpr ⟨Int.not_le.mpr hwidth, Int.not_le.mpr hheight⟩
  unfold emitPointerMove
  rw [get_bind, failIf_pass hscreen, modify_bind]
  exact @push_emits (q.moved deltaX deltaY) _ ⟨h.head, h.count⟩ normal_ofMove

def buttonEvents (timestamp : UInt64) (before buttons : UInt8) (codes : List (UInt8 × UInt32)) (q : InputQueue) : List InputEvent :=
  (codes.filter fun p => (before ^^^ buttons) &&& p.1 ≠ 0).map fun p =>
    ofButton timestamp p.2 (buttons &&& p.1 ≠ 0) q.pointerX q.pointerY

theorem buttonCodes_known : ∀ p ∈ buttonCodes, ¬(p.2 < pointerButtonLeft ∨ pointerButtonMiddle < p.2) := by
  have hall : buttonCodes.all (fun p => ¬(p.2 < pointerButtonLeft ∨ pointerButtonMiddle < p.2)) = true := by decide
  exact fun p hp => of_decide_eq_true (List.all_eq_true.mp hall p hp)

theorem emitButtonsFrom_emits {codes : List (UInt8 × UInt32)}
    (hcodes : ∀ p ∈ codes, ¬(p.2 < pointerButtonLeft ∨ pointerButtonMiddle < p.2)) (h : q.Wf) :
    (emitButtonsFrom timestamp before buttons codes first q).1 =
        firstFailure first (q.emitStatus (q.buttonEvents timestamp before buttons codes)) ∧
      Emits q (emitButtonsFrom timestamp before buttons codes first q).2 (q.buttonEvents timestamp before buttons codes) := by
  induction codes generalizing q first with
  | nil =>
    refine ⟨?_, Emits.none h⟩
    show first = firstFailure first (q.emitStatus [])
    rw [emitStatus_none h]
    rcases first with e | ⟨⟩ <;> rfl
  | cons p codes ih =>
    obtain ⟨mask, code⟩ := p
    have hcode := not_or.mp (hcodes _ List.mem_cons_self)
    have hrest : ∀ p ∈ codes, ¬(p.2 < pointerButtonLeft ∨ pointerButtonMiddle < p.2) := fun p hp => hcodes p (List.mem_cons_of_mem _ hp)
    unfold emitButtonsFrom
    by_cases hchanged : (before ^^^ buttons) &&& mask ≠ 0
    · have hnormal := @normal_ofButton timestamp code (buttons &&& mask ≠ 0) q.pointerX q.pointerY hcode.1 hcode.2
      have hevents : q.buttonEvents timestamp before buttons ((mask, code) :: codes) =
          ofButton timestamp code (buttons &&& mask ≠ 0) q.pointerX q.pointerY :: q.buttonEvents timestamp before buttons codes := by
        unfold buttonEvents
        rw [List.filter_cons, if_pos (decide_eq_true hchanged), List.map_cons]
      obtain ⟨hstatus, hemits⟩ := push_emits h hnormal
      have hrun : emitPointerButton timestamp code (buttons &&& mask ≠ 0) q =
          push (ofButton timestamp code (buttons &&& mask ≠ 0) q.pointerX q.pointerY) q := by
        unfold emitPointerButton
        rw [get_bind, failIf_pass (not_or.mpr hcode)]
      rw [← hrun] at hstatus hemits
      obtain ⟨hstatus', hemits'⟩ := @ih (emitPointerButton timestamp code (buttons &&& mask ≠ 0) q).2
        (firstFailure first (emitPointerButton timestamp code (buttons &&& mask ≠ 0) q).1) hrest hemits.wf
      have hsame : (emitPointerButton timestamp code (buttons &&& mask ≠ 0) q).2.buttonEvents timestamp before buttons codes =
          q.buttonEvents timestamp before buttons codes := by
        unfold buttonEvents
        rw [hemits.pointerX, hemits.pointerY]
      rw [hsame] at hstatus' hemits'
      rw [if_pos hchanged, attempt_bind, hevents]
      refine ⟨?_, hemits.trans hemits'⟩
      rw [hstatus', hstatus]
      rcases first with e | ⟨⟩
      · rfl
      · exact emitStatus_append hemits
    · have hevents : q.buttonEvents timestamp before buttons ((mask, code) :: codes) = q.buttonEvents timestamp before buttons codes := by
        unfold buttonEvents
        rw [List.filter_cons, if_neg (by simpa using hchanged)]
      rw [if_neg hchanged, hevents]
      exact ih hrest h

end InputQueue

def InputEvent.button (e : InputEvent) : Option (UInt32 × Bool) :=
  if e.type = inputEventPointerButton then some (e.code, e.flags = inputPressed) else none

def buttonChanges (before buttons : UInt8) : List (UInt32 × Bool) :=
  (buttonCodes.filter fun p => (before ^^^ buttons) &&& p.1 ≠ 0).map fun p => (p.2, buttons &&& p.1 ≠ 0)

theorem InputQueue.button_buttonEvents {q : InputQueue} {timestamp : UInt64} {before buttons : UInt8} :
    (q.buttonEvents timestamp before buttons buttonCodes).filterMap button = buttonChanges before buttons := by
  have hflags : ∀ pressed : Bool, decide ((if pressed then inputPressed else 0) = inputPressed) = pressed := by decide
  unfold InputQueue.buttonEvents buttonChanges
  rw [List.filterMap_map, ← List.filterMap_eq_map]
  refine List.filterMap_congr fun p _ => ?_
  exact congrArg (fun pressed => some (p.2, pressed)) (hflags _)

/-- The driver of the mouse, the pointer and the size of the screen. -/
structure PointerView where
  driver : Ps2Mouse
  x : Int
  y : Int
  width : Int
  height : Int

def pointerView (s : InputPort Ps2Mouse) : PointerView :=
  ⟨s.driver, s.queue.pointerX, s.queue.pointerY, s.queue.pointerWidth, s.queue.pointerHeight⟩

theorem pointerView_of_emits {t : InputPort Ps2Mouse} {driver : Ps2Mouse} {q : InputQueue} {events : List InputEvent}
    (hdriver : t.driver = driver) (h : InputQueue.Emits q t.queue events) :
    pointerView t = ⟨driver, q.pointerX, q.pointerY, q.pointerWidth, q.pointerHeight⟩ := by
  unfold pointerView
  rw [hdriver, h.pointerX, h.pointerY, h.pointerWidth, h.pointerHeight]

namespace PointerView
variable {v : PointerView} {byte : UInt8}

def received (v : PointerView) (byte : UInt8) : Nat → UInt8 := update v.driver.packet v.driver.packetSize byte

def Moves (v : PointerView) (packet : Nat → UInt8) : Prop :=
  (packet 0 &&& 0xc0 = 0 ∧ (signedByte (packet 1) ≠ 0 ∨ -signedByte (packet 2) ≠ 0)) ∧ 0 < v.width ∧ 0 < v.height

instance {packet : Nat → UInt8} : Decidable (v.Moves packet) := inferInstanceAs (Decidable (_ ∧ _))

/-- The view after a complete packet. -/
def complete (v : PointerView) (packet : Nat → UInt8) : PointerView where
  driver := ⟨packet, 0, packet 0 &&& 7⟩
  x := if v.Moves packet then InputQueue.clampCoordinate (v.x + signedByte (packet 1)) v.width else v.x
  y := if v.Moves packet then InputQueue.clampCoordinate (v.y + -signedByte (packet 2)) v.height else v.y
  width := v.width
  height := v.height

def next (v : PointerView) (byte : UInt8) : PointerView × List (UInt32 × Bool) :=
  if v.driver.packetSize = 0 ∧ byte &&& 0x08 = 0 then (v, [])
  else if v.driver.packetSize + 1 ≠ 3 then ({ v with driver := ⟨v.received byte, v.driver.packetSize + 1, v.driver.buttons⟩ }, [])
  else (v.complete (v.received byte), buttonChanges v.driver.buttons (v.received byte 0 &&& 7))

def eventCount (v : PointerView) (byte : UInt8) : Nat :=
  if v.driver.packetSize + 1 ≠ 3 then 0
  else (if v.Moves (v.received byte) then 1 else 0) + (buttonChanges v.driver.buttons (v.received byte 0 &&& 7)).length

end PointerView
open PointerView

/-- The queue has room for the events of the byte. -/
def HasRoomFor (s : InputPort Ps2Mouse) (byte : UInt8) : Prop :=
  s.queue.count + (pointerView s).eventCount byte ≤ inputQueueCapacity

namespace Ps2Mouse
open InputPort InputQueue
variable {s : InputPort Ps2Mouse} {byte : UInt8} {timestamp : UInt64}

theorem emitButtonChanges_emits {buttons : UInt8} (h : s.queue.Wf) :
    (emitButtonChanges buttons timestamp s).2.driver = { s.driver with buttons } ∧
      Emits s.queue (emitButtonChanges buttons timestamp s).2.queue (s.queue.buttonEvents timestamp s.driver.buttons buttons buttonCodes) := by
  refine ⟨rfl, ?_⟩
  exact (emitButtonsFrom_emits buttonCodes_known h).2

def movePart (packet : Nat → UInt8) (timestamp : UInt64) : Program IosError (InputPort Ps2Mouse) Unit :=
  if packet 0 &&& 0xc0 = 0 ∧ (signedByte (packet 1) ≠ 0 ∨ -signedByte (packet 2) ≠ 0) then
    onQueue (emitPointerMove timestamp (signedByte (packet 1)) (-signedByte (packet 2))) else pure ()

theorem movePart_emits {packet : Nat → UInt8} (h : s.queue.Wf) : (movePart packet timestamp s).2.driver = s.driver ∧
    ∃ events, events.length = (if (pointerView s).Moves packet then 1 else 0) ∧ events.filterMap button = [] ∧
      Emits (if (pointerView s).Moves packet then s.queue.moved (signedByte (packet 1)) (-signedByte (packet 2)) else s.queue)
        (movePart packet timestamp s).2.queue events := by
  unfold movePart
  by_cases hmoves : (pointerView s).Moves packet
  · obtain ⟨hpacket, hwidth, hheight⟩ := hmoves
    rw [if_pos hpacket, if_pos ⟨hpacket, hwidth, hheight⟩, if_pos ⟨hpacket, hwidth, hheight⟩]
    exact ⟨rfl, [_], rfl, rfl, (emitPointerMove_emits h hwidth hheight).2⟩
  · rw [if_neg hmoves, if_neg hmoves]
    by_cases hpacket : packet 0 &&& 0xc0 = 0 ∧ (signedByte (packet 1) ≠ 0 ∨ -signedByte (packet 2) ≠ 0)
    · have hscreen : s.queue.pointerWidth ≤ 0 ∨ s.queue.pointerHeight ≤ 0 := by
        by_contra hscreen
        rw [not_or, Int.not_le, Int.not_le] at hscreen
        exact hmoves ⟨hpacket, hscreen⟩
      have hrun : emitPointerMove timestamp (signedByte (packet 1)) (-signedByte (packet 2)) s.queue =
          (.error .invalidArgument, s.queue) := by
        unfold emitPointerMove
        rw [get_bind, failIf_bind hscreen]
        rfl
      rw [if_pos hpacket]
      refine ⟨rfl, [], rfl, rfl, ?_⟩
      show Emits s.queue (emitPointerMove timestamp _ _ s.queue).2 []
      rw [hrun]
      exact Emits.none h
    · rw [if_neg hpacket]
      exact ⟨rfl, [], rfl, rfl, Emits.none h⟩

theorem handleByte_emits (h : s.queue.Wf) : pointerView (handleByte byte timestamp s).2 = ((pointerView s).next byte).1 ∧
    ∃ q events, Emits q (handleByte byte timestamp s).2.queue events ∧ q.contents = s.queue.contents ∧ q.count = s.queue.count ∧
      events.filterMap button = ((pointerView s).next byte).2 ∧ events.length = (pointerView s).eventCount byte := by
  have hdriver : (pointerView s).driver = s.driver := rfl
  unfold handleByte next eventCount
  rw [get_bind, hdriver]
  by_cases hreject : s.driver.packetSize = 0 ∧ byte &&& 0x08 = 0
  · rw [failIf_bind hreject, if_pos hreject, if_pos (by rw [hreject.1]; decide)]
    exact ⟨rfl, s.queue, [], Emits.none h, rfl, rfl, rfl, rfl⟩
  rw [failIf_pass hreject, if_neg hreject, onDriver_bind, get_bind]
  by_cases hpart : s.driver.packetSize + 1 ≠ 3
  · rw [if_pos hpart, if_pos hpart, if_pos hpart]
    exact ⟨rfl, s.queue, [], Emits.none h, rfl, rfl, rfl, rfl⟩
  rw [if_neg hpart, if_neg hpart, if_neg hpart, onDriver_bind]
  generalize hpacket : (pointerView s).received byte = packet
  let u : InputPort Ps2Mouse := ⟨⟨packet, 0, s.driver.buttons⟩, s.queue⟩
  obtain ⟨hkept, moves, hcount, hquiet, hmoves⟩ := @movePart_emits u timestamp packet h
  obtain ⟨hbuttons, hemits⟩ := @emitButtonChanges_emits (movePart packet timestamp u).2 timestamp (packet 0 &&& 7) hmoves.wf
  rw [hkept] at hbuttons hemits
  have htotal := hmoves.trans hemits
  suffices hfinal : pointerView (emitButtonChanges (packet 0 &&& 7) timestamp (movePart packet timestamp u).2).2 =
        (pointerView s).complete packet ∧
      ∃ q events, Emits q (emitButtonChanges (packet 0 &&& 7) timestamp (movePart packet timestamp u).2).2.queue events ∧
        q.contents = s.queue.contents ∧ q.count = s.queue.count ∧
        events.filterMap button = buttonChanges s.driver.buttons (packet 0 &&& 7) ∧
        events.length = (if (pointerView s).Moves packet then 1 else 0) + (buttonChanges s.driver.buttons (packet 0 &&& 7)).length by
    subst hpacket
    exact hfinal
  refine ⟨?_, _, _, htotal, ?_, ?_, ?_, ?_⟩
  · have hview := pointerView_of_emits hbuttons htotal
    rw [hview]
    unfold complete
    by_cases hm : (pointerView s).Moves packet
    · have hu : (pointerView u).Moves packet := hm
      rw [if_pos hu, if_pos hm, if_pos hm]
      rfl
    · have hu : ¬(pointerView u).Moves packet := hm
      rw [if_neg hu, if_neg hm, if_neg hm]
      rfl
  · split <;> rfl
  · split <;> rfl
  · rw [List.filterMap_append, hquiet, button_buttonEvents]
    rfl
  · rw [List.length_append, hcount]
    unfold buttonEvents buttonChanges
    rw [List.length_map, List.length_map]
    rfl

theorem handleByte_view : Follows pointerView (fun _ => (none : Option (UInt32 × Bool))) (fun _ _ => True) handleByte
    (fun v byte => ((v.next byte).1, [])) := by
  intro byte timestamp s h _
  obtain ⟨hview, q, events, hemits, hcontents, -, -, -⟩ := @handleByte_emits s byte timestamp h
  refine ⟨hview, hemits.wf, _, by rw [hemits.contents, hcontents], ?_⟩
  exact List.filterMap_eq_nil_iff.mpr fun _ _ => rfl

theorem handleByte_buttons : Follows pointerView button HasRoomFor handleByte next := by
  intro byte timestamp s h hroom
  obtain ⟨hview, q, events, hemits, hcontents, hcount, hbuttons, hlength⟩ := @handleByte_emits s byte timestamp h
  refine ⟨hview, hemits.wf, _, by rw [hemits.contents, hcontents], ?_⟩
  unfold HasRoomFor at hroom
  rw [List.take_of_length_le (by omega), hbuttons]

end Ps2Mouse
open Ps2Mouse

/-- A packet with the bit that is always one and without overflow. -/
structure MousePacket where
  header : UInt8
  x : UInt8
  y : UInt8
  aligned : header &&& 0x08 ≠ 0
  inRange : header &&& 0xc0 = 0

namespace MousePacket
variable {p : MousePacket}

def bytes (p : MousePacket) : List UInt8 := [p.header, p.x, p.y]

def buttons (p : MousePacket) : UInt8 := p.header &&& 7

/-- The movement that the driver reads. -/
def movement (p : MousePacket) : Int × Int := (signedByte p.x, -signedByte p.y)

def nineBit (negative : Bool) (byte : UInt8) : Int := if negative then byte.toNat - 256 else byte.toNat

/-- The movement with the sign bits of the header. -/
def signedMovement (p : MousePacket) : Int × Int := (nineBit (p.header &&& 0x10 ≠ 0) p.x, -nineBit (p.header &&& 0x20 ≠ 0) p.y)

/-- The sign bits repeat the top bits. -/
def SignsAgree (p : MousePacket) : Prop :=
  (p.header &&& 0x10 ≠ 0 ↔ 128 ≤ p.x.toNat) ∧ (p.header &&& 0x20 ≠ 0 ↔ 128 ≤ p.y.toNat)

def changes (before : UInt8) : List MousePacket → List (UInt32 × Bool)
  | [] => []
  | p :: rest => buttonChanges before p.buttons ++ changes p.buttons rest

theorem signedByte_eq (byte : UInt8) : signedByte byte = if 128 ≤ byte.toNat then (byte.toNat : Int) - 256 else byte.toNat := by
  have hbits : signedByte byte = byte.toBitVec.toInt := rfl
  have hnat : byte.toBitVec.toNat = byte.toNat := rfl
  rw [hbits, BitVec.toInt_eq_toNat_cond, hnat]
  by_cases hlow : 128 ≤ byte.toNat
  · rw [if_pos hlow, if_neg (by omega)]
    rfl
  · rw [if_neg hlow, if_pos (by omega)]

theorem signedByte_eq_nineBit_iff {negative : Bool} {byte : UInt8} :
    signedByte byte = nineBit negative byte ↔ (negative = true ↔ 128 ≤ byte.toNat) := by
  rw [signedByte_eq]
  unfold nineBit
  by_cases htop : 128 ≤ byte.toNat
  · rw [if_pos htop]
    cases negative
    · rw [if_neg Bool.false_ne_true]
      exact ⟨fun heq => by omega, fun h => absurd (h.mpr htop) Bool.false_ne_true⟩
    · exact ⟨fun _ => ⟨fun _ => htop, fun _ => rfl⟩, fun _ => rfl⟩
  · rw [if_neg htop]
    cases negative
    · exact ⟨fun _ => ⟨fun h => absurd h Bool.false_ne_true, fun h => absurd h htop⟩, fun _ => rfl⟩
    · rw [if_pos rfl]
      exact ⟨fun heq => by omega, fun h => absurd (h.mp rfl) htop⟩

theorem movement_eq_iff : p.movement = p.signedMovement ↔ p.SignsAgree := by
  unfold movement signedMovement SignsAgree
  rw [Prod.mk.injEq, signedByte_eq_nineBit_iff, Int.neg_inj, signedByte_eq_nineBit_iff, decide_eq_true_iff, decide_eq_true_iff]

end MousePacket
open MousePacket

def clampMove (size position delta : Int) : Int := max 0 (min (position + delta) (size - 1))

def pointerAfter (width height : Int) (position : Int × Int) (movements : List (Int × Int)) : Int × Int :=
  movements.foldl (fun position delta => (clampMove width position.1 delta.1, clampMove height position.2 delta.2)) position

theorem clampCoordinate_eq {size position delta : Int} (hsize : 0 < size) :
    InputQueue.clampCoordinate (position + delta) size = clampMove size position delta := by
  unfold InputQueue.clampCoordinate clampMove
  dsimp only
  split_ifs <;> omega

section Movement
variable {v : PointerView} {p : MousePacket} {packets : List MousePacket} {start s : InputPort Ps2Mouse} {taken : List InputEvent}

structure PointerView.OnScreen (v : PointerView) : Prop where
  left : 0 ≤ v.x
  right : v.x < v.width
  top : 0 ≤ v.y
  bottom : v.y < v.height

theorem clampMove_spec {size position delta : Int} (hlow : 0 ≤ position) (hhigh : position < size) :
    0 ≤ clampMove size position delta ∧ clampMove size position delta < size ∧ clampMove size position 0 = position := by
  unfold clampMove
  omega

theorem complete_packet {packet : Nat → UInt8} (hheader : packet 0 = p.header) (hx : packet 1 = p.x) (hy : packet 2 = p.y)
    (h : v.OnScreen) : v.complete packet = ⟨⟨packet, 0, p.buttons⟩, clampMove v.width v.x p.movement.1,
      clampMove v.height v.y p.movement.2, v.width, v.height⟩ := by
  obtain ⟨hleft, hright, htop, hbottom⟩ := h
  have hscreen : 0 < v.width ∧ 0 < v.height := ⟨by omega, by omega⟩
  unfold complete
  by_cases hmoves : v.Moves packet
  · rw [if_pos hmoves, if_pos hmoves, clampCoordinate_eq hscreen.1, clampCoordinate_eq hscreen.2, hheader, hx, hy]
    rfl
  · rw [if_neg hmoves, if_neg hmoves, hheader]
    have hstill : signedByte p.x = 0 ∧ -signedByte p.y = 0 := by
      by_contra hmove
      rw [not_and_or] at hmove
      exact hmoves ⟨⟨hheader ▸ p.inRange, by rwa [hx, hy]⟩, hscreen⟩
    unfold movement
    rw [hstill.1, hstill.2, (@clampMove_spec _ _ 0 hleft hright).2.2, (@clampMove_spec _ _ 0 htop hbottom).2.2]
    rfl

theorem follow_packet (hsize : v.driver.packetSize = 0) (h : v.OnScreen) : ∃ packet,
    follow next v p.bytes = (⟨⟨packet, 0, p.buttons⟩, clampMove v.width v.x p.movement.1,
      clampMove v.height v.y p.movement.2, v.width, v.height⟩, buttonChanges v.driver.buttons p.buttons) := by
  have hfirst : v.next p.header = ({ v with driver := ⟨update v.driver.packet 0 p.header, 1, v.driver.buttons⟩ }, []) := by
    unfold next received
    rw [hsize, if_neg fun hreject => p.aligned hreject.2, if_pos (by decide)]
  have hsecond : ({ v with driver := ⟨update v.driver.packet 0 p.header, 1, v.driver.buttons⟩ } : PointerView).next p.x =
      ({ v with driver := ⟨update (update v.driver.packet 0 p.header) 1 p.x, 2, v.driver.buttons⟩ }, []) := rfl
  generalize hpacket : update (update (update v.driver.packet 0 p.header) 1 p.x) 2 p.y = packet
  have hthird : ({ v with driver := ⟨update (update v.driver.packet 0 p.header) 1 p.x, 2, v.driver.buttons⟩ } :
      PointerView).next p.y = (v.complete packet, buttonChanges v.driver.buttons (packet 0 &&& 7)) := by
    rw [← hpacket]
    rfl
  have hheader : packet 0 = p.header := by rw [← hpacket]; rfl
  have hx : packet 1 = p.x := by rw [← hpacket]; rfl
  have hy : packet 2 = p.y := by rw [← hpacket]; rfl
  refine ⟨packet, (follow_cons_quiet hfirst).trans ((follow_cons_quiet hsecond).trans ?_)⟩
  rw [follow, hthird, complete_packet hheader hx hy h, hheader]
  exact Prod.ext rfl (List.append_nil _)

theorem follow_packets (hsize : v.driver.packetSize = 0) (h : v.OnScreen) :
    let u := (follow next v (packets.flatMap bytes)).1
    (u.x, u.y) = pointerAfter v.width v.height (v.x, v.y) (packets.map movement) ∧
      (follow next v (packets.flatMap bytes)).2 = changes v.driver.buttons packets := by
  induction packets generalizing v with
  | nil => exact ⟨rfl, rfl⟩
  | cons p packets ih =>
    obtain ⟨packet, hpacket⟩ := @follow_packet v p hsize h
    have hx := @clampMove_spec v.width v.x p.movement.1 h.left h.right
    have hy := @clampMove_spec v.height v.y p.movement.2 h.top h.bottom
    obtain ⟨hpointer, hchanges⟩ := @ih ⟨⟨packet, 0, p.buttons⟩, clampMove v.width v.x p.movement.1,
      clampMove v.height v.y p.movement.2, v.width, v.height⟩ rfl ⟨hx.1, hx.2.1, hy.1, hy.2.1⟩
    rw [List.flatMap_cons, follow_append, hpacket]
    refine ⟨hpointer, ?_⟩
    show _ ++ (follow next _ _).2 = _
    rw [hchanges]
    rfl

theorem follow_view {inputs : List UInt8} :
    (follow (fun (v : PointerView) byte => ((v.next byte).1, ([] : List (UInt32 × Bool)))) v inputs).1 = (follow next v inputs).1 := by
  induction inputs generalizing v with
  | nil => rfl
  | cons byte inputs ih => exact ih

theorem pointer_follows (hwf : start.queue.Wf) (hsize : start.driver.packetSize = 0)
    (hx : 0 ≤ start.queue.pointerX ∧ start.queue.pointerX < start.queue.pointerWidth)
    (hy : 0 ≤ start.queue.pointerY ∧ start.queue.pointerY < start.queue.pointerHeight)
    (h : InputRun (fun _ _ => True) handleByte start s (packets.flatMap bytes) taken) :
    (s.queue.pointerX, s.queue.pointerY) = pointerAfter start.queue.pointerWidth start.queue.pointerHeight
        (start.queue.pointerX, start.queue.pointerY) (packets.map movement) ∧
      (∀ p : MousePacket, p.movement = p.signedMovement ↔ p.SignsAgree) ∧
      (InputRun HasRoomFor handleByte start s (packets.flatMap bytes) taken →
        emitted button s taken =
          start.queue.contents.filterMap button ++ changes start.driver.buttons packets) ∧
      ∀ (q : InputQueue) (e : InputEvent), e.Normal → q.count = inputQueueCapacity →
        InputQueue.push e q = (.error .noSpace, q.refused) ∧ q.refused.contents = q.contents := by
  have hscreen : (pointerView start).OnScreen := ⟨hx.1, hx.2, hy.1, hy.2⟩
  obtain ⟨hpointer, hchanges⟩ := @follow_packets (pointerView start) packets hsize hscreen
  refine ⟨?_, fun p => movement_eq_iff, fun hroom => ?_, fun q e he hfull => ⟨InputQueue.push_full he hfull, rfl⟩⟩
  · obtain ⟨-, hview, -⟩ := emitted_of_run handleByte_view (fun _ => rfl) hwf h
    rw [follow_view] at hview
    rw [← hview] at hpointer
    exact hpointer
  · obtain ⟨-, -, hemitted⟩ := emitted_of_run handleByte_buttons (fun _ => rfl) hwf hroom
    rw [hemitted, hchanges]
    rfl

def middleMouse : InputPort Ps2Mouse := ⟨mouseInitialize, { InputQueue.queueInitialize 1000 1000 with pointerX := 500, pointerY := 500 }⟩

theorem pointer_follows_click :
    let packets : List MousePacket := [⟨0x29, 120, 200, by decide, by decide⟩]
    let s := feed handleByte middleMouse (packets.flatMap bytes)
    (s.queue.pointerX, s.queue.pointerY) = pointerAfter 1000 1000 (500, 500) (packets.map movement) ∧
      (∀ p : MousePacket, p.movement = p.signedMovement ↔ p.SignsAgree) ∧
      emitted button s [] = changes 0 packets :=
  have hroom : InputRun HasRoomFor handleByte middleMouse _ _ [] := run_feed_of_take (by unfold HasRoomFor; decide)
  have hall := pointer_follows ⟨by decide, by decide⟩ rfl (by decide) (by decide) (run_feed fun _ _ _ _ => trivial)
  ⟨hall.1, hall.2.1, hall.2.2.1 hroom⟩

def fullMouse : InputPort Ps2Mouse := ⟨mouseInitialize, { InputQueue.queueInitialize 1 1 with count := 128 }⟩

/-- A movement of +128 is read as -128, and a full queue takes no change of a button. -/
theorem pointer_strays :
    (¬∀ (start s : InputPort Ps2Mouse) (packets : List MousePacket) (taken : List InputEvent), start.queue.Wf → start.driver.packetSize = 0 →
      0 ≤ start.queue.pointerX ∧ start.queue.pointerX < start.queue.pointerWidth →
      0 ≤ start.queue.pointerY ∧ start.queue.pointerY < start.queue.pointerHeight →
      InputRun (fun _ _ => True) handleByte start s (packets.flatMap bytes) taken →
      (s.queue.pointerX, s.queue.pointerY) = pointerAfter start.queue.pointerWidth start.queue.pointerHeight
        (start.queue.pointerX, start.queue.pointerY) (packets.map signedMovement)) ∧
    ¬∀ (start s : InputPort Ps2Mouse) (packets : List MousePacket) (taken : List InputEvent), start.queue.Wf → start.driver.packetSize = 0 →
      InputRun (fun _ _ => True) handleByte start s (packets.flatMap bytes) taken →
      emitted button s taken =
        start.queue.contents.filterMap button ++ changes start.driver.buttons packets := by
  constructor
  · intro hall
    have hfails := hall middleMouse _ [⟨0x08, 0x80, 0, by decide, by decide⟩] [] ⟨by decide, by decide⟩ rfl (by decide) (by decide)
      (run_feed fun _ _ _ _ => trivial)
    exact absurd hfails (by decide)
  · intro hall
    have hfails := hall fullMouse _ [⟨0x09, 0, 0, by decide, by decide⟩] [] ⟨by decide, by decide⟩ rfl (run_feed fun _ _ _ _ => trivial)
    have hcontents : (feed handleByte fullMouse [0x09, 0, 0]).queue.contents = fullMouse.queue.contents := rfl
    have hchanges : changes fullMouse.driver.buttons [⟨0x09, 0, 0, by decide, by decide⟩] = [(pointerButtonLeft, true)] := by decide
    rw [hchanges] at hfails
    have hlength := congrArg List.length hfails
    rw [List.length_append] at hlength
    change ((feed handleByte fullMouse [0x09, 0, 0]).queue.contents.filterMap button).length = _ at hlength
    rw [hcontents] at hlength
    exact absurd hlength (Nat.ne_of_lt (Nat.lt_succ_self _))

end Movement
end InferenceOS
