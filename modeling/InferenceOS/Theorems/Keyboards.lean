import Mathlib.Data.List.Nodup
import InferenceOS.Drivers.HypervInput
import InferenceOS.Lib.Steps
import InferenceOS.Theorems.InputQueues

/-! The two keyboard drivers against one keyboard that remembers which keys are held. The PS/2 driver always reports what that
    keyboard does. The Hyper-V driver keeps one flag for both keys of a kind, and a release of either of them clears it. -/

namespace InferenceOS
open Program Function InputEvent InputQueue
variable {e : Bool}

/-- What a key event says. -/
structure KeyReport where
  code : UInt32
  text : UInt32
  flags : UInt32
  deriving DecidableEq

def InputEvent.report (e : InputEvent) : Option KeyReport := some ⟨e.code, e.text, e.flags⟩

def HasRoom {δ : Type} (s : InputPort δ) : Prop := s.queue.count < inputQueueCapacity

instance {δ : Type} {s : InputPort δ} : Decidable (HasRoom s) := inferInstanceAs (Decidable (_ < _))

section Tables
variable {α : Type} [DecidableEq α] {tables : Bool → List (α × UInt32)} {a b : α} {e e' : Bool}

theorem mem_of_lookup {l : List (α × UInt32)} (h : (l.lookup a).getD keyNone ≠ keyNone) : (a, (l.lookup a).getD keyNone) ∈ l := by
  cases hl : l.lookup a with
  | none =>
    rw [hl] at h
    exact absurd rfl h
  | some v =>
    obtain ⟨l₁, l₂, rfl, -⟩ := List.lookup_eq_some_iff.mp hl
    exact List.mem_append_right _ List.mem_cons_self

theorem code_inj (hd : ((tables true ++ tables false).map Prod.snd).Nodup)
    (h : ((tables e).lookup a).getD keyNone ≠ keyNone)
    (heq : ((tables e).lookup a).getD keyNone = ((tables e').lookup b).getD keyNone) : a = b ∧ e = e' := by
  have hmem := mem_of_lookup h
  have hmem' := mem_of_lookup (heq ▸ h)
  rw [← heq] at hmem'
  generalize ((tables e).lookup a).getD keyNone = v at *
  have hall : ∀ {e : Bool} {a : α}, (a, v) ∈ tables e → (a, v) ∈ tables true ++ tables false := fun {e} {a} ha => by
    cases e
    · exact List.mem_append_right _ ha
    · exact List.mem_append_left _ ha
  have hab := (Prod.mk.inj (List.inj_on_of_nodup_map hd (hall hmem) (hall hmem') rfl)).1
  refine ⟨hab, ?_⟩
  rw [List.map_append, List.nodup_append] at hd
  have hsnd : ∀ {e : Bool} {a : α}, (a, v) ∈ tables e → v ∈ (tables e).map Prod.snd := fun ha => List.mem_map_of_mem ha
  cases e <;> cases e'
  · rfl
  · exact absurd rfl (hd.2.2 v (hsnd hmem') v (hsnd hmem))
  · exact absurd rfl (hd.2.2 v (hsnd hmem) v (hsnd hmem'))
  · rfl

end Tables

theorem keyForScan_inj {scan scan' : UInt8} {e' : Bool} (h : keyForScan scan e ≠ keyNone)
    (heq : keyForScan scan e = keyForScan scan' e') : scan = scan' ∧ e = e' :=
  @code_inj _ _ (fun e => if e then extendedScanKeys else scanKeys) scan scan' e e' (by decide) h heq

theorem keyboardKey_inj {make make' : UInt16} {e' : Bool} (h : keyboardKey make e ≠ keyNone)
    (heq : keyboardKey make e = keyboardKey make' e') : make = make' ∧ e = e' :=
  @code_inj _ _ (fun e => if e then extendedMakeKeys else makeKeys) make make' e e' (by decide) h heq

theorem scan_not_special {scan : UInt8} (h : keyForScan scan e ≠ keyNone) : scan ≠ 0xe0 ∧ scan ≠ 0xf0 ∧ scan ≠ 0xe1 := by
  have hall : ∀ e : Bool, (if e then extendedScanKeys else scanKeys).all
      (fun p => p.1 ≠ 0xe0 ∧ p.1 ≠ 0xf0 ∧ p.1 ≠ 0xe1) = true := by decide
  exact of_decide_eq_true (List.all_eq_true.mp (hall e) _ (mem_of_lookup h))

theorem make_lt {make : UInt16} (h : keyboardKey make e ≠ keyNone) : make.toNat < 256 := by
  have hall : ∀ e : Bool, (if e then extendedMakeKeys else makeKeys).all (fun p => p.1.toNat < 256) = true := by decide
  exact of_decide_eq_true (List.all_eq_true.mp (hall e) _ (mem_of_lookup h))

/-- A key that both drivers support, with its codes. -/
structure SharedKey where
  scan : UInt8
  extended : Bool
  makeCode : UInt16
  extendedMake : Bool
  agree : keyForScan scan extended = keyboardKey makeCode extendedMake
  supported : keyForScan scan extended ≠ keyNone

namespace SharedKey
variable {key key' : SharedKey}

def code (key : SharedKey) : UInt32 := keyForScan key.scan key.extended

theorem index_inj {a b : Nat} {e' : Bool} (ha : a < 256) (hb : b < 256)
    (h : (if e then 256 else 0) + a = (if e' then 256 else 0) + b) : a = b ∧ e = e' := by
  cases e <;> cases e' <;> simp at h ⊢ <;> omega

theorem scanIndex_eq_iff : Ps2Keyboard.keyIndex key.scan key.extended = Ps2Keyboard.keyIndex key'.scan key'.extended ↔
    key.code = key'.code := by
  constructor
  · intro h
    obtain ⟨hscan, hextended⟩ := index_inj key.scan.toNat_lt key'.scan.toNat_lt h
    unfold code
    rw [UInt8.toNat_inj.mp hscan, hextended]
  · intro h
    obtain ⟨hscan, hextended⟩ := keyForScan_inj key.supported h
    rw [hscan, hextended]

theorem makeIndex_eq_iff : HypervKeyboard.keyIndex key.makeCode key.extendedMake =
    HypervKeyboard.keyIndex key'.makeCode key'.extendedMake ↔ key.code = key'.code := by
  have hne : ∀ key : SharedKey, keyboardKey key.makeCode key.extendedMake ≠ keyNone := fun key => key.agree ▸ key.supported
  constructor
  · intro h
    obtain ⟨hmake, hextended⟩ := index_inj (Nat.mod_lt _ (by decide)) (Nat.mod_lt _ (by decide)) h
    rw [Nat.mod_eq_of_lt (make_lt (hne key)), Nat.mod_eq_of_lt (make_lt (hne key'))] at hmake
    unfold code
    rw [key.agree, key'.agree, UInt16.toNat_inj.mp hmake, hextended]
  · intro h
    unfold code at h
    rw [key.agree, key'.agree] at h
    obtain ⟨hmake, hextended⟩ := keyboardKey_inj (hne key) h
    rw [hmake, hextended]

end SharedKey

/-- A press, a repeat or a release of a key. -/
structure KeyAction where
  key : SharedKey
  released : Bool

namespace KeyAction

/-- The bytes that a PS/2 keyboard sends. -/
def scanBytes (a : KeyAction) : List UInt8 :=
  (if a.key.extended then [0xe0] else []) ++ (if a.released then [0xf0] else []) ++ [a.key.scan]

/-- The event that a Hyper-V keyboard sends. -/
def makeEvent (a : KeyAction) : UInt16 × UInt32 :=
  (a.key.makeCode, (if a.released then synthKeyboardBreak else 0) ||| (if a.key.extendedMake then synthKeyboardE0 else 0))

def code (a : KeyAction) : UInt32 := a.key.code

end KeyAction

/-- The keys that are held, and whether caps lock is on. -/
structure KeyState where
  held : UInt32 → Bool
  locked : Bool

namespace KeyState
variable {s : KeyState} {a : KeyAction} {rest : List KeyAction} {code : UInt32}

def start : KeyState := ⟨fun _ => false, false⟩

def shift (s : KeyState) : Bool := s.held keyLeftShift || s.held keyRightShift

def control (s : KeyState) : Bool := s.held keyLeftControl || s.held keyRightControl

def alt (s : KeyState) : Bool := s.held keyLeftAlt || s.held keyRightAlt

def after (s : KeyState) (a : KeyAction) : KeyState where
  held := update s.held a.code (!a.released)
  locked := if a.code = keyCapsLock ∧ a.released = false ∧ s.held a.code = false then !s.locked else s.locked

def report (s : KeyState) (a : KeyAction) : KeyReport where
  code := a.code
  text := if a.released then 0 else keyText a.code (s.after a).shift (s.after a).locked
  flags := keyFlags a.released (!a.released && s.held a.code) (s.after a).shift (s.after a).control (s.after a).alt (s.after a).locked

def run (acts : List KeyAction) : KeyState := acts.foldl after start

def reports (s : KeyState) : List KeyAction → List KeyReport
  | [] => []
  | a :: rest => s.report a :: (s.after a).reports rest

def twin (code : UInt32) : Option UInt32 :=
  [(keyLeftShift, keyRightShift), (keyRightShift, keyLeftShift), (keyLeftControl, keyRightControl),
    (keyRightControl, keyLeftControl), (keyLeftAlt, keyRightAlt), (keyRightAlt, keyLeftAlt)].lookup code

def Lone (s : KeyState) (a : KeyAction) : Prop := a.released = true → ∀ code, twin a.code = some code → s.held code = false

theorem held_after : (s.after a).held code = if code = a.code then !a.released else s.held code := update_apply _ _ _ _

end KeyState

theorem keyFlags_known (released repeated shift control alt capsLock : Bool) :
    keyFlags released repeated shift control alt capsLock &&& ~~~inputKnownFlags = 0 := by
  revert released repeated shift control alt capsLock
  decide

namespace Ps2Keyboard
open InputPort
variable {k : Ps2Keyboard} {s : KeyState} {a : KeyAction} {acts : List KeyAction} {released extended : Bool}

/-- What the driver reports about a key, once it has noted it. -/
def reportKey (key : UInt32) (released repeated : Bool) (k : Ps2Keyboard) : KeyReport where
  code := key
  text := if released then 0 else shiftedText key (k.leftShift || k.rightShift) k.capsLock
  flags := keyFlags released repeated (k.leftShift || k.rightShift) (k.leftControl || k.rightControl)
    (k.leftAlt || k.rightAlt) k.capsLock

def plain (k : Ps2Keyboard) : Ps2Keyboard := { k with breakPrefix := false, extendedPrefix := false }

/-- The driver and its reports after a byte. -/
def next (k : Ps2Keyboard) (byte : UInt8) : Ps2Keyboard × List KeyReport :=
  if k.pauseBytesRemaining ≠ 0 then ({ k with pauseBytesRemaining := k.pauseBytesRemaining - 1 }, [])
  else if byte = 0xe0 then ({ k with extendedPrefix := true }, [])
  else if byte = 0xf0 then ({ k with breakPrefix := true }, [])
  else if byte = 0xe1 then ({ k with extendedPrefix := false, breakPrefix := false, pauseBytesRemaining := 7 }, [])
  else if keyForScan byte k.extendedPrefix = keyNone then (k.plain, [])
  else
    let index := keyIndex byte k.extendedPrefix
    let key := keyForScan byte k.extendedPrefix
    (track key index k.breakPrefix k.plain,
      [reportKey key k.breakPrefix (!k.breakPrefix && k.keyDown index) (track key index k.breakPrefix k.plain)])

theorem handleByte_follows : Follows InputPort.driver report (fun s _ => HasRoom s) handleByte next := by
  intro byte timestamp s hwf hroom
  have hquiet : ∀ k : Ps2Keyboard, k = k ∧ s.queue.Wf ∧ ∃ events : List InputEvent, s.queue.contents = s.queue.contents ++ events ∧
      events.filterMap report = [] := fun k => ⟨rfl, hwf, [], (List.append_nil _).symm, rfl⟩
  unfold handleByte next
  rw [get_bind]
  by_cases hpause : s.driver.pauseBytesRemaining ≠ 0
  · rw [if_pos hpause, if_pos hpause]
    exact hquiet _
  rw [if_neg hpause, if_neg hpause]
  by_cases he0 : byte = 0xe0
  · rw [if_pos he0, if_pos he0]
    exact hquiet _
  rw [if_neg he0, if_neg he0]
  by_cases hf0 : byte = 0xf0
  · rw [if_pos hf0, if_pos hf0]
    exact hquiet _
  rw [if_neg hf0, if_neg hf0]
  by_cases he1 : byte = 0xe1
  · rw [if_pos he1, if_pos he1]
    exact hquiet _
  rw [if_neg he1, if_neg he1]
  dsimp only
  rw [onDriver_bind]
  by_cases hkey : keyForScan byte s.driver.extendedPrefix = keyNone
  · rw [if_pos hkey, failIf_bind hkey]
    exact hquiet _
  rw [if_neg hkey, failIf_pass hkey]
  rw [onDriver_bind, get_bind]
  generalize hk : track (keyForScan byte s.driver.extendedPrefix) (keyIndex byte s.driver.extendedPrefix) s.driver.breakPrefix _ = k
  dsimp only
  have hnormal := @normal_ofKey timestamp _ (if s.driver.breakPrefix then 0 else
      shiftedText (keyForScan byte s.driver.extendedPrefix) (k.leftShift || k.rightShift) k.capsLock) _ hkey
    (keyFlags_known s.driver.breakPrefix (!s.driver.breakPrefix && s.driver.keyDown (keyIndex byte s.driver.extendedPrefix))
      (k.leftShift || k.rightShift) (k.leftControl || k.rightControl) (k.leftAlt || k.rightAlt) k.capsLock)
  unfold emitKey
  rw [@onQueue_push _ { s with driver := k } _ hnormal hroom]
  subst hk
  exact ⟨rfl, hwf.pushed hroom, [_], contents_pushed hwf hroom, rfl⟩

/-- The driver between two keys knows what the keyboard does. -/
structure Shows (k : Ps2Keyboard) (s : KeyState) : Prop where
  breakPrefix : k.breakPrefix = false
  extendedPrefix : k.extendedPrefix = false
  pause : k.pauseBytesRemaining = 0
  leftShift : k.leftShift = s.held keyLeftShift
  rightShift : k.rightShift = s.held keyRightShift
  leftControl : k.leftControl = s.held keyLeftControl
  rightControl : k.rightControl = s.held keyRightControl
  leftAlt : k.leftAlt = s.held keyLeftAlt
  rightAlt : k.rightAlt = s.held keyRightAlt
  capsLock : k.capsLock = s.locked
  keyDown : ∀ key : SharedKey, k.keyDown (keyIndex key.scan key.extended) = s.held key.code

theorem shows_start : Shows keyboardInitialize KeyState.start := by
  constructor <;> intros <;> rfl

theorem Shows.track (h : Shows k s) : Shows (k.track a.code (keyIndex a.key.scan a.key.extended) a.released) (s.after a) := by
  have hmodifier : ∀ {flag : Bool} {code : UInt32}, flag = s.held code →
      (if a.code = code then !a.released else flag) = (s.after a).held code := by
    intro flag code hflag
    rw [KeyState.held_after, hflag]
    exact if_congr ⟨Eq.symm, Eq.symm⟩ rfl rfl
  refine ⟨h.breakPrefix, h.extendedPrefix, h.pause, hmodifier h.leftShift, hmodifier h.rightShift, hmodifier h.leftControl,
    hmodifier h.rightControl, hmodifier h.leftAlt, hmodifier h.rightAlt, ?_, fun key => ?_⟩
  · show (if _ ∧ _ ∧ k.keyDown _ = false then !k.capsLock else k.capsLock) = if _ then _ else _
    rw [h.keyDown a.key, h.capsLock]
    rfl
  · show update k.keyDown _ _ _ = _
    rw [update_apply, KeyState.held_after, h.keyDown key]
    exact if_congr SharedKey.scanIndex_eq_iff rfl rfl

theorem Shows.scanBytes (h : Shows k s) : Shows (follow next k a.scanBytes).1 (s.after a) ∧
    (follow next k a.scanBytes).2 = [s.report a] := by
  obtain ⟨hne0, hnf0, hne1⟩ := scan_not_special a.key.supported
  have hscan : ∀ k' : Ps2Keyboard, k'.pauseBytesRemaining = 0 → k'.plain = k → k'.extendedPrefix = a.key.extended → k'.breakPrefix = a.released →
      k'.keyDown = k.keyDown → next k' a.key.scan = (k.track a.code (keyIndex a.key.scan a.key.extended) a.released, [s.report a]) := by
    intro k' hpause hplain hextended hreleased hdown
    unfold next
    rw [if_neg (not_not.mpr hpause), if_neg hne0, if_neg hnf0, if_neg hne1, hextended, if_neg a.key.supported]
    dsimp only
    rw [hplain, hreleased, hdown, h.keyDown a.key]
    have hshow := @Shows.track k s a h
    unfold reportKey KeyState.report KeyState.shift KeyState.control KeyState.alt
    rw [← hshow.leftShift, ← hshow.rightShift, ← hshow.leftControl, ← hshow.rightControl, ← hshow.leftAlt, ← hshow.rightAlt, ← hshow.capsLock]
    rfl
  have hplain : ∀ {released extended : Bool}, plain { k with breakPrefix := released, extendedPrefix := extended } = k := by
    intro released extended
    have hb := h.breakPrefix
    have he := h.extendedPrefix
    cases k
    dsimp only at hb he
    rw [hb, he]
    rfl
  have hextend : ∀ {k' : Ps2Keyboard}, k'.pauseBytesRemaining = 0 →
      next k' 0xe0 = ({ k' with extendedPrefix := true }, []) ∧ next k' 0xf0 = ({ k' with breakPrefix := true }, []) := by
    intro k' hpause
    unfold next
    rw [if_neg (not_not.mpr hpause), if_neg (not_not.mpr hpause)]
    exact ⟨rfl, rfl⟩
  have hlast : ∀ {k' : Ps2Keyboard}, k'.pauseBytesRemaining = 0 → k'.plain = k → k'.extendedPrefix = a.key.extended →
      k'.breakPrefix = a.released → k'.keyDown = k.keyDown → follow next k' [a.key.scan] =
        (k.track a.code (keyIndex a.key.scan a.key.extended) a.released, [s.report a]) := by
    intro k' hpause hplain hextended hreleased hdown
    rw [follow, hscan k' hpause hplain hextended hreleased hdown]
    rfl
  suffices hfollow : follow next k a.scanBytes = (k.track a.code (keyIndex a.key.scan a.key.extended) a.released, [s.report a]) by
    rw [hfollow]
    exact ⟨h.track, rfl⟩
  -- Each prefix sets its flag, and the last byte finds both flags as the action has them.
  suffices hall : ∀ extended released : Bool, a.key.extended = extended → a.released = released →
      follow next k ((if extended then [0xe0] else []) ++ (if released then [0xf0] else []) ++ [a.key.scan]) =
        (k.track a.code (keyIndex a.key.scan a.key.extended) a.released, [s.report a]) from hall _ _ rfl rfl
  intro extended released hextended hreleased
  cases extended with
  | false =>
    have he := h.extendedPrefix.trans hextended.symm
    cases released with
    | false => exact hlast h.pause hplain he (h.breakPrefix.trans hreleased.symm) rfl
    | true => exact (follow_cons_quiet (hextend h.pause).2).trans (hlast h.pause hplain he hreleased.symm rfl)
  | true =>
    refine (follow_cons_quiet (hextend h.pause).1).trans ?_
    cases released with
    | false => exact hlast h.pause hplain hextended.symm (h.breakPrefix.trans hreleased.symm) rfl
    | true => exact (follow_cons_quiet (@hextend { k with extendedPrefix := true } h.pause).2).trans (hlast h.pause hplain hextended.symm hreleased.symm rfl)

theorem Shows.actions (h : Shows k s) : (follow next k (acts.flatMap KeyAction.scanBytes)).2 = s.reports acts := by
  induction acts generalizing k s with
  | nil => rfl
  | cons a acts ih =>
    obtain ⟨hshows, hreport⟩ := @Shows.scanBytes k s a h
    rw [List.flatMap_cons, follow_append, hreport, ih hshows]
    rfl

end Ps2Keyboard

theorem keyFlags_bits (released repeated shift control alt capsLock : Bool) :
    let flags := keyFlags released repeated shift control alt capsLock
    (flags &&& inputShift ≠ 0 ↔ shift = true) ∧ (flags &&& inputControl ≠ 0 ↔ control = true) ∧
      (flags &&& inputAlt ≠ 0 ↔ alt = true) := by
  revert released repeated shift control alt capsLock
  decide

namespace KeyState
variable {s : KeyState} {a : KeyAction} {left right : UInt32} {flag : Bool}

theorem joint_flag (hne : left ≠ right) (hflag : flag = (s.held left || s.held right)) :
    (if a.code = left ∨ a.code = right then !a.released else flag) = ((s.after a).held left || (s.after a).held right) ↔
      (a.released = true → (a.code = left → s.held right = false) ∧ (a.code = right → s.held left = false)) := by
  rw [held_after, held_after]
  by_cases hleft : a.code = left
  · have hright : a.code ≠ right := fun h => hne (hleft.symm.trans h)
    rw [if_pos (Or.inl hleft), if_pos hleft.symm, if_neg hright.symm]
    cases a.released <;> simp [hleft, hne]
  · by_cases hright : a.code = right
    · rw [if_pos (Or.inr hright), if_neg (fun h => hleft h.symm), if_pos hright.symm]
      have hother : right ≠ left := hne.symm
      cases a.released <;> simp [hright, hother]
    · rw [if_neg (not_or.mpr ⟨hleft, hright⟩), if_neg (fun h => hleft h.symm), if_neg (fun h => hright h.symm)]
      simp [hleft, hright, hflag]

theorem lone_iff : s.Lone a ↔
    (a.released = true → (a.code = keyLeftShift → s.held keyRightShift = false) ∧ (a.code = keyRightShift → s.held keyLeftShift = false)) ∧
    (a.released = true → (a.code = keyLeftControl → s.held keyRightControl = false) ∧ (a.code = keyRightControl → s.held keyLeftControl = false)) ∧
    (a.released = true → (a.code = keyLeftAlt → s.held keyRightAlt = false) ∧ (a.code = keyRightAlt → s.held keyLeftAlt = false)) := by
  constructor
  · intro h
    have hof : ∀ {code other : UInt32}, twin code = some other → a.released = true → a.code = code → s.held other = false :=
      fun ht hr hc => h hr _ (hc ▸ ht)
    exact ⟨fun hr => ⟨hof (by decide) hr, hof (by decide) hr⟩, fun hr => ⟨hof (by decide) hr, hof (by decide) hr⟩,
      fun hr => ⟨hof (by decide) hr, hof (by decide) hr⟩⟩
  · rintro ⟨hshift, hcontrol, halt⟩ hr code hcode
    obtain ⟨l₁, l₂, hlist, -⟩ := List.lookup_eq_some_iff.mp hcode
    have hmem : (a.code, code) ∈ [(keyLeftShift, keyRightShift), (keyRightShift, keyLeftShift), (keyLeftControl, keyRightControl),
        (keyRightControl, keyLeftControl), (keyLeftAlt, keyRightAlt), (keyRightAlt, keyLeftAlt)] := by
      rw [hlist]
      exact List.mem_append_right _ List.mem_cons_self
    simp only [List.mem_cons, Prod.mk.injEq, List.not_mem_nil, or_false] at hmem
    rcases hmem with ⟨hc, rfl⟩ | ⟨hc, rfl⟩ | ⟨hc, rfl⟩ | ⟨hc, rfl⟩ | ⟨hc, rfl⟩ | ⟨hc, rfl⟩
    · exact (hshift hr).1 hc
    · exact (hshift hr).2 hc
    · exact (hcontrol hr).1 hc
    · exact (hcontrol hr).2 hc
    · exact (halt hr).1 hc
    · exact (halt hr).2 hc

end KeyState

namespace HypervKeyboard
open InputPort
variable {k : HypervKeyboard} {s : KeyState} {a : KeyAction} {acts : List KeyAction}

def reportKey (key : UInt32) (released repeated : Bool) (k : HypervKeyboard) : KeyReport where
  code := key
  text := if released then 0 else keyboardText key k.shift k.capsLock
  flags := keyFlags released repeated k.shift k.control k.alt k.capsLock

/-- The driver and its reports after an event. -/
def next (k : HypervKeyboard) (event : UInt16 × UInt32) : HypervKeyboard × List KeyReport :=
  let released : Bool := event.2 &&& synthKeyboardBreak ≠ 0
  let extended : Bool := event.2 &&& synthKeyboardE0 ≠ 0
  let key := keyboardKey event.1 extended
  let index := keyIndex event.1 extended
  if event.2 &&& synthKeyboardE1 ≠ 0 then (k, [])
  else if key = keyNone then (k, [])
  else (track key index released k, [reportKey key released (!released && k.keyDown index) (track key index released k)])

def handle (event : UInt16 × UInt32) (timestamp : UInt64) : Program IosError (InputPort HypervKeyboard) Unit :=
  handleEvent event.1 event.2 timestamp

theorem handle_follows : Follows InputPort.driver report (fun s _ => HasRoom s) handle next := by
  intro event timestamp s hwf hroom
  have hquiet : s.driver = s.driver ∧ s.queue.Wf ∧ ∃ events : List InputEvent, s.queue.contents = s.queue.contents ++ events ∧
      events.filterMap report = [] := ⟨rfl, hwf, [], (List.append_nil _).symm, rfl⟩
  unfold handle handleEvent next
  dsimp only
  by_cases he1 : event.2 &&& synthKeyboardE1 ≠ 0
  · rw [if_pos he1, failIf_bind he1]
    exact hquiet
  rw [if_neg he1, failIf_pass he1]
  generalize decide (event.2 &&& synthKeyboardE0 ≠ 0) = extended
  generalize decide (event.2 &&& synthKeyboardBreak ≠ 0) = released
  by_cases hkey : keyboardKey event.1 extended = keyNone
  · rw [if_pos hkey, failIf_bind hkey]
    exact hquiet
  rw [if_neg hkey, failIf_pass hkey, get_bind, onDriver_bind, get_bind]
  generalize hk : track (keyboardKey event.1 extended) (keyIndex event.1 extended) released _ = k
  dsimp only
  have hnormal := @normal_ofKey timestamp _ (if released then 0 else
      keyboardText (keyboardKey event.1 extended) k.shift k.capsLock) _ hkey
    (keyFlags_known released (!released && s.driver.keyDown (keyIndex event.1 extended)) k.shift k.control k.alt k.capsLock)
  unfold emitKey
  rw [@onQueue_push _ { s with driver := k } _ hnormal hroom]
  subst hk
  exact ⟨rfl, hwf.pushed hroom, [_], contents_pushed hwf hroom, rfl⟩

/-- The driver knows what the keyboard does. -/
structure Shows (k : HypervKeyboard) (s : KeyState) : Prop where
  shift : k.shift = s.shift
  control : k.control = s.control
  alt : k.alt = s.alt
  capsLock : k.capsLock = s.locked
  keyDown : ∀ key : SharedKey, k.keyDown (keyIndex key.makeCode key.extendedMake) = s.held key.code

theorem shows_start : Shows zero KeyState.start := by
  constructor <;> intros <;> rfl

theorem Shows.track (h : Shows k s) (hlone : s.Lone a) :
    Shows (k.track a.code (keyIndex a.key.makeCode a.key.extendedMake) a.released) (s.after a) := by
  obtain ⟨hshift, hcontrol, halt⟩ := KeyState.lone_iff.mp hlone
  refine ⟨(KeyState.joint_flag (by decide) h.shift).mpr hshift, (KeyState.joint_flag (by decide) h.control).mpr hcontrol,
    (KeyState.joint_flag (by decide) h.alt).mpr halt, ?_, fun key => ?_⟩
  · show (if _ ∧ _ ∧ k.keyDown _ = false then !k.capsLock else k.capsLock) = if _ then _ else _
    rw [h.keyDown a.key, h.capsLock]
    rfl
  · show update k.keyDown _ _ _ = _
    rw [update_apply, KeyState.held_after, h.keyDown key]
    exact if_congr SharedKey.makeIndex_eq_iff rfl rfl

theorem next_makeEvent (h : Shows k s) : next k a.makeEvent =
    (k.track a.code (keyIndex a.key.makeCode a.key.extendedMake) a.released,
      [reportKey a.code a.released (!a.released && s.held a.code) (k.track a.code (keyIndex a.key.makeCode a.key.extendedMake) a.released)]) := by
  have hbits : ∀ released extended : Bool,
      let information := (if released then synthKeyboardBreak else 0) ||| (if extended then synthKeyboardE0 else 0)
      information &&& synthKeyboardE1 = 0 ∧ decide (information &&& synthKeyboardBreak ≠ 0) = released ∧
        decide (information &&& synthKeyboardE0 ≠ 0) = extended := by decide
  obtain ⟨he1, hbreak, he0⟩ := hbits a.released a.key.extendedMake
  have hcode : keyboardKey a.key.makeCode a.key.extendedMake = a.code := a.key.agree.symm
  have hsome : a.code ≠ keyNone := a.key.supported
  unfold next KeyAction.makeEvent
  dsimp only
  rw [hbreak, he0, if_neg (not_not.mpr he1), hcode, if_neg hsome, h.keyDown a.key]
  rfl

theorem Shows.report_iff (h : Shows k s) : reportKey a.code a.released (!a.released && s.held a.code)
    (k.track a.code (keyIndex a.key.makeCode a.key.extendedMake) a.released) = s.report a ↔ s.Lone a := by
  constructor
  · intro heq
    have hflags := congrArg KeyReport.flags heq
    have hdriver := keyFlags_bits a.released (!a.released && s.held a.code)
      (k.track a.code (keyIndex a.key.makeCode a.key.extendedMake) a.released).shift
      (k.track a.code (keyIndex a.key.makeCode a.key.extendedMake) a.released).control
      (k.track a.code (keyIndex a.key.makeCode a.key.extendedMake) a.released).alt
      (k.track a.code (keyIndex a.key.makeCode a.key.extendedMake) a.released).capsLock
    have hkeyboard := keyFlags_bits a.released (!a.released && s.held a.code) (s.after a).shift (s.after a).control (s.after a).alt
      (s.after a).locked
    dsimp only [reportKey, KeyState.report] at hflags
    rw [hflags] at hdriver
    refine KeyState.lone_iff.mpr ⟨(KeyState.joint_flag (by decide) h.shift).mp ?_, (KeyState.joint_flag (by decide) h.control).mp ?_,
      (KeyState.joint_flag (by decide) h.alt).mp ?_⟩
    · exact Bool.eq_iff_iff.mpr (hdriver.1.symm.trans hkeyboard.1)
    · exact Bool.eq_iff_iff.mpr (hdriver.2.1.symm.trans hkeyboard.2.1)
    · exact Bool.eq_iff_iff.mpr (hdriver.2.2.symm.trans hkeyboard.2.2)
  · intro hlone
    have hshow := h.track hlone
    unfold reportKey KeyState.report
    rw [hshow.shift, hshow.control, hshow.alt, hshow.capsLock]
    rfl

theorem Shows.actions (h : Shows k s) : (follow next k (acts.map KeyAction.makeEvent)).2 =
    s.reports acts ↔ AllSteps KeyState.after KeyState.Lone s acts := by
  induction acts generalizing k s with
  | nil => exact ⟨fun _ => trivial, fun _ => rfl⟩
  | cons a acts ih =>
    rw [List.map_cons, follow, next_makeEvent h, KeyState.reports, AllSteps]
    dsimp only
    rw [List.singleton_append, List.cons_eq_cons, h.report_iff]
    exact and_congr_right fun hlone => ih (h.track hlone)

end HypervKeyboard
open HypervKeyboard

/-- The flags of the reports say which modifier keys are held after each action. -/
def ModifiersShown (acts : List KeyAction) (reports : List KeyReport) : Prop :=
  ∀ (i : Nat) (r : KeyReport), reports[i]? = some r →
    (r.flags &&& inputShift ≠ 0 ↔ (KeyState.run (acts.take (i + 1))).shift = true) ∧
      (r.flags &&& inputControl ≠ 0 ↔ (KeyState.run (acts.take (i + 1))).control = true) ∧
      (r.flags &&& inputAlt ≠ 0 ↔ (KeyState.run (acts.take (i + 1))).alt = true)

section Agreement
variable {p : InputPort Ps2Keyboard} {h : InputPort HypervKeyboard} {s : KeyState} {acts : List KeyAction}
  {taken taken' : List InputEvent} {i : Nat} {r : KeyReport}

theorem flags_of_reports (hr : (s.reports acts)[i]? = some r) :
    (r.flags &&& inputShift ≠ 0 ↔ ((acts.take (i + 1)).foldl KeyState.after s).shift = true) ∧
      (r.flags &&& inputControl ≠ 0 ↔ ((acts.take (i + 1)).foldl KeyState.after s).control = true) ∧
      (r.flags &&& inputAlt ≠ 0 ↔ ((acts.take (i + 1)).foldl KeyState.after s).alt = true) := by
  induction acts generalizing s i with
  | nil => cases hr
  | cons a acts ih =>
    cases i with
    | zero =>
      obtain rfl := Option.some.inj hr
      exact keyFlags_bits _ _ _ _ _ _
    | succ i => exact ih hr

theorem keyboards_agree_iff {width height : Int}
    (hp : InputRun (fun s _ => HasRoom s) Ps2Keyboard.handleByte ⟨Ps2Keyboard.keyboardInitialize, queueInitialize width height⟩
      p (acts.flatMap KeyAction.scanBytes) taken)
    (hh : InputRun (fun s _ => HasRoom s) handle ⟨zero, queueInitialize width height⟩
      h (acts.map KeyAction.makeEvent) taken') :
    (emitted report p taken = emitted report h taken' ∧
      ModifiersShown acts (emitted report p taken) ∧ ModifiersShown acts (emitted report h taken')) ↔
      ∀ before a rest, acts = before ++ a :: rest → a.released = true → ∀ code, KeyState.twin a.code = some code →
        (KeyState.run before).held code = false := by
  obtain ⟨-, -, hscan⟩ := emitted_of_run Ps2Keyboard.handleByte_follows (fun _ => rfl) wf_queueInitialize hp
  obtain ⟨-, -, hmake⟩ := emitted_of_run handle_follows (fun _ => rfl) wf_queueInitialize hh
  rw [contents_queueInitialize, List.filterMap_nil, List.nil_append] at hscan hmake
  rw [Ps2Keyboard.shows_start.actions] at hscan
  have hshown : ModifiersShown acts (KeyState.start.reports acts) := fun i r hr => flags_of_reports hr
  have hlone := @HypervKeyboard.Shows.actions zero KeyState.start acts shows_start
  rw [allSteps_iff] at hlone
  rw [hscan, hmake]
  constructor
  · rintro ⟨heq, -, -⟩
    exact hlone.mp heq.symm
  · intro hall
    rw [hlone.mpr hall]
    exact ⟨rfl, hshown, hshown⟩

def SharedKey.leftShift : SharedKey := ⟨0x12, false, 0x2a, false, by decide, by decide⟩

def SharedKey.rightShift : SharedKey := ⟨0x59, false, 0x36, false, by decide, by decide⟩

def SharedKey.rightControl : SharedKey := ⟨0x14, true, 0x1d, true, by decide, by decide⟩

def SharedKey.letterA : SharedKey := ⟨0x1c, false, 0x1e, false, by decide, by decide⟩

theorem keyboards_agree_shifted :
    let acts : List KeyAction := [⟨.leftShift, false⟩, ⟨.rightControl, false⟩, ⟨.letterA, false⟩, ⟨.letterA, true⟩, ⟨.leftShift, true⟩]
    let p := feed Ps2Keyboard.handleByte ⟨Ps2Keyboard.keyboardInitialize, queueInitialize 1 1⟩ (acts.flatMap KeyAction.scanBytes)
    let h := feed handle ⟨zero, queueInitialize 1 1⟩ (acts.map KeyAction.makeEvent)
    (emitted report p [] = emitted report h [] ∧
      ModifiersShown acts (emitted report p []) ∧ ModifiersShown acts (emitted report h [])) ↔
      ∀ before a rest, acts = before ++ a :: rest → a.released = true → ∀ code, KeyState.twin a.code = some code →
        (KeyState.run before).held code = false :=
  keyboards_agree_iff (run_feed_of_take (by decide)) (run_feed_of_take (by decide))

/-- Both shift keys are pressed and one is released: the Hyper-V driver reports no shift any more. -/
theorem keyboards_disagree : ¬∀ (width height : Int) (p : InputPort Ps2Keyboard) (h : InputPort HypervKeyboard) (acts : List KeyAction)
    (taken taken' : List InputEvent),
    InputRun (fun s _ => HasRoom s) Ps2Keyboard.handleByte ⟨Ps2Keyboard.keyboardInitialize, queueInitialize width height⟩
      p (acts.flatMap KeyAction.scanBytes) taken →
    InputRun (fun s _ => HasRoom s) handle ⟨zero, queueInitialize width height⟩
      h (acts.map KeyAction.makeEvent) taken' →
    emitted report p taken = emitted report h taken' ∧
      ModifiersShown acts (emitted report p taken) ∧ ModifiersShown acts (emitted report h taken') := by
  intro hall
  have hfails := hall 1 1 _ _ [⟨.leftShift, false⟩, ⟨.rightShift, false⟩, ⟨.leftShift, true⟩] [] []
    (run_feed_of_take (by decide)) (run_feed_of_take (by decide))
  exact absurd hfails.1 (by decide)

end Agreement
end InferenceOS
