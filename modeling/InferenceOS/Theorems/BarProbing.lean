import InferenceOS.Drivers.Pci
import Mathlib.Data.BitVec

/-! The probe of the base address registers, on a function whose registers behave as such registers do. -/

namespace InferenceOS
open Program Function
variable {fixed : BitVec 32}

/-- A configuration register: its value, the bits that a write sets, and the bits that a written one clears. -/
structure PciRegister where
  value : BitVec 32
  writable : BitVec 32
  clearable : BitVec 32

def PciRegister.write (r : PciRegister) (v : BitVec 32) : PciRegister :=
  { r with value := (r.value &&& ~~~r.writable &&& ~~~(v &&& r.clearable)) ||| (v &&& r.writable) }

/-- A register with some bits fixed and the others writable. -/
structure PciRegister.Sized (r : PciRegister) (fixed writable : BitVec 32) : Prop where
  value : r.value &&& ~~~writable = fixed
  writable : r.writable = writable
  clearable : r.clearable = 0#32

/-- A command and status register: the command is written, and the status is cleared. -/
structure PciRegister.IsCommand (r : PciRegister) : Prop where
  writable : r.writable &&& 0xffff0000 = 0#32
  clearable : r.clearable &&& 0xffff = 0#32

namespace PciRegister
variable {r : PciRegister} {fixed writable m v v' : BitVec 32}

theorem write_write (hv : v &&& r.clearable = 0#32) (hv' : v' &&& r.clearable = 0#32)
    (h : v' &&& r.writable = r.value &&& r.writable) : (r.write v).write v' = r := by
  obtain ⟨value, writable, clearable⟩ := r
  dsimp only at hv hv' h
  unfold write
  dsimp only
  rw [hv, hv', h]
  congr 1
  ext i hi
  simp only [BitVec.getElem_or, BitVec.getElem_and, BitVec.getElem_not]
  cases value[i] <;> cases writable[i] <;> simp

theorem Sized.restore (h : r.Sized fixed writable) : (r.write v).write r.value = r :=
  write_write (by rw [h.clearable, BitVec.and_zero]) (by rw [h.clearable, BitVec.and_zero]) rfl

theorem Sized.mask (h : r.Sized fixed writable) : (r.write pciAllOnes).value = fixed ||| writable := by
  unfold write pciAllOnes
  dsimp only
  rw [h.clearable, h.writable, BitVec.and_zero, BitVec.allOnes_and, h.value, BitVec.not_zero, BitVec.and_allOnes]

theorem Sized.and {low : BitVec 32} (h : r.Sized fixed writable) (hlow : ~~~writable &&& low = low) (hm : low &&& m = m) :
    r.value &&& m = fixed &&& m := by
  rw [← h.value, BitVec.and_assoc, ← hm, ← BitVec.and_assoc (~~~writable), hlow]

theorem IsCommand.restore (h : r.IsCommand) : (r.write (r.value &&& 0xfffc)).write (r.value &&& 0xffff) = r := by
  have hclear : ∀ m : BitVec 32, m &&& 0xffff = m → r.value &&& m &&& r.clearable = 0#32 := by
    intro m hm
    rw [← hm, BitVec.and_assoc, BitVec.and_assoc, BitVec.and_comm 0xffff, h.clearable, BitVec.and_zero, BitVec.and_zero]
  refine write_write (hclear _ (by decide)) (hclear _ (by decide)) ?_
  have hsplit : r.writable = r.writable &&& 0xffff := by
    have hboth : r.writable = (r.writable &&& 0xffff) ||| (r.writable &&& 0xffff0000) := by
      rw [← BitVec.and_or_distrib_left]
      exact (BitVec.and_allOnes).symm
    rwa [h.writable, BitVec.or_zero] at hboth
  rw [hsplit, BitVec.and_assoc, BitVec.and_comm 0xffff, BitVec.and_assoc, BitVec.and_self]

end PciRegister

/-- What a function has at a base address register; a size is `2 ^ k`. A narrow I/O register has zeros for its upper
    16 bits. -/
inductive PciSlot where
  | absent
  | io (wide : Bool) (k : Nat)
  | memory32 (k : Nat) (prefetchable : Bool)
  | memory64 (k : Nat) (prefetchable : Bool)
  | unsupported
  deriving DecidableEq

/-- The bits from `k` on. -/
def upperBits (k : Nat) : BitVec 32 := BitVec.allOnes 32 <<< k

def prefetchBit (prefetchable : Bool) : BitVec 32 := if prefetchable then 8 else 0

namespace PciSlot

def width : PciSlot → Nat
  | memory64 _ _ => 2
  | _ => 1

theorem width_pos (slot : PciSlot) : 0 < slot.width := by
  cases slot <;> exact Nat.zero_lt_succ _

/-- The accesses that the probe makes for a BAR. -/
def reads : PciSlot → Nat
  | memory64 _ _ => 4
  | unsupported => 1
  | _ => 2

/-- The registers of the slot behave as the bus requires. -/
def Behaves (registers : Nat → PciRegister) (index : Nat) : PciSlot → Prop
  | absent => (registers (barOffset index)).Sized 0 0
  | io true k => 2 ≤ k ∧ k < 32 ∧ (registers (barOffset index)).Sized 1 (upperBits k)
  | io false k => 2 ≤ k ∧ k < 16 ∧ (registers (barOffset index)).Sized 1 (upperBits k &&& 0xffff)
  | memory32 k prefetchable => 4 ≤ k ∧ k < 32 ∧ (registers (barOffset index)).Sized (prefetchBit prefetchable) (upperBits k)
  | memory64 k prefetchable => 4 ≤ k ∧ k < 64 ∧
      (registers (barOffset index)).Sized (pciBarMemory64 ||| prefetchBit prefetchable) (upperBits k) ∧
      (registers (barOffset index + 4)).Sized 0#32 (upperBits (k - 32))
  | unsupported => (registers (barOffset index)).value &&& pciBarIo = 0 ∧
      (registers (barOffset index)).value &&& pciBarMemoryTypeMask ≠ pciBarMemory32 ∧
      (registers (barOffset index)).value &&& pciBarMemoryTypeMask ≠ pciBarMemory64

def size : PciSlot → BitVec 64
  | io _ k | memory32 k _ | memory64 k _ => BitVec.ofNat 64 (2 ^ k)
  | _ => 0

def measured : PciSlot → BitVec 64
  | io false k => BitVec.ofNat 64 (2 ^ 32 - 2 ^ 16 + 2 ^ k)
  | slot => slot.size

/-- The bars with the slot's one, when the sizes are those of `f`. -/
def put (f : PciSlot → BitVec 64) (registers : Nat → PciRegister) (index : Nat) (bars : Nat → PciBar) : PciSlot → Nat → PciBar
  | io wide k => update bars index
      ⟨((registers (barOffset index)).value &&& ~~~3).setWidth 64, f (io wide k), false, false, false⟩
  | memory32 k prefetchable => update bars index
      ⟨((registers (barOffset index)).value &&& ~~~0xf).setWidth 64, f (memory32 k prefetchable), true, false, prefetchable⟩
  | memory64 k prefetchable => update bars index
      ⟨((registers (barOffset index + 4)).value.setWidth 64 <<< 32) |||
        ((registers (barOffset index)).value &&& ~~~0xf).setWidth 64, f (memory64 k prefetchable), true, true, prefetchable⟩
  | _ => bars

end PciSlot

theorem memory_fixed : ∀ k < 64, 4 ≤ k → ~~~upperBits k &&& 0xf = 0xf := by decide

theorem io_fixed : ∀ k < 32, 2 ≤ k → ~~~upperBits k &&& 3 = 3 := by decide

theorem narrow_fixed : ∀ k < 16, 2 ≤ k → ~~~(upperBits k &&& 0xffff) &&& 3 = 3 := by decide

theorem PciRegister.Sized.memory {r : PciRegister} {k : Nat} (h : r.Sized fixed (upperBits k)) (hlow : 4 ≤ k)
    (hhigh : k < 64) : r.value &&& pciBarIo = fixed &&& pciBarIo ∧
      r.value &&& pciBarMemoryTypeMask = fixed &&& pciBarMemoryTypeMask ∧ r.value &&& 8 = fixed &&& 8 :=
  ⟨h.and (memory_fixed k hhigh hlow) rfl, h.and (memory_fixed k hhigh hlow) rfl, h.and (memory_fixed k hhigh hlow) rfl⟩

theorem io_size : ∀ k < 32, 2 ≤ k → (~~~((1 ||| upperBits k) &&& ~~~3) + 1).setWidth 64 = BitVec.ofNat 64 (2 ^ k) := by decide

theorem narrow_size : ∀ k < 16, 2 ≤ k → (~~~((1 ||| upperBits k &&& 0xffff) &&& ~~~3) + 1).setWidth 64 =
    BitVec.ofNat 64 (2 ^ 32 - 2 ^ 16 + 2 ^ k) := by decide

theorem memory32_size : ∀ k < 32, 4 ≤ k → ∀ p, (~~~((prefetchBit p ||| upperBits k) &&& ~~~0xf) + 1).setWidth 64 =
    BitVec.ofNat 64 (2 ^ k) := by decide

theorem memory64_size : ∀ k < 64, 4 ≤ k → ∀ p, ~~~((upperBits (k - 32)).setWidth 64 <<< 32 |||
    ((pciBarMemory64 ||| prefetchBit p ||| upperBits k) &&& ~~~0xf).setWidth 64) + 1 = BitVec.ofNat 64 (2 ^ k) := by decide

theorem io_mask : ∀ k < 32, 2 ≤ k → ¬(1 ||| upperBits k = 0 ∨ 1 ||| upperBits k = pciAllOnes) := by decide

theorem narrow_mask : ∀ k < 16, 2 ≤ k → ¬(1 ||| upperBits k &&& 0xffff = 0 ∨ 1 ||| upperBits k &&& 0xffff = pciAllOnes) := by decide

theorem memory32_mask : ∀ k < 32, 4 ≤ k → ∀ p, ¬(prefetchBit p ||| upperBits k = 0 ∨ prefetchBit p ||| upperBits k = pciAllOnes) := by
  decide

theorem memory64_mask : ∀ k < 64, 4 ≤ k → ∀ p, pciBarMemory64 ||| prefetchBit p ||| upperBits k ≠ 0 ∧
    pciBarMemory64 ||| prefetchBit p ||| upperBits k ≠ pciAllOnes := by decide

theorem powerOfTwo_size : ∀ k < 64, powerOfTwo (BitVec.ofNat 64 (2 ^ k)) := by decide

theorem narrow_wrong : ∀ k < 16, BitVec.ofNat 64 (2 ^ 32 - 2 ^ 16 + 2 ^ k) ≠ BitVec.ofNat 64 (2 ^ k) := by decide

theorem low32 : ∀ k < 32, BitVec.ofNat 64 (2 ^ k) - 1 = (~~~upperBits k).setWidth 64 := by decide

theorem and_halves {a b c d : BitVec 32} : ((a.setWidth 64 <<< 32) ||| b.setWidth 64) &&& ((c.setWidth 64 <<< 32) ||| d.setWidth 64) =
    ((a &&& c).setWidth 64 <<< 32) ||| (b &&& d).setWidth 64 := by
  ext i hi
  simp only [BitVec.getElem_or, BitVec.getElem_and, BitVec.getElem_shiftLeft, BitVec.getElem_setWidth, BitVec.getLsbD_and]
  by_cases h : i < 32
  · simp [h]
  · have hb : b.getLsbD i = false := BitVec.getLsbD_of_ge b i (by omega)
    have hd : d.getLsbD i = false := BitVec.getLsbD_of_ge d i (by omega)
    simp [h, hb, hd]

theorem low64 : ∀ k < 64, BitVec.ofNat 64 (2 ^ k) - (1 : BitVec 64) =
    (~~~upperBits (k - 32)).setWidth 64 <<< 32 ||| (~~~upperBits k).setWidth 64 := by
  decide

/-- The registers of one function, and the number of reads so far. -/
structure PciHardware where
  registers : Nat → PciRegister
  reads : Nat

/-- The access to the registers of the function at a place, with the reads that fail. No function is elsewhere. -/
def hardwareAccess (place : UInt8 × UInt8 × UInt8) (failing : Nat → Option IosError) : PciConfigAccess PciHardware where
  read32 bus device function offset := do
    let s ← get
    modify fun s => { s with reads := s.reads + 1 }
    match failing s.reads with
    | some e => fail e
    | none => pure (if (bus, device, function) = place then (s.registers offset).value else pciAllOnes)
  write32 bus device function offset value := modify fun s =>
    if (bus, device, function) = place then
      { s with registers := update s.registers offset ((s.registers offset).write value) }
    else s

def PciFunction.access (function : PciFunction) (failing : Nat → Option IosError) : PciConfigAccess PciHardware :=
  hardwareAccess (function.bus, function.device, function.function) failing

def probeState (function : PciFunction) (registers : Nat → PciRegister) (reads : Nat) (bars : Nat → PciBar) : PciProbe PciHardware :=
  ⟨⟨registers, reads⟩, { function with bars }⟩

section
variable {function : PciFunction} {failing : Nat → Option IosError} {registers : Nat → PciRegister} {reads offset : Nat}
variable {count index : Nat} {writable : BitVec 32}
  {bars : Nat → PciBar} {v : BitVec 32}

theorem barOffset_le (h : index < 6) : barOffset index + 4 ≤ 0xfc := by
  unfold barOffset pciBarOffset
  omega

theorem barOffset_aligned {index : Nat} : barOffset index % 4 = 0 := by
  unfold barOffset pciBarOffset
  omega

theorem not_accepted (hsegment : function.segment = 0) (hoffset : offset ≤ 0xfc) (haligned : offset % 4 = 0) :
    ¬((probeState function registers reads bars).function.segment ≠ 0 ∨ 0xfc < offset ∨ offset % 4 ≠ 0) := by
  rintro (h | h | h)
  · exact h hsegment
  · exact absurd hoffset (Nat.not_le_of_gt h)
  · exact h haligned

theorem at_place : ((probeState function registers reads bars).function.bus, (probeState function registers reads bars).function.device,
    (probeState function registers reads bars).function.function) = (function.bus, function.device, function.function) := rfl

variable {E : IosError → PciProbe PciHardware → Prop}

theorem wp_configRead32 {Q : BitVec 32 → PciProbe PciHardware → Prop}
    (hsegment : function.segment = 0) (hoffset : offset ≤ 0xfc) (haligned : offset % 4 = 0) :
    wp (pciConfigRead32 (function.access failing) offset) Q E (probeState function registers reads bars) ↔
      (failing reads = none → Q (registers offset).value (probeState function registers (reads + 1) bars)) ∧
      ∀ e, failing reads = some e → E e (probeState function registers (reads + 1) bars) := by
  unfold pciConfigRead32
  rw [wp_bind, wp_get, wp_bind, failIf, if_neg (not_accepted hsegment hoffset haligned), wp_pure, onMachine, wp_zoom]
  show wp (get >>= _) _ _ _ ↔ _
  rw [wp_bind, wp_get, wp_bind, wp_modify]
  rw [show (probeState function registers reads bars).machine.reads = reads from rfl]
  rcases failing reads with _ | e
  · dsimp only
    rw [if_pos at_place, wp_pure]
    exact ⟨fun h => ⟨fun _ => h, fun _ he => by cases he⟩, fun h => h.1 rfl⟩
  · rw [wp_fail]
    exact ⟨fun h => ⟨(fun he => by cases he), fun _ he => Option.some.inj he ▸ h⟩, fun h => h.2 e rfl⟩

theorem wp_configRead32_refused {Q : BitVec 32 → PciProbe PciHardware → Prop} (hsegment : function.segment ≠ 0) :
    wp (pciConfigRead32 (function.access failing) offset) Q E (probeState function registers reads bars) ↔
      E .invalidArgument (probeState function registers reads bars) := by
  have hrefused : (probeState function registers reads bars).function.segment ≠ 0 ∨ 0xfc < offset ∨ offset % 4 ≠ 0 := Or.inl hsegment
  unfold pciConfigRead32
  rw [wp_bind, wp_get, wp_bind, failIf, if_pos hrefused, wp_fail]

variable {Q : Unit → PciProbe PciHardware → Prop}

theorem wp_configWrite32 (hsegment : function.segment = 0) (hoffset : offset ≤ 0xfc) (haligned : offset % 4 = 0) :
    wp (pciConfigWrite32 (function.access failing) offset v) Q E (probeState function registers reads bars) ↔
      Q () (probeState function (update registers offset ((registers offset).write v)) reads bars) := by
  unfold pciConfigWrite32
  rw [wp_bind, wp_get, wp_bind, failIf, if_neg (not_accepted hsegment hoffset haligned), wp_pure, onMachine, wp_zoom]
  show wp (modify _) _ _ _ ↔ _
  rw [wp_modify, if_pos at_place]
  rfl

theorem restore_update {r : PciRegister} (h : r.write v = registers offset) :
    update (update registers offset r) offset (r.write v) = registers := by
  rw [update_idem, h, update_eq_self]

theorem restore_updates {offset' : Nat} {r r' : PciRegister} {v' : BitVec 32} (hne : offset ≠ offset')
    (h : r.write v = registers offset) (h' : r'.write v' = registers offset') :
    update (update (update (update registers offset r) offset' r') offset (r.write v)) offset'
      (r'.write v') = registers := by
  rw [update_comm hne.symm, update_idem, restore_update h, h', update_eq_self]

theorem wp_probeRegister (hsegment : function.segment = 0) (hindex : index < 6)
    (hsized : (registers (barOffset index)).Sized fixed writable) :
    wp (probeRegister (function.access failing) index (registers (barOffset index)).value) Q E
        (probeState function registers reads bars) ↔
      (failing reads = none → wp (putRegister index (registers (barOffset index)).value (fixed ||| writable)) Q E
        (probeState function registers (reads + 1) bars)) ∧
      ∀ e, failing reads = some e → E e (probeState function registers (reads + 1) bars) := by
  have hoffset := Nat.le_of_add_right_le (barOffset_le hindex)
  have haligned := @barOffset_aligned index
  have hrestore := restore_update (@PciRegister.Sized.restore _ _ _ pciAllOnes hsized)
  unfold probeRegister
  simp only [wp_bind, wp_attempt, wp_configWrite32 hsegment hoffset haligned, wp_configRead32 hsegment hoffset haligned,
    hrestore, wp_ofExcept, update_self, hsized.mask, Except.ok.injEq, Except.error.injEq, reduceCtorEq, false_implies,
    implies_true, true_and, and_true, forall_eq']

theorem wp_probeMemory64 {writableHigh : BitVec 32} (hsegment : function.segment = 0) (hindex : index + 1 < count) (hcount : count ≤ 6)
    (hlow : (registers (barOffset index)).Sized fixed writable) (hhigh : (registers (barOffset index + 4)).Sized 0#32 writableHigh) :
    wp (probeMemory64 (function.access failing) count index (registers (barOffset index)).value) Q E
        (probeState function registers reads bars) ↔
      (failing reads = none → (failing (reads + 1) = none → (failing (reads + 2) = none →
        wp (putMemory64 index (registers (barOffset index)).value (registers (barOffset index + 4)).value (fixed ||| writable)
          (0#32 ||| writableHigh)) Q E (probeState function registers (reads + 3) bars)) ∧
          ∀ e, failing (reads + 2) = some e → E e (probeState function registers (reads + 3) bars)) ∧
        ∀ e, failing (reads + 1) = some e → E e (probeState function registers (reads + 2) bars)) ∧
      ∀ e, failing reads = some e → E e (probeState function registers (reads + 1) bars) := by
  have hoffset : barOffset index + 4 ≤ 0xfc := barOffset_le (by omega)
  have haligned := @barOffset_aligned index
  have hne : barOffset index ≠ barOffset index + 4 := by omega
  have hrestore := restore_updates hne (@PciRegister.Sized.restore _ _ _ pciAllOnes hlow)
    (@PciRegister.Sized.restore _ _ _ pciAllOnes hhigh)
  unfold probeMemory64
  simp only [wp_bind, failIf, if_neg (Nat.not_le_of_gt hindex), wp_pure, wp_attempt, wp_configWrite32 hsegment (Nat.le_of_add_right_le hoffset) haligned,
    wp_configRead32 hsegment (Nat.le_of_add_right_le hoffset) haligned,
    wp_configWrite32 hsegment hoffset (show (barOffset index + 4) % 4 = 0 by omega),
    wp_configRead32 hsegment hoffset (show (barOffset index + 4) % 4 = 0 by omega), update_self, update_of_ne hne,
    update_of_ne hne.symm, hlow.mask, hhigh.mask, hrestore, wp_ofExcept, Except.ok.injEq, Except.error.injEq, reduceCtorEq,
    false_implies, implies_true, true_and, and_true, forall_eq', Nat.add_assoc, Nat.reduceAdd]

section Bars
variable {Q : Unit → PciProbe PciHardware → Prop} {E : IosError → PciProbe PciHardware → Prop} {index : Nat} {mask : BitVec 32}

theorem wp_putMemoryBar {bar : PciBar} (hsize : powerOfTwo bar.byteCount) (haligned : bar.address &&& (bar.byteCount - 1) = 0) :
    wp (putMemoryBar index bar) Q E (probeState function registers reads bars) ↔
      Q () (probeState function registers reads (update bars index bar)) := by
  unfold putMemoryBar putBar
  rw [wp_bind, wp_modify, failIf, if_neg (not_or.mpr ⟨not_not.mpr hsize, not_not.mpr haligned⟩), wp_pure]
  rfl

theorem wp_putRegister_io (hmask : ¬(mask = 0 ∨ mask = pciAllOnes)) (hio : v &&& pciBarIo ≠ 0) :
    wp (putRegister index v mask) Q E (probeState function registers reads bars) ↔
      Q () (probeState function registers reads (update bars index
        ⟨(v &&& ~~~3).setWidth 64, (~~~(mask &&& ~~~3) + 1).setWidth 64, false, false, false⟩)) := by
  unfold putRegister
  rw [if_neg hmask, if_pos hio]
  rfl

theorem wp_putRegister_memory {k : Nat} {p : Bool} (hlow : 4 ≤ k) (hhigh : k < 32) (hvalue : v &&& ~~~upperBits k = prefetchBit p)
    (hio : ¬v &&& pciBarIo ≠ 0) (hprefetch : v &&& 8 = prefetchBit p) :
    wp (putRegister index v (prefetchBit p ||| upperBits k)) Q E (probeState function registers reads bars) ↔
      Q () (probeState function registers reads (update bars index
        ⟨(v &&& ~~~0xf).setWidth 64, BitVec.ofNat 64 (2 ^ k), true, false, p⟩)) := by
  have hp : decide (v &&& 8 ≠ 0) = p := by
    rw [hprefetch]
    cases p <;> rfl
  have haligned : (v &&& ~~~0xf).setWidth 64 &&& (BitVec.ofNat 64 (2 ^ k) - 1) = 0 := by
    rw [low32 k hhigh, ← BitVec.setWidth_and, BitVec.and_assoc, BitVec.and_comm (~~~0xf), ← BitVec.and_assoc, hvalue]
    cases p <;> rfl
  unfold putRegister
  rw [if_neg (memory32_mask k hhigh hlow p), if_neg hio]
  dsimp only
  rw [memory32_size k hhigh hlow p, hp]
  exact wp_putMemoryBar (powerOfTwo_size k (by omega)) haligned

theorem wp_putMemory64 {k : Nat} {p : Bool} {high : BitVec 32} (hlow : 4 ≤ k) (hhigh : k < 64)
    (hvalue : v &&& ~~~upperBits k = pciBarMemory64 ||| prefetchBit p) (hvalueHigh : high &&& ~~~upperBits (k - 32) = 0#32)
    (hprefetch : v &&& 8 = prefetchBit p) :
    wp (putMemory64 index v high (pciBarMemory64 ||| prefetchBit p ||| upperBits k) (0#32 ||| upperBits (k - 32))) Q E
        (probeState function registers reads bars) ↔
      Q () (probeState function registers reads (update bars index
        ⟨(high.setWidth 64 <<< 32) ||| (v &&& ~~~0xf).setWidth 64, BitVec.ofNat 64 (2 ^ k), true, true, p⟩)) := by
  have hp : decide (v &&& 8 ≠ 0) = p := by
    rw [hprefetch]
    cases p <;> rfl
  have haligned : ((high.setWidth 64 <<< 32) ||| (v &&& ~~~0xf).setWidth 64) &&& (BitVec.ofNat 64 (2 ^ k) - 1) = 0 := by
    have hlow' : v &&& ~~~0xf &&& ~~~upperBits k = 0#32 := by
      rw [BitVec.and_assoc, BitVec.and_comm (~~~0xf), ← BitVec.and_assoc, hvalue]
      cases p <;> rfl
    rw [low64 k hhigh, and_halves, hvalueHigh, hlow']
    rfl
  obtain ⟨hzero, hones⟩ := memory64_mask k hhigh hlow p
  unfold putMemory64
  rw [if_neg (fun h => h.elim (fun h => hzero h.1) fun h => hones h.1)]
  dsimp only
  rw [BitVec.zero_or, memory64_size k hhigh hlow p, hp]
  exact wp_putMemoryBar (powerOfTwo_size k hhigh) haligned

end Bars

def Stopped (function : PciFunction) (failing : Nat → Option IosError) (registers : Nat → PciRegister) (reads : Nat)
    (reason : Prop) (n : Nat) (t : PciProbe PciHardware) : Prop :=
  (∃ reads' bars, t = probeState function registers reads' bars) ∧ (reason ∨ ∃ i < n, failing (reads + i) ≠ none)

theorem stopped_read {reason : Prop} {n i reads' : Nat} {e : IosError} (hi : i < n) (h : failing (reads + i) = some e) :
    Stopped function failing registers reads reason n (probeState function registers reads' bars) :=
  ⟨⟨_, _, rfl⟩, Or.inr ⟨i, hi, by rw [h]; exact Option.some_ne_none e⟩⟩

def Went (function : PciFunction) (failing : Nat → Option IosError) (registers : Nat → PciRegister) (reads index : Nat)
    (bars : Nat → PciBar) (slot : PciSlot) (last : Nat) (t : PciProbe PciHardware) : Prop :=
  last + 1 = index + slot.width ∧ slot ≠ .unsupported ∧ (∀ i < slot.reads, failing (reads + i) = none) ∧
    t = probeState function registers (reads + slot.reads) (slot.put PciSlot.measured registers index bars)

variable {slot : PciSlot}

theorem probeBar_register (hsegment : function.segment = 0)
    (hindex : index < 6) (hsized : (registers (barOffset index)).Sized fixed writable) (hwidth : slot.width = 1)
    (hreads : slot.reads = 2) (hslot : slot ≠ .unsupported)
    (htype : (registers (barOffset index)).value &&& pciBarIo = 0 →
      (registers (barOffset index)).value &&& pciBarMemoryTypeMask = pciBarMemory32)
    (hput : ∀ reads Q E, wp (putRegister index (registers (barOffset index)).value (fixed ||| writable)) Q E
      (probeState function registers reads bars) ↔ Q () (probeState function registers reads
        (slot.put PciSlot.measured registers index bars))) :
    wp (probeBar (function.access failing) count index) (Went function failing registers reads index bars slot)
      (fun _ => Stopped function failing registers reads (slot = .unsupported) slot.reads) (probeState function registers reads bars) := by
  have hoffset := Nat.le_of_add_right_le (barOffset_le hindex)
  have haligned := @barOffset_aligned index
  have hne : pciBarMemory32 ≠ pciBarMemory64 := by decide
  unfold probeBar
  rw [wp_bind, wp_configRead32 hsegment hoffset haligned]
  refine ⟨fun h0 => ?_, fun e he => stopped_read (i := 0) (by omega) he⟩
  rw [wp_bind, failIf, if_neg (fun h => h.2.1 (htype h.1)), wp_pure, if_neg (fun h => hne ((htype h.1).symm.trans h.2)), wp_bind,
    wp_probeRegister hsegment hindex hsized]
  refine ⟨fun h1 => ?_, fun e he => stopped_read (i := 1) (by omega) he⟩
  rw [hput, wp_pure]
  refine ⟨by rw [hwidth], hslot, fun i hi => ?_, by rw [hreads]⟩
  rw [hreads] at hi
  obtain rfl | rfl : i = 0 ∨ i = 1 := by omega
  · exact h0
  · exact h1

theorem probeBar_spec (hslot : slot.Behaves registers index) (hsegment : function.segment = 0)
    (hindex : index + slot.width ≤ count) (hcount : count ≤ 6) :
    wp (probeBar (function.access failing) count index) (Went function failing registers reads index bars slot)
      (fun _ => Stopped function failing registers reads (slot = .unsupported) slot.reads) (probeState function registers reads bars) := by
  have hindex' : index < 6 := by
    cases slot <;> simp only [PciSlot.width] at hindex <;> omega
  cases slot with
  | absent =>
    have hsized : (registers (barOffset index)).Sized 0 0 := hslot
    refine probeBar_register hsegment hindex' hsized rfl rfl (fun hx => by cases hx) (fun _ => ?_) fun _ _ _ => ?_
    · rw [hsized.and (rfl : ~~~0#32 &&& 0xf = 0xf) rfl]
      rfl
    · rw [putRegister, if_pos (Or.inl (show (0 : BitVec 32) ||| 0 = 0 from rfl))]
      rfl
  | io wide k =>
    cases wide with
    | true =>
      obtain ⟨hlow, hhigh, hsized⟩ := hslot
      have hio : (registers (barOffset index)).value &&& pciBarIo ≠ 0 := by
        rw [hsized.and (io_fixed k hhigh hlow) rfl]
        decide
      refine probeBar_register hsegment hindex' hsized rfl rfl (fun hx => by cases hx) (fun h => absurd h hio) fun _ _ _ => ?_
      rw [wp_putRegister_io (io_mask k hhigh hlow) hio, io_size k hhigh hlow]
      rfl
    | false =>
      obtain ⟨hlow, hhigh, hsized⟩ := hslot
      have hio : (registers (barOffset index)).value &&& pciBarIo ≠ 0 := by
        rw [hsized.and (narrow_fixed k hhigh hlow) rfl]
        decide
      refine probeBar_register hsegment hindex' hsized rfl rfl (fun hx => by cases hx) (fun h => absurd h hio) fun _ _ _ => ?_
      rw [wp_putRegister_io (narrow_mask k hhigh hlow) hio, narrow_size k hhigh hlow]
      rfl
  | memory32 k p =>
    obtain ⟨hlow, hhigh, hsized⟩ := hslot
    obtain ⟨hio, htype, hprefetch⟩ := hsized.memory hlow (by omega)
    have hio' : ¬(registers (barOffset index)).value &&& pciBarIo ≠ 0 := by
      rw [hio]
      cases p <;> decide
    refine probeBar_register hsegment hindex' hsized rfl rfl (fun hx => by cases hx) (fun _ => htype.trans ?_) fun _ _ _ => ?_
    · cases p <;> rfl
    · rw [wp_putRegister_memory hlow hhigh hsized.value hio' (hprefetch.trans (by cases p <;> rfl))]
      rfl
  | memory64 k p =>
    obtain ⟨hlow, hhigh, hsized, hsizedHigh⟩ := hslot
    obtain ⟨hio, htype, hprefetch⟩ := hsized.memory hlow hhigh
    have hio' : (registers (barOffset index)).value &&& pciBarIo = 0 := hio.trans (by cases p <;> rfl)
    have htype' : (registers (barOffset index)).value &&& pciBarMemoryTypeMask = pciBarMemory64 := htype.trans (by cases p <;> rfl)
    have hprefetch' : (registers (barOffset index)).value &&& 8 = prefetchBit p := hprefetch.trans (by cases p <;> rfl)
    unfold probeBar
    rw [wp_bind, wp_configRead32 hsegment (Nat.le_of_add_right_le (barOffset_le hindex')) barOffset_aligned]
    refine ⟨fun h0 => ?_, fun e he => stopped_read (i := 0) (by decide : 0 < 4) he⟩
    rw [wp_bind, failIf, if_neg (fun h => h.2.2 htype'), wp_pure, if_pos ⟨hio', htype'⟩, wp_bind,
      wp_probeMemory64 hsegment hindex hcount hsized hsizedHigh]
    refine ⟨fun h1 => ⟨fun h2 => ⟨fun h3 => ?_, ?_⟩, ?_⟩, ?_⟩
    · rw [wp_putMemory64 hlow hhigh hsized.value hsizedHigh.value hprefetch', wp_pure]
      refine ⟨rfl, (fun hx => by cases hx), fun i hi => ?_, rfl⟩
      obtain rfl | rfl | rfl | rfl : i = 0 ∨ i = 1 ∨ i = 2 ∨ i = 3 := by
        have : i < 4 := hi
        omega
      · exact h0
      · exact h1
      · exact h2
      · exact h3
    · exact fun e he => stopped_read (i := 3) (by decide : 3 < 4) he
    · exact fun e he => stopped_read (i := 2) (by decide : 2 < 4) he
    · exact fun e he => stopped_read (i := 1) (by decide : 1 < 4) he
  | unsupported =>
    obtain ⟨hio, htype32, htype64⟩ := hslot
    unfold probeBar
    rw [wp_bind, wp_configRead32 hsegment (Nat.le_of_add_right_le (barOffset_le hindex')) barOffset_aligned]
    refine ⟨fun _ => ?_, fun e he => stopped_read (i := 0) (by decide : 0 < 1) he⟩
    rw [wp_bind, failIf, if_pos ⟨hio, htype32, htype64⟩, wp_fail]
    exact ⟨⟨_, _, rfl⟩, Or.inl rfl⟩

def Layout (registers : Nat → PciRegister) : Nat → List PciSlot → Prop
  | _, [] => True
  | index, slot :: slots => slot.Behaves registers index ∧ Layout registers (index + slot.width) slots

theorem Layout.behaves {slot : PciSlot} : ∀ {slots : List PciSlot} {index : Nat}, Layout registers index slots → slot ∈ slots →
    ∃ index, slot.Behaves registers index
  | s :: slots, index, ⟨hs, hlayout⟩, hslot => by
    obtain rfl | hslot := List.mem_cons.mp hslot
    · exact ⟨index, hs⟩
    · exact Layout.behaves hlayout hslot

/-- The bars with those of the slots from an index on, when the sizes are those of `f`. -/
def fillBars (f : PciSlot → BitVec 64) (registers : Nat → PciRegister) : Nat → List PciSlot → (Nat → PciBar) → Nat → PciBar
  | _, [], bars => bars
  | index, slot :: slots, bars => fillBars f registers (index + slot.width) slots (slot.put f registers index bars)

theorem probeBarsFrom_spec {count : Nat} (hsegment : function.segment = 0) (hcount : count ≤ 6) :
    ∀ {slots : List PciSlot} {rounds index reads : Nat} {bars : Nat → PciBar}, Layout registers index slots →
      index + (slots.map PciSlot.width).sum = count → count ≤ rounds + index →
      wp (probeBarsFrom (function.access failing) count rounds index)
        (fun _ t => .unsupported ∉ slots ∧ (∀ i < (slots.map PciSlot.reads).sum, failing (reads + i) = none) ∧
          t = probeState function registers (reads + (slots.map PciSlot.reads).sum) (fillBars PciSlot.measured registers index slots bars))
        (fun _ => Stopped function failing registers reads (.unsupported ∈ slots) (slots.map PciSlot.reads).sum)
        (probeState function registers reads bars)
  | [], rounds, index, reads, bars, _, hwidth, _ => by
    have hdone : ¬index < count := by
      rw [List.map_nil, List.sum_nil] at hwidth
      omega
    cases rounds with
    | zero => exact ⟨List.not_mem_nil, nofun, rfl⟩
    | succ rounds =>
      rw [probeBarsFrom, if_neg hdone, wp_pure]
      exact ⟨List.not_mem_nil, nofun, rfl⟩
  | slot :: slots, rounds, index, reads, bars, ⟨hslot, hlayout⟩, hwidth, hrounds => by
    rw [List.map_cons, List.sum_cons] at hwidth
    have hpos := slot.width_pos
    obtain ⟨rounds, rfl⟩ : ∃ n, rounds = n + 1 := Nat.exists_eq_succ_of_ne_zero (by omega)
    rw [probeBarsFrom, if_pos (by omega), wp_bind]
    refine wp_mono (probeBar_spec hslot hsegment (by omega) hcount) ?_ ?_
    · rintro last t ⟨hlast, hsupported, hreads, rfl⟩
      rw [hlast]
      refine wp_mono (probeBarsFrom_spec hsegment hcount hlayout (by omega) (by omega)) ?_ ?_
      · rintro _ t ⟨hrest, hreads', rfl⟩
        refine ⟨fun h => (List.mem_cons.mp h).elim (fun h => hsupported h.symm) hrest, fun i hi => ?_, ?_⟩
        · rw [List.map_cons, List.sum_cons] at hi
          by_cases hhere : i < slot.reads
          · exact hreads i hhere
          · have := hreads' (i - slot.reads) (by omega)
            rwa [Nat.add_assoc, Nat.add_sub_cancel' (Nat.le_of_not_lt hhere)] at this
        · rw [List.map_cons, List.sum_cons, Nat.add_assoc]
          rfl
      · rintro e t ⟨hstate, hreason⟩
        refine ⟨hstate, hreason.imp (List.mem_cons_of_mem _) ?_⟩
        rintro ⟨i, hi, hfail⟩
        exact ⟨slot.reads + i, by rw [List.map_cons, List.sum_cons]; omega, by rwa [← Nat.add_assoc]⟩
    · rintro e t ⟨hstate, hreason⟩
      refine ⟨hstate, hreason.imp (fun h => List.mem_cons.mpr (Or.inl (Eq.symm h))) ?_⟩
      rintro ⟨i, hi, hfail⟩
      exact ⟨i, by rw [List.map_cons, List.sum_cons]; omega, hfail⟩

theorem fillBars_before {f : PciSlot → BitVec 64} : ∀ {slots : List PciSlot} {index i : Nat} {bars : Nat → PciBar}, i < index →
    fillBars f registers index slots bars i = bars i
  | [], _, _, _, _ => rfl
  | slot :: slots, index, i, bars, hi => by
    rw [fillBars, fillBars_before (Nat.lt_add_right _ hi)]
    cases slot
    case absent | unsupported => rfl
    all_goals exact update_of_ne (Nat.ne_of_lt hi) _ _

theorem measured_of_put {bars bars' : Nat → PciBar}
    (h : slot.put PciSlot.measured registers index bars index = slot.put PciSlot.size registers index bars' index) :
    slot.measured = slot.size := by
  cases slot
  case absent | unsupported => rfl
  all_goals
    simp only [PciSlot.put, update_self, PciBar.mk.injEq] at h
    exact h.2.1

theorem measured_of_fillBars : ∀ {slots : List PciSlot} {index : Nat} {bars bars' : Nat → PciBar},
    fillBars PciSlot.measured registers index slots bars = fillBars PciSlot.size registers index slots bars' →
    ∀ slot ∈ slots, slot.measured = slot.size
  | [], _, _, _, _ => nofun
  | slot :: slots, index, bars, bars', h => by
    rw [fillBars, fillBars] at h
    have hhere := congrFun h index
    have hlt : index < index + slot.width := Nat.lt_add_of_pos_right slot.width_pos
    rw [fillBars_before hlt, fillBars_before hlt] at hhere
    intro s hs
    obtain rfl | hs := List.mem_cons.mp hs
    · exact measured_of_put hhere
    · exact measured_of_fillBars h s hs

theorem fillBars_of_measured : ∀ {slots : List PciSlot} {index : Nat} {bars : Nat → PciBar}, (∀ slot ∈ slots, slot.measured = slot.size) →
    fillBars PciSlot.measured registers index slots bars = fillBars PciSlot.size registers index slots bars
  | [], _, _, _ => rfl
  | slot :: slots, index, bars, h => by
    have hput : slot.put PciSlot.measured registers index bars = slot.put PciSlot.size registers index bars := by
      have hhere := h slot List.mem_cons_self
      cases slot <;> simp only [PciSlot.put, hhere]
    rw [fillBars, fillBars, hput, fillBars_of_measured fun s hs => h s (List.mem_cons_of_mem _ hs)]

theorem layout_update {r : PciRegister} : ∀ {slots : List PciSlot} {index : Nat}, Layout registers index slots →
    Layout (update registers pciCommandOffset r) index slots
  | [], _, _ => trivial
  | slot :: slots, index, ⟨hslot, hlayout⟩ => by
    refine ⟨?_, layout_update hlayout⟩
    have hlow : barOffset index ≠ pciCommandOffset := by
      unfold barOffset pciBarOffset pciCommandOffset
      omega
    have hhigh : barOffset index + 4 ≠ pciCommandOffset := by
      unfold barOffset pciBarOffset pciCommandOffset
      omega
    cases slot
    case io wide k => cases wide <;> simpa only [PciSlot.Behaves, update_of_ne hlow] using hslot
    all_goals simpa only [PciSlot.Behaves, update_of_ne hlow, update_of_ne hhigh] using hslot

theorem fillBars_update {f : PciSlot → BitVec 64} {r : PciRegister} : ∀ {slots : List PciSlot} {index : Nat} {bars : Nat → PciBar},
    fillBars f (update registers pciCommandOffset r) index slots bars = fillBars f registers index slots bars
  | [], _, _ => rfl
  | slot :: slots, index, bars => by
    have hlow : barOffset index ≠ pciCommandOffset := by
      unfold barOffset pciBarOffset pciCommandOffset
      omega
    have hhigh : barOffset index + 4 ≠ pciCommandOffset := by
      unfold barOffset pciBarOffset pciCommandOffset
      omega
    have hput : slot.put f (update registers pciCommandOffset r) index bars = slot.put f registers index bars := by
      cases slot <;> simp only [PciSlot.put, update_of_ne hlow, update_of_ne hhigh]
    rw [fillBars, fillBars, hput, fillBars_update]

/-- The registers of a function behave as base address registers do; a header that has none is not probed. -/
structure PciFunction.Behaves (function : PciFunction) (registers : Nat → PciRegister) (slots : List PciSlot) : Prop where
  command : (registers pciCommandOffset).IsCommand
  layout : Layout registers 0 slots
  width : ∀ count, headerBarCount function.headerType = some count → (slots.map PciSlot.width).sum = count

/-- The probe cannot succeed: the function, a BAR or an access stands against it. -/
def ProbeFails (function : PciFunction) (failing : Nat → Option IosError) (reads : Nat) (slots : List PciSlot) : Prop :=
  function.segment ≠ 0 ∨ headerBarCount function.headerType = none ∨ .unsupported ∈ slots ∨
    ∃ i < 1 + (slots.map PciSlot.reads).sum, failing (reads + i) ≠ none

theorem pciProbeBars_spec {slots : List PciSlot} (hfunction : function.Behaves registers slots) :
    wp (pciProbeBars (function.access failing))
      (fun _ t => t.machine.registers = registers ∧ ¬ProbeFails function failing reads slots ∧
        t.function.bars = fillBars PciSlot.measured registers 0 slots fun _ => .zero)
      (fun _ t => t.machine.registers = registers ∧ ProbeFails function failing reads slots)
      (probeState function registers reads bars) := by
  obtain ⟨hcommand, hlayout, hwidth⟩ := hfunction
  unfold pciProbeBars
  rw [wp_bind, wp_get]
  dsimp only
  rw [show (probeState function registers reads bars).function.headerType = function.headerType from rfl]
  cases hcount : headerBarCount function.headerType with
  | none => exact ⟨rfl, Or.inr (Or.inl hcount)⟩
  | some count =>
    have hle : count ≤ 6 := by
      unfold headerBarCount at hcount
      split at hcount
      · cases hcount
        exact le_rfl
      · split at hcount
        · cases hcount
          decide
        · cases hcount
    by_cases hsegment : function.segment = 0
    · dsimp only
      rw [wp_bind, wp_configRead32 hsegment (by decide) (by decide)]
      refine ⟨fun h0 => ?_, fun e he => ⟨rfl, Or.inr (Or.inr (Or.inr ⟨0, by omega, by rw [Nat.add_zero, he]; exact Option.some_ne_none e⟩))⟩⟩
      rw [wp_bind, wp_configWrite32 hsegment (by decide) (by decide), wp_bind, wp_modify, wp_bind, wp_attempt]
      have hrestore := restore_update hcommand.restore
      refine wp_mono (probeBarsFrom_spec hsegment hle (layout_update hlayout) ((Nat.zero_add _).trans (hwidth count hcount)) (by omega)) ?_ ?_
      · rintro _ t ⟨hsupported, hreads, rfl⟩
        rw [wp_bind, wp_attempt, wp_configWrite32 hsegment (by decide) (by decide), update_self, hrestore]
        refine ⟨rfl, ?_, fillBars_update⟩
        rintro (hne | hnone | hin | ⟨i, hi, hfail⟩)
        · exact hne hsegment
        · rw [hcount] at hnone
          cases hnone
        · exact hsupported hin
        · rcases i with _ | i
          · exact hfail h0
          · have := hreads i (by omega)
            rw [Nat.add_assoc, Nat.add_comm 1] at this
            exact hfail this
      · rintro e t ⟨⟨reads', bars', rfl⟩, hreason⟩
        rw [wp_bind, wp_attempt, wp_configWrite32 hsegment (by decide) (by decide), update_self, hrestore]
        refine ⟨rfl, Or.inr (Or.inr (hreason.imp_right ?_))⟩
        rintro ⟨i, hi, hfail⟩
        exact ⟨i + 1, by omega, by rwa [Nat.add_comm i, ← Nat.add_assoc]⟩
    · dsimp only
      rw [wp_bind, wp_configRead32_refused hsegment]
      exact ⟨rfl, Or.inl hsegment⟩

/-- After a probe the registers hold their old values, whatever reads fail. A probe that succeeds reports the right bars,
    unless the function has an I/O bar whose upper 16 bits are hard-wired to zero. -/
theorem pciProbeBars_right_iff {slots : List PciSlot} (hfunction : function.Behaves registers slots) :
    (pciProbeBars (function.access failing) ⟨⟨registers, reads⟩, function⟩).2.machine.registers = registers ∧
    (((pciProbeBars (function.access failing) ⟨⟨registers, reads⟩, function⟩).1 = .ok () →
        (pciProbeBars (function.access failing) ⟨⟨registers, reads⟩, function⟩).2.function.bars =
          fillBars PciSlot.size registers 0 slots fun _ => .zero) ↔
      ProbeFails function failing reads slots ∨ ∀ k, .io false k ∉ slots) := by
  have hspec := @pciProbeBars_spec function failing registers reads function.bars slots hfunction
  rcases hrun : pciProbeBars (function.access failing) ⟨⟨registers, reads⟩, function⟩ with ⟨e | a, t⟩
  · obtain ⟨hregisters, hfails⟩ := wp_error hspec hrun
    exact ⟨hregisters, fun _ => Or.inl hfails, fun _ h => by cases h⟩
  · obtain ⟨hregisters, hfails, hbars⟩ := wp_ok hspec hrun
    refine ⟨hregisters, fun h => Or.inr fun k hk => ?_, fun h _ => ?_⟩
    · obtain ⟨index, _, hlow, _⟩ := hfunction.layout.behaves hk
      exact narrow_wrong k hlow (measured_of_fillBars (hbars.symm.trans (h rfl)) _ hk)
    · rw [hbars]
      refine fillBars_of_measured fun slot hslot => ?_
      cases slot
      case io wide k =>
        cases wide with
        | true => rfl
        | false => exact absurd hslot (h.resolve_left hfails k)
      all_goals rfl

end

def exampleFunction : PciFunction := ⟨0, 0, 3, 0, 0, fun _ => .zero⟩

def exampleRegisters (wide : Bool) (offset : Nat) : PciRegister :=
  if offset = pciCommandOffset then ⟨0x100007, 0x407, 0xf9000000⟩
  else if offset = barOffset 0 then ⟨0xc021, if wide then 0xffffffe0 else 0xffe0, 0⟩
  else if offset = barOffset 1 then ⟨0xfe00000c, 0xffffc000, 0⟩
  else if offset = barOffset 2 then ⟨1, 0xffffffff, 0⟩
  else ⟨0, 0, 0⟩

def exampleSlots (wide : Bool) : List PciSlot := [.io wide 5, .memory64 14 true, .absent, .absent, .absent]

theorem example_behaves (wide : Bool) : exampleFunction.Behaves (exampleRegisters wide) (exampleSlots wide) := by
  have habsent : ∀ index ∈ [3, 4, 5], exampleRegisters wide (barOffset index) = ⟨0, 0, 0⟩ := by
    cases wide <;> simp [exampleRegisters, barOffset, pciBarOffset, pciCommandOffset]
  have hslots : ∀ index ∈ [3, 4, 5], PciSlot.Behaves (exampleRegisters wide) index .absent := by
    intro index hindex
    rw [PciSlot.Behaves, habsent index hindex]
    exact ⟨rfl, rfl, rfl⟩
  have hhigh : exampleRegisters wide (barOffset 1 + 4) = ⟨1, 0xffffffff, 0⟩ := by
    cases wide <;> rfl
  have hlow : exampleRegisters wide (barOffset 1) = ⟨0xfe00000c, 0xffffc000, 0⟩ := by
    cases wide <;> rfl
  have hcommand : exampleRegisters wide pciCommandOffset = ⟨0x100007, 0x407, 0xf9000000⟩ := by
    cases wide <;> rfl
  refine ⟨hcommand ▸ ⟨by decide, by decide⟩, ⟨?_, ⟨by decide, by decide, hlow ▸ ⟨by decide, by decide, by decide⟩,
    hhigh ▸ ⟨by decide, by decide, by decide⟩⟩, hslots 3 (by simp), hslots 4 (by simp),
    hslots 5 (by simp), trivial⟩, ?_⟩
  · cases wide
    · exact ⟨by decide, by decide, rfl, rfl, rfl⟩
    · exact ⟨by decide, by decide, rfl, rfl, rfl⟩
  · intro count hcount
    exact Option.some.inj hcount

theorem pciProbeBars_right_wide :
    (pciProbeBars (exampleFunction.access fun _ => none) ⟨⟨exampleRegisters true, 0⟩, exampleFunction⟩).2.function.bars =
      fillBars PciSlot.size (exampleRegisters true) 0 (exampleSlots true) fun _ => .zero :=
  (pciProbeBars_right_iff (example_behaves true)).2.mpr (Or.inr fun k hk => by simp [exampleSlots] at hk) (by decide +kernel)

theorem narrow_misreported : ¬∀ (function : PciFunction) (failing : Nat → Option IosError) (registers : Nat → PciRegister) (reads : Nat)
    (slots : List PciSlot), function.Behaves registers slots →
      (pciProbeBars (function.access failing) ⟨⟨registers, reads⟩, function⟩).2.machine.registers = registers ∧
      ((pciProbeBars (function.access failing) ⟨⟨registers, reads⟩, function⟩).1 = .ok () →
        (pciProbeBars (function.access failing) ⟨⟨registers, reads⟩, function⟩).2.function.bars =
          fillBars PciSlot.size registers 0 slots fun _ => .zero) := by
  intro h
  have hbars := (h exampleFunction (fun _ => none) (exampleRegisters false) 0 (exampleSlots false) (example_behaves false)).2
    (by decide +kernel)
  have hfound : ((pciProbeBars (exampleFunction.access fun _ => none)
      ⟨⟨exampleRegisters false, 0⟩, exampleFunction⟩).2.function.bars 0).byteCount = 0xffff0020 := by decide +kernel
  rw [hbars] at hfound
  exact absurd hfound (by decide +kernel)

end InferenceOS
