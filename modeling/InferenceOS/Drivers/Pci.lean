import InferenceOS.Lib.Program
import InferenceOS.Status

/-! The base address registers of a PCI function, `arch/x86_64/pci.c`. The configuration space is reached through the
    operations of `PciConfigAccess`, on a machine of their own. -/

namespace InferenceOS
open Program

/-- The operations of `struct ios_pci_config_access`; the context belongs to the machine. -/
structure PciConfigAccess (μ : Type) where
  read32 (bus device function : UInt8) (offset : Nat) : Program IosError μ (BitVec 32)
  write32 (bus device function : UInt8) (offset : Nat) (value : BitVec 32) : Program IosError μ Unit

structure PciBar where
  address : BitVec 64
  byteCount : BitVec 64
  memory : Bool
  is64Bit : Bool
  prefetchable : Bool
  deriving DecidableEq, Repr

/-- A bar of `{ 0 }`. -/
def PciBar.zero : PciBar := ⟨0, 0, false, false, false⟩

/-- `struct ios_pci_function`, as far as the registers need it. -/
structure PciFunction where
  segment : UInt16
  bus : UInt8
  device : UInt8
  function : UInt8
  headerType : UInt8
  bars : Nat → PciBar

/-- The machine, and the function whose bars are probed. -/
structure PciProbe (μ : Type) where
  machine : μ
  function : PciFunction

def pciCommandOffset : Nat := 0x04

def pciBarOffset : Nat := 0x10

def pciHeaderLayoutMask : UInt8 := 0x7f

def pciBarIo : BitVec 32 := 1

def pciBarMemoryTypeMask : BitVec 32 := 3 <<< 1

def pciBarMemory32 : BitVec 32 := 0

def pciBarMemory64 : BitVec 32 := 2 <<< 1

/-- The offset of a bar's register. -/
def barOffset (index : Nat) : Nat := pciBarOffset + index * 4

/-- `UINT32_MAX`. -/
def pciAllOnes : BitVec 32 := BitVec.allOnes 32

section
variable {μ : Type} (access : PciConfigAccess μ)

/-- A call of the access operations. -/
def onMachine {α : Type} (m : Program IosError μ α) : Program IosError (PciProbe μ) α :=
  zoom PciProbe.machine (fun s machine => { s with machine }) m

def pciConfigRead32 (offset : Nat) : Program IosError (PciProbe μ) (BitVec 32) := do
  let s ← get
  failIf (s.function.segment ≠ 0 ∨ 0xfc < offset ∨ offset % 4 ≠ 0) .invalidArgument
  onMachine (access.read32 s.function.bus s.function.device s.function.function offset)

def pciConfigWrite32 (offset : Nat) (value : BitVec 32) : Program IosError (PciProbe μ) Unit := do
  let s ← get
  failIf (s.function.segment ≠ 0 ∨ 0xfc < offset ∨ offset % 4 ≠ 0) .invalidArgument
  onMachine (access.write32 s.function.bus s.function.device s.function.function offset value)

def powerOfTwo (value : BitVec 64) : Prop := value ≠ 0 ∧ value &&& (value - 1) = 0

instance (value : BitVec 64) : Decidable (powerOfTwo value) := inferInstanceAs (Decidable (_ ∧ _))

/-- `function->bars[index] = bar`. -/
def putBar (index : Nat) (bar : PciBar) : Program IosError (PciProbe μ) Unit :=
  modify fun s => { s with function := { s.function with bars := Function.update s.function.bars index bar } }

/-- A memory bar is stored, and its size and its address are checked. -/
def putMemoryBar (index : Nat) (bar : PciBar) : Program IosError (PciProbe μ) Unit := do
  putBar index bar
  failIf (¬powerOfTwo bar.byteCount ∨ bar.address &&& (bar.byteCount - 1) ≠ 0) .protocol

/-- The bar of two registers, from their masks. -/
def putMemory64 (index : Nat) (originalLow originalHigh maskLow maskHigh : BitVec 32) : Program IosError (PciProbe μ) Unit :=
  if (maskLow = 0 ∧ maskHigh = 0) ∨ (maskLow = pciAllOnes ∧ maskHigh = pciAllOnes) then pure ()
  else
    let addressMask : BitVec 64 := (maskHigh.setWidth 64 <<< 32) ||| (maskLow &&& ~~~0xf).setWidth 64
    putMemoryBar index
      { address := (originalHigh.setWidth 64 <<< 32) ||| (originalLow &&& ~~~0xf).setWidth 64
        byteCount := ~~~addressMask + 1
        memory := true
        is64Bit := true
        prefetchable := originalLow &&& 8 ≠ 0 }

/-- The round of the loop of `x86_64_pci_probe_bars` for a 64-bit memory bar. -/
def probeMemory64 (barCount index : Nat) (originalLow : BitVec 32) : Program IosError (PciProbe μ) Unit := do
  let offset := barOffset index
  failIf (barCount ≤ index + 1) .protocol
  let originalHigh ← pciConfigRead32 access (offset + 4)
  pciConfigWrite32 access offset pciAllOnes
  match ← attempt (pciConfigWrite32 access (offset + 4) pciAllOnes) with
  | .error e => do
    let _ ← attempt (pciConfigWrite32 access offset originalLow)
    fail e
  | .ok () => do
    let masks ← attempt do
      let maskLow ← pciConfigRead32 access offset
      let maskHigh ← pciConfigRead32 access (offset + 4)
      pure (maskLow, maskHigh)
    let _ ← attempt (pciConfigWrite32 access offset originalLow)
    let _ ← attempt (pciConfigWrite32 access (offset + 4) originalHigh)
    let (maskLow, maskHigh) ← ofExcept masks
    putMemory64 index originalLow originalHigh maskLow maskHigh

/-- The bar of one register, from its mask. -/
def putRegister (index : Nat) (originalLow maskLow : BitVec 32) : Program IosError (PciProbe μ) Unit :=
  if maskLow = 0 ∨ maskLow = pciAllOnes then pure ()
  else if originalLow &&& pciBarIo ≠ 0 then
    let addressMask := maskLow &&& ~~~3
    putBar index
      { address := (originalLow &&& ~~~3).setWidth 64
        byteCount := (~~~addressMask + 1).setWidth 64
        memory := false
        is64Bit := false
        prefetchable := false }
  else
    let addressMask := maskLow &&& ~~~0xf
    putMemoryBar index
      { address := (originalLow &&& ~~~0xf).setWidth 64
        byteCount := (~~~addressMask + 1).setWidth 64
        memory := true
        is64Bit := false
        prefetchable := originalLow &&& 8 ≠ 0 }

/-- The round for a bar of one register. -/
def probeRegister (index : Nat) (originalLow : BitVec 32) : Program IosError (PciProbe μ) Unit := do
  let offset := barOffset index
  pciConfigWrite32 access offset pciAllOnes
  let mask ← attempt (pciConfigRead32 access offset)
  let _ ← attempt (pciConfigWrite32 access offset originalLow)
  let maskLow ← ofExcept mask
  putRegister index originalLow maskLow

/-- A round of the loop of `x86_64_pci_probe_bars`, with the index of its last register. -/
def probeBar (barCount index : Nat) : Program IosError (PciProbe μ) Nat := do
  let originalLow ← pciConfigRead32 access (barOffset index)
  failIf (originalLow &&& pciBarIo = 0 ∧ originalLow &&& pciBarMemoryTypeMask ≠ pciBarMemory32 ∧
    originalLow &&& pciBarMemoryTypeMask ≠ pciBarMemory64) .protocol
  if originalLow &&& pciBarIo = 0 ∧ originalLow &&& pciBarMemoryTypeMask = pciBarMemory64 then do
    probeMemory64 access barCount index originalLow
    pure (index + 1)
  else do
    probeRegister access index originalLow
    pure index

/-- The loop of `x86_64_pci_probe_bars`. The index grows in every round. -/
def probeBarsFrom (barCount : Nat) : Nat → Nat → Program IosError (PciProbe μ) Unit
  | 0, _ => pure ()
  | rounds + 1, index =>
    if index < barCount then do
      let last ← probeBar access barCount index
      probeBarsFrom barCount rounds (last + 1)
    else pure ()

/-- The number of bars of a header. -/
def headerBarCount (headerType : UInt8) : Option Nat :=
  if headerType &&& pciHeaderLayoutMask = 0 then some 6
  else if headerType &&& pciHeaderLayoutMask = 1 then some 2
  else none

def pciProbeBars : Program IosError (PciProbe μ) Unit := do
  let s ← get
  match headerBarCount s.function.headerType with
  | none => fail .notSupported
  | some barCount => do
    let commandStatus ← pciConfigRead32 access pciCommandOffset
    pciConfigWrite32 access pciCommandOffset (commandStatus &&& 0xfffc)
    modify fun s => { s with function := { s.function with bars := fun _ => .zero } }
    let status ← attempt (probeBarsFrom access barCount barCount 0)
    let restoreStatus ← attempt (pciConfigWrite32 access pciCommandOffset (commandStatus &&& 0xffff))
    ofExcept status
    ofExcept restoreStatus

end

end InferenceOS
