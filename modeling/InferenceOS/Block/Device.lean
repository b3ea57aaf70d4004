import InferenceOS.Lib.Program
import InferenceOS.Lib.Crash
import InferenceOS.Status

/-! The block device of `src/block/device.c`. The driver behind it is a medium together with a fault
    plan: `faults k` says whether the `k`-th driver call fails, with which status, and which bytes a
    failed write leaves behind. A read returns what was written last. `history` records every write
    and every completed flush; no function of the source reads it. -/

namespace InferenceOS
open Program

inductive DeviceStatus where
  | offline | ready | readOnly | failed
  deriving DecidableEq, Repr

/-- A driver call that fails. No driver of `src/drivers` answers a transfer with `IOS_E_NOT_FOUND`,
    which the file service reads as the absence of a name. -/
structure DeviceFault where
  error : IosError
  error_ne : error ≠ .notFound
  residue : Nat → Sector

/-- `struct ios_block_device` with the medium and the faults of its driver. -/
structure BlockDevice where
  status : DeviceStatus
  logicalSectorSize : Nat
  sectorCount : Nat
  contents : Nat → Sector
  faults : Nat → Option DeviceFault
  calls : Nat
  history : List (DiskEvent Sector)

/-- The bytes of `count` sectors from `first` replaced by `buffer`. -/
def storeSectors (contents : Nat → Sector) (first count : Nat) (buffer : Nat → Sector) : Nat → Sector := fun n =>
  if first ≤ n ∧ n < first + count then buffer (n - first) else contents n

namespace BlockDevice

/-- The device after `count` sectors from `first` were overwritten. -/
def store (device : BlockDevice) (first count : Nat) (buffer : Nat → Sector) : BlockDevice :=
  { device with
    contents := storeSectors device.contents first count buffer
    calls := device.calls + 1
    history := device.history ++ (List.range count).map fun i => .write (first + i) (buffer i) }

/-- `device->operations.read`. -/
def driverRead (first : Nat) : Program IosError BlockDevice (Nat → Sector) := fun device =>
  match device.faults device.calls with
  | some fault => (.error fault.error, { device with calls := device.calls + 1 })
  | none => (.ok fun i => device.contents (first + i), { device with calls := device.calls + 1 })

/-- `device->operations.write`: a failed write leaves the fault's residue on its sectors. -/
def driverWrite (first count : Nat) (buffer : Nat → Sector) : Program IosError BlockDevice Unit := fun device =>
  match device.faults device.calls with
  | some fault => (.error fault.error, device.store first count fun i => fault.residue (first + i))
  | none => (.ok (), device.store first count buffer)

/-- `device->operations.flush`. -/
def driverFlush : Program IosError BlockDevice Unit := fun device =>
  match device.faults device.calls with
  | some fault => (.error fault.error, { device with calls := device.calls + 1 })
  | none => (.ok (), { device with calls := device.calls + 1, history := device.history ++ [.flush] })

def validateRange (device : BlockDevice) (first count : Nat) : Except IosError Unit :=
  if count = 0 then .error .invalidArgument
  else if device.status = .offline ∨ device.status = .failed then .error .invalidState
  else if device.sectorCount ≤ first ∨ device.sectorCount - first < count then .error .outOfRange
  else .ok ()

def read (first count : Nat) : Program IosError BlockDevice (Nat → Sector) := do
  let device ← get
  ofExcept (device.validateRange first count)
  driverRead first

def write (first count : Nat) (buffer : Nat → Sector) : Program IosError BlockDevice Unit := do
  let device ← get
  ofExcept (device.validateRange first count)
  failIf (device.status = .readOnly) .readOnly
  driverWrite first count buffer

def flush : Program IosError BlockDevice Unit := do
  let device ← get
  failIf (device.status = .offline ∨ device.status = .failed) .invalidState
  driverFlush

/-- A device of zeroed sectors that answers every call. -/
def blank (sectorCount : Nat) : BlockDevice :=
  { status := .ready, logicalSectorSize := 512, sectorCount, contents := fun _ => Bytes.zero, faults := fun _ => none
    calls := 0, history := [] }

/-- The device answers every call. -/
structure Healthy (device : BlockDevice) : Prop where
  status : device.status = .ready
  faults : ∀ k, device.faults k = none

/-! ### The recorded transfers -/

/-- The contents are what the recorded transfers made of `medium`. -/
def Recorded (medium : Nat → Sector) (device : BlockDevice) : Prop := device.contents = replay medium device.history

theorem replay_store {first : Nat} {buffer : Nat → Sector} : ∀ {count : Nat} {medium : Nat → Sector},
    replay medium ((List.range count).map fun i => .write (first + i) (buffer i)) = storeSectors medium first count buffer
  | 0, medium => by
    funext n
    rw [storeSectors, if_neg (by omega)]
    rfl
  | count + 1, medium => by
    funext n
    simp only [List.range_succ, List.map_append, replay_append, replay_store, List.map_cons, List.map_nil, replay_write,
      replay_nil, storeSectors, Function.update_apply]
    by_cases hn : n = first + count
    · subst hn
      simp
    · rw [if_neg hn]
      congr 1
      simp only [eq_iff_iff]
      omega

/-! ### What a transfer changes -/

section Transfers
variable {device : BlockDevice} {sector : Nat}

/-- A device that only counted one more driver call. -/
def tick (device : BlockDevice) : BlockDevice := { device with calls := device.calls + 1 }

theorem read_spec (hs : sector < device.sectorCount) :
    wp (read sector 1) (fun buffer d => buffer 0 = device.contents sector ∧ d = device.tick)
      (fun e d => (d = device ∨ d = device.tick) ∧ e ≠ .notFound ∧ ¬device.Healthy) device := by
  simp only [read, wp_bind, wp_get, wp_ofExcept]
  refine ⟨fun _ hv => ?_, fun e he => ?_⟩
  · unfold wp driverRead
    rcases hf : device.faults device.calls with - | fault
    · exact ⟨rfl, rfl⟩
    · exact ⟨Or.inr rfl, fault.error_ne, fun h => by simp [h.faults] at hf⟩
  · unfold validateRange at he
    simp only [Nat.one_ne_zero, ↓reduceIte] at he
    split at he
    · rename_i h
      cases he
      refine ⟨by simp, by simp, fun hh => ?_⟩
      simp [hh.status] at h
    · rw [if_neg (by omega)] at he
      cases he

theorem write_spec (hs : sector < device.sectorCount) {bytes : Sector} :
    wp (write sector 1 fun _ => bytes) (fun _ d => d = device.store sector 1 fun _ => bytes)
      (fun e d => (d = device ∨ ∃ residue, d = device.store sector 1 residue) ∧ e ≠ .notFound ∧ ¬device.Healthy) device := by
  simp only [write, wp_bind, wp_get, wp_ofExcept, wp_failIf]
  refine ⟨fun _ _ => ⟨fun hr => ⟨by simp, by simp, fun h => by simp [h.status] at hr⟩, fun _ => ?_⟩, fun e he => ?_⟩
  · unfold wp driverWrite
    rcases hf : device.faults device.calls with - | fault
    · rfl
    · exact ⟨Or.inr ⟨_, rfl⟩, fault.error_ne, fun h => by simp [h.faults] at hf⟩
  · unfold validateRange at he
    simp only [Nat.one_ne_zero, ↓reduceIte] at he
    split at he
    · rename_i h
      cases he
      refine ⟨by simp, by simp, fun hh => ?_⟩
      simp [hh.status] at h
    · rw [if_neg (by omega)] at he
      cases he

/-- The device after a completed flush. -/
def flushed (device : BlockDevice) : BlockDevice := { device.tick with history := device.history ++ [.flush] }

theorem flush_spec :
    wp flush (fun _ d => d = device.flushed)
      (fun e d => (d = device ∨ d = device.tick) ∧ e ≠ .notFound ∧ ¬device.Healthy) device := by
  simp only [flush, wp_bind, wp_get, wp_failIf]
  refine ⟨fun hr => ⟨by simp, by simp, fun h => by simp [h.status] at hr⟩, fun _ => ?_⟩
  unfold wp driverFlush
  rcases hf : device.faults device.calls with - | fault
  · rfl
  · exact ⟨Or.inr rfl, fault.error_ne, fun h => by simp [h.faults] at hf⟩

@[simp] theorem flushed_contents : device.flushed.contents = device.contents := rfl

theorem Recorded.flushed {medium : Nat → Sector} (h : device.Recorded medium) : device.flushed.Recorded medium := by
  show device.contents = replay medium (device.history ++ [.flush])
  rw [replay_append, ← h]
  rfl

end Transfers

end BlockDevice
end InferenceOS
