import InferenceOS.Kernel.Tasks

/-! The start of the system modules: their descriptors, `boot/system_modules/descriptor.c`, and the processes made of them,
    `kernel/process/process.c`. The memory of a process, its handles and what the launch callback does are in the environment. -/

namespace InferenceOS
open Program

/-! ### Descriptors -/

structure SystemModuleDescriptor where
  structureSize : UInt32
  structureVersion : UInt32
  applicationIdentity : UInt64
  role : UInt32
  flags : UInt32
  imageAddress : UInt64
  imageSize : UInt64
  entryAbiVersion : UInt32
  reserved : UInt32
  digest : Bytes 32
  deriving DecidableEq

structure SystemModuleRange where
  base : UInt64
  byteCount : UInt64

/-- `ios_system_module_digest_verifier`: the address and the size of an image, and the digest that is expected. -/
abbrev DigestVerifier : Type := UInt64 → UInt64 → Bytes 32 → Except IosError Unit

/-- The size of `struct ios_system_module_descriptor`. -/
def systemModuleDescriptorSize : UInt32 := 80

def systemModuleAbiVersion : UInt32 := 1

def systemModuleMaxCount : Nat := 32

def systemModuleRequired : UInt32 := 1

/-- `IOS_MODULE_ROLE_SHELL` to `IOS_MODULE_ROLE_TEST_APPLICATION`. -/
def moduleRoleShell : UInt32 := 1
def moduleRoleGuiDesktop : UInt32 := 2
def moduleRoleGuiTerminal : UInt32 := 3
def moduleRoleFileExplorer : UInt32 := 4
def moduleRoleTestApplication : UInt32 := 5

/-- The descriptor has the flag of a required module. -/
def SystemModuleDescriptor.Required (descriptor : SystemModuleDescriptor) : Prop := descriptor.flags &&& systemModuleRequired ≠ 0

instance {descriptor : SystemModuleDescriptor} : Decidable descriptor.Required := inferInstanceAs (Decidable (_ ≠ _))

def rangeIsValid (base byteCount : UInt64) : Bool := byteCount ≠ 0 ∧ byteCount ≤ 0xffffffffffffffff - base

def rangesOverlap (leftBase leftSize rightBase rightSize : UInt64) : Bool :=
  leftBase < rightBase + rightSize ∧ rightBase < leftBase + leftSize

def roleIsKnown (role : UInt32) : Bool := moduleRoleShell ≤ role ∧ role ≤ moduleRoleTestApplication

/-- The loop of `system_module_descriptor_validate` over the forbidden ranges. -/
def checkForbidden (descriptor : SystemModuleDescriptor) : List SystemModuleRange → Except IosError Unit
  | [] => .ok ()
  | range :: ranges =>
    if !rangeIsValid range.base range.byteCount then .error .invalidArgument
    else if rangesOverlap descriptor.imageAddress descriptor.imageSize range.base range.byteCount then .error .badAddress
    else checkForbidden descriptor ranges

def systemModuleDescriptorValidate (forbiddenRanges : List SystemModuleRange) (verifyDigest : DigestVerifier)
    (descriptor : SystemModuleDescriptor) : Except IosError Unit :=
  if descriptor.structureSize ≠ systemModuleDescriptorSize ∨ descriptor.structureVersion ≠ systemModuleAbiVersion ∨
      descriptor.entryAbiVersion ≠ systemModuleAbiVersion then .error .unsupportedVersion
  else if descriptor.applicationIdentity = 0 ∨ !roleIsKnown descriptor.role ∨ descriptor.flags &&& ~~~systemModuleRequired ≠ 0 ∨
      descriptor.reserved ≠ 0 ∨ !rangeIsValid descriptor.imageAddress descriptor.imageSize then .error .protocol
  else
    match checkForbidden descriptor forbiddenRanges with
    | .error e => .error e
    | .ok _ => verifyDigest descriptor.imageAddress descriptor.imageSize descriptor.digest

/-- The inner loop of `system_module_set_validate` over the valid descriptors before this one. -/
def checkOthers (descriptor : SystemModuleDescriptor) : List SystemModuleDescriptor → Except IosError Unit
  | [] => .ok ()
  | other :: others =>
    if descriptor.applicationIdentity = other.applicationIdentity ∨
        (descriptor.role ≠ moduleRoleTestApplication ∧ descriptor.role = other.role) then .error .alreadyExists
    else if rangesOverlap descriptor.imageAddress descriptor.imageSize other.imageAddress other.imageSize then .error .badAddress
    else checkOthers descriptor others

/-- The loop of `system_module_set_validate`. `valid` are the descriptors before that are valid; the result is `shell_count`. -/
def setValidateFrom (forbiddenRanges : List SystemModuleRange) (verifyDigest : DigestVerifier) (valid : List SystemModuleDescriptor)
    (shellCount : Nat) : List SystemModuleDescriptor → Except IosError Nat
  | [] => .ok shellCount
  | descriptor :: descriptors =>
    match systemModuleDescriptorValidate forbiddenRanges verifyDigest descriptor with
    | .error e =>
      if descriptor.role = moduleRoleShell ∨ (!roleIsKnown descriptor.role ∧ descriptor.Required) then .error e
      else setValidateFrom forbiddenRanges verifyDigest valid shellCount descriptors
    | .ok _ =>
      if descriptor.role = moduleRoleShell ∧ ¬descriptor.Required then .error .protocol
      else
        match checkOthers descriptor valid with
        | .error e => .error e
        | .ok _ =>
          setValidateFrom forbiddenRanges verifyDigest (valid ++ [descriptor])
            (if descriptor.role = moduleRoleShell then shellCount + 1 else shellCount) descriptors

def systemModuleSetValidate (descriptors : List SystemModuleDescriptor) (forbiddenRanges : List SystemModuleRange)
    (verifyDigest : DigestVerifier) : Except IosError Unit :=
  if descriptors.length = 0 ∨ systemModuleMaxCount < descriptors.length then .error .invalidArgument
  else
    match setValidateFrom forbiddenRanges verifyDigest [] 0 descriptors with
    | .error e => .error e
    | .ok shellCount => if shellCount = 1 then .ok () else .error .notFound

def systemModuleStartupRank (role : UInt32) : Nat :=
  if role = moduleRoleShell then 0
  else if role = moduleRoleGuiDesktop then 1
  else if role = moduleRoleGuiTerminal then 2
  else if role = moduleRoleFileExplorer then 3
  else 4

/-! ### Processes -/

/-- The fields of `struct ios_process` that its creation looks at. -/
structure ProcessEntry where
  processId : UInt64
  applicationIdentity : UInt64
  moduleRole : UInt32
  state : ProcessState

/-- A zeroed entry. -/
def ProcessEntry.zero : ProcessEntry := ⟨0, 0, 0, .unused⟩

/-- The process table with its counters, and the memory, the handles and the devices around it. -/
structure ProcessSystem (R : Type) where
  ready : Bool
  table : ProcessRef → ProcessEntry
  nextProcessId : UInt64
  rest : R

/-- The programs over the process table. -/
abbrev ProcessProgram (R α : Type) : Type := Program IosError (ProcessSystem R) α

/-- What the processes are made of: the handle table, the address space, the image and the stacks of a process, as far as it can
    be built; what its end gives back; and the launch callback, which may change everything. -/
structure ProcessEnvironment (R : Type) where
  build : ProcessRef → SystemModuleDescriptor → Program IosError R Unit
  release : ProcessRef → R → R
  launch : ProcessRef → ProcessProgram R Unit

namespace ProcessProgram
variable {R : Type}

/-- Change an entry of the table. -/
def setEntry (slot : ProcessRef) (f : ProcessEntry → ProcessEntry) : ProcessProgram R Unit :=
  modify fun s => { s with table := Function.update s.table slot (f (s.table slot)) }

def processDestroy (env : ProcessEnvironment R) (slot : ProcessRef) : ProcessProgram R Unit := do
  let s ← get
  if (s.table slot).state = .unused then pure ()
  else do
    modify fun s => { s with rest := env.release slot s.rest }
    setEntry slot fun _ => .zero

def allocateProcessSlot : ProcessProgram R (ProcessRef) := do
  let s ← get
  match (List.finRange processMaxCount).find? fun slot => (s.table slot).state = .unused with
  | none => fail .noSpace
  | some slot => do
    setEntry slot fun _ => { ProcessEntry.zero with state := .created }
    pure slot

def processCreateFromModule (env : ProcessEnvironment R) (descriptor : SystemModuleDescriptor) :
    ProcessProgram R (ProcessRef) := do
  let s ← get
  failIf (s.ready = false ∨ descriptor.applicationIdentity = 0) .invalidArgument
  failIf (∃ slot, (s.table slot).state ≠ .unused ∧ (s.table slot).applicationIdentity = descriptor.applicationIdentity) .alreadyExists
  let slot ← allocateProcessSlot
  setEntry slot fun entry =>
    { entry with
      processId := s.nextProcessId, applicationIdentity := descriptor.applicationIdentity, moduleRole := descriptor.role }
  modify fun s => { s with nextProcessId := if s.nextProcessId + 1 = 0 then 1 else s.nextProcessId + 1 }
  let status ← attempt (zoom ProcessSystem.rest (fun s rest => { s with rest }) (env.build slot descriptor))
  match status with
  | .error e => do
    processDestroy env slot
    fail e
  | .ok _ => pure slot

end ProcessProgram

/-! ### The start -/

/-- The process table while the modules are started. `started` are the modules whose launch succeeded, in order, each with its
    place in the list; no function of the source reads them. -/
structure ModuleStartup (R : Type) where
  system : ProcessSystem R
  started : List (SystemModuleDescriptor × Nat)

/-- The programs that start the modules. -/
abbrev StartupProgram (R α : Type) : Type := Program IosError (ModuleStartup R) α

namespace StartupProgram
variable {R α : Type}

/-- Run a program of the process table. -/
def onSystem (m : ProcessProgram R α) : StartupProgram R α := zoom ModuleStartup.system (fun s system => { s with system }) m

/-- The body of the loops of `process_start_system_modules`, for a module of the current rank. -/
def startModule (env : ProcessEnvironment R) (forbiddenRanges : List SystemModuleRange) (verifyDigest : DigestVerifier)
    (module : SystemModuleDescriptor × Nat) : StartupProgram R Unit :=
  let mustStart := module.1.role = moduleRoleShell ∨ module.1.Required
  match systemModuleDescriptorValidate forbiddenRanges verifyDigest module.1 with
  | .error _ => pure ()
  | .ok _ => do
    let created ← attempt (onSystem (ProcessProgram.processCreateFromModule env module.1))
    match created with
    | .error e => failIf mustStart e
    | .ok slot => do
      onSystem (ProcessProgram.setEntry slot fun entry => { entry with state := .runnable })
      let launched ← attempt (onSystem (env.launch slot))
      match launched with
      | .error e => do
        onSystem (ProcessProgram.processDestroy env slot)
        failIf mustStart e
      | .ok _ => modify fun s => { s with started := s.started ++ [module] }

def processStartSystemModules (env : ProcessEnvironment R) (descriptors : List SystemModuleDescriptor)
    (forbiddenRanges : List SystemModuleRange) (verifyDigest : DigestVerifier) : StartupProgram R Unit := do
  let s ← get
  failIf (s.system.ready = false) .invalidState
  ofExcept (systemModuleSetValidate descriptors forbiddenRanges verifyDigest)
  each (fun rank => each (fun module =>
    if systemModuleStartupRank module.1.role ≠ rank then pure ()
    else startModule env forbiddenRanges verifyDigest module) descriptors.zipIdx) (List.range 5)

end StartupProgram
end InferenceOS
