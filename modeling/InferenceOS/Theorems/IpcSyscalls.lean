import InferenceOS.Syscall.Ipc
import InferenceOS.Theorems.Delivery

/-! What a system call on endpoints and services leaves behind when it fails. A connect takes its handle back, a receive does
    not put its message back. -/

namespace InferenceOS
open Program HandleTables Function UserIpcReceiveRequest

namespace UserCopy
open VirtualMemory
variable {addressSpace : AddressSpace} {userAddress byteCount rounds copied : Nat} {copyToUser clearUser : Bool} {s : CopyState}
  {memory : VirtualMemory} {source : Nat → UInt8}

/-- Each page that the copy reaches is mapped for it, in the page tables as they are then. -/
def Passes (addressSpace : AddressSpace) (userAddress byteCount : Nat) (copyToUser clearUser : Bool) :
    Nat → Nat → CopyState → Prop
  | 0, _, _ => True
  | rounds + 1, copied, s => copied < byteCount → ∃ physicalAddress flags,
    s.memory.virtualQuery (some addressSpace) (userAddress + copied) true true = .ok (physicalAddress, flags) ∧
    Permits flags copyToUser ∧
    Passes addressSpace userAddress byteCount copyToUser clearUser rounds (copied + chunkSize userAddress byteCount copied)
      (moveChunk physicalAddress copied (chunkSize userAddress byteCount copied) copyToUser clearUser s)

/-- A range of user addresses whose pages are mapped writable for the user, while `source` is copied to them. -/
structure Writable (memory : VirtualMemory) (addressSpace : AddressSpace) (userAddress byteCount : Nat) (source : Nat → UInt8) :
    Prop where
  range : virtualUserRangeIsValid userAddress byteCount = true
  pages : Passes addressSpace userAddress byteCount true false byteCount 0 ⟨memory, source⟩

theorem copyFrom_spec : ∀ {rounds copied : Nat} {s : CopyState},
    wp (copyFrom addressSpace userAddress byteCount copyToUser clearUser rounds copied)
      (fun _ _ => Passes addressSpace userAddress byteCount copyToUser clearUser rounds copied s)
      (fun _ _ => ¬Passes addressSpace userAddress byteCount copyToUser clearUser rounds copied s) s
  | 0, copied, s => trivial
  | rounds + 1, copied, s => by
    rw [copyFrom, wp_ite]
    refine ⟨fun hmore => ?_, fun hdone hx => absurd hx hdone⟩
    simp only [wp_bind, wp_get]
    cases hq : s.memory.virtualQuery (some addressSpace) (userAddress + copied) true true with
    | error status =>
      intro hpasses
      obtain ⟨physicalAddress, flags, hok, -⟩ := hpasses hmore
      cases hq.symm.trans hok
    | ok found =>
      obtain ⟨physicalAddress, flags⟩ := found
      simp only [wp_bind, wp_failIf, wp_modify, not_not]
      refine ⟨fun hdenied hpasses => ?_, fun hpermits => ?_⟩
      · obtain ⟨_, _, hok, hpermits, -⟩ := hpasses hmore
        cases hq.symm.trans hok
        exact hdenied hpermits
      · refine wp_mono copyFrom_spec (fun _ _ hrest _ => ⟨physicalAddress, flags, hq, hpermits, hrest⟩) fun _ _ hrest hpasses => ?_
        obtain ⟨_, _, hok, -, hrest'⟩ := hpasses hmore
        cases hq.symm.trans hok
        exact hrest hrest'

theorem userCopyTo_spec (hpos : byteCount ≠ 0) : wp (userCopyTo addressSpace userAddress source byteCount)
    (fun _ _ => Writable memory addressSpace userAddress byteCount source)
    (fun _ _ => ¬Writable memory addressSpace userAddress byteCount source) memory := by
  unfold userCopyTo copyUserPages
  rw [if_neg hpos, wp_zoom, wp_bind, wp_failIf]
  refine ⟨fun hrange hw => (nomatch hrange.symm.trans hw.range), fun hrange => ?_⟩
  exact wp_mono copyFrom_spec (fun _ _ hp => ⟨by simpa using hrange, hp⟩) fun _ _ hp hw => hp hw.pages

theorem copyFrom_memory : ∀ {rounds copied : Nat},
    Keeps (fun s t : CopyState => t.memory = s.memory) (copyFrom addressSpace userAddress byteCount false false rounds copied)
  | 0, _ => fun _ => rfl
  | rounds + 1, copied => by
    intro s
    rw [copyFrom]
    split
    · refine of_wp (P := fun t : CopyState => t.memory = s.memory) ?_
      simp only [wp_bind, wp_get]
      cases s.memory.virtualQuery (some addressSpace) (userAddress + copied) true true with
      | error status => exact rfl
      | ok found =>
        simp only [wp_bind, wp_failIf, wp_modify]
        exact ⟨fun _ => trivial, fun _ => copyFrom_memory.wp⟩
    · rfl

theorem copyUserPages_memory : Keeps (fun s t : CopyState => t.memory = s.memory)
    (copyUserPages addressSpace userAddress byteCount false false) := by
  intro s
  unfold copyUserPages
  split
  · rfl
  · refine of_wp (P := fun t : CopyState => t.memory = s.memory) ?_
    rw [wp_bind, wp_failIf]
    exact ⟨fun _ => rfl, fun _ => copyFrom_memory.wp⟩

theorem userCopyFrom_memory : Keeps Eq (userCopyFrom addressSpace userAddress byteCount) := by
  intro memory
  have hmemory := @copyUserPages_memory addressSpace userAddress byteCount
    ⟨memory, fun _ => 0⟩
  unfold userCopyFrom
  split
  all_goals
    rename_i hrun
    rw [hrun] at hmemory
    exact hmemory.symm

end UserCopy

namespace Kernel
open IpcWorld
variable {s u v : Kernel} {p : ProcessRef} {e : EndpointRef} {issued : Handle}

def openEntry (s : Kernel) (p : ProcessRef) (handle : Handle) : Option (HandleEntry IpcWorld EndpointRef) :=
  match (s.tables p).decodeHandle handle with
  | .ok index => some (s.entry p index)
  | .error _ => none

/-- The same messages in the queues, the same open handles of a process, and the same reference counts. -/
structure Unchanged (p : ProcessRef) (s u : Kernel) : Prop where
  queues : ∀ e, (u.world.endpoints e).contents = (s.world.endpoints e).contents
  handles : ∀ handle, u.openEntry p handle = s.openEntry p handle
  references : ∀ e, (u.world.endpoints e).referenceCount = (s.world.endpoints e).referenceCount

theorem Unchanged.refl : Unchanged p s s := ⟨fun _ => rfl, fun _ => rfl, fun _ => rfl⟩

theorem release_retain (hb : Balanced s) (he : 0 < s.references e + serviceReferences s.world.services e) :
    endpointRelease e (endpointRetain e s.world) = s.world := by
  have hlive := hb.counts.1.allocated he
  obtain ⟨hcount, -⟩ := hb.counts.1.count e hlive
  have hle := @references_le ProcessRef IpcWorld EndpointRef _ _ s e
  have hlimit := limit_lt s.world.services e
  have hretain : endpointRetain e s.world = s.world.setEndpoint e
      { s.world.endpoints e with referenceCount := (s.world.endpoints e).referenceCount + 1 } := by
    unfold endpointRetain
    exact if_pos ⟨hlive, by omega⟩
  have hsame : ∀ endpoint : Endpoint, (s.world.setEndpoint e endpoint).endpoints e = endpoint := fun _ => update_self _ _ _
  rw [hretain]
  unfold endpointRelease
  dsimp only
  rw [hsame, if_pos ⟨hlive, Nat.succ_ne_zero _⟩, if_neg (by simp only [Nat.add_sub_cancel]; omega)]
  show IpcWorld.setEndpoint (IpcWorld.setEndpoint _ _ _) _ _ = _
  unfold IpcWorld.setEndpoint
  simp only [Nat.add_sub_cancel, update_idem, update_eq_self]

theorem openEntry_congr (h : ∀ i, u.entry p i = s.entry p i ∨ (u.entry p i).object = none ∧ (s.entry p i).object = none)
    (handle : Handle) : u.openEntry p handle = s.openEntry p handle := by
  have hdecode : ∀ {s u : Kernel} {i : Fin handleTableCapacity}, (s.tables p).decodeHandle handle = .ok i →
      (u.entry p i = s.entry p i ∨ (u.entry p i).object = none ∧ (s.entry p i).object = none) →
      (u.tables p).decodeHandle handle = .ok i ∧ u.entry p i = s.entry p i := by
    intro s u i hi hcase
    obtain ⟨-, hsome⟩ := HandleTable.decodeHandle_eq_ok hi
    rcases hcase with hsame | ⟨-, hnone⟩
    · refine ⟨HandleTable.decodeHandle_of_entry hi ?_ ?_, hsame⟩
      · show (u.entry p i).object.isSome
        rw [hsame]
        exact hsome
      · show (u.entry p i).generation = (s.entry p i).generation
        rw [hsame]
    · have hsome' : (s.entry p i).object.isSome := hsome
      rw [hnone] at hsome'
      cases hsome'
  unfold openEntry
  cases hs : (s.tables p).decodeHandle handle with
  | ok i =>
    obtain ⟨hu, hentry⟩ := hdecode hs (h i)
    rw [hu]
    exact congrArg some hentry
  | error error =>
    cases hu : (u.tables p).decodeHandle handle with
    | error => rfl
    | ok i =>
      obtain ⟨hs', -⟩ := hdecode hu ((h i).imp Eq.symm And.symm)
      cases hs.symm.trans hs'

theorem connect_close (hb : Balanced s) {service : Option TrustedService} :
    wp (ipcServiceConnect p service true) (fun issued u => Unchanged p s (handleTableClose p issued u).2) (fun _ u => u = s) s := by
  refine wp_mono connect_spec (fun issued u ⟨name, e, _, he, i, hi, hissued, hu⟩ => ?_) fun _ u hu => ?_
  · have hworld := release_retain hb (Nat.add_pos_right _ (serviceReferences_pos he))
    have hentry : u.entry p i = ⟨some e, clientRights, (s.entry p i).generation, .ipcEndpoint, some endpointRetain,
        some endpointRelease⟩ := by
      rw [hu, fill_entry, if_pos ⟨rfl, rfl⟩]
      rfl
    have hgeneration : (u.entry p i).generation = (s.entry p i).generation := by rw [hentry]
    have hclosed := @HandleTables.close_encode _ _ _ _ u p i e (by rw [hgeneration]; exact generation_lt hb)
      (by rw [hentry])
    rw [hgeneration, ← hissued] at hclosed
    have hfinal : (handleTableClose p issued u).2 = callOn (some endpointRelease) (some e) (u.vacate p i) := by
      refine of_wp (P := fun v : Kernel => v = callOn (some endpointRelease) (some e) (u.vacate p i)) ?_
      refine wp_mono hclosed (fun _ v hv => ?_) fun _ _ hv => hv.elim
      rw [hv, hentry]
    have hback : (handleTableClose p issued u).2.world = s.world := by
      rw [hfinal, ← hworld, hu]
      rfl
    refine ⟨fun x => by rw [hback], openEntry_congr fun j => ?_, fun x => by rw [hback]⟩
    rw [hfinal, callOn_entry, vacate_entry]
    split
    · rename_i hj
      rw [hj.2]
      exact Or.inr ⟨rfl, hi.empty⟩
    · rename_i hj
      rw [hu, fill_entry, if_neg hj]
      exact Or.inl rfl
  · rcases hu with rfl | ⟨name, e, he, rfl⟩
    · rfl
    · rw [release_retain hb (Nat.add_pos_right _ (serviceReferences_pos he))]
      rfl

end Kernel

namespace Syscall
open Kernel UserCopy
variable {s : SyscallState} {process : ProcessRef} {arguments : Fin 6 → BitVec 64}

theorem keeps_onMemory {α : Type} {m : AddressSpace → Program IosError VirtualMemory α} (h : ∀ addressSpace, Keeps Eq (m addressSpace)) :
    Keeps Eq (onMemory process m) := by
  refine keeps_get_bind fun s => ?_
  have hm := h (s.addressSpaces process) s.memory
  show s = { s with memory := (m (s.addressSpaces process) s.memory).2 }
  rw [← hm]

theorem keeps_copyVersionedRequest {userAddress requestSize : Nat} :
    Keeps Eq (copyVersionedRequest process userAddress requestSize) := by
  unfold copyVersionedRequest syscallValidateStructureHeader
  refine Keeps.bind ?_ fun size => keeps_failIf.bind fun _ => keeps_onMemory fun _ => userCopyFrom_memory
  refine keeps_failIf.bind fun _ => (keeps_onMemory fun _ => userCopyFrom_memory).bind fun buffer => ?_
  exact keeps_failIf.bind fun _ => keeps_failIf.bind fun _ => keeps_pure

theorem onMemory_kernel {α : Type} {m : AddressSpace → Program IosError VirtualMemory α} :
    wp (onMemory process m) (fun _ t => t.kernel = s.kernel) (fun _ t => t.kernel = s.kernel) s := by
  unfold onMemory
  rw [wp_bind, wp_get, wp_zoom]
  exact wp_iff.mpr ⟨fun _ _ _ => rfl, fun _ _ _ => rfl⟩

theorem wp_onKernel {α : Type} {m : Program IosError Kernel α} {Q : α → SyscallState → Prop} {E : IosError → SyscallState → Prop} :
    wp (onKernel m) Q E s = wp m (fun a k => Q a { s with kernel := k }) (fun error k => E error { s with kernel := k }) s.kernel :=
  wp_zoom

theorem close_back {k : Kernel} {issued : Handle} {status : IosError}
    (h : Unchanged process k (handleTableClose process issued s.kernel).2) :
    wp (do
      let _ ← attempt (onKernel (handleTableClose process issued))
      fail status : Program IosError SyscallState Unit) (fun _ _ => True) (fun _ t => Unchanged process k t.kernel) s := by
  simp only [wp_bind, wp_attempt, wp_onKernel, wp_fail]
  refine wp_iff.mpr ⟨fun _ u hu => ?_, fun _ u hu => ?_⟩
  all_goals
    rw [hu] at h
    exact h

theorem connect_unchanged (hb : Balanced s.kernel) : wp (ipcServiceConnectSyscall process arguments) (fun _ _ => True)
    (fun _ t => Unchanged process s.kernel t.kernel) s := by
  unfold ipcServiceConnectSyscall
  rw [wp_bind, wp_failIf]
  refine ⟨fun _ => .refl, fun _ => ?_⟩
  rw [wp_bind]
  refine wp_mono keeps_copyVersionedRequest.wp (fun buffer t ht => ?_) fun _ t ht => ht ▸ .refl
  obtain rfl := ht
  simp only [wp_bind, wp_failIf]
  refine ⟨fun _ => .refl, fun _ => ?_⟩
  rw [wp_onKernel]
  refine wp_mono (connect_close hb) (fun issued u hu => ?_) fun _ u hu => by rw [hu]; exact .refl
  rw [wp_bind, wp_get, wp_ite]
  refine ⟨fun _ => close_back hu, fun _ => ?_⟩
  rw [wp_bind, wp_attempt]
  refine wp_mono onMemory_kernel (fun _ t ht => trivial) fun status t ht => close_back ?_
  rw [ht]
  exact hu

theorem send_unchanged : wp (ipcSendSyscall process arguments) (fun _ _ => True)
    (fun _ t => Unchanged process s.kernel t.kernel) s := by
  unfold ipcSendSyscall
  rw [wp_bind, wp_failIf]
  refine ⟨fun _ => .refl, fun _ => ?_⟩
  rw [wp_bind]
  refine wp_mono keeps_copyVersionedRequest.wp (fun buffer t ht => ?_) fun _ t ht => ht ▸ .refl
  obtain rfl := ht
  dsimp only
  generalize UserIpcSendRequest.read buffer = request
  rw [wp_bind, wp_failIf]
  refine ⟨fun _ => .refl, fun _ => ?_⟩
  have hsend : ∀ payload t, t.kernel = s.kernel → wp (onKernel (ipcSend process request.endpointHandle ⟨request.requestId,
      request.operation, request.messageFlags, request.itemCount, payload, request.payloadSize⟩ false)) (fun _ _ => True)
      (fun _ t => Unchanged process s.kernel t.kernel) t := by
    intro payload t ht
    rw [wp_onKernel, ht]
    refine wp_mono send_spec (fun _ _ _ => trivial) fun _ u hu => ?_
    rw [hu.1]
    exact .refl
  rw [wp_ite]
  refine ⟨fun _ => ?_, fun _ => ?_⟩
  · rw [wp_bind, wp_pure]
    exact hsend none s rfl
  · rw [wp_bind, wp_map]
    refine wp_mono onMemory_kernel (fun payload t ht => hsend (some payload) t ht) fun _ t ht => ?_
    rw [ht]
    exact .refl

local instance neZero_arguments : NeZero 6 := ⟨by decide⟩

/-- The message that a receive takes can be copied to where the request wants it. -/
def ReceiveFits (s : SyscallState) (process : ProcessRef) (arguments : Fin 6 → BitVec 64) : Prop :=
  ∀ buffer e, unusedArgumentsAreZero arguments = true →
    copyVersionedRequest process (arguments 0).toNat receiveRequestSize s = (.ok buffer, s) →
    ¬(read buffer).IsMalformed →
    s.kernel.ReceivesFrom process (read buffer).endpointHandle true e →
    (s.kernel.world.endpoints e).count ≠ 0 →
    UserCopy.Writable s.memory (s.addressSpaces process) (read buffer).messageAddress ipcMessageSize
      (s.kernel.world.endpoints e).front.bytes.byte

theorem not_unchanged_received {k : Kernel} {e : EndpointRef} (hr : Rings k) (he : (k.world.endpoints e).allocated = true)
    (hsome : (k.world.endpoints e).count ≠ 0) : ¬Unchanged process k (k.withWorld (received e k.world)) := by
  intro h
  have hpop := @Ring.contents_pop _ _ IpcMessage.zero (hr e he) (Nat.pos_of_ne_zero hsome)
  have hqueue := h.queues e
  have hreceived : ((received e k.world).endpoints e).contents = ((k.world.endpoints e).pop IpcMessage.zero).contents := by
    have hnew : (received e k.world).endpoints e =
        { k.world.endpoints e with toRing := (k.world.endpoints e).pop IpcMessage.zero } := update_self _ _ _
    rw [hnew]
  rw [show (k.withWorld (received e k.world)).world = received e k.world from rfl, hreceived] at hqueue
  have hlength := congrArg List.length (hqueue.trans hpop)
  rw [List.length_cons] at hlength
  omega

theorem receive_syscall_spec : wp (ipcReceiveSyscall process arguments) (fun _ _ => ReceiveFits s process arguments)
    (fun _ t => t.kernel = s.kernel ∧ ReceiveFits s process arguments ∨ ∃ e, (s.kernel.world.endpoints e).allocated = true ∧
      (s.kernel.world.endpoints e).count ≠ 0 ∧ t.kernel = s.kernel.withWorld (received e s.kernel.world) ∧
      ¬ReceiveFits s process arguments) s := by
  unfold ipcReceiveSyscall
  rw [wp_bind, wp_failIf]
  refine ⟨fun hused => Or.inl ⟨rfl, fun _ _ hunused => nomatch hused.symm.trans hunused⟩, fun hunused => ?_⟩
  have hunused' : unusedArgumentsAreZero arguments = true := by simpa using hunused
  have hread := @keeps_copyVersionedRequest process (arguments 0).toNat receiveRequestSize
  rw [wp_bind]
  refine wp_iff.mpr ⟨fun buffer t hbuffer => ?_, fun status t hstatus => ?_⟩
  · obtain rfl := hread.run hbuffer
    -- The condition speaks of the request that was read.
    have hiff : ReceiveFits s process arguments ↔ ∀ e, ¬(read buffer).IsMalformed →
        s.kernel.ReceivesFrom process (read buffer).endpointHandle true e →
        (s.kernel.world.endpoints e).count ≠ 0 → UserCopy.Writable s.memory (s.addressSpaces process)
          (read buffer).messageAddress ipcMessageSize (s.kernel.world.endpoints e).front.bytes.byte := by
      refine ⟨fun h e => h buffer e hunused' hbuffer, fun h other e _ hother => ?_⟩
      obtain rfl := Except.ok.inj (Prod.mk.inj (hbuffer.symm.trans hother)).1
      exact h e
    rw [hiff]
    dsimp only
    generalize read buffer = request
    rw [wp_bind, wp_failIf]
    refine ⟨fun hbad => Or.inl ⟨rfl, fun e hgood => absurd hbad hgood⟩, fun hgood => ?_⟩
    rw [wp_bind, wp_onKernel]
    refine wp_mono receive_spec (fun message k ⟨e, hreceives, hcase⟩ => ?_) fun status k ⟨hk, hempty⟩ => ?_
    · rcases hcase with ⟨-, hblock, -⟩ | ⟨hsome, rfl, rfl⟩
      · cases hblock
      have hunique : ∀ x, s.kernel.ReceivesFrom process request.endpointHandle true x → x = e :=
        fun x hx => Except.ok.inj (hx.resolved.symm.trans hreceives.resolved)
      unfold onMemory
      rw [wp_bind, wp_get, wp_zoom]
      refine wp_mono (userCopyTo_spec (by decide)) (fun _ _ hw x _ hx _ => ?_) fun _ _ hw => Or.inr ?_
      · rw [hunique x hx]
        exact hw
      · exact ⟨e, (resolveEndpoint_eq_ok hreceives.resolved).2.1, hsome, rfl, fun hall => hw (hall e hgood hreceives hsome)⟩
    · rw [hk]
      exact Or.inl ⟨rfl, fun e _ hreceives hsome => absurd (hempty e hreceives).1 hsome⟩
  · obtain rfl := hread.run hstatus
    exact Or.inl ⟨rfl, fun buffer _ _ hbuffer => nomatch hstatus.symm.trans hbuffer⟩

theorem receive_unchanged_iff (hr : Rings s.kernel) :
    (∀ error t, ipcReceiveSyscall process arguments s = (.error error, t) → Unchanged process s.kernel t.kernel) ↔
      ReceiveFits s process arguments := by
  have hspec := @receive_syscall_spec s process arguments
  constructor
  · intro hunchanged
    rcases hrun : ipcReceiveSyscall process arguments s with ⟨error | _, t⟩
    · rcases wp_error hspec hrun with ⟨-, hfits⟩ | ⟨e, hlive, hsome, hkernel, -⟩
      · exact hfits
      · have hlost := @not_unchanged_received process _ _ hr hlive hsome
        rw [← hkernel] at hlost
        exact absurd (hunchanged error t hrun) hlost
    · have hfits := wp_ok hspec hrun
      exact hfits
  · intro hfits error t hrun
    rcases wp_error hspec hrun with ⟨hkernel, -⟩ | ⟨e, -, -, -, hnot⟩
    · rw [hkernel]
      exact .refl
    · exact absurd hfits hnot

/-- After any run of the kernel, for any memory and any arguments: a connect or a send that fails leaves the queues, the open
    handles of the caller and the reference counts as they were. So does a receive, exactly when the message that it would
    take can be copied to the address in its request. -/
theorem syscalls_atomic {tr : Trace} (h : KernelRun (fun _ _ => True) s.kernel tr) (process : ProcessRef)
    (arguments : Fin 6 → BitVec 64) :
    (∀ error t, ipcServiceConnectSyscall process arguments s = (.error error, t) → Unchanged process s.kernel t.kernel) ∧
    (∀ error t, ipcSendSyscall process arguments s = (.error error, t) → Unchanged process s.kernel t.kernel) ∧
    ((∀ error t, ipcReceiveSyscall process arguments s = (.error error, t) → Unchanged process s.kernel t.kernel) ↔
      ReceiveFits s process arguments) := by
  refine ⟨fun error t hrun => ?_, fun error t hrun => ?_, receive_unchanged_iff (rings_run h)⟩
  · have hconnect := wp_error (connect_unchanged (balanced_run h)) hrun
    exact hconnect
  · have hsend := wp_error send_unchanged hrun
    exact hsend

def readOnlyMemory : VirtualMemory where
  physical := PhysicalMemory.unset
  words page index :=
    match page, index.1 with
    | 0x1000, 2 => 0x2007
    | 0x2000, 0 => 0x3007
    | 0x3000, 0 => 0x4007
    | 0x4000, 0 => 0x5005
    | 0x5000, 0 => 0x10020
    | 0x5000, 1 => firstHandle
    | 0x5000, 2 => 0x10000000000
    | 0x5000, 3 => 552
    | _, _ => 0
  executeDisableEnabled := true
  kernelRootAddress := 0
  pagingRoot := 0
  halted := false

def requestArguments : Fin 6 → BitVec 64 := fun index => if index = 0 then 0x10000000000 else 0

def pendingMessage : List KernelCall := [.create 0 1 true, .send 0 firstHandle firstRequest false]

def pendingState : SyscallState := ⟨KernelCall.runAll pendingMessage boot, readOnlyMemory, fun _ => ⟨0x1000⟩⟩

theorem syscalls_atomic_boot :
    (∀ error t, ipcSendSyscall 0 requestArguments pendingState = (.error error, t) → Unchanged 0 pendingState.kernel t.kernel) ∧
    ((∀ error t, ipcReceiveSyscall 0 requestArguments pendingState = (.error error, t) →
      Unchanged 0 pendingState.kernel t.kernel) ↔ ReceiveFits pendingState 0 requestArguments) := by
  have hrun : KernelRun (fun _ _ => True) (KernelCall.runAll pendingMessage boot) _ :=
    .runAll (fun _ _ _ => trivial) (.booted booted_boot)
  exact (syscalls_atomic (s := pendingState) hrun 0 requestArguments).2

/-- The message is taken from the queue before the copy to the read-only page fails. -/
theorem message_lost : ¬∀ (s : SyscallState) (tr : Trace), KernelRun (fun _ _ => True) s.kernel tr →
    ∀ process arguments error t, ipcReceiveSyscall process arguments s = (.error error, t) → Unchanged process s.kernel t.kernel := by
  intro hall
  have hrun : KernelRun (fun _ _ => True) (KernelCall.runAll pendingMessage boot) _ :=
    .runAll (fun _ _ _ => trivial) (.booted booted_boot)
  have hfails : ipcReceiveSyscall 0 requestArguments pendingState = (.error .badAddress, _) := run_eq (by decide +kernel)
  have hqueue := congrArg List.length ((hall pendingState _ hrun 0 requestArguments _ _ hfails).queues 0)
  rw [Ring.length_contents, Ring.length_contents] at hqueue
  have hbefore : (pendingState.kernel.world.endpoints 0).count = 1 := by decide +kernel
  have hafter : ((ipcReceiveSyscall 0 requestArguments pendingState).2.kernel.world.endpoints 0).count = 0 := by decide +kernel
  rw [hbefore, hafter] at hqueue
  cases hqueue

end Syscall
end InferenceOS
