import InferenceOS.Fs.Transaction
import InferenceOS.Theorems.RecordCodec

/-! The callbacks of a transaction, in the order in which it makes them. A transaction performs the events of its documented
    order until one fails, and the registry sees nothing but its outcome. -/

variable {event : Event}

namespace InferenceOS
open Program
variable {disk : Slot}
namespace Transaction
variable {ω : Type}

/-- A callback with its arguments. -/
inductive Event where
  | content (content : Option Text) (length : Nat)
  | allocation
  | primary (disk : Slot)
  | companion (disk : Slot)
  | deletedPair
  | release (firstCluster : Nat)
  | barrier

/-- The callback of an event. -/
def Event.callback : Event → TransactionOperations ω → Option (Program IosError ω Unit)
  | .content bytes length, operations => operations.persistContent.map fun persist => persist bytes length
  | .allocation, operations => operations.persistAllocation
  | .primary disk, operations => operations.persistPrimary.map fun persist => persist disk
  | .companion disk, operations => operations.persistCompanion.map fun persist => persist disk
  | .deletedPair, operations => operations.persistDeletedPair
  | .release firstCluster, operations => operations.releaseAllocation.map fun release => release firstCluster
  | .barrier, operations => operations.barrier

/-- Callbacks that were made, with their results. -/
abbrev Trace : Type := List (Event × Except IosError Unit)

def noting (event : Event) (operation : Program IosError ω Unit) : Program IosError (ω × Trace) Unit := fun state =>
  ((operation state.1).1, ((operation state.1).2, state.2 ++ [(event, (operation state.1).1)]))

/-- Operations that note what is called. -/
def recording (operations : TransactionOperations ω) : TransactionOperations (ω × Trace) where
  persistContent := operations.persistContent.map fun persist content length => noting (.content content length) (persist content length)
  persistAllocation := operations.persistAllocation.map (noting .allocation)
  persistPrimary := operations.persistPrimary.map fun persist disk => noting (.primary disk) (persist disk)
  persistCompanion := operations.persistCompanion.map fun persist disk => noting (.companion disk) (persist disk)
  persistDeletedPair := operations.persistDeletedPair.map (noting .deletedPair)
  releaseAllocation := operations.releaseAllocation.map fun release firstCluster => noting (.release firstCluster) (release firstCluster)
  barrier := operations.barrier.map (noting .barrier)

/-- A transaction whose callbacks are recorded. -/
def recorded (transaction : Transaction ω) : Transaction (ω × Trace) :=
  { context := (transaction.context, [])
    operations := recording transaction.operations
    registry := transaction.registry
    registryDirectoryCluster := transaction.registryDirectoryCluster
    registryPrimarySlot := transaction.registryPrimarySlot
    writable := transaction.writable }

def succeeded (order : List Event) : Trace := order.map fun event => (event, .ok ())

inductive Follows : List Event → Except IosError Unit → Trace → Prop
  | done : Follows [] (.ok ()) []
  | failed {event : Event} {order : List Event} {status : IosError} :
      Follows (event :: order) (.error status) [(event, .error status)]
  | passed {event : Event} {order : List Event} {result : Except IosError Unit} {calls : Trace} (h : Follows order result calls) :
      Follows (event :: order) result ((event, .ok ()) :: calls)

namespace Follows
variable {order : List Event} {result : Except IosError Unit} {calls : Trace}

theorem ok_iff (h : Follows order result calls) : result = .ok () ↔ calls = succeeded order := by
  induction h with
  | done => exact ⟨fun _ => rfl, fun _ => rfl⟩
  | failed => exact ⟨fun h => (nomatch h), fun h => by cases h⟩
  | passed _ ih =>
    rw [ih, succeeded, succeeded, List.map_cons]
    exact ⟨congrArg _, fun h => (List.cons.inj h).2⟩

theorem error (h : Follows order result calls) {i : Nat} {status : IosError}
    (hi : calls[i]? = some (event, .error status)) : i + 1 = calls.length ∧ result = .error status := by
  induction h generalizing i with
  | done => cases hi
  | failed =>
    cases i with
    | zero =>
      cases hi
      exact ⟨rfl, rfl⟩
    | succ i => cases hi
  | passed _ ih =>
    cases i with
    | zero => cases hi
    | succ i =>
      obtain ⟨hlast, hresult⟩ := ih hi
      exact ⟨congrArg (· + 1) hlast, hresult⟩

theorem before (h : Follows order result calls) {i : Nat} {outcome : Except IosError Unit}
    (hi : calls[i]? = some (event, outcome)) : order[i]? = some event ∧ calls.take i = succeeded (order.take i) := by
  induction h generalizing i with
  | done => cases hi
  | failed =>
    cases i with
    | zero =>
      cases hi
      exact ⟨rfl, rfl⟩
    | succ i => cases hi
  | passed _ ih =>
    cases i with
    | zero =>
      cases hi
      exact ⟨rfl, rfl⟩
    | succ i =>
      obtain ⟨hevent, htake⟩ := ih hi
      exact ⟨hevent, congrArg _ htake⟩

end Follows

def perform (event : Event) : Transacting ω Unit := call event.callback

/-- A transaction whose callbacks are there and recorded. -/
structure Recorded (transaction : Transaction (ω × Trace)) : Prop where
  operations : ∃ operations, transaction.operations = recording operations
  valid : transaction.validateTransaction = .ok ()

theorem callback_recording {operations : TransactionOperations ω} : ∀ event : Event,
    event.callback (recording operations) = (event.callback operations).map (noting event)
  | .content _ _ => by simp only [Event.callback, recording, Option.map_map]; rfl
  | .primary _ => by simp only [Event.callback, recording, Option.map_map]; rfl
  | .companion _ => by simp only [Event.callback, recording, Option.map_map]; rfl
  | .release _ => by simp only [Event.callback, recording, Option.map_map]; rfl
  | .allocation => rfl
  | .deletedPair => rfl
  | .barrier => rfl

theorem callback_isSome {transaction : Transaction ω} (h : transaction.validateTransaction = .ok ()) (event : Event) :
    (event.callback transaction.operations).isSome = true := by
  unfold validateTransaction at h
  split at h
  · cases h
  · rename_i hpresent
    simp only [not_or, Bool.not_eq_true, Option.isNone_eq_false_iff] at hpresent
    obtain ⟨hcontent, hallocation, hprimary, hcompanion, hdeleted, hrelease, hbarrier⟩ := hpresent
    cases event with
    | content content length => rwa [Event.callback, Option.isSome_map]
    | allocation => exact hallocation
    | primary disk => rwa [Event.callback, Option.isSome_map]
    | companion disk => rwa [Event.callback, Option.isSome_map]
    | deletedPair => exact hdeleted
    | release firstCluster => rwa [Event.callback, Option.isSome_map]
    | barrier => exact hbarrier

theorem perform_run {transaction : Transaction (ω × Trace)} (h : Recorded transaction) (event : Event) :
    ∃ outcome context, perform event transaction =
      (outcome, { transaction with context := (context, transaction.context.2 ++ [(event, outcome)]) }) := by
  obtain ⟨operations, hop⟩ := h.operations
  have hsome := callback_isSome h.valid event
  rw [hop, callback_recording, Option.isSome_map] at hsome
  obtain ⟨operation, hoperation⟩ := Option.isSome_iff_exists.mp hsome
  refine ⟨(operation transaction.context.1).1, (operation transaction.context.1).2, ?_⟩
  unfold perform call
  rw [bind_ok (show get transaction = (.ok transaction, transaction) from rfl)]
  rw [show event.callback transaction.operations = some (noting event operation) by rw [hop, callback_recording, hoperation]; rfl]
  rfl

theorem Recorded.keep {transaction : Transaction (ω × Trace)} (h : Recorded transaction) (context : ω × Trace) :
    Recorded { transaction with context } := ⟨h.operations, h.valid⟩

theorem perform_order : ∀ (order : List Event) {transaction : Transaction (ω × Trace)}, Recorded transaction →
    ∃ outcome context calls, each perform order transaction =
      (outcome, { transaction with context := (context, transaction.context.2 ++ calls) }) ∧ Follows order outcome calls
  | [], transaction, _ => ⟨.ok (), transaction.context.1, [], by rw [List.append_nil]; rfl, .done⟩
  | event :: order, transaction, h => by
    obtain ⟨outcome, context, hrun⟩ := perform_run h event
    rw [each]
    cases outcome with
    | error status => exact ⟨_, _, _, bind_error hrun, .failed⟩
    | ok =>
      obtain ⟨outcome, context', calls, hrest, hfollows⟩ := perform_order order
        (h.keep (context, transaction.context.2 ++ [(event, .ok ())]))
      refine ⟨outcome, context', (event, .ok ()) :: calls, ?_, .passed hfollows⟩
      rw [bind_ok hrun, hrest]
      dsimp only
      rw [List.append_assoc]
      rfl

theorem refreshRegistry_run (primary : Slot) (transaction : Transaction ω) :
    ∃ registry, refreshRegistryAfterCommit primary transaction = (.ok (), { transaction with registry }) := by
  unfold refreshRegistryAfterCommit
  rw [bind_ok (show get transaction = (.ok transaction, transaction) from rfl)]
  rcases hregistry : transaction.registry with _ | registry
  · exact ⟨transaction.registry, rfl⟩
  · rcases companionEncode (primary.slice 0 11) true with status | companion
    · exact ⟨transaction.registry, rfl⟩
    · exact ⟨_, rfl⟩

theorem perform_refresh {order : List Event} {primary : Slot} {transaction : Transaction (ω × Trace)} (h : Recorded transaction) :
    ∃ calls, ((each perform order >>= fun _ => refreshRegistryAfterCommit primary) transaction).2.context.2 =
        transaction.context.2 ++ calls ∧
      Follows order ((each perform order >>= fun _ => refreshRegistryAfterCommit primary) transaction).1 calls := by
  obtain ⟨outcome, context, calls, hrun, hfollows⟩ := perform_order order h
  cases outcome with
  | error status =>
    rw [bind_error hrun]
    exact ⟨calls, rfl, hfollows⟩
  | ok =>
    rw [bind_ok hrun]
    obtain ⟨registry, hrefresh⟩ := refreshRegistry_run primary
      { transaction with context := (context, transaction.context.2 ++ calls) }
    rw [hrefresh]
    exact ⟨calls, rfl, hfollows⟩

def saveOrder (primary : Primary) (disk : Slot) (content : Option Text) (length : Nat) : List Event :=
  [.companion (companionRecord false primary.name), .barrier, .content content length, .barrier, .allocation, .barrier,
    .primary disk, .companion (companionRecord true primary.name), .barrier]

def renameOrder (current renamed : Name) (disk : Slot) : List Event :=
  [.companion (companionRecord false current), .barrier, .primary disk, .companion (companionRecord true renamed), .barrier]

def deleteOrder (primary : Primary) : List Event :=
  [.companion (companionRecord false primary.name), .barrier, .deletedPair, .barrier] ++
    (if primary.firstCluster ≠ 0 then [.release primary.firstCluster] else []) ++ [.barrier]

def Obeys (order : List Event → Prop) (run : Except IosError Unit × Transaction (ω × Trace)) : Prop :=
  (run.2.context.2 = [] ∧ ∃ status, run.1 = .error status) ∨ ∃ events, order events ∧ Follows events run.1 run.2.context.2

theorem persistCompanion_eq {name : Name} (h : validStoredName name = true) (committed : Bool) :
    (persistCompanion name committed : Transacting ω Unit) = perform (.companion (companionRecord committed name)) := by
  unfold persistCompanion
  rw [companionEncode_eq h, ofExcept_ok_bind]
  rfl

theorem each_perform_cons {order : List Event} {rest : Transacting ω Unit} :
    (each perform (event :: order) >>= fun _ => rest) = perform event >>= fun _ => each perform order >>= fun _ => rest :=
  Program.bind_assoc _ _ _

theorem each_perform_last : (each perform [event] : Transacting ω Unit) = perform event := by
  funext transaction
  rw [each]
  rcases hrun : perform event transaction with ⟨status | ⟨⟩, after⟩
  · rw [bind_error hrun]
  · rw [bind_ok hrun]
    rfl

theorem primaryEncode_name {primary : Primary} (h : primaryEncode primary = .ok disk) : validStoredName primary.name = true := by
  unfold primaryEncode at h
  split at h
  · exact (Primary.admissible_iff.mp ‹_›).1
  · cases h

theorem primaryDecode_fields {primary : Primary} (h : primaryDecode disk = .ok primary) :
    primary.name = disk.slice 0 11 ∧ validStoredName primary.name = true := by
  unfold primaryDecode at h
  split at h
  · cases h
  split at h
  · cases h
  · rename_i hadmissible
    obtain rfl := Except.ok.inj h
    simp only [not_or, Bool.not_eq_true', Bool.not_eq_false] at hadmissible
    exact ⟨rfl, (Primary.admissible_iff.mp hadmissible.2.2).1⟩

section Orders
variable (transaction : Transaction ω)

theorem recorded_of_valid (h : transaction.recorded.validateTransaction = .ok ()) : Recorded transaction.recorded :=
  ⟨⟨transaction.operations, rfl⟩, h⟩

variable {transaction} {orders : List Event → Prop}

theorem obeys_ofExcept {α : Type} {r : Except IosError α} {f : α → Transacting (ω × Trace) Unit}
    (h : ∀ a, r = .ok a → Obeys orders (f a transaction.recorded)) : Obeys orders ((ofExcept r >>= f) transaction.recorded) := by
  cases r with
  | error status => exact Or.inl ⟨rfl, status, rfl⟩
  | ok a => exact h a rfl

theorem obeys_refresh {events : List Event} (disk : Slot) {run : Except IosError Unit × Transaction (ω × Trace)}
    (hvalid : transaction.recorded.validateTransaction = .ok ()) (h : orders events)
    (hrun : (each perform events >>= fun _ => refreshRegistryAfterCommit disk) transaction.recorded = run) : Obeys orders run := by
  obtain ⟨calls, hcalls, hfollows⟩ := @perform_refresh _ events disk _ (recorded_of_valid transaction hvalid)
  rw [show transaction.recorded.context.2 = [] from rfl, List.nil_append] at hcalls
  rw [← hcalls, hrun] at hfollows
  exact Or.inr ⟨events, h, hfollows⟩

variable (transaction)

theorem transactionSave_obeys (primary : Option Primary) (content : Option Text) (contentLength : Nat) :
    Obeys (fun events => ∃ p disk, primary = some p ∧ primaryEncode p = .ok disk ∧ events = saveOrder p disk content contentLength)
      (transactionSave primary content contentLength transaction.recorded) := by
  unfold transactionSave
  rw [bind_ok (show get transaction.recorded = (.ok _, _) from rfl)]
  refine obeys_ofExcept fun _ hvalid => ?_
  cases primary with
  | none => exact Or.inl ⟨rfl, _, rfl⟩
  | some p =>
    dsimp only
    by_cases harguments : (content.isNone ∧ contentLength ≠ 0) ∨ contentLength ≠ p.fileSize
    · rw [failIf_bind harguments]
      exact Or.inl ⟨rfl, _, rfl⟩
    rw [failIf_pass harguments]
    refine obeys_ofExcept fun disk hdisk => ?_
    have hname := primaryEncode_name hdisk
    rw [persistCompanion_eq hname, persistCompanion_eq hname]
    refine obeys_refresh disk hvalid ⟨p, disk, rfl, hdisk, rfl⟩ ?_
    simp only [saveOrder, each_perform_cons]
    rfl

theorem transactionRename_obeys (currentCompanion currentPrimary : Option Slot) (newName : Option Name) (destinationExists : Bool) :
    Obeys (fun events => ∃ companion disk p name renamed, currentCompanion = some companion ∧ currentPrimary = some disk ∧
        newName = some name ∧ destinationExists = false ∧ recordPairValidate companion disk = .ok () ∧ primaryDecode disk = .ok p ∧
        primaryEncode { p with name } = .ok renamed ∧ events = renameOrder p.name name renamed)
      (transactionRename currentCompanion currentPrimary newName destinationExists transaction.recorded) := by
  unfold transactionRename
  rw [bind_ok (show get transaction.recorded = (.ok _, _) from rfl)]
  refine obeys_ofExcept fun _ hvalid => ?_
  rcases currentCompanion with _ | companion
  · exact Or.inl ⟨rfl, _, rfl⟩
  rcases currentPrimary with _ | disk
  · exact Or.inl ⟨rfl, _, rfl⟩
  rcases newName with _ | name
  · exact Or.inl ⟨rfl, _, rfl⟩
  dsimp only
  by_cases hexists : destinationExists = true
  · rw [failIf_bind hexists]
    exact Or.inl ⟨rfl, _, rfl⟩
  rw [failIf_pass hexists]
  refine obeys_ofExcept fun _ hpair => obeys_ofExcept fun p hdecode => ?_
  refine obeys_ofExcept fun renamed hdisk => ?_
  obtain ⟨hcurrent, hvalidCurrent⟩ := primaryDecode_fields hdecode
  have hname : validStoredName name = true := primaryEncode_name hdisk
  rw [← hcurrent, persistCompanion_eq hvalidCurrent, persistCompanion_eq hname]
  refine obeys_refresh renamed hvalid
    ⟨companion, disk, p, name, renamed, rfl, rfl, rfl, by simpa using hexists, hpair, hdecode, hdisk, rfl⟩ ?_
  simp only [renameOrder, each_perform_cons]
  rfl

theorem transactionDelete_obeys (currentCompanion currentPrimary : Option Slot) :
    Obeys (fun events => ∃ companion disk p, currentCompanion = some companion ∧ currentPrimary = some disk ∧
        recordPairValidate companion disk = .ok () ∧ primaryDecode disk = .ok p ∧ events = deleteOrder p)
      (transactionDelete currentCompanion currentPrimary transaction.recorded) := by
  unfold transactionDelete
  rw [bind_ok (show get transaction.recorded = (.ok _, _) from rfl)]
  refine obeys_ofExcept fun _ hvalid => ?_
  rcases currentCompanion with _ | companion
  · exact Or.inl ⟨rfl, _, rfl⟩
  rcases currentPrimary with _ | disk
  · dsimp only
    rcases companionDecode companion with status | decoded
    · exact Or.inl ⟨rfl, status, rfl⟩
    · exact Or.inl ⟨rfl, _, rfl⟩
  dsimp only
  refine obeys_ofExcept fun _ hpair => obeys_ofExcept fun p hdecode => ?_
  rw [persistCompanion_eq (primaryDecode_fields hdecode).2]
  obtain ⟨outcome, context, calls, hrun, hfollows⟩ := perform_order (deleteOrder p) (recorded_of_valid transaction hvalid)
  refine Or.inr ⟨_, ⟨companion, disk, p, rfl, rfl, hpair, hdecode, rfl⟩, ?_⟩
  have hprogram : (each perform (deleteOrder p) : Transacting (ω × Trace) Unit) = (do
      perform (.companion (companionRecord false p.name))
      barrier
      call TransactionOperations.persistDeletedPair
      barrier
      if p.firstCluster ≠ 0 then
        call fun operations => operations.releaseAllocation.map fun release => release p.firstCluster
      else pure ()
      barrier) := by
    unfold deleteOrder
    by_cases hrelease : p.firstCluster ≠ 0
    · rw [if_pos hrelease, if_pos hrelease]
      simp only [List.cons_append, List.nil_append]
      rw [each, each, each, each, each, each_perform_last]
      rfl
    · rw [if_neg hrelease, if_neg hrelease, List.append_nil]
      simp only [List.cons_append, List.nil_append]
      rw [each, each, each, each, each_perform_last]
      rfl
  rw [← hprogram, hrun]
  exact hfollows

end Orders

def Committed (disk : Slot) : Prop := ∃ companion, companionDecode disk = .ok companion ∧ companion.committed = true

theorem committed_record {name : Name} {committed : Bool} (h : Committed (companionRecord committed name)) : committed = true := by
  obtain ⟨companion, hdecode, hcommitted⟩ := h
  rw [companionDecode_record] at hdecode
  rw [← hcommitted, ← Except.ok.inj hdecode]
  rfl

/-- The fence of a trace: the events of `first` succeed before a committed companion is persisted, an allocation is released
    behind the deleted pair and its barrier, and what fails is called last. -/
structure Fenced (first : List Event → Prop) (calls : Trace) (result : Except IosError Unit) : Prop where
  commits : ∀ i disk outcome, calls[i]? = some (.companion disk, outcome) → Committed disk →
    ∃ events, first events ∧ (succeeded events).Sublist (calls.take i)
  releases : ∀ i firstCluster outcome, calls[i]? = some (.release firstCluster, outcome) →
    (succeeded [.deletedPair, .barrier]).Sublist (calls.take i)
  stops : ∀ i event status, calls[i]? = some (event, .error status) → i + 1 = calls.length ∧ result = .error status

/-- The content and the table are safe before the record. -/
def SavedFirst (events : List Event) : Prop :=
  ∃ content length disk, events = [.content content length, .barrier, .allocation, .barrier, .primary disk]

/-- The uncommitted companion is safe before the record. -/
def RenamedFirst (events : List Event) : Prop :=
  ∃ uncommitted disk, ¬Committed uncommitted ∧ events = [.companion uncommitted, .barrier, .primary disk]

section Fence
variable {first : List Event → Prop} {result : Except IosError Unit} {calls : Trace} {order : List Event}

theorem fenced_nil : Fenced first [] result :=
  ⟨fun _ _ _ h => (nomatch h), fun _ _ _ h => (nomatch h), fun _ _ _ h => (nomatch h)⟩

theorem Follows.fenced (h : Follows order result calls)
    (hcommits : ∀ i disk, order[i]? = some (.companion disk) → Committed disk → ∃ events, first events ∧ events.Sublist (order.take i))
    (hreleases : ∀ i firstCluster, order[i]? = some (.release firstCluster) → [.deletedPair, .barrier].Sublist (order.take i)) :
    Fenced first calls result where
  commits i disk outcome hi hc := by
    obtain ⟨hevent, htake⟩ := h.before hi
    obtain ⟨events, hfirst, hsub⟩ := hcommits i disk hevent hc
    exact ⟨events, hfirst, by rw [htake]; exact hsub.map _⟩
  releases i firstCluster outcome hi := by
    obtain ⟨hevent, htake⟩ := h.before hi
    rw [htake]
    exact (hreleases i firstCluster hevent).map _
  stops i event status hi := h.error hi

theorem saveOrder_fenced {p : Primary} {content : Option Text} {length : Nat}
    (h : Follows (saveOrder p disk content length) result calls) : Fenced SavedFirst calls result := by
  refine h.fenced (fun i companion hi hc => ?_) fun i cluster hi => ?_
  · match i, hi with
    | 0, hi =>
      cases hi
      exact absurd (committed_record hc) Bool.false_ne_true
    | 7, _ =>
      exact ⟨_, ⟨content, length, disk, rfl⟩, .cons _ (.cons _ (List.Sublist.refl _))⟩
    | 8, hi => cases hi
    | n + 9, hi => cases hi
  · match i, hi with
    | n + 9, hi => cases hi

theorem renameOrder_fenced {current renamed : Name} (h : Follows (renameOrder current renamed disk) result calls) :
    Fenced RenamedFirst calls result := by
  refine h.fenced (fun i companion hi hc => ?_) fun i cluster hi => ?_
  · match i, hi with
    | 0, hi =>
      cases hi
      exact absurd (committed_record hc) Bool.false_ne_true
    | 3, _ =>
      exact ⟨_, ⟨_, disk, fun hc => absurd (committed_record hc) Bool.false_ne_true, rfl⟩, List.Sublist.refl _⟩
    | 4, hi => cases hi
    | n + 5, hi => cases hi
  · match i, hi with
    | n + 5, hi => cases hi

theorem deleteOrder_fenced {p : Primary} (h : Follows (deleteOrder p) result calls) : Fenced (fun _ => False) calls result := by
  have hfirst : ∀ {rest : List Event} {i : Nat} {disk : Slot}, (∀ disk, .companion disk ∉ rest) →
      (.companion (companionRecord false p.name) :: rest)[i]? = some (.companion disk) → ¬Committed disk := by
    intro rest i disk hrest hi hc
    cases i with
    | zero =>
      cases hi
      exact absurd (committed_record hc) Bool.false_ne_true
    | succ i => exact hrest disk (List.mem_of_getElem? hi)
  unfold deleteOrder at h
  by_cases hrelease : p.firstCluster ≠ 0
  · rw [if_pos hrelease] at h
    refine h.fenced (fun i disk hi hc => absurd hc (hfirst (by simp) hi)) fun i cluster hi => ?_
    match i, hi with
    | 4, _ => exact .cons _ (.cons _ (List.Sublist.refl _))
    | 5, hi => cases hi
    | n + 6, hi => cases hi
  · rw [if_neg hrelease] at h
    refine h.fenced (fun i disk hi hc => absurd hc (hfirst (by simp) hi)) fun i cluster hi => ?_
    match i, hi with
    | 4, hi => cases hi
    | n + 5, hi => cases hi

theorem Obeys.fenced {orders : List Event → Prop} {run : Except IosError Unit × Transaction (ω × Trace)} (h : Obeys orders run)
    (hfenced : ∀ events, orders events → Follows events run.1 run.2.context.2 → Fenced first run.2.context.2 run.1) :
    Fenced first run.2.context.2 run.1 := by
  rcases h with ⟨hnone, -⟩ | ⟨events, horder, hfollows⟩
  · rw [hnone]
    exact fenced_nil
  · exact hfenced events horder hfollows

theorem Obeys.ok_iff {orders : List Event → Prop} {run : Except IosError Unit × Transaction (ω × Trace)} (h : Obeys orders run)
    (hunique : ∀ events other, orders events → orders other → events = other) (hne : ¬orders []) :
    run.1 = .ok () ↔ ∃ events, orders events ∧ run.2.context.2 = succeeded events := by
  rcases h with ⟨hnone, status, hstatus⟩ | ⟨events, horder, hfollows⟩
  · rw [hstatus, hnone]
    refine ⟨fun h => (nomatch h), ?_⟩
    rintro ⟨events, horder, hevents⟩
    rw [List.map_eq_nil_iff.mp hevents.symm] at horder
    exact absurd horder hne
  · rw [hfollows.ok_iff]
    refine ⟨fun h => ⟨events, horder, h⟩, ?_⟩
    rintro ⟨other, hother, hcalls⟩
    rw [hcalls, hunique events other horder hother]

end Fence

structure SameCalls (one other : Transaction ω) : Prop where
  context : one.context = other.context
  operations : one.operations = other.operations
  writable : one.writable = other.writable

section Registries

theorem SameCalls.validate {one other : Transaction ω} (h : SameCalls one other) :
    one.validateTransaction = other.validateTransaction := by
  unfold validateTransaction
  rw [h.operations, h.writable]

theorem call_matches (callback : TransactionOperations ω → Option (Program IosError ω Unit)) :
    Matches SameCalls (call callback) (call callback) := by
  refine matches_get_bind fun one other h => ?_
  rw [h.operations]
  cases callback other.operations with
  | none => exact ⟨rfl, h⟩
  | some operation =>
    refine ⟨?_, ⟨?_, h.operations, h.writable⟩⟩
    · show (operation one.context).1 = (operation other.context).1
      rw [h.context]
    · show (operation one.context).2 = (operation other.context).2
      rw [h.context]

theorem persistCompanion_matches (name : Name) (committed : Bool) :
    Matches (SameCalls (ω := ω)) (persistCompanion name committed) (persistCompanion name committed) :=
  matches_ofExcept.bind fun _ => call_matches _

theorem refreshRegistry_matches (primary : Slot) :
    Matches (SameCalls (ω := ω)) (refreshRegistryAfterCommit primary) (refreshRegistryAfterCommit primary) := by
  intro one other h
  obtain ⟨registry, hone⟩ := refreshRegistry_run primary one
  obtain ⟨registry', hother⟩ := refreshRegistry_run primary other
  rw [hone, hother]
  exact ⟨rfl, h.context, h.operations, h.writable⟩

theorem matches_validated {m : Program IosError (Transaction ω) Unit} (h : Matches (SameCalls (ω := ω)) m m) :
    Matches (SameCalls (ω := ω)) (get >>= fun transaction => ofExcept transaction.validateTransaction >>= fun _ => m)
      (get >>= fun transaction => ofExcept transaction.validateTransaction >>= fun _ => m) := by
  refine matches_get_bind fun one other hsame => ?_
  rw [hsame.validate]
  exact (matches_ofExcept.bind fun _ => h : Matches SameCalls _ _) one other hsame

theorem transactionSave_matches (primary : Option Primary) (content : Option Text) (contentLength : Nat) :
    Matches (SameCalls (ω := ω)) (transactionSave primary content contentLength) (transactionSave primary content contentLength) := by
  refine matches_validated ?_
  cases primary with
  | none => exact matches_fail
  | some p =>
    refine matches_failIf.bind fun _ => matches_ofExcept.bind fun disk => ?_
    refine (persistCompanion_matches p.name false).bind fun _ => (call_matches _).bind fun _ => ?_
    refine (call_matches _).bind fun _ => (call_matches _).bind fun _ => ?_
    refine (call_matches _).bind fun _ => (call_matches _).bind fun _ => ?_
    exact (call_matches _).bind fun _ => (persistCompanion_matches p.name true).bind fun _ => (call_matches _).bind fun _ =>
      refreshRegistry_matches disk

theorem transactionRename_matches (currentCompanion currentPrimary : Option Slot) (newName : Option Name) (destinationExists : Bool) :
    Matches (SameCalls (ω := ω)) (transactionRename currentCompanion currentPrimary newName destinationExists)
      (transactionRename currentCompanion currentPrimary newName destinationExists) := by
  refine matches_validated ?_
  rcases currentCompanion with _ | companion
  · exact matches_fail
  rcases currentPrimary with _ | primary
  · exact matches_fail
  rcases newName with _ | name
  · exact matches_fail
  refine matches_failIf.bind fun _ => matches_ofExcept.bind fun _ => matches_ofExcept.bind fun p => matches_ofExcept.bind fun disk => ?_
  refine (persistCompanion_matches _ false).bind fun _ => (call_matches _).bind fun _ => (call_matches _).bind fun _ => ?_
  exact (persistCompanion_matches _ true).bind fun _ => (call_matches _).bind fun _ => refreshRegistry_matches disk

theorem transactionDelete_matches (currentCompanion currentPrimary : Option Slot) :
    Matches (SameCalls (ω := ω)) (transactionDelete currentCompanion currentPrimary)
      (transactionDelete currentCompanion currentPrimary) := by
  refine matches_validated ?_
  rcases currentCompanion with _ | companion
  · exact matches_fail
  rcases currentPrimary with _ | primary
  · exact matches_ofExcept.bind fun _ => matches_fail
  refine matches_ofExcept.bind fun _ => matches_ofExcept.bind fun p => (persistCompanion_matches p.name false).bind fun _ => ?_
  refine (call_matches _).bind fun _ => (call_matches _).bind fun _ => (call_matches _).bind fun _ => ?_
  exact matches_ite ((call_matches _).bind fun _ => call_matches _) (call_matches _)

end Registries

/-- The fence of transactions. A save commits only behind its content, its allocation and its primary, a rename behind its
    renamed primary, and a deletion never; it releases an allocation behind the deleted pair. The first callback that fails is
    the last one made, an operation succeeds when all callbacks of its order did, and the registry changes none of this. -/
theorem transaction_fence (transaction : Transaction ω) :
    (∀ (primary : Option Primary) (content : Option Text) (contentLength : Nat),
      let run := transactionSave primary content contentLength transaction.recorded
      Fenced SavedFirst run.2.context.2 run.1 ∧
        (run.1 = .ok () ↔ ∃ p disk, primary = some p ∧ primaryEncode p = .ok disk ∧
          run.2.context.2 = succeeded (saveOrder p disk content contentLength)) ∧
        ∀ registry cluster slot,
          let other := transactionSave primary content contentLength (transactionAttachRegistry registry cluster slot transaction.recorded).2
          other.1 = run.1 ∧ other.2.context = run.2.context) ∧
    (∀ (currentCompanion currentPrimary : Option Slot) (newName : Option Name) (destinationExists : Bool),
      let run := transactionRename currentCompanion currentPrimary newName destinationExists transaction.recorded
      Fenced RenamedFirst run.2.context.2 run.1 ∧
        (run.1 = .ok () ↔ ∃ disk p name renamed, currentPrimary = some disk ∧ newName = some name ∧ primaryDecode disk = .ok p ∧
          primaryEncode { p with name } = .ok renamed ∧ run.2.context.2 = succeeded (renameOrder p.name name renamed)) ∧
        ∀ registry cluster slot,
          let other := transactionRename currentCompanion currentPrimary newName destinationExists (transactionAttachRegistry registry cluster slot transaction.recorded).2
          other.1 = run.1 ∧ other.2.context = run.2.context) ∧
    (∀ (currentCompanion currentPrimary : Option Slot),
      let run := transactionDelete currentCompanion currentPrimary transaction.recorded
      Fenced (fun _ => False) run.2.context.2 run.1 ∧
        (run.1 = .ok () ↔ ∃ disk p, currentPrimary = some disk ∧ primaryDecode disk = .ok p ∧
          run.2.context.2 = succeeded (deleteOrder p)) ∧
        ∀ registry cluster slot,
          let other := transactionDelete currentCompanion currentPrimary (transactionAttachRegistry registry cluster slot transaction.recorded).2
          other.1 = run.1 ∧ other.2.context = run.2.context) := by
  have hattached (registry : Registry) (cluster : UInt32) (slot : UInt16) :
      SameCalls (transactionAttachRegistry registry cluster slot transaction.recorded).2 transaction.recorded := ⟨rfl, rfl, rfl⟩
  refine ⟨fun primary content contentLength => ?_, fun currentCompanion currentPrimary newName destinationExists => ?_,
    fun currentCompanion currentPrimary => ?_⟩
  · have h := transactionSave_obeys transaction primary content contentLength
    refine ⟨h.fenced ?_, ?_, fun registry cluster slot => ?_⟩
    · rintro events ⟨p, disk, -, -, rfl⟩ hfollows
      exact saveOrder_fenced hfollows
    · rw [h.ok_iff]
      · constructor
        · rintro ⟨events, ⟨p, disk, hp, hdisk, rfl⟩, hcalls⟩
          exact ⟨p, disk, hp, hdisk, hcalls⟩
        · rintro ⟨p, disk, hp, hdisk, hcalls⟩
          exact ⟨_, ⟨p, disk, hp, hdisk, rfl⟩, hcalls⟩
      · rintro events other ⟨p, disk, hp, hdisk, rfl⟩ ⟨p', disk', hp', hdisk', rfl⟩
        obtain rfl := Option.some.inj (hp.symm.trans hp')
        obtain rfl := Except.ok.inj (hdisk.symm.trans hdisk')
        rfl
      · rintro ⟨p, disk, -, -, h⟩
        cases h
    · obtain ⟨hresult, hsame⟩ := transactionSave_matches primary content contentLength _ _ (hattached registry cluster slot)
      exact ⟨hresult, hsame.context⟩
  · have h := transactionRename_obeys transaction currentCompanion currentPrimary newName destinationExists
    refine ⟨h.fenced ?_, ?_, fun registry cluster slot => ?_⟩
    · rintro events ⟨companion, disk, p, name, renamed, -, -, -, -, -, -, -, rfl⟩ hfollows
      exact renameOrder_fenced hfollows
    · constructor
      · intro hok
        rcases h with ⟨-, status, hstatus⟩ | ⟨events, ⟨companion, disk, p, name, renamed, -, hd, hn, -, -, hp, hr, rfl⟩, hfollows⟩
        · rw [hok] at hstatus
          cases hstatus
        · exact ⟨disk, p, name, renamed, hd, hn, hp, hr, hfollows.ok_iff.mp hok⟩
      · rintro ⟨disk, p, name, renamed, hd, hn, hp, hr, hcalls⟩
        rcases h with ⟨hnone, -⟩ | ⟨events, ⟨companion, disk', p', name', renamed', -, hd', hn', -, -, hp', hr', rfl⟩, hfollows⟩
        · rw [hnone] at hcalls
          cases hcalls
        · obtain rfl := Option.some.inj (hd.symm.trans hd')
          obtain rfl := Option.some.inj (hn.symm.trans hn')
          obtain rfl := Except.ok.inj (hp.symm.trans hp')
          obtain rfl := Except.ok.inj (hr.symm.trans hr')
          exact hfollows.ok_iff.mpr hcalls
    · obtain ⟨hresult, hsame⟩ := transactionRename_matches currentCompanion currentPrimary newName destinationExists _ _
        (hattached registry cluster slot)
      exact ⟨hresult, hsame.context⟩
  · have h := transactionDelete_obeys transaction currentCompanion currentPrimary
    refine ⟨h.fenced ?_, ?_, fun registry cluster slot => ?_⟩
    · rintro events ⟨companion, disk, p, -, -, -, -, rfl⟩ hfollows
      exact deleteOrder_fenced hfollows
    · constructor
      · intro hok
        rcases h with ⟨-, status, hstatus⟩ | ⟨events, ⟨companion, disk, p, -, hd, -, hp, rfl⟩, hfollows⟩
        · rw [hok] at hstatus
          cases hstatus
        · exact ⟨disk, p, hd, hp, hfollows.ok_iff.mp hok⟩
      · rintro ⟨disk, p, hd, hp, hcalls⟩
        rcases h with ⟨hnone, -⟩ | ⟨events, ⟨companion, disk', p', -, hd', -, hp', rfl⟩, hfollows⟩
        · rw [hnone] at hcalls
          cases hcalls
        · obtain rfl := Option.some.inj (hd.symm.trans hd')
          obtain rfl := Except.ok.inj (hp.symm.trans hp')
          exact hfollows.ok_iff.mpr hcalls
    · obtain ⟨hresult, hsame⟩ := transactionDelete_matches currentCompanion currentPrimary _ _ (hattached registry cluster slot)
      exact ⟨hresult, hsame.context⟩

def idleOperations : TransactionOperations Unit :=
  { persistContent := some fun _ _ => pure ()
    persistAllocation := some (pure ())
    persistPrimary := some fun _ => pure ()
    persistCompanion := some fun _ => pure ()
    persistDeletedPair := some (pure ())
    releaseAllocation := some fun _ => pure ()
    barrier := some (pure ()) }

def idleTransaction : Transaction Unit := ⟨(), idleOperations, none, 0, 0, true⟩

def emptyFile (letter : Char) : Primary := ⟨padName [ascii letter] [ascii 'T'], attributeRegular, 0, 0⟩

def renameRun : Except IosError Unit × Transaction (Unit × Trace) :=
  transactionRename (some (companionRecord true (emptyFile 'A').name)) (some (primaryBytes (emptyFile 'A')))
    (some (emptyFile 'B').name) false idleTransaction.recorded

theorem renameRun_calls : renameRun.2.context.2 = succeeded (renameOrder (emptyFile 'A').name (emptyFile 'B').name
    (primaryBytes (emptyFile 'B'))) := by
  have ha : (emptyFile 'A').admissible = true := by decide
  have hb : (emptyFile 'B').admissible = true := by decide
  have hdecode := primaryDecode_bytes ha (by decide)
  have hok : renameRun.1 = .ok () := by
    obtain ⟨hname, hvalid⟩ := primaryDecode_fields hdecode
    unfold renameRun transactionRename
    rw [bind_ok (show get idleTransaction.recorded = (.ok _, _) from rfl),
      show idleTransaction.recorded.validateTransaction = .ok () from rfl, ofExcept_ok_bind]
    dsimp only
    rw [failIf_pass (by decide), recordPairValidate_committed ha (by decide) rfl, ofExcept_ok_bind, hdecode, ofExcept_ok_bind]
    show ((ofExcept (primaryEncode (emptyFile 'B')) >>= _ : Transacting (Unit × Trace) Unit) _).1 = _
    rw [primaryEncode_eq hb, ofExcept_ok_bind, ← hname, persistCompanion_eq hvalid,
      persistCompanion_eq (primaryEncode_name (primaryEncode_eq hb))]
    rfl
  have hobeys : Obeys _ renameRun := transactionRename_obeys idleTransaction _ _ _ _
  rcases hobeys with ⟨-, status, hstatus⟩ | ⟨events, ⟨companion, disk, p, name, renamed, -, hd, hn, -, -, hp, hr, rfl⟩, hfollows⟩
  · rw [hok] at hstatus
    cases hstatus
  · cases hd
    cases hn
    obtain rfl := Except.ok.inj (hdecode.symm.trans hp)
    obtain rfl := Except.ok.inj ((primaryEncode_eq hb).symm.trans hr)
    exact hfollows.ok_iff.mp hok

theorem renameOrder_not_savedFirst {current renamed : Name} {result : Except IosError Unit} :
    ¬Fenced SavedFirst (succeeded (renameOrder current renamed disk)) result := by
  intro h
  obtain ⟨events, ⟨content, length, written, rfl⟩, hsub⟩ := h.commits 3 (companionRecord true renamed) (.ok ()) rfl
    ⟨_, companionDecode_record, rfl⟩
  have hcontent := hsub.subset (a := (Event.content content length, .ok ())) List.mem_cons_self
  simp [succeeded, renameOrder] at hcontent

/-- A rename commits without a content or an allocation. -/
theorem rename_not_savedFirst : ¬∀ (transaction : Transaction Unit) (currentCompanion currentPrimary : Option Slot)
    (newName : Option Name) (destinationExists : Bool),
    let run := transactionRename currentCompanion currentPrimary newName destinationExists transaction.recorded
    Fenced SavedFirst run.2.context.2 run.1 := by
  intro h
  have hfenced := h idleTransaction (some (companionRecord true (emptyFile 'A').name)) (some (primaryBytes (emptyFile 'A')))
    (some (emptyFile 'B').name) false
  rw [← renameRun] at hfenced
  dsimp only at hfenced
  rw [renameRun_calls] at hfenced
  exact renameOrder_not_savedFirst hfenced

end Transaction
end InferenceOS
