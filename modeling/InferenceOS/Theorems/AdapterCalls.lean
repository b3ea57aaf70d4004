import InferenceOS.Shell.Adapter
import InferenceOS.Theorems.HandleRuns
import InferenceOS.Theorems.References

/-! What an adapter call leaves behind: the handles that were open before it, with the same references, whatever its outcome.
    The callback gets one handle with the rights of its registration, and the call takes it back. -/

namespace InferenceOS
open Program Function HandleTable

namespace HandleTables
variable {ι ω Obj : Type} {s u v : HandleTables ι ω Obj} {t t' : ι} {index : Fin handleTableCapacity} {handle source : Handle}
  {kind : IosObjectKind} {object : Option Obj} {rights : BitVec 64} {retain release : Option (Obj → ω → ω)}

def openEntry (s : HandleTables ι ω Obj) (t : ι) (handle : Handle) : Option (HandleEntry ω Obj) :=
  match (s.tables t).decodeHandle handle with
  | .ok index => some (s.entry t index)
  | .error _ => none

theorem openEntry_eq_some {e : HandleEntry ω Obj} :
    s.openEntry t handle = some e ↔ ∃ index, (s.tables t).decodeHandle handle = .ok index ∧ s.entry t index = e := by
  unfold openEntry
  constructor
  · intro h
    split at h
    · rename_i index hd
      exact ⟨index, hd, Option.some.inj h⟩
    · cases h
  · rintro ⟨index, hd, rfl⟩
    rw [hd]

theorem openEntry_of_tables (h : u.tables = s.tables) : u.openEntry t handle = s.openEntry t handle := by
  unfold openEntry entry
  rw [h]

theorem openEntry_of_empty {g : BitVec 64} (he : (s.entry t index).object = none) : s.openEntry t (encodeHandle index g) = none := by
  rw [Option.eq_none_iff_forall_ne_some]
  intro e h
  obtain ⟨j, hd, -⟩ := openEntry_eq_some.mp h
  obtain ⟨hcode, hopen⟩ := decodeHandle_eq_ok hd
  have hslot : index = j := slot_encode_eq.mp (congrArg (· &&& 0xffff) hcode)
  subst hslot
  have hopen' : (s.entry t index).object.isSome := hopen
  rw [he] at hopen'
  cases hopen'

theorem openEntry_of_entry (hd : (s.tables t).decodeHandle handle = .ok index) (he : u.entry t index = s.entry t index) :
    (u.tables t).decodeHandle handle = .ok index := by
  refine decodeHandle_of_entry hd ?_ ?_
  · show (u.entry t index).object.isSome
    rw [he]
    exact (decodeHandle_eq_ok hd).2
  · show (u.entry t index).generation = (s.entry t index).generation
    rw [he]

theorem resolve_openEntry {o : Obj} (h : (s.tables t).handleTableResolve handle kind rights = .ok o) :
    ∃ e, s.openEntry t handle = some e ∧ e.object = some o ∧ e.kind = kind ∧ e.rights &&& rights = rights := by
  unfold handleTableResolve at h
  split at h
  · cases h
  · obtain ⟨index, hi, h⟩ := of_bind_ok h
    obtain ⟨hkind, h⟩ := of_check h
    obtain ⟨hrights, h⟩ := of_check h
    refine ⟨s.entry t index, openEntry_eq_some.mpr ⟨index, hi, rfl⟩, ?_, not_not.mp hkind, not_not.mp hrights⟩
    split at h
    · rename_i ho
      exact ho.trans (congrArg some (Except.ok.inj h))
    · cases h

variable [DecidableEq ι]

theorem openEntry_fill (he : (s.entry t index).object = none) (ho : object.isSome)
    (hg : (s.entry t index).generation.toNat < 2 ^ 48) :
    (s.fill t index object kind rights retain release).openEntry t' handle =
      if t' = t ∧ handle = encodeHandle index (s.entry t index).generation then
        some ⟨object, rights, (s.entry t index).generation, kind, retain, release⟩
      else s.openEntry t' handle := by
  refine Option.ext fun e => ?_
  split
  · rename_i hnew
    obtain ⟨rfl, rfl⟩ := hnew
    rw [openEntry, decodeHandle_encode hg]
    have hentry : ((s.fill t' index object kind rights retain release).tables t').entries index =
        ⟨object, rights, (s.entry t' index).generation, kind, retain, release⟩ := by
      rw [← entry, fill_entry, if_pos ⟨rfl, rfl⟩]
    rw [hentry, if_neg (by simp [Option.isSome_iff_ne_none.mp ho])]
    dsimp only
    rw [fill_entry, if_pos ⟨rfl, rfl⟩]
  · rename_i hold
    rw [openEntry_eq_some, openEntry_eq_some]
    constructor
    · rintro ⟨j, hd, rfl⟩
      have hj : ¬(t' = t ∧ j = index) := by
        rintro ⟨rfl, rfl⟩
        have hcode := (decodeHandle_eq_ok hd).1
        rw [← entry, fill_entry, if_pos ⟨rfl, rfl⟩] at hcode
        exact hold ⟨rfl, hcode⟩
      have hsame : s.entry t' j = (s.fill t index object kind rights retain release).entry t' j := by rw [fill_entry, if_neg hj]
      exact ⟨j, openEntry_of_entry hd hsame, hsame⟩
    · rintro ⟨j, hd, rfl⟩
      have hj : ¬(t' = t ∧ j = index) := by
        rintro ⟨rfl, rfl⟩
        have hopen : (s.entry t' j).object.isSome := (decodeHandle_eq_ok hd).2
        rw [he] at hopen
        cases hopen
      have hsame : (s.fill t index object kind rights retain release).entry t' j = s.entry t' j := by rw [fill_entry, if_neg hj]
      exact ⟨j, openEntry_of_entry hd hsame, hsame⟩

theorem openEntry_vacate (hd : (s.tables t).decodeHandle source = .ok index) :
    (s.vacate t index).openEntry t' handle = if t' = t ∧ handle = source then none else s.openEntry t' handle := by
  obtain ⟨hsource, -⟩ := decodeHandle_eq_ok hd
  split
  · rename_i hclosed
    obtain ⟨rfl, rfl⟩ := hclosed
    rw [hsource]
    refine openEntry_of_empty ?_
    rw [vacate_entry, if_pos ⟨rfl, rfl⟩]
  · rename_i hother
    refine Option.ext fun e => ?_
    rw [openEntry_eq_some, openEntry_eq_some]
    constructor
    · rintro ⟨j, hj, rfl⟩
      have hne : ¬(t' = t ∧ j = index) := by
        rintro ⟨rfl, rfl⟩
        have hopen : ((s.vacate t' j).entry t' j).object.isSome := (decodeHandle_eq_ok hj).2
        rw [vacate_entry, if_pos ⟨rfl, rfl⟩] at hopen
        cases hopen
      have hsame : s.entry t' j = (s.vacate t index).entry t' j := by rw [vacate_entry, if_neg hne]
      exact ⟨j, openEntry_of_entry hj hsame, hsame⟩
    · rintro ⟨j, hj, rfl⟩
      have hne : ¬(t' = t ∧ j = index) := by
        rintro ⟨rfl, rfl⟩
        exact hother ⟨rfl, (decodeHandle_eq_ok hj).1.trans hsource.symm⟩
      have hsame : (s.vacate t index).entry t' j = s.entry t' j := by rw [vacate_entry, if_neg hne]
      exact ⟨j, openEntry_of_entry hj hsame, hsame⟩

/-- The owner tags and the generations fit into their fields of a handle. -/
structure Sized (s : HandleTables ι ω Obj) : Prop where
  tag : ∀ p, (s.tables p).ownerTag.toNat < 2 ^ 24
  generation : ∀ p i, (s.entry p i).generation.toNat < 2 ^ 48

/-- The tables of every run are sized. -/
theorem sized_of_run {identity : ι → BitVec 64} {entries : List (Issued ι Obj)} (hid : Owners identity)
    (h : HandleRun identity s entries) : s.Sized := by
  obtain ⟨closes, hk⟩ := kept_run hid h
  obtain ⟨htag, -⟩ := hid.tagOf
  exact ⟨fun p => hk.ownerTag p ▸ htag p, fun p i => hk.sized htag⟩

section Counting
variable [DecidableEq Obj]

/-- Two functions that count the references of an object up and down, below a limit, and nothing else. -/
structure CountsReferences (count : ω → Obj → Nat) (limit : Nat) (retain release : Obj → ω → ω) : Prop where
  retain : ∀ w o x, count w o < limit → count (retain o w) x = count w x + one o x
  release : ∀ w o x, 0 < count w o → count (release o w) x + one o x = count w x

/-- The object of the entry has no such functions, or they count its references, of which there is one and is room for one more. -/
inductive EntryCounts (count : ω → Obj → Nat) (limit : Nat) (w : ω) (e : HandleEntry ω Obj) : Prop where
  | static : e.retain = none → e.release = none → EntryCounts count limit w e
  | counted {o : Obj} {retain release : Obj → ω → ω} : e.object = some o → e.retain = some retain → e.release = some release →
    CountsReferences count limit retain release → 0 < count w o → count w o < limit → EntryCounts count limit w e

/-- The same handles are open, and every object has as many references. -/
structure LeftAsFound (count : ω → Obj → Nat) (s t : HandleTables ι ω Obj) : Prop where
  handles : ∀ p handle, t.openEntry p handle = s.openEntry p handle
  references : ∀ o, count t.world o = count s.world o

structure Lent (count : ω → Obj → Nat) (limit : Nat) (s t : HandleTables ι ω Obj) (process : ι) (handle : Handle)
    (held : HandleEntry ω Obj) (rights : BitVec 64) : Prop where
  fresh : s.openEntry process handle = none
  handles : ∃ generation, ∀ p k, t.openEntry p k =
    if p = process ∧ k = handle then some ⟨held.object, rights, generation, held.kind, held.retain, held.release⟩
    else s.openEntry p k
  references : held.release = none ∧ (∀ x, count t.world x = count s.world x) ∨
    ∃ o release, held.object = some o ∧ held.release = some release ∧ (∀ w x, 0 < count w o → count (release o w) x + one o x = count w x) ∧
      ∀ x, count t.world x = count s.world x + one o x

variable {count : ω → Obj → Nat} {limit : Nat} {held : HandleEntry ω Obj} {destination : ι} {reduced : BitVec 64}

omit [DecidableEq ι] [DecidableEq Obj] in
theorem LeftAsFound.refl : LeftAsFound count s s := ⟨fun _ _ => rfl, fun _ => rfl⟩

theorem one_self {o : Obj} : one o o = 1 := if_pos rfl

omit [DecidableEq ι] in
theorem EntryCounts.touch (h : EntryCounts count limit s.world (s.entry t index)) : LeftAsFound count s (s.touch t index) := by
  refine ⟨fun p k => openEntry_of_tables (by rw [HandleTables.touch, callOn_tables, callOn_tables]), fun x => ?_⟩
  unfold HandleTables.touch
  cases h with
  | static hretain hrelease => rw [hretain, hrelease]; rfl
  | @counted o retain release ho hretain hrelease hcounts hpos hlimit =>
    rw [ho, hretain, hrelease]
    have hup := hcounts.retain s.world o
    have hself := hup o hlimit
    rw [one_self] at hself
    have hdown := hcounts.release (retain o s.world) o x (by omega)
    have hx := hup x hlimit
    show count (release o (retain o s.world)) x = _
    omega

theorem transfer_lends (hsized : s.Sized) (hheld : s.openEntry t source = some held)
    (hcounts : EntryCounts count limit s.world held) :
    wp (handleTableTransfer t (some destination) source reduced false true)
      (fun handle u => Lent count limit s u destination handle held reduced) (fun _ u => LeftAsFound count s u) s := by
  obtain ⟨i, hi, rfl⟩ := openEntry_eq_some.mp hheld
  refine wp_mono transfer_spec ?_ ?_
  · rintro handle u ⟨j, t', free, hdest, hcopy, hinsert, rfl, hu⟩
    obtain rfl := Option.some.inj hdest
    have hj : i = j := Except.ok.inj (hi.symm.trans hcopy.decoded)
    subst hj
    rw [if_neg Bool.false_ne_true] at hu
    subst hu
    refine ⟨openEntry_of_empty hinsert.empty, ⟨(s.entry destination free).generation, fun p k => ?_⟩, ?_⟩
    · unfold HandleTables.copy
      rw [openEntry_fill (by rw [callOn_entry]; exact hinsert.empty) hinsert.object (by rw [callOn_entry]; exact hsized.generation destination free),
        callOn_entry]
      exact if_congr Iff.rfl rfl (openEntry_of_tables callOn_tables)
    · unfold HandleTables.copy
      rw [fill_world]
      cases hcounts with
      | static hretain hrelease =>
        refine .inl ⟨hrelease, fun x => ?_⟩
        rw [hretain]
        rfl
      | counted ho hretain hrelease hfunctions hpos hlimit =>
        refine .inr ⟨_, _, ho, hrelease, fun w x => hfunctions.release w _ x, fun x => ?_⟩
        rw [hretain, ho]
        exact hfunctions.retain _ _ x hlimit
  · rintro e u (rfl | ⟨j, hj, rfl⟩)
    · exact .refl
    · have hij : i = j := Except.ok.inj (hi.symm.trans hj)
      subst hij
      exact hcounts.touch

theorem close_lent (h : Lent count limit s u t handle held reduced) (hv : LeftAsFound count u v) :
    wp (handleTableClose t handle) (fun _ w => LeftAsFound count s w) (fun _ _ => False) v := by
  obtain ⟨hfresh, ⟨g, hhandles⟩, hreferences⟩ := h
  have hopen := (hv.handles t handle).trans ((hhandles t handle).trans (if_pos ⟨rfl, rfl⟩))
  obtain ⟨i, hi, hentry⟩ := openEntry_eq_some.mp hopen
  refine wp_mono close_spec ?_ ?_
  · rintro _ w ⟨j, hj, rfl⟩
    have hij : i = j := Except.ok.inj (hi.symm.trans hj)
    subst hij
    refine ⟨fun p k => ?_, fun x => ?_⟩
    · rw [openEntry_of_tables callOn_tables, openEntry_vacate hi, hv.handles, hhandles]
      split
      · rename_i hsame
        obtain ⟨rfl, rfl⟩ := hsame
        exact hfresh.symm
      · rfl
    · rw [hentry]
      have hworld := hv.references
      obtain ⟨hrelease, hsame⟩ | ⟨o, release, ho, hrelease, hdown, hup⟩ := hreferences
      · rw [hrelease]
        exact (hworld x).trans (hsame x)
      · rw [hrelease, ho]
        show count (release o v.world) x = count s.world x
        have hself := (hworld o).trans (hup o)
        rw [one_self] at hself
        have hx := (hworld x).trans (hup x)
        have hreleased := hdown v.world x (by omega)
        omega
  · rintro e w ⟨-, e', he⟩
    rw [hi] at he
    cases he

end Counting
end HandleTables

namespace AdapterProgram
open HandleTables

variable {ι σ ω Obj : Type} [DecidableEq ι] [DecidableEq σ] [DecidableEq Obj] {broker : AdapterBroker ι σ ω Obj} {service : σ}
  {caller : ι} {request : AdapterRequest} {tables : HandleTables ι ω Obj} {reply : AdapterReply} {count : ω → Obj → Nat} {limit : Nat}

/-- The callbacks leave handles and references as they found them. -/
def Courteous (count : ω → Obj → Nat) (invoke : AdapterFunction ι ω Obj) : Prop :=
  ∀ process handle operation input inputSize s, LeftAsFound count s (invoke process handle operation input inputSize s).2

/-- The callback of the registration was given a handle to the content of the caller, with the rights of the registration, which
    the caller had together with that to transfer. -/
structure GivenContent (broker : AdapterBroker ι σ ω Obj) (service : σ) (caller : ι) (request : AdapterRequest)
    (tables : HandleTables ι ω Obj) (r : AdapterRun ι ω Obj) : Prop where
  registered : resolveCapability broker service caller (tables.tables caller) request.adapterHandle = .ok r.registration
  process : r.registration.proprietaryProcess = some r.process
  given : ∃ o held lent, tables.openEntry caller request.contentHandle = some held ∧ r.found.openEntry r.process r.handle = some lent ∧
    held.object = some o ∧ lent.object = some o ∧ held.kind = .content ∧ lent.kind = .content ∧
    held.rights &&& (r.registration.requiredContentRights ||| rightTransfer) = r.registration.requiredContentRights ||| rightTransfer ∧
    lent.rights = r.registration.requiredContentRights

structure NothingLeft (count : ω → Obj → Nat) (broker : AdapterBroker ι σ ω Obj) (service : σ) (caller : ι) (request : AdapterRequest)
    (tables : HandleTables ι ω Obj) (t : AdapterCall ι ω Obj) : Prop where
  left : LeftAsFound count tables t.tables
  borrowed : ∀ r ∈ t.runs, GivenContent broker service caller request tables r

theorem invokeAdapter_spec (hsized : tables.Sized)
    (hcounts : ∀ held, tables.openEntry caller request.contentHandle = some held → EntryCounts count limit tables.world held)
    (hcallback : ∀ registration, resolveCapability broker service caller (tables.tables caller) request.adapterHandle = .ok registration →
      Courteous count registration.invoke) :
    wp (invokeAdapter broker service caller request)
      (fun _ t => NothingLeft count broker service caller request tables t)
      (fun _ t => NothingLeft count broker service caller request tables t ∧ t.reply.output = Bytes.zero) ⟨tables, reply, []⟩ := by
  have hstart (reply : AdapterReply) : NothingLeft count broker service caller request tables ⟨tables, reply, []⟩ :=
    ⟨.refl, fun r hr => nomatch hr⟩
  unfold invokeAdapter onReply onTables
  rw [wp_bind, wp_modify, wp_bind, wp_failIf]
  refine ⟨fun _ => ⟨hstart _, rfl⟩, fun _ => ?_⟩
  rw [wp_bind, wp_get, wp_bind, wp_ofExcept]
  refine ⟨fun registration hregistration => ?_, fun _ _ => ⟨hstart _, rfl⟩⟩
  have hcourteous := hcallback registration hregistration
  split
  · exact ⟨hstart _, rfl⟩
  · rename_i process hprocess
    rw [wp_bind, wp_failIf]
    refine ⟨fun _ => ⟨hstart _, rfl⟩, fun _ => ?_⟩
    rw [wp_bind, wp_failIf]
    refine ⟨fun _ => ⟨hstart _, rfl⟩, fun _ => ?_⟩
    rw [wp_bind, wp_ofExcept]
    refine ⟨fun content hcontent => ?_, fun _ _ => ⟨hstart _, rfl⟩⟩
    obtain ⟨held, hheld, hobject, hkind, hrights⟩ := resolve_openEntry hcontent
    rw [wp_bind, wp_zoom]
    refine wp_mono (transfer_lends hsized hheld (hcounts held hheld)) ?_ ?_
    · intro reducedHandle lentTables hlent
      obtain ⟨generation, hopen⟩ := hlent.handles
      have hgiven : GivenContent broker service caller request tables ⟨process, registration, reducedHandle, lentTables⟩ :=
        ⟨hregistration, hprocess, content, held, _, hheld, (hopen process reducedHandle).trans (if_pos ⟨rfl, rfl⟩), hobject, hobject,
          hkind, hkind, hrights, rfl⟩
      have hreturned := hcourteous process reducedHandle request.operation request.input request.inputSize lentTables
      unfold invokeCallback onReply
      simp only [wp_bind, wp_get, wp_modify, wp_pure, wp_attempt, wp_zoom]
      generalize registration.invoke process reducedHandle request.operation request.input request.inputSize lentTables = outcome at *
      refine wp_mono (close_lent hlent hreturned) ?_ fun _ _ hno => hno.elim
      intro _ closed hleft
      have hend (reply : AdapterReply) : NothingLeft count broker service caller request tables
          ⟨closed, reply, [] ++ [⟨process, registration, reducedHandle, lentTables⟩]⟩ :=
        ⟨hleft, fun r hr => List.mem_singleton.mp hr ▸ hgiven⟩
      split
      · exact ⟨hend _, rfl⟩
      · rw [wp_ite]
        exact ⟨fun _ => ⟨hend _, rfl⟩, fun _ => hend _⟩
    · intro e lentTables hleft
      exact ⟨⟨hleft, fun r hr => nomatch hr⟩, rfl⟩

/-- A call leaves the handles and the references as it found them, whatever its outcome; its callback is given a handle to the
    content of the caller with the rights that are registered and no others; and a call that fails gives no output. -/
theorem adapter_call_leaves_nothing (count : ω → Obj → Nat) (limit : Nat) (broker : AdapterBroker ι σ ω Obj) (service : σ) (caller : ι)
    (request : AdapterRequest) (reply : AdapterReply) (tables : HandleTables ι ω Obj)
    (hsized : tables.Sized)
    (hcounts : ∀ held, tables.openEntry caller request.contentHandle = some held → EntryCounts count limit tables.world held)
    (hcallback : ∀ registration, resolveCapability broker service caller (tables.tables caller) request.adapterHandle = .ok registration →
      Courteous count registration.invoke) :
    let run := proprietaryAdapterInvoke broker service caller request ⟨tables, reply, []⟩
    (∀ p handle, run.2.tables.openEntry p handle = tables.openEntry p handle) ∧
    (∀ o, count run.2.tables.world o = count tables.world o) ∧
    (∀ r ∈ run.2.runs, GivenContent broker service caller request tables r) ∧
    run.2.reply.status = run.1 ∧ (∀ e, run.1 = .error e → run.2.reply.output = Bytes.zero) := by
  intro run
  have hspec := @invokeAdapter_spec _ _ _ _ _ _ _ broker service caller request tables reply count limit hsized hcounts hcallback
  have hrun : run = ((invokeAdapter broker service caller request ⟨tables, reply, []⟩).1,
      { (invokeAdapter broker service caller request ⟨tables, reply, []⟩).2 with
        reply := { (invokeAdapter broker service caller request ⟨tables, reply, []⟩).2.reply with
          status := (invokeAdapter broker service caller request ⟨tables, reply, []⟩).1 } }) := rfl
  rcases hbody : invokeAdapter broker service caller request ⟨tables, reply, []⟩ with ⟨e | _, t⟩
  · obtain ⟨⟨hleft, hborrowed⟩, hzero⟩ := wp_error hspec hbody
    rw [hrun, hbody]
    exact ⟨hleft.handles, hleft.references, hborrowed, rfl, fun _ _ => hzero⟩
  · obtain ⟨hleft, hborrowed⟩ := wp_ok hspec hbody
    rw [hrun, hbody]
    exact ⟨hleft.handles, hleft.references, hborrowed, rfl, fun _ hno => nomatch hno⟩

def firstEntry (object : Option Bool) (rights : BitVec 64) (kind : IosObjectKind)
    (retain release : Option (Bool → (Bool → Nat) → Bool → Nat)) : HandleEntry (Bool → Nat) Bool :=
  ⟨object, rights, initialGeneration 1, kind, retain, release⟩

def lendingTables : HandleTables (Fin 2) (Bool → Nat) Bool where
  tables p :=
    { entries := fun i =>
        if p = 0 ∧ i = 0 then firstEntry (some true) rightSignal .adapterCapability none none
        else if p = 0 ∧ i = 1 then
          firstEntry (some false) (1 ||| rightTransfer) .content (some fun o w => update w o (w o + 1))
            (some fun o w => update w o (w o - 1))
        else firstEntry none 0 .none none none
      ownerTag := 1
      openCount := if p = 0 then 2 else 0 }
  world := fun _ => 1

def lendingRegistration : AdapterRegistration (Fin 2) (Bool → Nat) Bool where
  proprietaryProcess := some 1
  occupied := true
  proprietaryApplicationIdentity := 9
  allowedOperationMask := 1
  requiredContentRights := 1
  invoke := fun _ _ _ _ _ s => (⟨.ok (), fun _ => 7, 4⟩, s)

def lendingBroker : AdapterBroker (Fin 2) Unit (Bool → Nat) Bool where
  processes p := if p = 0 then ⟨1, 8⟩ else ⟨2, 9⟩
  initialized _ := true
  capability _ := ⟨some (), some lendingRegistration, 1, 8, true⟩

def lendingRequest : AdapterRequest :=
  ⟨160, 1, 0, encodeHandle 0 (initialGeneration 1), encodeHandle 1 (initialGeneration 1), 0, 0, 0, Bytes.zero⟩

/-- A content is lent to its provider and taken back. -/
theorem adapter_call_leaves_nothing_lent :
    let run := proprietaryAdapterInvoke lendingBroker () 0 lendingRequest ⟨lendingTables, ⟨0, 0, .ok (), 0, Bytes.zero⟩, []⟩
    run.1 = .ok () ∧ run.2.runs.length = 1 ∧ (∀ p handle, run.2.tables.openEntry p handle = lendingTables.openEntry p handle) ∧
      ∀ o, run.2.tables.world o = 1 := by
  have hsized : lendingTables.Sized := by
    refine ⟨fun _ => (by decide : (1 : BitVec 32).toNat < 2 ^ 24), fun p i => ?_⟩
    have hgeneration : (lendingTables.entry p i).generation = initialGeneration 1 := by
      unfold entry lendingTables
      dsimp only
      split
      · rfl
      · split <;> rfl
    rw [hgeneration]
    decide
  have hcounts (held : HandleEntry (Bool → Nat) Bool) (h : lendingTables.openEntry 0 lendingRequest.contentHandle = some held) :
      EntryCounts (fun w o => w o) (2 ^ 32) lendingTables.world held := by
    cases h
    refine .counted rfl rfl rfl ⟨fun w o x _ => ?_, fun w o x hpos => ?_⟩ (by decide) (by decide)
    · rw [update_apply, one]
      split
      · rename_i hx
        rw [hx]
      · rfl
    · rw [update_apply, one]
      split
      · rename_i hx
        rw [hx]
        omega
      · rfl
  have hcallback (registration : AdapterRegistration (Fin 2) (Bool → Nat) Bool)
      (h : resolveCapability lendingBroker () 0 (lendingTables.tables 0) lendingRequest.adapterHandle = .ok registration) :
      Courteous (fun w o => w o) registration.invoke := by
    cases h
    exact fun _ _ _ _ _ s => .refl
  obtain ⟨hhandles, hreferences, -, -, -⟩ := adapter_call_leaves_nothing (fun w o => w o) (2 ^ 32) lendingBroker () 0 lendingRequest
    ⟨0, 0, .ok (), 0, Bytes.zero⟩ lendingTables hsized hcounts hcallback
  exact ⟨by decide +kernel, by decide +kernel, hhandles, hreferences⟩

end AdapterProgram
end InferenceOS
