import InferenceOS.Drivers.Vmbus

/-! Requests to the VMBus host while the host changes its offers. A receive judges each message against the buffer of the
    awaited answer: a RESCIND_CHANNEL_OFFER fits every one of them and is skipped, an OFFER_CHANNEL fits none and stays in
    the slot. -/

namespace InferenceOS
open Program

namespace VmbusProgram

def IsOffer (m : HvMessage) : Prop := m.payload.length = vmbusOfferSize ∧ headerType m.payload = vmbusMessageOfferChannel

def IsRescind (m : HvMessage) : Prop :=
  m.payload.length = vmbusHeaderSize + 4 ∧ headerType m.payload = vmbusMessageRescindChannelOffer

def IsAnswer (capacity : Nat) (m : HvMessage) : Prop :=
  m.payload.length ≤ capacity ∧ headerType m.payload ≠ vmbusMessageOfferChannel ∧
    headerType m.payload ≠ vmbusMessageRescindChannelOffer

/-- The message is a rescind that comes in time. -/
def Harmless (spinLimit : Nat) (a : HvArrival) : Prop := IsRescind a.message ∧ a.delay < spinLimit

instance {m : HvMessage} : Decidable (IsOffer m) := inferInstanceAs (Decidable (_ ∧ _))

instance {m : HvMessage} : Decidable (IsRescind m) := inferInstanceAs (Decidable (_ ∧ _))

instance {capacity : Nat} {m : HvMessage} : Decidable (IsAnswer capacity m) := inferInstanceAs (Decidable (_ ∧ _))

instance {spinLimit : Nat} {a : HvArrival} : Decidable (Harmless spinLimit a) := inferInstanceAs (Decidable (_ ∧ _))

/-- The second list is the first one with fewer than `IOS_VMBUS_MAX_OFFERS + 8` further messages before each message. -/
inductive Interleaved (P : HvArrival → Prop) : List HvArrival → List HvArrival → Prop where
  | nil : Interleaved P [] []
  | cons {a : HvArrival} {inserted l l' : List HvArrival} : (∀ b ∈ inserted, P b) → inserted.length < vmbusMaxOffers + 8 →
      Interleaved P l l' → Interleaved P (a :: l) (inserted ++ a :: l')

/-- The second host sends what the first sends, with messages in between. -/
def Interleaves (P : HvArrival → Prop) (host host' : HvHost) : Prop := ∀ posts,
  (host posts = none ∧ host' posts = none) ∨ ∃ l l', host posts = some l ∧ host' posts = some l' ∧ Interleaved P l l'

def Answering (capacity : Nat) (host : HvHost) : Prop := ∀ posts l, host posts = some l → ∀ a ∈ l, IsAnswer capacity a.message

variable {P : HvArrival → Prop} {host host' : HvHost} {capacity spinLimit expected : Nat} {s s' : VmbusMachine}
  {a : HvArrival} {rest l l' inserted : List HvArrival}

theorem Interleaved.plain (h : Interleaved P l l') : Interleaved P (a :: l) (a :: l') :=
  @Interleaved.cons P a [] l l' (fun _ hb => (nomatch hb)) (by decide) h

theorem Interleaved.append {k k' : List HvArrival} (h : Interleaved P l l') (hk : Interleaved P k k') :
    Interleaved P (l ++ k) (l' ++ k') := by
  induction h with
  | nil => exact hk
  | cons hP hlen _ ih =>
    rw [List.cons_append, List.append_assoc, List.cons_append]
    exact .cons hP hlen ih

variable {bus : Vmbus} {posts : List HvPost} {m : HvMessage}

theorem receive_empty : ∀ {n : Nat}, receiveMessage capacity n ⟨bus, none, [], posts⟩ = (.error .timeout, ⟨bus, none, [], posts⟩)
  | 0 => rfl
  | n + 1 => receive_empty (n := n)

theorem receive_arrival : ∀ (spins delay : Nat), receiveMessage capacity spins ⟨bus, none, ⟨delay, m⟩ :: rest, posts⟩ =
    if delay < spins then
      if hvMessagePayloadSize < m.payload.length ∨ capacity < m.payload.length then
        (.error .protocol, ⟨bus, some m, rest, posts⟩)
      else (.ok m.payload, ⟨bus, none, rest, posts⟩)
    else (.error .timeout, ⟨bus, none, ⟨delay - spins, m⟩ :: rest, posts⟩)
  | 0, delay => by
    rw [if_neg (Nat.not_lt_zero delay)]
    rfl
  | spins + 1, 0 => by
    rw [if_pos (Nat.succ_pos spins)]
    show ((failIf (hvMessagePayloadSize < m.payload.length ∨ capacity < m.payload.length) .protocol : VmbusProgram Unit) >>=
      fun _ => _) _ = _
    by_cases hlarge : hvMessagePayloadSize < m.payload.length ∨ capacity < m.payload.length
    · rw [failIf_bind hlarge, if_pos hlarge]
      rfl
    · rw [failIf_pass hlarge, if_neg hlarge]
      rfl
  | spins + 1, delay + 1 => by
    have ih := receive_arrival spins delay
    rw [Nat.add_sub_add_right]
    refine Eq.trans (show _ = receiveMessage capacity spins ⟨bus, none, ⟨delay, m⟩ :: rest, posts⟩ from rfl) (ih.trans ?_)
    by_cases hlt : delay < spins
    · rw [if_pos hlt, if_pos (Nat.succ_lt_succ hlt)]
    · rw [if_neg hlt, if_neg fun h => hlt (Nat.lt_of_succ_lt_succ h)]

def verdict (expected : Nat) (payload : List UInt8) : Except IosError (List UInt8) :=
  if payload.length < vmbusHeaderSize then .error .protocol
  else if headerType payload = expected then .ok payload else .error .protocol

theorem wait_empty {rounds : Nat} : waitFrom expected capacity spinLimit rounds ⟨bus, none, [], posts⟩ =
    (.error .timeout, ⟨bus, none, [], posts⟩) := by
  cases rounds with
  | zero => rfl
  | succ rounds => exact bind_error receive_empty

theorem wait_late {rounds : Nat} (h : spinLimit ≤ a.delay) : waitFrom expected capacity spinLimit (rounds + 1) ⟨bus, none, a :: rest, posts⟩ =
    (.error .timeout, ⟨bus, none, ⟨a.delay - spinLimit, a.message⟩ :: rest, posts⟩) := by
  refine bind_error ((receive_arrival spinLimit a.delay).trans ?_)
  rw [if_neg (Nat.not_lt.mpr h)]

theorem wait_answer {rounds : Nat} (h : a.delay < spinLimit) (hcap : capacity ≤ hvMessagePayloadSize) (ha : IsAnswer capacity a.message) :
    waitFrom expected capacity spinLimit (rounds + 1) ⟨bus, none, a :: rest, posts⟩ =
      (verdict expected a.message.payload, ⟨bus, none, rest, posts⟩) := by
  obtain ⟨hlen, hoffer, hrescind⟩ := ha
  have hreceive := @receive_arrival capacity rest bus posts a.message spinLimit a.delay
  rw [if_pos h, if_neg (by omega)] at hreceive
  refine (bind_ok hreceive).trans ?_
  unfold verdict
  by_cases hshort : a.message.payload.length < vmbusHeaderSize
  · rw [failIf_bind hshort, if_pos hshort]
    rfl
  · rw [failIf_pass hshort, if_neg hshort]
    by_cases htype : headerType a.message.payload = expected
    · rw [if_pos htype, if_pos htype]
      rfl
    · rw [if_neg htype, if_neg htype, if_neg (not_or.mpr ⟨hrescind, hoffer⟩)]
      rfl

theorem wait_rescind {rounds : Nat} (h : Harmless spinLimit a) (hcap : vmbusHeaderSize + 4 ≤ capacity)
    (hexpected : expected ≠ vmbusMessageRescindChannelOffer) :
    waitFrom expected capacity spinLimit (rounds + 1) ⟨bus, none, a :: rest, posts⟩ =
      waitFrom expected capacity spinLimit rounds ⟨bus, none, rest, posts⟩ := by
  obtain ⟨⟨hlen, htype⟩, hdelay⟩ := h
  have hreceive := @receive_arrival capacity rest bus posts a.message spinLimit a.delay
  rw [if_pos hdelay, if_neg (by unfold hvMessagePayloadSize vmbusHeaderSize at *; omega)] at hreceive
  refine (bind_ok hreceive).trans ?_
  rw [failIf_pass (by omega), if_neg (by rw [htype]; exact hexpected.symm), if_pos (.inl htype)]

theorem wait_rescinds (hcap : vmbusHeaderSize + 4 ≤ capacity) (hexpected : expected ≠ vmbusMessageRescindChannelOffer) :
    ∀ {inserted : List HvArrival} {n : Nat}, (∀ b ∈ inserted, Harmless spinLimit b) →
      waitFrom expected capacity spinLimit (n + inserted.length) ⟨bus, none, inserted ++ rest, posts⟩ =
        waitFrom expected capacity spinLimit n ⟨bus, none, rest, posts⟩
  | [], _, _ => rfl
  | b :: _, _, h =>
    (wait_rescind (h b List.mem_cons_self) hcap hexpected).trans
      (wait_rescinds hcap hexpected fun c hc => h c (List.mem_cons_of_mem b hc))

theorem wait_harmful (hcap : vmbusHeaderSize + 4 ≤ capacity) (hsmall : capacity < vmbusOfferSize)
    (hexpected : expected ≠ vmbusMessageRescindChannelOffer) : ∀ {inserted : List HvArrival} {n : Nat},
    (∀ b ∈ inserted, IsOffer b.message ∨ IsRescind b.message) → (¬∀ b ∈ inserted, Harmless spinLimit b) →
      (waitFrom expected capacity spinLimit (n + inserted.length) ⟨bus, none, inserted ++ rest, posts⟩).1 = .error .timeout ∨
        (waitFrom expected capacity spinLimit (n + inserted.length) ⟨bus, none, inserted ++ rest, posts⟩).2.slot ≠ none
  | [], _, _, hbad => absurd (fun _ hb => (nomatch hb)) hbad
  | b :: inserted, n, hchanges, hbad => by
    by_cases hb : Harmless spinLimit b
    · have hskip := @wait_rescind capacity spinLimit expected b (inserted ++ rest) bus posts (n + inserted.length) hb hcap hexpected
      rw [List.cons_append, List.length_cons, ← Nat.add_assoc, hskip]
      refine wait_harmful hcap hsmall hexpected (fun c hc => hchanges c (List.mem_cons_of_mem b hc)) fun hall => hbad fun c hc => ?_
      obtain rfl | hc := List.mem_cons.mp hc
      · exact hb
      · exact hall c hc
    · rw [List.cons_append, List.length_cons, ← Nat.add_assoc]
      by_cases hlate : spinLimit ≤ b.delay
      · exact .inl (by rw [wait_late hlate])
      · obtain hoffer | hrescind := hchanges b List.mem_cons_self
        · have hreceive := @receive_arrival capacity (inserted ++ rest) bus posts b.message spinLimit b.delay
          rw [if_pos (Nat.not_le.mp hlate), if_pos (.inr (hsmall.trans_eq hoffer.1.symm))] at hreceive
          refine .inr ?_
          rw [show waitFrom expected capacity spinLimit (n + inserted.length + 1) ⟨bus, none, b :: (inserted ++ rest), posts⟩ =
            (.error .protocol, ⟨bus, some b.message, inserted ++ rest, posts⟩) from bind_error hreceive]
          exact Option.some_ne_none _
        · exact absurd ⟨hrescind, Nat.not_le.mp hlate⟩ hb

theorem verdict_ne_timeout {payload : List UInt8} : verdict expected payload ≠ .error .timeout := by
  unfold verdict
  intro h
  split at h
  · cases h
  · split at h
    · cases h
    · cases h

theorem waitForType_undisturbed_iff (hcap : vmbusHeaderSize + 4 ≤ capacity) (hmax : capacity ≤ hvMessagePayloadSize)
    (hsmall : capacity < vmbusOfferSize) (hexpected : expected ≠ vmbusMessageRescindChannelOffer) (hin : a.delay < spinLimit)
    (ha : IsAnswer capacity a.message) (hchanges : ∀ b ∈ inserted, IsOffer b.message ∨ IsRescind b.message)
    (hfew : inserted.length < vmbusMaxOffers + 8) :
    (waitForType expected capacity spinLimit ⟨bus, none, inserted ++ a :: rest, posts⟩).1 =
        (waitForType expected capacity spinLimit ⟨bus, none, a :: rest, posts⟩).1 ∧
      (waitForType expected capacity spinLimit ⟨bus, none, inserted ++ a :: rest, posts⟩).2.slot = none ↔
      ∀ b ∈ inserted, Harmless spinLimit b := by
  obtain ⟨rounds, hrounds⟩ : ∃ rounds, vmbusMaxOffers + 8 = rounds + 1 + inserted.length :=
    ⟨vmbusMaxOffers + 8 - 1 - inserted.length, by omega⟩
  have hbase := @wait_answer capacity spinLimit expected a rest bus posts (rounds + inserted.length) hin hmax ha
  unfold waitForType
  rw [hrounds]
  constructor
  · rintro ⟨hsame, hslot⟩
    by_contra hbad
    obtain htimeout | hleft := @wait_harmful capacity spinLimit expected (a :: rest) bus posts hcap hsmall hexpected inserted (rounds + 1)
      hchanges hbad
    · rw [htimeout, Nat.add_right_comm, hbase] at hsame
      exact verdict_ne_timeout hsame.symm
    · exact hleft hslot
  · intro hall
    rw [wait_rescinds hcap hexpected hall, wait_answer hin hmax ha, Nat.add_right_comm, hbase]
    exact ⟨rfl, rfl⟩

/-- The buses agree, their slots are free, and the second one has further messages between the answers. -/
structure Alike (P : HvArrival → Prop) (capacity : Nat) (s s' : VmbusMachine) : Prop where
  bus : s'.bus = s.bus
  posts : s'.posts = s.posts
  slot : s.slot = none
  slot' : s'.slot = none
  pending : Interleaved P s.pending s'.pending
  answers : ∀ a ∈ s.pending, IsAnswer capacity a.message

theorem waitForType_matches (hcap : vmbusHeaderSize + 4 ≤ capacity) (hmax : capacity ≤ hvMessagePayloadSize)
    (hexpected : expected ≠ vmbusMessageRescindChannelOffer) :
    Matches (Alike (Harmless spinLimit) capacity) (waitForType expected capacity spinLimit) (waitForType expected capacity spinLimit) := by
  rintro ⟨bus, slot, pending, posts⟩ ⟨bus', slot', pending', posts'⟩ ⟨hbus, hposts, hslot, hslot', hpending, hanswers⟩
  dsimp only at hbus hposts hslot hslot' hpending hanswers
  subst hbus hposts hslot hslot'
  unfold waitForType
  cases hpending with
  | nil =>
    rw [wait_empty]
    exact ⟨rfl, rfl, rfl, rfl, rfl, .nil, hanswers⟩
  | @cons a inserted l l' hP hlen hrest =>
    obtain ⟨rounds, hrounds⟩ : ∃ rounds, vmbusMaxOffers + 8 = rounds + 1 + inserted.length :=
      ⟨vmbusMaxOffers + 8 - 1 - inserted.length, by omega⟩
    have hlater : ∀ b ∈ l, IsAnswer capacity b.message := fun b hb => hanswers b (List.mem_cons_of_mem a hb)
    rw [hrounds, wait_rescinds hcap hexpected hP, Nat.add_right_comm]
    by_cases hin : a.delay < spinLimit
    · rw [wait_answer hin hmax (hanswers a List.mem_cons_self), wait_answer hin hmax (hanswers a List.mem_cons_self)]
      exact ⟨rfl, rfl, rfl, rfl, rfl, hrest, hlater⟩
    · rw [wait_late (Nat.not_lt.mp hin), wait_late (Nat.not_lt.mp hin)]
      refine ⟨rfl, rfl, rfl, rfl, rfl, hrest.plain, fun b hb => ?_⟩
      obtain rfl | hb := List.mem_cons.mp hb
      · exact hanswers a List.mem_cons_self
      · exact hlater b hb

theorem postAttempts_matches (hhosts : Interleaves P host host') (hanswers : Answering capacity host) {post : HvPost} :
    ∀ {n : Nat}, Matches (Alike P capacity) (postAttempts host post n) (postAttempts host' post n)
  | 0 => matches_fail
  | n + 1 => by
    unfold postAttempts
    refine matches_get_bind fun s s' h => ?_
    rw [h.posts]
    refine (Matches.bind (matches_modify fun t t' ht => ⟨ht.bus, ?_, ht.slot, ht.slot', ht.pending, ht.answers⟩) fun _ => ?_) s s' h
    · obtain ⟨hnone, hnone'⟩ | ⟨l, l', hsome, hsome', hlist⟩ := hhosts (s.posts ++ [post])
      · rw [hnone, hnone']
        exact postAttempts_matches hhosts hanswers
      · rw [hsome, hsome']
        refine matches_modify fun t t' ht => ⟨ht.bus, ht.posts, ht.slot, ht.slot', ht.pending.append hlist, fun a ha => ?_⟩
        obtain ha | ha := List.mem_append.mp ha
        · exact ht.answers a ha
        · exact hanswers _ l hsome a ha
    · exact congrArg (· ++ [post]) ht.posts

theorem onBus_matches {f : Vmbus → Vmbus} : Matches (Alike P capacity) (onBus f) (onBus f) :=
  matches_modify fun _ _ h => ⟨congrArg f h.bus, h.posts, h.slot, h.slot', h.pending, h.answers⟩

section Tolerated
variable (hhosts : Interleaves (Harmless spinLimit) host host') (hanswers : Answering capacity host)
  (hcap : vmbusHeaderSize + 4 ≤ capacity) (hmax : capacity ≤ hvMessagePayloadSize)
include hhosts hanswers hcap hmax

theorem exchange_matches {request : List UInt8} (hexpected : expected ≠ vmbusMessageRescindChannelOffer) :
    Matches (Alike (Harmless spinLimit) capacity) (exchange host request expected capacity spinLimit)
      (exchange host' request expected capacity spinLimit) := by
  refine Matches.bind ?_ fun _ => waitForType_matches hcap hmax hexpected
  refine Matches.bind matches_failIf fun _ => matches_get_bind fun s s' h => ?_
  rw [h.bus]
  exact postAttempts_matches hhosts hanswers s s' h

end Tolerated

theorem negotiate_matches (hhosts : Interleaves (Harmless spinLimit) host host') (hanswers : Answering versionResponseSize host) :
    ∀ {versions : List Nat}, Matches (Alike (Harmless spinLimit) versionResponseSize) (negotiate host spinLimit versions)
      (negotiate host' spinLimit versions)
  | [] => onBus_matches.bind fun _ => matches_fail
  | version :: rest => by
    refine onBus_matches.bind fun _ => (exchange_matches hhosts hanswers (by decide) (by decide) (by decide)).attempt.bind fun status => ?_
    cases status with
    | error e => exact negotiate_matches hhosts hanswers
    | ok response => exact matches_ite onBus_matches (negotiate_matches hhosts hanswers)

theorem vmbusInitialize_matches (hhosts : Interleaves (Harmless spinLimit) host host') (hanswers : Answering versionResponseSize host)
    (enableHypercall enableSynic : Except IosError Unit) :
    Matches (Alike (Harmless spinLimit) versionResponseSize) (vmbusInitialize host enableHypercall enableSynic spinLimit)
      (vmbusInitialize host' enableHypercall enableSynic spinLimit) := by
  refine matches_failIf.bind fun _ => Matches.bind (matches_modify fun s s' h => ?_) fun _ =>
    matches_ofExcept.attempt.bind fun status => ?_
  · exact ⟨rfl, h.posts, rfl, rfl, h.pending, h.answers⟩
  cases status with
  | error e => exact onBus_matches.bind fun _ => matches_fail
  | ok _ =>
    refine onBus_matches.bind fun _ => matches_ofExcept.attempt.bind fun status => ?_
    cases status with
    | error e => exact onBus_matches.bind fun _ => matches_fail
    | ok _ => exact onBus_matches.bind fun _ => negotiate_matches hhosts hanswers

theorem openWith_matches (hhosts : Interleaves (Harmless spinLimit) host host') (hanswers : Answering gpadlCreatedSize host)
    {offer : VmbusOffer} {ringMemory ringPhysical totalPages outboundPages gpadlId openId : Nat}
    {outboundHeader inboundHeader : HvRingHeader} {outboundData inboundData : Nat → UInt8} :
    Matches (Alike (Harmless spinLimit) gpadlCreatedSize)
      (openWith host offer ringMemory ringPhysical totalPages outboundPages spinLimit outboundHeader inboundHeader outboundData
        inboundData gpadlId openId)
      (openWith host' offer ringMemory ringPhysical totalPages outboundPages spinLimit outboundHeader inboundHeader outboundData
        inboundData gpadlId openId) := by
  unfold openWith
  rw [show openResultSize = gpadlCreatedSize from rfl]
  refine (exchange_matches hhosts hanswers (by decide) (by decide) (by decide)).bind fun created => matches_failIf.bind fun _ => ?_
  refine (exchange_matches hhosts hanswers (by decide) (by decide) (by decide)).bind fun result => matches_failIf.bind fun _ => ?_
  exact matches_ofExcept.bind fun outbound => matches_ofExcept.bind fun inbound => matches_pure

theorem vmbusOpenChannel_matches (hhosts : Interleaves (Harmless spinLimit) host host') (hanswers : Answering gpadlCreatedSize host)
    {offer : VmbusOffer} {ringMemory ringPhysical totalPages outboundPages : Nat} {outboundHeader inboundHeader : HvRingHeader}
    {outboundData inboundData : Nat → UInt8} :
    Matches (Alike (Harmless spinLimit) gpadlCreatedSize)
      (vmbusOpenChannel host offer ringMemory ringPhysical totalPages outboundPages spinLimit outboundHeader inboundHeader
        outboundData inboundData)
      (vmbusOpenChannel host' offer ringMemory ringPhysical totalPages outboundPages spinLimit outboundHeader inboundHeader
        outboundData inboundData) := by
  refine matches_failIf.bind fun _ => matches_get_bind fun s s' h => ?_
  rw [h.bus]
  exact (onBus_matches.bind fun _ => openWith_matches hhosts hanswers) s s' h

/-- Connecting and opening give the same with the changes of the offers as without them, and leave no message in the slot, when
    the changes are rescinds that come in time; for a single wait that is the exact condition. -/
theorem offerChanges_tolerated :
    (Interleaves (Harmless spinLimit) host host' → Answering versionResponseSize host →
      ∀ enableHypercall enableSynic, Alike (Harmless spinLimit) versionResponseSize s s' →
        let r := vmbusInitialize host enableHypercall enableSynic spinLimit s
        let r' := vmbusInitialize host' enableHypercall enableSynic spinLimit s'
        r'.1 = r.1 ∧ r'.2.bus = r.2.bus ∧ r'.2.slot = none) ∧
    (Interleaves (Harmless spinLimit) host host' → Answering gpadlCreatedSize host →
      ∀ offer ringMemory ringPhysical totalPages outboundPages outboundHeader inboundHeader outboundData inboundData,
        Alike (Harmless spinLimit) gpadlCreatedSize s s' →
        let r := vmbusOpenChannel host offer ringMemory ringPhysical totalPages outboundPages spinLimit outboundHeader inboundHeader
          outboundData inboundData s
        let r' := vmbusOpenChannel host' offer ringMemory ringPhysical totalPages outboundPages spinLimit outboundHeader inboundHeader
          outboundData inboundData s'
        r'.1 = r.1 ∧ r'.2.bus = r.2.bus ∧ r'.2.slot = none) ∧
    ∀ request ∈ [(vmbusMessageVersionResponse, versionResponseSize), (vmbusMessageGpadlCreated, gpadlCreatedSize),
        (vmbusMessageOpenChannelResult, openResultSize)],
      a.delay < spinLimit → IsAnswer request.2 a.message → (∀ b ∈ inserted, IsOffer b.message ∨ IsRescind b.message) →
      inserted.length < vmbusMaxOffers + 8 →
        ((waitForType request.1 request.2 spinLimit ⟨bus, none, inserted ++ a :: rest, posts⟩).1 =
            (waitForType request.1 request.2 spinLimit ⟨bus, none, a :: rest, posts⟩).1 ∧
          (waitForType request.1 request.2 spinLimit ⟨bus, none, inserted ++ a :: rest, posts⟩).2.slot = none ↔
          ∀ b ∈ inserted, Harmless spinLimit b) := by
  refine ⟨fun hhosts hanswers enableHypercall enableSynic hs => ?_, fun hhosts hanswers _ _ _ _ _ _ _ _ _ hs => ?_, ?_⟩
  · obtain ⟨hout, hrel⟩ := vmbusInitialize_matches hhosts hanswers enableHypercall enableSynic s s' hs
    exact ⟨hout.symm, hrel.bus, hrel.slot'⟩
  · obtain ⟨hout, hrel⟩ := vmbusOpenChannel_matches hhosts hanswers s s' hs
    exact ⟨hout.symm, hrel.bus, hrel.slot'⟩
  · intro request hrequest hin ha hchanges hfew
    have hsizes : ∀ request ∈ [(vmbusMessageVersionResponse, versionResponseSize), (vmbusMessageGpadlCreated, gpadlCreatedSize),
        (vmbusMessageOpenChannelResult, openResultSize)], vmbusHeaderSize + 4 ≤ request.2 ∧ request.2 ≤ hvMessagePayloadSize ∧
        request.2 < vmbusOfferSize ∧ request.1 ≠ vmbusMessageRescindChannelOffer := by decide
    replace hsizes := hsizes request hrequest
    exact waitForType_undisturbed_iff hsizes.1 hsizes.2.1 hsizes.2.2.1 hsizes.2.2.2 hin ha hchanges hfew

def numbersMessage (type : Nat) (numbers : List Nat) : HvMessage := ⟨wire32 type ++ wire32 0 ++ numbers.flatMap wire32⟩

def openingHost (inserted : List HvArrival) : HvHost := fun posts =>
  match posts.length with
  | 1 => some (inserted ++ [⟨0, numbersMessage vmbusMessageGpadlCreated [7, 1, 0]⟩])
  | 2 => some [⟨0, numbersMessage vmbusMessageOpenChannelResult [7, 1, 0]⟩]
  | _ => none

def connectedMachine : VmbusMachine := ⟨⟨vmbusVersion 5 3, 4, 1, 1, .connected, "ready"⟩, none, [], []⟩

def openSeven (inserted : List HvArrival) : Except IosError VmbusChannel × VmbusMachine :=
  vmbusOpenChannel (openingHost inserted) ⟨7, 7⟩ 4096 4096 8 4 100 ⟨0, 0, 0, 0⟩ ⟨0, 0, 0, 0⟩ (fun _ => 0) (fun _ => 0) connectedMachine

/-- An offer before the answer makes the opening fail, and stays in the slot. -/
theorem offer_blocks_opening :
    let offer := numbersMessage vmbusMessageOfferChannel (List.replicate 47 0)
    IsOffer offer ∧ (openSeven []).1.isOk = true ∧ (openSeven [⟨0, offer⟩]).1.isOk = false ∧
      (openSeven [⟨0, offer⟩]).2.slot = some offer := by
  decide +kernel

theorem openingHost_interleaves {P : HvArrival → Prop} (h : ∀ b ∈ inserted, P b) (hlen : inserted.length < vmbusMaxOffers + 8) :
    Interleaves P (openingHost []) (openingHost inserted) := by
  intro posts
  unfold openingHost
  split
  · exact .inr ⟨_, _, rfl, rfl, .cons h hlen .nil⟩
  · exact .inr ⟨_, _, rfl, rfl, Interleaved.nil.plain⟩
  · exact .inl ⟨rfl, rfl⟩

theorem openingHost_answering : Answering gpadlCreatedSize (openingHost []) := by
  intro posts l hl
  unfold openingHost at hl
  split at hl
  · cases hl
    decide
  · cases hl
    decide
  · cases hl

/-- A rescind before the answer does not matter. -/
theorem offerChanges_tolerated_rescind :
    let rescind : HvArrival := ⟨3, numbersMessage vmbusMessageRescindChannelOffer [9]⟩
    (openSeven [rescind]).1 = (openSeven []).1 ∧ (openSeven [rescind]).2.slot = none := by
  unfold openSeven
  have halike : Alike (Harmless 100) gpadlCreatedSize connectedMachine connectedMachine :=
    ⟨rfl, rfl, rfl, rfl, .nil, fun a ha => (nomatch ha)⟩
  have hrescind : ∀ b ∈ [(⟨3, numbersMessage vmbusMessageRescindChannelOffer [9]⟩ : HvArrival)], Harmless 100 b := by decide
  have hall := @offerChanges_tolerated (openingHost []) (openingHost [⟨3, numbersMessage vmbusMessageRescindChannelOffer [9]⟩]) 100
    connectedMachine connectedMachine ⟨0, ⟨[]⟩⟩ [] [] connectedMachine.bus []
  obtain ⟨hout, -, hslot⟩ := hall.2.1 (openingHost_interleaves hrescind (by decide)) openingHost_answering ⟨7, 7⟩ 4096 4096 8 4
    ⟨0, 0, 0, 0⟩ ⟨0, 0, 0, 0⟩ (fun _ => 0) (fun _ => 0) halike
  exact ⟨hout, hslot⟩

end VmbusProgram
end InferenceOS
