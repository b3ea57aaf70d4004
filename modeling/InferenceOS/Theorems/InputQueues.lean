import InferenceOS.Drivers.Ps2
import InferenceOS.Lib.Ring

/-! The input queue is a FIFO queue. What a driver emits is what was taken out of its queue followed by what still lies in it. -/

namespace InferenceOS
open Program InputQueue

namespace InputEvent
variable {e : InputEvent} {timestamp : UInt64} {code text flags button : UInt32} {pressed : Bool} {x y deltaX deltaY : Int}

/-- The queue takes the event. -/
structure Normal (e : InputEvent) : Prop where
  size : e.structureSize = inputEventSize
  version : e.structureVersion = inputEventVersion
  valid : e.IsValid

theorem normal_ofKey (hcode : code ≠ keyNone) (hflags : flags &&& ~~~inputKnownFlags = 0) : Normal (ofKey timestamp code text flags) :=
  ⟨rfl, rfl, hflags, rfl, Or.inl ⟨rfl, hcode, rfl, rfl, rfl, rfl⟩⟩

theorem normal_ofMove : Normal (ofMove timestamp x y deltaX deltaY) :=
  ⟨rfl, rfl, show (0 : UInt32) &&& ~~~inputKnownFlags = 0 by decide, rfl, Or.inr (Or.inl ⟨rfl, rfl, rfl, rfl⟩)⟩

theorem normal_ofButton (hlow : ¬button < pointerButtonLeft) (hhigh : ¬pointerButtonMiddle < button) :
    Normal (ofButton timestamp button pressed x y) := by
  have hflags : ∀ pressed : Bool, (if pressed then inputPressed else 0) &&& ~~~inputKnownFlags = 0 ∧
      (if pressed then inputPressed else 0) &&& ~~~inputPressed = 0 := by decide
  exact ⟨rfl, rfl, (hflags pressed).1, rfl,
    Or.inr (Or.inr ⟨rfl, UInt32.not_lt.mp hlow, UInt32.not_lt.mp hhigh, (hflags pressed).2, rfl, rfl, rfl⟩)⟩

end InputEvent

namespace InputQueue
variable {q : InputQueue} {e : InputEvent}

def ring (q : InputQueue) : Ring InputEvent :=
  ⟨inputQueueCapacity, q.head, (q.head + q.count) % inputQueueCapacity, q.count, q.events⟩

def contents (q : InputQueue) : List InputEvent := q.ring.contents

/-- The head is a slot, and no slot holds two events. -/
structure Wf (q : InputQueue) : Prop where
  head : q.head < inputQueueCapacity
  count : q.count ≤ inputQueueCapacity

theorem Wf.ring (h : q.Wf) : q.ring.Wf := ⟨h.head, rfl, h.count⟩

theorem length_contents : q.contents.length = q.count := Ring.length_contents

theorem wf_queueInitialize {width height : Int} : (queueInitialize width height).Wf :=
  ⟨show 0 < inputQueueCapacity by decide, show 0 ≤ inputQueueCapacity by decide⟩

theorem contents_queueInitialize {width height : Int} : (queueInitialize width height).contents = [] := rfl

def pushed (e : InputEvent) (q : InputQueue) : InputQueue :=
  { q with events := Function.update q.events ((q.head + q.count) % inputQueueCapacity) e, count := q.count + 1 }

def refused (q : InputQueue) : InputQueue := { q with droppedEventCount := (q.droppedEventCount + 1) % 2 ^ 64 }

def advanced (q : InputQueue) : InputQueue := { q with head := (q.head + 1) % inputQueueCapacity, count := q.count - 1 }

theorem push_normal (he : e.Normal) :
    push e q = if q.count = inputQueueCapacity then (.error .noSpace, q.refused) else (.ok (), q.pushed e) := by
  have hpass : ¬(e.structureSize ≠ inputEventSize ∨ e.structureVersion ≠ inputEventVersion ∨ ¬e.IsValid) := fun hbad =>
    hbad.elim (fun h => h he.size) fun h => h.elim (fun h => h he.version) fun h => h he.valid
  unfold push
  rw [failIf_pass hpass, bind_ok (show get q = (.ok q, q) from rfl)]
  split <;> rfl

theorem push_run (he : e.Normal) (hroom : q.count < inputQueueCapacity) : push e q = (.ok (), q.pushed e) :=
  (push_normal he).trans (if_neg (Nat.ne_of_lt hroom))

theorem push_full (he : e.Normal) (hfull : q.count = inputQueueCapacity) : push e q = (.error .noSpace, q.refused) :=
  (push_normal he).trans (if_pos hfull)

theorem Wf.pushed (h : q.Wf) (hroom : q.count < inputQueueCapacity) : (q.pushed e).Wf := ⟨h.head, hroom⟩

theorem contents_pushed (h : q.Wf) (hroom : q.count < inputQueueCapacity) : (q.pushed e).contents = q.contents ++ [e] := by
  have hring : (q.pushed e).ring = q.ring.push e := by
    show Ring.mk _ _ ((q.head + (q.count + 1)) % inputQueueCapacity) _ _ = Ring.mk _ _ _ _ _
    congr 1
    exact (Nat.mod_add_mod (q.head + q.count) inputQueueCapacity 1).symm
  unfold contents
  rw [hring, Ring.contents_push h.ring hroom]

theorem Wf.refused (h : q.Wf) : q.refused.Wf := ⟨h.head, h.count⟩

theorem Wf.advanced (h : q.Wf) : q.advanced.Wf :=
  ⟨Nat.mod_lt _ (by decide), le_trans (Nat.sub_le _ _) h.count⟩

theorem pop_run (h : q.Wf) (hsome : q.count ≠ 0) : pop q = (.ok (q.events q.head), q.advanced) ∧
    q.contents = q.events q.head :: q.advanced.contents := by
  constructor
  · unfold pop
    rw [bind_ok (show get q = (.ok q, q) from rfl), failIf_pass hsome]
    rfl
  · have hring : q.advanced.ring = q.ring.pop (q.ring.slots q.ring.head) := by
      have hslots : Function.update q.ring.slots q.ring.head (q.ring.slots q.ring.head) = q.events := Function.update_eq_self _ _
      unfold Ring.pop
      rw [hslots]
      show Ring.mk _ _ (((q.head + 1) % inputQueueCapacity + (q.count - 1)) % inputQueueCapacity) _ _ = Ring.mk _ _ _ _ _
      congr 1
      rw [Nat.mod_add_mod]
      show (q.head + 1 + (q.count - 1)) % inputQueueCapacity = (q.head + q.count) % inputQueueCapacity
      congr 1
      omega
    show q.ring.contents = _ :: q.advanced.ring.contents
    rw [hring]
    exact Ring.contents_pop h.ring (Nat.pos_of_ne_zero hsome)

theorem pop_empty (hnone : q.count = 0) : pop q = (.error .wouldBlock, q) := by
  unfold pop
  rw [bind_ok (show get q = (.ok q, q) from rfl), failIf_bind hnone]
  rfl

theorem of_pop_run {q' : InputQueue} (h : q.Wf) (hr : pop q = (.ok e, q')) : q'.Wf ∧ q.contents = e :: q'.contents ∧ q' = q.advanced := by
  by_cases hnone : q.count = 0
  · rw [pop_empty hnone] at hr
    cases hr
  · obtain ⟨hrun, hcontents⟩ := pop_run h hnone
    rw [hrun] at hr
    obtain ⟨he, rfl⟩ := Prod.mk.inj hr
    exact ⟨h.advanced, by rw [hcontents, Except.ok.inj he], rfl⟩

end InputQueue

namespace InputPort
variable {δ : Type} {s : InputPort δ} {e : InputEvent}

theorem onDriver_bind {α : Type} {f : δ → δ} {g : Unit → Program IosError (InputPort δ) α} :
    (onDriver f >>= g) s = g () { s with driver := f s.driver } := rfl

theorem onQueue_push (he : e.Normal) (hroom : s.queue.count < inputQueueCapacity) :
    onQueue (push e) s = (.ok (), { s with queue := s.queue.pushed e }) := by
  show ((push e s.queue).1, _) = _
  rw [push_run he hroom]

end InputPort

/-- The runs of a driver that was fed some inputs, each in a state that meets a condition, and the events taken out of its queue. -/
inductive InputRun {δ ι : Type} (meets : InputPort δ → ι → Prop) (handle : ι → UInt64 → Program IosError (InputPort δ) Unit)
    (start : InputPort δ) : InputPort δ → List ι → List InputEvent → Prop where
  | started : InputRun meets handle start start [] []
  | fed {s : InputPort δ} {inputs : List ι} {taken : List InputEvent} {input : ι} {timestamp : UInt64} :
      InputRun meets handle start s inputs taken → meets s input →
      InputRun meets handle start (handle input timestamp s).2 (inputs ++ [input]) taken
  | popped {s : InputPort δ} {inputs : List ι} {taken : List InputEvent} {event : InputEvent} {queue : InputQueue} :
      InputRun meets handle start s inputs taken → pop s.queue = (.ok event, queue) →
      InputRun meets handle start { s with queue } inputs (taken ++ [event])

/-- What the events say, taken out or still queued. -/
def emitted {δ ω : Type} (out : InputEvent → Option ω) (s : InputPort δ) (taken : List InputEvent) : List ω :=
  (taken ++ s.queue.contents).filterMap out

section Follow
variable {δ ι σ ω : Type} {next : σ → ι → σ × List ω} {handle : ι → UInt64 → Program IosError (InputPort δ) Unit}
  {view : InputPort δ → σ} {out : InputEvent → Option ω} {meets : InputPort δ → ι → Prop}
  {start s : InputPort δ} {k k' : σ} {inputs inputs' : List ι} {input : ι} {taken : List InputEvent}

def follow (next : σ → ι → σ × List ω) (k : σ) : List ι → σ × List ω
  | [] => (k, [])
  | input :: rest => ((follow next (next k input).1 rest).1, (next k input).2 ++ (follow next (next k input).1 rest).2)

theorem follow_append : follow next k (inputs ++ inputs') =
    ((follow next (follow next k inputs).1 inputs').1, (follow next k inputs).2 ++ (follow next (follow next k inputs).1 inputs').2) := by
  induction inputs generalizing k with
  | nil => rfl
  | cons input rest ih =>
    rw [List.cons_append, follow, follow, ih]
    dsimp only
    rw [List.append_assoc]

theorem follow_cons_quiet (h : next k input = (k', [])) : follow next k (input :: inputs) = follow next k' inputs := by
  rw [follow, h]
  rfl

def Follows (view : InputPort δ → σ) (out : InputEvent → Option ω) (meets : InputPort δ → ι → Prop)
    (handle : ι → UInt64 → Program IosError (InputPort δ) Unit) (next : σ → ι → σ × List ω) : Prop :=
  ∀ input timestamp (s : InputPort δ), s.queue.Wf → meets s input →
    view (handle input timestamp s).2 = (next (view s) input).1 ∧ (handle input timestamp s).2.queue.Wf ∧
      ∃ events, (handle input timestamp s).2.queue.contents = s.queue.contents ++ events ∧
        events.filterMap out = (next (view s) input).2

theorem emitted_of_run (hf : Follows view out meets handle next)
    (hview : ∀ s : InputPort δ, view { s with queue := s.queue.advanced } = view s) (hstart : start.queue.Wf)
    (h : InputRun meets handle start s inputs taken) : s.queue.Wf ∧ view s = (follow next (view start) inputs).1 ∧
      emitted out s taken = start.queue.contents.filterMap out ++ (follow next (view start) inputs).2 := by
  induction h with
  | started => exact ⟨hstart, rfl, (List.append_nil _).symm⟩
  | @fed s inputs taken input timestamp _ hmeets ih =>
    obtain ⟨hwf, hs, hemitted⟩ := ih
    obtain ⟨hs', hwf', events, hcontents, hout⟩ := hf input timestamp s hwf hmeets
    rw [follow_append]
    refine ⟨hwf', ?_, ?_⟩
    · rw [hs', hs]
      rfl
    · unfold emitted at hemitted ⊢
      rw [hcontents, ← List.append_assoc, List.filterMap_append, hemitted, hout, hs, List.append_assoc]
      show _ = _ ++ (_ ++ (_ ++ []))
      rw [List.append_nil]
  | @popped s inputs taken event queue _ hpop ih =>
    obtain ⟨hwf, hs, hemitted⟩ := ih
    obtain ⟨hwf', hcontents, rfl⟩ := of_pop_run hwf hpop
    refine ⟨hwf', (hview s).trans hs, ?_⟩
    rw [← hemitted]
    unfold emitted
    rw [hcontents, List.append_assoc, List.singleton_append]

/-- The port after the inputs. -/
def feed (handle : ι → UInt64 → Program IosError (InputPort δ) Unit) (start : InputPort δ) (inputs : List ι) : InputPort δ :=
  inputs.foldl (fun s input => (handle input 0 s).2) start

theorem run_feed (h : ∀ before input rest, inputs = before ++ input :: rest → meets (feed handle start before) input) :
    InputRun meets handle start (feed handle start inputs) inputs [] := by
  induction inputs using List.reverseRecOn with
  | nil => exact .started
  | append_singleton inputs input ih =>
    have hrun := @InputRun.fed _ _ meets handle _ _ _ _ input 0
      (ih fun before b rest hsplit => h before b (rest ++ [input]) (by rw [hsplit, List.append_assoc, List.cons_append]))
      (h inputs input [] rfl)
    unfold feed
    rw [List.foldl_append]
    exact hrun

theorem run_feed_of_take (h : ∀ (n : Nat) (hn : n < inputs.length), meets (feed handle start (inputs.take n)) (inputs.get ⟨n, hn⟩)) :
    InputRun meets handle start (feed handle start inputs) inputs [] := by
  refine run_feed fun before input rest hsplit => ?_
  subst hsplit
  have hn := h before.length (by rw [List.length_append, List.length_cons]; omega)
  simpa [List.take_left] using hn

end Follow
end InferenceOS
