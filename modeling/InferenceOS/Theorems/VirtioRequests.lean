import Mathlib.Data.Finset.Card
import Mathlib.Data.List.Induction
import InferenceOS.Drivers.VirtioBlk

/-! The requests of the virtio block driver. Each slot goes from free to available to used and to free again, whatever the
    device shows; a wait frees its slot unless the device shows an error or a used element of no request. -/

namespace InferenceOS
open Program Function

namespace VirtioEvent

def slot : VirtioEvent → Nat
  | .published i => i
  | .completed i => i
  | .freed i => i

end VirtioEvent

def eventsOf (i : Nat) (l : List VirtioEvent) : List VirtioEvent := l.filter fun e => e.slot = i

/-- A slot with these events is in this state. -/
inductive Lifecycle (i : Nat) : List VirtioEvent → VirtioRequestState → Prop where
  | nil : Lifecycle i [] .free
  | published {l : List VirtioEvent} : Lifecycle i l .free → Lifecycle i (l ++ [.published i]) .available
  | completed {l : List VirtioEvent} : Lifecycle i l .available → Lifecycle i (l ++ [.completed i]) .used
  | freed {l : List VirtioEvent} : Lifecycle i l .used → Lifecycle i (l ++ [.freed i]) .free

namespace Lifecycle
variable {i : Nat} {l m : List VirtioEvent} {e : VirtioEvent} {state : VirtioRequestState}

theorem last (h : Lifecycle i (l ++ [e]) state) : e = .published i ∧ state = .available ∧ Lifecycle i l .free ∨
    e = .completed i ∧ state = .used ∧ Lifecycle i l .available ∨ e = .freed i ∧ state = .free ∧ Lifecycle i l .used := by
  generalize heq : l ++ [e] = l' at h
  cases h with
  | nil => exact absurd (congrArg List.length heq) (by simp)
  | published h =>
    obtain ⟨rfl, he⟩ := List.append_inj' heq rfl
    exact Or.inl ⟨List.head_eq_of_cons_eq he, rfl, h⟩
  | completed h =>
    obtain ⟨rfl, he⟩ := List.append_inj' heq rfl
    exact Or.inr (Or.inl ⟨List.head_eq_of_cons_eq he, rfl, h⟩)
  | freed h =>
    obtain ⟨rfl, he⟩ := List.append_inj' heq rfl
    exact Or.inr (Or.inr ⟨List.head_eq_of_cons_eq he, rfl, h⟩)

theorem of_append : ∀ {m : List VirtioEvent} {state : VirtioRequestState}, Lifecycle i (l ++ m) state → ∃ state', Lifecycle i l state' := by
  intro m
  induction m using List.reverseRecOn with
  | nil =>
    intro state h
    rw [List.append_nil] at h
    exact ⟨state, h⟩
  | append_singleton m e ih =>
    intro state h
    rw [← List.append_assoc] at h
    rcases h.last with ⟨-, -, h⟩ | ⟨-, -, h⟩ | ⟨-, -, h⟩ <;> exact ih h

theorem getLast_of_available (h : Lifecycle i l .available) : l.getLast? = some (.published i) := by
  cases h
  exact List.getLast?_concat

theorem count_completed (h : Lifecycle i (l ++ .published i :: m) state) (hm : .published i ∉ m) : m.count (.completed i) ≤ 1 := by
  have hshape : ∀ {m : List VirtioEvent} {state : VirtioRequestState}, Lifecycle i (l ++ .published i :: m) state → .published i ∉ m →
      m = [] ∧ state = .available ∨ m = [.completed i] ∧ state = .used ∨ m = [.completed i, .freed i] ∧ state = .free := by
    intro m
    induction m using List.reverseRecOn with
    | nil =>
      intro state h _
      rcases h.last with ⟨-, hstate, -⟩ | ⟨he, -⟩ | ⟨he, -⟩
      · exact Or.inl ⟨rfl, hstate⟩
      · cases he
      · cases he
    | append_singleton m e ih =>
      intro state h hm
      rw [List.mem_append, not_or] at hm
      rw [← List.cons_append, ← List.append_assoc] at h
      rcases h.last with ⟨rfl, -⟩ | ⟨rfl, hstate, h⟩ | ⟨rfl, hstate, h⟩
      · exact absurd (List.mem_singleton_self _) hm.2
      · rcases ih h hm.1 with ⟨rfl, -⟩ | ⟨-, hx⟩ | ⟨-, hx⟩
        · exact Or.inr (Or.inl ⟨rfl, hstate⟩)
        · cases hx
        · cases hx
      · rcases ih h hm.1 with ⟨-, hx⟩ | ⟨rfl, -⟩ | ⟨-, hx⟩
        · cases hx
        · exact Or.inr (Or.inr ⟨rfl, hstate⟩)
        · cases hx
  rcases hshape h hm with ⟨rfl, -⟩ | ⟨rfl, -⟩ | ⟨rfl, -⟩
  · exact Nat.zero_le _
  · rw [List.count_singleton_self]
  · rw [List.count_cons_self]
    rfl

end Lifecycle

namespace VirtioBlk
variable {s t u : VirtioBlk} {i j n : Nat} {e : VirtioEvent} {request : VirtioRequest} {platform : VirtioPlatform}

def busySlots (s : VirtioBlk) : Finset Nat := (Finset.range s.queueCapacity).filter fun i => (s.requests i).state ≠ .free

theorem mem_busySlots : i ∈ s.busySlots ↔ i < s.queueCapacity ∧ (s.requests i).state ≠ .free := by
  unfold busySlots
  rw [Finset.mem_filter, Finset.mem_range]

/-- What holds between calls. -/
structure Consistent (s : VirtioBlk) : Prop where
  limit : s.queueCapacity ≤ virtioRequestLimit
  descriptors : descriptorsPerRequest * s.queueCapacity ≤ s.descriptorCount ∧ s.descriptorCount ≤ 256
  lifecycle : ∀ i, Lifecycle i (eventsOf i s.history) (s.requests i).state
  outstanding : s.outstanding = s.busySlots.card

theorem Consistent.outstanding_le (h : Consistent s) : s.outstanding ≤ s.queueCapacity := by
  rw [h.outstanding]
  exact (Finset.card_filter_le _ _).trans (Finset.card_range _).le

structure SameRequests (s u : VirtioBlk) : Prop where
  requests : u.requests = s.requests
  queueCapacity : u.queueCapacity = s.queueCapacity
  outstanding : u.outstanding = s.outstanding
  descriptorCount : u.descriptorCount = s.descriptorCount
  history : u.history = s.history

instance : Std.Refl SameRequests := ⟨fun _ => ⟨rfl, rfl, rfl, rfl, rfl⟩⟩

instance : IsTrans VirtioBlk SameRequests := ⟨fun _ _ _ h h' => ⟨h'.requests.trans h.requests, h'.queueCapacity.trans h.queueCapacity,
  h'.outstanding.trans h.outstanding, h'.descriptorCount.trans h.descriptorCount, h'.history.trans h.history⟩⟩

theorem Consistent.step (h : Consistent s) (hr : u.requests = update s.requests i request) (hh : u.history = s.history ++ [e])
    (hc : u.queueCapacity = s.queueCapacity) (hd : u.descriptorCount = s.descriptorCount) (he : e.slot = i)
    (hl : ∀ l, Lifecycle i l (s.requests i).state → Lifecycle i (l ++ [e]) request.state) (ho : u.outstanding = u.busySlots.card) :
    Consistent u := by
  refine ⟨?_, ?_, fun j => ?_, ho⟩
  · rw [hc]
    exact h.limit
  · rw [hc, hd]
    exact h.descriptors
  · unfold eventsOf
    rw [hh, hr, List.filter_append]
    obtain rfl | hj := eq_or_ne j i
    · rw [update_self, List.filter_singleton, decide_eq_true he]
      exact hl _ (h.lifecycle j)
    · have hne : e.slot ≠ j := fun hx => hj (hx.symm.trans he)
      rw [update_of_ne hj, List.filter_singleton, decide_eq_false hne]
      show Lifecycle j (eventsOf j s.history ++ []) _
      rw [List.append_nil]
      exact h.lifecycle j

theorem keeps_pciPublish : Keeps SameRequests (pciPublish platform i request) := by
  have hset : ∀ {index byteCount next : Nat} {buffer : Option Nat} {flags : UInt16},
      Keeps SameRequests (setDescriptor platform index buffer byteCount flags next) :=
    keeps_ofExcept.bind fun _ => keeps_modify fun _ => ⟨rfl, rfl, rfl, rfl, rfl⟩
  have hmodify : ∀ {f : VirtioBlk → VirtioBlk}, (∀ s, SameRequests s (f s)) → Keeps SameRequests (modify f : Program IosError VirtioBlk Unit) :=
    keeps_modify
  have hlast : ∀ {index byteCount next : Nat} {buffer : Option Nat} {flags : UInt16} {f : VirtioBlk → VirtioBlk},
      (∀ s, SameRequests s (f s)) → Keeps SameRequests (do setDescriptor platform index buffer byteCount flags next; modify f) :=
    fun hf => hset.bind fun _ => hmodify hf
  unfold pciPublish
  refine keeps_get.bind fun state => Keeps.bind keeps_failIf fun _ => Keeps.bind ?_ fun _ => hset.bind fun _ => ?_
  · exact hmodify fun _ => ⟨rfl, rfl, rfl, rfl, rfl⟩
  · split
    · exact hset.bind fun _ => hlast fun _ => ⟨rfl, rfl, rfl, rfl, rfl⟩
    · exact hlast fun _ => ⟨rfl, rfl, rfl, rfl, rfl⟩

structure Submitted (u : VirtioBlk) (i : Nat) : Prop where
  consistent : Consistent u
  slot : i < u.queueCapacity
  available : (u.requests i).state = .available

theorem submitAt_spec (h : Consistent s) (hi : i < s.queueCapacity) (hfree : (s.requests i).state = .free)
    (hr : request.state = .available) : wp (submitAt platform i request) (fun j u => j = i ∧ Submitted u i) (fun _ u => Consistent u) s := by
  unfold submitAt
  simp only [wp_bind, wp_modify, wp_attempt]
  refine wp_mono (keeps_pciPublish.wp (s := s.setRequest i request)) (fun _ t ht => ?_) fun _ t ht => ?_
  all_goals obtain ⟨hrequests, hcapacity, houtstanding, hdescriptors, hhistory⟩ := ht
  · simp only [wp_bind, wp_modify, wp_pure]
    refine ⟨trivial, ?_, ?_, ?_⟩
    · refine @Consistent.step _ _ i (.published i) request h hrequests (congrArg (· ++ [_]) hhistory) hcapacity hdescriptors rfl
        (fun l hl => ?_) ?_
      · rw [hfree] at hl
        rw [hr]
        exact hl.published
      · have hbusy : busySlots ({ t with outstanding := (t.outstanding + 1) % 2 ^ 16 }.record (.published i)) = insert i s.busySlots := by
          ext j
          rw [Finset.mem_insert, mem_busySlots, mem_busySlots]
          show j < t.queueCapacity ∧ (t.requests j).state ≠ .free ↔ _
          rw [hrequests, hcapacity]
          show j < s.queueCapacity ∧ (update s.requests i request j).state ≠ .free ↔ _
          obtain rfl | hj := eq_or_ne j i
          · rw [update_self, hr]
            exact ⟨fun _ => Or.inl rfl, fun _ => ⟨hi, nofun⟩⟩
          · rw [update_of_ne hj, or_iff_right hj]
        have hnew : i ∉ s.busySlots := fun hx => (mem_busySlots.mp hx).2 hfree
        have hle := h.outstanding_le
        have hlimit := h.limit
        unfold virtioRequestLimit at hlimit
        rw [hbusy, Finset.card_insert_of_notMem hnew, ← h.outstanding]
        show (t.outstanding + 1) % 2 ^ 16 = _
        rw [houtstanding]
        exact Nat.mod_eq_of_lt (show s.outstanding + 1 < 2 ^ 16 by omega)
    · exact hcapacity ▸ hi
    · show (t.requests i).state = .available
      rw [hrequests]
      show (update s.requests i request i).state = .available
      rw [update_self, hr]
  · simp only [wp_bind, wp_modify, wp_fail]
    -- the slot is cleared, as free as it was
    have hback : ∀ j, ((t.setRequest i .zero).requests j).state = (s.requests j).state := by
      intro j
      show (update t.requests i .zero j).state = _
      rw [hrequests]
      show (update (update s.requests i request) i .zero j).state = _
      obtain rfl | hj := eq_or_ne j i
      · rw [update_self, hfree]
        rfl
      · rw [update_of_ne hj, update_of_ne hj]
    have hbusy : (t.setRequest i .zero).busySlots = s.busySlots := by
      ext j
      rw [mem_busySlots, mem_busySlots, hback]
      show j < t.queueCapacity ∧ _ ↔ _
      rw [hcapacity]
      rfl
    refine ⟨?_, ?_, fun j => ?_, ?_⟩
    · exact hcapacity ▸ h.limit
    · show descriptorsPerRequest * t.queueCapacity ≤ t.descriptorCount ∧ t.descriptorCount ≤ 256
      rw [hcapacity, hdescriptors]
      exact h.descriptors
    · rw [hback]
      show Lifecycle j (eventsOf j t.history) _
      rw [hhistory]
      exact h.lifecycle j
    · rw [hbusy]
      exact houtstanding.trans h.outstanding

theorem submit_found {type : UInt32} {sector byteCount generation : Nat} {buffer : Option Nat} (h : Consistent s) :
    wp (match (List.range s.queueCapacity).find? fun i => (s.requests i).state = .free with
      | none => (fail .wouldBlock : Program IosError VirtioBlk Nat)
      | some i => submitAt platform i ⟨.available, type, sector, buffer, byteCount, generation, .error .wouldBlock⟩)
      (fun i u => Submitted u i) (fun _ u => Consistent u) s := by
  split
  · exact h
  · rename_i i hi
    have hfree := List.find?_some hi
    rw [decide_eq_true_iff] at hfree
    refine wp_mono (submitAt_spec h (List.mem_range.mp (List.mem_of_find?_eq_some hi)) hfree rfl) (fun j t ht => ?_) fun _ _ ht => ht
    obtain ⟨rfl, ht⟩ := ht
    exact ht

theorem submit_spec {type : UInt32} {sector byteCount generation : Nat} {buffer : Option Nat} (h : Consistent s) :
    wp (virtioBlkSubmit platform type sector buffer byteCount generation) (fun i u => Submitted u i) (fun _ u => Consistent u) s := by
  unfold virtioBlkSubmit
  simp only [wp_bind, wp_get, wp_failIf]
  refine ⟨fun _ => h, fun _ => ⟨fun _ => h, fun _ => ?_⟩⟩
  split
  all_goals
    rw [wp_bind, wp_failIf]
    exact ⟨fun _ => h, fun _ => submit_found h⟩

structure Completed (s u : VirtioBlk) (i : Nat) : Prop where
  slot : i < s.queueCapacity
  was : (s.requests i).state = .available
  now : (u.requests i).state = .used ∧ (u.requests i).result ≠ .error .wouldBlock ∧ (u.requests i).result ≠ .error .protocol
  others : ∀ j, j ≠ i → u.requests j = s.requests j
  consistent : Consistent s → Consistent u
  kept : u.queueCapacity = s.queueCapacity ∧ u.descriptorCount = s.descriptorCount ∧ u.lastUsedIndex = s.lastUsedIndex

theorem complete_spec {status : UInt8} : wp (virtioBlkComplete i status) (fun _ u => Completed s u i)
    (fun e u => u = s ∧ (e = .invalidArgument ∧ s.queueCapacity ≤ i ∨ e = .invalidState ∧ (s.requests i).state ≠ .available)) s := by
  unfold virtioBlkComplete
  simp only [wp_bind, wp_get, wp_failIf, wp_modify]
  refine ⟨fun hi => ⟨trivial, Or.inl ⟨trivial, hi⟩⟩, fun hi => ⟨fun ha => ⟨trivial, Or.inr ⟨trivial, ha⟩⟩, fun ha => ?_⟩⟩
  rw [Nat.not_le] at hi
  rw [not_not] at ha
  generalize hresult : (if status = virtioStatusOk then (.ok () : Except IosError Unit)
    else if status = virtioStatusUnsupported then .error .notSupported else .error .io) = result
  have hne : result ≠ .error .wouldBlock ∧ result ≠ .error .protocol := by
    rw [← hresult]
    split
    · exact ⟨(fun hx => by cases hx), (fun hx => by cases hx)⟩
    · split <;> exact ⟨(fun hx => by cases hx), (fun hx => by cases hx)⟩
  have hupdated : ∀ {r : VirtioRequest}, update s.requests i r i = r := update_self _ _ _
  refine ⟨hi, ha, ?_, fun j hj => update_of_ne hj _ _, fun h => ?_, rfl, rfl, rfl⟩
  · show (update s.requests i _ i).state = .used ∧ (update s.requests i _ i).result ≠ _ ∧
      (update s.requests i _ i).result ≠ _
    rw [hupdated]
    exact ⟨rfl, hne⟩
  · refine h.step (e := .completed i) rfl rfl rfl rfl rfl (fun l hl => ?_) ?_
    · rw [ha] at hl
      exact hl.completed
    · refine h.outstanding.trans (congrArg Finset.card ?_)
      ext j
      rw [mem_busySlots, mem_busySlots]
      show _ ↔ j < s.queueCapacity ∧ (update s.requests i _ j).state ≠ .free
      obtain rfl | hj := eq_or_ne j i
      · rw [hupdated, ha]
        exact ⟨fun hx => ⟨hx.1, (fun hx => by cases hx)⟩, fun hx => ⟨hx.1, (fun hx => by cases hx)⟩⟩
      · rw [update_of_ne hj]

theorem usedSlot_ok {identifier : UInt32} (h : Consistent s) : s.usedSlot identifier = .ok i ↔
    i < s.queueCapacity ∧ identifier.toNat = descriptorsPerRequest * i := by
  have hlimit := h.limit
  obtain ⟨hroom, hsmall⟩ := h.descriptors
  unfold usedSlot descriptorsPerRequest virtioRequestLimit at *
  split
  · rename_i hbad
    exact ⟨nofun, fun ⟨hi, hidentifier⟩ => by omega⟩
  · rename_i hgood
    dsimp only
    split
    · rename_i hbad
      exact ⟨nofun, fun ⟨hi, hidentifier⟩ => by omega⟩
    · rename_i hlt
      rw [Except.ok.injEq]
      omega

def UsedElements (count : Nat) : UInt16 → (Nat → VirtqUsed) → List Nat → Prop
  | last, memory, [] => (memory 0).index = last
  | last, memory, i :: l => last ≠ (memory 0).index ∧ ((memory 0).identifier (last.toNat % count)).toNat = descriptorsPerRequest * i ∧
    UsedElements count (last + 1) (fun k => memory (k + 1)) l

def Honest (s : VirtioBlk) (view : DeviceView) : Prop := view.status &&& virtioStatusBroken = 0 ∧
  ∃ l : List Nat, UsedElements s.descriptorCount s.lastUsedIndex view.memory l ∧ l.Nodup ∧
    ∀ i ∈ l, i < s.queueCapacity ∧ (s.requests i).state = .available

structure Serviced (s u : VirtioBlk) : Prop where
  consistent : Consistent u
  capacity : u.queueCapacity = s.queueCapacity
  slots : ∀ i, u.requests i = s.requests i ∨ (s.requests i).state = .available ∧ (u.requests i).state = .used ∧
    (u.requests i).result ≠ .error .wouldBlock ∧ (u.requests i).result ≠ .error .protocol

theorem Consistent.serviced (h : Consistent s) : Serviced s s := ⟨h, rfl, fun _ => Or.inl rfl⟩

theorem Serviced.trans (h : Serviced s t) (h' : Serviced t u) : Serviced s u := by
  refine ⟨h'.consistent, h'.capacity.trans h.capacity, fun i => ?_⟩
  rcases h.slots i with hst | ⟨hs, ht, hresult⟩ <;> rcases h'.slots i with htu | ⟨ht', hu⟩
  · exact Or.inl (htu.trans hst)
  · exact Or.inr ⟨hst ▸ ht', hu⟩
  · exact Or.inr ⟨hs, by rw [htu]; exact ⟨ht, hresult⟩⟩
  · rw [ht] at ht'
    cases ht'

theorem Completed.serviced (hc : Completed s u i) (h : Consistent s) : Serviced s u := by
  refine ⟨hc.consistent h, hc.kept.1, fun j => ?_⟩
  obtain rfl | hj := eq_or_ne j i
  · exact Or.inr ⟨hc.was, hc.now⟩
  · exact Or.inl (hc.others j hj)

theorem serviceLoop_spec : ∀ {n : Nat} {memory : Nat → VirtqUsed} {s : VirtioBlk}, Consistent s → wp (serviceLoop n memory)
    (fun _ u => Serviced s u ∧ ∃ l : List Nat, UsedElements s.descriptorCount s.lastUsedIndex memory l ∧ l.Nodup ∧
      ∀ i ∈ l, i < s.queueCapacity ∧ (s.requests i).state = .available)
    (fun e u => Serviced s u ∧ e ≠ .wouldBlock ∧ ∀ l : List Nat, UsedElements s.descriptorCount s.lastUsedIndex memory l → l.Nodup →
      (∀ i ∈ l, i < s.queueCapacity ∧ (s.requests i).state = .available) → n ≤ l.length) s := by
  intro n
  induction n with
  | zero => exact fun h => ⟨h.serviced, nofun, fun _ _ _ _ => Nat.zero_le _⟩
  | succ n ih =>
    intro memory s h
    unfold serviceLoop
    simp only [wp_bind, wp_get]
    split
    · rename_i hmore
      -- the first element of any list names the slot that the loop takes
      have hfirst : ∀ {l : List Nat}, UsedElements s.descriptorCount s.lastUsedIndex memory l →
          (∀ i ∈ l, i < s.queueCapacity ∧ (s.requests i).state = .available) → ∃ i l', l = i :: l' ∧
            s.usedSlot ((memory 0).identifier (s.lastUsedIndex.toNat % s.descriptorCount)) = .ok i ∧
            UsedElements s.descriptorCount (s.lastUsedIndex + 1) (fun k => memory (k + 1)) l' := by
        intro l hl hall
        cases l with
        | nil => exact absurd hl.symm hmore
        | cons i l' => exact ⟨i, l', rfl, (usedSlot_ok h).mpr ⟨(hall i List.mem_cons_self).1, hl.2.1⟩, hl.2.2⟩
      simp only [wp_bind, wp_ofExcept]
      refine ⟨fun i hi => ?_, fun e he => ⟨h.serviced, ?_, fun l hl _ hall => ?_⟩⟩
      · have hnamed := (usedSlot_ok h).mp hi
        refine wp_mono complete_spec (fun _ t ht => ?_) fun e t ht => ?_
        · simp only [wp_bind, wp_modify]
          have hserviced := ht.serviced h
          obtain ⟨hcapacity, hcount, hlast⟩ := ht.kept
          have hnext : Serviced s { t with lastUsedIndex := t.lastUsedIndex + 1 } :=
            ⟨⟨hserviced.consistent.limit, hserviced.consistent.descriptors, hserviced.consistent.lifecycle,
              hserviced.consistent.outstanding⟩, hserviced.capacity, hserviced.slots⟩
          have havailable : ∀ j, (t.requests j).state = .available → j ≠ i ∧ (s.requests j).state = .available := by
            intro j hj
            have hne : j ≠ i := by
              rintro rfl
              rw [ht.now.1] at hj
              cases hj
            exact ⟨hne, ht.others j hne ▸ hj⟩
          refine wp_mono (ih hnext.consistent) (fun _ u hu => ⟨hnext.trans hu.1, ?_⟩) fun e u hu => ⟨hnext.trans hu.1, hu.2.1, ?_⟩
          · obtain ⟨-, l, hl, hnodup, hall⟩ := hu
            dsimp only at hl hall
            rw [hcount, hlast] at hl
            refine ⟨i :: l, ⟨hmore, hnamed.2, hl⟩, List.nodup_cons.mpr ⟨fun hx => (havailable i (hall i hx).2).1 rfl, hnodup⟩, fun j hj => ?_⟩
            rcases List.mem_cons.mp hj with rfl | hj
            · exact ⟨hnamed.1, ht.was⟩
            · obtain ⟨hlt, hj⟩ := hall j hj
              exact ⟨hcapacity ▸ hlt, (havailable j hj).2⟩
          · intro l hl hnodup hall
            obtain ⟨i', l', rfl, hi', hl'⟩ := hfirst hl hall
            obtain rfl := Except.ok.inj (hi.symm.trans hi')
            obtain ⟨hnew, hnodup⟩ := List.nodup_cons.mp hnodup
            refine Nat.succ_le_succ (hu.2.2 l' ?_ hnodup fun j hj => ?_)
            · dsimp only
              rw [hcount, hlast]
              exact hl'
            · have hne : j ≠ i := fun hx => hnew (hx ▸ hj)
              obtain ⟨hlt, hj⟩ := hall j (List.mem_cons_of_mem _ hj)
              dsimp only
              rw [hcapacity, ht.others j hne]
              exact ⟨hlt, hj⟩
        · obtain ⟨rfl, ht⟩ := ht
          refine ⟨h.serviced, ?_, fun l hl _ hall => ?_⟩
          · rcases ht with ⟨rfl, -⟩ | ⟨rfl, -⟩ <;> nofun
          · obtain ⟨i', l', rfl, hi', -⟩ := hfirst hl hall
            obtain rfl := Except.ok.inj (hi.symm.trans hi')
            have hwaits := hall i List.mem_cons_self
            rcases ht with ⟨-, hbad⟩ | ⟨-, hbad⟩
            · exact absurd hwaits.1 (Nat.not_lt.mpr hbad)
            · exact absurd hwaits.2 hbad
      · unfold usedSlot at he
        split at he
        · cases he
          nofun
        · dsimp only at he
          split at he
          · cases he
            nofun
          · cases he
      · obtain ⟨i, l', -, hi, -⟩ := hfirst hl hall
        rw [he] at hi
        cases hi
    · rename_i hnone
      rw [not_not] at hnone
      exact ⟨h.serviced, [], hnone.symm, List.nodup_nil, nofun⟩

theorem pciService_spec {view : DeviceView} (h : Consistent s) : wp (pciService view) (fun _ u => Serviced s u ∧ Honest s view)
    (fun e u => Serviced s u ∧ e ≠ .wouldBlock ∧ ¬Honest s view) s := by
  unfold pciService
  simp only [wp_bind, wp_get, wp_failIf]
  refine ⟨fun hbroken => ⟨h.serviced, (fun hx => by cases hx), fun hx => hbroken hx.1⟩, fun hworks => ?_⟩
  rw [not_not] at hworks
  refine wp_mono (serviceLoop_spec h) (fun _ u hu => ⟨hu.1, hworks, hu.2⟩) fun e u hu => ⟨hu.1, hu.2.1, ?_⟩
  rintro ⟨-, l, hl, hnodup, hall⟩
  have hlong := hu.2.2 l hl hnodup hall
  have hshort : l.toFinset.card ≤ s.queueCapacity := by
    refine (Finset.card_le_card fun i hi => ?_).trans (Finset.card_range _).le
    exact Finset.mem_range.mpr (hall i (List.mem_toFinset.mp hi)).1
  rw [List.toFinset_card_of_nodup hnodup] at hshort
  omega

/-- The state after `virtio_blk_poll` handed out the outcome of a request. -/
def freed (s : VirtioBlk) (i : Nat) : VirtioBlk :=
  { s.setRequest i .zero with outstanding := (s.outstanding + (2 ^ 16 - 1)) % 2 ^ 16 }.record (.freed i)

theorem freed_state : ((s.freed i).requests i).state = .free := by
  show (update s.requests i .zero i).state = .free
  rw [update_self]
  rfl

theorem Consistent.freed (h : Consistent s) (hi : i < s.queueCapacity) (hu : (s.requests i).state = .used) : Consistent (s.freed i) := by
  have hbusy : (s.freed i).busySlots = s.busySlots.erase i := by
    ext j
    rw [Finset.mem_erase, mem_busySlots, mem_busySlots]
    show j < s.queueCapacity ∧ (update s.requests i .zero j).state ≠ .free ↔ _
    obtain rfl | hj := eq_or_ne j i
    · rw [update_self]
      exact ⟨fun hx => absurd rfl hx.2, fun hx => absurd rfl hx.1⟩
    · rw [update_of_ne hj, and_iff_right hj]
  have hmem : i ∈ s.busySlots := mem_busySlots.mpr ⟨hi, by rw [hu]; nofun⟩
  have hpos : 0 < s.busySlots.card := Finset.card_pos.mpr ⟨i, hmem⟩
  have hle := h.outstanding_le
  have hlimit := h.limit
  have houtstanding := h.outstanding
  unfold virtioRequestLimit at hlimit
  refine @Consistent.step _ _ i (.freed i) .zero h rfl rfl rfl rfl rfl (fun l hl => ?_) ?_
  · rw [hu] at hl
    exact hl.freed
  · rw [hbusy, Finset.card_erase_of_mem hmem]
    show (s.outstanding + (2 ^ 16 - 1)) % 2 ^ 16 = _
    omega

theorem poll_finish : (do
      let device ← get
      failIf ((device.requests i).state ≠ .used) .invalidState
      modify fun s => s.freed i
      pure ((device.requests i).generation, (device.requests i).result) : Program IosError VirtioBlk (Nat × Except IosError Unit)) s =
    if (s.requests i).state ≠ .used then (.error .invalidState, s)
    else (.ok ((s.requests i).generation, (s.requests i).result), s.freed i) := by
  rw [get_bind]
  split
  · rename_i hbad
    rw [failIf_bind hbad]
    rfl
  · rename_i hused
    rw [failIf_pass hused]
    rfl

theorem poll_available {view : DeviceView} (hi : i < s.queueCapacity) (ha : (s.requests i).state = .available) :
    virtioBlkPoll i view s = match pciService view s with
      | (.error e, t) => (.error e, t)
      | (.ok _, t) =>
        if (t.requests i).state = .available then (.error .wouldBlock, t)
        else if (t.requests i).state ≠ .used then (.error .invalidState, t)
        else (.ok ((t.requests i).generation, (t.requests i).result), t.freed i) := by
  unfold virtioBlkPoll
  rw [get_bind, failIf_pass (Nat.not_le.mpr hi), if_pos ha]
  rcases hr : pciService view s with ⟨e | a, t⟩
  · rw [bind_error hr]
  · rw [bind_ok hr, get_bind]
    dsimp only
    split
    · rename_i hwaits
      rw [failIf_bind hwaits]
      rfl
    · rename_i hwaits
      rw [failIf_pass hwaits]
      exact poll_finish

theorem poll_settled {view : DeviceView} (hi : i < s.queueCapacity) (ha : (s.requests i).state ≠ .available) :
    virtioBlkPoll i view s = if (s.requests i).state ≠ .used then (.error .invalidState, s)
      else (.ok ((s.requests i).generation, (s.requests i).result), s.freed i) := by
  unfold virtioBlkPoll
  rw [get_bind, failIf_pass (Nat.not_le.mpr hi), if_neg ha]
  exact poll_finish

theorem eventsOf_completed {p : Nat → Bool} {l : List Nat} (hl : l.Nodup) :
    eventsOf i ((l.filter p).map .completed) = if i ∈ l ∧ p i = true then [.completed i] else [] := by
  have hfilter : ((l.filter p).map VirtioEvent.completed).filter (fun e => decide (e.slot = i)) =
      ((l.filter p).filter fun j => decide (j = i)).map .completed := List.filter_map
  unfold eventsOf
  rw [hfilter, List.filter_eq, (hl.filter p).count, List.map_replicate]
  simp only [List.mem_filter]
  split <;> rfl

theorem Consistent.failed (h : Consistent s) {status : IosError} : Consistent (s.markTransportFailed status) := by
  have hrequests : ∀ j, ((s.markTransportFailed status).requests j) =
      if j < s.queueCapacity ∧ (s.requests j).state = .available then { s.requests j with result := .error status, state := .used }
      else s.requests j := fun _ => rfl
  refine ⟨h.limit, h.descriptors, fun j => ?_, h.outstanding.trans (congrArg Finset.card ?_)⟩
  · show Lifecycle j (eventsOf j (s.history ++ ((List.range s.queueCapacity).filter fun i => (s.requests i).state = .available).map
      .completed)) _
    unfold eventsOf
    rw [List.filter_append]
    show Lifecycle j (eventsOf j s.history ++ eventsOf j _) _
    rw [eventsOf_completed List.nodup_range, hrequests]
    simp only [List.mem_range, decide_eq_true_iff]
    have hlife := h.lifecycle j
    split
    · rename_i hwaits
      rw [hwaits.2] at hlife
      exact hlife.completed
    · rw [List.append_nil]
      exact hlife
  · ext j
    rw [mem_busySlots, mem_busySlots, hrequests]
    show _ ↔ j < s.queueCapacity ∧ _
    split
    · rename_i hwaits
      rw [hwaits.2]
      exact ⟨fun hx => ⟨hx.1, nofun⟩, fun hx => ⟨hx.1, nofun⟩⟩
    · rfl

theorem failed_state {status : IosError} (hi : i < s.queueCapacity) : ((s.markTransportFailed status).requests i).state =
    if (s.requests i).state = .available then .used else (s.requests i).state := by
  show (if i < s.queueCapacity ∧ (s.requests i).state = .available then { s.requests i with result := .error status, state := .used }
    else s.requests i).state = _
  rw [if_congr (and_iff_right hi) rfl rfl]
  split <;> rfl

/-- The device behaves until the request is done or the wait is over. -/
def Answered (i : Nat) : Nat → (Nat → DeviceView) → VirtioBlk → Prop
  | 0, _, _ => True
  | spins + 1, views, s => Honest s (views 0) ∧ (((pciService (views 0) s).2.requests i).state = .available →
    Answered i spins (fun k => views (k + 1)) (pciService (views 0) s).2)

theorem waitLoop_succ {views : Nat → DeviceView} {polled : Except IosError (Nat × Except IosError Unit)}
    (h : virtioBlkPoll i (views 0) s = (polled, t)) : waitLoop i (n + 1) views s = match pollStatus polled with
      | .error .wouldBlock => waitLoop i n (fun k => views (k + 1)) t
      | .error .protocol => (.error .protocol, t.markTransportFailed .protocol)
      | status => (status, t) := by
  have hround : waitLoop i (n + 1) views s = (match pollStatus polled with
      | .error .wouldBlock => waitLoop i n fun k => views (k + 1)
      | .error .protocol => do
        modify (markTransportFailed .protocol)
        fail .protocol
      | status => ofExcept status : Program IosError VirtioBlk Unit) t := bind_ok (attempt_eq h)
  rw [hround]
  rcases pollStatus polled with e | a
  · cases e <;> rfl
  · rfl

theorem waitLoop_spec : ∀ {n : Nat} {views : Nat → DeviceView} {s : VirtioBlk}, Consistent s → i < s.queueCapacity →
    (s.requests i).state = .available → Consistent (waitLoop i n views s).2 ∧
      (((waitLoop i n views s).2.requests i).state = .free ↔ Answered i n views s) := by
  intro n
  induction n with
  | zero =>
    intro views s h hi ha
    have hused : ((s.markTransportFailed .timeout).requests i).state = .used := by
      rw [failed_state hi, if_pos ha]
    have hpoll := @poll_settled (s.markTransportFailed .timeout) i (views 0) hi (by rw [hused]; nofun)
    rw [hused, if_neg (not_not.mpr rfl)] at hpoll
    have hwait : waitLoop i 0 views s = (.error .timeout, (s.markTransportFailed .timeout).freed i) := by
      unfold waitLoop
      rw [bind_ok (rfl : modify (markTransportFailed .timeout) s = (.ok (), s.markTransportFailed .timeout)), bind_ok (attempt_eq hpoll)]
      rfl
    rw [hwait]
    exact ⟨h.failed.freed hi hused, fun _ => trivial, fun _ => freed_state⟩
  | succ n ih =>
    intro views s h hi ha
    have hservice := @pciService_spec _ (views 0) h
    have hpoll := @poll_available s i (views 0) hi ha
    unfold wp at hservice
    rcases hr : pciService (views 0) s with ⟨e | a, t⟩
    all_goals
      rw [hr] at hservice hpoll
      dsimp only at hservice hpoll
    · -- the device shows an error: the slot is left as it is, or failed
      obtain ⟨hserviced, hblock, hdishonest⟩ := hservice
      have hslot : i < t.queueCapacity := hserviced.capacity ▸ hi
      have hbusy : (t.requests i).state ≠ .free := by
        rcases hserviced.slots i with hsame | ⟨-, hused, -⟩
        · rw [hsame, ha]
          nofun
        · rw [hused]
          nofun
      have hanswered : ¬Answered i (n + 1) views s := fun hx => hdishonest hx.1
      have hleft : Consistent (waitLoop i (n + 1) views s).2 ∧ ((waitLoop i (n + 1) views s).2.requests i).state ≠ .free := by
        rw [waitLoop_succ hpoll]
        unfold pollStatus
        dsimp only
        split
        · rename_i heq
          exact absurd (Except.error.inj heq) hblock
        · refine ⟨hserviced.consistent.failed, ?_⟩
          dsimp only
          rw [failed_state hslot]
          split
          · nofun
          · exact hbusy
        · exact ⟨hserviced.consistent, hbusy⟩
      exact ⟨hleft.1, fun hx => absurd hx hleft.2, fun hx => absurd hx hanswered⟩
    · obtain ⟨hserviced, hhonest⟩ := hservice
      have hslot : i < t.queueCapacity := hserviced.capacity ▸ hi
      have hanswered : Answered i (n + 1) views s ↔ ((t.requests i).state = .available → Answered i n (fun k => views (k + 1)) t) := by
        show _ ∧ (((pciService (views 0) s).2.requests i).state = .available → Answered i n _ (pciService (views 0) s).2) ↔ _
        rw [hr, and_iff_right hhonest]
      rw [hanswered]
      by_cases hwaits : (t.requests i).state = .available
      · rw [if_pos hwaits] at hpoll
        have hwait : waitLoop i (n + 1) views s = waitLoop i n (fun k => views (k + 1)) t := by
          rw [waitLoop_succ hpoll]
          rfl
        obtain ⟨hconsistent, hfree⟩ := @ih (fun k => views (k + 1)) t hserviced.consistent hslot hwaits
        rw [hwait, hfree]
        exact ⟨hconsistent, fun hx _ => hx, fun hx => hx hwaits⟩
      · rw [if_neg hwaits] at hpoll
        have hdone : (t.requests i).state = .used ∧ (t.requests i).result ≠ .error .wouldBlock ∧
            (t.requests i).result ≠ .error .protocol := by
          rcases hserviced.slots i with hsame | ⟨-, hdone⟩
          · exact absurd (hsame ▸ ha) hwaits
          · exact hdone
        rw [if_neg (not_not.mpr hdone.1)] at hpoll
        have hwait : (waitLoop i (n + 1) views s).2 = t.freed i := by
          rw [waitLoop_succ hpoll]
          unfold pollStatus
          dsimp only
          split
          · rename_i heq
            exact absurd heq hdone.2.1
          · rename_i heq
            exact absurd heq hdone.2.2
          · rfl
        rw [hwait]
        exact ⟨hserviced.consistent.freed hslot hdone.1, fun _ hx => absurd hx hwaits, fun _ => freed_state⟩

theorem poll_consistent {view : DeviceView} (h : Consistent s) : Consistent (virtioBlkPoll i view s).2 := by
  by_cases hi : i < s.queueCapacity
  · by_cases ha : (s.requests i).state = .available
    · have hservice := @pciService_spec _ view h
      unfold wp at hservice
      rw [poll_available hi ha]
      rcases hr : pciService view s with ⟨e | a, t⟩
      all_goals
        rw [hr] at hservice
        dsimp only at hservice ⊢
      · exact hservice.1.consistent
      · have hslot : i < t.queueCapacity := hservice.1.capacity ▸ hi
        split
        · exact hservice.1.consistent
        · split
          · exact hservice.1.consistent
          · rename_i hused
            exact hservice.1.consistent.freed hslot (not_not.mp hused)
    · rw [poll_settled hi ha]
      split
      · exact h
      · rename_i hused
        exact h.freed hi (not_not.mp hused)
  · have hpoll : virtioBlkPoll i view s = (.error .invalidArgument, s) := by
      unfold virtioBlkPoll
      rw [bind_ok (rfl : (get : Program IosError VirtioBlk VirtioBlk) s = (.ok s, s)), failIf_bind (Nat.not_lt.mp hi)]
      rfl
    rw [hpoll]
    exact h

theorem serviceLoop_rounds : ∀ {n : Nat} {memory : Nat → VirtqUsed} {s : VirtioBlk},
    ((Finset.range s.queueCapacity).filter fun i => (s.requests i).state = .available).card < n →
    serviceLoop (n + 1) memory s = serviceLoop n memory s := by
  intro n
  induction n with
  | zero => exact fun h => absurd h (Nat.not_lt_zero _)
  | succ n ih =>
    intro memory s hn
    have hget : (get : Program IosError VirtioBlk VirtioBlk) s = (.ok s, s) := rfl
    conv_lhs => unfold serviceLoop
    conv_rhs => unfold serviceLoop
    rw [bind_ok hget, bind_ok hget]
    split
    · dsimp only
      rcases hslot : s.usedSlot ((memory 0).identifier (s.lastUsedIndex.toNat % s.descriptorCount)) with e | i
      · rfl
      · rw [ofExcept_ok_bind, ofExcept_ok_bind]
        have hspec := @complete_spec s i ((memory 0).statuses i)
        unfold wp at hspec
        rcases hr : virtioBlkComplete i ((memory 0).statuses i) s with ⟨e | a, t⟩
        all_goals rw [hr] at hspec
        · rw [bind_error hr, bind_error hr]
        · rw [bind_ok hr, bind_ok hr]
          refine ih (s := { t with lastUsedIndex := t.lastUsedIndex + 1 }) (Nat.lt_of_lt_of_le (Finset.card_lt_card ?_) (Nat.le_of_lt_succ hn))
          -- the slot that completed waits no more
          refine Finset.ssubset_iff_subset_ne.mpr ⟨fun j hj => ?_, fun heq => ?_⟩
          · rw [Finset.mem_filter, Finset.mem_range] at hj ⊢
            dsimp only at hj
            rw [hspec.kept.1] at hj
            obtain rfl | hne := eq_or_ne j i
            · exact ⟨hj.1, hspec.was⟩
            · rw [hspec.others j hne] at hj
              exact hj
          · have hmem : i ∈ (Finset.range s.queueCapacity).filter fun i => (s.requests i).state = .available :=
              Finset.mem_filter.mpr ⟨Finset.mem_range.mpr hspec.slot, hspec.was⟩
            rw [← heq, Finset.mem_filter] at hmem
            have hstill : (t.requests i).state = .available := hmem.2
            rw [hspec.now.1] at hstill
            cases hstill
    · rfl

/-- A service looks at the used ring no more often than the driver has slots: further rounds find nothing. -/
theorem serviceLoop_bound {memory : Nat → VirtqUsed} {s : VirtioBlk} (k : Nat) :
    serviceLoop (s.queueCapacity + 1 + k) memory s = serviceLoop (s.queueCapacity + 1) memory s := by
  induction k with
  | zero => rfl
  | succ k ih =>
    have hcard := Finset.card_filter_le (Finset.range s.queueCapacity) fun i => (s.requests i).state = .available
    rw [Finset.card_range] at hcard
    rw [← ih]
    exact serviceLoop_rounds (n := s.queueCapacity + 1 + k) (by omega)

/-- The state after the driver set up its queue. -/
def started (queueCapacity descriptorCount sectorCount : Nat) : VirtioBlk where
  requests := fun _ => .zero
  sectorCount := sectorCount
  queueCapacity := queueCapacity
  outstanding := 0
  ready := true
  publishedDevice := some .ready
  descriptorCount := descriptorCount
  lastUsedIndex := 0
  descriptors := fun _ => ⟨0, 0, 0, 0⟩
  headers := fun _ => ⟨0, 0⟩
  available := ⟨0, fun _ => 0⟩
  history := []

end VirtioBlk

/-- A call of the driver, with what the device shows during it. -/
inductive VirtioCall where
  | submit (platform : VirtioPlatform) (type : UInt32) (sector : Nat) (buffer : Option Nat) (byteCount generation : Nat)
  | service (view : DeviceView)
  | poll (requestId : Nat) (view : DeviceView)
  | submitAndWait (platform : VirtioPlatform) (type : UInt32) (sector : Nat) (buffer : Option Nat) (byteCount : Nat)
      (views : Nat → DeviceView)

/-- The state after a call. -/
def VirtioCall.run (s : VirtioBlk) : VirtioCall → VirtioBlk
  | .submit platform type sector buffer byteCount generation =>
    (VirtioBlk.virtioBlkSubmit platform type sector buffer byteCount generation s).2
  | .service view => (VirtioBlk.pciService view s).2
  | .poll requestId view => (VirtioBlk.virtioBlkPoll requestId view s).2
  | .submitAndWait platform type sector buffer byteCount views =>
    (VirtioBlk.submitAndWait platform type sector buffer byteCount views s).2

/-- The states that runs reach. -/
inductive VirtioRun : VirtioBlk → Prop where
  | started {queueCapacity descriptorCount sectorCount : Nat} : queueCapacity ≤ virtioRequestLimit →
      descriptorsPerRequest * queueCapacity ≤ descriptorCount → descriptorCount ≤ 256 →
      VirtioRun (.started queueCapacity descriptorCount sectorCount)
  | called {s : VirtioBlk} {call : VirtioCall} : VirtioRun s → VirtioRun (call.run s)

namespace VirtioBlk
variable {s t u : VirtioBlk} {i : Nat}

theorem Consistent.submitAndWait (h : Consistent s) {platform : VirtioPlatform} {type : UInt32} {sector byteCount : Nat}
    {buffer : Option Nat} {views : Nat → DeviceView} : Consistent (submitAndWait platform type sector buffer byteCount views s).2 := by
  have hsubmit := @submit_spec s platform type sector byteCount 0 buffer h
  unfold wp at hsubmit
  unfold VirtioBlk.submitAndWait
  rcases hr : virtioBlkSubmit platform type sector buffer byteCount 0 s with ⟨e | i, t⟩
  all_goals rw [hr] at hsubmit
  · rw [bind_error hr]
    exact hsubmit
  · rw [bind_ok hr]
    exact (waitLoop_spec hsubmit.consistent hsubmit.slot hsubmit.available).1

theorem consistent_of_run (h : VirtioRun s) : Consistent s := by
  induction h with
  | @started queueCapacity descriptorCount sectorCount hlimit hroom hsmall =>
    refine ⟨hlimit, ⟨hroom, hsmall⟩, fun i => .nil, ?_⟩
    have hempty : (started queueCapacity descriptorCount sectorCount).busySlots = ∅ :=
      Finset.eq_empty_iff_forall_notMem.mpr fun i hi => (mem_busySlots.mp hi).2 rfl
    rw [hempty]
    rfl
  | @called s call _ ih =>
    cases call with
    | submit platform type sector buffer byteCount generation =>
      have hspec := @submit_spec s platform type sector byteCount generation buffer ih
      exact of_wp (wp_mono hspec (fun _ _ hu => hu.consistent) fun _ _ hu => hu)
    | service view => exact of_wp (wp_mono (pciService_spec ih) (fun _ _ hu => hu.1.consistent) fun _ _ hu => hu.1.consistent)
    | poll requestId view => exact poll_consistent ih
    | submitAndWait platform type sector buffer byteCount views => exact ih.submitAndWait

/-- Requests are neither lost nor duplicated, whatever the device shows: a published request completes once at most and while
    it waits, the device names no slot out of range, and the slots that are not free are counted. The slot of a wait is free
    when it returns if the device was honest at every poll, and only then. -/
theorem requests_conserved (h : VirtioRun s) :
    (∀ i l m, s.history = l ++ .published i :: m → .published i ∉ m → m.count (.completed i) ≤ 1) ∧
    (∀ i l m, s.history = l ++ .completed i :: m → (eventsOf i l).getLast? = some (.published i)) ∧
    (∀ i status u, virtioBlkComplete i status s = (.ok (), u) → (s.requests i).state = .available) ∧
    (∀ i identifier, s.usedSlot identifier = .ok i → i < s.queueCapacity ∧ i < virtioRequestLimit) ∧
    s.outstanding = ((Finset.range s.queueCapacity).filter fun i => (s.requests i).state ≠ .free).card ∧
    ∀ platform type sector buffer byteCount views i t,
      virtioBlkSubmit platform type sector buffer byteCount 0 s = (.ok i, t) →
      (((submitAndWait platform type sector buffer byteCount views s).2.requests i).state = .free ↔
        Answered i virtioTimeoutSpins views t) := by
  have hconsistent := consistent_of_run h
  have hsplit : ∀ {i : Nat} {l m : List VirtioEvent} {e : VirtioEvent}, e.slot = i → s.history = l ++ e :: m →
      Lifecycle i (eventsOf i l ++ e :: eventsOf i m) (s.requests i).state := by
    intro i l m e he hhistory
    have hlife := hconsistent.lifecycle i
    rw [hhistory] at hlife
    have hcons : eventsOf i (e :: m) = e :: eventsOf i m := List.filter_cons_of_pos (decide_eq_true he)
    rw [← hcons]
    unfold eventsOf at hlife ⊢
    rwa [List.filter_append] at hlife
  refine ⟨fun i l m hhistory hm => ?_, fun i l m hhistory => ?_, fun i status u hu => ?_, fun i identifier hi => ?_,
    hconsistent.outstanding, fun platform type sector buffer byteCount views i t hsubmit => ?_⟩
  · have hcount := (hsplit rfl hhistory).count_completed fun hx => hm (List.mem_of_mem_filter hx)
    have hfilter : (eventsOf i m).count (.completed i) = m.count (.completed i) := List.count_filter (decide_eq_true rfl)
    exact hfilter ▸ hcount
  · have hlife := hsplit rfl hhistory
    rw [List.append_cons] at hlife
    obtain ⟨state, hstate⟩ := hlife.of_append
    rcases hstate.last with ⟨hx, -⟩ | ⟨-, -, havailable⟩ | ⟨hx, -⟩
    · cases hx
    · exact havailable.getLast_of_available
    · cases hx
  · exact (wp_ok complete_spec hu).was
  · have hlt := ((usedSlot_ok hconsistent).mp hi).1
    exact ⟨hlt, Nat.lt_of_lt_of_le hlt hconsistent.limit⟩
  · have hsubmitted := wp_ok (submit_spec hconsistent) hsubmit
    unfold submitAndWait
    rw [bind_ok hsubmit]
    exact (waitLoop_spec hsubmitted.consistent hsubmitted.slot hsubmitted.available).2

def flatPlatform : VirtioPlatform := ⟨fun buffer _ => .ok (buffer.getD 0), fun i => 16 * i, fun i => 4096 + i⟩

def failedDevice : DeviceView := ⟨128, fun _ => ⟨0, fun _ => 0, fun _ => 0⟩⟩

theorem requests_conserved_started : (started 64 256 8).outstanding =
      ((Finset.range 64).filter fun i => ((started 64 256 8).requests i).state ≠ .free).card ∧
    (((submitAndWait flatPlatform virtioRequestFlush 0 none 0 (fun _ => failedDevice) (started 64 256 8)).2.requests 0).state = .free ↔
      Answered 0 virtioTimeoutSpins (fun _ => failedDevice) (virtioBlkSubmit flatPlatform virtioRequestFlush 0 none 0 0 (started 64 256 8)).2) := by
  have hrun : VirtioRun (started 64 256 8) := .started (by decide) (by decide) (by decide)
  have hconserved := requests_conserved hrun
  exact ⟨hconserved.2.2.2.2.1, hconserved.2.2.2.2.2 _ _ _ _ _ _ 0 _ rfl⟩

/-- A device that fails while a request waits: the wait returns, and the request stays available. -/
theorem lost_on_device_failure : ∃ s, VirtioRun s ∧ ∃ t u, virtioBlkSubmit flatPlatform virtioRequestFlush 0 none 0 0 s = (.ok 0, t) ∧
    submitAndWait flatPlatform virtioRequestFlush 0 none 0 (fun _ => failedDevice) s = (.error .io, u) ∧
    (u.requests 0).state = .available ∧ u.outstanding = 1 := by
  refine ⟨started 64 256 8, .started (by decide) (by decide) (by decide), _, _, rfl, rfl, ?_, ?_⟩
  · rfl
  · rfl

end VirtioBlk
end InferenceOS
