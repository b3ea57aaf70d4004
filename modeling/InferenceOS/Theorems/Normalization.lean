import InferenceOS.Theorems.PathStacks
import InferenceOS.Vfs.Normalize

/-! Path normalization on the bytes of its buffers. The loops over the bytes find the components of the path, and each write
    keeps the text of the stack in the buffer. -/

namespace InferenceOS
open Program Function Vfs

def bytesAt (memory : Nat → UInt8) (start : Nat) : Nat → Text
  | 0 => []
  | n + 1 => memory start :: bytesAt memory (start + 1) n

def Begins (memory : Nat → UInt8) (text : Text) : Prop := ∀ i (h : i < text.length), memory i = text[i]

def Spells (memory : Nat → UInt8) (text : Text) : Prop := Begins memory text ∧ memory text.length = 0

/-- The memory has the text and a zero behind it. -/
def IsCString (memory : Nat → UInt8) (text : Text) : Prop := Spells memory text ∧ 0 ∉ text

variable {memory : Nat → UInt8} {text : Text} {test : UInt8 → Bool} {start n k : Nat}

theorem length_bytesAt : (bytesAt memory start n).length = n := by
  induction n generalizing start with
  | zero => rfl
  | succ n ih => exact congrArg Nat.succ ih

theorem getElem_bytesAt {i : Nat} (h : i < (bytesAt memory start n).length) : (bytesAt memory start n)[i] = memory (start + i) := by
  induction n generalizing start i with
  | zero => exact absurd h (Nat.not_lt_zero i)
  | succ n ih =>
    cases i with
    | zero => rfl
    | succ i =>
      refine (ih (Nat.lt_of_succ_lt_succ h)).trans (congrArg memory ?_)
      omega

theorem bytesAt_succ : bytesAt memory start (n + 1) = bytesAt memory start n ++ [memory (start + n)] := by
  induction n generalizing start with
  | zero => rfl
  | succ n ih =>
    rw [bytesAt, ih, bytesAt, List.cons_append, Nat.add_right_comm, Nat.add_assoc]

theorem Begins.store (value : UInt8) (h : Begins memory text) : Begins (update memory text.length value) (text ++ [value]) := by
  intro i hi
  rw [List.length_append, List.length_singleton] at hi
  obtain rfl | hlt := Nat.eq_or_lt_of_le (Nat.le_of_lt_succ hi)
  · rw [update_self, List.getElem_append_right (Nat.le_refl _)]
    simp
  · rw [update_of_ne (Nat.ne_of_lt hlt), List.getElem_append_left hlt, h i hlt]

theorem Begins.close (h : Begins memory text) : Spells (update memory text.length 0) text := by
  refine ⟨fun i hi => ?_, update_self ..⟩
  rw [update_of_ne (Nat.ne_of_lt hi), h i hi]

theorem Begins.take (h : Begins memory text) : Begins memory (text.take k) := by
  intro i hi
  rw [List.length_take] at hi
  rw [List.getElem_take, h i (by omega)]

theorem Spells.bytesAt (h : Spells memory text) : bytesAt memory 0 text.length = text := by
  refine List.ext_getElem length_bytesAt fun i hi ht => ?_
  rw [getElem_bytesAt, Nat.zero_add, h.1 i ht]

theorem drop_bytesAt (h : k ≤ n) : (bytesAt memory start n).drop k = bytesAt memory (start + k) (n - k) := by
  induction k generalizing start n with
  | zero => rfl
  | succ k ih =>
    obtain ⟨n, rfl⟩ := Nat.exists_eq_succ_of_ne_zero (Nat.ne_zero_of_lt h)
    refine (ih (Nat.le_of_succ_le_succ h)).trans ?_
    rw [show start + 1 + k = start + (k + 1) by omega, show n - k = n.succ - (k + 1) by omega]

theorem bytesAt_shift : bytesAt (fun i => memory (k + i)) start n = bytesAt memory (k + start) n := by
  induction n generalizing start with
  | zero => rfl
  | succ n ih => exact congrArg (memory (k + start) :: ·) ih

theorem take_bytesAt (h : k ≤ n) : (bytesAt memory start n).take k = bytesAt memory start k := by
  induction k generalizing start n with
  | zero => rfl
  | succ k ih =>
    obtain ⟨n, rfl⟩ := Nat.exists_eq_succ_of_ne_zero (Nat.ne_zero_of_lt h)
    exact congrArg (memory start :: ·) (ih (Nat.le_of_succ_le_succ h))

namespace Normalizing

variable (memory test start n) in
theorem skip_eq : skip test memory n start = start + ((bytesAt memory start n).takeWhile test).length := by
  induction n generalizing start with
  | zero => rfl
  | succ n ih =>
    rw [skip, bytesAt, List.takeWhile_cons]
    split
    · rw [ih, List.length_cons]
      omega
    · rfl

variable (memory test start n) in
theorem dropWhile_bytesAt :
    (bytesAt memory start (n - start)).dropWhile test =
      bytesAt memory (skip test memory (n - start) start) (n - skip test memory (n - start) start) := by
  have hle := (List.takeWhile_prefix test (l := bytesAt memory start (n - start))).length_le
  rw [length_bytesAt] at hle
  rw [skip_eq, ← Nat.sub_sub, ← drop_bytesAt hle]
  conv_lhs => rw [← @List.drop_left _ ((bytesAt memory start (n - start)).takeWhile test)
    ((bytesAt memory start (n - start)).dropWhile test), List.takeWhile_append_dropWhile]

variable (memory test) in
theorem skip_le (h : start ≤ n) : start ≤ skip test memory (n - start) start ∧ skip test memory (n - start) start ≤ n := by
  have hle := (List.takeWhile_prefix test (l := bytesAt memory start (n - start))).length_le
  rw [length_bytesAt] at hle
  rw [skip_eq]
  omega

theorem lengthFrom_eq (h : IsCString memory text) : ∀ {rounds index : Nat}, index ≤ text.length →
    lengthFrom memory rounds index = if text.length < index + rounds then .ok text.length else .error .outOfRange
  | 0, index, hi => by
    rw [if_neg (by omega)]
    rfl
  | rounds + 1, index, hi => by
    rw [lengthFrom]
    obtain rfl | hlt := Nat.eq_or_lt_of_le hi
    · rw [if_pos h.1.2, if_pos (by omega)]
    · rw [if_neg, lengthFrom_eq h hlt, show index.succ + rounds = index + (rounds + 1) by omega]
      rw [h.1.1 index hlt]
      exact fun hz => h.2 (hz ▸ List.getElem_mem hlt)

theorem pathLength_eq (h : IsCString memory text) (hlen : text.length ≤ pathMax) : pathLength memory = .ok text.length := by
  rw [pathLength, lengthFrom_eq h (Nat.zero_le _), if_pos (by omega)]

/-- Nothing was written from the capacity on. -/
def Within (capacity : Nat) (b b' : PathBuffer) : Prop :=
  (∀ i ∈ b'.stored, i ∈ b.stored ∨ i < capacity) ∧ ∀ i, capacity ≤ i → b'.bytes i = b.bytes i

variable {capacity : Nat}

instance : Std.Refl (Within capacity) := ⟨fun _ => ⟨fun _ hi => .inl hi, fun _ _ => rfl⟩⟩

instance : IsTrans PathBuffer (Within capacity) := ⟨fun _ _ _ h h' =>
  ⟨fun i hi => (h'.1 i hi).elim (h.1 i) .inr, fun i hi => (h'.2 i hi).trans (h.2 i hi)⟩⟩

theorem store_within {offset : Nat} {value : UInt8} (h : offset < capacity) : Keeps (Within capacity) (store offset value) := by
  refine keeps_modify fun b => ⟨fun i hi => ?_, fun i hi => update_of_ne (by omega) _ _⟩
  obtain rfl | hi := List.mem_cons.mp hi
  · exact .inr h
  · exact .inl hi

/-- The buffer holds the text of a stack and the offsets of its components. -/
structure Holds (capacity : Nat) (b : PathBuffer) (stack : List Text) : Prop where
  length : b.outputLength = (rendered (ascii '/') stack).length
  starts : b.starts = (normalOf stack).starts
  spelled : Spells b.bytes (rendered (ascii '/') stack)
  room : (rendered (ascii '/') stack).length < capacity
  segment : ∀ c ∈ stack, IsSegment (ascii '/') c

variable {b : PathBuffer} {stack : List Text} {component : Nat → UInt8} {c : Text} {length : Nat}

variable (capacity component) in
theorem copy_spec (hb : Begins b.bytes text) (hroom : text.length + n ≤ capacity) :
    wp (each (fun index => store (text.length + index) (component index)) (List.range n))
      (fun _ b' => Begins b'.bytes (text ++ bytesAt component 0 n) ∧ b'.starts = b.starts ∧ Within capacity b b') (fun _ _ => False) b := by
  induction n with
  | zero =>
    refine wp_each_nil.mpr ⟨?_, rfl, Std.Refl.refl b⟩
    rwa [bytesAt, List.append_nil]
  | succ n ih =>
    rw [List.range_succ, wp_each_append]
    refine wp_mono (ih (by omega)) (fun _ b' hb' => ?_) fun _ _ h => h
    obtain ⟨hbegins, hstarts, hwithin⟩ := hb'
    rw [wp_each_cons]
    refine ⟨?_, hstarts, IsTrans.trans _ _ _ hwithin (store_within (by omega) b')⟩
    have hnext := hbegins.store (component n)
    rw [List.length_append, length_bytesAt] at hnext
    rwa [bytesAt_succ, Nat.zero_add, ← List.append_assoc]

theorem bytesAt_eq_dot : bytesAt component 0 length = [ascii '.'] ↔ length = 1 ∧ component 0 = ascii '.' := by
  constructor
  · intro h
    obtain rfl : length = 1 := by
      have hlen := congrArg List.length h
      rwa [length_bytesAt] at hlen
    exact ⟨rfl, List.singleton_inj.mp h⟩
  · rintro ⟨rfl, h⟩
    exact congrArg (fun byte => [byte]) h

theorem bytesAt_eq_dots : bytesAt component 0 length = [ascii '.', ascii '.'] ↔
    length = 2 ∧ component 0 = ascii '.' ∧ component 1 = ascii '.' := by
  constructor
  · intro h
    obtain rfl : length = 2 := by
      have hlen := congrArg List.length h
      rwa [length_bytesAt] at hlen
    obtain ⟨h₀, h₁⟩ := List.cons_eq_cons.mp h
    exact ⟨rfl, h₀, List.singleton_inj.mp h₁⟩
  · rintro ⟨rfl, h₀, h₁⟩
    show [component 0, component 1] = _
    rw [h₀, h₁]

theorem any_bytesAt : (bytesAt component 0 length).any invalidPathByte = true ↔
    ∃ index < length, invalidPathByte (component index) = true := by
  rw [List.any_eq_true]
  constructor
  · rintro ⟨byte, hmem, hbad⟩
    obtain ⟨index, hlt, rfl⟩ := List.getElem_of_mem hmem
    rw [getElem_bytesAt, Nat.zero_add] at hbad
    exact ⟨index, hlt.trans_eq length_bytesAt, hbad⟩
  · rintro ⟨index, hlt, hbad⟩
    refine ⟨component index, ?_, hbad⟩
    have hmem := List.getElem_mem (l := bytesAt component 0 length) (n := index) (by rwa [length_bytesAt])
    rwa [getElem_bytesAt, Nat.zero_add] at hmem

theorem write_spec (h : Holds capacity b stack) (hc : IsSegment (ascii '/') (bytesAt component 0 length))
    (hroom : (rendered (ascii '/') (stack ++ [bytesAt component 0 length])).length < capacity) {outputLength : Nat}
    (hout : outputLength = (if (rendered (ascii '/') stack).length ≠ 1 then (rendered (ascii '/') stack).length + 1
      else (rendered (ascii '/') stack).length)) :
    wp (write component (rendered (ascii '/') stack).length outputLength length)
      (fun _ b' => Holds capacity b' (stack ++ [bytesAt component 0 length]) ∧ Within capacity b b') (fun _ _ => False) b := by
  have hpush := rendered_push (c := bytesAt component 0 length) h.segment
  have hlen := length_rendered_push (c := bytesAt component 0 length) h.segment
  rw [← hout, length_bytesAt] at hlen
  unfold write
  rw [wp_bind, wp_modify, wp_bind]
  have hsep : wp (separate (rendered (ascii '/') stack).length)
      (fun _ b' => Begins b'.bytes (rendered (ascii '/') stack ++
          (if (rendered (ascii '/') stack).length ≠ 1 then [ascii '/'] else [])) ∧
        b'.starts = b.starts ++ [(rendered (ascii '/') stack).length] ∧ Within capacity b b') (fun _ _ => False)
      { b with starts := b.starts ++ [(rendered (ascii '/') stack).length] } := by
    unfold separate
    split
    · exact ⟨h.spelled.1.store _, rfl, store_within h.room b⟩
    · rw [List.append_nil]
      exact ⟨h.spelled.1, rfl, (Std.Refl.refl b : Within capacity b b)⟩
  refine wp_mono hsep (fun _ b₁ h₁ => ?_) fun _ _ h => h
  obtain ⟨hbegins, hstarts, hwithin⟩ := h₁
  have hat : (rendered (ascii '/') stack ++ (if (rendered (ascii '/') stack).length ≠ 1 then [ascii '/'] else [])).length = outputLength := by
    rw [hout, List.length_append]
    split <;> rfl
  have hcopy := copy_spec capacity component (n := length) hbegins (by omega)
  rw [hat] at hcopy
  rw [wp_bind]
  refine wp_mono hcopy (fun _ b₂ h₂ => ?_) fun _ _ h => h
  obtain ⟨hcopied, hstarts₂, hwithin₂⟩ := h₂
  rw [hpush] at hcopied
  rw [wp_bind, wp_modify, hlen]
  refine ⟨⟨rfl, ?_, hcopied.close, hroom, fun d hd => ?_⟩, IsTrans.trans _ _ _ (IsTrans.trans _ _ _ hwithin hwithin₂) (store_within hroom _)⟩
  · exact hstarts₂.trans (hstarts.trans (by rw [h.starts, starts_snoc]))
  · obtain hd | hd := List.mem_append.mp hd
    · exact h.segment d hd
    · rw [List.mem_singleton.mp hd]
      exact hc

theorem appendComponent_spec (h : Holds capacity b stack) (hc : IsSegment (ascii '/') (bytesAt component 0 length)) :
    wp (appendComponent component length capacity)
      (fun _ b' => Vfs.Enters capacity stack (bytesAt component 0 length) ∧
        Holds capacity b' (entered stack (bytesAt component 0 length)) ∧ Within capacity b b')
      (fun _ b' => ¬Vfs.Enters capacity stack (bytesAt component 0 length) ∧ Within capacity b b') b := by
  unfold appendComponent entered
  by_cases hdot : bytesAt component 0 length = [ascii '.']
  · rw [if_pos (bytesAt_eq_dot.mp hdot), if_pos hdot]
    exact ⟨fun hp => absurd hdot hp.1, h, Std.Refl.refl b⟩
  rw [if_neg (fun hno => hdot (bytesAt_eq_dot.mpr hno)), if_neg hdot]
  by_cases hup : bytesAt component 0 length = [ascii '.', ascii '.']
  · rw [if_pos (bytesAt_eq_dots.mp hup), if_pos hup, wp_bind, wp_get, h.starts]
    have henter : Vfs.Enters capacity stack (bytesAt component 0 length) := fun hp => absurd hup hp.2
    induction stack using List.reverseRecOn with
    | nil => exact ⟨henter, h, Std.Refl.refl b⟩
    | append_singleton before d _ =>
      have hlast : (rendered (ascii '/') before).length < (rendered (ascii '/') (before ++ [d])).length :=
        mem_starts (fun e he => (h.segment e he).1) (by rw [starts_snoc]; simp)
      rw [starts_snoc, List.getLast?_concat, List.dropLast_concat]
      refine ⟨henter, ⟨rfl, ?_, ?_, hlast.trans h.room, fun e he => h.segment e (by simp [he])⟩,
        store_within (hlast.trans h.room) _⟩
      · show b.starts.dropLast = _
        rw [h.starts, starts_snoc, List.dropLast_concat]
      · have hbegins := h.spelled.1.take (k := (rendered (ascii '/') before).length)
        rw [take_rendered_snoc] at hbegins
        exact hbegins.close
  have hchecks := enters_pushed capacity h.segment ⟨hdot, hup⟩
  rw [length_bytesAt] at hchecks
  rw [if_neg (fun hno => hup (bytesAt_eq_dots.mpr hno)), if_neg hup, wp_bind, wp_get, wp_bind, wp_failIf, h.starts, h.length,
    length_starts]
  refine ⟨fun hdepth => ⟨fun he => (hchecks.mp he).1 hdepth, Std.Refl.refl b⟩, fun hdepth => ?_⟩
  rw [wp_bind, wp_failIf]
  refine ⟨fun hbad => ⟨fun he => (hchecks.mp he).2.1 (any_bytesAt.mpr hbad), Std.Refl.refl b⟩, fun hbad => ?_⟩
  rw [wp_bind, wp_failIf]
  refine ⟨fun hroom => ⟨fun he => (hchecks.mp he).2.2 hroom, Std.Refl.refl b⟩, fun hroom => ?_⟩
  have he := hchecks.mpr ⟨hdepth, fun hno => hbad (any_bytesAt.mp hno), hroom⟩
  have hfits := (he ⟨hdot, hup⟩).2.2
  have hpos := length_rendered_pos (ascii '/') (stack ++ [bytesAt component 0 length])
  exact wp_mono (write_spec h hc (by omega) rfl) (fun _ b' hb' => ⟨he, hb'⟩) fun _ _ h => h.elim

theorem consumeFrom_spec (path : Nat → UInt8) : ∀ {rounds cursor : Nat} {stack : List Text} {b : PathBuffer},
    length - cursor ≤ rounds → cursor ≤ length → Holds capacity b stack → Vfs.Fits capacity stack →
    wp (consumeFrom path length capacity rounds cursor)
      (fun _ b' => Vfs.Acceptable capacity stack (segments (ascii '/') (bytesAt path cursor (length - cursor))) ∧
        Holds capacity b' ((segments (ascii '/') (bytesAt path cursor (length - cursor))).foldl entered stack) ∧
        Within capacity b b')
      (fun _ b' => ¬Vfs.Acceptable capacity stack (segments (ascii '/') (bytesAt path cursor (length - cursor))) ∧
        Within capacity b b') b
  | 0, cursor, stack, b, hrounds, hle, h, hfits => by
    rw [show length - cursor = 0 by omega]
    exact ⟨acceptable_nil hfits, h, Std.Refl.refl b⟩
  | rounds + 1, cursor, stack, b, hrounds, hle, h, hfits => by
    unfold consumeFrom
    split
    · rename_i hlt
      dsimp only
      rw [← segments_dropWhile, dropWhile_bytesAt]
      have hfirst := skip_le path (· = ascii '/') hle
      have hhead : ((bytesAt path cursor (length - cursor)).dropWhile (· = ascii '/')).head? ≠ some (ascii '/') := by
        intro hhead
        have hno := List.head?_dropWhile_not (· = ascii '/') (bytesAt path cursor (length - cursor))
        rw [hhead] at hno
        simp at hno
      rw [dropWhile_bytesAt] at hhead
      generalize skip (· = ascii '/') path (length - cursor) cursor = first at hfirst hhead ⊢
      have hlast := skip_le path (· ≠ ascii '/') hfirst.2
      have hbehind := dropWhile_bytesAt path (· ≠ ascii '/') first length
      have hword := skip_eq path (· ≠ ascii '/') first (length - first)
      generalize skip (· ≠ ascii '/') path (length - first) first = last at hlast hbehind hword ⊢
      have hcomponent : bytesAt (fun i => path (first + i)) 0 (last - first) =
          (bytesAt path first (length - first)).takeWhile (· ≠ ascii '/') := by
        rw [bytesAt_shift, Nat.add_zero, List.prefix_iff_eq_take.mp (List.takeWhile_prefix _), take_bytesAt (by omega), hword,
          Nat.add_sub_cancel_left]
      have hlen := @length_bytesAt path first (length - first)
      generalize bytesAt path first (length - first) = rest at hhead hbehind hword hcomponent hlen ⊢
      split
      · -- a component: its bytes, then what stands behind them
        rename_i hne
        have hrest : rest ≠ [] := fun hnil => hne (by rw [hword, hnil, List.takeWhile_nil, List.length_nil, Nat.add_zero])
        obtain ⟨hsegment, hsegments⟩ := segments_scan hhead hrest
        rw [hbehind, ← hcomponent] at hsegments
        rw [hsegments, List.foldl_cons, acceptable_cons hfits, wp_bind]
        refine wp_mono (appendComponent_spec h (hcomponent ▸ hsegment)) (fun _ b' hb' => ?_)
          fun _ b' hb' => ⟨fun hall => hb'.1 hall.1, hb'.2⟩
        obtain ⟨henter, hholds, hwithin⟩ := hb'
        refine wp_mono (consumeFrom_spec path (by omega) hlast.2 hholds ((enters_iff hfits).mp henter).2) (fun _ b₂ hb₂ => ?_)
          fun _ b₂ hb₂ => ⟨fun hall => hb₂.1 hall.2, IsTrans.trans _ _ _ hwithin hb₂.2⟩
        exact ⟨⟨henter, hb₂.1⟩, hb₂.2.1, IsTrans.trans _ _ _ hwithin hb₂.2.2⟩
      · -- the path ends in separators
        rename_i heq
        cases rest with
        | nil =>
          have hend : length - last = 0 := by
            rw [List.length_nil] at hlen
            omega
          have ih := @consumeFrom_spec path rounds last stack b (by omega) hlast.2 h hfits
          rwa [hend] at ih
        | cons a l =>
          have ha : a ≠ ascii '/' := fun ha => hhead (by rw [ha]; rfl)
          rw [List.takeWhile_cons_of_pos (by simpa using ha), List.length_cons] at hword
          omega
    · rw [show length - cursor = 0 by omega]
      exact ⟨acceptable_nil hfits, h, Std.Refl.refl b⟩

section Normalize
variable {current path : Nat → UInt8} {c p : Text}

theorem consumePath_spec (hp : Spells path p) (h : Holds capacity b stack) (hfits : Vfs.Fits capacity stack) :
    wp (consumePath path p.length capacity)
      (fun _ b' => Vfs.Acceptable capacity stack (segments (ascii '/') p) ∧
        Holds capacity b' ((segments (ascii '/') p).foldl entered stack) ∧ Within capacity b b')
      (fun _ b' => ¬Vfs.Acceptable capacity stack (segments (ascii '/') p) ∧ Within capacity b b') b := by
  have hspec := consumeFrom_spec path (Nat.le_refl (p.length - 0)) (Nat.zero_le _) h hfits
  rwa [Nat.sub_zero, hp.bytesAt] at hspec

theorem consume_spec (hc : Spells current c) (hp : Spells path p) (hne : p ≠ []) (h : Holds capacity b []) (hfits : Vfs.Fits capacity []) :
    wp (do
        if path 0 ≠ ascii '/' then consumePath current c.length capacity else pure ()
        consumePath path p.length capacity)
      (fun _ b' => Vfs.Acceptable capacity [] (given c p) ∧ Holds capacity b' ((given c p).foldl entered []) ∧ Within capacity b b')
      (fun _ b' => ¬Vfs.Acceptable capacity [] (given c p) ∧ Within capacity b b') b := by
  have hhead : p.head? = some (path 0) := by
    rw [hp.1 0 (List.length_pos_iff.mpr hne)]
    exact List.head?_eq_getElem? .. |>.trans (List.getElem?_eq_getElem _)
  unfold given
  rw [hhead]
  split
  · rename_i hrel
    rw [if_neg (fun hno => hrel (Option.some.inj hno)), wp_bind]
    refine wp_mono (consumePath_spec hc h hfits) (fun _ b₁ h₁ => ?_) fun _ b₁ h₁ => ⟨fun hall => h₁.1 ((acceptable_append hfits).mp hall).1, h₁.2⟩
    obtain ⟨hacc, hholds, hwithin⟩ := h₁
    rw [acceptable_append hfits, List.foldl_append]
    exact wp_mono (consumePath_spec hp hholds hacc.fits)
      (fun _ b₂ h₂ => ⟨⟨hacc, h₂.1⟩, h₂.2.1, IsTrans.trans _ _ _ hwithin h₂.2.2⟩)
      fun _ b₂ h₂ => ⟨fun hall => h₂.1 hall.2, IsTrans.trans _ _ _ hwithin h₂.2⟩
  · rename_i habs
    rw [if_pos (congrArg some (Decidable.not_not.mp habs)), List.nil_append]
    exact consumePath_spec hp h hfits

theorem zero_notMem_reached (h : Vfs.Acceptable capacity [] (given c p)) : 0 ∉ reference c p := by
  have hall := mem_reached (mem_given c p) h
  unfold reference rendered
  split
  · decide
  · intro hz
    obtain ⟨d, hd, hz⟩ := List.mem_flatMap.mp hz
    obtain hz | hz := List.mem_cons.mp hz
    · exact absurd hz (by decide)
    · exact absurd ((hall d hd).2.2 0 hz) (by decide)

variable (capacity b) in
theorem vfsPathNormalize_spec (hc : IsCString current c) (hp : IsCString path p) (hcl : c.length ≤ pathMax) (hpl : p.length ≤ pathMax)
    (hslash : c.head? = some (ascii '/')) :
    wp (vfsPathNormalize (some current) (some path) capacity)
      (fun _ b' => (p ≠ [] ∧ Vfs.Acceptable capacity [] (given c p)) ∧ IsCString b'.bytes (reference c p) ∧ Within capacity b b')
      (fun _ b' => ¬(p ≠ [] ∧ Vfs.Acceptable capacity [] (given c p)) ∧ (0 < capacity → b'.bytes 0 = 0) ∧ Within capacity b b') b := by
  have hfirst : current 0 = ascii '/' := by
    cases c with
    | nil => cases hslash
    | cons a l => exact (hc.1.1 0 (Nat.zero_lt_succ _)).trans (Option.some.inj hslash)
  unfold vfsPathNormalize
  rw [wp_bind, wp_failIf]
  refine ⟨fun hzero => ⟨fun hall => by have := hall.2.two_le; omega, fun hpos => by omega, Std.Refl.refl b⟩, fun hzero => ?_⟩
  rw [wp_bind]
  refine wp_mono (Q := fun _ b' => b'.bytes 0 = 0 ∧ Within capacity b b') (E := fun _ _ => False)
    ⟨update_self 0 0 b.bytes, store_within (by omega) b⟩ (fun _ b₁ h₁ => ?_) fun _ _ h => h.elim
  dsimp only
  rw [wp_bind, wp_failIf]
  refine ⟨fun hno => absurd hfirst hno, fun _ => ?_⟩
  rw [pathLength_eq hc hcl, ofExcept_ok_bind, pathLength_eq hp hpl, ofExcept_ok_bind, wp_bind, wp_failIf]
  refine ⟨fun hbad => ⟨fun hall => ?_, fun _ => h₁.1, h₁.2⟩, fun hgood => ?_⟩
  · have := hall.2.two_le
    have := List.length_pos_iff.mpr hall.1
    omega
  have hne : p ≠ [] := fun hnil => hgood (.inl (by rw [hnil]; rfl))
  have hcap : 2 ≤ capacity := by omega
  rw [wp_bind, wp_modify, wp_bind]
  refine wp_mono (Q := fun _ b₂ => Begins b₂.bytes [ascii '/'] ∧ b₂.outputLength = 1 ∧ b₂.starts = [] ∧ Within capacity b b₂)
    (E := fun _ _ => False) ⟨fun i hi => ?_, rfl, rfl, IsTrans.trans _ _ _ h₁.2 (store_within (by omega) b₁)⟩
    (fun _ b₂ h₂ => ?_) fun _ _ h => h.elim
  · obtain rfl : i = 0 := by
      rw [List.length_singleton] at hi
      omega
    exact update_self 0 _ b₁.bytes
  obtain ⟨hbegins, hout, hstarts, hwithin⟩ := h₂
  rw [wp_bind]
  refine wp_mono (Q := fun _ b₃ => Holds capacity b₃ [] ∧ Within capacity b b₃) (E := fun _ _ => False)
    ⟨⟨hout, hstarts, hbegins.close, hcap, fun d hd => (nomatch hd)⟩, IsTrans.trans _ _ _ hwithin (store_within (by omega) b₂)⟩
    (fun _ b₃ h₃ => ?_) fun _ _ h => h.elim
  have hfits : Vfs.Fits capacity [] := by
    refine ⟨Nat.zero_le _, ?_⟩
    rw [rendered_nil, List.length_singleton]
    omega
  rw [wp_bind, wp_attempt]
  refine wp_mono (consume_spec hc.1 hp.1 hne h₃.1 hfits) (fun _ b₄ h₄ => ?_) fun e b₄ h₄ => ?_
  · obtain ⟨hall, hholds, hwithin₄⟩ := h₄
    exact ⟨⟨hne, hall⟩, ⟨hholds.spelled, zero_notMem_reached hall⟩, IsTrans.trans _ _ _ h₃.2 hwithin₄⟩
  · obtain ⟨hno, hwithin₄⟩ := h₄
    exact ⟨fun hall => hno hall.2, fun _ => update_self 0 0 b₄.bytes,
      IsTrans.trans _ _ _ (IsTrans.trans _ _ _ h₃.2 hwithin₄) (store_within (by omega) b₄)⟩

theorem acceptable_reference (h : Vfs.Acceptable capacity [] (given c p)) {capacity' : Nat}
    (hroom : (reference c p).length < capacity') {d : Text} :
    reference c p ≠ [] ∧ Vfs.Acceptable capacity' [] (given d (reference c p)) ∧
      reference d (reference c p) = reference c p := by
  have hall := mem_reached (mem_given c p) h
  have hfits := h.fits
  have hhead : (reference c p).head? = some (ascii '/') := by
    unfold reference rendered
    split
    · rfl
    · rename_i hne
      obtain ⟨e, rest, he⟩ := List.exists_cons_of_ne_nil hne
      rw [he]
      rfl
  have hgiven : given d (reference c p) = (given c p).foldl entered [] := by
    unfold given
    rw [if_pos hhead, List.nil_append]
    exact segments_rendered fun e he => (hall e he).1
  refine ⟨fun hnil => ?_, ?_, ?_⟩
  · rw [hnil] at hhead
    cases hhead
  · rw [hgiven]
    unfold reference at hroom
    exact acceptable_stack (fun e he => (hall e he).2) ⟨hfits.1, by have := hfits.2; omega⟩
  · rw [reference, hgiven, foldl_pushed fun e he => (hall e he).2.1]
    rfl

variable (capacity b) in
/-- The normalization gives the path of the stack semantics when the path is not empty and all its stacks fit; that path is its
    own normal form. Otherwise it fails and leaves an empty text. It writes below the capacity only. -/
theorem vfsPathNormalize_reference (hc : IsCString current c) (hp : IsCString path p) (hcl : c.length ≤ pathMax)
    (hpl : p.length ≤ pathMax) (hslash : c.head? = some (ascii '/')) :
    let r := vfsPathNormalize (some current) (some path) capacity b
    (p ≠ [] ∧ Vfs.Acceptable capacity [] (given c p) → r.1 = .ok () ∧ IsCString r.2.bytes (reference c p) ∧
      ∀ (directory : Nat → UInt8) (d : Text) (capacity' : Nat) (b' : PathBuffer), IsCString directory d → d.length ≤ pathMax →
        d.head? = some (ascii '/') → (reference c p).length < capacity' →
        (vfsPathNormalize (some directory) (some r.2.bytes) capacity' b').1 = .ok () ∧
          IsCString (vfsPathNormalize (some directory) (some r.2.bytes) capacity' b').2.bytes (reference c p)) ∧
      (¬(p ≠ [] ∧ Vfs.Acceptable capacity [] (given c p)) →
        (∃ e, r.1 = .error e) ∧ (0 < capacity → IsCString r.2.bytes [])) ∧
      Within capacity b r.2 := by
  have hspec := vfsPathNormalize_spec capacity b hc hp hcl hpl hslash
  dsimp only
  rcases hr : vfsPathNormalize (some current) (some path) capacity b with ⟨e | u, b'⟩
  · obtain ⟨hno, hempty, hwithin⟩ := wp_error hspec hr
    refine ⟨fun hyes => absurd hyes hno, fun _ => ⟨⟨e, rfl⟩, fun hpos => ?_⟩, hwithin⟩
    exact ⟨⟨fun i hi => absurd hi (Nat.not_lt_zero i), hempty hpos⟩, List.not_mem_nil⟩
  · obtain ⟨hyes, hout, hwithin⟩ := wp_ok hspec hr
    refine ⟨fun _ => ⟨rfl, hout, fun directory d capacity' b₂ hd hdl hds hroom => ?_⟩, fun hno => absurd hyes hno, hwithin⟩
    obtain ⟨hne, hacc, hsame⟩ := acceptable_reference hyes.2 hroom (d := d)
    have hlen : (reference c p).length ≤ pathMax := by
      have := hyes.2.fits.2
      unfold reference pathMax
      omega
    have hagain := vfsPathNormalize_spec capacity' b₂ hd hout hdl hlen hds
    rcases hr₂ : vfsPathNormalize (some directory) (some b'.bytes) capacity' b₂ with ⟨e | u, b₃⟩
    · exact absurd ⟨hne, hacc⟩ (wp_error hagain hr₂).1
    · have hfixed := (wp_ok hagain hr₂).2.1
      rw [hsame] at hfixed
      exact ⟨rfl, hfixed⟩

end Normalize

def textMemory (text : Text) (i : Nat) : UInt8 := text.getD i 0

theorem textMemory_isCString {text : Text} (h : 0 ∉ text) : IsCString (textMemory text) text := by
  refine ⟨⟨fun i hi => ?_, ?_⟩, h⟩
  · simp [textMemory, hi]
  · simp [textMemory]

/-- An empty path is refused where the stack semantics gives the current directory. -/
theorem empty_path_refused :
    let slash := [ascii '/']
    IsCString (textMemory slash) slash ∧ IsCString (textMemory []) [] ∧ Vfs.Acceptable 256 [] (given slash []) ∧
      reference slash [] = slash ∧
      (vfsPathNormalize (some (textMemory slash)) (some (textMemory [])) 256 ⟨fun _ => 1, 0, [], []⟩).1 = .error .invalidArgument := by
  have hcurrent : pathLength (textMemory [ascii '/']) = .ok 1 := by decide
  have hpath : pathLength (textMemory []) = .ok 0 := by decide
  refine ⟨textMemory_isCString (by decide), textMemory_isCString List.not_mem_nil, ?_, by decide, ?_⟩
  · exact acceptable_nil ⟨by decide, by decide⟩
  · rw [vfsPathNormalize, failIf_pass (by decide)]
    dsimp only
    rw [failIf_pass (by decide), hcurrent, hpath, ofExcept_ok_bind, ofExcept_ok_bind, failIf_bind (Or.inl rfl)]
    rfl

/-- `/a/../b` from the root. -/
theorem vfsPathNormalize_reference_parent :
    let p := [ascii '/', ascii 'a', ascii '/', ascii '.', ascii '.', ascii '/', ascii 'b']
    let r := vfsPathNormalize (some (textMemory [ascii '/'])) (some (textMemory p)) 3 ⟨fun _ => 1, 0, [], []⟩
    r.1 = .ok () ∧ IsCString r.2.bytes [ascii '/', ascii 'b'] := by
  have h := vfsPathNormalize_reference 3 ⟨fun _ => 1, 0, [], []⟩ (textMemory_isCString (by decide : 0 ∉ [ascii '/']))
    (textMemory_isCString (by decide : 0 ∉ [ascii '/', ascii 'a', ascii '/', ascii '.', ascii '.', ascii '/', ascii 'b'])) (by decide) (by decide) rfl
  have hall : Vfs.Acceptable 3 [] (given [ascii '/'] [ascii '/', ascii 'a', ascii '/', ascii '.', ascii '.', ascii '/', ascii 'b']) := by
    have hgiven : given [ascii '/'] [ascii '/', ascii 'a', ascii '/', ascii '.', ascii '.', ascii '/', ascii 'b'] =
        [[ascii 'a'], [ascii '.', ascii '.'], [ascii 'b']] := by decide
    have hvisited : visited [] [[ascii 'a'], [ascii '.', ascii '.'], [ascii 'b']] =
        [[], [[ascii 'a']], [], [[ascii 'b']]] := by decide
    rw [hgiven]
    refine ⟨fun c hc hpushed => ?_, fun next hnext => ?_⟩
    · simp only [List.mem_cons, List.not_mem_nil, or_false] at hc
      rcases hc with rfl | rfl | rfl
      · exact List.forall_mem_singleton.mpr (by decide)
      · exact absurd rfl hpushed.2
      · exact List.forall_mem_singleton.mpr (by decide)
    · rw [hvisited] at hnext
      simp only [List.mem_cons, List.not_mem_nil, or_false] at hnext
      rcases hnext with rfl | rfl | rfl | rfl <;> exact ⟨by decide, by decide⟩
  obtain ⟨hok, hout, -⟩ := h.1 ⟨by decide, hall⟩
  exact ⟨hok, hout⟩

end Normalizing
end InferenceOS
