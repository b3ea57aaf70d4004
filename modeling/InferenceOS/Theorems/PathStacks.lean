import InferenceOS.Lib.Segments
import InferenceOS.Vfs.Path

/-! The stack of components that a path stands for. The code keeps the text of the stack and the offset of each component
    in it; an offset is the length of the text below the component. -/

namespace InferenceOS

namespace Vfs

/-- The stack after a component: `.` stays, `..` leaves the last component and anything else is entered. -/
def entered (stack : List Text) (component : Text) : List Text :=
  if component = [ascii '.'] then stack
  else if component = [ascii '.', ascii '.'] then stack.dropLast
  else stack ++ [component]

def visited (stack : List Text) : List Text → List (List Text)
  | [] => [stack]
  | component :: rest => stack :: visited (entered stack component) rest

/-- The path of the stack is short enough. -/
def Fits (capacity : Nat) (stack : List Text) : Prop :=
  stack.length ≤ 15 ∧ (rendered (ascii '/') stack).length ≤ min 255 (capacity - 1)

def Pushed (component : Text) : Prop := component ≠ [ascii '.'] ∧ component ≠ [ascii '.', ascii '.']

def Printable (component : Text) : Prop := ∀ b ∈ component, invalidPathByte b = false

/-- All components are printable, and every stack on the way fits. -/
def Acceptable (capacity : Nat) (stack components : List Text) : Prop :=
  (∀ c ∈ components, Pushed c → Printable c) ∧ ∀ next ∈ visited stack components, Fits capacity next

def given (current path : Text) : List Text :=
  (if path.head? = some (ascii '/') then [] else segments (ascii '/') current) ++ segments (ascii '/') path

/-- The path that the stack semantics gives. -/
def reference (current path : Text) : Text := rendered (ascii '/') ((given current path).foldl entered [])

def normalOf (stack : List Text) : NormalPath :=
  ⟨rendered (ascii '/') stack, (List.range stack.length).map fun i => (rendered (ascii '/') (stack.take i)).length⟩

variable {capacity : Nat} {stack before : List Text} {c : Text} {components : List Text}

theorem normalOf_text : (normalOf stack).text = rendered (ascii '/') stack := rfl

theorem normalOf_starts : (normalOf stack).starts =
    (List.range stack.length).map fun i => (rendered (ascii '/') (stack.take i)).length := rfl

theorem length_starts : (normalOf stack).starts.length = stack.length := by
  rw [normalOf, List.length_map, List.length_range]

theorem starts_snoc : (normalOf (before ++ [c])).starts = (normalOf before).starts ++ [(rendered (ascii '/') before).length] := by
  rw [normalOf_starts, normalOf_starts, List.length_append, List.length_singleton, List.range_succ, List.map_append,
    List.map_singleton, List.take_left]
  congr 1
  refine List.map_congr_left fun i hi => ?_
  rw [List.take_append_of_le_length (List.mem_range.mp hi).le]

theorem mem_starts {start : Nat} (hne : ∀ c ∈ stack, c ≠ []) (h : start ∈ (normalOf stack).starts) :
    start < (rendered (ascii '/') stack).length := by
  induction stack using List.reverseRecOn with
  | nil => exact absurd h List.not_mem_nil
  | append_singleton before c ih =>
    have hc := List.length_pos_iff.mpr (hne c (by simp))
    rw [starts_snoc, List.mem_append, List.mem_singleton] at h
    rw [length_rendered_snoc]
    obtain h | rfl := h
    · have hlt := ih (fun d hd => hne d (by simp [hd])) h
      obtain rfl | hnil := Decidable.em (before = [])
      · exact absurd h List.not_mem_nil
      · rw [if_neg hnil]
        omega
    · obtain rfl | hnil := Decidable.em (before = [])
      · rw [if_pos rfl, rendered_nil, List.length_singleton]
        omega
      · rw [if_neg hnil]
        omega

theorem take_rendered_snoc : (rendered (ascii '/') (before ++ [c])).take (rendered (ascii '/') before).length = rendered (ascii '/') before := by
  rw [rendered_snoc]
  obtain rfl | hnil := Decidable.em (before = [])
  · rfl
  · rw [if_neg hnil, List.take_left]

def Enters (capacity : Nat) (stack : List Text) (c : Text) : Prop := Pushed c → Printable c ∧ Fits capacity (stack ++ [c])

variable (capacity) in
theorem enters_pushed (hs : ∀ c ∈ stack, IsSegment (ascii '/') c) (hp : Pushed c) :
    Enters capacity stack c ↔ ¬maxDirectoryLevels - 1 ≤ stack.length ∧ ¬c.any invalidPathByte = true ∧
      ¬(pathMax < (if (rendered (ascii '/') stack).length ≠ 1 then (rendered (ascii '/') stack).length + 1
          else (rendered (ascii '/') stack).length) ∨
        pathMax - (if (rendered (ascii '/') stack).length ≠ 1 then (rendered (ascii '/') stack).length + 1
          else (rendered (ascii '/') stack).length) < c.length ∨
        capacity ≤ (if (rendered (ascii '/') stack).length ≠ 1 then (rendered (ascii '/') stack).length + 1
          else (rendered (ascii '/') stack).length) + c.length) := by
  have hroom := length_rendered_push (c := c) hs
  have hpos := length_rendered_pos (ascii '/') (stack ++ [c])
  have hfew : (stack ++ [c]).length = stack.length + 1 := List.length_append
  have hprint : Printable c ↔ ¬c.any invalidPathByte = true := by simp [Printable]
  unfold maxDirectoryLevels pathMax
  constructor
  · intro h
    obtain ⟨hc, hdepth, hfits⟩ := h hp
    exact ⟨by omega, hprint.mp hc, by omega⟩
  · rintro ⟨hdepth, hc, hfits⟩ -
    exact ⟨hprint.mpr hc, by omega, by omega⟩

variable (capacity c) in
theorem appendComponent_normalOf (hs : ∀ c ∈ stack, IsSegment (ascii '/') c) :
    (Enters capacity stack c → appendComponent capacity (normalOf stack) c = .ok (normalOf (entered stack c))) ∧
      (¬Enters capacity stack c → ∃ e, appendComponent capacity (normalOf stack) c = .error e) := by
  unfold appendComponent entered
  by_cases hdot : c = [ascii '.']
  · rw [if_pos hdot, if_pos hdot]
    exact ⟨fun _ => rfl, fun h => absurd (fun hp => absurd hdot hp.1) h⟩
  rw [if_neg hdot, if_neg hdot]
  by_cases hup : c = [ascii '.', ascii '.']
  · rw [if_pos hup, if_pos hup]
    refine ⟨fun _ => ?_, fun h => absurd (fun hp => absurd hup hp.2) h⟩
    induction stack using List.reverseRecOn with
    | nil => rfl
    | append_singleton before d _ =>
      rw [starts_snoc, List.getLast?_concat, List.dropLast_concat, List.dropLast_concat, normalOf_text]
      exact congrArg Except.ok (congrArg (NormalPath.mk · _) take_rendered_snoc)
  rw [if_neg hup, if_neg hup, length_starts, normalOf_text, enters_pushed capacity hs ⟨hdot, hup⟩]
  constructor
  · rintro ⟨hdepth, hprint, hroom⟩
    rw [if_neg hdepth, if_neg hprint]
    dsimp only
    rw [if_neg hroom, rendered_push hs]
    exact congrArg Except.ok (congrArg (NormalPath.mk _) starts_snoc.symm)
  · intro h
    split
    · exact ⟨_, rfl⟩
    split
    · exact ⟨_, rfl⟩
    rename_i hdepth hprint
    dsimp only
    rw [if_pos (Decidable.not_not.mp fun hroom => h ⟨hdepth, hprint, hroom⟩)]
    exact ⟨_, rfl⟩

theorem mem_entered {d : Text} (h : d ∈ entered stack c) : d ∈ stack ∨ (d = c ∧ Pushed c) := by
  unfold entered at h
  split at h
  · exact .inl h
  split at h
  · exact .inl (List.dropLast_subset stack h)
  · obtain h | h := List.mem_append.mp h
    · exact .inl h
    · exact .inr ⟨List.mem_singleton.mp h, ‹_›, ‹_›⟩

theorem mem_foldl_entered {P : Text → Prop} (hs : ∀ d ∈ stack, P d) (hc : ∀ d ∈ components, Pushed d → P d) :
    ∀ d ∈ components.foldl entered stack, P d := by
  induction components generalizing stack with
  | nil => exact hs
  | cons c rest ih =>
    refine ih (fun d hd => ?_) fun d hd => hc d (List.mem_cons_of_mem c hd)
    obtain hd | ⟨rfl, hpush⟩ := mem_entered hd
    · exact hs d hd
    · exact hc d List.mem_cons_self hpush

theorem Fits.dropLast (h : Fits capacity stack) : Fits capacity stack.dropLast := by
  induction stack using List.reverseRecOn with
  | nil => exact h
  | append_singleton before c _ =>
    obtain ⟨hfew, hroom⟩ := h
    rw [List.length_append, List.length_singleton] at hfew
    rw [length_rendered_snoc] at hroom
    rw [List.dropLast_concat]
    refine ⟨Nat.le_of_succ_le hfew, ?_⟩
    obtain rfl | hnil := Decidable.em (before = [])
    · rw [rendered_nil, List.length_singleton]
      omega
    · rw [if_neg hnil] at hroom
      omega

theorem entered_pushed (h : Pushed c) : entered stack c = stack ++ [c] := by
  rw [entered, if_neg h.1, if_neg h.2]

theorem enters_iff (h : Fits capacity stack) : Enters capacity stack c ↔ (Pushed c → Printable c) ∧ Fits capacity (entered stack c) := by
  constructor
  · intro he
    refine ⟨fun hp => (he hp).1, ?_⟩
    unfold entered
    split
    · exact h
    split
    · exact h.dropLast
    · exact (he ⟨‹_›, ‹_›⟩).2
  · rintro ⟨hprint, hfits⟩ hp
    rw [entered_pushed hp] at hfits
    exact ⟨hprint hp, hfits⟩

theorem mem_visited_self : stack ∈ visited stack components := by
  cases components <;> exact List.mem_cons_self

theorem acceptable_nil (h : Fits capacity stack) : Acceptable capacity stack [] := by
  refine ⟨fun c hc => (nomatch hc), fun next hnext => ?_⟩
  rw [List.mem_singleton.mp hnext]
  exact h

theorem acceptable_cons (h : Fits capacity stack) :
    Acceptable capacity stack (c :: components) ↔ Enters capacity stack c ∧ Acceptable capacity (entered stack c) components := by
  rw [enters_iff h]
  constructor
  · rintro ⟨hprint, hfits⟩
    exact ⟨⟨hprint c List.mem_cons_self, hfits _ (List.mem_cons_of_mem _ mem_visited_self)⟩,
      fun d hd => hprint d (List.mem_cons_of_mem c hd), fun next hnext => hfits next (List.mem_cons_of_mem _ hnext)⟩
  · rintro ⟨⟨hprint, -⟩, hrest, hfits⟩
    refine ⟨fun d hd => ?_, fun next hnext => ?_⟩
    · obtain rfl | hd := List.mem_cons.mp hd
      · exact hprint
      · exact hrest d hd
    · obtain rfl | hnext := List.mem_cons.mp hnext
      · exact h
      · exact hfits next hnext

theorem Acceptable.fits (h : Acceptable capacity stack components) : Fits capacity (components.foldl entered stack) := by
  induction components generalizing stack with
  | nil => exact h.2 stack mem_visited_self
  | cons c rest ih => exact ih ((acceptable_cons (h.2 stack mem_visited_self)).mp h).2

theorem Acceptable.two_le (h : Acceptable capacity [] components) : 2 ≤ capacity := by
  have hfits := (h.2 [] mem_visited_self).2
  rw [rendered_nil, List.length_singleton] at hfits
  omega

theorem acceptable_append (h : Fits capacity stack) {more : List Text} : Acceptable capacity stack (components ++ more) ↔
    Acceptable capacity stack components ∧ Acceptable capacity (components.foldl entered stack) more := by
  induction components generalizing stack with
  | nil => exact ⟨fun hmore => ⟨acceptable_nil h, hmore⟩, fun hall => hall.2⟩
  | cons c rest ih =>
    rw [List.cons_append, acceptable_cons h, acceptable_cons h, and_assoc]
    exact and_congr_right fun he => ih ((enters_iff h).mp he).2

theorem segment_entered (hs : ∀ c ∈ stack, IsSegment (ascii '/') c) (hc : IsSegment (ascii '/') c) :
    ∀ d ∈ entered stack c, IsSegment (ascii '/') d := fun d hd => by
  obtain hd | ⟨rfl, -⟩ := mem_entered hd
  · exact hs d hd
  · exact hc

theorem foldlM_appendComponent (hs : ∀ c ∈ stack, IsSegment (ascii '/') c) (hc : ∀ c ∈ components, IsSegment (ascii '/') c)
    (h : Fits capacity stack) :
    (Acceptable capacity stack components →
        components.foldlM (appendComponent capacity) (normalOf stack) = .ok (normalOf (components.foldl entered stack))) ∧
      (¬Acceptable capacity stack components →
        ∃ e, components.foldlM (appendComponent capacity) (normalOf stack) = .error e) := by
  induction components generalizing stack with
  | nil => exact ⟨fun _ => rfl, fun hno => absurd (acceptable_nil h) hno⟩
  | cons c rest ih =>
    rw [List.foldlM_cons, List.foldl_cons, acceptable_cons h]
    obtain ⟨hin, hout⟩ := appendComponent_normalOf capacity c hs
    by_cases he : Enters capacity stack c
    · rw [hin he]
      obtain ⟨hyes, hno⟩ := ih (segment_entered hs (hc c List.mem_cons_self)) (fun d hd => hc d (List.mem_cons_of_mem c hd))
        ((enters_iff h).mp he).2
      exact ⟨fun hall => hyes hall.2, fun hnot => hno fun hrest => hnot ⟨he, hrest⟩⟩
    · obtain ⟨e, he'⟩ := hout he
      rw [he']
      exact ⟨fun hall => absurd hall.1 he, fun _ => ⟨e, rfl⟩⟩

theorem foldl_pushed (h : ∀ c ∈ components, Pushed c) : components.foldl entered stack = stack ++ components := by
  induction components generalizing stack with
  | nil => exact (List.append_nil stack).symm
  | cons c rest ih =>
    rw [List.foldl_cons, entered_pushed (h c List.mem_cons_self), ih fun d hd => h d (List.mem_cons_of_mem c hd), List.append_assoc]
    rfl

theorem acceptable_stack (hs : ∀ c ∈ stack, Pushed c ∧ Printable c) (h : Fits capacity stack) : Acceptable capacity [] stack := by
  induction stack using List.reverseRecOn with
  | nil => exact acceptable_nil h
  | append_singleton before c ih =>
    have hbefore : ∀ d ∈ before, Pushed d ∧ Printable d := fun d hd => hs d (List.mem_append_left _ hd)
    have hfits : Fits capacity before := by
      have := h.dropLast
      rwa [List.dropLast_concat] at this
    have hall := ih hbefore hfits
    rw [acceptable_append (hall.2 [] mem_visited_self), foldl_pushed fun d hd => (hbefore d hd).1, List.nil_append]
    have hc := hs c (by simp)
    have henter : Enters capacity before c := fun _ => ⟨hc.2, h⟩
    exact ⟨hall, (acceptable_cons hfits).mpr ⟨henter, acceptable_nil ((enters_iff hfits).mp henter).2⟩⟩

theorem mem_reached (hc : ∀ c ∈ components, IsSegment (ascii '/') c) (h : Acceptable capacity [] components) :
    ∀ c ∈ components.foldl entered [], IsSegment (ascii '/') c ∧ Pushed c ∧ Printable c :=
  mem_foldl_entered (fun _ hc => (nomatch hc)) fun c hmem hp => ⟨hc c hmem, hp, h.1 c hmem hp⟩

theorem mem_given (current path : Text) : ∀ c ∈ given current path, IsSegment (ascii '/') c := fun c hc => by
  unfold given at hc
  obtain hc | hc := List.mem_append.mp hc
  · split at hc
    · cases hc
    · exact mem_segments (Nat.le_refl _) c hc
  · exact mem_segments (Nat.le_refl _) c hc

theorem cString_eq {text : Text} (h : 0 ∉ text) : cString text = text := by
  refine List.takeWhile_eq_self_iff.mpr fun byte hb => ?_
  simp only [ne_eq, decide_eq_true_eq]
  exact fun hz => h (hz ▸ hb)

variable (capacity) in
theorem pathNormalize_reference {current path : Text} (hc : 0 ∉ current) (hp : 0 ∉ path) (hcl : current.length ≤ pathMax)
    (hpl : path.length ≤ pathMax) (hslash : current.head? = some (ascii '/')) :
    (path ≠ [] ∧ Acceptable capacity [] (given current path) →
        pathNormalize current (some path) capacity = .ok (reference current path)) ∧
      (¬(path ≠ [] ∧ Acceptable capacity [] (given current path)) → ∃ e, pathNormalize current (some path) capacity = .error e) := by
  unfold pathNormalize
  dsimp only
  rw [cString_eq hc, cString_eq hp]
  by_cases hzero : capacity = 0
  · rw [if_pos (.inl hzero)]
    exact ⟨fun hall => by have := hall.2.two_le; omega, fun _ => ⟨_, rfl⟩⟩
  rw [if_neg (by rw [not_or]; exact ⟨hzero, not_not_intro hslash⟩), if_neg (Nat.not_lt.mpr hcl), if_neg (Nat.not_lt.mpr hpl)]
  by_cases hbad : path = [] ∨ capacity < 2
  · rw [if_pos hbad]
    exact ⟨fun hall => absurd hbad (not_or.mpr ⟨hall.1, Nat.not_lt.mpr hall.2.two_le⟩), fun _ => ⟨_, rfl⟩⟩
  rw [if_neg hbad]
  have hfits : Fits capacity [] := by
    refine ⟨Nat.zero_le _, ?_⟩
    rw [rendered_nil, List.length_singleton]
    omega
  have hboth : (do
      let start ← if path.head? ≠ some (ascii '/') then consumePath capacity ⟨[ascii '/'], []⟩ current else .ok ⟨[ascii '/'], []⟩
      let normal ← consumePath capacity start path
      .ok normal.text) = NormalPath.text <$> (given current path).foldlM (appendComponent capacity) (normalOf []) := by
    unfold given
    split
    · rw [List.foldlM_append, map_bind]
      rfl
    · rename_i habs
      rw [if_pos (Decidable.not_not.mp habs), List.nil_append]
      rfl
  obtain ⟨hin, hout⟩ := @foldlM_appendComponent capacity [] _ (fun _ hc => (nomatch hc)) (mem_given current path) hfits
  constructor
  · rintro ⟨-, hall⟩
    refine (Eq.trans ?_ hboth).trans ?_
    · split <;> rfl
    · rw [hin hall]
      rfl
  · intro hno
    obtain ⟨e, he⟩ := hout fun hall => hno ⟨fun hnil => hbad (.inl hnil), hall⟩
    refine ⟨e, (Eq.trans ?_ hboth).trans ?_⟩
    · split <;> rfl
    · rw [he]
      rfl

end Vfs

end InferenceOS
