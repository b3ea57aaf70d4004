import Mathlib.Data.List.Basic
import Mathlib.Data.List.TakeWhile

/-! Segments between separators. A text is a list of letters; its segments are the non-empty stretches without a
    separator, and a list of segments is rendered with a separator before each of them. -/

namespace InferenceOS

variable {α : Type} {sep : α} {l c : List α} {cs : List (List α)}

/-- A non-empty stretch without a separator. -/
def IsSegment (sep : α) (c : List α) : Prop := c ≠ [] ∧ sep ∉ c

/-- The segments with a separator before each of them, or one separator alone. -/
def rendered (sep : α) (cs : List (List α)) : List α := if cs = [] then [sep] else cs.flatMap (sep :: ·)

theorem rendered_nil : rendered sep [] = [sep] := rfl

theorem rendered_snoc : rendered sep (cs ++ [c]) = (if cs = [] then [] else rendered sep cs) ++ sep :: c := by
  rw [rendered, if_neg (by simp), List.flatMap_append, List.flatMap_singleton]
  by_cases h : cs = []
  · rw [if_pos h, h]
    rfl
  · rw [if_neg h, rendered, if_neg h]

theorem length_rendered_snoc : (rendered sep (cs ++ [c])).length = (if cs = [] then 0 else (rendered sep cs).length) + 1 + c.length := by
  rw [rendered_snoc, List.length_append, List.length_cons]
  split
  · rw [List.length_nil]
    omega
  · omega

variable (sep cs) in
theorem length_rendered_pos : 0 < (rendered sep cs).length := by
  unfold rendered
  split
  · exact Nat.one_pos
  · cases cs with
    | nil => contradiction
    | cons c cs =>
      rw [List.flatMap_cons, List.length_append, List.length_cons]
      omega

theorem length_rendered_eq_one (h : ∀ c ∈ cs, IsSegment sep c) : (rendered sep cs).length = 1 ↔ cs = [] := by
  constructor
  · intro hlen
    by_contra hne
    obtain ⟨before, c, rfl⟩ := (List.eq_nil_or_concat cs).resolve_left hne
    have hc := List.length_pos_iff.mpr (h c (by simp)).1
    rw [List.concat_eq_append, length_rendered_snoc] at hlen
    omega
  · rintro rfl
    rfl

theorem rendered_push (h : ∀ c ∈ cs, IsSegment sep c) :
    rendered sep cs ++ (if (rendered sep cs).length ≠ 1 then [sep] else []) ++ c = rendered sep (cs ++ [c]) := by
  have hone := length_rendered_eq_one h
  rw [rendered_snoc]
  by_cases hnil : cs = []
  · rw [if_neg (not_not_intro (hone.mpr hnil)), if_pos hnil, hnil]
    rfl
  · rw [if_pos (fun h => hnil (hone.mp h)), if_neg hnil, List.append_assoc]
    rfl

theorem length_rendered_push (h : ∀ c ∈ cs, IsSegment sep c) :
    (if (rendered sep cs).length ≠ 1 then (rendered sep cs).length + 1 else (rendered sep cs).length) + c.length =
      (rendered sep (cs ++ [c])).length := by
  rw [← rendered_push h, List.length_append, List.length_append]
  split <;> rfl

section Segments
variable [DecidableEq α]

/-- The non-empty stretches between separators. -/
def segments (sep : α) (l : List α) : List (List α) := (l.splitOn sep).filter (· ≠ [])

theorem segments_nil : segments sep [] = [] := rfl

theorem segments_cons_self : segments sep (sep :: l) = segments sep l := by
  have h := List.splitOn_append_cons_self [] l (a := sep)
  rw [List.nil_append] at h
  rw [segments, h, List.filter_append]
  rfl

theorem segments_single (h : IsSegment sep c) : segments sep c = [c] := by
  rw [segments, List.splitOn_eq_singleton h.2, List.filter_singleton]
  simp [h.1]

theorem segments_append (h : IsSegment sep c) : segments sep (c ++ sep :: l) = c :: segments sep l := by
  rw [segments, List.splitOn_append_cons_self, List.filter_append]
  exact congrArg (· ++ segments sep l) (segments_single h)

theorem segments_dropWhile : ∀ {l : List α}, segments sep (l.dropWhile (· = sep)) = segments sep l
  | [] => rfl
  | a :: l => by
    rw [List.dropWhile_cons]
    split
    · rename_i ha
      rw [segments_dropWhile, of_decide_eq_true ha, segments_cons_self]
    · rfl

theorem segments_scan (h : l.head? ≠ some sep) (hl : l ≠ []) :
    IsSegment sep (l.takeWhile (· ≠ sep)) ∧
      segments sep l = l.takeWhile (· ≠ sep) :: segments sep (l.dropWhile (· ≠ sep)) := by
  have hsep : sep ∉ l.takeWhile (· ≠ sep) := fun hx => by simpa using List.mem_takeWhile_imp hx
  have hne : l.takeWhile (· ≠ sep) ≠ [] := by
    cases l with
    | nil => exact absurd rfl hl
    | cons a l =>
      have ha : a ≠ sep := fun hx => h (by rw [hx]; rfl)
      simp [ha]
  refine ⟨⟨hne, hsep⟩, ?_⟩
  conv_lhs => rw [← List.takeWhile_append_dropWhile (p := (· ≠ sep)) (l := l)]
  cases hd : l.dropWhile (· ≠ sep) with
  | nil => rw [List.append_nil, segments_single ⟨hne, hsep⟩, segments_nil]
  | cons a rest =>
    have ha : a = sep := by
      have hhead := List.head?_dropWhile_not (· ≠ sep) l
      rw [hd] at hhead
      simpa using hhead
    rw [ha, segments_append ⟨hne, hsep⟩, segments_cons_self]

theorem mem_segments : ∀ {n : Nat} {l : List α}, l.length ≤ n → ∀ c ∈ segments sep l, IsSegment sep c
  | _, [], _, c, hc => (nomatch hc)
  | n + 1, a :: l, hn, c, hc => by
    by_cases ha : a = sep
    · rw [ha, segments_cons_self] at hc
      exact mem_segments (Nat.le_of_succ_le_succ hn) c hc
    · have hscan := @segments_scan _ sep (a :: l) _ (by simpa using ha) (List.cons_ne_nil _ _)
      rw [hscan.2, List.mem_cons] at hc
      obtain rfl | hc := hc
      · exact hscan.1
      · refine mem_segments (n := n) ?_ c hc
        have hlen := (List.dropWhile_suffix (· ≠ sep) (l := l)).length_le
        rw [List.dropWhile_cons_of_pos (by simpa using ha)]
        exact hlen.trans (Nat.le_of_succ_le_succ hn)

theorem segments_flatMap : ∀ {cs : List (List α)}, (∀ c ∈ cs, IsSegment sep c) → segments sep (cs.flatMap (sep :: ·)) = cs
  | [], _ => rfl
  | [c], h => by
    rw [List.flatMap_singleton, segments_cons_self, segments_single (h c (by simp))]
  | c :: d :: cs, h => by
    have ih := @segments_flatMap (d :: cs) fun e he => h e (List.mem_cons_of_mem _ he)
    rw [List.flatMap_cons, List.cons_append, segments_cons_self, List.flatMap_cons, List.cons_append,
      segments_append (h c (by simp)), ← segments_cons_self, ← List.cons_append, ← List.flatMap_cons, ih]

theorem segments_rendered (h : ∀ c ∈ cs, IsSegment sep c) : segments sep (rendered sep cs) = cs := by
  unfold rendered
  split
  · rename_i hnil
    rw [hnil, segments_cons_self, segments_nil]
  · exact segments_flatMap h

end Segments
end InferenceOS
