import Mathlib.Data.List.Basic

/-! A current place with the stack of the places before it, whose top is the last element. Steps push the current place, go back to
    the last one, or stay. -/

namespace InferenceOS
variable {α : Type} {s t u : α × List α}

/-- A step. -/
inductive HistoryStep : α × List α → α × List α → Prop
  | push (current next : α) (before : List α) : HistoryStep (current, before) (next, before ++ [current])
  | back (current previous : α) (before : List α) : HistoryStep (current, before ++ [previous]) (previous, before)
  | stay (s : α × List α) : HistoryStep s s

namespace HistoryStep

theorem kept {base : List α} (h : HistoryStep t u) (hbase : base <+: t.2) (hheight : base.length ≤ u.2.length) : base <+: u.2 := by
  cases h with
  | push current next before => exact hbase.trans (List.prefix_append _ _)
  | back current previous before => exact List.prefix_of_prefix_length_le hbase (List.prefix_append _ _) hheight
  | stay => exact hbase

theorem restored (hbase : s.2 ++ [s.1] <+: t.2) (hheight : t.2.length = s.2.length + 1) (hback : t.2 = u.2 ++ [u.1]) : u = s := by
  have heq : s.2 ++ [s.1] = t.2 := hbase.eq_of_length (by rw [hheight, List.length_append, List.length_singleton])
  obtain ⟨hstack, hcurrent⟩ := List.append_inj' (hback.symm.trans heq.symm) rfl
  exact Prod.ext (List.singleton_inj.mp hcurrent) hstack

end HistoryStep
end InferenceOS
