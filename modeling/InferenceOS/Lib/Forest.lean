import Mathlib.Logic.Function.Iterate

/-! Forests given by a parent function. A node is rooted when the parents of its parents end at the root;
    a node may be moved below every node that it is no ancestor of. -/

namespace InferenceOS
open Function

section Forest
variable {α : Type} {parent : α → α} {root x y : α}

/-- Following the parents leads to the root. -/
def Rooted (parent : α → α) (root x : α) : Prop := ∃ k, parent^[k] x = root

/-- `x` is `y` or an ancestor of `y`. -/
def Above (parent : α → α) (x y : α) : Prop := ∃ k, parent^[k] y = x

theorem Rooted.of_parent (h : Rooted parent root (parent x)) : Rooted parent root x := by
  obtain ⟨k, hk⟩ := h
  exact ⟨k + 1, hk⟩

theorem Rooted.congr {parent' : α → α} {s : α → Prop} (hs : ∀ x, s x → x ≠ root → s (parent x) ∧ parent' x = parent x)
    (hx : s x) (h : Rooted parent root x) : Rooted parent' root x := by
  obtain ⟨k, hk⟩ := h
  induction k generalizing x with
  | zero => exact ⟨0, hk⟩
  | succ k ih =>
    by_cases hr : x = root
    · exact ⟨0, hr⟩
    · obtain ⟨hp, he⟩ := hs x hx hr
      refine Rooted.of_parent ?_
      rw [he]
      exact ih hp hk

theorem Rooted.move [DecidableEq α] (hy : Rooted parent root y) (hxy : ¬Above parent x y) {z : α}
    (hz : Rooted parent root z) : Rooted (update parent x y) root z := by
  -- The way from `y` to the root avoids `x`.
  have hy' : Rooted (update parent x y) root y := by
    refine Rooted.congr (s := fun z => ¬Above parent x z) (fun z hz _ => ⟨fun ⟨k, hk⟩ => hz ⟨k + 1, hk⟩, ?_⟩) hxy hy
    exact update_of_ne (fun hx => hz ⟨0, hx⟩) _ _
  obtain ⟨k, hk⟩ := hz
  induction k generalizing z with
  | zero => exact ⟨0, hk⟩
  | succ k ih =>
    refine Rooted.of_parent ?_
    by_cases hx : z = x
    · subst hx
      rw [update_self]
      exact hy'
    · rw [update_of_ne hx]
      exact ih hk

end Forest
end InferenceOS
