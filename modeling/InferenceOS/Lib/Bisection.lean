import Mathlib.Order.Bounds.Basic
import Mathlib.Order.Monotone.Basic

/-! Bisection for the least number with a property that larger numbers inherit: what an interval keeps from turn to
    turn, and what is left when it is empty. -/

namespace InferenceOS

/-- The least number with the property lies in the interval. -/
structure Bracket (p : Nat → Prop) (low high : Nat) : Prop where
  ordered : low ≤ high
  above : p high
  below : ∀ k < low, ¬p k

namespace Bracket
variable {p : Nat → Prop} {low high middle : Nat}

theorem middle_lt (h : low < high) : low + (high - low) / 2 < high := by omega

theorem left (h : Bracket p low high) (hle : low ≤ middle) (hp : p middle) : Bracket p low middle :=
  ⟨hle, hp, h.below⟩

theorem right (h : Bracket p low high) (hm : Monotone p) (hlt : middle < high) (hp : ¬p middle) :
    Bracket p (middle + 1) high :=
  ⟨hlt, h.above, fun _ hk hpk => hp (hm (Nat.le_of_lt_succ hk) hpk)⟩

theorem isLeast (h : Bracket p low high) (hle : ¬low < high) : IsLeast {k | p k} low := by
  obtain rfl : low = high := le_antisymm h.ordered (not_lt.mp hle)
  exact ⟨h.above, fun k hk => not_lt.mp fun hlt => h.below k hlt hk⟩

end Bracket

end InferenceOS
