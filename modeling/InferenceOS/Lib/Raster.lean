import Mathlib.Logic.Function.Basic

/-! Pixels in flat memory. A raster of some stride keeps the pixel of column `x` and row `y` at `y * stride + x`; drawing
    goes row by row through a rectangle. -/

namespace InferenceOS
open Function
namespace Raster
variable {α : Type} {stride left right top bottom x y : Nat} {color : Nat → Nat → α} {pixels : Nat → α}

/-- Write a color to some columns of a row. -/
def writeRow (stride y : Nat) (columns : List Nat) (color : Nat → α) (pixels : Nat → α) : Nat → α :=
  columns.foldl (fun pixels x => update pixels (y * stride + x) (color x)) pixels

/-- Write the colors of the rectangle from `left` and `top` up to `right` and `bottom`. -/
def writeRegion (stride left top right bottom : Nat) (color : Nat → Nat → α) (pixels : Nat → α) : Nat → α :=
  (List.range' top (bottom - top)).foldl
    (fun pixels y => writeRow stride y (List.range' left (right - left)) (color y) pixels) pixels

theorem address_inj {x' y' : Nat} (hx : x < stride) (hx' : x' < stride) :
    y * stride + x = y' * stride + x' ↔ y = y' ∧ x = x' := by
  constructor
  · intro h
    have hdiv : ∀ {a b : Nat}, b < stride → (a * stride + b) / stride = a := by
      intro a b hb
      rw [Nat.mul_comm, Nat.mul_add_div (Nat.zero_lt_of_lt hb), Nat.div_eq_of_lt hb, Nat.add_zero]
    have hy : y = y' := by rw [← hdiv (a := y) hx, h, hdiv hx']
    subst hy
    exact ⟨rfl, Nat.add_left_cancel h⟩
  · rintro ⟨rfl, rfl⟩
    rfl

theorem writeRow_apply {row : Nat} {f : Nat → α} (hx : x < stride) : ∀ {columns : List Nat} {pixels : Nat → α},
    (∀ c ∈ columns, c < stride) →
    writeRow stride row columns f pixels (y * stride + x) = if y = row ∧ x ∈ columns then f x else pixels (y * stride + x)
  | [], pixels, _ => by
    rw [if_neg fun h => nomatch h.2]
    rfl
  | c :: columns, pixels, hc => by
    have ih := @writeRow_apply row f hx columns (update pixels (row * stride + c) (f c))
      fun c' hc' => hc c' (List.mem_cons_of_mem c hc')
    show writeRow stride row columns f (update pixels (row * stride + c) (f c)) (y * stride + x) = _
    rw [ih, update_apply, if_congr (address_inj hx (hc c List.mem_cons_self)) rfl rfl]
    obtain rfl | hcol := eq_or_ne x c
    · simp only [and_true, List.mem_cons_self]
      split
      · rename_i h
        rw [if_pos h.1]
      · rfl
    · simp only [hcol, and_false, if_false, List.mem_cons, false_or]

theorem writeRegion_apply (hx : x < stride) (hright : right ≤ stride) : writeRegion stride left top right bottom color pixels
      (y * stride + x) = if left ≤ x ∧ x < right ∧ top ≤ y ∧ y < bottom then color y x else pixels (y * stride + x) := by
  have hcolumns : ∀ c ∈ List.range' left (right - left), c < stride := by
    intro c hc
    rw [List.mem_range'_1] at hc
    omega
  have hrows : ∀ {rows : List Nat} {pixels : Nat → α}, (rows.foldl
      (fun pixels y => writeRow stride y (List.range' left (right - left)) (color y) pixels) pixels) (y * stride + x) =
      if y ∈ rows ∧ x ∈ List.range' left (right - left) then color y x else pixels (y * stride + x) := by
    intro rows
    induction rows with
    | nil =>
      intro pixels
      rw [if_neg fun h => nomatch h.1]
      rfl
    | cons row rows ih =>
      intro pixels
      rw [List.foldl_cons, ih, writeRow_apply hx hcolumns]
      by_cases hcol : x ∈ List.range' left (right - left)
      · simp only [hcol, and_true, List.mem_cons]
        by_cases hrow : y = row
        · rw [hrow]
          simp
        · simp [hrow]
      · simp only [hcol, and_false, if_false]
  unfold writeRegion
  rw [hrows]
  refine if_congr ?_ rfl rfl
  rw [List.mem_range'_1, List.mem_range'_1]
  omega

end Raster
end InferenceOS
