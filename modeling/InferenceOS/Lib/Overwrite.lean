import Mathlib.Data.List.Basic
import Mathlib.Data.List.TakeDrop

/-! A list with a part of it written over. -/

namespace InferenceOS
variable {α : Type} {l a b : List α} {p i : Nat}

/-- `l` with `b` in the place of the elements from number `p` on. -/
def overwrite (l : List α) (p : Nat) (b : List α) : List α := l.take p ++ b ++ l.drop (p + b.length)

@[simp] theorem overwrite_nil : overwrite l p [] = l := by
  rw [overwrite, List.append_nil, List.length_nil, Nat.add_zero, List.take_append_drop]

theorem length_overwrite (h : p ≤ l.length) : (overwrite l p b).length = max l.length (p + b.length) := by
  rw [overwrite, List.length_append, List.length_append, List.length_take, List.length_drop]
  omega

theorem getElem?_overwrite (h : p ≤ l.length) :
    (overwrite l p b)[i]? = if i < p then l[i]? else if i < p + b.length then b[i - p]? else l[i]? := by
  have hlen : (l.take p).length = p := by rw [List.length_take, Nat.min_eq_left h]
  rw [overwrite, List.append_assoc, List.getElem?_append, hlen]
  split
  · rename_i hi
    rw [List.getElem?_take, if_pos hi]
  · rw [List.getElem?_append]
    split
    · rw [if_pos (by omega)]
    · rw [if_neg (by omega), List.getElem?_drop]
      congr 1
      omega

theorem overwrite_overwrite (h : p ≤ l.length) : overwrite (overwrite l p a) (p + a.length) b = overwrite l p (a ++ b) := by
  have hlen := @length_overwrite α l a p h
  refine List.ext_getElem? fun i => ?_
  rw [getElem?_overwrite (by omega), getElem?_overwrite h, getElem?_overwrite h, List.getElem?_append, List.length_append]
  by_cases h₁ : i < p
  · rw [if_pos (by omega), if_pos h₁, if_pos h₁]
  · by_cases h₂ : i < p + a.length
    · rw [if_pos h₂, if_neg h₁, if_pos h₂, if_neg h₁, if_pos (by omega), if_pos (by omega)]
    · have hpast : ¬i - p < a.length := by omega
      rw [if_neg h₂, if_neg h₁, if_neg h₂, if_neg h₁, if_neg hpast, Nat.sub_add_eq, ← Nat.add_assoc]

theorem take_overwrite {n : Nat} (hp : p ≤ n) (hn : n ≤ l.length) :
    (overwrite l p b).take (max n (p + b.length)) = overwrite (l.take n) p b := by
  refine List.ext_getElem? fun i => ?_
  rw [List.getElem?_take, getElem?_overwrite (by omega), getElem?_overwrite (by rw [List.length_take]; omega), List.getElem?_take]
  by_cases h₁ : i < p
  · rw [if_pos (by omega), if_pos h₁, if_pos h₁, if_pos (by omega)]
  · by_cases h₂ : i < p + b.length
    · rw [if_pos (by omega), if_neg h₁, if_pos h₂, if_neg h₁, if_pos h₂]
    · rw [if_neg h₁, if_neg h₂, if_neg h₁, if_neg h₂]
      by_cases h₃ : i < n
      · rw [if_pos (by omega), if_pos h₃]
      · rw [if_neg (by omega), if_neg h₃]

end InferenceOS
