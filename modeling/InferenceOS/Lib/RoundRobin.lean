import Mathlib.Data.List.Rotate
import Mathlib.Data.List.Nodup
import Mathlib.Data.Nat.ModEq

/-! Taking turns round a table. A search from the place after the last one that had its turn takes the first place that
    qualifies; the places that qualify then come round in the same cyclic order. -/

namespace InferenceOS
namespace RoundRobin
variable {n : Nat} [NeZero n] {start : Nat} {p : Fin n → Bool} {a : Fin n} {l : List (Fin n)}

/-- The places of a table from the one after `start` on, round to it. -/
def after (n : Nat) [NeZero n] (start : Nat) : List (Fin n) := (List.range n).map fun offset => Fin.ofNat n (start + (offset + 1))

theorem length_after : (after n start).length = n := by
  unfold after
  rw [List.length_map, List.length_range]

theorem getElem_after {i : Nat} (hi : i < (after n start).length) : (after n start)[i] = Fin.ofNat n (start + (i + 1)) := by
  have hmap := @List.getElem_map Nat (Fin n) (fun offset => Fin.ofNat n (start + (offset + 1))) (List.range n) i hi
  rw [List.getElem_range] at hmap
  exact hmap

theorem rotate_after {k : Nat} : (after n start).rotate k = after n (start + k) := by
  refine List.ext_getElem ?_ fun i hi hi' => ?_
  · rw [List.length_rotate, length_after, length_after]
  · rw [List.getElem_rotate, getElem_after, getElem_after, length_after]
    refine Fin.ext ?_
    show (start + ((i + k) % n + 1)) % n = (start + k + (i + 1)) % n
    have hmod : (start + 1 + (i + k) % n) % n = (start + 1 + (i + k)) % n := Nat.add_mod_mod _ _ _
    rw [show start + ((i + k) % n + 1) = start + 1 + (i + k) % n by omega, hmod]
    congr 1
    omega

theorem after_mod : after n (start % n) = after n start := by
  refine List.ext_getElem ?_ fun i hi hi' => ?_
  · rw [length_after, length_after]
  · rw [getElem_after, getElem_after]
    exact Fin.ext (Nat.mod_add_mod _ _ _)

theorem nodup_after : (after n start).Nodup := by
  refine List.Nodup.map_on (fun i hi j hj h => ?_) List.nodup_range
  have hmod : (start + 1 + i) % n = (start + 1 + j) % n := by
    have := congrArg Fin.val h
    rwa [Fin.val_ofNat, Fin.val_ofNat, show start + (i + 1) = start + 1 + i by omega,
      show start + (j + 1) = start + 1 + j by omega] at this
  have heq : Nat.ModEq n i j := Nat.ModEq.add_left_cancel' (start + 1) hmod
  exact Nat.ModEq.eq_of_lt_of_lt heq (List.mem_range.mp hi) (List.mem_range.mp hj)

theorem filter_after (h : (after n start).filter p = a :: l) : (after n a.1).filter p = l ++ [a] := by
  obtain ⟨l₁, l₂, heq, hnone, ha, hl⟩ := List.filter_eq_cons_iff.mp h
  have hlength : l₁.length < n := by
    have := @length_after n _ start
    rw [heq, List.length_append, List.length_cons] at this
    omega
  have hat : a = Fin.ofNat n (start + (l₁.length + 1)) := by
    rw [← @getElem_after n _ start _ (by rw [length_after]; exact hlength)]
    simp only [heq, List.getElem_append_right (Nat.le_refl _), Nat.sub_self, List.getElem_cons_zero]
  have hafter : after n a.1 = l₂ ++ (l₁ ++ [a]) := by
    have hval : a.1 = (start + (l₁.length + 1)) % n := congrArg Fin.val hat
    have hrotate := List.rotate_append_length_eq (l₁ ++ [a]) l₂
    rw [List.length_append, List.length_singleton, List.append_assoc, List.singleton_append] at hrotate
    rw [hval, after_mod, ← rotate_after, heq, hrotate]
  rw [hafter, List.filter_append, List.filter_append, hl, List.filter_eq_nil_iff.mpr hnone, List.nil_append,
    List.filter_cons_of_pos ha, List.filter_nil]

end RoundRobin
end InferenceOS
