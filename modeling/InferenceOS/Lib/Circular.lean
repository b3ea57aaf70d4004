import Mathlib.Data.List.GetD
import Mathlib.Data.Nat.ModEq

/-! Circular memories. A run of elements goes on at the start of the memory where it reaches the end; it is copied in and out
    in two parts. -/

namespace InferenceOS
namespace Circular
variable {α : Type} {size index start m n : Nat} {data : Nat → α} {source : List α}

/-- The elements from an index on, round the end. -/
def span (size : Nat) (data : Nat → α) (index n : Nat) : List α := (List.range n).map fun k => data ((index + k) % size)

/-- The result of `memcpy(data + offset, source, length)`. -/
def write (data : Nat → α) (offset : Nat) (source : List α) : Nat → α := fun i =>
  if offset ≤ i then source.getD (i - offset) (data i) else data i

/-- Copy elements to an index and on, in two parts. -/
def copyIn (size index : Nat) (source : List α) (data : Nat → α) : Nat → α :=
  let first := if size - index < source.length then size - index else source.length
  let data := write data index (source.take first)
  if first < source.length then write data 0 (source.drop first) else data

/-- The elements from an index on, in two parts. -/
def copyOut (size index n : Nat) (data : Nat → α) : List α :=
  let first := if size - index < n then size - index else n
  let head := (List.range first).map fun k => data (index + k)
  if first < n then head ++ (List.range (n - first)).map data else head

@[simp] theorem length_span : (span size data index n).length = n := by
  rw [span, List.length_map, List.length_range]

theorem span_of_le (h : index + n ≤ size) : span size data index n = (List.range n).map fun k => data (index + k) :=
  List.map_congr_left fun k hk => by
    have hlt := List.mem_range.mp hk
    rw [Nat.mod_eq_of_lt (by omega)]

theorem span_add : span size data index (m + n) = span size data index m ++ span size data ((index + m) % size) n := by
  unfold span
  rw [List.range_add, List.map_append, List.map_map]
  congr 1
  refine List.map_congr_left fun k _ => ?_
  show data ((index + (m + k)) % size) = data (((index + m) % size + k) % size)
  rw [Nat.mod_add_mod, Nat.add_assoc]

theorem take_span (h : m ≤ n) : (span size data index n).take m = span size data index m := by
  obtain ⟨k, rfl⟩ := Nat.exists_eq_add_of_le h
  rw [span_add, List.take_left' length_span]

theorem drop_span (h : m ≤ n) : (span size data index n).drop m = span size data ((index + m) % size) (n - m) := by
  obtain ⟨k, rfl⟩ := Nat.exists_eq_add_of_le h
  rw [span_add, List.drop_left' length_span, Nat.add_sub_cancel_left]

theorem copyOut_eq_span (hi : index < size) (hn : n ≤ size) : copyOut size index n data = span size data index n := by
  unfold copyOut
  dsimp only
  rcases Nat.lt_or_ge (size - index) n with hwrap | hfits
  · have hend : (index + (size - index)) % size = 0 := by
      rw [Nat.add_sub_cancel' hi.le, Nat.mod_self]
    have hsum : n = (size - index) + (n - (size - index)) := by omega
    rw [if_pos hwrap, if_pos hwrap]
    conv_rhs => rw [hsum, span_add, hend, span_of_le (by omega), span_of_le (by omega)]
    simp only [Nat.zero_add]
  · rw [if_neg (Nat.not_lt.mpr hfits), if_neg (lt_irrefl n), span_of_le (by omega)]

theorem copyIn_apply {k : Nat} (hi : index < size) (hn : source.length ≤ size) (hk : k < size) :
    copyIn size index source data ((index + k) % size) = source.getD k (data ((index + k) % size)) := by
  have hmod : index + k < size ∧ (index + k) % size = index + k ∨ size ≤ index + k ∧ (index + k) % size = index + k - size := by
    rcases Nat.lt_or_ge (index + k) size with h | h
    · exact Or.inl ⟨h, Nat.mod_eq_of_lt h⟩
    · exact Or.inr ⟨h, by rw [Nat.mod_eq_sub_mod h, Nat.mod_eq_of_lt (by omega)]⟩
  unfold copyIn
  rcases Nat.lt_or_ge (size - index) source.length with hwrap | hfits
  · rw [if_pos hwrap, if_pos hwrap]
    unfold write
    rw [if_pos (Nat.zero_le _), Nat.sub_zero]
    simp only [List.getD_eq_getElem?_getD, List.getElem?_take, List.getElem?_drop]
    rcases hmod with ⟨hlt, heq⟩ | ⟨hge, heq⟩
    · have hnone : source[size - index + (index + k)]? = none := List.getElem?_eq_none (by omega)
      rw [heq, hnone, if_pos (Nat.le_add_right _ _), Nat.add_sub_cancel_left, if_pos (by omega)]
      rfl
    · have hplace : size - index + (index + k - size) = k := by omega
      rw [heq, hplace, if_neg (by omega)]
  · rw [if_neg (Nat.not_lt.mpr hfits), if_neg (lt_irrefl _), List.take_length]
    unfold write
    rcases hmod with ⟨hlt, heq⟩ | ⟨hge, heq⟩
    · rw [heq, if_pos (Nat.le_add_right _ _), Nat.add_sub_cancel_left]
    · rw [heq, if_neg (by omega), List.getD_eq_default _ _ (by omega)]

theorem span_copyIn (hs : start < size) (hn : n + source.length ≤ size) :
    span size (copyIn size ((start + n) % size) source data) start (n + source.length) = span size data start n ++ source := by
  have hpos : 0 < size := Nat.zero_lt_of_lt hs
  rw [span_add]
  congr 1
  · refine List.map_congr_left fun k hk => ?_
    have hlt := List.mem_range.mp hk
    -- the place lies `size - n + k` behind the index, past the elements
    have hplace : (start + k) % size = ((start + n) % size + (size - n + k)) % size := by
      rw [Nat.mod_add_mod]
      have hround : start + n + (size - n + k) = start + k + size := by omega
      rw [hround, Nat.add_mod_right]
    rw [hplace, copyIn_apply (Nat.mod_lt _ hpos) (by omega) (by omega), List.getD_eq_default _ _ (by omega)]
  · show (List.range source.length).map _ = source
    refine List.ext_getElem (by rw [List.length_map, List.length_range]) fun k _ hk => ?_
    rw [List.getElem_map, List.getElem_range, copyIn_apply (Nat.mod_lt _ hpos) (by omega) (by omega), List.getD_eq_getElem _ _ hk]

end Circular
end InferenceOS
