import Mathlib.Data.Nat.ModEq
import Mathlib.Logic.Function.Basic

/-! Ring buffers with a separate head, tail and count. A buffer whose tail is where its head and count put it is a
    FIFO queue of at most `capacity` elements. -/

namespace InferenceOS
open Function

/-- A ring buffer; the slots from `capacity` on are never used. -/
structure Ring (α : Type) where
  capacity : Nat
  head : Nat
  tail : Nat
  count : Nat
  slots : Nat → α

namespace Ring
variable {α : Type} {r : Ring α} {a : α}

/-- The element at the head. -/
def front (r : Ring α) : α := r.slots r.head

/-- The buffer with another element at its tail. -/
def push (r : Ring α) (a : α) : Ring α :=
  { r with slots := update r.slots r.tail a, tail := (r.tail + 1) % r.capacity, count := r.count + 1 }

/-- The buffer without its first element, whose slot gets the value `zero`. -/
def pop (r : Ring α) (zero : α) : Ring α :=
  { r with slots := update r.slots r.head zero, head := (r.head + 1) % r.capacity, count := r.count - 1 }

/-- The elements in the order of their arrival. -/
def contents (r : Ring α) : List α := (List.range r.count).map fun i => r.slots ((r.head + i) % r.capacity)

/-- Head and tail are slots of the buffer, `count` apart. -/
structure Wf (r : Ring α) : Prop where
  head : r.head < r.capacity
  tail : r.tail = (r.head + r.count) % r.capacity
  count : r.count ≤ r.capacity

@[simp] theorem length_contents : r.contents.length = r.count := by
  rw [contents, List.length_map, List.length_range]

theorem slot_inj {c h i j : Nat} (hi : i < c) (hj : j < c) (heq : (h + i) % c = (h + j) % c) : i = j := by
  have hmod : i % c = j % c := Nat.ModEq.add_left_cancel' h heq
  rwa [Nat.mod_eq_of_lt hi, Nat.mod_eq_of_lt hj] at hmod

theorem Wf.push (h : r.Wf) (hroom : r.count < r.capacity) : (r.push a).Wf where
  head := h.head
  tail := by
    show (r.tail + 1) % r.capacity = (r.head + (r.count + 1)) % r.capacity
    rw [h.tail, Nat.mod_add_mod, Nat.add_assoc]
  count := hroom

theorem contents_push (h : r.Wf) (hroom : r.count < r.capacity) : (r.push a).contents = r.contents ++ [a] := by
  unfold contents
  show (List.range (r.count + 1)).map _ = _
  rw [List.range_succ, List.map_append, List.map_singleton]
  congr 1
  · refine List.map_congr_left fun i hi => ?_
    have hlt := List.mem_range.mp hi
    show update r.slots r.tail a ((r.head + i) % r.capacity) = _
    rw [update_of_ne]
    intro hx
    rw [h.tail] at hx
    have := slot_inj (by omega) hroom hx
    omega
  · show [update r.slots r.tail a ((r.head + r.count) % r.capacity)] = [a]
    rw [← h.tail, update_self]

theorem Wf.pop {zero : α} (h : r.Wf) (hsome : 0 < r.count) : (r.pop zero).Wf where
  head := Nat.mod_lt _ (Nat.zero_lt_of_lt h.head)
  tail := by
    show r.tail = ((r.head + 1) % r.capacity + (r.count - 1)) % r.capacity
    rw [h.tail, Nat.mod_add_mod]
    congr 1
    omega
  count := le_trans (Nat.sub_le _ _) h.count

theorem contents_pop {zero : α} (h : r.Wf) (hsome : 0 < r.count) : r.contents = r.front :: (r.pop zero).contents := by
  obtain ⟨n, hn⟩ := Nat.exists_eq_succ_of_ne_zero hsome.ne'
  have hcount := h.count
  unfold contents
  rw [hn, List.range_succ_eq_map, List.map_cons, List.map_map]
  congr 1
  · rw [Nat.add_zero, Nat.mod_eq_of_lt h.head, front]
  · show _ = (List.range (r.count - 1)).map _
    rw [hn, Nat.succ_sub_one]
    refine List.map_congr_left fun i hi => ?_
    have hlt := List.mem_range.mp hi
    show r.slots ((r.head + (i + 1)) % r.capacity) =
      update r.slots r.head zero (((r.head + 1) % r.capacity + i) % r.capacity)
    rw [Nat.mod_add_mod, Nat.add_assoc, Nat.add_comm 1 i, update_of_ne]
    intro hx
    have hzero : (r.head + (i + 1)) % r.capacity = (r.head + 0) % r.capacity := by
      rw [hx, Nat.add_zero, Nat.mod_eq_of_lt h.head]
    have := slot_inj (by omega) (by omega) hzero
    omega

theorem Wf.empty {capacity : Nat} {slots : Nat → α} (h : 0 < capacity) : (Ring.mk capacity 0 0 0 slots).Wf :=
  ⟨h, (Nat.zero_mod _).symm, Nat.zero_le _⟩

end Ring
end InferenceOS
