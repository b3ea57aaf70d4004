import Mathlib.Data.Fintype.Pi
import Mathlib.Data.List.OfFn
import Mathlib.Tactic.Ring

/-! Byte buffers of a fixed length, the copies made between them, and little-endian numbers in them. -/

namespace InferenceOS

/-- A buffer of `n` bytes. -/
abbrev Bytes (n : Nat) : Type := Fin n → UInt8

namespace Bytes
variable {n m : Nat}
variable {i k offset : Nat}

/-- The result of `memset(buffer, 0, n)`. -/
def zero : Bytes n := fun _ => 0

/-- The byte at an offset, zero past the end. -/
def byte (b : Bytes n) (i : Nat) : UInt8 := if h : i < n then b ⟨i, h⟩ else 0

/-- The result of `memcpy(b + offset, source, m)`. -/
def put (b : Bytes n) (offset : Nat) (source : Bytes m) : Bytes n := fun i =>
  if offset ≤ i.1 ∧ i.1 < offset + m then source.byte (i.1 - offset) else b i

/-- The `m` bytes from an offset. -/
def slice (b : Bytes n) (offset m : Nat) : Bytes m := fun i => b.byte (offset + i.1)

/-- A list as a buffer, padded with zeros. -/
def ofList (n : Nat) (l : List UInt8) : Bytes n := fun i => l.getD i.1 0

def toList (b : Bytes n) : List UInt8 := List.ofFn b

/-- Byte `k` of a number. -/
def digit (value k : Nat) : UInt8 := UInt8.ofNat (value / 256 ^ k)

/-- `write_u16`, `write_u32` and `write_u64`: a number as `k` little-endian bytes. -/
def ofNat (k value : Nat) : Bytes k := fun i => digit value i.1

/-- `read_u16`, `read_u32` and `read_u64`: the number in `k` little-endian bytes. -/
def toNat (b : Bytes n) (offset : Nat) : Nat → Nat
  | 0 => 0
  | k + 1 => (b.byte offset).toNat + 256 * toNat b (offset + 1) k

theorem forall_byte {P : UInt8 → Prop} (h : ∀ value < 256, P (UInt8.ofNat value)) (value : UInt8) : P value := by
  have := h value.toNat value.toNat_lt
  rwa [UInt8.ofNat_toNat] at this

/-! ### Bytes of a copy -/

variable {b : Bytes n}

theorem byte_of_lt (h : i < n) : b.byte i = b ⟨i, h⟩ := by simp [byte, h]

theorem ext_byte {a : Bytes n} (h : ∀ i, i < n → a.byte i = b.byte i) : a = b := by
  funext i
  have hi := h i.1 i.2
  rwa [byte_of_lt i.2, byte_of_lt i.2] at hi

variable {source : Bytes m}

theorem byte_put (h : i < n) :
    (b.put offset source).byte i = if offset ≤ i ∧ i < offset + m then source.byte (i - offset) else b.byte i := by
  simp [byte, h, put]

theorem byte_put_of_mem (h : offset + m ≤ n) (hi : i < m) : (b.put offset source).byte (offset + i) = source.byte i := by
  rw [byte_put (by omega), if_pos (by omega), Nat.add_sub_cancel_left]

theorem byte_put_of_not_mem (h : i < offset ∨ offset + m ≤ i) : (b.put offset source).byte i = b.byte i := by
  by_cases hi : i < n
  · rw [byte_put hi, if_neg (by omega)]
  · simp [byte, hi]

theorem byte_slice (h : i < m) : (b.slice offset m).byte i = b.byte (offset + i) := by
  rw [byte_of_lt h]
  rfl

theorem slice_put (h : offset + m ≤ n) : (b.put offset source).slice offset m = source := by
  refine ext_byte fun i hi => ?_
  rw [byte_slice hi, byte_put_of_mem h hi]

theorem slice_put_of_disjoint {start : Nat}
    (h : start + k ≤ offset ∨ offset + m ≤ start) : (b.put offset source).slice start k = b.slice start k := by
  refine ext_byte fun i hi => ?_
  rw [byte_slice hi, byte_slice hi, byte_put_of_not_mem (by omega)]

@[simp] theorem slice_zero : (zero : Bytes n).slice offset m = zero := by
  funext i
  simp [slice, byte, zero]

@[simp] theorem byte_zero : (zero : Bytes n).byte i = 0 := by simp [byte, zero]

theorem put_put {s t : Bytes m} : (b.put offset s).put offset t = b.put offset t := by
  funext i
  simp only [put]
  split <;> rfl

theorem put_slice : b.put offset (b.slice offset m) = b := by
  refine ext_byte fun i hi => ?_
  rw [byte_put hi]
  split
  · rename_i h
    rw [byte_slice (by omega), Nat.add_sub_cancel' h.1]
  · rfl

/-! ### Numbers -/

theorem toNat_digit {value : Nat} : (digit value k).toNat = value / 256 ^ k % 256 := by
  simp [digit]

theorem toNat_of_digits {b : Bytes n} {value : Nat} : ∀ {k offset j : Nat},
    (∀ i, i < k → b.byte (offset + i) = digit value (j + i)) → b.toNat offset k = value / 256 ^ j % 256 ^ k
  | 0, offset, j, _ => by simp [toNat, Nat.mod_one]
  | k + 1, offset, j, h => by
    have ih : b.toNat (offset + 1) k = value / 256 ^ (j + 1) % 256 ^ k := by
      refine toNat_of_digits fun i hi => ?_
      have := h (i + 1) (by omega)
      rw [show offset + 1 + i = offset + (i + 1) by ring, this, show j + (i + 1) = j + 1 + i by ring]
    have h0 := h 0 (by omega)
    rw [Nat.add_zero, Nat.add_zero] at h0
    rw [toNat, h0, ih, toNat_digit, pow_succ 256 j, ← Nat.div_div_eq_div_mul, pow_succ' 256 k]
    exact (Nat.mod_mul).symm

theorem toNat_put {value : Nat} (h : offset + k ≤ n) : (b.put offset (ofNat k value)).toNat offset k = value % 256 ^ k := by
  have hd : ∀ i, i < k → (b.put offset (ofNat k value)).byte (offset + i) = digit value (0 + i) := by
    intro i hi
    rw [byte_put_of_mem h hi, byte_of_lt hi, Nat.zero_add]
    rfl
  have := toNat_of_digits hd
  simpa using this

theorem toNat_congr {a : Bytes n} {b : Bytes m} : ∀ {k s t : Nat}, (∀ i, i < k → a.byte (s + i) = b.byte (t + i)) →
    a.toNat s k = b.toNat t k
  | 0, _, _, _ => rfl
  | k + 1, s, t, h => by
    have h0 := h 0 (by omega)
    rw [Nat.add_zero, Nat.add_zero] at h0
    rw [toNat, toNat, h0, toNat_congr fun i hi => ?_]
    have := h (i + 1) (by omega)
    rwa [← Nat.add_assoc, ← Nat.add_assoc, Nat.add_right_comm s, Nat.add_right_comm t] at this

theorem toNat_put_of_disjoint {start : Nat}
    (h : start + k ≤ offset ∨ offset + m ≤ start) : (b.put offset source).toNat start k = b.toNat start k :=
  toNat_congr fun i hi => byte_put_of_not_mem (by omega)

theorem toNat_zero : ∀ {offset k : Nat}, (zero : Bytes n).toNat offset k = 0
  | _, 0 => rfl
  | offset, k + 1 => by
    rw [toNat, byte_zero, toNat_zero]
    rfl

theorem toNat_lt {b : Bytes n} : ∀ {offset k : Nat}, b.toNat offset k < 256 ^ k
  | offset, 0 => by simp [toNat]
  | offset, k + 1 => by
    have ih : b.toNat (offset + 1) k < 256 ^ k := toNat_lt
    have hb := (b.byte offset).toNat_lt
    rw [toNat, pow_succ]
    omega

theorem byte_of_toNat {a b : Bytes n} : ∀ {k offset : Nat}, a.toNat offset k = b.toNat offset k →
    ∀ i, i < k → a.byte (offset + i) = b.byte (offset + i)
  | k + 1, offset, h, i, hi => by
    rw [toNat, toNat] at h
    have ha := (a.byte offset).toNat_lt
    have hb := (b.byte offset).toNat_lt
    cases i with
    | zero =>
      have h0 : (a.byte offset).toNat = (b.byte offset).toNat := by omega
      exact UInt8.toNat_inj.mp h0
    | succ i =>
      have hrest := @byte_of_toNat a b k (offset + 1) (by omega) i (by omega)
      rwa [Nat.add_assoc, Nat.add_comm 1] at hrest

theorem slice_of_toNat {a : Bytes n} (h : a.toNat offset k = b.toNat offset k) : a.slice offset k = b.slice offset k :=
  funext fun i => byte_of_toNat h i.1 i.2

/-! ### Fields laid end to end -/

/-- Two buffers agree on the fields of some widths that follow one another from an offset. -/
def Agree (a b : Bytes n) (offset : Nat) : List Nat → Prop
  | [] => True
  | width :: widths => a.slice offset width = b.slice offset width ∧ Agree a b (offset + width) widths

theorem Agree.byte {a b : Bytes n} : ∀ {widths : List Nat} {offset i : Nat}, Agree a b offset widths → offset ≤ i →
    i < offset + widths.sum → a.byte i = b.byte i
  | [], offset, i, _, hlow, hhigh => absurd hhigh (by simpa using hlow)
  | width :: widths, offset, i, ⟨hfield, hrest⟩, hlow, hhigh => by
    rw [List.sum_cons] at hhigh
    obtain hi | hi := Nat.lt_or_ge i (offset + width)
    · have := congrArg (Bytes.byte · (i - offset)) hfield
      rwa [byte_slice (by omega), byte_slice (by omega), Nat.add_sub_cancel' hlow] at this
    · exact hrest.byte hi (by omega)

theorem Agree.eq {a : Bytes n} {widths : List Nat} (h : Agree a b 0 widths) (hn : n ≤ widths.sum) : a = b :=
  ext_byte fun i hi => h.byte (Nat.zero_le i) (by omega)

/-! ### Consecutive buffers -/

theorem getElem?_toList : b.toList[i]? = if i < n then some (b.byte i) else none := by
  rw [toList, List.getElem?_ofFn]
  split
  · rename_i hi
    rw [byte_of_lt hi]
  · rfl

/-- The bytes of buffers that follow one another. -/
def concat (buffers : List (Bytes n)) : List UInt8 := buffers.flatMap toList

@[simp] theorem length_concat : ∀ {buffers : List (Bytes n)}, (concat buffers).length = buffers.length * n
  | [] => by simp [concat]
  | b :: buffers => by
    have ih := @length_concat buffers
    unfold concat at ih ⊢
    rw [List.flatMap_cons, List.length_append, ih, toList, List.length_ofFn, List.length_cons]
    ring

theorem getElem?_concat : ∀ {buffers : List (Bytes n)} {i : Nat},
    (concat buffers)[i]? = buffers[i / n]?.bind fun b => if i % n < n then some (b.byte (i % n)) else none
  | [], i => by simp [concat]
  | b :: buffers, i => by
    have ih := @getElem?_concat buffers (i - n)
    unfold concat at ih ⊢
    rw [List.flatMap_cons, List.getElem?_append, toList, List.length_ofFn, ← toList]
    split
    · rename_i hi
      rw [Nat.div_eq_of_lt hi, Nat.mod_eq_of_lt hi, getElem?_toList, List.getElem?_cons_zero]
      rfl
    · rename_i hi
      rw [ih]
      obtain rfl | hn := Nat.eq_zero_or_pos n
      · simp
      · have hdiv : i / n = (i - n) / n + 1 := by
          rw [← Nat.sub_add_cancel (not_lt.mp hi), Nat.add_div_right _ hn, Nat.add_sub_cancel]
        have hmod : i % n = (i - n) % n := Nat.mod_eq_sub_mod (not_lt.mp hi)
        rw [hdiv, hmod, List.getElem?_cons_succ]

end Bytes
end InferenceOS
