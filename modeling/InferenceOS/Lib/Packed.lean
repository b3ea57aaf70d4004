import Mathlib.Logic.Function.Basic

/-! Two-bit fields, four to a byte. Setting a field leaves the others alone. -/

namespace InferenceOS
namespace Packed

/-- Field `i` of the bytes. -/
def field (bytes : Nat → BitVec 8) (i : Nat) : BitVec 8 := bytes (i / 4) >>> (i % 4 * 2) &&& 3#8

/-- The bytes with field `i` set to `value`. -/
def setField (bytes : Nat → BitVec 8) (i : Nat) (value : BitVec 8) : Nat → BitVec 8 :=
  Function.update bytes (i / 4) (bytes (i / 4) &&& ~~~(3#8 <<< (i % 4 * 2)) ||| value <<< (i % 4 * 2))

theorem byte_self : ∀ (b : BitVec 8) (k v : Fin 4),
    (b &&& ~~~(3#8 <<< (k.1 * 2)) ||| BitVec.ofNat 8 v.1 <<< (k.1 * 2)) >>> (k.1 * 2) &&& 3#8 = BitVec.ofNat 8 v.1 := by
  decide +kernel

theorem byte_other : ∀ (b : BitVec 8) (k j v : Fin 4), j ≠ k →
    (b &&& ~~~(3#8 <<< (k.1 * 2)) ||| BitVec.ofNat 8 v.1 <<< (k.1 * 2)) >>> (j.1 * 2) &&& 3#8 = b >>> (j.1 * 2) &&& 3#8 := by
  decide +kernel

variable {bytes : Nat → BitVec 8} {i j : Nat}

theorem field_setField {v : Fin 4} : field (setField bytes i (BitVec.ofNat 8 v.1)) j =
    if j = i then BitVec.ofNat 8 v.1 else field bytes j := by
  unfold field setField
  by_cases hbyte : j / 4 = i / 4
  · rw [hbyte, Function.update_self]
    by_cases hi : j = i
    · rw [if_pos hi, hi]
      exact byte_self (bytes (i / 4)) (Fin.ofNat 4 i) v
    · have hne : Fin.ofNat 4 j ≠ Fin.ofNat 4 i := fun hx => hi (by
        have hmod : j % 4 = i % 4 := congrArg Fin.val hx
        omega)
      rw [if_neg hi]
      exact byte_other (bytes (i / 4)) (Fin.ofNat 4 i) (Fin.ofNat 4 j) v hne
  · rw [Function.update_of_ne hbyte, if_neg fun hx => hbyte (by rw [hx])]

theorem field_zero : field (fun _ => 0#8) i = 0#8 := by
  simp [field]

end Packed
end InferenceOS
