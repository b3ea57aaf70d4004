import Mathlib.Data.List.Nodup
import Mathlib.Logic.Function.Basic

/-! Queues that are linked through their own nodes. A queue is a pointer to its first node; each node points to the
    next one. The list of the nodes is what the queue stands for. -/

namespace InferenceOS

/-- From `head` on the pointers run through the nodes of a list and end there. -/
def Linked {ν : Type} (next : ν → Option ν) : Option ν → List ν → Prop
  | head, [] => head = none
  | head, a :: l => head = some a ∧ Linked next (next a) l

namespace Linked
variable {ν : Type} {next next' : ν → Option ν} {head : Option ν} {a b : ν} {l l' l₂ : List ν}

theorem unique : ∀ {head : Option ν} {l l' : List ν}, Linked next head l → Linked next head l' → l = l'
  | _, [], [], _, _ => rfl
  | _, [], _ :: _, h, h' => nomatch h.symm.trans h'.1
  | _, _ :: _, [], h, h' => nomatch h'.symm.trans h.1
  | _, a :: l, b :: l', h, h' => by
    obtain rfl := Option.some.inj (h.1.symm.trans h'.1)
    rw [unique h.2 h'.2]

theorem congr : ∀ {head : Option ν} {l : List ν}, (∀ a ∈ l, next' a = next a) → Linked next head l → Linked next' head l
  | _, [], _, h => h
  | _, a :: l, heq, h => ⟨h.1, by
      rw [heq a List.mem_cons_self]
      exact congr (fun b hb => heq b (List.mem_cons_of_mem a hb)) h.2⟩

theorem head_eq (h : Linked next head l) : head = l.head? := by
  cases l with
  | nil => exact h
  | cons a l => exact h.1

variable [DecidableEq ν]

theorem update (h : Linked next head l) (ha : a ∉ l) {p : Option ν} : Linked (Function.update next a p) head l :=
  by
  refine h.congr fun b hb => Function.update_of_ne ?_ _ _
  rintro rfl
  exact ha hb

theorem snoc : ∀ {head : Option ν} {l : List ν}, Linked next head (l ++ [b]) → (l ++ [b]).Nodup → a ∉ l ++ [b] → next a = none →
    Linked (Function.update next b (some a)) head (l ++ [b, a])
  | _, [], h, _, ha, hn => by
    have hne : a ≠ b := fun hx => ha (hx ▸ List.mem_singleton_self b)
    refine ⟨h.1, ?_, ?_⟩
    · rw [Function.update_self]
    · show Function.update next b (some a) a = none
      rw [Function.update_of_ne hne, hn]
  | _, c :: l, h, hd, ha, hn => by
    rw [List.cons_append] at hd ha h
    have hne : c ≠ b := by
      rintro rfl
      exact (List.nodup_cons.mp hd).1 (List.mem_append_right l (List.mem_singleton_self c))
    refine ⟨h.1, ?_⟩
    rw [Function.update_of_ne hne]
    exact snoc h.2 (List.nodup_cons.mp hd).2 (fun hx => ha (List.mem_cons_of_mem c hx)) hn

theorem unlink : ∀ {head : Option ν} {l : List ν}, Linked next head (l ++ b :: a :: l₂) → (l ++ b :: a :: l₂).Nodup →
    Linked (Function.update next b (next a)) head (l ++ b :: l₂)
  | _, [], h, hd => by
    refine ⟨h.1, ?_⟩
    rw [Function.update_self]
    refine h.2.2.update fun hx => (List.nodup_cons.mp hd).1 (List.mem_cons_of_mem a hx)
  | _, c :: l, h, hd => by
    rw [List.cons_append] at hd h ⊢
    have hne : c ≠ b := by
      rintro rfl
      exact (List.nodup_cons.mp hd).1 (List.mem_append_right l List.mem_cons_self)
    refine ⟨h.1, ?_⟩
    rw [Function.update_of_ne hne]
    exact unlink h.2 (List.nodup_cons.mp hd).2

end Linked
end InferenceOS
