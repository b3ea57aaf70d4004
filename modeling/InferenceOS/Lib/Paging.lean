import InferenceOS.Lib.Program
import Mathlib.Data.List.Basic

/-! Pages of a list, and callers that follow the continuations from page to page. The continuation zero is the start of
    the list, and as the continuation of a page it is the end. -/

namespace InferenceOS
namespace Program

section Paging
variable {ε σ α : Type} {l : List α} {continuation capacity : Nat}

/-- The page after the first `continuation` elements, with the continuation of the next one. -/
def pageOf (l : List α) (continuation capacity : Nat) : List α × Nat :=
  ((l.drop continuation).take capacity, if continuation + capacity < l.length then continuation + capacity else 0)

theorem pageOf_length_le : (pageOf l continuation capacity).1.length ≤ capacity := List.length_take_le _ _

theorem pageOf_ne_nil (hc : 0 < capacity) (h : (pageOf l continuation capacity).2 ≠ 0) :
    (pageOf l continuation capacity).1.length ≠ 0 := by
  simp only [pageOf, List.length_take, List.length_drop] at h ⊢
  split at h
  · omega
  · exact absurd rfl h

/-- Follow the pages for some turns, each with a capacity of its own; none when the end was not reached. -/
def followPages (page : Nat → Nat → Program ε σ (List α × Nat)) (capacities : Nat → Nat) :
    Nat → Nat → Nat → Program ε σ (Option (List α))
  | 0, _, _ => pure none
  | turns + 1, turn, continuation => do
    let (entries, next) ← page continuation (capacities turn)
    if next = 0 then pure (some entries)
    else do
      let rest ← followPages page capacities turns (turn + 1) next
      pure (rest.map (entries ++ ·))

theorem followPages_shown {β : Type} {page : Nat → Nat → Program ε σ (List β × Nat)} {capacities : Nat → Nat} {I : σ → Prop}
    {E : ε → σ → Prop} {R : List α → List β → Prop} (happend : ∀ a b a' b', R a b → R a' b' → R (a ++ a') (b ++ b'))
    (hcapacities : ∀ turn, 0 < capacities turn)
    (hpage : ∀ turn continuation s, I s → wp (page continuation (capacities turn))
      (fun r t => (R (pageOf l continuation (capacities turn)).1 r.1 ∧ r.2 = (pageOf l continuation (capacities turn)).2) ∧ I t) E s) :
    ∀ {turns turn continuation : Nat} {s : σ}, I s → l.length - continuation < turns →
      wp (followPages page capacities turns turn continuation) (fun r t => (∃ shown, r = some shown ∧ R (l.drop continuation) shown) ∧ I t)
        E s
  | 0, turn, continuation, s, hs, hl => absurd hl (Nat.not_lt_zero _)
  | turns + 1, turn, continuation, s, hs, hl => by
    rw [followPages, wp_bind]
    refine wp_mono (hpage turn continuation s hs) (fun r t ⟨⟨hr, hn⟩, ht⟩ => ?_) fun _ _ he => he
    obtain ⟨entries, next⟩ := r
    have hpos := hcapacities turn
    dsimp only [pageOf] at hr hn ⊢
    by_cases hmore : continuation + capacities turn < l.length
    · rw [if_pos hmore] at hn
      have hnext : ¬next = 0 := by omega
      rw [if_neg hnext, wp_bind]
      refine wp_mono (followPages_shown happend hcapacities hpage ht (by omega)) (fun rest u ⟨⟨shown, hshown, hrest⟩, hu⟩ => ?_)
        fun _ _ he => he
      rw [wp_pure]
      refine ⟨⟨entries ++ shown, by rw [hshown, Option.map_some], ?_⟩, hu⟩
      have hwhole := happend _ _ _ _ hr hrest
      rwa [hn, ← List.drop_drop, List.take_append_drop] at hwhole
    · rw [if_neg hmore] at hn
      rw [if_pos hn, wp_pure]
      refine ⟨⟨entries, rfl, ?_⟩, ht⟩
      rwa [List.take_of_length_le (by rw [List.length_drop]; omega)] at hr

theorem followPages_spec {page : Nat → Nat → Program ε σ (List α × Nat)} {capacities : Nat → Nat} {I : σ → Prop}
    {E : ε → σ → Prop} (hcapacities : ∀ turn, 0 < capacities turn)
    (hpage : ∀ continuation capacity s, I s → 0 < capacity →
      wp (page continuation capacity) (fun r t => r = pageOf l continuation capacity ∧ I t) E s)
    {turns turn continuation : Nat} {s : σ} (hs : I s) (hl : l.length - continuation < turns) :
    wp (followPages page capacities turns turn continuation) (fun r t => r = some (l.drop continuation) ∧ I t) E s := by
  have hshown := @followPages_shown _ _ _ l _ page capacities I E (· = ·) (fun _ _ _ _ ha hb => by rw [ha, hb]) hcapacities
    (fun turn continuation s hs => wp_mono (hpage continuation (capacities turn) s hs (hcapacities turn))
      (fun r t ⟨hr, ht⟩ => ⟨by rw [hr]; exact ⟨rfl, rfl⟩, ht⟩) fun _ _ he => he) turns turn continuation s hs hl
  refine wp_mono hshown (fun r t ⟨⟨shown, hr, heq⟩, ht⟩ => ⟨?_, ht⟩) fun _ _ he => he
  rw [hr, heq]

end Paging

end Program
end InferenceOS
