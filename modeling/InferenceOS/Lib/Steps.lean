/-! Conditions on the steps of a deterministic system: each step meets the condition in the state that it finds. -/

namespace InferenceOS
variable {σ α : Type} {step : σ → α → σ} {P : σ → α → Prop} {s : σ} {actions : List α}

/-- Every action meets the condition in the state that it finds. -/
def AllSteps (step : σ → α → σ) (P : σ → α → Prop) : σ → List α → Prop
  | _, [] => True
  | s, a :: rest => P s a ∧ AllSteps step P (step s a) rest

theorem allSteps_iff : AllSteps step P s actions ↔ ∀ before a rest, actions = before ++ a :: rest → P (before.foldl step s) a := by
  induction actions generalizing s with
  | nil => exact ⟨fun _ before a rest h => absurd h.symm (List.append_ne_nil_of_right_ne_nil _ (List.cons_ne_nil _ _)), fun _ => trivial⟩
  | cons b actions ih =>
    rw [AllSteps, ih]
    constructor
    · rintro ⟨hb, hactions⟩ before a rest h
      cases before with
      | nil =>
        obtain ⟨rfl, -⟩ := List.cons.inj h
        exact hb
      | cons c before =>
        obtain ⟨rfl, hrest⟩ := List.cons.inj h
        exact hactions before a rest hrest
    · intro h
      exact ⟨h [] b actions rfl, fun before a rest heq => h (b :: before) a rest (by rw [heq, List.cons_append])⟩

theorem AllSteps.before {before rest : List α} (h : AllSteps step P s (before ++ rest)) : AllSteps step P s before := by
  induction before generalizing s with
  | nil => trivial
  | cons a before ih => exact ⟨h.1, ih h.2⟩

theorem survives_iff {I R : σ → Prop} (hkeep : ∀ s a, I s → I (step s a)) (hstep : ∀ s a, I s → (R (step s a) ↔ R s ∧ P s a))
    (hs : I s) : R (actions.foldl step s) ↔ R s ∧ AllSteps step P s actions := by
  induction actions generalizing s with
  | nil => exact ⟨fun h => ⟨h, trivial⟩, And.left⟩
  | cons a actions ih => rw [List.foldl_cons, ih (hkeep s a hs), hstep s a hs, AllSteps, and_assoc]

end InferenceOS
