import Mathlib.Logic.Function.Basic

/-! Programs that change a state and may stop with an error. An error keeps the state reached so far,
    as a C function that returns a status early does. The rules of this file compute the weakest
    precondition of a program from those of its parts, with one postcondition for the result and one
    for the error. -/

namespace InferenceOS
variable {c : Prop}

/-- A program over the states `σ` that returns a value, or stops with an error of type `ε`. -/
def Program (ε σ α : Type) : Type := σ → Except ε α × σ

namespace Program
variable {ε σ τ α β : Type}
variable {s t : σ} {a : α} {e : ε} {r : Except ε α} {b : β}

instance : Monad (Program ε σ) where
  pure a := fun s => (.ok a, s)
  bind m f := fun s =>
    match m s with
    | (.ok a, t) => f a t
    | (.error e, t) => (.error e, t)

/-- Stop with an error. -/
def fail (e : ε) : Program ε σ α := fun s => (.error e, s)

/-- The current state. -/
def get : Program ε σ σ := fun s => (.ok s, s)

/-- Change the state. -/
def modify (f : σ → σ) : Program ε σ Unit := fun s => (.ok (), f s)

/-- Stop with `e` when the condition holds. -/
def failIf (c : Prop) [Decidable c] (e : ε) : Program ε σ Unit := if c then fail e else pure ()

/-- Run a program and hand on its outcome, as a caller that inspects a status does. -/
def attempt (m : Program ε σ α) : Program ε σ (Except ε α) := fun s => (.ok (m s).1, (m s).2)

/-- An outcome computed without the state. -/
def ofExcept (r : Except ε α) : Program ε σ α := fun s => (r, s)

/-- Run a program on a part of the state. -/
def zoom (part : σ → τ) (put : σ → τ → σ) (m : Program ε τ α) : Program ε σ α := fun s =>
  ((m (part s)).1, put s (m (part s)).2)

/-- Run a program for each element of a list, in order. -/
def each (f : α → Program ε σ Unit) : List α → Program ε σ Unit
  | [] => pure ()
  | a :: l => do
    f a
    each f l

/-- The weakest precondition of `m`: a result satisfies `Q` and an error satisfies `E`. -/
def wp (m : Program ε σ α) (Q : α → σ → Prop) (E : ε → σ → Prop) (s : σ) : Prop :=
  match m s with
  | (.ok a, t) => Q a t
  | (.error e, t) => E e t

variable {m m₁ m₂ : Program ε σ α} {f : α → Program ε σ β}

theorem bind_ok (h : m s = (.ok a, t)) : (m >>= f) s = f a t := by
  show (match m s with | (.ok a, t) => f a t | (.error e, t) => (.error e, t)) = f a t
  rw [h]

theorem bind_error (h : m s = (.error e, t)) : (m >>= f) s = (.error e, t) := by
  show (match m s with | (.ok a, t) => f a t | (.error e, t) => (.error e, t)) = (.error e, t)
  rw [h]

theorem get_bind {f : σ → Program ε σ α} : (get >>= f) s = f s s := rfl

theorem modify_bind {g : σ → σ} {f : Unit → Program ε σ α} : (modify g >>= f) s = f () (g s) := rfl

theorem attempt_bind {m : Program ε σ β} {f : Except ε β → Program ε σ α} : (attempt m >>= f) s = f (m s).1 (m s).2 := rfl

theorem attempt_eq (h : m s = (r, t)) : attempt m s = (.ok r, t) := by
  rw [attempt, h]

theorem failIf_bind [Decidable c] {f : Unit → Program ε σ α} (h : c) : failIf c e >>= f = fail e := by
  rw [failIf, if_pos h]
  rfl

theorem failIf_pass [Decidable c] {f : Unit → Program ε σ α} (h : ¬c) : failIf c e >>= f = f () := by
  rw [failIf, if_neg h]
  rfl

theorem ofExcept_ok_bind : ofExcept (.ok a) >>= f = f a := rfl

theorem of_bind_run (h : (m >>= f) s = (.ok b, t)) : ∃ a u, m s = (.ok a, u) ∧ f a u = (.ok b, t) := by
  rcases hm : m s with ⟨e | a, u⟩
  · rw [bind_error hm] at h
    cases h
  · rw [bind_ok hm] at h
    exact ⟨a, u, rfl, h⟩

theorem of_failIf_run [Decidable c] {f : Unit → Program ε σ α} {b : α}
    (h : (failIf c e >>= f) s = (.ok b, t)) : ¬c ∧ f () s = (.ok b, t) := by
  by_cases hc : c
  · rw [failIf_bind hc] at h
    cases h
  · rw [failIf_pass hc] at h
    exact ⟨hc, h⟩

theorem of_ofExcept_run (h : (ofExcept r >>= f) s = (.ok b, t)) : ∃ a, r = .ok a ∧ f a s = (.ok b, t) := by
  cases r with
  | error e => cases h
  | ok a => exact ⟨a, rfl, h⟩

theorem bind_assoc {γ : Type} (m : Program ε σ α) (f : α → Program ε σ β) (g : β → Program ε σ γ) :
    m >>= f >>= g = m >>= fun a => f a >>= g := by
  funext s
  show (match (match m s with | (.ok a, t) => f a t | (.error e, t) => (.error e, t)) with
    | (.ok b, t) => g b t | (.error e, t) => (.error e, t)) =
    match m s with
    | (.ok a, t) => (match f a t with | (.ok b, t) => g b t | (.error e, t) => (.error e, t))
    | (.error e, t) => (.error e, t)
  rcases m s with ⟨e | a, t⟩ <;> rfl

theorem fmap_bind {γ : Type} (m : Program ε σ α) (f : α → Program ε σ β) (g : β → γ) :
    g <$> (m >>= f) = m >>= fun a => g <$> f a := bind_assoc m f fun b => pure (g b)

theorem run_eq (h : (m s).1 = r) : m s = (r, (m s).2) :=
  Prod.ext h rfl

theorem of_toOption (h : r.toOption = some a) : r = .ok a := by
  cases r <;> cases h
  rfl

theorem of_bind_ok {f : α → Except ε β} (h : r >>= f = .ok b) : ∃ a, r = .ok a ∧ f a = .ok b := by
  cases r with
  | error e => cases h
  | ok a => exact ⟨a, rfl, h⟩

theorem of_check [Decidable c] {f : PUnit → Except ε β}
    (h : (if c then (Except.error e : Except ε PUnit) >>= f else f ⟨⟩) = .ok b) : ¬c ∧ f ⟨⟩ = .ok b := by
  split at h
  · cases h
  · exact ⟨‹_›, h⟩

/-! ### Rules -/

section Rules
variable {Q : α → σ → Prop} {E : ε → σ → Prop} {s t : σ}

@[simp] theorem wp_pure : wp (pure a : Program ε σ α) Q E s = Q a s := propext Iff.rfl

@[simp] theorem wp_fail : wp (fail e : Program ε σ α) Q E s = E e s := propext Iff.rfl

@[simp] theorem wp_get {Q : σ → σ → Prop} : wp (get : Program ε σ σ) Q E s = Q s s := propext Iff.rfl

@[simp] theorem wp_modify {f : σ → σ} {Q : Unit → σ → Prop} : wp (modify f : Program ε σ Unit) Q E s = Q () (f s) :=
  propext Iff.rfl

@[simp] theorem wp_bind {m : Program ε σ β} {f : β → Program ε σ α} :
    wp (m >>= f) Q E s = wp m (fun b => wp (f b) Q E) E s := by
  show wp (fun s => match m s with | (.ok a, t) => f a t | (.error e, t) => (.error e, t)) Q E s = _
  unfold wp
  dsimp only
  rcases m s with ⟨b | b, t⟩ <;> rfl

@[simp] theorem wp_map {m : Program ε σ β} {f : β → α} :
    wp (f <$> m) Q E s = wp m (fun b => Q (f b)) E s := by
  show wp (m >>= fun b => pure (f b)) Q E s = _
  rw [wp_bind]
  rfl

@[simp] theorem wp_failIf [Decidable c] {Q : Unit → σ → Prop} :
    wp (failIf c e : Program ε σ Unit) Q E s = ((c → E e s) ∧ (¬c → Q () s)) := by
  unfold failIf
  split <;> rename_i h <;> simp [h]

@[simp] theorem wp_attempt {Q : Except ε α → σ → Prop} :
    wp (attempt m) Q E s = wp m (fun a => Q (.ok a)) (fun e => Q (.error e)) s := by
  unfold wp attempt
  rcases m s with ⟨b | b, t⟩ <;> rfl

@[simp] theorem wp_ofExcept : wp (ofExcept r : Program ε σ α) Q E s = ((∀ a, r = .ok a → Q a s) ∧ ∀ e, r = .error e → E e s) := by
  unfold wp ofExcept
  cases r <;> simp

@[simp] theorem wp_zoom {part : σ → τ} {put : σ → τ → σ} {m : Program ε τ α} :
    wp (zoom part put m) Q E s = wp m (fun a t => Q a (put s t)) (fun e t => E e (put s t)) (part s) := by
  unfold wp zoom
  rcases m (part s) with ⟨b | b, t⟩ <;> rfl

theorem wp_ite [Decidable c] : wp (if c then m₁ else m₂) Q E s ↔ (c → wp m₁ Q E s) ∧ (¬c → wp m₂ Q E s) := by
  split <;> rename_i h <;> simp [h]

theorem wp_mono {Q' : α → σ → Prop} {E' : ε → σ → Prop} (h : wp m Q E s)
    (hQ : ∀ a t, Q a t → Q' a t) (hE : ∀ e t, E e t → E' e t) : wp m Q' E' s := by
  unfold wp at h ⊢
  split at h
  · exact hQ _ _ h
  · exact hE _ _ h

theorem wp_and {Q' : α → σ → Prop} {E' : ε → σ → Prop} (h : wp m Q E s) (h' : wp m Q' E' s) :
    wp m (fun a t => Q a t ∧ Q' a t) (fun e t => E e t ∧ E' e t) s := by
  unfold wp at *
  generalize m s = r at *
  rcases r with ⟨b | b, t⟩ <;> exact ⟨h, h'⟩

theorem wp_ok (h : wp m Q E s) (hr : m s = (.ok a, t)) : Q a t := by
  unfold wp at h
  rwa [hr] at h

theorem wp_cases (h : wp m Q E s) : (∃ a t, m s = (.ok a, t) ∧ Q a t) ∨ ∃ e t, m s = (.error e, t) ∧ E e t := by
  unfold wp at h
  split at h
  · exact .inl ⟨_, _, ‹_›, h⟩
  · exact .inr ⟨_, _, ‹_›, h⟩

theorem wp_error (h : wp m Q E s) (hr : m s = (.error e, t)) : E e t := by
  unfold wp at h
  rwa [hr] at h

theorem wp_bind_ok {m : Program ε σ β} {f : β → Program ε σ α} (h : m s = (.ok b, t)) : wp (m >>= f) Q E s ↔ wp (f b) Q E t := by
  unfold wp
  rw [bind_ok h]

theorem wp_iff : wp m Q E s ↔ (∀ a t, m s = (.ok a, t) → Q a t) ∧ ∀ e t, m s = (.error e, t) → E e t := by
  unfold wp
  rcases m s with ⟨b | b, t⟩ <;> simp

end Rules

/-! ### Loops -/

@[simp] theorem wp_each_nil {f : α → Program ε σ Unit} {Q : Unit → σ → Prop} {E : ε → σ → Prop} :
    wp (each f []) Q E s = Q () s := propext Iff.rfl

@[simp] theorem wp_each_cons {f : α → Program ε σ Unit} {Q : Unit → σ → Prop} {E : ε → σ → Prop} {l : List α} :
    wp (each f (a :: l)) Q E s = wp (f a) (fun _ => wp (each f l) Q E) E s := by
  rw [each, wp_bind]

theorem wp_each_append {f : α → Program ε σ Unit} {Q : Unit → σ → Prop} {E : ε → σ → Prop} {l' : List α} :
    ∀ {l : List α} {s : σ}, wp (each f (l ++ l')) Q E s ↔ wp (each f l) (fun _ => wp (each f l') Q E) E s
  | [], s => Iff.rfl
  | a :: l, s => by
    rw [List.cons_append, wp_each_cons, wp_each_cons]
    constructor
    · exact fun h => wp_mono h (fun _ _ ht => wp_each_append.mp ht) fun _ _ h => h
    · exact fun h => wp_mono h (fun _ _ ht => wp_each_append.mpr ht) fun _ _ h => h

theorem wp_each_foldl {f : α → Program ε σ Unit} {g : β → α → β} {P : β → σ → Prop} {E : ε → σ → Prop} {l : List α}
    (hf : ∀ a ∈ l, ∀ b s, P b s → wp (f a) (fun _ t => P (g b a) t) E s) {b : β} {s : σ} (h : P b s) :
    wp (each f l) (fun _ t => P (l.foldl g b) t) E s := by
  induction l generalizing b s with
  | nil => rwa [List.foldl_nil, wp_each_nil]
  | cons a l ih =>
    rw [wp_each_cons]
    refine wp_mono (hf a List.mem_cons_self b s h) (fun _ t ht => ?_) fun _ _ hx => hx
    exact ih (fun a' ha => hf a' (List.mem_cons_of_mem a ha)) ht

/-! ### Relations that programs keep -/

/-- Every run of the program goes from a state to a related one, whatever its outcome. -/
def Keeps (R : σ → σ → Prop) (m : Program ε σ α) : Prop := ∀ s, R s (m s).2

section Keeps
variable {R : σ → σ → Prop} {m : Program ε σ α} {s t : σ}

theorem of_wp {P : σ → Prop} (h : wp m (fun _ t => P t) (fun _ t => P t) s) : P (m s).2 := by
  unfold wp at h
  split at h
  all_goals
    rename_i hm
    rw [hm]
    exact h

theorem wp_final {P : σ → Prop} (h : P (m s).2) : wp m (fun _ t => P t) (fun _ t => P t) s := by
  unfold wp
  rcases hm : m s with ⟨e | a, t⟩ <;> rwa [hm] at h

theorem Keeps.run (h : Keeps R m) (hr : m s = (r, t)) : R s t := by
  have := h s
  rwa [hr] at this

theorem Keeps.wp (h : Keeps R m) : wp m (fun _ t => R s t) (fun _ t => R s t) s := wp_iff.mpr ⟨fun _ _ => h.run, fun _ _ => h.run⟩

theorem keeps_pure [Std.Refl R] : Keeps R (pure a : Program ε σ α) := fun s => Std.Refl.refl s

theorem keeps_fail [Std.Refl R] : Keeps R (fail e : Program ε σ α) := fun s => Std.Refl.refl s

theorem keeps_get [Std.Refl R] : Keeps R (get : Program ε σ σ) := fun s => Std.Refl.refl s

theorem keeps_ofExcept [Std.Refl R] : Keeps R (ofExcept r : Program ε σ α) := fun s => Std.Refl.refl s

theorem keeps_failIf [Std.Refl R] [Decidable c] : Keeps R (failIf c e : Program ε σ Unit) := by
  unfold failIf
  split
  · exact keeps_fail
  · exact keeps_pure

theorem keeps_modify {f : σ → σ} (h : ∀ s, R s (f s)) : Keeps R (modify f : Program ε σ Unit) := h

theorem Keeps.attempt (h : Keeps R m) : Keeps R (attempt m) := h

theorem Keeps.mono {R' : σ → σ → Prop} (h : Keeps R m) (hR : ∀ s t, R s t → R' s t) : Keeps R' m := fun s => hR _ _ (h s)

theorem Keeps.bind [IsTrans σ R] (h : Keeps R m) (hf : ∀ a, Keeps R (f a)) : Keeps R (m >>= f) := by
  intro s
  show R s (match m s with | (.ok a, t) => f a t | (.error e, t) => (.error e, t)).2
  have hm := h s
  rcases hs : m s with ⟨e | a, t⟩
  · rwa [hs] at hm
  · rw [hs] at hm
    exact IsTrans.trans _ _ _ hm (hf a t)

theorem keeps_get_bind {f : σ → Program ε σ β} (h : ∀ s, R s (f s s).2) : Keeps R (get >>= f) := h

theorem Keeps.map [Std.Refl R] [IsTrans σ R] {f : α → β} (h : Keeps R m) : Keeps R (f <$> m) := h.bind fun _ => keeps_pure

theorem keeps_ite [Decidable c] (h₁ : c → Keeps R m₁) (h₂ : ¬c → Keeps R m₂) : Keeps R (if c then m₁ else m₂) := by
  split
  · exact h₁ ‹_›
  · exact h₂ ‹_›

theorem keeps_each [Std.Refl R] [IsTrans σ R] {f : α → Program ε σ Unit} : ∀ {l : List α}, (∀ a ∈ l, Keeps R (f a)) →
    Keeps R (each f l)
  | [], _ => keeps_pure
  | a :: _, h => (h a List.mem_cons_self).bind fun _ => keeps_each fun b hb => h b (List.mem_cons_of_mem a hb)

end Keeps

/-! ### Two programs side by side -/

/-- From related states two programs have the same outcome, and they end in related states. -/
def Matches (R : σ → τ → Prop) (m : Program ε σ α) (m' : Program ε τ α) : Prop :=
  ∀ s t, R s t → (m s).1 = (m' t).1 ∧ R (m s).2 (m' t).2

section Matches
variable {R : σ → τ → Prop} {m : Program ε σ α} {m' : Program ε τ α}

theorem matches_pure : Matches R (pure a : Program ε σ α) (pure a) := fun _ _ h => ⟨rfl, h⟩

theorem matches_fail : Matches R (fail e : Program ε σ α) (fail e) := fun _ _ h => ⟨rfl, h⟩

theorem matches_ofExcept : Matches R (ofExcept r : Program ε σ α) (ofExcept r) := fun _ _ h => ⟨rfl, h⟩

theorem matches_modify {f : σ → σ} {g : τ → τ} (h : ∀ s t, R s t → R (f s) (g t)) :
    Matches R (modify f : Program ε σ Unit) (modify g) := fun s t hst => ⟨rfl, h s t hst⟩

theorem Matches.attempt (h : Matches R m m') : Matches R (attempt m) (attempt m') := fun s t hst =>
  ⟨congrArg Except.ok (h s t hst).1, (h s t hst).2⟩

theorem Matches.bind {g : α → Program ε τ β} (h : Matches R m m') (hf : ∀ a, Matches R (f a) (g a)) :
    Matches R (m >>= f) (m' >>= g) := by
  intro s t hst
  obtain ⟨hout, hrel⟩ := h s t hst
  rcases hm : m s with ⟨e | a, u⟩
  · rw [hm] at hout hrel
    rw [bind_error hm, bind_error (run_eq hout.symm)]
    exact ⟨rfl, hrel⟩
  · rw [hm] at hout hrel
    rw [bind_ok hm, bind_ok (run_eq hout.symm)]
    exact hf a _ _ hrel

theorem matches_get_bind {f : σ → Program ε σ β} {g : τ → Program ε τ β}
    (h : ∀ s t, R s t → (f s s).1 = (g t t).1 ∧ R (f s s).2 (g t t).2) : Matches R (get >>= f) (get >>= g) := h

theorem matches_failIf [Decidable c] : Matches R (failIf c e : Program ε σ Unit) (failIf c e) := by
  unfold failIf
  split
  · exact matches_fail
  · exact matches_pure

theorem matches_ite [Decidable c] {m₁' m₂' : Program ε τ α} (h₁ : Matches R m₁ m₁')
    (h₂ : Matches R m₂ m₂') : Matches R (if c then m₁ else m₂) (if c then m₁' else m₂') := by
  split
  · exact h₁
  · exact h₂

theorem matches_each {f : β → Program ε σ Unit} {g : β → Program ε τ Unit} (h : ∀ b, Matches R (f b) (g b)) {l : List β} :
    Matches R (each f l) (each g l) := by
  induction l with
  | nil => exact matches_pure
  | cons b l ih => exact (h b).bind fun _ => ih

end Matches

end Program
end InferenceOS
