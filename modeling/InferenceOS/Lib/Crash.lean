import Mathlib.Logic.Function.Basic
import Mathlib.Data.List.Basic

/-! A medium that a machine writes and flushes, and the images a crash can leave on it. Blocks are
    numbered, a block write is atomic, and what was written before a completed flush is durable. Of
    the writes after the last completed flush each block may or may not have reached the medium,
    independently of the others. -/

namespace InferenceOS

/-- One transfer that a medium of blocks `β` carried out. -/
inductive DiskEvent (β : Type) where
  | write (block : Nat) (bytes : β)
  | flush

variable {β : Type}

/-- The medium after the transfers, when all of them reached it. -/
def replay (medium : Nat → β) : List (DiskEvent β) → Nat → β
  | [] => medium
  | .write block bytes :: rest => replay (Function.update medium block bytes) rest
  | .flush :: rest => replay medium rest

/-- `image` may be on the medium when the machine stops after the transfers: everything up to some
    completed flush, and of each block one of the later writes or none. -/
def Crashed (medium : Nat → β) (events : List (DiskEvent β)) (image : Nat → β) : Prop :=
  ∃ done pending, events = done ++ pending ∧ (done = [] ∨ ∃ l, done = l ++ [.flush]) ∧ .flush ∉ pending ∧
    ∀ n, image n = replay medium done n ∨ .write n (image n) ∈ pending

@[simp] theorem replay_nil {medium : Nat → β} : replay medium [] = medium := rfl

@[simp] theorem replay_write {medium : Nat → β} {n : Nat} {b : β} {events : List (DiskEvent β)} :
    replay medium (.write n b :: events) = replay (Function.update medium n b) events := rfl

@[simp] theorem replay_flush {medium : Nat → β} {events : List (DiskEvent β)} :
    replay medium (.flush :: events) = replay medium events := rfl

@[simp] theorem replay_append {a b : List (DiskEvent β)} : ∀ {medium : Nat → β},
    replay medium (a ++ b) = replay (replay medium a) b := by
  induction a with
  | nil => exact rfl
  | cons e a ih =>
    intro medium
    cases e <;> exact ih

theorem replay_of_not_mem {n : Nat} {events : List (DiskEvent β)} (h : ∀ b, .write n b ∉ events) : ∀ {medium : Nat → β},
    replay medium events n = medium n := by
  induction events with
  | nil => exact rfl
  | cons e events ih =>
    intro medium
    have hrest := @ih fun b hb => h b (List.mem_cons_of_mem _ hb)
    cases e with
    | write m b =>
      have hne : n ≠ m := fun hx => h b (hx ▸ List.mem_cons_self)
      rw [replay_write, hrest, Function.update_of_ne hne]
    | flush => exact hrest

theorem replay_of_writes {target : Nat → β} {events : List (DiskEvent β)}
    (h : ∀ e ∈ events, ∃ n, e = .write n (target n)) : ∀ {medium : Nat → β} (n : Nat),
    replay medium events n = medium n ∨ replay medium events n = target n := by
  induction events with
  | nil => exact fun n => Or.inl rfl
  | cons e events ih =>
    intro medium n
    obtain ⟨m, rfl⟩ := h e List.mem_cons_self
    rw [replay_write]
    rcases ih (fun e he => h e (List.mem_cons_of_mem _ he)) n with hr | hr
    · rw [hr]
      by_cases hn : n = m
      · subst hn
        exact Or.inr (by simp)
      · exact Or.inl (by simp [hn])
    · exact Or.inr hr

theorem Crashed.of_flush {medium image : Nat → β} {events : List (DiskEvent β)}
    (h : Crashed medium (events ++ [.flush]) image) : image = replay medium events := by
  obtain ⟨done, pending, he, hd, hp, hi⟩ := h
  -- The last transfer is a flush, so nothing is pending.
  have hnil : pending = [] := by
    rcases List.eq_nil_or_concat pending with hn | ⟨l, e, rfl⟩
    · exact hn
    · rw [List.concat_eq_append, ← List.append_assoc] at he
      have := List.append_inj_right' he rfl
      simp only [List.cons.injEq, and_true] at this
      subst this
      simp at hp
  subst hnil
  rw [List.append_nil] at he
  subst he
  funext n
  simpa using hi n

/-! ### Groups of writes -/

/-- Groups of writes, each ended by a flush, that lead from a medium through the block maps `vs`. -/
inductive Trail : (Nat → β) → List (DiskEvent β) → List (Nat → β) → Prop where
  | nil {medium : Nat → β} : Trail medium [] []
  | cons {medium v : Nat → β} {ws events : List (DiskEvent β)} {vs : List (Nat → β)} :
    (∀ e ∈ ws, ∃ n, e = .write n (v n)) → replay medium ws = v → Trail v events vs →
    Trail medium (ws ++ .flush :: events) (v :: vs)

theorem Trail.append {medium : Nat → β} {a b : List (DiskEvent β)} {vs ws : List (Nat → β)} (h : Trail medium a vs)
    (h' : Trail (replay medium a) b ws) : Trail medium (a ++ b) (vs ++ ws) := by
  induction h with
  | nil => exact h'
  | cons hw hr _ ih =>
    rw [List.append_assoc, List.cons_append, List.cons_append]
    refine .cons hw hr (ih ?_)
    rwa [replay_append, hr, replay_flush] at h'

theorem getLastD_append {α : Type} {a : α} : ∀ {l l' : List α}, (l ++ l').getLastD a = l'.getLastD (l.getLastD a)
  | [], l' => rfl
  | b :: l, l' => by
    rw [List.cons_append, List.getLastD_cons, List.getLastD_cons, getLastD_append]

theorem Trail.replay_eq {medium : Nat → β} {events : List (DiskEvent β)} {vs : List (Nat → β)} (h : Trail medium events vs) :
    replay medium events = vs.getLastD medium := by
  induction h with
  | nil => rfl
  | cons _ hr _ ih =>
    rw [replay_append, hr, replay_flush, ih]
    exact List.getLastD_cons.symm

end InferenceOS
