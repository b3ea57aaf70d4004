import InferenceOS.Theorems.Reading
import InferenceOS.Theorems.Requests
import InferenceOS.Theorems.Opening

/-! Runs of calls on a volume that was formatted and opened. The set of the existing directories goes along:
    the root, the directories that were created and not removed. Calls may only be given identities of these
    directories, or object identities that address slots of them. -/

namespace InferenceOS
open Program Function

open FileService in
/-- The directories that exist after the call returned `v`. -/
def Request.after (s : FileService) (live : Nat → Prop) (v : Option VfsObject) : Request → Nat → Prop
  | .createDirectory _ _ => fun d => live d ∨ ∃ object ∈ v, d = object.identity
  | .removeDirectory parent component => fun d => live d ∧ ¬∃ entry, Holds s parent entry ∧
    canonicalComponent component = .ok entry.primary.name ∧ entry.primary.firstCluster = d
  | _ => live

open FileService in
/-- The call moves a directory below itself. -/
def Request.Inward (s : FileService) (r : Request) : Prop :=
  ∃ d entry d' name, r.Renames s d entry d' name ∧ entry.kind = .directory ∧ Below s entry.primary.firstCluster d'

namespace FileService
variable {s t : FileService} {live : Nat → Prop} {r : Request} {v : Option VfsObject} {T T' : Tree} {ch : Change}

/-- A call that may change the volume returned. -/
structure Done (s : FileService) (live : Nat → Prop) (r : Request) (v : Option VfsObject) (t : FileService) : Prop where
  bound : r.Bound s.mount.geometry live
  run : r.run s = (.ok v, t)

/-- A call that leaves the volume alone: it only reads, or it fails on a working device with room in the cache, or it fails on
    any device and has changed nothing but scratch memory. -/
inductive Idle (s : FileService) (live : Nat → Prop) : FileService → Prop where
  | refused {r : Request} {e : IosError} {t : FileService} : r.Bound s.mount.geometry live → s.Able 260 256 →
    r.run s = (.error e, t) → Idle s live t
  | failed {r : Request} {e : IosError} {t : FileService} : r.run s = (.error e, t) → Quiet s t → Idle s live t
  | asked {q : Query} {x : Except IosError Unit} {t : FileService} : q.run s = (x, t) → Idle s live t

/-- The states that runs of allowed calls reach, with the directories that exist in them. -/
inductive Run (allowed : FileService → Request → Prop) : FileService → (Nat → Prop) → Prop where
  | opened {s : FileService} : Opened s → Run allowed s (· = rootCluster)
  | done {s t : FileService} {live : Nat → Prop} {r : Request} {v : Option VfsObject} : Run allowed s live →
    allowed s r → Done s live r v t → Run allowed t (r.after s live v)
  | idle {s t : FileService} {live : Nat → Prop} : Run allowed s live → Idle s live t → Run allowed t live

theorem makes_after (hm : r.Makes s live v ch) (hcreate : ∀ d k p, ch ≠ .createDirectory d k p)
    (hremove : ∀ d i p, ch ≠ .removeDirectory d i p) : r.after s live v = live := by
  cases r with
  | createDirectory =>
    exfalso
    cases ch <;> simp_all [Request.Makes, Request.Creates, Request.Saves, Request.Renames, Request.Removes]
  | removeDirectory =>
    exfalso
    cases ch <;> simp_all [Request.Makes, Request.Creates, Request.Saves, Request.Renames, Request.Removes]
  | _ => rfl

theorem makes_dirs (h : Consistent s T) (hs : TreeStep T ch T') (hm : r.Makes s T.dirs v ch) : T'.dirs = r.after s T.dirs v := by
  cases hs with
  | @createDirectory d k p hd hk hf hc hn hu =>
    obtain ⟨component, rfl, rfl, -⟩ := hm
    funext e
    exact propext ⟨fun he => he.imp_right fun hx => ⟨_, rfl, hx⟩, fun he => he.imp_right fun ⟨_, ho, hx⟩ => by cases ho; exact hx⟩
  | @removeDirectory d i p hd hi hp hempty =>
    obtain ⟨component, rfl, hname⟩ := hm
    funext e
    refine propext (and_congr_right fun _ => not_congr ?_)
    constructor
    · rintro rfl
      exact ⟨_, (h.holds hd).mpr (.directory hi hp), hname, rfl⟩
    · rintro ⟨entry, he, hname', rfl⟩
      rw [hname] at hname'
      rw [((h.holds hd).mp he).unique (h.describes.tidy hd) (.directory hi hp) (Except.ok.inj hname').symm]
  | _ => exact (makes_after hm nofun nofun).symm

theorem makes_parent (hs : TreeStep T ch T') (hm : r.Makes s T.dirs v ch) {c : Nat} (hc : T.dirs c)
    (hne : T'.parent c ≠ T.parent c) : T.dirs (T'.parent c) ∧ ∃ d entry name, r.Renames s d entry (T'.parent c) name ∧
      entry.kind = .directory ∧ entry.primary.firstCluster = c := by
  cases hs with
  | @createDirectory d k p hd hk hf hcd hn hu =>
    refine absurd (update_of_ne ?_ _ _) hne
    exact fun hx => hcd (hx ▸ hc)
  | @moveDirectory d i d' k p name hd hi hp hd' hdd hk hf hn hu =>
    have hparent : (T.moveDirectory d i d' k { p with name }).parent = update T.parent p.firstCluster d' := rfl
    rw [hparent] at hne ⊢
    by_cases hx : c = p.firstCluster
    · subst hx
      rw [update_self]
      exact ⟨hd', d, directoryEntry p i, name, hm.2.1, rfl, rfl⟩
    · exact absurd (update_of_ne hx _ _) hne
  | _ => exact absurd rfl hne

theorem Done.sound (h : Consistent s T) (hd : Done s T.dirs r v t) : ∃ (plan : Plan (Option VfsObject)) (ch : Change),
    plan.value = v ∧ plan.Sensible s T ch ∧ r.Makes s T.dirs v ch ∧ Went s t plan.stages ∧ Consistent t plan.tree ∧
      plan.tree.dirs = r.after s T.dirs v := by
  have hs : ∀ plan, r.plan s T = .ok plan → ∃ ch, plan.Sensible s T ch := fun plan hp =>
    (request_sensible h hd.bound hp).imp fun _ hx => hx.1
  rcases (request_follows h hd.bound).outcome hs hd.run (Or.inl ⟨v, rfl⟩) with ⟨plan, hp, hv, hw, hc⟩ | ⟨e, -, he, -⟩
  · cases hv
    obtain ⟨ch, hsens, hm⟩ := request_sensible h hd.bound hp
    exact ⟨plan, ch, rfl, hsens, hm, hw, hc, makes_dirs h hsens.step hm⟩
  · cases he

theorem Idle.quiet (h : Consistent s T) (hi : Idle s T.dirs t) : Quiet s t := by
  cases hi with
  | refused hb ha hr =>
    have hs : ∀ plan, Request.plan s T _ = .ok plan → ∃ ch, plan.Sensible s T ch := fun plan hp =>
      (request_sensible h hb hp).imp fun _ hx => hx.1
    rcases (request_follows h hb).outcome hs hr (Or.inr ha) with ⟨plan, -, hx, -⟩ | ⟨e, -, -, hq⟩
    · cases hx
    · exact hq
  | failed _ hq => exact hq
  | asked hr => exact (query_keeps reads_unchanged).run hr h.mounted

/-- What holds along every run. -/
structure Sound (s : FileService) (live : Nat → Prop) (T : Tree) : Prop extends Consistent s T where
  live : live = T.dirs
  distinguished : ∀ d, T.dirs d → Distinguished (T.items d)

theorem Sound.opened (h : Opened s) : Sound s (· = rootCluster) emptyTree :=
  ⟨h.consistent, rfl, fun _ _ _ _ _ _ _ _ hp => by rcases hp with hp | hp <;> cases hp⟩

theorem emptyTree_grounded : emptyTree.Grounded := ⟨rfl, fun hd => ⟨0, hd⟩⟩

theorem Sound.done (h : Sound s live T) (hd : Done s live r v t) : ∃ T', Sound t (r.after s live v) T' ∧
    (T.Grounded → ¬r.Inward s → T'.Grounded) := by
  obtain ⟨hc, rfl, hdis⟩ := h
  obtain ⟨plan, ch, -, hs, hm, -, ht, hdirs⟩ := hd.sound hc
  refine ⟨plan.tree, ⟨ht, hdirs.symm, fun e he => hs.step.distinguished hdis he⟩, fun hg hout => ?_⟩
  refine hs.step.grounded hc.describes.linked hg fun c hcd hne ha => hout ?_
  obtain ⟨hparent, d, entry, name, hren, hk, rfl⟩ := makes_parent hs.step hm hcd hne
  exact ⟨d, entry, _, name, hren, hk, hc.below hg hparent ha⟩

theorem Sound.idle (h : Sound s live T) (hi : Idle s live t) : Sound t live T := by
  obtain ⟨hc, rfl, hdis⟩ := h
  exact ⟨hc.quiet (hi.quiet hc), rfl, hdis⟩

theorem Run.sound {allowed : FileService → Request → Prop} (h : Run allowed s live) : ∃ T, Sound s live T ∧
    ((∀ s r, allowed s r → ¬r.Inward s) → T.Grounded) := by
  induction h with
  | opened ho => exact ⟨emptyTree, .opened ho, fun _ => emptyTree_grounded⟩
  | done _ ha hd ih =>
    obtain ⟨T, hT, hg⟩ := ih
    obtain ⟨T', hT', hg'⟩ := hT.done hd
    exact ⟨T', hT', fun hout => hg' (hg hout) (hout _ _ ha)⟩
  | idle _ hi ih =>
    obtain ⟨T, hT, hg⟩ := ih
    exact ⟨T, hT.idle hi, hg⟩

end FileService
end InferenceOS
