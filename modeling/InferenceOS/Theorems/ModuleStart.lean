import InferenceOS.Kernel.Process
import Mathlib.Data.List.Nodup
import Mathlib.Data.List.Pairwise

/-! Which system modules are started. A start that succeeds has launched one shell, before all others, and no two modules that
    stand in each other's way; it has launched the required modules if all of them were valid. -/

namespace InferenceOS
open Program

namespace SystemModuleDescriptor

def Holds (d : SystemModuleDescriptor) (address : Nat) : Prop :=
  d.imageAddress.toNat ≤ address ∧ address < d.imageAddress.toNat + d.imageSize.toNat

/-- Two modules that can run side by side. -/
structure Apart (d e : SystemModuleDescriptor) : Prop where
  identity : d.applicationIdentity ≠ e.applicationIdentity
  role : d.role = e.role → d.role = moduleRoleTestApplication
  image : ∀ address, ¬(d.Holds address ∧ e.Holds address)

def Valid (forbiddenRanges : List SystemModuleRange) (verifyDigest : DigestVerifier) (d : SystemModuleDescriptor) : Prop :=
  systemModuleDescriptorValidate forbiddenRanges verifyDigest d = .ok ()

instance {forbiddenRanges : List SystemModuleRange} {verifyDigest : DigestVerifier} {d : SystemModuleDescriptor} :
    Decidable (d.Valid forbiddenRanges verifyDigest) := inferInstanceAs (Decidable (_ = _))

variable {d e : SystemModuleDescriptor} {forbiddenRanges : List SystemModuleRange} {verifyDigest : DigestVerifier}

theorem Apart.symm (h : d.Apart e) : e.Apart d :=
  ⟨h.identity.symm, fun hr => hr.trans (h.role hr.symm), fun address ha => h.image address ha.symm⟩

theorem Valid.image (h : d.Valid forbiddenRanges verifyDigest) : d.imageAddress.toNat + d.imageSize.toNat < 2 ^ 64 := by
  unfold Valid systemModuleDescriptorValidate at h
  split at h
  · cases h
  · split at h
    · cases h
    · rename_i hfields
      have hrange : rangeIsValid d.imageAddress d.imageSize = true := by simpa using (not_or.mp (not_or.mp (not_or.mp (not_or.mp hfields).2).2).2).2
      obtain ⟨-, hsize⟩ := of_decide_eq_true hrange
      have hle := UInt64.le_iff_toNat_le.mp hsize
      have hmax : d.imageAddress ≤ 0xffffffffffffffff := UInt64.le_iff_toNat_le.mpr (Nat.le_of_lt_succ d.imageAddress.toNat_lt)
      rw [UInt64.toNat_sub_of_le _ _ hmax] at hle
      have hvalue : (0xffffffffffffffff : UInt64).toNat = 2 ^ 64 - 1 := rfl
      have := d.imageAddress.toNat_lt
      omega

theorem Valid.disjoint (h : d.Valid forbiddenRanges verifyDigest) (h' : e.Valid forbiddenRanges verifyDigest)
    (hapart : rangesOverlap d.imageAddress d.imageSize e.imageAddress e.imageSize = false) (address : Nat) :
    ¬(d.Holds address ∧ e.Holds address) := by
  rintro ⟨⟨hlow, hhigh⟩, hlow', hhigh'⟩
  have hd := h.image
  have he := h'.image
  refine absurd hapart (ne_false_of_eq_true (decide_eq_true ⟨?_, ?_⟩))
  · rw [UInt64.lt_iff_toNat_lt, UInt64.toNat_add, Nat.mod_eq_of_lt he]
    omega
  · rw [UInt64.lt_iff_toNat_lt, UInt64.toNat_add, Nat.mod_eq_of_lt hd]
    omega

theorem Valid.apart {others : List SystemModuleDescriptor} (h : d.Valid forbiddenRanges verifyDigest)
    (hothers : ∀ e ∈ others, e.Valid forbiddenRanges verifyDigest) (hcheck : checkOthers d others = .ok ()) :
    ∀ e ∈ others, d.Apart e := by
  induction others with
  | nil => exact fun e he => nomatch he
  | cons other others ih =>
    rw [checkOthers] at hcheck
    split at hcheck
    · cases hcheck
    · rename_i hsame
      split at hcheck
      · cases hcheck
      · rename_i hoverlap
        obtain ⟨hother, hothers⟩ := List.forall_mem_cons.mp hothers
        obtain ⟨hidentity, hrole⟩ := not_or.mp hsame
        refine List.forall_mem_cons.mpr ⟨⟨hidentity, fun hr => ?_, ?_⟩, ih hothers hcheck⟩
        · exact not_not.mp fun hne => hrole ⟨hne, hr⟩
        · exact h.disjoint hother (Bool.eq_false_of_not_eq_true hoverlap)

theorem setValidateFrom_spec : ∀ {l valid : List SystemModuleDescriptor} {shellCount total : Nat},
    setValidateFrom forbiddenRanges verifyDigest valid shellCount l = .ok total →
    (∀ d ∈ valid, d.Valid forbiddenRanges verifyDigest) → valid.Pairwise Apart →
    (valid ++ l.filter (·.Valid forbiddenRanges verifyDigest)).Pairwise Apart ∧
      total = shellCount + ((l.filter (·.Valid forbiddenRanges verifyDigest)).filter (·.role = moduleRoleShell)).length
  | [], valid, shellCount, total, h, _, hpairs => by
    cases h
    exact ⟨by simpa using hpairs, rfl⟩
  | d :: l, valid, shellCount, total, h, hvalid, hpairs => by
    rw [setValidateFrom] at h
    split at h
    · rename_i e hd
      split at h
      · cases h
      · rw [List.filter_cons, if_neg (by rw [decide_eq_true_iff, Valid, hd]; exact fun hno => nomatch hno)]
        exact setValidateFrom_spec h hvalid hpairs
    · rename_i hd
      split at h
      · cases h
      · split at h
        · cases h
        · rename_i hothers
          have hok : d.Valid forbiddenRanges verifyDigest := hd
          have hapart := hok.apart hvalid hothers
          obtain ⟨hrest, htotal⟩ := setValidateFrom_spec h
            (fun e he => (List.mem_append.mp he).elim (hvalid e) fun he => List.mem_singleton.mp he ▸ hok)
            (List.pairwise_append.mpr ⟨hpairs, List.pairwise_singleton _ _, fun e he f hf =>
              List.mem_singleton.mp hf ▸ (hapart e he).symm⟩)
          rw [List.filter_cons, if_pos (decide_eq_true hok)]
          refine ⟨by rwa [List.append_assoc] at hrest, ?_⟩
          rw [htotal]
          by_cases hshell : d.role = moduleRoleShell
          · rw [if_pos hshell, List.filter_cons, if_pos (decide_eq_true hshell), List.length_cons]
            omega
          · rw [if_neg hshell, List.filter_cons, if_neg (by rwa [decide_eq_true_iff])]

theorem setValidate_spec {descriptors : List SystemModuleDescriptor}
    (h : systemModuleSetValidate descriptors forbiddenRanges verifyDigest = .ok ()) :
    (descriptors.filter (·.Valid forbiddenRanges verifyDigest)).Pairwise Apart ∧
      ((descriptors.filter (·.Valid forbiddenRanges verifyDigest)).filter (·.role = moduleRoleShell)).length = 1 := by
  unfold systemModuleSetValidate at h
  split at h
  · cases h
  · split at h
    · cases h
    · rename_i shellCount hfrom
      split at h
      · rename_i hone
        obtain ⟨hpairs, hcount⟩ := setValidateFrom_spec hfrom (fun d hd => nomatch hd) .nil
        exact ⟨hpairs, by omega⟩
      · cases h

end SystemModuleDescriptor

namespace StartupProgram
variable {R α : Type} {env : ProcessEnvironment R} {forbiddenRanges : List SystemModuleRange} {verifyDigest : DigestVerifier}
  {s : ModuleStartup R} {m : SystemModuleDescriptor × Nat}

def MustStart (m : SystemModuleDescriptor × Nat) : Prop := m.1.role = moduleRoleShell ∨ m.1.Required

theorem wp_onSystem {p : ProcessProgram R α} {Q : α → ModuleStartup R → Prop} {E : IosError → ModuleStartup R → Prop}
    (hQ : ∀ a t, t.started = s.started → Q a t) (hE : ∀ e t, t.started = s.started → E e t) : wp (onSystem p) Q E s := by
  unfold onSystem
  rw [wp_zoom]
  exact wp_iff.mpr ⟨fun a t _ => hQ a _ rfl, fun e t _ => hE e _ rfl⟩

theorem startModule_spec :
    wp (startModule env forbiddenRanges verifyDigest m)
      (fun _ t => (m.1.Valid forbiddenRanges verifyDigest ∧ t.started = s.started ++ [m]) ∨
        ((m.1.Valid forbiddenRanges verifyDigest → ¬MustStart m) ∧ t.started = s.started))
      (fun _ _ => True) s := by
  unfold startModule
  dsimp only
  split
  · rename_i e hinvalid
    exact .inr ⟨fun hvalid => absurd (hinvalid.symm.trans hvalid) nofun, rfl⟩
  · rename_i hvalid
    rw [wp_bind, wp_attempt]
    refine wp_onSystem (fun slot t ht => ?_) fun e t ht => ?_
    · dsimp only
      rw [wp_bind]
      refine wp_onSystem (fun _ u hu => ?_) fun _ _ _ => trivial
      rw [wp_bind, wp_attempt]
      refine wp_onSystem (fun _ v hv => ?_) fun e v hv => ?_
      · dsimp only
        rw [wp_modify]
        exact .inl ⟨hvalid, by rw [hv, hu, ht]⟩
      · dsimp only
        rw [wp_bind]
        refine wp_onSystem (fun _ w hw => ?_) fun _ _ _ => trivial
        rw [wp_failIf]
        exact ⟨fun _ => trivial, fun hmust => .inr ⟨fun _ => hmust, by rw [hw, hv, hu, ht]⟩⟩
    · dsimp only
      rw [wp_failIf]
      exact ⟨fun _ => trivial, fun hmust => .inr ⟨fun _ => hmust, ht⟩⟩

theorem each_spec {f : SystemModuleDescriptor × Nat → StartupProgram R Unit} {c : SystemModuleDescriptor × Nat → Prop}
    [DecidablePred c]
    (hf : ∀ m s, wp (f m)
      (fun _ t => (c m ∧ t.started = s.started ++ [m]) ∨ ((c m → ¬MustStart m) ∧ t.started = s.started)) (fun _ _ => True) s) :
    ∀ {l : List (SystemModuleDescriptor × Nat)} {s : ModuleStartup R},
    wp (each f l)
      (fun _ t => ∃ started, t.started = s.started ++ started ∧ started.Sublist (l.filter c) ∧
        ∀ m ∈ l.filter c, MustStart m → m ∈ started)
      (fun _ _ => True) s
  | [], s => ⟨[], (List.append_nil _).symm, .slnil, fun m hm => nomatch hm⟩
  | m :: l, s => by
    rw [wp_each_cons]
    refine wp_mono (hf m s) ?_ fun _ _ _ => trivial
    rintro _ t (⟨hm, ht⟩ | ⟨hm, ht⟩)
    · refine wp_mono (each_spec hf) ?_ fun _ _ _ => trivial
      rintro _ u ⟨started, hu, hsub, hmust⟩
      rw [List.filter_cons, if_pos (decide_eq_true hm)]
      refine ⟨m :: started, by rw [hu, ht, List.append_assoc, List.singleton_append], hsub.cons_cons m, ?_⟩
      rintro m' hm' hmust'
      obtain rfl | hm' := List.mem_cons.mp hm'
      · exact List.mem_cons_self
      · exact List.mem_cons_of_mem m (hmust m' hm' hmust')
    · refine wp_mono (each_spec hf) ?_ fun _ _ _ => trivial
      rintro _ u ⟨started, hu, hsub, hmust⟩
      refine ⟨started, by rw [hu, ht], ?_, ?_⟩
      · by_cases hc : c m
        · rw [List.filter_cons, if_pos (decide_eq_true hc)]
          exact hsub.cons m
        · rwa [List.filter_cons, if_neg (by rwa [decide_eq_true_iff])]
      · rintro m' hm' hmust'
        by_cases hc : c m
        · rw [List.filter_cons, if_pos (decide_eq_true hc)] at hm'
          obtain rfl | hm' := List.mem_cons.mp hm'
          · exact absurd hmust' (hm hc)
          · exact hmust m' hm' hmust'
        · rw [List.filter_cons, if_neg (by rwa [decide_eq_true_iff])] at hm'
          exact hmust m' hm' hmust'

def startOrder (forbiddenRanges : List SystemModuleRange) (verifyDigest : DigestVerifier) (modules : List (SystemModuleDescriptor × Nat))
    (ranks : List Nat) : List (SystemModuleDescriptor × Nat) :=
  ranks.flatMap fun rank => modules.filter fun m =>
    systemModuleStartupRank m.1.role = rank ∧ m.1.Valid forbiddenRanges verifyDigest

theorem ranks_spec {modules : List (SystemModuleDescriptor × Nat)} : ∀ {ranks : List Nat} {s : ModuleStartup R},
    wp (each (fun rank => each (fun m => if systemModuleStartupRank m.1.role ≠ rank then pure ()
        else startModule env forbiddenRanges verifyDigest m) modules) ranks)
      (fun _ t => ∃ started, t.started = s.started ++ started ∧
        started.Sublist (startOrder forbiddenRanges verifyDigest modules ranks) ∧
        ∀ m ∈ startOrder forbiddenRanges verifyDigest modules ranks, MustStart m → m ∈ started)
      (fun _ _ => True) s
  | [], s => ⟨[], (List.append_nil _).symm, .slnil, fun m hm => nomatch hm⟩
  | rank :: ranks, s => by
    have hround (m : SystemModuleDescriptor × Nat) (s : ModuleStartup R) :
        wp (if systemModuleStartupRank m.1.role ≠ rank then pure () else startModule env forbiddenRanges verifyDigest m)
          (fun _ t => ((systemModuleStartupRank m.1.role = rank ∧ m.1.Valid forbiddenRanges verifyDigest) ∧
              t.started = s.started ++ [m]) ∨
            ((systemModuleStartupRank m.1.role = rank ∧ m.1.Valid forbiddenRanges verifyDigest → ¬MustStart m) ∧
              t.started = s.started))
          (fun _ _ => True) s := by
      rw [wp_ite]
      constructor
      · exact fun hrank => .inr ⟨fun h => absurd h.1 hrank, rfl⟩
      · intro hrank
        refine wp_mono startModule_spec (fun _ t ht => ?_) fun _ _ _ => trivial
        obtain ⟨hvalid, ht⟩ | ⟨hinvalid, ht⟩ := ht
        · exact .inl ⟨⟨not_not.mp hrank, hvalid⟩, ht⟩
        · exact .inr ⟨fun h => hinvalid h.2, ht⟩
    rw [wp_each_cons]
    refine wp_mono (each_spec hround) ?_ fun _ _ _ => trivial
    rintro _ t ⟨first, ht, hsub, hmust⟩
    refine wp_mono ranks_spec ?_ fun _ _ _ => trivial
    rintro _ u ⟨rest, hu, hsub', hmust'⟩
    rw [startOrder, List.flatMap_cons, ← startOrder]
    refine ⟨first ++ rest, by rw [hu, ht, List.append_assoc], hsub.append hsub', fun m hm hmust'' => ?_⟩
    obtain hm | hm := List.mem_append.mp hm
    · exact List.mem_append_left rest (hmust m hm hmust'')
    · exact List.mem_append_right first (hmust' m hm hmust'')

theorem processStart_spec {descriptors : List SystemModuleDescriptor} :
    wp (processStartSystemModules env descriptors forbiddenRanges verifyDigest)
      (fun _ t => systemModuleSetValidate descriptors forbiddenRanges verifyDigest = .ok () ∧
        ∃ started, t.started = s.started ++ started ∧
          started.Sublist (startOrder forbiddenRanges verifyDigest descriptors.zipIdx (List.range 5)) ∧
          ∀ m ∈ startOrder forbiddenRanges verifyDigest descriptors.zipIdx (List.range 5), MustStart m → m ∈ started)
      (fun _ _ => True) s := by
  unfold processStartSystemModules
  rw [wp_bind, wp_get, wp_bind, wp_failIf]
  refine ⟨fun _ => trivial, fun _ => ?_⟩
  rw [wp_bind, wp_ofExcept]
  refine ⟨fun _ hset => ?_, fun _ _ => trivial⟩
  exact wp_mono ranks_spec (fun _ t ht => ⟨hset, ht⟩) fun _ _ _ => trivial

section Order
variable {descriptors : List SystemModuleDescriptor} {modules : List (SystemModuleDescriptor × Nat)}

theorem startupRank_lt {role : UInt32} : systemModuleStartupRank role < 5 := by
  unfold systemModuleStartupRank
  repeat' split
  all_goals omega

theorem startupRank_eq_zero {role : UInt32} : systemModuleStartupRank role = 0 ↔ role = moduleRoleShell := by
  unfold systemModuleStartupRank
  constructor
  · intro h
    by_contra hrole
    rw [if_neg hrole] at h
    repeat' split at h
    all_goals cases h
  · exact fun h => if_pos h

theorem mem_startOrder {ranks : List Nat} {m : SystemModuleDescriptor × Nat} :
    m ∈ startOrder forbiddenRanges verifyDigest modules ranks ↔
      systemModuleStartupRank m.1.role ∈ ranks ∧ m ∈ modules ∧ m.1.Valid forbiddenRanges verifyDigest := by
  rw [startOrder, List.mem_flatMap]
  constructor
  · rintro ⟨rank, hrank, hm⟩
    obtain ⟨hlisted, hc⟩ := List.mem_filter.mp hm
    obtain ⟨rfl, hvalid⟩ := of_decide_eq_true hc
    exact ⟨hrank, hlisted, hvalid⟩
  · rintro ⟨hrank, hm, hvalid⟩
    exact ⟨_, hrank, List.mem_filter.mpr ⟨hm, decide_eq_true ⟨rfl, hvalid⟩⟩⟩

theorem nodup_startOrder {ranks : List Nat} (hmodules : modules.Nodup) (hranks : ranks.Nodup) :
    (startOrder forbiddenRanges verifyDigest modules ranks).Nodup := by
  refine List.nodup_flatMap.mpr ⟨fun rank _ => hmodules.filter _, ?_⟩
  refine hranks.imp fun {rank rank'} hne m hm hm' => hne ?_
  have h := (of_decide_eq_true (List.mem_filter.mp hm).2).1
  have h' := (of_decide_eq_true (List.mem_filter.mp hm').2).1
  exact h.symm.trans h'

theorem nodup_zipIdx : descriptors.zipIdx.Nodup := by
  refine List.Nodup.of_map Prod.snd ?_
  rw [List.zipIdx_map_snd]
  exact List.nodup_range'

theorem map_fst_filter {p : SystemModuleDescriptor → Bool} :
    (descriptors.zipIdx.filter fun m => p m.1).map Prod.fst = descriptors.filter p := by
  have h := List.filter_map (f := Prod.fst) (p := p) (l := descriptors.zipIdx)
  rw [List.zipIdx_map_fst] at h
  exact h.symm

theorem valid_apart (h : (descriptors.filter (·.Valid forbiddenRanges verifyDigest)).Pairwise SystemModuleDescriptor.Apart)
    {m n : SystemModuleDescriptor × Nat} (hm : m ∈ descriptors.zipIdx) (hn : n ∈ descriptors.zipIdx)
    (hvalid : m.1.Valid forbiddenRanges verifyDigest) (hvalid' : n.1.Valid forbiddenRanges verifyDigest) (hne : m ≠ n) :
    m.1.Apart n.1 := by
  rw [← map_fst_filter, List.pairwise_map] at h
  have : Std.Symm fun m n : SystemModuleDescriptor × Nat => m.1.Apart n.1 := ⟨fun _ _ h => h.symm⟩
  exact h.forall (List.mem_filter.mpr ⟨hm, decide_eq_true hvalid⟩) (List.mem_filter.mpr ⟨hn, decide_eq_true hvalid'⟩) hne

theorem startOrder_shell
    (h : ((descriptors.filter (·.Valid forbiddenRanges verifyDigest)).filter (·.role = moduleRoleShell)).length = 1) :
    ∃ shell, shell.1.role = moduleRoleShell ∧
      startOrder forbiddenRanges verifyDigest descriptors.zipIdx (List.range 5) =
        shell :: startOrder forbiddenRanges verifyDigest descriptors.zipIdx [1, 2, 3, 4] := by
  have hfirst : descriptors.zipIdx.filter (fun m => systemModuleStartupRank m.1.role = 0 ∧ m.1.Valid forbiddenRanges verifyDigest) =
      descriptors.zipIdx.filter fun m => (fun d : SystemModuleDescriptor => decide (d.role = moduleRoleShell) &&
        decide (d.Valid forbiddenRanges verifyDigest)) m.1 := by
    refine List.filter_congr fun m _ => ?_
    rw [Bool.decide_and, decide_eq_decide.mpr startupRank_eq_zero]
  rw [List.filter_filter, ← map_fst_filter, List.length_map, ← hfirst] at h
  obtain ⟨shell, hshell⟩ := List.length_eq_one_iff.mp h
  have hmem : shell ∈ descriptors.zipIdx.filter fun m =>
      systemModuleStartupRank m.1.role = 0 ∧ m.1.Valid forbiddenRanges verifyDigest := hshell ▸ List.mem_singleton.mpr rfl
  refine ⟨shell, startupRank_eq_zero.mp (of_decide_eq_true (List.mem_filter.mp hmem).2).1, ?_⟩
  rw [startOrder, show List.range 5 = 0 :: [1, 2, 3, 4] from rfl, List.flatMap_cons, hshell, ← startOrder]
  rfl

end Order

end StartupProgram

/-- The modules that were started are some of the list, among them all required ones; one of them is a shell, which was started
    before the others; and they can run side by side. -/
structure SystemStarted (descriptors : List SystemModuleDescriptor) (started : List (SystemModuleDescriptor × Nat)) : Prop where
  listed : ∀ m ∈ started, m ∈ descriptors.zipIdx
  required : ∀ m ∈ descriptors.zipIdx, m.1.Required → m ∈ started
  shell : ∃ shell rest, started = shell :: rest ∧ shell.1.role = moduleRoleShell ∧ ∀ m ∈ rest, m.1.role ≠ moduleRoleShell
  apart : started.Pairwise fun m n => m.1.Apart n.1

namespace StartupProgram
variable {R : Type}

/-- A start that succeeds has started the required modules just when each of them was valid: an invalid one is passed over,
    required or not. -/
theorem system_modules_started_iff (env : ProcessEnvironment R) (system : ProcessSystem R)
    (descriptors : List SystemModuleDescriptor) (forbiddenRanges : List SystemModuleRange) (verifyDigest : DigestVerifier)
    (hok : (processStartSystemModules env descriptors forbiddenRanges verifyDigest ⟨system, []⟩).1 = .ok ()) :
    SystemStarted descriptors (processStartSystemModules env descriptors forbiddenRanges verifyDigest ⟨system, []⟩).2.started ↔
      ∀ d ∈ descriptors, d.Required → systemModuleDescriptorValidate forbiddenRanges verifyDigest d = .ok () := by
  obtain ⟨hset, started, hstarted, hsub, hmust⟩ := wp_ok processStart_spec (run_eq hok)
  obtain ⟨hpairs, hshells⟩ := SystemModuleDescriptor.setValidate_spec hset
  rw [hstarted, List.nil_append]
  have hvalid (m : SystemModuleDescriptor × Nat) (hm : m ∈ started) :
      m ∈ descriptors.zipIdx ∧ m.1.Valid forbiddenRanges verifyDigest := (mem_startOrder.mp (hsub.subset hm)).2
  constructor
  · intro h d hd hrequired
    obtain ⟨m, hm, rfl⟩ := List.mem_map.mp ((List.zipIdx_map_fst 0 descriptors).symm ▸ hd)
    exact (hvalid m (h.required m hm hrequired)).2
  · intro h
    obtain ⟨shell, hrole, horder⟩ := startOrder_shell hshells
    have hnodup := (@nodup_startOrder forbiddenRanges verifyDigest _ _ nodup_zipIdx List.nodup_range).sublist hsub
    refine ⟨fun m hm => (hvalid m hm).1, fun m hm hrequired => ?_, ?_, ?_⟩
    · have hd : m.1 ∈ descriptors := by
        rw [← List.zipIdx_map_fst 0 descriptors]
        exact List.mem_map_of_mem hm
      exact hmust m (mem_startOrder.mpr ⟨List.mem_range.mpr startupRank_lt, hm, h m.1 hd hrequired⟩) (.inr hrequired)
    · have hmem := hmust shell (horder ▸ List.mem_cons_self) (.inl hrole)
      have hlater (m : SystemModuleDescriptor × Nat)
          (hm : m ∈ startOrder forbiddenRanges verifyDigest descriptors.zipIdx [1, 2, 3, 4]) : m.1.role ≠ moduleRoleShell := by
        intro hr
        have hrank := (mem_startOrder.mp hm).1
        rw [startupRank_eq_zero.mpr hr] at hrank
        simp at hrank
      rw [horder] at hsub
      cases hsub with
      | cons _ hsub => exact absurd hrole (hlater shell (hsub.subset hmem))
      | cons_cons _ hsub => exact ⟨shell, _, rfl, hrole, fun m hm => hlater m (hsub.subset hm)⟩
    · refine hnodup.pairwise_of_forall_ne fun m hm n hn hne => ?_
      exact valid_apart hpairs (hvalid m hm).1 (hvalid n hn).1 (hvalid m hm).2 (hvalid n hn).2 hne

def exampleModule (identity : UInt64) (role : UInt32) (digest : UInt8) : SystemModuleDescriptor where
  structureSize := systemModuleDescriptorSize
  structureVersion := systemModuleAbiVersion
  applicationIdentity := identity
  role := role
  flags := systemModuleRequired
  imageAddress := 4096 * identity
  imageSize := 4096
  entryAbiVersion := systemModuleAbiVersion
  reserved := 0
  digest := fun _ => digest

def exampleVerifier : DigestVerifier := fun _ _ digest => if digest = Bytes.zero then .ok () else .error .corrupt

def exampleEnvironment : ProcessEnvironment Unit := ⟨fun _ _ => pure (), fun _ => id, fun _ => pure ()⟩

def exampleSystem : ProcessSystem Unit := ⟨true, fun _ => .zero, 1, ()⟩

theorem system_modules_started_both :
    SystemStarted [exampleModule 2 moduleRoleGuiDesktop 0, exampleModule 1 moduleRoleShell 0]
      (processStartSystemModules exampleEnvironment [exampleModule 2 moduleRoleGuiDesktop 0, exampleModule 1 moduleRoleShell 0] []
        exampleVerifier ⟨exampleSystem, []⟩).2.started :=
  (system_modules_started_iff exampleEnvironment exampleSystem
    [exampleModule 2 moduleRoleGuiDesktop 0, exampleModule 1 moduleRoleShell 0] [] exampleVerifier (by decide +kernel)).mpr
    (by decide +kernel)

/-- The start succeeds without a required desktop whose digest is wrong. -/
theorem required_module_skipped :
    let descriptors := [exampleModule 1 moduleRoleShell 0, exampleModule 2 moduleRoleGuiDesktop 1]
    let run := processStartSystemModules exampleEnvironment descriptors [] exampleVerifier ⟨exampleSystem, []⟩
    run.1 = .ok () ∧ (exampleModule 2 moduleRoleGuiDesktop 1).Required ∧
      run.2.started = [(exampleModule 1 moduleRoleShell 0, 0)] ∧ ¬SystemStarted descriptors run.2.started := by
  have hstarted : (processStartSystemModules exampleEnvironment
      [exampleModule 1 moduleRoleShell 0, exampleModule 2 moduleRoleGuiDesktop 1] [] exampleVerifier ⟨exampleSystem, []⟩).2.started =
      [(exampleModule 1 moduleRoleShell 0, 0)] := by decide +kernel
  refine ⟨by decide +kernel, by decide, hstarted, fun h => ?_⟩
  have hmem := h.required (exampleModule 2 moduleRoleGuiDesktop 1, 1) (by decide +kernel) (by decide)
  rw [hstarted] at hmem
  exact absurd hmem (by decide +kernel)

end StartupProgram
end InferenceOS
