import InferenceOS.Theorems.FileRuns

/-! Writes to an open file: the bytes that they leave, what they leave of the other files, and when a write that fails leaves a
    file that can still be used. -/

namespace InferenceOS
open Program
namespace FsFile
variable {κ : Type} {s t u : FsFile κ} {clusters : κ → Nat → ClusterBytes} {x y : κ} {l : List Nat} {buffer : Text}
variable {required : Nat}

theorem Sound.loadChain (h : Sound s) (hne : s.primary.fileSize ≠ 0) : s.loadChain = .ok s.fileChain := by
  obtain ⟨l, hl, -⟩ := h.chain hne
  rw [fileChain_eq hl, hl]

theorem Sound.covers (h : Sound s) : s.primary.fileSize ≤ s.fileChain.length * clusterSize := by
  obtain hz | hne := eq_or_ne s.primary.fileSize 0
  · rw [hz]
    exact Nat.zero_le _
  · obtain ⟨l, hl, hle⟩ := h.chain hne
    rwa [fileChain_eq hl]

theorem each_zero_frame {operations : ClusterOperations κ} (hops : operations.Lawful clusters) {c : Nat} :
    ∀ {fresh : List Nat} {x : κ}, c ∉ fresh → clusters (each operations.zero fresh x).2 c = clusters x c
  | [], _, _ => rfl
  | d :: fresh, x, hc => by
    rw [List.mem_cons, not_or] at hc
    rcases hz : operations.zero d x with ⟨e | a, y⟩
    · rw [each, bind_error hz]
      have hy := wp_error (hops.zero d x) hz
      exact congrFun hy c
    · have hy := wp_ok (hops.zero d x) hz
      rw [each, bind_ok hz, each_zero_frame hops hc.2, hy, Function.update_of_ne hc.1]

theorem Extends.frame (h : Extends s required l x) (hops : s.store.operations.Lawful clusters) {c : Nat}
    (hc : s.store.fat c ≠ Fat.free) : clusters x c = clusters s.store.ioContext c := by
  obtain ⟨old, ho, hcase⟩ := id h
  obtain ⟨-, -, rfl⟩ | ⟨-, -, -, fresh, -, -, rfl, hzero⟩ := hcase
  · rfl
  · have hfresh : c ∉ fresh := by
      obtain ⟨fresh', happend, hfree⟩ := h.old ho
      rw [List.append_cancel_left happend]
      exact fun hx => hc (hfree c hx)
    have := @each_zero_frame κ clusters s.store.operations hops c fresh s.store.ioContext hfresh
    rwa [hzero] at this

theorem Extends.existing (h : Extends s required l x) :
    s.loadChain = .ok s.fileChain ∧ ∃ fresh, l = s.fileChain ++ fresh ∧ ∀ c ∈ fresh, s.store.fat c = Fat.free := by
  obtain ⟨old, ho, -⟩ := id h
  rw [fileChain_eq ho]
  exact ⟨ho, h.old ho⟩

theorem Sound.copied {position : Nat} {part : Text} (hs : Sound s) (h : Extends s required l x)
    (hcopied : Copied s.store.operations l x position part y) (hops : s.store.operations.Lawful clusters)
    (hle : position ≤ s.primary.fileSize) :
    (bytesOf (clusters y) l).take (max s.primary.fileSize (position + part.length)) =
      overwrite (fileBytes clusters s) position part := by
  have hcovers := hs.covers
  obtain ⟨hbytes, -⟩ := hcopied clusters hops
  obtain ⟨ho, fresh, rfl, -⟩ := h.existing
  obtain ⟨-, -, hused, -⟩ := loadChain_chain ho
  rw [hbytes, take_overwrite hle (by rw [length_bytesOf]; exact hs.covered h), fileBytes, bytesOf_append,
    bytesOf_congr fun c hc => h.frame hops (hused c hc), List.take_append_of_le_length (by rw [length_bytesOf]; exact hcovers)]

def Untouched (s t : FsFile κ) : Prop :=
  ∀ first others, Fat.Chain s.store.fat s.store.fatEntryCount first others → others.Disjoint s.fileChain →
    (∀ c ∈ others, t.store.fat c = s.store.fat c) ∧ ∀ clusters, s.store.operations.Lawful clusters →
      ∀ c ∈ others, clusters t.store.ioContext c = clusters s.store.ioContext c

theorem Untouched.of_used (h : ∀ c, s.store.fat c ≠ Fat.free → c ∉ s.fileChain → t.store.fat c = s.store.fat c ∧
    ∀ clusters, s.store.operations.Lawful clusters → clusters t.store.ioContext c = clusters s.store.ioContext c) :
    Untouched s t := fun _ _ hothers hd =>
  ⟨fun c hc => (h c (hothers.used c hc) fun hx => hd hc hx).1,
    fun clusters hops c hc => (h c (hothers.used c hc) fun hx => hd hc hx).2 clusters hops⟩

theorem Extended.untouched {position : Nat} {part : Text} (h : Extended s u l)
    (hx : Extends s required l u.store.ioContext) (hcopied : Copied s.store.operations l u.store.ioContext position part y)
    (hfat : t.store.fat = u.store.fat) (hctx : t.store.ioContext = y) : Untouched s t := .of_used fun c hc ho => by
  obtain ⟨-, fresh, hfresh, hfree⟩ := hx.existing
  have hc' : c ∉ l := by
    rw [hfresh, List.mem_append, not_or]
    exact ⟨ho, fun hm => hc (hfree c hm)⟩
  refine ⟨by rw [hfat, h.frame c hc'], fun clusters hops => ?_⟩
  rw [hctx, (hcopied clusters hops).2 c hc', hx.frame hops hc]

/-- What a successful write makes of a file. -/
structure Spliced (s : FsFile κ) (buffer : Text) (t : FsFile κ) : Prop where
  position : t.position = s.position + buffer.length
  fileSize : t.primary.fileSize = max s.primary.fileSize t.position
  covers : t.primary.fileSize ≤ t.fileChain.length * clusterSize
  bytes : ∀ clusters, s.store.operations.Lawful clusters → fileBytes clusters t =
    (fileBytes clusters s).take s.position ++ buffer ++ (fileBytes clusters s).drop (s.position + buffer.length)
  others : Untouched s t

theorem Written.spliced (h : Written s buffer u l t) (hs : Sound s) (hle : s.position ≤ s.primary.fileSize) (hne : buffer ≠ []) :
    Spliced s buffer t := by
  obtain ⟨hl, hcover⟩ := h.loadChain hs hne
  have hposition : t.position = s.position + buffer.length := by rw [h.file]
  have hsize : t.primary.fileSize = max s.primary.fileSize (s.position + buffer.length) := by rw [h.file]
  have hfat : t.store.fat = u.store.fat := by rw [h.file]
  refine ⟨hposition, by rw [hposition, hsize], by rwa [fileChain_eq hl], fun clusters hops => ?_,
    h.extended.untouched h.extends_ h.copied hfat rfl⟩
  rw [fileBytes, fileChain_eq hl, hsize]
  exact hs.copied h.extends_ h.copied hops hle

theorem Sound.spliced (hs : Sound s) (hr : fileWrite buffer s = (.ok (), t)) : Spliced s buffer t := by
  obtain ⟨hle, ⟨rfl, rfl⟩ | ⟨hne, u, l, hw⟩⟩ := wp_ok (fileWrite_spec hs) hr
  · refine ⟨rfl, (max_eq_left hle).symm, hs.covers, fun clusters hops => overwrite_nil.symm, fun _ _ _ _ =>
      ⟨fun _ _ => rfl, fun _ _ _ _ => rfl⟩⟩
  · exact hw.spliced hs hle hne

theorem fileAppend_eq (hs : Sound s) : fileAppend buffer s = fileWrite buffer { s with position := s.primary.fileSize } := by
  have hsize := hs.fileSize
  have hseek : fileSeek .seekEnd 0 s = (.ok s.primary.fileSize, { s with position := s.primary.fileSize }) := by
    rw [fileSeek, bind_ok (show get s = (.ok s, s) from rfl), failIf_pass (by rw [hs.isOpen]; decide)]
    dsimp only
    rw [failIf_pass (by omega), failIf_pass (by omega)]
    rfl
  rw [fileAppend, bind_ok hseek]

/-- A successful write splices its buffer into the file; an append is a write at the end. -/
theorem fileWrite_splices (h : FileRun s) :
    (s.position ≤ s.primary.fileSize → fileWrite buffer s = (.ok (), t) → Spliced s buffer t) ∧
      fileAppend buffer s = fileWrite buffer { s with position := s.primary.fileSize } :=
  ⟨fun _ hr => h.sound.spliced hr, fileAppend_eq h.sound⟩

theorem fileWrite_splices_held : ∃ t, fileWrite [65] (heldFile .memory 0) = (.ok (), t) ∧
    Spliced (heldFile .memory 0) [65] t ∧ fileBytes id t = [65] := by
  have ht := run_eq (@of_toOption _ _ () (fileWrite [65] (heldFile .memory 0)).1 (by decide +kernel))
  have hspliced := (fileWrite_splices (heldFile_run (Or.inl rfl))).1 (Nat.zero_le _) ht
  exact ⟨_, ht, hspliced, hspliced.bytes id ClusterOperations.memory_lawful⟩

theorem Extends.unique {l' : List Nat} (h : Extends s required l x) (h' : Extends s required l' y) : l = l' ∧ x = y := by
  obtain ⟨old, ho, hcase⟩ := h
  obtain ⟨old', ho', hcase'⟩ := h'
  rw [ho] at ho'
  cases ho'
  rcases hcase with ⟨hle, rfl, rfl⟩ | ⟨hlt, -, -, fresh, rfl, -, rfl, hzero⟩
  · rcases hcase' with ⟨-, rfl, rfl⟩ | ⟨hlt, -⟩
    · exact ⟨rfl, rfl⟩
    · omega
  · rcases hcase' with ⟨hle, -⟩ | ⟨-, -, -, fresh', rfl, -, rfl, hzero'⟩
    · omega
    · rw [hzero] at hzero'
      cases hzero'
      exact ⟨rfl, rfl⟩

theorem CopyFails.unique {p q : Nat} (h : CopyFails s buffer p) (h' : CopyFails s buffer q) : p = q := by
  obtain ⟨-, -, -, -, -, l, x, hx, hstops⟩ := h
  obtain ⟨-, -, -, -, -, l', y, hx', hstops'⟩ := h'
  obtain ⟨rfl, rfl⟩ := hx.unique hx'
  exact hstops.unique hstops'

/-- What a write that failed leaves of a file that can still be used: it is as after the write of a part of the buffer. -/
structure Usable (s : FsFile κ) (buffer : Text) (t : FsFile κ) : Prop where
  position : t.position ≤ t.primary.fileSize
  empty : t.primary.fileSize = 0 ↔ t.primary.firstCluster = 0
  chain : t.loadChain = .ok t.fileChain ∧ t.primary.fileSize ≤ t.fileChain.length * clusterSize
  allocated : ∀ c, c ∉ t.fileChain → t.store.fat c = s.store.fat c
  others : Untouched s t
  transferred : ∃ k ≤ buffer.length, t.position = s.position + k ∧ t.primary.fileSize = max s.primary.fileSize (s.position + k) ∧
    ∀ clusters, s.store.operations.Lawful clusters →
      fileBytes clusters t = overwrite (fileBytes clusters s) s.position (buffer.take k)
  reads : ∀ length, ReadsExactly t length
  writes : ∀ buffer' t', fileWrite buffer' t = (.ok (), t') → Spliced t buffer' t'

/-- When a write can fail without harm: the handle was consistent, and no cluster of the copy that cannot be read or written
    is one of an empty file or has its part of the buffer behind the old end. -/
structure WriteSafe (s : FsFile κ) (buffer : Text) : Prop where
  position : s.position ≤ s.primary.fileSize
  empty : s.primary.fileSize = 0 ↔ s.primary.firstCluster = 0
  copy : ∀ p, CopyFails s buffer p → s.primary.fileSize ≠ 0 ∧ p ≤ s.primary.fileSize

theorem Sound.readable (h : Sound s) (hempty : s.primary.fileSize = 0 ↔ s.primary.firstCluster = 0) :
    s.loadChain = .ok s.fileChain := by
  obtain hz | hne := eq_or_ne s.primary.fileSize 0
  · have hnil : s.loadChain = .ok [] := by rw [FsFile.loadChain, if_pos hz, if_pos (hempty.mp hz)]
    rw [fileChain_eq hnil, hnil]
  · exact h.loadChain hne

theorem Extended.first (h : Extended s u l) (hne : l ≠ []) : u.primary.firstCluster ≠ 0 := by
  have hstart := (h.chain hne).start.1
  rw [h.file]
  dsimp only
  omega

theorem fileBytes_moved (ho : s.loadChain = .ok s.fileChain)
    (h : ∀ c, s.store.fat c ≠ Fat.free → clusters x c = clusters s.store.ioContext c) :
    fileBytes clusters (s.moved s.position x) = fileBytes clusters s := by
  obtain ⟨-, -, hused, -⟩ := loadChain_chain ho
  have hbytes := bytesOf_congr fun c hc => h c (hused c hc)
  exact congrArg (List.take s.primary.fileSize) hbytes

theorem WriteStopped.usable (h : WriteStopped s buffer t) (hs : Sound s) (hsafe : WriteSafe s buffer) : Usable s buffer t := by
  have ht := h.sound hs
  obtain ⟨⟨fresh, hfree, rfl⟩, -⟩ | ⟨u, l, k, x, hext, hx, hk, rfl, hcopied, hfails⟩ := h
  · have ho := hs.readable hsafe.empty
    have hframe : ∀ clusters, s.store.operations.Lawful clusters → ∀ c, s.store.fat c ≠ Fat.free →
        clusters (each s.store.operations.zero fresh s.store.ioContext).2 c = clusters s.store.ioContext c :=
      fun clusters hops c hc => each_zero_frame hops fun hm => hc (hfree c hm)
    refine ⟨hsafe.position, hsafe.empty, ⟨ho, hs.covers⟩, fun _ _ => rfl, .of_used fun c hc _ =>
      ⟨rfl, fun clusters hops => hframe clusters hops c hc⟩, ⟨0, Nat.zero_le _, rfl, (max_eq_left hsafe.position).symm, ?_⟩,
      fun _ => ht.readsExactly (Or.inl hsafe.position), fun _ _ hr => ht.spliced hr⟩
    intro clusters hops
    rw [fileBytes_moved ho (hframe clusters hops), List.take_zero, overwrite_nil]
  · obtain ⟨hne, hinside⟩ := hsafe.copy _ hfails
    have hpos := @requiredClusters_pos s.position buffer hfails.input
    have hsize : (u.moved (s.position + k) x).primary.fileSize = s.primary.fileSize := by
      show u.primary.fileSize = _
      rw [hext.file]
    have hchain : (u.moved (s.position + k) x).loadChain = .ok l := hext.loadChain hx hpos hne
    have hfirst : (u.moved (s.position + k) x).primary.firstCluster ≠ 0 := hext.first (hx.ne_nil hpos)
    have hposition : (u.moved (s.position + k) x).position ≤ (u.moved (s.position + k) x).primary.fileSize := by
      rw [hsize]
      exact hinside
    have hlen : (buffer.take k).length = k := by
      rw [List.length_take]
      omega
    have hmax : max s.primary.fileSize (s.position + k) = s.primary.fileSize := max_eq_left hinside
    refine ⟨hposition, ⟨fun hz => absurd (hsize.symm.trans hz) hne, fun hz => absurd hz hfirst⟩,
      ⟨by rw [fileChain_eq hchain, hchain], ht.covers⟩, fun c hc => ?_, hext.untouched hx hcopied rfl rfl,
      ⟨k, hk.le, rfl, by rw [hsize, hmax], fun clusters hops => ?_⟩, fun _ => ht.readsExactly (Or.inl hposition),
      fun _ _ hr => ht.spliced hr⟩
    · rw [fileChain_eq hchain] at hc
      exact hext.frame c hc
    · have hbytes := hs.copied hx hcopied hops hsafe.position
      rw [hlen, hmax] at hbytes
      rw [fileBytes, fileChain_eq hchain, hsize]
      exact hbytes

theorem Usable.safe (h : Usable s buffer t) (hs : Sound s) (hstopped : WriteStopped s buffer t) : WriteSafe s buffer := by
  obtain ⟨⟨fresh, -, rfl⟩, hno⟩ | ⟨u, l, k, x, hext, hx, -, rfl, -, hfails⟩ := hstopped
  · exact ⟨h.position, h.empty, fun p hp => absurd hp (hno p)⟩
  · have hpos := @requiredClusters_pos s.position buffer hfails.input
    have hsize : (u.moved (s.position + k) x).primary.fileSize = s.primary.fileSize := by
      show u.primary.fileSize = _
      rw [hext.file]
    have hinside := h.position
    have hempty := h.empty
    rw [hsize] at hinside hempty
    have hne : s.primary.fileSize ≠ 0 := fun hz => hext.first (hx.ne_nil hpos) (hempty.mp hz)
    refine ⟨hfails.position, ⟨fun hz => absurd hz hne, fun hz => ?_⟩, fun p hp => ⟨hne, ?_⟩⟩
    · rcases loadChain_eq_ok (hs.loadChain hne) with ⟨hz', -, -⟩ | ⟨-, hw⟩
      · exact absurd hz' hne
      · have := (Fat.traverse_eq_ok.mp hw).2.2.1.start.1
        omega
    · rw [hp.unique hfails]
      exact hinside

/-- A write that failed leaves a file that can be used, exactly when it was safe. -/
theorem fileWrite_usable {e : IosError} (h : FileRun s) (hr : fileWrite buffer s = (.error e, t)) :
    Usable s buffer t ↔ WriteSafe s buffer := by
  have hstopped := wp_error (@fileWrite_spec κ s buffer h.sound) hr
  exact ⟨fun hx => hx.safe h.sound hstopped, hstopped.usable h.sound⟩

def unreadable : ClusterOperations (Nat → ClusterBytes) := { ClusterOperations.memory with read := fun _ => fail .io }

theorem of_toOption_none {α σ : Type} {r : Except IosError α × σ} (h : r.1.toOption = none) : ∃ e, r = (.error e, r.2) := by
  rcases r with ⟨e | b, t⟩
  · exact ⟨e, rfl⟩
  · cases h

/-- The first write of an empty file, with its cluster linked and then not read: no size, but a first cluster. -/
theorem fileWrite_unusable : ∃ e t, FileRun (heldFile unreadable 0) ∧
    (heldFile unreadable 0).primary.fileSize = 0 ∧ (heldFile unreadable 0).primary.firstCluster = 0 ∧
    fileWrite [65] (heldFile unreadable 0) = (.error e, t) ∧ t.primary.fileSize = 0 ∧ t.primary.firstCluster = 2 ∧
    ¬Usable (heldFile unreadable 0) [65] t := by
  have hfails : (fileWrite [65] (heldFile unreadable 0)).1.toOption = none := by decide +kernel
  have hsize : (fileWrite [65] (heldFile unreadable 0)).2.primary.fileSize = 0 := by decide +kernel
  have hfirst : (fileWrite [65] (heldFile unreadable 0)).2.primary.firstCluster = 2 := by decide +kernel
  obtain ⟨e, he⟩ := of_toOption_none hfails
  refine ⟨e, _, heldFile_run (Or.inl rfl), rfl, rfl, he, hsize, hfirst, fun h => ?_⟩
  have hzero := h.empty.mp hsize
  rw [hfirst] at hzero
  cases hzero

theorem fileWrite_usable_held : ∃ e t, fileWrite [65] (heldFile unreadable 1) = (.error e, t) ∧
    (Usable (heldFile unreadable 1) [65] t ↔ WriteSafe (heldFile unreadable 1) [65]) := by
  have hfails : (fileWrite [65] (heldFile unreadable 1)).1.toOption = none := by decide +kernel
  obtain ⟨e, he⟩ := of_toOption_none hfails
  exact ⟨e, _, he, fileWrite_usable (heldFile_run (Or.inr rfl)) he⟩

end FsFile
end InferenceOS
