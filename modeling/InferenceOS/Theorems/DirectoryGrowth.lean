import InferenceOS.Theorems.OpenFiles
import InferenceOS.Theorems.Formatting

/-! Growing, removing and creating the directories of a directory store: what each of them does to the table, and what a reader
    of the directory finds after it. -/

namespace InferenceOS
open Program Function

/-- The operations act on the clusters that their context shows, and every cluster can be read. -/
structure ClusterOperations.Reading {κ : Type} (operations : ClusterOperations κ) (clusters : κ → Nat → ClusterBytes) : Prop
    extends operations.Lawful clusters where
  answers : ∀ c x, ∃ y, operations.read c x = (.ok (clusters x c), y)

namespace DirectoryStore
variable {κ : Type} {s t : DirectoryStore κ} {clusters : κ → Nat → ClusterBytes} {first parent capacity scratchSize : Nat}

theorem onContext_run {α : Type} {m : Program IosError κ α} :
    onContext m s = ((m s.ioContext).1, { s with ioContext := (m s.ioContext).2 }) := rfl

@[simp] theorem wp_onContext {α : Type} {m : Program IosError κ α} {Q : α → DirectoryStore κ → Prop}
    {E : IosError → DirectoryStore κ → Prop} : wp (onContext m) Q E s =
      wp m (fun a y => Q a { s with ioContext := y }) (fun e y => E e { s with ioContext := y }) s.ioContext := wp_zoom

theorem read_run (h : s.operations.Reading clusters) (c : Nat) : ∃ y, clusters y = clusters s.ioContext ∧
    onContext (s.operations.read c) s = (.ok (clusters s.ioContext c), { s with ioContext := y }) := by
  obtain ⟨y, hy⟩ := h.answers c s.ioContext
  refine ⟨y, (wp_ok (h.read c s.ioContext) hy).2, ?_⟩
  rw [onContext_run, hy]

structure Grown (s : DirectoryStore κ) (first : Nat) (chain : List Nat) (new : Nat) (t : DirectoryStore κ) : Prop where
  file : t = { s with fat := t.fat, ioContext := t.ioContext }
  wasFree : s.fat new = Fat.free
  linked : Fat.Chain t.fat s.fatEntryCount first (chain ++ [new])
  frame : ∀ c, c ≠ new → chain.getLast? ≠ some c → t.fat c = s.fat c
  zeroed : s.operations.zero new s.ioContext = (.ok (), t.ioContext)

theorem grow_spec : wp (subdirectoryGrow first capacity)
    (fun new t => ∃ chain, Fat.traverse s.fat s.fatEntryCount first capacity = .ok chain ∧ Grown s first chain new t)
    (fun _ t => t.fat = s.fat) s := by
  unfold subdirectoryGrow
  rw [wp_bind, wp_get, wp_bind, wp_failIf]
  refine ⟨fun _ => rfl, fun _ => ?_⟩
  rw [wp_bind, wp_ofExcept]
  refine ⟨fun chain hwalk => ?_, fun _ _ => rfl⟩
  rw [wp_bind, wp_ofExcept]
  refine ⟨?_, fun _ _ => rfl⟩
  rintro ⟨fat, fresh⟩ hallocate
  have ha := Fat.allocate_eq_ok hallocate
  obtain ⟨new, rfl⟩ := List.length_eq_one_iff.mp ha.length
  obtain ⟨-, -, hchain, -, -⟩ := Fat.traverse_eq_ok.mp hwalk
  have hnew : ∀ c ∈ chain, c ≠ new := by
    rintro c hc rfl
    exact hchain.used c hc (ha.wasFree c List.mem_cons_self)
  have hlast : chain.getLast? = some (chain.getLastD 0) := by
    rw [List.getLastD_eq_getLast?, List.getLast?_eq_some_getLast hchain.ne_nil, Option.getD_some]
  have hold : Fat.Chain fat s.fatEntryCount first chain :=
    hchain.frame fun c hc => ha.frame c fun hx => hnew c hc (List.mem_singleton.mp hx)
  dsimp only
  rw [wp_bind, wp_modify, wp_bind, wp_attempt, wp_onContext]
  refine wp_iff.mpr ⟨fun _ x hz => ?_, fun e x hz => ?_⟩
  · refine ⟨chain, hwalk, rfl, ha.wasFree new List.mem_cons_self, ?_, fun c hc hl => ?_, hz⟩
    · exact hold.append ha.chain hlast fun c hc hx => hnew c hc (List.mem_singleton.mp hx)
    · show update fat (chain.getLastD 0) new c = s.fat c
      rw [update_of_ne (by rintro rfl; exact hl hlast), ha.frame c fun hx => hc (List.mem_singleton.mp hx)]
  · exact ha.clear

theorem endSeen_zero : endSeen Bytes.zero = true := by
  refine List.any_eq_true.mpr ⟨0, List.mem_range.mpr (by decide), ?_⟩
  rw [FileService.slotAt, Bytes.slice_zero, Bytes.byte_zero]
  rfl

theorem gatherAmong_cleared {entryCapacity new : Nat} : ∀ {l : List Nat} {chainIndex : Nat} {entries : List DirectoryEntry}
    {s t : DirectoryStore κ}, s.operations.Reading clusters → t.operations.Reading clusters →
    (∀ c ∈ l, clusters t.ioContext c = clusters s.ioContext c) → clusters t.ioContext new = Bytes.zero → (chainIndex = 0 → l ≠ []) →
    (gatherAmong first entryCapacity (l ++ [new]) chainIndex entries t).1 =
      (gatherAmong first entryCapacity l chainIndex entries s).1
  | [], chainIndex, entries, s, t, _, ht, _, hnew, hne => by
    obtain ⟨y, -, hread⟩ := read_run ht new
    rw [show gatherAmong first entryCapacity [] chainIndex entries s = (.ok entries, s) from rfl, List.nil_append, gatherAmong,
      bind_ok (show get t = (.ok t, t) from rfl), bind_ok hread, hnew, FsMount.directoryScan_zero,
      ofExcept_ok_bind, failIf_pass (fun hx => hne hx.1 rfl),
      show gather chainIndex entryCapacity [] 0 entries = .ok entries from rfl, ofExcept_ok_bind, if_pos endSeen_zero]
    rfl
  | c :: l, chainIndex, entries, s, t, hs, ht, hsame, hnew, _ => by
    obtain ⟨x, hx, hreads⟩ := read_run hs c
    obtain ⟨y, hy, hreadt⟩ := read_run ht c
    rw [hsame c List.mem_cons_self] at hreadt
    rw [List.cons_append, gatherAmong, gatherAmong, bind_ok (show get t = (.ok t, t) from rfl),
      bind_ok (show get s = (.ok s, s) from rfl), bind_ok hreads, bind_ok hreadt]
    cases directoryScan (FileService.slotAt (clusters s.ioContext c)) directorySlots directorySlots directorySlots with
    | error e => rfl
    | ok decoded =>
      rw [ofExcept_ok_bind, ofExcept_ok_bind]
      obtain hx' | hx' := Decidable.em (chainIndex = 0 ∧ ¬Dotted decoded first 0)
      · rw [failIf_bind hx', failIf_bind hx']
        rfl
      rw [failIf_pass hx', failIf_pass hx']
      cases gather chainIndex entryCapacity decoded 0 entries with
      | error e => rfl
      | ok entries' =>
        rw [ofExcept_ok_bind, ofExcept_ok_bind]
        split
        · rfl
        · refine @gatherAmong_cleared entryCapacity new l (chainIndex + 1) entries' { s with ioContext := x }
            { t with ioContext := y } hs ht (fun d hd => ?_) ((congrFun hy new).trans hnew) fun hz => absurd hz (Nat.succ_ne_zero _)
          show clusters y d = clusters x d
          rw [hx, hy]
          exact hsame d (List.mem_cons_of_mem _ hd)

theorem Grown.enumerate {chain : List Nat} {new chainCapacity entryCapacity : Nat} (h : Grown s first chain new t)
    (hops : s.operations.Reading clusters) (hwalk : Fat.traverse s.fat s.fatEntryCount first capacity = .ok chain)
    (hroom : chain.length < chainCapacity) : (subdirectoryEnumerate first chainCapacity scratchSize entryCapacity t).1 =
      (subdirectoryEnumerate first chainCapacity scratchSize entryCapacity s).1 := by
  obtain ⟨hn, -, hchain, hnd, -⟩ := Fat.traverse_eq_ok.mp hwalk
  have hwalks : Fat.traverse s.fat s.fatEntryCount first chainCapacity = .ok chain :=
    Fat.traverse_eq_ok.mpr ⟨hn, by omega, hchain, hnd, hroom.le⟩
  have hwalkt : Fat.traverse t.fat s.fatEntryCount first chainCapacity = .ok (chain ++ [new]) :=
    Fat.traverse_eq_ok.mpr ⟨hn, by omega, h.linked, h.linked.nodup, by rwa [List.length_append]⟩
  have hclusters := wp_ok (hops.zero new s.ioContext) h.zeroed
  have hsame : ∀ c ∈ chain, clusters t.ioContext c = clusters s.ioContext c := fun c hc => by
    rw [hclusters, update_of_ne]
    rintro rfl
    exact hchain.used c hc h.wasFree
  have hcount : t.fatEntryCount = s.fatEntryCount := by rw [h.file]
  have hbytes : t.clusterBytes = s.clusterBytes := by rw [h.file]
  have hopst : t.operations = s.operations := by rw [h.file]
  have hstore : t.validStore ↔ s.validStore := by rw [validStore, validStore, hcount, hbytes]
  unfold subdirectoryEnumerate
  rw [bind_ok (show get t = (.ok t, t) from rfl), bind_ok (show get s = (.ok s, s) from rfl), hcount, hbytes]
  have hargs : (¬t.validStore ∨ chainCapacity = 0 ∨ scratchSize < s.clusterBytes ∨ entryCapacity = 0) ↔
      (¬s.validStore ∨ chainCapacity = 0 ∨ scratchSize < s.clusterBytes ∨ entryCapacity = 0) := by rw [hstore]
  obtain hbad | hgood := Decidable.em (¬s.validStore ∨ chainCapacity = 0 ∨ scratchSize < s.clusterBytes ∨ entryCapacity = 0)
  · rw [failIf_bind hbad, failIf_bind (hargs.mpr hbad)]
    rfl
  · rw [failIf_pass hgood, failIf_pass fun hx => hgood (hargs.mp hx), hwalks, hwalkt, ofExcept_ok_bind, ofExcept_ok_bind]
    refine gatherAmong_cleared hops (hopst ▸ hops) hsame ?_ fun _ => hchain.ne_nil
    rw [hclusters, update_self]

/-- What the cluster with number `i` of an empty directory has: the records of the directory and its parent in the first one,
    nothing in the others. -/
def OnlyDots (first parent i : Nat) (entries : List DirectoryEntry) : Prop :=
  if i = 0 then ∃ own up, entries = [own, up] ∧ internalEntryIs own false first ∧ internalEntryIs up true parent
  else entries = []

/-- Every cluster of the chain can be scanned and holds the records of the directory itself at most. -/
def Emptied (data : Nat → ClusterBytes) (first parent : Nat) (chain : List Nat) : Prop :=
  ∀ i c, chain[i]? = some c → ∃ entries,
    directoryScan (FileService.slotAt (data c)) directorySlots directorySlots directorySlots = .ok entries ∧
      OnlyDots first parent i entries

theorem onlyDots_iff {i : Nat} {entries : List DirectoryEntry} : OnlyDots first parent i entries ↔
    ¬(i = 0 ∧ ¬Dotted entries first parent) ∧ entries.drop (if i = 0 then 2 else 0) = [] := by
  unfold OnlyDots
  obtain rfl | hi := eq_or_ne i 0
  · rw [if_pos rfl, if_pos rfl]
    match entries with
    | [] => simp [Dotted]
    | [_] => simp [Dotted]
    | [own, up] => simp [Dotted]
    | _ :: _ :: _ :: _ => simp [Dotted]
  · simp [hi]

theorem removableAmong_keeps : ∀ {l : List Nat} {chainIndex : Nat} {s : DirectoryStore κ},
    wp (removableAmong first parent l chainIndex) (fun _ t => t = { s with ioContext := t.ioContext })
      (fun _ t => t = { s with ioContext := t.ioContext }) s
  | [], _, _ => rfl
  | c :: l, chainIndex, s => by
    rw [removableAmong, wp_bind, wp_get, wp_bind, wp_onContext]
    refine wp_iff.mpr ⟨fun bytes x _ => ?_, fun e x _ => rfl⟩
    rw [wp_bind, wp_ofExcept]
    refine ⟨fun decoded _ => ?_, fun _ _ => rfl⟩
    rw [wp_bind, wp_failIf]
    refine ⟨fun _ => rfl, fun _ => ?_⟩
    rw [wp_bind, wp_failIf]
    exact ⟨fun _ => rfl, fun _ => removableAmong_keeps⟩

theorem removableAmong_iff : ∀ {l : List Nat} {chainIndex : Nat} {s : DirectoryStore κ}, s.operations.Reading clusters →
    ((removableAmong first parent l chainIndex s).1 = .ok () ↔ ∀ i c, l[i]? = some c → ∃ entries,
      directoryScan (FileService.slotAt (clusters s.ioContext c)) directorySlots directorySlots directorySlots = .ok entries ∧
        OnlyDots first parent (chainIndex + i) entries)
  | [], _, _, _ => iff_of_true rfl fun i c hc => by cases hc
  | c :: l, chainIndex, s, hops => by
    obtain ⟨x, hx, hread⟩ := read_run hops c
    have hrest := @removableAmong_iff l (chainIndex + 1) { s with ioContext := x } hops
    have hsplit : (∀ i d, (c :: l)[i]? = some d → ∃ entries,
        directoryScan (FileService.slotAt (clusters s.ioContext d)) directorySlots directorySlots directorySlots = .ok entries ∧
          OnlyDots first parent (chainIndex + i) entries) ↔ (∃ entries,
        directoryScan (FileService.slotAt (clusters s.ioContext c)) directorySlots directorySlots directorySlots = .ok entries ∧
          OnlyDots first parent chainIndex entries) ∧ (removableAmong first parent l (chainIndex + 1) { s with ioContext := x }).1 =
        .ok () := by
      rw [hrest]
      dsimp only
      rw [hx]
      refine ⟨fun h => ⟨h 0 c rfl, fun i d hd => ?_⟩, fun ⟨h, h'⟩ i d hd => ?_⟩
      · rw [Nat.add_assoc, Nat.add_comm 1 i]
        exact h (i + 1) d hd
      · cases i with
        | zero =>
          cases hd
          exact h
        | succ i =>
          rw [← Nat.add_comm 1 i, ← Nat.add_assoc]
          exact h' i d hd
    rw [hsplit, removableAmong, bind_ok (show get s = (.ok s, s) from rfl), bind_ok hread]
    cases hscan : directoryScan (FileService.slotAt (clusters s.ioContext c)) directorySlots directorySlots directorySlots with
    | error e => exact iff_of_false (by rintro ⟨⟩) (by rintro ⟨⟨_, h, -⟩, -⟩; cases h)
    | ok decoded =>
      rw [ofExcept_ok_bind]
      obtain hdots | hnot := Classical.em (OnlyDots first parent chainIndex decoded)
      · obtain ⟨h₁, h₂⟩ := onlyDots_iff.mp hdots
        rw [failIf_pass h₁, failIf_pass (not_not.mpr h₂)]
        exact ⟨fun h => ⟨⟨decoded, rfl, hdots⟩, h⟩, fun h => h.2⟩
      · refine iff_of_false ?_ ?_
        · rw [onlyDots_iff, not_and_or, not_not] at hnot
          rcases Decidable.em (chainIndex = 0 ∧ ¬Dotted decoded first parent) with hx | hx
          · rw [failIf_bind hx]
            rintro ⟨⟩
          · rw [failIf_pass hx, failIf_bind (hnot.resolve_left hx)]
            rintro ⟨⟩
        · rintro ⟨⟨_, h, h'⟩, -⟩
          cases h
          exact hnot h'

/-- The arguments that a removal accepts. -/
structure Removable (s : DirectoryStore κ) (parent capacity scratchSize : Nat) : Prop where
  store : s.validStore
  writable : s.writable = true
  workspace : 0 < capacity
  scratch : s.clusterBytes ≤ scratchSize
  parent : 2 ≤ parent ∧ parent < s.fatEntryCount

theorem removable_iff : Removable s parent capacity scratchSize ↔ ¬(¬s.validStore ∨ s.writable = false ∨ capacity = 0 ∨
    scratchSize < s.clusterBytes ∨ parent < 2 ∨ s.fatEntryCount ≤ parent) := by
  simp only [not_or, not_not, Bool.not_eq_false, not_lt, not_le]
  exact ⟨fun h => ⟨h.store, h.writable, Nat.pos_iff_ne_zero.mp h.workspace, h.scratch, h.parent⟩,
    fun ⟨h₁, h₂, h₃, h₄, h₅⟩ => ⟨h₁, h₂, Nat.pos_iff_ne_zero.mpr h₃, h₄, h₅⟩⟩

theorem remove_spec : wp (subdirectoryRemove first parent capacity scratchSize)
    (fun _ t => ∃ chain, Fat.traverse s.fat s.fatEntryCount first capacity = .ok chain ∧
      t = { s with fat := Fat.clear s.fat chain, ioContext := t.ioContext })
    (fun _ t => t.fat = s.fat) s := by
  unfold subdirectoryRemove
  rw [wp_bind, wp_get, wp_bind, wp_failIf]
  refine ⟨fun _ => rfl, fun _ => ?_⟩
  rw [wp_bind, wp_ofExcept]
  refine ⟨fun chain hwalk => ?_, fun _ _ => rfl⟩
  rw [wp_bind]
  refine wp_mono removableAmong_keeps (fun _ t ht => ?_) fun _ t ht => by rw [ht]
  rw [Fat.release_eq_ok hwalk, ofExcept_ok_bind]
  refine ⟨chain, hwalk, ?_⟩
  rw [ht]

theorem remove_iff (hops : s.operations.Reading clusters) :
    (subdirectoryRemove first parent capacity scratchSize s).1 = .ok () ↔ Removable s parent capacity scratchSize ∧
      ∃ chain, Fat.traverse s.fat s.fatEntryCount first capacity = .ok chain ∧ Emptied (clusters s.ioContext) first parent chain := by
  unfold subdirectoryRemove
  rw [bind_ok (show get s = (.ok s, s) from rfl)]
  obtain hgood | hbad := Classical.em (Removable s parent capacity scratchSize)
  · rw [failIf_pass (removable_iff.mp hgood)]
    cases hwalk : Fat.traverse s.fat s.fatEntryCount first capacity with
    | error e => exact iff_of_false (by rintro ⟨⟩) (by rintro ⟨-, _, h, -⟩; cases h)
    | ok chain =>
      have hloop := @removableAmong_iff κ clusters first parent chain 0 s hops
      simp only [Nat.zero_add] at hloop
      rw [ofExcept_ok_bind]
      refine Iff.trans ?_ (hloop.trans ⟨fun h => ⟨hgood, chain, rfl, h⟩, ?_⟩)
      · rcases hr : removableAmong first parent chain 0 s with ⟨e | u, t⟩
        · rw [bind_error hr]
        · rw [bind_ok hr, Fat.release_eq_ok hwalk, ofExcept_ok_bind]
          rfl
      · rintro ⟨-, _, h, h'⟩
        cases h
        exact h'
  · rw [removable_iff, not_not] at hbad
    refine iff_of_false ?_ fun h => removable_iff.mp h.1 hbad
    rw [failIf_bind hbad]
    rintro ⟨⟩

def newEntries (c parent : Nat) : List DirectoryEntry :=
  [⟨⟨internalName false, attributeDirectory, c, 0⟩, 0, none, .internal⟩,
    ⟨⟨internalName true, attributeDirectory, parent, 0⟩, 1, none, .internal⟩]

theorem scan_newEntries {c n : Nat} (hc : Fat.validCluster c n) (hp : Fat.validCluster parent n) :
    directoryScan (FileService.slotAt (FileService.newDirectoryCluster c parent)) directorySlots directorySlots directorySlots =
      .ok (newEntries c parent) :=
  (directoryScan_eq shows_fresh (tidy_fresh hc hp)).trans rfl

theorem newEntries_onlyDots {c : Nat} : OnlyDots c parent 0 (newEntries c parent) := by
  have hown : (internalName false).byte 0 = ascii '.' ∧ (internalName false).byte 1 = ascii ' ' := by decide
  have hup : (internalName true).byte 0 = ascii '.' ∧ (internalName true).byte 1 = ascii '.' := by decide
  rw [OnlyDots, if_pos rfl]
  exact ⟨_, _, rfl, ⟨rfl, Or.inr rfl, hown⟩, ⟨rfl, Or.inr rfl, hup⟩⟩

theorem initialize_spec {c : Nat} : wp (subdirectoryInitialize c parent scratchSize)
    (fun _ t => s.validStore ∧ s.writable = true ∧ (2 ≤ c ∧ c < s.fatEntryCount) ∧ (2 ≤ parent ∧ parent < s.fatEntryCount) ∧
      Fat.eocFirst ≤ s.fat c ∧ t = { s with ioContext := t.ioContext } ∧
      s.operations.write c (FileService.newDirectoryCluster c parent) s.ioContext = (.ok (), t.ioContext))
    (fun _ t => t.fat = s.fat) s := by
  unfold subdirectoryInitialize
  rw [wp_bind, wp_get, wp_bind, wp_failIf]
  refine ⟨fun _ => rfl, fun hargs => ?_⟩
  simp only [not_or, not_not, Bool.not_eq_false, not_lt, not_le] at hargs
  obtain ⟨hstore, -, hwritable, hc₁, hc₂, hp₁, hp₂, hend⟩ := hargs
  rw [wp_onContext]
  exact wp_iff.mpr ⟨fun _ x hx => ⟨hstore, hwritable, ⟨hc₁, hc₂⟩, ⟨hp₁, hp₂⟩, hend, rfl, hx⟩, fun _ _ _ => rfl⟩

theorem initialize_remove {c scratchSize' : Nat} (hops : s.operations.Reading clusters)
    (hr : subdirectoryInitialize c parent scratchSize s = (.ok (), t)) (hn : Fat.validEntryCount s.fatEntryCount)
    (hentry : s.fat c < 2 ^ 28) (hcap : 0 < capacity) (hscratch : s.clusterBytes ≤ scratchSize') :
    ∃ u, subdirectoryRemove c parent capacity scratchSize' t = (.ok (), u) ∧ u.fat = update s.fat c Fat.free := by
  obtain ⟨hstore, hwritable, hc, hp, hend, ht, hwrite⟩ := wp_ok initialize_spec hr
  have hcv : Fat.validCluster c s.fatEntryCount := ⟨hc.1, hc.2, by have := hn.2; omega⟩
  have hpv : Fat.validCluster parent s.fatEntryCount := ⟨hp.1, hp.2, by have := hn.2; omega⟩
  obtain ⟨x, rfl⟩ : ∃ x, t = { s with ioContext := x } := ⟨_, ht⟩
  have hdata := wp_ok (hops.write c _ s.ioContext) hwrite
  have hwalk : Fat.traverse s.fat s.fatEntryCount c capacity = .ok [c] :=
    Fat.traverse_eq_ok.mpr ⟨hn, hcap, .last hcv ⟨hend, hentry⟩, List.nodup_singleton c, hcap⟩
  have hempty : Emptied (clusters x) c parent [c] := by
    rintro (_ | i) d hd
    · cases hd
      refine ⟨newEntries c parent, ?_, newEntries_onlyDots⟩
      rw [hdata, update_self]
      exact scan_newEntries hcv hpv
    · cases hd
  have hok := (@remove_iff κ { s with ioContext := x } clusters c parent capacity scratchSize' hops).mpr
    ⟨⟨hstore, hwritable, hcap, hscratch, hp⟩, [c], hwalk, hempty⟩
  rcases hrun : subdirectoryRemove c parent capacity scratchSize' { s with ioContext := x } with ⟨e | ⟨⟩, u⟩
  · rw [hrun] at hok
    cases hok
  · obtain ⟨chain, hwalk', hu⟩ := wp_ok remove_spec hrun
    rw [hwalk] at hwalk'
    cases hwalk'
    refine ⟨u, rfl, ?_⟩
    rw [hu]
    rfl

/-- A growth leaves the table as it was, or it puts one free cluster, cleared, behind the chain of the directory, where a
    reader whose workspace holds the longer chain finds the same. A removal of an empty directory clears its chain, and any
    other leaves the table as it was. A removal takes a new directory back. -/
theorem subdirectory_lifecycle (s : DirectoryStore κ) (first parent capacity scratchSize : Nat) :
    ((∀ e t, subdirectoryGrow first capacity s = (.error e, t) → t.fat = s.fat) ∧
      ∀ new t, subdirectoryGrow first capacity s = (.ok new, t) → ∃ chain,
        Fat.traverse s.fat s.fatEntryCount first capacity = .ok chain ∧ s.fat new = Fat.free ∧
        Fat.Chain t.fat s.fatEntryCount first (chain ++ [new]) ∧
        (∀ c, c ≠ new → chain.getLast? ≠ some c → t.fat c = s.fat c) ∧
        (∀ clusters, s.operations.Lawful clusters →
          clusters t.ioContext = update (clusters s.ioContext) new Bytes.zero) ∧
        ∀ clusters, s.operations.Reading clusters → ∀ workspace scratch entryCapacity, chain.length < workspace →
          (subdirectoryEnumerate first workspace scratch entryCapacity t).1 =
            (subdirectoryEnumerate first workspace scratch entryCapacity s).1) ∧
    ((∀ e t, subdirectoryRemove first parent capacity scratchSize s = (.error e, t) → t.fat = s.fat) ∧
      (∀ t, subdirectoryRemove first parent capacity scratchSize s = (.ok (), t) → ∃ chain,
        Fat.traverse s.fat s.fatEntryCount first capacity = .ok chain ∧
        ∀ c, t.fat c = if c ∈ chain then Fat.free else s.fat c) ∧
      ∀ clusters, s.operations.Reading clusters →
        ((subdirectoryRemove first parent capacity scratchSize s).1 = .ok () ↔ Removable s parent capacity scratchSize ∧
          ∃ chain, Fat.traverse s.fat s.fatEntryCount first capacity = .ok chain ∧
            Emptied (clusters s.ioContext) first parent chain)) ∧
    ∀ clusters, s.operations.Reading clusters → ∀ c t, subdirectoryInitialize c parent scratchSize s = (.ok (), t) →
      Fat.validEntryCount s.fatEntryCount → s.fat c < 2 ^ 28 → ∀ workspace scratch, 0 < workspace → s.clusterBytes ≤ scratch →
        ∃ u, subdirectoryRemove c parent workspace scratch t = (.ok (), u) ∧ u.fat = update s.fat c Fat.free := by
  refine ⟨⟨fun e t hr => ?_, fun new t hr => ?_⟩, ⟨fun e t hr => ?_, fun t hr => ?_, fun clusters hops => remove_iff hops⟩,
    fun clusters hops c t hr hn hentry _ _ hcap hscratch => initialize_remove hops hr hn hentry hcap hscratch⟩
  · have hfat := wp_error grow_spec hr
    exact hfat
  · obtain ⟨chain, hwalk, hgrown⟩ := wp_ok grow_spec hr
    refine ⟨chain, hwalk, hgrown.wasFree, hgrown.linked, hgrown.frame, fun clusters hops => ?_, fun clusters hops _ _ _ hroom =>
      hgrown.enumerate hops hwalk hroom⟩
    have hzero := wp_ok (hops.zero new s.ioContext) hgrown.zeroed
    exact hzero
  · have hfat := wp_error remove_spec hr
    exact hfat
  · obtain ⟨chain, hwalk, ht⟩ := wp_ok remove_spec hr
    refine ⟨chain, hwalk, fun c => ?_⟩
    rw [ht]
    exact Fat.clear_apply

def heldDirectory (entry : Nat) : DirectoryStore (Nat → ClusterBytes) :=
  { fat := fun c => if c = 3 then entry else if c = 4 then Fat.free else Fat.endOfChain
    fatEntryCount := 5, clusterBytes := clusterSize
    ioContext := fun c => if c = 3 then FileService.newDirectoryCluster 3 2 else Bytes.zero
    operations := .memory
    writable := true }

theorem heldDirectory_reading (entry : Nat) : (heldDirectory entry).operations.Reading id :=
  ⟨ClusterOperations.memory_lawful, fun _ x => ⟨x, rfl⟩⟩

/-- A directory of one cluster grows by the free cluster 4 and shows the same; a directory made in its place is removed. -/
theorem subdirectory_lifecycle_held : ∃ s t, s = heldDirectory Fat.endOfChain ∧ subdirectoryGrow 3 2 s = (.ok 4, t) ∧
    t.ioContext 4 = Bytes.zero ∧ (subdirectoryEnumerate 3 2 clusterSize 1 t).1 = (subdirectoryEnumerate 3 2 clusterSize 1 s).1 ∧
    (subdirectoryRemove 3 2 2 clusterSize s).1 = .ok () ∧
    ∃ u v, subdirectoryInitialize 3 2 clusterSize s = (.ok (), u) ∧ subdirectoryRemove 3 2 2 clusterSize u = (.ok (), v) ∧
      v.fat = update s.fat 3 Fat.free := by
  have hops := heldDirectory_reading Fat.endOfChain
  obtain ⟨⟨-, hgrow⟩, ⟨-, -, hremove⟩, hmade⟩ := subdirectory_lifecycle (heldDirectory Fat.endOfChain) 3 2 2 clusterSize
  obtain ⟨chain, hwalk, -, -, -, hzero, hsame⟩ := hgrow 4 _ rfl
  have hold : Fat.traverse (heldDirectory Fat.endOfChain).fat 5 3 2 = .ok [3] := rfl
  obtain rfl := Except.ok.inj (hwalk.symm.trans hold)
  obtain ⟨v, hv, hfat⟩ := hmade id hops 3 _ rfl (by decide) (by decide) 2 clusterSize (by decide) le_rfl
  refine ⟨_, _, rfl, rfl, ?_, hsame id hops 2 clusterSize 1 (by decide), ?_, _, v, rfl, hv, hfat⟩
  · exact (congrFun (hzero id hops.toLawful) 4).trans (update_self _ _ _)
  · refine (hremove id hops).mpr ⟨⟨by decide, rfl, by decide, le_rfl, by decide, by decide⟩, [3], hold, ?_⟩
    rintro (_ | i) d hd
    · cases hd
      exact ⟨_, scan_newEntries (n := 5) ⟨by decide, by decide, by decide⟩ ⟨by decide, by decide, by decide⟩, newEntries_onlyDots⟩
    · cases hd

/-- A workspace of the length of the old chain is too small for the longer one; an entry with reserved bits or a table that is
    too long lets a directory be made and not removed. -/
theorem subdirectory_limits :
    ((subdirectoryEnumerate 3 1 clusterSize 1 (heldDirectory Fat.endOfChain)).1 = .ok [] ∧
      ∃ t, subdirectoryGrow 3 1 (heldDirectory Fat.endOfChain) = (.ok 4, t) ∧
        (subdirectoryEnumerate 3 1 clusterSize 1 t).1 = .error .noSpace) ∧
    (∃ t, subdirectoryInitialize 3 2 clusterSize (heldDirectory (2 ^ 32 - 1)) = (.ok (), t) ∧
      (subdirectoryRemove 3 2 1 clusterSize t).1 = .error .protocol) ∧
    ∃ t, subdirectoryInitialize 3 2 clusterSize { heldDirectory Fat.endOfChain with fatEntryCount := maxDataCluster + 2 } =
        (.ok (), t) ∧
      (subdirectoryRemove 3 2 1 clusterSize t).1 = .error .invalidArgument := by
  refine ⟨⟨?_, _, rfl, rfl⟩, ⟨_, rfl, rfl⟩, _, rfl, rfl⟩
  obtain ⟨s, hs⟩ : ∃ s, s = heldDirectory Fat.endOfChain := ⟨_, rfl⟩
  have hwalk : Fat.traverse s.fat s.fatEntryCount 3 1 = .ok [3] := by
    rw [hs]
    rfl
  have hargs : ¬(¬s.validStore ∨ 1 = 0 ∨ clusterSize < s.clusterBytes ∨ 1 = 0) := by
    rw [hs]
    decide
  have hread : onContext (s.operations.read 3) s = (.ok (FileService.newDirectoryCluster 3 2), s) := by
    rw [hs]
    rfl
  have hget : (get : Program IosError _ _) s = (.ok s, s) := rfl
  have hscan := @scan_newEntries 2 3 5 ⟨by decide, by decide, by decide⟩ ⟨by decide, by decide, by decide⟩
  have hdots : Dotted (newEntries 3 2) 3 0 := by decide
  have hgather : gather 0 1 (newEntries 3 2) 0 [] = .ok [] := rfl
  rw [← hs, subdirectoryEnumerate, bind_ok hget, failIf_pass hargs, hwalk, ofExcept_ok_bind, gatherAmong, bind_ok hget,
    bind_ok hread, hscan, ofExcept_ok_bind, failIf_pass (fun hx => hx.2 hdots), hgather, ofExcept_ok_bind]
  split <;> rfl

end DirectoryStore
end InferenceOS
