import InferenceOS.Fs.Subdirectory
import InferenceOS.Theorems.Listings
import InferenceOS.Theorems.OpenFiles
import InferenceOS.Theorems.Attaching
import InferenceOS.Theorems.DrawnVolumes

/-! The two readers of a directory. The directory store lists the same records as the file service up to the
    first cluster with an end marker, where it stops. -/

namespace InferenceOS
open Program
variable {slots : Nat → Slot} {entry : DirectoryEntry}

namespace DirectoryStore
variable {κ : Type} {chainIndex capacity index : Nat} {decoded out : List DirectoryEntry}

def listed (decoded : List DirectoryEntry) : List DirectoryEntry := decoded.filter (·.kind ≠ .internal)

def internalsLeft (chainIndex index : Nat) : Nat := if chainIndex = 0 then 2 - index else 0

theorem internalsLeft_succ : internalsLeft chainIndex (index + 1) = internalsLeft chainIndex index - 1 := by
  unfold internalsLeft
  split <;> omega

theorem gather_ok : ∀ {decoded : List DirectoryEntry} {index : Nat} {out : List DirectoryEntry},
    (∀ entry ∈ decoded.drop (internalsLeft chainIndex index), entry.kind ≠ .internal) →
    ((out ++ listed decoded).map (·.primary.name)).Nodup → (out ++ listed decoded).length ≤ capacity →
    gather chainIndex capacity decoded index out = .ok (out ++ (listed decoded).map (shifted chainIndex))
  | [], index, out, _, _, _ => by rw [gather, listed, List.filter_nil, List.map_nil, List.append_nil]
  | entry :: rest, index, out, hi, hn, hc => by
    have hrest : ∀ other ∈ rest.drop (internalsLeft chainIndex (index + 1)), other.kind ≠ .internal := by
      intro other ho
      refine hi other ?_
      rw [internalsLeft_succ] at ho
      cases hl : internalsLeft chainIndex index with
      | zero =>
        rw [hl] at ho
        exact List.mem_cons_of_mem _ ho
      | succ left =>
        rw [hl] at ho
        exact ho
    rw [gather]
    by_cases hk : entry.kind = .internal
    · have hlisted : listed (entry :: rest) = listed rest := List.filter_cons_of_neg (by simp [hk])
      have hplace : ¬(chainIndex ≠ 0 ∨ 1 < index) := by
        intro hx
        have hzero : internalsLeft chainIndex index = 0 := by
          unfold internalsLeft
          split <;> omega
        rw [hzero] at hi
        exact hi entry List.mem_cons_self hk
      rw [hlisted] at hn hc ⊢
      rw [if_pos hk, if_neg hplace]
      exact gather_ok hrest hn hc
    · have hlisted : listed (entry :: rest) = entry :: listed rest := List.filter_cons_of_pos (by simp [hk])
      rw [hlisted] at hn hc ⊢
      have hfresh : (out.any fun prior => prior.primary.name == entry.primary.name) = false := by
        rw [List.any_eq_false]
        intro prior hp hx
        rw [List.map_append, List.nodup_append] at hn
        exact hn.2.2 _ (List.mem_map_of_mem hp) _ (List.mem_map_of_mem List.mem_cons_self) (by simpa using hx)
      have hlen : out.length ≠ capacity := by
        rw [List.length_append, List.length_cons] at hc
        omega
      rw [if_neg hk, hfresh, if_neg hlen]
      show gather chainIndex capacity rest (index + 1) (out ++ [shifted chainIndex entry]) = _
      rw [gather_ok hrest (by simpa [shifted] using hn) (by simpa using hc), List.map_cons, List.append_assoc,
        List.singleton_append]

/-- The operations of the store read what the service sees of its clusters, in every state `I` of their context. -/
structure Mirrors (I : κ → Prop) (store : DirectoryStore κ) (s : FileService) : Prop where
  fat : store.fat = s.fat
  fatEntryCount : store.fatEntryCount = s.fatEntryCount
  clusterBytes : store.clusterBytes = clusterSize
  context : I store.ioContext
  reads : ∀ {context : κ}, I context → ∀ {cluster : Nat}, Fat.validCluster cluster s.fatEntryCount →
    ∃ context', I context' ∧ store.operations.read cluster context = (.ok (s.disk.data cluster), context')

def reached (data : Nat → ClusterBytes) : List (Nat × List DirectoryEntry) → List (Nat × List DirectoryEntry)
  | [] => []
  | page :: rest => if endSeen (data page.1) then [page] else page :: reached data rest

theorem reached_firsts {data : Nat → ClusterBytes} : ∀ pages, reached data pages <+: pages
  | [] => List.prefix_refl _
  | page :: rest => by
    rw [reached]
    split
    · exact ⟨rest, rfl⟩
    · exact List.prefix_cons_inj page |>.mpr (reached_firsts rest)

def numbered : Nat → List (Nat × List DirectoryEntry) → List DirectoryEntry
  | _, [] => []
  | chainIndex, page :: rest => (listed page.2).map (shifted chainIndex) ++ numbered (chainIndex + 1) rest

section Gathering
variable {I : κ → Prop} {store : DirectoryStore κ} {s : FileService} {firstCluster : Nat}
  {page : Nat × List DirectoryEntry} {pages : List (Nat × List DirectoryEntry)}

theorem Mirrors.read (h : Mirrors I store s) {cluster : Nat} (hv : Fat.validCluster cluster s.fatEntryCount) :
    ∃ store', Mirrors I store' s ∧ onContext (store.operations.read cluster) store = (.ok (s.disk.data cluster), store') := by
  obtain ⟨context', hi, hr⟩ := h.reads h.context hv
  refine ⟨{ store with ioContext := context' }, { h with context := hi }, ?_⟩
  show ((store.operations.read cluster store.ioContext).1, { store with
    ioContext := (store.operations.read cluster store.ioContext).2 }) = _
  rw [hr]

theorem gatherAmong_turn {clusters : List Nat} (h : Mirrors I store s) (hv : Fat.validCluster page.1 s.fatEntryCount)
    (hscan : directoryScan (FileService.slotAt (s.disk.data page.1)) directorySlots directorySlots directorySlots = .ok page.2)
    (hd : chainIndex = 0 → Dotted page.2 firstCluster 0)
    (hi : ∀ entry ∈ page.2.drop (internalsLeft chainIndex 0), entry.kind ≠ .internal)
    (hn : ((out ++ listed page.2).map (·.primary.name)).Nodup) (hc : (out ++ listed page.2).length ≤ capacity) :
    ∃ store', Mirrors I store' s ∧ gatherAmong firstCluster capacity (page.1 :: clusters) chainIndex out store =
      if endSeen (s.disk.data page.1) then (.ok (out ++ (listed page.2).map (shifted chainIndex)), store')
      else gatherAmong firstCluster capacity clusters (chainIndex + 1) (out ++ (listed page.2).map (shifted chainIndex)) store' := by
  obtain ⟨store', hm, hr⟩ := h.read hv
  refine ⟨store', hm, ?_⟩
  rw [gatherAmong, bind_ok (show get store = (.ok store, store) from rfl), bind_ok hr, hscan, ofExcept_ok_bind,
    failIf_pass (by rintro ⟨hx, hx'⟩; exact hx' (hd hx)), gather_ok hi hn hc, ofExcept_ok_bind]
  split <;> rfl

theorem gatherAmong_rest : ∀ {pages : List (Nat × List DirectoryEntry)} {chainIndex : Nat} {out : List DirectoryEntry}
    {store : DirectoryStore κ}, Mirrors I store s → chainIndex ≠ 0 →
    (∀ page ∈ pages, Fat.validCluster page.1 s.fatEntryCount ∧ directoryScan (FileService.slotAt (s.disk.data page.1))
      directorySlots directorySlots directorySlots = .ok page.2 ∧ ∀ entry ∈ page.2, entry.kind ≠ .internal) →
    ((out ++ pages.flatMap (listed ·.2)).map (·.primary.name)).Nodup → (out ++ pages.flatMap (listed ·.2)).length ≤ capacity →
    ∃ store', gatherAmong firstCluster capacity (pages.map Prod.fst) chainIndex out store =
      (.ok (out ++ numbered chainIndex (reached s.disk.data pages)), store')
  | [], chainIndex, out, store, _, _, _, _, _ => ⟨store, by rw [reached, numbered, List.append_nil]; rfl⟩
  | page :: rest, chainIndex, out, store, h, hk, hp, hn, hc => by
    obtain ⟨hv, hscan, hi⟩ := hp page List.mem_cons_self
    rw [List.flatMap_cons, ← List.append_assoc] at hn hc
    have hn' : ((out ++ listed page.2).map (·.primary.name)).Nodup := by
      rw [List.map_append] at hn
      exact (List.nodup_append.mp hn).1
    have hc' : (out ++ listed page.2).length ≤ capacity := by
      rw [List.length_append] at hc
      omega
    obtain ⟨store', hm, hturn⟩ := @gatherAmong_turn κ chainIndex capacity out I store s firstCluster page (rest.map Prod.fst)
      h hv hscan (fun hx => absurd hx hk) (fun entry he => hi entry (List.mem_of_mem_drop he)) hn' hc'
    rw [List.map_cons, hturn, reached]
    split
    · exact ⟨store', by rw [numbered, numbered, List.append_nil]⟩
    · rw [numbered, ← List.append_assoc]
      refine gatherAmong_rest hm (Nat.succ_ne_zero _) (fun other ho => hp other (List.mem_cons_of_mem _ ho)) ?_ ?_
      · simpa [shifted, Function.comp_def] using hn
      · simpa using hc

theorem internal_name (h : SlotEntry slots entry) (hk : entry.kind = .internal) :
    ∃ parent, entry.primary.name = internalName parent := by
  cases h with
  | regular => cases hk
  | directory => cases hk
  | @internal k p _ hp =>
    unfold decodeInternal at hp
    split at hp
    · cases hp
    · rename_i hname
      rw [not_or, Bool.not_eq_true, Bool.not_eq_false'] at hname
      unfold isInternalName at hname
      split at hp
      · cases hp
      · dsimp only at hp
        split at hp
        · cases hp
        · cases hp
          rcases Bool.or_eq_true_iff.mp hname.1 with hx | hx
          · exact ⟨false, beq_iff_eq.mp hx⟩
          · exact ⟨true, beq_iff_eq.mp hx⟩

theorem internalEntryIs_name {parent : Bool} {cluster : Nat}
    (h : SlotEntry slots entry) (hi : internalEntryIs entry parent cluster) : entry.primary.name = internalName parent := by
  obtain ⟨hk, -, -, hbyte⟩ := hi
  obtain ⟨parent', hname⟩ := internal_name h hk
  rw [hname] at hbyte ⊢
  cases parent <;> cases parent'
  · rfl
  · exact absurd hbyte (by decide)
  · exact absurd hbyte (by decide)
  · rfl

theorem no_strays {own parent : DirectoryEntry} {later : List DirectoryEntry} {slots' : Nat → Slot}
    (ho : SlotEntry slots own) (hp : SlotEntry slots' parent) (hl : ∀ entry ∈ later, ∃ slots, SlotEntry slots entry)
    (hown : internalEntryIs own false firstCluster) (hparent : internalEntryIs parent true 0)
    (hn : ((own :: parent :: later).map (·.primary.name)).Nodup) : ∀ entry ∈ later, entry.kind ≠ .internal := by
  intro entry he hk
  obtain ⟨_, hentry⟩ := hl entry he
  obtain ⟨p, hname⟩ := internal_name hentry hk
  rw [List.map_cons, List.map_cons, List.nodup_cons, List.nodup_cons, internalEntryIs_name ho hown,
    internalEntryIs_name hp hparent] at hn
  have hmem : internalName p ∈ later.map (·.primary.name) := hname ▸ List.mem_map_of_mem he
  cases p with
  | false => exact hn.1 (List.mem_cons_of_mem _ hmem)
  | true => exact hn.2.1 hmem

theorem reached_iff {data : Nat → ClusterBytes} : ∀ {pages : List (Nat × List DirectoryEntry)},
    (∀ page ∈ pages.tail, ∀ entry ∈ page.2, entry.kind ≠ .internal) →
    (FileService.recordsOf (reached data pages) = FileService.recordsOf pages ↔
      pages.Pairwise fun page later => endSeen (data page.1) = true → later.2 = [])
  | [], _ => by simp [reached]
  | page :: rest, hi => by
    have hrest : ∀ page ∈ rest.tail, ∀ entry ∈ page.2, entry.kind ≠ .internal := fun page hp =>
      hi page (List.mem_of_mem_tail hp)
    rw [reached, List.pairwise_cons]
    split
    · rename_i hend
      have hsplit : FileService.recordsOf [page] = FileService.recordsOf (page :: rest) ↔ FileService.recordsOf rest = [] := by
        unfold FileService.recordsOf
        rw [List.flatMap_cons, List.flatMap_cons, List.flatMap_nil, List.append_nil, List.self_eq_append_right]
      rw [hsplit]
      constructor
      · intro hnil
        have hempty : ∀ later ∈ rest, later.2 = [] := fun later hl => by
          refine List.eq_nil_iff_forall_not_mem.mpr fun entry he => ?_
          have hmem : (later.1, entry) ∈ FileService.recordsOf rest :=
            FileService.mem_recordsOf.mpr ⟨later, hl, rfl, he, hi later hl entry he⟩
          rw [hnil] at hmem
          cases hmem
        exact ⟨fun later hl _ => hempty later hl, List.pairwise_of_forall_mem_list fun _ _ later hl _ => hempty later hl⟩
      · rintro ⟨hempty, -⟩
        refine List.eq_nil_iff_forall_not_mem.mpr fun r hr => ?_
        obtain ⟨later, hl, -, he, -⟩ := FileService.mem_recordsOf.mp hr
        rw [hempty later hl hend] at he
        cases he
    · rename_i hend
      have hcancel : FileService.recordsOf (page :: reached data rest) = FileService.recordsOf (page :: rest) ↔
          FileService.recordsOf (reached data rest) = FileService.recordsOf rest := by
        unfold FileService.recordsOf
        rw [List.flatMap_cons, List.flatMap_cons, List.append_cancel_left_eq]
      rw [hcancel, reached_iff hrest]
      exact ⟨fun h => ⟨fun _ _ hx => absurd hx hend, h⟩, fun h => h.2⟩

end Gathering

/-- The cluster of an entry whose slots are counted from the first of `clusters`, and the entry in its own slots. -/
def placed (clusters : List Nat) (entry : DirectoryEntry) : Nat × DirectoryEntry :=
  (clusters.getD (entry.primarySlot / directorySlots) 0,
    { entry with
      primarySlot := entry.primarySlot % directorySlots
      companionSlot := entry.companionSlot.map (· % directorySlots) })

theorem placed_shifted {clusters : List Nat} {cluster : Nat}
    (h : SlotEntry slots entry) (hc : clusters[chainIndex]? = some cluster) :
    placed clusters (shifted chainIndex entry) = (cluster, entry) := by
  obtain ⟨h₁, h₂⟩ := h.bounds
  have hdiv : ∀ {slot}, slot < directorySlots → (slot + chainIndex * directorySlots) / directorySlots = chainIndex := by
    intro slot hs
    rw [Nat.add_mul_div_right _ _ (by decide), Nat.div_eq_of_lt hs, Nat.zero_add]
  have hmod : ∀ {slot}, slot < directorySlots → (slot + chainIndex * directorySlots) % directorySlots = slot := by
    intro slot hs
    rw [Nat.add_mul_mod_self_right, Nat.mod_eq_of_lt hs]
  have hcompanion : (entry.companionSlot.map (· + chainIndex * directorySlots)).map (· % directorySlots) = entry.companionSlot := by
    cases hs : entry.companionSlot with
    | none => rfl
    | some slot => rw [Option.map_some, Option.map_some, hmod (h₂ slot hs)]
  show (clusters.getD ((entry.primarySlot + chainIndex * directorySlots) / directorySlots) 0, { entry with
    primarySlot := (entry.primarySlot + chainIndex * directorySlots) % directorySlots
    companionSlot := (entry.companionSlot.map (· + chainIndex * directorySlots)).map (· % directorySlots) }) = (cluster, entry)
  rw [hdiv h₁, hmod h₁, hcompanion, List.getD_eq_getElem?_getD, hc]
  rfl

theorem map_placed_numbered {data : Nat → ClusterBytes} {clusters : List Nat} :
    ∀ {pages : List (Nat × List DirectoryEntry)} {chainIndex : Nat},
    (∀ page ∈ pages, directoryScan (FileService.slotAt (data page.1)) directorySlots directorySlots directorySlots =
      .ok page.2) → pages.map Prod.fst <+: clusters.drop chainIndex →
    (numbered chainIndex pages).map (placed clusters) = FileService.recordsOf pages
  | [], chainIndex, _, _ => rfl
  | page :: rest, chainIndex, hscan, hc => by
    obtain ⟨more, hmore⟩ := hc
    have hhead : clusters[chainIndex]? = some page.1 := by
      rw [← List.head?_drop, ← hmore]
      rfl
    have htail : rest.map Prod.fst <+: clusters.drop (chainIndex + 1) := by
      refine ⟨more, ?_⟩
      rw [← List.tail_drop, ← hmore]
      rfl
    have hentries := directoryScan_entries (hscan page List.mem_cons_self)
    rw [numbered, List.map_append, List.map_map, map_placed_numbered (fun other ho => hscan other (List.mem_cons_of_mem _ ho)) htail]
    unfold FileService.recordsOf
    rw [List.flatMap_cons]
    congr 1
    refine List.map_congr_left fun entry he => ?_
    exact placed_shifted (hentries entry (List.mem_of_mem_filter he)) hhead

end DirectoryStore

namespace FileService
variable {α κ : Type} {s t : FileService} {d : Nat} {e : IosError} {pages : List (Nat × List DirectoryEntry)}

theorem Yields.outcome {m : Service α} {r : Except IosError α} (h : Yields m s r) (hr : s.Room 1) : (m s).1 = r := by
  rcases hrun : m s with ⟨e | a, t⟩
  · exact ((wp_error h hrun).2.elim id fun hx => absurd hr hx.2).symm
  · exact (wp_ok h hrun).2.symm

theorem chain_fails (hm : s.Mounted) (hc : Fat.traverse s.fat s.fatEntryCount d maxClusters = .error e) :
    Yields (directoryChain d) s (.error e) := by
  refine (yields_get hm).bind fun t ht => ?_
  exact ((yields_ofExcept (ht.mounted hm) _).congr hc).bind_error

theorem enumerate_fails (hm : s.Mounted) (hi : s.initialized = true) (hv : s.validDirectoryCluster d)
    (hc : Fat.traverse s.fat s.fatEntryCount d maxClusters = .error e) {continuation capacity : Nat} (h : capacity ≠ 0) :
    Yields (enumerate d continuation capacity) s (.error e) := by
  unfold enumerate
  refine (yields_get hm).bind fun t ht => ?_
  have hmt := ht.mounted hm
  refine ((yields_failIf hmt _ _).congr (if_neg fun hx => hx.elim h fun hx => hx hv)).bind fun u hu => ?_
  have hq := ht.trans hu
  refine (validateReading_yields (hq.mounted hm) (hq.wrote.initialized.trans hi)).bind fun w hw => ?_
  have hqw := hq.trans hw
  exact (chain_fails (hqw.mounted hm) (by rw [hqw.fat, hqw.fatEntryCount, hc])).bind_error

theorem lookup_fails (hm : s.Mounted) (hi : s.initialized = true) (hv : s.validDirectoryCluster d)
    (hc : Fat.traverse s.fat s.fatEntryCount d maxClusters = .error e) (component : Text) :
    Yields (lookup d component) s (canonicalComponent component >>= fun _ => .error e) := by
  unfold lookup
  refine (yields_get hm).bind fun t ht => ?_
  have hmt := ht.mounted hm
  refine ((yields_failIf hmt _ _).congr (if_neg (not_not.mpr hv))).bind fun u hu => ?_
  have hq := ht.trans hu
  refine (validateReading_yields (hq.mounted hm) (hq.wrote.initialized.trans hi)).bind fun w hw => ?_
  have hqw := hq.trans hw
  refine (yields_ofExcept (hqw.mounted hm) _).bindE fun name x _ hx => ?_
  have hqx := hqw.trans hx
  unfold findInDirectory
  exact (chain_fails (hqx.mounted hm) (by rw [hqx.fat, hqx.fatEntryCount, hc])).bind_error.bind_error

/-- What the file service exposes of a directory are the records that another reader returned, in its order; where
    that reader failed, the service fails with the same status. -/
structure ReadersAgree (s : FileService) (d : Nat) (clusters : List Nat) (outcome : Except IosError (List DirectoryEntry)) :
    Prop where
  enumerated : ∀ continuation capacity, capacity ≠ 0 → (enumerate d continuation capacity s).1 = do
    let entries ← outcome
    listPage s continuation capacity (entries.map (DirectoryStore.placed clusters))
  found : ∀ component, (lookup d component s).1 = do
    let name ← canonicalComponent component
    let entries ← outcome
    match (entries.map (DirectoryStore.placed clusters)).find? fun r => r.2.primary.name = name with
    | none => .error .notFound
    | some r => .ok (objectOf s.mount.geometry r)

section Agreement
variable {I : κ → Prop} {store : DirectoryStore κ} {chainCapacity scratchSize entryCapacity : Nat}
open DirectoryStore

/-- The pages of a directory that starts with its own two records and repeats no name. -/
structure Listable (s : FileService) (d : Nat) (pages : List (Nat × List DirectoryEntry)) : Prop where
  chain : Fat.Chain s.fat s.fatEntryCount d (pages.map Prod.fst)
  scans : ∀ page ∈ pages, directoryScan (slotAt (s.disk.data page.1)) directorySlots directorySlots directorySlots = .ok page.2
  dots : ∀ page ∈ pages.head?, Dotted page.2 d 0
  names : ((pages.flatMap (·.2)).map (·.primary.name)).Nodup

theorem Listable.cons (h : Listable s d pages) : ∃ page rest, pages = page :: rest ∧ Dotted page.2 d 0 ∧
    (∀ entry ∈ page.2.drop 2, entry.kind ≠ .internal) ∧ ∀ other ∈ rest, ∀ entry ∈ other.2, entry.kind ≠ .internal := by
  obtain ⟨hchain, hscan, hdots, hnames⟩ := h
  cases pages with
  | nil => exact absurd rfl hchain.ne_nil
  | cons page rest =>
    have hd : Dotted page.2 d 0 := hdots page rfl
    have hentries : ∀ other ∈ page :: rest, ∀ entry ∈ other.2, SlotEntry (slotAt (s.disk.data other.1)) entry :=
      fun other ho => directoryScan_entries (hscan other ho)
    refine ⟨page, rest, rfl, hd, ?_⟩
    obtain ⟨cluster, entries⟩ := page
    match entries, hd with
    | own :: parent :: later, hd =>
      have hfirst := hentries _ List.mem_cons_self
      have hstray : ∀ entry ∈ later ++ rest.flatMap (·.2), entry.kind ≠ .internal := by
        refine no_strays (hfirst own (by simp)) (hfirst parent (by simp)) ?_ hd.1 hd.2 (by simpa using hnames)
        intro entry he
        rcases List.mem_append.mp he with he | he
        · exact ⟨_, hfirst entry (by simp [he])⟩
        · obtain ⟨other, ho, he⟩ := List.mem_flatMap.mp he
          exact ⟨_, hentries other (List.mem_cons_of_mem _ ho) entry he⟩
      exact ⟨fun entry he => hstray entry (List.mem_append_left _ he), fun other ho entry he =>
        hstray entry (List.mem_append_right _ (List.mem_flatMap.mpr ⟨other, ho, he⟩))⟩

theorem flatMap_listed_sublist : ∀ {pages : List (Nat × List DirectoryEntry)},
    (pages.flatMap (listed ·.2)).Sublist (pages.flatMap (·.2))
  | [] => List.Sublist.refl _
  | _ :: _ => List.filter_sublist.append flatMap_listed_sublist

theorem recordsOf_snd : (recordsOf pages).map Prod.snd = pages.flatMap (listed ·.2) := by
  unfold recordsOf listed
  rw [List.map_flatMap]
  simp [Function.comp_def]

theorem subdirectoryEnumerate_eq (hm : s.Mounted) (hstore : Mirrors I store s) (h : Listable s d pages)
    (hcount : (recordsOf pages).length ≤ entryCapacity) (hpos : 0 < entryCapacity) (hwork : 0 < chainCapacity)
    (hscratch : clusterSize ≤ scratchSize) :
    (subdirectoryEnumerate d chainCapacity scratchSize entryCapacity store).1 =
      if pages.length ≤ chainCapacity then .ok (numbered 0 (reached s.disk.data pages)) else .error .noSpace := by
  have hcheck : ¬(¬store.validStore ∨ chainCapacity = 0 ∨ scratchSize < store.clusterBytes ∨ entryCapacity = 0) := by
    have hvalid := hm.validEntryCount
    unfold Fat.validEntryCount at hvalid
    rw [validStore, hstore.fatEntryCount, hstore.clusterBytes]
    omega
  have htraverse := h.chain.traverse hm.validEntryCount hwork
  rw [← hstore.fat, ← hstore.fatEntryCount, List.length_map] at htraverse
  unfold subdirectoryEnumerate
  rw [bind_ok (show get store = (.ok store, store) from rfl), failIf_pass hcheck, htraverse]
  by_cases hlen : pages.length ≤ chainCapacity
  · rw [if_pos hlen, if_pos hlen, ofExcept_ok_bind]
    obtain ⟨page, rest, rfl, hd, hfirst, hrest⟩ := h.cons
    have hsub : ((page :: rest).flatMap (listed ·.2)).Sublist ((page :: rest).flatMap (·.2)) := flatMap_listed_sublist
    have hn := h.names.sublist (hsub.map fun entry : DirectoryEntry => entry.primary.name)
    have hc : ((page :: rest).flatMap (listed ·.2)).length ≤ entryCapacity := by
      rw [← recordsOf_snd, List.length_map]
      exact hcount
    rw [List.flatMap_cons] at hn hc
    have hn' : ((([] : List DirectoryEntry) ++ listed page.2).map (·.primary.name)).Nodup := by
      rw [List.map_append] at hn
      exact (List.nodup_append.mp hn).1
    have hc' : ([] ++ listed page.2).length ≤ entryCapacity := by
      rw [List.length_append] at hc
      rw [List.nil_append]
      omega
    have hv := h.chain.valid
    obtain ⟨store', hm', hturn⟩ := @gatherAmong_turn κ 0 entryCapacity [] I store s d page (rest.map Prod.fst) hstore
      (hv _ List.mem_cons_self) (h.scans page List.mem_cons_self) (fun _ => hd) hfirst hn' hc'
    rw [List.map_cons, hturn, reached]
    split
    · rw [numbered, numbered, List.append_nil, List.nil_append]
    · obtain ⟨store'', hrun⟩ := @gatherAmong_rest κ entryCapacity I s d rest 1 ([] ++ (listed page.2).map (shifted 0)) store' hm'
        Nat.one_ne_zero (fun other ho => ⟨hv _ (List.mem_cons_of_mem _ (List.mem_map_of_mem ho)),
          h.scans other (List.mem_cons_of_mem _ ho), hrest other ho⟩)
        (by simpa [shifted, Function.comp_def] using hn) (by simpa using hc)
      rw [hrun, numbered, List.nil_append]
  · rw [if_neg hlen, if_neg hlen]
    rfl

theorem listPage_length {records : List (Nat × DirectoryEntry)} : listPage s records.length 1 records = .ok ([], 0) := by
  rw [listPage, List.drop_length, if_neg (by omega)]
  rfl

theorem length_le_of_listPage {records : List (Nat × DirectoryEntry)} {continuation : Nat}
    (h : listPage s continuation 1 records = .ok ([], 0)) : records.length ≤ continuation := by
  by_contra hlt
  obtain ⟨r, rest, hdrop⟩ := List.exists_cons_of_length_pos (l := records.drop continuation) (by simp; omega)
  rw [listPage, hdrop, List.take_succ_cons, List.take_zero, List.mapM_cons, List.mapM_nil] at h
  cases hl : listEntry s r.1 r.2 with
  | error e =>
    rw [hl] at h
    cases h
  | ok entry =>
    rw [hl] at h
    cases h

theorem recordsOf_firsts {some all : List (Nat × List DirectoryEntry)} (h : some <+: all) : recordsOf some <+: recordsOf all := by
  obtain ⟨more, rfl⟩ := h
  exact ⟨recordsOf more, by rw [recordsOf, recordsOf, recordsOf, List.flatMap_append]⟩

theorem readersAgree_reached (hm : s.Mounted) (hi : s.initialized = true) (hr : s.Room 1) (hstore : Mirrors I store s)
    (h : Listable s d pages) (hcount : (recordsOf pages).length ≤ entryCapacity) (hpos : 0 < entryCapacity)
    (hwork : 0 < chainCapacity) (hequal : pages.length ≤ chainCapacity ↔ pages.length ≤ maxClusters)
    (hscratch : clusterSize ≤ scratchSize) :
    ReadersAgree s d (pages.map Prod.fst) (subdirectoryEnumerate d chainCapacity scratchSize entryCapacity store).1 ↔
      maxClusters < pages.length ∨ recordsOf (reached s.disk.data pages) = recordsOf pages := by
  rw [subdirectoryEnumerate_eq hm hstore h hcount hpos hwork hscratch]
  have htraverse := h.chain.traverse hm.validEntryCount (show 0 < maxClusters by decide)
  rw [List.length_map] at htraverse
  by_cases hlen : pages.length ≤ maxClusters
  · rw [if_pos hlen] at htraverse
    have hscanned : Scanned s d pages := ⟨htraverse, h.scans⟩
    have hfirsts := @reached_firsts s.disk.data pages
    have hplaced : (numbered 0 (reached s.disk.data pages)).map (placed (pages.map Prod.fst)) =
        recordsOf (reached s.disk.data pages) :=
      map_placed_numbered (fun other ho => h.scans other (hfirsts.subset ho)) (by simpa using hfirsts.map Prod.fst)
    have henumerate := fun continuation {capacity} (hc : capacity ≠ 0) =>
      (@Scanned.enumerate_yields s d pages hscanned hm hi continuation _ hc).outcome hr
    rw [if_pos (hequal.mpr hlen)]
    constructor
    · intro hagree
      refine Or.inr ?_
      -- Past the records that the store returned, the service lists no further one.
      have hpage : listPage s (recordsOf (reached s.disk.data pages)).length 1 (recordsOf pages) = listPage s
          (recordsOf (reached s.disk.data pages)).length 1 ((numbered 0 (reached s.disk.data pages)).map (placed (pages.map Prod.fst))) :=
        (henumerate _ one_ne_zero).symm.trans (hagree.enumerated _ 1 one_ne_zero)
      have hall := length_le_of_listPage (hpage.trans (by rw [hplaced]; exact listPage_length))
      exact (recordsOf_firsts hfirsts).eq_of_length_le hall
    · rintro (hx | hsame)
      · omega
      · refine ⟨fun continuation capacity hc => ?_, fun component => ?_⟩
        · rw [henumerate continuation hc, ← hsame, ← hplaced]
          rfl
        · rw [(hscanned.lookup_yields hm hi component).outcome hr]
          simp only [recordNamed, ← hsame, ← hplaced]
          rfl
  · rw [if_neg hlen] at htraverse
    have hv : s.validDirectoryCluster d := hm.valid.mpr h.chain.start
    rw [if_neg fun hx => hlen (hequal.mp hx)]
    refine iff_of_true ⟨fun continuation capacity hc => ?_, fun component => ?_⟩ (Or.inl (not_le.mp hlen))
    · exact (enumerate_fails hm hi hv htraverse hc).outcome hr
    · exact (lookup_fails hm hi hv htraverse component).outcome hr

/-- The two readers of a directory agree exactly when no cluster after one with an end marker holds an entry, or
    when the chain is too long for the workspace of either. -/
theorem readersAgree_iff (hm : s.Mounted) (hi : s.initialized = true) (hr : s.Room 1) (hstore : Mirrors I store s)
    (h : Listable s d pages) (hcount : (recordsOf pages).length ≤ entryCapacity) (hpos : 0 < entryCapacity)
    (hwork : 0 < chainCapacity) (hequal : pages.length ≤ chainCapacity ↔ pages.length ≤ maxClusters)
    (hscratch : clusterSize ≤ scratchSize) :
    ReadersAgree s d (pages.map Prod.fst) (subdirectoryEnumerate d chainCapacity scratchSize entryCapacity store).1 ↔
      maxClusters < pages.length ∨ pages.Pairwise fun page later => endSeen (s.disk.data page.1) = true → later.2 = [] := by
  obtain ⟨page, rest, hpages, -, -, hrest⟩ := h.cons
  rw [← @reached_iff s.disk.data pages (by rw [hpages]; exact hrest)]
  exact readersAgree_reached hm hi hr hstore h hcount hpos hwork hequal hscratch

end Agreement

section Drawn
open DirectoryStore

theorem mirrors_memory {clusters : Nat → ClusterBytes} (h : ∀ c, 2 ≤ c → s.disk.data c = clusters c) :
    Mirrors (· = clusters) ⟨s.fat, s.fatEntryCount, clusterSize, clusters, .memory, true⟩ s where
  fat := rfl
  fatEntryCount := rfl
  clusterBytes := rfl
  context := rfl
  reads := by
    rintro context rfl cluster hv
    exact ⟨context, rfl, by rw [h cluster hv.1]; rfl⟩

def listingTable (i : Nat) : Nat := if i = 3 then 4 else if i < 5 then Fat.endOfChain else Fat.free

def listingClusters (c : Nat) : ClusterBytes :=
  if c = 3 then newDirectoryCluster 3 rootCluster else if c = 4 then pairCluster emptyFile else Bytes.zero

def ownEntries : List DirectoryEntry :=
  [⟨⟨internalName false, attributeDirectory, 3, 0⟩, 0, none, .internal⟩,
    ⟨⟨internalName true, attributeDirectory, rootCluster, 0⟩, 1, none, .internal⟩]

def fileEntries : List DirectoryEntry := [⟨emptyFile, 1, some 0, .regular⟩]

theorem scan_ownEntries : directoryScan (slotAt (listingClusters 3)) directorySlots directorySlots directorySlots = .ok ownEntries :=
  (directoryScan_eq shows_fresh (@tidy_fresh 5 _ _ ⟨by decide, by decide, by decide⟩ ⟨by decide, by decide, by decide⟩)).trans rfl

theorem scan_fileEntries : directoryScan (slotAt (listingClusters 4)) directorySlots directorySlots directorySlots = .ok fileEntries :=
  (filled_pair ⟨by decide, by decide, rfl⟩).scans.trans rfl

/-- A volume with a directory of the clusters 3 and 4. -/
theorem exists_chained {clusters : Nat → ClusterBytes} {entries later : List DirectoryEntry}
    (hfirst : directoryScan (slotAt (clusters 3)) directorySlots directorySlots directorySlots = .ok entries)
    (hlater : directoryScan (slotAt (clusters 4)) directorySlots directorySlots directorySlots = .ok later) :
    ∃ s : FileService, s.Settled ∧ s.initialized = true ∧ s.Room 1 ∧ (∀ c, 2 ≤ c → s.disk.data c = clusters c) ∧
      Scanned s 4 [(4, later)] ∧ Scanned s 3 [(3, entries), (4, later)] := by
  obtain ⟨s, hd⟩ := @exists_drawn listingTable clusters 256 (by decide) le_rfl
    (fun i => by
      unfold listingTable
      split
      · decide
      · split <;> decide)
    (fun i hx => by
      unfold listingTable
      rw [if_neg (by omega), if_pos (by omega)]
      decide)
  have hm := hd.settled.mounted
  have hvalid : ∀ {c}, 2 ≤ c → c < 5 → Fat.validCluster c s.fatEntryCount := fun hlow hhigh => by
    rw [hd.count]
    exact ⟨hlow, hhigh.trans (by decide), (Nat.le_of_lt_succ hhigh).trans (by decide)⟩
  have hend : s.fat 4 = Fat.endOfChain := (hd.entry (by omega)).trans rfl
  have hnext : s.fat 3 = 4 := (hd.entry (by omega)).trans rfl
  have htail : Fat.Chain s.fat s.fatEntryCount 4 [4] :=
    .last (hvalid (by omega) (by omega)) ⟨by rw [hend]; decide, by rw [hend]; decide⟩
  have hchain : Fat.Chain s.fat s.fatEntryCount 3 [3, 4] := .link (hvalid (by omega) (by omega)) (hnext ▸ htail)
  have hscans : ∀ page ∈ [(3, entries), (4, later)],
      directoryScan (slotAt (s.disk.data page.1)) directorySlots directorySlots directorySlots = .ok page.2 := by
    rintro page (_ | ⟨_, _ | ⟨_, ⟨⟩⟩⟩)
    · rw [hd.data 3 (by omega)]
      exact hfirst
    · rw [hd.data 4 (by omega)]
      exact hlater
  refine ⟨s, hd.settled, hd.initialized, (hd.able.mono le_rfl (by decide)).room, hd.data, ⟨?_, fun page hpage =>
    hscans page (List.mem_cons_of_mem _ hpage)⟩, ?_, hscans⟩
  · exact (htail.traverse hm.validEntryCount (show 0 < maxClusters by decide)).trans (if_pos (by decide))
  · exact (hchain.traverse hm.validEntryCount (show 0 < maxClusters by decide)).trans (if_pos (by decide))

/-- The second cluster of a directory whose first one has an end marker holds a file that only the service lists. -/
theorem readers_disagree : ∃ (s : FileService) (store : DirectoryStore (Nat → ClusterBytes)), s.Mounted ∧ s.initialized = true ∧
    s.Room 1 ∧ Mirrors (· = listingClusters) store s ∧ Listable s 3 [(3, ownEntries), (4, fileEntries)] ∧
    ¬ReadersAgree s 3 [3, 4] (subdirectoryEnumerate 3 maxClusters clusterSize directorySlots store).1 := by
  obtain ⟨s, hs, hi, hr, hdata, -, hscanned⟩ := exists_chained scan_ownEntries scan_fileEntries
  have hm := hs.mounted
  have hlist : Listable s 3 [(3, ownEntries), (4, fileEntries)] := ⟨hscanned.chained, hscanned.scans, by
    rintro page ⟨⟩
    decide, by decide⟩
  refine ⟨s, _, hm, hi, hr, mirrors_memory hdata, hlist, fun hagree => ?_⟩
  have hreach : reached s.disk.data [(3, ownEntries), (4, fileEntries)] = [(3, ownEntries)] := by
    rw [reached, hdata 3 (by omega), if_pos]
    rw [endSeen, List.any_eq_true]
    have hunused : (slotAt (listingClusters 3) 2).byte 0 = 0 := @shows_fresh rootCluster 3 2 (by omega)
    exact ⟨2, List.mem_range.mpr (by decide), beq_iff_eq.mpr hunused⟩
  rcases (readersAgree_reached hm hi hr (mirrors_memory hdata) hlist (by decide) (by decide) (by decide) Iff.rfl le_rfl).mp hagree
    with hx | hx
  · exact absurd hx (by decide)
  · rw [hreach] at hx
    exact absurd (congrArg List.length hx) (by decide)

def savedClusters (c : Nat) : ClusterBytes :=
  if c = 3 then putPair (newDirectoryCluster 3 rootCluster) 2 emptyFile else Bytes.zero

/-- A directory of two clusters, the first one with a file and the second one empty. -/
theorem readersAgree_iff_saved : ∃ (s : FileService) (store : DirectoryStore (Nat → ClusterBytes)),
    ReadersAgree s 3 [3, 4] (subdirectoryEnumerate 3 maxClusters clusterSize directorySlots store).1 := by
  have hsaved : directoryScan (slotAt (savedClusters 3)) directorySlots directorySlots directorySlots =
      .ok (ownEntries ++ [⟨emptyFile, 3, some 2, .regular⟩]) :=
    ((@filled_fresh 5 3 rootCluster ⟨by decide, by decide, by decide⟩ ⟨by decide, by decide, by decide⟩).pair (by decide)
      ⟨by decide, by decide, rfl⟩ fun j q hq => by
        match j with
        | 0 | 1 | _ + 2 => rcases hq with hq | hq <;> cases hq).scans.trans rfl
  obtain ⟨s, hs, hi, hr, hdata, -, hscanned⟩ := exists_chained hsaved (filled_empty.scans.trans rfl)
  have hlist : Listable s 3 [(3, ownEntries ++ [⟨emptyFile, 3, some 2, .regular⟩]), (4, [])] := ⟨hscanned.chained, hscanned.scans, by
    rintro page ⟨⟩
    decide, by decide⟩
  exact ⟨s, _, (readersAgree_iff hs.mounted hi hr (mirrors_memory hdata) hlist (by decide) (by decide) (by decide) Iff.rfl le_rfl).mpr
    (Or.inr (List.pairwise_pair.mpr fun _ => rfl))⟩

end Drawn

end FileService
end InferenceOS
