import InferenceOS.Theorems.Reading

/-! What lookups and enumerations show of a directory with any number of clusters, as long as each of them can
    be scanned: its records in the order of the clusters and slots. -/

namespace InferenceOS
open Program

namespace FileService
variable {α : Type} {s t : FileService} {d c : Nat} {pages : List (Nat × List DirectoryEntry)}

def objectOf (g : Geometry) (r : Nat × DirectoryEntry) : VfsObject :=
  if r.2.kind = .directory then ⟨r.2.primary.firstCluster, .directory⟩
  else ⟨fileIdentity g r.1 r.2.primarySlot, .regularFile⟩

theorem validateReading_yields (hm : s.Mounted) (hi : s.initialized = true) : Yields (validateService false) s (.ok ()) := by
  unfold validateService
  refine (yields_get hm).bind fun t ht => ?_
  have hmt := ht.mounted hm
  refine ((yields_failIf hmt _ _).congr (if_neg (by rw [hi]; decide))).bind fun u hu => ?_
  exact (yields_failIf (hu.mounted hmt) _ _).congr (if_neg fun hx => by cases hx.1)

theorem Scanned.lookup_yields (h : Scanned s d pages) (hm : s.Mounted) (hi : s.initialized = true) (component : Text) :
    Yields (lookup d component) s (do
      let name ← canonicalComponent component
      match recordNamed pages name with
      | none => .error .notFound
      | some r => .ok (objectOf s.mount.geometry r)) := by
  unfold lookup
  refine (yields_get hm).bind fun t ht => ?_
  have hmt := ht.mounted hm
  have hv : s.validDirectoryCluster d := hm.valid.mpr h.chained.start
  refine ((yields_failIf hmt _ _).congr (if_neg (not_not.mpr hv))).bind fun u hu => ?_
  have hmu := hu.mounted hmt
  have hq := ht.trans hu
  refine (validateReading_yields hmu (hq.wrote.initialized.trans hi)).bind fun w hw => ?_
  have hmw := hw.mounted hmu
  refine (yields_ofExcept hmw _).bindE fun name x _ hx => ?_
  have hmx := hx.mounted hmw
  have hqx := (hq.trans hw).trans hx
  have hfind := (h.quiet hqx).find_yields hmx name
  cases hr : recordNamed pages name with
  | none =>
    rw [hr] at hfind
    exact hfind.bind_error
  | some r =>
    rw [hr] at hfind
    refine hfind.bind fun y hy => ?_
    have hmy := hy.mounted hmx
    have hmem := List.mem_of_find?_eq_some hr
    obtain ⟨page, hp, -, -, hk⟩ := mem_recordsOf.mp hmem
    have hattr := (h.slotEntry hmem).attributes hk
    show Yields (if r.2.primary.attributes = attributeDirectory then _ else _) y (.ok (objectOf s.mount.geometry r))
    unfold objectOf
    by_cases hdir : r.2.kind = .directory
    · rw [if_pos (hattr.mpr hdir), if_pos hdir]
      exact yields_pure hmy _
    · rw [if_neg (fun hx => hdir (hattr.mp hx)), if_neg hdir]
      refine (yields_get hmy).bind fun z hz => ?_
      rw [← (hqx.trans hy).mount]
      exact yields_pure (hz.mounted hmy) _

def listFrom (s : FileService) (continuation capacity : Nat) :
    List (Nat × DirectoryEntry) → Listing → Except IosError (List ListedEntry × Nat)
  | [], listing => .ok (listing.entries, 0)
  | r :: rest, listing =>
    if listing.ordinal < continuation then listFrom s continuation capacity rest { listing with ordinal := listing.ordinal + 1 }
    else if listing.entries.length = capacity then .ok (listing.entries, listing.ordinal)
    else do
      let entry ← listEntry s r.1 r.2
      listFrom s continuation capacity rest ⟨listing.ordinal + 1, listing.entries ++ [entry]⟩

/-- A page of an enumeration: `capacity` records after the first `continuation` ones, and the number of the
    record after them, zero when there is none. -/
def listPage (s : FileService) (continuation capacity : Nat) (records : List (Nat × DirectoryEntry)) :
    Except IosError (List ListedEntry × Nat) := do
  let entries ← ((records.drop continuation).take capacity).mapM fun r => listEntry s r.1 r.2
  .ok (entries, if continuation + capacity < records.length then continuation + capacity else 0)

theorem listEntry_congr (h : t.mount = s.mount) {entry : DirectoryEntry} : listEntry t c entry = listEntry s c entry := by
  unfold listEntry
  rw [h]

theorem listFrom_congr (h : t.mount = s.mount) {continuation capacity : Nat} : ∀ {records : List (Nat × DirectoryEntry)}
    {listing : Listing}, listFrom t continuation capacity records listing = listFrom s continuation capacity records listing
  | [], _ => rfl
  | r :: rest, listing => by
    unfold listFrom
    rw [listEntry_congr h, listFrom_congr h]
    simp only [listFrom_congr h]

theorem listRecords_listFrom {continuation capacity : Nat} {rest : List (Nat × DirectoryEntry)} (h : t.mount = s.mount) :
    ∀ {entries : List DirectoryEntry} {listing : Listing},
    listFrom s continuation capacity ((entries.filter (·.kind ≠ .internal)).map (fun entry => (c, entry)) ++ rest) listing =
      (do
        match ← listRecords t c continuation capacity entries listing with
        | .inr page => .ok page
        | .inl listing => listFrom s continuation capacity rest listing)
  | [], listing => rfl
  | entry :: entries, listing => by
    unfold listRecords
    by_cases hk : entry.kind = .internal
    · rw [if_pos hk, List.filter_cons_of_neg (by simp [hk])]
      exact listRecords_listFrom h
    · rw [if_neg hk, List.filter_cons_of_pos (by simp [hk]), List.map_cons, List.cons_append, listFrom]
      split
      · exact listRecords_listFrom h
      · split
        · rfl
        · rw [listEntry_congr h]
          cases hl : listEntry s c entry with
          | error e => rfl
          | ok listed => exact listRecords_listFrom h

theorem listAmong_yields {continuation capacity : Nat} : ∀ {pages : List (Nat × List DirectoryEntry)} {s : FileService}
    {listing : Listing}, s.Mounted → (∀ page ∈ pages, Fat.validCluster page.1 s.fatEntryCount ∧
      directoryScan (slotAt (s.disk.data page.1)) directorySlots directorySlots directorySlots = .ok page.2) →
    Yields (listAmong continuation capacity (pages.map Prod.fst) listing) s
      (listFrom s continuation capacity (recordsOf pages) listing)
  | [], s, listing, hm, _ => yields_pure hm _
  | page :: pages, s, listing, hm, hp => by
    obtain ⟨hv, hscan⟩ := hp page List.mem_cons_self
    unfold Yields
    rw [List.map_cons, listAmong]
    refine wp_page hm hv hscan (fun t ht _ => ?_) fun e t ht he hr => ⟨ht, Or.inr ⟨he, hr⟩⟩
    have hmt := ht.mounted hm
    rw [recordsOf, List.flatMap_cons, listRecords_listFrom ht.mount]
    have hstep : Yields (get >>= fun service => ofExcept (listRecords service page.1 continuation capacity page.2 listing) >>=
        fun result => match result with
          | .inr page => pure page
          | .inl listing => listAmong continuation capacity (pages.map Prod.fst) listing) t (do
        match ← listRecords t page.1 continuation capacity page.2 listing with
        | .inr page => .ok page
        | .inl listing => listFrom s continuation capacity (recordsOf pages) listing) := by
      refine (yields_get hmt).bind fun u hu => ?_
      have hmu := hu.mounted hmt
      refine (yields_ofExcept hmu _).bindE fun result w _ hw => ?_
      have hq := (ht.trans hu).trans hw
      cases result with
      | inr page => exact yields_pure (hw.mounted hmu) page
      | inl listing =>
        refine (listAmong_yields (hw.mounted hmu) fun page' hx => ?_).congr (listFrom_congr hq.mount)
        rw [hq.fatEntryCount, hq.disk]
        exact hp page' (List.mem_cons_of_mem _ hx)
    exact hstep.after ht

theorem listFrom_eq {continuation capacity : Nat} : ∀ {records : List (Nat × DirectoryEntry)} {listing : Listing},
    listing.entries.length = listing.ordinal - continuation → listing.entries.length ≤ capacity →
    listFrom s continuation capacity records listing = (do
      let entries ← ((records.drop (continuation - listing.ordinal)).take (capacity - listing.entries.length)).mapM
        fun r => listEntry s r.1 r.2
      .ok (listing.entries ++ entries, if continuation + capacity < records.length + listing.ordinal then
        continuation + capacity else 0))
  | [], listing, hl, hc => by
    rw [listFrom, if_neg (by rw [List.length_nil]; omega), List.drop_nil, List.take_nil]
    show _ = Except.ok (listing.entries ++ [], 0)
    rw [List.append_nil]
  | r :: rest, listing, hl, hc => by
    rw [listFrom, List.length_cons]
    by_cases hbefore : listing.ordinal < continuation
    · have hdrop : continuation - listing.ordinal = continuation - (listing.ordinal + 1) + 1 := by omega
      have ih := @listFrom_eq continuation capacity rest { listing with ordinal := listing.ordinal + 1 } (by dsimp only; omega) hc
      rw [if_pos hbefore, hdrop, List.drop_succ_cons, ih,
        show rest.length + 1 + listing.ordinal = rest.length + (listing.ordinal + 1) by omega]
    · have hordinal : listing.ordinal = continuation + listing.entries.length := by omega
      rw [if_neg hbefore, show continuation - listing.ordinal = 0 by omega, List.drop_zero]
      by_cases hfull : listing.entries.length = capacity
      · rw [if_pos hfull, hfull, Nat.sub_self, List.take_zero, if_pos (by omega), hordinal, hfull]
        show _ = Except.ok (listing.entries ++ [], continuation + capacity)
        rw [List.append_nil]
      · have htake : capacity - listing.entries.length = capacity - (listing.entries.length + 1) + 1 := by omega
        rw [if_neg hfull, htake, List.take_succ_cons, List.mapM_cons]
        cases listEntry s r.1 r.2 with
        | error e => rfl
        | ok entry =>
          have hlen : (listing.entries ++ [entry]).length = listing.entries.length + 1 := by simp
          show listFrom s continuation capacity rest ⟨listing.ordinal + 1, listing.entries ++ [entry]⟩ = _
          rw [listFrom_eq (by rw [hlen]; dsimp only; omega) (by rw [hlen]; omega), hlen,
            show continuation - (listing.ordinal + 1) = 0 by omega, List.drop_zero,
            show rest.length + 1 + listing.ordinal = rest.length + (listing.ordinal + 1) by omega]
          cases (rest.take (capacity - (listing.entries.length + 1))).mapM fun r => listEntry s r.1 r.2 with
          | error e => rfl
          | ok entries =>
            show Except.ok (listing.entries ++ [entry] ++ entries, _) = Except.ok (listing.entries ++ (entry :: entries), _)
            rw [List.append_assoc, List.singleton_append]

theorem Scanned.enumerate_yields (h : Scanned s d pages) (hm : s.Mounted) (hi : s.initialized = true)
    {continuation capacity : Nat} (hc : capacity ≠ 0) :
    Yields (enumerate d continuation capacity) s (listPage s continuation capacity (recordsOf pages)) := by
  unfold enumerate
  refine (yields_get hm).bind fun t ht => ?_
  have hmt := ht.mounted hm
  have hv : s.validDirectoryCluster d := hm.valid.mpr h.chained.start
  refine ((yields_failIf hmt _ _).congr (if_neg fun hx => hx.elim hc fun hx => hx hv)).bind fun u hu => ?_
  have hmu := hu.mounted hmt
  have hq := ht.trans hu
  refine (validateReading_yields hmu (hq.wrote.initialized.trans hi)).bind fun w hw => ?_
  have hmw := hw.mounted hmu
  have hqw := hq.trans hw
  refine ((h.quiet hqw).chain_yields hmw).bind fun x hx => ?_
  have hqx := hqw.trans hx
  have hsx := h.quiet hqx
  refine (listAmong_yields (hx.mounted hmw) fun page hp => ⟨hsx.valid page hp, hsx.scans page hp⟩).congr ?_
  rw [listFrom_congr hqx.mount, @listFrom_eq s continuation capacity _ ⟨0, []⟩ (Nat.zero_sub _).symm (Nat.zero_le _)]
  rfl

end FileService
end InferenceOS
