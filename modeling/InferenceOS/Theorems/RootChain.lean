import InferenceOS.Theorems.Opening

/-! The check of the root chain. On a device whose sectors are readable the tortoise and the hare accept exactly the tables
    whose root chain ends, and they count its clusters. -/

namespace InferenceOS
open Program BlockDevice

namespace BlockDevice
variable {device d e : BlockDevice} {sector : Nat}

/-- Every sector of the device can be read from now on. -/
structure Readable (device : BlockDevice) : Prop where
  status : device.status = .ready ∨ device.status = .readOnly
  faults : ∀ k, device.calls ≤ k → device.faults k = none

/-- Only the number of driver calls grew. -/
structure Ticked (device d : BlockDevice) : Prop where
  calls : device.calls ≤ d.calls
  contents : d.contents = device.contents
  status : d.status = device.status
  faults : d.faults = device.faults
  sectorCount : d.sectorCount = device.sectorCount
  logicalSectorSize : d.logicalSectorSize = device.logicalSectorSize

theorem Ticked.refl : Ticked device device := ⟨le_rfl, rfl, rfl, rfl, rfl, rfl⟩

theorem Ticked.trans (h : Ticked device d) (h' : Ticked d e) : Ticked device e :=
  ⟨h.calls.trans h'.calls, h'.contents.trans h.contents, h'.status.trans h.status, h'.faults.trans h.faults,
    h'.sectorCount.trans h.sectorCount, h'.logicalSectorSize.trans h.logicalSectorSize⟩

theorem Ticked.readable (h : Ticked device d) (hr : device.Readable) : d.Readable := by
  refine ⟨?_, fun k hk => ?_⟩
  · rw [h.status]
    exact hr.status
  · rw [h.faults]
    exact hr.faults k (h.calls.trans hk)

theorem readable_spec (h : device.Readable) (hs : sector < device.sectorCount) :
    wp (read sector 1) (fun buffer d => buffer 0 = device.contents sector ∧ Ticked device d) (fun _ _ => False) device := by
  simp only [read, wp_bind, wp_get, wp_ofExcept]
  have hstatus : ¬(device.status = .offline ∨ device.status = .failed) := by
    rcases h.status with hx | hx <;> simp [hx]
  refine ⟨fun _ _ => ?_, fun e he => ?_⟩
  · unfold wp driverRead
    rw [h.faults _ le_rfl]
    exact ⟨rfl, Nat.le_succ _, rfl, rfl, rfl, rfl, rfl⟩
  · unfold validateRange at he
    rw [if_neg one_ne_zero, if_neg hstatus, if_neg (by omega)] at he
    cases he

end BlockDevice

namespace Validator
variable {device d : BlockDevice} {g : Geometry} {c slow fast fuel count : Nat} {ended : Bool}
variable {fat : Nat → Nat}

def Follows (fat : Nat → Nat) (n c : Nat) : Option Nat → Prop
  | none => Fat.validCluster c n ∧ Fat.Ends (fat c)
  | some next => Fat.validCluster c n ∧ Fat.validCluster next n ∧ fat c = next

theorem Follows.chain_none {n : Nat} {l : List Nat} (h : Follows fat n c none) (hl : Fat.Chain fat n c l) : l = [c] :=
  hl.unique (.last h.1 h.2)

theorem Follows.chain_some {n next : Nat} {l : List Nat} (h : Follows fat n c (some next))
    (hl : Fat.Chain fat n c l) : ∃ r, l = c :: r ∧ Fat.Chain fat n next r := by
  obtain ⟨-, hv, rfl⟩ := h
  cases hl with
  | last _ he =>
    have := hv.small
    have := he.1
    simp only [Fat.reservedFirst, Fat.eocFirst] at *
    omega
  | link _ hl => exact ⟨_, rfl, hl⟩

theorem chain_follows {n : Nat} {l : List Nat} (h : Fat.Chain fat n c l) : ∃ next, Follows fat n c next := by
  cases h with
  | last hc he => exact ⟨none, hc, he⟩
  | link hc hl => exact ⟨some _, hc, hl.start, rfl⟩

/-- The geometry lies on the device, as `ios_fs_calculate_geometry` computes it. -/
structure Placed (g : Geometry) (device : BlockDevice) : Prop where
  laid : g.Laid
  registry : g.registryStartSector = superblockSectors + g.fatSectors
  fits : g.totalSectors ≤ device.sectorCount

theorem Placed.ticked (h : Placed g device) (ht : device.Ticked d) : Placed g d := ⟨h.laid, h.registry, by rw [ht.sectorCount]; exact h.fits⟩

theorem Placed.sector (h : Placed g device) {i : Nat} (hi : i < g.clusterCount + 2) :
    superblockSectors + i / 128 < device.sectorCount ∧ superblockSectors + i / 128 < g.registryStartSector ∧
      i < g.fatSectors * 128 := by
  have htable := h.laid.table
  have hdata := h.laid.data
  have htotal := h.laid.total
  have hfits := h.fits
  rw [h.registry]
  unfold superblockSectors registrySectors at *
  omega

theorem classifyNext_spec {fat : Nat → Nat} {n : Nat} (hv : Fat.validCluster c n) :
    (∃ next, classifyNext (fat c) n = .ok next ∧ Follows fat n c next ∧ fat c < 2 ^ 28) ∨
      (classifyNext (fat c) n = .error .corrupt ∧ ∀ next, ¬Follows fat n c next) := by
  unfold classifyNext
  split
  · rename_i hbig
    refine Or.inr ⟨rfl, fun next hf => ?_⟩
    match next, hf with
    | none, hf => exact absurd hf.2.2 (not_lt.mpr hbig)
    | some next, ⟨_, hn, he⟩ =>
      have := hn.small
      rw [he] at hbig
      unfold Fat.reservedFirst at this
      omega
  · rename_i hbig
    split
    · rename_i heoc
      exact Or.inl ⟨none, rfl, ⟨hv, heoc, not_le.mp hbig⟩, not_le.mp hbig⟩
    · rename_i heoc
      split
      · rename_i hx
        refine Or.inr ⟨rfl, fun next hf => ?_⟩
        match next, hf with
        | none, hf => exact heoc hf.2.1
        | some next, ⟨_, hn, he⟩ =>
          have hsmall := hn.small
          have hlow := hn.1
          rw [he] at hx
          unfold Fat.free Fat.bad Fat.reservedFirst Fat.reservedLast at *
          rcases hx with hx | hx | hx | hx
          · omega
          · omega
          · omega
          · exact hx hn
      · rename_i hx
        simp only [not_or, not_not] at hx
        exact Or.inl ⟨some (fat c), rfl, ⟨hv, hx.2.2.2, rfl⟩, not_le.mp hbig⟩

theorem advance_spec (h : Placed g device) (hr : device.Readable) :
    wp (advance g c)
      (fun next d => device.Ticked d ∧ Follows (fatOf g device.contents) (g.clusterCount + 2) c next)
      (fun e d => device.Ticked d ∧ e = .corrupt ∧ ∀ next, ¬Follows (fatOf g device.contents) (g.clusterCount + 2) c next)
      device := by
  simp only [advance, readFatEntry, wp_bind, wp_failIf]
  refine ⟨fun hx => ⟨.refl, trivial, fun next hf => ?_⟩, fun hx => ?_⟩
  · have hv : Fat.validCluster c (g.clusterCount + 2) := by
      cases next <;> exact hf.1
    rcases hx with hx | hx
    · exact hx hv
    · exact absurd (h.sector hv.2.1).2.1 (not_lt.mpr hx)
  obtain ⟨hv, -⟩ := not_or.mp hx
  have hv : Fat.validCluster c (g.clusterCount + 2) := not_not.mp hv
  obtain ⟨hs, -, ht⟩ := h.sector hv.2.1
  refine wp_mono (readable_spec hr hs) (fun buffer d hx => ?_) fun _ _ hx => hx.elim
  obtain ⟨hb, hd⟩ := hx
  have hraw : (buffer 0).toNat (c % fatEntriesPerSector * 4) 4 = fatOf g device.contents c := by
    rw [hb, fatOf, if_pos ht, Nat.mul_comm 4]
    rfl
  have hclass := @classifyNext_spec c (fatOf g device.contents) _ hv
  unfold fatEntryDecode
  rw [hraw]
  by_cases hbig : 2 ^ 28 ≤ fatOf g device.contents c
  · rw [if_pos hbig]
    rcases hclass with ⟨_, _, _, hlt⟩ | ⟨-, hno⟩
    · exact absurd hlt (not_lt.mpr hbig)
    · exact ⟨hd, rfl, hno⟩
  · rw [if_neg hbig]
    show wp (ofExcept (classifyNext (fatOf g device.contents c) (g.clusterCount + 2))) _ _ d
    rcases hclass with ⟨next, hok, hf, -⟩ | ⟨herr, hno⟩
    · rw [hok]
      exact ⟨hd, hf⟩
    · rw [herr]
      exact ⟨hd, rfl, hno⟩

theorem advanceTwice_spec (h : Placed g device) (hr : device.Readable) :
    wp (advanceTwice g c)
      (fun next d => device.Ticked d ∧ ∀ fast, next = some fast → ∀ l,
        Fat.Chain (fatOf g device.contents) (g.clusterCount + 2) c l →
          ∃ r, Fat.Chain (fatOf g device.contents) (g.clusterCount + 2) fast r ∧ l.length = r.length + 2)
      (fun e d => device.Ticked d ∧ e = .corrupt ∧
        ∀ l, ¬Fat.Chain (fatOf g device.contents) (g.clusterCount + 2) c l) device := by
  unfold advanceTwice
  rw [wp_bind]
  refine wp_mono (advance_spec h hr) (fun next d ⟨hd, hf⟩ => ?_) fun e d ⟨hd, he, hno⟩ => ⟨hd, he, fun l hl => ?_⟩
  · cases next with
    | none => exact ⟨hd, fun _ hx => by cases hx⟩
    | some next =>
      refine wp_mono (advance_spec (h.ticked hd) (hd.readable hr)) (fun far e ⟨he, hf'⟩ => ⟨hd.trans he, ?_⟩)
        fun e d' ⟨hd', he, hno⟩ => ⟨hd.trans hd', he, fun l hl => ?_⟩
      · rintro fast rfl l hl
        obtain ⟨r, rfl, hr'⟩ := hf.chain_some hl
        rw [hd.contents] at hf'
        obtain ⟨r', rfl, hr''⟩ := hf'.chain_some hr'
        exact ⟨r', hr'', rfl⟩
      · obtain ⟨r, rfl, hr'⟩ := hf.chain_some hl
        obtain ⟨far, hf'⟩ := chain_follows hr'
        rw [hd.contents] at hno
        exact hno far hf'
  · obtain ⟨next, hf⟩ := chain_follows hl
    exact hno next hf

def Ahead (fat : Nat → Nat) (n : Nat) (ended : Bool) (fuel slow fast : Nat) : Prop :=
  ∃ l, Fat.Chain fat n slow l ∧ l.length ≤ fuel ∧ (ended = false → ∃ r, Fat.Chain fat n fast r ∧ r.length ≤ l.length)

theorem Ahead.next {fat : Nat → Nat} {n next : Nat} (h : Ahead fat n ended (fuel + 1) slow fast)
    (hf : Follows fat n slow (some next)) :
    ∃ l, Fat.Chain fat n next l ∧ l.length ≤ fuel ∧ (ended = false → ∃ r, Fat.Chain fat n fast r ∧ r.length ≤ l.length + 1) := by
  obtain ⟨l, hl, hlen, ha⟩ := h
  obtain ⟨r, rfl, hr⟩ := hf.chain_some hl
  exact ⟨r, hr, Nat.le_of_succ_le_succ hlen, ha⟩

theorem validateRootChainFrom_spec : ∀ {fuel slow fast count : Nat} {ended : Bool} {device : BlockDevice}, Placed g device →
    device.Readable →
    wp (validateRootChainFrom g fuel slow fast ended count)
      (fun total d => device.Ticked d ∧
        ∃ l, Fat.Chain (fatOf g device.contents) (g.clusterCount + 2) slow l ∧ total = count + l.length)
      (fun e d => device.Ticked d ∧ e = .corrupt ∧
        ¬Ahead (fatOf g device.contents) (g.clusterCount + 2) ended fuel slow fast) device
  | 0, slow, fast, count, ended, device, h, hr => by
    refine ⟨.refl, rfl, fun ⟨l, hl, hlen, _⟩ => ?_⟩
    exact hl.ne_nil (List.length_eq_zero_iff.mp (Nat.le_zero.mp hlen))
  | fuel + 1, slow, fast, count, ended, device, h, hr => by
    unfold validateRootChainFrom
    rw [wp_bind]
    refine wp_mono (advance_spec h hr) (fun next d ⟨hd, hf⟩ => ?_) fun e d ⟨hd, he, hno⟩ => ⟨hd, he, fun ⟨l, hl, _⟩ => ?_⟩
    swap
    · obtain ⟨next, hf⟩ := chain_follows hl
      exact hno next hf
    cases next with
    | none => exact ⟨hd, [slow], .last hf.1 hf.2, rfl⟩
    | some next =>
      have hlink : ∀ {l}, Fat.Chain (fatOf g device.contents) (g.clusterCount + 2) next l →
          Fat.Chain (fatOf g device.contents) (g.clusterCount + 2) slow (slow :: l) := fun hl => by
        refine .link hf.1 ?_
        rwa [hf.2.2]
      -- The rest of the loop starts from `d'`, with the same sectors.
      have hrest : ∀ {d' : BlockDevice} {far : Nat} {ended' : Bool}, device.Ticked d' →
          (Ahead (fatOf g device.contents) (g.clusterCount + 2) ended (fuel + 1) slow fast →
            Ahead (fatOf g device.contents) (g.clusterCount + 2) ended' fuel next far) →
          wp (validateRootChainFrom g fuel next far ended' (count + 1))
            (fun total d => device.Ticked d ∧
              ∃ l, Fat.Chain (fatOf g device.contents) (g.clusterCount + 2) slow l ∧ total = count + l.length)
            (fun e d => device.Ticked d ∧ e = .corrupt ∧
              ¬Ahead (fatOf g device.contents) (g.clusterCount + 2) ended (fuel + 1) slow fast) d' := by
        intro d' far ended' hd' hahead
        refine wp_mono (validateRootChainFrom_spec (h.ticked hd') (hd'.readable hr)) (fun _ u ⟨hu, l, hl, htotal⟩ => ?_)
          fun e u ⟨hu, he, hno⟩ => ?_
        · rw [hd'.contents] at hl
          exact ⟨hd'.trans hu, slow :: l, hlink hl, by rw [htotal, List.length_cons]; omega⟩
        · rw [hd'.contents] at hno
          exact ⟨hd'.trans hu, he, fun ha => hno (hahead ha)⟩
      cases ended with
      | true =>
        refine hrest hd fun ha => ?_
        obtain ⟨l, hl, hlen, -⟩ := ha.next hf
        exact ⟨l, hl, hlen, nofun⟩
      | false =>
        show wp (advanceTwice g fast >>= _) _ _ d
        rw [wp_bind]
        refine wp_mono (advanceTwice_spec (h.ticked hd) (hd.readable hr)) (fun far d' ⟨hd', hfar⟩ => ?_)
          fun e d' ⟨hd', he, hno⟩ => ⟨hd.trans hd', he, fun ha => ?_⟩
        swap
        · obtain ⟨_, _, _, hx⟩ := ha
          obtain ⟨r, hr', -⟩ := hx rfl
          rw [hd.contents] at hno
          exact hno r hr'
        rw [hd.contents] at hfar
        cases far with
        | none =>
          refine hrest (hd.trans hd') fun ha => ?_
          obtain ⟨l, hl, hlen, -⟩ := ha.next hf
          exact ⟨l, hl, hlen, nofun⟩
        | some far =>
          have hahead : Ahead (fatOf g device.contents) (g.clusterCount + 2) false (fuel + 1) slow fast →
              ∃ l r, Fat.Chain (fatOf g device.contents) (g.clusterCount + 2) next l ∧ l.length ≤ fuel ∧
                Fat.Chain (fatOf g device.contents) (g.clusterCount + 2) far r ∧ r.length < l.length := fun ha => by
            obtain ⟨l, hl, hlen, hx⟩ := ha.next hf
            obtain ⟨r, hr', hle⟩ := hx rfl
            obtain ⟨r', hr'', hlen'⟩ := hfar far rfl r hr'
            exact ⟨l, r', hl, hlen, hr'', by omega⟩
          show wp (if next = far then _ else _) _ _ d'
          split
          · rename_i heq
            refine ⟨hd.trans hd', rfl, fun ha => ?_⟩
            obtain ⟨l, r, hl, -, hr', hlt⟩ := hahead ha
            rw [← heq] at hr'
            rw [hl.unique hr'] at hlt
            exact lt_irrefl _ hlt
          · refine hrest (hd.trans hd') fun ha => ?_
            obtain ⟨l, r, hl, hlen, hr', hlt⟩ := hahead ha
            exact ⟨l, hl, hlen, fun _ => ⟨r, hr', hlt.le⟩⟩

def RootSafe (g : Geometry) (fat : Nat → Nat) : Prop :=
  Fat.Ends (fat 0) ∧ Fat.Ends (fat 1) ∧ ∃ l, Fat.Chain fat (g.clusterCount + 2) rootCluster l

theorem reservedEntry_spec {buffer : Nat → Sector} {i : Nat} (h : (buffer 0).toNat (i * 4) 4 = fat i) :
    wp (match fatEntryDecode (buffer 0) (i * 4) with
      | .error _ => fail .corrupt
      | .ok value => failIf (value < Fat.eocFirst) .corrupt : Program IosError BlockDevice Unit)
      (fun _ d => d = device ∧ Fat.Ends (fat i)) (fun e d => d = device ∧ e = .corrupt ∧ ¬Fat.Ends (fat i)) device := by
  unfold fatEntryDecode
  rw [h]
  by_cases hbig : 2 ^ 28 ≤ fat i
  · rw [if_pos hbig]
    exact ⟨rfl, rfl, fun he => absurd he.2 (not_lt.mpr hbig)⟩
  · rw [if_neg hbig]
    simp only [wp_failIf]
    exact ⟨fun hlt => ⟨trivial, trivial, fun he => absurd he.1 (not_le.mpr hlt)⟩,
      fun hge => ⟨trivial, not_lt.mp hge, not_le.mp hbig⟩⟩

theorem validateReservedEntries_spec (h : Placed g device) (hr : device.Readable) :
    wp validateReservedEntries
      (fun _ d => device.Ticked d ∧ Fat.Ends (fatOf g device.contents 0) ∧ Fat.Ends (fatOf g device.contents 1))
      (fun e d => device.Ticked d ∧ e = .corrupt ∧
        ¬(Fat.Ends (fatOf g device.contents 0) ∧ Fat.Ends (fatOf g device.contents 1))) device := by
  have hs := (h.sector (Nat.succ_pos _ : 0 < g.clusterCount + 2)).1
  have htable := h.laid.table
  unfold validateReservedEntries
  rw [wp_bind]
  refine wp_mono (readable_spec hr (by simpa using hs)) (fun buffer d hx => ?_) fun _ _ hx => hx.elim
  obtain ⟨hb, hd⟩ := hx
  have hentry : ∀ {i}, i < 2 → (buffer 0).toNat (i * 4) 4 = fatOf g device.contents i := fun {i} hi => by
    rw [hb, fatOf, if_pos (by omega), Nat.div_eq_of_lt (by omega), Nat.mod_eq_of_lt (by omega), Nat.mul_comm]
    rfl
  show wp (each _ [0, 1]) _ _ d
  rw [wp_each_cons]
  refine wp_mono (reservedEntry_spec (hentry (by omega))) ?_ ?_
  · rintro _ d' ⟨hd', h₀⟩
    subst hd'
    rw [wp_each_cons]
    refine wp_mono (reservedEntry_spec (hentry (by omega))) ?_ ?_
    · rintro _ d' ⟨hd', h₁⟩
      subst hd'
      exact ⟨hd, h₀, h₁⟩
    · rintro e d' ⟨hd', he, hno⟩
      subst hd'
      exact ⟨hd, he, fun hx => hno hx.2⟩
  · rintro e d' ⟨hd', he, hno⟩
    subst hd'
    exact ⟨hd, he, fun hx => hno hx.1⟩

theorem validateRootChain_spec (h : Placed g device) (hr : device.Readable) :
    wp (validateRootChain g)
      (fun count d => device.Ticked d ∧ RootSafe g (fatOf g device.contents) ∧
        ∃ l, Fat.Chain (fatOf g device.contents) (g.clusterCount + 2) rootCluster l ∧ count = l.length)
      (fun e d => device.Ticked d ∧ e = .corrupt ∧ ¬RootSafe g (fatOf g device.contents)) device := by
  have hpos := h.laid.positive
  have hmax := h.laid.clusters
  unfold validateRootChain
  rw [wp_bind, wp_failIf]
  refine ⟨fun hx => ?_, fun _ => ?_⟩
  · omega
  rw [wp_bind]
  refine wp_mono (validateReservedEntries_spec h hr) (fun _ d ⟨hd, h₀, h₁⟩ => ?_)
    fun e d ⟨hd, he, hno⟩ => ⟨hd, he, fun hsafe => hno ⟨hsafe.1, hsafe.2.1⟩⟩
  refine wp_mono (validateRootChainFrom_spec (h.ticked hd) (hd.readable hr)) (fun _ d' ⟨hd', l, hl, hcount⟩ => ?_)
    fun e d' ⟨hd', he, hno⟩ => ⟨hd.trans hd', he, fun ⟨_, _, l, hl⟩ => ?_⟩
  · rw [hd.contents] at hl
    exact ⟨hd.trans hd', ⟨h₀, h₁, l, hl⟩, l, hl, by rw [hcount, Nat.zero_add]⟩
  · rw [hd.contents] at hno
    exact hno ⟨l, hl, hl.length_le, fun _ => ⟨l, hl, le_rfl⟩⟩

/-- The check of the root chain and the walk of the table agree on every table, and on the number of clusters. The check
    ends on the tables it refuses too. -/
theorem validateRootChain_traverse {capacity : Nat} (h : Placed g device) (hr : device.Readable)
    (hcap : g.clusterCount ≤ capacity) :
    (∀ count, (validateRootChain g device).1 = .ok count ↔
      (Fat.Ends (fatOf g device.contents 0) ∧ Fat.Ends (fatOf g device.contents 1)) ∧
      ∃ l, Fat.traverse (fatOf g device.contents) (g.clusterCount + 2) rootCluster capacity = .ok l ∧ l.length = count) ∧
    ((∀ count, (validateRootChain g device).1 ≠ .ok count) → (validateRootChain g device).1 = .error .corrupt) := by
  have hentries : Fat.validEntryCount (g.clusterCount + 2) := by
    have hpos := h.laid.positive
    have hmax := h.laid.clusters
    exact ⟨by omega, by omega⟩
  have hwalk : ∀ {l}, Fat.Chain (fatOf g device.contents) (g.clusterCount + 2) rootCluster l →
      Fat.traverse (fatOf g device.contents) (g.clusterCount + 2) rootCluster capacity = .ok l := fun hl =>
    Fat.traverse_eq_ok.mpr ⟨hentries, h.laid.positive.trans_le hcap, hl, hl.nodup, hl.length_le.trans hcap⟩
  have hspec := validateRootChain_spec h hr
  cases hrun : validateRootChain g device with
  | mk r d =>
    cases r with
    | ok found =>
      obtain ⟨-, ⟨h₀, h₁, -⟩, l, hl, rfl⟩ := wp_ok hspec hrun
      refine ⟨fun count => ⟨fun hx => ⟨⟨h₀, h₁⟩, l, hwalk hl, Except.ok.inj hx⟩, ?_⟩, fun hno => absurd rfl (hno _)⟩
      rintro ⟨-, l', hl', rfl⟩
      rw [hwalk hl] at hl'
      rw [Except.ok.inj hl']
    | error e =>
      obtain ⟨-, rfl, hno⟩ := wp_error hspec hrun
      refine ⟨fun count => ⟨nofun, ?_⟩, fun _ => rfl⟩
      rintro ⟨⟨h₀, h₁⟩, l, hl, -⟩
      exact absurd ⟨h₀, h₁, l, (Fat.traverse_eq_ok.mp hl).2.2.1⟩ hno

/-- The first sector of a table with a root chain of the clusters 2 and 3. -/
def linkedFatSector : Sector :=
  formattedFatSector.put 8 (Bytes.ofNat 4 3) |>.put 12 (Bytes.ofNat 4 Fat.endOfChain)

theorem validateRootChain_linked : (validateRootChain smallGeometry { blank minimumVolumeSectors with
    contents := fun n => if n = superblockSectors then linkedFatSector else Bytes.zero }).1 = .ok 2 := by
  have hg := calculateGeometry_eq calculateGeometry_minimum
  have h : Placed smallGeometry { blank minimumVolumeSectors with
      contents := fun n => if n = superblockSectors then linkedFatSector else Bytes.zero } := ⟨hg.1, rfl, le_rfl⟩
  have hends : ∀ i, i < 4 → i ≠ 2 → Fat.Ends (fatOf smallGeometry
      (fun n => if n = superblockSectors then linkedFatSector else Bytes.zero) i) := by
    unfold Fat.Ends
    decide +kernel
  have hnext : fatOf smallGeometry (fun n => if n = superblockSectors then linkedFatSector else Bytes.zero) 2 = 3 := by
    decide +kernel
  refine ((validateRootChain_traverse h ⟨Or.inl rfl, fun _ _ => rfl⟩ le_rfl).1 2).mpr
    ⟨⟨hends 0 (by decide) (by decide), hends 1 (by decide) (by decide)⟩, [rootCluster, 3],
      Fat.traverse_eq_ok.mpr ⟨by decide, by decide, .link (by decide) ?_, by decide, by decide⟩, rfl⟩
  rw [show rootCluster = 2 from rfl, hnext]
  exact .last (by decide) (hends 3 (by decide) (by decide))

end Validator

end InferenceOS
