import InferenceOS.Theorems.OpenFiles
import InferenceOS.Theorems.RecordCodec

/-! Calls on an open file, one after another: every handle that they reach is sound, what a read gives, what a write makes of
    the bytes of the file, and what a write that fails leaves. -/

namespace InferenceOS
open Program

theorem of_bind_eq_ok {ε α β : Type} {m : Except ε α} {f : α → Except ε β} {b : β} (h : m >>= f = .ok b) :
    ∃ a, m = .ok a ∧ f a = .ok b := by
  cases m with
  | error e => cases h
  | ok a => exact ⟨a, rfl, h⟩

theorem Fat.capacityFrom_eq_ok {fat : Nat → Nat} {n size bytes start : Nat} {l : List Nat} (h : Chain fat n start l) :
    ∀ {fuel capacity : Nat}, capacityFrom fat n size bytes fuel start capacity = .ok () → size ≤ capacity + l.length * bytes := by
  induction h with
  | @last c hc he =>
    rintro (_ | fuel) capacity hrun
    · cases hrun
    · rw [capacityFrom, if_neg (not_not.mpr hc), classifyNext_ends he] at hrun
      dsimp only at hrun
      split at hrun
      · rename_i hle
        rwa [List.length_singleton, Nat.one_mul]
      · cases hrun
  | @link c l hc hl ih =>
    rintro (_ | fuel) capacity hrun
    · cases hrun
    · rw [capacityFrom, if_neg (not_not.mpr hc), classifyNext_link hl.start] at hrun
      have hle := ih hrun
      rw [List.length_cons, Nat.succ_mul]
      omega

namespace FsFile
variable {κ : Type} {s t u : FsFile κ} {clusters : κ → Nat → ClusterBytes} {x y : κ} {l : List Nat}

def Fetched (operations : ClusterOperations κ) (l : List Nat) (x : κ) (position : Nat) (part : Text) (y : κ) : Prop :=
  ∀ clusters, operations.Lawful clusters →
    part = ((bytesOf (clusters x) l).drop position).take part.length ∧ clusters y = clusters x

theorem Fetched.nil {operations : ClusterOperations κ} {position : Nat} : Fetched operations l x position [] x :=
  fun _ _ => ⟨rfl, rfl⟩

theorem Fetched.append {operations : ClusterOperations κ} {position : Nat} {a b : Text} {z : κ}
    (h : Fetched operations l x position a y) (h' : Fetched operations l y (position + a.length) b z) :
    Fetched operations l x position (a ++ b) z := fun clusters hops => by
  obtain ⟨ha, hy⟩ := h clusters hops
  obtain ⟨hb, hz⟩ := h' clusters hops
  rw [hy] at hb
  refine ⟨?_, hz.trans hy⟩
  rw [List.length_append, List.take_add, ← ha, List.drop_drop, ← hb]

theorem readFrom_spec : ∀ {fuel remaining : Nat} {out : Text} {s : FsFile κ}, s.store.clusterBytes = clusterSize →
    s.position + remaining < 2 ^ 32 → s.position + remaining ≤ l.length * clusterSize → remaining ≤ fuel →
    wp (readFrom l fuel remaining out)
      (fun r t => ∃ part x, r = out ++ part ∧ part.length = remaining ∧ t = s.moved (s.position + remaining) x ∧
        Fetched s.store.operations l s.store.ioContext s.position part x)
      (fun e t => ∃ k x y, k < remaining ∧ t = s.moved (s.position + k) x ∧
        (s.store.operations.read (l.getD ((s.position + k) / clusterSize) 0) y).1 = .error e) s
  | 0, remaining, out, s, _, _, _, hfuel => by
    obtain rfl := Nat.le_zero.mp hfuel
    exact ⟨[], s.store.ioContext, by simp, rfl, rfl, .nil⟩
  | fuel + 1, remaining, out, s, hb, hsmall, hroom, hfuel => by
    rw [readFrom]
    split
    · rename_i hzero
      subst hzero
      exact ⟨[], s.store.ioContext, by simp, rfl, rfl, .nil⟩
    rename_i hne
    have hmod : s.position % clusterSize < clusterSize := Nat.mod_lt _ (by decide)
    have hc : s.position / clusterSize < l.length := Nat.div_lt_of_lt_mul (by rw [Nat.mul_comm]; omega)
    have hget : l[s.position / clusterSize]? = some (l.getD (s.position / clusterSize) 0) := by
      rw [List.getElem?_eq_getElem hc, List.getD_eq_getElem _ _ hc]
    rw [wp_bind, wp_get, hb]
    dsimp only
    obtain ⟨chunk, hchunk⟩ : ∃ chunk, min (clusterSize - s.position % clusterSize) remaining = chunk := ⟨_, rfl⟩
    have hpos : 0 < chunk ∧ chunk ≤ remaining ∧ s.position % clusterSize + chunk ≤ clusterSize := by omega
    rw [hchunk, wp_bind, wp_failIf]
    refine ⟨fun hx => absurd hx (by omega), fun _ => ?_⟩
    rw [wp_bind, wp_onContext]
    rcases hr : s.store.operations.read (l.getD (s.position / clusterSize) 0) s.store.ioContext with ⟨e | b, x⟩
    · refine wp_iff.mpr ⟨fun _ y hx => ?_, fun e' y hx => ?_⟩ <;> rw [hr] at hx <;> cases hx
      exact ⟨0, x, s.store.ioContext, by omega, rfl, by rw [Nat.add_zero, hr]⟩
    · refine wp_iff.mpr ⟨fun _ y hx => ?_, fun e' y hx => ?_⟩ <;> rw [hr] at hx <;> cases hx
      have hlen : ((b.toList.drop (s.position % clusterSize)).take chunk).length = chunk := by
        rw [List.length_take, List.length_drop, Bytes.toList, List.length_ofFn]
        unfold clusterSize at *
        omega
      have hpart : Fetched s.store.operations l s.store.ioContext s.position
          ((b.toList.drop (s.position % clusterSize)).take chunk) x := fun clusters hops => by
        obtain ⟨rfl, hx⟩ := wp_ok (hops.read _ s.store.ioContext) hr
        rw [hlen, drop_bytesOf hget hpos.2.2]
        exact ⟨rfl, hx⟩
      rw [wp_bind, advance, wp_modify]
      have hwrap : (s.position + chunk) % 2 ^ 32 = s.position + chunk := Nat.mod_eq_of_lt (by omega)
      show wp (readFrom l fuel (remaining - chunk) _) _ _ (s.moved ((s.position + chunk) % 2 ^ 32) x)
      rw [hwrap]
      refine wp_mono (@readFrom_spec fuel (remaining - chunk) _ (s.moved (s.position + chunk) x) hb ?_ ?_ (by omega)) ?_ ?_
      · show s.position + chunk + _ < _
        omega
      · show s.position + chunk + _ ≤ _
        omega
      · rintro r t ⟨part, y, rfl, hl, rfl, hf⟩
        have hend : s.position + chunk + (remaining - chunk) = s.position + remaining := by omega
        refine ⟨_ ++ part, y, List.append_assoc _ _ _, ?_, ?_, hpart.append (by rw [hlen]; exact hf)⟩
        · rw [List.length_append, hlen, hl]
          omega
        · rw [← hend]
          rfl
      · rintro e t ⟨k, y, z, hk, rfl, he⟩
        refine ⟨chunk + k, y, z, by omega, ?_, ?_⟩
        · rw [← Nat.add_assoc]
          rfl
        · rw [← Nat.add_assoc]
          exact he

theorem readFrom_length : ∀ {fuel remaining : Nat} {out : Text} {s : FsFile κ}, s.position < 2 ^ 32 → remaining ≤ fuel →
    s.store.clusterBytes = clusterSize →
    wp (readFrom l fuel remaining out)
      (fun r t => r.length = out.length + remaining ∧ ∃ p x, p < 2 ^ 32 ∧ t = s.moved p x)
      (fun _ t => ∃ p x, p < 2 ^ 32 ∧ t = s.moved p x) s
  | 0, remaining, out, s, hp, hfuel, _ => by
    obtain rfl := Nat.le_zero.mp hfuel
    exact ⟨rfl, _, _, hp, s.moved_self.symm⟩
  | fuel + 1, remaining, out, s, hp, hfuel, hb => by
    rw [readFrom]
    split
    · rename_i hzero
      subst hzero
      exact ⟨rfl, _, _, hp, s.moved_self.symm⟩
    have hmod : s.position % clusterSize < clusterSize := Nat.mod_lt _ (by decide)
    rw [wp_bind, wp_get, hb, wp_bind, wp_failIf]
    refine ⟨fun _ => ⟨_, _, hp, s.moved_self.symm⟩, fun _ => ?_⟩
    rw [wp_bind, wp_onContext]
    refine wp_iff.mpr ⟨fun b x _ => ?_, fun e x _ => ⟨s.position, x, hp, rfl⟩⟩
    rw [wp_bind, advance, wp_modify]
    have hlen : ((b.toList.drop (s.position % clusterSize)).take
        (min (clusterSize - s.position % clusterSize) remaining)).length = min (clusterSize - s.position % clusterSize) remaining := by
      rw [List.length_take, List.length_drop, Bytes.toList, List.length_ofFn]
      unfold clusterSize at *
      omega
    refine wp_mono (@readFrom_length fuel _ _ (s.moved ((s.position + _) % 2 ^ 32) x) (Nat.mod_lt _ (by decide)) (by omega) hb)
      ?_ ?_
    · rintro r t ⟨hr, p, y, hlt, rfl⟩
      refine ⟨?_, p, y, hlt, rfl⟩
      rw [hr, List.length_append, hlen]
      omega
    · rintro e t ⟨p, y, hlt, rfl⟩
      exact ⟨p, y, hlt, rfl⟩

/-- A call on an open file. -/
inductive FileCall where
  | seek (origin : SeekOrigin) (offset : Int)
  | read (length : Nat)
  | write (buffer : Text)
  | append (buffer : Text)

/-- The call, without its result. -/
def FileCall.run : FileCall → Program IosError (FsFile κ) Unit
  | .seek origin offset => fileSeek origin offset >>= fun _ => pure ()
  | .read length => fileRead length >>= fun _ => pure ()
  | .write buffer => fileWrite buffer
  | .append buffer => fileAppend buffer

/-- The handles that an open and any calls after it give, whether these succeed or not. -/
inductive FileRun : FsFile κ → Prop
  | opened {store : FileStore κ} {companion primaryDisk : Slot} {writable : Bool} {chainCapacity scratchSize : Nat}
      {s : FsFile κ} : fileOpen store companion primaryDisk writable chainCapacity scratchSize = .ok s → FileRun s
  | called {s : FsFile κ} (call : FileCall) : FileRun s → FileRun (call.run s).2

theorem fileOpen_eq_ok {store : FileStore κ} {companion primaryDisk : Slot} {writable : Bool} {chainCapacity scratchSize : Nat}
    (h : fileOpen store companion primaryDisk writable chainCapacity scratchSize = .ok s) :
    ∃ primary, primary.admissible = true ∧ primary.fileSize < 2 ^ 32 ∧ primary.attributes = attributeRegular ∧
      store.clusterBytes = clusterSize ∧ store.validateChain primary chainCapacity = .ok () ∧
      s = { store, primary, position := 0, chainCapacity, scratchSize, writable, isOpen := true } := by
  unfold fileOpen at h
  split at h
  · cases h
  obtain ⟨_, hstore, h⟩ := of_bind_eq_ok h
  split at h
  · cases h
  split at h
  · cases h
  obtain ⟨_, hpair, h⟩ := of_bind_eq_ok h
  obtain ⟨primary, hdecode, h⟩ := of_bind_eq_ok h
  obtain ⟨_, hchain, h⟩ := of_bind_eq_ok h
  cases h
  obtain ⟨-, hvalid, hsize⟩ := primaryDecode_eq_ok hdecode
  obtain ⟨p, -, hp, hregular⟩ := recordPairValidate_eq_ok hpair
  rw [hdecode] at hp
  cases hp
  refine ⟨primary, hvalid, hsize, hregular, ?_, hchain, rfl⟩
  unfold FileStore.validate at hstore
  split at hstore
  · cases hstore
  · rename_i hx
    exact not_not.mp fun hne => hx (Or.inr hne)

theorem Sound.opened {store : FileStore κ} {companion primaryDisk : Slot} {writable : Bool} {chainCapacity scratchSize : Nat}
    (h : fileOpen store companion primaryDisk writable chainCapacity scratchSize = .ok s) : Sound s := by
  obtain ⟨primary, -, hsize, -, hb, hchain, rfl⟩ := fileOpen_eq_ok h
  refine ⟨rfl, hb, Nat.two_pow_pos 32, hsize, fun hne => ?_⟩
  unfold FileStore.validateChain at hchain
  rw [if_pos hne] at hchain
  obtain ⟨_, hcapacity, hchain⟩ := of_bind_eq_ok hchain
  obtain ⟨l, hl, -⟩ := of_bind_eq_ok hchain
  refine ⟨l, (if_neg hne).trans hl, ?_⟩
  unfold Fat.validateFileCapacity at hcapacity
  rw [if_neg hne] at hcapacity
  split at hcapacity
  · cases hcapacity
  · have := Fat.capacityFrom_eq_ok (Fat.traverse_eq_ok.mp hl).2.2.1 hcapacity
    rwa [Nat.zero_add, hb] at this

theorem Sound.moved (h : Sound s) {p : Nat} (hp : p < 2 ^ 32) : Sound (s.moved p x) :=
  ⟨h.isOpen, h.clusterBytes, hp, h.fileSize, h.chain⟩

theorem fileSeek_spec {origin : SeekOrigin} {offset : Int} :
    wp (fileSeek origin offset) (fun n t => n < 2 ^ 32 ∧ t = s.moved n s.store.ioContext) (fun _ t => t = s) s := by
  unfold fileSeek
  rw [wp_bind, wp_get, wp_bind, wp_failIf]
  refine ⟨fun _ => rfl, fun _ => ?_⟩
  rw [wp_bind, wp_failIf]
  refine ⟨fun _ => rfl, fun _ => ?_⟩
  rw [wp_bind, wp_failIf]
  refine ⟨fun _ => rfl, fun hx => ⟨?_, rfl⟩⟩
  omega

theorem Extends.length_le {required : Nat} (h : Extends s required l x) : required ≤ l.length := by
  obtain ⟨old, -, ⟨hle, rfl, -⟩ | ⟨hlt, -, -, fresh, -, hlen, rfl, -⟩⟩ := h
  · exact hle
  · rw [List.length_append]
    omega

theorem Extends.ne_nil {required : Nat} (h : Extends s required l x) (hpos : 0 < required) : l ≠ [] :=
  List.length_pos_iff.mp (lt_of_lt_of_le hpos h.length_le)

theorem Extends.old {required : Nat} {old : List Nat} (h : Extends s required l x) (ho : s.loadChain = .ok old) :
    ∃ fresh, l = old ++ fresh ∧ ∀ c ∈ fresh, s.store.fat c = Fat.free := by
  obtain ⟨old', ho', hcase⟩ := h
  rw [ho] at ho'
  cases ho'
  rcases hcase with ⟨-, rfl, -⟩ | ⟨-, -, -, fresh, hfresh, -, rfl, -⟩
  · exact ⟨[], (List.append_nil l).symm, by simp⟩
  · refine ⟨fresh, rfl, fun c hc => ?_⟩
    rw [hfresh] at hc
    exact of_decide_eq_true (List.mem_filter.mp (List.mem_of_mem_take hc)).2

theorem Extends.valid {required : Nat} (h : Extends s required l x) (hpos : 0 < required) :
    Fat.validEntryCount s.store.fatEntryCount := by
  obtain ⟨old, ho, ⟨hle, rfl, -⟩ | ⟨-, -, hn, -⟩⟩ := h
  · rcases loadChain_eq_ok ho with ⟨-, -, rfl⟩ | ⟨-, hw⟩
    · exact absurd hle (not_le.mpr hpos)
    · exact (Fat.traverse_eq_ok.mp hw).1
  · exact hn

theorem Extended.traverse (h : Extended s u l) (hn : Fat.validEntryCount s.store.fatEntryCount) (hne : l ≠ []) :
    Fat.traverse u.store.fat s.store.fatEntryCount (l.headD 0) s.chainCapacity = .ok l :=
  Fat.traverse_eq_ok.mpr ⟨hn, lt_of_lt_of_le (List.length_pos_iff.mpr hne) h.fits, h.chain hne, h.nodup, h.fits⟩

theorem Sound.covered {required : Nat} (h : Sound s) (hx : Extends s required l x) :
    s.primary.fileSize ≤ l.length * clusterSize := by
  obtain hz | hne := eq_or_ne s.primary.fileSize 0
  · rw [hz]
    exact Nat.zero_le _
  · obtain ⟨old, ho, hle⟩ := h.chain hne
    obtain ⟨fresh, rfl, -⟩ := hx.old ho
    rw [List.length_append, Nat.add_mul]
    omega

theorem requiredClusters_pos {position : Nat} {buffer : Text} (h : buffer ≠ []) : 0 < requiredClusters position buffer.length := by
  have := List.length_pos_iff.mpr h
  unfold requiredClusters clusterSize
  omega

theorem Written.loadChain {buffer : Text} (h : Written s buffer u l t) (hs : Sound s) (hne : buffer ≠ []) :
    t.loadChain = .ok l ∧ t.primary.fileSize ≤ l.length * clusterSize := by
  have hpos := List.length_pos_iff.mpr hne
  have hroom := requiredClusters_le.mp h.enough
  have hcovered := hs.covered h.extends_
  have hsize : t.primary.fileSize = max s.primary.fileSize (s.position + buffer.length) := by rw [h.file]
  refine ⟨?_, by rw [hsize]; omega⟩
  have hwalk := h.extended.traverse (h.extends_.valid (requiredClusters_pos hne))
    (h.extends_.ne_nil (requiredClusters_pos hne))
  unfold FsFile.loadChain
  rw [if_neg (by rw [hsize]; omega), h.file]
  dsimp only
  rw [h.extended.file]
  exact hwalk

theorem Written.sound {buffer : Text} (h : Written s buffer u l t) (hs : Sound s) (hne : buffer ≠ []) : Sound t := by
  have hsize := hs.fileSize
  have hsmall := h.small
  refine ⟨?_, ?_, ?_, ?_, fun _ => ⟨l, h.loadChain hs hne⟩⟩ <;> rw [h.file, h.extended.file]
  · exact hs.isOpen
  · exact hs.clusterBytes
  · exact hsmall
  · show max _ _ < _
    omega

theorem Extended.loadChain {required p : Nat} (h : Extended s u l) (hx : Extends s required l x) (hpos : 0 < required)
    (hne : s.primary.fileSize ≠ 0) : (u.moved p y).loadChain = .ok l := by
  have hwalk := h.traverse (hx.valid hpos) (hx.ne_nil hpos)
  rw [loadChain_moved, h.file, FsFile.loadChain, if_neg hne]
  exact hwalk

theorem WriteStopped.sound {buffer : Text} (h : WriteStopped s buffer t) (hs : Sound s) : Sound t := by
  obtain ⟨⟨fresh, -, rfl⟩, -⟩ | ⟨u, l, k, x, hext, hx, hk, rfl, -, -, -, hle, hne, hsmall, -⟩ := h
  · exact hs.moved hs.position
  have hposition := hs.position
  have hsize := hs.fileSize
  have hfile : u.primary.fileSize = s.primary.fileSize := by rw [hext.file]
  refine Sound.moved ⟨?_, ?_, ?_, ?_, fun hz => ⟨l, ?_, ?_⟩⟩ (by omega)
  · rw [hext.file]
    exact hs.isOpen
  · rw [hext.file]
    exact hs.clusterBytes
  · rw [hext.file]
    exact hposition
  · rw [hfile]
    exact hsize
  · rw [hfile] at hz
    exact @Extended.loadChain κ s u _ u.store.ioContext l _ u.position hext hx (requiredClusters_pos hne) hz
  · rw [hfile]
    exact hs.covered hx

theorem Sound.reads (h : Sound s) {length : Nat} : wp (fileRead length) (fun _ t => Sound t) (fun _ t => Sound t) s := by
  unfold fileRead
  rw [wp_bind, wp_get, wp_bind, wp_failIf]
  refine ⟨fun _ => h, fun _ => ?_⟩
  split
  · exact h
  rw [wp_bind, wp_ofExcept]
  refine ⟨fun l _ => ?_, fun _ _ => h⟩
  refine wp_mono (readFrom_length h.position le_rfl h.clusterBytes) ?_ ?_
  · rintro _ t ⟨-, p, x, hp, rfl⟩
    exact h.moved hp
  · rintro _ t ⟨p, x, hp, rfl⟩
    exact h.moved hp

theorem Sound.seeks (h : Sound s) {origin : SeekOrigin} {offset : Int} :
    wp (fileSeek origin offset) (fun _ t => Sound t) (fun _ t => Sound t) s := by
  refine wp_mono fileSeek_spec ?_ ?_
  · rintro n t ⟨hn, rfl⟩
    exact h.moved hn
  · rintro e t rfl
    exact h

theorem Sound.writes (h : Sound s) {buffer : Text} :
    wp (fileWrite buffer) (fun _ t => Sound t) (fun _ t => Sound t) s := by
  refine wp_mono (fileWrite_spec h) ?_ fun _ _ ht => ht.sound h
  rintro _ t ⟨-, ⟨-, rfl⟩ | ⟨hne, u, l, ht⟩⟩
  · exact h
  · exact ht.sound h hne

theorem Sound.called (h : Sound s) (call : FileCall) : wp call.run (fun _ t => Sound t) (fun _ t => Sound t) s := by
  cases call with
  | seek =>
    rw [FileCall.run, wp_bind]
    exact h.seeks
  | read =>
    rw [FileCall.run, wp_bind]
    exact h.reads
  | write => exact h.writes
  | append =>
    rw [FileCall.run, fileAppend, wp_bind]
    exact wp_mono h.seeks (fun _ _ ht => ht.writes) fun _ _ ht => ht

theorem FileRun.sound (h : FileRun s) : Sound s := by
  induction h with
  | opened ho => exact .opened ho
  | called call _ ih => exact of_wp (P := Sound) (ih.called call)

def fileChain (s : FsFile κ) : List Nat := s.loadChain.toOption.getD []

def fileBytes (clusters : κ → Nat → ClusterBytes) (s : FsFile κ) : Text :=
  (bytesOf (clusters s.store.ioContext) s.fileChain).take s.primary.fileSize

theorem fileChain_eq (h : s.loadChain = .ok l) : s.fileChain = l := by
  rw [fileChain, h]
  rfl

/-- A read gives the bytes of the file from the position on, as many as there are, or a cluster with one of them cannot be
    read. -/
def ReadsExactly (s : FsFile κ) (length : Nat) : Prop :=
  match (fileRead length s).1 with
  | .ok out => out.length = min length (s.primary.fileSize - s.position) ∧
      ∀ clusters, s.store.operations.Lawful clusters → out = ((fileBytes clusters s).drop s.position).take length
  | .error e => ∃ i x, s.position ≤ i ∧ i < s.position + length ∧ i < s.primary.fileSize ∧
      (s.store.operations.read (s.fileChain.getD (i / clusterSize) 0) x).1 = .error e

theorem readsExactly_of_wp {length : Nat} (h : wp (fileRead length)
    (fun out _ => out.length = min length (s.primary.fileSize - s.position) ∧
      ∀ clusters, s.store.operations.Lawful clusters → out = ((fileBytes clusters s).drop s.position).take length)
    (fun e _ => ∃ i x, s.position ≤ i ∧ i < s.position + length ∧ i < s.primary.fileSize ∧
      (s.store.operations.read (s.fileChain.getD (i / clusterSize) 0) x).1 = .error e) s) : ReadsExactly s length := by
  unfold ReadsExactly
  rcases hr : fileRead length s with ⟨e | out, t⟩
  · have he := wp_error h hr
    exact he
  · have hout := wp_ok h hr
    exact hout

theorem ReadsExactly.length {length : Nat} {out : Text} (h : ReadsExactly s length)
    (hr : (fileRead length s).1.toOption = some out) : out.length = min length (s.primary.fileSize - s.position) := by
  unfold ReadsExactly at h
  cases hread : (fileRead length s).1 with
  | error e =>
    rw [hread] at hr
    cases hr
  | ok r =>
    rw [hread] at hr h
    obtain rfl : r = out := Option.some.inj hr
    exact h.1

theorem Sound.readsExactly {length : Nat} (h : Sound s) (hle : s.position ≤ s.primary.fileSize ∨ length = 0) :
    ReadsExactly s length := by
  refine readsExactly_of_wp ?_
  have hsize := h.fileSize
  unfold fileRead
  rw [wp_bind, wp_get, wp_bind, wp_failIf]
  refine ⟨fun hx => ?_, fun _ => ?_⟩
  · rw [h.isOpen] at hx
    cases hx
  split
  · rename_i hnone
    refine ⟨?_, fun clusters _ => ?_⟩
    · rw [List.length_nil]
      omega
    · rcases hnone with rfl | hend
      · rfl
      · rw [hend, fileBytes, List.drop_eq_nil_of_le (List.length_take_le _ _), List.take_nil]
  rename_i hsome
  rw [not_or] at hsome
  have hlt : s.position < s.primary.fileSize := by omega
  obtain ⟨l, hl, hcover⟩ := h.chain (by omega)
  have hleft : (s.primary.fileSize + 2 ^ 32 - s.position) % 2 ^ 32 = s.primary.fileSize - s.position := by omega
  rw [wp_bind, wp_ofExcept, hleft]
  refine ⟨fun l' hl' => ?_, fun e he => ?_⟩
  · rw [hl] at hl'
    cases hl'
    refine wp_mono (readFrom_spec h.clusterBytes (by omega) (by omega) le_rfl) ?_ ?_
    · rintro r t ⟨part, x, hr, hpart, rfl, hfetched⟩
      obtain rfl : r = part := hr
      refine ⟨hpart, fun clusters hops => ?_⟩
      obtain ⟨hbytes, -⟩ := hfetched clusters hops
      rw [hbytes, hpart, fileBytes, fileChain_eq hl, List.drop_take, List.take_take]
    · rintro e t ⟨k, x, y, hk, rfl, he⟩
      refine ⟨s.position + k, y, by omega, by omega, by omega, ?_⟩
      rw [fileChain_eq hl]
      exact he
  · rw [hl] at he
    cases he

theorem Sound.readsPast {length : Nat} (h : Sound s) (hlt : s.primary.fileSize < s.position) (hne : length ≠ 0) :
    wp (fileRead length) (fun out _ => out ≠ []) (fun _ _ => True) s := by
  have hposition := h.position
  unfold fileRead
  rw [wp_bind, wp_get, wp_bind, wp_failIf]
  refine ⟨fun _ => trivial, fun _ => ?_⟩
  rw [if_neg (by omega), wp_bind, wp_ofExcept]
  refine ⟨fun l _ => ?_, fun _ _ => trivial⟩
  refine wp_mono (readFrom_length hposition le_rfl h.clusterBytes) (fun out _ ⟨hlen, _⟩ hnil => ?_) fun _ _ _ => trivial
  rw [hnil, List.length_nil] at hlen
  omega

/-- A read transfers exactly the bytes of the file from its position on, exactly when the position is not past the end. -/
theorem fileRead_exact (h : FileRun s) (length : Nat) :
    ReadsExactly s length ↔ s.position ≤ s.primary.fileSize ∨ length = 0 := by
  refine ⟨fun hx => ?_, h.sound.readsExactly⟩
  by_contra hpast
  rw [not_or, not_le] at hpast
  have hsome := h.sound.readsPast hpast.1 hpast.2
  unfold ReadsExactly at hx
  rcases hr : fileRead length s with ⟨e | out, t⟩
  · rw [hr] at hx
    obtain ⟨i, x, h₁, -, h₂, -⟩ := hx
    omega
  · rw [hr] at hx
    have hnil := wp_ok hsome hr
    refine hnil (List.length_eq_zero_iff.mp ?_)
    rw [hx.1]
    omega

def heldPrimary (fileSize : Nat) : Primary :=
  { name := padName [ascii 'A'] [], attributes := attributeRegular, firstCluster := if fileSize = 0 then 0 else 2, fileSize }

def heldStore (operations : ClusterOperations (Nat → ClusterBytes)) (fileSize : Nat) : FileStore (Nat → ClusterBytes) :=
  { fat := fun c => if c = 2 ∧ fileSize ≠ 0 then Fat.endOfChain else Fat.free
    fatEntryCount := 4, clusterBytes := clusterSize, ioContext := fun _ => Bytes.zero, operations, writable := true }

def heldFile (operations : ClusterOperations (Nat → ClusterBytes)) (fileSize : Nat) : FsFile (Nat → ClusterBytes) :=
  { store := heldStore operations fileSize, primary := heldPrimary fileSize, position := 0, chainCapacity := 2
    scratchSize := clusterSize, writable := true, isOpen := true }

theorem heldFile_run {operations : ClusterOperations (Nat → ClusterBytes)} {fileSize : Nat} (h : fileSize = 0 ∨ fileSize = 1) :
    FileRun (heldFile operations fileSize) := by
  have hvalid : (heldPrimary fileSize).admissible = true := by
    rcases h with rfl | rfl <;> decide
  have hsize : (heldPrimary fileSize).fileSize < 2 ^ 32 := by
    rcases h with rfl | rfl <;> decide
  have hchain : (heldStore operations fileSize).validateChain (heldPrimary fileSize) 2 = .ok () := by
    rcases h with rfl | rfl <;> rfl
  refine @FileRun.opened _ (heldStore operations fileSize) (companionRecord true (heldPrimary fileSize).name)
    (primaryBytes (heldPrimary fileSize)) true 2 clusterSize _ ?_
  rw [fileOpen, recordPairValidate_committed hvalid hsize rfl, primaryDecode_bytes hvalid hsize]
  show (heldStore operations fileSize).validateChain (heldPrimary fileSize) 2 >>= _ = _
  rw [hchain]
  rfl

def pastEnd : FsFile (Nat → ClusterBytes) := (heldFile .memory 1).moved 2 fun _ => Bytes.zero

theorem pastEnd_run : FileRun pastEnd := .called (.seek .seekSet 2) (heldFile_run (Or.inr rfl))

/-- A file of one byte, read behind its end: the byte that is there in the cluster. -/
theorem fileRead_slack : FileRun pastEnd ∧ pastEnd.primary.fileSize = 1 ∧ pastEnd.position = 2 ∧
    (fileRead 1 pastEnd).1.toOption = some [0] ∧ ¬ReadsExactly pastEnd 1 := by
  have hread : (fileRead 1 pastEnd).1.toOption = some [0] := by decide +kernel
  exact ⟨pastEnd_run, rfl, rfl, hread, fun hx => absurd (hx.length hread) (by decide)⟩

theorem fileRead_exact_held : ReadsExactly (heldFile .memory 1) 1 ↔
    (heldFile .memory 1).position ≤ (heldFile .memory 1).primary.fileSize ∨ 1 = 0 :=
  fileRead_exact (heldFile_run (Or.inr rfl)) 1

end FsFile
end InferenceOS
