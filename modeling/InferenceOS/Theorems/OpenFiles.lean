import InferenceOS.Fs.File
import InferenceOS.Lib.Overwrite
import InferenceOS.Theorems.Chains
import Mathlib.Data.List.GetD

/-! Open files: the bytes of their clusters, what the loops over the clusters read and write, and what every call keeps of
    a handle. -/

namespace InferenceOS
open Program Function

/-- The operations act on the clusters that their context shows. One that fails changes none of them. -/
structure ClusterOperations.Lawful {κ : Type} (operations : ClusterOperations κ) (clusters : κ → Nat → ClusterBytes) : Prop where
  read : ∀ c x, wp (operations.read c) (fun bytes y => bytes = clusters x c ∧ clusters y = clusters x)
    (fun _ y => clusters y = clusters x) x
  write : ∀ c bytes x, wp (operations.write c bytes) (fun _ y => clusters y = update (clusters x) c bytes)
    (fun _ y => clusters y = clusters x) x
  zero : ∀ c x, wp (operations.zero c) (fun _ y => clusters y = update (clusters x) c Bytes.zero)
    (fun _ y => clusters y = clusters x) x

namespace ClusterOperations

/-- The operations on clusters in memory. -/
def memory : ClusterOperations (Nat → ClusterBytes) where
  read c := fun x => (.ok (x c), x)
  write c bytes := modify fun x => update x c bytes
  zero c := modify fun x => update x c Bytes.zero

theorem memory_lawful : memory.Lawful id := ⟨fun _ _ => ⟨rfl, rfl⟩, fun _ _ _ => rfl, fun _ _ => rfl⟩

end ClusterOperations

section Bytes
variable {data : Nat → ClusterBytes} {l : List Nat} {c i p : Nat} {part : Text}

def bytesOf (data : Nat → ClusterBytes) (l : List Nat) : Text := Bytes.concat (l.map data)

@[simp] theorem length_bytesOf : (bytesOf data l).length = l.length * clusterSize := by
  rw [bytesOf, Bytes.length_concat, List.length_map]
  rfl

theorem getElem?_bytesOf : (bytesOf data l)[i]? = l[i / clusterSize]?.map fun c => (data c).byte (i % clusterSize) := by
  have hr : i % 4096 < 4096 := Nat.mod_lt _ (by decide)
  rw [bytesOf, Bytes.getElem?_concat, List.getElem?_map]
  unfold clusterSize
  cases l[i / 4096]? with
  | none => rfl
  | some c => rw [Option.map_some, Option.bind_some, if_pos hr, Option.map_some]

theorem bytesOf_congr {data' : Nat → ClusterBytes} (h : ∀ c ∈ l, data' c = data c) : bytesOf data' l = bytesOf data l := by
  rw [bytesOf, bytesOf, List.map_congr_left h]

theorem bytesOf_append {l' : List Nat} : bytesOf data (l ++ l') = bytesOf data l ++ bytesOf data l' := by
  rw [bytesOf, List.map_append, Bytes.concat, List.flatMap_append]
  rfl

theorem drop_bytesOf (hc : l[p / clusterSize]? = some c) {n : Nat} (hn : p % clusterSize + n ≤ clusterSize) :
    ((bytesOf data l).drop p).take n = ((data c).toList.drop (p % clusterSize)).take n := by
  refine List.ext_getElem? fun i => ?_
  rw [List.getElem?_take, List.getElem?_take]
  split
  · rename_i hi
    have hdiv : (p + i) / clusterSize = p / clusterSize := by
      unfold clusterSize at *
      omega
    have hmod : (p + i) % clusterSize = p % clusterSize + i := by
      unfold clusterSize at *
      omega
    have hlt : p % clusterSize + i < 4096 := by
      unfold clusterSize at *
      omega
    rw [List.getElem?_drop, List.getElem?_drop, getElem?_bytesOf, hdiv, hmod, hc, Option.map_some, Bytes.getElem?_toList,
      if_pos hlt]
  · rfl

theorem byte_spliced {b : ClusterBytes} {offset : Nat} (hi : i < clusterSize) : (FsFile.spliced b offset part).byte i =
    if offset ≤ i ∧ i < offset + part.length then part.getD (i - offset) 0 else b.byte i := by
  unfold clusterSize at hi
  rw [FsFile.spliced, Bytes.byte_put hi]
  split
  · rename_i hx
    rw [Bytes.byte_of_lt (by omega)]
    rfl
  · rfl

theorem bytesOf_spliced (hnd : l.Nodup) (hc : l[p / clusterSize]? = some c) (hn : p % clusterSize + part.length ≤ clusterSize) :
    bytesOf (update data c (FsFile.spliced (data c) (p % clusterSize) part)) l = overwrite (bytesOf data l) p part := by
  have hlt : p / clusterSize < l.length := (List.getElem?_eq_some_iff.mp hc).1
  have hroom : p + part.length ≤ l.length * clusterSize := by
    have : (p / clusterSize + 1) * clusterSize ≤ l.length * clusterSize := Nat.mul_le_mul_right _ hlt
    unfold clusterSize at *
    omega
  refine List.ext_getElem? fun i => ?_
  rw [getElem?_overwrite (by rw [length_bytesOf]; omega), getElem?_bytesOf, getElem?_bytesOf]
  have hr : i % clusterSize < clusterSize := Nat.mod_lt _ (by decide)
  cases hd : l[i / clusterSize]? with
  | none =>
    have hpast : ¬i < p + part.length := by
      intro hi
      have := List.getElem?_eq_none_iff.mp hd
      have : (i / clusterSize) * clusterSize ≤ i := Nat.div_mul_le_self _ _
      have := Nat.mul_le_mul_right clusterSize (List.getElem?_eq_none_iff.mp hd)
      omega
    rw [if_neg (by omega), if_neg hpast]
    rfl
  | some d =>
    rw [Option.map_some, Option.map_some]
    by_cases hin : p ≤ i ∧ i < p + part.length
    · have hsame : i / clusterSize = p / clusterSize := by
        unfold clusterSize at *
        omega
      obtain rfl : d = c := by
        rw [hsame, hc] at hd
        exact (Option.some.inj hd).symm
      have hmod : i % clusterSize = p % clusterSize + (i - p) := by
        unfold clusterSize at *
        omega
      rw [if_neg (by omega), if_pos hin.2, update_self, byte_spliced hr, if_pos (by omega), hmod,
        Nat.add_sub_cancel_left, List.getD_eq_getElem?_getD, List.getElem?_eq_getElem (by omega)]
      rfl
    · have hold : (update data c (FsFile.spliced (data c) (p % clusterSize) part) d).byte (i % clusterSize) =
          (data d).byte (i % clusterSize) := by
        obtain rfl | hdc := eq_or_ne d c
        · have hsame : i / clusterSize = p / clusterSize := by
            obtain ⟨h₁, hx⟩ := List.getElem?_eq_some_iff.mp hd
            obtain ⟨h₂, hy⟩ := List.getElem?_eq_some_iff.mp hc
            exact (List.Nodup.getElem_inj_iff hnd).mp (hx.trans hy.symm)
          rw [update_self, byte_spliced hr, if_neg]
          unfold clusterSize at *
          omega
        · rw [update_of_ne hdc]
      rw [hold]
      split
      · rfl
      · rw [if_neg (by omega)]

end Bytes

theorem Fat.Chain.append {fat : Nat → Nat} {n s last first : Nat} {l l' : List Nat} (h : Chain fat n s l)
    (h' : Chain fat n first l') (hlast : l.getLast? = some last) (hd : l.Disjoint l') :
    Chain (update fat last first) n s (l ++ l') := by
  have hmem : last ∈ l := List.mem_of_getLast? hlast
  have hrest : Chain (update fat last first) n first l' :=
    h'.frame fun c hc => update_of_ne (by rintro rfl; exact hd hmem hc) _ _
  induction h with
  | @last c hc he =>
    obtain rfl : c = last := by simpa using hlast
    exact .link hc (by rwa [update_self])
  | @link c l hc hl ih =>
    have hlast' : l.getLast? = some last := by
      obtain ⟨d, r, rfl⟩ := List.exists_cons_of_ne_nil hl.ne_nil
      rwa [List.getLast?_cons_cons] at hlast
    have hne : c ≠ last := by
      rintro rfl
      exact (List.nodup_cons.mp (Chain.link hc hl).nodup).1 (List.mem_of_getLast? hlast')
    refine .link hc ?_
    rw [update_of_ne hne]
    exact ih hlast' (fun d hx hx' => hd (List.mem_cons_of_mem _ hx) hx') (List.mem_of_getLast? hlast')

namespace FsFile
variable {κ : Type} {s t : FsFile κ} {clusters : κ → Nat → ClusterBytes} {x y : κ} {l existing : List Nat} {c : Nat}
variable {operations : ClusterOperations κ} {position : Nat}

def moved (s : FsFile κ) (position : Nat) (x : κ) : FsFile κ :=
  { s with position, store := { s.store with ioContext := x } }

theorem moved_self : s.moved s.position s.store.ioContext = s := rfl

@[simp] theorem wp_onContext {α : Type} {m : Program IosError κ α} {Q : α → FsFile κ → Prop} {E : IosError → FsFile κ → Prop} :
    wp (onContext m) Q E s = wp m (fun a y => Q a (s.moved s.position y)) (fun e y => E e (s.moved s.position y))
      s.store.ioContext := wp_zoom

/-- What every call finds in a handle: the chain of a file that is not empty covers it. -/
structure Sound (s : FsFile κ) : Prop where
  isOpen : s.isOpen = true
  clusterBytes : s.store.clusterBytes = clusterSize
  position : s.position < 2 ^ 32
  fileSize : s.primary.fileSize < 2 ^ 32
  chain : s.primary.fileSize ≠ 0 → ∃ l, s.loadChain = .ok l ∧ s.primary.fileSize ≤ l.length * clusterSize

theorem loadChain_eq_ok (h : s.loadChain = .ok l) : (s.primary.fileSize = 0 ∧ s.primary.firstCluster = 0 ∧ l = []) ∨
    (s.primary.fileSize ≠ 0 ∧ Fat.traverse s.store.fat s.store.fatEntryCount s.primary.firstCluster s.chainCapacity = .ok l) := by
  unfold loadChain at h
  split at h
  · split at h
    · cases h
      exact Or.inl ⟨‹_›, ‹_›, rfl⟩
    · cases h
  · exact Or.inr ⟨‹_›, h⟩

theorem loadChain_chain (h : s.loadChain = .ok l) : l.Nodup ∧ l.length ≤ s.chainCapacity ∧
    (∀ c ∈ l, s.store.fat c ≠ Fat.free) ∧
    (l ≠ [] → Fat.Chain s.store.fat s.store.fatEntryCount s.primary.firstCluster l) := by
  rcases loadChain_eq_ok h with ⟨-, -, rfl⟩ | ⟨-, hw⟩
  · exact ⟨List.nodup_nil, Nat.zero_le _, by simp, fun hx => absurd rfl hx⟩
  · obtain ⟨-, -, hl, hnd, hlen⟩ := Fat.traverse_eq_ok.mp hw
    exact ⟨hnd, hlen, hl.used, fun _ => hl⟩

theorem loadChain_moved {p : Nat} : (s.moved p x).loadChain = s.loadChain := rfl

/-- The chain and the context from which a write starts to copy: the chain of the file when it is long enough, else with the
    lowest free clusters behind it, zeroed. -/
def Extends (s : FsFile κ) (required : Nat) (l : List Nat) (x : κ) : Prop :=
  ∃ existing, s.loadChain = .ok existing ∧
    ((required ≤ existing.length ∧ l = existing ∧ x = s.store.ioContext) ∨
      (existing.length < required ∧ required ≤ s.chainCapacity ∧ Fat.validEntryCount s.store.fatEntryCount ∧
        ∃ fresh, fresh = (Fat.freeClusters s.store.fat s.store.fatEntryCount).take (required - existing.length) ∧
          fresh.length = required - existing.length ∧ l = existing ++ fresh ∧
          each s.store.operations.zero fresh s.store.ioContext = (.ok (), x)))

/-- The handle after the clusters of its chain became `l`. -/
structure Extended (s t : FsFile κ) (l : List Nat) : Prop where
  file : t = { s with
    primary := { s.primary with firstCluster := l.headD 0 }
    store := { s.store with fat := t.store.fat, ioContext := t.store.ioContext } }
  chain : l ≠ [] → Fat.Chain t.store.fat s.store.fatEntryCount (l.headD 0) l
  nodup : l.Nodup
  fits : l.length ≤ s.chainCapacity
  frame : ∀ c, c ∉ l → t.store.fat c = s.store.fat c

theorem onContext_run {α : Type} {m : Program IosError κ α} :
    onContext m s = ((m s.store.ioContext).1, s.moved s.position (m s.store.ioContext).2) := rfl

theorem each_onContext {f : Nat → Program IosError κ Unit} : ∀ {l : List Nat} {s : FsFile κ},
    each (fun c => onContext (f c)) l s = ((each f l s.store.ioContext).1, s.moved s.position (each f l s.store.ioContext).2)
  | [], _ => rfl
  | c :: l, s => by
    rcases hf : f c s.store.ioContext with ⟨e | a, x⟩
    · have hrun : onContext (f c) s = (.error e, s.moved s.position x) := by rw [onContext_run, hf]
      rw [each, bind_error hrun, each, bind_error hf]
    · have hrun : onContext (f c) s = (.ok a, s.moved s.position x) := by rw [onContext_run, hf]
      rw [each, bind_ok hrun, each, bind_ok hf, each_onContext]
      rfl

theorem Extended.refl (h : s.loadChain = .ok l) : Extended s s l := by
  obtain ⟨hnd, hlen, -, hchain⟩ := loadChain_chain h
  have hfirst : s.primary.firstCluster = l.headD 0 := by
    rcases loadChain_eq_ok h with ⟨-, hz, rfl⟩ | ⟨-, hw⟩
    · exact hz
    · have hl := (Fat.traverse_eq_ok.mp hw).2.2.1
      rw [List.headD_eq_head?_getD, hl.head, Option.getD_some]
  refine ⟨?_, fun hne => hfirst ▸ hchain hne, hnd, hlen, fun _ _ => rfl⟩
  rw [← hfirst]

theorem linkClusters_extended {fat : Nat → Nat} {fresh : List Nat} {count : Nat} (h : s.loadChain = .ok existing)
    (ha : Fat.Allocated s.store.fat s.store.fatEntryCount count fat fresh) (hfits : existing.length + fresh.length ≤ s.chainCapacity) :
    wp (linkClusters existing fresh) (fun _ t => Extended s t (existing ++ fresh) ∧ t.store.ioContext = x)
      (fun _ _ => False) { s with store := { s.store with fat, ioContext := x } } := by
  obtain ⟨hnd, -, hused, hchain⟩ := loadChain_chain h
  have hd : existing.Disjoint fresh := fun c hc hx => hused c hc (ha.wasFree c hx)
  have hnodup : (existing ++ fresh).Nodup := List.nodup_append.mpr ⟨hnd, ha.nodup, fun a hx b hy hab => hd hx (hab ▸ hy)⟩
  rw [linkClusters, wp_modify]
  cases hlast : existing.getLast? with
  | none =>
    obtain rfl := List.getLast?_eq_none_iff.mp hlast
    exact ⟨⟨rfl, fun _ => ha.chain, ha.nodup, by simpa using hfits, ha.frame⟩, rfl⟩
  | some last =>
    have hmem := List.mem_of_getLast? hlast
    have hold := hchain (List.ne_nil_of_mem hmem)
    have hframed : Fat.Chain fat s.store.fatEntryCount s.primary.firstCluster existing :=
      hold.frame fun c hc => ha.frame c fun hx => hd hc hx
    have hhead : (existing ++ fresh).headD 0 = s.primary.firstCluster := by
      rw [List.headD_eq_head?_getD, List.head?_append, hold.head, Option.some_or, Option.getD_some]
    refine ⟨⟨by rw [hhead], fun _ => ?_, hnodup, by simpa using hfits, fun c hc => ?_⟩, rfl⟩
    · rw [hhead]
      exact hframed.append ha.chain hlast hd
    · rw [List.mem_append, not_or] at hc
      show update fat last _ c = _
      rw [update_of_ne (by rintro rfl; exact hc.1 hmem), ha.frame c hc.2]

theorem ensureClusters_spec {required : Nat} :
    wp (ensureClusters required)
      (fun l t => Extended s t l ∧ required ≤ l.length ∧ Extends s required l t.store.ioContext)
      (fun _ t => (∃ fresh, (∀ c ∈ fresh, s.store.fat c = Fat.free) ∧
        t = s.moved s.position (each s.store.operations.zero fresh s.store.ioContext).2) ∧
        ∀ l x, ¬Extends s required l x) s := by
  unfold ensureClusters
  rw [wp_bind, wp_get, wp_bind, wp_ofExcept]
  refine ⟨fun existing h => ?_, fun e h => ⟨⟨[], by simp, rfl⟩, ?_⟩⟩
  swap
  · rintro l x ⟨existing, h', -⟩
    rw [h] at h'
    cases h'
  split
  · rename_i hle
    exact ⟨.refl h, hle, existing, h, Or.inl ⟨hle, rfl, rfl⟩⟩
  rename_i hlt
  obtain ⟨-, hlen, -, -⟩ := loadChain_chain h
  rw [wp_bind, wp_failIf]
  refine ⟨fun hsmall => ⟨⟨[], by simp, rfl⟩, ?_⟩, fun hcap => ?_⟩
  · rintro l x ⟨existing', h', ⟨hle, -⟩ | ⟨-, hle, -⟩⟩
    · rw [h] at h'
      cases h'
      exact hlt hle
    · omega
  have hunique : ∀ {l x}, Extends s required l x → Fat.validEntryCount s.store.fatEntryCount ∧ ∃ fresh,
      fresh = (Fat.freeClusters s.store.fat s.store.fatEntryCount).take (required - existing.length) ∧
        fresh.length = required - existing.length ∧ l = existing ++ fresh ∧
        each s.store.operations.zero fresh s.store.ioContext = (.ok (), x) := by
    rintro l x ⟨existing', h', hcase⟩
    rw [h] at h'
    cases h'
    rcases hcase with ⟨hle, -⟩ | ⟨-, -, hfresh⟩
    · exact absurd hle hlt
    · exact hfresh
  rw [wp_bind, wp_ofExcept]
  have h0 : 0 < required - existing.length := by omega
  have hroom : required - existing.length ≤ s.chainCapacity - existing.length := by omega
  refine ⟨fun r hr => ?_, fun e he => ⟨⟨[], by simp, rfl⟩, fun l x hx => ?_⟩⟩
  swap
  · obtain ⟨hn, fresh, hfresh, hcount, -⟩ := hunique hx
    rw [Fat.allocate_eq hn h0 hroom, if_neg] at he
    · cases he
    · rw [hfresh, List.length_take] at hcount
      omega
  obtain ⟨fat, fresh⟩ := r
  have ha := Fat.allocate_eq_ok hr
  have hfree : fresh = (Fat.freeClusters s.store.fat s.store.fatEntryCount).take (required - existing.length) := by
    rw [Fat.allocate_eq (Fat.allocate_valid hr) h0 hroom] at hr
    split at hr
    · cases hr
    · cases hr
      rfl
  rw [wp_bind, setFat, wp_modify, wp_bind, wp_attempt]
  have hzero := @each_onContext κ s.store.operations.zero fresh { s with store := { s.store with fat } }
  dsimp only at hzero
  rcases hz : each s.store.operations.zero fresh s.store.ioContext with ⟨e | a, x⟩
  · rw [hz] at hzero
    refine wp_iff.mpr ⟨fun a t hx => ?_, fun e' t hx => ?_⟩ <;> rw [hzero] at hx <;> cases hx
    refine ⟨⟨fresh, ha.wasFree, ?_⟩, fun l y hx => ?_⟩
    · show { s with store := { s.store with fat := Fat.clear fat fresh, ioContext := x } } = s.moved s.position _
      rw [hz, ha.clear]
      rfl
    · obtain ⟨-, fresh', hfresh', -, -, hz'⟩ := hunique hx
      rw [hfresh', ← hfree, hz] at hz'
      cases hz'
  · rw [hz] at hzero
    refine wp_iff.mpr ⟨fun a t hx => ?_, fun e' t hx => ?_⟩ <;> rw [hzero] at hx <;> cases hx
    have hlink := linkClusters_extended (x := x) h ha (by rw [ha.length]; omega)
    rw [wp_bind]
    refine wp_mono hlink (fun _ t hx => ?_) fun _ _ hx => hx.elim
    obtain ⟨ht, hctx⟩ := hx
    refine ⟨ht, ?_, existing, h, Or.inr ⟨by omega, by omega, Fat.allocate_valid hr, fresh, hfree, ha.length, rfl, ?_⟩⟩
    · rw [List.length_append, ha.length]
      omega
    · rw [hz, hctx]

def copyPart (operations : ClusterOperations κ) (c offset : Nat) (part : Text) : Program IosError κ Unit := do
  let scratch ← operations.read c
  operations.write c (spliced scratch offset part)

def chunkAt (position : Nat) (input : Text) : Nat := min (clusterSize - position % clusterSize) input.length

/-- The copy of the input from a position on stops with an operation that fails, with the bytes up to `p` copied. -/
inductive StopsAt (operations : ClusterOperations κ) (l : List Nat) : κ → Nat → Text → Nat → Prop where
  | here {x y : κ} {position : Nat} {input : Text} {e : IosError} : input ≠ [] →
    copyPart operations (l.getD (position / clusterSize) 0) (position % clusterSize) (input.take (chunkAt position input)) x =
      (.error e, y) → StopsAt operations l x position input position
  | later {x y : κ} {position p : Nat} {input : Text} : input ≠ [] →
    copyPart operations (l.getD (position / clusterSize) 0) (position % clusterSize) (input.take (chunkAt position input)) x =
      (.ok (), y) →
    StopsAt operations l y (position + chunkAt position input) (input.drop (chunkAt position input)) p →
    StopsAt operations l x position input p

theorem StopsAt.unique {p q : Nat} {input : Text}
    (h : StopsAt operations l x position input p) (h' : StopsAt operations l x position input q) : p = q := by
  induction h with
  | here _ hrun =>
    cases h' with
    | here => rfl
    | later _ hrun' _ =>
      rw [hrun] at hrun'
      cases hrun'
  | later _ hrun _ ih =>
    cases h' with
    | here _ hrun' =>
      rw [hrun] at hrun'
      cases hrun'
    | later _ hrun' hrest =>
      rw [hrun] at hrun'
      cases hrun'
      exact ih hrest

def Copied (operations : ClusterOperations κ) (l : List Nat) (x : κ) (position : Nat) (part : Text) (y : κ) : Prop :=
  ∀ clusters, operations.Lawful clusters →
    bytesOf (clusters y) l = overwrite (bytesOf (clusters x) l) position part ∧ ∀ c, c ∉ l → clusters y c = clusters x c

theorem Copied.none (h : ∀ clusters, operations.Lawful clusters → clusters y = clusters x) : Copied operations l x position [] y :=
  fun clusters hops => by
    rw [overwrite_nil, h clusters hops]
    exact ⟨rfl, fun _ _ => rfl⟩

theorem Copied.trans {a b : Text} {z : κ}
    (h : Copied operations l x position a y) (h' : Copied operations l y (position + a.length) b z)
    (hp : position ≤ l.length * clusterSize) : Copied operations l x position (a ++ b) z := fun clusters hops => by
  obtain ⟨hbytes, hrest⟩ := h clusters hops
  obtain ⟨hbytes', hrest'⟩ := h' clusters hops
  refine ⟨?_, fun c hc => (hrest' c hc).trans (hrest c hc)⟩
  rw [hbytes', hbytes, overwrite_overwrite (by rwa [length_bytesOf])]

theorem copyPart_copied {operations : ClusterOperations κ} {position : Nat} {part : Text} (hnd : l.Nodup)
    (hc : position / clusterSize < l.length) (hn : position % clusterSize + part.length ≤ clusterSize) :
    wp (copyPart operations (l.getD (position / clusterSize) 0) (position % clusterSize) part)
      (fun _ y => Copied operations l x position part y) (fun _ y => Copied operations l x position [] y) x := by
  have hget : l[position / clusterSize]? = some (l.getD (position / clusterSize) 0) := by
    rw [List.getElem?_eq_getElem hc, List.getD_eq_getElem _ _ hc]
  have hmem : l.getD (position / clusterSize) 0 ∈ l := List.mem_of_getElem? hget
  generalize l.getD (position / clusterSize) 0 = c at *
  have hspec : ∀ clusters, operations.Lawful clusters → wp (copyPart operations c (position % clusterSize) part)
      (fun _ y => clusters y = update (clusters x) c (spliced (clusters x c) (position % clusterSize) part))
      (fun _ y => clusters y = clusters x) x := fun clusters hops => by
    unfold copyPart
    rw [wp_bind]
    refine wp_mono (hops.read c x) (fun bytes y ⟨hb, hy⟩ => ?_) fun _ _ hy => hy
    refine wp_mono (hops.write c _ y) (fun _ z hz => ?_) fun _ z hz => hz.trans hy
    rw [hz, hb, hy]
  refine wp_iff.mpr ⟨fun _ y hrun => fun clusters hops => ?_, fun e y hrun => .none fun clusters hops => ?_⟩
  · have hy := wp_ok (hspec clusters hops) hrun
    rw [hy, bytesOf_spliced hnd hget hn]
    exact ⟨rfl, fun d hd => update_of_ne (by rintro rfl; exact hd hmem) _ _⟩
  · have hy := wp_error (hspec clusters hops) hrun
    exact hy

theorem writePart_run {part : Text} (hb : s.store.clusterBytes = clusterSize) (hc : s.position / clusterSize < l.length) :
    writePart l part s = match copyPart s.store.operations (l.getD (s.position / clusterSize) 0) (s.position % clusterSize) part
        s.store.ioContext with
      | (.ok _, y) => (.ok (), s.moved ((s.position + part.length) % 2 ^ 32) y)
      | (.error e, y) => (.error e, s.moved s.position y) := by
  unfold writePart copyPart
  rw [bind_ok (show get s = (.ok s, s) from rfl), hb, failIf_pass (by omega)]
  rcases hr : s.store.operations.read (l.getD (s.position / clusterSize) 0) s.store.ioContext with ⟨e | b, y⟩
  · rw [bind_error (show onContext _ s = (.error e, s.moved s.position y) by rw [onContext_run, hr]), bind_error hr]
  · rw [bind_ok (show onContext _ s = (.ok b, s.moved s.position y) by rw [onContext_run, hr]), bind_ok hr]
    rcases hw : s.store.operations.write (l.getD (s.position / clusterSize) 0)
      (spliced b (s.position % clusterSize) part) y with ⟨e | u, z⟩
    · rw [bind_error (show onContext _ (s.moved s.position y) = (.error e, s.moved s.position z) by
        rw [onContext_run]; show ((s.store.operations.write _ _ y).1, s.moved s.position (s.store.operations.write _ _ y).2) = _; rw [hw])]
    · rw [bind_ok (show onContext _ (s.moved s.position y) = (.ok u, s.moved s.position z) by
        rw [onContext_run]; show ((s.store.operations.write _ _ y).1, s.moved s.position (s.store.operations.write _ _ y).2) = _; rw [hw])]
      rfl

theorem writeFrom_spec (hnd : l.Nodup) : ∀ {fuel : Nat} {input : Text} {s : FsFile κ}, s.store.clusterBytes = clusterSize →
    s.position + input.length < 2 ^ 32 → s.position + input.length ≤ l.length * clusterSize → input.length ≤ fuel →
    wp (writeFrom l fuel input)
      (fun _ t => ∃ x, t = s.moved (s.position + input.length) x ∧
        Copied s.store.operations l s.store.ioContext s.position input x)
      (fun _ t => ∃ k x, k < input.length ∧ t = s.moved (s.position + k) x ∧
        Copied s.store.operations l s.store.ioContext s.position (input.take k) x ∧
        StopsAt s.store.operations l s.store.ioContext s.position input (s.position + k)) s
  | 0, input, s, _, _, _, hfuel => by
    obtain rfl := List.length_eq_zero_iff.mp (Nat.le_zero.mp hfuel)
    exact ⟨s.store.ioContext, rfl, .none fun _ _ => rfl⟩
  | fuel + 1, input, s, hb, hsmall, hroom, hfuel => by
    rw [writeFrom]
    split
    · rename_i hnil
      subst hnil
      exact ⟨s.store.ioContext, rfl, .none fun _ _ => rfl⟩
    rename_i hne
    have hpos := List.length_pos_iff.mpr hne
    have hmod : s.position % clusterSize < clusterSize := Nat.mod_lt _ (by decide)
    have hchunk : 0 < chunkAt s.position input ∧ chunkAt s.position input ≤ input.length ∧
        s.position % clusterSize + chunkAt s.position input ≤ clusterSize := by
      unfold chunkAt
      omega
    have hlen : (input.take (chunkAt s.position input)).length = chunkAt s.position input := by
      rw [List.length_take]
      omega
    have hrest : (input.drop (chunkAt s.position input)).length = input.length - chunkAt s.position input := List.length_drop
    have hc : s.position / clusterSize < l.length := Nat.div_lt_of_lt_mul (by rw [Nat.mul_comm]; omega)
    have hcopy := @copyPart_copied κ s.store.ioContext l s.store.operations s.position
      (input.take (chunkAt s.position input)) hnd hc (by rw [hlen]; exact hchunk.2.2)
    rw [wp_bind, wp_get, hb]
    show wp (writePart l (input.take (chunkAt s.position input)) >>= fun _ =>
      writeFrom l fuel (input.drop (chunkAt s.position input))) _ _ s
    rw [wp_bind]
    have hrun := @writePart_run κ s l (input.take (chunkAt s.position input)) hb hc
    rcases wp_cases hcopy with ⟨u, y, hcp, hdone⟩ | ⟨e, y, hcp, hdone⟩
    swap
    · rw [hcp] at hrun
      refine wp_iff.mpr ⟨fun _ t hx => ?_, fun _ t hx => ?_⟩ <;> rw [hrun] at hx <;> cases hx
      exact ⟨0, y, hpos, rfl, by rwa [List.take_zero], .here hne hcp⟩
    · rw [hcp, hlen, Nat.mod_eq_of_lt (by omega)] at hrun
      refine wp_iff.mpr ⟨fun _ t hx => ?_, fun _ t hx => ?_⟩ <;> rw [hrun] at hx <;> cases hx
      -- The rest of the input goes on behind the part.
      refine wp_mono (@writeFrom_spec hnd fuel (input.drop (chunkAt s.position input))
        (s.moved (s.position + chunkAt s.position input) y) hb ?_ ?_ (by rw [hrest]; omega)) ?_ ?_
      · rw [hrest]
        show s.position + chunkAt s.position input + _ < _
        omega
      · rw [hrest]
        show s.position + chunkAt s.position input + _ ≤ _
        omega
      · rintro _ t ⟨x, rfl, hcopied⟩
        have hall : s.position + chunkAt s.position input + (input.length - chunkAt s.position input) =
            s.position + input.length := by omega
        refine ⟨x, ?_, ?_⟩
        · rw [hrest]
          show s.moved (s.position + chunkAt s.position input + _) x = _
          rw [hall]
        · have := hdone.trans (by rw [hlen]; exact hcopied) (by omega)
          rwa [List.take_append_drop] at this
      · rintro _ t ⟨k, x, hk, rfl, hcopied, hstops⟩
        rw [hrest] at hk
        refine ⟨chunkAt s.position input + k, x, by omega, ?_, ?_, ?_⟩
        · rw [← Nat.add_assoc]
          rfl
        · have := hdone.trans (by rw [hlen]; exact hcopied) (by omega)
          rwa [← List.take_add] at this
        · rw [← Nat.add_assoc]
          exact .later hne hcp hstops

def requiredClusters (position length : Nat) : Nat := (position + length + clusterSize - 1) / clusterSize

/-- The write of a buffer reaches its copy, and an operation of the copy fails with the bytes up to `p` copied. -/
structure CopyFails (s : FsFile κ) (buffer : Text) (p : Nat) : Prop where
  writable : s.writable = true
  storeWritable : s.store.writable = true
  position : s.position ≤ s.primary.fileSize
  input : buffer ≠ []
  small : buffer.length ≤ 2 ^ 32 - 1 - s.position
  stops : ∃ l x, Extends s (requiredClusters s.position buffer.length) l x ∧
    StopsAt s.store.operations l x s.position buffer p

/-- The handle after a write: the clusters of its chain are `l`, and they have the buffer. -/
structure Written (s : FsFile κ) (buffer : Text) (u : FsFile κ) (l : List Nat) (t : FsFile κ) : Prop where
  small : s.position + buffer.length < 2 ^ 32
  extended : Extended s u l
  enough : requiredClusters s.position buffer.length ≤ l.length
  extends_ : Extends s (requiredClusters s.position buffer.length) l u.store.ioContext
  file : t = { u with
    position := s.position + buffer.length
    primary := { u.primary with fileSize := max s.primary.fileSize (s.position + buffer.length) }
    store := { u.store with ioContext := t.store.ioContext } }
  copied : Copied s.store.operations l u.store.ioContext s.position buffer t.store.ioContext

def WriteStopped (s : FsFile κ) (buffer : Text) (t : FsFile κ) : Prop :=
  ((∃ fresh, (∀ c ∈ fresh, s.store.fat c = Fat.free) ∧
      t = s.moved s.position (each s.store.operations.zero fresh s.store.ioContext).2) ∧ ∀ p, ¬CopyFails s buffer p) ∨
    ∃ u l k x, Extended s u l ∧ Extends s (requiredClusters s.position buffer.length) l u.store.ioContext ∧
      k < buffer.length ∧ t = u.moved (s.position + k) x ∧
      Copied s.store.operations l u.store.ioContext s.position (buffer.take k) x ∧ CopyFails s buffer (s.position + k)

theorem requiredClusters_le {length count : Nat} : requiredClusters position length ≤ count ↔
    position + length ≤ count * clusterSize := by
  unfold requiredClusters clusterSize
  omega

theorem WriteStopped.unchanged {buffer : Text} (h : ∀ p, ¬CopyFails s buffer p) : WriteStopped s buffer s :=
  Or.inl ⟨⟨[], by simp, rfl⟩, h⟩

theorem fileWrite_spec {buffer : Text} (h : Sound s) :
    wp (fileWrite buffer) (fun _ t => s.position ≤ s.primary.fileSize ∧
        (buffer = [] ∧ t = s ∨ buffer ≠ [] ∧ ∃ u l, Written s buffer u l t))
      (fun _ t => WriteStopped s buffer t) s := by
  have hsize := h.fileSize
  unfold fileWrite
  rw [wp_bind, wp_get, wp_bind, wp_failIf, wp_bind, wp_failIf, wp_bind, wp_failIf]
  refine ⟨fun hx => .unchanged fun p hp => ?_, fun _ => ⟨fun hx => .unchanged fun p hp => ?_, fun hw => ⟨fun hx =>
    .unchanged fun p hp => ?_, fun hle => ?_⟩⟩⟩
  · rw [h.isOpen] at hx
    cases hx
  · obtain ⟨h₁, h₂, -⟩ := hp
    rcases hx with hx | hx
    · rw [h₁] at hx
      cases hx
    · rw [h₂] at hx
      cases hx
  · exact absurd hp.position (not_le.mpr hx)
  have hle := not_lt.mp hle
  split
  · rename_i hnil
    exact ⟨hle, Or.inl ⟨hnil, rfl⟩⟩
  rename_i hne
  have hpos := List.length_pos_iff.mpr hne
  rw [wp_bind, wp_failIf]
  refine ⟨fun hx => .unchanged fun p hp => absurd hp.small (not_le.mpr hx), fun hsmall => ?_⟩
  have hsmall := not_lt.mp hsmall
  obtain ⟨h₁, h₂⟩ : s.writable = true ∧ s.store.writable = true := by simpa only [not_or, Bool.not_eq_false] using hw
  rw [wp_bind, h.clusterBytes]
  refine wp_mono ensureClusters_spec (fun l u hx => ?_) fun _ t hx => ?_
  rotate_left
  · refine Or.inl ⟨hx.1, fun p hp => ?_⟩
    obtain ⟨_, _, _, _, _, l, x, hext, _⟩ := hp
    exact hx.2 l x hext
  obtain ⟨hext, henough, hextends⟩ := hx
  have hb : u.store.clusterBytes = clusterSize := by
    rw [hext.file]
    exact h.clusterBytes
  have hposition : u.position = s.position := by rw [hext.file]
  have hops : u.store.operations = s.store.operations := by rw [hext.file]
  have hfile : u.primary.fileSize = s.primary.fileSize := by rw [hext.file]
  have hroom := requiredClusters_le.mp henough
  rw [wp_bind]
  refine wp_mono (writeFrom_spec hext.nodup hb (by rw [hposition]; omega) (by rw [hposition]; exact hroom) le_rfl) ?_ ?_
  · rintro _ t ⟨x, rfl, hcopied⟩
    rw [hposition, hops] at hcopied
    rw [hposition, wp_modify]
    split
    · rename_i hlt
      have hmax : max s.primary.fileSize (s.position + buffer.length) = s.position + buffer.length :=
        max_eq_right (by rw [← hfile]; exact hlt.le)
      refine ⟨hle, Or.inr ⟨hne, u, l, by omega, hext, henough, hextends, ?_, hcopied⟩⟩
      rw [hmax]
      rfl
    · rename_i hge
      have hmax : max s.primary.fileSize (s.position + buffer.length) = u.primary.fileSize :=
        (max_eq_left (by rw [← hfile]; exact not_lt.mp hge)).trans hfile.symm
      refine ⟨hle, Or.inr ⟨hne, u, l, by omega, hext, henough, hextends, ?_, hcopied⟩⟩
      rw [hmax]
      rfl
  · rintro _ t ⟨k, x, hk, rfl, hcopied, hstops⟩
    rw [hposition, hops] at hcopied hstops
    rw [hposition]
    exact Or.inr ⟨u, l, k, x, hext, hextends, hk, rfl, hcopied, h₁, h₂, hle, hne, hsmall, l, _, hextends, hstops⟩

end FsFile
end InferenceOS
