import InferenceOS.Syscall.FileCommand
import InferenceOS.Theorems.DisplayListings
import InferenceOS.Theorems.FileContents

/-! The text commands. A file is checked to its end before the first byte is put out or changed, and a command that succeeds leaves
    the old content followed by the new bytes. -/

namespace InferenceOS
open Program
variable {bytes path : Text}

namespace VfsSystem
variable {μ ρ ω α : Type} [DecidableEq μ] [DecidableEq ρ] {x : VfsSystem μ ρ ω} {m : μ}

theorem Serving.begins (h : x.Serving m) (mutation : Bool) : vfsMountBeginOperation (some m) mutation x =
    if mutation = true ∧ (x.mounts m).state ≠ .rw then (.error .readOnly, x) else (.ok (), x.opened m) := by
  unfold vfsMountBeginOperation
  rw [bind_ok (show get x = (.ok x, x) from rfl)]
  dsimp only
  rw [failIf_pass (by rw [h.mounted]; exact nofun), failIf_pass (by rw [h.active]; exact nofun), failIf_pass (not_not.mpr h.active)]
  split
  · rename_i hrefused
    rw [failIf_bind hrefused]
    rfl
  · rename_i hpass
    rw [failIf_pass hpass, failIf_pass h.room]
    rfl

theorem Serving.operation_run (h : x.Serving m) {mutation : Bool} {f : Program IosError ω α}
    (hstate : ¬(mutation = true ∧ (x.mounts m).state ≠ .rw)) :
    operation (some m) mutation f x = ((f x.world).1, x.withWorld (f x.world).2) := by
  have hbegin := h.begins mutation
  rw [if_neg hstate] at hbegin
  unfold operation
  rw [bind_ok hbegin]
  have hworld : (x.opened m).world = x.world := counted_world
  have hcall : callback f (x.opened m) = ((f x.world).1, (x.opened m).withWorld (f x.world).2) := by
    unfold callback zoom
    rw [hworld]
    rfl
  rw [bind_ok (attempt_eq hcall), bind_ok (attempt_eq (h.end_run _))]
  cases (f x.world).1 <;> rfl

theorem Serving.wp_operation (h : x.Serving m) {mutation : Bool} {f : Program IosError ω α} {Q : α → VfsSystem μ ρ ω → Prop}
    {E : IosError → VfsSystem μ ρ ω → Prop} (hstate : ¬(mutation = true ∧ (x.mounts m).state ≠ .rw)) :
    wp (operation (some m) mutation f) Q E x ↔
      wp f (fun a w => Q a (x.withWorld w)) (fun e w => E e (x.withWorld w)) x.world := by
  unfold wp
  rw [h.operation_run hstate]
  rcases f x.world with ⟨e | a, w⟩ <;> rfl

def Rested (x y : VfsSystem μ ρ FileService) : Prop := FileService.Quiet x.world y.world ∧ y = x.withWorld y.world

omit [DecidableEq μ] [DecidableEq ρ] in
theorem Rested.serves {x y : VfsSystem μ ρ FileService} (h : Rested x y) (hx : x.Serves m) : y.Serves m := by
  rw [h.2]
  exact hx.withWorld _

omit [DecidableEq μ] [DecidableEq ρ] in
theorem Rested.trans {x y z : VfsSystem μ ρ FileService} (h : Rested x y) (h' : Rested y z) : Rested x z := by
  refine ⟨h.1.trans h'.1, ?_⟩
  have hz := h'.2
  rw [h.2] at hz
  exact hz

end VfsSystem

namespace FileView
open FileService VfsSystem
variable {μ ρ : Type} [DecidableEq μ] [DecidableEq ρ] {x y : VfsSystem μ ρ FileService} {m : μ} {service : FileViewService} {T : Tree}
  {live : Nat → Prop}

def Found (s : FileService) (T : Tree) (m : μ) (object : ResolvedObject μ) : Prop :=
  ∃ d entry candidate, T.dirs d ∧ EntryOf (T.items d) entry ∧ listEntry s d entry = .ok candidate ∧ object = resolvedObject m d candidate

theorem selectFrom_mem {component : Text} {selected : Option ListedEntry} {candidate : ListedEntry} :
    ∀ {pairs : List (ListedEntry × DisplaySafeEntry)}, selectFrom component selected pairs = .ok (some candidate) →
      selected = some candidate ∨ ∃ pair ∈ pairs, pair.1 = candidate
  | [], h => Or.inl (Except.ok.inj h)
  | (other, entry) :: rest, h => by
    rw [selectFrom] at h
    split at h
    · split at h
      · cases h
      · rcases selectFrom_mem h with hx | ⟨pair, hpair, hx⟩
        · exact Or.inr ⟨_, List.mem_cons_self, Option.some.inj hx⟩
        · exact Or.inr ⟨pair, List.mem_cons_of_mem _ hpair, hx⟩
    · rcases selectFrom_mem h with hx | ⟨pair, hpair, hx⟩
      · exact Or.inl hx
      · exact Or.inr ⟨pair, List.mem_cons_of_mem _ hpair, hx⟩

theorem resolveDisplayFrom_found (hT : Sound x.world live T) (hready : Ready service) (hserves : x.Serves m) : ∀ {comps : List Text}
    {d : Nat} {resolved : ResolvedObject μ} {y : VfsSystem μ ρ FileService}, T.dirs d → Rested x y →
    wp (resolveDisplayFrom service (some FileService.enumerate) m d resolved comps)
      (fun object z => (Found x.world T m object ∨ object = resolved) ∧ Rested x z) (fun _ z => Rested x z) y
  | [], d, resolved, y, _, hy => ⟨Or.inr rfl, hy⟩
  | component :: rest, d, resolved, y, hd, hy => by
    have hc := hT.toConsistent
    obtain ⟨entries, made, hpresented⟩ := exists_presented hT hd hready
    have rests : ∀ {z : VfsSystem μ ρ FileService}, Quiet x.world z.world → y.Steady m z → Rested x z := by
      intro z hz hsteady
      have hworld := hsteady.2 (hy.serves hserves).serving
      rw [hy.2] at hworld
      exact ⟨hz, hworld⟩
    rw [resolveDisplayFrom, wp_bind]
    refine wp_mono (snapshot_spec hc.mounted hc.initialized (hc.scanned hd) hpresented.listed hpresented.plain hpresented.presents hy.1)
      (fun r z hx => ?_) fun err z hx => rests hx.2.1 hx.2.2
    obtain ⟨⟨_, hr⟩, hz, hsteady⟩ := hx
    subst hr
    dsimp only
    rcases hselected : selectFrom component none (entries.zip made) with e | selected
    · exact rests hz hsteady
    rw [ofExcept_ok_bind]
    rcases selected with - | candidate
    · exact rests hz hsteady
    dsimp only
    obtain ⟨pair, hpair, rfl⟩ := (selectFrom_mem hselected).resolve_left fun hx => by cases hx
    obtain ⟨entry, hentry, hlisted⟩ := hpresented.record hT hd hpair
    have hfound : Found x.world T m (resolvedObject m d pair.1) := ⟨d, entry, pair.1, hd, hentry, hlisted, rfl⟩
    by_cases hfail : rest ≠ [] ∧ pair.1.kind ≠ .directory
    · rw [failIf_bind hfail]
      exact rests hz hsteady
    rw [failIf_pass hfail]
    rcases rest with - | ⟨next, rest⟩
    · exact ⟨Or.inl hfound, rests hz hsteady⟩
    have hdirectory : pair.1.kind = .directory := by
      by_contra hne
      exact hfail ⟨List.cons_ne_nil _ _, hne⟩
    have hk := (listEntry_kind hlisted).mp hdirectory
    have hdown : T.dirs pair.1.objectIdentity := by
      have hobject := listEntry_object hlisted
      rw [objectOf_directoryEntry hk] at hobject
      rw [show pair.1.objectIdentity = entry.primary.firstCluster from congrArg VfsObject.identity hobject]
      cases hentry with
      | file => cases hk
      | directory hi hp => exact hc.catalog.closed hd hi hp
    refine wp_mono (resolveDisplayFrom_found hT hready hserves hdown (rests hz hsteady)) (fun object u hx => ⟨Or.inl ?_, hx.2⟩)
      fun _ _ hu => hu
    rcases hx.1 with hobject | rfl
    · exact hobject
    · exact hfound

end FileView
namespace FileCommand
variable {σ : Type} {s : σ} {text : Text}

theorem supportedTextBytes_append :
    supportedTextBytes (text ++ bytes) = true ↔ supportedTextBytes text = true ∧ supportedTextBytes bytes = true := by
  unfold supportedTextBytes
  rw [List.all_append, Bool.and_eq_true]

/-- The callbacks of a text command: `read` gives the chunk at an offset of the text, `output` adds to what is shown. -/
structure Streams (read : Nat → Program IosError σ (Text × Bool)) (output : Text → Program IosError σ Unit) (J : Text → σ → Prop)
    (E : IosError → σ → Prop) (chunk : Nat) (text : Text) : Prop where
  positive : 0 < chunk
  read : ∀ offset s, offset ≤ text.length → J (text.take offset) s → wp (read offset)
    (fun r t => r = ((text.drop offset).take chunk, offset + ((text.drop offset).take chunk).length == text.length) ∧
      J (text.take offset) t) E s
  output : ∀ shown bytes s, J shown s → supportedTextBytes bytes = true → wp (output bytes) (fun _ t => J (shown ++ bytes) t) E s

variable {read : Nat → Program IosError σ (Text × Bool)} {output : Text → Program IosError σ Unit} {J : Text → σ → Prop}
  {E : IosError → σ → Prop} {chunk : Nat}

theorem textLoop_spec (h : Streams read output J E chunk text) (hlength : text.length < 2 ^ 64) :
    ∀ {fuel offset : Nat} {s : σ}, offset < text.length → text.length ≤ offset + fuel → J (text.take offset) s →
      wp (textLoop read output fuel offset)
        (fun n t => supportedTextBytes (text.drop offset) = true ∧ n = text.length ∧ J text t)
        (fun e t => E e t ∨ (supportedTextBytes (text.drop offset) = false ∧ e = .unexpectedFormat ∧ ∃ k, J (text.take k) t)) s
  | 0, offset, s, hlt, hfuel, _ => by omega
  | fuel + 1, offset, s, hlt, hfuel, hJ => by
    have hchunk := h.positive
    have hlen : ((text.drop offset).take chunk).length = min chunk (text.length - offset) := by
      rw [List.length_take, List.length_drop]
    unfold textLoop
    rw [wp_bind]
    refine wp_mono (h.read offset s hlt.le hJ) (fun r t ⟨hr, ht⟩ => ?_) fun e t he => Or.inl he
    subst hr
    dsimp only
    have hpiece : (text.drop offset).take chunk = (text.drop offset).take ((text.drop offset).take chunk).length :=
      List.prefix_iff_eq_take.mp (List.take_prefix _ _)
    generalize (text.drop offset).take chunk = bytes at *
    have htake : text.take offset ++ bytes = text.take (offset + bytes.length) := by
      rw [List.take_add, ← hpiece]
    have hsplit : text.drop offset = bytes ++ text.drop (offset + bytes.length) := by
      rw [← List.drop_drop]
      conv_lhs => rw [← List.take_append_drop bytes.length (text.drop offset), ← hpiece]
    rw [hsplit]
    by_cases hsupported : supportedTextBytes bytes = true
    swap
    · rw [failIf_bind (Bool.eq_false_iff.mpr hsupported)]
      refine Or.inr ⟨?_, rfl, offset, ht⟩
      rw [Bool.eq_false_iff, Ne, supportedTextBytes_append]
      exact fun hx => hsupported hx.1
    rw [failIf_pass (by rw [hsupported]; decide), failIf_pass (fun hx => by omega), wp_bind]
    refine wp_mono (h.output _ _ _ ht hsupported) (fun _ u hu => ?_) fun e u he => Or.inl he
    rw [htake] at hu
    rw [failIf_pass (by omega)]
    by_cases hcomplete : offset + bytes.length = text.length
    · rw [if_pos (beq_iff_eq.mpr hcomplete)]
      refine ⟨?_, hcomplete, ?_⟩
      · rw [hcomplete, List.drop_length, List.append_nil]
        exact hsupported
      · rwa [hcomplete, List.take_length] at hu
    · rw [if_neg (fun hx => hcomplete (beq_iff_eq.mp hx))]
      refine wp_mono (textLoop_spec h hlength (by omega) (by omega) hu) (fun n v ⟨hrest, hn, hv⟩ => ?_)
        fun e v he => ?_
      · exact ⟨supportedTextBytes_append.mpr ⟨hsupported, hrest⟩, hn, hv⟩
      · rcases he with he | ⟨hrest, he⟩
        · exact Or.inl he
        · refine Or.inr ⟨?_, he⟩
          rw [Bool.eq_false_iff, Ne, supportedTextBytes_append]
          exact fun hx => Bool.false_ne_true (hrest.symm.trans hx.2)

theorem textScan_spec (h : Streams read output J E chunk text) (hlength : text.length < 2 ^ 64)
    (hJ : J [] s) : wp (textScan read output text.length) (fun _ t => supportedTextBytes text = true ∧ J text t)
      (fun e t => E e t ∨ (supportedTextBytes text = false ∧ e = .unexpectedFormat ∧ ∃ k, J (text.take k) t)) s := by
  unfold textScan
  dsimp only
  by_cases hempty : text.length = 0
  · rw [if_pos hempty, wp_bind, wp_pure, failIf, if_neg (not_not.mpr hempty.symm)]
    rw [List.length_eq_zero_iff.mp hempty]
    exact ⟨rfl, hJ⟩
  · rw [if_neg hempty, wp_bind]
    refine wp_mono (textLoop_spec h hlength (Nat.pos_of_ne_zero hempty) (by omega) hJ) (fun n t hx => ?_)
      fun e t he => ?_
    · obtain ⟨hall, hn, ht⟩ := hx
      rw [failIf, if_neg (not_not.mpr hn)]
      exact ⟨hall, ht⟩
    · exact he

section Commands
open FileService VfsSystem FileView
variable {μ ρ : Type} [DecidableEq μ] [DecidableEq ρ] {x y : VfsSystem μ ρ FileService} {m : μ} {service : FileCommandService μ}
variable {identity : Nat} {log : List (Nat × Text)}
  {T : Tree} {live : Nat → Prop} {object : ResolvedObject μ}

structure OpensText (s : FileService) (T : Tree) (m : μ) (object : ResolvedObject μ) (text : Text) : Prop where
  mount : object.mount = m
  identity : object.objectIdentity ≠ 0
  size : object.byteSize = text.length
  short : text.length < 2 ^ 32
  holding : Holding s T.dirs object.objectIdentity text

omit [DecidableEq μ] in
theorem found_opens {s : FileService} (hc : Consistent s T) (h : Found s T m object) (hk : object.kind = .regularFile) :
    ∃ text, OpensText s T m object text := by
  obtain ⟨d, entry, candidate, hd, he, hlisted, rfl⟩ := h
  have hobject := listEntry_object hlisted
  cases he with
  | @directory i p hi hp =>
    have hdirectory := (listEntry_kind hlisted).mpr rfl
    exact absurd (hk.symm.trans hdirectory) nofun
  | @file i p hi hp =>
    have hidentity : candidate.objectIdentity = fileIdentity s.mount.geometry d i := congrArg VfsObject.identity hobject
    have hdenotes : Denotes s candidate.objectIdentity d (fileEntry p i) := ⟨d, hc.lists_file hd hi hp, rfl, hidentity⟩
    obtain ⟨text, hholding, hcontent⟩ := hc.holding hd hdenotes
    have hlength := fileContent_length hcontent
    have hsize : candidate.byteSize = p.fileSize := by
      unfold listEntry at hlisted
      dsimp only at hlisted
      rw [if_neg (by exact nofun)] at hlisted
      obtain ⟨_, -, hlisted⟩ := of_bind_ok hlisted
      cases hlisted
      rfl
    refine ⟨text, rfl, ?_, hsize.trans hlength.symm, ?_, hholding⟩
    · rw [show (resolvedObject m d candidate).objectIdentity = _ from hidentity]
      exact fileIdentity_ne_zero _ _ _
    · rw [hlength]
      exact (hc.file_sound hd hi hp).2.1

/-- What a command needs of the console. -/
structure Ready (service : FileCommandService μ) (x : VfsSystem μ ρ FileService) (m : μ) (T : Tree) (live : Nat → Prop) : Prop where
  view : FileView.Ready service.fileView
  sound : Sound x.world live T
  serves : x.Serves m
  mount : service.pathContext.mount = some m

theorem resolveRegular_spec (h : Ready service x m T live) (hy : Rested x y) {required : Nat} :
    wp (resolveRegular service commandCallbacks path required) (fun object z => (∃ text, OpensText x.world T m object text) ∧ Rested x z)
      (fun _ z => Rested x z) y := by
  have hc := h.sound.toConsistent
  have hresolve : wp (fileViewResolveDisplayPath service.fileView commandCallbacks.enumerate service.pathContext path)
      (fun object z => (Found x.world T m object ∨ object.kind = .directory) ∧ Rested x z) (fun _ z => Rested x z) y := by
    unfold fileViewResolveDisplayPath
    rw [wp_bind, wp_get]
    rcases hroot : y.registry.root with - | mount
    · exact hy
    dsimp only
    by_cases hrefused : service.pathContext.mount ≠ some mount ∨ service.pathContext.mountGeneration ≠ (y.mounts mount).generation
    · rw [failIf_bind hrefused]
      exact hy
    rw [failIf_pass hrefused]
    obtain rfl : m = mount := Option.some.inj (h.mount.symm.trans (not_not.mp (not_or.mp hrefused).1))
    rcases Vfs.pathNormalize service.pathContext.currentDirectory (some path) pathCapacity with e | normalized
    · exact hy
    rw [ofExcept_ok_bind]
    unfold resolveNormalizedDisplayPath
    rw [wp_bind, wp_get]
    obtain ⟨o, ho, hobject⟩ := (hy.serves h.serves).root
    rw [ho]
    dsimp only
    rw [show (y.objects o).identity = rootCluster from congrArg VfsObject.identity hobject]
    refine wp_mono (resolveDisplayFrom_found h.sound h.view h.serves hc.describes.linked.root hy) (fun object z ⟨hfound, hz⟩ => ⟨?_, hz⟩)
      fun _ _ hz => hz
    rcases hfound with hfound | rfl
    · exact Or.inl hfound
    · exact Or.inr rfl
  unfold resolveRegular
  rw [wp_bind]
  refine wp_mono hresolve (fun object z ⟨hfound, hz⟩ => ?_) fun _ _ hz => hz
  by_cases hk : object.kind = .regularFile
  swap
  · rw [failIf_bind hk]
    exact hz
  have hfile : Found x.world T m object := hfound.resolve_right fun hx => nomatch hk.symm.trans hx
  rw [failIf_pass (not_not.mpr hk), wp_bind, wp_get, wp_bind, wp_failIf]
  exact ⟨fun _ => hz, fun _ => ⟨found_opens hc hfile hk, hz⟩⟩

theorem readText_spec (h : Ready service x m T live) (hy : Rested x y) {text : Text} (ho : OpensText x.world T m object text)
    {offset : Nat} (hoffset : offset ≤ text.length) : wp (readText commandCallbacks object offset)
      (fun r t => r = ((text.drop offset).take fileCommandTextCheckChunk,
        offset + ((text.drop offset).take fileCommandTextCheckChunk).length == text.length) ∧ Rested x t)
      (fun _ t => ¬x.world.Room 1 ∧ Rested x t) y := by
  have hc := h.sound.toConsistent
  obtain ⟨d, entry, hd, hdenotes, hcontent⟩ := ho.holding
  have hyields := @Consistent.readObject_yields _ _ _ _ _ (hc.quiet hy.1) _ _ fileCommandTextCheckChunk hd (hy.1.denotes.mpr hdenotes)
    ((fileContent_quiet hy.1).trans hcontent) hoffset
  have hlen : ((text.drop offset).take fileCommandTextCheckChunk).length = min 256 (text.length - offset) := by
    rw [List.length_take, List.length_drop]
    rfl
  have hchunk : fileCommandTextCheckChunk = 256 := rfl
  unfold readText vfsReadObject
  rw [failIf_pass (by rw [ho.mount]; rintro (hx | hx | hx) <;> [exact nomatch hx; exact ho.identity hx; exact absurd hx (by decide)])]
  show wp (operation (some object.mount) false (FileService.readObject object.objectIdentity offset fileCommandTextCheckChunk) >>= _) _ _ y
  rw [ho.mount, wp_bind, (hy.serves h.serves).serving.wp_operation fun hx => Bool.false_ne_true hx.1]
  refine wp_mono hyields (fun r w ⟨hw, hr⟩ => ?_) fun e w ⟨hw, herror⟩ => ?_
  · cases hr
    dsimp only
    rw [failIf_pass]
    · exact ⟨rfl, hy.trans ⟨hw, rfl⟩⟩
    · rintro (hx | ⟨hx, hz⟩)
      · omega
      · rw [beq_eq_false_iff_ne] at hx
        omega
  · refine ⟨?_, hy.trans ⟨hw, rfl⟩⟩
    rcases herror with hx | ⟨-, hroom⟩
    · cases hx
    · exact fun hx => hroom (hy.1.wrote.room hx)

theorem validateExistingText_spec (h : Ready service x m T live) (hy : Rested x y) {text : Text} (ho : OpensText x.world T m object text) :
    wp (validateExistingText commandCallbacks object) (fun _ t => supportedTextBytes text = true ∧ Rested x t)
      (fun e t => Rested x t ∧ (¬x.world.Room 1 ∨ (supportedTextBytes text = false ∧ e = .unexpectedFormat))) y := by
  unfold validateExistingText
  rw [ho.size]
  refine wp_mono (textScan_spec (J := fun _ t => Rested x t) (E := fun _ t => ¬x.world.Room 1 ∧ Rested x t)
    ⟨by decide, fun offset z hoffset hz => readText_spec h hz ho hoffset, fun _ _ z hz _ => hz⟩ (ho.short.trans (by decide)) hy) (fun _ t ht => ht) fun e t he => ?_
  rcases he with ⟨hroom, ht⟩ | ⟨hunsupported, he, -, ht⟩
  · exact ⟨ht, Or.inl hroom⟩
  · exact ⟨ht, Or.inr ⟨hunsupported, he⟩⟩

theorem mutateObject_stores (h : Ready service x m T live) (hy : Rested x y) {text : Text} (ho : OpensText x.world T m object text)
    {append : Bool} {z : VfsSystem μ ρ FileService}
    (hrun : mutateObject (some object.mount) (some (if append then appendObject else replaceObject)) object.objectIdentity bytes y =
      (.ok (), z)) : ∃ t, Done y.world live (storing object.objectIdentity bytes append) none t ∧ z = y.withWorld t := by
  have hc := h.sound.toConsistent
  obtain ⟨d, entry, hd, hdenotes, -⟩ := ho.holding
  obtain ⟨i, p, hf, -, hidentity⟩ := hc.fileAt hd hdenotes
  obtain ⟨hsmall, -, haddressed⟩ := addressed_fileIdentity hc.mounted.laid (hc.valid_entries hd) hf.inRange
  have hserving := (hy.serves h.serves).serving
  unfold mutateObject at hrun
  obtain ⟨-, hrun⟩ := of_failIf_run hrun
  dsimp only at hrun
  rw [ho.mount] at hrun
  by_cases hstate : (y.mounts m).state ≠ .rw
  · have hbegin := hserving.begins true
    rw [if_pos ⟨rfl, hstate⟩] at hbegin
    unfold operation at hrun
    rw [bind_error hbegin] at hrun
    cases hrun
  rw [hserving.operation_run fun hx => hstate hx.2] at hrun
  obtain ⟨hok, rfl⟩ := Prod.mk.inj hrun
  refine ⟨_, ⟨⟨?_, ?_⟩, ?_⟩, rfl⟩
  · cases append <;> exact fun _ hx => absurd hx List.not_mem_nil
  · have hbound : object.objectIdentity < 2 ^ 64 ∧ (addressable y.world.mount.geometry object.objectIdentity →
        live (addressed y.world.mount.geometry object.objectIdentity).1) := by
      rw [hy.1.mount, hidentity, haddressed, h.sound.live]
      exact ⟨hsmall, fun _ => hd⟩
    cases append <;> exact fun identity hx => List.mem_singleton.mp hx ▸ hbound
  · cases append
    · exact bind_ok (Prod.ext hok rfl)
    · exact bind_ok (Prod.ext hok rfl)

theorem fileCommandAppend_spec (h : Ready service x m T live) {text : Text}
    (hresolve : resolveRegular service commandCallbacks path (vfsFileRead ||| vfsFileWrite) x = (.ok object, y)) (hy : Rested x y)
    (ho : OpensText x.world T m object text) : wp (fileCommandAppend service commandCallbacks path bytes)
      (fun _ z => (supportedTextBytes text = true ∧ supportedTextBytes bytes = true) ∧
        ∃ u, Rested x u ∧ ∃ t, Done u.world live (storing object.objectIdentity bytes true) none t ∧ z = u.withWorld t)
      (fun _ z => Rested x z ∨ (supportedTextBytes text = true ∧ supportedTextBytes bytes = true)) x := by
  unfold fileCommandAppend
  rw [wp_bind_ok hresolve]
  by_cases hbytes : supportedTextBytes bytes = true
  swap
  · rw [failIf_bind (Bool.eq_false_iff.mpr hbytes)]
    exact Or.inl hy
  rw [failIf_pass (by rw [hbytes]; decide), wp_bind]
  refine wp_mono (validateExistingText_spec h hy ho) (fun _ u ⟨htext, hu⟩ => ?_) fun _ u ⟨hu, _⟩ => Or.inl hu
  exact wp_iff.mpr ⟨fun _ z hrun => ⟨⟨htext, hbytes⟩, u, hu, mutateObject_stores h hu ho hrun⟩, fun _ _ _ => Or.inr ⟨htext, hbytes⟩⟩

theorem fileCommandWrite_spec (h : Ready service x m T live) {text : Text}
    (hresolve : resolveRegular service commandCallbacks path (vfsFileRead ||| vfsFileWrite) x = (.ok object, y)) (hy : Rested x y)
    (ho : OpensText x.world T m object text) : wp (fileCommandWrite service commandCallbacks path bytes)
      (fun _ z => (text = [] ∧ supportedTextBytes bytes = true) ∧
        ∃ u, Rested x u ∧ ∃ t, Done u.world live (storing object.objectIdentity bytes false) none t ∧ z = u.withWorld t)
      (fun _ z => Rested x z ∨ (text = [] ∧ supportedTextBytes bytes = true)) x := by
  unfold fileCommandWrite
  rw [wp_bind_ok hresolve]
  by_cases hrefused : object.byteSize ≠ 0 ∨ supportedTextBytes bytes = false
  · rw [failIf_bind hrefused]
    exact Or.inl hy
  rw [failIf_pass hrefused]
  rw [not_or, not_not, Bool.not_eq_false, ho.size, List.length_eq_zero_iff] at hrefused
  exact wp_iff.mpr ⟨fun _ z hrun => ⟨hrefused, y, hy, mutateObject_stores h hy ho hrun⟩, fun _ _ _ => Or.inr hrefused⟩

section Output
variable {out : List Text} {c : Commanding μ ρ FileService} {bytes : Text}

omit [DecidableEq μ] [DecidableEq ρ] in
theorem onSystem_ok {α : Type} {f : Program IosError (VfsSystem μ ρ FileService) α} {a : α} (h : f x = (.ok a, y)) :
    onSystem f ⟨out, x⟩ = (.ok a, ⟨out, y⟩) := by
  unfold onSystem zoom
  rw [h]

omit [DecidableEq μ] [DecidableEq ρ] in
theorem onSystem_error {α : Type} {f : Program IosError (VfsSystem μ ρ FileService) α} {e : IosError} (h : f x = (.error e, y)) :
    onSystem f ⟨out, x⟩ = (.error e, ⟨out, y⟩) := by
  unfold onSystem zoom
  rw [h]

theorem cString_supported (h : supportedTextBytes bytes = true) : Vfs.cString (bytes ++ [0]) = bytes := by
  unfold Vfs.cString
  rw [List.takeWhile_append_of_pos]
  · exact List.append_nil _
  · intro b hb
    have hsupported := List.all_eq_true.mp h b hb
    refine decide_eq_true fun hzero => ?_
    rw [hzero] at hsupported
    exact absurd hsupported (by decide)

def PutOut (x : VfsSystem μ ρ FileService) (out : List Text) (shown : Text) (c : Commanding μ ρ FileService) : Prop :=
  (∃ pieces, c.output = out ++ pieces ∧ pieces.flatten = shown) ∧ Rested x c.system

omit [DecidableEq μ] [DecidableEq ρ] in
theorem display_spec {shown : Text} (h : PutOut x out shown c) (hbytes : supportedTextBytes bytes = true) {E : IosError → Commanding μ ρ FileService → Prop} :
    wp (display bytes) (fun _ t => PutOut x out (shown ++ bytes) t) E c := by
  unfold display
  split
  · obtain ⟨⟨pieces, hpieces, hshown⟩, hc⟩ := h
    refine ⟨⟨pieces ++ [bytes], ?_, ?_⟩, hc⟩
    · dsimp only
      rw [hpieces, cString_supported hbytes, List.append_assoc]
    · rw [List.flatten_append, hshown, List.flatten_singleton]
  · rename_i hempty
    rw [List.length_eq_zero_iff.mp (not_not.mp hempty), List.append_nil]
    exact h

theorem fileCommandCat_spec (h : Ready service x m T live) {text : Text}
    (hresolve : resolveRegular service commandCallbacks path vfsFileRead x = (.ok object, y)) (hy : Rested x y)
    (ho : OpensText x.world T m object text) : wp (fileCommandCat service commandCallbacks path)
      (fun _ t => supportedTextBytes text = true ∧ PutOut x out text t)
      (fun e t => ¬x.world.Room 1 ∨ (supportedTextBytes text = false ∧ e = .unexpectedFormat ∧ t.output = out)) ⟨out, x⟩ := by
  unfold fileCommandCat
  rw [wp_bind_ok (onSystem_ok hresolve), wp_bind, onSystem, wp_zoom]
  refine wp_mono (validateExistingText_spec h hy ho) (fun _ u ⟨htext, hu⟩ => ?_) fun e u ⟨_, herror⟩ => ?_
  · -- The check went through the whole text, so the second scan stops only at an error of a read.
    rw [ho.size]
    have hchunk : 0 < fileCommandTextCheckChunk := by decide
    refine wp_mono (textScan_spec (J := PutOut x out) (E := fun _ _ => ¬x.world.Room 1)
      ⟨hchunk, fun offset c hoffset hc => ?_, fun shown bytes c hc hbytes => display_spec hc hbytes⟩ (ho.short.trans (by decide)) ⟨⟨[], (List.append_nil _).symm, rfl⟩, hu⟩)
      (fun _ t ht => ht) fun e t he => ?_
    · rw [onSystem, wp_zoom]
      exact wp_mono (readText_spec h hc.2 ho hoffset) (fun r t ⟨hr, ht⟩ => ⟨hr, hc.1, ht⟩) fun _ _ he => he.1
    · rcases he with hroom | ⟨hunsupported, -⟩
      · exact Or.inl hroom
      · rw [htext] at hunsupported
        cases hunsupported
  · exact herror.imp_right fun hx => ⟨hx.1, hx.2, rfl⟩

end Output

/-- The bytes that the log gives to a file. -/
def given (identity : Nat) (log : List (Nat × Text)) : Text := (log.filter (·.1 = identity)).flatMap Prod.snd

theorem given_append {log' : List (Nat × Text)} : given identity (log ++ log') = given identity log ++ given identity log' := by
  unfold given
  rw [List.filter_append, List.flatMap_append]

theorem given_single {other : Nat} : given identity [(other, bytes)] = if identity = other then bytes else [] := by
  unfold given
  by_cases h : other = identity
  · rw [List.filter_eq_self.mpr fun pair hp => by rw [List.mem_singleton.mp hp]; exact decide_eq_true h, if_pos h.symm]
    exact List.append_nil _
  · rw [List.filter_eq_nil_iff.mpr fun pair hp hx => by rw [List.mem_singleton.mp hp] at hx; exact h (of_decide_eq_true hx),
      if_neg fun hx => h hx.symm]
    rfl

/-- Runs of write and append commands that succeed, of any paths, on mount `m`: the log has the identities of the files that the paths
    led to and the bytes. In between the volume may be read. -/
inductive TextRun (m : μ) (x : VfsSystem μ ρ FileService) : List (Nat × Text) → VfsSystem μ ρ FileService → Prop where
  | start : TextRun m x [] x
  | read {log : List (Nat × Text)} {y z : VfsSystem μ ρ FileService} : TextRun m x log y → Rested y z → TextRun m x log z
  | write {log : List (Nat × Text)} {y z : VfsSystem μ ρ FileService} {service : FileCommandService μ} {path bytes : Text}
    {object : ResolvedObject μ} : TextRun m x log y → FileView.Ready service.fileView → service.pathContext.mount = some m →
    (resolveRegular service commandCallbacks path (vfsFileRead ||| vfsFileWrite) y).1 = .ok object →
    fileCommandWrite service commandCallbacks path bytes y = (.ok (), z) → TextRun m x (log ++ [(object.objectIdentity, bytes)]) z
  | append {log : List (Nat × Text)} {y z : VfsSystem μ ρ FileService} {service : FileCommandService μ} {path bytes : Text}
    {object : ResolvedObject μ} : TextRun m x log y → FileView.Ready service.fileView → service.pathContext.mount = some m →
    (resolveRegular service commandCallbacks path (vfsFileRead ||| vfsFileWrite) y).1 = .ok object →
    fileCommandAppend service commandCallbacks path bytes y = (.ok (), z) → TextRun m x (log ++ [(object.objectIdentity, bytes)]) z

structure Kept (m : μ) (x : VfsSystem μ ρ FileService) (live : Nat → Prop) (log : List (Nat × Text)) (y : VfsSystem μ ρ FileService) : Prop where
  sound : ∃ T, Sound y.world live T
  serves : y.Serves m
  holding : ∀ identity text, Holding x.world live identity text → Holding y.world live identity (text ++ given identity log)

omit [DecidableEq μ] [DecidableEq ρ] in
theorem Kept.rested {z : VfsSystem μ ρ FileService} (h : Kept m x live log y) (hz : Rested y z) : Kept m x live log z := by
  obtain ⟨T, hT⟩ := h.sound
  exact ⟨⟨T, sound_read hT hz.1⟩, hz.serves h.serves, fun identity text hx => hz.1.holding (h.holding identity text hx)⟩

omit [DecidableEq μ] [DecidableEq ρ] in
theorem Kept.stored {append : Bool} {t : FileService} (h : Kept m x live log y)
    (hd : Done y.world live (storing identity bytes append) none t) (hempty : append = false → Holding y.world live identity []) :
    Kept m x live (log ++ [(identity, bytes)]) (y.withWorld t) := by
  obtain ⟨T, hT⟩ := h.sound
  obtain ⟨T', hT', -⟩ := hT.done hd
  rw [after_storing] at hT'
  refine ⟨⟨T', hT'⟩, h.serves.withWorld t, fun other text hx => ?_⟩
  have hheld := h.holding other text hx
  have hlive := hT.live
  subst hlive
  have hstored := hd.stored hT.toConsistent hheld
  rw [given_append, given_single, ← List.append_assoc]
  split at hstored
  · rename_i hother
    rw [if_pos hother]
    cases append
    · rw [hT.toConsistent.holding_unique hheld (hother ▸ hempty rfl)]
      exact hstored
    · exact hstored
  · rename_i hother
    rw [if_neg hother, List.append_nil]
    exact hstored

theorem TextRun.kept (hrun : TextRun m x log y) (hT : Sound x.world live T) (hserves : x.Serves m) : Kept m x live log y := by
  induction hrun with
  | start => exact ⟨⟨T, hT⟩, hserves, fun identity text hx => by rwa [show given identity [] = [] from rfl, List.append_nil]⟩
  | read _ hz ih => exact ih.rested hz
  | @write log y z service path bytes object _ hview hmount hresolve hwrite ih =>
    obtain ⟨T', hT'⟩ := ih.sound
    have hready : Ready service y m T' live := ⟨hview, hT', ih.serves, hmount⟩
    obtain ⟨⟨text, ho⟩, hy⟩ := wp_ok (resolveRegular_spec hready ⟨.refl hT'.mounted, rfl⟩) (run_eq hresolve)
    obtain ⟨⟨rfl, -⟩, u, hu, t, hd, rfl⟩ := wp_ok (fileCommandWrite_spec hready (run_eq hresolve) hy ho) hwrite
    refine (ih.rested hu).stored hd fun _ => ?_
    rw [hT'.live]
    exact hu.1.holding ho.holding
  | @append log y z service path bytes object _ hview hmount hresolve hwrite ih =>
    obtain ⟨T', hT'⟩ := ih.sound
    have hready : Ready service y m T' live := ⟨hview, hT', ih.serves, hmount⟩
    obtain ⟨⟨text, ho⟩, hy⟩ := wp_ok (resolveRegular_spec hready ⟨.refl hT'.mounted, rfl⟩) (run_eq hresolve)
    obtain ⟨-, u, hu, t, hd, rfl⟩ := wp_ok (fileCommandAppend_spec hready (run_eq hresolve) hy ho) hwrite
    exact (ih.rested hu).stored hd nofun

/-- What the text commands do in a state of a console. -/
structure TextCommands (service : FileCommandService μ) (m : μ) (x : VfsSystem μ ρ FileService) (live : Nat → Prop) : Prop where
  /-- All of a text that is supported is put out, and nothing of another one. -/
  cat : x.world.Room 1 → ∀ path out object, (resolveRegular service commandCallbacks path vfsFileRead x).1 = .ok object →
    ∃ text, Holding x.world live object.objectIdentity text ∧
      (supportedTextBytes text = true → ∃ pieces y, fileCommandCat service commandCallbacks path ⟨out, x⟩ = (.ok (), ⟨out ++ pieces, y⟩) ∧
        pieces.flatten = text) ∧
      (supportedTextBytes text = false → ∃ y, fileCommandCat service commandCallbacks path ⟨out, x⟩ = (.error .unexpectedFormat, ⟨out, y⟩))
  /-- Nothing is put out when there is no file to read. -/
  missing : ∀ path out e, (resolveRegular service commandCallbacks path vfsFileRead x).1 = .error e →
    ∃ y, fileCommandCat service commandCallbacks path ⟨out, x⟩ = (.error e, ⟨out, y⟩)
  /-- A volume that an append changes has a file whose text is supported like the new bytes. -/
  append : ∀ path bytes, Quiet x.world (fileCommandAppend service commandCallbacks path bytes x).2.world ∧
      (fileCommandAppend service commandCallbacks path bytes x).1 ≠ .ok () ∨
    ∃ object text, (resolveRegular service commandCallbacks path (vfsFileRead ||| vfsFileWrite) x).1 = .ok object ∧
      Holding x.world live object.objectIdentity text ∧ supportedTextBytes text = true ∧ supportedTextBytes bytes = true
  /-- A volume that a write changes has an empty file, and the new bytes are supported. -/
  write : ∀ path bytes, Quiet x.world (fileCommandWrite service commandCallbacks path bytes x).2.world ∧
      (fileCommandWrite service commandCallbacks path bytes x).1 ≠ .ok () ∨
    ∃ object, (resolveRegular service commandCallbacks path (vfsFileRead ||| vfsFileWrite) x).1 = .ok object ∧
      Holding x.world live object.objectIdentity [] ∧ supportedTextBytes bytes = true
  /-- The text of a file after a run is the old one and the bytes that were given to it. -/
  runs : ∀ log y, TextRun m x log y → ∀ identity text, Holding x.world live identity text →
    Holding y.world live identity (text ++ given identity log)

theorem Ready.cat (h : Ready service x m T live) (hroom : x.world.Room 1) {out : List Text}
    (hresolve : (resolveRegular service commandCallbacks path vfsFileRead x).1 = .ok object) :
    ∃ text, Holding x.world live object.objectIdentity text ∧
      (supportedTextBytes text = true → ∃ pieces y, fileCommandCat service commandCallbacks path ⟨out, x⟩ = (.ok (), ⟨out ++ pieces, y⟩) ∧
        pieces.flatten = text) ∧
      (supportedTextBytes text = false →
        ∃ y, fileCommandCat service commandCallbacks path ⟨out, x⟩ = (.error .unexpectedFormat, ⟨out, y⟩)) := by
  obtain ⟨⟨text, ho⟩, hy⟩ := wp_ok (resolveRegular_spec h ⟨.refl h.sound.mounted, rfl⟩) (run_eq hresolve)
  refine ⟨text, h.sound.live ▸ ho.holding, ?_⟩
  have hcat : wp (fileCommandCat service commandCallbacks path) _ _ ⟨out, x⟩ := fileCommandCat_spec h (run_eq hresolve) hy ho
  rcases hrun : fileCommandCat service commandCallbacks path ⟨out, x⟩ with ⟨e | _, output, y⟩
  · obtain ⟨hunsupported, rfl, hout⟩ := (wp_error hcat hrun).resolve_left (not_not.mpr hroom)
    refine ⟨fun hsupported => ?_, fun _ => ⟨y, by rw [show output = out from hout]⟩⟩
    rw [hunsupported] at hsupported
    cases hsupported
  · obtain ⟨hsupported, ⟨pieces, hpieces, htext⟩, -⟩ := wp_ok hcat hrun
    refine ⟨fun _ => ⟨pieces, y, by rw [show output = out ++ pieces from hpieces], htext⟩, fun hunsupported => ?_⟩
    rw [hunsupported] at hsupported
    cases hsupported

theorem Ready.changes (h : Ready service x m T live) {f : Program IosError (VfsSystem μ ρ FileService) Unit}
    {g : ResolvedObject μ → Program IosError (VfsSystem μ ρ FileService) Unit}
    (hf : f = resolveRegular service commandCallbacks path (vfsFileRead ||| vfsFileWrite) >>= g) {P : Text → Prop}
    {Q : ResolvedObject μ → VfsSystem μ ρ FileService → Prop}
    (hspec : ∀ object y text, resolveRegular service commandCallbacks path (vfsFileRead ||| vfsFileWrite) x = (.ok object, y) →
      Rested x y → OpensText x.world T m object text → wp f (fun _ z => P text ∧ Q object z) (fun _ z => Rested x z ∨ P text) x) :
    (Quiet x.world (f x).2.world ∧ (f x).1 ≠ .ok ()) ∨
      ∃ object text, (resolveRegular service commandCallbacks path (vfsFileRead ||| vfsFileWrite) x).1 = .ok object ∧
        Holding x.world live object.objectIdentity text ∧ P text := by
  have hchecked : wp (resolveRegular service commandCallbacks path (vfsFileRead ||| vfsFileWrite)) _ _ x := resolveRegular_spec h ⟨.refl h.sound.mounted, rfl⟩
  rcases hresolve : resolveRegular service commandCallbacks path (vfsFileRead ||| vfsFileWrite) x with ⟨e | object, y⟩
  · have hy := wp_error hchecked hresolve
    have hrun : f x = (.error e, y) := hf ▸ bind_error hresolve
    rw [hrun]
    exact Or.inl ⟨hy.1, nofun⟩
  obtain ⟨⟨text, ho⟩, hy⟩ := wp_ok hchecked hresolve
  have hresult := hspec object y text hresolve hy ho
  have hfile : P text →
      ∃ object' text, (Except.ok object : Except IosError (ResolvedObject μ)) = .ok object' ∧ Holding x.world live object'.objectIdentity text ∧ P text :=
    fun hP => ⟨object, text, rfl, h.sound.live ▸ ho.holding, hP⟩
  rcases hrun : f x with ⟨e | _, z⟩
  · rcases wp_error hresult hrun with hz | hP
    · exact Or.inl ⟨hz.1, nofun⟩
    · exact Or.inr (hfile hP)
  · have hP := wp_ok hresult hrun
    exact Or.inr (hfile hP.1)

theorem textCommands_exact {view : FileViewService} {context : MountedContext μ} (hview : FileView.Ready view)
    (hrun : ConsoleRun m x context live) : TextCommands ⟨view, context⟩ m x live := by
  obtain ⟨⟨T, hT⟩, hserves, hmount, -⟩ := hrun.console
  have hready : Ready ⟨view, context⟩ x m T live := ⟨hview, hT, hserves, hmount⟩
  constructor
  case cat => exact fun hroom path out object hresolve => hready.cat hroom hresolve
  case missing =>
    intro path out e hresolve
    have hstop : onSystem _ ⟨out, x⟩ = _ := onSystem_error (run_eq hresolve)
    exact ⟨_, bind_error hstop⟩
  case append =>
    intro path bytes
    rcases hready.changes (f := fileCommandAppend ⟨view, context⟩ commandCallbacks path bytes) rfl
      fun object y text hresolve hy ho => fileCommandAppend_spec hready hresolve hy ho with
      hquiet | ⟨object, text, hobject, hholding, htext⟩
    · exact Or.inl hquiet
    · exact Or.inr ⟨object, text, hobject, hholding, htext⟩
  case write =>
    intro path bytes
    rcases hready.changes (f := fileCommandWrite ⟨view, context⟩ commandCallbacks path bytes) rfl
      fun object y text hresolve hy ho => fileCommandWrite_spec hready hresolve hy ho with
      hquiet | ⟨object, text, hobject, hholding, rfl, hbytes⟩
    · exact Or.inl hquiet
    · exact Or.inr ⟨object, hobject, hholding, hbytes⟩
  case runs => exact fun log y htext => (htext.kept hT hserves).holding

/-- The console reached a volume with an empty file, and the commands work there. -/
theorem textCommands_created : ∃ (x : VfsSystem (Fin 1) Unit FileService) (live : Nat → Prop) (identity : Nat),
    ConsoleRun 0 x consoleContext live ∧ x.world.Room 1 ∧ Holding x.world live identity [] ∧
      TextCommands ⟨plainService, consoleContext⟩ 0 x live := by
  obtain ⟨s, t, k, ho, hk, hdone, ht, hable, -⟩ := exists_created
  have hc := ht.toConsistent
  have hrun : ConsoleRun 0 (consoleSystem t) consoleContext (· = rootCluster) :=
    .done (x := consoleSystem s) (.started ho (consoleSystem_serves s) rfl) hdone
  have hroot : (createdTree k).dirs rootCluster := rfl
  have hitem : (createdTree k).items rootCluster (k + 1) = .file (newFile sampleName) := by
    rw [createdTree, Tree.setPair_items, if_pos ⟨rfl, rfl⟩]
  have hdenotes : Denotes t (fileIdentity t.mount.geometry rootCluster (k + 1)) rootCluster (fileEntry (newFile sampleName) (k + 1)) :=
    ⟨_, hc.lists_file hroot hk hitem, rfl, rfl⟩
  obtain ⟨text, ⟨d, entry, hd, hheld, hcontent⟩, hempty⟩ := hc.holding hroot hdenotes
  have htext : text = [] := List.length_eq_zero_iff.mp (fileContent_length hempty)
  subst htext
  exact ⟨consoleSystem t, _, _, hrun, (hable.mono (show 0 ≤ 2 ^ 62 by decide) (show 1 ≤ 256 by decide)).room,
    ⟨d, entry, hd, hheld, hcontent⟩, textCommands_exact plainService_ready hrun⟩

end Commands

end FileCommand
end InferenceOS
