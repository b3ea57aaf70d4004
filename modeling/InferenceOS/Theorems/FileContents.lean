import InferenceOS.Theorems.Appending
import InferenceOS.Theorems.Identities

/-! The bytes of the files of a volume. A call changes the content of the file that it saves, and of no other. -/

namespace InferenceOS
open Program FileService

/-- What a change makes of the content of the file in slot `i` of directory `d`. -/
def Change.content (d i : Nat) (text : Text) : Change → Text
  | .save e j _ _ bytes append => if d = e ∧ i = j then (if append then text else []) ++ bytes else text
  | _ => text

namespace FileService
variable {s t : FileService} {live : Nat → Prop} {T : Tree} {r : Request} {v : Option VfsObject} {d i e j : Nat} {p q : Primary}
variable {identity : Nat} {bytes : Text} {append : Bool}
  {l m : List Nat} {text : Text} {entry : DirectoryEntry}

theorem collected_content (hn : Fat.validEntryCount s.fatEntryCount) (hc : Content s.fat s.fatEntryCount p l) :
    s.collected p = .ok l := by
  have hlen := hc.length
  unfold collected
  split
  · rename_i hz
    have hnil : l = [] := by
      rw [hz] at hlen
      exact List.length_eq_zero_iff.mp hlen
    rcases hc.chain with ⟨hp, -⟩ | ⟨-, hch⟩
    · rw [if_neg (not_not.mpr hp), hnil]
    · exact absurd hnil hch.ne_nil
  · rename_i hz
    rcases hc.chain with ⟨-, rfl⟩ | ⟨-, hch⟩
    · rw [List.length_nil] at hlen
      unfold clusterSize at hlen
      omega
    · exact Fat.traverse_eq_ok.mpr ⟨hn, by decide, hch, hc.nodup, hc.fits⟩

theorem content_le (hc : Content s.fat s.fatEntryCount p l) : p.fileSize ≤ l.length * clusterSize := by
  rw [hc.length]
  unfold clusterSize
  omega

theorem fileContent_of_collected (hl : s.collected p = .ok l) (hle : p.fileSize ≤ l.length * clusterSize) :
    s.fileContent p = .ok ((clusterText s.disk l).take p.fileSize) := by
  unfold fileContent
  rw [hl]
  exact if_neg (not_lt.mpr hle)

theorem Consistent.fileContent (h : Consistent s T) (hf : T.FileAt d i p l) :
    s.fileContent p = .ok ((clusterText s.disk l).take p.fileSize) := by
  have hc := h.content hf.dir hf.inRange hf.item
  rw [hf.chain] at hc
  exact fileContent_of_collected (collected_content h.mounted.validEntryCount hc) (content_le hc)

theorem fileContent_length (h : s.fileContent p = .ok text) : text.length = p.fileSize := by
  unfold FileService.fileContent at h
  obtain ⟨clusters, -, h⟩ := of_bind_ok h
  split at h
  · cases h
  · cases h
    rw [List.length_take, length_clusterText]
    omega

theorem fileContent_quiet (hq : Quiet s t) : t.fileContent p = s.fileContent p := by
  unfold FileService.fileContent
  rw [collected_congr hq.fat hq.fatEntryCount, hq.disk]

theorem clusterText_kept {D D' : Disk} (h : ∀ c ∈ l, D'.data c = D.data c) : clusterText D' l = clusterText D l := by
  unfold clusterText
  rw [List.map_congr_left h]

theorem Consistent.becomes_content {α : Type} {plan : Plan α} {ch : Change} (h : Consistent s T) (hs : plan.Sensible s T ch)
    (ht : Consistent t plan.tree) (hdisk : t.disk = plan.stages.getLastD s.disk) (hf : T.FileAt d i p l)
    (hf' : plan.tree.FileAt e j q m) (hb : Becomes d i p l ch e j q m) (hold : s.fileContent p = .ok text) :
    t.fileContent q = .ok (ch.content d i text) := by
  have hcontent := h.describes.owned.content hf.dir hf.inRange hf.item
  rw [hf.chain] at hcontent
  have hkept : clusterText t.disk l = clusterText s.disk l := clusterText_kept fun c hc => by
    obtain ⟨-, hused⟩ := hcontent.used c hc
    rw [hdisk]
    exact hs.kept c (h.describes.owned.apart ⟨hf.dir, hf.inRange, hf.chain.symm ▸ hc, p, hf.item⟩) hused
  rw [h.fileContent hf] at hold
  have htext := Except.ok.inj hold
  have hnew := ht.fileContent hf'
  cases hb with
  | kept hspare =>
    rw [hnew, hkept, htext]
    refine congrArg Except.ok ?_
    cases ch with
    | save => exact (if_neg hspare).symm
    | _ => rfl
  | renamed =>
    rw [hnew, hkept]
    exact congrArg Except.ok htext
  | relocated =>
    rw [hnew, hkept]
    exact congrArg Except.ok htext
  | @saved m bytes append =>
    have hstored := hs.stored _ _ _ _ _ _ rfl
    rw [hf.chain, ← hdisk] at hstored
    have hle := content_le (h.content hf.dir hf.inRange hf.item)
    rw [hf.chain] at hle
    have hsaved : savedText s.disk l p.fileSize bytes append = (if append then text else []) ++ bytes := by
      rw [savedText, keptText_of_le hle, htext]
    have hsize : (savedText s.disk l p.fileSize bytes append).length = savedSize p bytes append := by
      rw [length_savedText]
      cases append
      · exact Nat.zero_add _
      · rfl
    have hroom := content_le (ht.content hf'.dir hf'.inRange hf'.item)
    rw [hf'.chain] at hroom
    have hbytes := clusterText_saved hstored (hsize.le.trans hroom)
    rw [hsize] at hbytes
    rw [hnew]
    show Except.ok ((clusterText t.disk m).take (savedSize p bytes append)) = .ok (if d = d ∧ i = i then _ else _)
    rw [hbytes, if_pos ⟨rfl, rfl⟩, hsaved]

def Holding (s : FileService) (live : Nat → Prop) (identity : Nat) (text : Text) : Prop :=
  ∃ d entry, live d ∧ Denotes s identity d entry ∧ s.fileContent entry.primary = .ok text

theorem Consistent.fileAt (h : Consistent s T) (hd : T.dirs d) (hi : Denotes s identity d entry) :
    ∃ i p, T.FileAt d i p (T.chain d i) ∧ entry = fileEntry p i ∧ identity = fileIdentity s.mount.geometry d i := by
  obtain ⟨c, hl, hk, rfl⟩ := hi
  obtain ⟨rfl, he⟩ := (h.lists hd).mp hl
  cases he with
  | directory => cases hk
  | file hi hp => exact ⟨_, _, ⟨hd, hi, hp, rfl⟩, rfl, rfl⟩

theorem Consistent.holding (h : Consistent s T) (hd : T.dirs d) (hi : Denotes s identity d entry) :
    ∃ text, Holding s T.dirs identity text ∧ s.fileContent entry.primary = .ok text := by
  obtain ⟨i, p, hf, rfl, -⟩ := h.fileAt hd hi
  exact ⟨_, ⟨d, _, hd, hi, h.fileContent hf⟩, h.fileContent hf⟩

theorem Consistent.holding_unique (h : Consistent s T) {text' : Text} (hx : Holding s T.dirs identity text)
    (hy : Holding s T.dirs identity text') : text = text' := by
  obtain ⟨d, entry, hd, hi, hc⟩ := hx
  obtain ⟨d', entry', hd', hi', hc'⟩ := hy
  obtain ⟨rfl, rfl⟩ := h.denotes_unique hd hd' hi hi'
  exact Except.ok.inj (hc.symm.trans hc')

theorem Quiet.holding (h : Quiet s t) (hx : Holding s live identity text) : Holding t live identity text := by
  obtain ⟨d, entry, hd, hi, hc⟩ := hx
  exact ⟨d, entry, hd, h.denotes.mpr hi, by rw [fileContent_quiet h, hc]⟩

theorem regular_of_lists {c : Nat} (hl : Lists s d c entry) (hk : entry.kind = .regular) : Regular (locatedIn s.disk c entry) := by
  obtain ⟨clusters, entries, -, -, hscan, hmem, -⟩ := hl
  exact slotEntry_regular (directoryScan_entries hscan entry hmem) hk

theorem Consistent.readObject_yields (h : Consistent s T) {identity offset capacity : Nat} (hd : T.dirs d) (hi : Denotes s identity d entry)
    (htext : s.fileContent entry.primary = .ok text) (hoffset : offset ≤ text.length) :
    Yields (readObject identity offset capacity) s
      (.ok ((text.drop offset).take capacity, offset + ((text.drop offset).take capacity).length == text.length)) := by
  have hlength := fileContent_length htext
  obtain ⟨i, p, hf, rfl, rfl⟩ := h.fileAt hd hi
  have hregular := regular_of_lists (h.lists_file hf.dir hf.inRange hf.item) rfl
  have hlocates := h.locates hd hf.inRange hf.item
  have hpos : fileIdentity s.mount.geometry d i ≠ 0 := by
    obtain ⟨-, ha, -⟩ := addressed_fileIdentity h.mounted.laid (h.valid_entries hd) hf.inRange
    intro hz
    rw [hz] at ha
    exact absurd ha.1 (by decide)
  have hfull := @readSlice_of_content _ _ _ _ capacity htext (hoffset.trans hlength.le)
  rw [← hlength] at hfull
  unfold readObject
  rw [failIf_pass hpos]
  rcases hsel : select none (fileIdentity s.mount.geometry d i) s with ⟨e | located, u⟩
  · have hstop := wp_error hlocates hsel
    have hrun : readContent none (fileIdentity s.mount.geometry d i) offset capacity s = (.error e, u) :=
      (bind_ok (validateService_pass h.initialized)).trans (bind_error hsel)
    unfold Yields wp
    rw [hrun]
    exact ⟨hstop.1, Or.inr (hstop.2.resolve_left nofun)⟩
  · obtain ⟨-, hsame⟩ := wp_ok hlocates hsel
    cases hsame
    exact (readContent_yields h.mounted h.initialized hsel hregular (hoffset.trans hlength.le)).congr hfull

theorem Done.holding (h : Consistent s T) (hd : Done s T.dirs r v t) (hx : Holding s T.dirs identity text)
    (hremove : ∀ d entry, Denotes s identity d entry → ¬r.Does s T.dirs (.remove d entry))
    (hmove : ∀ d entry d' name, Denotes s identity d entry → ¬r.Does s T.dirs (.rename d entry d' name)) :
    ((∀ d entry bytes append, Denotes s identity d entry → ¬r.Does s T.dirs (.save d entry bytes append)) →
      Holding t (r.after s T.dirs v) identity text) ∧
    ∀ d entry bytes append, Denotes s identity d entry → r.Does s T.dirs (.save d entry bytes append) →
      Holding t (r.after s T.dirs v) identity ((if append then text else []) ++ bytes) := by
  obtain ⟨plan, ch, rfl, hsens, hmakes, hwent, hc, hdirs⟩ := hd.sound h
  obtain ⟨d, entry, hlive, hdenotes, hcontent⟩ := hx
  obtain ⟨i, p, hf, rfl, rfl⟩ := h.fileAt hlive hdenotes
  have hfiles := fun {e j q m} => @TreeStep.files T plan.tree ch e j q m hsens.step h.describes.linked h.describes.tidy
  have goes : ∀ {q m}, Becomes d i p (T.chain d i) ch d i q m →
      Holding t (r.after s T.dirs plan.value) (fileIdentity s.mount.geometry d i) (ch.content d i text) := by
    intro q m hb
    have hf' := hfiles.mpr (Or.inr ⟨_, _, _, _, hf, hb⟩)
    refine ⟨d, fileEntry q i, hdirs ▸ hf'.dir, ⟨d, hc.lists_file hf'.dir hf'.inRange hf'.item, rfl, ?_⟩,
      h.becomes_content hsens hc hwent.disk hf hf' hb hcontent⟩
    rw [hwent.mount]
    rfl
  have hsame : ∀ e entry, Denotes s (fileIdentity s.mount.geometry d i) e entry → T.dirs e → e = d ∧ entry = fileEntry p i := by
    intro e entry he hed
    obtain ⟨rfl, rfl⟩ := h.denotes_unique hlive hed hdenotes he
    exact ⟨rfl, rfl⟩
  rcases hsens.step.becomes hf with rfl | ⟨e, j, q, m, hb⟩
  · exact absurd ⟨hlive, hmakes⟩ (hremove _ _ hdenotes)
  have hplace : e = d ∧ j = i := by
    cases hb with
    | kept => exact ⟨rfl, rfl⟩
    | saved => exact ⟨rfl, rfl⟩
    | renamed => exact absurd ⟨hlive, hmakes⟩ (hmove _ _ _ _ hdenotes)
    | relocated => exact absurd ⟨hlive, hmakes.1⟩ (hmove _ _ _ _ hdenotes)
  obtain ⟨rfl, rfl⟩ := hplace
  have hholds := goes hb
  constructor
  · intro hno
    cases hb with
    | kept hspare =>
      have hkept : ch.content e j text = text := by
        cases ch with
        | save => exact if_neg hspare
        | _ => rfl
      rwa [hkept] at hholds
    | saved => exact absurd ⟨hlive, hmakes⟩ (hno _ _ _ _ hdenotes)
    | renamed => exact hholds
    | relocated => exact hholds
  · rintro e' entry bytes append he hsaves
    obtain ⟨rfl, rfl⟩ := hsame e' entry he hsaves.1
    obtain ⟨l, rfl⟩ := (h.fits hsens.step hmakes hsaves).of_save
    have hsaved : Change.content e' j text (.save e' j p l bytes append) = (if append then text else []) ++ bytes := if_pos ⟨rfl, rfl⟩
    rwa [hsaved] at hholds

def storing (identity : Nat) (bytes : Text) (append : Bool) : Request :=
  if append then .appendObject identity bytes else .replaceObject identity bytes

theorem saves_storing {content : Text} {more : Bool} :
    (storing identity bytes append).Saves s d entry content more ↔ Denotes s identity d entry ∧ content = bytes ∧ more = append := by
  cases append <;> exact Iff.rfl

theorem not_removes_storing : ¬(storing identity bytes append).Removes s d entry := by
  cases append <;> exact id

theorem not_renames_storing {d' : Nat} {name : Name} : ¬(storing identity bytes append).Renames s d entry d' name := by
  cases append <;> exact id

theorem after_storing : (storing identity bytes append).after s live v = live := by
  cases append <;> rfl

theorem Done.stored (h : Consistent s T) {other : Nat} (hd : Done s T.dirs (storing identity bytes append) v t) (hx : Holding s T.dirs other text) :
    Holding t T.dirs other (if other = identity then (if append then text else []) ++ bytes else text) := by
  obtain ⟨hkept, hsaved⟩ := hd.holding h hx (fun _ _ _ hremove => not_removes_storing hremove.2)
    (fun _ _ _ _ _ hmove => not_renames_storing hmove.2)
  rw [after_storing] at hkept hsaved
  obtain ⟨d, entry, hlive, hdenotes, -⟩ := hx
  by_cases hother : other = identity
  · subst hother
    rw [if_pos rfl]
    exact hsaved d entry bytes append hdenotes ⟨hlive, saves_storing.mpr ⟨hdenotes, rfl, rfl⟩⟩
  · rw [if_neg hother]
    refine hkept fun d' entry' content more hdenotes' hsave => hother ?_
    obtain ⟨hnamed, -⟩ := saves_storing.mp hsave.2
    obtain ⟨i, p, -, rfl, hidentity⟩ := h.fileAt hsave.1 hdenotes'
    obtain ⟨j, q, -, heq, hidentity'⟩ := h.fileAt hsave.1 hnamed
    rw [hidentity, hidentity', (DirectoryEntry.mk.inj heq).2.1]

end FileService
end InferenceOS
