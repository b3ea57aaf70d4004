import InferenceOS.Theorems.Commits
import InferenceOS.Theorems.Tree

/-! The pairs of records of files on the disk: what the writes of a commit, of a deletion and of a move make
    of the tree. -/

namespace InferenceOS
open FileService
variable {D : Disk} {e : Nat} {r : Slot} {p : Primary}

variable {T : Tree} {d k : Nat}

theorem committed_slot {j : Nat} {fat : Nat → Nat} (hk : k + 1 < 128) :
    slotAt ((((D.record d k r).table fat).committed d (k + 1) k p).data e) j =
      if e = d ∧ j = k then companionRecord true p.name else if e = d ∧ j = k + 1 then primaryBytes p
      else slotAt (D.data e) j := by
  unfold Disk.committed
  rw [Disk.record_slot (by omega), Disk.record_slot hk, Disk.table_data, Disk.record_slot (by omega)]
  by_cases h₁ : e = d ∧ j = k
  · rw [if_pos h₁, if_pos h₁]
  · rw [if_neg h₁, if_neg h₁, if_neg h₁]

theorem committed_data {fat : Nat → Nat} (hk : k + 1 < 128) (he : e ≠ d) :
    (((D.record d k r).table fat).committed d (k + 1) k p).data e = D.data e :=
  slotAt_ext fun j _ => by rw [committed_slot hk, if_neg fun hx => he hx.1, if_neg fun hx => he hx.1]

theorem Describes.commit {n : Nat} {D Dw : Disk} {p : Primary} {r : Slot} {fat fat' : Nat → Nat} {l l' : List Nat}
    (h : Describes n D T) (hd : T.dirs d) (hw : Writable (T.items d) k)
    (hnew : NewPair (T.items d) k (.companion p.name) (.file p)) (hold : ∀ c, T.Owns c d (k + 1) ↔ c ∈ l)
    (hsame : ∀ e j, T.dirs e → j < 128 → ¬(e = d ∧ j = k) → slotAt (Dw.data e) j = slotAt (D.data e) j)
    (hcontent : Content fat n p l')
    (hfresh : ∀ c ∈ l', c ∈ l ∨ D.fat c = Fat.free ∧ ¬T.dirs c) (hgone : ∀ c ∈ l, c ∉ l' → fat c = Fat.free)
    (hframe : ∀ c, c ∉ l → c ∉ l' → fat c = D.fat c) :
    Describes n ((((Dw.record d k r).table fat').committed d (k + 1) k p).table fat)
      (T.setPair d k (.companion p.name) (.file p) l') := by
  have hk := hw.inRange
  refine h.setPair hd hw hnew hold (fun q hq => ?_) (fun hx => by cases hx) hfresh hgone hframe (fun e he hne => ?_) ?_ ?_
    fun j hj h₁ h₂ => ?_
  · cases hq
    exact hcontent
  · rw [Disk.table_data, committed_data hk hne]
    exact slotAt_ext fun j hj => hsame e j he hj fun hx => hne hx.1
  · rw [Disk.table_data, committed_slot hk, if_pos ⟨rfl, rfl⟩]
    rfl
  · rw [Disk.table_data, committed_slot hk, if_neg (by omega), if_pos ⟨rfl, rfl⟩]
    rfl
  · rw [Disk.table_data, committed_slot hk, if_neg (by omega), if_neg (by omega), hsame d j hd hj (by omega)]

theorem Tree.owns_file {i c : Nat} (hd : T.dirs d) (hi : i < 128) (hp : T.items d i = .file p) :
    T.Owns c d i ↔ c ∈ T.chain d i := ⟨fun ho => ho.2.2.1, fun hc => ⟨hd, hi, hc, p, hp⟩⟩

def Disk.erased (D : Disk) (d k : Nat) (r : Slot) : Disk :=
  ((D.record d k r).record d k deletedRecord).record d (k + 1) deletedRecord

theorem erased_slot {j : Nat} (hk : k + 1 < 128) :
    slotAt ((D.erased d k r).data e) j = if e = d ∧ (j = k ∨ j = k + 1) then deletedRecord else slotAt (D.data e) j := by
  unfold Disk.erased
  rw [Disk.record_slot hk, Disk.record_slot (by omega), Disk.record_slot (by omega)]
  by_cases h₁ : e = d ∧ j = k
  · rw [if_pos h₁, ite_self, if_pos ⟨h₁.1, Or.inl h₁.2⟩]
  · rw [if_neg h₁, if_neg h₁]
    by_cases h₂ : e = d ∧ j = k + 1
    · rw [if_pos h₂, if_pos ⟨h₂.1, Or.inr h₂.2⟩]
    · rw [if_neg h₂, if_neg fun hx => hx.2.elim (fun hj => h₁ ⟨hx.1, hj⟩) fun hj => h₂ ⟨hx.1, hj⟩]

theorem erased_data (hk : k + 1 < 128) (he : e ≠ d) : (D.erased d k r).data e = D.data e :=
  slotAt_ext fun j _ => by rw [erased_slot hk, if_neg fun hx => he hx.1]

theorem Describes.erase {n : Nat} {l : List Nat} (h : Describes n D T) (hd : T.dirs d)
    (hw : Writable (T.items d) k) (hold : ∀ c, T.Owns c d (k + 1) ↔ c ∈ l) :
    Describes n ((D.erased d k r).table (Fat.clear D.fat l)) (T.setPair d k .deleted .deleted []) := by
  have hk := hw.inRange
  refine h.setPair hd hw (Or.inl ⟨rfl, rfl⟩) hold (fun _ hx => by cases hx) (fun _ => rfl) (by simp) (fun c hc _ => ?_)
    (fun c hc _ => ?_) (fun e _ hne => ?_) ?_ ?_ fun j _ h₁ h₂ => ?_
  · rw [Disk.table_fat, Fat.clear_apply, if_pos hc]
  · rw [Disk.table_fat, Fat.clear_apply, if_neg hc]
  · rw [Disk.table_data, erased_data hk hne]
  · rw [Disk.table_data, erased_slot hk, if_pos ⟨rfl, Or.inl rfl⟩]
    exact deletedRecord_head
  · rw [Disk.table_data, erased_slot hk, if_pos ⟨rfl, Or.inr rfl⟩]
    exact deletedRecord_head
  · rw [Disk.table_data, erased_slot hk, if_neg (by omega)]

theorem renamed_sound {name : Name} (h : (Item.file p).Sound) (hn : validStoredName name = true) :
    (Item.file { p with name }).Sound := by
  obtain ⟨hadm, hsize, hreg⟩ := h
  obtain ⟨-, hrest⟩ := Primary.admissible_iff.mp hadm
  exact ⟨Primary.admissible_iff.mpr ⟨hn, hrest⟩, hsize, hreg⟩

theorem Describes.renameFile {n i : Nat} {Dw : Disk} {name : Name} (h : Describes n D T)
    (hd : T.dirs d) (hi : i < 128) (hp : T.items d i = .file p) (hn : validStoredName name = true)
    (hfresh : ∀ j q, j < 128 → j ≠ i → (T.items d j).Named q → q.name ≠ name)
    (hsame : ∀ e j, T.dirs e → j < 128 → ¬(e = d ∧ j = i - 1) → slotAt (Dw.data e) j = slotAt (D.data e) j) :
    Describes n (((Dw.record d (i - 1) r).table D.fat).committed d i (i - 1) { p with name })
      (T.setPair d (i - 1) (.companion name) (.file { p with name }) (T.chain d i)) := by
  obtain ⟨hpos, hw⟩ := (h.tidy hd).writable hi hp
  have hk : i - 1 + 1 = i := by omega
  have hsound := (h.tidy hd).sound hi
  rw [hp] at hsound
  have hnew : NewPair (T.items d) (i - 1) (.companion name) (.file { p with name }) := by
    refine Or.inr ⟨{ p with name }, rfl, rfl, renamed_sound hsound hn, fun j q hj hne => hfresh j q hj ?_⟩
    rwa [hk] at hne
  have hold : ∀ c, T.Owns c d (i - 1 + 1) ↔ c ∈ T.chain d i := fun c => by
    rw [hk]
    exact Tree.owns_file hd hi hp
  obtain ⟨hc₁, hc₂, hc₃, hc₄⟩ := h.owned.content hd hi hp
  have := @Describes.commit T d (i - 1) n D Dw { p with name } r D.fat D.fat (T.chain d i) (T.chain d i)
    h hd hw hnew hold hsame ⟨hc₁, hc₂, hc₃, hc₄⟩ (fun c hc => Or.inl hc) (fun c h₁ h₂ => absurd h₁ h₂) fun _ _ _ => rfl
  rw [hk] at this
  exact this

theorem Describes.relocate {n i d' k' : Nat} {D : Disk} {p : Primary} {name : Name} {r r' : Slot} (h : Describes n D T)
    (hd : T.dirs d) (hd' : T.dirs d') (hne : d ≠ d') (hi : i < 128) (hp : T.items d i = .file p)
    (hw : Writable (T.items d') k') (hfree : (T.items d' (k' + 1)).Free) (hn : validStoredName name = true)
    (hfresh : ∀ j q, j < 128 → (T.items d' j).Named q → q.name ≠ name) :
    Describes n ((((D.record d' k' r).table D.fat).committed d' (k' + 1) k' { p with name }).erased d (i - 1) r')
      ((T.setPair d' k' (.companion name) (.file { p with name }) (T.chain d i)).setPair d (i - 1) .deleted .deleted []) := by
  obtain ⟨hpos, hwr⟩ := (h.tidy hd).writable hi hp
  have hk : i - 1 + 1 = i := by omega
  have hsound := (h.tidy hd).sound hi
  rw [hp] at hsound
  have hnew : NewPair (T.items d') k' (.companion name) (.file { p with name }) :=
    Or.inr ⟨{ p with name }, rfl, rfl, renamed_sound hsound hn, fun j q hj _ => hfresh j q hj⟩
  have hm : Shaped n (((D.record d' k' r).table D.fat).committed d' (k' + 1) k' { p with name })
      (T.setPair d' k' (.companion name) (.file { p with name }) (T.chain d i)) := by
    refine h.toShaped.setPair hd' hw hnew (fun _ _ => rfl) (fun e _ he => committed_data hw.inRange he) ?_ ?_
      fun j _ h₁ h₂ => ?_
    · rw [committed_slot hw.inRange, if_pos ⟨rfl, rfl⟩]
      rfl
    · rw [committed_slot hw.inRange, if_neg (by omega), if_pos ⟨rfl, rfl⟩]
      rfl
    · rw [committed_slot hw.inRange, if_neg (by omega), if_neg (by omega)]
  rw [← hk] at hp hm ⊢
  rw [Nat.add_sub_cancel]
  refine h.moveFile hd hd' hne hwr.inRange hp hw (fun q => hfree.not_file q) ⟨rfl, rfl⟩ hm
    (fun e _ he => erased_data hwr.inRange he) rfl rfl ?_ ?_ fun j _ h₁ h₂ => ?_
  · rw [erased_slot hwr.inRange, if_pos ⟨rfl, Or.inl rfl⟩]
    exact deletedRecord_head
  · rw [erased_slot hwr.inRange, if_pos ⟨rfl, Or.inr rfl⟩]
    exact deletedRecord_head
  · rw [erased_slot hwr.inRange, if_neg (by omega)]

end InferenceOS
