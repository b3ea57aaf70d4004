import Mathlib.Data.Finset.Card
import Mathlib.Data.Finset.Image
import Mathlib.Data.List.Nodup
import Mathlib.Order.Interval.Finset.Nat

/-! Labels for items that have keys and names. Items of one name are ranked by their keys; the first keeps its name, and a
    mark tells the others apart. -/

namespace InferenceOS
namespace Labels
variable {ι ν : Type} [LinearOrder ι] [DecidableEq ν]

/-- The number of items of a name. -/
def count (items : List (ι × ν)) (name : ν) : Nat := items.countP fun item => item.2 = name

/-- The rank of a key among the items of a name. -/
def rank (items : List (ι × ν)) (key : ι) (name : ν) : Nat := (items.countP fun item => item.2 = name ∧ item.1 < key) + 1

/-- The label of an item. -/
def labelOf (mark : Nat → ν → ν) (items : List (ι × ν)) (item : ι × ν) : ν :=
  if 1 < rank items item.1 item.2 then mark (rank items item.1 item.2) item.2 else item.2

/-- No item bears the name that a mark gives to another one. -/
def Unmarked (mark : Nat → ν → ν) (items : List (ι × ν)) : Prop :=
  ∀ item ∈ items, ∀ other ∈ items, ∀ r, 1 < r → r ≤ count items other.2 → item.2 ≠ mark r other.2

section Ranks
variable {items other : List (ι × ν)} {key key' : ι} {name : ν}

theorem rank_perm (h : items.Perm other) : rank items key name = rank other key name := by
  rw [rank, rank, h.countP_eq]

theorem labelOf_perm {mark : Nat → ν → ν} (h : items.Perm other) (item : ι × ν) :
    labelOf mark items item = labelOf mark other item := by
  rw [labelOf, labelOf, rank_perm h]

theorem rank_le_count (h : (key, name) ∈ items) : rank items key name ≤ count items name := by
  induction items with
  | nil => cases h
  | cons item items ih =>
    rw [rank, count, List.countP_cons, List.countP_cons]
    have hle : (items.countP fun item => item.2 = name ∧ item.1 < key) ≤ items.countP fun item => item.2 = name :=
      List.countP_mono_left fun item _ hitem => by
        simp only [decide_eq_true_eq] at hitem ⊢
        exact hitem.1
    rcases List.mem_cons.mp h with rfl | h
    · simp only [lt_self_iff_false, and_false, decide_false, Bool.false_eq_true, if_false, decide_true, if_true]
      omega
    · have hrest := ih h
      rw [rank, count] at hrest
      by_cases hname : item.2 = name
      · simp only [hname, true_and, decide_true, if_true]
        split <;> omega
      · simp only [hname, false_and, decide_false, Bool.false_eq_true, if_false]
        omega

theorem rank_lt_rank (h : (key, name) ∈ items) (hlt : key < key') : rank items key name < rank items key' name := by
  unfold rank
  refine Nat.succ_lt_succ ?_
  induction items with
  | nil => cases h
  | cons item items ih =>
    rw [List.countP_cons, List.countP_cons]
    have hle : (items.countP fun item => item.2 = name ∧ item.1 < key) ≤ items.countP fun item => item.2 = name ∧ item.1 < key' :=
      List.countP_mono_left fun item _ hitem => by
        simp only [decide_eq_true_eq] at hitem ⊢
        exact ⟨hitem.1, hitem.2.trans hlt⟩
    rcases List.mem_cons.mp h with rfl | h
    · simp only [lt_self_iff_false, and_false, decide_false, Bool.false_eq_true, if_false, hlt, and_self, decide_true, if_true]
      omega
    · have hrest := ih h
      have himp : (item.2 = name ∧ item.1 < key) → (item.2 = name ∧ item.1 < key') := fun h => ⟨h.1, h.2.trans hlt⟩
      by_cases hitem : item.2 = name ∧ item.1 < key
      · rw [if_pos (by simpa using hitem), if_pos (by simpa using himp hitem)]
        omega
      · rw [if_neg (by simpa using hitem)]
        split <;> omega

theorem rank_injective (h : (key, name) ∈ items) (h' : (key', name) ∈ items) (heq : rank items key name = rank items key' name) :
    key = key' := by
  rcases lt_trichotomy key key' with hlt | hkey | hlt
  · exact absurd heq (rank_lt_rank h hlt).ne
  · exact hkey
  · exact absurd heq (rank_lt_rank h' hlt).ne'

theorem exists_rank (hkeys : (items.map Prod.fst).Nodup) {r : Nat} (hpos : 0 < r) (hle : r ≤ count items name) :
    ∃ key, (key, name) ∈ items ∧ rank items key name = r := by
  classical
  have hnodup : ((items.filter fun item => item.2 = name).map Prod.fst).Nodup :=
    hkeys.sublist (List.filter_sublist.map _)
  let keys : Finset ι := ((items.filter fun item => item.2 = name).map Prod.fst).toFinset
  have hmem : ∀ key, key ∈ keys ↔ (key, name) ∈ items := by
    intro key
    simp only [keys, List.mem_toFinset, List.mem_map, List.mem_filter, decide_eq_true_eq]
    constructor
    · rintro ⟨⟨i, n⟩, ⟨hitem, rfl⟩, rfl⟩
      exact hitem
    · exact fun h => ⟨(key, name), ⟨h, rfl⟩, rfl⟩
  have hcard : keys.card = count items name := by
    rw [List.toFinset_card_of_nodup hnodup, List.length_map, ← List.countP_eq_length_filter]
    rfl
  have himage : keys.image (fun key => rank items key name) = Finset.Icc 1 (count items name) := by
    refine Finset.eq_of_subset_of_card_le (fun value hvalue => ?_) ?_
    · obtain ⟨key, hkey, rfl⟩ := Finset.mem_image.mp hvalue
      exact Finset.mem_Icc.mpr ⟨Nat.succ_pos _, rank_le_count ((hmem key).mp hkey)⟩
    · rw [Finset.card_image_of_injOn fun key hkey key' hkey' heq => rank_injective ((hmem key).mp hkey) ((hmem key').mp hkey') heq,
        hcard, Nat.card_Icc]
      omega
  have hr : r ∈ keys.image (fun key => rank items key name) := by
    rw [himage]
    exact Finset.mem_Icc.mpr ⟨hpos, hle⟩
  obtain ⟨key, hkey, hrank⟩ := Finset.mem_image.mp hr
  exact ⟨key, (hmem key).mp hkey, hrank⟩

end Ranks

theorem labels_distinct_iff {mark : Nat → ν → ν} {items : List (ι × ν)} (hkeys : (items.map Prod.fst).Nodup)
    (hmark : ∀ r s n m, mark r n = mark s m → r = s ∧ n = m) (hne : ∀ r n, mark r n ≠ n) :
    (∀ item ∈ items, ∀ other ∈ items, item.1 ≠ other.1 → labelOf mark items item ≠ labelOf mark items other) ↔
      Unmarked mark items := by
  constructor
  · intro h item hitem other hother r hr hle heq
    obtain ⟨first, hfirst, hrank⟩ := exists_rank hkeys Nat.one_pos
      (le_trans (Nat.le_add_left 1 _) (rank_le_count hitem : rank items item.1 item.2 ≤ _))
    obtain ⟨marked, hmarked, hrank'⟩ := exists_rank hkeys (Nat.lt_trans Nat.one_pos hr) hle
    have hkey : first ≠ marked := by
      rintro rfl
      have hsame : (first, item.2) = (first, other.2) := List.inj_on_of_nodup_map hkeys hfirst hmarked rfl
      exact hne r other.2 (heq.symm.trans (Prod.mk.inj hsame).2)
    refine h _ hfirst _ hmarked hkey ?_
    rw [labelOf, labelOf, if_neg (by dsimp only; omega), if_pos (by dsimp only; omega)]
    dsimp only
    rw [hrank', heq]
  · intro h item hitem other hother hkey heq
    rw [labelOf, labelOf] at heq
    by_cases hi : 1 < rank items item.1 item.2
    · rw [if_pos hi] at heq
      by_cases ho : 1 < rank items other.1 other.2
      · rw [if_pos ho] at heq
        obtain ⟨hrank, hname⟩ := hmark _ _ _ _ heq
        rw [← hname] at hrank
        exact hkey (rank_injective hitem (show (other.1, item.2) ∈ items by rw [hname]; exact hother) hrank)
      · rw [if_neg ho] at heq
        exact h other hother item hitem _ hi (rank_le_count hitem) heq.symm
    · rw [if_neg hi] at heq
      by_cases ho : 1 < rank items other.1 other.2
      · rw [if_pos ho] at heq
        exact h item hitem other hother _ ho (rank_le_count hother) heq
      · rw [if_neg ho] at heq
        have hrank : rank items item.1 item.2 = rank items other.1 item.2 := by
          rw [← heq] at ho
          have hi' : 0 < rank items item.1 item.2 := Nat.succ_pos _
          have ho' : 0 < rank items other.1 item.2 := Nat.succ_pos _
          omega
        exact hkey (rank_injective hitem (show (other.1, item.2) ∈ items by rw [heq]; exact hother) hrank)

end Labels
end InferenceOS
