import Mathlib.Data.Finset.Card
import Mathlib.Data.Fintype.Card
import Mathlib.Order.Interval.Finset.Nat
import InferenceOS.Gui.Window

/-! The stack of windows. The z orders of the allocated windows number them from the bottom, and the top visible window
    has the focus; a handle tells by its generation which of the windows of its slot it stands for. -/

namespace InferenceOS
open Program Function

namespace WindowManager
variable {s u : WindowManager} {i j : Fin windowCapacity} {r : GraphicsRect}

def Allocated (s : WindowManager) (i : Fin windowCapacity) : Prop := (s.windows i).allocated = true

def Visible (s : WindowManager) (i : Fin windowCapacity) : Prop := (s.windows i).allocated = true ∧ (s.windows i).visible = true

instance : DecidablePred s.Allocated := fun _ => inferInstanceAs (Decidable (_ = _))

instance : DecidablePred s.Visible := fun _ => inferInstanceAs (Decidable (_ ∧ _))

def z (s : WindowManager) (i : Fin windowCapacity) : Nat := (s.windows i).zOrder

def allocatedSlots (s : WindowManager) : Finset (Fin windowCapacity) := Finset.univ.filter s.Allocated

theorem mem_allocatedSlots : i ∈ s.allocatedSlots ↔ s.Allocated i := by
  unfold allocatedSlots
  rw [Finset.mem_filter, and_iff_right (Finset.mem_univ i)]

structure Ordered (s : WindowManager) : Prop where
  range : ∀ i, s.Allocated i → 1 ≤ s.z i ∧ s.z i ≤ s.windowCount
  inj : ∀ i j, s.Allocated i → s.Allocated j → s.z i = s.z j → i = j
  count : s.allocatedSlots.card = s.windowCount

def IsTop (s : WindowManager) (i : Fin windowCapacity) : Prop := s.Visible i ∧ ∀ j, s.Visible j → s.z j ≤ s.z i

def Focused (s : WindowManager) : Prop := ∀ i, (s.windows i).focused = true ↔ s.IsTop i

structure SameStack (s u : WindowManager) : Prop where
  allocated : ∀ i, (u.windows i).allocated = (s.windows i).allocated
  z : ∀ i, (u.windows i).zOrder = (s.windows i).zOrder
  count : u.windowCount = s.windowCount

theorem Ordered.same (h : Ordered s) (hs : SameStack s u) : Ordered u := by
  have hallocated : ∀ i, u.Allocated i ↔ s.Allocated i := fun i => by
    unfold Allocated
    rw [hs.allocated]
  have hz : ∀ i, u.z i = s.z i := hs.z
  refine ⟨fun i hi => ?_, fun i j hi hj hij => ?_, ?_⟩
  · rw [hz, hs.count]
    exact h.range i ((hallocated i).mp hi)
  · rw [hz, hz] at hij
    exact h.inj i j ((hallocated i).mp hi) ((hallocated j).mp hj) hij
  · rw [hs.count, ← h.count]
    congr 1
    ext i
    rw [mem_allocatedSlots, mem_allocatedSlots, hallocated]

theorem Ordered.image (h : Ordered s) : s.allocatedSlots.image s.z = Finset.Icc 1 s.windowCount := by
  refine Finset.eq_of_subset_of_card_le (fun n hn => ?_) ?_
  · obtain ⟨i, hi, rfl⟩ := Finset.mem_image.mp hn
    exact Finset.mem_Icc.mpr (h.range i (mem_allocatedSlots.mp hi))
  · rw [Finset.card_image_of_injOn fun i hi j hj => h.inj i j (mem_allocatedSlots.mp hi) (mem_allocatedSlots.mp hj), h.count,
      Nat.card_Icc, Nat.add_sub_cancel]

theorem highestZ_spec : (∀ i, s.Allocated i → s.z i ≤ s.highestZ) ∧ (s.highestZ = 0 ∨ ∃ i, s.Allocated i ∧ s.highestZ = s.z i) := by
  have hfold : ∀ {l : List (Fin windowCapacity)} {highest : Nat}, ∃ r, l.foldl (fun highest i =>
      if (s.windows i).allocated ∧ highest < (s.windows i).zOrder then (s.windows i).zOrder else highest) highest = r ∧
      highest ≤ r ∧ (∀ i ∈ l, s.Allocated i → s.z i ≤ r) ∧ (r = highest ∨ ∃ i, s.Allocated i ∧ r = s.z i) := by
    intro l
    induction l with
    | nil => exact fun {highest} => ⟨highest, rfl, Nat.le_refl _, fun i hi => (nomatch hi), Or.inl rfl⟩
    | cons i l ih =>
      intro highest
      rw [List.foldl_cons]
      split
      · rename_i hi
        obtain ⟨r, hr, hle, hall, hfrom⟩ := @ih (s.windows i).zOrder
        refine ⟨r, hr, hi.2.le.trans hle, fun j hj ha => ?_, Or.inr (hfrom.elim (fun hx => ⟨i, hi.1, hx⟩) id)⟩
        rcases List.mem_cons.mp hj with rfl | hj
        · exact hle
        · exact hall j hj ha
      · rename_i hi
        obtain ⟨r, hr, hle, hall, hfrom⟩ := @ih highest
        refine ⟨r, hr, hle, fun j hj ha => ?_, hfrom⟩
        rcases List.mem_cons.mp hj with rfl | hj
        · exact (Nat.not_lt.mp fun hx => hi ⟨ha, hx⟩).trans hle
        · exact hall j hj ha
  obtain ⟨r, hr, -, hall, hfrom⟩ := @hfold (List.finRange windowCapacity) 0
  have hhighest : s.highestZ = r := hr
  rw [hhighest]
  exact ⟨fun i => hall i (List.mem_finRange i), hfrom⟩

theorem Ordered.highestZ (h : Ordered s) : s.highestZ = s.windowCount := by
  obtain ⟨hall, hfrom⟩ := @highestZ_spec s
  refine Nat.le_antisymm ?_ ?_
  · rcases hfrom with hx | ⟨i, hi, hx⟩
    · rw [hx]
      exact Nat.zero_le _
    · rw [hx]
      exact (h.range i hi).2
  · rcases Nat.eq_zero_or_pos s.windowCount with hx | hx
    · rw [hx]
      exact Nat.zero_le _
    · have hmem : s.windowCount ∈ s.allocatedSlots.image s.z := by
        rw [h.image]
        exact Finset.mem_Icc.mpr ⟨hx, Nat.le_refl _⟩
      obtain ⟨i, hi, hz⟩ := Finset.mem_image.mp hmem
      rw [← hz]
      exact hall i (mem_allocatedSlots.mp hi)

theorem topVisible_spec : (∀ i, s.topVisible = some i → s.IsTop i) ∧ (s.topVisible = none → ∀ i, ¬s.Visible i) := by
  have hfold : ∀ {l : List (Fin windowCapacity)} {top : Option (Fin windowCapacity)}, (∀ i ∈ top, s.Visible i) →
      ∃ r : Option (Fin windowCapacity), l.foldl (fun top i =>
        let window := s.windows i
        if window.allocated ∧ window.visible ∧ (top.all fun top => decide ((s.windows top).zOrder < window.zOrder)) then some i
        else top) top = r ∧
      (∀ i ∈ r, s.Visible i) ∧ ∀ i, s.Visible i → i ∈ l ∨ i ∈ top → ∃ j ∈ r, s.z i ≤ s.z j := by
    intro l
    induction l with
    | nil => exact fun {top} htop => ⟨top, rfl, htop, fun i _ hi => hi.elim (nomatch ·) fun hx => ⟨i, hx, Nat.le_refl _⟩⟩
    | cons i l ih =>
      intro top htop
      rw [List.foldl_cons]
      dsimp only
      split
      · rename_i hi
        obtain ⟨r, hr, hvisible, hall⟩ := @ih (some i) fun j hj => by
          obtain rfl := Option.some.inj hj
          exact ⟨hi.1, hi.2.1⟩
        refine ⟨r, hr, hvisible, fun j hj hmem => ?_⟩
        rcases hmem with hmem | hmem
        · rcases List.mem_cons.mp hmem with rfl | hmem
          · exact hall j hj (Or.inr rfl)
          · exact hall j hj (Or.inl hmem)
        · obtain ⟨k, hk, hle⟩ := hall i ⟨hi.1, hi.2.1⟩ (Or.inr rfl)
          have hlt := hi.2.2
          rw [hmem] at hlt
          exact ⟨k, hk, (of_decide_eq_true hlt).le.trans hle⟩
      · rename_i hi
        obtain ⟨r, hr, hvisible, hall⟩ := @ih top htop
        refine ⟨r, hr, hvisible, fun j hj hmem => ?_⟩
        rcases hmem with hmem | hmem
        · rcases List.mem_cons.mp hmem with rfl | hmem
          · rcases htop' : top with _ | k
            · rw [htop'] at hi
              exact absurd ⟨hj.1, hj.2, rfl⟩ hi
            · obtain ⟨m, hm, hle⟩ := hall k (htop k htop') (Or.inr htop')
              refine ⟨m, hm, Nat.le_trans (Nat.not_lt.mp fun hx => hi ⟨hj.1, hj.2, ?_⟩) hle⟩
              rw [htop']
              exact decide_eq_true hx
          · exact hall j hj (Or.inl hmem)
        · exact hall j hj (Or.inr hmem)
  obtain ⟨r, hr, hvisible, hall⟩ := @hfold (List.finRange windowCapacity) none nofun
  have htop : s.topVisible = r := hr
  rw [htop]
  refine ⟨fun i hi => ⟨hvisible i hi, fun j hj => ?_⟩, fun hnone i hi => ?_⟩
  · obtain ⟨k, hk, hle⟩ := hall j hj (Or.inl (List.mem_finRange j))
    obtain rfl := Option.some.inj (hi.symm.trans hk)
    exact hle
  · obtain ⟨k, hk, -⟩ := hall i hi (Or.inl (List.mem_finRange i))
    rw [hnone] at hk
    cases hk

@[simp] theorem addDirty_windows : (s.addDirty r).windows = s.windows := by
  unfold addDirty
  split
  · rfl
  · split <;> rfl

@[simp] theorem addDirty_windowCount : (s.addDirty r).windowCount = s.windowCount := by
  unfold addDirty
  split
  · rfl
  · split <;> rfl

theorem sameStack_addDirty : SameStack s (s.addDirty r) := by
  refine ⟨fun i => ?_, fun i => ?_, addDirty_windowCount⟩
  all_goals rw [addDirty_windows]

theorem sameStack_selectTopFocus : SameStack s s.selectTopFocus := ⟨fun _ => rfl, fun _ => rfl, rfl⟩

theorem Ordered.unique (h : Ordered s) (hi : s.IsTop i) (hj : s.IsTop j) : i = j :=
  h.inj i j hi.1.1 hj.1.1 (Nat.le_antisymm (hj.2 i hi.1) (hi.2 j hj.1))

theorem Ordered.focused (h : Ordered s) : Focused s.selectTopFocus := by
  intro i
  show decide (s.topVisible = some i) = true ↔ s.IsTop i
  rw [decide_eq_true_iff]
  obtain ⟨hsome, hnone⟩ := @topVisible_spec s
  refine ⟨hsome i, fun hi => ?_⟩
  rcases ht : s.topVisible with _ | j
  · exact absurd hi.1 (hnone ht i)
  · rw [h.unique (hsome j ht) hi]

theorem Focused.addDirty (h : Focused s) : Focused (s.addDirty r) := by
  unfold Focused IsTop Visible z at *
  rw [addDirty_windows]
  exact h

theorem Ordered.insert (h : Ordered s) {window : Window} (hi : ¬s.Allocated i) (hw : u.windows = update s.windows i window)
    (ha : window.allocated = true) (hz : window.zOrder = s.windowCount + 1) (hc : u.windowCount = s.windowCount + 1) : Ordered u := by
  have hnew : u.windows i = window := by rw [hw, update_self]
  have hold : ∀ j, j ≠ i → u.windows j = s.windows j := fun j hj => by rw [hw, update_of_ne hj]
  have hallocated : ∀ j, u.Allocated j → j = i ∧ u.z j = s.windowCount + 1 ∨ j ≠ i ∧ s.Allocated j ∧ u.z j = s.z j := by
    intro j hj
    obtain rfl | hne := eq_or_ne j i
    · refine Or.inl ⟨rfl, ?_⟩
      unfold WindowManager.z
      rw [hnew, hz]
    · refine Or.inr ⟨hne, ?_⟩
      unfold Allocated WindowManager.z at *
      rw [hold j hne] at hj ⊢
      exact ⟨hj, rfl⟩
  refine ⟨fun j hj => ?_, fun j k hj hk hjk => ?_, ?_⟩
  · rw [hc]
    rcases hallocated j hj with ⟨-, hzj⟩ | ⟨-, hsj, hzj⟩
    · omega
    · have := h.range j hsj
      omega
  · rcases hallocated j hj with ⟨hji, hzj⟩ | ⟨-, hsj, hzj⟩ <;> rcases hallocated k hk with ⟨hki, hzk⟩ | ⟨-, hsk, hzk⟩
    · rw [hji, hki]
    · have := h.range k hsk
      omega
    · have := h.range j hsj
      omega
    · exact h.inj j k hsj hsk (by omega)
  · have hslots : u.allocatedSlots = Insert.insert i s.allocatedSlots := by
      ext j
      rw [Finset.mem_insert, mem_allocatedSlots, mem_allocatedSlots]
      unfold Allocated
      obtain rfl | hne := eq_or_ne j i
      · rw [hnew, ha]
        exact ⟨fun _ => Or.inl rfl, fun _ => rfl⟩
      · rw [hold j hne, or_iff_right hne]
    rw [hslots, Finset.card_insert_of_notMem fun hx => hi (mem_allocatedSlots.mp hx), h.count, hc]

def lowered (z z' : Nat) : Nat := if z < z' then z' - 1 else z'

theorem Ordered.remove (h : Ordered s) (hi : s.Allocated i) (ha : ∀ j, u.Allocated j ↔ j ≠ i ∧ s.Allocated j)
    (hz : ∀ j, j ≠ i → s.Allocated j → u.z j = lowered (s.z i) (s.z j)) (hc : u.windowCount = s.windowCount - 1) : Ordered u := by
  have hri := h.range i hi
  have hne : ∀ j, j ≠ i → s.Allocated j → s.z j ≠ s.z i := fun j hj hsj hx => hj (h.inj j i hsj hi hx)
  refine ⟨fun j hj => ?_, fun j k hj hk hjk => ?_, ?_⟩
  · obtain ⟨hji, hsj⟩ := (ha j).mp hj
    have hrj := h.range j hsj
    have := hne j hji hsj
    rw [hz j hji hsj, hc]
    unfold lowered
    split <;> omega
  · obtain ⟨hji, hsj⟩ := (ha j).mp hj
    obtain ⟨hki, hsk⟩ := (ha k).mp hk
    have := hne j hji hsj
    have := hne k hki hsk
    rw [hz j hji hsj, hz k hki hsk] at hjk
    refine h.inj j k hsj hsk ?_
    unfold lowered at hjk
    split at hjk <;> split at hjk <;> omega
  · have hslots : u.allocatedSlots = s.allocatedSlots.erase i := by
      ext j
      rw [Finset.mem_erase, mem_allocatedSlots, mem_allocatedSlots, ha]
    rw [hslots, Finset.card_erase_of_mem (mem_allocatedSlots.mpr hi), h.count, hc]

def raisedZ (s : WindowManager) (i j : Fin windowCapacity) : Nat := if j = i then s.windowCount else lowered (s.z i) (s.z j)

theorem Ordered.raise (h : Ordered s) (hi : s.Allocated i) (ha : ∀ j, u.Allocated j ↔ s.Allocated j)
    (hz : ∀ j, s.Allocated j → u.z j = s.raisedZ i j) (hc : u.windowCount = s.windowCount) : Ordered u := by
  have hri := h.range i hi
  have hne : ∀ j, j ≠ i → s.Allocated j → s.z j ≠ s.z i := fun j hj hsj hx => hj (h.inj j i hsj hi hx)
  refine ⟨fun j hj => ?_, fun j k hj hk hjk => ?_, ?_⟩
  · have hsj := (ha j).mp hj
    have hrj := h.range j hsj
    rw [hz j hsj, hc]
    unfold raisedZ lowered
    split
    · omega
    · rename_i hji
      have := hne j hji hsj
      split <;> omega
  · have hsj := (ha j).mp hj
    have hsk := (ha k).mp hk
    have hrj := h.range j hsj
    have hrk := h.range k hsk
    rw [hz j hsj, hz k hsk] at hjk
    unfold raisedZ lowered at hjk
    obtain rfl | hji := eq_or_ne j i
    · obtain rfl | hki := eq_or_ne k j
      · rfl
      · have := hne k hki hsk
        rw [if_pos rfl, if_neg hki] at hjk
        split at hjk <;> omega
    · have := hne j hji hsj
      rw [if_neg hji] at hjk
      obtain rfl | hki := eq_or_ne k i
      · rw [if_pos rfl] at hjk
        split at hjk <;> omega
      · have := hne k hki hsk
        rw [if_neg hki] at hjk
        refine h.inj j k hsj hsk ?_
        split at hjk <;> split at hjk <;> omega
  · rw [hc, ← h.count]
    congr 1
    ext j
    rw [mem_allocatedSlots, mem_allocatedSlots, ha]

theorem Ordered.raisedZ_lt (h : Ordered s) (hi : s.Allocated i) {j k : Fin windowCapacity} (hj : s.Allocated j) (hk : s.Allocated k)
    (hji : j ≠ i) (hki : k ≠ i) : s.raisedZ i j < s.raisedZ i k ↔ s.z j < s.z k := by
  have hne : ∀ j, j ≠ i → s.Allocated j → s.z j ≠ s.z i := fun j hj hsj hx => hj (h.inj j i hsj hi hx)
  have := hne j hji hj
  have := hne k hki hk
  unfold raisedZ lowered
  rw [if_neg hji, if_neg hki]
  split <;> split <;> omega

variable {handle : WindowHandle} {x y : I32} {surface : GraphicsSurface} {owner : Nat} {visible : Bool}

theorem findWindow_eq_some : s.findWindow handle = some i ↔
    handle.slot = i.1 ∧ handle.generation ≠ 0 ∧ s.Allocated i ∧ (s.windows i).generation = handle.generation := by
  unfold findWindow Allocated
  split
  · rename_i hslot
    split
    · rename_i hzero
      exact ⟨nofun, fun h => absurd hzero h.2.1⟩
    · rename_i hzero
      split
      · rename_i hbad
        refine ⟨nofun, fun ⟨hi, _, ha, hg⟩ => ?_⟩
        have heq : (⟨handle.slot, hslot⟩ : Fin windowCapacity) = i := Fin.ext hi
        rw [heq, ha] at hbad
        exact hbad.elim nofun fun hx => absurd hg hx
      · rename_i hgood
        rw [not_or, Bool.not_eq_false, not_not] at hgood
        constructor
        · rintro heq
          obtain rfl := Option.some.inj heq
          exact ⟨rfl, hzero, hgood.1, hgood.2⟩
        · intro h
          rw [Option.some.injEq]
          exact Fin.ext h.1
  · rename_i hslot
    refine ⟨nofun, fun h => absurd ?_ hslot⟩
    rw [h.1]
    exact i.2

def newWindow (s : WindowManager) (i : Fin windowCapacity) (surface : GraphicsSurface) (x y : I32) (owner : Nat) : Window :=
  { s.windows i with
    generation := nextGeneration (s.windows i).generation
    surface
    bounds := ⟨x, y, i32 surface.width, i32 surface.height⟩
    owner
    zOrder := (s.highestZ + 1) % 2 ^ 16
    allocated := true
    visible := true }

/-- The manager after `ios_window_create`. -/
def created (s : WindowManager) (i : Fin windowCapacity) (window : Window) : WindowManager :=
  ({ s.setWindow i window with windowCount := s.windowCount + 1 }).selectTopFocus.addDirty window.bounds

theorem create_spec : wp (windowCreate surface x y owner)
    (fun handle u => ∃ i, ¬s.Allocated i ∧ surface.isValid = true ∧ surface.width < 2 ^ 31 ∧ surface.height < 2 ^ 31 ∧
      handle = ⟨i.1, nextGeneration (s.windows i).generation⟩ ∧ u = s.created i (s.newWindow i surface x y owner))
    (fun _ u => u = s) s := by
  unfold windowCreate
  simp only [wp_bind, wp_get, wp_failIf]
  refine ⟨fun _ => trivial, fun hgood => ?_⟩
  simp only [not_or, Nat.not_lt, Bool.not_eq_false] at hgood
  split
  · rfl
  · rename_i i hi
    have hfree := List.find?_some hi
    rw [decide_eq_true_iff] at hfree
    refine ⟨i, ?_, hgood.1, by omega, by omega, rfl, rfl⟩
    unfold Allocated
    rw [hfree]
    nofun

def destroyed (s : WindowManager) (i : Fin windowCapacity) : WindowManager :=
  let t := if (s.windows i).visible then s.addDirty (s.windows i).bounds else s
  (({ t.setWindow i { s.windows i with allocated := false, visible := false, focused := false } with
    windowCount := t.windowCount - 1 }).lowerAbove (s.windows i).zOrder).selectTopFocus

/-- A call with a handle does `f` to the window of the handle, and nothing when there is no such window. -/
def Touches (handle : WindowHandle) (m : Program IosError WindowManager Unit) (f : Fin windowCapacity → WindowManager)
    (s : WindowManager) : Prop :=
  wp m (fun _ u => ∃ i, s.findWindow handle = some i ∧ u = f i) (fun _ u => u = s ∧ s.findWindow handle = none) s

theorem Touches.keeps {m : Program IosError WindowManager Unit} {f : Fin windowCapacity → WindowManager} (h : Touches handle m f s)
    {P : WindowManager → Prop} (hs : P s) (hf : ∀ i, s.Allocated i → P (f i)) : P (m s).2 := by
  refine of_wp (wp_mono h ?_ ?_)
  · rintro - _ ⟨i, hi, rfl⟩
    exact hf i (findWindow_eq_some.mp hi).2.2.1
  · rintro - _ ⟨rfl, -⟩
    exact hs

theorem destroy_spec : Touches handle (windowDestroy handle) s.destroyed s := by
  unfold Touches windowDestroy
  simp only [wp_bind, wp_get]
  cases s.findWindow handle with
  | none => exact ⟨rfl, rfl⟩
  | some i => exact ⟨i, rfl, rfl⟩

/-- The manager after `ios_window_move`. -/
def moved (s : WindowManager) (i : Fin windowCapacity) (x y : I32) : WindowManager :=
  let window := { s.windows i with bounds := { (s.windows i).bounds with x, y } }
  let t := (if (s.windows i).visible then s.addDirty (s.windows i).bounds else s).setWindow i window
  if (s.windows i).visible then t.addDirty window.bounds else t

theorem move_spec : Touches handle (windowMove handle x y) (s.moved · x y) s := by
  unfold Touches windowMove
  simp only [wp_bind, wp_get]
  cases s.findWindow handle with
  | none => exact ⟨rfl, rfl⟩
  | some i => exact ⟨i, rfl, rfl⟩

/-- The manager after `ios_window_set_visible` changed the visibility. -/
def shown (s : WindowManager) (i : Fin windowCapacity) (visible : Bool) : WindowManager :=
  ((s.addDirty (s.windows i).bounds).setWindow i { s.windows i with visible }).selectTopFocus

theorem setVisible_spec : Touches handle (windowSetVisible handle visible)
    (fun i => if (s.windows i).visible = visible then s else s.shown i visible) s := by
  unfold Touches windowSetVisible
  simp only [wp_bind, wp_get]
  cases s.findWindow handle with
  | none => exact ⟨rfl, rfl⟩
  | some i =>
    dsimp only
    split
    · rename_i hsame
      refine ⟨i, rfl, ?_⟩
      rw [if_pos hsame]
    · rename_i hsame
      refine ⟨i, rfl, ?_⟩
      rw [if_neg hsame]
      rfl

def raised (s : WindowManager) (i : Fin windowCapacity) : WindowManager :=
  (if (s.windows i).zOrder = s.highestZ then s
    else ((s.lowerAbove (s.windows i).zOrder).setWindow i { s.windows i with zOrder := s.highestZ }).addDirty
      (s.windows i).bounds).selectTopFocus

theorem raise_spec : Touches handle (windowRaise handle) s.raised s := by
  unfold Touches windowRaise
  simp only [wp_bind, wp_get]
  cases s.findWindow handle with
  | none => exact ⟨rfl, rfl⟩
  | some i => exact ⟨i, rfl, rfl⟩

def invalidated (s : WindowManager) (i : Fin windowCapacity) (rectangle : GraphicsRect) : Option GraphicsRect :=
  let window := s.windows i
  let left := max rectangle.x.1 0
  let top := max rectangle.y.1 0
  let right := min rectangle.right window.surface.width
  let bottom := min rectangle.bottom window.surface.height
  if right ≤ left ∨ bottom ≤ top ∨ window.visible = false then none
  else some ⟨saturate (left + window.bounds.x), saturate (top + window.bounds.y), i32 (right - left), i32 (bottom - top)⟩

theorem invalidate_spec {rectangle : GraphicsRect} : wp (windowInvalidate handle rectangle)
    (fun _ u => ∃ i, s.findWindow handle = some i ∧ u = match s.invalidated i rectangle with
      | some r => s.addDirty r
      | none => s)
    (fun _ u => u = s) s := by
  unfold windowInvalidate
  simp only [wp_bind, wp_get]
  cases s.findWindow handle with
  | none => rfl
  | some i =>
    simp only [wp_bind, wp_failIf]
    refine ⟨fun _ => trivial, fun _ => ?_⟩
    split
    · rename_i hempty
      refine ⟨i, rfl, ?_⟩
      unfold invalidated
      rw [if_pos (hempty.imp_right Or.inl)]
    · rename_i hempty
      refine ⟨i, rfl, ?_⟩
      unfold invalidated
      rw [not_or] at hempty
      cases hv : (s.windows i).visible with
      | true =>
        rw [if_neg (by rw [not_or, not_or, hv]; exact ⟨hempty.1, hempty.2, nofun⟩)]
        rfl
      | false =>
        rw [if_pos (Or.inr (Or.inr hv))]
        rfl

def unfocused (window : Window) : Window := { window with focused := false }

structure Like (w w' : Window) : Prop where
  surface : w.surface = w'.surface
  bounds : w.bounds = w'.bounds
  generation : w.generation = w'.generation
  zOrder : w.zOrder = w'.zOrder
  allocated : w.allocated = w'.allocated
  visible : w.visible = w'.visible

theorem like_of_unfocused {w w' : Window} (h : unfocused w = unfocused w') : Like w w' := by
  obtain ⟨⟩ := w
  obtain ⟨⟩ := w'
  injection h
  constructor <;> assumption

theorem selectTopFocus_windows {j : Fin windowCapacity} : unfocused (s.selectTopFocus.windows j) = unfocused (s.windows j) := rfl

def lowerWindow (z : Nat) (window : Window) : Window :=
  { window with zOrder := if window.allocated then lowered z window.zOrder else window.zOrder }

theorem lowerAbove_windows {z : Nat} {j : Fin windowCapacity} : (s.lowerAbove z).windows j = lowerWindow z (s.windows j) := by
  unfold lowerAbove lowerWindow lowered
  dsimp only
  split
  · rename_i h
    rw [if_pos h.1, if_pos h.2]
  · rename_i h
    split
    · rename_i ha
      rw [if_neg fun hx => h ⟨ha, hx⟩]
    · rfl

theorem created_windows {window : Window} {j : Fin windowCapacity} :
    unfocused ((s.created i window).windows j) = unfocused (if j = i then window else s.windows j) := by
  unfold created
  rw [addDirty_windows, selectTopFocus_windows]
  show unfocused (update s.windows i window j) = _
  rw [update_apply]

theorem Ordered.created (h : Ordered s) (hi : ¬s.Allocated i) : Ordered (s.created i (s.newWindow i surface x y owner)) ∧
    Focused (s.created i (s.newWindow i surface x y owner)) := by
  have hroom : s.windowCount < windowCapacity := by
    rw [← h.count]
    refine Finset.card_lt_univ_of_notMem (x := i) fun hx => hi (mem_allocatedSlots.mp hx)
  have hz : (s.newWindow i surface x y owner).zOrder = s.windowCount + 1 := by
    show (s.highestZ + 1) % 2 ^ 16 = _
    rw [h.highestZ, Nat.mod_eq_of_lt]
    unfold windowCapacity at hroom
    omega
  have hset := @Ordered.insert s { s.setWindow i (s.newWindow i surface x y owner) with windowCount := s.windowCount + 1 } i h _ hi
    rfl rfl hz rfl
  exact ⟨(hset.same sameStack_selectTopFocus).same sameStack_addDirty, hset.focused.addDirty⟩

theorem destroyed_windows {j : Fin windowCapacity} : unfocused ((s.destroyed i).windows j) = unfocused (
    if j = i then { s.windows i with allocated := false, visible := false } else lowerWindow (s.z i) (s.windows j)) := by
  have hwindows : (if (s.windows i).visible then s.addDirty (s.windows i).bounds else s).windows = s.windows := by
    split
    · exact addDirty_windows
    · rfl
  unfold destroyed
  rw [selectTopFocus_windows, lowerAbove_windows]
  unfold setWindow WindowManager.z
  dsimp only
  rw [hwindows, update_apply]
  split
  · rfl
  · rfl

theorem Ordered.destroyed (h : Ordered s) (hi : s.Allocated i) : Ordered (s.destroyed i) ∧ Focused (s.destroyed i) := by
  have hcount : (s.destroyed i).windowCount = s.windowCount - 1 := by
    show (if (s.windows i).visible then s.addDirty (s.windows i).bounds else s).windowCount - 1 = _
    split
    · rw [addDirty_windowCount]
    · rfl
  have hordered : Ordered (s.destroyed i) := by
    refine h.remove hi (fun j => ?_) (fun j hj ha => ?_) hcount
    · unfold Allocated
      rw [(like_of_unfocused destroyed_windows).allocated]
      split
      · rename_i hj
        exact ⟨nofun, fun hx => absurd hj hx.1⟩
      · rename_i hj
        rw [and_iff_right hj]
        rfl
    · have hw := (like_of_unfocused (@destroyed_windows s i j)).zOrder
      rw [if_neg hj] at hw
      exact hw.trans (if_pos ha)
  exact ⟨hordered, (hordered.same ⟨fun _ => rfl, fun _ => rfl, rfl⟩ : Ordered _).focused⟩

theorem moved_windows {j : Fin windowCapacity} : (s.moved i x y).windows j =
    if j = i then { s.windows i with bounds := { (s.windows i).bounds with x, y } } else s.windows j := by
  have hset : ∀ {t : WindowManager} {window : Window}, t.windows = s.windows →
      (t.setWindow i window).windows j = if j = i then window else s.windows j := by
    intro t window ht
    unfold setWindow
    dsimp only
    rw [ht, update_apply]
  unfold moved
  dsimp only
  split
  · rw [addDirty_windows, hset addDirty_windows]
  · rw [hset rfl]

theorem moved_windowCount : (s.moved i x y).windowCount = s.windowCount := by
  unfold moved
  dsimp only
  split
  · rw [addDirty_windowCount]
    exact addDirty_windowCount
  · rfl

theorem sameStack_moved : SameStack s (s.moved i x y) := by
  refine ⟨fun j => ?_, fun j => ?_, moved_windowCount⟩
  all_goals
    rw [moved_windows]
    split
    · rename_i hj
      rw [hj]
    · rfl

theorem Focused.moved (h : Focused s) : Focused (s.moved i x y) := by
  have hwindow : ∀ j, (s.moved i x y).Visible j = s.Visible j ∧ (s.moved i x y).z j = s.z j ∧
      ((s.moved i x y).windows j).focused = (s.windows j).focused := by
    intro j
    unfold Visible z
    rw [moved_windows]
    split
    · rename_i hj
      rw [hj]
      exact ⟨rfl, rfl, rfl⟩
    · exact ⟨rfl, rfl, rfl⟩
  intro j
  rw [(hwindow j).2.2, h j]
  unfold IsTop
  simp only [(hwindow _).1, (hwindow _).2.1]

theorem shown_windows {j : Fin windowCapacity} : unfocused ((s.shown i visible).windows j) =
    unfocused (if j = i then { s.windows i with visible } else s.windows j) := by
  unfold shown setWindow
  rw [selectTopFocus_windows]
  dsimp only
  rw [addDirty_windows, update_apply]

theorem sameStack_shown : SameStack s (s.shown i visible) := by
  refine ⟨fun j => ?_, fun j => ?_, ?_⟩
  · rw [(like_of_unfocused shown_windows).allocated]
    split
    · rename_i hj
      rw [hj]
    · rfl
  · rw [(like_of_unfocused shown_windows).zOrder]
    split
    · rename_i hj
      rw [hj]
    · rfl
  · exact addDirty_windowCount

theorem Ordered.shown (h : Ordered s) : Ordered (s.shown i visible) ∧ Focused (s.shown i visible) := by
  have hordered := h.same (@sameStack_shown s i visible)
  exact ⟨hordered, (hordered.same ⟨fun _ => rfl, fun _ => rfl, rfl⟩ : Ordered _).focused⟩

def raiseWindow (s : WindowManager) (i j : Fin windowCapacity) : Window :=
  { s.windows j with zOrder := if (s.windows j).allocated then s.raisedZ i j else (s.windows j).zOrder }

theorem Ordered.raised_windows (h : Ordered s) (hi : s.Allocated i) {j : Fin windowCapacity} :
    unfocused ((s.raised i).windows j) = unfocused (s.raiseWindow i j) := by
  unfold raised
  rw [selectTopFocus_windows]
  unfold raiseWindow raisedZ
  split
  · rename_i htop
    rw [h.highestZ] at htop
    congr 1
    split
    · rename_i ha
      have hle := (h.range j ha).2
      obtain rfl | hj := eq_or_ne j i
      · rw [if_pos rfl, ← htop]
      · rw [if_neg hj]
        unfold lowered WindowManager.z at *
        rw [htop, if_neg (Nat.not_lt.mpr hle)]
    · rfl
  · rw [addDirty_windows, h.highestZ]
    unfold setWindow
    unfold Allocated at hi
    dsimp only
    obtain rfl | hj := eq_or_ne j i
    · rw [update_self, if_pos hi, if_pos rfl]
    · rw [update_of_ne hj, lowerAbove_windows, if_neg hj]
      rfl

theorem raised_windowCount : (s.raised i).windowCount = s.windowCount := by
  unfold raised
  show (if _ then s else _).windowCount = _
  split
  · rfl
  · rw [addDirty_windowCount]
    rfl

theorem Ordered.raised (h : Ordered s) (hi : s.Allocated i) : Ordered (s.raised i) ∧ Focused (s.raised i) := by
  have hordered : Ordered (s.raised i) := by
    refine h.raise hi (fun j => ?_) (fun j hj => ?_) raised_windowCount
    · unfold Allocated
      rw [(like_of_unfocused (h.raised_windows hi)).allocated]
      rfl
    · exact (like_of_unfocused (h.raised_windows hi)).zOrder.trans (if_pos hj)
  exact ⟨hordered, (hordered.same ⟨fun _ => rfl, fun _ => rfl, rfl⟩ : Ordered _).focused⟩

theorem setPointer_windows : (windowSetPointer x y visible s).windows = s.windows ∧
    (windowSetPointer x y visible s).windowCount = s.windowCount := by
  have hfirst : ∀ t : WindowManager, (if t.pointerVisible then t.invalidatePointer else t).windows = t.windows ∧
      (if t.pointerVisible then t.invalidatePointer else t).windowCount = t.windowCount := by
    intro t
    split
    · exact ⟨addDirty_windows, addDirty_windowCount⟩
    · exact ⟨rfl, rfl⟩
  unfold windowSetPointer
  dsimp only
  obtain ⟨hw, hc⟩ := hfirst s
  obtain ⟨hw', hc'⟩ := hfirst { (if s.pointerVisible then s.invalidatePointer else s) with
    pointerX := x, pointerY := y, pointerVisible := visible }
  exact ⟨hw'.trans hw, hc'.trans hc⟩

/-! ### Handles -/

/-- The same handles are good in both managers. -/
def SameSlots (s u : WindowManager) : Prop := ∀ j,
  (u.windows j).allocated = (s.windows j).allocated ∧ (u.windows j).generation = (s.windows j).generation

theorem SameSlots.findWindow (h : SameSlots s u) : u.findWindow handle = s.findWindow handle := by
  refine Option.ext fun j => ?_
  rw [findWindow_eq_some, findWindow_eq_some]
  unfold Allocated
  rw [(h j).1, (h j).2]

/-- The new handle is good, and the others are what they were. -/
theorem findWindow_created {other : WindowHandle} (hi : ¬s.Allocated i) :
    (s.created i (s.newWindow i surface x y owner)).findWindow other =
      if other = ⟨i.1, nextGeneration (s.windows i).generation⟩ then some i else s.findWindow other := by
  have hlike := fun j => like_of_unfocused (@created_windows s i (s.newWindow i surface x y owner) j)
  have hpos : nextGeneration (s.windows i).generation ≠ 0 := by
    unfold nextGeneration
    dsimp only
    split <;> omega
  split
  · rename_i ho
    subst ho
    refine findWindow_eq_some.mpr ⟨rfl, hpos, ?_, ?_⟩
    · unfold Allocated
      rw [(hlike i).allocated, if_pos rfl]
      rfl
    · rw [(hlike i).generation, if_pos rfl]
      rfl
  · rename_i ho
    refine Option.ext fun j => ?_
    rw [findWindow_eq_some, findWindow_eq_some]
    unfold Allocated
    rw [(hlike j).allocated, (hlike j).generation]
    split
    · rename_i hj
      subst hj
      refine ⟨fun ⟨h₁, _, _, h₄⟩ => absurd ?_ ho, fun ⟨_, _, ha, _⟩ => absurd ha hi⟩
      obtain ⟨slot, generation⟩ := other
      dsimp only at h₁ h₄
      rw [h₁, ← h₄]
      rfl
    · rfl

/-- The handle of a destroyed window is bad, and the others are what they were. -/
theorem findWindow_destroyed {other : WindowHandle} (hi : s.findWindow handle = some i) :
    (s.destroyed i).findWindow other = if other = handle then none else s.findWindow other := by
  have hlike := fun j => like_of_unfocused (@destroyed_windows s i j)
  obtain ⟨hslot, -, -, hgeneration⟩ := findWindow_eq_some.mp hi
  have hkept : ∀ j, j ≠ i → ((s.destroyed i).windows j).allocated = (s.windows j).allocated ∧
      ((s.destroyed i).windows j).generation = (s.windows j).generation := fun j hj => by
    rw [(hlike j).allocated, (hlike j).generation, if_neg hj]
    exact ⟨rfl, rfl⟩
  have hgone : ∀ {x : WindowHandle}, (s.destroyed i).findWindow x ≠ some i := fun hx => by
    have ha := (findWindow_eq_some.mp hx).2.2.1
    unfold Allocated at ha
    rw [(hlike i).allocated, if_pos rfl] at ha
    cases ha
  split
  · rename_i ho
    subst ho
    refine Option.eq_none_iff_forall_ne_some.mpr fun j hj => ?_
    obtain rfl : j = i := Fin.ext ((findWindow_eq_some.mp hj).1.symm.trans hslot)
    exact hgone hj
  · rename_i ho
    refine Option.ext fun j => ?_
    by_cases hj : j = i
    · subst hj
      refine ⟨fun hx => absurd hx hgone, fun hx => absurd ?_ ho⟩
      obtain ⟨hslot', -, -, hgeneration'⟩ := findWindow_eq_some.mp hx
      obtain ⟨slot, generation⟩ := other
      obtain ⟨slot', generation'⟩ := handle
      exact congrArg₂ WindowHandle.mk (hslot'.trans hslot.symm) (hgeneration'.symm.trans hgeneration)
    · rw [findWindow_eq_some, findWindow_eq_some]
      unfold Allocated
      rw [(hkept j hj).1, (hkept j hj).2]

/-- A call of a handle that does nothing but look it up before it works succeeds exactly when the handle is good. -/
theorem accepted_iff {m : Program IosError WindowManager Unit} {f : Fin windowCapacity → WindowManager}
    (h : Touches handle m f s) : (m s).1 = .ok () ↔ (s.findWindow handle).isSome = true := by
  rcases wp_cases h with ⟨_, _, hr, i, hi, -⟩ | ⟨_, _, hr, -, hnone⟩
  · rw [hr, hi]
    exact ⟨fun _ => rfl, fun _ => rfl⟩
  · rw [hr, hnone]
    exact ⟨nofun, nofun⟩

theorem sameSlots_moved : SameSlots s (s.moved i x y) := fun j => by
  rw [moved_windows]
  split
  · rename_i hj
    rw [hj]
    exact ⟨rfl, rfl⟩
  · exact ⟨rfl, rfl⟩

theorem sameSlots_shown : SameSlots s (s.shown i visible) := fun j => by
  have hlike := like_of_unfocused (@shown_windows s i visible j)
  rw [hlike.allocated, hlike.generation]
  split
  · rename_i hj
    rw [hj]
    exact ⟨rfl, rfl⟩
  · exact ⟨rfl, rfl⟩

theorem Ordered.sameSlots_raised (h : Ordered s) (hi : s.Allocated i) : SameSlots s (s.raised i) := fun _ =>
  ⟨(like_of_unfocused (h.raised_windows hi)).allocated, (like_of_unfocused (h.raised_windows hi)).generation⟩

theorem kept_of_wp {other : WindowHandle} {m : Program IosError WindowManager Unit} {f : Fin windowCapacity → WindowManager}
    (h : wp m (fun _ u => ∃ i, s.findWindow handle = some i ∧ u = f i) (fun _ u => u = s ∧ s.findWindow handle = none) s)
    (hf : ∀ i, s.findWindow handle = some i → SameSlots s (f i)) : (m s).2.findWindow other = s.findWindow other := by
  refine of_wp (P := fun u => u.findWindow other = s.findWindow other) (wp_mono h ?_ ?_)
  · rintro - _ ⟨i, hi, rfl⟩
    exact (hf i hi).findWindow
  · rintro - _ ⟨rfl, -⟩
    rfl

end WindowManager

/-- A call of the window manager. -/
inductive WindowCall where
  | create (surface : GraphicsSurface) (x y : I32) (owner : Nat)
  | destroy (handle : WindowHandle)
  | move (handle : WindowHandle) (x y : I32)
  | setVisible (handle : WindowHandle) (visible : Bool)
  | raise (handle : WindowHandle)
  | invalidate (handle : WindowHandle) (rectangle : GraphicsRect)
  | invalidateDesktop (rectangle : GraphicsRect)
  | setPointer (x y : I32) (visible : Bool)

namespace WindowCall
open WindowManager

/-- The manager after a call. -/
def run : WindowCall → WindowManager → WindowManager
  | .create surface x y owner, s => (windowCreate surface x y owner s).2
  | .destroy handle, s => (windowDestroy handle s).2
  | .move handle x y, s => (windowMove handle x y s).2
  | .setVisible handle visible, s => (windowSetVisible handle visible s).2
  | .raise handle, s => (windowRaise handle s).2
  | .invalidate handle rectangle, s => (windowInvalidate handle rectangle s).2
  | .invalidateDesktop rectangle, s => windowInvalidateDesktop rectangle s
  | .setPointer x y visible, s => windowSetPointer x y visible s

/-- How many windows each slot has had, after a call. -/
def creations (s : WindowManager) (c : Fin windowCapacity → Nat) : WindowCall → Fin windowCapacity → Nat
  | .create surface x y owner =>
    match (windowCreate surface x y owner s).1 with
    | .ok handle => fun i => if i.1 = handle.slot then c i + 1 else c i
    | .error _ => c
  | _ => c

end WindowCall

/-- The managers that runs reach, with the numbers of windows that each slot has had. -/
inductive WindowRun : WindowManager → (Fin windowCapacity → Nat) → Prop where
  | initialized {framebuffer shadow : GraphicsSurface} {desktopColor pointerColor : Color} {s : WindowManager} :
      WindowManager.windowManagerInitialize framebuffer shadow desktopColor pointerColor = .ok s → WindowRun s fun _ => 0
  | called {s : WindowManager} {c : Fin windowCapacity → Nat} {call : WindowCall} : WindowRun s c →
      WindowRun (call.run s) (call.creations s c)
  | composed {s : WindowManager} {c : Fin windowCapacity → Nat} : WindowRun s c →
      WindowRun { s with dirtyValid := false, dirty := .zero } c

namespace WindowManager
variable {s u : WindowManager} {i j : Fin windowCapacity} {c : Fin windowCapacity → Nat}

/-- The generation of the `n`-th window of a slot: 0 is skipped when the counter comes round. -/
def generationAt : Nat → Nat
  | 0 => 0
  | n + 1 => n % 65535 + 1

theorem nextGeneration_generationAt (n : Nat) : nextGeneration (generationAt n) = generationAt (n + 1) := by
  unfold nextGeneration
  cases n with
  | zero => rfl
  | succ n =>
    unfold generationAt
    dsimp only
    split <;> omega

theorem generationAt_inj {n m : Nat} (hn : 0 < n) (hle : n ≤ m) (hlt : m < n + 65535) (h : generationAt m = generationAt n) : m = n := by
  obtain ⟨n, rfl⟩ := Nat.exists_eq_succ_of_ne_zero hn.ne'
  obtain ⟨m, rfl⟩ := Nat.exists_eq_succ_of_ne_zero (Nat.lt_of_lt_of_le hn hle).ne'
  change m % 65535 + 1 = n % 65535 + 1 at h
  omega

structure Stacked (s : WindowManager) (c : Fin windowCapacity → Nat) : Prop where
  ordered : Ordered s
  focused : Focused s
  generation : ∀ i, (s.windows i).generation = generationAt (c i)
  creations : ∀ i, s.Allocated i → 0 < c i

theorem Stacked.of_windows (h : Stacked s c) (hw : u.windows = s.windows) (hc : u.windowCount = s.windowCount) : Stacked u c := by
  refine ⟨h.ordered.same ⟨fun i => ?_, fun i => ?_, hc⟩, fun i => ?_, fun i => ?_, fun i hi => ?_⟩
  · rw [hw]
  · rw [hw]
  · unfold IsTop Visible z
    rw [hw]
    exact h.focused i
  · rw [hw]
    exact h.generation i
  · unfold Allocated at hi
    rw [hw] at hi
    exact h.creations i hi

theorem Stacked.step (h : Stacked s c) (ho : Ordered u) (hf : Focused u) (hs : SameSlots s u) : Stacked u c :=
  ⟨ho, hf, fun j => (hs j).2.trans (h.generation j), fun j hj => h.creations j ((hs j).1.symm.trans hj)⟩

theorem Stacked.created (h : Stacked s c) (hi : ¬s.Allocated i) {surface : GraphicsSurface} {x y : I32} {owner : Nat} :
    Stacked (s.created i (s.newWindow i surface x y owner)) fun j => if j = i then c j + 1 else c j where
  ordered := (h.ordered.created hi).1
  focused := (h.ordered.created hi).2
  generation j := by
    rw [(like_of_unfocused created_windows).generation]
    split
    · rename_i hj
      rw [hj, ← nextGeneration_generationAt, ← h.generation]
      rfl
    · exact h.generation j
  creations j hj := by
    split
    · exact Nat.succ_pos _
    · rename_i hne
      unfold Allocated at hj
      rw [(like_of_unfocused created_windows).allocated, if_neg hne] at hj
      exact h.creations j hj

theorem Stacked.destroyed (h : Stacked s c) (hi : s.Allocated i) : Stacked (s.destroyed i) c := by
  have hlike := fun j => like_of_unfocused (@destroyed_windows s i j)
  refine ⟨(h.ordered.destroyed hi).1, (h.ordered.destroyed hi).2, fun j => ?_, fun j hj => h.creations j ?_⟩
  · rw [(hlike j).generation, ← h.generation]
    split
    · rename_i hj
      rw [hj]
    · rfl
  · unfold Allocated at hj
    rw [(hlike j).allocated] at hj
    split at hj
    · cases hj
    · exact hj

theorem Stacked.moved (h : Stacked s c) {x y : I32} : Stacked (s.moved i x y) c :=
  h.step (h.ordered.same sameStack_moved) h.focused.moved sameSlots_moved

theorem Stacked.shown (h : Stacked s c) {visible : Bool} : Stacked (s.shown i visible) c :=
  h.step h.ordered.shown.1 h.ordered.shown.2 sameSlots_shown

theorem Stacked.raised (h : Stacked s c) (hi : s.Allocated i) : Stacked (s.raised i) c :=
  h.step (h.ordered.raised hi).1 (h.ordered.raised hi).2 (h.ordered.sameSlots_raised hi)

end WindowManager

namespace WindowCall
open WindowManager
variable {s : WindowManager} {c : Fin windowCapacity → Nat}

theorem stacked_run (h : Stacked s c) : ∀ call : WindowCall, Stacked (call.run s) (call.creations s c)
  | .create surface x y owner => by
    dsimp only [run, creations]
    rcases wp_cases (@create_spec s x y surface owner) with ⟨_, _, hr, i, hi, -, -, -, hhandle, hu⟩ | ⟨_, _, hr, hspec⟩
    all_goals rw [hr]
    · rw [hhandle, hu]
      have hcreated := @Stacked.created _ _ _ h hi surface x y owner
      simp only [Fin.val_inj]
      exact hcreated
    · rw [hspec]
      exact h
  | .destroy handle => destroy_spec.keeps (P := (Stacked · c)) h fun _ => h.destroyed
  | .move handle x y => move_spec.keeps (P := (Stacked · c)) h fun _ _ => h.moved
  | .setVisible handle visible => by
    refine setVisible_spec.keeps (P := (Stacked · c)) h fun i _ => ?_
    split
    · exact h
    · exact h.shown
  | .raise handle => raise_spec.keeps (P := (Stacked · c)) h fun _ => h.raised
  | .invalidate handle rectangle => by
    refine of_wp (P := (Stacked · c)) (wp_mono invalidate_spec ?_ ?_)
    · rintro - _ ⟨i, -, rfl⟩
      split
      · exact h.of_windows addDirty_windows addDirty_windowCount
      · exact h
    · rintro - _ rfl
      exact h
  | .invalidateDesktop rectangle => h.of_windows addDirty_windows addDirty_windowCount
  | .setPointer x y visible => h.of_windows setPointer_windows.1 setPointer_windows.2

end WindowCall

namespace WindowRun
open WindowManager
variable {s : WindowManager} {c : Fin windowCapacity → Nat}

theorem stacked (h : WindowRun s c) : Stacked s c := by
  induction h with
  | @initialized framebuffer shadow desktopColor pointerColor s heq =>
    have hempty : ∀ {t : WindowManager}, (t.windows = fun _ => zeroWindow) → t.windowCount = 0 → Stacked t fun _ => 0 := by
      intro t hw hc
      have hnone : ∀ i, ¬t.Allocated i := fun i => by
        unfold Allocated
        rw [hw]
        nofun
      refine ⟨⟨fun i hi => absurd hi (hnone i), fun i j hi => absurd hi (hnone i), ?_⟩, fun i => ?_, fun i => ?_,
        fun i hi => absurd hi (hnone i)⟩
      · rw [hc, Finset.card_eq_zero, Finset.eq_empty_iff_forall_notMem]
        exact fun i hi => hnone i (mem_allocatedSlots.mp hi)
      · rw [hw]
        exact ⟨nofun, fun hx => absurd hx.1.1 (hnone i)⟩
      · rw [hw]
        rfl
    unfold windowManagerInitialize at heq
    split at heq
    · cases heq
    · obtain rfl := Except.ok.inj heq
      exact hempty addDirty_windows addDirty_windowCount
  | called _ ih => exact WindowCall.stacked_run ih _
  | composed _ ih => exact ih.of_windows rfl rfl

/-- The stack in every reachable state: z orders number the windows, raising one keeps the order of the others, the top
    visible window has the focus, and a handle is good for the window that it was given for. -/
theorem window_stacking (h : WindowRun s c) :
    (((List.finRange windowCapacity).filter s.Allocated).map s.z).Perm (List.range' 1 s.windowCount) ∧
    (∀ handle i u, s.findWindow handle = some i → windowRaise handle s = (.ok (), u) →
      (∀ j, u.Allocated j → u.z j ≤ u.z i) ∧
      ∀ j k, j ≠ i → k ≠ i → s.Allocated j → s.Allocated k → (u.z j < u.z k ↔ s.z j < s.z k)) ∧
    (∀ i, (s.windows i).focused = true ↔ s.Visible i ∧ ∀ j, s.Visible j → s.z j ≤ s.z i) ∧
    (∀ surface x y owner handle u, windowCreate surface x y owner s = (.ok handle, u) →
      (∃ i, ¬s.Allocated i ∧ handle = ⟨i.1, generationAt (c i + 1)⟩ ∧ u.findWindow handle = some i) ∧
        ∀ other, other ≠ handle → u.findWindow other = s.findWindow other) ∧
    (∀ handle u, windowDestroy handle s = (.ok (), u) → u.findWindow handle = none ∧
      ∀ other, other ≠ handle → u.findWindow other = s.findWindow other) ∧
    (∀ handle x y visible,
      (∀ m ∈ [windowDestroy handle, windowMove handle x y, windowSetVisible handle visible, windowRaise handle],
        (m s).1 = .ok () ↔ (s.findWindow handle).isSome = true) ∧
      ∀ m ∈ [windowMove handle x y, windowSetVisible handle visible, windowRaise handle], ∀ other,
        (m s).2.findWindow other = s.findWindow other) ∧
    ∀ i n, 0 < n → n ≤ c i → c i < n + 65535 →
      ((s.findWindow ⟨i.1, generationAt n⟩).isSome ↔ s.Allocated i ∧ c i = n) := by
  have hs := h.stacked
  refine ⟨?_, fun handle i u hi hu => ?_, hs.focused, fun surface x y owner handle u hu => ?_, fun handle u hu => ?_,
    fun handle x y visible => ⟨?_, ?_⟩, fun i n hn hle hlt => ?_⟩
  · have hmem : ∀ i, i ∈ (List.finRange windowCapacity).filter s.Allocated ↔ s.Allocated i := fun i => by
      rw [List.mem_filter, decide_eq_true_iff, and_iff_right (List.mem_finRange i)]
    refine (List.perm_ext_iff_of_nodup ?_ List.nodup_range').mpr fun z => ?_
    · refine List.Nodup.map_on (fun i hi j hj => ?_) ((List.nodup_finRange _).filter _)
      exact hs.ordered.inj i j ((hmem i).mp hi) ((hmem j).mp hj)
    · have himage := congrArg (z ∈ ·) hs.ordered.image
      rw [eq_iff_iff, Finset.mem_image, Finset.mem_Icc] at himage
      rw [List.mem_map, List.mem_range'_1]
      simp only [hmem]
      simp only [mem_allocatedSlots] at himage
      rw [himage]
      omega
  · obtain ⟨i', hi', hu'⟩ := wp_ok (@raise_spec s handle) hu
    obtain rfl := Option.some.inj (hi'.symm.trans hi)
    have ha := (findWindow_eq_some.mp hi).2.2.1
    have hz : ∀ j, s.Allocated j → (s.raised i').z j = s.raisedZ i' j := fun j hj =>
      (like_of_unfocused (hs.ordered.raised_windows ha)).zOrder.trans (if_pos hj)
    rw [hu']
    refine ⟨fun j hj => ?_, fun j k hji hki hj hk => ?_⟩
    · rw [hz i' ha]
      unfold raisedZ
      rw [if_pos rfl, ← raised_windowCount (s := s) (i := i')]
      exact ((hs.ordered.raised ha).1.range j hj).2
    · rw [hz j hj, hz k hk]
      exact hs.ordered.raisedZ_lt ha hj hk hji hki
  · obtain ⟨i, hi, -, -, -, hhandle, hcreated⟩ := wp_ok (@create_spec s x y surface owner) hu
    have hfind := fun other => @findWindow_created s i x y surface owner other hi
    rw [← hhandle, ← hcreated] at hfind
    refine ⟨⟨i, hi, ?_, (hfind handle).trans (if_pos rfl)⟩, fun other ho => (hfind other).trans (if_neg ho)⟩
    rw [hhandle, hs.generation, nextGeneration_generationAt]
  · obtain ⟨i, hi, rfl⟩ := wp_ok (@destroy_spec s handle) hu
    refine ⟨?_, fun other ho => ?_⟩
    · exact (findWindow_destroyed hi).trans (if_pos rfl)
    · exact (findWindow_destroyed hi).trans (if_neg ho)
  · simp only [List.forall_mem_cons, List.not_mem_nil, false_implies, implies_true, and_true]
    exact ⟨accepted_iff destroy_spec, accepted_iff move_spec, accepted_iff setVisible_spec, accepted_iff raise_spec⟩
  · simp only [List.forall_mem_cons, List.not_mem_nil, false_implies, implies_true, and_true]
    refine ⟨fun other => kept_of_wp move_spec fun _ _ => sameSlots_moved, fun other => kept_of_wp setVisible_spec fun i _ => ?_,
      fun other => kept_of_wp raise_spec fun i hi => hs.ordered.sameSlots_raised (findWindow_eq_some.mp hi).2.2.1⟩
    split
    · exact fun _ => ⟨rfl, rfl⟩
    · exact sameSlots_shown
  · rw [Option.isSome_iff_exists]
    have hpos : generationAt n ≠ 0 := by
      obtain ⟨n, rfl⟩ := Nat.exists_eq_succ_of_ne_zero hn.ne'
      exact Nat.succ_ne_zero _
    constructor
    · rintro ⟨j, hj⟩
      obtain ⟨hij, -, ha, hg⟩ := findWindow_eq_some.mp hj
      obtain rfl := Fin.ext hij
      rw [hs.generation] at hg
      exact ⟨ha, generationAt_inj hn hle hlt hg⟩
    · rintro ⟨ha, hc⟩
      refine ⟨i, findWindow_eq_some.mpr ⟨rfl, hpos, ha, ?_⟩⟩
      rw [hs.generation, hc]

def smallScreen : GraphicsSurface := ⟨some 0, 4, 3, 4⟩

/-- Three windows are made, the first one is raised, the last one hidden, and the middle one destroyed. -/
def smallCalls : List WindowCall :=
  let create := WindowCall.create ⟨some 0, 2, 2, 2⟩ (i32 1) (i32 1) 1
  [create, create, create, .raise ⟨0, 1⟩, .setVisible ⟨2, 1⟩ false, .destroy ⟨1, 1⟩]

theorem called_all (calls : List WindowCall) : ∀ {s c}, WindowRun s c →
    ∃ c', WindowRun (calls.foldl (fun s call => call.run s) s) c' := by
  induction calls with
  | nil => exact fun h => ⟨_, h⟩
  | cons call calls ih => exact fun h => ih h.called

/-- Of the two windows that are left the hidden one is raised; the handle of the destroyed one is refused, and destroying the
    other one refuses its handle too. -/
theorem window_stacking_small : ∃ s c, WindowRun s c ∧ s.windowCount = 2 ∧
    (((List.finRange windowCapacity).filter s.Allocated).map s.z).Perm (List.range' 1 2) ∧
    (windowRaise ⟨1, 1⟩ s).1 ≠ .ok () ∧ (windowRaise ⟨2, 1⟩ s).1 = .ok () ∧
    (windowRaise ⟨2, 1⟩ s).2.z 0 ≤ (windowRaise ⟨2, 1⟩ s).2.z 2 ∧
    (windowDestroy ⟨0, 1⟩ s).2.findWindow ⟨0, 1⟩ = none ∧ (windowDestroy ⟨0, 1⟩ s).2.findWindow ⟨2, 1⟩ = some 2 := by
  have hs : windowManagerInitialize smallScreen smallScreen 0 1 = .ok _ := if_neg (by decide)
  obtain ⟨c, hrun⟩ := called_all smallCalls (.initialized hs)
  obtain ⟨hperm, hraise, -, -, hdestroy, haccept, -⟩ := window_stacking hrun
  have haccepts := fun handle => (haccept handle (i32 0) (i32 0) true).1
  simp only [List.forall_mem_cons, List.not_mem_nil, false_implies, implies_true, and_true] at haccepts
  have hraised := (haccepts ⟨2, 1⟩).2.2.2.mpr (by decide +kernel)
  obtain ⟨hgone, hothers⟩ := hdestroy ⟨0, 1⟩ _ (run_eq ((haccepts ⟨0, 1⟩).1.mpr (by decide +kernel)))
  refine ⟨_, c, hrun, by decide +kernel, hperm, fun hx => absurd ((haccepts ⟨1, 1⟩).2.2.2.mp hx) (by decide +kernel), hraised,
    (hraise ⟨2, 1⟩ 2 _ (by decide +kernel) (run_eq hraised)).1 0 (by decide +kernel), hgone, ?_⟩
  rw [hothers ⟨2, 1⟩ (by decide)]
  decide +kernel

end WindowRun
end InferenceOS
