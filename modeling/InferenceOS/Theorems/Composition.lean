import InferenceOS.Theorems.Stacking

/-! Composition against a full redraw. Outside the dirty rectangle the shadow shows what a redraw of the windows would, and
    the framebuffer shows the same with the pointer; composition makes this so everywhere. -/

namespace InferenceOS
open Program GraphicsRect GraphicsSurface
variable {color : Color}

namespace GraphicsRect
variable {r r' : GraphicsRect} {x y : Nat}

def Contains (r : GraphicsRect) (x y : Nat) : Prop := r.x.1 ≤ x ∧ (x : Int) < r.right ∧ r.y.1 ≤ y ∧ (y : Int) < r.bottom

instance : Decidable (r.Contains x y) := inferInstanceAs (Decidable (_ ∧ _ ∧ _ ∧ _))

theorem Contains.intersect (h : r.Contains x y) (h' : r'.Contains x y) : rectanglesIntersect r r' = true := by
  unfold Contains at h h'
  unfold rectanglesIntersect
  rw [decide_eq_true_iff]
  omega

def Within (r : GraphicsRect) (surface : GraphicsSurface) : Prop :=
  0 ≤ r.x.1 ∧ r.x.1 < r.right ∧ r.right ≤ surface.width ∧ 0 ≤ r.y.1 ∧ r.y.1 < r.bottom ∧ r.bottom ≤ surface.height

end GraphicsRect

namespace GraphicsSurface
variable {surface : GraphicsSurface} {r : GraphicsRect} {color : Color} {pixels : PixelMemory} {x y : Nat}

def Holds (surface : GraphicsSurface) (x y : Nat) : Prop := x < surface.width ∧ y < surface.height

theorem width_le_stride (h : surface.isValid = true) : surface.width ≤ surface.stride := by
  unfold isValid at h
  rw [decide_eq_true_iff] at h
  exact h.2.2.2

theorem fillRect_apply (hv : surface.isValid = true) (hp : surface.Holds x y) : surface.fillRect r color pixels (y * surface.stride + x) =
    if r.Contains x y then color else pixels (y * surface.stride + x) := by
  have hstride := width_le_stride hv
  unfold Holds at hp
  unfold fillRect
  split
  · rename_i hbad
    rw [hv] at hbad
    rw [if_neg]
    unfold GraphicsRect.Contains right bottom
    rcases hbad with hbad | hbad | hbad
    · cases hbad
    · omega
    · omega
  · dsimp only
    split
    · rename_i hempty
      rw [if_neg]
      unfold GraphicsRect.Contains
      omega
    · rw [Raster.writeRegion_apply (by omega) (by omega)]
      refine if_congr ?_ rfl rfl
      unfold GraphicsRect.Contains
      omega

def PointerCovers (px py : I32) (x y : Nat) : Prop :=
  ∃ row ∈ rowWidths.zipIdx, py.1 + row.2 = y ∧ px.1 ≤ x ∧ (x : Int) < px.1 + row.1

instance {px py : I32} : Decidable (PointerCovers px py x y) := List.decidableBEx _ _

theorem foldl_fillRect {px py : I32} (hv : surface.isValid = true) (hp : surface.Holds x y) (hpy : py.1 + 12 ≤ 2 ^ 31) :
    ∀ {l : List (Nat × Nat)} {pixels : PixelMemory}, (∀ row ∈ l, row.2 < 12 ∧ row.1 ≤ 8) →
      l.foldl (fun pixels (width, row) => surface.fillRect ⟨px, i32 (py + (i32 row).1), i32 width, i32 1⟩ color pixels) pixels
        (y * surface.stride + x) =
      if ∃ row ∈ l, py.1 + row.2 = y ∧ px.1 ≤ x ∧ (x : Int) < px.1 + row.1 then color else pixels (y * surface.stride + x) := by
  intro l
  induction l with
  | nil =>
    intro pixels _
    rw [if_neg fun hx => absurd hx.choose_spec.1 List.not_mem_nil]
    rfl
  | cons entry l ih =>
    obtain ⟨width, row⟩ := entry
    intro pixels hl
    obtain ⟨hrow, hwidth⟩ := hl (width, row) List.mem_cons_self
    dsimp only at hrow hwidth
    have hpy' := py.2
    have hcontains : (⟨px, i32 (py + (i32 row).1), i32 width, i32 1⟩ : GraphicsRect).Contains x y ↔
        py.1 + row = y ∧ px.1 ≤ x ∧ (x : Int) < px.1 + width := by
      unfold GraphicsRect.Contains right bottom
      dsimp only
      rw [i32_val (v := (row : Int)) (by omega), i32_val (v := (width : Int)) (by omega), i32_val (by omega), i32_val (by omega)]
      omega
    rw [List.foldl_cons, ih fun row' hrow' => hl row' (List.mem_cons_of_mem _ hrow')]
    dsimp only
    rw [fillRect_apply hv hp, if_congr hcontains rfl rfl]
    simp only [List.exists_mem_cons_iff]
    by_cases hhere : py.1 + row = y ∧ px.1 ≤ x ∧ (x : Int) < px.1 + width
    · rw [if_pos hhere, if_pos (Or.inl hhere), ite_self]
    · rw [if_neg hhere, if_congr (or_iff_right hhere) rfl rfl]

theorem drawPointer_apply {px py : I32} (hv : surface.isValid = true) (hp : surface.Holds x y) (hpy : py.1 + 12 ≤ 2 ^ 31) :
    surface.drawPointer px py color pixels (y * surface.stride + x) =
      if PointerCovers px py x y then color else pixels (y * surface.stride + x) :=
  foldl_fillRect hv hp hpy (by decide)

end GraphicsSurface
namespace WindowManager
variable {s u : WindowManager} {i j : Fin windowCapacity} {r : GraphicsRect} {x y : Nat} {client : PixelMemory}

def Dirty (s : WindowManager) (x y : Nat) : Prop := s.dirtyValid = true ∧ s.dirty.Contains x y

/-- The surfaces of the screen match, and the dirty rectangle lies on it. -/
structure Fits (s : WindowManager) : Prop where
  framebuffer : s.framebuffer.isValid = true
  shadow : s.shadow.isValid = true
  same : s.shadow.width = s.framebuffer.width ∧ s.shadow.height = s.framebuffer.height
  small : s.framebuffer.width < 2 ^ 30 ∧ s.framebuffer.height < 2 ^ 30
  dirty : s.dirtyValid = true → s.dirty.Within s.framebuffer

theorem clipToScreen_spec (h : Fits s) (hp : s.framebuffer.Holds x y) :
    (∀ r' ∈ s.clipToScreen r, r'.Within s.framebuffer ∧ (r.Contains x y → r'.Contains x y)) ∧
      (s.clipToScreen r = none → ¬r.Contains x y) := by
  obtain ⟨hw, hh⟩ := h.small
  unfold GraphicsSurface.Holds at hp
  unfold clipToScreen
  dsimp only
  split
  · refine ⟨fun r' hr' => (by cases hr'), fun _ => ?_⟩
    unfold GraphicsRect.Contains right bottom
    omega
  · split
    · refine ⟨fun r' hr' => (by cases hr'), fun _ => ?_⟩
      unfold GraphicsRect.Contains
      omega
    · refine ⟨fun r' hr' => ?_, fun hx => (by cases hx)⟩
      obtain rfl := Option.some.inj hr'
      unfold GraphicsRect.Within GraphicsRect.Contains right bottom at *
      dsimp only
      rw [i32_val (by omega), i32_val (by omega), i32_val (by omega), i32_val (by omega)]
      omega

structure SameScreen (s u : WindowManager) : Prop where
  framebuffer : u.framebuffer = s.framebuffer
  shadow : u.shadow = s.shadow
  desktopColor : u.desktopColor = s.desktopColor
  pointerColor : u.pointerColor = s.pointerColor

theorem SameScreen.refl : SameScreen s s := ⟨rfl, rfl, rfl, rfl⟩

theorem SameScreen.trans {t : WindowManager} (h : SameScreen s u) (h' : SameScreen u t) : SameScreen s t :=
  ⟨h'.framebuffer.trans h.framebuffer, h'.shadow.trans h.shadow, h'.desktopColor.trans h.desktopColor,
    h'.pointerColor.trans h.pointerColor⟩

theorem sameScreen_addDirty : SameScreen s (s.addDirty r) := by
  unfold addDirty
  split
  · exact SameScreen.refl
  · split <;> exact ⟨rfl, rfl, rfl, rfl⟩

theorem addDirty_pointer : (s.addDirty r).pointerX = s.pointerX ∧ (s.addDirty r).pointerY = s.pointerY ∧
    (s.addDirty r).pointerVisible = s.pointerVisible := by
  unfold addDirty
  split
  · exact ⟨rfl, rfl, rfl⟩
  · split <;> exact ⟨rfl, rfl, rfl⟩

theorem Fits.addDirty (h : Fits s) : Fits (s.addDirty r) ∧
    ∀ {x y : Nat}, s.framebuffer.Holds x y → s.Dirty x y ∨ r.Contains x y → (s.addDirty r).Dirty x y := by
  obtain ⟨hw, hh⟩ := h.small
  have hclip := fun {x y : Nat} (hp : s.framebuffer.Holds x y) => @clipToScreen_spec s r x y h hp
  -- a screen has a first pixel
  have horigin : s.framebuffer.Holds 0 0 := by
    have hv := h.framebuffer
    unfold isValid at hv
    rw [decide_eq_true_iff] at hv
    exact ⟨Nat.pos_of_ne_zero hv.2.1, Nat.pos_of_ne_zero hv.2.2.1⟩
  unfold WindowManager.addDirty
  cases hr : s.clipToScreen r with
  | none =>
    rw [hr] at hclip
    exact ⟨h, fun hp hx => hx.resolve_right ((hclip hp).2 rfl)⟩
  | some r' =>
    rw [hr] at hclip
    have hwithin := ((hclip horigin).1 r' rfl).1
    dsimp only
    split
    · rename_i hclean
      refine ⟨⟨h.framebuffer, h.shadow, h.same, h.small, fun _ => hwithin⟩, fun hp hx => ⟨rfl, ?_⟩⟩
      rcases hx with hx | hx
      · rw [hx.1] at hclean
        cases hclean
      · exact ((hclip hp).1 r' rfl).2 hx
    · rename_i hclean
      rw [Bool.not_eq_false] at hclean
      have hdirty := h.dirty hclean
      unfold GraphicsRect.Within right bottom at hwithin hdirty
      refine ⟨⟨h.framebuffer, h.shadow, h.same, h.small, fun _ => ?_⟩, fun {x y} hp hx => ⟨hclean, ?_⟩⟩
      · unfold GraphicsRect.Within right bottom
        dsimp only
        rw [i32_val (by omega), i32_val (by omega), i32_val (by omega), i32_val (by omega)]
        omega
      · have hin : s.dirty.Contains x y ∨ r'.Contains x y := hx.imp (fun hx => hx.2) ((hclip hp).1 r' rfl).2
        unfold GraphicsRect.Contains right bottom at hin ⊢
        dsimp only
        rw [i32_val (by omega), i32_val (by omega), i32_val (by omega), i32_val (by omega)]
        omega

open WindowSystem

/-- The window is visible and has the point. -/
def Covers (s : WindowManager) (i : Fin windowCapacity) (x y : Nat) : Prop := s.Visible i ∧ (s.windows i).bounds.Contains x y

def Shows (s : WindowManager) (client : PixelMemory) (x y : Nat) (color : Color) : Prop :=
  (∃ i, s.Covers i x y ∧ (∀ j, s.Covers j x y → s.z j ≤ s.z i) ∧ color = clientPixel client (s.windows i) y x) ∨
  (∀ i, ¬s.Covers i x y) ∧ color = s.desktopColor

theorem Shows.unique (ho : Ordered s) {color' : Color} (h : s.Shows client x y color) (h' : s.Shows client x y color') :
    color = color' := by
  rcases h with ⟨i, hi, htop, hc⟩ | ⟨hnone, hc⟩ <;> rcases h' with ⟨j, hj, htop', hc'⟩ | ⟨hnone', hc'⟩
  · have heq := ho.inj i j hi.1.1 hj.1.1 (Nat.le_antisymm (htop' i hi) (htop j hj))
    rw [hc, hc', heq]
  · exact absurd hi (hnone' i)
  · exact absurd hj (hnone j)
  · rw [hc, hc']

theorem Shows.congr {client' : PixelMemory} (hcovers : ∀ i, u.Covers i x y ↔ s.Covers i x y)
    (hz : ∀ i j, s.Covers i x y → s.Covers j x y → (u.z j ≤ u.z i ↔ s.z j ≤ s.z i))
    (hpixel : ∀ i, s.Covers i x y → clientPixel client' (u.windows i) y x = clientPixel client (s.windows i) y x)
    (hdesktop : u.desktopColor = s.desktopColor) (h : s.Shows client x y color) : u.Shows client' x y color := by
  rcases h with ⟨i, hi, htop, hc⟩ | ⟨hnone, hc⟩
  · refine Or.inl ⟨i, (hcovers i).mpr hi, fun j hj => ?_, ?_⟩
    · have hj := (hcovers j).mp hj
      exact (hz i j hi hj).mpr (htop j hj)
    · rw [hc, hpixel i hi]
  · exact Or.inr ⟨fun i hi => hnone i ((hcovers i).mp hi), by rw [hc, hdesktop]⟩

/-- The windows that can be seen, in increasing z order. -/
structure PaintOrder (s : WindowManager) (l : List (Fin windowCapacity)) : Prop where
  increasing : l.Pairwise fun i j => s.z i < s.z j
  mem : ∀ i, i ∈ l ↔ s.Visible i

def paintOver (s : WindowManager) (client : PixelMemory) (x y : Nat) (color : Color) (i : Fin windowCapacity) : Color :=
  if (s.windows i).bounds.Contains x y then clientPixel client (s.windows i) y x else color

def painted (s : WindowManager) (client : PixelMemory) (l : List (Fin windowCapacity)) (x y : Nat) : Color :=
  l.foldl (s.paintOver client x y) s.desktopColor

theorem PaintOrder.shows {l : List (Fin windowCapacity)} (h : PaintOrder s l) : s.Shows client x y (s.painted client l x y) := by
  have hfold : ∀ {l : List (Fin windowCapacity)} {color : Color}, (l.Pairwise fun i j => s.z i < s.z j) →
      (∃ i ∈ l, (s.windows i).bounds.Contains x y ∧ (∀ j ∈ l, (s.windows j).bounds.Contains x y → s.z j ≤ s.z i) ∧
        l.foldl (s.paintOver client x y) color = clientPixel client (s.windows i) y x) ∨
      (∀ i ∈ l, ¬(s.windows i).bounds.Contains x y) ∧ l.foldl (s.paintOver client x y) color = color := by
    intro l
    induction l with
    | nil => exact fun _ => Or.inr ⟨fun i hi => (nomatch hi), rfl⟩
    | cons i l ih =>
      intro color hpairwise
      obtain ⟨hfirst, hrest⟩ := List.pairwise_cons.mp hpairwise
      rw [List.foldl_cons]
      rcases @ih (s.paintOver client x y color i) hrest with ⟨j, hj, hcontains, htop, hcolor⟩ | ⟨hnone, hcolor⟩
      · refine Or.inl ⟨j, List.mem_cons_of_mem i hj, hcontains, fun k hk hck => ?_, hcolor⟩
        rcases List.mem_cons.mp hk with rfl | hk
        · exact (hfirst j hj).le
        · exact htop k hk hck
      · rw [hcolor]
        unfold paintOver
        split
        · rename_i hcontains
          refine Or.inl ⟨i, List.mem_cons_self, hcontains, fun k hk hck => ?_, rfl⟩
          rcases List.mem_cons.mp hk with rfl | hk
          · exact Nat.le_refl _
          · exact absurd hck (hnone k hk)
        · rename_i hcontains
          refine Or.inr ⟨fun k hk => ?_, rfl⟩
          rcases List.mem_cons.mp hk with rfl | hk
          · exact hcontains
          · exact hnone k hk
  rcases @hfold l s.desktopColor h.increasing with ⟨i, hi, hcontains, htop, hcolor⟩ | ⟨hnone, hcolor⟩
  · exact Or.inl ⟨i, ⟨(h.mem i).mp hi, hcontains⟩, fun j hj => htop j ((h.mem j).mpr hj.1) hj.2, hcolor⟩
  · exact Or.inr ⟨fun i hi => hnone i ((h.mem i).mpr hi.1) hi.2, hcolor⟩

def loopOrder (s : WindowManager) : List (Fin windowCapacity) :=
  (List.range' 1 s.windowCount).flatMap fun z =>
    (List.finRange windowCapacity).filter fun i => s.Visible i ∧ s.z i = z

theorem Ordered.paintOrder (h : Ordered s) : PaintOrder s s.loopOrder where
  increasing := by
    unfold loopOrder
    refine List.pairwise_flatMap.mpr ⟨fun z _ => ?_, ?_⟩
    · refine List.Pairwise.imp_of_mem ?_ ((List.nodup_finRange _).filter _)
      intro i j hi hj hne
      rw [List.mem_filter, decide_eq_true_iff] at hi hj
      exact absurd (h.inj i j hi.2.1.1 hj.2.1.1 (hi.2.2.trans hj.2.2.symm)) hne
    · refine List.Pairwise.imp ?_ (List.pairwise_lt_range' (s := 1) (n := s.windowCount))
      intro z z' hlt i hi j hj
      rw [List.mem_filter, decide_eq_true_iff] at hi hj
      rw [hi.2.2, hj.2.2]
      exact hlt
  mem i := by
    unfold loopOrder
    rw [List.mem_flatMap]
    constructor
    · rintro ⟨z, -, hi⟩
      rw [List.mem_filter, decide_eq_true_iff] at hi
      exact hi.2.1
    · intro hi
      have hrange := h.range i hi.1
      refine ⟨s.z i, List.mem_range'_1.mpr ⟨hrange.1, by omega⟩, ?_⟩
      rw [List.mem_filter, decide_eq_true_iff]
      exact ⟨List.mem_finRange i, hi, rfl⟩

end WindowManager

namespace WindowSystem
open WindowManager
variable {m : WindowManager} {target source : GraphicsSurface} {window : Window} {dirty : GraphicsRect}
  {client pixels copied : PixelMemory} {x y : Nat}

theorem compositeWindow_apply (hv : target.isValid = true) (hp : target.Holds x y) :
    compositeWindow target window dirty client pixels (y * target.stride + x) =
      if window.bounds.Contains x y ∧ dirty.Contains x y then clientPixel client window y x else pixels (y * target.stride + x) := by
  have hstride := width_le_stride hv
  unfold GraphicsSurface.Holds at hp
  unfold compositeWindow
  split
  · rw [if_neg]
    unfold GraphicsRect.Contains
    omega
  · rw [Raster.writeRegion_apply (by omega) (by omega)]
    refine if_congr ?_ rfl rfl
    -- Each limit of the region splits into those of the window, the dirty rectangle and the target.
    have hlow : ∀ {a b : Int} {n : Nat}, (max (max a b) 0).toNat ≤ n ↔ a ≤ n ∧ b ≤ n := by
      intro a b n
      omega
    have hhigh : ∀ {a b : Int} {n k : Nat}, n < k → (n < (min (min a b) k).toNat ↔ n < a ∧ n < b) := by
      intro a b n k hn
      omega
    unfold GraphicsRect.Contains
    rw [hlow, hlow, hhigh hp.1, hhigh hp.2]
    tauto

theorem copyRegion_apply (hv : target.isValid = true) (hp : target.Holds x y) (hw : dirty.Within target)
    (hsmall : target.width < 2 ^ 30 ∧ target.height < 2 ^ 30) :
    copyRegion target source dirty copied pixels (y * target.stride + x) =
      if dirty.Contains x y then copied (y * source.stride + x) else pixels (y * target.stride + x) := by
  have hstride := width_le_stride hv
  unfold GraphicsSurface.Holds at hp
  unfold GraphicsRect.Within at hw
  unfold copyRegion
  rw [i32_val (by omega), i32_val (by omega), Raster.writeRegion_apply (by omega) (by omega)]
  refine if_congr ?_ rfl rfl
  unfold GraphicsRect.Contains
  omega

theorem compositeWindows_apply (hv : m.shadow.isValid = true) (hp : m.shadow.Holds x y) :
    compositeWindows m client pixels (y * m.shadow.stride + x) =
      if m.dirty.Contains x y then m.loopOrder.foldl (m.paintOver client x y) (pixels (y * m.shadow.stride + x))
      else pixels (y * m.shadow.stride + x) := by
  have hone : ∀ {i : Fin windowCapacity} {pixels : PixelMemory},
      compositeWindow m.shadow (m.windows i) m.dirty client pixels (y * m.shadow.stride + x) =
        if m.dirty.Contains x y then m.paintOver client x y (pixels (y * m.shadow.stride + x)) i
        else pixels (y * m.shadow.stride + x) := by
    intro i pixels
    rw [compositeWindow_apply hv hp]
    unfold paintOver
    by_cases hd : m.dirty.Contains x y
    · rw [if_pos hd, if_congr (and_iff_left hd) rfl rfl]
    · rw [if_neg hd, if_neg fun h => hd h.2]
  -- a window that does not meet the dirty rectangle paints no pixel of it
  have hinner : ∀ {z : Nat} {l : List (Fin windowCapacity)} {pixels : PixelMemory}, l.foldl (fun pixels i =>
      let window := m.windows i
      if window.allocated ∧ window.visible ∧ window.zOrder = z ∧ rectanglesIntersect window.bounds m.dirty then
        compositeWindow m.shadow window m.dirty client pixels
      else pixels) pixels (y * m.shadow.stride + x) =
      if m.dirty.Contains x y then
        (l.filter fun i => m.Visible i ∧ m.z i = z).foldl (m.paintOver client x y) (pixels (y * m.shadow.stride + x))
      else pixels (y * m.shadow.stride + x) := by
    intro z l
    induction l with
    | nil =>
      intro pixels
      rw [List.filter_nil]
      exact (ite_self _).symm
    | cons i l ih =>
      intro pixels
      rw [List.foldl_cons, ih]
      by_cases hd : m.dirty.Contains x y
      · rw [if_pos hd, if_pos hd]
        by_cases hz : m.Visible i ∧ m.z i = z
        · rw [List.filter_cons_of_pos (by rwa [decide_eq_true_iff]), List.foldl_cons]
          congr 1
          split
          · rw [hone, if_pos hd]
          · rename_i hskip
            unfold paintOver
            rw [if_neg fun hc => hskip ⟨hz.1.1, hz.1.2, hz.2, hc.intersect hd⟩]
        · rw [List.filter_cons_of_neg (by rwa [decide_eq_true_iff]), if_neg fun hx => hz ⟨⟨hx.1, hx.2.1⟩, hx.2.2.1⟩]
      · rw [if_neg hd, if_neg hd]
        split
        · rw [hone, if_neg hd]
        · rfl
  have houter : ∀ {zs : List Nat} {pixels : PixelMemory}, zs.foldl (fun pixels z =>
      (List.finRange windowCapacity).foldl (fun pixels i =>
        let window := m.windows i
        if window.allocated ∧ window.visible ∧ window.zOrder = z ∧ rectanglesIntersect window.bounds m.dirty then
          compositeWindow m.shadow window m.dirty client pixels
        else pixels) pixels) pixels (y * m.shadow.stride + x) =
      if m.dirty.Contains x y then
        (zs.flatMap fun z => (List.finRange windowCapacity).filter fun i => m.Visible i ∧ m.z i = z).foldl
          (m.paintOver client x y) (pixels (y * m.shadow.stride + x))
      else pixels (y * m.shadow.stride + x) := by
    intro zs
    induction zs with
    | nil =>
      intro pixels
      exact (ite_self _).symm
    | cons z zs ih =>
      intro pixels
      rw [List.foldl_cons, ih, hinner, List.flatMap_cons, List.foldl_append]
      by_cases hd : m.dirty.Contains x y
      · rw [if_pos hd, if_pos hd, if_pos hd]
      · rw [if_neg hd, if_neg hd, if_neg hd]
  exact houter

def PointerAt (m : WindowManager) (x y : Nat) : Prop :=
  m.pointerVisible = true ∧ GraphicsSurface.PointerCovers m.pointerX m.pointerY x y

instance : Decidable (PointerAt m x y) := inferInstanceAs (Decidable (_ ∧ _))

/-- The colour that a full redraw gives a point. -/
def redraw (m : WindowManager) (client : PixelMemory) (l : List (Fin windowCapacity)) (x y : Nat) : Color :=
  if PointerAt m x y then m.pointerColor else m.painted client l x y

theorem PointerAt.contains (h : PointerAt m x y) : m.pointerBounds.Contains x y := by
  obtain ⟨-, row, hrow, hy, hx, hlt⟩ := h
  have hsize : row.2 < 12 ∧ row.1 ≤ 8 := (by decide : ∀ row ∈ rowWidths.zipIdx, row.2 < 12 ∧ row.1 ≤ 8) row hrow
  have hwidth : windowPointerWidth.1 = 8 := i32_val (by omega)
  have hheight : windowPointerHeight.1 = 12 := i32_val (by omega)
  unfold GraphicsRect.Contains right bottom pointerBounds
  dsimp only
  omega

variable {s u : WindowSystem}

def shadowAt (s : WindowSystem) (x y : Nat) : Color := s.shadow (y * s.manager.shadow.stride + x)

def framebufferAt (s : WindowSystem) (x y : Nat) : Color := s.framebuffer (y * s.manager.framebuffer.stride + x)

def Settled (s : WindowSystem) (x y : Nat) : Prop := s.manager.Shows s.client x y (s.shadowAt x y) ∧
  s.framebufferAt x y = if PointerAt s.manager x y then s.manager.pointerColor else s.shadowAt x y

def clean (m : WindowManager) : WindowManager := { m with dirtyValid := false, dirty := .zero }

theorem compose_spec (hf : Fits s.manager) (ho : Ordered s.manager) : wp windowCompose
    (fun _ u => s.manager.dirtyValid = false ∧ u = s ∨
      u.manager = clean s.manager ∧ u.client = s.client ∧ ∀ {x y : Nat}, s.manager.framebuffer.Holds x y →
        s.manager.Dirty x y ∨ Settled s x y → Settled u x y)
    (fun _ _ => False) s := by
  unfold windowCompose
  simp only [wp_bind, wp_get, wp_failIf, hf.framebuffer, hf.shadow]
  refine ⟨fun hbad => by simp at hbad, fun _ => ?_⟩
  split
  · rename_i hclean
    exact Or.inl ⟨hclean, rfl⟩
  · rename_i hvalid
    rw [Bool.not_eq_false] at hvalid
    simp only [wp_bind, wp_modify]
    have hwithin := hf.dirty hvalid
    generalize hm : s.manager = m at *
    refine Or.inr ?_
    generalize hfilled : m.shadow.fillRect m.dirty m.desktopColor s.shadow = filled
    generalize hcomposed : compositeWindows m s.client filled = composed
    generalize hcopied : copyRegion m.framebuffer m.shadow m.dirty composed s.framebuffer = copied
    have hshadow : ∀ {x y : Nat}, m.framebuffer.Holds x y → composed (y * m.shadow.stride + x) =
        if m.dirty.Contains x y then m.painted s.client m.loopOrder x y else s.shadow (y * m.shadow.stride + x) := by
      intro x y hp
      have hp' : m.shadow.Holds x y := by
        unfold GraphicsSurface.Holds at hp ⊢
        rw [hf.same.1, hf.same.2]
        exact hp
      rw [← hcomposed, compositeWindows_apply hf.shadow hp', ← hfilled, fillRect_apply hf.shadow hp']
      by_cases hd : m.dirty.Contains x y
      · rw [if_pos hd, if_pos hd, if_pos hd]
        rfl
      · rw [if_neg hd, if_neg hd, if_neg hd]
    have hframe : ∀ {x y : Nat}, m.framebuffer.Holds x y → copied (y * m.framebuffer.stride + x) =
        if m.dirty.Contains x y then composed (y * m.shadow.stride + x) else s.framebuffer (y * m.framebuffer.stride + x) := by
      intro x y hp
      rw [← hcopied, copyRegion_apply hf.framebuffer hp hwithin hf.small]
    -- the framebuffer has the pointer at its pixels, drawn now or left there
    have hsettled : ∀ {fb : PixelMemory}, (∀ {x y : Nat}, m.framebuffer.Holds x y → m.Dirty x y ∨ Settled s x y →
        fb (y * m.framebuffer.stride + x) = if PointerAt m x y then m.pointerColor else composed (y * m.shadow.stride + x)) →
        ∀ {x y : Nat}, m.framebuffer.Holds x y → m.Dirty x y ∨ Settled s x y → Settled ⟨clean m, fb, composed, s.client⟩ x y := by
      intro fb hfb x y hp hx
      refine ⟨?_, hfb hp hx⟩
      show m.Shows s.client x y (composed (y * m.shadow.stride + x))
      rw [hshadow hp]
      split
      · exact ho.paintOrder.shows
      · rename_i hd
        rcases hx with hx | hx
        · exact absurd hx.2 hd
        · unfold Settled shadowAt at hx
          rw [hm] at hx
          exact hx.1
    have hkept : ∀ {x y : Nat}, m.framebuffer.Holds x y → m.Dirty x y ∨ Settled s x y → ¬PointerAt m x y ∨ ¬m.dirty.Contains x y →
        copied (y * m.framebuffer.stride + x) = if PointerAt m x y then m.pointerColor else composed (y * m.shadow.stride + x) := by
      intro x y hp hx hor
      rw [hframe hp]
      by_cases hd : m.dirty.Contains x y
      · rw [if_pos hd, if_neg (hor.resolve_right fun hx => hx hd)]
      · rcases hx with hx | hx
        · exact absurd hx.2 hd
        · unfold Settled shadowAt framebufferAt at hx
          rw [hm] at hx
          rw [if_neg hd, hshadow hp, if_neg hd]
          exact hx.2
    split
    · rename_i hdraw
      have hpointer : m.pointerY.1 + 12 ≤ 2 ^ 31 := by
        have hmeet := hdraw.2
        have hsmall := hf.small
        unfold rectanglesIntersect at hmeet
        rw [decide_eq_true_iff] at hmeet
        have hy : m.pointerBounds.y = m.pointerY := rfl
        unfold GraphicsRect.Within at hwithin
        rw [hy] at hmeet
        omega
      refine ⟨rfl, rfl, hsettled fun {x y} hp hx => ?_⟩
      dsimp only
      rw [drawPointer_apply hf.framebuffer hp hpointer]
      by_cases hat : PointerAt m x y
      · rw [if_pos hat.2, if_pos hat]
      · rw [if_neg fun hc => hat ⟨hdraw.1, hc⟩, hkept hp hx (Or.inl hat)]
    · rename_i hdraw
      refine ⟨rfl, rfl, hsettled fun {x y} hp hx => hkept hp hx ?_⟩
      by_contra hboth
      rw [not_or, not_not, not_not] at hboth
      exact hdraw ⟨hboth.1.1, hboth.1.contains.intersect hboth.2⟩

end WindowSystem

namespace WindowManager
variable {s t u : WindowManager} {i : Fin windowCapacity} {r : GraphicsRect} {rects rects' : List GraphicsRect}

structure Marks (s u : WindowManager) (rects : List GraphicsRect) : Prop where
  fits : Fits s → Fits u
  screen : SameScreen s u
  clean : Fits s → ∀ {x y : Nat}, s.framebuffer.Holds x y → ¬u.Dirty x y → ¬s.Dirty x y ∧ ∀ r ∈ rects, ¬r.Contains x y

theorem Marks.trans (h : Marks s t rects) (h' : Marks t u rects') : Marks s u (rects ++ rects') where
  fits hf := h'.fits (h.fits hf)
  screen := h.screen.trans h'.screen
  clean hf {x y} hp hd := by
    have hp' : t.framebuffer.Holds x y := by
      rw [h.screen.framebuffer]
      exact hp
    obtain ⟨ht, hrects'⟩ := h'.clean (h.fits hf) hp' hd
    obtain ⟨hs, hrects⟩ := h.clean hf hp ht
    exact ⟨hs, fun r hr => (List.mem_append.mp hr).elim (hrects r) (hrects' r)⟩

theorem marks_addDirty : Marks s (s.addDirty r) [r] where
  fits hf := hf.addDirty.1
  screen := sameScreen_addDirty
  clean hf {x y} hp hd := ⟨fun hx => hd (hf.addDirty.2 hp (Or.inl hx)), fun r' hr' hc => by
    obtain rfl := List.mem_singleton.mp hr'
    exact hd (hf.addDirty.2 hp (Or.inr hc))⟩

theorem marks_nothing (hs : SameScreen s u) (hv : u.dirtyValid = s.dirtyValid) (hd : u.dirty = s.dirty) : Marks s u [] where
  fits hf := by
    refine ⟨?_, ?_, ?_, ?_, ?_⟩
    all_goals
      try rw [hs.framebuffer]
      try rw [hs.shadow]
    · exact hf.framebuffer
    · exact hf.shadow
    · exact hf.same
    · exact hf.small
    · rw [hv, hd]
      exact hf.dirty
  screen := hs
  clean _ {x y} _ hx := ⟨fun hy => hx ⟨hv.trans hy.1, hd ▸ hy.2⟩, fun r hr => nomatch hr⟩

theorem marks_if {c : Prop} [Decidable c] : Marks s (if c then s.addDirty r else s) (if c then [r] else []) := by
  split
  · exact marks_addDirty
  · exact marks_nothing SameScreen.refl rfl rfl

theorem marks_created {window : Window} : Marks s (s.created i window) [window.bounds] := by
  have hset : Marks s ({ s.setWindow i window with windowCount := s.windowCount + 1 }).selectTopFocus [] :=
    marks_nothing ⟨rfl, rfl, rfl, rfl⟩ rfl rfl
  exact hset.trans marks_addDirty

theorem marks_destroyed : Marks s (s.destroyed i) (if (s.windows i).visible then [(s.windows i).bounds] else []) := by
  have hlast : Marks (if (s.windows i).visible then s.addDirty (s.windows i).bounds else s) (s.destroyed i) [] :=
    marks_nothing ⟨rfl, rfl, rfl, rfl⟩ rfl rfl
  have hboth := (marks_if (s := s) (r := (s.windows i).bounds) (c := (s.windows i).visible = true)).trans hlast
  rwa [List.append_nil] at hboth

theorem marks_moved {x y : I32} : Marks s (s.moved i x y)
    (if (s.windows i).visible then [(s.windows i).bounds, { (s.windows i).bounds with x, y }] else []) := by
  have hset : ∀ {t : WindowManager} {window : Window}, Marks t (t.setWindow i window) [] :=
    fun {t window} => marks_nothing ⟨rfl, rfl, rfl, rfl⟩ rfl rfl
  unfold moved
  dsimp only
  split
  · exact (marks_addDirty.trans hset).trans marks_addDirty
  · exact hset

theorem marks_shown {visible : Bool} : Marks s (s.shown i visible) [(s.windows i).bounds] := by
  have hset : Marks (s.addDirty (s.windows i).bounds) (s.shown i visible) [] := marks_nothing ⟨rfl, rfl, rfl, rfl⟩ rfl rfl
  exact marks_addDirty.trans hset

theorem marks_raised : Marks s (s.raised i) (if (s.windows i).zOrder = s.highestZ then [] else [(s.windows i).bounds]) := by
  have hfocus : ∀ {t : WindowManager}, Marks t t.selectTopFocus [] := marks_nothing ⟨rfl, rfl, rfl, rfl⟩ rfl rfl
  unfold raised
  split
  · exact hfocus
  · have hset : Marks s ((s.lowerAbove (s.windows i).zOrder).setWindow i { s.windows i with zOrder := s.highestZ }) [] :=
      marks_nothing ⟨rfl, rfl, rfl, rfl⟩ rfl rfl
    exact (hset.trans marks_addDirty).trans hfocus

end WindowManager
open WindowManager WindowSystem

structure Undisturbed (m m' : WindowManager) (x y : Nat) : Prop where
  covers : ∀ i, m'.Covers i x y ↔ m.Covers i x y
  order : ∀ i j, m.Covers i x y → m.Covers j x y → (m'.z j ≤ m'.z i ↔ m.z j ≤ m.z i)
  same : ∀ i, m.Covers i x y → (m'.windows i).surface = (m.windows i).surface ∧ (m'.windows i).bounds = (m.windows i).bounds
  pointer : PointerAt m' x y ↔ PointerAt m x y

namespace Undisturbed
variable {m m' : WindowManager} {i : Fin windowCapacity} {x y : Nat}

theorem of_like (hw : ∀ j, Like (m'.windows j) (m.windows j)) (hp : PointerAt m' x y ↔ PointerAt m x y) : Undisturbed m m' x y where
  covers j := by
    unfold Covers Visible
    rw [(hw j).allocated, (hw j).visible, (hw j).bounds]
  order j k _ _ := by
    unfold z
    rw [(hw j).zOrder, (hw k).zOrder]
  same j _ := ⟨(hw j).surface, (hw j).bounds⟩
  pointer := hp

theorem of_one (hi : ¬m.Covers i x y) (hi' : ¬m'.Covers i x y) (hothers : ∀ j, j ≠ i →
      (m'.windows j).surface = (m.windows j).surface ∧ (m'.windows j).bounds = (m.windows j).bounds ∧
      (m'.windows j).allocated = (m.windows j).allocated ∧ (m'.windows j).visible = (m.windows j).visible)
    (horder : ∀ j k, j ≠ i → k ≠ i → m.Allocated j → m.Allocated k → (m'.z k ≤ m'.z j ↔ m.z k ≤ m.z j))
    (hp : PointerAt m' x y ↔ PointerAt m x y) : Undisturbed m m' x y := by
  have hne : ∀ {j}, m.Covers j x y → j ≠ i := fun hj hx => hi (hx ▸ hj)
  refine ⟨fun j => ?_, fun j k hj hk => horder j k (hne hj) (hne hk) hj.1.1 hk.1.1, fun j hj => ?_, hp⟩
  · obtain rfl | hj := eq_or_ne j i
    · exact ⟨fun h => absurd h hi', fun h => absurd h hi⟩
    · obtain ⟨-, hb, ha, hv⟩ := hothers j hj
      unfold Covers Visible
      rw [hb, ha, hv]
  · obtain ⟨hs, hb, -, -⟩ := hothers j (hne hj)
    exact ⟨hs, hb⟩

theorem shows (h : Undisturbed m m' x y) (hd : m'.desktopColor = m.desktopColor) {client : PixelMemory}
    (hs : m.Shows client x y color) : m'.Shows client x y color := by
  refine hs.congr h.covers h.order (fun j hj => ?_) hd
  obtain ⟨hsurface, hbounds⟩ := h.same j hj
  unfold clientPixel
  rw [hsurface, hbounds]

end Undisturbed

namespace WindowSystem
variable {s : WindowSystem} {m' : WindowManager} {changed changed' : Fin windowCapacity → Nat → Nat → Prop} {x y : Nat}

def Pending (m : WindowManager) (changed : Fin windowCapacity → Nat → Nat → Prop) (x y : Nat) : Prop :=
  ∃ i, m.Covers i x y ∧ changed i ((x : Int) - (m.windows i).bounds.x.1).toNat ((y : Int) - (m.windows i).bounds.y.1).toNat

/-- The window is as large as its surface. -/
def Sized (window : Window) : Prop :=
  window.bounds.width.1 = window.surface.width ∧ window.bounds.height.1 = window.surface.height

structure Composed (s : WindowSystem) (changed : Fin windowCapacity → Nat → Nat → Prop) : Prop where
  fits : Fits s.manager
  ordered : Ordered s.manager
  sized : ∀ i, s.manager.Allocated i → Sized (s.manager.windows i)
  settled : ∀ {x y : Nat}, s.manager.framebuffer.Holds x y →
    s.manager.Dirty x y ∨ Pending s.manager changed x y ∨ Settled s x y

theorem Composed.step (h : Composed s changed) {rects : List GraphicsRect} (hmarks : Marks s.manager m' rects) (ho : Ordered m')
    (hsized : ∀ i, m'.Allocated i → Sized (m'.windows i))
    (hstep : ∀ {x y : Nat}, s.manager.framebuffer.Holds x y → (∀ r ∈ rects, ¬r.Contains x y) →
      Undisturbed s.manager m' x y ∧ (Pending s.manager changed x y → Pending m' changed' x y)) :
    Composed { s with manager := m' } changed' where
  fits := hmarks.fits h.fits
  ordered := ho
  sized := hsized
  settled {x y} hp := by
    have hscreen := hmarks.screen
    have hp' : s.manager.framebuffer.Holds x y := by
      rw [← hscreen.framebuffer]
      exact hp
    by_cases hd : m'.Dirty x y
    · exact Or.inl hd
    · obtain ⟨hclean, hrects⟩ := hmarks.clean h.fits hp' hd
      obtain ⟨hundisturbed, hpending⟩ := hstep hp' hrects
      refine Or.inr (((h.settled hp').resolve_left hclean).imp hpending fun hs => ?_)
      unfold Settled shadowAt framebufferAt at hs ⊢
      dsimp only
      rw [hscreen.shadow, hscreen.framebuffer, hscreen.pointerColor, hs.2]
      refine ⟨hundisturbed.shows hscreen.desktopColor hs.1, if_congr hundisturbed.pointer.symm rfl rfl⟩

theorem pending_mono {m : WindowManager} (h : Undisturbed m m' x y) (hc : ∀ i, m.Covers i x y → ∀ x y, changed i x y → changed' i x y) :
    Pending m changed x y → Pending m' changed' x y := by
  rintro ⟨i, hi, hchanged⟩
  refine ⟨i, (h.covers i).mpr hi, ?_⟩
  rw [(h.same i hi).2]
  exact hc i hi _ _ hchanged

end WindowSystem
end InferenceOS
