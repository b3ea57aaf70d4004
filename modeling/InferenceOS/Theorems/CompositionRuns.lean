import InferenceOS.Theorems.Composition

/-! Runs of the window manager with drawing clients: each call marks the pixels that it disturbs, so a composition shows what
    a full redraw would. -/

namespace InferenceOS
open Program WindowManager GraphicsRect
variable {visible : Bool} {m : WindowManager}

namespace WindowSystem
variable {s : WindowManager} {i : Fin windowCapacity} {r : GraphicsRect} {x y : Nat}

theorem pointerAt_addDirty : PointerAt (s.addDirty r) x y ↔ PointerAt s x y := by
  obtain ⟨hx, hy, hv⟩ := @addDirty_pointer s r
  unfold PointerAt
  rw [hx, hy, hv]

theorem pointerAt_created {window : Window} : PointerAt (s.created i window) x y ↔ PointerAt s x y := pointerAt_addDirty

theorem pointerAt_destroyed : PointerAt (s.destroyed i) x y ↔ PointerAt s x y := by
  show PointerAt (if (s.windows i).visible then s.addDirty (s.windows i).bounds else s) x y ↔ _
  split
  · exact pointerAt_addDirty
  · exact Iff.rfl

theorem pointerAt_moved {px py : I32} : PointerAt (s.moved i px py) x y ↔ PointerAt s x y := by
  have hset : ∀ {t : WindowManager} {window : Window}, PointerAt (t.setWindow i window) x y ↔ PointerAt t x y := Iff.rfl
  unfold moved
  dsimp only
  split
  · exact pointerAt_addDirty.trans (hset.trans pointerAt_addDirty)
  · exact hset

theorem pointerAt_shown : PointerAt (s.shown i visible) x y ↔ PointerAt s x y := by
  have hset : ∀ {t : WindowManager} {window : Window}, PointerAt (t.setWindow i window).selectTopFocus x y ↔ PointerAt t x y :=
    Iff.rfl
  exact hset.trans pointerAt_addDirty

theorem pointerAt_raised : PointerAt (s.raised i) x y ↔ PointerAt s x y := by
  have hfocus : ∀ {t : WindowManager}, PointerAt t.selectTopFocus x y ↔ PointerAt t x y := Iff.rfl
  unfold raised
  split
  · exact hfocus
  · exact hfocus.trans pointerAt_addDirty

theorem sized_of_like {window window' : Window} (hl : Like window window') (h : Sized window') : Sized window := by
  unfold Sized at *
  rw [hl.bounds, hl.surface]
  exact h

section
variable {s : WindowSystem} {changed : Fin windowCapacity → Nat → Nat → Prop} {left top : I32}


theorem Composed.created (h : Composed s changed) (hi : ¬s.manager.Allocated i) {window : Window} (hsized : Sized window)
    (hordered : Ordered (s.manager.created i window)) :
    Composed { s with manager := s.manager.created i window } fun j a b => j ≠ i ∧ changed j a b := by
  have hold : ∀ {j}, j ≠ i → Like ((s.manager.created i window).windows j) (s.manager.windows j) := by
    intro j hj
    have hlike := like_of_unfocused (@created_windows s.manager i window j)
    rwa [if_neg hj] at hlike
  have hnew : Like ((s.manager.created i window).windows i) window := by
    have hlike := like_of_unfocused (@created_windows s.manager i window i)
    rwa [if_pos rfl] at hlike
  refine h.step marks_created hordered (fun j hj => ?_) fun {x y} _ hrects => ?_
  · obtain rfl | hne := eq_or_ne j i
    · exact sized_of_like hnew hsized
    · refine sized_of_like (hold hne) (h.sized j ?_)
      exact (hold hne).allocated.symm.trans hj
  · have hcovered : ¬(s.manager.created i window).Covers i x y := by
      intro hx
      refine hrects _ (List.mem_singleton_self _) ?_
      rw [← hnew.bounds]
      exact hx.2
    have hundisturbed : Undisturbed s.manager (s.manager.created i window) x y := by
      refine .of_one (fun hx => hi hx.1.1) hcovered (fun j hj => ?_) (fun j k hj hk _ _ => ?_) pointerAt_created
      · exact ⟨(hold hj).surface, (hold hj).bounds, (hold hj).allocated, (hold hj).visible⟩
      · unfold z
        rw [(hold hj).zOrder, (hold hk).zOrder]
    refine ⟨hundisturbed, pending_mono hundisturbed fun j hj a b hc => ⟨?_, hc⟩⟩
    rintro rfl
    exact hi hj.1.1

theorem Composed.destroyed (h : Composed s changed) (hi : s.manager.Allocated i) :
    Composed { s with manager := s.manager.destroyed i } changed := by
  have hold : ∀ {j}, j ≠ i → Like ((s.manager.destroyed i).windows j) (lowerWindow (s.manager.z i) (s.manager.windows j)) := by
    intro j hj
    have hlike := like_of_unfocused (@destroyed_windows s.manager i j)
    rwa [if_neg hj] at hlike
  have hgone : ¬(s.manager.destroyed i).Allocated i := by
    have hlike := like_of_unfocused (@destroyed_windows s.manager i i)
    rw [if_pos rfl] at hlike
    unfold Allocated
    rw [hlike.allocated]
    nofun
  refine h.step marks_destroyed (h.ordered.destroyed hi).1 (fun j hj => ?_) fun {x y} _ hrects => ?_
  · have hne : j ≠ i := fun hx => hgone (hx ▸ hj)
    exact sized_of_like (hold hne) (h.sized j ((hold hne).allocated.symm.trans hj))
  · have hcovered : ¬s.manager.Covers i x y := by
      intro hx
      refine hrects _ ?_ hx.2
      rw [if_pos hx.1.2]
      exact List.mem_singleton_self _
    have hundisturbed : Undisturbed s.manager (s.manager.destroyed i) x y := by
      refine .of_one hcovered (fun hx => hgone hx.1.1) (fun j hj => ?_) (fun j k hj hk haj hak => ?_) pointerAt_destroyed
      · exact ⟨(hold hj).surface, (hold hj).bounds, (hold hj).allocated, (hold hj).visible⟩
      · have hz : ∀ {j}, j ≠ i → s.manager.Allocated j →
            (s.manager.destroyed i).z j = lowered (s.manager.z i) (s.manager.z j) ∧ s.manager.z j ≠ s.manager.z i :=
          fun hj haj => ⟨(hold hj).zOrder.trans (if_pos haj), fun hx => hj (h.ordered.inj _ _ haj hi hx)⟩
        obtain ⟨hzj, hnej⟩ := hz hj haj
        obtain ⟨hzk, hnek⟩ := hz hk hak
        rw [hzj, hzk]
        unfold lowered
        split <;> split <;> omega
    exact ⟨hundisturbed, pending_mono hundisturbed fun _ _ _ _ hc => hc⟩

theorem Composed.moved (h : Composed s changed) (hi : s.manager.Allocated i) :
    Composed { s with manager := s.manager.moved i left top } changed := by
  have hold : ∀ {j}, j ≠ i → (s.manager.moved i left top).windows j = s.manager.windows j := fun {j} hj => by
    rw [moved_windows, if_neg hj]
  have hnew : (s.manager.moved i left top).windows i =
      { s.manager.windows i with bounds := { (s.manager.windows i).bounds with x := left, y := top } } := by
    rw [moved_windows, if_pos rfl]
  refine h.step marks_moved (h.ordered.same sameStack_moved) (fun j hj => ?_) fun {x y} _ hrects => ?_
  · obtain rfl | hne := eq_or_ne j i
    · rw [hnew]
      exact h.sized j hi
    · rw [hold hne]
      refine h.sized j ?_
      unfold Allocated at hj
      rwa [hold hne] at hj
  · have hcovered : ¬s.manager.Covers i x y := by
      intro hx
      refine hrects _ ?_ hx.2
      rw [if_pos hx.1.2]
      exact List.mem_cons_self
    have hcovered' : ¬(s.manager.moved i left top).Covers i x y := by
      intro hx
      unfold Covers Visible at hx
      rw [hnew] at hx
      refine hrects _ ?_ hx.2
      rw [if_pos hx.1.2]
      exact List.mem_cons_of_mem _ (List.mem_singleton_self _)
    have hundisturbed : Undisturbed s.manager (s.manager.moved i left top) x y := by
      refine .of_one hcovered hcovered' (fun j hj => ?_) (fun j k hj hk _ _ => ?_) pointerAt_moved
      · rw [hold hj]
        exact ⟨rfl, rfl, rfl, rfl⟩
      · unfold z
        rw [hold hj, hold hk]
    exact ⟨hundisturbed, pending_mono hundisturbed fun _ _ _ _ hc => hc⟩

theorem Composed.shown (h : Composed s changed) (hi : s.manager.Allocated i) {visible : Bool} :
    Composed { s with manager := s.manager.shown i visible } changed := by
  have hold : ∀ {j}, j ≠ i → Like ((s.manager.shown i visible).windows j) (s.manager.windows j) := by
    intro j hj
    have hlike := like_of_unfocused (@shown_windows s.manager i visible j)
    rwa [if_neg hj] at hlike
  have hnew : Like ((s.manager.shown i visible).windows i) { s.manager.windows i with visible } := by
    have hlike := like_of_unfocused (@shown_windows s.manager i visible i)
    rwa [if_pos rfl] at hlike
  refine h.step marks_shown (@Ordered.shown _ _ visible h.ordered).1 (fun j hj => ?_) fun {x y} _ hrects => ?_
  · obtain rfl | hne := eq_or_ne j i
    · exact sized_of_like hnew (h.sized j hi)
    · exact sized_of_like (hold hne) (h.sized j ((hold hne).allocated.symm.trans hj))
  · have hbounds := hrects _ (List.mem_singleton_self _)
    have hundisturbed : Undisturbed s.manager (s.manager.shown i visible) x y := by
      refine .of_one (fun hx => hbounds hx.2) (fun hx => hbounds ?_) (fun j hj => ?_) (fun j k hj hk _ _ => ?_) pointerAt_shown
      · have hcontains := hx.2
        rwa [hnew.bounds] at hcontains
      · exact ⟨(hold hj).surface, (hold hj).bounds, (hold hj).allocated, (hold hj).visible⟩
      · unfold z
        rw [(hold hj).zOrder, (hold hk).zOrder]
    exact ⟨hundisturbed, pending_mono hundisturbed fun _ _ _ _ hc => hc⟩

theorem Composed.raised (h : Composed s changed) (hi : s.manager.Allocated i) :
    Composed { s with manager := s.manager.raised i } changed := by
  have hwindows : ∀ j, Like ((s.manager.raised i).windows j) (s.manager.raiseWindow i j) :=
    fun j => like_of_unfocused (h.ordered.raised_windows hi)
  have hz : ∀ {j}, s.manager.Allocated j → (s.manager.raised i).z j = s.manager.raisedZ i j :=
    fun {j} hj => (hwindows j).zOrder.trans (if_pos hj)
  refine h.step marks_raised (h.ordered.raised hi).1 (fun j hj => ?_) fun {x y} _ hrects => ?_
  · exact sized_of_like (hwindows j) (h.sized j ((hwindows j).allocated.symm.trans hj))
  · have hundisturbed : Undisturbed s.manager (s.manager.raised i) x y := by
      -- a window that is on top already moves no other
      by_cases htop : (s.manager.windows i).zOrder = s.manager.highestZ
      · refine .of_like (fun j => ?_) pointerAt_raised
        unfold WindowManager.raised
        rw [if_pos htop]
        exact like_of_unfocused rfl
      · rw [if_neg htop] at hrects
        have hbounds := hrects _ (List.mem_singleton_self _)
        refine .of_one (fun hx => hbounds hx.2) (fun hx => hbounds ?_) (fun j _ => ?_) (fun j k hj hk haj hak => ?_) pointerAt_raised
        · have hcontains := hx.2
          rwa [(hwindows i).bounds] at hcontains
        · exact ⟨(hwindows j).surface, (hwindows j).bounds, (hwindows j).allocated, (hwindows j).visible⟩
        · rw [hz haj, hz hak, ← not_lt, ← not_lt, h.ordered.raisedZ_lt hi haj hak hj hk]
    exact ⟨hundisturbed, pending_mono hundisturbed fun _ _ _ _ hc => hc⟩

theorem undisturbed_addDirty : Undisturbed m (m.addDirty r) x y := by
  refine .of_like (fun j => ?_) pointerAt_addDirty
  rw [addDirty_windows]
  exact like_of_unfocused rfl

theorem Composed.marked (h : Composed s changed) : Composed { s with manager := s.manager.addDirty r } changed := by
  refine h.step marks_addDirty (h.ordered.same sameStack_addDirty) (fun j hj => ?_) fun _ _ => ?_
  · unfold Allocated at hj
    rw [addDirty_windows] at hj ⊢
    exact h.sized j hj
  · exact ⟨undisturbed_addDirty, pending_mono undisturbed_addDirty fun _ _ _ _ hc => hc⟩

theorem invalidated_contains (hs : Sized (m.windows i)) (hc : m.Covers i x y) (hx : x < 2 ^ 30) (hy : y < 2 ^ 30)
    (hr : r.Contains ((x : Int) - (m.windows i).bounds.x.1).toNat ((y : Int) - (m.windows i).bounds.y.1).toNat) :
    ∃ r' ∈ m.invalidated i r, r'.Contains x y := by
  obtain ⟨⟨-, hvisible⟩, hbounds⟩ := hc
  obtain ⟨hwidth, hheight⟩ := hs
  have hbx := (m.windows i).bounds.x.2
  have hby := (m.windows i).bounds.y.2
  have hbw := (m.windows i).bounds.width.2
  have hbh := (m.windows i).bounds.height.2
  unfold GraphicsRect.Contains at hbounds hr
  have hright : (m.windows i).bounds.right = (m.windows i).bounds.x.1 + (m.windows i).bounds.width.1 := rfl
  have hbottom : (m.windows i).bounds.bottom = (m.windows i).bounds.y.1 + (m.windows i).bounds.height.1 := rfl
  have hsat : ∀ {v : Int}, -2 ^ 31 ≤ v → v < 2 ^ 31 → (saturate v).1 = v := by
    intro v hle hlt
    have hv : max (min v (2 ^ 31 - 1)) (-2 ^ 31) = v := by omega
    unfold saturate
    rw [hv]
    exact i32_val ⟨hle, hlt⟩
  unfold invalidated
  dsimp only
  rw [if_neg ?_]
  · refine ⟨_, rfl, ?_⟩
    unfold GraphicsRect.Contains right bottom at *
    dsimp only
    rw [hsat (by omega) (by omega), hsat (by omega) (by omega), i32_val (by omega), i32_val (by omega)]
    omega
  · rw [hvisible]
    simp only [reduceCtorEq, or_false]
    omega

theorem Composed.invalidated (h : Composed s changed) (hi : s.manager.Allocated i) :
    Composed { s with manager := match s.manager.invalidated i r with
      | some r' => s.manager.addDirty r'
      | none => s.manager } fun j a b => changed j a b ∧ ¬(j = i ∧ r.Contains a b) := by
  have hsmall := h.fits.small
  -- a change that the call covers shows at no pixel that is left unmarked
  have hpending : ∀ {m' : WindowManager} {x y : Nat}, s.manager.framebuffer.Holds x y →
      (∀ r' ∈ s.manager.invalidated i r, ¬r'.Contains x y) → Undisturbed s.manager m' x y →
      Pending s.manager changed x y → Pending m' (fun j a b => changed j a b ∧ ¬(j = i ∧ r.Contains a b)) x y := by
    rintro m' x y hp hunmarked hu ⟨j, hj, hchanged⟩
    unfold GraphicsSurface.Holds at hp
    refine ⟨j, (hu.covers j).mpr hj, ?_⟩
    rw [(hu.same j hj).2]
    refine ⟨hchanged, ?_⟩
    rintro ⟨rfl, hr⟩
    obtain ⟨r', hr', hcontains⟩ := invalidated_contains (h.sized j hi) hj (by omega) (by omega) hr
    exact hunmarked r' hr' hcontains
  cases hinvalidated : s.manager.invalidated i r with
  | none =>
    refine h.step (marks_nothing SameScreen.refl rfl rfl) h.ordered h.sized fun {x y} hp _ => ?_
    have hundisturbed : Undisturbed s.manager s.manager x y := .of_like (fun j => like_of_unfocused rfl) Iff.rfl
    refine ⟨hundisturbed, hpending hp (fun r' hr' => ?_) hundisturbed⟩
    rw [hinvalidated] at hr'
    cases hr'
  | some r' =>
    refine h.step marks_addDirty (h.ordered.same sameStack_addDirty) (h.marked (r := r')).sized fun hp hrects => ?_
    refine ⟨undisturbed_addDirty, hpending hp (fun r'' hr'' => ?_) undisturbed_addDirty⟩
    rw [hinvalidated] at hr''
    obtain rfl := Option.some.inj hr''
    exact hrects _ (List.mem_singleton_self _)

theorem marks_setPointer : Marks m (windowSetPointer left top visible m) ((if m.pointerVisible then [m.pointerBounds] else []) ++
      if visible then [⟨left, top, windowPointerWidth, windowPointerHeight⟩] else []) := by
  have hset : ∀ {t : WindowManager}, Marks t { t with pointerX := left, pointerY := top, pointerVisible := visible } [] :=
    marks_nothing ⟨rfl, rfl, rfl, rfl⟩ rfl rfl
  have hold := (marks_if (s := m) (r := m.pointerBounds) (c := m.pointerVisible = true)).trans hset
  rw [List.append_nil] at hold
  exact hold.trans marks_if

theorem Composed.pointed (h : Composed s changed) :
    Composed { s with manager := windowSetPointer left top visible s.manager } changed := by
  obtain ⟨hwindows, hcount⟩ := @setPointer_windows s.manager left top visible
  have hlike : ∀ j, Like ((windowSetPointer left top visible s.manager).windows j) (s.manager.windows j) := fun j => by
    rw [hwindows]
    exact like_of_unfocused rfl
  have hpointer : ∀ {x y : Nat}, PointerAt (windowSetPointer left top visible s.manager) x y ↔
      PointerAt { s.manager with pointerX := left, pointerY := top, pointerVisible := visible } x y := by
    intro x y
    have hhead : PointerAt { (if s.manager.pointerVisible then s.manager.invalidatePointer else s.manager) with
        pointerX := left, pointerY := top, pointerVisible := visible } x y ↔
        PointerAt { s.manager with pointerX := left, pointerY := top, pointerVisible := visible } x y := Iff.rfl
    rw [← hhead]
    unfold windowSetPointer
    dsimp only
    split
    · exact pointerAt_addDirty
    · exact Iff.rfl
  refine h.step marks_setPointer (h.ordered.same ⟨fun j => (hlike j).allocated, fun j => (hlike j).zOrder, hcount⟩) (fun j hj => ?_)
    fun {x y} _ hrects => ?_
  · exact sized_of_like (hlike j) (h.sized j ((hlike j).allocated.symm.trans hj))
  · have hundisturbed : Undisturbed s.manager (windowSetPointer left top visible s.manager) x y := by
      refine .of_like hlike (hpointer.trans ⟨fun hat => ?_, fun hat => ?_⟩)
      · refine absurd hat.contains (hrects _ (List.mem_append_right _ ?_))
        rw [if_pos hat.1]
        exact List.mem_singleton_self _
      · refine absurd hat.contains (hrects _ (List.mem_append_left _ ?_))
        rw [if_pos hat.1]
        exact List.mem_singleton_self _
    exact ⟨hundisturbed, pending_mono hundisturbed fun _ _ _ _ hc => hc⟩

end
end WindowSystem

namespace WindowCall
open WindowSystem
variable {s : WindowSystem} {changed : Fin windowCapacity → Nat → Nat → Prop}

/-- The changes of the clients that are not covered yet, after a call. -/
def uncovered (s : WindowManager) (changed : Fin windowCapacity → Nat → Nat → Prop) : WindowCall →
    Fin windowCapacity → Nat → Nat → Prop
  | .create surface x y owner =>
    match (windowCreate surface x y owner s).1 with
    | .ok handle => fun i a b => i.1 ≠ handle.slot ∧ changed i a b
    | .error _ => changed
  | .invalidate handle rectangle =>
    match (windowInvalidate handle rectangle s).1 with
    | .ok _ => fun i a b => changed i a b ∧ ¬(s.findWindow handle = some i ∧ rectangle.Contains a b)
    | .error _ => changed
  | _ => changed

theorem composed_run (h : Composed s changed) : ∀ call : WindowCall,
    Composed { s with manager := call.run s.manager } (call.uncovered s.manager changed)
  | .create surface x y owner => by
    dsimp only [run, uncovered]
    rcases wp_cases (@create_spec s.manager x y surface owner) with ⟨_, _, hr, i, hi, -, hwidth, hheight, hhandle, hu⟩ | ⟨_, _, hr, hspec⟩
    all_goals rw [hr]
    · have hsized : Sized (s.manager.newWindow i surface x y owner) := by
        have hw : (i32 surface.width).1 = surface.width := i32_val (by omega)
        have hh : (i32 surface.height).1 = surface.height := i32_val (by omega)
        exact ⟨hw, hh⟩
      have hcreated := h.created hi hsized (h.ordered.created hi).1
      rw [hhandle, hu]
      simp only [ne_eq, Fin.val_inj]
      exact hcreated
    · rw [hspec]
      exact h
  | .destroy handle => destroy_spec.keeps (P := fun u => Composed { s with manager := u } changed) h fun _ => h.destroyed
  | .move handle x y => move_spec.keeps (P := fun u => Composed { s with manager := u } changed) h fun _ => h.moved
  | .setVisible handle visible => by
    refine setVisible_spec.keeps (P := fun u => Composed { s with manager := u } changed) h fun i hi => ?_
    split
    · exact h
    · exact h.shown hi
  | .raise handle => raise_spec.keeps (P := fun u => Composed { s with manager := u } changed) h fun _ => h.raised
  | .invalidate handle rectangle => by
    dsimp only [run, uncovered]
    rcases wp_cases (@invalidate_spec s.manager handle rectangle) with ⟨_, _, hr, i, hi, hu⟩ | ⟨_, _, hr, hspec⟩
    all_goals rw [hr]
    · have hinvalidated := h.invalidated (r := rectangle) (findWindow_eq_some.mp hi).2.2.1
      rw [hu, hi]
      simp only [Option.some.injEq, eq_comm (a := i)]
      exact hinvalidated
    · rw [hspec]
      exact h
  | .invalidateDesktop rectangle => h.marked
  | .setPointer x y visible => h.pointed

end WindowCall

/-- The systems that runs reach, with the places of the clients that were changed since a call last covered them. A client
    draws in its memory as it likes; a composition waits until the changes of the windows that can be seen are covered. -/
inductive CompositionRun : WindowSystem → (Fin windowCapacity → Nat → Nat → Prop) → Prop where
  | initialized {framebuffer shadow : GraphicsSurface} {desktopColor pointerColor : Color} {m : WindowManager}
      {pixels shadowPixels client : PixelMemory} :
      windowManagerInitialize framebuffer shadow desktopColor pointerColor = .ok m →
      framebuffer.width < 2 ^ 30 → framebuffer.height < 2 ^ 30 → CompositionRun ⟨m, pixels, shadowPixels, client⟩ fun _ _ _ => False
  | called {s : WindowSystem} {changed : Fin windowCapacity → Nat → Nat → Prop} {call : WindowCall} : CompositionRun s changed →
      CompositionRun { s with manager := call.run s.manager } (call.uncovered s.manager changed)
  | drawn {s : WindowSystem} {changed : Fin windowCapacity → Nat → Nat → Prop} {client : PixelMemory} : CompositionRun s changed →
      CompositionRun { s with client } fun i x y => changed i x y ∨
        WindowSystem.surfacePixel client (s.manager.windows i).surface y x ≠
          WindowSystem.surfacePixel s.client (s.manager.windows i).surface y x
  | composed {s : WindowSystem} {changed : Fin windowCapacity → Nat → Nat → Prop} : CompositionRun s changed →
      (∀ i, s.manager.Visible i → ∀ x y, (s.manager.windows i).surface.Holds x y → ¬changed i x y) →
      CompositionRun (WindowSystem.windowCompose s).2 changed

namespace CompositionRun
open WindowSystem
variable {s u : WindowSystem} {changed : Fin windowCapacity → Nat → Nat → Prop} {x y : Nat}

theorem settled_of_composed (h : Composed s changed)
    (hc : ∀ i, s.manager.Visible i → ∀ x y, (s.manager.windows i).surface.Holds x y → ¬changed i x y)
    (hp : s.manager.framebuffer.Holds x y) : s.manager.Dirty x y ∨ Settled s x y := by
  refine (h.settled hp).imp_right fun hx => hx.resolve_left ?_
  rintro ⟨i, ⟨hvisible, hbounds⟩, hchanged⟩
  obtain ⟨hwidth, hheight⟩ := h.sized i hvisible.1
  refine hc i hvisible _ _ ?_ hchanged
  unfold GraphicsRect.Contains right bottom at hbounds
  unfold GraphicsSurface.Holds
  omega

theorem composed_drawn (h : Composed s changed) {client : PixelMemory} : Composed { s with client } fun i x y => changed i x y ∨
    surfacePixel client (s.manager.windows i).surface y x ≠ surfacePixel s.client (s.manager.windows i).surface y x where
  fits := h.fits
  ordered := h.ordered
  sized := h.sized
  settled {x y} hp := by
    rcases h.settled hp with hx | ⟨i, hi, hchanged⟩ | hx
    · exact Or.inl hx
    · exact Or.inr (Or.inl ⟨i, hi, Or.inl hchanged⟩)
    · by_cases hsame : ∀ i, s.manager.Covers i x y →
          clientPixel client (s.manager.windows i) y x = clientPixel s.client (s.manager.windows i) y x
      · exact Or.inr (Or.inr ⟨hx.1.congr (fun _ => Iff.rfl) (fun _ _ _ _ => Iff.rfl) hsame rfl, hx.2⟩)
      · push Not at hsame
        obtain ⟨i, hi, hne⟩ := hsame
        exact Or.inr (Or.inl ⟨i, hi, Or.inr hne⟩)

theorem composed_initialized {framebuffer shadow : GraphicsSurface} {desktopColor pointerColor : Color}
    {pixels shadowPixels client : PixelMemory} (h : windowManagerInitialize framebuffer shadow desktopColor pointerColor = .ok m)
    (hw : framebuffer.width < 2 ^ 30) (hh : framebuffer.height < 2 ^ 30) :
    Composed ⟨m, pixels, shadowPixels, client⟩ fun _ _ _ => False := by
  have hordered : Ordered m := (WindowRun.initialized h).stacked.ordered
  obtain ⟨start, r, rfl, hr, hfits, hscreen, hwindows⟩ : ∃ (start : WindowManager) (r : GraphicsRect), m = start.addDirty r ∧
      r = start.screenRect ∧ Fits start ∧ start.framebuffer = framebuffer ∧ start.windows = fun _ => zeroWindow := by
    unfold windowManagerInitialize at h
    split at h
    · cases h
    · rename_i hgood
      simp only [not_or, Bool.not_eq_false, not_not] at hgood
      obtain ⟨hframebuffer, hshadow, hwidth, hheight, -⟩ := hgood
      exact ⟨_, _, (Except.ok.inj h).symm, rfl, ⟨hframebuffer, hshadow, ⟨hwidth, hheight⟩, ⟨hw, hh⟩, nofun⟩, rfl, rfl⟩
  have hsame := (@sameScreen_addDirty start r).framebuffer.trans hscreen
  obtain ⟨hfits', hdirty⟩ := hfits.addDirty (r := r)
  refine ⟨hfits', hordered, fun i hi => ?_, fun {x y} hp => Or.inl ?_⟩
  · unfold Allocated at hi
    rw [addDirty_windows, hwindows] at hi
    cases hi
  · dsimp only at hp
    rw [hsame] at hp
    refine hdirty (by rwa [hscreen]) (Or.inr ?_)
    unfold GraphicsSurface.Holds at hp
    have hzero : (i32 0).1 = 0 := i32_val (by omega)
    rw [hr]
    unfold GraphicsRect.Contains right bottom screenRect
    dsimp only
    rw [hscreen, hzero, i32_val (by omega), i32_val (by omega)]
    omega

theorem composed_of_run (h : CompositionRun s changed) : Composed s changed := by
  induction h with
  | initialized h hw hh => exact composed_initialized h hw hh
  | called _ ih => exact WindowCall.composed_run ih _
  | drawn _ ih => exact composed_drawn ih
  | @composed s changed _ hc ih =>
    have hspec := compose_spec ih.fits ih.ordered
    unfold wp at hspec
    split at hspec
    · rename_i hr
      rw [hr]
      rcases hspec with ⟨-, rfl⟩ | ⟨hm, -, hsettled⟩
      · exact ih
      · have hclean : ∀ {v : WindowSystem}, v.manager = clean s.manager →
            (∀ {x y : Nat}, s.manager.framebuffer.Holds x y → Settled v x y) → Composed v changed := by
          rintro ⟨m, framebuffer, shadow, client⟩ rfl hv
          exact ⟨⟨ih.fits.framebuffer, ih.fits.shadow, ih.fits.same, ih.fits.small, nofun⟩,
            ih.ordered.same ⟨fun _ => rfl, fun _ => rfl, rfl⟩, ih.sized, fun hp => Or.inr (Or.inr (hv hp))⟩
        exact hclean hm fun hp => hsettled hp (settled_of_composed ih hc hp)
    · cases hspec

theorem compose_ok (h : CompositionRun s changed) : ∃ u, windowCompose s = (.ok (), u) := by
  have hspec := compose_spec h.composed_of_run.fits h.composed_of_run.ordered
  unfold wp at hspec
  split at hspec
  · rename_i u hr
    exact ⟨u, hr⟩
  · cases hspec

/-- After a composition every pixel of the framebuffer is that of a full redraw: the desktop, then the windows that can be
    seen in increasing z order, then the pointer. -/
theorem composition_redraw (h : CompositionRun s changed)
    (hc : ∀ i, s.manager.Visible i → ∀ x y, (s.manager.windows i).surface.Holds x y → ¬changed i x y)
    (hu : windowCompose s = (.ok (), u)) : (∃ l, PaintOrder u.manager l) ∧
      ∀ l, PaintOrder u.manager l → ∀ x y, u.manager.framebuffer.Holds x y → u.framebufferAt x y = redraw u.manager u.client l x y := by
  have hcomposed := h.composed_of_run
  have hordered : Ordered u.manager := by
    have hafter := (h.composed hc).composed_of_run.ordered
    rwa [hu] at hafter
  have hsettled : ∀ {x y : Nat}, u.manager.framebuffer.Holds x y → Settled u x y := by
    intro x y hp
    rcases wp_ok (compose_spec hcomposed.fits hcomposed.ordered) hu with ⟨hclean, rfl⟩ | ⟨hm, -, hsettled⟩
    · refine (settled_of_composed hcomposed hc hp).resolve_left fun hd => ?_
      have hvalid := hd.1
      rw [hclean] at hvalid
      cases hvalid
    · rw [hm] at hp
      exact hsettled hp (settled_of_composed hcomposed hc hp)
  refine ⟨⟨_, hordered.paintOrder⟩, fun l hl x y hp => ?_⟩
  obtain ⟨hshows, hframebuffer⟩ := hsettled hp
  unfold redraw
  rw [hframebuffer, hshows.unique hordered hl.shows]

def smallWindow : WindowManager :=
  let start : WindowManager :=
    { framebuffer := WindowRun.smallScreen, shadow := WindowRun.smallScreen, desktopColor := 0, pointerColor := 1,
      windows := fun _ => zeroWindow, dirty := .zero, pointerX := i32 0, pointerY := i32 0, windowCount := 0,
      dirtyValid := false, pointerVisible := false }
  (WindowCall.create ⟨some 0, 2, 2, 2⟩ (i32 2) (i32 1) 1).run (start.addDirty start.screenRect)

def smallPointed : WindowManager :=
  (WindowCall.setPointer (i32 3) (i32 1) true).run ((WindowCall.invalidate ⟨0, 1⟩ ⟨i32 0, i32 0, i32 2, i32 2⟩).run smallWindow)

/-- The client of the window draws in its memory and covers what it drew, and the pointer comes over it. -/
theorem composition_redraw_small : ∃ s u changed l, CompositionRun s changed ∧ windowCompose s = (.ok (), u) ∧
    PaintOrder u.manager l ∧ ∀ x y, u.manager.framebuffer.Holds x y → u.framebufferAt x y = redraw u.manager u.client l x y := by
  have hm : windowManagerInitialize WindowRun.smallScreen WindowRun.smallScreen 0 1 = .ok _ := if_neg (by decide)
  have hstart := @CompositionRun.initialized _ _ _ _ _ (fun _ => 0) (fun _ => 0) (fun _ => 0) hm (by decide) (by decide)
  have hcreated : CompositionRun ⟨smallWindow, fun _ => 0, fun _ => 0, fun _ => 0⟩ _ :=
    @CompositionRun.called _ _ (.create ⟨some 0, 2, 2, 2⟩ (i32 2) (i32 1) 1) hstart
  have hdrawn := @CompositionRun.drawn _ _ (fun _ => 7) hcreated
  have hcovered := @CompositionRun.called _ _ (.invalidate ⟨0, 1⟩ ⟨i32 0, i32 0, i32 2, i32 2⟩) hdrawn
  have hpointed := @CompositionRun.called _ _ (.setPointer (i32 3) (i32 1) true) hcovered
  obtain ⟨s, changed, hrun, hquiet⟩ : ∃ s changed, CompositionRun s changed ∧
      ∀ i, s.manager.Visible i → ∀ x y, (s.manager.windows i).surface.Holds x y → ¬changed i x y := by
    refine ⟨_, _, hpointed, fun i hi x y hp hchanged => ?_⟩
    have hinvalidate : (windowInvalidate ⟨0, 1⟩ ⟨i32 0, i32 0, i32 2, i32 2⟩ smallWindow).1 = .ok () := by decide +kernel
    have hfind : smallWindow.findWindow ⟨0, 1⟩ = some 0 := by decide +kernel
    have hvisible : ∀ i, smallPointed.Visible i → i = 0 := by decide +kernel
    have hsize : (smallPointed.windows 0).surface.width = 2 ∧ (smallPointed.windows 0).surface.height = 2 := by decide +kernel
    obtain rfl := hvisible i hi
    have hx : x < 2 := hsize.1 ▸ hp.1
    have hy : y < 2 := hsize.2 ▸ hp.2
    dsimp only [WindowCall.uncovered] at hchanged
    rw [hinvalidate] at hchanged
    refine hchanged.2 ⟨hfind, ?_⟩
    have hcorner : ∀ x < 2, ∀ y < 2, (⟨i32 0, i32 0, i32 2, i32 2⟩ : GraphicsRect).Contains x y := by decide +kernel
    exact hcorner x hx y hy
  obtain ⟨u, hu⟩ := compose_ok hrun
  obtain ⟨⟨l, hl⟩, hpixels⟩ := composition_redraw hrun hquiet hu
  exact ⟨s, u, changed, l, hrun, hu, hl, hpixels l hl⟩

end CompositionRun
end InferenceOS
