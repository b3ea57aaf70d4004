import InferenceOS.Gui.Graphics
import Mathlib.Logic.Function.Iterate
import Mathlib.Data.List.Chain
import Mathlib.Data.List.Iterate
import Mathlib.Tactic.Linarith
import Mathlib.Tactic.Ring

/-! Lines. The loop of a line makes a step along the longer distance in each round, and its error tells how far the other
    coordinate has come. -/

namespace InferenceOS
open LineSlope

namespace LineSlope
variable {slope : LineSlope} {s : LineState} {n : Nat}

@[simp] theorem step_x : (slope.step s).x = s.x + if -slope.dyAbs < s.error * 2 then slope.stepX else 0 := by
  unfold step
  dsimp only
  split <;> split <;> simp

@[simp] theorem step_y : (slope.step s).y = s.y + if s.error * 2 < slope.dx then slope.stepY else 0 := by
  unfold step
  dsimp only
  split <;> split <;> simp

@[simp] theorem step_error : (slope.step s).error =
    s.error - (if -slope.dyAbs < s.error * 2 then slope.dyAbs else 0) + if s.error * 2 < slope.dx then slope.dx else 0 := by
  unfold step
  dsimp only
  split <;> split <;> simp

theorem step_near (hx : slope.stepX = 1 ∨ slope.stepX = -1) (hy : slope.stepY = 1 ∨ slope.stepY = -1) :
    |(slope.step s).x - s.x| ≤ 1 ∧ |(slope.step s).y - s.y| ≤ 1 := by
  rw [step_x, step_y, abs_le, abs_le]
  constructor
  · split <;> omega
  · split <;> omega

def swap (slope : LineSlope) : LineSlope := ⟨slope.dyAbs, slope.dx, slope.stepY, slope.stepX⟩

def swapState (s : LineState) : LineState := ⟨s.y, s.x, -s.error⟩

theorem step_swap : slope.swap.step (swapState s) = swapState (slope.step s) := by
  have hx : -slope.dx < -s.error * 2 ↔ s.error * 2 < slope.dx := by omega
  have hy : -s.error * 2 < slope.dyAbs ↔ -slope.dyAbs < s.error * 2 := by omega
  ext
  · simp only [step_x, swapState, swap, step_y, hx]
  · simp only [step_y, swapState, swap, step_x, hy]
  · simp only [step_error, swapState, swap, hx, hy]
    ring

theorem iterate_swap : slope.swap.step^[n] (swapState s) = swapState (slope.step^[n] s) :=
  (Function.Semiconj.iterate_right (fun _ => step_swap.symm) n s).symm

/-- After some rounds along the longer distance: `j` steps were made along the other one. -/
structure Along (slope : LineSlope) (x0 y0 : Int) (k : Nat) (j : Int) (s : LineState) : Prop where
  x : s.x = x0 + slope.stepX * k
  y : s.y = y0 + slope.stepY * j
  error : s.error = (j + 1) * slope.dx - (k + 1) * slope.dyAbs
  low : -slope.dyAbs < s.error * 2
  high : s.error * 2 < 3 * slope.dx - 2 * slope.dyAbs
  diagonal : slope.dx = slope.dyAbs → s.error = 0

theorem Along.step {x0 y0 : Int} {k : Nat} {j : Int} (h : Along slope x0 y0 k j s) (hpos : 0 < slope.dx)
    (hle : slope.dyAbs ≤ slope.dx) (hnonneg : 0 ≤ slope.dyAbs) : ∃ j', Along slope x0 y0 (k + 1) j' (slope.step s) := by
  obtain ⟨hx, hy, herror, hlow, hhigh, hdiagonal⟩ := h
  have hx' : (slope.step s).x = x0 + slope.stepX * ((k + 1 : Nat) : Int) := by
    rw [step_x, if_pos hlow, hx]
    push_cast
    ring
  by_cases hother : s.error * 2 < slope.dx
  · have herror' : (slope.step s).error = s.error - slope.dyAbs + slope.dx := by rw [step_error, if_pos hlow, if_pos hother]
    refine ⟨j + 1, hx', ?_, ?_, ?_, ?_, fun he => ?_⟩
    · rw [step_y, if_pos hother, hy]
      ring
    · rw [herror', herror]
      push_cast
      ring
    · omega
    · omega
    · have := hdiagonal he
      omega
  · have herror' : (slope.step s).error = s.error - slope.dyAbs := by rw [step_error, if_pos hlow, if_neg hother, add_zero]
    -- On a diagonal the error is zero, and both coordinates move.
    have hne : slope.dx ≠ slope.dyAbs := by
      intro he
      rw [hdiagonal he, zero_mul] at hother
      exact hother hpos
    refine ⟨j, hx', ?_, ?_, ?_, ?_, fun he => absurd he hne⟩
    · rw [step_y, if_neg hother, hy, add_zero]
    · rw [herror', herror]
      push_cast
      ring
    · omega
    · omega

theorem along_iterate {x0 y0 : Int} (hpos : 0 < slope.dx) (hle : slope.dyAbs ≤ slope.dx) (hnonneg : 0 ≤ slope.dyAbs) :
    ∀ k : Nat, ∃ j, Along slope x0 y0 k j (slope.step^[k] ⟨x0, y0, slope.dx - slope.dyAbs⟩)
  | 0 => by
    rw [Function.iterate_zero, id]
    refine ⟨0, ?_, ?_, ?_, ?_, ?_, fun he => ?_⟩
    · push_cast
      ring
    · ring
    · push_cast
      ring
    · dsimp only
      omega
    · dsimp only
      omega
    · exact Int.sub_eq_zero.mpr he
  | k + 1 => by
    obtain ⟨j, hj⟩ := along_iterate hpos hle hnonneg k
    rw [Function.iterate_succ_apply']
    exact hj.step hpos hle hnonneg

theorem Along.arrived {x0 y0 : Int} {k : Nat} {j : Int} (h : Along slope x0 y0 k j s) (hpos : 0 < slope.dx)
    (hnonneg : 0 ≤ slope.dyAbs) (hk : (k : Int) = slope.dx) : j = slope.dyAbs := by
  have hlow := h.low
  have hhigh := h.high
  rw [h.error, hk] at hlow hhigh
  have hge : 0 < (j - slope.dyAbs + 1) * slope.dx := by linarith
  have hle : 0 < (slope.dyAbs - j + 1) * slope.dx := by linarith
  have := (pos_iff_pos_of_mul_pos hge).mpr hpos
  have := (pos_iff_pos_of_mul_pos hle).mpr hpos
  omega

/-- The loop reaches its target in the round `n` and in none before, and the error stays small. -/
structure Exact (slope : LineSlope) (start : LineState) (n : Nat) : Prop where
  arrives : (slope.step^[n] start).x = start.x + slope.stepX * slope.dx ∧
    (slope.step^[n] start).y = start.y + slope.stepY * slope.dyAbs
  before : ∀ k < n, ¬((slope.step^[k] start).x = start.x + slope.stepX * slope.dx ∧
    (slope.step^[k] start).y = start.y + slope.stepY * slope.dyAbs)
  small : ∀ k ≤ n, |(slope.step^[k] start).error| ≤ 2 * (slope.dx + slope.dyAbs)

theorem exact_of_le {x0 y0 : Int} (hx : slope.stepX = 1 ∨ slope.stepX = -1) (hle : slope.dyAbs ≤ slope.dx)
    (hnonneg : 0 ≤ slope.dyAbs) (hn : (n : Int) = slope.dx) : Exact slope ⟨x0, y0, slope.dx - slope.dyAbs⟩ n := by
  by_cases hpos : 0 < slope.dx
  · refine ⟨?_, fun k hk ⟨hkx, _⟩ => ?_, fun k hk => ?_⟩
    · obtain ⟨j, hj⟩ := @along_iterate slope x0 y0 hpos hle hnonneg n
      exact ⟨by rw [hj.x, hn], by rw [hj.y, hj.arrived hpos hnonneg hn]⟩
    · obtain ⟨j, hj⟩ := @along_iterate slope x0 y0 hpos hle hnonneg k
      rw [hj.x] at hkx
      dsimp only at hkx
      rcases hx with hx | hx <;> rw [hx] at hkx <;> omega
    · obtain ⟨j, hj⟩ := @along_iterate slope x0 y0 hpos hle hnonneg k
      have hlow := hj.low
      have hhigh := hj.high
      rw [abs_le]
      omega
  · have hdx : slope.dx = 0 := by omega
    have hdy : slope.dyAbs = 0 := by omega
    have hzero : n = 0 := by omega
    subst hzero
    refine ⟨?_, fun k hk => absurd hk (Nat.not_lt_zero k), fun k hk => ?_⟩
    · rw [hdx, hdy, mul_zero, mul_zero, add_zero, add_zero]
      exact ⟨rfl, rfl⟩
    · rw [Nat.le_zero.mp hk, hdx, hdy]
      exact abs_zero.le

theorem Exact.of_swap {start : LineState} (h : Exact slope.swap (swapState start) n) : Exact slope start n := by
  obtain ⟨⟨hx, hy⟩, hbefore, hsmall⟩ := h
  rw [iterate_swap] at hx hy
  refine ⟨⟨hy, hx⟩, fun k hk hboth => ?_, fun k hk => ?_⟩
  · have hk' := hbefore k hk
    rw [iterate_swap] at hk'
    exact hk' hboth.symm
  · have hk' := hsmall k hk
    rw [iterate_swap] at hk'
    have hsum : slope.swap.dx + slope.swap.dyAbs = slope.dx + slope.dyAbs := add_comm _ _
    rw [hsum] at hk'
    exact (abs_neg (slope.step^[k] start).error).symm.le.trans hk'

theorem exact_between {x0 y0 : Int} (hx : slope.stepX = 1 ∨ slope.stepX = -1) (hy : slope.stepY = 1 ∨ slope.stepY = -1)
    (hdx : 0 ≤ slope.dx) (hdy : 0 ≤ slope.dyAbs) (hn : (n : Int) = max slope.dx slope.dyAbs) :
    Exact slope ⟨x0, y0, slope.dx - slope.dyAbs⟩ n := by
  obtain hle | hle := le_total slope.dyAbs slope.dx
  · exact exact_of_le hx hle hdy (hn.trans (max_eq_left hle))
  · have hswap := @exact_of_le slope.swap n y0 x0 hy hle hdx (hn.trans (max_eq_right hle))
    refine Exact.of_swap ?_
    have hstart : swapState ⟨x0, y0, slope.dx - slope.dyAbs⟩ = ⟨y0, x0, slope.swap.dx - slope.swap.dyAbs⟩ := by
      unfold swapState
      rw [neg_sub]
      rfl
    rwa [hstart]

end LineSlope

namespace GraphicsSurface
variable {surface : GraphicsSurface} {slope : LineSlope} {s : LineState} {targetX targetY : Int} {color : Color}
  {pixels : PixelMemory} {n rounds : Nat}

def visited (slope : LineSlope) (s : LineState) (n : Nat) : List (Int × Int) :=
  (List.iterate slope.step s n).map fun s => (s.x, s.y)

def plotAll (surface : GraphicsSurface) (color : Color) (points : List (Int × Int)) (pixels : PixelMemory) : PixelMemory :=
  points.foldl (fun pixels p => surface.plot p.1 p.2 color pixels) pixels

theorem drawLineFrom_eq (htarget : (slope.step^[n] s).x = targetX ∧ (slope.step^[n] s).y = targetY)
    (hbefore : ∀ k < n, ¬((slope.step^[k] s).x = targetX ∧ (slope.step^[k] s).y = targetY)) (hrounds : n < rounds) :
    surface.drawLineFrom slope targetX targetY color rounds s pixels =
      some (visited slope s (n + 1), surface.plotAll color (visited slope s (n + 1)) pixels) := by
  induction n generalizing s rounds pixels with
  | zero =>
    obtain ⟨rounds, rfl⟩ := Nat.exists_eq_succ_of_ne_zero (Nat.ne_of_gt hrounds)
    have hhere : s.x = targetX ∧ s.y = targetY := htarget
    rw [drawLineFrom, if_pos hhere]
    rfl
  | succ n ih =>
    obtain ⟨rounds, rfl⟩ := Nat.exists_eq_succ_of_ne_zero (Nat.ne_of_gt (Nat.zero_lt_of_lt hrounds))
    have hrest := @ih (slope.step s) (surface.plot s.x s.y color pixels) rounds htarget
      (fun k hk => hbefore (k + 1) (Nat.succ_lt_succ hk)) (Nat.lt_of_succ_lt_succ hrounds)
    have hnot : ¬(s.x = targetX ∧ s.y = targetY) := hbefore 0 (Nat.zero_lt_succ n)
    rw [drawLineFrom, if_neg hnot, hrest]
    rfl

theorem plotAll_apply {points : List (Int × Int)} {a : Nat} :
    surface.plotAll color points pixels a = if ∃ p ∈ points, (0 ≤ p.1 ∧ 0 ≤ p.2 ∧ p.1 < surface.width ∧ p.2 < surface.height) ∧
      a = p.2.toNat * surface.stride + p.1.toNat then color else pixels a := by
  induction points generalizing pixels with
  | nil => simp [plotAll]
  | cons p points ih =>
    have hrest := @ih (surface.plot p.1 p.2 color pixels)
    rw [plotAll, List.foldl_cons, ← plotAll, hrest]
    unfold plot
    simp only [List.mem_cons, exists_eq_or_imp]
    by_cases hrest : ∃ p ∈ points, (0 ≤ p.1 ∧ 0 ≤ p.2 ∧ p.1 < surface.width ∧ p.2 < surface.height) ∧
        a = p.2.toNat * surface.stride + p.1.toNat
    · rw [if_pos hrest, if_pos (Or.inr hrest)]
    · rw [if_neg hrest]
      split
      · rename_i hinside
        rw [Function.update_apply]
        refine if_congr ?_ rfl rfl
        exact ⟨fun ha => Or.inl ⟨hinside, ha⟩, fun h => (h.resolve_right hrest).2⟩
      · rename_i hinside
        rw [if_neg fun h => h.elim (fun h => hinside h.1) hrest]

theorem isChain_iterate {α : Type} {R : α → α → Prop} {f : α → α} (h : ∀ a, R a (f a)) :
    ∀ {n : Nat} {a : α}, (List.iterate f a n).IsChain R
  | 0, _ => List.IsChain.nil
  | 1, _ => List.IsChain.singleton _
  | n + 2, a => List.isChain_cons_cons.mpr ⟨h a, (isChain_iterate h : (List.iterate f (f a) (n + 1)).IsChain R)⟩

/-- The values that a round computes from the error are values of `ios_i64`. -/
def FitsWord (slope : LineSlope) (s : LineState) : Prop :=
  ∀ v ∈ [s.error, s.error * 2, -slope.dyAbs, s.error - slope.dyAbs, s.error + slope.dx, s.error - slope.dyAbs + slope.dx],
    -2 ^ 63 ≤ v ∧ v < 2 ^ 63

theorem between_spec {x0 y0 x1 y1 : I32} :
    ((between x0 y0 x1 y1).stepX = 1 ∨ (between x0 y0 x1 y1).stepX = -1) ∧
    ((between x0 y0 x1 y1).stepY = 1 ∨ (between x0 y0 x1 y1).stepY = -1) ∧
    (between x0 y0 x1 y1).dx = |x1.1 - x0.1| ∧ (between x0 y0 x1 y1).dyAbs = |y1.1 - y0.1| ∧
    x0.1 + (between x0 y0 x1 y1).stepX * (between x0 y0 x1 y1).dx = x1.1 ∧
    y0.1 + (between x0 y0 x1 y1).stepY * (between x0 y0 x1 y1).dyAbs = y1.1 := by
  have hdistance : ∀ a b : Int, (if a ≤ b then b - a else a - b) = |b - a| := by
    intro a b
    split
    · rw [abs_of_nonneg (by omega)]
    · rw [abs_of_neg (by omega)]
      omega
  have hreach : ∀ a b : Int, a + (if a < b then 1 else -1) * |b - a| = b := by
    intro a b
    split
    · rw [abs_of_nonneg (by omega)]
      omega
    · rw [abs_of_nonpos (by omega)]
      omega
  have hunit : ∀ a b : Int, (if a < b then (1 : Int) else -1) = 1 ∨ (if a < b then (1 : Int) else -1) = -1 := by
    intro a b
    split
    · exact Or.inl rfl
    · exact Or.inr rfl
  unfold between
  dsimp only
  rw [hdistance, hdistance]
  exact ⟨hunit _ _, hunit _ _, rfl, rfl, hreach _ _, hreach _ _⟩

/-- The loop of a line stops with its second end after one point more than the longer distance, the error fits its variable
    all the time, and the pixels of the points that lie in the surface are drawn and no others. -/
theorem drawLine_exact {x0 y0 x1 y1 : I32} (hvalid : surface.isValid = true)
    (hrounds : max |x1.1 - x0.1| |y1.1 - y0.1| < rounds) :
    ∃ points drawn, surface.drawLine x0 y0 x1 y1 color rounds pixels = some (points, drawn) ∧
      (points.length : Int) = max |x1.1 - x0.1| |y1.1 - y0.1| + 1 ∧
      points.head? = some (x0.1, y0.1) ∧ points.getLast? = some (x1.1, y1.1) ∧
      points.IsChain (fun p q => |q.1 - p.1| ≤ 1 ∧ |q.2 - p.2| ≤ 1) ∧
      (∀ k < points.length, FitsWord (between x0 y0 x1 y1) ((between x0 y0 x1 y1).step^[k]
        ⟨x0, y0, (between x0 y0 x1 y1).dx - (between x0 y0 x1 y1).dyAbs⟩)) ∧
      ∀ a, drawn a = if ∃ p ∈ points, (0 ≤ p.1 ∧ 0 ≤ p.2 ∧ p.1 < surface.width ∧ p.2 < surface.height) ∧
        a = p.2.toNat * surface.stride + p.1.toNat then color else pixels a := by
  obtain ⟨hx, hy, hdx, hdy, hreachX, hreachY⟩ := @between_spec x0 y0 x1 y1
  unfold drawLine
  rw [if_neg (by rw [hvalid]; exact Bool.noConfusion)]
  dsimp only
  generalize between x0 y0 x1 y1 = slope at *
  obtain ⟨n, hn⟩ := Int.eq_ofNat_of_zero_le (le_max_of_le_left (abs_nonneg _) : 0 ≤ max |x1.1 - x0.1| |y1.1 - y0.1|)
  rw [hn] at hrounds
  have hexact := @exact_between slope n x0 y0 hx hy (hdx ▸ abs_nonneg _) (hdy ▸ abs_nonneg _)
    (by rw [hdx, hdy]; exact hn.symm)
  have hrun := @drawLineFrom_eq surface slope ⟨x0, y0, slope.dx - slope.dyAbs⟩ x1 y1 color pixels n rounds
    (by rw [← hreachX, ← hreachY]; exact hexact.arrives) (by rw [← hreachX, ← hreachY]; exact hexact.before)
    (by omega)
  have hlength : (visited slope ⟨x0, y0, slope.dx - slope.dyAbs⟩ (n + 1)).length = n + 1 := by
    rw [visited, List.length_map, List.length_iterate]
  refine ⟨visited slope ⟨x0, y0, slope.dx - slope.dyAbs⟩ (n + 1), _, hrun, ?_, rfl, ?_, ?_, fun k hk v hv => ?_,
    fun a => plotAll_apply⟩
  · rw [hlength, hn]
    rfl
  · rw [List.getLast?_eq_getElem?, hlength, Nat.add_sub_cancel, visited, List.getElem?_map,
      List.getElem?_iterate slope.step _ (n + 1) n (Nat.lt_succ_self n), Option.map_some, hexact.arrives.1, hexact.arrives.2, hreachX, hreachY]
  · exact (List.isChain_map _).mpr (isChain_iterate fun s => @step_near slope s hx hy)
  · rw [hlength] at hk
    have hsmall := abs_le.mp (hexact.small k (Nat.le_of_lt_succ hk))
    have hlimit : ∀ a b : I32, |b.1 - a.1| < 2 ^ 32 := by
      intro a b
      have ha := a.2
      have hb := b.2
      rw [abs_lt]
      omega
    have hdx' := hlimit x0 x1
    have hdy' := hlimit y0 y1
    rw [← hdx] at hdx'
    rw [← hdy] at hdy'
    generalize (slope.step^[k] ⟨x0, y0, slope.dx - slope.dyAbs⟩).error = e at *
    simp only [List.mem_cons, List.not_mem_nil, or_false] at hv
    rcases hv with rfl | rfl | rfl | rfl | rfl | rfl <;> omega

/-- The line between the extreme corners visits `2 ^ 32` points. -/
theorem drawLine_exact_corners :
    ∃ points drawn, GraphicsSurface.drawLine ⟨some 0, 4, 2, 5⟩ (i32 (-2 ^ 31)) (i32 (2 ^ 31 - 1)) (i32 (2 ^ 31 - 1)) (i32 (-2 ^ 31))
      7 (2 ^ 32) (fun _ => 0) = some (points, drawn) ∧ (points.length : Int) = 2 ^ 32 := by
  obtain ⟨points, drawn, hrun, hlength, _⟩ := @drawLine_exact ⟨some 0, 4, 2, 5⟩ 7 (fun _ => 0) (2 ^ 32)
    (i32 (-2 ^ 31)) (i32 (2 ^ 31 - 1)) (i32 (2 ^ 31 - 1)) (i32 (-2 ^ 31)) (by decide) (by decide)
  exact ⟨points, drawn, hrun, hlength.trans (by decide)⟩

end GraphicsSurface
end InferenceOS
