import Mathlib.Algebra.Order.Field.Basic
import Mathlib.Tactic.Linarith
import LSystem.Config.Basic
import LSystem.Proofs.Turtle.Fit

/-!
# Figures in the middle

A figure never leaves the inner square of its viewport, so it is enough to see
where on the surface this square is. In a centered viewport it is in the middle
if the margin can be taken off the shorter side of the surface. On a smaller
surface it shrinks to a point, but keeps the offset of a square with a negative
side, and so it moves off the middle and, in the end, off the surface.
-/

namespace LSystem

/-! ### One axis -/

section Axis

variable {K : Type} [Field K]

/-- Where a square begins along an axis, in the middle of the axis with its margin added. -/
def axisOffset (length side margin : K) : K :=
  (length - side + margin) * (((1 : ℤ) : K) / ((2 : ℤ) : K))

theorem axisOffset_eq (length side margin : K) :
    axisOffset length side margin = (length - side + margin) / 2 := by
  rw [axisOffset, Int.cast_one, Int.cast_ofNat, mul_one_div]

variable [LinearOrder K]

/-- What the margin leaves of the side, and nothing if it is larger. -/
def axisInner (side margin : K) : K := max ((0 : ℤ) : K) (side - margin)

variable [IsStrictOrderedRing K] {length side margin : K}

theorem axisInner_of_le (h : margin ≤ side) : axisInner side margin = side - margin := by
  rw [axisInner, Int.cast_zero]
  exact max_eq_right (sub_nonneg.2 h)

theorem axisInner_of_ge (h : side ≤ margin) : axisInner side margin = 0 := by
  rw [axisInner, Int.cast_zero]
  exact max_eq_left (sub_nonpos.2 h)

theorem axis_middle_iff :
    axisOffset length side margin + axisInner side margin * (((1 : ℤ) : K) / ((2 : ℤ) : K)) =
      length * (((1 : ℤ) : K) / ((2 : ℤ) : K)) ↔ margin ≤ side := by
  rw [axisOffset_eq, Int.cast_one, Int.cast_ofNat, mul_one_div, mul_one_div]
  constructor
  · intro h
    by_contra hlt
    rw [axisInner_of_ge (not_le.1 hlt).le] at h
    linarith
  · intro h
    rw [axisInner_of_le h]
    ring

theorem axisOffset_nonneg (hside : side ≤ length) (hmargin : 0 ≤ margin) :
    0 ≤ axisOffset length side margin := by
  rw [axisOffset_eq]
  linarith

theorem axis_end_le (hside : side ≤ length) (hmargin : 0 ≤ margin) (h : margin ≤ 2 * side) :
    axisOffset length side margin + axisInner side margin ≤ length := by
  rw [axisOffset_eq]
  rcases le_total margin side with hle | hle
  · rw [axisInner_of_le hle]
    linarith
  · rw [axisInner_of_ge hle]
    linarith

theorem lt_axisOffset (h : 2 * length < margin) : length < axisOffset length length margin := by
  rw [axisOffset_eq]
  linarith

theorem half_between {inner : K} (offset : K) (h : 0 ≤ inner) :
    offset ≤ offset + inner * (((1 : ℤ) : K) / ((2 : ℤ) : K)) ∧
      offset + inner * (((1 : ℤ) : K) / ((2 : ℤ) : K)) ≤ offset + inner := by
  rw [Int.cast_one, Int.cast_ofNat, mul_one_div]
  constructor <;> linarith

end Axis

variable {K : Type} [ExactScalar K]

/-! ### Centered viewports -/

/-- All of a surface. -/
def Box.surface (width height : K) : Box K := ⟨Scalar.ofInt 0, width, Scalar.ofInt 0, height⟩

namespace Viewport

theorem offset_centered (width height margin : K) :
    (centered width height margin).offset =
      ⟨axisOffset width (min width height) margin, axisOffset height (min width height) margin⟩ :=
  rfl

theorem innerSide_centered (width height margin : K) :
    (centered width height margin).innerSide = axisInner (min width height) margin := rfl

variable {width height margin : K}

theorem centered_middle_iff :
    ((centered width height margin).offset.x +
          (centered width height margin).innerSide * Scalar.half K = width * Scalar.half K ∧
        (centered width height margin).offset.y +
          (centered width height margin).innerSide * Scalar.half K = height * Scalar.half K) ↔
      margin ≤ min width height := by
  rw [offset_centered, innerSide_centered]
  exact (and_congr axis_middle_iff axis_middle_iff).trans (and_self_iff)

theorem innerBox_centered_on_surface (hmargin : 0 ≤ margin) (h : margin ≤ 2 * min width height)
    {p : Point K} (hp : (centered width height margin).innerBox.Holds p) :
    (Box.surface width height).Holds p := by
  obtain ⟨⟨hleft, hright⟩, htop, hbottom⟩ := hp
  have hzero : (Scalar.ofInt 0 : K) = 0 := Int.cast_zero
  refine ⟨⟨?_, hright.trans (axis_end_le (min_le_left ..) hmargin h)⟩,
    ?_, hbottom.trans (axis_end_le (min_le_right ..) hmargin h)⟩
  · exact hzero.trans_le ((axisOffset_nonneg (min_le_left ..) hmargin).trans hleft)
  · exact hzero.trans_le ((axisOffset_nonneg (min_le_right ..) hmargin).trans htop)

theorem innerBox_centered_off_surface (h : 2 * min width height < margin) {p : Point K}
    (hp : (centered width height margin).innerBox.Holds p) :
    ¬(Box.surface width height).Holds p := by
  rintro ⟨⟨_, hright⟩, _, hbottom⟩
  obtain ⟨⟨hleft, _⟩, htop, _⟩ := hp
  -- The square begins beyond the end of the shorter side.
  rcases le_total width height with hle | hle
  · have hoff : width < axisOffset width (min width height) margin := by
      rw [min_eq_left hle] at h ⊢
      exact lt_axisOffset h
    exact absurd (hleft.trans hright) (not_le.2 hoff)
  · have hoff : height < axisOffset height (min width height) margin := by
      rw [min_eq_right hle] at h ⊢
      exact lt_axisOffset h
    exact absurd (htop.trans hbottom) (not_le.2 hoff)

end Viewport

/-! ### Figures in them -/

theorem Viewport.holds_middle (viewport : Viewport K) :
    viewport.innerBox.Holds viewport.innerBox.middle := by
  have hinner := viewport.innerSide_nonneg
  have hx : viewport.innerBox.middle.x = _ := middle_of_square ..
  have hy : viewport.innerBox.middle.y = _ := middle_of_square ..
  rw [Box.Holds, hx, hy]
  exact ⟨half_between _ hinner, half_between _ hinner⟩

namespace Layout

/-- A figure without extent is a point in the middle of the inner square, and so inside it, too. -/
theorem holds_innerBox (script : Script K) (viewport : Viewport K) :
    ∀ p ∈ (fit script viewport).1.visited script, viewport.innerBox.Holds p := by
  intro p hp
  have hmeasured := script.around_measuredPoints
  have horigin : script.measuringWalk.box.Holds Pose.origin.point :=
    hmeasured.holds List.mem_cons_self
  rcases horigin.side_nonneg.lt_or_eq with hside | hside
  · obtain ⟨hscale, _⟩ := scale_ofBox hside viewport
    obtain ⟨⟨hxMin, hyMin⟩, ⟨hxMax, hyMax⟩, _, _⟩ := placed_ofBox hside viewport
    obtain ⟨⟨hleft, hright⟩, htop, hbottom⟩ := (around_visited hscale script).holds hp
    exact ⟨⟨hxMin.ge.trans hleft, hright.trans hxMax⟩, hyMin.ge.trans htop, hbottom.trans hyMax⟩
  · rw [visited_eq_map] at hp
    obtain ⟨q, hq, rfl⟩ := List.mem_map.1 hp
    have hmiddle : Point.placed _ _ Pose.origin.point = viewport.innerBox.middle :=
      (congrArg Pose.point (fit script viewport).1.places_start.pose).symm.trans
        (origin_ofBox hside.symm viewport)
    rw [(hmeasured.holds hq).eq_of_side_eq_zero horigin hside.symm, hmiddle]
    exact viewport.holds_middle

/-- In a configuration that asks for the middle of the surface, the inner square is in the middle
exactly if no side of the surface is shorter than the margin, and every figure stays on the surface
exactly if none is shorter than half of it. -/
theorem centered_as_margin_fits (config : Config K) (width height : Nat) :
    let w : K := Scalar.ofInt width
    let h : K := Scalar.ofInt height
    let viewport := ({ config with placement := .centered } : Config K).viewport w h
    (viewport.offset.x + viewport.innerSide * Scalar.half K = w * Scalar.half K ∧
        viewport.offset.y + viewport.innerSide * Scalar.half K = h * Scalar.half K ↔
      100 ≤ min width height) ∧
    ∀ script : Script K,
      (∀ p ∈ (fit script viewport).1.visited script, (Box.surface w h).Holds p) ↔
        50 ≤ min width height := by
  intro w h viewport
  have hmargin : (Viewport.usualMargin : K) = ((100 : ℕ) : K) := Int.cast_natCast 100
  have hside : min w h = ((min width height : ℕ) : K) := by
    rw [Nat.cast_min]
    exact congrArg₂ min (Int.cast_natCast width) (Int.cast_natCast height)
  have htwice : 2 * min w h = ((2 * min width height : ℕ) : K) := by
    rw [hside, Nat.cast_mul, Nat.cast_ofNat]
  refine ⟨?_, fun script => ⟨fun hholds => ?_, fun hlarge p hp => ?_⟩⟩
  · refine Viewport.centered_middle_iff.trans ?_
    rw [hmargin, hside, Nat.cast_le]
  · by_contra hsmall
    have hlt : 2 * min w h < Viewport.usualMargin := by
      rw [hmargin, htwice, Nat.cast_lt]
      omega
    have hstart : (fit script viewport).1.start.point ∈ (fit script viewport).1.visited script :=
      List.mem_cons_self
    exact Viewport.innerBox_centered_off_surface hlt (holds_innerBox script viewport _ hstart)
      (hholds _ hstart)
  · have hle : Viewport.usualMargin ≤ 2 * min w h := by
      rw [hmargin, htwice, Nat.cast_le]
      omega
    exact Viewport.innerBox_centered_on_surface (hmargin.ge.trans' (Nat.cast_nonneg 100)) hle
      (holds_innerBox script viewport p hp)

/-! The corner on a surface of ten pixels by ten, over the rational numbers. -/

section Corner

local instance ofCorner : ExactScalar ℚ := rightAngled

def onTiny : Viewport ℚ :=
  ({ (Config.default : Config ℚ) with placement := .centered }).viewport (Scalar.ofInt 10)
    (Scalar.ofInt 10)

/-- The inner square is no more than a point, and neither in the middle of the surface nor on it. -/
theorem centered_off_tiny_surface :
    onTiny.innerSide = 0 ∧ onTiny.offset.x + onTiny.innerSide * Scalar.half ℚ = 50 ∧
      10 * Scalar.half ℚ = (5 : ℚ) ∧
      ((fit corner onTiny).1.visited corner).map (fun p => (p.x, p.y)) =
        List.replicate 5 (50, 50) ∧
      ¬∀ p ∈ (fit corner onTiny).1.visited corner, (Box.surface (10 : ℚ) 10).Holds p := by
  refine ⟨by decide +kernel, by decide +kernel, by decide +kernel, by decide +kernel,
    fun hholds => ?_⟩
  have hright := (hholds _ List.mem_cons_self).1.2
  exact absurd hright (by decide +kernel)

end Corner

end Layout

end LSystem
