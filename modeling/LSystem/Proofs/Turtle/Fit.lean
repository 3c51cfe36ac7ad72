import Mathlib.Algebra.Order.Field.Basic
import Mathlib.Algebra.Order.Field.Rat
import Mathlib.Order.Bounds.Basic
import Mathlib.Tactic.Ring
import LSystem.Turtle.Layout
import LSystem.Proofs.Turtle.Exact

/-!
# Fitted figures

In exact numbers the measured box is the smallest one around the whole figure,
although it is grown by ends of steps only: a branch resumes at a place the
turtle has been to. Scaling and moving the figure scales and moves this box, so
it is enough to see where the layout puts the box.
-/

namespace LSystem

namespace Box

def Holds {α : Type} [LE α] (box : Box α) (p : Point α) : Prop :=
  (box.xMin ≤ p.x ∧ p.x ≤ box.xMax) ∧ box.yMin ≤ p.y ∧ p.y ≤ box.yMax

/-- The box is the smallest one around the points: each edge is the extreme of a coordinate. -/
structure Around {α : Type} [LE α] (box : Box α) (points : Set (Point α)) : Prop where
  left : IsLeast (Point.x '' points) box.xMin
  right : IsGreatest (Point.x '' points) box.xMax
  top : IsLeast (Point.y '' points) box.yMin
  bottom : IsGreatest (Point.y '' points) box.yMax

section Scaled

variable {α : Type} [Scalar α]

def placed (origin : Point α) (scale : α) (box : Box α) : Box α where
  xMin := origin.x + scale * box.xMin
  xMax := origin.x + scale * box.xMax
  yMin := origin.y + scale * box.yMin
  yMax := origin.y + scale * box.yMax

def middle (box : Box α) : Point α :=
  ⟨(box.xMin + box.xMax) * Scalar.half α, (box.yMin + box.yMax) * Scalar.half α⟩

end Scaled

end Box

section Drawn

variable {α : Type} [Scalar α]

def Viewport.innerBox (viewport : Viewport α) : Box α where
  xMin := viewport.offset.x
  xMax := viewport.offset.x + viewport.innerSide
  yMin := viewport.offset.y
  yMax := viewport.offset.y + viewport.innerSide

/-- The points that the measuring walk visits. -/
def Script.measuredPoints (script : Script α) : List (Point α) :=
  (Turtle.new Pose.origin).visited script (Scalar.ofInt 1)

def Layout.visited (layout : Layout α) (script : Script α) : List (Point α) :=
  (Turtle.silent layout.start).visited script layout.scale

end Drawn

/-! ### One axis -/

section Axis

variable {K : Type} [Field K]

theorem placed_zero (origin scale : K) : origin + scale * ((0 : ℤ) : K) = origin := by
  rw [Int.cast_zero, mul_zero, add_zero]

theorem placed_extent (origin scale low high : K) :
    origin + scale * high - (origin + scale * low) = scale * (high - low) := by
  ring

theorem fitted_coordinate (offset low side inner x : K) :
    offset + -low / side * inner + inner / side * x = offset + inner * ((x - low) / side) := by
  ring

theorem fitted_low (offset low side inner : K) :
    offset + -low / side * inner + inner / side * low = offset := by
  rw [fitted_coordinate, sub_self, zero_div, mul_zero, add_zero]

theorem fitted_high {low high side : K} (offset inner : K) (hside : side ≠ 0)
    (h : high - low = side) :
    offset + -low / side * inner + inner / side * high = offset + inner := by
  rw [fitted_coordinate, h, div_self hside, mul_one]

variable [LinearOrder K] [IsStrictOrderedRing K]

theorem fitted_high_le {low high side inner : K} (offset : K) (hside : 0 < side)
    (hinner : 0 ≤ inner) (h : high - low ≤ side) :
    offset + -low / side * inner + inner / side * high ≤ offset + inner := by
  have hpart : (high - low) / side ≤ 1 := (div_le_one hside).2 h
  rw [fitted_coordinate]
  exact add_le_add_right (mul_le_of_le_one_right hinner hpart) offset

theorem monotone_placed_coordinate (origin : K) {scale : K} (h : 0 ≤ scale) :
    Monotone fun x => origin + scale * x := by
  intro x y hxy
  exact add_le_add_right (mul_le_mul_of_nonneg_left hxy h) origin

theorem middle_of_square (offset inner : K) :
    (offset + (offset + inner)) * (((1 : ℤ) : K) / ((2 : ℤ) : K)) =
      offset + inner * (((1 : ℤ) : K) / ((2 : ℤ) : K)) := by
  rw [Int.cast_one, Int.cast_ofNat]
  ring

end Axis

variable {K : Type} [ExactScalar K]

namespace Box

variable {box : Box K} {points : Set (Point K)}

theorem around_ofPoint (p : Point K) : (ofPoint p).Around {p} where
  left := by
    rw [Set.image_singleton]
    exact isLeast_singleton
  right := by
    rw [Set.image_singleton]
    exact isGreatest_singleton
  top := by
    rw [Set.image_singleton]
    exact isLeast_singleton
  bottom := by
    rw [Set.image_singleton]
    exact isGreatest_singleton

theorem Around.grow (h : box.Around points) (p : Point K) :
    (box.grow p).Around (points ∪ {p}) where
  left := by
    rw [Set.image_union, Set.image_singleton]
    exact h.left.union isLeast_singleton
  right := by
    rw [Set.image_union, Set.image_singleton]
    exact h.right.union isGreatest_singleton
  top := by
    rw [Set.image_union, Set.image_singleton]
    exact h.top.union isLeast_singleton
  bottom := by
    rw [Set.image_union, Set.image_singleton]
    exact h.bottom.union isGreatest_singleton

theorem Around.foldl_grow (h : box.Around points) (grown : List (Point K)) :
    (grown.foldl Box.grow box).Around (points ∪ {p | p ∈ grown}) := by
  induction grown generalizing box points with
  | nil => simpa using h
  | cons p rest ih =>
    have hrest := ih (h.grow p)
    have hsets : {q | q ∈ p :: rest} = {p} ∪ {q | q ∈ rest} := by
      ext q
      exact List.mem_cons
    rwa [hsets, ← Set.union_assoc]

theorem Around.holds (h : box.Around points) {p : Point K} (hp : p ∈ points) : box.Holds p :=
  ⟨⟨h.left.2 (Set.mem_image_of_mem _ hp), h.right.2 (Set.mem_image_of_mem _ hp)⟩,
    h.top.2 (Set.mem_image_of_mem _ hp), h.bottom.2 (Set.mem_image_of_mem _ hp)⟩

/-- More points inside the box leave it the smallest one. -/
theorem Around.extend {more : Set (Point K)} (h : box.Around points) (hsubset : points ⊆ more)
    (hholds : ∀ p ∈ more, box.Holds p) : box.Around more where
  left := ⟨Set.image_mono hsubset h.left.1, Set.forall_mem_image.2 fun p hp => (hholds p hp).1.1⟩
  right := ⟨Set.image_mono hsubset h.right.1, Set.forall_mem_image.2 fun p hp => (hholds p hp).1.2⟩
  top := ⟨Set.image_mono hsubset h.top.1, Set.forall_mem_image.2 fun p hp => (hholds p hp).2.1⟩
  bottom :=
    ⟨Set.image_mono hsubset h.bottom.1, Set.forall_mem_image.2 fun p hp => (hholds p hp).2.2⟩

theorem Around.placed {scale : K} (h : box.Around points) (origin : Point K) (hscale : 0 ≤ scale) :
    (box.placed origin scale).Around (Point.placed origin scale '' points) where
  left := by
    have hleft := (monotone_placed_coordinate origin.x hscale).map_isLeast h.left
    rwa [Set.image_image] at hleft ⊢
  right := by
    have hright := (monotone_placed_coordinate origin.x hscale).map_isGreatest h.right
    rwa [Set.image_image] at hright ⊢
  top := by
    have htop := (monotone_placed_coordinate origin.y hscale).map_isLeast h.top
    rwa [Set.image_image] at htop ⊢
  bottom := by
    have hbottom := (monotone_placed_coordinate origin.y hscale).map_isGreatest h.bottom
    rwa [Set.image_image] at hbottom ⊢

theorem Holds.side_nonneg {p : Point K} (h : box.Holds p) : 0 ≤ box.side :=
  le_max_of_le_left (sub_nonneg.2 (h.1.1.trans h.1.2))

theorem Holds.eq_of_side_eq_zero {p q : Point K} (hp : box.Holds p) (hq : box.Holds q)
    (h : box.side = 0) : p = q := by
  have hx : box.xMax ≤ box.xMin := sub_nonpos.1 (h ▸ le_max_left box.width box.height)
  have hy : box.yMax ≤ box.yMin := sub_nonpos.1 (h ▸ le_max_right box.width box.height)
  have hpx : p.x = q.x :=
    le_antisymm (hp.1.2.trans (hx.trans hq.1.1)) (hq.1.2.trans (hx.trans hp.1.1))
  have hpy : p.y = q.y :=
    le_antisymm (hp.2.2.trans (hy.trans hq.2.1)) (hq.2.2.trans (hy.trans hp.2.1))
  exact congrArg₂ Point.mk hpx hpy

theorem Around.side_le (h : box.Around points) {other : Box K}
    (hholds : ∀ p ∈ points, other.Holds p) : box.side ≤ other.side := by
  obtain ⟨left, hleft, hxMin⟩ := h.left.1
  obtain ⟨right, hright, hxMax⟩ := h.right.1
  obtain ⟨top, htop, hyMin⟩ := h.top.1
  obtain ⟨bottom, hbottom, hyMax⟩ := h.bottom.1
  have hwidth : box.width ≤ other.width :=
    sub_le_sub (hxMax ▸ (hholds right hright).1.2) (hxMin ▸ (hholds left hleft).1.1)
  have hheight : box.height ≤ other.height :=
    sub_le_sub (hyMax ▸ (hholds bottom hbottom).2.2) (hyMin ▸ (hholds top htop).2.1)
  exact max_le_max hwidth hheight

theorem side_placed (box : Box K) (origin : Point K) {scale : K} (h : 0 ≤ scale) :
    (box.placed origin scale).side = scale * box.side := by
  have hwidth : (box.placed origin scale).width = scale * box.width := placed_extent ..
  have hheight : (box.placed origin scale).height = scale * box.height := placed_extent ..
  rw [side, hwidth, hheight]
  exact (mul_max_of_nonneg _ _ h).symm

end Box

/-! ### The figure -/

theorem Script.steps_measuringWalk (script : Script K) :
    script.measuringWalk.steps.toList =
      Turtle.trace (Scalar.ofInt 1) script.toList (.new Pose.origin) false :=
  Turtle.steps_walk_of_cursor script (Scalar.ofInt 1) rfl

theorem Script.around_measuredPoints (script : Script K) :
    script.measuringWalk.box.Around {p | p ∈ script.measuredPoints} := by
  have hgrown := (Box.around_ofPoint Pose.origin.point).foldl_grow
    (script.measuringWalk.steps.toList.map Step.stop)
  have hbox : (script.measuringWalk.steps.toList.map Step.stop).foldl Box.grow
      (Box.ofPoint Pose.origin.point) = script.measuringWalk.box := by
    rw [List.foldl_map, Array.foldl_toList]
    rfl
  rw [hbox] at hgrown
  have horigin : script.measuringWalk.box.Holds Pose.origin.point := hgrown.holds (.inl rfl)
  have hstops : ∀ step ∈ script.measuringWalk.steps.toList,
      script.measuringWalk.box.Holds step.stop :=
    fun step hstep => hgrown.holds (.inr (List.mem_map_of_mem hstep))
  -- The box is grown by ends only, but a step starts at the origin or where one has ended.
  have hstarts : ∀ step ∈ script.measuringWalk.steps.toList,
      script.measuringWalk.box.Holds step.start := by
    rw [script.steps_measuringWalk] at hstops ⊢
    refine Turtle.start_of_mem_trace horigin ?_ hstops
    intro pose hpose
    cases hpose
  refine hgrown.extend ?_ ?_
  · rintro p (hp | hp)
    · exact Turtle.mem_visited.2 (.inl hp)
    · obtain ⟨step, hstep, rfl⟩ := List.mem_map.1 hp
      exact Turtle.mem_visited.2 (.inr ⟨step, hstep, .inr rfl⟩)
  · intro p hp
    rcases Turtle.mem_visited.1 hp with rfl | ⟨step, hstep, rfl | rfl⟩
    · exact horigin
    · exact hstarts step hstep
    · exact hstops step hstep

theorem Viewport.innerSide_nonneg (viewport : Viewport K) : 0 ≤ viewport.innerSide :=
  le_max_of_le_left Int.cast_zero.ge

theorem Viewport.side_innerBox (viewport : Viewport K) :
    viewport.innerBox.side = viewport.innerSide := by
  have hwidth : viewport.innerBox.width = viewport.innerSide := add_sub_cancel_left ..
  have hheight : viewport.innerBox.height = viewport.innerSide := add_sub_cancel_left ..
  rw [Box.side, hwidth, hheight]
  exact max_self _

namespace Layout

theorem places_start (layout : Layout K) :
    (Turtle.new Pose.origin).Places layout.origin layout.scale (.silent layout.start) where
  pose := by
    have hx := placed_zero layout.origin.x layout.scale
    have hy := placed_zero layout.origin.y layout.scale
    exact (congrArg₂ (fun x y => Pose.mk x y (Scalar.ofInt 0)) hx hy).symm
  stack := rfl

theorem visited_eq_map (layout : Layout K) (script : Script K) :
    layout.visited script =
      script.measuredPoints.map (Point.placed layout.origin layout.scale) := by
  have htrace := Turtle.trace_placed layout.places_start script.toList false
  rw [← layout.steps_walk, ← script.steps_measuringWalk] at htrace
  have hstart := congrArg Pose.point layout.places_start.pose
  rw [Script.measuredPoints, Turtle.visited, List.map_cons, List.map_flatMap]
  refine congrArg₂ List.cons hstart ?_
  exact (congrArg _ htrace).trans (List.flatMap_map ..)

theorem around_visited {layout : Layout K} (h : 0 ≤ layout.scale) (script : Script K) :
    (script.measuringWalk.box.placed layout.origin layout.scale).Around
      {p | p ∈ layout.visited script} := by
  have hpoints : {p | p ∈ layout.visited script} =
      Point.placed layout.origin layout.scale '' {p | p ∈ script.measuredPoints} := by
    ext p
    rw [visited_eq_map]
    exact List.mem_map
  rw [hpoints]
  exact script.around_measuredPoints.placed layout.origin h

/-- A figure does not fit into a box with a smaller side. -/
theorem exists_not_holds {layout : Layout K} (h : 0 ≤ layout.scale) (script : Script K)
    {box : Box K} (hside : box.side < layout.scale * script.measuringWalk.box.side) :
    ∃ p ∈ layout.visited script, ¬box.Holds p := by
  by_contra hnone
  have hholds : ∀ p ∈ layout.visited script, box.Holds p := by
    intro p hp
    by_contra hout
    exact hnone ⟨p, hp, hout⟩
  have hle := (around_visited h script).side_le hholds
  rw [Box.side_placed _ _ h] at hle
  exact absurd hle (not_le.2 hside)

theorem ofBox_of_side_pos {box : Box K} (h : 0 < box.side) (viewport : Viewport K) :
    ofBox box viewport =
      { origin :=
          ⟨viewport.offset.x + -box.xMin / box.side * viewport.innerSide,
            viewport.offset.y + -box.yMin / box.side * viewport.innerSide⟩
        scale := viewport.innerSide / box.side
        box } :=
  if_pos (decide_eq_true h)

/-- The box of a figure that has a side takes up the inner square in full along its larger side, and
from the left and the top. -/
theorem placed_ofBox {box : Box K} (h : 0 < box.side) (viewport : Viewport K) :
    let layout := ofBox box viewport
    let placed := box.placed layout.origin layout.scale
    let inner := viewport.innerBox
    (placed.xMin = inner.xMin ∧ placed.yMin = inner.yMin) ∧
      (placed.xMax ≤ inner.xMax ∧ placed.yMax ≤ inner.yMax) ∧
      (box.width = box.side → placed.xMax = inner.xMax) ∧
      (box.height = box.side → placed.yMax = inner.yMax) := by
  intro layout placed inner
  have hlayout : layout = _ := ofBox_of_side_pos h viewport
  have hinner := viewport.innerSide_nonneg
  simp only [placed, hlayout, Box.placed]
  refine ⟨⟨?_, ?_⟩, ⟨?_, ?_⟩, ?_, ?_⟩
  · exact fitted_low ..
  · exact fitted_low ..
  · exact fitted_high_le _ h hinner (le_max_left box.width box.height)
  · exact fitted_high_le _ h hinner (le_max_right box.width box.height)
  · exact fun hwidth => fitted_high _ _ h.ne' hwidth
  · exact fun hheight => fitted_high _ _ h.ne' hheight

theorem scale_ofBox {box : Box K} (h : 0 < box.side) (viewport : Viewport K) :
    0 ≤ (ofBox box viewport).scale ∧
      (ofBox box viewport).scale * box.side = viewport.innerSide := by
  rw [ofBox_of_side_pos h]
  exact ⟨div_nonneg viewport.innerSide_nonneg h.le, div_mul_cancel₀ _ h.ne'⟩

theorem origin_ofBox {box : Box K} (h : box.side = 0) (viewport : Viewport K) :
    (ofBox box viewport).origin = viewport.innerBox.middle := by
  have hflat : hasExtent box.side = false := by
    refine decide_eq_false ?_
    rw [h]
    exact lt_irrefl 0
  rw [ofBox, if_neg (by rw [hflat]; decide)]
  have hx := middle_of_square viewport.offset.x viewport.innerSide
  have hy := middle_of_square viewport.offset.y viewport.innerSide
  exact (congrArg₂ Point.mk hx hy).symm

/-- A figure that has a side is scaled and moved so that it lies in the inner square and touches the
left and the top of it, and the opposite edge along its larger side. No larger scale keeps it in the
square, wherever it starts, and no smaller box holds it. A figure that has none is a point in the
middle. -/
theorem fit_fills_viewport (script : Script K) (viewport : Viewport K) :
    let box := script.measuringWalk.box
    let layout := (fit script viewport).1
    let points := layout.visited script
    let inner := viewport.innerBox
    0 ≤ box.side ∧
    (0 < box.side →
      (∀ p ∈ points, inner.Holds p) ∧
      (∃ p ∈ points, p.x = inner.xMin) ∧ (∃ p ∈ points, p.y = inner.yMin) ∧
      (box.width = box.side → ∃ p ∈ points, p.x = inner.xMax) ∧
      (box.height = box.side → ∃ p ∈ points, p.y = inner.yMax) ∧
      (∀ other : Layout K, layout.scale < other.scale →
        ∃ p ∈ other.visited script, ¬inner.Holds p) ∧
      ∀ smaller : Box K, (∀ p ∈ points, smaller.Holds p) → inner.side ≤ smaller.side) ∧
    (box.side = 0 → ∀ p ∈ points, p = inner.middle) := by
  intro box layout points inner
  have hmeasured := script.around_measuredPoints
  have horigin : box.Holds Pose.origin.point := hmeasured.holds List.mem_cons_self
  refine ⟨horigin.side_nonneg, fun hside => ?_, fun hside p hp => ?_⟩
  · obtain ⟨hscale, hfull⟩ := scale_ofBox hside viewport
    obtain ⟨⟨hxMin, hyMin⟩, ⟨hxMax, hyMax⟩, hwidth, hheight⟩ := placed_ofBox hside viewport
    have haround := around_visited hscale script
    refine ⟨fun p hp => ?_, ?_, ?_, fun hw => ?_, fun hh => ?_, fun other hother => ?_,
      fun smaller hsmaller => ?_⟩
    · obtain ⟨⟨hleft, hright⟩, htop, hbottom⟩ := haround.holds hp
      exact ⟨⟨hxMin ▸ hleft, hright.trans hxMax⟩, hyMin ▸ htop, hbottom.trans hyMax⟩
    · rw [← hxMin]
      exact haround.left.1
    · rw [← hyMin]
      exact haround.top.1
    · rw [← hwidth hw]
      exact haround.right.1
    · rw [← hheight hh]
      exact haround.bottom.1
    · refine exists_not_holds (hscale.trans hother.le) script ?_
      rw [viewport.side_innerBox, ← hfull]
      exact mul_lt_mul_of_pos_right hother hside
    · have hle := haround.side_le hsmaller
      rw [Box.side_placed _ _ hscale, hfull] at hle
      exact viewport.side_innerBox.trans_le hle
  · have hpoints := layout.visited_eq_map script
    rw [show points = _ from hpoints] at hp
    obtain ⟨q, hq, rfl⟩ := List.mem_map.1 hp
    have hq' : q = Pose.origin.point := (hmeasured.holds hq).eq_of_side_eq_zero horigin hside
    rw [hq', ← origin_ofBox hside viewport]
    exact (congrArg Pose.point layout.places_start.pose).symm

/-! A corner, three to the right and one down, over the rational numbers. -/

section Corner

-- Cosine and sine as they are at headings of 0 and 90 degrees.
local instance rightAngled : ExactScalar ℚ :=
  { (inferInstance : Field ℚ), (inferInstance : LinearOrder ℚ),
    (inferInstance : IsStrictOrderedRing ℚ) with
    cosine := fun angle => if angle = 0 then 1 else 0
    sine := fun angle => if angle = 90 then 1 else 0 }

def corner : Script ℚ := #[.move 3, .turn 90, .move 1]

def smallViewport : Viewport ℚ := ⟨40, 10, ⟨5, 6⟩⟩

theorem fit_fills_viewport_corner :
    let points := (fit corner smallViewport).1.visited corner
    0 < corner.measuringWalk.box.side ∧
    points.map (fun p => (p.x, p.y)) = [(5, 6), (5, 6), (35, 6), (35, 6), (35, 16)] ∧
    (∀ p ∈ points, smallViewport.innerBox.Holds p) ∧ ∃ p ∈ points, p.x = 35 := by
  intro points
  have hside : 0 < corner.measuringWalk.box.side := by decide +kernel
  have hwidth : corner.measuringWalk.box.width = corner.measuringWalk.box.side := by
    decide +kernel
  have hedge : smallViewport.innerBox.xMax = 35 := by decide +kernel
  obtain ⟨hholds, _, _, hright, _⟩ := (fit_fills_viewport corner smallViewport).2.1 hside
  refine ⟨hside, by decide +kernel, hholds, ?_⟩
  rw [← hedge]
  exact hright hwidth

end Corner

end Layout

end LSystem
