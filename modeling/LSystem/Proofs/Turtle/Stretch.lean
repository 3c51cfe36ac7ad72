import LSystem.Proofs.Turtle.Fit

/-!
# Stretched scripts

A script with every move made longer by one factor is walked just as the script
itself is at a scale that is larger by this factor. So the box it is measured by
is larger by the factor, its layout has the scale divided by the factor, and the
walk that is shown is the same one.
-/

namespace LSystem

def Box.stretch {α : Type} [Scalar α] (k : α) (box : Box α) : Box α where
  xMin := box.xMin * k
  xMax := box.xMax * k
  yMin := box.yMin * k
  yMax := box.yMax * k

/-! ### One axis -/

section Axis

variable {K : Type} [Field K]

theorem placed_at_zero (k x : K) : ((0 : ℤ) : K) + k * x = x * k := by
  rw [Int.cast_zero, zero_add, mul_comm]

theorem stretched_part {k : K} (hk : k ≠ 0) (low side inner : K) :
    -(low * k) / (side * k) * inner = -low / side * inner := by
  rw [← neg_mul, mul_div_mul_right _ _ hk]

end Axis

variable {K : Type} [ExactScalar K] {k : K}

/-! ### Walks -/

theorem isZero_stretch (hk : k ≠ 0) (d : K) : Scalar.isZero (d * k) = Scalar.isZero d :=
  decide_eq_decide.2 (mul_eq_zero_iff_right hk)

theorem Pose.moved_stretch (pose : Pose K) (d k scale : K) :
    pose.moved (d * k) scale = pose.moved d (k * scale) := by
  have hlength : d * k * scale = d * (k * scale) := mul_assoc d k scale
  unfold moved
  rw [hlength]

namespace Turtle

/-- A stretched command is obeyed like the command itself at a larger scale. -/
theorem obey_stretch (hk : k ≠ 0) (scale : K) (command : Command K) (turtle : Turtle K) :
    turtle.obey scale (command.stretch k) = turtle.obey (k * scale) command := by
  cases command with
  | move d =>
    have hzero := isZero_stretch hk d
    cases h : Scalar.isZero d with
    | true =>
      rw [h] at hzero
      rw [Command.stretch, obey_move_zero _ hzero, obey_move_zero _ h]
    | false =>
      rw [h] at hzero
      rw [Command.stretch, obey_move_nonzero _ hzero, obey_move_nonzero _ h, Pose.moved_stretch]
  | turn a => rfl
  | enter => rfl
  | leave => rfl

theorem seek_stretch (hk : k ≠ 0) (script : Script K) (scale : K) (turtle : Turtle K)
    (resumed : Bool) (logged : Array Warning) :
    turtle.seek (script.stretch k) scale resumed logged =
      turtle.seek script (k * scale) resumed logged := by
  have hsize : (script.stretch k).size = script.size := Array.size_map
  have hobey : ∀ (turtle : Turtle K) (h : turtle.cursor < script.size)
      (h' : turtle.cursor < (script.stretch k).size),
      turtle.obey scale (script.stretch k)[turtle.cursor] =
        turtle.obey (k * scale) script[turtle.cursor] := by
    intro turtle h h'
    rw [← obey_stretch hk]
    exact congrArg (turtle.obey scale) (Array.getElem_map ..)
  fun_induction seek script (k * scale) turtle resumed logged with
  | case1 turtle resumed logged h obeyed start stop heq =>
    have h' : turtle.cursor < (script.stretch k).size := hsize.symm ▸ h
    rw [seek, dif_pos h']
    simp only [hobey turtle h h', obeyed] at heq ⊢
    rw [heq]
  | case2 turtle resumed logged h obeyed heq ih =>
    have h' : turtle.cursor < (script.stretch k).size := hsize.symm ▸ h
    rw [seek, dif_pos h']
    simp only [hobey turtle h h', obeyed] at heq ih ⊢
    rw [heq]
    exact ih
  | case3 turtle resumed logged h obeyed warning heq ih =>
    have h' : turtle.cursor < (script.stretch k).size := hsize.symm ▸ h
    rw [seek, dif_pos h']
    simp only [hobey turtle h h', obeyed] at heq ih ⊢
    rw [heq]
    exact ih
  | case4 turtle resumed logged h obeyed heq ih =>
    have h' : turtle.cursor < (script.stretch k).size := hsize.symm ▸ h
    rw [seek, dif_pos h']
    simp only [hobey turtle h h', obeyed] at heq ih ⊢
    rw [heq]
    exact ih
  | case5 turtle resumed logged h =>
    rw [seek, dif_neg (hsize ▸ h)]

theorem advance_stretch (hk : k ≠ 0) (script : Script K) (scale : K) (turtle : Turtle K) :
    turtle.advance (script.stretch k) scale = turtle.advance script (k * scale) :=
  seek_stretch hk script scale turtle false #[]

theorem walkOn_stretch (hk : k ≠ 0) (script : Script K) (scale : K) (turtle : Turtle K)
    (steps : Array (Step K)) (logged : Array Warning) :
    turtle.walkOn (script.stretch k) scale steps logged =
      turtle.walkOn script (k * scale) steps logged := by
  fun_induction walkOn script (k * scale) turtle steps logged with
  | case1 turtle steps logged next hnone =>
    rw [walkOn]
    simp only [next, ← advance_stretch hk] at hnone ⊢
    split
    · rfl
    · next step hsome => cases hnone.symm.trans hsome
  | case2 turtle steps logged next step hsome ih =>
    rw [walkOn]
    simp only [next, ← advance_stretch hk] at hsome ih ⊢
    split
    · next hnone => cases hsome.symm.trans hnone
    · next other hother =>
      cases hsome.symm.trans hother
      exact ih

/-- A stretched script is walked like the script itself at a larger scale. -/
theorem walk_stretch (hk : k ≠ 0) (script : Script K) (scale : K) (turtle : Turtle K) :
    turtle.walk (script.stretch k) scale = turtle.walk script (k * scale) :=
  walkOn_stretch hk script scale turtle #[] #[]

end Turtle

/-! ### The measured box -/

namespace Box

theorem grow_placed (origin : Point K) {scale : K} (h : 0 ≤ scale) (box : Box K) (p : Point K) :
    (box.grow p).placed origin scale =
      (box.placed origin scale).grow (.placed origin scale p) := by
  have hx := monotone_placed_coordinate origin.x h
  have hy := monotone_placed_coordinate origin.y h
  simp only [grow, placed, Point.placed, Box.mk.injEq]
  exact ⟨hx.map_min, hx.map_max, hy.map_min, hy.map_max⟩

theorem foldl_grow_placed (origin : Point K) {scale : K} (h : 0 ≤ scale) (box : Box K)
    (points : List (Point K)) :
    (points.foldl grow box).placed origin scale =
      (points.map (Point.placed origin scale)).foldl grow (box.placed origin scale) := by
  rw [List.foldl_map]
  exact (List.foldl_hom _ fun box p => (grow_placed origin h box p).symm).symm

theorem placed_at_origin (k : K) (box : Box K) :
    box.placed Pose.origin.point k = box.stretch k := by
  simp only [placed, stretch, Box.mk.injEq]
  exact ⟨placed_at_zero .., placed_at_zero .., placed_at_zero .., placed_at_zero ..⟩

theorem side_stretch (hk : 0 < k) (box : Box K) : (box.stretch k).side = box.side * k := by
  rw [← placed_at_origin, side_placed _ _ hk.le]
  exact mul_comm ..

end Box

namespace Script

theorem steps_measuringWalk_stretch (hk : k ≠ 0) (script : Script K) :
    (script.stretch k).measuringWalk.steps.toList =
      script.measuringWalk.steps.toList.map (Step.placed Pose.origin.point k) := by
  -- The start of a layout at the origin is the place at which the walk begins.
  have hstart := (Layout.places_start ⟨Pose.origin.point, k, script.measuringWalk.box⟩).pose
  have hplaces : (Turtle.new Pose.origin).Places Pose.origin.point k (.new (Pose.origin : Pose K)) :=
    ⟨hstart, rfl⟩
  have hone : k * Scalar.ofInt 1 = k := by
    rw [ofInt_one]
    exact mul_one k
  have htrace := Turtle.trace_placed hplaces script.toList false
  rw [measuringWalk, Turtle.walk_stretch hk, hone, script.steps_measuringWalk, ← htrace]
  exact Turtle.steps_walk_of_cursor script k rfl

theorem box_measuringWalk_stretch (hk : 0 < k) (script : Script K) :
    (script.stretch k).measuringWalk.box = script.measuringWalk.box.stretch k := by
  have hbox (walk : Turtle.Walk K) : walk.box =
      (walk.steps.toList.map Step.stop).foldl Box.grow (.ofPoint Pose.origin.point) := by
    rw [List.foldl_map, Array.foldl_toList]
    rfl
  have hstart : (Box.ofPoint (Pose.origin : Pose K).point).placed Pose.origin.point k =
      .ofPoint Pose.origin.point := by
    have hzero : ((0 : ℤ) : K) + k * ((0 : ℤ) : K) = ((0 : ℤ) : K) := placed_zero ..
    exact congrArg₂ (fun x y => Box.mk x x y y) hzero hzero
  have hstops : (script.stretch k).measuringWalk.steps.toList.map Step.stop =
      (script.measuringWalk.steps.toList.map Step.stop).map (Point.placed Pose.origin.point k) := by
    rw [steps_measuringWalk_stretch hk.ne', List.map_map, List.map_map]
    rfl
  rw [← Box.placed_at_origin, hbox, hbox, Box.foldl_grow_placed _ hk.le, hstops, hstart]

end Script

namespace Layout

omit [ExactScalar K] in
theorem box_ofBox [Scalar K] (box : Box K) (viewport : Viewport K) :
    (ofBox box viewport).box = box := by
  unfold ofBox
  dsimp only
  split <;> rfl

/-- A box that is larger by a factor is put at the same place, at a scale that is smaller by it. -/
theorem ofBox_stretch {box : Box K} (hk : 0 < k) (hside : 0 < box.side) (viewport : Viewport K) :
    let layout := ofBox box viewport
    let stretched := ofBox (box.stretch k) viewport
    stretched.origin = layout.origin ∧ stretched.scale = layout.scale / k := by
  have hlarger : 0 < (box.stretch k).side := by
    rw [Box.side_stretch hk]
    exact mul_pos hside hk
  intro layout stretched
  have hlayout : layout = _ := ofBox_of_side_pos hside viewport
  have hstretched : stretched = _ := ofBox_of_side_pos hlarger viewport
  rw [hlayout, hstretched, Box.side_stretch hk]
  refine ⟨?_, (div_div ..).symm⟩
  exact congrArg₂ Point.mk (congrArg _ (stretched_part hk.ne' ..))
    (congrArg _ (stretched_part hk.ne' ..))

/-- A script with longer moves is measured by a larger box and laid out at the same place with a
smaller scale, so that the walk that is shown stays the same. -/
theorem stretch_keeps_picture (script : Script K) (viewport : Viewport K) (hk : 0 < k)
    (hside : 0 < script.measuringWalk.box.side) :
    let layout := (fit script viewport).1
    let stretched := (fit (script.stretch k) viewport).1
    stretched.box = layout.box.stretch k ∧ stretched.origin = layout.origin ∧
      stretched.scale = layout.scale / k ∧
      stretched.walk (script.stretch k) = layout.walk script := by
  intro layout stretched
  have hbox : layout.box = script.measuringWalk.box := box_ofBox ..
  have hlarger : stretched = ofBox (script.measuringWalk.box.stretch k) viewport := by
    rw [← Script.box_measuringWalk_stretch hk]
    rfl
  obtain ⟨horigin, hscale⟩ := ofBox_stretch hk hside viewport
  rw [← hlarger] at horigin hscale
  refine ⟨?_, horigin, hscale, ?_⟩
  · rw [hlarger, hbox]
    exact box_ofBox ..
  · have hlive : k * stretched.scale = layout.scale := by
      rw [hscale]
      exact mul_div_cancel₀ layout.scale hk.ne'
    have hstart : stretched.start = layout.start := congrArg Pose.atPoint horigin
    rw [walk, Turtle.walk_stretch hk.ne', hlive, hstart]
    rfl

/-! The corner, four times as large. -/

section Corner

local instance : ExactScalar ℚ := rightAngled

theorem stretch_keeps_picture_corner :
    let stretched := (fit (corner.stretch 4) smallViewport).1
    (0 : ℚ) < 4 ∧ 0 < corner.measuringWalk.box.side ∧
      stretched.box.xMax = 12 ∧ stretched.scale = 5 / 2 ∧
      stretched.walk (corner.stretch 4) = (fit corner smallViewport).1.walk corner := by
  intro stretched
  have hfactor : (0 : ℚ) < 4 := by decide +kernel
  have hside : 0 < corner.measuringWalk.box.side := by decide +kernel
  obtain ⟨hbox, _, hscale, hwalk⟩ := stretch_keeps_picture corner smallViewport hfactor hside
  refine ⟨hfactor, hside, ?_, ?_, hwalk⟩
  · rw [show stretched.box = _ from hbox]
    decide +kernel
  · rw [show stretched.scale = _ from hscale]
    decide +kernel

end Corner

end Layout

end LSystem
