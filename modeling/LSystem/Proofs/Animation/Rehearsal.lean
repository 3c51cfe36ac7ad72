import LSystem.Proofs.Animation.Course
import LSystem.Proofs.Turtle.Warnings

/-!
# Rehearsals

The walk that measures a figure rehearses every walk that is shown of it. The
layout moves and scales the figure but leaves each heading as it was, so the
turtle of an animation stops at the same commands as the measuring one, in every
cycle and whatever the surface refuses. Also the warnings are the same, and
only the measuring walk logs them.
-/

namespace LSystem

variable {α σ : Type} [Scalar α]

namespace Animation

/-- The turtle is where the measuring walk stands after so many searches, up to the place and the
length of its moves, and the next search will end in the same way. -/
structure Rehearsed (animation : Animation α) (count : Nat) : Prop where
  stop : ((Turtle.new Pose.origin).advanced animation.script (Scalar.ofInt 1) count).SameStop
    animation.turtle
  next : animation.script.measuringWalk.steps[count]?.map Step.resumed =
    animation.search.step?.map Step.resumed

theorem getElem?_steps_measuringWalk (script : Script α) (count : Nat) :
    script.measuringWalk.steps[count]? =
      (((Turtle.new Pose.origin).advanced script (Scalar.ofInt 1) count).advance script
        (Scalar.ofInt 1)).step? := by
  rw [Turtle.step?_advance_advanced, ← Array.getElem?_toList]
  exact congrArg (·[count]?) (Turtle.steps_walk_of_cursor script _ rfl)

variable {animation : Animation α} {count : Nat}

theorem OnCourse.rehearsed (h : animation.OnCourse count) : animation.Rehearsed count := by
  have hstart : (Turtle.new Pose.origin).SameStop (Turtle.silent animation.layout.start) :=
    Turtle.sameStop_new ..
  have hstop := hstart.advanced animation.script (Scalar.ofInt 1) animation.layout.scale count
  have hturtle : (Turtle.silent animation.layout.start).advanced animation.script
      animation.layout.scale count = animation.turtle := h.symm
  rw [hturtle] at hstop
  refine ⟨hstop, ?_⟩
  rw [getElem?_steps_measuringWalk]
  exact (hstop.advance animation.script (Scalar.ofInt 1) animation.layout.scale).2

/-- The turtle of an animation never reports. -/
theorem OnCourse.reports (h : animation.OnCourse count) : animation.turtle.reports = false := by
  have hreset := animation.layout.reset_turtleAfter animation.script count
  rw [← h] at hreset
  exact congrArg Turtle.reports hreset

theorem OnCourse.tally (h : animation.OnCourse count) :
    animation.turtle.Tally animation.script := by
  have hstart : (Turtle.silent animation.layout.start).Tally animation.script :=
    Turtle.tally_of_cursor animation.script rfl rfl rfl
  have htally := hstart.advancedBy (List.replicate count animation.layout.scale)
  rw [← Turtle.advanced_eq_advancedBy] at htally
  rw [h]
  exact htally

theorem OnCourse.logged_scene (h : animation.OnCourse count) : animation.scene.logged = #[] := by
  have hsearch : animation.search.logged = #[] :=
    Turtle.logged_advance_of_silent animation.script _ h.reports
  unfold scene
  cases animation.stage with
  | drawing =>
    simp only [drawScene]
    split
    · exact hsearch
    · exact hsearch
  | fading =>
    simp only [fadeScene]
    split <;> rfl

theorem OnCourse.log [Surface σ α] (h : animation.OnCourse count) (actions : List (Action σ)) :
    log actions animation = [] := by
  induction actions generalizing animation count with
  | nil => rfl
  | cons action actions ih =>
    obtain ⟨count', hcourse, _⟩ := h.act action
    cases action with
    | tick surface =>
      rw [Animation.log, h.logged_scene]
      exact ih hcourse
    | restart => exact ih hcourse

/-- Two turtles that set out with one heading, from wherever and reporting or not, are at the same
stop after each search for a step, whatever the scales of the searches, and the next search finds a
step for both or for neither, behind a branch for both or for neither. So the turtle of an
animation, whatever is done to it, is at a stop of the measuring walk, and goes on to the next one,
stays, or is back at the first. -/
theorem stops_as_measured [Surface σ α] (script : Script α) :
    (∀ (heading x y x' y' : α) (reports reports' : Bool) (scales : List (α × α))
        (scale scale' : α),
      let first := ({ start := ⟨x, y, heading⟩, reports } : Turtle α).advancedBy script
        (scales.map Prod.fst)
      let second := ({ start := ⟨x', y', heading⟩, reports := reports' } : Turtle α).advancedBy
        script (scales.map Prod.snd)
      first.SameStop second ∧ first.depth = second.depth ∧
      (first.advance script scale).step?.map Step.resumed =
        (second.advance script scale').step?.map Step.resumed) ∧
    ∀ (viewport : Viewport α) (style : Style α) (actions : List (Action σ)),
      let layout := (Layout.fit script viewport).1
      let animation := (new script layout style).run actions
      animation.script = script ∧ ∃ count, animation.Rehearsed count ∧
      ∀ action : Action σ, ∃ count', (animation.act action).Rehearsed count' ∧
        (count' = count ∨ count' = count + 1 ∨ count' = 0) := by
  constructor
  · intro heading x y x' y' reports reports' scales scale scale' first second
    have hstop : first.SameStop second := (Turtle.sameStop_new ..).advancedBy script scales
    exact ⟨hstop, hstop.depth, (hstop.advance script scale scale').2⟩
  · intro viewport style actions layout animation
    obtain ⟨count, hcourse⟩ := (onCourse_new script layout style).run actions
    have hdesign : animation.design = (script, layout, style) := design_run _ actions
    refine ⟨congrArg Prod.fst hdesign, count, hcourse.rehearsed, ?_⟩
    intro action
    obtain ⟨count', hcourse', hproceeds⟩ := hcourse.act action
    exact ⟨count', hcourse'.rehearsed, hproceeds⟩

/-- The warnings of a turtle are the stray branch ends below its cursor, in order. Fitting a figure
logs those of the whole script, once each, and an animation of the figure logs none, whatever is
done to it, while its turtle records those below its cursor anew in each cycle. -/
theorem stray_ends_logged_once [Surface σ α] (script : Script α) :
    (∀ (start : Pose α) (reports : Bool) (scales : List α),
      let turtle := ({ start, reports } : Turtle α).advancedBy script scales
      turtle.warnings.toList = (script.strays turtle.cursor).map .strayLeave) ∧
    ∀ viewport : Viewport α,
      let fitted := Layout.fit script viewport
      fitted.2.toList = (script.strays script.size).map .strayLeave ∧
      ∀ (style : Style α) (actions : List (Action σ)),
        let animation := new script fitted.1 style
        let turtle := (animation.run actions).turtle
        animation.log actions = [] ∧
        turtle.warnings.toList = (script.strays turtle.cursor).map .strayLeave := by
  constructor
  · intro start reports scales turtle
    exact ((Turtle.tally_of_cursor script rfl rfl rfl).advancedBy scales).warnings
  · intro viewport fitted
    refine ⟨Turtle.logged_walk script (Scalar.ofInt 1) Pose.origin, ?_⟩
    intro style actions animation turtle
    have hnew := onCourse_new script fitted.1 style
    obtain ⟨count, hcourse⟩ := hnew.run actions
    have hscript : (animation.run actions).script = script :=
      congrArg Prod.fst (design_run animation actions)
    have hwarnings := hcourse.tally.warnings
    rw [hscript] at hwarnings
    exact ⟨hnew.log actions, hwarnings⟩

end Animation

end LSystem
