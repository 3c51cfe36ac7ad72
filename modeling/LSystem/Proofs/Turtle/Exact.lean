import Mathlib.Algebra.Order.Field.Basic
import Mathlib.Tactic.Ring
import LSystem.Proofs.Turtle.Trace

/-!
# Exact walks

Numbers without rounding: an ordered field, with any two functions of a heading
in the place of cosine and sine. A walk in such numbers depends on its start and
its scale as it should. It is the walk from the origin at scale one, made larger
by the scale and moved to the start.
-/

namespace LSystem

/-- An ordered field with any two functions of a heading for its cosine and sine. -/
class ExactScalar (K : Type) extends Field K, LinearOrder K, IsStrictOrderedRing K where
  cosine : K → K
  sine : K → K

instance (priority := low) {K : Type} [ExactScalar K] : Scalar K where
  add a b := a + b
  sub a b := a - b
  mul a b := a * b
  div a b := a / b
  neg a := -a
  ofInt := Int.cast
  cosine := ExactScalar.cosine
  sine := ExactScalar.sine
  minimum := min
  maximum := max
  isZero a := decide (a = 0)
  isFinite _ := true
  isPositive a := decide (0 < a)

section Placed

variable {α : Type} [Scalar α]

def Point.placed (origin : Point α) (scale : α) (p : Point α) : Point α :=
  ⟨origin.x + scale * p.x, origin.y + scale * p.y⟩

def Pose.placed (origin : Point α) (scale : α) (pose : Pose α) : Pose α :=
  ⟨origin.x + scale * pose.x, origin.y + scale * pose.y, pose.angle⟩

def Step.placed (origin : Point α) (scale : α) (step : Step α) : Step α :=
  ⟨.placed origin scale step.start, .placed origin scale step.stop, step.resumed⟩

/-- The other turtle stands, and remembers to have stood, where this one does in the figure when it
is scaled and moved. -/
structure Turtle.Places (origin : Point α) (scale : α) (turtle other : Turtle α) : Prop where
  pose : other.pose = turtle.pose.placed origin scale
  stack : other.stack = turtle.stack.map (Pose.placed origin scale)

end Placed

theorem moved_coordinate {K : Type} [Field K] (origin scale x direction distance : K) :
    origin + scale * (x + direction * (distance * 1)) =
      origin + scale * x + direction * (distance * scale) := by
  ring

variable {K : Type} [ExactScalar K]

theorem ofInt_one : (Scalar.ofInt 1 : K) = 1 := Int.cast_one

theorem Pose.placed_moved (origin : Point K) (scale : K) (pose : Pose K) (distance : K) :
    (pose.moved distance (Scalar.ofInt 1)).placed origin scale =
      (pose.placed origin scale).moved distance scale := by
  rw [ofInt_one]
  have hx := moved_coordinate origin.x scale pose.x (Scalar.cosine pose.angle) distance
  have hy := moved_coordinate origin.y scale pose.y (Scalar.sine pose.angle) distance
  exact congrArg₂ (fun x y => Pose.mk x y pose.angle) hx hy

namespace Turtle

variable {origin : Point K} {scale : K} {turtle other : Turtle K}

/-- The steps are those of the walk at scale one, scaled and moved. -/
theorem trace_placed (h : turtle.Places origin scale other) (commands : List (Command K))
    (resumed : Bool) :
    trace scale commands other resumed =
      (trace (Scalar.ofInt 1) commands turtle resumed).map (Step.placed origin scale) := by
  induction commands generalizing turtle other resumed with
  | nil => rfl
  | cons command rest ih =>
    obtain ⟨hpose, hstack⟩ := h
    cases command with
    | move d =>
      have hmoved : other.pose.moved d scale =
          (turtle.pose.moved d (Scalar.ofInt 1)).placed origin scale := by
        rw [hpose, Pose.placed_moved]
      cases hzero : Scalar.isZero d with
      | true =>
        simp only [trace, obey_move_zero _ hzero]
        refine ih ?_ resumed
        exact ⟨hpose, hstack⟩
      | false =>
        simp only [trace, obey_move_nonzero _ hzero, List.map_cons]
        refine congrArg₂ List.cons ?_ (ih ?_ false)
        · rw [hmoved, hpose]
          rfl
        · exact ⟨hmoved, hstack⟩
    | turn a =>
      have hturned : other.pose.turned a = (turtle.pose.turned a).placed origin scale := by
        rw [hpose]
        rfl
      refine ih ?_ resumed
      exact ⟨hturned, hstack⟩
    | enter =>
      have hentered : other.pose :: other.stack =
          (turtle.pose :: turtle.stack).map (Pose.placed origin scale) := by
        rw [hpose, hstack, List.map_cons]
      refine ih ?_ resumed
      exact ⟨hpose, hentered⟩
    | leave =>
      cases hs : turtle.stack with
      | nil =>
        have hs' : other.stack = [] := by
          rw [hstack, hs, List.map_nil]
        simp only [trace, obey_leave_stray _ hs, obey_leave_stray _ hs']
        refine ih ?_ resumed
        exact ⟨hpose, hstack⟩
      | cons saved stack =>
        have hs' : other.stack = saved.placed origin scale ::
            stack.map (Pose.placed origin scale) := by
          rw [hstack, hs, List.map_cons]
        simp only [trace, obey_leave_resumed _ hs, obey_leave_resumed _ hs']
        refine ih ?_ true
        exact ⟨rfl, rfl⟩

end Turtle

end LSystem
