import LSystem.Scalar

/-!
# Points and poses

A pose is a place in the plane together with a heading in degrees.
-/

namespace LSystem

structure Point (α : Type) where
  x : α
  y : α
  deriving Repr, DecidableEq

/-- A place and a heading in degrees. -/
structure Pose (α : Type) where
  x : α
  y : α
  angle : α
  deriving Repr, DecidableEq

namespace Pose

variable {α : Type} [Scalar α]

def atPoint (p : Point α) : Pose α := ⟨p.x, p.y, Scalar.ofInt 0⟩

def origin : Pose α := ⟨Scalar.ofInt 0, Scalar.ofInt 0, Scalar.ofInt 0⟩

def point (pose : Pose α) : Point α := ⟨pose.x, pose.y⟩

def turned (pose : Pose α) (delta : α) : Pose α := { pose with angle := pose.angle + delta }

def moved (pose : Pose α) (distance scale : α) : Pose α :=
  let length := distance * scale
  { pose with
    x := pose.x + Scalar.cosine pose.angle * length
    y := pose.y + Scalar.sine pose.angle * length }

end Pose

end LSystem
