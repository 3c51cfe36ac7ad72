import LSystem.Turtle.Pose

/-!
# Paths

Lines made of straight and curved pieces.
-/

namespace LSystem

inductive PathElement (α : Type)
  | moveTo (p : Point α)
  | lineTo (p : Point α)
  | quadTo (control stop : Point α)
  | curveTo (first second stop : Point α)
  | close

abbrev Path (α : Type) := Array (PathElement α)

end LSystem
