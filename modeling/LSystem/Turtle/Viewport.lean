import LSystem.Turtle.Pose

/-!
# Viewports

The square of a surface that a figure is fitted into. A margin is taken off its
side, and the inner square that is left has its top left corner at an offset.
-/

namespace LSystem

structure Viewport (α : Type) where
  side : α
  margin : α
  offset : Point α

namespace Viewport

variable {α : Type} [Scalar α]

def usualMargin : α := Scalar.ofInt 100

def reference (side : α) : Viewport α where
  side := side
  margin := usualMargin
  offset := ⟨Scalar.ofInt 50, Scalar.ofInt 200⟩

def centered (width height margin : α) : Viewport α :=
  let side := Scalar.minimum width height
  { side
    margin
    offset :=
      ⟨(width - side + margin) * Scalar.half α, (height - side + margin) * Scalar.half α⟩ }

/-- The side of the inner square, which is zero when the margin takes it all. -/
def innerSide (viewport : Viewport α) : α :=
  Scalar.maximum (Scalar.ofInt 0) (viewport.side - viewport.margin)

end Viewport

end LSystem
