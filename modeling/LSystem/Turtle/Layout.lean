import LSystem.Turtle.Box
import LSystem.Turtle.Viewport

/-!
# Layouts

Where a live walk starts and how long its moves are, so that the figure fills
the inner square of a viewport. A figure without extent keeps its size and
starts in the middle of the square.
-/

namespace LSystem

structure Layout (α : Type) where
  origin : Point α
  scale : α
  box : Box α

namespace Layout

variable {α : Type} [Scalar α]

def start (layout : Layout α) : Pose α := Pose.atPoint layout.origin

/-- Whether a figure of this side can be scaled to another size. -/
def hasExtent (side : α) : Bool := Scalar.isFinite side && Scalar.isPositive side

def ofBox (box : Box α) (viewport : Viewport α) : Layout α :=
  let side := box.side
  let inner := viewport.innerSide
  let offset := viewport.offset
  if hasExtent side then
    { origin := ⟨offset.x + -box.xMin / side * inner, offset.y + -box.yMin / side * inner⟩
      scale := inner / side
      box }
  else
    let half := inner * Scalar.half α
    { origin := ⟨offset.x + half, offset.y + half⟩, scale := Scalar.ofInt 1, box }

def fit (script : Script α) (viewport : Viewport α) : Layout α × Array Warning :=
  let walk := script.measuringWalk
  (ofBox walk.box viewport, walk.logged)

end Layout

end LSystem
