import LSystem.Turtle.Walk

/-!
# Boxes

The smallest upright box around points, and the box around a figure: the
extremes of a walk from the origin at scale one.
-/

namespace LSystem

structure Box (α : Type) where
  xMin : α
  xMax : α
  yMin : α
  yMax : α

namespace Box

variable {α : Type}

def ofPoint (p : Point α) : Box α := ⟨p.x, p.x, p.y, p.y⟩

variable [Scalar α]

def grow (box : Box α) (p : Point α) : Box α where
  xMin := Scalar.minimum box.xMin p.x
  xMax := Scalar.maximum box.xMax p.x
  yMin := Scalar.minimum box.yMin p.y
  yMax := Scalar.maximum box.yMax p.y

def width (box : Box α) : α := box.xMax - box.xMin

def height (box : Box α) : α := box.yMax - box.yMin

def side (box : Box α) : α := Scalar.maximum box.width box.height

end Box

variable {α : Type} [Scalar α]

/-- The walk that a figure is measured by: from the origin, at scale one. -/
def Script.measuringWalk (script : Script α) : Turtle.Walk α :=
  (Turtle.new Pose.origin).walk script (Scalar.ofInt 1)

/-- The box around the origin and the end points of all steps of a walk. -/
def Turtle.Walk.box (walk : Turtle.Walk α) : Box α :=
  walk.steps.foldl (fun box step => box.grow step.stop) (Box.ofPoint Pose.origin.point)

end LSystem
