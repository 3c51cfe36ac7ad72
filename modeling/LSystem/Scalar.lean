/-!
# Scalars

The numbers a figure is measured in: distances, coordinates, headings and
scales. A heading is in degrees, so cosine and sine are taken of degrees. The
library is written over this class; the program runs it on doubles, and an
ordered field with any two functions for cosine and sine is another instance.
-/

namespace LSystem

class Scalar (α : Type) extends Add α, Sub α, Mul α, Div α, Neg α where
  ofInt : Int → α
  cosine : α → α
  sine : α → α
  /-- Smaller of two numbers; the other one when one of them is no number. -/
  minimum : α → α → α
  /-- Larger of two numbers; the other one when one of them is no number. -/
  maximum : α → α → α
  isZero : α → Bool
  isFinite : α → Bool
  isPositive : α → Bool

namespace Scalar

def half (α : Type) [Scalar α] : α := ofInt 1 / ofInt 2

end Scalar

namespace Double

/-- The double nearest to π / 180. -/
def degree : Float := Float.ofBits 0x3f91df46a2529d39

def minimum (a b : Float) : Float := if b < a || a.isNaN then b else a

def maximum (a b : Float) : Float := if a < b || a.isNaN then b else a

end Double

/-- Doubles: a heading is turned into radians by one rounded product. -/
instance : Scalar Float where
  ofInt := Float.ofInt
  cosine d := Float.cos (d * Double.degree)
  sine d := Float.sin (d * Double.degree)
  minimum := Double.minimum
  maximum := Double.maximum
  isZero d := d == 0
  isFinite := Float.isFinite
  isPositive d := 0 < d

end LSystem
