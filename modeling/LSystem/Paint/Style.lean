import LSystem.Picture.Color
import LSystem.Scalar

/-!
# Styles

The paints of a drawing: one for the step just drawn, one for the trails behind
it, and the color below both.
-/

namespace LSystem

structure Paint (α : Type) where
  color : Color
  width : α

def Paint.faded {α : Type} (paint : Paint α) (opacity : UInt8) : Paint α :=
  { paint with color := paint.color.faded opacity }

structure Style (α : Type) where
  head : Paint α
  tail : Paint α
  background : Color

variable {α : Type} [Scalar α]

def Style.default : Style α where
  head := ⟨.magenta, Scalar.ofInt 5⟩
  tail := ⟨.gray, Scalar.ofInt 4⟩
  background := .black

def Paint.isFit (paint : Paint α) : Bool :=
  Scalar.isFinite paint.width && Scalar.isPositive paint.width

end LSystem
