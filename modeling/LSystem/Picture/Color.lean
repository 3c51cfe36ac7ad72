/-!
# Colors and pixels

Colors carry straight alpha, pixels are stored with the alpha multiplied in.
Products of bytes are taken as fractions of 255 and rounded to nearest.
-/

namespace LSystem

/-- The product of two bytes as fractions of 255, rounded to nearest. -/
def scale255 (x y : Nat) : Nat := (x * y + 127) / 255

theorem scale255_le {x y : Nat} (hx : x ≤ 255) (hy : y ≤ 255) : scale255 x y ≤ 255 := by
  unfold scale255
  have : x * y ≤ 255 * 255 := Nat.mul_le_mul hx hy
  omega

def scaleByte (x y : UInt8) : UInt8 := UInt8.ofNat (scale255 x.toNat y.toNat)

structure Color where
  red : UInt8
  green : UInt8
  blue : UInt8
  alpha : UInt8 := 255
  deriving Repr, DecidableEq

structure Pixel where
  red : UInt8
  green : UInt8
  blue : UInt8
  alpha : UInt8
  deriving Repr, DecidableEq

namespace Color

def black : Color := { red := 0, green := 0, blue := 0 }

def gray : Color := { red := 0x88, green := 0x88, blue := 0x88 }

def magenta : Color := { red := 0xff, green := 0, blue := 0xff }

def solid (color : Color) : Color := { color with alpha := 255 }

def faded (color : Color) (opacity : UInt8) : Color :=
  { color with alpha := scaleByte color.alpha opacity }

def toPixel (color : Color) : Pixel where
  red := scaleByte color.red color.alpha
  green := scaleByte color.green color.alpha
  blue := scaleByte color.blue color.alpha
  alpha := color.alpha

end Color

namespace Pixel

def clear : Pixel := ⟨0, 0, 0, 0⟩

def unscaleByte (c alpha : UInt8) : UInt8 :=
  UInt8.ofNat (min ((c.toNat * 255 + alpha.toNat / 2) / alpha.toNat) 255)

/-- Divides the alpha out of the colors; without alpha, or with all of it, nothing changes. -/
def straight (p : Pixel) : Pixel :=
  if p.alpha = 0 ∨ p.alpha = 255 then p
  else
    { red := unscaleByte p.red p.alpha
      green := unscaleByte p.green p.alpha
      blue := unscaleByte p.blue p.alpha
      alpha := p.alpha }

def toBytes (p : Pixel) : List UInt8 := [p.red, p.green, p.blue, p.alpha]

end Pixel

end LSystem
