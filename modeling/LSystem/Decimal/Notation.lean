import LSystem.Decimal.Shortest

/-!
# Decimal notations

A decimal as whole part and fraction, either in full or with one digit in front
of the point and a power of ten; and the plain text of a double, which is always
written in full.
-/

namespace LSystem.Decimal

structure Mixed where
  whole : Nat
  fraction : List Digit
  deriving Repr, DecidableEq

def positional (d : Decimal) : Mixed :=
  let places := (-d.exponent).toNat
  { whole := d.digits * Nat.pow 10 d.exponent.toNat / Nat.pow 10 places
    fraction := Digit.padded places d.digits }

def leadingPlace (d : Decimal) : Int := ((Digit.ofNat d.digits).length - 1 : Nat) + d.exponent

/-- The decimal with one digit in front of the point, to be scaled by its leading place. -/
def scientific (d : Decimal) : Mixed :=
  let places := (Digit.ofNat d.digits).length - 1
  { whole := d.digits / Nat.pow 10 places, fraction := Digit.padded places d.digits }

def Mixed.text (m : Mixed) : List Char :=
  Digit.text (Digit.ofNat m.whole) ++
    if m.fraction.isEmpty then [] else '.' :: Digit.text m.fraction

/-- The text of a double in full: the fewest digits that read back, never a power of ten. -/
def plainText (x : Float) : String :=
  if x.isNaN then "NaN"
  else
    let magnitude := if x.isInf then "inf" else String.ofList (ofFloat .up x).positional.text
    if isNegative x then "-" ++ magnitude else magnitude

end LSystem.Decimal
