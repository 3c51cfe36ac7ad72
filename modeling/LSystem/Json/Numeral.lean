import LSystem.Decimal.Notation

/-!
# Numerals

Numbers as JSON writes them: a sign, a whole part, a fraction and a power of
ten, of which the last two may be absent. Which integer or double a numeral
stands for is a separate question, answered here as well.
-/

namespace LSystem

structure Numeral where
  negative : Bool := false
  whole : Nat
  fraction : List Digit := []
  exponent : Option Int := none
  deriving Repr, DecidableEq

namespace Numeral

def ofInt (n : Int) : Numeral := { negative := n < 0, whole := n.natAbs }

def exponentText : Option Int → List Char
  | none => []
  | some e => 'e' :: (if e < 0 then '-' else '+') :: Digit.text (Digit.ofNat e.natAbs)

def text (n : Numeral) : List Char :=
  (if n.negative then ['-'] else []) ++ Decimal.Mixed.text ⟨n.whole, n.fraction⟩ ++
    exponentText n.exponent

/-- The integer a numeral stands for, if it has neither fraction nor power of ten and is not minus
zero. -/
def toInt? (n : Numeral) : Option Int :=
  if n.fraction.isEmpty && n.exponent.isNone && !(n.negative && n.whole = 0) then
    some (if n.negative then -(n.whole : Int) else n.whole)
  else none

def toIntIn? (low high : Int) (n : Numeral) : Option Int :=
  n.toInt?.filter fun i => low ≤ i && i ≤ high

/-! ### Doubles -/

/-- Appends digits to a significand while it stays within 64 bits; the significand and the number
of digits left over. -/
def absorb : Nat → List Digit → Nat × Nat
  | significand, [] => (significand, 0)
  | significand, d :: rest =>
    if significand * 10 + d.val < UInt64.size then absorb (significand * 10 + d.val) rest
    else (significand, rest.length + 1)

/-- The significand that a numeral is read with, and its power of ten: digits beyond 64 bits are
dropped. -/
def significand (n : Numeral) : Nat × Int :=
  let (whole, dropped) := absorb 0 (Digit.ofNat n.whole)
  let (both, ignored) := absorb whole n.fraction
  (both, dropped - ((n.fraction.length - ignored : Nat) : Int) + n.exponent.getD 0)

def powerOfTen (e : Nat) : Float := Float.ofScientific 1 false e

/-- Divides by a power of ten, at most by `10 ^ 308` at a time. -/
def divideByPower (x : Float) (e : Nat) : Float :=
  if e ≤ 308 then x / powerOfTen e
  else if x == 0 then x
  else divideByPower (x / powerOfTen 308) (e - 308)
  termination_by e
  decreasing_by omega

/-- Multiplies by a power of ten, unless the product is too large. -/
def multiplyByPower (x : Float) (e : Nat) : Option Float :=
  if e ≤ 308 then
    let product := x * powerOfTen e
    if product.isInf then none else some product
  else if x == 0 then some x
  else none

/-- The double that a numeral is read as, unless it is too large: the significand, rounded once,
and one rounded product or quotient with a power of ten. -/
def toFloat? (n : Numeral) : Option Float :=
  let (significand, power) := n.significand
  let start := significand.toUInt64.toFloat
  let magnitude :=
    if 0 ≤ power then multiplyByPower start power.toNat
    else some (divideByPower start (-power).toNat)
  magnitude.map fun x => if n.negative then -x else x

/-- The numeral a finite double is written as: the fewest digits that read back, in full with at
least one digit behind the point when the leading digit is at one of the places -5 to 15, and
otherwise as a multiple of a power of ten. -/
def ofFloat? (x : Float) : Option Numeral :=
  if x.isFinite then
    let d := Decimal.ofFloat .toEven x
    let negative := Decimal.isNegative x
    if -5 ≤ d.leadingPlace ∧ d.leadingPlace ≤ 15 then
      let m := d.positional
      let fraction := if m.fraction.isEmpty then [Digit.zero] else m.fraction
      some { negative, whole := m.whole, fraction }
    else
      let m := d.scientific
      some { negative, whole := m.whole, fraction := m.fraction, exponent := some d.leadingPlace }
  else none

end Numeral

class NumberText (α : Type) where
  toNumeral? : α → Option Numeral
  ofNumeral? : Numeral → Option α

instance : NumberText Float := ⟨Numeral.ofFloat?, Numeral.toFloat?⟩

end LSystem
