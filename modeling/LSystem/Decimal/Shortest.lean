import LSystem.Text.Digit

/-!
# Shortest decimals

A binary floating-point number stands for every real number that is rounded to
it, an interval around its value. Its shortest decimal is the point of the
coarsest decimal grid that meets this interval; of two such points the one
nearer to the value, and at equal distance the one a tie rule chooses.
-/

namespace LSystem

/-- A number `digits * 10 ^ exponent`. -/
structure Decimal where
  digits : Nat
  exponent : Int
  deriving Repr, DecidableEq

namespace Decimal

/-- A positive number `mantissa * 2 ^ exponent` among its neighbours. -/
structure Binary where
  mantissa : Nat
  exponent : Int
  /-- Whether the neighbour below is only half as far away as the one above. -/
  nearBelow : Bool
  deriving Repr, DecidableEq

inductive Tie
  | up
  | toEven
  deriving Repr, DecidableEq

def Binary.ofFloat (x : Float) : Binary :=
  let bits := x.toBits.toNat
  let fraction : Nat := bits % Nat.pow 2 52
  let biased : Nat := bits / Nat.pow 2 52 % Nat.pow 2 11
  if biased = 0 then ⟨fraction, -1074, false⟩
  else ⟨Nat.pow 2 52 + fraction, biased - 1075, fraction = 0 ∧ 1 < biased⟩

/-- The interval that rounds to a number, on the grid `10 ^ place`: its ends and the number itself
as numerators over a common denominator, which is the width of the grid. -/
structure Interval where
  low : Nat
  value : Nat
  high : Nat
  unit : Nat
  closed : Bool

def Binary.interval (b : Binary) (place : Int) : Interval :=
  let binary := b.exponent - 2
  let numerator := Nat.pow 2 binary.toNat * Nat.pow 10 (-place).toNat
  { low := (4 * b.mantissa - if b.nearBelow then 1 else 2) * numerator
    value := 4 * b.mantissa * numerator
    high := (4 * b.mantissa + 2) * numerator
    unit := Nat.pow 2 (-binary).toNat * Nat.pow 10 place.toNat
    closed := b.mantissa % 2 = 0 }

def Interval.holds (i : Interval) (point : Nat) : Bool :=
  let p := point * i.unit
  if i.closed then i.low ≤ p && p ≤ i.high else i.low < p && p < i.high

def Interval.point? (tie : Tie) (i : Interval) : Option Nat :=
  let below := i.value / i.unit
  let down := i.value - below * i.unit
  let up := (below + 1) * i.unit - i.value
  match 0 < below && i.holds below, i.holds (below + 1) with
  | true, true =>
    if down < up then some below
    else if up < down then some (below + 1)
    else if tie = .toEven && below % 2 = 0 then some below
    else some (below + 1)
  | true, false => some below
  | false, true => some (below + 1)
  | false, false => none

/-- The first grid, of `count` ever finer ones from `10 ^ place` on, that meets the interval. -/
def Binary.search (tie : Tie) (b : Binary) : Nat → Int → Decimal
  | 0, place => ⟨(b.interval place).value / (b.interval place).unit, place⟩
  | count + 1, place =>
    match (b.interval place).point? tie with
    | some digits => ⟨digits, place⟩
    | none => b.search tie count (place - 1)

/-- A power of ten that exceeds the number, by no more than two places. -/
def Binary.ceiling (b : Binary) : Int :=
  ((b.mantissa.log2 + 1 : Nat) + b.exponent) * 30103 / 100000 + 1

/-- The shortest decimal of a number; seventeen digits always suffice. -/
def Binary.shortest (tie : Tie) (b : Binary) : Decimal := b.search tie 20 b.ceiling

def stripZeros (d : Decimal) : Decimal :=
  if h : 0 < d.digits ∧ d.digits % 10 = 0 then stripZeros ⟨d.digits / 10, d.exponent + 1⟩ else d
  termination_by d.digits
  decreasing_by omega

def ofFloat (tie : Tie) (x : Float) : Decimal :=
  if x == 0 then ⟨0, 0⟩ else ((Binary.ofFloat x).shortest tie).stripZeros

def isNegative (x : Float) : Bool := x.toBits >>> 63 == 1

end Decimal

end LSystem
