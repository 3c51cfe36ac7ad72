import LSystem.Grammar.Request
import LSystem.Paint.Style

/-!
# Configurations

What a user can choose: a grammar of the catalogue with overrides, the looks of
the drawing, the pace and the placement. A configuration that is fit makes a
request; of several faults the first in the order of the checks is reported.
-/

namespace LSystem

inductive Placement
  /-- In a square of the surface's width, at a fixed offset. -/
  | reference
  /-- In the largest square in the middle of the surface. -/
  | centered
  deriving Repr, DecidableEq

structure Config (α : Type) where
  grammar : String
  iterations : Option Int64
  /-- Turn angle in degrees in place of the grammar's own. -/
  angle : Option α
  seed : Option String
  style : Style α
  /-- Milliseconds between two ticks. -/
  interval : UInt64
  placement : Placement

namespace Config

variable {α : Type} [Scalar α]

def default : Config α where
  grammar := "hilbert"
  iterations := none
  angle := none
  seed := none
  style := .default
  interval := 200
  placement := .reference

def ofGrammar (name : String) : Config α := { default with grammar := name }

/-- Checks everything but the grammar's name and the seed. -/
def check (config : Config α) : Except Error Unit :=
  if config.interval = 0 then .error .intervalZero
  else if !config.style.head.isFit then .error .headWidthUnfit
  else if !config.style.tail.isFit then .error .tailWidthUnfit
  else if config.angle.any fun angle => !Scalar.isFinite angle then .error .angleNotFinite
  else .ok ()

def intervalMicroseconds (config : Config α) : Nat := config.interval.toNat * 1000

def viewport (config : Config α) (width height : α) : Viewport α :=
  match config.placement with
  | .reference => .reference width
  | .centered => .centered width height Viewport.usualMargin

def request (config : Config α) : Except Error (Request α) := do
  config.check
  let grammar ← Catalogue.get config.grammar
  return {
    grammar
    seed := config.seed.getD grammar.seed
    iterations := (config.iterations.map usableIterations).getD grammar.iterations
    angle := config.angle.getD grammar.angle }

end Config

end LSystem
