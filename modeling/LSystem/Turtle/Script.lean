import LSystem.Scalar

/-!
# Scripts

What a turtle walks: a sequence of moves, turns, and the two ends of branches.
-/

namespace LSystem

inductive Command (α : Type)
  | move (distance : α)
  /-- A turn by an angle in degrees. -/
  | turn (angle : α)
  | enter
  | leave

abbrev Script (α : Type) := Array (Command α)

variable {α : Type} [Scalar α]

namespace Command

/-- Whether a command draws: a move by anything but zero. -/
def draws : Command α → Bool
  | move d => !Scalar.isZero d
  | _ => false

def stretch (k : α) : Command α → Command α
  | move d => move (d * k)
  | c => c

end Command

namespace Script

def stretch (k : α) (script : Script α) : Script α := script.map (Command.stretch k)

def drawCount (script : Script α) : Nat := script.countP Command.draws

end Script

end LSystem
