import LSystem.Grammar.Catalogue
import LSystem.Turtle.Layout

/-!
# Requests

What is to be drawn, with nothing left open: a grammar and the seed, depth and
turn angle to use with it. A request is answered by a figure, which is the
expanded script with its layout.
-/

namespace LSystem

structure Request (α : Type) where
  grammar : Grammar α
  seed : String
  iterations : Nat
  angle : α

/-- An expanded script, its layout, and the warnings logged when it was measured. -/
structure Figure (α : Type) where
  script : Script α
  layout : Layout α
  logged : Array Warning

namespace Request

variable {α : Type} [Scalar α]

def expansion (request : Request α) : Cancellable Checkpoint (Except Error (Script α)) :=
  match request.grammar.table request.angle with
  | .error e => .done (.error e)
  | .ok table => Expansion.start table request.angle request.seed request.iterations

def place (viewport : Viewport α) (script : Script α) : Figure α :=
  let (layout, logged) := Layout.fit script viewport
  { script, layout, logged }

def figure (request : Request α) (viewport : Viewport α) : Except Error (Figure α) :=
  request.expansion.result.map (place viewport)

end Request

end LSystem
