import LSystem.Error
import LSystem.Json.Printer
import LSystem.Json.Reader
import LSystem.Turtle.Script

/-!
# Scripts as JSON

A script is an array of commands: a move or a turn is an object that names it
and holds its number, the ends of a branch are the strings that name them.
Branch ends may also be read from objects that hold null.
-/

namespace LSystem

variable {α : Type} [NumberText α]

def Command.toJson : Command α → Json
  | .move d => .ofMembers [("Move", .ofScalar d)]
  | .turn a => .ofMembers [("Turn", .ofScalar a)]
  | .enter => .ofString "BranchStart"
  | .leave => .ofString "BranchEnd"

def Command.ofJson? : Json → Option (Command α)
  | .string (some "BranchStart") => some .enter
  | .string (some "BranchEnd") => some .leave
  | .object [(some "BranchStart", .null)] => some .enter
  | .object [(some "BranchEnd", .null)] => some .leave
  | .object [(some "Move", d)] => d.toScalar?.map .move
  | .object [(some "Turn", a)] => a.toScalar?.map .turn
  | _ => none

namespace Script

def toJson (script : Script α) : Json := .array (script.toList.map Command.toJson)

def ofJson? : Json → Option (Script α)
  | .array items => (items.mapM Command.ofJson?).map List.toArray
  | _ => none

def parse (text : String) : Except Error (Script α) :=
  match (Json.parse? text).bind ofJson? with
  | some script => .ok script
  | none => .error .malformedJson

end Script

end LSystem
