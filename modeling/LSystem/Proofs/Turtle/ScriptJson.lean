import LSystem.Proofs.Json.Reader
import LSystem.Proofs.Json.Value
import LSystem.Turtle.ScriptJson

/-!
# Scripts read back

A script is what its written form is parsed as, command for command and however
long it is, where each of its numbers is finite and is read back. A number that
is not finite would be written as null, which no move and no turn is read from.
-/

namespace LSystem

variable {α : Type}

/-- The distance of a move or the angle of a turn. -/
def Command.number? : Command α → Option α
  | .move d => some d
  | .turn a => some a
  | .enter => none
  | .leave => none

def Script.numbers (script : Script α) : List α := script.toList.filterMap Command.number?

theorem Script.mem_numbers {script : Script α} {x : α} :
    x ∈ script.numbers ↔ ∃ command ∈ script.toList, command.number? = some x := List.mem_filterMap

variable [NumberText α]

namespace Command

theorem ofJson?_toJson {command : Command α}
    (h : ∀ x ∈ command.number?, (Json.ofScalar x).toScalar? = some x) :
    ofJson? command.toJson = some command := by
  cases command with
  | move d =>
    show (Json.ofScalar d).toScalar?.map move = _
    rw [h d rfl, Option.map_some]
  | turn a =>
    show (Json.ofScalar a).toScalar?.map turn = _
    rw [h a rfl, Option.map_some]
  | enter => rfl
  | leave => rfl

theorem writable_toJson (command : Command α) : command.toJson.Writable := by
  cases command with
  | move d => exact Json.writable_ofMembers (List.forall_mem_singleton.2 (Json.writable_ofScalar d))
  | turn a => exact Json.writable_ofMembers (List.forall_mem_singleton.2 (Json.writable_ofScalar a))
  | enter => exact Json.writable_ofString _
  | leave => exact Json.writable_ofString _

end Command

namespace Script

theorem ofJson?_toJson {script : Script α}
    (h : ∀ x ∈ script.numbers, (Json.ofScalar x).toScalar? = some x) :
    ofJson? script.toJson = some script := by
  have hcommands : ∀ command ∈ script.toList, Command.ofJson? command.toJson = some command :=
    fun command hcommand => Command.ofJson?_toJson fun x hx =>
      h x (mem_numbers.2 ⟨command, hcommand, hx⟩)
  rw [toJson, ofJson?, mapM_map_eq_some hcommands, Option.map_some, Array.toArray_toList]

theorem writable_toJson (script : Script α) : script.toJson.Writable :=
  Json.writable_array (List.forall_mem_map.2 fun command _ => command.writable_toJson)

theorem parse_of_json {script : Script α} (hvalue : ofJson? script.toJson = some script)
    {text : String} (htext : Json.parse? text = some script.toJson) : parse text = .ok script := by
  rw [parse, htext, Option.bind_some, hvalue]

theorem parse_toJson {script : Script Float} (hfinite : ∀ x ∈ script.numbers, x.isFinite = true)
    (hreads : ∀ x ∈ script.numbers, ReadsBack x) :
    parse script.toJson.compact = .ok script ∧ parse script.toJson.pretty = .ok script := by
  have hvalue : ofJson? script.toJson = some script := ofJson?_toJson fun x hx =>
    Json.toScalar?_ofScalar (hfinite x hx) (hreads x hx)
  have hwritable := script.writable_toJson
  exact ⟨parse_of_json hvalue (Json.parse?_compact hwritable),
    parse_of_json hvalue (Json.parse?_pretty hwritable)⟩

end Script

end LSystem
