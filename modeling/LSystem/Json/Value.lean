import LSystem.Json.Numeral

/-!
# JSON values

Values as a JSON text holds them: objects keep the order and the repetitions of
their members, numbers stay numerals, and a string has no text when it names
half of a surrogate pair without the other half.
-/

namespace LSystem

inductive Json
  | null
  | bool (value : Bool)
  | number (numeral : Numeral)
  /-- A string; without text when a surrogate stands alone in it. -/
  | string (text : Option String)
  | array (items : List Json)
  | object (members : List (Option String × Json))

namespace Json

def ofString (text : String) : Json := string (some text)

def ofInt (n : Int) : Json := number (.ofInt n)

def ofScalar {α : Type} [NumberText α] (x : α) : Json :=
  match NumberText.toNumeral? x with
  | some numeral => number numeral
  | none => null

def ofOption {β : Type} (f : β → Json) : Option β → Json
  | none => null
  | some b => f b

def ofMembers (members : List (String × Json)) : Json :=
  object (members.map fun (key, value) => (some key, value))

def toString? : Json → Option String
  | string text => text
  | _ => none

def toIntIn? (low high : Int) : Json → Option Int
  | number numeral => numeral.toIntIn? low high
  | _ => none

def toScalar? {α : Type} [NumberText α] : Json → Option α
  | number numeral => NumberText.ofNumeral? numeral
  | _ => none

def toOption? {β : Type} (f : Json → Option β) : Json → Option (Option β)
  | null => some none
  | value => (f value).map some

/-- The members of an object whose keys all have a text. -/
def keyed? (members : List (Option String × Json)) : Option (List (String × Json)) :=
  members.mapM fun (key, value) => key.map (·, value)

end Json

end LSystem
