import LSystem.Config.Basic
import LSystem.Config.Field
import LSystem.Json.Printer
import LSystem.Json.Reader

/-!
# Configurations as JSON

An object with a member for each field. In reading, fields that are absent keep
their usual values, unknown members are passed over, and a field may be given
only once. An array holds the fields in order and may end early.
-/

namespace LSystem

def uniqueMember? (key : String) (members : List (String × Json)) : Option Json :=
  match members.filter fun member => member.1 == key with
  | [(_, value)] => some value
  | _ => none

namespace Color

def byteJson (b : UInt8) : Json := .ofInt b.toNat

def byteOfJson? (value : Json) : Option UInt8 :=
  (value.toIntIn? 0 255).map fun n => UInt8.ofNat n.toNat

def toJson (color : Color) : Json :=
  .ofMembers
    [("r", byteJson color.red), ("g", byteJson color.green), ("b", byteJson color.blue),
      ("a", byteJson color.alpha)]

def ofValues? (r g b a : Json) : Option Color := do
  let red ← byteOfJson? r
  let green ← byteOfJson? g
  let blue ← byteOfJson? b
  let alpha ← byteOfJson? a
  return { red, green, blue, alpha }

/-- The color that a JSON value stands for: an object with each of the four members once, or an
array of four. -/
def ofJson? : Json → Option Color
  | .array [r, g, b, a] => ofValues? r g b a
  | .object members => do
    let members ← Json.keyed? members
    ofValues? (← uniqueMember? "r" members) (← uniqueMember? "g" members)
      (← uniqueMember? "b" members) (← uniqueMember? "a" members)
  | _ => none

end Color

namespace Placement

def name : Placement → String
  | reference => "reference"
  | centered => "centered"

def ofName? (name : String) : Option Placement :=
  if name = "reference" then some reference
  else if name = "centered" then some centered
  else none

/-- The placement that a JSON value stands for: its name, or an object in which the name holds
null. -/
def ofJson? : Json → Option Placement
  | .string (some name) => ofName? name
  | .object [(some name, .null)] => ofName? name
  | _ => none

end Placement

namespace Config

variable {α : Type} [NumberText α]

def value (config : Config α) : Field → Json
  | .grammar => .ofString config.grammar
  | .iterations => .ofOption (fun n => .ofInt n.toInt) config.iterations
  | .angle => .ofOption .ofScalar config.angle
  | .seed => .ofOption .ofString config.seed
  | .headColor => config.style.head.color.toJson
  | .tailColor => config.style.tail.color.toJson
  | .background => config.style.background.toJson
  | .headWidth => .ofScalar config.style.head.width
  | .tailWidth => .ofScalar config.style.tail.width
  | .interval => .ofInt config.interval.toNat
  | .placement => .ofString config.placement.name

def toJson (config : Config α) : Json :=
  .ofMembers (Field.all.map fun field => (field.key, config.value field))

def iterationsOfJson? (value : Json) : Option Int64 :=
  (value.toIntIn? Int64.minValue.toInt Int64.maxValue.toInt).map Int64.ofInt

def intervalOfJson? (value : Json) : Option UInt64 :=
  (value.toIntIn? 0 (Int.ofNat UInt64.size - 1)).map fun n => UInt64.ofNat n.toNat

def restyle (config : Config α) (change : Style α → Style α) : Config α :=
  { config with style := change config.style }

def set? (config : Config α) (field : Field) (value : Json) : Option (Config α) :=
  match field with
  | .grammar => value.toString?.map fun grammar => { config with grammar }
  | .iterations =>
    (value.toOption? iterationsOfJson?).map fun iterations => { config with iterations }
  | .angle => (value.toOption? Json.toScalar?).map fun angle => { config with angle }
  | .seed => (value.toOption? Json.toString?).map fun seed => { config with seed }
  | .headColor =>
    (Color.ofJson? value).map fun color =>
      config.restyle fun style => { style with head := { style.head with color } }
  | .tailColor =>
    (Color.ofJson? value).map fun color =>
      config.restyle fun style => { style with tail := { style.tail with color } }
  | .background =>
    (Color.ofJson? value).map fun background =>
      config.restyle fun style => { style with background }
  | .headWidth =>
    value.toScalar?.map fun width =>
      config.restyle fun style => { style with head := { style.head with width } }
  | .tailWidth =>
    value.toScalar?.map fun width =>
      config.restyle fun style => { style with tail := { style.tail with width } }
  | .interval => (intervalOfJson? value).map fun interval => { config with interval }
  | .placement => (Placement.ofJson? value).map fun placement => { config with placement }

/-- The configuration with the fields of several members replaced, one after the other; a key that
belongs to no field changes nothing. -/
def setAll? (config : Config α) : List (String × Json) → Option (Config α)
  | [] => some config
  | (key, value) :: rest =>
    match Field.ofKey? key with
    | none => config.setAll? rest
    | some field => (config.set? field value).bind fun config => config.setAll? rest

def fieldsOnce (members : List (String × Json)) : Bool :=
  Field.all.all fun field => (members.filter fun member => member.1 == field.key).length ≤ 1

variable [Scalar α]

def ofJson? : Json → Option (Config α)
  | .object members => do
    let members ← Json.keyed? members
    if fieldsOnce members then setAll? default members else none
  | .array items =>
    if items.length ≤ Field.all.length then setAll? default ((Field.all.map Field.key).zip items)
    else none
  | _ => none

def parse (text : String) : Except Error (Config α) := do
  match (Json.parse? text).bind ofJson? with
  | none => throw .malformedJson
  | some config =>
    config.check
    return config

end Config

end LSystem
