import LSystem.CommandLine.Size

/-!
# Options

Arguments that begin with two hyphens, some with a value, which follows behind
an equals sign or as the next argument. A value in an argument of its own cannot
begin with a hyphen. Faults are reported in the order of the arguments; a value
is looked at when the next option begins or the arguments end, but an argument
that is not expected is reported before it.
-/

namespace LSystem.CommandLine

inductive ValueKind
  | nothing
  | text
  | path
  | integer (width : Text.IntegerWidth)
  | size

inductive Value
  | nothing
  | text (value : String)
  | integer (value : Int)
  | size (width height : Nat)

structure OptionSpec where
  name : String
  kind : ValueKind

def OptionSpec.show (spec : OptionSpec) : String :=
  match spec.kind with
  | .nothing => "--" ++ spec.name
  | _ => "--" ++ spec.name ++ " <" ++ spec.name.map Char.toUpper ++ ">"

inductive UsageError
  | unexpected (argument : String)
  | unknownCommand (name : String)
  | valueMissing (option : String)
  | valueInvalid (value option reason : String)
  | valueExcessive (value option : String)
  | repeated (option : String)
  | conflict (option other : String)
  | missing (options : List String)
  deriving Repr, DecidableEq

def UsageError.message : UsageError → String
  | unexpected argument => s!"unexpected argument '{argument}' found"
  | unknownCommand name => s!"unrecognized subcommand '{name}'"
  | valueMissing option => s!"a value is required for '{option}' but none was supplied"
  | valueInvalid value option reason => s!"invalid value '{value}' for '{option}': {reason}"
  | valueExcessive value option =>
    s!"unexpected value '{value}' for '{option}' found; no more were expected"
  | repeated option => s!"the argument '{option}' cannot be used multiple times"
  | conflict option other => s!"the argument '{option}' cannot be used with '{other}'"
  | missing options =>
    "the following required arguments were not provided:" ++
      String.join (options.map ("\n  " ++ ·))

def OptionSpec.read (spec : OptionSpec) (value : String) : Except UsageError Value :=
  match spec.kind with
  | .nothing => .ok .nothing
  | .text => .ok (.text value)
  | .path => if value.isEmpty then .error (.valueMissing spec.show) else .ok (.text value)
  | .integer width =>
    match Text.parseInteger width value with
    | .ok n => .ok (.integer n)
    | .error e => .error (.valueInvalid value spec.show e.message)
  | .size =>
    match readSize value with
    | .ok (width, height) => .ok (.size width height)
    | .error e => .error (.valueInvalid value spec.show e.message)

/-- The options found so far, in order, and one whose value was not looked at yet. -/
structure Matches where
  found : List (String × Value) := []
  pending : Option (OptionSpec × Option String) := none

namespace Matches

def get? (ms : Matches) (name : String) : Option Value := ms.found.lookup name

def add (ms : Matches) (spec : OptionSpec) (value : String) : Except UsageError Matches :=
  if (ms.get? spec.name).isSome then .error (.repeated spec.show)
  else do
    let value ← spec.read value
    return { ms with found := ms.found ++ [(spec.name, value)] }

def settle (ms : Matches) : Except UsageError Matches :=
  match ms.pending with
  | none => .ok ms
  | some (spec, none) => .error (.valueMissing spec.show)
  | some (spec, some value) => { ms with pending := none }.add spec value

end Matches

inductive Stop
  | help
  | usage
  | version
  | error (e : UsageError)
  deriving Repr, DecidableEq

def orStop {β : Type} : Except UsageError β → Except Stop β := Except.mapError .error

def cutAssignment (argument : List Char) : String × Option String :=
  match Text.cutAt (· = '=') argument with
  | none => (String.ofList argument, none)
  | some (name, value) => (String.ofList name, some (String.ofList value))

def takeLong (specs : List OptionSpec) (ms : Matches) (argument : List Char) :
    Except Stop Matches :=
  let (name, value) := cutAssignment argument
  match specs.find? (·.name == name) with
  | none =>
    if name = "help" then
      match value with
      | none => (orStop ms.settle).bind fun _ => .error .help
      | some value => .error (.error (.valueExcessive value "--help"))
    else .error (.error (.unexpected ("--" ++ name)))
  | some spec =>
    match spec.kind, value with
    | .nothing, some value => .error (.error (.valueExcessive value spec.show))
    | .nothing, none => orStop do (← ms.settle).add spec ""
    | _, some value => orStop do (← ms.settle).add spec value
    | _, none => orStop do return { ← ms.settle with pending := some (spec, none) }

def takeOptions (specs : List OptionSpec) (ms : Matches) : List String → Except Stop Matches
  | [] => orStop ms.settle
  | argument :: rest =>
    match argument.toList with
    | ['-', '-'] =>
      match rest with
      | [] => orStop ms.settle
      | next :: _ => .error (.error (.unexpected next))
    | '-' :: '-' :: long => do takeOptions specs (← takeLong specs ms long) rest
    | '-' :: short :: _ =>
      if short = 'h' then (orStop ms.settle).bind fun _ => .error .help
      else .error (.error (.unexpected (String.ofList ['-', short])))
    | _ =>
      match ms.pending with
      | some (spec, none) =>
        takeOptions specs { ms with pending := some (spec, some argument) } rest
      | _ => .error (.error (.unexpected argument))

end LSystem.CommandLine
