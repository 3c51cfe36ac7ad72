import LSystem.CommandLine.Options

/-!
# Invocations

What the program is asked to do, read from its arguments. Once all arguments
are taken, options that exclude each other are reported before options that
are missing.
-/

namespace LSystem.CommandLine

inductive ConfigSource
  | config (path : String)
  | grammar (name : String)
  deriving Repr, DecidableEq

structure FrameOptions where
  source : ConfigSource
  ticks : Nat
  width : Nat
  height : Nat
  paced : Bool
  out : String

inductive Invocation
  | list
  | expand (grammar : String) (iterations : Option Int64) (json : Bool)
  | frame (options : FrameOptions)

namespace Invocation

def expandSpecs : List OptionSpec :=
  [⟨"grammar", .text⟩, ⟨"iterations", .integer .signed64⟩, ⟨"json", .nothing⟩]

def frameSpecs : List OptionSpec :=
  [⟨"config", .path⟩, ⟨"grammar", .text⟩, ⟨"ticks", .integer .unsigned64⟩, ⟨"size", .size⟩,
    ⟨"paced", .nothing⟩, ⟨"out", .path⟩]

def text? (ms : Matches) (name : String) : Option String :=
  match ms.get? name with
  | some (.text value) => some value
  | _ => none

def integer? (ms : Matches) (name : String) : Option Int :=
  match ms.get? name with
  | some (.integer value) => some value
  | _ => none

def size? (ms : Matches) (name : String) : Option (Nat × Nat) :=
  match ms.get? name with
  | some (.size width height) => some (width, height)
  | _ => none

def ofExpandMatches (ms : Matches) : Except UsageError Invocation :=
  match text? ms "grammar" with
  | some grammar =>
    .ok (.expand grammar ((integer? ms "iterations").map Int64.ofInt) (ms.get? "json").isSome)
  | none => .error (.missing ["--grammar <GRAMMAR>"])

def inOrder (ms : Matches) (a b : String) : String × String :=
  match ms.found.find? fun (name, _) => name == a || name == b with
  | some (name, _) => if name == a then (a, b) else (b, a)
  | none => (a, b)

/-- The command that draws, which takes exactly one source. -/
def ofFrameMatches (ms : Matches) : Except UsageError Invocation :=
  let sourceText := "<--config <CONFIG>|--grammar <GRAMMAR>>"
  let outText := "--out <OUT>"
  let finish (source : ConfigSource) : Except UsageError Invocation :=
    match text? ms "out" with
    | none => .error (.missing [outText])
    | some out =>
      let (width, height) := (size? ms "size").getD (600, 700)
      .ok <| .frame
        { source
          ticks := ((integer? ms "ticks").getD 50).toNat
          width
          height
          paced := (ms.get? "paced").isSome
          out }
  match text? ms "config", text? ms "grammar" with
  | some _, some _ =>
    let (first, second) := inOrder ms "config" "grammar"
    let shown (name : String) : String := OptionSpec.show ⟨name, .text⟩
    .error (.conflict (shown first) (shown second))
  | some path, none => finish (.config path)
  | none, some name => finish (.grammar name)
  | none, none =>
    .error (.missing (if (text? ms "out").isSome then [sourceText] else [outText, sourceText]))

def isCommand (name : String) : Bool :=
  name == "list" || name == "expand" || name == "frame" || name == "help"

def parseTopics : List String → Stop
  | [] => .help
  | [topic] => if isCommand topic then .help else .error (.unknownCommand topic)
  | topic :: next :: _ => .error (.unknownCommand (if isCommand topic then next else topic))

def parseCommand (name : String) (arguments : List String) : Except Stop Invocation :=
  match name with
  | "list" => do
    let _ ← takeOptions [] {} arguments
    return .list
  | "expand" => do
    let ms ← takeOptions expandSpecs {} arguments
    orStop (ofExpandMatches ms)
  | "frame" => do
    let ms ← takeOptions frameSpecs {} arguments
    orStop (ofFrameMatches ms)
  | "help" => .error (parseTopics arguments)
  | _ => .error (.error (.unknownCommand name))

/-- Reads the arguments of the program. A command behind two hyphens is not expected there. -/
def parse : List String → Except Stop Invocation
  | [] => .error .usage
  | first :: rest =>
    match first.toList with
    | ['-', '-'] =>
      match rest with
      | [] => .error .usage
      | name :: _ =>
        .error (.error (if isCommand name then .unexpected name else .unknownCommand name))
    | '-' :: '-' :: long =>
      match cutAssignment long with
      | ("version", none) => .error .version
      | ("help", none) => .error .help
      | ("version", some value) => .error (.error (.valueExcessive value "--version"))
      | ("help", some value) => .error (.error (.valueExcessive value "--help"))
      | (name, _) => .error (.error (.unexpected ("--" ++ name)))
    | '-' :: short :: _ =>
      if short = 'V' then .error .version
      else if short = 'h' then .error .help
      else .error (.error (.unexpected (String.ofList ['-', short])))
    | _ => parseCommand first rest

end Invocation

end LSystem.CommandLine
