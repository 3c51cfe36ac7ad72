import LSystem.Animation.Player
import LSystem.CommandLine.Host
import LSystem.CommandLine.Invocation
import LSystem.Config.Json
import LSystem.Turtle.ScriptJson

/-!
# Running commands

The answers to the invocations of the program: the texts it writes and the
status it ends with, zero for success, one for a failure and two for arguments
that cannot be understood.
-/

namespace LSystem.CommandLine

structure Report where
  status : Nat
  out : String := ""
  err : String := ""

structure Failure where
  headline : String
  cause : Option String := none

def indent (text : String) : String :=
  "    " ++ String.ofList (text.toList.flatMap fun c => if c = '\n' then "\n    ".toList else [c])

def Failure.text (failure : Failure) : String :=
  "Error: " ++ failure.headline ++
    match failure.cause with
    | none => "\n"
    | some cause => "\n\nCaused by:\n" ++ indent cause ++ "\n"

def attempt {β : Type} (headline : String) (result : Except Error β) : Except Failure β :=
  result.mapError fun e => { headline, cause := some e.message }

/-! ### Commands -/

def padRight (width : Nat) (text : String) : String :=
  text ++ String.ofList (List.replicate (width - text.length) ' ')

def listLine (grammar : Grammar Float) : String :=
  padRight 12 grammar.name ++ " seed=" ++ padRight 8 grammar.seed ++ " iterations=" ++
    padRight 3 (toString grammar.iterations) ++ " angle=" ++
    Decimal.plainText grammar.angle ++ "\n"

def list : String := String.join ((Catalogue.builtins Float).map listLine)

def summary (request : Request Float) (figure : Figure Float) : String :=
  let box := figure.layout.box
  let number := Decimal.plainText
  "grammar:        " ++ request.grammar.name ++ "\n" ++
    "iterations:     " ++ toString request.iterations ++ "\n" ++
    "commands:       " ++ toString figure.script.size ++ "\n" ++
    "drawing moves:  " ++ toString figure.script.drawCount ++ "\n" ++
    "extents:        x [" ++ number box.xMin ++ ", " ++ number box.xMax ++ "]  y [" ++
    number box.yMin ++ ", " ++ number box.yMax ++ "]\n" ++
    "scale:          " ++ number figure.layout.scale ++ "\n"

def expand (grammar : String) (iterations : Option Int64) (json : Bool) :
    Except Failure String := do
  let config : Config Float := { Config.ofGrammar grammar with iterations }
  let request ← attempt s!"resolve grammar '{grammar}'" config.request
  let figure ← attempt s!"expand grammar '{grammar}'" (request.figure (config.viewport 600 700))
  return if json then figure.script.toJson.pretty ++ "\n" else summary request figure

variable {m : Type → Type} [Monad m] [Host m]

def onHost {β : Type} (headline : String) (action : m (Except FileError β)) :
    ExceptT Failure m β :=
  ExceptT.mk do
    let result ← action
    return result.mapError fun e => { headline, cause := some e.message }

def loadConfig (path : String) : ExceptT Failure m (Config Float) := do
  let text ← onHost s!"open config '{path}'" (Host.readText path)
  ExceptT.mk (pure (attempt s!"parse config '{path}'" (Config.parse text)))

/-- Makes ticks, and lets the time between them pass. -/
def playPaced (interval : Nat) :
    Nat → Player Float → Canvas → m (Outcome Canvas (Player Float) Phase)
  | 0, player, canvas => return ⟨canvas, player, .ok player.phase⟩
  | count + 1, player, canvas => do
    let ticked := player.tick canvas
    match ticked.result with
    | .error e => return ⟨ticked.surface, ticked.actor, .error e⟩
    | .ok _ =>
      Host.pause interval
      playPaced interval count ticked.actor ticked.surface

def lastFrame (config : Config Float) (options : FrameOptions) : ExceptT Failure m Canvas := do
  let plain {β : Type} (result : Except Error β) : ExceptT Failure m β :=
    ExceptT.mk (pure (result.mapError fun e => { headline := e.message }))
  let canvas ← plain (Canvas.new options.width options.height)
  let player := (Player.new config options.width options.height).await
  if let some e := player.error then
    throw { headline := "generation failed: " ++ e.message }
  let outcome ←
    if options.paced then
      (playPaced config.interval.toNat options.ticks player canvas :
        m (Outcome Canvas (Player Float) Phase))
    else pure (player.play options.ticks canvas)
  let _ ← plain outcome.result
  return outcome.surface

def frame (options : FrameOptions) : ExceptT Failure m Unit := do
  let config ←
    match options.source with
    | .config path => loadConfig path
    | .grammar name => pure (Config.ofGrammar name)
  let canvas ← lastFrame config options
  let parent := FilePath.parent options.out
  if !parent.isEmpty then
    onHost s!"create output dir '{parent}'" (Host.makeDirectories parent)
  onHost s!"write png '{options.out}'" (Host.savePicture options.out canvas)

/-! ### The program -/

def versionText : String := "lsys 0.1.0\n"

def helpText : String :=
  "Usage: lsys <COMMAND>\n\nCommands:\n  list    List the built-in grammars\n" ++
    "  expand  Expand a grammar and print a summary (or the command sequence as JSON)\n" ++
    "  frame   Run the animation for a number of ticks and write the last frame as a PNG\n"

def Report.ofResult : Except Failure String → Report
  | .ok out => { status := 0, out }
  | .error failure => { status := 1, err := failure.text }

def execute : Invocation → m Report
  | .list => return { status := 0, out := list }
  | .expand grammar iterations json => return .ofResult (expand grammar iterations json)
  | .frame options => do
    match ← (frame options : ExceptT Failure m Unit).run with
    | .ok () => return { status := 0, err := "wrote " ++ options.out ++ "\n" }
    | .error failure => return { status := 1, err := failure.text }

def Stop.report : Stop → Report
  | .help => { status := 0, out := helpText }
  | .usage => { status := 2, err := helpText }
  | .version => { status := 0, out := versionText }
  | .error e =>
    { status := 2, err := "error: " ++ e.message ++ "\n\nFor more information, try '--help'.\n" }

def run (arguments : List String) : m Report :=
  match Invocation.parse arguments with
  | .ok invocation => execute invocation
  | .error stop => return stop.report

end LSystem.CommandLine
