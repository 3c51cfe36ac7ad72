import LSystem.Json.Token

/-!
# Reading JSON

Builds the value of a sequence of tokens. The reader is a pushdown automaton:
its stack holds the arrays and objects that are still open, so that the depth
of a text is limited by nothing.
-/

namespace LSystem.Json

inductive Frame
  | items (before : List Json)
  /-- An object, the members read, last first, and the key whose value is being read. -/
  | members (before : List (Option String × Json)) (key : Option String)

inductive Reader
  /-- A value is due; `fresh` if an array has just been opened. -/
  | value (fresh : Bool) (frames : List Frame)
  | key (fresh : Bool) (before : List (Option String × Json)) (frames : List Frame)
  | colon (key : Option String) (before : List (Option String × Json)) (frames : List Frame)
  | complete (value : Json) (frames : List Frame)

namespace Reader

def start : Reader := value false []

def step? : Reader → Token → Option Reader
  | value _ frames, .null => some (complete .null frames)
  | value _ frames, .bool b => some (complete (.bool b) frames)
  | value _ frames, .number n => some (complete (.number n) frames)
  | value _ frames, .string text => some (complete (.string text) frames)
  | value _ frames, .beginArray => some (value true (.items [] :: frames))
  | value _ frames, .beginObject => some (key true [] frames)
  | value true (.items [] :: frames), .endArray => some (complete (.array []) frames)
  | key true [] frames, .endObject => some (complete (.object []) frames)
  | key _ before frames, .string text => some (colon text before frames)
  | colon k before frames, .colon => some (value false (.members before k :: frames))
  | complete v (.items before :: frames), .comma =>
    some (value false (.items (v :: before) :: frames))
  | complete v (.items before :: frames), .endArray =>
    some (complete (.array (v :: before).reverse) frames)
  | complete v (.members before k :: frames), .comma => some (key false ((k, v) :: before) frames)
  | complete v (.members before k :: frames), .endObject =>
    some (complete (.object ((k, v) :: before).reverse) frames)
  | _, _ => none

/-- Takes tokens up to the first that may not stand where it does. -/
def run? : Reader → List Token → Option Reader
  | reader, [] => some reader
  | reader, token :: rest =>
    match reader.step? token with
    | none => none
    | some next => next.run? rest

def result? : Reader → Option Json
  | complete v [] => some v
  | _ => none

end Reader

def parse? (text : String) : Option Json := do
  let tokens ← tokens? text
  let reader ← Reader.start.run? tokens
  reader.result?

end LSystem.Json
