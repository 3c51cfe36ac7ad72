/-!
# Fields of a configuration

The choices of a user by the keys they have in a text, in order.
-/

namespace LSystem.Config

inductive Field
  | grammar
  | iterations
  | angle
  | seed
  | headColor
  | tailColor
  | background
  | headWidth
  | tailWidth
  | interval
  | placement
  deriving Repr, DecidableEq

namespace Field

def key : Field → String
  | grammar => "grammar"
  | iterations => "iterations"
  | angle => "turn_angle_deg"
  | seed => "seed"
  | headColor => "head_color"
  | tailColor => "tail_color"
  | background => "background_color"
  | headWidth => "head_width"
  | tailWidth => "tail_width"
  | interval => "refresh_interval_ms"
  | placement => "placement"

def all : List Field :=
  [grammar, iterations, angle, seed, headColor, tailColor, background, headWidth, tailWidth,
    interval, placement]

def ofKey? (key : String) : Option Field := all.find? fun field => field.key == key

theorem ofKey?_key (field : Field) : ofKey? field.key = some field := by
  cases field <;> decide

end Field

end LSystem.Config
