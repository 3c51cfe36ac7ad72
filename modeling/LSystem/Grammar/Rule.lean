import LSystem.Error
import LSystem.Grammar.Letter
import LSystem.Text.Fields

/-!
# Production rules

A rule is written `<name>:<body>:<distance>`: one character that is not
reserved, the letters it is replaced by, and the distance of the move it
contracts to when no depth is left. A rule without a body always contracts.
-/

namespace LSystem

structure Rule (α : Type) where
  name : Char
  body : List (Letter α)
  distance : Int

namespace Rule

variable {α : Type} [Scalar α]

/-- Whether the rule contracts to its move at every depth. -/
def isTerminal (rule : Rule α) : Bool := rule.body.isEmpty

def contraction (rule : Rule α) : Letter α := .move (Scalar.ofInt rule.distance)

/-- What replaces the rule's name when `depth` further passes follow. -/
def replacement (rule : Rule α) (depth : Nat) : List (Letter α) :=
  if depth = 0 || rule.isTerminal then [rule.contraction] else rule.body

def parseName : List Char → Except Error Char
  | [c] => if isReserved c then .error (.ruleNameReserved c) else .ok c
  | cs => .error (.ruleName (String.ofList cs))

def parseDistance (name : Char) (text : List Char) : Except Error Int :=
  (Text.readInteger .signed32 text).mapError (.ruleDistance name (String.ofList text))

def parse (angle : α) (encoding : String) : Except Error (Rule α) :=
  match Text.fields ':' encoding.toList with
  | [nameText, bodyText, distanceText] => do
    let name ← parseName nameText
    let distance ← parseDistance name distanceText
    return { name, body := Letter.ofText angle bodyText, distance }
  | _ => .error (.ruleFields encoding)

theorem replacement_ne_nil (rule : Rule α) (depth : Nat) : rule.replacement depth ≠ [] := by
  unfold replacement isTerminal
  split
  · simp
  · rename_i h
    intro hbody
    simp [hbody] at h

end Rule

end LSystem
