import LSystem.Text.Blank
import LSystem.Text.Fields
import LSystem.Text.Integer

/-!
# Sizes

The size of a picture as an argument: width and height with an `x` between
them, each a number of 32 bits that is not zero, with blanks around it at will.
-/

namespace LSystem.CommandLine

inductive SizeError
  | separator (text : String)
  | width (cause : Text.IntegerError)
  | height (cause : Text.IntegerError)
  | empty
  deriving Repr, DecidableEq

def SizeError.message : SizeError → String
  | separator text => s!"expected WIDTHxHEIGHT, got '{text}'"
  | width cause => "width: " ++ cause.message
  | height cause => "height: " ++ cause.message
  | empty => "size must be non-zero"

def readSide (text : List Char) : Except Text.IntegerError Nat :=
  (Text.readInteger .unsigned32 (Text.trim text)).map Int.toNat

/-- Reads a size; the first `x` of either case parts width and height. -/
def readSize (text : String) : Except SizeError (Nat × Nat) :=
  match Text.cutAt (fun c => c = 'x' || c = 'X') text.toList with
  | none => .error (.separator text)
  | some (before, after) => do
    let width ← (readSide before).mapError .width
    let height ← (readSide after).mapError .height
    if width = 0 ∨ height = 0 then throw .empty
    return (width, height)

end LSystem.CommandLine
