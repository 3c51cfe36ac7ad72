import LSystem.Text.Digit

/-!
# Decimal integers of a fixed width

Reads an optional sign and one or more ASCII digits into an integer that fits
a given width. Of several faults the leftmost decides, and a character that is
no digit counts before an overflow at the same place.
-/

namespace LSystem.Text

inductive IntegerError
  | empty
  | invalidDigit
  | tooLarge
  | tooSmall
  deriving Repr, DecidableEq

def IntegerError.message : IntegerError → String
  | .empty => "cannot parse integer from empty string"
  | .invalidDigit => "invalid digit found in string"
  | .tooLarge => "number too large to fit in target type"
  | .tooSmall => "number too small to fit in target type"

/-- A range of integers: up to `largest`, and down to minus `deepest`, or to zero without a minus
sign when there is none. -/
structure IntegerWidth where
  largest : Nat
  deepest : Option Nat

namespace IntegerWidth

def signed32 : IntegerWidth := ⟨UInt32.size / 2 - 1, some (UInt32.size / 2)⟩

def signed64 : IntegerWidth := ⟨UInt64.size / 2 - 1, some (UInt64.size / 2)⟩

def unsigned32 : IntegerWidth := ⟨UInt32.size - 1, none⟩

def unsigned64 : IntegerWidth := ⟨UInt64.size - 1, none⟩

end IntegerWidth

def readDigits (limit : Nat) (overflow : IntegerError) : Nat → List Char → Except IntegerError Nat
  | value, [] => .ok value
  | value, c :: rest =>
    match Digit.ofChar? c with
    | none => .error .invalidDigit
    | some d =>
      if limit < value * 10 + d.val then .error overflow
      else readDigits limit overflow (value * 10 + d.val) rest

def readMagnitude (limit : Nat) (overflow : IntegerError) :
    List Char → Except IntegerError Nat
  | [] => .error .invalidDigit
  | cs => readDigits limit overflow 0 cs

/-- Reads a decimal integer of the given width; a plus sign is always allowed. -/
def readInteger (width : IntegerWidth) : List Char → Except IntegerError Int
  | [] => .error .empty
  | '+' :: cs => (readMagnitude width.largest .tooLarge cs).map Int.ofNat
  | '-' :: cs =>
    match width.deepest with
    | none => .error .invalidDigit
    | some deepest => (readMagnitude deepest .tooSmall cs).map fun n => -(n : Int)
  | cs => (readMagnitude width.largest .tooLarge cs).map Int.ofNat

def parseInteger (width : IntegerWidth) (text : String) : Except IntegerError Int :=
  readInteger width text.toList

end LSystem.Text
