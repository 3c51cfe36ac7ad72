import LSystem.Turtle.Script

/-!
# Letters

The letters of a word under expansion. A character of a seed or a rule body is
either reserved for turns and branches or the name of a rule. A letter that
names no rule is a command of the finished script.
-/

namespace LSystem

inductive Letter (α : Type)
  | move (distance : α)
  | turn (angle : α)
  | enter
  | leave
  | rule (name : Char)

/-- The characters that are no rule names: turns to either side and the ends of a branch. -/
def isReserved (c : Char) : Bool := c = '+' || c = '-' || c = '[' || c = ']'

theorem isReserved_cases {c : Char} (h : isReserved c = true) :
    c = '+' ∨ c = '-' ∨ c = '[' ∨ c = ']' := by
  simpa only [isReserved, Bool.or_eq_true, decide_eq_true_eq, or_assoc] using h

namespace Letter

variable {α : Type}

def ofChar [Scalar α] (angle : α) (c : Char) : Letter α :=
  if c = '+' then turn angle
  else if c = '-' then turn (-angle)
  else if c = '[' then enter
  else if c = ']' then leave
  else rule c

def ofText [Scalar α] (angle : α) (text : List Char) : List (Letter α) := text.map (ofChar angle)

def toCommand? : Letter α → Option (Command α)
  | move d => some (.move d)
  | turn a => some (.turn a)
  | enter => some .enter
  | leave => some .leave
  | rule _ => none

theorem ofChar_of_not_isReserved [Scalar α] (angle : α) {c : Char} (h : isReserved c = false) :
    ofChar angle c = rule c := by
  simp only [isReserved, Bool.or_eq_false_iff, decide_eq_false_iff_not] at h
  obtain ⟨⟨⟨hplus, hminus⟩, henter⟩, hleave⟩ := h
  rw [ofChar, if_neg hplus, if_neg hminus, if_neg henter, if_neg hleave]

end Letter

end LSystem
