import LSystem.Cancellable
import LSystem.Grammar.RuleTable

/-!
# Expansion

Expands a seed into a script. A pass replaces every rule name of a word at once,
and the passes run from the greatest depth down to zero; at depth zero every
rule contracts to its move, so that no name is left. Before each pass, and
whenever a pass has written some thousands of letters, the work may be given up.
-/

namespace LSystem

inductive Checkpoint
  | pass (depth : Nat)
  /-- Within the pass of a depth, after so many letters of the old and of the new word. -/
  | within (depth consumed written : Nat)
  | expanded
  deriving Repr, DecidableEq

namespace Expansion

variable {α : Type} [Scalar α]

def interval : Nat := 4096

def substitute (table : RuleTable α) (depth : Nat) : Letter α → Except Error (List (Letter α))
  | .rule name =>
    match table.get? name with
    | none => .error (.undefinedRule name)
    | some rule => .ok (rule.replacement depth)
  | letter => .ok [letter]

/-- The pass of a depth over the rest of a word, after `consumed` letters were replaced by those
`written`; `budget` letters may be written up to the next checkpoint. -/
def pass (table : RuleTable α) (depth : Nat) :
    List (Letter α) → Nat → Nat → Array (Letter α) →
      Cancellable Checkpoint (Except Error (List (Letter α)))
  | [], _, _, written => .done (.ok written.toList)
  | letter :: rest, consumed, budget, written =>
    match substitute table depth letter with
    | .error e => .done (.error e)
    | .ok body =>
      let written := written ++ body
      if budget ≤ body.length then
        .check (.within depth (consumed + 1) written.size) fun _ =>
          pass table depth rest (consumed + 1) interval written
      else pass table depth rest (consumed + 1) (budget - body.length) written

def passes (table : RuleTable α) :
    Nat → List (Letter α) → Cancellable Checkpoint (Except Error (List (Letter α)))
  | 0, word => .check (.pass 0) fun _ => pass table 0 word 0 interval #[]
  | depth + 1, word =>
    .check (.pass (depth + 1)) fun _ =>
      (pass table (depth + 1) word 0 interval #[]).bind fun
        | .error e => .done (.error e)
        | .ok next => passes table depth next

def finish (word : List (Letter α)) : Except Error (Script α) :=
  match word.mapM Letter.toCommand? with
  | none => .error .ruleNameLeft
  | some commands => .ok commands.toArray

def start (table : RuleTable α) (angle : α) (seed : String) (iterations : Nat) :
    Cancellable Checkpoint (Except Error (Script α)) :=
  (passes table (max iterations 1) (Letter.ofText angle seed.toList)).map (·.bind finish)

def expand (table : RuleTable α) (angle : α) (seed : String) (iterations : Nat) :
    Except Error (Script α) :=
  (start table angle seed iterations).result

end Expansion

/-- A requested number of iterations as one that can be run: at least one, in 32 bits. -/
def usableIterations (requested : Int64) : Nat := min (max requested.toInt 1).toNat (UInt32.size - 1)

end LSystem
