import LSystem.Grammar.Expansion

/-!
# Grammars and their catalogue

A grammar as a user writes it, and the built-in grammars in the order of their
names.
-/

namespace LSystem

structure Grammar (α : Type) where
  name : String
  rules : List String
  seed : String
  iterations : Nat
  angle : α

namespace Grammar

variable {α : Type} [Scalar α]

def table (grammar : Grammar α) (angle : α) : Except Error (RuleTable α) :=
  RuleTable.parse angle grammar.rules

def undefinedInSeed? (table : RuleTable α) (seed : String) : Option Char :=
  seed.toList.find? fun c => !isReserved c && !table.contains c

/-- Checks that the rules can be read and that every name in a body or in the seed has a rule. -/
def check (grammar : Grammar α) : Except Error Unit := do
  let table ← grammar.table grammar.angle
  table.checkReferences
  match undefinedInSeed? table grammar.seed with
  | none => return ()
  | some name => throw (.seedReference grammar.name name)

end Grammar

namespace Catalogue

variable (α : Type) [Scalar α]

def builtins : List (Grammar α) :=
  [{ name := "dragon", rules := ["f::10", "x:x+yf+:0", "y:-fx-y:0"], seed := "fx"
     iterations := 10, angle := Scalar.ofInt 90 },
   { name := "hilbert", rules := ["f::20", "l:+rf-lfl-fr+:0", "r:-lf+rfr+fl-:0"], seed := "l"
     iterations := 5, angle := Scalar.ofInt 90 },
   { name := "koch", rules := ["f:f+f--f+f:10"], seed := "f--f--f"
     iterations := 4, angle := Scalar.ofInt 60 },
   { name := "plant", rules := ["x:f+[[x]-x]-f[-fx]+x:0", "f:ff:10"], seed := "x"
     iterations := 5, angle := Scalar.ofInt 25 },
   { name := "sierpinski", rules := ["a:b-a-b:10", "b:a+b+a:10"], seed := "a"
     iterations := 6, angle := Scalar.ofInt 60 },
   { name := "tree", rules := ["f:g[-f][+f][gf]:10", "g:gg:10"], seed := "f"
     iterations := 5, angle := Scalar.ofInt 45 }]

def names : List String := (builtins α).map (·.name)

variable {α}

def get? (name : String) : Option (Grammar α) :=
  (builtins α).find? fun grammar => grammar.name == name

def get (name : String) : Except Error (Grammar α) :=
  match get? name with
  | some grammar => .ok grammar
  | none => .error (.unknownGrammar name (names α))

end Catalogue

end LSystem
