import LSystem.Json.Token

/-!
# Writing JSON

The tokens of a value, written one after the other, either without blanks or
with every item and member on a line of its own, indented by its depth.
-/

namespace LSystem.Json

mutual

def tokens : Json → List Token
  | .null => [.null]
  | .bool b => [.bool b]
  | .number n => [.number n]
  | .string text => [.string text]
  | .array items => .beginArray :: itemTokens items ++ [.endArray]
  | .object members => .beginObject :: memberTokens members ++ [.endObject]

def itemTokens : List Json → List Token
  | [] => []
  | [item] => item.tokens
  | item :: rest => item.tokens ++ .comma :: itemTokens rest

def memberTokens : List (Option String × Json) → List Token
  | [] => []
  | [(key, value)] => .string key :: .colon :: value.tokens
  | (key, value) :: rest =>
    .string key :: .colon :: value.tokens ++ .comma :: memberTokens rest

end

def join (text : String) : List Token → String
  | [] => text
  | token :: rest => join (text ++ String.ofList token.text) rest

def compact (value : Json) : String := join "" value.tokens

/-! ### With line breaks -/

def Token.opens (token : Token) : Bool := token = beginArray || token = beginObject

def Token.closes (token : Token) : Bool := token = endArray || token = endObject

def newLine (depth : Nat) : List Char := '\n' :: List.replicate (2 * depth) ' '

/-- The blanks between two tokens, where `depth` arrays and objects are open behind the first. -/
def gap (depth : Nat) (before after : Token) : List Char :=
  if before.opens then if after.closes then [] else newLine depth
  else if after.closes then newLine (depth - 1)
  else if before = .comma then newLine depth
  else if before = .colon then [' ']
  else []

def spread (text : String) (depth : Nat) (before : Token) : List Token → String
  | [] => text
  | token :: rest =>
    let depth := if before.opens then depth + 1 else if before.closes then depth - 1 else depth
    spread (text ++ String.ofList (gap depth before token) ++ String.ofList token.text) depth
      token rest

def pretty (value : Json) : String :=
  match value.tokens with
  | [] => ""
  | first :: rest => spread (String.ofList first.text) 0 first rest

end LSystem.Json
