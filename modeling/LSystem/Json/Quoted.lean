/-!
# String literals

Strings in double quotes. A quote, a backslash and the control characters are
written as escapes, all else as itself. Read is any escape of the format; an
escape with four hexadecimal digits names a 16-bit unit, and two of them may
form a surrogate pair.
-/

namespace LSystem.Json

def hexDigit (n : Nat) : Char := Char.ofNat (if n < 10 then '0'.toNat + n else 'a'.toNat + n - 10)

def escape (c : Char) : List Char :=
  if c = '"' then ['\\', '"']
  else if c = '\\' then ['\\', '\\']
  else if c = '\x08' then ['\\', 'b']
  else if c = '\t' then ['\\', 't']
  else if c = '\n' then ['\\', 'n']
  else if c = '\x0c' then ['\\', 'f']
  else if c = '\r' then ['\\', 'r']
  else if c.toNat < 0x20 then
    ['\\', 'u', '0', '0', hexDigit (c.toNat / 16), hexDigit (c.toNat % 16)]
  else [c]

def quote (text : List Char) : List Char := '"' :: text.flatMap escape ++ ['"']

def hexValue? (c : Char) : Option Nat :=
  if '0' ≤ c ∧ c ≤ '9' then some (c.toNat - '0'.toNat)
  else if 'a' ≤ c ∧ c ≤ 'f' then some (c.toNat - 'a'.toNat + 10)
  else if 'A' ≤ c ∧ c ≤ 'F' then some (c.toNat - 'A'.toNat + 10)
  else none

def unit? (a b c d : Char) : Option Nat := do
  return ((← hexValue? a) * 16 + (← hexValue? b)) * 256 + ((← hexValue? c) * 16 + (← hexValue? d))

def letterEscape? (c : Char) : Option Char :=
  if c = '"' then some '"'
  else if c = '\\' then some '\\'
  else if c = '/' then some '/'
  else if c = 'b' then some '\x08'
  else if c = 'f' then some '\x0c'
  else if c = 'n' then some '\n'
  else if c = 'r' then some '\r'
  else if c = 't' then some '\t'
  else none

def isLeading (u : Nat) : Bool := 0xd800 ≤ u && u < 0xdc00

def isTrailing (u : Nat) : Bool := 0xdc00 ≤ u && u < 0xe000

def pairChar (leading trailing : Nat) : Char :=
  Char.ofNat (0x10000 + (leading - 0xd800) * 0x400 + (trailing - 0xdc00))

/-- The text read so far, last character first, none after a surrogate without its other half;
and a first half that waits for the second. -/
structure Content where
  text : Option (List Char) := some []
  leading : Option Nat := none

namespace Content

def push (content : Content) (c : Char) : Content :=
  match content.leading with
  | some _ => ⟨none, none⟩
  | none => ⟨content.text.map (c :: ·), none⟩

def pushUnit (content : Content) (u : Nat) : Content :=
  match content.leading with
  | some leading =>
    if isTrailing u then ⟨content.text.map (pairChar leading u :: ·), none⟩ else ⟨none, none⟩
  | none =>
    if isLeading u then ⟨content.text, some u⟩
    else if isTrailing u then ⟨none, none⟩
    else ⟨content.text.map (Char.ofNat u :: ·), none⟩

def close (content : Content) : Option String :=
  match content.leading with
  | some _ => none
  | none => content.text.map fun cs => String.ofList cs.reverse

end Content

/-- Reads behind an opening quote up to the closing one; the text and what follows it. -/
def unquote? (content : Content) : List Char → Option (Option String × List Char)
  | '"' :: rest => some (content.close, rest)
  | '\\' :: 'u' :: a :: b :: c :: d :: rest =>
    match unit? a b c d with
    | some u => unquote? (content.pushUnit u) rest
    | none => none
  | '\\' :: c :: rest =>
    match letterEscape? c with
    | some escaped => unquote? (content.push escaped) rest
    | none => none
  | c :: rest => if c.toNat < 0x20 || c = '\\' then none else unquote? (content.push c) rest
  | [] => none

theorem length_of_unquote? {content : Content} {cs rest : List Char} {text : Option String}
    (h : unquote? content cs = some (text, rest)) : rest.length < cs.length := by
  fun_induction unquote? content cs with
  | case1 content rest' =>
    simp only [Option.some.injEq, Prod.mk.injEq] at h
    simp [h.2]
  | case2 content a b c d rest' u hu ih =>
    have := ih h
    simp only [List.length_cons]
    omega
  | case3 => simp at h
  | case4 content c rest' hnot escaped hc ih =>
    have := ih h
    simp only [List.length_cons]
    omega
  | case5 => simp at h
  | case6 => simp at h
  | case7 content c rest' _ _ _ hc ih =>
    have := ih h
    simp only [List.length_cons]
    omega
  | case8 => simp at h

end LSystem.Json
