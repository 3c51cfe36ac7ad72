import LSystem.Json.Quoted
import LSystem.Json.Value

/-!
# Tokens

The pieces of a JSON text: punctuation, words, numerals and strings. Blanks
between them mean nothing.
-/

namespace LSystem.Json

inductive Token
  | beginArray
  | endArray
  | beginObject
  | endObject
  | colon
  | comma
  | null
  | bool (value : Bool)
  | number (numeral : Numeral)
  | string (text : Option String)
  deriving Repr, DecidableEq

def isBlank (c : Char) : Bool := c = ' ' || c = '\t' || c = '\n' || c = '\r'

/-- The text of a token. A string without a text has none, and never arises in writing. -/
def Token.text : Token → List Char
  | beginArray => ['[']
  | endArray => [']']
  | beginObject => ['\x7b']
  | endObject => ['\x7d']
  | colon => [':']
  | comma => [',']
  | null => ['n', 'u', 'l', 'l']
  | bool true => ['t', 'r', 'u', 'e']
  | bool false => ['f', 'a', 'l', 's', 'e']
  | number numeral => numeral.text
  | string text => quote (text.getD "").toList

/-! ### Scanning -/

def spanDigits : List Char → List Digit × List Char
  | [] => ([], [])
  | c :: rest =>
    match Digit.ofChar? c with
    | some d => ((spanDigits rest).1.cons d, (spanDigits rest).2)
    | none => ([], c :: rest)

theorem length_spanDigits (cs : List Char) :
    (spanDigits cs).1.length + (spanDigits cs).2.length = cs.length := by
  induction cs with
  | nil => rfl
  | cons c rest ih =>
    unfold spanDigits
    split
    · simp only [List.length_cons]
      omega
    · simp

def scanFraction? : List Char → Option (List Digit × List Char)
  | '.' :: rest =>
    match spanDigits rest with
    | ([], _) => none
    | (d :: ds, after) => some (d :: ds, after)
  | cs => some ([], cs)

def scanPower? (negative : Bool) (cs : List Char) : Option (Option Int × List Char) :=
  match spanDigits cs with
  | ([], _) => none
  | (d :: ds, after) =>
    let magnitude : Int := Digit.toNat (d :: ds)
    some (some (if negative then -magnitude else magnitude), after)

def scanExponent? : List Char → Option (Option Int × List Char)
  | c :: rest =>
    if c = 'e' || c = 'E' then
      match rest with
      | '+' :: ds => scanPower? false ds
      | '-' :: ds => scanPower? true ds
      | ds => scanPower? false ds
    else some (none, c :: rest)
  | [] => some (none, [])

/-- Reads a numeral behind its sign; a zero in front of other digits is refused. -/
def scanNumeral? (negative : Bool) (cs : List Char) : Option (Numeral × List Char) :=
  match spanDigits cs with
  | ([], _) => none
  | (d :: ds, after) =>
    if d.val = 0 && !ds.isEmpty then none
    else do
      let (fraction, after) ← scanFraction? after
      let (exponent, after) ← scanExponent? after
      return ({ negative, whole := Digit.toNat (d :: ds), fraction, exponent }, after)

def scan? : List Char → Option (Token × List Char)
  | [] => none
  | '[' :: rest => some (.beginArray, rest)
  | ']' :: rest => some (.endArray, rest)
  | '\x7b' :: rest => some (.beginObject, rest)
  | '\x7d' :: rest => some (.endObject, rest)
  | ':' :: rest => some (.colon, rest)
  | ',' :: rest => some (.comma, rest)
  | 'n' :: 'u' :: 'l' :: 'l' :: rest => some (.null, rest)
  | 't' :: 'r' :: 'u' :: 'e' :: rest => some (.bool true, rest)
  | 'f' :: 'a' :: 'l' :: 's' :: 'e' :: rest => some (.bool false, rest)
  | '"' :: rest => (unquote? {} rest).map fun (text, after) => (.string text, after)
  | '-' :: rest => (scanNumeral? true rest).map fun (numeral, after) => (.number numeral, after)
  | cs => (scanNumeral? false cs).map fun (numeral, after) => (.number numeral, after)

theorem length_of_scanFraction? {cs rest : List Char} {ds : List Digit}
    (h : scanFraction? cs = some (ds, rest)) : rest.length ≤ cs.length := by
  unfold scanFraction? at h
  split at h
  · rename_i rest'
    have hlen := length_spanDigits rest'
    split at h
    · simp at h
    · rename_i d ds' after heq
      simp only [Option.some.injEq, Prod.mk.injEq] at h
      simp only [heq, List.length_cons] at hlen
      simp only [← h.2, List.length_cons]
      omega
  · simp only [Option.some.injEq, Prod.mk.injEq] at h
    simp [h.2]

theorem length_of_scanPower? {negative : Bool} {cs rest : List Char} {e : Option Int}
    (h : scanPower? negative cs = some (e, rest)) : rest.length ≤ cs.length := by
  unfold scanPower? at h
  have hlen := length_spanDigits cs
  split at h
  · simp at h
  · rename_i d ds after heq
    simp only [Option.some.injEq, Prod.mk.injEq] at h
    simp only [heq, List.length_cons] at hlen
    simp only [← h.2]
    omega

theorem length_of_scanExponent? {cs rest : List Char} {e : Option Int}
    (h : scanExponent? cs = some (e, rest)) : rest.length ≤ cs.length := by
  unfold scanExponent? at h
  split at h
  · split at h
    · split at h <;>
      · have := length_of_scanPower? h
        simp only [List.length_cons] at this ⊢
        omega
    · simp only [Option.some.injEq, Prod.mk.injEq] at h
      simp [← h.2]
  · simp only [Option.some.injEq, Prod.mk.injEq] at h
    simp [← h.2]

theorem length_of_scanNumeral? {negative : Bool} {cs rest : List Char} {n : Numeral}
    (h : scanNumeral? negative cs = some (n, rest)) : rest.length < cs.length := by
  unfold scanNumeral? at h
  have hlen := length_spanDigits cs
  split at h
  · simp at h
  · rename_i d ds after heq
    simp only [heq, List.length_cons] at hlen
    split at h
    · simp at h
    · simp only [Option.bind_eq_bind, Option.pure_def, Option.bind_eq_some_iff, Option.some.injEq,
        Prod.mk.injEq, Prod.exists] at h
      obtain ⟨fraction, after', hfraction, exponent, after'', hexponent, _, hrest⟩ := h
      have := length_of_scanFraction? hfraction
      have := length_of_scanExponent? hexponent
      subst hrest
      omega

theorem length_of_scan? {cs rest : List Char} {token : Token}
    (h : scan? cs = some (token, rest)) : rest.length < cs.length := by
  unfold scan? at h
  split at h
  case h_1 => simp at h
  case h_11 rest' =>
    simp only [Option.map_eq_some_iff, Prod.mk.injEq, Prod.exists] at h
    obtain ⟨_, _, hread, _, rfl⟩ := h
    have := length_of_unquote? hread
    simp only [List.length_cons]
    omega
  case h_12 rest' =>
    simp only [Option.map_eq_some_iff, Prod.mk.injEq, Prod.exists] at h
    obtain ⟨_, _, hread, _, rfl⟩ := h
    have := length_of_scanNumeral? hread
    simp only [List.length_cons]
    omega
  case h_13 =>
    simp only [Option.map_eq_some_iff, Prod.mk.injEq, Prod.exists] at h
    obtain ⟨_, _, hread, _, rfl⟩ := h
    exact length_of_scanNumeral? hread
  all_goals
    simp only [Option.some.injEq, Prod.mk.injEq] at h
    simp only [← h.2, List.length_cons]
    omega

def tokensOnto? (read : Array Token) (cs : List Char) : Option (List Token) :=
  match cs with
  | [] => some read.toList
  | c :: rest =>
    if isBlank c then tokensOnto? read rest
    else
      match _scanned : scan? (c :: rest) with
      | none => none
      | some (token, after) => tokensOnto? (read.push token) after
  termination_by cs.length
  decreasing_by
    · simp
    · exact length_of_scan? _scanned

def tokens? (text : String) : Option (List Token) := tokensOnto? #[] text.toList

end LSystem.Json
