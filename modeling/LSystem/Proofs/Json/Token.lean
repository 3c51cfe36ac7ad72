import LSystem.Json.Printer
import LSystem.Proofs.Json.Numeral
import LSystem.Proofs.Json.Quoted
import Mathlib.Data.List.Chain

/-!
# Tokens by their form

A text spells tokens if it has a text of each of them in order, with any blanks
between and around them. Such a text is cut into just these tokens, as long as
no two numerals stand side by side. What is written, with or without line
breaks, spells the tokens of its value.
-/

namespace LSystem.Json

namespace Token

def isNumber : Token → Bool
  | number _ => true
  | _ => false

/-- Whether a token can be written at all: a string without a text cannot. -/
def hasText : Token → Bool
  | string none => false
  | _ => true

/-- The tokens are two numerals. -/
def Clash (before after : Token) : Prop := before.isNumber = true ∧ after.isNumber = true

end Token

/-- The texts of a token: of a numeral and of a string all that the grammar allows, of a mark or a
word the one it has. -/
def SpellsToken : Token → List Char → Prop
  | .number numeral, cs => SpellsNumeral numeral cs
  | .string text, cs => ∃ pieces literal, SpellsPieces pieces literal ∧
    text = (Piece.chars? pieces).map String.ofList ∧ cs = '"' :: (literal ++ ['"'])
  | token, cs => cs = token.text

/-- The texts of tokens in order, with blanks in front of each and at the end. -/
inductive Spells : List Token → List Char → Prop
  | nil {blanks : List Char} (hblanks : ∀ c ∈ blanks, isBlank c = true) : Spells [] blanks
  | cons {blanks text cs : List Char} {token : Token} {rest : List Token}
    (hblanks : ∀ c ∈ blanks, isBlank c = true) (htoken : SpellsToken token text)
    (hrest : Spells rest cs) : Spells (token :: rest) (blanks ++ (text ++ cs))

/-! ### One token -/

theorem spellsToken_text {token : Token} (h : token.hasText = true) :
    SpellsToken token token.text := by
  cases token with
  | number numeral => exact spellsNumeral_text numeral
  | string text =>
    cases text with
    | none => cases h
    | some text =>
      obtain ⟨pieces, hpieces, hchars⟩ := exists_pieces_escapes text.toList
      refine ⟨pieces, _, hpieces, ?_, rfl⟩
      rw [hchars, Option.map_some, String.ofList_toList]
  | _ => rfl

theorem SpellsNumeral.exists_head {numeral : Numeral} {text : List Char}
    (h : SpellsNumeral numeral text) : ∃ c cs, text = c :: cs ∧ isBlank c = false := by
  obtain ⟨digits, power, hwhole, _, _, rfl⟩ := h
  cases numeral.negative with
  | true => exact ⟨'-', _, rfl, by decide⟩
  | false =>
    have hdigit : ∀ d : Digit, isBlank d.toChar = false := by decide
    obtain ⟨d, ds, rfl⟩ := List.exists_cons_of_ne_nil hwhole.some
    exact ⟨d.toChar, _, rfl, hdigit d⟩

theorem SpellsToken.exists_head {token : Token} {text : List Char} (h : SpellsToken token text) :
    ∃ c cs, text = c :: cs ∧ isBlank c = false ∧
      (token.isNumber = false → Digit.ofChar? c = none ∧ c ≠ '.' ∧ c ≠ 'e' ∧ c ≠ 'E') := by
  cases token with
  | number numeral =>
    obtain ⟨c, cs, htext, hblank⟩ := SpellsNumeral.exists_head h
    exact ⟨c, cs, htext, hblank, fun h => nomatch h⟩
  | string text =>
    obtain ⟨_, literal, _, _, rfl⟩ := h
    exact ⟨'"', _, rfl, by decide, fun _ => by decide⟩
  | bool b =>
    cases h
    cases b <;> exact ⟨_, _, rfl, by decide, fun _ => by decide⟩
  | _ =>
    cases h
    exact ⟨_, _, rfl, by decide, fun _ => by decide⟩

theorem scan?_of_spells {token : Token} {text : List Char} (hspells : SpellsToken token text)
    {rest : List Char} (h : token.isNumber = true → EndsNumeral rest) :
    scan? (text ++ rest) = some (token, rest) := by
  cases token with
  | number numeral => exact scan?_numeral hspells (h rfl)
  | string text =>
    obtain ⟨pieces, literal, hpieces, rfl, rfl⟩ := hspells
    rw [List.cons_append, List.append_assoc, List.singleton_append, scan?,
      unquote?_literal hpieces]
    rfl
  | bool b =>
    cases hspells
    cases b <;> rfl
  | _ =>
    cases hspells
    rfl

theorem tokensOnto?_blanks (read : Array Token) {blanks : List Char}
    (h : ∀ c ∈ blanks, isBlank c = true) (rest : List Char) :
    tokensOnto? read (blanks ++ rest) = tokensOnto? read rest := by
  induction blanks with
  | nil => rfl
  | cons c blanks ih =>
    obtain ⟨hc, hblanks⟩ := List.forall_mem_cons.1 h
    rw [List.cons_append, tokensOnto?, if_pos hc]
    exact ih hblanks

theorem tokensOnto?_token (read : Array Token) {token : Token} {text : List Char}
    (hspells : SpellsToken token text) {rest : List Char}
    (h : token.isNumber = true → EndsNumeral rest) :
    tokensOnto? read (text ++ rest) = tokensOnto? (read.push token) rest := by
  have hscan := scan?_of_spells hspells h
  obtain ⟨c, cs, rfl, hblank, _⟩ := hspells.exists_head
  rw [List.cons_append] at hscan ⊢
  rw [tokensOnto?, hblank, if_neg Bool.false_ne_true]
  split
  · next hnone =>
    rw [hscan] at hnone
    cases hnone
  · next hsome =>
    rw [hscan] at hsome
    cases hsome
    rfl

/-! ### Texts of tokens -/

theorem endsNumeral_of_isBlank {blanks : List Char} (hblanks : ∀ c ∈ blanks, isBlank c = true)
    {rest : List Char} (hrest : EndsNumeral rest) : EndsNumeral (blanks ++ rest) := by
  cases blanks with
  | nil => exact hrest
  | cons c blanks =>
    have hc := hblanks c (List.mem_cons_self ..)
    simp only [isBlank, Bool.or_eq_true, decide_eq_true_eq, or_assoc] at hc
    refine endsNumeral_cons ?_
    rcases hc with rfl | rfl | rfl | rfl <;> decide

theorem Spells.endsNumeral {tokens : List Token} {cs : List Char} (h : Spells tokens cs)
    (hfirst : ∀ token ∈ tokens.head?, token.isNumber = false) : EndsNumeral cs := by
  cases h with
  | nil hblanks =>
    rw [← List.append_nil cs]
    exact endsNumeral_of_isBlank hblanks endsNumeral_nil
  | @cons blanks text cs token rest hblanks htoken _ =>
    apply endsNumeral_of_isBlank hblanks
    obtain ⟨c, text, rfl, _, hends⟩ := htoken.exists_head
    exact endsNumeral_cons (hends (hfirst token rfl))

/-- A text that spells tokens is cut into these tokens. -/
theorem tokensOnto?_of_spells {tokens : List Token} {cs : List Char} (h : Spells tokens cs)
    (happart : tokens.IsChain fun before after => ¬ before.Clash after) (read : Array Token) :
    tokensOnto? read cs = some (read.toList ++ tokens) := by
  induction h generalizing read with
  | @nil blanks hblanks =>
    rw [← List.append_nil blanks, tokensOnto?_blanks read hblanks, tokensOnto?, List.append_nil]
  | @cons blanks text cs token rest hblanks htoken hrest ih =>
    obtain ⟨hnext, happart⟩ := List.isChain_cons.1 happart
    have hends : token.isNumber = true → EndsNumeral cs := by
      intro hnumber
      refine hrest.endsNumeral fun after hafter => ?_
      exact Bool.eq_false_iff.2 fun hafter' => hnext after hafter ⟨hnumber, hafter'⟩
    rw [tokensOnto?_blanks read hblanks, tokensOnto?_token read htoken hends,
      ih happart, Array.toList_push, List.append_assoc, List.singleton_append]

/-! ### What is written -/

theorem spells_nil : Spells [] [] := .nil fun _ h => absurd h List.not_mem_nil

theorem spells_flatMap_text {tokens : List Token} (h : ∀ token ∈ tokens, token.hasText = true) :
    Spells tokens (tokens.flatMap Token.text) := by
  induction tokens with
  | nil => exact spells_nil
  | cons token rest ih =>
    obtain ⟨htoken, hrest⟩ := List.forall_mem_cons.1 h
    exact .cons (fun c hc => absurd hc List.not_mem_nil) (spellsToken_text htoken) (ih hrest)

theorem toList_join (text : String) (tokens : List Token) :
    (join text tokens).toList = text.toList ++ tokens.flatMap Token.text := by
  induction tokens generalizing text with
  | nil => exact (List.append_nil _).symm
  | cons token rest ih =>
    rw [join, ih, String.toList_append, String.toList_ofList, List.append_assoc,
      List.flatMap_cons]

/-- All strings of a value have a text. -/
def Writable (value : Json) : Prop := ∀ token ∈ value.tokens, token.hasText = true

/-- What is written without blanks spells the tokens of its value. -/
theorem spells_compact {value : Json} (h : value.Writable) :
    Spells value.tokens value.compact.toList := by
  rw [compact, toList_join]
  exact spells_flatMap_text h

theorem isBlank_newLine (depth : Nat) : ∀ c ∈ newLine depth, isBlank c = true := by
  intro c hc
  rcases List.mem_cons.1 hc with rfl | hc
  · rfl
  · rw [List.eq_of_mem_replicate hc]
    rfl

theorem isBlank_gap (depth : Nat) (before after : Token) :
    ∀ c ∈ gap depth before after, isBlank c = true := by
  unfold gap
  split
  · split
    · exact fun c hc => absurd hc List.not_mem_nil
    · exact isBlank_newLine depth
  · split
    · exact isBlank_newLine (depth - 1)
    · split
      · exact isBlank_newLine depth
      · split
        · intro c hc
          rw [List.mem_singleton.1 hc]
          rfl
        · exact fun c hc => absurd hc List.not_mem_nil

theorem exists_spells_spread (text : String) (depth : Nat) (before : Token)
    {tokens : List Token} (h : ∀ token ∈ tokens, token.hasText = true) :
    ∃ cs, (spread text depth before tokens).toList = text.toList ++ cs ∧ Spells tokens cs := by
  induction tokens generalizing text depth before with
  | nil => exact ⟨[], (List.append_nil _).symm, spells_nil⟩
  | cons token rest ih =>
    obtain ⟨htoken, hrest⟩ := List.forall_mem_cons.1 h
    rw [spread]
    generalize (if before.opens then depth + 1 else if before.closes then depth - 1 else depth) =
      depth'
    obtain ⟨cs, hcs, hspells⟩ := ih (text ++ String.ofList (gap depth' before token) ++
      String.ofList token.text) depth' token hrest
    refine ⟨gap depth' before token ++ (token.text ++ cs), ?_,
      .cons (isBlank_gap depth' before token) (spellsToken_text htoken) hspells⟩
    rw [hcs, String.toList_append, String.toList_append, String.toList_ofList,
      String.toList_ofList, List.append_assoc, List.append_assoc]

/-- What is written with line breaks spells the tokens of its value as well. -/
theorem spells_pretty {value : Json} (h : value.Writable) :
    Spells value.tokens value.pretty.toList := by
  unfold Writable at h
  unfold pretty
  split
  · next hnil =>
    rw [hnil]
    exact spells_nil
  · next first rest hcons =>
    rw [hcons] at h
    obtain ⟨hfirst, hrest⟩ := List.forall_mem_cons.1 h
    obtain ⟨cs, hcs, hspells⟩ := exists_spells_spread (String.ofList first.text) 0 first hrest
    rw [hcons, hcs, String.toList_ofList]
    exact .cons (fun c hc => absurd hc List.not_mem_nil) (spellsToken_text hfirst) hspells

end LSystem.Json
