import LSystem.Json.Quoted

/-!
# String literals by their form

Between the quotes of a literal stand characters, as themselves or by a letter
behind a backslash, and 16-bit units by four hexadecimal digits. A literal of
this form is read up to its closing quote, as the text of its parts, which it
only has if no half of a surrogate pair stands alone. What a text is written as
is one of its literals.
-/

namespace LSystem.Json

/-- A part of a literal: a character, or one unit of 16 bits. -/
inductive Piece
  | char (c : Char)
  | unit (u : Nat)

/-- The letters behind a backslash and the characters they stand for. -/
def letterEscapes : List (Char × Char) :=
  [('"', '"'), ('\\', '\\'), ('/', '/'), ('b', '\x08'), ('f', '\x0c'), ('n', '\n'), ('r', '\r'),
    ('t', '\t')]

inductive SpellsPiece : Piece → List Char → Prop
  | plain {c : Char} (hquote : c ≠ '"') (hbackslash : c ≠ '\\') (hcontrol : ¬ c.toNat < 0x20) :
    SpellsPiece (.char c) [c]
  | letter {letter c : Char} (hletter : (letter, c) ∈ letterEscapes) :
    SpellsPiece (.char c) ['\\', letter]
  | unit {a b c d : Char} {u : Nat} (hunit : unit? a b c d = some u) :
    SpellsPiece (.unit u) ['\\', 'u', a, b, c, d]

inductive SpellsPieces : List Piece → List Char → Prop
  | nil : SpellsPieces [] []
  | cons {piece : Piece} {pieces : List Piece} {cs rest : List Char}
    (hpiece : SpellsPiece piece cs) (hrest : SpellsPieces pieces rest) :
    SpellsPieces (piece :: pieces) (cs ++ rest)

/-- The characters of a literal; none if half of a surrogate pair stands alone. -/
def Piece.chars? : List Piece → Option (List Char)
  | [] => some []
  | .char c :: rest => (chars? rest).map (c :: ·)
  | .unit u :: rest =>
    if isLeading u then
      match rest with
      | .unit v :: rest => if isTrailing v then (chars? rest).map (pairChar u v :: ·) else none
      | _ => none
    else if isTrailing u then none
    else (chars? rest).map (Char.ofNat u :: ·)

/-! ### Reading a literal -/

def Content.add (content : Content) : Piece → Content
  | .char c => content.push c
  | .unit u => content.pushUnit u

theorem unquote?_plain (content : Content) {c : Char} (rest : List Char) (hquote : c ≠ '"')
    (hbackslash : c ≠ '\\') (hcontrol : ¬ c.toNat < 0x20) :
    unquote? content (c :: rest) = unquote? (content.push c) rest := by
  have hnot : ¬ (decide (c.toNat < 0x20) || decide (c = '\\')) = true := by
    rw [decide_eq_false hcontrol, decide_eq_false hbackslash]
    decide
  rw [unquote?, if_neg hnot]
  · exact hquote
  · intro _ _ _ _ _ h
    exact absurd h hbackslash
  · intro _ _ h
    exact absurd h hbackslash

theorem unquote?_letter (content : Content) {letter c : Char}
    (hletter : (letter, c) ∈ letterEscapes) (rest : List Char) :
    unquote? content ('\\' :: letter :: rest) = unquote? (content.push c) rest := by
  simp only [letterEscapes, List.mem_cons, Prod.mk.injEq, List.not_mem_nil, or_false] at hletter
  rcases hletter with h | h | h | h | h | h | h | h
  all_goals
    obtain ⟨rfl, rfl⟩ := h
    rfl

theorem unquote?_piece (content : Content) {piece : Piece} {cs : List Char}
    (h : SpellsPiece piece cs) (rest : List Char) :
    unquote? content (cs ++ rest) = unquote? (content.add piece) rest := by
  cases h with
  | plain hquote hbackslash hcontrol => exact unquote?_plain content rest hquote hbackslash hcontrol
  | letter hletter => exact unquote?_letter content hletter rest
  | unit hunit =>
    simp only [List.cons_append, List.nil_append, unquote?, hunit]
    rfl

theorem unquote?_pieces {pieces : List Piece} {cs : List Char} (h : SpellsPieces pieces cs)
    (content : Content) (rest : List Char) :
    unquote? content (cs ++ '"' :: rest) =
      some ((pieces.foldl Content.add content).close, rest) := by
  induction h generalizing content with
  | nil => rfl
  | cons hpiece _ ih => rw [List.append_assoc, unquote?_piece content hpiece, ih, List.foldl_cons]

/-! ### The text of a literal -/

theorem Content.text_add_of_none {content : Content} (h : content.text = none) (piece : Piece) :
    (content.add piece).text = none := by
  obtain ⟨text, leading⟩ := content
  cases h
  cases piece with
  | char c => cases leading <;> rfl
  | unit u =>
    cases leading with
    | none =>
      simp only [add, pushUnit]
      split
      · rfl
      · split <;> rfl
    | some leading =>
      simp only [add, pushUnit]
      split <;> rfl

theorem Content.close_foldl_of_none (pieces : List Piece) {content : Content}
    (h : content.text = none) : (pieces.foldl add content).close = none := by
  induction pieces generalizing content with
  | nil =>
    rw [List.foldl_nil, close, h]
    split <;> rfl
  | cons piece pieces ih => exact ih (text_add_of_none h piece)

theorem Content.pushUnit_leading (text : Option (List Char)) {u : Nat} (h : isLeading u = true) :
    pushUnit ⟨text, none⟩ u = ⟨text, some u⟩ := by
  simp [pushUnit, h]

theorem Content.pushUnit_single (text : Option (List Char)) {u : Nat} (h : isLeading u = false)
    (h' : isTrailing u = false) : pushUnit ⟨text, none⟩ u = ⟨text.map (Char.ofNat u :: ·), none⟩ := by
  simp [pushUnit, h, h']

theorem Content.close_foldl_add (pieces : List Piece) (before : List Char) :
    (pieces.foldl add ⟨some before, none⟩).close =
      (Piece.chars? pieces).map fun cs => String.ofList (before.reverse ++ cs) := by
  fun_induction Piece.chars? pieces generalizing before with
  | case1 => simp [close]
  | case2 c rest ih =>
    refine (ih (c :: before)).trans ?_
    simp [Option.map_map, Function.comp_def]
  | case3 u hleading v rest htrailing ih =>
    have hpair : pushUnit ⟨some before, some u⟩ v = ⟨some (pairChar u v :: before), none⟩ := by
      simp [pushUnit, htrailing]
    simp only [List.foldl_cons, add, pushUnit_leading _ hleading, hpair, ih]
    simp [Option.map_map, Function.comp_def]
  | case4 u hleading v rest htrailing =>
    have hlone : pushUnit ⟨some before, some u⟩ v = ⟨none, none⟩ := by
      simp [pushUnit, htrailing]
    simp only [List.foldl_cons, add, pushUnit_leading _ hleading, hlone]
    exact close_foldl_of_none rest rfl
  | case5 u rest hleading hlone =>
    simp only [List.foldl_cons, add, pushUnit_leading _ hleading]
    -- A leading half that waits for the other one meets the end, or a character.
    cases rest with
    | nil => rfl
    | cons piece rest =>
      cases piece with
      | char c => exact close_foldl_of_none rest rfl
      | unit v => exact absurd rfl (hlone v rest)
  | case6 u rest hleading htrailing =>
    have hlone : pushUnit ⟨some before, none⟩ u = ⟨none, none⟩ := by
      simp [pushUnit, hleading, htrailing]
    simp only [List.foldl_cons, add, hlone]
    exact close_foldl_of_none rest rfl
  | case7 u rest hleading htrailing ih =>
    have hsingle := pushUnit_single (some before) (Bool.eq_false_iff.2 hleading)
      (Bool.eq_false_iff.2 htrailing)
    simp only [List.foldl_cons, add, hsingle, Option.map_some, ih]
    simp [Option.map_map, Function.comp_def]

/-- A literal is read up to its closing quote, which no escape is mistaken for. -/
theorem unquote?_literal {pieces : List Piece} {cs : List Char} (h : SpellsPieces pieces cs)
    (rest : List Char) :
    unquote? {} (cs ++ '"' :: rest) = some ((Piece.chars? pieces).map String.ofList, rest) := by
  rw [unquote?_pieces h, Content.close_foldl_add]
  rfl

/-! ### What is written -/

theorem unit?_hexDigit : ∀ n < 0x20,
    unit? '0' '0' (hexDigit (n / 16)) (hexDigit (n % 16)) = some n := by
  decide

theorem Piece.chars?_control {c : Char} (h : c.toNat < 0x20) (rest : List Piece) :
    chars? (.unit c.toNat :: rest) = (chars? rest).map (c :: ·) := by
  have hleading : isLeading c.toNat = false := by
    rw [isLeading, decide_eq_false (by omega), Bool.false_and]
  have htrailing : isTrailing c.toNat = false := by
    rw [isTrailing, decide_eq_false (by omega), Bool.false_and]
  rw [chars?.eq_def]
  simp only [hleading, htrailing, Bool.false_eq_true, if_false, Char.ofNat_toNat]

/-- An escape, or a character that needs none, is a spelling of just this character. -/
theorem exists_piece_escape (c : Char) :
    ∃ piece, SpellsPiece piece (escape c) ∧
      ∀ rest, Piece.chars? (piece :: rest) = (Piece.chars? rest).map (c :: ·) := by
  have hletter (letter : Char) (h : (letter, c) ∈ letterEscapes) :
      ∃ piece, SpellsPiece piece ['\\', letter] ∧
        ∀ rest, Piece.chars? (piece :: rest) = (Piece.chars? rest).map (c :: ·) :=
    ⟨.char c, .letter h, fun _ => rfl⟩
  unfold escape
  split
  · next h => exact hletter '"' (by subst h; decide)
  split
  · next h => exact hletter '\\' (by subst h; decide)
  split
  · next h => exact hletter 'b' (by subst h; decide)
  split
  · next h => exact hletter 't' (by subst h; decide)
  split
  · next h => exact hletter 'n' (by subst h; decide)
  split
  · next h => exact hletter 'f' (by subst h; decide)
  split
  · next h => exact hletter 'r' (by subst h; decide)
  split
  · next hcontrol =>
    exact ⟨.unit c.toNat, .unit (unit?_hexDigit _ hcontrol), Piece.chars?_control hcontrol⟩
  · next hquote hbackslash _ _ _ _ _ hcontrol =>
    exact ⟨.char c, .plain hquote hbackslash hcontrol, fun _ => rfl⟩

theorem exists_pieces_escapes (text : List Char) :
    ∃ pieces, SpellsPieces pieces (text.flatMap escape) ∧ Piece.chars? pieces = some text := by
  induction text with
  | nil => exact ⟨[], .nil, rfl⟩
  | cons c text ih =>
    obtain ⟨piece, hpiece, hchars⟩ := exists_piece_escape c
    obtain ⟨pieces, hpieces, htext⟩ := ih
    refine ⟨piece :: pieces, .cons hpiece hpieces, ?_⟩
    rw [hchars, htext, Option.map_some]

end LSystem.Json
