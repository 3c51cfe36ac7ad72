import LSystem.Json.Token
import Mathlib.Data.Fintype.Basic
import Mathlib.Tactic.FinCases

/-!
# Numerals by their form

The form of a numeral is that of the JSON grammar: a minus sign at will, digits
without a zero in front of others, a fraction and a power of ten, of which the
last two may be absent. A text of this form is scanned up to its end: whatever
follows it, unless it could go on with a digit, a point or a power of ten, is
left as it is. What a numeral is written as is one of its texts.
-/

namespace LSystem

theorem Digit.length_le_one_of_ofNat_zero {n : Nat} {d : Digit} {ds : List Digit}
    (h : Digit.ofNat n = d :: ds) (hd : d.val = 0) : ds = [] := by
  induction n using Nat.strongRecOn generalizing d ds with
  | ind n ih =>
    rw [ofNat] at h
    split at h
    · cases h
      rfl
    · next hlarge =>
      -- The leading digit is that of a tenth, which is not zero either.
      obtain ⟨first, others, hfirst⟩ := List.exists_cons_of_ne_nil (ofNat_ne_nil (n / 10))
      rw [hfirst, List.cons_append] at h
      cases h
      have hnone := ih (n / 10) (by omega) hfirst hd
      have hvalue := toNat_ofNat (n / 10)
      rw [hfirst, hnone, toNat, foldFrom, List.foldl_cons, List.foldl_nil, hd] at hvalue
      omega

namespace Json

open Decimal (Mixed)

/-- A text that a numeral in front of it does not go on into. -/
def EndsNumeral (rest : List Char) : Prop :=
  ∀ c ∈ rest.head?, Digit.ofChar? c = none ∧ c ≠ '.' ∧ c ≠ 'e' ∧ c ≠ 'E'

theorem endsNumeral_nil : EndsNumeral [] := fun _ h => by cases h

theorem endsNumeral_cons {c : Char} {rest : List Char}
    (h : Digit.ofChar? c = none ∧ c ≠ '.' ∧ c ≠ 'e' ∧ c ≠ 'E') : EndsNumeral (c :: rest) := by
  intro d hd
  cases hd
  exact h

theorem spanDigits_of_head {rest : List Char} (h : ∀ c ∈ rest.head?, Digit.ofChar? c = none) :
    spanDigits rest = ([], rest) := by
  cases rest with
  | nil => rfl
  | cons c rest =>
    have hc := h c rfl
    simp only [spanDigits, hc]

theorem spanDigits_text (digits : List Digit) {rest : List Char}
    (h : ∀ c ∈ rest.head?, Digit.ofChar? c = none) :
    spanDigits (Digit.text digits ++ rest) = (digits, rest) := by
  induction digits with
  | nil => exact spanDigits_of_head h
  | cons d digits ih =>
    rw [Digit.text] at ih
    rw [Digit.text, List.map_cons, List.cons_append, spanDigits, Digit.ofChar?_toChar]
    simp only [ih]

/-! ### Powers of ten -/

/-- The texts of a power of ten: none if it is absent, and otherwise a mark of either case, a sign
at will and one or more digits. -/
inductive SpellsPower : Option Int → List Char → Prop
  | absent : SpellsPower none []
  | unsigned {mark : Char} {digits : List Digit} (hmark : mark = 'e' ∨ mark = 'E')
    (hdigits : digits ≠ []) :
    SpellsPower (some (Digit.toNat digits)) (mark :: Digit.text digits)
  | plus {mark : Char} {digits : List Digit} (hmark : mark = 'e' ∨ mark = 'E')
    (hdigits : digits ≠ []) :
    SpellsPower (some (Digit.toNat digits)) (mark :: '+' :: Digit.text digits)
  | minus {mark : Char} {digits : List Digit} (hmark : mark = 'e' ∨ mark = 'E')
    (hdigits : digits ≠ []) :
    SpellsPower (some (-(Digit.toNat digits : Int))) (mark :: '-' :: Digit.text digits)

theorem spellsPower_exponentText (exponent : Option Int) :
    SpellsPower exponent (Numeral.exponentText exponent) := by
  cases exponent with
  | none => exact .absent
  | some e =>
    by_cases hnegative : e < 0
    · have hspells := SpellsPower.minus (.inl rfl) (Digit.ofNat_ne_nil e.natAbs)
      have hvalue : -(e.natAbs : Int) = e := by omega
      rw [Digit.toNat_ofNat, hvalue] at hspells
      simpa [Numeral.exponentText, hnegative] using hspells
    · have hspells := SpellsPower.plus (.inl rfl) (Digit.ofNat_ne_nil e.natAbs)
      have hvalue : (e.natAbs : Int) = e := by omega
      rw [Digit.toNat_ofNat, hvalue] at hspells
      simpa [Numeral.exponentText, hnegative] using hspells

theorem scanPower?_text (negative : Bool) {digits : List Digit} (hdigits : digits ≠ [])
    {rest : List Char} (h : ∀ c ∈ rest.head?, Digit.ofChar? c = none) :
    scanPower? negative (Digit.text digits ++ rest) =
      some (some (if negative then -(Digit.toNat digits : Int) else Digit.toNat digits), rest) := by
  rw [scanPower?, spanDigits_text _ h]
  cases digits with
  | nil => exact absurd rfl hdigits
  | cons d digits => rfl

theorem scanExponent?_mark {mark : Char} (hmark : mark = 'e' ∨ mark = 'E') (rest : List Char) :
    scanExponent? (mark :: rest) =
      match rest with
      | '+' :: ds => scanPower? false ds
      | '-' :: ds => scanPower? true ds
      | ds => scanPower? false ds := by
  rcases hmark with rfl | rfl <;> rfl

theorem scanExponent?_of_spellsPower {exponent : Option Int} {text : List Char}
    (hspells : SpellsPower exponent text) {rest : List Char} (h : EndsNumeral rest) :
    scanExponent? (text ++ rest) = some (exponent, rest) := by
  have hdigit : ∀ c ∈ rest.head?, Digit.ofChar? c = none := fun c hc => (h c hc).1
  cases hspells with
  | absent =>
    cases rest with
    | nil => rfl
    | cons c rest =>
      obtain ⟨_, _, hlower, hupper⟩ := h c rfl
      simp [scanExponent?, hlower, hupper]
  | @unsigned mark digits hmark hdigits =>
    have hpower := scanPower?_text false hdigits hdigit
    cases digits with
    | nil => exact absurd rfl hdigits
    | cons d ds =>
      have hplus : ∀ d : Digit, d.toChar ≠ '+' := by decide
      have hminus : ∀ d : Digit, d.toChar ≠ '-' := by decide
      rw [List.cons_append, scanExponent?_mark hmark]
      split
      · next heq => exact absurd (List.cons.inj heq).1 (hplus d)
      · next heq => exact absurd (List.cons.inj heq).1 (hminus d)
      · exact hpower
  | plus hmark hdigits =>
    rw [List.cons_append, scanExponent?_mark hmark]
    exact scanPower?_text false hdigits hdigit
  | minus hmark hdigits =>
    rw [List.cons_append, scanExponent?_mark hmark]
    exact scanPower?_text true hdigits hdigit

/-- Neither a fraction nor more digits follow where a power of ten may begin. -/
theorem SpellsPower.head? {exponent : Option Int} {text : List Char}
    (hspells : SpellsPower exponent text) {rest : List Char} (h : EndsNumeral rest) :
    ∀ c ∈ (text ++ rest).head?, Digit.ofChar? c = none ∧ c ≠ '.' := by
  have hmarked (mark : Char) (hmark : mark = 'e' ∨ mark = 'E') :
      Digit.ofChar? mark = none ∧ mark ≠ '.' := by
    rcases hmark with rfl | rfl <;> decide
  intro c hc
  cases hspells with
  | absent => exact ⟨(h c hc).1, (h c hc).2.1⟩
  | unsigned hmark _ =>
    cases hc
    exact hmarked _ hmark
  | plus hmark _ =>
    cases hc
    exact hmarked _ hmark
  | minus hmark _ =>
    cases hc
    exact hmarked _ hmark

/-! ### Fractions -/

theorem scanFraction?_text (fraction : List Digit) {rest : List Char}
    (h : ∀ c ∈ rest.head?, Digit.ofChar? c = none ∧ c ≠ '.') :
    scanFraction? ((if fraction.isEmpty then [] else '.' :: Digit.text fraction) ++ rest) =
      some (fraction, rest) := by
  cases fraction with
  | nil =>
    cases rest with
    | nil => rfl
    | cons c rest =>
      have hpoint := (h c rfl).2
      simp only [List.isEmpty_nil, if_true, List.nil_append]
      rw [scanFraction?]
      intro _ heq
      cases heq
      exact hpoint rfl
  | cons d ds =>
    have hspan := spanDigits_text (d :: ds) fun c hc => (h c hc).1
    simp only [List.isEmpty_cons, Bool.false_eq_true, if_false, List.cons_append, scanFraction?,
      hspan]

theorem head?_fraction (fraction : List Digit) {rest : List Char}
    (h : ∀ c ∈ rest.head?, Digit.ofChar? c = none ∧ c ≠ '.') :
    ∀ c ∈ ((if fraction.isEmpty then [] else '.' :: Digit.text fraction) ++ rest).head?,
      Digit.ofChar? c = none := by
  intro c hc
  cases fraction with
  | nil => exact (h c hc).1
  | cons d ds =>
    cases hc
    decide

/-! ### Numerals -/

/-- Digits of a whole part: at least one, and no zero in front of others. -/
structure IsWhole (digits : List Digit) : Prop where
  some : digits ≠ []
  plain : ∀ d ds, digits = d :: ds → d.val = 0 → ds = []

theorem isWhole_ofNat (n : Nat) : IsWhole (Digit.ofNat n) :=
  ⟨Digit.ofNat_ne_nil n, fun _ _ => Digit.length_le_one_of_ofNat_zero⟩

/-- The texts of a numeral. -/
def SpellsNumeral (numeral : Numeral) (text : List Char) : Prop :=
  ∃ digits power, IsWhole digits ∧ numeral.whole = Digit.toNat digits ∧
    SpellsPower numeral.exponent power ∧
    text = (if numeral.negative then ['-'] else []) ++ (Digit.text digits ++
      ((if numeral.fraction.isEmpty then [] else '.' :: Digit.text numeral.fraction) ++ power))

theorem spellsNumeral_text (numeral : Numeral) : SpellsNumeral numeral numeral.text := by
  refine ⟨Digit.ofNat numeral.whole, Numeral.exponentText numeral.exponent, isWhole_ofNat _,
    (Digit.toNat_ofNat _).symm, spellsPower_exponentText _, ?_⟩
  rw [Numeral.text, Mixed.text, List.append_assoc, List.append_assoc]

theorem scanNumeral?_of_spells {digits : List Digit} (hwhole : IsWhole digits)
    {exponent : Option Int} {power : List Char} (hpower : SpellsPower exponent power)
    (negative : Bool) (fraction : List Digit) {rest : List Char} (h : EndsNumeral rest) :
    scanNumeral? negative (Digit.text digits ++
        ((if fraction.isEmpty then [] else '.' :: Digit.text fraction) ++ (power ++ rest))) =
      some ({ negative, whole := Digit.toNat digits, fraction, exponent }, rest) := by
  have hexponent := hpower.head? h
  have hspan := spanDigits_text digits (head?_fraction fraction hexponent)
  obtain ⟨d, ds, rfl⟩ := List.exists_cons_of_ne_nil hwhole.some
  have hleading : (decide (d.val = 0) && !ds.isEmpty) = false := by
    by_cases hd : d.val = 0
    · rw [hwhole.plain d ds rfl hd]
      exact Bool.and_false _
    · rw [decide_eq_false hd, Bool.false_and]
  rw [scanNumeral?, hspan]
  simp only [hleading, Bool.false_eq_true, if_false, scanFraction?_text fraction hexponent,
    scanExponent?_of_spellsPower hpower h, Option.bind_eq_bind, Option.bind_some, Option.pure_def]

theorem scan?_toChar (d : Digit) (rest : List Char) :
    scan? (d.toChar :: rest) =
      (scanNumeral? false (d.toChar :: rest)).map fun (numeral, after) =>
        (.number numeral, after) := by
  fin_cases d <;> rfl

theorem scan?_numeral {numeral : Numeral} {text : List Char} (hspells : SpellsNumeral numeral text)
    {rest : List Char} (h : EndsNumeral rest) :
    scan? (text ++ rest) = some (.number numeral, rest) := by
  obtain ⟨digits, power, hwhole, hvalue, hpower, rfl⟩ := hspells
  have hscan := scanNumeral?_of_spells hwhole hpower numeral.negative numeral.fraction h
  rw [← hvalue] at hscan
  rw [List.append_assoc, List.append_assoc, List.append_assoc]
  cases hnegative : numeral.negative with
  | true =>
    rw [hnegative] at hscan
    rw [if_pos rfl, List.singleton_append, scan?, hscan, Option.map_some, ← hnegative]
  | false =>
    rw [hnegative] at hscan
    obtain ⟨d, ds, rfl⟩ := List.exists_cons_of_ne_nil hwhole.some
    rw [if_neg Bool.false_ne_true, List.nil_append]
    rw [Digit.text, List.map_cons, List.cons_append] at hscan ⊢
    rw [scan?_toChar, hscan, Option.map_some, ← hnegative]

end Json

end LSystem
