import LSystem.Text.Integer

/-!
# Decimal integers by their form

The form of a decimal integer is a sign, which may be absent, with one or more
digits behind it. Main facts: a text is read exactly if it has this form and its
value is within the width, and any other text is refused for the leftmost fault
in it.
-/

namespace LSystem

namespace Digit

theorem toChar_of_ofChar? {c : Char} {d : Digit} (h : ofChar? c = some d) : d.toChar = c := by
  unfold ofChar? at h
  split at h
  · next hrange =>
    cases h
    have hlow : '0'.toNat ≤ c.toNat := hrange.1
    have hhigh : c.toNat ≤ '9'.toNat := hrange.2
    have hten : (c.toNat - '0'.toNat) % 10 = c.toNat - '0'.toNat :=
      Nat.mod_eq_of_lt (Nat.lt_of_le_of_lt (Nat.sub_le_sub_right hhigh _) (by decide))
    show Char.ofNat ('0'.toNat + (c.toNat - '0'.toNat) % 10) = c
    rw [hten, Nat.add_sub_cancel' hlow, Char.ofNat_toNat]
  · cases h

theorem le_foldFrom (value : Nat) (digits : List Digit) : value ≤ foldFrom value digits := by
  induction digits generalizing value with
  | nil => exact Nat.le_refl value
  | cons d rest ih => exact Nat.le_trans (by omega) (ih (value * 10 + d.val))

/-- A text goes on without a digit, if it goes on at all. -/
def EndsDigits (rest : List Char) : Prop := ∀ c ∈ rest.head?, ofChar? c = none

theorem exists_text_append (cs : List Char) :
    ∃ digits rest, cs = text digits ++ rest ∧ EndsDigits rest := by
  induction cs with
  | nil => exact ⟨[], [], rfl, fun c hc => nomatch hc⟩
  | cons c cs ih =>
    cases h : ofChar? c with
    | none =>
      refine ⟨[], c :: cs, rfl, fun c' hc' => ?_⟩
      cases hc'
      exact h
    | some d =>
      obtain ⟨digits, rest, hcs, hrest⟩ := ih
      refine ⟨d :: digits, rest, ?_, hrest⟩
      rw [text, List.map_cons, toChar_of_ofChar? h, hcs]
      rfl

end Digit

namespace Text

/-! ### Magnitudes -/

section Magnitude

variable {limit value n : Nat} {overflow e : IntegerError} {digits : List Digit} {rest : List Char}

theorem readDigits_of_le (h : Digit.foldFrom value digits ≤ limit) :
    readDigits limit overflow value (Digit.text digits ++ rest) =
      readDigits limit overflow (Digit.foldFrom value digits) rest := by
  induction digits generalizing value with
  | nil => rfl
  | cons d digits ih =>
    have hfirst : ¬ limit < value * 10 + d.val := by
      have hle := Digit.le_foldFrom (value * 10 + d.val) digits
      exact Nat.not_lt.2 (Nat.le_trans hle h)
    rw [Digit.text, List.map_cons, List.cons_append, readDigits, Digit.ofChar?_toChar]
    dsimp only
    rw [if_neg hfirst]
    exact ih h

theorem readDigits_of_lt (hvalue : value ≤ limit) (h : limit < Digit.foldFrom value digits) :
    readDigits limit overflow value (Digit.text digits ++ rest) = .error overflow := by
  induction digits generalizing value with
  | nil => exact absurd h (Nat.not_lt.2 hvalue)
  | cons d digits ih =>
    rw [Digit.text, List.map_cons, List.cons_append, readDigits, Digit.ofChar?_toChar]
    dsimp only
    split
    · rfl
    · next hfirst => exact ih (Nat.not_lt.1 hfirst) h

theorem readDigits_of_ends (h : Digit.EndsDigits rest) :
    readDigits limit overflow value rest =
      if rest = [] then .ok value else .error .invalidDigit := by
  cases rest with
  | nil => rfl
  | cons c rest =>
    have hc : Digit.ofChar? c = none := h c rfl
    rw [readDigits, hc, if_neg (List.cons_ne_nil c rest)]

theorem readMagnitude_of_ne_nil {text : List Char} (h : text ≠ []) :
    readMagnitude limit overflow text = readDigits limit overflow 0 text := by
  cases text with
  | nil => exact absurd rfl h
  | cons c rest => rfl

/-- What is wrong with the digits of a magnitude: too great a number of its leading digits alone,
or something else than a digit, or nothing at all, behind digits that would fit. -/
inductive MagnitudeFault (limit : Nat) (overflow : IntegerError) :
    List Char → IntegerError → Prop
  | overflow {digits : List Digit} {rest : List Char} (hlarge : limit < Digit.toNat digits) :
    MagnitudeFault limit overflow (Digit.text digits ++ rest) overflow
  | noDigit : MagnitudeFault limit overflow [] .invalidDigit
  | badDigit {digits : List Digit} {c : Char} {rest : List Char}
    (hfits : Digit.toNat digits ≤ limit) (hbad : Digit.ofChar? c = none) :
    MagnitudeFault limit overflow (Digit.text digits ++ c :: rest) .invalidDigit

theorem readMagnitude_eq_ok {digits : List Digit} (hdigits : digits ≠ [])
    (hfits : Digit.toNat digits ≤ limit) :
    readMagnitude limit overflow (Digit.text digits) = .ok (Digit.toNat digits) := by
  have hne : Digit.text digits ≠ [] := fun h => hdigits (List.map_eq_nil_iff.1 h)
  rw [readMagnitude_of_ne_nil hne, ← List.append_nil (Digit.text digits), readDigits_of_le hfits]
  rfl

theorem MagnitudeFault.readMagnitude_eq {text : List Char}
    (h : MagnitudeFault limit overflow text e) : readMagnitude limit overflow text = .error e := by
  cases h with
  | @overflow digits rest hlarge =>
    have hne : Digit.text digits ++ rest ≠ [] := by
      intro hnil
      have hdigits : digits = [] := List.map_eq_nil_iff.1 (List.append_eq_nil_iff.1 hnil).1
      rw [hdigits] at hlarge
      exact absurd hlarge (Nat.not_lt_zero limit)
    rw [readMagnitude_of_ne_nil hne]
    exact readDigits_of_lt (Nat.zero_le limit) hlarge
  | noDigit => rfl
  | @badDigit digits c rest hfits hbad =>
    have hends : Digit.EndsDigits (c :: rest) := by
      intro c' hc'
      cases hc'
      exact hbad
    rw [readMagnitude_of_ne_nil (List.append_ne_nil_of_right_ne_nil _ (List.cons_ne_nil c rest)),
      readDigits_of_le hfits, readDigits_of_ends hends, if_neg (List.cons_ne_nil c rest)]

/-- Either a text is one or more digits of a number that fits, or something is wrong with it. -/
theorem digits_or_magnitudeFault (limit : Nat) (overflow : IntegerError) (text : List Char) :
    (∃ digits, digits ≠ [] ∧ Digit.text digits = text ∧ Digit.toNat digits ≤ limit) ∨
      ∃ e, MagnitudeFault limit overflow text e := by
  obtain ⟨digits, rest, rfl, hends⟩ := Digit.exists_text_append text
  rcases Nat.lt_or_ge limit (Digit.toNat digits) with hlarge | hfits
  · exact .inr ⟨overflow, .overflow hlarge⟩
  · cases rest with
    | cons c rest => exact .inr ⟨_, .badDigit hfits (hends c rfl)⟩
    | nil =>
      rw [List.append_nil]
      cases digits with
      | nil => exact .inr ⟨_, .noDigit⟩
      | cons d digits => exact .inl ⟨d :: digits, List.cons_ne_nil d digits, rfl, hfits⟩

theorem readMagnitude_eq_ok_iff {text : List Char} :
    readMagnitude limit overflow text = .ok n ↔
      ∃ digits, digits ≠ [] ∧ Digit.text digits = text ∧ Digit.toNat digits ≤ limit ∧
        Digit.toNat digits = n := by
  constructor
  · intro h
    rcases digits_or_magnitudeFault limit overflow text with
      ⟨digits, hdigits, rfl, hfits⟩ | ⟨e, hfault⟩
    · cases (readMagnitude_eq_ok hdigits hfits).symm.trans h
      exact ⟨digits, hdigits, rfl, hfits, rfl⟩
    · cases hfault.readMagnitude_eq.symm.trans h
  · rintro ⟨digits, hdigits, rfl, hfits, rfl⟩
    exact readMagnitude_eq_ok hdigits hfits

theorem readMagnitude_eq_error_iff {text : List Char} :
    readMagnitude limit overflow text = .error e ↔ MagnitudeFault limit overflow text e := by
  refine ⟨fun h => ?_, MagnitudeFault.readMagnitude_eq⟩
  rcases digits_or_magnitudeFault limit overflow text with
    ⟨digits, hdigits, rfl, hfits⟩ | ⟨e', hfault⟩
  · cases (readMagnitude_eq_ok hdigits hfits).symm.trans h
  · cases hfault.readMagnitude_eq.symm.trans h
    exact hfault

end Magnitude

/-! ### Signs -/

inductive Sign
  | absent
  | plus
  | minus
  deriving DecidableEq

namespace Sign

def text : Sign → List Char
  | absent => []
  | plus => ['+']
  | minus => ['-']

def apply : Sign → Nat → Int
  | minus, n => -n
  | _, n => n

/-- The error of a number that is too great behind the sign. -/
def overflow : Sign → IntegerError
  | minus => .tooSmall
  | _ => .tooLarge

end Sign

/-- The greatest magnitude behind a sign; none if the sign is not allowed. -/
def IntegerWidth.limit? (width : IntegerWidth) : Sign → Option Nat
  | .minus => width.deepest
  | _ => some width.largest

/-- The sign that a text begins with, and what stands behind it. -/
def splitSign : List Char → Sign × List Char
  | '+' :: rest => (.plus, rest)
  | '-' :: rest => (.minus, rest)
  | rest => (.absent, rest)

theorem text_splitSign (text : List Char) :
    (splitSign text).1.text ++ (splitSign text).2 = text := by
  unfold splitSign
  split <;> rfl

theorem splitSign_text (sign : Sign) {digits : List Digit} (h : digits ≠ []) :
    splitSign (sign.text ++ Digit.text digits) = (sign, Digit.text digits) := by
  cases sign with
  | absent =>
    cases digits with
    | nil => exact absurd rfl h
    | cons d digits =>
      have hplus : ∀ d : Digit, d.toChar ≠ '+' := by decide
      have hminus : ∀ d : Digit, d.toChar ≠ '-' := by decide
      show splitSign (d.toChar :: Digit.text digits) = _
      unfold splitSign
      split
      · next heq => exact absurd (List.cons.inj heq).1 (hplus d)
      · next heq => exact absurd (List.cons.inj heq).1 (hminus d)
      · rfl
  | plus => rfl
  | minus => rfl

variable {width : IntegerWidth} {text : List Char}

theorem readInteger_of_ne_nil (width : IntegerWidth) (h : text ≠ []) :
    readInteger width text =
      match width.limit? (splitSign text).1 with
      | none => .error .invalidDigit
      | some limit =>
        (readMagnitude limit (splitSign text).1.overflow (splitSign text).2).map
          (splitSign text).1.apply := by
  unfold readInteger
  split
  · exact absurd rfl h
  · rfl
  · next rest =>
    have hlimit : width.limit? (splitSign ('-' :: rest)).1 = width.deepest := rfl
    rw [hlimit]
    cases width.deepest with
    | none => rfl
    | some deepest =>
      show Except.map _ _ = Except.map _ (readMagnitude deepest .tooSmall rest)
      cases readMagnitude deepest .tooSmall rest with
      | error e => rfl
      | ok magnitude => rfl
  · next hplus hminus =>
    have hsplit : splitSign text = (.absent, text) := by
      unfold splitSign
      split
      · exact absurd rfl (hplus _)
      · exact absurd rfl (hminus _)
      · rfl
    rw [hsplit]
    rfl

/-- The text is a sign with digits behind it, and the number is their value, within the width. -/
def IntegerWidth.Spells (width : IntegerWidth) (text : List Char) (n : Int) : Prop :=
  ∃ sign digits, digits ≠ [] ∧ text = sign.text ++ Digit.text digits ∧
    n = sign.apply (Digit.toNat digits) ∧
    ∃ limit, width.limit? sign = some limit ∧ Digit.toNat digits ≤ limit

/-- The number is written as a sign with one or more digits behind it. -/
def IsDecimal (text : List Char) (n : Int) : Prop :=
  ∃ sign digits, digits ≠ [] ∧ text = sign.text ++ Digit.text digits ∧
    n = Sign.apply sign (Digit.toNat digits)

/-- Where a minus sign is allowed, only the value tells whether a number is within the width. -/
theorem IntegerWidth.spells_iff {deepest : Nat} (h : width.deepest = some deepest) {n : Int} :
    width.Spells text n ↔ IsDecimal text n ∧ -(deepest : Int) ≤ n ∧ n ≤ width.largest := by
  constructor
  · rintro ⟨sign, digits, hdigits, htext, rfl, limit, hlimit, hfits⟩
    refine ⟨⟨sign, digits, hdigits, htext, rfl⟩, ?_⟩
    cases sign with
    | minus =>
      cases h.symm.trans hlimit
      simp only [Sign.apply]
      omega
    | plus =>
      cases hlimit
      simp only [Sign.apply]
      omega
    | absent =>
      cases hlimit
      simp only [Sign.apply]
      omega
  · rintro ⟨⟨sign, digits, hdigits, htext, rfl⟩, hlow, hhigh⟩
    refine ⟨sign, digits, hdigits, htext, rfl, ?_⟩
    cases sign with
    | minus => exact ⟨deepest, h, Int.ofNat_le.1 (Int.neg_le_neg_iff.1 hlow)⟩
    | plus => exact ⟨width.largest, rfl, Int.ofNat_le.1 hhigh⟩
    | absent => exact ⟨width.largest, rfl, Int.ofNat_le.1 hhigh⟩

/-- What is wrong with a text that is no integer of the width. -/
inductive IntegerWidth.Fault (width : IntegerWidth) : List Char → IntegerError → Prop
  | empty : Fault width [] .empty
  | sign {text : List Char} (hsome : text ≠ []) (hsign : width.limit? (splitSign text).1 = none) :
    Fault width text .invalidDigit
  | magnitude {text : List Char} {limit : Nat} {e : IntegerError} (hsome : text ≠ [])
    (hlimit : width.limit? (splitSign text).1 = some limit)
    (hfault : MagnitudeFault limit (splitSign text).1.overflow (splitSign text).2 e) :
    Fault width text e

theorem readInteger_eq_ok_iff {n : Int} : readInteger width text = .ok n ↔ width.Spells text n := by
  constructor
  · intro h
    by_cases hne : text = []
    · rw [hne] at h
      cases h
    · rw [readInteger_of_ne_nil width hne] at h
      split at h
      · cases h
      next limit hlimit =>
        cases hread : readMagnitude limit (splitSign text).1.overflow (splitSign text).2 with
        | error e =>
          rw [hread] at h
          cases h
        | ok magnitude =>
          rw [hread] at h
          cases h
          obtain ⟨digits, hdigits, htext, hfits, rfl⟩ := readMagnitude_eq_ok_iff.1 hread
          refine ⟨_, digits, hdigits, ?_, rfl, limit, hlimit, hfits⟩
          rw [htext, text_splitSign]
  · rintro ⟨sign, digits, hdigits, rfl, rfl, limit, hlimit, hfits⟩
    have hne : sign.text ++ Digit.text digits ≠ [] := fun hnil =>
      hdigits (List.map_eq_nil_iff.1 (List.append_eq_nil_iff.1 hnil).2)
    rw [readInteger_of_ne_nil width hne, splitSign_text sign hdigits]
    dsimp only
    rw [hlimit]
    dsimp only
    rw [readMagnitude_eq_ok hdigits hfits]
    rfl

theorem readInteger_eq_error_iff {e : IntegerError} :
    readInteger width text = .error e ↔ width.Fault text e := by
  constructor
  · intro h
    by_cases hne : text = []
    · rw [hne] at h ⊢
      cases h
      exact .empty
    · rw [readInteger_of_ne_nil width hne] at h
      split at h
      · next hlimit =>
        cases h
        exact .sign hne hlimit
      · next limit hlimit =>
        refine .magnitude hne hlimit (readMagnitude_eq_error_iff.1 ?_)
        cases hread : readMagnitude limit (splitSign text).1.overflow (splitSign text).2 with
        | error e' =>
          rw [hread] at h
          cases h
          rfl
        | ok magnitude =>
          rw [hread] at h
          cases h
  · intro h
    cases h with
    | empty => rfl
    | sign hsome hsign =>
      rw [readInteger_of_ne_nil width hsome, hsign]
    | magnitude hsome hlimit hfault =>
      rw [readInteger_of_ne_nil width hsome, hlimit]
      dsimp only
      rw [hfault.readMagnitude_eq]
      rfl

end Text

end LSystem
