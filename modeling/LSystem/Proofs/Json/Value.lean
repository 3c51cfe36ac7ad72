import LSystem.Error
import LSystem.Json.Value

/-!
# Plain values read back

Texts, integers, numbers and optional values are read from the JSON values that
they are written as. Of a number this is assumed digit by digit, in the form
that the numeral it is written as stands for the same number again. Texts and
integers are read from no other values, and numbers from numerals alone.
-/

namespace LSystem

/-- The numeral that a number is written as, if there is one, stands for this number. -/
def ReadsBack {α : Type} [NumberText α] (x : α) : Prop :=
  ∀ numeral ∈ NumberText.toNumeral? x, NumberText.ofNumeral? numeral = some x

instance {α : Type} [NumberText α] [DecidableEq α] (x : α) : Decidable (ReadsBack x) :=
  inferInstanceAs (Decidable (∀ _ ∈ _, _))

theorem exists_toNumeral?_of_isFinite {x : Float} (h : x.isFinite = true) :
    ∃ numeral, NumberText.toNumeral? x = some numeral := by
  show ∃ numeral, Numeral.ofFloat? x = some numeral
  unfold Numeral.ofFloat?
  rw [if_pos h]
  dsimp only
  split
  · exact ⟨_, rfl⟩
  · exact ⟨_, rfl⟩

theorem Numeral.toInt?_ofInt (n : Int) : (ofInt n).toInt? = some n := by
  rw [toInt?, ofInt]
  by_cases hnegative : n < 0
  · have hwhole : ¬ n.natAbs = 0 := by omega
    have hvalue : -(n.natAbs : Int) = n := by omega
    simp only [decide_eq_true hnegative, decide_eq_false hwhole, hvalue]
    rfl
  · have hvalue : (n.natAbs : Int) = n := by omega
    simp only [decide_eq_false hnegative, hvalue]
    rfl

theorem Numeral.toInt?_eq_some_iff {numeral : Numeral} {n : Int} :
    numeral.toInt? = some n ↔ numeral = ofInt n := by
  constructor
  · intro h
    obtain ⟨negative, whole, fraction, exponent⟩ := numeral
    rw [toInt?] at h
    split at h
    · next hplain =>
      simp only [Bool.and_eq_true, List.isEmpty_iff, Option.isNone_iff_eq_none, Bool.not_eq_true',
        Bool.and_eq_false_iff, decide_eq_false_iff_not] at hplain
      obtain ⟨⟨rfl, rfl⟩, hsign⟩ := hplain
      cases h
      cases negative with
      | true =>
        have hwhole : ¬whole = 0 := hsign.resolve_left Bool.noConfusion
        have hpositive : 0 < whole := by omega
        simp [ofInt, hpositive]
      | false =>
        have hge : ¬(whole : Int) < 0 := by omega
        simp [ofInt, hge]
    · cases h
  · rintro rfl
    exact toInt?_ofInt n

namespace Json

theorem toString?_eq_some_iff {value : Json} {text : String} :
    value.toString? = some text ↔ value = .ofString text := by
  constructor
  · intro h
    unfold toString? at h
    split at h
    · rw [h]
      rfl
    · cases h
  · rintro rfl
    rfl

theorem toIntIn?_eq_some_iff {low high n : Int} {value : Json} :
    value.toIntIn? low high = some n ↔ value = .ofInt n ∧ low ≤ n ∧ n ≤ high := by
  unfold toIntIn?
  split
  · next numeral =>
    simp only [Numeral.toIntIn?, Option.filter_eq_some_iff, Numeral.toInt?_eq_some_iff,
      Bool.and_eq_true, decide_eq_true_eq, ofInt, number.injEq]
  · next hnot =>
    simp only [reduceCtorEq, false_iff, not_and]
    rintro rfl
    exact absurd rfl (hnot _)

theorem toScalar?_eq_some_iff {α : Type} [NumberText α] {value : Json} {x : α} :
    value.toScalar? = some x ↔
      ∃ numeral, value = .number numeral ∧ NumberText.ofNumeral? numeral = some x := by
  constructor
  · intro h
    unfold toScalar? at h
    split at h
    · next numeral => exact ⟨numeral, rfl, h⟩
    · cases h
  · rintro ⟨numeral, rfl, h⟩
    exact h

theorem toIntIn?_ofInt {low high n : Int} (hlow : low ≤ n) (hhigh : n ≤ high) :
    (ofInt n).toIntIn? low high = some n := by
  have hin : (decide (low ≤ n) && decide (n ≤ high)) = true := by
    rw [decide_eq_true hlow, decide_eq_true hhigh, Bool.and_self]
  show (Numeral.ofInt n).toInt?.filter _ = _
  rw [Numeral.toInt?_ofInt, Option.filter_some, if_pos hin]

theorem toScalar?_ofScalar {x : Float} (hfinite : x.isFinite = true) (hreads : ReadsBack x) :
    (ofScalar x).toScalar? = some x := by
  obtain ⟨numeral, hnumeral⟩ := exists_toNumeral?_of_isFinite hfinite
  rw [ofScalar, hnumeral]
  exact hreads numeral hnumeral

theorem toOption?_of_ne_null {β : Type} (read : Json → Option β) {value : Json}
    (h : value ≠ .null) : value.toOption? read = (read value).map some := by
  cases value with
  | null => exact absurd rfl h
  | bool b => rfl
  | number n => rfl
  | string text => rfl
  | array items => rfl
  | object members => rfl

/-- An absent value is written as null, any other in its own way. -/
def OptionWrittenAs {β : Type} (written : β → Json → Prop) : Option β → Json → Prop
  | none, value => value = .null
  | some b, value => written b value

theorem toOption?_eq_some_iff {β : Type} {read : Json → Option β} {written : β → Json → Prop}
    (hread : ∀ {value b}, read value = some b ↔ written b value) (hnull : read .null = none)
    {value : Json} {b? : Option β} :
    value.toOption? read = some b? ↔ OptionWrittenAs written b? value := by
  by_cases h : value = .null
  · subst h
    cases b? with
    | none => simp [toOption?, OptionWrittenAs]
    | some b => simp [toOption?, OptionWrittenAs, ← hread, hnull]
  · rw [toOption?_of_ne_null read h]
    cases b? with
    | none => simp [OptionWrittenAs, h]
    | some b => simp [OptionWrittenAs, hread]

/-- A value that is read back is not taken for an absent one, if null is not read. -/
theorem toOption?_ofOption {β : Type} {write : β → Json} {read : Json → Option β}
    (hnull : read .null = none) {b? : Option β} (h : ∀ b ∈ b?, read (write b) = some b) :
    (ofOption write b?).toOption? read = some b? := by
  cases b? with
  | none => rfl
  | some b =>
    have hb := h b rfl
    have hne : write b ≠ .null := by
      intro hwrite
      rw [hwrite, hnull] at hb
      cases hb
    rw [ofOption, toOption?_of_ne_null read hne, hb, Option.map_some]

theorem keyed?_of_keys (members : List (String × Json)) :
    keyed? (members.map fun (key, value) => (some key, value)) = some members := by
  induction members with
  | nil => rfl
  | cons member members ih =>
    rw [keyed?] at ih
    rw [keyed?, List.map_cons, List.mapM_cons, ih]
    rfl

theorem keyed?_eq_some_iff {members : List (Option String × Json)}
    {keyed : List (String × Json)} :
    keyed? members = some keyed ↔ members = keyed.map fun (key, value) => (some key, value) := by
  constructor
  · apply eq_map_of_mapM_eq_some
    rintro ⟨_ | key, value⟩ ⟨key', value'⟩ h
    · cases h
    · cases h
      rfl
  · rintro rfl
    exact keyed?_of_keys keyed

end Json

end LSystem
