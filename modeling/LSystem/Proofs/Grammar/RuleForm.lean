import Mathlib.Algebra.Ring.Int.Defs
import LSystem.Proofs.Double
import LSystem.Proofs.Grammar.RuleText
import LSystem.Proofs.Text.Integer
import Mathlib.Data.List.Basic

/-!
# The form of rules

A rule is written as a character that may be a name, a body, and a decimal
integer of 32 bits, with a colon between them and no other colon. Main fact:
these texts are read, and nothing that matters is lost: the rule has just this
name and distance and a letter for each character of the body. Every other text
is refused by the first check that fails.
-/

namespace LSystem

theorem isReserved_iff {c : Char} : isReserved c = true ↔ c ∈ ['+', '-', '[', ']'] := by
  simp only [isReserved, Bool.or_eq_true, decide_eq_true_eq, or_assoc, List.mem_cons,
    List.not_mem_nil, or_false]

/-! ### Bodies -/

/-- The character that a letter of a body was written as, told from its number where it turns. -/
def Letter.toChar? (angle : Float) : Letter Float → Option Char
  | .move _ => none
  | .turn a => some (if a == angle then '+' else '-')
  | .enter => some '['
  | .leave => some ']'
  | .rule name => some name

theorem Letter.toChar?_ofChar {angle : Float} (hfinite : angle.isFinite = true)
    (hnonzero : Scalar.isZero angle = false) (c : Char) :
    (ofChar angle c).toChar? angle = some c := by
  unfold ofChar
  split
  · next hc =>
    rw [toChar?, Double.beq_self hfinite, if_pos rfl, hc]
  split
  · next hc =>
    rw [toChar?, Double.neg_beq_self hfinite hnonzero, if_neg Bool.false_ne_true, hc]
  split
  · next hc => rw [toChar?, hc]
  split
  · next hc => rw [toChar?, hc]
  · rfl

theorem Letter.mapM_toChar?_ofText {angle : Float} (hfinite : angle.isFinite = true)
    (hnonzero : Scalar.isZero angle = false) (text : List Char) :
    (ofText angle text).mapM (toChar? angle) = some text :=
  mapM_map_eq_some fun c _ => toChar?_ofChar hfinite hnonzero c

/-! ### Fields -/

/-- The encoding is made up of three fields with colons between them. -/
structure ThreeFields (encoding : String) (name body distance : List Char) : Prop where
  parts : encoding.toList = name ++ ':' :: (body ++ ':' :: distance)
  name : ':' ∉ name
  body : ':' ∉ body
  distance : ':' ∉ distance

variable {encoding : String} {nameText body distanceText : List Char} {name : Char} {e : Error}

theorem ThreeFields.fields_eq (h : ThreeFields encoding nameText body distanceText) :
    Text.fields ':' encoding.toList = [nameText, body, distanceText] := by
  rw [h.parts, Text.fields_append_cons h.name, Text.fields_append_cons h.body,
    Text.fields_of_not_mem h.distance]

theorem exists_threeFields (h : encoding.toList.count ':' = 2) :
    ∃ nameText body distanceText, ThreeFields encoding nameText body distanceText := by
  have hlength := Text.length_fields ':' encoding.toList
  rw [h] at hlength
  obtain ⟨nameText, body, distanceText, hfields⟩ := List.length_eq_three.1 hlength
  have hfree := Text.not_mem_of_mem_fields ':' encoding.toList
  have hparts := Text.intercalate_fields ':' encoding.toList
  rw [hfields] at hfree hparts
  refine ⟨nameText, body, distanceText, ?_, ?_, ?_, ?_⟩
  · rw [← hparts]
    simp [List.intercalate_cons_cons]
  · exact hfree nameText (by simp)
  · exact hfree body (by simp)
  · exact hfree distanceText (by simp)

namespace RuleText

theorem parse_of_threeFields (h : ThreeFields encoding nameText body distanceText) :
    parse encoding = (Rule.parseName nameText).bind fun name =>
      (Rule.parseDistance name distanceText).map fun distance => ⟨name, body, distance⟩ := by
  unfold parse
  rw [h.fields_eq]
  rfl

theorem parse_of_count (h : encoding.toList.count ':' ≠ 2) :
    parse encoding = .error (.ruleFields encoding) := by
  have hlength := Text.length_fields ':' encoding.toList
  unfold parse
  split
  · next hfields =>
    rw [hfields] at hlength
    exact absurd (Nat.succ.inj hlength).symm h
  · rfl

/-! ### Texts of the form -/

/-- The encoding is the name, the body and the distance, with colons between them. -/
structure WrittenAs (text : RuleText) (encoding : String) : Prop where
  name : text.name ∉ [':', '+', '-', '[', ']']
  body : ':' ∉ text.body
  distance : -2 ^ 31 ≤ text.distance ∧ text.distance ≤ 2 ^ 31 - 1
  form : ∃ digits, Text.IsDecimal digits text.distance ∧
    encoding.toList = text.name :: ':' :: (text.body ++ ':' :: digits)

/-- What is wrong with an encoding that has not the form: the first check that fails. -/
inductive Fault (encoding : String) : Error → Prop
  | fields (hcount : encoding.toList.count ':' ≠ 2) : Fault encoding (.ruleFields encoding)
  | name {nameText body distanceText : List Char}
    (hfields : ThreeFields encoding nameText body distanceText) (hlength : nameText.length ≠ 1) :
    Fault encoding (.ruleName (String.ofList nameText))
  | reserved {name : Char} {body distanceText : List Char}
    (hfields : ThreeFields encoding [name] body distanceText)
    (hreserved : name ∈ ['+', '-', '[', ']']) : Fault encoding (.ruleNameReserved name)
  | distance {name : Char} {body distanceText : List Char} {cause : Text.IntegerError}
    (hfields : ThreeFields encoding [name] body distanceText)
    (hfree : name ∉ ['+', '-', '[', ']'])
    (hfault : Text.IntegerWidth.signed32.Fault distanceText cause) :
    Fault encoding (.ruleDistance name (String.ofList distanceText) cause)

theorem parseName_of_length (h : nameText.length ≠ 1) :
    Rule.parseName nameText = .error (.ruleName (String.ofList nameText)) := by
  unfold Rule.parseName
  split
  · exact absurd rfl h
  · rfl

theorem parseName_of_free (h : name ∉ ['+', '-', '[', ']']) : Rule.parseName [name] = .ok name :=
  if_neg fun hreserved => h (isReserved_iff.1 hreserved)

theorem parseName_of_reserved (h : name ∈ ['+', '-', '[', ']']) :
    Rule.parseName [name] = .error (.ruleNameReserved name) :=
  if_pos (isReserved_iff.2 h)

theorem colon_not_mem_of_isDecimal {text : List Char} {n : Int} (h : Text.IsDecimal text n) :
    ':' ∉ text := by
  have hdigit : ∀ d : Digit, d.toChar ≠ ':' := by decide
  obtain ⟨sign, digits, _, rfl, _⟩ := h
  intro hmem
  rcases List.mem_append.1 hmem with hsign | hdigits
  · cases sign <;> exact absurd hsign (by decide)
  · obtain ⟨d, _, hd⟩ := List.mem_map.1 hdigits
    exact hdigit d hd

theorem WrittenAs.threeFields {text : RuleText} (h : text.WrittenAs encoding) :
    ∃ digits, ThreeFields encoding [text.name] text.body digits ∧
      Text.IntegerWidth.signed32.Spells digits text.distance := by
  obtain ⟨digits, hdecimal, hparts⟩ := h.form
  refine ⟨digits, ⟨hparts, ?_, h.body, colon_not_mem_of_isDecimal hdecimal⟩, ?_⟩
  · intro hcolon
    exact h.name (List.mem_singleton.1 hcolon ▸ List.mem_cons_self)
  · exact (Text.IntegerWidth.spells_iff rfl).2 ⟨hdecimal, h.distance⟩

theorem WrittenAs.parse_eq {text : RuleText} (h : text.WrittenAs encoding) :
    parse encoding = .ok text := by
  obtain ⟨digits, hfields, hspells⟩ := h.threeFields
  have hfree : text.name ∉ ['+', '-', '[', ']'] := fun hmem => h.name (List.mem_cons_of_mem _ hmem)
  rw [parse_of_threeFields hfields, parseName_of_free hfree]
  show (Rule.parseDistance text.name digits).map _ = _
  rw [Rule.parseDistance, Text.readInteger_eq_ok_iff.2 hspells]
  rfl

theorem Fault.parse_eq (h : Fault encoding e) : parse encoding = .error e := by
  cases h with
  | fields hcount => exact parse_of_count hcount
  | name hfields hlength =>
    rw [parse_of_threeFields hfields, parseName_of_length hlength]
    rfl
  | reserved hfields hreserved =>
    rw [parse_of_threeFields hfields, parseName_of_reserved hreserved]
    rfl
  | @distance name body distanceText cause hfields hfree hfault =>
    rw [parse_of_threeFields hfields, parseName_of_free hfree]
    show (Rule.parseDistance name distanceText).map _ = _
    rw [Rule.parseDistance, Text.readInteger_eq_error_iff.2 hfault]
    rfl

theorem writtenAs_or_fault (encoding : String) :
    (∃ text : RuleText, text.WrittenAs encoding) ∨ ∃ e, Fault encoding e := by
  by_cases hcount : encoding.toList.count ':' = 2
  · obtain ⟨nameText, body, distanceText, hfields⟩ := exists_threeFields hcount
    by_cases hlength : nameText.length = 1
    · obtain ⟨name, rfl⟩ := List.length_eq_one_iff.1 hlength
      by_cases hreserved : name ∈ ['+', '-', '[', ']']
      · exact .inr ⟨_, .reserved hfields hreserved⟩
      · cases hread : Text.readInteger .signed32 distanceText with
        | error cause =>
          exact .inr ⟨_, .distance hfields hreserved (Text.readInteger_eq_error_iff.1 hread)⟩
        | ok n =>
          obtain ⟨hdecimal, hrange⟩ := (Text.IntegerWidth.spells_iff rfl).1
            (Text.readInteger_eq_ok_iff.1 hread)
          have hcolon : name ≠ ':' := fun hname => hfields.name (List.mem_singleton.2 hname.symm)
          have hfree := List.not_mem_cons_of_ne_of_not_mem hcolon hreserved
          exact .inl ⟨⟨name, body, n⟩, hfree, hfields.body, hrange, distanceText, hdecimal,
            hfields.parts⟩
    · exact .inr ⟨_, .name hfields hlength⟩
  · exact .inr ⟨_, .fields hcount⟩

theorem parse_eq_ok_iff {text : RuleText} :
    parse encoding = .ok text ↔ text.WrittenAs encoding := by
  refine ⟨fun h => ?_, WrittenAs.parse_eq⟩
  rcases writtenAs_or_fault encoding with ⟨other, hother⟩ | ⟨e, hfault⟩
  · cases hother.parse_eq.symm.trans h
    exact hother
  · cases hfault.parse_eq.symm.trans h

theorem parse_eq_error_iff : parse encoding = .error e ↔ Fault encoding e := by
  refine ⟨fun h => ?_, Fault.parse_eq⟩
  rcases writtenAs_or_fault encoding with ⟨text, htext⟩ | ⟨other, hother⟩
  · cases htext.parse_eq.symm.trans h
  · cases hother.parse_eq.symm.trans h
    exact hother

theorem Fault.isConfiguration (h : Fault encoding e) : e.isConfiguration = true := by
  cases h <;> rfl

/-- What a rule keeps of its text at a turn angle. -/
structure KeptBy (text : RuleText) (angle : Float) (rule : Rule Float) : Prop where
  name : rule.name = text.name
  distance : rule.distance = text.distance
  body : rule.body = text.body.map (Letter.ofChar angle)
  isTerminal : rule.isTerminal = true ↔ text.body = []
  readBack : angle.isFinite = true → Scalar.isZero angle = false →
    rule.body.mapM (Letter.toChar? angle) = some text.body
  replaced : ∀ depth, rule.replacement depth ≠ []

theorem keptBy_rule (text : RuleText) (angle : Float) : text.KeptBy angle (text.rule angle) where
  name := rfl
  distance := rfl
  body := rfl
  isTerminal := by
    rw [Rule.isTerminal, List.isEmpty_iff]
    exact List.map_eq_nil_iff
  readBack hfinite hnonzero := Letter.mapM_toChar?_ofText hfinite hnonzero text.body
  replaced := (text.rule angle).replacement_ne_nil

theorem KeptBy.eq_rule {text : RuleText} {angle : Float} {rule : Rule Float}
    (h : text.KeptBy angle rule) : rule = text.rule angle := by
  obtain ⟨hname, hdistance, hbody, _, _, _⟩ := h
  cases rule
  cases hname
  cases hdistance
  cases hbody
  rfl

end RuleText

namespace Rule

/-- A rule is read from just the texts of the form of rules, with all that they say, and from any
other text there is the error of the first check that fails. -/
theorem parse_reads_form (angle : Float) (encoding : String) :
    (∀ rule, parse angle encoding = .ok rule ↔
      ∃ text : RuleText, text.WrittenAs encoding ∧ text.KeptBy angle rule) ∧
    (∀ e, parse angle encoding = .error e ↔ RuleText.Fault encoding e) ∧
    ∀ e, RuleText.Fault encoding e → e.isConfiguration = true := by
  rw [parse_eq]
  refine ⟨fun rule => ⟨fun h => ?_, ?_⟩, fun e => ?_, fun e => RuleText.Fault.isConfiguration⟩
  · obtain ⟨text, htext, rfl⟩ := exists_of_map_eq_ok h
    exact ⟨text, RuleText.parse_eq_ok_iff.1 htext, text.keptBy_rule angle⟩
  · rintro ⟨text, hwritten, hkept⟩
    rw [hwritten.parse_eq, hkept.eq_rule]
    rfl
  · rw [← RuleText.parse_eq_error_iff]
    cases RuleText.parse encoding with
    | error e' => simp [Except.map]
    | ok text => simp [Except.map]

/-- A name outside of ASCII, a body that turns and branches, and zeros in front of the distance. -/
def umlaut : RuleText := ⟨'ä', ['+', 'ä', '[', '-', ']'], -7⟩

theorem parse_reads_form_umlaut :
    let rule := umlaut.rule 22.5
    umlaut.WrittenAs "ä:+ä[-]:-007" ∧ parse 22.5 "ä:+ä[-]:-007" = .ok rule ∧
      (22.5 : Float).isFinite = true ∧ Scalar.isZero (22.5 : Float) = false ∧
      rule.body.mapM (Letter.toChar? 22.5) = some umlaut.body ∧
      parse 22.5 "ä::2147483648" = .error (.ruleDistance 'ä' "2147483648" .tooLarge) := by
  intro rule
  have hdecimal : Text.IsDecimal ['-', '0', '0', '7'] (-7) :=
    ⟨.minus, [0, 0, 7], by decide, by decide, by decide⟩
  have hwritten : umlaut.WrittenAs "ä:+ä[-]:-007" :=
    ⟨by decide, by decide, by decide, _, hdecimal, by decide⟩
  have hfinite : (22.5 : Float).isFinite = true := by decide +kernel
  have hnonzero : Scalar.isZero (22.5 : Float) = false := by decide +kernel
  have hkept := umlaut.keptBy_rule 22.5
  have hlarge : Text.IntegerWidth.signed32.Fault "2147483648".toList .tooLarge :=
    Text.readInteger_eq_error_iff.1 (by decide +kernel)
  have hfields : ThreeFields "ä::2147483648" ['ä'] [] "2147483648".toList :=
    ⟨by decide, by decide, by decide, by decide⟩
  have hfault := RuleText.Fault.distance hfields (by decide) hlarge
  rw [String.ofList_toList] at hfault
  exact ⟨hwritten, ((parse_reads_form 22.5 _).1 rule).2 ⟨umlaut, hwritten, hkept⟩, hfinite,
    hnonzero, hkept.readBack hfinite hnonzero, ((parse_reads_form 22.5 _).2.1 _).2 hfault⟩

end Rule

end LSystem
