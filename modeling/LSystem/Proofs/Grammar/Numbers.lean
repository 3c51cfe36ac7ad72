import LSystem.Proofs.Double
import LSystem.Proofs.Grammar.Nesting
import LSystem.Proofs.Grammar.RuleText
import LSystem.Proofs.Turtle.ScriptJson

/-!
# Numbers of generated scripts

A script that is generated holds no numbers but the turn angle, to either side,
and the numbers of the rules: the distances that they contract to, and what
stands in their bodies. Distances are read as integers of 32 bits, so that all
of them are finite once the angles are, and the script is what its written form
is parsed as.
-/

namespace LSystem

variable {α : Type}

def Letter.number? : Letter α → Option α
  | .move d => some d
  | .turn a => some a
  | .enter => none
  | .leave => none
  | .rule _ => none

theorem Command.number?_letter (command : Command α) :
    command.letter.number? = command.number? := by
  cases command <;> rfl

variable [Scalar α]

theorem Letter.number?_ofText {angle x : α} {text : List Char} {letter : Letter α}
    (hletter : letter ∈ ofText angle text) (hx : letter.number? = some x) :
    x = angle ∨ x = -angle := by
  obtain ⟨c, _, rfl⟩ := List.mem_map.1 hletter
  unfold ofChar at hx
  split at hx
  · exact .inl (Option.some.inj hx).symm
  split at hx
  · exact .inr (Option.some.inj hx).symm
  split at hx
  · cases hx
  split at hx
  · cases hx
  · cases hx

/-- The numbers that a rule can put into a word: the distance it contracts to and those of its
body. -/
def Rule.numbers (rule : Rule α) : List α :=
  Scalar.ofInt rule.distance :: rule.body.filterMap Letter.number?

namespace RuleTable

def numbers (table : RuleTable α) : List α := table.rules.flatMap Rule.numbers

theorem mem_numbers_of_get? {table : RuleTable α} {name : Char} {rule : Rule α}
    (h : table.get? name = some rule) {x : α} (hx : x ∈ rule.numbers) : x ∈ table.numbers :=
  List.mem_flatMap.2 ⟨rule, List.mem_of_find?_eq_some h, hx⟩

/-! ### Numbers of derivations -/

theorem exists_letter_of_deriveWord? {table : RuleTable α} {depth : Nat} {word : List (Letter α)}
    {commands : List (Command α)} (h : table.deriveWord? depth word = some commands)
    {command : Command α} (hcommand : command ∈ commands) :
    ∃ letter ∈ word, ∃ derived, table.derive? depth letter = some derived ∧ command ∈ derived := by
  obtain ⟨hdefined, rfl⟩ := deriveWord?_eq_some_iff.1 h
  obtain ⟨letter, hletter, hcommand⟩ := List.mem_flatMap.1 hcommand
  obtain ⟨derived, hderived⟩ := Option.isSome_iff_exists.1 (hdefined letter hletter)
  rw [hderived, Option.getD_some] at hcommand
  exact ⟨letter, hletter, derived, hderived, hcommand⟩

theorem number?_of_substitute {table : RuleTable α} {depth : Nat} {letter : Letter α}
    {body : List (Letter α)} (h : Expansion.substitute table depth letter = .ok body)
    {inner : Letter α} (hinner : inner ∈ body) {x : α} (hx : inner.number? = some x) :
    letter.number? = some x ∨ x ∈ table.numbers := by
  have hkept (hbody : body = [letter]) : letter.number? = some x := by
    rw [hbody] at hinner
    rwa [List.mem_singleton.1 hinner] at hx
  cases letter with
  | rule name =>
    unfold Expansion.substitute at h
    dsimp only at h
    split at h
    · cases h
    next rule hrule =>
      cases h
      refine .inr (mem_numbers_of_get? hrule ?_)
      unfold Rule.replacement at hinner
      split at hinner
      · rw [List.mem_singleton.1 hinner] at hx
        exact List.mem_cons.2 (.inl (Option.some.inj hx).symm)
      · exact List.mem_cons_of_mem _ (List.mem_filterMap.2 ⟨inner, hinner, hx⟩)
  | move d => exact .inl (hkept (Except.ok.inj h).symm)
  | turn a => exact .inl (hkept (Except.ok.inj h).symm)
  | enter => exact .inl (hkept (Except.ok.inj h).symm)
  | leave => exact .inl (hkept (Except.ok.inj h).symm)

/-- A number that a letter derives is its own or one of the rules'. -/
theorem number?_of_derive? {table : RuleTable α} {depth : Nat} {letter : Letter α}
    {derived : List (Command α)} (h : table.derive? depth letter = some derived)
    {command : Command α} (hcommand : command ∈ derived) {x : α} (hx : command.number? = some x) :
    letter.number? = some x ∨ x ∈ table.numbers := by
  induction depth generalizing letter derived with
  | zero =>
    rw [derive?_zero] at h
    split at h
    · cases h
    next body hbody =>
      rw [Letter.eq_map_letter_of_mapM h] at hbody
      rw [← command.number?_letter] at hx
      exact number?_of_substitute hbody (List.mem_map_of_mem hcommand) hx
  | succ depth ih =>
    rw [derive?_succ] at h
    split at h
    · cases h
    next body hbody =>
      obtain ⟨inner, hinner, below, hbelow, hcommand⟩ := exists_letter_of_deriveWord? h hcommand
      rcases ih hbelow hcommand with hnumber | hrules
      · exact number?_of_substitute hbody hinner hnumber
      · exact .inr hrules

end RuleTable

/-! ### Numbers of scripts -/

theorem Expansion.mem_numbers_of_expand {table : RuleTable α} {angle : α} {seed : String}
    {iterations : Nat} {script : Script α} (h : expand table angle seed iterations = .ok script)
    {x : α} (hx : x ∈ script.numbers) : x = angle ∨ x = -angle ∨ x ∈ table.numbers := by
  obtain ⟨command, hcommand, hx⟩ := Script.mem_numbers.1 hx
  obtain ⟨letter, hletter, derived, hderived, hcommand⟩ :=
    RuleTable.exists_letter_of_deriveWord? (expand_eq_ok_iff.1 h) hcommand
  rcases RuleTable.number?_of_derive? hderived hcommand hx with hnumber | hrules
  · rcases Letter.number?_ofText hletter hnumber with hleft | hright
    · exact .inl hleft
    · exact .inr (.inl hright)
  · exact .inr (.inr hrules)

/-! ### Distances -/

namespace Text

theorem le_of_readDigits {limit value n : Nat} {overflow : IntegerError} {text : List Char}
    (h : readDigits limit overflow value text = .ok n) (hvalue : value ≤ limit) : n ≤ limit := by
  induction text generalizing value with
  | nil =>
    cases h
    exact hvalue
  | cons c rest ih =>
    unfold readDigits at h
    split at h
    · cases h
    split at h
    · cases h
    next hfits => exact ih h (Nat.not_lt.1 hfits)

theorem le_of_readMagnitude {limit n : Nat} {overflow : IntegerError} {text : List Char}
    (h : readMagnitude limit overflow text = .ok n) : n ≤ limit := by
  unfold readMagnitude at h
  split at h
  · cases h
  · exact le_of_readDigits h (Nat.zero_le limit)

theorem natAbs_le_of_map_readMagnitude {limit : Nat} {overflow : IntegerError} {text : List Char}
    {n : Int} (h : (readMagnitude limit overflow text).map Int.ofNat = .ok n) :
    n.natAbs ≤ limit := by
  cases hread : readMagnitude limit overflow text with
  | error e =>
    rw [hread] at h
    cases h
  | ok magnitude =>
    rw [hread] at h
    cases h
    exact le_of_readMagnitude hread

/-- An integer that is read is within its width. -/
theorem natAbs_le_of_readInteger {width : IntegerWidth} {text : List Char} {n : Int}
    (h : readInteger width text = .ok n) :
    n.natAbs ≤ max width.largest (width.deepest.getD 0) := by
  unfold readInteger at h
  split at h
  · cases h
  · exact (natAbs_le_of_map_readMagnitude h).trans (Nat.le_max_left _ _)
  · next digits =>
    split at h
    · cases h
    next deepest hdeepest =>
      rw [hdeepest]
      cases hread : readMagnitude deepest .tooSmall digits with
      | error e =>
        rw [hread] at h
        cases h
      | ok magnitude =>
        rw [hread] at h
        cases h
        rw [Int.natAbs_neg, Int.natAbs_natCast]
        exact (le_of_readMagnitude hread).trans (Nat.le_max_right _ _)
  · exact (natAbs_le_of_map_readMagnitude h).trans (Nat.le_max_left _ _)

end Text

namespace RuleText

theorem natAbs_distance_of_parse {encoding : String} {text : RuleText}
    (h : parse encoding = .ok text) : text.distance.natAbs ≤ 2 ^ 31 := by
  unfold parse at h
  split at h
  · next nameText body distanceText hfields =>
    obtain ⟨name, _, h⟩ := exists_of_bind_eq_ok h
    obtain ⟨distance, hdistance, h⟩ := exists_of_bind_eq_ok h
    cases h
    unfold Rule.parseDistance at hdistance
    cases hread : Text.readInteger .signed32 distanceText with
    | error e =>
      rw [hread] at hdistance
      cases hdistance
    | ok n =>
      rw [hread] at hdistance
      cases hdistance
      exact Text.natAbs_le_of_readInteger hread
  · cases h

end RuleText

/-- A table that is read holds no numbers but the turn angle, to either side, and integers of 32
bits. -/
theorem RuleTable.mem_numbers_of_parse {angle : α} {encodings : List String} {table : RuleTable α}
    (h : parse angle encodings = .ok table) {x : α} (hx : x ∈ table.numbers) :
    x = angle ∨ x = -angle ∨ ∃ n : Int, n.natAbs ≤ 2 ^ 31 ∧ x = Scalar.ofInt n := by
  obtain ⟨texts, hread, _, hrules⟩ := exists_texts_of_parse h
  obtain ⟨rule, hrule, hx⟩ := List.mem_flatMap.1 hx
  obtain ⟨text, htext, rfl⟩ := (hrules rule).1 hrule
  rcases List.mem_cons.1 hx with rfl | hbody
  · have hsmall := RuleText.forall_mem_of_mapM
      (fun _ _ => RuleText.natAbs_distance_of_parse) hread text htext
    exact .inr (.inr ⟨text.distance, hsmall, rfl⟩)
  · obtain ⟨letter, hletter, hnumber⟩ := List.mem_filterMap.1 hbody
    rcases Letter.number?_ofText hletter hnumber with hleft | hright
    · exact .inl hleft
    · exact .inr (.inl hright)

/-! ### Finite numbers -/

theorem RuleTable.isFinite_of_parse {angle : Float} {encodings : List String}
    {table : RuleTable Float} (hangle : angle.isFinite = true)
    (h : parse angle encodings = .ok table) : ∀ x ∈ table.numbers, x.isFinite = true := by
  intro x hx
  rcases mem_numbers_of_parse h hx with rfl | rfl | ⟨n, hn, rfl⟩
  · exact hangle
  · exact Double.isFinite_neg hangle
  · exact Double.isFinite_ofInt (hn.trans_lt (by decide))

namespace Expansion

theorem isFinite_of_expand {table : RuleTable Float} {angle : Float} {seed : String}
    {iterations : Nat} {script : Script Float} (hangle : angle.isFinite = true)
    (htable : ∀ x ∈ table.numbers, x.isFinite = true)
    (h : expand table angle seed iterations = .ok script) :
    ∀ x ∈ script.numbers, x.isFinite = true := by
  intro x hx
  rcases mem_numbers_of_expand h hx with rfl | rfl | hrules
  · exact hangle
  · exact Double.isFinite_neg hangle
  · exact htable x hrules

/-- All numbers of a script that is generated are finite, as those of every table that is read at
a finite angle are; and a script with finite numbers, generated or not, is what both of its written
forms are parsed as, provided that its numbers are read back. -/
theorem parse_generated :
    (∀ (angle : Float) (encodings : List String) (table : RuleTable Float),
      angle.isFinite = true → RuleTable.parse angle encodings = .ok table →
        ∀ x ∈ table.numbers, x.isFinite = true) ∧
    (∀ (table : RuleTable Float) (angle : Float) (seed : String) (iterations : Nat)
      (script : Script Float), angle.isFinite = true →
      (∀ x ∈ table.numbers, x.isFinite = true) →
      expand table angle seed iterations = .ok script →
        (∀ x ∈ script.numbers, x.isFinite = true) ∧
          ((∀ x ∈ script.numbers, ReadsBack x) →
            Script.parse script.toJson.compact = .ok script ∧
              Script.parse script.toJson.pretty = .ok script)) ∧
    ∀ script : Script Float, (∀ x ∈ script.numbers, x.isFinite = true) →
      (∀ x ∈ script.numbers, ReadsBack x) →
        Script.parse script.toJson.compact = .ok script ∧
          Script.parse script.toJson.pretty = .ok script := by
  refine ⟨fun angle encodings table hangle htable => RuleTable.isFinite_of_parse hangle htable,
    ?_, fun script => Script.parse_toJson⟩
  intro table angle seed iterations script hangle htable hexpand
  have hfinite := isFinite_of_expand hangle htable hexpand
  exact ⟨hfinite, Script.parse_toJson hfinite⟩

/-- One rule that branches and turns to the right. -/
def sapling : RuleTable Float where
  rules := [{ name := 'F', body := Letter.ofText 0.0 ['F', '[', '-', 'F', ']'], distance := -7 }]
  sorted := List.pairwise_singleton ..

/-- At an angle of zero, a turn to the right is one by minus zero. -/
def saplingScript : Script Float :=
  #[.turn 0.0, .move (-7), .enter, .turn (-0.0), .move (-7), .leave]

theorem parse_generated_sapling :
    RuleTable.parse (0.0 : Float) ["F:F[-F]:-7"] = .ok sapling ∧
      expand sapling 0.0 "+F" 1 = .ok saplingScript ∧
      (∀ x ∈ saplingScript.numbers, ReadsBack x) ∧
      (∀ x ∈ saplingScript.numbers, x.isFinite = true) ∧
      Script.parse saplingScript.toJson.compact = .ok saplingScript ∧
      Script.parse saplingScript.toJson.pretty = .ok saplingScript := by
  have htable : RuleTable.parse (0.0 : Float) ["F:F[-F]:-7"] = .ok sapling := by rfl
  have hexpand : expand sapling 0.0 "+F" 1 = .ok saplingScript := by rfl
  have hreads : ∀ x ∈ saplingScript.numbers, ReadsBack x := by decide +kernel
  have hangle : (0.0 : Float).isFinite = true := by decide +kernel
  obtain ⟨htables, hscripts, _⟩ := parse_generated
  have hnumbers := htables 0.0 ["F:F[-F]:-7"] sapling hangle htable
  obtain ⟨hfinite, hback⟩ := hscripts sapling 0.0 "+F" 1 saplingScript hangle hnumbers hexpand
  exact ⟨htable, hexpand, hreads, hfinite, hback hreads⟩

end Expansion

end LSystem
