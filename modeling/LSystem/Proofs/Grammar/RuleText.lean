import LSystem.Grammar.RuleTable

/-!
# Texts of rules

What the encoding of a rule says before its letters are given an angle: a name,
the characters of the body, and a distance. Whether rules can be read, and what
they are called, depends on this alone. Main fact: encodings that can be read
one by one and have different names make a table of these rules, at any angle,
and no other encodings make one.
-/

namespace LSystem

structure RuleText where
  name : Char
  body : List Char
  distance : Int
  deriving Repr, DecidableEq

variable {α : Type}

namespace RuleText

def parse (encoding : String) : Except Error RuleText :=
  match Text.fields ':' encoding.toList with
  | [nameText, body, distanceText] => do
    let name ← Rule.parseName nameText
    let distance ← Rule.parseDistance name distanceText
    return { name, body, distance }
  | _ => .error (.ruleFields encoding)

def rule [Scalar α] (angle : α) (text : RuleText) : Rule α where
  name := text.name
  body := Letter.ofText angle text.body
  distance := text.distance

theorem head?_of_fields {separator c : Char} {text : List Char} {others : List (List Char)}
    (h : Text.fields separator text = [c] :: others) : text.head? = some c := by
  cases text with
  | nil => cases h
  | cons first rest =>
    simp only [Text.fields] at h
    split at h
    · cases h
    · split at h
      · cases h
        rfl
      · cases h
        rfl

theorem parseName_eq_ok {text : List Char} {name : Char} (h : Rule.parseName text = .ok name) :
    text = [name] ∧ isReserved name = false := by
  unfold Rule.parseName at h
  split at h
  · split at h
    · cases h
    · next hreserved =>
      cases h
      exact ⟨rfl, Bool.eq_false_iff.2 hreserved⟩
  · cases h

/-- The name of a rule is the first character of its encoding, and it is not reserved. -/
theorem name_of_parse {encoding : String} {text : RuleText} (h : parse encoding = .ok text) :
    encoding.toList.head? = some text.name ∧ isReserved text.name = false := by
  unfold parse at h
  split at h
  · next nameText body distanceText hfields =>
    obtain ⟨name, hname, h⟩ := exists_of_bind_eq_ok h
    obtain ⟨distance, _, h⟩ := exists_of_bind_eq_ok h
    cases h
    obtain ⟨hsingle, hreserved⟩ := parseName_eq_ok hname
    rw [hsingle] at hfields
    exact ⟨head?_of_fields hfields, hreserved⟩
  · cases h

/-- What holds of every encoding that is read holds of all encodings that are read in a row. -/
theorem forall_mem_of_mapM {p : RuleText → Prop}
    (hparse : ∀ encoding text, parse encoding = .ok text → p text) {encodings : List String}
    {texts : List RuleText} (hread : encodings.mapM parse = .ok texts) : ∀ text ∈ texts, p text := by
  induction encodings generalizing texts with
  | nil =>
    cases hread
    exact fun text htext => absurd htext List.not_mem_nil
  | cons encoding rest ih =>
    rw [List.mapM_cons] at hread
    obtain ⟨text, htext, hread⟩ := exists_of_bind_eq_ok hread
    obtain ⟨others, hothers, hread⟩ := exists_of_bind_eq_ok hread
    cases hread
    exact List.forall_mem_cons.2 ⟨hparse encoding text htext, ih hothers⟩

theorem isReserved_of_mapM {encodings : List String} {texts : List RuleText}
    (hread : encodings.mapM parse = .ok texts) :
    ∀ text ∈ texts, isReserved text.name = false :=
  forall_mem_of_mapM (fun _ _ htext => (name_of_parse htext).2) hread

end RuleText

variable [Scalar α]

/-- The angle is only given to the letters of a rule that has been read without it. -/
theorem Rule.parse_eq (angle : α) (encoding : String) :
    Rule.parse angle encoding = (RuleText.parse encoding).map (RuleText.rule angle) := by
  unfold Rule.parse RuleText.parse
  match Text.fields ':' encoding.toList with
  | [nameText, body, distanceText] =>
    show (Rule.parseName nameText).bind _ = ((Rule.parseName nameText).bind _).map _
    cases Rule.parseName nameText with
    | error e => rfl
    | ok name =>
      show (Rule.parseDistance name distanceText).bind _ =
        ((Rule.parseDistance name distanceText).bind _).map _
      cases Rule.parseDistance name distanceText with
      | error e => rfl
      | ok distance => rfl
  | [] => rfl
  | [_] => rfl
  | [_, _] => rfl
  | _ :: _ :: _ :: _ :: _ => rfl

namespace RuleTable

/-! ### Tables of different names -/

omit [Scalar α] in
theorem contains_iff {table : RuleTable α} {name : Char} :
    table.contains name = true ↔ ∃ rule ∈ table.rules, rule.name = name := by
  simp only [contains, List.any_eq_true, beq_iff_eq]

omit [Scalar α] in
theorem exists_insert_eq_ok (table : RuleTable α) (rule : Rule α)
    (h : ∀ other ∈ table.rules, other.name ≠ rule.name) :
    ∃ after, table.insert rule = .ok after ∧
      ∀ r, r ∈ after.rules ↔ r = rule ∨ r ∈ table.rules := by
  have hnew : ¬ table.contains rule.name = true := by
    rw [contains_iff]
    rintro ⟨other, hother, hname⟩
    exact h other hother hname
  refine ⟨_, dif_neg hnew, fun r => mem_place⟩

theorem exists_addAll_eq_ok (angle : α) {encodings : List String} {texts : List RuleText}
    (hread : encodings.mapM RuleText.parse = .ok texts)
    (hnames : (texts.map RuleText.name).Nodup) (table : RuleTable α)
    (hnew : ∀ rule ∈ table.rules, ∀ text ∈ texts, rule.name ≠ text.name) :
    ∃ after, table.addAll angle encodings = .ok after ∧
      ∀ r, r ∈ after.rules ↔ r ∈ table.rules ∨ ∃ text ∈ texts, text.rule angle = r := by
  induction encodings generalizing texts table with
  | nil =>
    cases hread
    refine ⟨table, rfl, fun r => ?_⟩
    constructor
    · exact .inl
    · rintro (hr | ⟨text, htext, _⟩)
      · exact hr
      · exact absurd htext List.not_mem_nil
  | cons encoding rest ih =>
    rw [List.mapM_cons] at hread
    obtain ⟨text, htext, hread⟩ := exists_of_bind_eq_ok hread
    obtain ⟨others, hothers, hread⟩ := exists_of_bind_eq_ok hread
    cases hread
    obtain ⟨hfresh, hdistinct⟩ := List.nodup_cons.1 hnames
    obtain ⟨next, hnext, hmem⟩ := exists_insert_eq_ok table (text.rule angle)
      fun rule hrule => hnew rule hrule text (List.mem_cons_self ..)
    have hdisjoint : ∀ rule ∈ next.rules, ∀ other ∈ others, rule.name ≠ other.name := by
      intro rule hrule other hother
      rcases (hmem rule).1 hrule with rfl | hrule
      · intro hname
        have hother' := List.mem_map_of_mem (f := RuleText.name) hother
        rw [← hname] at hother'
        exact hfresh hother'
      · exact hnew rule hrule other (List.mem_cons_of_mem _ hother)
    obtain ⟨after, hafter, hrules⟩ := ih hothers hdistinct next hdisjoint
    refine ⟨after, ?_, fun r => ?_⟩
    · have hrule : Rule.parse angle encoding = .ok (text.rule angle) := by
        rw [Rule.parse_eq, htext]
        rfl
      rw [addAll, hrule]
      show (table.insert (text.rule angle)).bind _ = _
      rw [hnext]
      exact hafter
    · rw [hrules, hmem]
      constructor
      · rintro ((rfl | hr) | ⟨other, hother, hr⟩)
        · exact .inr ⟨text, List.mem_cons_self .., rfl⟩
        · exact .inl hr
        · exact .inr ⟨other, List.mem_cons_of_mem _ hother, hr⟩
      · rintro (hr | ⟨other, hother, hr⟩)
        · exact .inl (.inr hr)
        · rcases List.mem_cons.1 hother with rfl | hother
          · exact .inl (.inl hr.symm)
          · exact .inr ⟨other, hother, hr⟩

/-- Encodings that can be read, with different names, make a table of just these rules. -/
theorem exists_parse_eq_ok (angle : α) {encodings : List String} {texts : List RuleText}
    (hread : encodings.mapM RuleText.parse = .ok texts)
    (hnames : (texts.map RuleText.name).Nodup) :
    ∃ table, parse angle encodings = .ok table ∧
      ∀ r, r ∈ table.rules ↔ ∃ text ∈ texts, text.rule angle = r := by
  obtain ⟨table, htable, hrules⟩ := exists_addAll_eq_ok angle hread hnames empty
    fun rule hrule => absurd hrule List.not_mem_nil
  refine ⟨table, htable, fun r => ?_⟩
  rw [hrules]
  exact or_iff_right List.not_mem_nil

/-! ### Names in a table that was made -/

omit [Scalar α] in
theorem insert_eq_ok {table after : RuleTable α} {rule : Rule α}
    (h : table.insert rule = .ok after) :
    (∀ other ∈ table.rules, other.name ≠ rule.name) ∧
      ∀ r, r ∈ after.rules ↔ r = rule ∨ r ∈ table.rules := by
  unfold insert at h
  split at h
  · cases h
  · next hnew =>
    cases h
    exact ⟨fun other hother hname => hnew (contains_iff.2 ⟨other, hother, hname⟩),
      fun r => mem_place⟩

theorem exists_texts_of_addAll {angle : α} {encodings : List String} {table after : RuleTable α}
    (h : table.addAll angle encodings = .ok after) :
    ∃ texts, encodings.mapM RuleText.parse = .ok texts ∧ (texts.map RuleText.name).Nodup ∧
      ∀ rule ∈ table.rules, ∀ text ∈ texts, rule.name ≠ text.name := by
  induction encodings generalizing table with
  | nil => exact ⟨[], rfl, List.nodup_nil, fun _ _ text htext => absurd htext List.not_mem_nil⟩
  | cons encoding rest ih =>
    rw [addAll] at h
    obtain ⟨rule, hrule, h⟩ := exists_of_bind_eq_ok h
    rw [Rule.parse_eq] at hrule
    obtain ⟨text, htext, rfl⟩ := exists_of_map_eq_ok hrule
    obtain ⟨next, hinsert, hrest⟩ := exists_of_bind_eq_ok h
    obtain ⟨hnew, hmem⟩ := insert_eq_ok hinsert
    obtain ⟨texts, hread, hnames, hdisjoint⟩ := ih hrest
    refine ⟨text :: texts, ?_, List.nodup_cons.2 ⟨?_, hnames⟩, fun other hother => ?_⟩
    · rw [List.mapM_cons, htext, hread]
      rfl
    · intro hrepeated
      obtain ⟨other, hother, hname⟩ := List.mem_map.1 hrepeated
      exact hdisjoint (text.rule angle) ((hmem _).2 (.inl rfl)) other hother hname.symm
    · exact List.forall_mem_cons.2
        ⟨hnew other hother, hdisjoint other ((hmem other).2 (.inr hother))⟩

/-- Encodings that make a table can be read one by one, have different names, and make just the
rules that were read. -/
theorem exists_texts_of_parse {angle : α} {encodings : List String} {table : RuleTable α}
    (h : parse angle encodings = .ok table) :
    ∃ texts, encodings.mapM RuleText.parse = .ok texts ∧ (texts.map RuleText.name).Nodup ∧
      ∀ r, r ∈ table.rules ↔ ∃ text ∈ texts, text.rule angle = r := by
  obtain ⟨texts, hread, hnames, _⟩ := exists_texts_of_addAll h
  obtain ⟨made, hmade, hrules⟩ := exists_parse_eq_ok angle hread hnames
  cases h.symm.trans hmade
  exact ⟨texts, hread, hnames, hrules⟩

theorem isReserved_of_contains {angle : α} {encodings : List String} {table : RuleTable α}
    (h : parse angle encodings = .ok table) {name : Char} (hname : table.contains name = true) :
    isReserved name = false := by
  obtain ⟨texts, hread, _, hrules⟩ := exists_texts_of_parse h
  obtain ⟨rule, hrule, rfl⟩ := contains_iff.1 hname
  obtain ⟨text, htext, rfl⟩ := (hrules rule).1 hrule
  exact RuleText.isReserved_of_mapM hread text htext

end RuleTable

end LSystem
