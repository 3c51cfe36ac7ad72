import LSystem.Grammar.Catalogue
import LSystem.Proofs.Grammar.Derivation

/-!
# References

A table whose bodies refer to its own rules only brings up no undefined name in
a pass. So an expansion with it fails exactly when the seed holds an undefined
name, whatever the angle and the depth, and then it reports the leftmost one.
-/

namespace LSystem

variable {α : Type}

/-! ### Undefined names -/

namespace RuleTable

variable {table : RuleTable α}

theorem isSome_get? (table : RuleTable α) (name : Char) :
    (table.get? name).isSome = table.contains name :=
  List.isSome_find?

theorem exists_get?_of_contains {name : Char} (h : table.contains name = true) :
    ∃ rule ∈ table.rules, table.get? name = some rule := by
  rw [← isSome_get?] at h
  obtain ⟨rule, hrule⟩ := Option.isSome_iff_exists.1 h
  exact ⟨rule, List.mem_of_find?_eq_some hrule, hrule⟩

theorem get?_of_not_contains {name : Char} (h : table.contains name = false) :
    table.get? name = none := by
  rw [← isSome_get?] at h
  exact Option.isNone_iff_eq_none.1 (Option.isSome_eq_false_iff.1 h)

theorem undefinedIn?_append (table : RuleTable α) (u v : List (Letter α)) :
    table.undefinedIn? (u ++ v) = (table.undefinedIn? u).or (table.undefinedIn? v) := by
  induction u with
  | nil => rfl
  | cons letter rest ih =>
    cases letter with
    | rule name =>
      simp only [List.cons_append, undefinedIn?]
      cases table.contains name with
      | true => exact ih
      | false => rfl
    | move d => exact ih
    | turn a => exact ih
    | enter => exact ih
    | leave => exact ih

theorem checkReferences_eq_ok_iff :
    table.checkReferences = .ok () ↔
      ∀ rule ∈ table.rules, table.undefinedIn? rule.body = none := by
  unfold checkReferences
  cases hfind : table.rules.findSome? fun rule =>
      (table.undefinedIn? rule.body).map (rule.name, ·) with
  | none =>
    refine ⟨fun _ rule hrule => ?_, fun _ => rfl⟩
    exact Option.map_eq_none_iff.1 (List.findSome?_eq_none_iff.1 hfind rule hrule)
  | some found =>
    obtain ⟨rule, hrule, hfound⟩ := List.exists_of_findSome?_eq_some hfind
    obtain ⟨name, hname, _⟩ := Option.map_eq_some_iff.1 hfound
    constructor
    · intro h
      cases h
    · intro h
      rw [h rule hrule] at hname
      cases hname

variable [Scalar α]

theorem undefinedIn?_ofText (table : RuleTable α) (angle : α) (text : List Char) :
    table.undefinedIn? (Letter.ofText angle text) =
      text.find? fun c => !isReserved c && !table.contains c := by
  induction text with
  | nil => rfl
  | cons c rest ih =>
    rw [Letter.ofText, List.map_cons, List.find?_cons, ← ih]
    cases hreserved : isReserved c with
    | true => rcases isReserved_cases hreserved with rfl | rfl | rfl | rfl <;> rfl
    | false =>
      rw [Letter.ofChar_of_not_isReserved angle hreserved, undefinedIn?]
      cases table.contains c <;> rfl

end RuleTable

/-! ### Expansions with a table that refers to its own rules -/

namespace Expansion

variable [Scalar α] {table : RuleTable α} {depth : Nat}

theorem rewrite_of_undefined {word : List (Letter α)} {name : Char}
    (h : table.undefinedIn? word = some name) :
    rewrite table depth word = .error (.undefinedRule name) := by
  induction word with
  | nil => cases h
  | cons letter rest ih =>
    cases letter with
    | rule other =>
      simp only [RuleTable.undefinedIn?] at h
      cases hcontains : table.contains other with
      | true =>
        rw [hcontains, if_pos rfl] at h
        obtain ⟨rule, _, hget⟩ := RuleTable.exists_get?_of_contains hcontains
        have hbody : substitute table depth (.rule other) = .ok (rule.replacement depth) := by
          simp only [substitute, hget]
        rw [rewrite_cons_ok hbody, ih h]
        rfl
      | false =>
        rw [hcontains, if_neg Bool.false_ne_true] at h
        cases h
        have hbody : substitute table depth (.rule name) = .error (.undefinedRule name) := by
          simp only [substitute, RuleTable.get?_of_not_contains hcontains]
        exact rewrite_cons_error hbody
    | move d =>
      rw [rewrite_cons_ok rfl, ih h]
      rfl
    | turn a =>
      rw [rewrite_cons_ok rfl, ih h]
      rfl
    | enter =>
      rw [rewrite_cons_ok rfl, ih h]
      rfl
    | leave =>
      rw [rewrite_cons_ok rfl, ih h]
      rfl

theorem passes_of_undefined {word : List (Letter α)} {name : Char}
    (h : table.undefinedIn? word = some name) :
    (passes table depth word).result = .error (.undefinedRule name) := by
  cases depth with
  | zero =>
    rw [result_passes_zero]
    exact rewrite_of_undefined h
  | succ depth =>
    rw [result_passes_succ, rewrite_of_undefined h]
    rfl

theorem exists_substitute {letter : Letter α} (h : table.undefinedIn? [letter] = none)
    (depth : Nat) : ∃ body, substitute table depth letter = .ok body := by
  cases letter with
  | rule name =>
    cases hcontains : table.contains name with
    | true =>
      obtain ⟨rule, _, hget⟩ := RuleTable.exists_get?_of_contains hcontains
      exact ⟨rule.replacement depth, by simp only [substitute, hget]⟩
    | false =>
      simp only [RuleTable.undefinedIn?, hcontains] at h
      cases h
  | move d => exact ⟨_, rfl⟩
  | turn a => exact ⟨_, rfl⟩
  | enter => exact ⟨_, rfl⟩
  | leave => exact ⟨_, rfl⟩

theorem exists_rewrite {word : List (Letter α)} (h : table.undefinedIn? word = none)
    (depth : Nat) : ∃ next, rewrite table depth word = .ok next := by
  induction word with
  | nil => exact ⟨[], rfl⟩
  | cons letter rest ih =>
    have hsplit : (table.undefinedIn? [letter]).or (table.undefinedIn? rest) = none := by
      rw [← RuleTable.undefinedIn?_append]
      exact h
    obtain ⟨hletter, hrest⟩ := Option.or_eq_none_iff.1 hsplit
    obtain ⟨body, hbody⟩ := exists_substitute hletter depth
    obtain ⟨next, hnext⟩ := ih hrest
    refine ⟨body ++ next, ?_⟩
    rw [rewrite_cons_ok hbody, hnext]
    rfl

theorem undefinedIn?_of_substitute (checked : table.checkReferences = .ok ())
    {letter : Letter α} {body : List (Letter α)} (h : substitute table depth letter = .ok body) :
    table.undefinedIn? body = none := by
  cases letter with
  | rule name =>
    simp only [substitute] at h
    cases hget : table.get? name with
    | none =>
      rw [hget] at h
      cases h
    | some rule =>
      rw [hget] at h
      cases h
      unfold Rule.replacement
      split
      · rfl
      · exact RuleTable.checkReferences_eq_ok_iff.1 checked rule (List.mem_of_find?_eq_some hget)
  | move d =>
    cases h
    rfl
  | turn a =>
    cases h
    rfl
  | enter =>
    cases h
    rfl
  | leave =>
    cases h
    rfl

theorem undefinedIn?_of_rewrite (checked : table.checkReferences = .ok ())
    {word next : List (Letter α)} (h : rewrite table depth word = .ok next) :
    table.undefinedIn? next = none := by
  induction word generalizing next with
  | nil =>
    cases h
    rfl
  | cons letter rest ih =>
    obtain ⟨body, tail, hbody, htail, rfl⟩ := rewrite_cons_eq_ok h
    rw [RuleTable.undefinedIn?_append, undefinedIn?_of_substitute checked hbody, ih htail]
    rfl

theorem exists_passes_eq_ok (checked : table.checkReferences = .ok ()) {word : List (Letter α)}
    (h : table.undefinedIn? word = none) (depth : Nat) :
    ∃ final, (passes table depth word).result = .ok final := by
  induction depth generalizing word with
  | zero =>
    obtain ⟨next, hnext⟩ := exists_rewrite h 0
    exact ⟨next, (result_passes_zero table word).trans hnext⟩
  | succ depth ih =>
    obtain ⟨next, hnext⟩ := exists_rewrite h (depth + 1)
    obtain ⟨final, hfinal⟩ := ih (undefinedIn?_of_rewrite checked hnext)
    refine ⟨final, ?_⟩
    rw [result_passes_succ, hnext]
    exact hfinal

theorem expand_of_undefined {seed : String} {name : Char}
    (h : Grammar.undefinedInSeed? table seed = some name) (angle : α) (iterations : Nat) :
    expand table angle seed iterations = .error (.undefinedRule name) := by
  rw [Grammar.undefinedInSeed?, ← RuleTable.undefinedIn?_ofText table angle] at h
  rw [expand_eq, passes_of_undefined h]
  rfl

theorem exists_expand_eq_ok (checked : table.checkReferences = .ok ()) {seed : String}
    (h : Grammar.undefinedInSeed? table seed = none) (angle : α) (iterations : Nat) :
    ∃ script, expand table angle seed iterations = .ok script := by
  rw [Grammar.undefinedInSeed?, ← RuleTable.undefinedIn?_ofText table angle] at h
  obtain ⟨final, hfinal⟩ := exists_passes_eq_ok checked h (max iterations 1)
  obtain ⟨commands, hcommands⟩ := Option.isSome_iff_exists.1 (passes_isCommand hfinal)
  refine ⟨commands.toArray, ?_⟩
  rw [expand_eq, hfinal]
  simp only [Except.bind, finish, hcommands]

/-- Neither the angle nor the depth has a part in whether an expansion succeeds. -/
theorem exists_expand_eq_ok_iff (checked : table.checkReferences = .ok ()) {seed : String}
    {angle : α} {iterations : Nat} :
    (∃ script, expand table angle seed iterations = .ok script) ↔
      Grammar.undefinedInSeed? table seed = none := by
  constructor
  · rintro ⟨script, hscript⟩
    cases hseed : Grammar.undefinedInSeed? table seed with
    | none => rfl
    | some name =>
      rw [expand_of_undefined hseed] at hscript
      cases hscript
  · intro h
    exact exists_expand_eq_ok checked h angle iterations

/-- An undefined name in the body of a rule is met in the second pass over the rule's name; there
always is one, and the body is not empty, so that the first pass does not contract it. -/
theorem expand_singleton_of_undefined {name other : Char} {rule : Rule α}
    (hreserved : isReserved name = false) (hget : table.get? name = some rule)
    (h : table.undefinedIn? rule.body = some other) (angle : α) (iterations : Nat) :
    expand table angle (String.singleton name) iterations = .error (.undefinedRule other) := by
  obtain ⟨depth, hdepth⟩ : ∃ depth, max iterations 1 = depth + 1 :=
    Nat.exists_eq_add_one.2 (Nat.lt_of_lt_of_le Nat.one_pos (Nat.le_max_right ..))
  have hbody : rule.replacement (depth + 1) = rule.body := by
    cases hb : rule.body with
    | nil =>
      rw [hb] at h
      cases h
    | cons letter rest =>
      simp only [Rule.replacement, Rule.isTerminal, hb, List.isEmpty_cons, Nat.add_one_ne_zero,
        decide_false, Bool.or_false, Bool.false_eq_true, if_false]
  have hsubstitute : substitute table (depth + 1) (.rule name) = .ok rule.body := by
    simp only [substitute, hget, hbody]
  have hword : Letter.ofText angle (String.singleton name).toList = [.rule name] := by
    rw [String.toList_singleton, Letter.ofText, List.map_singleton,
      Letter.ofChar_of_not_isReserved angle hreserved]
  have hrewrite : rewrite table (depth + 1) [.rule name] = .ok rule.body := by
    rw [rewrite_cons_ok hsubstitute, rewrite_nil, Except.map, List.append_nil]
  rw [expand_eq, hdepth, hword, result_passes_succ, hrewrite]
  simp only [Except.bind, passes_of_undefined h]

end Expansion

end LSystem
