import LSystem.Proofs.Grammar.References

/-!
# Generations

A word has generations whether an expansion reaches them or not: each comes from
the one before by replacing all names that have rules, and leaves the other names
where they are. The passes of an expansion read them in order, as many as its
iterations allow. So an expansion fails at the first generation that holds a name
without a rule, with the leftmost such name, and more iterations do not change that.
-/

namespace LSystem

variable {α : Type}

namespace RuleTable

/-! ### Words whose names have rules -/

def Defines (table : RuleTable α) (word : List (Letter α)) : Prop :=
  ∀ name, .rule name ∈ word → (table.get? name).isSome = true

/-- A name without a rule, with none to the left of it. -/
structure LeftmostUndefined (table : RuleTable α) (word : List (Letter α)) (name : Char) :
    Prop where
  undefined : table.get? name = none
  split : ∃ before after, word = before ++ .rule name :: after ∧ table.Defines before

variable {table : RuleTable α} {word : List (Letter α)} {name : Char}

theorem undefinedIn?_eq_none_iff : table.undefinedIn? word = none ↔ table.Defines word := by
  induction word with
  | nil => simp [undefinedIn?, Defines]
  | cons letter rest ih =>
    cases letter with
    | rule other =>
      simp only [undefinedIn?, Defines, List.mem_cons, Letter.rule.injEq, forall_eq_or_imp,
        isSome_get?]
      simp only [Defines, isSome_get?] at ih
      cases table.contains other with
      | true => simp [ih]
      | false => simp
    | move d => simp [undefinedIn?, Defines, ih]
    | turn a => simp [undefinedIn?, Defines, ih]
    | enter => simp [undefinedIn?, Defines, ih]
    | leave => simp [undefinedIn?, Defines, ih]

theorem defines_cons_iff {letter : Letter α} :
    table.Defines (letter :: word) ↔ table.Defines [letter] ∧ table.Defines word := by
  rw [← undefinedIn?_eq_none_iff, ← undefinedIn?_eq_none_iff, ← undefinedIn?_eq_none_iff,
    ← List.singleton_append, undefinedIn?_append, Option.or_eq_none_iff]

theorem LeftmostUndefined.cons {letter : Letter α} (hletter : table.Defines [letter])
    (h : table.LeftmostUndefined word name) :
    table.LeftmostUndefined (letter :: word) name := by
  obtain ⟨before, after, rfl, hbefore⟩ := h.split
  exact ⟨h.undefined, letter :: before, after, rfl, defines_cons_iff.2 ⟨hletter, hbefore⟩⟩

theorem undefinedIn?_eq_some_iff :
    table.undefinedIn? word = some name ↔ table.LeftmostUndefined word name := by
  constructor
  · intro h
    induction word with
    | nil => cases h
    | cons letter rest ih =>
      rw [← List.singleton_append, undefinedIn?_append] at h
      cases hletter : table.undefinedIn? [letter] with
      | none =>
        rw [hletter, Option.none_or] at h
        exact (ih h).cons (undefinedIn?_eq_none_iff.1 hletter)
      | some other =>
        rw [hletter, Option.some_or] at h
        cases letter with
        | rule first =>
          simp only [undefinedIn?] at hletter
          split at hletter
          · cases hletter
          · next hcontains =>
            cases hletter
            cases h
            exact ⟨get?_of_not_contains (Bool.eq_false_iff.2 hcontains), [], rest, rfl,
              undefinedIn?_eq_none_iff.1 rfl⟩
        | move d => cases hletter
        | turn a => cases hletter
        | enter => cases hletter
        | leave => cases hletter
  · rintro ⟨hundefined, before, after, rfl, hbefore⟩
    have hcontains : table.contains name = false := by
      rw [← isSome_get?, hundefined]
      rfl
    rw [undefinedIn?_append, undefinedIn?_eq_none_iff.2 hbefore, Option.none_or]
    simp only [undefinedIn?, hcontains, Bool.false_eq_true, if_false]

theorem LeftmostUndefined.not_defines (h : table.LeftmostUndefined word name) :
    ¬ table.Defines word := by
  rw [← undefinedIn?_eq_none_iff, undefinedIn?_eq_some_iff.2 h]
  exact Option.some_ne_none name

theorem exists_leftmostUndefined (h : ¬ table.Defines word) :
    ∃ name, table.LeftmostUndefined word name := by
  obtain ⟨name, hname⟩ := Option.ne_none_iff_exists'.1 (mt undefinedIn?_eq_none_iff.1 h)
  exact ⟨name, undefinedIn?_eq_some_iff.1 hname⟩

variable [Scalar α]

/-! ### One generation after another -/

/-- What stands for a letter in the next generation. -/
def offspring (table : RuleTable α) : Letter α → List (Letter α)
  | .rule name =>
    match table.get? name with
    | none => [.rule name]
    | some rule => if rule.body.isEmpty then [rule.contraction] else rule.body
  | letter => [letter]

def generation (table : RuleTable α) (word : List (Letter α)) : Nat → List (Letter α)
  | 0 => word
  | count + 1 => (table.generation word count).flatMap table.offspring

theorem generation_offspring (table : RuleTable α) (word : List (Letter α)) (count : Nat) :
    table.generation (word.flatMap table.offspring) count = table.generation word (count + 1) := by
  induction count with
  | zero => rfl
  | succ count ih => exact congrArg (List.flatMap table.offspring) ih

/-- The generation of that number holds an undefined name, and none before it does. -/
structure BreaksAt (table : RuleTable α) (word : List (Letter α)) (count : Nat) (name : Char) :
    Prop where
  earlier : ∀ before < count, table.Defines (table.generation word before)
  leftmost : table.LeftmostUndefined (table.generation word count) name

theorem breaksAt_zero_iff : table.BreaksAt word 0 name ↔ table.LeftmostUndefined word name :=
  ⟨fun h => h.leftmost, fun h => ⟨fun _ hlt => absurd hlt (Nat.not_lt_zero _), h⟩⟩

theorem breaksAt_succ_iff {count : Nat} :
    table.BreaksAt word (count + 1) name ↔
      table.Defines word ∧ table.BreaksAt (word.flatMap table.offspring) count name := by
  constructor
  · rintro ⟨hearlier, hleftmost⟩
    rw [← generation_offspring] at hleftmost
    refine ⟨hearlier 0 (Nat.succ_pos _), fun before hlt => ?_, hleftmost⟩
    rw [generation_offspring]
    exact hearlier (before + 1) (Nat.succ_lt_succ hlt)
  · rintro ⟨hword, hearlier, hleftmost⟩
    rw [generation_offspring] at hleftmost
    refine ⟨fun before hlt => ?_, hleftmost⟩
    cases before with
    | zero => exact hword
    | succ before =>
      rw [← generation_offspring]
      exact hearlier before (Nat.lt_of_succ_lt_succ hlt)

theorem BreaksAt.eq_of_leftmost {count : Nat} {other : Char}
    (hbreaks : table.BreaksAt word count name) (h : table.LeftmostUndefined word other) :
    name = other := by
  cases count with
  | zero =>
    have hname := undefinedIn?_eq_some_iff.2 hbreaks.leftmost
    exact Option.some.inj (hname.symm.trans (undefinedIn?_eq_some_iff.2 h))
  | succ count => exact absurd (breaksAt_succ_iff.1 hbreaks).1 h.not_defines

end RuleTable

namespace Expansion

variable [Scalar α] {table : RuleTable α} {word : List (Letter α)}

/-! ### Passes read generations -/

theorem substitute_succ {letter : Letter α} (h : table.Defines [letter]) (depth : Nat) :
    substitute table (depth + 1) letter = .ok (table.offspring letter) := by
  cases letter with
  | rule name =>
    obtain ⟨rule, hrule⟩ := Option.isSome_iff_exists.1 (h name (List.mem_singleton_self _))
    simp only [substitute, RuleTable.offspring, hrule, Rule.replacement, Rule.isTerminal,
      Nat.add_one_ne_zero, decide_false, Bool.false_or]
  | move d => rfl
  | turn a => rfl
  | enter => rfl
  | leave => rfl

theorem rewrite_succ (h : table.Defines word) (depth : Nat) :
    rewrite table (depth + 1) word = .ok (word.flatMap table.offspring) := by
  induction word with
  | nil => rfl
  | cons letter rest ih =>
    obtain ⟨hletter, hrest⟩ := RuleTable.defines_cons_iff.1 h
    rw [rewrite_cons_ok (substitute_succ hletter depth), ih hrest, List.flatMap_cons]
    rfl

theorem passes_eq_error_iff_of_leftmost {depth : Nat} {name : Char} {e : Error}
    (h : table.LeftmostUndefined word name) :
    (passes table depth word).result = .error e ↔
      ∃ count ≤ depth, ∃ name, table.BreaksAt word count name ∧ e = .undefinedRule name := by
  rw [passes_of_undefined (RuleTable.undefinedIn?_eq_some_iff.2 h)]
  constructor
  · intro he
    cases he
    exact ⟨0, Nat.zero_le _, name, RuleTable.breaksAt_zero_iff.2 h, rfl⟩
  · rintro ⟨count, _, other, hbreaks, rfl⟩
    rw [hbreaks.eq_of_leftmost h]

theorem passes_eq_error_iff {depth : Nat} {e : Error} :
    (passes table depth word).result = .error e ↔
      ∃ count ≤ depth, ∃ name, table.BreaksAt word count name ∧ e = .undefinedRule name := by
  -- A pass goes from one generation to the next, or ends the expansion where one breaks.
  induction depth generalizing word with
  | zero =>
    by_cases hdefines : table.Defines word
    · obtain ⟨next, hnext⟩ := exists_rewrite (RuleTable.undefinedIn?_eq_none_iff.2 hdefines) 0
      rw [result_passes_zero, hnext]
      constructor
      · intro h
        cases h
      · rintro ⟨count, hle, name, hbreaks, -⟩
        cases Nat.le_zero.1 hle
        exact absurd hdefines hbreaks.leftmost.not_defines
    · obtain ⟨name, hname⟩ := RuleTable.exists_leftmostUndefined hdefines
      exact passes_eq_error_iff_of_leftmost hname
  | succ depth ih =>
    by_cases hdefines : table.Defines word
    · have hpasses : (passes table (depth + 1) word).result =
          (passes table depth (word.flatMap table.offspring)).result := by
        rw [result_passes_succ, rewrite_succ hdefines]
        rfl
      rw [hpasses, ih]
      constructor
      · rintro ⟨count, hle, name, hbreaks, rfl⟩
        exact ⟨count + 1, Nat.succ_le_succ hle, name,
          RuleTable.breaksAt_succ_iff.2 ⟨hdefines, hbreaks⟩, rfl⟩
      · rintro ⟨count, hle, name, hbreaks, rfl⟩
        cases count with
        | zero => exact absurd hdefines hbreaks.leftmost.not_defines
        | succ count =>
          exact ⟨count, Nat.le_of_succ_le_succ hle, name,
            (RuleTable.breaksAt_succ_iff.1 hbreaks).2, rfl⟩
    · obtain ⟨name, hname⟩ := RuleTable.exists_leftmostUndefined hdefines
      exact passes_eq_error_iff_of_leftmost hname

theorem expand_eq_error_iff {angle : α} {seed : String} {iterations : Nat} {e : Error} :
    expand table angle seed iterations = .error e ↔
      ∃ count ≤ max iterations 1, ∃ name,
        table.BreaksAt (Letter.ofText angle seed.toList) count name ∧ e = .undefinedRule name := by
  rw [← passes_eq_error_iff, expand_eq]
  cases hpasses : (passes table (max iterations 1) (Letter.ofText angle seed.toList)).result with
  | error e' => simp only [Except.bind, Except.error.injEq]
  | ok final =>
    -- What the passes leave holds no name any more, so nothing fails behind them.
    obtain ⟨commands, hcommands⟩ := Option.isSome_iff_exists.1 (passes_isCommand hpasses)
    simp only [Except.bind, finish, hcommands, reduceCtorEq]

/-- An expansion fails exactly when one of the generations that its passes read holds a name
without a rule. The error is a configuration error that names the leftmost such name of the first
such generation, and it stays the same however many more iterations are asked for. -/
theorem expansion_fails_at_first_broken_generation (table : RuleTable α) (angle : α)
    (seed : String) (iterations : Nat) :
    let generation := table.generation (Letter.ofText angle seed.toList)
    ((∃ e, expand table angle seed iterations = .error e) ↔
      ∃ count ≤ max iterations 1, (∀ before < count, table.Defines (generation before)) ∧
        ¬ table.Defines (generation count)) ∧
    (∀ e, expand table angle seed iterations = .error e ↔
      ∃ count ≤ max iterations 1, (∀ before < count, table.Defines (generation before)) ∧
        ∃ name, table.LeftmostUndefined (generation count) name ∧ e = .undefinedRule name) ∧
    ∀ e, expand table angle seed iterations = .error e →
      (∃ name, e = .undefinedRule name ∧ e.kind = .configuration ∧
        e.message = s!"configuration error: grammar references undefined rule '{name}'") ∧
      ∀ more ≥ iterations, expand table angle seed more = .error e := by
  intro generation
  have hfails : ∀ count e, expand table angle seed count = .error e ↔
      ∃ number ≤ max count 1, (∀ before < number, table.Defines (generation before)) ∧
        ∃ name, table.LeftmostUndefined (generation number) name ∧ e = .undefinedRule name := by
    intro count e
    rw [expand_eq_error_iff]
    constructor
    · rintro ⟨number, hle, name, ⟨hearlier, hleftmost⟩, he⟩
      exact ⟨number, hle, hearlier, name, hleftmost, he⟩
    · rintro ⟨number, hle, hearlier, name, hleftmost, he⟩
      exact ⟨number, hle, name, ⟨hearlier, hleftmost⟩, he⟩
  refine ⟨?_, hfails iterations, ?_⟩
  · constructor
    · rintro ⟨e, he⟩
      obtain ⟨count, hle, hearlier, name, hleftmost, _⟩ := (hfails iterations e).1 he
      exact ⟨count, hle, hearlier, hleftmost.not_defines⟩
    · rintro ⟨count, hle, hearlier, hundefined⟩
      obtain ⟨name, hleftmost⟩ := RuleTable.exists_leftmostUndefined hundefined
      exact ⟨_, (hfails iterations _).2 ⟨count, hle, hearlier, name, hleftmost, rfl⟩⟩
  · intro e he
    obtain ⟨count, hle, hearlier, name, hleftmost, rfl⟩ := (hfails iterations e).1 he
    refine ⟨⟨name, rfl, rfl, rfl⟩, ?_⟩
    intro more hmore
    have hbound : count ≤ max more 1 := by omega
    exact (hfails more _).2 ⟨count, hbound, hearlier, name, hleftmost, rfl⟩

end Expansion

end LSystem
