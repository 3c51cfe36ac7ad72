import LSystem.Grammar.Expansion

/-!
# Derivations

The derivation of a letter is a recursion over the tree of replacements, one
letter at a time and depth first. An expansion works on whole words, one pass
at a time. Both write the same script: what a pass and the derivation at the
depth below it yield together is the derivation at the depth of the pass.
-/

namespace LSystem

variable {α : Type}

/-! ### Commands as letters -/

theorem Letter.mapM_toCommand?_append (u v : List (Letter α)) :
    (u ++ v).mapM Letter.toCommand? =
      (u.mapM Letter.toCommand?).bind fun cs => (v.mapM Letter.toCommand?).map (cs ++ ·) := by
  rw [List.mapM_append]
  cases u.mapM Letter.toCommand? with
  | none => rfl
  | some cs =>
    cases v.mapM Letter.toCommand? with
    | none => rfl
    | some ds => rfl

variable [Scalar α]

namespace Expansion

/-! ### A pass without its checkpoints -/

def rewrite (table : RuleTable α) (depth : Nat) (word : List (Letter α)) :
    Except Error (List (Letter α)) :=
  (word.mapM (substitute table depth)).map List.flatten

theorem rewrite_nil (table : RuleTable α) (depth : Nat) : rewrite table depth [] = .ok [] := rfl

theorem rewrite_cons_error {table : RuleTable α} {depth : Nat} {letter : Letter α}
    {rest : List (Letter α)} {e : Error} (h : substitute table depth letter = .error e) :
    rewrite table depth (letter :: rest) = .error e := by
  simp only [rewrite, List.mapM_cons, h]
  rfl

theorem rewrite_cons_ok {table : RuleTable α} {depth : Nat} {letter : Letter α}
    {rest body : List (Letter α)} (h : substitute table depth letter = .ok body) :
    rewrite table depth (letter :: rest) = (rewrite table depth rest).map (body ++ ·) := by
  simp only [rewrite, List.mapM_cons, h]
  cases rest.mapM (substitute table depth) with
  | error e => rfl
  | ok bodies => rfl

theorem rewrite_cons (table : RuleTable α) (depth : Nat) (letter : Letter α)
    (rest : List (Letter α)) :
    rewrite table depth (letter :: rest) = (substitute table depth letter).bind fun body =>
      (rewrite table depth rest).map (body ++ ·) := by
  cases h : substitute table depth letter with
  | error e => exact rewrite_cons_error h
  | ok body => exact rewrite_cons_ok h

theorem rewrite_append (table : RuleTable α) (depth : Nat) (u v : List (Letter α)) :
    rewrite table depth (u ++ v) =
      (rewrite table depth u).bind fun a => (rewrite table depth v).map (a ++ ·) := by
  induction u with
  | nil =>
    rw [List.nil_append, rewrite_nil]
    cases rewrite table depth v <;> rfl
  | cons letter rest ih =>
    rw [List.cons_append]
    cases hs : substitute table depth letter with
    | error e =>
      rw [rewrite_cons_error hs, rewrite_cons_error hs]
      rfl
    | ok body =>
      rw [rewrite_cons_ok hs, rewrite_cons_ok hs, ih]
      cases rewrite table depth rest with
      | error e => rfl
      | ok a =>
        cases rewrite table depth v with
        | error e => rfl
        | ok b => simp only [Except.map, Except.bind, List.append_assoc]

theorem rewrite_cons_eq_ok {table : RuleTable α} {depth : Nat} {letter : Letter α}
    {rest next : List (Letter α)} (h : rewrite table depth (letter :: rest) = .ok next) :
    ∃ body tail, substitute table depth letter = .ok body ∧
      rewrite table depth rest = .ok tail ∧ body ++ tail = next := by
  cases hs : substitute table depth letter with
  | error e =>
    rw [rewrite_cons_error hs] at h
    cases h
  | ok body =>
    rw [rewrite_cons_ok hs] at h
    obtain ⟨tail, htail, hnext⟩ := exists_of_map_eq_ok h
    exact ⟨body, tail, rfl, htail, hnext⟩

theorem rewrite_append_eq_ok {table : RuleTable α} {depth : Nat} {u v next : List (Letter α)}
    (h : rewrite table depth (u ++ v) = .ok next) :
    ∃ a b, rewrite table depth u = .ok a ∧ rewrite table depth v = .ok b ∧ a ++ b = next := by
  rw [rewrite_append] at h
  obtain ⟨a, ha, h⟩ := exists_of_bind_eq_ok h
  obtain ⟨b, hb, hnext⟩ := exists_of_map_eq_ok h
  exact ⟨a, b, ha, hb, hnext⟩

theorem result_pass (table : RuleTable α) (depth : Nat) (word : List (Letter α))
    (consumed budget : Nat) (written : Array (Letter α)) :
    (pass table depth word consumed budget written).result =
      (rewrite table depth word).map (written.toList ++ ·) := by
  induction word generalizing consumed budget written with
  | nil => simp [pass, Cancellable.result, rewrite_nil, Except.map]
  | cons letter rest ih =>
    rw [pass]
    cases h : substitute table depth letter with
    | error e =>
      rw [rewrite_cons_error h]
      rfl
    | ok body =>
      -- Whether a checkpoint comes next or not, the rest of the pass goes on from the same letters.
      have hnext : ∀ budget', (pass table depth rest (consumed + 1) budget'
          (written ++ body)).result =
            ((rewrite table depth rest).map (body ++ ·)).map (written.toList ++ ·) := by
        intro budget'
        rw [ih]
        cases rewrite table depth rest with
        | error e => rfl
        | ok next => simp [Except.map]
      rw [rewrite_cons_ok h]
      dsimp only
      split
      · exact hnext interval
      · exact hnext (budget - body.length)

theorem result_passes_zero (table : RuleTable α) (word : List (Letter α)) :
    (passes table 0 word).result = rewrite table 0 word := by
  simp only [passes, Cancellable.result, result_pass]
  cases rewrite table 0 word with
  | error e => rfl
  | ok next => simp [Except.map]

theorem result_passes_succ (table : RuleTable α) (depth : Nat) (word : List (Letter α)) :
    (passes table (depth + 1) word).result =
      (rewrite table (depth + 1) word).bind fun next => (passes table depth next).result := by
  simp only [passes, Cancellable.result, Cancellable.result_bind, result_pass]
  cases rewrite table (depth + 1) word with
  | error e => rfl
  | ok next => simp [Except.map, Except.bind]

/-! ### What can fail in a pass -/

theorem substitute_error {table : RuleTable α} {depth : Nat} {letter : Letter α} {e : Error}
    (h : substitute table depth letter = .error e) :
    ∃ name, table.get? name = none ∧ e = .undefinedRule name := by
  cases letter with
  | rule name =>
    simp only [substitute] at h
    cases hget : table.get? name with
    | none =>
      simp only [hget] at h
      cases h
      exact ⟨name, hget, rfl⟩
    | some rule =>
      simp only [hget] at h
      cases h
  | move d => cases h
  | turn a => cases h
  | enter => cases h
  | leave => cases h

theorem rewrite_error {table : RuleTable α} {depth : Nat} {word : List (Letter α)} {e : Error}
    (h : rewrite table depth word = .error e) :
    ∃ name, table.get? name = none ∧ e = .undefinedRule name := by
  induction word with
  | nil => cases h
  | cons letter rest ih =>
    cases hs : substitute table depth letter with
    | error e' =>
      rw [rewrite_cons_error hs] at h
      cases h
      exact substitute_error hs
    | ok body =>
      rw [rewrite_cons_ok hs] at h
      cases hr : rewrite table depth rest with
      | error e' =>
        rw [hr] at h
        cases h
        exact ih hr
      | ok next =>
        rw [hr] at h
        cases h

theorem passes_error {table : RuleTable α} {depth : Nat} {word : List (Letter α)} {e : Error}
    (h : (passes table depth word).result = .error e) :
    ∃ name, table.get? name = none ∧ e = .undefinedRule name := by
  induction depth generalizing word with
  | zero =>
    rw [result_passes_zero] at h
    exact rewrite_error h
  | succ depth ih =>
    rw [result_passes_succ] at h
    cases hr : rewrite table (depth + 1) word with
    | error e' =>
      rw [hr] at h
      cases h
      exact rewrite_error hr
    | ok next =>
      rw [hr] at h
      exact ih h

end Expansion

namespace RuleTable

/-! ### Derivations -/

/-- The commands that a letter derives when `depth` replacements may follow one another below it;
none as soon as a name without a rule is met. -/
def derive? (table : RuleTable α) : Nat → Letter α → Option (List (Command α))
  | _, .move d => some [.move d]
  | _, .turn a => some [.turn a]
  | _, .enter => some [.enter]
  | _, .leave => some [.leave]
  | 0, .rule name =>
    match table.get? name with
    | none => none
    | some rule => some [.move (Scalar.ofInt rule.distance)]
  | depth + 1, .rule name =>
    match table.get? name with
    | none => none
    | some rule =>
      if rule.body.isEmpty then some [.move (Scalar.ofInt rule.distance)]
      else (rule.body.mapM (derive? table depth)).map List.flatten

def deriveWord? (table : RuleTable α) (depth : Nat) (word : List (Letter α)) :
    Option (List (Command α)) :=
  (word.mapM (table.derive? depth)).map List.flatten

theorem deriveWord?_append (table : RuleTable α) (depth : Nat) (u v : List (Letter α)) :
    table.deriveWord? depth (u ++ v) =
      (table.deriveWord? depth u).bind fun cs => (table.deriveWord? depth v).map (cs ++ ·) := by
  simp only [deriveWord?, List.mapM_append]
  cases u.mapM (table.derive? depth) with
  | none => rfl
  | some us =>
    cases v.mapM (table.derive? depth) with
    | none => rfl
    | some vs => exact congrArg some List.flatten_append

theorem deriveWord?_singleton (table : RuleTable α) (depth : Nat) (letter : Letter α) :
    table.deriveWord? depth [letter] = table.derive? depth letter := by
  simp only [deriveWord?, List.mapM_cons, List.mapM_nil]
  cases table.derive? depth letter with
  | none => rfl
  | some cs => exact congrArg some (List.append_nil cs)

theorem deriveWord?_cons (table : RuleTable α) (depth : Nat) (letter : Letter α)
    (rest : List (Letter α)) :
    table.deriveWord? depth (letter :: rest) =
      (table.derive? depth letter).bind fun cs =>
        (table.deriveWord? depth rest).map (cs ++ ·) := by
  rw [← deriveWord?_singleton, ← deriveWord?_append]
  rfl

theorem deriveWord?_eq_some_iff {table : RuleTable α} {depth : Nat} {word : List (Letter α)}
    {commands : List (Command α)} :
    table.deriveWord? depth word = some commands ↔
      (∀ letter ∈ word, (table.derive? depth letter).isSome = true) ∧
        commands = word.flatMap fun letter => (table.derive? depth letter).getD [] := by
  induction word generalizing commands with
  | nil =>
    have hnil : table.deriveWord? depth [] = some [] := rfl
    rw [hnil, Option.some.injEq]
    exact ⟨fun h => ⟨fun x hx => absurd hx List.not_mem_nil, h.symm⟩, fun h => h.2.symm⟩
  | cons letter rest ih =>
    rw [deriveWord?_cons]
    cases hl : table.derive? depth letter with
    | none => simp [hl]
    | some cs =>
      have hbind : (some cs).bind (fun cs => (table.deriveWord? depth rest).map (cs ++ ·)) =
          (table.deriveWord? depth rest).map (cs ++ ·) := rfl
      rw [hbind, Option.map_eq_some_iff]
      constructor
      · rintro ⟨ds, hds, rfl⟩
        obtain ⟨hdefined, rfl⟩ := ih.1 hds
        refine ⟨?_, by simp [hl]⟩
        intro x hx
        rcases List.mem_cons.1 hx with rfl | hx
        · simp [hl]
        · exact hdefined x hx
      · rintro ⟨hdefined, rfl⟩
        refine ⟨_, ih.2 ⟨fun x hx => hdefined x (List.mem_cons_of_mem _ hx), rfl⟩, ?_⟩
        simp [hl]

/-! ### A pass followed by the derivation below it -/

theorem derive?_zero (table : RuleTable α) (letter : Letter α) :
    table.derive? 0 letter =
      match Expansion.substitute table 0 letter with
      | .error _ => none
      | .ok body => body.mapM Letter.toCommand? := by
  cases letter with
  | rule name =>
    simp only [derive?, Expansion.substitute]
    cases table.get? name with
    | none => rfl
    | some rule => rfl
  | move d => rfl
  | turn a => rfl
  | enter => rfl
  | leave => rfl

/-- Above depth zero a letter derives what its replacement derives one depth below. -/
theorem derive?_succ (table : RuleTable α) (depth : Nat) (letter : Letter α) :
    table.derive? (depth + 1) letter =
      match Expansion.substitute table (depth + 1) letter with
      | .error _ => none
      | .ok body => table.deriveWord? depth body := by
  -- A letter that names no rule stays in the word and derives itself at any depth.
  have hself : ∀ c : Command α, ∀ l : Letter α, (∀ d, table.derive? d l = some [c]) →
      table.deriveWord? depth [l] = some [c] := by
    intro c l hl
    rw [deriveWord?_singleton, hl]
  cases letter with
  | rule name =>
    simp only [derive?, Expansion.substitute]
    cases table.get? name with
    | none => rfl
    | some rule =>
      simp only [Rule.replacement, Rule.isTerminal, Nat.add_one_ne_zero, decide_false,
        Bool.false_or]
      cases hbody : rule.body.isEmpty with
      | true => exact (hself _ _ fun d => by cases d <;> rfl).symm
      | false => rfl
  | move d => exact (hself (.move d) _ fun d => by cases d <;> rfl).symm
  | turn a => exact (hself (.turn a) _ fun d => by cases d <;> rfl).symm
  | enter => exact (hself .enter _ fun d => by cases d <;> rfl).symm
  | leave => exact (hself .leave _ fun d => by cases d <;> rfl).symm

/-- What holds of a letter and its replacement holds of a word and its rewriting, where the words
that replacements make up are read off piece by piece. -/
theorem deriveWord?_of_letters {table : RuleTable α} {depth : Nat}
    {read? : List (Letter α) → Option (List (Command α))} (hnil : read? [] = some [])
    (happend : ∀ u v, read? (u ++ v) = (read? u).bind fun cs => (read? v).map (cs ++ ·))
    (hletter : ∀ letter, table.derive? depth letter =
      match Expansion.substitute table depth letter with
      | .error _ => none
      | .ok body => read? body)
    (word : List (Letter α)) :
    table.deriveWord? depth word =
      match Expansion.rewrite table depth word with
      | .error _ => none
      | .ok next => read? next := by
  induction word with
  | nil => exact hnil.symm
  | cons letter rest ih =>
    rw [deriveWord?_cons, hletter, ih]
    cases hs : Expansion.substitute table depth letter with
    | error e =>
      rw [Expansion.rewrite_cons_error hs]
      rfl
    | ok body =>
      rw [Expansion.rewrite_cons_ok hs]
      cases Expansion.rewrite table depth rest with
      | error e =>
        simp only [Except.map]
        cases read? body <;> rfl
      | ok next => simp only [Except.map, happend]

theorem deriveWord?_eq_passes (table : RuleTable α) (depth : Nat) (word : List (Letter α)) :
    table.deriveWord? depth word =
      match (Expansion.passes table depth word).result with
      | .error _ => none
      | .ok final => final.mapM Letter.toCommand? := by
  induction depth generalizing word with
  | zero =>
    rw [Expansion.result_passes_zero]
    exact deriveWord?_of_letters rfl Letter.mapM_toCommand?_append table.derive?_zero word
  | succ depth ih =>
    have hword := deriveWord?_of_letters rfl (table.deriveWord?_append depth)
      (table.derive?_succ depth) word
    rw [hword, Expansion.result_passes_succ]
    cases Expansion.rewrite table (depth + 1) word with
    | error e => rfl
    | ok next => exact ih next

end RuleTable

namespace Expansion

/-! ### No name is left -/

theorem substitute_zero_isCommand {table : RuleTable α} {letter : Letter α}
    {body : List (Letter α)} (h : substitute table 0 letter = .ok body) :
    (body.mapM Letter.toCommand?).isSome = true := by
  cases letter with
  | rule name =>
    simp only [substitute] at h
    cases hget : table.get? name with
    | none =>
      rw [hget] at h
      cases h
    | some rule =>
      rw [hget] at h
      cases h
      rfl
  | move d =>
    cases h
    rfl
  | turn a =>
    cases h
    rfl
  | enter =>
    cases h
    rfl
  | leave =>
    cases h
    rfl

theorem rewrite_zero_isCommand {table : RuleTable α} {word next : List (Letter α)}
    (h : rewrite table 0 word = .ok next) : (next.mapM Letter.toCommand?).isSome = true := by
  induction word generalizing next with
  | nil =>
    cases h
    rfl
  | cons letter rest ih =>
    cases hs : substitute table 0 letter with
    | error e =>
      rw [rewrite_cons_error hs] at h
      cases h
    | ok body =>
      rw [rewrite_cons_ok hs] at h
      cases hr : rewrite table 0 rest with
      | error e =>
        rw [hr] at h
        cases h
      | ok tail =>
        rw [hr] at h
        cases h
        obtain ⟨cs, hcs⟩ := Option.isSome_iff_exists.1 (substitute_zero_isCommand hs)
        obtain ⟨ds, hds⟩ := Option.isSome_iff_exists.1 (ih hr)
        rw [Letter.mapM_toCommand?_append, hcs, hds]
        rfl

theorem passes_isCommand {table : RuleTable α} {depth : Nat} {word final : List (Letter α)}
    (h : (passes table depth word).result = .ok final) :
    (final.mapM Letter.toCommand?).isSome = true := by
  induction depth generalizing word with
  | zero =>
    rw [result_passes_zero] at h
    exact rewrite_zero_isCommand h
  | succ depth ih =>
    rw [result_passes_succ] at h
    cases hr : rewrite table (depth + 1) word with
    | error e =>
      rw [hr] at h
      cases h
    | ok next =>
      rw [hr] at h
      exact ih h

/-! ### Expansions -/

theorem expand_eq (table : RuleTable α) (angle : α) (seed : String) (iterations : Nat) :
    expand table angle seed iterations =
      (passes table (max iterations 1) (Letter.ofText angle seed.toList)).result.bind finish := by
  simp only [expand, start, Cancellable.map, Cancellable.result_bind, Cancellable.result]

theorem expand_error {table : RuleTable α} {angle : α} {seed : String} {iterations : Nat}
    {e : Error} (h : expand table angle seed iterations = .error e) :
    ∃ name, table.get? name = none ∧ e = .undefinedRule name := by
  rw [expand_eq] at h
  cases hp : (passes table (max iterations 1) (Letter.ofText angle seed.toList)).result with
  | error e' =>
    rw [hp] at h
    cases h
    exact passes_error hp
  | ok final =>
    rw [hp] at h
    obtain ⟨cs, hcs⟩ := Option.isSome_iff_exists.1 (passes_isCommand hp)
    have hfinish : finish final = .ok cs.toArray := by
      simp only [finish, hcs]
    exact absurd (hfinish.symm.trans h) (by simp)

theorem expand_eq_ok_iff {table : RuleTable α} {angle : α} {seed : String} {iterations : Nat}
    {script : Script α} :
    expand table angle seed iterations = .ok script ↔
      table.deriveWord? (max iterations 1) (Letter.ofText angle seed.toList) =
        some script.toList := by
  rw [expand_eq, RuleTable.deriveWord?_eq_passes]
  cases hp : (passes table (max iterations 1) (Letter.ofText angle seed.toList)).result with
  | error e =>
    constructor
    · intro h
      cases h
    · intro h
      cases h
  | ok final =>
    obtain ⟨cs, hcs⟩ := Option.isSome_iff_exists.1 (passes_isCommand hp)
    simp only [Except.bind, finish, hcs, Except.ok.injEq, Option.some.injEq]
    constructor
    · rintro rfl
      rfl
    · rintro rfl
      rfl

/-- An expansion succeeds exactly when every letter of the seed has a derivation, and then it
writes these derivations in order; it never meets a name that the passes have left. -/
theorem expand_eq_derivations (table : RuleTable α) (angle : α) (seed : String)
    (iterations : Nat) :
    (∀ script, expand table angle seed iterations = .ok script ↔
      (∀ letter ∈ Letter.ofText angle seed.toList,
        (table.derive? (max iterations 1) letter).isSome = true) ∧
      script.toList = (Letter.ofText angle seed.toList).flatMap fun letter =>
        (table.derive? (max iterations 1) letter).getD []) ∧
    ((∃ script, expand table angle seed iterations = .ok script) ↔
      ∀ letter ∈ Letter.ofText angle seed.toList,
        (table.derive? (max iterations 1) letter).isSome = true) ∧
    expand table angle seed iterations ≠ .error .ruleNameLeft := by
  refine ⟨?_, ?_, ?_⟩
  · intro script
    rw [expand_eq_ok_iff, RuleTable.deriveWord?_eq_some_iff]
  · constructor
    · rintro ⟨script, h⟩
      exact (RuleTable.deriveWord?_eq_some_iff.1 (expand_eq_ok_iff.1 h)).1
    · intro hdefined
      have hword := RuleTable.deriveWord?_eq_some_iff.2 ⟨hdefined, rfl⟩
      exact ⟨Array.mk _, expand_eq_ok_iff.2 hword⟩
  · intro h
    obtain ⟨name, _, he⟩ := expand_error h
    cases he

end Expansion

end LSystem
