import LSystem.Grammar.Rule

/-!
# Rule tables

The rules of one grammar in the order of their names, at most one for each
name. Two tables with the same rules are equal, whatever order they were added in.
-/

namespace LSystem

/-- Rules in the strict order of their names. -/
structure RuleTable (α : Type) where
  rules : List (Rule α)
  sorted : rules.Pairwise fun a b => a.name < b.name

namespace RuleTable

variable {α : Type}

def empty : RuleTable α := ⟨[], .nil⟩

def get? (table : RuleTable α) (name : Char) : Option (Rule α) :=
  table.rules.find? fun rule => rule.name == name

def contains (table : RuleTable α) (name : Char) : Bool :=
  table.rules.any fun rule => rule.name == name

def size (table : RuleTable α) : Nat := table.rules.length

theorem eq_of_mem_iff {as bs : List (Rule α)}
    (has : as.Pairwise fun a b => a.name < b.name) (hbs : bs.Pairwise fun a b => a.name < b.name)
    (h : ∀ r, r ∈ as ↔ r ∈ bs) : as = bs := by
  induction as generalizing bs with
  | nil =>
    cases bs with
    | nil => rfl
    | cons b bs => exact absurd ((h b).2 (List.mem_cons_self ..)) (by simp)
  | cons a as ih =>
    cases bs with
    | nil => exact absurd ((h a).1 (List.mem_cons_self ..)) (by simp)
    | cons b bs =>
      obtain ⟨ha, has'⟩ := List.pairwise_cons.1 has
      obtain ⟨hb, hbs'⟩ := List.pairwise_cons.1 hbs
      have hab : a = b := by
        rcases List.mem_cons.1 ((h a).1 (List.mem_cons_self ..)) with hab | ha'
        · exact hab
        · rcases List.mem_cons.1 ((h b).2 (List.mem_cons_self ..)) with hba | hb'
          · exact hba.symm
          · exact absurd (hb a ha') (Char.lt_asymm (ha b hb'))
      subst hab
      refine congrArg (a :: ·) (ih has' hbs' fun r => ?_)
      constructor
      · intro hr
        rcases List.mem_cons.1 ((h r).1 (List.mem_cons_of_mem _ hr)) with rfl | hr'
        · exact absurd (ha _ hr) (Char.lt_irrefl _)
        · exact hr'
      · intro hr
        rcases List.mem_cons.1 ((h r).2 (List.mem_cons_of_mem _ hr)) with rfl | hr'
        · exact absurd (hb _ hr) (Char.lt_irrefl _)
        · exact hr'

theorem ext_mem {a b : RuleTable α} (h : ∀ r, r ∈ a.rules ↔ r ∈ b.rules) : a = b := by
  cases a
  cases b
  simp only [mk.injEq]
  exact eq_of_mem_iff ‹_› ‹_› h

def place (rule : Rule α) : List (Rule α) → List (Rule α)
  | [] => [rule]
  | first :: rest =>
    if rule.name < first.name then rule :: first :: rest else first :: place rule rest

theorem mem_place {rule r : Rule α} {rules : List (Rule α)} :
    r ∈ place rule rules ↔ r = rule ∨ r ∈ rules := by
  induction rules with
  | nil => simp [place]
  | cons first rest ih =>
    unfold place
    split
    · simp
    · simp only [List.mem_cons, ih]
      constructor
      · rintro (h | h | h) <;> simp [h]
      · rintro (h | h | h) <;> simp [h]

theorem pairwise_place {rule : Rule α} {rules : List (Rule α)}
    (sorted : rules.Pairwise fun a b => a.name < b.name)
    (fresh : ∀ r ∈ rules, r.name ≠ rule.name) :
    (place rule rules).Pairwise fun a b => a.name < b.name := by
  induction rules with
  | nil => simp [place]
  | cons first rest ih =>
    obtain ⟨hfirst, hrest⟩ := List.pairwise_cons.1 sorted
    unfold place
    split
    · rename_i hlt
      refine List.pairwise_cons.2 ⟨?_, sorted⟩
      intro r hr
      rcases List.mem_cons.1 hr with rfl | hr
      · exact hlt
      · exact Char.lt_trans hlt (hfirst r hr)
    · rename_i hlt
      refine List.pairwise_cons.2 ⟨?_, ih hrest fun r hr => fresh r (List.mem_cons_of_mem _ hr)⟩
      intro r hr
      rcases mem_place.1 hr with rfl | hr
      · have hne := fresh first (List.mem_cons_self ..)
        have hle : first.name ≤ r.name := Char.not_lt.1 hlt
        exact Char.not_le.1 fun hge => hne (Char.le_antisymm hle hge)
      · exact hfirst r hr

def insert (table : RuleTable α) (rule : Rule α) : Except Error (RuleTable α) :=
  if taken : table.contains rule.name then .error (.ruleRepeated rule.name)
  else
    .ok
      { rules := place rule table.rules
        sorted := pairwise_place table.sorted fun r hr hname =>
          taken (List.any_eq_true.2 ⟨r, hr, beq_iff_eq.2 hname⟩) }

def addAll [Scalar α] (angle : α) : RuleTable α → List String → Except Error (RuleTable α)
  | table, [] => .ok table
  | table, encoding :: rest => do
    let rule ← Rule.parse angle encoding
    let table ← table.insert rule
    addAll angle table rest

def parse [Scalar α] (angle : α) (encodings : List String) : Except Error (RuleTable α) :=
  addAll angle empty encodings

def undefinedIn? (table : RuleTable α) : List (Letter α) → Option Char
  | [] => none
  | .rule name :: rest => if table.contains name then undefinedIn? table rest else some name
  | _ :: rest => undefinedIn? table rest

/-- Checks that every name in a body has a rule; the first offender in the order of rule names
and body positions is reported. -/
def checkReferences (table : RuleTable α) : Except Error Unit :=
  match table.rules.findSome? fun rule => (table.undefinedIn? rule.body).map (rule.name, ·) with
  | none => .ok ()
  | some (rule, name) => .error (.ruleReference rule name)

end RuleTable

end LSystem
