import LSystem.Proofs.Grammar.Nesting
import LSystem.Proofs.Turtle.Follow

/-!
# Branches of nested scripts

Along a well-nested script every branch end finds the pose that was remembered
at its start. So a turtle comes back to the open branches it had before, without
a warning, and it has left as many branches as it has entered. With nested words
this holds of whatever a grammar with well-nested bodies expands.
-/

namespace LSystem

variable {α : Type}

def Command.enters (command : Command α) : Bool := command.bracket? == some .opening

def Script.branchCount (script : Script α) : Nat := script.countP Command.enters

namespace Turtle

/-- A turtle has the open branches and the warnings of another one, and has entered and left so
many branches since. -/
structure Returns (turtle after : Turtle α) (branches : Nat) : Prop where
  stack : after.stack = turtle.stack
  warnings : after.warnings = turtle.warnings
  entries : after.entries = turtle.entries + branches
  exits : after.exits = turtle.exits + branches

theorem Returns.trans {first second third : Turtle α} {a b : Nat} (h : first.Returns second a)
    (h' : second.Returns third b) : first.Returns third (a + b) where
  stack := h'.stack.trans h.stack
  warnings := h'.warnings.trans h.warnings
  entries := by rw [h'.entries, h.entries, Nat.add_assoc]
  exits := by rw [h'.exits, h.exits, Nat.add_assoc]

variable [Scalar α]

theorem returns_obey (scale : α) {command : Command α} (h : command.bracket? = none)
    (turtle : Turtle α) : turtle.Returns (turtle.obey scale command).1 0 := by
  cases command with
  | move d =>
    cases hzero : Scalar.isZero d with
    | true =>
      simp only [obey_move_zero _ hzero]
      exact ⟨rfl, rfl, rfl, rfl⟩
    | false =>
      simp only [obey_move_nonzero _ hzero]
      exact ⟨rfl, rfl, rfl, rfl⟩
  | turn a => exact ⟨rfl, rfl, rfl, rfl⟩
  | enter => cases h
  | leave => cases h

/-- A branch end that finds its pose undoes what the start of the branch did to the stack. -/
theorem returns_follow_branch (scale : α) {inner : List (Command α)} {branches : Nat}
    (hinner : ∀ turtle : Turtle α, turtle.Returns (turtle.follow scale inner) branches)
    (turtle : Turtle α) :
    turtle.Returns (turtle.follow scale (.enter :: (inner ++ [.leave]))) (branches + 1) := by
  have hreturns := hinner (turtle.obey scale .enter).1
  rw [follow_cons, follow_append]
  generalize (turtle.obey scale .enter).1.follow scale inner = after at hreturns ⊢
  obtain ⟨hstack, hwarnings, hentries, hexits⟩ := hreturns
  have hopen : after.stack = turtle.pose :: turtle.stack := hstack
  simp only [follow, List.foldl_cons, List.foldl_nil, obey_leave_resumed _ hopen]
  refine ⟨rfl, hwarnings, ?_, ?_⟩
  · rw [hentries]
    simp only [obey]
    omega
  · rw [hexits]
    simp only [obey]
    omega

theorem returns_follow {commands : List (Command α)} (h : WellNested Command.bracket? commands)
    (scale : α) (turtle : Turtle α) :
    turtle.Returns (turtle.follow scale commands) (commands.countP Command.enters) := by
  induction h generalizing turtle with
  | nil => exact ⟨rfl, rfl, rfl, rfl⟩
  | @plain command rest hcommand _ ih =>
    have hcount : (command :: rest).countP Command.enters =
        0 + rest.countP Command.enters := by
      rw [List.countP_cons_of_neg, Nat.zero_add]
      simp only [Command.enters, hcommand]
      decide
    rw [hcount, follow_cons]
    exact (returns_obey scale hcommand turtle).trans (ih _)
  | @branch first last inner rest hfirst _ hlast _ ihinner ihrest =>
    obtain rfl := Command.eq_enter_of_bracket? hfirst
    obtain rfl := Command.eq_leave_of_bracket? hlast
    have hsplit : Command.enter :: (inner ++ .leave :: rest) =
        (.enter :: (inner ++ [.leave])) ++ rest := by
      rw [List.cons_append, List.append_assoc, List.singleton_append]
    have hcount : (Command.enter :: (inner ++ .leave :: rest)).countP Command.enters =
        inner.countP Command.enters + 1 + rest.countP Command.enters := by
      rw [List.countP_cons_of_pos rfl, List.countP_append, List.countP_cons_of_neg Bool.false_ne_true]
      omega
    rw [hcount, hsplit, follow_append]
    exact (returns_follow_branch scale ihinner turtle).trans (ihrest _)

end Turtle

namespace Expansion

variable [Scalar α]

/-- A grammar whose seed and bodies are well nested expands, at any depth, to a well-nested script.
A walk of it, from anywhere and at any scale, meets no stray branch end, leaves no branch open, and
has entered and left each branch of the script once. -/
theorem nested_grammar_walks {table : RuleTable α} {angle : α} {seed : String} {iterations : Nat}
    {script : Script α} (nested : ∀ rule ∈ table.rules, WellNested Letter.bracket? rule.body)
    (hseed : WellNested Bracket.ofChar? seed.toList)
    (expanded : expand table angle seed iterations = .ok script) :
    WellNested Command.bracket? script.toList ∧
    ∀ (start : Pose α) (scale : α) (reports : Bool),
      let walk := ({ start, reports } : Turtle α).walk script scale
      walk.turtle.atEnd script = true ∧ walk.turtle.warnings = #[] ∧ walk.logged = #[] ∧
      walk.turtle.stack = [] ∧ walk.turtle.entries = script.branchCount ∧
      walk.turtle.exits = script.branchCount := by
  have hscript := wellNested_expand nested hseed expanded
  refine ⟨hscript, ?_⟩
  intro start scale reports walk
  have hreturns : ({ start, reports } : Turtle α).Returns walk.turtle script.branchCount := by
    have hfollow := Turtle.returns_follow hscript scale { start, reports }
    have hwalk : walk.turtle = ({ start, reports } : Turtle α).follow scale script.toList :=
      Turtle.turtle_walk ..
    rw [hwalk, Script.branchCount, ← Array.countP_toList]
    exact hfollow
  obtain ⟨hstack, hwarnings, hentries, hexits⟩ := hreturns
  refine ⟨?_, hwarnings, ?_, hstack, ?_, ?_⟩
  · exact decide_eq_true (Turtle.size_le_cursor_walk ..)
  · obtain ⟨_, new, hnew, hlogged⟩ := Turtle.warned_walk script scale { start, reports }
    have hnone : new = #[] := Array.self_eq_append_right.1 (hwarnings.symm.trans hnew)
    show (Turtle.walk script scale { start, reports }).logged = #[]
    rw [hlogged, hnone, ite_self, Array.empty_append]
  · rw [hentries, Nat.zero_add]
  · rw [hexits, Nat.zero_add]

/-- One rule whose name stands inside two open branches of its body. -/
def bush : RuleTable Float where
  rules := [{ name := 'b', body := Letter.ofText 45 "b[-b[+b]]b".toList, distance := 3 }]
  sorted := List.pairwise_singleton ..

theorem nested_grammar_walks_bush :
    (∀ rule ∈ bush.rules, WellNested Letter.bracket? rule.body) ∧
    WellNested Bracket.ofChar? "[b]".toList ∧
    ∃ script, expand bush 45 "[b]" 2 = .ok script ∧ script.branchCount = 11 ∧
      WellNested Command.bracket? script.toList ∧
      (Turtle.silent (Pose.mk 1 2 30) |>.walk script 0.5).turtle.exits = 11 := by
  have nested : ∀ rule ∈ bush.rules, WellNested Letter.bracket? rule.body := by decide +kernel
  have hseed : WellNested Bracket.ofChar? "[b]".toList := by decide +kernel
  cases expanded : expand bush 45 "[b]" 2 with
  | error e =>
    have hok : (expand bush 45 "[b]" 2).isOk = true := by decide +kernel
    rw [expanded] at hok
    cases hok
  | ok script =>
    have hcount : (expand bush 45 "[b]" 2).toOption.map Script.branchCount = some 11 := by
      decide +kernel
    rw [expanded] at hcount
    have hbranches : script.branchCount = 11 := Option.some.inj hcount
    obtain ⟨hscript, hwalks⟩ := nested_grammar_walks nested hseed expanded
    have hexits := (hwalks (Pose.mk 1 2 30) 0.5 false).2.2.2.2.2
    exact ⟨nested, hseed, script, rfl, hbranches, hscript, hexits.trans hbranches⟩

end Expansion

end LSystem
