import Mathlib.Algebra.Ring.Nat
import LSystem.Proofs.Grammar.Checked
import LSystem.Proofs.Grammar.Motions
import LSystem.Proofs.Turtle.Trace

/-!
# The Hilbert grammar

The built-in grammar of that name has a rule for the curve to the left of its
heading and one for its mirror image to the right. Either of them is made of
four curves, two of each kind, with three lines in between.
-/

namespace LSystem

def Side.other : Side → Side
  | .left => .right
  | .right => .left

section Derivations

variable {α : Type} [Scalar α] {table : RuleTable α} {rule : Rule α}

theorem RuleTable.derive?_zero_of_mem (h : rule ∈ table.rules) :
    table.derive? 0 (.rule rule.name) = some [.move (Scalar.ofInt rule.distance)] := by
  rw [derive?, get?_of_mem h]

theorem RuleTable.derive?_succ_of_isEmpty (h : rule ∈ table.rules)
    (hbody : rule.body.isEmpty = true) (n : Nat) :
    table.derive? (n + 1) (.rule rule.name) = some [.move (Scalar.ofInt rule.distance)] := by
  rw [derive?, get?_of_mem h]
  exact if_pos hbody

theorem RuleTable.derive?_succ_of_body (h : rule ∈ table.rules)
    (hbody : rule.body.isEmpty = false) (n : Nat) :
    table.derive? (n + 1) (.rule rule.name) = table.deriveWord? n rule.body := by
  rw [derive?, get?_of_mem h]
  exact if_neg (Bool.eq_false_iff.1 hbody)

end Derivations

namespace Hilbert

/-- The curve to one side of the heading, with so many replacements below each other. -/
def curve : Side → Nat → List Motion
  | _, 0 => [.move 0]
  | side, n + 1 =>
    (.turn side :: curve side.other n) ++ .move 20 :: (.turn side.other :: curve side n) ++
      .move 20 :: (curve side n ++ [.turn side.other]) ++
        .move 20 :: (curve side.other n ++ [.turn side])

/-! ### The derivation -/

def turnChar : Side → Char
  | .left => '+'
  | .right => '-'

def name : Side → Char
  | .left => 'l'
  | .right => 'r'

def lineText : RuleText := ⟨'f', [], 20⟩

/-- The rule for the curve to one side. -/
def curveText (side : Side) : RuleText where
  name := name side
  body := [turnChar side, name side.other, 'f', turnChar side.other, name side, 'f', name side,
    turnChar side.other, 'f', name side.other, turnChar side]
  distance := 0

def texts : List RuleText := [lineText, curveText .left, curveText .right]

theorem mapM_parse_eq_ok :
    ["f::20", "l:+rf-lfl-fr+:0", "r:-lf+rfr+fl-:0"].mapM RuleText.parse = .ok texts := by rfl

theorem curveText_mem (side : Side) : curveText side ∈ texts := by
  cases side <;> decide

section Derivation

variable {α : Type} [Scalar α]

theorem ofChar_turnChar (angle : α) (side : Side) :
    Letter.ofChar angle (turnChar side) = (Motion.command angle (.turn side)).letter := by
  cases side <;> rfl

theorem ofChar_name (angle : α) (side : Side) :
    Letter.ofChar angle (name side) = .rule (name side) := by
  cases side <;> rfl

theorem ofChar_line (angle : α) : Letter.ofChar angle 'f' = .rule 'f' := rfl

theorem derive?_letter (table : RuleTable α) (n : Nat) (command : Command α) :
    table.derive? n command.letter = some [command] := by
  cases command <;> cases n <;> rfl

variable {angle : α} {table : RuleTable α}

theorem derive?_line (h : ∀ text ∈ texts, text.rule angle ∈ table.rules) (n : Nat) :
    table.derive? n (.rule 'f') = some [Motion.command angle (.move 20)] := by
  have hline : lineText.rule angle ∈ table.rules := h lineText (by decide)
  cases n with
  | zero => exact RuleTable.derive?_zero_of_mem hline
  | succ n => exact RuleTable.derive?_succ_of_isEmpty hline rfl n

theorem derive?_curve (h : ∀ text ∈ texts, text.rule angle ∈ table.rules) (side : Side) (n : Nat) :
    table.derive? n (.rule (name side)) = some ((curve side n).map (Motion.command angle)) := by
  have hcurve := fun side => h (curveText side) (curveText_mem side)
  induction n generalizing side with
  | zero => exact RuleTable.derive?_zero_of_mem (hcurve side)
  | succ n ih =>
    have hbody : table.derive? (n + 1) (.rule (name side)) =
        table.deriveWord? n (Letter.ofText angle (curveText side).body) :=
      RuleTable.derive?_succ_of_body (hcurve side) rfl n
    rw [hbody]
    simp only [curveText, Letter.ofText, List.map_cons, List.map_nil, ofChar_turnChar, ofChar_name,
      ofChar_line, RuleTable.deriveWord?_cons, derive?_letter, ih, derive?_line h, Option.bind_some]
    simp only [RuleTable.deriveWord?, List.mapM_nil, Option.pure_def, Option.map_some]
    simp only [curve, List.map_append, List.map_cons, List.map_nil, List.flatten_nil,
      List.append_nil, List.append_assoc, List.cons_append, List.nil_append]

variable (α) in
/-- What the built-in grammar expands to, in numbers of any kind. -/
theorem expansion_eq_curve {n : Nat} (hn : 1 ≤ n) :
    ∃ grammar : Grammar α, Catalogue.get? "hilbert" = some grammar ∧
      (Request.mk grammar grammar.seed n (Scalar.ofInt 90)).expansion.result =
        .ok (Motion.script (Scalar.ofInt 90) (curve .left n)) := by
  refine ⟨_, rfl, ?_⟩
  obtain ⟨table, htable, hrules⟩ :=
    RuleTable.exists_parse_eq_ok (Scalar.ofInt 90 : α) mapM_parse_eq_ok (by decide)
  have hexpand : Expansion.expand table (Scalar.ofInt 90) "l" n =
      .ok (Motion.script (Scalar.ofInt 90) (curve .left n)) := by
    rw [Expansion.expand_eq_ok_iff, Nat.max_eq_left hn]
    exact (RuleTable.deriveWord?_singleton ..).trans
      (derive?_curve (fun text htext => (hrules _).2 ⟨text, htext, rfl⟩) .left n)
  simp only [Request.expansion, Grammar.table, htable]
  exact hexpand

end Derivation

/-! ### Counts -/

theorem length_curve (side : Side) (n : Nat) : 3 * (curve side n).length + 7 = 10 * 4 ^ n := by
  induction n generalizing side with
  | zero => rfl
  | succ n ih =>
    have hside := ih side
    have hother := ih side.other
    simp only [curve, List.length_append, List.length_cons, List.length_nil, Nat.pow_succ]
    omega

theorem filterMap_drawn?_curve {α : Type} [Scalar α]
    (hzero : Scalar.isZero (Scalar.ofInt 0 : α) = true)
    (hline : Scalar.isZero (Scalar.ofInt 20 : α) = false) (angle : α) (side : Side) (n : Nat) :
    ((curve side n).map (Motion.command angle)).filterMap Command.drawn? =
      List.replicate (4 ^ n - 1) (Scalar.ofInt 20) := by
  induction n generalizing side with
  | zero => simp [curve, Motion.command, Command.drawn?, hzero]
  | succ n ih =>
    have hturn : ∀ side, (Motion.command angle (.turn side)).drawn? = none := by
      intro side
      cases side <;> rfl
    have hmove : (Motion.command angle (.move 20)).drawn? = some (Scalar.ofInt 20) := by
      simp [Motion.command, Command.drawn?, hline]
    simp only [curve, List.map_append, List.map_cons, List.map_nil, List.filterMap_append,
      List.filterMap_cons_none (hturn _), List.filterMap_cons_some hmove, List.filterMap_nil, ih]
    refine List.eq_replicate_iff.2 ⟨?_, ?_⟩
    · have hpos : 0 < 4 ^ n := Nat.pow_pos (by decide)
      simp only [List.length_append, List.length_cons, List.length_replicate, List.length_nil,
        Nat.pow_succ]
      omega
    · intro x hx
      simp only [List.mem_append, List.mem_cons, List.mem_replicate, List.not_mem_nil] at hx
      tauto

theorem script_curve (n : Nat) :
    let script : Script Float := Motion.script (Scalar.ofInt 90) (curve .left n)
    script.size = (10 * 4 ^ n - 7) / 3 ∧ script.drawCount = 4 ^ n - 1 ∧
      ∀ d ∈ script.drawnDistances, d = Scalar.ofInt 20 := by
  intro script
  have hlength : script.size = (curve .left n).length := by simp [script, Motion.script]
  have hcurve := length_curve .left n
  have hdrawn : script.drawnDistances = List.replicate (4 ^ n - 1) (Scalar.ofInt 20) :=
    filterMap_drawn?_curve (by decide +kernel) (by decide +kernel) _ .left n
  refine ⟨by omega, ?_, fun d hd => ?_⟩
  · rw [← Script.length_drawnDistances, hdrawn, List.length_replicate]
  · rw [hdrawn] at hd
    exact List.eq_of_mem_replicate hd

end Hilbert

end LSystem
