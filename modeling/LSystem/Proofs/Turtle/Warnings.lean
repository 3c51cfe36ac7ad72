import LSystem.Proofs.Grammar.Pairing
import LSystem.Proofs.Turtle.Follow
import LSystem.Proofs.Turtle.Stops

/-!
# Warnings

The warnings that a turtle has recorded are the stray branch ends it has passed,
each one once and in order: as many poses are remembered as branches are open in
the part of the script behind it. A walk from the beginning records all strays
of the script, and logs them if the turtle reports.
-/

namespace LSystem

variable {α : Type}

/-- The indices of the stray branch ends among the first commands of a script. -/
def Script.strays (script : Script α) (count : Nat) : List Nat :=
  LSystem.strays Command.bracket? script.toList count

namespace Turtle

/-- A turtle that set out at the beginning of a script has recorded the strays it has passed. -/
structure Tally (script : Script α) (turtle : Turtle α) : Prop where
  inside : turtle.cursor ≤ script.size
  depth : turtle.depth = openBehind Command.bracket? (script.toList.take turtle.cursor) 0
  warnings : turtle.warnings.toList = (script.strays turtle.cursor).map .strayLeave

theorem tally_of_cursor (script : Script α) {turtle : Turtle α} (hcursor : turtle.cursor = 0)
    (hstack : turtle.stack = []) (hwarnings : turtle.warnings = #[]) : turtle.Tally script where
  inside := by
    rw [hcursor]
    exact Nat.zero_le _
  depth := by
    rw [depth, hstack, hcursor]
    rfl
  warnings := by
    rw [hwarnings, hcursor]
    rfl

variable [Scalar α]

theorem depth_obey (scale : α) (command : Command α) (turtle : Turtle α) :
    (turtle.obey scale command).1.depth = depthBehind turtle.depth command.bracket? := by
  cases command with
  | move d =>
    cases hzero : Scalar.isZero d with
    | true =>
      simp only [obey_move_zero _ hzero]
      rfl
    | false =>
      simp only [obey_move_nonzero _ hzero]
      rfl
  | turn delta => rfl
  | enter => rfl
  | leave =>
    cases hstack : turtle.stack with
    | nil =>
      simp only [obey_leave_stray _ hstack, depth, hstack]
      rfl
    | cons saved rest =>
      simp only [obey_leave_resumed _ hstack, depth, hstack]
      rfl

theorem depth_follow (scale : α) (commands : List (Command α)) (turtle : Turtle α) :
    (turtle.follow scale commands).depth = openBehind Command.bracket? commands turtle.depth := by
  induction commands generalizing turtle with
  | nil => rfl
  | cons command rest ih =>
    rw [follow_cons, ih, depth_obey]
    rfl

theorem warnings_obey (scale : α) (command : Command α) (turtle : Turtle α) :
    (turtle.obey scale command).1.warnings.toList = turtle.warnings.toList ++
      if command.bracket? = some .closing ∧ turtle.depth = 0 then [.strayLeave turtle.cursor]
      else [] := by
  cases command with
  | move d =>
    cases hzero : Scalar.isZero d with
    | true => simp [obey_move_zero _ hzero, Command.bracket?]
    | false => simp [obey_move_nonzero _ hzero, Command.bracket?]
  | turn delta => simp [obey, Command.bracket?]
  | enter => simp [obey, Command.bracket?]
  | leave =>
    cases hstack : turtle.stack with
    | nil => simp [obey_leave_stray _ hstack, depth, hstack, Command.bracket?]
    | cons saved rest => simp [obey_leave_resumed _ hstack, depth, hstack, Command.bracket?]

variable {script : Script α} {turtle after : Turtle α} {scale : α}

omit [Scalar α] in
theorem Tally.stray_iff (h : turtle.Tally script) (hlt : turtle.cursor < script.size) :
    Stray Command.bracket? script.toList turtle.cursor ↔
      script[turtle.cursor].bracket? = some .closing ∧ turtle.depth = 0 := by
  have hlength : turtle.cursor < script.toList.length := hlt
  rw [LSystem.stray_iff, h.depth, bracketAt?, List.getElem?_eq_getElem hlength,
    Array.getElem_toList, Option.bind_some]

/-- One command keeps the tally, whichever it is. -/
theorem Tally.obey (h : turtle.Tally script) (hlt : turtle.cursor < script.size) (scale : α) :
    (turtle.obey scale script[turtle.cursor]).1.Tally script := by
  have hlength : turtle.cursor < script.toList.length := hlt
  refine ⟨?_, ?_, ?_⟩
  · rw [obey_cursor]
    exact hlt
  · rw [obey_cursor, depth_obey, ← List.take_append_getElem hlength, openBehind_append,
      openBehind_singleton, ← h.depth, Array.getElem_toList]
  · rw [obey_cursor, warnings_obey, h.warnings, Script.strays, Script.strays, strays_succ,
      List.map_append]
    simp only [h.stray_iff hlt]
    split <;> rfl

theorem Tally.follow (h : turtle.Tally script) {passed rest : List (Command α)}
    (hpassed : turtle.remaining script = passed ++ rest) :
    (turtle.follow scale passed).Tally script := by
  induction passed generalizing turtle with
  | nil => exact h
  | cons command passed ih =>
    have hlt : turtle.cursor < script.size := by
      refine Nat.lt_of_not_le fun hle => ?_
      rw [remaining_of_le hle] at hpassed
      cases hpassed
    rw [remaining_of_lt scale hlt, List.cons_append] at hpassed
    obtain ⟨rfl, hrest⟩ := List.cons.inj hpassed
    exact ih (h.obey hlt scale) hrest

theorem Tally.of_reaches (h : turtle.Tally script) {before logged : Array Warning}
    (hreaches : turtle.Reaches script scale after before logged) : after.Tally script := by
  obtain ⟨passed, hpassed, hafter⟩ := hreaches.followed
  rw [hafter]
  exact h.follow hpassed

theorem Tally.advance (h : turtle.Tally script) (scale : α) :
    (turtle.advance script scale).turtle.Tally script :=
  h.of_reaches (reaches_advance script scale turtle #[])

theorem Tally.advancedBy (h : turtle.Tally script) (scales : List α) :
    (turtle.advancedBy script scales).Tally script := by
  induction scales generalizing turtle with
  | nil => exact h
  | cons scale scales ih => exact ih (h.advance scale)

/-- A turtle that set out at the beginning of a script has followed the commands before its
cursor. -/
theorem advanced_eq_follow (script : Script α) (scale : α) (start : Pose α) (reports : Bool)
    (count : Nat) :
    let after := ({ start, reports } : Turtle α).advanced script scale count
    after.cursor ≤ script.size ∧
      after = ({ start, reports } : Turtle α).follow scale (script.toList.take after.cursor) := by
  intro after
  obtain ⟨logged, hreaches⟩ := reaches_advanced script scale count { start, reports }
  have htally : after.Tally script := (tally_of_cursor script rfl rfl rfl).of_reaches hreaches
  obtain ⟨passed, hpassed, hafter⟩ := hreaches.followed
  have hscript : script.toList = passed ++ script.toList.drop after.cursor := hpassed
  have hlength : passed.length = after.cursor := by
    have hsum := congrArg List.length hscript
    have hinside : after.cursor ≤ script.toList.length := htally.inside
    rw [List.length_append, List.length_drop] at hsum
    omega
  have htake : script.toList.take after.cursor = passed := by
    rw [hscript, List.take_left' hlength]
  refine ⟨htally.inside, ?_⟩
  rw [htake]
  exact hafter

/-- A turtle that reports logs the strays of the script once each, in a walk from the beginning. -/
theorem logged_walk (script : Script α) (scale : α) (start : Pose α) :
    ((Turtle.new start).walk script scale).logged.toList =
      (script.strays script.size).map .strayLeave := by
  have htally : ((Turtle.new start).walk script scale).turtle.Tally script :=
    (tally_of_cursor script rfl rfl rfl).of_reaches
      (reaches_walkOn script scale (Turtle.new start) #[] #[]).1
  have hend : ((Turtle.new start).walk script scale).turtle.cursor = script.size :=
    Nat.le_antisymm htally.inside (size_le_cursor_walk script scale _)
  obtain ⟨_, new, hwarnings, hlogged⟩ := warned_walk script scale (Turtle.new start)
  have hnew : ((Turtle.new start).walk script scale).turtle.warnings = new :=
    hwarnings.trans (Array.empty_append ..)
  have hsame : ((Turtle.new start).walk script scale).logged = new :=
    hlogged.trans (Array.empty_append ..)
  rw [hsame, ← hnew, htally.warnings, hend]

/-- A turtle that does not report logs nothing. -/
theorem logged_advance_of_silent (script : Script α) (scale : α)
    (h : turtle.reports = false) : (turtle.advance script scale).logged = #[] := by
  obtain ⟨_, new, _, hlogged⟩ := (reaches_advance script scale turtle #[]).warned
  rw [h, Array.empty_append] at hlogged
  exact hlogged

end Turtle

end LSystem
