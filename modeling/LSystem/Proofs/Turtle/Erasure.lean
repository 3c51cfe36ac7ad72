import LSystem.Proofs.Grammar.Enclosure
import LSystem.Proofs.Turtle.Branches
import LSystem.Proofs.Turtle.Warnings

/-!
# Completed branches leave no trace

Where a turtle is depends on the commands outside the completed branches alone:
it stands, bit for bit, where these would have led it, and it remembers where
they would have led it at each open branch. Whatever it draws behind a branch
is drawn as if the branch had never been there.
-/

namespace LSystem

variable {α : Type} [Scalar α]

namespace Pose

/-- What a turn, or a move by anything but zero, makes of a pose. -/
def steered (scale : α) (pose : Pose α) : Command α → Pose α
  | .turn delta => pose.turned delta
  | .move d => if Scalar.isZero d then pose else pose.moved d scale
  | .enter => pose
  | .leave => pose

/-- The pose that the commands outside completed branches lead to. -/
def settled (scale : α) (commands : List (Command α)) (start : Pose α) : Pose α :=
  (kept Command.bracket? commands).foldl (steered scale) start

theorem steered_of_bracket? (scale : α) (pose : Pose α) {command : Command α} {bracket : Bracket}
    (h : command.bracket? = some bracket) : pose.steered scale command = pose := by
  cases command with
  | move d => cases h
  | turn a => cases h
  | enter => rfl
  | leave => rfl

theorem settled_concat (scale : α) {init : List (Command α)} {command : Command α}
    (hfree : ∀ first, ¬ Pairs Command.bracket? (init ++ [command]) first init.length)
    (start : Pose α) :
    start.settled scale (init ++ [command]) = (start.settled scale init).steered scale command := by
  rw [settled, kept_concat hfree, List.foldl_append]
  rfl

/-- These poses at the branches that are still open, outermost first. -/
def remembered (scale : α) (commands : List (Command α)) (start : Pose α) : List (Pose α) :=
  (openings Command.bracket? commands).map fun i => start.settled scale (commands.take i)

theorem map_settled_append (scale : α) (u v : List (Command α)) (start : Pose α) :
    ((openings Command.bracket? u).map fun i => start.settled scale ((u ++ v).take i)) =
      start.remembered scale u := by
  refine List.map_congr_left fun i hi => ?_
  have hlt : i < u.length := List.mem_range.1 (List.mem_of_mem_filter hi)
  rw [List.take_append_of_le_length (Nat.le_of_lt hlt)]

theorem remembered_concat (scale : α) {init : List (Command α)} {command : Command α}
    (hfree : ∀ first, ¬ Pairs Command.bracket? (init ++ [command]) first init.length)
    (start : Pose α) :
    start.remembered scale (init ++ [command]) = start.remembered scale init ++
      if command.bracket? = some .opening then [start.settled scale init] else [] := by
  rw [remembered, openings_concat hfree, List.map_append, map_settled_append]
  congr 1
  split
  · rw [List.map_singleton, List.take_left']
    rfl
  · rfl

theorem remembered_append (scale : α) {nested : List (Command α)}
    (h : WellNested Command.bracket? nested) (commands : List (Command α)) (start : Pose α) :
    start.remembered scale (commands ++ nested) = start.remembered scale commands := by
  rw [remembered, openings_append h, map_settled_append]

end Pose

namespace Turtle

theorem obey_of_bracket?_eq_none (scale : α) {command : Command α} (h : command.bracket? = none)
    (turtle : Turtle α) :
    (turtle.obey scale command).1.pose = turtle.pose.steered scale command ∧
      (turtle.obey scale command).1.stack = turtle.stack := by
  cases command with
  | move d =>
    cases hzero : Scalar.isZero d with
    | true => simp only [obey_move_zero _ hzero, Pose.steered, hzero, if_true, and_self]
    | false =>
      simp only [obey_move_nonzero _ hzero, Pose.steered, hzero, Bool.false_eq_true, if_false, and_self]
  | turn a => exact ⟨rfl, rfl⟩
  | enter => cases h
  | leave => cases h

/-- A branch end finds no pose to resume exactly where it pairs with nothing. -/
theorem stack_follow_eq_nil_iff (scale : α) (start : Pose α) (reports : Bool)
    (init : List (Command α)) {command : Command α} (h : command.bracket? = some .closing) :
    (({ start, reports } : Turtle α).follow scale init).stack = [] ↔
      ∀ first, ¬ Pairs Command.bracket? (init ++ [command]) first init.length := by
  have hclosing : bracketAt? Command.bracket? (init ++ [command]) init.length = some .closing := by
    rw [bracketAt?, List.getElem?_concat_length]
    exact h
  have hstray : Stray Command.bracket? (init ++ [command]) init.length ↔ _ := stray_iff
  rw [List.take_left' rfl, and_iff_right hclosing] at hstray
  rw [← List.length_eq_zero_iff, ← depth, depth_follow]
  refine hstray.symm.trans ⟨fun hnone first hpairs => ?_, fun hfree => ⟨hclosing, fun first _ => ?_⟩⟩
  · exact hnone.2 first hpairs.1 hpairs
  · exact hfree first

/-- A turtle comes back from a branch to where it has entered it. -/
theorem pose_follow_branch (scale : α) {inner : List (Command α)}
    (hinner : WellNested Command.bracket? inner) (turtle : Turtle α) :
    (turtle.follow scale (.enter :: (inner ++ [.leave]))).pose = turtle.pose := by
  have hstack := (returns_follow hinner scale (turtle.obey scale .enter).1).stack
  rw [follow_cons, follow_append]
  generalize (turtle.obey scale .enter).1.follow scale inner = after at hstack ⊢
  have hopen : after.stack = turtle.pose :: turtle.stack := hstack
  rw [follow_cons, obey_leave_resumed _ hopen]
  rfl

/-- Where a turtle is, and where it was at the branches that are still open, along any commands. -/
theorem follow_settled (scale : α) (start : Pose α) (reports : Bool) (commands : List (Command α)) :
    let after := ({ start, reports } : Turtle α).follow scale commands
    after.pose = start.settled scale commands ∧
      after.stack.reverse = start.remembered scale commands := by
  induction commands using reading_induction Command.bracket? with
  | nil => exact ⟨rfl, rfl⟩
  | letter init command hfree ih =>
    obtain ⟨hpose, hstack⟩ := ih
    dsimp only
    rw [Pose.settled_concat scale hfree, Pose.remembered_concat scale hfree, follow_append,
      ← hpose, ← hstack]
    have hstray (hclosing : command.bracket? = some .closing) :=
      (stack_follow_eq_nil_iff scale start reports init hclosing).2 hfree
    generalize ({ start, reports } : Turtle α).follow scale init = turtle at *
    show (turtle.obey scale command).1.pose = _ ∧ (turtle.obey scale command).1.stack.reverse = _
    cases hbracket : command.bracket? with
    | none =>
      obtain ⟨hpose', hstack'⟩ := obey_of_bracket?_eq_none scale hbracket turtle
      rw [hpose', hstack', if_neg (by decide), List.append_nil]
      exact ⟨rfl, rfl⟩
    | some bracket =>
      rw [Pose.steered_of_bracket? scale _ hbracket]
      cases bracket with
      | opening =>
        obtain rfl := Command.eq_enter_of_bracket? hbracket
        exact ⟨rfl, List.reverse_cons⟩
      | closing =>
        -- The end is a stray one, so that nothing is remembered to come back to.
        have hempty : turtle.stack = [] := hstray hbracket
        obtain rfl := Command.eq_leave_of_bracket? hbracket
        rw [obey_leave_stray _ hempty, if_neg (by decide), List.append_nil]
        exact ⟨rfl, rfl⟩
  | branch before opening inner closing hopening hinner hclosing ih =>
    obtain ⟨hpose, hstack⟩ := ih
    have hbranch : WellNested Command.bracket? (opening :: (inner ++ [closing])) :=
      .branch hopening hinner hclosing .nil
    dsimp only
    rw [Pose.settled, kept_branch hopening hinner hclosing, Pose.remembered_append scale hbranch,
      follow_append, (returns_follow hbranch scale _).stack]
    obtain rfl := Command.eq_enter_of_bracket? hopening
    obtain rfl := Command.eq_leave_of_bracket? hclosing
    rw [pose_follow_branch scale hinner]
    exact ⟨hpose, hstack⟩

/-! ### What is drawn -/

/-- The ends of the steps along some commands. -/
def drawn (scale : α) (commands : List (Command α)) (turtle : Turtle α) :
    List (Point α × Point α) := (trace scale commands turtle false).map Step.ends

theorem map_ends_trace (scale : α) (commands : List (Command α)) (turtle : Turtle α)
    (resumed : Bool) :
    (trace scale commands turtle resumed).map Step.ends = turtle.drawn scale commands := by
  induction commands generalizing turtle resumed with
  | nil => rfl
  | cons command rest ih =>
    simp only [drawn, trace]
    split
    · rfl
    · rfl
    · rw [ih, ih]
    · rw [ih, ih]

theorem drawn_cons (scale : α) (command : Command α) (rest : List (Command α))
    (turtle : Turtle α) :
    turtle.drawn scale (command :: rest) =
      (if command.draws then [(turtle.pose.point, (turtle.obey scale command).1.pose.point)]
        else []) ++ (turtle.obey scale command).1.drawn scale rest := by
  cases hdraws : command.draws with
  | true =>
    obtain ⟨d, _, hpose, htrace⟩ := exists_trace_cons_of_draws scale rest turtle false hdraws
    rw [drawn, htrace, hpose]
    rfl
  | false =>
    obtain ⟨resumed, htrace, _⟩ := exists_trace_cons_of_not_draws scale rest turtle false hdraws
    rw [drawn, htrace, map_ends_trace]
    rfl

theorem drawn_append (scale : α) (u v : List (Command α)) (turtle : Turtle α) :
    turtle.drawn scale (u ++ v) =
      turtle.drawn scale u ++ (turtle.follow scale u).drawn scale v := by
  induction u generalizing turtle with
  | nil => rfl
  | cons command rest ih =>
    rw [List.cons_append, drawn_cons, drawn_cons, ih, follow_cons, List.append_assoc]

theorem length_drawn (scale : α) (commands : List (Command α)) (turtle : Turtle α) :
    (turtle.drawn scale commands).length = commands.countP Command.draws := by
  rw [drawn, List.length_map, length_trace]

/-- Where a command leads to depends on nothing but where the turtle is and what it remembers. -/
theorem obey_congr (scale : α) (command : Command α) {a b : Turtle α} (hpose : a.pose = b.pose)
    (hstack : a.stack = b.stack) :
    (a.obey scale command).1.pose = (b.obey scale command).1.pose ∧
      (a.obey scale command).1.stack = (b.obey scale command).1.stack := by
  cases hbracket : command.bracket? with
  | none =>
    obtain ⟨hposeA, hstackA⟩ := obey_of_bracket?_eq_none scale hbracket a
    obtain ⟨hposeB, hstackB⟩ := obey_of_bracket?_eq_none scale hbracket b
    rw [hposeA, hposeB, hstackA, hstackB, hpose, hstack]
    exact ⟨rfl, rfl⟩
  | some bracket =>
    cases bracket with
    | opening =>
      obtain rfl := Command.eq_enter_of_bracket? hbracket
      exact ⟨hpose, congrArg₂ List.cons hpose hstack⟩
    | closing =>
      obtain rfl := Command.eq_leave_of_bracket? hbracket
      cases hsaved : b.stack with
      | nil =>
        rw [obey_leave_stray _ hsaved, obey_leave_stray _ (hstack.trans hsaved)]
        exact ⟨hpose, hstack⟩
      | cons saved rest =>
        rw [obey_leave_resumed _ hsaved, obey_leave_resumed _ (hstack.trans hsaved)]
        exact ⟨rfl, rfl⟩

theorem drawn_congr (scale : α) (commands : List (Command α)) {a b : Turtle α}
    (hpose : a.pose = b.pose) (hstack : a.stack = b.stack) :
    a.drawn scale commands = b.drawn scale commands := by
  induction commands generalizing a b with
  | nil => rfl
  | cons command rest ih =>
    obtain ⟨hpose', hstack'⟩ := obey_congr scale command hpose hstack
    rw [drawn_cons, drawn_cons, hpose, hpose', ih hpose' hstack']

theorem map_ends_walk (script : Script α) (scale : α) {turtle : Turtle α}
    (h : turtle.cursor = 0) :
    (turtle.walk script scale).steps.toList.map Step.ends = turtle.drawn scale script.toList := by
  rw [steps_walk_of_cursor script scale h, drawn]

/-- A turtle that has come anywhere in a script is where the turns and moves outside the branches
completed so far lead to, and it remembers, outermost first, where they lead to at each branch
that is still open. A branch can be taken out of a script: what is drawn before and behind it stays
the same. -/
theorem completed_branches_leave_no_trace :
    (∀ (script : Script α) (scale : α) (start : Pose α) (reports : Bool) (count : Nat),
      let turtle := ({ start, reports } : Turtle α).advanced script scale count
      turtle.cursor ≤ script.size ∧
      turtle.pose = start.settled scale (script.toList.take turtle.cursor) ∧
      turtle.stack.reverse = start.remembered scale (script.toList.take turtle.cursor)) ∧
    ∀ (scale : α) (start : Pose α) (reports : Bool) (left inner right : List (Command α)),
      WellNested Command.bracket? inner →
        let ends (commands : List (Command α)) :=
          (({ start, reports } : Turtle α).walk commands.toArray scale).steps.toList.map Step.ends
        ∃ before inside behind,
          ends (left ++ .enter :: (inner ++ .leave :: right)) = before ++ inside ++ behind ∧
          ends (left ++ right) = before ++ behind ∧
          before.length = left.countP Command.draws ∧
          inside.length = inner.countP Command.draws := by
  refine ⟨?_, ?_⟩
  · intro script scale start reports count turtle
    obtain ⟨hinside, hfollow⟩ := advanced_eq_follow script scale start reports count
    obtain ⟨hpose, hstack⟩ := follow_settled scale start reports (script.toList.take turtle.cursor)
    rw [← hfollow] at hpose hstack
    exact ⟨hinside, hpose, hstack⟩
  · intro scale start reports left inner right hinner ends
    have hends (commands : List (Command α)) :
        ends commands = ({ start, reports } : Turtle α).drawn scale commands :=
      map_ends_walk commands.toArray scale rfl
    have hsplit : left ++ Command.enter :: (inner ++ .leave :: right) =
        left ++ (.enter :: (inner ++ [.leave]) ++ right) := by
      rw [List.cons_append, List.append_assoc, List.singleton_append]
    have hbranch : WellNested Command.bracket? (.enter :: (inner ++ [.leave])) :=
      .branch rfl hinner rfl .nil
    rw [hsplit, hends, hends, drawn_append, drawn_append, drawn_append]
    generalize ({ start, reports } : Turtle α).follow scale left = turtle
    have hback : (turtle.follow scale (.enter :: (inner ++ [.leave]))).drawn scale right =
        turtle.drawn scale right :=
      drawn_congr scale right (pose_follow_branch scale hinner turtle)
        (returns_follow hbranch scale turtle).stack
    rw [hback, ← List.append_assoc]
    refine ⟨_, _, _, rfl, rfl, length_drawn .., ?_⟩
    rw [length_drawn, List.countP_cons_of_neg Bool.false_ne_true, List.countP_append]
    rfl

/-- What a branch may hold: two moves that draw, one of them in a branch of its own. -/
def twig : List (Command Float) := [.move 2, .enter, .turn 90, .move (-1), .leave, .move 0]

theorem completed_branches_leave_no_trace_twig :
    WellNested Command.bracket? twig ∧
      let ends (commands : List (Command Float)) :=
        ((Turtle.silent ⟨1, 2, 45⟩).walk commands.toArray 0.5).steps.toList.map Step.ends
      ∃ before inside behind,
        ends ([.leave, .move 3] ++ .enter :: (twig ++ .leave :: [.move 1])) =
          before ++ inside ++ behind ∧
        ends [.leave, .move 3, .move 1] = before ++ behind ∧
        before.length = 1 ∧ inside.length = 2 := by
  have hnested : WellNested Command.bracket? twig := by decide +kernel
  refine ⟨hnested, ?_⟩
  intro ends
  obtain ⟨before, inside, behind, hwith, hwithout, hbefore, hinside⟩ :=
    completed_branches_leave_no_trace.2 0.5 ⟨1, 2, 45⟩ false [.leave, .move 3] twig [.move 1] hnested
  refine ⟨before, inside, behind, hwith, hwithout, hbefore.trans ?_, hinside.trans ?_⟩
  · decide +kernel
  · decide +kernel

end Turtle

end LSystem
