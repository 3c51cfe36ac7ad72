import LSystem.Turtle.Layout
import Mathlib.Data.List.Chain
import Mathlib.Data.List.Forall2
import Mathlib.Logic.Function.Iterate

/-!
# Traces

A turtle looks for its steps one at a time, with a cursor into the script. The
trace is the same list of steps as a plain recursion over the commands that are
left. Walks, single searches and any number of searches in a row are read off
it: there is one step for each command that draws, in order, and a step begins
where the one before it has ended unless a branch was resumed in between.
-/

namespace LSystem

variable {α : Type}

/-- Where `next` does not resume a branch it goes on from the end of `step`. -/
def Step.Follows (next step : Step α) : Prop := next.resumed = false → next.start = step.stop

/-- Where a step begins and where it ends. -/
def Step.ends (step : Step α) : Point α × Point α := (step.start, step.stop)

def Turtle.remaining (turtle : Turtle α) (script : Script α) : List (Command α) :=
  script.toList.drop turtle.cursor

theorem Turtle.remaining_of_le {turtle : Turtle α} {script : Script α}
    (h : script.size ≤ turtle.cursor) : turtle.remaining script = [] :=
  List.drop_eq_nil_of_le (by simpa using h)

variable [Scalar α]

/-- The distance of a command that draws. -/
def Command.drawn? : Command α → Option α
  | move d => if Scalar.isZero d then none else some d
  | _ => none

theorem Command.isSome_drawn? (command : Command α) : command.drawn?.isSome = command.draws := by
  cases command with
  | move d =>
    simp only [drawn?, draws]
    cases Scalar.isZero d <;> rfl
  | turn a => rfl
  | enter => rfl
  | leave => rfl

namespace Script

def drawnDistances (script : Script α) : List α := script.toList.filterMap Command.drawn?

theorem length_drawnDistances (script : Script α) :
    script.drawnDistances.length = script.drawCount := by
  rw [drawnDistances, List.length_filterMap_eq_countP, drawCount, ← Array.countP_toList]
  simp only [Command.isSome_drawn?]

/-- Whether the last command draws. -/
def endsDrawing (script : Script α) : Bool := script.back?.any Command.draws

end Script

/-- The walk that is shown: from where the layout starts it, at the layout's scale. -/
def Layout.walk (layout : Layout α) (script : Script α) : Turtle.Walk α :=
  (Turtle.silent layout.start).walk script layout.scale

/-- A step goes a distance, scaled, along some heading. -/
def Step.Goes (scale : α) (step : Step α) (distance : α) : Prop :=
  ∃ pose : Pose α, step.start = pose.point ∧ step.stop = (pose.moved distance scale).point

namespace Turtle

theorem remaining_of_lt (scale : α) {turtle : Turtle α} {script : Script α}
    (h : turtle.cursor < script.size) :
    turtle.remaining script =
      script[turtle.cursor] :: (turtle.obey scale script[turtle.cursor]).1.remaining script := by
  have hlt : turtle.cursor < script.toList.length := by simpa using h
  rw [remaining, remaining, obey_cursor, List.drop_eq_getElem_cons hlt, Array.getElem_toList]

def trace (scale : α) : List (Command α) → Turtle α → Bool → List (Step α)
  | [], _, _ => []
  | command :: rest, turtle, resumed =>
    let obeyed := turtle.obey scale command
    match obeyed.2 with
    | .drawn start stop => ⟨start, stop, resumed⟩ :: trace scale rest obeyed.1 false
    | .resumed => trace scale rest obeyed.1 true
    | .skipped _ => trace scale rest obeyed.1 resumed
    | .quiet => trace scale rest obeyed.1 resumed

/-! ### One command -/

theorem exists_trace_cons_of_not_draws (scale : α) {command : Command α}
    (rest : List (Command α)) (turtle : Turtle α) (resumed : Bool)
    (h : command.draws = false) :
    ∃ resumed', trace scale (command :: rest) turtle resumed =
        trace scale rest (turtle.obey scale command).1 resumed' ∧
      (resumed' = false → resumed = false ∧
        (turtle.obey scale command).1.pose.point = turtle.pose.point) := by
  cases command with
  | move d =>
    have hzero : Scalar.isZero d = true := by simpa [Command.draws] using h
    refine ⟨resumed, ?_, fun hr => ⟨hr, ?_⟩⟩
    · simp only [trace, obey_move_zero _ hzero]
    · simp only [obey_move_zero _ hzero]
  | turn a => exact ⟨resumed, rfl, fun hr => ⟨hr, rfl⟩⟩
  | enter => exact ⟨resumed, rfl, fun hr => ⟨hr, rfl⟩⟩
  | leave =>
    cases hstack : turtle.stack with
    | nil =>
      refine ⟨resumed, ?_, fun hr => ⟨hr, ?_⟩⟩
      · simp only [trace, obey_leave_stray _ hstack]
      · simp only [obey_leave_stray _ hstack]
    | cons saved stack =>
      refine ⟨true, ?_, fun hr => absurd hr (by decide)⟩
      simp only [trace, obey_leave_resumed _ hstack]

theorem exists_trace_cons_of_draws (scale : α) {command : Command α} (rest : List (Command α))
    (turtle : Turtle α) (resumed : Bool) (h : command.draws = true) :
    ∃ d, command.drawn? = some d ∧
      (turtle.obey scale command).1.pose = turtle.pose.moved d scale ∧
      trace scale (command :: rest) turtle resumed =
        ⟨turtle.pose.point, (turtle.pose.moved d scale).point, resumed⟩ ::
          trace scale rest (turtle.obey scale command).1 false := by
  cases command with
  | move d =>
    have hzero : Scalar.isZero d = false := by simpa [Command.draws] using h
    refine ⟨d, ?_, ?_, ?_⟩
    · simp only [Command.drawn?, hzero, Bool.false_eq_true, if_false]
    · simp only [obey_move_nonzero _ hzero]
    · simp only [trace, obey_move_nonzero _ hzero]
  | turn a => cases h
  | enter => cases h
  | leave => cases h

theorem draws_of_obey_eq_drawn {scale : α} {command : Command α} {turtle : Turtle α}
    {start stop : Point α} (h : (turtle.obey scale command).2 = .drawn start stop) :
    command.draws = true := by
  cases command with
  | move d =>
    cases hzero : Scalar.isZero d with
    | true =>
      simp only [obey_move_zero _ hzero] at h
      cases h
    | false => simp only [Command.draws, hzero, Bool.not_false]
  | turn a => cases h
  | enter => cases h
  | leave =>
    cases hstack : turtle.stack with
    | nil =>
      simp only [obey_leave_stray _ hstack] at h
      cases h
    | cons saved stack =>
      simp only [obey_leave_resumed _ hstack] at h
      cases h

/-! ### The steps of a trace -/

theorem trace_goes (scale : α) (commands : List (Command α)) (turtle : Turtle α)
    (resumed : Bool) :
    List.Forall₂ (Step.Goes scale) (trace scale commands turtle resumed)
      (commands.filterMap Command.drawn?) := by
  induction commands generalizing turtle resumed with
  | nil => exact .nil
  | cons command rest ih =>
    cases h : command.draws with
    | false =>
      obtain ⟨resumed', htrace, _⟩ :=
        exists_trace_cons_of_not_draws scale rest turtle resumed h
      have hnone : command.drawn? = none := by
        rw [← Option.not_isSome_iff_eq_none, Command.isSome_drawn?, h]
        decide
      rw [htrace, List.filterMap_cons_none hnone]
      exact ih _ _
    | true =>
      obtain ⟨d, hd, _, htrace⟩ := exists_trace_cons_of_draws scale rest turtle resumed h
      rw [htrace, List.filterMap_cons_some hd]
      exact .cons ⟨turtle.pose, rfl, rfl⟩ (ih _ _)

theorem length_trace (scale : α) (commands : List (Command α)) (turtle : Turtle α)
    (resumed : Bool) :
    (trace scale commands turtle resumed).length = commands.countP Command.draws := by
  rw [(trace_goes scale commands turtle resumed).length_eq, List.length_filterMap_eq_countP]
  simp only [Command.isSome_drawn?]

theorem trace_follows (scale : α) (commands : List (Command α)) (turtle : Turtle α)
    (resumed : Bool) :
    (∀ step ∈ (trace scale commands turtle resumed).head?, step.resumed = false →
      resumed = false ∧ step.start = turtle.pose.point) ∧
    (trace scale commands turtle resumed).IsChain fun step next => next.Follows step := by
  induction commands generalizing turtle resumed with
  | nil => exact ⟨fun step hstep => absurd hstep (by simp [trace]), .nil⟩
  | cons command rest ih =>
    cases h : command.draws with
    | false =>
      obtain ⟨resumed', htrace, hresumed⟩ :=
        exists_trace_cons_of_not_draws scale rest turtle resumed h
      obtain ⟨hhead, hchain⟩ := ih (turtle.obey scale command).1 resumed'
      rw [htrace]
      refine ⟨fun step hstep hr => ?_, hchain⟩
      obtain ⟨hfalse, hstart⟩ := hhead step hstep hr
      obtain ⟨hbefore, hpoint⟩ := hresumed hfalse
      exact ⟨hbefore, hstart.trans hpoint⟩
    | true =>
      obtain ⟨d, _, hpose, htrace⟩ := exists_trace_cons_of_draws scale rest turtle resumed h
      obtain ⟨hhead, hchain⟩ := ih (turtle.obey scale command).1 false
      rw [htrace]
      constructor
      · intro step hstep hr
        cases hstep
        exact ⟨hr, rfl⟩
      · refine List.isChain_cons.2 ⟨fun next hnext hr => ?_, hchain⟩
        have hstart := (hhead next hnext hr).2
        rw [hpose] at hstart
        exact hstart

/-- A step begins where the turtle stood at first, at a pose remembered then, or where a step has
ended. -/
theorem start_of_mem_trace {scale : α} {commands : List (Command α)} {turtle : Turtle α}
    {resumed : Bool} {P : Point α → Prop} (hpose : P turtle.pose.point)
    (hstack : ∀ pose ∈ turtle.stack, P pose.point)
    (hstops : ∀ step ∈ trace scale commands turtle resumed, P step.stop) :
    ∀ step ∈ trace scale commands turtle resumed, P step.start := by
  induction commands generalizing turtle resumed with
  | nil =>
    intro step hstep
    cases hstep
  | cons command rest ih =>
    cases command with
    | move d =>
      cases hzero : Scalar.isZero d with
      | true =>
        simp only [trace, obey_move_zero _ hzero] at hstops ⊢
        exact ih hpose hstack hstops
      | false =>
        simp only [trace, obey_move_nonzero _ hzero] at hstops ⊢
        obtain ⟨hstop, hrest⟩ := List.forall_mem_cons.1 hstops
        exact List.forall_mem_cons.2 ⟨hpose, ih hstop hstack hrest⟩
    | turn a => exact ih hpose hstack hstops
    | enter => exact ih hpose (List.forall_mem_cons.2 ⟨hpose, hstack⟩) hstops
    | leave =>
      cases hs : turtle.stack with
      | nil =>
        simp only [trace, obey_leave_stray _ hs] at hstops ⊢
        exact ih hpose hstack hstops
      | cons saved stack =>
        simp only [trace, obey_leave_resumed _ hs] at hstops ⊢
        rw [hs] at hstack
        obtain ⟨hsaved, hrest⟩ := List.forall_mem_cons.1 hstack
        exact ih hsaved hrest hstops

/-! ### Searches -/

theorem trace_eq_seek (script : Script α) (scale : α) (turtle : Turtle α) (resumed : Bool)
    (logged : Array Warning) :
    let found := turtle.seek script scale resumed logged
    trace scale (turtle.remaining script) turtle resumed =
      match found.step? with
      | none => []
      | some step => step :: trace scale (found.turtle.remaining script) found.turtle false := by
  fun_induction seek script scale turtle resumed logged with
  | case1 turtle resumed logged h obeyed start stop heq =>
    rw [remaining_of_lt scale h]
    simp only [obeyed, trace] at heq ⊢
    rw [heq]
  | case2 turtle resumed logged h obeyed heq ih =>
    rw [remaining_of_lt scale h]
    simp only [obeyed, trace] at heq ih ⊢
    rw [heq]
    exact ih
  | case3 turtle resumed logged h obeyed warning heq ih =>
    rw [remaining_of_lt scale h]
    simp only [obeyed, trace] at heq ih ⊢
    rw [heq]
    exact ih
  | case4 turtle resumed logged h obeyed heq ih =>
    rw [remaining_of_lt scale h]
    simp only [obeyed, trace] at heq ih ⊢
    rw [heq]
    exact ih
  | case5 turtle resumed logged h =>
    rw [remaining_of_le (Nat.le_of_not_lt h)]
    rfl

theorem size_le_cursor_of_seek_eq_none {script : Script α} {scale : α} {turtle : Turtle α}
    {resumed : Bool} {logged : Array Warning}
    (h : (turtle.seek script scale resumed logged).step? = none) :
    script.size ≤ (turtle.seek script scale resumed logged).turtle.cursor := by
  fun_induction seek script scale turtle resumed logged with
  | case1 turtle resumed logged hlt obeyed start stop heq => cases h
  | case2 turtle resumed logged hlt obeyed heq ih => exact ih h
  | case3 turtle resumed logged hlt obeyed warning heq ih => exact ih h
  | case4 turtle resumed logged hlt obeyed heq ih => exact ih h
  | case5 turtle resumed logged hge => exact Nat.le_of_not_lt hge

/-- A search that finds a step stops right behind the command that draws it. -/
theorem exists_draws_of_seek_eq_some {script : Script α} {scale : α} {turtle : Turtle α}
    {resumed : Bool} {logged : Array Warning} {step : Step α}
    (h : (turtle.seek script scale resumed logged).step? = some step) :
    ∃ (i : Nat) (hi : i < script.size), script[i].draws = true ∧
      (turtle.seek script scale resumed logged).turtle.cursor = i + 1 := by
  fun_induction seek script scale turtle resumed logged with
  | case1 turtle resumed logged hlt obeyed start stop heq =>
    exact ⟨turtle.cursor, hlt, draws_of_obey_eq_drawn heq, obey_cursor ..⟩
  | case2 turtle resumed logged hlt obeyed heq ih => exact ih h
  | case3 turtle resumed logged hlt obeyed warning heq ih => exact ih h
  | case4 turtle resumed logged hlt obeyed heq ih => exact ih h
  | case5 turtle resumed logged hge => cases h

theorem reset_obey (scale : α) (command : Command α) (turtle : Turtle α) :
    (turtle.obey scale command).1.reset = turtle.reset := by
  unfold obey
  cases command with
  | move d =>
    dsimp only
    split <;> rfl
  | turn a => rfl
  | enter => rfl
  | leave =>
    dsimp only
    split <;> rfl

theorem reset_seek (script : Script α) (scale : α) (turtle : Turtle α) (resumed : Bool)
    (logged : Array Warning) :
    (turtle.seek script scale resumed logged).turtle.reset = turtle.reset := by
  fun_induction seek script scale turtle resumed logged with
  | case1 turtle resumed logged h obeyed start stop heq => exact reset_obey ..
  | case2 turtle resumed logged h obeyed heq ih => exact ih.trans (reset_obey ..)
  | case3 turtle resumed logged h obeyed warning heq ih => exact ih.trans (reset_obey ..)
  | case4 turtle resumed logged h obeyed heq ih => exact ih.trans (reset_obey ..)
  | case5 turtle resumed logged h => rfl

/-! ### Searches in a row -/

/-- The turtle after so many searches for a step. -/
def advanced (script : Script α) (scale : α) (count : Nat) (turtle : Turtle α) : Turtle α :=
  (fun turtle => (turtle.advance script scale).turtle)^[count] turtle

theorem advanced_succ (script : Script α) (scale : α) (count : Nat) (turtle : Turtle α) :
    turtle.advanced script scale (count + 1) =
      ((turtle.advanced script scale count).advance script scale).turtle :=
  Function.iterate_succ_apply' ..

theorem trace_advanced (script : Script α) (scale : α) (count : Nat) (turtle : Turtle α) :
    let after := turtle.advanced script scale count
    trace scale (after.remaining script) after false =
      (trace scale (turtle.remaining script) turtle false).drop count := by
  induction count with
  | zero => rfl
  | succ count ih =>
    have hseek := trace_eq_seek script scale (turtle.advanced script scale count) false #[]
    dsimp only at ih hseek ⊢
    rw [advanced_succ, ← List.drop_drop, ← ih]
    cases hstep : ((turtle.advanced script scale count).seek script scale false #[]).step? with
    | none =>
      have hnil := remaining_of_le (size_le_cursor_of_seek_eq_none hstep)
      rw [hseek, hstep, advance, hnil]
      rfl
    | some step =>
      rw [hseek, hstep, advance]
      rfl

theorem step?_advance_advanced (script : Script α) (scale : α) (count : Nat)
    (turtle : Turtle α) :
    ((turtle.advanced script scale count).advance script scale).step? =
      (trace scale (turtle.remaining script) turtle false)[count]? := by
  have htrace := trace_advanced script scale count turtle
  have hseek := trace_eq_seek script scale (turtle.advanced script scale count) false #[]
  dsimp only at htrace hseek
  rw [← List.head?_drop, ← htrace, hseek, advance]
  cases ((turtle.advanced script scale count).seek script scale false #[]).step? with
  | none => rfl
  | some step => rfl

theorem toList_steps_walkOn (script : Script α) (scale : α) (turtle : Turtle α)
    (steps : Array (Step α)) (logged : Array Warning) :
    (turtle.walkOn script scale steps logged).steps.toList =
      steps.toList ++ trace scale (turtle.remaining script) turtle false := by
  fun_induction walkOn script scale turtle steps logged with
  | case1 turtle steps logged next hnone =>
    have hseek := trace_eq_seek script scale turtle false #[]
    simp only [next, advance] at hnone
    simp only [hnone] at hseek
    simp only [hseek, List.append_nil]
  | case2 turtle steps logged next step hsome ih =>
    have hseek := trace_eq_seek script scale turtle false #[]
    simp only [next, advance] at hsome ih ⊢
    simp only [hsome] at hseek
    rw [ih, hseek, Array.toList_push, List.append_assoc, List.singleton_append]

theorem steps_walk_of_cursor (script : Script α) (scale : α) {turtle : Turtle α}
    (h : turtle.cursor = 0) :
    (turtle.walk script scale).steps.toList = trace scale script.toList turtle false := by
  have hremaining : turtle.remaining script = script.toList := by
    rw [remaining, h, List.drop_zero]
  rw [walk, toList_steps_walkOn, hremaining]
  rfl

/-- Where a walk begins, and both ends of each of its steps. -/
def visited (script : Script α) (scale : α) (turtle : Turtle α) : List (Point α) :=
  turtle.pose.point ::
    (turtle.walk script scale).steps.toList.flatMap fun step => [step.start, step.stop]

theorem mem_visited {script : Script α} {scale : α} {turtle : Turtle α} {p : Point α} :
    p ∈ turtle.visited script scale ↔ p = turtle.pose.point ∨
      ∃ step ∈ (turtle.walk script scale).steps.toList, p = step.start ∨ p = step.stop := by
  rw [visited, List.mem_cons, List.mem_flatMap]
  simp only [List.mem_pair]

end Turtle

namespace Layout

theorem steps_walk (layout : Layout α) (script : Script α) :
    (layout.walk script).steps.toList =
      Turtle.trace layout.scale script.toList (.silent layout.start) false :=
  Turtle.steps_walk_of_cursor script layout.scale rfl

theorem length_steps_walk (layout : Layout α) (script : Script α) :
    (layout.walk script).steps.toList.length = script.drawCount := by
  rw [steps_walk, Turtle.length_trace, Script.drawCount, Array.countP_toList]

theorem take_steps_walk (layout : Layout α) {script : Script α} {count : Nat}
    (h : script.drawCount ≤ count) :
    (layout.walk script).steps.toList.take count = (layout.walk script).steps.toList := by
  refine List.take_of_length_le ?_
  rw [length_steps_walk]
  exact h

theorem walk_follows (layout : Layout α) (script : Script α) :
    (layout.walk script).steps.toList.IsChain fun step next => next.Follows step := by
  rw [steps_walk]
  exact (Turtle.trace_follows ..).2

/-- The turtle of the walk after so many searches. -/
def turtleAfter (layout : Layout α) (script : Script α) (count : Nat) : Turtle α :=
  (Turtle.silent layout.start).advanced script layout.scale count

theorem step?_turtleAfter (layout : Layout α) (script : Script α) (count : Nat) :
    ((layout.turtleAfter script count).advance script layout.scale).step? =
      (layout.walk script).steps.toList[count]? := by
  rw [steps_walk]
  exact Turtle.step?_advance_advanced ..

theorem turtleAfter_succ (layout : Layout α) (script : Script α) (count : Nat) :
    layout.turtleAfter script (count + 1) =
      ((layout.turtleAfter script count).advance script layout.scale).turtle :=
  Turtle.advanced_succ ..

theorem reset_turtleAfter (layout : Layout α) (script : Script α) (count : Nat) :
    (layout.turtleAfter script count).reset = .silent layout.start := by
  induction count with
  | zero => rfl
  | succ count ih =>
    rw [turtleAfter_succ]
    exact (Turtle.reset_seek ..).trans ih

theorem countP_draws_turtleAfter (layout : Layout α) (script : Script α) (count : Nat) :
    ((layout.turtleAfter script count).remaining script).countP Command.draws =
      script.drawCount - count := by
  have htrace := Turtle.trace_advanced script layout.scale count (.silent layout.start)
  have hlength := congrArg List.length htrace
  rw [Turtle.length_trace, List.length_drop, Turtle.length_trace] at hlength
  refine hlength.trans ?_
  rw [Script.drawCount, ← Array.countP_toList]
  rfl

/-- The turtle is at the end of the script right behind a step only if this is the last step and
its command the last one. -/
theorem atEnd_turtleAfter_succ (layout : Layout α) (script : Script α) {count : Nat}
    (h : count < script.drawCount) :
    (layout.turtleAfter script (count + 1)).atEnd script =
      (decide (count + 1 = script.drawCount) && script.endsDrawing) := by
  have hlt : count < (layout.walk script).steps.toList.length := by
    rw [length_steps_walk]
    exact h
  have hstep := step?_turtleAfter layout script count
  rw [List.getElem?_eq_getElem hlt] at hstep
  obtain ⟨i, hi, hdraws, hcursor⟩ := Turtle.exists_draws_of_seek_eq_some hstep
  have hcount := countP_draws_turtleAfter layout script (count + 1)
  have hafter : (layout.turtleAfter script (count + 1)).cursor = i + 1 := by
    rw [turtleAfter_succ]
    exact hcursor
  rw [Turtle.remaining, hafter] at hcount
  rw [Turtle.atEnd, hafter, Script.endsDrawing, Array.back?_eq_getElem?]
  by_cases hend : script.size ≤ i + 1
  · have hlast : script.size - 1 = i := by omega
    have hnil : script.toList.drop (i + 1) = [] := List.drop_eq_nil_of_le (by simpa using hend)
    rw [hnil, List.countP_nil] at hcount
    have hcomplete : count + 1 = script.drawCount := by omega
    rw [hlast, Array.getElem?_eq_getElem hi, Option.any_some, hdraws, decide_eq_true hend,
      decide_eq_true hcomplete, Bool.and_true]
  · have hlast : script.size - 1 < script.size := by omega
    rw [Array.getElem?_eq_getElem hlast, Option.any_some, decide_eq_false hend]
    cases hl : script[script.size - 1].draws with
    | false => rw [Bool.and_false]
    | true =>
      -- The last command is still to come and draws, so a step is left.
      have hmem : script[script.size - 1] ∈ script.toList.drop (i + 1) := by
        refine List.mem_drop_iff_getElem.2 ⟨script.size - 1 - (i + 1), ?_, ?_⟩
        · simp only [Array.length_toList]
          omega
        · have hindex : i + 1 + (script.size - 1 - (i + 1)) = script.size - 1 := by omega
          simp only [hindex, Array.getElem_toList]
      have hpos : 0 < (script.toList.drop (i + 1)).countP Command.draws :=
        List.countP_pos_iff.2 ⟨_, hmem, hl⟩
      have hmore : ¬ count + 1 = script.drawCount := by omega
      rw [decide_eq_false hmore, Bool.false_and]

end Layout

end LSystem
