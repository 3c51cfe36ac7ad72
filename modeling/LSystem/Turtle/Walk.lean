import LSystem.Turtle.Pose
import LSystem.Turtle.Script

/-!
# Walks

A turtle walks a script one drawing step at a time. At the start of a branch it
remembers its pose, and at the end of the branch it resumes the pose remembered
last; a branch end with nothing to resume is skipped with a warning. Main facts:
a command moves the cursor by one, a search for the next step never moves it
back, and a step found moves it forward.
-/

namespace LSystem

inductive Warning
  /-- A branch end at which no pose was left to resume. -/
  | strayLeave (index : Nat)
  deriving Repr, DecidableEq

def Warning.message : Warning → String
  | .strayLeave index => s!"unmatched branch end; skipping index={index}"

def Warning.index : Warning → Nat
  | .strayLeave index => index

structure Step (α : Type) where
  start : Point α
  stop : Point α
  /-- Whether a branch has ended since the step before, so that this one starts elsewhere. -/
  resumed : Bool

structure Turtle (α : Type) where
  start : Pose α
  pose : Pose α := start
  /-- Poses remembered at the open branches, innermost first. -/
  stack : List (Pose α) := []
  cursor : Nat := 0
  entries : Nat := 0
  exits : Nat := 0
  warnings : Array Warning := #[]
  /-- Whether warnings are logged as well as recorded. -/
  reports : Bool := true

namespace Turtle

variable {α : Type}

def new (start : Pose α) : Turtle α := { start }

def silent (start : Pose α) : Turtle α := { start, reports := false }

def reset (turtle : Turtle α) : Turtle α := { start := turtle.start, reports := turtle.reports }

def depth (turtle : Turtle α) : Nat := turtle.stack.length

def atEnd (turtle : Turtle α) (script : Script α) : Bool :=
  script.size ≤ turtle.cursor

variable [Scalar α]

inductive Event (α : Type)
  | quiet
  | resumed
  | skipped (warning : Warning)
  | drawn (start stop : Point α)

def obey (scale : α) (command : Command α) (turtle : Turtle α) : Turtle α × Event α :=
  let next := { turtle with cursor := turtle.cursor + 1 }
  match command with
  | .turn delta => ({ next with pose := next.pose.turned delta }, .quiet)
  | .enter =>
    ({ next with stack := next.pose :: next.stack, entries := next.entries + 1 }, .quiet)
  | .leave =>
    match next.stack with
    | saved :: rest =>
      ({ next with pose := saved, stack := rest, exits := next.exits + 1 }, .resumed)
    | [] =>
      let warning := .strayLeave turtle.cursor
      ({ next with warnings := next.warnings.push warning }, .skipped warning)
  | .move distance =>
    if Scalar.isZero distance then (next, .quiet)
    else
      let pose := next.pose.moved distance scale
      ({ next with pose }, .drawn next.pose.point pose.point)

theorem obey_move_zero (scale : α) {distance : α} (h : Scalar.isZero distance = true)
    (turtle : Turtle α) :
    turtle.obey scale (.move distance) = ({ turtle with cursor := turtle.cursor + 1 }, .quiet) := by
  rw [obey, if_pos h]

theorem obey_move_nonzero (scale : α) {distance : α} (h : Scalar.isZero distance = false)
    (turtle : Turtle α) :
    turtle.obey scale (.move distance) =
      ({ turtle with cursor := turtle.cursor + 1, pose := turtle.pose.moved distance scale },
        .drawn turtle.pose.point (turtle.pose.moved distance scale).point) := by
  rw [obey, if_neg (Bool.eq_false_iff.1 h)]

theorem obey_leave_stray (scale : α) {turtle : Turtle α} (h : turtle.stack = []) :
    turtle.obey scale .leave =
      ({ turtle with
          cursor := turtle.cursor + 1
          warnings := turtle.warnings.push (.strayLeave turtle.cursor) },
        .skipped (.strayLeave turtle.cursor)) := by
  simp only [obey, h]

theorem obey_leave_resumed (scale : α) {turtle : Turtle α} {saved : Pose α} {rest : List (Pose α)}
    (h : turtle.stack = saved :: rest) :
    turtle.obey scale .leave =
      ({ turtle with
          cursor := turtle.cursor + 1
          pose := saved
          stack := rest
          exits := turtle.exits + 1 },
        .resumed) := by
  simp only [obey, h]

@[simp] theorem obey_cursor (scale : α) (command : Command α) (turtle : Turtle α) :
    (turtle.obey scale command).1.cursor = turtle.cursor + 1 := by
  unfold obey
  cases command with
  | move d =>
    dsimp only
    split <;> rfl
  | turn a => rfl
  | enter => rfl
  | leave =>
    dsimp only
    split <;> rfl

def log (turtle : Turtle α) (logged : Array Warning) (warning : Warning) : Array Warning :=
  if turtle.reports then logged.push warning else logged

structure Advance (α : Type) where
  step? : Option (Step α)
  turtle : Turtle α
  logged : Array Warning

/-- Obeys commands up to the next drawing move; `resumed` tells whether a branch has ended on the
way so far. -/
def seek (script : Script α) (scale : α) (turtle : Turtle α) (resumed : Bool)
    (logged : Array Warning) : Advance α :=
  if h : turtle.cursor < script.size then
    let obeyed := turtle.obey scale script[turtle.cursor]
    match obeyed.2 with
    | .drawn start stop => ⟨some ⟨start, stop, resumed⟩, obeyed.1, logged⟩
    | .resumed => seek script scale obeyed.1 true logged
    | .skipped warning => seek script scale obeyed.1 resumed (turtle.log logged warning)
    | .quiet => seek script scale obeyed.1 resumed logged
  else ⟨none, turtle, logged⟩
  termination_by script.size - turtle.cursor
  decreasing_by all_goals
    simp only [obey_cursor]
    omega

def advance (script : Script α) (scale : α) (turtle : Turtle α) : Advance α :=
  turtle.seek script scale false #[]

/-- The cursor never goes back, and a step found has moved it. -/
theorem seek_cursor (script : Script α) (scale : α) (turtle : Turtle α)
    (resumed : Bool) (logged : Array Warning) :
    turtle.cursor ≤ (turtle.seek script scale resumed logged).turtle.cursor ∧
      ((turtle.seek script scale resumed logged).step?.isSome = true →
        turtle.cursor < (turtle.seek script scale resumed logged).turtle.cursor ∧
          turtle.cursor < script.size) := by
  fun_induction seek script scale turtle resumed logged with
  | case1 turtle resumed logged h obeyed start stop heq =>
    have hcursor : obeyed.1.cursor = turtle.cursor + 1 := obey_cursor ..
    simp only [hcursor]
    omega
  | case2 turtle resumed logged h obeyed heq ih =>
    have hcursor : obeyed.1.cursor = turtle.cursor + 1 := obey_cursor ..
    omega
  | case3 turtle resumed logged h obeyed warning heq ih =>
    have hcursor : obeyed.1.cursor = turtle.cursor + 1 := obey_cursor ..
    omega
  | case4 turtle resumed logged h obeyed heq ih =>
    have hcursor : obeyed.1.cursor = turtle.cursor + 1 := obey_cursor ..
    omega
  | case5 turtle resumed logged h => simp

structure Walk (α : Type) where
  steps : Array (Step α)
  turtle : Turtle α
  logged : Array Warning

/-- Walks on to the end, behind the steps and warnings of the walk so far. -/
def walkOn (script : Script α) (scale : α) (turtle : Turtle α) (steps : Array (Step α))
    (logged : Array Warning) : Walk α :=
  let next := turtle.advance script scale
  match _found : next.step? with
  | none => ⟨steps, next.turtle, logged ++ next.logged⟩
  | some step => walkOn script scale next.turtle (steps.push step) (logged ++ next.logged)
  termination_by script.size - turtle.cursor
  decreasing_by
    have hmoved := (seek_cursor script scale turtle false #[]).2
    simp only [next, advance] at _found ⊢
    simp only [_found, Option.isSome_some, true_implies] at hmoved
    omega

def walk (script : Script α) (scale : α) (turtle : Turtle α) : Walk α :=
  turtle.walkOn script scale #[] #[]

end Turtle

end LSystem
