import LSystem.Paint.Surface
import LSystem.Turtle.Layout

/-!
# Animations

Draws a figure one step a tick, and when the figure is complete fades its
trails out and starts again. What a tick draws is a scene: the calls in order,
each with the animation that is left behind if that call is refused. A tick that
is refused keeps what it had changed before the refused call.
-/

namespace LSystem

inductive Stage
  | drawing
  | fading
  deriving Repr, DecidableEq

structure Animation (α : Type) where
  script : Script α
  layout : Layout α
  style : Style α
  turtle : Turtle α
  /-- The paths drawn so far; where a branch is resumed a new one begins. -/
  trails : Array (Path α)
  opacity : UInt8
  stage : Stage
  /-- Counts the restarts. It is a plain number: a word of 64 bits wraps after `2 ^ 64` restarts,
  which are out of reach. -/
  cycles : Nat

namespace Animation

variable {α : Type} [Scalar α]

def opacityLoss : UInt8 := 16

def new (script : Script α) (layout : Layout α) (style : Style α) : Animation α where
  script
  layout
  style
  turtle := .silent layout.start
  trails := #[]
  opacity := 255
  stage := .drawing
  cycles := 0

def restart (animation : Animation α) : Animation α :=
  { animation with
    turtle := animation.turtle.reset
    trails := #[]
    opacity := 255
    stage := .drawing
    cycles := animation.cycles + 1 }

def extend (trails : Array (Path α)) (step : Step α) : Array (Path α) :=
  if step.resumed || trails.isEmpty then trails.push #[.moveTo step.start, .lineTo step.stop]
  else trails.modify (trails.size - 1) fun path => path.push (.lineTo step.stop)

/-- What a tick does: its calls, each with the animation left behind if it is refused, the
animation after all of them, and the warnings logged. -/
structure Scene (α : Type) where
  calls : List (PaintCall α × Animation α)
  next : Animation α
  logged : Array Warning

def trailCalls (animation : Animation α) : List (PaintCall α) :=
  let paint := animation.style.tail.faded animation.opacity
  animation.trails.toList.map fun path => .path path paint

def drawScene (animation : Animation α) : Scene α :=
  let trails := animation.trailCalls.map (·, animation)
  let found := animation.turtle.advance animation.script animation.layout.scale
  let walked := { animation with turtle := found.turtle }
  match found.step? with
  | none => ⟨trails, { walked with stage := .fading }, found.logged⟩
  | some step =>
    let drawn := { walked with trails := extend walked.trails step }
    { calls := trails ++ [(.line step.start step.stop animation.style.head, walked)]
      next :=
        if found.turtle.atEnd animation.script then { drawn with stage := .fading } else drawn
      logged := found.logged }

/-- The trails at less opacity; when no opacity is left to take off, the figure starts again. -/
def fadeScene (animation : Animation α) : Scene α :=
  if opacityLoss ≤ animation.opacity then
    let faded := { animation with opacity := animation.opacity - opacityLoss }
    ⟨faded.trailCalls.map (·, faded), faded, #[]⟩
  else ⟨[], animation.restart, #[]⟩

def scene (animation : Animation α) : Scene α :=
  let scene :=
    match animation.stage with
    | .drawing => animation.drawScene
    | .fading => animation.fadeScene
  { scene with calls := (.clear animation.style.background, animation) :: scene.calls }

/-- Draws one frame and moves on; the stage returned is the one after the tick. -/
def tick {σ : Type} [Surface σ α] (animation : Animation α) (surface : σ) :
    Outcome σ (Animation α) Stage :=
  let scene := animation.scene
  Surface.perform surface scene.next scene.next.stage scene.calls

end Animation

end LSystem
