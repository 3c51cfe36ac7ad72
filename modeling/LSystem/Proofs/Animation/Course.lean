import LSystem.Proofs.Animation.Cycle
import LSystem.Proofs.Animation.Tick

/-!
# Courses

A tick ends in one of seven ways, three of them because the surface refuses a
call. In none of them does the turtle leave its course: it has made some number
of searches along the walk of the layout, and a tick makes one more, makes none,
or takes the turtle back to the start. So this holds after any number of ticks
and restarts, whatever the surfaces refuse.
-/

namespace LSystem

variable {α σ : Type} [Scalar α]

namespace Animation

variable {animation after : Animation α}

/-! ### What a tick leaves -/

def search (animation : Animation α) : Turtle.Advance α :=
  animation.turtle.advance animation.script animation.layout.scale

/-- What a tick can make of an animation, and whether its frame is complete then. -/
inductive Ticked (animation : Animation α) : Animation α → Bool → Prop
  | refused : Ticked animation animation false
  | headRefused {step : Step α} (hstage : animation.stage = .drawing)
      (hstep : animation.search.step? = some step) :
      Ticked animation { animation with turtle := animation.search.turtle } false
  | trailRefused (hstage : animation.stage = .fading)
      (hopacity : opacityLoss ≤ animation.opacity) :
      Ticked animation { animation with opacity := animation.opacity - opacityLoss } false
  | step {step : Step α} (hstage : animation.stage = .drawing)
      (hstep : animation.search.step? = some step) :
      Ticked animation
        { animation with
          turtle := animation.search.turtle
          trails := extend animation.trails step
          stage := if animation.search.turtle.atEnd animation.script then .fading else .drawing }
        true
  | rest (hstage : animation.stage = .drawing) (hstep : animation.search.step? = none) :
      Ticked animation { animation with turtle := animation.search.turtle, stage := .fading } true
  | fade (hstage : animation.stage = .fading) (hopacity : opacityLoss ≤ animation.opacity) :
      Ticked animation { animation with opacity := animation.opacity - opacityLoss } true
  | restart (hstage : animation.stage = .fading)
      (hopacity : ¬ opacityLoss ≤ animation.opacity) : Ticked animation animation.restart true

theorem ticked_next (animation : Animation α) : Ticked animation animation.scene.next true := by
  cases hstage : animation.stage with
  | drawing =>
    cases hstep : animation.search.step? with
    | none =>
      rw [(tick_of_no_step hstage hstep).2]
      exact .rest hstage hstep
    | some step =>
      rw [(tick_of_step hstage hstep).2]
      exact .step hstage hstep
  | fading =>
    by_cases hopacity : opacityLoss ≤ animation.opacity
    · rw [(tick_of_fading hstage hopacity).2]
      exact .fade hstage hopacity
    · rw [(tick_of_faded hstage hopacity).2]
      exact .restart hstage hopacity

theorem ticked_leftBy {call : PaintCall α} {left : Animation α}
    (h : (call, left) ∈ animation.scene.calls) :
    Ticked animation (animation.leftBy call) false := by
  cases call with
  | clear color => exact .refused
  | line start stop paint =>
    obtain ⟨step, hstep⟩ := Option.isSome_iff_exists.1 (step?_isSome_of_line_mem h)
    cases hstage : animation.stage with
    | drawing => exact .headRefused hstage hstep
    | fading =>
      simp only [scene, hstage] at h
      rcases List.mem_cons.1 h with h | h
      · cases h
      · obtain ⟨⟨path, paint, hcall⟩, _⟩ := mem_fadeScene_calls h
        cases hcall
  | path path paint =>
    cases hstage : animation.stage with
    | drawing =>
      simp only [leftBy, hstage]
      exact .refused
    | fading =>
      have hleft : animation.leftBy (.path path paint) =
          { animation with opacity := animation.opacity - opacityLoss } := by
        simp only [leftBy, hstage]
      rw [hleft]
      refine .trailRefused hstage ?_
      -- With the opacity used up no trail is drawn that could be refused.
      by_contra hopacity
      have hmade := (tick_of_faded hstage hopacity).1
      have hmem : .path path paint ∈ animation.made := List.mem_map_of_mem h
      rw [hmade, List.mem_singleton] at hmem
      cases hmem

theorem ticked_tick [Surface σ α] (animation : Animation α) (surface : σ) :
    Ticked animation (animation.tick surface).actor (animation.tick surface).result.isOk := by
  rcases animation.tick_cases surface with ⟨hactor, hresult⟩ | ⟨call, e, hmem, hactor, hresult⟩
  · rw [hactor, hresult]
    exact ticked_next animation
  · rw [hactor, hresult]
    exact ticked_leftBy hmem

theorem Ticked.design {complete : Bool} (h : Ticked animation after complete) :
    after.design = animation.design := by
  cases h <;> rfl

/-! ### The course of the turtle -/

/-- The turtle has made so many searches since it set out from the start of the layout. -/
def OnCourse (animation : Animation α) (count : Nat) : Prop :=
  animation.turtle = animation.layout.turtleAfter animation.script count

theorem onCourse_new (script : Script α) (layout : Layout α) (style : Style α) :
    (new script layout style).OnCourse 0 := rfl

theorem OnCourse.restart {count : Nat} (h : animation.OnCourse count) :
    animation.restart.OnCourse 0 := by
  have hreset : animation.turtle.reset = .silent animation.layout.start := by
    rw [h, Layout.reset_turtleAfter]
  exact hreset

theorem OnCourse.search {count : Nat} (h : animation.OnCourse count) :
    animation.search.turtle = animation.layout.turtleAfter animation.script (count + 1) := by
  rw [Layout.turtleAfter_succ, ← h]
  rfl

/-- A tick or a restart makes one search, or none, or goes back to the start. -/
def Proceeds (count count' : Nat) : Prop := count' = count ∨ count' = count + 1 ∨ count' = 0

theorem OnCourse.ticked {count : Nat} {complete : Bool} (h : animation.OnCourse count)
    (hticked : Ticked animation after complete) :
    ∃ count', after.OnCourse count' ∧ Proceeds count count' := by
  cases hticked with
  | refused => exact ⟨count, h, .inl rfl⟩
  | headRefused hstage hstep => exact ⟨count + 1, h.search, .inr (.inl rfl)⟩
  | trailRefused hstage hopacity => exact ⟨count, h, .inl rfl⟩
  | step hstage hstep => exact ⟨count + 1, h.search, .inr (.inl rfl)⟩
  | rest hstage hstep => exact ⟨count + 1, h.search, .inr (.inl rfl)⟩
  | fade hstage hopacity => exact ⟨count, h, .inl rfl⟩
  | restart hstage hopacity => exact ⟨0, h.restart, .inr (.inr rfl)⟩

/-! ### Runs -/

/-- What can be done with an animation. Each tick is given a surface of its own. -/
inductive Action (σ : Type)
  | tick (surface : σ)
  | restart

variable [Surface σ α]

def act (animation : Animation α) : Action σ → Animation α
  | .tick surface => (animation.tick surface).actor
  | .restart => animation.restart

def run (animation : Animation α) (actions : List (Action σ)) : Animation α :=
  actions.foldl act animation

/-- The warnings that are logged on the way. -/
def log : List (Action σ) → Animation α → List Warning
  | [], _ => []
  | .tick surface :: rest, animation =>
    animation.scene.logged.toList ++ log rest (animation.tick surface).actor
  | .restart :: rest, animation => log rest animation.restart

theorem design_act (animation : Animation α) (action : Action σ) :
    (animation.act action).design = animation.design := by
  cases action with
  | tick surface => exact (ticked_tick animation surface).design
  | restart => rfl

theorem OnCourse.act {count : Nat} (h : animation.OnCourse count) (action : Action σ) :
    ∃ count', (animation.act action).OnCourse count' ∧ Proceeds count count' := by
  cases action with
  | tick surface => exact h.ticked (ticked_tick animation surface)
  | restart => exact ⟨0, h.restart, .inr (.inr rfl)⟩

theorem design_run (animation : Animation α) (actions : List (Action σ)) :
    (animation.run actions).design = animation.design := by
  induction actions generalizing animation with
  | nil => rfl
  | cons action actions ih => exact (ih (animation.act action)).trans (design_act animation action)

theorem design_run_new (script : Script α) (layout : Layout α) (style : Style α)
    (actions : List (Action σ)) :
    let animation := (new script layout style).run actions
    animation.script = script ∧ animation.layout = layout ∧ animation.style = style := by
  have hdesign := design_run (new script layout style) actions
  simp only [design, Prod.mk.injEq] at hdesign
  exact hdesign

theorem OnCourse.run {count : Nat} (h : animation.OnCourse count) (actions : List (Action σ)) :
    ∃ count', (animation.run actions).OnCourse count' := by
  induction actions generalizing animation count with
  | nil => exact ⟨count, h⟩
  | cons action actions ih =>
    obtain ⟨count', hcourse, _⟩ := h.act action
    exact ih hcourse

end Animation

end LSystem
