import LSystem.Proofs.Animation.Course

/-!
# Restarts

A restart leaves an animation as it was made, with nothing but the number of its
cycles to tell the two apart. A turtle keeps its start and its way to report all
along, so that a reset can go back to both, and no tick reads the number of the
cycles: what is shown after a restart is what a new animation shows.
-/

namespace LSystem

variable {α σ β γ δ : Type}

/-! ### Turtles -/

namespace Turtle

variable [Scalar α]

/-- What can be done with a turtle. -/
inductive Use (α : Type)
  | search (script : Script α) (scale : α)
  | reset

def use (turtle : Turtle α) : Use α → Turtle α
  | .search script scale => (turtle.advance script scale).turtle
  | .reset => turtle.reset

theorem reset_use (turtle : Turtle α) (use : Use α) : (turtle.use use).reset = turtle.reset := by
  cases use with
  | search script scale => exact reset_seek ..
  | reset => rfl

theorem reset_foldl_use (turtle : Turtle α) (uses : List (Use α)) :
    (uses.foldl use turtle).reset = turtle.reset := by
  induction uses generalizing turtle with
  | nil => rfl
  | cons first rest ih => exact (ih (turtle.use first)).trans (reset_use turtle first)

end Turtle

/-! ### The number of cycles -/

theorem Surface.perform_map [Surface σ α] (f : β → δ) (surface : σ) (next : β) (result : γ)
    (calls : List (PaintCall α × β)) :
    perform surface (f next) result (calls.map fun call => (call.1, f call.2)) =
      let outcome := perform surface next result calls
      ⟨outcome.surface, f outcome.actor, outcome.result⟩ := by
  induction calls generalizing surface with
  | nil => rfl
  | cons call rest ih =>
    simp only [List.map_cons, perform]
    split
    · exact ih _
    · rfl

namespace Animation

/-- The same animation so many cycles later. -/
def later (cycles : Nat) (animation : Animation α) : Animation α :=
  { animation with cycles := animation.cycles + cycles }

def Scene.map (f : Animation α → Animation α) (scene : Scene α) : Scene α where
  calls := scene.calls.map fun call => (call.1, f call.2)
  next := f scene.next
  logged := scene.logged

theorem restart_later (cycles : Nat) (animation : Animation α) :
    (animation.later cycles).restart = animation.restart.later cycles := by
  rw [restart, restart, later, later, Nat.add_right_comm]

theorem fadeScene_later (cycles : Nat) (animation : Animation α) :
    (animation.later cycles).fadeScene = animation.fadeScene.map (later cycles) := by
  have hsame : (animation.later cycles).opacity = animation.opacity := rfl
  simp only [fadeScene, restart_later, hsame]
  by_cases hopacity : opacityLoss ≤ animation.opacity
  · rw [if_pos hopacity, if_pos hopacity]
    simp only [Scene.map, List.map_map]
    rfl
  · rw [if_neg hopacity, if_neg hopacity]
    rfl

variable [Scalar α]

theorem drawScene_later (cycles : Nat) (animation : Animation α) :
    (animation.later cycles).drawScene = animation.drawScene.map (later cycles) := by
  have hsearch : (animation.later cycles).turtle.advance (animation.later cycles).script
      (animation.later cycles).layout.scale =
        animation.turtle.advance animation.script animation.layout.scale := rfl
  cases hstep : (animation.turtle.advance animation.script animation.layout.scale).step? with
  | none =>
    simp only [drawScene, hsearch, hstep, Scene.map, List.map_map]
    rfl
  | some step =>
    simp only [drawScene, hsearch, hstep, Scene.map, List.map_append, List.map_map,
      apply_ite (later cycles)]
    rfl

theorem scene_later (cycles : Nat) (animation : Animation α) :
    (animation.later cycles).scene = animation.scene.map (later cycles) := by
  have hstage : (animation.later cycles).stage = animation.stage := rfl
  rw [scene, scene, hstage]
  cases animation.stage with
  | drawing =>
    simp only [drawScene_later]
    rfl
  | fading =>
    simp only [fadeScene_later]
    rfl

/-! ### What is shown -/

variable [Surface σ α]

/-- What a tick shows: the calls of its frame, what is logged, and what becomes of the surface. -/
structure Showing (σ α : Type) where
  frame : List (PaintCall α)
  logged : Array Warning
  surface : σ
  result : Except Error Stage

def showing (animation : Animation α) (surface : σ) : Showing σ α where
  frame := animation.made
  logged := animation.scene.logged
  surface := (animation.tick surface).surface
  result := (animation.tick surface).result

def shown : List (Action σ) → Animation α → List (Showing σ α)
  | [], _ => []
  | .tick surface :: rest, animation =>
    animation.showing surface :: shown rest (animation.tick surface).actor
  | .restart :: rest, animation => shown rest animation.restart

theorem tick_later (cycles : Nat) (animation : Animation α) (surface : σ) :
    (animation.later cycles).tick surface =
      let ticked := animation.tick surface
      ⟨ticked.surface, ticked.actor.later cycles, ticked.result⟩ := by
  rw [tick, scene_later]
  exact Surface.perform_map (later cycles) surface ..

theorem showing_later (cycles : Nat) (animation : Animation α) (surface : σ) :
    (animation.later cycles).showing surface = animation.showing surface := by
  rw [showing, tick_later, made, scene_later, Scene.map, List.map_map]
  rfl

theorem act_later (cycles : Nat) (animation : Animation α) (action : Action σ) :
    (animation.later cycles).act action = (animation.act action).later cycles := by
  cases action with
  | tick surface => rw [act, act, tick_later]
  | restart => exact restart_later cycles animation

theorem run_later (cycles : Nat) (animation : Animation α) (actions : List (Action σ)) :
    (animation.later cycles).run actions = (animation.run actions).later cycles := by
  induction actions generalizing animation with
  | nil => rfl
  | cons action actions ih =>
    rw [run, List.foldl_cons, act_later]
    exact ih (animation.act action)

theorem shown_later (cycles : Nat) (animation : Animation α) (actions : List (Action σ)) :
    shown actions (animation.later cycles) = shown actions animation := by
  induction actions generalizing animation with
  | nil => rfl
  | cons action actions ih =>
    cases action with
    | tick surface => rw [shown, shown, showing_later, tick_later, ih]
    | restart => rw [shown, shown, restart_later, ih]

/-! ### Recovery -/

theorem OnCourse.restart_eq {animation : Animation α} {count : Nat}
    (h : animation.OnCourse count) :
    animation.restart =
      { new animation.script animation.layout animation.style with
        cycles := animation.cycles + 1 } := by
  have hreset : animation.turtle.reset = .silent animation.layout.start := h.restart
  rw [Animation.restart, hreset]
  rfl

theorem restart_run (script : Script α) (layout : Layout α) (style : Style α)
    (actions : List (Action σ)) :
    let animation := (new script layout style).run actions
    animation.restart = { new script layout style with cycles := animation.cycles + 1 } := by
  intro animation
  -- All that a restart keeps is the design and the start of the turtle, and no action changes them.
  obtain ⟨count, hcourse⟩ := (onCourse_new script layout style).run actions
  obtain ⟨hscript, hlayout, hstyle⟩ := design_run_new script layout style actions
  have heq : animation.restart = _ := hcourse.restart_eq
  rw [hscript, hlayout, hstyle] at heq
  exact heq

theorem Ticked.cycles_eq_or_eq_restart {animation after : Animation α} {complete : Bool}
    (h : Ticked animation after complete) :
    after.cycles = animation.cycles ∨ after = animation.restart := by
  cases h with
  | restart hstage hopacity => exact .inr rfl
  | _ => exact .inl rfl

theorem tick_of_faded_of_cleared {animation : Animation α} {surface : σ}
    (hstage : animation.stage = .fading) (hopacity : animation.opacity < opacityLoss)
    (hclear : (Surface.paint surface (.clear animation.style.background)).2 = .ok ()) :
    (animation.tick surface).result = .ok .drawing ∧
      (animation.tick surface).actor = animation.restart := by
  obtain ⟨hmade, hnext⟩ := tick_of_faded hstage (UInt8.not_le.2 hopacity)
  have hrefused : Surface.refused? surface animation.made = none := by
    rw [hmade, Surface.refused?]
    split
    · rfl
    · next heq =>
      rw [heq] at hclear
      cases hclear
  have hdone : (animation.tick surface).actor = animation.scene.next ∧
      (animation.tick surface).result = .ok animation.scene.next.stage :=
    Surface.perform_of_refused?_eq_none _ _ hrefused
  rw [hnext] at hdone
  exact ⟨hdone.2, hdone.1⟩

/-- Whatever was refused and whenever it was started again, an animation is restarted as it was
made, but for the number of its cycles, which grows by one. The last tick of a fading figure does
the same once the surface takes the clear, and so does every tick that counts a cycle. From there
on it shows what a new animation shows. A turtle, wherever it has searched, is reset as it was
made. -/
theorem restart_recovers (script : Script α) (layout : Layout α) (style : Style α)
    (actions : List (Action σ)) :
    let animation := (new script layout style).run actions
    let fresh := { new script layout style with cycles := animation.cycles + 1 }
    animation.restart = fresh ∧
    (∀ surface : σ,
      (animation.stage = .fading → animation.opacity < opacityLoss →
        (Surface.paint surface (.clear style.background)).2 = .ok () →
        (animation.tick surface).result = .ok .drawing ∧
          (animation.tick surface).actor = fresh) ∧
      ((animation.tick surface).actor.cycles = animation.cycles ∨
        (animation.tick surface).actor = fresh)) ∧
    (∀ afterwards : List (Action σ),
      shown afterwards fresh = shown afterwards (new script layout style) ∧
      fresh.run afterwards =
        ((new script layout style).run afterwards).later (animation.cycles + 1)) ∧
    ∀ (start : Pose α) (uses : List (Turtle.Use α)),
      (uses.foldl Turtle.use (.new start)).reset = .new start ∧
      (uses.foldl Turtle.use (.silent start)).reset = .silent start := by
  intro animation fresh
  have hrestart : animation.restart = fresh := restart_run script layout style actions
  have hfresh : fresh = (new script layout style).later (animation.cycles + 1) := by
    rw [later]
    exact congrArg (fun cycles => { new script layout style with cycles }) (Nat.zero_add _).symm
  refine ⟨hrestart, fun surface => ⟨fun hstage hopacity hclear => ?_, ?_⟩,
    fun afterwards => ⟨?_, ?_⟩, fun start uses => ⟨?_, ?_⟩⟩
  · obtain ⟨_, _, hstyle⟩ := design_run_new script layout style actions
    rw [← hstyle] at hclear
    rw [← hrestart]
    exact tick_of_faded_of_cleared hstage hopacity hclear
  · rw [← hrestart]
    exact (ticked_tick animation surface).cycles_eq_or_eq_restart
  · rw [hfresh, shown_later]
  · rw [hfresh, run_later]
  · exact Turtle.reset_foldl_use (.new start) uses
  · exact Turtle.reset_foldl_use (.silent start) uses

end Animation

end LSystem
