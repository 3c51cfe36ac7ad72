import LSystem.Animation.Basic
import Mathlib.Control.Monad.Basic

/-!
# Refused ticks

What a tick leaves behind when the surface refuses one of its calls. The call
alone decides it: a refused clear, and a trail refused while the figure is
drawn, leave the animation as it was; a refused head line leaves the turtle one
step on, and a trail refused while the figure fades leaves the opacity lower.
-/

namespace LSystem

variable {α σ β γ : Type}

namespace Surface

variable [Surface σ α]

def refused? (surface : σ) : List (PaintCall α) → Option (PaintCall α)
  | [] => none
  | call :: rest =>
    match Surface.paint surface call with
    | (surface, .ok ()) => refused? surface rest
    | (_, .error _) => some call

theorem perform_of_refused?_eq_none {surface : σ} {calls : List (PaintCall α × β)} (next : β)
    (result : γ) (h : refused? surface (calls.map Prod.fst) = none) :
    (perform surface next result calls).actor = next ∧
      (perform surface next result calls).result = .ok result := by
  induction calls generalizing surface with
  | nil => exact ⟨rfl, rfl⟩
  | cons call rest ih =>
    simp only [List.map_cons, refused?] at h
    simp only [perform]
    rcases hp : Surface.paint surface call.1 with ⟨surface', accepted | ⟨⟩⟩
    · rw [hp] at h
      cases h
    · rw [hp] at h
      exact ih h

theorem perform_of_refused?_eq_some {surface : σ} {calls : List (PaintCall α × β)}
    {call : PaintCall α} (next : β) (result : γ)
    (h : refused? surface (calls.map Prod.fst) = some call) :
    ∃ left e, (call, left) ∈ calls ∧ (perform surface next result calls).actor = left ∧
      (perform surface next result calls).result = .error e := by
  induction calls generalizing surface with
  | nil => cases h
  | cons first rest ih =>
    simp only [List.map_cons, refused?] at h
    simp only [perform]
    rcases hp : Surface.paint surface first.1 with ⟨surface', e | ⟨⟩⟩
    · rw [hp] at h
      cases h
      exact ⟨first.2, e, List.mem_cons_self .., rfl, rfl⟩
    · rw [hp] at h
      obtain ⟨left, e, hmem, hactor, hresult⟩ := ih h
      exact ⟨left, e, List.mem_cons_of_mem _ hmem, hactor, hresult⟩

theorem perform_cases (surface : σ) (next : β) (result : γ) (calls : List (PaintCall α × β)) :
    ((perform surface next result calls).actor = next ∧
      (perform surface next result calls).result = .ok result) ∨
    ∃ call ∈ calls, ∃ e, (perform surface next result calls).actor = call.2 ∧
      (perform surface next result calls).result = .error e := by
  cases h : refused? surface (calls.map Prod.fst) with
  | none => exact .inl (perform_of_refused?_eq_none next result h)
  | some call =>
    obtain ⟨left, e, hmem, hactor, hresult⟩ := perform_of_refused?_eq_some next result h
    exact .inr ⟨(call, left), hmem, e, hactor, hresult⟩

end Surface

namespace Animation

/-! ### The calls of a scene -/

def design (animation : Animation α) : Script α × Layout α × Style α :=
  (animation.script, animation.layout, animation.style)

theorem exists_path_of_mem_trailCalls {animation : Animation α} {call : PaintCall α}
    (h : call ∈ animation.trailCalls) : ∃ path paint, call = .path path paint := by
  obtain ⟨path, _, rfl⟩ := List.mem_map.1 h
  exact ⟨path, _, rfl⟩

theorem mem_fadeScene_calls {animation : Animation α} {call : PaintCall α} {left : Animation α}
    (h : (call, left) ∈ animation.fadeScene.calls) :
    (∃ path paint, call = .path path paint) ∧
      left = { animation with opacity := animation.opacity - opacityLoss } := by
  unfold fadeScene at h
  split at h
  · obtain ⟨c, hc, heq⟩ := List.mem_map.1 h
    cases heq
    exact ⟨exists_path_of_mem_trailCalls hc, rfl⟩
  · cases h

variable [Scalar α]

/-- What is left of an animation when its next tick is refused a call. -/
def leftBy (animation : Animation α) : PaintCall α → Animation α
  | .clear _ => animation
  | .line _ _ _ =>
    { animation with
      turtle := (animation.turtle.advance animation.script animation.layout.scale).turtle }
  | .path _ _ =>
    match animation.stage with
    | .drawing => animation
    | .fading => { animation with opacity := animation.opacity - opacityLoss }

theorem drawScene_of_none {animation : Animation α}
    (h : (animation.turtle.advance animation.script animation.layout.scale).step? = none) :
    animation.drawScene.calls = animation.trailCalls.map (·, animation) := by
  simp only [drawScene, h]

theorem drawScene_of_some {animation : Animation α} {step : Step α}
    (h : (animation.turtle.advance animation.script animation.layout.scale).step? = some step) :
    animation.drawScene.calls = animation.trailCalls.map (·, animation) ++
      [(.line step.start step.stop animation.style.head,
        animation.leftBy (.line step.start step.stop animation.style.head))] := by
  simp only [drawScene, h, leftBy]

theorem mem_drawScene_calls {animation : Animation α} {call : PaintCall α} {left : Animation α}
    (h : (call, left) ∈ animation.drawScene.calls) :
    (∃ path paint, call = .path path paint ∧ left = animation) ∨
      ∃ step, (animation.turtle.advance animation.script animation.layout.scale).step? =
        some step ∧ call = .line step.start step.stop animation.style.head ∧
          left = animation.leftBy call := by
  have htrail : (call, left) ∈ animation.trailCalls.map (·, animation) →
      ∃ path paint, call = .path path paint ∧ left = animation := by
    intro hmem
    obtain ⟨c, hc, heq⟩ := List.mem_map.1 hmem
    cases heq
    obtain ⟨path, paint, rfl⟩ := exists_path_of_mem_trailCalls hc
    exact ⟨path, paint, rfl, rfl⟩
  cases hs : (animation.turtle.advance animation.script animation.layout.scale).step? with
  | none =>
    rw [drawScene_of_none hs] at h
    exact .inl (htrail h)
  | some step =>
    rw [drawScene_of_some hs] at h
    rcases List.mem_append.1 h with h | h
    · exact .inl (htrail h)
    · cases List.mem_singleton.1 h
      exact .inr ⟨step, rfl, rfl, rfl⟩

theorem left_eq_of_mem_scene_calls {animation : Animation α} {call : PaintCall α}
    {left : Animation α} (h : (call, left) ∈ animation.scene.calls) :
    left = animation.leftBy call := by
  simp only [scene] at h
  rcases List.mem_cons.1 h with h | h
  · cases h
    rfl
  · cases hstage : animation.stage with
    | drawing =>
      rw [hstage] at h
      rcases mem_drawScene_calls h with ⟨path, paint, rfl, rfl⟩ | ⟨step, _, rfl, rfl⟩
      · simp only [leftBy, hstage]
      · rfl
    | fading =>
      rw [hstage] at h
      obtain ⟨⟨path, paint, rfl⟩, rfl⟩ := mem_fadeScene_calls h
      simp only [leftBy, hstage]

/-- A refused call changes at most the turtle and the opacity. -/
theorem leftBy_eq (animation : Animation α) (call : PaintCall α) :
    animation.leftBy call =
      { animation with
        turtle := (animation.leftBy call).turtle
        opacity := (animation.leftBy call).opacity } := by
  cases call with
  | clear color => rfl
  | line start stop paint => rfl
  | path path paint =>
    obtain ⟨script, layout, style, turtle, trails, opacity, stage, cycles⟩ := animation
    cases stage with
    | drawing => rfl
    | fading => rfl

theorem stage_leftBy (animation : Animation α) (call : PaintCall α) :
    (animation.leftBy call).stage = animation.stage := by
  rw [leftBy_eq]

theorem design_leftBy (animation : Animation α) (call : PaintCall α) :
    (animation.leftBy call).design = animation.design := by
  rw [leftBy_eq]
  rfl

theorem design_next (animation : Animation α) :
    animation.scene.next.design = animation.design := by
  unfold scene
  cases animation.stage with
  | drawing =>
    simp only [drawScene]
    cases (animation.turtle.advance animation.script animation.layout.scale).step? with
    | none => rfl
    | some step =>
      dsimp only
      split <;> rfl
  | fading =>
    simp only [fadeScene]
    split <;> rfl

theorem step?_isSome_of_line_mem {animation left : Animation α} {start stop : Point α}
    {paint : Paint α} (h : (.line start stop paint, left) ∈ animation.scene.calls) :
    (animation.turtle.advance animation.script animation.layout.scale).step?.isSome = true := by
  simp only [scene] at h
  rcases List.mem_cons.1 h with h | h
  · cases h
  · cases hstage : animation.stage with
    | drawing =>
      rw [hstage] at h
      rcases mem_drawScene_calls h with ⟨path, paint, hcall, _⟩ | ⟨step, hs, _, _⟩
      · cases hcall
      · rw [hs]
        rfl
    | fading =>
      rw [hstage] at h
      obtain ⟨⟨path, paint, hcall⟩, _⟩ := mem_fadeScene_calls h
      cases hcall

/-! ### Refused calls -/

variable [Surface σ α]

theorem tick_of_refused?_eq_some {animation : Animation α} {surface : σ} {call : PaintCall α}
    (h : Surface.refused? surface (animation.scene.calls.map Prod.fst) = some call) :
    (∃ left, (call, left) ∈ animation.scene.calls) ∧
      (animation.tick surface).actor = animation.leftBy call := by
  obtain ⟨left, e, hmem, hactor, _⟩ :=
    Surface.perform_of_refused?_eq_some animation.scene.next animation.scene.next.stage h
  exact ⟨⟨left, hmem⟩, hactor.trans (left_eq_of_mem_scene_calls hmem)⟩

theorem exists_refused_of_tick_error {animation : Animation α} {surface : σ} {e : Error}
    (h : (animation.tick surface).result = .error e) :
    ∃ call, Surface.refused? surface (animation.scene.calls.map Prod.fst) = some call := by
  cases hr : Surface.refused? surface (animation.scene.calls.map Prod.fst) with
  | none =>
    have hok := (Surface.perform_of_refused?_eq_none animation.scene.next
      animation.scene.next.stage hr).2
    exact absurd (hok.symm.trans h) (by simp)
  | some call => exact ⟨call, rfl⟩

theorem tick_cases (animation : Animation α) (surface : σ) :
    ((animation.tick surface).actor = animation.scene.next ∧
      (animation.tick surface).result = .ok animation.scene.next.stage) ∨
    ∃ call e, (call, animation.leftBy call) ∈ animation.scene.calls ∧
      (animation.tick surface).actor = animation.leftBy call ∧
      (animation.tick surface).result = .error e := by
  rcases Surface.perform_cases surface animation.scene.next animation.scene.next.stage
    animation.scene.calls with h | ⟨⟨call, left⟩, hmem, e, hactor, hresult⟩
  · exact .inl h
  · cases left_eq_of_mem_scene_calls hmem
    exact .inr ⟨call, e, hmem, hactor, hresult⟩

theorem sub_opacityLoss_ne (opacity : UInt8) : opacity - opacityLoss ≠ opacity := by
  intro h
  have hnat := congrArg UInt8.toNat h
  have hlt := opacity.toNat_lt
  have hloss : opacityLoss.toNat = 16 := rfl
  rw [UInt8.toNat_sub, hloss] at hnat
  omega

/-- The call alone decides whether an animation outlives its refusal unchanged. -/
theorem leftBy_eq_self_iff {animation left : Animation α} {call : PaintCall α}
    (h : (call, left) ∈ animation.scene.calls) :
    animation.leftBy call = animation ↔
      call.sort = "clear" ∨ call.sort = "path" ∧ animation.stage = .drawing := by
  cases call with
  | clear color => simp [leftBy, PaintCall.sort]
  | line start stop paint =>
    have hmoved := (Turtle.seek_cursor animation.script animation.layout.scale animation.turtle
      false #[]).2 (step?_isSome_of_line_mem h)
    have hne : animation.leftBy (.line start stop paint) ≠ animation := by
      intro heq
      have hcursor := congrArg (fun a => a.turtle.cursor) heq
      simp only [leftBy, Turtle.advance] at hcursor
      omega
    simp [PaintCall.sort, hne]
  | path path paint =>
    cases hstage : animation.stage with
    | drawing => simp [leftBy, PaintCall.sort, hstage]
    | fading =>
      have hne : animation.leftBy (.path path paint) ≠ animation := by
        intro heq
        have hopacity := congrArg Animation.opacity heq
        simp only [leftBy, hstage] at hopacity
        exact sub_opacityLoss_ne _ hopacity
      simp [PaintCall.sort, hne]

/-- A refused tick leaves what `leftBy` says of the refused call. It leaves the animation as it was
exactly when that call is the clear or a trail of a figure still being drawn. -/
theorem refused_tick_unchanged_iff (animation : Animation α) (surface : σ) (e : Error)
    (h : (animation.tick surface).result = .error e) :
    ∃ call, Surface.refused? surface (animation.scene.calls.map Prod.fst) = some call ∧
      (animation.tick surface).actor = animation.leftBy call ∧
      ((animation.tick surface).actor = animation ↔
        call.sort = "clear" ∨ call.sort = "path" ∧ animation.stage = .drawing) := by
  obtain ⟨call, hcall⟩ := exists_refused_of_tick_error h
  obtain ⟨⟨left, hmem⟩, hactor⟩ := tick_of_refused?_eq_some hcall
  refine ⟨call, hcall, hactor, ?_⟩
  rw [hactor]
  exact leftBy_eq_self_iff hmem

def twoMoves : Animation Float :=
  .new #[.move 1, .move 1] ⟨⟨0, 0⟩, 1, .ofPoint ⟨0, 0⟩⟩ .default

def refusingSecond : Recorder Float := { refuseAfter := some 1 }

theorem refused_tick_unchanged_iff_twoMoves :
    (twoMoves.tick refusingSecond).result = .error (.refused "line") ∧
      ∃ call, Surface.refused? refusingSecond (twoMoves.scene.calls.map Prod.fst) = some call ∧
        (twoMoves.tick refusingSecond).actor = twoMoves.leftBy call ∧
        ((twoMoves.tick refusingSecond).actor = twoMoves ↔
          call.sort = "clear" ∨ call.sort = "path" ∧ twoMoves.stage = .drawing) := by
  have h : (twoMoves.tick refusingSecond).result = .error (.refused "line") := by
    decide +kernel
  exact ⟨h, refused_tick_unchanged_iff twoMoves refusingSecond _ h⟩

def drawnMoves : Animation Float :=
  ((twoMoves.tick ({} : Recorder Float)).actor.tick ({} : Recorder Float)).actor

/-- A tick is not all or nothing. Where the first head line is refused, the turtle goes on without
it, and the next frame begins to fade a figure of one segment instead of two. Where the first
trail of the fading figure is refused, its opacity is taken off nevertheless. -/
theorem refused_tick_changes_animation :
    ((twoMoves.tick refusingSecond).result = .error (.refused "line") ∧
      twoMoves.turtle.cursor = 0 ∧ (twoMoves.tick refusingSecond).actor.turtle.cursor = 1 ∧
      ((twoMoves.tick refusingSecond).actor.tick ({} : Recorder Float)).actor.trails.map
        Array.size = #[2] ∧
      drawnMoves.trails.map Array.size = #[3]) ∧
    ((drawnMoves.tick refusingSecond).result = .error (.refused "path") ∧
      drawnMoves.opacity = 255 ∧ (drawnMoves.tick refusingSecond).actor.opacity = 239) := by
  decide +kernel

end Animation

end LSystem
