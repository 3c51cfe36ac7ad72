import LSystem.Proofs.Animation.Trails
import LSystem.Proofs.Paint.Acceptance

/-!
# Cycles

On a surface that takes every call an animation does the same thing over and
over. A cycle draws the figure, one step a tick, shows it complete for one tick
more if commands that draw nothing are left, and takes its opacity off in fifteen
ticks and one last one that shows nothing. What is shown at a position of the
cycle, and the animation that shows it, are written down here from the steps of
the walk alone.
-/

namespace LSystem

variable {α σ : Type}

variable [Scalar α]

namespace Script

/-- The ticks of a cycle up to the one that begins to fade. -/
def drawTicks (script : Script α) : Nat :=
  if script.endsDrawing then script.drawCount else script.drawCount + 1

def cycleTicks (script : Script α) : Nat := script.drawTicks + 16

theorem drawCount_le_drawTicks (script : Script α) : script.drawCount ≤ script.drawTicks := by
  unfold drawTicks
  split
  · exact Nat.le_refl _
  · exact Nat.le_succ _

theorem drawTicks_pos (script : Script α) : 0 < script.drawTicks := by
  unfold drawTicks
  split
  · next h =>
    obtain ⟨command, hlast, hdraws⟩ := (Option.any_eq_true _ _).1 h
    exact Array.countP_pos_iff.2 ⟨command, Array.mem_of_back? hlast, hdraws⟩
  · exact Nat.succ_pos _

theorem cycleTicks_pos (script : Script α) : 0 < script.cycleTicks := Nat.succ_pos _

end Script

namespace Animation

/-! ### The ways a tick can go -/

def made (animation : Animation α) : List (PaintCall α) := animation.scene.calls.map Prod.fst

section Ticks

variable {animation : Animation α}

omit [Scalar α] in
theorem map_fst_trailCalls (animation left : Animation α) :
    (animation.trailCalls.map (·, left)).map Prod.fst = animation.trailCalls := by
  rw [List.map_map]
  exact List.map_id _

theorem tick_of_step {step : Step α} (hstage : animation.stage = .drawing)
    (hstep : (animation.turtle.advance animation.script animation.layout.scale).step? =
      some step) :
    let turtle := (animation.turtle.advance animation.script animation.layout.scale).turtle
    animation.made = .clear animation.style.background :: (animation.trailCalls ++
        [.line step.start step.stop animation.style.head]) ∧
      animation.scene.next =
        { animation with
          turtle
          trails := extend animation.trails step
          stage := if turtle.atEnd animation.script then .fading else .drawing } := by
  simp only [made, scene, hstage, drawScene, hstep, List.map_cons, List.map_append,
    map_fst_trailCalls, List.map_nil, true_and]
  split <;> rfl

theorem tick_of_no_step (hstage : animation.stage = .drawing)
    (hstep : (animation.turtle.advance animation.script animation.layout.scale).step? = none) :
    animation.made = .clear animation.style.background :: animation.trailCalls ∧
      animation.scene.next =
        { animation with
          turtle := (animation.turtle.advance animation.script animation.layout.scale).turtle
          stage := .fading } := by
  simp only [made, scene, hstage, drawScene, hstep, List.map_cons, map_fst_trailCalls, true_and]

theorem tick_of_fading (hstage : animation.stage = .fading)
    (hopacity : opacityLoss ≤ animation.opacity) :
    let faded := { animation with opacity := animation.opacity - opacityLoss }
    animation.made = .clear animation.style.background :: faded.trailCalls ∧
      animation.scene.next = faded := by
  simp only [made, scene, hstage, fadeScene, hopacity, if_true, List.map_cons,
    map_fst_trailCalls, true_and]

theorem tick_of_faded (hstage : animation.stage = .fading)
    (hopacity : ¬ opacityLoss ≤ animation.opacity) :
    animation.made = [.clear animation.style.background] ∧
      animation.scene.next = animation.restart := by
  simp only [made, scene, hstage, fadeScene, hopacity, if_false, List.map_cons, List.map_nil,
    true_and]

end Ticks

/-! ### The frames and the states of a cycle -/

def trailFrame (style : Style α) (steps : List (Step α)) (opacity : UInt8) :
    List (PaintCall α) :=
  (Path.trails steps).map fun path => .path path (style.tail.faded opacity)

section Cycle

variable (script : Script α) (layout : Layout α) (style : Style α)

/-- The calls of the tick at a position of the cycle. -/
def frame (position : Nat) : List (PaintCall α) :=
  let steps := (layout.walk script).steps.toList
  .clear style.background ::
    if h : position < steps.length then
      trailFrame style (steps.take position) 255 ++
        [.line steps[position].start steps[position].stop style.head]
    else if position < script.drawTicks then trailFrame style steps 255
    else if position < script.drawTicks + 15 then
      trailFrame style steps (.ofNat (255 - 16 * (position - script.drawTicks + 1)))
    else []

/-- The stage after the tick at a position of the cycle. -/
def stageAfter (position : Nat) : Stage :=
  if script.drawTicks - 1 ≤ position ∧ position < script.drawTicks + 15 then .fading else .drawing

/-- The animation before the tick at a position of a cycle. -/
def still (cycle position : Nat) : Animation α where
  script
  layout
  style
  turtle := layout.turtleAfter script (min position script.drawTicks)
  trails := (Path.trails ((layout.walk script).steps.toList.take position)).toArray
  opacity := .ofNat (255 - 16 * (position - script.drawTicks))
  stage := if position < script.drawTicks then .drawing else .fading
  cycles := cycle

theorem new_eq_still : new script layout style = still script layout style 0 0 := by
  have hpos := script.drawTicks_pos
  simp only [still, if_pos hpos, Nat.zero_sub, Nat.zero_min]
  rfl

variable {script} (cycle : Nat) {position : Nat}

theorem trailCalls_still :
    (still script layout style cycle position).trailCalls =
      trailFrame style ((layout.walk script).steps.toList.take position)
        (.ofNat (255 - 16 * (position - script.drawTicks))) := by
  simp only [trailCalls, still, trailFrame]

/-- Once the figure is complete, a frame shows all of it at some opacity, or nothing. -/
theorem frame_of_complete (h : script.drawCount ≤ position) :
    frame script layout style position = .clear style.background ::
      let steps := (layout.walk script).steps.toList
      if position < script.drawTicks then trailFrame style steps 255
      else if position < script.drawTicks + 15 then
        trailFrame style steps (.ofNat (255 - 16 * (position - script.drawTicks + 1)))
      else [] := by
  have hlength : ¬ position < (layout.walk script).steps.toList.length := by
    rw [Layout.length_steps_walk]
    exact Nat.not_lt.2 h
  rw [frame, dif_neg hlength]

theorem stage_still_of_lt (h : position < script.drawTicks) :
    (still script layout style cycle position).stage = .drawing := if_pos h

theorem stage_still_of_le (h : script.drawTicks ≤ position) :
    (still script layout style cycle position).stage = .fading := if_neg (Nat.not_lt.2 h)

theorem turtle_still_of_lt (h : position < script.drawTicks) :
    (still script layout style cycle position).turtle = layout.turtleAfter script position := by
  simp only [still, Nat.min_eq_left h.le]

omit [Scalar α] in
theorem opaque_of_le {ticks : Nat} (h : position ≤ ticks) :
    255 - 16 * (position - ticks) = 255 := by
  omega

theorem still_step (h : position < script.drawCount) :
    (still script layout style cycle position).made = frame script layout style position ∧
      (still script layout style cycle position).scene.next =
        still script layout style cycle (position + 1) := by
  have hlt : position < script.drawTicks := h.trans_le script.drawCount_le_drawTicks
  have hlength : position < (layout.walk script).steps.toList.length := by
    rw [Layout.length_steps_walk]
    exact h
  have hstep := layout.step?_turtleAfter script position
  rw [List.getElem?_eq_getElem hlength, ← turtle_still_of_lt layout style cycle hlt] at hstep
  obtain ⟨hmade, hnext⟩ := tick_of_step (stage_still_of_lt layout style cycle hlt) hstep
  constructor
  · rw [hmade, trailCalls_still, opaque_of_le hlt.le, frame, dif_pos hlength]
    rfl
  · have hturtle : min (position + 1) script.drawTicks = position + 1 := Nat.min_eq_left hlt
    have htrails : (layout.walk script).steps.toList.take (position + 1) =
        (layout.walk script).steps.toList.take position ++
          [(layout.walk script).steps.toList[position]] := List.take_succ_eq_append_getElem hlength
    have hend : (layout.turtleAfter script (position + 1)).atEnd script = true ↔
        ¬ position + 1 < script.drawTicks := by
      rw [layout.atEnd_turtleAfter_succ script h, Script.drawTicks, Bool.and_eq_true,
        decide_eq_true_iff]
      cases script.endsDrawing with
      | false =>
        simp only [Bool.false_eq_true, if_false, and_false, false_iff, not_not]
        omega
      | true =>
        simp only [if_true, and_true]
        omega
    rw [hnext, turtle_still_of_lt layout style cycle hlt]
    simp only [still, hturtle, opaque_of_le hlt.le, opaque_of_le (show position + 1 ≤ _ from hlt),
      extend_trails, ← Layout.turtleAfter_succ, hend, htrails, ite_not]

theorem still_rest (h : script.drawCount ≤ position) (hlt : position < script.drawTicks) :
    (still script layout style cycle position).made = frame script layout style position ∧
      (still script layout style cycle position).scene.next =
        still script layout style cycle (position + 1) := by
  have hlast : script.drawTicks ≤ position + 1 := by
    unfold Script.drawTicks
    split <;> omega
  have hnone : (layout.walk script).steps.toList[position]? = none := by
    refine List.getElem?_eq_none ?_
    rw [Layout.length_steps_walk]
    exact h
  have hstep := layout.step?_turtleAfter script position
  rw [hnone, ← turtle_still_of_lt layout style cycle hlt] at hstep
  obtain ⟨hmade, hnext⟩ := tick_of_no_step (stage_still_of_lt layout style cycle hlt) hstep
  constructor
  · rw [hmade, trailCalls_still, opaque_of_le hlt.le, frame_of_complete layout style h,
      layout.take_steps_walk h]
    exact congrArg _ (if_pos hlt).symm
  · have hturtle : min (position + 1) script.drawTicks = position + 1 := Nat.min_eq_left hlt
    rw [hnext, turtle_still_of_lt layout style cycle hlt]
    simp only [still, hturtle, opaque_of_le hlt.le, opaque_of_le (show position + 1 ≤ _ from hlt),
      ← Layout.turtleAfter_succ, layout.take_steps_walk h,
      layout.take_steps_walk (h.trans (Nat.le_succ _)), if_neg (Nat.not_lt.2 hlast)]

omit [Scalar α] in
theorem fading_opacity : ∀ k < 15, opacityLoss ≤ .ofNat (255 - 16 * k) ∧
    UInt8.ofNat (255 - 16 * k) - opacityLoss = .ofNat (255 - 16 * (k + 1)) := by
  decide

theorem still_fade (h : script.drawTicks ≤ position) (hlt : position < script.drawTicks + 15) :
    (still script layout style cycle position).made = frame script layout style position ∧
      (still script layout style cycle position).scene.next =
        still script layout style cycle (position + 1) := by
  have hcomplete : script.drawCount ≤ position := script.drawCount_le_drawTicks.trans h
  have hnext_le : script.drawTicks ≤ position + 1 := h.trans (Nat.le_succ _)
  have hk : position - script.drawTicks < 15 := by omega
  have hsucc : position + 1 - script.drawTicks = position - script.drawTicks + 1 := by omega
  obtain ⟨hopacity, hloss⟩ := fading_opacity _ hk
  obtain ⟨hmade, hnext⟩ := tick_of_fading (stage_still_of_le layout style cycle h) hopacity
  have hfaded : { still script layout style cycle position with
      opacity := (still script layout style cycle position).opacity - opacityLoss } =
        still script layout style cycle (position + 1) := by
    simp only [still, hloss, hsucc, Nat.min_eq_right h, Nat.min_eq_right hnext_le,
      layout.take_steps_walk hcomplete, layout.take_steps_walk (hcomplete.trans (Nat.le_succ _)),
      if_neg (Nat.not_lt.2 h), if_neg (Nat.not_lt.2 hnext_le)]
  refine ⟨?_, hnext.trans hfaded⟩
  rw [hmade, hfaded, trailCalls_still, hsucc, frame_of_complete layout style hcomplete,
    layout.take_steps_walk (hcomplete.trans (Nat.le_succ _))]
  simp only [if_neg (Nat.not_lt.2 h), if_pos hlt]
  rfl

theorem still_restart (h : position = script.drawTicks + 15) :
    (still script layout style cycle position).made = frame script layout style position ∧
      (still script layout style cycle position).scene.next =
        still script layout style (cycle + 1) 0 := by
  have hle : script.drawTicks ≤ position := by omega
  have hend : ¬ position < script.drawTicks + 15 := by omega
  have hcomplete : script.drawCount ≤ position := script.drawCount_le_drawTicks.trans hle
  have hopacity : (still script layout style cycle position).opacity = 15 := by
    simp only [still, h, Nat.add_sub_cancel_left]
    rfl
  have hgone : ¬ opacityLoss ≤ (still script layout style cycle position).opacity := by
    rw [hopacity]
    decide
  obtain ⟨hmade, hnext⟩ := tick_of_faded (stage_still_of_le layout style cycle hle) hgone
  constructor
  · rw [hmade, frame_of_complete layout style hcomplete]
    simp only [if_neg (Nat.not_lt.2 hle), if_neg hend]
    rfl
  · rw [hnext]
    simp only [restart, still, Layout.reset_turtleAfter, Nat.zero_sub, if_pos script.drawTicks_pos,
      Nat.zero_min, List.take_zero]
    rfl

/-- A tick shows the frame of its position and moves on to the next one, at the end of the cycle to
the first one of the next cycle. -/
theorem still_tick (h : position < script.cycleTicks) :
    (still script layout style cycle position).made = frame script layout style position ∧
      (still script layout style cycle position).scene.next =
        if position + 1 < script.cycleTicks then still script layout style cycle (position + 1)
        else still script layout style (cycle + 1) 0 := by
  have hticks : script.cycleTicks = script.drawTicks + 16 := rfl
  by_cases hrestart : position = script.drawTicks + 15
  · rw [if_neg (by omega)]
    exact still_restart layout style cycle hrestart
  · rw [if_pos (by omega)]
    by_cases hstep : position < script.drawCount
    · exact still_step layout style cycle hstep
    · by_cases hrest : position < script.drawTicks
      · exact still_rest layout style cycle (Nat.le_of_not_lt hstep) hrest
      · exact still_fade layout style cycle (Nat.le_of_not_lt hrest) (by omega)

theorem stage_next_still (h : position < script.cycleTicks) :
    (still script layout style cycle position).scene.next.stage = stageAfter script position := by
  have hticks : script.cycleTicks = script.drawTicks + 16 := rfl
  have hpos := script.drawTicks_pos
  rw [(still_tick layout style cycle h).2]
  by_cases hend : position + 1 < script.cycleTicks
  · rw [if_pos hend]
    by_cases hlt : position + 1 < script.drawTicks
    · rw [stage_still_of_lt layout style cycle hlt, stageAfter, if_neg (by omega)]
    · have hle := Nat.le_of_not_lt hlt
      rw [stage_still_of_le layout style cycle hle, stageAfter, if_pos (by omega)]
  · rw [if_neg hend, stage_still_of_lt layout style (cycle + 1) hpos, stageAfter, if_neg (by omega)]

end Cycle

/-! ### Ticks in a row -/

/-- What so many ticks have made of a surface and an animation, and what they returned. -/
structure Screening (σ α : Type) where
  surface : σ
  animation : Animation α
  results : List (Except Error Stage)

variable [Surface σ α]

def play (animation : Animation α) (surface : σ) : Nat → Screening σ α
  | 0 => ⟨surface, animation, []⟩
  | count + 1 =>
    let before := animation.play surface count
    let ticked := before.animation.tick before.surface
    ⟨ticked.surface, ticked.actor, before.results ++ [ticked.result]⟩

theorem tick_of_accepts (animation : Animation α) {surface : σ} (h : Surface.Accepts surface) :
    animation.tick surface = ⟨Surface.given surface animation.made, animation.scene.next,
      .ok animation.scene.next.stage⟩ :=
  Surface.perform_of_accepts h ..

theorem succ_div_mod {period : Nat} (hpos : 0 < period) (t : Nat) :
    if t % period + 1 < period then (t + 1) / period = t / period ∧
      (t + 1) % period = t % period + 1
    else (t + 1) / period = t / period + 1 ∧ (t + 1) % period = 0 := by
  have hlt := Nat.mod_lt t hpos
  have hsplit := Nat.mod_add_div t period
  split
  · next h =>
    refine (Nat.div_mod_unique hpos).2 ⟨?_, h⟩
    omega
  · next h =>
    refine (Nat.div_mod_unique hpos).2 ⟨?_, hpos⟩
    rw [Nat.mul_add, Nat.mul_one]
    omega

variable (script : Script α) (layout : Layout α) (style : Style α)

theorem play_new {surface : σ} (h : Surface.Accepts surface) (count : Nat) :
    (new script layout style).play surface count =
      { surface := Surface.given surface ((List.range count).flatMap fun t =>
          frame script layout style (t % script.cycleTicks))
        animation :=
          still script layout style (count / script.cycleTicks) (count % script.cycleTicks)
        results := (List.range count).map fun t =>
          .ok (stageAfter script (t % script.cycleTicks)) } := by
  induction count with
  | zero =>
    rw [Nat.zero_div, Nat.zero_mod, ← new_eq_still]
    rfl
  | succ count ih =>
    have hlt := Nat.mod_lt count script.cycleTicks_pos
    have hsucc := succ_div_mod script.cycleTicks_pos count
    obtain ⟨hmade, hnext⟩ :=
      still_tick layout style (count / script.cycleTicks) hlt
    have hstage := stage_next_still layout style (count / script.cycleTicks) hlt
    have hlater : (still script layout style (count / script.cycleTicks)
        (count % script.cycleTicks)).scene.next =
          still script layout style ((count + 1) / script.cycleTicks)
            ((count + 1) % script.cycleTicks) := by
      rw [hnext]
      split
      · next hend =>
        rw [if_pos hend] at hsucc
        rw [hsucc.1, hsucc.2]
      · next hend =>
        rw [if_neg hend] at hsucc
        rw [hsucc.1, hsucc.2]
    rw [play, ih, tick_of_accepts _ (h.given _), hmade, hstage, hlater, ← Surface.given_append,
      List.range_succ, List.flatMap_append, List.flatMap_singleton, List.map_append,
      List.map_singleton]

/-- One step, a branch of one step, and a step that goes on from where the branch began. -/
def fork : Script Float := #[.move 1, .enter, .move 1, .leave, .turn 90, .move 1, .turn 90]

def unitLayout : Layout Float := ⟨⟨0, 0⟩, 1, .ofPoint ⟨0, 0⟩⟩

/-- After the `count`-th step of any cycle the trails are the first `count` steps of the walk, cut
before each that resumes a branch. Their pieces are exactly these steps, since within a trail every
step begins where the one before it ended. -/
theorem trails_eq_runs (surface : σ) (h : Surface.Accepts surface) (cycle count : Nat)
    (hcount : count ≤ script.drawCount) :
    let screening := (new script layout style).play surface (cycle * script.cycleTicks + count)
    let steps := (layout.walk script).steps.toList.take count
    let trails := screening.animation.trails.toList
    steps.length = count ∧
    trails = (Step.runs steps).map Path.ofRun ∧
    trails.length =
      (if count = 0 then 0 else 1 + steps.tail.countP fun step => step.resumed) ∧
    (∀ run ∈ Step.runs steps, run.IsChain fun step next => next.start = step.stop) ∧
    trails.flatMap Path.pieces = steps.map Step.ends := by
  intro screening steps trails
  have hlt : count < script.cycleTicks :=
    (hcount.trans script.drawCount_le_drawTicks).trans_lt (Nat.lt_add_of_pos_right (by decide))
  have hposition : (cycle * script.cycleTicks + count) % script.cycleTicks = count :=
    (Nat.mul_add_mod' ..).trans (Nat.mod_eq_of_lt hlt)
  have hlength : steps.length = count := by
    rw [List.length_take, Layout.length_steps_walk, Nat.min_eq_left hcount]
  have hfollows : steps.IsChain fun step next => next.Follows step :=
    (layout.walk_follows script).take count
  have htrails : trails = Path.trails steps := by
    have hplay : screening = _ := play_new script layout style h _
    simp only [trails, hplay, hposition, still]
    rfl
  have hempty : steps = [] ↔ count = 0 := by rw [← List.length_eq_zero_iff, hlength]
  refine ⟨hlength, htrails, ?_, fun run hrun => Step.isChain_of_mem_runs hfollows hrun, ?_⟩
  · rw [htrails, Path.length_trails]
    simp only [hempty]
  · rw [htrails]
    exact Path.flatMap_pieces_trails hfollows

theorem trails_eq_runs_fork :
    Surface.Accepts ({} : Recorder Float) ∧ 3 ≤ fork.drawCount ∧
      let screening := (new fork unitLayout .default).play ({} : Recorder Float)
        (2 * fork.cycleTicks + 3)
      screening.animation.trails.toList.map Array.size = [3, 2] := by
  have haccepts : Surface.Accepts ({} : Recorder Float) := Recorder.accepts #[]
  have hcount : 3 ≤ fork.drawCount := by decide +kernel
  have htrails := (trails_eq_runs fork unitLayout .default _ haccepts 2 3 hcount).2.1
  refine ⟨haccepts, hcount, ?_⟩
  simp only [htrails]
  decide +kernel

end Animation

end LSystem
