import LSystem.Proofs.Animation.Course

/-!
# Losses

A head line that is refused costs the animation its step: the turtle has gone on,
and no trail gets the step later. So the trails go along some of the steps that
the turtle has made since it last set out, in their order, and along nothing else.
Whatever is refused, a figure still being drawn is opaque, one that fades has no
command left, and the opacity is one of sixteen.
-/

namespace LSystem

variable {α σ : Type}

/-! ### Lines of trails -/

def PathElement.lineTo? : PathElement α → Option (Point α)
  | lineTo p => some p
  | _ => none

/-- The points that a path draws lines to. -/
def Path.stops (path : Path α) : List (Point α) := path.toList.filterMap PathElement.lineTo?

theorem Path.stops_ofRun (run : List (Step α)) : (ofRun run).stops = run.map Step.stop := by
  have hlines : ∀ run : List (Step α),
      (run.map fun step => PathElement.lineTo step.stop).filterMap PathElement.lineTo? =
        run.map Step.stop := by
    intro run
    rw [List.filterMap_map]
    exact congrFun List.filterMap_eq_map run
  cases run with
  | nil => rfl
  | cons step rest => exact hlines (step :: rest)

theorem Path.flatMap_stops_trails (steps : List (Step α)) :
    (trails steps).flatMap stops = steps.map Step.stop := by
  have hflatten : (Step.runs steps).flatten = steps := List.flatten_splitBy ..
  calc (trails steps).flatMap stops
      = (Step.runs steps).flatMap fun run => (ofRun run).stops := List.flatMap_map ..
    _ = (Step.runs steps).flatMap (List.map Step.stop) :=
        List.flatMap_congr fun run _ => stops_ofRun run
    _ = (Step.runs steps).flatten.map Step.stop := List.map_flatten.symm
    _ = steps.map Step.stop := by rw [hflatten]

theorem Path.exists_of_mem_trails {steps : List (Step α)} {path : Path α}
    (h : path ∈ trails steps) :
    ∃ start stops, stops ≠ [] ∧ path.toList = .moveTo start :: stops.map .lineTo := by
  obtain ⟨run, hrun, rfl⟩ := List.mem_map.1 h
  cases run with
  | nil => exact absurd hrun (List.nil_notMem_splitBy _ _)
  | cons step rest =>
    refine ⟨step.start, (step :: rest).map Step.stop, by simp, ?_⟩
    simp only [ofRun, List.map_map]
    rfl

variable [Scalar α]

/-! ### Commands behind a turtle -/

/-- How many of the commands behind the cursor draw. -/
def Turtle.drawsBehind (turtle : Turtle α) (script : Script α) : Nat :=
  (script.toList.take turtle.cursor).countP Command.draws

theorem Layout.drawsBehind_turtleAfter (layout : Layout α) (script : Script α) (count : Nat) :
    (layout.turtleAfter script count).drawsBehind script = min count script.drawCount := by
  have hremaining := layout.countP_draws_turtleAfter script count
  have hall : script.toList.countP Command.draws = script.drawCount := Array.countP_toList
  rw [← List.take_append_drop (layout.turtleAfter script count).cursor script.toList,
    List.countP_append] at hall
  rw [Turtle.remaining] at hremaining
  rw [Turtle.drawsBehind]
  omega

namespace Animation

/-! ### What refusals leave -/

/-- The turtle has made so many searches since it set out, and the trails go along the steps
`drawn`. -/
structure Draws (animation : Animation α) (count : Nat) (drawn : List (Step α)) : Prop where
  course : animation.OnCourse count
  opacity : ∃ losses ≤ 15, animation.opacity = .ofNat (255 - 16 * losses)
  undimmed : animation.stage = .drawing → animation.opacity = 255
  exhausted : animation.stage = .fading → animation.turtle.atEnd animation.script = true
  trails : animation.trails = (Path.trails drawn).toArray
  sublist : drawn.Sublist ((animation.layout.walk animation.script).steps.toList.take count)

variable {animation after : Animation α} {count : Nat} {drawn : List (Step α)}

theorem OnCourse.draws_nil (h : animation.OnCourse 0) (hstage : animation.stage = .drawing)
    (hopacity : animation.opacity = 255) (htrails : animation.trails = #[]) :
    animation.Draws 0 [] where
  course := h
  opacity := ⟨0, by decide, hopacity⟩
  undimmed _ := hopacity
  exhausted hfading := absurd (hstage.symm.trans hfading) (by decide)
  trails := htrails
  sublist := List.nil_sublist _

theorem Draws.restart (h : animation.Draws count drawn) : animation.restart.Draws 0 [] :=
  h.course.restart.draws_nil rfl rfl rfl

theorem Draws.sublist_succ (h : animation.Draws count drawn) :
    drawn.Sublist ((animation.layout.walk animation.script).steps.toList.take (count + 1)) :=
  h.sublist.trans (List.take_sublist_take_left (Nat.le_succ count))

theorem Draws.getElem? (h : animation.Draws count drawn) :
    (animation.layout.walk animation.script).steps.toList[count]? = animation.search.step? := by
  rw [← Layout.step?_turtleAfter, ← h.course]
  rfl

theorem Draws.exists_opacity (h : animation.Draws count drawn)
    (hopacity : opacityLoss ≤ animation.opacity) :
    ∃ losses ≤ 15, animation.opacity - opacityLoss = .ofNat (255 - 16 * losses) := by
  obtain ⟨losses, hle, heq⟩ := h.opacity
  rw [heq] at hopacity ⊢
  have hlt : losses < 15 := by
    refine Nat.lt_of_le_of_ne hle ?_
    rintro rfl
    exact absurd hopacity (by decide)
  exact ⟨losses + 1, hlt, (fading_opacity losses hlt).2⟩

theorem Draws.toNat_opacity (h : animation.Draws count drawn) :
    ∃ losses ≤ 15, animation.opacity.toNat = 255 - 16 * losses := by
  obtain ⟨losses, hle, heq⟩ := h.opacity
  refine ⟨losses, hle, ?_⟩
  rw [heq, UInt8.toNat_ofNat']
  omega

theorem Draws.stops (h : animation.Draws count drawn) :
    animation.trails.toList.flatMap Path.stops = drawn.map Step.stop := by
  rw [h.trails, Path.flatMap_stops_trails]

theorem Draws.sublist_drawsBehind (h : animation.Draws count drawn) :
    drawn.Sublist ((animation.layout.walk animation.script).steps.toList.take
      (animation.turtle.drawsBehind animation.script)) := by
  have hsublist := h.sublist
  have hturtle : animation.turtle = animation.layout.turtleAfter animation.script count := h.course
  rw [hturtle, Layout.drawsBehind_turtleAfter]
  rcases Nat.le_total count animation.script.drawCount with hle | hle
  · rw [Nat.min_eq_left hle]
    exact hsublist
  · rw [Nat.min_eq_right hle, animation.layout.take_steps_walk (Nat.le_refl _)]
    rw [animation.layout.take_steps_walk hle] at hsublist
    exact hsublist

theorem Draws.ticked {complete : Bool} (h : animation.Draws count drawn)
    (hticked : Ticked animation after complete) :
    ∃ count' drawn', after.Draws count' drawn' := by
  cases hticked with
  | refused => exact ⟨count, drawn, h⟩
  | headRefused hstage hstep =>
    -- This is the step that is lost.
    exact ⟨count + 1, drawn, h.course.search, h.opacity, h.undimmed,
      fun hfading => absurd (hstage.symm.trans hfading) (by decide), h.trails, h.sublist_succ⟩
  | trailRefused hstage hopacity =>
    exact ⟨count, drawn, h.course, h.exists_opacity hopacity,
      fun hdrawing => absurd (hstage.symm.trans hdrawing) (by decide), h.exhausted, h.trails,
      h.sublist⟩
  | @step step hstage hstep =>
    have hsteps := List.getElem?_eq_some_iff.1 (h.getElem?.trans hstep)
    refine ⟨count + 1, drawn ++ [step], h.course.search, h.opacity, fun _ => h.undimmed hstage,
      ?_, ?_, ?_⟩
    · intro hfading
      dsimp only at hfading ⊢
      split at hfading
      · assumption
      · cases hfading
    · rw [← extend_trails, ← h.trails]
    · obtain ⟨hlt, hget⟩ := hsteps
      rw [List.take_succ_eq_append_getElem hlt, hget]
      exact h.sublist.append (List.Sublist.refl _)
  | rest hstage hstep =>
    refine ⟨count + 1, drawn, h.course.search, h.opacity, fun hdrawing => ?_, fun _ => ?_,
      h.trails, h.sublist_succ⟩
    · cases hdrawing
    · exact decide_eq_true (Turtle.size_le_cursor_of_seek_eq_none hstep)
  | fade hstage hopacity =>
    exact ⟨count, drawn, h.course, h.exists_opacity hopacity,
      fun hdrawing => absurd (hstage.symm.trans hdrawing) (by decide), h.exhausted, h.trails,
      h.sublist⟩
  | restart hstage hopacity => exact ⟨0, [], h.restart⟩

variable [Surface σ α]

theorem Draws.act (h : animation.Draws count drawn) (action : Action σ) :
    ∃ count' drawn', (animation.act action).Draws count' drawn' := by
  cases action with
  | tick surface => exact h.ticked (ticked_tick animation surface)
  | restart => exact ⟨0, [], h.restart⟩

theorem Draws.run (h : animation.Draws count drawn) (actions : List (Action σ)) :
    ∃ count' drawn', (animation.run actions).Draws count' drawn' := by
  induction actions generalizing animation count drawn with
  | nil => exact ⟨count, drawn, h⟩
  | cons action actions ih =>
    obtain ⟨count', drawn', hact⟩ := h.act action
    exact ih hact

/-- Whatever the surfaces refuse, and whenever an animation is started again: its opacity is one
of sixteen, full while the figure is drawn, and the figure fades only when no command is left. Each
trail sets out once and draws some lines, and the lines of all trails end where some of the steps
end that the turtle has made since it last set out, each step once and in the order of the walk. -/
theorem trails_keep_to_walk (script : Script α) (layout : Layout α) (style : Style α)
    (actions : List (Action σ)) :
    let animation := (new script layout style).run actions
    let made := animation.turtle.drawsBehind script
    let stops := animation.trails.toList.flatMap Path.stops
    (∃ losses ≤ 15, animation.opacity.toNat = 255 - 16 * losses) ∧
    (animation.stage = .drawing → animation.opacity = 255) ∧
    (animation.stage = .fading → animation.turtle.atEnd script = true) ∧
    (∀ path ∈ animation.trails.toList, ∃ start ends, ends ≠ [] ∧
      path.toList = .moveTo start :: ends.map .lineTo) ∧
    stops.length ≤ made ∧
    ∃ drawn : List (Step α), drawn.Sublist ((layout.walk script).steps.toList.take made) ∧
      stops = drawn.map Step.stop := by
  intro animation made stops
  obtain ⟨count, drawn, h⟩ :=
    ((onCourse_new script layout style).draws_nil rfl rfl rfl).run actions
  obtain ⟨hscript, hlayout, _⟩ := design_run_new script layout style actions
  have hstops : stops = drawn.map Step.stop := h.stops
  have hsublist := h.sublist_drawsBehind
  have hexhausted := h.exhausted
  rw [hscript, hlayout] at hsublist
  rw [hscript] at hexhausted
  refine ⟨h.toNat_opacity, h.undimmed, hexhausted, ?_, ?_, drawn, hsublist, hstops⟩
  · intro path hpath
    rw [h.trails] at hpath
    exact Path.exists_of_mem_trails hpath
  · rw [hstops, List.length_map]
    exact hsublist.length_le.trans (List.length_take_le _ _)

end Animation

end LSystem
