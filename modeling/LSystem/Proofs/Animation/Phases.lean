import LSystem.Proofs.Animation.Course
import LSystem.Proofs.Animation.Timing

/-!
# Phases between two changes

The history of the phase from one change of the configuration to the next, with
every tick on the way, also those within one call. A player that has been
prepared stays so, and one that has failed keeps its error. A player that plays
goes on with the same figure; it begins to fade with the turtle at the end of
the script, and it begins to draw anew with everything as at the start. How
often it did that is what the animation counts as its cycles.
-/

namespace LSystem

variable {α σ : Type} [Scalar α]

namespace Player

/-- A tick that is made, with the player and the surface before it. -/
structure Tick (σ α : Type) where
  player : Player α
  surface : σ

def Tick.after [Surface σ α] (tick : Tick σ α) : Player α := (tick.player.tick tick.surface).actor

/-- A tick that takes a fading figure back to its start. -/
def Tick.restarts [Surface σ α] (tick : Tick σ α) : Bool :=
  tick.player.phase == .fading && tick.after.phase == .drawing

/-- The cycles that the animation has counted; none as long as there is no animation. -/
def cycles (player : Player α) : Nat := (player.animation.map Animation.cycles).getD 0

/-- The modes are apart, and the turtle of an animation is on its course. -/
structure Sound (player : Player α) : Prop where
  coherent : player.Coherent
  course : ∀ animation, player.animation = some animation → ∃ count, animation.OnCourse count

/-- What a player can become without a change of its configuration, while its figure starts again
so many times. -/
structure Leads (player after : Player α) (restarts : Nat) : Prop where
  config : after.config = player.config
  prepared : player.phase ≠ .preparing → after.phase ≠ .preparing
  failed : player.phase = .failed → after.phase = .failed ∧ after.error = player.error
  figure : ∀ animation, player.animation = some animation →
    ∃ animation', after.animation = some animation' ∧ animation'.design = animation.design
  cycles : after.cycles = player.cycles + restarts

variable {player after : Player α} {animation : Animation α}

omit [Scalar α] in
theorem Leads.of_eq (hconfig : after.config = player.config) (hphase : after.phase = player.phase)
    (herror : after.error = player.error) (hanimation : after.animation = player.animation) :
    player.Leads after 0 where
  config := hconfig
  prepared h := by rwa [hphase]
  failed h := ⟨hphase.trans h, herror⟩
  figure animation ha := ⟨animation, hanimation.trans ha, rfl⟩
  cycles := by rw [Player.cycles, Player.cycles, hanimation, Nat.add_zero]

omit [Scalar α] in
theorem Leads.trans {first second third : Player α} {a b : Nat} (h : first.Leads second a)
    (h' : second.Leads third b) : first.Leads third (a + b) where
  config := h'.config.trans h.config
  prepared hphase := h'.prepared (h.prepared hphase)
  failed hphase := by
    obtain ⟨hsecond, herror⟩ := h.failed hphase
    obtain ⟨hthird, herror'⟩ := h'.failed hsecond
    exact ⟨hthird, herror'.trans herror⟩
  figure animation ha := by
    obtain ⟨animation', ha', hdesign⟩ := h.figure animation ha
    obtain ⟨animation'', ha'', hdesign'⟩ := h'.figure animation' ha'
    exact ⟨animation'', ha'', hdesign'.trans hdesign⟩
  cycles := by rw [h'.cycles, h.cycles, Nat.add_assoc]

omit [Scalar α] in
/-- Another frame of the same figure. -/
theorem Animates.leads {next : Animation α} {phase : Phase} {ticks restarts : Nat}
    (h : player.Animates animation) (hdesign : next.design = animation.design)
    (hcycles : next.cycles = animation.cycles + restarts) (hphase : phase ≠ .preparing) :
    player.Leads
      { player with animation := some next, phase := phase, ticks := ticks } restarts where
  config := rfl
  prepared _ := hphase
  failed hfailed := by
    rcases h.2 with hplays | hplays <;> rw [hfailed] at hplays <;> cases hplays
  figure animation' ha := by
    rw [h.1] at ha
    cases ha
    exact ⟨next, rfl, hdesign⟩
  cycles := by simp only [Player.cycles, h.1, Option.map_some, Option.getD_some, hcycles]

/-! ### Modes -/

omit [Scalar α] in
theorem Coherent.isPlaying_of_phase (h : player.Coherent)
    (hphase : player.phase = .drawing ∨ player.phase = .fading) : player.IsPlaying := by
  rcases h with hmode | hmode | hmode
  · rw [hmode.1] at hphase
    rcases hphase with hphase | hphase <;> cases hphase
  · exact hmode
  · rw [hmode.1] at hphase
    rcases hphase with hphase | hphase <;> cases hphase

omit [Scalar α] in
theorem Coherent.isFailed_of_phase (h : player.Coherent) (hphase : player.phase = .failed) :
    player.IsFailed := by
  rcases h with hmode | hmode | hmode
  · rw [hmode.1] at hphase
    cases hphase
  · have hplays := hmode.1
    rw [hphase] at hplays
    rcases hplays with hplays | hplays <;> cases hplays
  · exact hmode

/-! ### Results -/

/-- A result can only make a player that prepares into one that begins to draw, or into one that
has failed. -/
structure Gathers (player after : Player α) : Prop where
  sound : after.Sound
  leads : player.Leads after 0
  begins : after = player ∨ player.phase = .preparing ∧
    ∀ animation, after.animation = some animation → animation.stage = .drawing

theorem Gathers.refl (h : player.Sound) : player.Gathers player :=
  ⟨h, .of_eq rfl rfl rfl rfl, .inl rfl⟩

omit [Scalar α] in
theorem IsPreparing.leads (h : player.IsPreparing) (hconfig : after.config = player.config)
    (hcycles : after.cycles = 0) : player.Leads after 0 where
  config := hconfig
  prepared hprepared := absurd h.1 hprepared
  failed hfailed := by
    rw [h.1] at hfailed
    cases hfailed
  figure animation ha := by
    rw [h.2.2.1] at ha
    cases ha
  cycles := by
    rw [hcycles, Player.cycles, h.2.2.1]
    rfl

theorem IsPreparing.gathers_accept (h : player.IsPreparing) (result : Except Error (Figure α)) :
    player.Gathers ({ player with pending := none }.accept player.version result) := by
  have hcoherent := h.accept result
  cases result with
  | error e =>
    have heq := accept_error { player with pending := none } e
    rw [heq] at hcoherent ⊢
    refine ⟨⟨hcoherent, ?_⟩, h.leads rfl rfl, .inr ⟨h.1, ?_⟩⟩
    · intro animation ha
      cases ha
    · intro animation ha
      cases ha
  | ok figure =>
    have heq := accept_ok { player with pending := none } figure
    rw [heq] at hcoherent ⊢
    refine ⟨⟨hcoherent, ?_⟩, h.leads rfl rfl, .inr ⟨h.1, ?_⟩⟩
    · intro animation ha
      cases ha
      exact ⟨0, Animation.onCourse_new ..⟩
    · intro animation ha
      cases ha
      rfl

theorem Sound.collect (h : player.Sound) : player.Gathers player.collect := by
  rcases collect_cases player with heq | ⟨worker, result, hw, _, heq⟩
  · rw [heq]
    exact .refl h
  · obtain ⟨hpreparing, hversion⟩ := h.coherent.isPreparing hw
    rw [heq, hversion]
    exact hpreparing.gathers_accept result

theorem Sound.await (h : player.Sound) : player.Gathers player.await := by
  rcases await_cases player with ⟨_, heq⟩ | ⟨worker, hw, heq⟩
  · rw [heq]
    exact .refl h
  · obtain ⟨hpreparing, hversion⟩ := h.coherent.isPreparing hw
    rw [heq, hversion]
    exact hpreparing.gathers_accept _

theorem Gathers.eq_of_stage (h : player.Gathers after) (ha : after.animation = some animation)
    (hstage : animation.stage = .fading) : after = player := by
  rcases h.begins with heq | ⟨_, hdrawing⟩
  · exact heq
  · have hboth := hdrawing animation ha
    rw [hstage] at hboth
    cases hboth

/-- A player whose figure fades already had it before. -/
theorem Gathers.eq_of_fading (h : player.Gathers after) (hphase : after.phase = .fading) :
    after = player := by
  obtain ⟨_, _, _, animation, ha, hstage⟩ := h.sound.coherent.isPlaying_of_phase (.inr hphase)
  refine h.eq_of_stage ha ?_
  rw [hphase] at hstage
  cases hs : animation.stage with
  | fading => rfl
  | drawing =>
    rw [hs] at hstage
    cases hstage

theorem Gathers.eq_of_before (h : player.Gathers after) (hphase : player.phase = .fading) :
    after = player := by
  rcases h.begins with heq | ⟨hpreparing, _⟩
  · exact heq
  · rw [hphase] at hpreparing
    cases hpreparing

/-! ### Ticks -/

def AtEnd (player : Player α) : Prop :=
  ∃ animation, player.animation = some animation ∧ animation.turtle.atEnd animation.script = true

/-- The animation is about to draw its first step. -/
def AtStart (player : Player α) : Prop :=
  ∃ animation, player.animation = some animation ∧
    animation.turtle = .silent animation.layout.start ∧ animation.trails = #[] ∧
    animation.opacity = 255

/-- What a tick does to the phase: it may begin to fade at the end of the script, and only at the
end of a cycle does a fading figure begin to draw. -/
inductive Turns (player after : Player α) : Prop
  | onwards (leads : player.Leads after 0) (ends : after.phase = .fading →
      player.phase = .fading ∨ after.AtEnd)
      (fades : player.phase = .fading → after.phase ≠ .drawing)
  | restarts (leads : player.Leads after 1) (before : player.phase = .fading)
      (begins : after.phase = .drawing) (atStart : after.AtStart)

/-- Without a complete frame the phase can only change by a result. -/
theorem Gathers.turns {gathered : Player α} (h : player.Gathers gathered)
    (hleads : gathered.Leads after 0) (hphase : after.phase = gathered.phase) :
    player.Turns after := by
  refine .onwards (h.leads.trans hleads) ?_ ?_
  · intro hfading
    rw [hphase] at hfading
    rw [h.eq_of_fading hfading] at hfading
    exact .inl hfading
  · intro hfading
    rw [hphase, h.eq_of_before hfading, hfading]
    exact Phase.noConfusion

theorem Gathers.turns_frame {gathered : Player α} (h : player.Gathers gathered)
    (animates : gathered.Animates animation) {next : Animation α} (ticks : Nat)
    (hticked : Animation.Ticked animation next true) :
    player.Turns { gathered with
      animation := some next, phase := next.stage.phase, ticks := ticks } := by
  have hleads : ∀ restarts, next.cycles = animation.cycles + restarts →
      player.Leads { gathered with
        animation := some next, phase := next.stage.phase, ticks := ticks } (0 + restarts) := by
    intro restarts hcycles
    refine h.leads.trans (animates.leads hticked.design hcycles ?_)
    cases next.stage <;> exact Phase.noConfusion
  -- A tick that gathers a result first begins with a new animation, which draws. So the phase
  -- before the tick is fading exactly when the stage is.
  have hbefore := h.sound.coherent.phase_eq animates.1
  have hfading : animation.stage = .fading → player.phase = .fading := by
    intro hstage
    rw [← h.eq_of_stage animates.1 hstage, hbefore, hstage]
    rfl
  have hdrawing : animation.stage = .drawing → player.phase ≠ .fading := by
    intro hstage hphase
    rw [h.eq_of_before hphase, hphase, hstage] at hbefore
    cases hbefore
  cases hticked with
  | step hstage hstep =>
    refine .onwards (hleads 0 rfl) (fun hphase => .inr ⟨_, rfl, ?_⟩)
      (fun hphase => absurd hphase (hdrawing hstage))
    by_contra hend
    rw [if_neg hend] at hphase
    cases hphase
  | rest hstage hstep =>
    refine .onwards (hleads 0 rfl) (fun _ => .inr ⟨_, rfl, ?_⟩)
      (fun hphase => absurd hphase (hdrawing hstage))
    exact decide_eq_true (Turtle.size_le_cursor_of_seek_eq_none hstep)
  | fade hstage hopacity =>
    refine .onwards (hleads 0 rfl) (fun _ => .inl (hfading hstage)) (fun _ => ?_)
    simp only [hstage]
    exact Phase.noConfusion
  | restart hstage hopacity =>
    obtain ⟨count, hcourse⟩ := h.sound.course animation animates.1
    exact .restarts (hleads 1 rfl) (hfading hstage) rfl ⟨_, rfl, hcourse.restart, rfl, rfl⟩

theorem Sound.tick [Surface σ α] (h : player.Sound) (surface : σ) :
    (player.tick surface).actor.Sound ∧ player.Turns (player.tick surface).actor := by
  have hcoherent := h.coherent.tick surface
  have hgathers := h.collect
  obtain ⟨counts, hticked⟩ : ∃ counts, Ticked player (player.tick surface).actor counts :=
    ⟨_, ticked_tick player surface⟩
  generalize (player.tick surface).actor = after at hcoherent hticked ⊢
  have hsame : ∀ ticks, player.collect.Leads { player.collect with ticks := ticks } 0 :=
    fun ticks => .of_eq rfl rfl rfl rfl
  cases hticked with
  | hidden hshown => exact ⟨h, (Gathers.refl h).turns (.of_eq rfl rfl rfl rfl) rfl⟩
  | blank hshown idle =>
    exact ⟨⟨hcoherent, hgathers.sound.course⟩, hgathers.turns (hsame _) rfl⟩
  | blankRefused hshown idle => exact ⟨hgathers.sound, hgathers.turns (hsame _) rfl⟩
  | @frame hshown animation animates =>
    have hticked := animation.ticked_next
    obtain ⟨count, hcourse⟩ := hgathers.sound.course animation animates.1
    refine ⟨⟨hcoherent, fun animation' ha => ?_⟩, hgathers.turns_frame animates _ hticked⟩
    cases ha
    obtain ⟨count', hcourse', _⟩ := hcourse.ticked hticked
    exact ⟨count', hcourse'⟩
  | @frameRefused hshown animation call animates made =>
    have hticked := Animation.ticked_leftBy made
    obtain ⟨count, hcourse⟩ := hgathers.sound.course animation animates.1
    refine ⟨⟨hcoherent, fun animation' ha => ?_⟩, hgathers.turns ?_ rfl⟩
    · cases ha
      obtain ⟨count', hcourse', _⟩ := hcourse.ticked hticked
      exact ⟨count', hcourse'⟩
    · refine animates.leads hticked.design ?_ ?_
      · rw [Animation.leftBy_eq, Nat.add_zero]
      · rcases animates.2 with hphase | hphase <;> rw [hphase] <;> exact Phase.noConfusion

variable [Surface σ α]

omit [Scalar α] in
theorem surface_blank (player : Player α) (surface : σ) :
    (player.blank surface).surface =
      (Surface.paint surface (.clear player.config.style.background)).1 := by
  simp only [blank, Surface.perform]
  rcases Surface.paint surface (.clear player.config.style.background) with ⟨painted, e | ⟨⟩⟩
  · rfl
  · rfl

/-- All that a shown player draws after a failure is the background, in one call. -/
theorem IsFailed.surface_tick (h : player.IsFailed) (hshown : player.shown = true)
    (surface : σ) :
    (player.tick surface).surface =
      (Surface.paint surface (.clear player.config.style.background)).1 := by
  obtain ⟨_, _, hpending, hanimation⟩ := h
  have hcollect : player.collect = player := by
    unfold collect
    rw [hpending]
  have idle : ∀ animation, ¬ player.collect.Animates animation := by
    intro animation animates
    rw [hcollect, Animates, hanimation] at animates
    cases animates.1
  rw [tick_of_idle hshown idle, hcollect, surface_blank]

end Player

namespace Session

open Player (Tick)

/-! ### Ticks of a session -/

namespace Action

/-- Whether an action leaves the configuration and the size alone. -/
def isSteady : Action σ α → Bool
  | .configure _ => false
  | .resize _ _ => false
  | _ => true

end Action

variable [Surface σ α]

/-- The ticks that a call of many ticks makes. -/
def playTicks (stop : Player α → Bool) :
    List (List Background) → Session α → σ → List (Tick σ α)
  | [], _, _ => []
  | steps :: rest, session, surface =>
    let before := session.works steps
    let ticked := before.tick surface
    ⟨before.player, surface⟩ ::
      match ticked.result with
      | .error _ => []
      | .ok _ =>
        if stop ticked.actor.player then [] else playTicks stop rest ticked.actor ticked.surface

def ticksOf (session : Session α) : Action σ α → List (Tick σ α)
  | .tick surface => [⟨session.player, surface⟩]
  | .play pauses surface => playTicks (fun _ => false) pauses session surface
  | .playUntil stop pauses surface => playTicks stop pauses session surface
  | _ => []

/-- All ticks of a run, in order. -/
def ticksIn (session : Session α) : List (Action σ α) → List (Tick σ α)
  | [] => []
  | action :: rest => session.ticksOf action ++ (session.act action).ticksIn rest

end Session

namespace Player

variable [Surface σ α] {player after : Player α}

/-- How a player got from one state to another with these ticks on the way. -/
structure Passes (player : Player α) (ticks : List (Tick σ α)) (after : Player α) : Prop where
  sound : after.Sound
  leads : player.Leads after (ticks.countP Tick.restarts)
  ticked : ∀ tick ∈ ticks, tick.player.Sound ∧ tick.player.config = player.config

theorem Leads.passes (h : player.Leads after 0) (hsound : after.Sound) :
    player.Passes ([] : List (Tick σ α)) after :=
  ⟨hsound, h, fun _ hmem => absurd hmem List.not_mem_nil⟩

theorem Gathers.passes (h : player.Gathers after) : player.Passes ([] : List (Tick σ α)) after :=
  h.leads.passes h.sound

theorem Passes.append {first second third : Player α} {ticks ticks' : List (Tick σ α)}
    (h : first.Passes ticks second) (h' : second.Passes ticks' third) :
    first.Passes (ticks ++ ticks') third where
  sound := h'.sound
  leads := by
    rw [List.countP_append]
    exact h.leads.trans h'.leads
  ticked tick hmem := by
    rcases List.mem_append.1 hmem with hmem | hmem
    · exact h.ticked tick hmem
    · obtain ⟨hsound, hconfig⟩ := h'.ticked tick hmem
      exact ⟨hsound, hconfig.trans h.leads.config⟩

theorem Sound.passes_tick (h : player.Sound) (surface : σ) :
    player.Passes [⟨player, surface⟩] (player.tick surface).actor := by
  obtain ⟨hsound, hturns⟩ := h.tick surface
  refine ⟨hsound, ?_, fun tick hmem => ?_⟩
  · cases hturns with
    | onwards leads ends fades =>
      have hnot : Tick.restarts (⟨player, surface⟩ : Tick σ α) = false := by
        simp only [Tick.restarts, Tick.after, Bool.and_eq_false_imp, beq_iff_eq,
          beq_eq_false_iff_ne]
        exact fades
      rwa [List.countP_cons_of_neg (by rw [hnot]; exact Bool.false_ne_true)]
    | restarts leads before begins atStart =>
      have hrestarts : Tick.restarts (⟨player, surface⟩ : Tick σ α) = true := by
        simp only [Tick.restarts, Tick.after, before, begins]
        rfl
      rwa [List.countP_cons_of_pos hrestarts]
  · cases List.mem_singleton.1 hmem
    exact ⟨h, rfl⟩

end Player

namespace Session

open Player (Tick)

variable [Surface σ α] {session : Session α}

theorem passes_work (h : session.player.Sound) (step : Background) :
    session.player.Passes ([] : List (Tick σ α)) (session.work step).player := by
  cases step with
  | current =>
    have hleads : session.player.Leads session.player.stepWorker 0 := .of_eq rfl rfl rfl rfl
    exact hleads.passes ⟨h.coherent.stepWorker, h.course⟩
  | superseded index => exact (Player.Gathers.refl h).passes

theorem passes_works (h : session.player.Sound) (steps : List Background) :
    session.player.Passes ([] : List (Tick σ α)) (session.works steps).player := by
  induction steps generalizing session with
  | nil => exact (Player.Gathers.refl h).passes
  | cons step steps ih =>
    have hstep := passes_work (σ := σ) h step
    exact hstep.append (ih hstep.sound)

theorem passes_playTicks (stop : Player α → Bool) (ran : Nat) (pauses : List (List Background))
    (h : session.player.Sound) (surface : σ) :
    session.player.Passes (playTicks stop pauses session surface)
      (session.playUntilFrom stop ran pauses surface).actor.player := by
  induction pauses generalizing session ran surface with
  | nil => exact (Player.Gathers.refl h).passes
  | cons steps pauses ih =>
    have hworks := passes_works (σ := σ) h steps
    have htick := hworks.append (hworks.sound.passes_tick surface)
    have hsound : ((session.works steps).tick surface).actor.player.Sound := htick.sound
    simp only [playTicks, playUntilFrom]
    cases ((session.works steps).tick surface).result with
    | error e => exact htick
    | ok phase =>
      dsimp only
      split
      · exact htick
      · exact htick.append (ih (ran + 1) hsound _)

theorem passes_act (h : session.player.Sound) {action : Action σ α}
    (steady : action.isSteady = true) :
    session.player.Passes (session.ticksOf action) (session.act action).player := by
  cases action with
  | configure config => cases steady
  | resize width height => cases steady
  | setShown shown =>
    have hleads : session.player.Leads (session.player.setShown shown) 0 :=
      .of_eq rfl rfl rfl rfl
    exact hleads.passes ⟨h.coherent, h.course⟩
  | collect => exact h.collect.passes
  | await => exact h.await.passes
  | tick surface => exact h.passes_tick surface
  | play pauses surface => exact passes_playTicks _ 0 pauses h surface
  | playUntil stop pauses surface => exact passes_playTicks stop 0 pauses h surface
  | work step => exact passes_work h step

theorem passes_run (h : session.player.Sound) {actions : List (Action σ α)}
    (steady : ∀ action ∈ actions, action.isSteady = true) :
    session.player.Passes (session.ticksIn actions) (session.run actions).player := by
  induction actions generalizing session with
  | nil => exact (Player.Gathers.refl h).passes
  | cons action actions ih =>
    obtain ⟨hfirst, hrest⟩ := List.forall_mem_cons.1 steady
    have hact := passes_act h hfirst
    exact hact.append (ih hact.sound hrest)

omit [Surface σ α] in
theorem Configured.sound (configured : session.Configured) :
    session.player.Sound ∧ session.player.cycles = 0 := by
  have hconfigure : ∀ (player : Player α) (config : Config α),
      (player.configure config).Sound ∧ (player.configure config).cycles = 0 := by
    intro player config
    have hnone : (player.configure config).animation = none := by
      cases hr : config.request with
      | error e => rw [Player.configure_of_error hr]
      | ok request => rw [Player.configure_of_ok hr]
    refine ⟨⟨Player.coherent_configure player config, fun animation ha => ?_⟩, ?_⟩
    · rw [hnone] at ha
      cases ha
    · rw [Player.cycles, hnone]
      rfl
  cases configured with
  | new config width height => exact hconfigure _ _
  | configure session config => exact hconfigure _ _
  | resize session width height => exact hconfigure _ _

/-- Between two changes of the configuration a player that is prepared stays so, one that has
failed keeps its error and clears the surface at each tick, and one that plays goes on with the
same script and layout. A tick begins to fade the figure only with the turtle at the end of the
script. A tick begins to draw a fading figure only with everything as at the start, and the cycles
that the animation counts are these ticks. -/
theorem phases_between_changes (configured : session.Configured)
    (actions later : List (Action σ α))
    (steady : ∀ action ∈ actions ++ later, action.isSteady = true) :
    let before := (session.run actions).player
    let after := (session.run (actions ++ later)).player
    let ticks := session.ticksIn (actions ++ later)
    (before.phase ≠ .preparing → after.phase ≠ .preparing) ∧
    (before.phase = .failed → after.phase = .failed ∧ after.error = before.error) ∧
    (before.phase = .drawing ∨ before.phase = .fading →
      (after.phase = .drawing ∨ after.phase = .fading) ∧
      ∃ animation animation', before.animation = some animation ∧
        after.animation = some animation' ∧ animation'.script = animation.script ∧
        animation'.layout = animation.layout) ∧
    (∀ animation, after.animation = some animation →
      animation.cycles = ticks.countP Tick.restarts) ∧
    ∀ tick ∈ ticks,
      (tick.player.phase = .failed → tick.player.shown = true →
        (tick.player.tick tick.surface).surface =
          (Surface.paint tick.surface (.clear session.player.config.style.background)).1) ∧
      (tick.player.phase ≠ .fading → tick.after.phase = .fading → tick.after.AtEnd) ∧
      (tick.player.phase = .fading → tick.after.phase = .drawing → tick.after.AtStart) := by
  intro before after ticks
  obtain ⟨hsound, hzero⟩ := configured.sound
  have hbefore := passes_run hsound fun action hmem => steady action (List.mem_append_left _ hmem)
  have hlater := passes_run hbefore.sound fun action hmem =>
    steady action (List.mem_append_right _ hmem)
  have hall := passes_run hsound steady
  have hafter : ((session.run actions).run later).player = after :=
    congrArg Session.player (List.foldl_append ..).symm
  rw [hafter] at hlater
  refine ⟨hlater.leads.prepared, hlater.leads.failed, ?_, ?_, ?_⟩
  · intro hphase
    obtain ⟨_, _, _, animation, ha, _⟩ := hbefore.sound.coherent.isPlaying_of_phase hphase
    obtain ⟨animation', ha', hdesign⟩ := hlater.leads.figure animation ha
    exact ⟨(hlater.sound.coherent.isPlaying ha').1, animation, animation', ha, ha',
      congrArg Prod.fst hdesign, congrArg (fun design => design.2.1) hdesign⟩
  · intro animation ha
    have hcycles := hall.leads.cycles
    rw [hzero, Nat.zero_add] at hcycles
    rw [← hcycles]
    exact (congrArg (fun shown => (shown.map Animation.cycles).getD 0) ha).symm
  · intro tick hmem
    obtain ⟨htick, hconfig⟩ := hall.ticked tick hmem
    have hturns := (htick.tick tick.surface).2
    refine ⟨?_, ?_, ?_⟩
    · intro hphase hshown
      rw [← hconfig]
      exact (htick.coherent.isFailed_of_phase hphase).surface_tick hshown tick.surface
    · intro hphase hfading
      cases hturns with
      | onwards leads ends fades => exact (ends hfading).resolve_left hphase
      | restarts leads before begins atStart => exact absurd before hphase
    · intro hphase hdrawing
      cases hturns with
      | onwards leads ends fades => exact absurd hdrawing (fades hphase)
      | restarts leads before begins atStart => exact atStart

/-- The figure is waited for, drawn and faded once. -/
theorem phases_between_changes_shortTree :
    let session := new shortTree 300 400
    let actions : List (Action (Recorder Float) Float) := [.tick {}, .await]
    let later : List (Action (Recorder Float) Float) := [.play (List.replicate 22 []) {}]
    session.Configured ∧ (∀ action ∈ actions ++ later, action.isSteady = true) ∧
    (session.ticksIn (actions ++ later)).length = 23 ∧
    (session.run actions).player.phase = .drawing ∧
    ∃ animation, (session.run (actions ++ later)).player.animation = some animation ∧
      animation.cycles = 1 := by
  intro session actions later
  have configured : session.Configured := .new shortTree 300 400
  have steady : ∀ action ∈ actions ++ later, action.isSteady = true := by
    simp [actions, later, Action.isSteady]
  have hphase : (session.run actions).player.phase = .drawing := by decide +kernel
  have hrestarts : (session.ticksIn (actions ++ later)).countP Tick.restarts = 1 := by
    decide +kernel
  obtain ⟨_, _, hplays, hcycles, _⟩ := phases_between_changes configured actions later steady
  obtain ⟨_, _, animation, _, ha, _⟩ := hplays (.inl hphase)
  refine ⟨configured, steady, by decide +kernel, hphase, animation, ha, ?_⟩
  rw [hcycles animation ha, hrestarts]

end Session

end LSystem
