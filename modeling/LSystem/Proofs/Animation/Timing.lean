import LSystem.Proofs.Animation.Cycle
import LSystem.Proofs.Animation.Freshness
import LSystem.Proofs.Animation.Modes

/-!
# Timing

When a run is over, when its result is collected and when the player is shown
makes no difference to the frames but one: how many blank ones come first. From
a change of the configuration to the next the surface is cleared some number of
times, and from then on it is given the frames of a new animation of the figure,
none left out and none twice, however ticks, collecting, waiting, hiding and the
steps of the runs follow each other.
-/

namespace LSystem

variable {α σ : Type}

namespace Session

/-- What can happen between two changes of the configuration. -/
inductive Event
  | tick
  | collect
  | await
  | setShown (shown : Bool)
  | work (step : Background)

namespace Event

def shown (before : Bool) : Event → Bool
  | setShown after => after
  | _ => before

/-- The ticks, none or one, that an event makes while the player is shown. -/
def ticks (shown : Bool) : Event → Nat
  | tick => if shown then 1 else 0
  | _ => 0

def shownTicks : Bool → List Event → Nat
  | _, [] => 0
  | shown, event :: rest => event.ticks shown + shownTicks (event.shown shown) rest

end Event

variable [Scalar α]

/-- The sessions in which a configuration or a size was set last and nothing has happened since. -/
inductive Configured : Session α → Prop
  | new (config : Config α) (width height : Nat) : Configured (.new config width height)
  | configure (session : Session α) (config : Config α) : Configured (session.configure config)
  | resize (session : Session α) (width height : Nat) : Configured (session.resize width height)

def proceed [Surface σ α] (session : Session α) (surface : σ) : Event → Session α × σ
  | .tick => ((session.tick surface).actor, (session.tick surface).surface)
  | .collect => (session.collect, surface)
  | .await => (session.await, surface)
  | .setShown shown => (session.setShown shown, surface)
  | .work step => (session.work step, surface)

def proceedAll [Surface σ α] (session : Session α) (surface : σ) (events : List Event) :
    Session α × σ :=
  events.foldl (fun state event => state.1.proceed state.2 event) (session, surface)

end Session

namespace Player

variable [Scalar α] {player : Player α} {config : Config α} {width height : α}

/-! ### Results -/

/-- An animation can only come from the figure, and where none has been. -/
def Gains (player after : Player α) (config : Config α) (width height : α) : Prop :=
  after.animation = player.animation ∨
    player.animation = none ∧ ∃ figure, config.figure width height = .ok figure ∧
      after.animation = some (.new figure.script figure.layout config.style)

theorem Fresh.gains {after : Player α} (h : player.Fresh config width height)
    (hmode : player.Coherent)
    (hafter : after = player ∨ (∃ worker, player.pending = some worker) ∧ after =
      { player with pending := none }.accept player.version (config.figure width height)) :
    player.Gains after config width height := by
  rcases hafter with rfl | ⟨⟨worker, hw⟩, rfl⟩
  · exact .inl rfl
  · have hnone : player.animation = none := (hmode.isPreparing hw).1.2.2.1
    cases hfigure : config.figure width height with
    | error e =>
      have heq := accept_error { player with pending := none } e
      rw [Gains, heq]
      exact .inl hnone.symm
    | ok figure =>
      have heq := accept_ok { player with pending := none } figure
      rw [Gains, heq]
      refine .inr ⟨hnone, figure, hfigure, ?_⟩
      rw [← h.config_eq]

/-! ### What is shown -/

variable [Surface σ α] {surface start : σ} {blanks frames : Nat}

/-- A player has cleared a surface `blanks` times since it was `start`, and has then shown so many
frames of a new animation of its figure. -/
structure Shows (player : Player α) (surface start : σ) (config : Config α) (width height : α)
    (blanks frames : Nat) : Prop where
  fresh : player.Fresh config width height
  coherent : player.Coherent
  accepts : Surface.Accepts surface
  shown :
    let blanked := Surface.given start (List.replicate blanks (.clear config.style.background))
    player.animation = none ∧ frames = 0 ∧ surface = blanked ∨
      ∃ figure, config.figure width height = .ok figure ∧
        let screening :=
          (Animation.new figure.script figure.layout config.style).play blanked frames
        player.animation = some screening.animation ∧ surface = screening.surface

theorem Shows.of_gains {after : Player α}
    (h : player.Shows surface start config width height blanks frames)
    (hfresh : after.Fresh config width height) (hmode : after.Coherent)
    (hgains : player.Gains after config width height) :
    after.Shows surface start config width height blanks frames := by
  refine ⟨hfresh, hmode, h.accepts, ?_⟩
  intro blanked
  rcases hgains with hsame | ⟨hnone, figure, hfigure, hnew⟩
  · rw [hsame]
    exact h.shown
  · rcases h.shown with ⟨_, rfl, hsurface⟩ | ⟨_, _, hsome, _⟩
    · exact .inr ⟨figure, hfigure, hnew, hsurface⟩
    · rw [hnone] at hsome
      cases hsome

theorem Shows.collect (h : player.Shows surface start config width height blanks frames) :
    player.collect.Shows surface start config width height blanks frames :=
  h.of_gains h.fresh.collect h.coherent.collect (h.fresh.gains h.coherent h.fresh.collect_eq)

theorem Shows.await (h : player.Shows surface start config width height blanks frames) :
    player.await.Shows surface start config width height blanks frames :=
  h.of_gains h.fresh.await h.coherent.await (h.fresh.gains h.coherent h.fresh.await_eq)

theorem Shows.stepWorker (h : player.Shows surface start config width height blanks frames) :
    player.stepWorker.Shows surface start config width height blanks frames :=
  h.of_gains h.fresh.stepWorker h.coherent.stepWorker (.inl rfl)

theorem Shows.setShown (h : player.Shows surface start config width height blanks frames)
    (shown : Bool) :
    (player.setShown shown).Shows surface start config width height blanks frames :=
  ⟨⟨h.fresh.config_eq, h.fresh.width_eq, h.fresh.height_eq, h.fresh.latest_eq, h.fresh.promised,
    h.fresh.shown, h.fresh.failed⟩, h.coherent, h.accepts, h.shown⟩

theorem shows_configure (player : Player α) (config : Config α) (h : Surface.Accepts start) :
    (player.configure config).Shows start start config player.width player.height 0 0 := by
  refine ⟨fresh_configure player config, coherent_configure player config, h, .inl ⟨?_, rfl, rfl⟩⟩
  cases hr : config.request with
  | error e => rw [configure_of_error hr]
  | ok request => rw [configure_of_ok hr]

/-! ### Ticks -/

omit [Scalar α] in
theorem blank_of_accepts (player : Player α) (h : Surface.Accepts surface) :
    player.blank surface =
      ⟨Surface.given surface [.clear player.config.style.background],
        { player with ticks := player.ticks + 1 }, .ok player.phase⟩ :=
  Surface.perform_of_accepts h ..

theorem animate_of_accepts (player : Player α) (animation : Animation α)
    (h : Surface.Accepts surface) :
    (player.animate animation surface).surface = Surface.given surface animation.made ∧
      (player.animate animation surface).actor.animation = some animation.scene.next := by
  simp only [animate, animation.tick_of_accepts h, and_self]

omit [Scalar α] in
theorem Coherent.animates {animation : Animation α} (h : player.Coherent)
    (ha : player.animation = some animation) : player.Animates animation :=
  ⟨ha, (h.isPlaying ha).1⟩

/-- A tick of a shown player shows one more blank frame or one more frame of the animation. -/
theorem Shows.tick (h : player.Shows surface start config width height blanks frames)
    (hshown : player.shown = true) :
    ∃ blanks' frames', blanks' + frames' = blanks + frames + 1 ∧
      (player.tick surface).actor.Shows (player.tick surface).surface start config width height
        blanks' frames' := by
  have hfresh := h.fresh.tick surface
  have hmode := h.coherent.tick surface
  have hcollect := h.collect
  rcases hcollect.shown with ⟨hnone, hframes, hsurface⟩ | ⟨figure, hfigure, hsome, hsurface⟩
  · have idle : ∀ animation, ¬ player.collect.Animates animation := by
      intro animation animates
      rw [animates.1] at hnone
      cases hnone
    rw [tick_of_idle hshown idle surface, blank_of_accepts _ h.accepts,
      hcollect.fresh.config_eq] at hfresh hmode ⊢
    refine ⟨blanks + 1, frames, by omega, hfresh, hmode, h.accepts.given _, .inl
      ⟨hnone, hframes, ?_⟩⟩
    rw [List.replicate_succ', Surface.given_append, ← hsurface]
  · rw [tick_of_animates hshown (hcollect.coherent.animates hsome) surface] at hfresh hmode ⊢
    have hanimated := fun animation => animate_of_accepts player.collect animation h.accepts
    rw [(hanimated _).1]
    refine ⟨blanks, frames + 1, by omega, hfresh, hmode, h.accepts.given _, .inr
      ⟨figure, hfigure, ?_, ?_⟩⟩
    · rw [(hanimated _).2, Animation.play, ← hsurface, Animation.tick_of_accepts _ h.accepts]
    · rw [Animation.play, ← hsurface, Animation.tick_of_accepts _ h.accepts]

end Player

namespace Session

variable [Scalar α] [Surface σ α]

/-! ### Events -/

theorem shown_proceed (session : Session α) (surface : σ) (event : Event) :
    (session.proceed surface event).1.player.shown = event.shown session.player.shown := by
  have hshown : ∀ after : Player α, after.settings = session.player.settings →
      after.shown = session.player.shown :=
    fun after h => (Player.settings_eq_iff.1 h).2.2.2.2.2
  cases event with
  | tick => exact hshown _ (Player.settings_tick _ surface)
  | collect => exact hshown _ (Player.settings_collect _)
  | await => exact hshown _ (Player.settings_await _)
  | setShown shown => rfl
  | work step =>
    cases step with
    | current => rfl
    | superseded index => rfl

theorem proceed_tick_of_hidden {session : Session α} (h : session.player.shown = false)
    (surface : σ) : session.proceed surface .tick = (session, surface) := by
  simp only [proceed, tick, Player.tick_of_hidden h, h, Bool.false_and, Bool.false_eq_true,
    if_false]

variable {start surface : σ} {config : Config α} {width height : α}

theorem exists_shows_proceed {session : Session α} {blanks frames : Nat}
    (h : session.player.Shows surface start config width height blanks frames) (event : Event) :
    ∃ blanks' frames', blanks' + frames' = blanks + frames + event.ticks session.player.shown ∧
      (session.proceed surface event).1.player.Shows (session.proceed surface event).2 start
        config width height blanks' frames' := by
  cases event with
  | tick =>
    cases hshown : session.player.shown with
    | false =>
      rw [proceed_tick_of_hidden hshown]
      exact ⟨blanks, frames, rfl, h⟩
    | true => exact h.tick hshown
  | collect => exact ⟨blanks, frames, rfl, h.collect⟩
  | await => exact ⟨blanks, frames, rfl, h.await⟩
  | setShown shown => exact ⟨blanks, frames, rfl, h.setShown shown⟩
  | work step =>
    cases step with
    | current => exact ⟨blanks, frames, rfl, h.stepWorker⟩
    | superseded index => exact ⟨blanks, frames, rfl, h⟩

theorem exists_shows_proceedAll {session : Session α} {blanks frames : Nat}
    (h : session.player.Shows surface start config width height blanks frames)
    (events : List Event) :
    ∃ blanks' frames', blanks' + frames' =
        blanks + frames + Event.shownTicks session.player.shown events ∧
      (session.proceedAll surface events).1.player.Shows (session.proceedAll surface events).2
        start config width height blanks' frames' := by
  induction events generalizing session surface blanks frames with
  | nil => exact ⟨blanks, frames, rfl, h⟩
  | cons event events ih =>
    obtain ⟨blanks₁, frames₁, hcount₁, hshows₁⟩ := exists_shows_proceed h event
    obtain ⟨blanks₂, frames₂, hcount₂, hshows₂⟩ := ih hshows₁
    rw [shown_proceed] at hcount₂
    refine ⟨blanks₂, frames₂, ?_, hshows₂⟩
    rw [hcount₂, hcount₁, Event.shownTicks, Nat.add_assoc]

theorem proceedAll_hidden (session : Session α) (surface : σ) (count : Nat) :
    session.proceedAll surface (.setShown false :: List.replicate count .tick ++ [.setShown true]) =
      (session.setShown true, surface) := by
  have hticks : (session.setShown false).proceedAll surface (List.replicate count .tick) =
      (session.setShown false, surface) := by
    induction count with
    | zero => rfl
    | succ count ih =>
      rw [List.replicate_succ, proceedAll, List.foldl_cons, proceed_tick_of_hidden rfl]
      exact ih
  rw [proceedAll, List.foldl_append, List.foldl_cons]
  exact congrArg (fun state => (state.1.setShown true, state.2)) hticks

/-- From a change of the configuration on, whatever happens in between, the surface is given a
number of blank frames and then the first frames of a new animation of the figure, as many of both
as there are ticks of the shown player, and only blank ones where there is no figure. The animation
is then the one after these frames. Ticks of a hidden player leave everything as it was. -/
theorem frames_independent_of_timing {session : Session α} (configured : session.Configured)
    (surface : σ) (accepts : Surface.Accepts surface) (events : List Event) :
    let after := session.proceedAll surface events
    let figure := session.player.config.figure session.player.width session.player.height
    let style := session.player.config.style
    (∃ blanks frames,
      blanks + frames = Event.shownTicks session.player.shown events ∧
      (∀ e, figure = .error e → frames = 0) ∧
      let blanked := Surface.given surface (List.replicate blanks (.clear style.background))
      (after.1.player.animation = none ∧ frames = 0 ∧ after.2 = blanked ∨
        ∃ newest, figure = .ok newest ∧
          let screening := (Animation.new newest.script newest.layout style).play blanked frames
          after.1.player.animation = some screening.animation ∧
            after.2 = screening.surface)) ∧
    ∀ count, after.1.proceedAll after.2
        (.setShown false :: List.replicate count .tick ++ [.setShown true]) =
      (after.1.setShown true, after.2) := by
  intro after figure style
  obtain ⟨player, config, hplayer⟩ : ∃ (player : Player α) (config : Config α),
      session.player = player.configure config := by
    cases configured with
    | new config width height => exact ⟨_, config, rfl⟩
    | configure session config => exact ⟨session.player, config, rfl⟩
    | resize session width height => exact ⟨_, session.player.config, rfl⟩
  have hstart := Player.shows_configure player config accepts
  have hconfig := hstart.fresh.config_eq
  have hwidth := hstart.fresh.width_eq
  have hheight := hstart.fresh.height_eq
  rw [← hplayer] at hstart hconfig hwidth hheight
  obtain ⟨blanks, frames, hcount, hshows⟩ := exists_shows_proceedAll hstart events
  have hfigure : figure = config.figure player.width player.height := by
    simp only [figure, hconfig, hwidth, hheight]
  have hstyle : style = config.style := by simp only [style, hconfig]
  refine ⟨⟨blanks, frames, by omega, ?_, ?_⟩, proceedAll_hidden after.1 after.2⟩
  · intro e he
    rcases hshows.shown with ⟨_, hframes, _⟩ | ⟨newest, hnewest, _⟩
    · exact hframes
    · rw [hfigure, hnewest] at he
      cases he
  · rw [hfigure, hstyle]
    exact hshows.shown

def shortTree : Config Float := { Config.ofGrammar "tree" with iterations := some 1 }

/-- The run ends while the player waits for it, and the player is hidden for one tick. -/
def hiddenOnce : List Event :=
  [.tick, .work .current, .await, .tick, .setShown false, .tick, .collect, .setShown true, .tick]

theorem frames_independent_of_timing_shortTree :
    let session := new shortTree 300 400
    let after := session.proceedAll ({} : Recorder Float) hiddenOnce
    session.Configured ∧ Surface.Accepts ({} : Recorder Float) ∧
    (∃ blanks frames newest, blanks + frames = 3 ∧
      session.player.config.figure session.player.width session.player.height = .ok newest ∧
      let blanked := Surface.given ({} : Recorder Float)
        (List.replicate blanks (.clear session.player.config.style.background))
      after.2 = ((Animation.new newest.script newest.layout session.player.config.style).play
        blanked frames).surface) ∧
    after.2.calls.toList.map PaintCall.sort =
      ["clear", "clear", "line", "clear", "path", "line"] := by
  intro session after
  have configured : session.Configured := .new shortTree 300 400
  have accepts : Surface.Accepts ({} : Recorder Float) := Recorder.accepts #[]
  obtain ⟨⟨blanks, frames, hcount, _, hshown⟩, _⟩ :=
    frames_independent_of_timing configured ({} : Recorder Float) accepts hiddenOnce
  have hsome : after.1.player.animation.isSome = true := by decide +kernel
  refine ⟨configured, accepts, ?_, by decide +kernel⟩
  rcases hshown with ⟨hnone, _⟩ | ⟨newest, hnewest, _, hsurface⟩
  · rw [hnone] at hsome
    cases hsome
  · exact ⟨blanks, frames, newest, hcount, hnewest, hsurface⟩

end Session

end LSystem
