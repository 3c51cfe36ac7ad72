import LSystem.Proofs.Animation.Session
import LSystem.Proofs.Config.Failure

/-!
# Freshness

Whatever a player shows belongs to the configuration and the size asked for
last. Runs may go on after they were superseded and end in any order: the
player waits only for a run of the present version, such a run is never given
up while that version is the newest, and so it delivers the figure of the
present configuration or the error in its place.
-/

namespace LSystem

variable {α σ : Type}

namespace Player

variable [Scalar α]

/-- Everything in a player comes from the configuration and the size it is for. -/
structure Fresh (player : Player α) (config : Config α) (width height : α) : Prop where
  config_eq : player.config = config
  width_eq : player.width = width
  height_eq : player.height = height
  latest_eq : player.latest = player.version
  promised : ∀ worker, player.pending = some worker → worker.version = player.version ∧
    worker.Promises (config.figure width height)
  shown : ∀ animation, player.animation = some animation → ∃ figure,
    config.figure width height = .ok figure ∧
      animation.design = (figure.script, figure.layout, config.style)
  failed : ∀ e, player.error = some e → config.figure width height = .error e

variable {player : Player α} {config : Config α} {width height : α}

theorem fresh_configure (player : Player α) (config : Config α) :
    (player.configure config).Fresh config player.width player.height := by
  cases hr : config.request with
  | error e =>
    rw [configure_of_error hr]
    refine ⟨rfl, rfl, rfl, rfl, ?_, ?_, ?_⟩
    · intro worker hw
      cases hw
    · intro animation ha
      cases ha
    · intro e' he
      cases he
      exact Config.figure_of_error hr _ _
  | ok request =>
    rw [configure_of_ok hr]
    refine ⟨rfl, rfl, rfl, rfl, ?_, ?_, ?_⟩
    · intro worker hw
      cases hw
      rw [Config.figure_of_ok hr]
      exact ⟨rfl, Worker.promises_start request _ _⟩
    · intro animation ha
      cases ha
    · intro e' he
      cases he

theorem Fresh.accept (h : player.Fresh config width height) :
    ({ player with pending := none }.accept player.version (config.figure width height)).Fresh
      config width height := by
  have hnone : ∀ worker : Worker α, (none : Option (Worker α)) = some worker →
      worker.version = player.version ∧ worker.Promises (config.figure width height) := by
    intro worker hw
    cases hw
  cases hfigure : config.figure width height with
  | error e =>
    have heq := accept_error { player with pending := none } e
    rw [heq]
    rw [hfigure] at hnone
    refine ⟨h.config_eq, h.width_eq, h.height_eq, h.latest_eq, ?_, ?_, ?_⟩
    · rw [hfigure]
      exact hnone
    · intro animation ha
      cases ha
    · intro e' he
      cases he
      exact hfigure
  | ok figure =>
    have heq := accept_ok { player with pending := none } figure
    rw [heq]
    refine ⟨h.config_eq, h.width_eq, h.height_eq, h.latest_eq, hnone, ?_, h.failed⟩
    intro animation ha
    cases ha
    refine ⟨figure, hfigure, ?_⟩
    rw [← h.config_eq]
    rfl

theorem Fresh.collect_eq (h : player.Fresh config width height) :
    player.collect = player ∨
      (∃ worker, player.pending = some worker) ∧ player.collect =
        { player with pending := none }.accept player.version (config.figure width height) := by
  rcases collect_cases player with heq | ⟨worker, result, hw, hresult, heq⟩
  · exact .inl heq
  · obtain ⟨hversion, hpromises⟩ := h.promised worker hw
    rw [hversion, hpromises.receive hresult] at heq
    exact .inr ⟨⟨worker, hw⟩, heq⟩

theorem Fresh.await_eq (h : player.Fresh config width height) :
    player.await = player ∨
      (∃ worker, player.pending = some worker) ∧ player.await =
        { player with pending := none }.accept player.version (config.figure width height) := by
  rcases await_cases player with ⟨_, heq⟩ | ⟨worker, hw, heq⟩
  · exact .inl heq
  · obtain ⟨hversion, hpromises⟩ := h.promised worker hw
    have hwait : (worker.wait player.latest).1 = config.figure width height := by
      rw [h.latest_eq, ← hversion]
      exact hpromises.wait
    rw [hversion, hwait] at heq
    exact .inr ⟨⟨worker, hw⟩, heq⟩

theorem Fresh.collect (h : player.Fresh config width height) :
    player.collect.Fresh config width height := by
  rcases h.collect_eq with heq | ⟨_, heq⟩
  · rw [heq]
    exact h
  · rw [heq]
    exact h.accept

theorem Fresh.await (h : player.Fresh config width height) :
    player.await.Fresh config width height := by
  rcases h.await_eq with heq | ⟨_, heq⟩
  · rw [heq]
    exact h
  · rw [heq]
    exact h.accept

theorem Fresh.stepWorker (h : player.Fresh config width height) :
    player.stepWorker.Fresh config width height := by
  refine ⟨h.config_eq, h.width_eq, h.height_eq, h.latest_eq, ?_, h.shown, h.failed⟩
  intro worker hw
  obtain ⟨before, hbefore, rfl⟩ := Option.map_eq_some_iff.1 hw
  obtain ⟨hversion, hpromises⟩ := h.promised before hbefore
  refine ⟨(before.version_step _).trans hversion, ?_⟩
  rw [h.latest_eq, ← hversion]
  exact hpromises.step

theorem Fresh.animation {phase : Phase} {ticks : Nat} {before after : Animation α}
    (h : player.Fresh config width height) (ha : player.animation = some before)
    (hdesign : after.design = before.design) :
    ({ player with animation := some after, phase := phase, ticks := ticks } : Player α).Fresh
      config width height := by
  refine ⟨h.config_eq, h.width_eq, h.height_eq, h.latest_eq, h.promised, ?_, h.failed⟩
  intro animation heq
  cases heq
  obtain ⟨figure, hfigure, hbefore⟩ := h.shown before ha
  exact ⟨figure, hfigure, hdesign.trans hbefore⟩

theorem Fresh.tick [Surface σ α] (h : player.Fresh config width height) (surface : σ) :
    (player.tick surface).actor.Fresh config width height := by
  have hcollect := h.collect
  obtain ⟨counts, hticked⟩ : ∃ counts, Ticked player (player.tick surface).actor counts :=
    ⟨_, ticked_tick player surface⟩
  generalize (player.tick surface).actor = after at hticked ⊢
  cases hticked with
  | hidden hshown => exact h
  | blank hshown idle =>
    exact ⟨hcollect.config_eq, hcollect.width_eq, hcollect.height_eq, hcollect.latest_eq,
      hcollect.promised, hcollect.shown, hcollect.failed⟩
  | blankRefused hshown idle => exact hcollect
  | @frame hshown animation animates => exact hcollect.animation animates.1 animation.design_next
  | @frameRefused hshown animation call animates made =>
    exact hcollect.animation animates.1 (animation.design_leftBy call)

/-! ### Waiting for a configuration -/

def settle (player : Player α) (config : Config α) : Player α :=
  match config.figure player.width player.height with
  | .ok figure =>
    { player with
      config
      version := player.version + 1
      latest := player.version + 1
      pending := none
      animation := some (.new figure.script figure.layout config.style)
      error := none
      phase := .drawing }
  | .error e =>
    { player with
      config
      version := player.version + 1
      latest := player.version + 1
      pending := none
      animation := none
      error := some e
      phase := .failed }

/-- However far the run has come, waiting for it settles the player. -/
theorem await_configure (player : Player α) (config : Config α) (count : Nat) :
    ({ player.configure config with
        pending := (player.configure config).pending.map
          (Worker.step (player.configure config).latest)^[count] } : Player α).await =
      player.settle config := by
  cases hr : config.request with
  | error e =>
    rw [configure_of_error hr]
    simp only [settle, Config.figure_of_error hr, Option.map_none, await]
  | ok request =>
    have hstart := Worker.promises_start request
      (config.viewport player.width player.height) (player.version + 1)
    obtain ⟨hpromises, hversion⟩ := hstart.iterate_step count
    have hwait := hpromises.wait
    rw [hversion] at hwait
    have hstarted : (Worker.start request (config.viewport player.width player.height)
        (player.version + 1)).version = player.version + 1 := rfl
    rw [hstarted] at hversion hwait
    rw [configure_of_ok hr]
    simp only [settle, Config.figure_of_ok hr, Option.map_some, await, hversion, hwait]
    cases request.figure (config.viewport player.width player.height) with
    | error e => simp only [accept, if_true, fail]
    | ok figure => simp only [accept, if_true]

theorem settle_eq_await_new {player : Player α} {width height : Nat}
    (hwidth : player.width = Scalar.ofInt width) (hheight : player.height = Scalar.ofInt height)
    (config : Config α) :
    player.settle config =
      { (Player.new config width height).await with
        version := player.version + 1
        latest := player.version + 1
        shown := player.shown
        ticks := player.ticks } := by
  have hnew := await_configure
    { config
      width := Scalar.ofInt width
      height := Scalar.ofInt height
      phase := .preparing
      version := 0
      latest := 0
      pending := none
      animation := none
      error := none
      shown := true
      ticks := 0 } config 0
  rw [Function.iterate_zero, Option.map_id] at hnew
  have hawait : (Player.new config width height).await = _ := hnew
  rw [hawait]
  simp only [settle, hwidth, hheight]
  cases config.figure (Scalar.ofInt width) (Scalar.ofInt height) with
  | error e => rfl
  | ok figure => rfl

end Player

namespace Session

variable [Scalar α]

def Fresh (session : Session α) : Prop :=
  session.player.Fresh session.config (Scalar.ofInt session.width) (Scalar.ofInt session.height)

theorem fresh_new (config : Config α) (width height : Nat) : (new config width height).Fresh :=
  Player.fresh_configure _ config

theorem fresh_stable (σ : Type) [Surface σ α] : Stable σ (Fresh (α := α)) where
  configure session config h := by
    have hfresh := Player.fresh_configure session.player config
    rw [h.width_eq, h.height_eq] at hfresh
    exact hfresh
  resize session width height h := by
    have hfresh := Player.fresh_configure
      { session.player with width := Scalar.ofInt width, height := Scalar.ofInt height }
      session.player.config
    have hconfig : session.player.config = session.config := h.config_eq
    show (Player.configure _ session.player.config).Fresh session.config _ _
    rw [hconfig] at hfresh ⊢
    exact hfresh
  setShown session shown h :=
    ⟨h.config_eq, h.width_eq, h.height_eq, h.latest_eq, h.promised, h.shown, h.failed⟩
  collect session h := Player.Fresh.collect h
  await session h := Player.Fresh.await h
  tick session surface h := Player.Fresh.tick h surface
  work session step h := by
    cases step with
    | current => exact Player.Fresh.stepWorker h
    | superseded index => exact h

omit [Scalar α] in
theorem exists_player_works (session : Session α) (steps : List Background) :
    ∃ count, (session.works steps).player =
      { session.player with
        pending := session.player.pending.map (Worker.step session.player.latest)^[count] } := by
  induction steps generalizing session with
  | nil =>
    refine ⟨0, ?_⟩
    rw [Function.iterate_zero, Option.map_id]
    rfl
  | cons step steps ih =>
    obtain ⟨count, hcount⟩ := ih (session.work step)
    cases step with
    | current =>
      refine ⟨count + 1, hcount.trans ?_⟩
      simp only [work, Player.stepWorker, Option.map_map, Function.iterate_succ]
    | superseded index => exact ⟨count, hcount⟩

theorem await_works_configure (player : Player α) (config : Config α) (session : Session α)
    (steps : List Background) (h : session.player = player.configure config) :
    (session.works steps).await.player = player.settle config := by
  obtain ⟨count, hcount⟩ := exists_player_works session steps
  rw [h] at hcount
  simp only [await, hcount]
  exact player.await_configure config count

/-- Nothing stale is ever shown. After any actions and any steps of the runs, an animation is that
of the figure of the configuration and the size asked for last, and an error is the one in the
place of this figure, never that a run has ended without a result. A player that is configured or
resized and then waits, whatever the runs do meanwhile, is a new player that has waited, up to its
version, its visibility and its ticks. -/
theorem newest_figure_shown [Surface σ α] (config : Config α) (width height : Nat)
    (actions : List (Action σ α)) :
    let session := (new config width height).run actions
    let player := session.player
    let figure := session.config.figure (Scalar.ofInt session.width) (Scalar.ofInt session.height)
    (∀ animation, player.animation = some animation → ∃ newest, figure = .ok newest ∧
      animation.script = newest.script ∧ animation.layout = newest.layout ∧
      animation.style = session.config.style) ∧
    (∀ e, player.error = some e → figure = .error e ∧ e ≠ .noResult) ∧
    (∀ config steps, ((session.configure config).works steps).await.player =
      { (Player.new config session.width session.height).await with
        version := player.version + 1
        latest := player.version + 1
        shown := player.shown
        ticks := player.ticks }) ∧
    (∀ width height steps, ((session.resize width height).works steps).await.player =
      { (Player.new session.config width height).await with
        version := player.version + 1
        latest := player.version + 1
        shown := player.shown
        ticks := player.ticks }) := by
  intro session player figure
  have h : session.Fresh := (fresh_stable σ).run (fresh_new config width height) actions
  refine ⟨?_, ?_, ?_, ?_⟩
  · intro animation ha
    obtain ⟨newest, hnewest, hdesign⟩ := h.shown animation ha
    simp only [Animation.design, Prod.mk.injEq] at hdesign
    exact ⟨newest, hnewest, hdesign⟩
  · intro e he
    have hfigure := h.failed e he
    refine ⟨hfigure, ?_⟩
    rintro rfl
    cases Config.figure_fails _ _ _ _ hfigure
  · intro config steps
    rw [await_works_configure player config (session.configure config) steps rfl]
    exact Player.settle_eq_await_new h.width_eq h.height_eq config
  · intro width height steps
    have hconfig : player.config = session.config := h.config_eq
    rw [await_works_configure
      { player with width := Scalar.ofInt width, height := Scalar.ofInt height } player.config
      (session.resize width height) steps rfl, hconfig]
    exact Player.settle_eq_await_new rfl rfl session.config

end Session

end LSystem
