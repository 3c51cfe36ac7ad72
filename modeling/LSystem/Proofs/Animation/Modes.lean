import LSystem.Proofs.Animation.Session

/-!
# Modes of a player

Phase, version, run, animation and error of a player always tell one story: it
prepares, it plays, or it has failed. The phase is a copy of the animation's
stage that only a complete frame writes; it never goes wrong because a refused
tick leaves the stage as it was.
-/

namespace LSystem

variable {α σ : Type}

namespace Player

def IsPreparing (player : Player α) : Prop :=
  player.phase = .preparing ∧
    (∃ worker, player.pending = some worker ∧ worker.version = player.version) ∧
    player.animation = none ∧ player.error = none

def IsPlaying (player : Player α) : Prop :=
  (player.phase = .drawing ∨ player.phase = .fading) ∧ player.pending = none ∧
    player.error = none ∧
    ∃ animation, player.animation = some animation ∧ player.phase = animation.stage.phase

def IsFailed (player : Player α) : Prop :=
  player.phase = .failed ∧ (∃ e, player.error = some e) ∧ player.pending = none ∧
    player.animation = none

def Coherent (player : Player α) : Prop :=
  player.IsPreparing ∨ player.IsPlaying ∨ player.IsFailed

theorem not_isPlaying_of_isPreparing {player : Player α} (h : player.IsPreparing) :
    ¬ player.IsPlaying := by
  intro hplaying
  have hphase := hplaying.1
  rw [h.1] at hphase
  rcases hphase with hphase | hphase <;> cases hphase

theorem not_isFailed_of_isPreparing {player : Player α} (h : player.IsPreparing) :
    ¬ player.IsFailed := by
  intro hfailed
  have hphase := hfailed.1
  rw [h.1] at hphase
  cases hphase

theorem not_isFailed_of_isPlaying {player : Player α} (h : player.IsPlaying) :
    ¬ player.IsFailed := by
  intro hfailed
  have hphase := h.1
  rw [hfailed.1] at hphase
  rcases hphase with hphase | hphase <;> cases hphase

theorem Coherent.exactly_one {player : Player α} (h : player.Coherent) :
    (player.IsPreparing ∧ ¬ player.IsPlaying ∧ ¬ player.IsFailed) ∨
      (¬ player.IsPreparing ∧ player.IsPlaying ∧ ¬ player.IsFailed) ∨
      (¬ player.IsPreparing ∧ ¬ player.IsPlaying ∧ player.IsFailed) := by
  rcases h with h | h | h
  · exact .inl ⟨h, not_isPlaying_of_isPreparing h, not_isFailed_of_isPreparing h⟩
  · exact .inr (.inl ⟨fun h' => not_isPlaying_of_isPreparing h' h, h, not_isFailed_of_isPlaying h⟩)
  · exact .inr (.inr ⟨fun h' => not_isFailed_of_isPreparing h' h,
      fun h' => not_isFailed_of_isPlaying h' h, h⟩)

/-- Only a preparing player has a run. -/
theorem Coherent.isPreparing {player : Player α} {worker : Worker α} (h : player.Coherent)
    (hw : player.pending = some worker) :
    player.IsPreparing ∧ worker.version = player.version := by
  have hne : player.pending ≠ none := by
    rw [hw]
    exact Option.some_ne_none worker
  rcases h with h | h | h
  · obtain ⟨other, hother, hversion⟩ := h.2.1
    rw [hw] at hother
    cases hother
    exact ⟨h, hversion⟩
  · exact absurd h.2.1 hne
  · exact absurd h.2.2.1 hne

/-- Only a playing player has an animation. -/
theorem Coherent.isPlaying {player : Player α} {animation : Animation α} (h : player.Coherent)
    (ha : player.animation = some animation) : player.IsPlaying := by
  have hne : player.animation ≠ none := by
    rw [ha]
    exact Option.some_ne_none animation
  rcases h with h | h | h
  · exact absurd h.2.2.1 hne
  · exact h
  · exact absurd h.2.2.2 hne

theorem Coherent.phase_eq {player : Player α} {animation : Animation α} (h : player.Coherent)
    (ha : player.animation = some animation) : player.phase = animation.stage.phase := by
  obtain ⟨other, hother, hphase⟩ := (h.isPlaying ha).2.2.2
  rw [ha] at hother
  cases hother
  exact hphase

variable [Scalar α]

/-! ### The calls keep the mode coherent -/

theorem coherent_configure (player : Player α) (config : Config α) :
    (player.configure config).Coherent := by
  cases hr : config.request with
  | error e =>
    rw [configure_of_error hr]
    exact .inr (.inr ⟨rfl, ⟨e, rfl⟩, rfl, rfl⟩)
  | ok request =>
    rw [configure_of_ok hr]
    exact .inl ⟨rfl, ⟨_, rfl, rfl⟩, rfl, rfl⟩

theorem IsPreparing.accept {player : Player α} (h : player.IsPreparing)
    (result : Except Error (Figure α)) :
    ({ player with pending := none }.accept player.version result).Coherent := by
  obtain ⟨_, _, hanimation, herror⟩ := h
  cases result with
  | error e =>
    have heq := accept_error { player with pending := none } e
    rw [heq]
    exact .inr (.inr ⟨rfl, ⟨e, rfl⟩, rfl, rfl⟩)
  | ok figure =>
    have heq := accept_ok { player with pending := none } figure
    rw [heq]
    exact .inr (.inl ⟨.inl rfl, rfl, herror, _, rfl, rfl⟩)

theorem Coherent.collect {player : Player α} (h : player.Coherent) : player.collect.Coherent := by
  rcases collect_cases player with heq | ⟨worker, result, hw, _, heq⟩
  · rw [heq]
    exact h
  · obtain ⟨hpreparing, hversion⟩ := h.isPreparing hw
    rw [heq, hversion]
    exact hpreparing.accept result

theorem Coherent.await {player : Player α} (h : player.Coherent) : player.await.Coherent := by
  rcases await_cases player with ⟨_, heq⟩ | ⟨worker, hw, heq⟩
  · rw [heq]
    exact h
  · obtain ⟨hpreparing, hversion⟩ := h.isPreparing hw
    rw [heq, hversion]
    exact hpreparing.accept _

omit [Scalar α] in
theorem Coherent.stepWorker {player : Player α} (h : player.Coherent) :
    player.stepWorker.Coherent := by
  rcases h with ⟨hphase, ⟨worker, hw, hversion⟩, hrest⟩ | ⟨hphase, hpending, hrest⟩ | h
  · refine .inl ⟨hphase, ⟨worker.step player.latest, ?_, ?_⟩, hrest⟩
    · simp only [Player.stepWorker, hw, Option.map_some]
    · exact (worker.version_step player.latest).trans hversion
  · refine .inr (.inl ⟨hphase, ?_, hrest⟩)
    simp only [Player.stepWorker, hpending, Option.map_none]
  · obtain ⟨hphase, herror, hpending, hanimation⟩ := h
    refine .inr (.inr ⟨hphase, herror, ?_, hanimation⟩)
    simp only [Player.stepWorker, hpending, Option.map_none]

theorem Coherent.tick [Surface σ α] {player : Player α} (h : player.Coherent) (surface : σ) :
    (player.tick surface).actor.Coherent := by
  have hcollect := h.collect
  obtain ⟨counts, hticked⟩ : ∃ counts, Ticked player (player.tick surface).actor counts :=
    ⟨_, ticked_tick player surface⟩
  generalize (player.tick surface).actor = after at hticked ⊢
  cases hticked with
  | hidden hshown => exact h
  | blank hshown idle => exact hcollect
  | blankRefused hshown idle => exact hcollect
  | @frame hshown animation animates =>
    obtain ⟨_, hpending, herror, _⟩ := hcollect.isPlaying animates.1
    refine .inr (.inl ⟨?_, hpending, herror, animation.scene.next, rfl, rfl⟩)
    show animation.scene.next.stage.phase = .drawing ∨ animation.scene.next.stage.phase = .fading
    cases animation.scene.next.stage with
    | drawing => exact .inl rfl
    | fading => exact .inr rfl
  | @frameRefused hshown animation call animates made =>
    obtain ⟨hphase, hpending, herror, _⟩ := hcollect.isPlaying animates.1
    refine .inr (.inl ⟨hphase, hpending, herror, animation.leftBy call, rfl, ?_⟩)
    rw [Animation.stage_leftBy]
    exact hcollect.phase_eq animates.1

end Player

namespace Session

variable [Scalar α]

structure Counted (session : Session α) : Prop where
  coherent : session.player.Coherent
  latest : session.player.latest = session.player.version
  version : session.player.version = 1 + session.changes
  ticks : session.player.ticks = session.frames

theorem counted_new (config : Config α) (width height : Nat) :
    (new config width height).Counted := by
  have hs : (new config width height).player.settings =
      (config, Scalar.ofInt width, Scalar.ofInt height, 1, 1, true) :=
    Player.settings_configure _ config
  simp only [Player.settings, Prod.mk.injEq] at hs
  obtain ⟨_, _, _, hversion, hlatest, _⟩ := hs
  exact
    { coherent := Player.coherent_configure _ config
      latest := hlatest.trans hversion.symm
      version := hversion
      ticks := Player.ticks_configure _ config }

theorem Counted.configure {session : Session α} (h : session.Counted) (config : Config α) :
    (session.configure config).Counted := by
  have hs := Player.settings_configure session.player config
  simp only [Player.settings, Prod.mk.injEq] at hs
  obtain ⟨_, _, _, hversion, hlatest, _⟩ := hs
  have hcount := h.version
  refine
    { coherent := Player.coherent_configure session.player config
      latest := hlatest.trans hversion.symm
      version := hversion.trans ?_
      ticks := (Player.ticks_configure session.player config).trans h.ticks }
  show session.player.version + 1 = 1 + (session.changes + 1)
  omega

omit [Scalar α] in
theorem Counted.of_settings {session : Session α} (h : session.Counted) {player : Player α}
    (hcoherent : player.Coherent) (hsettings : player.settings = session.player.settings)
    (hticks : player.ticks = session.player.ticks) :
    ({ session with player := player } : Session α).Counted := by
  obtain ⟨_, _, _, hversion, hlatest, _⟩ := Player.settings_eq_iff.1 hsettings
  exact
    { coherent := hcoherent
      latest := (hlatest.trans h.latest).trans hversion.symm
      version := hversion.trans h.version
      ticks := hticks.trans h.ticks }

theorem Counted.tick [Surface σ α] {session : Session α} (h : session.Counted) (surface : σ) :
    (session.tick surface).actor.Counted := by
  obtain ⟨_, _, _, hversion, hlatest, _⟩ :=
    Player.settings_eq_iff.1 (Player.settings_tick session.player surface)
  refine
    { coherent := h.coherent.tick surface
      latest := (hlatest.trans h.latest).trans hversion.symm
      version := hversion.trans h.version
      ticks := (Player.ticks_tick session.player surface).trans ?_ }
  show _ = if session.player.shown && (session.player.tick surface).result.isOk then
    session.frames + 1 else session.frames
  rw [h.ticks]

theorem counted_stable (σ : Type) [Surface σ α] : Stable σ (Counted (α := α)) where
  configure session config h := h.configure config
  resize session width height h := by
    have hresized : ({ session with
        player := { session.player with
          width := Scalar.ofInt width
          height := Scalar.ofInt height } } : Session α).Counted :=
      ⟨h.coherent, h.latest, h.version, h.ticks⟩
    obtain ⟨hcoherent, hlatest, hversion, hticks⟩ := hresized.configure session.player.config
    exact ⟨hcoherent, hlatest, hversion, hticks⟩
  setShown session shown h := ⟨h.coherent, h.latest, h.version, h.ticks⟩
  collect session h :=
    h.of_settings h.coherent.collect (Player.settings_collect _) (Player.ticks_collect _)
  await session h :=
    h.of_settings h.coherent.await (Player.settings_await _) (Player.ticks_await _)
  tick session surface h := h.tick surface
  work session step h := by
    cases step with
    | current => exact h.of_settings h.coherent.stepWorker rfl rfl
    | superseded index => exact ⟨h.coherent, h.latest, h.version, h.ticks⟩

/-- After any actions a player is in exactly one of its three modes, its version counts the changes
and its ticks count the frames; a refused tick keeps the phase that of the animation and counts
no frame. -/
theorem exactly_one_mode [Surface σ α] (config : Config α) (width height : Nat)
    (actions : List (Action σ α)) :
    let session := (new config width height).run actions
    let player := session.player
    ((player.IsPreparing ∧ ¬ player.IsPlaying ∧ ¬ player.IsFailed) ∨
      (¬ player.IsPreparing ∧ player.IsPlaying ∧ ¬ player.IsFailed) ∨
      (¬ player.IsPreparing ∧ ¬ player.IsPlaying ∧ player.IsFailed)) ∧
    player.latest = player.version ∧ player.version = 1 + session.changes ∧
    player.ticks = session.frames ∧
    ∀ surface : σ, (player.tick surface).result.isOk = false →
      (player.tick surface).actor.ticks = player.ticks ∧
      ∀ animation, (player.tick surface).actor.animation = some animation →
        (player.tick surface).actor.phase = animation.stage.phase := by
  intro session player
  have h : session.Counted := (counted_stable σ).run (counted_new config width height) actions
  refine ⟨h.coherent.exactly_one, h.latest, h.version, h.ticks, ?_⟩
  intro surface hrefused
  refine ⟨?_, fun animation ha => (h.coherent.tick surface).phase_eq ha⟩
  rw [Player.ticks_tick, hrefused, Bool.and_false, if_neg Bool.false_ne_true]

end Session

end LSystem
