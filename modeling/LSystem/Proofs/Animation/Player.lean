import LSystem.Animation.Player
import LSystem.Proofs.Animation.Tick

/-!
# Calls of a player

What each call of a player can come to, and what it leaves alone. Everything
said about whole sessions is derived from these cases.
-/

namespace LSystem

variable {α σ : Type}

namespace Player

/-- What only the user sets: the configuration, the size of the surface, the versions, and whether
the drawing is shown. -/
def settings (player : Player α) : Config α × α × α × Nat × Nat × Bool :=
  (player.config, player.width, player.height, player.version, player.latest, player.shown)

theorem settings_eq_iff {a b : Player α} :
    a.settings = b.settings ↔ a.config = b.config ∧ a.width = b.width ∧ a.height = b.height ∧
      a.version = b.version ∧ a.latest = b.latest ∧ a.shown = b.shown := by
  simp only [settings, Prod.mk.injEq]

variable [Scalar α]

/-! ### Configurations -/

theorem configure_of_ok {player : Player α} {config : Config α} {request : Request α}
    (h : config.request = .ok request) :
    player.configure config =
      { player with
        config
        version := player.version + 1
        latest := player.version + 1
        pending := some (.start request (config.viewport player.width player.height)
          (player.version + 1))
        animation := none
        error := none
        phase := .preparing } := by
  simp only [configure, h]
  rfl

theorem configure_of_error {player : Player α} {config : Config α} {e : Error}
    (h : config.request = .error e) :
    player.configure config =
      { player with
        config
        version := player.version + 1
        latest := player.version + 1
        pending := none
        animation := none
        error := some e
        phase := .failed } := by
  simp only [configure, h]
  rfl

theorem settings_configure (player : Player α) (config : Config α) :
    (player.configure config).settings =
      (config, player.width, player.height, player.version + 1, player.version + 1,
        player.shown) := by
  cases hr : config.request with
  | error e =>
    rw [configure_of_error hr]
    rfl
  | ok request =>
    rw [configure_of_ok hr]
    rfl

theorem ticks_configure (player : Player α) (config : Config α) :
    (player.configure config).ticks = player.ticks := by
  cases hr : config.request with
  | error e => rw [configure_of_error hr]
  | ok request => rw [configure_of_ok hr]

/-! ### Results -/

theorem accept_ok (player : Player α) (figure : Figure α) :
    player.accept player.version (.ok figure) =
      { player with
        animation := some (.new figure.script figure.layout player.config.style)
        phase := .drawing } := by
  simp only [accept, if_pos]

theorem accept_error (player : Player α) (e : Error) :
    player.accept player.version (.error e) = player.fail e := by
  simp only [accept, if_pos]

theorem settings_accept (player : Player α) (version : Nat) (result : Except Error (Figure α)) :
    (player.accept version result).settings = player.settings := by
  unfold accept
  split
  · cases result with
    | error e => rfl
    | ok figure => rfl
  · rfl

theorem ticks_accept (player : Player α) (version : Nat) (result : Except Error (Figure α)) :
    (player.accept version result).ticks = player.ticks := by
  unfold accept
  split
  · cases result with
    | error e => rfl
    | ok figure => rfl
  · rfl

theorem collect_cases (player : Player α) :
    player.collect = player ∨
      ∃ worker result, player.pending = some worker ∧ worker.receive?.1 = some result ∧
        player.collect = { player with pending := none }.accept worker.version result := by
  unfold collect
  cases player.pending with
  | none => exact .inl rfl
  | some worker =>
    dsimp only
    cases hr : worker.receive?.1 with
    | none => exact .inl rfl
    | some result => exact .inr ⟨worker, result, rfl, hr, rfl⟩

theorem await_cases (player : Player α) :
    player.pending = none ∧ player.await = player ∨
      ∃ worker, player.pending = some worker ∧
        player.await = { player with pending := none }.accept worker.version
          (worker.wait player.latest).1 := by
  unfold await
  cases player.pending with
  | none => exact .inl ⟨rfl, rfl⟩
  | some worker => exact .inr ⟨worker, rfl, rfl⟩

theorem settings_collect (player : Player α) : player.collect.settings = player.settings := by
  rcases collect_cases player with h | ⟨worker, result, _, _, h⟩
  · rw [h]
  · rw [h, settings_accept]
    rfl

theorem ticks_collect (player : Player α) : player.collect.ticks = player.ticks := by
  rcases collect_cases player with h | ⟨worker, result, _, _, h⟩
  · rw [h]
  · rw [h, ticks_accept]

theorem settings_await (player : Player α) : player.await.settings = player.settings := by
  rcases await_cases player with ⟨_, h⟩ | ⟨worker, _, h⟩
  · rw [h]
  · rw [h, settings_accept]
    rfl

theorem ticks_await (player : Player α) : player.await.ticks = player.ticks := by
  rcases await_cases player with ⟨_, h⟩ | ⟨worker, _, h⟩
  · rw [h]
  · rw [h, ticks_accept]

/-! ### Ticks -/

def Animates (player : Player α) (animation : Animation α) : Prop :=
  player.animation = some animation ∧ (player.phase = .drawing ∨ player.phase = .fading)

/-- What a tick can make of a player, and whether it counts as a frame. -/
inductive Ticked (player : Player α) : Player α → Bool → Prop
  | hidden (h : player.shown = false) : Ticked player player false
  | blank (h : player.shown = true) (idle : ∀ animation, ¬ player.collect.Animates animation) :
      Ticked player { player.collect with ticks := player.collect.ticks + 1 } true
  | blankRefused (h : player.shown = true)
      (idle : ∀ animation, ¬ player.collect.Animates animation) :
      Ticked player player.collect false
  | frame (h : player.shown = true) {animation : Animation α}
      (animates : player.collect.Animates animation) :
      Ticked player
        { player.collect with
          animation := some animation.scene.next
          phase := animation.scene.next.stage.phase
          ticks := player.collect.ticks + 1 } true
  | frameRefused (h : player.shown = true) {animation : Animation α} (call : PaintCall α)
      (animates : player.collect.Animates animation)
      (made : (call, animation.leftBy call) ∈ animation.scene.calls) :
      Ticked player { player.collect with animation := some (animation.leftBy call) } false

variable [Surface σ α]

theorem tick_of_hidden {player : Player α} (h : player.shown = false) (surface : σ) :
    player.tick surface = ⟨surface, player, .ok player.phase⟩ := by
  simp only [tick, h, Bool.false_eq_true, if_false]

theorem tick_of_animates {player : Player α} {animation : Animation α} (h : player.shown = true)
    (animates : player.collect.Animates animation) (surface : σ) :
    player.tick surface = player.collect.animate animation surface := by
  simp only [tick, h, if_true]
  obtain ⟨ha, hp⟩ := animates
  rcases hp with hp | hp
  · rw [ha, hp]
  · rw [ha, hp]

theorem tick_of_idle {player : Player α} (h : player.shown = true)
    (idle : ∀ animation, ¬ player.collect.Animates animation) (surface : σ) :
    player.tick surface = player.collect.blank surface := by
  simp only [tick, h, if_true]
  split
  · next animation ha hp => exact absurd ⟨ha, .inl hp⟩ (idle animation)
  · next animation ha hp => exact absurd ⟨ha, .inr hp⟩ (idle animation)
  · rfl

omit [Scalar α] in
theorem blank_cases (player : Player α) (surface : σ) :
    ((player.blank surface).actor = { player with ticks := player.ticks + 1 } ∧
        (player.blank surface).result.isOk = true) ∨
      ((player.blank surface).actor = player ∧ (player.blank surface).result.isOk = false) := by
  rcases Surface.perform_cases surface { player with ticks := player.ticks + 1 } player.phase
    [(.clear player.config.style.background, player)] with ⟨ha, hr⟩ | ⟨call, hmem, e, ha, hr⟩
  · refine .inl ⟨ha, ?_⟩
    rw [blank, hr]
    rfl
  · cases List.mem_singleton.1 hmem
    refine .inr ⟨ha, ?_⟩
    rw [blank, hr]
    rfl

theorem animate_cases (player : Player α) (animation : Animation α) (surface : σ) :
    ((player.animate animation surface).actor =
          { player with
            animation := some animation.scene.next
            phase := animation.scene.next.stage.phase
            ticks := player.ticks + 1 } ∧
        (player.animate animation surface).result.isOk = true) ∨
      ∃ call, (call, animation.leftBy call) ∈ animation.scene.calls ∧
        (player.animate animation surface).actor =
          { player with animation := some (animation.leftBy call) } ∧
        (player.animate animation surface).result.isOk = false := by
  rcases animation.tick_cases surface with ⟨ha, hr⟩ | ⟨call, e, hmem, ha, hr⟩
  · refine .inl ⟨?_, ?_⟩
    · simp only [animate, ha, hr]
    · simp only [animate, hr]
      rfl
  · refine .inr ⟨call, hmem, ?_, ?_⟩
    · simp only [animate, ha, hr]
    · simp only [animate, hr]
      rfl

theorem ticked_tick (player : Player α) (surface : σ) :
    Ticked player (player.tick surface).actor
      (player.shown && (player.tick surface).result.isOk) := by
  cases hshown : player.shown with
  | false =>
    rw [tick_of_hidden hshown]
    exact .hidden hshown
  | true =>
    by_cases idle : ∀ animation, ¬ player.collect.Animates animation
    · rw [tick_of_idle hshown idle]
      rcases blank_cases player.collect surface with ⟨ha, hr⟩ | ⟨ha, hr⟩
      · rw [ha, hr]
        exact .blank hshown idle
      · rw [ha, hr]
        exact .blankRefused hshown idle
    · obtain ⟨animation, hnot⟩ := Classical.not_forall.1 idle
      have animates := Classical.not_not.1 hnot
      rw [tick_of_animates hshown animates]
      rcases animate_cases player.collect animation surface with
        ⟨ha, hr⟩ | ⟨call, hmem, ha, hr⟩
      · rw [ha, hr]
        exact .frame hshown animates
      · rw [ha, hr]
        exact .frameRefused hshown call animates hmem

theorem settings_tick (player : Player α) (surface : σ) :
    (player.tick surface).actor.settings = player.settings := by
  obtain ⟨counts, h⟩ : ∃ counts, Ticked player (player.tick surface).actor counts :=
    ⟨_, ticked_tick player surface⟩
  generalize (player.tick surface).actor = after at h ⊢
  cases h with
  | hidden h => rfl
  | blank h idle => exact settings_collect player
  | blankRefused h idle => exact settings_collect player
  | frame h animates => exact settings_collect player
  | frameRefused h call animates made => exact settings_collect player

theorem ticks_tick (player : Player α) (surface : σ) :
    (player.tick surface).actor.ticks =
      if player.shown && (player.tick surface).result.isOk then player.ticks + 1
      else player.ticks := by
  have hcollect := ticks_collect player
  have h := ticked_tick player surface
  generalize (player.shown && (player.tick surface).result.isOk) = counts at h ⊢
  generalize (player.tick surface).actor = after at h ⊢
  cases h with
  | hidden h => rfl
  | blank h idle => exact congrArg (· + 1) hcollect
  | blankRefused h idle => exact hcollect
  | frame h animates => exact congrArg (· + 1) hcollect
  | frameRefused h call animates made => exact hcollect

end Player

end LSystem
