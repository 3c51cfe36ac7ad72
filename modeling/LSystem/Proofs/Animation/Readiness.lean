import LSystem.Proofs.Animation.Freshness
import LSystem.Proofs.Config.Requirements

/-!
# Readiness

A player that has waited is drawing if its configuration meets all requirements,
and has failed over the first one that is not met otherwise. Neither the size of
the surface, nor the number of iterations, nor how far the run had come before
the wait has a part in this.
-/

namespace LSystem

variable {α : Type} [Scalar α]

namespace Player

/-- What a player that has waited tells about a configuration. -/
structure Answers (player : Player α) (config : Config α) : Prop where
  drawing_iff : player.phase = .drawing ↔ ∀ requirement, config.Meets requirement
  failed_iff : player.phase = .failed ↔ ∃ requirement, ¬ config.Meets requirement
  error_iff : ∀ e, player.error = some e ↔ config.FirstFault e
  exists_error : player.phase = .failed →
    ∃ e, player.error = some e ∧ e.kind = .configuration

theorem answers_settle (player : Player α) (config : Config α) :
    (player.settle config).Answers config := by
  have herror (e : Error) :
      config.figure player.width player.height = .error e ↔ config.FirstFault e :=
    Config.figure_eq_error_iff
  have hmeets : (∀ requirement, config.Meets requirement) ↔
      ∃ figure, config.figure player.width player.height = .ok figure :=
    Config.meets_iff_exists_figure
  unfold settle
  cases hfigure : config.figure player.width player.height with
  | error e =>
    have hunmet : ¬ ∀ requirement, config.Meets requirement := by
      rw [hmeets, hfigure]
      rintro ⟨figure, h⟩
      cases h
    refine ⟨iff_of_false nofun hunmet, iff_of_true rfl (not_forall.1 hunmet), fun e' => ?_, ?_⟩
    · rw [← herror e', hfigure, Option.some.injEq, Except.error.injEq]
    · exact fun _ => ⟨e, rfl, Config.figure_fails _ _ _ e hfigure⟩
  | ok figure =>
    have hall : ∀ requirement, config.Meets requirement := hmeets.2 ⟨figure, hfigure⟩
    refine ⟨iff_of_true rfl hall, iff_of_false nofun ?_, fun e => iff_of_false nofun ?_, nofun⟩
    · rintro ⟨requirement, hunmet⟩
      exact hunmet (hall requirement)
    · rw [← herror e, hfigure]
      exact nofun

/-- No requirement mentions the number of iterations. -/
theorem Answers.iterations {player : Player α} {config : Config α} (h : player.Answers config)
    (iterations : Option Int64) : player.Answers { config with iterations } :=
  ⟨h.drawing_iff, h.failed_iff, h.error_iff, h.exists_error⟩

/-- The phase and the error are all that an answer consists of. -/
theorem Answers.unique {player other : Player α} {config : Config α} (h : player.Answers config)
    (h' : other.Answers config) : player.phase = other.phase ∧ player.error = other.error := by
  constructor
  · by_cases hall : ∀ requirement, config.Meets requirement
    · rw [h.drawing_iff.2 hall, h'.drawing_iff.2 hall]
    · rw [h.failed_iff.2 (not_forall.1 hall), h'.failed_iff.2 (not_forall.1 hall)]
  · exact Option.ext fun e => (h.error_iff e).trans (h'.error_iff e).symm

end Player

namespace Session

/-- A player that is created with a configuration or configured with it, and then waits, is drawing
if and only if the configuration meets all requirements. Otherwise it has failed, with an error of
the configuration kind: the one for the first requirement not met. It makes no difference how many
iterations are asked for. -/
theorem drawing_iff_requirements_met (config : Config α) (session : Session α)
    (width height : Nat) (steps : List Background) :
    let created := ((new config width height).works steps).await.player
    let configured := ((session.configure config).works steps).await.player
    created.Answers config ∧ configured.Answers config ∧
    ∀ iterations,
      let other := { config with iterations }
      let created' := ((new other width height).works steps).await.player
      let configured' := ((session.configure other).works steps).await.player
      (created'.phase = created.phase ∧ created'.error = created.error) ∧
      configured'.phase = configured.phase ∧ configured'.error = configured.error := by
  have hcreated (config : Config α) :
      ((new config width height).works steps).await.player.Answers config := by
    rw [await_works_configure _ config (new config width height) steps rfl]
    exact Player.answers_settle _ config
  have hconfigured (config : Config α) :
      ((session.configure config).works steps).await.player.Answers config := by
    rw [await_works_configure session.player config (session.configure config) steps rfl]
    exact Player.answers_settle _ config
  refine ⟨hcreated config, hconfigured config, fun iterations => ?_⟩
  exact ⟨(hcreated _).unique ((hcreated config).iterations iterations),
    (hconfigured _).unique ((hconfigured config).iterations iterations)⟩

end Session

end LSystem
