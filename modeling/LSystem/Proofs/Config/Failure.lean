import LSystem.Config.Basic
import LSystem.Proofs.Grammar.Derivation

/-!
# Failures of a configuration

From its check to the placed figure, whatever goes wrong with a configuration
is of the configuration kind, so that only another configuration helps.
-/

namespace LSystem

/-- A computation that can only fail with errors of the configuration kind. -/
def FailsByConfiguration {β : Type} (outcome : Except Error β) : Prop :=
  ∀ e, outcome = .error e → e.kind = .configuration

variable {α β γ : Type}

theorem failsByConfiguration_ok (b : β) : FailsByConfiguration (.ok b) := by
  intro e h
  cases h

theorem failsByConfiguration_error {e : Error} (h : e.kind = .configuration) :
    FailsByConfiguration (β := β) (.error e) := by
  intro e' h'
  cases h'
  exact h

theorem FailsByConfiguration.bind {outcome : Except Error β} {f : β → Except Error γ}
    (h : FailsByConfiguration outcome) (hf : ∀ b, FailsByConfiguration (f b)) :
    FailsByConfiguration (outcome.bind f) := by
  cases outcome with
  | error e => exact failsByConfiguration_error (h e rfl)
  | ok b => exact hf b

theorem FailsByConfiguration.map {outcome : Except Error β} (h : FailsByConfiguration outcome)
    (f : β → γ) : FailsByConfiguration (outcome.map f) := by
  cases outcome with
  | error e => exact failsByConfiguration_error (h e rfl)
  | ok b => exact failsByConfiguration_ok (f b)

/-! ### Rules -/

theorem Rule.parseName_fails (text : List Char) : FailsByConfiguration (Rule.parseName text) := by
  unfold Rule.parseName
  split
  · split
    · exact failsByConfiguration_error rfl
    · exact failsByConfiguration_ok _
  · exact failsByConfiguration_error rfl

theorem Rule.parseDistance_fails (name : Char) (text : List Char) :
    FailsByConfiguration (Rule.parseDistance name text) := by
  unfold Rule.parseDistance
  cases Text.readInteger .signed32 text with
  | error cause => exact failsByConfiguration_error rfl
  | ok distance => exact failsByConfiguration_ok distance

variable [Scalar α]

theorem Rule.parse_fails (angle : α) (encoding : String) :
    FailsByConfiguration (Rule.parse angle encoding) := by
  unfold Rule.parse
  split
  · refine (Rule.parseName_fails _).bind fun name => ?_
    exact (Rule.parseDistance_fails name _).bind fun distance => failsByConfiguration_ok _
  · exact failsByConfiguration_error rfl

omit [Scalar α] in
theorem RuleTable.insert_fails (table : RuleTable α) (rule : Rule α) :
    FailsByConfiguration (table.insert rule) := by
  unfold RuleTable.insert
  split
  · exact failsByConfiguration_error rfl
  · exact failsByConfiguration_ok _

theorem RuleTable.addAll_fails (angle : α) (table : RuleTable α) (encodings : List String) :
    FailsByConfiguration (table.addAll angle encodings) := by
  induction encodings generalizing table with
  | nil => exact failsByConfiguration_ok table
  | cons encoding rest ih =>
    refine (Rule.parse_fails angle encoding).bind fun rule => ?_
    exact (table.insert_fails rule).bind fun table => ih table

/-! ### Expansions -/

theorem Expansion.start_fails (table : RuleTable α) (angle : α) (seed : String)
    (iterations : Nat) :
    FailsByConfiguration (Expansion.start table angle seed iterations).result := by
  intro e h
  obtain ⟨name, _, rfl⟩ := Expansion.expand_error h
  rfl

theorem Request.expansion_fails (request : Request α) :
    FailsByConfiguration request.expansion.result := by
  unfold Request.expansion
  cases htable : request.grammar.table request.angle with
  | error e => exact failsByConfiguration_error (RuleTable.addAll_fails _ _ _ e htable)
  | ok table => exact Expansion.start_fails table _ _ _

theorem Request.figure_fails (request : Request α) (viewport : Viewport α) :
    FailsByConfiguration (request.figure viewport) :=
  request.expansion_fails.map (Request.place viewport)

/-! ### Configurations -/

namespace Config

def figure (config : Config α) (width height : α) : Except Error (Figure α) :=
  config.request.bind fun request => request.figure (config.viewport width height)

theorem check_fails (config : Config α) : FailsByConfiguration config.check := by
  unfold check
  split
  · exact failsByConfiguration_error rfl
  · split
    · exact failsByConfiguration_error rfl
    · split
      · exact failsByConfiguration_error rfl
      · split
        · exact failsByConfiguration_error rfl
        · exact failsByConfiguration_ok ()

theorem request_fails (config : Config α) : FailsByConfiguration config.request := by
  unfold request
  refine config.check_fails.bind fun _ => ?_
  refine FailsByConfiguration.bind ?_ fun grammar => failsByConfiguration_ok _
  unfold Catalogue.get
  split
  · exact failsByConfiguration_ok _
  · exact failsByConfiguration_error rfl

theorem figure_fails (config : Config α) (width height : α) :
    FailsByConfiguration (config.figure width height) :=
  config.request_fails.bind fun request => request.figure_fails _

theorem figure_of_ok {config : Config α} {request : Request α} (h : config.request = .ok request)
    (width height : α) :
    config.figure width height = request.figure (config.viewport width height) := by
  rw [figure, h]
  rfl

theorem figure_of_error {config : Config α} {e : Error} (h : config.request = .error e)
    (width height : α) : config.figure width height = .error e := by
  rw [figure, h]
  rfl

end Config

end LSystem
