import LSystem.Text.Integer

/-!
# Errors

What can go wrong, by cause. Every cause belongs to one kind, and the text of
an error is the wording of its cause behind the label of its kind.
-/

namespace LSystem

/-- The classes of errors that a user tells apart. -/
inductive ErrorKind
  | configuration
  | render
  | serialization
  | other
  deriving Repr, DecidableEq

def ErrorKind.label : ErrorKind → String
  | .configuration => "configuration error: "
  | .render => "render error: "
  | .serialization => "serialization error: "
  | .other => ""

def ErrorKind.describe (kind : ErrorKind) (wording : String) : String := kind.label ++ wording

inductive Error
  | ruleFields (encoding : String)
  | ruleName (text : String)
  | ruleNameReserved (name : Char)
  | ruleDistance (name : Char) (text : String) (cause : Text.IntegerError)
  | ruleRepeated (name : Char)
  | ruleReference (rule name : Char)
  | seedReference (grammar : String) (name : Char)
  | undefinedRule (name : Char)
  | ruleNameLeft
  | unknownGrammar (name : String) (available : List String)
  | intervalZero
  | headWidthUnfit
  | tailWidthUnfit
  | angleNotFinite
  | surfaceWidth
  | surfaceHeight
  | surfaceEmpty
  | refused (call : String)
  | malformedJson
  | noResult
  deriving Repr, DecidableEq

namespace Error

def kind : Error → ErrorKind
  | ruleFields _ | ruleName _ | ruleNameReserved _ | ruleDistance _ _ _ | ruleRepeated _
  | ruleReference _ _ | seedReference _ _ | undefinedRule _ | ruleNameLeft | unknownGrammar _ _
  | intervalZero | headWidthUnfit | tailWidthUnfit | angleNotFinite => .configuration
  | surfaceWidth | surfaceHeight | surfaceEmpty | refused _ => .render
  | malformedJson => .serialization
  | noResult => .other

def wording : Error → String
  | ruleFields encoding => s!"rule '{encoding}' must have the form <name>:<body>:<baseDistance>"
  | ruleName text => s!"rule name '{text}' must be exactly one character"
  | ruleNameReserved name => s!"rule name '{name}' collides with a structural symbol"
  | ruleDistance name text cause =>
    s!"rule '{name}' base distance '{text}' is not an integer: " ++ cause.message
  | ruleRepeated name => s!"rule '{name}' is defined more than once"
  | ruleReference rule name => s!"rule '{rule}' references undefined rule '{name}'"
  | seedReference grammar name => s!"grammar '{grammar}' seed references undefined rule '{name}'"
  | undefinedRule name => s!"grammar references undefined rule '{name}'"
  | ruleNameLeft => "expansion finished with an unresolved rule reference"
  | unknownGrammar name available =>
    s!"unknown grammar '{name}' (available: " ++ ", ".intercalate available ++ ")"
  | intervalZero => "refresh_interval_ms must be > 0"
  | headWidthUnfit => "head_width must be finite and > 0"
  | tailWidthUnfit => "tail_width must be finite and > 0"
  | angleNotFinite => "turn_angle_deg must be finite"
  | surfaceWidth => "surface width exceeds u16"
  | surfaceHeight => "surface height exceeds u16"
  | surfaceEmpty => "surface width/height must be non-zero"
  | refused call => s!"{call} refused"
  | malformedJson => "malformed JSON"
  | noResult => "generation worker exited without producing a result"

def message (e : Error) : String := e.kind.describe e.wording

def isConfiguration (e : Error) : Bool := e.kind = .configuration

end Error

/-! ### Outcomes -/

theorem exists_of_bind_eq_ok {β γ : Type} {outcome : Except Error β} {f : β → Except Error γ}
    {c : γ} (h : outcome.bind f = .ok c) : ∃ b, outcome = .ok b ∧ f b = .ok c := by
  cases outcome with
  | error e => cases h
  | ok b => exact ⟨b, rfl, h⟩

theorem exists_of_map_eq_ok {β γ : Type} {outcome : Except Error β} {f : β → γ} {c : γ}
    (h : outcome.map f = .ok c) : ∃ b, outcome = .ok b ∧ f b = c := by
  cases outcome with
  | error e => cases h
  | ok b =>
    cases h
    exact ⟨b, rfl, rfl⟩

theorem eq_error_of_map_eq_error {β γ : Type} {outcome : Except Error β} {f : β → γ} {e : Error}
    (h : outcome.map f = .error e) : outcome = .error e := by
  cases outcome with
  | error e' =>
    cases h
    rfl
  | ok b => cases h

/-! ### Lists that are read item by item -/

theorem mapM_map_eq_some {β γ : Type} {read? : β → Option γ} {write : γ → β} {items : List γ}
    (h : ∀ c ∈ items, read? (write c) = some c) : (items.map write).mapM read? = some items := by
  induction items with
  | nil => rfl
  | cons first rest ih =>
    obtain ⟨hfirst, hrest⟩ := List.forall_mem_cons.1 h
    rw [List.map_cons, List.mapM_cons, hfirst, ih hrest]
    rfl

theorem eq_map_of_mapM_eq_some {β γ : Type} {read? : β → Option γ} {write : γ → β}
    (hwrite : ∀ b c, read? b = some c → b = write c) {items : List β} {others : List γ}
    (h : items.mapM read? = some others) : items = others.map write := by
  induction items generalizing others with
  | nil =>
    cases h
    rfl
  | cons first rest ih =>
    rw [List.mapM_cons] at h
    obtain ⟨other, hother, h⟩ := Option.bind_eq_some_iff.1 h
    obtain ⟨remaining, hremaining, h⟩ := Option.bind_eq_some_iff.1 h
    cases h
    rw [List.map_cons, ← hwrite _ _ hother, ← ih hremaining]

end LSystem
