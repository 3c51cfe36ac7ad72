import LSystem.Paint.Surface

/-!
# Surfaces that take every call

On a surface that refuses nothing, calls are made one after the other up to the
last, and nothing but the calls decides what becomes of it. A recorder that is
never to refuse is such a surface, and what becomes of it is the log of the
calls.
-/

namespace LSystem

variable {α σ β γ : Type}

namespace Surface

variable [Surface σ α]

def given (surface : σ) (calls : List (PaintCall α)) : σ :=
  calls.foldl (fun surface call => (Surface.paint surface call).1) surface

theorem given_append (surface : σ) (first second : List (PaintCall α)) :
    given surface (first ++ second) = given (given surface first) second :=
  List.foldl_append

/-- Whatever calls a surface was given, it carries out the next one. -/
def Accepts (surface : σ) : Prop :=
  ∀ (calls : List (PaintCall α)) (call : PaintCall α),
    (Surface.paint (given surface calls) call).2 = .ok ()

theorem Accepts.given {surface : σ} (h : Accepts surface) (calls : List (PaintCall α)) :
    Accepts (Surface.given surface calls) := by
  intro more call
  rw [← given_append]
  exact h (calls ++ more) call

theorem perform_of_accepts {surface : σ} (h : Accepts surface) (next : β) (result : γ)
    (calls : List (PaintCall α × β)) :
    perform surface next result calls = ⟨given surface (calls.map Prod.fst), next, .ok result⟩ := by
  induction calls generalizing surface with
  | nil => rfl
  | cons call rest ih =>
    have hok : (Surface.paint surface call.1).2 = .ok () := h [] call.1
    have hrest := ih (h.given [call.1])
    simp only [perform]
    rcases hp : Surface.paint surface call.1 with ⟨surface', outcome⟩
    rw [hp] at hok
    cases hok
    have hgiven : given surface [call.1] = surface' := congrArg Prod.fst hp
    rw [hgiven] at hrest
    rw [List.map_cons, ← List.singleton_append, given_append, hgiven]
    exact hrest

end Surface

theorem Recorder.given_eq (calls : Array (PaintCall α)) (more : List (PaintCall α)) :
    Surface.given ({ calls } : Recorder α) more = { calls := calls ++ more } := by
  induction more generalizing calls with
  | nil => simp [Surface.given]
  | cons call more ih =>
    have hcons : Surface.given ({ calls } : Recorder α) (call :: more) =
        Surface.given ({ calls := calls.push call } : Recorder α) more := rfl
    rw [hcons, ih]
    simp

theorem Recorder.accepts (calls : Array (PaintCall α)) :
    Surface.Accepts ({ calls } : Recorder α) := by
  intro more call
  rw [given_eq]
  rfl

end LSystem
