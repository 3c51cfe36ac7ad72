import LSystem.Error
import LSystem.Paint.Path
import LSystem.Paint.Style

/-!
# Surfaces

Whatever can be drawn on. A surface takes one call at a time and may refuse
any of them; also a refused call may change it.
-/

namespace LSystem

inductive PaintCall (α : Type)
  | clear (color : Color)
  | line (start stop : Point α) (paint : Paint α)
  | path (path : Path α) (paint : Paint α)

def PaintCall.sort {α : Type} : PaintCall α → String
  | .clear _ => "clear"
  | .line _ _ _ => "line"
  | .path _ _ => "path"

class Surface (σ : Type) (α : outParam Type) where
  /-- The surface after a call, and whether it was carried out. -/
  paint : σ → PaintCall α → σ × Except Error Unit

structure Outcome (σ β γ : Type) where
  surface : σ
  actor : β
  result : Except Error γ

/-- Makes calls in order up to the first that is refused. With each call stands the actor that is
left if it is refused; `next` is the actor after all of them, and `result` what is returned then. -/
def Surface.perform {α σ β γ : Type} [Surface σ α] (surface : σ) (next : β) (result : γ) :
    List (PaintCall α × β) → Outcome σ β γ
  | [] => ⟨surface, next, .ok result⟩
  | (call, left) :: rest =>
    match Surface.paint surface call with
    | (surface, .ok ()) => perform surface next result rest
    | (surface, .error e) => ⟨surface, left, .error e⟩

structure Recorder (α : Type) where
  calls : Array (PaintCall α) := #[]
  refuseAfter : Option Nat := none

/-- Carries out a call or refuses it; a refused call leaves no trace and is followed by no other. -/
def Recorder.record {α : Type} (recorder : Recorder α) (call : PaintCall α) :
    Recorder α × Except Error Unit :=
  match recorder.refuseAfter with
  | some 0 => ({ recorder with refuseAfter := none }, .error (.refused call.sort))
  | some (k + 1) =>
    ({ calls := recorder.calls.push call, refuseAfter := some k }, .ok ())
  | none => ({ recorder with calls := recorder.calls.push call }, .ok ())

instance {α : Type} : Surface (Recorder α) α := ⟨Recorder.record⟩

end LSystem
