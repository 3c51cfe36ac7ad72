import LSystem.Proofs.Cancellable
import LSystem.Proofs.Grammar.Derivation

/-!
# Expansions given up

An expansion asks its owner before each pass, from the greatest depth down to
zero, and now and then within one. Giving it up is all or nothing: either it is
not noticed at all, or there is neither a script nor an error.
-/

namespace LSystem

def Checkpoint.pass? : Checkpoint → Option Nat
  | .pass depth => some depth
  | _ => none

namespace Expansion

variable {α : Type} [Scalar α]

/-- The depths of the passes that a computation begins. -/
def begun {β : Type} (work : Cancellable Checkpoint β) : List Nat :=
  work.marks.filterMap Checkpoint.pass?

theorem begun_bind {β γ : Type} (work : Cancellable Checkpoint β)
    (f : β → Cancellable Checkpoint γ) :
    begun (work.bind f) = begun work ++ begun (f work.result) := by
  rw [begun, Cancellable.marks_bind, List.filterMap_append]
  rfl

theorem begun_pass (table : RuleTable α) (depth : Nat) (word : List (Letter α))
    (consumed budget : Nat) (written : Array (Letter α)) :
    begun (pass table depth word consumed budget written) = [] := by
  induction word generalizing consumed budget written with
  | nil => rfl
  | cons letter rest ih =>
    rw [pass]
    cases substitute table depth letter with
    | error e => rfl
    | ok body =>
      dsimp only
      split
      · exact ih (consumed + 1) interval (written ++ body)
      · exact ih (consumed + 1) (budget - body.length) (written ++ body)

theorem begun_passes_zero (table : RuleTable α) (word : List (Letter α)) :
    begun (passes table 0 word) = [0] :=
  congrArg (0 :: ·) (begun_pass table 0 word 0 interval #[])

theorem begun_passes_succ (table : RuleTable α) (depth : Nat) (word : List (Letter α)) :
    begun (passes table (depth + 1) word) =
      (depth + 1) ::
        match rewrite table (depth + 1) word with
        | .error _ => []
        | .ok next => begun (passes table depth next) := by
  have hbegun : begun (passes table (depth + 1) word) = (depth + 1) ::
      begun ((pass table (depth + 1) word 0 interval #[]).bind fun
        | .error e => .done (.error e)
        | .ok next => passes table depth next) := rfl
  rw [hbegun, begun_bind, begun_pass, List.nil_append, result_pass]
  cases rewrite table (depth + 1) word with
  | error e => rfl
  | ok next => rfl

/-- The passes begin in the order of falling depths, and only an error leaves some of them out. -/
theorem begun_passes (table : RuleTable α) (depth : Nat) (word : List (Letter α)) :
    begun (passes table depth word) <+: (List.range (depth + 1)).reverse ∧
      ((passes table depth word).result.isOk = true →
        begun (passes table depth word) = (List.range (depth + 1)).reverse) := by
  induction depth generalizing word with
  | zero =>
    rw [begun_passes_zero]
    exact ⟨List.prefix_rfl, fun _ => rfl⟩
  | succ depth ih =>
    have hrange : (List.range (depth + 1 + 1)).reverse =
        (depth + 1) :: (List.range (depth + 1)).reverse := by
      rw [List.range_succ, List.reverse_append]
      rfl
    rw [begun_passes_succ, result_passes_succ, hrange]
    cases rewrite table (depth + 1) word with
    | error e =>
      refine ⟨List.cons_prefix_cons.2 ⟨rfl, List.nil_prefix⟩, ?_⟩
      intro hok
      cases hok
    | ok next =>
      obtain ⟨hmade, hall⟩ := ih next
      refine ⟨List.cons_prefix_cons.2 ⟨rfl, hmade⟩, ?_⟩
      intro hok
      exact congrArg ((depth + 1) :: ·) (hall hok)

/-- Giving up an expansion is all or nothing. Under an owner who never gives it up it comes to its
outcome. Under any other one nothing changes as long as the owner gives nothing up at the
checkpoints that are then asked; otherwise it ends at the first one given up, without an outcome,
and no later checkpoint is asked. One checkpoint stands before each pass. -/
theorem expansion_all_or_nothing (table : RuleTable α) (angle : α) (seed : String)
    (iterations : Nat) :
    let work := start table angle seed iterations
    let asked := (work.run fun _ => false).2
    (work.run fun _ => false).1 = some (expand table angle seed iterations) ∧
    (∀ givesUp : Nat → Bool, work.run givesUp =
      match (List.range asked).find? givesUp with
      | some first => (none, first + 1)
      | none => (some (expand table angle seed iterations), asked)) ∧
    begun work <+: (List.range (max iterations 1 + 1)).reverse ∧
    ((expand table angle seed iterations).isOk = true →
      begun work = (List.range (max iterations 1 + 1)).reverse) := by
  intro work asked
  have hnever := Cancellable.run_never work
  have hasked : asked = work.marks.length := congrArg Prod.snd hnever
  have hbegun : begun work =
      begun (passes table (max iterations 1) (Letter.ofText angle seed.toList)) := by
    rw [← List.append_nil (begun (passes _ _ _))]
    exact begun_bind _ _
  obtain ⟨hmade, hall⟩ := begun_passes table (max iterations 1) (Letter.ofText angle seed.toList)
  rw [hbegun]
  refine ⟨congrArg Prod.fst hnever, ?_, hmade, ?_⟩
  · intro givesUp
    rw [hasked]
    exact Cancellable.run_eq givesUp work
  · intro hok
    refine hall ?_
    rw [expand_eq] at hok
    cases hp : (passes table (max iterations 1) (Letter.ofText angle seed.toList)).result with
    | error e =>
      rw [hp] at hok
      cases hok
    | ok final => rfl

end Expansion

end LSystem
