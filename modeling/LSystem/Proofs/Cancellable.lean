import LSystem.Cancellable

/-!
# Owners of computations

What a run comes to depends on its owner only through the first checkpoint at
which it is given up, if there is one: then there is no result and no checkpoint
behind this one is asked. Otherwise every checkpoint is asked once, and the
result is the one of the computation that is never given up.
-/

namespace LSystem.Cancellable

variable {μ β : Type}

theorem runFrom_eq (givesUp : Nat → Bool) (c : Cancellable μ β) (asked : Nat) :
    c.runFrom givesUp asked =
      match (List.range' asked c.marks.length).find? givesUp with
      | some first => (none, first + 1)
      | none => (some c.result, asked + c.marks.length) := by
  induction c generalizing asked with
  | done b => rfl
  | check mark rest ih =>
    simp only [runFrom, marks, List.length_cons, List.range'_succ, List.find?_cons, result]
    cases givesUp asked with
    | true => rfl
    | false =>
      have hcount : asked + ((rest ()).marks.length + 1) =
          asked + 1 + (rest ()).marks.length := by omega
      rw [hcount]
      exact ih () (asked + 1)

theorem run_eq (givesUp : Nat → Bool) (c : Cancellable μ β) :
    c.run givesUp =
      match (List.range c.marks.length).find? givesUp with
      | some first => (none, first + 1)
      | none => (some c.result, c.marks.length) := by
  rw [run, runFrom_eq, List.range_eq_range', Nat.zero_add]

theorem run_never (c : Cancellable μ β) :
    c.run (fun _ => false) = (some c.result, c.marks.length) := by
  have hnone : (List.range c.marks.length).find? (fun _ => false) = none :=
    List.find?_eq_none.2 fun n _ => Bool.false_ne_true
  rw [run_eq, hnone]

/-- The marks at which an owner is asked, counted from a number on. -/
def asked (givesUp : Nat → Bool) : Nat → Cancellable μ β → List μ
  | _, done _ => []
  | number, check mark rest =>
    mark :: if givesUp number then [] else (rest ()).asked givesUp (number + 1)

theorem asked_prefix_marks (givesUp : Nat → Bool) (c : Cancellable μ β) (number : Nat) :
    c.asked givesUp number <+: c.marks := by
  induction c generalizing number with
  | done b => exact List.nil_prefix
  | check mark rest ih =>
    rw [asked, marks]
    refine List.cons_prefix_cons.2 ⟨rfl, ?_⟩
    split
    · exact List.nil_prefix
    · exact ih () (number + 1)

theorem runFrom_snd (givesUp : Nat → Bool) (c : Cancellable μ β) (number : Nat) :
    (c.runFrom givesUp number).2 = number + (c.asked givesUp number).length := by
  induction c generalizing number with
  | done b => rfl
  | check mark rest ih =>
    rw [runFrom, asked]
    split
    · rfl
    · rw [ih () (number + 1), List.length_cons]
      omega

theorem length_asked (givesUp : Nat → Bool) (c : Cancellable μ β) :
    (c.asked givesUp 0).length = (c.run givesUp).2 := by
  rw [run, runFrom_snd, Nat.zero_add]

end LSystem.Cancellable
