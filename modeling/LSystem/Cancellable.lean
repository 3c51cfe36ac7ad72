/-!
# Cancellable computations

A computation with checkpoints, at each of which its owner may give it up. A
checkpoint carries a mark that says how far the work has come; the rest of the
work is not begun before the owner lets it go on. So giving up can leave
nothing half done: it yields no result at all.
-/

namespace LSystem

/-- Work with result `β` that stops at checkpoints marked by `μ`. -/
inductive Cancellable (μ β : Type)
  | done (result : β)
  | check (mark : μ) (rest : Unit → Cancellable μ β)

namespace Cancellable

variable {μ β γ : Type}

def bind : Cancellable μ β → (β → Cancellable μ γ) → Cancellable μ γ
  | done b, f => f b
  | check m rest, f => check m fun u => (rest u).bind f

def map (f : β → γ) (c : Cancellable μ β) : Cancellable μ γ := c.bind fun b => done (f b)

/-- The result of a computation that is never given up. -/
def result : Cancellable μ β → β
  | done b => b
  | check _ rest => (rest ()).result

def marks : Cancellable μ β → List μ
  | done _ => []
  | check m rest => m :: (rest ()).marks

/-- Runs under an owner who gives up at checkpoint `n`, counted from the number `asked` on, when
`givesUp n`; the result, none when given up, and the number of checkpoints asked so far. -/
def runFrom (givesUp : Nat → Bool) : Nat → Cancellable μ β → Option β × Nat
  | asked, done b => (some b, asked)
  | asked, check _ rest =>
    if givesUp asked then (none, asked + 1) else (rest ()).runFrom givesUp (asked + 1)

def run (givesUp : Nat → Bool) (c : Cancellable μ β) : Option β × Nat := c.runFrom givesUp 0

@[simp] theorem done_bind (b : β) (f : β → Cancellable μ γ) : (done b).bind f = f b := rfl

@[simp] theorem check_bind (m : μ) (rest : Unit → Cancellable μ β) (f : β → Cancellable μ γ) :
    (check m rest).bind f = check m fun u => (rest u).bind f := rfl

@[simp] theorem result_bind (c : Cancellable μ β) (f : β → Cancellable μ γ) :
    (c.bind f).result = (f c.result).result := by
  induction c with
  | done b => rfl
  | check m rest ih => exact ih ()

@[simp] theorem marks_bind (c : Cancellable μ β) (f : β → Cancellable μ γ) :
    (c.bind f).marks = c.marks ++ (f c.result).marks := by
  induction c with
  | done b => rfl
  | check m rest ih =>
    simp only [check_bind, marks, result, List.cons_append]
    rw [ih ()]

theorem runFrom_never {givesUp : Nat → Bool} (never : ∀ n, givesUp n = false)
    (c : Cancellable μ β) (asked : Nat) : (c.runFrom givesUp asked).1 = some c.result := by
  induction c generalizing asked with
  | done b => rfl
  | check m rest ih =>
    simp only [runFrom, never, Bool.false_eq_true, if_false, result]
    exact ih () (asked + 1)

theorem runFrom_const (gives : Bool) (c : Cancellable μ β) (asked other : Nat) :
    (c.runFrom (fun _ => gives) asked).1 = (c.runFrom (fun _ => gives) other).1 := by
  induction c generalizing asked other with
  | done b => rfl
  | check m rest ih =>
    simp only [runFrom]
    split
    · rfl
    · exact ih () (asked + 1) (other + 1)

end Cancellable

end LSystem
