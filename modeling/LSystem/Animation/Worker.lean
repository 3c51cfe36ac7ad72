import LSystem.Grammar.Request

/-!
# Workers

A background run for one version of the configuration. It asks at every
checkpoint whether its version is still the newest, and once more when the
expansion is over, also when it failed; if the version is outdated it ends and
sends nothing. Otherwise it sends its result, which can be received once.
-/

namespace LSystem

/-- The work of a run: the expansion, a last checkpoint, and the placing of what came out. -/
def Request.work {α : Type} [Scalar α] (request : Request α) (viewport : Viewport α) :
    Cancellable Checkpoint (Except Error (Figure α)) :=
  request.expansion.bind fun outcome =>
    .check .expanded fun _ => .done (outcome.map (Request.place viewport))

inductive WorkerState (α : Type)
  | running (work : Cancellable Checkpoint (Except Error (Figure α)))
  | sent (result : Except Error (Figure α))
  | ended

structure Worker (α : Type) where
  version : Nat
  state : WorkerState α

namespace Worker

variable {α : Type}

def start [Scalar α] (request : Request α) (viewport : Viewport α) (version : Nat) : Worker α :=
  ⟨version, .running (request.work viewport)⟩

/-- The run after one step, taken while `latest` is the newest version. -/
def step (latest : Nat) (worker : Worker α) : Worker α :=
  match worker.state with
  | .running (.done result) => { worker with state := .sent result }
  | .running (.check _ rest) =>
    { worker with state := if latest = worker.version then .running (rest ()) else .ended }
  | _ => worker

theorem version_step (latest : Nat) (worker : Worker α) :
    (worker.step latest).version = worker.version := by
  unfold step
  split <;> rfl

/-- The run when it is over, with `latest` the newest version all the time. -/
def finish (latest : Nat) (worker : Worker α) : Worker α :=
  match worker.state with
  | .running work =>
    match (work.run fun _ => latest != worker.version).1 with
    | some result => { worker with state := .sent result }
    | none => { worker with state := .ended }
  | _ => worker

theorem version_finish (latest : Nat) (worker : Worker α) :
    (worker.finish latest).version = worker.version := by
  unfold finish
  split
  · split <;> rfl
  · rfl

/-- Takes the result, if one was sent; a run that has ended without one is an error. Nothing yet
while the run goes on. -/
def receive? (worker : Worker α) : Option (Except Error (Figure α)) × Worker α :=
  match worker.state with
  | .running _ => (none, worker)
  | .sent result => (some result, { worker with state := .ended })
  | .ended => (some (.error .noResult), worker)

def wait (latest : Nat) (worker : Worker α) : Except Error (Figure α) × Worker α :=
  let (result, worker) := (worker.finish latest).receive?
  (result.getD (.error .noResult), worker)

theorem isSome_receive?_finish (latest : Nat) (worker : Worker α) :
    (worker.finish latest).receive?.1.isSome = true := by
  unfold finish
  cases hstate : worker.state with
  | running work =>
    dsimp only
    split <;> simp [receive?]
  | sent result => simp [receive?, hstate]
  | ended => simp [receive?, hstate]

end Worker

end LSystem
